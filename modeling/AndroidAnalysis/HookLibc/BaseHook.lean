import AndroidAnalysis.Cpp.StdMap
import AndroidAnalysis.HookLibc.MemoryFile

/-!
# `hook_libc/base_hook.h`

What the hooks keep: `hook_file_list`, the registered regular expressions with
the factories of their filters, and `g_hook`, the hooked files by their handle.

A filter is an object of a class that derives from `file_filter`: one of the two
of the library, or one of the program that uses it.  A `file_hook` is put into
`g_hook` once at most, so the table has the file itself in place of its address.
-/

namespace HookLibc

open Cpp

/-- The filters of the program that uses the library: their classes, the state of
an object of each class, and its callbacks. -/
structure UserFilters where
  Class : Type
  State : Class → Type
  callbacks : (c : Class) → FileFilter (State c)

/-- A class that derives from `file_filter`. -/
inductive FilterClass (U : UserFilters)
  | memoryFile
  | noneFileFilter
  | user (c : U.Class)

namespace FilterClass

variable {U : UserFilters}

/-- The state of an object of the class. -/
def State : FilterClass U → Type
  | .memoryFile => MemoryFile
  | .noneFileFilter => Unit
  | .user c => U.State c

/-- The callbacks of the class. -/
def callbacks (b : Build) : (c : FilterClass U) → FileFilter c.State
  | .memoryFile => HookLibc.memoryFile b
  | .noneFileFilter => HookLibc.noneFileFilter
  | .user c => U.callbacks c

end FilterClass

/-- A filter: its class and its state. -/
abbrev Filter (U : UserFilters) := Σ c : FilterClass U, c.State

/-- A `file_hook` with its `hook_info`. -/
structure BaseHookHandle (U : UserFilters) where
  fileInstanceId : Int
  path : Str
  callBack : Filter U

/-- `inside_hook_params`.  The factory gives a filter each time it is asked for
one, by the index of the file it is for. -/
structure InsideHookParams (U : UserFilters) where
  regPath : Str
  ffactory : Int → Filter U
  openIndex : Int

/-- `hook_file_list`, in the order of its keys. -/
abbrev HookFileList (U : UserFilters) := List (Int × InsideHookParams U)

/-- What the hooks keep. -/
structure Hooks (U : UserFilters) where
  hookFileList : HookFileList U
  gHook : StdMap Handle (BaseHookHandle U)

variable {U : UserFilters}

/-- `check_and_create_handle`: the list, and the new handle. -/
def checkAndCreateHandle (regexec : Str → Str → Bool) (fileName : Str) :
    HookFileList U → HookFileList U × Option (BaseHookHandle U)
  | [] => ([], none)
  | (key, item) :: rest =>
      if regexec item.regPath fileName then
        ((key, { item with openIndex := asInt (item.openIndex + 1) }) :: rest,
          some ⟨item.openIndex, fileName, item.ffactory item.openIndex⟩)
      else
        let r := checkAndCreateHandle regexec fileName rest
        ((key, item) :: r.1, r.2)

namespace Hooks

variable (st : Hooks U)

/-- `_get_hook_handle`. -/
def getHookHandle (handle : Handle) : Option (BaseHookHandle U) := st.gHook handle

/-- `_insert_hook_handle`, which keeps a handle that is there. -/
def insertHookHandle (handle : Handle) (phook : BaseHookHandle U) : Hooks U :=
  { st with gHook := st.gHook.insert handle phook }

/-- `_remove_hook_handle`, which erases what `find` gives. -/
def removeHookHandle (handle : Handle) : Except Fault (Hooks U) :=
  match st.gHook handle with
  | some _ => .ok { st with gHook := Function.update st.gHook handle none }
  | none => .error .undefined

/-- The table after a method of the file under a handle. -/
def setCallBack (handle : Handle) (phook : BaseHookHandle U) (callBack : Filter U) : Hooks U :=
  { st with gHook := Function.update st.gHook handle (some { phook with callBack := callBack }) }

end Hooks

/-- Where no registered expression matches, nothing is created. -/
theorem checkAndCreateHandle_of_unmatched {regexec : Str → Str → Bool} {fileName : Str}
    {list : HookFileList U} (h : ∀ item ∈ list, regexec item.2.regPath fileName = false) :
    checkAndCreateHandle regexec fileName list = (list, none) := by
  induction list with
  | nil => rfl
  | cons item list ih =>
      rw [checkAndCreateHandle, h item List.mem_cons_self, if_neg Bool.false_ne_true,
        ih fun i hi => h i (List.mem_cons_of_mem item hi)]

end HookLibc
