import AndroidAnalysis.Cpp.String

/-!
# `com/plug/xposed/tool/tool_pass_root.java`

The plug replaces `File.exists` and `Runtime.exec` so that an app does not find the
signs of root.  A replacement runs on every invocation of its method, and where it
has nothing to hide it invokes the method again by name, through
`XposedHelpers.callMethod`.

For `File.exists` that is the replaced method, so the replacement runs again on the
same file and never gives an answer (`invoke_exists_eq_none`).  For `Runtime.exec`
the parameter types are passed among the arguments, and there is no `exec` with six
parameters, so the call throws (`invoke_exec_throws`).

The counter of a run is the depth of its invocations.  What the original methods do,
and the two methods of `File` and `String` that the plug asks for a path, are data
of the model, and so is `callMethod`, of which only what its documentation says is used
(`CallMethod.Documented`).
-/

namespace Plug

open Cpp

/-! ## Methods and values -/

/-- The class of an object. -/
inductive JavaType
  | bool
  | string
  | stringArray
  | file
  | runtime
  | cls
  | process
deriving DecidableEq

/-- A reference, or a value that is boxed. -/
inductive Value
  | null
  | bool (b : Bool)
  | string (s : Str)
  | strings (items : List (Option Str))
  | file (number : Nat)
  | runtime
  | cls (t : JavaType)
  | process (number : Nat)
deriving DecidableEq

def Value.typeOf : Value → Option JavaType
  | .null => none
  | .bool _ => some .bool
  | .string _ => some .string
  | .strings _ => some .stringArray
  | .file _ => some .file
  | .runtime => some .runtime
  | .cls _ => some .cls
  | .process _ => some .process

/-- What is thrown.  `callMethod` wraps what the method it calls throws. -/
inductive Throwable
  | noSuchMethodError
  | nullPointerException
  | classCastException
  | other (number : Nat)
  | invocationTargetError (cause : Throwable)
deriving DecidableEq

/-- How an invocation ends. -/
inductive JavaResult
  | returned (v : Value)
  | threw (e : Throwable)
deriving DecidableEq

structure Method where
  owner : JavaType
  name : Str
  params : List JavaType
deriving DecidableEq

def fileExists : Method := ⟨.file, "exists".toList, []⟩

def runtimeExec : Method := ⟨.runtime, "exec".toList, [.stringArray, .stringArray, .file]⟩

/-- The methods `exists` of `File` and `exec` of `Runtime`. -/
def methods : List Method := [
  fileExists,
  ⟨.runtime, "exec".toList, [.string]⟩,
  ⟨.runtime, "exec".toList, [.string, .stringArray]⟩,
  ⟨.runtime, "exec".toList, [.string, .stringArray, .file]⟩,
  ⟨.runtime, "exec".toList, [.stringArray]⟩,
  ⟨.runtime, "exec".toList, [.stringArray, .stringArray]⟩,
  runtimeExec]

/-- Arguments fit parameters: as many, and each of the type or `null`. -/
def accepts : List JavaType → List Value → Bool
  | [], [] => true
  | p :: ps, a :: as => (a.typeOf = none ∨ a.typeOf = some p) && accepts ps as
  | _, _ => false

/-- The method is the only one of the class and the name that takes the arguments. -/
def Method.OnlyFor (m : Method) (owner : JavaType) (name : Str) (args : List Value) : Prop :=
  methods.filter (fun m' => m'.owner = owner ∧ m'.name = name ∧ accepts m'.params args) = [m]

/-- No method of the class and the name takes the arguments. -/
def NoneFor (owner : JavaType) (name : Str) (args : List Value) : Prop :=
  ∀ m ∈ methods, ¬ (m.owner = owner ∧ m.name = name ∧ accepts m.params args)

/-- An invocation of a method, which may not end. -/
abbrev Invocation := Method → Value → List Value → Option JavaResult

/-- `XposedHelpers.callMethod(obj, methodName, args...)`, with the invocations it makes. -/
abbrev CallMethod := Invocation → Value → Str → List Value → Option JavaResult

/-- What the documentation of `callMethod` says: it invokes the method that the arguments
are for and hands on what that returns or, wrapped, what it throws, and where there is
no such method it throws.  It does not end where the method it invokes does not. -/
structure CallMethod.Documented (callMethod : CallMethod) : Prop where
  returns : ∀ invoke obj owner name args m v, obj.typeOf = some owner → m.OnlyFor owner name args →
    invoke m obj args = some (.returned v) →
      callMethod invoke obj name args = some (.returned v)
  throws : ∀ invoke obj owner name args m e, obj.typeOf = some owner → m.OnlyFor owner name args →
    invoke m obj args = some (.threw e) →
      callMethod invoke obj name args = some (.threw (.invocationTargetError e))
  unanswered : ∀ invoke obj owner name args m, obj.typeOf = some owner → m.OnlyFor owner name args →
    invoke m obj args = none → callMethod invoke obj name args = none
  noSuchMethod : ∀ invoke obj owner name args, obj.typeOf = some owner → NoneFor owner name args →
    callMethod invoke obj name args = some (.threw .noSuchMethodError)

/-- Arguments that fit are as many as the parameters. -/
theorem length_of_accepts {ps : List JavaType} {as : List Value} (h : accepts ps as) :
    ps.length = as.length := by
  induction ps generalizing as with
  | nil =>
      cases as with
      | nil => rfl
      | cons a as => cases h
  | cons p ps ih =>
      cases as with
      | nil => cases h
      | cons a as => exact congrArg (· + 1) (ih (Bool.and_eq_true_iff.mp h).2)

/-- No method has six parameters. -/
theorem noneFor_six (owner : JavaType) (name : Str) {args : List Value} (h : args.length = 6) :
    NoneFor owner name args := by
  rintro m hm ⟨-, -, haccepts⟩
  have hfewer : ∀ m ∈ methods, m.params.length ≠ 6 := by decide
  exact hfewer m hm ((length_of_accepts haccepts).trans h)

/-! ## The replacements -/

/-- The methods the plug asks, what the replaced methods do by themselves, and
`XposedHelpers.callMethod`. -/
structure JavaWorld where
  getAbsolutePath : Nat → Str
  toLowerCase : Str → Str
  original : Method → Value → List Value → JavaResult
  callMethod : CallMethod

/-- `s.contains(part)`. -/
def contains (s part : Str) : Bool := (find s part).isSome

/-- The paths that are hidden. -/
def isHidden (filePath : Str) : Bool :=
  contains filePath "superuser.apk".toList || contains filePath "/su".toList ||
    contains filePath "xposed".toList || contains filePath "magisk".toList

/-- The path of a file as the replacement compares it. -/
def JavaWorld.filePath (w : JavaWorld) (file : Nat) : Str :=
  w.toLowerCase (w.getAbsolutePath file)

/-- The text of the `StringBuilder`. -/
def joined (cmds : List (Option Str)) : Str :=
  cmds.flatMap fun item => item.getD "null".toList ++ [' ']

/-- A command that asks where `su` is. -/
def isProbe (cmds : List (Option Str)) : Bool :=
  contains (joined cmds) "which".toList && contains (joined cmds) "su".toList

/-- `replaceHookedMethod` of `File.exists`. -/
def replaceExists (w : JavaWorld) (invoke : Invocation) (thisObject : Value) :
    Option JavaResult :=
  match thisObject with
  | .file file =>
      if isHidden (w.filePath file) then some (.returned (.bool false))
      else w.callMethod invoke thisObject "exists".toList []
  | .null => some (.threw .nullPointerException)
  | _ => some (.threw .classCastException)

/-- `replaceHookedMethod` of `Runtime.exec`. -/
def replaceExec (w : JavaWorld) (invoke : Invocation) (thisObject : Value) (args : List Value) :
    Option JavaResult :=
  match args with
  | [.strings cmds, envp, dir] =>
      if isProbe cmds then
        w.callMethod invoke thisObject "exec".toList
          [.cls .string, .string "/system/xbin/which xxxxxxxxxxxxxxxxxxxxxx".toList]
      else
        w.callMethod invoke thisObject "exec".toList
          [.cls .stringArray, .cls .stringArray, .cls .file, .strings cmds, envp, dir]
  | .null :: _ => some (.threw .nullPointerException)
  | _ => some (.threw .classCastException)

/-- An invocation after `on_application_class_loader`: the replacement where the method has
one, and the method itself otherwise. -/
def invoke (w : JavaWorld) : Nat → Invocation
  | 0, _, _, _ => none
  | n + 1, m, thisObject, args =>
      if m = fileExists then replaceExists w (invoke w n) thisObject
      else if m = runtimeExec then replaceExec w (invoke w n) thisObject args
      else some (w.original m thisObject args)

/-- `File.exists` returns what the original returns. -/
def ExistsTransparent (w : JavaWorld) (file : Nat) : Prop :=
  ∃ n, invoke w n fileExists (.file file) [] = some (w.original fileExists (.file file) [])

/-- `Runtime.exec` returns what the original returns. -/
def ExecTransparent (w : JavaWorld) (cmds : List (Option Str)) (envp dir : Value) : Prop :=
  ∃ n, invoke w n runtimeExec .runtime [.strings cmds, envp, dir] =
    some (w.original runtimeExec .runtime [.strings cmds, envp, dir])

/-! ## `File.exists` -/

section
variable {w : JavaWorld} (hcall : w.callMethod.Documented)

include hcall

/-- A file that is not hidden is asked for again and again. -/
theorem invoke_exists_eq_none {file : Nat} (h : ¬ isHidden (w.filePath file)) (n : Nat) :
    invoke w n fileExists (.file file) [] = none := by
  induction n with
  | zero => rfl
  | succ n ih =>
      have honly : fileExists.OnlyFor .file "exists".toList [] := rfl
      have hreplace : invoke w (n + 1) fileExists (.file file) [] =
          w.callMethod (invoke w n) (.file file) "exists".toList [] := if_neg h
      rw [hreplace]
      exact hcall.unanswered _ _ .file _ _ _ rfl honly ih

/-! ## `Runtime.exec` -/

/-- The replacement throws where it delegates. -/
theorem invoke_exec_throws {cmds : List (Option Str)} (h : ¬ isProbe cmds) (envp dir : Value)
    (n : Nat) : invoke w (n + 1) runtimeExec .runtime [.strings cmds, envp, dir] =
      some (.threw .noSuchMethodError) := by
  have hreplace : invoke w (n + 1) runtimeExec .runtime [.strings cmds, envp, dir] =
      w.callMethod (invoke w n) .runtime "exec".toList
        [.cls .stringArray, .cls .stringArray, .cls .file, .strings cmds, envp, dir] := if_neg h
  rw [hreplace]
  exact hcall.noSuchMethod _ _ .runtime _ _ rfl (noneFor_six _ _ rfl)

/-- No replacement is transparent on any input it does not hide: `exists` does not return,
and `exec` throws what the original never throws. -/
theorem not_transparent (hexec : ∀ args,
      w.original runtimeExec .runtime args ≠ .threw .noSuchMethodError) :
    (∀ file, ¬ isHidden (w.filePath file) → ¬ ExistsTransparent w file) ∧
      ∀ cmds envp dir, ¬ isProbe cmds → ¬ ExecTransparent w cmds envp dir := by
  constructor
  · rintro file h ⟨n, hn⟩
    rw [invoke_exists_eq_none hcall h] at hn
    exact nomatch hn
  · rintro cmds envp dir h ⟨n, hn⟩
    cases n with
    | zero => exact nomatch hn
    | succ n =>
        rw [invoke_exec_throws hcall h] at hn
        exact hexec _ (Option.some.inj hn).symm

end

/-! ## A file that is not hidden -/

/-- What `callMethod` makes of how the method it invokes ends. -/
def handedOn : Option JavaResult → Option JavaResult
  | none => none
  | some (.returned v) => some (.returned v)
  | some (.threw e) => some (.threw (.invocationTargetError e))

/-- A `callMethod` that takes the first method the arguments are for. -/
def callFirst : CallMethod := fun invoke obj name args =>
  match methods.filter fun m => obj.typeOf = some m.owner ∧ m.name = name ∧ accepts m.params args with
  | [] => some (.threw .noSuchMethodError)
  | m :: _ => handedOn (invoke m obj args)

/-- A world in which every file is `/data` and exists, and every command starts. -/
def dataWorld : JavaWorld where
  getAbsolutePath _ := "/data".toList
  toLowerCase s := s.map Char.toLower
  original m _ _ := if m = fileExists then .returned (.bool true) else .returned (.process 0)
  callMethod := callFirst

/-- The methods that the arguments are for, by the class of the object. -/
theorem filter_typeOf {obj : Value} {owner : JavaType} (h : obj.typeOf = some owner) (name : Str)
    (args : List Value) :
    methods.filter (fun m => obj.typeOf = some m.owner ∧ m.name = name ∧ accepts m.params args) =
      methods.filter fun m => m.owner = owner ∧ m.name = name ∧ accepts m.params args := by
  refine List.filter_congr fun m _ => decide_eq_decide.mpr ?_
  rw [h, Option.some_inj, eq_comm (a := owner)]

theorem callFirst_of_onlyFor (invoke : Invocation) {obj : Value} {owner : JavaType} {name : Str}
    {args : List Value} {m : Method} (hobj : obj.typeOf = some owner)
    (honly : m.OnlyFor owner name args) :
    callFirst invoke obj name args = handedOn (invoke m obj args) := by
  rw [callFirst, filter_typeOf hobj, honly]

theorem callFirst_documented : callFirst.Documented where
  returns invoke obj owner name args m v hobj honly hresult := by
    rw [callFirst_of_onlyFor invoke hobj honly, hresult]
    rfl
  throws invoke obj owner name args m e hobj honly hresult := by
    rw [callFirst_of_onlyFor invoke hobj honly, hresult]
    rfl
  unanswered invoke obj owner name args m hobj honly hresult := by
    rw [callFirst_of_onlyFor invoke hobj honly, hresult]
    rfl
  noSuchMethod invoke obj owner name args hobj hnone := by
    have hnil : methods.filter (fun m => m.owner = owner ∧ m.name = name ∧ accepts m.params args) =
        [] := List.filter_eq_nil_iff.mpr fun m hm => by simpa using hnone m hm
    rw [callFirst, filter_typeOf hobj, hnil]

theorem dataWorld_exec_ne (args : List Value) :
    dataWorld.original runtimeExec .runtime args ≠ .threw .noSuchMethodError := by
  intro h
  have hreturned : JavaResult.returned (.process 0) = .threw .noSuchMethodError := h
  cases hreturned

theorem not_transparent_data : ¬ ExistsTransparent dataWorld 0 ∧
    ¬ ExecTransparent dataWorld [some "ls".toList] .null .null :=
  ⟨(not_transparent callFirst_documented dataWorld_exec_ne).1 0 (by decide),
    (not_transparent callFirst_documented dataWorld_exec_ne).2 _ _ _ (by decide)⟩

/-- Asking for `/data` is not answered. -/
theorem exists_data_not_answered : ¬ ExistsTransparent dataWorld 0 := by
  rintro ⟨n, hn⟩
  rw [invoke_exists_eq_none callFirst_documented (by decide)] at hn
  exact nomatch hn

end Plug
