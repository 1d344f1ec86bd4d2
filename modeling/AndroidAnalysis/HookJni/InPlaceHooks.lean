import AndroidAnalysis.HookJni.JniEnvHook
import AndroidAnalysis.Interposition.Chains

/-!
# Hooking the tables in place

`init_global_hook_jni_env` and `init_hook_java_vm` write their trampolines into the
table of the virtual machine.  Each entry of the program's lists saves the pointer of
its slot in its own `origin_call` and puts a trampoline that holds the entry into
the slot.

Called once, the functions leave every slot with a way back to its function.  Called
again, they save trampolines over the functions, and no entry leads to a function
any more (`reachesOrigin_iff`).  `create_hook_jni_env` and `create_hook_java_vm` do
not have this problem: they write into a new table and read an untouched one.
-/

namespace HookJni

open Interposition

/-! ## The entries and their slots -/

/-- Where an entry is: its list and its place in it. -/
abbrev EntryRef := Nat × Nat

/-- The slots and the entries that the loops visit in the lists from one on. -/
def entriesFrom : Nat → List (List MethodInfo) → List (Nat × EntryRef)
  | _, [] => []
  | out, infos :: tables =>
      ((visited infos).zipIdx.map fun p => (p.1.index, (out, p.2))) ++ entriesFrom (out + 1) tables

/-- A table of the virtual machine, and the `origin_call` of each entry. -/
abbrev VmTable (F : Type) := State F Nat EntryRef

/-- `init_global_hook_jni_env`. -/
def initGlobalHookJniEnv {F : Type} (vm : VmTable F) : VmTable F :=
  pass (entriesFrom 0 jniAllMethods) vm

/-- `init_hook_java_vm`. -/
def initHookJavaVm {F : Type} (vm : VmTable F) : VmTable F :=
  pass (entriesFrom 0 [jniJvmMethodInfo]) vm

/-- One of the two functions. -/
inductive InitFunc
  | globalHookJniEnv
  | hookJavaVm

/-- A call. -/
def InitFunc.call {F : Type} (vm : VmTable F) : InitFunc → VmTable F
  | .globalHookJniEnv => initGlobalHookJniEnv vm
  | .hookJavaVm => initHookJavaVm vm

/-- A number of calls on the same table. -/
def InitFunc.calls {F : Type} (init : InitFunc) : Nat → VmTable F → VmTable F
  | 0, vm => vm
  | n + 1, vm => init.call (init.calls n vm)

/-- The entries of a function. -/
def InitFunc.entries : InitFunc → List (Nat × EntryRef)
  | .globalHookJniEnv => entriesFrom 0 jniAllMethods
  | .hookJavaVm => entriesFrom 0 [jniJvmMethodInfo]

/-- The slots that a function hooks. -/
def InitFunc.slots (init : InitFunc) : List Nat := init.entries.map Prod.fst

/-- A table as the virtual machine made it. -/
def vmTable {F : Type} (table : Nat → F) (origin : EntryRef → Option (Ptr F EntryRef)) :
    VmTable F := ⟨fun slot => .code (table slot), origin⟩

/-- A call through a slot leads to its function in the end. -/
def ReachesOrigin {F : Type} (table : Nat → F) (slot : Nat) (vm : VmTable F) : Prop :=
  Reaches vm.saved (vm.slots slot) (table slot)

/-! ## The entries are different -/

theorem le_of_mem_entriesFrom {out : Nat} {tables : List (List MethodInfo)} {e : Nat × EntryRef}
    (h : e ∈ entriesFrom out tables) : out ≤ e.2.1 := by
  induction tables generalizing out with
  | nil => exact absurd h List.not_mem_nil
  | cons infos tables ih =>
      rcases List.mem_append.mp h with h | h
      · obtain ⟨p, -, rfl⟩ := List.mem_map.mp h
        exact Nat.le_refl out
      · exact Nat.le_of_succ_le (ih h)

/-- No entry is visited twice. -/
theorem nodup_entriesFrom (out : Nat) (tables : List (List MethodInfo)) :
    ((entriesFrom out tables).map Prod.snd).Nodup := by
  induction tables generalizing out with
  | nil => exact List.nodup_nil
  | cons infos tables ih =>
      rw [entriesFrom, List.map_append, List.map_map]
      refine List.nodup_append.mpr ⟨?_, ih (out + 1), ?_⟩
      · have hplaces : ((visited infos).zipIdx.map
            (Prod.snd ∘ fun p => (p.1.index, ((out, p.2) : EntryRef)))) =
            (List.range' 0 (visited infos).length).map fun k => (out, k) := by
          rw [← List.zipIdx_map_snd 0 (visited infos), List.map_map]
          rfl
        rw [hplaces]
        exact (List.nodup_range' 1).map fun k l hkl => (Prod.mk.inj hkl).2
      · intro r hr r' hr'
        obtain ⟨p, -, rfl⟩ := List.mem_map.mp hr
        obtain ⟨e, he, rfl⟩ := List.mem_map.mp hr'
        have hle := le_of_mem_entriesFrom he
        rintro heq
        rw [← heq] at hle
        exact absurd hle (Nat.not_succ_le_self out)

/-! ## Calls and passes -/

theorem InitFunc.calls_eq {F : Type} (init : InitFunc) (n : Nat) (vm : VmTable F) :
    init.calls n vm = passes init.entries n vm := by
  induction n with
  | zero => rfl
  | succ n ih =>
      rw [InitFunc.calls, passes, ih]
      cases init <;> rfl

theorem InitFunc.nodup_entries (init : InitFunc) : (init.entries.map Prod.snd).Nodup := by
  cases init <;> exact nodup_entriesFrom 0 _

/-- A hooked slot leads to its function exactly after one call. -/
theorem reachesOrigin_iff {F : Type} (table : Nat → F)
    (origin : EntryRef → Option (Ptr F EntryRef)) (init : InitFunc) {n : Nat} (hn : 1 ≤ n)
    {slot : Nat} (hslot : slot ∈ init.slots) :
    ReachesOrigin table slot (init.calls n (vmTable table origin)) ↔ n = 1 := by
  rw [ReachesOrigin, init.calls_eq]
  exact reaches_passes_iff init.nodup_entries (fun _ => rfl) hn hslot

/-- `GetVersion` after one call. -/
theorem reachesOrigin_getVersion :
    ReachesOrigin id 4 (InitFunc.globalHookJniEnv.calls 1 (vmTable id fun _ => none)) :=
  (reachesOrigin_iff id _ .globalHookJniEnv (by decide) (by decide)).mpr rfl

/-- `GetVersion` after two calls. -/
theorem not_reachesOrigin_getVersion :
    ¬ ReachesOrigin id 4 (InitFunc.globalHookJniEnv.calls 2 (vmTable id fun _ => none)) := by
  rw [ReachesOrigin, InitFunc.calls_eq]
  exact not_reaches_passes _ _ 0 (by decide) 4

end HookJni
