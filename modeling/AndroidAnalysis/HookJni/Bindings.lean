import AndroidAnalysis.HookJni.RegisterNatives
import AndroidAnalysis.Cpp.StdMap

/-!
# What the virtual machine binds

The original `RegisterNatives` binds each method of a table to the pointer given
for it, and a later registration replaces an earlier one.  The program decides
by the function pointer alone whether an entry gets a trampoline, and a pointer
gets one only once.
-/

namespace HookJni

open Cpp Machine RouteFunc Utils

/-! ## Bindings -/

/-- A native method of a class. -/
structure MethodKey where
  cls : Nat
  name : Str
  signature : Str
deriving DecidableEq

/-- What a table binds the methods of a class to. -/
def bindingsOf (cls : Nat) (passed : List (JniNativeMethod FnPtr)) : List (MethodKey × FnPtr) :=
  passed.map fun m => (⟨cls, m.name, m.signature⟩, m.fnPtr)

/-- All bindings made, in order. -/
def Process.bindings (p : Process) : List (MethodKey × FnPtr) :=
  p.registrations.flatMap fun r => bindingsOf r.cls r.passed

/-- What a method is bound to: by its latest registration. -/
def Process.bound (p : Process) (key : MethodKey) : Option FnPtr := lastWrite p.bindings key

/-- Where a signature is accepted, the last binding of a log is to a trampoline
of `hook_native_func`. -/
def LogComplete (log : List (MethodKey × FnPtr)) : Prop :=
  ∀ key ptr, lastWrite log key = some ptr → Accepted key.signature →
    ∃ context, ptr = .shellcode context

/-- Every registered method with an accepted signature is bound to a trampoline
of `hook_native_func`. -/
def TracingComplete (p : Process) : Prop :=
  ∀ key ptr, p.bound key = some ptr → Accepted key.signature → ∃ context, ptr = .shellcode context

/-! ## Fresh pointers -/

/-- The pointers of a table are fresh after the `earlier` entries: where a
signature is accepted and no later entry of the table is for the same method, no
entry before with an accepted signature has the pointer. -/
def FreshTable (earlier : MethodTable) : MethodTable → Prop
  | [] => True
  | m :: method =>
      (Accepted m.signature →
        (∃ m' ∈ method, m'.name = m.name ∧ m'.signature = m.signature) ∨
          ∀ m' ∈ earlier, Accepted m'.signature → m'.fnPtr ≠ m.fnPtr) ∧
        FreshTable (earlier ++ [m]) method

/-- The pointers with an info are those of the earlier entries with an accepted
signature. -/
def Known (regs : List NativeMethodInfo) (earlier : MethodTable) : Prop :=
  ∀ fnPtr, isRepeat regs fnPtr = true ↔ ∃ m ∈ earlier, Accepted m.signature ∧ m.fnPtr = fnPtr

section
variable {refl : Reflection} {c : BitVec 64} {regs : List NativeMethodInfo} {earlier : MethodTable}

theorem isRepeat_append_singleton (regs : List NativeMethodInfo) (info : NativeMethodInfo)
    (fnPtr : BitVec 64) :
    isRepeat (regs ++ [info]) fnPtr = true ↔ isRepeat regs fnPtr = true ∨ info.addr = fnPtr := by
  rw [isRepeat, List.any_append, Bool.or_eq_true, List.any_cons, List.any_nil, Bool.or_false,
    decide_eq_true_eq]
  rfl

/-- Changes of an info change no address. -/
theorem isRepeat_set {i : Nat} {info info' : NativeMethodInfo} (hi : regs[i]? = some info)
    (hs : SamePointers info info') (fnPtr : BitVec 64) :
    isRepeat (regs.set i info') fnPtr = isRepeat regs fnPtr := by
  induction regs generalizing i with
  | nil => exact nomatch hi
  | cons item regs ih =>
      cases i with
      | zero =>
          cases hi
          rw [List.set_cons_zero, isRepeat, isRepeat, List.any_cons, List.any_cons, hs.1]
      | succ i =>
          rw [List.set_cons_succ, isRepeat, List.any_cons]
          exact congrArg _ (ih hi)

/-- A round of the loop: an entry whose signature is accepted gets a trampoline
exactly when its pointer is new. -/
theorem registerEntry_known (hk : Known regs earlier) {m : JniNativeMethod (BitVec 64)}
    {r : JniNativeMethod FnPtr × List NativeMethodInfo} (h : registerEntry refl c regs m = .ok r) :
    Known r.2 (earlier ++ [m]) ∧
      (Accepted m.signature → ((∃ context, r.1.fnPtr = .shellcode context) ↔
        ∀ m' ∈ earlier, Accepted m'.signature → m'.fnPtr ≠ m.fnPtr)) := by
  have hsplit (fnPtr : BitVec 64) :
      (∃ m' ∈ earlier ++ [m], Accepted m'.signature ∧ m'.fnPtr = fnPtr) ↔
        isRepeat regs fnPtr = true ∨ Accepted m.signature ∧ m.fnPtr = fnPtr := by
    rw [hk fnPtr]
    constructor
    · rintro ⟨m', hm', hacc⟩
      obtain hm' | hm' := List.mem_append.mp hm'
      · exact .inl ⟨m', hm', hacc⟩
      · exact .inr (List.mem_singleton.mp hm' ▸ hacc)
    · rintro (⟨m', hm', hacc⟩ | hacc)
      · exact ⟨m', List.mem_append_left _ hm', hacc⟩
      · exact ⟨m, List.mem_append_right _ (List.mem_singleton_self m), hacc⟩
  have hnew : (∀ m' ∈ earlier, Accepted m'.signature → m'.fnPtr ≠ m.fnPtr) ↔
      ¬ isRepeat regs m.fnPtr = true := by
    rw [hk m.fnPtr]
    constructor
    · rintro hne ⟨m', hm', hacc, heq⟩
      exact hne m' hm' hacc heq
    · exact fun hne m' hm' hacc heq => hne ⟨m', hm', hacc, heq⟩
  obtain ⟨hcase, rfl⟩ | ⟨hfresh, parsed, className, hparse, -, rfl⟩ := registerEntry_cases h
  · refine ⟨fun fnPtr => ?_, fun hacc => ?_⟩
    · rw [hsplit]
      refine ⟨.inl, fun hor => ?_⟩
      obtain hrepeat | ⟨hacc, rfl⟩ := hor
      · exact hrepeat
      · exact hcase.resolve_right (not_not_intro hacc)
    · rw [hnew]
      refine iff_of_false ?_ (not_not_intro (hcase.resolve_right (not_not_intro hacc)))
      rintro ⟨context, hptr⟩
      exact nomatch hptr
  · refine ⟨fun fnPtr => ?_, fun hacc => ?_⟩
    · rw [hsplit, isRepeat_append_singleton]
      exact or_congr_right ⟨fun heq => ⟨⟨parsed, hparse⟩, heq⟩, fun hacc => hacc.2⟩
    · rw [hnew, hfresh]
      exact iff_of_true ⟨_, rfl⟩ Bool.false_ne_true

/-- The methods a table binds are those of the table given. -/
theorem hookRegisterNatives_keys {method : MethodTable}
    {r : List (JniNativeMethod FnPtr) × List NativeMethodInfo}
    (h : hookRegisterNatives refl c method regs = .ok r) (cls : Nat) :
    (bindingsOf cls r.1).map Prod.fst = method.map fun m => ⟨cls, m.name, m.signature⟩ := by
  obtain ⟨passed, regs'⟩ := r
  have hp : List.Forall₂ (Preserved regs') method passed := (hookRegisterNatives_preserved h).1
  clear h
  rw [bindingsOf, List.map_map]
  induction hp with
  | nil => rfl
  | cons hm _ ih =>
      rw [List.map_cons, List.map_cons, ih]
      congr 1
      exact MethodKey.mk.injEq .. ▸ ⟨rfl, hm.name, hm.signature⟩

/-- One more binding before a log. -/
theorem logComplete_cons {key : MethodKey} {ptr : FnPtr} {log : List (MethodKey × FnPtr)} :
    LogComplete ((key, ptr) :: log) ↔
      (Accepted key.signature → key ∈ log.map Prod.fst ∨ ∃ context, ptr = .shellcode context) ∧
        LogComplete log := by
  constructor
  · refine fun hc => ⟨fun hacc => ?_, fun key' ptr' hlast hacc => ?_⟩
    · by_cases hmem : key ∈ log.map Prod.fst
      · exact .inl hmem
      · have hnone : lastWrite log key = none := lastWrite_eq_none_iff.mpr fun w hw hk =>
          hmem (hk ▸ List.mem_map_of_mem hw)
        exact .inr (hc key ptr (by rw [lastWrite_cons, hnone, Option.none_or, if_pos rfl]) hacc)
    · exact hc key' ptr' (by rw [lastWrite_cons, hlast, Option.some_or]) hacc
  · rintro ⟨hfirst, hlog⟩ key' ptr' hlast hacc
    rw [lastWrite_cons] at hlast
    obtain hl | ⟨hnone, hl⟩ := Option.or_eq_some_iff.mp hlast
    · exact hlog key' ptr' hl hacc
    · split at hl
      next hkey =>
        cases hl
        subst hkey
        refine (hfirst hacc).resolve_left fun hmem => ?_
        obtain ⟨w, hw, hk⟩ := List.mem_map.mp hmem
        exact lastWrite_eq_none_iff.mp hnone w hw hk
      next => exact nomatch hl

/-- The bindings of a table are complete exactly when its pointers are fresh. -/
theorem hookRegisterNatives_complete_iff {method : MethodTable}
    {r : List (JniNativeMethod FnPtr) × List NativeMethodInfo} (hk : Known regs earlier)
    (h : hookRegisterNatives refl c method regs = .ok r) (cls : Nat) :
    Known r.2 (earlier ++ method) ∧
      (LogComplete (bindingsOf cls r.1) ↔ FreshTable earlier method) := by
  induction method generalizing regs earlier r with
  | nil =>
      cases h
      rw [List.append_nil]
      exact ⟨hk, iff_of_true (fun _ _ hl => nomatch hl) trivial⟩
  | cons m method ih =>
      obtain ⟨first, hfirst, h⟩ := bind_eq_ok.mp h
      obtain ⟨rest, hrest, h⟩ := bind_eq_ok.mp h
      cases h
      obtain ⟨hknown, hshell⟩ := registerEntry_known hk hfirst
      obtain ⟨hp, -⟩ := registerEntry_preserved hfirst
      obtain ⟨hknown', hcomplete⟩ := ih hknown hrest
      rw [List.append_assoc, List.singleton_append] at hknown'
      refine ⟨hknown', ?_⟩
      rw [bindingsOf, List.map_cons, logComplete_cons, ← bindingsOf, hcomplete, FreshTable,
        hookRegisterNatives_keys hrest, hp.name, hp.signature]
      refine and_congr_left fun _ => forall_congr' fun hacc => or_congr ?_ (hshell hacc)
      simp

end

/-! ## Runs -/

section
variable {f : Installed} {p p' : Process} {e : Event}

/-- The entries of all tables the events have registered. -/
def tables (events : List Event) : MethodTable :=
  (events.filterMap Event.registers).flatMap Prod.snd

/-- A call of `RegisterNatives` after the events gives fresh pointers only. -/
def Event.Fresh (past : List Event) (e : Event) : Prop :=
  ∀ cls method, e.registers = some (cls, method) → FreshTable (tables past) method

theorem tables_of_registers {cls : Nat} {method : MethodTable} (past : List Event)
    (he : e.registers = some (cls, method)) : tables (past ++ [e]) = tables past ++ method := by
  rw [tables, List.filterMap_append, List.filterMap_cons_some he, List.flatMap_append]
  exact congrArg _ (List.append_nil method)

theorem tables_of_not_registers (past : List Event) (he : e.registers = none) :
    tables (past ++ [e]) = tables past := by
  rw [tables, List.filterMap_append, List.filterMap_cons_none he, List.filterMap_nil,
    List.append_nil]
  rfl

/-- An event registers a table, or binds nothing and makes no info. -/
theorem Effect.registers_cases (h : Effect f p e p') :
    (e.registers = none ∧ p'.bindings = p.bindings ∧
        ∀ fnPtr, isRepeat p'.regs fnPtr = isRepeat p.regs fnPtr) ∨
      ∃ refl c cls method r, e.registers = some (cls, method) ∧
        hookRegisterNatives refl c method p.regs = .ok r ∧ p'.regs = r.2 ∧
        p'.bindings = p.bindings ++ bindingsOf cls r.1 := by
  cases h with
  | onLoad => exact .inl ⟨rfl, rfl, fun _ => rfl⟩
  | @native vm tid ref h info info' hinfo hupdate =>
      cases ref with
      | static i => exact .inl ⟨rfl, rfl, fun _ => rfl⟩
      | reg i => exact .inl ⟨rfl, rfl, isRepeat_set hinfo (update_pointers hupdate)⟩
  | envReturn hslot =>
      exact .inl ⟨if_neg (slot_ne_registerNatives hslot (.inl rfl)), rfl, fun _ => rfl⟩
  | envRoute hslot hne =>
      exact .inl ⟨if_neg (slot_ne_registerNatives hslot hne), rfl, fun _ => rfl⟩
  | registerNatives hslot hindex hreg =>
      refine .inr ⟨_, _, _, _, _, if_pos ((createHookJniEnv_some hslot).2.symm.trans hindex), hreg,
        rfl, ?_⟩
      rw [Process.bindings, List.flatMap_append, List.flatMap_singleton]
      rfl
  | jvmAttach hslot hindex =>
      rw [Process.attached]
      split
      next => exact .inl ⟨rfl, rfl, fun _ => rfl⟩
      next => exact .inl ⟨rfl, rfl, fun _ => rfl⟩
  | jvmRoute hslot hne => exact .inl ⟨rfl, rfl, fun _ => rfl⟩

/-- A complete log stays complete with more complete bindings. -/
theorem LogComplete.append {log log' : List (MethodKey × FnPtr)} (h : LogComplete log)
    (h' : LogComplete log') : LogComplete (log ++ log') := by
  intro key ptr hlast hacc
  rw [lastWrite_append] at hlast
  obtain hl | ⟨-, hl⟩ := Option.or_eq_some_iff.mp hlast
  · exact h' key ptr hl hacc
  · exact h key ptr hl hacc

/-- The later part of a complete log is complete. -/
theorem LogComplete.of_append {log log' : List (MethodKey × FnPtr)}
    (h : LogComplete (log ++ log')) : LogComplete log' := by
  intro key ptr hlast hacc
  exact h key ptr (by rw [lastWrite_append, hlast, Option.some_or]) hacc

/-- What a run keeps as long as the pointers are fresh: the tracing is complete,
and the infos are of the pointers registered so far. -/
structure Tracing (past : List Event) (p : Process) : Prop where
  complete : TracingComplete p
  known : Known p.regs (tables past)

/-- A step keeps the infos those of the pointers registered so far. -/
theorem Tracing.step_iff {past : List Event} (ht : Tracing past p) (h : Effect f p e p') :
    Known p'.regs (tables (past ++ [e])) ∧ (TracingComplete p' ↔ e.Fresh past) := by
  obtain ⟨hnone, hbind, hrepeat⟩ | ⟨refl, c, cls, method, r, hsome, hreg, hregs, hbind⟩ :=
    h.registers_cases
  · rw [tables_of_not_registers past hnone]
    refine ⟨fun fnPtr => by rw [hrepeat]; exact ht.known fnPtr, iff_of_true ?_ ?_⟩
    · exact (show LogComplete p'.bindings from hbind ▸ ht.complete)
    · exact fun cls method hsome => nomatch hnone.symm.trans hsome
  · obtain ⟨hknown, hcomplete⟩ := hookRegisterNatives_complete_iff ht.known hreg cls
    rw [tables_of_registers past hsome, hregs]
    refine ⟨hknown, ?_⟩
    rw [show TracingComplete p' = LogComplete p'.bindings from rfl, hbind]
    constructor
    · intro hc cls' method' hsome'
      rw [hsome, Option.some_inj, Prod.mk.injEq] at hsome'
      exact hsome'.2 ▸ hcomplete.mp hc.of_append
    · exact fun hfresh => LogComplete.append ht.complete (hcomplete.mpr (hfresh cls method hsome))

theorem tracing_start (statics : List NativeMethodInfo) : Tracing [] (Process.start statics) where
  complete _ _ hl := nomatch hl
  known _ := ⟨fun hr => absurd hr Bool.false_ne_true, fun ⟨_, hm, _⟩ => absurd hm List.not_mem_nil⟩

/-- In a run, the tracing is complete at every time exactly when every call of
`RegisterNatives` gives fresh pointers. -/
theorem tracingComplete_iff (statics : List NativeMethodInfo) {events : List Event}
    (hrun : run (step f) (Process.start statics) events = .ok p) :
    (∀ es, es <+: events → ∀ q, run (step f) (Process.start statics) es = .ok q →
        TracingComplete q) ↔
      ∀ past e later, events = past ++ e :: later → e.Fresh past :=
  run_always_iff Tracing TracingComplete Event.Fresh (fun _ _ ht => ht.complete)
    (fun _ _ _ _ _ ht hstep hfresh =>
      have hnext := ht.step_iff (step_effect hstep)
      ⟨hnext.2.mpr hfresh, hnext.1⟩)
    (fun _ _ _ _ _ ht hstep hfresh hc => hfresh ((ht.step_iff (step_effect hstep)).2.mp hc))
    [] (tracing_start statics) hrun

end

/-- A class registers two methods, one after the other, with a pointer each. -/
def freshRun : List Event :=
  [.jvm emptyVm 7 6 numbered ⟨0, 100, 0⟩,
    .env emptyVm 7 215 numbered [⟨"f".toList, "()V".toList, 0x500⟩] ⟨0, 100, 0⟩,
    .env emptyVm 7 215 numbered [⟨"g".toList, "()V".toList, 0x600⟩] ⟨0, 100, 0⟩]

theorem freshRun_complete : ∃ q, run (step installed) (Process.start []) freshRun = .ok q ∧
    TracingComplete q := by
  obtain ⟨p, hrun⟩ : ∃ p, run (step installed) (Process.start []) freshRun = .ok p := ⟨_, rfl⟩
  refine ⟨p, hrun, (tracingComplete_iff [] hrun).mpr
    (fun past e later hsplit cls method hreg => ?_) freshRun (List.prefix_refl _) p hrun⟩
  obtain _ | ⟨_, _ | ⟨_, _ | ⟨_, past⟩⟩⟩ := past
  · cases hsplit
    exact nomatch hreg
  · cases hsplit
    cases hreg
    exact ⟨fun _ => .inr fun m hm => absurd hm List.not_mem_nil, trivial⟩
  · cases hsplit
    cases hreg
    refine ⟨fun _ => .inr fun m hm _ => ?_, trivial⟩
    rw [List.mem_singleton.mp hm]
    decide
  · exact absurd (congrArg List.length hsplit) (by simp [freshRun])

/-- The same table registered twice: the second time the method is bound to the
library's function. -/
def repeatRun : List Event :=
  [.jvm emptyVm 7 6 numbered ⟨0, 100, 0⟩,
    .env emptyVm 7 215 numbered [⟨"f".toList, "()V".toList, 0x500⟩] ⟨0, 100, 0⟩,
    .env emptyVm 7 215 numbered [⟨"f".toList, "()V".toList, 0x500⟩] ⟨0, 100, 0⟩]

theorem repeatRun_not_complete : ∃ q, run (step installed) (Process.start []) repeatRun = .ok q ∧
    q.bound ⟨0, "f".toList, "()V".toList⟩ = some (.code 0x500) ∧ ¬ TracingComplete q := by
  refine ⟨_, rfl, rfl, fun hc => ?_⟩
  obtain ⟨context, hptr⟩ := hc ⟨0, "f".toList, "()V".toList⟩ (.code 0x500) rfl ⟨_, rfl⟩
  exact nomatch hptr

end HookJni
