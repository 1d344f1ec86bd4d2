import AndroidAnalysis.HookJni.JniCall
import AndroidAnalysis.HookJni.Process
import AndroidAnalysis.HookJni.ParseSignature

/-!
# The tables passed to `RegisterNatives`

`hook_RegisterNatives` passes on a table that calls the same functions under the
same names, at once or through a trampoline.  The infos of the trampolines are
changed by later native calls, but never their pointers.
-/

namespace HookJni

open Cpp Machine RouteFunc Utils

/-! ## The list of infos -/

/-- Every info is still in its place, with its pointers. -/
def Extends (regs regs' : List NativeMethodInfo) : Prop :=
  ∀ (k : Nat) (info : NativeMethodInfo), regs[k]? = some info →
    ∃ info', regs'[k]? = some info' ∧ SamePointers info info'

theorem Extends.refl (regs : List NativeMethodInfo) : Extends regs regs :=
  fun _ info h => ⟨info, h, .refl info⟩

theorem Extends.trans {a b c : List NativeMethodInfo} (h : Extends a b) (h' : Extends b c) :
    Extends a c := by
  intro k info hk
  obtain ⟨info', hk', hs⟩ := h k info hk
  obtain ⟨info'', hk'', hs'⟩ := h' k info' hk'
  exact ⟨info'', hk'', hs.trans hs'⟩

/-- An info stays where it is when others are put behind the list. -/
theorem getElem?_of_append {regs regs' : List NativeMethodInfo} (h : regs <+: regs') {k : Nat}
    {info : NativeMethodInfo} (hk : regs[k]? = some info) : regs'[k]? = some info := by
  obtain ⟨new, rfl⟩ := h
  rw [List.getElem?_append_left (List.getElem?_eq_some_iff.mp hk).1, hk]

theorem Extends.append {regs regs' : List NativeMethodInfo} (h : regs <+: regs') :
    Extends regs regs' :=
  fun _ info hk => ⟨info, getElem?_of_append h hk, .refl info⟩

theorem Extends.set {regs : List NativeMethodInfo} {i : Nat} {info info' : NativeMethodInfo}
    (hi : regs[i]? = some info) (hs : SamePointers info info') : Extends regs (regs.set i info') := by
  intro k old hk
  by_cases hik : i = k
  · subst hik
    rw [hi, Option.some_inj] at hk
    exact ⟨info', List.getElem?_set_self (List.getElem?_eq_some_iff.mp hi).1, hk ▸ hs⟩
  · exact ⟨old, by rw [List.getElem?_set_ne hik, hk], .refl old⟩

/-! ## The table of one call -/

/-- The entry passed on names the same method, and its pointer calls the
library's function: it is that function, or a trampoline whose info has it for
`addr` and `originCall`. -/
structure Preserved (regs : List NativeMethodInfo) (m : JniNativeMethod (BitVec 64))
    (m' : JniNativeMethod FnPtr) : Prop where
  name : m'.name = m.name
  signature : m'.signature = m.signature
  fnPtr : m'.fnPtr = .code m.fnPtr ∨ ∃ k info, m'.fnPtr = .shellcode (.reg k) ∧
    regs[k]? = some info ∧ info.addr = m.fnPtr ∧ info.originCall = m.fnPtr

/-- Changes of the infos leave an entry preserved. -/
theorem Preserved.mono {regs regs' : List NativeMethodInfo} {m : JniNativeMethod (BitVec 64)}
    {m' : JniNativeMethod FnPtr} (h : Preserved regs m m') (he : Extends regs regs') :
    Preserved regs' m m' where
  name := h.name
  signature := h.signature
  fnPtr := by
    obtain hcode | ⟨k, info, hptr, hk, haddr, horigin⟩ := h.fnPtr
    · exact .inl hcode
    · obtain ⟨info', hk', hs⟩ := he k info hk
      exact .inr ⟨k, info', hptr, hk', hs.1.trans haddr, hs.2.trans horigin⟩

section
variable {refl : Reflection} {c : BitVec 64}

/-- A signature is accepted by `parse_java_signature`. -/
def Accepted (signature : Str) : Prop :=
  ∃ out, parseJavaSignature signature ⟨[], []⟩ = .ok (true, out)

/-- A round of the loop leaves an entry's pointer, or makes an info for it. -/
theorem registerEntry_cases {regs : List NativeMethodInfo} {m : JniNativeMethod (BitVec 64)}
    {r : JniNativeMethod FnPtr × List NativeMethodInfo} (h : registerEntry refl c regs m = .ok r) :
    ((isRepeat regs m.fnPtr ∨ ¬ Accepted m.signature) ∧
        r = (⟨m.name, m.signature, .code m.fnPtr⟩, regs)) ∨
      (isRepeat regs m.fnPtr = false ∧ ∃ parsed className,
        parseJavaSignature m.signature ⟨[], []⟩ = .ok (true, parsed) ∧
        getObjectClassName refl c = .ok className ∧
        r = (⟨m.name, m.signature, .shellcode (.reg regs.length)⟩,
          regs ++ [registeredInfo m parsed className])) := by
  rw [registerEntry] at h
  split at h
  next hrepeat => exact .inl ⟨.inl hrepeat, (Except.ok.inj h).symm⟩
  next hrepeat =>
    obtain ⟨⟨accept, parsed⟩, hparse, h⟩ := bind_eq_ok.mp h
    cases accept with
    | false =>
        refine .inl ⟨.inr ?_, (Except.ok.inj h).symm⟩
        rintro ⟨out, hout⟩
        exact nomatch (Except.ok.inj (hparse.symm.trans hout))
    | true =>
        obtain ⟨className, hclass, h⟩ := bind_eq_ok.mp h
        exact .inr ⟨Bool.not_eq_true _ ▸ hrepeat, parsed, className, hparse, hclass,
          (Except.ok.inj h).symm⟩

/-- A round of the loop returns. -/
theorem registerEntry_ok (refl : Reflection) (c : BitVec 64) (regs : List NativeMethodInfo)
    (m : JniNativeMethod (BitVec 64)) : ∃ r, registerEntry refl c regs m = .ok r := by
  rw [registerEntry]
  split
  next => exact ⟨_, rfl⟩
  next =>
    obtain ⟨parsed, hparse⟩ := parseJavaSignature_ok m.signature ⟨[], []⟩
    obtain ⟨className, hclass⟩ := getObjectClassName_ok refl c
    rw [hparse, ok_bind]
    split
    next => exact ⟨_, rfl⟩
    next => exact ⟨_, by rw [hclass, ok_bind]⟩

/-- `hook_RegisterNatives` passes a table on, whatever it is given. -/
theorem hookRegisterNatives_ok (refl : Reflection) (c : BitVec 64)
    (method : List (JniNativeMethod (BitVec 64))) (regs : List NativeMethodInfo) :
    ∃ r, hookRegisterNatives refl c method regs = .ok r := by
  induction method generalizing regs with
  | nil => exact ⟨_, rfl⟩
  | cons m method ih =>
      obtain ⟨first, hfirst⟩ := registerEntry_ok refl c regs m
      obtain ⟨rest, hrest⟩ := ih first.2
      exact ⟨_, by rw [hookRegisterNatives, hfirst, ok_bind, hrest, ok_bind]⟩

theorem registerEntry_preserved {regs : List NativeMethodInfo} {m : JniNativeMethod (BitVec 64)}
    {r : JniNativeMethod FnPtr × List NativeMethodInfo} (h : registerEntry refl c regs m = .ok r) :
    Preserved r.2 m r.1 ∧ regs <+: r.2 := by
  obtain ⟨-, rfl⟩ | ⟨-, parsed, className, -, -, rfl⟩ := registerEntry_cases h
  · exact ⟨⟨rfl, rfl, .inl rfl⟩, List.prefix_refl regs⟩
  · exact ⟨⟨rfl, rfl, .inr ⟨_, _, rfl, List.getElem?_concat_length, rfl, rfl⟩⟩, _, rfl⟩

/-- The table passed on preserves the table given, entry by entry, and new infos
come behind the others. -/
theorem hookRegisterNatives_preserved {method : List (JniNativeMethod (BitVec 64))}
    {regs : List NativeMethodInfo} {r : List (JniNativeMethod FnPtr) × List NativeMethodInfo}
    (h : hookRegisterNatives refl c method regs = .ok r) :
    List.Forall₂ (Preserved r.2) method r.1 ∧ regs <+: r.2 := by
  induction method generalizing regs r with
  | nil =>
      cases h
      exact ⟨.nil, List.prefix_refl regs⟩
  | cons m method ih =>
      obtain ⟨first, hfirst, h⟩ := bind_eq_ok.mp h
      obtain ⟨rest, hrest, h⟩ := bind_eq_ok.mp h
      cases h
      obtain ⟨hp, he⟩ := registerEntry_preserved hfirst
      obtain ⟨hps, hes⟩ := ih hrest
      exact ⟨.cons (hp.mono (.append hes)) hps, he.trans hes⟩

end

/-! ## Runs -/

section
variable {f : Installed} {p p' : Process} {e : Event}

/-- The class and the table of a call of `RegisterNatives`. -/
def Event.registers : Event → Option (Nat × MethodTable)
  | .env vm _ slot h method _ => if slot = 215 then some (vm.classOf (h.x 1), method) else none
  | _ => none

/-- The class and the table the library gave. -/
def Registration.given (r : Registration) : Nat × MethodTable := (r.cls, r.method)

theorem envStores_registerNatives : ∀ p ∈ envStores, p.2.index = 215 → p.1 = .other := by
  decide +kernel

/-- A call that is not turned to `hook_RegisterNatives` is of another slot. -/
theorem slot_ne_registerNatives {slot : Nat} {hook : EnvHook} {info : MethodInfo}
    (hslot : createHookJniEnv slot = some (hook, info)) (hne : hook = .call ∨ info.index ≠ 215) :
    slot ≠ 215 := by
  rintro rfl
  obtain ⟨hmem, hindex⟩ := createHookJniEnv_some hslot
  have hother : hook = .other := envStores_registerNatives _ hmem hindex
  obtain hcall | hne := hne
  · rw [hother] at hcall
    exact nomatch hcall
  · exact hne hindex

/-- A step records the call of `RegisterNatives` it takes, and no other. -/
theorem Effect.given (h : Effect f p e p') :
    p'.registrations.map Registration.given =
      p.registrations.map Registration.given ++ e.registers.toList := by
  cases h with
  | onLoad => exact (List.append_nil _).symm
  | @native vm tid ref h info info' hinfo hupdate =>
      cases ref with
      | static i => exact (List.append_nil _).symm
      | reg i => exact (List.append_nil _).symm
  | envReturn hslot =>
      rw [Event.registers, if_neg (slot_ne_registerNatives hslot (.inl rfl))]
      exact (List.append_nil _).symm
  | envRoute hslot hne =>
      rw [Event.registers, if_neg (slot_ne_registerNatives hslot hne)]
      exact (List.append_nil _).symm
  | registerNatives hslot hindex hreg =>
      have hslot : _ = 215 := (createHookJniEnv_some hslot).2.symm.trans hindex
      rw [Event.registers, if_pos hslot, List.map_append]
      rfl
  | jvmAttach hslot hindex =>
      rw [Process.attached]
      split
      next => exact (List.append_nil _).symm
      next => exact (List.append_nil _).symm
  | jvmRoute hslot hne => exact (List.append_nil _).symm

/-- What a run keeps: every table ever passed on still calls what the library
gave. -/
def TablesPreserved (p : Process) : Prop :=
  ∀ r ∈ p.registrations, List.Forall₂ (Preserved p.regs) r.method r.passed

/-- A table stays preserved when the infos keep their pointers. -/
theorem TablesPreserved.mono (h : TablesPreserved p) (hregs : Extends p.regs p'.regs)
    (hsame : p'.registrations = p.registrations) : TablesPreserved p' := by
  intro r hr
  rw [hsame] at hr
  exact (h r hr).imp fun _ _ hm => hm.mono hregs

/-- The info a native call leaves has the pointers it had. -/
theorem update_pointers {refl : Reflection} {info info' : NativeMethodInfo}
    (h : info.available ∧ info' = info ∨
      info.available = false ∧ updateMethodInfo refl info = .ok info') : SamePointers info info' := by
  obtain ⟨-, rfl⟩ | ⟨-, hu⟩ := h
  · exact .refl _
  · exact updateMethodInfo_pointers hu

/-- An event keeps every table preserved. -/
theorem Effect.tablesPreserved (h : Effect f p e p') (hp : TablesPreserved p) :
    TablesPreserved p' := by
  cases h with
  | onLoad => exact hp
  | @native vm tid ref h info info' hinfo hupdate =>
      have hs : SamePointers info info' := update_pointers hupdate
      cases ref with
      | static i => exact hp
      | reg i => exact hp.mono (.set hinfo hs) rfl
  | envReturn hslot => exact hp
  | envRoute hslot hne => exact hp
  | registerNatives hslot hindex hreg =>
      obtain ⟨hnew, hregs⟩ := hookRegisterNatives_preserved hreg
      intro r hr
      obtain hr | hr := List.mem_append.mp hr
      · exact (hp r hr).imp fun _ _ hm => hm.mono (.append hregs)
      · rw [List.mem_singleton.mp hr]
        exact hnew
  | jvmAttach hslot hindex =>
      rw [Process.attached]
      split
      next => exact hp
      next => exact hp
  | jvmRoute hslot hne => exact hp

/-- A call of `RegisterNatives` on a thread with an environment goes through. -/
theorem step_registerNatives_ok {tid : Int} {originEnv : BitVec 64}
    (henv : getOriginEnv p.envs tid = some originEnv) (hne : originEnv ≠ 0) (vm : Vm)
    (h : HookArgs) (method : MethodTable) (answer : Answer) :
    ∃ p', step f p (.env vm tid 215 h method answer) = .ok p' := by
  let info : MethodInfo := ⟨215, "RegisterNatives", .jint, [.envPtr, .jclass, .nativeMethodPtr, .jint]⟩
  have hslot : createHookJniEnv 215 = some (.other, info) := by decide +kernel
  have hprint : printfJavaFuncArgs h 0 info.argsText info.argsText.length =
      .ok (tracedFrom h 0 info.argsText, slotOffset 4) :=
    (printfJavaFuncArgs_eq h (Nat.zero_le _) info.argsText).trans (if_pos (by decide))
  have hhook : hookOtherMethods info originEnv (f.envCall 215) h = .ok (tracedFrom h 0 info.argsText,
      .registerNatives originEnv (h.x 1) (h.x 2) ((h.x 3).setWidth 32).toInt (f.envCall 215)) := by
    rw [hookOtherMethods, hprint, ok_bind, if_pos rfl]
  obtain ⟨r, hr⟩ := hookRegisterNatives_ok vm.refl (h.x 1) method p.regs
  rw [step, hslot]
  dsimp only [envHook]
  rw [henv, Option.getD_some, hhook, ok_bind, act, if_neg hne, hr, ok_bind]
  exact ⟨_, rfl⟩

/-- The calls of `RegisterNatives` a run has recorded are those of its events. -/
theorem given_of_run {statics : List NativeMethodInfo} {events : List Event}
    (h : run (step f) (Process.start statics) events = .ok p) :
    p.registrations.map Registration.given = events.filterMap Event.registers :=
  run_log (fun p e p' (hstep : step f p e = .ok p') => (step_effect hstep).given) h

/-- In every run, the tables passed to the original `RegisterNatives` belong to
the calls the library made, in order, and each calls, now and for good, what the
library gave.  A further call goes through. -/
theorem registerNatives_preserved {statics : List NativeMethodInfo} {events : List Event}
    (h : run (step f) (Process.start statics) events = .ok p) :
    p.registrations.map Registration.given = events.filterMap Event.registers ∧
      (∀ r ∈ p.registrations, List.Forall₂ (Preserved p.regs) r.method r.passed) ∧
      ∀ (vm : Vm) (tid : Int) (originEnv : BitVec 64) (args : HookArgs) (method : MethodTable)
        (answer : Answer), getOriginEnv p.envs tid = some originEnv → originEnv ≠ 0 →
        ∃ p', step f p (.env vm tid 215 args method answer) = .ok p' := by
  refine ⟨given_of_run h, ?_, ?_⟩
  · exact run_invariant (fun _ _ _ hs hstep => (step_effect hstep).tablesPreserved hs)
      (fun r hr => absurd hr List.not_mem_nil) h
  · exact fun vm tid originEnv args method answer henv hne =>
      step_registerNatives_ok henv hne vm args method answer

end

/-- A table with an entry that is hooked, one with a signature that is not
accepted, and one that repeats a pointer. -/
def threeEntries : MethodTable :=
  [⟨"f".toList, "(I)V".toList, 0x500⟩, ⟨"g".toList, "(Q)V".toList, 0x600⟩,
    ⟨"h".toList, "()V".toList, 0x500⟩]

/-- A run that registers three natives and calls the hooked one. -/
def registerRun : List Event :=
  [.jvm emptyVm 7 6 numbered ⟨0, 100, 0⟩, .env emptyVm 7 215 numbered threeEntries ⟨0, 100, 0⟩,
    .native emptyVm 7 (.reg 0) numbered]

theorem registerRun_passed : ∃ p, run (step installed) (Process.start []) registerRun = .ok p ∧
    p.registrations.map Registration.passed = [[⟨"f".toList, "(I)V".toList, .shellcode (.reg 0)⟩,
      ⟨"g".toList, "(Q)V".toList, .code 0x600⟩, ⟨"h".toList, "()V".toList, .code 0x500⟩]] :=
  ⟨_, rfl, rfl⟩

theorem registerRun_preserved : ∃ p, run (step installed) (Process.start []) registerRun = .ok p ∧
    p.registrations.length = 1 ∧
    ∀ r ∈ p.registrations, List.Forall₂ (Preserved p.regs) r.method r.passed := by
  obtain ⟨p, hp, hpassed⟩ := registerRun_passed
  refine ⟨p, hp, ?_, (registerNatives_preserved hp).2.1⟩
  have := congrArg List.length hpassed
  rwa [List.length_map] at this

end HookJni
