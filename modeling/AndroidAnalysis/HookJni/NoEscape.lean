import AndroidAnalysis.HookJni.JniCall
import AndroidAnalysis.HookJni.Process

/-!
# The pointers the library receives

Every `JNIEnv` and `JavaVM` the library receives should be a fake one.  Three
slots of the two tables have a parameter for such a pointer and are answered by
the program or by nobody: `AttachCurrentThread` and `GetEnv` have handlers of
their own, and `AttachCurrentThreadAsDaemon` and `GetJavaVM` are passed on like
any other function.
-/

namespace HookJni

open Cpp Machine

/-! ## The parameters of the slots -/

/-- The types of parameters that receive a `JNIEnv` or a `JavaVM`. -/
def JniType.isOut (t : JniType) : Bool := t = .envPtrPtr ∨ t = .voidPtrPtr ∨ t = .vmPtrPtr

theorem outParam_of_not_isOut {t : JniType} (h : t.isOut = false) (tid : Int) (answer : Answer) :
    outParam tid answer t = none := by
  cases t with
  | envPtrPtr => exact nomatch h
  | voidPtrPtr => exact nomatch h
  | vmPtrPtr => exact nomatch h
  | _ => rfl

theorem outParams_eq_nil {info : MethodInfo} (h : ∀ t ∈ info.argsType, t.isOut = false)
    (tid : Int) (answer : Answer) : outParams tid info answer = [] := by
  rw [outParams]
  split
  next => exact List.filterMap_eq_nil_iff.mpr fun t ht => outParam_of_not_isOut (h t ht) tid answer
  next => rfl

theorem envStores_params : ∀ p ∈ envStores,
    (p.2.index = 219 → p.1 = .other ∧ p.2.argsType = [.envPtr, .vmPtrPtr]) ∧
      (p.2.index ≠ 219 → ∀ t ∈ p.2.argsType, t.isOut = false) := by
  decide +kernel

theorem jniJvmMethodInfo_params : ∀ info ∈ jniJvmMethodInfo, info.index ≠ 4 ∧ info.index ≠ 6 →
    (info.index = 7 → info.argsType = [.vmPtr, .envPtrPtr, .voidPtr]) ∧
      (info.index ≠ 7 → ∀ t ∈ info.argsType, t.isOut = false) := by
  decide

/-- Of the functions of `JNIEnv`, only `GetJavaVM` lets the library receive a
pointer. -/
theorem outParams_env {slot : Nat} {hook : EnvHook} {info : MethodInfo}
    (h : createHookJniEnv slot = some (hook, info)) (tid : Int) (answer : Answer) :
    outParams tid info answer =
      if slot = 219 ∧ answer.ret = 0 then [.jvm answer.jvm] else [] := by
  obtain ⟨hmem, hindex⟩ := createHookJniEnv_some h
  obtain ⟨hvm, hother⟩ := envStores_params _ hmem
  split
  next hc => rw [outParams, if_pos hc.2, (hvm (hindex.trans hc.1)).2]; rfl
  next hc =>
    by_cases hslot : slot = 219
    · rw [outParams, if_neg fun hret => hc ⟨hslot, hret⟩]
    · exact outParams_eq_nil (hother (hindex ▸ hslot)) tid answer

/-- Of the functions of `JavaVM` that are passed on, only
`AttachCurrentThreadAsDaemon` lets the library receive a pointer. -/
theorem outParams_jvm {slot : Nat} {info : MethodInfo} (h : createHookJavaVm slot = some info)
    (hne : info.index ≠ 4 ∧ info.index ≠ 6) (tid : Int) (answer : Answer) :
    outParams tid info answer =
      if slot = 7 ∧ answer.ret = 0 then [.env tid answer.env] else [] := by
  obtain ⟨hmem, hindex⟩ := createHookJavaVm_some h
  obtain ⟨hdaemon, hother⟩ := jniJvmMethodInfo_params _ hmem hne
  split
  next hc => rw [outParams, if_pos hc.2, hdaemon (hindex.trans hc.1)]; rfl
  next hc =>
    by_cases hslot : slot = 7
    · rw [outParams, if_neg fun hret => hc ⟨hslot, hret⟩]
    · exact outParams_eq_nil (hother (hindex ▸ hslot)) tid answer

/-! ## Fake pointers -/

variable {f : Installed} {p p' : Process} {e : Event}

/-- A received pointer is fake, and the thread of an environment has a real one
to go with it. -/
def Received.Fake (f : Installed) (envs : EnvMap (BitVec 64)) : Received → Prop
  | .env tid q => q = f.fakeEnv ∧ ∃ r, getOriginEnv envs tid = some r ∧ r ≠ 0
  | .jvm q => q = f.fakeJvm

/-- Everything the library has received is fake. -/
def AllFake (f : Installed) (p : Process) : Prop := ∀ r ∈ p.received, r.Fake f p.envs

/-- An answer has real pointers. -/
structure Answer.Real (f : Installed) (answer : Answer) : Prop where
  env_ne_null : answer.env ≠ 0
  env_ne_fake : answer.env ≠ f.fakeEnv
  jvm_ne_fake : answer.jvm ≠ f.fakeJvm

/-- The virtual machine gives real pointers. -/
def Event.Real (f : Installed) : Event → Prop
  | .onLoad => True
  | .native _ _ _ h => h.x 0 ≠ 0
  | .env _ _ _ _ _ answer | .jvm _ _ _ _ answer => answer.Real f

/-- `GetJavaVM` of the fake `JNIEnv` or `AttachCurrentThreadAsDaemon` of the fake
`JavaVM` returns `JNI_OK`. -/
def Event.Leaks : Event → Prop
  | .env _ _ slot _ _ answer => slot = 219 ∧ answer.ret = 0
  | .jvm _ _ slot _ answer => slot = 7 ∧ answer.ret = 0
  | _ => False

/-- What a run keeps: everything received is fake, and no thread has a null
environment. -/
structure Sealed (f : Installed) (p : Process) : Prop where
  received : AllFake f p
  envs : ∀ tid r, getOriginEnv p.envs tid = some r → r ≠ 0

theorem Received.Fake.push {envs : EnvMap (BitVec 64)} {r : Received} (h : r.Fake f envs)
    (tid : Int) (originEnv : BitVec 64) : r.Fake f (pushOriginEnv envs tid originEnv) := by
  cases r with
  | env tid' q =>
      obtain ⟨hq, r, hr, hne⟩ := h
      exact ⟨hq, r, getOriginEnv_pushOriginEnv hr tid originEnv, hne⟩
  | jvm q => exact h

/-- Receiving fake pointers. -/
theorem Sealed.receive (h : Sealed f p) {rs : List Received} (hrs : ∀ r ∈ rs, r.Fake f p.envs) :
    Sealed f (p.receive rs) where
  received r hr := by
    obtain hr | hr := List.mem_append.mp hr
    · exact h.received r hr
    · exact hrs r hr
  envs := h.envs

/-- A push of a real environment. -/
theorem Sealed.push (h : Sealed f p) (tid : Int) {originEnv : BitVec 64} (hne : originEnv ≠ 0) :
    Sealed f { p with envs := pushOriginEnv p.envs tid originEnv } where
  received r hr := (h.received r hr).push tid originEnv
  envs tid' r hr := by
    rw [getOriginEnv_pushOriginEnv_eq, Option.or_eq_some_iff] at hr
    obtain hr | ⟨-, hr⟩ := hr
    · exact h.envs tid' r hr
    · split at hr
      next => cases hr; exact hne
      next => exact nomatch hr

/-- A push, and the fake environment goes to the thread. -/
theorem Sealed.pushReceive (h : Sealed f p) (tid : Int) {originEnv : BitVec 64}
    (hne : originEnv ≠ 0) :
    Sealed f ({ p with envs := pushOriginEnv p.envs tid originEnv }.receive
      [.env tid f.fakeEnv]) := by
  have hpush := h.push tid hne
  refine hpush.receive fun r hr => ?_
  rw [List.mem_singleton.mp hr]
  obtain ⟨r, hr⟩ :=
    Option.isSome_iff_exists.mp (getOriginEnv_pushOriginEnv_self p.envs tid originEnv)
  exact ⟨rfl, r, hr, hpush.envs tid r hr⟩

theorem Sealed.setInfo (h : Sealed f p) (info : NativeMethodInfo) (ref : RouteFunc.NativeRef) :
    Sealed f (p.setInfo info ref) := by
  cases ref with
  | static i => exact ⟨h.received, h.envs⟩
  | reg i => exact ⟨h.received, h.envs⟩

/-- An event that does not leak keeps everything fake. -/
theorem Effect.sealed (h : Effect f p e p') (hs : Sealed f p) (hreal : e.Real f)
    (hl : ¬ e.Leaks) : Sealed f p' := by
  cases h with
  | onLoad => exact hs.receive fun r hr => by rw [List.mem_singleton.mp hr]; rfl
  | native hinfo hupdate => exact (hs.pushReceive _ hreal).setInfo _ _
  | envReturn hslot => exact hs
  | envRoute hslot hne =>
      rw [(outParams_env hslot _ _).trans (if_neg hl)]
      exact hs.receive fun r hr => absurd hr List.not_mem_nil
  | registerNatives hslot hindex hreg => exact ⟨hs.received, hs.envs⟩
  | jvmAttach hslot hindex =>
      rw [Process.attached]
      split
      next => exact hs.pushReceive _ hreal.env_ne_null
      next => exact hs
  | jvmRoute hslot hne =>
      rw [(outParams_jvm hslot hne _ _).trans (if_neg hl)]
      exact hs.receive fun r hr => absurd hr List.not_mem_nil

/-- An event that leaks lets the library receive a pointer that is not fake. -/
theorem Effect.not_allFake (h : Effect f p e p') (hreal : e.Real f) (hl : e.Leaks) :
    ¬ AllFake f p' := by
  intro hfake
  cases h with
  | onLoad => exact hl
  | native hinfo hupdate => exact hl
  | envReturn hslot =>
      obtain ⟨hmem, hindex⟩ := createHookJniEnv_some hslot
      exact nomatch ((envStores_params _ hmem).1 (hindex.trans hl.1)).1
  | envRoute hslot hne =>
      rw [(outParams_env hslot _ _).trans (if_pos hl)] at hfake
      exact hreal.jvm_ne_fake (hfake (.jvm _) (List.mem_append_right _ (List.mem_singleton_self _)))
  | registerNatives hslot hindex hreg =>
      exact absurd (((createHookJniEnv_some hslot).2.symm.trans hindex).symm.trans hl.1) (by decide)
  | jvmAttach hslot hindex =>
      have := (createHookJavaVm_some hslot).2.trans hl.1
      omega
  | jvmRoute hslot hne =>
      rw [(outParams_jvm hslot hne _ _).trans (if_pos hl)] at hfake
      exact hreal.env_ne_fake
        (hfake (.env _ _) (List.mem_append_right _ (List.mem_singleton_self _))).1

/-! ## Runs -/

theorem sealed_start (statics : List NativeMethodInfo) : Sealed f (Process.start statics) where
  received _ hr := absurd hr List.not_mem_nil
  envs _ _ hr := nomatch hr

/-- In a run from the installation of the fake objects on, the library has
received nothing but fake pointers at every time, exactly when no event leaks. -/
theorem allFake_iff (statics : List NativeMethodInfo) {events : List Event}
    (hreal : ∀ e ∈ events, e.Real f) (hrun : run (step f) (Process.start statics) events = .ok p) :
    (∀ es, es <+: events → ∀ q, run (step f) (Process.start statics) es = .ok q → AllFake f q) ↔
      ∀ e ∈ events, ¬ e.Leaks :=
  run_always_iff_mem (Sealed f) (AllFake f) (fun e => ¬ e.Leaks) (fun _ hs => hs.received)
    (fun _ e _ he hs hstep hl => (step_effect hstep).sealed hs (hreal e he) hl)
    (fun _ e _ he _ hstep hl => (step_effect hstep).not_allFake (hreal e he) (not_not.mp hl))
    (sealed_start statics) hrun

/-! ## Two runs -/

/-- `JNI_OnLoad`, `GetEnv`, and `GetVersion` with the environment. -/
def getEnvRun : List Event :=
  [.onLoad, .jvm emptyVm 7 6 numbered ⟨0, 100, 0⟩, .env emptyVm 7 4 numbered [] ⟨0x10006, 100, 0⟩]

theorem real_answer (ret : Int) : Answer.Real installed ⟨ret, 100, 0⟩ :=
  ⟨by simp, by simp [installed], by simp [installed]⟩

theorem allFake_getEnv : ∃ q, run (step installed) (Process.start []) getEnvRun = .ok q ∧
    AllFake installed q := by
  obtain ⟨p, hrun⟩ : ∃ p, run (step installed) (Process.start []) getEnvRun = .ok p := ⟨_, rfl⟩
  refine ⟨p, hrun, (allFake_iff [] (fun e he => ?_) hrun).mpr (fun e he => ?_) getEnvRun
    (List.prefix_refl _) p hrun⟩
  · rw [getEnvRun, List.mem_cons, List.mem_cons, List.mem_singleton] at he
    obtain rfl | rfl | rfl := he
    · trivial
    · exact real_answer 0
    · exact real_answer 0x10006
  · rw [getEnvRun, List.mem_cons, List.mem_cons, List.mem_singleton] at he
    obtain rfl | rfl | rfl := he
    · exact id
    · exact fun hl => absurd hl.1 (by decide)
    · exact fun hl => absurd hl.1 (by decide)

/-- `AttachCurrentThreadAsDaemon` gives the library the real environment, and
the program does not know the thread. -/
theorem attachAsDaemon_leaks :
    let e : Event := .jvm emptyVm 7 7 numbered ⟨0, 100, 0⟩
    e.Real installed ∧ ∃ q, run (step installed) (Process.start []) [e] = .ok q ∧
      q.received = [.env 7 100] ∧ getOriginEnv q.envs 7 = none ∧ ¬ AllFake installed q := by
  refine ⟨real_answer 0, _, rfl, rfl, rfl, fun h => ?_⟩
  exact absurd (h (.env 7 100) (List.mem_singleton_self _)).1 (by decide)

end HookJni
