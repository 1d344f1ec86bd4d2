import AndroidAnalysis.HookJni.JniEnvHook
import AndroidAnalysis.HookJni.JniNativeHook
import AndroidAnalysis.HookJni.GlobalCode

/-!
# The traced process

A process after `init_jni_hook`, as the events the library takes part in.  The
virtual machine calls `JNI_OnLoad` and the library's native methods, and the
library calls the virtual machine through the slots of the two fake tables, on
any thread and in any order.  `step` carries out what the hook of each event
does, and a run is a list of events.

The state is what the program keeps (the environments of the threads and the
two lists of infos) and two records of what happened: the tables passed to the
original `RegisterNatives`, and every `JNIEnv` and `JavaVM` pointer the library
has received.  A call of an original function with a null first argument does
not return.
-/

namespace HookJni

open Cpp Machine RouteFunc Utils

/-! ## Events -/

/-- What `init_jni_hook` has fixed: the three global pointers, and the
`origin_call` of each slot of the two tables. -/
structure Installed where
  fakeEnv : BitVec 64
  fakeJvm : BitVec 64
  originJvm : BitVec 64
  envCall : Nat → BitVec 64
  jvmCall : Nat → BitVec 64

/-- The virtual machine at the time of an event: what it answers to the
program's own calls, and which class a reference is of. -/
structure Vm where
  refl : Reflection
  pretty : BitVec 64 → Str
  classOf : BitVec 64 → Nat

/-- What an original function does: its result, and the pointers it stores
where it is asked for a `JNIEnv` or a `JavaVM`. -/
structure Answer where
  ret : Int
  env : BitVec 64
  jvm : BitVec 64

/-- An array of `JNINativeMethod`. -/
abbrev MethodTable := List (JniNativeMethod (BitVec 64))

/-- An event. -/
inductive Event
  /-- The virtual machine calls `JNI_OnLoad`. -/
  | onLoad
  /-- The virtual machine calls a hooked native method. -/
  | native (vm : Vm) (tid : Int) (ref : NativeRef) (h : HookArgs)
  /-- The library calls a slot of the fake `JNIEnv`.  `method` is the array the
  arguments of `RegisterNatives` describe. -/
  | env (vm : Vm) (tid : Int) (slot : Nat) (h : HookArgs) (method : MethodTable) (answer : Answer)
  /-- The library calls a slot of the fake `JavaVM`. -/
  | jvm (vm : Vm) (tid : Int) (slot : Nat) (h : HookArgs) (answer : Answer)

/-! ## An example of the surroundings -/

/-- Fake objects at 1 and 2, the real `JavaVM` at 3. -/
def installed : Installed := ⟨1, 2, 3, fun _ => 4, fun _ => 5⟩

/-- A virtual machine without classes. -/
def emptyVm : Vm :=
  ⟨⟨fun _ => 0, fun _ => [], fun _ => none, fun _ => none, fun _ => []⟩, fun _ => [], fun _ => 0⟩

/-! ## The state -/

/-- A pointer the library has received, an environment with the thread. -/
inductive Received
  | env (tid : Int) (p : BitVec 64)
  | jvm (p : BitVec 64)

/-- A call of the original `RegisterNatives`: the class, the table the library
gave, and the table that was passed on. -/
structure Registration where
  cls : Nat
  method : MethodTable
  passed : List (JniNativeMethod FnPtr)

/-- The state of the process. -/
structure Process where
  envs : EnvMap (BitVec 64)
  statics : List NativeMethodInfo
  regs : List NativeMethodInfo
  registrations : List Registration
  received : List Received

/-- The state `init_jni_hook` leaves, with the exported natives it has found. -/
def Process.start (statics : List NativeMethodInfo) : Process where
  envs := StdMap.empty
  statics := statics
  regs := []
  registrations := []
  received := []

/-- The info a trampoline holds. -/
def Process.info (p : Process) : NativeRef → Option NativeMethodInfo
  | .static i => p.statics[i]?
  | .reg i => p.regs[i]?

/-- The state with one info changed. -/
def Process.setInfo (p : Process) (info : NativeMethodInfo) : NativeRef → Process
  | .static i => { p with statics := p.statics.set i info }
  | .reg i => { p with regs := p.regs.set i info }

/-- The state with more received. -/
def Process.receive (p : Process) (rs : List Received) : Process :=
  { p with received := p.received ++ rs }

/-! ## A step -/

/-- The pointer an out-parameter of a type receives. -/
def outParam (tid : Int) (answer : Answer) : JniType → Option Received
  | .envPtrPtr | .voidPtrPtr => some (.env tid answer.env)
  | .vmPtrPtr => some (.jvm answer.jvm)
  | _ => none

/-- What an original function that returns `JNI_OK` lets the library receive. -/
def outParams (tid : Int) (info : MethodInfo) (answer : Answer) : List Received :=
  if answer.ret = 0 then info.argsType.filterMap (outParam tid answer) else []

/-- The state after the program has asked for the environment itself, as
`fake_AttachCurrentThread` and `fake_GetEnv` do. -/
def Process.attached (f : Installed) (p : Process) (tid : Int) (answer : Answer) : Process :=
  if answer.ret = 0 then
    { p with envs := pushOriginEnv p.envs tid answer.env }.receive [.env tid f.fakeEnv]
  else p

/-- The effect of a hook's action. -/
def act (f : Installed) (vm : Vm) (p : Process) (tid : Int) (info : MethodInfo)
    (method : MethodTable) (answer : Answer) : HookAction → Except Fault Process
  | .ret _ => .ok p
  | .route call =>
      if call.x 0 = 0 then .error .undefined
      else .ok (p.receive (outParams tid info answer))
  | .registerNatives env c _ _ _ =>
      if env = 0 then .error .undefined
      else do
        let r ← hookRegisterNatives vm.refl c method p.regs
        .ok { p with
          regs := r.2
          registrations := p.registrations ++ [⟨vm.classOf c, method, r.1⟩] }
  | .fakeAttachCurrentThread _ _ | .fakeGetEnv _ _ => .ok (p.attached f tid answer)

/-- The hook in a slot of the fake `JNIEnv`. -/
def envHook (f : Installed) (vm : Vm) (slot : Nat) (originEnv : BitVec 64) (h : HookArgs)
    (info : MethodInfo) : EnvHook → Except Fault (Traced × HookAction)
  | .other => hookOtherMethods info originEnv (f.envCall slot) h
  | .call => hookCallMethods info originEnv (f.envCall slot) vm.pretty h

/-- The effect of an event. -/
def step (f : Installed) (p : Process) : Event → Except Fault Process
  | .onLoad => .ok (p.receive [.jvm f.fakeJvm])
  | .native vm tid ref h =>
      match p.info ref with
      | none => .error .undefined
      | some info => do
          let r ← hookNativeFunc vm.refl f.fakeEnv info h
          .ok (({ p with envs := pushOriginEnv p.envs tid (h.x 0) }.receive
            [.env tid (r.2.2.x 0)]).setInfo r.1 ref)
  | .env vm tid slot h method answer =>
      match createHookJniEnv slot with
      | none => .error .undefined
      | some (hook, info) => do
          let r ← envHook f vm slot ((getOriginEnv p.envs tid).getD 0) h info hook
          act f vm p tid info method answer r.2
  | .jvm vm tid slot h answer =>
      match createHookJavaVm slot with
      | none => .error .undefined
      | some info =>
          act f vm p tid info [] answer (hookJvmMethods info f.originJvm (f.jvmCall slot) h)

/-! ## What a step can do -/

/-- The effects of the events. -/
inductive Effect (f : Installed) (p : Process) : Event → Process → Prop
  | onLoad : Effect f p .onLoad (p.receive [.jvm f.fakeJvm])
  | native {vm tid ref h info info'} (hinfo : p.info ref = some info)
      (hupdate : info.available ∧ info' = info ∨
        info.available = false ∧ updateMethodInfo vm.refl info = .ok info') :
      Effect f p (.native vm tid ref h)
        (({ p with envs := pushOriginEnv p.envs tid (h.x 0) }.receive
          [.env tid f.fakeEnv]).setInfo info' ref)
  | envReturn {vm tid slot h method answer info} (hslot : createHookJniEnv slot = some (.call, info)) :
      Effect f p (.env vm tid slot h method answer) p
  | envRoute {vm tid slot h method answer hook info}
      (hslot : createHookJniEnv slot = some (hook, info)) (hne : hook = .call ∨ info.index ≠ 215) :
      Effect f p (.env vm tid slot h method answer) (p.receive (outParams tid info answer))
  | registerNatives {vm tid slot h method answer info r}
      (hslot : createHookJniEnv slot = some (.other, info)) (hindex : info.index = 215)
      (hreg : hookRegisterNatives vm.refl (h.x 1) method p.regs = .ok r) :
      Effect f p (.env vm tid slot h method answer)
        { p with
          regs := r.2
          registrations := p.registrations ++ [⟨vm.classOf (h.x 1), method, r.1⟩] }
  | jvmAttach {vm tid slot h answer info} (hslot : createHookJavaVm slot = some info)
      (hindex : info.index = 4 ∨ info.index = 6) :
      Effect f p (.jvm vm tid slot h answer) (p.attached f tid answer)
  | jvmRoute {vm tid slot h answer info} (hslot : createHookJavaVm slot = some info)
      (hne : info.index ≠ 4 ∧ info.index ≠ 6) :
      Effect f p (.jvm vm tid slot h answer) (p.receive (outParams tid info answer))

/-- `hook_native_func` passes the fake environment, and changes the info by
`update_method_info` only. -/
theorem hookNativeFunc_cases {refl : Reflection} {fakeEnv : BitVec 64} {info : NativeMethodInfo}
    {h : HookArgs} {r : NativeMethodInfo × Traced × RouteCall}
    (hok : hookNativeFunc refl fakeEnv info h = .ok r) :
    r.2.2.x 0 = fakeEnv ∧ (info.available ∧ r.1 = info ∨
      info.available = false ∧ updateMethodInfo refl info = .ok r.1) := by
  obtain ⟨info', hinfo, hok⟩ := bind_eq_ok.mp hok
  obtain ⟨printed, -, hok⟩ := bind_eq_ok.mp hok
  cases hok
  refine ⟨rfl, ?_⟩
  split at hinfo
  next ha => exact .inl ⟨ha, (Except.ok.inj hinfo).symm⟩
  next ha => exact .inr ⟨Bool.not_eq_true _ ▸ ha, hinfo⟩

/-- The actions of `hook_call_methods`. -/
theorem hookCallMethods_cases {info : MethodInfo} {originEnv originCall : BitVec 64}
    {pretty : BitVec 64 → Str} {h : HookArgs} {r : Traced × HookAction}
    (hok : hookCallMethods info originEnv originCall pretty h = .ok r) :
    (∃ w, r.2 = .ret w) ∨ ∃ call : RouteCall, r.2 = .route call ∧ call.x 0 = originEnv := by
  obtain ⟨printed, -, hok⟩ := bind_eq_ok.mp hok
  cases hm : modIndexOf info.index with
  | none =>
      rw [hm] at hok
      cases hok
      exact .inl ⟨_, rfl⟩
  | some m =>
      rw [hm] at hok
      dsimp only at hok
      split at hok
      next => cases hok; exact .inl ⟨_, rfl⟩
      next =>
        obtain ⟨parsed, -, hok⟩ := bind_eq_ok.mp hok
        split at hok
        next => cases hok; exact .inl ⟨_, rfl⟩
        next =>
          obtain ⟨traced, -, hok⟩ := bind_eq_ok.mp hok
          cases hok
          exact .inr ⟨_, rfl, rfl⟩

/-- A step has one of the effects. -/
theorem step_effect {f : Installed} {p p' : Process} {e : Event} (h : step f p e = .ok p') :
    Effect f p e p' := by
  cases e with
  | onLoad =>
      cases h
      exact .onLoad
  | native vm tid ref args =>
      rw [step] at h
      cases hinfo : p.info ref with
      | none => rw [hinfo] at h; cases h
      | some info =>
          rw [hinfo] at h
          obtain ⟨r, hr, h⟩ := bind_eq_ok.mp h
          obtain ⟨hx, hupdate⟩ := hookNativeFunc_cases hr
          cases h
          rw [hx]
          exact .native hinfo hupdate
  | env vm tid slot args method answer =>
      rw [step] at h
      cases hslot : createHookJniEnv slot with
      | none => rw [hslot] at h; cases h
      | some entry =>
          obtain ⟨hook, info⟩ := entry
          rw [hslot] at h
          obtain ⟨r, hr, hact⟩ := bind_eq_ok.mp h
          cases hook with
          | other =>
              obtain ⟨printed, -, hr⟩ := bind_eq_ok.mp hr
              split at hr
              next hindex =>
                cases hr
                rw [act] at hact
                split at hact
                next => cases hact
                next =>
                  obtain ⟨r, hreg, hact⟩ := bind_eq_ok.mp hact
                  cases hact
                  exact .registerNatives hslot hindex hreg
              next hindex =>
                cases hr
                rw [act] at hact
                split at hact
                next => cases hact
                next => cases hact; exact .envRoute hslot (.inr hindex)
          | call =>
              obtain ⟨w, hw⟩ | ⟨call, hcall, -⟩ := hookCallMethods_cases hr
              · rw [hw] at hact
                cases hact
                exact .envReturn hslot
              · rw [hcall, act] at hact
                split at hact
                next => cases hact
                next => cases hact; exact .envRoute hslot (.inl rfl)
  | jvm vm tid slot args answer =>
      rw [step] at h
      cases hslot : createHookJavaVm slot with
      | none => rw [hslot] at h; cases h
      | some info =>
          rw [hslot] at h
          dsimp only [hookJvmMethods] at h
          split at h
          next hindex => cases h; exact .jvmAttach hslot (.inl hindex)
          next hindex =>
            split at h
            next hindex' => cases h; exact .jvmAttach hslot (.inr hindex')
            next hindex' =>
              rw [act] at h
              split at h
              next => cases h
              next => cases h; exact .jvmRoute hslot ⟨hindex, hindex'⟩

end HookJni
