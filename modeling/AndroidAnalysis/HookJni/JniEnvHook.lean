import AndroidAnalysis.HookJni.MethodsJson
import AndroidAnalysis.HookJni.ParseJavaSig
import AndroidAnalysis.HookJni.PrintfArgsHelper
import AndroidAnalysis.RouteFunc.RouteFunc

/-!
# `hook_jni/jni_env_hook.cpp` on arm64

The tables of the two fake objects, and the three functions behind their slots.
A hook is a function of what it was called with: the `method_info_t` its
trampoline holds, the registers and stack words, and the environment
`get_origin_env` gave it.  It prints, and then does one of the things
`HookAction` lists.  Carrying the action out belongs to the run of the process.

`pretty` is `get_method_name` of a method id, which the virtual machine answers.
-/

namespace HookJni

open Cpp Machine RouteFunc

/-! ## What a hook does -/

/-- What a hook does after it has printed. -/
inductive HookAction
  /-- Return at once. -/
  | ret (value : BitVec 64)
  /-- Call the original function. -/
  | route (call : RouteCall)
  /-- `call_back_JNINativeMethod`. -/
  | registerNatives (env c method : BitVec 64) (num : Int) (originCall : BitVec 64)
  /-- `fake_AttachCurrentThread`. -/
  | fakeAttachCurrentThread (penv param : BitVec 64)
  /-- `fake_GetEnv`. -/
  | fakeGetEnv (penv : BitVec 64) (param : Int)

/-- A result of `vector::size`. -/
def sizeT (n : Nat) : BitVec 64 := BitVec.ofNat 64 n

/-- A `size_t` stored in an `int`. -/
def narrow (w : BitVec 64) : Int := (w.setWidth 32).toInt

/-- The types of an entry, as the strings the source keeps. -/
def MethodInfo.argsText (info : MethodInfo) : List Str := info.argsType.map JniType.text

/-! ## `hook_call_methods` -/

/-- Which register holds the method id, and the residue that tells the variants
apart. -/
def modIndexOf (index : Nat) : Option (Nat × Fin 8) :=
  if index ≤ 63 then some (index % 3, 2)
  else if index ≤ 93 then some (index % 3, 3)
  else if index ≤ 143 then some ((index + 1) % 3, 2)
  else none

/-- `stack_args_count`, from the sizes of the two vectors. -/
def stackArgsCount (modIndex args ctxArgs : Nat) : Int :=
  let count :=
    if modIndex = 0 then narrow (sizeT args + sizeT ctxArgs - 8 - 1) else narrow (sizeT ctxArgs - 8)
  if count < 0 then 0 else count

/-- `hook_call_methods`. -/
def hookCallMethods (info : MethodInfo) (originEnv originCall : BitVec 64)
    (pretty : BitVec 64 → Str) (h : HookArgs) : Except Fault (Traced × HookAction) := do
  let printed ← printfJavaFuncArgs h 0 info.argsText ((info.argsText.length : Int) - 1)
  match modIndexOf info.index with
  | none => .ok (printed.1, .ret 0)
  | some (modIndex, methodId) =>
      let methodPrettyName := pretty (h.x methodId)
      if methodPrettyName = [] then .ok (printed.1, .ret 0)
      else do
        let parsed ← parseJavaPrettyName methodPrettyName ⟨[], [], [], []⟩
        if parsed.1 = false then .ok (printed.1, .ret 0)
        else do
          let argsType := parsed.2.argsType
          let count := stackArgsCount modIndex argsType.length info.argsType.length
          let traced ← (if modIndex = 0 ∨ modIndex = 1 then do
              let r ← printfJavaFuncArgs h printed.2 argsType argsType.length
              .ok r.1
            else printfJavaFuncArgsEndWithArray h printed.2 argsType)
          .ok (printed.1 ++ traced, .route ⟨h.withX0 originEnv, count, h.stackArgs, originCall⟩)

/-! ## `hook_other_methods` and `hook_jvm_methods` -/

/-- `size() >= 8 ? size() - 8 : 0`. -/
def overflowCount (args : Nat) : Int := if args ≥ 8 then (args : Int) - 8 else 0

/-- `hook_other_methods`. -/
def hookOtherMethods (info : MethodInfo) (originEnv originCall : BitVec 64) (h : HookArgs) :
    Except Fault (Traced × HookAction) := do
  let printed ← printfJavaFuncArgs h 0 info.argsText info.argsText.length
  if info.index = 215 then
    .ok (printed.1,
      .registerNatives originEnv (h.x 1) (h.x 2) ((h.x 3).setWidth 32).toInt originCall)
  else
    .ok (printed.1,
      .route ⟨h.withX0 originEnv, overflowCount info.argsType.length, h.stackArgs, originCall⟩)

/-- `hook_jvm_methods`. -/
def hookJvmMethods (info : MethodInfo) (originJvm originCall : BitVec 64) (h : HookArgs) :
    HookAction :=
  if info.index = 4 then .fakeAttachCurrentThread (h.x 1) (h.x 2)
  else if info.index = 6 then .fakeGetEnv (h.x 1) ((h.x 2).setWidth 32).toInt
  else .route ⟨h.withX0 originJvm, overflowCount info.argsType.length, h.stackArgs, originCall⟩

/-! ## The fake tables -/

/-- The functions the trampolines of `JNIEnv` call. -/
inductive EnvHook
  | other
  | call
deriving DecidableEq

/-- `hook_funcs`. -/
def hookFuncs : List EnvHook :=
  [.other, .other, .other, .other, .other, .other, .other, .other, .call]

/-- The entries a loop visits: those before the first index `0`. -/
def visited (infos : List MethodInfo) : List MethodInfo := infos.takeWhile (·.index ≠ 0)

/-- The stores of `create_hook_jni_env` into the new interface, in order. -/
def envStores : List (EnvHook × MethodInfo) :=
  (hookFuncs.zip jniAllMethods).flatMap fun p => (visited p.2).map fun info => (p.1, info)

/-- `create_hook_jni_env`: the trampoline in each slot of the new interface. -/
def createHookJniEnv (slot : Nat) : Option (EnvHook × MethodInfo) :=
  envStores.reverse.find? fun p => p.2.index = slot

/-- `create_hook_java_vm`: the trampoline in each slot of the new interface, all
of `hook_jvm_methods`. -/
def createHookJavaVm (slot : Nat) : Option MethodInfo :=
  (visited jniJvmMethodInfo).reverse.find? fun info => info.index = slot

/-- A slot holds an entry with its number. -/
theorem createHookJniEnv_some {slot : Nat} {p : EnvHook × MethodInfo}
    (h : createHookJniEnv slot = some p) : p ∈ envStores ∧ p.2.index = slot :=
  ⟨List.mem_reverse.mp (List.mem_of_find?_eq_some h), by simpa using List.find?_some h⟩

theorem createHookJavaVm_some {slot : Nat} {info : MethodInfo}
    (h : createHookJavaVm slot = some info) : info ∈ jniJvmMethodInfo ∧ info.index = slot :=
  ⟨(List.takeWhile_sublist _).mem (List.mem_reverse.mp (List.mem_of_find?_eq_some h)),
    by simpa using List.find?_some h⟩

end HookJni
