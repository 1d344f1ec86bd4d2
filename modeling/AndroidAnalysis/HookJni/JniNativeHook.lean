import AndroidAnalysis.HookJni.EnumJniStaticMethod
import AndroidAnalysis.HookJni.PrintfArgsHelper

/-!
# `hook_jni/jni_native_hook.cpp` on arm64

The hook of a native method and the replacement of `RegisterNatives`.  The two
lists of infos, `static_jni_func_infos` and `reg_jni_func_infos`, are given and
returned.  A trampoline holds a pointer to its info, so the trampoline made for
an info is the `FnPtr` with its place in `reg_jni_func_infos`: an info never
moves, and every info that gets a trampoline is put at the end of that list.
-/

namespace HookJni

open Cpp Utils RouteFunc

/-! ## `hook_native_func` -/

/-- `java_args_offset` of `hook_native_func`: `2 * REG_BIT_SIZE`. -/
def nativeJavaArgsOffset : BitVec 64 := 2 * 8

/-- The stack words `hook_native_func` forwards: `size() + 2 >= 8 ? size() - 8 + 2 : 0`. -/
def nativeStackArgs (args : Nat) : Int := if args + 2 ≥ 8 then (args : Int) - 8 + 2 else 0

/-- `hook_native_func` on its info: what the info becomes, what is printed, and
the call of the original function with the fake environment. -/
def hookNativeFunc (refl : Reflection) (fakeEnv : BitVec 64) (info : NativeMethodInfo)
    (h : HookArgs) : Except Fault (NativeMethodInfo × Traced × RouteCall) := do
  let info ← (if info.available then .ok info else updateMethodInfo refl info)
  let printed ← printfJavaFuncArgs h nativeJavaArgsOffset info.argsType info.argsType.length
  .ok (info, printed.1, ⟨h.withX0 fakeEnv, nativeStackArgs info.argsType.length, h.stackArgs,
    info.originCall⟩)

/-- The loop of `init_jni_hook`: `DobbyHook` stores the original function of each
info. -/
def hookStaticInfos (originOf : Nat → BitVec 64) (infos : List NativeMethodInfo) :
    List NativeMethodInfo :=
  infos.mapIdx fun i info => { info with originCall := originOf i }

/-! ## `hook_RegisterNatives` -/

/-- `JNINativeMethod`. -/
structure JniNativeMethod (P : Type) where
  name : Str
  signature : Str
  fnPtr : P
deriving DecidableEq

/-- Some registered info has the address: the `is_repeat` loop. -/
def isRepeat (regs : List NativeMethodInfo) (fnPtr : BitVec 64) : Bool :=
  regs.any fun item => item.addr = fnPtr

/-- The info of an entry. -/
def registeredInfo (m : JniNativeMethod (BitVec 64)) (parsed : SignatureOut) (className : Str) :
    NativeMethodInfo where
  className := className
  methodName := m.name
  argsType := parsed.argsType
  addr := m.fnPtr
  originCall := m.fnPtr
  retType := parsed.retType

/-- A round of the loop of `hook_RegisterNatives`: the entry of `fake_method`,
and `reg_jni_func_infos`. -/
def registerEntry (refl : Reflection) (c : BitVec 64) (regs : List NativeMethodInfo)
    (m : JniNativeMethod (BitVec 64)) :
    Except Fault (JniNativeMethod FnPtr × List NativeMethodInfo) :=
  if isRepeat regs m.fnPtr then .ok (⟨m.name, m.signature, .code m.fnPtr⟩, regs)
  else do
    let parsed ← parseJavaSignature m.signature ⟨[], []⟩
    if parsed.1 = false then .ok (⟨m.name, m.signature, .code m.fnPtr⟩, regs)
    else do
      let className ← getObjectClassName refl c
      .ok (⟨m.name, m.signature, .shellcode (.reg regs.length)⟩,
        regs ++ [registeredInfo m parsed.2 className])

/-- `hook_RegisterNatives`: the table it passes to the original function, and
`reg_jni_func_infos`. -/
def hookRegisterNatives (refl : Reflection) (c : BitVec 64) :
    List (JniNativeMethod (BitVec 64)) → List NativeMethodInfo →
      Except Fault (List (JniNativeMethod FnPtr) × List NativeMethodInfo)
  | [], regs => .ok ([], regs)
  | m :: method, regs => do
      let first ← registerEntry refl c regs m
      let rest ← hookRegisterNatives refl c method first.2
      .ok (first.1 :: rest.1, rest.2)

end HookJni
