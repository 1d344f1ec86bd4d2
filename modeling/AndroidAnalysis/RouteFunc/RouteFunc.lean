/-!
# `route_func/route_func.h`

What the hooks hand to `route_jni_func`, and the pointers a trampoline can be
taken for.  A trampoline of `create_shellcode_hooking_func` is known by the
record its code passes to the hook, since that is all a caller learns from it.
-/

namespace RouteFunc

/-- A `native_method_info`: an element of `static_jni_func_infos` or of
`reg_jni_func_infos`. -/
inductive NativeRef
  | static (index : Nat)
  | reg (index : Nat)
deriving DecidableEq

/-- A function pointer: code that is not the program's own, or a trampoline of
`hook_native_func`. -/
inductive FnPtr
  | code (addr : BitVec 64)
  | shellcode (context : NativeRef)
deriving DecidableEq

/-- The arguments of `route_jni_func`. -/
structure RouteCall where
  x : Fin 8 → BitVec 64
  argc : Int
  stackParamsStart : Nat
  pcall : BitVec 64

end RouteFunc
