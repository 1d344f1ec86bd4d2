import Mathlib.Data.Char
import Mathlib.Data.List.Dedup
import Mathlib.Data.List.Lex
import Mathlib.Data.List.Sort
import AndroidAnalysis.HookJni.ParseJavaSig
import AndroidAnalysis.Utils.JniHelper
import AndroidAnalysis.Machine.EventRun
import AndroidAnalysis.RouteFunc.RouteFunc

/-!
# `hook_jni/enum_jni_static_method.cpp`

What is kept of a native method, and how `update_method_info` and
`get_method_info` fill it in by reflection.  A `native_method_info *` of
`get_method_info` is the place of the info in `infos`.
-/

namespace HookJni

open Cpp Utils Machine

/-- `native_method_info`. -/
structure NativeMethodInfo where
  className : Str := []
  methodName : Str := []
  isOverride : Bool := false
  argsType : List Str := []
  available : Bool := false
  addr : BitVec 64
  originCall : BitVec 64
  retType : Str := []
  symName : Str := []
deriving DecidableEq

/-- What `parse_java_pretty_name` writes into an info. -/
def NativeMethodInfo.withPretty (info : NativeMethodInfo) (out : PrettyNameOut) :
    NativeMethodInfo :=
  { info with
    className := out.className
    methodName := out.methodName
    argsType := out.argsType
    retType := out.retType }

/-- The fields of an info that `parse_java_pretty_name` is given. -/
def NativeMethodInfo.pretty (info : NativeMethodInfo) : PrettyNameOut :=
  ⟨info.className, info.methodName, info.argsType, info.retType⟩

/-- A round of the loop of `update_method_info`. -/
def updateFromMethod (info : NativeMethodInfo) (method : Str × Str) :
    Except Fault NativeMethodInfo :=
  if method.1 = info.methodName then do
    let parsed ← parseJavaPrettyName method.2 info.pretty
    let info := info.withPretty parsed.2
    .ok (if parsed.1 then { info with available := true } else info)
  else .ok info

/-- The class of `update_method_info`: by its dotted name, then by its slash
name. -/
def targetClass (refl : Reflection) (className : Str) : Except Fault (Option (BitVec 64)) :=
  match refl.forName className with
  | some c => .ok (some c)
  | none => do
      let jniClassName ← replaceAll className ['.'] ['/']
      .ok (refl.findClass jniClassName)

/-- `update_method_info`, which goes through the declared methods in order. -/
def updateMethodInfo (refl : Reflection) (info : NativeMethodInfo) :
    Except Fault NativeMethodInfo := do
  let target ← targetClass refl info.className
  match target with
  | none => .ok info
  | some c => run updateFromMethod info (refl.declaredMethods c)

/-- A round of the loop over the infos in `get_method_info`. -/
def updateAt (method : Str × Str) (infos : List NativeMethodInfo) (ptr : Nat) :
    Except Fault (List NativeMethodInfo) :=
  match infos[ptr]? with
  | none => .error .undefined
  | some info => do
      let info ← updateFromMethod info method
      .ok (infos.set ptr info)

/-- `get_method_info` with the pointers `ptrs` into `infos`. -/
def getMethodInfo (refl : Reflection) (className : Str) (ptrs : List Nat)
    (infos : List NativeMethodInfo) : Except Fault (List NativeMethodInfo) := do
  let target ← targetClass refl className
  match target with
  | none => .ok infos
  | some c =>
      run (fun infos method => run (updateAt method) infos ptrs) infos (refl.declaredMethods c)

/-! ## The exported natives -/

/-- An `elf_info`, by what `fake_get_sym_name` and `fake_dlsym` give. -/
structure ElfInfo where
  symNames : List Str
  dlsym : Str → BitVec 64

/-- The info of a symbol that `parse_java_lang_name` reads.  Its `origin_call`
is not set yet. -/
def ElfInfo.info (tarModule : ElfInfo) (symName : Str) (parsed : LangNameOut) :
    NativeMethodInfo where
  className := parsed.className
  methodName := parsed.methodName
  isOverride := parsed.isOverride
  argsType := parsed.argsType
  addr := tarModule.dlsym symName
  originCall := 0
  symName := symName

/-- A round of the loop over the symbols. -/
def enumSymbol (tarModule : ElfInfo) (infos : List NativeMethodInfo) (symName : Str) :
    Except Fault (List NativeMethodInfo) := do
  let parsed ← parseJavaLangName symName ⟨[], [], [], false⟩
  .ok (if parsed.1 then infos ++ [tarModule.info symName parsed.2] else infos)

/-- `need_query[class_name]`: the infos of a class without parameters. -/
def needQuery (infos : List NativeMethodInfo) (className : Str) : List Nat :=
  (List.range infos.length).filter fun i =>
    infos[i]?.any fun info => !info.isOverride && info.className = className

/-- The keys of `need_query`, in order. -/
def needQueryKeys (infos : List NativeMethodInfo) : List Str :=
  ((infos.filter fun info => !info.isOverride).map NativeMethodInfo.className).dedup.insertionSort
    (· ≤ ·)

/-- `enum_static_jni_func`. -/
def enumStaticJniFunc (refl : Reflection) (tarModule : ElfInfo) :
    Except Fault (List NativeMethodInfo) := do
  let infos ← run (enumSymbol tarModule) [] tarModule.symNames
  run (fun infos' className => getMethodInfo refl className (needQuery infos className) infos')
    infos (needQueryKeys infos)

/-! ## Pointers -/

/-- Two infos with the same pointers. -/
def SamePointers (info info' : NativeMethodInfo) : Prop :=
  info'.addr = info.addr ∧ info'.originCall = info.originCall

theorem SamePointers.refl (info : NativeMethodInfo) : SamePointers info info := ⟨rfl, rfl⟩

theorem SamePointers.trans {a b c : NativeMethodInfo} (h : SamePointers a b)
    (h' : SamePointers b c) : SamePointers a c :=
  ⟨h'.1.trans h.1, h'.2.trans h.2⟩

/-- An update writes what the reader of the printed method has, and says whether it
was read, or nothing. -/
theorem updateFromMethod_ok {info info' : NativeMethodInfo} {method : Str × Str}
    (h : updateFromMethod info method = .ok info') :
    info' = info ∨ ∃ pretty available, info' = { info.withPretty pretty with available } := by
  rw [updateFromMethod] at h
  split at h
  next =>
    obtain ⟨parsed, -, h⟩ := bind_eq_ok.mp h
    rw [Except.ok.injEq] at h
    subst h
    refine .inr ⟨parsed.2, ?_⟩
    split
    next => exact ⟨_, rfl⟩
    next => exact ⟨_, rfl⟩
  next => exact .inl (Except.ok.inj h).symm

theorem updateFromMethod_pointers {info info' : NativeMethodInfo} {method : Str × Str}
    (h : updateFromMethod info method = .ok info') : SamePointers info info' := by
  obtain rfl | ⟨pretty, available, rfl⟩ := updateFromMethod_ok h
  · exact .refl info'
  · exact ⟨rfl, rfl⟩

/-- An update leaves the two pointers of an info alone. -/
theorem updateMethodInfo_pointers {refl : Reflection} {info info' : NativeMethodInfo}
    (h : updateMethodInfo refl info = .ok info') : SamePointers info info' := by
  obtain ⟨target, -, h⟩ := bind_eq_ok.mp h
  cases target with
  | none => exact (Except.ok.inj h) ▸ .refl info
  | some c =>
      exact run_relation SamePointers.refl (fun _ _ _ => .trans)
        (fun _ _ _ => updateFromMethod_pointers) h

end HookJni
