import AndroidAnalysis.Cpp.Int
import AndroidAnalysis.HookJni.JavaTypes

/-!
# `hook_jni/printf_java_args.cpp`

How a traced argument is formatted and how wide it is.  The table is
`map_args_type_2_format_func`, and a type it does not list is a pointer.
-/

namespace HookJni

open Cpp

/-- A function of the table. -/
inductive FormatFunc
  | void
  | bool
  | byte
  | char
  | short
  | int
  | long
  | float
  | double
  | javaLangString
  | inJavaParse
  | jclass
  | jweak
  | jfieldID
  | jmethodID
  | char4
  | jthrowable
deriving DecidableEq

/-- `format_info_t`. -/
structure FormatInfo where
  formatFunc : FormatFunc
  typeSize : Nat
  needJnienv : Bool
deriving DecidableEq

/-- The size of a pointer and of a `size_t`. -/
def pointerSize : Build → Nat
  | .arm32 => 4
  | .arm64 => 8

/-- `map_args_type_2_format_func`. -/
def mapArgsType2FormatFunc (b : Build) : List (Str × FormatInfo) := [
  ("V".toList, ⟨.void, 0, false⟩),
  ("Z".toList, ⟨.bool, 4, false⟩),
  ("B".toList, ⟨.byte, 4, false⟩),
  ("C".toList, ⟨.char, 4, false⟩),
  ("S".toList, ⟨.short, 4, false⟩),
  ("I".toList, ⟨.int, 4, false⟩),
  ("J".toList, ⟨.long, 8, false⟩),
  ("F".toList, ⟨.float, 8, false⟩),
  ("D".toList, ⟨.double, 8, false⟩),
  ("void".toList, ⟨.void, 0, false⟩),
  ("jboolean".toList, ⟨.bool, 4, false⟩),
  ("jbyte".toList, ⟨.byte, 4, false⟩),
  ("jchar".toList, ⟨.char, 4, false⟩),
  ("jshort".toList, ⟨.short, 4, false⟩),
  ("jint".toList, ⟨.int, 4, false⟩),
  ("jlong".toList, ⟨.long, 8, false⟩),
  ("jfloat".toList, ⟨.float, 8, false⟩),
  ("jdouble".toList, ⟨.double, 8, false⟩),
  ("jsize".toList, ⟨.int, 4, false⟩),
  ("jstring".toList, ⟨.javaLangString, pointerSize b, true⟩),
  ("Ljava/lang/String;".toList, ⟨.javaLangString, pointerSize b, true⟩),
  ("jarray".toList, ⟨.inJavaParse, pointerSize b, true⟩),
  ("jobjectArray".toList, ⟨.inJavaParse, pointerSize b, true⟩),
  ("jbooleanArray".toList, ⟨.inJavaParse, pointerSize b, true⟩),
  ("jbyteArray".toList, ⟨.inJavaParse, pointerSize b, true⟩),
  ("jcharArray".toList, ⟨.inJavaParse, pointerSize b, true⟩),
  ("jshortArray".toList, ⟨.inJavaParse, pointerSize b, true⟩),
  ("jintArray".toList, ⟨.inJavaParse, pointerSize b, true⟩),
  ("jlongArray".toList, ⟨.inJavaParse, pointerSize b, true⟩),
  ("jfloatArray".toList, ⟨.inJavaParse, pointerSize b, true⟩),
  ("jdoubleArray".toList, ⟨.inJavaParse, pointerSize b, true⟩),
  ("jobject".toList, ⟨.inJavaParse, pointerSize b, true⟩),
  ("jthrowable".toList, ⟨.jthrowable, pointerSize b, true⟩),
  ("jvalue".toList, ⟨.inJavaParse, 8, true⟩),
  ("jclass".toList, ⟨.jclass, pointerSize b, true⟩),
  ("jweak".toList, ⟨.jweak, pointerSize b, true⟩),
  ("jfieldID".toList, ⟨.jfieldID, pointerSize b, true⟩),
  ("jmethodID".toList, ⟨.jmethodID, pointerSize b, true⟩),
  ("jobjectRefType".toList, ⟨.int, 4, false⟩),
  ("char*".toList, ⟨.char4, pointerSize b, false⟩),
  ("size_t".toList, ⟨.long, pointerSize b, false⟩),
  ("int".toList, ⟨.int, 4, false⟩)]

/-- `get_args_size`.  `find('*')` is tested as a number: only a `*` in front
makes it false. -/
def getArgsSizeOn (b : Build) (argsType : Str) : Nat :=
  match (mapArgsType2FormatFunc b).lookup argsType with
  | some info => info.typeSize
  | none =>
      if argsType.head? = some '[' ∨ argsType.head? = some 'L' then pointerSize b
      else if find argsType ['*'] ≠ some 0 then pointerSize b
      else 0

/-- `get_args_size` on arm64. -/
def getArgsSize (argsType : Str) : Nat := getArgsSizeOn .arm64 argsType

/-- The width of a type: four bytes for the integers up to `int`. -/
def JavaType.width {N : Type} (t : JavaType N) : Nat :=
  match t with
  | ⟨0, .prim .boolean⟩ | ⟨0, .prim .byte⟩ | ⟨0, .prim .char⟩ | ⟨0, .prim .short⟩
  | ⟨0, .prim .int⟩ => 4
  | _ => 8

/-- Every listed class and array type has eight bytes. -/
theorem lookup_reference {s : Str} (h : s.head? = some '[' ∨ s.head? = some 'L') {n : FormatInfo}
    (hn : (mapArgsType2FormatFunc .arm64).lookup s = some n) : n.typeSize = 8 := by
  have hall : ∀ p ∈ mapArgsType2FormatFunc .arm64,
      p.1.head? = some '[' ∨ p.1.head? = some 'L' → p.2.typeSize = 8 := by decide
  have hmem : (s, n) ∈ mapArgsType2FormatFunc .arm64 := by
    obtain ⟨l₁, l₂, hl, -⟩ := List.lookup_eq_some_iff.mp hn
    rw [hl]
    exact List.mem_append_right l₁ List.mem_cons_self
  exact hall _ hmem h

theorem getArgsSize_reference {s : Str} (h : s.head? = some '[' ∨ s.head? = some 'L') :
    getArgsSize s = 8 := by
  rw [getArgsSize, getArgsSizeOn]
  cases hl : (mapArgsType2FormatFunc .arm64).lookup s with
  | some n => exact lookup_reference h hl
  | none => exact if_pos h

/-- A descriptor has the size of its type. -/
theorem getArgsSize_descriptor {N : Type} (slash : N → Str) (t : JavaType N) :
    getArgsSize (t.descriptor slash) = t.width := by
  obtain ⟨dim, b⟩ := t
  cases dim with
  | succ k => exact getArgsSize_reference (.inl rfl)
  | zero =>
      cases b with
      | cls n => exact getArgsSize_reference (.inr rfl)
      | prim p => cases p <;> rfl

end HookJni
