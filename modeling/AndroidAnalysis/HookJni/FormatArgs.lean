import AndroidAnalysis.Cpp.Format
import AndroidAnalysis.Cpp.Int
import AndroidAnalysis.HookJni.ParseJavaSig
import AndroidAnalysis.HookJni.PrintfArgsHelper

/-!
# The texts of traced arguments

`format_args` of `hook_jni/printf_java_args.cpp` with the functions of its table, on
both builds.

Every formatter of an integer passes the 64-bit word to `%d`, which reads an
`int`.  Both calling conventions hand it the low half of the word, so what is
printed is the word cut to an `int`.  For the types of four bytes that is the
value, and for the others the value where it is an `int`
(`formatArgs_decimal_iff`).

What a formatter asks of the Java side, reads at an address, or leaves to `%p` is
data of the model.
-/

namespace HookJni

open Cpp

/-! ## The formatters -/

/-- What `jstring2str` and `frida_helper.object_2_string` return. -/
structure JavaTexts where
  jstring2str : BitVec 64 → Str
  object2String : BitVec 64 → BitVec 64

/-- What a formatter uses besides its argument: the Java side, which a null `JNIEnv`
does not have, the text at an address, the text `%p` writes, and the one `%lf` writes for
a register that nothing was passed in. -/
structure FormatWorld where
  env : Option JavaTexts
  stringAt : BitVec 64 → Str
  pointerText : BitVec 64 → Str
  doubleText : Str

/-- `sprintf` into `char buf[254]`. -/
def sprintfBuf (text : Str) : Except Fault Str :=
  if text.length < 254 then .ok text else .error .undefined

/-- A call through `env`. -/
def withEnv (w : FormatWorld) (f : JavaTexts → Str) : Except Fault Str :=
  match w.env with
  | some env => .ok (f env)
  | none => .error .undefined

/-- `sprintf(buf, "%d", obj)`, with the `int` that is in the low half of `obj`. -/
def sprintfD (obj : BitVec 64) : Except Fault Str := sprintfBuf (decimal (obj.setWidth 32).toInt)

/-- `sprintf` of a text and `%p`. -/
def sprintfP (w : FormatWorld) (text : Str) (obj : BitVec 64) : Except Fault Str :=
  sprintfBuf (text ++ w.pointerText obj)

def formatJavaVoid : Except Fault Str := .ok "void".toList

def formatJavaBool (obj : BitVec 64) : Except Fault Str :=
  if obj ≠ 0 then .ok "true".toList else .ok "false".toList

def formatJavaByte (obj : BitVec 64) : Except Fault Str := sprintfD obj

def formatJavaChar (obj : BitVec 64) : Except Fault Str := sprintfD obj

def formatJavaShort (obj : BitVec 64) : Except Fault Str := sprintfD obj

def formatJavaInt (obj : BitVec 64) : Except Fault Str := sprintfD obj

def formatJavaLong (obj : BitVec 64) : Except Fault Str := sprintfD obj

def formatJavaFloat (obj : BitVec 64) : Except Fault Str := sprintfD obj

def formatJavaDouble (w : FormatWorld) : Except Fault Str := sprintfBuf w.doubleText

def formatJavaJavaLangString (w : FormatWorld) (obj : BitVec 64) : Except Fault Str :=
  if obj = 0 then .ok "null".toList else withEnv w fun env => env.jstring2str obj

def formatJavaInJavaParse (w : FormatWorld) (obj : BitVec 64) : Except Fault Str :=
  if obj = 0 then .ok "null".toList
  else withEnv w fun env =>
    if env.object2String obj = 0 then "null".toList else env.jstring2str (env.object2String obj)

def formatJavaJclass (w : FormatWorld) (obj : BitVec 64) : Except Fault Str := sprintfP w [] obj

def formatJavaJweak (w : FormatWorld) (obj : BitVec 64) : Except Fault Str :=
  sprintfP w "cant format jweak:".toList obj

def formatJavaJfieldID (w : FormatWorld) (obj : BitVec 64) : Except Fault Str := sprintfP w [] obj

def formatJavaJmethodID (w : FormatWorld) (obj : BitVec 64) : Except Fault Str := sprintfP w [] obj

def formatJavaChar4 (w : FormatWorld) (obj : BitVec 64) : Except Fault Str :=
  if obj = 0 then .ok "char* is null pointer".toList else .ok (w.stringAt obj)

def formatJavaJthrowable (w : FormatWorld) (obj : BitVec 64) : Except Fault Str :=
  if obj = 0 then .ok "no exception".toList else formatJavaInJavaParse w obj

/-! ## The table -/

/-- A call of the function of an entry. -/
def FormatFunc.call (w : FormatWorld) (obj : BitVec 64) : FormatFunc → Except Fault Str
  | .void => formatJavaVoid
  | .bool => formatJavaBool obj
  | .byte => formatJavaByte obj
  | .char => formatJavaChar obj
  | .short => formatJavaShort obj
  | .int => formatJavaInt obj
  | .long => formatJavaLong obj
  | .float => formatJavaFloat obj
  | .double => formatJavaDouble w
  | .javaLangString => formatJavaJavaLangString w obj
  | .inJavaParse => formatJavaInJavaParse w obj
  | .jclass => formatJavaJclass w obj
  | .jweak => formatJavaJweak w obj
  | .jfieldID => formatJavaJfieldID w obj
  | .jmethodID => formatJavaJmethodID w obj
  | .char4 => formatJavaChar4 w obj
  | .jthrowable => formatJavaJthrowable w obj

/-- The last branches of `format_args`. -/
def formatPointer (w : FormatWorld) (argsType : Str) (obj : BitVec 64) : Except Fault Str :=
  if find argsType ['*'] ≠ some 0 then
    sprintfP w ("format a pointer ".toList ++ cStr argsType ++ [':']) obj
  else sprintfP w ("cant format ".toList ++ cStr argsType ++ [':']) obj

/-- `format_args`. -/
def formatArgs (b : Build) (w : FormatWorld) (argsType : Str) (obj : BitVec 64) :
    Except Fault Str :=
  match (mapArgsType2FormatFunc b).lookup argsType with
  | some info =>
      if w.env.isSome ∨ ¬ info.needJnienv then info.formatFunc.call w obj
      else formatPointer w argsType obj
  | none =>
      if w.env.isSome ∧ (argsType.head? = some '[' ∨ argsType.head? = some 'L') then
        formatJavaInJavaParse w obj
      else formatPointer w argsType obj

/-! ## Integers -/

/-- The integers that are traced. -/
inductive IntegerKind
  | byte
  | char
  | short
  | int
  | long
  | size
deriving DecidableEq

/-- The values of an integer type. -/
def IntegerKind.Has (b : Build) : IntegerKind → Int → Prop
  | .byte, v => -128 ≤ v ∧ v < 128
  | .char, v => 0 ≤ v ∧ v < 65536
  | .short, v => -32768 ≤ v ∧ v < 32768
  | .int, v => IsInt v
  | .long, v => -9223372036854775808 ≤ v ∧ v < 9223372036854775808
  | .size, v => 0 ≤ v ∧ v < b.words

/-- The function that formats an integer. -/
def IntegerKind.formatFunc : IntegerKind → FormatFunc
  | .byte => .byte
  | .char => .char
  | .short => .short
  | .int => .int
  | .long => .long
  | .size => .long

/-- The size of the table for an integer. -/
def IntegerKind.typeSize (b : Build) : IntegerKind → Nat
  | .long => 8
  | .size => pointerSize b
  | _ => 4

/-- The type codes of integers. -/
def integerTypes : List (Str × IntegerKind) := [
  ("B".toList, .byte),
  ("C".toList, .char),
  ("S".toList, .short),
  ("I".toList, .int),
  ("J".toList, .long),
  ("jbyte".toList, .byte),
  ("jchar".toList, .char),
  ("jshort".toList, .short),
  ("jint".toList, .int),
  ("jsize".toList, .int),
  ("jlong".toList, .long),
  ("size_t".toList, .size)]

/-- The word `get_args` yields for a value: the value extended to 64 bits, by its sign
where its type has one, and cut to the bytes that are fetched. -/
def fetched (b : Build) (argsType : Str) (v : Int) : BitVec 64 :=
  cut (readSizeOn b argsType) (BitVec.ofInt 64 v)

/-- The entry of the table. -/
theorem lookup_integerTypes (b : Build) : ∀ p ∈ integerTypes,
    (mapArgsType2FormatFunc b).lookup p.1 = some ⟨p.2.formatFunc, p.2.typeSize b, false⟩ := by
  cases b with
  | arm32 => decide
  | arm64 => decide

/-- An integer is formatted by `%d`, whether there is a `JNIEnv` or not. -/
theorem formatArgs_integer (b : Build) (w : FormatWorld) {p : Str × IntegerKind}
    (hp : p ∈ integerTypes) (obj : BitVec 64) : formatArgs b w p.1 obj = sprintfD obj := by
  rw [formatArgs, lookup_integerTypes b p hp]
  dsimp only
  rw [if_pos (.inr Bool.false_ne_true)]
  cases p.2 <;> rfl

/-- The low half of the word, whichever bytes are fetched. -/
theorem setWidth_fetched (b : Build) (argsType : Str) (v : Int) :
    (fetched b argsType v).setWidth 32 = BitVec.ofInt 32 v := by
  have hlow : (BitVec.ofInt 64 v).setWidth 32 = BitVec.ofInt 32 v := by
    rw [← BitVec.toNat_inj, BitVec.toNat_setWidth, BitVec.toNat_ofInt, BitVec.toNat_ofInt]
    omega
  rw [← hlow, fetched, cut]
  rcases readSizeOn_cases b argsType with h | h
  · rw [h, BitVec.setWidth_eq, BitVec.setWidth_eq]
  · rw [h, BitVec.setWidth_setWidth_of_le _ (by decide), BitVec.setWidth_eq]

/-- An `int` is read off the bits of a value as the conversion makes it. -/
theorem toInt_ofInt_eq_asInt (v : Int) : (BitVec.ofInt 32 v).toInt = asInt v := by
  rw [BitVec.toInt_ofInt, Int.bmod, asInt]
  rfl

/-- `%d` writes the `int` that the conversion of the value gives. -/
theorem sprintfD_fetched (b : Build) (argsType : Str) (v : Int) :
    sprintfD (fetched b argsType v) = .ok (decimal (asInt v)) := by
  rw [sprintfD, setWidth_fetched, toInt_ofInt_eq_asInt, sprintfBuf]
  exact if_pos (Nat.lt_of_le_of_lt (length_decimal_le (isInt_asInt v)) (by decide))

/-- The values of the types of at most four bytes are `int`s. -/
theorem IntegerKind.Has.isInt {b : Build} {k : IntegerKind} {v : Int} (h : k.Has b v)
    (hlong : k ≠ .long) (hsize : k ≠ .size) : IsInt v := by
  rw [IsInt]
  cases k with
  | byte =>
      obtain ⟨hlo, hhi⟩ := h
      omega
  | char =>
      obtain ⟨hlo, hhi⟩ := h
      omega
  | short =>
      obtain ⟨hlo, hhi⟩ := h
      omega
  | int => exact h
  | long => exact absurd rfl hlong
  | size => exact absurd rfl hsize

/-- An integer is printed as it is exactly where it is an `int`, which all values of the
other types are. -/
theorem formatArgs_decimal_iff (b : Build) (w : FormatWorld) {p : Str × IntegerKind}
    (hp : p ∈ integerTypes) {v : Int} (hv : p.2.Has b v) :
    formatArgs b w p.1 (fetched b p.1 v) = .ok (decimal v) ↔
      (p.2 = .long ∨ p.2 = .size → IsInt v) := by
  have hint : formatArgs b w p.1 (fetched b p.1 v) = .ok (decimal v) ↔ IsInt v := by
    rw [formatArgs_integer b w hp, sprintfD_fetched, Except.ok.injEq, decimal_inj]
    exact ⟨fun h => h ▸ isInt_asInt v, asInt_of_isInt⟩
  rw [hint]
  refine ⟨fun h _ => h, fun h => ?_⟩
  by_cases hwide : p.2 = .long ∨ p.2 = .size
  · exact h hwide
  · rw [not_or] at hwide
    exact hv.isInt hwide.1 hwide.2

/-- A `jlong` that is an `int`. -/
theorem formatArgs_jlong_small : formatArgs .arm64 ⟨none, fun _ => [], fun _ => [], []⟩
    "jlong".toList (fetched .arm64 "jlong".toList (-1)) = .ok (decimal (-1)) :=
  (formatArgs_decimal_iff .arm64 _ (p := ("jlong".toList, .long)) (by decide) (v := -1)
    ⟨by decide, by decide⟩).mpr fun _ => by decide

/-- The `jlong` `2^32` is printed as `0`. -/
theorem formatArgs_jlong_wrong : formatArgs .arm64 ⟨none, fun _ => [], fun _ => [], []⟩
    "jlong".toList (fetched .arm64 "jlong".toList 4294967296) ≠ .ok (decimal 4294967296) := by
  rw [formatArgs_integer .arm64 _ (p := ("jlong".toList, .long)) (by decide), sprintfD_fetched]
  exact fun h => absurd (decimal_inj.mp (Except.ok.inj h)) (by decide)

end HookJni
