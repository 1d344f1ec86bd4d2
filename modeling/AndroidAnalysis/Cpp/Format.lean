import AndroidAnalysis.Cpp.String
import Mathlib.Algebra.GroupWithZero.Nat

/-!
# Format strings

The directives of `printf` and of `scanf`, with the arguments each of them
takes.  A format is a list of directives and its text is theirs, so every value
of `Format` is a conforming format string.

The two languages differ in a `*`.  In `printf` it stands for a number and takes
an argument.  In `scanf` it suppresses the assignment, and then the directive
takes none.
-/

namespace Cpp

/-! ## What the languages share -/

/-- A decimal digit. -/
def digitChar (d : Fin 10) : Char := Char.ofNat (48 + d.val)

/-- A character that is matched or written as it is. -/
structure OrdinaryChar where
  val : Char
  ne_percent : val ≠ '%'
  ne_nul : val ≠ Char.ofNat 0

/-- The argument of a directive: an integer or a pointer, a `double`, or a
`long double`. -/
inductive FormatArg
  | general
  | double
  | longDouble
deriving DecidableEq

/-- The length of an integer. -/
inductive IntLength
  | int
  | hh
  | h
  | l
  | ll
  | j
  | z
  | t

/-- The length of a floating number. -/
inductive FloatLength
  | double
  | l
  | L

/-- The conversions of integers. -/
inductive IntConv
  | d
  | i
  | o
  | u
  | x
  | X

/-- The conversions of floating numbers. -/
inductive FloatConv
  | f
  | F
  | e
  | E
  | g
  | G
  | a
  | A

def IntLength.text : IntLength → Str
  | .int => []
  | .hh => ['h', 'h']
  | .h => ['h']
  | .l => ['l']
  | .ll => ['l', 'l']
  | .j => ['j']
  | .z => ['z']
  | .t => ['t']

def FloatLength.text : FloatLength → Str
  | .double => []
  | .l => ['l']
  | .L => ['L']

def IntConv.char : IntConv → Char
  | .d => 'd'
  | .i => 'i'
  | .o => 'o'
  | .u => 'u'
  | .x => 'x'
  | .X => 'X'

def FloatConv.char : FloatConv → Char
  | .f => 'f'
  | .F => 'F'
  | .e => 'e'
  | .E => 'E'
  | .g => 'g'
  | .G => 'G'
  | .a => 'a'
  | .A => 'A'

/-- The length of a character or a string. -/
def wideText (wide : Bool) : Str := if wide then ['l'] else []

/-! ## `printf` -/

/-- The flags. -/
inductive Flag
  | minus
  | plus
  | space
  | hash
  | zero

def Flag.char : Flag → Char
  | .minus => '-'
  | .plus => '+'
  | .space => ' '
  | .hash => '#'
  | .zero => '0'

/-- A width or a precision: an argument, or digits, of which there may be none. -/
inductive Amount
  | star
  | digits (ds : List (Fin 10))

def Amount.text : Amount → Str
  | .star => ['*']
  | .digits ds => ds.map digitChar

/-- The arguments of an amount. -/
def Amount.stars : Amount → Nat
  | .star => 1
  | .digits _ => 0

/-- The conversions. -/
inductive PrintfConv
  | int (len : IntLength) (c : IntConv)
  | float (len : FloatLength) (c : FloatConv)
  | char (wide : Bool)
  | str (wide : Bool)
  | ptr
  | written (len : IntLength)

def PrintfConv.text : PrintfConv → Str
  | .int len c => len.text ++ [c.char]
  | .float len c => len.text ++ [c.char]
  | .char wide => wideText wide ++ ['c']
  | .str wide => wideText wide ++ ['s']
  | .ptr => ['p']
  | .written len => len.text ++ ['n']

/-- The argument that is converted. -/
def PrintfConv.arg : PrintfConv → FormatArg
  | .float .L _ => .longDouble
  | .float _ _ => .double
  | _ => .general

/-- A conversion specification. -/
structure PrintfSpec where
  flags : List Flag
  width : Amount
  precision : Option Amount
  conv : PrintfConv

/-- What stands between the percent sign and the conversion. -/
def PrintfSpec.modifiers (s : PrintfSpec) : Str :=
  s.flags.map Flag.char ++ s.width.text ++
    match s.precision with
    | some a => '.' :: a.text
    | none => []

/-- The arguments that a `*` takes. -/
def PrintfSpec.stars (s : PrintfSpec) : Nat :=
  s.width.stars + match s.precision with
    | some a => a.stars
    | none => 0

/-- A directive. -/
inductive PrintfPiece
  | plain (c : OrdinaryChar)
  | percent
  | spec (s : PrintfSpec)

def PrintfPiece.text : PrintfPiece → Str
  | .plain c => [c.val]
  | .percent => ['%', '%']
  | .spec s => '%' :: (s.modifiers ++ s.conv.text)

/-- The arguments of a directive. -/
def PrintfPiece.args : PrintfPiece → List FormatArg
  | .plain _ => []
  | .percent => []
  | .spec s => List.replicate s.stars .general ++ [s.conv.arg]

/-- The arguments of a directive that a `*` takes. -/
def PrintfPiece.stars : PrintfPiece → Nat
  | .plain _ => 0
  | .percent => 0
  | .spec s => s.stars

/-! ## `scanf` -/

/-- The characters between the brackets of a conversion.  A closing bracket is
among them only at the front. -/
structure ScanSet where
  negated : Bool
  first : Char
  rest : Str
  first_ne_nul : first ≠ Char.ofNat 0
  first_ne_caret : negated = false → first ≠ '^'
  nul_notMem : Char.ofNat 0 ∉ rest
  bracket_notMem : ']' ∉ rest

def ScanSet.text (s : ScanSet) : Str :=
  (if s.negated then ['^'] else []) ++ s.first :: s.rest

/-- The conversions. -/
inductive ScanfConv
  | int (len : IntLength) (c : IntConv)
  | float (len : FloatLength) (c : FloatConv)
  | char (wide : Bool)
  | str (wide : Bool)
  | set (wide : Bool) (s : ScanSet)
  | ptr
  | read (len : IntLength)

def ScanfConv.text : ScanfConv → Str
  | .int len c => len.text ++ [c.char]
  | .float len c => len.text ++ [c.char]
  | .char wide => wideText wide ++ ['c']
  | .str wide => wideText wide ++ ['s']
  | .set wide s => wideText wide ++ '[' :: s.text ++ [']']
  | .ptr => ['p']
  | .read len => len.text ++ ['n']

/-- A conversion specification. -/
structure ScanfSpec where
  suppressed : Bool
  width : List (Fin 10)
  conv : ScanfConv

/-- What stands between the percent sign and the conversion. -/
def ScanfSpec.modifiers (s : ScanfSpec) : Str :=
  (if s.suppressed then ['*'] else []) ++ s.width.map digitChar

/-- A directive. -/
inductive ScanfPiece
  | plain (c : OrdinaryChar)
  | percent
  | spec (s : ScanfSpec)

def ScanfPiece.text : ScanfPiece → Str
  | .plain c => [c.val]
  | .percent => ['%', '%']
  | .spec s => '%' :: (s.modifiers ++ s.conv.text)

/-- The arguments of a directive: a pointer, where it assigns. -/
def ScanfPiece.args : ScanfPiece → List FormatArg
  | .plain _ => []
  | .percent => []
  | .spec s => if s.suppressed then [] else [.general]

/-! ## Formats -/

/-- A format of one of the two languages. -/
inductive Format
  | printf (pieces : List PrintfPiece)
  | scanf (pieces : List ScanfPiece)

/-- The string. -/
def Format.text : Format → Str
  | .printf pieces => pieces.flatMap PrintfPiece.text
  | .scanf pieces => pieces.flatMap ScanfPiece.text

/-- The arguments a format consumes, in order. -/
def Format.args : Format → List FormatArg
  | .printf pieces => pieces.flatMap PrintfPiece.args
  | .scanf pieces => pieces.flatMap ScanfPiece.args

/-- The arguments that a `*` takes. -/
def Format.stars : Format → Nat
  | .printf pieces => (pieces.map PrintfPiece.stars).sum
  | .scanf _ => 0

/-! ## Percent signs -/

theorem digitChar_ne_percent (d : Fin 10) : digitChar d ≠ '%' := by
  revert d
  decide

theorem percent_notMem_digits (ds : List (Fin 10)) : '%' ∉ ds.map digitChar := by
  intro h
  obtain ⟨d, -, hd⟩ := List.mem_map.mp h
  exact digitChar_ne_percent d hd

theorem Amount.percent_notMem (a : Amount) : '%' ∉ a.text := by
  cases a with
  | star => decide
  | digits ds => exact percent_notMem_digits ds

theorem PrintfSpec.percent_notMem_modifiers (s : PrintfSpec) : '%' ∉ s.modifiers := by
  have hflags : '%' ∉ s.flags.map Flag.char := by
    intro h
    obtain ⟨f, -, hf⟩ := List.mem_map.mp h
    cases f <;> exact absurd hf (by decide)
  have hprecision : '%' ∉ (match s.precision with
      | some a => '.' :: a.text
      | none => []) := by
    cases s.precision with
    | none => exact List.not_mem_nil
    | some a =>
        rw [List.mem_cons, not_or]
        exact ⟨by decide, a.percent_notMem⟩
  rw [PrintfSpec.modifiers, List.mem_append, List.mem_append, not_or, not_or]
  exact ⟨⟨hflags, s.width.percent_notMem⟩, hprecision⟩

theorem PrintfConv.percent_notMem (c : PrintfConv) : '%' ∉ c.text := by
  cases c with
  | int len c => cases len <;> cases c <;> decide
  | float len c => cases len <;> cases c <;> decide
  | char wide => cases wide <;> decide
  | str wide => cases wide <;> decide
  | ptr => decide
  | written len => cases len <;> decide

theorem ScanfSpec.percent_notMem_modifiers (s : ScanfSpec) : '%' ∉ s.modifiers := by
  rw [ScanfSpec.modifiers, List.mem_append, not_or]
  refine ⟨?_, percent_notMem_digits s.width⟩
  cases s.suppressed <;> decide

/-- A percent sign in a conversion is inside its brackets. -/
theorem ScanfConv.ends (c : ScanfConv) :
    c.text.head? ≠ some '%' ∧ ∃ front back, c.text = front ++ [back] ∧ back ≠ '%' := by
  cases c with
  | int len c => exact ⟨by cases len <;> cases c <;> decide, _, _, rfl, by cases c <;> decide⟩
  | float len c => exact ⟨by cases len <;> cases c <;> decide, _, _, rfl, by cases c <;> decide⟩
  | char wide => exact ⟨by cases wide <;> decide, _, _, rfl, by decide⟩
  | str wide => exact ⟨by cases wide <;> decide, _, _, rfl, by decide⟩
  | set wide s =>
      refine ⟨?_, _, _, rfl, by decide⟩
      cases wide with
      | false => exact fun h => absurd (Option.some.inj h) (by decide)
      | true => exact fun h => absurd (Option.some.inj h) (by decide)
  | ptr => exact ⟨by decide, [], _, rfl, by decide⟩
  | read len => exact ⟨by cases len <;> decide, _, _, rfl, by decide⟩

/-- What follows the percent sign of a specification of `printf`. -/
theorem PrintfSpec.percent_notMem (s : PrintfSpec) : '%' ∉ s.modifiers ++ s.conv.text := by
  rw [List.mem_append, not_or]
  exact ⟨s.percent_notMem_modifiers, s.conv.percent_notMem⟩

/-- What follows the percent sign of a specification of `scanf`. -/
theorem ScanfSpec.ends (s : ScanfSpec) : (s.modifiers ++ s.conv.text).head? ≠ some '%' ∧
    ∃ front back, s.modifiers ++ s.conv.text = front ++ [back] ∧ back ≠ '%' := by
  obtain ⟨hhead, front, back, htext, hback⟩ := s.conv.ends
  refine ⟨?_, s.modifiers ++ front, back, by rw [htext, List.append_assoc], hback⟩
  have hmodifiers := s.percent_notMem_modifiers
  cases hm : s.modifiers with
  | nil => exact hhead
  | cons c cs =>
      rw [hm] at hmodifiers
      rw [List.cons_append, List.head?_cons, ne_eq, Option.some_inj]
      exact fun h => hmodifiers (h ▸ List.mem_cons_self)

theorem PrintfConv.text_ne_nil (c : PrintfConv) : c.text ≠ [] := by
  cases c <;> simp [PrintfConv.text]

/-! ## Decimal numbers -/

/-- What `%d` writes for a number. -/
def decimal : Int → Str
  | .ofNat n => Nat.toDigits 10 n
  | .negSucc n => '-' :: Nat.toDigits 10 (n + 1)

theorem toDigits_inj {m n : Nat} (h : Nat.toDigits 10 m = Nat.toDigits 10 n) : m = n := by
  rw [← Nat.ofDigitChars_toDigits (b := 10) (n := m) (by decide) (by decide), h,
    Nat.ofDigitChars_toDigits (by decide) (by decide)]

/-- No digit is a sign. -/
theorem minus_notMem_toDigits (n : Nat) : '-' ∉ Nat.toDigits 10 n := fun h =>
  absurd (Nat.isDigit_of_mem_toDigits (by decide) (Nat.le_refl 10) h) (by decide)

theorem decimal_ofNat_ne_negSucc (m n : Nat) : decimal (.ofNat m) ≠ decimal (.negSucc n) := by
  intro h
  have htext : Nat.toDigits 10 m = '-' :: Nat.toDigits 10 (n + 1) := h
  exact minus_notMem_toDigits m (htext ▸ List.mem_cons_self)

/-- A number is read off its text. -/
theorem decimal_inj {v w : Int} : decimal v = decimal w ↔ v = w := by
  refine ⟨fun h => ?_, congrArg decimal⟩
  cases v with
  | ofNat m =>
      cases w with
      | ofNat n => exact congrArg Int.ofNat (toDigits_inj h)
      | negSucc n => exact absurd h (decimal_ofNat_ne_negSucc m n)
  | negSucc m =>
      cases w with
      | ofNat n => exact absurd h.symm (decimal_ofNat_ne_negSucc n m)
      | negSucc n =>
          have hdigits := toDigits_inj (List.cons.inj h).2
          rw [Nat.succ.inj hdigits]

/-- An `int` has at most ten digits and a sign. -/
theorem length_decimal_le {v : Int} (h : -2147483648 ≤ v ∧ v < 2147483648) :
    (decimal v).length ≤ 11 := by
  have hdigits (n : Nat) (hn : n ≤ 2147483648) : (Nat.toDigits 10 n).length ≤ 10 :=
    (Nat.length_toDigits_le_iff (by decide) (by decide)).mpr (by omega)
  cases v with
  | ofNat n =>
      rw [Int.ofNat_eq_natCast] at h
      exact Nat.le_succ_of_le (hdigits n (by omega))
  | negSucc n => exact Nat.succ_le_succ (hdigits (n + 1) (by omega))

end Cpp
