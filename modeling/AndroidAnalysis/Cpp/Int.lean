import Mathlib.Tactic.Common
import AndroidAnalysis.Cpp.String

/-!
# Machine integers

An `int` has 32 bits on both builds, and a `size_t` and a `long` have a word.
An `int` and a `long` are integers and a `size_t` is a natural number.  A
conversion takes the value modulo the size of its type, and arithmetic on an
`int` that leaves its range is undefined.
-/

namespace Cpp

/-- The builds: 32-bit ARM and arm64. -/
inductive Build
  | arm32
  | arm64
deriving DecidableEq

/-- The number of values of a `size_t`. -/
def Build.words : Build → Nat
  | .arm32 => 4294967296
  | .arm64 => 18446744073709551616

/-- The values of an `int`. -/
def IsInt (x : Int) : Prop := -2147483648 ≤ x ∧ x < 2147483648

instance (x : Int) : Decidable (IsInt x) := inferInstanceAs (Decidable (_ ∧ _))

/-- The values of a `long`. -/
def IsLong (b : Build) (x : Int) : Prop := -(b.words : Int) ≤ 2 * x ∧ 2 * x < (b.words : Int)

instance (b : Build) (x : Int) : Decidable (IsLong b x) := inferInstanceAs (Decidable (_ ∧ _))

/-- Conversion to `int`. -/
def asInt (x : Int) : Int :=
  if x % 4294967296 < 2147483648 then x % 4294967296 else x % 4294967296 - 4294967296

/-- Conversion to `size_t`. -/
def asSize (b : Build) (x : Int) : Nat := (x % (b.words : Int)).toNat

/-- A result of `int` arithmetic. -/
def intResult (x : Int) : Except Fault Int := if IsInt x then .ok x else .error .undefined

/-- A result of `long` arithmetic. -/
def longResult (b : Build) (x : Int) : Except Fault Int :=
  if IsLong b x then .ok x else .error .undefined

theorem isInt_asInt (x : Int) : IsInt (asInt x) := by
  rw [IsInt, asInt]
  split
  next h => omega
  next h => omega

/-- What lies between 0 and an `int`. -/
theorem IsInt.of_le {x y : Int} (h : IsInt y) (hx : 0 ≤ x) (hxy : x ≤ y) : IsInt x :=
  ⟨by omega, Int.lt_of_le_of_lt hxy h.2⟩

theorem IsInt.isLong {b : Build} {x : Int} (h : IsInt x) : IsLong b x := by
  rw [IsInt] at h
  rw [IsLong]
  cases b with
  | arm32 => simp only [Build.words]; omega
  | arm64 => simp only [Build.words]; omega

/-- A count that is no larger than a `long`. -/
theorem IsLong.of_le {b : Build} {n k : Nat} (h : IsLong b k) (hle : n ≤ k) : IsLong b n := by
  rw [IsLong] at h ⊢
  omega

/-- A value of its type is kept. -/
theorem asInt_of_isInt {x : Int} (h : IsInt x) : asInt x = x := by
  rw [IsInt] at h
  rw [asInt]
  split
  next => omega
  next => omega

/-- A count loses multiples of `2^32`. -/
theorem asInt_eq_sub {x : Int} (h : 0 ≤ x) : ∃ q : Nat, asInt x = x - 4294967296 * q := by
  refine ⟨((x - asInt x) / 4294967296).toNat, ?_⟩
  rw [asInt]
  split
  next => omega
  next => omega

/-- A place in a string shorter than `2^31`, or `npos`, is kept. -/
theorem asInt_toInt {o : Option Nat} {n : Nat} (h : ∀ k, o = some k → k < n)
    (hn : n < 2147483648) : asInt (toInt o) = toInt o ∧ -1 ≤ toInt o ∧ toInt o < n := by
  cases o with
  | none => exact ⟨rfl, Int.le_refl _, by rw [toInt_none]; omega⟩
  | some k =>
      have hk := h k rfl
      rw [toInt_some]
      exact ⟨asInt_of_isInt (by rw [IsInt]; omega), by omega, by omega⟩

theorem asInt_le (n : Nat) : asInt n ≤ n := by
  obtain ⟨q, hq⟩ := asInt_eq_sub (Int.natCast_nonneg n)
  omega

theorem asSize_of_lt {b : Build} {x : Int} (h : 0 ≤ x) (hlt : x < b.words) :
    (asSize b x : Int) = x := by
  rw [asSize, Int.emod_eq_of_lt h hlt, Int.toNat_of_nonneg h]

/-- An `int` that is not negative is kept as a `size_t`. -/
theorem asSize_of_isInt {b : Build} {x : Int} (h : 0 ≤ x) (hx : IsInt x) :
    (asSize b x : Int) = x := by
  refine asSize_of_lt h (Int.lt_of_lt_of_le hx.2 ?_)
  cases b with
  | arm32 => decide
  | arm64 => decide

/-- The same of a count. -/
theorem asSize_natCast {b : Build} {n : Nat} (h : IsInt n) : asSize b n = n :=
  Int.ofNat_inj.mp (asSize_of_isInt (Int.natCast_nonneg n) h)

/-- A negative `int` is a `size_t` behind all others. -/
theorem asSize_of_neg {b : Build} {x : Int} (h : x < 0) (hx : IsInt x) :
    (asSize b x : Int) = b.words + x := by
  rw [IsInt] at hx
  cases b with
  | arm32 => simp only [asSize, Build.words]; omega
  | arm64 => simp only [asSize, Build.words]; omega

/-- No other `int` is 0 as a `size_t`. -/
theorem asSize_eq_zero_iff {b : Build} {x : Int} (hx : IsInt x) : asSize b x = 0 ↔ x = 0 := by
  rw [IsInt] at hx
  cases b with
  | arm32 => simp only [asSize, Build.words]; omega
  | arm64 => simp only [asSize, Build.words]; omega

/-- Going through a `size_t` changes no `int`. -/
theorem asInt_asSize (b : Build) (x : Int) : asInt (asSize b x) = asInt x := by
  have h : ((asSize b x : Nat) : Int) % 4294967296 = x % 4294967296 := by
    cases b with
    | arm32 => simp only [asSize, Build.words]; omega
    | arm64 => simp only [asSize, Build.words]; omega
  rw [asInt, asInt, h]

/-- An `int` made of a size is no longer than the size, or longer than all `int`s. -/
theorem asSize_asInt_le {b : Build} {x left : Int} (hleft : IsInt left) :
    min left (asSize b (asInt x)) ≤ asSize b x := by
  rw [IsInt] at hleft
  cases b with
  | arm32 => simp only [asSize, asInt, Build.words]; split <;> omega
  | arm64 => simp only [asSize, asInt, Build.words]; split <;> omega

/-- A count goes through an `int` where it is one. -/
theorem asSize_asInt_eq_iff {b : Build} {n : Nat} (h : IsLong b n) :
    asSize b (asInt n) = n ↔ n < 2147483648 := by
  rw [IsLong] at h
  cases b with
  | arm32 => simp only [asSize, asInt, Build.words] at h ⊢; split <;> omega
  | arm64 => simp only [asSize, asInt, Build.words] at h ⊢; split <;> omega

theorem intResult_eq_ok {x y : Int} : intResult x = .ok y ↔ IsInt x ∧ y = x := by
  rw [intResult]
  split
  next h => rw [Except.ok.injEq, eq_comm, and_iff_right h]
  next h => exact iff_of_false nofun fun hx => h hx.1

theorem intResult_of_isInt {x : Int} (h : IsInt x) : intResult x = .ok x := if_pos h

theorem intResult_of_not_isInt {x : Int} (h : ¬ IsInt x) : intResult x = .error .undefined :=
  if_neg h

/-- A step forward, and then what takes `n` more, take what both of them take: what the
step leaves the range by is not brought back. -/
theorem intResult_bind_add {α : Type} {x : Int} (hx : 0 ≤ x) {m : Nat} (n : Nat)
    {f g : Int → Except Fault α}
    (h : IsInt (x + m) → f (x + m) = intResult (x + m + n) >>= g) :
    intResult (x + m) >>= f = intResult (x + (n + m : Nat)) >>= g := by
  by_cases hstep : IsInt (x + m)
  · rw [intResult_of_isInt hstep, ok_bind, h hstep, Nat.add_comm, Int.natCast_add, Int.add_assoc]
  · have hsum : ¬ IsInt (x + (n + m : Nat)) := by
      rw [IsInt] at hstep ⊢
      omega
    rw [intResult_of_not_isInt hstep, intResult_of_not_isInt hsum]
    rfl

end Cpp
