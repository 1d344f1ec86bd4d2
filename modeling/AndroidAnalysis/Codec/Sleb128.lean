import Mathlib.Algebra.GroupWithZero.Nat
import Mathlib.Algebra.Group.Int.Defs
import Mathlib.Tactic.Common

/-!
# Signed LEB128 numbers

An integer as bytes that hold seven bits each, lowest first.  The top bit of a byte
says that another one follows, and the seven bits of the last byte carry the sign.

`value` is the integer of the number that the bytes start with.  A number has many
encodings, of which `encode` is the shortest one.  `Terminated` are the bytes of one
number and of nothing behind it.

A decoder collects the digits in a machine word.  `or_digit` is its step, which puts
a digit above the bits that are there, and `or_sign` its last one.  Both are
additions.
-/

namespace Sleb128

/-- The seven bits of a byte that belong to the number. -/
def digit (b : BitVec 8) : BitVec 7 := b.setWidth 7

/-- The integer of the number the bytes start with. -/
def value : List (BitVec 8) → Int
  | [] => 0
  | b :: bs => if b.msb then (digit b).toNat + 128 * value bs else (digit b).toInt

theorem value_more {b : BitVec 8} (h : b.msb = true) (bs : List (BitVec 8)) :
    value (b :: bs) = (digit b).toNat + 128 * value bs := by
  rw [value, if_pos h]

theorem value_last {b : BitVec 8} (h : b.msb = false) (bs : List (BitVec 8)) :
    value (b :: bs) = (digit b).toInt := by
  rw [value, h, if_neg Bool.false_ne_true]

/-- The bytes of one number: all but the last are followed by another. -/
def Terminated : List (BitVec 8) → Prop
  | [] => False
  | [b] => b.msb = false
  | b :: bs => b.msb = true ∧ Terminated bs

/-- A byte of a number, with or without one behind it. -/
def byte (more : Bool) (d : BitVec 7) : BitVec 8 := .cons more d

theorem digit_byte (more : Bool) (d : BitVec 7) : digit (byte more d) = d :=
  BitVec.setWidth_cons

theorem msb_byte (more : Bool) (d : BitVec 7) : (byte more d).msb = more := BitVec.msb_cons ..

/-- The shortest encoding. -/
def encode (v : Int) : List (BitVec 8) :=
  if -64 ≤ v ∧ v < 64 then [byte false (BitVec.ofInt 7 v)]
  else byte true (BitVec.ofInt 7 v) :: encode (v / 128)
termination_by v.natAbs
decreasing_by omega

theorem terminated_encode (v : Int) : Terminated (encode v) := by
  induction v using encode.induct with
  | case1 v hsmall =>
      rw [encode, if_pos hsmall]
      exact msb_byte _ _
  | case2 v hlarge ih =>
      rw [encode, if_neg hlarge]
      cases hrest : encode (v / 128) with
      | nil => rw [hrest] at ih; exact ih.elim
      | cons b bs => exact ⟨msb_byte _ _, hrest ▸ ih⟩

/-- An encoded integer is read back. -/
theorem value_encode (v : Int) : value (encode v) = v := by
  induction v using encode.induct with
  | case1 v hsmall =>
      have hself : v.bmod (2 ^ 7) = v := Int.bmod_eq_of_le (by omega) (by omega)
      rw [encode, if_pos hsmall, value_last (msb_byte ..), digit_byte, BitVec.toInt_ofInt, hself]
  | case2 v hlarge ih =>
      have hdigit : ((BitVec.ofInt 7 v).toNat : Int) = v % 128 := by
        rw [BitVec.toNat_ofInt]
        omega
      rw [encode, if_neg hlarge, value_more (msb_byte ..), digit_byte, ih, hdigit]
      exact Int.emod_add_mul_ediv v 128

/-- An integer of `7 * n + 7` bits takes at most `n + 1` bytes. -/
theorem length_encode_le {n : Nat} {v : Int} (hlo : -(64 * 128 ^ n) ≤ v)
    (hhi : v < 64 * 128 ^ n) : (encode v).length ≤ n + 1 := by
  induction n generalizing v with
  | zero =>
      rw [encode, if_pos (by omega)]
      exact Nat.le_refl _
  | succ n ih =>
      rw [encode]
      split
      next => exact Nat.le_add_left _ _
      next =>
        rw [Int.pow_succ] at hlo hhi
        exact Nat.succ_le_succ (ih (by omega) (by omega))

/-! ## Collecting a number in a machine word -/

section
variable {w : Nat}
/-- Bits put above the ones that are there are added. -/
theorem or_shiftLeft_eq_add {x : BitVec w} {s : Nat} (h : x.toNat < 2 ^ s) (y : BitVec w) :
    x ||| y <<< s = x + y <<< s := by
  have hand : x &&& y <<< s = 0#w := by
    apply BitVec.eq_of_getLsbD_eq
    intro i hi
    rw [BitVec.getLsbD_and, BitVec.getLsbD_shiftLeft, BitVec.getLsbD_zero]
    rcases Nat.lt_or_ge i s with his | his
    · simp [his]
    · have hbit : x.getLsbD i = false :=
        Nat.testBit_lt_two_pow (Nat.lt_of_lt_of_le h (Nat.pow_le_pow_right (by decide) his))
      rw [hbit, Bool.false_and]
  exact (BitVec.add_eq_or_of_and_eq_zero _ _ hand).symm

/-- A digit is put above the ones that were read. -/
theorem or_digit {x : BitVec w} {s : Nat} (h : x.toNat < 2 ^ s) (b : BitVec 8) :
    x ||| ((b &&& 127).setWidth w <<< s) =
      BitVec.ofInt w (x.toNat + 2 ^ s * (digit b).toNat) := by
  have hdigit : (b &&& 127).toNat = (digit b).toNat := by
    revert b; decide
  have hcast : (x.toNat + 2 ^ s * (digit b).toNat : Int) =
      ((x.toNat + 2 ^ s * (digit b).toNat : Nat) : Int) := by push_cast; rfl
  rw [or_shiftLeft_eq_add h, hcast, BitVec.ofInt_natCast]
  apply BitVec.eq_of_toNat_eq
  rw [BitVec.toNat_add, BitVec.toNat_shiftLeft, BitVec.toNat_setWidth, hdigit, BitVec.toNat_ofNat,
    Nat.shiftLeft_eq, Nat.mod_mul_mod, Nat.add_mod_mod, Nat.mul_comm]

/-- The sign is put above the last digit. -/
theorem or_sign {x : BitVec w} {s : Nat} (h : x.toNat < 2 ^ s) :
    x ||| -(1#w <<< s) = BitVec.ofInt w (x.toNat - 2 ^ s) := by
  have hneg : -(1#w <<< s) = (-1#w) <<< s := by
    rw [← BitVec.shiftLeft_neg]
  have hpow : BitVec.ofInt w (2 ^ s : Int) = 1#w <<< s := by
    have hcast : (2 ^ s : Int) = ((2 ^ s : Nat) : Int) := by push_cast; rfl
    rw [hcast, BitVec.ofInt_natCast]
    apply BitVec.eq_of_toNat_eq
    rw [BitVec.toNat_shiftLeft, BitVec.toNat_ofNat, BitVec.toNat_ofNat, Nat.shiftLeft_eq,
      Nat.mod_mul_mod, Nat.one_mul]
  rw [hneg, or_shiftLeft_eq_add h, ← hneg, Int.sub_eq_add_neg, BitVec.ofInt_add,
    BitVec.ofInt_neg, hpow, BitVec.ofInt_natCast, BitVec.ofNat_toNat, BitVec.setWidth_eq]

/-- What is a multiple of the size of the word is not in it. -/
theorem ofInt_add_mul (v : Int) (k : Int) {n : Nat} (h : w ≤ n) :
    BitVec.ofInt w (v + 2 ^ n * k) = BitVec.ofInt w v := by
  obtain ⟨j, rfl⟩ := Nat.exists_eq_add_of_le h
  apply BitVec.eq_of_toNat_eq
  have hcast : ((2 ^ w : Nat) : Int) = 2 ^ w := by push_cast; rfl
  rw [BitVec.toNat_ofInt, BitVec.toNat_ofInt, hcast, Int.pow_add, Int.mul_assoc,
    Int.add_mul_emod_self_left]

end

/-- The bit that says that another byte follows. -/
theorem and_128_ne_zero (b : BitVec 8) : b &&& 128 ≠ 0 ↔ b.msb = true := by
  revert b; decide

/-- The bit of the sign. -/
theorem toInt_digit (b : BitVec 8) :
    (digit b).toInt =
      if b &&& 64 ≠ 0 then ((digit b).toNat : Int) - 2 ^ 7 else ((digit b).toNat : Int) := by
  revert b; decide

end Sleb128
