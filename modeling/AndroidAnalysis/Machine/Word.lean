import Mathlib.Tactic.Common

/-!
# Machine words

The arithmetic of words that listings of both instruction sets rest on: the
flags of a comparison with zero, and the parity that a signed remainder shows.
-/

namespace Machine

/-- After a comparison with zero, "less than" is the sign. -/
theorem sub_zero_msb_bne_overflow {w : Nat} (a : BitVec w) :
    ((a - 0#w).msb != BitVec.ssubOverflow a 0#w) = a.msb := by
  have hlo := BitVec.le_toInt a
  have hhi := BitVec.toInt_lt (x := a)
  have hv : BitVec.ssubOverflow a 0#w = false := by
    simp only [BitVec.ssubOverflow, BitVec.toInt_zero, Int.sub_zero, Bool.or_eq_false_iff,
      decide_eq_false_iff_not]
    omega
  rw [hv, BitVec.sub_zero, Bool.bne_false]

/-- A signed remainder by two is zero for an even word, of either sign. -/
theorem srem_two_eq_zero (a : BitVec 32) : a.srem 2 = 0 ↔ a.toNat % 2 = 0 := by
  have hdvd : a.srem 2 = 0 ↔ (2 : Int) ∣ a.toInt := by
    rw [← BitVec.toInt_inj, BitVec.toInt_srem]
    exact (Int.dvd_iff_tmod_eq_zero ..).symm
  rw [hdvd, BitVec.toInt_eq_toNat_cond]
  split <;> omega

end Machine
