import Mathlib.Tactic.Common

/-!
# Fields of a machine word

An encoder puts values of fixed width side by side into a word, and a patcher
replaces one of them.  `place` is a value at its position in a word, and
`replaceField` puts a value over what is there.

A decoder looks at a word in two ways: it compares the bits under a mask with a
fixed pattern, and it cuts a field out.  Each has two rules, one for the field
itself and one for everything else: `extractLsb'_place_same`,
`extractLsb'_place_of_disjoint`, `place_and`, and the same for `replaceField`.
The side conditions are about positions and masks alone, so a closed word's
side conditions are decided.
-/

namespace Machine

variable {w k : Nat}

/-! ## Placed values -/

/-- A value at bit `st` of a word. -/
def place (f : BitVec k) (st : Nat) : BitVec w := f.setWidth w <<< st

theorem getLsbD_place (f : BitVec k) (st i : Nat) :
    (place f st : BitVec w).getLsbD i =
      (decide (i < w) && (decide (st ≤ i) && f.getLsbD (i - st))) := by
  rw [place, BitVec.getLsbD_shiftLeft, BitVec.getLsbD_setWidth]
  rcases Nat.lt_or_ge i w with hi | hi
  · have hsub : i - st < w := by omega
    rcases Nat.lt_or_ge i st with hst | hst
    · simp [hst, Nat.not_le.mpr hst]
    · simp [hi, hst, hsub, Nat.not_lt.mpr hst]
  · simp [Nat.not_lt.mpr hi]

/-- A mask that leaves a field out leaves nothing of its value. -/
theorem place_and (f : BitVec k) {st : Nat} {mask : BitVec w}
    (h : mask.extractLsb' st k = 0#k) : place f st &&& mask = 0#w := by
  apply BitVec.eq_of_getLsbD_eq
  intro i hi
  rw [BitVec.getLsbD_and, getLsbD_place, BitVec.getLsbD_zero]
  rcases Nat.lt_or_ge i st with hst | hst
  · simp [Nat.not_le.mpr hst]
  rcases Nat.lt_or_ge (i - st) k with hk | hk
  · have hbit := congrArg (fun b => b.getLsbD (i - st)) h
    simp only [BitVec.getLsbD_extractLsb', hk, decide_true, Bool.true_and, BitVec.getLsbD_zero,
      Nat.add_sub_cancel' hst] at hbit
    rw [hbit, Bool.and_false]
  · rw [BitVec.getLsbD_of_ge f _ hk, Bool.and_false, Bool.and_false, Bool.false_and]

/-- The value of a field is read back. -/
theorem extractLsb'_place_same (f : BitVec k) {st : Nat} (h : st + k ≤ w) :
    (place f st : BitVec w).extractLsb' st k = f := by
  apply BitVec.eq_of_getLsbD_eq
  intro i hi
  have hw : st + i < w := by omega
  rw [BitVec.getLsbD_extractLsb', getLsbD_place, Nat.add_sub_cancel_left]
  simp [hi, hw]

/-- Nothing of a value is in another field. -/
theorem extractLsb'_place_of_disjoint (f : BitVec k) {st st' l : Nat}
    (h : st' + l ≤ st ∨ st + k ≤ st') : (place f st : BitVec w).extractLsb' st' l = 0#l := by
  apply BitVec.eq_of_getLsbD_eq
  intro i hi
  rw [BitVec.getLsbD_extractLsb', getLsbD_place, BitVec.getLsbD_zero]
  rcases h with h | h
  · have hlt : ¬ st ≤ st' + i := by omega
    simp [hlt]
  · rw [BitVec.getLsbD_of_ge f _ (by omega), Bool.and_false, Bool.and_false, Bool.and_false]

/-- A mask that leaves a field out does not see its value put beside others. -/
theorem or_place_and (v : BitVec w) (f : BitVec k) {st : Nat} {mask : BitVec w}
    (h : mask.extractLsb' st k = 0#k) : (v ||| place f st) &&& mask = v &&& mask := by
  rw [BitVec.and_or_distrib_right, place_and f h, BitVec.or_zero]

theorem extractLsb'_or_place_of_disjoint (v : BitVec w) (f : BitVec k) {st st' k' : Nat}
    (h : st' + k' ≤ st ∨ st + k ≤ st') :
    (v ||| place f st).extractLsb' st' k' = v.extractLsb' st' k' := by
  rw [BitVec.extractLsb'_or, extractLsb'_place_of_disjoint f h, BitVec.or_zero]

theorem extractLsb'_or_place_same {v : BitVec w} (f : BitVec k) {st : Nat} (h : st + k ≤ w)
    (hv : v.extractLsb' st k = 0#k) : (v ||| place f st).extractLsb' st k = f := by
  rw [BitVec.extractLsb'_or, extractLsb'_place_same f h, hv, BitVec.zero_or]

/-- A part of a clear field is clear. -/
theorem extractLsb'_eq_zero_of_le {v : BitVec w} {n st k : Nat} (h : v.extractLsb' 0 n = 0#n)
    (hle : st + k ≤ n) : v.extractLsb' st k = 0#k := by
  apply BitVec.eq_of_getLsbD_eq
  intro i hi
  have hbit := congrArg (fun b => b.getLsbD (st + i)) h
  simp only [BitVec.getLsbD_extractLsb', show st + i < n by omega, decide_true, Bool.true_and,
    BitVec.getLsbD_zero, Nat.zero_add] at hbit
  rw [BitVec.getLsbD_extractLsb', hbit, Bool.and_false, BitVec.getLsbD_zero]

/-- Two values side by side add up to their concatenation. -/
theorem setWidth_add_place {j : Nat} (f : BitVec k) (g : BitVec j) :
    (f.setWidth w + place g k : BitVec w) = (g ++ f : BitVec (j + k)).setWidth w := by
  have hdisj : (f.setWidth w &&& place g k : BitVec w) = 0#w := by
    rw [BitVec.and_comm]
    refine place_and g (BitVec.eq_of_getLsbD_eq fun i hi => ?_)
    rw [BitVec.getLsbD_extractLsb', BitVec.getLsbD_setWidth, BitVec.getLsbD_of_ge f _ (by omega),
      Bool.and_false, Bool.and_false, BitVec.getLsbD_zero]
  rw [BitVec.add_eq_or_of_and_eq_zero _ _ hdisj]
  apply BitVec.eq_of_getLsbD_eq
  intro i hi
  rw [BitVec.getLsbD_or, getLsbD_place, BitVec.getLsbD_setWidth, BitVec.getLsbD_setWidth,
    BitVec.getLsbD_append]
  rcases Nat.lt_or_ge i k with hk | hk
  · simp [hi, hk, Nat.not_le.mpr hk]
  · simp [hi, hk, Nat.not_lt.mpr hk]

/-- Fixed bits that rule out a pattern under another mask. -/
theorem and_ne_of_and_eq {v top c mask pat : BitVec w} (h : v &&& top = c)
    (hne : c &&& mask ≠ pat &&& top) : v &&& mask ≠ pat := by
  rintro rfl
  refine hne ?_
  rw [← h, BitVec.and_assoc, BitVec.and_assoc, BitVec.and_comm top]

/-! ## Replaced fields -/

/-- A word with the `k` bits from `st` on replaced. -/
def replaceField (v : BitVec w) (st : Nat) (f : BitVec k) : BitVec w :=
  ~~~(place (BitVec.allOnes k) st) &&& v ||| place f st

theorem getLsbD_replaceField (v : BitVec w) (f : BitVec k) {st i : Nat} (hi : i < w) :
    (replaceField v st f).getLsbD i =
      if st ≤ i ∧ i < st + k then f.getLsbD (i - st) else v.getLsbD i := by
  rw [replaceField, BitVec.getLsbD_or, BitVec.getLsbD_and, BitVec.getLsbD_not, getLsbD_place,
    getLsbD_place, BitVec.getLsbD_allOnes]
  rcases Nat.lt_or_ge i st with hst | hst
  · rw [if_neg (by omega)]
    simp [hi, Nat.not_le.mpr hst]
  rcases Nat.lt_or_ge i (st + k) with hk | hk
  · rw [if_pos ⟨hst, hk⟩]
    simp [hi, hst, show i - st < k by omega]
  · rw [if_neg (by omega), BitVec.getLsbD_of_ge f _ (by omega)]
    simp [hi, show ¬ i - st < k by omega]

/-- A mask that leaves a field out does not see it replaced. -/
theorem replaceField_and (v : BitVec w) (f : BitVec k) {st : Nat} {mask : BitVec w}
    (h : mask.extractLsb' st k = 0#k) : replaceField v st f &&& mask = v &&& mask := by
  apply BitVec.eq_of_getLsbD_eq
  intro i hi
  rw [BitVec.getLsbD_and, BitVec.getLsbD_and, getLsbD_replaceField v f hi]
  split
  next hin =>
    have hk : i - st < k := by omega
    have hbit := congrArg (fun b => b.getLsbD (i - st)) h
    simp only [BitVec.getLsbD_extractLsb', hk, decide_true, Bool.true_and, BitVec.getLsbD_zero,
      Nat.add_sub_cancel' hin.1] at hbit
    rw [hbit, Bool.and_false, Bool.and_false]
  next => rfl

theorem extractLsb'_replaceField_same (v : BitVec w) (f : BitVec k) {st : Nat} (h : st + k ≤ w) :
    (replaceField v st f).extractLsb' st k = f := by
  apply BitVec.eq_of_getLsbD_eq
  intro i hi
  have hin : st ≤ st + i ∧ st + i < st + k := by omega
  rw [BitVec.getLsbD_extractLsb', getLsbD_replaceField v f (by omega), if_pos hin,
    Nat.add_sub_cancel_left]
  simp [hi]

theorem extractLsb'_replaceField_of_disjoint (v : BitVec w) (f : BitVec k) {st st' k' : Nat}
    (hw : st' + k' ≤ w) (h : st' + k' ≤ st ∨ st + k ≤ st') :
    (replaceField v st f).extractLsb' st' k' = v.extractLsb' st' k' := by
  apply BitVec.eq_of_getLsbD_eq
  intro i hi
  rw [BitVec.getLsbD_extractLsb', BitVec.getLsbD_extractLsb',
    getLsbD_replaceField v f (by omega), if_neg (by omega)]

/-- Only the last value put into a field stays. -/
theorem replaceField_replaceField (v : BitVec w) (f g : BitVec k) (st : Nat) :
    replaceField (replaceField v st f) st g = replaceField v st g := by
  apply BitVec.eq_of_getLsbD_eq
  intro i hi
  rw [getLsbD_replaceField _ _ hi, getLsbD_replaceField _ _ hi, getLsbD_replaceField _ _ hi]
  split
  next => rfl
  next => rfl

/-! ## Signed fields -/

/-- The sign of a field of `k` bits copied above it, where the bits above are
clear. -/
theorem or_signMask_eq_signExtend {x : BitVec w} (hpos : 0 < k)
    (hhigh : ∀ j, k ≤ j → x.getLsbD j = false) :
    x ||| (if x.getLsbD (k - 1) then BitVec.allOnes w >>> k <<< k else 0#w) =
      (x.setWidth k).signExtend w := by
  apply BitVec.eq_of_getLsbD_eq
  intro i hi
  have hlast : k - 1 < k := by omega
  have hmsb : (x.setWidth k).msb = x.getLsbD (k - 1) := by
    rw [BitVec.msb_eq_getLsbD_last, BitVec.getLsbD_setWidth, decide_eq_true hlast, Bool.true_and]
  rw [BitVec.getLsbD_or, BitVec.getLsbD_signExtend, BitVec.getLsbD_setWidth, hmsb,
    decide_eq_true hi, Bool.true_and]
  rcases Nat.lt_or_ge i k with hik | hik
  · have hmask : (if x.getLsbD (k - 1) then BitVec.allOnes w >>> k <<< k else 0#w).getLsbD i =
        false := by
      split
      · simp [hik]
      · rw [BitVec.getLsbD_zero]
    rw [hmask, Bool.or_false, if_pos hik, decide_eq_true hik, Bool.true_and]
  · rw [hhigh i hik, Bool.false_or, if_neg (Nat.not_lt.mpr hik)]
    cases hs : x.getLsbD (k - 1) with
    | false => rw [if_neg Bool.false_ne_true, BitVec.getLsbD_zero]
    | true =>
        rw [if_pos rfl]
        simp [hi, Nat.not_lt.mpr hik, show k + (i - k) < w by omega]

end Machine
