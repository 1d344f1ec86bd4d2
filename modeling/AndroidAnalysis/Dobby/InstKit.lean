import AndroidAnalysis.Machine.A64Agree

/-!
# Decoding and encoding of A64 offsets

The macros `bits` and `set_bits` of `utility_macro.h`, and the functions of
`inst_decode_encode_kit.h` that read the offset of an instruction or put one
into it.  A field that is not sign extended by the processor is a plain value,
and `SignExtend` copies the sign by hand.

`decodeImmOffset_eq` and `decodeImmhiImmloOffset_eq` say that the offsets are
those the processor adds to the program counter.  `encodeImm19Offset_eq` says
which field the patcher of a literal load writes.
-/

namespace Dobby

open Machine Machine.A64

/-! ## Macros -/

section
variable {w : Nat}

/-- `submask` -/
def submask (x : Nat) : BitVec w := (1#w <<< (x + 1)) - 1#w

/-- `bits` -/
def bits (obj : BitVec w) (st fn : Nat) : BitVec w := (obj >>> st) &&& submask (fn - st)

/-- `bit` -/
def bit (obj : BitVec w) (st : Nat) : BitVec w := (obj >>> st) &&& 1#w

/-- `set_bit` -/
def setBit (obj : BitVec w) (st : Nat) (b : BitVec w) : BitVec w :=
  (~~~(1#w <<< st) &&& obj) ||| (b <<< st)

/-- `set_bits` -/
def setBits (obj : BitVec w) (st fn : Nat) (v : BitVec w) : BitVec w :=
  (~~~(submask (fn - st) <<< st) &&& obj) ||| (v <<< st)

/-- `LeftShift`, into an instruction word. -/
def leftShift (a : BitVec w) (b c : Nat) : BitVec 32 := ((a.setWidth b).setWidth 32) <<< c

end

/-- `ALIGN_FLOOR` -/
def alignFloor (address range : BitVec 64) : BitVec 64 := address &&& ~~~(range - 1)

theorem leftShift_eq_place {w : Nat} (a : BitVec w) (b c : Nat) :
    leftShift a b c = place (a.setWidth b) c := rfl

theorem submask_eq {w k : Nat} (hk : 0 < k) :
    (submask (k - 1) : BitVec w) = (BitVec.allOnes k).setWidth w := by
  have hsucc : k - 1 + 1 = k := Nat.sub_add_cancel hk
  rw [submask, hsucc]
  rcases Nat.lt_or_ge k w with hkw | hkw
  · have hlt : 2 ^ k < 2 ^ w := Nat.pow_lt_pow_right (by decide) hkw
    have hone : 1 < 2 ^ w := Nat.one_lt_two_pow (Nat.ne_zero_of_lt hkw)
    have hpos := Nat.two_pow_pos k
    have hsum : 2 ^ w - 1 + 2 ^ k = 2 ^ w + (2 ^ k - 1) := by omega
    apply BitVec.eq_of_toNat_eq
    rw [BitVec.toNat_sub, BitVec.toNat_shiftLeft, BitVec.toNat_ofNat, Nat.mod_eq_of_lt hone,
      Nat.shiftLeft_eq, Nat.one_mul, Nat.mod_eq_of_lt hlt, hsum, Nat.add_mod_left,
      BitVec.toNat_setWidth, BitVec.toNat_allOnes]
  · have hzero : (1#w <<< k) = 0#w := BitVec.shiftLeft_eq_zero hkw
    apply BitVec.eq_of_getLsbD_eq
    intro i hi
    rw [hzero, BitVec.zero_sub, BitVec.neg_one_eq_allOnes, BitVec.getLsbD_allOnes,
      BitVec.getLsbD_setWidth, BitVec.getLsbD_allOnes, decide_eq_true hi,
      decide_eq_true (Nat.lt_of_lt_of_le hi hkw)]
    rfl

/-- `bits` cuts a field out. -/
theorem bits_eq {w k : Nat} (obj : BitVec w) (st : Nat) (hk : 0 < k) :
    bits obj st (st + k - 1) = (obj.extractLsb' st k).setWidth w := by
  have hsub : st + k - 1 - st = k - 1 := by omega
  rw [bits, hsub, submask_eq hk]
  apply BitVec.eq_of_getLsbD_eq
  intro i hi
  rw [BitVec.getLsbD_and, BitVec.getLsbD_ushiftRight, BitVec.getLsbD_setWidth,
    BitVec.getLsbD_setWidth, BitVec.getLsbD_extractLsb', BitVec.getLsbD_allOnes,
    decide_eq_true hi, Bool.true_and, Bool.true_and, Bool.and_comm]

/-- `set_bits` replaces a field. -/
theorem setBits_eq {w k : Nat} (obj : BitVec w) (st : Nat) (v : BitVec k) (hk : 0 < k) :
    setBits obj st (st + k - 1) (v.setWidth w) = replaceField obj st v := by
  have hsub : st + k - 1 - st = k - 1 := by omega
  rw [setBits, hsub, submask_eq hk]
  rfl

/-- `set_bit` replaces a field of one bit. -/
theorem setBit_eq {w : Nat} (obj : BitVec w) (st : Nat) (b : BitVec 1) :
    setBit obj st (b.setWidth w) = replaceField obj st b := by
  have hone : (1#w) = (BitVec.allOnes 1).setWidth w := by
    apply BitVec.eq_of_toNat_eq
    rw [BitVec.toNat_setWidth, BitVec.toNat_allOnes, BitVec.toNat_ofNat]
  rw [setBit, hone]
  rfl

/-! ## Offsets of an instruction -/

/-- `SignExtend(x, M, 64)` -/
def signExtend (x : BitVec 64) (M : Nat) : BitVec 64 :=
  let signBit := bit x (M - 1)
  let signMask := 0 - signBit
  x ||| ((signMask >>> M) <<< M)

/-- The body of `decode_imm14_offset` and its siblings: a field of `k` bits at
bit `st`. -/
def decodeImmOffset (st k : Nat) (instr : BitVec 32) : BitVec 64 :=
  let imm : BitVec 64 := (bits instr st (st + k - 1)).setWidth 64
  let offset := imm <<< 2
  signExtend offset (k + 2)

/-- `decode_imm14_offset` -/
def decodeImm14Offset : BitVec 32 → BitVec 64 := decodeImmOffset 5 14

/-- `decode_imm19_offset` -/
def decodeImm19Offset : BitVec 32 → BitVec 64 := decodeImmOffset 5 19

/-- `decode_imm26_offset` -/
def decodeImm26Offset : BitVec 32 → BitVec 64 := decodeImmOffset 0 26

/-- `decode_immhi_immlo_offset`, with the bit fields of `instr_decode`. -/
def decodeImmhiImmloOffset (instr : BitVec 32) : BitVec 64 :=
  let immhi : BitVec 32 := (instr.extractLsb' 5 19).setWidth 32
  let immlo : BitVec 32 := (instr.extractLsb' 29 2).setWidth 32
  let imm := immlo + (immhi <<< 2)
  signExtend (imm.setWidth 64) (19 + 2)

/-- `decode_immhi_immlo_zero12_offset` -/
def decodeImmhiImmloZero12Offset (instr : BitVec 32) : BitVec 64 :=
  decodeImmhiImmloOffset instr <<< 12

/-- `encode_imm19_offset` -/
def encodeImm19Offset (instr : BitVec 32) (offset : BitVec 64) : BitVec 32 :=
  let imm19 := bits (offset.sshiftRight 2) 0 18
  setBits instr 5 23 (imm19.setWidth 32)

/-- `decode_rt` and `decode_rd` -/
def decodeRt (instr : BitVec 32) : BitVec 5 := (bits instr 0 4).setWidth 5

theorem signExtend_eq {x : BitVec 64} {k : Nat} (hpos : 0 < k)
    (hhigh : ∀ j, k ≤ j → x.getLsbD j = false) :
    signExtend x k = (x.setWidth k).signExtend 64 := by
  rw [← or_signMask_eq_signExtend hpos hhigh, signExtend]
  have hbit : bit x (k - 1) = if x.getLsbD (k - 1) then 1#64 else 0#64 := by
    apply BitVec.eq_of_getLsbD_eq
    intro i hi
    rw [bit, BitVec.getLsbD_and, BitVec.getLsbD_ushiftRight, BitVec.getLsbD_one]
    rcases Nat.eq_zero_or_pos i with rfl | hi0
    · cases x.getLsbD (k - 1) with
      | true => rfl
      | false => rfl
    · have hne : ¬ i = 0 := by omega
      split
      next => simp [hne]
      next => simp [hne]
  rw [hbit]
  split
  next => rfl
  next => simp

/-- The offset of a branch is the one the processor adds. -/
theorem decodeImmOffset_eq (instr : BitVec 32) {st k : Nat} (hpos : 0 < k) (hk : k ≤ 30) :
    decodeImmOffset st k instr = wordOffset (instr.extractLsb' st k) := by
  rw [decodeImmOffset, bits_eq _ _ hpos, signExtend_eq (Nat.succ_pos _), wordOffset]
  · congr 1
    apply BitVec.eq_of_getLsbD_eq
    intro i hi
    rw [BitVec.getLsbD_setWidth, BitVec.getLsbD_shiftLeft, BitVec.getLsbD_setWidth,
      BitVec.getLsbD_setWidth, BitVec.getLsbD_append, BitVec.getLsbD_zero]
    rcases Nat.lt_or_ge i 2 with h2 | h2
    · simp [h2]
    · have h64 : i < 64 := by omega
      have hsub : i - 2 < 32 := by omega
      simp [hi, Nat.not_lt.mpr h2, h64, hsub, show i - 2 < 64 by omega]
  · intro j hj
    rw [BitVec.getLsbD_shiftLeft, BitVec.getLsbD_setWidth, BitVec.getLsbD_setWidth,
      BitVec.getLsbD_extractLsb', decide_eq_false (by omega : ¬ j - 2 < k), Bool.false_and,
      Bool.and_false, Bool.and_false, Bool.and_false]

theorem decodeImm14Offset_eq (instr : BitVec 32) :
    decodeImm14Offset instr = wordOffset (instr.extractLsb' 5 14) :=
  decodeImmOffset_eq instr (by decide) (by decide)

theorem decodeImm19Offset_eq (instr : BitVec 32) :
    decodeImm19Offset instr = wordOffset (instr.extractLsb' 5 19) :=
  decodeImmOffset_eq instr (by decide) (by decide)

theorem decodeImm26Offset_eq (instr : BitVec 32) :
    decodeImm26Offset instr = wordOffset (instr.extractLsb' 0 26) :=
  decodeImmOffset_eq instr (by decide) (by decide)

theorem decodeImmhiImmloOffset_eq (instr : BitVec 32) :
    decodeImmhiImmloOffset instr = adrOffset instr := by
  have hsum := setWidth_add_place (w := 32) (instr.extractLsb' 29 2) (instr.extractLsb' 5 19)
  rw [place] at hsum
  rw [decodeImmhiImmloOffset, hsum, signExtend_eq (by decide), adrOffset]
  · congr 1
    apply BitVec.eq_of_getLsbD_eq
    intro i hi
    rw [BitVec.getLsbD_setWidth, BitVec.getLsbD_setWidth, BitVec.getLsbD_setWidth,
      decide_eq_true hi, decide_eq_true (by omega : i < 64), decide_eq_true (by omega : i < 32)]
    rfl
  · intro j hj
    rw [BitVec.getLsbD_setWidth, BitVec.getLsbD_setWidth, BitVec.getLsbD_of_ge _ j hj,
      Bool.and_false, Bool.and_false]

theorem decodeRt_eq (instr : BitVec 32) : decodeRt instr = instr.extractLsb' 0 5 := by
  rw [decodeRt, bits_eq (k := 5) instr 0 (by decide), BitVec.setWidth_setWidth_of_le _ (by decide),
    BitVec.setWidth_eq]

/-- The patcher of a literal load writes the offset in words. -/
theorem encodeImm19Offset_eq (instr : BitVec 32) (offset : BitVec 64) :
    encodeImm19Offset instr offset = replaceField instr 5 (offset.extractLsb' 2 19) := by
  have hfield : (offset.sshiftRight 2).extractLsb' 0 19 = offset.extractLsb' 2 19 := by
    apply BitVec.eq_of_getLsbD_eq
    intro i hi
    rw [BitVec.getLsbD_extractLsb', BitVec.getLsbD_extractLsb', BitVec.getLsbD_sshiftRight]
    simp [hi, show i + 2 < 64 by omega, show ¬ 64 ≤ i by omega, Nat.add_comm 2 i]
  rw [encodeImm19Offset, bits_eq (k := 19) _ 0 (by decide), hfield,
    BitVec.setWidth_setWidth_of_le _ (by decide)]
  exact setBits_eq (k := 19) instr 5 (offset.extractLsb' 2 19) (by decide)

end Dobby
