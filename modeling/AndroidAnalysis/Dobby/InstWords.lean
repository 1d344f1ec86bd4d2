import AndroidAnalysis.Dobby.InstKit

/-!
# Instruction words of the assembler

The words that `Assembler` of `assembler-arm64.h` emits, put together from the
constants of `constants-arm64.h`.  Each is followed by what the processor reads
there.

`ldr` from a register takes the opcode of the doubleword load whatever its
first argument is, so the load of a word that a caller asks for by `W(rt)` is
the load of a doubleword.
-/

namespace Dobby

open Machine Machine.A64

/-- `TMP_REG_0`, which is `x17`. -/
def tmpReg0 : BitVec 5 := 17

/-! ## Words -/

section
variable (rd rt rn : BitVec 5)

/-- `ldr(Register, int64_t)` of a doubleword. -/
def ldrLiteralWord (imm : BitVec 64) : BitVec 32 :=
  0x58000000 ||| leftShift imm 26 5 ||| leftShift rt 5 0

/-- `ldr(const CPURegister &, const MemOperand &)` -/
def ldrWord (offset : BitVec 64) : BitVec 32 :=
  0x39000000 ||| 0xc0400000 ||| leftShift (offset.sshiftRight 3) 12 10 ||| leftShift rn 5 5 |||
    leftShift rt 5 0

/-- `br` -/
def brWord : BitVec 32 := 0xd61f0000 ||| leftShift rn 5 5

/-- `blr` -/
def blrWord : BitVec 32 := 0xd63f0000 ||| leftShift rn 5 5

/-- `adrp` -/
def adrpWord (imm : BitVec 64) : BitVec 32 :=
  let immlo := leftShift (bits (imm.sshiftRight 12) 0 1) 2 29
  let immhi := leftShift (bits (imm.sshiftRight 12) 2 20) 19 5
  0x90000000 ||| leftShift rd 5 0 ||| immlo ||| immhi

/-- `add` of an immediate to a doubleword. -/
def addWord (imm : BitVec 64) : BitVec 32 :=
  0x91000000 ||| leftShift rd 5 0 ||| leftShift rn 5 5 ||| leftShift imm 12 10

/-- `MoveWide` of a doubleword, with the shift divided by sixteen. -/
def moveWideWord (imm : BitVec 16) (shift : BitVec 2) (op : BitVec 32) : BitVec 32 :=
  0x12800000 ||| op ||| 0x80000000 ||| leftShift shift 2 21 ||| leftShift imm 16 5 |||
    leftShift rd 5 0

/-- `movz` -/
def movzWord (imm : BitVec 16) (shift : BitVec 2) : BitVec 32 :=
  moveWideWord rd imm shift 0x40000000

/-- `movk` -/
def movkWord (imm : BitVec 16) (shift : BitVec 2) : BitVec 32 :=
  moveWideWord rd imm shift 0x60000000

end

/-! ## What the processor reads -/

section
variable (rd rt rn : BitVec 5)

theorem leftShift_self {k : Nat} (f : BitVec k) (c : Nat) : leftShift f k c = place f c := by
  rw [leftShift_eq_place, BitVec.setWidth_eq]

/-- A word whose fixed bits are none of those that make an instruction read the
program counter. -/
theorem decode_eq_plain {w top c : BitVec 32} (h : w &&& top = c)
    (hb : c &&& 0x7c000000 ≠ 0x14000000 &&& top) (hlit : c &&& 0x3b000000 ≠ 0x18000000 &&& top)
    (hadr : c &&& 0x9f000000 ≠ 0x10000000 &&& top)
    (hadrp : c &&& 0x9f000000 ≠ 0x90000000 &&& top)
    (hcond : c &&& 0xff000010 ≠ 0x54000000 &&& top)
    (hcb : c &&& 0x7e000000 ≠ 0x34000000 &&& top) (htb : c &&& 0x7e000000 ≠ 0x36000000 &&& top)
    (hblr : c &&& 0xfffffc1f ≠ 0xd63f0000 &&& top) : decode w = .plain (decodePlain w) := by
  rw [decode, if_neg (and_ne_of_and_eq h hb), if_neg (and_ne_of_and_eq h hlit),
    if_neg (and_ne_of_and_eq h hadr), if_neg (and_ne_of_and_eq h hadrp),
    if_neg (and_ne_of_and_eq h hcond), if_neg (and_ne_of_and_eq h hcb),
    if_neg (and_ne_of_and_eq h htb), if_neg (and_ne_of_and_eq h hblr)]

theorem decode_brWord : decode (brWord rn) = .plain (.br rn) := by
  have hrn : (brWord rn).extractLsb' 5 5 = rn := by
    rw [brWord, leftShift_self, extractLsb'_or_place_same _ (by decide) (by decide)]
  have htop : brWord rn &&& 0xfffffc1f = 0xd61f0000 := by
    rw [brWord, leftShift_self, or_place_and _ _ (by decide)]
    decide
  rw [decode_eq_plain htop (by decide) (by decide) (by decide) (by decide) (by decide) (by decide)
    (by decide) (by decide), decodePlain, if_neg (and_ne_of_and_eq htop (by decide)),
    if_neg (and_ne_of_and_eq htop (by decide)), if_neg (and_ne_of_and_eq htop (by decide)),
    if_neg (and_ne_of_and_eq htop (by decide)), if_pos htop, hrn]

theorem decode_blrWord : decode (blrWord rn) = .blr rn := by
  have hrn : (blrWord rn).extractLsb' 5 5 = rn := by
    rw [blrWord, leftShift_self, extractLsb'_or_place_same _ (by decide) (by decide)]
  have htop : blrWord rn &&& 0xfffffc1f = 0xd63f0000 := by
    rw [blrWord, leftShift_self, or_place_and _ _ (by decide)]
    decide
  rw [decode, if_neg (and_ne_of_and_eq htop (by decide)),
    if_neg (and_ne_of_and_eq htop (by decide)), if_neg (and_ne_of_and_eq htop (by decide)),
    if_neg (and_ne_of_and_eq htop (by decide)), if_neg (and_ne_of_and_eq htop (by decide)),
    if_neg (and_ne_of_and_eq htop (by decide)), if_neg (and_ne_of_and_eq htop (by decide)),
    if_pos htop, hrn]

theorem decode_ldrWord_zero : decode (ldrWord rt rn 0) = .plain (.ldr rt rn 0) := by
  have hoff : leftShift ((0 : BitVec 64).sshiftRight 3) 12 10 = place (0 : BitVec 12) 10 := by
    decide
  have htop : ldrWord rt rn 0 &&& 0xffc00000 = 0xf9400000 := by
    rw [ldrWord, hoff, leftShift_self, leftShift_self, or_place_and _ _ (by decide),
      or_place_and _ _ (by decide)]
    decide
  have hrt : (ldrWord rt rn 0).extractLsb' 0 5 = rt := by
    rw [ldrWord, hoff, leftShift_self, leftShift_self, extractLsb'_or_place_same _ (by decide)]
    rw [extractLsb'_or_place_of_disjoint _ _ (by decide)]
    decide
  have hrn : (ldrWord rt rn 0).extractLsb' 5 5 = rn := by
    rw [ldrWord, hoff, leftShift_self, leftShift_self,
      extractLsb'_or_place_of_disjoint _ _ (by decide),
      extractLsb'_or_place_same _ (by decide) (by decide)]
  have himm : (ldrWord rt rn 0).extractLsb' 10 12 = 0 := by
    rw [ldrWord, hoff, leftShift_self, leftShift_self,
      extractLsb'_or_place_of_disjoint _ _ (by decide),
      extractLsb'_or_place_of_disjoint _ _ (by decide)]
    decide
  rw [decode_eq_plain htop (by decide) (by decide) (by decide) (by decide) (by decide) (by decide)
    (by decide) (by decide), decodePlain, if_neg (and_ne_of_and_eq htop (by decide)),
    if_neg (and_ne_of_and_eq htop (by decide)), if_neg (and_ne_of_and_eq htop (by decide)),
    if_pos htop, hrt, hrn, himm]

/-- The fields of a wide move are read back. -/
theorem moveWideWord_fields (imm : BitVec 16) (shift : BitVec 2) (op : BitVec 32)
    (hlow : (0x12800000 ||| op ||| 0x80000000 : BitVec 32).extractLsb' 0 23 = 0#23) :
    (moveWideWord rd imm shift op).extractLsb' 0 5 = rd ∧
    (moveWideWord rd imm shift op).extractLsb' 5 16 = imm ∧
    (moveWideWord rd imm shift op).extractLsb' 21 2 = shift ∧
    moveWideWord rd imm shift op &&& 0xff800000 =
      (0x12800000 ||| op ||| 0x80000000) &&& 0xff800000 := by
  have hrd := extractLsb'_eq_zero_of_le hlow (by decide : 0 + 5 ≤ 23)
  have himm := extractLsb'_eq_zero_of_le hlow (by decide : 5 + 16 ≤ 23)
  have hshift := extractLsb'_eq_zero_of_le hlow (by decide : 21 + 2 ≤ 23)
  rw [moveWideWord, leftShift_self, leftShift_self, leftShift_self]
  refine ⟨?_, ?_, ?_, ?_⟩
  · rw [extractLsb'_or_place_same _ (by decide)]
    rw [extractLsb'_or_place_of_disjoint _ _ (by decide),
      extractLsb'_or_place_of_disjoint _ _ (by decide), hrd]
  · rw [extractLsb'_or_place_of_disjoint _ _ (by decide), extractLsb'_or_place_same _ (by decide)]
    rw [extractLsb'_or_place_of_disjoint _ _ (by decide), himm]
  · rw [extractLsb'_or_place_of_disjoint _ _ (by decide),
      extractLsb'_or_place_of_disjoint _ _ (by decide),
      extractLsb'_or_place_same _ (by decide) hshift]
  · rw [or_place_and _ _ (by decide), or_place_and _ _ (by decide), or_place_and _ _ (by decide)]

theorem decode_movzWord (imm : BitVec 16) (shift : BitVec 2) :
    decode (movzWord rd imm shift) = .plain (.movz rd imm shift) := by
  obtain ⟨hrd, himm, hshift, htop⟩ :=
    moveWideWord_fields rd imm shift 0x40000000 (by decide)
  have htop : movzWord rd imm shift &&& 0xff800000 = 0xd2800000 := htop
  rw [decode_eq_plain htop (by decide) (by decide) (by decide) (by decide) (by decide) (by decide)
    (by decide) (by decide), decodePlain, if_pos htop, movzWord, hrd, himm, hshift]

theorem decode_movkWord (imm : BitVec 16) (shift : BitVec 2) :
    decode (movkWord rd imm shift) = .plain (.movk rd imm shift) := by
  obtain ⟨hrd, himm, hshift, htop⟩ :=
    moveWideWord_fields rd imm shift 0x60000000 (by decide)
  have htop : movkWord rd imm shift &&& 0xff800000 = 0xf2800000 := htop
  rw [decode_eq_plain htop (by decide) (by decide) (by decide) (by decide) (by decide) (by decide)
    (by decide) (by decide), decodePlain, if_neg (and_ne_of_and_eq htop (by decide)), if_pos htop,
    movkWord, hrd, himm, hshift]

theorem decode_addWord (imm : BitVec 64) :
    decode (addWord rd rn imm) = .plain (.add rd rn (imm.setWidth 12)) := by
  have hword : addWord rd rn imm =
      0x91000000 ||| place rd 0 ||| place rn 5 ||| place (imm.setWidth 12) 10 := by
    rw [addWord, leftShift_self, leftShift_self]
    rfl
  have htop : addWord rd rn imm &&& 0xffc00000 = 0x91000000 := by
    rw [hword, or_place_and _ _ (by decide), or_place_and _ _ (by decide),
      or_place_and _ _ (by decide)]
    decide
  have hrd : (addWord rd rn imm).extractLsb' 0 5 = rd := by
    rw [hword, extractLsb'_or_place_of_disjoint _ _ (by decide),
      extractLsb'_or_place_of_disjoint _ _ (by decide),
      extractLsb'_or_place_same _ (by decide) (by decide)]
  have hrn : (addWord rd rn imm).extractLsb' 5 5 = rn := by
    rw [hword, extractLsb'_or_place_of_disjoint _ _ (by decide),
      extractLsb'_or_place_same _ (by decide)]
    rw [extractLsb'_or_place_of_disjoint _ _ (by decide)]
    decide
  have himm : (addWord rd rn imm).extractLsb' 10 12 = imm.setWidth 12 := by
    rw [hword, extractLsb'_or_place_same _ (by decide)]
    rw [extractLsb'_or_place_of_disjoint _ _ (by decide),
      extractLsb'_or_place_of_disjoint _ _ (by decide)]
    decide
  rw [decode_eq_plain htop (by decide) (by decide) (by decide) (by decide) (by decide) (by decide)
    (by decide) (by decide), decodePlain, if_neg (and_ne_of_and_eq htop (by decide)),
    if_neg (and_ne_of_and_eq htop (by decide)), if_pos htop, hrd, hrn, himm]

/-- A field of a page offset, as the two parts of `adrp` take it. -/
theorem bits_sshiftRight (imm : BitVec 64) (st k : Nat) (hk : 0 < k) (hle : st + k ≤ 32) :
    (bits (imm.sshiftRight 12) st (st + k - 1)).setWidth k = imm.extractLsb' (12 + st) k := by
  have hfit : k ≤ 64 := by omega
  rw [bits_eq _ _ hk, BitVec.setWidth_setWidth_of_le _ hfit, BitVec.setWidth_eq]
  apply BitVec.eq_of_getLsbD_eq
  intro i hi
  rw [BitVec.getLsbD_extractLsb', BitVec.getLsbD_extractLsb', BitVec.getLsbD_sshiftRight,
    decide_eq_false (by omega : ¬ 64 ≤ st + i), if_pos (by omega), Nat.add_assoc]
  rfl

theorem decode_adrpWord (imm : BitVec 64) : decode (adrpWord rd imm) =
    .adrp rd ((imm.extractLsb' 12 21).signExtend 64 <<< 12) := by
  have hword : adrpWord rd imm = 0x90000000 ||| place rd 0 ||| place (imm.extractLsb' 12 2) 29 |||
      place (imm.extractLsb' 14 19) 5 := by
    rw [adrpWord, leftShift_self, ← bits_sshiftRight imm 0 2 (by decide) (by decide),
      ← bits_sshiftRight imm 2 19 (by decide) (by decide)]
    rfl
  have htop : adrpWord rd imm &&& 0x9f000000 = 0x90000000 := by
    rw [hword, or_place_and _ _ (by decide), or_place_and _ _ (by decide),
      or_place_and _ _ (by decide)]
    decide
  have hrd : (adrpWord rd imm).extractLsb' 0 5 = rd := by
    rw [hword, extractLsb'_or_place_of_disjoint _ _ (by decide),
      extractLsb'_or_place_of_disjoint _ _ (by decide),
      extractLsb'_or_place_same _ (by decide) (by decide)]
  have hlo : (adrpWord rd imm).extractLsb' 29 2 = imm.extractLsb' 12 2 := by
    rw [hword, extractLsb'_or_place_of_disjoint _ _ (by decide),
      extractLsb'_or_place_same _ (by decide)]
    rw [extractLsb'_or_place_of_disjoint _ _ (by decide)]
    decide
  have hhi : (adrpWord rd imm).extractLsb' 5 19 = imm.extractLsb' 14 19 := by
    rw [hword, extractLsb'_or_place_same _ (by decide)]
    rw [extractLsb'_or_place_of_disjoint _ _ (by decide),
      extractLsb'_or_place_of_disjoint _ _ (by decide)]
    decide
  have happ : (imm.extractLsb' 14 19 ++ imm.extractLsb' 12 2 : BitVec 21) =
      imm.extractLsb' 12 21 := BitVec.extractLsb'_append_extractLsb'_eq_extractLsb' rfl
  rw [decode, if_neg (and_ne_of_and_eq htop (by decide)),
    if_neg (and_ne_of_and_eq htop (by decide)), if_neg (and_ne_of_and_eq htop (by decide)),
    if_pos htop, adrOffset, hrd, hlo, hhi, happ]

end

end Dobby
