import AndroidAnalysis.Dobby.InstructionRelocation

/-!
# What a relocated instruction is

`reloItems` works on masks and shifts.  `relocatedInstr` says the same of the
instruction that a word stands for, and `reloItems_eq` connects the two for the
words that mean the same when they are moved, which are `Relocatable`:

* a literal load is that of a doubleword to a general register,
* a conditional branch has a condition that can be inverted, so it is neither
  `b.al` nor `b.nv`, and it is not one of the words around `b.cond` that the
  mask of `inst_is_b_cond` lets through,
* no branch goes to the instruction behind it.

The three inverted branches are read back as branches over three instructions.
-/

namespace Dobby

open Machine Machine.A64

/-! ## Inverted branches -/

/-- The offset over three instructions. -/
theorem wordOffset_three : wordOffset (3 : BitVec 19) = 12 := by decide

theorem invertedBCond_eq (inst : BitVec 32) :
    invertedBCond inst =
      replaceField (replaceField inst 0 (inst.extractLsb' 0 4 ^^^ 1)) 5 (3 : BitVec 19) := by
  have hcond : bits inst 0 3 ^^^ 1 = (inst.extractLsb' 0 4 ^^^ 1).setWidth 32 := by
    rw [bits_eq (k := 4) inst 0 (by decide), BitVec.setWidth_xor]
    rfl
  rw [invertedBCond]
  simp only [hcond]
  rw [setBits_eq (k := 4) _ 0 _ (by decide)]
  exact setBits_eq (k := 19) _ 5 3 (by decide)

theorem bit_xor_one (inst : BitVec 32) (st : Nat) :
    bit inst st ^^^ 1 = (inst.extractLsb' st 1 ^^^ 1).setWidth 32 := by
  have hbit : bit inst st = (inst.extractLsb' st 1).setWidth 32 := by
    have h := bits_eq (k := 1) inst st (by decide)
    rw [← h, bit, bits, Nat.add_sub_cancel, Nat.sub_self]
    rfl
  rw [hbit, BitVec.setWidth_xor]
  rfl

theorem invertedCompareB_eq (inst : BitVec 32) :
    invertedCompareB inst =
      replaceField (replaceField inst 24 (inst.extractLsb' 24 1 ^^^ 1)) 5 (3 : BitVec 19) := by
  rw [invertedCompareB]
  simp only [bit_xor_one]
  rw [setBit_eq]
  exact setBits_eq (k := 19) _ 5 3 (by decide)

theorem invertedTestB_eq (inst : BitVec 32) :
    invertedTestB inst =
      replaceField (replaceField inst 24 (inst.extractLsb' 24 1 ^^^ 1)) 5 (3 : BitVec 14) := by
  rw [invertedTestB]
  simp only [bit_xor_one]
  rw [setBit_eq]
  exact setBits_eq (k := 14) _ 5 3 (by decide)

theorem decode_invertedBCond {inst : BitVec 32} (h : inst &&& 0xff000010 = 0x54000000) :
    decode (invertedBCond inst) = .bCond (inst.extractLsb' 0 4 ^^^ 1) 12 := by
  have htop : invertedBCond inst &&& 0xff000010 = 0x54000000 := by
    rw [invertedBCond_eq, replaceField_and _ _ (by decide), replaceField_and _ _ (by decide), h]
  rw [decode, if_neg (and_ne_of_and_eq htop (by decide)),
    if_neg (and_ne_of_and_eq htop (by decide)), if_neg (and_ne_of_and_eq htop (by decide)),
    if_neg (and_ne_of_and_eq htop (by decide)), if_pos htop, invertedBCond_eq,
    extractLsb'_replaceField_same _ _ (by decide), wordOffset_three,
    extractLsb'_replaceField_of_disjoint _ _ (by decide) (by decide),
    extractLsb'_replaceField_same _ _ (by decide)]

section
variable {inst : BitVec 32}

/-- The fixed bits of a conditional branch. -/
theorem of_decode_eq_bCond {cond : BitVec 4} {off : BitVec 64} (h : decode inst = .bCond cond off) :
    inst &&& 0xff000010 = 0x54000000 ∧ inst.extractLsb' 0 4 = cond := by
  rw [decode] at h
  repeat' split at h
  all_goals cases h
  exact ⟨‹_›, rfl⟩

theorem of_decode_eq_cb {sf nz : Bool} {rt : BitVec 5} {off : BitVec 64}
    (h : decode inst = .cb sf nz rt off) : inst &&& 0x7e000000 = 0x34000000 ∧
      inst.getLsbD 31 = sf ∧ inst.getLsbD 24 = nz ∧ inst.extractLsb' 0 5 = rt := by
  rw [decode] at h
  repeat' split at h
  all_goals cases h
  exact ⟨‹_›, rfl, rfl, rfl⟩

theorem of_decode_eq_tb {b : BitVec 6} {nz : Bool} {rt : BitVec 5} {off : BitVec 64}
    (h : decode inst = .tb b nz rt off) : inst &&& 0x7e000000 = 0x36000000 ∧
      (inst.extractLsb' 31 1 ++ inst.extractLsb' 19 5 : BitVec 6) = b ∧
      inst.getLsbD 24 = nz ∧ inst.extractLsb' 0 5 = rt := by
  rw [decode] at h
  repeat' split at h
  all_goals cases h
  exact ⟨‹_›, rfl, rfl, rfl⟩

end

/-- The bit that tells `cbz` from `cbnz`, under an offset put in below it. -/
theorem getLsbD_flip (inst : BitVec 32) {k : Nat} (f : BitVec k) (hk : 5 + k ≤ 24) :
    (replaceField (replaceField inst 24 (inst.extractLsb' 24 1 ^^^ 1)) 5 f).getLsbD 24 =
      !inst.getLsbD 24 := by
  rw [getLsbD_replaceField _ _ (by decide), if_neg (by omega),
    getLsbD_replaceField _ _ (by decide), if_pos (by decide), BitVec.getLsbD_xor,
    BitVec.getLsbD_extractLsb']
  simp

theorem decode_invertedCompareB {inst : BitVec 32} (h : inst &&& 0x7e000000 = 0x34000000) :
    decode (invertedCompareB inst) =
      .cb (inst.getLsbD 31) (!inst.getLsbD 24) (inst.extractLsb' 0 5) 12 := by
  have htop : invertedCompareB inst &&& 0x7e000000 = 0x34000000 := by
    rw [invertedCompareB_eq, replaceField_and _ _ (by decide), replaceField_and _ _ (by decide), h]
  have hsf : (invertedCompareB inst).getLsbD 31 = inst.getLsbD 31 := by
    rw [invertedCompareB_eq, getLsbD_replaceField _ _ (by decide), if_neg (by decide),
      getLsbD_replaceField _ _ (by decide), if_neg (by decide)]
  rw [decode, if_neg (and_ne_of_and_eq htop (by decide)),
    if_neg (and_ne_of_and_eq htop (by decide)), if_neg (and_ne_of_and_eq htop (by decide)),
    if_neg (and_ne_of_and_eq htop (by decide)), if_neg (and_ne_of_and_eq htop (by decide)),
    if_pos htop, hsf, invertedCompareB_eq, getLsbD_flip _ _ (by decide),
    extractLsb'_replaceField_same _ _ (by decide), wordOffset_three,
    extractLsb'_replaceField_of_disjoint _ _ (by decide) (by decide),
    extractLsb'_replaceField_of_disjoint _ _ (by decide) (by decide)]

theorem decode_invertedTestB {inst : BitVec 32} (h : inst &&& 0x7e000000 = 0x36000000) :
    decode (invertedTestB inst) =
      .tb (inst.extractLsb' 31 1 ++ inst.extractLsb' 19 5 : BitVec 6) (!inst.getLsbD 24)
        (inst.extractLsb' 0 5) 12 := by
  have htop : invertedTestB inst &&& 0x7e000000 = 0x36000000 := by
    rw [invertedTestB_eq, replaceField_and _ _ (by decide), replaceField_and _ _ (by decide), h]
  have hoff : wordOffset (3 : BitVec 14) = 12 := by decide
  rw [decode, if_neg (and_ne_of_and_eq htop (by decide)),
    if_neg (and_ne_of_and_eq htop (by decide)), if_neg (and_ne_of_and_eq htop (by decide)),
    if_neg (and_ne_of_and_eq htop (by decide)), if_neg (and_ne_of_and_eq htop (by decide)),
    if_neg (and_ne_of_and_eq htop (by decide)), if_pos htop, invertedTestB_eq,
    getLsbD_flip _ _ (by decide), extractLsb'_replaceField_same _ _ (by decide), hoff]
  simp only [extractLsb'_replaceField_of_disjoint _ _
    (by decide : 31 + 1 ≤ 32) (by decide : 31 + 1 ≤ 5 ∨ 5 + 14 ≤ 31),
    extractLsb'_replaceField_of_disjoint _ _
    (by decide : 31 + 1 ≤ 32) (by decide : 31 + 1 ≤ 24 ∨ 24 + 1 ≤ 31),
    extractLsb'_replaceField_of_disjoint _ _
    (by decide : 19 + 5 ≤ 32) (by decide : 19 + 5 ≤ 5 ∨ 5 + 14 ≤ 19),
    extractLsb'_replaceField_of_disjoint _ _
    (by decide : 19 + 5 ≤ 32) (by decide : 19 + 5 ≤ 24 ∨ 24 + 1 ≤ 19),
    extractLsb'_replaceField_of_disjoint _ _
    (by decide : 0 + 5 ≤ 32) (by decide : 0 + 5 ≤ 5 ∨ 5 + 14 ≤ 0),
    extractLsb'_replaceField_of_disjoint _ _
    (by decide : 0 + 5 ≤ 32) (by decide : 0 + 5 ≤ 24 ∨ 24 + 1 ≤ 0)]

/-! ## Pages -/

/-- The page of an address, by division. -/
theorem toNat_page (x : BitVec 64) : (page x).toNat = x.toNat / 4096 * 4096 := by
  have hshift : page x = x >>> 12 <<< 12 := by
    apply BitVec.eq_of_getLsbD_eq
    intro i hi
    have hmask : (0xfff#64).getLsbD i = decide (i < 12) := by
      have h : (0xfff#64) = (BitVec.allOnes 12).setWidth 64 := by decide
      rw [h, BitVec.getLsbD_setWidth, BitVec.getLsbD_allOnes, decide_eq_true hi, Bool.true_and]
    rw [page, BitVec.getLsbD_and, BitVec.getLsbD_not, hmask, BitVec.getLsbD_shiftLeft,
      BitVec.getLsbD_ushiftRight, decide_eq_true hi]
    rcases Nat.lt_or_ge i 12 with h12 | h12
    · simp [h12]
    · simp [Nat.not_lt.mpr h12, Nat.add_sub_cancel' h12]
  have hlt := x.isLt
  rw [hshift, BitVec.toNat_shiftLeft, BitVec.toNat_ushiftRight, Nat.shiftRight_eq_div_pow,
    Nat.shiftLeft_eq]
  omega

/-- A page offset moves the page. -/
theorem truncPage_add (x y : BitVec 64) : truncPage (x + y <<< 12) = page x + y <<< 12 := by
  have hx := x.isLt
  have hy := y.isLt
  have hpage : truncPage (x + y <<< 12) = page (x + y <<< 12) := rfl
  apply BitVec.eq_of_toNat_eq
  rw [hpage, toNat_page, BitVec.toNat_add, BitVec.toNat_add, toNat_page, BitVec.toNat_shiftLeft,
    Nat.shiftLeft_eq]
  omega

/-! ## Relocated instructions -/

/-- What becomes of a word that stands for an instruction. -/
def relocatedInstr (cur : BitVec 64) (inst : BitVec 32) : Instr → List Item
  | .b off => farJumpItems (cur + off)
  | .bl off => [.literal (cur + off), .word (blrWord tmpReg0)]
  | .ldrLit _ rt off => movItems tmpReg0 (cur + off) ++ [.word (ldrWord rt tmpReg0 0)]
  | .adr rd off => movItems rd (cur + off)
  | .adrp rd off => movItems rd (page cur + off)
  | .bCond _ off => .word (invertedBCond inst) :: farJumpItems (cur + off)
  | .cb _ _ _ off => .word (invertedCompareB inst) :: farJumpItems (cur + off)
  | .tb _ _ _ off => .word (invertedTestB inst) :: farJumpItems (cur + off)
  | .blr _ | .plain _ | .vecLit _ _ _ => [.word inst]

/-- The words whose relocation means the same.  The relocator takes others too and moves
them wrong: a literal load of anything but a doubleword to a general register, `b.al`,
`b.nv` and what else the mask of `inst_is_b_cond` lets through, and a branch to the
instruction behind it. -/
def Relocatable (inst : BitVec 32) : Prop :=
  match decode inst with
  | .ldrLit opc _ _ => opc = 1
  | .vecLit _ _ _ => False
  | .bCond cond off => cond.extractLsb' 1 3 ≠ 7 ∧ off ≠ 4
  | .b off | .bl off | .cb _ _ _ off | .tb _ _ _ off => off ≠ 4
  | .blr _ | .plain _ => instIsBCond inst = false
  | .adr _ _ | .adrp _ _ => True

/-- The top bit tells `bl` from `b`. -/
theorem isBl_iff {inst : BitVec 32} (h : inst &&& 0x7c000000 = 0x14000000) :
    inst &&& 0xfc000000 = 0x94000000 ↔ inst.getLsbD 31 = true := by
  have hsplit : inst &&& 0xfc000000 = 0x14000000 ||| (inst &&& BitVec.twoPow 32 31) := by
    have hmask : (0xfc000000 : BitVec 32) = 0x7c000000 ||| BitVec.twoPow 32 31 := by decide
    rw [hmask, BitVec.and_or_distrib_left, h]
  rw [hsplit, BitVec.and_twoPow]
  cases inst.getLsbD 31 with
  | true => decide
  | false => decide

section
variable {inst : BitVec 32}

theorem instIsBBl_iff : instIsBBl inst = true ↔ inst &&& 0x7c000000 = 0x14000000 := beq_iff_eq

theorem instIsLdrLiteral_iff : instIsLdrLiteral inst = true ↔ inst &&& 0x3b000000 = 0x18000000 :=
  beq_iff_eq

theorem instIsCompareB_iff : instIsCompareB inst = true ↔ inst &&& 0x7e000000 = 0x34000000 :=
  beq_iff_eq

theorem instIsTestB_iff : instIsTestB inst = true ↔ inst &&& 0x7e000000 = 0x36000000 := beq_iff_eq

/-- The longer mask of the two that tell `adr` and `adrp` decides. -/
theorem and_pcRel {v : BitVec 32} (hv : v &&& 0x1f000000 = 0x10000000)
    (h : inst &&& 0x9f000000 = v) : inst &&& 0x1f000000 = 0x10000000 := by
  rw [← hv, ← h, BitVec.and_assoc]
  rfl

theorem instIsAdr_iff : instIsAdr inst = true ↔ inst &&& 0x9f000000 = 0x10000000 := by
  rw [instIsAdr, Bool.and_eq_true, beq_iff_eq, beq_iff_eq]
  exact and_iff_right_of_imp (and_pcRel (by decide))

theorem instIsAdrp_iff : instIsAdrp inst = true ↔ inst &&& 0x9f000000 = 0x90000000 := by
  rw [instIsAdrp, Bool.and_eq_true, beq_iff_eq, beq_iff_eq]
  exact and_iff_right_of_imp (and_pcRel (by decide))

/-- The shorter mask lets every `b.cond` through. -/
theorem instIsBCond_of_bCond (h : inst &&& 0xff000010 = 0x54000000) : instIsBCond inst = true := by
  have hmask : inst &&& 0xfe000000 = (inst &&& 0xff000010) &&& 0xfe000000 := by
    rw [BitVec.and_assoc]
    rfl
  rw [instIsBCond, hmask, h]
  rfl

theorem instIsBCond_of_and_eq {top c : BitVec 32} (h : inst &&& top = c)
    (hne : c &&& 0xfe000000 ≠ 0x54000000 &&& top) : instIsBCond inst = false :=
  beq_eq_false_iff_ne.mpr (and_ne_of_and_eq h hne)

end

/-- The relocator does to a word what becomes of its instruction. -/
theorem reloItems_eq (ndebug : Bool) (cur : BitVec 64) {inst : BitVec 32}
    (h : Relocatable inst) :
    reloItems ndebug cur inst = some (relocatedInstr cur inst (decode inst)) := by
  rw [Relocatable] at h
  simp only [reloItems, instIsBBl_iff, instIsLdrLiteral_iff, instIsAdr_iff, instIsAdrp_iff,
    instIsCompareB_iff, instIsTestB_iff, decodeImm26Offset_eq, decodeImm19Offset_eq,
    decodeImm14Offset_eq, decodeImmhiImmloOffset_eq, decodeImmhiImmloZero12Offset, decodeRt_eq,
    truncPage_add]
  rw [decode] at h ⊢
  by_cases hb : inst &&& 0x7c000000 = 0x14000000
  · simp only [if_pos hb, isBl_iff hb]
    split
    next => rfl
    next => rfl
  rw [if_neg hb] at h ⊢
  rw [if_neg hb]
  by_cases hlit : inst &&& 0x3b000000 = 0x18000000
  · rw [if_pos hlit] at h ⊢
    rw [if_pos hlit]
    cases hvec : inst.getLsbD 26 with
    | true =>
        rw [hvec, if_pos rfl] at h
        exact h.elim
    | false =>
        rw [hvec, if_neg Bool.false_ne_true] at h
        have hopc : bits inst 30 31 = 1 := by
          rw [bits_eq (k := 2) inst 30 (by decide), show inst.extractLsb' 30 2 = 1 from h]
          rfl
        rw [if_neg Bool.false_ne_true, if_neg (by rw [hopc]; decide), if_pos hopc]
        rfl
  rw [if_neg hlit] at h ⊢
  rw [if_neg hlit]
  by_cases hadr : inst &&& 0x9f000000 = 0x10000000
  · rw [if_pos hadr, if_pos hadr]
    rfl
  rw [if_neg hadr] at h ⊢
  rw [if_neg hadr]
  by_cases hadrp : inst &&& 0x9f000000 = 0x90000000
  · rw [if_pos hadrp, if_pos hadrp]
    rfl
  rw [if_neg hadrp] at h ⊢
  rw [if_neg hadrp]
  by_cases hcond : inst &&& 0xff000010 = 0x54000000
  · rw [if_pos (instIsBCond_of_bCond hcond), if_pos hcond]
    rfl
  rw [if_neg hcond] at h ⊢
  by_cases hcb : inst &&& 0x7e000000 = 0x34000000
  · have hnot := instIsBCond_of_and_eq hcb (by decide)
    rw [hnot, if_neg Bool.false_ne_true, if_pos hcb, if_pos hcb]
    rfl
  rw [if_neg hcb] at h ⊢
  by_cases htb : inst &&& 0x7e000000 = 0x36000000
  · have hnot := instIsBCond_of_and_eq htb (by decide)
    rw [hnot, if_neg Bool.false_ne_true, if_neg hcb, if_pos htb, if_pos htb]
    rfl
  rw [if_neg htb] at h ⊢
  have hnot : instIsBCond inst = false := by
    by_cases hblr : inst &&& 0xfffffc1f = 0xd63f0000
    · rwa [if_pos hblr] at h
    · rwa [if_neg hblr] at h
  rw [hnot, if_neg Bool.false_ne_true, if_neg hcb, if_neg htb]
  split
  next => rfl
  next => rfl

end Dobby
