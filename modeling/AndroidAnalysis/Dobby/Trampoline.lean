import AndroidAnalysis.Dobby.RelocationRun

/-!
# Trampolines

`GenerateNormalTrampolineBuffer` of `trampoline_arm64.cc` makes the code that
replaces the first instructions of a hooked function.  Where the target is near
it is `adrp`, `add`, `br`, and otherwise a literal load, `br`, and the literal.

The test for "near" is about the distance of the addresses, and `adrp` reaches
pages.  A target less than four gigabytes ahead can lie on the one page that is
just out of reach, and the field of `adrp` then wraps around.
`trampoline_reaches_iff` says that this is the only case in which the trampoline
does not get to its target.
-/

namespace Dobby

open Machine Machine.A64
open Machine.Arm64 (Reg xField spField)

variable {E : Type}

/-- `GenerateNormalTrampolineBuffer` -/
def generateNormalTrampolineBuffer (src dst : BitVec 64) : List (BitVec 32) :=
  let distance := (src - dst).toInt.natAbs
  let adrpRange := 2 ^ (2 + 19 + 12 - 1)
  if distance < adrpRange then
    ((TurboAssembler.empty.adrpAdd tmpReg0 src dst).br tmpReg0).buffer
  else
    (TurboAssembler.empty.literalLdrBranch dst).buffer

/-- The target is near, and its page is the one behind the last that `adrp`
reaches. -/
def PageOutOfReach (src dst : BitVec 64) : Prop :=
  (src - dst).toInt.natAbs < 4294967296 ∧ page dst - page src = 4294967296

instance (src dst : BitVec 64) : Decidable (PageOutOfReach src dst) :=
  inferInstanceAs (Decidable (_ ∧ _))

/-- Where the trampoline jumps to. -/
def trampolineTarget (src dst : BitVec 64) : BitVec 64 :=
  if PageOutOfReach src dst then dst - 8589934592 else dst

/-- A page and the offset in it. -/
theorem page_add_mod (a : BitVec 64) : page a + ((a % 0x1000).setWidth 12).setWidth 64 = a := by
  have ha := a.isLt
  apply BitVec.eq_of_toNat_eq
  rw [BitVec.toNat_add, toNat_page, BitVec.toNat_setWidth, BitVec.toNat_setWidth, BitVec.toNat_umod]
  have h4096 : (0x1000 : BitVec 64).toNat = 4096 := rfl
  rw [h4096]
  omega

/-- The pages that a near trampoline spans. -/
theorem page_sub_cases {src dst : BitVec 64} (h : (src - dst).toInt.natAbs < 4294967296) :
    ∃ k : Int, page dst - page src = BitVec.ofInt 64 (4096 * k) ∧ -1048576 ≤ k ∧ k ≤ 1048576 := by
  have hs := src.isLt
  have hd := dst.isLt
  rw [BitVec.toInt_eq_toNat_cond, BitVec.toNat_sub] at h
  have hpage (k : Int) (hk : (4096 * k - (dst.toNat / 4096 * 4096 : Nat) +
      (src.toNat / 4096 * 4096 : Nat)) % 18446744073709551616 = 0) :
      page dst - page src = BitVec.ofInt 64 (4096 * k) := by
    apply BitVec.eq_of_toNat_eq
    rw [BitVec.toNat_sub, toNat_page, toNat_page, BitVec.toNat_ofInt]
    omega
  -- The two addresses may lie on either side of the top of the address space.
  rcases Nat.lt_or_ge (src.toNat + 9223372036854775808) dst.toNat with hlow | hlow
  · refine ⟨dst.toNat / 4096 - src.toNat / 4096 - 4503599627370496, hpage _ ?_, ?_, ?_⟩
    all_goals split at h <;> omega
  rcases Nat.lt_or_ge (dst.toNat + 9223372036854775808) src.toNat with hhigh | hhigh
  · refine ⟨dst.toNat / 4096 - src.toNat / 4096 + 4503599627370496, hpage _ ?_, ?_, ?_⟩
    all_goals split at h <;> omega
  · refine ⟨dst.toNat / 4096 - src.toNat / 4096, hpage _ ?_, ?_, ?_⟩
    all_goals split at h <;> omega

/-- The field of `adrp` holds a span of pages in its range. -/
theorem signExtend_pages {k : Int} (hlo : -1048576 ≤ k) (hhi : k < 1048576) :
    ((BitVec.ofInt 64 (4096 * k)).extractLsb' 12 21).signExtend 64 <<< 12 =
      BitVec.ofInt 64 (4096 * k) := by
  have hfield : (BitVec.ofInt 64 (4096 * k)).extractLsb' 12 21 = BitVec.ofInt 21 k := by
    apply BitVec.eq_of_toNat_eq
    rw [BitVec.extractLsb'_toNat, BitVec.toNat_ofInt, BitVec.toNat_ofInt,
      Nat.shiftRight_eq_div_pow]
    omega
  have hint : (BitVec.ofInt 21 k).toInt = k := by
    rw [BitVec.toInt_ofInt]
    exact Int.bmod_eq_of_le (by omega) (by omega)
  rw [hfield, BitVec.signExtend, hint]
  apply BitVec.eq_of_toNat_eq
  rw [BitVec.toNat_shiftLeft, BitVec.toNat_ofInt, BitVec.toNat_ofInt, Nat.shiftLeft_eq]
  omega

/-- What `adrp` adds to the page of the trampoline. -/
theorem adrp_reaches {src dst : BitVec 64} (h : (src - dst).toInt.natAbs < 4294967296) :
    page src + ((page dst - page src).extractLsb' 12 21).signExtend 64 <<< 12 =
      if PageOutOfReach src dst then page dst - 8589934592 else page dst := by
  obtain ⟨k, hk, hlo, hhi⟩ := page_sub_cases h
  rcases Int.lt_or_le k 1048576 with hlt | hge
  · have hnot : ¬ PageOutOfReach src dst := by
      rintro ⟨-, hfar⟩
      rw [hk] at hfar
      have htoNat := congrArg BitVec.toNat hfar
      rw [BitVec.toNat_ofInt] at htoNat
      have hval : (4294967296 : BitVec 64).toNat = 4294967296 := rfl
      omega
    rw [if_neg hnot, hk, signExtend_pages hlo hlt, ← hk, BitVec.add_comm, BitVec.sub_add_cancel]
  · have heq : k = 1048576 := Int.le_antisymm hhi hge
    subst heq
    have hfar : PageOutOfReach src dst := ⟨h, hk⟩
    have hwrap : ((4294967296 : BitVec 64).extractLsb' 12 21).signExtend 64 <<< 12 =
        4294967296 - 8589934592 := by decide
    rw [if_pos hfar, hfar.2, hwrap]
    have hdst : page dst = 4294967296 + page src := by
      rw [← hfar.2, BitVec.sub_add_cancel]
    rw [hdst, BitVec.add_comm, BitVec.sub_eq_add_neg, BitVec.sub_eq_add_neg, BitVec.add_assoc,
      BitVec.add_assoc, BitVec.add_comm (page src)]

/-- The words of the two trampolines. -/
theorem generateNormalTrampolineBuffer_eq (src dst : BitVec 64) :
    generateNormalTrampolineBuffer src dst =
      if (src - dst).toInt.natAbs < 4294967296 then
        [adrpWord tmpReg0 (page dst - page src), addWord tmpReg0 tmpReg0 (dst % 0x1000),
          brWord tmpReg0]
      else linked 2 0 (farJumpItems dst) ++ pool (farJumpItems dst) := by
  have hempty : TurboAssembler.empty = render [] := rfl
  rw [generateNormalTrampolineBuffer]
  split
  next h =>
    rw [if_pos (by simpa using h)]
    rfl
  next h =>
    rw [if_neg (by simpa using h), hempty, TurboAssembler.literalLdrBranch, ldrLabel_render,
      TurboAssembler.br, emit_render, relocBind_render]
    rfl

/-- The offset in the page, added to what `adrp` left. -/
theorem adrp_add_reaches {src dst : BitVec 64} (h : (src - dst).toInt.natAbs < 4294967296) :
    page src + ((page dst - page src).extractLsb' 12 21).signExtend 64 <<< 12 +
      ((dst % 0x1000).setWidth 12).setWidth 64 = trampolineTarget src dst := by
  rw [adrp_reaches h, trampolineTarget]
  split
  next =>
    rw [BitVec.sub_eq_add_neg, BitVec.add_assoc, BitVec.add_comm (-8589934592), ← BitVec.add_assoc,
      page_add_mod, ← BitVec.sub_eq_add_neg]
  next => exact page_add_mod dst

section
variable {isa : Isa E} {stop : State E → Bool} {src dst : BitVec 64} {c : Core E}

/-- The near trampoline. -/
theorem path_adrpAdd (h : (src - dst).toInt.natAbs < 4294967296) (hin : Within stop src 3)
    (h0 : read32 c.mem src.toNat = adrpWord tmpReg0 (page dst - page src))
    (h1 : read32 c.mem (after src 1).toNat = addWord tmpReg0 tmpReg0 (dst % 0x1000))
    (h2 : read32 c.mem (after src 2).toNat = brWord tmpReg0) :
    Path (step isa) stop ⟨src, c⟩
      ⟨trampolineTarget src dst, c.set x17 (trampolineTarget src dst)⟩ := by
  let v := page src + ((page dst - page src).extractLsb' 12 21).signExtend 64 <<< 12
  have hadd : effect isa (.add tmpReg0 tmpReg0 ((dst % 0x1000).setWidth 12)) (c.set x17 v) =
      some (c.set x17 (trampolineTarget src dst), none) := by
    have hsp : spField tmpReg0 = x17 := rfl
    rw [effect, hsp, Core.set_reg, if_pos rfl, Core.set_set, adrp_add_reaches h]
  have p0 : Path (step isa) stop ⟨src, c⟩ ⟨after src 1, c.set x17 v⟩ :=
    path_word (hin.here (by decide) _) (by rw [h0, decode_adrpWord]) rfl
  have p1 : Path (step isa) stop ⟨after src 1, c.set x17 v⟩
      ⟨after src 2, c.set x17 (trampolineTarget src dst)⟩ :=
    path_plain (hin 1 (by decide) _) (by rw [Core.set_mem, h1, decode_addWord]) hadd
  refine (p0.trans p1).trans (path_word (hin 2 (by decide) _) (i := .plain (.br tmpReg0)) ?_ ?_)
  · rw [Core.set_mem, h2, decode_brWord]
  · rw [exec, effect, xField_tmpReg0, Core.get_some, Core.set_reg, if_pos rfl]
    rfl

/-- A trampoline in memory runs to where it jumps to, with that address in
`x17` and everything else as it was. -/
theorem path_trampoline
    (h : Loaded c.mem src.toNat (generateNormalTrampolineBuffer src dst))
    (hfit : src.toNat + 4 * (generateNormalTrampolineBuffer src dst).length ≤ 2 ^ 64)
    (hin : Within stop src 3) :
    Path (step isa) stop ⟨src, c⟩
      ⟨trampolineTarget src dst, c.set x17 (trampolineTarget src dst)⟩ := by
  rw [generateNormalTrampolineBuffer_eq] at h hfit
  split at h
  next hnear =>
    rw [if_pos hnear] at hfit
    have hfit : src.toNat + 4 * 3 ≤ 2 ^ 64 := hfit
    have h1 := h 1 (by decide : 1 < 3)
    have h2 := h 2 (by decide : 2 < 3)
    rw [← toNat_after (by omega)] at h1 h2
    exact path_adrpAdd hnear hin (h 0 (by decide : 0 < 3)) h1 h2
  next hfar =>
    rw [if_neg hfar] at hfit
    obtain ⟨hcode, hpool⟩ := loaded_append.mp h
    have hsrc : BitVec.ofNat 64 (src.toNat + 4 * 0) = src := by
      rw [Nat.mul_zero, Nat.add_zero, BitVec.ofNat_toNat, BitVec.setWidth_eq]
    have hitems := codeAt_of_linked (a := src.toNat) (farJumpItems dst) 2 0 hcode hpool
      (by decide : 0 + 2 ≤ 2) (by decide : 2 + 2 ≤ 0 + 262144) hfit
    have htarget : trampolineTarget src dst = dst := if_neg fun hp => hfar hp.1
    rw [hsrc] at hitems
    rw [htarget]
    exact path_farJump (hin.mono (by decide)) hitems

end

theorem length_generateNormalTrampolineBuffer (src dst : BitVec 64) :
    3 ≤ (generateNormalTrampolineBuffer src dst).length ∧
      (generateNormalTrampolineBuffer src dst).length ≤ 4 := by
  rw [generateNormalTrampolineBuffer_eq]
  split
  next => exact ⟨Nat.le_refl 3, Nat.le_succ 3⟩
  next => exact ⟨Nat.le_succ 3, Nat.le_refl 4⟩

/-- The trampoline jumps to its target, except for a target on the page just
out of the reach of `adrp`. -/
theorem trampolineTarget_eq_iff (src dst : BitVec 64) :
    trampolineTarget src dst = dst ↔ ¬ PageOutOfReach src dst := by
  rw [trampolineTarget]
  split
  next h =>
    refine iff_of_false (fun heq => ?_) (not_not_intro h)
    have hzero := BitVec.add_right_eq_self.mp (BitVec.sub_eq_iff_eq_add.mp heq).symm
    exact absurd hzero (by decide)
  next h => exact iff_of_true rfl h

/-- A wrong target is far behind the trampoline. -/
theorem outside_trampolineTarget {src dst : BitVec 64} {n : Nat} (hn : n ≤ 4) (c : Core E)
    (hout : 4 * n ≤ (dst - src).toNat) :
    outside src n ⟨trampolineTarget src dst, c⟩ = true := by
  refine decide_eq_true ?_
  rw [trampolineTarget]
  split
  next h =>
    have hpages := congrArg BitVec.toNat h.2
    have hs := src.isLt
    have hd := dst.isLt
    have hfar : (4294967296 : BitVec 64).toNat = 4294967296 := rfl
    have hback : (8589934592 : BitVec 64).toNat = 8589934592 := rfl
    rw [BitVec.toNat_sub, toNat_page, toNat_page, hfar] at hpages
    rw [BitVec.toNat_sub, BitVec.toNat_sub, hback]
    omega
  next => exact hout

/-- A trampoline in memory leads to its target with only `x17` changed, unless the
target lies on the page just out of the reach of `adrp`. -/
theorem trampoline_reaches_iff {isa : Isa E} {src dst : BitVec 64} {c : Core E}
    (h : Loaded c.mem src.toNat (generateNormalTrampolineBuffer src dst))
    (hfit : src.toNat + 4 * (generateNormalTrampolineBuffer src dst).length ≤ 2 ^ 64)
    (hout : 4 * (generateNormalTrampolineBuffer src dst).length ≤ (dst - src).toNat) :
    RunsTo (step isa) (outside src (generateNormalTrampolineBuffer src dst).length) ⟨src, c⟩
      ⟨dst, c.set x17 dst⟩ ↔ ¬ PageOutOfReach src dst := by
  obtain ⟨hlo, hhi⟩ := length_generateNormalTrampolineBuffer src dst
  have hin : Within (E := E) (outside src (generateNormalTrampolineBuffer src dst).length)
      (after src 0) 3 := within_outside (by omega) (by omega)
  have hpath : Path (step isa) _ ⟨src, c⟩ _ := path_trampoline h hfit hin
  have hrun := hpath.runsTo (outside_trampolineTarget hhi _ hout)
  rw [← trampolineTarget_eq_iff]
  constructor
  · intro h'
    exact congrArg State.pc (hrun.unique h')
  · intro heq
    rwa [heq] at hrun

end Dobby
