import AndroidAnalysis.Dobby.RelocatedInst

/-!
# One relocated instruction

What a relocated instruction does, next to what the instruction does where it
came from.  The two states agree up to some registers and some addresses, and
the relocated sequence ends in one of three ways (`Outcome`):

* both go on at the next instruction,
* both are at the target of a branch,
* both are at the target of a call, with return addresses that stand for each
  other.

`x17` may differ after a far jump and after the load of a literal.

`step_relocated` is the step lemma of the simulation, and it is put together
from one lemma for each kind of instruction.
-/

namespace Dobby

open Machine Machine.A64
open Machine.Arm64 (Reg xField spField)

variable {E : Type} {isa : Isa E} {stop : State E → Bool}

/-! ## Sequences -/

/-- The scratch register of the relocator. -/
def x17 : Reg := .x 17

/-- The return address. -/
def x30 : Reg := .x 30

theorem xField_tmpReg0 : xField tmpReg0 = some x17 := rfl

section
variable {pc v : BitVec 64} {s : Core E}

theorem path_literal (hstop : stop ⟨pc, s⟩ = false) (h : ItemAt s.mem pc (.literal v)) :
    Path (step isa) stop ⟨pc, s⟩ ⟨pc + 4, s.set x17 v⟩ := by
  obtain ⟨off, hi, rfl⟩ := h
  exact path_word hstop hi rfl

theorem path_mov {rd : BitVec 5} (hin : Within stop pc 4) (h : CodeAt s.mem pc (movItems rd v)) :
    Path (step isa) stop ⟨pc, s⟩ ⟨after pc 4, s.put (xField rd) v⟩ := by
  refine path_quarters hin ?_ ?_ ?_ ?_
  · exact (congrArg decode (h 0 (by decide : 0 < 4))).trans (decode_movzWord ..)
  · exact (congrArg decode (h 1 (by decide : 1 < 4))).trans (decode_movkWord ..)
  · exact (congrArg decode (h 2 (by decide : 2 < 4))).trans (decode_movkWord ..)
  · exact (congrArg decode (h 3 (by decide : 3 < 4))).trans (decode_movkWord ..)

theorem path_farJump (hin : Within stop pc 2) (h : CodeAt s.mem pc (farJumpItems v)) :
    Path (step isa) stop ⟨pc, s⟩ ⟨v, s.set x17 v⟩ := by
  obtain ⟨hlit, hrest⟩ := codeAt_cons.mp h
  obtain ⟨hbr, -⟩ := codeAt_cons.mp hrest
  refine (path_literal (hin.here (by decide) _) hlit).trans ?_
  refine path_word (i := .plain (.br tmpReg0)) (hin 1 (by decide) _) ?_ ?_
  · rw [Core.set_mem, hbr, decode_brWord]
  · rw [exec, effect, xField_tmpReg0, Core.get_some, Core.set_reg, if_pos rfl]
    rfl

/-- An inverted branch over a far jump. -/
theorem path_over {w : BitVec 32} {i : Instr} {taken : Bool} (hi : decode w = i)
    (hexec : exec isa pc s i = some ⟨if !taken then pc + 12 else pc + 4, s⟩)
    (hin : Within stop pc 3) (h : CodeAt s.mem pc (.word w :: farJumpItems v)) :
    Path (step isa) stop ⟨pc, s⟩
      (if taken then ⟨v, s.set x17 v⟩ else ⟨after pc 3, s⟩) := by
  obtain ⟨hw, hjump⟩ := codeAt_cons.mp h
  have hfirst : Path (step isa) stop ⟨pc, s⟩ ⟨if !taken then pc + 12 else pc + 4, s⟩ :=
    path_word (hin.here (by decide) s) (by rw [hw, hi]) hexec
  cases taken with
  | true => exact hfirst.trans (path_farJump (hin.drop (j := 1)) hjump)
  | false =>
      have hafter : after pc 3 = pc + 12 := by
        rw [after_eq]
        rfl
      rw [if_neg Bool.false_ne_true, hafter]
      exact hfirst

end

/-! ## Outcomes -/

/-- The registers that may differ after an instruction that goes on at the next
one. -/
def clobber (d : Reg → Prop) : Instr → Reg → Prop
  | .ldrLit _ _ _ => orReg d x17
  | _ => d

/-- How an instruction at `pc` and its relocated sequence end, where `next` is
the address behind the sequence. -/
inductive Outcome (d : Reg → Prop) (p : Nat → Prop) (i : Instr) (pc next : BitVec 64) :
    State E → State E → Prop
  | next {s t : Core E} : Agree (clobber d i) p s t → Outcome d p i pc next ⟨pc + 4, s⟩ ⟨next, t⟩
  | jump {a : BitVec 64} {s t : Core E} : a ≠ pc + 4 → Agree (orReg d x17) p s t →
      Outcome d p i pc next ⟨a, s⟩ ⟨a, t⟩
  | call {a : BitVec 64} {s t : Core E} : a ≠ pc + 4 → s.reg x30 = pc + 4 → t.reg x30 = next →
      Agree (orReg (orReg d x17) x30) p s t → Outcome d p i pc next ⟨a, s⟩ ⟨a, t⟩

/-- An instruction does not look at what differs, does not store there, and
goes on at the next instruction only by not being a branch. -/
def Undisturbed (isa : Isa E) (d : Reg → Prop) (p : Nat → Prop) (s : State E) : Prop :=
  match decode s.word with
  | .cb _ _ rt _ | .tb _ _ rt _ => Same d rt
  | .blr rn => Same d rn ∧ s.core.get (xField rn) ≠ s.pc + 4
  | .ldrLit _ _ off => ∀ b, (s.pc + off).toNat ≤ b → b < (s.pc + off).toNat + 8 → ¬ p b
  | .plain i => BlindAt isa d p s.pc i s.core
  | _ => True

/-- The two ends of a step, and what the step keeps. -/
def Steps (isa : Isa E) (stop : State E → Bool) (d : Reg → Prop) (p : Nat → Prop) (i : Instr)
    (next : BitVec 64) (s s' t : State E) : Prop :=
  ∃ t', Path (step isa) stop t t' ∧ Outcome d p i s.pc next s' t' ∧
    Mem.AgreeOn p s.core.mem s'.core.mem ∧ Mem.AgreeOn p t.core.mem t'.core.mem

/-! ## One lemma for each kind -/

section
variable {d : Reg → Prop} {p : Nat → Prop} {pc a : BitVec 64} {s t : Core E} {s' : State E}
  {w : BitVec 32} {i : Instr}

theorem orReg_self (d : Reg → Prop) (r : Reg) : orReg d r r := .inr rfl

theorem orReg_of (d : Reg → Prop) (r : Reg) : ∀ q, d q → orReg d r q := fun _ => .inl

/-- A jump to an address outside the relocated sequence. -/
theorem steps_farJump {v : BitVec 64} (h : Agree d p s t) (hv : v ≠ pc + 4)
    (hpath : Path (step isa) stop ⟨a, t⟩ ⟨v, t.set x17 v⟩) {next : BitVec 64} :
    Steps isa stop d p i next ⟨pc, s⟩ ⟨v, s⟩ ⟨a, t⟩ :=
  ⟨_, hpath, .jump hv ((h.mono (orReg_of d x17)).set_right (orReg_self d x17) v), .refl _ _,
    .refl _ _⟩

theorem steps_over {off : BitVec 64} {taken : Bool} (h : Agree d p s t) (hoff : off ≠ 4)
    (hclob : clobber d i = d) {j : Instr} (hj : decode w = j)
    (hexec : exec isa a t j = some ⟨if !taken then a + 12 else a + 4, t⟩)
    (hin : Within stop a 3) (hcode : CodeAt t.mem a (.word w :: farJumpItems (pc + off))) :
    Steps isa stop d p i (after a 3) ⟨pc, s⟩ ⟨if taken then pc + off else pc + 4, s⟩ ⟨a, t⟩ := by
  have hpath := path_over hj hexec hin hcode
  cases taken with
  | true =>
      refine steps_farJump h (fun heq => hoff ?_) hpath
      exact BitVec.add_right_inj _ |>.mp heq
  | false =>
      exact ⟨_, hpath, .next (by rwa [hclob]), .refl _ _, .refl _ _⟩

theorem steps_mov {rd : BitVec 5} {v : BitVec 64} (h : Agree d p s t) (hclob : clobber d i = d)
    (hin : Within stop a 4) (hcode : CodeAt t.mem a (movItems rd v)) :
    Steps isa stop d p i (after a 4) ⟨pc, s⟩ ⟨pc + 4, s.put (xField rd) v⟩ ⟨a, t⟩ := by
  refine ⟨_, path_mov hin hcode, .next ?_, ?_, ?_⟩
  · rw [hclob]
    exact h.put _ _
  · rw [Core.put_mem]
    exact .refl _ _
  · rw [Core.put_mem]
    exact .refl _ _

/-- A call leaves the return address of the side it is made on. -/
theorem steps_call {v : BitVec 64} (h : Agree (orReg d x17) p s t) (hv : v ≠ pc + 4)
    {t₀ : Core E} {next : BitVec 64} (hmem : Mem.AgreeOn p t₀.mem t.mem)
    (hpath : Path (step isa) stop ⟨a, t₀⟩ ⟨v, t.set x30 next⟩) :
    Steps isa stop d p i next ⟨pc, s⟩ ⟨v, s.set x30 (pc + 4)⟩ ⟨a, t₀⟩ := by
  refine ⟨_, hpath, .call hv ?_ ?_ ?_, .refl _ _, hmem⟩
  · rw [Core.set_reg, if_pos rfl]
  · rw [Core.set_reg, if_pos rfl]
  · exact ((h.mono (orReg_of _ x30)).set_left (orReg_self _ x30) _).set_right (orReg_self _ x30) _

theorem steps_bl {off : BitVec 64} (h : Agree d p s t) (hoff : off ≠ 4) (hin : Within stop a 2)
    (hcode : CodeAt t.mem a [.literal (pc + off), .word (blrWord tmpReg0)]) :
    Steps isa stop d p i (after a 2) ⟨pc, s⟩ ⟨pc + off, s.set x30 (pc + 4)⟩ ⟨a, t⟩ := by
  obtain ⟨hlit, hrest⟩ := codeAt_cons.mp hcode
  obtain ⟨hblr, -⟩ := codeAt_cons.mp hrest
  have hcall : exec isa (a + 4) (t.set x17 (pc + off)) (.blr tmpReg0) =
      some ⟨pc + off, (t.set x17 (pc + off)).set x30 (after a 2)⟩ := by
    rw [exec, xField_tmpReg0, Core.get_some, Core.set_reg, if_pos rfl]
    rfl
  refine steps_call ((h.mono (orReg_of d x17)).set_right (orReg_self d x17) (pc + off))
    (fun heq => hoff ((BitVec.add_right_inj _).mp heq)) (.refl _ _)
    ((path_literal (hin.here (by decide) _) hlit).trans ?_)
  exact path_word (hin 1 (by decide) _) (by rw [Core.set_mem, hblr, decode_blrWord]) hcall

theorem steps_blr {rn : BitVec 5} (h : Agree d p s t) (hrn : Same d rn)
    (hne : s.get (xField rn) ≠ pc + 4) (hin : Within stop a 1) (hw : decode w = .blr rn)
    (hcode : CodeAt t.mem a [.word w]) :
    Steps isa stop d p i (after a 1) ⟨pc, s⟩ ⟨s.get (xField rn), s.set x30 (pc + 4)⟩ ⟨a, t⟩ := by
  have hcall : exec isa a t (.blr rn) = some ⟨s.get (xField rn), t.set x30 (a + 4)⟩ := by
    rw [exec, h.get hrn]
    rfl
  exact steps_call (h.mono (orReg_of d x17)) hne (.refl _ _)
    (path_word (hin.here (by decide) _) (by rw [(codeAt_cons.mp hcode).1, hw]) hcall)

/-- The address of the literal goes through `x17`. -/
theorem steps_ldrLit {rt : BitVec 5} {off : BitVec 64} (h : Agree d p s t)
    (hclear : ∀ b, (pc + off).toNat ≤ b → b < (pc + off).toNat + 8 → ¬ p b)
    (hin : Within stop a 5)
    (hcode : CodeAt t.mem a (movItems tmpReg0 (pc + off) ++ [.word (ldrWord rt tmpReg0 0)])) :
    Steps isa stop d p (.ldrLit 1 rt off) (after a 5) ⟨pc, s⟩
      ⟨pc + 4, s.putLiteral 1 rt (pc + off)⟩ ⟨a, t⟩ := by
  obtain ⟨hmov, hrest⟩ := codeAt_append.mp hcode
  have hldr : read32 t.mem (after a 4).toNat = ldrWord rt tmpReg0 0 := (codeAt_cons.mp hrest).1
  have hlit : s.putLiteral 1 rt (pc + off) = s.put (xField rt) (read64 s.mem (pc + off).toNat) :=
    rfl
  have hload : effect isa (.ldr rt tmpReg0 0) (t.set x17 (pc + off)) =
      some ((t.set x17 (pc + off)).put (xField rt) (read64 s.mem (pc + off).toNat), none) := by
    have haddr : (t.set x17 (pc + off)).reg (spField tmpReg0) + (0 : BitVec 12).setWidth 64 <<< 3 =
        pc + off := BitVec.add_zero _
    rw [effect, haddr, Core.set_mem, h.read64 hclear]
  have hmoved : Path (step isa) stop ⟨a, t⟩ ⟨after a 4, t.put (xField tmpReg0) (pc + off)⟩ :=
    path_mov (hin.mono (by decide)) hmov
  have hpath := hmoved.trans
    (path_plain (hin 4 (by decide) _) (by rw [Core.put_mem, hldr, decode_ldrWord_zero]) hload)
  rw [hlit]
  refine ⟨_, hpath, .next ?_, ?_, ?_⟩
  · exact ((h.mono (orReg_of d x17)).set_right (orReg_self d x17) _).put _ _
  · rw [Core.put_mem]
    exact .refl _ _
  · rw [Core.put_mem]
    exact .refl _ _

/-- An instruction that is copied. -/
theorem steps_plain {j : Plain} (h : Agree d p s t) (hblind : BlindAt isa d p pc j s)
    (hclob : clobber d i = d) (hin : Within stop a 1) (hw : decode w = .plain j)
    (hcode : CodeAt t.mem a [.word w])
    (hexec : exec isa pc s (.plain j) = some s') :
    Steps isa stop d p i (after a 1) ⟨pc, s⟩ s' ⟨a, t⟩ := by
  obtain ⟨u, v, next, hs, ht, hnext, hag, hsmem, htmem⟩ := hblind t h
  have hfetch : decode (read32 t.mem a.toNat) = .plain j := by
    rw [(codeAt_cons.mp hcode).1, hw]
  rw [exec, hs] at hexec
  cases hexec
  have hpath : Path (step isa) stop ⟨a, t⟩ ⟨next.getD (a + 4), v⟩ :=
    path_word (hin.here (by decide) _) hfetch (by rw [exec, ht]; rfl)
  cases next with
  | none => exact ⟨_, hpath, .next (by rwa [hclob]), hsmem, htmem⟩
  | some b =>
      exact ⟨_, hpath, .jump (fun heq => hnext (congrArg some heq)) (hag.mono (orReg_of d x17)),
        hsmem, htmem⟩

end

/-! ## The step -/

/-- One step of the original, and the relocated sequence of its instruction. -/
theorem step_relocated {d : Reg → Prop} {p : Nat → Prop} {s s' t : State E}
    (hrel : Relocatable s.word) (hund : Undisturbed isa d p s) (hag : Agree d p s.core t.core)
    (hcode : CodeAt t.core.mem t.pc (relocatedInstr s.pc s.word (decode s.word)))
    (hin : Within stop t.pc (relocatedInstr s.pc s.word (decode s.word)).length)
    (hstep : step isa s = some s') :
    Steps isa stop d p (decode s.word)
      (after t.pc (relocatedInstr s.pc s.word (decode s.word)).length) s s' t := by
  obtain ⟨pc, c⟩ := s
  obtain ⟨a, u⟩ := t
  rw [step] at hstep
  rw [Relocatable] at hrel
  rw [Undisturbed] at hund
  cases hi : decode (State.word ⟨pc, c⟩) with
  | b off =>
      rw [hi] at hstep hrel hcode hin
      cases hstep
      exact steps_farJump hag (fun heq => hrel ((BitVec.add_right_inj _).mp heq))
        (path_farJump hin hcode)
  | bl off =>
      rw [hi] at hstep hrel hcode hin
      cases hstep
      exact steps_bl hag hrel hin hcode
  | blr rn =>
      rw [hi] at hstep hund hcode hin
      cases hstep
      exact steps_blr hag hund.1 hund.2 hin hi hcode
  | bCond cond off =>
      rw [hi] at hstep hrel hcode hin
      cases hstep
      obtain ⟨hmask, hcond⟩ := of_decode_eq_bCond hi
      refine steps_over hag hrel.2 rfl (decode_invertedBCond hmask) ?_ hin hcode
      rw [exec, hcond, Core.holds_xor_one _ hrel.1, hag.holds]
  | cb sf nz rt off =>
      rw [hi] at hstep hrel hund hcode hin
      cases hstep
      obtain ⟨hmask, hsf, hnz, hrt⟩ := of_decode_eq_cb hi
      refine steps_over hag hrel rfl (decode_invertedCompareB hmask) ?_ hin hcode
      rw [exec, hsf, hnz, hrt, hag.zero hund]
      cases c.zero sf rt <;> cases nz <;> rfl
  | tb b nz rt off =>
      rw [hi] at hstep hrel hund hcode hin
      cases hstep
      obtain ⟨hmask, hb, hnz, hrt⟩ := of_decode_eq_tb hi
      refine steps_over hag hrel rfl (decode_invertedTestB hmask) ?_ hin hcode
      rw [exec, hb, hnz, hrt, hag.bit hund]
      cases c.bit rt b <;> cases nz <;> rfl
  | adr rd off =>
      rw [hi] at hstep hcode hin
      cases hstep
      exact steps_mov hag rfl hin hcode
  | adrp rd off =>
      rw [hi] at hstep hcode hin
      cases hstep
      exact steps_mov hag rfl hin hcode
  | ldrLit opc rt off =>
      rw [hi] at hstep hrel hund hcode hin
      cases hrel
      cases hstep
      exact steps_ldrLit hag hund hin hcode
  | vecLit opc rt off =>
      rw [hi] at hrel
      exact hrel.elim
  | plain j =>
      rw [hi] at hstep hund hcode hin
      exact steps_plain hag hund rfl hin hi hcode hstep

end Dobby
