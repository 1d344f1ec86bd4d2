import AndroidAnalysis.Machine.VaList

/-!
# A `va_list` in memory

A compiled `va_arg` works on a `va_list` that lies in memory, and moves its fields
on.  Taken one after the other, the arguments are the general registers that were
saved and then the words of the stack (`VaList.argAddr`), whatever the call had
used up before.  Nothing is written but the fields (`vaArgAt_agreeOn`).
-/

namespace Machine

/-! ## The arguments in order -/

/-- The general registers that are left to take. -/
def VaList.regsLeft (ap : VaList) : Nat := (-ap.grOffs).toNat / 8

/-- A `va_list` as the calling convention has it. -/
structure VaList.Wf (ap : VaList) : Prop where
  grOffs_eq : ap.grOffs = -(8 * ap.regsLeft : Nat)
  regsLeft_le : ap.regsLeft ≤ 8
  area_le : 8 * ap.regsLeft ≤ ap.grTop
  aligned : ap.stack % 8 = 0

/-- Where the `i`-th general argument is: in the register save area, which ends at
`grTop`, and on the stack after that. -/
def VaList.argAddr (ap : VaList) (i : Nat) : Nat :=
  if i < ap.regsLeft then ap.grTop - 8 * (ap.regsLeft - i)
  else ap.stack + 8 * (i - ap.regsLeft)

/-- The `i`-th general argument. -/
def VaList.arg (m : Mem) (ap : VaList) (i : Nat) : BitVec 64 := read64 m (ap.argAddr i)

/-- The `va_list` behind the first `i` general arguments. -/
def VaList.advance (ap : VaList) (i : Nat) : VaList where
  stack := ap.stack + 8 * (i - ap.regsLeft)
  grTop := ap.grTop
  grOffs := -(8 * (ap.regsLeft - i) : Nat)

@[simp] theorem VaList.advance_stack (ap : VaList) (i : Nat) :
    (ap.advance i).stack = ap.stack + 8 * (i - ap.regsLeft) := rfl

@[simp] theorem VaList.advance_grTop (ap : VaList) (i : Nat) :
    (ap.advance i).grTop = ap.grTop := rfl

@[simp] theorem VaList.advance_grOffs (ap : VaList) (i : Nat) :
    (ap.advance i).grOffs = -(8 * (ap.regsLeft - i) : Nat) := rfl

theorem VaList.Wf.advance_zero {ap : VaList} (hwf : ap.Wf) : ap.advance 0 = ap := by
  have hoffs := hwf.grOffs_eq
  cases ap
  rw [VaList.advance, Nat.zero_sub, Nat.sub_zero]
  exact congrArg _ hoffs.symm

/-- Behind a register there is one register less. -/
theorem VaList.advance_succ_register (ap : VaList) {i : Nat} (hi : i < ap.regsLeft) :
    { ap.advance i with grOffs := (ap.advance i).grOffs + 8 } = ap.advance (i + 1) := by
  refine VaList.ext_iff.mpr ⟨?_, rfl, ?_⟩
  · simp only [VaList.advance_stack]
    omega
  · simp only [VaList.advance_grOffs]
    omega

/-- Behind a stack word the stack begins one word later. -/
theorem VaList.advance_succ_stack (ap : VaList) {i : Nat} (hi : ap.regsLeft ≤ i) :
    { ap.advance i with stack := (ap.advance i).stack + 8 } = ap.advance (i + 1) := by
  refine VaList.ext_iff.mpr ⟨?_, rfl, ?_⟩
  · simp only [VaList.advance_stack]
    omega
  · simp only [VaList.advance_grOffs]
    omega

section
variable {ap : VaList} (hwf : ap.Wf) {n : Nat} (hn : n = 4 ∨ n = 8)

include hwf hn

/-- An argument of four or eight bytes takes a doubleword of the stack. -/
theorem VaList.Wf.stack_round (i : Nat) :
    ((ap.advance i).stack + n + 7) / 8 * 8 = (ap.advance i).stack + 8 := by
  have haligned := hwf.aligned
  rw [VaList.advance_stack]
  omega

/-- `va_arg` takes the next argument. -/
theorem vaArg_advance (m : Mem) (i : Nat) : vaArg m n (ap.advance i) =
    ((readBytes m (ap.argAddr i) n).setWidth 64, ap.advance (i + 1)) := by
  have harea := hwf.area_le
  rw [vaArg, VaList.argAddr]
  cases Nat.lt_or_ge i ap.regsLeft with
  | inl hi =>
      have haddr : ((ap.advance i).grTop + (ap.advance i).grOffs).toNat =
          ap.grTop - 8 * (ap.regsLeft - i) := by
        rw [VaList.advance_grTop, VaList.advance_grOffs]
        omega
      rw [if_neg (by rw [VaList.advance_grOffs]; omega),
        if_neg (by rw [VaList.advance_grOffs]; omega), haddr, ap.advance_succ_register hi,
        if_pos hi]
  | inr hi =>
      rw [if_pos (by rw [VaList.advance_grOffs]; omega), vaArg.fromStack, hwf.stack_round hn,
        ap.advance_succ_stack hi, if_neg (Nat.not_lt.mpr hi)]
      rfl

end

/-! ## `va_arg` on the fields -/

/-- `va_arg` of a general argument of `n` bytes, at most eight, on the `va_list` at `a`. -/
def vaArgAt (m : Mem) (a n : Nat) : BitVec 64 × Mem :=
  let grOffs := read32 m (a + 24)
  if grOffs.toInt ≥ 0 then fromStack m
  else
    let m := write32 m (a + 24) (grOffs + 8)
    if (grOffs + 8).toInt > 0 then fromStack m
    else ((readBytes m (read64 m (a + 8) + grOffs.signExtend 64).toNat n).setWidth 64, m)
where
  /-- The next doubleword of the stack. -/
  fromStack (m : Mem) : BitVec 64 × Mem :=
    let stack := read64 m a
    let m := write64 m a (BitVec.ofNat 64 ((stack.toNat + n + 7) / 8 * 8))
    ((readBytes m stack.toNat n).setWidth 64, m)

/-- Only the fields are written. -/
theorem vaArgAt_agreeOn {p : Nat → Prop} (m : Mem) {a : Nat} (n : Nat)
    (hout : ∀ b, p b → b < a ∨ a + 32 ≤ b) : Mem.AgreeOn p m (vaArgAt m a n).2 := by
  have hstack {m' : Mem} (h : Mem.AgreeOn p m m') :
      Mem.AgreeOn p m (vaArgAt.fromStack a n m').2 :=
    h.write64 _ fun b hb => (hout b hb).imp id (by omega)
  have hoffs : Mem.AgreeOn p m (write32 m (a + 24) (read32 m (a + 24) + 8)) :=
    (Mem.AgreeOn.refl p m).write32 _ fun b hb => (hout b hb).imp (by omega) (by omega)
  simp only [vaArgAt]
  split
  next => exact hstack (.refl p m)
  next =>
      split
      next => exact hstack hoffs
      next => exact hoffs

/-- The fields after a store to `__gr_offs`. -/
theorem readVaList_write32 (m : Mem) (a : Nat) (v : BitVec 32) :
    readVaList (write32 m (a + 24) v) a = { readVaList m a with grOffs := v.toInt } := by
  refine VaList.ext_iff.mpr ⟨?_, ?_, ?_⟩
  · exact congrArg BitVec.toNat
      (readBytes_writeBytes_of_disjoint m (n := 8) (k := 4) v (.inl (by omega)))
  · exact congrArg BitVec.toNat
      (readBytes_writeBytes_of_disjoint m (n := 8) (k := 4) v (.inl (by omega)))
  · exact congrArg BitVec.toInt (readBytes_writeBytes_same m (a + 24) 4 v)

/-- The fields after a store to `__stack`. -/
theorem readVaList_write64 (m : Mem) (a : Nat) (v : BitVec 64) :
    readVaList (write64 m a v) a = { readVaList m a with stack := v.toNat } := by
  refine VaList.ext_iff.mpr ⟨?_, ?_, ?_⟩
  · exact congrArg BitVec.toNat (readBytes_writeBytes_same m a 8 v)
  · exact congrArg BitVec.toNat
      (readBytes_writeBytes_of_disjoint m (n := 8) (k := 8) v (.inr (by omega)))
  · exact congrArg BitVec.toInt
      (readBytes_writeBytes_of_disjoint m (n := 4) (k := 8) v (.inr (by omega)))

/-- An address moved by a word, while it stays in the address space. -/
theorem toNat_add_signExtend {x : BitVec 64} {w : BitVec 32} (hlo : 0 ≤ x.toNat + w.toInt)
    (hhi : x.toNat + w.toInt < 2 ^ 64) :
    (x + w.signExtend 64).toNat = (x.toNat + w.toInt).toNat := by
  rw [BitVec.signExtend, BitVec.toNat_add, BitVec.toNat_ofInt]
  omega

/-- Eight more, while it stays negative or becomes zero. -/
theorem toInt_add_eight {w : BitVec 32} (hw : w.toInt ≤ -8) : (w + 8).toInt = w.toInt + 8 := by
  have hlo := BitVec.le_toInt w
  rw [BitVec.toInt_add, show (8 : BitVec 32).toInt = 8 from rfl]
  exact Int.bmod_eq_of_le (by omega) (by omega)

section
variable {m : Mem} {a n : Nat} {ap : VaList} {i : Nat} (hwf : ap.Wf) (hn : n = 4 ∨ n = 8)
  (hfields : readVaList m a = ap.advance i)
  (hout : ap.argAddr i + 8 ≤ a ∨ a + 32 ≤ ap.argAddr i)

include hwf hn hfields hout

/-- An argument that was saved with the registers. -/
theorem vaArgAt_register (hi : i < ap.regsLeft) :
    (vaArgAt m a n).1 = (readBytes m (ap.argAddr i) n).setWidth 64 ∧
      readVaList (vaArgAt m a n).2 a = ap.advance (i + 1) := by
  have harea := hwf.area_le
  have hoffs : (read32 m (a + 24)).toInt = (ap.advance i).grOffs :=
    congrArg VaList.grOffs hfields
  have htop : (read64 m (a + 8)).toNat = ap.grTop := congrArg VaList.grTop hfields
  have htopLt := (read64 m (a + 8)).isLt
  have hneg := ap.advance_grOffs i
  have hnext : (read32 m (a + 24) + 8).toInt = (ap.advance i).grOffs + 8 := by
    rw [toInt_add_eight (by omega), hoffs]
  have haddr : (read64 m (a + 8) + (read32 m (a + 24)).signExtend 64).toNat = ap.argAddr i := by
    rw [toNat_add_signExtend (by omega) (by omega), htop, hoffs, hneg, VaList.argAddr, if_pos hi]
    omega
  have hrun : vaArgAt m a n = ((readBytes (write32 m (a + 24) (read32 m (a + 24) + 8))
      (ap.argAddr i) n).setWidth 64, write32 m (a + 24) (read32 m (a + 24) + 8)) := by
    have hkeep : read64 (write32 m (a + 24) (read32 m (a + 24) + 8)) (a + 8) =
        read64 m (a + 8) :=
      readBytes_writeBytes_of_disjoint m (n := 8) (k := 4) _ (.inl (by omega))
    rw [vaArgAt]
    simp only [hoffs, hnext, hkeep, haddr]
    rw [if_neg (by omega), if_neg (by omega)]
  rw [hrun]
  refine ⟨congrArg (BitVec.setWidth 64)
    (readBytes_writeBytes_of_disjoint m (k := 4) _ ?_), ?_⟩
  · omega
  · rw [readVaList_write32, hfields, hnext, ap.advance_succ_register hi]

/-- An argument on the stack. -/
theorem vaArgAt_stack (hi : ap.regsLeft ≤ i) (hstack : (ap.advance (i + 1)).stack < 2 ^ 64) :
    (vaArgAt m a n).1 = (readBytes m (ap.argAddr i) n).setWidth 64 ∧
      readVaList (vaArgAt m a n).2 a = ap.advance (i + 1) := by
  have hoffs : (read32 m (a + 24)).toInt = (ap.advance i).grOffs :=
    congrArg VaList.grOffs hfields
  have hnone := ap.advance_grOffs i
  have hfield : (read64 m a).toNat = (ap.advance i).stack := congrArg VaList.stack hfields
  have haddr : (ap.advance i).stack = ap.argAddr i := by
    rw [VaList.argAddr, if_neg (Nat.not_lt.mpr hi), VaList.advance_stack]
  have hnext : (BitVec.ofNat 64 (((ap.advance i).stack + n + 7) / 8 * 8)).toNat =
      (ap.advance i).stack + 8 := by
    rw [← ap.advance_succ_stack hi] at hstack
    rw [hwf.stack_round hn, BitVec.toNat_ofNat]
    exact Nat.mod_eq_of_lt hstack
  have hrun : vaArgAt m a n = vaArgAt.fromStack a n m := by
    rw [vaArgAt]
    exact if_pos (by omega)
  rw [hrun, vaArgAt.fromStack, hfield]
  refine ⟨?_, ?_⟩
  · rw [haddr]
    refine congrArg (BitVec.setWidth 64) (readBytes_writeBytes_of_disjoint m (k := 8) _ ?_)
    omega
  · rw [readVaList_write64, hfields, hnext, ap.advance_succ_stack hi]

/-- `va_arg` takes the next argument and moves the fields behind it. -/
theorem vaArgAt_advance (hstack : (ap.advance (i + 1)).stack < 2 ^ 64) :
    (vaArgAt m a n).1 = (readBytes m (ap.argAddr i) n).setWidth 64 ∧
      readVaList (vaArgAt m a n).2 a = ap.advance (i + 1) := by
  cases Nat.lt_or_ge i ap.regsLeft with
  | inl hi => exact vaArgAt_register hwf hn hfields hout hi
  | inr hi => exact vaArgAt_stack hwf hn hfields hout hi hstack

end

/-- The fields depend on the 32 bytes only. -/
theorem Mem.AgreeOn.readVaList {p : Nat → Prop} {m m' : Mem} (h : Mem.AgreeOn p m m') {a : Nat}
    (hin : ∀ b, a ≤ b → b < a + 0x20 → p b) : readVaList m' a = readVaList m a := by
  refine VaList.ext_iff.mpr ⟨?_, ?_, ?_⟩
  · exact congrArg BitVec.toNat (h.read64 fun b hlo hhi => hin b (by omega) (by omega))
  · exact congrArg BitVec.toNat (h.read64 fun b hlo hhi => hin b (by omega) (by omega))
  · exact congrArg BitVec.toInt (h.read32 fun b hlo hhi => hin b (by omega) (by omega))

/-- A copy of a `va_list` has its fields. -/
theorem readVaList_copy (m m' : Mem) (a b : Nat) :
    readVaList (memcpy m' a (bytesAt m b 0x20)) a = readVaList m b := by
  refine VaList.ext_iff.mpr ⟨?_, ?_, ?_⟩
  · exact congrArg BitVec.toNat (readBytes_copy m m' a b (j := 0) (n := 8) (by decide))
  · exact congrArg BitVec.toNat (readBytes_copy m m' a b (j := 8) (n := 8) (by decide))
  · exact congrArg BitVec.toInt (readBytes_copy m m' a b (j := 24) (n := 4) (by decide))

end Machine
