import AndroidAnalysis.Machine.Arm32

/-!
# A32 instruction words

The encodings of the instructions of a listing that code made at run time uses.
`decode` reads one word and refuses every other encoding, and those in which the
program counter would be an operand.  `decodeAt` reads the words of a stretch of
memory.

The immediate of `movw` and `movt` lies on both sides of the register.
`immWord` has the fields of either side by side, and `decode_movwWord` and
`decode_movtWord` read them back.
-/

namespace Machine.Arm32

variable {L F : Type}

/-! ## Fields -/

/-- A register field that does not name the program counter. -/
def regField (f : BitVec 4) : Option Reg :=
  if h : f.toNat < 13 then some (.r ⟨f.toNat, h⟩)
  else if f = 13 then some .sp
  else if f = 14 then some .lr
  else none

/-- The registers of a list field below the program counter, but for the stack
pointer. -/
def regList (f : BitVec 16) : List Reg :=
  (List.finRange 13).filterMap (fun i : Fin 13 => if f.getLsbD i then some (.r i) else none) ++
    if f.getLsbD 14 then [.lr] else []

/-- The constant of an immediate field: eight bits, rotated right by an even
amount. -/
def immConstant (f : BitVec 12) : BitVec 32 :=
  ((f.extractLsb' 0 8).setWidth 32).rotateRight (2 * (f.extractLsb' 8 4).toNat)

/-- The immediate of `movw` and `movt`. -/
def movImmediate (w : BitVec 32) : BitVec 16 := w.extractLsb' 16 4 ++ w.extractLsb' 0 12

/-! ## Words -/

/-- The instruction of a word. -/
def decode (w : BitVec 32) : Option (Instr L F) :=
  if w.extractLsb' 20 12 = 0xe30 then do
    let rd ← regField (w.extractLsb' 12 4)
    some (.movImm rd ((movImmediate w).setWidth 32))
  else if w.extractLsb' 20 12 = 0xe34 then do
    let rd ← regField (w.extractLsb' 12 4)
    some (.movt rd (movImmediate w))
  else if w.extractLsb' 20 12 = 0xe28 then do
    let rd ← regField (w.extractLsb' 12 4)
    let rn ← regField (w.extractLsb' 16 4)
    some (.add rd rn (immConstant (w.extractLsb' 0 12)))
  else if w.extractLsb' 16 16 = 0xe92d ∧ w.extractLsb' 0 16 ≠ 0 ∧ w.getLsbD 13 = false ∧
      w.getLsbD 15 = false then
    some (.push (regList (w.extractLsb' 0 16)))
  else if w.extractLsb' 16 16 = 0xe8bd ∧ w.getLsbD 13 = false ∧ w.getLsbD 15 = true then
    some (.popPc (regList (w.extractLsb' 0 16)))
  else if w.extractLsb' 4 28 = 0xe12fff3 then do
    let rn ← regField (w.extractLsb' 0 4)
    some (.blx rn)
  else
    none

/-- The instructions of the words from `a` on. -/
def decodeAt (m : Mem) (a n : Nat) : Option (List (Instr L F)) := decodeWords decode m a n

/-- The word of `movw rd, imm` or of `movt rd, imm`. -/
def immWord (opcode : BitVec 12) (imm : BitVec 16) (rd : BitVec 4) : BitVec 32 :=
  opcode ++ imm.extractLsb' 12 4 ++ rd ++ imm.extractLsb' 0 12

section

variable (opcode : BitVec 12) (imm : BitVec 16) (rd : BitVec 4)

theorem immWord_opcode : (immWord opcode imm rd).extractLsb' 20 12 = opcode := by
  rw [immWord, BitVec.extractLsb'_append_eq_of_le (by decide),
    BitVec.extractLsb'_append_eq_of_le (by decide)]
  exact BitVec.extractLsb'_append_eq_left

theorem immWord_rd : (immWord opcode imm rd).extractLsb' 12 4 = rd := by
  rw [immWord, BitVec.extractLsb'_append_eq_of_le (by decide)]
  exact BitVec.extractLsb'_append_eq_right

theorem movImmediate_immWord : movImmediate (immWord opcode imm rd) = imm := by
  have hhigh : (immWord opcode imm rd).extractLsb' 16 4 = imm.extractLsb' 12 4 := by
    rw [immWord, BitVec.extractLsb'_append_eq_of_le (by decide),
      BitVec.extractLsb'_append_eq_of_le (by decide)]
    exact BitVec.extractLsb'_append_eq_right
  have hlow : (immWord opcode imm rd).extractLsb' 0 12 = imm.extractLsb' 0 12 :=
    BitVec.extractLsb'_append_eq_right
  rw [movImmediate, hhigh, hlow]
  apply BitVec.eq_of_getLsbD_eq
  intro i hi
  rw [BitVec.getLsbD_append, BitVec.getLsbD_extractLsb', BitVec.getLsbD_extractLsb']
  rcases Nat.lt_or_ge i 12 with h12 | h12
  · simp [h12]
  · simp [Nat.not_lt.mpr h12, show i - 12 < 4 by omega, Nat.add_sub_of_le h12]

/-- The fields of a `movw` are read back. -/
theorem decode_movwWord {rd : BitVec 4} (h : rd.toNat < 13) :
    (decode (immWord 0xe30 imm rd) : Option (Instr L F)) =
      some (.movImm (.r ⟨rd.toNat, h⟩) (imm.setWidth 32)) := by
  rw [decode, if_pos (immWord_opcode 0xe30 imm rd), immWord_rd, movImmediate_immWord, regField,
    dif_pos h]
  rfl

/-- The fields of a `movt` are read back. -/
theorem decode_movtWord {rd : BitVec 4} (h : rd.toNat < 13) :
    (decode (immWord 0xe34 imm rd) : Option (Instr L F)) =
      some (.movt (.r ⟨rd.toNat, h⟩) imm) := by
  have hne : ¬ (immWord 0xe34 imm rd).extractLsb' 20 12 = 0xe30 := by
    rw [immWord_opcode]
    decide
  rw [decode, if_neg hne, if_pos (immWord_opcode 0xe34 imm rd), immWord_rd, movImmediate_immWord,
    regField, dif_pos h]
  rfl

end

/-- `movw` and `movt` with the two halves of a number load the number. -/
theorem movt_movw (p : BitVec 32) : p.extractLsb' 16 16 ++
    BitVec.extractLsb' 0 16 ((p.extractLsb' 0 16).setWidth 32) = p := by
  apply BitVec.eq_of_getLsbD_eq
  intro i hi
  rw [BitVec.getLsbD_append]
  rcases Nat.lt_or_ge i 16 with h16 | h16
  · simp [h16, hi]
  · simp [Nat.not_lt.mpr h16, show i - 16 < 16 by omega, Nat.add_sub_of_le h16]

end Machine.Arm32
