import AndroidAnalysis.Machine.Arm64

/-!
# A64 instruction words

The encodings of the instructions of a listing that code made at run time uses.
`decode` reads one word and refuses every other encoding, so a listing it gives
is what the processor executes there.  `decodeAt` reads the words of a stretch
of memory.

A patcher works on the fields of a word it does not know.  `movkWord` has the
fields of a `movk` side by side, and `decode_movkWord` reads them back.
-/

namespace Machine.Arm64

variable {L F : Type}

/-! ## Fields -/

/-- A register field that does not name the stack pointer: number 31 is `xzr`,
which no listing here has. -/
def xField (f : BitVec 5) : Option Reg :=
  if h : f.toNat < 31 then some (.x ⟨f.toNat, h⟩) else none

/-- A register field in which number 31 is the stack pointer. -/
def spField (f : BitVec 5) : Reg :=
  if h : f.toNat < 31 then .x ⟨f.toNat, h⟩ else .sp

/-- The signed offset of a pair access, in doublewords. -/
def pairOffset (imm : BitVec 7) : BitVec 64 := imm.signExtend 64 <<< 3

/-! ## Words -/

/-- The instruction of a word. -/
def decode (w : BitVec 32) : Option (Instr L F) :=
  if w.extractLsb' 23 9 = 0b111100101 then do
    let rd ← xField (w.extractLsb' 0 5)
    some (.movk rd (w.extractLsb' 5 16) (16 * (w.extractLsb' 21 2).toNat))
  else if w.extractLsb' 22 10 = 0b1010100110 then do
    let rt ← xField (w.extractLsb' 0 5)
    let rt2 ← xField (w.extractLsb' 10 5)
    some (.stpPre rt rt2 (spField (w.extractLsb' 5 5)) (pairOffset (w.extractLsb' 15 7)))
  else if w.extractLsb' 22 10 = 0b1010100011 then do
    let rt ← xField (w.extractLsb' 0 5)
    let rt2 ← xField (w.extractLsb' 10 5)
    some (.ldpPost rt rt2 (spField (w.extractLsb' 5 5)) (pairOffset (w.extractLsb' 15 7)))
  else if w.extractLsb' 22 10 = 0b1001000100 then
    some (.add (spField (w.extractLsb' 0 5)) (spField (w.extractLsb' 5 5))
      ((w.extractLsb' 10 12).setWidth 64))
  else if w.extractLsb' 10 22 = 0b1101011000111111000000 ∧ w.extractLsb' 0 5 = 0 then do
    let rn ← xField (w.extractLsb' 5 5)
    some (.blr rn)
  else if w = 0b1101011001011111000000#22 ++ 30#5 ++ 0#5 then
    some .ret
  else
    none

/-- The instructions of the words from `a` on. -/
def decodeAt (m : Mem) (a : Nat) : (n : Nat) → Option (List (Instr L F))
  | 0 => some []
  | n + 1 => do
      let i ← decode (read32 m a)
      let is ← decodeAt m (a + 4) n
      some (i :: is)

theorem decodeAt_eq_decodeWords (m : Mem) : ∀ (n a : Nat),
    (decodeAt m a n : Option (List (Instr L F))) = decodeWords decode m a n
  | 0, _ => rfl
  | n + 1, a => by rw [decodeAt, decodeWords, decodeAt_eq_decodeWords m n (a + 4)]

/-- A stretch is decoded word by word. -/
theorem decodeAt_eq_some {m : Mem} {a : Nat} {is : List (Instr L F)}
    (h : ∀ i (hi : i < is.length), decode (read32 m (a + 4 * i)) = some is[i]) :
    decodeAt m a is.length = some is := by
  rw [decodeAt_eq_decodeWords]
  exact decodeWords_eq_some h

/-- The word of `movk rd, imm, lsl 16 * hw`. -/
def movkWord (hw : BitVec 2) (imm : BitVec 16) (rd : BitVec 5) : BitVec 32 :=
  0b111100101#9 ++ hw ++ imm ++ rd

section

variable (hw : BitVec 2) (imm : BitVec 16) (rd : BitVec 5)

theorem movkWord_opcode : (movkWord hw imm rd).extractLsb' 23 9 = 0b111100101 := by
  rw [movkWord, BitVec.extractLsb'_append_eq_of_le (by decide),
    BitVec.extractLsb'_append_eq_of_le (by decide)]
  exact BitVec.extractLsb'_append_eq_left

theorem movkWord_hw : (movkWord hw imm rd).extractLsb' 21 2 = hw := by
  rw [movkWord, BitVec.extractLsb'_append_eq_of_le (by decide),
    BitVec.extractLsb'_append_eq_of_le (by decide)]
  exact BitVec.extractLsb'_append_eq_right

theorem movkWord_imm : (movkWord hw imm rd).extractLsb' 5 16 = imm := by
  rw [movkWord, BitVec.extractLsb'_append_eq_of_le (by decide)]
  exact BitVec.extractLsb'_append_eq_right

theorem movkWord_rd : (movkWord hw imm rd).extractLsb' 0 5 = rd :=
  BitVec.extractLsb'_append_eq_right

end

/-- The fields of a `movk` are read back. -/
theorem decode_movkWord (hw : BitVec 2) (imm : BitVec 16) {rd : BitVec 5} (h : rd.toNat < 31) :
    (decode (movkWord hw imm rd) : Option (Instr L F)) =
      some (.movk (.x ⟨rd.toNat, h⟩) imm (16 * hw.toNat)) := by
  rw [decode, if_pos (movkWord_opcode hw imm rd), movkWord_rd, movkWord_imm, movkWord_hw, xField,
    dif_pos h]
  rfl

end Machine.Arm64
