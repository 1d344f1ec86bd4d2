import AndroidAnalysis.Machine.Exec
import AndroidAnalysis.Machine.Memory
import AndroidAnalysis.Machine.Word

/-!
# A64 listings

The part of the A64 instruction set that hand written call glue uses: pair and
single loads and stores, moves, immediate arithmetic, compares, branches and
calls.  A program is a listing with its labels in place, as the assembler reads
it, and the program counter is a position in the listing.

What a call does between the branch and the return is not part of the listing.
`Linkage` supplies it: the functions called by name, the code found at an
address, and the return address a call at a position leaves in `x30`.
`ret` has no successor, so a run that reaches it has returned to `x30`.

`path_data` runs a stretch of data instructions in one go.
-/

namespace Machine.Arm64

/-! ## State -/

/-- The general registers are numbered by numerals. -/
instance neZeroRegisters : NeZero 31 := ⟨by decide⟩

/-- A general register or the stack pointer. -/
inductive Reg
  | x (i : Fin 31)
  | sp
deriving DecidableEq

/-- Registers, the condition flags `N`, `Z`, `V`, and memory. -/
structure State where
  reg : Reg → BitVec 64
  n : Bool
  z : Bool
  v : Bool
  mem : Mem

/-- Set one register. -/
def State.set (s : State) (r : Reg) (w : BitVec 64) : State :=
  { s with reg := fun q => if q = r then w else s.reg q }

/-- Store a doubleword. -/
def State.store (s : State) (a w : BitVec 64) : State :=
  { s with mem := write64 s.mem a.toNat w }

/-- The doubleword at an address. -/
def State.load (s : State) (a : BitVec 64) : BitVec 64 := read64 s.mem a.toNat

/-- Set the flags to those of the comparison of two words. -/
def State.compare {w : Nat} (s : State) (a b : BitVec w) : State :=
  { s with n := (a - b).msb, z := a == b, v := BitVec.ssubOverflow a b }

section

variable (s : State) (r q : Reg) (a b w : BitVec 64) {k : Nat} (c d : BitVec k)

@[simp] theorem State.set_reg : (s.set r w).reg q = if q = r then w else s.reg q := rfl

@[simp] theorem State.set_mem : (s.set r w).mem = s.mem := rfl

@[simp] theorem State.set_load : (s.set r w).load a = s.load a := rfl

@[simp] theorem State.store_reg : (s.store a w).reg q = s.reg q := rfl

@[simp] theorem State.store_mem : (s.store a w).mem = write64 s.mem a.toNat w := rfl

@[simp] theorem State.compare_reg : (s.compare c d).reg q = s.reg q := rfl

@[simp] theorem State.compare_mem : (s.compare c d).mem = s.mem := rfl

@[simp] theorem State.compare_z : (s.compare c d).z = (c == d) := rfl

end

/-- After a comparison with zero, "less than" is the sign. -/
theorem State.compare_zero_lt (s : State) (a : BitVec 64) :
    ((s.compare a 0).n != (s.compare a 0).v) = a.msb := sub_zero_msb_bne_overflow a

/-- The address in the stack pointer. -/
def State.spAddr (s : State) : Nat := (s.reg .sp).toNat

/-! ## Instructions -/

/-- Instructions over labels `L` and named functions `F`. -/
inductive Instr (L F : Type)
  /-- `stp rt, rt2, [rn, off]!` -/
  | stpPre (rt rt2 rn : Reg) (off : BitVec 64)
  /-- `ldp rt, rt2, [rn], off` -/
  | ldpPost (rt rt2 rn : Reg) (off : BitVec 64)
  /-- `str rt, [rn, off]` -/
  | str (rt rn : Reg) (off : BitVec 64)
  /-- `ldr rt, [rn, off]` -/
  | ldr (rt rn : Reg) (off : BitVec 64)
  /-- `ldr rt, [rn, rm]` -/
  | ldrReg (rt rn rm : Reg)
  /-- `mov rd, rn` -/
  | mov (rd rn : Reg)
  /-- `mov rd, imm` -/
  | movImm (rd : Reg) (imm : BitVec 64)
  /-- `movk rd, imm, lsl shift` -/
  | movk (rd : Reg) (imm : BitVec 16) (shift : Nat)
  /-- `add rd, rn, imm` -/
  | add (rd rn : Reg) (imm : BitVec 64)
  /-- `sub rd, rn, imm` -/
  | sub (rd rn : Reg) (imm : BitVec 64)
  /-- `lsl rd, rn, shift` -/
  | lsl (rd rn : Reg) (shift : Nat)
  /-- `cmp xn, imm` -/
  | cmp (rn : Reg) (imm : BitVec 64)
  /-- `cmp wn, imm` -/
  | cmpW (rn : Reg) (imm : BitVec 32)
  /-- A label, which takes no room. -/
  | label (l : L)
  /-- `b l` -/
  | b (l : L)
  /-- `b.eq l` -/
  | beq (l : L)
  /-- `b.lt l` -/
  | blt (l : L)
  /-- `bl f` -/
  | bl (f : F)
  /-- `blr rn` -/
  | blr (rn : Reg)
  /-- `ret` -/
  | ret
deriving DecidableEq

variable {L F : Type}

/-- Instructions that only change the state and fall through. -/
def Instr.isData : Instr L F → Bool
  | .b _ | .beq _ | .blt _ | .bl _ | .blr _ | .ret => false
  | _ => true

/-- A word with sixteen bits of it replaced, from bit `shift` on. -/
def movkValue (w : BitVec 64) (imm : BitVec 16) (shift : Nat) : BitVec 64 :=
  w &&& ~~~((0xffff#16).setWidth 64 <<< shift) ||| imm.setWidth 64 <<< shift

theorem getLsbD_movkValue (w : BitVec 64) (imm : BitVec 16) {shift i : Nat} (hi : i < 64) :
    (movkValue w imm shift).getLsbD i =
      if shift ≤ i ∧ i < shift + 16 then imm.getLsbD (i - shift) else w.getLsbD i := by
  have hones : (0xffff#16).getLsbD (i - shift) = decide (i - shift < 16) :=
    BitVec.getLsbD_allOnes ..
  simp only [movkValue, BitVec.getLsbD_or, BitVec.getLsbD_and, BitVec.getLsbD_not,
    BitVec.getLsbD_shiftLeft, BitVec.getLsbD_setWidth, hones, decide_eq_true hi]
  rcases Nat.lt_or_ge i shift with hlow | hlow
  · rw [if_neg (by omega)]
    simp [hlow]
  · rcases Nat.lt_or_ge i (shift + 16) with hin | hhigh
    · rw [if_pos ⟨hlow, hin⟩]
      simp [Nat.not_lt.mpr hlow, show i - shift < 16 by omega, show i - shift < 64 by omega]
    · have hout : imm.getLsbD (i - shift) = false := BitVec.getLsbD_of_ge imm _ (by omega)
      rw [if_neg (by omega)]
      simp [Nat.not_lt.mpr hlow, show ¬ i - shift < 16 by omega, hout]

/-- Four times sixteen bits are the whole word. -/
theorem movkValue_quarters (w v : BitVec 64) :
    movkValue (movkValue (movkValue (movkValue w (v.extractLsb' 0 16) 0) (v.extractLsb' 16 16) 16)
      (v.extractLsb' 32 16) 32) (v.extractLsb' 48 16) 48 = v := by
  apply BitVec.eq_of_getLsbD_eq
  intro i hi
  have quarter (k : Nat) (h : k ≤ i ∧ i < k + 16) :
      (v.extractLsb' k 16).getLsbD (i - k) = v.getLsbD i := by
    rw [BitVec.getLsbD_extractLsb', decide_eq_true (by omega : i - k < 16), Bool.true_and,
      Nat.add_sub_cancel' h.1]
  simp only [getLsbD_movkValue _ _ hi]
  split
  next h => exact quarter 48 h
  next h48 =>
    split
    next h => exact quarter 32 h
    next h32 =>
      split
      next h => exact quarter 16 h
      next h16 =>
        have h0 : 0 ≤ i ∧ i < 0 + 16 := by omega
        rw [if_pos h0]
        exact quarter 0 h0

/-- The effect of a data instruction. -/
def exec (s : State) : Instr L F → State
  | .stpPre rt rt2 rn off =>
      ((s.store (s.reg rn + off) (s.reg rt)).store (s.reg rn + off + 8) (s.reg rt2)).set rn
        (s.reg rn + off)
  | .ldpPost rt rt2 rn off =>
      ((s.set rt (s.load (s.reg rn))).set rt2 (s.load (s.reg rn + 8))).set rn (s.reg rn + off)
  | .str rt rn off => s.store (s.reg rn + off) (s.reg rt)
  | .ldr rt rn off => s.set rt (s.load (s.reg rn + off))
  | .ldrReg rt rn rm => s.set rt (s.load (s.reg rn + s.reg rm))
  | .mov rd rn => s.set rd (s.reg rn)
  | .movImm rd imm => s.set rd imm
  | .movk rd imm shift => s.set rd (movkValue (s.reg rd) imm shift)
  | .add rd rn imm => s.set rd (s.reg rn + imm)
  | .sub rd rn imm => s.set rd (s.reg rn - imm)
  | .lsl rd rn shift => s.set rd (s.reg rn <<< shift)
  | .cmp rn imm => s.compare (s.reg rn) imm
  | .cmpW rn imm => s.compare ((s.reg rn).setWidth 32) imm
  | _ => s

/-! ## Steps -/

/-- What lies outside a listing. -/
structure Linkage (F : Type) where
  /-- The address of the instruction after a position. -/
  link : Nat → BitVec 64
  /-- A function called by name, from the branch to the return. -/
  func : F → State → State
  /-- The code at an address, from the branch to the return. -/
  code : BitVec 64 → State → State

/-- A position in the listing and a state. -/
abbrev Config := Nat × State

variable [DecidableEq L] [DecidableEq F]

/-- The position of a label. -/
def target (prog : List (Instr L F)) (l : L) : Nat := prog.idxOf (.label l)

/-- One instruction. -/
def step (prog : List (Instr L F)) (lk : Linkage F) (c : Config) : Option Config :=
  match prog[c.1]? with
  | none => none
  | some (.b l) => some (target prog l, c.2)
  | some (.beq l) => some (if c.2.z then target prog l else c.1 + 1, c.2)
  | some (.blt l) => some (if c.2.n != c.2.v then target prog l else c.1 + 1, c.2)
  | some (.bl f) => some (c.1 + 1, lk.func f (c.2.set (.x 30) (lk.link c.1)))
  | some (.blr rn) =>
      some (c.1 + 1, lk.code (c.2.reg rn) (c.2.set (.x 30) (lk.link c.1)))
  | some .ret => none
  | some i => some (c.1 + 1, exec c.2 i)

/-- The program counter is at an instruction. -/
def atInstr (prog : List (Instr L F)) (i : Instr L F) (c : Config) : Bool :=
  prog[c.1]? == some i

theorem atInstr_eq_false {prog : List (Instr L F)} {i j : Instr L F} {c : Config}
    (hget : prog[c.1]? = some j) (hne : j ≠ i) : atInstr prog i c = false := by
  rw [atInstr, hget, beq_eq_false_iff_ne]
  exact fun h => hne (Option.some.inj h)

theorem step_data {prog : List (Instr L F)} {lk : Linkage F} {i : Instr L F} {pc : Nat}
    (s : State) (hget : prog[pc]? = some i) (hi : i.isData = true) :
    step prog lk (pc, s) = some (pc + 1, exec s i) := by
  cases i with
  | b | beq | blt | bl | blr | ret => cases hi
  | _ => simp only [step, hget]

/-- A stretch of data instructions runs to its end. -/
theorem path_data {prog : List (Instr L F)} (lk : Linkage F) {halt : Instr L F}
    (hhalt : halt.isData = false) (is : List (Instr L F)) (pc : Nat) (s : State)
    (hpre : is <+: prog.drop pc) (hdata : ∀ i ∈ is, i.isData = true) :
    Path (step prog lk) (atInstr prog halt) (pc, s) (pc + is.length, is.foldl exec s) :=
  path_stretch Prod.mk exec Instr.isData
    (fun _ _ _ hget hi => atInstr_eq_false hget fun h => by rw [h, hhalt] at hi; cases hi)
    (fun _ s _ hget hi => step_data s hget hi) is pc s hpre hdata

end Machine.Arm64
