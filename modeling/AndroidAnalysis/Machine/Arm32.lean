import AndroidAnalysis.Machine.Exec
import AndroidAnalysis.Machine.Memory
import AndroidAnalysis.Machine.Word

/-!
# A32 listings

The part of the 32-bit ARM instruction set that hand written call glue uses:
register lists pushed and popped, single loads and stores, moves, immediate
arithmetic, compares, branches and calls.  A program is a listing with its
labels in place, as for A64.

The program counter is a register that a pop can load.  So a configuration is
at a position of the listing or has left it for an address, and a run that
leaves has returned there.

`path_data` runs a stretch of data instructions in one go.
-/

namespace Machine.Arm32

/-! ## State -/

/-- The general registers are numbered by numerals. -/
instance neZeroRegisters : NeZero 13 := ⟨by decide⟩

/-- A general register, the stack pointer or the link register. -/
inductive Reg
  | r (i : Fin 13)
  | sp
  | lr
deriving DecidableEq

/-- Registers, the condition flags `N`, `Z`, `V`, and memory. -/
structure State where
  reg : Reg → BitVec 32
  n : Bool
  z : Bool
  v : Bool
  mem : Mem

/-- Set one register. -/
def State.set (s : State) (r : Reg) (w : BitVec 32) : State :=
  { s with reg := fun q => if q = r then w else s.reg q }

/-- Store a word. -/
def State.store (s : State) (a w : BitVec 32) : State :=
  { s with mem := write32 s.mem a.toNat w }

/-- The word at an address. -/
def State.load (s : State) (a : BitVec 32) : BitVec 32 := read32 s.mem a.toNat

/-- Set the flags to those of the comparison of two words. -/
def State.compare (s : State) (a b : BitVec 32) : State :=
  { s with n := (a - b).msb, z := a == b, v := BitVec.ssubOverflow a b }

/-- The words of a register list, in the order of their addresses. -/
def State.storeList (s : State) (a : BitVec 32) : List (BitVec 32) → State
  | [] => s
  | w :: ws => (s.store a w).storeList (a + 4) ws

/-- Load a register list from consecutive words. -/
def State.loadList (s : State) (a : BitVec 32) : List Reg → State
  | [] => s
  | r :: rs => (s.set r (s.load a)).loadList (a + 4) rs

section

variable (s : State) (r q : Reg) (a b w : BitVec 32)

@[simp] theorem State.set_reg : (s.set r w).reg q = if q = r then w else s.reg q := rfl

@[simp] theorem State.set_mem : (s.set r w).mem = s.mem := rfl

@[simp] theorem State.set_load : (s.set r w).load a = s.load a := rfl

@[simp] theorem State.store_reg : (s.store a w).reg q = s.reg q := rfl

@[simp] theorem State.store_mem : (s.store a w).mem = write32 s.mem a.toNat w := rfl

@[simp] theorem State.compare_reg : (s.compare a b).reg q = s.reg q := rfl

@[simp] theorem State.compare_mem : (s.compare a b).mem = s.mem := rfl

@[simp] theorem State.compare_z : (s.compare a b).z = (a == b) := rfl

end

/-- After a comparison with zero, "less than" is the sign. -/
theorem State.compare_zero_lt (s : State) (a : BitVec 32) :
    ((s.compare a 0).n != (s.compare a 0).v) = a.msb := sub_zero_msb_bne_overflow a

/-- The address in the stack pointer. -/
def State.spAddr (s : State) : Nat := (s.reg .sp).toNat

/-! ## Instructions -/

/-- The bytes a register list takes. -/
def listBytes (rs : List Reg) : BitVec 32 := BitVec.ofNat 32 (4 * rs.length)

/-- Instructions over labels `L` and named functions `F`. -/
inductive Instr (L F : Type)
  /-- `push {rs}`, the list in ascending order -/
  | push (rs : List Reg)
  /-- `pop {rs, pc}`, the list in ascending order -/
  | popPc (rs : List Reg)
  /-- `str rt, [rn, off]` -/
  | str (rt rn : Reg) (off : BitVec 32)
  /-- `ldr rt, [rn, off]` -/
  | ldr (rt rn : Reg) (off : BitVec 32)
  /-- `ldr rt, [rn, rm]` -/
  | ldrReg (rt rn rm : Reg)
  /-- `mov rd, rn` -/
  | mov (rd rn : Reg)
  /-- `mov rd, imm` -/
  | movImm (rd : Reg) (imm : BitVec 32)
  /-- `movt rd, imm` -/
  | movt (rd : Reg) (imm : BitVec 16)
  /-- `add rd, rn, imm` -/
  | add (rd rn : Reg) (imm : BitVec 32)
  /-- `sub rd, rn, imm` -/
  | sub (rd rn : Reg) (imm : BitVec 32)
  /-- `lsl rd, rn, shift` -/
  | lsl (rd rn : Reg) (shift : Nat)
  /-- `cmp rn, imm` -/
  | cmp (rn : Reg) (imm : BitVec 32)
  /-- A label, which takes no room. -/
  | label (l : L)
  /-- `adr rd, l` -/
  | adr (rd : Reg) (l : L)
  /-- `b l` -/
  | b (l : L)
  /-- `beq l` -/
  | beq (l : L)
  /-- `blt l` -/
  | blt (l : L)
  /-- `bl f` -/
  | bl (f : F)
  /-- `blx rn` -/
  | blx (rn : Reg)
deriving DecidableEq

variable {L F : Type}

/-- Instructions that only change the state and fall through. -/
def Instr.isData : Instr L F → Bool
  | .popPc _ | .adr _ _ | .b _ | .beq _ | .blt _ | .bl _ | .blx _ => false
  | _ => true

/-- The effect of a data instruction. -/
def exec (s : State) : Instr L F → State
  | .push rs =>
      (s.storeList (s.reg .sp - listBytes rs) (rs.map s.reg)).set .sp (s.reg .sp - listBytes rs)
  | .str rt rn off => s.store (s.reg rn + off) (s.reg rt)
  | .ldr rt rn off => s.set rt (s.load (s.reg rn + off))
  | .ldrReg rt rn rm => s.set rt (s.load (s.reg rn + s.reg rm))
  | .mov rd rn => s.set rd (s.reg rn)
  | .movImm rd imm => s.set rd imm
  | .movt rd imm => s.set rd (imm ++ (s.reg rd).extractLsb' 0 16)
  | .add rd rn imm => s.set rd (s.reg rn + imm)
  | .sub rd rn imm => s.set rd (s.reg rn - imm)
  | .lsl rd rn shift => s.set rd (s.reg rn <<< shift)
  | .cmp rn imm => s.compare (s.reg rn) imm
  | _ => s

/-- The registers after `pop {rs, pc}`. -/
def State.popPc (s : State) (rs : List Reg) : State :=
  (s.loadList (s.reg .sp) rs).set .sp (s.reg .sp + listBytes rs + 4)

/-- The address that `pop {rs, pc}` goes to. -/
def State.poppedPc (s : State) (rs : List Reg) : BitVec 32 := s.load (s.reg .sp + listBytes rs)

/-! ## Steps -/

/-- What lies outside a listing. -/
structure Linkage (F : Type) where
  /-- The address of a position. -/
  addr : Nat → BitVec 32
  /-- The return address that a call at a position leaves. -/
  link : Nat → BitVec 32
  /-- A function called by name, from the branch to the return. -/
  func : F → State → State
  /-- The code at an address, from the branch to the return. -/
  code : BitVec 32 → State → State

/-- Where the program counter is. -/
inductive Pc
  | pos (i : Nat)
  | left (addr : BitVec 32)
deriving DecidableEq

/-- A program counter and a state. -/
abbrev Config := Pc × State

variable [DecidableEq L] [DecidableEq F]

/-- The position of a label. -/
def target (prog : List (Instr L F)) (l : L) : Nat := prog.idxOf (.label l)

/-- One instruction, at a position. -/
def stepAt (prog : List (Instr L F)) (lk : Linkage F) (pc : Nat) (s : State) : Option Config :=
  match prog[pc]? with
  | none => none
  | some (.popPc rs) => some (.left (s.poppedPc rs), s.popPc rs)
  | some (.adr rd l) => some (.pos (pc + 1), s.set rd (lk.addr (target prog l)))
  | some (.b l) => some (.pos (target prog l), s)
  | some (.beq l) => some (.pos (if s.z then target prog l else pc + 1), s)
  | some (.blt l) => some (.pos (if s.n != s.v then target prog l else pc + 1), s)
  | some (.bl f) => some (.pos (pc + 1), lk.func f (s.set .lr (lk.link pc)))
  | some (.blx rn) => some (.pos (pc + 1), lk.code (s.reg rn) (s.set .lr (lk.link pc)))
  | some i => some (.pos (pc + 1), exec s i)

/-- One instruction. -/
def step (prog : List (Instr L F)) (lk : Linkage F) : Config → Option Config
  | (.pos pc, s) => stepAt prog lk pc s
  | (.left _, _) => none

/-- The program counter is at an instruction. -/
def atInstr (prog : List (Instr L F)) (i : Instr L F) : Config → Bool
  | (.pos pc, _) => prog[pc]? == some i
  | (.left _, _) => false

/-- The program counter has left the listing. -/
def hasLeft : Config → Bool
  | (.pos _, _) => false
  | (.left _, _) => true

theorem atInstr_eq_false {prog : List (Instr L F)} {i j : Instr L F} {pc : Nat} {s : State}
    (hget : prog[pc]? = some j) (hne : j ≠ i) : atInstr prog i (.pos pc, s) = false := by
  rw [atInstr, hget, beq_eq_false_iff_ne]
  exact fun h => hne (Option.some.inj h)

theorem step_data {prog : List (Instr L F)} {lk : Linkage F} {i : Instr L F} {pc : Nat}
    (s : State) (hget : prog[pc]? = some i) (hi : i.isData = true) :
    step prog lk (.pos pc, s) = some (.pos (pc + 1), exec s i) := by
  cases i with
  | popPc | adr | b | beq | blt | bl | blx => cases hi
  | _ => simp only [step, stepAt, hget]

section

variable {prog : List (Instr L F)} (lk : Linkage F)

/-- A stretch of data instructions runs to its end, where the run is to stop at an
instruction of another kind. -/
theorem path_data {halt : Instr L F} (hhalt : halt.isData = false) (is : List (Instr L F))
    (pc : Nat) (s : State) (hpre : is <+: prog.drop pc) (hdata : ∀ i ∈ is, i.isData = true) :
    Path (step prog lk) (atInstr prog halt) (.pos pc, s) (.pos (pc + is.length), is.foldl exec s) :=
  path_stretch (fun pc s => (Pc.pos pc, s)) exec Instr.isData
    (fun _ _ _ hget hi => atInstr_eq_false hget fun h => by rw [h, hhalt] at hi; cases hi)
    (fun _ s _ hget hi => step_data s hget hi) is pc s hpre hdata

/-- The same, where the run is to leave the listing. -/
theorem path_data_left (is : List (Instr L F)) (pc : Nat) (s : State)
    (hpre : is <+: prog.drop pc) (hdata : ∀ i ∈ is, i.isData = true) :
    Path (step prog lk) hasLeft (.pos pc, s) (.pos (pc + is.length), is.foldl exec s) :=
  path_stretch (fun pc s => (Pc.pos pc, s)) exec Instr.isData (fun _ _ _ _ _ => rfl)
    (fun _ s _ hget hi => step_data s hget hi) is pc s hpre hdata

end

/-! ## What a callee keeps -/

/-- From `s` to `s'` the stack pointer, `r4`..`r11` and the memory at `keep` are
unchanged. -/
structure Kept (keep : Nat → Prop) (s s' : State) : Prop where
  sp : s'.reg .sp = s.reg .sp
  saved : ∀ i : Fin 13, 4 ≤ i.val → i.val ≤ 11 → s'.reg (.r i) = s.reg (.r i)
  mem : Mem.AgreeOn keep s.mem s'.mem

/-- At and above the stack pointer. -/
def above (s : State) (b : Nat) : Prop := s.spAddr ≤ b

/-- Outside the free part of the stack, which ends at the stack pointer and
begins at `lo`. -/
def outsideFree (lo : Nat) (s : State) (b : Nat) : Prop := b < lo ∨ s.spAddr ≤ b

end Machine.Arm32
