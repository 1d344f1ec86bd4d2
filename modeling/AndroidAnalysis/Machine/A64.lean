import AndroidAnalysis.Machine.Arm64Code
import AndroidAnalysis.Machine.BitField
import AndroidAnalysis.Machine.Exec

/-!
# A64 code in memory

A processor that fetches its instructions from memory.  The program counter is
an address, so code can be moved, and what an instruction does may depend on
where it lies.

The instructions that read the program counter are spelled out: branches with
an offset, `adr` and `adrp`, loads of a literal, and calls, which leave their
return address in `x30`.  So are the few others that call glue made at run time
consists of.  Every other word is a `Plain` instruction, whose effect `Isa`
supplies: it has no access to the program counter, only to the rest of the
state, and may name the address to go on at.

`decode` tells instructions apart by their fixed bits.
-/

namespace Machine.A64

open Machine.Arm64 (Reg xField spField movkValue)

/-! ## State -/

/-- Everything but the program counter.  What no instruction here names, such
as the vector registers, is an `E`. -/
@[ext] structure Core (E : Type) where
  reg : Reg → BitVec 64
  n : Bool
  z : Bool
  c : Bool
  v : Bool
  rest : E
  mem : Mem

structure State (E : Type) where
  pc : BitVec 64
  core : Core E

variable {E : Type}

/-- Set one register. -/
def Core.set (s : Core E) (r : Reg) (w : BitVec 64) : Core E :=
  { s with reg := fun q => if q = r then w else s.reg q }

/-- A register operand, with `none` for `xzr`. -/
def Core.get (s : Core E) : Option Reg → BitVec 64
  | none => 0
  | some r => s.reg r

/-- A register result.  What is put into `xzr` is lost. -/
def Core.put (s : Core E) : Option Reg → BitVec 64 → Core E
  | none, _ => s
  | some r, w => s.set r w

section

variable (s : Core E) (r q : Reg) (w : BitVec 64)

@[simp] theorem Core.set_reg : (s.set r w).reg q = if q = r then w else s.reg q := rfl

@[simp] theorem Core.set_mem : (s.set r w).mem = s.mem := rfl

@[simp] theorem Core.put_none : s.put none w = s := rfl

@[simp] theorem Core.put_some : s.put (some r) w = s.set r w := rfl

@[simp] theorem Core.get_none : s.get none = 0 := rfl

@[simp] theorem Core.get_some : s.get (some r) = s.reg r := rfl

theorem Core.set_set (w' : BitVec 64) : (s.set r w).set r w' = s.set r w' := by
  refine Core.ext ?_ rfl rfl rfl rfl rfl rfl
  funext q
  rw [set_reg, set_reg, set_reg]
  split
  next => rfl
  next => rfl

end

@[simp] theorem Core.put_mem (s : Core E) (r : Option Reg) (w : BitVec 64) :
    (s.put r w).mem = s.mem := by
  cases r with
  | none => rfl
  | some r => rfl

/-- Whether a condition holds. -/
def Core.holds (s : Core E) (cond : BitVec 4) : Bool :=
  let result :=
    match (cond.extractLsb' 1 3).toNat with
    | 0 => s.z
    | 1 => s.c
    | 2 => s.n
    | 3 => s.v
    | 4 => s.c && !s.z
    | 5 => s.n == s.v
    | 6 => s.n == s.v && !s.z
    | _ => true
  if cond.getLsbD 0 && cond != 0b1111 then !result else result

/-- The last bit of a condition negates it, except where it is "always". -/
theorem Core.holds_xor_one (s : Core E) {cond : BitVec 4} (h : cond.extractLsb' 1 3 ≠ 7) :
    s.holds (cond ^^^ 1) = !s.holds cond := by
  have hcases : ∀ cond : BitVec 4, cond.extractLsb' 1 3 ≠ 7 →
      (cond ^^^ 1).extractLsb' 1 3 = cond.extractLsb' 1 3 ∧
      ((cond ^^^ 1).getLsbD 0 && (cond ^^^ 1) != 0b1111) =
        !(cond.getLsbD 0 && cond != 0b1111) := by
    decide
  obtain ⟨hkind, hlast⟩ := hcases cond h
  rw [holds, holds, hkind, hlast]
  cases cond.getLsbD 0 && cond != 0b1111 with
  | true => exact (Bool.not_not _).symm
  | false => rfl

/-! ## Instructions -/

/-- Instructions that do not read the program counter. -/
inductive Plain
  /-- `movz rd, imm, lsl 16 * hw` -/
  | movz (rd : BitVec 5) (imm : BitVec 16) (hw : BitVec 2)
  /-- `movk rd, imm, lsl 16 * hw` -/
  | movk (rd : BitVec 5) (imm : BitVec 16) (hw : BitVec 2)
  /-- `add rd, rn, imm` -/
  | add (rd rn : BitVec 5) (imm : BitVec 12)
  /-- `ldr rt, [rn, 8 * imm]` -/
  | ldr (rt rn : BitVec 5) (imm : BitVec 12)
  /-- `br rn` -/
  | br (rn : BitVec 5)
  /-- Any other word. -/
  | other (w : BitVec 32)
deriving DecidableEq

/-- Instructions.  An offset is in bytes. -/
inductive Instr
  | b (off : BitVec 64)
  | bl (off : BitVec 64)
  | blr (rn : BitVec 5)
  | bCond (cond : BitVec 4) (off : BitVec 64)
  /-- `cbz` and, where `nz` is set, `cbnz`, of a doubleword where `sf` is set. -/
  | cb (sf nz : Bool) (rt : BitVec 5) (off : BitVec 64)
  /-- `tbz` and, where `nz` is set, `tbnz`. -/
  | tb (bit : BitVec 6) (nz : Bool) (rt : BitVec 5) (off : BitVec 64)
  | adr (rd : BitVec 5) (off : BitVec 64)
  | adrp (rd : BitVec 5) (off : BitVec 64)
  /-- A literal to a general register, by the size field. -/
  | ldrLit (opc : BitVec 2) (rt : BitVec 5) (off : BitVec 64)
  /-- A literal to a vector register, by the size field. -/
  | vecLit (opc : BitVec 2) (rt : BitVec 5) (off : BitVec 64)
  | plain (i : Plain)
deriving DecidableEq

/-- An offset in words. -/
def wordOffset {k : Nat} (imm : BitVec k) : BitVec 64 := (imm ++ 0#2 : BitVec (k + 2)).signExtend 64

/-- The offset of `adr`. -/
def adrOffset (w : BitVec 32) : BitVec 64 :=
  (w.extractLsb' 5 19 ++ w.extractLsb' 29 2 : BitVec 21).signExtend 64

/-- The instructions that do not read the program counter. -/
def decodePlain (w : BitVec 32) : Plain :=
  if w &&& 0xff800000 = 0xd2800000 then
    .movz (w.extractLsb' 0 5) (w.extractLsb' 5 16) (w.extractLsb' 21 2)
  else if w &&& 0xff800000 = 0xf2800000 then
    .movk (w.extractLsb' 0 5) (w.extractLsb' 5 16) (w.extractLsb' 21 2)
  else if w &&& 0xffc00000 = 0x91000000 then
    .add (w.extractLsb' 0 5) (w.extractLsb' 5 5) (w.extractLsb' 10 12)
  else if w &&& 0xffc00000 = 0xf9400000 then
    .ldr (w.extractLsb' 0 5) (w.extractLsb' 5 5) (w.extractLsb' 10 12)
  else if w &&& 0xfffffc1f = 0xd61f0000 then
    .br (w.extractLsb' 5 5)
  else
    .other w

/-- The instruction of a word. -/
def decode (w : BitVec 32) : Instr :=
  if w &&& 0x7c000000 = 0x14000000 then
    if w.getLsbD 31 then .bl (wordOffset (w.extractLsb' 0 26))
    else .b (wordOffset (w.extractLsb' 0 26))
  else if w &&& 0x3b000000 = 0x18000000 then
    if w.getLsbD 26 then
      .vecLit (w.extractLsb' 30 2) (w.extractLsb' 0 5) (wordOffset (w.extractLsb' 5 19))
    else .ldrLit (w.extractLsb' 30 2) (w.extractLsb' 0 5) (wordOffset (w.extractLsb' 5 19))
  else if w &&& 0x9f000000 = 0x10000000 then
    .adr (w.extractLsb' 0 5) (adrOffset w)
  else if w &&& 0x9f000000 = 0x90000000 then
    .adrp (w.extractLsb' 0 5) (adrOffset w <<< 12)
  else if w &&& 0xff000010 = 0x54000000 then
    .bCond (w.extractLsb' 0 4) (wordOffset (w.extractLsb' 5 19))
  else if w &&& 0x7e000000 = 0x34000000 then
    .cb (w.getLsbD 31) (w.getLsbD 24) (w.extractLsb' 0 5) (wordOffset (w.extractLsb' 5 19))
  else if w &&& 0x7e000000 = 0x36000000 then
    .tb (w.extractLsb' 31 1 ++ w.extractLsb' 19 5 : BitVec 6) (w.getLsbD 24) (w.extractLsb' 0 5)
      (wordOffset (w.extractLsb' 5 14))
  else if w &&& 0xfffffc1f = 0xd63f0000 then
    .blr (w.extractLsb' 5 5)
  else
    .plain (decodePlain w)

/-! ## Steps -/

/-- What the processor does that is not spelled out here. -/
structure Isa (E : Type) where
  /-- The effect of a word, with the address to go on at where it is a branch. -/
  other : BitVec 32 → Core E → Option (Core E × Option (BitVec 64))
  /-- A literal at an address goes to a vector register. -/
  vecLit : BitVec 2 → BitVec 5 → BitVec 64 → Core E → Option (Core E)

variable (isa : Isa E)

/-- The effect of an instruction that does not read the program counter. -/
def effect : Plain → Core E → Option (Core E × Option (BitVec 64))
  | .movz rd imm hw, s => some (s.put (xField rd) (movkValue 0 imm (16 * hw.toNat)), none)
  | .movk rd imm hw, s =>
      some (s.put (xField rd) (movkValue (s.get (xField rd)) imm (16 * hw.toNat)), none)
  | .add rd rn imm, s => some (s.set (spField rd) (s.reg (spField rn) + imm.setWidth 64), none)
  | .ldr rt rn imm, s =>
      some (s.put (xField rt)
        (read64 s.mem (s.reg (spField rn) + imm.setWidth 64 <<< 3).toNat), none)
  | .br rn, s => some (s, some (s.get (xField rn)))
  | .other w, s => isa.other w s

/-- The register of a compare and branch is zero. -/
def Core.zero (s : Core E) (sf : Bool) (rt : BitVec 5) : Bool :=
  if sf then s.get (xField rt) == 0 else (s.get (xField rt)).setWidth 32 == 0

/-- The bit of a test and branch. -/
def Core.bit (s : Core E) (rt : BitVec 5) (bit : BitVec 6) : Bool :=
  (s.get (xField rt)).getLsbD bit.toNat

/-- What a literal load leaves, by the size field.  A prefetch leaves nothing. -/
def Core.putLiteral (s : Core E) (opc : BitVec 2) (rt : BitVec 5) (a : BitVec 64) : Core E :=
  match opc.toNat with
  | 0 => s.put (xField rt) ((read32 s.mem a.toNat).setWidth 64)
  | 1 => s.put (xField rt) (read64 s.mem a.toNat)
  | 2 => s.put (xField rt) ((read32 s.mem a.toNat).signExtend 64)
  | _ => s

/-- The page of an address. -/
def page (a : BitVec 64) : BitVec 64 := a &&& ~~~0xfff#64

/-- One instruction at an address. -/
def exec (pc : BitVec 64) (s : Core E) : Instr → Option (State E)
  | .b off => some ⟨pc + off, s⟩
  | .bl off => some ⟨pc + off, s.set (.x 30) (pc + 4)⟩
  | .blr rn => some ⟨s.get (xField rn), s.set (.x 30) (pc + 4)⟩
  | .bCond cond off => some ⟨if s.holds cond then pc + off else pc + 4, s⟩
  | .cb sf nz rt off => some ⟨if s.zero sf rt != nz then pc + off else pc + 4, s⟩
  | .tb bit nz rt off => some ⟨if s.bit rt bit == nz then pc + off else pc + 4, s⟩
  | .adr rd off => some ⟨pc + 4, s.put (xField rd) (pc + off)⟩
  | .adrp rd off => some ⟨pc + 4, s.put (xField rd) (page pc + off)⟩
  | .ldrLit opc rt off => some ⟨pc + 4, s.putLiteral opc rt (pc + off)⟩
  | .vecLit opc rt off => (isa.vecLit opc rt (pc + off) s).map fun s' => ⟨pc + 4, s'⟩
  | .plain i => (effect isa i s).map fun r => ⟨r.2.getD (pc + 4), r.1⟩

/-- The word at the program counter. -/
def State.word (s : State E) : BitVec 32 := read32 s.core.mem s.pc.toNat

/-- Fetch, decode, and execute. -/
def step (s : State E) : Option (State E) := exec isa s.pc s.core (decode s.word)

end Machine.A64
