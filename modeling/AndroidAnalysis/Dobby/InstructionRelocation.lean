import AndroidAnalysis.Dobby.Assembler

/-!
# Instruction relocation

`relo_relocate` of `InstructionRelocationARM64.cc` copies the instructions that
a trampoline will overwrite to another place.  An instruction that does not read
the program counter is copied as it is.  One that does is replaced by a sequence
that has the address it computed as a literal or as an immediate, and an
inverted branch over a far jump stands for a conditional branch.

A load of a literal that is neither of a word nor of a doubleword is not
implemented.  `UNIMPLEMENTED` is an assertion, so a build with `NDEBUG` goes on
without the load, and another one stops: `ndebug` says which.

`reloItems` is what one instruction becomes, and `reloRelocate_render` says
that the loop emits it instruction by instruction.
-/

namespace Dobby

open Machine Machine.A64

/-! ## Kinds of instructions -/

/-- `inst_is_b_bl` -/
def instIsBBl (instr : BitVec 32) : Bool := instr &&& 0x7c000000 == 0x14000000

/-- `inst_is_ldr_literal` -/
def instIsLdrLiteral (instr : BitVec 32) : Bool := instr &&& 0x3b000000 == 0x18000000

/-- `inst_is_adr` -/
def instIsAdr (instr : BitVec 32) : Bool :=
  instr &&& 0x1f000000 == 0x10000000 && instr &&& 0x9f000000 == 0x10000000

/-- `inst_is_adrp` -/
def instIsAdrp (instr : BitVec 32) : Bool :=
  instr &&& 0x1f000000 == 0x10000000 && instr &&& 0x9f000000 == 0x90000000

/-- `inst_is_b_cond` -/
def instIsBCond (instr : BitVec 32) : Bool := instr &&& 0xfe000000 == 0x54000000

/-- `inst_is_compare_b` -/
def instIsCompareB (instr : BitVec 32) : Bool := instr &&& 0x7e000000 == 0x34000000

/-- `inst_is_test_b` -/
def instIsTestB (instr : BitVec 32) : Bool := instr &&& 0x7e000000 == 0x36000000

/-- `arm64_trunc_page` -/
def truncPage (x : BitVec 64) : BitVec 64 := x &&& ~~~(0x1000 - 1)

/-! ## The relocator -/

/-- The inverted branch of `b.cond`, over three instructions. -/
def invertedBCond (inst : BitVec 32) : BitVec 32 :=
  let cond := bits inst 0 3 ^^^ 1
  let branchInstr := setBits inst 0 3 cond
  setBits branchInstr 5 23 3

/-- The inverted branch of `cbz`, over three instructions. -/
def invertedCompareB (inst : BitVec 32) : BitVec 32 :=
  let op := bit inst 24 ^^^ 1
  let branchInstr := setBit inst 24 op
  setBits branchInstr 5 23 3

/-- The inverted branch of `tbz`, over three instructions. -/
def invertedTestB (inst : BitVec 32) : BitVec 32 :=
  let op := bit inst 24 ^^^ 1
  let branchInstr := setBit inst 24 op
  setBits branchInstr 5 18 3

/-- What the three conditional branches share: a label for the target, the
inverted branch, and the far jump it passes over. -/
def TurboAssembler.overFarJump (a : TurboAssembler) (branchInstr : BitVec 32) (dst : BitVec 64) :
    TurboAssembler :=
  let label := a.dataLabels.length
  let a := (a.appendRelocLabel (.new dst)).emit branchInstr
  (a.ldrLabel tmpReg0 label).br tmpReg0

/-- One round of the loop of `relo_relocate`, at `relo_cur_src_vmaddr`. -/
def reloInst (ndebug : Bool) (cur : BitVec 64) (inst : BitVec 32) (a : TurboAssembler) :
    Option TurboAssembler :=
  if instIsBBl inst then
    let dst := cur + decodeImm26Offset inst
    let label := a.dataLabels.length
    let a := (a.appendRelocLabel (.new dst)).ldrLabel tmpReg0 label
    if inst &&& 0xfc000000 = 0x94000000 then some (a.blr tmpReg0) else some (a.br tmpReg0)
  else if instIsLdrLiteral inst then
    let dst := cur + decodeImm19Offset inst
    let rt := decodeRt inst
    let opc := bits inst 30 31
    let a := a.mov tmpReg0 dst
    if opc = 0b00 then some (a.ldr rt tmpReg0 0)
    else if opc = 0b01 then some (a.ldr rt tmpReg0 0)
    else if ndebug then some a
    else none
  else if instIsAdr inst then
    let dst := cur + decodeImmhiImmloOffset inst
    some (a.mov (decodeRt inst) dst)
  else if instIsAdrp inst then
    let dst := truncPage (cur + decodeImmhiImmloZero12Offset inst)
    some (a.mov (decodeRt inst) dst)
  else if instIsBCond inst then
    some (a.overFarJump (invertedBCond inst) (cur + decodeImm19Offset inst))
  else if instIsCompareB inst then
    some (a.overFarJump (invertedCompareB inst) (cur + decodeImm19Offset inst))
  else if instIsTestB inst then
    some (a.overFarJump (invertedTestB inst) (cur + decodeImm14Offset inst))
  else
    some (a.emit inst)

/-- The loop of `relo_relocate` over the instructions from an address on. -/
def reloLoop (ndebug : Bool) : BitVec 64 → List (BitVec 32) → TurboAssembler →
    Option TurboAssembler
  | _, [], a => some a
  | cur, inst :: insts, a => (reloInst ndebug cur inst a).bind (reloLoop ndebug (cur + 4) insts)

/-- `GenRelocateCode`: the words of the relocated code of the instructions at
`src`, with a jump behind them where `branch` is set. -/
def genRelocateCode (ndebug : Bool) (src : BitVec 64) (insts : List (BitVec 32)) (branch : Bool) :
    Option (List (BitVec 32)) :=
  (reloLoop ndebug src insts .empty).map fun a =>
    let originEnd := src + BitVec.ofNat 64 (4 * insts.length)
    let a := if branch then a.literalLdrBranch originEnd else a
    a.relocBind.buffer

/-- `GenRelocateCodeAndBranch` -/
def genRelocateCodeAndBranch (ndebug : Bool) (src : BitVec 64) (insts : List (BitVec 32)) :
    Option (List (BitVec 32)) :=
  genRelocateCode ndebug src insts true

/-! ## What an instruction becomes -/

/-- The words of `Mov`. -/
def movItems (rd : BitVec 5) (v : BitVec 64) : List Item :=
  [.word (movzWord rd (v.extractLsb' 0 16) 0), .word (movkWord rd (v.extractLsb' 16 16) 1),
    .word (movkWord rd (v.extractLsb' 32 16) 2), .word (movkWord rd (v.extractLsb' 48 16) 3)]

/-- The far jump of `reloItems`. -/
def farJumpItems (dst : BitVec 64) : List Item := [.literal dst, .word (brWord tmpReg0)]

/-- What an instruction becomes. -/
def reloItems (ndebug : Bool) (cur : BitVec 64) (inst : BitVec 32) : Option (List Item) :=
  if instIsBBl inst then
    let dst := cur + decodeImm26Offset inst
    some [.literal dst,
      .word (if inst &&& 0xfc000000 = 0x94000000 then blrWord tmpReg0 else brWord tmpReg0)]
  else if instIsLdrLiteral inst then
    let movs := movItems tmpReg0 (cur + decodeImm19Offset inst)
    let load := movs ++ [.word (ldrWord (decodeRt inst) tmpReg0 0)]
    if bits inst 30 31 = 0b00 then some load
    else if bits inst 30 31 = 0b01 then some load
    else if ndebug then some movs
    else none
  else if instIsAdr inst then
    some (movItems (decodeRt inst) (cur + decodeImmhiImmloOffset inst))
  else if instIsAdrp inst then
    some (movItems (decodeRt inst) (truncPage (cur + decodeImmhiImmloZero12Offset inst)))
  else if instIsBCond inst then
    some (.word (invertedBCond inst) :: farJumpItems (cur + decodeImm19Offset inst))
  else if instIsCompareB inst then
    some (.word (invertedCompareB inst) :: farJumpItems (cur + decodeImm19Offset inst))
  else if instIsTestB inst then
    some (.word (invertedTestB inst) :: farJumpItems (cur + decodeImm14Offset inst))
  else
    some [.word inst]

theorem mov_render (is : List Item) (rd : BitVec 5) (v : BitVec 64) :
    (render is).mov rd v = render (is ++ movItems rd v) := by
  simp only [TurboAssembler.mov, TurboAssembler.movz, TurboAssembler.movk, emit_render, movItems,
    List.append_assoc, List.cons_append, List.nil_append]

theorem overFarJump_render (is : List Item) (w : BitVec 32) (dst : BitVec 64) :
    (render is).overFarJump w dst = render (is ++ .word w :: farJumpItems dst) := by
  have hlabels : (render is).dataLabels = (render (is ++ [.word w])).dataLabels := by
    rw [← emit_render]
    rfl
  have hswap : ((render is).appendRelocLabel (.new dst)).emit w =
      (render (is ++ [.word w])).appendRelocLabel (.new dst) := by
    rw [← emit_render]
    rfl
  rw [TurboAssembler.overFarJump, hswap, hlabels, ldrLabel_render, TurboAssembler.br,
    emit_render, List.append_assoc, List.append_assoc]
  rfl

/-- One round emits what its instruction becomes. -/
theorem reloInst_render (ndebug : Bool) (cur : BitVec 64) (inst : BitVec 32) (is : List Item) :
    reloInst ndebug cur inst (render is) =
      (reloItems ndebug cur inst).map fun js => render (is ++ js) := by
  rw [reloInst, reloItems]
  split
  next =>
    simp only [ldrLabel_render, TurboAssembler.blr, TurboAssembler.br, emit_render,
      List.append_assoc]
    split
    next => rfl
    next => rfl
  next =>
    split
    next =>
      simp only [mov_render, TurboAssembler.ldr, emit_render, List.append_assoc]
      split
      next => rfl
      next =>
        split
        next => rfl
        next =>
          split
          next => rfl
          next => rfl
    next =>
      simp only [mov_render, overFarJump_render, emit_render]
      repeat' split
      all_goals rfl

/-- What a block becomes. -/
def blockItems (ndebug : Bool) : BitVec 64 → List (BitVec 32) → Option (List Item)
  | _, [] => some []
  | cur, inst :: insts => do
      let is ← reloItems ndebug cur inst
      let js ← blockItems ndebug (cur + 4) insts
      some (is ++ js)

theorem reloLoop_render (ndebug : Bool) : ∀ (insts : List (BitVec 32)) (cur : BitVec 64)
    (is : List Item), reloLoop ndebug cur insts (render is) =
      (blockItems ndebug cur insts).map fun js => render (is ++ js)
  | [], cur, is => by rw [reloLoop, blockItems, Option.map_some, List.append_nil]
  | inst :: insts, cur, is => by
      rw [reloLoop, blockItems, reloInst_render]
      cases reloItems ndebug cur inst with
      | none => rfl
      | some js =>
          rw [Option.map_some, Option.bind_some, reloLoop_render ndebug insts]
          simp only [Option.bind_eq_bind, Option.bind_some]
          cases blockItems ndebug (cur + 4) insts with
          | none => rfl
          | some ks => rw [Option.map_some, Option.bind_some, Option.map_some, List.append_assoc]

/-- The words of the relocated code and the jump behind it: the literals are in
the second of two equal pools. -/
theorem genRelocateCodeAndBranch_eq (ndebug : Bool) (src : BitVec 64) (insts : List (BitVec 32)) :
    genRelocateCodeAndBranch ndebug src insts =
      (blockItems ndebug src insts).map fun is =>
        let all := is ++ farJumpItems (src + BitVec.ofNat 64 (4 * insts.length))
        linked (all.length + (pool all).length) 0 all ++ (pool all ++ pool all) := by
  have hempty : TurboAssembler.empty = render [] := rfl
  rw [genRelocateCodeAndBranch, genRelocateCode, hempty, reloLoop_render]
  cases blockItems ndebug src insts with
  | none => rfl
  | some is =>
      simp only [Option.map_some, List.nil_append, if_pos]
      rw [TurboAssembler.literalLdrBranch]
      simp only [ldrLabel_render, TurboAssembler.br, emit_render, relocBind_twice,
        List.append_assoc]
      rfl

end Dobby
