import AndroidAnalysis.Machine.Aapcs64

/-!
# `route_jni_func` on arm64

The listing of `route_func/asm64/route_arm64.asm`, and what a caller asks of
it.  The routine receives eight register arguments and, on the stack, a count
`argc`, the address `stack_params_start` of that many doublewords, and the
function `pcall` to call with all of them.

A caller gives it a stack aligned as the procedure call standard says, the
three stack arguments, and words to forward that do not lie in the free part
of the stack, which the routine writes.  `Entry` collects this.  `lo` is the
lowest address of the stack, and `frame` the number of bytes of it that
`mod_for_asm` needs.
-/

namespace RouteFunc

open Machine Machine.Arm64 Machine.Aapcs64

/-! ## The listing -/

/-- The labels of the listing. -/
inductive Label
  | nopadding
  | loop
  | call
  | ret
deriving DecidableEq

/-- The functions the listing calls by name. -/
inductive Func
  | modForAsm
deriving DecidableEq

/-- `route_jni_func`. -/
def routeJniFunc : List (Instr Label Func) := [
  .stpPre (.x 19) (.x 30) .sp (-0x10),
  .sub .sp .sp 0x40,
  .mov (.x 19) .sp,
  .str (.x 0) (.x 19) (0x40 - 0x8),
  .str (.x 1) (.x 19) (0x40 - 0x10),
  .str (.x 2) (.x 19) (0x40 - 0x18),
  .str (.x 3) (.x 19) (0x40 - 0x20),
  .str (.x 4) (.x 19) (0x40 - 0x28),
  .str (.x 5) (.x 19) (0x40 - 0x30),
  .str (.x 6) (.x 19) (0x40 - 0x38),
  .str (.x 7) (.x 19) (0x40 - 0x40),
  .ldr (.x 0) (.x 19) (0x40 + 0x10 + 0x0),
  .movImm (.x 1) 2,
  .bl .modForAsm,
  .cmpW (.x 0) 0,
  .beq .nopadding,
  .movImm (.x 0) 0,
  .str (.x 0) .sp (0 - 0x8),
  .sub .sp .sp 8,
  .label .nopadding,
  .ldr (.x 0) (.x 19) (0x40 + 0x10 + 0x0),
  .ldr (.x 1) (.x 19) (0x40 + 0x10 + 0x8),
  .ldr (.x 9) (.x 19) (0x40 + 0x10 + 0x10),
  .sub (.x 0) (.x 0) 1,
  .lsl (.x 0) (.x 0) 3,
  .mov (.x 10) (.x 19),
  .label .loop,
  .cmp (.x 0) 0,
  .blt .call,
  .ldrReg (.x 2) (.x 1) (.x 0),
  .sub (.x 10) (.x 10) 8,
  .sub .sp .sp 8,
  .str (.x 2) (.x 10) 0,
  .sub (.x 0) (.x 0) 8,
  .b .loop,
  .label .call,
  .ldr (.x 0) (.x 19) (0x40 - 0x8),
  .ldr (.x 1) (.x 19) (0x40 - 0x10),
  .ldr (.x 2) (.x 19) (0x40 - 0x18),
  .ldr (.x 3) (.x 19) (0x40 - 0x20),
  .ldr (.x 4) (.x 19) (0x40 - 0x28),
  .ldr (.x 5) (.x 19) (0x40 - 0x30),
  .ldr (.x 6) (.x 19) (0x40 - 0x38),
  .ldr (.x 7) (.x 19) (0x40 - 0x40),
  .blr (.x 9),
  .label .ret,
  .mov .sp (.x 19),
  .add .sp .sp 0x40,
  .ldpPost (.x 19) (.x 30) .sp 0x10,
  .ret]

/-- The position of `blr x9`. -/
def callPos : Nat := routeJniFunc.idxOf (.blr (.x 9))

/-- The position of the final `ret`. -/
def retPos : Nat := routeJniFunc.idxOf .ret

/-- The result of `mod_for_asm`: `num % mod` on `int32_t`. -/
def modForAsm (num mod : BitVec 32) : BitVec 32 := num.srem mod

/-! ## The arguments of a call -/

/-- The word count, at `[sp]` on entry. -/
def argc (s : State) : BitVec 64 := read64 s.mem s.spAddr

/-- The address of the words to forward, at `[sp, 8]` on entry. -/
def stackParamsStart (s : State) : BitVec 64 := read64 s.mem (s.spAddr + 8)

/-- The function to call, at `[sp, 16]` on entry. -/
def pcall (s : State) : BitVec 64 := read64 s.mem (s.spAddr + 16)

/-- The `i`-th word to forward. -/
def param (s : State) (i : Nat) : BitVec 64 :=
  read64 s.mem ((stackParamsStart s).toNat + 8 * i)

/-- What a caller of `route_jni_func` provides. -/
structure Entry (lo frame : Nat) (s : State) : Prop where
  /-- The stack pointer is aligned at a public interface. -/
  aligned : 16 ∣ s.spAddr
  /-- The three stack arguments lie below the top of the address space. -/
  argsTop : s.spAddr + 24 ≤ 2 ^ 64
  /-- `argc` is a count. -/
  nonneg : 0 ≤ (argc s).toInt
  /-- There is stack left for the saved registers, the padding and the words. -/
  room : lo + 0x58 + 8 * (argc s).toNat ≤ s.spAddr
  /-- There is stack left for the saved registers and `mod_for_asm`. -/
  modRoom : lo + 0x50 + frame ≤ s.spAddr
  /-- The words lie below the top of the address space. -/
  paramsTop : (stackParamsStart s).toNat + 8 * (argc s).toNat ≤ 2 ^ 64
  /-- The words do not lie in the free part of the stack. -/
  paramsOutside : argc s = 0 ∨ (stackParamsStart s).toNat + 8 * (argc s).toNat ≤ lo ∨
    s.spAddr ≤ (stackParamsStart s).toNat

/-- The states in which `mod_for_asm` may be called: the stack pointer is
aligned, there is stack for its frame, and `num % mod` is defined. -/
structure ModCall (lo frame : Nat) (s : State) : Prop where
  aligned : 16 ∣ s.spAddr
  room : lo + frame ≤ s.spAddr
  divisor : (s.reg (.x 1)).setWidth 32 ≠ (0 : BitVec 32)
  inRange : (s.reg (.x 1)).setWidth 32 ≠ (-1 : BitVec 32) ∨
    (s.reg (.x 0)).setWidth 32 ≠ BitVec.intMin 32

/-- `mod_for_asm` computes its result in `w0` and keeps what a callee keeps.
It may use the free part of the stack. -/
structure IsModForAsm (lo frame : Nat) (f : State → State) : Prop where
  result : ∀ s, ModCall lo frame s → ((f s).reg (.x 0)).setWidth 32 =
    modForAsm ((s.reg (.x 0)).setWidth 32) ((s.reg (.x 1)).setWidth 32)
  kept : ∀ s, ModCall lo frame s → Kept (outsideFree lo s) s (f s)

/-! ## What a call must do -/

/-- What the callee finds at `blr x9`: the caller's registers, an aligned
stack, and the words in order from the stack pointer up. -/
structure Forwarded (s b : State) : Prop where
  target : b.reg (.x 9) = pcall s
  regs : ∀ i : Fin 31, i.val < 8 → b.reg (.x i) = s.reg (.x i)
  aligned : 16 ∣ b.spAddr
  words : ∀ i, i < (argc s).toNat → read64 b.mem (b.spAddr + 8 * i) = param s i

/-- What the caller finds after the call: its stack pointer, `x19` and `x30`,
and the callee's result. -/
structure Returned (s c r : State) : Prop where
  sp : r.reg .sp = s.reg .sp
  x19 : r.reg (.x 19) = s.reg (.x 19)
  x30 : r.reg (.x 30) = s.reg (.x 30)
  result : r.reg (.x 0) = c.reg (.x 0)

/-- The state the callee starts in. -/
def calleeEntry (lk : Linkage Func) (b : State) : State := b.set (.x 30) (lk.link callPos)

/-- The state the callee returns in. -/
def calleeExit (lk : Linkage Func) (b : State) : State :=
  lk.code (b.reg (.x 9)) (calleeEntry lk b)

/-- `route_jni_func`, entered in `s`, forwards the call: it gets to `blr x9`
with the call set up, and after a callee that keeps the stack pointer, the
memory above it and the saved registers it returns. -/
def Forwards (lk : Linkage Func) (s : State) : Prop :=
  ∃ b, RunsTo (step routeJniFunc lk) (atInstr routeJniFunc (.blr (.x 9))) (0, s) (callPos, b) ∧
    Forwarded s b ∧
    (Kept (above b) (calleeEntry lk b) (calleeExit lk b) →
      ∃ r, RunsTo (step routeJniFunc lk) (atInstr routeJniFunc .ret) (callPos, b) (retPos, r) ∧
        Returned s (calleeExit lk b) r)

end RouteFunc
