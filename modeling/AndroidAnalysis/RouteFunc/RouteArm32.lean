import AndroidAnalysis.Machine.Arm32
import AndroidAnalysis.RouteFunc.RouteArm64

/-!
# `route_jni_func` on 32-bit ARM

The listing of `route_func/asm/route_arm.asm`, and what a caller asks of it.  The
routine receives four register arguments and, on the stack, a count `argc`, the
address `stack_params_start` of that many words, and the function `pcall` to call
with all of them.

It is the routine of the other build with other widths, but for one thing: the
words are pushed through `sp` and not through a pointer of their own.

`Entry` is what a caller provides, as there.  `lo` is the lowest address of the
stack, and `frame` the number of bytes of it that `mod_for_asm` needs.
-/

namespace RouteFunc.Arm32

open Machine Machine.Arm32

/-! ## The listing -/

/-- The labels of the listing. -/
inductive Label
  | nopadding
  | loop
  | call
  | ret
deriving DecidableEq

/-- `route_jni_func`. -/
def routeJniFunc : List (Instr Label Func) := [
  .push [.r 4, .r 5, .r 7, .lr],
  .sub .sp .sp 0x10,
  .mov (.r 7) .sp,
  .str (.r 0) (.r 7) (0x10 - 0x4),
  .str (.r 1) (.r 7) (0x10 - 0x8),
  .str (.r 2) (.r 7) (0x10 - 0xc),
  .str (.r 3) (.r 7) (0x10 - 0x10),
  .ldr (.r 0) (.r 7) (0x10 + 0x10 + 0x0),
  .movImm (.r 1) 2,
  .bl .modForAsm,
  .cmp (.r 0) 0,
  .beq .nopadding,
  .movImm (.r 0) 0,
  .push [.r 0],
  .label .nopadding,
  .ldr (.r 0) (.r 7) (0x10 + 0x10 + 0x0),
  .ldr (.r 1) (.r 7) (0x10 + 0x10 + 0x4),
  .ldr (.r 4) (.r 7) (0x10 + 0x10 + 0x8),
  .sub (.r 0) (.r 0) 1,
  .lsl (.r 0) (.r 0) 2,
  .label .loop,
  .cmp (.r 0) 0,
  .blt .call,
  .ldrReg (.r 2) (.r 1) (.r 0),
  .push [.r 2],
  .sub (.r 0) (.r 0) 4,
  .b .loop,
  .label .call,
  .ldr (.r 0) (.r 7) (0x10 - 0x4),
  .ldr (.r 1) (.r 7) (0x10 - 0x8),
  .ldr (.r 2) (.r 7) (0x10 - 0xc),
  .ldr (.r 3) (.r 7) (0x10 - 0x10),
  .adr .lr .ret,
  .blx (.r 4),
  .label .ret,
  .mov .sp (.r 7),
  .add .sp .sp 0x10,
  .popPc [.r 4, .r 5, .r 7]]

/-- The position of `blx r4`. -/
def callPos : Nat := routeJniFunc.idxOf (.blx (.r 4))

/-! ## The arguments of a call -/

/-- The word count, at `[sp]` on entry. -/
def argc (s : State) : BitVec 32 := read32 s.mem s.spAddr

/-- The address of the words to forward, at `[sp, 4]` on entry. -/
def stackParamsStart (s : State) : BitVec 32 := read32 s.mem (s.spAddr + 4)

/-- The function to call, at `[sp, 8]` on entry. -/
def pcall (s : State) : BitVec 32 := read32 s.mem (s.spAddr + 8)

/-- The `i`-th word to forward. -/
def param (s : State) (i : Nat) : BitVec 32 :=
  read32 s.mem ((stackParamsStart s).toNat + 4 * i)

/-- What a caller of `route_jni_func` provides. -/
structure Entry (lo frame : Nat) (s : State) : Prop where
  /-- The stack pointer is aligned at a public interface. -/
  aligned : 8 ∣ s.spAddr
  /-- The three stack arguments lie below the top of the address space. -/
  argsTop : s.spAddr + 12 ≤ 2 ^ 32
  /-- `argc` is a count. -/
  nonneg : 0 ≤ (argc s).toInt
  /-- There is stack left for the saved registers, the padding and the words. -/
  room : lo + 0x24 + 4 * (argc s).toNat ≤ s.spAddr
  /-- There is stack left for the saved registers and `mod_for_asm`. -/
  modRoom : lo + 0x20 + frame ≤ s.spAddr
  /-- The words lie below the top of the address space. -/
  paramsTop : (stackParamsStart s).toNat + 4 * (argc s).toNat ≤ 2 ^ 32
  /-- The words do not lie in the free part of the stack. -/
  paramsOutside : argc s = 0 ∨ (stackParamsStart s).toNat + 4 * (argc s).toNat ≤ lo ∨
    s.spAddr ≤ (stackParamsStart s).toNat

/-- The states in which `mod_for_asm` may be called: the stack pointer is
aligned, there is stack for its frame, and `num % mod` is defined. -/
structure ModCall (lo frame : Nat) (s : State) : Prop where
  aligned : 8 ∣ s.spAddr
  room : lo + frame ≤ s.spAddr
  divisor : s.reg (.r 1) ≠ 0
  inRange : s.reg (.r 1) ≠ -1 ∨ s.reg (.r 0) ≠ BitVec.intMin 32

/-- `mod_for_asm` computes its result in `r0` and keeps what a callee keeps.
It may use the free part of the stack. -/
structure IsModForAsm (lo frame : Nat) (f : State → State) : Prop where
  result : ∀ s, ModCall lo frame s →
    (f s).reg (.r 0) = modForAsm (s.reg (.r 0)) (s.reg (.r 1))
  kept : ∀ s, ModCall lo frame s → Kept (outsideFree lo s) s (f s)

/-! ## What a call must do -/

/-- What the callee finds at `blx r4`: the caller's registers, an aligned stack,
and the words in order from the stack pointer up. -/
structure Forwarded (s b : State) : Prop where
  target : b.reg (.r 4) = pcall s
  regs : ∀ i : Fin 13, i.val < 4 → b.reg (.r i) = s.reg (.r i)
  aligned : 8 ∣ b.spAddr
  words : ∀ i, i < (argc s).toNat → read32 b.mem (b.spAddr + 4 * i) = param s i

/-- What the caller finds after the call: its stack pointer, `r4`, `r5` and `r7`,
and the callee's result. -/
structure Returned (s c r : State) : Prop where
  sp : r.reg .sp = s.reg .sp
  r4 : r.reg (.r 4) = s.reg (.r 4)
  r5 : r.reg (.r 5) = s.reg (.r 5)
  r7 : r.reg (.r 7) = s.reg (.r 7)
  result : r.reg (.r 0) = c.reg (.r 0)

/-- The state the callee starts in. -/
def calleeEntry (lk : Linkage Func) (b : State) : State := b.set .lr (lk.link callPos)

/-- The state the callee returns in. -/
def calleeExit (lk : Linkage Func) (b : State) : State :=
  lk.code (b.reg (.r 4)) (calleeEntry lk b)

/-- `route_jni_func`, entered in `s`, forwards the call: it gets to `blx r4` with
the call set up, and after a callee that keeps the stack pointer, the memory above
it and the saved registers it returns to the address `lr` had. -/
def Forwards (lk : Linkage Func) (s : State) : Prop :=
  ∃ b, RunsTo (step routeJniFunc lk) (atInstr routeJniFunc (.blx (.r 4))) (.pos 0, s)
      (.pos callPos, b) ∧
    Forwarded s b ∧
    (Kept (above b) (calleeEntry lk b) (calleeExit lk b) →
      ∃ r, RunsTo (step routeJniFunc lk) hasLeft (.pos callPos, b) (.left (s.reg .lr), r) ∧
        Returned s (calleeExit lk b) r)

end RouteFunc.Arm32
