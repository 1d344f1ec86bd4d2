import AndroidAnalysis.Cpp.Int
import AndroidAnalysis.Machine.Memory

/-!
# `create_shellcode_hooking_func`

The trampoline of `route_func/route_func.cpp` on both builds: a block from the
heap, a copy of fixed code in it, and the two pointers of the hook patched into
the immediates of that code.  Then the block is made executable.

The patchers take an instruction word apart with the macros of `route_func.h`
and put it together again.  `movkPatched_eq` and `movPatched_eq` say which
fields of the word they replace.
-/

namespace RouteFunc

open Machine Cpp

/-! ## The macros of `route_func.h` -/

/-- `ALIGN_FLOOR` -/
def alignFloor {w : Nat} (address range : BitVec w) : BitVec w := address &&& ~~~(range - 1)

/-- `MAKE_1BIT` for a type of `w` bits. -/
def make1Bit (w x : Nat) : BitVec w := BitVec.allOnes w >>> (w - x)

/-- `GET_BIT` for a type of `w` bits. -/
def getBit {k : Nat} (w : Nat) (b : BitVec k) (offset size : Nat) : BitVec w :=
  b.setWidth w >>> offset &&& make1Bit w size

theorem getLsbD_make1Bit {w x i : Nat} (h : x ≤ w) :
    (make1Bit w x).getLsbD i = decide (i < x) := by
  rw [make1Bit, BitVec.getLsbD_ushiftRight, BitVec.getLsbD_allOnes, decide_eq_decide]
  omega

/-- A bit of a field is a bit of the word. -/
theorem getLsbD_getBit {k w : Nat} (b : BitVec k) {offset size i : Nat} (h : offset + size ≤ w) :
    (getBit w b offset size).getLsbD i = (decide (i < size) && b.getLsbD (offset + i)) := by
  rw [getBit, BitVec.getLsbD_and, BitVec.getLsbD_ushiftRight, BitVec.getLsbD_setWidth,
    getLsbD_make1Bit (by omega), Bool.and_comm]
  by_cases hi : i < size
  · rw [decide_eq_true hi, decide_eq_true (by omega : offset + i < w), Bool.true_and]
  · rw [decide_eq_false hi, Bool.false_and, Bool.false_and]

/-- Sixteen bits of a pointer, as the macro takes them. -/
theorem getBit_halfword {w : Nat} (p : BitVec w) {k : Nat} (h : k + 16 ≤ w) :
    (getBit w p k 16).setWidth 16 = p.extractLsb' k 16 := by
  apply BitVec.eq_of_getLsbD_eq
  intro i hi
  rw [BitVec.getLsbD_setWidth, getLsbD_getBit p h, BitVec.getLsbD_extractLsb', decide_eq_true hi,
    Bool.true_and]

/-- The bits of a pointer. -/
def ptrBits : Build → Nat
  | .arm32 => 32
  | .arm64 => 64

/-- A call of `mprotect` with `PROT_READ | PROT_WRITE | PROT_EXEC`: the pages
from `start` on, `length` bytes. -/
structure Protect where
  start : Nat
  length : Nat
deriving DecidableEq

/-- `SET_MEMORY_PROTECT`, with what `sysconf(_SC_PAGESIZE)` returns. -/
def setMemoryProtect {w : Nat} (pageSize : Nat) (addr : BitVec w) : Protect :=
  { start := (alignFloor addr (BitVec.ofNat w pageSize)).toNat
    length := pageSize }

/-! ## The code that is copied -/

/-- `shellcode_hooking_func` -/
def shellcodeHookingFunc : Build → List (BitVec 8)
  | .arm64 => [
      0xFD, 0x7B, 0xBF, 0xA9, 0xE8, 0x27, 0xBF, 0xA9, 0x88, 0x88,
      0x88, 0xF2, 0x68, 0x66, 0xA6, 0xF2, 0x48, 0x44, 0xC4, 0xF2,
      0x28, 0x22, 0xE2, 0xF2, 0xE9, 0x83, 0, 0x91, 0xFE, 0x7B, 0xBF,
      0xA9, 0xE8, 0x27, 0xBF, 0xA9, 0x88, 0x88, 0x88, 0xF2, 0x68,
      0x66, 0xA6, 0xF2, 0x48, 0x44, 0xC4, 0xF2, 0x28, 0x22, 0xE2,
      0xF2, 0, 1, 0x3F, 0xD6, 0xFF, 0x83, 0, 0x91, 0xE8, 0x27, 0xC1,
      0xA8, 0xFD, 0x7B, 0xC1, 0xA8, 0xC0, 3, 0x5F, 0xD6]
  | .arm32 => [
      0x70, 0x40, 0x2D, 0xE9, 0x78, 0x46, 5, 0xE3, 0x34,
      0x42, 0x41, 0xE3, 0x10, 0x50, 0x8D, 0xE2, 0x30, 0,
      0x2D, 0xE9, 0x78, 0x46, 5, 0xE3, 0x34, 0x42, 0x41,
      0xE3, 0x34, 0xFF, 0x2F, 0xE1, 8, 0xD0, 0x8D, 0xE2,
      0x70, 0x80, 0xBD, 0xE8]

/-- `sizeof(shellcode_hooking_func)` -/
def shellcodeSize (b : Build) : Nat := (shellcodeHookingFunc b).length

/-! ## The patchers -/

/-- The word `patch_movk` leaves. -/
def movkPatched (refPmovk : BitVec 32) (num : BitVec 16) : BitVec 32 :=
  let patchDate := num.setWidth 32
  let low5 := getBit 32 refPmovk 0 5
  let hi10 := getBit 32 refPmovk 21 11
  hi10 <<< 21 ||| patchDate <<< 5 ||| low5

/-- `patch_movk` -/
def patchMovk (m : Mem) (pmovk : Nat) (num : BitVec 16) : Mem :=
  let refPmovk := read32 m pmovk
  let m := write32 m pmovk 0
  write32 m pmovk (movkPatched refPmovk num)

/-- The word `patch_mov` leaves. -/
def movPatched (refPmov : BitVec 32) (num : BitVec 16) : BitVec 32 :=
  let patchDateLow12 := (getBit 16 num 0 12).setWidth 32
  let patchDateHi4 := (getBit 16 num 12 4).setWidth 32
  let hi20 := refPmov >>> 20
  let rd := getBit 32 refPmov 12 4
  hi20 <<< 20 ||| patchDateHi4 <<< 16 ||| rd <<< 12 ||| patchDateLow12

/-- `patch_mov` -/
def patchMov (m : Mem) (pmov : Nat) (num : BitVec 16) : Mem :=
  let refPmov := read32 m pmov
  let m := write32 m pmov 0
  write32 m pmov (movPatched refPmov num)

/-- `patch_movk` replaces the immediate, which lies between two other fields. -/
theorem movkPatched_eq (r : BitVec 32) (num : BitVec 16) :
    movkPatched r num = r.extractLsb' 21 11 ++ num ++ r.extractLsb' 0 5 := by
  apply BitVec.eq_of_getLsbD_eq
  intro i hi
  simp only [movkPatched, BitVec.getLsbD_or, BitVec.getLsbD_shiftLeft, BitVec.getLsbD_setWidth,
    BitVec.getLsbD_append, BitVec.getLsbD_extractLsb']
  rw [getLsbD_getBit r (by decide), getLsbD_getBit r (by decide)]
  rcases Nat.lt_or_ge i 5 with h5 | h5
  · simp [h5, hi]
    omega
  · rcases Nat.lt_or_ge i 21 with h21 | h21
    · simp [hi, h21, Nat.not_lt.mpr h5, show i - 5 < 16 by omega, show i - 5 < 32 by omega]
    · have htop : num.getLsbD (i - 5) = false := BitVec.getLsbD_of_ge num (i - 5) (by omega)
      simp [hi, Nat.not_lt.mpr h5, Nat.not_lt.mpr h21, show ¬ i - 5 < 16 by omega, Nat.sub_sub,
        htop]

/-- `patch_mov` replaces the two parts of the immediate, around the register. -/
theorem movPatched_eq (r : BitVec 32) (num : BitVec 16) :
    movPatched r num = r.extractLsb' 20 12 ++ num.extractLsb' 12 4 ++ r.extractLsb' 12 4 ++
      num.extractLsb' 0 12 := by
  apply BitVec.eq_of_getLsbD_eq
  intro i hi
  simp only [movPatched, BitVec.getLsbD_or, BitVec.getLsbD_shiftLeft, BitVec.getLsbD_setWidth,
    BitVec.getLsbD_append, BitVec.getLsbD_extractLsb', BitVec.getLsbD_ushiftRight]
  rw [getLsbD_getBit r (by decide), getLsbD_getBit num (by decide), getLsbD_getBit num (by decide)]
  rcases Nat.lt_or_ge i 12 with h12 | h12
  · simp [hi, h12, show i < 16 by omega, show i < 20 by omega]
  · rcases Nat.lt_or_ge i 16 with h16 | h16
    · simp [hi, Nat.not_lt.mpr h12, h16, show i - 12 < 4 by omega, show i < 20 by omega]
    · rcases Nat.lt_or_ge i 20 with h20 | h20
      · simp [hi, Nat.not_lt.mpr h12, Nat.not_lt.mpr h16, h20, Nat.sub_sub,
          show ¬ i - 12 < 4 by omega, show i - 16 < 4 by omega, show i - 16 < 32 by omega]
      · simp [hi, Nat.not_lt.mpr h12, Nat.not_lt.mpr h16, Nat.not_lt.mpr h20, Nat.sub_sub,
          show ¬ i - 12 < 4 by omega, show ¬ i - 16 < 4 by omega, show i - 20 < 12 by omega]

section

variable (m : Mem) {a p : Nat} (num : BitVec 16)

theorem read32_patchMovk_same (p : Nat) :
    read32 (patchMovk m p num) p = movkPatched (read32 m p) num := read32_write32_same _ _ _

theorem read32_patchMovk_of_disjoint (h : a + 4 ≤ p ∨ p + 4 ≤ a) :
    read32 (patchMovk m p num) a = read32 m a := by
  rw [patchMovk, read32_write32_of_disjoint _ _ h, read32_write32_of_disjoint _ _ h]

theorem read32_patchMov_same (p : Nat) :
    read32 (patchMov m p num) p = movPatched (read32 m p) num := read32_write32_same _ _ _

theorem read32_patchMov_of_disjoint (h : a + 4 ≤ p ∨ p + 4 ≤ a) :
    read32 (patchMov m p num) a = read32 m a := by
  rw [patchMov, read32_write32_of_disjoint _ _ h, read32_write32_of_disjoint _ _ h]

end

/-! ## The function -/

/-- Memory, and the calls of `mprotect` so far. -/
structure World where
  mem : Mem
  protects : List Protect

/-- The block of `create_shellcode_hooking_func` on arm64. -/
def shellCode64 (newPfunc context : BitVec 64) (shellCode : Nat) (m : Mem) : Mem :=
  let m := memcpy m shellCode (shellcodeHookingFunc .arm64)
  -- context
  let m := patchMovk m (shellCode + 8) ((getBit 64 context 0 16).setWidth 16)
  let m := patchMovk m (shellCode + 12) ((getBit 64 context 16 16).setWidth 16)
  let m := patchMovk m (shellCode + 16) ((getBit 64 context 32 16).setWidth 16)
  let m := patchMovk m (shellCode + 20) ((getBit 64 context 48 16).setWidth 16)
  -- new_pfunc
  let m := patchMovk m (shellCode + 36) ((getBit 64 newPfunc 0 16).setWidth 16)
  let m := patchMovk m (shellCode + 40) ((getBit 64 newPfunc 16 16).setWidth 16)
  let m := patchMovk m (shellCode + 44) ((getBit 64 newPfunc 32 16).setWidth 16)
  patchMovk m (shellCode + 48) ((getBit 64 newPfunc 48 16).setWidth 16)

/-- The block of `create_shellcode_hooking_func` on 32-bit ARM. -/
def shellCode32 (newPfunc context : BitVec 32) (shellCode : Nat) (m : Mem) : Mem :=
  let m := memcpy m shellCode (shellcodeHookingFunc .arm32)
  -- context
  let m := patchMov m (shellCode + 4) ((getBit 32 context 0 16).setWidth 16)
  let m := patchMov m (shellCode + 8) ((getBit 32 context 16 16).setWidth 16)
  -- new_pfunc
  let m := patchMov m (shellCode + 20) ((getBit 32 newPfunc 0 16).setWidth 16)
  patchMov m (shellCode + 24) ((getBit 32 newPfunc 16 16).setWidth 16)

/-- What `create_shellcode_hooking_func` puts in the block. -/
def shellCodeMem : (b : Build) → (newPfunc context : BitVec (ptrBits b)) → Nat → Mem → Mem
  | .arm64 => shellCode64
  | .arm32 => shellCode32

/-- `create_shellcode_hooking_func`, with the address the allocator returns. -/
def createShellcodeHookingFunc (b : Build) (pageSize : Nat)
    (newPfunc context shellCode : BitVec (ptrBits b)) (w : World) : World :=
  { mem := shellCodeMem b newPfunc context shellCode.toNat w.mem
    protects := w.protects ++ [setMemoryProtect pageSize shellCode] }

end RouteFunc
