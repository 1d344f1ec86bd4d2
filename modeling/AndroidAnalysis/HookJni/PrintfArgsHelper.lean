import AndroidAnalysis.HookJni.PrintfJavaArgs
import AndroidAnalysis.Machine.VaList

/-!
# `hook_jni/printf_args_helper.cpp` on arm64

The values a hook prints.  `get_args` finds an argument by one byte offset that
counts the general registers first and the stack words after them.  The offset
is a `uint64_t` in the loop and an `int` in `get_args`, so it is a bit vector
here and is narrowed where the source narrows it.

A traced value is the type it was read at and the word that is given to
`format_args`.  The texts `format_args` makes of it go to the log.
-/

namespace HookJni

open Cpp Machine

/-- What a hook receives: the general registers, and the address the stack
words begin at with the memory they are in. -/
structure HookArgs where
  x : Fin 8 → BitVec 64
  mem : Mem
  stackArgs : Nat

/-- The registers are numbered by numerals. -/
instance neZeroRegisters : NeZero 8 := ⟨by decide⟩

/-- The registers with `x0` replaced. -/
def HookArgs.withX0 (h : HookArgs) (x0 : BitVec 64) : Fin 8 → BitVec 64 :=
  fun i => if i = 0 then x0 else h.x i

/-- The types and words given to `format_args`. -/
abbrev Traced := List (Str × BitVec 64)

/-- `get_args<T>` with a `T` of `n` bytes.  An offset that no `case` has runs
off the end of the function. -/
def getArgs (n : Nat) (offset : Int) (h : HookArgs) : Except Fault (BitVec 64) :=
  if offset ≥ 8 * 8 then
    .ok ((readBytes h.mem (h.stackArgs + (offset - 8 * 8).toNat) n).setWidth 64)
  else
    match offset.tdiv 8 with
    | .ofNat k => if hk : k < 8 then .ok (((h.x ⟨k, hk⟩).setWidth (8 * n)).setWidth 64)
        else .error .undefined
    | .negSucc _ => .error .undefined

/-- The bytes read for a type: eight, and four in the other two branches. -/
def readSizeOn (b : Build) (argsType : Str) : Nat := if getArgsSizeOn b argsType = 8 then 8 else 4

/-- Those on arm64. -/
def readSize (argsType : Str) : Nat := readSizeOn .arm64 argsType

/-- The loop of `printf_java_func_args`, with the rounds that are left. -/
def printfJavaFuncArgsLoop (h : HookArgs) :
    Nat → List Str → BitVec 64 → Except Fault (Traced × BitVec 64)
  | 0, _, offset => .ok ([], offset)
  | _ + 1, [], _ => .error .undefined
  | n + 1, t :: ts, offset => do
      let value ← getArgs (readSize t) (offset.setWidth 32).toInt h
      let rest ← printfJavaFuncArgsLoop h n ts (offset + 8)
      .ok ((t, value) :: rest.1, rest.2)

/-- `printf_java_func_args`, with the offset it leaves behind. -/
def printfJavaFuncArgs (h : HookArgs) (offset : BitVec 64) (argsType : List Str)
    (argsCount : Int) : Except Fault (Traced × BitVec 64) :=
  if argsCount ≤ 0 then .ok ([], offset)
  else printfJavaFuncArgsLoop h argsCount.toNat argsType offset

/-- The loop of `printf_java_func_args_end_with_array`. -/
def vaArgLoop (m : Mem) : List Str → VaList → Traced
  | [], _ => []
  | t :: ts, ap =>
      let (value, ap') := vaArg m (readSize t) ap
      (t, value) :: vaArgLoop m ts ap'

/-- `printf_java_func_args_end_with_array`. -/
def printfJavaFuncArgsEndWithArray (h : HookArgs) (offset : BitVec 64) (argsType : List Str) :
    Except Fault Traced :=
  if argsType.length = 0 then .ok []
  else do
    let pva ← getArgs 8 (offset.setWidth 32).toInt h
    .ok (vaArgLoop h.mem argsType (readVaList h.mem pva.toNat))

/-! ## The loop in closed form -/

/-- The word of a slot: the registers first and the stack words after them. -/
def HookArgs.slot (h : HookArgs) (k : Nat) : BitVec 64 :=
  if hk : k < 8 then h.x ⟨k, hk⟩ else read64 h.mem (h.stackArgs + 8 * (k - 8))

/-- A word cut to `n` bytes. -/
def cut (n : Nat) (w : BitVec 64) : BitVec 64 := (w.setWidth (8 * n)).setWidth 64

/-- `get_args` at the offset of a slot. -/
theorem getArgs_slot {n : Nat} (hn : n ≤ 8) (h : HookArgs) (k : Nat) :
    getArgs n (8 * k : Nat) h = .ok (cut n (h.slot k)) := by
  rw [getArgs, HookArgs.slot]
  cases Nat.lt_or_ge k 8 with
  | inl hk =>
      have hdiv : ((8 * k : Nat) : Int).tdiv 8 = .ofNat k := by
        rw [Int.natCast_tdiv_eq_ediv]
        show _ = (k : Int)
        omega
      rw [if_neg (by omega), hdiv, dif_pos hk]
      exact dif_pos hk
  | inr hk =>
      have haddr : (((8 * k : Nat) : Int) - 8 * 8).toNat = 8 * (k - 8) := by omega
      rw [if_pos (by omega), haddr, dif_neg (by omega), cut, read64, readBytes_setWidth _ _ hn]

/-- `get_args` past the largest `int` that is a slot's offset. -/
theorem getArgs_neg {n : Nat} (h : HookArgs) {offset : Int} (ho : offset ≤ -8) :
    getArgs n offset h = .error .undefined := by
  have hdiv : offset.tdiv 8 < 0 := by
    obtain ⟨m, hm, hm8⟩ : ∃ m : Nat, offset = -(m : Int) ∧ 8 ≤ m :=
      ⟨(-offset).toNat, by omega, by omega⟩
    rw [hm, Int.neg_tdiv, show (m : Int).tdiv 8 = ((m / 8 : Nat) : Int) from rfl]
    omega
  rw [getArgs, if_neg (by omega)]
  cases hd : offset.tdiv 8 with
  | ofNat k => rw [hd] at hdiv; exact absurd hdiv (by simp)
  | negSucc k => rfl

/-- The offset of a slot. -/
def slotOffset (k : Nat) : BitVec 64 := BitVec.ofNat 64 (8 * k)

theorem slotOffset_succ (k : Nat) : slotOffset k + 8 = slotOffset (k + 1) := by
  rw [slotOffset, slotOffset, Nat.mul_succ, BitVec.ofNat_add]
  rfl

/-- The offset of a slot is kept by the conversion to `int` below `2^31`. -/
theorem toInt_slotOffset {k : Nat} (hk : k < 2 ^ 28) :
    ((slotOffset k).setWidth 32).toInt = (8 * k : Nat) := by
  have hnat : ((slotOffset k).setWidth 32).toNat = 8 * k := by
    rw [slotOffset, BitVec.toNat_setWidth, BitVec.toNat_ofNat]
    omega
  rw [BitVec.toInt_eq_toNat_of_lt (by rw [hnat]; omega), hnat]

/-- The first offset that the conversion makes negative. -/
theorem toInt_slotOffset_top : ((slotOffset (2 ^ 28)).setWidth 32).toInt = -2 ^ 31 := by
  decide

theorem readSizeOn_cases (b : Build) (t : Str) : readSizeOn b t = 8 ∨ readSizeOn b t = 4 := by
  rw [readSizeOn]
  split
  next => exact .inl rfl
  next => exact .inr rfl

theorem readSize_le (t : Str) : readSize t ≤ 8 := by
  rcases readSizeOn_cases .arm64 t with h | h
  · exact h.le
  · exact h.le.trans (by decide)

/-- The values of the slots from `k` on. -/
def tracedFrom (h : HookArgs) : Nat → List Str → Traced
  | _, [] => []
  | k, t :: ts => (t, cut (readSize t) (h.slot k)) :: tracedFrom h (k + 1) ts

/-- The loop reads one slot after the other. -/
theorem printfJavaFuncArgsLoop_ok (h : HookArgs) {n k : Nat} {ts : List Str} (hn : n ≤ ts.length)
    (hk : k + n ≤ 2 ^ 28) : printfJavaFuncArgsLoop h n ts (slotOffset k) =
      .ok (tracedFrom h k (ts.take n), slotOffset (k + n)) := by
  induction n generalizing k ts with
  | zero => rfl
  | succ n ih =>
      cases ts with
      | nil => exact absurd hn (Nat.not_succ_le_zero n)
      | cons t ts =>
          rw [printfJavaFuncArgsLoop, toInt_slotOffset (by omega), getArgs_slot (readSize_le t),
            ok_bind, slotOffset_succ, ih (Nat.le_of_succ_le_succ hn) (by omega), ok_bind,
            Nat.add_right_comm]
          rfl

/-- The loop is undefined when a slot's offset is no `int`. -/
theorem printfJavaFuncArgsLoop_error (h : HookArgs) {n k : Nat} {ts : List Str}
    (hn : n ≤ ts.length) (hk : k ≤ 2 ^ 28) (hover : 2 ^ 28 < k + n) :
    printfJavaFuncArgsLoop h n ts (slotOffset k) = .error .undefined := by
  induction n generalizing k ts with
  | zero => omega
  | succ n ih =>
      cases ts with
      | nil => exact absurd hn (Nat.not_succ_le_zero n)
      | cons t ts =>
          rw [printfJavaFuncArgsLoop]
          cases Nat.lt_or_eq_of_le hk with
          | inl hlt =>
              rw [toInt_slotOffset hlt, getArgs_slot (readSize_le t), ok_bind, slotOffset_succ,
                ih (Nat.le_of_succ_le_succ hn) (by omega) (by omega)]
              rfl
          | inr heq =>
              rw [heq, toInt_slotOffset_top, getArgs_neg h (by decide)]
              rfl

/-- All arguments, or none when an offset is no `int`. -/
theorem printfJavaFuncArgs_eq (h : HookArgs) {k : Nat} (hk : k ≤ 2 ^ 28) (ts : List Str) :
    printfJavaFuncArgs h (slotOffset k) ts ts.length =
      if k + ts.length ≤ 2 ^ 28 then .ok (tracedFrom h k ts, slotOffset (k + ts.length))
      else .error .undefined := by
  rw [printfJavaFuncArgs]
  cases ts with
  | nil => exact (if_pos hk).symm
  | cons t ts =>
      rw [if_neg (by rw [List.length_cons]; omega), Int.toNat_natCast]
      split
      next hle => rw [printfJavaFuncArgsLoop_ok h (Nat.le_refl _) hle, List.take_length]
      next hgt => exact printfJavaFuncArgsLoop_error h (Nat.le_refl _) hk (by omega)

/-- The value of each argument. -/
theorem getElem?_tracedFrom (h : HookArgs) (k : Nat) (ts : List Str) (i : Nat) :
    (tracedFrom h k ts)[i]? = ts[i]?.map fun t => (t, cut (readSize t) (h.slot (k + i))) := by
  induction ts generalizing k i with
  | nil => rfl
  | cons t ts ih =>
      cases i with
      | zero => rfl
      | succ i =>
          rw [tracedFrom, List.getElem?_cons_succ, List.getElem?_cons_succ, ih, Nat.add_right_comm]
          rfl

end HookJni
