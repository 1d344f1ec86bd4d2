import AndroidAnalysis.Machine.Aapcs64
import AndroidAnalysis.Machine.Arm64Code
import AndroidAnalysis.RouteFunc.CreateShellcode
import Mathlib.Tactic.IntervalCases

/-!
# The trampoline on arm64

What `create_shellcode_hooking_func` writes is, word by word, the listing of
`route_func/asm64/hooking64.asm` with the two pointers in its `movk`
instructions (`decodeAt_shellCode64`).

The listing pushes eight doublewords, so its stack reaches from the entry stack
pointer down to the one of the callee.  `slot` numbers them from the top.
Addresses wrap around, and slots are apart all the same (`slot_disjoint`), so
nothing is asked of the stack pointer.
-/

namespace RouteFunc

open Machine Machine.Arm64 Machine.Aapcs64 Cpp

/-! ## The code -/

/-- `hooking_func`, with the pointers in place of the numbers in its text. -/
def hookingFunc (newPfunc context : BitVec 64) : List (Instr Empty Empty) := [
  .stpPre (.x 29) (.x 30) .sp (-0x10),
  .stpPre (.x 8) (.x 9) .sp (-0x10),
  .movk (.x 8) (context.extractLsb' 0 16) 0,
  .movk (.x 8) (context.extractLsb' 16 16) 16,
  .movk (.x 8) (context.extractLsb' 32 16) 32,
  .movk (.x 8) (context.extractLsb' 48 16) 48,
  .add (.x 9) .sp 0x20,
  .stpPre (.x 30) (.x 30) .sp (-0x10),
  .stpPre (.x 8) (.x 9) .sp (-0x10),
  .movk (.x 8) (newPfunc.extractLsb' 0 16) 0,
  .movk (.x 8) (newPfunc.extractLsb' 16 16) 16,
  .movk (.x 8) (newPfunc.extractLsb' 32 16) 32,
  .movk (.x 8) (newPfunc.extractLsb' 48 16) 48,
  .blr (.x 8),
  .add .sp .sp 0x20,
  .ldpPost (.x 8) (.x 9) .sp 0x10,
  .ldpPost (.x 29) (.x 30) .sp 0x10,
  .ret]

/-- Patching a `movk` gives the `movk` of the number. -/
theorem movkPatched_movkWord (hw : BitVec 2) (old num : BitVec 16) (rd : BitVec 5) :
    movkPatched (movkWord hw old rd) num = movkWord hw num rd := by
  have hhigh : (movkWord hw old rd).extractLsb' 21 11 = 0b111100101#9 ++ hw := by
    rw [movkWord, BitVec.extractLsb'_append_eq_of_le (by decide)]
    exact BitVec.extractLsb'_append_eq_left
  rw [movkPatched_eq, hhigh, movkWord_rd]
  rfl

section

variable (newPfunc context : BitVec 64) (a : Nat) (m : Mem)

/-- A word of the copied code. -/
theorem read32_copied {i : Nat} (hi : i < 18) :
    read32 (memcpy m a (shellcodeHookingFunc .arm64)) (a + 4 * i) =
      read32 (Mem.ofBytes (shellcodeHookingFunc .arm64)) (4 * i) := by
  refine readBytes_memcpy m a ?_
  simp only [shellcodeHookingFunc, List.length_cons, List.length_nil]
  omega

/-- A word of the block that is not patched is that of the code. -/
theorem read32_shellCode64 {i : Nat} (hi : i < 18) (hctx : i < 2 ∨ 6 ≤ i)
    (hnew : i < 9 ∨ 13 ≤ i) :
    read32 (shellCode64 newPfunc context a m) (a + 4 * i) =
      read32 (Mem.ofBytes (shellcodeHookingFunc .arm64)) (4 * i) := by
  rw [shellCode64]
  iterate 8 rw [read32_patchMovk_of_disjoint _ _ (by omega)]
  exact read32_copied a m hi

/-- The words that are patched are `movk` instructions for `x8`. -/
theorem copied_movk {j k : Nat} (hj : j = 2 ∨ j = 9) (hk : k < 4) :
    ∃ old, read32 (memcpy m a (shellcodeHookingFunc .arm64)) (a + 4 * (j + k)) =
      movkWord (BitVec.ofNat 2 k) old 8 := by
  rw [read32_copied a m (by omega)]
  rcases hj with rfl | rfl
  · interval_cases k
    · exact ⟨0x4444, by decide⟩
    · exact ⟨0x3333, by decide⟩
    · exact ⟨0x2222, by decide⟩
    · exact ⟨0x1111, by decide⟩
  · interval_cases k
    · exact ⟨0x4444, by decide⟩
    · exact ⟨0x3333, by decide⟩
    · exact ⟨0x2222, by decide⟩
    · exact ⟨0x1111, by decide⟩

/-- The words that load a pointer. -/
theorem read32_shellCode64_movk {p : BitVec 64} {j k : Nat}
    (hj : j = 2 ∧ p = context ∨ j = 9 ∧ p = newPfunc) (hk : k < 4) :
    read32 (shellCode64 newPfunc context a m) (a + 4 * (j + k)) =
      movkWord (BitVec.ofNat 2 k) (p.extractLsb' (16 * k) 16) 8 := by
  obtain ⟨old, hold⟩ := copied_movk a m (hj.imp And.left And.left) hk
  rw [← movkPatched_movkWord _ old, ← hold, shellCode64]
  rcases hj with ⟨rfl, rfl⟩ | ⟨rfl, rfl⟩
  · interval_cases k <;>
      simp (disch := omega) only [Nat.reduceAdd, Nat.reduceMul, read32_patchMovk_of_disjoint,
        read32_patchMovk_same, getBit_halfword]
  · interval_cases k <;>
      simp (disch := omega) only [Nat.reduceAdd, Nat.reduceMul, read32_patchMovk_of_disjoint,
        read32_patchMovk_same, getBit_halfword]

/-- The block holds the listing. -/
theorem decodeAt_shellCode64 :
    decodeAt (shellCode64 newPfunc context a m) a 18 = some (hookingFunc newPfunc context) := by
  show decodeAt _ a (hookingFunc newPfunc context).length = _
  refine decodeAt_eq_some fun i hi => ?_
  replace hi : i < 18 := hi
  by_cases hctx : 2 ≤ i ∧ i < 6
  · obtain ⟨k, rfl⟩ := Nat.exists_eq_add_of_le hctx.1
    have hk : k < 4 := by omega
    rw [read32_shellCode64_movk newPfunc context a m (Or.inl ⟨rfl, rfl⟩) hk,
      decode_movkWord _ _ (by decide)]
    interval_cases k <;> rfl
  · by_cases hnew : 9 ≤ i ∧ i < 13
    · obtain ⟨k, rfl⟩ := Nat.exists_eq_add_of_le hnew.1
      have hk : k < 4 := by omega
      rw [read32_shellCode64_movk newPfunc context a m (Or.inr ⟨rfl, rfl⟩) hk,
        decode_movkWord _ _ (by decide)]
      interval_cases k <;> rfl
    · rw [read32_shellCode64 newPfunc context a m hi (by omega) (by omega)]
      interval_cases i <;> first | rfl | omega

end

/-! ## What a call must do -/

/-- What `new_pfunc` finds: the caller's registers, and on the stack the context,
the caller's stack pointer and the address to return to. -/
structure HookCalled (newPfunc context : BitVec 64) (s b : State) : Prop where
  target : b.reg (.x 8) = newPfunc
  regs : ∀ i : Fin 31, i.val < 8 → b.reg (.x i) = s.reg (.x i)
  context : b.load (b.reg .sp) = context
  stackArgs : b.load (b.reg .sp + 8) = s.reg .sp
  retPoint : b.load (b.reg .sp + 16) = s.reg (.x 30)
  aligned : 16 ∣ s.spAddr → 16 ∣ b.spAddr

/-- The callee keeps the stack pointer and, of the memory above it, what the
trampoline has pushed. -/
structure KeepsPushed (b c : State) : Prop where
  sp : c.reg .sp = b.reg .sp
  pushed : ∀ i < 8, c.load (b.reg .sp + BitVec.ofNat 64 (8 * i)) =
    b.load (b.reg .sp + BitVec.ofNat 64 (8 * i))

/-- What the caller of the hooked function finds. -/
structure HookReturned (s c r : State) : Prop where
  sp : r.reg .sp = s.reg .sp
  x8 : r.reg (.x 8) = s.reg (.x 8)
  x9 : r.reg (.x 9) = s.reg (.x 9)
  x29 : r.reg (.x 29) = s.reg (.x 29)
  x30 : r.reg (.x 30) = s.reg (.x 30)
  result : r.reg (.x 0) = c.reg (.x 0)

/-- The state `new_pfunc` starts in. -/
def hookEntry (lk : Linkage Empty) (b : State) : State := b.set (.x 30) (lk.link 13)

/-- The state `new_pfunc` returns in. -/
def hookExit (lk : Linkage Empty) (b : State) : State := lk.code (b.reg (.x 8)) (hookEntry lk b)

/-- A listing calls `new_pfunc` for what enters it in `s`, and returns. -/
def CallsHook (prog : List (Instr Empty Empty)) (newPfunc context : BitVec 64) (lk : Linkage Empty)
    (s : State) : Prop :=
  ∃ b, RunsTo (step prog lk) (atInstr prog (.blr (.x 8))) (0, s) (13, b) ∧
    HookCalled newPfunc context s b ∧
    (KeepsPushed (hookEntry lk b) (hookExit lk b) →
      ∃ r, RunsTo (step prog lk) (atInstr prog .ret) (13, b) (17, r) ∧
        HookReturned s (hookExit lk b) r)

/-! ## The stack -/

/-- The address of the `i`-th doubleword that is pushed. -/
def slot (sp : BitVec 64) (i : Nat) : Nat := (sp - BitVec.ofNat 64 (8 * (i + 1))).toNat

/-- Slots are apart, wherever the stack is. -/
theorem slot_disjoint (sp : BitVec 64) {i j : Nat} (hi : i < 8) (hj : j < 8) (hne : i ≠ j) :
    slot sp i + 8 ≤ slot sp j ∨ slot sp j + 8 ≤ slot sp i := by
  rw [slot, slot, BitVec.toNat_sub, BitVec.toNat_sub, BitVec.toNat_ofNat, BitVec.toNat_ofNat]
  omega

theorem read64_write64_slot (m : Mem) (sp v : BitVec 64) {i j : Nat} (hi : i < 8) (hj : j < 8)
    (hne : i ≠ j) : read64 (write64 m (slot sp j) v) (slot sp i) = read64 m (slot sp i) :=
  read64_write64_of_disjoint m v (slot_disjoint sp hi hj hne)

/-- What the listing pushes, from the top of its stack down. -/
def pushed (context : BitVec 64) (s : State) : List (BitVec 64) :=
  [s.reg (.x 30), s.reg (.x 29), s.reg (.x 9), s.reg (.x 8), s.reg (.x 30), s.reg (.x 30),
    s.reg .sp, context]

/-- The slots in the order of the stores. -/
def pushOrder : List Nat := [1, 0, 3, 2, 5, 4, 7, 6]

/-- Memory after the stores of the listing. -/
def pushedMem (context : BitVec 64) (s : State) : Mem :=
  pushOrder.foldl (fun m i => write64 m (slot (s.reg .sp) i) ((pushed context s).getD i 0)) s.mem

/-- The state at `blr x8`. -/
def atHook (newPfunc context : BitVec 64) (s : State) : State :=
  ((hookingFunc newPfunc context).take 13).foldl exec s

section

variable (newPfunc context : BitVec 64) (s : State)

theorem atHook_sp : (atHook newPfunc context s).reg .sp = s.reg .sp - 0x40 := by
  simp only [atHook, hookingFunc, List.take, List.foldl, exec, State.set_reg, State.store_reg,
    reduceCtorEq, if_true, if_false]
  bv_omega

theorem atHook_x8 : (atHook newPfunc context s).reg (.x 8) = newPfunc := by
  simp only [atHook, hookingFunc, List.take, List.foldl, exec, State.set_reg, State.store_reg,
    reduceCtorEq, if_true, if_false, movkValue_quarters]

theorem atHook_x {i : Fin 31} (h8 : i ≠ 8) (h9 : i ≠ 9) :
    (atHook newPfunc context s).reg (.x i) = s.reg (.x i) := by
  simp only [atHook, hookingFunc, List.take, List.foldl, exec, State.set_reg, State.store_reg,
    reduceCtorEq, if_false, Reg.x.injEq, if_neg h8, if_neg h9]

theorem atHook_mem : (atHook newPfunc context s).mem = pushedMem context s := by
  have hx9 : s.reg .sp + (-0x10 + (-0x10 + 0x20)) = s.reg .sp := BitVec.add_zero _
  simp only [atHook, hookingFunc, List.take, List.foldl, exec, State.set_reg, State.set_mem,
    State.store_mem, State.store_reg, reduceCtorEq, if_true, if_false, Reg.x.injEq, Fin.reduceEq,
    movkValue_quarters, hx9, pushedMem, pushOrder, pushed, slot, BitVec.sub_eq_add_neg,
    BitVec.add_assoc]
  iterate 8 refine write64_congr ?_ rfl
  rfl

/-- The pushed doublewords are in their slots. -/
theorem read64_pushedMem {i : Nat} (hi : i < 8) :
    read64 (pushedMem context s) (slot (s.reg .sp) i) = (pushed context s).getD i 0 := by
  simp only [pushedMem, pushOrder, List.foldl]
  interval_cases i <;>
    simp (disch := decide) only [read64_write64_same, read64_write64_slot]

/-- What the callee finds from its stack pointer up. -/
theorem atHook_load {i : Nat} (hi : i < 8) : (atHook newPfunc context s).load
    ((atHook newPfunc context s).reg .sp + BitVec.ofNat 64 (8 * i)) =
      (pushed context s).getD (7 - i) 0 := by
  have haddr : (s.reg .sp - 0x40 + BitVec.ofNat 64 (8 * i)).toNat = slot (s.reg .sp) (7 - i) := by
    rw [slot]
    bv_omega
  rw [State.load, atHook_sp, atHook_mem, haddr, read64_pushedMem context s (by omega)]

theorem atHook_called : HookCalled newPfunc context s (atHook newPfunc context s) where
  target := atHook_x8 newPfunc context s
  regs := fun i hi => by
    have h8 : i ≠ 8 := by rintro rfl; exact absurd hi (by decide)
    have h9 : i ≠ 9 := by rintro rfl; exact absurd hi (by decide)
    exact atHook_x newPfunc context s h8 h9
  context := by
    have hload := atHook_load newPfunc context s (i := 0) (by decide)
    rwa [BitVec.add_zero] at hload
  stackArgs := atHook_load newPfunc context s (i := 1) (by decide)
  retPoint := atHook_load newPfunc context s (i := 2) (by decide)
  aligned := fun h => by
    rw [State.spAddr] at h ⊢
    rw [atHook_sp]
    bv_omega

end

/-! ## The run -/

/-- The instructions between the call and `ret`. -/
def restore : List (Instr Empty Empty) :=
  [.add .sp .sp 0x20, .ldpPost (.x 8) (.x 9) .sp 0x10, .ldpPost (.x 29) (.x 30) .sp 0x10]

section

variable (newPfunc context : BitVec 64) (lk : Linkage Empty) (s : State)

/-- The call writes `x30`, which is not among what is kept. -/
theorem KeepsPushed.of_hookEntry {b c : State} (h : KeepsPushed (hookEntry lk b) c) :
    KeepsPushed b c := ⟨h.sp, h.pushed⟩

/-- A callee that keeps to the procedure call standard keeps what is pushed, where the
stack ends below the top of the address space. -/
theorem KeepsPushed.of_kept {b c : State} (h : Kept (above b) b c) (htop : b.spAddr + 64 ≤ 2 ^ 64) :
    KeepsPushed b c where
  sp := h.sp
  pushed := fun i hi => by
    rw [State.spAddr] at htop
    have haddr : (b.reg .sp + BitVec.ofNat 64 (8 * i)).toNat = (b.reg .sp).toNat + 8 * i := by
      bv_omega
    rw [State.load, State.load, haddr]
    exact h.mem.read64 fun a ha _ => Nat.le_trans (Nat.le_add_right _ _) ha

/-- A callee that keeps what is pushed returns to a restored state. -/
theorem restore_returned {c : State} (h : KeepsPushed (atHook newPfunc context s) c) :
    HookReturned s c (restore.foldl exec c) := by
  have hload {i : Nat} (hi : i < 8) :
      c.load (c.reg .sp + BitVec.ofNat 64 (8 * i)) = (pushed context s).getD (7 - i) 0 := by
    rw [h.sp, h.pushed i hi, atHook_load newPfunc context s hi]
  refine ⟨?_, ?_, ?_, ?_, ?_, ?_⟩ <;>
    simp only [restore, List.foldl, exec, State.set_reg,
      State.set_load, reduceCtorEq, if_true, if_false, Reg.x.injEq, Fin.reduceEq, BitVec.add_assoc]
  · rw [h.sp, atHook_sp]
    exact BitVec.sub_add_cancel _ _
  · exact hload (i := 4) (by decide)
  · exact hload (i := 5) (by decide)
  · exact hload (i := 6) (by decide)
  · exact hload (i := 7) (by decide)

/-- The run to `blr x8`. -/
theorem path_atHook : Path (step (hookingFunc newPfunc context) lk)
    (atInstr (hookingFunc newPfunc context) (.blr (.x 8))) (0, s)
    (13, atHook newPfunc context s) :=
  path_data lk rfl ((hookingFunc newPfunc context).take 13) 0 s (List.take_prefix ..)
    (List.all_eq_true.mp rfl)

/-- The run from `blr x8` to `ret`. -/
theorem path_restore (b : State) : Path (step (hookingFunc newPfunc context) lk)
    (atInstr (hookingFunc newPfunc context) .ret) (13, b)
    (17, restore.foldl exec (hookExit lk b)) := by
  refine .head (atInstr_eq_false rfl (by decide)) rfl ?_
  exact path_data lk rfl restore 14 (hookExit lk b) ⟨[.ret], rfl⟩ (List.all_eq_true.mp rfl)

end

/-- The code that `create_shellcode_hooking_func` writes calls the hook, for every
pair of pointers and every state at its entry. -/
theorem createShellcodeHookingFunc_callsHook (pageSize : Nat)
    (newPfunc context shellCode : BitVec 64) (w : World) (lk : Linkage Empty) (s : State) :
    ∃ prog, decodeAt (createShellcodeHookingFunc .arm64 pageSize newPfunc context shellCode w).mem
        shellCode.toNat 18 = some prog ∧ CallsHook prog newPfunc context lk s := by
  refine ⟨hookingFunc newPfunc context, decodeAt_shellCode64 newPfunc context _ _, ?_⟩
  refine ⟨atHook newPfunc context s, ?_, atHook_called newPfunc context s, fun hkeeps => ?_⟩
  · exact (path_atHook newPfunc context lk s).runsTo rfl
  · refine ⟨_, (path_restore newPfunc context lk _).runsTo rfl, ?_⟩
    exact restore_returned newPfunc context s (hkeeps.of_hookEntry lk)

end RouteFunc
