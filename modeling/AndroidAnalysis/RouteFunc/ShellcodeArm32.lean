import AndroidAnalysis.Machine.Arm32Code
import AndroidAnalysis.RouteFunc.CreateShellcode
import Mathlib.Tactic.IntervalCases

/-!
# The trampoline on 32-bit ARM

What `create_shellcode_hooking_func` writes is, word by word, the listing of
`route_func/asm/hooking.asm` with the two pointers in its `movw` and `movt`
instructions (`decodeAt_shellCode32`).

The listing pushes six words and returns by a pop of the program counter, so the
run ends where it has left the listing.  `slot` numbers the words from the top,
as on the other build, and again nothing is asked of the stack pointer.
-/

namespace RouteFunc.Arm32

open Machine Machine.Arm32 Cpp

/-! ## The code -/

/-- `hooking_func`, with the pointers in place of the numbers in its text. -/
def hookingFunc (newPfunc context : BitVec 32) : List (Instr Empty Empty) := [
  .push [.r 4, .r 5, .r 6, .lr],
  .movImm (.r 4) ((context.extractLsb' 0 16).setWidth 32),
  .movt (.r 4) (context.extractLsb' 16 16),
  .add (.r 5) .sp 0x10,
  .push [.r 4, .r 5],
  .movImm (.r 4) ((newPfunc.extractLsb' 0 16).setWidth 32),
  .movt (.r 4) (newPfunc.extractLsb' 16 16),
  .blx (.r 4),
  .add .sp .sp 0x8,
  .popPc [.r 4, .r 5, .r 6]]

/-- Patching a `movw` or a `movt` gives that instruction with the number. -/
theorem movPatched_immWord (opcode : BitVec 12) (old num : BitVec 16) (rd : BitVec 4) :
    movPatched (immWord opcode old rd) num = immWord opcode num rd := by
  rw [movPatched_eq, immWord_opcode, immWord_rd]
  rfl

section

variable (newPfunc context : BitVec 32) (a : Nat) (m : Mem)

/-- A word of the copied code. -/
theorem read32_copied {i : Nat} (hi : i < 10) :
    read32 (memcpy m a (shellcodeHookingFunc .arm32)) (a + 4 * i) =
      read32 (Mem.ofBytes (shellcodeHookingFunc .arm32)) (4 * i) := by
  refine readBytes_memcpy m a ?_
  simp only [shellcodeHookingFunc, List.length_cons, List.length_nil]
  omega

/-- A word of the block that is not patched is that of the code. -/
theorem read32_shellCode32 {i : Nat} (hi : i < 10) (hctx : i < 1 ∨ 3 ≤ i)
    (hnew : i < 5 ∨ 7 ≤ i) :
    read32 (shellCode32 newPfunc context a m) (a + 4 * i) =
      read32 (Mem.ofBytes (shellcodeHookingFunc .arm32)) (4 * i) := by
  rw [shellCode32]
  iterate 4 rw [read32_patchMov_of_disjoint _ _ (by omega)]
  exact read32_copied a m hi

/-- The words that load a pointer: `movw` and `movt` for `r4`. -/
theorem read32_shellCode32_mov {p : BitVec 32} {j : Nat}
    (hj : j = 1 ∧ p = context ∨ j = 5 ∧ p = newPfunc) :
    read32 (shellCode32 newPfunc context a m) (a + 4 * j) =
        immWord 0xe30 (p.extractLsb' 0 16) 4 ∧
      read32 (shellCode32 newPfunc context a m) (a + 4 * (j + 1)) =
        immWord 0xe34 (p.extractLsb' 16 16) 4 := by
  have hlow : read32 (memcpy m a (shellcodeHookingFunc .arm32)) (a + 4 * j) =
      immWord 0xe30 0x5678 4 := by
    rw [read32_copied a m (by omega)]
    rcases hj with ⟨rfl, _⟩ | ⟨rfl, _⟩ <;> decide
  have hhigh : read32 (memcpy m a (shellcodeHookingFunc .arm32)) (a + 4 * (j + 1)) =
      immWord 0xe34 0x1234 4 := by
    rw [read32_copied a m (by omega)]
    rcases hj with ⟨rfl, _⟩ | ⟨rfl, _⟩ <;> decide
  rw [← movPatched_immWord 0xe30 0x5678, ← hlow, ← movPatched_immWord 0xe34 0x1234, ← hhigh,
    shellCode32]
  rcases hj with ⟨rfl, rfl⟩ | ⟨rfl, rfl⟩ <;>
    simp (disch := omega) only [Nat.reduceAdd, Nat.reduceMul, read32_patchMov_of_disjoint,
      read32_patchMov_same, getBit_halfword, and_self]

/-- The block holds the listing. -/
theorem decodeAt_shellCode32 :
    decodeAt (shellCode32 newPfunc context a m) a 10 = some (hookingFunc newPfunc context) := by
  show decodeWords decode _ a (hookingFunc newPfunc context).length = _
  refine decodeWords_eq_some fun i hi => ?_
  replace hi : i < 10 := hi
  obtain ⟨hctxLow, hctxHigh⟩ :=
    read32_shellCode32_mov newPfunc context a m (j := 1) (Or.inl ⟨rfl, rfl⟩)
  obtain ⟨hnewLow, hnewHigh⟩ :=
    read32_shellCode32_mov newPfunc context a m (j := 5) (Or.inr ⟨rfl, rfl⟩)
  by_cases hpatched : i = 1 ∨ i = 2 ∨ i = 5 ∨ i = 6
  · rcases hpatched with rfl | rfl | rfl | rfl
    · rw [hctxLow]
      exact decode_movwWord _ (by decide)
    · rw [hctxHigh]
      exact decode_movtWord _ (by decide)
    · rw [hnewLow]
      exact decode_movwWord _ (by decide)
    · rw [hnewHigh]
      exact decode_movtWord _ (by decide)
  · rw [read32_shellCode32 newPfunc context a m hi (by omega) (by omega)]
    interval_cases i <;> first | rfl | omega

end

/-! ## What a call must do -/

/-- What `new_pfunc` finds: the caller's registers, and on the stack the context
and the caller's stack pointer. -/
structure HookCalled (newPfunc context : BitVec 32) (s b : State) : Prop where
  target : b.reg (.r 4) = newPfunc
  regs : ∀ i : Fin 13, i.val < 4 → b.reg (.r i) = s.reg (.r i)
  context : b.load (b.reg .sp) = context
  stackArgs : b.load (b.reg .sp + 4) = s.reg .sp
  aligned : 8 ∣ s.spAddr → 8 ∣ b.spAddr

/-- The callee keeps the stack pointer and, of the memory above it, what the
trampoline has pushed. -/
structure KeepsPushed (b c : State) : Prop where
  sp : c.reg .sp = b.reg .sp
  pushed : ∀ i < 6, c.load (b.reg .sp + BitVec.ofNat 32 (4 * i)) =
    b.load (b.reg .sp + BitVec.ofNat 32 (4 * i))

/-- What the caller of the hooked function finds. -/
structure HookReturned (s c r : State) : Prop where
  sp : r.reg .sp = s.reg .sp
  r4 : r.reg (.r 4) = s.reg (.r 4)
  r5 : r.reg (.r 5) = s.reg (.r 5)
  r6 : r.reg (.r 6) = s.reg (.r 6)
  result : r.reg (.r 0) = c.reg (.r 0)

/-- The state `new_pfunc` starts in. -/
def hookEntry (lk : Linkage Empty) (b : State) : State := b.set .lr (lk.link 7)

/-- The state `new_pfunc` returns in. -/
def hookExit (lk : Linkage Empty) (b : State) : State := lk.code (b.reg (.r 4)) (hookEntry lk b)

/-- A listing calls `new_pfunc` for what enters it in `s`, and returns to the
address `lr` had. -/
def CallsHook (prog : List (Instr Empty Empty)) (newPfunc context : BitVec 32) (lk : Linkage Empty)
    (s : State) : Prop :=
  ∃ b, RunsTo (step prog lk) (atInstr prog (.blx (.r 4))) (.pos 0, s) (.pos 7, b) ∧
    HookCalled newPfunc context s b ∧
    (KeepsPushed (hookEntry lk b) (hookExit lk b) →
      ∃ r, RunsTo (step prog lk) hasLeft (.pos 7, b) (.left (s.reg .lr), r) ∧
        HookReturned s (hookExit lk b) r)

/-! ## The stack -/

/-- The address of the `i`-th word that is pushed. -/
def slot (sp : BitVec 32) (i : Nat) : Nat := (sp - BitVec.ofNat 32 (4 * (i + 1))).toNat

/-- Slots are apart, wherever the stack is. -/
theorem slot_disjoint (sp : BitVec 32) {i j : Nat} (hi : i < 6) (hj : j < 6) (hne : i ≠ j) :
    slot sp i + 4 ≤ slot sp j ∨ slot sp j + 4 ≤ slot sp i := by
  rw [slot, slot, BitVec.toNat_sub, BitVec.toNat_sub, BitVec.toNat_ofNat, BitVec.toNat_ofNat]
  omega

theorem read32_write32_slot (m : Mem) (sp v : BitVec 32) {i j : Nat} (hi : i < 6) (hj : j < 6)
    (hne : i ≠ j) : read32 (write32 m (slot sp j) v) (slot sp i) = read32 m (slot sp i) :=
  read32_write32_of_disjoint m v (slot_disjoint sp hi hj hne)

/-- What the listing pushes, from the top of its stack down. -/
def pushed (context : BitVec 32) (s : State) : List (BitVec 32) :=
  [s.reg .lr, s.reg (.r 6), s.reg (.r 5), s.reg (.r 4), s.reg .sp, context]

/-- The slots in the order of the stores. -/
def pushOrder : List Nat := [3, 2, 1, 0, 5, 4]

/-- Memory after the stores of the listing. -/
def pushedMem (context : BitVec 32) (s : State) : Mem :=
  pushOrder.foldl (fun m i => write32 m (slot (s.reg .sp) i) ((pushed context s).getD i 0)) s.mem

/-- The state at `blx r4`. -/
def atHook (newPfunc context : BitVec 32) (s : State) : State :=
  ((hookingFunc newPfunc context).take 7).foldl exec s

section

variable (newPfunc context : BitVec 32) (s : State)

theorem atHook_sp : (atHook newPfunc context s).reg .sp = s.reg .sp - 0x18 := by
  simp only [atHook, hookingFunc, List.take, List.foldl, exec, State.storeList, State.set_reg,
    State.store_reg, List.map, listBytes, List.length_cons, List.length_nil, reduceCtorEq, if_true,
    if_false]
  bv_omega

theorem atHook_r4 : (atHook newPfunc context s).reg (.r 4) = newPfunc := by
  simp only [atHook, hookingFunc, List.take, List.foldl, exec, State.set_reg, if_true, movt_movw]

theorem atHook_r {i : Fin 13} (h4 : i ≠ 4) (h5 : i ≠ 5) :
    (atHook newPfunc context s).reg (.r i) = s.reg (.r i) := by
  simp only [atHook, hookingFunc, List.take, List.foldl, exec, State.storeList, State.set_reg,
    State.store_reg, List.map, reduceCtorEq, if_false, Reg.r.injEq, if_neg h4, if_neg h5]

theorem atHook_mem : (atHook newPfunc context s).mem = pushedMem context s := by
  have hr5 : s.reg .sp + (-BitVec.ofNat 32 (4 * 4) + 0x10) = s.reg .sp := BitVec.add_zero _
  simp only [atHook, hookingFunc, List.take, List.foldl, exec, State.storeList, State.set_reg,
    State.set_mem, State.store_mem, State.store_reg, List.map, listBytes, List.length_cons,
    List.length_nil, Nat.reduceAdd, reduceCtorEq, if_true, if_false, Reg.r.injEq, Fin.reduceEq,
    movt_movw, hr5, pushedMem, pushOrder, pushed, slot, BitVec.sub_eq_add_neg, BitVec.add_assoc]
  iterate 6 refine write32_congr ?_ rfl
  rfl

/-- The pushed words are in their slots. -/
theorem read32_pushedMem {i : Nat} (hi : i < 6) :
    read32 (pushedMem context s) (slot (s.reg .sp) i) = (pushed context s).getD i 0 := by
  simp only [pushedMem, pushOrder, List.foldl]
  interval_cases i <;>
    simp (disch := decide) only [read32_write32_same, read32_write32_slot]

/-- What the callee finds from its stack pointer up. -/
theorem atHook_load {i : Nat} (hi : i < 6) : (atHook newPfunc context s).load
    ((atHook newPfunc context s).reg .sp + BitVec.ofNat 32 (4 * i)) =
      (pushed context s).getD (5 - i) 0 := by
  have haddr : (s.reg .sp - 0x18 + BitVec.ofNat 32 (4 * i)).toNat = slot (s.reg .sp) (5 - i) := by
    rw [slot]
    bv_omega
  rw [State.load, atHook_sp, atHook_mem, haddr, read32_pushedMem context s (by omega)]

theorem atHook_called : HookCalled newPfunc context s (atHook newPfunc context s) where
  target := atHook_r4 newPfunc context s
  regs := fun i hi => by
    have h4 : i ≠ 4 := by rintro rfl; exact absurd hi (by decide)
    have h5 : i ≠ 5 := by rintro rfl; exact absurd hi (by decide)
    exact atHook_r newPfunc context s h4 h5
  context := by
    have hload := atHook_load newPfunc context s (i := 0) (by decide)
    rwa [BitVec.add_zero] at hload
  stackArgs := atHook_load newPfunc context s (i := 1) (by decide)
  aligned := fun h => by
    rw [State.spAddr] at h ⊢
    rw [atHook_sp]
    bv_omega

end

/-! ## The run -/

section

variable (newPfunc context : BitVec 32) (lk : Linkage Empty) (s : State)

/-- The call writes `lr`, which is not among what is kept. -/
theorem KeepsPushed.of_hookEntry {b c : State} (h : KeepsPushed (hookEntry lk b) c) :
    KeepsPushed b c := ⟨h.sp, h.pushed⟩

/-- A callee that keeps to the procedure call standard keeps what is pushed, where the
stack ends below the top of the address space. -/
theorem KeepsPushed.of_kept {b c : State} (h : Kept (above b) b c) (htop : b.spAddr + 24 ≤ 2 ^ 32) :
    KeepsPushed b c where
  sp := h.sp
  pushed := fun i hi => by
    rw [State.spAddr] at htop
    have haddr : (b.reg .sp + BitVec.ofNat 32 (4 * i)).toNat = (b.reg .sp).toNat + 4 * i := by
      bv_omega
    rw [State.load, State.load, haddr]
    exact h.mem.read32 fun a ha _ => Nat.le_trans (Nat.le_add_right _ _) ha

/-- The state after `add sp, sp, 8`. -/
def atReturn (c : State) : State := exec (L := Empty) (F := Empty) c (.add .sp .sp 0x8)

/-- What a callee that keeps what is pushed returns above. -/
theorem load_of_keepsPushed {c : State} (h : KeepsPushed (atHook newPfunc context s) c) {i : Nat}
    (hi : i < 6) :
    c.load (c.reg .sp + BitVec.ofNat 32 (4 * i)) = (pushed context s).getD (5 - i) 0 := by
  rw [h.sp, h.pushed i hi, atHook_load newPfunc context s hi]

/-- A callee that keeps what is pushed leaves the address of the caller to be popped. -/
theorem atReturn_poppedPc {c : State} (h : KeepsPushed (atHook newPfunc context s) c) :
    (atReturn c).poppedPc [.r 4, .r 5, .r 6] = s.reg .lr := by
  simp only [atReturn, State.poppedPc, exec, State.set_reg, State.set_load, if_true,
    BitVec.add_assoc]
  exact load_of_keepsPushed newPfunc context s h (i := 5) (by decide)

/-- A callee that keeps what is pushed returns to a restored state. -/
theorem atReturn_returned {c : State} (h : KeepsPushed (atHook newPfunc context s) c) :
    HookReturned s c ((atReturn c).popPc [.r 4, .r 5, .r 6]) := by
  refine ⟨?_, ?_, ?_, ?_, ?_⟩ <;>
    simp only [atReturn, State.popPc, exec, State.loadList, State.set_reg, State.set_load,
      reduceCtorEq, if_true, if_false, Reg.r.injEq, Fin.reduceEq, BitVec.add_assoc]
  · rw [h.sp, atHook_sp]
    exact BitVec.sub_add_cancel _ _
  · exact load_of_keepsPushed newPfunc context s h (i := 2) (by decide)
  · exact load_of_keepsPushed newPfunc context s h (i := 3) (by decide)
  · exact load_of_keepsPushed newPfunc context s h (i := 4) (by decide)

/-- The run to `blx r4`. -/
theorem path_atHook : Path (step (hookingFunc newPfunc context) lk)
    (atInstr (hookingFunc newPfunc context) (.blx (.r 4))) (.pos 0, s)
    (.pos 7, atHook newPfunc context s) :=
  path_data lk rfl ((hookingFunc newPfunc context).take 7) 0 s (List.take_prefix ..)
    (List.all_eq_true.mp rfl)

/-- The run from `blx r4` out of the listing. -/
theorem path_atReturn (b : State) : Path (step (hookingFunc newPfunc context) lk) hasLeft
    (.pos 7, b) (.left ((atReturn (hookExit lk b)).poppedPc [.r 4, .r 5, .r 6]),
      (atReturn (hookExit lk b)).popPc [.r 4, .r 5, .r 6]) :=
  .head rfl rfl (.head rfl rfl (.single rfl rfl))

end

/-- The code that the 32-bit `create_shellcode_hooking_func` writes calls the hook,
for every pair of pointers and every state at its entry. -/
theorem createShellcodeHookingFunc_arm32_callsHook (pageSize : Nat)
    (newPfunc context shellCode : BitVec 32) (w : World) (lk : Linkage Empty) (s : State) :
    ∃ prog, decodeAt (createShellcodeHookingFunc .arm32 pageSize newPfunc context shellCode w).mem
        shellCode.toNat 10 = some prog ∧ CallsHook prog newPfunc context lk s := by
  refine ⟨hookingFunc newPfunc context, decodeAt_shellCode32 newPfunc context _ _, ?_⟩
  refine ⟨atHook newPfunc context s, ?_, atHook_called newPfunc context s, fun hkeeps => ?_⟩
  · exact (path_atHook newPfunc context lk s).runsTo rfl
  · have hkept := hkeeps.of_hookEntry lk
    have hpath := path_atReturn newPfunc context lk (atHook newPfunc context s)
    rw [atReturn_poppedPc newPfunc context s hkept] at hpath
    exact ⟨_, hpath.runsTo rfl, atReturn_returned newPfunc context s hkept⟩

end RouteFunc.Arm32
