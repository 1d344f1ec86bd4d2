import AndroidAnalysis.RouteFunc.RouteArm32
import Mathlib.Tactic.IntervalCases

/-!
# `route_jni_func` forwards a call on 32-bit ARM

The run is cut at the labels.  The prologue stores the caller's registers in the
frame below the entry stack pointer, and `Framed` says they stay there to the end.
The padding of an odd count is pushed first, and the copy loop pushes the words
below it, from the last to the first, so `Copying` has a word at `sp` and the next
ones above.  At the call the words begin at the stack pointer for either parity.
-/

namespace RouteFunc.Arm32

open Machine Machine.Arm32

/-- A piece of a run that ends at `blx r4` at the latest. -/
abbrev CallPath (lk : Linkage Func) : Config → Config → Prop :=
  Path (step routeJniFunc lk) (atInstr routeJniFunc (.blx (.r 4)))

/-! ## What a caller's promise gives -/

section

variable {lo modFrame : Nat} {s : State}

theorem Entry.room_frame (h : Entry lo modFrame s) : lo + 0x24 ≤ s.spAddr := by
  have := h.room
  omega

/-- The words take less than half of the address space. -/
theorem Entry.words_lt (h : Entry lo modFrame s) : 4 * (argc s).toNat < 2 ^ 31 := by
  have hroom := h.room
  have htop := h.paramsTop
  have hargs := h.argsTop
  rcases h.paramsOutside with h0 | hlo | hhi
  · rw [h0]
    decide
  · omega
  · omega

/-- A word to forward lies outside the free part of the stack. -/
theorem Entry.param_outside (h : Entry lo modFrame s) {i b : Nat} (hi : i < (argc s).toNat)
    (hb : (stackParamsStart s).toNat + 4 * i ≤ b)
    (hb' : b < (stackParamsStart s).toNat + 4 * i + 4) : outsideFree lo s b := by
  rcases h.paramsOutside with h0 | hlo | hhi
  · rw [h0] at hi
    exact absurd hi (Nat.not_lt_zero i)
  · exact Or.inl (by omega)
  · exact Or.inr (by omega)

end

/-! ## The frame -/

/-- The stores of the prologue, by their distance from the entry stack pointer. -/
def saves : List (Nat × Reg) :=
  [(0x10, .r 4), (0xc, .r 5), (0x8, .r 7), (0x4, .lr), (0x14, .r 0), (0x18, .r 1), (0x1c, .r 2),
    (0x20, .r 3)]

theorem saves_bound : ∀ save ∈ saves, 4 ≤ save.1 ∧ save.1 ≤ 0x20 := by decide

/-- The caller's registers are in the frame, `r7` points to its lower end, and
memory outside the free part of the stack is as on entry. -/
structure Framed (lo : Nat) (s t : State) : Prop where
  r7 : (t.reg (.r 7)).toNat = s.spAddr - 0x20
  saved : ∀ save ∈ saves, read32 t.mem (s.spAddr - save.1) = s.reg save.2
  outside : Mem.AgreeOn (outsideFree lo s) s.mem t.mem

/-- The frame survives what keeps `r7` and the memory from the frame up. -/
theorem Framed.of_agreeOn {lo : Nat} {s t u : State} (h : Framed lo s t)
    (hroom : lo + 0x20 ≤ s.spAddr) (hr7 : u.reg (.r 7) = t.reg (.r 7))
    (hmem : Mem.AgreeOn (fun b => b < lo ∨ s.spAddr - 0x20 ≤ b) t.mem u.mem) :
    Framed lo s u where
  r7 := by rw [hr7]; exact h.r7
  saved := fun save hsave => by
    obtain ⟨hlo, hhi⟩ := saves_bound save hsave
    exact (hmem.read32 fun b hb _ => Or.inr (by omega)).trans (h.saved save hsave)
  outside := h.outside.trans (hmem.mono fun b hb => by
    rcases hb with hb | hb
    · exact Or.inl hb
    · exact Or.inr (by omega))

/-- A store below the frame keeps it. -/
theorem Framed.store {lo : Nat} {s t u : State} (h : Framed lo s t) {a : Nat} {w : BitVec 32}
    (hroom : lo + 0x20 ≤ s.spAddr) (hr7 : u.reg (.r 7) = t.reg (.r 7))
    (hmem : u.mem = write32 t.mem a w) (hlo : lo ≤ a) (hhi : a + 4 ≤ s.spAddr - 0x20) :
    Framed lo s u := by
  refine h.of_agreeOn hroom hr7 ?_
  rw [hmem]
  refine (Mem.AgreeOn.refl _ _).write32 w fun b hb => ?_
  rcases hb with hb | hb
  · exact Or.inl (by omega)
  · exact Or.inr (by omega)

/-! ## The prologue -/

/-- The state at the call of `mod_for_asm`. -/
def prologue (s : State) : State := (routeJniFunc.take 9).foldl exec s

/-- Memory after the stores of the prologue. -/
def frame (s : State) : Mem :=
  saves.foldl (fun m (save : Nat × Reg) => write32 m (s.spAddr - save.1) (s.reg save.2)) s.mem

section

variable {lo modFrame : Nat} {s : State}

theorem prologue_sp : (prologue s).reg .sp = s.reg .sp - 0x20 := by
  simp only [prologue, routeJniFunc, List.take, List.foldl, exec, State.storeList, List.map,
    State.set_reg, State.store_reg, listBytes, List.length, reduceCtorEq, if_true, if_false,
    Reg.r.injEq, Fin.reduceEq]
  bv_omega

theorem prologue_r7 : (prologue s).reg (.r 7) = s.reg .sp - 0x20 := by
  simp only [prologue, routeJniFunc, List.take, List.foldl, exec, State.storeList, List.map,
    State.set_reg, State.store_reg, listBytes, List.length, reduceCtorEq, if_true, if_false,
    Reg.r.injEq, Fin.reduceEq]
  bv_omega

theorem prologue_r1 : (prologue s).reg (.r 1) = 2 := by
  simp only [prologue, routeJniFunc, List.take, List.foldl, exec, State.set_reg, if_true]

theorem prologue_mem (h : 0x20 ≤ s.spAddr) : (prologue s).mem = frame s := by
  rw [State.spAddr] at h
  simp only [prologue, routeJniFunc, List.take, List.foldl, exec, State.storeList, List.map,
    State.set_reg, State.set_mem, State.store_mem, State.store_reg, listBytes, List.length,
    reduceCtorEq, if_true, if_false, Reg.r.injEq, Fin.reduceEq, frame, saves, State.spAddr]
  iterate 8 refine write32_congr ?_ (by bv_omega)
  rfl

theorem frame_saved (h : 0x20 ≤ s.spAddr) :
    ∀ save ∈ saves, read32 (frame s) (s.spAddr - save.1) = s.reg save.2 := by
  intro save hsave
  simp only [saves, List.mem_cons, List.not_mem_nil, or_false] at hsave
  rcases hsave with rfl | rfl | rfl | rfl | rfl | rfl | rfl | rfl <;>
    simp (disch := omega) only [frame, saves, List.foldl, read32_write32_same,
      read32_write32_of_disjoint]

theorem frame_outside (h : lo + 0x20 ≤ s.spAddr) :
    Mem.AgreeOn (outsideFree lo s) s.mem (frame s) := by
  simp only [frame, saves, List.foldl]
  iterate 8 refine Mem.AgreeOn.write32 ?_ _ fun b hb => by rcases hb with hb | hb <;> omega
  exact Mem.AgreeOn.refl _ _

theorem prologue_r0 (hlo : lo + 0x20 ≤ s.spAddr) : (prologue s).reg (.r 0) = argc s := by
  obtain ⟨t, ht⟩ : ∃ t, prologue s =
      exec (exec t (.ldr (.r 0) (.r 7) (0x10 + 0x10 + 0x0) : Instr Label Func))
        (.movImm (.r 1) 2 : Instr Label Func) := ⟨(routeJniFunc.take 7).foldl exec s, rfl⟩
  have hload : (prologue s).reg (.r 0) =
      read32 (prologue s).mem ((prologue s).reg (.r 7) + (0x10 + 0x10 + 0x0)).toNat := by
    rw [ht]
    rfl
  have haddr : (s.reg .sp - 0x20 + (0x10 + 0x10 + 0x0)).toNat = s.spAddr := by
    rw [State.spAddr]
    bv_omega
  rw [hload, prologue_r7, haddr, prologue_mem (by omega)]
  exact (frame_outside hlo).read32 fun b hb _ => Or.inr hb

theorem prologue_framed (hlo : lo + 0x20 ≤ s.spAddr) : Framed lo s (prologue s) := by
  have hmem := prologue_mem (by omega : 0x20 ≤ s.spAddr)
  refine ⟨?_, ?_, ?_⟩
  · rw [prologue_r7]
    rw [State.spAddr] at hlo ⊢
    bv_omega
  · rw [hmem]
    exact frame_saved (by omega)
  · rw [hmem]
    exact frame_outside hlo

end

/-! ## The call of `mod_for_asm` -/

/-- The state after the call of `mod_for_asm`. -/
def afterMod (lk : Linkage Func) (s : State) : State :=
  lk.func .modForAsm ((prologue s).set .lr (lk.link 9))

section

variable {lo modFrame : Nat} {s : State} {lk : Linkage Func}

variable (s lk) in
/-- The run from entry to the parity test. -/
theorem path_afterMod : CallPath lk (.pos 0, s) (.pos 10, afterMod lk s) := by
  have hpro : CallPath lk (.pos 0, s) (.pos 9, prologue s) :=
    path_data lk rfl (routeJniFunc.take 9) 0 s (List.take_prefix ..) (by decide)
  exact hpro.trans (.single (atInstr_eq_false rfl (by decide)) rfl)

variable (lk) in
theorem callMod_sp (h : lo + 0x20 ≤ s.spAddr) :
    ((prologue s).set .lr (lk.link 9)).spAddr = s.spAddr - 0x20 := by
  rw [State.spAddr, State.set_reg, if_neg (by decide), prologue_sp]
  rw [State.spAddr] at h ⊢
  bv_omega

/-- `mod_for_asm` is called as it may be called. -/
theorem Entry.modCall (h : Entry lo modFrame s) :
    ModCall lo modFrame ((prologue s).set .lr (lk.link 9)) := by
  have hroom := h.modRoom
  have halign := h.aligned
  have hsp := callMod_sp lk (by omega : lo + 0x20 ≤ s.spAddr)
  have hr1 : ((prologue s).set .lr (lk.link 9)).reg (.r 1) = 2 := by
    rw [State.set_reg, if_neg (by decide), prologue_r1]
  refine ⟨?_, ?_, ?_, Or.inl ?_⟩
  · rw [hsp]
    omega
  · rw [hsp]
    omega
  · rw [hr1]
    decide
  · rw [hr1]
    decide

theorem afterMod_r0 (hmod : IsModForAsm lo modFrame (lk.func .modForAsm))
    (h : Entry lo modFrame s) :
    (afterMod lk s).reg (.r 0) = modForAsm (argc s) 2 := by
  have hroom := h.room_frame
  rw [afterMod, hmod.result _ h.modCall]
  simp only [State.set_reg, reduceCtorEq, if_false]
  rw [prologue_r0 (by omega : lo + 0x20 ≤ s.spAddr), prologue_r1]

theorem afterMod_sp (hmod : IsModForAsm lo modFrame (lk.func .modForAsm))
    (h : Entry lo modFrame s) :
    (afterMod lk s).spAddr = s.spAddr - 0x20 := by
  have hroom := h.room_frame
  rw [State.spAddr, afterMod, (hmod.kept _ h.modCall).sp]
  exact callMod_sp lk (by omega : lo + 0x20 ≤ s.spAddr)

theorem afterMod_framed (hmod : IsModForAsm lo modFrame (lk.func .modForAsm))
    (h : Entry lo modFrame s) :
    Framed lo s (afterMod lk s) := by
  have hroom := h.room_frame
  have hkept := hmod.kept ((prologue s).set .lr (lk.link 9)) h.modCall
  have hsaved : (afterMod lk s).reg (.r 7) = (prologue s).reg (.r 7) := by
    rw [afterMod, hkept.saved 7 (by decide) (by decide), State.set_reg, if_neg (by decide)]
  have hsp := callMod_sp lk (by omega : lo + 0x20 ≤ s.spAddr)
  have hmem := hkept.mem
  rw [State.set_mem] at hmem
  refine (prologue_framed (by omega)).of_agreeOn (by omega) hsaved (hmem.mono fun b hb => ?_)
  rw [outsideFree, hsp]
  exact hb

end

/-! ## Padding -/

/-- The bytes of padding for a word count. -/
def padding (n : Nat) : Nat := if n % 2 = 0 then 0 else 4

theorem padding_le (n : Nat) : padding n ≤ 4 := by
  rw [padding]
  split <;> decide

/-- At `nopadding`: the stack pointer is the padding below the frame. -/
structure Padded (lo : Nat) (s t : State) : Prop where
  framed : Framed lo s t
  sp : t.spAddr = s.spAddr - 0x20 - padding (argc s).toNat

section

variable {lo modFrame : Nat} {s : State} {lk : Linkage Func}

theorem path_padding (hmod : IsModForAsm lo modFrame (lk.func .modForAsm))
    (h : Entry lo modFrame s) :
    ∃ t, CallPath lk (.pos 10, afterMod lk s) (.pos 14, t) ∧ Padded lo s t := by
  have hroom := h.room_frame
  have hframed := afterMod_framed hmod h
  have hsp := afterMod_sp hmod h
  let m := afterMod lk s
  let t₀ := m.compare (m.reg (.r 0)) 0
  have hcmp : CallPath lk (.pos 10, m) (.pos 11, t₀) :=
    path_data lk rfl [.cmp (.r 0) 0] 10 m ⟨routeJniFunc.drop 11, rfl⟩ (by decide)
  have hz : t₀.z = true ↔ (argc s).toNat % 2 = 0 := by
    rw [State.compare_z, afterMod_r0 hmod h, beq_iff_eq]
    exact srem_two_eq_zero _
  have hif : step routeJniFunc lk (.pos 11, t₀) = some (.pos (if t₀.z then 14 else 12), t₀) := rfl
  by_cases heven : (argc s).toNat % 2 = 0
  · rw [hz.mpr heven, if_pos rfl] at hif
    refine ⟨t₀, hcmp.trans (.single (atInstr_eq_false rfl (by decide)) hif), ?_⟩
    refine ⟨⟨hframed.r7, hframed.saved, hframed.outside⟩, ?_⟩
    rw [padding, if_pos heven, Nat.sub_zero]
    exact hsp
  · rw [if_neg fun hz' => heven (hz.mp hz')] at hif
    let block : List (Instr Label Func) := [.movImm (.r 0) 0, .push [.r 0]]
    have hpad : CallPath lk (.pos 12, t₀) (.pos 14, block.foldl exec t₀) :=
      path_data lk rfl block 12 t₀ ⟨routeJniFunc.drop 14, rfl⟩ (by decide)
    refine ⟨_, hcmp.trans (.head (atInstr_eq_false rfl (by decide)) hif hpad), ?_⟩
    have hm : (m.reg .sp).toNat = s.spAddr - 0x20 := hsp
    have haddr : (m.reg .sp - 4).toNat = s.spAddr - 0x24 := by bv_omega
    have hmem : (block.foldl exec t₀).mem = write32 m.mem (s.spAddr - 0x24) 0 := by
      rw [← haddr]
      rfl
    refine ⟨hframed.store (by omega) rfl hmem (by omega) (by omega), ?_⟩
    rw [padding, if_neg heven]
    exact haddr

end

/-! ## The copy loop -/

/-- At `loop` with `k` words left to push: the words from the `k`-th on lie at the
stack pointer and above. -/
structure Copying (lo : Nat) (s : State) (k : Nat) (t : State) : Prop where
  le : k ≤ (argc s).toNat
  framed : Framed lo s t
  r0 : t.reg (.r 0) = BitVec.ofNat 32 (4 * k) - 4
  r1 : t.reg (.r 1) = stackParamsStart s
  r4 : t.reg (.r 4) = pcall s
  sp : t.spAddr = s.spAddr - 0x20 - padding (argc s).toNat - 4 * ((argc s).toNat - k)
  words : ∀ i, k ≤ i → i < (argc s).toNat →
    read32 t.mem (s.spAddr - 0x20 - padding (argc s).toNat - 4 * ((argc s).toNat - i)) = param s i

theorem sub_one_shiftLeft_two (a : BitVec 32) :
    (a - 1) <<< 2 = BitVec.ofNat 32 (4 * a.toNat) - 4 := by
  apply BitVec.eq_of_toNat_eq
  simp only [BitVec.toNat_shiftLeft, BitVec.toNat_sub, BitVec.toNat_ofNat, Nat.shiftLeft_eq,
    BitVec.ofNat_eq_ofNat]
  omega

theorem ofNat_mul_succ_sub (k : Nat) :
    BitVec.ofNat 32 (4 * (k + 1)) - 4 - 4 = BitVec.ofNat 32 (4 * k) - 4 := by
  bv_omega

section

variable {lo modFrame : Nat} {s : State} (lk : Linkage Func)

/-- A load of a stack argument of the routine, through `r7`. -/
theorem Framed.load_arg {t : State} (hf : Framed lo s t) (h : Entry lo modFrame s) {off : BitVec 32}
    (hlo : 0x20 ≤ off.toNat) (hhi : off.toNat + 4 ≤ 0x20 + 12) :
    t.load (t.reg (.r 7) + off) = read32 s.mem (s.spAddr + (off.toNat - 0x20)) := by
  have hroom := h.room_frame
  have htop := h.argsTop
  have hr7 := hf.r7
  have haddr : (t.reg (.r 7) + off).toNat = s.spAddr + (off.toNat - 0x20) := by bv_omega
  rw [State.load, haddr]
  exact hf.outside.read32 fun b hb _ => Or.inr (by omega)

theorem path_setup {t : State} (h : Entry lo modFrame s) (hp : Padded lo s t) :
    ∃ u, CallPath lk (.pos 14, t) (.pos 20, u) ∧ Copying lo s (argc s).toNat u := by
  have hargc : t.load (t.reg (.r 7) + (0x10 + 0x10 + 0x0)) = argc s :=
    hp.framed.load_arg h (by decide) (by decide)
  have hstart : t.load (t.reg (.r 7) + (0x10 + 0x10 + 0x4)) = stackParamsStart s :=
    hp.framed.load_arg h (by decide) (by decide)
  have hpcall : t.load (t.reg (.r 7) + (0x10 + 0x10 + 0x8)) = pcall s :=
    hp.framed.load_arg h (by decide) (by decide)
  let block : List (Instr Label Func) := [.label .nopadding,
    .ldr (.r 0) (.r 7) (0x10 + 0x10 + 0x0), .ldr (.r 1) (.r 7) (0x10 + 0x10 + 0x4),
    .ldr (.r 4) (.r 7) (0x10 + 0x10 + 0x8), .sub (.r 0) (.r 0) 1, .lsl (.r 0) (.r 0) 2]
  have hrun : CallPath lk (.pos 14, t) (.pos 20, block.foldl exec t) :=
    path_data lk rfl block 14 t ⟨routeJniFunc.drop 20, rfl⟩ (by decide)
  have hmem : (block.foldl exec t).mem = t.mem := rfl
  have hregs : (block.foldl exec t).reg (.r 7) = t.reg (.r 7) ∧
      (block.foldl exec t).reg .sp = t.reg .sp ∧
      (block.foldl exec t).reg (.r 0) = (argc s - 1) <<< 2 ∧
      (block.foldl exec t).reg (.r 1) = stackParamsStart s ∧
      (block.foldl exec t).reg (.r 4) = pcall s := by
    simp only [block, List.foldl, exec, State.set_reg, State.set_load, reduceCtorEq, Reg.r.injEq,
      Fin.reduceEq, if_true, if_false, hargc, hstart, hpcall, and_self]
  obtain ⟨hr7, hsp, hr0, hr1, hr4⟩ := hregs
  refine ⟨_, hrun, Nat.le_refl _, ?_, ?_, hr1, hr4, ?_, ?_⟩
  · exact hp.framed.of_agreeOn (Nat.le_trans (by omega) h.room_frame) hr7
      (hmem ▸ Mem.AgreeOn.refl _ _)
  · rw [hr0, sub_one_shiftLeft_two]
  · rw [State.spAddr, hsp, Nat.sub_self, Nat.mul_zero, Nat.sub_zero]
    exact hp.sp
  · intro i hi hi'
    omega

/-- One round pushes the next word. -/
theorem path_round {k : Nat} {t : State} (h : Entry lo modFrame s) (hc : Copying lo s (k + 1) t) :
    ∃ u, Copying lo s k u ∧ CallPath lk (.pos 20, t) (.pos 20, u) := by
  have hroom := h.room
  have hwords := h.words_lt
  have htop := h.paramsTop
  have hargs := h.argsTop
  have hle := hc.le
  have hpad := padding_le (argc s).toNat
  have hr0 : (t.reg (.r 0)).toNat = 4 * k := by
    rw [hc.r0]
    bv_omega
  -- the test: `r0` is not negative yet
  let t₀ := t.compare (t.reg (.r 0)) 0
  have hcmp : CallPath lk (.pos 20, t) (.pos 22, t₀) :=
    path_data lk rfl [.label .loop, .cmp (.r 0) 0] 20 t ⟨routeJniFunc.drop 22, rfl⟩ (by decide)
  have hmsb : (t.reg (.r 0)).msb = false := by
    rw [BitVec.msb_eq_false_iff_two_mul_lt]
    omega
  have hstay : step routeJniFunc lk (.pos 22, t₀) = some (.pos 23, t₀) := by
    have hif : step routeJniFunc lk (.pos 22, t₀) =
        some (.pos (if t₀.n != t₀.v then 27 else 23), t₀) := rfl
    rw [hif, State.compare_zero_lt, hmsb, if_neg Bool.false_ne_true]
  -- the body
  let block : List (Instr Label Func) :=
    [.ldrReg (.r 2) (.r 1) (.r 0), .push [.r 2], .sub (.r 0) (.r 0) 4]
  have hbody : CallPath lk (.pos 23, t₀) (.pos 26, block.foldl exec t₀) :=
    path_data lk rfl block 23 t₀ ⟨routeJniFunc.drop 26, rfl⟩ (by decide)
  have hback : step routeJniFunc lk (.pos 26, block.foldl exec t₀) =
      some (.pos 20, block.foldl exec t₀) := rfl
  have hload : t.load (stackParamsStart s + t.reg (.r 0)) = param s k := by
    have haddr : (stackParamsStart s + t.reg (.r 0)).toNat =
        (stackParamsStart s).toNat + 4 * k := by bv_omega
    rw [State.load, haddr, param]
    exact hc.framed.outside.read32 fun b hb hb' => h.param_outside (by omega) hb hb'
  have hr7 : (block.foldl exec t₀).reg (.r 7) = t.reg (.r 7) := rfl
  have hsp : (block.foldl exec t₀).reg .sp = t.reg .sp - 4 := rfl
  have hr0' : (block.foldl exec t₀).reg (.r 0) = t.reg (.r 0) - 4 := rfl
  have hr1 : (block.foldl exec t₀).reg (.r 1) = t.reg (.r 1) := rfl
  have hr4 : (block.foldl exec t₀).reg (.r 4) = t.reg (.r 4) := rfl
  have hspt : (t.reg .sp).toNat = _ := hc.sp
  have hslot : (t.reg .sp - 4).toNat =
      s.spAddr - 0x20 - padding (argc s).toNat - 4 * ((argc s).toNat - k) := by bv_omega
  have hmem : (block.foldl exec t₀).mem = write32 t.mem
      (s.spAddr - 0x20 - padding (argc s).toNat - 4 * ((argc s).toNat - k)) (param s k) := by
    have hst : (block.foldl exec t₀).mem = write32 t.mem (t.reg .sp - 4).toNat
        (t.load (t.reg (.r 1) + t.reg (.r 0))) := rfl
    rw [hst, hc.r1, hload, hslot]
  refine ⟨_, ?_, hcmp.trans (.head (atInstr_eq_false rfl (by decide)) hstay
    (hbody.trans (.single (atInstr_eq_false rfl (by decide)) hback)))⟩
  refine ⟨by omega, ?_, ?_, hr1.trans hc.r1, hr4.trans hc.r4, ?_, ?_⟩
  · exact hc.framed.store (by omega) hr7 hmem (by omega) (by omega)
  · rw [hr0', hc.r0, ofNat_mul_succ_sub]
  · rw [State.spAddr, hsp]
    exact hslot
  · intro i hi hi'
    rw [hmem]
    by_cases hik : i = k
    · rw [hik, read32_write32_same]
    · rw [read32_write32_of_disjoint _ _ (Or.inr (by omega))]
      exact hc.words i (by omega) hi'

/-- The loop ends with every word pushed, and goes to `call`. -/
theorem path_loop {t : State} (h : Entry lo modFrame s) (hc : Copying lo s (argc s).toNat t) :
    ∃ u, Copying lo s 0 u ∧ CallPath lk (.pos 20, t) (.pos 27, u) := by
  let inv (k : Nat) (c : Config) : Prop := c.1 = .pos 20 ∧ Copying lo s k c.2
  have hround : ∀ k c, inv (k + 1) c → ∃ d, inv k d ∧ CallPath lk c d := by
    rintro k ⟨pc, t⟩ ⟨rfl, hct⟩
    obtain ⟨u, hu, hrun⟩ := path_round lk h hct
    exact ⟨(.pos 20, u), ⟨rfl, hu⟩, hrun⟩
  obtain ⟨⟨pc, u⟩, ⟨rfl, hu⟩, hrun⟩ := Path.iterate hround (argc s).toNat (.pos 20, t) ⟨rfl, hc⟩
  let u₀ := u.compare (u.reg (.r 0)) 0
  have hcmp : CallPath lk (.pos 20, u) (.pos 22, u₀) :=
    path_data lk rfl [.label .loop, .cmp (.r 0) 0] 20 u ⟨routeJniFunc.drop 22, rfl⟩ (by decide)
  have hmsb : (u.reg (.r 0)).msb = true := by rw [hu.r0]; decide
  have hexit : step routeJniFunc lk (.pos 22, u₀) = some (.pos 27, u₀) := by
    have hif : step routeJniFunc lk (.pos 22, u₀) =
        some (.pos (if u₀.n != u₀.v then 27 else 23), u₀) := rfl
    rw [hif, State.compare_zero_lt, hmsb, if_pos rfl]
  refine ⟨u₀, ?_, hrun.trans (hcmp.trans (.single (atInstr_eq_false rfl (by decide)) hexit))⟩
  exact ⟨hu.le, hu.framed.of_agreeOn (Nat.le_trans (by omega) h.room_frame) rfl
    (Mem.AgreeOn.refl _ _), hu.r0, hu.r1, hu.r4, hu.sp, hu.words⟩

end

/-! ## The call -/

/-- At `blx r4`. -/
structure AtCall (lo : Nat) (s b : State) : Prop where
  framed : Framed lo s b
  sp : b.spAddr = s.spAddr - 0x20 - padding (argc s).toNat - 4 * (argc s).toNat
  forwarded : Forwarded s b

section

variable {lo modFrame : Nat} {s : State} (lk : Linkage Func)

/-- A load of a saved register, through `r7`. -/
theorem Framed.load_saved {t : State} (hf : Framed lo s t) (h : Entry lo modFrame s)
    {off : BitVec 32}
    {save : Nat × Reg} (hsave : save ∈ saves) (hoff : off.toNat = 0x20 - save.1) :
    t.load (t.reg (.r 7) + off) = s.reg save.2 := by
  obtain ⟨hlo, hhi⟩ := saves_bound save hsave
  have hroom := h.room_frame
  have htop := h.argsTop
  have hr7 := hf.r7
  have haddr : (t.reg (.r 7) + off).toNat = s.spAddr - save.1 := by bv_omega
  rw [State.load, haddr]
  exact hf.saved save hsave

theorem path_call {u : State} (h : Entry lo modFrame s) (hc : Copying lo s 0 u) :
    ∃ b, CallPath lk (.pos 27, u) (.pos callPos, b) ∧ AtCall lo s b := by
  let block : List (Instr Label Func) := [.label .call, .ldr (.r 0) (.r 7) (0x10 - 0x4),
    .ldr (.r 1) (.r 7) (0x10 - 0x8), .ldr (.r 2) (.r 7) (0x10 - 0xc),
    .ldr (.r 3) (.r 7) (0x10 - 0x10)]
  let v := block.foldl exec u
  let b := v.set .lr (lk.addr 34)
  have hrun : CallPath lk (.pos 27, u) (.pos 32, v) :=
    path_data lk rfl block 27 u ⟨routeJniFunc.drop 32, rfl⟩ (by decide)
  have hadr : step routeJniFunc lk (.pos 32, v) = some (.pos 33, b) := rfl
  have hmem : b.mem = u.mem := rfl
  have hkeep : b.reg (.r 7) = u.reg (.r 7) ∧ b.reg .sp = u.reg .sp ∧
      b.reg (.r 4) = u.reg (.r 4) := by
    simp only [b, v, block, List.foldl, exec, State.set_reg, reduceCtorEq, Reg.r.injEq,
      Fin.reduceEq, if_false, and_self]
  obtain ⟨hr7, hsp, hr4⟩ := hkeep
  have hregs : ∀ i : Fin 13, i.val < 4 → b.reg (.r i) = s.reg (.r i) := by
    rintro ⟨i, hlt⟩ hi
    replace hi : i < 4 := hi
    interval_cases i
    all_goals
      simp only [b, v, block, List.foldl, exec, State.set_reg, State.set_load, Reg.r.injEq,
        reduceCtorEq, Fin.reduceEq, Fin.reduceFinMk, if_true, if_false]
    · exact hc.framed.load_saved h (by decide : ((0x14, .r 0) : Nat × Reg) ∈ saves) (by decide)
    · exact hc.framed.load_saved h (by decide : ((0x18, .r 1) : Nat × Reg) ∈ saves) (by decide)
    · exact hc.framed.load_saved h (by decide : ((0x1c, .r 2) : Nat × Reg) ∈ saves) (by decide)
    · exact hc.framed.load_saved h (by decide : ((0x20, .r 3) : Nat × Reg) ∈ saves) (by decide)
  have hspb : b.spAddr = s.spAddr - 0x20 - padding (argc s).toNat - 4 * (argc s).toNat := by
    rw [State.spAddr, hsp]
    exact hc.sp
  have hroom := h.room
  have halign := h.aligned
  have hpad := padding_le (argc s).toNat
  refine ⟨b, hrun.trans (.single (atInstr_eq_false rfl (by decide)) hadr), ?_, hspb,
    hr4.trans hc.r4, hregs, ?_, fun i hi => ?_⟩
  · exact hc.framed.of_agreeOn (Nat.le_trans (by omega) h.room_frame) hr7
      (hmem ▸ Mem.AgreeOn.refl _ _)
  · rw [hspb, padding]
    split <;> omega
  · have haddr : b.spAddr + 4 * i =
        s.spAddr - 0x20 - padding (argc s).toNat - 4 * ((argc s).toNat - i) := by omega
    rw [haddr, hmem]
    exact hc.words i (Nat.zero_le i) hi

/-- The run from entry to `blx r4`. -/
theorem path_atCall (hmod : IsModForAsm lo modFrame (lk.func .modForAsm))
    (h : Entry lo modFrame s) :
    ∃ b, CallPath lk (.pos 0, s) (.pos callPos, b) ∧ AtCall lo s b := by
  obtain ⟨t, htRun, ht⟩ := path_padding hmod h
  obtain ⟨u, huRun, hu⟩ := path_setup lk h ht
  obtain ⟨v, hv, hvRun⟩ := path_loop lk h hu
  obtain ⟨b, hbRun, hb⟩ := path_call lk h hv
  exact ⟨b, (path_afterMod s lk).trans (htRun.trans (huRun.trans (hvRun.trans hbRun))), hb⟩

/-! ## The return -/

/-- After a callee that keeps what it must, the routine returns. -/
theorem AtCall.returns {b : State} (hb : AtCall lo s b) (h : Entry lo modFrame s)
    (hkept : Kept (above b) (calleeEntry lk b) (calleeExit lk b)) :
    ∃ r, RunsTo (step routeJniFunc lk) hasLeft (.pos callPos, b) (.left (s.reg .lr), r) ∧
      Returned s (calleeExit lk b) r := by
  have hroom := h.room
  have htop := h.argsTop
  let c := calleeExit lk b
  let block : List (Instr Label Func) := [.label .ret, .mov .sp (.r 7), .add .sp .sp 0x10]
  let d := block.foldl exec c
  have hcall : step routeJniFunc lk (.pos 33, b) = some (.pos 34, c) := rfl
  have hblock : Path (step routeJniFunc lk) hasLeft (.pos 34, c) (.pos 37, d) :=
    path_data_left lk block 34 c ⟨routeJniFunc.drop 37, rfl⟩ (by decide)
  have hpop : step routeJniFunc lk (.pos 37, d) =
      some (.left (d.poppedPc [.r 4, .r 5, .r 7]), d.popPc [.r 4, .r 5, .r 7]) := rfl
  -- what the callee has kept is where `r7` points
  have hr7 : (c.reg (.r 7)).toNat = s.spAddr - 0x20 := by
    rw [hkept.saved 7 (by decide) (by decide), calleeEntry, State.set_reg, if_neg (by decide)]
    exact hb.framed.r7
  have hload : ∀ (off : BitVec 32) save, save ∈ saves → off.toNat = 0x20 - save.1 →
      c.load (c.reg (.r 7) + off) = s.reg save.2 := by
    intro off save hsave hoff
    obtain ⟨hlo, hhi⟩ := saves_bound save hsave
    have haddr : (c.reg (.r 7) + off).toNat = s.spAddr - save.1 := by bv_omega
    have hsp := hb.sp
    rw [State.load, haddr, ← hb.framed.saved save hsave]
    exact hkept.mem.read32 fun a ha _ => Nat.le_trans (by omega : b.spAddr ≤ _) ha
  have hlr : d.poppedPc [.r 4, .r 5, .r 7] = s.reg .lr := by
    have haddr : d.reg .sp + listBytes [.r 4, .r 5, .r 7] = c.reg (.r 7) + 0x1c :=
      BitVec.add_assoc _ _ _
    rw [State.poppedPc, haddr]
    exact hload 0x1c (0x4, .lr) (by decide) (by decide)
  rw [hlr] at hpop
  refine ⟨_, (Path.head rfl hcall (hblock.trans (.single rfl hpop))).runsTo rfl, ?_⟩
  refine ⟨?_, ?_, ?_, ?_, rfl⟩
  · have hsp : (d.popPc [.r 4, .r 5, .r 7]).reg .sp = c.reg (.r 7) + 0x20 := by
      show c.reg (.r 7) + 0x10 + 0xc + 4 = _
      rw [BitVec.add_assoc, BitVec.add_assoc]
      rfl
    rw [hsp]
    rw [State.spAddr] at hr7 hroom
    bv_omega
  · exact hload 0x10 (0x10, .r 4) (by decide) (by decide)
  · have hr5 : (d.popPc [.r 4, .r 5, .r 7]).reg (.r 5) = c.load (c.reg (.r 7) + 0x10 + 4) := rfl
    rw [hr5, BitVec.add_assoc]
    exact hload 0x14 (0xc, .r 5) (by decide) (by decide)
  · have hr7' : (d.popPc [.r 4, .r 5, .r 7]).reg (.r 7) = c.load (c.reg (.r 7) + 0x10 + 4 + 4) :=
      rfl
    rw [hr7', BitVec.add_assoc, BitVec.add_assoc]
    exact hload 0x18 (0x8, .r 7) (by decide) (by decide)

end

/-- `route_jni_func` forwards every call, whatever the count. -/
theorem route_forwards {lo modFrame : Nat} {s : State} {lk : Linkage Func}
    (hmod : IsModForAsm lo modFrame (lk.func .modForAsm)) (h : Entry lo modFrame s) :
    Forwards lk s := by
  obtain ⟨b, hrun, hb⟩ := path_atCall lk hmod h
  exact ⟨b, hrun.runsTo rfl, hb.forwarded, hb.returns lk h⟩

/-! ## A call with an odd count

The stack pointer is `0x1000`, and the words are at `0x2000`. -/

/-- A `mod_for_asm` that stores its two arguments in a frame of eight bytes, and a
callee that returns at once. -/
def sampleLinkage : Linkage Func where
  addr := fun _ => 0
  link := fun _ => 0
  func := fun _ s =>
    { s.set (.r 0) (modForAsm (s.reg (.r 0)) (s.reg (.r 1))) with
      mem := write32 (write32 s.mem (s.spAddr - 8 + 4) (s.reg (.r 0))) (s.spAddr - 8)
        (s.reg (.r 1)) }
  code := fun _ s => s

/-- An entry with three words to forward, of which the first is `7`. -/
def sampleEntry : State where
  reg := fun r => if r = .sp then 0x1000 else 0
  n := false
  z := false
  v := false
  mem := write32 (write32 (write32 (write32 (fun _ => 0) 0x1000 3) 0x1004 0x2000) 0x1008 0x3000)
    0x2000 7

theorem sampleLinkage_isModForAsm (lo : Nat) :
    IsModForAsm lo 8 (sampleLinkage.func .modForAsm) where
  result := fun s _ => rfl
  kept := fun s hs => by
    have hroom := hs.room
    refine ⟨rfl, fun i hi _ => ?_, ?_⟩
    · have hne : i ≠ 0 := fun h => by simp [h] at hi
      show (s.set (.r 0) _).reg (.r i) = _
      rw [State.set_reg, if_neg (by simpa using hne)]
    · have hframe : ∀ a, s.spAddr - 8 ≤ a → a + 4 ≤ s.spAddr →
          ∀ b, outsideFree lo s b → b < a ∨ a + 4 ≤ b := by
        intro a ha ha' b hb
        rcases hb with hb | hb <;> omega
      exact ((Mem.AgreeOn.refl _ _).write32 _ (hframe _ (by omega) (by omega))).write32 _
        (hframe _ (by omega) (by omega))

theorem sampleEntry_entry : Entry 0 8 sampleEntry where
  aligned := by decide
  argsTop := by decide
  nonneg := by decide
  room := by decide
  modRoom := by decide
  paramsTop := by decide
  paramsOutside := by decide

/-- Three words are forwarded. -/
theorem route_forwards_three : Forwards sampleLinkage sampleEntry :=
  route_forwards (sampleLinkage_isModForAsm 0) sampleEntry_entry

end RouteFunc.Arm32
