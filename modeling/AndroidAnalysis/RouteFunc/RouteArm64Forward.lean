import AndroidAnalysis.RouteFunc.RouteArm64
import Mathlib.Tactic.IntervalCases

/-!
# When `route_jni_func` forwards a call

The run is cut at the labels.  The prologue stores the caller's registers in
the frame below the entry stack pointer, and `Framed` says they stay there to
the end.  The copy loop pushes the words from the last to the first through
`x10`, which starts at the frame, while `sp` starts one doubleword lower when
`argc` is odd.  `Copying` is its invariant.

So for an odd `argc` the stack pointer ends one doubleword below the first
word: the callee finds a stale doubleword first and each word one place late.
-/

namespace RouteFunc

open Machine Machine.Arm64 Machine.Aapcs64

/-- A piece of a run that ends at `blr x9` at the latest. -/
abbrev CallPath (lk : Linkage Func) : Config → Config → Prop :=
  Path (step routeJniFunc lk) (atInstr routeJniFunc (.blr (.x 9)))

/-! ## What a caller's promise gives -/

section

variable {lo modFrame : Nat} {s : State}

theorem Entry.room_frame (h : Entry lo modFrame s) : lo + 0x58 ≤ s.spAddr := by
  have := h.room
  omega

/-- The words take less than half of the address space. -/
theorem Entry.words_lt (h : Entry lo modFrame s) : 8 * (argc s).toNat < 2 ^ 63 := by
  have hroom := h.room
  have htop := h.paramsTop
  have hargs := h.argsTop
  rcases h.paramsOutside with h0 | hlo | hhi
  · rw [h0]
    decide
  · omega
  · omega

/-- A word to forward lies outside the free part of the stack. -/
theorem Entry.param_outside (h : Entry lo modFrame s) {i b : Nat} (hi : i < (argc s).toNat)
    (hb : (stackParamsStart s).toNat + 8 * i ≤ b)
    (hb' : b < (stackParamsStart s).toNat + 8 * i + 8) : outsideFree lo s b := by
  rcases h.paramsOutside with h0 | hlo | hhi
  · rw [h0] at hi
    exact absurd hi (Nat.not_lt_zero i)
  · exact Or.inl (by omega)
  · exact Or.inr (by omega)

end

/-! ## The frame -/

/-- The caller's `x19`, `x30` and `x0`..`x7` are in the frame, `x19` points to
its lower end, and memory outside the free part of the stack is as on entry. -/
structure Framed (lo : Nat) (s t : State) : Prop where
  x19 : (t.reg (.x 19)).toNat = s.spAddr - 0x50
  savedX19 : read64 t.mem (s.spAddr - 0x10) = s.reg (.x 19)
  savedX30 : read64 t.mem (s.spAddr - 0x8) = s.reg (.x 30)
  saved : ∀ i : Fin 31, i.val < 8 → read64 t.mem (s.spAddr - 0x18 - 8 * i.val) = s.reg (.x i)
  outside : Mem.AgreeOn (outsideFree lo s) s.mem t.mem

/-- The frame survives what keeps `x19` and the memory from the frame up. -/
theorem Framed.of_agreeOn {lo : Nat} {s t u : State} (h : Framed lo s t)
    (hroom : lo + 0x50 ≤ s.spAddr) (hx19 : u.reg (.x 19) = t.reg (.x 19))
    (hmem : Mem.AgreeOn (fun b => b < lo ∨ s.spAddr - 0x50 ≤ b) t.mem u.mem) :
    Framed lo s u where
  x19 := by rw [hx19]; exact h.x19
  savedX19 := (hmem.read64 fun b hb _ => Or.inr (by omega)).trans h.savedX19
  savedX30 := (hmem.read64 fun b hb _ => Or.inr (by omega)).trans h.savedX30
  saved := fun i hi => (hmem.read64 fun b hb _ => Or.inr (by omega)).trans (h.saved i hi)
  outside := h.outside.trans (hmem.mono fun b hb => by
    rcases hb with hb | hb
    · exact Or.inl hb
    · exact Or.inr (by omega))

/-- A store below the frame keeps it. -/
theorem Framed.store {lo : Nat} {s t u : State} (h : Framed lo s t) {a : Nat} {w : BitVec 64}
    (hroom : lo + 0x50 ≤ s.spAddr) (hx19 : u.reg (.x 19) = t.reg (.x 19))
    (hmem : u.mem = write64 t.mem a w) (hlo : lo ≤ a) (hhi : a + 8 ≤ s.spAddr - 0x50) :
    Framed lo s u := by
  refine h.of_agreeOn hroom hx19 ?_
  rw [hmem]
  refine (Mem.AgreeOn.refl _ _).write64 w fun b hb => ?_
  rcases hb with hb | hb
  · exact Or.inl (by omega)
  · exact Or.inr (by omega)

/-! ## The prologue -/

/-- The state at the call of `mod_for_asm`. -/
def prologue (s : State) : State := (routeJniFunc.take 13).foldl exec s

/-- The stores of the prologue, by their distance from the entry stack pointer. -/
def saves : List (Nat × Reg) :=
  [(0x10, .x 19), (0x8, .x 30), (0x18, .x 0), (0x20, .x 1), (0x28, .x 2), (0x30, .x 3),
    (0x38, .x 4), (0x40, .x 5), (0x48, .x 6), (0x50, .x 7)]

/-- Memory after the stores of the prologue. -/
def frame (s : State) : Mem :=
  saves.foldl (fun m (save : Nat × Reg) => write64 m (s.spAddr - save.1) (s.reg save.2)) s.mem

section

variable {lo modFrame : Nat} {s : State}

theorem prologue_mem (h : 0x50 ≤ s.spAddr) : (prologue s).mem = frame s := by
  rw [State.spAddr] at h
  simp only [prologue, routeJniFunc, List.take, List.foldl, exec, State.set_reg, State.set_mem,
    State.store_mem, State.store_reg, reduceCtorEq, if_true, if_false, Reg.x.injEq, Fin.reduceEq,
    frame, saves, State.spAddr]
  iterate 10 refine write64_congr ?_ (by bv_omega)
  rfl

theorem prologue_sp : (prologue s).reg .sp = s.reg .sp - 0x50 := by
  simp only [prologue, routeJniFunc, List.take, List.foldl, exec, State.set_reg, State.store_reg,
    reduceCtorEq, if_true, if_false, Reg.x.injEq, Fin.reduceEq]
  bv_omega

theorem prologue_x19 : (prologue s).reg (.x 19) = s.reg .sp - 0x50 := by
  simp only [prologue, routeJniFunc, List.take, List.foldl, exec, State.set_reg, State.store_reg,
    reduceCtorEq, if_true, if_false, Reg.x.injEq, Fin.reduceEq]
  bv_omega

theorem prologue_x1 : (prologue s).reg (.x 1) = 2 := by
  simp only [prologue, routeJniFunc, List.take, List.foldl, exec, State.set_reg, if_true]

theorem frame_savedX19 (h : 0x50 ≤ s.spAddr) :
    read64 (frame s) (s.spAddr - 0x10) = s.reg (.x 19) := by
  simp (disch := omega) only [frame, saves, List.foldl, read64_write64_same,
    read64_write64_of_disjoint]

theorem frame_savedX30 (h : 0x50 ≤ s.spAddr) :
    read64 (frame s) (s.spAddr - 0x8) = s.reg (.x 30) := by
  simp (disch := omega) only [frame, saves, List.foldl, read64_write64_same,
    read64_write64_of_disjoint]

theorem frame_saved (h : 0x50 ≤ s.spAddr) (i : Fin 31) (hi : i.val < 8) :
    read64 (frame s) (s.spAddr - 0x18 - 8 * i.val) = s.reg (.x i) := by
  obtain ⟨i, hlt⟩ := i
  replace hi : i < 8 := hi
  simp only [frame, saves, List.foldl, Nat.sub_sub]
  interval_cases i <;>
    simp (disch := omega) only [Nat.reduceMul, Nat.reduceAdd, read64_write64_same,
      read64_write64_of_disjoint] <;> rfl

theorem frame_outside (h : lo + 0x50 ≤ s.spAddr) :
    Mem.AgreeOn (outsideFree lo s) s.mem (frame s) := by
  simp only [frame, saves, List.foldl]
  iterate 10 refine Mem.AgreeOn.write64 ?_ _ fun b hb => by rcases hb with hb | hb <;> omega
  exact Mem.AgreeOn.refl _ _

theorem prologue_x0 (h : 0x50 ≤ s.spAddr) (hlo : lo + 0x50 ≤ s.spAddr) :
    (prologue s).reg (.x 0) = argc s := by
  obtain ⟨t, ht⟩ : ∃ t, prologue s =
      exec (exec t (.ldr (.x 0) (.x 19) (0x40 + 0x10 + 0x0) : Instr Label Func))
        (.movImm (.x 1) 2 : Instr Label Func) := ⟨(routeJniFunc.take 11).foldl exec s, rfl⟩
  have hload : (prologue s).reg (.x 0) =
      read64 (prologue s).mem ((prologue s).reg (.x 19) + (0x40 + 0x10 + 0x0)).toNat := by
    rw [ht]
    rfl
  have haddr : (s.reg .sp - 0x50 + (0x40 + 0x10 + 0x0)).toNat = s.spAddr := by
    rw [State.spAddr]
    bv_omega
  rw [hload, prologue_x19, haddr, prologue_mem h]
  exact (frame_outside hlo).read64 fun b hb _ => Or.inr hb

end

/-! ## The call of `mod_for_asm` -/

/-- The state after the call of `mod_for_asm`. -/
def afterMod (lk : Linkage Func) (s : State) : State :=
  lk.func .modForAsm ((prologue s).set (.x 30) (lk.link 13))

/-- The doubleword the stack holds, after `mod_for_asm`, below the place of the
first word. -/
def staleWord (lk : Linkage Func) (s : State) : BitVec 64 :=
  read64 (afterMod lk s).mem (s.spAddr - 0x58 - 8 * (argc s).toNat)

/-- `num % 2` is zero for an even `num`, of either sign. -/
theorem modForAsm_two_eq_zero (a : BitVec 64) :
    modForAsm (a.setWidth 32) 2 = 0 ↔ a.toNat % 2 = 0 := by
  have hlow : (a.setWidth 32).toNat = a.toNat % 2 ^ 32 := BitVec.toNat_setWidth ..
  rw [modForAsm, srem_two_eq_zero, hlow]
  omega

section

variable {lo modFrame : Nat} {s : State} {lk : Linkage Func}

variable (s lk) in
/-- The run from entry to the parity test. -/
theorem path_afterMod : CallPath lk (0, s) (14, afterMod lk s) := by
  have hpro : CallPath lk (0, s) (13, prologue s) :=
    path_data lk rfl (routeJniFunc.take 13) 0 s (List.take_prefix ..) (by decide)
  exact hpro.trans (.single (atInstr_eq_false rfl (by decide)) rfl)

variable (lk) in
theorem callMod_sp (h : lo + 0x50 ≤ s.spAddr) :
    ((prologue s).set (.x 30) (lk.link 13)).spAddr = s.spAddr - 0x50 := by
  rw [State.spAddr, State.set_reg, if_neg (by decide), prologue_sp]
  rw [State.spAddr] at h ⊢
  bv_omega

/-- `mod_for_asm` is called as it may be called. -/
theorem Entry.modCall (h : Entry lo modFrame s) :
    ModCall lo modFrame ((prologue s).set (.x 30) (lk.link 13)) := by
  have hroom := h.modRoom
  have halign := h.aligned
  have hsp := callMod_sp lk (by omega : lo + 0x50 ≤ s.spAddr)
  have hx1 : ((prologue s).set (.x 30) (lk.link 13)).reg (.x 1) = 2 := by
    rw [State.set_reg, if_neg (by decide), prologue_x1]
  refine ⟨?_, ?_, ?_, Or.inl ?_⟩
  · rw [hsp]
    omega
  · rw [hsp]
    omega
  · rw [hx1]
    decide
  · rw [hx1]
    decide

theorem afterMod_w0 (hmod : IsModForAsm lo modFrame (lk.func .modForAsm))
    (h : Entry lo modFrame s) :
    ((afterMod lk s).reg (.x 0)).setWidth 32 = modForAsm ((argc s).setWidth 32) 2 := by
  have hroom := h.room_frame
  rw [afterMod, hmod.result _ h.modCall]
  simp only [State.set_reg, Reg.x.injEq, Fin.reduceEq, if_false]
  rw [prologue_x0 (by omega) (by omega : lo + 0x50 ≤ s.spAddr), prologue_x1]
  rfl

theorem afterMod_sp (hmod : IsModForAsm lo modFrame (lk.func .modForAsm))
    (h : Entry lo modFrame s) :
    (afterMod lk s).spAddr = s.spAddr - 0x50 := by
  have hroom := h.room_frame
  rw [State.spAddr, afterMod, (hmod.kept _ h.modCall).sp]
  exact callMod_sp lk (by omega : lo + 0x50 ≤ s.spAddr)

theorem afterMod_framed (hmod : IsModForAsm lo modFrame (lk.func .modForAsm))
    (h : Entry lo modFrame s) :
    Framed lo s (afterMod lk s) := by
  have hroom := h.room_frame
  have hx19 : ((prologue s).reg (.x 19)).toNat = s.spAddr - 0x50 := by
    rw [prologue_x19]
    rw [State.spAddr] at hroom ⊢
    bv_omega
  have hpro : Framed lo s (prologue s) := by
    have hmem := prologue_mem (by omega : 0x50 ≤ s.spAddr)
    refine ⟨hx19, ?_, ?_, ?_, ?_⟩ <;> rw [hmem]
    · exact frame_savedX19 (by omega)
    · exact frame_savedX30 (by omega)
    · exact frame_saved (by omega)
    · exact frame_outside (by omega)
  have hkept := hmod.kept ((prologue s).set (.x 30) (lk.link 13)) h.modCall
  have hsaved : (afterMod lk s).reg (.x 19) = (prologue s).reg (.x 19) := by
    rw [afterMod, hkept.saved 19 (by decide) (by decide), State.set_reg, if_neg (by decide)]
  have hsp := callMod_sp lk (by omega : lo + 0x50 ≤ s.spAddr)
  have hmem := hkept.mem
  rw [State.set_mem] at hmem
  refine hpro.of_agreeOn (by omega) hsaved (hmem.mono fun b hb => ?_)
  rw [outsideFree, hsp]
  exact hb

end

/-! ## Padding -/

/-- The bytes of padding for a word count. -/
def padding (n : Nat) : Nat := if n % 2 = 0 then 0 else 8

/-- At `nopadding`: the stack pointer is the padding below the frame, and lower
memory is as `mod_for_asm` left it. -/
structure Padded (lo : Nat) (s m t : State) : Prop where
  framed : Framed lo s t
  sp : t.spAddr = s.spAddr - 0x50 - padding (argc s).toNat
  below : Mem.AgreeOn (fun b => b < s.spAddr - 0x50 - padding (argc s).toNat) m.mem t.mem

section

variable {lo modFrame : Nat} {s : State} {lk : Linkage Func}

theorem path_padding (hmod : IsModForAsm lo modFrame (lk.func .modForAsm))
    (h : Entry lo modFrame s) :
    ∃ t, CallPath lk (14, afterMod lk s) (19, t) ∧
      Padded lo s (afterMod lk s) t := by
  have hroom := h.room_frame
  have hframed := afterMod_framed hmod h
  have hsp := afterMod_sp hmod h
  let m := afterMod lk s
  let t₀ := m.compare ((m.reg (.x 0)).setWidth 32) (0 : BitVec 32)
  have hcmp : CallPath lk (14, m) (15, t₀) :=
    path_data lk rfl [.cmpW (.x 0) 0] 14 m ⟨routeJniFunc.drop 15, rfl⟩ (by decide)
  have hz : t₀.z = true ↔ (argc s).toNat % 2 = 0 := by
    rw [State.compare_z, afterMod_w0 hmod h, beq_iff_eq]
    exact modForAsm_two_eq_zero _
  by_cases heven : (argc s).toNat % 2 = 0
  · have hstep : step routeJniFunc lk (15, t₀) = some (19, t₀) := by
      have hif : step routeJniFunc lk (15, t₀) = some (if t₀.z then 19 else 16, t₀) := rfl
      rw [hif, if_pos (hz.mpr heven)]
    refine ⟨t₀, hcmp.trans (.single (atInstr_eq_false rfl (by decide)) hstep), ?_⟩
    refine ⟨⟨hframed.x19, hframed.savedX19, hframed.savedX30, hframed.saved, hframed.outside⟩,
      ?_, Mem.AgreeOn.refl _ _⟩
    rw [padding, if_pos heven, Nat.sub_zero]
    exact hsp
  · have hstep : step routeJniFunc lk (15, t₀) = some (16, t₀) := by
      have hif : step routeJniFunc lk (15, t₀) = some (if t₀.z then 19 else 16, t₀) := rfl
      rw [hif, if_neg fun hz' => heven (hz.mp hz')]
    let t := ((t₀.set (.x 0) 0).store (m.reg .sp + (0 - 0x8)) 0).set .sp (m.reg .sp - 8)
    have hpad : CallPath lk (16, t₀) (19, t) :=
      path_data lk rfl [.movImm (.x 0) 0, .str (.x 0) .sp (0 - 0x8), .sub .sp .sp 8] 16 t₀
        ⟨routeJniFunc.drop 19, rfl⟩ (by decide)
    refine ⟨t, hcmp.trans (.head (atInstr_eq_false rfl (by decide)) hstep hpad), ?_⟩
    have hpadding : padding (argc s).toNat = 8 := by rw [padding, if_neg heven]
    have hroom' := h.room
    have hm : (m.reg .sp).toNat = s.spAddr - 0x50 := hsp
    have haddr : (m.reg .sp + (0 - 0x8)).toNat = s.spAddr - 0x58 := by bv_omega
    have hmem : t.mem = write64 m.mem (s.spAddr - 0x58) 0 := by
      rw [State.set_mem, State.store_mem, State.set_mem, State.compare_mem, haddr]
    have hx19 : t.reg (.x 19) = m.reg (.x 19) := by
      simp only [t, t₀, State.set_reg, State.store_reg, State.compare_reg, reduceCtorEq,
        Reg.x.injEq, Fin.reduceEq, if_false]
    refine ⟨hframed.store (by omega) hx19 hmem (by omega) (by omega), ?_, ?_⟩
    · rw [State.spAddr, State.set_reg, if_pos rfl, hpadding]
      bv_omega
    · rw [hpadding, hmem]
      exact (Mem.AgreeOn.refl _ _).write64 _ fun b hb => Or.inl (by omega)

end

/-! ## The copy loop -/

/-- At `loop` with `k` words left to push: the words from the `k`-th on lie
against the frame, and the memory below what was pushed is as `mod_for_asm`
left it. -/
structure Copying (lo : Nat) (s m : State) (k : Nat) (t : State) : Prop where
  le : k ≤ (argc s).toNat
  framed : Framed lo s t
  x0 : t.reg (.x 0) = BitVec.ofNat 64 (8 * k) - 8
  x1 : t.reg (.x 1) = stackParamsStart s
  x9 : t.reg (.x 9) = pcall s
  x10 : (t.reg (.x 10)).toNat = s.spAddr - 0x50 - 8 * ((argc s).toNat - k)
  sp : t.spAddr = s.spAddr - 0x50 - padding (argc s).toNat - 8 * ((argc s).toNat - k)
  words : ∀ i, k ≤ i → i < (argc s).toNat →
    read64 t.mem (s.spAddr - 0x50 - 8 * ((argc s).toNat - i)) = param s i
  below : Mem.AgreeOn (fun b => b < s.spAddr - 0x50 - padding (argc s).toNat ∧
    b < s.spAddr - 0x50 - 8 * ((argc s).toNat - k)) m.mem t.mem

theorem sub_one_shiftLeft_three (a : BitVec 64) :
    (a - 1) <<< 3 = BitVec.ofNat 64 (8 * a.toNat) - 8 := by
  apply BitVec.eq_of_toNat_eq
  simp only [BitVec.toNat_shiftLeft, BitVec.toNat_sub, BitVec.toNat_ofNat, Nat.shiftLeft_eq,
    BitVec.ofNat_eq_ofNat]
  omega

theorem ofNat_mul_succ_sub (k : Nat) :
    BitVec.ofNat 64 (8 * (k + 1)) - 8 - 8 = BitVec.ofNat 64 (8 * k) - 8 := by
  bv_omega

section

variable {lo modFrame : Nat} {s m : State} (lk : Linkage Func)

/-- A load of a stack argument of the routine, through `x19`. -/
theorem Framed.load_arg {t : State} (hf : Framed lo s t) (h : Entry lo modFrame s) {off : BitVec 64}
    (hlo : 0x50 ≤ off.toNat) (hhi : off.toNat + 8 ≤ 0x50 + 24) :
    t.load (t.reg (.x 19) + off) = read64 s.mem (s.spAddr + (off.toNat - 0x50)) := by
  have hroom := h.room_frame
  have htop := h.argsTop
  have hx19 := hf.x19
  have haddr : (t.reg (.x 19) + off).toNat = s.spAddr + (off.toNat - 0x50) := by bv_omega
  rw [State.load, haddr]
  exact hf.outside.read64 fun b hb _ => Or.inr (by omega)

theorem path_setup {t : State} (h : Entry lo modFrame s) (hp : Padded lo s m t) :
    ∃ u, CallPath lk (19, t) (26, u) ∧
      Copying lo s m (argc s).toNat u := by
  have hargc : t.load (t.reg (.x 19) + (0x40 + 0x10 + 0x0)) = argc s :=
    hp.framed.load_arg h (by decide) (by decide)
  have hstart : t.load (t.reg (.x 19) + (0x40 + 0x10 + 0x8)) = stackParamsStart s :=
    hp.framed.load_arg h (by decide) (by decide)
  have hpcall : t.load (t.reg (.x 19) + (0x40 + 0x10 + 0x10)) = pcall s :=
    hp.framed.load_arg h (by decide) (by decide)
  let block : List (Instr Label Func) := [.label .nopadding,
    .ldr (.x 0) (.x 19) (0x40 + 0x10 + 0x0), .ldr (.x 1) (.x 19) (0x40 + 0x10 + 0x8),
    .ldr (.x 9) (.x 19) (0x40 + 0x10 + 0x10), .sub (.x 0) (.x 0) 1, .lsl (.x 0) (.x 0) 3,
    .mov (.x 10) (.x 19)]
  have hrun : CallPath lk (19, t)
      (26, block.foldl exec t) :=
    path_data lk rfl block 19 t ⟨routeJniFunc.drop 26, rfl⟩ (by decide)
  have hmem : (block.foldl exec t).mem = t.mem := rfl
  have hregs : (block.foldl exec t).reg (.x 19) = t.reg (.x 19) ∧
      (block.foldl exec t).reg .sp = t.reg .sp ∧
      (block.foldl exec t).reg (.x 10) = t.reg (.x 19) ∧
      (block.foldl exec t).reg (.x 0) = (argc s - 1) <<< 3 ∧
      (block.foldl exec t).reg (.x 1) = stackParamsStart s ∧
      (block.foldl exec t).reg (.x 9) = pcall s := by
    simp only [block, List.foldl, exec, State.set_reg, State.set_load, reduceCtorEq, Reg.x.injEq,
      Fin.reduceEq, if_true, if_false, hargc, hstart, hpcall, and_self]
  obtain ⟨hx19, hsp, hx10, hx0, hx1, hx9⟩ := hregs
  refine ⟨_, hrun, ?_⟩
  refine ⟨Nat.le_refl _, ?_, ?_, hx1, hx9, ?_, ?_, ?_, ?_⟩
  · exact hp.framed.of_agreeOn (Nat.le_trans (by omega) h.room_frame) hx19
      (hmem ▸ Mem.AgreeOn.refl _ _)
  · rw [hx0, sub_one_shiftLeft_three]
  · rw [hx10, hp.framed.x19, Nat.sub_self, Nat.mul_zero, Nat.sub_zero]
  · rw [State.spAddr, hsp, Nat.sub_self, Nat.mul_zero, Nat.sub_zero]
    exact hp.sp
  · intro i hi hi'
    omega
  · rw [hmem]
    exact hp.below.mono fun b hb => hb.1

/-- One round pushes the next word. -/
theorem path_round {k : Nat} {t : State} (h : Entry lo modFrame s) (hc : Copying lo s m (k + 1) t) :
    ∃ u, Copying lo s m k u ∧
      CallPath lk (26, t) (26, u) := by
  have hroom := h.room
  have hwords := h.words_lt
  have htop := h.paramsTop
  have hle := hc.le
  have hx0 : (t.reg (.x 0)).toNat = 8 * k := by
    rw [hc.x0]
    bv_omega
  -- the test: `x0` is not negative yet
  let t₀ := t.compare (t.reg (.x 0)) (0 : BitVec 64)
  have hcmp : CallPath lk (26, t) (28, t₀) :=
    path_data lk rfl [.label .loop, .cmp (.x 0) 0] 26 t ⟨routeJniFunc.drop 28, rfl⟩ (by decide)
  have hmsb : (t.reg (.x 0)).msb = false := by
    rw [BitVec.msb_eq_false_iff_two_mul_lt]
    omega
  have hstay : step routeJniFunc lk (28, t₀) = some (29, t₀) := by
    have hif : step routeJniFunc lk (28, t₀) = some (if t₀.n != t₀.v then 35 else 29, t₀) := rfl
    rw [hif, State.compare_zero_lt, hmsb, if_neg Bool.false_ne_true]
  -- the body
  let block : List (Instr Label Func) := [.ldrReg (.x 2) (.x 1) (.x 0), .sub (.x 10) (.x 10) 8,
    .sub .sp .sp 8, .str (.x 2) (.x 10) 0, .sub (.x 0) (.x 0) 8]
  have hbody : CallPath lk (29, t₀)
      (34, block.foldl exec t₀) :=
    path_data lk rfl block 29 t₀ ⟨routeJniFunc.drop 34, rfl⟩ (by decide)
  have hback : step routeJniFunc lk (34, block.foldl exec t₀) =
      some (26, block.foldl exec t₀) := rfl
  have hload : t.load (stackParamsStart s + t.reg (.x 0)) = param s k := by
    have haddr : (stackParamsStart s + t.reg (.x 0)).toNat =
        (stackParamsStart s).toNat + 8 * k := by bv_omega
    rw [State.load, haddr, param]
    exact hc.framed.outside.read64 fun b hb hb' => h.param_outside (by omega) hb hb'
  have hregs : (block.foldl exec t₀).reg (.x 19) = t.reg (.x 19) ∧
      (block.foldl exec t₀).reg .sp = t.reg .sp - 8 ∧
      (block.foldl exec t₀).reg (.x 10) = t.reg (.x 10) - 8 ∧
      (block.foldl exec t₀).reg (.x 0) = t.reg (.x 0) - 8 ∧
      (block.foldl exec t₀).reg (.x 1) = t.reg (.x 1) ∧
      (block.foldl exec t₀).reg (.x 9) = t.reg (.x 9) := by
    simp only [block, t₀, List.foldl, exec, State.set_reg, State.store_reg, State.compare_reg,
      reduceCtorEq, Reg.x.injEq, Fin.reduceEq, if_true, if_false, and_self]
  obtain ⟨hx19, hsp, hx10, hx0', hx1, hx9⟩ := hregs
  have hslot : (t.reg (.x 10) - 8).toNat = s.spAddr - 0x50 - 8 * ((argc s).toNat - k) := by
    have hx10t := hc.x10
    bv_omega
  have hmem : (block.foldl exec t₀).mem =
      write64 t.mem (s.spAddr - 0x50 - 8 * ((argc s).toNat - k)) (param s k) := by
    have hst : (block.foldl exec t₀).mem = write64 t.mem (t.reg (.x 10) - 8 + 0#64).toNat
        (t.load (t.reg (.x 1) + t.reg (.x 0))) := rfl
    rw [hst, hc.x1, hload, BitVec.add_zero, hslot]
  refine ⟨_, ?_, hcmp.trans (.head (atInstr_eq_false rfl (by decide)) hstay
    (hbody.trans (.single (atInstr_eq_false rfl (by decide)) hback)))⟩
  refine ⟨by omega, ?_, ?_, hx1.trans hc.x1, hx9.trans hc.x9, ?_, ?_, ?_, ?_⟩
  · exact hc.framed.store (by omega) hx19 hmem (by omega) (by omega)
  · rw [hx0', hc.x0, ofNat_mul_succ_sub]
  · rw [hx10, hslot]
  · have hspt : (t.reg .sp).toNat = _ := hc.sp
    have hpad : padding (argc s).toNat ≤ 8 := by
      rw [padding]
      split <;> omega
    rw [State.spAddr, hsp]
    bv_omega
  · intro i hi hi'
    rw [hmem]
    by_cases hik : i = k
    · rw [hik, read64_write64_same]
    · rw [read64_write64_of_disjoint _ _ (Or.inr (by omega))]
      exact hc.words i (by omega) hi'
  · rw [hmem]
    refine (hc.below.mono fun b hb => ⟨hb.1, ?_⟩).write64 _ fun b hb => Or.inl hb.2
    have := hb.2
    omega

/-- The loop ends with every word pushed, and goes to `call`. -/
theorem path_loop {t : State} (h : Entry lo modFrame s) (hc : Copying lo s m (argc s).toNat t) :
    ∃ u, Copying lo s m 0 u ∧
      CallPath lk (26, t) (35, u) := by
  let inv (k : Nat) (c : Config) : Prop := c.1 = 26 ∧ Copying lo s m k c.2
  have hround : ∀ k c, inv (k + 1) c → ∃ d, inv k d ∧ CallPath lk c d := by
    rintro k ⟨pc, t⟩ ⟨rfl, hct⟩
    obtain ⟨u, hu, hrun⟩ := path_round lk h hct
    exact ⟨(26, u), ⟨rfl, hu⟩, hrun⟩
  obtain ⟨⟨pc, u⟩, ⟨rfl, hu⟩, hrun⟩ := Path.iterate hround (argc s).toNat (26, t) ⟨rfl, hc⟩
  let u₀ := u.compare (u.reg (.x 0)) (0 : BitVec 64)
  have hcmp : CallPath lk (26, u) (28, u₀) :=
    path_data lk rfl [.label .loop, .cmp (.x 0) 0] 26 u ⟨routeJniFunc.drop 28, rfl⟩ (by decide)
  have hmsb : (u.reg (.x 0)).msb = true := by rw [hu.x0]; decide
  have hexit : step routeJniFunc lk (28, u₀) = some (35, u₀) := by
    have hif : step routeJniFunc lk (28, u₀) = some (if u₀.n != u₀.v then 35 else 29, u₀) := rfl
    rw [hif, State.compare_zero_lt, hmsb, if_pos rfl]
  refine ⟨u₀, ?_, hrun.trans (hcmp.trans (.single (atInstr_eq_false rfl (by decide)) hexit))⟩
  exact ⟨hu.le, hu.framed.of_agreeOn (Nat.le_trans (by omega) h.room_frame) rfl
    (Mem.AgreeOn.refl _ _), hu.x0, hu.x1, hu.x9, hu.x10, hu.sp, hu.words, hu.below⟩

end

/-! ## The call -/

/-- At `blr x9`. -/
structure AtCall (lo : Nat) (s m b : State) : Prop where
  framed : Framed lo s b
  target : b.reg (.x 9) = pcall s
  regs : ∀ i : Fin 31, i.val < 8 → b.reg (.x i) = s.reg (.x i)
  sp : b.spAddr = s.spAddr - 0x50 - padding (argc s).toNat - 8 * (argc s).toNat
  words : ∀ i, i < (argc s).toNat →
    read64 b.mem (s.spAddr - 0x50 - 8 * ((argc s).toNat - i)) = param s i
  below : Mem.AgreeOn (fun c => c < s.spAddr - 0x50 - padding (argc s).toNat ∧
    c < s.spAddr - 0x50 - 8 * (argc s).toNat) m.mem b.mem

section

variable {lo modFrame : Nat} {s m : State} (lk : Linkage Func)

/-- A load of a saved register, through `x19`. -/
theorem Framed.load_saved {t : State} (hf : Framed lo s t) (h : Entry lo modFrame s)
    {off : BitVec 64}
    (i : Fin 31) (hi : i.val < 8) (hoff : off.toNat = 0x38 - 8 * i.val) :
    t.load (t.reg (.x 19) + off) = s.reg (.x i) := by
  have hroom := h.room_frame
  have htop := h.argsTop
  have hx19 := hf.x19
  have haddr : (t.reg (.x 19) + off).toNat = s.spAddr - 0x18 - 8 * i.val := by bv_omega
  rw [State.load, haddr]
  exact hf.saved i hi

theorem path_call {u : State} (h : Entry lo modFrame s) (hc : Copying lo s m 0 u) :
    ∃ b, CallPath lk (35, u) (callPos, b) ∧
      AtCall lo s m b := by
  let block : List (Instr Label Func) := [.label .call, .ldr (.x 0) (.x 19) (0x40 - 0x8),
    .ldr (.x 1) (.x 19) (0x40 - 0x10), .ldr (.x 2) (.x 19) (0x40 - 0x18),
    .ldr (.x 3) (.x 19) (0x40 - 0x20), .ldr (.x 4) (.x 19) (0x40 - 0x28),
    .ldr (.x 5) (.x 19) (0x40 - 0x30), .ldr (.x 6) (.x 19) (0x40 - 0x38),
    .ldr (.x 7) (.x 19) (0x40 - 0x40)]
  have hrun : CallPath lk (35, u)
      (44, block.foldl exec u) :=
    path_data lk rfl block 35 u ⟨routeJniFunc.drop 44, rfl⟩ (by decide)
  have hmem : (block.foldl exec u).mem = u.mem := rfl
  have hkeep : (block.foldl exec u).reg (.x 19) = u.reg (.x 19) ∧
      (block.foldl exec u).reg .sp = u.reg .sp ∧
      (block.foldl exec u).reg (.x 9) = u.reg (.x 9) := by
    simp only [block, List.foldl, exec, State.set_reg, reduceCtorEq, Reg.x.injEq, Fin.reduceEq,
      if_false, and_self]
  obtain ⟨hx19, hsp, hx9⟩ := hkeep
  have hload : ∀ (i : Fin 31) (off : BitVec 64), i.val < 8 → off.toNat = 0x38 - 8 * i.val →
      u.load (u.reg (.x 19) + off) = s.reg (.x i) :=
    fun i off hi hoff => hc.framed.load_saved h i hi hoff
  have hregs : ∀ i : Fin 31, i.val < 8 → (block.foldl exec u).reg (.x i) = s.reg (.x i) := by
    rintro ⟨i, hlt⟩ hi
    replace hi : i < 8 := hi
    interval_cases i
    all_goals
      simp only [block, List.foldl, exec, State.set_reg, State.set_load, Reg.x.injEq,
        Fin.reduceEq, Fin.reduceFinMk, if_true, if_false]
      exact hload _ _ (by decide) (by decide)
  refine ⟨_, hrun, ⟨?_, hx9.trans hc.x9, hregs, ?_, ?_, ?_⟩⟩
  · exact hc.framed.of_agreeOn (Nat.le_trans (by omega) h.room_frame) hx19
      (hmem ▸ Mem.AgreeOn.refl _ _)
  · rw [State.spAddr, hsp]
    exact hc.sp
  · exact fun i hi => hmem ▸ hc.words i (Nat.zero_le i) hi
  · rw [hmem]
    exact hc.below

/-- The run from entry to `blr x9`. -/
theorem path_atCall (hmod : IsModForAsm lo modFrame (lk.func .modForAsm))
    (h : Entry lo modFrame s) :
    ∃ b, CallPath lk (0, s) (callPos, b) ∧
      AtCall lo s (afterMod lk s) b := by
  obtain ⟨t, htRun, ht⟩ := path_padding hmod h
  obtain ⟨u, huRun, hu⟩ := path_setup lk h ht
  obtain ⟨v, hv, hvRun⟩ := path_loop lk h hu
  obtain ⟨b, hbRun, hb⟩ := path_call lk h hv
  exact ⟨b, (path_afterMod s lk).trans (htRun.trans (huRun.trans (hvRun.trans hbRun))), hb⟩

end

/-! ## What the callee finds -/

section

variable {lo modFrame : Nat} {s m : State} {lk : Linkage Func}

/-- With an even count each word is in its place. -/
theorem AtCall.word_of_even {b : State} (hb : AtCall lo s m b) (h : Entry lo modFrame s)
    (heven : (argc s).toNat % 2 = 0) {i : Nat} (hi : i < (argc s).toNat) :
    read64 b.mem (b.spAddr + 8 * i) = param s i := by
  have hroom := h.room
  have haddr : b.spAddr + 8 * i = s.spAddr - 0x50 - 8 * ((argc s).toNat - i) := by
    rw [hb.sp, padding, if_pos heven]
    omega
  rw [haddr]
  exact hb.words i hi

/-- With an odd count the callee finds a stale doubleword first. -/
theorem AtCall.word_zero_of_odd {b : State} (hb : AtCall lo s (afterMod lk s) b)
    (h : Entry lo modFrame s)
    (hodd : (argc s).toNat % 2 ≠ 0) : read64 b.mem b.spAddr = staleWord lk s := by
  have hroom := h.room
  have hpad : padding (argc s).toNat = 8 := by rw [padding, if_neg hodd]
  have haddr : b.spAddr = s.spAddr - 0x58 - 8 * (argc s).toNat := by
    rw [hb.sp, hpad]
    omega
  rw [haddr, staleWord]
  refine hb.below.read64 fun c hlo hhi => ?_
  rw [hpad]
  omega

/-- With an odd count every other word is one place late. -/
theorem AtCall.word_succ_of_odd {b : State} (hb : AtCall lo s m b) (h : Entry lo modFrame s)
    (hodd : (argc s).toNat % 2 ≠ 0) {i : Nat} (hi : i < (argc s).toNat) :
    read64 b.mem (b.spAddr + 8 * (i + 1)) = param s i := by
  have hroom := h.room
  have haddr : b.spAddr + 8 * (i + 1) = s.spAddr - 0x50 - 8 * ((argc s).toNat - i) := by
    rw [hb.sp, padding, if_neg hodd]
    omega
  rw [haddr]
  exact hb.words i hi

theorem AtCall.aligned {b : State} (hb : AtCall lo s m b) (h : Entry lo modFrame s) :
    16 ∣ b.spAddr := by
  have hroom := h.room
  have halign := h.aligned
  rw [hb.sp, padding]
  split <;> omega

/-- The callee finds its call exactly when the count is even, or when the words
are all equal to the stale doubleword and so cannot be told apart. -/
theorem AtCall.forwarded_iff {b : State} (hb : AtCall lo s (afterMod lk s) b)
    (h : Entry lo modFrame s) :
    Forwarded s b ↔
      (argc s).toNat % 2 = 0 ∨ ∀ i, i < (argc s).toNat → param s i = staleWord lk s := by
  constructor
  · intro hf
    by_cases heven : (argc s).toNat % 2 = 0
    · exact Or.inl heven
    · refine Or.inr fun i => ?_
      induction i with
      | zero =>
          intro hi
          rw [← hf.words 0 hi, Nat.mul_zero, Nat.add_zero]
          exact hb.word_zero_of_odd h heven
      | succ i ih =>
          intro hi
          rw [← hf.words (i + 1) hi, hb.word_succ_of_odd h heven (by omega)]
          exact ih (by omega)
  · intro hcond
    refine ⟨hb.target, hb.regs, hb.aligned h, fun i hi => ?_⟩
    by_cases heven : (argc s).toNat % 2 = 0
    · exact hb.word_of_even h heven hi
    · have hstale := hcond.resolve_left heven
      cases i with
      | zero =>
          rw [Nat.mul_zero, Nat.add_zero, hb.word_zero_of_odd h heven, hstale 0 hi]
      | succ i =>
          rw [hb.word_succ_of_odd h heven (by omega), hstale i (by omega), hstale (i + 1) hi]

/-! ## The return -/

/-- After a callee that keeps what it must, the routine returns. -/
theorem AtCall.returns {b : State} (hb : AtCall lo s m b) (h : Entry lo modFrame s)
    (hkept : Kept (above b) (calleeEntry lk b) (calleeExit lk b)) :
    ∃ r, RunsTo (step routeJniFunc lk) (atInstr routeJniFunc .ret) (callPos, b) (retPos, r) ∧
      Returned s (calleeExit lk b) r := by
  have hroom := h.room
  have htop := h.argsTop
  let c := calleeExit lk b
  have hcall : step routeJniFunc lk (44, b) = some (45, c) := rfl
  let block : List (Instr Label Func) :=
    [.label .ret, .mov .sp (.x 19), .add .sp .sp 0x40, .ldpPost (.x 19) (.x 30) .sp 0x10]
  have hblock : Path (step routeJniFunc lk) (atInstr routeJniFunc .ret) (45, c)
      (49, block.foldl exec c) :=
    path_data lk rfl block 45 c ⟨routeJniFunc.drop 49, rfl⟩ (by decide)
  have hrun : RunsTo (step routeJniFunc lk) (atInstr routeJniFunc .ret) (callPos, b)
      (retPos, block.foldl exec c) :=
    (Path.head (atInstr_eq_false rfl (by decide)) hcall hblock).runsTo rfl
  refine ⟨_, hrun, ?_⟩
  have hx19 : (c.reg (.x 19)).toNat = s.spAddr - 0x50 := by
    rw [hkept.saved 19 (by decide) (by decide), calleeEntry, State.set_reg, if_neg (by decide)]
    exact hb.framed.x19
  have hmem : ∀ a, b.spAddr ≤ a → read64 c.mem a = read64 b.mem a := fun a ha =>
    hkept.mem.read64 fun d hd _ => Nat.le_trans ha hd
  have hsp := hb.sp
  have hloadX19 : c.load (c.reg (.x 19) + 0x40) = s.reg (.x 19) := by
    have haddr : (c.reg (.x 19) + 0x40).toNat = s.spAddr - 0x10 := by bv_omega
    rw [State.load, haddr, hmem _ (by omega)]
    exact hb.framed.savedX19
  have hloadX30 : c.load (c.reg (.x 19) + 0x40 + 8) = s.reg (.x 30) := by
    have haddr : (c.reg (.x 19) + 0x40 + 8).toNat = s.spAddr - 0x8 := by bv_omega
    rw [State.load, haddr, hmem _ (by omega)]
    exact hb.framed.savedX30
  have hspOut : c.reg (.x 19) + 0x40 + 0x10 = s.reg .sp := by
    rw [State.spAddr] at hx19 hroom
    bv_omega
  constructor <;>
    simp only [block, List.foldl, exec, State.set_reg, State.set_load, reduceCtorEq, Reg.x.injEq,
      Fin.reduceEq, if_true, if_false, hloadX19, hloadX30, hspOut]
  rfl

end

/-- `route_jni_func` forwards a call exactly when `argc` is even, or when the
words to forward are all equal to the stale doubleword below them. -/
theorem routeJniFunc_forwards_iff {lo modFrame : Nat} {s : State} {lk : Linkage Func}
    (hmod : IsModForAsm lo modFrame (lk.func .modForAsm)) (h : Entry lo modFrame s) :
    Forwards lk s ↔
      (argc s).toNat % 2 = 0 ∨ ∀ i, i < (argc s).toNat → param s i = staleWord lk s := by
  obtain ⟨b, hrun, hb⟩ := path_atCall lk hmod h
  have hto := hrun.runsTo rfl
  constructor
  · rintro ⟨b', hto', hf, -⟩
    have hbb : b' = b := (Prod.mk.inj (hto'.unique hto)).2
    rw [hbb] at hf
    exact (hb.forwarded_iff h).mp hf
  · intro hcond
    exact ⟨b, hto, (hb.forwarded_iff h).mpr hcond, hb.returns h⟩

/-! ## Two calls

The stack pointer is `0x1000`, the words are at `0x2000`, and the stack below is
zero. -/

/-- A `mod_for_asm` that stores its two arguments in a frame of sixteen bytes, and
a callee that returns at once. -/
def sampleLinkage : Linkage Func where
  link := fun _ => 0
  func := fun _ s =>
    let num := (s.reg (.x 0)).setWidth 32
    let mod := (s.reg (.x 1)).setWidth 32
    { s.set (.x 0) ((modForAsm num mod).setWidth 64) with
      mem := write32 (write32 s.mem (s.spAddr - 16 + 12) num) (s.spAddr - 16 + 8) mod }
  code := fun _ s => s

/-- An entry with `n` words to forward, of which the first is `7`. -/
def sampleEntry (n : BitVec 64) : State where
  reg := fun r => if r = .sp then 0x1000 else 0
  n := false
  z := false
  v := false
  mem := write64 (write64 (write64 (write64 (fun _ => 0) 0x1000 n) 0x1008 0x2000) 0x1010 0x3000)
    0x2000 7

theorem sampleLinkage_isModForAsm (lo : Nat) :
    IsModForAsm lo 16 (sampleLinkage.func .modForAsm) where
  result := fun s _ => by
    have hreg : (sampleLinkage.func .modForAsm s).reg (.x 0) =
        (modForAsm ((s.reg (.x 0)).setWidth 32) ((s.reg (.x 1)).setWidth 32)).setWidth 64 := rfl
    rw [hreg]
    exact BitVec.setWidth_setWidth_of_le _ (by decide)
  kept := fun s hs => by
    have hroom := hs.room
    refine ⟨rfl, fun i hi _ => ?_, ?_⟩
    · have hne : i ≠ 0 := fun h => by simp [h] at hi
      show (s.set (.x 0) _).reg (.x i) = _
      rw [State.set_reg, if_neg (by simpa using hne)]
    · have hframe : ∀ a, s.spAddr - 16 ≤ a → a + 4 ≤ s.spAddr →
          ∀ b, outsideFree lo s b → b < a ∨ a + 4 ≤ b := by
        intro a ha ha' b hb
        rcases hb with hb | hb <;> omega
      exact ((Mem.AgreeOn.refl _ _).write32 _ (hframe _ (by omega) (by omega))).write32 _
        (hframe _ (by omega) (by omega))

theorem sampleEntry_one : Entry 0 16 (sampleEntry 1) where
  aligned := by decide
  argsTop := by decide
  nonneg := by decide
  room := by decide
  modRoom := by decide
  paramsTop := by decide
  paramsOutside := by decide

theorem sampleEntry_two : Entry 0 16 (sampleEntry 2) where
  aligned := by decide
  argsTop := by decide
  nonneg := by decide
  room := by decide
  modRoom := by decide
  paramsTop := by decide
  paramsOutside := by decide

/-- Two words are forwarded. -/
theorem routeJniFunc_forwards_two : Forwards sampleLinkage (sampleEntry 2) :=
  (routeJniFunc_forwards_iff (sampleLinkage_isModForAsm 0) sampleEntry_two).mpr
    (Or.inl (by decide))

/-- One word is not: the callee finds the zero below it. -/
theorem routeJniFunc_not_forwards_one :
    IsModForAsm 0 16 (sampleLinkage.func .modForAsm) ∧ Entry 0 16 (sampleEntry 1) ∧
      ¬Forwards sampleLinkage (sampleEntry 1) := by
  refine ⟨sampleLinkage_isModForAsm 0, sampleEntry_one, ?_⟩
  obtain ⟨b, hrun, hb⟩ := path_atCall sampleLinkage (sampleLinkage_isModForAsm 0) sampleEntry_one
  rintro ⟨b', hto', hf, -⟩
  have hbb : b' = b := (Prod.mk.inj (hto'.unique (hrun.runsTo rfl))).2
  rw [hbb] at hf
  have hword : read64 b.mem b.spAddr = 7 := hf.words 0 (by decide)
  have hstale : staleWord sampleLinkage (sampleEntry 1) = 0 := by
    -- the frame of `mod_for_asm` leaves the doubleword at its lower end alone
    have hmem : (prologue (sampleEntry 1)).mem = frame (sampleEntry 1) := prologue_mem (by decide)
    have hsp : ((prologue (sampleEntry 1)).set (.x 30) 0).spAddr = 0xfb0 := by
      rw [State.spAddr, State.set_reg, if_neg (by decide), prologue_sp]
      rfl
    have hafter : Mem.AgreeOn (fun a => a < 0xfa8) (frame (sampleEntry 1))
        (afterMod sampleLinkage (sampleEntry 1)).mem := by
      rw [← hmem]
      simp only [afterMod, sampleLinkage, hsp, State.set_mem]
      exact ((Mem.AgreeOn.refl _ _).write32 _ fun a ha => Or.inl (by omega)).write32 _
        fun a ha => Or.inl (by omega)
    rw [staleWord, hafter.read64 fun a _ ha => Nat.lt_of_lt_of_le ha (by decide)]
    decide
  rw [hb.word_zero_of_odd sampleEntry_one (by decide), hstale] at hword
  exact absurd hword (by decide)

end RouteFunc
