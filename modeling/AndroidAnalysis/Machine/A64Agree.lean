import AndroidAnalysis.Machine.A64

/-!
# States that agree up to some registers and addresses

Two runs of moved code are compared while some registers and some addresses
differ: a scratch register, the return address of a call, the bytes where the
code itself lies.  `Agree d p` relates two states that differ in registers of
`d` and at addresses of `p` alone.

`BlindAt` says that an instruction, in the state it is met in, does not look at
those registers and addresses and does not store to those addresses.  It is
about one state and not about all of them: a load through a pointer is blind
where the pointer points elsewhere.

`path_word` runs one word that lies in memory, and `after` counts instructions
on from an address.
-/

namespace Machine.A64

open Machine.Arm64 (Reg xField spField movkValue movkValue_quarters)

variable {E : Type}

/-! ## Agreement -/

/-- The states differ in registers of `d` and at addresses of `p` alone. -/
structure Agree (d : Reg → Prop) (p : Nat → Prop) (s t : Core E) : Prop where
  reg : ∀ r, ¬ d r → t.reg r = s.reg r
  n : t.n = s.n
  z : t.z = s.z
  c : t.c = s.c
  v : t.v = s.v
  rest : t.rest = s.rest
  mem : Mem.AgreeOn (fun b => ¬ p b) s.mem t.mem

section
variable {d d' : Reg → Prop} {p : Nat → Prop} {s t : Core E}

theorem Agree.mono (h : Agree d p s t) (hd : ∀ r, d r → d' r) : Agree d' p s t :=
  ⟨fun r hr => h.reg r fun hdr => hr (hd r hdr), h.n, h.z, h.c, h.v, h.rest, h.mem⟩

/-- The same value in the same register. -/
theorem Agree.set (h : Agree d p s t) (r : Reg) (w : BitVec 64) :
    Agree d p (s.set r w) (t.set r w) := by
  refine ⟨fun q hq => ?_, h.n, h.z, h.c, h.v, h.rest, h.mem⟩
  rw [Core.set_reg, Core.set_reg]
  split
  next => rfl
  next => exact h.reg q hq

theorem Agree.put (h : Agree d p s t) (r : Option Reg) (w : BitVec 64) :
    Agree d p (s.put r w) (t.put r w) := by
  cases r with
  | none => exact h
  | some r => exact h.set r w

/-- A register that may differ anyway. -/
theorem Agree.set_right (h : Agree d p s t) {r : Reg} (hr : d r) (w : BitVec 64) :
    Agree d p s (t.set r w) := by
  refine ⟨fun q hq => ?_, h.n, h.z, h.c, h.v, h.rest, h.mem⟩
  have hne : ¬ q = r := fun heq => hq (heq ▸ hr)
  rw [Core.set_reg, if_neg hne]
  exact h.reg q hq

theorem Agree.set_left (h : Agree d p s t) {r : Reg} (hr : d r) (w : BitVec 64) :
    Agree d p (s.set r w) t := by
  refine ⟨fun q hq => ?_, h.n, h.z, h.c, h.v, h.rest, h.mem⟩
  have hne : ¬ q = r := fun heq => hq (heq ▸ hr)
  rw [Core.set_reg, if_neg hne]
  exact h.reg q hq

/-- The registers an operand names do not differ. -/
def Same (d : Reg → Prop) (f : BitVec 5) : Prop := ∀ r, xField f = some r → ¬ d r

theorem Agree.get (h : Agree d p s t) {f : BitVec 5} (hf : Same d f) :
    t.get (xField f) = s.get (xField f) := by
  cases hx : xField f with
  | none => rfl
  | some r => exact h.reg r (hf r hx)

theorem Agree.holds (h : Agree d p s t) (cond : BitVec 4) : t.holds cond = s.holds cond := by
  rw [Core.holds, Core.holds, h.n, h.z, h.c, h.v]

theorem Agree.zero (h : Agree d p s t) {rt : BitVec 5} (hrt : Same d rt) (sf : Bool) :
    t.zero sf rt = s.zero sf rt := by
  rw [Core.zero, Core.zero, h.get hrt]

theorem Agree.bit (h : Agree d p s t) {rt : BitVec 5} (hrt : Same d rt) (b : BitVec 6) :
    t.bit rt b = s.bit rt b := by
  rw [Core.bit, Core.bit, h.get hrt]

theorem Agree.read64 (h : Agree d p s t) {a : Nat} (ha : ∀ b, a ≤ b → b < a + 8 → ¬ p b) :
    read64 t.mem a = read64 s.mem a := h.mem.read64 ha

end

/-- Registers that may differ, and one more. -/
def orReg (d : Reg → Prop) (r : Reg) : Reg → Prop := fun q => d q ∨ q = r

/-- An instruction that does not read the program counter does not look at what
differs, does not store to the addresses that differ, and does not go on at the
next instruction by a branch. -/
def BlindAt (isa : Isa E) (d : Reg → Prop) (p : Nat → Prop) (pc : BitVec 64) (i : Plain)
    (s : Core E) : Prop :=
  ∀ t, Agree d p s t → ∃ s' t' next, effect isa i s = some (s', next) ∧
    effect isa i t = some (t', next) ∧ next ≠ some (pc + 4) ∧ Agree d p s' t' ∧
    Mem.AgreeOn p s.mem s'.mem ∧ Mem.AgreeOn p t.mem t'.mem

/-! ## Instructions in memory -/

/-- The address of the `k`th instruction from one on. -/
def after (pc : BitVec 64) : Nat → BitVec 64
  | 0 => pc
  | k + 1 => after (pc + 4) k

theorem after_eq : ∀ (k : Nat) (pc : BitVec 64), after pc k = pc + BitVec.ofNat 64 (4 * k)
  | 0, pc => by rw [after, Nat.mul_zero, BitVec.add_zero]
  | k + 1, pc => by
      rw [after, after_eq k, Nat.mul_succ, Nat.add_comm, BitVec.ofNat_add, BitVec.add_assoc]
      rfl

theorem after_add (pc : BitVec 64) : ∀ (j k : Nat) , after pc (j + k) = after (after pc j) k := by
  intro j k
  rw [after_eq, after_eq, after_eq, Nat.mul_add, BitVec.ofNat_add, BitVec.add_assoc]

variable {isa : Isa E} {stop : State E → Bool}

/-- No state at the `k` instructions from `pc` on is accepted. -/
def Within (stop : State E → Bool) (pc : BitVec 64) (k : Nat) : Prop :=
  ∀ j, j < k → ∀ s, stop ⟨after pc j, s⟩ = false

theorem Within.here {pc : BitVec 64} {k : Nat} (h : Within stop pc k) (hk : 0 < k) (s : Core E) :
    stop ⟨pc, s⟩ = false := h 0 hk s

theorem Within.drop {pc : BitVec 64} {j k : Nat} (h : Within stop pc (j + k)) :
    Within stop (after pc j) k := by
  intro i hi s
  rw [← after_add]
  exact h (j + i) (Nat.add_lt_add_left hi j) s

theorem Within.mono {pc : BitVec 64} {j k : Nat} (h : Within stop pc k) (hjk : j ≤ k) :
    Within stop pc j := fun i hi => h i (Nat.lt_of_lt_of_le hi hjk)

/-- One word that lies in memory. -/
theorem path_word {pc : BitVec 64} {s : Core E} {t : State E} {i : Instr}
    (hstop : stop ⟨pc, s⟩ = false) (hi : decode (read32 s.mem pc.toNat) = i)
    (hexec : exec isa pc s i = some t) : Path (step isa) stop ⟨pc, s⟩ t := by
  refine .single hstop ?_
  rw [step, State.word, hi]
  exact hexec

theorem path_plain {pc : BitVec 64} {s s' : Core E} {i : Plain} (hstop : stop ⟨pc, s⟩ = false)
    (hi : decode (read32 s.mem pc.toNat) = .plain i) (heff : effect isa i s = some (s', none)) :
    Path (step isa) stop ⟨pc, s⟩ ⟨pc + 4, s'⟩ :=
  path_word hstop hi (by rw [exec, heff]; rfl)

/-- A value in quarters: one `movz` and three `movk`. -/
theorem path_quarters {pc : BitVec 64} {s : Core E} {rd : BitVec 5} {v : BitVec 64}
    (hin : Within stop pc 4)
    (h0 : decode (read32 s.mem pc.toNat) = .plain (.movz rd (v.extractLsb' 0 16) 0))
    (h1 : decode (read32 s.mem (after pc 1).toNat) = .plain (.movk rd (v.extractLsb' 16 16) 1))
    (h2 : decode (read32 s.mem (after pc 2).toNat) = .plain (.movk rd (v.extractLsb' 32 16) 2))
    (h3 : decode (read32 s.mem (after pc 3).toNat) = .plain (.movk rd (v.extractLsb' 48 16) 3)) :
    Path (step isa) stop ⟨pc, s⟩ ⟨after pc 4, s.put (xField rd) v⟩ := by
  let w0 := movkValue 0 (v.extractLsb' 0 16) 0
  let w1 := movkValue w0 (v.extractLsb' 16 16) 16
  let w2 := movkValue w1 (v.extractLsb' 32 16) 32
  have hv : movkValue w2 (v.extractLsb' 48 16) 48 = v := movkValue_quarters 0 v
  have hput (w w' : BitVec 64) :
      (s.put (xField rd) w).put (xField rd) w' = s.put (xField rd) w' := by
    cases xField rd with
    | none => rfl
    | some r => exact Core.set_set s r w w'
  -- What is put into `xzr` is lost at every step.
  have hmovk (w : BitVec 64) (imm : BitVec 16) (hw : BitVec 2) :
      effect isa (.movk rd imm hw) (s.put (xField rd) w) =
        some (s.put (xField rd) (movkValue w imm (16 * hw.toNat)), none) := by
    rw [effect, hput]
    cases xField rd with
    | none => rfl
    | some r => simp only [Core.put_some, Core.get_some, Core.set_reg, if_true]
  have p0 : Path (step isa) stop ⟨pc, s⟩ ⟨after pc 1, s.put (xField rd) w0⟩ :=
    path_plain (hin.here (by decide) _) h0 rfl
  have p1 : Path (step isa) stop ⟨after pc 1, s.put (xField rd) w0⟩
      ⟨after pc 2, s.put (xField rd) w1⟩ :=
    path_plain (hin 1 (by decide) _) (by rwa [Core.put_mem]) (hmovk w0 _ 1)
  have p2 : Path (step isa) stop ⟨after pc 2, s.put (xField rd) w1⟩
      ⟨after pc 3, s.put (xField rd) w2⟩ :=
    path_plain (hin 2 (by decide) _) (by rwa [Core.put_mem]) (hmovk w1 _ 2)
  have p3 : Path (step isa) stop ⟨after pc 3, s.put (xField rd) w2⟩
      ⟨after pc 4, s.put (xField rd) v⟩ := by
    have heff := hmovk w2 (v.extractLsb' 48 16) 3
    rw [show 16 * (3 : BitVec 2).toNat = 48 from rfl, hv] at heff
    exact path_plain (hin 3 (by decide) _) (by rwa [Core.put_mem]) heff
  exact ((p0.trans p1).trans p2).trans p3

end Machine.A64
