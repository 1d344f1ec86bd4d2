import AndroidAnalysis.Dobby.RelocationStep

/-!
# Runs through a relocated block

`leave` runs a block of instructions up to the state in which control leaves
it, by a branch or over its end.  `run_relocated` says that the relocated block
runs from an agreeing state to an agreeing state at the same address, and
`Left` says what may differ there: `x17`, and after a call the return address,
which on either side is that of the same instruction.

The induction is on the block.  Its invariant is that the rest of the block and
the rest of the relocated code are still in memory, and this is what `CodeIn`
carries: the code lies at addresses that no instruction stores to.

`relocated_simulates` is the result about the code of `GenRelocateCodeAndBranch`
where it lies in memory, from any instruction of the block on.  The first is the
entry of the hooked function, and the others are where calls return to.
-/

namespace Dobby

open Machine Machine.A64
open Machine.Arm64 (Reg)

variable {E : Type}

/-! ## Code that stays -/

/-- Items that lie in memory at addresses of `p`. -/
def CodeIn (p : Nat → Prop) (m : Mem) (a : BitVec 64) (is : List Item) : Prop :=
  ∀ m', Mem.AgreeOn p m m' → CodeAt m' a is

section
variable {p : Nat → Prop} {m m' : Mem} {a : BitVec 64} {is js : List Item}

theorem CodeIn.codeAt (h : CodeIn p m a is) : CodeAt m a is := h m (.refl _ _)

theorem CodeIn.agreeOn (h : CodeIn p m a is) (hm : Mem.AgreeOn p m m') : CodeIn p m' a is :=
  fun m'' hm' => h m'' (hm.trans hm')

theorem CodeIn.right (h : CodeIn p m a (is ++ js)) : CodeIn p m (after a is.length) js :=
  fun m' hm => (codeAt_append.mp (h m' hm)).2

theorem CodeIn.tail {i : Item} (h : CodeIn p m a (i :: is)) : CodeIn p m (after a 1) is :=
  fun m' hm => (codeAt_cons.mp (h m' hm)).2

theorem CodeIn.left (h : CodeIn p m a (is ++ js)) : CodeIn p m a is :=
  fun m' hm => (codeAt_append.mp (h m' hm)).1

end

/-! ## Leaving a block -/

/-- The state in which control leaves `k` instructions. -/
def leave (isa : Isa E) : Nat → State E → Option (State E)
  | 0, s => some s
  | k + 1, s => (step isa s).bind fun s' => if s'.pc = s.pc + 4 then leave isa k s' else some s'

/-- Every instruction on the way through a block is undisturbed by what differs
when it is met. -/
def UndisturbedRun (isa : Isa E) (p : Nat → Prop) : Nat → (Reg → Prop) → State E → Prop
  | 0, _, _ => True
  | k + 1, d, s => Undisturbed isa d p s ∧ ∀ s', step isa s = some s' → s'.pc = s.pc + 4 →
      UndisturbedRun isa p k (clobber d (decode s.word)) s'

/-- Control has left a block at `src` and its relocated code at `dst`. -/
inductive Left (ndebug : Bool) (insts : List (BitVec 32)) (src dst : BitVec 64) (d : Reg → Prop)
    (p : Nat → Prop) : State E → State E → Prop
  | branch {a : BitVec 64} {s t : Core E} : Agree (orReg d x17) p s t →
      Left ndebug insts src dst d p ⟨a, s⟩ ⟨a, t⟩
  | call {a : BitVec 64} {s t : Core E} (k : Nat) (is : List Item) : k ≤ insts.length →
      blockItems ndebug src (insts.take k) = some is → s.reg x30 = after src k →
      t.reg x30 = after dst is.length → Agree (orReg (orReg d x17) x30) p s t →
      Left ndebug insts src dst d p ⟨a, s⟩ ⟨a, t⟩

theorem clobber_le (d : Reg → Prop) (i : Instr) : ∀ q, clobber d i q → orReg d x17 q := by
  intro q hq
  cases i with
  | ldrLit opc rt off => exact hq
  | _ => exact .inl hq

theorem orReg_mono {d d' : Reg → Prop} (r : Reg) (h : ∀ q, d q → d' q) :
    ∀ q, orReg d r q → orReg d' r q := fun q hq => hq.imp_left (h q)

theorem orReg_clobber (d : Reg → Prop) (i : Instr) :
    ∀ q, orReg (clobber d i) x17 q → orReg d x17 q := by
  rintro q (hq | rfl)
  · exact clobber_le d i q hq
  · exact .inr rfl

theorem blockItems_append (ndebug : Bool) : ∀ (xs ys : List (BitVec 32)) (cur : BitVec 64)
    {is js : List Item}, blockItems ndebug cur xs = some is →
    blockItems ndebug (after cur xs.length) ys = some js →
    blockItems ndebug cur (xs ++ ys) = some (is ++ js)
  | [], ys, cur, is, js, hxs, hys => by
      cases hxs
      exact hys
  | x :: xs, ys, cur, is, js, hxs, hys => by
      rw [blockItems] at hxs
      obtain ⟨ks, hks, hxs⟩ := Option.bind_eq_some_iff.mp hxs
      obtain ⟨ls, hls, hxs⟩ := Option.bind_eq_some_iff.mp hxs
      cases hxs
      have htail := blockItems_append ndebug xs ys (cur + 4) hls hys
      rw [List.cons_append, blockItems, hks, htail, List.append_assoc]
      rfl

theorem blockItems_rest (ndebug : Bool) : ∀ (xs ys : List (BitVec 32)) (cur : BitVec 64)
    {is all : List Item}, blockItems ndebug cur xs = some is →
    blockItems ndebug cur (xs ++ ys) = some all →
    ∃ js, blockItems ndebug (after cur xs.length) ys = some js ∧ all = is ++ js
  | [], ys, cur, is, all, hxs, hall => by
      cases hxs
      exact ⟨all, hall, rfl⟩
  | x :: xs, ys, cur, is, all, hxs, hall => by
      rw [blockItems] at hxs
      rw [List.cons_append, blockItems] at hall
      obtain ⟨ks, hks, hxs⟩ := Option.bind_eq_some_iff.mp hxs
      obtain ⟨ls, hls, hxs⟩ := Option.bind_eq_some_iff.mp hxs
      rw [hks] at hall
      simp only [Option.bind_eq_bind, Option.bind_some] at hall
      obtain ⟨ms, hms, hall⟩ := Option.bind_eq_some_iff.mp hall
      obtain ⟨js, hjs, rfl⟩ := blockItems_rest ndebug xs ys (cur + 4) hls hms
      cases hxs
      cases hall
      exact ⟨js, hjs, (List.append_assoc ..).symm⟩

/-- What was said of the rest of a block, said of the block. -/
theorem Left.shift {ndebug : Bool} (pre : List (BitVec 32)) {insts : List (BitVec 32)}
    {src dst : BitVec 64} {d d' : Reg → Prop} {p : Nat → Prop} {s t : State E} {is : List Item}
    (hpre : blockItems ndebug src pre = some is) (hd : ∀ q, orReg d' x17 q → orReg d x17 q)
    (h : Left ndebug insts (after src pre.length) (after dst is.length) d' p s t) :
    Left ndebug (pre ++ insts) src dst d p s t := by
  cases h with
  | branch hag => exact .branch (hag.mono hd)
  | call k js hk hjs hs ht hag =>
      refine .call (pre.length + k) (is ++ js) ?_ ?_ ?_ ?_ (hag.mono (orReg_mono x30 hd))
      · rw [List.length_append]
        exact Nat.add_le_add_left hk _
      · rw [List.take_length_add_append]
        exact blockItems_append ndebug pre _ src hpre hjs
      · rw [hs, after_add]
      · rw [ht, List.length_append, after_add]

section
variable {isa : Isa E} {stop : State E → Bool} {ndebug : Bool} {p : Nat → Prop}

/-- The relocated block, run next to the block. -/
theorem run_relocated : ∀ (insts : List (BitVec 32)) (is : List Item) (d : Reg → Prop)
    (s s' t : State E), blockItems ndebug s.pc insts = some is → (∀ w ∈ insts, Relocatable w) →
    CodeIn p s.core.mem s.pc (insts.map .word) →
    CodeIn p t.core.mem t.pc (is ++ farJumpItems (after s.pc insts.length)) →
    Within stop t.pc (is.length + 2) → Agree d p s.core t.core →
    UndisturbedRun isa p insts.length d s → leave isa insts.length s = some s' →
    ∃ t', Path (step isa) stop t t' ∧ Left ndebug insts s.pc t.pc d p s' t'
  | [], is, d, s, s', t, hitems, _, _, hcode, hin, hag, _, hleave => by
      cases hitems
      cases hleave
      exact ⟨_, path_farJump hin hcode.codeAt,
        .branch ((hag.mono (orReg_of d x17)).set_right (orReg_self d x17) _)⟩
  | inst :: insts, is, d, s, s', t, hitems, hrel, hsrc, hcode, hin, hag, hund, hleave => by
      rw [blockItems] at hitems
      obtain ⟨js, hjs, hitems⟩ := Option.bind_eq_some_iff.mp hitems
      obtain ⟨ks, hks, hitems⟩ := Option.bind_eq_some_iff.mp hitems
      cases hitems
      have hword : s.word = inst := (codeAt_cons.mp hsrc.codeAt).1
      have hinst : Relocatable s.word := hword ▸ hrel inst List.mem_cons_self
      have hone : js = relocatedInstr s.pc s.word (decode s.word) := by
        rw [← hword, reloItems_eq ndebug s.pc hinst] at hjs
        exact (Option.some.inj hjs).symm
      subst hone
      obtain ⟨hhere, hrest⟩ := hund
      rw [List.length_cons, leave] at hleave
      obtain ⟨s₁, hstep, hleave⟩ := Option.bind_eq_some_iff.mp hleave
      rw [List.append_assoc] at hcode
      rw [List.length_append, Nat.add_assoc] at hin
      obtain ⟨t₁, hpath, hout, hsmem, htmem⟩ := step_relocated hinst hhere hag hcode.left.codeAt
        (hin.mono (by omega)) hstep
      have hblock : blockItems ndebug s.pc [inst] =
          some (relocatedInstr s.pc s.word (decode s.word)) := by
        rw [blockItems, hjs, blockItems]
        simp
      rcases hout with hag₁ | ⟨hne, hag₁⟩ | ⟨hne, hs₁, ht₁, hag₁⟩
      · rw [if_pos rfl] at hleave
        obtain ⟨t', hpath', hleft⟩ := run_relocated insts ks _ _ s' _ hks
          (fun w hw => hrel w (List.mem_cons_of_mem _ hw))
          (hsrc.agreeOn hsmem).tail
          (hcode.agreeOn htmem).right hin.drop hag₁ (hrest _ hstep rfl) hleave
        exact ⟨t', hpath.trans hpath',
          hleft.shift [inst] hblock (orReg_clobber d _)⟩
      · rw [if_neg hne] at hleave
        cases hleave
        exact ⟨_, hpath, .branch hag₁⟩
      · rw [if_neg hne] at hleave
        cases hleave
        exact ⟨_, hpath, .call 1 _ (Nat.succ_le_succ (Nat.zero_le _)) hblock hs₁ ht₁ hag₁⟩

end

/-! ## Blocks in memory -/

/-- The addresses of `n` words. -/
def wordsAt (a : BitVec 64) (n : Nat) (b : Nat) : Prop := a.toNat ≤ b ∧ b < a.toNat + 4 * n

/-- The program counter is outside `n` words at an address. -/
def outside (a : BitVec 64) (n : Nat) (s : State E) : Bool := decide (4 * n ≤ (s.pc - a).toNat)

theorem Loaded.agreeOn {p : Nat → Prop} {m m' : Mem} {a : BitVec 64} {ws : List (BitVec 32)}
    (h : Loaded m a.toNat ws) (hm : Mem.AgreeOn p m m')
    (hin : ∀ b, wordsAt a ws.length b → p b) : Loaded m' a.toNat ws := by
  intro i hi
  rw [← h i hi]
  exact hm.read32 fun b hlo hhi => hin b ⟨by omega, by omega⟩

theorem toNat_after {a : BitVec 64} {i : Nat} (h : a.toNat + 4 * i < 2 ^ 64) :
    (after a i).toNat = a.toNat + 4 * i := by
  rw [after_eq, BitVec.toNat_add, BitVec.toNat_ofNat]
  omega

/-- Words in memory are items. -/
theorem codeIn_words {p : Nat → Prop} {m : Mem} {a : BitVec 64} {ws : List (BitVec 32)}
    (h : Loaded m a.toNat ws) (hfit : a.toNat + 4 * ws.length ≤ 2 ^ 64)
    (hin : ∀ b, wordsAt a ws.length b → p b) : CodeIn p m a (ws.map .word) := by
  intro m' hm i hi
  rw [List.length_map] at hi
  rw [List.getElem_map, ItemAt, toNat_after (by omega)]
  exact h.agreeOn hm hin i hi

/-- The code of the relocator in memory is the relocated block and the jump
behind it. -/
theorem codeIn_relocated {p : Nat → Prop} {m : Mem} {ndebug : Bool} {src dst : BitVec 64}
    {insts code : List (BitVec 32)} (hgen : genRelocateCodeAndBranch ndebug src insts = some code)
    (h : Loaded m dst.toNat code) (hfit : dst.toNat + 4 * code.length ≤ 2 ^ 64)
    (hnear : code.length ≤ 262144) (hin : ∀ b, wordsAt dst code.length b → p b) :
    ∃ is, blockItems ndebug src insts = some is ∧ is.length + 2 ≤ code.length ∧
      CodeIn p m dst (is ++ farJumpItems (after src insts.length)) := by
  rw [genRelocateCodeAndBranch_eq] at hgen
  obtain ⟨is, his, hcode⟩ := Option.map_eq_some_iff.mp hgen
  rw [← after_eq] at hcode
  generalize hall : is ++ farJumpItems (after src insts.length) = all at hcode
  have hlen : all.length = is.length + 2 := by
    rw [← hall, List.length_append]
    rfl
  have hsize : code.length = all.length + 2 * (pool all).length := by
    rw [← hcode, List.length_append, List.length_append, length_linked]
    omega
  refine ⟨is, his, by omega, ?_⟩
  intro m' hm
  have hloaded := h.agreeOn hm hin
  rw [← hcode] at hloaded
  obtain ⟨hlinked, hpools⟩ := loaded_append.mp hloaded
  obtain ⟨-, hpool⟩ := loaded_append.mp hpools
  rw [length_linked, Nat.add_assoc, ← Nat.mul_add] at hpool
  have hdst : BitVec.ofNat 64 (dst.toNat + 4 * 0) = dst := by
    rw [Nat.mul_zero, Nat.add_zero, BitVec.ofNat_toNat, BitVec.setWidth_eq]
  have hitems := codeAt_of_linked (a := dst.toNat) all _ 0 hlinked hpool (by omega) (by omega)
    (by omega)
  rwa [hdst, ← hall] at hitems

theorem within_outside {a : BitVec 64} {n j k : Nat} (h : j + k ≤ n) (hn : 4 * n ≤ 2 ^ 64) :
    Within (outside a n : State E → Bool) (after a j) k := by
  intro i hi s
  have hsub : after (after a j) i - a = BitVec.ofNat 64 (4 * (j + i)) := by
    rw [← after_add, after_eq, BitVec.add_comm, BitVec.add_sub_cancel]
  rw [outside, hsub, BitVec.toNat_ofNat]
  exact decide_eq_false (by omega)

theorem Left.pc_eq {ndebug : Bool} {insts : List (BitVec 32)} {src dst : BitVec 64}
    {d : Reg → Prop} {p : Nat → Prop} {s t : State E} (h : Left ndebug insts src dst d p s t) :
    t.pc = s.pc := by
  cases h with
  | branch => rfl
  | call => rfl

/-- The addresses of a block and of its relocated code. -/
def patched (src : BitVec 64) (n : Nat) (dst : BitVec 64) (k : Nat) (b : Nat) : Prop :=
  wordsAt src n b ∨ wordsAt dst k b

/-- From any instruction of a block on, the relocated code leaves the block
where the block is left, in an agreeing state.  Control is behind the
instructions `pre`. -/
theorem relocated_simulates {isa : Isa E} {ndebug : Bool} {src dst : BitVec 64}
    (pre : List (BitVec 32)) {post code : List (BitVec 32)}
    (hgen : genRelocateCodeAndBranch ndebug src (pre ++ post) = some code)
    (hrel : ∀ w ∈ post, Relocatable w) (hsfit : src.toNat + 4 * (pre ++ post).length ≤ 2 ^ 64)
    (hdfit : dst.toNat + 4 * code.length ≤ 2 ^ 64) (hnear : code.length ≤ 262144)
    {is : List Item} (his : blockItems ndebug src pre = some is) {d : Reg → Prop}
    {s s' t : State E} (hs : s.pc = after src pre.length) (ht : t.pc = after dst is.length)
    (hsrc : Loaded s.core.mem src.toNat (pre ++ post)) (hdst : Loaded t.core.mem dst.toNat code)
    (hag : Agree d (patched src (pre ++ post).length dst code.length) s.core t.core)
    (hund : UndisturbedRun isa (patched src (pre ++ post).length dst code.length) post.length d s)
    (hleave : leave isa post.length s = some s') (hout : outside dst code.length s' = true) :
    ∃ t', RunsTo (step isa) (outside dst code.length) t t' ∧
      Left ndebug (pre ++ post) src dst d (patched src (pre ++ post).length dst code.length)
        s' t' := by
  obtain ⟨all, hall, hlen, hcode⟩ := codeIn_relocated
    (p := patched src (pre ++ post).length dst code.length) hgen hdst hdfit hnear
    fun _ hb => .inr hb
  have hwords := codeIn_words (p := patched src (pre ++ post).length dst code.length) hsrc hsfit
    fun _ hb => .inl hb
  obtain ⟨js, hjs, rfl⟩ := blockItems_rest ndebug pre post src his hall
  rw [List.map_append] at hwords
  have hrest := hwords.right
  rw [List.length_map] at hrest
  have hend : after src (pre ++ post).length = after (after src pre.length) post.length := by
    rw [List.length_append, after_add]
  rw [List.append_assoc, hend] at hcode
  rw [List.length_append] at hlen
  have hin : Within (E := E) (outside dst code.length) (after dst is.length) (js.length + 2) :=
    within_outside hlen (by omega)
  obtain ⟨pc, c⟩ := s
  obtain ⟨a, u⟩ := t
  cases hs
  cases ht
  obtain ⟨t', hpath, hleft⟩ := run_relocated post js d _ s' ⟨after dst is.length, u⟩ hjs hrel hrest
    hcode.right hin hag hund hleave
  have hstop : outside dst code.length t' = true := by rwa [outside, hleft.pc_eq]
  exact ⟨t', hpath.runsTo hstop, hleft.shift pre his fun _ hq => hq⟩

end Dobby
