import AndroidAnalysis.Dobby.InlineHook
import Mathlib.Data.List.Forall2

/-!
# Histories of inline hooks

A history is a run of calls of `DobbyHook` and `DobbyDestroy`, with the program
running in between.  It remembers every hook that was made, and which of them are
in the table.

`Placed` is what a history keeps: the code of every hook that was ever made is
still in memory, every hook of the table has its trampoline in memory, and none of
this overlaps.  `placed_run` keeps it over histories in which functions, arenas and
the places for the original functions do not overlap, and in which the program does
not write to code.

`history_hooks` is what follows for the program.  At any time of such a history a
hooked function leads to its replacement, and what was handed out as the original
function does what the instructions of the function did, also after the hook was
destroyed.
-/

namespace Dobby

open Machine Machine.A64
open Machine.Arm64 (Reg)

variable {E : Type}

/-! ## Sizes -/

theorem length_pool_le (is : List Item) : (pool is).length ≤ 2 * is.length := by
  induction is with
  | nil => exact Nat.le_refl 0
  | cons i is ih =>
      cases i with
      | word w =>
          rw [pool, List.length_cons]
          omega
      | literal v =>
          rw [pool, List.length_append, List.length_cons]
          have htwo : (TurboAssembler.dataWords v).length = 2 := rfl
          omega

/-- An instruction becomes five at most. -/
theorem length_reloItems {ndebug : Bool} {cur : BitVec 64} {inst : BitVec 32} {is : List Item}
    (h : reloItems ndebug cur inst = some is) : is.length ≤ 5 := by
  rw [reloItems] at h
  dsimp only at h
  repeat' split at h
  all_goals cases h
  all_goals simp [movItems, farJumpItems]

theorem length_blockItems {ndebug : Bool} : ∀ {insts : List (BitVec 32)} {cur : BitVec 64}
    {is : List Item}, blockItems ndebug cur insts = some is → is.length ≤ 5 * insts.length
  | [], cur, is, h => by
      cases h
      exact Nat.le_refl 0
  | inst :: insts, cur, is, h => by
      rw [blockItems] at h
      obtain ⟨js, hjs, h⟩ := Option.bind_eq_some_iff.mp h
      obtain ⟨ks, hks, h⟩ := Option.bind_eq_some_iff.mp h
      cases h
      have hhead := length_reloItems hjs
      have htail := length_blockItems hks
      rw [List.length_append, List.length_cons]
      omega

theorem length_genRelocateCodeAndBranch {ndebug : Bool} {src : BitVec 64}
    {insts code : List (BitVec 32)} (h : genRelocateCodeAndBranch ndebug src insts = some code) :
    code.length ≤ 25 * insts.length + 10 := by
  rw [genRelocateCodeAndBranch_eq] at h
  obtain ⟨is, his, rfl⟩ := Option.map_eq_some_iff.mp h
  have hlen := length_blockItems his
  have hjump : (farJumpItems (src + BitVec.ofNat 64 (4 * insts.length))).length = 2 := rfl
  have hpool := length_pool_le (is ++ farJumpItems (src + BitVec.ofNat 64 (4 * insts.length)))
  rw [List.length_append, hjump] at hpool
  simp only [List.length_append, length_linked, hjump]
  omega

/-! ## Frames -/

section
variable {m m' : Mem} {b b' : MemBlock} {ws : List (BitVec 32)}

/-- The place of what is handed out as the original function. -/
def originPlace (originFunc : Option (BitVec 64)) : List MemBlock :=
  match originFunc with
  | none => []
  | some p => [⟨p.toNat, 8⟩]

/-- What is written when a hook is made. -/
def Hook.written (h : Hook) (originFunc : Option (BitVec 64)) : List MemBlock :=
  h.block :: h.patch :: originPlace originFunc

theorem putOrigin_agreeOn {p : Nat → Prop} (m : Mem) {originFunc : Option (BitVec 64)}
    (v : BitVec 64) (hout : ∀ b ∈ originPlace originFunc, ∀ x, p x → ¬ b.Has x) :
    Mem.AgreeOn p m (putOrigin m originFunc v) := by
  cases originFunc with
  | none => exact .refl _ _
  | some q =>
      refine (Mem.AgreeOn.refl p m).write64 v fun x hx => ?_
      have hnot := hout ⟨q.toNat, 8⟩ List.mem_cons_self x hx
      have hne : ¬ (q.toNat ≤ x ∧ x < q.toNat + 8) := hnot
      omega

theorem storeWords_agreeOn_has {p : Nat → Prop} (m : Mem) (ws : List (BitVec 32)) {a : Nat}
    (hb : b = ⟨a, 4 * ws.length⟩) (hout : ∀ x, p x → ¬ b.Has x) :
    Mem.AgreeOn p m (storeWords m a ws) := by
  refine storeWords_agreeOn m ws a fun x hx => ?_
  have hne : ¬ (a ≤ x ∧ x < a + 4 * ws.length) := by
    have := hout x hx
    rwa [hb] at this
  omega

/-- Words in a range, in two memories that agree there. -/
theorem Loaded.of_agreeOn {p : Nat → Prop} (h : Loaded m b.addr ws) (hm : Mem.AgreeOn p m m')
    (hsize : 4 * ws.length ≤ b.size) (hin : ∀ x, b.Has x → p x) : Loaded m' b.addr ws := by
  intro i hi
  rw [← h i hi]
  refine hm.read32 fun x hlo hhi => hin x ⟨by omega, ?_⟩
  rw [MemBlock.stop]
  omega

end

/-- A hook with a block of its own size below the top of the address space. -/
structure Hook.Fits (ndebug : Bool) (h : Hook) : Prop where
  generated : genRelocateCodeAndBranch ndebug h.address h.insts = some h.code
  insts : h.insts.length = h.tramp.length
  size : h.block.size = 4 * h.code.length
  block : h.block.stop ≤ 2 ^ 64
  patch : h.patch.stop ≤ 2 ^ 64

section
variable {ndebug : Bool} {h : Hook} {originFunc : Option (BitVec 64)}

theorem Hook.Fits.code_length (hf : h.Fits ndebug) :
    0 < h.code.length ∧ h.code.length ≤ 262144 := by
  have hlen := length_genRelocateCodeAndBranch hf.generated
  have htramp := length_generateNormalTrampolineBuffer h.address h.replaceFunc
  have hinsts : h.insts.length = (generateNormalTrampolineBuffer h.address h.replaceFunc).length :=
    hf.insts
  have hgen := hf.generated
  rw [genRelocateCodeAndBranch_eq] at hgen
  obtain ⟨is, -, hcode⟩ := Option.map_eq_some_iff.mp hgen
  have hpos : h.code.length = _ := congrArg List.length hcode.symm
  rw [List.length_append, length_linked, List.length_append] at hpos
  have hjump : (farJumpItems (h.address + BitVec.ofNat 64 (4 * h.insts.length))).length = 2 := rfl
  omega

theorem Hook.Fits.relocated_toNat (hf : h.Fits ndebug) : h.relocated.toNat = h.block.addr := by
  have hpos := hf.code_length.1
  have hstop := hf.block
  rw [MemBlock.stop, hf.size] at hstop
  rw [Hook.relocated, BitVec.toNat_ofNat]
  omega

/-- Making a hook changes its block, its patch and the place of the original. -/
theorem Hook.Fits.write_agreeOn {p : Nat → Prop} (hf : h.Fits ndebug) (m : Mem)
    (hout : ∀ b ∈ h.written originFunc, ∀ x, p x → ¬ b.Has x) :
    Mem.AgreeOn p m (h.write originFunc m) := by
  have hblock : h.block = ⟨h.relocated.toNat, 4 * h.code.length⟩ := by
    rw [hf.relocated_toNat, ← hf.size]
  have hcode := storeWords_agreeOn_has m h.code hblock (hout h.block List.mem_cons_self)
  have horigin : Mem.AgreeOn p _ (putOrigin _ originFunc h.relocated) :=
    putOrigin_agreeOn (storeWords m h.relocated.toNat h.code) h.relocated fun b hb =>
      hout b (List.mem_cons_of_mem _ (List.mem_cons_of_mem _ hb))
  have htramp := storeWords_agreeOn_has (p := p)
    (putOrigin (storeWords m h.relocated.toNat h.code) originFunc h.relocated) h.tramp
    (rfl : h.patch = _) (hout h.patch (List.mem_cons_of_mem _ List.mem_cons_self))
  exact (hcode.trans horigin).trans htramp

/-- The trampoline is written last. -/
theorem Hook.loaded_tramp (h : Hook) (originFunc : Option (BitVec 64)) (m : Mem) :
    Loaded (h.write originFunc m) h.patch.addr h.tramp := loaded_storeWords _ _ _

/-- The code stays where its block is apart from the rest. -/
theorem Hook.Fits.loaded_code (hf : h.Fits ndebug) (m : Mem)
    (hapart : ∀ b ∈ h.patch :: originPlace originFunc, h.block.Apart b) :
    Loaded (h.write originFunc m) h.block.addr h.code := by
  have hcode : Loaded (storeWords m h.relocated.toNat h.code) h.block.addr h.code := by
    rw [← hf.relocated_toNat]
    exact loaded_storeWords _ _ _
  have hkeep : Mem.AgreeOn h.block.Has (storeWords m h.relocated.toNat h.code)
      (h.write originFunc m) :=
    (putOrigin_agreeOn _ _ fun b hb x hx =>
      (hapart b (List.mem_cons_of_mem _ hb)).not_has hx).trans
      (storeWords_agreeOn_has (b := h.patch) _ _ rfl fun x hx =>
        (hapart h.patch List.mem_cons_self).not_has hx)
  exact hcode.of_agreeOn hkeep hf.size.ge fun _ hx => hx

end

/-! ## Histories -/

/-- What happens to a process: a call, or the program running. -/
inductive HookEvent where
  | hook (c : HookCall)
  | destroy (address : BitVec 64)
  | run (m : Mem)

/-- A process, every hook that was made in it, and those of the table. -/
structure History where
  hooker : Hooker
  made : List Hook
  live : List Hook

namespace History

/-- One event.  A run of the program leaves some memory. -/
def step (page : Nat) (ndebug : Bool) (s : History) : HookEvent → Except Unit History
  | .hook c =>
      match dobbyHook page ndebug s.hooker c with
      | .error () => .error ()
      | .ok (r, t) =>
          let new := if r = 0 then (hookOf page ndebug s.hooker c).toList else []
          .ok ⟨t, new ++ s.made, s.live ++ new⟩
  | .destroy address =>
      match dobbyDestroy s.hooker address with
      | .error () => .error ()
      | .ok (_, t) => .ok ⟨t, s.made, s.live.eraseP (·.address == address)⟩
  | .run m => .ok { s with hooker := { s.hooker with mem := m } }

/-- An entry and its hook. -/
structure Matches (e : InterceptEntry) (h : Hook) : Prop where
  address : e.patchedAddr = h.address
  relocated : e.relocatedAddr = h.relocated
  size : e.originInsnSize ≤ h.patch.size

/-- The code of all hooks and the trampolines of those in the table are in memory,
and nothing overlaps. -/
structure Placed (ndebug : Bool) (s : History) : Prop where
  layout : Allocated.Layout ⟨s.hooker.allocator, s.made.map Hook.block⟩
  below : ∀ a ∈ s.hooker.allocator.arenas, a.range.stop ≤ 2 ^ 64
  fits : ∀ h ∈ s.made, h.Fits ndebug
  code : ∀ h ∈ s.made, Loaded s.hooker.mem h.block.addr h.code
  table : List.Forall₂ Matches s.hooker.entries s.live
  live : ∀ h ∈ s.live, h ∈ s.made
  tramp : ∀ h ∈ s.live, Loaded s.hooker.mem h.patch.addr h.tramp
  apart : s.live.Pairwise fun h h' => h.patch.Apart h'.patch
  outside : ∀ h ∈ s.live, ∀ a ∈ s.hooker.allocator.arenas, h.patch.Apart a.range

/-- The bytes of code. -/
def Code (s : History) (x : Nat) : Prop :=
  (∃ h ∈ s.made, h.block.Has x) ∨ ∃ h ∈ s.live, h.patch.Has x

/-- What is in use when a hook is made. -/
def taken (s : History) : List MemBlock :=
  s.live.map Hook.patch ++ s.hooker.allocator.arenas.map MemoryArena.range

/-- What a call that makes a hook may rely on: the arena that the kernel maps for it,
the patched bytes and the place of the original are apart from each other and from
what is in use.  A fresh entry says nothing of more bytes than are patched. -/
structure CallSound (page : Nat) (s : History) (c : HookCall) (h : Hook) : Prop where
  arenaFits : c.mapped + execArenaSize page (4 * h.code.length) ≤ 2 ^ 64
  patchFits : h.patch.stop ≤ 2 ^ 64
  apart : (⟨c.mapped, execArenaSize page (4 * h.code.length)⟩ :: h.patch ::
    originPlace c.originFunc).Pairwise MemBlock.Apart
  fresh : ∀ b ∈ ⟨c.mapped, execArenaSize page (4 * h.code.length)⟩ :: h.patch ::
    originPlace c.originFunc, ∀ t ∈ s.taken, b.Apart t
  unset : c.unset.originInsnSize ≤ h.patch.size

/-- What an event may rely on. -/
def Sound (page : Nat) (ndebug : Bool) (s : History) : HookEvent → Prop
  | .hook c => ∀ h, hookOf page ndebug s.hooker c = some h → s.CallSound page c h
  | .destroy _ => True
  | .run m => Mem.AgreeOn s.Code s.hooker.mem m

section
variable {page : Nat} {ndebug : Bool} {s s' : History}

theorem patch_mem_taken {h : Hook} (hl : h ∈ s.live) : h.patch ∈ s.taken :=
  List.mem_append_left _ (List.mem_map_of_mem hl)

theorem range_mem_taken {a : MemoryArena} (ha : a ∈ s.hooker.allocator.arenas) :
    a.range ∈ s.taken := List.mem_append_right _ (List.mem_map_of_mem ha)

/-- The block of a hook is in an arena. -/
theorem Placed.block_inside (hp : Placed ndebug s) {h : Hook} (hm : h ∈ s.made) :
    ∃ a ∈ s.hooker.allocator.arenas, h.block.Inside a.range := by
  obtain ⟨a, ha, hin⟩ := hp.layout.placed h.block (List.mem_map_of_mem hm)
  exact ⟨a, ha, hin.trans a.used_inside⟩

theorem inside_refl (b : MemBlock) : b.Inside b := ⟨Nat.le_refl _, Nat.le_refl _⟩

/-! ### A call that makes a hook -/

/-- Making a hook writes nowhere else than it may. -/
theorem placed_hook {c : HookCall} {h : Hook} {allocator : MemoryAllocator}
    (hp : Placed ndebug s) (hsound : s.CallSound page c h)
    (hh : hookOf page ndebug s.hooker c = some h)
    (halloc : allocateExecBlock page s.hooker.allocator (4 * h.code.length) c.mapped =
      some (h.block, allocator)) :
    Placed ndebug ⟨⟨h.write c.originFunc s.hooker.mem, allocator,
      s.hooker.entries ++ [h.entry s.hooker c.unset]⟩, h :: s.made, s.live ++ [h]⟩ := by
  obtain ⟨-, -, hinsts, hgen, -⟩ := hookOf_eq_some hh
  obtain ⟨hsize, ⟨a₁, ha₁, hblock⟩, hranges⟩ := allocateExecBlock_eq_some halloc
  obtain ⟨hnew, -⟩ := List.pairwise_cons.mp hsound.apart
  -- An arena is the new one, or it was in use.
  have harena : ∀ a ∈ allocator.arenas, a.range.stop ≤ 2 ^ 64 ∧
      (∀ b ∈ h.patch :: originPlace c.originFunc, b.Apart a.range) ∧
        ∀ l ∈ s.live, l.patch.Apart a.range := by
    intro a ha
    rcases hranges a ha with heq | ⟨a₀, ha₀, heq⟩
    · rw [heq]
      exact ⟨hsound.arenaFits, fun b hb => (hnew b hb).symm, fun l hl =>
        (hsound.fresh _ List.mem_cons_self _ (patch_mem_taken hl)).symm⟩
    · rw [heq]
      exact ⟨hp.below a₀ ha₀, fun b hb =>
        hsound.fresh b (List.mem_cons_of_mem _ hb) _ (range_mem_taken ha₀),
        fun l hl => hp.outside l hl a₀ ha₀⟩
  obtain ⟨hstop, hnear, hlive⟩ := harena a₁ ha₁
  have hfits : h.Fits ndebug :=
    ⟨hgen, by rw [hinsts, length_wordsFrom], hsize, hblock.2.trans hstop, hsound.patchFits⟩
  have hlayout : Allocated.Layout ⟨allocator, (h :: s.made).map Hook.block⟩ :=
    Allocated.layout_exec hp.layout
      (fun a ha => hsound.fresh _ List.mem_cons_self _ (range_mem_taken ha)) halloc
  obtain ⟨hblocks, -⟩ := List.pairwise_cons.mp hlayout.apart
  have hcode : ∀ k ∈ s.made, ∀ b ∈ h.written c.originFunc, k.block.Apart b := by
    intro k hk b hb
    rcases List.mem_cons.mp hb with rfl | hb
    · exact (hblocks _ (List.mem_map_of_mem hk)).symm
    · obtain ⟨a, ha, hin⟩ := hp.block_inside hk
      exact ((hsound.fresh b (List.mem_cons_of_mem _ hb) _ (range_mem_taken ha)).inside
        (inside_refl b) hin).symm
  have htramp : ∀ l ∈ s.live, ∀ b ∈ h.written c.originFunc, l.patch.Apart b := by
    intro l hl b hb
    rcases List.mem_cons.mp hb with rfl | hb
    · exact (hlive l hl).inside (inside_refl _) hblock
    · exact (hsound.fresh b (List.mem_cons_of_mem _ hb) _ (patch_mem_taken hl)).symm
  refine ⟨hlayout, fun a ha => (harena a ha).1, ?_, ?_, ?_, ?_, ?_, ?_, ?_⟩
  · exact List.forall_mem_cons.mpr ⟨hfits, hp.fits⟩
  · refine List.forall_mem_cons.mpr ⟨hfits.loaded_code _ fun b hb => ?_, fun k hk => ?_⟩
    · exact ((hnear b hb).inside (inside_refl b) hblock).symm
    · have hkeep := hfits.write_agreeOn (p := k.block.Has) s.hooker.mem
        fun b hb x hx => (hcode k hk b hb).not_has hx
      exact (hp.code k hk).of_agreeOn hkeep (hp.fits k hk).size.ge fun _ hx => hx
  · exact List.rel_append hp.table (.cons ⟨rfl, rfl, hsound.unset⟩ .nil)
  · intro l hl
    rcases List.mem_append.mp hl with hl | hl
    · exact List.mem_cons_of_mem _ (hp.live l hl)
    · rw [List.mem_singleton.mp hl]
      exact List.mem_cons_self
  · intro l hl
    rcases List.mem_append.mp hl with hl | hl
    · have hkeep := hfits.write_agreeOn (p := l.patch.Has) s.hooker.mem
        fun b hb x hx => (htramp l hl b hb).not_has hx
      exact (hp.tramp l hl).of_agreeOn hkeep (Nat.le_refl _) fun _ hx => hx
    · rw [List.mem_singleton.mp hl]
      exact h.loaded_tramp _ _
  · refine List.pairwise_append.mpr ⟨hp.apart, List.pairwise_singleton _ _, fun l hl k hk => ?_⟩
    rw [List.mem_singleton.mp hk]
    exact htramp l hl h.patch (List.mem_cons_of_mem _ List.mem_cons_self)
  · intro l hl a ha
    obtain ⟨-, hown, hothers⟩ := harena a ha
    rcases List.mem_append.mp hl with hl | hl
    · exact hothers l hl
    · rw [List.mem_singleton.mp hl]
      exact hown h.patch List.mem_cons_self

/-! ### A call that takes one away -/

section
variable {A B : Type} {R : A → B → Prop} {p : A → Bool} {q : B → Bool} {l : List A} {k : List B}

theorem forall₂_eraseP (hpq : ∀ a b, R a b → p a = q b) (h : List.Forall₂ R l k) :
    List.Forall₂ R (l.eraseP p) (k.eraseP q) := by
  induction h with
  | nil => exact .nil
  | @cons a b l k hab hlk ih =>
      rw [List.eraseP_cons, List.eraseP_cons, hpq a b hab]
      cases q b with
      | true => exact hlk
      | false => exact .cons hab ih

theorem forall₂_eraseP_of_find (hpq : ∀ a b, R a b → p a = q b) (h : List.Forall₂ R l k)
    (hfind : l.find? p = none) : k.eraseP q = k := by
  induction h with
  | nil => rfl
  | @cons x y l k hxy hlk ih =>
      rw [List.find?_cons] at hfind
      cases hp : p x with
      | true =>
          rw [hp] at hfind
          cases hfind
      | false =>
          rw [hp] at hfind
          have hq : ¬ q y = true := by
            rw [← hpq x y hxy, hp]
            exact Bool.false_ne_true
          rw [List.eraseP_cons_of_neg hq, ih hfind]

/-- What is found in one list, and taken out of the other. -/
theorem forall₂_find (hpq : ∀ a b, R a b → p a = q b) (h : List.Forall₂ R l k) {a : A}
    (hfind : l.find? p = some a) :
    ∃ b pre post, k = pre ++ b :: post ∧ k.eraseP q = pre ++ post ∧ R a b := by
  induction h with
  | nil => cases hfind
  | @cons x y l k hxy hlk ih =>
      rw [List.find?_cons] at hfind
      cases hp : p x with
      | true =>
          rw [hp] at hfind
          cases hfind
          have hq : q y = true := (hpq _ y hxy).symm.trans hp
          exact ⟨y, [], k, rfl, List.eraseP_cons_of_pos hq, hxy⟩
      | false =>
          rw [hp] at hfind
          have hq : ¬ q y = true := by
            rw [← hpq x y hxy, hp]
            exact Bool.false_ne_true
          obtain ⟨b, pre, post, rfl, herase, hb⟩ := ih hfind
          refine ⟨b, y :: pre, post, rfl, ?_, hb⟩
          rw [List.eraseP_cons_of_neg hq, herase, List.cons_append]

end

theorem matches_address (addr : BitVec 64) (e : InterceptEntry) (h : Hook) (heh : Matches e h) :
    (e.patchedAddr == addr) = (h.address == addr) := by rw [heh.address]

/-- Destroying a hook writes to its patch alone. -/
theorem placed_destroy {address : BitVec 64} {r : Int} {t : Hooker} (hp : Placed ndebug s)
    (hr : dobbyDestroy s.hooker address = .ok (r, t)) :
    Placed ndebug ⟨t, s.made, s.live.eraseP (·.address == address)⟩ := by
  rw [dobbyDestroy] at hr
  split at hr
  next hfind =>
    cases hr
    rw [forall₂_eraseP_of_find (matches_address address) hp.table hfind]
    exact hp
  next e hfind =>
    split at hr
    next hsize =>
      cases hr
      obtain ⟨b, pre, post, hlive, herase, hmatch⟩ :=
        forall₂_find (matches_address address) hp.table hfind
      have haddr : address = b.address :=
        (Hooker.find_eq_some hfind).symm.trans hmatch.address
      have hb : b ∈ s.live := hlive ▸ by simp
      -- What is written is in the patch.
      have hframe : ∀ c : MemBlock, c.Apart b.patch → Mem.AgreeOn c.Has s.hooker.mem
          (memcpy s.hooker.mem address.toNat (e.originInsns.take e.originInsnSize)) := by
        intro c hc
        refine (Mem.AgreeOn.refl _ _).memcpy _ fun x hx => ?_
        have hnot := hc.not_has hx
        have hle := hmatch.size
        rw [haddr, List.length_take]
        by_contra hin
        refine hnot ⟨?_, ?_⟩
        · show b.address.toNat ≤ x
          omega
        · show x < b.address.toNat + b.patch.size
          omega
      have hrest : ∀ l ∈ pre ++ post, l ∈ s.live ∧ l.patch.Apart b.patch := by
        have hapart := hlive ▸ hp.apart
        rw [List.pairwise_append, List.pairwise_cons] at hapart
        obtain ⟨-, ⟨hpost, -⟩, hpre⟩ := hapart
        intro l hl
        rcases List.mem_append.mp hl with hl | hl
        · exact ⟨hlive ▸ List.mem_append_left _ hl, hpre l hl b List.mem_cons_self⟩
        · exact ⟨hlive ▸ List.mem_append_right _ (List.mem_cons_of_mem _ hl), (hpost l hl).symm⟩
      have htable := forall₂_eraseP (matches_address address) hp.table
      rw [herase] at htable ⊢
      refine ⟨hp.layout, hp.below, hp.fits, fun h hh => ?_, htable,
        fun l hl => hp.live l (hrest l hl).1, fun l hl => ?_, ?_,
        fun l hl => hp.outside l (hrest l hl).1⟩
      · obtain ⟨a, ha, hin⟩ := hp.block_inside hh
        have hapart := ((hp.outside b hb a ha).inside (inside_refl _) hin).symm
        exact (hp.code h hh).of_agreeOn (hframe _ hapart) (hp.fits h hh).size.ge fun _ hx => hx
      · obtain ⟨hl, hapart⟩ := hrest l hl
        exact (hp.tramp l hl).of_agreeOn (hframe _ hapart) (Nat.le_refl _) fun _ hx => hx
      · have hsub : (pre ++ post).Sublist s.live := herase ▸ List.eraseP_sublist
        exact hp.apart.sublist hsub
    next => cases hr

/-! ### Histories -/

theorem placed_step {e : HookEvent} (hp : Placed ndebug s) (hsound : s.Sound page ndebug e)
    (hstep : step page ndebug s e = .ok s') : Placed ndebug s' := by
  cases e with
  | hook c =>
      rw [step] at hstep
      split at hstep
      next => cases hstep
      next r t hr =>
        cases hstep
        rcases dobbyHook_cases hr with ⟨rfl, rfl, -⟩ | ⟨h, allocator, rfl, hh, halloc, -, rfl⟩
        · exact (List.append_nil s.live).symm ▸ hp
        · rw [if_pos rfl, hh]
          exact placed_hook hp (hsound h hh) hh halloc
  | destroy address =>
      rw [step] at hstep
      split at hstep
      next => cases hstep
      next r t hr =>
        cases hstep
        exact placed_destroy hp hr
  | run m =>
      cases hstep
      exact {
        layout := hp.layout
        below := hp.below
        fits := hp.fits
        code := fun h hh => (hp.code h hh).of_agreeOn hsound (hp.fits h hh).size.ge
          fun x hx => .inl ⟨h, hh, hx⟩
        table := hp.table
        live := hp.live
        tramp := fun h hh => (hp.tramp h hh).of_agreeOn hsound (Nat.le_refl _)
          fun x hx => .inr ⟨h, hh, hx⟩
        apart := hp.apart
        outside := hp.outside }

/-- Everything stays in place over a history. -/
theorem placed_run {es : List HookEvent} (hp : Placed ndebug s)
    (hsound : ∀ past e post, es = past ++ e :: post → ∀ t,
      run (step page ndebug) s past = .ok t → t.Sound page ndebug e)
    (hrun : run (step page ndebug) s es = .ok s') : Placed ndebug s' :=
  run_invariant_guarded (fun _ _ _ ht hguard => placed_step ht hguard) hp hsound hrun

end

/-! ## What a program sees -/

/-- The first instructions lead to the replacement, unless it lies on the page just
out of the reach of `adrp`.  Only `x17` is changed on the way. -/
def Leads (isa : Isa E) (m : Mem) (h : Hook) : Prop :=
  ∀ c : Core E, Mem.AgreeOn h.patch.Has m c.mem →
    4 * h.tramp.length ≤ (h.replaceFunc - h.address).toNat →
    (RunsTo (A64.step isa) (outside h.address h.tramp.length) ⟨h.address, c⟩
      ⟨h.replaceFunc, c.set x17 h.replaceFunc⟩ ↔ ¬ PageOutOfReach h.address h.replaceFunc)

/-- What was handed out as the original function leaves where the instructions of
the function leave, from any of them on, in a process that has the instructions in
place of the hook.  Control is behind the instructions `pre`. -/
def StandsFor (isa : Isa E) (ndebug : Bool) (m : Mem) (h : Hook) : Prop :=
  ∀ (pre post : List (BitVec 32)) (is : List Item) (d : Reg → Prop), h.insts = pre ++ post →
    (∀ w ∈ post, Relocatable w) → blockItems ndebug h.address pre = some is →
    ∀ s s' t : State E, s.pc = after h.address pre.length → t.pc = after h.relocated is.length →
    Loaded s.core.mem h.patch.addr h.insts → Mem.AgreeOn h.block.Has m t.core.mem →
    Agree d (patched h.address h.insts.length h.relocated h.code.length) s.core t.core →
    UndisturbedRun isa (patched h.address h.insts.length h.relocated h.code.length) post.length d s →
    leave isa post.length s = some s' → outside h.relocated h.code.length s' = true →
    ∃ t', RunsTo (A64.step isa) (outside h.relocated h.code.length) t t' ∧
      Left ndebug h.insts h.address h.relocated d
        (patched h.address h.insts.length h.relocated h.code.length) s' t'

section
variable {page : Nat} {ndebug : Bool} {s s' : History} {isa : Isa E}

theorem Placed.leads (hp : Placed ndebug s) {h : Hook} (hl : h ∈ s.live) :
    Leads isa s.hooker.mem h := by
  intro c hc hout
  have htramp : Loaded c.mem h.address.toNat h.tramp :=
    (hp.tramp h hl).of_agreeOn hc (Nat.le_refl _) fun _ hx => hx
  exact trampoline_reaches_iff htramp (hp.fits h (hp.live h hl)).patch hout

theorem Placed.standsFor (hp : Placed ndebug s) {h : Hook} (hm : h ∈ s.made) :
    StandsFor isa ndebug s.hooker.mem h := by
  intro pre post is d hsplit hrel his s₀ s₁ t hs ht hinsts hcode hag hund hleave hout
  have hf := hp.fits h hm
  have hpatch : h.patch.stop = h.address.toNat + 4 * h.insts.length := by
    rw [hf.insts]
    rfl
  have hsfit := hf.patch
  have hdfit := hf.block
  have hgen := hf.generated
  rw [hpatch] at hsfit
  rw [MemBlock.stop, hf.size, ← hf.relocated_toNat] at hdfit
  have hloaded : Loaded t.core.mem h.relocated.toNat h.code := by
    rw [hf.relocated_toNat]
    exact (hp.code h hm).of_agreeOn hcode hf.size.ge fun _ hx => hx
  rw [hsplit] at hgen hsfit hinsts hag hund ⊢
  exact relocated_simulates pre hgen hrel hsfit hdfit hf.code_length.2 his hs ht hinsts hloaded hag
    hund hleave hout

/-- A process without hooks. -/
def start (m : Mem) : History := ⟨.start m, [], []⟩

theorem placed_start (m : Mem) : Placed ndebug (start m) where
  layout := ⟨.nil, fun _ hb => absurd hb List.not_mem_nil, .nil⟩
  below := fun _ ha => absurd ha List.not_mem_nil
  fits := fun _ hh => absurd hh List.not_mem_nil
  code := fun _ hh => absurd hh List.not_mem_nil
  table := .nil
  live := fun _ hh => absurd hh List.not_mem_nil
  tramp := fun _ hh => absurd hh List.not_mem_nil
  apart := .nil
  outside := fun _ hh => absurd hh List.not_mem_nil

/-- At any time of a history every hook of the table leads to its replacement, and
every address that was ever handed out as an original function still stands for
it. -/
theorem history_hooks {m : Mem} {es : List HookEvent}
    (hsound : ∀ past e post, es = past ++ e :: post → ∀ t,
      run (step page ndebug) (start m) past = .ok t → t.Sound page ndebug e)
    (hrun : run (step page ndebug) (start m) es = .ok s) :
    (∀ h ∈ s.live, Leads isa s.hooker.mem h) ∧
      ∀ h ∈ s.made, StandsFor isa ndebug s.hooker.mem h := by
  have hp := placed_run (placed_start m) hsound hrun
  exact ⟨fun h hl => hp.leads hl, fun h hm => hp.standsFor hm⟩

/-- A call that hooks `0x10000`, where the memory is zero, from a heap of zeros. -/
def zeroCall : HookCall :=
  ⟨0x10000, 0x20000, some 0x40000, true, 0x30000, ⟨0, 0, 0, List.replicate 256 0, 0⟩⟩

/-- The parts of the hook of this call. -/
theorem hookOf_zeroCall {h : Hook}
    (hh : hookOf 0x1000 true (start fun _ => 0).hooker zeroCall = some h) :
    h.patch = ⟨0x10000, 12⟩ ∧ h.code.length = 9 := by
  obtain ⟨haddr, hreplace, hinsts, hgen, -⟩ := hookOf_eq_some hh
  have htramp : h.tramp.length = 3 := by
    rw [Hook.tramp, haddr, hreplace]
    decide
  have hwords : wordsFrom (start fun _ => 0).hooker.mem zeroCall.address.toNat 3 = [0, 0, 0] := by
    decide
  have hlen : (genRelocateCodeAndBranch true 0x10000 [0, 0, 0]).map List.length = some 9 := by
    decide
  have hcode : genRelocateCodeAndBranch true 0x10000 [0, 0, 0] = some h.code := by
    rw [htramp, hwords] at hinsts
    rw [haddr, hinsts] at hgen
    exact hgen
  rw [hcode] at hlen
  refine ⟨?_, Option.some.inj hlen⟩
  rw [Hook.patch, htramp, haddr]
  rfl

theorem sound_zeroCall : Sound 0x1000 true (start fun _ => 0) (.hook zeroCall) := by
  intro h hh
  obtain ⟨hpatch, hcode⟩ := hookOf_zeroCall hh
  have hnone : taken (start fun _ => 0) = [] := rfl
  constructor
  · rw [hcode]
    decide
  · rw [hpatch]
    decide
  · rw [hpatch, hcode]
    decide
  · intro b _ t ht
    rw [hnone] at ht
    exact absurd ht List.not_mem_nil
  · rw [hpatch]
    decide

/-- One call in a process of zeros. -/
theorem history_hooks_one : ∃ s, run (step 0x1000 true) (start fun _ => 0) [.hook zeroCall] = .ok s ∧
    s.live.length = 1 ∧ (∀ h ∈ s.live, Leads nops s.hooker.mem h) ∧
      ∀ h ∈ s.made, StandsFor nops true s.hooker.mem h := by
  have hlive : (run (step 0x1000 true) (start fun _ => 0) [.hook zeroCall]).map
      (fun s => s.live.length) = .ok 1 := by decide
  cases hrun : run (step 0x1000 true) (start fun _ => 0) [.hook zeroCall] with
  | error =>
      rw [hrun] at hlive
      cases hlive
  | ok s =>
      rw [hrun] at hlive
      refine ⟨s, rfl, Except.ok.inj hlive, history_hooks (fun past e post hes t ht => ?_) hrun⟩
      cases past with
      | cons e' past => simp at hes
      | nil =>
          cases hes
          cases ht
          exact sound_zeroCall

end

end History

end Dobby
