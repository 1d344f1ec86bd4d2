import AndroidAnalysis.Machine.EventRun
import Mathlib.Data.List.Pairwise
import Mathlib.Data.List.Sort
import Mathlib.Algebra.Order.Group.Nat
import Mathlib.Algebra.GroupWithZero.Nat
import Mathlib.Tactic.Common

/-!
# The memory allocator

`MemoryAllocator` hands out blocks of executable memory from arenas that it maps
page by page.  A block is never given back, so an arena is its range and a
cursor, which is in the range by construction.  `NearMemoryAllocator` asks for a
block within a distance of an address: it first looks for room in the arenas,
skipping memory by a placeholder block, and then for a gap between the mapped
regions of the process, which it maps at a fixed address.

`Layout` says what a run keeps: the arenas are disjoint, every block lies in what
its arena has handed out, and the blocks are disjoint.  `layout_run` keeps it
over runs of both allocators, and `sound_near` says when the memory that is mapped for a
gap is new.

A gap is mapped up to the end of the page in which the byte behind the block
lies.  `nearRange_apart_iff` says when that page is not the first one of the next
region: where the block does not end right at it.
-/

namespace Dobby

open Machine

/-! ## Ranges -/

/-- `MemRange` and `MemBlock` -/
structure MemBlock where
  addr : Nat
  size : Nat
deriving DecidableEq

/-- `end` of a range. -/
def MemBlock.stop (b : MemBlock) : Nat := b.addr + b.size

/-- No byte in common. -/
def MemBlock.Apart (a b : MemBlock) : Prop := a.stop ≤ b.addr ∨ b.stop ≤ a.addr

/-- One range lies in another. -/
def MemBlock.Inside (a b : MemBlock) : Prop := b.addr ≤ a.addr ∧ a.stop ≤ b.stop

instance (a b : MemBlock) : Decidable (a.Apart b) := inferInstanceAs (Decidable (_ ∨ _))

theorem MemBlock.Apart.symm {a b : MemBlock} (h : a.Apart b) : b.Apart a := Or.symm h

theorem MemBlock.Apart.inside {a b a' b' : MemBlock} (h : a.Apart b) (ha : a'.Inside a)
    (hb : b'.Inside b) : a'.Apart b' := by
  rcases h with h | h
  · exact .inl (ha.2.trans (h.trans hb.1))
  · exact .inr (hb.2.trans (h.trans ha.1))

/-- The bytes of a range. -/
def MemBlock.Has (b : MemBlock) (x : Nat) : Prop := b.addr ≤ x ∧ x < b.stop

theorem MemBlock.Apart.not_has {a b : MemBlock} (h : a.Apart b) {x : Nat} (ha : a.Has x) :
    ¬ b.Has x := by
  rintro ⟨hlo, hhi⟩
  obtain ⟨hlo', hhi'⟩ := ha
  rcases h with h | h <;> omega

theorem MemBlock.Inside.trans {a b c : MemBlock} (h : a.Inside b) (h' : b.Inside c) :
    a.Inside c := ⟨h'.1.trans h.1, h.2.trans h'.2⟩

/-! ## Arenas -/

/-- `MemoryArena`: a range, and a cursor in it. -/
structure MemoryArena where
  addr : Nat
  size : Nat
  cursorAddr : Nat
  low : addr ≤ cursorAddr
  high : cursorAddr ≤ addr + size

namespace MemoryArena

/-- The range of an arena. -/
def range (a : MemoryArena) : MemBlock := ⟨a.addr, a.size⟩

/-- What has been handed out of an arena. -/
def used (a : MemoryArena) : MemBlock := ⟨a.addr, a.cursorAddr - a.addr⟩

@[simp] theorem range_addr (a : MemoryArena) : a.range.addr = a.addr := rfl
@[simp] theorem range_stop (a : MemoryArena) : a.range.stop = a.addr + a.size := rfl
@[simp] theorem used_addr (a : MemoryArena) : a.used.addr = a.addr := rfl

@[simp] theorem used_stop (a : MemoryArena) : a.used.stop = a.cursorAddr :=
  Nat.add_sub_cancel' a.low

/-- A new arena. -/
def new (addr size : Nat) : MemoryArena :=
  ⟨addr, size, addr, Nat.le_refl _, Nat.le_add_right _ _⟩

theorem room {a : MemoryArena} {size : Nat} (h : ¬ a.addr + a.size - a.cursorAddr < size) :
    a.cursorAddr + size ≤ a.addr + a.size := by
  have hhigh := a.high
  omega

/-- `allocMemBlock` -/
def allocMemBlock (a : MemoryArena) (size : Nat) : Option (MemBlock × MemoryArena) :=
  if h : a.addr + a.size - a.cursorAddr < size then none
  else some (⟨a.cursorAddr, size⟩,
    ⟨a.addr, a.size, a.cursorAddr + size, a.low.trans (Nat.le_add_right _ _), room h⟩)

/-- The arena after a block that nobody asks for. -/
def skip (a : MemoryArena) (size : Nat) : MemoryArena :=
  match a.allocMemBlock size with
  | some (_, a') => a'
  | none => a

/-- What an allocation does to an arena: the block is in the range and behind all
that was handed out before. -/
structure Takes (a : MemoryArena) (b : MemBlock) (a' : MemoryArena) : Prop where
  range : a'.range = a.range
  after : a.cursorAddr ≤ b.addr
  stop : b.stop = a'.cursorAddr

variable {a a' : MemoryArena} {b c : MemBlock} {size : Nat}

theorem used_inside (a : MemoryArena) : a.used.Inside a.range :=
  ⟨Nat.le_refl _, by rw [used_stop, range_stop]; exact a.high⟩

/-- What was handed out before stays handed out. -/
theorem Takes.kept (h : a.Takes b a') (hc : c.Inside a.used) : c.Inside a'.used := by
  have haddr : a'.addr = a.addr := congrArg MemBlock.addr h.range
  have hmove : a.cursorAddr ≤ a'.cursorAddr :=
    h.after.trans ((Nat.le_add_right _ _).trans h.stop.le)
  refine ⟨?_, ?_⟩
  · rw [used_addr, haddr]
    exact hc.1
  · rw [used_stop]
    exact (hc.2.trans_eq a.used_stop).trans hmove

theorem Takes.inside (h : a.Takes b a') : b.Inside a'.used := by
  have haddr : a'.addr = a.addr := congrArg MemBlock.addr h.range
  refine ⟨?_, ?_⟩
  · rw [used_addr, haddr]
    exact a.low.trans h.after
  · rw [used_stop]
    exact h.stop.le

theorem Takes.apart (h : a.Takes b a') (hc : c.Inside a.used) : c.Apart b :=
  .inl ((hc.2.trans_eq a.used_stop).trans h.after)

/-- An allocation after one is as one. -/
theorem Takes.trans {a'' : MemoryArena} (h : a.Takes b a') (h' : a'.Takes c a'') :
    a.Takes c a'' :=
  ⟨h'.range.trans h.range,
    (h.after.trans ((Nat.le_add_right _ _).trans h.stop.le)).trans h'.after, h'.stop⟩

theorem allocMemBlock_eq_some : a.allocMemBlock size = some (b, a') →
    a.cursorAddr + size ≤ a.addr + a.size ∧ b = ⟨a.cursorAddr, size⟩ ∧
      a'.cursorAddr = a.cursorAddr + size ∧ a'.range = a.range := by
  intro h
  rw [allocMemBlock] at h
  split at h
  next => cases h
  next hroom =>
    cases h
    exact ⟨room hroom, rfl, rfl, rfl⟩

theorem takes_of_alloc (h : a.allocMemBlock size = some (b, a')) : a.Takes b a' := by
  obtain ⟨-, rfl, hcursor, hrange⟩ := allocMemBlock_eq_some h
  exact ⟨hrange, Nat.le_refl _, hcursor.symm⟩

/-- A block that fits is handed out. -/
theorem exists_alloc (a : MemoryArena) {size : Nat} (h : a.cursorAddr + size ≤ a.addr + a.size) :
    ∃ a', a.allocMemBlock size = some (⟨a.cursorAddr, size⟩, a') ∧
      a'.cursorAddr = a.cursorAddr + size ∧ a'.range = a.range := by
  have hroom : ¬ a.addr + a.size - a.cursorAddr < size := by omega
  exact ⟨⟨a.addr, a.size, a.cursorAddr + size, a.low.trans (Nat.le_add_right _ _), h⟩,
    by rw [allocMemBlock, dif_neg hroom], rfl, rfl⟩

/-- Skipping to a place in the arena and then taking a block from there. -/
theorem skip_alloc (a : MemoryArena) {place size : Nat} (hle : a.cursorAddr ≤ place)
    (hroom : place + size ≤ a.addr + a.size) :
    ∃ a', (a.skip (place - a.cursorAddr)).allocMemBlock size = some (⟨place, size⟩, a') ∧
      a.Takes ⟨place, size⟩ a' := by
  have hplace : a.cursorAddr + (place - a.cursorAddr) = place := Nat.add_sub_cancel' hle
  obtain ⟨a₁, h₁, hcursor, hrange⟩ :=
    exists_alloc a (by omega : a.cursorAddr + (place - a.cursorAddr) ≤ a.addr + a.size)
  have hskip : a.skip (place - a.cursorAddr) = a₁ := by rw [skip, h₁]
  have haddr : a₁.addr = a.addr := congrArg MemBlock.addr hrange
  have hsize : a₁.size = a.size := congrArg MemBlock.size hrange
  obtain ⟨a₂, h₂, -, -⟩ := exists_alloc a₁ (by omega : a₁.cursorAddr + size ≤ a₁.addr + a₁.size)
  rw [hcursor, hplace] at h₂
  refine ⟨a₂, by rw [hskip, h₂], ?_⟩
  exact (takes_of_alloc h₁).trans (takes_of_alloc h₂)

end MemoryArena

/-! ## The allocator -/

/-- `MemoryAllocator` -/
structure MemoryAllocator where
  codeArenas : List MemoryArena
  dataArenas : List MemoryArena

/-- All arenas. -/
def MemoryAllocator.arenas (m : MemoryAllocator) : List MemoryArena := m.codeArenas ++ m.dataArenas

/-- The first arena that hands out a block, and the arenas behind it. -/
def firstBlock (f : MemoryArena → Option (MemBlock × MemoryArena)) :
    List MemoryArena → Option (MemBlock × List MemoryArena)
  | [] => none
  | a :: rest =>
      match f a with
      | some (b, a') => some (b, a' :: rest)
      | none => (firstBlock f rest).map fun r => (r.1, a :: r.2)

/-- The last arena, whether an earlier one has room or not. -/
def lastBlock (f : MemoryArena → Option (MemBlock × MemoryArena)) :
    List MemoryArena → Option (MemBlock × List MemoryArena)
  | [] => none
  | [a] => (f a).map fun r => (r.1, [r.2])
  | a :: rest => (lastBlock f rest).map fun r => (r.1, a :: r.2)

/-- `ALIGN_FLOOR`, of a number. -/
def alignFloorNat (address range : Nat) : Nat := address / range * range

/-- `ALIGN_CEIL` -/
def alignCeilNat (address range : Nat) : Nat := alignFloorNat (address + range - 1) range

/-- The size of a new arena for a block, in 32 bits: it may be 0, and then the arena
has no room. -/
def execArenaSize (page size : Nat) : Nat := alignCeilNat size page % 4294967296

/-- `allocateExecBlock`, with the answer of the kernel for a new arena. -/
def allocateExecBlock (page : Nat) (m : MemoryAllocator) (size mapped : Nat) :
    Option (MemBlock × MemoryAllocator) :=
  match firstBlock (·.allocMemBlock size) m.codeArenas with
  | some (b, arenas) => some (b, { m with codeArenas := arenas })
  | none =>
      ((MemoryArena.new mapped (execArenaSize page size)).allocMemBlock size).map fun r =>
        (r.1, { m with codeArenas := m.codeArenas ++ [r.2] })

/-! ### Near an address -/

/-- The test of an unused range against the range of the search, where 0 stands
for no room. -/
def unusedWithin (align lo hi start stop size : Nat) : Nat :=
  if stop < lo ∨ hi < start then 0
  else
    let start' := max (alignFloorNat start align) lo
    let stop' := min stop hi
    if stop' ≤ start' then 0
    else if stop' - start' < size then 0
    else start'

/-- `allocateFromDefaultArena`, and the two blocks that are taken where it found room. -/
def nearBlock (lo hi size : Nat) (a : MemoryArena) : Option (MemBlock × MemoryArena) :=
  let unused := unusedWithin 1 lo hi a.cursorAddr (a.addr + a.size) size
  if unused = 0 then none else (a.skip (unused - a.cursorAddr)).allocMemBlock size

/-- `min_valid_addr` and `max_valid_addr`, which wrap. -/
def searchLow (pos range : Nat) : Nat := (pos + 18446744073709551616 - range) % 18446744073709551616
def searchHigh (pos range : Nat) : Nat := (pos + range) % 18446744073709551616

/-- `allocateNearBlockFromDefaultAllocator` -/
def allocateNearBlockFromDefaultAllocator (m : MemoryAllocator) (size pos range : Nat)
    (executable : Bool) : Option (MemBlock × MemoryAllocator) :=
  let near := nearBlock (searchLow pos range) (searchHigh pos range) size
  if executable then
    (firstBlock near m.codeArenas).map fun r => (r.1, { m with codeArenas := r.2 })
  else
    -- The loop over these arenas goes on where it found room.
    (lastBlock near m.dataArenas).map fun r => (r.1, { m with dataArenas := r.2 })

/-- `check_has_sufficient_memory_between_region`, for the regions one after the other. -/
def unusedRegion (lo hi size : Nat) : List MemBlock → Nat
  | region :: next :: rest =>
      let unused := unusedWithin 4 lo hi region.stop next.addr size
      if unused = 0 then unusedRegion lo hi size (next :: rest) else unused
  | _ => 0

/-- `GetProcessMemoryLayout`, for the regions that the lines of the process maps name.
The loop ends at a read that fails, and that read leaves the last line in the buffer. -/
def getProcessMemoryLayout (lines : List MemBlock) : List MemBlock :=
  (lines ++ lines.getLast?.toList).insertionSort fun a b => a.addr ≤ b.addr

/-- What is mapped for a block at an unused place. -/
def nearRange (page unused size : Nat) : MemBlock :=
  let first := alignFloorNat unused page
  ⟨first, alignFloorNat (unused + size) page - first + page⟩

/-- `register_near_arena` -/
def registerNearArena (m : MemoryAllocator) (executable : Bool) (a : MemoryArena) :
    MemoryAllocator :=
  if executable then { m with codeArenas := m.codeArenas ++ [a] }
  else { m with dataArenas := m.dataArenas ++ [a] }

/-- `allocateNearBlockFromUnusedRegion`, with the regions of the process and the
answer of the kernel. -/
def allocateNearBlockFromUnusedRegion (page : Nat) (m : MemoryAllocator) (size pos range : Nat)
    (executable : Bool) (regions : List MemBlock) (mapped : Bool) :
    Option (MemBlock × MemoryAllocator) :=
  let unused := unusedRegion (searchLow pos range) (searchHigh pos range) size regions
  if unused = 0 ∨ ¬ mapped then none
  else
    let arena := MemoryArena.new (nearRange page unused size).addr (nearRange page unused size).size
    ((arena.skip (unused - arena.cursorAddr)).allocMemBlock size).map fun r =>
      (r.1, registerNearArena m executable r.2)

/-- `allocateNearBlock` -/
def allocateNearBlock (page : Nat) (m : MemoryAllocator) (size pos range : Nat)
    (executable : Bool) (regions : List MemBlock) (mapped : Bool) :
    Option (MemBlock × MemoryAllocator) :=
  match allocateNearBlockFromDefaultAllocator m size pos range executable with
  | some r => some r
  | none => allocateNearBlockFromUnusedRegion page m size pos range executable regions mapped

/-! ## What an allocation does to the arenas -/

section
variable {f : MemoryArena → Option (MemBlock × MemoryArena)} {arenas arenas' : List MemoryArena}
  {b : MemBlock} {m m' : MemoryAllocator}

/-- One arena of a list hands out a block, and the others stay. -/
def OneOf (f : MemoryArena → Option (MemBlock × MemoryArena)) (arenas : List MemoryArena)
    (b : MemBlock) (arenas' : List MemoryArena) : Prop :=
  ∃ pre a a' post, arenas = pre ++ a :: post ∧ arenas' = pre ++ a' :: post ∧ f a = some (b, a')

theorem OneOf.cons (h : OneOf f arenas b arenas') (a : MemoryArena) :
    OneOf f (a :: arenas) b (a :: arenas') := by
  obtain ⟨pre, a₁, a', post, rfl, rfl, hf⟩ := h
  exact ⟨a :: pre, a₁, a', post, rfl, rfl, hf⟩

theorem oneOf_firstBlock (h : firstBlock f arenas = some (b, arenas')) :
    OneOf f arenas b arenas' := by
  induction arenas generalizing arenas' with
  | nil => cases h
  | cons a rest ih =>
      rw [firstBlock] at h
      split at h
      next b' a' hfa =>
        cases h
        exact ⟨[], a, a', rest, rfl, rfl, hfa⟩
      next =>
        obtain ⟨⟨b', rest'⟩, hrest, heq⟩ := Option.map_eq_some_iff.mp h
        cases heq
        exact (ih hrest).cons a

theorem oneOf_lastBlock (h : lastBlock f arenas = some (b, arenas')) :
    OneOf f arenas b arenas' := by
  induction arenas generalizing arenas' with
  | nil => cases h
  | cons a rest ih =>
      cases rest with
      | nil =>
          obtain ⟨⟨b', a'⟩, hfa, heq⟩ := Option.map_eq_some_iff.mp h
          cases heq
          exact ⟨[], a, a', [], rfl, rfl, hfa⟩
      | cons a₂ rest =>
          obtain ⟨⟨b', rest'⟩, hrest, heq⟩ := Option.map_eq_some_iff.mp h
          cases heq
          exact (ih hrest).cons a

/-- A block for code has the size that was asked for and lies in an arena, and no
arena is new but the one that was mapped. -/
theorem allocateExecBlock_eq_some {page size mapped : Nat}
    (h : allocateExecBlock page m size mapped = some (b, m')) :
    b.size = size ∧ (∃ a ∈ m'.arenas, b.Inside a.range) ∧
      ∀ a ∈ m'.arenas, a.range = ⟨mapped, execArenaSize page size⟩ ∨
        ∃ a₀ ∈ m.arenas, a.range = a₀.range := by
  unfold allocateExecBlock at h
  split at h
  next b' arenas hfirst =>
    cases h
    obtain ⟨pre, a, a', post, hcode, rfl, halloc⟩ := oneOf_firstBlock hfirst
    have htakes := MemoryArena.takes_of_alloc halloc
    obtain ⟨-, rfl, -⟩ := MemoryArena.allocMemBlock_eq_some halloc
    have ha : a ∈ m.arenas := List.mem_append_left _ (hcode ▸ by simp)
    refine ⟨rfl, ⟨a', List.mem_append_left _ (by simp), ?_⟩, fun x hx => .inr ?_⟩
    · exact htakes.inside.trans a'.used_inside
    · rcases List.mem_append.mp hx with hx | hx
      · rcases List.mem_append.mp hx with hx | hx
        · exact ⟨x, List.mem_append_left _ (hcode ▸ List.mem_append_left _ hx), rfl⟩
        · rcases List.mem_cons.mp hx with rfl | hx
          · exact ⟨a, ha, htakes.range⟩
          · exact ⟨x, List.mem_append_left _ (hcode ▸ by simp [hx]), rfl⟩
      · exact ⟨x, List.mem_append_right _ hx, rfl⟩
  next =>
    obtain ⟨⟨b', a'⟩, halloc, heq⟩ := Option.map_eq_some_iff.mp h
    cases heq
    have htakes := MemoryArena.takes_of_alloc halloc
    obtain ⟨-, rfl, -⟩ := MemoryArena.allocMemBlock_eq_some halloc
    refine ⟨rfl, ⟨a', List.mem_append_left _ (by simp), ?_⟩, fun x hx => ?_⟩
    · exact htakes.inside.trans a'.used_inside
    · rcases List.mem_append.mp hx with hx | hx
      · rcases List.mem_append.mp hx with hx | hx
        · exact .inr ⟨x, List.mem_append_left _ hx, rfl⟩
        · rw [List.mem_singleton.mp hx]
          exact .inl htakes.range
      · exact .inr ⟨x, List.mem_append_right _ hx, rfl⟩

/-- A place that is found has room behind it, in the unused range and in the range
of the search. -/
theorem unusedWithin_eq {align lo hi start stop size place : Nat}
    (h : unusedWithin align lo hi start stop size = place) (hne : place ≠ 0) :
    place = max (alignFloorNat start align) lo ∧ place + size ≤ stop ∧ place + size ≤ hi := by
  unfold unusedWithin at h
  dsimp only at h
  split at h
  next => exact absurd h.symm hne
  next =>
    split at h
    next => exact absurd h.symm hne
    next hlt =>
      split at h
      next => exact absurd h.symm hne
      next hroom =>
        refine ⟨h.symm, ?_, ?_⟩ <;> omega

theorem alignFloorNat_one (a : Nat) : alignFloorNat a 1 = a := by
  rw [alignFloorNat, Nat.div_one, Nat.mul_one]

/-- A near block is in the range of the search. -/
theorem takes_nearBlock {lo hi size : Nat} {a a' : MemoryArena}
    (h : nearBlock lo hi size a = some (b, a')) :
    a.Takes b a' ∧ lo ≤ b.addr ∧ b.stop ≤ hi := by
  unfold nearBlock at h
  dsimp only at h
  split at h
  next => cases h
  next hne =>
    obtain ⟨hplace, hstop, hhi⟩ := unusedWithin_eq rfl hne
    rw [alignFloorNat_one] at hplace
    obtain ⟨a₂, halloc, htakes⟩ := MemoryArena.skip_alloc a
      (hplace ▸ Nat.le_max_left _ _) hstop
    rw [halloc] at h
    cases h
    exact ⟨htakes, hplace ▸ Nat.le_max_right _ _, hhi⟩

end

/-! ## The page behind a block -/

section
variable {page lo hi size place : Nat} {regions : List MemBlock}

theorem alignFloorNat_le (a r : Nat) : alignFloorNat a r ≤ a := Nat.div_mul_le_self a r

theorem lt_alignFloorNat_add (a : Nat) {r : Nat} (hr : 0 < r) : a < alignFloorNat a r + r :=
  Nat.lt_div_mul_add hr

theorem le_alignFloorNat {a b r : Nat} (hdvd : r ∣ a) (hle : a ≤ b) : a ≤ alignFloorNat b r :=
  (Nat.div_mul_cancel hdvd).symm.le.trans (Nat.mul_le_mul_right r (Nat.div_le_div_right hle))

/-- The regions of a process: in order, made of pages, and not empty.  One may be listed
more than once. -/
structure Regions (page : Nat) (regions : List MemBlock) : Prop where
  sorted : regions.Pairwise fun a b => a = b ∨ a.stop ≤ b.addr
  start : ∀ r ∈ regions, page ∣ r.addr
  stop : ∀ r ∈ regions, page ∣ r.stop
  nonempty : ∀ r ∈ regions, 0 < r.size

/-- Sorting leaves the regions of the process maps as they are, and the last one is
there twice. -/
theorem Regions.getProcessMemoryLayout_eq {lines : List MemBlock} (h : Regions page lines) :
    getProcessMemoryLayout lines = lines ++ lines.getLast?.toList := by
  refine List.Pairwise.insertionSort_eq ?_
  have hle : ∀ a b : MemBlock, (a = b ∨ a.stop ≤ b.addr) → a.addr ≤ b.addr := by
    rintro a b (rfl | hstop)
    · exact Nat.le_refl _
    · exact (Nat.le_add_right _ _).trans hstop
  rcases List.eq_nil_or_concat lines with rfl | ⟨pre, last, rfl⟩
  · exact List.Pairwise.nil
  · rw [List.concat_eq_append, List.getLast?_concat, Option.toList_some]
    have hsorted := h.sorted
    rw [List.concat_eq_append] at hsorted
    refine List.pairwise_append.mpr ⟨hsorted.imp (hle _ _), List.pairwise_singleton _ _, ?_⟩
    intro a ha b hb
    rw [List.mem_singleton.mp hb]
    rcases List.mem_append.mp ha with ha | ha
    · exact hle _ _ ((List.pairwise_append.mp hsorted).2.2 a ha last List.mem_cons_self)
    · rw [List.mem_singleton.mp ha]

theorem Regions.mem_getProcessMemoryLayout {lines : List MemBlock} (h : Regions page lines)
    {r : MemBlock} : r ∈ getProcessMemoryLayout lines ↔ r ∈ lines := by
  rw [h.getProcessMemoryLayout_eq, List.mem_append, or_iff_left_of_imp]
  intro hr
  exact List.mem_of_getLast? (Option.mem_toList.mp hr)

/-- The list of the process holds regions where the process maps do. -/
theorem Regions.getProcessMemoryLayout {lines : List MemBlock} (h : Regions page lines) :
    Regions page (getProcessMemoryLayout lines) := by
  refine ⟨?_, fun r hr => h.start r (h.mem_getProcessMemoryLayout.mp hr),
    fun r hr => h.stop r (h.mem_getProcessMemoryLayout.mp hr),
    fun r hr => h.nonempty r (h.mem_getProcessMemoryLayout.mp hr)⟩
  rw [h.getProcessMemoryLayout_eq]
  refine List.pairwise_append.mpr ⟨h.sorted, ?_, fun a ha b hb => ?_⟩
  · cases lines.getLast? with
    | none => exact List.Pairwise.nil
    | some last => exact List.pairwise_singleton _ _
  · have hlast : lines.getLast? = some b := Option.mem_toList.mp hb
    obtain ⟨pre, rfl⟩ := List.getLast?_eq_some_iff.mp hlast
    rcases List.mem_append.mp ha with ha | ha
    · exact (List.pairwise_append.mp h.sorted).2.2 a ha b List.mem_cons_self
    · exact .inl (List.mem_singleton.mp ha)

/-- A place that is found is between two regions, one after the other. -/
theorem unusedRegion_eq (h : unusedRegion lo hi size regions = place) (hne : place ≠ 0) :
    ∃ pre region next post, regions = pre ++ region :: next :: post ∧
      place = max (alignFloorNat region.stop 4) lo ∧ place + size ≤ next.addr ∧
        place + size ≤ hi := by
  induction regions with
  | nil => exact absurd h.symm hne
  | cons region rest ih =>
      cases rest with
      | nil => exact absurd h.symm hne
      | cons next rest =>
          unfold unusedRegion at h
          dsimp only at h
          split at h
          next =>
            obtain ⟨pre, region', next', post, heq, hplace⟩ := ih h
            exact ⟨region :: pre, region', next', post, by rw [heq]; rfl, hplace⟩
          next => exact ⟨[], region, next, rest, rfl, unusedWithin_eq h hne⟩

/-- The end of what is mapped for a block, against the start of a page. -/
theorem nearRange_stop_le_iff (hpage : 0 < page) {a : Nat} (hdvd : page ∣ a)
    (hle : place + size ≤ a) : (nearRange page place size).stop ≤ a ↔ place + size ≠ a := by
  have hfloor : alignFloorNat place page ≤ alignFloorNat (place + size) page :=
    Nat.mul_le_mul_right page (Nat.div_le_div_right (Nat.le_add_right _ _))
  have hstop : (nearRange page place size).stop = alignFloorNat (place + size) page + page := by
    rw [MemBlock.stop, nearRange, ← Nat.add_assoc, Nat.add_sub_cancel' hfloor]
  rw [hstop]
  constructor
  · intro h heq
    exact absurd h (Nat.not_le.mpr (heq ▸ lt_alignFloorNat_add (place + size) hpage))
  · intro hne
    obtain ⟨k, rfl⟩ := hdvd
    have hlt : (place + size) / page < k :=
      Nat.div_lt_of_lt_mul (Nat.lt_of_le_of_ne hle hne)
    calc alignFloorNat (place + size) page + page
        = ((place + size) / page + 1) * page := (Nat.succ_mul _ _).symm
      _ ≤ k * page := Nat.mul_le_mul_right page hlt
      _ = page * k := Nat.mul_comm _ _

/-- What is mapped for a block in a gap overlaps no region, unless the block ends
where the next region begins. -/
theorem nearRange_apart_iff (hpage : 0 < page) (hfour : 4 ∣ page) (hreg : Regions page regions)
    (h : unusedRegion lo hi size regions = place) (hne : place ≠ 0) :
    (∀ r ∈ regions, (nearRange page place size).Apart r) ↔
      ∀ r ∈ regions, place + size ≠ r.addr := by
  obtain ⟨pre, region, next, post, rfl, hplace, hnext, -⟩ := unusedRegion_eq h hne
  have hregion : region ∈ pre ++ region :: next :: post := by simp
  have hnextmem : next ∈ pre ++ region :: next :: post := by simp
  have hstop := hreg.stop region hregion
  have hsize := hreg.nonempty region hregion
  have hfloor : alignFloorNat region.stop 4 = region.stop :=
    Nat.div_mul_cancel (Nat.dvd_trans hfour hstop)
  have hlow : region.stop ≤ place := by
    rw [hplace, hfloor]
    exact Nat.le_max_left _ _
  have hbelow : region.stop ≤ (nearRange page place size).addr := le_alignFloorNat hstop hlow
  have hsorted := hreg.sorted
  rw [List.pairwise_append, List.pairwise_cons, List.pairwise_cons] at hsorted
  obtain ⟨-, ⟨-, hpost, -⟩, hpre⟩ := hsorted
  -- A region listed twice is on one side of the gap.
  have hbefore : ∀ r ∈ pre, r.stop ≤ region.stop := by
    intro r hr
    rcases hpre r hr region List.mem_cons_self with rfl | hle
    · exact Nat.le_refl _
    · exact hle.trans (Nat.le_add_right _ _)
  have hafter : ∀ r ∈ next :: post, next.addr ≤ r.addr := by
    intro r hr
    rcases List.mem_cons.mp hr with rfl | hr
    · exact Nat.le_refl _
    · rcases hpost r hr with rfl | hle
      · exact Nat.le_refl _
      · exact (Nat.le_add_right _ _).trans hle
  have hsides : ∀ r ∈ pre ++ region :: next :: post,
      r.stop ≤ region.stop ∨ next.addr ≤ r.addr := by
    intro r hr
    rcases List.mem_append.mp hr with hr | hr
    · exact .inl (hbefore r hr)
    · rcases List.mem_cons.mp hr with rfl | hr
      · exact .inl (Nat.le_refl _)
      · exact .inr (hafter r hr)
  have hstopNext := nearRange_stop_le_iff hpage (hreg.start next hnextmem) hnext
  constructor
  · intro hapart r hr heq
    have hrsize := hreg.nonempty r hr
    rcases hsides r hr with hside | hside
    · -- A region before the gap begins below the block.
      rw [MemBlock.stop] at hside
      omega
    · have heqNext : place + size = next.addr := Nat.le_antisymm hnext (heq ▸ hside)
      have hnextSize := hreg.nonempty next hnextmem
      have hover := mt hstopNext.mp (not_not.mpr heqNext)
      have hfirst : (nearRange page place size).addr ≤ place := alignFloorNat_le _ _
      rcases hapart next hnextmem with h | h
      · exact hover h
      · rw [MemBlock.stop] at h
        omega
  · intro hends r hr
    have hle := hstopNext.mpr (hends next hnextmem)
    rcases hsides r hr with hside | hside
    · exact .inr (hside.trans hbelow)
    · exact .inl (hle.trans hside)

end

/-! ## Where a near block comes from -/

section
variable {page size pos range : Nat} {executable mapped : Bool} {regions : List MemBlock}
  {m : MemoryAllocator} {r : MemBlock × MemoryAllocator}

/-- The new arena for a block in a gap. -/
def nearArena (page place size : Nat) : MemoryArena :=
  MemoryArena.new (nearRange page place size).addr (nearRange page place size).size

/-- A block in a gap is at the place that was found, in an arena of its own. -/
theorem allocateNearBlockFromUnusedRegion_eq_some (hpage : 0 < page)
    (h : allocateNearBlockFromUnusedRegion page m size pos range executable regions mapped =
      some r) :
    ∃ place, unusedRegion (searchLow pos range) (searchHigh pos range) size regions = place ∧
      place ≠ 0 ∧ mapped ∧ ∃ n, (nearArena page place size).Takes ⟨place, size⟩ n ∧
        r = (⟨place, size⟩, registerNearArena m executable n) := by
  unfold allocateNearBlockFromUnusedRegion at h
  dsimp only at h
  split at h
  next => cases h
  next hfound =>
    obtain ⟨hne, hmapped⟩ := not_or.mp hfound
    generalize hplace : unusedRegion _ _ _ _ = place at *
    have hstop : place + size ≤ (nearArena page place size).addr +
        (nearArena page place size).size := by
      have hlt := lt_alignFloorNat_add (place + size) hpage
      have hfloor : alignFloorNat place page ≤ alignFloorNat (place + size) page :=
        Nat.mul_le_mul_right page (Nat.div_le_div_right (Nat.le_add_right _ _))
      show place + size ≤ alignFloorNat place page +
        (alignFloorNat (place + size) page - alignFloorNat place page + page)
      omega
    obtain ⟨n, halloc, htakes⟩ :=
      MemoryArena.skip_alloc (nearArena page place size) (alignFloorNat_le place page) hstop
    have h' : ((MemoryArena.skip (nearArena page place size)
        (place - (nearArena page place size).cursorAddr)).allocMemBlock size).map (fun r =>
          (r.1, registerNearArena m executable r.2)) = some r := h
    rw [halloc] at h'
    cases h'
    exact ⟨place, rfl, hne, not_not.mp hmapped, n, htakes, rfl⟩

/-- A near block comes from an arena that has room near by, or from a gap between
two regions. -/
theorem allocateNearBlock_cases (hpage : 0 < page)
    (h : allocateNearBlock page m size pos range executable regions mapped = some r) :
    (∃ b arenas, OneOf (nearBlock (searchLow pos range) (searchHigh pos range) size)
        m.codeArenas b arenas ∧ r = (b, { m with codeArenas := arenas })) ∨
      (∃ b arenas, OneOf (nearBlock (searchLow pos range) (searchHigh pos range) size)
        m.dataArenas b arenas ∧ r = (b, { m with dataArenas := arenas })) ∨
      ∃ place, unusedRegion (searchLow pos range) (searchHigh pos range) size regions = place ∧
        place ≠ 0 ∧ mapped ∧ ∃ n, (nearArena page place size).Takes ⟨place, size⟩ n ∧
          r = (⟨place, size⟩, registerNearArena m executable n) := by
  unfold allocateNearBlock at h
  split at h
  next r' hdefault =>
    cases h
    unfold allocateNearBlockFromDefaultAllocator at hdefault
    dsimp only at hdefault
    split at hdefault
    next =>
      obtain ⟨⟨b, arenas⟩, hfirst, rfl⟩ := Option.map_eq_some_iff.mp hdefault
      exact .inl ⟨b, arenas, oneOf_firstBlock hfirst, rfl⟩
    next =>
      obtain ⟨⟨b, arenas⟩, hlast, rfl⟩ := Option.map_eq_some_iff.mp hdefault
      exact .inr (.inl ⟨b, arenas, oneOf_lastBlock hlast, rfl⟩)
  next => exact .inr (.inr (allocateNearBlockFromUnusedRegion_eq_some hpage h))

/-- A block in a gap is within the range of the search, and what is mapped for it
overlaps no region of the process unless the block ends right where one begins. -/
theorem allocateNearBlockFromUnusedRegion_apart_iff {lines : List MemBlock} (hpage : 0 < page)
    (hfour : 4 ∣ page) (hlines : Regions page lines)
    (h : allocateNearBlockFromUnusedRegion page m size pos range executable
      (getProcessMemoryLayout lines) mapped = some r) :
    ∃ n, r.2 = registerNearArena m executable n ∧ r.1.Inside n.used ∧
      searchLow pos range ≤ r.1.addr ∧ r.1.stop ≤ searchHigh pos range ∧
        ((∀ q ∈ lines, n.range.Apart q) ↔ ∀ q ∈ lines, r.1.stop ≠ q.addr) := by
  obtain ⟨place, hplace, hne, -, n, htakes, rfl⟩ :=
    allocateNearBlockFromUnusedRegion_eq_some hpage h
  obtain ⟨-, region, next, -, -, hlow, -, hhi⟩ := unusedRegion_eq hplace hne
  refine ⟨n, rfl, htakes.inside, hlow ▸ Nat.le_max_right _ _, hhi, ?_⟩
  have hiff := nearRange_apart_iff hpage hfour hlines.getProcessMemoryLayout hplace hne
  simp only [hlines.mem_getProcessMemoryLayout] at hiff
  rw [htakes.range]
  exact hiff

/-- Two blocks between the same two regions.  For the one that ends where the second
region begins, the first page of that region is mapped anew. -/
theorem allocateNearBlockFromUnusedRegion_apart_iff_pages :
    (∃ b n, allocateNearBlockFromUnusedRegion 0x1000 ⟨[], []⟩ 12 0x18000 0x1000 true
        (getProcessMemoryLayout [⟨0x10000, 0x1000⟩, ⟨0x20000, 0x1000⟩]) true =
          some (b, registerNearArena ⟨[], []⟩ true n) ∧
      ∀ q ∈ [MemBlock.mk 0x10000 0x1000, ⟨0x20000, 0x1000⟩], n.range.Apart q) ∧
      ∃ b n, allocateNearBlockFromUnusedRegion 0x1000 ⟨[], []⟩ 16 0x20ff0 0x1000 true
        (getProcessMemoryLayout [⟨0x10000, 0x1000⟩, ⟨0x20000, 0x1000⟩]) true =
          some (b, registerNearArena ⟨[], []⟩ true n) ∧
        ¬ ∀ q ∈ [MemBlock.mk 0x10000 0x1000, ⟨0x20000, 0x1000⟩], n.range.Apart q := by
  have hlines : Regions 0x1000 [⟨0x10000, 0x1000⟩, ⟨0x20000, 0x1000⟩] := by
    constructor <;> decide
  have hfirst : allocateNearBlockFromUnusedRegion 0x1000 ⟨[], []⟩ 12 0x18000 0x1000 true
      (getProcessMemoryLayout [⟨0x10000, 0x1000⟩, ⟨0x20000, 0x1000⟩]) true = some _ := rfl
  have hlast : allocateNearBlockFromUnusedRegion 0x1000 ⟨[], []⟩ 16 0x20ff0 0x1000 true
      (getProcessMemoryLayout [⟨0x10000, 0x1000⟩, ⟨0x20000, 0x1000⟩]) true = some _ := rfl
  constructor
  · obtain ⟨n, hn, -, -, -, hiff⟩ :=
      allocateNearBlockFromUnusedRegion_apart_iff (by decide) (by decide) hlines hfirst
    exact ⟨_, n, hfirst.trans (congrArg some (Prod.ext rfl hn)), hiff.mpr (by decide)⟩
  · obtain ⟨n, hn, -, -, -, hiff⟩ :=
      allocateNearBlockFromUnusedRegion_apart_iff (by decide) (by decide) hlines hlast
    exact ⟨_, n, hlast.trans (congrArg some (Prod.ext rfl hn)), mt hiff.mp (by decide)⟩

end

/-! ## Runs -/

/-- The allocator, and the blocks it has handed out. -/
structure Allocated where
  allocator : MemoryAllocator
  blocks : List MemBlock

/-- A request, with what the kernel answers to it. -/
inductive Request where
  | exec (size mapped : Nat)
  | near (size pos range : Nat) (executable : Bool) (regions : List MemBlock) (mapped : Bool)

namespace Allocated

/-- The state after an answer. -/
def take (s : Allocated) (r : MemBlock × MemoryAllocator) : Allocated := ⟨r.2, r.1 :: s.blocks⟩

/-- One request: without a block for code the check after the allocation ends the
run, and without a near one nothing happens. -/
def step (page : Nat) (s : Allocated) : Request → Except Unit Allocated
  | .exec size mapped =>
      match allocateExecBlock page s.allocator size mapped with
      | some r => .ok (s.take r)
      | none => .error ()
  | .near size pos range executable regions mapped =>
      match allocateNearBlock page s.allocator size pos range executable regions mapped with
      | some r => .ok (s.take r)
      | none => .ok s

/-- Disjoint arenas, and disjoint blocks in what they have handed out. -/
structure Layout (s : Allocated) : Prop where
  arenas : (s.allocator.arenas.map MemoryArena.range).Pairwise MemBlock.Apart
  placed : ∀ b ∈ s.blocks, ∃ a ∈ s.allocator.arenas, b.Inside a.used
  apart : s.blocks.Pairwise MemBlock.Apart

/-- What the kernel sees to: memory that is newly mapped is in no arena. -/
def Sound (page : Nat) (s : Allocated) : Request → Prop
  | .exec size mapped =>
      ∀ a ∈ s.allocator.arenas, MemBlock.Apart ⟨mapped, execArenaSize page size⟩ a.range
  | .near size pos range _ regions mapped =>
      ∀ place, unusedRegion (searchLow pos range) (searchHigh pos range) size regions = place →
        place ≠ 0 → mapped → ∀ a ∈ s.allocator.arenas, (nearRange page place size).Apart a.range

variable {page : Nat} {s s' : Allocated} {b : MemBlock} {m m' : MemoryAllocator}

/-- An arena hands out a block. -/
theorem Layout.take {pre post : List MemoryArena} {a a' : MemoryArena} (h : s.Layout)
    (hs : s.allocator.arenas = pre ++ a :: post) (hm : m'.arenas = pre ++ a' :: post)
    (htakes : a.Takes b a') : (s.take (b, m')).Layout := by
  have hranges := h.arenas
  have hb : b.Inside a.range := htakes.range ▸ htakes.inside.trans a'.used_inside
  rw [hs, List.map_append, List.map_cons] at hranges
  have hother : ∀ x ∈ pre ++ post, x.range.Apart a.range := by
    rw [List.pairwise_append, List.pairwise_cons] at hranges
    obtain ⟨-, ⟨hpost, -⟩, hpre⟩ := hranges
    intro x hx
    rcases List.mem_append.mp hx with hx | hx
    · exact hpre x.range (List.mem_map_of_mem hx) a.range List.mem_cons_self
    · exact (hpost x.range (List.mem_map_of_mem hx)).symm
  have hcases : ∀ x, x ∈ pre ++ a :: post → x = a ∨ x ∈ pre ++ post := by
    intro x hx
    rw [List.mem_append, List.mem_cons] at hx
    rw [List.mem_append]
    tauto
  constructor
  · show (m'.arenas.map MemoryArena.range).Pairwise MemBlock.Apart
    rw [hm, List.map_append, List.map_cons, htakes.range]
    exact hranges
  · intro c hc
    show ∃ x ∈ m'.arenas, c.Inside x.used
    rw [hm]
    rcases List.mem_cons.mp hc with rfl | hc
    · exact ⟨a', by simp, htakes.inside⟩
    · obtain ⟨x, hx, hin⟩ := h.placed c hc
      rcases hcases x (hs ▸ hx) with rfl | hx
      · exact ⟨a', by simp, htakes.kept hin⟩
      · refine ⟨x, ?_, hin⟩
        rw [List.mem_append] at hx
        rw [List.mem_append, List.mem_cons]
        tauto
  · refine List.pairwise_cons.mpr ⟨fun c hc => ?_, h.apart⟩
    obtain ⟨x, hx, hin⟩ := h.placed c hc
    rcases hcases x (hs ▸ hx) with rfl | hx
    · exact (htakes.apart hin).symm
    · exact ((hother x hx).inside (hin.trans x.used_inside) hb).symm

/-- A new arena apart from the others. -/
theorem Layout.grow {n : MemoryArena} (h : s.Layout)
    (hperm : m'.arenas.Perm (n :: s.allocator.arenas))
    (hfresh : ∀ a ∈ s.allocator.arenas, n.range.Apart a.range) : Layout ⟨m', s.blocks⟩ := by
  constructor
  · refine ((hperm.map MemoryArena.range).pairwise_iff fun h => h.symm).mpr ?_
    refine List.pairwise_cons.mpr ⟨fun r hr => ?_, h.arenas⟩
    obtain ⟨a, ha, rfl⟩ := List.mem_map.mp hr
    exact hfresh a ha
  · intro c hc
    obtain ⟨a, ha, hin⟩ := h.placed c hc
    exact ⟨a, hperm.mem_iff.mpr (List.mem_cons_of_mem _ ha), hin⟩
  · exact h.apart

/-- A block from a new arena, in either list. -/
theorem Layout.take_new (executable : Bool) {n n' : MemoryArena} (h : s.Layout)
    (hfresh : ∀ a ∈ s.allocator.arenas, n.range.Apart a.range) (htakes : n.Takes b n') :
    (s.take (b, registerNearArena s.allocator executable n')).Layout := by
  cases executable with
  | true =>
      have harenas : ∀ x, (registerNearArena s.allocator true x).arenas =
          s.allocator.codeArenas ++ x :: s.allocator.dataArenas := fun x =>
        List.append_assoc _ [x] _
      have hgrow : Layout ⟨registerNearArena s.allocator true n, s.blocks⟩ :=
        h.grow ((harenas n).symm ▸ List.perm_middle) hfresh
      exact hgrow.take (harenas n) (harenas n') htakes
  | false =>
      have harenas : ∀ x, (registerNearArena s.allocator false x).arenas =
          s.allocator.arenas ++ [x] := fun x => (List.append_assoc _ _ [x]).symm
      have hgrow : Layout ⟨registerNearArena s.allocator false n, s.blocks⟩ :=
        h.grow ((harenas n).symm ▸ List.perm_append_singleton _ _) hfresh
      exact hgrow.take (harenas n) (harenas n') htakes

/-- A block from an arena that is there. -/
theorem Layout.take_code {f : MemoryArena → Option (MemBlock × MemoryArena)}
    {arenas' : List MemoryArena} (h : s.Layout)
    (hone : OneOf f s.allocator.codeArenas b arenas')
    (hf : ∀ a b a', f a = some (b, a') → a.Takes b a') :
    (s.take (b, { s.allocator with codeArenas := arenas' })).Layout := by
  obtain ⟨pre, a, a', post, hs, rfl, hfa⟩ := hone
  have hbefore : s.allocator.arenas = pre ++ a :: (post ++ s.allocator.dataArenas) := by
    rw [MemoryAllocator.arenas, hs, List.append_assoc, List.cons_append]
  exact h.take hbefore (List.append_assoc pre (a' :: post) _) (hf a b a' hfa)

theorem Layout.take_data {f : MemoryArena → Option (MemBlock × MemoryArena)}
    {arenas' : List MemoryArena} (h : s.Layout)
    (hone : OneOf f s.allocator.dataArenas b arenas')
    (hf : ∀ a b a', f a = some (b, a') → a.Takes b a') :
    (s.take (b, { s.allocator with dataArenas := arenas' })).Layout := by
  obtain ⟨pre, a, a', post, hs, rfl, hfa⟩ := hone
  have hbefore : s.allocator.arenas = (s.allocator.codeArenas ++ pre) ++ a :: post := by
    rw [MemoryAllocator.arenas, hs, List.append_assoc]
  exact h.take hbefore (List.append_assoc _ pre _).symm (hf a b a' hfa)

/-! ### One request -/

theorem layout_exec {size mapped : Nat} {r : MemBlock × MemoryAllocator} (h : s.Layout)
    (hsound : s.Sound page (.exec size mapped))
    (hr : allocateExecBlock page s.allocator size mapped = some r) : (s.take r).Layout := by
  unfold allocateExecBlock at hr
  split at hr
  next b arenas hfirst =>
    cases hr
    exact h.take_code (oneOf_firstBlock hfirst) fun _ _ _ => MemoryArena.takes_of_alloc
  next =>
    obtain ⟨⟨b, a'⟩, halloc, rfl⟩ := Option.map_eq_some_iff.mp hr
    have hfresh : ∀ a ∈ s.allocator.arenas,
        (MemoryArena.new mapped (execArenaSize page size)).range.Apart a.range := hsound
    exact h.take_new true hfresh (MemoryArena.takes_of_alloc halloc)

theorem layout_near {size pos range : Nat} {executable mapped : Bool} {regions : List MemBlock}
    {r : MemBlock × MemoryAllocator} (hpage : 0 < page) (h : s.Layout)
    (hsound : s.Sound page (.near size pos range executable regions mapped))
    (hr : allocateNearBlock page s.allocator size pos range executable regions mapped = some r) :
    (s.take r).Layout := by
  rcases allocateNearBlock_cases hpage hr with ⟨b, arenas, hone, rfl⟩ | ⟨b, arenas, hone, rfl⟩ |
    ⟨place, hplace, hne, hmapped, n, htakes, rfl⟩
  · exact h.take_code hone fun _ _ _ hf => (takes_nearBlock hf).1
  · exact h.take_data hone fun _ _ _ hf => (takes_nearBlock hf).1
  · have hfresh : ∀ a ∈ s.allocator.arenas, (nearArena page place size).range.Apart a.range :=
      hsound place hplace hne hmapped
    exact h.take_new executable hfresh htakes

/-! ### Runs of requests -/

theorem layout_step {e : Request} (hpage : 0 < page) (h : s.Layout)
    (hsound : s.Sound page e) (hstep : step page s e = .ok s') : s'.Layout := by
  cases e with
  | exec size mapped =>
      rw [step] at hstep
      split at hstep
      next r hr =>
        cases hstep
        exact layout_exec h hsound hr
      next => cases hstep
  | near size pos range executable regions mapped =>
      rw [step] at hstep
      split at hstep
      next r hr =>
        cases hstep
        exact layout_near hpage h hsound hr
      next =>
        cases hstep
        exact h

/-- Blocks stay disjoint over a run of requests to both allocators. -/
theorem layout_run {es : List Request} (hpage : 0 < page) (h : s.Layout)
    (hsound : ∀ past e post, es = past ++ e :: post → ∀ t, run (step page) s past = .ok t →
      t.Sound page e)
    (hrun : run (step page) s es = .ok s') : s'.Layout :=
  run_invariant_guarded (fun _ _ _ ht hguard => layout_step hpage ht hguard) h hsound hrun

/-- A near request finds the arenas apart from what it maps where they are in regions of
the process maps and no region begins where the block ends. -/
theorem sound_near {size pos range : Nat} {executable mapped : Bool} {lines : List MemBlock}
    (hpage : 0 < page) (hfour : 4 ∣ page) (hlines : Regions page lines)
    (hcover : ∀ a ∈ s.allocator.arenas, ∃ r ∈ lines, a.range.Inside r)
    (hends : ∀ place, unusedRegion (searchLow pos range) (searchHigh pos range) size
      (getProcessMemoryLayout lines) = place → ∀ r ∈ lines, place + size ≠ r.addr) :
    s.Sound page (.near size pos range executable (getProcessMemoryLayout lines) mapped) := by
  intro place hplace hne _ a ha
  have hiff := nearRange_apart_iff hpage hfour hlines.getProcessMemoryLayout hplace hne
  simp only [hlines.mem_getProcessMemoryLayout] at hiff
  obtain ⟨r, hr, hin⟩ := hcover a ha
  exact (hiff.mpr (hends place hplace) r hr).inside ⟨Nat.le_refl _, Nat.le_refl _⟩ hin

/-- A near block in a gap of 16 pages, half of it out of range. -/
theorem layout_run_gap :
    Layout ⟨⟨[MemoryArena.new 0x10000 0x1000, (nearArena 0x1000 0x18000 12).skip 12], []⟩,
      [⟨0x18000, 12⟩]⟩ := by
  have hinit : Layout ⟨⟨[MemoryArena.new 0x10000 0x1000], []⟩, []⟩ :=
    ⟨List.pairwise_singleton _ _, fun _ hb => absurd hb List.not_mem_nil, List.Pairwise.nil⟩
  have hlines : Regions 0x1000 [⟨0x10000, 0x1000⟩, ⟨0x20000, 0x1000⟩] := by
    constructor <;> decide
  have hrun : run (step 0x1000) ⟨⟨[MemoryArena.new 0x10000 0x1000], []⟩, []⟩
      [.near 12 0x1a000 0x2000 true
        (getProcessMemoryLayout [⟨0x10000, 0x1000⟩, ⟨0x20000, 0x1000⟩]) true] =
      .ok ⟨⟨[MemoryArena.new 0x10000 0x1000, (nearArena 0x1000 0x18000 12).skip 12], []⟩,
        [⟨0x18000, 12⟩]⟩ := rfl
  refine layout_run (by decide) hinit (fun past e post hes t ht => ?_) hrun
  cases past with
  | cons e' past => simp at hes
  | nil =>
      cases hes
      cases ht
      refine sound_near (by decide) (by decide) hlines (fun a ha => ?_) ?_
      · rw [List.mem_singleton.mp ha]
        exact ⟨_, List.mem_cons_self, Nat.le_refl _, Nat.le_refl _⟩
      · rintro place rfl
        decide

end Allocated

end Dobby
