import AndroidAnalysis.Machine.EventRun
import AndroidAnalysis.RouteFunc.CreateShellcode

/-!
# Where a trampoline can be executed

`SET_MEMORY_PROTECT` rounds the block down to its page and makes one page
executable.  So a byte is executable exactly when some trampoline starts in its
page (`executable_iff`).  A block that ends in the next page has code there, and
only a trampoline that starts in that page makes it executable.
-/

namespace RouteFunc

open Machine Cpp

/-! ## Runs -/

/-- What `sysconf(_SC_PAGESIZE)` can return. -/
structure IsPageSize (b : Build) (pageSize : Nat) : Prop where
  pow : ∃ k, pageSize = 2 ^ k
  min : 4096 ≤ pageSize
  max : pageSize < 2 ^ ptrBits b

/-- A call of `create_shellcode_hooking_func`, with the block it gets. -/
structure Create (b : Build) where
  newPfunc : BitVec (ptrBits b)
  context : BitVec (ptrBits b)
  shellCode : BitVec (ptrBits b)
  /-- The allocator returns a block of the size that is asked for. -/
  inMemory : shellCode.toNat + shellcodeSize b ≤ 2 ^ ptrBits b

/-- The program, as far as its trampolines go. -/
structure Trampolines (b : Build) where
  world : World
  created : List (BitVec (ptrBits b))

/-- One call. -/
def create {b : Build} (pageSize : Nat) (s : Trampolines b) (e : Create b) : Trampolines b where
  world := createShellcodeHookingFunc b pageSize e.newPfunc e.context e.shellCode s.world
  created := s.created ++ [e.shellCode]

/-- Before the first call. -/
def noTrampolines (b : Build) (m : Mem) : Trampolines b := ⟨⟨m, []⟩, []⟩

/-- A byte has been made executable. -/
def Executable (w : World) (byte : Nat) : Prop :=
  ∃ p ∈ w.protects, p.start ≤ byte ∧ byte < p.start + p.length

/-- Every byte of every trampoline has been. -/
def AllExecutable {b : Build} (s : Trampolines b) : Prop :=
  ∀ a ∈ s.created, ∀ i < shellcodeSize b, Executable s.world (a.toNat + i)

/-- The page of an address. -/
def pageOf (pageSize address : Nat) : Nat := address / pageSize

/-- The page a trampoline starts in. -/
def Create.page {b : Build} (pageSize : Nat) (e : Create b) : Nat :=
  pageOf pageSize e.shellCode.toNat

/-- The block lies in one page. -/
def Create.OnePage {b : Build} (pageSize : Nat) (e : Create b) : Prop :=
  e.shellCode.toNat % pageSize + shellcodeSize b ≤ pageSize

instance {b : Build} (pageSize : Nat) (e : Create b) : Decidable (e.OnePage pageSize) :=
  inferInstanceAs (Decidable (_ ≤ _))

/-- A trampoline before it starts in the next page. -/
def NextPage {b : Build} (pageSize : Nat) (past : List (Create b)) (e : Create b) : Prop :=
  ∃ e' ∈ past, e'.page pageSize = e.page pageSize + 1

/-! ## Pages -/

theorem shellcodeSize_le (b : Build) : shellcodeSize b ≤ 72 := by cases b <;> decide

theorem shellcodeSize_pos (b : Build) : 0 < shellcodeSize b := by cases b <;> decide

/-- Rounding down with a mask, for a power of two. -/
theorem alignFloor_toNat {w k : Nat} (a : BitVec w) (hk : k < w) :
    (alignFloor a (BitVec.ofNat w (2 ^ k))).toNat = 2 ^ k * (a.toNat / 2 ^ k) := by
  have hlt : 2 ^ k < 2 ^ w := Nat.pow_lt_pow_right (by decide) hk
  have hrange : (BitVec.ofNat w (2 ^ k)).toNat = 2 ^ k := by
    rw [BitVec.toNat_ofNat, Nat.mod_eq_of_lt hlt]
  have hone : (1 : BitVec w).toNat = 1 := BitVec.toNat_one (by omega)
  have hpos : 1 ≤ 2 ^ k := Nat.one_le_two_pow
  have hmask : (BitVec.ofNat w (2 ^ k) - 1).toNat = 2 ^ k - 1 := by
    rw [BitVec.toNat_sub_of_le (by rw [BitVec.le_def, hone, hrange]; exact hpos), hrange, hone]
  apply Nat.eq_of_testBit_eq
  intro i
  have hbit : (BitVec.ofNat w (2 ^ k) - 1).getLsbD i = decide (i < k) := by
    rw [BitVec.getLsbD, hmask, Nat.testBit_two_pow_sub_one]
  show (alignFloor a (BitVec.ofNat w (2 ^ k))).getLsbD i = _
  rw [alignFloor, BitVec.getLsbD_and, BitVec.getLsbD_not, hbit, Nat.testBit_two_pow_mul]
  rcases Nat.lt_or_ge i k with hi | hi
  · simp [hi, Nat.not_le.mpr hi]
  · have hdiv : (a.toNat / 2 ^ k).testBit (i - k) = a.getLsbD i := by
      rw [Nat.testBit_div_two_pow, Nat.sub_add_cancel hi, BitVec.getLsbD]
    rw [hdiv]
    rcases Nat.lt_or_ge i w with hiw | hiw
    · simp [hi, hiw, Nat.not_lt.mpr hi]
    · simp [BitVec.getLsbD_of_ge a i hiw]

section

variable {b : Build} {pageSize : Nat}

theorem IsPageSize.pos (h : IsPageSize b pageSize) : 0 < pageSize :=
  Nat.lt_of_lt_of_le (by decide) h.min

/-- The page that is made executable is that of the block. -/
theorem IsPageSize.protect_start (h : IsPageSize b pageSize) (a : BitVec (ptrBits b)) :
    (setMemoryProtect pageSize a).start = pageSize * pageOf pageSize a.toNat := by
  obtain ⟨k, rfl⟩ := h.pow
  have hk : k < ptrBits b := (Nat.pow_lt_pow_iff_right (by decide)).mp h.max
  exact alignFloor_toNat a hk

/-- What one call of `mprotect` makes executable. -/
theorem IsPageSize.mem_protect (h : IsPageSize b pageSize) (a : BitVec (ptrBits b)) (byte : Nat) :
    ((setMemoryProtect pageSize a).start ≤ byte ∧
      byte < (setMemoryProtect pageSize a).start + (setMemoryProtect pageSize a).length) ↔
      pageOf pageSize byte = pageOf pageSize a.toNat := by
  have hpos := h.pos
  rw [h.protect_start, show (setMemoryProtect pageSize a).length = pageSize from rfl,
    pageOf, pageOf, Nat.div_eq_iff hpos, Nat.mul_comm]
  omega

/-- The page of a byte near an address. -/
theorem IsPageSize.pageOf_add (h : IsPageSize b pageSize) (a : Nat) {i : Nat}
    (hi : i < pageSize) : pageOf pageSize (a + i) =
      if a % pageSize + i < pageSize then pageOf pageSize a else pageOf pageSize a + 1 := by
  rw [pageOf, pageOf, Nat.add_div h.pos, Nat.div_eq_of_lt hi, Nat.mod_eq_of_lt hi, Nat.add_zero]
  rcases Nat.lt_or_ge (a % pageSize + i) pageSize with hlt | hge
  · rw [if_neg (Nat.not_le.mpr hlt), if_pos hlt]
    rfl
  · rw [if_pos hge, if_neg (Nat.not_lt.mpr hge)]

/-! ## Runs, by pages -/

/-- What a run of calls leaves. -/
structure After (pageSize : Nat) (past : List (Create b)) (s : Trampolines b) : Prop where
  created : s.created = past.map Create.shellCode
  protects : s.world.protects = past.map fun e => setMemoryProtect pageSize e.shellCode

theorem after_nil (m : Mem) : After pageSize [] (noTrampolines b m) := ⟨rfl, rfl⟩

theorem After.next {past : List (Create b)} {s : Trampolines b} (h : After pageSize past s)
    (e : Create b) : After pageSize (past ++ [e]) (create pageSize s e) where
  created := by
    rw [create, h.created, List.map_append]
    rfl
  protects := by
    rw [create, createShellcodeHookingFunc, h.protects, List.map_append]
    rfl

/-- A byte is executable exactly when a trampoline starts in its page. -/
theorem After.executable_iff (hpage : IsPageSize b pageSize) {past : List (Create b)}
    {s : Trampolines b} (h : After pageSize past s) (byte : Nat) :
    Executable s.world byte ↔ ∃ e ∈ past, e.page pageSize = pageOf pageSize byte := by
  rw [Executable, h.protects]
  simp only [List.mem_map, exists_exists_and_eq_and, hpage.mem_protect, Create.page,
    eq_comm (a := pageOf pageSize byte)]

/-- The blocks are executable so far, page by page. -/
theorem After.allExecutable_iff (hpage : IsPageSize b pageSize) {past : List (Create b)}
    {s : Trampolines b} (h : After pageSize past s) :
    AllExecutable s ↔ ∀ e ∈ past, ∀ i < shellcodeSize b,
      ∃ e' ∈ past, e'.page pageSize = pageOf pageSize (e.shellCode.toNat + i) := by
  rw [AllExecutable, h.created]
  simp only [List.forall_mem_map, h.executable_iff hpage]

/-- The pages a block has bytes in: its own, and the next one unless it fits. -/
theorem IsPageSize.block_pages (hpage : IsPageSize b pageSize) (e : Create b) :
    (∀ i < shellcodeSize b, pageOf pageSize (e.shellCode.toNat + i) = e.page pageSize ∨
        pageOf pageSize (e.shellCode.toNat + i) = e.page pageSize + 1 ∧ ¬ e.OnePage pageSize) ∧
      (¬ e.OnePage pageSize → ∃ i < shellcodeSize b,
        pageOf pageSize (e.shellCode.toNat + i) = e.page pageSize + 1) := by
  have hsize := shellcodeSize_le b
  have hpos := shellcodeSize_pos b
  have hmin := hpage.min
  refine ⟨fun i hi => ?_, fun hone => ?_⟩
  · rw [hpage.pageOf_add _ (by omega), Create.page, Create.OnePage]
    split
    next => exact Or.inl rfl
    next hover => exact Or.inr ⟨rfl, by omega⟩
  · rw [Create.OnePage] at hone
    refine ⟨shellcodeSize b - 1, by omega, ?_⟩
    rw [hpage.pageOf_add _ (by omega), if_neg (by omega)]
    rfl

/-- A good call keeps every block executable. -/
theorem allExecutable_create (hpage : IsPageSize b pageSize) {past : List (Create b)}
    {s : Trampolines b} (h : After pageSize past s) (hall : AllExecutable s) {e : Create b}
    (hgood : e.OnePage pageSize ∨ NextPage pageSize past e) :
    AllExecutable (create pageSize s e) := by
  rw [h.allExecutable_iff hpage] at hall
  rw [(h.next e).allExecutable_iff hpage]
  intro e' he' i hi
  rcases List.mem_append.mp he' with hold | hnew
  · obtain ⟨e₁, he₁, hpg⟩ := hall e' hold i hi
    exact ⟨e₁, List.mem_append_left _ he₁, hpg⟩
  · obtain rfl := List.mem_singleton.mp hnew
    rcases (hpage.block_pages e').1 i hi with hown | ⟨hnext, hover⟩
    · exact ⟨e', he', hown.symm⟩
    · obtain ⟨e₁, he₁, hpg⟩ := hgood.resolve_left hover
      exact ⟨e₁, List.mem_append_left _ he₁, hpg.trans hnext.symm⟩

/-- After a call that is not, the end of its block is not executable. -/
theorem not_allExecutable_create (hpage : IsPageSize b pageSize) {past : List (Create b)}
    {s : Trampolines b} (h : After pageSize past s) {e : Create b}
    (hbad : ¬ (e.OnePage pageSize ∨ NextPage pageSize past e)) :
    ¬ AllExecutable (create pageSize s e) := by
  rw [not_or] at hbad
  rw [(h.next e).allExecutable_iff hpage]
  intro hall
  obtain ⟨i, hi, hnext⟩ := (hpage.block_pages e).2 hbad.1
  obtain ⟨e', he', hpg⟩ := hall e (List.mem_append_right _ List.mem_cons_self) i hi
  rw [hnext] at hpg
  rcases List.mem_append.mp he' with hold | hnew
  · exact hbad.2 ⟨e', hold, hpg⟩
  · obtain rfl := List.mem_singleton.mp hnew
    exact absurd hpg (Nat.ne_of_lt (Nat.lt_succ_self _))

end

/-- After each call of a run every trampoline is executable exactly when each block
lies in one page or is followed by a page in which a trampoline before it starts. -/
theorem allExecutable_run_iff {b : Build} {pageSize : Nat} (hpage : IsPageSize b pageSize)
    (m : Mem) (es : List (Create b)) :
    (∀ p, p <+: es → AllExecutable (p.foldl (create pageSize) (noTrampolines b m))) ↔
      ∀ past e rest, es = past ++ e :: rest → e.OnePage pageSize ∨ NextPage pageSize past e :=
  foldl_always_iff (fun past s => After pageSize past s ∧ AllExecutable s) AllExecutable
    (fun past e => e.OnePage pageSize ∨ NextPage pageSize past e) (fun _ _ h => h.2)
    (fun _ _ e h hgood => ⟨h.1.next e, allExecutable_create hpage h.1 h.2 hgood⟩)
    (fun _ _ _ h hbad => not_allExecutable_create hpage h.1 hbad) []
    ⟨after_nil m, fun _ ha => absurd ha List.not_mem_nil⟩ es

/-- A call on arm64 that gets the block at an address. -/
def createAt (shellCode : BitVec 64) (h : shellCode.toNat + 72 ≤ 2 ^ 64) : Create .arm64 where
  newPfunc := 0x3000
  context := 0x4000
  shellCode := shellCode
  inMemory := h

theorem isPageSize_4096 : IsPageSize .arm64 4096 := ⟨⟨12, rfl⟩, by decide, by decide⟩

/-- A block that crosses into a page where a trampoline starts is executable. -/
theorem allExecutable_run_two : IsPageSize .arm64 4096 ∧
    ∀ p, p <+: [createAt 0x2000 (by decide), createAt 0x1ff0 (by decide)] →
      AllExecutable (p.foldl (create 4096) (noTrampolines .arm64 fun _ => 0)) := by
  refine ⟨isPageSize_4096, ?_⟩
  refine (allExecutable_run_iff isPageSize_4096 (fun _ => 0) _).mpr fun past e rest hsplit => ?_
  cases past with
  | nil =>
      cases hsplit
      exact Or.inl (by decide)
  | cons e₁ past =>
      cases past with
      | nil =>
          cases hsplit
          exact Or.inr ⟨_, List.mem_cons_self, rfl⟩
      | cons e₂ past =>
          have hlen := congrArg List.length hsplit
          simp at hlen

/-- The last bytes of a block that begins sixteen bytes before the end of a page are
not executable. -/
theorem not_allExecutable_pageEnd : IsPageSize .arm64 4096 ∧ ¬ AllExecutable
    ([createAt 0x1ff0 (by decide)].foldl (create 4096) (noTrampolines .arm64 fun _ => 0)) := by
  refine ⟨isPageSize_4096, not_allExecutable_create isPageSize_4096 (after_nil _) ?_⟩
  rintro (hone | ⟨e, he, -⟩)
  · exact absurd hone (by decide)
  · exact absurd he List.not_mem_nil

end RouteFunc
