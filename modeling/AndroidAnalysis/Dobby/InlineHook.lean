import AndroidAnalysis.Dobby.MemoryAllocator
import AndroidAnalysis.Dobby.Trampoline

/-!
# Inline hooks

`DobbyHook` puts a trampoline to the replacement over the first instructions of a
function.  Before that it relocates them into a block of executable memory, and
the address of that block is what it hands out as the original function.
`DobbyDestroy` writes the first instructions back from the entry of the hook.

A `Hooker` is the memory of the process, the allocator and the table of entries.
A call comes with what the kernel and the heap answer: whether the page may be
executed, where a new arena is mapped, and what a new entry holds in the fields
that its constructor leaves alone.

`dobbyHook_cases` and `dobbyDestroy_cases` say once what a call can do.
-/

namespace Dobby

open Machine Machine.A64
open Machine.Arm64 (Reg)

/-! ## The table -/

/-- `InterceptEntry` -/
structure InterceptEntry where
  id : Nat
  patchedAddr : BitVec 64
  relocatedAddr : BitVec 64
  /-- 256 bytes. -/
  originInsns : List (BitVec 8)
  originInsnSize : Nat
deriving DecidableEq

/-- The memory of the process, the allocator, and `Interceptor::entries`. -/
structure Hooker where
  mem : Mem
  allocator : MemoryAllocator
  entries : List InterceptEntry

/-- `Interceptor::find` -/
def Hooker.find (s : Hooker) (addr : BitVec 64) : Option InterceptEntry :=
  s.entries.find? (·.patchedAddr == addr)

theorem Hooker.find_eq_some {s : Hooker} {addr : BitVec 64} {e : InterceptEntry}
    (h : s.find addr = some e) : e.patchedAddr = addr := by
  rw [Hooker.find] at h
  simpa using List.find?_some h

/-- `Interceptor::remove` -/
def Hooker.remove (s : Hooker) (addr : BitVec 64) : Hooker :=
  { s with entries := s.entries.eraseP (·.patchedAddr == addr) }

/-- `DobbyCodePatch`, of a buffer of instructions. -/
def Hooker.codePatch (s : Hooker) (addr : BitVec 64) (buffer : List (BitVec 32)) : Hooker :=
  { s with mem := storeWords s.mem addr.toNat buffer }

/-! ## Calls -/

/-- A call of `DobbyHook`, with the answers of `mprotect` and `mmap` and the fresh
memory of an entry. -/
structure HookCall where
  address : BitVec 64
  replaceFunc : BitVec 64
  originFunc : Option (BitVec 64)
  permitted : Bool
  mapped : Nat
  unset : InterceptEntry

/-- `GenerateRelocatedCode`, for a trampoline of `n` instructions: the code goes to
a block of its own, and the entry keeps its address and a copy of what is patched. -/
def generateRelocatedCode (page : Nat) (ndebug : Bool) (s : Hooker) (entry : InterceptEntry)
    (n mapped : Nat) : Option (InterceptEntry × Hooker) := do
  let addr := entry.patchedAddr
  let code ← genRelocateCodeAndBranch ndebug addr (wordsFrom s.mem addr.toNat n)
  -- `AssemblyCodeBuilder::FinalizeFromTurboAssembler`
  let (block, allocator) ← allocateExecBlock page s.allocator (4 * code.length) mapped
  let relocated := BitVec.ofNat 64 block.addr
  let s := { s with allocator := allocator }.codePatch relocated code
  some ({ entry with
      relocatedAddr := relocated
      originInsns := bytesAt s.mem addr.toNat (4 * n) ++ entry.originInsns.drop (4 * n) }, s)

/-- `*origin_func`, where there is one. -/
def putOrigin (m : Mem) (originFunc : Option (BitVec 64)) (relocated : BitVec 64) : Mem :=
  match originFunc with
  | none => m
  | some p => write64 m p.toNat relocated

/-- `DobbyHook`.  A run that ends in a failed check has no result. -/
def dobbyHook (page : Nat) (ndebug : Bool) (s : Hooker) (c : HookCall) :
    Except Unit (Int × Hooker) :=
  if c.address = 0 then .ok (-1, s)
  else if !c.permitted then .ok (-1, s)
  else if (s.find c.address).isSome then .ok (-1, s)
  else
    let entry := { c.unset with id := s.entries.length, patchedAddr := c.address }
    let tramp := generateNormalTrampolineBuffer c.address c.replaceFunc
    match generateRelocatedCode page ndebug s entry tramp.length c.mapped with
    | none => .error ()
    | some (entry, s) =>
        let s := { s with mem := putOrigin s.mem c.originFunc entry.relocatedAddr }
        let s := s.codePatch entry.patchedAddr tramp
        .ok (0, { s with entries := s.entries ++ [entry] })

/-- `DobbyDestroy`.  It has no result where it reads behind the instructions of the
entry. -/
def dobbyDestroy (s : Hooker) (address : BitVec 64) : Except Unit (Int × Hooker) :=
  match s.find address with
  | none => .ok (-1, s)
  | some entry =>
      if entry.originInsnSize ≤ entry.originInsns.length then
        let buffer := entry.originInsns.take entry.originInsnSize
        .ok (0, { s with mem := memcpy s.mem address.toNat buffer }.remove address)
      else .error ()

/-! ## What a call can do -/

/-- A hook: where it is, what it leads to, what it replaced, and its relocated
code with the block of it. -/
structure Hook where
  address : BitVec 64
  replaceFunc : BitVec 64
  insts : List (BitVec 32)
  code : List (BitVec 32)
  block : MemBlock

/-- The words over the first instructions. -/
def Hook.tramp (h : Hook) : List (BitVec 32) :=
  generateNormalTrampolineBuffer h.address h.replaceFunc

/-- What is handed out as the original function. -/
def Hook.relocated (h : Hook) : BitVec 64 := BitVec.ofNat 64 h.block.addr

/-- The bytes that are patched. -/
def Hook.patch (h : Hook) : MemBlock := ⟨h.address.toNat, 4 * h.tramp.length⟩

/-- The hook that a call makes. -/
def hookOf (page : Nat) (ndebug : Bool) (s : Hooker) (c : HookCall) : Option Hook := do
  let tramp := generateNormalTrampolineBuffer c.address c.replaceFunc
  let insts := wordsFrom s.mem c.address.toNat tramp.length
  let code ← genRelocateCodeAndBranch ndebug c.address insts
  let (block, _) ← allocateExecBlock page s.allocator (4 * code.length) c.mapped
  some ⟨c.address, c.replaceFunc, insts, code, block⟩

/-- The memory after a hook was made. -/
def Hook.write (h : Hook) (originFunc : Option (BitVec 64)) (m : Mem) : Mem :=
  storeWords (putOrigin (storeWords m h.relocated.toNat h.code) originFunc h.relocated)
    h.address.toNat h.tramp

/-- The entry of a hook. -/
def Hook.entry (h : Hook) (s : Hooker) (unset : InterceptEntry) : InterceptEntry where
  id := s.entries.length
  patchedAddr := h.address
  relocatedAddr := h.relocated
  originInsns := bytesAt (storeWords s.mem h.relocated.toNat h.code) h.address.toNat
    (4 * h.tramp.length) ++ unset.originInsns.drop (4 * h.tramp.length)
  originInsnSize := unset.originInsnSize

section
variable {page : Nat} {ndebug : Bool} {s s' : Hooker} {c : HookCall} {r : Int}

/-- The parts of a hook that was made. -/
theorem hookOf_eq_some {h : Hook} (hh : hookOf page ndebug s c = some h) :
    h.address = c.address ∧ h.replaceFunc = c.replaceFunc ∧
      h.insts = wordsFrom s.mem c.address.toNat h.tramp.length ∧
      genRelocateCodeAndBranch ndebug h.address h.insts = some h.code ∧
      ∃ allocator, allocateExecBlock page s.allocator (4 * h.code.length) c.mapped =
        some (h.block, allocator) := by
  rw [hookOf] at hh
  obtain ⟨code, hcode, hh⟩ := Option.bind_eq_some_iff.mp hh
  obtain ⟨⟨block, allocator⟩, halloc, hh⟩ := Option.bind_eq_some_iff.mp hh
  cases hh
  exact ⟨rfl, rfl, rfl, hcode, allocator, halloc⟩

/-- A call makes a hook, or it fails and changes nothing. -/
theorem dobbyHook_cases (hr : dobbyHook page ndebug s c = .ok (r, s')) :
    (r = -1 ∧ s' = s ∧
      (c.address = 0 ∨ c.permitted = false ∨ (s.find c.address).isSome = true)) ∨
    ∃ h allocator, r = 0 ∧ hookOf page ndebug s c = some h ∧
      allocateExecBlock page s.allocator (4 * h.code.length) c.mapped =
        some (h.block, allocator) ∧
      s.find c.address = none ∧
      s' = ⟨h.write c.originFunc s.mem, allocator, s.entries ++ [h.entry s c.unset]⟩ := by
  unfold dobbyHook at hr
  split at hr
  next haddr =>
    cases hr
    exact .inl ⟨rfl, rfl, .inl haddr⟩
  next =>
    split at hr
    next hperm =>
      cases hr
      exact .inl ⟨rfl, rfl, .inr (.inl (by simpa using hperm))⟩
    next =>
      split at hr
      next hfound =>
        cases hr
        exact .inl ⟨rfl, rfl, .inr (.inr hfound)⟩
      next hnew =>
        dsimp only at hr
        split at hr
        next => cases hr
        next entry t hgen =>
          rw [generateRelocatedCode] at hgen
          obtain ⟨code, hcode, hgen⟩ := Option.bind_eq_some_iff.mp hgen
          obtain ⟨⟨block, allocator⟩, halloc, hgen⟩ := Option.bind_eq_some_iff.mp hgen
          cases hgen
          have hhook : hookOf page ndebug s c = some ⟨c.address, c.replaceFunc,
              wordsFrom s.mem c.address.toNat
                (generateNormalTrampolineBuffer c.address c.replaceFunc).length, code, block⟩ := by
            rw [hookOf]
            simp only [Option.bind_eq_bind]
            rw [hcode, Option.bind_some, halloc, Option.bind_some]
          cases hr
          exact .inr ⟨_, allocator, rfl, hhook, halloc, by simpa using hnew, rfl⟩

end

/-! ## Code that was patched -/

/-- A processor on which every other word does nothing. -/
def nops : Isa Unit := ⟨fun _ s => some (s, none), fun _ _ _ _ => none⟩

/-- A state of zeros with a memory. -/
def memCore (m : Mem) : Core Unit := ⟨fun _ => 0, false, false, false, false, (), m⟩

/-- A process with no hooks. -/
def Hooker.start (m : Mem) : Hooker := ⟨m, ⟨[], []⟩, []⟩

section
variable {E : Type} {isa : Isa E} {s : Hooker} {src dst : BitVec 64}

/-- A trampoline that was written leads to its target with only `x17` changed, unless
the target lies on the page just out of the reach of `adrp`. -/
theorem codePatch_trampoline_iff {c : Core E}
    (hc : c.mem = (s.codePatch src (generateNormalTrampolineBuffer src dst)).mem)
    (hfit : src.toNat + 4 * (generateNormalTrampolineBuffer src dst).length ≤ 2 ^ 64)
    (hout : 4 * (generateNormalTrampolineBuffer src dst).length ≤ (dst - src).toNat) :
    RunsTo (step isa) (outside src (generateNormalTrampolineBuffer src dst).length) ⟨src, c⟩
      ⟨dst, c.set x17 dst⟩ ↔ ¬ PageOutOfReach src dst := by
  have hloaded : Loaded c.mem src.toNat (generateNormalTrampolineBuffer src dst) := by
    rw [hc]
    exact loaded_storeWords _ _ _
  exact trampoline_reaches_iff hloaded hfit hout

/-- A target near by is reached, and the one that is eight bytes less than four
gigabytes ahead is not. -/
theorem codePatch_trampoline_iff_pages :
    (∃ m, RunsTo (step nops)
      (outside 0x1000 (generateNormalTrampolineBuffer 0x1000 0x5000).length)
      ⟨0x1000, memCore m⟩ ⟨0x5000, (memCore m).set x17 0x5000⟩) ∧
    ∃ m, ¬ RunsTo (step nops)
      (outside 0x1008 (generateNormalTrampolineBuffer 0x1008 0x100001000).length)
      ⟨0x1008, memCore m⟩ ⟨0x100001000, (memCore m).set x17 0x100001000⟩ := by
  have hnear : (generateNormalTrampolineBuffer 0x1000 0x5000).length = 3 := by decide
  have hfar : (generateNormalTrampolineBuffer 0x1008 0x100001000).length = 3 := by decide
  constructor
  · refine ⟨_, (codePatch_trampoline_iff (s := .start fun _ => 0) (c := memCore _) rfl ?_ ?_).mpr
      (by decide)⟩
    all_goals
      rw [hnear]
      decide
  · refine ⟨_, mt (codePatch_trampoline_iff (s := .start fun _ => 0) (c := memCore _) rfl ?_ ?_).mp
      (not_not_intro (by decide))⟩
    all_goals
      rw [hfar]
      decide

/-- The relocated code of instructions that are in memory, once it was written
somewhere else, leaves where the instructions leave. -/
theorem codePatch_simulates {ndebug : Bool} {n : Nat} {code : List (BitVec 32)}
    (hgen : genRelocateCodeAndBranch ndebug src (wordsFrom s.mem src.toNat n) = some code)
    (hrel : ∀ w ∈ wordsFrom s.mem src.toNat n, Relocatable w)
    (hsfit : src.toNat + 4 * n ≤ 2 ^ 64) (hdfit : dst.toNat + 4 * code.length ≤ 2 ^ 64)
    (hnear : code.length ≤ 262144) {c : Core E} (hc : c.mem = s.mem) {t : State E}
    (hund : UndisturbedRun isa (patched src n dst code.length) n (fun _ => False) ⟨src, c⟩)
    (hleave : leave isa n ⟨src, c⟩ = some t) (hout : outside dst code.length t = true) :
    ∃ u, RunsTo (step isa) (outside dst code.length)
        ⟨dst, { c with mem := (s.codePatch dst code).mem }⟩ u ∧
      Left ndebug (wordsFrom s.mem src.toNat n) src dst (fun _ => False)
        (patched src n dst code.length) t u := by
  have hlen := length_wordsFrom s.mem src.toNat n
  have hnone : blockItems ndebug src [] = some [] := rfl
  have hsrc : Loaded c.mem src.toNat (wordsFrom s.mem src.toNat n) := by
    rw [hc]
    exact loaded_wordsFrom _ _ _
  have hag : Agree (fun _ => False) (patched src n dst code.length) c
      { c with mem := (s.codePatch dst code).mem } := by
    refine ⟨fun _ _ => rfl, rfl, rfl, rfl, rfl, rfl, ?_⟩
    show Mem.AgreeOn _ c.mem (storeWords s.mem dst.toNat code)
    rw [hc]
    refine storeWords_agreeOn s.mem code dst.toNat fun b hb => ?_
    by_contra hin
    exact hb (.inr ⟨by omega, by omega⟩)
  have hcode : Loaded (s.codePatch dst code).mem dst.toNat code := loaded_storeWords _ _ _
  generalize wordsFrom s.mem src.toNat n = insts at *
  subst hlen
  exact relocated_simulates (s := ⟨src, c⟩)
    (t := ⟨dst, { c with mem := (s.codePatch dst code).mem }⟩) [] hgen hrel hsfit hdfit hnear hnone
    rfl rfl hsrc hcode hag hund hleave hout

end

/-- A `cbz` of a zero register that is moved from `0x1000` to `0x2000` still goes to
`0x1080`. -/
theorem codePatch_simulates_cbz : ∃ (code : List (BitVec 32)) (t : State Unit),
    genRelocateCodeAndBranch true 0x1000 [0xb4000400] = some code ∧
      RunsTo (step nops) (outside 0x2000 code.length)
        ⟨0x2000, memCore (((Hooker.start (storeWords (fun _ => 0) 0x1000 [0xb4000400])).codePatch
          0x2000 code).mem)⟩ t ∧ t.pc = 0x1080 := by
  let s := Hooker.start (storeWords (fun _ => 0) 0x1000 [0xb4000400])
  have hlen : (genRelocateCodeAndBranch true 0x1000 [0xb4000400]).map List.length = some 13 := by
    decide
  obtain ⟨code, hgen, hlen⟩ := Option.map_eq_some_iff.mp hlen
  have hwords : wordsFrom s.mem (0x1000 : BitVec 64).toNat 1 = [0xb4000400] :=
    congrArg (· :: []) (read32_write32_same _ _ _)
  have hi : decode 0xb4000400 = .cb true false 0 0x80 := by decide
  have hword : State.word ⟨0x1000, memCore s.mem⟩ = 0xb4000400 := read32_write32_same _ _ _
  have hrel : ∀ w ∈ wordsFrom s.mem (0x1000 : BitVec 64).toNat 1, Relocatable w := by
    intro w hw
    rw [hwords] at hw
    rw [List.mem_singleton.mp hw, Relocatable, hi]
    decide
  have hfit : (0x2000 : BitVec 64).toNat + 4 * code.length ≤ 2 ^ 64 := by
    rw [hlen]
    decide
  have hund : UndisturbedRun nops (patched 0x1000 1 0x2000 code.length) 1 (fun _ => False)
      ⟨0x1000, memCore s.mem⟩ := by
    refine ⟨?_, fun _ _ _ => trivial⟩
    rw [Undisturbed, hword, hi]
    exact fun _ _ h => h
  have hleave : leave nops 1 ⟨0x1000, memCore s.mem⟩ = some ⟨0x1080, memCore s.mem⟩ := by
    rw [leave, step, hword, hi]
    rfl
  have hout : outside 0x2000 code.length (⟨0x1080, memCore s.mem⟩ : State Unit) = true := by
    rw [hlen]
    rfl
  obtain ⟨t, hrun, hleft⟩ := codePatch_simulates (s := s) (hwords ▸ hgen) hrel (by decide) hfit
    (by rw [hlen]; decide) rfl hund hleave hout
  exact ⟨code, t, hgen, hrun, hleft.pc_eq⟩

end Dobby
