import AndroidAnalysis.XHook.ElfHook

/-!
# A library whose symbol is hooked

`Elf.LiesIn` says where a library has its tables, and `SlotsApart` that nothing that is
written overlaps them.  `elfHook_spec` is what hooking a symbol of such a library is
for, where the symbol has one `JUMP_SLOT` at most: each slot of the symbol has the new
function, the function that they held is saved, nothing else is written, and to hook the
symbol again changes nothing.
-/

namespace XHook

open Machine

/-- The library has these symbols, and its tables are in this part of memory. -/
structure Elf.LiesIn (elf : Elf) (m : Mem) (names : List CStr) (q : Nat → Prop) : Prop where
  tables : ∀ b, elf.InTables b → q b
  symbols : ∀ m', Mem.AgreeOn q m m' → SymbolTable m' elf names

/-- The slots and the place of the saved function overlap neither this part of memory
nor each other. -/
structure SlotsApart (q : Nat → Prop) (slots : List (BitVec 64)) (oldFunc : Option (BitVec 64)) :
    Prop where
  tables : ∀ s ∈ slots, WordMisses q s
  old : ∀ o, oldFunc = some o → WordMisses q o
  apart : ∀ s ∈ slots, ∀ t ∈ slots, t = s ∨ WordsApart t s
  oldApart : ∀ o, oldFunc = some o → ∀ s ∈ slots, WordsApart o s

section
variable {os : Os} {elf : Elf} {m : Mem} {names : List CStr} {q : Nat → Prop} {symbol : CStr}
  {symidx : BitVec 32} {newFunc : BitVec 64} {oldFunc : Option (BitVec 64)}

/-- The symbol has this index, and no other symbol has its name. -/
structure NameAt (names : List CStr) (symbol : CStr) (symidx : BitVec 32) : Prop where
  nonempty : symbol.bytes ≠ []
  at_index : names[symidx.toNat]? = some symbol
  only : ∀ i : BitVec 32, names[i.toNat]? = some symbol → i = symidx

theorem NameAt.find (h : NameAt names symbol symidx) {m : Mem} (ht : SymbolTable m elf names) :
    elfFindSymidxByName m elf symbol = some (.ok symidx) := by
  obtain ⟨r, hr, hfinds⟩ := elfFindSymidxByName_finds ht h.nonempty
  rw [hr]
  cases r with
  | ok i => rw [h.only i hfinds]
  | error e => exact absurd (List.mem_of_getElem? h.at_index) hfinds.2

/-- A hook that returns changed nothing, or went through the tables for the index of the
symbol. -/
theorem elfHook_cases {r : Option Errno} {m' : Mem}
    (h : elfHook os elf newFunc oldFunc (some symbol) m = some (r, m')) :
    m' = m ∨ ∃ symidx, elfFindSymidxByName m elf symbol = some (.ok symidx) ∧
      hookTables os elf newFunc oldFunc symidx m = (r, m') := by
  unfold elfHook at h
  split at h
  next => cases h; exact .inl rfl
  next hno _ => cases hno
  next symbol' _ heq =>
    cases heq
    split at h
    next => cases h; exact .inl rfl
    next =>
      split at h
      next => cases h
      next => cases h; exact .inl rfl
      next symidx hfind => exact .inr ⟨symidx, hfind, Option.some.inj h⟩

/-- What a hook does that is not refused before it looks for the symbol. -/
theorem elfHook_eq (hinit : elf.pathname.isSome) (hnew : newFunc ≠ 0)
    (hfind : elfFindSymidxByName m elf symbol = some (.ok symidx)) :
    elfHook os elf newFunc oldFunc (some symbol) m =
      some (hookTables os elf newFunc oldFunc symidx m) := by
  obtain ⟨pathname, hpath⟩ := Option.isSome_iff_exists.mp hinit
  simp only [elfHook, hpath, if_neg hnew, hfind]

/-- The tables are hooked slot by slot, from any memory with the same tables. -/
theorem hookTables_replaceAll (hlies : elf.LiesIn m names q)
    (hapart : SlotsApart q (elf.hookedSlots m symidx) oldFunc) {m' : Mem} (hm : Mem.AgreeOn q m m')
    (hgranted : ∀ s ∈ elf.hookedSlots m symidx, Granted os elf s) :
    hookTables os elf newFunc oldFunc symidx m' =
      (none, replaceAll newFunc oldFunc (elf.hookedSlots m symidx) m') := by
  have hdoes : Does q m (Granted os elf) newFunc oldFunc _ _ :=
    does_tables hlies.tables hapart.tables hapart.old
  obtain ⟨k, hmem, hlen, hok⟩ := hdoes m' hm
  have hnone := hok hgranted
  rw [List.take_of_length_le (hlen hnone)] at hmem
  exact Prod.ext hnone hmem

/-- Hooking a symbol of a library whose slots hold one function. -/
theorem elfHook_spec {o f : BitVec 64} (hinit : elf.pathname.isSome) (hnew : newFunc ≠ 0)
    (hlies : elf.LiesIn m names q) (hname : NameAt names symbol symidx)
    (hone : elf.OneJumpSlot m symidx) (hapart : SlotsApart q (elf.slots m symidx) (some o))
    (hgranted : ∀ s ∈ elf.slots m symidx, Granted os elf s)
    (hf : ∀ s ∈ elf.slots m symidx, read64 m s.toNat = newFunc ∨ read64 m s.toNat = f) :
    ∃ m', elfHook os elf newFunc (some o) (some symbol) m = some (none, m') ∧
      (∀ s ∈ elf.slots m symidx, read64 m' s.toNat = newFunc) ∧
      read64 m' o.toNat = (if ∃ s ∈ elf.slots m symidx, read64 m s.toNat ≠ newFunc then f
        else read64 m o.toNat) ∧
      (∀ p : Nat → Prop, (∀ s ∈ elf.slots m symidx, WordMisses p s) → WordMisses p o →
        Mem.AgreeOn p m m') ∧
      elfHook os elf newFunc (some o) (some symbol) m' = some (none, m') := by
  rw [hone.slots_eq] at hapart hgranted hf ⊢
  have hsame := Mem.AgreeOn.refl q m
  have hkeep : Mem.AgreeOn q m (replaceAll newFunc (some o) (elf.hookedSlots m symidx) m) :=
    replaceAll_agreeOn hapart.tables hapart.old m
  have hread : ∀ s ∈ elf.hookedSlots m symidx,
      read64 (replaceAll newFunc (some o) (elf.hookedSlots m symidx) m) s.toNat = newFunc := by
    intro s hs
    rw [read64_replaceAll (fun t ht => hapart.apart t ht s hs)
      fun o' ho' => (hapart.oldApart o' ho' s hs).symm, if_pos hs]
  refine ⟨replaceAll newFunc (some o) (elf.hookedSlots m symidx) m, ?_, hread, ?_, ?_, ?_⟩
  · rw [elfHook_eq hinit hnew (hname.find (hlies.symbols m hsame)),
      hookTables_replaceAll hlies hapart hsame hgranted]
  · exact replaceAll_saved hapart.apart (hapart.oldApart o rfl) hf
  · intro p hp ho
    refine replaceAll_agreeOn hp (fun o' ho' => ?_) m
    cases ho'
    exact ho
  · rw [elfHook_eq hinit hnew (hname.find (hlies.symbols _ hkeep)),
      hookTables_replaceAll hlies hapart hkeep hgranted, replaceAll_same hread]

end

/-- A library that imports one function, `f`, with its slot at `0x10280` -/
def oneImport : Mem := fun a => (word (a / 8 * 8)).extractLsb' (8 * (a % 8)) 8
where
  word : Nat → BitVec 64
    | 0x10000 => 0x00010102464c457f
    | 0x10010 => 0x0000000100b70003
    | 0x10020 => 64
    | 0x10038 => 2
    | 0x10040 => 1
    | 0x10078 => 2
    | 0x10088 => 0x100
    | 0x100a0 => 0x70
    | 0x10100 => 4
    | 0x10108 => 0x200
    | 0x10110 => 5
    | 0x10118 => 0x220
    | 0x10120 => 6
    | 0x10128 => 0x230
    | 0x10130 => 20
    | 0x10138 => 7
    | 0x10140 => 23
    | 0x10148 => 0x260
    | 0x10150 => 2
    | 0x10158 => 24
    | 0x10200 => 0x200000001
    | 0x10208 => 1
    | 0x10220 => 0x6600
    | 0x10248 => 1
    | 0x10260 => 0x280
    | 0x10268 => 0x100000402
    | 0x10280 => 0x7000
    | _ => 0

/-- What is found where the library is read -/
def oneImportElf : Elf :=
  { pathname := some ['l', 'i', 'b', 'f'], baseAddr := 0x10000, biasAddr := 0x10000
    ehdr := 0x10000, phdr := 0x10040, dyn := 0x10100, dynSz := 0x70, strtab := 0x10220
    symtab := 0x10230, relplt := 0x10260, relpltSz := 24, reldyn := 0, reldynSz := 0
    relandroid := 0, relandroidSz := 0, bucket := 0x10208, bucketCnt := 1, chain := 0x1020c
    chainCnt := 2, symoffset := 0, bloom := 0, bloomSz := 0, bloomShift := 0
    isUseRela := true, isUseGnuHash := false }

/-- The name of its symbol -/
def importName : CStr := ⟨[0x66], by decide⟩

/-- The names of its symbols -/
def importNames : List CStr := [⟨[], by decide⟩, importName]

/-- The memory that is not written -/
def InImage (b : Nat) : Prop := 0x10000 ≤ b ∧ b < 0x10280

theorem oneImport_read32 {m : Mem} (hm : Mem.AgreeOn InImage oneImport m) {a : Nat}
    (ha : 0x10000 ≤ a ∧ a + 4 ≤ 0x10280) : read32 m a = read32 oneImport a :=
  hm.read32 fun b hlo hhi => ⟨by omega, by omega⟩

theorem importNames_index {i : BitVec 32} {name : CStr} (h : importNames[i.toNat]? = some name) :
    i = 0 ∧ name = ⟨[], by decide⟩ ∨ i = 1 ∧ name = importName := by
  have hlt : i.toNat < 2 := (List.getElem?_eq_some_iff.mp h).1
  have hi : i = 0 ∨ i = 1 := by bv_omega
  rcases hi with rfl | rfl
  · cases h
    exact .inl ⟨rfl, rfl⟩
  · cases h
    exact .inr ⟨rfl, rfl⟩

theorem oneImport_table {m : Mem} (hm : Mem.AgreeOn InImage oneImport m) :
    SysvTable m oneImportElf importNames where
  length := by decide
  stored := by
    intro i name h
    rcases importNames_index h with ⟨rfl, rfl⟩ | ⟨rfl, rfl⟩
    · have hname : oneImportElf.symname m 0 = 0x10220 := by
        rw [Elf.symname, oneImport_read32 hm (by decide)]
        decide +kernel
      rw [hname]
      refine (Stored.agreeOn hm fun b hlo hhi => ?_).mpr (by decide +kernel)
      rw [List.nil_append, List.length_singleton] at hhi
      exact ⟨by omega, by omega⟩
    · have hname : oneImportElf.symname m 1 = 0x10221 := by
        rw [Elf.symname, oneImport_read32 hm (by decide)]
        decide +kernel
      rw [hname]
      refine (Stored.agreeOn hm fun b hlo hhi => ?_).mpr (by decide +kernel)
      have hlen : (importName.bytes ++ [0]).length = 2 := rfl
      exact ⟨by omega, by omega⟩
  first := by
    intro name h
    cases h
    rfl
  chains := by
    intro hash
    have hbucket : oneImportElf.bucketAt m (hash % oneImportElf.bucketCnt) = 1 := by
      rw [show hash % oneImportElf.bucketCnt = 0 from BitVec.umod_one, Elf.bucketAt,
        oneImport_read32 hm (by decide)]
      decide +kernel
    have hchain : oneImportElf.chainAt m 1 = 0 := by
      rw [Elf.chainAt, oneImport_read32 hm (by decide)]
      decide +kernel
    refine ⟨[1], ?_, Nat.one_lt_two_pow (by decide), fun i hi => ?_, ?_⟩
    · rw [hbucket]
      exact ⟨rfl, by decide, hchain⟩
    · cases List.mem_singleton.mp hi
      decide
    · intro i name hne h _
      rcases importNames_index h with ⟨rfl, -⟩ | ⟨rfl, -⟩
      · exact absurd rfl hne
      · exact List.mem_cons_self

theorem oneImport_liesIn : oneImportElf.LiesIn oneImport importNames InImage where
  tables := by
    intro b hb
    have hspan : 0x10260 ≤ b ∧ b < 0x10278 := by
      simpa [Elf.InTables, oneImportElf, Elf.relocCount, Elf.relocSize] using hb
    exact ⟨by omega, by omega⟩
  symbols := by
    intro m hm
    rw [SymbolTable, if_neg (by decide)]
    exact oneImport_table hm

theorem importName_at : NameAt importNames importName 1 where
  nonempty := by decide
  at_index := rfl
  only := by
    intro i hi
    rcases importNames_index hi with ⟨-, hno⟩ | ⟨hone, -⟩
    · cases hno
    · exact hone

theorem oneImport_slots : oneImportElf.slots oneImport 1 = [0x10280] := by decide +kernel

theorem oneImport_oneJumpSlot : oneImportElf.OneJumpSlot oneImport 1 := by decide +kernel

/-- The mapping of the library, which may not be written. -/
def importLine : MapsLine :=
  { text := ['l', 'i', 'b', 'f'], start := 0x10000, stop := 0x11000, perm := ['r', '-', '-', 'p']
    offset := 0, pathname := ['l', 'i', 'b', 'f'] }

/-- A system where `mprotect` does what it is asked for -/
def importOs : Os := ⟨some [importLine], fun _ _ => none⟩

theorem elfHook_spec_import :
    ∃ m', elfHook importOs oneImportElf 0x30000 (some 0x20000) (some importName) oneImport =
        some (none, m') ∧
      (∀ s ∈ oneImportElf.slots oneImport 1, read64 m' s.toNat = 0x30000) ∧
      read64 m' (0x20000 : BitVec 64).toNat =
        (if ∃ s ∈ oneImportElf.slots oneImport 1, read64 oneImport s.toNat ≠ 0x30000 then 0x7000
          else read64 oneImport (0x20000 : BitVec 64).toNat) ∧
      (∀ p : Nat → Prop, (∀ s ∈ oneImportElf.slots oneImport 1, WordMisses p s) →
        WordMisses p 0x20000 → Mem.AgreeOn p oneImport m') ∧
      elfHook importOs oneImportElf 0x30000 (some 0x20000) (some importName) m' =
        some (none, m') := by
  refine elfHook_spec rfl (by decide) oneImport_liesIn importName_at oneImport_oneJumpSlot
    ⟨?_, ?_, ?_, ?_⟩ ?_ ?_
  · rw [oneImport_slots]
    intro s hs b hb
    cases List.mem_singleton.mp hs
    exact .inl hb.2
  · rintro o ⟨⟩ b hb
    exact .inl (Nat.lt_trans hb.2 (by decide))
  · rw [oneImport_slots]
    intro s hs t ht
    exact .inl ((List.mem_singleton.mp ht).trans (List.mem_singleton.mp hs).symm)
  · rw [oneImport_slots]
    rintro o ⟨⟩ s hs
    cases List.mem_singleton.mp hs
    exact .inr (by decide)
  · rw [oneImport_slots]
    intro s hs
    cases List.mem_singleton.mp hs
    exact ⟨by decide, ⟨true, false, false⟩, by decide, fun _ => rfl⟩
  · rw [oneImport_slots]
    intro s hs
    cases List.mem_singleton.mp hs
    exact .inr (by decide +kernel)

end XHook
