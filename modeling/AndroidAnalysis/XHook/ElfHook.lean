import AndroidAnalysis.XHook.ElfSymbols
import AndroidAnalysis.XHook.Maps
import AndroidAnalysis.XHook.PackedRelocs
import AndroidAnalysis.XHook.ReplaceSlots
import Mathlib.Data.List.Basic

/-!
# Hooking a symbol of a library

A library calls what it imports through slots that its relocations name.  To hook a
symbol is to put the new function into the slots of the symbol, where it is not yet,
and to save what was there last.  The tables are read from memory while the slots are
written.

`replaceAll` is what this does to memory, for a list of slots.  `does_tables` says that
the hook does that for the slots that it looks at, as far as it gets: the first one of
the PLT, and all of the two other tables.  `OneJumpSlot.slots_eq` says where these are
all slots of the symbol.
-/

namespace XHook

open Machine

/-! ## The code -/

/-- `XH_ELF_R_GENERIC_JUMP_SLOT` -/
def relocJumpSlot : BitVec 64 := 1026

/-- `XH_ELF_R_GENERIC_GLOB_DAT` -/
def relocGlobDat : BitVec 64 := 1025

/-- `XH_ELF_R_GENERIC_ABS` -/
def relocAbs : BitVec 64 := 257

section
variable (os : Os) (self : Elf) (newFunc : BitVec 64) (oldFunc : Option (BitVec 64))

/-- `xh_elf_replace_function`, with its error, if it has one.  That the protection
cannot be put back is only logged. -/
def replaceFunction (addr : BitVec 64) (m : Mem) : Option Errno × Mem :=
  if read64 m addr.toNat = newFunc then (none, m)
  else
    match getAddrProtect os addr (self.pathname.getD []) with
    | .error e => (some e, m)
    | .ok oldProt =>
        match if oldProt ≠ .readWrite then setAddrProtect os addr .readWrite else .ok () with
        | .error e => (some e, m)
        | .ok () => (none, replaceSlot newFunc oldFunc m addr)

/-- The slot of a relocation, where it is one of the symbol and of a type that the
table is searched for -/
def Elf.slotOf (self : Elf) (isPlt : Bool) (symidx : BitVec 32) (rel : Rela) :
    Option (BitVec 64) :=
  let rSym := rel.rInfo >>> 32
  let rType := rel.rInfo &&& 0xffffffff
  if rSym ≠ symidx.setWidth 64 then none
  else if isPlt ∧ rType ≠ relocJumpSlot then none
  else if ¬ isPlt ∧ rType ≠ relocGlobDat ∧ rType ≠ relocAbs then none
  else some (self.biasAddr + rel.rOffset)

/-- `xh_elf_find_and_replace_func`, with whether it found the symbol. -/
def findAndReplaceFunc (isPlt : Bool) (symidx : BitVec 32) (rel : Rela) (m : Mem) :
    Option Errno × Bool × Mem :=
  match self.slotOf isPlt symidx rel with
  | none => (none, false, m)
  | some addr =>
      if addr < self.baseAddr then (some .format, true, m)
      else
        let (r, m) := replaceFunction os self newFunc oldFunc addr m
        (r, true, m)

/-- The size of an entry of a plain table -/
def Elf.relocSize (self : Elf) : Nat := if self.isUseRela then 24 else 16

/-- The relocation at an address -/
def Elf.relocAt (self : Elf) (m : Mem) (cur : Nat) : Rela :=
  ⟨read64 m cur, read64 m (cur + 8), if self.isUseRela then read64 m (cur + 16) else 0⟩

/-- How often `xh_elf_plain_reloc_iterator_next` gives a relocation of a table -/
def Elf.relocCount (self : Elf) (relSz : BitVec 32) : Nat :=
  (relSz.toNat + self.relocSize - 1) / self.relocSize

/-- The loop of `xh_elf_hook` over a plain table, with the number of entries that are
left.  It ends at the first slot of the PLT. -/
def hookPlain (isPlt : Bool) (symidx : BitVec 32) : (left : Nat) → (cur : Nat) → Mem →
    Option Errno × Mem
  | 0, _, m => (none, m)
  | left + 1, cur, m =>
      match findAndReplaceFunc os self newFunc oldFunc isPlt symidx (self.relocAt m cur) m with
      | (some r, _, m) => (some r, m)
      | (none, found, m) =>
          if isPlt && found then (none, m)
          else hookPlain isPlt symidx left (cur + self.relocSize) m

/-- The loop of `xh_elf_hook` over the packed table, with the number of entries that
can be left -/
def hookPacked (symidx : BitVec 32) : (left : Nat) → PackedRelocIterator → Mem →
    Option Errno × Mem
  | 0, _, m => (none, m)
  | left + 1, iter, m =>
      match packedRelocIteratorNext m iter with
      | none => (none, m)
      | some (rel, iter) =>
          match findAndReplaceFunc os self newFunc oldFunc false symidx rel m with
          | (some r, _, m) => (some r, m)
          | (none, _, m) => hookPacked symidx left iter m

/-- The packed table from its start -/
def hookAndroid (symidx : BitVec 32) (m : Mem) : Option Errno × Mem :=
  let iter := packedRelocIteratorInit m self.relandroid self.relandroidSz self.isUseRela
  hookPacked os self newFunc oldFunc symidx iter.relocationCount.toNat iter m

/-- A table is gone through where there is one -/
def hookTable (rel : BitVec 64) (hook : Mem → Option Errno × Mem) (m : Mem) :
    Option Errno × Mem :=
  if rel ≠ 0 then hook m else (none, m)

/-- The next table, where there was no error -/
def andThen (first second : Mem → Option Errno × Mem) (m : Mem) : Option Errno × Mem :=
  match first m with
  | (some r, m) => (some r, m)
  | (none, m) => second m

/-- The tables of `xh_elf_hook`, for the index of the symbol -/
def hookTables (symidx : BitVec 32) : Mem → Option Errno × Mem :=
  andThen
    (hookTable self.relplt
      (hookPlain os self newFunc oldFunc true symidx (self.relocCount self.relpltSz)
        self.relplt.toNat)) <|
  andThen
    (hookTable self.reldyn
      (hookPlain os self newFunc oldFunc false symidx (self.relocCount self.reldynSz)
        self.reldyn.toNat))
    (hookTable self.relandroid (hookAndroid os self newFunc oldFunc symidx))

/-- `xh_elf_hook`.  It gives nothing where the lookup has no end. -/
def elfHook (symbol : Option CStr) (m : Mem) : Option (Option Errno × Mem) :=
  match self.pathname, symbol with
  | none, _ => some (some .elfinit, m)
  | _, none => some (some .inval, m)
  | some _, some symbol =>
      if newFunc = 0 then some (some .inval, m)
      else
        match elfFindSymidxByName m self symbol with
        | none => none
        | some (.error _) => some (none, m)
        | some (.ok symidx) => some (hookTables os self newFunc oldFunc symidx m)

end

/-! ## The slots of a symbol -/

namespace Elf

variable (self : Elf)

/-- The relocations of a plain table -/
def plainRelocs (self : Elf) (m : Mem) : (left : Nat) → (cur : Nat) → List Rela
  | 0, _ => []
  | left + 1, cur => self.relocAt m cur :: self.plainRelocs m left (cur + self.relocSize)

/-- The slots that are looked at in a plain table: the first one of a PLT, all of
another table. -/
def plainSlots (isPlt : Bool) (symidx : BitVec 32) (rels : List Rela) : List (BitVec 64) :=
  if isPlt then (rels.findSome? (self.slotOf true symidx)).toList
  else rels.filterMap (self.slotOf false symidx)

/-- The slots of a table, where there is one. -/
def tableSlots (rel : BitVec 64) (slots : List (BitVec 64)) : List (BitVec 64) :=
  if rel ≠ 0 then slots else []

/-- The relocations of the packed table -/
def androidRelocs (m : Mem) : List Rela :=
  let iter := packedRelocIteratorInit m self.relandroid self.relandroidSz self.isUseRela
  packedRelocs m iter.relocationCount.toNat iter

/-- The slots of a symbol that the tables are gone through for -/
def hookedSlots (m : Mem) (symidx : BitVec 32) : List (BitVec 64) :=
  tableSlots self.relplt (self.plainSlots true symidx
    (self.plainRelocs m (self.relocCount self.relpltSz) self.relplt.toNat)) ++
  (tableSlots self.reldyn (self.plainSlots false symidx
    (self.plainRelocs m (self.relocCount self.reldynSz) self.reldyn.toNat)) ++
  tableSlots self.relandroid ((self.androidRelocs m).filterMap (self.slotOf false symidx)))

/-- The type of a relocation -/
def relocType (rel : Rela) : BitVec 64 := rel.rInfo &&& 0xffffffff

/-- The slot of a relocation, where it is to hold the address of the symbol -/
def symbolSlot (symidx : BitVec 32) (rel : Rela) : Option (BitVec 64) :=
  if rel.rInfo >>> 32 = symidx.setWidth 64 ∧ (relocType rel = relocJumpSlot ∨
    relocType rel = relocGlobDat ∨ relocType rel = relocAbs)
  then some (self.biasAddr + rel.rOffset) else none

/-- The relocations of the PLT -/
def pltRelocs (m : Mem) : List Rela :=
  if self.relplt ≠ 0 then
    self.plainRelocs m (self.relocCount self.relpltSz) self.relplt.toNat
  else []

/-- The relocations of the two other tables -/
def dataRelocs (m : Mem) : List Rela :=
  (if self.reldyn ≠ 0 then self.plainRelocs m (self.relocCount self.reldynSz) self.reldyn.toNat
    else []) ++ if self.relandroid ≠ 0 then self.androidRelocs m else []

/-- All slots of a symbol, in all tables -/
def slots (m : Mem) (symidx : BitVec 32) : List (BitVec 64) :=
  (self.pltRelocs m ++ self.dataRelocs m).filterMap (self.symbolSlot symidx)

/-- The PLT has one slot of the symbol at most, a `JUMP_SLOT`, and the other tables have
none of that type. -/
structure OneJumpSlot (elf : Elf) (m : Mem) (symidx : BitVec 32) : Prop where
  one : ((elf.pltRelocs m).filterMap (elf.symbolSlot symidx)).length ≤ 1
  plt : ∀ rel ∈ elf.pltRelocs m, (elf.symbolSlot symidx rel).isSome →
    relocType rel = relocJumpSlot
  data : ∀ rel ∈ elf.dataRelocs m, (elf.symbolSlot symidx rel).isSome →
    relocType rel ≠ relocJumpSlot

instance (elf : Elf) (m : Mem) (symidx : BitVec 32) : Decidable (elf.OneJumpSlot m symidx) :=
  decidable_of_iff (((elf.pltRelocs m).filterMap (elf.symbolSlot symidx)).length ≤ 1 ∧
      (∀ rel ∈ elf.pltRelocs m, (elf.symbolSlot symidx rel).isSome →
        relocType rel = relocJumpSlot) ∧
      ∀ rel ∈ elf.dataRelocs m, (elf.symbolSlot symidx rel).isSome →
        relocType rel ≠ relocJumpSlot)
    ⟨fun h => ⟨h.1, h.2.1, h.2.2⟩, fun h => ⟨h.one, h.plt, h.data⟩⟩

/-- The memory of the relocation tables -/
def InTables (b : Nat) : Prop :=
  (self.relplt.toNat ≤ b ∧ b < self.relplt.toNat + self.relocCount self.relpltSz * self.relocSize) ∨
  (self.reldyn.toNat ≤ b ∧ b < self.reldyn.toNat + self.relocCount self.reldynSz * self.relocSize) ∨
  (self.relandroid.toNat ≤ b ∧ b < self.relandroid.toNat + self.relandroidSz.toNat)

section
variable {self : Elf} {m : Mem} {symidx : BitVec 32}

theorem slotOf_plt {rel : Rela}
    (h : (self.symbolSlot symidx rel).isSome → relocType rel = relocJumpSlot) :
    self.slotOf true symidx rel = self.symbolSlot symidx rel := by
  by_cases hsym : rel.rInfo >>> 32 = symidx.setWidth 64
  · by_cases hjump : relocType rel = relocJumpSlot
    · rw [symbolSlot, if_pos ⟨hsym, .inl hjump⟩, slotOf, if_neg (not_not.mpr hsym),
        if_neg fun hno => hno.2 hjump, if_neg fun hno => hno.1 rfl]
    · have hnone : self.symbolSlot symidx rel = none := by
        rw [← Option.not_isSome_iff_eq_none]
        exact mt h hjump
      rw [hnone, slotOf, if_neg (not_not.mpr hsym), if_pos ⟨rfl, hjump⟩]
  · rw [symbolSlot, if_neg fun hno => hsym hno.1, slotOf, if_pos hsym]

theorem slotOf_data {rel : Rela}
    (h : (self.symbolSlot symidx rel).isSome → relocType rel ≠ relocJumpSlot) :
    self.slotOf false symidx rel = self.symbolSlot symidx rel := by
  by_cases hsym : rel.rInfo >>> 32 = symidx.setWidth 64
  · by_cases hdata : relocType rel = relocGlobDat ∨ relocType rel = relocAbs
    · rw [symbolSlot, if_pos ⟨hsym, .inr hdata⟩, slotOf, if_neg (not_not.mpr hsym),
        if_neg fun hno => Bool.false_ne_true hno.1, if_neg fun hno => hdata.elim hno.2.1 hno.2.2]
    · obtain ⟨hglob, habs⟩ := not_or.mp hdata
      have hnone : self.symbolSlot symidx rel = none := by
        rw [symbolSlot]
        refine if_neg fun hall => ?_
        have hjump := hall.2.resolve_right hdata
        exact h (by rw [symbolSlot, if_pos hall]; rfl) hjump
      rw [hnone, slotOf, if_neg (not_not.mpr hsym), if_neg fun hno => Bool.false_ne_true hno.1,
        if_pos ⟨Bool.false_ne_true, hglob, habs⟩]
  · rw [symbolSlot, if_neg fun hno => hsym hno.1, slotOf, if_pos hsym]

/-- A list of one element at most is its head. -/
theorem head?_toList_of_length_le {α : Type} {xs : List α} (h : xs.length ≤ 1) :
    xs.head?.toList = xs := by
  match xs, h with
  | [], _ => rfl
  | [x], _ => rfl

/-- The slots that are looked at are those of the symbol. -/
theorem OneJumpSlot.slots_eq (h : self.OneJumpSlot m symidx) :
    self.slots m symidx = self.hookedSlots m symidx := by
  have hplt : tableSlots self.relplt (self.plainSlots true symidx
      (self.plainRelocs m (self.relocCount self.relpltSz) self.relplt.toNat)) =
      (self.pltRelocs m).filterMap (self.symbolSlot symidx) := by
    have hone := h.one
    have htype := h.plt
    rw [pltRelocs] at hone htype ⊢
    rw [tableSlots]
    split at hone
    next hrel =>
      rw [if_pos hrel] at htype
      rw [if_pos hrel, if_pos hrel, plainSlots, if_pos rfl, ← List.head?_filterMap,
        List.filterMap_congr fun rel hmem => slotOf_plt (htype rel hmem)]
      exact head?_toList_of_length_le hone
    next hrel =>
      rw [if_neg hrel, if_neg hrel]
      rfl
  have hdata : ∀ rels : List Rela, (∀ rel ∈ rels, rel ∈ self.dataRelocs m) →
      rels.filterMap (self.slotOf false symidx) = rels.filterMap (self.symbolSlot symidx) :=
    fun rels hin => List.filterMap_congr fun rel hmem => slotOf_data (h.data rel (hin rel hmem))
  have hrest : tableSlots self.reldyn (self.plainSlots false symidx
      (self.plainRelocs m (self.relocCount self.reldynSz) self.reldyn.toNat)) ++
      tableSlots self.relandroid ((self.androidRelocs m).filterMap (self.slotOf false symidx)) =
      (self.dataRelocs m).filterMap (self.symbolSlot symidx) := by
    rw [← hdata _ fun _ hmem => hmem, dataRelocs, List.filterMap_append, tableSlots, tableSlots,
      plainSlots, if_neg Bool.false_ne_true]
    congr 1
    · split
      next => rfl
      next => rfl
    · split
      next => rfl
      next => rfl
  rw [slots, hookedSlots, hplt, hrest, List.filterMap_append]

end

end Elf

/-! ## What the hook does -/

/-- Going over a table replaces the first of these slots, all of them where there was no
error.  There is none where the slots are granted. -/
def Does (p : Nat → Prop) (m₀ : Mem) (granted : BitVec 64 → Prop) (newFunc : BitVec 64)
    (oldFunc : Option (BitVec 64)) (hook : Mem → Option Errno × Mem)
    (slots : List (BitVec 64)) : Prop :=
  ∀ m, Mem.AgreeOn p m₀ m → ∃ k,
    (hook m).2 = replaceAll newFunc oldFunc (slots.take k) m ∧
    ((hook m).1 = none → slots.length ≤ k) ∧ ((∀ s ∈ slots, granted s) → (hook m).1 = none)

/-- The slot is in the library, and the system lets its page be written. -/
def Granted (os : Os) (elf : Elf) (addr : BitVec 64) : Prop :=
  elf.baseAddr ≤ addr ∧ ∃ prot, getAddrProtect os addr (elf.pathname.getD []) = .ok prot ∧
    (prot ≠ .readWrite → setAddrProtect os addr .readWrite = .ok ())

section
variable {p : Nat → Prop} {m₀ : Mem} {granted : BitVec 64 → Prop} {newFunc : BitVec 64}
  {oldFunc : Option (BitVec 64)} {hook first second : Mem → Option Errno × Mem}
  {xs ys : List (BitVec 64)}

theorem does_nothing : Does p m₀ granted newFunc oldFunc (fun m => (none, m)) [] :=
  fun _ _ => ⟨0, rfl, fun _ => Nat.le_refl _, fun _ => rfl⟩

/-- Two tables after each other. -/
theorem Does.andThen (h : Does p m₀ granted newFunc oldFunc first xs)
    (h' : Does p m₀ granted newFunc oldFunc second ys) (hxs : ∀ s ∈ xs, WordMisses p s)
    (hold : ∀ o, oldFunc = some o → WordMisses p o) :
    Does p m₀ granted newFunc oldFunc (andThen first second) (xs ++ ys) := by
  intro m hm
  obtain ⟨k, hmem, hlen, hgr⟩ := h m hm
  rw [XHook.andThen]
  cases hfirst : first m with
  | mk r m₁ =>
      rw [hfirst] at hmem hlen hgr
      cases r with
      | some r =>
          refine ⟨min k xs.length, ?_, fun hno => (Option.some_ne_none _ hno).elim, fun hall => ?_⟩
          · rw [List.take_append_of_le_length (Nat.min_le_right _ _), ← List.take_take,
              List.take_length]
            exact hmem
          · exact (Option.some_ne_none _ (hgr fun s hs => hall s (List.mem_append_left _ hs))).elim
      | none =>
          have hfull : xs.take k = xs := List.take_of_length_le (hlen rfl)
          rw [hfull] at hmem
          have hagree : Mem.AgreeOn p m₀ m₁ := by
            rw [show m₁ = _ from hmem]
            exact hm.trans (replaceAll_agreeOn hxs hold m)
          obtain ⟨k', hmem', hlen', hgr'⟩ := h' m₁ hagree
          refine ⟨xs.length + k', ?_, fun hok => ?_, fun hall => ?_⟩
          · rw [List.take_length_add_append, replaceAll_append, ← hmem]
            exact hmem'
          · rw [List.length_append]
            exact Nat.add_le_add_left (hlen' hok) _
          · exact hgr' fun s hs => hall s (List.mem_append_right _ hs)

theorem does_table {rel : BitVec 64}
    (h : (∀ s ∈ xs, WordMisses p s) → Does p m₀ granted newFunc oldFunc hook xs)
    (hxs : ∀ s ∈ Elf.tableSlots rel xs, WordMisses p s) :
    Does p m₀ granted newFunc oldFunc (hookTable rel hook) (Elf.tableSlots rel xs) := by
  intro m hm
  rw [Elf.tableSlots] at hxs ⊢
  rw [hookTable]
  split
  next hrel => exact h (by rwa [if_pos hrel] at hxs) m hm
  next => exact does_nothing m hm

variable {os : Os} {elf : Elf} {symidx : BitVec 32}

/-- What the hook does with one slot -/
def hookSlot (os : Os) (elf : Elf) (newFunc : BitVec 64) (oldFunc : Option (BitVec 64))
    (addr : BitVec 64) (m : Mem) : Option Errno × Mem :=
  if addr < elf.baseAddr then (some .format, m)
  else replaceFunction os elf newFunc oldFunc addr m

/-- One slot. -/
theorem does_slot (addr : BitVec 64) :
    Does p m₀ (Granted os elf) newFunc oldFunc (hookSlot os elf newFunc oldFunc addr)
      [addr] := by
  intro m _
  rw [hookSlot]
  split
  next hlow =>
    refine ⟨0, rfl, fun hno => (Option.some_ne_none _ hno).elim, fun hall => ?_⟩
    exact absurd hlow (BitVec.not_lt.mpr (hall addr List.mem_cons_self).1)
  next =>
    rw [replaceFunction]
    split
    next hsame =>
      refine ⟨1, ?_, fun _ => Nat.le_refl _, fun _ => rfl⟩
      show m = if read64 m addr.toNat = newFunc then m else _
      rw [if_pos hsame]
    next hdiff =>
      have hdo : replaceSlot newFunc oldFunc m addr =
          replaceAll newFunc oldFunc ([addr].take 1) m := by
        show _ = if read64 m addr.toNat = newFunc then m else _
        rw [if_neg hdiff]
      split
      next e hget =>
        refine ⟨0, rfl, fun hno => (Option.some_ne_none _ hno).elim, fun hall => ?_⟩
        obtain ⟨-, prot, hok, -⟩ := hall addr List.mem_cons_self
        rw [hok] at hget
        cases hget
      next prot hget =>
        split
        next e hset =>
          refine ⟨0, rfl, fun hno => (Option.some_ne_none _ hno).elim, fun hall => ?_⟩
          obtain ⟨-, prot', hok, hgr⟩ := hall addr List.mem_cons_self
          rw [hget] at hok
          cases hok
          split at hset
          next hne => rw [hgr hne] at hset; cases hset
          next => cases hset
        next => exact ⟨1, hdo, fun _ => Nat.le_refl _, fun _ => rfl⟩

theorem findAndReplaceFunc_none {isPlt : Bool} {rel : Rela} (h : elf.slotOf isPlt symidx rel = none)
    (m : Mem) :
    findAndReplaceFunc os elf newFunc oldFunc isPlt symidx rel m = (none, false, m) := by
  rw [findAndReplaceFunc, h]

theorem findAndReplaceFunc_some {isPlt : Bool} {rel : Rela} {addr : BitVec 64}
    (h : elf.slotOf isPlt symidx rel = some addr) (m : Mem) :
    findAndReplaceFunc os elf newFunc oldFunc isPlt symidx rel m =
      ((hookSlot os elf newFunc oldFunc addr m).1, true,
        (hookSlot os elf newFunc oldFunc addr m).2) := by
  rw [findAndReplaceFunc, h, hookSlot]
  simp only
  split
  next => rfl
  next => rfl

theorem hookPlain_skip {isPlt : Bool} {left cur : Nat} {m : Mem}
    (h : elf.slotOf isPlt symidx (elf.relocAt m cur) = none) :
    hookPlain os elf newFunc oldFunc isPlt symidx (left + 1) cur m =
      hookPlain os elf newFunc oldFunc isPlt symidx left (cur + elf.relocSize) m := by
  rw [hookPlain, findAndReplaceFunc_none h]
  simp only [Bool.and_false]
  rfl

/-- The first slot of a PLT ends its table. -/
theorem hookPlain_plt {left cur : Nat} {m : Mem} {addr : BitVec 64}
    (h : elf.slotOf true symidx (elf.relocAt m cur) = some addr) :
    hookPlain os elf newFunc oldFunc true symidx (left + 1) cur m =
      hookSlot os elf newFunc oldFunc addr m := by
  rw [hookPlain, findAndReplaceFunc_some h]
  cases hookSlot os elf newFunc oldFunc addr m with
  | mk r m => cases r <;> rfl

theorem hookPlain_next {left cur : Nat} {m : Mem} {addr : BitVec 64}
    (h : elf.slotOf false symidx (elf.relocAt m cur) = some addr) :
    hookPlain os elf newFunc oldFunc false symidx (left + 1) cur m =
      andThen (hookSlot os elf newFunc oldFunc addr)
        (hookPlain os elf newFunc oldFunc false symidx left (cur + elf.relocSize)) m := by
  rw [hookPlain, findAndReplaceFunc_some h, andThen]
  cases hookSlot os elf newFunc oldFunc addr m with
  | mk r m => cases r <;> rfl

theorem relocAt_agreeOn {m : Mem} {cur : Nat} (h : Mem.AgreeOn p m₀ m)
    (hin : ∀ b, cur ≤ b → b < cur + elf.relocSize → p b) :
    elf.relocAt m cur = elf.relocAt m₀ cur := by
  have hsize : 16 ≤ elf.relocSize := by
    rw [Elf.relocSize]
    split <;> decide
  have hoffset : read64 m cur = read64 m₀ cur := h.read64 fun b hlo hhi => hin b hlo (by omega)
  have hinfo : read64 m (cur + 8) = read64 m₀ (cur + 8) :=
    h.read64 fun b hlo hhi => hin b (by omega) (by omega)
  rw [Elf.relocAt, Elf.relocAt, hoffset, hinfo]
  cases hrela : elf.isUseRela with
  | false => rfl
  | true =>
      have hfull : elf.relocSize = 24 := by rw [Elf.relocSize, if_pos hrela]
      have haddend : read64 m (cur + 16) = read64 m₀ (cur + 16) :=
        h.read64 fun b hlo hhi => hin b (by omega) (by omega)
      rw [haddend]

theorem plainRelocs_agreeOn {m : Mem} (h : Mem.AgreeOn p m₀ m) :
    ∀ {left cur : Nat}, (∀ b, cur ≤ b → b < cur + left * elf.relocSize → p b) →
      elf.plainRelocs m left cur = elf.plainRelocs m₀ left cur := by
  intro left
  induction left with
  | zero => intro cur _; rfl
  | succ left ih =>
      intro cur hin
      rw [Nat.succ_mul] at hin
      rw [Elf.plainRelocs, Elf.plainRelocs,
        relocAt_agreeOn h fun b hlo hhi => hin b hlo (by omega),
        ih fun b hlo hhi => hin b (by omega) (by omega)]

/-- The slots that are looked at depend on the tables only. -/
theorem Elf.hookedSlots_agreeOn {m : Mem} (h : Mem.AgreeOn p m₀ m)
    (hp : ∀ b, elf.InTables b → p b) :
    elf.hookedSlots m symidx = elf.hookedSlots m₀ symidx := by
  have hplt : elf.plainRelocs m (elf.relocCount elf.relpltSz) elf.relplt.toNat = _ :=
    plainRelocs_agreeOn h fun b hlo hhi => hp b (.inl ⟨hlo, hhi⟩)
  have hdyn : elf.plainRelocs m (elf.relocCount elf.reldynSz) elf.reldyn.toNat = _ :=
    plainRelocs_agreeOn h fun b hlo hhi => hp b (.inr (.inl ⟨hlo, hhi⟩))
  have hpacked : elf.androidRelocs m = elf.androidRelocs m₀ := by
    have hagree := h.mono fun b hb => hp b (.inr (.inr hb))
    obtain ⟨hinit, hstart⟩ := packedRelocIteratorInit_agreeOn hagree
    rw [Elf.androidRelocs, Elf.androidRelocs, hinit]
    exact packedRelocs_agreeOn hagree hstart _
  rw [Elf.hookedSlots, Elf.hookedSlots, hplt, hdyn, hpacked]

/-- A plain table, which is read while its slots are written. -/
theorem does_plain {isPlt : Bool} (hold : ∀ o, oldFunc = some o → WordMisses p o) :
    ∀ {left cur : Nat}, (∀ b, cur ≤ b → b < cur + left * elf.relocSize → p b) →
      (∀ s ∈ elf.plainSlots isPlt symidx (elf.plainRelocs m₀ left cur), WordMisses p s) →
      Does p m₀ (Granted os elf) newFunc oldFunc
        (hookPlain os elf newFunc oldFunc isPlt symidx left cur)
        (elf.plainSlots isPlt symidx (elf.plainRelocs m₀ left cur)) := by
  intro left
  induction left with
  | zero =>
      intro cur _ _
      have hnil : elf.plainSlots isPlt symidx (elf.plainRelocs m₀ 0 cur) = [] := by
        cases isPlt <;> rfl
      rw [hnil]
      exact does_nothing
  | succ left ih =>
      intro cur hin hslots m hm
      rw [Nat.succ_mul] at hin
      have hrel : elf.relocAt m cur = elf.relocAt m₀ cur :=
        relocAt_agreeOn hm fun b hlo hhi => hin b hlo (by omega)
      have hrest : ∀ b, cur + elf.relocSize ≤ b →
          b < cur + elf.relocSize + left * elf.relocSize → p b :=
        fun b hlo hhi => hin b (by omega) (by omega)
      rw [Elf.plainRelocs] at hslots ⊢
      cases hslot : elf.slotOf isPlt symidx (elf.relocAt m₀ cur) with
      | none =>
          have hsame : elf.plainSlots isPlt symidx (elf.relocAt m₀ cur ::
              elf.plainRelocs m₀ left (cur + elf.relocSize)) =
              elf.plainSlots isPlt symidx (elf.plainRelocs m₀ left (cur + elf.relocSize)) := by
            cases isPlt with
            | true =>
                rw [Elf.plainSlots, if_pos rfl,
                  List.findSome?_cons_of_isNone (by rw [hslot]; rfl)]
                rfl
            | false =>
                rw [Elf.plainSlots, if_neg Bool.false_ne_true, List.filterMap_cons_none hslot]
                rfl
          rw [hsame] at hslots ⊢
          rw [hookPlain_skip (hrel ▸ hslot)]
          exact ih hrest hslots m hm
      | some addr =>
          cases isPlt with
          | true =>
              have hone : elf.plainSlots true symidx (elf.relocAt m₀ cur ::
                  elf.plainRelocs m₀ left (cur + elf.relocSize)) = [addr] := by
                rw [Elf.plainSlots, if_pos rfl, List.findSome?_cons, hslot]
                rfl
              rw [hookPlain_plt (hrel ▸ hslot), hone]
              exact does_slot addr m hm
          | false =>
              have hmore : elf.plainSlots false symidx (elf.relocAt m₀ cur ::
                  elf.plainRelocs m₀ left (cur + elf.relocSize)) =
                  [addr] ++ elf.plainSlots false symidx
                    (elf.plainRelocs m₀ left (cur + elf.relocSize)) := by
                rw [Elf.plainSlots, if_neg Bool.false_ne_true, List.filterMap_cons_some hslot]
                rfl
              rw [hmore] at hslots ⊢
              rw [hookPlain_next (hrel ▸ hslot)]
              exact (does_slot addr).andThen
                (ih hrest fun s hs => hslots s (List.mem_append_right _ hs))
                (fun s hs => hslots s (List.mem_append_left _ hs)) hold m hm

theorem hookPacked_next {left : Nat} {iter iter' : PackedRelocIterator} {m : Mem} {rel : Rela}
    {addr : BitVec 64} (hnext : packedRelocIteratorNext m iter = some (rel, iter'))
    (h : elf.slotOf false symidx rel = some addr) :
    hookPacked os elf newFunc oldFunc symidx (left + 1) iter m =
      andThen (hookSlot os elf newFunc oldFunc addr)
        (hookPacked os elf newFunc oldFunc symidx left iter') m := by
  rw [hookPacked, hnext]
  simp only [findAndReplaceFunc_some h]
  rw [andThen]
  cases hookSlot os elf newFunc oldFunc addr m with
  | mk r m => cases r <;> rfl

/-- The packed table, which is read while its slots are written. -/
theorem does_packed (hold : ∀ o, oldFunc = some o → WordMisses p o) {lo hi : Nat}
    (hp : ∀ b, lo ≤ b ∧ b < hi → p b) :
    ∀ {left : Nat} {iter : PackedRelocIterator}, iter.decoder.In lo hi →
      (∀ s ∈ (packedRelocs m₀ left iter).filterMap (elf.slotOf false symidx), WordMisses p s) →
      Does p m₀ (Granted os elf) newFunc oldFunc
        (hookPacked os elf newFunc oldFunc symidx left iter)
        ((packedRelocs m₀ left iter).filterMap (elf.slotOf false symidx)) := by
  intro left
  induction left with
  | zero => intro iter _ _; exact does_nothing
  | succ left ih =>
      intro iter hin hslots m hm
      obtain ⟨hnext, hkeep⟩ := packedRelocIteratorNext_agreeOn (hm.mono hp) hin
      rw [packedRelocs] at hslots ⊢
      cases hrel : packedRelocIteratorNext m₀ iter with
      | none =>
          rw [hookPacked, hnext, hrel]
          exact does_nothing m hm
      | some ri =>
          obtain ⟨rel, iter'⟩ := ri
          rw [hrel] at hnext hslots
          have hin' := hkeep rel iter' hrel
          simp only at hslots ⊢
          cases hslot : elf.slotOf false symidx rel with
          | none =>
              rw [List.filterMap_cons_none hslot] at hslots ⊢
              rw [hookPacked, hnext]
              simp only [findAndReplaceFunc_none hslot]
              exact ih hin' hslots m hm
          | some addr =>
              rw [List.filterMap_cons_some hslot] at hslots ⊢
              rw [hookPacked_next hnext hslot]
              exact (does_slot addr).andThen
                (ih hin' fun s hs => hslots s (List.mem_cons_of_mem _ hs))
                (fun s hs => hslots s (List.mem_cons.mpr (.inl (List.mem_singleton.mp hs))))
                hold m hm

theorem does_android (hold : ∀ o, oldFunc = some o → WordMisses p o)
    (hp : ∀ b, elf.relandroid.toNat ≤ b ∧ b < elf.relandroid.toNat + elf.relandroidSz.toNat → p b)
    (hslots : ∀ s ∈ (elf.androidRelocs m₀).filterMap (elf.slotOf false symidx), WordMisses p s) :
    Does p m₀ (Granted os elf) newFunc oldFunc (hookAndroid os elf newFunc oldFunc symidx)
      ((elf.androidRelocs m₀).filterMap (elf.slotOf false symidx)) := by
  intro m hm
  obtain ⟨hinit, hstart⟩ := packedRelocIteratorInit_agreeOn (hm.mono hp)
  rw [hookAndroid, hinit]
  exact does_packed hold hp hstart hslots m hm

/-- All tables of a library.  None of them is written. -/
theorem does_tables (hp : ∀ b, elf.InTables b → p b)
    (hslots : ∀ s ∈ elf.hookedSlots m₀ symidx, WordMisses p s)
    (hold : ∀ o, oldFunc = some o → WordMisses p o) :
    Does p m₀ (Granted os elf) newFunc oldFunc (hookTables os elf newFunc oldFunc symidx)
      (elf.hookedSlots m₀ symidx) := by
  rw [Elf.hookedSlots] at hslots ⊢
  have hplt := fun s hs => hslots s (List.mem_append_left _ hs)
  have hdyn := fun s hs => hslots s (List.mem_append_right _ (List.mem_append_left _ hs))
  have hpacked := fun s hs => hslots s (List.mem_append_right _ (List.mem_append_right _ hs))
  have hdoes : Does p m₀ (Granted os elf) newFunc oldFunc _ _ :=
    does_table (does_plain hold fun b hlo hhi => hp b (.inl ⟨hlo, hhi⟩)) hplt
  have hdoes' : Does p m₀ (Granted os elf) newFunc oldFunc _ _ :=
    does_table (does_plain hold fun b hlo hhi => hp b (.inr (.inl ⟨hlo, hhi⟩))) hdyn
  have hdoes'' : Does p m₀ (Granted os elf) newFunc oldFunc _ _ :=
    does_table (does_android hold fun b hb => hp b (.inr (.inr hb))) hpacked
  exact hdoes.andThen (hdoes'.andThen hdoes'' hdyn hold) hplt hold

end

end XHook
