import AndroidAnalysis.XHook.Sleb128Decoder

/-!
# Symbols by name

A library that is loaded has one of two hash tables over its dynamic symbols.  The
older one has a chain of all symbols of a bucket.  The GNU one puts the defined
symbols of a bucket side by side behind an offset, with their hashes, and a Bloom
filter before it; the symbols before the offset, which are the imported ones, are in
no bucket and are searched one by one.

`SysvTable` and `GnuTable` say that a table is that of a list of names, as a linker
writes it.  `elfHashLookup_finds` and `elfGnuHashLookup_finds` say that the lookup then
finds a name where it is in the list, and nothing else.
-/

namespace XHook

open Machine

/-- A string of C: no byte of it is zero. -/
@[ext]
structure CStr where
  bytes : List (BitVec 8)
  nonzero : ∀ b ∈ bytes, b ≠ 0
  deriving DecidableEq

/-- `xh_elf_t`, of a library of 64 bits. -/
structure Elf where
  pathname : Option (List Char)
  baseAddr : BitVec 64
  biasAddr : BitVec 64
  ehdr : BitVec 64
  phdr : BitVec 64
  dyn : BitVec 64
  dynSz : BitVec 32
  strtab : BitVec 64
  symtab : BitVec 64
  relplt : BitVec 64
  relpltSz : BitVec 32
  reldyn : BitVec 64
  reldynSz : BitVec 32
  relandroid : BitVec 64
  relandroidSz : BitVec 32
  bucket : BitVec 64
  bucketCnt : BitVec 32
  chain : BitVec 64
  chainCnt : BitVec 32
  symoffset : BitVec 32
  bloom : BitVec 64
  bloomSz : BitVec 32
  bloomShift : BitVec 32
  isUseRela : Bool
  isUseGnuHash : Bool
  deriving DecidableEq, Repr

/-- `xh_elf_hash` -/
def elfHash (name : List (BitVec 8)) : BitVec 32 :=
  name.foldl (fun h c =>
    let h := (h <<< 4) + c.setWidth 32
    let g := h &&& 0xf0000000
    let h := h ^^^ g
    h ^^^ (g >>> 24)) 0

/-- `xh_elf_gnu_hash` -/
def elfGnuHash (name : List (BitVec 8)) : BitVec 32 :=
  name.foldl (fun h c => h + ((h <<< 5) + c.setWidth 32)) 5381

namespace Elf

variable (m : Mem) (self : Elf)

/-- `self->strtab + self->symtab[i].st_name` -/
def symname (i : BitVec 32) : Nat :=
  self.strtab.toNat + (read32 m (self.symtab.toNat + 24 * i.toNat)).toNat

/-- `self->bucket[i]` -/
def bucketAt (i : BitVec 32) : BitVec 32 := read32 m (self.bucket.toNat + 4 * i.toNat)

/-- `self->chain[i]` -/
def chainAt (i : BitVec 32) : BitVec 32 := read32 m (self.chain.toNat + 4 * i.toNat)

/-- `self->bloom[i]` -/
def bloomAt (i : BitVec 32) : BitVec 64 := read64 m (self.bloom.toNat + 8 * i.toNat)

/-- `0 == strcmp(symbol, ..)` for the name of a symbol -/
def isNamed (symbol : CStr) (i : BitVec 32) : Bool :=
  decide (Stored m (self.symname m i) (symbol.bytes ++ [0]))

end Elf

/-! ## The lookups -/

/-- How often a loop over symbol indices can go round before it comes back to an index
it was at. -/
def indexFuel : Nat := 2 ^ 32

/-- The loop of `xh_elf_hash_lookup`.  It gives nothing where a chain has no end. -/
def elfHashLookupLoop (m : Mem) (self : Elf) (symbol : CStr) :
    (fuel : Nat) → (i : BitVec 32) → Option (Except Errno (BitVec 32))
  | 0, _ => none
  | fuel + 1, i =>
      if i = 0 then some (.error .notfnd)
      else if self.isNamed m symbol i then some (.ok i)
      else elfHashLookupLoop m self symbol fuel (self.chainAt m i)

/-- `xh_elf_hash_lookup` -/
def elfHashLookup (m : Mem) (self : Elf) (symbol : CStr) : Option (Except Errno (BitVec 32)) :=
  elfHashLookupLoop m self symbol indexFuel
    (self.bucketAt m (elfHash symbol.bytes % self.bucketCnt))

/-- The loop of `xh_elf_gnu_hash_lookup_def` -/
def elfGnuHashLookupDefLoop (m : Mem) (self : Elf) (symbol : CStr) (hash : BitVec 32) :
    (fuel : Nat) → (i : BitVec 32) → Option (Except Errno (BitVec 32))
  | 0, _ => none
  | fuel + 1, i =>
      let symhash := self.chainAt m (i - self.symoffset)
      if hash ||| 1 = symhash ||| 1 ∧ self.isNamed m symbol i then some (.ok i)
      else if symhash &&& 1 ≠ 0 then some (.error .notfnd)
      else elfGnuHashLookupDefLoop m self symbol hash fuel (i + 1)

/-- The bits of the Bloom filter that a hash sets -/
def Elf.bloomMask (self : Elf) (hash : BitVec 32) : BitVec 64 :=
  (1 : BitVec 64) <<< (hash % 64).toNat |||
    (1 : BitVec 64) <<< ((hash >>> self.bloomShift.toNat) % 64).toNat

/-- `xh_elf_gnu_hash_lookup_def` -/
def elfGnuHashLookupDef (m : Mem) (self : Elf) (symbol : CStr) :
    Option (Except Errno (BitVec 32)) :=
  let hash := elfGnuHash symbol.bytes
  let word := self.bloomAt m (hash / 64 % self.bloomSz)
  let mask := self.bloomMask hash
  if word &&& mask ≠ mask then some (.error .notfnd)
  else
    let i := self.bucketAt m (hash % self.bucketCnt)
    if i < self.symoffset then some (.error .notfnd)
    else elfGnuHashLookupDefLoop m self symbol hash indexFuel i

/-- `xh_elf_gnu_hash_lookup_undef` -/
def elfGnuHashLookupUndef (m : Mem) (self : Elf) (symbol : CStr) : Except Errno (BitVec 32) :=
  match ((List.range self.symoffset.toNat).map (BitVec.ofNat 32)).find?
      (self.isNamed m symbol) with
  | some i => .ok i
  | none => .error .notfnd

/-- `xh_elf_gnu_hash_lookup` -/
def elfGnuHashLookup (m : Mem) (self : Elf) (symbol : CStr) : Option (Except Errno (BitVec 32)) :=
  match elfGnuHashLookupDef m self symbol with
  | none => none
  | some (.ok symidx) => some (.ok symidx)
  | some (.error _) =>
      match elfGnuHashLookupUndef m self symbol with
      | .ok symidx => some (.ok symidx)
      | .error _ => some (.error .notfnd)

/-- `xh_elf_find_symidx_by_name` -/
def elfFindSymidxByName (m : Mem) (self : Elf) (symbol : CStr) :
    Option (Except Errno (BitVec 32)) :=
  if self.isUseGnuHash then elfGnuHashLookup m self symbol else elfHashLookup m self symbol

/-! ## Strings in memory -/

/-- Two strings that end at the same place are one. -/
theorem stored_zero_unique {m : Mem} {a : Nat} {xs ys : List (BitVec 8)} (hx : ∀ b ∈ xs, b ≠ 0)
    (hy : ∀ b ∈ ys, b ≠ 0) (h : Stored m a (xs ++ [0])) (h' : Stored m a (ys ++ [0])) :
    xs = ys := by
  induction xs generalizing a ys with
  | nil =>
      cases ys with
      | nil => rfl
      | cons y ys => exact absurd (h'.1.symm.trans h.1) (hy y List.mem_cons_self)
  | cons x xs ih =>
      cases ys with
      | nil => exact absurd (h.1.symm.trans h'.1) (hx x List.mem_cons_self)
      | cons y ys =>
          have htail := ih (fun b hb => hx b (List.mem_cons_of_mem _ hb))
            (fun b hb => hy b (List.mem_cons_of_mem _ hb)) h.2 h'.2
          rw [h.1.symm.trans h'.1, htail]

/-- The names of the symbols are in memory, by their indices. -/
structure Named (m : Mem) (elf : Elf) (names : List CStr) : Prop where
  length : names.length ≤ 2 ^ 32
  stored : ∀ (i : BitVec 32) (name : CStr), names[i.toNat]? = some name →
    Stored m (elf.symname m i) (name.bytes ++ [0])

theorem Named.isNamed_iff {m : Mem} {elf : Elf} {names : List CStr} (h : Named m elf names)
    {i : BitVec 32} (hi : i.toNat < names.length) (symbol : CStr) :
    elf.isNamed m symbol i = true ↔ names[i.toNat]? = some symbol := by
  obtain ⟨name, hname⟩ : ∃ name, names[i.toNat]? = some name :=
    ⟨_, List.getElem?_eq_getElem hi⟩
  rw [hname, Elf.isNamed, decide_eq_true_iff]
  constructor
  · intro hstored
    exact congrArg some (CStr.ext (stored_zero_unique name.nonzero symbol.nonzero
      (h.stored i name hname) hstored))
  · intro heq
    cases heq
    exact h.stored i _ hname

/-- What a lookup of a name among names may give: an index of it, or that there is
none. -/
def Finds (names : List CStr) (symbol : CStr) : Except Errno (BitVec 32) → Prop
  | .ok i => names[i.toNat]? = some symbol
  | .error e => e = .notfnd ∧ symbol ∉ names

/-! ## The table with chains -/

/-- Following the chain of a symbol gives these symbols. -/
def ChainFrom (m : Mem) (elf : Elf) : BitVec 32 → List (BitVec 32) → Prop
  | i, [] => i = 0
  | i, j :: js => i = j ∧ i ≠ 0 ∧ ChainFrom m elf (elf.chainAt m i) js

/-- The table has the names but the first one, which is empty, each in the chain of its
bucket. -/
structure SysvTable (m : Mem) (elf : Elf) (names : List CStr) : Prop extends
    Named m elf names where
  first : ∀ name, names[0]? = some name → name.bytes = []
  chains : ∀ hash : BitVec 32, ∃ is,
    ChainFrom m elf (elf.bucketAt m (hash % elf.bucketCnt)) is ∧ is.length < 2 ^ 32 ∧
    (∀ i ∈ is, i.toNat < names.length) ∧
    ∀ (i : BitVec 32) (name : CStr), i ≠ 0 → names[i.toNat]? = some name →
      elfHash name.bytes % elf.bucketCnt = hash % elf.bucketCnt → i ∈ is

/-- A chain is searched up to its end. -/
theorem elfHashLookupLoop_chain {m : Mem} {elf : Elf} {names : List CStr}
    (h : Named m elf names) (symbol : CStr) {is : List (BitVec 32)} {i : BitVec 32} {fuel : Nat}
    (hchain : ChainFrom m elf i is) (hfuel : is.length < fuel)
    (hin : ∀ j ∈ is, j.toNat < names.length) :
    ∃ r, elfHashLookupLoop m elf symbol fuel i = some r ∧
      ((∃ j ∈ is, r = .ok j ∧ names[j.toNat]? = some symbol) ∨
        r = .error .notfnd ∧ ∀ j ∈ is, names[j.toNat]? ≠ some symbol) := by
  induction is generalizing i fuel with
  | nil =>
      obtain ⟨k, rfl⟩ := Nat.exists_eq_add_of_lt hfuel
      refine ⟨.error .notfnd, ?_, .inr ⟨rfl, fun j hj => absurd hj List.not_mem_nil⟩⟩
      have hzero : i = 0 := hchain
      rw [elfHashLookupLoop, if_pos hzero]
  | cons j js ih =>
      obtain ⟨rfl, hne, hrest⟩ := hchain
      obtain ⟨k, rfl⟩ := Nat.exists_eq_add_of_lt hfuel
      rw [elfHashLookupLoop, if_neg hne]
      have hnamed := h.isNamed_iff (hin i List.mem_cons_self) symbol
      by_cases hfound : elf.isNamed m symbol i = true
      · exact ⟨.ok i, by rw [if_pos hfound],
          .inl ⟨i, List.mem_cons_self, rfl, hnamed.mp hfound⟩⟩
      · rw [if_neg hfound]
        have hleft : js.length < (i :: js).length + k := by rw [List.length_cons]; omega
        obtain ⟨r, hr, hout⟩ := ih hrest hleft
          fun j hj => hin j (List.mem_cons_of_mem _ hj)
        refine ⟨r, hr, ?_⟩
        rcases hout with ⟨j, hj, hok⟩ | ⟨herr, hnone⟩
        · exact .inl ⟨j, List.mem_cons_of_mem _ hj, hok⟩
        · refine .inr ⟨herr, fun j hj => ?_⟩
          rcases List.mem_cons.mp hj with rfl | hj
          · exact fun heq => hfound (hnamed.mpr heq)
          · exact hnone j hj

/-- A name is found in a table with chains where it is one of the names. -/
theorem elfHashLookup_finds {m : Mem} {elf : Elf} {names : List CStr}
    (h : SysvTable m elf names) {symbol : CStr} (hne : symbol.bytes ≠ []) :
    ∃ r, elfHashLookup m elf symbol = some r ∧ Finds names symbol r := by
  obtain ⟨is, hchain, hlen, hin, hall⟩ := h.chains (elfHash symbol.bytes)
  obtain ⟨r, hr, hout⟩ := elfHashLookupLoop_chain h.toNamed symbol hchain hlen hin
  refine ⟨r, hr, ?_⟩
  rcases hout with ⟨j, -, rfl, hok⟩ | ⟨rfl, hnone⟩
  · exact hok
  · refine ⟨rfl, fun hmem => ?_⟩
    obtain ⟨n, hn, hname⟩ := List.getElem_of_mem hmem
    have htoNat : (BitVec.ofNat 32 n).toNat = n := by
      rw [BitVec.toNat_ofNat]
      exact Nat.mod_eq_of_lt (Nat.lt_of_lt_of_le hn h.length)
    have hget : names[(BitVec.ofNat 32 n).toNat]? = some symbol := by
      rw [htoNat, List.getElem?_eq_getElem hn, hname]
    refine hnone _ (hall _ _ (fun hzero => ?_) hget rfl) hget
    rw [hzero] at hget
    exact hne (h.first symbol hget)

/-! ## The GNU table -/

/-- The table has the names from an offset on, each in the range of its bucket, with
its hash and the bits of the Bloom filter. -/
structure GnuTable (m : Mem) (elf : Elf) (names : List CStr) : Prop extends
    Named m elf names where
  offset : elf.symoffset.toNat ≤ names.length
  bloom : ∀ (i : Nat) (name : CStr), elf.symoffset.toNat ≤ i → names[i]? = some name →
    elf.bloomAt m (elfGnuHash name.bytes / 64 % elf.bloomSz) &&&
      elf.bloomMask (elfGnuHash name.bytes) = elf.bloomMask (elfGnuHash name.bytes)
  hashes : ∀ (i : Nat) (name : CStr), elf.symoffset.toNat ≤ i → names[i]? = some name →
    elf.chainAt m (BitVec.ofNat 32 i - elf.symoffset) ||| 1 = elfGnuHash name.bytes ||| 1
  ranges : ∀ hash : BitVec 32, ∃ stop ≤ names.length,
    let start := elf.bucketAt m (hash % elf.bucketCnt)
    (elf.symoffset ≤ start → start.toNat < stop) ∧
    (∀ i, start.toNat ≤ i → i < stop →
      (elf.chainAt m (BitVec.ofNat 32 i - elf.symoffset) &&& 1 ≠ 0 ↔ i + 1 = stop)) ∧
    ∀ (i : Nat) (name : CStr), elf.symoffset.toNat ≤ i → names[i]? = some name →
      elfGnuHash name.bytes % elf.bucketCnt = hash % elf.bucketCnt →
      elf.symoffset ≤ start ∧ start.toNat ≤ i ∧ i < stop

section
variable {m : Mem} {elf : Elf} {names : List CStr}

theorem toNat_ofNat_index (h : Named m elf names) {i : Nat} (hi : i < names.length) :
    (BitVec.ofNat 32 i).toNat = i := by
  rw [BitVec.toNat_ofNat]
  exact Nat.mod_eq_of_lt (Nat.lt_of_lt_of_le hi h.length)

/-- The range of a bucket is searched up to its end. -/
theorem elfGnuHashLookupDefLoop_range (h : GnuTable m elf names) (symbol : CStr) {stop i : Nat}
    (hoff : elf.symoffset.toNat ≤ i) (hi : i < stop) (hstop : stop ≤ names.length)
    (hmark : ∀ j, i ≤ j → j < stop →
      (elf.chainAt m (BitVec.ofNat 32 j - elf.symoffset) &&& 1 ≠ 0 ↔ j + 1 = stop))
    {fuel : Nat} (hfuel : stop ≤ i + fuel) :
    ∃ r, elfGnuHashLookupDefLoop m elf symbol (elfGnuHash symbol.bytes) fuel
        (BitVec.ofNat 32 i) = some r ∧
      ((∃ j, i ≤ j ∧ j < stop ∧ r = .ok (BitVec.ofNat 32 j) ∧ names[j]? = some symbol) ∨
        r = .error .notfnd ∧ ∀ j, i ≤ j → j < stop → names[j]? ≠ some symbol) := by
  induction fuel generalizing i with
  | zero => omega
  | succ fuel ih =>
      have hlen : i < names.length := Nat.lt_of_lt_of_le hi hstop
      have hidx := toNat_ofNat_index h.toNamed hlen
      have hnamed := h.toNamed.isNamed_iff (i := BitVec.ofNat 32 i) (hidx.symm ▸ hlen) symbol
      rw [hidx] at hnamed
      rw [elfGnuHashLookupDefLoop]
      by_cases hname : names[i]? = some symbol
      · have hhash := h.hashes i symbol hoff hname
        exact ⟨.ok _, by rw [if_pos ⟨hhash.symm, hnamed.mpr hname⟩],
          .inl ⟨i, Nat.le_refl _, hi, rfl, hname⟩⟩
      · rw [if_neg fun hfound => hname (hnamed.mp hfound.2)]
        have hmark' := hmark i (Nat.le_refl _) hi
        by_cases hlast : i + 1 = stop
        · refine ⟨.error .notfnd, by rw [if_pos (hmark'.mpr hlast)], .inr ⟨rfl, ?_⟩⟩
          intro j hij hj
          have heq : j = i := by omega
          exact heq ▸ hname
        · rw [if_neg fun hend => hlast (hmark'.mp hend)]
          have hsucc : BitVec.ofNat 32 i + 1 = BitVec.ofNat 32 (i + 1) := by
            rw [BitVec.ofNat_add]
            rfl
          obtain ⟨r, hr, hout⟩ := ih (i := i + 1) (by omega) (by omega)
            (fun j hj => hmark j (by omega)) (by omega)
          refine ⟨r, hsucc ▸ hr, ?_⟩
          rcases hout with ⟨j, hj, hok⟩ | ⟨herr, hnone⟩
          · exact .inl ⟨j, by omega, hok⟩
          · refine .inr ⟨herr, fun j hij hj => ?_⟩
            rcases Nat.eq_or_lt_of_le hij with rfl | hlt
            · exact hname
            · exact hnone j hlt hj

/-- A defined name is found in a GNU table, and nothing else. -/
theorem elfGnuHashLookupDef_finds (h : GnuTable m elf names) (symbol : CStr) :
    ∃ r, elfGnuHashLookupDef m elf symbol = some r ∧
      ((∃ i, elf.symoffset.toNat ≤ i ∧ i < names.length ∧ r = .ok (BitVec.ofNat 32 i) ∧
          names[i]? = some symbol) ∨
        r = .error .notfnd ∧ ∀ i, elf.symoffset.toNat ≤ i → names[i]? ≠ some symbol) := by
  obtain ⟨stop, hstop, hrange, hmark, hall⟩ := h.ranges (elfGnuHash symbol.bytes)
  rw [elfGnuHashLookupDef]
  simp only
  split
  next hmask =>
    exact ⟨_, rfl, .inr ⟨rfl, fun i hoff hname => hmask (h.bloom i symbol hoff hname)⟩⟩
  next =>
    split
    next hempty =>
      refine ⟨_, rfl, .inr ⟨rfl, fun i hoff hname => ?_⟩⟩
      exact absurd (hall i symbol hoff hname rfl).1 (BitVec.not_le.mpr hempty)
    next hstart =>
      have hle := BitVec.not_lt.mp hstart
      have hlt := hrange hle
      have hfuel (k : Nat) : stop ≤ k + indexFuel :=
        Nat.le_trans hstop (Nat.le_trans h.length (Nat.le_add_left _ _))
      obtain ⟨r, hr, hout⟩ :=
        elfGnuHashLookupDefLoop_range h symbol hle hlt hstop hmark (hfuel _)
      rw [BitVec.ofNat_toNat, BitVec.setWidth_eq] at hr
      refine ⟨r, hr, ?_⟩
      rcases hout with ⟨j, hj, hjstop, hok⟩ | ⟨herr, hnone⟩
      · exact .inl ⟨j, Nat.le_trans hle hj, Nat.lt_of_lt_of_le hjstop hstop, hok⟩
      · refine .inr ⟨herr, fun i hoff hname => ?_⟩
        obtain ⟨-, hlo, hhi⟩ := hall i symbol hoff hname rfl
        exact hnone i hlo hhi hname

/-- An imported name is found before the offset. -/
theorem elfGnuHashLookupUndef_finds (h : GnuTable m elf names) (symbol : CStr) :
    (∃ i, elfGnuHashLookupUndef m elf symbol = .ok i ∧ names[i.toNat]? = some symbol) ∨
      elfGnuHashLookupUndef m elf symbol = .error .notfnd ∧
        ∀ i < elf.symoffset.toNat, names[i]? ≠ some symbol := by
  rw [elfGnuHashLookupUndef]
  split
  next i hfind =>
    refine .inl ⟨i, rfl, ?_⟩
    have hmem := List.mem_of_find?_eq_some hfind
    obtain ⟨k, hk, rfl⟩ := List.mem_map.mp hmem
    have hlt : k < names.length := Nat.lt_of_lt_of_le (List.mem_range.mp hk) h.offset
    have hidx := toNat_ofNat_index h.toNamed hlt
    exact (h.toNamed.isNamed_iff (hidx.symm ▸ hlt) symbol).mp (List.find?_some hfind)
  next hfind =>
    refine .inr ⟨rfl, fun i hi hname => ?_⟩
    have hlt : i < names.length := Nat.lt_of_lt_of_le hi h.offset
    have hidx := toNat_ofNat_index h.toNamed hlt
    have hnot := List.find?_eq_none.mp hfind _ (List.mem_map.mpr ⟨i, List.mem_range.mpr hi, rfl⟩)
    refine hnot ((h.toNamed.isNamed_iff (hidx.symm ▸ hlt) symbol).mpr ?_)
    rw [hidx]
    exact hname

/-- A name is found in a GNU table where it is one of the names. -/
theorem elfGnuHashLookup_finds (h : GnuTable m elf names) (symbol : CStr) :
    ∃ r, elfGnuHashLookup m elf symbol = some r ∧ Finds names symbol r := by
  obtain ⟨r, hr, hdef⟩ := elfGnuHashLookupDef_finds h symbol
  rw [elfGnuHashLookup, hr]
  rcases hdef with ⟨i, -, hi, rfl, hname⟩ | ⟨rfl, hnone⟩
  · refine ⟨_, rfl, ?_⟩
    rw [Finds, toNat_ofNat_index h.toNamed hi]
    exact hname
  · rcases elfGnuHashLookupUndef_finds h symbol with ⟨i, hok, hname⟩ | ⟨herr, hundef⟩
    · exact ⟨.ok i, by simp only [hok], hname⟩
    · refine ⟨.error .notfnd, by simp only [herr], rfl, fun hmem => ?_⟩
      obtain ⟨i, hi, hname⟩ := List.getElem_of_mem hmem
      have hget : names[i]? = some symbol := by rw [List.getElem?_eq_getElem hi, hname]
      rcases Nat.lt_or_ge i elf.symoffset.toNat with hlt | hge
      · exact hundef i hlt hget
      · exact hnone i hge hget

/-- The table that the library has is that of the names. -/
def SymbolTable (m : Mem) (elf : Elf) (names : List CStr) : Prop :=
  if elf.isUseGnuHash then GnuTable m elf names else SysvTable m elf names

/-- Whichever table a library has, a lookup ends, and finds a name where it is one of
the names. -/
theorem elfFindSymidxByName_finds (h : SymbolTable m elf names) {symbol : CStr}
    (hne : symbol.bytes ≠ []) :
    ∃ r, elfFindSymidxByName m elf symbol = some r ∧ Finds names symbol r := by
  rw [elfFindSymidxByName]
  rw [SymbolTable] at h
  split
  next hgnu =>
    rw [if_pos hgnu] at h
    exact elfGnuHashLookup_finds h symbol
  next hgnu =>
    rw [if_neg hgnu] at h
    exact elfHashLookup_finds h hne

end

end XHook
