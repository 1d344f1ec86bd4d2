import AndroidAnalysis.XHook.ElfSymbols

/-!
# Reading a library from memory

A library that is loaded starts with its ELF header, which says where the program
headers are, and these say where its dynamic section is.  The entries of that section
give the tables.
-/

namespace XHook

open Machine

/-- A half word -/
def read16 (m : Mem) (a : Nat) : BitVec 16 := readBytes m a 2

/-- `xh_elf_check_elfheader`, for `aarch64` -/
def elfCheckElfheader (m : Mem) (baseAddr : BitVec 64) : Option Errno :=
  let ehdr := baseAddr.toNat
  if ¬ Stored m ehdr [0x7f, 0x45, 0x4c, 0x46] then some .format
  else if m (ehdr + 4) ≠ 2 then some .format
  else if m (ehdr + 5) ≠ 1 then some .format
  else if m (ehdr + 6) ≠ 1 then some .format
  else if read16 m (ehdr + 16) ≠ 2 ∧ read16 m (ehdr + 16) ≠ 3 then some .format
  else if read16 m (ehdr + 18) ≠ 183 then some .format
  else if read32 m (ehdr + 20) ≠ 1 then some .format
  else none

/-- The program headers -/
def programHeaders (m : Mem) (ehdr phdr : BitVec 64) : List Nat :=
  (List.range (read16 m (ehdr.toNat + 56)).toNat).map fun i => phdr.toNat + 56 * i

/-- `xh_elf_get_first_segment_by_type` -/
def getFirstSegmentByType (m : Mem) (ehdr phdr : BitVec 64) (type : BitVec 32) : Option Nat :=
  (programHeaders m ehdr phdr).find? fun p => read32 m p == type

/-- `xh_elf_get_first_segment_by_type_offset` -/
def getFirstSegmentByTypeOffset (m : Mem) (ehdr phdr : BitVec 64) (type : BitVec 32)
    (offset : BitVec 64) : Option Nat :=
  (programHeaders m ehdr phdr).find? fun p => read32 m p == type && read64 m (p + 8) == offset

/-- An entry of the dynamic section -/
structure Dyn where
  tag : BitVec 64
  val : BitVec 64
  deriving DecidableEq, Repr

namespace Dyn

/-- `DT_NULL` -/
def null : BitVec 64 := 0

/-- `DT_PLTRELSZ` -/
def pltrelsz : BitVec 64 := 2

/-- `DT_HASH` -/
def hash : BitVec 64 := 4

/-- `DT_STRTAB` -/
def strtab : BitVec 64 := 5

/-- `DT_SYMTAB` -/
def symtab : BitVec 64 := 6

/-- `DT_RELA` -/
def rela : BitVec 64 := 7

/-- `DT_RELASZ` -/
def relasz : BitVec 64 := 8

/-- `DT_REL` -/
def rel : BitVec 64 := 17

/-- `DT_RELSZ` -/
def relsz : BitVec 64 := 18

/-- `DT_PLTREL` -/
def pltrel : BitVec 64 := 20

/-- `DT_JMPREL` -/
def jmprel : BitVec 64 := 23

/-- `DT_ANDROID_REL` -/
def androidRel : BitVec 64 := 0x6000000f

/-- `DT_ANDROID_RELSZ` -/
def androidRelsz : BitVec 64 := 0x60000010

/-- `DT_ANDROID_RELA` -/
def androidRela : BitVec 64 := 0x60000011

/-- `DT_ANDROID_RELASZ` -/
def androidRelasz : BitVec 64 := 0x60000012

/-- `DT_GNU_HASH` -/
def gnuHash : BitVec 64 := 0x6ffffef5

end Dyn

/-- A pointer of the dynamic section, which must not be below the library -/
def Elf.pointer (self : Elf) (val : BitVec 64) : Except Errno (BitVec 64) :=
  let p := self.biasAddr + val
  if p < self.baseAddr then .error .format else .ok p

/-- The fields that `DT_HASH` gives -/
def Elf.setHash (m : Mem) (self : Elf) (raw : BitVec 64) : Elf :=
  let bucketCnt := read32 m raw.toNat
  let bucket := raw + 8
  { self with
    bucketCnt
    chainCnt := read32 m (raw.toNat + 4)
    bucket
    chain := bucket + 4 * bucketCnt.setWidth 64 }

/-- The fields that `DT_GNU_HASH` gives -/
def Elf.setGnuHash (m : Mem) (self : Elf) (raw : BitVec 64) : Elf :=
  let bucketCnt := read32 m raw.toNat
  let bloomSz := read32 m (raw.toNat + 8)
  let bloom := raw + 16
  let bucket := bloom + 8 * bloomSz.setWidth 64
  { self with
    bucketCnt
    symoffset := read32 m (raw.toNat + 4)
    bloomSz
    bloomShift := read32 m (raw.toNat + 12)
    bloom
    bucket
    chain := bucket + 4 * bucketCnt.setWidth 64
    isUseGnuHash := true }

/-- An entry of the dynamic section is taken over, as `xh_elf_init` does it. -/
def dynEntry (m : Mem) (self : Elf) (d : Dyn) : Except Errno Elf :=
  if d.tag = Dyn.strtab then (self.pointer d.val).map fun p => { self with strtab := p }
  else if d.tag = Dyn.symtab then (self.pointer d.val).map fun p => { self with symtab := p }
  else if d.tag = Dyn.pltrel then .ok { self with isUseRela := d.val == Dyn.rela }
  else if d.tag = Dyn.jmprel then (self.pointer d.val).map fun p => { self with relplt := p }
  else if d.tag = Dyn.pltrelsz then .ok { self with relpltSz := d.val.setWidth 32 }
  else if d.tag = Dyn.rel ∨ d.tag = Dyn.rela then
    (self.pointer d.val).map fun p => { self with reldyn := p }
  else if d.tag = Dyn.relsz ∨ d.tag = Dyn.relasz then
    .ok { self with reldynSz := d.val.setWidth 32 }
  else if d.tag = Dyn.androidRel ∨ d.tag = Dyn.androidRela then
    (self.pointer d.val).map fun p => { self with relandroid := p }
  else if d.tag = Dyn.androidRelsz ∨ d.tag = Dyn.androidRelasz then
    .ok { self with relandroidSz := d.val.setWidth 32 }
  else if d.tag = Dyn.hash then
    if self.isUseGnuHash then .ok self else (self.pointer d.val).map (self.setHash m)
  else if d.tag = Dyn.gnuHash then (self.pointer d.val).map (self.setGnuHash m)
  else .ok self

/-- The loop of `xh_elf_init` over the dynamic section, which ends at `DT_NULL` -/
def dynLoop (m : Mem) : Elf → List Dyn → Except Errno Elf
  | self, [] => .ok self
  | self, d :: ds =>
      if d.tag = Dyn.null then .ok self
      else
        match dynEntry m self d with
        | .error e => .error e
        | .ok self => dynLoop m self ds

/-- The entries of the dynamic section -/
def Elf.dynEntries (m : Mem) (self : Elf) : List Dyn :=
  (List.range (self.dynSz.toNat / 16)).map fun i =>
    ⟨read64 m (self.dyn.toNat + 16 * i), read64 m (self.dyn.toNat + 16 * i + 8)⟩

/-- `xh_elf_check`: whether something is missing -/
def elfCheck (self : Elf) : Bool :=
  self.baseAddr == 0 || self.biasAddr == 0 || self.ehdr == 0 || self.phdr == 0 ||
  self.strtab == 0 || self.symtab == 0 || self.bucket == 0 || self.chain == 0 ||
  self.isUseGnuHash && self.bloom == 0

/-- The packed relocations start with their name, `APS2` -/
def checkAndroid (m : Mem) (self : Elf) : Except Errno Elf :=
  if self.relandroid ≠ 0 then
    if self.relandroidSz < 4 ∨ ¬ Stored m self.relandroid.toNat [0x41, 0x50, 0x53, 0x32] then
      .error .format
    else .ok { self with
      relandroid := self.relandroid + 4
      relandroidSz := self.relandroidSz - 4 }
  else .ok self

/-- `xh_elf_t` after it was cleared -/
def Elf.zero : Elf :=
  ⟨none, 0, 0, 0, 0, 0, 0, 0, 0, 0, 0, 0, 0, 0, 0, 0, 0, 0, 0, 0, 0, 0, 0, false, false⟩

/-- `xh_elf_init` up to the dynamic section -/
def elfStart (m : Mem) (baseAddr : BitVec 64) (pathname : Option (List Char)) :
    Except Errno Elf := do
  if baseAddr = 0 ∨ pathname = none then throw .inval
  let phdr := baseAddr + read64 m (baseAddr.toNat + 32)
  let some phdr0 := getFirstSegmentByTypeOffset m baseAddr phdr 1 0 | throw .format
  let pVaddr := read64 m (phdr0 + 16)
  if baseAddr < pVaddr then throw .format
  let biasAddr := baseAddr - pVaddr
  let some dhdr := getFirstSegmentByType m baseAddr phdr 2 | throw .format
  pure { Elf.zero with
    pathname, baseAddr, ehdr := baseAddr, phdr, biasAddr
    dyn := biasAddr + read64 m (dhdr + 16)
    dynSz := (read64 m (dhdr + 40)).setWidth 32 }

/-- `xh_elf_init` -/
def elfInit (m : Mem) (baseAddr : BitVec 64) (pathname : Option (List Char)) :
    Except Errno Elf := do
  let self ← elfStart m baseAddr pathname
  let self ← dynLoop m self (self.dynEntries m)
  let self ← checkAndroid m self
  if elfCheck self then throw .format
  pure self

/-! ## What is read -/

/-- These bytes from an address on are in this part of memory. -/
def SpanIn (q : Nat → Prop) (a n : Nat) : Prop := ∀ b, a ≤ b → b < a + n → q b

/-- This part of memory has all that is read of a library when its tables are looked
up. -/
structure ImageIn (q : Nat → Prop) (m : Mem) (baseAddr : BitVec 64)
    (pathname : Option (List Char)) : Prop where
  ehdr : SpanIn q baseAddr.toNat 64
  phdrs : ∀ p ∈ programHeaders m baseAddr (baseAddr + read64 m (baseAddr.toNat + 32)),
    SpanIn q p 56
  dyn : ∀ elf, elfStart m baseAddr pathname = .ok elf →
    SpanIn q elf.dyn.toNat (16 * (elf.dynSz.toNat / 16))
  hash : ∀ elf, elfStart m baseAddr pathname = .ok elf → ∀ d ∈ elf.dynEntries m,
    d.tag = Dyn.hash ∨ d.tag = Dyn.gnuHash → SpanIn q (elf.biasAddr + d.val).toNat 16
  android : ∀ elf, elfStart m baseAddr pathname = .ok elf → ∀ d ∈ elf.dynEntries m,
    d.tag = Dyn.androidRel ∨ d.tag = Dyn.androidRela → SpanIn q (elf.biasAddr + d.val).toNat 4

section
variable {q : Nat → Prop} {m m' : Mem} {baseAddr : BitVec 64} {elf : Elf} {a n k : Nat}

theorem SpanIn.at_offset (h : SpanIn q a n) {size : Nat} (hk : k + size ≤ n) :
    ∀ b, a + k ≤ b → b < a + k + size → q b := fun b hlo hhi => h b (by omega) (by omega)

theorem SpanIn.read64 (h : SpanIn q a n) (hm : Mem.AgreeOn q m m') (hk : k + 8 ≤ n) :
    Machine.read64 m' (a + k) = Machine.read64 m (a + k) := hm.read64 (h.at_offset hk)

theorem SpanIn.read32 (h : SpanIn q a n) (hm : Mem.AgreeOn q m m') (hk : k + 4 ≤ n) :
    Machine.read32 m' (a + k) = Machine.read32 m (a + k) := hm.read32 (h.at_offset hk)

theorem SpanIn.read16 (h : SpanIn q a n) (hm : Mem.AgreeOn q m m') (hk : k + 2 ≤ n) :
    XHook.read16 m' (a + k) = XHook.read16 m (a + k) := hm.readBytes (h.at_offset hk)

theorem SpanIn.byte (h : SpanIn q a n) (hm : Mem.AgreeOn q m m') (hk : k < n) :
    m' (a + k) = m (a + k) := hm _ (h _ (by omega) (by omega))

theorem elfCheckElfheader_agreeOn (hm : Mem.AgreeOn q m m') (h : SpanIn q baseAddr.toNat 64) :
    elfCheckElfheader m' baseAddr = elfCheckElfheader m baseAddr := by
  have hname : Stored m' baseAddr.toNat [0x7f, 0x45, 0x4c, 0x46] ↔
      Stored m baseAddr.toNat [0x7f, 0x45, 0x4c, 0x46] :=
    Stored.agreeOn hm fun b hlo hhi => h b hlo (Nat.lt_of_lt_of_le hhi (by simp))
  rw [elfCheckElfheader, elfCheckElfheader]
  simp only [hname, h.byte (k := 4) hm (by decide), h.byte (k := 5) hm (by decide),
    h.byte (k := 6) hm (by decide), h.read16 (k := 16) hm (by decide),
    h.read16 (k := 18) hm (by decide), h.read32 (k := 20) hm (by decide)]

/-- A program header that is looked for is one of those that are read. -/
theorem find_agreeOn {ps : List Nat} {f g : Nat → Bool} (h : ∀ p ∈ ps, f p = g p) :
    ps.find? f = ps.find? g := by
  induction ps with
  | nil => rfl
  | cons p ps ih =>
      rw [List.find?_cons, List.find?_cons, h p List.mem_cons_self,
        ih fun p hp => h p (List.mem_cons_of_mem _ hp)]

theorem elfStart_agreeOn {pathname : Option (List Char)} (hm : Mem.AgreeOn q m m')
    (h : ImageIn q m baseAddr pathname) :
    elfStart m' baseAddr pathname = elfStart m baseAddr pathname := by
  have hphoff := h.ehdr.read64 (k := 32) hm (by decide)
  have hheaders (phdr : BitVec 64) :
      programHeaders m' baseAddr phdr = programHeaders m baseAddr phdr := by
    rw [programHeaders, programHeaders, h.ehdr.read16 (k := 56) hm (by decide)]
  have htype (type : BitVec 32) :
      getFirstSegmentByType m' baseAddr (baseAddr + read64 m (baseAddr.toNat + 32)) type =
        getFirstSegmentByType m baseAddr (baseAddr + read64 m (baseAddr.toNat + 32)) type := by
    rw [getFirstSegmentByType, getFirstSegmentByType, hheaders]
    refine find_agreeOn fun p hp => ?_
    have hword : read32 m' p = read32 m p := (h.phdrs p hp).read32 (k := 0) hm (by decide)
    rw [hword]
  have hoffset (type : BitVec 32) (offset : BitVec 64) :
      getFirstSegmentByTypeOffset m' baseAddr (baseAddr + read64 m (baseAddr.toNat + 32)) type
        offset = getFirstSegmentByTypeOffset m baseAddr
          (baseAddr + read64 m (baseAddr.toNat + 32)) type offset := by
    rw [getFirstSegmentByTypeOffset, getFirstSegmentByTypeOffset, hheaders]
    refine find_agreeOn fun p hp => ?_
    have hword : read32 m' p = read32 m p := (h.phdrs p hp).read32 (k := 0) hm (by decide)
    rw [hword, (h.phdrs p hp).read64 (k := 8) hm (by decide)]
  rw [elfStart, elfStart]
  simp only [hphoff, htype, hoffset]
  cases hload : getFirstSegmentByTypeOffset m baseAddr
      (baseAddr + read64 m (baseAddr.toNat + 32)) 1 0 with
  | none => rfl
  | some phdr0 =>
      have hin := h.phdrs phdr0 (List.mem_of_find?_eq_some hload)
      simp only [hin.read64 (k := 16) hm (by decide)]
      cases hdyn : getFirstSegmentByType m baseAddr
          (baseAddr + read64 m (baseAddr.toNat + 32)) 2 with
      | none => rfl
      | some dhdr =>
          have hin' := h.phdrs dhdr (List.mem_of_find?_eq_some hdyn)
          simp only [hin'.read64 (k := 16) hm (by decide), hin'.read64 (k := 40) hm (by decide)]

theorem dynEntries_agreeOn (hm : Mem.AgreeOn q m m')
    (h : SpanIn q elf.dyn.toNat (16 * (elf.dynSz.toNat / 16))) :
    elf.dynEntries m' = elf.dynEntries m := by
  rw [Elf.dynEntries, Elf.dynEntries]
  refine List.map_congr_left fun i hi => ?_
  have hlt := List.mem_range.mp hi
  have hval := h.read64 (k := 16 * i + 8) hm (by omega)
  rw [← Nat.add_assoc] at hval
  rw [h.read64 (k := 16 * i) hm (by omega), hval]

theorem Elf.pointer_eq {self : Elf} {val p : BitVec 64} (h : self.pointer val = .ok p) :
    p = self.biasAddr + val := by
  rw [Elf.pointer] at h
  split at h
  next => cases h
  next => cases h; rfl

theorem dynEntry_hash (m : Mem) (self : Elf) (val : BitVec 64) :
    dynEntry m self ⟨Dyn.hash, val⟩ =
      if self.isUseGnuHash then .ok self else (self.pointer val).map (self.setHash m) := rfl

theorem dynEntry_gnuHash (m : Mem) (self : Elf) (val : BitVec 64) :
    dynEntry m self ⟨Dyn.gnuHash, val⟩ = (self.pointer val).map (self.setGnuHash m) := rfl

/-- An entry reads no more than the header of a hash table. -/
theorem dynEntry_agreeOn (hm : Mem.AgreeOn q m m') {d : Dyn}
    (h : d.tag = Dyn.hash ∨ d.tag = Dyn.gnuHash → SpanIn q (elf.biasAddr + d.val).toNat 16) :
    dynEntry m' elf d = dynEntry m elf d := by
  obtain ⟨tag, val⟩ := d
  have hread : tag = Dyn.hash ∨ tag = Dyn.gnuHash → ∀ p, elf.pointer val = .ok p →
      ∀ k, k + 4 ≤ 16 → read32 m' (p.toNat + k) = read32 m (p.toNat + k) := by
    intro htag p hp k hk
    have hin := h htag
    rw [← Elf.pointer_eq hp] at hin
    exact hin.read32 hm hk
  by_cases hsysv : tag = Dyn.hash
  · subst hsysv
    rw [dynEntry_hash, dynEntry_hash]
    cases hp : elf.pointer val with
    | error e => rfl
    | ok p =>
        have hword := hread (.inl rfl) p hp
        have hset : elf.setHash m' p = elf.setHash m p := by
          have hfirst : read32 m' p.toNat = read32 m p.toNat := hword 0 (by decide)
          rw [Elf.setHash, Elf.setHash, hfirst, hword 4 (by decide)]
        rw [Except.map, Except.map, hset]
  · by_cases hgnu : tag = Dyn.gnuHash
    · subst hgnu
      rw [dynEntry_gnuHash, dynEntry_gnuHash]
      cases hp : elf.pointer val with
      | error e => rfl
      | ok p =>
          have hword := hread (.inr rfl) p hp
          have hfirst : read32 m' p.toNat = read32 m p.toNat := hword 0 (by decide)
          have hset : elf.setGnuHash m' p = elf.setGnuHash m p := by
            rw [Elf.setGnuHash, Elf.setGnuHash, hfirst, hword 4 (by decide), hword 8 (by decide),
              hword 12 (by decide)]
          rw [Except.map, Except.map, hset]
    · rw [dynEntry, dynEntry, if_neg hsysv, if_neg hsysv, if_neg hgnu, if_neg hgnu]

/-- The path, the place and the packed relocations are the same. -/
def Elf.SamePlace (elf elf' : Elf) : Prop :=
  elf'.pathname = elf.pathname ∧ elf'.biasAddr = elf.biasAddr ∧ elf'.relandroid = elf.relandroid

/-- An entry that sets a pointer sets it to an address in the library. -/
theorem Elf.eq_of_pointer_map {elf' : Elf} {val : BitVec 64} {f : BitVec 64 → Elf}
    (h : (elf.pointer val).map f = .ok elf') : elf' = f (elf.biasAddr + val) := by
  cases hp : elf.pointer val with
  | error e => rw [hp] at h; cases h
  | ok p =>
      rw [hp] at h
      cases h
      rw [Elf.pointer_eq hp]

/-- All entries but the one of the packed relocations leave them where they are. -/
theorem dynEntry_samePlace {elf' : Elf} {d : Dyn}
    (htag : ¬ (d.tag = Dyn.androidRel ∨ d.tag = Dyn.androidRela))
    (h : dynEntry m elf d = .ok elf') : elf.SamePlace elf' := by
  have hkeep : ∀ f : BitVec 64 → Elf, (elf.pointer d.val).map f = .ok elf' →
      (∀ p, elf.SamePlace (f p)) → elf.SamePlace elf' := by
    intro f hf hsame
    rw [Elf.eq_of_pointer_map hf]
    exact hsame _
  have hok : ∀ e : Elf, (.ok e : Except Errno Elf) = .ok elf' → elf.SamePlace e →
      elf.SamePlace elf' := by
    intro e he hsame
    cases he
    exact hsame
  rw [dynEntry, if_neg htag] at h
  rcases ite_eq_iff.mp h with ⟨-, h⟩ | ⟨-, h⟩
  · exact hkeep _ h fun _ => ⟨rfl, rfl, rfl⟩
  rcases ite_eq_iff.mp h with ⟨-, h⟩ | ⟨-, h⟩
  · exact hkeep _ h fun _ => ⟨rfl, rfl, rfl⟩
  rcases ite_eq_iff.mp h with ⟨-, h⟩ | ⟨-, h⟩
  · exact hok _ h ⟨rfl, rfl, rfl⟩
  rcases ite_eq_iff.mp h with ⟨-, h⟩ | ⟨-, h⟩
  · exact hkeep _ h fun _ => ⟨rfl, rfl, rfl⟩
  rcases ite_eq_iff.mp h with ⟨-, h⟩ | ⟨-, h⟩
  · exact hok _ h ⟨rfl, rfl, rfl⟩
  rcases ite_eq_iff.mp h with ⟨-, h⟩ | ⟨-, h⟩
  · exact hkeep _ h fun _ => ⟨rfl, rfl, rfl⟩
  rcases ite_eq_iff.mp h with ⟨-, h⟩ | ⟨-, h⟩
  · exact hok _ h ⟨rfl, rfl, rfl⟩
  rcases ite_eq_iff.mp h with ⟨-, h⟩ | ⟨-, h⟩
  · exact hok _ h ⟨rfl, rfl, rfl⟩
  rcases ite_eq_iff.mp h with ⟨-, h⟩ | ⟨-, h⟩
  · rcases ite_eq_iff.mp h with ⟨-, h⟩ | ⟨-, h⟩
    · exact hok _ h ⟨rfl, rfl, rfl⟩
    · exact hkeep _ h fun _ => ⟨rfl, rfl, rfl⟩
  rcases ite_eq_iff.mp h with ⟨-, h⟩ | ⟨-, h⟩
  · exact hkeep _ h fun _ => ⟨rfl, rfl, rfl⟩
  · exact hok _ h ⟨rfl, rfl, rfl⟩

/-- An entry keeps the path of the library and where it is, and but for the entry of the
packed relocations, where they are. -/
theorem dynEntry_frame {elf' : Elf} {d : Dyn} (h : dynEntry m elf d = .ok elf') :
    elf'.pathname = elf.pathname ∧ elf'.biasAddr = elf.biasAddr ∧
      (elf'.relandroid = elf.relandroid ∨
        (d.tag = Dyn.androidRel ∨ d.tag = Dyn.androidRela) ∧
          elf'.relandroid = elf.biasAddr + d.val) := by
  by_cases htag : d.tag = Dyn.androidRel ∨ d.tag = Dyn.androidRela
  · have hset : dynEntry m elf d =
        (elf.pointer d.val).map fun p => { elf with relandroid := p } := by
      obtain ⟨tag, val⟩ := d
      rcases htag with rfl | rfl
      · rfl
      · rfl
    rw [hset] at h
    rw [Elf.eq_of_pointer_map h]
    exact ⟨rfl, rfl, .inr ⟨htag, rfl⟩⟩
  · obtain ⟨hpath, hbias, hrel⟩ := dynEntry_samePlace htag h
    exact ⟨hpath, hbias, .inl hrel⟩

/-- Reading the dynamic section keeps the path and where the library is, and finds the
packed relocations where one of the entries says, if at all. -/
theorem dynLoop_frame {ds : List Dyn} {elf' : Elf} (h : dynLoop m elf ds = .ok elf') :
    elf'.pathname = elf.pathname ∧ elf'.biasAddr = elf.biasAddr ∧
      (elf'.relandroid = elf.relandroid ∨
        ∃ d ∈ ds, (d.tag = Dyn.androidRel ∨ d.tag = Dyn.androidRela) ∧
          elf'.relandroid = elf.biasAddr + d.val) := by
  induction ds generalizing elf with
  | nil =>
      cases h
      exact ⟨rfl, rfl, .inl rfl⟩
  | cons d ds ih =>
      rw [dynLoop] at h
      rcases ite_eq_iff.mp h with ⟨-, h⟩ | ⟨-, h⟩
      · cases h
        exact ⟨rfl, rfl, .inl rfl⟩
      · cases hentry : dynEntry m elf d with
        | error e => rw [hentry] at h; cases h
        | ok elf₁ =>
            rw [hentry] at h
            obtain ⟨hpath, hbias, hrel⟩ := dynEntry_frame hentry
            obtain ⟨hpath', hbias', hrel'⟩ := ih h
            rw [hbias] at hbias' hrel'
            refine ⟨hpath'.trans hpath, hbias', ?_⟩
            rcases hrel' with hrel' | ⟨d', hd', htag, heq⟩
            · rcases hrel with hrel | ⟨htag, heq⟩
              · exact .inl (hrel'.trans hrel)
              · exact .inr ⟨d, List.mem_cons_self, htag, hrel'.trans heq⟩
            · exact .inr ⟨d', List.mem_cons_of_mem _ hd', htag, heq⟩

theorem dynLoop_agreeOn (hm : Mem.AgreeOn q m m') {ds : List Dyn}
    (h : ∀ d ∈ ds, d.tag = Dyn.hash ∨ d.tag = Dyn.gnuHash →
      SpanIn q (elf.biasAddr + d.val).toNat 16) : dynLoop m' elf ds = dynLoop m elf ds := by
  induction ds generalizing elf with
  | nil => rfl
  | cons d ds ih =>
      rw [dynLoop, dynLoop, dynEntry_agreeOn hm (h d List.mem_cons_self)]
      cases hentry : dynEntry m elf d with
      | error e => rfl
      | ok elf₁ =>
          have hrest : dynLoop m' elf₁ ds = dynLoop m elf₁ ds := by
            refine ih fun d' hd' htag => ?_
            rw [(dynEntry_frame hentry).2.1]
            exact h d' (List.mem_cons_of_mem _ hd') htag
          simp only [hrest]

theorem elfStart_frame {pathname : Option (List Char)}
    (h : elfStart m baseAddr pathname = .ok elf) :
    pathname.isSome ∧ elf.pathname = pathname ∧ elf.relandroid = 0 := by
  rw [elfStart] at h
  simp only [bind, Except.bind, pure, Except.pure, throw, throwThe, MonadExceptOf.throw] at h
  split at h
  next => cases h
  next hargs =>
    obtain ⟨-, hpath⟩ := not_or.mp hargs
    repeat' split at h
    all_goals cases h
    exact ⟨Option.isSome_iff_ne_none.mpr hpath, rfl, rfl⟩

/-- `xh_elf_init` reads a library. -/
theorem elfInit_agreeOn {pathname : Option (List Char)} (hm : Mem.AgreeOn q m m')
    (h : ImageIn q m baseAddr pathname) :
    elfInit m' baseAddr pathname = elfInit m baseAddr pathname := by
  rw [elfInit, elfInit, elfStart_agreeOn hm h]
  cases hstart : elfStart m baseAddr pathname with
  | error e => rfl
  | ok elf =>
      have hloop : dynLoop m' elf (elf.dynEntries m') = dynLoop m elf (elf.dynEntries m) := by
        rw [dynEntries_agreeOn hm (h.dyn elf hstart)]
        exact dynLoop_agreeOn hm (h.hash elf hstart)
      show (dynLoop m' elf (elf.dynEntries m') >>= _) = (dynLoop m elf (elf.dynEntries m) >>= _)
      rw [hloop]
      cases hdyn : dynLoop m elf (elf.dynEntries m) with
      | error e => rfl
      | ok elf₁ =>
          have hpacked : checkAndroid m' elf₁ = checkAndroid m elf₁ := by
            rw [checkAndroid, checkAndroid]
            by_cases hzero : elf₁.relandroid = 0
            · rw [if_neg (not_not.mpr hzero), if_neg (not_not.mpr hzero)]
            · rcases (dynLoop_frame hdyn).2.2 with hsame | ⟨d, hd, htag, heq⟩
              · exact absurd (hsame.trans (elfStart_frame hstart).2.2) hzero
              · have hin := h.android elf hstart d hd htag
                rw [← heq] at hin
                have hname : Stored m' elf₁.relandroid.toNat [0x41, 0x50, 0x53, 0x32] ↔
                    Stored m elf₁.relandroid.toNat [0x41, 0x50, 0x53, 0x32] :=
                  Stored.agreeOn hm hin
                simp only [hname]
          show (checkAndroid m' elf₁ >>= _) = (checkAndroid m elf₁ >>= _)
          rw [hpacked]

/-- A library that could be read has its path. -/
theorem elfInit_pathname {pathname : Option (List Char)}
    (h : elfInit m baseAddr pathname = .ok elf) : elf.pathname.isSome := by
  rw [elfInit] at h
  cases hstart : elfStart m baseAddr pathname with
  | error e => rw [hstart] at h; cases h
  | ok elf₀ =>
      rw [hstart] at h
      obtain ⟨hsome, hpath, -⟩ := elfStart_frame hstart
      change (dynLoop m elf₀ (elf₀.dynEntries m) >>= _) = _ at h
      cases hdyn : dynLoop m elf₀ (elf₀.dynEntries m) with
      | error e => rw [hdyn] at h; cases h
      | ok elf₁ =>
          rw [hdyn] at h
          have hpath₁ := (dynLoop_frame hdyn).1.trans hpath
          change (checkAndroid m elf₁ >>= _) = _ at h
          cases hcheck : checkAndroid m elf₁ with
          | error e => rw [hcheck] at h; cases h
          | ok elf₂ =>
              rw [hcheck] at h
              have hpath₂ : elf₂.pathname = elf₁.pathname := by
                rw [checkAndroid] at hcheck
                repeat' split at hcheck
                all_goals cases hcheck
                · rfl
                · rfl
              change (if elfCheck elf₂ then _ else _) = _ at h
              split at h
              next => cases h
              next =>
                cases h
                rw [hpath₂, hpath₁]
                exact hsome

end

end XHook
