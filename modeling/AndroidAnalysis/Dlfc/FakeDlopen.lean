import AndroidAnalysis.XHook.ElfInit

/-!
# Functions of a library by its file

`fake_dlopen` finds a library by the line of its executable mapping, which it reads into
a buffer of 256 bytes, and reads its symbols from the file, which it maps.  What lies
behind the last page of the file cannot be read.  `fake_dlsym` takes the address of a
symbol from the start of that mapping, the value of the symbol, and a bias that
`fake_dlopen` took from the first section of the program behind the two tables.

`fakeDlsym_spec` says which addresses come out.  They are those of the symbols exactly
where the bias is the address at which the executable segment was linked.
-/

namespace Dlfc

open Machine XHook

/-! ## The code -/

/-- `strstr` -/
def strstr (haystack needle : List Char) : Option (List Char) :=
  haystack.tails.find? needle.isPrefixOf

/-- The pieces that `fgets` reads into a buffer of this size, where some characters of the
first one are read already -/
def fgetsPieces (size : Nat) : (read text : List Char) → List (List Char)
  | [], [] => []
  | c :: read, [] => [c :: read]
  | read, c :: text =>
      if c = '\n' ∨ read.length + 2 = size then (read ++ [c]) :: fgetsPieces size [] text
      else fgetsPieces size (read ++ [c]) text

/-- A piece of `/proc/self/maps` that `fake_dlopen` looks for -/
def isExecutableOf (libpath buff : List Char) : Bool :=
  (strstr buff ['r', '-', 'x', 'p']).isSome && (strstr buff libpath).isSome

/-- The path of a piece, from its first slash on and without the end of the line -/
def fullPath (buff : List Char) : Option (List Char) :=
  (strstr buff ['/']).map fun path =>
    (path.reverse.dropWhile fun c => c == '\r' || c == '\n' || c == '\t').reverse

/-- `isspace` -/
def isspace (c : Char) : Bool := c == ' ' || ('\t' ≤ c && c ≤ '\r')

/-- The value of a hexadecimal digit -/
def hexDigit (c : Char) : Option Nat :=
  if '0' ≤ c ∧ c ≤ '9' then some (c.toNat - '0'.toNat)
  else if 'a' ≤ c ∧ c ≤ 'f' then some (c.toNat - 'a'.toNat + 10)
  else if 'A' ≤ c ∧ c ≤ 'F' then some (c.toNat - 'A'.toNat + 10)
  else none

/-- The text behind a `0x` that has a digit behind it -/
def skipHexPrefix : List Char → List Char
  | '0' :: x :: c :: text =>
      if (x = 'x' ∨ x = 'X') ∧ (hexDigit c).isSome then c :: text else '0' :: x :: c :: text
  | text => text

/-- The digits at the start of a text, with the rest of it.  A number that is too large is
the largest one. -/
def scanDigits (negative : Bool) (text : List Char) : Option (BitVec 64 × List Char) :=
  let digits := text.takeWhile fun c => (hexDigit c).isSome
  let n := digits.foldl (fun n c => 16 * n + (hexDigit c).getD 0) 0
  if digits = [] then none
  else if 2 ^ 64 ≤ n then some (-1, text.drop digits.length)
  else some (if negative then -BitVec.ofNat 64 n else BitVec.ofNat 64 n, text.drop digits.length)

/-- `%lx` of `sscanf` -/
def scanHex (text : List Char) : Option (BitVec 64 × List Char) :=
  match text.dropWhile isspace with
  | '+' :: text => scanDigits false (skipHexPrefix text)
  | '-' :: text => scanDigits true (skipHexPrefix text)
  | text => scanDigits false (skipHexPrefix text)

/-- `sscanf` of `"%lx-%lx"`, where it reads both -/
def scanRange (buff : List Char) : Option (BitVec 64 × BitVec 64) :=
  match scanHex buff with
  | some (start, '-' :: text) => (scanHex text).map fun r => (start, r.1)
  | _ => none

/-- `Elf64_Shdr`, with its place in the file -/
structure Shdr where
  place : Nat
  shType : BitVec 32
  shAddr : BitVec 64
  shOffset : BitVec 64
  shSize : BitVec 64
  deriving DecidableEq, Repr

/-- `SHT_PROGBITS` -/
def progbits : BitVec 32 := 1

/-- `SHT_STRTAB` -/
def strtab : BitVec 32 := 3

/-- `SHT_DYNSYM` -/
def dynsym : BitVec 32 := 11

/-- The section headers of a file -/
def sectionHeaders (file : Mem) : List Shdr :=
  (List.range (read16 file 60).toNat).map fun k =>
    let sh := (read64 file 40).toNat + k * (read16 file 58).toNat
    ⟨sh, read32 file (sh + 4), read64 file (sh + 16), read64 file (sh + 24), read64 file (sh + 32)⟩

/-- What `fake_dlopen` takes from the sections: the two tables and the bias -/
structure Dynamic where
  dynsym : Option Shdr
  dynstr : Option Shdr
  bias : BitVec 64

/-- `elf_info`, with the two tables as blocks of the heap -/
structure ElfInfo where
  fullPath : List Char
  loadAddr : BitVec 64
  endAddr : BitVec 64
  dynstr : Mem
  dynsym : Mem
  nsyms : Int
  bias : BitVec 64
  fileSize : Nat

/-- How a library is opened: not at all, with a handle, or not to an end, as a null pointer
or what is not mapped is read -/
inductive Opened
  | null
  | handle (info : ElfInfo)
  | fault

/-- What is read of a header to copy its section, and the section, are in the part of the
file that is mapped. -/
def Shdr.Within (limit : Nat) (sh : Shdr) : Prop :=
  sh.place + 40 ≤ limit ∧ (sh.shSize = 0 ∨ sh.shOffset.toNat + sh.shSize.toNat ≤ limit)

instance (limit : Nat) (sh : Shdr) : Decidable (sh.Within limit) :=
  inferInstanceAs (Decidable (_ ∧ (_ ∨ _)))

/-- The loop of `fake_dlopen` over the sections of a file that is mapped up to here.  A
second table of symbols is an error. -/
def sectionLoop (limit : Nat) : Dynamic → List Shdr → Except Opened Dynamic
  | d, [] => .ok d
  | d, sh :: shs =>
      if limit < sh.place + 8 then .error .fault
      else if sh.shType = dynsym then
        if d.dynsym.isSome then .error .null
        else if ¬ sh.Within limit then .error .fault
        else sectionLoop limit { d with dynsym := some sh } shs
      else if sh.shType = strtab then
        if d.dynstr.isSome then sectionLoop limit d shs
        else if ¬ sh.Within limit then .error .fault
        else sectionLoop limit { d with dynstr := some sh } shs
      else if sh.shType = progbits then
        if d.dynstr.isNone || d.dynsym.isNone then sectionLoop limit d shs
        else if limit < sh.place + 32 then .error .fault
        else .ok { d with bias := sh.shAddr - sh.shOffset }
      else sectionLoop limit d shs

/-- A section in a block of the heap, which is the bottom of this memory -/
def copied (heap file : Mem) (sh : Shdr) : Mem :=
  memcpy heap 0 (bytesAt file sh.shOffset.toNat sh.shSize.toNat)

/-- A file of this size is mapped up to the end of a page. -/
def mappedSize (page size : Nat) : Nat := (size + page - 1) / page * page

/-- `fake_dlopen`, of the text of `/proc/self/maps` and the files that can be read -/
def fakeDlopen (page : Nat) (heap : Mem) (maps : Option (List Char))
    (files : List Char → Option (List (BitVec 8))) (libpath : List Char) : Opened :=
  match maps with
  | none => .null
  | some maps =>
      match (fgetsPieces 256 [] maps).find? (isExecutableOf libpath) with
      | none => .null
      | some buff =>
          match fullPath buff with
          | none => .fault
          | some path =>
              match scanRange buff with
              | none => .null
              | some (loadAddr, endAddr) =>
                  match files path with
                  | none => .null
                  | some bytes =>
                      if bytes.length = 0 then .null
                      else
                        let file := Mem.ofBytes bytes
                        match sectionLoop (mappedSize page bytes.length) ⟨none, none, 0⟩
                          (sectionHeaders file) with
                        | .error opened => opened
                        | .ok ⟨some sym, some str, bias⟩ =>
                            .handle {
                              fullPath := path, loadAddr, endAddr
                              dynstr := copied heap file str
                              dynsym := copied heap file sym
                              nsyms := ((sym.shSize / 24).setWidth 32).toInt
                              bias, fileSize := bytes.length }
                        | .ok _ => .null

/-- The name of a symbol is this one. -/
def ElfInfo.isNamed (info : ElfInfo) (name : CStr) (k : Nat) : Bool :=
  decide (Stored info.dynstr (read32 info.dynsym (24 * k)).toNat (name.bytes ++ [0]))

/-- `fake_dlsym` -/
def fakeDlsym (info : ElfInfo) (name : CStr) : Option (BitVec 64) :=
  ((List.range info.nsyms.toNat).find? (info.isNamed name)).map fun k =>
    info.loadAddr + read64 info.dynsym (24 * k + 8) - info.bias

/-! ## The sections of a library -/

/-- A section is of this type. -/
def Shdr.hasType (type : BitVec 32) (sh : Shdr) : Bool := sh.shType == type

/-- No section of the program comes behind both tables. -/
def PassedOver (d : Dynamic) (pre : List Shdr) : Prop :=
  ∀ before sh behind, pre = before ++ sh :: behind → sh.shType = progbits →
    (d.dynsym = none ∧ ∀ s ∈ before, s.shType ≠ dynsym) ∨
      (d.dynstr = none ∧ ∀ s ∈ before, s.shType ≠ strtab)

/-- The sections of a library, as a linker writes them: one table of symbols, with its
strings in the first table of strings, both before the first section of the program that
comes behind them.  The headers and the tables are in the file. -/
structure LibrarySections (limit : Nat) (shs : List Shdr) (sym str prog : Shdr) : Prop where
  split : ∃ pre post, shs = pre ++ prog :: post ∧ pre.filter (Shdr.hasType dynsym) = [sym] ∧
    pre.find? (Shdr.hasType strtab) = some str ∧ PassedOver ⟨none, none, 0⟩ pre
  prog : prog.shType = progbits
  headers : ∀ sh ∈ shs, sh.place + 64 ≤ limit
  tables : ∀ sh ∈ shs, sh.shType = dynsym ∨ sh.shType = strtab →
    sh.shOffset.toNat + sh.shSize.toNat ≤ limit

section
variable {limit : Nat} {shs pre post : List Shdr} {sym str prog sh : Shdr} {d d' : Dynamic}

theorem hasType_iff {type : BitVec 32} : sh.hasType type = true ↔ sh.shType = type := beq_iff_eq

/-- More of the file may be mapped. -/
theorem LibrarySections.mono (h : LibrarySections limit shs sym str prog) {limit' : Nat}
    (hle : limit ≤ limit') : LibrarySections limit' shs sym str prog :=
  ⟨h.split, h.prog, fun sh hsh => Nat.le_trans (h.headers sh hsh) hle,
    fun sh hsh htype => Nat.le_trans (h.tables sh hsh htype) hle⟩

/-- What is passed over is passed over behind a section, where that sets no table but the
one of its type. -/
theorem PassedOver.tail (h : PassedOver d (sh :: pre))
    (hsym : d.dynsym = none → d'.dynsym = none ∨ sh.shType = dynsym)
    (hstr : d.dynstr = none → d'.dynstr = none ∨ sh.shType = strtab) : PassedOver d' pre := by
  intro before s behind hsplit hprog
  rcases h (sh :: before) s behind (by rw [hsplit]; rfl) hprog with ⟨hno, hall⟩ | ⟨hno, hall⟩
  · exact .inl ⟨(hsym hno).resolve_right (hall sh List.mem_cons_self),
      fun t ht => hall t (List.mem_cons_of_mem _ ht)⟩
  · exact .inr ⟨(hstr hno).resolve_right (hall sh List.mem_cons_self),
      fun t ht => hall t (List.mem_cons_of_mem _ ht)⟩

/-- Sections that are passed over give the tables. -/
theorem sectionLoop_append (hpass : PassedOver d pre)
    (hone : d.dynsym.toList.length + (pre.filter (Shdr.hasType dynsym)).length ≤ 1)
    (hheaders : ∀ sh ∈ pre, sh.place + 64 ≤ limit)
    (htables : ∀ sh ∈ pre, sh.shType = dynsym ∨ sh.shType = strtab → sh.Within limit) :
    sectionLoop limit d (pre ++ post) = sectionLoop limit
      ⟨d.dynsym.or (pre.find? (Shdr.hasType dynsym)),
        d.dynstr.or (pre.find? (Shdr.hasType strtab)), d.bias⟩ post := by
  induction pre generalizing d with
  | nil => rw [List.nil_append, List.find?_nil, List.find?_nil, Option.or_none, Option.or_none]
  | cons sh pre ih =>
      have hsame : PassedOver d pre := hpass.tail .inl .inl
      have hheader := hheaders sh List.mem_cons_self
      have htable := htables sh List.mem_cons_self
      have hin : ¬ limit < sh.place + 8 := by omega
      replace ih := fun {d} hpass hone => @ih d hpass hone
        (fun t ht => hheaders t (List.mem_cons_of_mem _ ht))
        fun t ht => htables t (List.mem_cons_of_mem _ ht)
      rw [List.cons_append, sectionLoop, if_neg hin]
      by_cases hsym : sh.shType = dynsym
      · have htype : sh.hasType dynsym = true := hasType_iff.mpr hsym
        have hstr : sh.hasType strtab = false := by rw [Shdr.hasType, hsym]; rfl
        rw [List.filter_cons_of_pos htype, List.length_cons] at hone
        obtain ⟨s, t, bias⟩ := d
        cases s with
        | some s =>
            rw [Option.toList_some, List.length_singleton] at hone
            omega
        | none =>
            have hnone : ¬ (none : Option Shdr).isSome = true := Bool.false_ne_true
            have htail : PassedOver ⟨some sh, t, bias⟩ pre :=
              hpass.tail (fun _ => .inr hsym) .inl
            rw [Option.toList_none, List.length_nil, Nat.zero_add, Nat.add_comm] at hone
            rw [if_pos hsym, if_neg hnone, if_neg (not_not.mpr (htable (.inl hsym))),
              List.find?_cons_of_pos htype, List.find?_cons_of_neg (Bool.eq_false_iff.mp hstr)]
            exact ih htail hone
      · have hother : ¬ sh.hasType dynsym = true := fun h => hsym (hasType_iff.mp h)
        rw [List.filter_cons_of_neg hother] at hone
        rw [if_neg hsym, List.find?_cons_of_neg hother]
        by_cases hstr : sh.shType = strtab
        · obtain ⟨s, t, bias⟩ := d
          rw [if_pos hstr, List.find?_cons_of_pos (hasType_iff.mpr hstr)]
          cases t with
          | some t => exact ih hsame hone
          | none =>
              have hnone : ¬ (none : Option Shdr).isSome = true := Bool.false_ne_true
              rw [if_neg hnone, if_neg (not_not.mpr (htable (.inr hstr)))]
              exact ih (hpass.tail .inl fun _ => .inr hstr) hone
        · rw [if_neg hstr, List.find?_cons_of_neg fun h => hstr (hasType_iff.mp h)]
          by_cases hprog : sh.shType = progbits
          · have hmiss : (d.dynstr.isNone || d.dynsym.isNone) = true := by
              rcases hpass [] sh pre rfl hprog with ⟨hno, -⟩ | ⟨hno, -⟩
              · rw [hno]
                exact Bool.or_true _
              · rw [hno]
                rfl
            rw [if_pos hprog, if_pos hmiss]
            exact ih hsame hone
          · rw [if_neg hprog]
            exact ih hsame hone

/-- The sections of a library give its tables, and the bias. -/
theorem sectionLoop_library (h : LibrarySections limit shs sym str prog) :
    sectionLoop limit ⟨none, none, 0⟩ shs =
      .ok ⟨some sym, some str, prog.shAddr - prog.shOffset⟩ := by
  obtain ⟨⟨pre, post, rfl, hsym, hstr, hpass⟩, hprog, hheaders, htables⟩ := h
  have hfind : pre.find? (Shdr.hasType dynsym) = some sym := by
    rw [← List.head?_filter, hsym]
    rfl
  have hmem : ∀ sh ∈ pre, sh ∈ pre ++ prog :: post := fun sh hsh => List.mem_append_left _ hsh
  have hlast := hheaders prog (List.mem_append_right _ List.mem_cons_self)
  have hin : ¬ limit < prog.place + 8 := by omega
  have hin' : ¬ limit < prog.place + 32 := by omega
  rw [sectionLoop_append hpass (by rw [hsym]; exact Nat.le_refl _)
    (fun sh hsh => hheaders sh (hmem sh hsh)) fun sh hsh htype =>
      ⟨Nat.le_trans (Nat.add_le_add_left (by decide) _) (hheaders sh (hmem sh hsh)),
        .inr (htables sh (hmem sh hsh) htype)⟩,
    hfind, hstr, sectionLoop, if_neg hin, hprog]
  simp only [if_neg hin']
  rfl

end

/-! ## The symbols of a library -/

section
variable {heap file : Mem} {sh sym str prog : Shdr} {names : List CStr}

/-- Bytes in a section are in its copy. -/
theorem stored_copied (heap : Mem) {a : Nat} {bytes : List (BitVec 8)}
    (h : Stored file (sh.shOffset.toNat + a) bytes) (hin : a + bytes.length ≤ sh.shSize.toNat) :
    Stored (copied heap file sh) a bytes := by
  induction bytes generalizing a with
  | nil => trivial
  | cons b bs ih =>
      rw [List.length_cons] at hin
      have hbyte : copied heap file sh a = file (sh.shOffset.toNat + a) := by
        have hcopy : 0 ≤ a ∧ a < 0 + (bytesAt file sh.shOffset.toNat sh.shSize.toNat).length := by
          rw [length_bytesAt]
          omega
        rw [copied, memcpy, if_pos hcopy, Nat.sub_zero, ofBytes_bytesAt file (by omega)]
      exact ⟨hbyte.trans h.1, ih (by rw [← Nat.add_assoc]; exact h.2) (by omega)⟩

/-- A word in a section reads the same in its copy. -/
theorem readBytes_copied {a n : Nat} (hin : a + n ≤ sh.shSize.toNat) :
    readBytes (copied heap file sh) a n = readBytes file (sh.shOffset.toNat + a) n := by
  have hcopy := readBytes_copy file heap 0 sh.shOffset.toNat hin
  rwa [Nat.zero_add] at hcopy

/-- The offset of a symbol's name in the table of strings -/
def stName (file : Mem) (sym : Shdr) (k : Nat) : Nat :=
  (read32 file (sym.shOffset.toNat + 24 * k)).toNat

/-- The value of a symbol -/
def stValue (file : Mem) (sym : Shdr) (k : Nat) : BitVec 64 :=
  read64 file (sym.shOffset.toNat + (24 * k + 8))

/-- The symbols of a library have these names, which lie in its table of strings. -/
structure LibrarySymbols (file : Mem) (sym str : Shdr) (names : List CStr) : Prop where
  count : sym.shSize.toNat / 24 = names.length
  few : names.length < 2 ^ 31
  stored : ∀ (k : Nat) (name : CStr), names[k]? = some name →
    Stored file (str.shOffset.toNat + stName file sym k) (name.bytes ++ [0]) ∧
      stName file sym k + (name.bytes ++ [0]).length ≤ str.shSize.toNat

/-- An opened library, from its tables -/
structure ElfInfo.HasTables (info : ElfInfo) (heap file : Mem) (sym str : Shdr) : Prop where
  dynsym : info.dynsym = copied heap file sym
  dynstr : info.dynstr = copied heap file str
  nsyms : info.nsyms = ((sym.shSize / 24).setWidth 32).toInt

variable {info : ElfInfo}

theorem LibrarySymbols.nsyms (h : LibrarySymbols file sym str names)
    (ht : info.HasTables heap file sym str) : info.nsyms.toNat = names.length := by
  have hfew := h.few
  have hdiv : (sym.shSize / 24).toNat = names.length := by
    rw [BitVec.toNat_udiv]
    exact h.count
  have hnat : ((sym.shSize / 24).setWidth 32).toNat = names.length := by
    rw [BitVec.toNat_setWidth, hdiv, Nat.mod_eq_of_lt (by omega)]
  rw [ht.nsyms, BitVec.toInt_eq_toNat_of_lt (by rw [hnat]; omega), hnat, Int.toNat_natCast]

/-- A symbol's entry lies in the table. -/
theorem LibrarySymbols.entry_in (h : LibrarySymbols file sym str names) {k : Nat}
    (hk : k < names.length) : 24 * k + 24 ≤ sym.shSize.toNat := by
  have hcount := h.count
  omega

theorem LibrarySymbols.isNamed_iff (h : LibrarySymbols file sym str names)
    (ht : info.HasTables heap file sym str) {k : Nat} (hk : k < names.length) (symbol : CStr) :
    info.isNamed symbol k = true ↔ names[k]? = some symbol := by
  have hin := h.entry_in hk
  obtain ⟨name, hname⟩ : ∃ name, names[k]? = some name := ⟨_, List.getElem?_eq_getElem hk⟩
  obtain ⟨hstored, hinside⟩ := h.stored k name hname
  have hoffset : read32 info.dynsym (24 * k) = read32 file (sym.shOffset.toNat + 24 * k) := by
    rw [ht.dynsym]
    exact readBytes_copied (by omega)
  have hcopied := stored_copied heap hstored hinside
  rw [hname, ElfInfo.isNamed, decide_eq_true_iff, hoffset, ht.dynstr]
  constructor
  · intro hother
    exact congrArg some (CStr.ext (stored_zero_unique name.nonzero symbol.nonzero hcopied hother))
  · intro heq
    cases heq
    exact hcopied

/-- A name that no symbol has is not found. -/
theorem LibrarySymbols.fakeDlsym_none (h : LibrarySymbols file sym str names)
    (ht : info.HasTables heap file sym str) {symbol : CStr} (hno : symbol ∉ names) :
    fakeDlsym info symbol = none := by
  rw [fakeDlsym, Option.map_eq_none_iff, List.find?_eq_none]
  intro k hk hnamed
  rw [List.mem_range, h.nsyms ht] at hk
  exact hno (List.mem_of_getElem? ((h.isNamed_iff ht hk symbol).mp hnamed))

/-- The first symbol of a name is found. -/
theorem LibrarySymbols.fakeDlsym_some (h : LibrarySymbols file sym str names)
    (ht : info.HasTables heap file sym str) {symbol : CStr} {k : Nat}
    (hk : names[k]? = some symbol) (hfirst : ∀ j < k, names[j]? ≠ some symbol) :
    fakeDlsym info symbol = some (info.loadAddr + stValue file sym k - info.bias) := by
  obtain ⟨hlt, -⟩ := List.getElem?_eq_some_iff.mp hk
  have hfind : (List.range info.nsyms.toNat).find? (info.isNamed symbol) = some k := by
    rw [h.nsyms ht, List.find?_range_eq_some]
    refine ⟨(h.isNamed_iff ht hlt symbol).mpr hk, List.mem_range.mpr hlt, fun j hj => ?_⟩
    rw [Bool.not_eq_true']
    exact Bool.eq_false_iff.mpr fun hnamed =>
      hfirst j hj ((h.isNamed_iff ht (by omega) symbol).mp hnamed)
  have hvalue : read64 info.dynsym (24 * k + 8) = stValue file sym k := by
    have hin := h.entry_in hlt
    rw [ht.dynsym]
    exact readBytes_copied (by omega)
  rw [fakeDlsym, hfind, Option.map_some, hvalue]

end

/-! ## The line of a library -/

section
variable {size : Nat} {pre post body maps libpath line : List Char}

/-- A line that fits in the buffer is one piece. -/
theorem fgetsPieces_line (hno : '\n' ∉ body) (post : List Char) (read : List Char)
    (hlen : read.length + body.length + 1 < size) :
    fgetsPieces size read (body ++ '\n' :: post) =
      (read ++ (body ++ ['\n'])) :: fgetsPieces size [] post := by
  induction body generalizing read with
  | nil =>
      rw [List.nil_append, List.nil_append, fgetsPieces, if_pos (.inl rfl)]
  | cons c body ih =>
      rw [List.length_cons] at hlen
      have hne : c ≠ '\n' := fun heq => hno (heq ▸ List.mem_cons_self)
      have hmore : ¬ (c = '\n' ∨ read.length + 2 = size) := by
        rintro (heq | hfull)
        · exact hne heq
        · omega
      rw [List.cons_append, fgetsPieces, if_neg hmore,
        ih (fun hmem => hno (List.mem_cons_of_mem _ hmem)) (read ++ [c])
          (by rw [List.length_append, List.length_singleton]; omega),
        List.append_assoc]
      rfl

/-- Lines are read one after the other. -/
theorem fgetsPieces_append (hend : pre.getLast? = some '\n') (post : List Char)
    (read : List Char) :
    fgetsPieces size read (pre ++ post) =
      fgetsPieces size read pre ++ fgetsPieces size [] post := by
  induction pre generalizing read with
  | nil => cases hend
  | cons c pre ih =>
      rw [List.cons_append, fgetsPieces, fgetsPieces]
      cases pre with
      | nil =>
          cases hend
          rw [if_pos (.inl rfl), if_pos (.inl rfl)]
          rfl
      | cons c' pre =>
          rw [List.getLast?_cons_cons] at hend
          rw [ih hend, ih hend]
          split
          next => rfl
          next => rfl

/-- The first line of `/proc/self/maps` that is an executable mapping of the library, and
fits in the buffer -/
structure ListedAt (maps libpath line : List Char) : Prop where
  split : ∃ pre post, maps = pre ++ (line ++ post) ∧ (pre = [] ∨ pre.getLast? = some '\n') ∧
    ∀ buff ∈ fgetsPieces 256 [] pre, isExecutableOf libpath buff = false
  ends : ∃ body, line = body ++ ['\n'] ∧ '\n' ∉ body
  short : line.length < 256
  executable : isExecutableOf libpath line = true

theorem ListedAt.find (h : ListedAt maps libpath line) :
    (fgetsPieces 256 [] maps).find? (isExecutableOf libpath) = some line := by
  obtain ⟨⟨pre, post, rfl, hstart, hpre⟩, ⟨body, rfl, hno⟩, hshort, hexec⟩ := h
  rw [List.length_append, List.length_singleton] at hshort
  have hpieces : fgetsPieces 256 [] (pre ++ (body ++ ['\n'] ++ post)) =
      fgetsPieces 256 [] pre ++ (body ++ ['\n']) :: fgetsPieces 256 [] post := by
    have hline : fgetsPieces 256 [] (body ++ ['\n'] ++ post) =
        (body ++ ['\n']) :: fgetsPieces 256 [] post := by
      rw [List.append_assoc]
      exact fgetsPieces_line hno post [] (by rw [List.length_nil]; omega)
    rcases hstart with rfl | hend
    · rw [List.nil_append, hline]
      rfl
    · rw [fgetsPieces_append hend, hline]
  rw [hpieces, List.find?_append, List.find?_eq_none.mpr fun buff hbuff => by
    rw [hpre buff hbuff]; exact Bool.false_ne_true, List.find?_cons_of_pos hexec]
  rfl

end

/-! ## Opened libraries -/

section
variable {heap file : Mem} {sym str prog : Shdr} {names : List CStr} {page : Nat}
  {maps libpath line : List Char} {loadAddr : BitVec 64} {bytes : List (BitVec 8)}
  {files : List Char → Option (List (BitVec 8))}

/-- The file of a library that is mapped from here on, with its sections -/
structure LibraryFile (page : Nat) (maps : List Char)
    (files : List Char → Option (List (BitVec 8))) (libpath : List Char) (loadAddr : BitVec 64)
    (bytes : List (BitVec 8)) (sym str prog : Shdr) : Prop where
  listed : ∃ line endAddr path, ListedAt maps libpath line ∧
    scanRange line = some (loadAddr, endAddr) ∧ fullPath line = some path ∧
      files path = some bytes
  nonempty : bytes ≠ []
  sections : LibrarySections bytes.length (sectionHeaders (.ofBytes bytes)) sym str prog

theorem le_mappedSize (hpage : 0 < page) (size : Nat) : size ≤ mappedSize page size := by
  have hlt := Nat.lt_div_mul_add hpage (a := size + page - 1)
  rw [mappedSize]
  omega

/-- A library is opened with its tables. -/
theorem LibraryFile.opens (hpage : 0 < page)
    (h : LibraryFile page maps files libpath loadAddr bytes sym str prog) (heap : Mem) :
    ∃ info, fakeDlopen page heap (some maps) files libpath = .handle info ∧
      info.HasTables heap (.ofBytes bytes) sym str ∧ info.loadAddr = loadAddr ∧
      info.bias = prog.shAddr - prog.shOffset := by
  obtain ⟨line, endAddr, path, hline, hscan, hpath, hfile⟩ := h.listed
  have hsize : bytes.length ≠ 0 := fun hnil => h.nonempty (List.length_eq_zero_iff.mp hnil)
  have hloop := sectionLoop_library (h.sections.mono (le_mappedSize hpage bytes.length))
  unfold fakeDlopen
  simp only [hline.find, hpath, hscan, hfile, if_neg hsize, hloop]
  exact ⟨_, rfl, ⟨rfl, rfl, rfl⟩, rfl, rfl⟩

/-- Of a library whose executable mapping starts `seg` behind its base, the address that
is found for a name is the one of the symbol exactly where the section that the bias is
taken from is linked `seg` behind its place in the file. -/
theorem fakeDlsym_spec {base seg : BitVec 64} (hpage : 0 < page)
    (h : LibraryFile page maps files libpath loadAddr bytes sym str prog)
    (hsyms : LibrarySymbols (.ofBytes bytes) sym str names) (hload : loadAddr = base + seg)
    (heap : Mem) :
    ∃ info, fakeDlopen page heap (some maps) files libpath = .handle info ∧
      ∀ symbol, (symbol ∉ names → fakeDlsym info symbol = none) ∧
        ∀ k, names[k]? = some symbol → (∀ j < k, names[j]? ≠ some symbol) →
          ∃ addr, fakeDlsym info symbol = some addr ∧
            (addr = base + stValue (.ofBytes bytes) sym k ↔
              prog.shAddr - prog.shOffset = seg) := by
  obtain ⟨info, hopen, htables, haddr, hbias⟩ := h.opens hpage heap
  refine ⟨info, hopen, fun symbol => ⟨hsyms.fakeDlsym_none htables, fun k hk hfirst =>
    ⟨_, hsyms.fakeDlsym_some htables hk hfirst, ?_⟩⟩⟩
  rw [haddr, hload, hbias]
  constructor
  · intro heq
    bv_omega
  · rintro rfl
    bv_omega

end

/-! ## A library with its data before its code -/

/-- The words of the file: three sections, the entries of the table of symbols, and a
name -/
def dataFirstWord : Nat → BitVec 64
  | 40 => 64
  | 56 => 0x300400000
  | 64 => 0xb00000000
  | 88 => 256
  | 96 => 24
  | 128 => 0x300000000
  | 152 => 288
  | 160 => 2
  | 192 => 0x100000000
  | 208 => 0x400
  | 216 => 0x400
  | 264 => 0x1800
  | 288 => 0x67
  | _ => 0

/-- A library with one function `g`, where a section of constants lies behind the tables,
and the code is linked a page behind its place in the file -/
def dataFirst : List (BitVec 8) :=
  (List.range 304).map fun a => (dataFirstWord (a / 8 * 8)).extractLsb' (8 * (a % 8)) 8

/-- The table of symbols -/
def dataFirstSym : Shdr := ⟨64, dynsym, 0, 256, 24⟩

/-- The table of strings -/
def dataFirstStr : Shdr := ⟨128, strtab, 0, 288, 2⟩

/-- The constants -/
def dataFirstConst : Shdr := ⟨192, progbits, 0x400, 0x400, 0⟩

/-- The mappings: the code of the library, behind its data -/
def dataFirstMaps : List Char :=
  "00020000-00021000 r--p 00000000 00:00 1 /f\n".toList ++
    "00021000-00022000 r-xp 00000000 00:00 1 /f\n".toList

/-- The name of the function -/
def nameG : CStr := ⟨[0x67], by decide⟩

theorem dataFirst_sections :
    LibrarySections dataFirst.length (sectionHeaders (.ofBytes dataFirst)) dataFirstSym
      dataFirstStr dataFirstConst where
  split := by
    refine ⟨[dataFirstSym, dataFirstStr], [], by decide +kernel, by decide, by decide, ?_⟩
    intro before sh behind hsplit hprog
    have hmem : sh ∈ [dataFirstSym, dataFirstStr] := by
      rw [hsplit]
      exact List.mem_append_right _ List.mem_cons_self
    rcases List.mem_cons.mp hmem with rfl | hmem
    · exact absurd hprog (by decide)
    · rw [List.mem_singleton.mp hmem] at hprog
      exact absurd hprog (by decide)
  prog := rfl
  headers := by decide +kernel
  tables := by decide +kernel

theorem dataFirst_symbols :
    LibrarySymbols (.ofBytes dataFirst) dataFirstSym dataFirstStr [nameG] where
  count := rfl
  few := by decide
  stored := by
    intro k name hname
    cases k with
    | zero =>
        cases hname
        decide +kernel
    | succ k => cases hname

theorem dataFirst_listed : ListedAt dataFirstMaps ['f']
    "00021000-00022000 r-xp 00000000 00:00 1 /f\n".toList where
  split := ⟨"00020000-00021000 r--p 00000000 00:00 1 /f\n".toList, [], rfl, .inr rfl,
    by decide +kernel⟩
  ends := ⟨"00021000-00022000 r-xp 00000000 00:00 1 /f".toList, rfl, by decide⟩
  short := by decide
  executable := by decide +kernel

/-- The address that is found for `g` is not its own. -/
theorem fakeDlsym_spec_dataFirst :
    ∃ info, fakeDlopen 0x1000 (fun _ => 0) (some dataFirstMaps) (fun _ => some dataFirst)
        ['f'] = .handle info ∧
      ∃ addr, fakeDlsym info nameG = some addr ∧
        addr ≠ 0x20000 + stValue (.ofBytes dataFirst) dataFirstSym 0 := by
  have hfile : LibraryFile 0x1000 dataFirstMaps (fun _ => some dataFirst) ['f'] 0x21000 dataFirst
      dataFirstSym dataFirstStr dataFirstConst :=
    ⟨⟨_, 0x22000, ['/', 'f'], dataFirst_listed, by decide +kernel, by decide +kernel, rfl⟩,
      by decide, dataFirst_sections⟩
  have hload : (0x21000 : BitVec 64) = 0x20000 + 0x1000 := rfl
  obtain ⟨info, hopen, hall⟩ :=
    fakeDlsym_spec (by decide) hfile dataFirst_symbols hload fun _ => 0
  obtain ⟨addr, haddr, hiff⟩ := (hall nameG).2 0 rfl fun j hj => absurd hj (Nat.not_lt_zero j)
  exact ⟨info, hopen, addr, haddr, fun heq => absurd (hiff.mp heq) (by decide)⟩

end Dlfc
