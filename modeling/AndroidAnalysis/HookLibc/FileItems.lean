import AndroidAnalysis.HookLibc.MemoryFileReached
import AndroidAnalysis.HookLibc.VirtualHandles

/-!
# The counts of `fread` and `fwrite`

The standard counts what `fread` and `fwrite` transfer in elements, and
`file_hook` returns what its filter returns, which is a number of bytes.  What the
file does not answer goes on to the C library with the address of the object, which is
no `FILE`.
-/

namespace HookLibc

open Cpp Machine Calls Words

/-- Of the bytes that were transferred, the count has all elements that are whole. -/
def CountsItems (size count : Nat) (bytes : Int) (r : Nat) : Prop :=
  r ≤ count ∧ ((r * size : Nat) : Int) ≤ bytes ∧ bytes < ((r + 1) * size : Nat)

/-- A number of bytes counts the elements where they have one byte, or where nothing
was transferred. -/
theorem countsItems_bytes {size count bytes : Nat} (hsize : 1 ≤ size)
    (hbytes : bytes ≤ size * count) :
    CountsItems size count bytes bytes ↔ size = 1 ∨ bytes = 0 := by
  rw [CountsItems, Int.ofNat_le, Int.ofNat_lt]
  constructor
  · rintro ⟨-, hle, -⟩
    rcases Nat.eq_zero_or_pos bytes with hzero | hpos
    · exact .inr hzero
    · have hone : bytes * size ≤ bytes * 1 := by rwa [Nat.mul_one]
      exact .inl (Nat.le_antisymm (Nat.le_of_mul_le_mul_left hone hpos) hsize)
  · rintro (rfl | rfl)
    · rw [Nat.one_mul] at hbytes
      rw [Nat.mul_one, Nat.mul_one]
      exact ⟨hbytes, Nat.le_refl _, Nat.lt_succ_self _⟩
    · rw [Nat.zero_mul, Nat.zero_add, Nat.one_mul]
      exact ⟨Nat.zero_le _, Nat.le_refl _, hsize⟩

namespace MemoryFile

variable {b : Build} {m : MemoryFile} {w buffer : Bytes} {n size count : Nat} {rlen : Int}

/-! ## Bytes -/

/-- A read moves the position by the bytes it returns, and returns no more than it is
asked for. -/
theorem read_moves {r : MemoryFile × Nat × Bytes} (hread : m.read b buffer n true = .ok r) :
    r.1.off = m.off + r.2.1 ∧ r.2.1 ≤ n := by
  obtain ⟨-, rfl⟩ | ⟨hlt, hint, hget⟩ := read_eq_ok.mp hread
  · exact ⟨(Int.add_zero _).symm, Nat.zero_le _⟩
  · obtain ⟨hrlen, -, -, rfl⟩ := get_eq_ok.mp hget
    have hcount := asSize_of_isInt (b := b) hrlen (hint.of_le hrlen (by omega))
    refine ⟨congrArg (m.off + ·) hcount.symm, ?_⟩
    show asSize b (min (m.len - m.off) n) ≤ n
    omega

/-- What `fread` gets is part of what it was to get. -/
theorem fread_bytes_le {r : MemoryFile × Nat × Bytes}
    (hread : m.read b buffer (asSize b (FileHook.rdSize b size count)) true = .ok r) :
    r.2.1 ≤ size * count := by
  obtain ⟨hint, -⟩ := read_count hread
  obtain ⟨-, hle⟩ := read_moves hread
  have hsize := FileHook.rdSize_le b hint size count
  omega

/-- A write moves the position by the bytes it returns, and returns no more than it is
asked for. -/
theorem write_moves {r : MemoryFile × Nat} (hwrite : m.write b w n true = .ok r) :
    r.1.off = m.off + r.2 ∧ r.2 ≤ n := by
  have hmoves {f : MemoryFile} {rlen : Int} (hrlen : f.wlen b n = .ok rlen)
      (hput : f.put b w rlen true = .ok r) : r.1.off = f.off + r.2 ∧ r.2 ≤ n := by
    obtain ⟨-, hclamp⟩ := wlen_eq_ok.mp hrlen
    rw [hclamp] at hput
    obtain ⟨hcount, -, -⟩ := put_count hput (isInt_clamp _ n)
    obtain ⟨-, -, -, hr⟩ := put_eq_ok.mp hput
    have hle := clamp_le b (f.alllen - f.off) n
    have hoff : r.1.off = f.off + clamp b (f.alllen - f.off) n := by rw [hr]; rfl
    exact ⟨by rw [hoff, hcount], by omega⟩
  obtain ⟨rlen, hwlen, ⟨-, hput⟩ | ⟨-, g, rlen', hgrow, hwlen', hput⟩⟩ := write_cases hwrite
  · exact hmoves hwlen hput
  · obtain ⟨-, rfl⟩ := enlarged_of_grow hgrow
    have hgrown := hmoves hwlen' hput
    exact hgrown

/-! ## Inside the buffer -/

/-- A read whose bytes are inside the buffer, or one of none. -/
def ReadInside (m : MemoryFile) (n : Nat) : Prop :=
  m.len ≤ m.off ∨ (IsInt (m.len - m.off) ∧
    (n = 0 ∨ 0 ≤ m.off ∧ m.off + min (m.len - m.off) n ≤ m.shareData.length))

/-- Bytes to be written inside the buffer, or none. -/
def PutInside (m : MemoryFile) (rlen : Int) : Prop :=
  0 ≤ rlen ∧ (rlen = 0 ∨ 0 ≤ m.off ∧ m.off + rlen ≤ m.shareData.length) ∧ IsInt (m.off + rlen)

/-- A write whose bytes are inside the buffer, where there is room, and inside the
larger one where there is none. -/
def WriteInside (b : Build) (m : MemoryFile) (n : Nat) : Prop :=
  IsInt (m.alllen - m.off) ∧
    if 0 < clamp b (m.alllen - m.off) n then m.PutInside (clamp b (m.alllen - m.off) n)
    else m.GrowInside (clamp b (m.alllen - m.off) n) ∧
      IsInt (m.grown b n - m.off) ∧
      (m.enlarged (m.grown b n)).PutInside (clamp b (m.grown b n - m.off) n)

/-- A read returns exactly when it stays inside. -/
theorem Typed.read_ok_iff (ht : m.Typed)
    (hroom : IsInt (m.len - m.off) → min (m.len - m.off) n ≤ buffer.length) :
    (∃ r, m.read b buffer n true = .ok r) ↔ m.ReadInside n := by
  have hnonneg := ht.lenNonneg
  have hoff := ht.off
  have hlen := ht.len
  rw [ReadInside]
  constructor
  · rintro ⟨r, hread⟩
    obtain ⟨hend, -⟩ | ⟨hlt, hint, hget⟩ := read_eq_ok.mp hread
    · exact .inl hend
    · obtain ⟨-, hin, -⟩ := get_eq_ok.mp hget
      exact .inr ⟨hint, by omega⟩
  · intro hinside
    by_cases hend : m.len ≤ m.off
    · exact ⟨_, read_eq_ok.mpr (.inl ⟨hend, rfl⟩)⟩
    · obtain ⟨hint, hin⟩ := hinside.resolve_left hend
      have hbuffer := hroom hint
      have hsum : IsInt (m.off + min (m.len - m.off) n) := by
        rw [IsInt] at hoff hlen ⊢
        omega
      exact ⟨_, read_eq_ok.mpr (.inr ⟨by omega, hint,
        get_eq_ok.mpr ⟨by omega, by omega, fun _ => hsum, rfl⟩⟩)⟩

theorem put_ok_iff (hrlen : rlen ≤ w.length) :
    (∃ r, m.put b w rlen true = .ok r) ↔ m.PutInside rlen := by
  rw [PutInside]
  constructor
  · rintro ⟨r, hput⟩
    obtain ⟨hnonneg, hin, hint, -⟩ := put_eq_ok.mp hput
    exact ⟨hnonneg, by omega, hint⟩
  · rintro ⟨hnonneg, hin, hint⟩
    exact ⟨_, put_eq_ok.mpr ⟨hnonneg, by omega, hint, rfl⟩⟩

/-- A write returns exactly when it stays inside. -/
theorem Typed.write_ok_iff (ht : m.Typed) (hn : n ≤ w.length) :
    (∃ r, m.write b w n true = .ok r) ↔ m.WriteInside b n := by
  have hput {f : MemoryFile} (left : Int) :
      (∃ r, f.put b w (clamp b left n) true = .ok r) ↔ f.PutInside (clamp b left n) :=
    put_ok_iff (Int.le_trans (clamp_le b left n) (Int.ofNat_le.mpr hn))
  rw [WriteInside]
  by_cases hleft : IsInt (m.alllen - m.off)
  case neg =>
    refine iff_of_false ?_ fun hinside => hleft hinside.1
    rintro ⟨r, hwrite⟩
    obtain ⟨rlen, hwlen, -⟩ := bind_eq_ok.mp hwrite
    exact hleft (wlen_eq_ok.mp hwlen).1
  rw [and_iff_right hleft]
  have hwlen : m.wlen b n = .ok (clamp b (m.alllen - m.off) n) := wlen_eq_ok.mpr ⟨hleft, rfl⟩
  split
  next hroom => rw [write_of_room hwlen hroom, hput]
  next hfull =>
    have hrlen : clamp b (m.alllen - m.off) n ≤ 0 := Int.not_lt.mp hfull
    have hgrown := grown_eq hwlen hrlen
    have hgrow {g : MemoryFile} := grow_eq_ok ht.lenNonneg ht.alllenNonneg hrlen (g := g)
    rw [hgrown] at hgrow
    have hwlen' {rlen : Int} : (m.enlarged (m.grown b n)).wlen b n = .ok rlen ↔
        IsInt (m.grown b n - m.off) ∧ rlen = clamp b (m.grown b n - m.off) n := wlen_eq_ok
    rw [write_of_full hwlen hrlen]
    constructor
    · rintro ⟨r, hwrite⟩
      obtain ⟨g, hg, hwrite⟩ := bind_eq_ok.mp hwrite
      obtain ⟨hinside, rfl⟩ := hgrow.mp hg
      obtain ⟨rlen, hfound, hwrite⟩ := bind_eq_ok.mp hwrite
      obtain ⟨hint, hclamp⟩ := hwlen'.mp hfound
      rw [hclamp] at hwrite
      exact ⟨hinside, hint, (hput _).mp ⟨r, hwrite⟩⟩
    · rintro ⟨hinside, hint, hinside'⟩
      obtain ⟨r, hr⟩ := (hput _).mpr hinside'
      refine ⟨r, ?_⟩
      rw [hgrow.mpr ⟨hinside, rfl⟩, ok_bind, hwlen'.mpr ⟨hint, rfl⟩, ok_bind, hr]

/-! ## Methods -/

variable {fp : Handle}

/-- `fread` counts elements where its read gets bytes, and elements have one. -/
theorem fread_counts_iff (hsize : 1 ≤ size) :
    ((FileHook.fread b (memoryFile b) m buffer size count fp).Meets (libcElsewhere fp) fun r =>
        CountsItems size count (r.1.off - m.off) r.2.1) ↔
      ∃ r, m.read b buffer (asSize b (FileHook.rdSize b size count)) true = .ok r ∧
        size = 1 ∧ r.2.1 ≠ 0 := by
  rw [FileHook.fread, memoryFile_beforeRead_read, meets_bind, meets_ofExcept_strict fun _ => id]
  refine exists_congr fun r => and_congr_right fun hread => ?_
  obtain ⟨hint, -⟩ := read_count hread
  obtain ⟨hoff, -⟩ := read_moves hread
  have hbytes : r.1.off - m.off = r.2.1 := by omega
  rw [asInt_of_isInt hint]
  by_cases hzero : r.2.1 = 0
  · rw [if_neg (not_not.mpr (Int.natCast_eq_zero.mpr hzero))]
    exact iff_of_false (fun hmeets => hmeets.1 rfl) fun hsome => hsome.2 hzero
  · rw [if_pos (Int.natCast_ne_zero.mpr hzero), and_iff_left hzero]
    show CountsItems size count (r.1.off - m.off) (asSize b (r.2.1 : Int)) ↔ _
    rw [asSize_natCast hint, hbytes, countsItems_bytes hsize (fread_bytes_le hread),
      or_iff_left hzero]

/-- `fwrite` counts elements where its write accepts bytes, and elements have one. -/
theorem fwrite_counts_iff (hsize : 1 ≤ size) (hrep : size * count < b.words)
    (owned : size * count ≤ buffer.length) :
    ((FileHook.fwrite b (memoryFile b) m buffer size count owned fp).Meets (libcElsewhere fp)
        fun r => CountsItems size count (r.1.off - m.off) r.2) ↔
      ∃ r, m.write b buffer (size * count) true = .ok r ∧ size = 1 ∧ r.2 ≠ 0 := by
  have hwt : FileHook.wtSize b size count = size * count :=
    Int.ofNat_inj.mp (asSize_of_lt (Int.natCast_nonneg _) (Int.ofNat_lt.mpr hrep))
  have hsame : m.write b buffer (FileHook.wtSize b size count) true =
      m.write b buffer (size * count) true := by rw [hwt]
  show ((ofExcept (m.write b buffer (FileHook.wtSize b size count) true) >>= _ :
    Prog _).Meets (libcElsewhere fp) _) ↔ _
  rw [hsame, meets_bind, meets_ofExcept_strict fun _ => id]
  refine exists_congr fun r => and_congr_right fun hwrite => ?_
  obtain ⟨hoff, hle⟩ := write_moves hwrite
  have hbytes : r.1.off - m.off = r.2 := by omega
  by_cases hzero : r.2 = 0
  · rw [if_neg (not_not.mpr hzero)]
    exact iff_of_false (fun hmeets => hmeets.1 rfl) fun hsome => hsome.2 hzero
  · rw [if_pos hzero, and_iff_left hzero]
    show CountsItems size count (r.1.off - m.off) r.2 ↔ _
    rw [hbytes, countsItems_bytes hsize hle, or_iff_left hzero]

end MemoryFile

/-! ## Hooks -/

/-- The `memory_file` that the hooks have under a handle. -/
def FileUnder {U : UserFilters} (fp : Handle) (st : Hooks U) (m : MemoryFile) : Prop :=
  ∃ p, st.gHook fp = some p ∧ p.callBack = ⟨.memoryFile, m⟩

theorem fileUnder_setCallBack {U : UserFilters} {fp : Handle} {st : Hooks U}
    {p : BaseHookHandle U} {m m' : MemoryFile} :
    FileUnder fp (st.setCallBack fp p ⟨.memoryFile, m⟩) m' ↔ m' = m := by
  constructor
  · rintro ⟨p', hentry, hp'⟩
    cases (Function.update_self fp _ st.gHook).symm.trans hentry
    cases hp'
    rfl
  · rintro rfl
    exact ⟨_, Function.update_self .., rfl⟩

/-- A transfer between a buffer and a file. -/
inductive Transfer
  | fread
  | fwrite

namespace Transfer

section
variable {U : UserFilters} (b : Build) (st : Hooks U) (fp : Handle) (m : MemoryFile)
  (buffer : Bytes) (size count : Nat) (owned : size * count ≤ buffer.length)

/-- The hooked call, with its count. -/
def call : Transfer → Prog (Hooks U × Nat)
  | .fread => do
      let r ← hookFread b st buffer size count fp
      .ret (r.1, r.2.1)
  | .fwrite => hookFwrite b st buffer size count owned fp

/-- The count is that of the elements, where the bytes are those that the position of
the file has moved over.  The C library does not get the handle. -/
def ReportsItems (t : Transfer) : Prop :=
  (t.call b st fp buffer size count owned).Meets (libcElsewhere fp) fun r =>
    ∃ m', FileUnder fp r.1 m' ∧ CountsItems size count (m'.off - m.off) r.2

/-- The transfer stays inside the buffer of the file, its elements have one byte, and
the file answers it. -/
def Fits : Transfer → Prop
  | .fread =>
      m.ReadInside (asSize b (FileHook.rdSize b size count)) ∧ size = 1 ∧
        m.ReadAnswers (asSize b (FileHook.rdSize b size count))
  | .fwrite =>
      m.WriteInside b (size * count) ∧ size = 1 ∧ m.WriteAnswers b (size * count)

end

variable {U : UserFilters} {b : Build} {st : Hooks U} {fp : Handle} {m : MemoryFile}
  {buffer : Bytes} {size count : Nat}

/-- What the hooks leave is what the method leaves. -/
theorem counts_under_iff {p : BaseHookHandle U} {r : Nat} {m' : MemoryFile} :
    (∃ m₁, FileUnder fp (st.setCallBack fp p ⟨.memoryFile, m'⟩) m₁ ∧
      CountsItems size count (m₁.off - m.off) r) ↔ CountsItems size count (m'.off - m.off) r := by
  simp only [fileUnder_setCallBack, exists_eq_left]

theorem fread_reportsItems_iff (ht : m.Typed) (hst : FileUnder fp st m) (hsize : 1 ≤ size)
    (owned : size * count ≤ buffer.length) :
    ReportsItems b st fp m buffer size count owned .fread ↔ Fits b m size count .fread := by
  obtain ⟨p, hentry, hp⟩ := hst
  have hroom (hint : IsInt (m.len - m.off)) :
      min (m.len - m.off) (asSize b (FileHook.rdSize b size count)) ≤ buffer.length :=
    Int.le_trans (FileHook.rdSize_le b hint size count) (Int.ofNat_le.mpr owned)
  rw [ReportsItems, call, hookFread, onHooked_eq hentry hp, meets_bind, meets_bind]
  simp only [meets_ret, counts_under_iff]
  rw [MemoryFile.fread_counts_iff hsize, Fits, ← ht.read_ok_iff hroom]
  constructor
  · rintro ⟨r, hread, hone, hsome⟩
    exact ⟨⟨r, hread⟩, hone, (MemoryFile.read_count hread).2.mp hsome⟩
  · rintro ⟨⟨r, hread⟩, hone, hanswers⟩
    exact ⟨r, hread, hone, (MemoryFile.read_count hread).2.mpr hanswers⟩

theorem fwrite_reportsItems_iff (ht : m.Typed) (hst : FileUnder fp st m) (hsize : 1 ≤ size)
    (hrep : size * count < b.words) (owned : size * count ≤ buffer.length) :
    ReportsItems b st fp m buffer size count owned .fwrite ↔ Fits b m size count .fwrite := by
  obtain ⟨p, hentry, hp⟩ := hst
  rw [ReportsItems, call, hookFwrite, onHooked_eq hentry hp, meets_bind]
  simp only [meets_ret, counts_under_iff]
  rw [MemoryFile.fwrite_counts_iff hsize hrep owned, Fits, ← ht.write_ok_iff owned]
  have hanswers {r : MemoryFile × Nat} (hwrite : m.write b buffer (size * count) true = .ok r) :
      r.2 ≠ 0 ↔ m.WriteAnswers b (size * count) :=
    (MemoryFile.write_count ht.alllenNonneg hwrite).2.1
  constructor
  · rintro ⟨r, hwrite, hone, hsome⟩
    exact ⟨⟨r, hwrite⟩, hone, (hanswers hwrite).mp hsome⟩
  · rintro ⟨⟨r, hwrite⟩, hone, hanswered⟩
    exact ⟨r, hwrite, hone, (hanswers hwrite).mpr hanswered⟩

/-- The hook reports items exactly when the transfer fits the file. -/
theorem reportsItems_iff (t : Transfer) (hreached : m.Reached b) (hst : FileUnder fp st m)
    (hsize : 1 ≤ size) (hrep : size * count < b.words)
    (owned : size * count ≤ buffer.length) :
    t.ReportsItems b st fp m buffer size count owned ↔ t.Fits b m size count := by
  cases t with
  | fread => exact fread_reportsItems_iff hreached.typed hst hsize owned
  | fwrite => exact fwrite_reportsItems_iff hreached.typed hst hsize hrep owned

/-- The line, opened under its address. -/
def lineOpened : Hooks noUserFilters :=
  ⟨[], StdMap.empty.insert 4096 ⟨0, [], ⟨.memoryFile, line⟩⟩⟩

theorem line_reached : line.Reached .arm64 :=
  ⟨4096, 65555, .copying [97, 98, 10] 3, [], line, ⟨by decide, by decide⟩, rfl, rfl⟩

theorem lineOpened_under : FileUnder 4096 lineOpened line := ⟨_, rfl, rfl⟩

/-- Three elements of one byte are read as three. -/
theorem fread_three_bytes :
    ReportsItems .arm64 lineOpened 4096 line [0, 0, 0] 1 3 (Nat.le_refl 3) .fread := by
  have hsize : asSize .arm64 (FileHook.rdSize .arm64 1 3) = 3 := by decide
  have hinside : line.ReadInside 3 := .inr ⟨by decide, .inr (by decide)⟩
  have howned : 1 * 3 ≤ ([0, 0, 0] : Bytes).length := Nat.le_refl 3
  refine (reportsItems_iff .fread line_reached lineOpened_under (by decide) (by decide)
    howned).mpr ?_
  rw [Fits, hsize]
  exact ⟨hinside, rfl, by decide, by decide⟩

/-- One element of three bytes is read as three. -/
theorem fread_one_item : line.Reached .arm64 ∧ FileUnder 4096 lineOpened line ∧
    ¬ ReportsItems .arm64 lineOpened 4096 line [0, 0, 0] 3 1 (Nat.le_refl 3) .fread := by
  refine ⟨line_reached, lineOpened_under, fun hreports => ?_⟩
  have howned : 3 * 1 ≤ ([0, 0, 0] : Bytes).length := Nat.le_refl 3
  have hfits : Fits .arm64 line 3 1 .fread :=
    (fread_reportsItems_iff line_reached.typed lineOpened_under (by decide) howned).mp hreports
  exact absurd hfits.2.1 (by decide)

end Transfer

end HookLibc
