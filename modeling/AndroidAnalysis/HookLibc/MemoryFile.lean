import AndroidAnalysis.HookLibc.Filter

/-!
# `hook_libc/memory_file.h`

`memory_file` is a file whose bytes are in a buffer: `alllen` is the capacity it
takes the buffer to have, `len` the length of the content, and `off` the position.
All three are an `int`, and the sizes they are compared with are a `size_t`.
-/

namespace HookLibc

open Cpp Words

/-- `memory_file`, where `this` is its address and `fd` the number that
`require_fd` gives it. -/
structure MemoryFile where
  this : Handle
  fd : Int
  path : Str
  alllen : Int
  len : Int
  off : Int
  shareData : Bytes

namespace MemoryFile

/-! ## Constructors -/

variable (this : Handle) (fd : Int)

/-- `memory_file(const char *data, int len)`, which copies. -/
def copying (data : Bytes) (len : Int) : Except Fault MemoryFile := do
  let alllen ← intResult ((3 * len).tdiv 2)
  let buf ← newChars alllen
  let bytes ← load data 0 len
  let buf ← store buf 0 bytes
  .ok ⟨this, fd, [], alllen, len, 0, buf⟩

/-- `memory_file(char *&&data, int len)`, which takes the buffer. -/
def moving (data : Bytes) (len : Int) : Except Fault MemoryFile := do
  let alllen ← intResult ((3 * len).tdiv 2)
  .ok ⟨this, fd, [], alllen, len, 0, data⟩

/-- `memory_file()`. -/
def empty : Except Fault MemoryFile := do
  let buf ← newChars (1024 * 2)
  .ok ⟨this, fd, [], 1024 * 2, 0, 0, buf⟩

/-! ## Contents -/

variable (b : Build) (m : MemoryFile)

/-- The file at another position. -/
def setOff (off : Int) : MemoryFile := { m with off := off }

@[simp] theorem setOff_off (off : Int) : (m.setOff off).off = off := rfl

/-- `left > size ? size : left`, by which an `int` and a `size_t` are compared as a
`size_t`. -/
def clamp (left : Int) (size : Nat) : Int :=
  asInt (if asSize b left > size then size else asSize b left : Nat)

/-- What `memory_file::read` does with its `rlen`. -/
def get (buffer : Bytes) (rlen : Int) (update : Bool) : Except Fault (MemoryFile × Nat × Bytes) := do
  let bytes ← load m.shareData m.off rlen
  let buffer ← store buffer 0 bytes
  let off ← (if update then intResult (m.off + rlen) else .ok m.off)
  .ok (m.setOff off, asSize b rlen, buffer)

/-- `memory_file::read`. -/
def read (buffer : Bytes) (rsize : Nat) (update : Bool) :
    Except Fault (MemoryFile × Nat × Bytes) :=
  if m.off ≥ m.len then .ok (m, 0, buffer)
  else do
    let left ← intResult (m.len - m.off)
    m.get b buffer (clamp b left rsize) update

/-- `rlen` of `memory_file::write`. -/
def wlen (wsize : Nat) : Except Fault Int := do
  let left ← intResult (m.alllen - m.off)
  .ok (clamp b left wsize)

/-- The new buffer of `memory_file::write`. -/
def grow (rlen : Int) : Except Fault MemoryFile := do
  let room ← intResult (m.alllen - rlen)
  let alllen ← intResult ((2 * room + m.alllen).tdiv 2)
  let nbuf ← newChars alllen
  let bytes ← load m.shareData 0 m.len
  let nbuf ← store nbuf 0 bytes
  .ok { m with alllen := alllen, shareData := nbuf }

/-- What `memory_file::write` does when it has its room. -/
def put (buffer : Bytes) (rlen : Int) (update : Bool) : Except Fault (MemoryFile × Nat) := do
  let bytes ← load buffer 0 rlen
  let data ← store m.shareData m.off bytes
  let off ← (if update then intResult (m.off + rlen) else .ok m.off)
  .ok ({ m with shareData := data, off := off, len := if off ≥ m.len then off else m.len },
    asSize b rlen)

/-- `memory_file::write`. -/
def write (buffer : Bytes) (wsize : Nat) (update : Bool) : Except Fault (MemoryFile × Nat) := do
  let rlen ← m.wlen b wsize
  if rlen ≤ 0 then do
    let m ← m.grow rlen
    let rlen ← m.wlen b wsize
    m.put b buffer rlen update
  else m.put b buffer rlen update

/-- The loop of `memory_file::fgets` over the bytes from `off + rlen` on. -/
def scanLine (off : Int) : Bytes → Int → Except Fault Int
  | [], _ => .error .undefined
  | c :: rest, rlen => do
      let _ ← intResult (off + rlen)
      if c = 10 then .ok rlen
      else do
        let rlen ← intResult (rlen + 1)
        scanLine off rest rlen

/-- `memory_file::fgets`, which hands the position to `read` as its `update`. -/
def fgets (buffer : Bytes) (maxCount : Int) : Except Fault (MemoryFile × Nat × Bytes) :=
  if m.off ≥ m.len then .ok (m, 0, buffer)
  else if m.off < 0 then .error .undefined
  else do
    let line ← scanLine m.off (m.shareData.drop m.off.toNat) 0
    let rlen ← .ok (if line > maxCount then maxCount else line)
    let r ← m.read b buffer (asSize b rlen) (m.off ≠ 0)
    .ok (r.1, asSize b rlen, r.2.2)

/-! ## When they return -/

variable {b : Build} {m : MemoryFile} {buffer : Bytes} {rlen : Int}

/-- A distance that is not negative is compared as it is. -/
theorem clamp_eq {left : Int} (h : 0 ≤ left) (hleft : IsInt left) (size : Nat) :
    clamp b left size = min left size := by
  have hsize := asSize_of_isInt (b := b) h hleft
  rw [clamp]
  split
  next hlt =>
    rw [asInt_of_isInt (hleft.of_le (by omega) (by omega))]
    omega
  next hle =>
    rw [hsize, asInt_of_isInt hleft]
    omega

/-- The bytes at the position. -/
def bytes (m : MemoryFile) (rlen : Int) : Bytes := (m.shareData.drop m.off.toNat).take rlen.toNat

/-- The file with other bytes at the position, and the position behind them. -/
def written (m : MemoryFile) (buffer : Bytes) (rlen : Int) : MemoryFile :=
  { m with
    shareData := overwrite m.shareData m.off.toNat (buffer.take rlen.toNat)
    off := m.off + rlen
    len := if m.off + rlen ≥ m.len then m.off + rlen else m.len }

/-- The file in a new buffer. -/
def enlarged (m : MemoryFile) (alllen : Int) : MemoryFile :=
  { m with
    alllen := alllen
    shareData := overwrite (List.replicate alllen.toNat 0) 0 (m.shareData.take m.len.toNat) }

theorem get_eq_ok {update : Bool} {r : MemoryFile × Nat × Bytes} :
    m.get b buffer rlen update = .ok r ↔
      0 ≤ rlen ∧ (rlen = 0 ∨ 0 ≤ m.off ∧ m.off + rlen ≤ m.shareData.length ∧
        rlen ≤ buffer.length) ∧ (update = true → IsInt (m.off + rlen)) ∧
      r = (m.setOff (if update then m.off + rlen else m.off), asSize b rlen,
        overwrite buffer 0 (m.bytes rlen)) := by
  rw [get]
  constructor
  · intro h
    obtain ⟨bytes, hload, h⟩ := bind_eq_ok.mp h
    obtain ⟨buffer', hstore, h⟩ := bind_eq_ok.mp h
    obtain ⟨off, hoff, h⟩ := bind_eq_ok.mp h
    have hlength := length_of_load hload
    obtain ⟨hn, hin, rfl⟩ := load_eq_ok.mp hload
    obtain ⟨hroom, rfl⟩ := store_eq_ok.mp hstore
    cases h
    refine ⟨hn, by omega, ?_⟩
    cases update with
    | false =>
        cases hoff
        exact ⟨nofun, rfl⟩
    | true =>
        obtain ⟨hint, rfl⟩ := intResult_eq_ok.mp hoff
        exact ⟨fun _ => hint, rfl⟩
  · rintro ⟨hn, hin, hint, rfl⟩
    have hload : load m.shareData m.off rlen = .ok (m.bytes rlen) :=
      load_eq_ok.mpr ⟨hn, by omega, rfl⟩
    have hlength := length_of_load hload
    have hstore : store buffer 0 (m.bytes rlen) = .ok (overwrite buffer 0 (m.bytes rlen)) :=
      store_eq_ok.mpr ⟨by omega, rfl⟩
    rw [hload, ok_bind, hstore, ok_bind]
    cases update with
    | false => rfl
    | true => rw [if_pos rfl, intResult_of_isInt (hint rfl)]; rfl

theorem put_eq_ok {r : MemoryFile × Nat} :
    m.put b buffer rlen true = .ok r ↔
      0 ≤ rlen ∧ (rlen = 0 ∨ 0 ≤ m.off ∧ m.off + rlen ≤ m.shareData.length ∧
        rlen ≤ buffer.length) ∧ IsInt (m.off + rlen) ∧
      r = (m.written buffer rlen, asSize b rlen) := by
  rw [put]
  constructor
  · intro h
    obtain ⟨bytes, hload, h⟩ := bind_eq_ok.mp h
    obtain ⟨data, hstore, h⟩ := bind_eq_ok.mp h
    obtain ⟨off, hoff, h⟩ := bind_eq_ok.mp h
    have hlength := length_of_load hload
    obtain ⟨hn, hin, rfl⟩ := load_eq_ok.mp hload
    obtain ⟨hroom, rfl⟩ := store_eq_ok.mp hstore
    obtain ⟨hint, rfl⟩ := intResult_eq_ok.mp hoff
    cases h
    exact ⟨hn, by omega, hint, rfl⟩
  · rintro ⟨hn, hin, hint, rfl⟩
    have hload : load buffer 0 rlen = .ok (buffer.take rlen.toNat) :=
      load_eq_ok.mpr ⟨hn, by omega, rfl⟩
    have hlength := length_of_load hload
    have hstore : store m.shareData m.off (buffer.take rlen.toNat) =
        .ok (overwrite m.shareData m.off.toNat (buffer.take rlen.toNat)) :=
      store_eq_ok.mpr ⟨by omega, rfl⟩
    rw [hload, ok_bind, hstore, ok_bind, if_pos rfl, intResult_of_isInt hint]
    rfl

/-- Bytes put inside the buffer keep its length. -/
theorem length_written (hrlen : 0 ≤ rlen) (hin : rlen = 0 ∨ 0 ≤ m.off ∧
    m.off + rlen ≤ m.shareData.length ∧ rlen ≤ buffer.length) :
    (m.written buffer rlen).shareData.length = m.shareData.length := by
  rw [written]
  rcases hin with rfl | hin
  · rw [Int.toNat_zero, List.take_zero, overwrite_nil]
  · exact length_overwrite_of_le (by rw [List.length_take]; omega)

/-! ## What they go through -/

variable {w : Bytes} {n : Nat} {update : Bool}

/-- What is only done in front of the end of the content. -/
theorem atEnd_eq_ok {x : Except Fault (MemoryFile × Nat × Bytes)} {r : MemoryFile × Nat × Bytes} :
    (if m.off ≥ m.len then .ok (m, 0, buffer) else x) = .ok r ↔
      (m.len ≤ m.off ∧ r = (m, 0, buffer)) ∨ (m.off < m.len ∧ x = .ok r) := by
  by_cases hend : m.off ≥ m.len
  · rw [if_pos hend, and_iff_right hend, or_iff_left fun hlt => absurd hend (Int.not_le.mpr hlt.1),
      Except.ok.injEq]
    exact eq_comm
  · rw [if_neg hend, and_iff_right (Int.not_le.mp hend), or_iff_right fun hle => hend hle.1]

/-- A read is at the end of the content, or takes what is left of it. -/
theorem read_eq_ok {r : MemoryFile × Nat × Bytes} :
    m.read b buffer n update = .ok r ↔
      (m.len ≤ m.off ∧ r = (m, 0, buffer)) ∨
        (m.off < m.len ∧ IsInt (m.len - m.off) ∧
          m.get b buffer (min (m.len - m.off) n) update = .ok r) := by
  rw [read, atEnd_eq_ok]
  refine or_congr_right (and_congr_right fun hlt => ?_)
  constructor
  · intro h
    obtain ⟨left, hleft, hget⟩ := bind_eq_ok.mp h
    obtain ⟨hint, rfl⟩ := intResult_eq_ok.mp hleft
    rw [clamp_eq (by omega) hint] at hget
    exact ⟨hint, hget⟩
  · rintro ⟨hint, hget⟩
    rw [intResult_of_isInt hint, ok_bind, clamp_eq (by omega) hint, hget]

theorem write_of_room (hwlen : m.wlen b n = .ok rlen) (hrlen : 0 < rlen) :
    m.write b w n update = m.put b w rlen update := by
  rw [write, hwlen, ok_bind, if_neg (Int.not_le.mpr hrlen)]

theorem write_of_full (hwlen : m.wlen b n = .ok rlen) (hrlen : rlen ≤ 0) :
    m.write b w n update =
      (m.grow rlen >>= fun g => g.wlen b n >>= fun rlen => g.put b w rlen update) := by
  rw [write, hwlen, ok_bind, if_pos hrlen]

/-- A write has found room, or has made some. -/
theorem write_cases {r : MemoryFile × Nat} (h : m.write b w n update = .ok r) :
    ∃ rlen, m.wlen b n = .ok rlen ∧
      ((0 < rlen ∧ m.put b w rlen update = .ok r) ∨
        (rlen ≤ 0 ∧ ∃ g rlen', m.grow rlen = .ok g ∧ g.wlen b n = .ok rlen' ∧
          g.put b w rlen' update = .ok r)) := by
  obtain ⟨rlen, hwlen, -⟩ := bind_eq_ok.mp h
  refine ⟨rlen, hwlen, ?_⟩
  by_cases hrlen : rlen ≤ 0
  · rw [write_of_full hwlen hrlen] at h
    obtain ⟨g, hgrow, h⟩ := bind_eq_ok.mp h
    obtain ⟨rlen', hwlen', hput⟩ := bind_eq_ok.mp h
    exact .inr ⟨hrlen, g, rlen', hgrow, hwlen', hput⟩
  · rw [write_of_room hwlen (by omega)] at h
    exact .inl ⟨by omega, h⟩

/-- `fgets` is at the end of the content, or reads up to the newline or the count. -/
theorem fgets_eq_ok {maxCount : Int} {r : MemoryFile × Nat × Bytes} :
    m.fgets b buffer maxCount = .ok r ↔
      (m.len ≤ m.off ∧ r = (m, 0, buffer)) ∨
        (m.off < m.len ∧ 0 ≤ m.off ∧
          ∃ line r', scanLine m.off (m.shareData.drop m.off.toNat) 0 = .ok line ∧
            m.read b buffer (asSize b (if line > maxCount then maxCount else line)) (m.off ≠ 0) =
              .ok r' ∧
            r = (r'.1, asSize b (if line > maxCount then maxCount else line), r'.2.2)) := by
  rw [fgets, atEnd_eq_ok]
  refine or_congr_right (and_congr_right fun hlt => ?_)
  by_cases hoff : m.off < 0
  · rw [if_pos hoff]
    exact iff_of_false nofun fun hin => absurd hoff (Int.not_lt.mpr hin.1)
  rw [if_neg hoff, and_iff_right (Int.not_lt.mp hoff)]
  constructor
  · intro h
    obtain ⟨line, hline, h⟩ := bind_eq_ok.mp h
    obtain ⟨rlen, hrlen, h⟩ := bind_eq_ok.mp h
    cases hrlen
    obtain ⟨r', hread, h⟩ := bind_eq_ok.mp h
    cases h
    exact ⟨line, r', hline, hread, rfl⟩
  · rintro ⟨line, r', hline, hread, rfl⟩
    rw [hline, ok_bind, ok_bind, hread]
    rfl

theorem enlarged_of_grow {g : MemoryFile} (h : m.grow rlen = .ok g) :
    IsInt ((2 * (m.alllen - rlen) + m.alllen).tdiv 2) ∧
      g = m.enlarged ((2 * (m.alllen - rlen) + m.alllen).tdiv 2) := by
  obtain ⟨room, hroom, h⟩ := bind_eq_ok.mp h
  obtain ⟨-, rfl⟩ := intResult_eq_ok.mp hroom
  obtain ⟨alllen, halllen, h⟩ := bind_eq_ok.mp h
  obtain ⟨hint, rfl⟩ := intResult_eq_ok.mp halllen
  obtain ⟨nbuf, hnbuf, h⟩ := bind_eq_ok.mp h
  obtain ⟨-, rfl⟩ := newChars_eq_ok.mp hnbuf
  obtain ⟨bytes, hload, h⟩ := bind_eq_ok.mp h
  obtain ⟨-, -, rfl⟩ := load_eq_ok.mp hload
  obtain ⟨nbuf, hstore, h⟩ := bind_eq_ok.mp h
  obtain ⟨-, rfl⟩ := store_eq_ok.mp hstore
  cases h
  exact ⟨hint, rfl⟩

/-- The capacity grows by half, and by what it falls short. -/
theorem half_again (halllen : 0 ≤ m.alllen) (hrlen : rlen ≤ 0) :
    (2 * (m.alllen - rlen) + m.alllen).tdiv 2 = m.alllen - rlen + m.alllen / 2 := by
  rw [Int.tdiv_eq_ediv_of_nonneg (by omega)]
  omega

/-- The new buffer has the new capacity. -/
theorem length_enlarged {alllen : Int} (hlen : 0 ≤ m.len) (hle : m.len ≤ alllen) :
    ((m.enlarged alllen).shareData.length : Int) = alllen := by
  have hfront : (m.shareData.take m.len.toNat).length ≤ m.len.toNat := List.length_take_le ..
  rw [enlarged, length_overwrite_of_le (by rw [List.length_replicate]; omega),
    List.length_replicate]
  omega

/-- A new buffer that has room for the content. -/
def GrowInside (m : MemoryFile) (rlen : Int) : Prop :=
  IsInt (m.alllen - rlen) ∧ IsInt (m.alllen - rlen + m.alllen / 2) ∧
    m.len ≤ m.shareData.length ∧ m.len ≤ m.alllen - rlen + m.alllen / 2

/-- Growing returns where the content is inside both buffers. -/
theorem grow_eq_ok (hlen : 0 ≤ m.len) (halllen : 0 ≤ m.alllen) (hrlen : rlen ≤ 0)
    {g : MemoryFile} :
    m.grow rlen = .ok g ↔
      m.GrowInside rlen ∧ g = m.enlarged (m.alllen - rlen + m.alllen / 2) := by
  have hhalf := half_again halllen hrlen
  constructor
  · intro hgrow
    obtain ⟨hint, hg⟩ := enlarged_of_grow hgrow
    obtain ⟨room, hroom, hgrow⟩ := bind_eq_ok.mp hgrow
    obtain ⟨hrint, rfl⟩ := intResult_eq_ok.mp hroom
    obtain ⟨alllen, halllen, hgrow⟩ := bind_eq_ok.mp hgrow
    obtain ⟨-, rfl⟩ := intResult_eq_ok.mp halllen
    obtain ⟨nbuf, hnbuf, hgrow⟩ := bind_eq_ok.mp hgrow
    obtain ⟨-, rfl⟩ := newChars_eq_ok.mp hnbuf
    obtain ⟨bytes, hload, hgrow⟩ := bind_eq_ok.mp hgrow
    have hlength := length_of_load hload
    obtain ⟨-, hin, rfl⟩ := load_eq_ok.mp hload
    obtain ⟨nbuf, hstore, -⟩ := bind_eq_ok.mp hgrow
    obtain ⟨hstored, -⟩ := store_eq_ok.mp hstore
    rw [List.length_replicate, hhalf] at hstored
    rw [hhalf] at hint hg
    exact ⟨⟨hrint, hint, by omega, by omega⟩, hg⟩
  · rintro ⟨⟨hrint, hint, hload, hstore⟩, rfl⟩
    have hbytes : load m.shareData 0 m.len = .ok (m.shareData.take m.len.toNat) :=
      load_eq_ok.mpr ⟨hlen, by omega, rfl⟩
    have hlength := length_of_load hbytes
    have hstored : store (List.replicate (m.alllen - rlen + m.alllen / 2).toNat 0) 0
        (m.shareData.take m.len.toNat) =
          .ok (m.enlarged (m.alllen - rlen + m.alllen / 2)).shareData :=
      store_eq_ok.mpr ⟨.inr ⟨Int.le_refl 0, by rw [List.length_replicate]; omega⟩, rfl⟩
    rw [grow, intResult_of_isInt hrint, ok_bind, hhalf, intResult_of_isInt hint, ok_bind,
      newChars_eq_ok.mpr ⟨by omega, rfl⟩, ok_bind, hbytes, ok_bind, hstored]
    rfl

/-- The lengths of a file are those of its buffer. -/
structure Sound (m : MemoryFile) : Prop where
  lenNonneg : 0 ≤ m.len
  len : m.len ≤ m.alllen
  capacity : m.alllen ≤ m.shareData.length
  alllenInt : IsInt m.alllen
  offInt : IsInt m.off

theorem Sound.grow_eq_ok (h : m.Sound) (hrlen : rlen ≤ 0) {g : MemoryFile} :
    m.grow rlen = .ok g ↔ IsInt (m.alllen - rlen + m.alllen / 2) ∧
      g = m.enlarged (m.alllen - rlen + m.alllen / 2) := by
  have hnonneg := h.lenNonneg
  have hlen := h.len
  have hcapacity := h.capacity
  rw [MemoryFile.grow_eq_ok hnonneg (Int.le_trans hnonneg hlen) hrlen]
  refine and_congr_left fun _ => ⟨fun hinside => hinside.2.1, fun hint => ?_⟩
  exact ⟨hint.of_le (by omega) (by omega), hint, by omega, by omega⟩

end MemoryFile

/-- The callbacks of `memory_file`. -/
def memoryFile (b : Build) : FileFilter MemoryFile where
  onSetPos m offset := .ok (m.setOff offset, ⟨true, 0⟩)
  onGetPos m := .ok (m, m.off)
  onGetFileSize m := .ok (m, m.alllen)
  beforeOpen m type _ := .ok (m, ⟨true, if type = .open then m.fd else m.this, [], [], 0, 0⟩)
  onClose m := .ok (m, 0)
  beforeRead m buf readSize isFgets :=
    if isFgets then m.fgets b buf (asInt readSize) else m.read b buf readSize true
  afterRead m buf _ _ _ := .ok (m, 0, buf)
  beforeWrite m buf writeSize := m.write b buf writeSize true
  beforeStat m _ buf := .ok (m, ⟨true, 0⟩, List.replicate buf.length 0)
  afterStat m _ buf := .ok (m, -1, buf)
  beforeRename m newPath := .ok ({ m with path := newPath }, ⟨true, 0⟩)
  beforeAccess m _ := .ok (m, ⟨true, 0⟩)

@[simp] theorem memoryFile_beforeRead_fgets {b : Build} (m : MemoryFile) (buf : Bytes)
    (readSize : Nat) :
    (memoryFile b).beforeRead m buf readSize true = m.fgets b buf (asInt readSize) := by
  simp only [memoryFile, if_true]

@[simp] theorem memoryFile_beforeRead_read {b : Build} (m : MemoryFile) (buf : Bytes)
    (readSize : Nat) :
    (memoryFile b).beforeRead m buf readSize false = m.read b buf readSize true := by
  simp only [memoryFile, Bool.false_eq_true, if_false]

end HookLibc
