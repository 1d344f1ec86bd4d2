import AndroidAnalysis.HookLibc.MemoryFile
import AndroidAnalysis.Words.PosFile

/-!
# `memory_file` is a file

The content of a `memory_file` is the first `len` bytes of its buffer, and `off`
is the position in it.  `Rep` relates a `memory_file` to the `PosFile` of these
two, and a read or a write of the one is that of the other, where a write may take
a front part of what it is given.
-/

namespace HookLibc

open Cpp Words

/-- The `memory_file` has the content and the position. -/
structure MemoryFile.Rep (m : MemoryFile) (f : PosFile UInt8) : Prop where
  capacity : (m.shareData.length : Int) = m.alllen
  isInt : IsInt m.alllen
  pos : m.off = f.pos
  len : m.len = f.content.length
  content : m.shareData.take f.content.length = f.content

/-- The front of the buffer is the content, whatever the capacity, and the position is
in it. -/
structure MemoryFile.Shows (m : MemoryFile) (f : PosFile UInt8) : Prop where
  pos : m.off = f.pos
  len : m.len = f.content.length
  content : m.shareData.take f.content.length = f.content

namespace MemoryFile

variable {b : Build} {m : MemoryFile} {f : PosFile UInt8} {buffer w : Bytes} {n : Nat}

namespace Shows

/-- Bytes written at the position. -/
theorem written (h : m.Shows f) {size : Nat} (hsize : size ≤ w.length) :
    (m.written w size).Shows (f.write (w.take size)) := by
  have hlen := h.len
  have hpos := h.pos
  have hfpos := f.pos_le
  have hle : f.content.length ≤ m.shareData.length := by
    rw [← h.content]
    exact List.length_take_le' ..
  have htake : (w.take size).length = size := by rw [List.length_take]; omega
  have hend : (f.write (w.take size)).content.length = max f.content.length (f.pos + size) := by
    rw [PosFile.write, length_overwrite hfpos, htake]
  refine ⟨?_, ?_, ?_⟩
  · show m.off + size = ((f.pos + (w.take size).length : Nat) : Int)
    rw [htake, hpos, Int.natCast_add]
  · show (if m.off + size ≥ m.len then m.off + size else m.len) =
      ((f.write (w.take size)).content.length : Int)
    rw [hend]
    split
    next => omega
    next => omega
  · rw [MemoryFile.written, hpos, Int.toNat_natCast, Int.toNat_natCast, hend]
    have := take_overwrite (t := w.take size) hfpos hle
    rwa [h.content, htake] at this

/-- The same content in a new buffer. -/
theorem enlarged (h : m.Shows f) (alllen : Int) : (m.enlarged alllen).Shows f := by
  refine ⟨h.pos, h.len, ?_⟩
  rw [MemoryFile.enlarged, h.len, Int.toNat_natCast, h.content]
  exact take_overwrite_zero

end Shows

namespace Rep

theorem shows (h : m.Rep f) : m.Shows f := ⟨h.pos, h.len, h.content⟩

/-- The content is inside the buffer. -/
theorem length_le (h : m.Rep f) : f.content.length ≤ m.shareData.length := by
  rw [← h.content]
  exact List.length_take_le' ..

theorem next_eq (h : m.Rep f) (n : Nat) :
    f.next n = (m.shareData.drop f.pos).take (min n (f.content.length - f.pos)) := by
  rw [PosFile.next, ← List.take_take, ← List.drop_take, h.content]

theorem sound (h : m.Rep f) : m.Sound := by
  have hle := h.length_le
  have hcap := h.capacity
  have hlen := h.len
  have hpos := h.pos
  have hfpos := f.pos_le
  exact ⟨by omega, by omega, by omega, h.isInt, h.isInt.of_le (by omega) (by omega)⟩

/-- At another position of the content. -/
theorem seek (h : m.Rep f) {pos : Nat} (hpos : pos ≤ f.content.length) :
    Rep (m.setOff pos) (f.seek pos hpos) :=
  ⟨h.capacity, h.isInt, rfl, h.len, h.content⟩

/-! ## Reading -/

theorem read (h : m.Rep f) (hn : n ≤ buffer.length) :
    ∃ m', m.read b buffer n true =
      .ok (m', (f.next n).length, overwrite buffer 0 (f.next n)) ∧ m'.Rep (f.skip n) := by
  have hle := h.length_le
  have hcap := h.capacity
  have hlen := h.len
  have hpos := h.pos
  have hfpos := f.pos_le
  have hnext := f.length_next n
  by_cases hend : m.len ≤ m.off
  · have hnil : f.next n = [] := List.eq_nil_of_length_eq_zero (by omega)
    refine ⟨m, read_eq_ok.mpr (.inl ⟨hend, ?_⟩), h.capacity, h.isInt, ?_, h.len, h.content⟩
    · rw [hnil, overwrite_nil, List.length_nil]
    · rw [PosFile.skip, PosFile.seek_pos, hnil, List.length_nil, Nat.add_zero, hpos]
  · have hleft : IsInt (m.len - m.off) := h.isInt.of_le (by omega) (by omega)
    have hbytes : m.bytes (f.next n).length = f.next n := by
      rw [bytes, hpos, Int.toNat_natCast, Int.toNat_natCast, hnext, ← h.next_eq]
    have hget : m.get b buffer (f.next n).length true =
        .ok (m.setOff (m.off + (f.next n).length), (f.next n).length,
          overwrite buffer 0 (f.next n)) := by
      refine get_eq_ok.mpr ⟨by omega, by omega, fun _ => h.isInt.of_le (by omega) (by omega), ?_⟩
      rw [asSize_natCast (h.isInt.of_le (by omega) (by omega)), hbytes, if_pos rfl]
    have hcount : min (m.len - m.off) n = (f.next n).length := by
      rw [hnext]
      omega
    refine ⟨m.setOff (m.off + (f.next n).length), read_eq_ok.mpr (.inr ⟨by omega, hleft, ?_⟩),
      h.capacity, h.isInt, ?_, h.len, h.content⟩
    · rw [hcount, hget]
    · rw [setOff_off, PosFile.skip, PosFile.seek_pos, hpos, Int.natCast_add]

/-! ## Writing -/

/-- The room that is left, limited by what is to be written. -/
theorem wlen (h : m.Rep f) (size : Nat) :
    m.wlen b size = .ok (min (m.alllen - f.pos) size) := by
  have hle := h.length_le
  have hcap := h.capacity
  have hfpos := f.pos_le
  have hleft : IsInt (m.alllen - f.pos) := h.isInt.of_le (by omega) (by omega)
  rw [MemoryFile.wlen, h.pos, intResult_of_isInt hleft, ok_bind, clamp_eq (by omega) hleft]

/-- A new buffer has half as much room again, and the content. -/
theorem grow (h : m.Rep f) (hgrown : IsInt (m.alllen + m.alllen / 2)) :
    ∃ m', m.grow 0 = .ok m' ∧ m'.Rep f ∧ m'.alllen = m.alllen + m.alllen / 2 := by
  have hle := h.length_le
  have hcap := h.capacity
  have hlen := h.len
  have hshows := h.shows.enlarged (m.alllen + m.alllen / 2)
  refine ⟨m.enlarged (m.alllen + m.alllen / 2),
    (h.sound.grow_eq_ok (Int.le_refl 0)).mpr (by rw [Int.sub_zero]; exact ⟨hgrown, rfl⟩),
    ⟨?_, hgrown, hshows.pos, hshows.len, hshows.content⟩, rfl⟩
  exact length_enlarged (by omega) (by omega)

/-- A front part of what is to be written, where it has its room. -/
theorem put (h : m.Rep f) {size : Nat} (hsize : size ≤ w.length)
    (hroom : (f.pos + size : Int) ≤ m.alllen) :
    ∃ m', m.put b w size true = .ok (m', size) ∧ m'.Rep (f.write (w.take size)) := by
  have hcap := h.capacity
  have hpos := h.pos
  have hshows := h.shows.written hsize
  refine ⟨m.written w size, put_eq_ok.mpr ⟨by omega, by omega,
    h.isInt.of_le (by omega) (by omega), ?_⟩, ?_, h.isInt, hshows.pos, hshows.len, hshows.content⟩
  · rw [asSize_natCast (h.isInt.of_le (by omega) (by omega))]
  · rw [written, hpos, Int.toNat_natCast, Int.toNat_natCast,
      length_overwrite_of_le (by rw [List.length_take]; omega), hcap]

/-- A write takes a front part of what it is given. -/
theorem write (h : m.Rep f) (hgrown : IsInt (m.alllen + m.alllen / 2)) :
    ∃ m' k, m.write b w w.length true = .ok (m', k) ∧ k ≤ w.length ∧
      m'.Rep (f.write (w.take k)) := by
  have hle := h.length_le
  have hcap := h.capacity
  have hfpos := f.pos_le
  by_cases hfull : min (m.alllen - f.pos) w.length ≤ 0
  · have hzero : min (m.alllen - f.pos) w.length = 0 := by omega
    obtain ⟨m₁, hm₁, h₁, halllen⟩ := h.grow hgrown
    rw [write_of_full (h.wlen w.length) hfull, hzero, hm₁, ok_bind, h₁.wlen, ok_bind]
    obtain ⟨size, hsize⟩ := Int.eq_ofNat_of_zero_le
      (by omega : 0 ≤ min (m₁.alllen - f.pos) w.length)
    obtain ⟨m', hm', h'⟩ := h₁.put (b := b) (w := w) (show size ≤ w.length by omega) (by omega)
    exact ⟨m', size, by rw [hsize, hm'], by omega, h'⟩
  · rw [write_of_room (h.wlen w.length) (by omega)]
    obtain ⟨size, hsize⟩ := Int.eq_ofNat_of_zero_le
      (by omega : 0 ≤ min (m.alllen - f.pos) w.length)
    obtain ⟨m', hm', h'⟩ := h.put (b := b) (w := w) (show size ≤ w.length by omega) (by omega)
    exact ⟨m', size, by rw [hsize, hm'], by omega, h'⟩

end Rep

/-! ## Constructors -/

/-- A `memory_file` that its copying or its default constructor makes, with its
content. -/
inductive Built : MemoryFile → PosFile UInt8 → Prop
  | copying {this fd data len m} (h : MemoryFile.copying this fd data len = .ok m) :
      Built m ⟨data.take len.toNat, 0, Nat.zero_le _⟩
  | empty {this fd m} (h : MemoryFile.empty this fd = .ok m) : Built m ⟨[], 0, Nat.zero_le _⟩

theorem Built.rep (h : Built m f) : m.Rep f := by
  cases h with
  | @copying this fd data len _ h =>
      obtain ⟨alllen, halllen, h⟩ := bind_eq_ok.mp h
      obtain ⟨hint, rfl⟩ := intResult_eq_ok.mp halllen
      obtain ⟨buf, hbuf, h⟩ := bind_eq_ok.mp h
      obtain ⟨bytes, hload, h⟩ := bind_eq_ok.mp h
      obtain ⟨buf', hstore, h⟩ := bind_eq_ok.mp h
      cases h
      obtain ⟨hnonneg, rfl⟩ := newChars_eq_ok.mp hbuf
      obtain ⟨hlen, -, hbytes⟩ := load_eq_ok.mp hload
      obtain ⟨hin, rfl⟩ := store_eq_ok.mp hstore
      have hbytes : bytes = data.take len.toNat := hbytes
      have hlength := length_of_load hload
      have hfront : (data.take len.toNat).length = bytes.length := by rw [hbytes]
      refine ⟨?_, hint, rfl, ?_, ?_⟩
      · exact (Int.ofNat_inj.mpr (length_of_store hstore)).trans
          ((congrArg Int.ofNat List.length_replicate).trans (Int.toNat_of_nonneg hnonneg))
      · rw [hfront, hlength]
      · show (overwrite _ 0 bytes).take (data.take len.toNat).length = data.take len.toNat
        rw [← hbytes]
        exact take_overwrite_zero
  | empty h =>
      cases h
      exact ⟨congrArg Int.ofNat List.length_replicate, (by decide : IsInt (1024 * 2)), rfl, rfl,
        List.take_zero⟩

end MemoryFile

end HookLibc
