import AndroidAnalysis.HookLibc.MemoryFileReached

/-!
# The progress of a write

`memory_file::write` makes room by half the capacity, rounded down, so a capacity of
0 or 1 stays what it is, and a larger one grows as long as it is an `int`.
`RoomFor` says that some number of these steps goes up to the end of what is to be
written.  The loop that writes the rest again ends exactly then.
-/

namespace HookLibc

open Cpp Machine Calls Words

/-! ## Growing by half -/

/-- A capacity and half of it. -/
def halfAgain (a : Int) : Int := a + a / 2

theorem le_halfAgain {a : Int} (h : 0 ≤ a) : a ≤ halfAgain a := by
  rw [halfAgain]
  omega

/-- A capacity of 0 or 1 does not grow. -/
theorem iterate_halfAgain_of_le_one {a : Int} (h : 0 ≤ a) (hle : a ≤ 1) (i : Nat) :
    halfAgain^[i] a = a := by
  refine Function.iterate_fixed ?_ i
  rw [halfAgain]
  omega

/-- A capacity that grows in the end grows at once. -/
theorem lt_halfAgain_of_iterate {a : Int} (h : 0 ≤ a) {i : Nat} (hlt : a < halfAgain^[i] a) :
    a < halfAgain a := by
  by_contra hstays
  have hone : a ≤ 1 := by rw [halfAgain] at hstays; omega
  exact absurd (iterate_halfAgain_of_le_one h hone i) (Int.ne_of_gt hlt)

theorem le_iterate_halfAgain {a : Int} (h : 0 ≤ a) (i : Nat) : a ≤ halfAgain^[i] a := by
  induction i generalizing a with
  | zero => exact Int.le_refl a
  | succ i ih =>
      have hle := le_halfAgain h
      rw [Function.iterate_succ_apply]
      exact Int.le_trans hle (ih (Int.le_trans h hle))

namespace MemoryFile

variable {b : Build} {m : MemoryFile} {f : PosFile UInt8} {w : Bytes} {n : Nat} {rlen : Int}

/-! ## States -/

/-- The position is in the content, and the content inside the capacity and inside the
buffer. -/
structure InContent (m : MemoryFile) : Prop where
  off : 0 ≤ m.off
  offLe : m.off ≤ m.len
  lenLe : m.len ≤ m.alllen
  held : m.len ≤ m.shareData.length
  alllenInt : IsInt m.alllen

/-- A hooked call that sets no position outside the content. -/
def InRange (b : Build) (m : MemoryFile) : IoCall → Prop
  | .fseek offset whence =>
      ∀ pos, FileHook.seekOff b (memoryFile b) m offset whence = .ok (m, pos) →
        0 ≤ pos ∧ pos ≤ m.len
  | .pread _ _ offset | .pwrite _ _ offset _ => 0 ≤ offset ∧ offset ≤ m.len
  | _ => True

/-- A state that a constructor and hooked calls in range lead to. -/
inductive ReachedInRange (b : Build) : MemoryFile → Prop
  | make {this fd ctor m} (hctor : Constructor.Owned ctor) (hmake : ctor.make this fd = .ok m) :
      ReachedInRange b m
  | step {m m' c} (h : ReachedInRange b m) (hc : m.InRange b c) (hafter : m.after b c = .ok m') :
      ReachedInRange b m'

/-- Steps of growing by half go up to the end of what is to be written, and what there
is of the capacity is there. -/
def RoomFor (m : MemoryFile) (n : Nat) : Prop :=
  min m.alllen (m.off + n) ≤ m.shareData.length ∧
    ∃ i, m.off + n ≤ halfAgain^[i] m.alllen ∧ IsInt (halfAgain^[i] m.alllen)

/-! ## The loop -/

/-- The loop that writes the rest again, with what is left of the buffer. -/
def writeAll (b : Build) : Nat → MemoryFile → Bytes → Except Fault (MemoryFile × Bytes)
  | 0, m, w => .ok (m, w)
  | fuel + 1, m, w =>
      if w = [] then .ok (m, [])
      else do
        let r ← (memoryFile b).beforeWrite m w w.length
        writeAll b fuel r.1 (w.drop r.2)

/-- A write accepts bytes, and the loop ends with the whole buffer stored. -/
def Progress (b : Build) (m : MemoryFile) (w : Bytes) : Prop :=
  (∃ m' k, (memoryFile b).beforeWrite m w w.length = .ok (m', k) ∧ 0 < k) ∧
    ∃ fuel m' f, writeAll b fuel m w = .ok (m', []) ∧ m.Shows f ∧ m'.Shows (f.write w)

namespace InContent

theorem setOff (h : m.InContent) {off : Int} (hoff : 0 ≤ off) (hle : off ≤ m.len) :
    (m.setOff off).InContent :=
  ⟨hoff, hle, h.lenLe, h.held, h.alllenInt⟩

theorem enlarged (h : m.InContent) {alllen : Int} (hint : IsInt alllen) (hle : m.alllen ≤ alllen) :
    (m.enlarged alllen).InContent := by
  have hoff := h.off
  have hoffLe := h.offLe
  have hlenLe := h.lenLe
  have hroom := Int.le_trans hlenLe hle
  have hlength : ((m.enlarged alllen).shareData.length : Int) = alllen :=
    m.length_enlarged (by omega) hroom
  exact ⟨hoff, hoffLe, hroom, hroom.trans_eq hlength.symm, hint⟩

/-- The content of such a state. -/
theorem shows (h : m.InContent) : ∃ f, m.Shows f := by
  have hoff := h.off
  have hoffLe := h.offLe
  have hheld := h.held
  have hlength : (m.shareData.take m.len.toNat).length = m.len.toNat := by
    rw [List.length_take]
    omega
  refine ⟨⟨m.shareData.take m.len.toNat, m.off.toNat, by omega⟩, (Int.toNat_of_nonneg hoff).symm,
    ?_, congrArg (m.shareData.take ·) hlength⟩
  show m.len = (m.shareData.take m.len.toNat).length
  omega

/-- Bytes that are put at the position, as far as the capacity goes. -/
theorem put_keeps (h : m.InContent) (hle : m.off + rlen ≤ m.alllen) {r : MemoryFile × Nat}
    (hput : m.put b w rlen true = .ok r) : r.1.InContent ∧ m.len ≤ r.1.len := by
  obtain ⟨hrlen, hin, -, rfl⟩ := put_eq_ok.mp hput
  have hoff := h.off
  have hoffLe := h.offLe
  have hlenLe := h.lenLe
  have hheld := h.held
  have hlength := length_written hrlen hin
  have hlen : (m.written w rlen).len = if m.off + rlen ≥ m.len then m.off + rlen else m.len := rfl
  have hends : m.len ≤ (m.written w rlen).len ∧ m.off + rlen ≤ (m.written w rlen).len ∧
      (m.written w rlen).len ≤ m.alllen ∧ (m.written w rlen).len ≤ m.shareData.length := by
    rw [hlen]
    split
    next => omega
    next => omega
  exact ⟨⟨Int.add_nonneg hoff hrlen, hends.2.1, hends.2.2.1,
    by rw [hlength]; exact hends.2.2.2, h.alllenInt⟩, hends.1⟩

/-- There is room for bytes, and bytes to be written. -/
def HasRoom (m : MemoryFile) (n : Nat) : Prop := m.off < m.alllen ∧ 0 < n

/-- A write finds room, or makes it. -/
theorem write_eq_ok (h : m.InContent) {r : MemoryFile × Nat} :
    m.write b w n true = .ok r ↔
      (HasRoom m n ∧ m.put b w (min (m.alllen - m.off) n) true = .ok r) ∨
        (¬ HasRoom m n ∧ IsInt (halfAgain m.alllen) ∧
          (m.enlarged (halfAgain m.alllen)).put b w
            (min (halfAgain m.alllen - m.off) n) true = .ok r) := by
  rw [HasRoom]
  have hoff := h.off
  have hoffLe := h.offLe
  have hlenLe := h.lenLe
  have hheld := h.held
  have hgrows := le_halfAgain (show 0 ≤ m.alllen by omega)
  have hleft : IsInt (m.alllen - m.off) := h.alllenInt.of_le (by omega) (by omega)
  have hwlen : m.wlen b n = .ok (min (m.alllen - m.off) n) :=
    wlen_eq_ok.mpr ⟨hleft, (clamp_eq (by omega) hleft n).symm⟩
  by_cases hroom : m.off < m.alllen ∧ 0 < n
  · rw [write_of_room hwlen (by omega), and_iff_right hroom,
      or_iff_left fun hfull => hfull.1 hroom]
  · have hzero : min (m.alllen - m.off) n = 0 := by omega
    rw [hzero] at hwlen
    have hgrow {g : MemoryFile} : m.grow 0 = .ok g ↔
        IsInt (halfAgain m.alllen) ∧ g = m.enlarged (halfAgain m.alllen) := by
      rw [grow_eq_ok (by omega) (by omega) (Int.le_refl 0), GrowInside, Int.sub_zero]
      refine and_congr_left fun _ => ⟨fun hin => hin.2.1, fun hint => ?_⟩
      exact ⟨h.alllenInt, hint, hheld, by rw [halfAgain] at hgrows; omega⟩
    have hwlen' (hint : IsInt (halfAgain m.alllen)) :
        (m.enlarged (halfAgain m.alllen)).wlen b n = .ok (min (halfAgain m.alllen - m.off) n) := by
      have hleft' : IsInt (halfAgain m.alllen - m.off) := hint.of_le (by omega) (by omega)
      exact wlen_eq_ok.mpr ⟨hleft', (clamp_eq (by omega) hleft' n).symm⟩
    rw [write_of_full hwlen (Int.le_refl 0), or_iff_right fun hfound => hroom hfound.1,
      and_iff_right hroom]
    constructor
    · intro hwrite
      obtain ⟨g, hg, hwrite⟩ := bind_eq_ok.mp hwrite
      obtain ⟨hint, rfl⟩ := hgrow.mp hg
      rw [hwlen' hint, ok_bind] at hwrite
      exact ⟨hint, hwrite⟩
    · rintro ⟨hint, hput⟩
      rw [hgrow.mpr ⟨hint, rfl⟩, ok_bind, hwlen' hint, ok_bind, hput]

/-- What a write leaves. -/
theorem write (h : m.InContent) {r : MemoryFile × Nat} (hwrite : m.write b w n true = .ok r) :
    r.1.InContent ∧ m.len ≤ r.1.len := by
  have hlenLe := h.lenLe
  have hoff := h.off
  have hoffLe := h.offLe
  have hgrows := le_halfAgain (show 0 ≤ m.alllen by omega)
  rcases h.write_eq_ok.mp hwrite with ⟨hroom, hput⟩ | ⟨-, hint, hput⟩
  · exact h.put_keeps (by omega) hput
  · exact (h.enlarged hint hgrows).put_keeps
      (show m.off + min (halfAgain m.alllen - m.off) n ≤ halfAgain m.alllen by omega) hput

/-- A read leaves the position in the content. -/
theorem read (h : m.InContent) {buffer : Bytes} {update : Bool} {r : MemoryFile × Nat × Bytes}
    (hread : m.read b buffer n update = .ok r) : r.1.InContent ∧ r.1.len = m.len := by
  have hoff := h.off
  obtain ⟨-, rfl⟩ | ⟨hlt, -, hget⟩ := read_eq_ok.mp hread
  · exact ⟨h, rfl⟩
  · obtain ⟨hrlen, -, -, rfl⟩ := get_eq_ok.mp hget
    cases update with
    | false => exact ⟨h, rfl⟩
    | true => exact ⟨h.setOff (Int.add_nonneg hoff hrlen) (by omega), rfl⟩

theorem fgets (h : m.InContent) {buffer : Bytes} {maxCount : Int} {r : MemoryFile × Nat × Bytes}
    (hfgets : m.fgets b buffer maxCount = .ok r) : r.1.InContent := by
  obtain ⟨-, rfl⟩ | ⟨-, -, line, r', -, hread, rfl⟩ := fgets_eq_ok.mp hfgets
  · exact h
  · have hin := (h.read hread).1
    exact hin

/-- The old position, in a content that is no shorter. -/
theorem back (h : m.InContent) {m' : MemoryFile} (h' : m'.InContent) (hle : m.len ≤ m'.len) :
    (m'.setOff m.off).InContent :=
  h'.setOff h.off (Int.le_trans h.offLe hle)

/-- At an offset that the content has. -/
theorem setOff_asInt (h : m.InContent) {offset : Int} (hoff : 0 ≤ offset) (hle : offset ≤ m.len) :
    (m.setOff (asInt offset)).InContent := by
  rw [asInt_of_isInt (h.alllenInt.of_le hoff (Int.le_trans hle h.lenLe))]
  exact h.setOff hoff hle

theorem after (h : m.InContent) {c : IoCall} (hc : m.InRange b c) {m' : MemoryFile}
    (hafter : m.after b c = .ok m') : m'.InContent := by
  cases c with
  | fread | read =>
      obtain ⟨r, hread, rfl⟩ := map_eq_ok.mp ⟨m', hafter, rfl⟩
      exact (h.read hread).1
  | fwrite | fputs | write =>
      obtain ⟨r, hwrite, rfl⟩ := map_eq_ok.mp ⟨m', hafter, rfl⟩
      exact (h.write hwrite).1
  | fgets =>
      obtain ⟨r, hfgets, rfl⟩ := map_eq_ok.mp ⟨m', hafter, rfl⟩
      exact h.fgets hfgets
  | fseek offset whence =>
      rw [MemoryFile.after] at hafter
      split at hafter
      next =>
        cases hafter
        exact h
      next =>
        obtain ⟨⟨m₁, pos⟩, hseek, rfl⟩ := map_eq_ok.mp ⟨m', hafter, rfl⟩
        obtain ⟨hsame, -⟩ := seekOff_ok hseek
        have hsame : m₁ = m := hsame
        subst hsame
        obtain ⟨hnonneg, hle⟩ := hc pos hseek
        exact h.setOff hnonneg hle
  | ftell =>
      cases hafter
      exact h
  | rewind =>
      cases hafter
      exact h.setOff (Int.le_refl 0) (Int.le_trans h.off h.offLe)
  | pread _ _ offset =>
      obtain ⟨r, hread, rfl⟩ := map_eq_ok.mp ⟨m', hafter, rfl⟩
      obtain ⟨hin, hlen⟩ := (h.setOff_asInt hc.1 hc.2).read hread
      exact h.back hin (Int.le_of_eq hlen.symm)
  | pwrite _ _ offset =>
      obtain ⟨r, hwrite, rfl⟩ := map_eq_ok.mp ⟨m', hafter, rfl⟩
      obtain ⟨hin, hlen⟩ := (h.setOff_asInt hc.1 hc.2).write hwrite
      exact h.back hin hlen

end InContent

/-- What a constructor makes, before anything is moved. -/
theorem inContent_of_make {this : Handle} {fd : Int} {ctor : Constructor} (hctor : ctor.Owned)
    (hmake : ctor.make this fd = .ok m) : m.InContent := by
  have hrep {m : MemoryFile} {f : PosFile UInt8} (hbuilt : m.Built f) (hpos : f.pos = 0) :
      m.InContent := by
    have hsound := hbuilt.rep.sound
    have hoff := hbuilt.rep.pos
    have hnonneg := hsound.lenNonneg
    exact ⟨by omega, by omega, hsound.len, Int.le_trans hsound.len hsound.capacity,
      hsound.alllenInt⟩
  cases ctor with
  | copying data len => exact hrep (.copying hmake) rfl
  | moving data len =>
      obtain ⟨hint, rfl⟩ := Constructor.moving_eq_ok.mp hmake
      exact ⟨Int.le_refl 0, hctor.1, Constructor.le_tdiv hctor.1, hctor.2, hint⟩
  | empty => exact hrep (.empty hmake) rfl

theorem ReachedInRange.inContent (h : m.ReachedInRange b) : m.InContent := by
  induction h with
  | make hctor hmake => exact inContent_of_make hctor hmake
  | step _ hc hafter ih => exact ih.after hc hafter

/-! ## Progress -/

/-- Bytes that are put stay what they are, and move the end of what is left nowhere. -/
structure Puts (m : MemoryFile) (f : PosFile UInt8) (w : Bytes) (r : MemoryFile × Nat) : Prop where
  count : r.2 ≤ w.length
  off : r.1.off = m.off + r.2
  inContent : r.1.InContent
  shows : r.1.Shows (f.write (w.take r.2))

/-- What a put does to a file in a larger buffer or in its own. -/
theorem InContent.puts (h : m.InContent) (hshows : m.Shows f) {left : Int}
    (hle : m.off + left ≤ m.alllen) {r : MemoryFile × Nat}
    (hput : m.put b w (min left w.length) true = .ok r) :
    m.Puts f w r ∧ (r.2 : Int) = min left w.length ∧ r.1.alllen = m.alllen ∧
      r.1.shareData.length = m.shareData.length := by
  have hoff := h.off
  obtain ⟨hin, -⟩ := h.put_keeps (by omega) hput
  obtain ⟨hrlen, hroom, -, rfl⟩ := put_eq_ok.mp hput
  obtain ⟨size, hsize⟩ := Int.eq_ofNat_of_zero_le hrlen
  have hint : IsInt size := h.alllenInt.of_le (by omega) (by omega)
  have hlength := length_written hrlen hroom
  rw [hsize] at hin hlength ⊢
  have hcount : asSize b (size : Int) = size := asSize_natCast hint
  refine ⟨⟨?_, ?_, hin, ?_⟩, congrArg Nat.cast hcount, rfl, hlength⟩
  · show asSize b (size : Int) ≤ w.length
    omega
  · show m.off + (size : Int) = m.off + ((asSize b (size : Int) : Nat) : Int)
    rw [hcount]
  · show (m.written w size).Shows (f.write (w.take (asSize b (size : Int))))
    rw [hcount]
    exact hshows.written (by omega)

/-- A put returns where the buffer has the place. -/
theorem InContent.exists_put (h : m.InContent) {left : Int} (hleft : 0 ≤ left)
    (hle : m.off + left ≤ m.alllen)
    (hroom : m.off + min left w.length ≤ m.shareData.length) :
    ∃ r, m.put b w (min left w.length) true = .ok r := by
  have hoff := h.off
  have hsum : IsInt (m.off + min left w.length) := h.alllenInt.of_le (by omega) (by omega)
  exact ⟨_, put_eq_ok.mpr ⟨by omega, .inr ⟨hoff, hroom, by omega⟩, hsum, rfl⟩⟩

theorem RoomFor.of_nil (h : m.InContent) : m.RoomFor 0 := by
  have hoffLe := h.offLe
  have hlenLe := h.lenLe
  have hheld := h.held
  exact ⟨by omega, 0, by show m.off + 0 ≤ m.alllen; omega, h.alllenInt⟩

/-- A write of bytes leaves the room for the rest as it was. -/
theorem InContent.write_puts (h : m.InContent) (hshows : m.Shows f) (hw : w ≠ [])
    {r : MemoryFile × Nat} (hwrite : m.write b w w.length true = .ok r) :
    m.Puts f w r ∧ (r.1.RoomFor (w.length - r.2) → m.RoomFor w.length) := by
  have hoff := h.off
  have hoffLe := h.offLe
  have hlenLe := h.lenLe
  have hheld := h.held
  have hgrows := le_halfAgain (show 0 ≤ m.alllen by omega)
  have hsize := List.length_pos_iff.mpr hw
  rcases h.write_eq_ok.mp hwrite with ⟨-, hput⟩ | ⟨hfull, hint, hput⟩
  · obtain ⟨hputs, -, halllen, hlength⟩ := h.puts hshows (by omega) hput
    have hend := hputs.off
    have hcount := hputs.count
    refine ⟨hputs, fun hroom => ?_⟩
    obtain ⟨hmin, i, hreach, hint⟩ := hroom
    rw [halllen] at hmin hreach hint
    rw [hlength] at hmin
    exact ⟨by omega, i, by omega, hint⟩
  · obtain ⟨hputs, -, halllen, -⟩ := (h.enlarged hint hgrows).puts (hshows.enlarged _)
      (show m.off + (halfAgain m.alllen - m.off) ≤ halfAgain m.alllen by omega) hput
    have halllen : r.1.alllen = halfAgain m.alllen := halllen
    have hend : r.1.off = m.off + r.2 := hputs.off
    have hcount := hputs.count
    refine ⟨⟨hcount, hend, hputs.inContent, hputs.shows⟩, fun hroom => ?_⟩
    obtain ⟨-, i, hreach, hint⟩ := hroom
    have hiter : halfAgain^[i] (halfAgain m.alllen) = halfAgain^[i + 1] m.alllen := rfl
    rw [halllen, hiter] at hreach hint
    rw [HasRoom] at hfull
    exact ⟨by omega, i + 1, by omega, hint⟩

/-- Where there is room, a write accepts bytes, and there is room for the rest. -/
theorem InContent.write_of_roomFor (h : m.InContent) (hw : w ≠ []) (hroom : m.RoomFor w.length) :
    ∃ r, m.write b w w.length true = .ok r ∧ 0 < r.2 ∧ r.1.RoomFor (w.length - r.2) := by
  have hoff := h.off
  have hoffLe := h.offLe
  have hlenLe := h.lenLe
  have hheld := h.held
  have hsize := List.length_pos_iff.mpr hw
  have hint := h.alllenInt
  obtain ⟨f, hshows⟩ := h.shows
  obtain ⟨hmin, i, hreach, hiint⟩ := hroom
  by_cases hfound : m.off < m.alllen
  · obtain ⟨r, hput⟩ := h.exists_put (b := b) (w := w) (show 0 ≤ m.alllen - m.off by omega)
      (by omega) (by omega)
    obtain ⟨hputs, hcount, halllen, hlength⟩ := h.puts hshows (by omega) hput
    have hend := hputs.off
    refine ⟨r, h.write_eq_ok.mpr (.inl ⟨⟨hfound, hsize⟩, hput⟩), by omega, ?_⟩
    rw [RoomFor, halllen, hlength]
    exact ⟨by omega, i, by omega, hiint⟩
  · cases i with
    | zero =>
        have hreach : m.off + w.length ≤ m.alllen := hreach
        omega
    | succ i =>
        have hmore : m.alllen < halfAgain m.alllen :=
          lt_halfAgain_of_iterate (show 0 ≤ m.alllen by omega)
            (show m.alllen < halfAgain^[i + 1] m.alllen by omega)
        have hiter : halfAgain^[i + 1] m.alllen = halfAgain^[i] (halfAgain m.alllen) := rfl
        rw [hiter] at hreach hiint
        have hgrows := le_halfAgain (show 0 ≤ m.alllen by omega)
        have hnext := le_iterate_halfAgain (show 0 ≤ halfAgain m.alllen by omega) i
        have hgint : IsInt (halfAgain m.alllen) := hiint.of_le (by omega) hnext
        have hlength := m.length_enlarged (show 0 ≤ m.len by omega) (Int.le_trans hlenLe hgrows)
        have hends : m.off + (halfAgain m.alllen - m.off) ≤ halfAgain m.alllen := by omega
        obtain ⟨r, hput⟩ := (h.enlarged hgint hgrows).exists_put (b := b) (w := w)
          (show 0 ≤ halfAgain m.alllen - m.off by omega) hends
          (by rw [hlength]; show m.off + _ ≤ _; omega)
        obtain ⟨hputs, hcount, halllen, hlength'⟩ :=
          (h.enlarged hgint hgrows).puts (hshows.enlarged _) hends hput
        have hend : r.1.off = m.off + r.2 := hputs.off
        have halllen : r.1.alllen = halfAgain m.alllen := halllen
        refine ⟨r, h.write_eq_ok.mpr (.inr ⟨fun hfree => hfound hfree.1, hgint, hput⟩), by omega,
          ?_⟩
        rw [RoomFor, halllen, hlength', hlength]
        exact ⟨by omega, i, by omega, hiint⟩

/-- The loop stores the whole buffer where there is room. -/
theorem InContent.writeAll_of_roomFor (h : m.InContent) (hshows : m.Shows f)
    (hroom : m.RoomFor w.length) :
    ∃ fuel m', writeAll b fuel m w = .ok (m', []) ∧ m'.Shows (f.write w) := by
  -- what is left gets shorter with every write
  induction hlength : w.length using Nat.strong_induction_on generalizing m f w with
  | _ n ih =>
      by_cases hw : w = []
      · subst hw
        exact ⟨0, m, rfl, by rwa [PosFile.write_nil]⟩
      · obtain ⟨r, hwrite, hpos, hrest⟩ := h.write_of_roomFor hw hroom
        obtain ⟨hputs, -⟩ := h.write_puts hshows hw hwrite
        have hcount := hputs.count
        have hdrop : (w.drop r.2).length = w.length - r.2 := List.length_drop
        obtain ⟨fuel, m', hloop, hstored⟩ := ih (w.drop r.2).length (by omega) hputs.inContent
          hputs.shows (by rwa [hdrop]) rfl
        rw [PosFile.write_write, List.take_append_drop] at hstored
        refine ⟨fuel + 1, m', ?_, hstored⟩
        have hstep : writeAll b (fuel + 1) m w =
            (m.write b w w.length true >>= fun r => writeAll b fuel r.1 (w.drop r.2)) := if_neg hw
        rw [hstep, hwrite, ok_bind, hloop]

/-- Where the loop stores the whole buffer, there was room. -/
theorem InContent.roomFor_of_writeAll (h : m.InContent) {fuel : Nat} {m' : MemoryFile}
    (hloop : writeAll b fuel m w = .ok (m', [])) : m.RoomFor w.length := by
  induction fuel generalizing m w with
  | zero =>
      cases hloop
      exact .of_nil h
  | succ fuel ih =>
      by_cases hw : w = []
      · subst hw
        exact .of_nil h
      · have hstep : writeAll b (fuel + 1) m w =
            (m.write b w w.length true >>= fun r => writeAll b fuel r.1 (w.drop r.2)) := if_neg hw
        rw [hstep] at hloop
        obtain ⟨r, hwrite, hloop⟩ := bind_eq_ok.mp hloop
        obtain ⟨f, hshows⟩ := h.shows
        obtain ⟨hputs, hback⟩ := h.write_puts hshows hw hwrite
        have hrest := ih hputs.inContent hloop
        rw [List.length_drop] at hrest
        exact hback hrest

/-- In every state that is reached in range, a write of bytes makes progress exactly
when there is room for them. -/
theorem progress_iff (hreached : m.ReachedInRange b) (hw : w ≠ []) :
    Progress b m w ↔ m.RoomFor w.length := by
  have h := hreached.inContent
  constructor
  · rintro ⟨-, fuel, m', f, hloop, -⟩
    exact h.roomFor_of_writeAll hloop
  · intro hroom
    obtain ⟨r, hwrite, hpos, -⟩ := h.write_of_roomFor hw hroom
    obtain ⟨f, hshows⟩ := h.shows
    obtain ⟨fuel, m', hloop, hstored⟩ := h.writeAll_of_roomFor hshows hroom
    exact ⟨⟨r.1, r.2, hwrite, hpos⟩, fuel, m', f, hloop, hshows, hstored⟩

/-- A file made of no bytes. -/
def noBytes : MemoryFile := ⟨0, 0, [], 0, 0, 0, []⟩

theorem noBytes_reached : noBytes.ReachedInRange .arm64 :=
  .make (show Constructor.Owned (.copying [] 0) from ⟨by decide, by decide⟩) rfl

/-- A copy of two bytes, with a capacity of three. -/
def twoBytes : MemoryFile := ⟨0, 0, [], 3, 2, 0, [1, 2, 0]⟩

theorem twoBytes_reached : twoBytes.ReachedInRange .arm64 :=
  .make (show Constructor.Owned (.copying [1, 2] 2) from ⟨by decide, by decide⟩) rfl

/-- Five bytes are written to it, for which it grows to four and to six. -/
theorem twoBytes_progress : Progress .arm64 twoBytes [3, 4, 5, 6, 7] :=
  (progress_iff twoBytes_reached (List.cons_ne_nil _ _)).mpr ⟨by decide, 2, by decide, by decide⟩

/-- Where there are no bytes, none is ever written. -/
theorem noBytes_no_progress : noBytes.ReachedInRange .arm64 ∧ ¬ Progress .arm64 noBytes [1] := by
  refine ⟨noBytes_reached, ?_⟩
  rintro ⟨-, fuel, m', f, hloop, -⟩
  obtain ⟨-, i, hreach, -⟩ := noBytes_reached.inContent.roomFor_of_writeAll hloop
  have hstays : halfAgain^[i] noBytes.alllen = 0 :=
    iterate_halfAgain_of_le_one (Int.le_refl 0) (by decide) i
  rw [hstays] at hreach
  exact absurd hreach (by decide)

end MemoryFile

end HookLibc
