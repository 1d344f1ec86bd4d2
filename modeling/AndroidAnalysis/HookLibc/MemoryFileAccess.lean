import AndroidAnalysis.HookLibc.MemoryFile

/-!
# The accesses of a `memory_file`

The position of a `memory_file` is never to be negative, the content never longer
than the capacity, the capacity never larger than the buffer, and no byte outside
the buffer is to be read or written.  `WriteFits`, `ReadFits` and `FgetsFits` say
which writes and reads of a sound file keep this.
-/

namespace HookLibc

open Cpp Machine Calls Words

namespace MemoryFile

/-- The bounds. -/
structure InBounds (m : MemoryFile) : Prop where
  off : 0 ≤ m.off
  len : m.len ≤ m.alllen
  capacity : m.alllen ≤ m.shareData.length

variable {b : Build} {m : MemoryFile} {w buffer : Bytes} {n : Nat} {rlen : Int}

theorem Sound.inBounds (h : m.Sound) (hoff : 0 ≤ m.off) : m.InBounds := ⟨hoff, h.len, h.capacity⟩

/-! ## Writing -/

/-- A distance that is negative is behind all sizes but the last ones. -/
theorem clamp_of_neg {left : Int} (h : left < 0) (hleft : IsInt left) (size : Nat) :
    clamp b left size = if size - left < b.words then asInt size else left := by
  have hsize := asSize_of_neg (b := b) h hleft
  rw [clamp]
  split
  next hlt => rw [if_pos (by omega)]
  next hle => rw [if_neg (by omega), asInt_asSize, asInt_of_isInt hleft]

theorem wlen_eq_ok : m.wlen b n = .ok rlen ↔
    IsInt (m.alllen - m.off) ∧ rlen = clamp b (m.alllen - m.off) n := by
  rw [wlen]
  constructor
  · intro h
    obtain ⟨left, hleft, h⟩ := bind_eq_ok.mp h
    obtain ⟨hint, rfl⟩ := intResult_eq_ok.mp hleft
    exact ⟨hint, (Except.ok.inj h).symm⟩
  · rintro ⟨hint, h⟩
    rw [h, intResult_of_isInt hint]
    exact ok_bind _ _

theorem Sound.length_enlarged (h : m.Sound) {alllen : Int} (hle : m.alllen ≤ alllen) :
    ((m.enlarged alllen).shareData.length : Int) = alllen :=
  MemoryFile.length_enlarged h.lenNonneg (Int.le_trans h.len hle)

/-- The buffer of a larger capacity. -/
theorem Sound.enlarged (h : m.Sound) {alllen : Int} (hint : IsInt alllen)
    (hle : m.alllen ≤ alllen) : (m.enlarged alllen).Sound :=
  ⟨h.lenNonneg, Int.le_trans h.len hle, Int.le_of_eq (h.length_enlarged hle).symm, hint, h.offInt⟩

/-- A write that stays in the capacity. -/
theorem Sound.written (h : m.Sound) {r : MemoryFile × Nat} (hput : m.put b w rlen true = .ok r)
    (hle : r.1.len ≤ r.1.alllen) : r.1.Sound ∧ (0 ≤ m.off → 0 ≤ r.1.off) := by
  obtain ⟨hrlen, hroom, hint, rfl⟩ := put_eq_ok.mp hput
  have hnonneg := h.lenNonneg
  have hcapacity := h.capacity
  have hlength := length_written hrlen hroom
  have hlen : 0 ≤ (m.written w rlen).len := by
    show 0 ≤ if m.off + rlen ≥ m.len then m.off + rlen else m.len
    split
    next => omega
    next => exact hnonneg
  refine ⟨⟨hlen, hle, ?_, h.alllenInt, hint⟩, fun hoff => Int.add_nonneg hoff hrlen⟩
  show m.alllen ≤ (m.written w rlen).shareData.length
  rw [hlength]
  exact hcapacity

/-- A write that leaves its content in the capacity is sound. -/
theorem Sound.write (h : m.Sound) {r : MemoryFile × Nat} (hwrite : m.write b w n true = .ok r)
    (hle : r.1.len ≤ r.1.alllen) : r.1.Sound ∧ (0 ≤ m.off → 0 ≤ r.1.off) := by
  obtain ⟨rlen, -, ⟨-, hput⟩ | ⟨hrlen, g, rlen', hgrow, -, hput⟩⟩ := write_cases hwrite
  · exact h.written hput hle
  · obtain ⟨hint, rfl⟩ := (h.grow_eq_ok hrlen).mp hgrow
    have hnonneg := h.lenNonneg
    have hlen := h.len
    exact (h.enlarged hint (by omega)).written hput hle

/-- Where `write` finds no room, it needs the new capacity to reach its position. -/
theorem Sound.write_grown_iff (h : m.Sound) (hn : n ≤ w.length) (hwlen : m.wlen b n = .ok rlen)
    (hrlen : rlen ≤ 0) {g : Int} (hg : g = m.alllen - rlen + m.alllen / 2)
    (hbehind : g < m.off → IsInt (g - m.off) → clamp b (g - m.off) n ≤ 0) :
    (∃ r, m.write b w n true = .ok r ∧ r.1.len ≤ r.1.alllen) ↔
      IsInt g ∧ IsInt (g - m.off) ∧ m.off ≤ g ∧ (0 ≤ m.off ∨ n = 0) := by
  have hnonneg := h.lenNonneg
  have hlen := h.len
  have hwlen' {rlen' : Int} : (m.enlarged g).wlen b n = .ok rlen' ↔
      IsInt (g - m.off) ∧ rlen' = clamp b (g - m.off) n := wlen_eq_ok
  rw [write_of_full hwlen hrlen]
  constructor
  · rintro ⟨r, hwrite, hle⟩
    obtain ⟨m₁, hgrow, hwrite⟩ := bind_eq_ok.mp hwrite
    obtain ⟨hint, hm₁⟩ := (h.grow_eq_ok hrlen).mp hgrow
    rw [← hg] at hint hm₁
    subst hm₁
    obtain ⟨rlen', hfound, hput⟩ := bind_eq_ok.mp hwrite
    obtain ⟨hleft, hclamp⟩ := hwlen'.mp hfound
    have hfront (hle : m.off ≤ g) : rlen' = min (g - m.off) n :=
      hclamp.trans (clamp_eq (by omega) hleft n)
    have hback (hlt : g < m.off) : rlen' ≤ 0 := by
      rw [hclamp]
      exact hbehind hlt hleft
    clear hclamp hbehind
    obtain ⟨hrlen', hroom, -, rfl⟩ := put_eq_ok.mp hput
    have hroom : rlen' = 0 ∨ 0 ≤ m.off := hroom.imp_right And.left
    have hle : (if m.off + rlen' ≥ m.len then m.off + rlen' else m.len) ≤ g := hle
    have hoff : m.off ≤ g := by
      by_contra hlt
      have := hback (by omega)
      rw [if_pos (by omega)] at hle
      omega
    have := hfront hoff
    exact ⟨hint, hleft, hoff, by omega⟩
  · rintro ⟨hint, hleft, hle, hpos⟩
    have hgrow : m.grow rlen = .ok (m.enlarged g) := (h.grow_eq_ok hrlen).mpr (by
      rw [← hg]
      exact ⟨hint, rfl⟩)
    have hsize := h.length_enlarged (by omega : m.alllen ≤ g)
    have hput : (m.enlarged g).put b w (min (g - m.off) n) true =
        .ok ((m.enlarged g).written w (min (g - m.off) n), asSize b (min (g - m.off) n)) := by
      refine put_eq_ok.mpr ⟨by omega, ?_, ?_, rfl⟩
      · show _ = (0 : Int) ∨ 0 ≤ m.off ∧ m.off + _ ≤ ((m.enlarged g).shareData.length : Int) ∧ _
        omega
      · show IsInt (m.off + min (g - m.off) n)
        cases hpos with
        | inl hpos => exact hint.of_le (by omega) (by omega)
        | inr hzero =>
            have hnone : m.off + min (g - m.off) n = m.off := by omega
            rw [hnone]
            exact h.offInt
    refine ⟨((m.enlarged g).written w (min (g - m.off) n), asSize b (min (g - m.off) n)), ?_, ?_⟩
    · rw [hgrow, ok_bind, hwlen'.mpr ⟨hleft, rfl⟩, ok_bind, clamp_eq (by omega) hleft]
      exact hput
    · show (if m.off + min (g - m.off) n ≥ m.len then m.off + min (g - m.off) n else m.len) ≤ g
      split
      next => omega
      next => omega

/-- By how much the capacity is short of what `write` takes the position to need.
Behind the capacity this comes of the size, read as an `int`. -/
def missing (b : Build) (m : MemoryFile) (n : Nat) : Int :=
  if m.off ≤ m.alllen then 0
  else if n + (m.off - m.alllen) < b.words then -asInt n
  else m.off - m.alllen

/-- The capacity `write` goes up to. -/
def grown (b : Build) (m : MemoryFile) (n : Nat) : Int :=
  m.alllen + m.missing b n + m.alllen / 2

/-- A write of `n` bytes that keeps the bounds: one with room in the capacity, or one
whose new capacity is an `int` and reaches the position. -/
def WriteFits (b : Build) (m : MemoryFile) (n : Nat) : Prop :=
  (0 ≤ m.off ∧ m.off < m.alllen ∧ 0 < n) ∨
    (0 ≤ m.missing b n ∧ IsInt (m.grown b n) ∧ IsInt (m.grown b n - m.off) ∧
      m.off ≤ m.grown b n ∧ (0 ≤ m.off ∨ n = 0))

/-- Where there is room, a write is in the buffer unless its position is negative. -/
theorem Sound.write_room_iff (h : m.Sound) (hn : n ≤ w.length) (hleft : IsInt (m.alllen - m.off))
    (hoff : m.off < m.alllen) (hpos : 0 < n) :
    (∃ r, m.write b w n true = .ok r ∧ r.1.len ≤ r.1.alllen) ↔ 0 ≤ m.off := by
  have hlen := h.len
  have hcapacity := h.capacity
  have hwlen := wlen_eq_ok.mpr (⟨hleft, rfl⟩ : _ ∧ clamp b (m.alllen - m.off) n = _)
  rw [clamp_eq (by omega) hleft] at hwlen
  rw [write_of_room hwlen (by omega)]
  constructor
  · rintro ⟨r, hput, -⟩
    obtain ⟨-, hroom, -⟩ := put_eq_ok.mp hput
    omega
  · intro hnonneg
    refine ⟨_, put_eq_ok.mpr ⟨by omega, by omega, h.alllenInt.of_le (by omega) (by omega), rfl⟩, ?_⟩
    show (if m.off + min (m.alllen - m.off) n ≥ m.len then m.off + min (m.alllen - m.off) n
      else m.len) ≤ m.alllen
    split
    next => omega
    next => exact hlen

/-- Behind the capacity, a write of bytes that has found room ends behind it too. -/
theorem Sound.not_write_behind (h : m.Sound) (hoff : m.alllen < m.off)
    (hwlen : m.wlen b n = .ok rlen) (hrlen : 0 < rlen) :
    ¬ ∃ r, m.write b w n true = .ok r ∧ r.1.len ≤ r.1.alllen := by
  have hlen := h.len
  rw [write_of_room hwlen hrlen]
  rintro ⟨r, hput, hle⟩
  obtain ⟨-, -, -, rfl⟩ := put_eq_ok.mp hput
  have hle : (if m.off + rlen ≥ m.len then m.off + rlen else m.len) ≤ m.alllen := hle
  rw [if_pos (by omega)] at hle
  omega

/-- A write returns in the bounds exactly when it fits. -/
theorem Sound.write_iff (h : m.Sound) (hn : n ≤ w.length) :
    (∃ r, m.write b w n true = .ok r ∧ r.1.len ≤ r.1.alllen) ↔ m.WriteFits b n := by
  have hnonneg := h.lenNonneg
  have hlen := h.len
  by_cases hleft : IsInt (m.alllen - m.off)
  case neg =>
    refine iff_of_false ?_ ?_
    · rintro ⟨r, hwrite, -⟩
      obtain ⟨rlen, hwlen, -⟩ := bind_eq_ok.mp hwrite
      exact hleft (wlen_eq_ok.mp hwlen).1
    · rintro (⟨hoff, hlt, -⟩ | ⟨hmissing, -, hint, hle, -⟩)
      · exact hleft (h.alllenInt.of_le (by omega) (by omega))
      · rw [grown] at hint hle
        generalize m.missing b n = missing at *
        have hmin := h.offInt.2
        have hmax := hint.2
        exact hleft ⟨by omega, by omega⟩
  have hwlen := wlen_eq_ok.mpr (⟨hleft, rfl⟩ : _ ∧ clamp b (m.alllen - m.off) n = _)
  rw [WriteFits, grown]
  by_cases hbehind : m.off ≤ m.alllen
  · have hmissing : m.missing b n = 0 := if_pos hbehind
    rw [hmissing]
    by_cases hroom : m.off < m.alllen ∧ 0 < n
    · rw [h.write_room_iff hn hleft hroom.1 hroom.2]
      constructor
      · intro hoff
        exact .inl ⟨hoff, hroom⟩
      · rintro (hfits | ⟨-, -, -, -, hoff⟩)
        · exact hfits.1
        · exact hoff.resolve_right (by omega)
    · rw [clamp_eq (by omega) hleft] at hwlen
      have hzero : min (m.alllen - m.off) n = 0 := by omega
      rw [h.write_grown_iff hn hwlen (by omega) rfl (fun hlt => by omega), hzero, Int.sub_zero,
        Int.add_zero, and_iff_right (Int.le_refl 0),
        or_iff_right fun hfits : 0 ≤ m.off ∧ m.off < m.alllen ∧ 0 < n => hroom hfits.2]
  · have hmissing : m.missing b n = if n + (m.off - m.alllen) < b.words then -asInt n
        else m.off - m.alllen := if_neg hbehind
    rw [or_iff_right fun hfits => hbehind (by omega), hmissing]
    rw [clamp_of_neg (by omega) hleft] at hwlen
    by_cases hsize : n + (m.off - m.alllen) < b.words
    · rw [if_pos hsize]
      rw [if_pos (by omega)] at hwlen
      have hback (left : Int) (hlt : m.alllen ≤ left + m.off) (hleft : left < 0) (hint : IsInt left) :
          clamp b left n = asInt n := by
        rw [clamp_of_neg hleft hint, if_pos (by omega)]
      generalize asInt n = rlen at *
      by_cases hrlen : 0 < rlen
      · exact iff_of_false (h.not_write_behind (by omega) hwlen hrlen) fun hfits => by omega
      · rw [h.write_grown_iff hn hwlen (by omega) rfl fun hlt hint => by
          rw [hback _ (by omega) (by omega) hint]
          omega]
        rw [Int.sub_eq_add_neg, and_iff_right (by omega : 0 ≤ -rlen)]
    · rw [if_neg hsize]
      rw [if_neg (by omega)] at hwlen
      rw [h.write_grown_iff hn hwlen (by omega) rfl (fun hlt => by omega)]
      have hsub : m.alllen - (m.alllen - m.off) = m.alllen + (m.off - m.alllen) := by omega
      rw [hsub, and_iff_right (by omega : 0 ≤ m.off - m.alllen)]

/-! ## Reading -/

theorem Sound.setOff (h : m.Sound) {off : Int} (hoff : IsInt off) : (m.setOff off).Sound :=
  ⟨h.lenNonneg, h.len, h.capacity, h.alllenInt, hoff⟩

/-- A read leaves a sound file, and no position that is negative. -/
theorem Sound.read (h : m.Sound) {update : Bool} {r : MemoryFile × Nat × Bytes}
    (hread : m.read b buffer n update = .ok r) :
    r.1.Sound ∧ (0 ≤ m.off → 0 ≤ r.1.off) := by
  obtain ⟨-, rfl⟩ | ⟨-, -, hget⟩ := read_eq_ok.mp hread
  · exact ⟨h, id⟩
  · obtain ⟨hrlen, -, hint, rfl⟩ := get_eq_ok.mp hget
    cases update with
    | false => exact ⟨h, id⟩
    | true => exact ⟨h.setOff (hint rfl), fun hoff => Int.add_nonneg hoff hrlen⟩

/-- A read that keeps the bounds: one at a position that is not negative, or of no
bytes. -/
def ReadFits (m : MemoryFile) (n : Nat) : Prop :=
  0 ≤ m.off ∨ (n = 0 ∧ IsInt (m.len - m.off))

/-- A read returns exactly when it fits. -/
theorem Sound.read_iff (h : m.Sound) {update : Bool}
    (hbuffer : min (m.len - m.off) n ≤ buffer.length) :
    (∃ r, m.read b buffer n update = .ok r) ↔ m.ReadFits n := by
  have hnonneg := h.lenNonneg
  have hlen := h.len
  have hcapacity := h.capacity
  rw [ReadFits]
  constructor
  · rintro ⟨r, hread⟩
    obtain ⟨hend, -⟩ | ⟨hlt, hint, hget⟩ := read_eq_ok.mp hread
    · exact .inl (Int.le_trans hnonneg hend)
    · obtain ⟨-, hroom, -⟩ := get_eq_ok.mp hget
      by_cases hoff : 0 ≤ m.off
      · exact .inl hoff
      · exact .inr ⟨by omega, hint⟩
  · intro hfits
    by_cases hend : m.len ≤ m.off
    · exact ⟨_, read_eq_ok.mpr (.inl ⟨hend, rfl⟩)⟩
    · have hint : IsInt (m.len - m.off) := by
        cases hfits with
        | inl hoff => exact h.alllenInt.of_le (by omega) (by omega)
        | inr hzero => exact hzero.2
      have hsum : IsInt (m.off + min (m.len - m.off) n) := by
        cases hfits with
        | inl hoff => exact h.alllenInt.of_le (by omega) (by omega)
        | inr hzero =>
            have hnone : m.off + min (m.len - m.off) n = m.off := by omega
            rw [hnone]
            exact h.offInt
      exact ⟨_, read_eq_ok.mpr (.inr ⟨by omega, hint,
        get_eq_ok.mpr ⟨by omega, by omega, fun _ => hsum, rfl⟩⟩)⟩

/-- A read that returns has room for its bytes. -/
theorem room_of_read {update : Bool} {r : MemoryFile × Nat × Bytes}
    (hread : m.read b buffer n update = .ok r) (hoff : m.off < m.len) :
    min (m.len - m.off) n ≤ buffer.length := by
  obtain ⟨hend, -⟩ | ⟨-, -, hget⟩ := read_eq_ok.mp hread
  · exact absurd hend (Int.not_le.mpr hoff)
  obtain ⟨-, hroom, -⟩ := get_eq_ok.mp hget
  cases hroom with
  | inl hzero => rw [hzero]; exact Int.natCast_nonneg _
  | inr hroom => exact hroom.2.2

/-- The loop over a line ends exactly when there is a newline at a place that an
`int` can say. -/
theorem scanLine_iff {off : Int} (hoff : 0 ≤ off) {bytes : Bytes} (hrlen : 0 ≤ rlen) :
    (∃ line, scanLine off bytes rlen = .ok line) ↔
      10 ∈ bytes.take (2147483648 - (off + rlen)).toNat := by
  induction bytes generalizing rlen with
  | nil => simp [scanLine]
  | cons c bytes ih =>
      rw [scanLine]
      by_cases hint : IsInt (off + rlen)
      case neg =>
        have hnone : (2147483648 - (off + rlen)).toNat = 0 := by
          rw [IsInt] at hint
          omega
        rw [hnone, List.take_zero]
        refine iff_of_false ?_ List.not_mem_nil
        rintro ⟨line, h⟩
        obtain ⟨place, hplace, -⟩ := bind_eq_ok.mp h
        exact hint (intResult_eq_ok.mp hplace).1
      have hnext : IsInt (rlen + 1) ∨ rlen + 1 = 2147483648 := by
        rw [IsInt] at hint ⊢
        omega
      have hsome : (2147483648 - (off + rlen)).toNat =
          (2147483648 - (off + (rlen + 1))).toNat + 1 := by
        have := hint.2
        omega
      rw [intResult_of_isInt hint, ok_bind, hsome, List.take_succ_cons, List.mem_cons]
      split
      next hc => exact iff_of_true ⟨rlen, rfl⟩ (.inl hc.symm)
      next hc =>
        rw [or_iff_right (Ne.symm hc)]
        cases hnext with
        | inl hnext =>
            rw [intResult_of_isInt hnext, ok_bind]
            exact ih (by omega)
        | inr hnext =>
            rw [hnext]
            have hnone : (2147483648 - (off + 2147483648)).toNat = 0 := by omega
            rw [hnone, List.take_zero]
            refine iff_of_false ?_ List.not_mem_nil
            rintro ⟨line, h⟩
            cases h

/-- The loop goes on from where it is. -/
theorem le_of_scanLine {off line : Int} {bytes : Bytes} (h : scanLine off bytes rlen = .ok line) :
    rlen ≤ line := by
  induction bytes generalizing rlen with
  | nil => exact nomatch h
  | cons c bytes ih =>
      obtain ⟨-, -, h⟩ := bind_eq_ok.mp h
      split at h
      next =>
        cases h
        exact Int.le_refl _
      next =>
        obtain ⟨rlen', hnext, h⟩ := bind_eq_ok.mp h
        obtain ⟨-, rfl⟩ := intResult_eq_ok.mp hnext
        exact Int.le_trans (by omega) (ih h)

/-- A call of `fgets` that keeps the bounds: one at the end of the content, or one
with a newline before it, as far as an `int` can say.  A negative count is one behind
all others. -/
def FgetsFits (m : MemoryFile) (buffer : Bytes) (maxCount : Int) : Prop :=
  m.len ≤ m.off ∨
    (0 ≤ m.off ∧ 10 ∈ (m.shareData.drop m.off.toNat).take (2147483648 - m.off).toNat ∧
      (0 ≤ maxCount ∨ m.len - m.off ≤ buffer.length))

/-- The read of `fgets`, whose size is a count of bytes or a negative one. -/
theorem Sound.read_count_iff (h : m.Sound) {update : Bool} {count : Int} (hint : IsInt count)
    (hroom : count ≤ buffer.length) (hoff : 0 ≤ m.off) (hlt : m.off < m.len) :
    (∃ r, m.read b buffer (asSize b count) update = .ok r) ↔
      0 ≤ count ∨ m.len - m.off ≤ buffer.length := by
  have hleft : IsInt (m.len - m.off) := h.alllenInt.of_le (by omega) (by have := h.len; omega)
  have hsize : min (m.len - m.off) (asSize b count) =
      if 0 ≤ count then min (m.len - m.off) count else m.len - m.off := by
    split
    next hcount => rw [asSize_of_isInt hcount hint]
    next hcount =>
      rw [asSize_of_neg (by omega) hint]
      rw [IsInt] at hint hleft
      cases b with
      | arm32 => simp only [Build.words]; omega
      | arm64 => simp only [Build.words]; omega
  by_cases hcount : 0 ≤ count
  · rw [if_pos hcount] at hsize
    rw [h.read_iff (by rw [hsize]; omega)]
    exact iff_of_true (.inl hoff) (.inl hcount)
  · rw [if_neg hcount] at hsize
    rw [or_iff_right hcount]
    constructor
    · rintro ⟨r, hread⟩
      exact hsize ▸ room_of_read hread hlt
    · intro hbuffer
      rw [← hsize] at hbuffer
      exact (h.read_iff hbuffer).mpr (.inl hoff)

/-- A call of `fgets` returns exactly when it fits. -/
theorem Sound.fgets_iff (h : m.Sound) {maxCount : Int} (hint : IsInt maxCount)
    (hroom : maxCount ≤ buffer.length) :
    (∃ r, m.fgets b buffer maxCount = .ok r) ↔ m.FgetsFits buffer maxCount := by
  rw [FgetsFits]
  by_cases hend : m.len ≤ m.off
  · exact iff_of_true ⟨_, fgets_eq_ok.mpr (.inl ⟨hend, rfl⟩)⟩ (.inl hend)
  rw [or_iff_right hend]
  by_cases hoff : 0 ≤ m.off
  case neg =>
    refine iff_of_false ?_ fun hfits => hoff hfits.1
    rintro ⟨r, hr⟩
    obtain ⟨hle, -⟩ | ⟨-, hnonneg, -⟩ := fgets_eq_ok.mp hr
    · exact hend hle
    · exact hoff hnonneg
  have hscan : (∃ line, scanLine m.off (m.shareData.drop m.off.toNat) 0 = .ok line) ↔
      10 ∈ (m.shareData.drop m.off.toNat).take (2147483648 - (m.off + 0)).toNat :=
    scanLine_iff hoff (Int.le_refl 0)
  rw [Int.add_zero] at hscan
  rw [and_iff_right hoff, ← hscan]
  -- a line is not negative, so the count read is negative only where `maxCount` is
  have hread (line : Int) (hline : 0 ≤ line) :
      (∃ r, m.read b buffer (asSize b (if line > maxCount then maxCount else line))
        (m.off ≠ 0) = .ok r) ↔
      0 ≤ (if line > maxCount then maxCount else line) ∨ m.len - m.off ≤ buffer.length := by
    refine h.read_count_iff ?_ ?_ hoff (by omega)
    · split
      next => exact hint
      next hle => exact hint.of_le hline (by omega)
    · split
      next => exact hroom
      next => omega
  have hcount (line : Int) (hline : 0 ≤ line) :
      0 ≤ (if line > maxCount then maxCount else line) ↔ 0 ≤ maxCount := by
    split
    next => exact Iff.rfl
    next hle => exact iff_of_true hline (by omega)
  constructor
  · rintro ⟨r, hr⟩
    obtain ⟨hle, -⟩ | ⟨-, -, line, r', hline, hr', -⟩ := fgets_eq_ok.mp hr
    · exact absurd hle hend
    have hnonneg := le_of_scanLine hline
    exact ⟨⟨line, hline⟩, ((hread line hnonneg).mp ⟨r', hr'⟩).imp_left (hcount line hnonneg).mp⟩
  · rintro ⟨⟨line, hline⟩, hfits⟩
    have hnonneg := le_of_scanLine hline
    obtain ⟨r, hr⟩ := (hread line hnonneg).mpr (hfits.imp_left (hcount line hnonneg).mpr)
    exact ⟨_, fgets_eq_ok.mpr (.inr ⟨by omega, hoff, line, r, hline, hr, rfl⟩)⟩

/-- `fgets` leaves what its read leaves. -/
theorem Sound.fgets (h : m.Sound) {maxCount : Int} {r : MemoryFile × Nat × Bytes}
    (hr : m.fgets b buffer maxCount = .ok r) :
    r.1.Sound ∧ (0 ≤ m.off → 0 ≤ r.1.off) := by
  obtain ⟨-, rfl⟩ | ⟨-, -, line, r', -, hread, rfl⟩ := fgets_eq_ok.mp hr
  · exact ⟨h, id⟩
  · obtain ⟨hsound, hoff⟩ := h.read hread
    exact ⟨hsound, hoff⟩

end MemoryFile

end HookLibc
