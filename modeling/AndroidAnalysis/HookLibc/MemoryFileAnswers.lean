import AndroidAnalysis.HookLibc.MemoryFileAccess
import AndroidAnalysis.HookLibc.MemoryFileHooked

/-!
# Which calls a `memory_file` answers

A callback that returns the count 0 is taken by `file_hook` to have declined, and so
is a position of -1.  `Answers` says on which calls a `memory_file` returns another
count, and `io_decides` that a method then makes no call, and otherwise passes its
handle on.
-/

namespace HookLibc

open Cpp Machine Calls

namespace MemoryFile

variable {b : Build} {m : MemoryFile} {w buffer : Bytes} {n : Nat} {rlen : Int}

/-! ## Counts -/

/-- A read that is answered: bytes, in front of the end of the content. -/
def ReadAnswers (m : MemoryFile) (n : Nat) : Prop := m.off < m.len ∧ n ≠ 0

theorem read_count {update : Bool} {r : MemoryFile × Nat × Bytes}
    (hread : m.read b buffer n update = .ok r) :
    IsInt r.2.1 ∧ (r.2.1 ≠ 0 ↔ m.ReadAnswers n) := by
  rw [ReadAnswers]
  obtain ⟨hend, rfl⟩ | ⟨hlt, hint, hget⟩ := read_eq_ok.mp hread
  · exact ⟨(by decide : IsInt 0), iff_of_false (fun h => h rfl) fun h => by omega⟩
  · obtain ⟨hrlen, -, -, rfl⟩ := get_eq_ok.mp hget
    have hmin : IsInt (min (m.len - m.off) n) := hint.of_le hrlen (by omega)
    have hcount := asSize_of_isInt (b := b) hrlen hmin
    show IsInt (asSize b (min (m.len - m.off) n)) ∧ (asSize b (min (m.len - m.off) n) ≠ 0 ↔ _)
    generalize asSize b (min (m.len - m.off) n) = count at hcount
    rw [hcount]
    exact ⟨hmin, by omega⟩

/-- A write that is answered: bytes, in front of the end of the capacity it goes up
to, or far behind the capacity. -/
def WriteAnswers (b : Build) (m : MemoryFile) (n : Nat) : Prop :=
  n ≠ 0 ∧ (m.off < m.grown b n ∨
    (m.alllen < m.off ∧ n + (m.off - m.alllen) < b.words ∧ 0 < asInt n))

theorem put_count {r : MemoryFile × Nat} (hput : m.put b w rlen true = .ok r) (hint : IsInt rlen) :
    (r.2 : Int) = rlen ∧ 0 ≤ rlen ∧ r.1.alllen = m.alllen := by
  obtain ⟨hrlen, -, -, rfl⟩ := put_eq_ok.mp hput
  exact ⟨asSize_of_isInt hrlen hint, hrlen, rfl⟩

theorem grow_alllen (halllen : 0 ≤ m.alllen) (hrlen : rlen ≤ 0) {g : MemoryFile}
    (hgrow : m.grow rlen = .ok g) :
    g.alllen = m.alllen - rlen + m.alllen / 2 ∧ g.off = m.off := by
  obtain ⟨-, rfl⟩ := enlarged_of_grow hgrow
  exact ⟨half_again halllen hrlen, rfl⟩

theorem isInt_clamp (left : Int) (size : Nat) : IsInt (clamp b left size) := by
  rw [clamp]
  exact isInt_asInt _

theorem clamp_le (b : Build) (left : Int) (size : Nat) : clamp b left size ≤ size := by
  have hcap : ∀ x : Nat, asInt x ≤ x := by
    intro x
    rw [asInt]
    split
    next => omega
    next => omega
  rw [clamp]
  split
  next => exact hcap size
  next hle => exact Int.le_trans (hcap _) (by omega)

/-- The room of `write`, on both sides of the capacity. -/
theorem wlen_cases (hwlen : m.wlen b n = .ok rlen) :
    IsInt rlen ∧ (m.off ≤ m.alllen → rlen = min (m.alllen - m.off) n) ∧
      (m.alllen < m.off →
        rlen = if n - (m.alllen - m.off) < b.words then asInt n else m.alllen - m.off) := by
  obtain ⟨hint, hrlen⟩ := wlen_eq_ok.mp hwlen
  rw [hrlen]
  exact ⟨isInt_clamp _ n, fun hle => clamp_eq (by omega) hint n,
    fun hlt => clamp_of_neg (by omega) hint n⟩

/-- The capacity of a write that finds no room. -/
theorem grown_eq (hwlen : m.wlen b n = .ok rlen) (hrlen : rlen ≤ 0) :
    m.alllen - rlen + m.alllen / 2 = m.grown b n := by
  obtain ⟨-, hfront, hback⟩ := wlen_cases hwlen
  rw [grown, missing]
  by_cases hle : m.off ≤ m.alllen
  · have := hfront hle
    rw [if_pos hle]
    omega
  · have hback := hback (by omega)
    rw [if_neg hle]
    generalize asInt n = k at *
    split at hback
    next hsize => rw [if_pos (by omega)]; omega
    next hsize => rw [if_neg (by omega)]; omega

theorem write_count (halllen : 0 ≤ m.alllen) {r : MemoryFile × Nat}
    (hwrite : m.write b w n true = .ok r) :
    IsInt r.2 ∧ (r.2 ≠ 0 ↔ m.WriteAnswers b n) ∧ 0 ≤ r.1.alllen := by
  have hzero : n = 0 → asInt n = 0 := fun hn => by rw [hn]; rfl
  rw [WriteAnswers]
  obtain ⟨rlen, hwlen, ⟨hrlen, hput⟩ | ⟨hrlen, g, rlen', hgrow, hwlen', hput⟩⟩ := write_cases hwrite
  · obtain ⟨hint, hfront, hback⟩ := wlen_cases hwlen
    obtain ⟨hcount, hnonneg, hkeep⟩ := put_count hput hint
    rw [hkeep, hcount]
    refine ⟨hint, iff_of_true (by omega) ?_, halllen⟩
    by_cases hle : m.off ≤ m.alllen
    · have := hfront hle
      have hgrown : m.grown b n = m.alllen + 0 + m.alllen / 2 := by rw [grown, missing, if_pos hle]
      rw [hgrown]
      exact ⟨by omega, .inl (by omega)⟩
    · have hback := hback (by omega)
      generalize m.grown b n = grown at *
      generalize asInt n = k at *
      split at hback
      next hsize => exact ⟨by omega, .inr (by omega)⟩
      next hsize => omega
  · obtain ⟨hint, hfront, hback⟩ := wlen_cases hwlen
    obtain ⟨halllen', hoff'⟩ := grow_alllen halllen hrlen hgrow
    obtain ⟨hint', hfront', hback'⟩ := wlen_cases hwlen'
    obtain ⟨hcount, hnonneg, hkeep⟩ := put_count hput hint'
    have hgrown := grown_eq hwlen hrlen
    rw [hgrown] at halllen'
    rw [halllen', hoff'] at hfront' hback'
    rw [hkeep, halllen', hcount]
    generalize m.grown b n = grown at *
    generalize asInt n = k at *
    refine ⟨hint', ?_, by omega⟩
    -- a size that would be written behind the capacity has not asked for room
    have hroom : ¬ (m.alllen < m.off ∧ n + (m.off - m.alllen) < b.words ∧ 0 < k) := by
      rintro ⟨hlt, hsize, hpos⟩
      have hback := hback hlt
      rw [if_pos (by omega)] at hback
      omega
    rw [or_iff_left hroom]
    by_cases hle : m.off ≤ grown
    · have := hfront' hle
      omega
    · have hback := hback (by omega)
      have hback' := hback' (by omega)
      split at hback
      next hsize =>
        rw [if_pos (by omega)] at hback'
        omega
      next hsize => omega

/-- A call of `fgets` that is answered: in front of the end of the content, with a
line that has a letter in front of its newline, or a negative count. -/
def FgetsAnswers (m : MemoryFile) (maxCount : Int) : Prop :=
  m.off < m.len ∧
    (maxCount < 0 ∨ (0 < maxCount ∧ (m.shareData.drop m.off.toNat).head? ≠ some 10))

/-- A line is empty where there is a newline at its start. -/
theorem line_eq_zero_iff {off line : Int} {bytes : Bytes} (h : scanLine off bytes 0 = .ok line) :
    line = 0 ↔ bytes.head? = some 10 := by
  cases bytes with
  | nil => exact nomatch h
  | cons c bytes =>
      rw [List.head?_cons, Option.some_inj]
      obtain ⟨-, -, h⟩ := bind_eq_ok.mp h
      split at h
      next hc =>
        cases h
        exact iff_of_true rfl hc
      next hc =>
        obtain ⟨rlen, hnext, h⟩ := bind_eq_ok.mp h
        obtain ⟨-, rfl⟩ := intResult_eq_ok.mp hnext
        have := le_of_scanLine h
        exact iff_of_false (by omega) hc

theorem fgets_count {maxCount : Int} (hint : IsInt maxCount) {r : MemoryFile × Nat × Bytes}
    (hfgets : m.fgets b buffer maxCount = .ok r) : r.2.1 ≠ 0 ↔ m.FgetsAnswers maxCount := by
  rw [FgetsAnswers]
  obtain ⟨hend, rfl⟩ | ⟨hlt, -, line, r', hline, -, rfl⟩ := fgets_eq_ok.mp hfgets
  · exact iff_of_false (fun h => h rfl) fun h => by omega
  · have hnonneg := le_of_scanLine hline
    have hrint : IsInt (if line > maxCount then maxCount else line) := by
      split
      next => exact hint
      next => exact hint.of_le hnonneg (by omega)
    rw [Ne, asSize_eq_zero_iff hrint, and_iff_right hlt, Ne, ← line_eq_zero_iff hline]
    split
    next => omega
    next => omega

/-! ## Methods -/

/-- A call that is answered. -/
def Answers (b : Build) (m : MemoryFile) : IoCall → Prop
  | .fread _ size count => m.ReadAnswers (asSize b (FileHook.rdSize b size count))
  | .fwrite _ size count _ => m.WriteAnswers b (FileHook.wtSize b size count)
  | .fgets _ maxCount => m.FgetsAnswers (asInt maxCount)
  | .fputs s => m.WriteAnswers b s.length
  | .fseek .. | .ftell => m.off ≠ -1
  | .rewind => True
  | .read _ nbytes => m.ReadAnswers nbytes
  | .pread _ count offset => (m.setOff (asInt offset)).ReadAnswers count
  | .write _ count _ => m.WriteAnswers b count
  | .pwrite _ count offset _ => (m.setOff (asInt offset)).WriteAnswers b count

/-- A program that faults where the callbacks do, and otherwise leaves the file that
they leave, at once if the call is answered, and with a call on the handle if not. -/
def Decides {α : Type} (h : Handle) (x : Except Fault MemoryFile) (answers : Prop)
    (p : Prog (MemoryFile × α)) : Prop :=
  match x with
  | .error _ => ∃ e, p = .fault e
  | .ok m' => (answers → ∃ a, p = .ret (m', a)) ∧
      (¬ answers → ∃ c k, p = .call c k ∧ c.handle = some h)

section
variable {α β : Type} {h : Handle} {answers : Prop}

/-- A method that looks at what a callback returns. -/
theorem decides_bind {x : Except Fault (MemoryFile × β)}
    {f : MemoryFile × β → Prog (MemoryFile × α)} {t : MemoryFile × β → Prop}
    (hanswers : ∀ r, x = .ok r → (t r ↔ answers))
    (hret : ∀ r, t r → ∃ a, f r = .ret (r.1, a))
    (hcall : ∀ r, ¬ t r → ∃ c k, f r = .call c k ∧ c.handle = some h) :
    Decides h (Prod.fst <$> x) answers (ofExcept x >>= f) := by
  cases x with
  | error e => exact ⟨e, rfl⟩
  | ok r =>
      have hiff := hanswers r rfl
      exact ⟨fun ha => hret r (hiff.mpr ha), fun ha => hcall r fun ht => ha (hiff.mp ht)⟩

/-- A method between two changes of the position. -/
theorem Decides.map {x : Except Fault MemoryFile} {p : Prog (MemoryFile × α)}
    (hp : Decides h x answers p) (f : MemoryFile → MemoryFile) :
    Decides h (f <$> x) answers (p >>= fun r => .ret (f r.1, r.2)) := by
  cases x with
  | error e =>
      obtain ⟨e', rfl⟩ := hp
      exact ⟨e', rfl⟩
  | ok m' =>
      constructor
      · intro ha
        obtain ⟨a, rfl⟩ := hp.1 ha
        exact ⟨a, rfl⟩
      · intro ha
        obtain ⟨c, k, rfl, hc⟩ := hp.2 ha
        exact ⟨c, _, rfl, hc⟩

end

/-- The handle stays from the C library where the callbacks return and the call is
answered. -/
theorem Decides.meets_iff {α : Type} {h : Handle} {answers : Prop} {x : Except Fault MemoryFile}
    {p : Prog (MemoryFile × α)} {P : MemoryFile × α → Prop} (hp : Decides h x answers p) :
    p.Meets (libcElsewhere h) P ↔
      ∃ m', x = .ok m' ∧ answers ∧ ∃ a, p = .ret (m', a) ∧ P (m', a) := by
  cases x with
  | error e =>
      obtain ⟨e', rfl⟩ := hp
      exact iff_of_false id nofun
  | ok m' =>
      by_cases ha : answers
      · obtain ⟨a, rfl⟩ := hp.1 ha
        constructor
        · intro hP
          exact ⟨m', rfl, ha, a, rfl, hP⟩
        · rintro ⟨m'', -, -, a', hret, hP⟩
          cases hret
          exact hP
      · obtain ⟨c, k, rfl, hc⟩ := hp.2 ha
        refine iff_of_false (fun hmeets => hmeets.1 hc) ?_
        rintro ⟨m'', -, hanswers, -⟩
        exact ha hanswers

section
variable {h : Handle}

theorem read_decides (buffer : Bytes) (n : Nat) :
    Decides h (Prod.fst <$> m.read b buffer n true) (m.ReadAnswers n)
      (FileHook.read (memoryFile b) m h buffer n) := by
  rw [FileHook.read, memoryFile_beforeRead_read]
  exact decides_bind (fun r hr => (read_count hr).2) (fun r ht => ⟨r.2, if_pos ht⟩)
    fun _ ht => ⟨_, _, if_neg ht, rfl⟩

theorem write_decides (halllen : 0 ≤ m.alllen) (w : Bytes) (n : Nat) (owned : n ≤ w.length) :
    Decides h (Prod.fst <$> m.write b w n true) (m.WriteAnswers b n)
      (FileHook.write (memoryFile b) m h w n owned) :=
  decides_bind (fun _ hr => (write_count halllen hr).2.1) (fun r ht => ⟨r.2, if_pos ht⟩)
    fun _ ht => ⟨_, _, if_neg ht, rfl⟩

theorem fread_decides (buffer : Bytes) (size count : Nat) :
    Decides h (Prod.fst <$> m.read b buffer (asSize b (FileHook.rdSize b size count)) true)
      (m.ReadAnswers (asSize b (FileHook.rdSize b size count)))
      (FileHook.fread b (memoryFile b) m buffer size count h) := by
  rw [FileHook.fread, memoryFile_beforeRead_read]
  refine decides_bind (fun r hr => ?_) (fun _ ht => ⟨_, if_pos ht⟩)
    fun _ ht => ⟨_, _, if_neg ht, rfl⟩
  obtain ⟨hint, hiff⟩ := read_count hr
  rw [asInt_of_isInt hint, ← hiff, Ne, Int.natCast_eq_zero]

theorem fwrite_decides (halllen : 0 ≤ m.alllen) (w : Bytes) (size count : Nat)
    (owned : size * count ≤ w.length) :
    Decides h (Prod.fst <$> m.write b w (FileHook.wtSize b size count) true)
      (m.WriteAnswers b (FileHook.wtSize b size count))
      (FileHook.fwrite b (memoryFile b) m w size count owned h) :=
  decides_bind (fun _ hr => (write_count halllen hr).2.1) (fun r ht => ⟨r.2, if_pos ht⟩)
    fun _ ht => ⟨_, _, if_neg ht, rfl⟩

theorem fputs_decides (halllen : 0 ≤ m.alllen) (s : Bytes) :
    Decides h (Prod.fst <$> m.write b s s.length true) (m.WriteAnswers b s.length)
      (FileHook.fputs (memoryFile b) m s h) := by
  refine decides_bind (fun r hr => ?_) (fun _ ht => ⟨_, if_pos ht⟩)
    fun _ ht => ⟨_, _, if_neg ht, rfl⟩
  obtain ⟨hint, hiff, -⟩ := write_count halllen hr
  rw [asInt_of_isInt hint, ← hiff, Ne, Int.natCast_eq_zero]

theorem fgets_decides (buffer : Bytes) (maxCount : Int) :
    Decides h (Prod.fst <$> m.fgets b buffer (asInt (asSize b maxCount)))
      (m.FgetsAnswers (asInt maxCount))
      (FileHook.fgets b (memoryFile b) m buffer maxCount h) := by
  rw [FileHook.fgets, memoryFile_beforeRead_fgets, asInt_asSize]
  exact decides_bind (fun r hr => fgets_count (isInt_asInt maxCount) hr)
    (fun _ ht => ⟨_, if_pos ht⟩) fun _ ht => ⟨_, _, if_neg ht, rfl⟩

theorem fseek_decides (halllen : 0 ≤ m.alllen) (offset whence : Int) :
    Decides h (m.after b (.fseek offset whence)) (m.off ≠ -1)
      (FileHook.fseek b (memoryFile b) m offset whence h) := by
  show Decides h _ _ (if m.off = -1 then _ else (if m.alllen = -1 then _ else _ : Prog _) : Prog _)
  rw [after]
  by_cases hoff : m.off = -1
  · rw [if_pos hoff, if_pos (.inl hoff)]
    exact ⟨fun ha => absurd hoff ha, fun _ => ⟨_, _, rfl, rfl⟩⟩
  · rw [if_neg hoff, if_neg (by omega), if_neg (by omega)]
    cases FileHook.seekOff b (memoryFile b) m offset whence with
    | error e => exact ⟨e, rfl⟩
    | ok off => exact ⟨fun _ => ⟨_, rfl⟩, fun ha => absurd hoff ha⟩

theorem ftell_decides :
    Decides h (.ok m) (m.off ≠ -1) (FileHook.ftell (memoryFile b) m h) := by
  show Decides h _ _ (if m.off = -1 then _ else (if m.off ≠ -1 then _ else _) : Prog _)
  by_cases hoff : m.off = -1
  · rw [if_pos hoff]
    exact ⟨fun ha => absurd hoff ha, fun _ => ⟨_, _, rfl, rfl⟩⟩
  · rw [if_neg hoff, if_pos hoff]
    exact ⟨fun _ => ⟨_, rfl⟩, fun ha => absurd hoff ha⟩

/-- Where the call is answered a method makes no call, and where it is not, it passes
its handle on. -/
theorem io_decides (halllen : 0 ≤ m.alllen) (c : IoCall) :
    Decides h (m.after b c) (m.Answers b c) (FileHook.io b (memoryFile b) m h c) := by
  cases c with
  | fread buffer size count => exact fread_decides buffer size count
  | fwrite w size count owned => exact fwrite_decides halllen w size count owned
  | fgets buffer maxCount => exact fgets_decides buffer maxCount
  | fputs s => exact fputs_decides halllen s
  | fseek offset whence => exact fseek_decides halllen offset whence
  | ftell => exact ftell_decides
  | rewind => exact ⟨fun _ => ⟨(), rfl⟩, fun ha => absurd trivial ha⟩
  | read buffer nbytes => exact read_decides buffer nbytes
  | pread buffer count offset =>
      have hread := read_decides (b := b) (m := m.setOff (asInt offset)) (h := h) buffer count
      have hback := hread.map fun m' => m'.setOff m.off
      rw [Functor.map_map] at hback
      exact hback
  | write w count owned => exact write_decides halllen w count owned
  | pwrite w count offset owned =>
      have hwrite := write_decides (b := b) (m := m.setOff (asInt offset)) (h := h) halllen w count
        owned
      have hback := hwrite.map fun m' => m'.setOff m.off
      rw [Functor.map_map] at hback
      exact hback

end

/-! ## The capacity -/

theorem read_alllen {update : Bool} {r : MemoryFile × Nat × Bytes}
    (hread : m.read b buffer n update = .ok r) : r.1.alllen = m.alllen := by
  obtain ⟨-, rfl⟩ | ⟨-, -, hget⟩ := read_eq_ok.mp hread
  · rfl
  · obtain ⟨-, -, -, rfl⟩ := get_eq_ok.mp hget
    rfl

theorem fgets_alllen {maxCount : Int} {r : MemoryFile × Nat × Bytes}
    (hfgets : m.fgets b buffer maxCount = .ok r) : r.1.alllen = m.alllen := by
  obtain ⟨-, rfl⟩ | ⟨-, -, line, r', -, hread, rfl⟩ := fgets_eq_ok.mp hfgets
  · rfl
  · have hkeep := read_alllen hread
    exact hkeep

/-- No call makes the capacity negative. -/
theorem alllen_after (halllen : 0 ≤ m.alllen) {c : IoCall} {m' : MemoryFile}
    (hafter : m.after b c = .ok m') : 0 ≤ m'.alllen := by
  cases change_of_after hafter with
  | same | seek => exact halllen
  | read hread | pread _ hread => exact halllen.trans_eq (read_alllen hread).symm
  | fgets hfgets => exact halllen.trans_eq (fgets_alllen hfgets).symm
  | write hwrite => exact (write_count halllen hwrite).2.2
  | @pwrite off _ _ _ _ hwrite => exact (write_count (m := m.setOff off) halllen hwrite).2.2

end MemoryFile

end HookLibc
