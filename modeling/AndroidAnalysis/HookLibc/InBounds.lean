import AndroidAnalysis.HookLibc.MemoryFileAccess
import AndroidAnalysis.HookLibc.MemoryFileHooked
import AndroidAnalysis.HookLibc.MemoryFileRefines

/-!
# The bounds of a `memory_file`

`Fits` is the condition on a file and on a hooked call that keeps the bounds, and a
life of a file is in the bounds exactly when its constructor and its calls fit.
-/

namespace HookLibc

open Cpp Machine Calls Words

namespace MemoryFile

variable {b : Build} {m : MemoryFile} {w buffer : Bytes} {n : Nat}

/-! ## Hooked calls -/

/-- A call of `fseek` that keeps the bounds: its position, made an `int`, is not
negative. -/
def SeekFits (b : Build) (m : MemoryFile) (offset whence : Int) : Prop :=
  if whence = 0 then 0 ≤ asInt offset
  else if whence = 1 then IsLong b (m.off + offset) ∧ 0 ≤ asInt (m.off + offset)
  else if whence = 2 then
    IsLong b (m.alllen - 1 + offset) ∧ 0 ≤ asInt (m.alllen - 1 + offset)
  else True

/-- A hooked call that keeps the bounds. -/
def Fits (b : Build) (m : MemoryFile) : IoCall → Prop
  | .fread .. | .read .. | .ftell | .rewind => True
  | .fwrite _ size count _ => m.WriteFits b (FileHook.wtSize b size count)
  | .fgets buffer maxCount => m.FgetsFits buffer maxCount
  | .fputs s => m.WriteFits b s.length
  | .fseek offset whence => m.SeekFits b offset whence
  | .pread _ count offset => (m.setOff (asInt offset)).ReadFits count
  | .write _ count _ => m.WriteFits b count
  | .pwrite _ count offset _ => (m.setOff (asInt offset)).WriteFits b count

/-- The caller's buffer is as large as the call says. -/
def Roomy : IoCall → Prop
  | .fread buffer size count => size * count ≤ buffer.length
  | .fgets buffer maxCount => IsInt maxCount ∧ maxCount ≤ buffer.length
  | .read buffer nbytes => nbytes ≤ buffer.length
  | .pread buffer count _ => count ≤ buffer.length
  | _ => True

/-- A write returns with what follows from its bounds exactly when it fits. -/
theorem Sound.write_iff_of (h : m.Sound) (hn : n ≤ w.length) {P : MemoryFile → Prop}
    (hP : ∀ r, m.write b w n true = .ok r → (P r.1 ↔ r.1.len ≤ r.1.alllen)) :
    (∃ r, m.write b w n true = .ok r ∧ P r.1) ↔ m.WriteFits b n := by
  rw [← h.write_iff hn]
  exact exists_congr fun r => and_congr_right (hP r)

/-- A write at the position. -/
theorem Sound.write_inBounds_iff (h : m.Sound) (hoff : 0 ≤ m.off) (hn : n ≤ w.length) :
    (∃ r, m.write b w n true = .ok r ∧ r.1.InBounds) ↔ m.WriteFits b n := by
  refine h.write_iff_of hn fun r hwrite => ⟨fun hin => hin.len, fun hle => ?_⟩
  obtain ⟨hsound, hnonneg⟩ := h.write hwrite hle
  exact hsound.inBounds (hnonneg hoff)

/-- A write elsewhere, after which the position is set back. -/
theorem Sound.pwrite_inBounds_iff (h : m.Sound) {off : Int} (hoff : 0 ≤ off) (hn : n ≤ w.length) :
    (∃ r, m.write b w n true = .ok r ∧ (r.1.setOff off).InBounds) ↔ m.WriteFits b n := by
  refine h.write_iff_of (P := fun f => (f.setOff off).InBounds) hn fun r hwrite =>
    ⟨fun hin => hin.len, fun hle => ?_⟩
  obtain ⟨hsound, -⟩ := h.write hwrite hle
  exact ⟨hoff, hsound.len, hsound.capacity⟩

/-- A read at a position that is not negative. -/
theorem Sound.read_inBounds (h : m.Sound) (hoff : 0 ≤ m.off)
    (hroom : min (m.len - m.off) n ≤ buffer.length) :
    ∃ r, m.read b buffer n true = .ok r ∧ r.1.InBounds := by
  obtain ⟨r, hread⟩ := (h.read_iff hroom).mpr (.inl hoff)
  obtain ⟨hsound, hnonneg⟩ := h.read hread
  exact ⟨r, hread, hsound.inBounds (hnonneg hoff)⟩

/-- A read elsewhere, after which the position is set back. -/
theorem Sound.pread_inBounds_iff (h : m.Sound) {off : Int} (hoff : 0 ≤ off)
    (hn : n ≤ buffer.length) :
    (∃ r, m.read b buffer n true = .ok r ∧ (r.1.setOff off).InBounds) ↔ m.ReadFits n := by
  have hroom : min (m.len - m.off) n ≤ buffer.length :=
    Int.le_trans (Int.min_le_right ..) (Int.ofNat_le.mpr hn)
  have hiff : (∃ r, m.read b buffer n true = .ok r) ↔ m.ReadFits n := h.read_iff hroom
  rw [← hiff]
  refine exists_congr fun r => and_iff_left_of_imp fun hread => ?_
  obtain ⟨hsound, -⟩ := h.read hread
  exact ⟨hoff, hsound.len, hsound.capacity⟩

/-- A position that is a sum of `long`s. -/
theorem seek_long_iff {x : Int} (hin : (m.setOff (asInt x)).InBounds ↔ 0 ≤ asInt x) :
    (∃ a, (longResult b x >>= fun off => .ok (m, asInt off)) = .ok a ∧
      (a.1.setOff a.2).InBounds) ↔ IsLong b x ∧ 0 ≤ asInt x := by
  rw [longResult]
  split
  next hlong =>
    rw [and_iff_right hlong]
    exact exists_ok.trans hin
  next hlong =>
    refine iff_of_false ?_ fun hfits => hlong hfits.1
    rintro ⟨a, ha, -⟩
    cases ha

/-- The position that `fseek` gives. -/
theorem Sound.seek_inBounds_iff (h : m.Sound) (hoff : 0 ≤ m.off) {offset whence : Int} :
    (∃ m', m.after b (.fseek offset whence) = .ok m' ∧ m'.InBounds) ↔
      m.SeekFits b offset whence := by
  have hin (off : Int) : (m.setOff off).InBounds ↔ 0 ≤ off :=
    ⟨fun hin => hin.off, fun hoff => ⟨hoff, h.len, h.capacity⟩⟩
  have hnonneg := h.lenNonneg
  have hlen := h.len
  have hlast : IsInt (m.alllen - 1) := by
    have := h.alllenInt
    rw [IsInt] at this ⊢
    omega
  rw [after, if_neg (by omega), map_eq_ok, FileHook.seekOff, SeekFits]
  by_cases hset : whence = 0
  · rw [if_pos hset, if_pos hset]
    exact exists_ok.trans (hin _)
  rw [if_neg hset, if_neg hset]
  by_cases hcur : whence = 1
  · rw [if_pos hcur, if_pos hcur]
    exact seek_long_iff (hin _)
  rw [if_neg hcur, if_neg hcur]
  by_cases hend : whence = 2
  · rw [if_pos hend, if_pos hend]
    show (∃ a, (intResult (m.alllen - 1) >>= fun last => longResult b (last + offset) >>=
      fun off => .ok (m, asInt off)) = .ok a ∧ (a.1.setOff a.2).InBounds) ↔ _
    rw [intResult_of_isInt hlast, ok_bind]
    exact seek_long_iff (hin _)
  · rw [if_neg hend, if_neg hend]
    exact exists_ok.trans ((hin 0).trans (iff_true_intro (Int.le_refl 0)))

/-- The size of `fread`, which goes through an `int`. -/
theorem Sound.fread_room (h : m.Sound) (hoff : 0 ≤ m.off) {size count : Nat}
    (hroom : size * count ≤ buffer.length) :
    min (m.len - m.off) (asSize b (FileHook.rdSize b size count)) ≤ buffer.length := by
  have hlen := h.len
  by_cases hlt : m.off < m.len
  · have hleft : IsInt (m.len - m.off) := h.alllenInt.of_le (by omega) (by omega)
    exact Int.le_trans (FileHook.rdSize_le b hleft size count) (Int.ofNat_le.mpr hroom)
  · exact Int.le_trans (Int.min_le_left ..) (by omega)

/-- A hooked call returns in the bounds exactly when it fits. -/
theorem Sound.after_inBounds_iff (h : m.Sound) (hoff : 0 ≤ m.off) {c : IoCall} (hc : Roomy c) :
    (∃ m', m.after b c = .ok m' ∧ m'.InBounds) ↔ m.Fits b c := by
  cases c with
  | fread buffer size count =>
      exact iff_true_intro (map_eq_ok.mpr (h.read_inBounds hoff (h.fread_room hoff hc)))
  | fwrite buffer size count owned =>
      exact map_eq_ok.trans (h.write_inBounds_iff hoff
        ((FileHook.wtSize_le b size count).trans owned))
  | fgets buffer maxCount =>
      obtain ⟨hint, hroom⟩ := hc
      rw [after, map_eq_ok, asInt_asSize, asInt_of_isInt hint, Fits, ← h.fgets_iff hint hroom]
      refine exists_congr fun r => and_iff_left_of_imp fun hr => ?_
      obtain ⟨hsound, hnonneg⟩ := h.fgets hr
      exact hsound.inBounds (hnonneg hoff)
  | fputs s => exact map_eq_ok.trans (h.write_inBounds_iff hoff (Nat.le_refl _))
  | fseek offset whence => exact h.seek_inBounds_iff hoff
  | ftell => exact iff_true_intro ⟨m, rfl, h.inBounds hoff⟩
  | rewind => exact iff_true_intro ⟨m.setOff 0, rfl, Int.le_refl 0, h.len, h.capacity⟩
  | read buffer nbytes => exact iff_true_intro (map_eq_ok.mpr (h.read_inBounds hoff
      (Int.le_trans (Int.min_le_right ..) (Int.ofNat_le.mpr hc))))
  | pread buffer count offset =>
      exact map_eq_ok.trans ((h.setOff (isInt_asInt offset)).pread_inBounds_iff hoff hc)
  | write buffer count owned => exact map_eq_ok.trans (h.write_inBounds_iff hoff owned)
  | pwrite buffer count offset owned =>
      exact map_eq_ok.trans ((h.setOff (isInt_asInt offset)).pwrite_inBounds_iff hoff owned)

/-- The file of a call that has kept the bounds is sound. -/
theorem Sound.after_sound (h : m.Sound) {c : IoCall} {m' : MemoryFile}
    (hafter : m.after b c = .ok m') (hin : m'.InBounds) : m'.Sound := by
  cases change_of_after hafter with
  | same => exact h
  | seek hint => exact h.setOff hint
  | read hread => exact (h.read hread).1
  | fgets hfgets => exact (h.fgets hfgets).1
  | write hwrite => exact (h.write hwrite hin.len).1
  | pread hint hread => exact ((h.setOff hint).read hread).1.setOff h.offInt
  | pwrite hint hwrite => exact ((h.setOff hint).write hwrite hin.len).1.setOff h.offInt

/-! ## Constructors -/

/-- A constructor with its arguments, where the area is all that `data` points to. -/
inductive Constructor
  | copying (data : Bytes) (len : Int)
  | moving (data : Bytes) (len : Int)
  | empty

namespace Constructor

/-- The object. -/
def make (this : Handle) (fd : Int) : Constructor → Except Fault MemoryFile
  | .copying data len => MemoryFile.copying this fd data len
  | .moving data len => MemoryFile.moving this fd data len
  | .empty => MemoryFile.empty this fd

/-- The caller's area has the length that it says. -/
def Owned : Constructor → Prop
  | .copying data len | .moving data len => 0 ≤ len ∧ len ≤ data.length
  | .empty => True

/-- A constructor that establishes the bounds: one half more than the length is an
`int`, and is inside an area that is taken over. -/
def Fits : Constructor → Prop
  | .copying _ len => IsInt ((3 * len).tdiv 2)
  | .moving data len => IsInt ((3 * len).tdiv 2) ∧ (3 * len).tdiv 2 ≤ data.length
  | .empty => True

variable {this : Handle} {fd : Int} {ctor : Constructor}

/-- Half as much again of a length is no less. -/
theorem le_tdiv {len : Int} (h : 0 ≤ len) : len ≤ (3 * len).tdiv 2 := by
  rw [Int.tdiv_eq_ediv_of_nonneg (by omega)]
  omega

theorem copying_ok (this : Handle) (fd : Int) {data : Bytes} {len : Int}
    (h : Owned (.copying data len))
    (hint : IsInt ((3 * len).tdiv 2)) : ∃ m, MemoryFile.copying this fd data len = .ok m := by
  obtain ⟨hlen, hdata⟩ := h
  have hle := le_tdiv hlen
  have hload : load data 0 len = .ok (data.take len.toNat) :=
    load_eq_ok.mpr ⟨hlen, .inr ⟨Int.le_refl 0, by omega⟩, rfl⟩
  have hlength := length_of_load hload
  have hstore : store (List.replicate ((3 * len).tdiv 2).toNat 0) 0 (data.take len.toNat) =
      .ok (overwrite (List.replicate ((3 * len).tdiv 2).toNat 0) 0 (data.take len.toNat)) :=
    store_eq_ok.mpr ⟨.inr ⟨Int.le_refl 0, by rw [List.length_replicate]; omega⟩, rfl⟩
  rw [MemoryFile.copying, intResult_of_isInt hint, ok_bind,
    newChars_eq_ok.mpr ⟨Int.le_trans hlen hle, rfl⟩, ok_bind, hload, ok_bind, hstore]
  exact ⟨_, rfl⟩

theorem moving_eq_ok {data : Bytes} {len : Int} :
    MemoryFile.moving this fd data len = .ok m ↔ IsInt ((3 * len).tdiv 2) ∧
      m = ⟨this, fd, [], (3 * len).tdiv 2, len, 0, data⟩ := by
  rw [MemoryFile.moving]
  constructor
  · intro h
    obtain ⟨alllen, halllen, h⟩ := bind_eq_ok.mp h
    obtain ⟨hint, rfl⟩ := intResult_eq_ok.mp halllen
    cases h
    exact ⟨hint, rfl⟩
  · rintro ⟨hint, rfl⟩
    rw [intResult_of_isInt hint]
    rfl

/-- An object in the bounds is sound. -/
theorem sound_of_make (h : ctor.Owned) (hmake : ctor.make this fd = .ok m) (hin : m.InBounds) :
    m.Sound := by
  cases ctor with
  | copying data len => exact (Built.copying hmake).rep.sound
  | moving data len =>
      obtain ⟨hint, rfl⟩ := moving_eq_ok.mp hmake
      exact ⟨h.1, hin.len, hin.capacity, hint, (by decide : IsInt 0)⟩
  | empty => exact (Built.empty hmake).rep.sound

/-- A constructor makes an object in the bounds exactly when it fits. -/
theorem make_inBounds_iff (this : Handle) (fd : Int) (h : ctor.Owned) :
    (∃ m, ctor.make this fd = .ok m ∧ m.InBounds) ↔ ctor.Fits := by
  cases ctor with
  | copying data len =>
      constructor
      · rintro ⟨m, hmake, -⟩
        obtain ⟨alllen, halllen, -⟩ := bind_eq_ok.mp hmake
        exact (intResult_eq_ok.mp halllen).1
      · intro hint
        obtain ⟨m, hmake⟩ := copying_ok this fd h hint
        have hrep := (Built.copying hmake).rep
        exact ⟨m, hmake, hrep.sound.inBounds (Int.le_of_eq hrep.pos.symm)⟩
  | moving data len =>
      constructor
      · rintro ⟨m, hmake, hin⟩
        obtain ⟨hint, rfl⟩ := moving_eq_ok.mp hmake
        exact ⟨hint, hin.capacity⟩
      · rintro ⟨hint, hle⟩
        exact ⟨_, moving_eq_ok.mpr ⟨hint, rfl⟩, Int.le_refl 0, le_tdiv h.1, hle⟩
  | empty =>
      refine iff_true_intro ⟨_, rfl, Int.le_refl 0, (by decide : (0 : Int) ≤ 1024 * 2), ?_⟩
      exact Int.le_of_eq (congrArg Int.ofNat List.length_replicate).symm

end Constructor

/-! ## Runs -/

/-- The life of a `memory_file`: its constructor, and hooked calls. -/
def life (b : Build) (h this : Handle) (fd : Int) (ctor : Constructor) (calls : List IoCall) :
    Prog MemoryFile := do
  let m ← ofExcept (ctor.make this fd)
  Calls.run (hookedStep b (memoryFile b) h) m calls

variable {h this : Handle} {fd : Int} {ctor : Constructor} {calls : List IoCall}

theorem life_meets_iff {Q : MemoryFile → Prop} :
    (life b h this fd ctor calls).Meets libcText Q ↔
      ∃ m, ctor.make this fd = .ok m ∧ ∃ m', Machine.run (after b) m calls = .ok m' ∧ Q m' := by
  rw [life, ofExcept_bind_meets]
  exact exists_congr fun m => and_congr_right fun _ =>
    run_meets_iff fun _ c _ _ => hookedStep_meets_iff c

/-- All states of a life are in the bounds, and all its accesses, exactly when the
constructor fits and every call fits the file it is made on. -/
theorem life_inBounds_iff (hctor : ctor.Owned) (hcalls : ∀ c ∈ calls, Roomy c) :
    (∀ p, p <+: calls → (life b h this fd ctor p).Meets libcText InBounds) ↔
      ctor.Fits ∧ ∀ mid c post, calls = mid ++ c :: post → ∀ m m',
        ctor.make this fd = .ok m → Machine.run (after b) m mid = .ok m' → m'.Fits b c := by
  simp only [life_meets_iff]
  rw [← Constructor.make_inBounds_iff this fd hctor]
  by_cases hmake : ∃ m, ctor.make this fd = .ok m ∧ m.InBounds
  case neg =>
    refine iff_of_false (fun hall => ?_) fun hall => hmake hall.1
    obtain ⟨m, hm, m', hrun, hin⟩ := hall [] List.nil_prefix
    cases hrun
    exact hmake ⟨m, hm, hin⟩
  obtain ⟨m, hm, hin⟩ := hmake
  rw [and_iff_right ⟨m, hm, hin⟩]
  have hsafe : (∀ p, p <+: calls → ∃ m', Machine.run (after b) m p = .ok m' ∧ m'.InBounds) ↔
      ∀ mid c post, calls = mid ++ c :: post → ∀ m', Machine.run (after b) m mid = .ok m' →
        m'.Fits b c :=
    run_safe_iff (fun m => m.Sound ∧ 0 ≤ m.off) InBounds (Fits b)
      (fun m c hc hm => hm.1.after_inBounds_iff hm.2 (hcalls c hc))
      (fun m c m' _ hm hafter hin => ⟨hm.1.after_sound hafter hin, hin.off⟩)
      ⟨Constructor.sound_of_make hctor hm hin, hin.off⟩ hin
  constructor
  · intro hall mid c post hsplit m₁ m' hm₁ hrun
    cases hm.symm.trans hm₁
    refine hsafe.mp (fun p hp => ?_) mid c post hsplit m' hrun
    obtain ⟨m₂, hm₂, hrun⟩ := hall p hp
    cases hm.symm.trans hm₂
    exact hrun
  · intro hall p hp
    exact ⟨m, hm, hsafe.mpr (fun mid c post hsplit m' => hall mid c post hsplit m m' hm) p hp⟩

/-- A write to a copy of three bytes. -/
theorem life_inBounds_write : (life .arm64 0 0 0 (.copying [1, 2, 3] 3)
    [.write [9] 1 (Nat.le_refl 1)]).Meets libcText InBounds := by
  have hctor : Constructor.Owned (.copying [1, 2, 3] 3) := ⟨by decide, by decide⟩
  have hcalls : ∀ c ∈ [IoCall.write [9] 1 (Nat.le_refl 1)], Roomy c := by
    intro c hc
    cases List.mem_singleton.mp hc
    trivial
  refine (life_inBounds_iff hctor hcalls).mpr ⟨(by decide : IsInt 4), ?_⟩ _ (List.prefix_refl _)
  intro mid c post hsplit m m' hmake hrun
  cases mid with
  | nil =>
      cases hsplit
      cases hmake
      cases hrun
      exact .inl (by decide)
  | cons c' mid => exact absurd (List.cons.inj hsplit).2 (by simp)

/-- `fseek` goes in front of the buffer, and a read there is outside it. -/
theorem life_not_inBounds :
    ¬ (life .arm64 0 0 0 (.copying [1, 2, 3] 3) [.fseek (-1) 0]).Meets libcText InBounds ∧
      ¬ (life .arm64 0 0 0 (.copying [1, 2, 3] 3) [.fseek (-1) 0, .read [0] 1]).Meets libcText
        fun _ => True := by
  constructor
  · rw [life_meets_iff]
    rintro ⟨m, hmake, m', hrun, hin⟩
    cases hmake
    cases hrun
    exact absurd hin.off (by decide)
  · rw [life_meets_iff]
    rintro ⟨m, hmake, m', hrun, -⟩
    cases hmake
    cases hrun

end MemoryFile

end HookLibc
