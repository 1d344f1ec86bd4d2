import AndroidAnalysis.HookLibc.MemoryFileReached

/-!
# Seeking in a `memory_file`

`file_hook::fseek` counts `SEEK_END` from one in front of `on_get_file_size`, which
is the capacity, and the standard counts it from the end of the content.  A position
of -1 is none to `file_hook`, and goes to the C library.
-/

namespace HookLibc

open Cpp Machine Calls Words

namespace MemoryFile

/-- The content. -/
def content (m : MemoryFile) : Bytes := m.shareData.take m.len.toNat

/-- Where the standard has `fseek` go. -/
def seekTarget (m : MemoryFile) (offset whence : Int) : Int :=
  if whence = 0 then offset else if whence = 1 then m.off + offset else m.len + offset

/-- What is asked of the file: a seek, a `rewind`, or a write at its end. -/
inductive SeekRequest
  | seek (offset whence : Int)
  | rewind
  | append (w : Bytes)

namespace SeekRequest

/-- `fseek`, and the position that `ftell` gives behind it. -/
def seekTell (b : Build) (h : Handle) (m : MemoryFile) (offset whence : Int) :
    Prog (Int × Int) := do
  let set ← FileHook.fseek b (memoryFile b) m offset whence h
  let pos ← FileHook.ftell (memoryFile b) set.1 h
  .ret (set.2, pos.2)

/-- `rewind`, and the position that `ftell` gives behind it. -/
def rewindTell (b : Build) (h : Handle) (m : MemoryFile) : Prog Int := do
  let set ← FileHook.rewind (memoryFile b) m h
  let pos ← FileHook.ftell (memoryFile b) set.1 h
  .ret pos.2

/-- `fseek` to the end, and a write there. -/
def seekWrite (b : Build) (h : Handle) (m : MemoryFile) (w : Bytes) :
    Prog (Int × MemoryFile × Nat) := do
  let set ← FileHook.fseek b (memoryFile b) m 0 2 h
  let r ← ofExcept ((memoryFile b).beforeWrite set.1 w w.length)
  .ret (set.2, r)

/-- One of the three kinds of seek, with its target in the content, or bytes to
write. -/
def Valid (m : MemoryFile) : SeekRequest → Prop
  | .seek offset whence =>
      (whence = 0 ∨ whence = 1 ∨ whence = 2) ∧ 0 ≤ m.seekTarget offset whence ∧
        m.seekTarget offset whence ≤ m.len
  | .rewind => True
  | .append w => w ≠ []

/-- The request is met as the standard has it. -/
def Follows (b : Build) (h : Handle) (m : MemoryFile) : SeekRequest → Prop
  | .seek offset whence =>
      (seekTell b h m offset whence).Meets libcText fun r =>
        r.1 = 0 ∧ r.2 = m.seekTarget offset whence
  | .rewind => (rewindTell b h m).Meets libcText fun pos => pos = 0
  | .append w =>
      (seekWrite b h m w).Meets libcText fun r =>
        r.1 = 0 ∧ r.2.1.content = m.content ++ w.take r.2.2

/-- The position is not -1, and for a seek from the end the capacity is one more than
the length of the content.  An append also needs the buffer to have its capacity. -/
def Fits (m : MemoryFile) : SeekRequest → Prop
  | .seek _ whence => m.off ≠ -1 ∧ (whence = 2 → m.alllen = m.len + 1)
  | .rewind => True
  | .append _ => m.off ≠ -1 ∧ m.alllen = m.len + 1 ∧ m.alllen ≤ m.shareData.length

instance (m : MemoryFile) : (request : SeekRequest) → Decidable (request.Valid m)
  | .seek .. => inferInstanceAs (Decidable (_ ∧ _))
  | .rewind => inferInstanceAs (Decidable True)
  | .append _ => inferInstanceAs (Decidable (_ ≠ _))

instance (m : MemoryFile) : (request : SeekRequest) → Decidable (request.Fits m)
  | .seek .. => inferInstanceAs (Decidable (_ ∧ (_ → _)))
  | .rewind => inferInstanceAs (Decidable True)
  | .append _ => inferInstanceAs (Decidable (_ ∧ _))

end SeekRequest

variable {b : Build} {h : Handle} {m : MemoryFile} {offset whence : Int} {w : Bytes}

/-! ## Positions -/

/-- The position that the code gives a seek. -/
def seekPos (m : MemoryFile) (offset whence : Int) : Int :=
  if whence = 0 then offset else if whence = 1 then m.off + offset else m.alllen - 1 + offset

theorem Typed.seekOff_eq (ht : m.Typed)
    (hvalid : SeekRequest.Valid m (.seek offset whence)) :
    FileHook.seekOff b (memoryFile b) m offset whence = .ok (m, m.seekPos offset whence) := by
  obtain ⟨hwhence, hnonneg, hle⟩ := hvalid
  have hlen := ht.len
  have halllen := ht.alllen
  have hfrom := ht.lenNonneg
  have hcap := ht.alllenNonneg
  rcases hwhence with rfl | rfl | rfl
  · have hint : IsInt offset := hlen.of_le hnonneg hle
    show (.ok (m, asInt offset) : Except Fault _) = .ok (m, offset)
    rw [asInt_of_isInt hint]
  · have hint : IsInt (m.off + offset) := hlen.of_le hnonneg hle
    show (longResult b (m.off + offset) >>= fun off => .ok (m, asInt off)) = .ok (m, m.off + offset)
    rw [longResult, if_pos hint.isLong, ok_bind, asInt_of_isInt hint]
  · have hback : 0 ≤ m.len + offset := hnonneg
    have hend : m.len + offset ≤ m.len := hle
    have hlast : IsInt (m.alllen - 1) := by
      rw [IsInt] at halllen ⊢
      omega
    have hint : IsInt (m.alllen - 1 + offset) := by
      rw [IsInt] at halllen hlen ⊢
      omega
    show (intResult (m.alllen - 1) >>= fun last => longResult b (last + offset) >>=
      fun off => .ok (m, asInt off)) = .ok (m, m.alllen - 1 + offset)
    rw [intResult_of_isInt hlast, ok_bind, longResult, if_pos hint.isLong, ok_bind,
      asInt_of_isInt hint]

/-- A seek of a file with a position sets another. -/
theorem Typed.fseek_eq (ht : m.Typed) (hvalid : SeekRequest.Valid m (.seek offset whence))
    (hoff : m.off ≠ -1) :
    FileHook.fseek b (memoryFile b) m offset whence h =
      .ret (m.setOff (m.seekPos offset whence), 0) := by
  have hcap := ht.alllenNonneg
  show (if m.off = -1 then _ else (if m.alllen = -1 then _ else _ : Prog _) : Prog _) = _
  rw [if_neg hoff, if_neg (by omega), ht.seekOff_eq hvalid]
  rfl

/-- A file without a position asks the C library. -/
theorem fseek_eq_of_none (hoff : m.off = -1) :
    FileHook.fseek b (memoryFile b) m offset whence h =
      .call (.io h (.fseek offset whence)) fun a => .ret (m, a) := by
  show (if m.off = -1 then _ else (if m.alllen = -1 then _ else _ : Prog _) : Prog _) = _
  rw [if_pos hoff]
  rfl

/-- What the C library answers to a seek need not be 0. -/
theorem not_meets_fseek_of_none {α β : Type} (hoff : m.off = -1) {p : MemoryFile → Prog α}
    {f : α → β} {Q : Int × β → Prop} (hQ : ∀ r, Q r → r.1 = 0) :
    ¬ (FileHook.fseek b (memoryFile b) m offset whence h >>= fun set =>
      p set.1 >>= fun a => .ret (set.2, f a) : Prog (Int × β)).Meets libcText Q := by
  rw [fseek_eq_of_none hoff]
  rintro ⟨-, hmeets⟩
  have hone : (p m >>= fun a => .ret ((1 : Int), f a) : Prog (Int × β)).Meets libcText Q :=
    hmeets (1 : Int) trivial
  rw [meets_bind] at hone
  exact not_meets_false (fun _ => id) libcText_answers
    (hone.mono fun a ha => Int.one_ne_zero (hQ _ ha))

/-- `ftell` gives the position, where there is one. -/
theorem ftell_meets_iff {pos : Int} (hpos : pos ≠ -1) :
    (FileHook.ftell (memoryFile b) m h).Meets libcText (fun r => r.2 = pos) ↔ m.off = pos := by
  show (if m.off = -1 then _ else (if m.off ≠ -1 then _ else _) : Prog _).Meets libcText _ ↔ _
  by_cases hoff : m.off = -1
  · rw [if_pos hoff]
    refine iff_of_false ?_ fun heq => hpos (heq.symm.trans hoff)
    rintro ⟨-, hmeets⟩
    have heq : pos + 1 = pos := hmeets (pos + 1) trivial
    omega
  · rw [if_neg hoff, if_pos hoff]
    exact Iff.rfl

/-! ## Seeking -/

theorem Typed.seek_follows_iff (ht : m.Typed) (hvalid : SeekRequest.Valid m (.seek offset whence)) :
    SeekRequest.Follows b h m (.seek offset whence) ↔
      SeekRequest.Fits m (.seek offset whence) := by
  have htarget : m.seekTarget offset whence ≠ -1 := by
    have := hvalid.2.1
    omega
  by_cases hoff : m.off = -1
  · have hnot : ¬ SeekRequest.Follows b h m (.seek offset whence) :=
      not_meets_fseek_of_none hoff (p := fun m => FileHook.ftell (memoryFile b) m h)
        (f := Prod.snd) fun _ hr => hr.1
    exact iff_of_false hnot fun hfits => hfits.1 hoff
  rw [SeekRequest.Follows, SeekRequest.seekTell, ht.fseek_eq hvalid hoff, ret_bind, meets_bind]
  have hpos : m.seekPos offset whence = m.seekTarget offset whence ↔
      (whence = 2 → m.alllen = m.len + 1) := by
    rw [seekPos, seekTarget]
    rcases hvalid.1 with rfl | rfl | rfl
    · exact iff_of_true rfl nofun
    · exact iff_of_true rfl nofun
    · show m.alllen - 1 + offset = m.len + offset ↔ _
      omega
  rw [SeekRequest.Fits, and_iff_right hoff, ← hpos]
  have htell := ftell_meets_iff (b := b) (h := h) (m := m.setOff (m.seekPos offset whence)) htarget
  rw [setOff_off] at htell
  rw [← htell]
  constructor
  · intro hmeets
    exact hmeets.mono fun r hr => hr.2
  · intro hmeets
    exact hmeets.mono fun r hr => ⟨rfl, hr⟩

theorem rewind_follows : SeekRequest.Follows b h m .rewind := by
  have htell : (FileHook.ftell (memoryFile b) (m.setOff 0) h).Meets libcText fun r => r.2 = 0 :=
    (ftell_meets_iff (by decide)).mpr rfl
  exact meets_bind.mpr htell

/-! ## Writing at the end -/

/-- A byte written right behind the content. -/
theorem content_written_end (hlen : 0 ≤ m.len) (hroom : m.len + 1 ≤ m.shareData.length)
    (hw : (w.take 1).length = 1) :
    ((m.setOff m.len).written w 1).content = m.content ++ w.take 1 := by
  have hlength : m.content.length = m.len.toNat := by
    rw [content, List.length_take]
    omega
  have hsize : 1 ≤ w.length := hw ▸ List.length_take_le' 1 w
  have hshows : (m.setOff m.len).Shows ⟨m.content, m.content.length, Nat.le_refl _⟩ := by
    refine ⟨?_, ?_, congrArg (m.shareData.take ·) hlength⟩
    · show m.len = m.content.length
      omega
    · show m.len = m.content.length
      omega
  have hwritten := hshows.written hsize
  rw [Int.natCast_one] at hwritten
  rw [content, hwritten.len, Int.toNat_natCast, hwritten.content]
  exact overwrite_length

/-- Behind a seek to the end the code writes one byte, in front of the last place of
the capacity. -/
theorem append_content_iff (hlen : 0 ≤ m.len) (halllen : IsInt m.alllen)
    (hw : (w.take 1).length = 1) (hsize : 1 ≤ w.length) :
    (∃ r, (m.setOff (m.alllen - 1)).put b w 1 true = .ok r ∧
      r.1.content = m.content ++ w.take r.2) ↔
      m.alllen = m.len + 1 ∧ m.alllen ≤ m.shareData.length := by
  have hone : asSize b 1 = 1 := asSize_natCast (n := 1) (by decide)
  constructor
  · rintro ⟨r, hput, hcontent⟩
    obtain ⟨-, hin, -, rfl⟩ := put_eq_ok.mp hput
    obtain ⟨hfirst, hlast, -⟩ := hin.resolve_left (by decide)
    have hfirst : 0 ≤ m.alllen - 1 := hfirst
    have hlast : m.alllen - 1 + 1 ≤ m.shareData.length := hlast
    -- the content has to be one byte longer
    have hlength := congrArg List.length hcontent
    have hwritten : ((m.setOff (m.alllen - 1)).written w 1).shareData.length =
        m.shareData.length := length_written (by decide) hin
    have hend : ((m.setOff (m.alllen - 1)).written w 1).len =
        if m.alllen - 1 + 1 ≥ m.len then m.alllen - 1 + 1 else m.len := rfl
    rw [hone, List.length_append, hw, content, content, List.length_take, List.length_take,
      hwritten, hend] at hlength
    split at hlength
    next => omega
    next => omega
  · rintro ⟨heq, hle⟩
    have hpos : m.alllen - 1 = m.len := by omega
    rw [hpos]
    refine ⟨_, put_eq_ok.mpr ⟨by decide, .inr ⟨hlen, ?_, by omega⟩, ?_, rfl⟩, ?_⟩
    · show m.len + 1 ≤ m.shareData.length
      omega
    · show IsInt (m.len + 1)
      rwa [← heq]
    · rw [hone]
      exact content_written_end hlen (by omega) hw

/-- What the standard's end of the file needs of a write there: one byte of room. -/
theorem Typed.append_follows_iff (ht : m.Typed) (hw : w ≠ []) :
    SeekRequest.Follows b h m (.append w) ↔ SeekRequest.Fits m (.append w) := by
  have hlen := ht.lenNonneg
  have halllen := ht.alllen
  have hsize : 1 ≤ w.length := List.length_pos_iff.mpr hw
  by_cases hoff : m.off = -1
  · have hnot : ¬ SeekRequest.Follows b h m (.append w) :=
      not_meets_fseek_of_none hoff
        (p := fun m => ofExcept ((memoryFile b).beforeWrite m w w.length)) (f := id)
        fun _ hr => hr.1
    exact iff_of_false hnot fun hfits => hfits.1 hoff
  have hvalid : SeekRequest.Valid m (.seek 0 2) :=
    ⟨.inr (.inr rfl), by show 0 ≤ m.len + 0; omega, by show m.len + 0 ≤ m.len; omega⟩
  have hpos : m.seekPos 0 2 = m.alllen - 1 := Int.add_zero _
  have hwlen : (m.setOff (m.alllen - 1)).wlen b w.length = .ok 1 := by
    have hroom : m.alllen - (m.alllen - 1) = 1 := by omega
    refine wlen_eq_ok.mpr ?_
    rw [setOff_off]
    show IsInt (m.alllen - (m.alllen - 1)) ∧ 1 = clamp b (m.alllen - (m.alllen - 1)) w.length
    rw [hroom, clamp_eq (by decide) (by decide)]
    exact ⟨by decide, by omega⟩
  rw [SeekRequest.Follows, SeekRequest.seekWrite, ht.fseek_eq hvalid hoff, ret_bind, hpos]
  show (ofExcept ((m.setOff (m.alllen - 1)).write b w w.length true) >>= _ : Prog _).Meets _ _ ↔ _
  rw [write_of_room hwlen (by decide), ofExcept_bind_meets, SeekRequest.Fits, and_iff_right hoff,
    ← append_content_iff (b := b) hlen halllen (by rw [List.length_take]; omega) hsize]
  exact exists_congr fun r => and_congr_right fun _ => and_iff_right rfl

/-- A request is met exactly when it fits the file. -/
theorem follows_iff {request : SeekRequest} (hreached : m.Reached b)
    (hvalid : request.Valid m) : request.Follows b h m ↔ request.Fits m := by
  cases request with
  | seek offset whence => exact hreached.typed.seek_follows_iff hvalid
  | rewind => exact iff_of_true rewind_follows trivial
  | append w => exact hreached.typed.append_follows_iff hvalid

/-- A copy of three bytes, with a capacity of four. -/
def threeBytes : MemoryFile := ⟨0, 0, [], 4, 3, 0, [1, 2, 3, 0]⟩

/-- A copy of four bytes, with a capacity of six. -/
def fourBytes : MemoryFile := ⟨0, 0, [], 6, 4, 0, [1, 2, 3, 4, 0, 0]⟩

theorem threeBytes_reached : threeBytes.Reached .arm64 :=
  ⟨0, 0, .copying [1, 2, 3] 3, [], threeBytes, ⟨by decide, by decide⟩, rfl, rfl⟩

theorem fourBytes_reached : fourBytes.Reached .arm64 :=
  ⟨0, 0, .copying [1, 2, 3, 4] 4, [], fourBytes, ⟨by decide, by decide⟩, rfl, rfl⟩

/-- A seek to the end of the three bytes. -/
theorem threeBytes_seek_end : SeekRequest.Follows .arm64 0 threeBytes (.seek 0 2) :=
  (follows_iff threeBytes_reached (by decide)).mpr (by decide)

/-- One to the end of the four bytes goes to 5. -/
theorem fourBytes_seek_end : fourBytes.Reached .arm64 ∧ SeekRequest.Valid fourBytes (.seek 0 2) ∧
    ¬ SeekRequest.Follows .arm64 0 fourBytes (.seek 0 2) := by
  have hvalid : SeekRequest.Valid fourBytes (.seek 0 2) := by decide
  refine ⟨fourBytes_reached, hvalid, fun hfollows => ?_⟩
  have hfits := (fourBytes_reached.typed.seek_follows_iff hvalid).mp hfollows
  exact absurd (hfits.2 rfl) (by decide)

end MemoryFile

end HookLibc
