import AndroidAnalysis.HookLibc.FileHook
import AndroidAnalysis.HookLibc.MemoryFile
import AndroidAnalysis.Machine.CallRules

/-!
# A `memory_file` behind `file_hook`

A hooked call on a `memory_file` may go on to the C library, but what that answers
changes nothing in the file: `after` is the file that the callbacks leave, and
`hookedStep_meets_iff` that it is the one a hooked call leaves.
-/

namespace HookLibc

open Cpp Machine Calls

/-- A call on an open file, by what it leaves of the filter. -/
def hookedStep {σ : Type} (b : Build) (F : FileFilter σ) (h : Handle) (s : σ) (c : IoCall) :
    Prog σ := do
  let r ← FileHook.io b F s h c
  .ret r.1

/-- The C library is not called with the handle, which is no file of its own, and no
fault is allowed. -/
def libcElsewhere (h : Handle) : Contract LibcCall.Answer Fault where
  calls c := c.handle ≠ some h
  answers _ _ := True
  faults _ := False

/-- The C library may be called with any handle, and the buffer that `fgets` was given
holds a text when it returns.  No fault is allowed.  This is for what the callbacks do:
with the address of an object the C library need not return. -/
def libcText : Contract LibcCall.Answer Fault where
  calls _ := True
  answers
    | .io _ (.fgets ..), a => 0 ∈ a.2
    | _, _ => True
  faults _ := False

/-- The C library can answer every call. -/
theorem libcText_answers (c : LibcCall) : ∃ a, libcText.answers c a := by
  cases c with
  | io h c =>
      cases c with
      | fgets => exact ⟨(Line.null, ([0] : Bytes)), List.mem_singleton_self 0⟩
      | fread | read | pread => exact ⟨((0 : Nat), ([] : Bytes)), trivial⟩
      | fwrite | write | pwrite => exact ⟨(0 : Nat), trivial⟩
      | fputs | fseek | ftell => exact ⟨(0 : Int), trivial⟩
      | rewind => exact ⟨(), trivial⟩
  | fstat | lstat | stat => exact ⟨((0 : Int), ([] : Bytes)), trivial⟩
  | fclose | pclose | close | fopen | popen | «open» | rename | access => exact ⟨(0 : Int), trivial⟩

namespace MemoryFile

/-- The file that the callbacks of a hooked call leave. -/
def after (b : Build) (m : MemoryFile) : IoCall → Except Fault MemoryFile
  | .fread buffer size count =>
      Prod.fst <$> m.read b buffer (asSize b (FileHook.rdSize b size count)) true
  | .fwrite buffer size count _ => Prod.fst <$> m.write b buffer (FileHook.wtSize b size count) true
  | .fgets buffer maxCount => Prod.fst <$> m.fgets b buffer (asInt (asSize b maxCount))
  | .fputs s => Prod.fst <$> m.write b s s.length true
  | .fseek offset whence =>
      if m.off = -1 ∨ m.alllen = -1 then .ok m
      else (fun off => off.1.setOff off.2) <$>
        FileHook.seekOff b (memoryFile b) m offset whence
  | .ftell => .ok m
  | .rewind => .ok (m.setOff 0)
  | .read buffer nbytes => Prod.fst <$> m.read b buffer nbytes true
  | .pread buffer count offset =>
      (fun r => r.1.setOff m.off) <$>
        (m.setOff (asInt offset)).read b buffer count true
  | .write buffer count _ => Prod.fst <$> m.write b buffer count true
  | .pwrite buffer count offset _ =>
      (fun r => r.1.setOff m.off) <$>
        (m.setOff (asInt offset)).write b buffer count true

variable {b : Build} {m : MemoryFile} {h : Handle} {Q : MemoryFile → Prop}

theorem map_eq_ok {α β : Type} {f : α → β} {x : Except Fault α} {P : β → Prop} :
    (∃ y, f <$> x = .ok y ∧ P y) ↔ ∃ a, x = .ok a ∧ P (f a) := by
  cases x with
  | ok a => simp
  | error e => simp

theorem ofExcept_bind_meets {α β : Type} {x : Except Fault α} {f : α → Prog β} {Q : β → Prop} :
    (ofExcept x >>= f : Prog β).Meets libcText Q ↔
      ∃ a, x = .ok a ∧ (f a).Meets libcText Q := by
  rw [meets_bind, meets_ofExcept_strict fun _ => id]

/-- A method that returns what a callback gives, or goes on to the C library. -/
theorem callback_meets {α β : Type} {x : Except Fault (MemoryFile × β)}
    {f : MemoryFile × β → Prog (MemoryFile × α)} {t : MemoryFile × β → Prop}
    (hret : ∀ r, t r → ∃ a, f r = .ret (r.1, a))
    (hcall : ∀ r, ¬ t r → ((f r).Meets libcText (fun r' => Q r'.1) ↔ Q r.1)) :
    (ofExcept x >>= f : Prog _).Meets libcText (fun r => Q r.1) ↔ ∃ r, x = .ok r ∧ Q r.1 := by
  rw [ofExcept_bind_meets]
  refine exists_congr fun r => and_congr_right fun _ => ?_
  by_cases ht : t r
  · obtain ⟨a, ha⟩ := hret r ht
    rw [ha]
    exact Iff.rfl
  · exact hcall r ht

theorem write_meets {fd : Handle} {buffer : Bytes} {count : Nat}
    (owned : count ≤ buffer.length) :
    (FileHook.write (memoryFile b) m fd buffer count owned).Meets libcText (fun r => Q r.1) ↔
      ∃ r, m.write b buffer count true = .ok r ∧ Q r.1 := by
  refine callback_meets (fun r ht => ⟨r.2, if_pos ht⟩) fun r ht => ?_
  rw [if_neg ht]
  exact meets_call_iff trivial ⟨(0 : Nat), trivial⟩ fun _ _ => Iff.rfl

theorem read_meets {fd : Handle} {buffer : Bytes} {nbytes : Nat} :
    (FileHook.read (memoryFile b) m fd buffer nbytes).Meets libcText (fun r => Q r.1) ↔
      ∃ r, m.read b buffer nbytes true = .ok r ∧ Q r.1 := by
  rw [FileHook.read, memoryFile_beforeRead_read]
  refine callback_meets (fun r ht => ⟨r.2, if_pos ht⟩) fun r ht => ?_
  rw [if_neg ht]
  exact meets_call_iff trivial ⟨((0 : Nat), ([] : Bytes)), trivial⟩ fun _ _ => Iff.rfl

/-- A method between two changes of the position. -/
theorem autoSetPos_meets {α : Type} {K : Contract LibcCall.Answer Fault} {pos : Int}
    {body : MemoryFile → Prog (MemoryFile × α)} {P : MemoryFile × α → Prop} :
    (FileHook.autoSetPos (memoryFile b) m pos body).Meets K P ↔
      (body (m.setOff (asInt pos))).Meets K fun r => P (r.1.setOff m.off, r.2) := by
  show (body (m.setOff (asInt pos)) >>= fun r => .ret (r.1.setOff m.off, r.2) :
    Prog _).Meets K _ ↔ _
  rw [meets_bind]
  exact Iff.rfl

theorem fread_meets {fp : Handle} {buffer : Bytes} {size count : Nat} :
    (FileHook.fread b (memoryFile b) m buffer size count fp).Meets libcText (fun r => Q r.1) ↔
      ∃ r, m.read b buffer (asSize b (FileHook.rdSize b size count)) true = .ok r ∧ Q r.1 := by
  rw [FileHook.fread, memoryFile_beforeRead_read]
  refine callback_meets (fun r ht => ⟨_, if_pos ht⟩) fun r ht => ?_
  rw [if_neg ht]
  exact meets_call_iff trivial ⟨((0 : Nat), ([] : Bytes)), trivial⟩ fun _ _ => Iff.rfl

theorem fwrite_meets {fp : Handle} {buffer : Bytes} {size count : Nat}
    (owned : size * count ≤ buffer.length) :
    (FileHook.fwrite b (memoryFile b) m buffer size count owned fp).Meets libcText
        (fun r => Q r.1) ↔
      ∃ r, m.write b buffer (FileHook.wtSize b size count) true = .ok r ∧ Q r.1 := by
  refine callback_meets (fun r ht => ⟨r.2, if_pos ht⟩) fun r ht => ?_
  rw [if_neg ht]
  exact meets_call_iff trivial ⟨(0 : Nat), trivial⟩ fun _ _ => Iff.rfl

theorem fputs_meets {fp : Handle} {s : Bytes} :
    (FileHook.fputs (memoryFile b) m s fp).Meets libcText (fun r => Q r.1) ↔
      ∃ r, m.write b s s.length true = .ok r ∧ Q r.1 := by
  refine callback_meets (fun r ht => ⟨_, if_pos ht⟩) fun r ht => ?_
  rw [if_neg ht]
  exact meets_call_iff trivial ⟨(0 : Nat), trivial⟩ fun _ _ => Iff.rfl

theorem fgets_meets {fp : Handle} {buffer : Bytes} {maxCount : Int} :
    (FileHook.fgets b (memoryFile b) m buffer maxCount fp).Meets libcText (fun r => Q r.1) ↔
      ∃ r, m.fgets b buffer (asInt (asSize b maxCount)) = .ok r ∧ Q r.1 := by
  rw [FileHook.fgets, memoryFile_beforeRead_fgets]
  refine callback_meets (fun r ht => ⟨_, if_pos ht⟩) fun r ht => ?_
  rw [if_neg ht]
  refine meets_call_iff trivial ⟨(Line.null, ([0] : Bytes)), List.mem_singleton_self 0⟩ ?_
  rintro ⟨line, text⟩ htext
  obtain ⟨len, hlen⟩ := strlen_of_mem htext
  show (ofExcept (strlen text) >>= _ : Prog _).Meets libcText _ ↔ _
  rw [hlen]
  exact Iff.rfl

theorem exists_ok {α : Type} {a : α} {P : α → Prop} :
    (∃ y, (.ok a : Except Fault α) = .ok y ∧ P y) ↔ P a := by simp

/-- The position that `fseek` gives is an `int`, and the file is as it was. -/
theorem seekOff_ok {offset whence : Int} {r : MemoryFile × Int}
    (hr : FileHook.seekOff b (memoryFile b) m offset whence = .ok r) : r.1 = m ∧ IsInt r.2 := by
  rw [FileHook.seekOff] at hr
  split at hr
  next =>
    cases hr
    exact ⟨rfl, isInt_asInt offset⟩
  next =>
    split at hr
    next =>
      obtain ⟨pos, hpos, hr⟩ := bind_eq_ok.mp hr
      obtain ⟨off, -, hr⟩ := bind_eq_ok.mp hr
      cases hpos
      cases hr
      exact ⟨rfl, isInt_asInt off⟩
    next =>
      split at hr
      next =>
        obtain ⟨size, hsize, hr⟩ := bind_eq_ok.mp hr
        obtain ⟨last, -, hr⟩ := bind_eq_ok.mp hr
        obtain ⟨off, -, hr⟩ := bind_eq_ok.mp hr
        cases hsize
        cases hr
        exact ⟨rfl, isInt_asInt off⟩
      next =>
        cases hr
        exact ⟨rfl, (by decide : IsInt 0)⟩

/-- What a hooked call can do to a file. -/
inductive Change (b : Build) (m : MemoryFile) : MemoryFile → Prop
  | same : Change b m m
  | seek {off : Int} (hint : IsInt off) : Change b m (m.setOff off)
  | read {buffer : Bytes} {n : Nat} {r : MemoryFile × Nat × Bytes}
      (hread : m.read b buffer n true = .ok r) : Change b m r.1
  | fgets {buffer : Bytes} {maxCount : Int} {r : MemoryFile × Nat × Bytes}
      (hfgets : m.fgets b buffer maxCount = .ok r) : Change b m r.1
  | write {w : Bytes} {n : Nat} {r : MemoryFile × Nat}
      (hwrite : m.write b w n true = .ok r) : Change b m r.1
  | pread {off : Int} (hint : IsInt off) {buffer : Bytes} {n : Nat} {r : MemoryFile × Nat × Bytes}
      (hread : (m.setOff off).read b buffer n true = .ok r) : Change b m (r.1.setOff m.off)
  | pwrite {off : Int} (hint : IsInt off) {w : Bytes} {n : Nat} {r : MemoryFile × Nat}
      (hwrite : (m.setOff off).write b w n true = .ok r) : Change b m (r.1.setOff m.off)

/-- A call does one of these. -/
theorem change_of_after {c : IoCall} {m' : MemoryFile} (hafter : m.after b c = .ok m') :
    m.Change b m' := by
  cases c with
  | fread | read =>
      obtain ⟨r, hread, rfl⟩ := map_eq_ok.mp ⟨m', hafter, rfl⟩
      exact .read hread
  | fwrite | fputs | write =>
      obtain ⟨r, hwrite, rfl⟩ := map_eq_ok.mp ⟨m', hafter, rfl⟩
      exact .write hwrite
  | fgets =>
      obtain ⟨r, hfgets, rfl⟩ := map_eq_ok.mp ⟨m', hafter, rfl⟩
      exact .fgets hfgets
  | fseek =>
      rw [after] at hafter
      split at hafter
      next =>
        cases hafter
        exact .same
      next =>
        obtain ⟨r, hseek, rfl⟩ := map_eq_ok.mp ⟨m', hafter, rfl⟩
        obtain ⟨hsame, hint⟩ := seekOff_ok hseek
        rw [hsame]
        exact .seek hint
  | ftell =>
      cases hafter
      exact .same
  | rewind =>
      cases hafter
      exact .seek (by decide)
  | pread _ _ offset =>
      obtain ⟨r, hread, rfl⟩ := map_eq_ok.mp ⟨m', hafter, rfl⟩
      exact .pread (isInt_asInt offset) hread
  | pwrite _ _ offset =>
      obtain ⟨r, hwrite, rfl⟩ := map_eq_ok.mp ⟨m', hafter, rfl⟩
      exact .pwrite (isInt_asInt offset) hwrite

theorem fseek_meets {fp : Handle} {offset whence : Int} :
    (FileHook.fseek b (memoryFile b) m offset whence fp).Meets libcText (fun r => Q r.1) ↔
      ∃ m', m.after b (.fseek offset whence) = .ok m' ∧ Q m' := by
  have hcall : (.call (.io fp (.fseek offset whence)) fun a => .ret (m, a) :
      Prog (MemoryFile × Int)).Meets libcText (fun r => Q r.1) ↔ Q m :=
    meets_call_iff trivial ⟨(0 : Int), trivial⟩ fun _ _ => Iff.rfl
  show (if m.off = -1 then _ else (if m.alllen = -1 then _ else _ : Prog _) : Prog _).Meets
    libcText _ ↔ _
  rw [after]
  by_cases hoff : m.off = -1
  · rw [if_pos hoff, if_pos (.inl hoff)]
    exact hcall.trans exists_ok.symm
  · rw [if_neg hoff]
    by_cases hsize : m.alllen = -1
    · rw [if_pos hsize, if_pos (.inr hsize)]
      exact hcall.trans exists_ok.symm
    · rw [if_neg hsize, if_neg (not_or.mpr ⟨hoff, hsize⟩), ofExcept_bind_meets, map_eq_ok]
      exact Iff.rfl

theorem ftell_meets {fp : Handle} :
    (FileHook.ftell (memoryFile b) m fp).Meets libcText (fun r => Q r.1) ↔ Q m := by
  show (if m.off = -1 then _ else (if m.off ≠ -1 then _ else _) : Prog _).Meets libcText _ ↔ _
  by_cases hoff : m.off = -1
  · rw [if_pos hoff]
    exact meets_call_iff trivial ⟨(0 : Int), trivial⟩ fun _ _ => Iff.rfl
  · rw [if_neg hoff, if_pos hoff]
    exact Iff.rfl

/-- A hooked call leaves the file that the callbacks leave. -/
theorem hookedStep_meets_iff (c : IoCall) :
    (hookedStep b (memoryFile b) h m c).Meets libcText Q ↔ ∃ m', m.after b c = .ok m' ∧ Q m' := by
  rw [hookedStep, meets_bind]
  show (FileHook.io b (memoryFile b) m h c).Meets libcText (fun r => Q r.1) ↔ _
  cases c with
  | fread buffer size count => exact fread_meets.trans map_eq_ok.symm
  | fwrite buffer size count owned => exact (fwrite_meets owned).trans map_eq_ok.symm
  | fgets buffer maxCount => exact fgets_meets.trans map_eq_ok.symm
  | fputs s => exact fputs_meets.trans map_eq_ok.symm
  | fseek offset whence => exact fseek_meets
  | ftell => exact ftell_meets.trans exists_ok.symm
  | rewind => exact (exists_ok (P := Q) (a := m.setOff 0)).symm
  | read buffer nbytes => exact read_meets.trans map_eq_ok.symm
  | pread buffer count offset =>
      rw [FileHook.io, FileHook.pread, autoSetPos_meets]
      exact (read_meets (Q := fun m' => Q (m'.setOff m.off))).trans map_eq_ok.symm
  | write buffer count owned => exact (write_meets owned).trans map_eq_ok.symm
  | pwrite buffer count offset owned =>
      rw [FileHook.io, FileHook.pwrite, autoSetPos_meets]
      exact (write_meets owned (Q := fun m' => Q (m'.setOff m.off))).trans map_eq_ok.symm

end MemoryFile

end HookLibc
