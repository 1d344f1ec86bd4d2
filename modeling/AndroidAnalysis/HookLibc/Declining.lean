import AndroidAnalysis.HookLibc.FileHook
import AndroidAnalysis.HookLibc.RealFile

/-!
# Filters that decline

A filter that declines everything is to be invisible: a method of `file_hook` is to do
to the file what the function of its name does, and to return the same.  `passed` is
what becomes of a call under such a filter, and `Agrees` is the condition on the file
and on the call under which this is the call itself.
-/

namespace HookLibc

open Cpp Machine Calls Words

/-- The filter takes nothing, hands on the count of a read, and has no position. -/
structure FileFilter.Declines {σ : Type} (F : FileFilter σ) : Prop where
  onSetPos : ∀ s offset, ∃ s' ret, F.onSetPos s offset = .ok (s', ⟨false, ret⟩)
  onGetPos : ∀ s, ∃ s', F.onGetPos s = .ok (s', -1)
  onGetFileSize : ∀ s, ∃ s', F.onGetFileSize s = .ok (s', -1)
  beforeRead : ∀ s buf readSize isFgets, ∃ s', F.beforeRead s buf readSize isFgets =
    .ok (s', 0, buf)
  afterRead : ∀ s buf readSize readedSize isFgets, ∃ s',
    F.afterRead s buf readSize readedSize isFgets = .ok (s', readedSize, buf)
  beforeWrite : ∀ s buf writeSize, ∃ s', F.beforeWrite s buf writeSize = .ok (s', 0)

/-- `common_file_filter` declines. -/
theorem commonFileFilter_declines (beforeOpen : OpenType → OpenArgs → OpenVeto) :
    (commonFileFilter beforeOpen).Declines where
  onSetPos s _ := ⟨s, 0, rfl⟩
  onGetPos s := ⟨s, rfl⟩
  onGetFileSize s := ⟨s, rfl⟩
  beforeRead s _ _ _ := ⟨s, rfl⟩
  afterRead s _ _ _ _ := ⟨s, rfl⟩
  beforeWrite s _ _ := ⟨s, rfl⟩

/-! ## In any surroundings -/

section
variable {σ W : Type} {b : Build} {exec : (c : LibcCall) → W → W × c.Answer} {F : FileFilter σ}
  {s : σ} {h : Handle} {w : W}

/-- What becomes of a call where the filter declines. -/
def passed (b : Build) (exec : (c : LibcCall) → W → W × c.Answer) (h : Handle) (w : W) :
    (c : IoCall) → Except Fault (W × c.Answer)
  | .fread buffer size count =>
      let r := exec (.io h (.fread buffer size count)) w
      .ok (r.1, asSize b (asInt (r.2.1 : Nat)), r.2.2)
  | .fwrite buffer size count owned =>
      .ok (exec (.io h (.fwrite buffer (FileHook.wtSize b size count) 1
        (FileHook.wtSize_mul_one_le b owned))) w)
  | .fgets buffer maxCount =>
      let r := exec (.io h (.fgets buffer maxCount)) w
      (fun len : Nat => (r.1, if len = 0 then .null else .buffer, r.2.2)) <$> strlen r.2.2
  | .fputs str =>
      let r := exec (.io h (.fwrite str str.length 1 (FileHook.length_mul_one_le str))) w
      .ok (r.1, asInt (r.2 : Nat))
  | .pread buffer count _ => .ok (exec (.io h (.read buffer count)) w)
  | .pwrite buffer count _ owned => .ok (exec (.io h (.write buffer count owned)) w)
  | c => .ok (exec (.io h c) w)

theorem read_eval (hF : F.Declines) (s : σ) (buffer : Bytes) (nbytes : Nat) (w : W) :
    ∃ s', (FileHook.read F s h buffer nbytes).eval exec w =
      .ok ((exec (.io h (.read buffer nbytes)) w).1, s',
        (exec (.io h (.read buffer nbytes)) w).2) := by
  obtain ⟨s₁, hbefore⟩ := hF.beforeRead s buffer nbytes false
  obtain ⟨s₂, hafter⟩ := hF.afterRead s₁ (exec (.io h (.read buffer nbytes)) w).2.2 nbytes
    (exec (.io h (.read buffer nbytes)) w).2.1 false
  refine ⟨s₂, ?_⟩
  rw [FileHook.read, hbefore]
  show (ofExcept (F.afterRead s₁ (exec (.io h (.read buffer nbytes)) w).2.2 nbytes
    (exec (.io h (.read buffer nbytes)) w).2.1 false) >>= fun after => .ret after :
      Prog _).eval exec _ = _
  rw [hafter]
  rfl

theorem write_eval (hF : F.Declines) (s : σ) (buffer : Bytes) (count : Nat)
    (owned : count ≤ buffer.length) (w : W) :
    ∃ s', (FileHook.write F s h buffer count owned).eval exec w =
      .ok ((exec (.io h (.write buffer count owned)) w).1, s',
        (exec (.io h (.write buffer count owned)) w).2) := by
  obtain ⟨s₁, hbefore⟩ := hF.beforeWrite s buffer count
  refine ⟨s₁, ?_⟩
  rw [FileHook.write, hbefore]
  rfl

/-- A count of 0 is 0 as an `int`. -/
theorem asInt_zero : ¬ asInt ((0 : Nat) : Int) ≠ 0 := by decide

theorem fread_eval (hF : F.Declines) (buffer : Bytes) (size count : Nat) :
    ∃ s', (FileHook.fread b F s buffer size count h).eval exec w =
      (fun r => (r.1, s', r.2)) <$> passed b exec h w (.fread buffer size count) := by
  obtain ⟨s₁, hbefore⟩ := hF.beforeRead s buffer (asSize b (FileHook.rdSize b size count)) false
  obtain ⟨s₂, hafter⟩ := hF.afterRead s₁ (exec (.io h (.fread buffer size count)) w).2.2
    (asSize b (FileHook.rdSize b size count))
    (asSize b (asInt ((exec (.io h (.fread buffer size count)) w).2.1 : Nat))) false
  refine ⟨s₂, ?_⟩
  rw [FileHook.fread, hbefore, ofExcept_ok, ret_bind, if_neg asInt_zero, libc, perform_bind,
    eval_call, hafter]
  rfl

theorem fwrite_eval (hF : F.Declines) (buffer : Bytes) (size count : Nat)
    (owned : size * count ≤ buffer.length) :
    ∃ s', (FileHook.fwrite b F s buffer size count owned h).eval exec w =
      (fun r => (r.1, s', r.2)) <$> passed b exec h w (.fwrite buffer size count owned) := by
  obtain ⟨s₁, hbefore⟩ := hF.beforeWrite s buffer (FileHook.wtSize b size count)
  refine ⟨s₁, ?_⟩
  rw [FileHook.fwrite, hbefore]
  rfl

theorem fputs_eval (hF : F.Declines) (str : Bytes) :
    ∃ s', (FileHook.fputs F s str h).eval exec w =
      (fun r => (r.1, s', r.2)) <$> passed b exec h w (.fputs str) := by
  obtain ⟨s₁, hbefore⟩ := hF.beforeWrite s str str.length
  refine ⟨s₁, ?_⟩
  rw [FileHook.fputs, hbefore, ofExcept_ok, ret_bind, if_neg asInt_zero, libc, perform_bind,
    eval_call, passed]
  simp only [eval_ret, Functor.map, Except.map]

theorem fgets_eval (hF : F.Declines) (buffer : Bytes) (maxCount : Int) :
    ∃ s', (FileHook.fgets b F s buffer maxCount h).eval exec w =
      (fun r => (r.1, s', r.2)) <$> passed b exec h w (.fgets buffer maxCount) := by
  obtain ⟨s₁, hbefore⟩ := hF.beforeRead s buffer (asSize b maxCount) true
  rw [FileHook.fgets, hbefore, ofExcept_ok, ret_bind, if_neg (fun hne => hne rfl), libc,
    perform_bind, eval_call, passed]
  cases strlen (exec (.io h (.fgets buffer maxCount)) w).2.2 with
  | error e => exact ⟨s₁, rfl⟩
  | ok len =>
      obtain ⟨s₂, hafter⟩ := hF.afterRead s₁ (exec (.io h (.fgets buffer maxCount)) w).2.2
        (asSize b maxCount) len true
      refine ⟨s₂, ?_⟩
      rw [ofExcept_ok, ret_bind, hafter]
      rfl

theorem fseek_eval (hF : F.Declines) (offset whence : Int) :
    ∃ s', (FileHook.fseek b F s offset whence h).eval exec w =
      (fun r => (r.1, s', r.2)) <$> passed b exec h w (.fseek offset whence) := by
  obtain ⟨s₁, hpos⟩ := hF.onGetPos s
  refine ⟨s₁, ?_⟩
  rw [FileHook.fseek, hpos]
  rfl

theorem ftell_eval (hF : F.Declines) :
    ∃ s', (FileHook.ftell F s h).eval exec w =
      (fun r => (r.1, s', r.2)) <$> passed b exec h w .ftell := by
  obtain ⟨s₁, hpos⟩ := hF.onGetPos s
  refine ⟨s₁, ?_⟩
  rw [FileHook.ftell, hpos]
  rfl

theorem rewind_eval (hF : F.Declines) :
    ∃ s', (FileHook.rewind F s h).eval exec w =
      (fun r => (r.1, s', r.2)) <$> passed b exec h w .rewind := by
  obtain ⟨s₁, ret, hset⟩ := hF.onSetPos s 0
  refine ⟨s₁, ?_⟩
  rw [FileHook.rewind, hset]
  rfl

/-- Where the filter has no position, a positioned method is the method. -/
theorem autoSetPos_eval {α : Type} (hF : F.Declines) (s : σ) (pos : Int)
    {body : σ → Prog (σ × α)} {w w' : W} {a : α}
    (hbody : ∀ s, ∃ s', (body s).eval exec w = .ok (w', s', a)) :
    ∃ s', (FileHook.autoSetPos F s pos body).eval exec w = .ok (w', s', a) := by
  obtain ⟨s₁, hget⟩ := hF.onGetPos s
  obtain ⟨s₂, ret, hset⟩ := hF.onSetPos s₁ (asInt pos)
  obtain ⟨s₃, hbody⟩ := hbody s₂
  obtain ⟨s₄, ret', hreset⟩ := hF.onSetPos s₃ (-1)
  refine ⟨s₄, ?_⟩
  rw [FileHook.autoSetPos, hget, ofExcept_ok, ret_bind, hset, ofExcept_ok, ret_bind, eval_bind,
    hbody, ok_bind, hreset]
  rfl

/-- A method under a filter that declines is what becomes of the call. -/
theorem io_eval (hF : F.Declines) (c : IoCall) :
    ∃ s', (FileHook.io b F s h c).eval exec w =
      (fun r => (r.1, s', r.2)) <$> passed b exec h w c := by
  cases c with
  | fread buffer size count => exact fread_eval hF buffer size count
  | fwrite buffer size count owned => exact fwrite_eval hF buffer size count owned
  | fgets buffer maxCount => exact fgets_eval hF buffer maxCount
  | fputs str => exact fputs_eval hF str
  | fseek offset whence => exact fseek_eval hF offset whence
  | ftell => exact ftell_eval hF
  | rewind => exact rewind_eval hF
  | read buffer nbytes => exact read_eval hF s buffer nbytes w
  | pread buffer count offset =>
      exact autoSetPos_eval hF s offset fun s => read_eval hF s buffer count w
  | write buffer count owned => exact write_eval hF s buffer count owned w
  | pwrite buffer count offset owned =>
      exact autoSetPos_eval hF s offset fun s => write_eval hF s buffer count owned w

end

/-! ## On a file -/

/-- The C library, with an open file.  What its other functions do does not matter. -/
def library {D : Type} (b : Build) (dev : Device D)
    (other : (c : LibcCall) → RealFile D → RealFile D × c.Answer) :
    (c : LibcCall) → RealFile D → RealFile D × c.Answer
  | .io _ c, w => w.call b dev c
  | c, w => other c w

/-- Two results of a call that are the same, where of `fputs` only the sign counts. -/
def SameAnswer : (c : IoCall) → c.Answer → c.Answer → Prop
  | .fputs _, a, a' => (a < 0 ↔ a' < 0)
  | _, a, a' => a = a'

/-- The caller's buffer is as large as the call says, and no larger than objects
are. -/
def Sized (b : Build) : IoCall → Prop
  | .fread buffer size count => size * count ≤ buffer.length ∧ IsLong b buffer.length
  | .read buffer n | .pread buffer n _ => n ≤ buffer.length ∧ IsLong b buffer.length
  | .fwrite buffer .. | .write buffer .. | .pwrite buffer .. => IsLong b buffer.length
  | .fgets buffer maxCount => maxCount ≤ buffer.length
  | _ => True

section
variable {D : Type} {b : Build} {dev : Device D} {w : RealFile D}
  {other : (c : LibcCall) → RealFile D → RealFile D × c.Answer} {h : Handle}

/-- A call of `fgets` that agrees: one that moves a text which does not begin with a NUL,
or one that moves nothing into a buffer which does. -/
def FgetsAgrees (dev : Device D) (w : RealFile D) (buffer : Bytes) (maxCount : Int) : Prop :=
  if maxCount ≤ 0 then buffer.head? = some 0
  else maxCount ≠ 1 ∧
    if w.text dev maxCount = [] then buffer.head? = some 0
    else (w.text dev maxCount).head? ≠ some 0

/-- The transfer of a call at an offset. -/
def offsetTransfer (dev : Device D) (w : RealFile D) (offset : Int) (n : Nat) : D × Option Nat :=
  if offset < 0 then (w.device, none) else w.transfer dev n

theorem le_of_offsetTransfer {offset : Int} {n k : Nat}
    (h : (offsetTransfer dev w offset n).2 = some k) : k ≤ n := by
  rw [offsetTransfer] at h
  split at h
  next => exact nomatch h
  next => exact RealFile.le_of_transfer h

/-- A call that becomes the call itself.  The number of items that `fread` returns is an
`int`, `fwrite` is of one item, or moves none, `fputs` moves all, `fgets` has a text or a
buffer without one, and a positioned call moves nothing and ends like the one at the
position. -/
def Agrees (dev : Device D) (w : RealFile D) : IoCall → Prop
  | .fread _ size count => w.moved dev (w.avail w.pos (size * count)) / size < 2147483648
  | .fwrite _ size count _ =>
      size * count = 0 ∨ count = 1 ∨ w.moved dev (size * count) < size
  | .fgets buffer maxCount => FgetsAgrees dev w buffer maxCount
  | .fputs s => w.moved dev s.length = s.length
  | .pread _ count offset =>
      w.moved dev (w.avail w.pos count) = 0 ∧
        w.transfer dev (w.avail w.pos count) =
          offsetTransfer dev w offset (w.avail offset.toNat count)
  | .pwrite _ count offset _ =>
      w.moved dev count = 0 ∧ w.transfer dev count = offsetTransfer dev w offset count
  | _ => True

/-- A call that becomes something of which both the file and the result are the same. -/
def Same (b : Build) (dev : Device D) (w : RealFile D) (c : IoCall)
    (x : Except Fault (RealFile D × c.Answer)) : Prop :=
  ∃ a, x = .ok ((w.call b dev c).1, a) ∧ SameAnswer c a (w.call b dev c).2

theorem same_ok {c : IoCall} {w' : RealFile D} {a : c.Answer} :
    Same b dev w c (.ok (w', a)) ↔
      w' = (w.call b dev c).1 ∧ SameAnswer c a (w.call b dev c).2 := by
  constructor
  · rintro ⟨a', heq, hsame⟩
    cases heq
    exact ⟨rfl, hsame⟩
  · rintro ⟨rfl, hsame⟩
    exact ⟨a, rfl, hsame⟩

theorem library_io (c : IoCall) : library b dev other (.io h c) w = w.call b dev c := rfl

theorem fread_same_iff {buffer : Bytes} {size count : Nat}
    (hc : Sized b (.fread buffer size count)) :
    Same b dev w (.fread buffer size count)
        (passed b (library b dev other) h w (.fread buffer size count)) ↔
      Agrees dev w (.fread buffer size count) := by
  obtain ⟨hroom, hlong⟩ := hc
  have hitems : w.moved dev (w.avail w.pos (size * count)) / size ≤ buffer.length :=
    (Nat.div_le_self ..).trans (RealFile.moved_le.trans ((Nat.min_le_left ..).trans hroom))
  rw [Agrees, ← asSize_asInt_eq_iff (hlong.of_le hitems), passed, same_ok, library_io,
    and_iff_right rfl]
  show (asSize b (asInt _), _) = (_, _) ↔ _
  rw [Prod.mk.injEq]
  exact and_iff_left rfl

theorem wtSize_eq {buffer : Bytes} {size count : Nat} (owned : size * count ≤ buffer.length)
    (hlong : IsLong b buffer.length) : FileHook.wtSize b size count = size * count := by
  have hlt : ((size * count : Nat) : Int) < b.words := by
    have := hlong.2
    omega
  exact Int.ofNat_inj.mp (asSize_of_lt (Int.natCast_nonneg _) hlt)

/-- Whole items and one item of all bytes are counted the same where there is one item, or
where there is none. -/
theorem items_eq_iff {k size count : Nat} (hk : k ≤ size * count) :
    k / (size * count) = k / size ↔ size * count = 0 ∨ count = 1 ∨ k < size := by
  by_cases hzero : size * count = 0
  · rw [hzero, Nat.le_zero] at hk
    rw [hk, Nat.zero_div, Nat.zero_div]
    exact iff_of_true rfl (.inl hzero)
  rw [or_iff_right hzero]
  obtain ⟨hsize, hcount⟩ := Nat.mul_ne_zero_iff.mp hzero
  cases Nat.lt_or_eq_of_le hk with
  | inl hlt =>
      rw [Nat.div_eq_of_lt hlt, eq_comm, Nat.div_eq_zero_iff, or_iff_right hsize]
      constructor
      · exact .inr
      · rintro (rfl | h)
        · rwa [Nat.mul_one] at hlt
        · exact h
  | inr heq =>
      rw [heq, Nat.div_self (Nat.pos_of_ne_zero hzero),
        Nat.mul_div_cancel_left count (Nat.pos_of_ne_zero hsize), eq_comm,
        or_iff_left (Nat.not_lt.mpr (Nat.le_mul_of_pos_right size (Nat.pos_of_ne_zero hcount)))]

theorem fwrite_same_iff {buffer : Bytes} {size count : Nat}
    {owned : size * count ≤ buffer.length} (hc : Sized b (.fwrite buffer size count owned)) :
    Same b dev w (.fwrite buffer size count owned)
        (passed b (library b dev other) h w (.fwrite buffer size count owned)) ↔
      Agrees dev w (.fwrite buffer size count owned) := by
  have hlength : (buffer.take (size * count)).length = size * count := by
    rw [List.length_take, Nat.min_eq_left owned]
  have hwt := wtSize_eq owned hc
  rw [Agrees, ← items_eq_iff RealFile.moved_le, passed, same_ok, library_io]
  show w.given dev (buffer.take (FileHook.wtSize b size count * 1)) =
      w.given dev (buffer.take (size * count)) ∧
    w.moved dev (buffer.take (FileHook.wtSize b size count * 1)).length /
        FileHook.wtSize b size count =
      w.moved dev (buffer.take (size * count)).length / size ↔ _
  rw [Nat.mul_one, hwt, hlength]
  exact and_iff_right rfl

theorem fputs_same_iff {s : Bytes} :
    Same b dev w (.fputs s) (passed b (library b dev other) h w (.fputs s)) ↔
      Agrees dev w (.fputs s) := by
  rw [passed, same_ok, library_io]
  show w.given dev (s.take (s.length * 1)) = w.given dev s ∧
    (asInt (w.moved dev (s.take (s.length * 1)).length / s.length : Nat) < 0 ↔
      (if w.moved dev s.length = s.length then 0 else -1 : Int) < 0) ↔ _
  have hle : w.moved dev s.length ≤ s.length := RealFile.moved_le
  rw [Nat.mul_one, List.take_length, and_iff_right rfl, Agrees]
  by_cases hall : w.moved dev s.length = s.length
  · rw [if_pos hall, hall]
    refine iff_of_true (iff_of_false ?_ (Int.lt_irrefl 0)) rfl
    cases Nat.eq_zero_or_pos s.length with
    | inl hzero => rw [hzero]; decide
    | inr hpos => rw [Nat.div_self hpos]; decide
  · rw [if_neg hall, Nat.div_eq_of_lt (Nat.lt_of_le_of_ne hle hall)]
    exact iff_of_false (fun hsame => absurd (hsame.mpr (by decide)) (by decide)) hall

/-- What `fgets` returns is the buffer where it has a text. -/
theorem line_same_iff {buffer buf : Bytes} {maxCount : Int} {w' : RealFile D} {line : Line}
    (hcall : w.call b dev (.fgets buffer maxCount) = (w', line, buf)) :
    Same b dev w (.fgets buffer maxCount)
        (passed b (library b dev other) h w (.fgets buffer maxCount)) ↔
      ∃ len, strlen buf = .ok len ∧ (len = 0 ↔ line = .null) := by
  rw [passed, library_io, Same, hcall]
  show (∃ a, (fun len : Nat => (w', if len = 0 then Line.null else .buffer, buf)) <$> strlen buf =
    .ok (w', a) ∧ a = (line, buf)) ↔ _
  cases strlen buf with
  | error e => simp
  | ok len =>
      cases line with
      | null => simp
      | buffer => simp

theorem null_same_iff {buf : Bytes} :
    (∃ len, strlen buf = .ok len ∧ (len = 0 ↔ Line.null = .null)) ↔ buf.head? = some 0 := by
  rw [← strlen_eq_zero_iff]
  simp

theorem text_same_iff {buffer t : Bytes} :
    (∃ len, strlen (overwrite buffer 0 (t ++ [0])) = .ok len ∧
      (len = 0 ↔ Line.buffer = .null)) ↔ t ≠ [] ∧ t.head? ≠ some 0 := by
  have hmem : (0 : UInt8) ∈ overwrite buffer 0 (t ++ [0]) := by
    rw [overwrite_zero]
    exact List.mem_append_left _ (List.mem_append_right t (List.mem_singleton_self 0))
  have hhead : (overwrite buffer 0 (t ++ [0])).head? = some 0 ↔ ¬ (t ≠ [] ∧ t.head? ≠ some 0) := by
    rw [overwrite_zero]
    cases t with
    | nil => simp
    | cons c t => simp
  obtain ⟨len, hlen⟩ := strlen_of_mem hmem
  rw [← not_iff_not, ← hhead, ← strlen_eq_zero_iff, hlen]
  simp

theorem fgets_same_iff {buffer : Bytes} {maxCount : Int} :
    Same b dev w (.fgets buffer maxCount)
        (passed b (library b dev other) h w (.fgets buffer maxCount)) ↔
      Agrees dev w (.fgets buffer maxCount) := by
  rw [Agrees, FgetsAgrees]
  by_cases hnone : maxCount ≤ 0
  · have hcall : w.call b dev (.fgets buffer maxCount) = (w, .null, buffer) := if_pos hnone
    rw [if_pos hnone, line_same_iff hcall, null_same_iff]
  rw [if_neg hnone]
  by_cases hone : maxCount = 1
  · have hcall : w.call b dev (.fgets buffer maxCount) =
        (w, .buffer, overwrite buffer 0 ([] ++ [0])) :=
      (if_neg hnone).trans (if_pos hone)
    rw [line_same_iff hcall, text_same_iff]
    exact iff_of_false (fun hsame => hsame.1 rfl) fun hagrees => hagrees.1 hone
  rw [and_iff_right hone]
  by_cases htext : w.text dev maxCount = []
  · have hcall : w.call b dev (.fgets buffer maxCount) =
        (w.asked dev (w.line maxCount).length, .null, buffer) :=
      ((if_neg hnone).trans (if_neg hone)).trans (if_pos htext)
    rw [if_pos htext, line_same_iff hcall, null_same_iff]
  · have hcall : w.call b dev (.fgets buffer maxCount) =
        ((w.asked dev (w.line maxCount).length).advance (w.text dev maxCount).length, .buffer,
          overwrite buffer 0 (w.text dev maxCount ++ [0])) :=
      ((if_neg hnone).trans (if_neg hone)).trans (if_neg htext)
    rw [if_neg htext, line_same_iff hcall, text_same_iff]
    exact and_iff_right htext

/-- `pread` is the transfer at its offset. -/
theorem pread_eq (buffer : Bytes) (count : Nat) (offset : Int) :
    ∃ bytes : Bytes,
      bytes.length = (offsetTransfer dev w offset (w.avail offset.toNat count)).2.getD 0 ∧
      w.pread b dev buffer count offset =
        ({ w with device := (offsetTransfer dev w offset (w.avail offset.toNat count)).1 },
          ssize b (offsetTransfer dev w offset (w.avail offset.toNat count)).2,
          overwrite buffer 0 bytes) := by
  rw [offsetTransfer, RealFile.pread]
  split
  next => exact ⟨[], rfl, by rw [overwrite_nil]⟩
  next => exact ⟨w.got dev offset.toNat count, RealFile.length_got, rfl⟩

/-- `pwrite` is the transfer at its offset. -/
theorem pwrite_eq {buffer : Bytes} {count : Nat} {offset : Int} (owned : count ≤ buffer.length) :
    w.pwrite b dev buffer count offset =
      (({ w with device := (offsetTransfer dev w offset count).1 } : RealFile D).put offset.toNat
          ((buffer.take count).take ((offsetTransfer dev w offset count).2.getD 0)),
        ssize b (offsetTransfer dev w offset count).2) := by
  have hlength : (buffer.take count).length = count := by
    rw [List.length_take, Nat.min_eq_left owned]
  rw [offsetTransfer, RealFile.pwrite, hlength]
  split
  next =>
    rw [Option.getD_none, List.take_zero, RealFile.put_nil]
  next => rfl

theorem pread_same_iff {buffer : Bytes} {count : Nat} {offset : Int}
    (hc : Sized b (.pread buffer count offset)) :
    Same b dev w (.pread buffer count offset)
        (passed b (library b dev other) h w (.pread buffer count offset)) ↔
      Agrees dev w (.pread buffer count offset) := by
  obtain ⟨hroom, hlong⟩ := hc
  have hsize {pos k : Nat} (hk : k ≤ w.avail pos count) : 2 * k < b.words := by
    have hle := hk.trans ((Nat.min_le_left ..).trans hroom)
    have := hlong.2
    omega
  obtain ⟨bytes, hbytes, hpread⟩ :
      ∃ bytes : Bytes,
        bytes.length = (offsetTransfer dev w offset (w.avail offset.toNat count)).2.getD 0 ∧
        w.pread b dev buffer count offset = _ := pread_eq buffer count offset
  rw [Agrees, passed, same_ok, library_io]
  show w.taken dev count = (w.pread b dev buffer count offset).1 ∧
    (ssize b (w.transfer dev (w.avail w.pos count)).2, overwrite buffer 0 (w.got dev w.pos count)) =
      (w.pread b dev buffer count offset).2 ↔ _
  rw [hpread]
  constructor
  · rintro ⟨hfile, hanswer⟩
    obtain ⟨hdevice, -, hpos⟩ := RealFile.mk.inj hfile
    have hend := ssize_inj (fun k hk => hsize (RealFile.le_of_transfer hk))
      (fun k hk => hsize (le_of_offsetTransfer hk)) (Prod.mk.inj hanswer).1
    exact ⟨Nat.add_eq_left.mp hpos, Prod.ext hdevice hend⟩
  · rintro ⟨hnone, hend⟩
    rw [← hend] at hbytes ⊢
    have hgot : w.got dev w.pos count = [] :=
      List.eq_nil_of_length_eq_zero (RealFile.length_got.trans hnone)
    have hbytes : bytes = [] := List.eq_nil_of_length_eq_zero (hbytes.trans hnone)
    rw [RealFile.taken, hnone, hgot, hbytes]
    exact ⟨rfl, rfl⟩

theorem pwrite_same_iff {buffer : Bytes} {count : Nat} {offset : Int}
    {owned : count ≤ buffer.length} (hc : Sized b (.pwrite buffer count offset owned)) :
    Same b dev w (.pwrite buffer count offset owned)
        (passed b (library b dev other) h w (.pwrite buffer count offset owned)) ↔
      Agrees dev w (.pwrite buffer count offset owned) := by
  have hsize {k : Nat} (hk : k ≤ count) : 2 * k < b.words := by
    have hle := hk.trans owned
    have := hc.2
    omega
  have hlength : (buffer.take count).length = count := by
    rw [List.length_take, Nat.min_eq_left owned]
  rw [Agrees, passed, same_ok, library_io]
  show w.given dev (buffer.take count) = (w.pwrite b dev buffer count offset).1 ∧
    ssize b (w.transfer dev (buffer.take count).length).2 =
      (w.pwrite b dev buffer count offset).2 ↔ _
  rw [pwrite_eq owned, RealFile.given, hlength]
  constructor
  · rintro ⟨hfile, hanswer⟩
    have hdevice := congrArg RealFile.device hfile
    have hpos := congrArg (fun w' : RealFile D => w'.pos) hfile
    rw [RealFile.put_device] at hdevice
    have hdevice : (w.transfer dev count).1 = (offsetTransfer dev w offset count).1 :=
      (RealFile.put_device ..).symm.trans hdevice
    have hpos : (RealFile.put _ _ _).pos + w.moved dev count = (RealFile.put _ _ _).pos := hpos
    rw [RealFile.put_pos, RealFile.put_pos] at hpos
    have hend := ssize_inj (fun k hk => hsize (RealFile.le_of_transfer hk))
      (fun k hk => hsize (le_of_offsetTransfer hk)) hanswer
    exact ⟨Nat.add_eq_left.mp hpos, Prod.ext hdevice hend⟩
  · rintro ⟨hnone, hend⟩
    have hzero : (w.transfer dev count).2.getD 0 = 0 := hnone
    rw [← hend, hnone, hzero, List.take_zero, RealFile.put_nil, RealFile.put_nil]
    exact ⟨rfl, rfl⟩

/-- A call becomes one of which the file and the result are the same exactly when it
agrees. -/
theorem passed_same_iff {c : IoCall} (hc : Sized b c) :
    Same b dev w c (passed b (library b dev other) h w c) ↔ Agrees dev w c := by
  cases c with
  | fread buffer size count => exact fread_same_iff hc
  | fwrite buffer size count owned => exact fwrite_same_iff hc
  | fgets buffer maxCount => exact fgets_same_iff
  | fputs s => exact fputs_same_iff
  | pread buffer count offset => exact pread_same_iff hc
  | pwrite buffer count offset owned => exact pwrite_same_iff hc
  | fseek | ftell | rewind | read | write => exact iff_true_intro ⟨_, rfl, rfl⟩

/-! ## Runs -/

variable {σ : Type} {F : FileFilter σ}

/-- Every call of a run leaves the file that the function of its name leaves, and returns
the same. -/
def Invisible (b : Build) (dev : Device D)
    (other : (c : LibcCall) → RealFile D → RealFile D × c.Answer) (F : FileFilter σ) (h : Handle)
    (s : σ) (w : RealFile D) : List IoCall → Prop
  | [] => True
  | c :: calls => ∃ s' a, (FileHook.io b F s h c).eval (library b dev other) w =
      .ok ((w.call b dev c).1, s', a) ∧ SameAnswer c a (w.call b dev c).2 ∧
        Invisible b dev other F h s' (w.call b dev c).1 calls

/-- The file after calls of the C library. -/
def RealFile.calls (b : Build) (dev : Device D) (w : RealFile D) (calls : List IoCall) :
    RealFile D :=
  calls.foldl (fun w c => (w.call b dev c).1) w

/-- For every filter that declines, every device behind the file and every state of the
file, all calls of a run are the functions of their names exactly when each agrees with
the file it is made on. -/
theorem invisible_iff (hF : F.Declines) {calls : List IoCall} (hcalls : ∀ c ∈ calls, Sized b c)
    {s : σ} :
    Invisible b dev other F h s w calls ↔
      ∀ mid c post, calls = mid ++ c :: post → Agrees dev (w.calls b dev mid) c := by
  induction calls generalizing s w with
  | nil => exact iff_of_true trivial fun mid c post hsplit => absurd hsplit.symm (by simp)
  | cons c calls ih =>
      obtain ⟨s', heval⟩ : ∃ s', (FileHook.io b F s h c).eval (library b dev other) w =
          (fun r => (r.1, s', r.2)) <$> passed b (library b dev other) h w c := io_eval hF c
      have hsame : Same b dev w c (passed b (library b dev other) h w c) ↔ Agrees dev w c :=
        passed_same_iff (hcalls c List.mem_cons_self)
      have hrest := fun s => ih (fun c hc => hcalls c (List.mem_cons_of_mem _ hc)) (s := s)
        (w := (w.call b dev c).1)
      rw [Invisible, heval]
      constructor
      · rintro ⟨s'', a, hcall, hanswer, hinvisible⟩ mid c' post hsplit
        cases mid with
        | nil =>
            cases hsplit
            refine hsame.mp ⟨a, ?_, hanswer⟩
            cases hpassed : passed b (library b dev other) h w c with
            | error e =>
                rw [hpassed] at hcall
                exact nomatch hcall
            | ok r =>
                obtain ⟨w', a'⟩ := r
                rw [hpassed] at hcall
                obtain ⟨hfile, -, hresult⟩ : w' = (w.call b dev c).1 ∧ s' = s'' ∧ a' = a := by
                  simpa using hcall
                rw [hfile, hresult]
        | cons c'' mid =>
            cases hsplit
            exact (hrest s'').mp hinvisible mid c' post rfl
      · intro hall
        obtain ⟨a, hpassed, hanswer⟩ := hsame.mpr (hall [] c calls rfl)
        refine ⟨s', a, by rw [hpassed]; rfl, hanswer, (hrest s').mpr fun mid c' post hsplit => ?_⟩
        exact hall (c :: mid) c' post (by rw [hsplit, List.cons_append])

end

/-- A device that moves all bytes. -/
def wholeDevice : Device Unit := fun d n => (d, some n)

/-- Other functions that do nothing. -/
def idle : (c : LibcCall) → RealFile Unit → RealFile Unit × c.Answer
  | .io _ c, w => w.call .arm64 wholeDevice c
  | .fstat _ buf, w | .lstat _ buf, w | .stat _ buf, w => (w, (0 : Int), buf)
  | .fclose _, w | .pclose _, w | .close _, w | .fopen .., w | .popen .., w | .open .., w
  | .rename .., w | .access .., w => (w, (0 : Int))

/-- A filter that leaves `common_file_filter` as it is. -/
def plainFilter : FileFilter Unit := commonFileFilter fun _ _ => ⟨false, 0, [], [], 0, 0⟩

/-- A line of a file. -/
theorem plain_fgets : Invisible .arm64 wholeDevice idle plainFilter 3 () ⟨(), [97, 10], 0⟩
    [.fgets [0, 0, 0] 3] := by
  have hcalls : ∀ c ∈ [IoCall.fgets [0, 0, 0] 3], Sized .arm64 c := by
    intro c hc
    cases List.mem_singleton.mp hc
    exact (by decide : (3 : Int) ≤ 3)
  refine (invisible_iff (commonFileFilter_declines _) hcalls).mpr fun mid c post hsplit => ?_
  cases mid with
  | nil =>
      cases hsplit
      exact ⟨by decide, by decide⟩
  | cons c' mid => exact absurd (List.cons.inj hsplit).2 (by simp)

/-- At the end of a file `fgets` returns a buffer that holds an older line, and `pread`
moves the position. -/
theorem plain_not_invisible :
    ¬ Invisible .arm64 wholeDevice idle plainFilter 3 () ⟨(), [], 0⟩ [.fgets [97, 0] 2] ∧
      ¬ Invisible .arm64 wholeDevice idle plainFilter 3 () ⟨(), [1, 2], 0⟩
        [.pread [0] 1 1] := by
  constructor
  · rintro ⟨s', a, heval, hanswer, -⟩
    cases heval
    exact nomatch congrArg Prod.fst hanswer
  · rintro ⟨s', a, heval, -, -⟩
    cases heval

end HookLibc
