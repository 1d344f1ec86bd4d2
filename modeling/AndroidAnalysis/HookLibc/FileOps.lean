import AndroidAnalysis.HookLibc.MemoryFileAnswers
import AndroidAnalysis.HookLibc.MemoryFileRefines

/-!
# Operations on a `memory_file`

Reads, writes, changes of the position, and the positioned reads and writes of
`file_hook`, which change the position around a read or a write.  `Steps` is what
they are on a file.

A positioned operation whose callback returns the count 0 goes on to the C library
with the number of the file, so a run is one on the file exactly when the
`memory_file` answers the positioned operations (`runAll_refines_iff`).
-/

namespace HookLibc

open Cpp Machine Calls Words

/-- An operation on an open file. -/
inductive FileOp
  | read (buffer : Bytes) (n : Nat)
  | write (w : Bytes)
  | setPos (pos : Int)
  | pread (buffer : Bytes) (n : Nat) (pos : Int)
  | pwrite (w : Bytes) (pos : Int)

/-- The C library may be called.  Its `read` returns how much it has stored, at most what it
is to read, or -1, and its `write` how much it has written, or -1.  No fault is allowed. -/
def libcCounts (b : Build) : Contract LibcCall.Answer Fault where
  calls _ := True
  answers
    | .io _ (.read buffer n), a => a.2.length = buffer.length ∧
        (a.1 ≤ n ∧ a.2.drop a.1 = buffer.drop a.1 ∨ a.1 = b.words - 1 ∧ a.2 = buffer)
    | .io _ (.write _ count _), a => a ≤ count ∨ a = b.words - 1
    | _, _ => True
  faults _ := False

namespace FileOp

/-- The operation on a `memory_file` under a number, with the count it returns and the
buffer of a read. -/
def run (b : Build) (fd : Handle) (m : MemoryFile) : FileOp → Prog (MemoryFile × Nat × Bytes)
  | .read buffer n => ofExcept ((memoryFile b).beforeRead m buffer n false)
  | .write w => do
      let r ← ofExcept ((memoryFile b).beforeWrite m w w.length)
      .ret (r.1, r.2, [])
  | .setPos pos => do
      let r ← ofExcept ((memoryFile b).onSetPos m pos)
      .ret (r.1, 0, [])
  | .pread buffer n pos => FileHook.pread (memoryFile b) m fd buffer n pos
  | .pwrite w pos => do
      let r ← FileHook.pwrite (memoryFile b) m fd w w.length pos (Nat.le_refl _)
      .ret (r.1, r.2, [])

/-- Operations one after the other. -/
def runAll (b : Build) (fd : Handle) (m : MemoryFile) :
    List FileOp → Prog (MemoryFile × List (Nat × Bytes))
  | [] => .ret (m, [])
  | op :: ops => do
      let r ← op.run b fd m
      let rs ← runAll b fd r.1 ops
      .ret (rs.1, r.2 :: rs.2)

/-- The file that the callbacks of an operation leave. -/
def after (b : Build) (m : MemoryFile) : FileOp → Except Fault MemoryFile
  | .read buffer n => m.after b (.read buffer n)
  | .write w => m.after b (.write w w.length (Nat.le_refl _))
  | .setPos pos => .ok (m.setOff pos)
  | .pread buffer n pos => m.after b (.pread buffer n pos)
  | .pwrite w pos => m.after b (.pwrite w w.length pos (Nat.le_refl _))

/-- The operation on a file: a write takes a front part of what it is given, and a
positioned operation leaves the position. -/
inductive Step : PosFile UInt8 → FileOp → Nat × Bytes → PosFile UInt8 → Prop
  | read {f buffer n} :
      Step f (.read buffer n) ((f.next n).length, overwrite buffer 0 (f.next n)) (f.skip n)
  | write {f w k} (hk : k ≤ w.length) : Step f (.write w) (k, []) (f.write (w.take k))
  | setPos {f} {pos : Nat} (h : pos ≤ f.content.length) :
      Step f (.setPos pos) (0, []) (f.seek pos h)
  | pread {f g buffer n r} {pos : Nat} (h : pos ≤ f.content.length)
      (hread : Step (f.seek pos h) (.read buffer n) r g) (hpos : f.pos ≤ g.content.length) :
      Step f (.pread buffer n pos) r (g.seek f.pos hpos)
  | pwrite {f g w r} {pos : Nat} (h : pos ≤ f.content.length)
      (hwrite : Step (f.seek pos h) (.write w) r g) (hpos : f.pos ≤ g.content.length) :
      Step f (.pwrite w pos) r (g.seek f.pos hpos)

/-- A run of operations on a file. -/
inductive Steps : PosFile UInt8 → List FileOp → List (Nat × Bytes) → PosFile UInt8 → Prop
  | nil {f} : Steps f [] [] f
  | cons {f g g' op ops r rs} (head : Step f op r g) (tail : Steps g ops rs g') :
      Steps f (op :: ops) (r :: rs) g'

/-- The offsets are in the content, a buffer has the room its caller says, and no
`int` of a write leaves its range. -/
def Fits (m : MemoryFile) : FileOp → Prop
  | .read buffer n => n ≤ buffer.length
  | .write _ => IsInt (m.alllen + m.alllen / 2)
  | .setPos pos => 0 ≤ pos ∧ pos ≤ m.len
  | .pread buffer n pos => n ≤ buffer.length ∧ 0 ≤ pos ∧ pos ≤ m.len
  | .pwrite _ pos => IsInt (m.alllen + m.alllen / 2) ∧ 0 ≤ pos ∧ pos ≤ m.len

/-- A positioned read that is of nothing, or in front of the end of the content, and a
positioned write that is of something, and in front of the end of the capacity it goes
up to. -/
def Answered (m : MemoryFile) : FileOp → Prop
  | .read .. | .write _ | .setPos _ => True
  | .pread _ n pos => n = 0 ∨ pos < m.len
  | .pwrite w pos => w ≠ [] ∧ pos < m.alllen + m.alllen / 2

/-- The operations up to any of them return, with what they are on the file. -/
def Refines (b : Build) (fd : Handle) (m : MemoryFile) (f : PosFile UInt8) (ops : List FileOp) :
    Prop :=
  ∀ p, p <+: ops → (runAll b fd m p).Meets (libcCounts b) fun r =>
    ∃ f', Steps f p r.2 f' ∧ r.1.Rep f'

variable {b : Build} {fd : Handle} {m : MemoryFile} {f g : PosFile UInt8} {buffer w : Bytes}
  {n : Nat}

/-! ## Reads -/

variable (b fd) in
/-- A read that is answered, or one of nothing. -/
theorem read_answered (h : m.Rep f) (hn : n ≤ buffer.length)
    (ha : n = 0 ∨ f.pos < f.content.length) :
    ∃ m' r, m.read b buffer n true = .ok (m', r) ∧ Step f (.read buffer n) r (f.skip n) ∧
      m'.Rep (f.skip n) ∧ ∀ P, (FileHook.read (memoryFile b) m fd buffer n).Meets (libcCounts b) P ↔
        P (m', r) := by
  obtain ⟨m', hread, h'⟩ := h.read (b := b) hn
  refine ⟨m', _, hread, .read, h', fun P => ?_⟩
  rw [FileHook.read, memoryFile_beforeRead_read, hread, ofExcept_ok, ret_bind]
  have hlength := f.length_next n
  by_cases hsome : (f.next n).length = 0
  · have hzero : n = 0 := by omega
    subst hzero
    have hnil : f.next 0 = [] := List.eq_nil_of_length_eq_zero hsome
    rw [hnil, overwrite_nil, List.length_nil, if_neg (not_not.mpr rfl)]
    refine meets_call_iff trivial ⟨(0, buffer), rfl, .inl ⟨Nat.le_refl 0, rfl⟩⟩ ?_
    rintro ⟨count, text⟩ ⟨-, ⟨hcount, htext⟩ | ⟨-, htext⟩⟩
    · obtain rfl : count = 0 := Nat.le_zero.mp hcount
      obtain rfl : text = buffer := htext
      exact Iff.rfl
    · obtain rfl : text = buffer := htext
      exact Iff.rfl
  · rw [if_pos hsome]
    exact Iff.rfl

/-- A read at the end may leave anything in the buffer. -/
theorem read_unanswered (h : m.Rep f) (hn : n ≤ buffer.length) (hsome : n ≠ 0)
    (hend : f.content.length ≤ f.pos) :
    ¬ (FileHook.read (memoryFile b) m fd buffer n).Meets (libcCounts b) fun r =>
      r.2.2 = buffer := by
  obtain ⟨m', hread, -⟩ := h.read (b := b) hn
  have hlength := f.length_next n
  have hnil : f.next n = [] := List.eq_nil_of_length_eq_zero (by omega)
  rw [FileHook.read, memoryFile_beforeRead_read, hread, ofExcept_ok, ret_bind, hnil, overwrite_nil,
    List.length_nil, if_neg (not_not.mpr rfl)]
  rintro ⟨-, hmeets⟩
  obtain ⟨n, rfl⟩ := Nat.exists_eq_succ_of_ne_zero hsome
  cases buffer with
  | nil => exact absurd hn (Nat.not_succ_le_zero n)
  | cons c rest =>
      have hkeep (d : UInt8) : d = c :=
        (List.cons.inj (hmeets ((1 : Nat), d :: rest)
          ⟨rfl, .inl ⟨Nat.succ_le_succ (Nat.zero_le n), rfl⟩⟩)).1
      exact absurd ((hkeep 0).trans (hkeep 1).symm) (by decide)

/-! ## Writes -/

/-- The capacity that a write goes up to. -/
theorem grown_of_rep (h : m.Rep f) (n : Nat) : m.grown b n = m.alllen + m.alllen / 2 := by
  have hle := h.length_le
  have hcap := h.capacity
  have hpos := h.pos
  have hfpos := f.pos_le
  rw [MemoryFile.grown, MemoryFile.missing, if_pos (by omega), Int.add_zero]

/-- A write returns a count that is not 0 where it is of something, in front of the end
of the capacity that it goes up to. -/
theorem write_ne_zero_iff (h : m.Rep f) {m' : MemoryFile} {k : Nat}
    (hwrite : m.write b w w.length true = .ok (m', k)) :
    k ≠ 0 ↔ w ≠ [] ∧ f.pos < m.alllen + m.alllen / 2 := by
  have hle := h.length_le
  have hcap := h.capacity
  have hpos := h.pos
  have hfpos := f.pos_le
  obtain ⟨-, hcount, -⟩ := MemoryFile.write_count (by omega) hwrite
  rw [hcount, MemoryFile.WriteAnswers, grown_of_rep h, hpos, or_iff_left (by omega), Ne,
    List.length_eq_zero_iff]

variable (b fd) in
/-- A write that is answered. -/
theorem write_answered (h : m.Rep f) (hgrown : IsInt (m.alllen + m.alllen / 2)) (hw : w ≠ [])
    (hroom : f.pos < m.alllen + m.alllen / 2) :
    ∃ m' k g, m.write b w w.length true = .ok (m', k) ∧ Step f (.write w) (k, []) g ∧ m'.Rep g ∧
      f.content.length ≤ g.content.length ∧ ∀ P,
        (FileHook.write (memoryFile b) m fd w w.length (Nat.le_refl _)).Meets (libcCounts b) P ↔
          P (m', k) := by
  obtain ⟨m', k, hwrite, hk, h'⟩ := h.write (b := b) (w := w) hgrown
  have hsome := (write_ne_zero_iff h hwrite).mpr ⟨hw, hroom⟩
  refine ⟨m', k, _, hwrite, .write hk, h', f.length_le_write _, fun P => ?_⟩
  show (ofExcept (m.write b w w.length true) >>= _ : Prog _).Meets _ _ ↔ _
  rw [hwrite, ofExcept_ok, ret_bind, if_pos hsome]
  exact Iff.rfl

/-- A write that is not answered returns what the C library returns, which need not be
what has been written. -/
theorem write_unanswered (h : m.Rep f) (hgrown : IsInt (m.alllen + m.alllen / 2))
    (hnone : ¬ (w ≠ [] ∧ f.pos < m.alllen + m.alllen / 2)) :
    ¬ (FileHook.write (memoryFile b) m fd w w.length (Nat.le_refl _)).Meets (libcCounts b) fun r =>
      r.2 ≤ w.length ∧ r.1.len = ((f.write (w.take r.2)).content.length : Int) := by
  have hle := h.length_le
  have hcap := h.capacity
  have hfpos := f.pos_le
  obtain ⟨m', k, hwrite, -, h'⟩ := h.write (b := b) (w := w) hgrown
  have hzero : k = 0 := not_not.mp (mt (write_ne_zero_iff h hwrite).mp hnone)
  subst hzero
  have hlen := h'.len
  rw [List.take_zero, PosFile.write_nil] at hlen
  show ¬ (ofExcept (m.write b w w.length true) >>= _ : Prog _).Meets _ _
  rw [hwrite, ofExcept_ok, ret_bind, if_neg (not_not.mpr rfl)]
  rintro ⟨-, hmeets⟩
  by_cases hw : w = []
  · subst hw
    have herror : b.words - 1 ≤ 0 := (hmeets (b.words - 1 : Nat) (.inr rfl)).1
    have hwords : 1 < b.words := by cases b <;> decide
    omega
  · have hsize : 1 ≤ w.length := List.length_pos_iff.mpr hw
    have hone : m'.len = (f.write (w.take 1)).content.length := (hmeets (1 : Nat) (.inl hsize)).2
    have hfull : m.alllen + m.alllen / 2 ≤ f.pos := Int.not_lt.mp fun hroom => hnone ⟨hw, hroom⟩
    rw [PosFile.write, length_overwrite f.pos_le, List.length_take] at hone
    omega

/-! ## Steps -/

/-- The result of a step says where it goes. -/
theorem Step.unique {op : FileOp} {r : Nat × Bytes} {g' : PosFile UInt8} (h : Step f op r g)
    (h' : Step f op r g') : g = g' := by
  induction h generalizing g' with
  | read | write | setPos =>
      cases h'
      rfl
  | pread _ _ _ ih =>
      cases h' with
      | pread _ hread _ =>
          cases ih hread
          rfl
  | pwrite _ _ _ ih =>
      cases h' with
      | pwrite _ hwrite _ =>
          cases ih hwrite
          rfl

variable (b fd) in
/-- What an answered operation does, whatever the C library answers, is a step on the
file. -/
theorem run_answered (h : m.Rep f) {op : FileOp} (hfits : op.Fits m) (ha : op.Answered m) :
    ∃ m' r g, op.after b m = .ok m' ∧ Step f op r g ∧ m'.Rep g ∧
      ∀ P, (op.run b fd m).Meets (libcCounts b) P ↔ P (m', r) := by
  have hint {pos : Nat} (hpos : pos ≤ f.content.length) : asInt (pos : Int) = pos :=
    asInt_of_isInt (h.isInt.of_le (by omega) (by have := h.length_le; have := h.capacity; omega))
  cases op with
  | read buffer n =>
      obtain ⟨m', hread, h'⟩ := h.read (b := b) hfits
      refine ⟨m', _, _, congrArg (Functor.map Prod.fst) hread, .read, h', fun P => ?_⟩
      show (ofExcept (m.read b buffer n true) : Prog _).Meets _ _ ↔ _
      rw [hread]
      exact Iff.rfl
  | write w =>
      obtain ⟨m', k, hwrite, hk, h'⟩ := h.write (b := b) (w := w) hfits
      refine ⟨m', (k, []), _, congrArg (Functor.map Prod.fst) hwrite, .write hk, h', fun P => ?_⟩
      show (ofExcept (m.write b w w.length true) >>= _ : Prog _).Meets _ _ ↔ _
      rw [hwrite]
      exact Iff.rfl
  | setPos pos =>
      obtain ⟨hnonneg, hpos⟩ := hfits
      obtain ⟨pos, rfl⟩ := Int.eq_ofNat_of_zero_le hnonneg
      rw [h.len, Int.ofNat_le] at hpos
      exact ⟨_, _, _, rfl, .setPos hpos, h.seek hpos, fun P => Iff.rfl⟩
  | pread buffer n pos =>
      obtain ⟨hn, hnonneg, hpos⟩ := hfits
      obtain ⟨pos, rfl⟩ := Int.eq_ofNat_of_zero_le hnonneg
      rw [Answered, h.len, Int.ofNat_lt] at ha
      rw [h.len, Int.ofNat_le] at hpos
      obtain ⟨m', r, hread, hstep, h', hmeets⟩ :=
        read_answered b fd (h.seek hpos) hn ha
      refine ⟨m'.setOff m.off, r, _, ?_, .pread hpos hstep f.pos_le, ?_, fun P => ?_⟩
      · rw [after, MemoryFile.after, hint hpos, hread]
        rfl
      · rw [h.pos]
        exact h'.seek f.pos_le
      · rw [run, FileHook.pread, MemoryFile.autoSetPos_meets, hint hpos, hmeets]
  | pwrite w pos =>
      obtain ⟨hgrown, hnonneg, hpos⟩ := hfits
      obtain ⟨pos, rfl⟩ := Int.eq_ofNat_of_zero_le hnonneg
      rw [h.len, Int.ofNat_le] at hpos
      obtain ⟨m', k, g, hwrite, hstep, h', hle, hmeets⟩ :=
        write_answered b fd (h.seek hpos) hgrown ha.1 ha.2
      have hle : f.pos ≤ g.content.length := f.pos_le.trans hle
      refine ⟨m'.setOff m.off, (k, []), _, ?_, .pwrite hpos hstep hle, ?_, fun P => ?_⟩
      · rw [after, MemoryFile.after, hint hpos, hwrite]
        rfl
      · rw [h.pos]
        exact h'.seek hle
      · rw [run, meets_bind, FileHook.pwrite, MemoryFile.autoSetPos_meets, hint hpos, hmeets]
        exact Iff.rfl

/-- One that is not answered need not be. -/
theorem run_unanswered (h : m.Rep f) {op : FileOp} (hfits : op.Fits m) (hna : ¬ op.Answered m) :
    ¬ (op.run b fd m).Meets (libcCounts b) fun r => ∃ g, Step f op r.2 g ∧ r.1.Rep g := by
  have hint {pos : Nat} (hpos : pos ≤ f.content.length) : asInt (pos : Int) = pos :=
    asInt_of_isInt (h.isInt.of_le (by omega) (by have := h.length_le; have := h.capacity; omega))
  intro hmeets
  cases op with
  | read | write | setPos => exact hna trivial
  | pread buffer n pos =>
      obtain ⟨hn, hnonneg, hpos⟩ := hfits
      obtain ⟨pos, rfl⟩ := Int.eq_ofNat_of_zero_le hnonneg
      rw [Answered, h.len, Int.ofNat_lt, not_or, Nat.not_lt] at hna
      rw [h.len, Int.ofNat_le] at hpos
      rw [run, FileHook.pread, MemoryFile.autoSetPos_meets, hint hpos] at hmeets
      refine read_unanswered (h.seek hpos) hn hna.1 hna.2 (hmeets.mono ?_)
      rintro ⟨m', count, text⟩ ⟨g, hstep, -⟩
      cases hstep with
      | pread hpos hread =>
          have hlength := (f.seek pos hpos).length_next n
          have hend : (f.seek pos hpos).content.length ≤ pos := hna.2
          rw [PosFile.seek_pos] at hlength
          have hnil : (f.seek pos hpos).next n = [] :=
            List.eq_nil_of_length_eq_zero (by omega)
          cases hread
          show overwrite buffer 0 _ = buffer
          rw [hnil, overwrite_nil]
  | pwrite w pos =>
      obtain ⟨hgrown, hnonneg, hpos⟩ := hfits
      obtain ⟨pos, rfl⟩ := Int.eq_ofNat_of_zero_le hnonneg
      rw [h.len, Int.ofNat_le] at hpos
      rw [run, meets_bind, FileHook.pwrite, MemoryFile.autoSetPos_meets, hint hpos] at hmeets
      refine write_unanswered (h.seek hpos) hgrown hna (hmeets.mono ?_)
      rintro ⟨m', k⟩ ⟨g, hstep, h'⟩
      cases hstep with
      | pwrite hpos hwrite =>
          cases hwrite with
          | write hk => exact ⟨hk, h'.len⟩

/-! ## Runs -/

/-- Operations whose first is a step on the file. -/
theorem refines_cons_iff (h : m.Rep f) {op : FileOp} {ops : List FileOp} {m' : MemoryFile}
    {r : Nat × Bytes} (hstep : Step f op r g)
    (hmeets : ∀ P, (op.run b fd m).Meets (libcCounts b) P ↔ P (m', r)) :
    Refines b fd m f (op :: ops) ↔ Refines b fd m' g ops := by
  constructor
  · intro hall p hp
    have hcons := hall (op :: p) (List.cons_prefix_cons.mpr ⟨rfl, hp⟩)
    rw [runAll, meets_bind, hmeets, meets_bind] at hcons
    refine hcons.mono ?_
    rintro rs ⟨f', hsteps, h'⟩
    cases hsteps with
    | cons head tail =>
        rw [hstep.unique head]
        exact ⟨f', tail, h'⟩
  · intro hall p hp
    rcases List.prefix_cons_iff.mp hp with rfl | ⟨tail, rfl, htail⟩
    · exact ⟨f, .nil, h⟩
    · rw [runAll, meets_bind, hmeets, meets_bind]
      refine (hall tail htail).mono ?_
      rintro rs ⟨f', hsteps, h'⟩
      exact ⟨f', .cons hstep hsteps, h'⟩

theorem refines_iff (h : m.Rep f) {ops : List FileOp}
    (hfits : ∀ mid op post, ops = mid ++ op :: post → ∀ m',
      Machine.run (fun m op => after b m op) m mid = .ok m' → op.Fits m') :
    Refines b fd m f ops ↔ ∀ mid op post, ops = mid ++ op :: post → ∀ m',
      Machine.run (fun m op => after b m op) m mid = .ok m' → op.Answered m' := by
  induction ops generalizing m f with
  | nil =>
      refine iff_of_true (fun p hp => ?_) fun mid op post hsplit => absurd hsplit.symm (by simp)
      rw [List.prefix_nil.mp hp]
      exact ⟨f, .nil, h⟩
  | cons op ops ih =>
      have hhead : op.Fits m := hfits [] op ops rfl m rfl
      by_cases ha : op.Answered m
      · obtain ⟨m₁, r, g, hafter, hstep, h₁, hmeets⟩ :=
          run_answered b fd h hhead ha
        have htail (mid : List FileOp) (m' : MemoryFile) :
            Machine.run (fun m op => after b m op) m (op :: mid) = .ok m' ↔
              Machine.run (fun m op => after b m op) m₁ mid = .ok m' := by
          rw [Machine.run, hafter]
        rw [refines_cons_iff h hstep hmeets, ih h₁ fun mid op' post hsplit m' hrun =>
          hfits (op :: mid) op' post (by rw [hsplit, List.cons_append]) m'
            ((htail mid m').mpr hrun)]
        constructor
        · intro hall mid op' post hsplit m' hrun
          cases mid with
          | nil =>
              cases hsplit
              cases hrun
              exact ha
          | cons e mid =>
              cases hsplit
              exact hall mid op' post rfl m' ((htail mid m').mp hrun)
        · intro hall mid op' post hsplit m' hrun
          exact hall (op :: mid) op' post (by rw [hsplit, List.cons_append]) m'
            ((htail mid m').mpr hrun)
      · refine iff_of_false (fun hall => ?_) fun hall => ha (hall [] op ops rfl m rfl)
        have hone := hall [op] (List.prefix_append [op] ops)
        rw [runAll, meets_bind] at hone
        refine run_unanswered h hhead ha (hone.mono ?_)
        rintro ⟨m', r⟩ ⟨f', hsteps, h'⟩
        cases hsteps with
        | cons head tail =>
            cases tail
            exact ⟨f', head, h'⟩

/-- For every `memory_file` that the copying or the default constructor makes, and
all operations that fit it when they happen, the operations are those on the file of
its content and its position exactly when it answers each positioned one. -/
theorem runAll_refines_iff (hnew : m.Built f) {ops : List FileOp}
    (hfits : ∀ mid op post, ops = mid ++ op :: post → ∀ m',
      Machine.run (fun m op => after b m op) m mid = .ok m' → op.Fits m') :
    Refines b fd m f ops ↔ ∀ mid op post, ops = mid ++ op :: post → ∀ m',
      Machine.run (fun m op => after b m op) m mid = .ok m' → op.Answered m' :=
  refines_iff hnew.rep hfits

/-- A copy of three bytes, whose buffer has a fourth. -/
def sample : MemoryFile := ⟨0, 0, [], 4, 3, 0, [1, 2, 3, 0]⟩

theorem sample_built : sample.Built ⟨[1, 2, 3], 0, Nat.zero_le _⟩ :=
  .copying (show MemoryFile.copying 0 0 [1, 2, 3] 3 = .ok sample from rfl)

/-- A write to the copy at its end. -/
theorem sample_refines : Refines .arm64 65555 sample ⟨[1, 2, 3], 0, Nat.zero_le _⟩
    [.pwrite [9] 3] := by
  refine (runAll_refines_iff sample_built fun mid op post hsplit m' hrun => ?_).mpr
    fun mid op post hsplit m' hrun => ?_
  · cases mid with
    | nil =>
        cases hsplit
        cases hrun
        exact ⟨(by decide : IsInt (4 + 4 / 2)), by decide, by decide⟩
    | cons op' mid => exact absurd (List.cons.inj hsplit).2 (by simp)
  · cases mid with
    | nil =>
        cases hsplit
        cases hrun
        exact ⟨List.cons_ne_nil _ _, by decide⟩
    | cons op' mid => exact absurd (List.cons.inj hsplit).2 (by simp)

/-- A copy of one byte, whose buffer is full. -/
def oneByte : MemoryFile := ⟨0, 0, [], 1, 1, 0, [1]⟩

theorem oneByte_built : oneByte.Built ⟨[1], 0, Nat.zero_le _⟩ :=
  .copying (show MemoryFile.copying 0 0 [1] 1 = .ok oneByte from rfl)

/-- A write to it at its end returns the -1 of the C library. -/
theorem oneByte_not_refines : oneByte.Built ⟨[1], 0, Nat.zero_le _⟩ ∧
    (pwrite [9] 1).Fits oneByte ∧
    ¬ Refines .arm64 65555 oneByte ⟨[1], 0, Nat.zero_le _⟩ [.pwrite [9] 1] := by
  refine ⟨oneByte_built, ⟨(by decide : IsInt (1 + 1 / 2)), by decide, by decide⟩, fun hall => ?_⟩
  have hmeets := (hall _ (List.prefix_refl _)).2 (Build.arm64.words - 1 : Nat) (.inr rfl)
  obtain ⟨f', hsteps, -⟩ := hmeets
  cases hsteps with
  | cons head _ =>
      cases head with
      | pwrite _ hwrite _ =>
          cases hwrite with
          | write hk => exact absurd hk (by decide)

end FileOp

end HookLibc
