import AndroidAnalysis.Words.PosFile

/-!
# Lines of a list with a position

A line goes up to and including the next separator, and is cut off after a number
of elements and at the end of the content.
-/

namespace Words

variable {α : Type*} [DecidableEq α]

/-- The front of a list, up to and including its first `sep`. -/
def upTo (sep : α) : List α → List α
  | [] => []
  | a :: s => if a = sep then [a] else a :: upTo sep s

theorem upTo_prefix (sep : α) (s : List α) : upTo sep s <+: s := by
  induction s with
  | nil => exact List.nil_prefix
  | cons a s ih =>
      rw [upTo]
      split
      next => exact ⟨s, rfl⟩
      next => exact (List.prefix_cons_inj a).mpr ih

theorem upTo_ne_nil (sep : α) {s : List α} (h : s ≠ []) : upTo sep s ≠ [] := by
  cases s with
  | nil => exact absurd rfl h
  | cons a s =>
      rw [upTo]
      split
      next => exact List.cons_ne_nil _ _
      next => exact List.cons_ne_nil _ _

namespace PosFile

/-- A content at its start. -/
def start (content : List α) : PosFile α := ⟨content, 0, Nat.zero_le _⟩

variable (f : PosFile α) (sep : α) (n : Nat)

/-- The next line, of at most `n` elements. -/
def line : List α := upTo sep (f.next n)

/-- The file behind its next line. -/
def skipLine : PosFile α := f.skip (f.line sep n).length

/-- The next line is what a read of its length gives. -/
theorem next_length_line : f.next (f.line sep n).length = f.line sep n := by
  have hline : f.line sep n <+: f.next n := upTo_prefix sep (f.next n)
  have hnext : f.next n <+: f.content.drop f.pos := List.take_prefix n _
  exact (List.prefix_iff_eq_take.mp (hline.trans hnext)).symm

theorem skipLine_pos : (f.skipLine sep n).pos = f.pos + (f.line sep n).length := by
  rw [skipLine, skip, seek_pos, next_length_line]

variable {f sep n}

/-- In front of the end, the next line is not empty. -/
theorem length_line_pos (hpos : f.pos < f.content.length) (hn : 0 < n) :
    0 < (f.line sep n).length := by
  have hnext := f.length_next n
  refine List.length_pos_iff.mpr (upTo_ne_nil sep fun hnil => ?_)
  rw [hnil, List.length_nil] at hnext
  omega

end PosFile

end Words
