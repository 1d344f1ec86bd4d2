import AndroidAnalysis.Words.Overwrite

/-!
# A list with a position

A `PosFile` is a content and a position in it.  A read takes what is behind the
position, a write overwrites the content there and may go on behind its end, and
both move the position to where they stop.
-/

namespace Words

/-- A content, and a position in it. -/
structure PosFile (α : Type*) where
  content : List α
  pos : Nat
  pos_le : pos ≤ content.length

namespace PosFile

variable {α : Type*} (f : PosFile α)

/-- What a read of `n` elements gives. -/
def next (n : Nat) : List α := (f.content.drop f.pos).take n

theorem length_next (n : Nat) : (f.next n).length = min n (f.content.length - f.pos) := by
  rw [next, List.length_take, List.length_drop]

/-- The file at another position. -/
def seek (pos : Nat) (h : pos ≤ f.content.length) : PosFile α := ⟨f.content, pos, h⟩

/-- The file after a read. -/
def skip (n : Nat) : PosFile α :=
  f.seek (f.pos + (f.next n).length) (by
    have := f.pos_le
    rw [length_next]
    omega)

/-- The file after a write. -/
def write (t : List α) : PosFile α where
  content := overwrite f.content f.pos t
  pos := f.pos + t.length
  pos_le := by
    rw [length_overwrite f.pos_le]
    exact Nat.le_max_right ..

@[simp] theorem seek_pos (pos : Nat) (h : pos ≤ f.content.length) : (f.seek pos h).pos = pos := rfl

@[simp] theorem write_nil : f.write [] = f := by
  simp only [write, overwrite_nil, List.length_nil, Nat.add_zero]

/-- A write after another is one write. -/
theorem write_write (s t : List α) : (f.write s).write t = f.write (s ++ t) := by
  simp only [write, mk.injEq, List.length_append, Nat.add_assoc, and_true]
  exact overwrite_overwrite f.pos_le

/-- A write makes no file shorter. -/
theorem length_le_write (t : List α) : f.content.length ≤ (f.write t).content.length := by
  rw [write, length_overwrite f.pos_le]
  exact Nat.le_max_left ..

end PosFile

end Words
