import Mathlib.Data.List.TakeDrop

/-!
# Overwriting a part of a list

`overwrite s pos t` is `s` with the elements of `t` from `pos` on, where `t` may
go on behind the end of `s`.  What is in front of `t` and behind it stays, and a
front part of the result is the front part of `s` overwritten in the same way.
-/

namespace Words

variable {α : Type*}

/-- A list with other elements from a position on. -/
def overwrite (s : List α) (pos : Nat) (t : List α) : List α :=
  s.take pos ++ t ++ s.drop (pos + t.length)

@[simp] theorem overwrite_nil (s : List α) (pos : Nat) : overwrite s pos [] = s := by
  rw [overwrite, List.length_nil, Nat.add_zero, List.append_nil, List.take_append_drop]

variable {s t : List α} {pos n : Nat}

theorem length_overwrite (h : pos ≤ s.length) :
    (overwrite s pos t).length = max s.length (pos + t.length) := by
  rw [overwrite, List.length_append, List.length_append, List.length_take, List.length_drop]
  omega

/-- Overwriting inside a list keeps its length. -/
theorem length_overwrite_of_le (h : pos + t.length ≤ s.length) :
    (overwrite s pos t).length = s.length := by
  rw [length_overwrite (by omega), Nat.max_eq_left h]

/-- The front part up to the end of what is written, or behind it. -/
theorem take_overwrite (hpos : pos ≤ n) (hn : n ≤ s.length) :
    (overwrite s pos t).take (max n (pos + t.length)) = overwrite (s.take n) pos t := by
  have hfront : (s.take pos).length = pos := by rw [List.length_take]; omega
  have hrest : (s.take pos ++ t).length = pos + t.length := by rw [List.length_append, hfront]
  rw [overwrite, overwrite, List.take_append, hrest, List.take_of_length_le (by rw [hrest]; omega),
    List.take_take, Nat.min_eq_left hpos, List.drop_take]
  congr 2
  omega

/-- Overwriting behind a front part. -/
theorem overwrite_append (front rest : List α) :
    overwrite (front ++ rest) front.length t = front ++ t ++ rest.drop t.length := by
  rw [overwrite, List.take_left, List.drop_length_add_append]

/-- Overwriting behind the end. -/
theorem overwrite_length : overwrite s s.length t = s ++ t := by
  have happend := overwrite_append (t := t) s []
  rwa [List.append_nil, List.drop_nil, List.append_nil] at happend

/-- Overwriting behind what was overwritten before. -/
theorem overwrite_overwrite {u : List α} (h : pos ≤ s.length) :
    overwrite (overwrite s pos t) (pos + t.length) u = overwrite s pos (t ++ u) := by
  have hfront : (s.take pos ++ t).length = pos + t.length := by
    rw [List.length_append, List.length_take, Nat.min_eq_left h]
  have happend := overwrite_append (t := u) (s.take pos ++ t) (s.drop (pos + t.length))
  rw [hfront] at happend
  calc overwrite (overwrite s pos t) (pos + t.length) u
      = s.take pos ++ t ++ u ++ (s.drop (pos + t.length)).drop u.length := happend
    _ = overwrite s pos (t ++ u) := by
        rw [overwrite, List.drop_drop, List.length_append, Nat.add_assoc, List.append_assoc _ t]

/-- Overwriting a list from its beginning on. -/
theorem overwrite_zero : overwrite s 0 t = t ++ s.drop t.length := by
  rw [overwrite, List.take_zero, List.nil_append, Nat.zero_add]

theorem take_overwrite_zero : (overwrite s 0 t).take t.length = t := by
  rw [overwrite_zero, List.take_left]

end Words
