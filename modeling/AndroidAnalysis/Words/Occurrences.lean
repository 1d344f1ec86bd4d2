import Mathlib.Data.List.Infix
import Mathlib.Data.List.TakeDrop

/-!
# Occurrences from the left

The leftmost occurrences of a word that do not overlap: the word is read once,
and behind an occurrence the reading goes on after it.  An occurrence is given
by what follows it, so that cutting a word behind its first occurrence takes the
first entry off the list (`occurrences_append`).

`behind` is what follows the last of them, and the word itself where there is
none.
-/

namespace Words

variable {α : Type*} [DecidableEq α] {p s : List α}

/-- The occurrences of `p`, where the next `skip` letters belong to one already. -/
def occurrencesFrom (p : List α) : Nat → List α → List (List α)
  | _, [] => []
  | skip + 1, _ :: s => occurrencesFrom p skip s
  | 0, x :: s =>
      if p <+: x :: s then (x :: s).drop p.length :: occurrencesFrom p (p.length - 1) s
      else occurrencesFrom p 0 s

/-- The leftmost occurrences of `p` that do not overlap, by what follows them. -/
def occurrences (p s : List α) : List (List α) := occurrencesFrom p 0 s

/-- What follows the last of them. -/
def behind (p s : List α) : List α := (occurrences p s).getLastD s

/-- The letters of an occurrence are left out. -/
theorem occurrencesFrom_eq (skip : Nat) (s : List α) :
    occurrencesFrom p skip s = occurrences p (s.drop skip) := by
  induction s generalizing skip with
  | nil =>
      rw [List.drop_nil, occurrences]
      cases skip <;> rfl
  | cons x s ih =>
      cases skip with
      | zero => rfl
      | succ skip => rw [occurrencesFrom, ih, List.drop_succ_cons]

/-- A word that does not occur. -/
theorem occurrences_of_absent (h : ¬ p <:+: s) : occurrences p s = [] := by
  induction s with
  | nil => rfl
  | cons x s ih =>
      rw [List.infix_cons_iff, not_or] at h
      rw [occurrences, occurrencesFrom, if_neg h.1]
      exact ih h.2

/-- What follows the first occurrence, and then the occurrences in it. -/
theorem occurrences_append (hp : p ≠ []) {pre : List α} (post : List α)
    (h : ∀ k < pre.length, ¬ p <+: (pre ++ p ++ post).drop k) :
    occurrences p (pre ++ p ++ post) = post :: occurrences p post := by
  induction pre with
  | nil =>
      obtain ⟨x, p, rfl⟩ := List.exists_cons_of_ne_nil hp
      have hprefix : x :: p <+: x :: (p ++ post) := List.prefix_append (x :: p) post
      rw [List.nil_append, List.cons_append, occurrences, occurrencesFrom, if_pos hprefix,
        occurrencesFrom_eq, List.length_cons, Nat.add_sub_cancel, List.drop_succ_cons,
        List.drop_left]
  | cons x pre ih =>
      have hhead : ¬ p <+: x :: (pre ++ p ++ post) := h 0 (Nat.zero_lt_succ _)
      rw [List.cons_append, List.cons_append, occurrences, occurrencesFrom, if_neg hhead]
      exact ih fun k hk => h (k + 1) (Nat.succ_lt_succ hk)

/-- A word without an occurrence is what follows the last one. -/
theorem behind_of_absent (h : ¬ p <:+: s) : behind p s = s := by
  rw [behind, occurrences_of_absent h]
  rfl

/-- The last occurrence is behind the first, or is the first. -/
theorem behind_append (hp : p ≠ []) {pre : List α} (post : List α)
    (h : ∀ k < pre.length, ¬ p <+: (pre ++ p ++ post).drop k) :
    behind p (pre ++ p ++ post) = behind p post := by
  rw [behind, occurrences_append hp post h, List.getLastD_cons, behind]

/-- What follows an occurrence is no longer than the word. -/
theorem length_le_of_mem_occurrencesFrom {skip : Nat} {t : List α}
    (ht : t ∈ occurrencesFrom p skip s) : t.length ≤ s.length := by
  induction s generalizing skip with
  | nil => cases skip <;> exact absurd ht List.not_mem_nil
  | cons x s ih =>
      cases skip with
      | succ skip => exact Nat.le_succ_of_le (ih ht)
      | zero =>
          rw [occurrencesFrom] at ht
          split at ht
          next =>
            rcases List.mem_cons.mp ht with rfl | ht
            · exact (List.drop_sublist _ _).length_le
            · exact Nat.le_succ_of_le (ih ht)
          next => exact Nat.le_succ_of_le (ih ht)

theorem length_behind_le (p s : List α) : (behind p s).length ≤ s.length := by
  rw [behind, List.getLastD_eq_getLast?]
  cases hlast : (occurrences p s).getLast? with
  | none => exact Nat.le_refl _
  | some t => exact length_le_of_mem_occurrencesFrom (List.mem_of_getLast? hlast)

end Words
