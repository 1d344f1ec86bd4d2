import Mathlib.Algebra.GroupWithZero.Nat
import Mathlib.Tactic.Common

/-!
# The procedure call standard of 32-bit ARM

Where a call puts its arguments when floating arguments go through the general
registers.  An argument has one word or two, and two words begin at an even
register or at an even word of the stack.  So a place can be skipped, and what
is on the stack depends on the order of the arguments.

The register counter and the stack counter together (`Counters.used`) grow by
the words of each argument at least, and by no more where no argument has two.
-/

namespace Machine.Aapcs32

/-- The size of an argument. -/
inductive ArgSize
  | word
  | double
deriving DecidableEq

/-- The words of an argument. -/
def ArgSize.words : ArgSize → Nat
  | .word => 1
  | .double => 2

/-- The next general register and the next word of the stack. -/
structure Counters where
  ncrn : Nat := 0
  nsaa : Nat := 0
deriving DecidableEq

/-- The even number at or after a place. -/
def evenUp (n : Nat) : Nat := n + n % 2

/-- The counters after the next argument: registers as long as they hold all of
it, and the stack from then on. -/
def Counters.next (c : Counters) : ArgSize → Counters
  | .word =>
      if c.ncrn < 4 then { c with ncrn := c.ncrn + 1 } else { c with nsaa := c.nsaa + 1 }
  | .double =>
      if evenUp c.ncrn + 2 ≤ 4 then { c with ncrn := evenUp c.ncrn + 2 }
      else { ncrn := 4, nsaa := evenUp c.nsaa + 2 }

/-- The counters after a list of arguments. -/
def Counters.run (c : Counters) (as : List ArgSize) : Counters := as.foldl Counters.next c

/-- The words a call puts on the stack. -/
def stackWords (as : List ArgSize) : Nat := (Counters.run {} as).nsaa

/-- The registers and the words of the stack that are behind the counters. -/
def Counters.used (c : Counters) : Nat := c.ncrn + c.nsaa

/-- The words of a list of arguments. -/
def words (as : List ArgSize) : Nat := (as.map ArgSize.words).sum

theorem next_ncrn_le {c : Counters} (h : c.ncrn ≤ 4) (a : ArgSize) : (c.next a).ncrn ≤ 4 := by
  cases a with
  | word =>
      rw [Counters.next]
      split
      next hlt => exact hlt
      next => exact h
  | double =>
      rw [Counters.next]
      split
      next hle => exact hle
      next => exact Nat.le_refl 4

/-- An argument uses its words, and perhaps a place it skips. -/
theorem used_next {c : Counters} (h : c.ncrn ≤ 4) (a : ArgSize) :
    c.used + a.words ≤ (c.next a).used := by
  cases a with
  | word =>
      rw [Counters.next]
      split <;> simp only [Counters.used, ArgSize.words] <;> omega
  | double =>
      rw [Counters.next]
      split <;> simp only [Counters.used, ArgSize.words, evenUp] at * <;> omega

/-- The arguments of a run use their words. -/
theorem used_run {c : Counters} (h : c.ncrn ≤ 4) (as : List ArgSize) :
    c.used + words as ≤ (c.run as).used ∧ (c.run as).ncrn ≤ 4 := by
  induction as generalizing c with
  | nil => exact ⟨Nat.le_refl _, h⟩
  | cons a as ih =>
      obtain ⟨hused, hncrn⟩ := ih (next_ncrn_le h a)
      have hnext := used_next h a
      refine ⟨?_, hncrn⟩
      rw [words, List.map_cons, List.sum_cons, ← words]
      exact Nat.le_trans (by omega) hused

/-- A single word takes the next place, and the stack only behind the registers. -/
theorem run_word {c : Counters} (h : c.ncrn ≤ 4) (hstack : c.nsaa = 0 ∨ c.ncrn = 4)
    {as : List ArgSize} (has : ∀ a ∈ as, a = .word) :
    (c.run as).nsaa = c.used + as.length - 4 := by
  induction as generalizing c with
  | nil =>
      show c.nsaa = c.used - 4
      rw [Counters.used]
      omega
  | cons a as ih =>
      have htail : ∀ b ∈ as, b = .word := fun b hb => has b (List.mem_cons_of_mem _ hb)
      obtain rfl : a = .word := has a List.mem_cons_self
      have hused : (c.next .word).used = c.used + 1 := by
        rw [Counters.next]
        split <;> simp only [Counters.used] <;> omega
      have hstack' : (c.next .word).nsaa = 0 ∨ (c.next .word).ncrn = 4 := by
        rw [Counters.next]
        split
        next hlt => exact Or.inl (hstack.resolve_right (Nat.ne_of_lt hlt))
        next hge => exact Or.inr (Nat.le_antisymm h (Nat.not_lt.mp hge))
      show ((c.next .word).run as).nsaa = _
      rw [ih (next_ncrn_le h .word) hstack' htail, hused, List.length_cons]
      omega

/-- An argument has a word, and another one if it is no single word. -/
theorem length_le_words (as : List ArgSize) : as.length ≤ words as := by
  induction as with
  | nil => exact Nat.le_refl _
  | cons a as ih =>
      rw [words, List.map_cons, List.sum_cons, ← words, List.length_cons]
      cases a <;> simp only [ArgSize.words] <;> omega

theorem length_lt_words {as : List ArgSize} (h : .double ∈ as) : as.length < words as := by
  induction as with
  | nil => cases h
  | cons a as ih =>
      rw [words, List.map_cons, List.sum_cons, ← words, List.length_cons]
      rcases List.mem_cons.mp h with rfl | hmem
      · have hle := length_le_words as
        simp only [ArgSize.words]
        omega
      · have hlt := ih hmem
        cases a <;> simp only [ArgSize.words] <;> omega

end Machine.Aapcs32
