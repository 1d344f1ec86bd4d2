import Mathlib.Data.List.Infix
import Mathlib.InformationTheory.Coding.UniquelyDecodable

/-!
# Prefix codes

A set of words, none of them empty, of which no word starts another.  A word over
such a code can be cut into code words from the left without looking ahead, so it
is a concatenation of code words in one way only.
-/

namespace Words

open InformationTheory

variable {α : Type*}

/-- A set of words without the empty one, of which no word starts another. -/
structure PrefixCode (S : Set (List α)) : Prop where
  ne_nil : ∀ w ∈ S, w ≠ []
  eq_of_prefix : ∀ v ∈ S, ∀ w ∈ S, v <+: w → v = w

variable {S : Set (List α)}

/-- The code word at the start of a word is the only one. -/
theorem PrefixCode.append_inj (h : PrefixCode S) {v w s t : List α} (hv : v ∈ S) (hw : w ∈ S)
    (heq : v ++ s = w ++ t) : v = w ∧ s = t := by
  have hvw : v = w := by
    obtain hp | hp := List.prefix_or_prefix_of_prefix (List.prefix_append v s)
      (heq ▸ List.prefix_append w t)
    · exact h.eq_of_prefix v hv w hw hp
    · exact (h.eq_of_prefix w hw v hv hp).symm
  subst hvw
  exact ⟨rfl, List.append_cancel_left heq⟩

/-- A prefix code can be decoded in one way only. -/
theorem PrefixCode.uniquelyDecodable (h : PrefixCode S) : UniquelyDecodable S := by
  intro vs
  induction vs with
  | nil =>
      intro ws _ hws heq
      cases ws with
      | nil => rfl
      | cons w ws =>
          rw [List.flatten_nil, List.flatten_cons] at heq
          have hw := hws w List.mem_cons_self
          exact absurd (List.append_eq_nil_iff.mp heq.symm).1 (h.ne_nil w hw)
  | cons v vs ih =>
      intro ws hvs hws heq
      have hv := hvs v List.mem_cons_self
      cases ws with
      | nil =>
          rw [List.flatten_nil, List.flatten_cons] at heq
          exact absurd (List.append_eq_nil_iff.mp heq).1 (h.ne_nil v hv)
      | cons w ws =>
          rw [List.flatten_cons, List.flatten_cons] at heq
          obtain ⟨rfl, hrest⟩ := h.append_inj hv (hws w List.mem_cons_self) heq
          rw [ih ws (fun x hx => hvs x (List.mem_cons_of_mem v hx))
            (fun x hx => hws x (List.mem_cons_of_mem v hx)) hrest]

end Words
