import Mathlib.Data.List.Chain

/-!
# Substitution in words

Two substitutions that read a word once from the left: `substChar` puts a word
for every occurrence of a letter, and `substPair` puts a letter for every
occurrence of a pair of letters.  Rewriting a word until nothing can be
rewritten reaches the same word, whichever occurrence is rewritten first, as
`substChar_rewrite` and `substPair_rewrite` say of one step.

The hard point is what a cut does to a pair.  `substPair` distributes over an
append unless the cut goes through an occurrence, so `substPair_append` asks
for one of the two letters not to be at the cut.

`PairFree` is the absence of a pair, and `pairFree_flatMap` decides it for the
image of a word under a code.
-/

namespace Words

variable {α : Type*}

/-! ## Joined words -/

/-- A letter of neither the separator nor the fields. -/
theorem notMem_intercalate {c : α} {sep : List α} (hsep : c ∉ sep) (fields : List (List α))
    (h : ∀ f ∈ fields, c ∉ f) : c ∉ sep.intercalate fields := by
  induction fields with
  | nil => exact List.not_mem_nil
  | cons f fs ih =>
      have hf := h f List.mem_cons_self
      cases fs with
      | nil => rwa [List.intercalate_singleton]
      | cons g gs =>
          rw [List.intercalate_cons_cons, List.mem_append, List.mem_append, not_or, not_or]
          exact ⟨⟨hf, hsep⟩, ih fun x hx => h x (List.mem_cons_of_mem f hx)⟩

/-! ## Words without a pair -/

/-- No `a` is followed by a `b`. -/
def PairFree (a b : α) (s : List α) : Prop := s.IsChain fun x y => ¬ (x = a ∧ y = b)

section
variable {a b : α}

theorem pairFree_iff_no_pair {s : List α} : PairFree a b s ↔ ¬ [a, b] <:+: s := by
  rw [PairFree, List.isChain_iff_forall_rel_of_append_cons_cons]
  constructor
  · rintro h ⟨l₁, l₂, rfl⟩
    have hs : l₁ ++ [a, b] ++ l₂ = l₁ ++ a :: b :: l₂ := by simp
    exact h hs ⟨rfl, rfl⟩
  · rintro h x y l₁ l₂ rfl ⟨rfl, rfl⟩
    exact h ⟨l₁, l₂, by simp⟩

theorem pairFree_append {s t : List α} : PairFree a b (s ++ t) ↔
    PairFree a b s ∧ PairFree a b t ∧ ¬ (s.getLast? = some a ∧ t.head? = some b) := by
  rw [PairFree, List.isChain_append]
  refine and_congr_right fun _ => and_congr_right fun _ => ?_
  constructor
  · rintro h ⟨hs, ht⟩
    exact h a hs b ht ⟨rfl, rfl⟩
  · rintro h x hx y hy ⟨rfl, rfl⟩
    exact h ⟨hx, hy⟩

/-- The image of a word under a code has no pair when no code word has it and
no two code words of neighbours make it. -/
theorem pairFree_flatMap {β : Type*} {f : β → List α} {s : List β} (hne : ∀ x ∈ s, f x ≠ []) :
    PairFree a b (s.flatMap f) ↔ (∀ x ∈ s, PairFree a b (f x)) ∧
      s.IsChain fun x y => ¬ ((f x).getLast? = some a ∧ (f y).head? = some b) := by
  rw [PairFree, List.flatMap_def, List.isChain_flatten (by simpa using hne), List.isChain_map]
  refine and_congr (by simp [PairFree]) (List.IsChain.iff ?_)
  intro x y
  constructor
  · rintro h ⟨hs, ht⟩
    exact h a hs b ht ⟨rfl, rfl⟩
  · rintro h x hx y hy ⟨rfl, rfl⟩
    exact h ⟨hx, hy⟩

/-- A word without the first letter has no pair of it. -/
theorem pairFree_of_notMem {s : List α} (h : a ∉ s) : PairFree a b s :=
  pairFree_iff_no_pair.mpr fun hp => h (hp.subset List.mem_cons_self)

/-- Fields joined by `a` have a pair `a`, `b` where a field after the first starts
with `b`. -/
theorem pairFree_intercalate {fields : List (List α)} (hne : ∀ f ∈ fields, f ≠ [])
    (ha : ∀ f ∈ fields, a ∉ f) :
    PairFree a b ([a].intercalate fields) ↔ ∀ f ∈ fields.tail, f.head? ≠ some b := by
  induction fields with
  | nil => exact iff_of_true List.isChain_nil fun f hf => absurd hf List.not_mem_nil
  | cons f fields ih =>
      have hf : PairFree a b f := pairFree_of_notMem (ha f List.mem_cons_self)
      cases fields with
      | nil =>
          rw [List.intercalate_singleton]
          exact iff_of_true hf fun g hg => absurd hg List.not_mem_nil
      | cons g fields =>
          have hrest := ih (fun x hx => hne x (List.mem_cons_of_mem f hx))
            fun x hx => ha x (List.mem_cons_of_mem f hx)
          obtain ⟨x, g', rfl⟩ := List.exists_cons_of_ne_nil
            (hne g (List.mem_cons_of_mem f List.mem_cons_self))
          have hhead : ([a].intercalate ((x :: g') :: fields)).head? = some x := by
            cases fields with
            | nil => rfl
            | cons h fields => rfl
          have hlast : f.getLast? ≠ some a := fun hl =>
            ha f List.mem_cons_self (List.mem_of_getLast? hl)
          have hfa : PairFree a b (f ++ [a]) :=
            pairFree_append.mpr ⟨hf, List.isChain_singleton a, fun hl => hlast hl.1⟩
          rw [List.intercalate_cons_cons, pairFree_append, hrest, hhead, List.getLast?_concat,
            List.tail_cons, List.tail_cons, List.forall_mem_cons]
          constructor
          · rintro ⟨-, hfields, hx⟩
            exact ⟨fun hh => hx ⟨rfl, hh⟩, hfields⟩
          · rintro ⟨hx, hfields⟩
            exact ⟨hfa, hfields, fun hh => hx hh.2⟩

end

section
variable [DecidableEq α]

/-! ## A letter -/

/-- `s` with `r` for every `c`. -/
def substChar (c : α) (r s : List α) : List α := s.flatMap fun x => if x = c then r else [x]

@[simp] theorem substChar_append (c : α) (r s t : List α) :
    substChar c r (s ++ t) = substChar c r s ++ substChar c r t :=
  List.flatMap_append

@[simp] theorem substChar_cons_self (c : α) (r s : List α) :
    substChar c r (c :: s) = r ++ substChar c r s := by
  rw [substChar, List.flatMap_cons, if_pos rfl, ← substChar]

theorem substChar_cons_of_ne {c x : α} (h : x ≠ c) (r s : List α) :
    substChar c r (x :: s) = x :: substChar c r s := by
  rw [substChar, List.flatMap_cons, if_neg h, ← substChar, List.singleton_append]

/-- A word without the letter stays. -/
theorem substChar_of_notMem {c : α} {s : List α} (h : c ∉ s) (r : List α) :
    substChar c r s = s := by
  induction s with
  | nil => rfl
  | cons x s ih =>
      rw [List.mem_cons, not_or] at h
      rw [substChar_cons_of_ne (Ne.symm h.1), ih h.2]

/-- One occurrence rewritten makes no difference to the result. -/
theorem substChar_rewrite {c : α} {r : List α} (h : c ∉ r) (pre post : List α) :
    substChar c r (pre ++ r ++ post) = substChar c r (pre ++ c :: post) := by
  rw [substChar_append, substChar_append, substChar_append, substChar_cons_self,
    substChar_of_notMem h, List.append_assoc]

/-- A letter for a letter leaves the length. -/
theorem length_substChar (c d : α) (s : List α) : (substChar c [d] s).length = s.length := by
  induction s with
  | nil => rfl
  | cons x s ih =>
      rw [substChar, List.flatMap_cons, List.length_append, List.length_cons, ← ih]
      split
      next => exact Nat.add_comm _ _
      next => exact Nat.add_comm _ _

theorem length_substChar_nil_le (c : α) (s : List α) :
    (substChar c [] s).length ≤ s.length := by
  induction s with
  | nil => exact Nat.le_refl 0
  | cons x s ih =>
      rw [substChar, List.flatMap_cons, List.length_append, List.length_cons]
      rw [substChar] at ih
      split
      next => rw [List.length_nil]; omega
      next => rw [List.length_singleton]; omega

/-! ## A pair of letters -/

/-- `s` with `c` for every `a` that a `b` follows, from the left. -/
def substPair (a b c : α) : List α → List α
  | [] => []
  | [x] => [x]
  | x :: y :: s =>
      if x = a ∧ y = b then c :: substPair a b c s else x :: substPair a b c (y :: s)

variable {a b c : α}

@[simp] theorem substPair_pair (s : List α) :
    substPair a b c (a :: b :: s) = c :: substPair a b c s := by
  rw [substPair, if_pos ⟨rfl, rfl⟩]

theorem substPair_cons_of_ne {x : α} (h : x ≠ a) (s : List α) :
    substPair a b c (x :: s) = x :: substPair a b c s := by
  cases s with
  | nil => rfl
  | cons y s => rw [substPair, if_neg (fun hxy => h hxy.1)]

theorem substPair_cons_of_head {s : List α} (h : s.head? ≠ some b) (x : α) :
    substPair a b c (x :: s) = x :: substPair a b c s := by
  cases s with
  | nil => rfl
  | cons y s =>
      rw [substPair, if_neg]
      rintro ⟨-, rfl⟩
      exact h rfl

/-- A cut that does not go through an occurrence. -/
theorem substPair_append {s t : List α} (h : s.getLast? ≠ some a ∨ t.head? ≠ some b) :
    substPair a b c (s ++ t) = substPair a b c s ++ substPair a b c t := by
  induction s using substPair.induct a b with
  | case1 => rfl
  | case2 x =>
      rw [List.singleton_append]
      cases h with
      | inl h => rw [substPair_cons_of_ne (by simpa using h)]; rfl
      | inr h => rw [substPair_cons_of_head h]; rfl
  | case3 x y s hxy ih =>
      obtain ⟨rfl, rfl⟩ := hxy
      rw [List.cons_append, List.cons_append, substPair_pair, substPair_pair, List.cons_append]
      cases s with
      | nil => rfl
      | cons z s => rw [ih (by simpa using h)]
  | case4 x y s hxy ih =>
      rw [List.cons_append, List.cons_append, substPair, if_neg hxy, substPair, if_neg hxy,
        List.cons_append, ← List.cons_append, ih (by simpa using h)]

/-- A word without the pair stays. -/
theorem substPair_of_pairFree {s : List α} (h : PairFree a b s) : substPair a b c s = s := by
  induction s using substPair.induct a b with
  | case1 => rfl
  | case2 x => rfl
  | case3 x y s hxy ih => exact absurd hxy (List.isChain_cons_cons.mp h).1
  | case4 x y s hxy ih => rw [substPair, if_neg hxy, ih (List.isChain_cons_cons.mp h).2]

/-- One occurrence rewritten makes no difference to the result. -/
theorem substPair_rewrite (hab : a ≠ b) (hca : c ≠ a) (hcb : c ≠ b) (pre post : List α) :
    substPair a b c (pre ++ c :: post) = substPair a b c (pre ++ a :: b :: post) := by
  rw [substPair_append (.inr (by simpa using hcb)), substPair_append (.inr (by simpa using hab)),
    substPair_cons_of_ne hca, substPair_pair]

/-! ## A letter escaped by a pair -/

theorem head?_substChar (hab : a ≠ b) {s : List α} (h : s.head? ≠ some b) :
    (substChar c [a, b] s).head? ≠ some b := by
  cases s with
  | nil => exact h
  | cons x s =>
      by_cases hx : x = c
      · subst hx
        rw [substChar_cons_self]
        simpa using hab
      · rw [substChar_cons_of_ne hx]
        exact h

/-- Where a letter is escaped with `a` and the word has no other `a`, no pair of `a`
and another letter comes up. -/
theorem pairFree_substChar {d : α} (hda : d ≠ a) (hdb : d ≠ b) {s : List α} (ha : a ∉ s) :
    PairFree a b (substChar c [a, d] s) := by
  induction s with
  | nil => exact List.isChain_nil
  | cons x s ih =>
      rw [List.mem_cons, not_or] at ha
      by_cases hx : x = c
      · rw [hx, substChar_cons_self]
        refine List.isChain_cons_cons.mpr ⟨fun h => hdb h.2, ?_⟩
        exact List.isChain_cons.mpr ⟨fun _ _ h => hda h.1, ih ha.2⟩
      · rw [substChar_cons_of_ne hx]
        exact List.isChain_cons.mpr ⟨fun _ _ h => ha.1 h.1.symm, ih ha.2⟩

/-- The letters of a word with pairs substituted. -/
theorem mem_substPair {s : List α} {x : α} (h : x ∈ substPair a b c s) : x = c ∨ x ∈ s := by
  induction s using substPair.induct a b with
  | case1 => exact nomatch h
  | case2 y => exact .inr h
  | case3 y z s hyz ih =>
      obtain ⟨rfl, rfl⟩ := hyz
      rw [substPair_pair, List.mem_cons] at h
      obtain h | h := h
      · exact .inl h
      · exact (ih h).imp_right fun h => List.mem_cons_of_mem _ (List.mem_cons_of_mem _ h)
  | case4 y z s hyz ih =>
      rw [substPair, if_neg hyz, List.mem_cons] at h
      obtain h | h := h
      · exact .inr (h ▸ List.mem_cons_self)
      · exact (ih h).imp_right (List.mem_cons_of_mem y)

/-- A letter for a pair makes a word no longer. -/
theorem length_substPair_le (s : List α) : (substPair a b c s).length ≤ s.length := by
  induction s using substPair.induct a b with
  | case1 => exact Nat.le_refl 0
  | case2 y => exact Nat.le_refl 1
  | case3 y z s hyz ih =>
      rw [substPair, if_pos hyz, List.length_cons, List.length_cons, List.length_cons]
      omega
  | case4 y z s hyz ih =>
      rw [substPair, if_neg hyz, List.length_cons, List.length_cons]
      omega

/-- A letter that no pair has and none is read as is counted the same. -/
theorem count_substPair {x : α} (ha : x ≠ a) (hb : x ≠ b) (hc : x ≠ c) (s : List α) :
    (substPair a b c s).count x = s.count x := by
  induction s using substPair.induct a b with
  | case1 => rfl
  | case2 y => rfl
  | case3 y z s hyz ih =>
      obtain ⟨rfl, rfl⟩ := hyz
      rw [substPair_pair, List.count_cons_of_ne (Ne.symm hc), ih,
        List.count_cons_of_ne (Ne.symm ha), List.count_cons_of_ne (Ne.symm hb)]
  | case4 y z s hyz ih => rw [substPair, if_neg hyz, List.count_cons, ih, ← List.count_cons]

/-- A letter written as a pair is read back from a word that does not have the
pair itself. -/
theorem substPair_substChar (hab : a ≠ b) {s : List α} (h : PairFree a b s) :
    substPair a b c (substChar c [a, b] s) = s := by
  induction s with
  | nil => rfl
  | cons x s ih =>
      obtain ⟨hx, hs⟩ := List.isChain_cons.mp h
      by_cases hxc : x = c
      · subst hxc
        rw [substChar_cons_self, List.cons_append, List.cons_append, substPair_pair,
          List.nil_append, ih hs]
      · rw [substChar_cons_of_ne hxc]
        by_cases hxa : x = a
        · have hhead : s.head? ≠ some b := fun hh => hx b hh ⟨hxa, rfl⟩
          rw [substPair_cons_of_head (head?_substChar hab hhead), ih hs]
        · rw [substPair_cons_of_ne hxa, ih hs]

end

end Words
