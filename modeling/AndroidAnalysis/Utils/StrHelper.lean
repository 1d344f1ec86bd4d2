import AndroidAnalysis.Cpp.String
import AndroidAnalysis.Words.Substitution

/-!
# `utils/str_helper.cpp`

`string_split` and `replace_all`.  Both are loops, so both have a counter here,
and run out of it exactly when the loop does not end: `string_split` advances
by the length of a non-empty pattern, and `replace_all` is only ever asked to
rewrite one character, or two characters to one.  One caller has it rewrite a
character to a text with that character, which no counter ends
(`replaceAllLoop_diverges`).

`replace_all` searches from the start after every replacement.  Where the new
text brings no occurrence back, the result is the substitution that reads the
string once: `replaceAll_char` and `replaceAll_pair`.
-/

namespace Utils

open Cpp Words

/-! ## `replace_all` -/

/-- The loop of `replace_all`. -/
def replaceAllLoop : Nat → Str → Str → Str → Except Fault Str
  | 0, _, _, _ => .error .diverges
  | n + 1, s, old, new =>
      match find s old with
      | some pos => replaceAllLoop n (replace s pos old.length new) old new
      | none => .ok s

/-- `replace_all`. -/
def replaceAll (s old new : Str) : Except Fault Str := replaceAllLoop (s.length + 1) s old new

/-- A rewriting that some measure counts down, and that a function of the
string does not see, ends in a string without the pattern and with the same
value. -/
theorem replaceAllLoop_ok {old new : Str} (measure : Str → Nat) (value : Str → Str)
    (hm : ∀ pre post, measure (pre ++ new ++ post) < measure (pre ++ old ++ post))
    (hv : ∀ pre post, value (pre ++ new ++ post) = value (pre ++ old ++ post))
    (hnone : ∀ s, ¬ old <:+: s → value s = s) (n : Nat) (s : Str) (hn : measure s < n) :
    replaceAllLoop n s old new = .ok (value s) := by
  induction n generalizing s with
  | zero => exact absurd hn (Nat.not_lt_zero _)
  | succ n ih =>
      rw [replaceAllLoop]
      cases hf : find s old with
      | none => exact congrArg Except.ok (hnone s (find_eq_none_iff.mp hf)).symm
      | some pos =>
          obtain ⟨pre, post, rfl, rfl⟩ := find_eq_some_append hf
          show replaceAllLoop n (replace _ _ _ _) old new = _
          rw [replace_append, ih _ (by have := hm pre post; omega), hv]

/-- The loop on one character and a text without it: one round for each
occurrence. -/
theorem replaceAllLoop_char {c : Char} {new : Str} (h : c ∉ new) {n : Nat} {s : Str}
    (hn : s.count c < n) : replaceAllLoop n s [c] new = .ok (substChar c new s) := by
  refine replaceAllLoop_ok (List.count c) (substChar c new) ?_ ?_ ?_ n s hn
  · intro pre post
    simp [List.count_append, List.count_eq_zero_of_not_mem h]
  · intro pre post
    rw [substChar_rewrite h, List.append_assoc pre, List.singleton_append]
  · intro t ht
    rw [List.singleton_infix_iff] at ht
    exact substChar_of_notMem ht new

/-- `replace_all` of one character by a text without it. -/
theorem replaceAll_char {c : Char} {new : Str} (h : c ∉ new) (s : Str) :
    replaceAll s [c] new = .ok (substChar c new s) :=
  replaceAllLoop_char h (Nat.lt_succ_of_le List.count_le_length)

/-- The loop on one character and a text with it: every round leaves an
occurrence, so that no counter is large enough. -/
theorem replaceAllLoop_diverges {c : Char} {new : Str} (hnew : c ∈ new) (n : Nat) {s : Str}
    (hs : c ∈ s) : replaceAllLoop n s [c] new = .error .diverges := by
  induction n generalizing s with
  | zero => rfl
  | succ n ih =>
      rw [replaceAllLoop]
      cases hf : find s [c] with
      | none => exact absurd ((List.singleton_infix_iff _ _).mpr hs) (find_eq_none_iff.mp hf)
      | some pos =>
          obtain ⟨pre, post, rfl, rfl⟩ := find_eq_some_append hf
          show replaceAllLoop n (replace _ _ _ _) [c] new = _
          rw [replace_append]
          exact ih (List.mem_append_left post (List.mem_append_right pre hnew))

/-- `replace_all` of two different characters by a third. -/
theorem replaceAll_pair {a b c : Char} (hab : a ≠ b) (hca : c ≠ a) (hcb : c ≠ b) (s : Str) :
    replaceAll s [a, b] [c] = .ok (substPair a b c s) := by
  refine replaceAllLoop_ok List.length (substPair a b c) ?_ ?_ ?_ _ s (Nat.lt_succ_self _)
  · intro pre post
    simp
  · intro pre post
    rw [List.append_assoc, List.singleton_append, substPair_rewrite hab hca hcb, List.append_assoc]
    rfl
  · intro t ht
    exact substPair_of_pairFree (pairFree_iff_no_pair.mpr ht)

/-! ## Whether `replace_all` returns -/

/-- `replace_all` returns `t`: its loop does, in some number of rounds. -/
def Replaces (s old new t : Str) : Prop := ∃ n, replaceAllLoop n s old new = .ok t

section
variable {s old new t t' : Str}

/-- A loop that has returned does the same with more rounds. -/
theorem replaceAllLoop_add {n : Nat} (h : replaceAllLoop n s old new = .ok t) (k : Nat) :
    replaceAllLoop (n + k) s old new = .ok t := by
  induction n generalizing s with
  | zero => exact nomatch h
  | succ n ih =>
      rw [replaceAllLoop] at h
      rw [Nat.add_right_comm, replaceAllLoop]
      cases hf : find s old with
      | none =>
          rw [hf] at h
          exact h
      | some pos =>
          rw [hf] at h
          exact ih h

/-- The result does not depend on the number of rounds. -/
theorem Replaces.unique (h : Replaces s old new t) (h' : Replaces s old new t') : t = t' := by
  obtain ⟨n, hn⟩ := h
  obtain ⟨m, hm⟩ := h'
  have hn := replaceAllLoop_add hn m
  have hm := replaceAllLoop_add hm n
  rw [Nat.add_comm m n, hn] at hm
  exact Except.ok.inj hm

/-- What `replace_all` computes with its counter is what it returns. -/
theorem replaces_of_replaceAll (h : replaceAll s old new = .ok t) : Replaces s old new t :=
  ⟨s.length + 1, h⟩

variable {c : Char}

/-- A character that does not occur is replaced by nothing at all. -/
theorem replaceAll_char_of_notMem (h : c ∉ s) (new : Str) : replaceAll s [c] new = .ok s := by
  rw [replaceAll, replaceAllLoop, find_char_of_notMem h]

/-- A text that brings the character back leaves no end to the loop. -/
theorem not_replaces_char (hs : c ∈ s) (hnew : c ∈ new) (t : Str) : ¬ Replaces s [c] new t := by
  rintro ⟨n, hn⟩
  rw [replaceAllLoop_diverges hnew n hs] at hn
  exact nomatch hn

/-- Otherwise the loop ends in the substitution. -/
theorem replaces_substChar (h : c ∉ s ∨ c ∉ new) : Replaces s [c] new (substChar c new s) := by
  cases h with
  | inl hs =>
      rw [substChar_of_notMem hs]
      exact replaces_of_replaceAll (replaceAll_char_of_notMem hs new)
  | inr hnew => exact replaces_of_replaceAll (replaceAll_char hnew s)

end

/-- `replace_all` of one character returns exactly where the character is absent
or the text that replaces it does not bring it back, and then every occurrence is
replaced and nothing else. -/
theorem replaces_char_iff (s : Str) (c : Char) (r : Str) :
    ((∃ t, Replaces s [c] r t) ↔ c ∉ s ∨ c ∉ r) ∧
      ∀ t, Replaces s [c] r t → t = substChar c r s := by
  have hreturns : (∃ t, Replaces s [c] r t) ↔ c ∉ s ∨ c ∉ r := by
    constructor
    · rintro ⟨t, ht⟩
      rw [← not_and_or]
      exact fun h => not_replaces_char h.1 h.2 t ht
    · exact fun h => ⟨substChar c r s, replaces_substChar h⟩
  exact ⟨hreturns, fun t ht => ht.unique (replaces_substChar (hreturns.mp ⟨t, ht⟩))⟩

/-! ## `string_split` -/

/-- The loop of `string_split`, at index `i`. -/
def stringSplitLoop : Nat → Nat → Str → Str → Except Fault (List Str)
  | 0, _, _, _ => .error .diverges
  | n + 1, i, str, pattern =>
      if i < str.length then
        match findFrom str pattern i with
        | none => .ok [str.drop i]
        | some pos => do
            let result ← stringSplitLoop n (pos + pattern.length) str pattern
            .ok ((str.drop i).take (pos - i) :: result)
      else .ok []

/-- `string_split`, with an index without an end. -/
def stringSplit (str pattern : Str) : Except Fault (List Str) :=
  stringSplitLoop (str.length + 1) 0 str pattern

/-- A part is no longer than the string. -/
theorem length_of_mem_stringSplitLoop {n i : Nat} {str pattern : Str} {parts : List Str}
    (h : stringSplitLoop n i str pattern = .ok parts) :
    ∀ part ∈ parts, part.length ≤ str.length := by
  induction n generalizing i parts with
  | zero => exact nomatch h
  | succ n ih =>
      have hdrop : (str.drop i).length ≤ str.length := (List.drop_sublist _ _).length_le
      rw [stringSplitLoop] at h
      split at h
      next =>
        cases hf : findFrom str pattern i with
        | none =>
            rw [hf] at h
            cases h
            exact fun part hpart => List.mem_singleton.mp hpart ▸ hdrop
        | some pos =>
            rw [hf] at h
            obtain ⟨result, hresult, h⟩ := bind_eq_ok.mp h
            cases h
            exact List.forall_mem_cons.mpr
              ⟨Nat.le_trans (List.take_sublist _ _).length_le hdrop, ih hresult⟩
      next =>
        cases h
        exact List.forall_mem_nil _

theorem length_of_mem_stringSplit {str pattern : Str} {parts : List Str}
    (h : stringSplit str pattern = .ok parts) : ∀ part ∈ parts, part.length ≤ str.length :=
  length_of_mem_stringSplitLoop h

/-- The loop reads the string from its index on. -/
theorem stringSplitLoop_drop (n i : Nat) (str pattern : Str) :
    stringSplitLoop n i str pattern = stringSplitLoop n 0 (str.drop i) pattern := by
  induction n generalizing i str with
  | zero => rfl
  | succ n ih =>
      rw [stringSplitLoop, stringSplitLoop]
      cases Nat.lt_or_ge i str.length with
      | inr hi => rw [if_neg (by omega), if_neg (by rw [List.length_drop]; omega)]
      | inl hi =>
          rw [if_pos hi, if_pos (by rw [List.length_drop]; omega), findFrom, findFrom,
            if_pos (Nat.le_of_lt hi), if_pos (Nat.zero_le _), List.drop_zero]
          cases find (str.drop i) pattern with
          | none => rfl
          | some k =>
              simp only [Option.map_some, Nat.add_zero, Nat.add_sub_cancel, Nat.sub_zero]
              rw [ih (k + i + pattern.length), ih (k + pattern.length) (str.drop i), List.drop_drop,
                Nat.add_comm k i, Nat.add_assoc]

/-- A counter that is large enough. -/
theorem stringSplitLoop_fuel {pattern : Str} (hp : pattern ≠ []) (n m : Nat) (str : Str)
    (hn : str.length < n) (hm : str.length < m) :
    stringSplitLoop n 0 str pattern = stringSplitLoop m 0 str pattern := by
  induction n generalizing m str with
  | zero => exact absurd hn (Nat.not_lt_zero _)
  | succ n ih =>
      cases m with
      | zero => exact absurd hm (Nat.not_lt_zero _)
      | succ m =>
          have hlen := List.length_pos_iff.mpr hp
          rw [stringSplitLoop, stringSplitLoop]
          split
          next hstr =>
            cases findFrom str pattern 0 with
            | none => rfl
            | some pos =>
                show Bind.bind _ _ = Bind.bind _ _
                rw [stringSplitLoop_drop n, stringSplitLoop_drop m]
                rw [ih m _ (by rw [List.length_drop]; omega) (by rw [List.length_drop]; omega)]
          next => rfl

/-- A string without the pattern is its one part. -/
theorem stringSplit_of_no_pattern {str pattern : Str} (hs : str ≠ []) (h : ¬ pattern <:+: str) :
    stringSplit str pattern = .ok [str] := by
  rw [stringSplit, stringSplitLoop, if_pos (List.length_pos_iff.mpr hs), findFrom,
    if_pos (Nat.zero_le _), List.drop_zero, find_eq_none_iff.mpr h]
  rfl

/-- The part before the first occurrence, then the parts of what follows it. -/
theorem stringSplit_append {pre pattern post : Str} (hp : pattern ≠ [])
    (h : find (pre ++ pattern ++ post) pattern = some pre.length) :
    stringSplit (pre ++ pattern ++ post) pattern =
      (pre :: ·) <$> stringSplit post pattern := by
  have hlen := List.length_pos_iff.mpr hp
  rw [stringSplit, stringSplitLoop, if_pos (by simp only [List.length_append]; omega), findFrom,
    if_pos (Nat.zero_le _), List.drop_zero, h]
  simp only [Option.map_some, Nat.add_zero, Nat.sub_zero]
  rw [stringSplitLoop_drop, ← List.length_append, List.drop_left, stringSplit,
    stringSplitLoop_fuel hp _ (post.length + 1) post (by simp only [List.length_append]; omega)
      (Nat.lt_succ_self _), List.append_assoc, List.take_left]
  cases stringSplitLoop (post.length + 1) 0 post pattern <;> rfl

/-- `string_split` returns. -/
theorem stringSplit_ok {pattern : Str} (hp : pattern ≠ []) (str : Str) :
    ∃ parts, stringSplit str pattern = .ok parts := by
  induction hn : str.length using Nat.strong_induction_on generalizing str with
  | _ n ih =>
      by_cases hstr : str = []
      · exact ⟨[], by rw [hstr]; rfl⟩
      · cases hf : find str pattern with
        | none => exact ⟨[str], stringSplit_of_no_pattern hstr (find_eq_none_iff.mp hf)⟩
        | some k =>
            obtain ⟨pre, post, rfl, rfl⟩ := find_eq_some_append hf
            have hlen := List.length_pos_iff.mpr hp
            rw [List.length_append, List.length_append] at hn
            obtain ⟨parts, hparts⟩ := ih post.length (by omega) post rfl
            exact ⟨pre :: parts, by rw [stringSplit_append hp hf, hparts]; rfl⟩

/-- Two equal letters are found behind a part that neither has them nor ends in
one of them. -/
theorem find_pair_append {a : Char} {pre : Str} (post : Str) (hpre : PairFree a a pre)
    (hlast : pre.getLast? ≠ some a) : find (pre ++ [a, a] ++ post) [a, a] = some pre.length := by
  refine find_append fun front c mid hcut hstart => ?_
  obtain ⟨rfl, hrest⟩ := List.cons_prefix_cons.mp hstart
  cases mid with
  | nil => exact hlast (by rw [hcut, List.getLast?_concat])
  | cons d mid =>
      obtain ⟨rfl, -⟩ := List.cons_prefix_cons.mp hrest
      exact pairFree_iff_no_pair.mp hpre ⟨front, mid, by rw [hcut]; simp⟩

/-- Fields without the separator, joined by it and the last of them not empty,
come apart again. -/
theorem stringSplit_intercalate {c : Char} (fields : List Str) (hc : ∀ f ∈ fields, c ∉ f)
    (hlast : fields.getLast? ≠ some []) :
    stringSplit ([c].intercalate fields) [c] = .ok fields := by
  induction fields with
  | nil => rfl
  | cons f fs ih =>
      have hf := hc f List.mem_cons_self
      cases fs with
      | nil =>
          rw [List.intercalate_singleton]
          exact stringSplit_of_no_pattern (by simpa using hlast)
            (fun h => hf ((List.singleton_infix_iff _ _).mp h))
      | cons g gs =>
          have hrest := ih (fun x hx => hc x (List.mem_cons_of_mem f hx)) (by simpa using hlast)
          rw [List.intercalate_cons_cons, stringSplit_append (List.cons_ne_nil c []), hrest]
          · rfl
          · rw [List.append_assoc, List.singleton_append, find_char_append _ hf]

end Utils
