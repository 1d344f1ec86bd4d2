import AndroidAnalysis.Utils.StringSplit

/-!
# Splitting at two letters

With a pattern of two letters the index of `string_split` only grows, so the loop ends.
The one step that may leave the range of an `int` is the one behind an occurrence that
ends at `2^31`, and the loop gets there only where the size is `2^31 - 1`
(`stringSplitInt_ok_iff`).
-/

namespace Utils

open Cpp Words

section
variable {str : Str} {a b : Char} {size : Int} {n i : Nat}

/-! ## The rounds -/

/-- A round behind the size. -/
theorem stringSplitIntLoop_end {pattern : Str} {i : Int} (hi : size ≤ i) :
    stringSplitIntLoop str pattern size (n + 1) i = .ok [] := by
  rw [stringSplitIntLoop, if_neg (by omega)]

/-- Where what is found is behind the size, the index goes on to the size and nothing
is pushed. -/
theorem stringSplitIntLoop_past {pattern : Str} {pos : Nat} (hsize : IsInt size)
    (hf : findFrom str pattern i = some pos) (hpos : size ≤ pos) (hn : size - i < n)
    (hn0 : 0 < n) : stringSplitIntLoop str pattern size n i = .ok [] := by
  induction n generalizing i with
  | zero => exact absurd hn0 (Nat.lt_irrefl 0)
  | succ n ih =>
      by_cases hi : (i : Int) < size
      · rw [IsInt] at hsize
        rw [stringSplitIntLoop, if_pos hi, findFromInt, if_neg (by omega), Int.toNat_natCast, hf]
        dsimp only
        rw [if_neg (by omega), intResult_of_isInt (by rw [IsInt]; omega), ok_bind]
        exact ih (i := i + 1) (findFrom_succ hf (by omega)) (by omega) (by omega)
      · exact stringSplitIntLoop_end (by omega)

/-- A round that finds the two letters before the size. -/
theorem stringSplitIntLoop_pair {pos : Nat} (hsize : IsInt size)
    (hf : findFrom str [a, b] i = some pos) (hpos : (pos : Int) < size) (n : Nat) :
    stringSplitIntLoop str [a, b] size (n + 1) i =
      intResult (pos + 2) >>= fun next =>
        stringSplitIntLoop str [a, b] size n next >>= fun parts =>
          .ok ((str.drop i).take (pos - i) :: parts) := by
  obtain ⟨pre, rfl, hend, -, hdrop⟩ := drop_of_findFrom (List.cons_ne_nil _ _) hf
  rw [IsInt] at hsize
  have hpart : (str.drop i).take (i + pre.length - i) = pre := by
    rw [Nat.add_sub_cancel_left, hdrop, List.append_assoc, List.take_left]
  have hnext :
      asInt (i + pre.length + [a, b].length - 1) + 1 = ((i + pre.length : Nat) : Int) + 2 := by
    rw [List.length_cons, List.length_singleton, asInt_of_isInt (by rw [IsInt]; omega)]
    omega
  rw [stringSplitIntLoop_some (by omega) (by omega) hf hdrop (by omega), hnext, hpart]

/-- A part that the loop pushes first is the rest of the string, or ends at the next
occurrence. -/
theorem stringSplitIntLoop_cons (hsize : IsInt size) (hlen : size ≤ str.length) {part : Str}
    {parts : List Str} (h : stringSplitIntLoop str [a, b] size n i = .ok (part :: parts)) :
    (i : Int) < size ∧
      ((findFrom str [a, b] i = none ∧ part = str.drop i ∧ parts = []) ∨
        ∃ pos : Nat, findFrom str [a, b] i = some pos ∧ (pos : Int) < size ∧
          part = (str.drop i).take (pos - i)) := by
  cases n with
  | zero => exact nomatch h
  | succ n =>
      by_cases hi : (i : Int) < size
      · refine ⟨hi, ?_⟩
        cases hf : findFrom str [a, b] i with
        | none =>
            rw [stringSplitIntLoop_none hi (by omega) hf] at h
            cases h
            exact .inl ⟨rfl, rfl, rfl⟩
        | some pos =>
            by_cases hpos : (pos : Int) < size
            · rw [stringSplitIntLoop_pair hsize hf hpos] at h
              obtain ⟨next, -, h⟩ := bind_eq_ok.mp h
              obtain ⟨rest, -, h⟩ := bind_eq_ok.mp h
              cases h
              exact .inr ⟨pos, rfl, hpos, rfl⟩
            · exact nomatch stringSplitIntLoop_behind (by omega) hf h
      · rw [stringSplitIntLoop_end (by omega)] at h
        exact nomatch h

/-- The loop that pushes nothing is at the size, or what it finds is behind that. -/
theorem stringSplitIntLoop_nil (hsize : IsInt size) (hlen : size ≤ str.length)
    (h : stringSplitIntLoop str [a, b] size n i = .ok []) :
    size ≤ i ∨ ∃ pos : Nat, findFrom str [a, b] i = some pos ∧ size ≤ pos := by
  cases n with
  | zero => exact nomatch h
  | succ n =>
      by_cases hi : (i : Int) < size
      · cases hf : findFrom str [a, b] i with
        | none =>
            rw [stringSplitIntLoop_none hi (by omega) hf] at h
            exact nomatch h
        | some pos =>
            by_cases hpos : (pos : Int) < size
            · rw [stringSplitIntLoop_pair hsize hf hpos] at h
              obtain ⟨next, -, h⟩ := bind_eq_ok.mp h
              obtain ⟨rest, -, h⟩ := bind_eq_ok.mp h
              exact nomatch h
            · exact .inr ⟨pos, rfl, by omega⟩
      · exact .inl (by omega)

/-- The first part of a string that does not start like the pattern starts like the
string. -/
theorem stringSplitIntLoop_head? (hsize : IsInt size) (hlen : size ≤ str.length) {part : Str}
    {parts : List Str} (hhead : (str.drop i).head? ≠ some a)
    (h : stringSplitIntLoop str [a, b] size n i = .ok (part :: parts)) :
    part.head? = (str.drop i).head? := by
  obtain ⟨-, ⟨-, rfl, -⟩ | ⟨pos, hf, -, rfl⟩⟩ := stringSplitIntLoop_cons hsize hlen h
  · rfl
  · obtain ⟨pre, rfl, -, -, hdrop⟩ := drop_of_findFrom (List.cons_ne_nil _ _) hf
    rw [hdrop] at hhead ⊢
    cases pre with
    | nil => exact absurd rfl hhead
    | cons c pre => rw [Nat.add_sub_cancel_left, List.append_assoc, List.take_left]; rfl

/-! ## Where the loop returns -/

/-- An occurrence from an index on is the first one, or comes behind it. -/
theorem mem_occurrences_cases {pos : Nat} (hf : findFrom str [a, b] i = some pos) {post : Str}
    (hpost : post ∈ occurrences [a, b] (str.drop i)) :
    post = str.drop (pos + 2) ∨ post ∈ occurrences [a, b] (str.drop (pos + 2)) := by
  rw [(occurrences_of_findFrom (List.cons_ne_nil _ _) hf).1] at hpost
  exact List.mem_cons.mp hpost

theorem length_of_mem_occurrences {pos : Nat} (hf : findFrom str [a, b] i = some pos) {post : Str}
    (hpost : post ∈ occurrences [a, b] (str.drop i)) : pos + 2 + post.length ≤ str.length := by
  obtain ⟨pre, rfl, hend, -⟩ := drop_of_findFrom (List.cons_ne_nil _ _) hf
  rw [List.length_cons, List.length_singleton] at hend
  have hle : post.length ≤ (str.drop (i + pre.length + 2)).length := by
    obtain rfl | hpost := mem_occurrences_cases hf hpost
    · exact Nat.le_refl _
    · exact length_le_of_mem_occurrencesFrom hpost
  rw [List.length_drop] at hle
  omega

/-- An occurrence from an index on ends at `2^31`, and begins before the size. -/
def EndsOutOfRange (str : Str) (a b : Char) (size : Int) (i : Nat) : Prop :=
  size = 2147483647 ∧ ∃ post ∈ occurrences [a, b] (str.drop i),
    str.length = 2147483648 + post.length

/-- The loop returns exactly where no occurrence that it comes to ends at `2^31`. -/
theorem stringSplitIntLoop_ok_iff (hsize : IsInt size) (hlen : size ≤ str.length)
    (hn : size - i < n) (hn0 : 0 < n) :
    (∃ parts, stringSplitIntLoop str [a, b] size n i = .ok parts) ↔
      ¬ EndsOutOfRange str a b size i := by
  induction n generalizing i with
  | zero => exact absurd hn0 (Nat.lt_irrefl 0)
  | succ n ih =>
      rw [IsInt] at hsize
      cases hf : findFrom str [a, b] i with
      | none =>
          have hnone : ¬ EndsOutOfRange str a b size i := by
            rintro ⟨-, post, hpost, -⟩
            by_cases hi : i ≤ str.length
            · rw [occurrences_of_absent (not_infix_of_findFrom hi hf)] at hpost
              exact absurd hpost List.not_mem_nil
            · rw [List.drop_eq_nil_of_le (by omega)] at hpost
              exact absurd hpost List.not_mem_nil
          refine iff_of_true ?_ hnone
          by_cases hi : (i : Int) < size
          · exact ⟨_, stringSplitIntLoop_none hi (by omega) hf n⟩
          · exact ⟨_, stringSplitIntLoop_end (by omega)⟩
      | some pos =>
          have hle : i ≤ pos := by
            obtain ⟨pre, hpre, -⟩ := drop_of_findFrom (List.cons_ne_nil _ _) hf
            omega
          by_cases hpos : (pos : Int) < size
          · rw [stringSplitIntLoop_pair hsize hf hpos n]
            by_cases hnext : IsInt (pos + 2)
            · rw [IsInt] at hnext
              have hrest := ih (i := pos + 2) (by omega) (by omega)
              rw [intResult_of_isInt (by rw [IsInt]; omega), ok_bind,
                show ((pos : Int) + 2) = (pos + 2 : Nat) from rfl]
              have hout :
                  EndsOutOfRange str a b size i ↔ EndsOutOfRange str a b size (pos + 2) := by
                refine and_congr_right fun _ => ⟨?_, ?_⟩
                · rintro ⟨post, hpost, hend⟩
                  obtain rfl | hpost := mem_occurrences_cases hf hpost
                  · rw [List.length_drop] at hend
                    omega
                  · exact ⟨post, hpost, hend⟩
                · rintro ⟨post, hpost, hend⟩
                  refine ⟨post, ?_, hend⟩
                  rw [(occurrences_of_findFrom (List.cons_ne_nil _ _) hf).1]
                  exact List.mem_cons_of_mem _ hpost
              rw [hout, ← hrest]
              constructor
              · rintro ⟨parts, hparts⟩
                obtain ⟨rest, hrest, -⟩ := bind_eq_ok.mp hparts
                exact ⟨rest, hrest⟩
              · rintro ⟨rest, hrest⟩
                exact ⟨_, by rw [hrest, ok_bind]⟩
            · rw [intResult_of_not_isInt hnext]
              rw [IsInt] at hnext
              refine iff_of_false ?_ (not_not_intro ⟨by omega, str.drop (pos + 2), ?_, ?_⟩)
              · rintro ⟨parts, hparts⟩
                cases hparts
              · rw [(occurrences_of_findFrom (List.cons_ne_nil _ _) hf).1]
                exact List.mem_cons_self
              · obtain ⟨pre, -, hend, -⟩ := drop_of_findFrom (List.cons_ne_nil _ _) hf
                rw [List.length_cons, List.length_singleton] at hend
                rw [List.length_drop]
                omega
          · refine iff_of_true ⟨_, stringSplitIntLoop_past hsize hf (by omega) hn hn0⟩ ?_
            rintro ⟨hsize', post, hpost, hend⟩
            have := length_of_mem_occurrences hf hpost
            omega

end

/-! ## The whole string -/

section
variable {str : Str} {a b : Char}

theorem stringSplitInt_ok_iff : (∃ parts, stringSplitInt str [a, b] = .ok parts) ↔
    ¬ EndsOutOfRange str a b (asInt str.length) 0 := by
  obtain ⟨q, hq⟩ := asInt_eq_sub (Int.natCast_nonneg str.length)
  exact stringSplitIntLoop_ok_iff (isInt_asInt _) (by omega) (by omega) (Nat.succ_pos _)

/-- A size that is not positive gives no parts. -/
theorem stringSplitInt_nonpos {pattern : Str} (hsize : asInt str.length ≤ 0) :
    stringSplitInt str pattern = .ok [] :=
  stringSplitIntLoop_end hsize

/-- A string without the pattern is its only part. -/
theorem stringSplitInt_of_no_pattern {pattern : Str} (hsize : 0 < asInt str.length)
    (h : ¬ pattern <:+: str) : stringSplitInt str pattern = .ok [str] := by
  refine stringSplitIntLoop_none (i := 0) hsize (Nat.zero_le _) ?_ _
  rw [findFrom, if_pos (Nat.zero_le _), List.drop_zero, find_eq_none_iff.mpr h]
  rfl

theorem findFrom_zero {pattern : Str} : findFrom str pattern 0 = find str pattern := by
  rw [findFrom, if_pos (Nat.zero_le _), List.drop_zero]
  exact Option.map_id'

/-- Where the first occurrence is before the size, what is in front of it is the first
part, and the loop goes on behind it. -/
theorem stringSplitInt_pair {k : Nat} (hf : find str [a, b] = some k)
    (hk : (k : Int) < asInt str.length) : stringSplitInt str [a, b] =
      intResult (k + 2) >>= fun next =>
        stringSplitIntLoop str [a, b] (asInt str.length) str.length next >>= fun parts =>
          .ok (str.take k :: parts) :=
  stringSplitIntLoop_pair (i := 0) (isInt_asInt _) (findFrom_zero.trans hf) hk _

/-- Elsewhere there are no parts. -/
theorem stringSplitInt_past {k : Nat} (hf : find str [a, b] = some k)
    (hk : asInt str.length ≤ k) : stringSplitInt str [a, b] = .ok [] := by
  obtain ⟨q, hq⟩ := asInt_eq_sub (Int.natCast_nonneg str.length)
  exact stringSplitIntLoop_past (i := 0) (isInt_asInt _) (findFrom_zero.trans hf) hk (by omega)
    (Nat.succ_pos _)

/-- The parts of a string with the two letters. -/
theorem stringSplitInt_cons {k : Nat} (hf : find str [a, b] = some k) {front : Str}
    {rest : List Str} (h : stringSplitInt str [a, b] = .ok (front :: rest)) :
    (k : Int) < asInt str.length ∧ k + 2 < 2147483648 ∧ front = str.take k ∧
      stringSplitIntLoop str [a, b] (asInt str.length) str.length (k + 2 : Nat) = .ok rest := by
  by_cases hk : (k : Int) < asInt str.length
  · rw [stringSplitInt_pair hf hk] at h
    obtain ⟨next, hnext, h⟩ := bind_eq_ok.mp h
    obtain ⟨hint, rfl⟩ := intResult_eq_ok.mp hnext
    obtain ⟨parts, hparts, h⟩ := bind_eq_ok.mp h
    cases h
    rw [IsInt] at hint
    exact ⟨hk, by omega, rfl, hparts⟩
  · rw [stringSplitInt_past hf (by omega)] at h
    cases h

end

end Utils
