import AndroidAnalysis.Cpp.Int
import AndroidAnalysis.Utils.StrHelper
import AndroidAnalysis.Words.Occurrences

/-!
# What `string_split` loses

`string_split` keeps the size of the string and its index in an `int`.  This is
the loop with the conversions the source makes, and `stringSplitLoop` is what it
computes for strings shorter than `2^31` (`stringSplitIntLoop_eq`).

The loop pushes what follows the last occurrence only where the index is still
less than the size.  Behind an occurrence that ends the string it is not, and an
empty last part is lost, while empty parts everywhere else are kept.  So nothing
is lost exactly where the last occurrence ends before the size
(`stringSplit_lossless_iff`).

A run that goes wrong may go wrong in many ways once a conversion has changed an
index.  The measure that carries the argument is the length of the joined parts:
each round adds the letters its index moves over, up to multiples of `2^32`
(`JoinsTo`).
-/

namespace Utils

open Cpp Words

/-! ## The loop with its conversions -/

/-- `s.find(pat, pos)` with an `int` position, which is converted to `size_t`: a
negative one is past every end. -/
def findFromInt (s pat : Str) (pos : Int) : Option Nat :=
  if pos < 0 then none else findFrom s pat pos.toNat

/-- The loop of `string_split`, at index `i`.  A `size` that is negative is more than
every position as a `size_t`. -/
def stringSplitIntLoop (str pattern : Str) (size : Int) : Nat → Int → Except Fault (List Str)
  | 0, _ => .error .diverges
  | n + 1, i =>
      if i < size then
        match findFromInt str pattern i with
        | none => do
            let s ← substrFrom str i
            .ok [s]
        | some pos =>
            if size < 0 ∨ pos < size then do
              let s ← substr str i (pos - i)
              let i ← intResult (asInt (pos + pattern.length - 1) + 1)
              let result ← stringSplitIntLoop str pattern size n i
              .ok (s :: result)
            else do
              let i ← intResult (i + 1)
              stringSplitIntLoop str pattern size n i
      else .ok []

/-- `string_split`, with one round more than the string has letters.  A pattern of one or
two letters never moves the index back, and then no run needs more. -/
def stringSplitInt (str pattern : Str) : Except Fault (List Str) :=
  stringSplitIntLoop str pattern (asInt str.length) (str.length + 1) 0

/-- `string_split` returns `parts`: its loop does, in some number of rounds. -/
def Splits (str pattern : Str) (parts : List Str) : Prop :=
  ∃ n, stringSplitIntLoop str pattern (asInt str.length) n 0 = .ok parts

/-- The parts are one more than the occurrences of the pattern, do not have it, and
give the string when they are joined by it.  The empty string has no parts. -/
def Lossless (str pattern : Str) (parts : List Str) : Prop :=
  parts.length = (if str = [] then 0 else (occurrences pattern str).length + 1) ∧
    (∀ part ∈ parts, ¬ pattern <:+: part) ∧ pattern.intercalate parts = str

/-! ## Searching from an index -/

section
variable {str pattern : Str}

/-- Nothing begins in front of what a search finds. -/
theorem not_prefix_of_find {k : Nat} (h : find str pattern = some k) :
    ∀ j < k, ¬ pattern <+: str.drop j := by
  rintro j hj ⟨t, ht⟩
  refine not_infix_of_find h (List.take_prefix (j + pattern.length) str) ?_ ?_
  · rw [List.length_take]
    omega
  · rw [List.take_add, ← ht, List.take_left]
    exact (List.suffix_append _ _).isInfix

/-- A search from an index splits what follows the index. -/
theorem findFrom_eq_some {i pos : Nat} (h : findFrom str pattern i = some pos) :
    ∃ pre post, str.drop i = pre ++ pattern ++ post ∧ pos = i + pre.length ∧
      find (str.drop i) pattern = some pre.length := by
  rw [findFrom] at h
  split at h
  next hi =>
    obtain ⟨k, hk, rfl⟩ := Option.map_eq_some_iff.mp h
    obtain ⟨pre, post, hs, rfl⟩ := find_eq_some_append hk
    exact ⟨pre, post, hs, Nat.add_comm _ _, hk⟩
  next => cases h

/-- A search that begins later, but not behind what is found, finds the same. -/
theorem findFrom_succ {i pos : Nat} (h : findFrom str pattern i = some pos) (hi : i < pos) :
    findFrom str pattern (i + 1) = some pos := by
  obtain ⟨pre, post, hs, rfl, hfind⟩ := findFrom_eq_some h
  cases pre with
  | nil => exact absurd hi (Nat.lt_irrefl i)
  | cons c pre =>
      have hdrop : str.drop (i + 1) = pre ++ pattern ++ post := by
        rw [← List.drop_drop, hs]
        rfl
      have hlen := congrArg List.length hs
      rw [List.length_drop] at hlen
      rw [hs, List.cons_append, List.cons_append, find] at hfind
      split at hfind
      next => exact absurd (Option.some.inj hfind) (Nat.succ_ne_zero _).symm
      next =>
        obtain ⟨k, hk, hk'⟩ := Option.map_eq_some_iff.mp hfind
        rw [findFrom, if_pos (by simp at hlen; omega), hdrop, hk, Option.map_some,
          Option.some_inj]
        rw [List.length_cons] at hk' ⊢
        omega

/-- What follows an index, where a search from it fails. -/
theorem not_infix_of_findFrom {i : Nat} (hi : i ≤ str.length)
    (h : findFrom str pattern i = none) : ¬ pattern <:+: str.drop i := by
  rw [findFrom, if_pos hi, Option.map_eq_none_iff] at h
  exact find_eq_none_iff.mp h

/-- What follows two words that follow an index. -/
theorem drop_append_append {pre post : Str} {i : Nat} (h : str.drop i = pre ++ pattern ++ post) :
    str.drop (i + pre.length + pattern.length) = post := by
  rw [← List.drop_drop, ← List.drop_drop, h, List.append_assoc, List.drop_left, List.drop_left]

/-- What follows an index, where a search from it succeeds: a part without the
pattern, the pattern, and the rest. -/
theorem drop_of_findFrom (hp : pattern ≠ []) {i pos : Nat}
    (h : findFrom str pattern i = some pos) :
    ∃ pre, pos = i + pre.length ∧ pos + pattern.length ≤ str.length ∧ ¬ pattern <:+: pre ∧
      str.drop i = pre ++ pattern ++ str.drop (pos + pattern.length) := by
  obtain ⟨pre, post, hs, rfl, hfind⟩ := findFrom_eq_some h
  have hlen := congrArg List.length hs
  have hpattern := List.length_pos_iff.mpr hp
  rw [List.length_drop, List.length_append, List.length_append] at hlen
  refine ⟨pre, rfl, by omega, ?_, ?_⟩
  · refine not_infix_of_find hfind ⟨pattern ++ post, ?_⟩ (by omega)
    rw [hs, List.append_assoc]
  · rw [drop_append_append hs, hs]

/-- The occurrences that follow an index, where a search from it succeeds. -/
theorem occurrences_of_findFrom (hp : pattern ≠ []) {i pos : Nat}
    (h : findFrom str pattern i = some pos) :
    occurrences pattern (str.drop i) = str.drop (pos + pattern.length) ::
        occurrences pattern (str.drop (pos + pattern.length)) ∧
      behind pattern (str.drop i) = behind pattern (str.drop (pos + pattern.length)) := by
  obtain ⟨pre, post, hs, rfl, hfind⟩ := findFrom_eq_some h
  have hfirst := not_prefix_of_find hfind
  rw [hs] at hfirst
  rw [drop_append_append hs, hs]
  exact ⟨occurrences_append hp post hfirst, behind_append hp post hfirst⟩

end

/-! ## One round -/

section
variable {str pattern : Str} {size : Int}

/-- A round that finds no pattern returns the rest. -/
theorem stringSplitIntLoop_none {i : Nat} (hi : (i : Int) < size) (hlen : i ≤ str.length)
    (h : findFrom str pattern i = none) (n : Nat) :
    stringSplitIntLoop str pattern size (n + 1) i = .ok [str.drop i] := by
  rw [stringSplitIntLoop, if_pos hi, findFromInt, if_neg (by omega), Int.toNat_natCast, h]
  simp only [substrFrom, substr]
  rw [if_pos (by omega), if_pos (by omega), Int.toNat_natCast]
  rfl

/-- A round that finds the pattern before the size pushes what is in front of it. -/
theorem stringSplitIntLoop_some {i : Nat} (hi : (i : Int) < size) {pre post : Str}
    (hlen : i + pre.length ≤ str.length) (h : findFrom str pattern i = some (i + pre.length))
    (hdrop : str.drop i = pre ++ pattern ++ post) (hpos : (i + pre.length : Int) < size) (n : Nat) :
    stringSplitIntLoop str pattern size (n + 1) i = (do
      let next ← intResult (asInt (i + pre.length + pattern.length - 1) + 1)
      let result ← stringSplitIntLoop str pattern size n next
      .ok (pre :: result)) := by
  have hsubstr : substr str i ((i + pre.length : Nat) - i) = .ok pre := by
    refine substr_eq (str.take i) (pattern ++ post) ?_ ?_ (by omega)
    · rw [← List.append_assoc pre, ← hdrop, List.take_append_drop]
    · rw [List.length_take]
      omega
  rw [stringSplitIntLoop, if_pos hi, findFromInt, if_neg (by omega), Int.toNat_natCast, h]
  show (if size < 0 ∨ ((i + pre.length : Nat) : Int) < size then _ else _) = _
  rw [if_pos (.inr (by omega)), hsubstr, ok_bind]
  rfl

end

/-! ## Runs that lose nothing -/

section
variable {str pattern : Str}

/-- Where the last occurrence ends before the size, the loop returns the parts from
its index on, and they are all there is. -/
theorem stringSplitIntLoop_returns (hp : pattern ≠ []) {i : Nat}
    (hi : (i : Int) < asInt str.length)
    (hend : (str.length : Int) - (behind pattern (str.drop i)).length < asInt str.length) :
    ∃ n parts, stringSplitIntLoop str pattern (asInt str.length) n i = .ok parts ∧
      parts.length = (occurrences pattern (str.drop i)).length + 1 ∧
      (∀ part ∈ parts, ¬ pattern <:+: part) ∧ pattern.intercalate parts = str.drop i := by
  obtain ⟨q, hq⟩ := asInt_eq_sub (Int.natCast_nonneg str.length)
  have hsize := isInt_asInt str.length
  rw [IsInt] at hsize
  induction hn : str.length - i using Nat.strong_induction_on generalizing i with
  | _ n ih =>
      cases hf : findFrom str pattern i with
      | none =>
          have hno := not_infix_of_findFrom (by omega) hf
          refine ⟨1, [str.drop i], stringSplitIntLoop_none hi (by omega) hf 0, ?_, ?_,
            List.intercalate_singleton⟩
          · rw [occurrences_of_absent hno]
            rfl
          · simpa using hno
      | some pos =>
          obtain ⟨pre, rfl, hlen, hpre, hdrop⟩ := drop_of_findFrom hp hf
          obtain ⟨hoccs, hbehind⟩ := occurrences_of_findFrom hp hf
          have hpattern := List.length_pos_iff.mpr hp
          -- The rest begins before the size, as what follows the last occurrence is part of it.
          have hrest := length_behind_le pattern (str.drop (i + pre.length + pattern.length))
          rw [hbehind] at hend
          rw [List.length_drop] at hrest
          obtain ⟨n', parts, hparts, hcount, hfree, hjoin⟩ :=
            ih _ (by omega) (i := i + pre.length + pattern.length) (by omega) hend rfl
          have hnext : intResult (asInt (i + pre.length + pattern.length - 1) + 1) =
              .ok ((i + pre.length + pattern.length : Nat) : Int) := by
            rw [asInt_of_isInt (by rw [IsInt]; omega), intResult_eq_ok, IsInt]
            omega
          refine ⟨n' + 1, pre :: parts, ?_, ?_, ?_, ?_⟩
          · rw [stringSplitIntLoop_some hi (by omega) hf hdrop (by omega), hnext, ok_bind, hparts]
            rfl
          · rw [hoccs, List.length_cons, List.length_cons, hcount]
          · exact List.forall_mem_cons.mpr ⟨hpre, hfree⟩
          · have hne : parts ≠ [] := List.ne_nil_of_length_pos (by omega)
            rw [List.intercalate_cons_of_ne_nil hne, hjoin, ← hdrop]

end

/-! ## Runs that return -/

section
variable {str pattern : Str} {size : Int}

/-- Behind the size no part is pushed any more. -/
theorem stringSplitIntLoop_behind {pos : Nat} (hpos : size ≤ pos) {n i : Nat} {parts : List Str}
    (hf : findFrom str pattern i = some pos)
    (h : stringSplitIntLoop str pattern size n i = .ok parts) : parts = [] := by
  induction n generalizing i with
  | zero => exact nomatch h
  | succ n ih =>
      rw [stringSplitIntLoop] at h
      split at h
      next hi =>
        rw [findFromInt, if_neg (by omega), Int.toNat_natCast, hf] at h
        dsimp only at h
        rw [if_neg (by omega)] at h
        obtain ⟨next, hnext, h⟩ := bind_eq_ok.mp h
        obtain ⟨-, rfl⟩ := intResult_eq_ok.mp hnext
        exact ih (findFrom_succ hf (by omega)) h
      next => exact (Except.ok.inj h).symm

/-- A negative index, which no search finds anything from, throws. -/
theorem stringSplitIntLoop_neg {i : Int} (hneg : i < 0) (hi : i < size) (n : Nat) :
    stringSplitIntLoop str pattern size (n + 1) i = .error .outOfRange := by
  rw [stringSplitIntLoop, if_pos hi, findFromInt, if_pos hneg]
  simp only [substrFrom, substr]
  rw [if_neg (by omega)]
  rfl

/-- How long the joined parts of a run from an index are: as long as what the run moves
over, up to multiples of `2^32`.  It moves to the last pattern found, or to the end of
the string, and then the last occurrence ends before the size if no multiple was added. -/
def JoinsTo (str pattern : Str) (size i : Int) (parts : List Str) : Prop :=
  ∃ q : Nat,
    (∃ pos : Nat, pos < size ∧
      ((pattern.intercalate parts).length : Int) = pos - i + 4294967296 * q) ∨
    (((pattern.intercalate parts).length : Int) = str.length - i + 4294967296 * q ∧
      (q = 0 → (str.length : Int) - (behind pattern (str.drop i.toNat)).length < size))

/-- The rest of the string is the last part. -/
theorem joinsTo_rest {k : Nat} (hk : (k : Int) < size) (hlen : k ≤ str.length)
    (hno : ¬ pattern <:+: str.drop k) : JoinsTo str pattern size k [str.drop k] := by
  refine ⟨0, .inr ⟨?_, fun _ => ?_⟩⟩
  · rw [List.intercalate_singleton, List.length_drop]
    omega
  · rw [Int.toNat_natCast, behind_of_absent hno, List.length_drop]
    omega

/-- A part in front of the pattern is the last one. -/
theorem joinsTo_last (str pattern : Str) {k : Nat} {pre : Str}
    (hpos : ((k + pre.length : Nat) : Int) < size) : JoinsTo str pattern size k [pre] := by
  refine ⟨0, .inl ⟨k + pre.length, hpos, ?_⟩⟩
  rw [List.intercalate_singleton]
  omega

/-- A part in front of the pattern, and the parts of a run from behind it. -/
theorem JoinsTo.cons (hp : pattern ≠ []) {k : Nat} {pre : Str}
    (hf : findFrom str pattern k = some (k + pre.length)) {result : List Str}
    (hne : result ≠ [])
    (h : JoinsTo str pattern size (asInt (k + pre.length + pattern.length - 1) + 1) result) :
    JoinsTo str pattern size k (pre :: result) := by
  have hpattern := List.length_pos_iff.mpr hp
  obtain ⟨q, hq⟩ := asInt_eq_sub (x := k + pre.length + pattern.length - 1) (by omega)
  obtain ⟨q', hcases⟩ := h
  have hjoined : (pattern.intercalate (pre :: result)).length =
      pre.length + pattern.length + (pattern.intercalate result).length := by
    rw [List.intercalate_cons_of_ne_nil hne, List.length_append, List.length_append]
  refine ⟨q + q', ?_⟩
  rw [hjoined]
  rcases hcases with ⟨last, hlast, hjoin⟩ | ⟨hjoin, hend⟩
  · exact .inl ⟨last, hlast, by omega⟩
  · refine .inr ⟨by omega, fun hzero => ?_⟩
    have hq0 : q = 0 := by omega
    have hnat : (asInt (k + pre.length + pattern.length - 1) + 1).toNat =
        k + pre.length + pattern.length := by
      rw [hq, hq0]
      omega
    rw [Int.toNat_natCast, (occurrences_of_findFrom hp hf).2, ← hnat]
    exact hend (by omega)

/-- The parts of a run from an index, joined. -/
theorem joinsTo_of_stringSplitIntLoop (hp : pattern ≠ []) (hsize : size ≤ str.length) {n : Nat}
    {i : Int} {parts : List Str} (h : stringSplitIntLoop str pattern size n i = .ok parts)
    (hparts : parts ≠ []) : JoinsTo str pattern size i parts := by
  induction n generalizing i parts with
  | zero => exact nomatch h
  | succ n ih =>
      rcases Int.lt_or_le i size with hi | hi
      · rcases Int.lt_or_le i 0 with hneg | hnonneg
        · rw [stringSplitIntLoop_neg hneg hi] at h
          exact nomatch h
        · obtain ⟨k, rfl⟩ := Int.eq_ofNat_of_zero_le hnonneg
          cases hf : findFrom str pattern k with
          | none =>
              rw [stringSplitIntLoop_none hi (by omega) hf] at h
              cases h
              exact joinsTo_rest hi (by omega) (not_infix_of_findFrom (by omega) hf)
          | some pos =>
              rcases Int.lt_or_le pos size with hpos | hpos
              · obtain ⟨pre, rfl, hlen, -, hdrop⟩ := drop_of_findFrom hp hf
                rw [stringSplitIntLoop_some hi (by omega) hf hdrop (by omega)] at h
                simp only [bind_eq_ok, intResult_eq_ok, Except.ok.injEq] at h
                obtain ⟨next, ⟨-, rfl⟩, result, hresult, rfl⟩ := h
                rcases eq_or_ne result [] with rfl | hne
                · exact joinsTo_last str pattern hpos
                · exact (ih hresult hne).cons hp hf hne
              · exact absurd (stringSplitIntLoop_behind hpos hf h) hparts
      · rw [stringSplitIntLoop, if_neg (by omega)] at h
        exact absurd (Except.ok.inj h).symm hparts

end

/-! ## What is lost -/

section
variable {str pattern : Str}

/-- A run that loses nothing goes behind the last occurrence. -/
theorem last_occurrence_of_lossless (hp : pattern ≠ []) (hs : str ≠ []) {parts : List Str}
    (h : Splits str pattern parts) (hlossless : Lossless str pattern parts) :
    (str.length : Int) - (behind pattern str).length < asInt str.length := by
  obtain ⟨n, hn⟩ := h
  obtain ⟨hcount, -, hjoin⟩ := hlossless
  obtain ⟨r, hr⟩ := asInt_eq_sub (Int.natCast_nonneg str.length)
  have hsize := isInt_asInt str.length
  rw [IsInt] at hsize
  rw [if_neg hs] at hcount
  have hparts : parts ≠ [] := List.ne_nil_of_length_pos (by omega)
  obtain ⟨q, hcases⟩ := joinsTo_of_stringSplitIntLoop hp (by omega) hn hparts
  rw [hjoin] at hcases
  rcases hcases with ⟨pos, hpos, hlen⟩ | ⟨hlen, hend⟩
  · -- The position and the size are the same modulo `2^32` and both less than `2^31`.
    omega
  · exact hend (by omega)

/-- The empty string has no parts and loses nothing. -/
theorem splits_nil (pattern : Str) : Splits [] pattern [] ∧ Lossless [] pattern [] :=
  ⟨⟨1, rfl⟩, rfl, List.forall_mem_nil _, rfl⟩

/-- Nothing is lost exactly where the string is empty, or what follows the last
occurrence of the pattern begins before the size that the source computes.  For a
string shorter than `2^31` it does where the string does not end in that occurrence. -/
theorem stringSplit_lossless_iff (str : Str) {pattern : Str} (hp : pattern ≠ []) :
    (∃ parts, Splits str pattern parts ∧ Lossless str pattern parts) ↔
      str = [] ∨ (str.length : Int) - (behind pattern str).length < asInt str.length := by
  constructor
  · rintro ⟨parts, h, hlossless⟩
    rcases eq_or_ne str [] with hs | hs
    · exact .inl hs
    · exact .inr (last_occurrence_of_lossless hp hs h hlossless)
  · rintro (rfl | hend)
    · exact ⟨[], splits_nil pattern⟩
    · have hle := length_behind_le pattern str
      obtain ⟨n, parts, hparts, hcount, hfree, hjoin⟩ :=
        stringSplitIntLoop_returns hp (i := 0) (by omega) hend
      have hs : str ≠ [] := by
        rintro rfl
        exact absurd hend (Int.lt_irrefl 0)
      exact ⟨parts, ⟨n, hparts⟩, by rw [if_neg hs]; exact hcount, hfree, hjoin⟩

/-- A string with a part behind its last separator. -/
theorem stringSplit_lossless_two : ∃ parts, Splits ['a', ',', ',', 'b'] [','] parts ∧
    Lossless ['a', ',', ',', 'b'] [','] parts :=
  (stringSplit_lossless_iff _ (by decide)).mpr (by decide)

/-- The empty part behind a separator at the end is lost. -/
theorem stringSplit_loses_last : ¬ ∃ parts, Splits ['a', ','] [','] parts ∧
    Lossless ['a', ','] [','] parts := by
  rintro ⟨parts, hparts, hlossless⟩
  exact absurd (last_occurrence_of_lossless (by decide) (by decide) hparts hlossless) (by decide)

end

/-! ## Strings shorter than `2^31` -/

/-- For these the loop is the one on natural numbers. -/
theorem stringSplitIntLoop_eq {str pattern : Str} (hp : pattern ≠ [])
    (hlen : str.length < 2147483648) (n i : Nat) :
    stringSplitIntLoop str pattern (asInt str.length) n i = stringSplitLoop n i str pattern := by
  have hsize : asInt str.length = str.length := asInt_of_isInt (by rw [IsInt]; omega)
  rw [hsize]
  induction n generalizing i with
  | zero => rfl
  | succ n ih =>
      rw [stringSplitLoop]
      split
      next hi =>
        cases hf : findFrom str pattern i with
        | none => exact stringSplitIntLoop_none (by omega) (by omega) hf n
        | some pos =>
            obtain ⟨pre, rfl, hpos, -, hdrop⟩ := drop_of_findFrom hp hf
            have hpattern := List.length_pos_iff.mpr hp
            have hpart : (str.drop i).take (i + pre.length - i) = pre := by
              rw [Nat.add_sub_cancel_left, hdrop, List.append_assoc, List.take_left]
            have hnext : (i + pre.length + pattern.length - 1 + 1 : Int) =
                (i + pre.length + pattern.length : Nat) := by omega
            rw [stringSplitIntLoop_some (by omega) (by omega) hf hdrop (by omega),
              asInt_of_isInt (by rw [IsInt]; omega), intResult_of_isInt (by rw [IsInt]; omega),
              ok_bind, hnext, ih]
            dsimp only
            rw [hpart]
      next hi => rw [stringSplitIntLoop, if_neg (by omega)]

theorem stringSplitInt_eq {str pattern : Str} (hp : pattern ≠ [])
    (hlen : str.length < 2147483648) : stringSplitInt str pattern = stringSplit str pattern :=
  stringSplitIntLoop_eq hp hlen (str.length + 1) 0

end Utils
