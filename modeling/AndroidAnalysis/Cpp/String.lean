import Mathlib.Data.List.Infix
import Mathlib.Data.List.TakeDrop

/-!
# C++ strings

The part of `std::string` a parser of symbol names uses.  A string is the list
of its characters.  A position is a natural number and `npos` is `none`, or it
is an `int`, when a program keeps it in one, and then `npos` is `-1`.  That `int`
has no end here, which agrees with C++ for strings shorter than `2^31`; a program
that is modelled with its range converts it with `asInt`.

A call that C++ does not let return normally has an outcome of its own.
`Fault` lists them, and a function that may meet one returns `Except Fault`.
-/

namespace Cpp

/-- A `std::string`. -/
abbrev Str := List Char

/-- A property of the characters of a string is decided for these, and not for all
characters there are. -/
instance (priority := 2000) decidableForallChars (s : List Char) (P : Char → Prop)
    [DecidablePred P] : Decidable (∀ c ∈ s, P c) := List.decidableBAll P s

instance (priority := 2000) decidableForallChar (c : Option Char) (P : Char → Prop)
    [DecidablePred P] : Decidable (∀ c' ∈ c, P c') :=
  match c with
  | none => .isTrue nofun
  | some c => decidable_of_iff (P c) (by simp)

/-- The ways a call fails to return. -/
inductive Fault
  /-- A loop that does not end. -/
  | diverges
  /-- Undefined behaviour, such as an index out of range. -/
  | undefined
  /-- A `std::out_of_range` exception. -/
  | outOfRange
deriving DecidableEq, Repr

/-- A step that returns hands its value on. -/
theorem ok_bind {α β : Type} (a : α) (f : α → Except Fault β) : (Except.ok a >>= f) = f a := rfl

/-- A sequence of steps returns when its steps do. -/
theorem bind_eq_ok {α β : Type} {x : Except Fault α} {f : α → Except Fault β} {b : β} :
    x >>= f = .ok b ↔ ∃ a, x = .ok a ∧ f a = .ok b := by
  cases x with
  | error e =>
      constructor
      · intro h
        exact nomatch h
      · rintro ⟨a, ha, -⟩
        exact nomatch ha
  | ok a =>
      constructor
      · exact fun h => ⟨a, rfl, h⟩
      · rintro ⟨a', ha, h⟩
        cases ha
        exact h

/-- What follows a step only matters for the values that the step returns. -/
theorem bind_congr_ok {α β : Type} {x : Except Fault α} {f g : α → Except Fault β}
    (h : ∀ a, x = .ok a → f a = g a) : x >>= f = x >>= g := by
  cases x with
  | error e => rfl
  | ok a => exact h a rfl

theorem mapM_congr_of_mem {α β : Type} {f g : α → Except Fault β} {l : List α}
    (h : ∀ a ∈ l, f a = g a) : l.mapM f = l.mapM g := by
  induction l with
  | nil => rfl
  | cons a l ih =>
      rw [List.mapM_cons, List.mapM_cons, h a List.mem_cons_self,
        ih fun b hb => h b (List.mem_cons_of_mem a hb)]

/-! ## Searching -/

/-- `s.find(pat)`: where the leftmost occurrence begins. -/
def find : Str → Str → Option Nat
  | [], pat => if pat = [] then some 0 else none
  | c :: s, pat => if pat.isPrefixOf (c :: s) then some 0 else (find s pat).map (· + 1)

/-- `s.find(pat, pos)`. -/
def findFrom (s pat : Str) (pos : Nat) : Option Nat :=
  if pos ≤ s.length then (find (s.drop pos) pat).map (· + pos) else none

/-- `s.find_last_of(c)`: where the last `c` is. -/
def findLastOf : Str → Char → Option Nat
  | [], _ => none
  | x :: s, c =>
      match findLastOf s c with
      | some k => some (k + 1)
      | none => if x = c then some 0 else none

/-- `s.find_last_of(c, pos)` with an `int` position, which is converted to
`size_t`: a negative one is past every end. -/
def findLastOfUpTo (s : Str) (c : Char) (pos : Int) : Option Nat :=
  if pos < 0 then findLastOf s c else findLastOf (s.take (pos.toNat + 1)) c

/-- A result of `find`, kept in an `int`. -/
def toInt : Option Nat → Int
  | some k => k
  | none => -1

@[simp] theorem toInt_some (k : Nat) : toInt (some k) = k := rfl

@[simp] theorem toInt_none : toInt none = -1 := rfl

/-- A search fails where the pattern does not occur. -/
theorem find_eq_none_iff {s pat : Str} : find s pat = none ↔ ¬ pat <:+: s := by
  induction s with
  | nil =>
      cases pat with
      | nil => simp [find]
      | cons p ps => simp [find]
  | cons c s ih =>
      rw [find, List.infix_cons_iff]
      cases h : pat.isPrefixOf (c :: s) with
      | true =>
          rw [List.isPrefixOf_iff_prefix] at h
          simp [h]
      | false =>
          have hp : ¬ pat <+: c :: s := by
            rw [← List.isPrefixOf_iff_prefix, h]
            exact Bool.false_ne_true
          simp [ih, hp]

/-- A search that succeeds splits the string at the occurrence. -/
theorem find_eq_some_append {s pat : Str} {k : Nat} (h : find s pat = some k) :
    ∃ pre post, s = pre ++ pat ++ post ∧ pre.length = k := by
  induction s generalizing k with
  | nil =>
      cases pat with
      | nil => exact ⟨[], [], rfl, by simpa [find] using h⟩
      | cons p ps => simp [find] at h
  | cons c s ih =>
      rw [find] at h
      split at h
      next hp =>
        obtain ⟨post, hpost⟩ := List.isPrefixOf_iff_prefix.mp hp
        exact ⟨[], post, hpost.symm, by simpa using h⟩
      next hp =>
        obtain ⟨j, hj, rfl⟩ := Option.map_eq_some_iff.mp h
        obtain ⟨pre, post, hs, hl⟩ := ih hj
        exact ⟨c :: pre, post, by rw [hs, List.cons_append, List.cons_append], by simp [hl]⟩

/-- A search finds an occurrence that nothing comes before. -/
theorem find_append {pre pat post : Str}
    (h : ∀ pre' c mid, pre = pre' ++ c :: mid → ¬ pat <+: c :: (mid ++ pat ++ post)) :
    find (pre ++ pat ++ post) pat = some pre.length := by
  induction pre with
  | nil =>
      rw [List.nil_append]
      cases hs : pat ++ post with
      | nil =>
          rw [List.append_eq_nil_iff] at hs
          simp [find, hs.1]
      | cons c s =>
          have hp : pat <+: c :: s := hs ▸ List.prefix_append pat post
          rw [find, if_pos (List.isPrefixOf_iff_prefix.mpr hp), List.length_nil]
  | cons c pre ih =>
      have hp : ¬ pat <+: c :: (pre ++ pat ++ post) := h [] c pre rfl
      have hrest := ih fun pre' d mid he => h (c :: pre') d mid (by rw [he, List.cons_append])
      rw [List.cons_append, List.cons_append, find,
        if_neg (fun hb => hp (List.isPrefixOf_iff_prefix.mp hb)), hrest]
      rfl

/-- A search that succeeds does not look at what comes after. -/
theorem find_append_of_eq_some {s pat : Str} {k : Nat} (h : find s pat = some k) (t : Str) :
    find (s ++ t) pat = some k := by
  obtain ⟨pre, post, hs, hk⟩ := find_eq_some_append h
  have hlen : k + pat.length ≤ s.length := by
    rw [hs, List.length_append, List.length_append, hk]
    omega
  clear hs hk
  induction s generalizing k with
  | nil =>
      cases pat with
      | nil =>
          cases h
          cases t <;> rfl
      | cons c pat => exact nomatch h
  | cons c s ih =>
      rw [find] at h
      rw [List.cons_append, find]
      split at h
      next hp =>
        rw [List.isPrefixOf_iff_prefix] at hp
        have hp' : pat <+: c :: (s ++ t) := hp.trans (List.prefix_append (c :: s) t)
        rw [if_pos (List.isPrefixOf_iff_prefix.mpr hp')]
        exact h
      next hp =>
        obtain ⟨j, hj, rfl⟩ := Option.map_eq_some_iff.mp h
        rw [if_neg fun hp' => hp ?_, ih hj (by rw [List.length_cons] at hlen; omega)]
        · rfl
        · rw [List.isPrefixOf_iff_prefix] at hp' ⊢
          refine List.prefix_of_prefix_length_le hp' (List.prefix_append (c :: s) t) ?_
          omega

/-- A search that succeeds found the first occurrence: none ends before it. -/
theorem not_infix_of_find {s pat t : Str} {k : Nat} (h : find s pat = some k) (ht : t <+: s)
    (hlen : t.length < k + pat.length) : ¬ pat <:+: t := by
  intro hin
  cases hf : find t pat with
  | none => exact find_eq_none_iff.mp hf hin
  | some j =>
      obtain ⟨rest, rfl⟩ := ht
      rw [find_append_of_eq_some hf rest, Option.some_inj] at h
      obtain ⟨pre, post, rfl, rfl⟩ := find_eq_some_append hf
      rw [List.length_append, List.length_append] at hlen
      omega

/-- A search for one character finds its first occurrence. -/
theorem find_char_append {pre : Str} {c : Char} (post : Str) (h : c ∉ pre) :
    find (pre ++ c :: post) [c] = some pre.length := by
  rw [← List.singleton_append, ← List.append_assoc]
  refine find_append fun pre' d mid hpre hp => h ?_
  obtain rfl : c = d := (List.cons_prefix_cons.mp hp).1
  exact hpre ▸ List.mem_append_right pre' List.mem_cons_self

/-- A search for one character fails where it is absent. -/
theorem find_char_of_notMem {s : Str} {c : Char} (h : c ∉ s) : find s [c] = none := by
  rw [find_eq_none_iff, List.singleton_infix_iff]
  exact h

/-- A character is found in the string. -/
theorem lt_of_find_char {s : Str} {c : Char} {k : Nat} (h : find s [c] = some k) :
    k < s.length := by
  obtain ⟨pre, post, rfl, rfl⟩ := find_eq_some_append h
  rw [List.length_append, List.length_append, List.length_singleton]
  omega

/-- The last occurrence is the one that nothing comes after. -/
theorem findLastOf_append {c : Char} (pre : Str) {post : Str} (h : c ∉ post) :
    findLastOf (pre ++ c :: post) c = some pre.length := by
  have none_of (t : Str) (ht : c ∉ t) : findLastOf t c = none := by
    induction t with
    | nil => rfl
    | cons x t ih =>
        rw [List.mem_cons, not_or] at ht
        simp only [findLastOf, ih ht.2, Ne.symm ht.1, if_false]
  induction pre with
  | nil => simp only [List.nil_append, findLastOf, none_of post h, if_true, List.length_nil]
  | cons x pre ih => simp only [List.cons_append, findLastOf, ih, List.length_cons]

theorem findLastOf_eq_none_iff {s : Str} {c : Char} : findLastOf s c = none ↔ c ∉ s := by
  induction s with
  | nil => simp [findLastOf]
  | cons x s ih =>
      rw [findLastOf, List.mem_cons, not_or]
      cases h : findLastOf s c with
      | none => simp [← ih, h, eq_comm]
      | some k => simp [← ih, h]

/-- A last occurrence splits the string, and nothing comes after it. -/
theorem findLastOf_eq_some_append {s : Str} {c : Char} {k : Nat} (h : findLastOf s c = some k) :
    ∃ pre post, s = pre ++ c :: post ∧ pre.length = k ∧ c ∉ post := by
  induction s generalizing k with
  | nil => exact nomatch h
  | cons x s ih =>
      rw [findLastOf] at h
      cases hl : findLastOf s c with
      | some j =>
          rw [hl] at h
          cases h
          obtain ⟨pre, post, rfl, rfl, hpost⟩ := ih hl
          exact ⟨x :: pre, post, rfl, rfl, hpost⟩
      | none =>
          rw [hl] at h
          dsimp only at h
          split at h
          next hx =>
            cases h
            exact ⟨[], s, by rw [hx]; rfl, rfl, findLastOf_eq_none_iff.mp hl⟩
          next => exact nomatch h

theorem lt_of_findLastOf {s : Str} {c : Char} {k : Nat} (h : findLastOf s c = some k) :
    k < s.length := by
  obtain ⟨pre, post, rfl, rfl, -⟩ := findLastOf_eq_some_append h
  rw [List.length_append, List.length_cons]
  omega

theorem lt_of_findLastOfUpTo {s : Str} {c : Char} {i : Int} {k : Nat}
    (h : findLastOfUpTo s c i = some k) : k < s.length := by
  rw [findLastOfUpTo] at h
  split at h
  next => exact lt_of_findLastOf h
  next => exact Nat.lt_of_lt_of_le (lt_of_findLastOf h) (List.take_sublist _ _).length_le

/-! ## Cutting and replacing -/

/-- `s.substr(pos, n)` with `int` arguments, which are converted to `size_t`.
A position past the end throws and a length past the end is cut. -/
def substr (s : Str) (pos n : Int) : Except Fault Str :=
  if 0 ≤ pos ∧ pos ≤ s.length then
    .ok (if n < 0 then s.drop pos.toNat else (s.drop pos.toNat).take n.toNat)
  else .error .outOfRange

/-- `s.substr(pos)`: a length of `npos`. -/
def substrFrom (s : Str) (pos : Int) : Except Fault Str := substr s pos (-1)

/-- `s.replace(pos, n, r)` with a position in range. -/
def replace (s : Str) (pos n : Nat) (r : Str) : Str := s.take pos ++ r ++ s.drop (pos + n)

/-- What stands between a prefix and a suffix. -/
theorem substr_eq {s mid : Str} (pre post : Str) (hs : s = pre ++ (mid ++ post)) {i n : Int}
    (hi : i = pre.length) (hn : n = mid.length) : substr s i n = .ok mid := by
  subst hs hi hn
  simp only [substr, List.length_append, Int.toNat_natCast, List.drop_left, List.take_left]
  rw [if_pos (by omega), if_neg (by omega)]

/-- What follows a prefix. -/
theorem substrFrom_eq {s post : Str} (pre : Str) (hs : s = pre ++ post) {i : Int}
    (hi : i = pre.length) : substrFrom s i = .ok post := by
  subst hs hi
  simp only [substrFrom, substr, List.length_append, Int.toNat_natCast, List.drop_left]
  rw [if_pos (by omega), if_pos (by omega)]

/-- A cut is no longer than the string. -/
theorem length_of_substr {s t : Str} {i n : Int} (h : substr s i n = .ok t) :
    t.length ≤ s.length := by
  rw [substr] at h
  split at h
  next =>
    rw [← Except.ok.inj h]
    split
    next => exact (List.drop_sublist _ _).length_le
    next => exact ((List.take_sublist _ _).trans (List.drop_sublist _ _)).length_le
  next => exact nomatch h

/-- A cut to the end is what follows its position. -/
theorem substrFrom_eq_ok {s t : Str} {i : Int} (h : substrFrom s i = .ok t) :
    0 ≤ i ∧ i ≤ s.length ∧ t = s.drop i.toNat := by
  rw [substrFrom, substr] at h
  split at h
  next hi =>
    cases h
    exact ⟨hi.1, hi.2, rfl⟩
  next => exact nomatch h

theorem replace_append (pre old post new : Str) :
    replace (pre ++ old ++ post) pre.length old.length new = pre ++ new ++ post := by
  rw [replace, ← List.length_append, List.drop_left, List.append_assoc pre old post,
    List.take_left]

end Cpp
