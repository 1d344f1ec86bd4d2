import Mathlib.Data.List.TakeWhile
import AndroidAnalysis.HookJni.ParseJavaSig

/-!
# Reading a signature

`split_args_sig` and `parse_java_signature` return on every string shorter than
`2^31`: each round of the loop takes a character at least, and every cut is in
range.
-/

namespace HookJni

open Cpp Utils

/-! ## What is in front of the pointer -/

/-- A class descriptor ends at the first `;`, and the pointer is behind that. -/
theorem getClassArgsType_cut {s sig s' : Str} (h : getClassArgsType s = some (sig, s')) :
    ∃ name, ';' ∉ name ∧ sig = name ++ [';'] ∧ s = name ++ ';' :: s' := by
  induction s generalizing sig with
  | nil => exact nomatch h
  | cons c s ih =>
      rw [getClassArgsType] at h
      split at h
      next hc =>
        cases h
        exact ⟨[], List.not_mem_nil, by rw [hc]; rfl, by rw [hc]; rfl⟩
      next hc =>
        obtain ⟨r, hr, ht⟩ := Option.map_eq_some_iff.mp h
        cases ht
        obtain ⟨name, hmem, hsig, hs⟩ := ih hr
        refine ⟨c :: name, ?_, by rw [hsig]; rfl, by rw [hs]; rfl⟩
        rw [List.mem_cons, not_or]
        exact ⟨Ne.symm hc, hmem⟩

/-- A class descriptor is what was in front of the pointer. -/
theorem getClassArgsType_eq {s sig s' : Str} (h : getClassArgsType s = some (sig, s')) :
    s = sig ++ s' ∧ sig ≠ [] := by
  obtain ⟨name, -, rfl, rfl⟩ := getClassArgsType_cut h
  exact ⟨(List.append_cons name ';' s'), List.concat_ne_nil ';' name⟩

/-- The brackets are what was in front of the pointer, and another character is at
it. -/
theorem getArrayArgsCount_cut {s s' : Str} {k : Nat} (h : getArrayArgsCount s = some (k, s')) :
    ∃ c rest, c ≠ '[' ∧ s' = c :: rest ∧ s = List.replicate k '[' ++ s' := by
  induction s generalizing k with
  | nil => exact nomatch h
  | cons c s ih =>
      rw [getArrayArgsCount] at h
      split at h
      next hc =>
        cases h
        exact ⟨c, s, hc, rfl, rfl⟩
      next hc =>
        obtain ⟨r, hr, ht⟩ := Option.map_eq_some_iff.mp h
        cases ht
        obtain ⟨d, rest, hd, hrest, hs⟩ := ih hr
        refine ⟨d, rest, hd, hrest, ?_⟩
        rw [List.replicate_succ, List.cons_append, ← hs, not_not.mp hc]

theorem getArrayArgsCount_eq {s s' : Str} {k : Nat} (h : getArrayArgsCount s = some (k, s')) :
    s = List.replicate k '[' ++ s' ∧ s'.head? ≠ some '[' := by
  obtain ⟨c, rest, hc, rfl, hs⟩ := getArrayArgsCount_cut h
  exact ⟨hs, fun hhead => hc (Option.some.inj hhead)⟩

/-- The brackets in front of another character. -/
theorem getArrayArgsCount_replicate (k : Nat) {c : Char} (hc : c ≠ '[') (s : Str) :
    getArrayArgsCount (List.replicate k '[' ++ c :: s) = some (k, c :: s) := by
  induction k with
  | zero => exact if_pos hc
  | succ k ih =>
      rw [List.replicate_succ, List.cons_append, getArrayArgsCount, if_neg (by decide), ih]
      rfl

/-- The class that ends at the first `;`. -/
theorem getClassArgsType_append {s : Str} (hs : ';' ∉ s) (rest : Str) :
    getClassArgsType (s ++ ';' :: rest) = some (s ++ [';'], rest) := by
  induction s with
  | nil => exact if_pos rfl
  | cons c s ih =>
      rw [List.mem_cons, not_or] at hs
      rw [List.cons_append, getClassArgsType, if_neg (Ne.symm hs.1), ih hs.2]
      rfl

/-- A text without a `;` has no class. -/
theorem getClassArgsType_of_notMem {s : Str} (hs : ';' ∉ s) : getClassArgsType s = none := by
  induction s with
  | nil => rfl
  | cons c s ih =>
      rw [List.mem_cons, not_or] at hs
      rw [getClassArgsType, if_neg (Ne.symm hs.1), ih hs.2]
      rfl

/-- Brackets with nothing behind them are not counted. -/
theorem getArrayArgsCount_of_brackets (k : Nat) :
    getArrayArgsCount (List.replicate k '[') = none := by
  induction k with
  | zero => rfl
  | succ k ih =>
      rw [List.replicate_succ, getArrayArgsCount, if_neg (by decide), ih]
      rfl

/-- A text without a NUL is read to its end. -/
theorem cStr_eq {s : Str} (hs : '\x00' ∉ s) : cStr s = s :=
  List.takeWhile_eq_self_iff.mpr fun c hc => by
    simpa using fun h : c = '\x00' => hs (h ▸ hc)

/-- What is read of a text has no NUL. -/
theorem notMem_cStr (s : Str) : '\x00' ∉ cStr s :=
  fun h => by simpa using List.mem_takeWhile_imp h

/-- Nothing behind a NUL is read. -/
theorem mem_of_mem_cStr {pre post : Str} {c : Char} (h : c ∈ cStr (pre ++ '\x00' :: post)) :
    c ∈ pre := by
  induction pre with
  | nil => exact absurd h List.not_mem_nil
  | cons x pre ih =>
      rw [cStr, List.cons_append, List.takeWhile_cons] at h
      split at h
      next =>
        obtain rfl | h := List.mem_cons.mp h
        · exact List.mem_cons_self
        · exact List.mem_cons_of_mem x (ih h)
      next => exact absurd h List.not_mem_nil

/-! ## The loop ends -/

theorem getClassArgsType_length {s sig s' : Str} (h : getClassArgsType s = some (sig, s')) :
    s'.length < s.length := by
  obtain ⟨rfl, hne⟩ := getClassArgsType_eq h
  have := List.length_pos_iff.mpr hne
  rw [List.length_append]
  omega

/-- An array prefix is not empty. -/
theorem getArrayArgsCount_bracket {s s' : Str} {k : Nat}
    (h : getArrayArgsCount ('[' :: s) = some (k, s')) : s'.length ≤ s.length := by
  obtain ⟨heq, hhead⟩ := getArrayArgsCount_eq h
  cases k with
  | zero => exact absurd (congrArg List.head? heq).symm hhead
  | succ k =>
      have hlen := congrArg List.length heq
      simp only [List.length_cons, List.length_append, List.length_replicate] at hlen
      omega

/-- The loop returns when its counter is larger than the string. -/
theorem splitArgsSigLoop_ok (n : Nat) (s : Str) (array : Nat) (ret : List Str)
    (hn : s.length < n) : ∃ r, splitArgsSigLoop n s array ret = .ok r := by
  induction n generalizing s array ret with
  | zero => exact absurd hn (Nat.not_lt_zero _)
  | succ n ih =>
      cases s with
      | nil => exact ⟨_, rfl⟩
      | cons c s =>
          rw [List.length_cons, Nat.succ_lt_succ_iff] at hn
          rw [splitArgsSigLoop]
          split
          next hc =>
            subst hc
            cases ha : getArrayArgsCount ('[' :: s) with
            | none => exact ⟨_, rfl⟩
            | some r => exact ih _ _ _ (Nat.lt_of_le_of_lt (getArrayArgsCount_bracket ha) hn)
          next =>
            split
            next =>
              cases hl : getClassArgsType (c :: s) with
              | none => exact ⟨_, rfl⟩
              | some r =>
                  have := getClassArgsType_length hl
                  exact ih _ _ _ (by rw [List.length_cons] at this; omega)
            next =>
              split
              next => exact ih _ _ _ hn
              next => exact ⟨_, rfl⟩

/-- `split_args_sig` returns, where its positions have no end. -/
theorem splitArgsSig_ok (argsSig : Str) (retSig : List Str) :
    ∃ r, splitArgsSig argsSig retSig = .ok r :=
  splitArgsSigLoop_ok _ _ 0 retSig (Nat.lt_succ_self _)

/-! ## Every cut is in range -/

theorem substr_ok {s : Str} {pos n : Int} (hpos : 0 ≤ pos) (hlen : pos ≤ s.length) :
    ∃ t, substr s pos n = .ok t :=
  ⟨_, if_pos ⟨hpos, hlen⟩⟩

theorem toInt_find_lt {s : Str} {c : Char} (h : toInt (find s [c]) ≠ -1) :
    0 ≤ toInt (find s [c]) ∧ toInt (find s [c]) < s.length := by
  cases hf : find s [c] with
  | none => rw [hf] at h; exact absurd toInt_none h
  | some k =>
      have := lt_of_find_char hf
      rw [toInt_some]
      omega

/-- So does `parse_java_signature`. -/
theorem parseJavaSignature_ok (signature : Str) (out : SignatureOut) :
    ∃ r, parseJavaSignature signature out = .ok r := by
  rw [parseJavaSignature]
  generalize cStr signature = signature
  split
  next => exact ⟨_, rfl⟩
  next h =>
    rw [not_or, not_or] at h
    have h1 := toInt_find_lt h.1
    have h2 := toInt_find_lt h.2.1
    obtain ⟨argsSig, hargs⟩ := substr_ok (n := toInt (find signature [')']) -
      toInt (find signature ['(']) - 1) (Int.le_add_one h1.1) (Int.add_one_le_of_lt h1.2)
    obtain ⟨split, hsplit⟩ : ∃ split, (if argsSig ≠ [] then splitArgsSig argsSig out.argsType
        else .ok (true, out.argsType)) = Except.ok split := by
      split
      next => exact splitArgsSig_ok argsSig out.argsType
      next => exact ⟨_, rfl⟩
    obtain ⟨retType, hret⟩ : ∃ t, substrFrom signature (toInt (find signature [')']) + 1) = .ok t :=
      substr_ok (Int.le_add_one h2.1) (Int.add_one_le_of_lt h2.2)
    rw [hargs, ok_bind, hsplit, ok_bind]
    split
    next => exact ⟨_, rfl⟩
    next => exact ⟨_, by rw [hret, ok_bind]⟩

end HookJni
