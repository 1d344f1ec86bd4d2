import AndroidAnalysis.HookJni.DescriptorGrammar

/-!
# The positions of `split_args_sig`

`split_args_sig` keeps its position in an `int`.  It reads the text from the left, and
the last letter it looks at is the end of the text, or one that no descriptor goes on
with.  Its position there is an `int` or it has left the range, so the two runs of the
loop are the same exactly where that letter is in reach (`splitArgsSigInt_ok_iff`).
-/

namespace HookJni

open Cpp

/-! ## Where the reading ends -/

/-- The letter at position `m` is the first that no descriptor goes on with. -/
inductive GivesUpAt : Str → Nat → Prop
  | here {k : Nat} {c : Char} {rest : Str} (hc : c ∉ '[' :: 'L' :: baseLetters) :
      GivesUpAt (List.replicate k '[' ++ c :: rest) k
  | behind {d rest : Str} {m : Nat} (hd : IsDescriptor d) (h : GivesUpAt rest m) :
      GivesUpAt (d ++ rest) (d.length + m)

/-- The letters of a text that are looked at are in the range of an `int`. -/
def ReadInInt (s : Str) : Prop := s.length < 2147483648 ∨ ∃ m < 2147483648, GivesUpAt s m

theorem GivesUpAt.exists_mem {s : Str} {m : Nat} (h : GivesUpAt s m) :
    ∃ c ∈ s, c ∉ '[' :: 'L' :: baseLetters := by
  induction h with
  | @here k c rest hc => exact ⟨c, List.mem_append_right _ List.mem_cons_self, hc⟩
  | @behind d rest m _ _ ih =>
      obtain ⟨c, hmem, hc⟩ := ih
      exact ⟨c, List.mem_append_right d hmem, hc⟩

/-- What a text starts with: brackets and the end, brackets and a letter that no
descriptor goes on with, brackets and a class that does not end, or a descriptor. -/
theorem front_cases (s : Str) :
    (∃ k, s = List.replicate k '[') ∨
      (∃ k c rest, c ∉ '[' :: 'L' :: baseLetters ∧ s = List.replicate k '[' ++ c :: rest) ∨
      (∃ k name, ';' ∉ name ∧ s = List.replicate k '[' ++ 'L' :: name) ∨
      ∃ d rest, IsDescriptor d ∧ s = d ++ rest := by
  induction s with
  | nil => exact .inl ⟨0, rfl⟩
  | cons c s ih =>
      by_cases hopen : c = '['
      · subst hopen
        obtain ⟨k, rfl⟩ | ⟨k, c, rest, hc, rfl⟩ | ⟨k, name, hname, rfl⟩ | ⟨d, rest, hd, rfl⟩ := ih
        · exact .inl ⟨k + 1, rfl⟩
        · exact .inr (.inl ⟨k + 1, c, rest, hc, rfl⟩)
        · exact .inr (.inr (.inl ⟨k + 1, name, hname, rfl⟩))
        · obtain ⟨k, base, hbase, rfl⟩ := hd
          exact .inr (.inr (.inr ⟨_, rest, ⟨k + 1, base, hbase, rfl⟩, rfl⟩))
      · by_cases hcls : c = 'L'
        · subst hcls
          by_cases hname : ';' ∈ s
          · obtain ⟨name, rest, hs, hfree⟩ := List.eq_append_cons_of_mem hname
            refine .inr (.inr (.inr ⟨'L' :: name ++ [';'], rest, ⟨0, _, .cls hfree, rfl⟩, ?_⟩))
            rw [hs, List.append_assoc]
            rfl
          · exact .inr (.inr (.inl ⟨0, s, hname, rfl⟩))
        · by_cases hbase : c ∈ baseLetters
          · exact .inr (.inr (.inr ⟨[c], s, ⟨0, [c], .letter hbase, rfl⟩, rfl⟩))
          · refine .inr (.inl ⟨0, c, s, ?_, rfl⟩)
            rw [List.mem_cons, List.mem_cons, not_or, not_or]
            exact ⟨hopen, hcls, hbase⟩

/-! ## The two readers of a descriptor -/

section
variable {s : Str} {«end» : Int}

/-- A class is read to its end, which is in range or is not. -/
theorem getClassArgsTypeInt_some {sig s' : Str} (h : getClassArgsType s = some (sig, s'))
    (hend : 0 ≤ «end») : getClassArgsTypeInt «end» s =
      intResult («end» + sig.length) >>= fun next => .ok (some (sig, next, s')) := by
  induction s generalizing sig «end» with
  | nil => exact nomatch h
  | cons c s ih =>
      rw [getClassArgsType] at h
      rw [getClassArgsTypeInt]
      split at h
      next hc =>
        cases h
        simp only [if_pos hc]
        rfl
      next hc =>
        obtain ⟨r, hr, ht⟩ := Option.map_eq_some_iff.mp h
        cases ht
        simp only [if_neg hc]
        rw [List.length_cons]
        refine intResult_bind_add hend (m := 1) r.1.length fun _ => ?_
        rw [ih hr (by omega)]
        cases intResult (_ + r.1.length) with
        | error e => rfl
        | ok next => rfl

/-- A class without an end is read to the end of the text. -/
theorem getClassArgsTypeInt_none (h : getClassArgsType s = none) (hend : 0 ≤ «end»)
    (hint : IsInt «end») : getClassArgsTypeInt «end» s =
      intResult («end» + s.length) >>= fun _ => .ok none := by
  induction s generalizing «end» with
  | nil => rw [List.length_nil, Int.natCast_zero, Int.add_zero, intResult_of_isInt hint]; rfl
  | cons c s ih =>
      rw [getClassArgsType] at h
      rw [getClassArgsTypeInt]
      split at h
      next => cases h
      next hc =>
        simp only [if_neg hc]
        rw [List.length_cons]
        refine intResult_bind_add hend (m := 1) s.length fun hstep => ?_
        rw [ih (Option.map_eq_none_iff.mp h) (by omega) hstep]
        cases intResult (_ + s.length) with
        | error e => rfl
        | ok next => rfl

/-- The brackets in front of another letter are read. -/
theorem getArrayArgsCountInt_some {k : Nat} {s' : Str} (h : getArrayArgsCount s = some (k, s'))
    (hend : 0 ≤ «end») (hint : IsInt «end») : getArrayArgsCountInt «end» s =
      intResult («end» + k) >>= fun next => .ok (some (k, next, s')) := by
  induction s generalizing k «end» with
  | nil => exact nomatch h
  | cons c s ih =>
      rw [getArrayArgsCount] at h
      rw [getArrayArgsCountInt]
      split at h
      next hc =>
        cases h
        rw [if_pos hc, Int.natCast_zero, Int.add_zero, intResult_of_isInt hint]
        rfl
      next hc =>
        obtain ⟨r, hr, ht⟩ := Option.map_eq_some_iff.mp h
        cases ht
        rw [if_neg hc]
        refine intResult_bind_add hend (m := 1) r.1 fun hstep => ?_
        rw [ih hr (by omega) hstep]
        cases intResult (_ + r.1) with
        | error e => rfl
        | ok next => rfl

/-- Brackets and nothing behind them are read to the end of the text. -/
theorem getArrayArgsCountInt_none (h : getArrayArgsCount s = none) (hend : 0 ≤ «end»)
    (hint : IsInt «end») : getArrayArgsCountInt «end» s =
      intResult («end» + s.length) >>= fun _ => .ok none := by
  induction s generalizing «end» with
  | nil => rw [List.length_nil, Int.natCast_zero, Int.add_zero, intResult_of_isInt hint]; rfl
  | cons c s ih =>
      rw [getArrayArgsCount] at h
      rw [getArrayArgsCountInt]
      split at h
      next => cases h
      next hc =>
        rw [if_neg hc, List.length_cons]
        refine intResult_bind_add hend (m := 1) s.length fun hstep => ?_
        rw [ih (Option.map_eq_none_iff.mp h) (by omega) hstep]
        cases intResult (_ + s.length) with
        | error e => rfl
        | ok next => rfl

end

/-! ## The rounds of the loop -/

section
variable {p : Int} {n : Nat}

/-- The round that reads the brackets in front of another letter. -/
theorem splitArgsSigIntLoop_brackets (hp : 0 ≤ p) (hint : IsInt p) (k : Nat) {c : Char}
    (hc : c ≠ '[') (rest : Str) (ret : List Str)
    (hn : (List.replicate k '[' ++ c :: rest).length < n) :
    ∃ m, (c :: rest).length < m ∧
      splitArgsSigIntLoop n p (List.replicate k '[' ++ c :: rest) 0 ret =
        intResult (p + k) >>= fun p' => splitArgsSigIntLoop m p' (c :: rest) k ret := by
  rw [List.length_append, List.length_replicate] at hn
  cases k with
  | zero =>
      refine ⟨n, by omega, ?_⟩
      rw [Int.natCast_zero, Int.add_zero, intResult_of_isInt hint]
      rfl
  | succ k =>
      obtain ⟨m, rfl⟩ : ∃ m, n = m + 1 := ⟨n - 1, by omega⟩
      refine ⟨m, by omega, ?_⟩
      have hread := getArrayArgsCountInt_some (getArrayArgsCount_replicate (k + 1) hc rest) hp hint
      rw [List.replicate_succ, List.cons_append] at hread ⊢
      rw [splitArgsSigIntLoop, if_pos rfl, hread]
      cases intResult (p + (k + 1 : Nat)) with
      | error e => rfl
      | ok p' => rfl

/-- The rounds that give up. -/
theorem splitArgsSigIntLoop_givesUp (hp : 0 ≤ p) (hint : IsInt p) (k : Nat) {c : Char}
    (hc : c ∉ '[' :: 'L' :: baseLetters) (rest : Str) (ret : List Str)
    (hn : (List.replicate k '[' ++ c :: rest).length < n) :
    splitArgsSigIntLoop n p (List.replicate k '[' ++ c :: rest) 0 ret =
      intResult (p + k) >>= fun _ => .ok (false, ret) := by
  rw [List.mem_cons, List.mem_cons, not_or, not_or, mem_baseLetters] at hc
  obtain ⟨m, hm, hbrackets⟩ := splitArgsSigIntLoop_brackets hp hint k hc.1 rest ret hn
  obtain ⟨m, rfl⟩ : ∃ m', m = m' + 1 := ⟨m - 1, by omega⟩
  rw [hbrackets]
  simp only [splitArgsSigIntLoop, if_neg hc.1, if_neg hc.2.1, if_neg hc.2.2]

/-- A round that takes a base. -/
theorem IsBase.intRound {base : Str} (h : IsBase base) (hp : 0 ≤ p) (k : Nat) (rest : Str)
    (ret : List Str) : ∃ ret', splitArgsSigIntLoop (n + 1) p (base ++ rest) k ret =
      intResult (p + base.length) >>= fun p' => splitArgsSigIntLoop n p' rest 0 ret' := by
  cases h with
  | @letter c hc =>
      have hopen : c ≠ '[' ∧ c ≠ 'L' := by
        revert c
        decide
      refine ⟨ret ++ [List.replicate k '[' ++ [c]], ?_⟩
      rw [List.singleton_append, splitArgsSigIntLoop, if_neg hopen.1, if_neg hopen.2,
        if_pos (mem_baseLetters.mp hc)]
      rfl
  | @cls name hname =>
      have hread := getClassArgsTypeInt_some
        (getClassArgsType_append (s := 'L' :: name) (by simpa using hname) rest) hp
      refine ⟨ret ++ ['L' :: name ++ [';']], ?_⟩
      rw [List.append_assoc, List.singleton_append, List.cons_append, splitArgsSigIntLoop,
        if_neg (by decide), if_pos rfl, ← List.cons_append, hread]
      cases intResult (p + ('L' :: name ++ [';']).length) with
      | error e => rfl
      | ok p' => rfl

/-- The rounds that take a descriptor. -/
theorem IsDescriptor.intRounds {d : Str} (h : IsDescriptor d) (hp : 0 ≤ p) (hint : IsInt p)
    (rest : Str) (ret : List Str) (hn : (d ++ rest).length < n) :
    ∃ m ret', rest.length < m ∧ splitArgsSigIntLoop n p (d ++ rest) 0 ret =
      intResult (p + d.length) >>= fun p' => splitArgsSigIntLoop m p' rest 0 ret' := by
  obtain ⟨k, base, hbase, rfl⟩ := h
  obtain ⟨c, s, hcons, hc⟩ := hbase.exists_cons
  rw [List.append_assoc] at hn ⊢
  obtain ⟨m, hm, hbrackets⟩ := splitArgsSigIntLoop_brackets (c := c) hp hint k hc (s ++ rest) ret
    (by rwa [hcons] at hn)
  rw [← List.cons_append, ← hcons] at hm hbrackets
  obtain ⟨m, rfl⟩ : ∃ m', m = m' + 1 := ⟨m - 1, by omega⟩
  have hround (p' : Int) (hp' : 0 ≤ p') := hbase.intRound (n := m) hp' k rest ret
  have hpos : 0 < base.length := by
    rw [hcons]
    exact Nat.succ_pos _
  rw [List.length_append] at hm
  obtain ⟨ret', hret'⟩ := hround (p + k) (by omega)
  refine ⟨m, ret', by omega, ?_⟩
  rw [hbrackets, List.length_append, List.length_replicate, Nat.add_comm k]
  exact intResult_bind_add hp base.length fun _ => hret'

end

/-! ## The run of the loop -/

section
variable {s : Str} {p : Int} {n : Nat} {ret : List Str}

/-- The loop looks at the text up to some letter, where it ends or gives up, and
returns where the position of that is an `int`. -/
theorem splitArgsSigIntLoop_reach (ret : List Str) (hp : 0 ≤ p) (hint : IsInt p)
    (hn : s.length < n) :
    ∃ m ≤ s.length, (m = s.length ∨ GivesUpAt s m) ∧ ∃ r,
      splitArgsSigIntLoop n p s 0 ret = intResult (p + m) >>= fun _ => .ok r := by
  induction hlen : s.length using Nat.strong_induction_on generalizing s p n ret with
  | _ len ih =>
      subst hlen
      obtain ⟨k, rfl⟩ | ⟨k, c, rest, hc, rfl⟩ | ⟨k, name, hname, rfl⟩ | ⟨d, rest, hd, rfl⟩ :=
        front_cases s
      · -- The end of the text, behind brackets.
        refine ⟨_, Nat.le_refl _, .inl rfl, ?_⟩
        obtain ⟨n, rfl⟩ : ∃ n', n = n' + 1 := ⟨n - 1, by omega⟩
        cases k with
        | zero =>
            refine ⟨(true, ret), ?_⟩
            rw [List.replicate_zero, List.length_nil, Int.natCast_zero, Int.add_zero,
              intResult_of_isInt hint]
            rfl
        | succ k =>
            refine ⟨(false, ret), ?_⟩
            have hread := getArrayArgsCountInt_none (getArrayArgsCount_of_brackets (k + 1)) hp hint
            rw [List.replicate_succ] at hread ⊢
            rw [splitArgsSigIntLoop, if_pos rfl, hread]
            cases intResult (p + ('[' :: List.replicate k '[').length) with
            | error e => rfl
            | ok p' => rfl
      · -- A letter that no descriptor goes on with.
        refine ⟨k, ?_, .inr (.here hc), (false, ret), ?_⟩
        · rw [List.length_append, List.length_replicate]
          exact Nat.le_add_right _ _
        · exact splitArgsSigIntLoop_givesUp hp hint k hc rest ret hn
      · -- A class that does not end.
        refine ⟨_, Nat.le_refl _, .inl rfl, (false, ret), ?_⟩
        obtain ⟨m, hm, hbrackets⟩ := splitArgsSigIntLoop_brackets (c := 'L') hp hint k (by decide)
          name ret hn
        obtain ⟨m, rfl⟩ : ∃ m', m = m' + 1 := ⟨m - 1, by omega⟩
        have hread := getClassArgsType_of_notMem (s := 'L' :: name) (by simpa using hname)
        rw [hbrackets, List.length_append, List.length_replicate, Nat.add_comm k]
        refine intResult_bind_add hp ('L' :: name).length fun hstep => ?_
        rw [splitArgsSigIntLoop, if_neg (by decide), if_pos rfl,
          getClassArgsTypeInt_none hread (by omega) hstep]
        cases intResult (p + k + ('L' :: name).length) with
        | error e => rfl
        | ok p' => rfl
      · -- A descriptor, and the text behind it.
        obtain ⟨m, ret', hm, hrounds⟩ := hd.intRounds hp hint rest ret hn
        have hlt : rest.length < (d ++ rest).length := by
          have := List.length_pos_iff.mpr (isDescriptor_prefixCode.ne_nil d hd)
          rw [List.length_append]
          omega
        by_cases hstep : IsInt (p + d.length)
        · obtain ⟨m', hle, hend, r, hr⟩ := ih rest.length hlt (p := p + d.length) (n := m) ret'
            (by omega) hstep hm rfl
          refine ⟨d.length + m', ?_, ?_, r, ?_⟩
          · rw [List.length_append]
            omega
          · obtain rfl | hgive := hend
            · exact .inl List.length_append.symm
            · exact .inr (.behind hd hgive)
          · rw [hrounds, Nat.add_comm d.length]
            exact intResult_bind_add hp m' fun _ => hr
        · -- Nothing behind the descriptor is looked at.
          refine ⟨(d ++ rest).length, Nat.le_refl _, .inl rfl, (true, ret), ?_⟩
          rw [hrounds, List.length_append, Nat.add_comm d.length]
          exact intResult_bind_add hp rest.length fun h => absurd h hstep

/-- Where the letter it gives up at is in range, the loop returns. -/
theorem GivesUpAt.returns {m : Nat} (h : GivesUpAt s m) (ret : List Str) (hp : 0 ≤ p)
    (hm : p + m < 2147483648)
    (hn : s.length < n) : ∃ r, splitArgsSigIntLoop n p s 0 ret = .ok r := by
  induction h generalizing p n ret with
  | @here k c rest hc =>
      refine ⟨(false, ret), ?_⟩
      rw [splitArgsSigIntLoop_givesUp hp (by rw [IsInt]; omega) k hc rest ret hn,
        intResult_of_isInt (by rw [IsInt]; omega)]
      rfl
  | @behind d rest m hd _ ih =>
      obtain ⟨n', ret', hn', hrounds⟩ := hd.intRounds hp (by rw [IsInt]; omega) rest ret hn
      obtain ⟨r, hr⟩ := ih (p := p + d.length) ret' (by omega) (by omega) hn'
      exact ⟨r, by rw [hrounds, intResult_of_isInt (by rw [IsInt]; omega), ok_bind, hr]⟩

/-- Where a class is read, its pointer is the one without an end. -/
theorem getClassArgsTypeInt_eq_ok {«end» : Int} {r : Option (Str × Int × Str)}
    (h : getClassArgsTypeInt «end» s = .ok r) :
    getClassArgsType s = r.map fun r => (r.1, r.2.2) := by
  induction s generalizing «end» r with
  | nil =>
      cases h
      rfl
  | cons c s ih =>
      obtain ⟨next, -, h⟩ := bind_eq_ok.mp h
      rw [getClassArgsType]
      split at h
      next hc =>
        cases h
        rw [if_pos hc]
        rfl
      next hc =>
        obtain ⟨r', hr', h⟩ := bind_eq_ok.mp h
        cases h
        rw [if_neg hc, ih hr', Option.map_map, Option.map_map]
        rfl

theorem getArrayArgsCountInt_eq_ok {«end» : Int} {r : Option (Nat × Int × Str)}
    (h : getArrayArgsCountInt «end» s = .ok r) :
    getArrayArgsCount s = r.map fun r => (r.1, r.2.2) := by
  induction s generalizing «end» r with
  | nil =>
      cases h
      rfl
  | cons c s ih =>
      rw [getArrayArgsCountInt] at h
      rw [getArrayArgsCount]
      split at h
      next hc =>
        cases h
        rw [if_pos hc]
        rfl
      next hc =>
        obtain ⟨next, -, h⟩ := bind_eq_ok.mp h
        obtain ⟨r', hr', h⟩ := bind_eq_ok.mp h
        cases h
        rw [if_neg hc, ih hr', Option.map_map, Option.map_map]
        rfl

/-- A loop that returns does what the one without an end does. -/
theorem splitArgsSigIntLoop_eq_ok {k : Nat} {r : Bool × List Str}
    (h : splitArgsSigIntLoop n p s k ret = .ok r) : splitArgsSigLoop n s k ret = .ok r := by
  induction n generalizing s p k ret with
  | zero => exact nomatch h
  | succ n ih =>
      cases s with
      | nil => exact h
      | cons c s =>
          rw [splitArgsSigIntLoop] at h
          rw [splitArgsSigLoop]
          split at h
          next hopen =>
            obtain ⟨r', hr', h⟩ := bind_eq_ok.mp h
            rw [if_pos hopen, getArrayArgsCountInt_eq_ok hr']
            cases r' with
            | none => exact h
            | some r' => exact ih h
          next hopen =>
            rw [if_neg hopen]
            split at h
            next hcls =>
              obtain ⟨r', hr', h⟩ := bind_eq_ok.mp h
              rw [if_pos hcls, getClassArgsTypeInt_eq_ok hr']
              cases r' with
              | none => exact h
              | some r' => exact ih h
            next hcls =>
              rw [if_neg hcls]
              split at h
              next hbase =>
                obtain ⟨p', -, h⟩ := bind_eq_ok.mp h
                rw [if_pos hbase]
                exact ih h
              next hbase =>
                rw [if_neg hbase]
                exact h

end

/-! ## What is returned -/

section
variable {s : Str} {ret : List Str}

/-- `split_args_sig` returns exactly where it looks at no letter out of range. -/
theorem splitArgsSigInt_ok_iff (ret : List Str) :
    (∃ r, splitArgsSigInt s ret = .ok r) ↔ ReadInInt (cStr s) := by
  obtain ⟨m, hle, hend, r, hr⟩ := splitArgsSigIntLoop_reach (s := cStr s) ret
    (Int.le_refl 0) (by decide) (Nat.lt_succ_self _)
  rw [← splitArgsSigInt, Int.zero_add] at hr
  constructor
  · rintro ⟨r', hr'⟩
    rw [hr'] at hr
    obtain ⟨p, hp, -⟩ := bind_eq_ok.mp hr.symm
    have hm := (intResult_eq_ok.mp hp).1.2
    obtain rfl | hgive := hend
    · exact .inl (by omega)
    · exact .inr ⟨m, by omega, hgive⟩
  · rintro (hlen | ⟨m', hm', hgive⟩)
    · rw [hr, intResult_of_isInt (by rw [IsInt]; omega)]
      exact ⟨r, rfl⟩
    · exact hgive.returns ret (Int.le_refl 0) (by omega) (Nat.lt_succ_self _)

/-- Elsewhere its position leaves the range. -/
theorem splitArgsSigInt_eq_error (h : ¬ ReadInInt (cStr s)) :
    splitArgsSigInt s ret = .error .undefined := by
  obtain ⟨m, -, -, r, hr⟩ := splitArgsSigIntLoop_reach (s := cStr s) ret
    (Int.le_refl 0) (by decide) (Nat.lt_succ_self _)
  rw [← splitArgsSigInt, Int.zero_add] at hr
  by_cases hm : IsInt m
  · rw [intResult_of_isInt hm] at hr
    exact absurd ((splitArgsSigInt_ok_iff ret).mp ⟨r, hr⟩) h
  · rw [hr, intResult_of_not_isInt hm]
    rfl

/-- What it returns is what it would return with positions without an end. -/
theorem splitArgsSig_of_int {r : Bool × List Str} (h : splitArgsSigInt s ret = .ok r) :
    splitArgsSig s ret = .ok r :=
  splitArgsSigIntLoop_eq_ok h

theorem splitArgsSigInt_of_readInInt (h : ReadInInt (cStr s)) :
    splitArgsSigInt s ret = splitArgsSig s ret := by
  obtain ⟨r, hr⟩ := (splitArgsSigInt_ok_iff ret).mpr h
  rw [hr, splitArgsSig_of_int hr]

end

/-! ## Acceptance -/

/-- On a text without a NUL `split_args_sig` returns, accepts exactly the runs of
descriptors, which a text is in one way only, and then has appended one entry for each
descriptor, if and only if no letter that it looks at is out of the range of its
position. -/
theorem splitArgsSigInt_accepts_iff (s : Str) (hs : '\x00' ∉ s) (v : List Str) :
    (∃ accepted v', splitArgsSigInt s v = .ok (accepted, v') ∧
      (accepted = true ↔ ∃ ds, IsRun s ds) ∧
      ∀ ds, IsRun s ds → v' = v ++ ds.map entryOf ∧ ∀ ds', IsRun s ds' → ds' = ds) ↔
      ReadInInt s := by
  constructor
  · rintro ⟨accepted, v', h, -⟩
    rw [← cStr_eq hs]
    exact (splitArgsSigInt_ok_iff _).mp ⟨_, h⟩
  · intro hread
    obtain ⟨accepted, v', h, hruns⟩ := splitArgsSig_accepts s hs v
    rw [← cStr_eq hs] at hread
    exact ⟨accepted, v', by rw [splitArgsSigInt_of_readInInt hread, h], hruns⟩

/-- Two descriptors, the brackets of the class dropped. -/
theorem splitArgsSigInt_accepts_two : ∃ accepted v',
    splitArgsSigInt "[[ILa;".toList [] = .ok (accepted, v') ∧
      (accepted = true ↔ ∃ ds, IsRun "[[ILa;".toList ds) ∧
      ∀ ds, IsRun "[[ILa;".toList ds →
        v' = [] ++ ds.map entryOf ∧ ∀ ds', IsRun "[[ILa;".toList ds' → ds' = ds :=
  (splitArgsSigInt_accepts_iff _ (by decide) []).mpr (.inl (by decide))

/-- Letters that no position can be behind. -/
theorem splitArgsSigInt_replicate {n : Nat} (hn : 2147483648 ≤ n) {c : Char}
    (hc : c ∈ baseLetters) (v : List Str) :
    IsRun (List.replicate n c) (List.replicate n [c]) ∧
      splitArgsSigInt (List.replicate n c) v = .error .undefined := by
  have hnul : '\x00' ∉ List.replicate n c := by
    intro h
    rw [← List.eq_of_mem_replicate h] at hc
    exact absurd hc (by decide)
  refine ⟨⟨fun d hd => ?_, List.flatten_replicate_singleton⟩, splitArgsSigInt_eq_error ?_⟩
  · rw [List.eq_of_mem_replicate hd]
    exact ⟨0, [c], .letter hc, rfl⟩
  · rw [cStr_eq hnul]
    rintro (hlen | ⟨m, -, hgive⟩)
    · rw [List.length_replicate] at hlen
      omega
    · obtain ⟨x, hx, hgives⟩ := hgive.exists_mem
      rw [List.eq_of_mem_replicate hx] at hgives
      exact hgives (List.mem_cons_of_mem _ (List.mem_cons_of_mem _ hc))

/-- `2^31` letters are as many descriptors, and `split_args_sig` does not return. -/
theorem splitArgsSigInt_letters :
    (∃ ds, IsRun (List.replicate 2147483648 'I') ds) ∧
      splitArgsSigInt (List.replicate 2147483648 'I') [] = .error .undefined :=
  have h := splitArgsSigInt_replicate (Nat.le_refl _) (by decide) []
  ⟨⟨_, h.1⟩, h.2⟩

end HookJni
