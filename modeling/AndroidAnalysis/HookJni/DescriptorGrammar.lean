import AndroidAnalysis.HookJni.ParseSignature
import AndroidAnalysis.Words.PrefixCode

/-!
# The grammar of `split_args_sig`

A descriptor is any number of brackets and then a letter or a class name between
`L` and `;`.  The descriptors are a prefix code, so a text is a run of them in one
way only, and `split_args_sig` accepts the runs of descriptors and nothing else.
It appends one entry for each descriptor.

The loop reads the brackets of a descriptor in a round of their own.  Between that
round and the next it holds their number in `array`, and the character it is at is
not a bracket.  That is the invariant of `splitArgsSigLoop_run`.
-/

namespace HookJni

open Cpp InformationTheory Words

/-! ## Descriptors -/

/-- The letters of `is_java_base_args_sig`. -/
def baseLetters : Str := "VZBCSIJFD".toList

/-- A descriptor without brackets. -/
inductive IsBase : Str → Prop
  | letter {c : Char} (hc : c ∈ baseLetters) : IsBase [c]
  | cls {name : Str} (hname : ';' ∉ name) : IsBase ('L' :: name ++ [';'])

/-- A descriptor. -/
def IsDescriptor (d : Str) : Prop := ∃ k base, IsBase base ∧ d = List.replicate k '[' ++ base

/-- A list of descriptors that a text is made of. -/
def IsRun (s : Str) (ds : List Str) : Prop := (∀ d ∈ ds, IsDescriptor d) ∧ ds.flatten = s

/-- The entry of a descriptor: that of an array of a class has no brackets. -/
def entryOf (d : Str) : Str := if d.getLast? = some ';' then d.dropWhile (· = '[') else d

/-- The descriptor of a primitive is kept with its brackets. -/
theorem entryOf_letter (k : Nat) {c : Char} (hc : c ∈ baseLetters) :
    entryOf (List.replicate k '[' ++ [c]) = List.replicate k '[' ++ [c] := by
  have hne : c ≠ ';' := by
    rintro rfl
    exact absurd hc (by decide)
  rw [entryOf, List.getLast?_concat, if_neg fun he => hne (Option.some_inj.mp he)]

/-- A class is kept without them. -/
theorem entryOf_cls (k : Nat) (name : Str) :
    entryOf (List.replicate k '[' ++ ('L' :: name ++ [';'])) = 'L' :: name ++ [';'] := by
  rw [entryOf, ← List.append_assoc, List.getLast?_concat, if_pos rfl, List.append_assoc,
    List.dropWhile_append_of_pos]
  · rfl
  · intro c hc
    simpa using List.eq_of_mem_replicate hc

/-- An entry has the characters of its descriptor, apart from brackets. -/
theorem count_entryOf (d : Str) {c : Char} (hc : c ≠ '[') : (entryOf d).count c = d.count c := by
  rw [entryOf]
  split
  next =>
    have htake : (d.takeWhile (· = '[')).count c = 0 := by
      rw [List.count_eq_zero]
      intro hmem
      exact hc (by simpa using List.mem_takeWhile_imp hmem)
    rw [← Nat.zero_add (List.count c _), ← htake, ← List.count_append,
      List.takeWhile_append_dropWhile]
  next => rfl

theorem mem_baseLetters {c : Char} : c ∈ baseLetters ↔ isJavaBaseArgsSig c = true := by
  constructor
  · revert c
    decide
  · intro h
    unfold isJavaBaseArgsSig at h
    split at h
    case h_10 => exact nomatch h
    all_goals decide

/-- A base starts with a character that is not a bracket. -/
theorem IsBase.exists_cons {base : Str} (h : IsBase base) : ∃ c s, base = c :: s ∧ c ≠ '[' := by
  cases h with
  | @letter c hc =>
      refine ⟨c, [], rfl, ?_⟩
      rintro rfl
      exact absurd hc (by decide)
  | @cls name _ => exact ⟨'L', name ++ [';'], rfl, by decide⟩

/-- The brackets in front of a base are counted. -/
theorem IsBase.getArrayArgsCount {base : Str} (h : IsBase base) (k : Nat) (rest : Str) :
    getArrayArgsCount (List.replicate k '[' ++ base ++ rest) = some (k, base ++ rest) := by
  obtain ⟨c, s, rfl, hc⟩ := h.exists_cons
  rw [List.append_assoc]
  exact getArrayArgsCount_replicate k hc (s ++ rest)

/-- No base starts another. -/
theorem IsBase.eq_of_append {base base' rest : Str} (h : IsBase base) (h' : IsBase base')
    (heq : base ++ rest = base') : base = base' := by
  cases h with
  | @letter c hc =>
      cases h' with
      | letter _ => rw [(List.cons.inj heq).1]
      | cls _ =>
          rw [(List.cons.inj heq).1] at hc
          exact absurd hc (by decide)
  | @cls name hname =>
      cases h' with
      | letter hc =>
          rw [← (List.cons.inj heq).1] at hc
          exact absurd hc (by decide)
      | @cls name' hname' =>
          have htail : name ++ ';' :: rest = name' ++ [';'] := by
            simpa using heq
          have hread := congrArg getClassArgsType htail
          rw [getClassArgsType_append hname, getClassArgsType_append hname', Option.some_inj,
            Prod.mk.injEq] at hread
          rw [List.cons_append, List.cons_append, hread.1]

/-- The descriptors are a prefix code. -/
theorem isDescriptor_prefixCode : PrefixCode {d | IsDescriptor d} where
  ne_nil := by
    rintro d ⟨k, base, hbase, rfl⟩ hnil
    obtain ⟨c, s, rfl, -⟩ := hbase.exists_cons
    exact nomatch (List.append_eq_nil_iff.mp hnil).2
  eq_of_prefix := by
    rintro v ⟨k, base, hbase, rfl⟩ w ⟨l, base', hbase', rfl⟩ ⟨rest, hrest⟩
    have hread := hbase.getArrayArgsCount k rest
    have hread' := hbase'.getArrayArgsCount l []
    rw [List.append_nil, List.append_nil] at hread'
    rw [hrest, hread', Option.some_inj, Prod.mk.injEq] at hread
    rw [hread.1, hbase.eq_of_append hbase' hread.2.symm]

/-- A text is a run of descriptors in one way only. -/
theorem IsRun.unique {s : Str} {ds ds' : List Str} (h : IsRun s ds) (h' : IsRun s ds') : ds = ds' :=
  isDescriptor_prefixCode.uniquelyDecodable ds ds' h.1 h'.1 (h.2.trans h'.2.symm)

/-! ## Runs are accepted -/

/-- A round that takes a base with the brackets that were counted before it. -/
theorem IsBase.round {base : Str} (h : IsBase base) (n k : Nat) (rest : Str) (ret : List Str) :
    splitArgsSigLoop (n + 1) (base ++ rest) k ret =
      splitArgsSigLoop n rest 0 (ret ++ [entryOf (List.replicate k '[' ++ base)]) := by
  cases h with
  | @letter c hc =>
      have hopen : c ≠ '[' ∧ c ≠ 'L' := by
        revert c
        decide
      rw [List.singleton_append, splitArgsSigLoop, if_neg hopen.1, if_neg hopen.2,
        if_pos (mem_baseLetters.mp hc), entryOf_letter k hc]
  | @cls name hname =>
      have hread : getClassArgsType ('L' :: name ++ ';' :: rest) =
          some ('L' :: name ++ [';'], rest) := getClassArgsType_append (by simpa using hname) rest
      rw [entryOf_cls, List.append_assoc, List.singleton_append, List.cons_append,
        splitArgsSigLoop, if_neg (by decide), if_pos rfl, ← List.cons_append, hread]

/-- The rounds that take a descriptor. -/
theorem IsDescriptor.rounds {d : Str} (h : IsDescriptor d) {n : Nat} (rest : Str) (ret : List Str)
    (hn : (d ++ rest).length < n) : ∃ m, rest.length < m ∧
      splitArgsSigLoop n (d ++ rest) 0 ret = splitArgsSigLoop m rest 0 (ret ++ [entryOf d]) := by
  obtain ⟨k, base, hbase, rfl⟩ := h
  have hpos : 0 < base.length := by
    obtain ⟨c, s, rfl, -⟩ := hbase.exists_cons
    exact Nat.succ_pos _
  simp only [List.length_append, List.length_replicate] at hn
  cases k with
  | zero =>
      obtain ⟨m, rfl⟩ : ∃ m, n = m + 1 := ⟨n - 1, by omega⟩
      exact ⟨m, by omega, hbase.round m 0 rest ret⟩
  | succ k =>
      obtain ⟨m, rfl⟩ : ∃ m, n = m + 2 := ⟨n - 2, by omega⟩
      have hcount := hbase.getArrayArgsCount (k + 1) rest
      refine ⟨m, by omega, ?_⟩
      rw [List.replicate_succ, List.cons_append, List.cons_append] at hcount ⊢
      rw [splitArgsSigLoop, if_pos rfl, hcount]
      exact hbase.round m (k + 1) rest ret

/-- A run of descriptors is accepted, with one entry for each. -/
theorem splitArgsSigLoop_flatten {ds : List Str} (hds : ∀ d ∈ ds, IsDescriptor d) {n : Nat}
    {ret : List Str} (hn : ds.flatten.length < n) :
    splitArgsSigLoop n ds.flatten 0 ret = .ok (true, ret ++ ds.map entryOf) := by
  induction ds generalizing n ret with
  | nil =>
      obtain ⟨m, rfl⟩ : ∃ m, n = m + 1 := ⟨n - 1, by simp at hn; omega⟩
      rw [List.map_nil, List.append_nil]
      rfl
  | cons d ds ih =>
      rw [List.flatten_cons] at hn ⊢
      obtain ⟨m, hm, hrounds⟩ := (hds d List.mem_cons_self).rounds ds.flatten ret hn
      rw [hrounds, ih (fun x hx => hds x (List.mem_cons_of_mem d hx)) hm, List.map_cons,
        List.append_assoc, List.singleton_append]

/-! ## Only runs are accepted -/

/-- A base type behind its brackets, in front of a run. -/
theorem IsRun.cons_base {a s : Str} {ds : List Str} (ha : IsBase a) (k : Nat)
    (h : IsRun (List.replicate 0 '[' ++ s) ds) :
    IsRun (List.replicate k '[' ++ (a ++ s)) ((List.replicate k '[' ++ a) :: ds) := by
  obtain ⟨hds, hflat⟩ := h
  refine ⟨List.forall_mem_cons.mpr ⟨⟨k, a, ha, rfl⟩, hds⟩, ?_⟩
  rw [List.flatten_cons, hflat, List.replicate_zero, List.nil_append, List.append_assoc]

/-- What is accepted, with `k` brackets read before it, is a run of descriptors. -/
theorem splitArgsSigLoop_run {n k : Nat} {s : Str} {ret r : List Str}
    (hk : k = 0 ∨ s ≠ [] ∧ s.head? ≠ some '[')
    (h : splitArgsSigLoop n s k ret = .ok (true, r)) :
    ∃ ds, IsRun (List.replicate k '[' ++ s) ds := by
  induction n generalizing s k ret with
  | zero => cases h
  | succ n ih =>
      cases s with
      | nil =>
          obtain rfl : k = 0 := hk.resolve_right fun hs => hs.1 rfl
          exact ⟨[], fun d hd => absurd hd List.not_mem_nil, rfl⟩
      | cons c s =>
          rw [splitArgsSigLoop] at h
          split at h
          next hc =>
            subst hc
            obtain rfl : k = 0 := hk.resolve_right fun hs => hs.2 rfl
            cases ha : getArrayArgsCount ('[' :: s) with
            | none => rw [ha] at h; cases h
            | some a =>
                rw [ha] at h
                obtain ⟨heq, hhead⟩ := getArrayArgsCount_eq ha
                obtain ⟨d, rest, -, hne, -⟩ := getArrayArgsCount_cut ha
                have hsome : a.2 ≠ [] := by rw [hne]; exact List.cons_ne_nil d rest
                obtain ⟨ds, hds⟩ := ih (.inr ⟨hsome, hhead⟩) h
                exact ⟨ds, hds.1, hds.2.trans heq.symm⟩
          next =>
            split at h
            next hc =>
              subst hc
              cases hl : getClassArgsType ('L' :: s) with
              | none => rw [hl] at h; cases h
              | some a =>
                  rw [hl] at h
                  obtain ⟨heq, -⟩ := getClassArgsType_eq hl
                  obtain ⟨name, hmem, hname, -⟩ := getClassArgsType_cut hl
                  obtain ⟨ds, hds⟩ := ih (.inl rfl) h
                  have hbase : IsBase a.1 := by
                    rw [hname] at heq ⊢
                    cases name with
                    | nil => exact absurd (List.cons.inj heq).1 (by decide)
                    | cons x name =>
                        obtain rfl := (List.cons.inj heq).1
                        exact .cls fun hx => hmem (List.mem_cons_of_mem _ hx)
                  rw [heq]
                  exact ⟨_, hds.cons_base hbase k⟩
            next =>
              split at h
              next hc =>
                obtain ⟨ds, hds⟩ := ih (.inl rfl) h
                exact ⟨_, hds.cons_base (.letter (mem_baseLetters.mpr hc)) k⟩
              next => cases h

/-! ## Acceptance -/

/-- `split_args_sig` accepts the runs of descriptors, and then appends their
entries. -/
theorem splitArgsSig_eq_ok {s : Str} {ret r : List Str} : splitArgsSig s ret = .ok (true, r) ↔
    ∃ ds, IsRun (cStr s) ds ∧ r = ret ++ ds.map entryOf := by
  have hrun {ds : List Str} (h : IsRun (cStr s) ds) :
      splitArgsSig s ret = .ok (true, ret ++ ds.map entryOf) := by
    rw [splitArgsSig, ← h.2]
    exact splitArgsSigLoop_flatten h.1 (Nat.lt_succ_self _)
  constructor
  · intro h
    obtain ⟨ds, hds⟩ := splitArgsSigLoop_run (.inl rfl) h
    have hr := (hrun hds).symm.trans h
    exact ⟨ds, hds, (Prod.mk.inj (Except.ok.inj hr)).2.symm⟩
  · rintro ⟨ds, hds, rfl⟩
    exact hrun hds

/-- With positions without an end it returns on every text without a NUL.  It accepts
exactly the runs of descriptors, a text is one in one way only, and then one entry for
each descriptor has been appended. -/
theorem splitArgsSig_accepts (s : Str) (hs : '\x00' ∉ s) (v : List Str) :
    ∃ accepted v', splitArgsSig s v = .ok (accepted, v') ∧
      (accepted = true ↔ ∃ ds, IsRun s ds) ∧
      ∀ ds, IsRun s ds → v' = v ++ ds.map entryOf ∧ ∀ ds', IsRun s ds' → ds' = ds := by
  obtain ⟨⟨accepted, v'⟩, hsplit⟩ := splitArgsSig_ok s v
  have hrun (ds : List Str) (hds : IsRun s ds) :
      splitArgsSig s v = .ok (true, v ++ ds.map entryOf) :=
    splitArgsSig_eq_ok.mpr ⟨ds, by rwa [cStr_eq hs], rfl⟩
  refine ⟨accepted, v', hsplit, ?_, fun ds hds => ⟨?_, fun ds' hds' => hds'.unique hds⟩⟩
  · constructor
    · rintro rfl
      obtain ⟨ds, hds, -⟩ := splitArgsSig_eq_ok.mp hsplit
      exact ⟨ds, by rwa [cStr_eq hs] at hds⟩
    · rintro ⟨ds, hds⟩
      rw [hrun ds hds] at hsplit
      exact (Prod.mk.inj (Except.ok.inj hsplit)).1.symm
  · rw [hrun ds hds] at hsplit
    exact (Prod.mk.inj (Except.ok.inj hsplit)).2.symm

end HookJni
