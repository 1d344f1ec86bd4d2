import AndroidAnalysis.HookJni.ShortName
import AndroidAnalysis.HookJni.SplitArgs

/-!
# Reading the parameters in a long name

Behind the two underscores `parse_java_lang_name` undoes `_2` and `_3`, and
splits the result.  It does not undo `_1`, it does not read the other underscores
as slashes, and the split drops the brackets of an array of a class.  Without
parameters there is nothing behind the underscores, and it reads a part that is
not there.

The text behind `Java_` has to be shorter than `2^31`.  A longer one would need a size
that wraps to one behind the name of the native, and the parameters are too short for
that.
-/

namespace HookJni

open Cpp Utils Words

/-! ## Descriptors -/

/-- The descriptors of parameters, in slash form. -/
def descriptors (ts : List (JavaType ClassPath)) : List Str :=
  ts.map (JavaType.descriptor ClassPath.slash)

/-- The letters of a descriptor. -/
theorem mem_descriptor {t : JavaType ClassPath} {c : Char} (h : c ∈ t.descriptor ClassPath.slash) :
    c.isAlphanum ∨ c ∈ ['_', '/', ';', '['] := by
  rw [JavaType.descriptor, List.mem_append] at h
  obtain h | h := h
  · rw [List.eq_of_mem_replicate h]
    exact .inr (by decide)
  · cases hb : t.base with
    | prim p =>
        rw [hb, BaseType.descriptor, List.mem_singleton] at h
        subst h
        cases p <;> exact .inl rfl
    | cls n =>
        rw [hb, BaseType.descriptor, List.mem_append, List.mem_cons, List.mem_singleton] at h
        obtain (rfl | h) | rfl := h
        · exact .inl rfl
        · obtain rfl | h | rfl := mem_joinNames h
          · exact .inr (by decide)
          · exact .inl h
          · exact .inr (by decide)
        · exact .inr (by decide)

/-- A parameter that survives: a primitive, an array of one, or a class without a
package and without an underscore in its name. -/
def Restored (t : JavaType ClassPath) : Prop :=
  match t.base with
  | .prim _ => True
  | .cls n => t.dim = 0 ∧ '/' ∉ n.slash ∧ '_' ∉ n.slash

theorem ClassPath.semicolon_notMem_slash (n : ClassPath) : ';' ∉ n.slash :=
  notMem_joinNames (by decide) (by decide) n.names

theorem restored_iff {t : JavaType ClassPath} : Restored t ↔ ¬ t.IsClassArray ∧
    '/' ∉ t.descriptor ClassPath.slash ∧ '_' ∉ t.descriptor ClassPath.slash := by
  obtain ⟨dim, base⟩ := t
  cases base with
  | prim p =>
      have hletter (c : Char) (hc : c ∈ ['/', '_']) :
          c ∉ JavaType.descriptor ClassPath.slash ⟨dim, .prim p⟩ := by
        rw [JavaType.descriptor, List.mem_append, not_or]
        refine ⟨fun h => ?_, ?_⟩
        · rw [List.eq_of_mem_replicate h] at hc
          exact absurd hc (by decide)
        · show c ∉ [p.letter]
          revert c
          cases p <;> decide
      exact iff_of_true trivial ⟨id, hletter '/' (by decide), hletter '_' (by decide)⟩
  | cls n =>
      simp [Restored, JavaType.IsClassArray, JavaType.descriptor, BaseType.descriptor]

section
variable {ts : List (JavaType ClassPath)}

theorem mem_descriptors {c : Char} (h : c ∈ (descriptors ts).flatten) :
    c.isAlphanum ∨ c ∈ ['_', '/', ';', '['] := by
  obtain ⟨d, hd, hc⟩ := List.mem_flatten.mp h
  obtain ⟨t, -, rfl⟩ := List.mem_map.mp hd
  exact mem_descriptor hc

theorem notMem_descriptors {c : Char} (hc : c ∈ ['.', '\x00', ')']) :
    c ∉ (descriptors ts).flatten := by
  have : ¬ (c.isAlphanum ∨ c ∈ ['_', '/', ';', '[']) := by
    revert c
    decide
  exact fun h => this (mem_descriptors h)

/-- A list of descriptors starts with a bracket or a letter. -/
theorem descriptors_head? (hts : ts ≠ []) :
    ∃ c, (descriptors ts).flatten.head? = some c ∧ c ≠ '0' := by
  obtain ⟨⟨dim, base⟩, ts, rfl⟩ := List.exists_cons_of_ne_nil hts
  cases dim with
  | zero =>
      cases base with
      | prim p => exact ⟨p.letter, rfl, by cases p <;> decide⟩
      | cls n => exact ⟨'L', rfl, by decide⟩
  | succ k => exact ⟨'[', rfl, by decide⟩

/-- All parameters survive. -/
theorem forall_restored_iff : (∀ t ∈ ts, Restored t) ↔ (∀ t ∈ ts, ¬ t.IsClassArray) ∧
    '/' ∉ (descriptors ts).flatten ∧ '_' ∉ (descriptors ts).flatten := by
  have hflat (c : Char) : c ∉ (descriptors ts).flatten ↔
      ∀ t ∈ ts, c ∉ t.descriptor ClassPath.slash := by
    rw [descriptors, List.mem_flatten]
    constructor
    · exact fun h t ht hc => h ⟨_, List.mem_map_of_mem ht, hc⟩
    · rintro h ⟨d, hd, hc⟩
      obtain ⟨t, ht, rfl⟩ := List.mem_map.mp hd
      exact h t ht hc
  rw [hflat, hflat]
  simp only [restored_iff]
  exact ⟨fun h => ⟨fun t ht => (h t ht).1, fun t ht => (h t ht).2.1, fun t ht => (h t ht).2.2⟩,
    fun h t ht => ⟨h.1 t ht, h.2.1 t ht, h.2.2 t ht⟩⟩

/-! ## The text behind the underscores -/

/-- The two rewritings undo the mangling of a text without slashes and
underscores. -/
theorem decode_mangle {s : Str} (hs : ∀ c ∈ ['.', '/', '_'], c ∉ s) :
    substPair '_' '3' '[' (substPair '_' '2' ';' (mangle s)) = s := by
  have hunder : '_' ∉ s := hs '_' (by decide)
  have hcode : mangle s = substChar ';' ['_', '2'] (substChar '[' ['_', '3'] s) := by
    clear hunder
    induction s with
    | nil => rfl
    | cons x s ih =>
        have hrest := ih fun c hc hm => hs c hc (List.mem_cons_of_mem x hm)
        have hx (c : Char) (hc : c ∈ ['.', '/', '_']) : x ≠ c :=
          fun h => hs c hc (h ▸ List.mem_cons_self)
        rw [mangle_cons, hrest, mangleChar,
          if_neg (not_or.mpr ⟨hx '.' (by decide), hx '/' (by decide)⟩), if_neg (hx '_' (by decide))]
        split
        next h =>
          rw [h, substChar_cons_of_ne (by decide), substChar_cons_self]
        next h =>
          split
          next h' =>
            rw [h', substChar_cons_self, substChar_append]
            rfl
          next h' =>
            rw [substChar_cons_of_ne h', substChar_cons_of_ne h]
            rfl
  rw [hcode, substPair_substChar (by decide) (pairFree_substChar (by decide) (by decide) hunder),
    substPair_substChar (by decide) (pairFree_of_notMem hunder)]

/-- A mangled text without slashes has no two underscores in a row. -/
theorem mangle_pairFree_of_notMem {s : Str} (hdot : '.' ∉ s) (hslash : '/' ∉ s) :
    PairFree '_' '_' (mangle s) := by
  rw [mangle_pairFree, List.isChain_iff_forall_rel_of_append_cons_cons]
  rintro x y l l' rfl ⟨rfl | rfl, -⟩
  · exact hdot (List.mem_append_right l List.mem_cons_self)
  · exact hslash (List.mem_append_right l List.mem_cons_self)

end

/-! ## The symbol -/

section
variable {cls : ClassPath} {method : JavaIdent} {ts : List (JavaType ClassPath)}

/-- No component of the name of a native starts with an underscore. -/
def NoLeadingUnderscore (cls : ClassPath) (method : JavaIdent) : Prop :=
  ∀ n ∈ cls.names ++ [method], n.chars.head? ≠ some '_'

/-- What follows `Java_` in the long name. -/
def longBody (cls : ClassPath) (method : JavaIdent) (ts : List (JavaType ClassPath)) : Str :=
  mangle (apiName cls method) ++ ['_', '_'] ++ mangle (descriptors ts).flatten

theorem longName_eq :
    longName cls method (descriptors ts) = javaPrefix ++ longBody cls method ts := by
  rw [longName, shortName_eq, longBody]
  simp only [List.append_assoc]

theorem length_longBody : (longBody cls method ts).length =
    (mangle (apiName cls method)).length + 2 + (mangle (descriptors ts).flatten).length := by
  rw [longBody, List.length_append, List.length_append]
  rfl

theorem drop_longBody : (longBody cls method ts).drop ((mangle (apiName cls method)).length + 2) =
    mangle (descriptors ts).flatten := by
  rw [longBody, List.append_assoc, ← List.drop_drop, List.drop_left]
  rfl

theorem NoLeadingUnderscore.pairFree (h : NoLeadingUnderscore cls method) :
    PairFree '_' '_' (mangle (apiName cls method)) :=
  (mangle_apiName_pairFree cls method).mpr fun n hn => h n (List.mem_of_mem_tail hn)

/-- The symbol is cut behind the name of the native. -/
theorem find_longName (h : PairFree '_' '_' (mangle (apiName cls method))) (post : Str) :
    find (mangle (apiName cls method) ++ ['_', '_'] ++ post) ['_', '_'] =
      some (mangle (apiName cls method)).length := by
  refine find_pair_append post h fun hlast => ?_
  have hmethod : (apiName cls method).getLast? = method.chars.getLast? := by
    rw [apiName_eq, ← List.singleton_append, ← List.append_assoc,
      List.getLast?_append_of_ne_nil _ method.ne_nil]
  have hsep := mangle_getLast? hlast
  rw [hmethod] at hsep
  cases hsep with
  | inl h => exact method.notMem (by decide) (List.mem_of_getLast? h)
  | inr h => exact method.notMem (by decide) (List.mem_of_getLast? h)

/-- Twice as many letters are enough for a mangled text. -/
theorem length_mangle (s : Str) :
    s.length ≤ (mangle s).length ∧ (mangle s).length ≤ 2 * s.length := by
  have hchar (c : Char) : 1 ≤ (mangleChar c).length ∧ (mangleChar c).length ≤ 2 :=
    forall_mangleChar (P := fun _ s => 1 ≤ s.length ∧ s.length ≤ 2) (by decide)
      (fun _ _ => ⟨Nat.le_refl 1, Nat.le_succ 1⟩) c
  induction s with
  | nil => exact ⟨Nat.le_refl 0, Nat.le_refl 0⟩
  | cons c s ih =>
      have := hchar c
      rw [mangle_cons, List.length_append, List.length_cons]
      omega

theorem nul_notMem_longBody : '\x00' ∉ longBody cls method ts := by
  rw [longBody, List.mem_append, List.mem_append, not_or, not_or]
  refine ⟨⟨nul_notMem_mangle_apiName cls method, by decide⟩, fun h => ?_⟩
  obtain h | h := mem_mangle h
  · exact absurd h (by decide)
  · exact notMem_descriptors (by decide) h.1

/-- Parts with a second one. -/
theorem exists_of_second {split : List Str} {args : Str} (hget : split[1]? = some args) :
    ∃ front rest, split = front :: args :: rest := by
  cases split with
  | nil => exact nomatch hget
  | cons front parts =>
      cases parts with
      | nil => exact nomatch hget
      | cons part rest => exact ⟨front, rest, by rw [Option.some_inj.mp hget]⟩

/-- A symbol that is cut inside the name of the native is not read: its
parameters would start with a `1`. -/
theorem pairFree_of_langNameRead {post : Str} {out out' : LangNameOut}
    (hread : LangNameRead (mangle (apiName cls method) ++ ['_', '_'] ++ post) out out') :
    PairFree '_' '_' (mangle (apiName cls method)) := by
  by_contra hfree
  obtain ⟨k, hk⟩ : ∃ k, find (mangle (apiName cls method)) ['_', '_'] = some k := by
    rw [pairFree_iff_no_pair, ← find_eq_none_iff] at hfree
    exact Option.ne_none_iff_exists'.mp hfree
  obtain ⟨pre, behind, hcut, rfl⟩ := find_eq_some_append hk
  have hone : behind.head? = some '1' := by
    have hpair : mangle (apiName cls method) = pre ++ '_' :: '_' :: behind :=
      hcut.trans (List.append_assoc _ _ _)
    refine mangle_pair_one (fun c hc => notMem_apiName cls method (List.mem_append_left _ hc)) ?_
      hpair
    exact (pairFree_joinNames (by decide) _).mpr fun n _ h =>
      n.notMem (by decide : ¬ (('.' : Char).isAlphanum ∨ '.' = '_')) (List.mem_of_mem_head? h)
  have hfind : find (mangle (apiName cls method) ++ ['_', '_'] ++ post) ['_', '_'] =
      some pre.length := by
    rw [List.append_assoc]
    exact find_append_of_eq_some hk _
  have hdrop : (mangle (apiName cls method) ++ ['_', '_'] ++ post).drop (pre.length + 2) =
      behind ++ (['_', '_'] ++ post) := by
    rw [hcut, List.append_assoc, List.append_assoc, ← List.drop_drop, List.append_assoc,
      List.drop_left]
    rfl
  have hbehind : (behind ++ (['_', '_'] ++ post)).head? = some '1' := by
    cases behind with
    | nil => exact nomatch hone
    | cons c behind => exact hone
  have hover : out'.isOverride = true := by
    rw [hread.isOverride, hfind]
    rfl
  obtain ⟨split, args, hsplit, hlen, hget, hargs⟩ := hread.params hover
  obtain ⟨front, rest, rfl⟩ := exists_of_second hget
  obtain ⟨-, -, -, hparts⟩ := stringSplitInt_cons hfind hsplit
  have hhead := stringSplitIntLoop_head? (isInt_asInt _) (asInt_le _)
    (by rw [hdrop, hbehind]; decide) hparts
  rw [hdrop, hbehind] at hhead
  cases args with
  | nil => exact nomatch hhead
  | cons c args =>
      cases hhead
      have hargs := splitArgsSig_of_int hargs
      rw [substPair_cons_of_ne (by decide), substPair_cons_of_ne (by decide)] at hargs
      exact absurd hargs (by simp [splitArgsSig, cStr, splitArgsSigLoop, isJavaBaseArgsSig])

/-- What is read of a long name: the name of the native is in front of the first two
underscores in a row. -/
theorem langNameRead_of_longName {out out' : LangNameOut}
    (h : parseJavaLangName (longName cls method (descriptors ts)) out = .ok (true, out')) :
    LangNameRead (longBody cls method ts) out out' ∧
      find (longBody cls method ts) ['_', '_'] = some (mangle (apiName cls method)).length := by
  rw [longName_eq] at h
  have hread := parseJavaLangName_true h
  rw [drop_cStr_javaPrefix nul_notMem_longBody] at hread
  exact ⟨hread, find_longName (pairFree_of_langNameRead hread) _⟩

/-- The names that are read of a long name are those of the native. -/
theorem parseJavaLangName_long_names {out out' : LangNameOut}
    (h : parseJavaLangName (longName cls method (descriptors ts)) out = .ok (true, out')) :
    out'.className = cls.dotted ∧ out'.methodName = method.chars ∧ out'.isOverride = true := by
  obtain ⟨⟨hover, ⟨front, rest, dots, api, hsplit, hdots, hapi, hcls, -, hmethod⟩, -⟩, hfind⟩ :=
    langNameRead_of_longName h
  obtain ⟨hsize, -, rfl, -⟩ := stringSplitInt_cons hfind hsplit
  rw [longBody, List.append_assoc, List.take_left] at hdots
  rw [hfind] at hover
  obtain ⟨hdots', hapi'⟩ := apiName_decode cls method
  obtain ⟨hlast, hcls', hmethod'⟩ := apiName_cut cls method
  rw [hdots', Except.ok.injEq] at hdots
  subst hdots
  rw [hapi', Except.ok.injEq] at hapi
  subst hapi
  have hplace : asInt (toInt (some cls.dotted.length)) = cls.dotted.length := by
    have hint := isInt_asInt (longBody cls method ts).length
    have hle := (length_mangle (apiName cls method)).1
    rw [apiName_eq, List.length_append, ← apiName_eq] at hle
    rw [IsInt] at hint
    refine asInt_of_isInt ?_
    rw [toInt_some, IsInt]
    omega
  rw [hlast, hplace, hcls', Except.ok.injEq] at hcls
  rw [hlast, hplace, hmethod', Except.ok.injEq] at hmethod
  exact ⟨hcls.symm, hmethod.symm, hover⟩

/-- `parse_java_lang_name` gives back the parameters of a long name. -/
theorem parseJavaLangName_long (h : NoLeadingUnderscore cls method) (hts : ts ≠ [])
    (hres : ∀ t ∈ ts, Restored t)
    (hlen : (longName cls method (descriptors ts)).length < javaPrefix.length + 2147483648)
    (out : LangNameOut) :
    parseJavaLangName (longName cls method (descriptors ts)) out =
      .ok (true, ⟨cls.dotted, method.chars, out.argsType ++ descriptors ts, true⟩) := by
  obtain ⟨harray, hslash, hunder⟩ := forall_restored_iff.mp hres
  obtain ⟨c, hc, hzero⟩ := descriptors_head? hts
  have hdot : '.' ∉ (descriptors ts).flatten := notMem_descriptors (by decide)
  have hne : (descriptors ts).flatten ≠ [] := by
    intro hnil
    rw [hnil] at hc
    exact nomatch hc
  rw [longName_eq, List.length_append, length_longBody] at hlen
  have hapi := (length_mangle (apiName cls method)).1
  have hflat := (length_mangle (descriptors ts).flatten).1
  have hsplit : stringSplitInt (longBody cls method ts) ['_', '_'] =
      .ok [mangle (apiName cls method), mangle (descriptors ts).flatten] := by
    have hbody : (longBody cls method ts).length < 2147483648 := by
      rw [length_longBody]
      omega
    rw [stringSplitInt_eq (List.cons_ne_nil _ _) hbody, longBody,
      stringSplit_append (List.cons_ne_nil _ _) (find_longName h.pairFree _),
      stringSplit_of_no_pattern (mangle_ne_nil hne)
      (pairFree_iff_no_pair.mp (mangle_pairFree_of_notMem hdot hslash))]
    rfl
  have hfree : PairFree '_' '0' (longBody cls method ts) := by
    refine pairFree_append.mpr ⟨pairFree_append.mpr ⟨mangle_apiName_pairFree_zero cls method,
      by simp [PairFree], fun hcut => nomatch hcut.2⟩,
      mangle_pairFree_zero (pairFree_of_notMem hdot) hslash, fun hcut => hzero ?_⟩
    have hhead := mangle_head? (by decide) hcut.2
    rw [hc, Option.some_inj] at hhead
    exact hhead
  have hover : true = decide (find (longBody cls method ts) ['_', '_'] ≠ none) := by
    rw [longBody, find_longName h.pairFree]
    rfl
  have hdotted : cls.dotted.length + 1 < 2147483648 := by
    rw [apiName_eq, List.length_append, List.length_cons, ← apiName_eq] at hapi
    omega
  have hargs : splitArgsSigInt (descriptors ts).flatten out.argsType =
      .ok (true, out.argsType ++ descriptors ts) := by
    have hnul : '\x00' ∉ (descriptors ts).flatten := notMem_descriptors (by decide)
    rw [splitArgsSigInt_of_readInInt (.inl (by rw [cStr_eq hnul]; omega))]
    exact splitArgsSig_descriptors harray ClassPath.semicolon_notMem_slash hnul out.argsType
  rw [longName_eq, parseJavaLangName_eq cls method nul_notMem_longBody hfree hsplit (.inr rfl) hover
      rfl hdotted out, if_pos rfl,
    parseParams, replaceAll_pair (by decide) (by decide) (by decide), ok_bind,
    replaceAll_pair (by decide) (by decide) (by decide), ok_bind, decode_mangle, hargs, ok_bind]
  intro c hc
  simp only [List.mem_cons, List.not_mem_nil, or_false] at hc
  obtain rfl | rfl | rfl := hc
  · exact hdot
  · exact hslash
  · exact hunder

/-- What `parse_java_lang_name` gives back says what the parameters are, and that the size
of the symbol is behind the name of the native. -/
theorem restored_of_parseJavaLangName {out out' : LangNameOut} (hout : out.argsType = [])
    (hparse : parseJavaLangName (longName cls method (descriptors ts)) out = .ok (true, out'))
    (hover : out'.isOverride = true) (hargs : out'.argsType = descriptors ts) :
    (ts ≠ [] ∧ ∀ t ∈ ts, Restored t) ∧
      ((mangle (apiName cls method)).length + 2 : Int) < asInt (longBody cls method ts).length := by
  obtain ⟨hread, hfind⟩ := langNameRead_of_longName hparse
  obtain ⟨split, args, hsplit, hlen, hget, hread⟩ := hread.params hover
  rw [hout, hargs] at hread
  obtain ⟨front, rest, rfl⟩ := exists_of_second hget
  obtain ⟨-, -, -, hparts⟩ := stringSplitInt_cons hfind hsplit
  obtain ⟨hsize, hcases⟩ := stringSplitIntLoop_cons (isInt_asInt _) (asInt_le _) hparts
  rw [drop_longBody] at hcases
  have hsub : args ⊆ mangle (descriptors ts).flatten := by
    obtain ⟨-, rfl, -⟩ | ⟨pos, -, -, rfl⟩ := hcases
    · exact List.Subset.refl _
    · exact List.take_subset _ _
  have hmem {c : Char} (hc : c ∈ args) : c ∈ ['_', '1', '2', '3'] ∨
      c ∈ (descriptors ts).flatten ∧ c ∉ mangled :=
    mem_mangle (hsub hc)
  have hread_mem {c : Char} (hc : c ∈ substPair '_' '3' '[' (substPair '_' '2' ';' args)) :
      c = '[' ∨ c = ';' ∨ c ∈ args :=
    (mem_substPair hc).imp_right mem_substPair
  have hnul : '\x00' ∉ substPair '_' '3' '[' (substPair '_' '2' ';' args) := by
    intro hc
    obtain h | h | h := hread_mem hc
    · exact absurd h (by decide)
    · exact absurd h (by decide)
    · exact (hmem h).elim (fun h => absurd h (by decide))
        fun h => notMem_descriptors (by decide) h.1
  obtain ⟨hpart, hcount⟩ := splitArgsSig_parts (splitArgsSig_of_int hread)
  rw [cStr_eq hnul] at hcount
  have hslash : '/' ∉ (descriptors ts).flatten := by
    rw [← List.count_eq_zero, hcount '/' (by decide), List.count_eq_zero]
    intro hc
    obtain h | h | h := hread_mem hc
    · exact absurd h (by decide)
    · exact absurd h (by decide)
    · exact (hmem h).elim (fun h => absurd h (by decide)) fun h => h.2 (by decide)
  -- The part behind the underscores is cut no further.
  have hall : args = mangle (descriptors ts).flatten := by
    obtain ⟨-, hall, -⟩ | ⟨pos, hf, -⟩ := hcases
    · exact hall
    · obtain ⟨pre, post, hpair, -⟩ := findFrom_eq_some hf
      rw [drop_longBody] at hpair
      refine absurd ⟨pre, post, hpair.symm⟩ (pairFree_iff_no_pair.mp
        (mangle_pairFree_of_notMem (notMem_descriptors (by decide)) hslash))
  -- An underscore would have left a `1` behind.
  have hunder : '_' ∉ (descriptors ts).flatten := by
    have hone := hcount '1' (by decide)
    rw [count_substPair (by decide) (by decide) (by decide),
      count_substPair (by decide) (by decide) (by decide), hall, count_one_mangle] at hone
    rw [← List.count_eq_zero]
    omega
  refine ⟨⟨?_, forall_restored_iff.mpr ⟨fun t ht => ?_, hslash, hunder⟩⟩, by omega⟩
  · rintro rfl
    have hend : (longBody cls method []).length = (mangle (apiName cls method)).length + 2 :=
      length_longBody
    have hle := asInt_le (longBody cls method []).length
    omega
  · exact (hpart _ (List.mem_map_of_mem ht)).not_isClassArray

/-- `parse_java_signature` gives back the same parameters. -/
theorem parseJavaSignatureInt_descriptors (hres : ∀ t ∈ ts, Restored t)
    (hlen : (descriptors ts).flatten.length + 2 < 2147483648) {ret : Str} (hret : '\x00' ∉ ret) :
    parseJavaSignatureInt ('(' :: (descriptors ts).flatten ++ ')' :: ret) ⟨[], []⟩ =
      .ok (true, ⟨descriptors ts, ret⟩) := by
  obtain ⟨harray, -, -⟩ := forall_restored_iff.mp hres
  have hnul : '\x00' ∉ (descriptors ts).flatten := notMem_descriptors (by decide)
  rw [parseJavaSignatureInt_eq_ok (notMem_descriptors (by decide))]
  exact ⟨⟨hnul, hret, hlen⟩,
    splitArgsSig_descriptors harray ClassPath.semicolon_notMem_slash hnul []⟩

/-- The two readers of the parameters of an overloaded native, the one of its long
name and the one of its signature, both give the descriptors, exactly when there
are parameters, all of them survive, and what follows `Java_` is shorter than `2^31`. -/
theorem parseJavaLangName_long_iff (h : NoLeadingUnderscore cls method) {out : LangNameOut}
    (hout : out.argsType = []) :
    (∃ out', parseJavaLangName (longName cls method (descriptors ts)) out = .ok (true, out') ∧
        out'.isOverride = true ∧ out'.argsType = descriptors ts ∧
        ∀ ret, '\x00' ∉ ret →
          parseJavaSignatureInt ('(' :: (descriptors ts).flatten ++ ')' :: ret) ⟨[], []⟩ =
            .ok (true, ⟨out'.argsType, ret⟩)) ↔
      ts ≠ [] ∧ (∀ t ∈ ts, Restored t) ∧
        (longName cls method (descriptors ts)).length < javaPrefix.length + 2147483648 := by
  have hflat := length_mangle (descriptors ts).flatten
  constructor
  · rintro ⟨out', hparse, hover, hargs, hsig⟩
    obtain ⟨⟨hts, hres⟩, hsize⟩ := restored_of_parseJavaLangName hout hparse hover hargs
    obtain ⟨⟨-, -, hlen⟩, -⟩ := (parseJavaSignatureInt_eq_ok (notMem_descriptors (by decide))).mp
      (hsig [] List.not_mem_nil)
    refine ⟨hts, hres, ?_⟩
    -- A size that wraps would be in front of the parameters.
    have hint := isInt_asInt (longBody cls method ts).length
    obtain ⟨q, hq⟩ := asInt_eq_sub (x := (longBody cls method ts).length) (by omega)
    rw [IsInt] at hint
    rw [longName_eq, List.length_append]
    rw [length_longBody] at hsize hint hq ⊢
    omega
  · rintro ⟨hts, hres, hlen⟩
    refine ⟨_, parseJavaLangName_long h hts hres hlen out, rfl, ?_, fun ret hret => ?_⟩
    · rw [hout, List.nil_append]
    · rw [hout, List.nil_append]
      rw [longName_eq, List.length_append, length_longBody] at hlen
      exact parseJavaSignatureInt_descriptors hres (by omega) hret

end

/-! ## Two overloads -/

/-- The class `java.lang.String`. -/
def classString : ClassPath :=
  ⟨[⟨"java".toList, by decide, by decide, by decide⟩, ⟨"lang".toList, by decide, by decide, by decide⟩,
    ⟨"String".toList, by decide, by decide, by decide⟩], List.cons_ne_nil _ _⟩

/-- The method `f`. -/
def methodF : JavaIdent := ⟨['f'], by decide, by decide, by decide⟩

/-- `a.f(int[][], double)` is read back. -/
theorem parseJavaLangName_long_prims :
    let ts : List (JavaType ClassPath) := [⟨2, .prim .int⟩, ⟨0, .prim .double⟩]
    longName classA methodF (descriptors ts) = "Java_a_f___3_3ID".toList ∧
      ∃ out', parseJavaLangName (longName classA methodF (descriptors ts)) ⟨[], [], [], false⟩ =
        .ok (true, out') ∧ out'.isOverride = true ∧ out'.argsType = descriptors ts ∧
        ∀ ret, '\x00' ∉ ret →
          parseJavaSignatureInt ('(' :: (descriptors ts).flatten ++ ')' :: ret) ⟨[], []⟩ =
            .ok (true, ⟨out'.argsType, ret⟩) := by
  have hnames : NoLeadingUnderscore classA methodF := by
    intro n hn
    obtain rfl | rfl : n = ⟨['a'], by decide, by decide, by decide⟩ ∨ n = methodF := by
      simpa [classA] using hn
    · decide
    · decide
  refine ⟨rfl, (parseJavaLangName_long_iff hnames rfl).mpr
    ⟨List.cons_ne_nil _ _, fun t ht => ?_, by decide⟩⟩
  obtain rfl | rfl : t = ⟨2, .prim .int⟩ ∨ t = ⟨0, .prim .double⟩ := by simpa using ht
  · trivial
  · trivial

/-- `a.f(java.lang.String)` is read with underscores in the class name, and
`a.f()` is not read at all. -/
theorem parseJavaLangName_long_string :
    longName classA methodF (descriptors [⟨0, .cls classString⟩]) =
        "Java_a_f__Ljava_lang_String_2".toList ∧
      parseJavaLangName (longName classA methodF (descriptors [⟨0, .cls classString⟩]))
        ⟨[], [], [], false⟩ =
        .ok (true, ⟨['a'], ['f'], ["Ljava_lang_String;".toList], true⟩) ∧
      descriptors [⟨0, .cls classString⟩] = ["Ljava/lang/String;".toList] ∧
      parseJavaLangName (longName classA methodF (descriptors [])) ⟨[], [], [], false⟩ =
        .error .undefined :=
  ⟨rfl, by decide, rfl, by decide⟩

end HookJni
