import AndroidAnalysis.HookJni.ShortName

/-!
# The symbols `parse_java_lang_name` is safe on

`string_split` gives no part for what follows a separator at the end of the text,
so a symbol that ends with its first two underscores in a row has one part.  But
`find` finds the separator, no empty part is added, and the second part is read
where there is none.  The short symbol of an overloaded native without parameters
is of this form.

These are all the faults of a symbol with less than `2^31` letters behind `Java_`
(`unsafe_iff_endsAtSeparator`).  The size of a longer one wraps, and then the second part
may be missing elsewhere too, an index may leave the range of an `int`, or the place of the
last dot, or a place in the parameters (`Faulty`).
-/

namespace HookJni

open Cpp Utils Words

/-! ## The faults -/

/-- What `parse_java_lang_name` reads its names from. -/
def decodeApi (apiSig : Str) : Str := substPair '.' '1' '_' (substChar '_' ['.'] apiSig)

/-- What it reads the parameters from. -/
def decodeArgs (argsSig : Str) : Str := substPair '_' '3' '[' (substPair '_' '2' ';' argsSig)

/-- What goes wrong on the text behind `Java_`, whose size is an `int` modulo `2^32`. -/
inductive Faulty (body : Str) : Prop
  /-- The index of `string_split` goes behind `2^31 - 1`. -/
  | index (h : EndsOutOfRange body '_' '_' (asInt body.length) 0)
  /-- There is a first part, and behind its separator no other begins before the size or
  ends before it. -/
  | second {k : Nat} (hfirst : find body ['_', '_'] = some k) (hk : (k : Int) < asInt body.length)
      (hrest : asInt body.length ≤ (k + 2 : Nat) ∨ ∃ pos : Nat,
        findFrom body ['_', '_'] (k + 2) = some pos ∧ asInt body.length ≤ pos)
  /-- There are no parameters, and the place behind the last dot is not one in range. -/
  | dot {k : Nat} (hone : find body ['_', '_'] = none) (hsize : 0 < asInt body.length)
      (hdot : findLastOf (decodeApi body) '.' = some k)
      (hk : ¬ (-1 ≤ asInt k ∧ asInt k < 2147483647))
  /-- There are names and parameters, and these are not read in range. -/
  | params {k j : Nat} (hfirst : find body ['_', '_'] = some k)
      (hk : ((k + 2 : Nat) : Int) < asInt body.length)
      (hrest : findFrom body ['_', '_'] (k + 2) = none)
      (hdot : findLastOf (decodeApi (body.take k)) '.' = some j) (hcls : j ≠ 0)
      (hmethod : j + 1 ≠ (decodeApi (body.take k)).length)
      (hargs : ¬ ReadInInt (decodeArgs (body.drop (k + 2))))

/-- A symbol that `parse_java_lang_name` does not give up on before it has split it, with a
fault. -/
def Unsafe (langName : Str) : Prop :=
  ∃ body, cStr langName = javaPrefix ++ body ∧ find body ['_', '0'] = none ∧ Faulty body

/-- The symbol ends with the first two underscores in a row, and has no escape
that makes the reader give up before. -/
def EndsAtSeparator (langName : Str) : Prop :=
  ∃ front, langName = javaPrefix ++ (front ++ ['_', '_']) ∧ PairFree '_' '_' front ∧
    front.getLast? ≠ some '_' ∧ PairFree '_' '0' front

theorem Faulty.ne_nil {body : Str} (h : Faulty body) : body ≠ [] := by
  rintro rfl
  cases h with
  | index h => exact absurd h.1 (by decide)
  | second hfirst => exact nomatch hfirst
  | dot _ hsize => exact absurd hsize (by decide)
  | params hfirst => exact nomatch hfirst

/-! ## From the two parts on -/

/-- `sp_sys_name` of `parse_java_lang_name` where it is read. -/
def spSysName (sysName : Str) (split : List Str) : List Str :=
  if decide (find sysName ['_', '_'] ≠ none) then split else split ++ [[]]

/-- The end of `parse_java_lang_name`, from its two parts on. -/
def parseParts (apiSig argsSig : Str) (out : LangNameOut) : Except Fault (Bool × LangNameOut) := do
  let apiSig ← replaceAll apiSig ['_'] ['.']
  let apiSig ← replaceAll apiSig ['.', '1'] ['_']
  if apiSig.count '.' < 1 then .ok (false, out)
  else do
    let «end» := asInt (toInt (findLastOf apiSig '.'))
    let className ← substr apiSig 0 «end»
    let behind ← intResult («end» + 1)
    let methodName ← substrFrom apiSig behind
    let out := { out with className, methodName }
    if className = [] ∨ methodName = [] then .ok (false, out)
    else if out.isOverride then parseParams argsSig out
    else .ok (true, out)

/-- The parameters are read without a fault exactly where they are read in range. -/
theorem parseParams_ok_iff {args : Str} (hnul : '\x00' ∉ args) {out : LangNameOut} :
    (∃ r, parseParams args out = .ok r) ↔ ReadInInt (decodeArgs args) := by
  have hcStr : cStr (decodeArgs args) = decodeArgs args := by
    refine cStr_eq fun h => ?_
    obtain h | h := mem_substPair h
    · exact absurd h (by decide)
    · exact (mem_substPair h).elim (fun h => absurd h (by decide)) hnul
  rw [parseParams, replaceAll_pair (by decide) (by decide) (by decide), ok_bind,
    replaceAll_pair (by decide) (by decide) (by decide), ok_bind, ← decodeArgs, ← hcStr,
    ← splitArgsSigInt_ok_iff out.argsType, hcStr]
  constructor
  · rintro ⟨r, hr⟩
    obtain ⟨split, hsplit, -⟩ := bind_eq_ok.mp hr
    exact ⟨split, hsplit⟩
  · rintro ⟨split, hsplit⟩
    exact ⟨_, by rw [hsplit, ok_bind]⟩

/-- Without a dot there are no names. -/
theorem parseParts_of_no_dot {apiSig : Str} (h : findLastOf (decodeApi apiSig) '.' = none)
    (argsSig : Str) (out : LangNameOut) : parseParts apiSig argsSig out = .ok (false, out) := by
  rw [parseParts, replaceAll_char (by decide), ok_bind,
    replaceAll_pair (by decide) (by decide) (by decide), ok_bind, ← decodeApi, if_pos]
  rw [List.count_eq_zero_of_not_mem (findLastOf_eq_none_iff.mp h)]
  exact Nat.zero_lt_one

/-- With a dot at a place in range the two names are cut at it, and with parameters these
are read where both names are there. -/
theorem parseParts_of_dot {apiSig : Str} {j : Nat} (h : findLastOf (decodeApi apiSig) '.' = some j)
    (hlow : -1 ≤ asInt j) (hhigh : asInt j < 2147483647) (argsSig : Str) (out : LangNameOut) :
    ∃ className methodName, substr (decodeApi apiSig) 0 (asInt j) = .ok className ∧
      substrFrom (decodeApi apiSig) (asInt j + 1) = .ok methodName ∧
      parseParts apiSig argsSig out =
        if className = [] ∨ methodName = [] then .ok (false, { out with className, methodName })
        else if out.isOverride then parseParams argsSig { out with className, methodName }
        else .ok (true, { out with className, methodName }) := by
  obtain ⟨pre, post, hcut, rfl, -⟩ := findLastOf_eq_some_append h
  have hle := asInt_le pre.length
  have hlen : pre.length < (decodeApi apiSig).length := by
    rw [hcut, List.length_append, List.length_cons]
    omega
  have hcount : ¬ (decodeApi apiSig).count '.' < 1 := by
    rw [hcut, List.count_append, List.count_cons_self]
    omega
  obtain ⟨className, hclass⟩ :=
    substr_ok (s := decodeApi apiSig) (n := asInt pre.length) (Int.le_refl 0) (Int.natCast_nonneg _)
  obtain ⟨methodName, hmethod⟩ :
      ∃ t, substrFrom (decodeApi apiSig) (asInt pre.length + 1) = .ok t :=
    substr_ok (by omega) (by omega)
  refine ⟨className, methodName, hclass, hmethod, ?_⟩
  rw [parseParts, replaceAll_char (by decide), ok_bind,
    replaceAll_pair (by decide) (by decide) (by decide), ok_bind, ← decodeApi, if_neg hcount, h,
    toInt_some]
  dsimp only
  rw [hclass, ok_bind, intResult_of_isInt (by rw [IsInt]; omega), ok_bind, hmethod, ok_bind]

/-- With a dot at another place a cut is out of range, or the place behind it. -/
theorem parseParts_of_far_dot {apiSig : Str} {j : Nat}
    (h : findLastOf (decodeApi apiSig) '.' = some j) (hj : ¬ (-1 ≤ asInt j ∧ asInt j < 2147483647))
    (argsSig : Str) (out : LangNameOut) : ¬ ∃ r, parseParts apiSig argsSig out = .ok r := by
  rintro ⟨r, hr⟩
  have hcount : ¬ (decodeApi apiSig).count '.' < 1 := by
    obtain ⟨pre, post, hcut, -⟩ := findLastOf_eq_some_append h
    rw [hcut, List.count_append, List.count_cons_self]
    omega
  rw [parseParts, replaceAll_char (by decide), ok_bind,
    replaceAll_pair (by decide) (by decide) (by decide), ok_bind, ← decodeApi, if_neg hcount, h,
    toInt_some] at hr
  obtain ⟨className, -, hr⟩ := bind_eq_ok.mp hr
  obtain ⟨behind, hbehind, hr⟩ := bind_eq_ok.mp hr
  obtain ⟨methodName, hmethod, -⟩ := bind_eq_ok.mp hr
  obtain ⟨hint, hplace⟩ := intResult_eq_ok.mp hbehind
  have hlow := (substrFrom_eq_ok hmethod).1
  rw [hplace] at hlow
  rw [IsInt] at hint
  omega

/-- Without parameters only the dot matters. -/
theorem parseParts_ok_iff (apiSig argsSig : Str) {out : LangNameOut}
    (hout : out.isOverride = false) :
    (∃ r, parseParts apiSig argsSig out = .ok r) ↔
      ∀ j, findLastOf (decodeApi apiSig) '.' = some j → -1 ≤ asInt j ∧ asInt j < 2147483647 := by
  constructor
  · intro hr j hj
    by_contra hfar
    exact parseParts_of_far_dot hj hfar argsSig out hr
  · intro hplace
    cases h : findLastOf (decodeApi apiSig) '.' with
    | none => exact ⟨_, parseParts_of_no_dot h argsSig out⟩
    | some j =>
        obtain ⟨hlow, hhigh⟩ := hplace j h
        obtain ⟨className, methodName, -, -, heq⟩ := parseParts_of_dot h hlow hhigh argsSig out
        rw [heq, hout]
        split
        next => exact ⟨_, rfl⟩
        next => exact ⟨_, rfl⟩

/-- With parameters behind a front part shorter than `2^31` these are read where both
names are there. -/
theorem parseParts_override_ok_iff {apiSig argsSig : Str} (hlen : apiSig.length < 2147483648)
    (hnul : '\x00' ∉ argsSig) {out : LangNameOut} (hout : out.isOverride = true) :
    (∃ r, parseParts apiSig argsSig out = .ok r) ↔
      ∀ j, findLastOf (decodeApi apiSig) '.' = some j → j ≠ 0 → j + 1 ≠ (decodeApi apiSig).length →
        ReadInInt (decodeArgs argsSig) := by
  cases h : findLastOf (decodeApi apiSig) '.' with
  | none => exact iff_of_true ⟨_, parseParts_of_no_dot h argsSig out⟩ nofun
  | some j =>
      obtain ⟨pre, post, hcut, rfl, -⟩ := findLastOf_eq_some_append h
      have hle : (decodeApi apiSig).length ≤ apiSig.length := by
        have := length_substPair_le (a := '.') (b := '1') (c := '_') (substChar '_' ['.'] apiSig)
        rwa [length_substChar] at this
      have hapi : (decodeApi apiSig).length = pre.length + (post.length + 1) := by
        rw [hcut, List.length_append, List.length_cons]
      -- The last dot of a front part is at its place, also as an `int`.
      have hplace : asInt pre.length = pre.length := asInt_of_isInt (by rw [IsInt]; omega)
      obtain ⟨className, methodName, hclass, hmethod, heq⟩ :=
        parseParts_of_dot h (by omega) (by omega) argsSig out
      rw [hplace] at hclass hmethod
      have hcls : className = pre :=
        Except.ok.inj (hclass.symm.trans (substr_eq [] ('.' :: post) hcut rfl rfl))
      have hname : methodName = post :=
        Except.ok.inj (hmethod.symm.trans (substrFrom_eq (pre ++ ['.'])
          (by rw [hcut, List.append_assoc]; rfl) (by simp)))
      subst hcls hname
      rw [heq, hout]
      split
      next hnames =>
        refine iff_of_true ⟨_, rfl⟩ fun j hj hzero hend => ?_
        obtain rfl := Option.some_inj.mp hj
        obtain hnil | hnil := hnames
        · exact absurd (List.length_eq_zero_iff.mpr hnil) hzero
        · rw [hapi, hnil] at hend
          exact absurd rfl hend
      next hnames =>
        rw [not_or] at hnames
        rw [if_pos rfl, parseParams_ok_iff hnul]
        refine ⟨fun hread _ _ _ _ => hread, fun hall => hall _ rfl ?_ ?_⟩
        · exact fun hzero => hnames.1 (List.length_eq_zero_iff.mp hzero)
        · intro hend
          exact hnames.2 (List.length_eq_zero_iff.mp (by omega))

/-! ## From the split on -/

section
variable {langName body : Str} {out : LangNameOut}

/-- `parse_java_lang_name` on a symbol that it splits. -/
theorem parseJavaLangName_split (hname : cStr langName = javaPrefix ++ body) (hbody : body ≠ [])
    (h0 : find body ['_', '0'] = none) : parseJavaLangName langName out =
      stringSplitInt body ['_', '_'] >>= fun split =>
        if split.length ≠ 1 ∧ split.length ≠ 2 then .ok (false, out)
        else
          vectorGet (spSysName body split) 0 >>= fun apiSig =>
            vectorGet (spSysName body split) 1 >>= fun argsSig =>
              parseParts apiSig argsSig
                { out with isOverride := decide (find body ['_', '_'] ≠ none) } := by
  rw [parseJavaLangName, hname, if_neg (javaPrefix_append hbody)]
  dsimp only
  rw [show (javaPrefix ++ body).drop 5 = body from rfl, if_neg (not_not_intro h0)]
  rfl

/-- A text without a separator is its only part. -/
theorem parseJavaLangName_one (hname : cStr langName = javaPrefix ++ body) (hbody : body ≠ [])
    (h0 : find body ['_', '0'] = none) (hf : find body ['_', '_'] = none) :
    (∃ r, parseJavaLangName langName out = .ok r) ↔ ¬ Faulty body := by
  have hcases : Faulty body ↔ 0 < asInt body.length ∧ ∃ j,
      findLastOf (decodeApi body) '.' = some j ∧ ¬ (-1 ≤ asInt j ∧ asInt j < 2147483647) := by
    constructor
    · rintro (⟨-, post, hpost, -⟩ | hfirst | ⟨-, hsize, hdot, hk⟩ | hfirst)
      · rw [List.drop_zero, occurrences_of_absent (find_eq_none_iff.mp hf)] at hpost
        exact absurd hpost List.not_mem_nil
      · exact nomatch hf.symm.trans hfirst
      · exact ⟨hsize, _, hdot, hk⟩
      · exact nomatch hf.symm.trans hfirst
    · rintro ⟨hsize, j, hdot, hk⟩
      exact .dot hf hsize hdot hk
  rw [parseJavaLangName_split hname hbody h0, hcases]
  by_cases hsize : 0 < asInt body.length
  · have hsp : spSysName body [body] = [body, []] := by rw [spSysName, hf]; rfl
    rw [stringSplitInt_of_no_pattern hsize (find_eq_none_iff.mp hf), ok_bind, if_neg (by simp), hsp]
    dsimp only [vectorGet, List.getElem?_cons_zero, List.getElem?_cons_succ]
    rw [ok_bind, ok_bind, parseParts_ok_iff body [] (by rw [hf]; rfl)]
    constructor
    · rintro hplace ⟨-, j, hj, hfar⟩
      exact hfar (hplace j hj)
    · intro hno j hj
      by_contra hfar
      exact hno ⟨hsize, j, hj, hfar⟩
  · rw [stringSplitInt_nonpos (by omega), ok_bind, if_pos (by simp)]
    exact iff_of_true ⟨_, rfl⟩ fun h => hsize h.1

/-- The faults of a text with a separator before its size, where the split returns. -/
theorem faulty_iff {k : Nat} (hf : find body ['_', '_'] = some k)
    (hk : (k : Int) < asInt body.length)
    (hindex : ¬ EndsOutOfRange body '_' '_' (asInt body.length) 0) : Faulty body ↔
      (asInt body.length ≤ (k + 2 : Nat) ∨ ∃ pos : Nat,
        findFrom body ['_', '_'] (k + 2) = some pos ∧ asInt body.length ≤ pos) ∨
      (((k + 2 : Nat) : Int) < asInt body.length ∧ findFrom body ['_', '_'] (k + 2) = none ∧
        ∃ j, findLastOf (decodeApi (body.take k)) '.' = some j ∧ j ≠ 0 ∧
          j + 1 ≠ (decodeApi (body.take k)).length ∧
          ¬ ReadInInt (decodeArgs (body.drop (k + 2)))) := by
  constructor
  · rintro (h | ⟨hfirst, -, hrest⟩ | hone | ⟨hfirst, hk, hrest, hdot, hcls, hmethod, hargs⟩)
    · exact absurd h hindex
    · obtain rfl := Option.some_inj.mp (hf.symm.trans hfirst)
      exact .inl hrest
    · exact nomatch hf.symm.trans hone
    · obtain rfl := Option.some_inj.mp (hf.symm.trans hfirst)
      exact .inr ⟨hk, hrest, _, hdot, hcls, hmethod, hargs⟩
  · rintro (hrest | ⟨hk, hrest, j, hdot, hcls, hmethod, hargs⟩)
    · exact .second hf hk hrest
    · exact .params hf hk hrest hdot hcls hmethod hargs

/-- A text with a separator before its size has what is in front of it as its first part. -/
theorem parseJavaLangName_two (hname : cStr langName = javaPrefix ++ body)
    (h0 : find body ['_', '0'] = none) {k : Nat} (hf : find body ['_', '_'] = some k)
    (hk : (k : Int) < asInt body.length) :
    (∃ r, parseJavaLangName langName out = .ok r) ↔ ¬ Faulty body := by
  have hbody : body ≠ [] := by
    rintro rfl
    cases hf
  have hnul : '\x00' ∉ body := fun h => notMem_cStr langName (hname ▸ List.mem_append_right _ h)
  have hint := isInt_asInt body.length
  rw [parseJavaLangName_split hname hbody h0]
  by_cases hindex : EndsOutOfRange body '_' '_' (asInt body.length) 0
  · refine iff_of_false ?_ (not_not_intro (.index hindex))
    rintro ⟨r, hr⟩
    obtain ⟨split, hsplit, -⟩ := bind_eq_ok.mp hr
    exact stringSplitInt_ok_iff.mp ⟨split, hsplit⟩ hindex
  · obtain ⟨split, hsplit⟩ := stringSplitInt_ok_iff.mpr hindex
    have hsp : spSysName body split = split := by rw [spSysName, hf]; rfl
    obtain ⟨rest, rfl⟩ : ∃ rest, split = body.take k :: rest := by
      rw [stringSplitInt_pair hf hk] at hsplit
      obtain ⟨next, -, h⟩ := bind_eq_ok.mp hsplit
      obtain ⟨rest, -, h⟩ := bind_eq_ok.mp h
      exact ⟨rest, (Except.ok.inj h).symm⟩
    obtain ⟨-, -, -, hrest⟩ := stringSplitInt_cons hf hsplit
    rw [faulty_iff hf hk hindex, hsplit, ok_bind, hsp]
    cases rest with
    | nil =>
        -- The second part is read where there is none.
        have hnone := stringSplitIntLoop_nil hint (asInt_le _) hrest
        refine iff_of_false ?_ (not_not_intro (.inl hnone))
        rintro ⟨r, hr⟩
        cases hr
    | cons args rest =>
        obtain ⟨hsize, hcases⟩ := stringSplitIntLoop_cons hint (asInt_le _) hrest
        have hsecond : ¬ (asInt body.length ≤ (k + 2 : Nat) ∨ ∃ pos : Nat,
            findFrom body ['_', '_'] (k + 2) = some pos ∧ asInt body.length ≤ pos) := by
          rintro (hle | ⟨pos, hpos, hle⟩)
          · omega
          · obtain ⟨hnone, -⟩ | ⟨pos', hpos', hlt, -⟩ := hcases
            · cases hnone.symm.trans hpos
            · obtain rfl := Option.some_inj.mp (hpos.symm.trans hpos')
              omega
        rw [or_iff_right hsecond]
        cases rest with
        | nil =>
            have hargs : args ⊆ body := by
              obtain ⟨-, rfl, -⟩ | ⟨pos, -, -, rfl⟩ := hcases
              · exact List.drop_subset _ _
              · exact List.Subset.trans (List.take_subset _ _) (List.drop_subset _ _)
            have hfront : (body.take k).length < 2147483648 := by
              rw [IsInt] at hint
              have := List.length_take_le k body
              omega
            rw [if_neg (by simp)]
            dsimp only [vectorGet, List.getElem?_cons_zero, List.getElem?_cons_succ]
            rw [ok_bind, ok_bind, parseParts_override_ok_iff hfront (fun h => hnul (hargs h))
              (by rw [hf]; rfl)]
            obtain ⟨hnone, rfl, -⟩ | ⟨pos, hpos, hlt, rfl⟩ := hcases
            · constructor
              · rintro hall ⟨-, -, j, hdot, hcls, hmethod, hread⟩
                exact hread (hall j hdot hcls hmethod)
              · intro hno j hdot hcls hmethod
                by_contra hread
                exact hno ⟨hsize, hnone, j, hdot, hcls, hmethod, hread⟩
            · -- A part that ends before the size is shorter than `2^31`.
              refine iff_of_true (fun _ _ _ _ => .inl ?_) fun h =>
                Option.some_ne_none pos (hpos.symm.trans h.2.1)
              have h2 := length_substPair_le (a := '_') (b := '2') (c := ';')
                ((body.drop (k + 2)).take (pos - (k + 2)))
              have h3 := length_substPair_le (a := '_') (b := '3') (c := '[')
                (substPair '_' '2' ';' ((body.drop (k + 2)).take (pos - (k + 2))))
              have htake := List.length_take_le (pos - (k + 2)) (body.drop (k + 2))
              rw [IsInt] at hint
              rw [decodeArgs]
              omega
        | cons part rest =>
            rw [if_pos (by simp)]
            refine iff_of_true ⟨_, rfl⟩ fun h => ?_
            obtain ⟨-, -, hnil⟩ | ⟨pos, hpos, -⟩ := hcases
            · cases hnil
            · cases hpos.symm.trans h.2.1

/-- A text with its first separator behind its size has no parts. -/
theorem parseJavaLangName_none (hname : cStr langName = javaPrefix ++ body)
    (h0 : find body ['_', '0'] = none) {k : Nat} (hf : find body ['_', '_'] = some k)
    (hk : asInt body.length ≤ k) :
    (∃ r, parseJavaLangName langName out = .ok r) ↔ ¬ Faulty body := by
  have hbody : body ≠ [] := by
    rintro rfl
    exact nomatch hf
  rw [parseJavaLangName_split hname hbody h0, stringSplitInt_past hf hk, ok_bind,
    if_pos (by simp)]
  refine iff_of_true ⟨_, rfl⟩ ?_
  rintro (⟨hsize, post, hpost, hend⟩ | ⟨hfirst, hlt, -⟩ | hone | ⟨hfirst, hlt, -⟩)
  · have := length_of_mem_occurrences (findFrom_zero.trans hf) hpost
    omega
  · obtain rfl := Option.some_inj.mp (hf.symm.trans hfirst)
    omega
  · exact nomatch hf.symm.trans hone
  · obtain rfl := Option.some_inj.mp (hf.symm.trans hfirst)
    omega

end

/-! ## All symbols -/

/-- `parse_java_lang_name` returns exactly on the symbols that have none of the faults. -/
theorem parseJavaLangName_returns_iff (langName : Str) (out : LangNameOut) :
    (∃ r, parseJavaLangName langName out = .ok r) ↔ ¬ Unsafe langName := by
  by_cases hstart : (cStr langName).length < 6 ∨ ¬ javaPrefix <+: cStr langName
  · refine iff_of_true ⟨_, by rw [parseJavaLangName, if_pos hstart]⟩ ?_
    rintro ⟨body, hname, -, hfaulty⟩
    rw [hname] at hstart
    exact javaPrefix_append hfaulty.ne_nil hstart
  · rw [not_or, not_not] at hstart
    obtain ⟨hlen, body, hname⟩ := hstart
    rw [← hname] at hlen
    have hbody : body ≠ [] := by
      rintro rfl
      exact hlen (by decide)
    have hfault : Unsafe langName ↔ find body ['_', '0'] = none ∧ Faulty body := by
      constructor
      · rintro ⟨body', hname', h⟩
        obtain rfl := List.append_cancel_left (hname.trans hname')
        exact h
      · exact fun h => ⟨body, hname.symm, h⟩
    rw [hfault]
    by_cases h0 : find body ['_', '0'] = none
    · rw [and_iff_right h0]
      cases hf : find body ['_', '_'] with
      | none => exact parseJavaLangName_one hname.symm hbody h0 hf
      | some k =>
          by_cases hk : (k : Int) < asInt body.length
          · exact parseJavaLangName_two hname.symm h0 hf hk
          · exact parseJavaLangName_none hname.symm h0 hf (by omega)
    · refine iff_of_true ⟨(false, out), ?_⟩ fun h => h0 h.1
      rw [parseJavaLangName, ← hname, if_neg (javaPrefix_append hbody)]
      exact if_pos h0

/-! ## Symbols shorter than `2^31` -/

/-- The first occurrence of two letters has a front part that neither has them nor
ends in the first. -/
theorem pairFree_of_find {pre post : Str} {a : Char}
    (h : find (pre ++ [a, a] ++ post) [a, a] = some pre.length) :
    PairFree a a pre ∧ pre.getLast? ≠ some a := by
  have hfree : PairFree a a (pre ++ [a]) := by
    rw [pairFree_iff_no_pair]
    refine not_infix_of_find h ⟨a :: post, by simp⟩ ?_
    rw [List.length_append, List.length_singleton, List.length_cons, List.length_singleton]
    omega
  obtain ⟨hpre, -, hlast⟩ := pairFree_append.mp hfree
  exact ⟨hpre, fun hl => hlast ⟨hl, rfl⟩⟩

/-- A text shorter than `2^31` is at fault where it ends with its first separator. -/
theorem faulty_iff_of_lt {body : Str} (hlen : body.length < 2147483648) :
    Faulty body ↔ ∃ k, find body ['_', '_'] = some k ∧ body.length = k + 2 := by
  have hsize : asInt body.length = body.length := asInt_of_isInt (by rw [IsInt]; omega)
  constructor
  · intro h
    cases h with
    | index h =>
        obtain ⟨-, post, -, hend⟩ := h
        omega
    | @second k hfirst hk hrest =>
        refine ⟨k, hfirst, ?_⟩
        obtain ⟨pre, post, hcut, hpre⟩ := find_eq_some_append hfirst
        have hbody := congrArg List.length hcut
        simp only [List.length_append, List.length_cons, List.length_nil] at hbody
        obtain hle | ⟨pos, hpos, hle⟩ := hrest
        · omega
        · obtain ⟨-, -, hend, -⟩ := drop_of_findFrom (List.cons_ne_nil _ _) hpos
          rw [List.length_cons, List.length_singleton] at hend
          omega
    | @dot k hone hpos hdot hk =>
        obtain ⟨pre, post, hcut, rfl, -⟩ := findLastOf_eq_some_append hdot
        have hle := length_substPair_le (a := '.') (b := '1') (c := '_') (substChar '_' ['.'] body)
        have hapi := congrArg List.length hcut
        rw [length_substChar, ← decodeApi] at hle
        rw [List.length_append, List.length_cons] at hapi
        refine absurd ?_ hk
        rw [asInt_of_isInt (by rw [IsInt]; omega)]
        omega
    | @params k j hfirst hk hrest hdot hcls hmethod hargs =>
        refine absurd (.inl ?_) hargs
        have h2 := length_substPair_le (a := '_') (b := '2') (c := ';') (body.drop (k + 2))
        have h3 := length_substPair_le (a := '_') (b := '3') (c := '[')
          (substPair '_' '2' ';' (body.drop (k + 2)))
        rw [List.length_drop] at h2
        rw [decodeArgs]
        omega
  · rintro ⟨k, hfirst, hend⟩
    exact .second hfirst (by omega) (.inl (by omega))

/-- With less than `2^31` letters behind `Java_` a symbol is at fault exactly when it ends
with its first two underscores in a row, and no escape comes before them. -/
theorem unsafe_iff_endsAtSeparator {langName : Str}
    (hlen : (cStr langName).length < javaPrefix.length + 2147483648) :
    Unsafe langName ↔ EndsAtSeparator (cStr langName) := by
  constructor
  · rintro ⟨body, hname, h0, hfaulty⟩
    rw [hname, List.length_append] at hlen
    obtain ⟨k, hfirst, hend⟩ := (faulty_iff_of_lt (by omega)).mp hfaulty
    obtain ⟨pre, post, rfl, rfl⟩ := find_eq_some_append hfirst
    obtain rfl : post = [] := by
      rw [List.length_append, List.length_append] at hend
      exact List.length_eq_zero_iff.mp (by simpa using hend)
    obtain ⟨hpair, hlast⟩ := pairFree_of_find hfirst
    refine ⟨pre, by rw [hname, List.append_nil], hpair, hlast, ?_⟩
    rw [find_eq_none_iff, ← pairFree_iff_no_pair, List.append_nil] at h0
    exact (pairFree_append.mp h0).1
  · rintro ⟨front, hname, hpair, hlast, hzero⟩
    rw [hname, List.length_append] at hlen
    refine ⟨front ++ ['_', '_'], hname, ?_, (faulty_iff_of_lt (by omega)).mpr
      ⟨front.length, ?_, List.length_append⟩⟩
    · rw [find_eq_none_iff, ← pairFree_iff_no_pair, pairFree_append]
      exact ⟨hzero, by simp [PairFree], fun h => absurd h.2 (by decide)⟩
    · rw [← List.append_nil (front ++ _)]
      exact find_pair_append [] hpair hlast

/-! ## Safety -/

/-- On every symbol `parse_java_lang_name` reads no part and makes no cut out of range, and
no place that it computes leaves the range of an `int`, exactly when the symbol has none of
the faults.  With less than `2^31` letters behind `Java_` the one fault is to end with the
first separator. -/
theorem parseJavaLangName_ok_iff (langName : Str) (out : LangNameOut) :
    ((∃ r, parseJavaLangName langName out = .ok r) ↔ ¬ Unsafe langName) ∧
      ((cStr langName).length < javaPrefix.length + 2147483648 →
        (Unsafe langName ↔ EndsAtSeparator (cStr langName))) :=
  ⟨parseJavaLangName_returns_iff langName out, unsafe_iff_endsAtSeparator⟩

/-- The symbol of `a.f()` as one of two overloads: its second part is read out of
range. -/
theorem parseJavaLangName_no_params : EndsAtSeparator (cStr "Java_a_f__".toList) ∧
    parseJavaLangName "Java_a_f__".toList ⟨[], [], [], false⟩ = .error .undefined :=
  ⟨⟨"a_f".toList, rfl, by simp [PairFree], by decide, by simp [PairFree]⟩, by decide⟩

end HookJni
