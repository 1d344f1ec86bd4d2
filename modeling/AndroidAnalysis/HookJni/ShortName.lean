import AndroidAnalysis.HookJni.DescriptorPositions
import AndroidAnalysis.HookJni.JniName
import AndroidAnalysis.Utils.SplitAtPair

/-!
# Reading a short name

`parse_java_lang_name` cuts the symbol at the first two underscores in a row,
reads every underscore of the front part as a dot, and then every dot before a
`1` as an underscore.  This undoes the mangling wherever no separator stands
before an underscore: there the symbol has two underscores in a row of its own.

The size of the symbol and the place of the last dot are kept in an `int`, so the size
has to be positive as one and the place in range.
-/

namespace HookJni

open Cpp Utils Words

section
variable (cls : ClassPath) (method : JavaIdent)

/-- The qualified name of a native. -/
def apiName : Str := joinNames '.' (cls.names ++ [method])

theorem apiName_eq : apiName cls method = cls.dotted ++ '.' :: method.chars :=
  joinNames_append cls.ne_nil '.' method

theorem shortName_eq : shortName cls method = javaPrefix ++ mangle (apiName cls method) := by
  rw [shortName, apiName_eq, mangle_append, mangle_cons, List.append_assoc]
  rfl

theorem notMem_apiName {c : Char} (hc : c ∈ ['/', ';', '[', '\x00']) :
    c ∉ apiName cls method := by
  have h : c ≠ '.' ∧ ¬ (c.isAlphanum ∨ c = '_') := by
    revert c
    decide
  exact notMem_joinNames h.1 h.2 _

theorem apiName_pairFree_digit {b : Char} (hb : b.isDigit) : PairFree '.' b (apiName cls method) :=
  pairFree_joinNames_digit (by decide) hb _

/-- The mangled name has two underscores in a row where a component after the
first starts with one. -/
theorem mangle_apiName_pairFree :
    PairFree '_' '_' (mangle (apiName cls method)) ↔
      ∀ n ∈ (cls.names ++ [method]).tail, n.chars.head? ≠ some '_' := by
  have hdot : PairFree '.' '.' (apiName cls method) :=
    (pairFree_joinNames (by decide) _).mpr fun n _ h =>
      n.notMem (by decide : ¬ (('.' : Char).isAlphanum ∨ '.' = '_')) (List.mem_of_mem_head? h)
  rw [← pairFree_joinNames (by decide : ¬ (('.' : Char).isAlphanum ∨ '.' = '_')), mangle_pairFree,
    ← apiName]
  constructor
  · refine fun h => List.IsChain.imp (fun x y hxy hp => hxy ⟨.inl hp.1, ?_⟩) h
    rw [hp.2]
    decide
  · intro hunder
    rw [PairFree, List.isChain_iff_forall_rel_of_append_cons_cons] at hunder hdot
    rw [List.isChain_iff_forall_rel_of_append_cons_cons]
    rintro x y l l' hs ⟨hx, hy⟩
    have hmem {c : Char} (hc : c ∈ [x, y]) : c ∈ apiName cls method := by
      rw [hs, List.mem_append]
      exact .inr (List.mem_append_left l' hc)
    have hslash : '/' ∉ apiName cls method := notMem_apiName cls method (by decide)
    have hx' : x = '.' := hx.resolve_right fun h => hslash (h ▸ hmem (by simp))
    simp only [mangled, List.mem_cons, List.not_mem_nil, or_false] at hy
    obtain rfl | rfl | rfl | rfl | rfl := hy
    · exact hdot hs ⟨hx', rfl⟩
    · exact hslash (hmem (by simp))
    · exact hunder hs ⟨hx', rfl⟩
    · exact notMem_apiName cls method (by decide) (hmem (by simp) : ';' ∈ _)
    · exact notMem_apiName cls method (by decide) (hmem (by simp) : '[' ∈ _)

theorem nul_notMem_mangle_apiName : '\x00' ∉ mangle (apiName cls method) := by
  intro h
  obtain h | h := mem_mangle h
  · exact absurd h (by decide)
  · exact notMem_apiName cls method (by decide) h.1

theorem mangle_apiName_pairFree_zero : PairFree '_' '0' (mangle (apiName cls method)) :=
  mangle_pairFree_zero (apiName_pairFree_digit cls method rfl) (notMem_apiName cls method (by decide))

/-- The two rewritings of the front part undo the mangling. -/
theorem apiName_decode :
    replaceAll (mangle (apiName cls method)) ['_'] ['.'] =
        .ok (substChar '_' ['.', '1'] (apiName cls method)) ∧
      replaceAll (substChar '_' ['.', '1'] (apiName cls method)) ['.', '1'] ['_'] =
        .ok (apiName cls method) := by
  constructor
  · rw [replaceAll_char (by decide),
      substChar_mangle fun c hc => notMem_apiName cls method (List.mem_append_left ['\x00'] hc)]
  · rw [replaceAll_pair (by decide) (by decide) (by decide),
      substPair_substChar (by decide) (apiName_pairFree_digit cls method rfl)]

/-- The class and the method are cut at the last dot. -/
theorem apiName_cut :
    findLastOf (apiName cls method) '.' = some cls.dotted.length ∧
      substr (apiName cls method) 0 cls.dotted.length = .ok cls.dotted ∧
      substrFrom (apiName cls method) (cls.dotted.length + 1) = .ok method.chars := by
  rw [apiName_eq]
  refine ⟨?_, ?_, ?_⟩
  · exact findLastOf_append cls.dotted (method.notMem (by decide))
  · exact substr_eq [] ('.' :: method.chars) rfl rfl rfl
  · exact substrFrom_eq (cls.dotted ++ ['.']) (by simp) (by simp)

end

/-- The end of `parse_java_lang_name`, where the parameters are in the symbol. -/
def parseParams (args : Str) (out : LangNameOut) : Except Fault (Bool × LangNameOut) := do
  let args ← replaceAll args ['_', '2'] [';']
  let args ← replaceAll args ['_', '3'] ['[']
  let split ← splitArgsSigInt args out.argsType
  .ok (split.1, { out with argsType := split.2 })

/-- A symbol behind the prefix is read up to its NUL. -/
theorem cStr_javaPrefix (body : Str) : cStr (javaPrefix ++ body) = javaPrefix ++ cStr body := rfl

/-- Anything behind the prefix passes the first test. -/
theorem javaPrefix_append {body : Str} (hbody : body ≠ []) :
    ¬ ((javaPrefix ++ body).length < 6 ∨ ¬ javaPrefix <+: javaPrefix ++ body) := by
  have hpos : 0 < body.length := List.length_pos_iff.mpr hbody
  rw [not_or, not_not, List.length_append]
  exact ⟨by simp only [javaPrefix, List.length_cons, List.length_nil]; omega,
    List.prefix_append _ _⟩

/-- A symbol whose front part is a mangled name. -/
theorem parseJavaLangName_eq (cls : ClassPath) (method : JavaIdent) {body args : Str}
    (hnul : '\x00' ∉ body) (h0 : PairFree '_' '0' body) {split : List Str}
    (hsplit : stringSplitInt body ['_', '_'] = .ok split)
    (hlen : split.length = 1 ∨ split.length = 2)
    {overload : Bool} (hoverload : overload = decide (find body ['_', '_'] ≠ none))
    (hsp : (if overload then split else split ++ [[]]) = [mangle (apiName cls method), args])
    (hdot : cls.dotted.length + 1 < 2147483648) (out : LangNameOut) :
    parseJavaLangName (javaPrefix ++ body) out =
      if overload then parseParams args ⟨cls.dotted, method.chars, out.argsType, true⟩
      else .ok (true, ⟨cls.dotted, method.chars, out.argsType, false⟩) := by
  have hbody : body ≠ [] := by
    rintro rfl
    cases hsplit
    simp at hlen
  have hzero : ¬ find body ['_', '0'] ≠ none :=
    not_not_intro (find_eq_none_iff.mpr (pairFree_iff_no_pair.mp h0))
  have hsize : ¬ (split.length ≠ 1 ∧ split.length ≠ 2) := by omega
  obtain ⟨hdots, hunders⟩ := apiName_decode cls method
  obtain ⟨hlast, hcls, hmethod⟩ := apiName_cut cls method
  have hcount : ¬ (apiName cls method).count '.' < 1 := by
    rw [apiName_eq, List.count_append, List.count_cons_self]
    omega
  have hnames : ¬ (cls.dotted = [] ∨ method.chars = []) :=
    not_or.mpr ⟨joinNames_ne_nil cls.ne_nil '.', method.ne_nil⟩
  have hplace : asInt (toInt (some cls.dotted.length)) = cls.dotted.length :=
    asInt_of_isInt (by rw [toInt_some, IsInt]; omega)
  have hbehind : intResult (cls.dotted.length + 1) = .ok (cls.dotted.length + 1 : Int) :=
    intResult_of_isInt (by rw [IsInt]; omega)
  rw [parseJavaLangName, cStr_javaPrefix, cStr_eq hnul, if_neg (javaPrefix_append hbody)]
  dsimp only
  rw [show (javaPrefix ++ body).drop 5 = body from rfl, if_neg hzero, hsplit, ok_bind,
    if_neg hsize, ← hoverload, hsp]
  dsimp only [vectorGet, List.getElem?_cons_zero, List.getElem?_cons_succ]
  rw [ok_bind, ok_bind, hdots, ok_bind, hunders, ok_bind, if_neg hcount, hlast, hplace, hcls,
    ok_bind, hbehind, ok_bind, hmethod, ok_bind, if_neg hnames]
  cases overload with
  | false => rfl
  | true => rfl

/-- A symbol that is read has its names in front of the first two underscores,
and its parameters behind them. -/
structure LangNameRead (body : Str) (out out' : LangNameOut) : Prop where
  isOverride : out'.isOverride = decide (find body ['_', '_'] ≠ none)
  names : ∃ front rest dots api, stringSplitInt body ['_', '_'] = .ok (front :: rest) ∧
    replaceAll front ['_'] ['.'] = .ok dots ∧ replaceAll dots ['.', '1'] ['_'] = .ok api ∧
    substr api 0 (asInt (toInt (findLastOf api '.'))) = .ok out'.className ∧
    IsInt (asInt (toInt (findLastOf api '.')) + 1) ∧
    substrFrom api (asInt (toInt (findLastOf api '.')) + 1) = .ok out'.methodName
  params : out'.isOverride = true → ∃ split args,
    stringSplitInt body ['_', '_'] = .ok split ∧
    (split.length = 1 ∨ split.length = 2) ∧ split[1]? = some args ∧
    splitArgsSigInt (substPair '_' '3' '[' (substPair '_' '2' ';' args)) out.argsType =
      .ok (true, out'.argsType)

/-- `v[i]` of a vector that has it. -/
theorem vectorGet_eq_ok {v : List Str} {i : Nat} {s : Str} :
    vectorGet v i = .ok s ↔ v[i]? = some s := by
  rw [vectorGet]
  cases v[i]? with
  | none => exact iff_of_false nofun nofun
  | some t => rw [Except.ok.injEq, Option.some_inj]

/-- What is read of a symbol is in its parts. -/
theorem parseJavaLangName_true {name : Str} {out out' : LangNameOut}
    (h : parseJavaLangName name out = .ok (true, out')) :
    LangNameRead ((cStr name).drop 5) out out' := by
  rw [parseJavaLangName] at h
  generalize cStr name = name at h ⊢
  split at h
  next => exact nomatch h
  next =>
    dsimp only at h
    split at h
    next => exact nomatch h
    next =>
      obtain ⟨split, hsplit, h⟩ := bind_eq_ok.mp h
      split at h
      next => exact nomatch h
      next hsize =>
        obtain ⟨front, hfront, h⟩ := bind_eq_ok.mp h
        obtain ⟨args, hargs, h⟩ := bind_eq_ok.mp h
        obtain ⟨dots, hdots, h⟩ := bind_eq_ok.mp h
        obtain ⟨api, hapi, h⟩ := bind_eq_ok.mp h
        split at h
        next => exact nomatch h
        next =>
          obtain ⟨className, hclass, h⟩ := bind_eq_ok.mp h
          obtain ⟨behind, hbehind, h⟩ := bind_eq_ok.mp h
          obtain ⟨methodName, hmethod, h⟩ := bind_eq_ok.mp h
          obtain ⟨hplace, hplace_eq⟩ := intResult_eq_ok.mp hbehind
          rw [hplace_eq] at hmethod
          have hcons : ∃ rest, split = front :: rest := by
            rw [vectorGet_eq_ok] at hfront
            cases split with
            | nil => simp at hsize
            | cons x rest =>
                refine ⟨rest, ?_⟩
                split at hfront
                next => rw [← Option.some_inj.mp hfront]
                next => rw [← Option.some_inj.mp hfront]
          obtain ⟨rest, hrest⟩ := hcons
          have hnames := hrest ▸ hsplit
          split at h
          next => exact nomatch h
          next =>
            split at h
            next hoverload =>
              obtain ⟨semis, hsemis, h⟩ := bind_eq_ok.mp h
              obtain ⟨opens, hopens, h⟩ := bind_eq_ok.mp h
              obtain ⟨params, hparams, h⟩ := bind_eq_ok.mp h
              rw [replaceAll_pair (by decide) (by decide) (by decide), Except.ok.injEq] at hsemis
              rw [replaceAll_pair (by decide) (by decide) (by decide), Except.ok.injEq] at hopens
              rw [Except.ok.injEq, Prod.mk.injEq] at h
              obtain ⟨htrue, rfl⟩ := h
              rw [if_pos hoverload, vectorGet_eq_ok] at hargs
              refine ⟨rfl, ⟨front, rest, dots, api, hnames, hdots, hapi, hclass, hplace, hmethod⟩,
                fun _ => ⟨split, args, hsplit, by omega, hargs, ?_⟩⟩
              rw [hsemis, hopens, hparams, ← htrue]
            next hoverload =>
              cases h
              exact ⟨rfl, ⟨front, rest, dots, api, hnames, hdots, hapi, hclass, hplace, hmethod⟩,
                fun h => absurd h hoverload⟩

/-- What follows `Java_` in a name without a NUL. -/
theorem drop_cStr_javaPrefix {body : Str} (hnul : '\x00' ∉ body) :
    (cStr (javaPrefix ++ body)).drop 5 = body := by
  rw [cStr_javaPrefix, cStr_eq hnul]
  rfl

section
variable {cls : ClassPath} {method : JavaIdent}

/-- Where the class and the method that are read of a mangled name are its own, the last
dot is at a place in range. -/
theorem apiName_place {api : Str} (hapi : api = apiName cls method) {name : Str}
    (hplace : IsInt (asInt (toInt (findLastOf api '.')) + 1))
    (hcut : substrFrom api (asInt (toInt (findLastOf api '.')) + 1) = .ok name)
    (hname : name = method.chars) : cls.dotted.length + 1 < 2147483648 := by
  subst hapi hname
  rw [(apiName_cut cls method).1, toInt_some] at hplace hcut
  obtain ⟨hlow, hhigh, hdrop⟩ := substrFrom_eq_ok hcut
  have hlen := congrArg List.length hdrop
  rw [apiName_eq, List.length_append, List.length_cons] at hhigh
  rw [List.length_drop, apiName_eq, List.length_append, List.length_cons] at hlen
  rw [IsInt] at hplace
  omega

/-- The short name of a native is read back, exactly when no component of it after the
first starts with an underscore, the size of the mangled name is positive as an `int`,
and the place behind the class is an `int`. -/
theorem parseJavaLangName_short_iff (cls : ClassPath) (method : JavaIdent) (out : LangNameOut) :
    parseJavaLangName (shortName cls method) out =
        .ok (true, ⟨cls.dotted, method.chars, out.argsType, false⟩) ↔
      (∀ n ∈ cls.names.tail ++ [method], n.chars.head? ≠ some '_') ∧
        0 < asInt (mangle (apiName cls method)).length ∧ cls.dotted.length + 1 < 2147483648 := by
  have htail : cls.names.tail ++ [method] = (cls.names ++ [method]).tail :=
    (List.tail_append_of_ne_nil cls.ne_nil).symm
  have hnul := nul_notMem_mangle_apiName cls method
  rw [htail, ← mangle_apiName_pairFree, shortName_eq]
  constructor
  · intro h
    obtain ⟨hoverload, ⟨front, rest, dots, api, hsplit, hdots, hapi, -, hplace, hmethod⟩, -⟩ :=
      parseJavaLangName_true h
    rw [drop_cStr_javaPrefix hnul] at hoverload hsplit
    have hno : ¬ ['_', '_'] <:+: mangle (apiName cls method) :=
      find_eq_none_iff.mp (not_not.mp (of_decide_eq_false hoverload.symm))
    have hsize : 0 < asInt (mangle (apiName cls method)).length := by
      by_contra hsize
      rw [stringSplitInt_nonpos (by omega)] at hsplit
      exact nomatch hsplit
    refine ⟨pairFree_iff_no_pair.mpr hno, hsize, ?_⟩
    rw [stringSplitInt_of_no_pattern hsize hno] at hsplit
    cases hsplit
    obtain ⟨hdots', hapi'⟩ := apiName_decode cls method
    rw [hdots', Except.ok.injEq] at hdots
    subst hdots
    exact apiName_place (Except.ok.inj (hapi.symm.trans hapi')) hplace hmethod rfl
  · rintro ⟨hfree, hsize, hdot⟩
    have hno : ¬ ['_', '_'] <:+: mangle (apiName cls method) := pairFree_iff_no_pair.mp hfree
    have hsplit : stringSplitInt (mangle (apiName cls method)) ['_', '_'] =
        .ok [mangle (apiName cls method)] := stringSplitInt_of_no_pattern hsize hno
    have hoverload : false = decide (find (mangle (apiName cls method)) ['_', '_'] ≠ none) := by
      rw [find_eq_none_iff.mpr hno]
      rfl
    have hsp : (if false = true then [mangle (apiName cls method)]
        else [mangle (apiName cls method)] ++ [[]]) = [mangle (apiName cls method), []] := rfl
    exact parseJavaLangName_eq cls method hnul (mangle_apiName_pairFree_zero cls method) hsplit
      (.inl rfl) hoverload hsp hdot out

end

/-- The class `a`. -/
def classA : ClassPath := ⟨[⟨['a'], by decide, by decide, by decide⟩], List.cons_ne_nil _ _⟩

/-- The method `_b`. -/
def methodB : JavaIdent := ⟨['_', 'b'], by decide, by decide, by decide⟩

/-- The symbol of `a._b` is cut behind `a`, and there is no class in front of
that. -/
theorem parseJavaLangName_underscore :
    shortName classA methodB = "Java_a__1b".toList ∧
      parseJavaLangName (shortName classA methodB) ⟨[], [], [], false⟩ =
        .ok (false, ⟨[], [], [], true⟩) :=
  ⟨rfl, by decide⟩

end HookJni
