import AndroidAnalysis.HookJni.ParsePrettyName
import AndroidAnalysis.HookJni.ReadersInRange

/-!
# Every cut of `parse_java_pretty_name` is in range

A negative length of `substr` is a large one as a `size_t`, so a wrong length does
not show in the result of the call.  The parser is therefore written once more over
the function that cuts, in its three stages: the parameters, the qualified name, and
the result.  Over the cut of C++ it is `parseJavaPrettyName`, and the result is the
same over every function that agrees with that on the calls that are in range.

The hard point is the last space before the qualified name.  Where it is the first
character, the search for the space before it starts at `-1` and so goes through the
whole text.  It finds that space or a later one, and the parser gives up.
-/

namespace HookJni

open Cpp Utils Words

/-! ## The parser over a cut -/

/-- A function that cuts, as `substr` with a length or without one. -/
abbrev Cut := Str → Int → Option Int → Except Fault Str

/-- `substr`. -/
def substrCut : Cut
  | s, pos, some n => substr s pos n
  | s, pos, none => substrFrom s pos

/-- The start is in the string, and the length is not negative. -/
def InRange (s : Str) (pos : Int) (n : Option Int) : Prop :=
  0 ≤ pos ∧ pos ≤ s.length ∧ ∀ k ∈ n, 0 ≤ k

instance (s : Str) (pos : Int) (n : Option Int) : Decidable (InRange s pos n) :=
  match n with
  | none => decidable_of_iff (0 ≤ pos ∧ pos ≤ s.length) (by simp [InRange])
  | some k => decidable_of_iff (0 ≤ pos ∧ pos ≤ s.length ∧ 0 ≤ k) (by simp [InRange])

/-- `substr`, where a call that is not in range is a fault. -/
def checkedCut : Cut := fun s pos n =>
  if InRange s pos n then substrCut s pos n else .error .outOfRange

section
variable (cut : Cut)

/-- The end of `parse_java_pretty_name`, from the search for the result on. -/
def readResult (decl : Str) (p : Int) (out : PrettyNameOut) : Except Fault (Bool × PrettyNameOut) :=
  let p2 := toInt (findLastOfUpTo decl ' ' (p - 1))
  if p2 ≠ -1 ∧ p - p2 - 1 < 1 then .ok (false, out)
  else do
    let retType ← (if p2 = -1 then cut decl 0 (some p)
      else cut decl (p2 + 1) (some (p - p2 - 1)))
    if retType = [] then .ok (false, { out with retType })
    else do
      let retType ← convJavaType2SigType retType
      .ok (true, { out with retType })

/-- `parse_java_pretty_name` from the cut at the dot on. -/
def readNames (decl : Str) (p : Int) (classMethod : Str) (out : PrettyNameOut) :
    Except Fault (Bool × PrettyNameOut) :=
  if classMethod = [] then .ok (false, out)
  else
    let ppoint := toInt (findLastOf classMethod '.')
    if ppoint = -1 then .ok (false, out)
    else do
      let methodName ← cut classMethod (ppoint + 1) none
      let className ← cut classMethod 0 (some ppoint)
      let out := { out with methodName, className }
      if methodName = [] ∨ className = [] then .ok (false, out)
      else readResult cut decl p out

/-- `parse_java_pretty_name` from the search for the qualified name on. -/
def readQualified (decl : Str) (start : Int) (out : PrettyNameOut) :
    Except Fault (Bool × PrettyNameOut) :=
  let p := toInt (findLastOfUpTo decl ' ' start)
  if start - p ≤ 1 ∨ p = -1 then .ok (false, out)
  else do
    let classMethod ← cut decl (p + 1) (some (start - p - 1))
    readNames cut decl p classMethod out

/-- `parse_java_pretty_name`. -/
def parsePrettyNameWith (decl : Str) (out : PrettyNameOut) : Except Fault (Bool × PrettyNameOut) :=
  if decl.count ' ' < 1 then .ok (false, out)
  else
    let start := toInt (find decl ['('])
    let «end» := toInt (find decl [')'])
    if «end» - start < 1 ∨ start = -1 ∨ «end» = -1 then .ok (false, out)
    else do
      let args ← cut decl (start + 1) (some («end» - start - 1))
      let args ← replaceAll args [' '] []
      let items ← stringSplit args [',']
      let argsType ← items.mapM convJavaType2SigType
      readQualified cut decl start { out with argsType }

end

/-- Over `substr` it is `parse_java_pretty_name`. -/
theorem parsePrettyNameWith_substrCut (decl : Str) (out : PrettyNameOut) :
    parsePrettyNameWith substrCut decl out = parseJavaPrettyName decl out := rfl

/-- The cut agrees with `substr` on the calls that are in range. -/
def Agrees (cut : Cut) : Prop := ∀ s pos n, InRange s pos n → cut s pos n = substrCut s pos n

theorem agrees_substrCut : Agrees substrCut := fun _ _ _ _ => rfl

theorem agrees_checkedCut : Agrees checkedCut := fun _ _ _ h => if_pos h

/-! ## What is cut -/

/-- A call for what stands between a prefix and a suffix. -/
theorem Agrees.between {cut : Cut} (h : Agrees cut) {s mid : Str} (pre post : Str)
    (hs : s = pre ++ (mid ++ post)) {i n : Int} (hi : i = pre.length) (hn : n = mid.length) :
    cut s i (some n) = .ok mid := by
  rw [h s i (some n), substrCut, substr_eq pre post hs hi hn]
  refine ⟨by omega, ?_, fun k hk => ?_⟩
  · rw [hs, List.length_append]
    omega
  · rw [← Option.some_inj.mp hk]
    omega

/-- A call for what follows a prefix. -/
theorem Agrees.behind {cut : Cut} (h : Agrees cut) {s post : Str} (pre : Str) (hs : s = pre ++ post)
    {i : Int} (hi : i = pre.length) : cut s i none = .ok post := by
  rw [h s i none, substrCut, substrFrom_eq pre hs hi]
  refine ⟨by omega, ?_, fun k hk => nomatch hk⟩
  rw [hs, List.length_append]
  omega

/-! ## Types -/

/-- Every type name becomes a descriptor, which is not empty. -/
theorem makeBaseSig_ok (cpyStr : Str) (array : Nat) :
    ∃ sig, makeBaseSig cpyStr array = .ok sig ∧ sig ≠ [] := by
  have hsig (s : Str) (hs : s ≠ []) : makeSig s array ≠ [] :=
    fun h => hs (List.append_eq_nil_iff.mp h).2
  unfold makeBaseSig
  iterate 9
    split
    next => exact ⟨_, rfl, hsig _ (List.cons_ne_nil _ _)⟩
  rw [replaceAll_char (by decide), ok_bind]
  exact ⟨_, rfl, hsig _ (by simp)⟩

theorem convJavaType2SigType_ok (typeName : Str) :
    ∃ sig, convJavaType2SigType typeName = .ok sig ∧ sig ≠ [] := by
  rw [convJavaType2SigType]
  split
  next =>
    rw [replaceAll_char List.not_mem_nil, ok_bind, replaceAll_char List.not_mem_nil, ok_bind]
    exact makeBaseSig_ok _ _
  next => exact makeBaseSig_ok typeName 0

theorem mapM_convJavaType2SigType_ok (items : List Str) :
    ∃ types, items.mapM convJavaType2SigType = .ok types := by
  induction items with
  | nil => exact ⟨[], rfl⟩
  | cons item items ih =>
      obtain ⟨sig, hsig, -⟩ := convJavaType2SigType_ok item
      obtain ⟨types, htypes⟩ := ih
      exact ⟨sig :: types, by rw [List.mapM_cons, hsig, htypes]; rfl⟩

/-! ## The stages -/

/-- A search for the last space before the space at `p`, where that is not the first
character. -/
theorem findLastOfUpTo_before {pre : Str} (hpre : pre ≠ []) (rest : Str) :
    findLastOfUpTo (pre ++ ' ' :: rest) ' ' ((pre.length : Int) - 1) = findLastOf pre ' ' := by
  have hpos := List.length_pos_iff.mpr hpre
  have hlen : ((pre.length : Int) - 1).toNat + 1 = pre.length := by omega
  rw [findLastOfUpTo, if_neg (by omega), hlen, List.take_left]

/-- The result is read with calls in range, and is not empty. -/
theorem readResult_ok (pre rest : Str) (out : PrettyNameOut) :
    ∃ r, (∀ cut, Agrees cut → readResult cut (pre ++ ' ' :: rest) pre.length out = .ok r) ∧
      (r.1 = true → ∃ retType, retType ≠ [] ∧ r.2 = { out with retType }) := by
  by_cases hpre : pre = []
  · -- The search goes through the whole text, and the space it finds is no earlier one.
    subst hpre
    obtain ⟨k, hk⟩ : ∃ k, findLastOf (' ' :: rest) ' ' = some k :=
      Option.ne_none_iff_exists'.mp fun h => findLastOf_eq_none_iff.mp h List.mem_cons_self
    refine ⟨(false, out), fun cut _ => ?_, nofun⟩
    have hlast : findLastOfUpTo ([] ++ ' ' :: rest) ' ' ((([] : Str).length : Int) - 1) = some k :=
      hk
    rw [readResult, hlast, toInt_some]
    exact if_pos ⟨by omega, by rw [List.length_nil]; omega⟩
  · cases hlast : findLastOf pre ' ' with
    | none =>
        obtain ⟨sig, hsig, hne⟩ := convJavaType2SigType_ok pre
        refine ⟨(true, { out with retType := sig }), fun cut hcut => ?_, fun _ => ⟨sig, hne, rfl⟩⟩
        have hcall : cut (pre ++ ' ' :: rest) 0 (some pre.length) = .ok pre :=
          hcut.between [] (' ' :: rest) rfl rfl rfl
        rw [readResult, findLastOfUpTo_before hpre, hlast]
        simp only [toInt_none, ne_eq, not_true_eq_false, false_and, if_false, if_true]
        rw [hcall, ok_bind, if_neg hpre, hsig, ok_bind]
    | some k =>
        obtain ⟨front, ret, rfl, rfl, -⟩ := findLastOf_eq_some_append hlast
        by_cases hret : ret = []
        · refine ⟨(false, out), fun cut _ => ?_, nofun⟩
          rw [readResult, findLastOfUpTo_before hpre, hlast, toInt_some]
          refine if_pos ⟨by omega, ?_⟩
          rw [hret, List.length_append, List.length_singleton]
          omega
        · obtain ⟨sig, hsig, hne⟩ := convJavaType2SigType_ok ret
          refine ⟨(true, { out with retType := sig }), fun cut hcut => ?_, fun _ => ⟨sig, hne, rfl⟩⟩
          have hpos := List.length_pos_iff.mpr hret
          have hcall : cut (front ++ ' ' :: ret ++ ' ' :: rest) (front.length + 1)
              (some ((front ++ ' ' :: ret).length - front.length - 1)) = .ok ret := by
            refine hcut.between (front ++ [' ']) (' ' :: rest) (by simp) ?_ ?_
            · rw [List.length_append, List.length_singleton, Int.natCast_add]
              rfl
            · rw [List.length_append, List.length_cons]
              omega
          rw [readResult, findLastOfUpTo_before hpre, hlast, toInt_some, if_neg,
            if_neg (by omega), hcall, ok_bind, if_neg hret, hsig, ok_bind]
          rw [List.length_append, List.length_cons]
          omega

/-- A search for the last space up to the bracket. -/
theorem findLastOfUpTo_bracket (front post : Str) :
    findLastOfUpTo (front ++ '(' :: post) ' ' front.length = findLastOf front ' ' := by
  rw [findLastOfUpTo, if_neg (by omega), Int.toNat_natCast, List.take_length_add_append]
  cases hlast : findLastOf front ' ' with
  | none =>
      rw [findLastOf_eq_none_iff] at hlast ⊢
      simpa using hlast
  | some k =>
      obtain ⟨pre, mid, rfl, rfl, hmid⟩ := findLastOf_eq_some_append hlast
      rw [List.append_assoc, List.cons_append]
      exact findLastOf_append pre (by simpa using hmid)

/-- The names are read with calls in range, and are not empty. -/
theorem readNames_ok (pre mid rest : Str) (out : PrettyNameOut) :
    ∃ r, (∀ cut, Agrees cut → readNames cut (pre ++ ' ' :: rest) pre.length mid out = .ok r) ∧
      (r.1 = true → mid = r.2.className ++ '.' :: r.2.methodName ∧ r.2.className ≠ [] ∧
        r.2.methodName ≠ [] ∧ r.2.retType ≠ []) := by
  by_cases hmid : mid = []
  · exact ⟨(false, out), fun cut _ => if_pos hmid, nofun⟩
  · cases hpoint : findLastOf mid '.' with
    | none =>
        refine ⟨(false, out), fun cut _ => ?_, nofun⟩
        rw [readNames, if_neg hmid, hpoint]
        exact if_pos rfl
    | some k =>
        obtain ⟨className, methodName, rfl, rfl, -⟩ := findLastOf_eq_some_append hpoint
        have hmethod {cut : Cut} (hcut : Agrees cut) :
            cut (className ++ '.' :: methodName) (className.length + 1) none = .ok methodName :=
          hcut.behind (className ++ ['.']) (by simp) (by simp)
        have hclass {cut : Cut} (hcut : Agrees cut) :
            cut (className ++ '.' :: methodName) 0 (some className.length) = .ok className :=
          hcut.between [] ('.' :: methodName) rfl rfl rfl
        by_cases hempty : methodName = [] ∨ className = []
        · refine ⟨(false, { out with methodName, className }), fun cut hcut => ?_, nofun⟩
          rw [readNames, if_neg hmid, hpoint, toInt_some]
          dsimp only
          rw [if_neg (by omega), hmethod hcut, ok_bind, hclass hcut, ok_bind, if_pos hempty]
        · obtain ⟨r, hread, htrue⟩ := readResult_ok pre rest { out with methodName, className }
          refine ⟨r, fun cut hcut => ?_, fun hr => ?_⟩
          · rw [readNames, if_neg hmid, hpoint, toInt_some]
            dsimp only
            rw [if_neg (by omega), hmethod hcut, ok_bind, hclass hcut, ok_bind, if_neg hempty]
            exact hread cut hcut
          · obtain ⟨retType, hret, hr⟩ := htrue hr
            rw [not_or] at hempty
            rw [hr]
            exact ⟨rfl, hempty.2, hempty.1, hret⟩

/-- What the parser says of a text when it returns `true`. -/
structure ReadFrom (decl : Str) (out : PrettyNameOut) : Prop where
  className : out.className ≠ []
  methodName : out.methodName ≠ []
  retType : out.retType ≠ []
  /-- The qualified name is between the last space before the first bracket and that
  bracket. -/
  qualified : ∃ pre post,
    decl = pre ++ ' ' :: (out.className ++ '.' :: out.methodName) ++ '(' :: post ∧
      '(' ∉ pre ++ ' ' :: (out.className ++ '.' :: out.methodName) ∧
      ' ' ∉ out.className ++ '.' :: out.methodName

/-- The qualified name is read with calls in range. -/
theorem readQualified_ok {front : Str} (hfront : '(' ∉ front) (post : Str) (out : PrettyNameOut) :
    ∃ r, (∀ cut, Agrees cut →
        readQualified cut (front ++ '(' :: post) front.length out = .ok r) ∧
      (r.1 = true → ReadFrom (front ++ '(' :: post) r.2) := by
  cases hlast : findLastOf front ' ' with
  | none =>
      refine ⟨(false, out), fun cut _ => ?_, nofun⟩
      rw [readQualified, findLastOfUpTo_bracket, hlast]
      exact if_pos (.inr rfl)
  | some k =>
      obtain ⟨pre, mid, rfl, rfl, hspace⟩ := findLastOf_eq_some_append hlast
      have hlen : ((pre ++ ' ' :: mid).length : Int) = pre.length + 1 + mid.length := by
        rw [List.length_append, List.length_cons]
        omega
      by_cases hmid : mid = []
      · refine ⟨(false, out), fun cut _ => ?_, nofun⟩
        rw [readQualified, findLastOfUpTo_bracket, hlast, hlen, hmid, toInt_some]
        exact if_pos (.inl (by rw [List.length_nil]; omega))
      · have hpos := List.length_pos_iff.mpr hmid
        obtain ⟨r, hread, htrue⟩ := readNames_ok pre mid (mid ++ '(' :: post) out
        refine ⟨r, fun cut hcut => ?_, fun hr => ?_⟩
        · have hcall : cut (pre ++ ' ' :: mid ++ '(' :: post) (pre.length + 1)
              (some (pre.length + 1 + mid.length - pre.length - 1)) = .ok mid :=
            hcut.between (pre ++ [' ']) ('(' :: post) (by simp) (by simp) (by omega)
          have hnames := hread cut hcut
          rw [← List.cons_append, ← List.append_assoc] at hnames
          rw [readQualified, findLastOfUpTo_bracket, hlast, hlen, toInt_some, if_neg (by omega),
            hcall, ok_bind, hnames]
        · obtain ⟨hcut, hclass, hmethod, hret⟩ := htrue hr
          rw [hcut] at hfront hspace
          exact ⟨hclass, hmethod, hret, pre, post, by rw [← hcut], hfront, hspace⟩

/-- Every call of `substr` by `parse_java_pretty_name` starts in its string and asks
for no negative length, so the parser returns, and so it does with its `int`s on a text
shorter than `2^31`.  Where it returns `true`, the names and the result are not empty, and
the names are the text between the last space before the first bracket and that bracket. -/
theorem parseJavaPrettyName_safe (decl : Str) (out : PrettyNameOut) :
    ∃ r, parseJavaPrettyName decl out = .ok r ∧ parsePrettyNameWith checkedCut decl out = .ok r ∧
      (decl.length < 2147483648 → parseJavaPrettyNameInt decl out = .ok r) ∧
      (r.1 = true → ReadFrom decl r.2) := by
  suffices h : ∃ r, (∀ cut, Agrees cut → parsePrettyNameWith cut decl out = .ok r) ∧
      (r.1 = true → ReadFrom decl r.2) by
    obtain ⟨r, hread, htrue⟩ := h
    have hok : parseJavaPrettyName decl out = .ok r := hread substrCut agrees_substrCut
    exact ⟨r, hok, hread checkedCut agrees_checkedCut,
      fun hlen => by rw [parseJavaPrettyNameInt_of_lt hlen, hok], htrue⟩
  by_cases hcount : decl.count ' ' < 1
  · exact ⟨(false, out), fun cut _ => if_pos hcount, nofun⟩
  · by_cases hpos : toInt (find decl [')']) - toInt (find decl ['(']) < 1 ∨
        toInt (find decl ['(']) = -1 ∨ toInt (find decl [')']) = -1
    · refine ⟨(false, out), fun cut _ => ?_, nofun⟩
      rw [parsePrettyNameWith, if_neg hcount]
      exact if_pos hpos
    · have hbrackets := hpos
      rw [not_or, not_or] at hbrackets
      obtain ⟨horder, hopen, hclose⟩ := hbrackets
      obtain ⟨hopen0, hopenLt⟩ := toInt_find_lt hopen
      obtain ⟨args, hargs⟩ := substr_ok (n := toInt (find decl [')']) - toInt (find decl ['(']) - 1)
        (Int.le_add_one hopen0) (Int.add_one_le_of_lt hopenLt)
      obtain ⟨items, hitems⟩ := stringSplit_ok (List.cons_ne_nil ',' []) (substChar ' ' [] args)
      obtain ⟨types, htypes⟩ := mapM_convJavaType2SigType_ok items
      have hread (cut : Cut) (hcut : Agrees cut) : parsePrettyNameWith cut decl out =
          readQualified cut decl (toInt (find decl ['('])) { out with argsType := types } := by
        have hcall : cut decl (toInt (find decl ['(']) + 1)
            (some (toInt (find decl [')']) - toInt (find decl ['(']) - 1)) = .ok args :=
          (hcut _ _ _ ⟨by omega, by omega, fun k hk => by
            rw [← Option.some_inj.mp hk]; omega⟩).trans hargs
        rw [parsePrettyNameWith, if_neg hcount]
        dsimp only
        rw [if_neg hpos, hcall, ok_bind, replaceAll_char List.not_mem_nil, ok_bind, hitems, ok_bind,
          htypes, ok_bind]
      cases hfind : find decl ['('] with
      | none => exact absurd (by rw [hfind, toInt_none]) hopen
      | some k =>
          obtain ⟨front, post, hdecl, rfl⟩ := find_eq_some_append hfind
          have hfront : '(' ∉ front := by
            rw [← List.singleton_infix_iff]
            refine not_infix_of_find hfind ⟨'(' :: post, ?_⟩ (Nat.lt_succ_self _)
            rw [hdecl, List.append_assoc, List.singleton_append]
          rw [List.append_assoc, List.singleton_append] at hdecl
          rw [hfind, toInt_some] at hread
          subst hdecl
          obtain ⟨r, hqualified, htrue⟩ :=
            readQualified_ok hfront post { out with argsType := types }
          exact ⟨r, fun cut hcut => (hread cut hcut).trans (hqualified cut hcut), htrue⟩

end HookJni
