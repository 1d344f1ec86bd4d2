import AndroidAnalysis.HookJni.ParseJavaSig
import AndroidAnalysis.HookJni.JavaTypes

/-!
# Reading a printed method

`parse_java_pretty_name` reads back what `JavaMethod.print` writes, with either
separator: the virtual machine prints `", "` between parameters and
`Method.toString` prints `","`, and the parser drops the spaces first.

The parser looks for the first bracket, then for the spaces and the dot before
it, so each step is a search in a text that is known to its end:
`find_char_append` and `findLastOf_append` answer them.
-/

namespace HookJni

open Cpp Words Utils

/-! ## Types -/

theorem makeBaseSig_prim (p : Prim) (k : Nat) :
    makeBaseSig p.keyword k = .ok (List.replicate k '[' ++ [p.letter]) := by
  cases p <;> rfl

/-- A class name falls through the keywords. -/
theorem makeBaseSig_cls (n : ClassName) (k : Nat) :
    makeBaseSig n.chars k = .ok (List.replicate k '[' ++ ('L' :: n.slash ++ [';'])) := by
  have hv : n.chars ≠ "void".toList := fun h => n.not_keyword (h ▸ List.mem_cons_self)
  have hp (p : Prim) : n.chars ≠ p.keyword := fun h => n.not_keyword (h ▸ p.keyword_mem)
  have hslash : substChar '.' ['/'] n.chars = n.slash := by
    rw [ClassName.slash, substChar, List.map_eq_flatMap]
    congr 1
    funext c
    split <;> rfl
  refine (if_neg hv).trans <| (if_neg (hp .boolean)).trans <| (if_neg (hp .byte)).trans <|
    (if_neg (hp .char)).trans <| (if_neg (hp .short)).trans <| (if_neg (hp .int)).trans <|
    (if_neg (hp .long)).trans <| (if_neg (hp .float)).trans <| (if_neg (hp .double)).trans ?_
  rw [replaceAll_char (by decide), hslash]
  rfl

theorem makeBaseSig_base (b : BaseType ClassName) (k : Nat) :
    makeBaseSig (b.javaName ClassName.chars) k =
      .ok (List.replicate k '[' ++ b.descriptor ClassName.slash) := by
  cases b with
  | prim p => exact makeBaseSig_prim p k
  | cls n => exact makeBaseSig_cls n k

theorem BaseType.javaName_plain (b : BaseType ClassName) : Plain (b.javaName ClassName.chars) := by
  cases b with
  | prim p => exact p.keyword_plain
  | cls n => exact n.plain

/-- The brackets of a type, dropped one kind after the other. -/
theorem substChar_brackets (k : Nat) :
    substChar ']' [] (substChar '[' [] (List.replicate k ['[', ']']).flatten) = [] := by
  induction k with
  | zero => rfl
  | succ k ih =>
      rw [List.replicate_succ, List.flatten_cons, substChar_append, substChar_append, ih]
      rfl

theorem count_brackets (k : Nat) : (List.replicate k ['[', ']']).flatten.count '[' = k := by
  induction k with
  | zero => rfl
  | succ k ih =>
      rw [List.replicate_succ, List.flatten_cons, List.count_append, ih, Nat.add_comm]
      rfl

/-- A Java type name becomes its descriptor. -/
theorem convJavaType2SigType_javaName (t : JavaType ClassName) :
    convJavaType2SigType (t.javaName ClassName.chars) = .ok (t.descriptor ClassName.slash) := by
  obtain ⟨dim, b⟩ := t
  have hopen : '[' ∉ b.javaName ClassName.chars := b.javaName_plain.notMem (by decide)
  have hclose : ']' ∉ b.javaName ClassName.chars := b.javaName_plain.notMem (by decide)
  cases dim with
  | zero =>
      show convJavaType2SigType (_ ++ []) = _
      rw [List.append_nil, convJavaType2SigType, find_char_of_notMem hopen, if_neg (by simp),
        makeBaseSig_base]
      rfl
  | succ k =>
      have hfind (c : Char) (hc : c ∈ ['[', ']']) : find (JavaType.javaName ClassName.chars
          ⟨k + 1, b⟩) [c] ≠ none := by
        rw [Ne, find_eq_none_iff, not_not, List.singleton_infix_iff, JavaType.javaName,
          List.replicate_succ, List.flatten_cons, List.mem_append, List.mem_append]
        exact .inr (.inl hc)
      have hcount : (JavaType.javaName ClassName.chars ⟨k + 1, b⟩).count '[' = k + 1 := by
        rw [JavaType.javaName, List.count_append, count_brackets,
          List.count_eq_zero_of_not_mem hopen, Nat.zero_add]
      rw [convJavaType2SigType, if_pos ⟨hfind '[' (by decide), hfind ']' (by decide)⟩, hcount,
        replaceAll_char (by decide)]
      show (replaceAll _ _ _ >>= fun s => _) = _
      rw [replaceAll_char (by decide), JavaType.javaName, substChar_append,
        substChar_append, substChar_brackets, substChar_of_notMem hopen, substChar_of_notMem hclose,
        List.append_nil]
      exact makeBaseSig_base b (k + 1)

/-- The name of a result becomes its descriptor. -/
theorem convJavaType2SigType_retName (r : Option (JavaType ClassName)) :
    convJavaType2SigType (retName r) = .ok (retDescriptor r) := by
  cases r with
  | none => rfl
  | some t => exact convJavaType2SigType_javaName t

/-! ## The parameters -/

theorem JavaType.javaName_notMem (t : JavaType ClassName) {c : Char} (hc : c ∈ stops)
    (hb : c ∉ ['[', ']']) : c ∉ t.javaName ClassName.chars := by
  rw [JavaType.javaName, List.mem_append, not_or]
  refine ⟨t.base.javaName_plain.notMem hc, fun h => ?_⟩
  obtain ⟨l, hl, hcl⟩ := List.mem_flatten.mp h
  rw [List.eq_of_mem_replicate hl] at hcl
  exact hb hcl

theorem JavaType.javaName_ne_nil (t : JavaType ClassName) : t.javaName ClassName.chars ≠ [] :=
  List.append_ne_nil_of_left_ne_nil t.base.javaName_plain.1 _

theorem retName_notMem (r : Option (JavaType ClassName)) {c : Char} (hc : c ∈ stops)
    (hb : c ∉ ['[', ']']) : c ∉ retName r := by
  cases r with
  | some t => exact t.javaName_notMem hc hb
  | none =>
      intro h
      have hv : Plain (retName none) := by decide
      exact hv.2 c h hc

theorem retName_ne_nil (r : Option (JavaType ClassName)) : retName r ≠ [] := by
  cases r with
  | some t => exact t.javaName_ne_nil
  | none => decide

/-- The separators a method is printed with. -/
def IsSeparator (sep : Str) : Prop := sep = [','] ∨ sep = [',', ' ']

/-- Without its spaces, either separator is a comma. -/
theorem substChar_space_intercalate {sep : Str} (hsep : IsSeparator sep) (fields : List Str)
    (h : ∀ f ∈ fields, ' ' ∉ f) :
    substChar ' ' [] (sep.intercalate fields) = [','].intercalate fields := by
  have hcomma : substChar ' ' [] sep = [','] := by
    cases hsep with
    | inl h => rw [h]; rfl
    | inr h => rw [h]; rfl
  induction fields with
  | nil => rfl
  | cons f fs ih =>
      have hf := substChar_of_notMem (h f List.mem_cons_self) []
      cases fs with
      | nil => rw [List.intercalate_singleton, List.intercalate_singleton, hf]
      | cons g gs =>
          rw [List.intercalate_cons_cons, List.intercalate_cons_cons, substChar_append,
            substChar_append, hf, hcomma, ih fun x hx => h x (List.mem_cons_of_mem f hx)]

theorem mapM_javaName (ts : List (JavaType ClassName)) :
    (ts.map (JavaType.javaName ClassName.chars)).mapM convJavaType2SigType =
      .ok (ts.map (JavaType.descriptor ClassName.slash)) := by
  induction ts with
  | nil => rfl
  | cons t ts ih =>
      rw [List.map_cons, List.mapM_cons, convJavaType2SigType_javaName, ih]
      rfl

section
variable (ts : List (JavaType ClassName))

theorem javaNames_notMem {c : Char} (hc : c ∈ stops) (hb : c ∉ ['[', ']']) :
    ∀ f ∈ ts.map (JavaType.javaName ClassName.chars), c ∉ f := by
  intro f hf
  obtain ⟨t, -, rfl⟩ := List.mem_map.mp hf
  exact t.javaName_notMem hc hb

/-- The text between the brackets, without its spaces. -/
theorem replaceAll_params {sep : Str} (hsep : IsSeparator sep) :
    replaceAll (sep.intercalate (ts.map (JavaType.javaName ClassName.chars))) [' '] [] =
      .ok ([','].intercalate (ts.map (JavaType.javaName ClassName.chars))) := by
  rw [replaceAll_char List.not_mem_nil,
    substChar_space_intercalate hsep _ (javaNames_notMem ts (by decide) (by decide))]

/-- The parameters, cut at the commas. -/
theorem stringSplit_params :
    stringSplit ([','].intercalate (ts.map (JavaType.javaName ClassName.chars))) [','] =
      .ok (ts.map (JavaType.javaName ClassName.chars)) := by
  refine stringSplit_intercalate _ (javaNames_notMem ts (by decide) (by decide)) fun hlast => ?_
  obtain ⟨t, -, ht⟩ := List.mem_map.mp (List.mem_of_getLast? hlast)
  exact t.javaName_ne_nil ht

/-- No closing bracket comes before the one that ends the parameters. -/
theorem params_notMem_close {sep : Str} (hsep : IsSeparator sep) :
    ')' ∉ sep.intercalate (ts.map (JavaType.javaName ClassName.chars)) := by
  refine notMem_intercalate ?_ _ (javaNames_notMem ts (by decide) (by decide))
  cases hsep with
  | inl h => rw [h]; decide
  | inr h => rw [h]; decide

end

/-! ## The whole text -/

/-- The text before a result: empty, or ended by a space. -/
def EndsAtSpace (pre : Str) : Prop := pre = [] ∨ ∃ q, pre = q ++ [' ']

/-- The result is read back from the spaces around it. -/
theorem retType_read {pre r : Str} (hpre : EndsAtSpace pre) (hr : ' ' ∉ r) (hne : r ≠ [])
    (rest : Str) :
    let p : Int := ((pre ++ r).length : Nat)
    let p2 := toInt (findLastOfUpTo (pre ++ r ++ rest) ' ' (p - 1))
    ¬ (p2 ≠ -1 ∧ p - p2 - 1 < 1) ∧
      (if p2 = -1 then substr (pre ++ r ++ rest) 0 p
        else substr (pre ++ r ++ rest) (p2 + 1) (p - p2 - 1)) = .ok r := by
  have hlen : 0 < r.length := List.length_pos_iff.mpr hne
  intro p p2
  have htake : findLastOfUpTo (pre ++ r ++ rest) ' ' (p - 1) = findLastOf (pre ++ r) ' ' := by
    have hp : ((p - 1).toNat + 1) = (pre ++ r).length := by
      simp only [p, List.length_append]; omega
    rw [findLastOfUpTo, if_neg (by simp only [p, List.length_append]; omega), hp, List.take_left]
  cases hpre with
  | inl h =>
      subst h
      have hp2 : p2 = -1 := by
        show toInt (findLastOfUpTo _ _ _) = _
        rw [htake, List.nil_append, findLastOf_eq_none_iff.mpr hr, toInt_none]
      rw [hp2, if_pos rfl]
      refine ⟨fun h => h.1 rfl, ?_⟩
      exact substr_eq [] rest rfl rfl rfl
  | inr h =>
      obtain ⟨q, rfl⟩ := h
      have hp2 : p2 = (q.length : Int) := by
        show toInt (findLastOfUpTo _ _ _) = _
        rw [htake, List.append_assoc, List.singleton_append, findLastOf_append q hr, toInt_some]
      have hlp : p - p2 - 1 = (r.length : Int) := by
        rw [hp2]; simp only [p, List.length_append, List.length_singleton]; omega
      rw [hlp, if_neg (by omega)]
      refine ⟨by omega, substr_eq _ rest (List.append_assoc _ _ _) ?_ rfl⟩
      rw [hp2, List.length_append, List.length_singleton, Int.natCast_add]
      rfl

/-- The text before a qualified name ends at a space and has no brackets. -/
theorem mods_endsAtSpace (mods : List Str) : EndsAtSpace (mods.flatMap (· ++ [' '])) := by
  induction mods using List.reverseRecOn with
  | nil => exact .inl rfl
  | append_singleton ms x _ =>
      refine .inr ⟨ms.flatMap (· ++ [' ']) ++ x, ?_⟩
      rw [List.flatMap_append, List.flatMap_singleton, List.append_assoc]

theorem mods_notMem {mods : List Str} (h : ∀ x ∈ mods, Plain x) {c : Char} (hc : c ∈ stops)
    (hs : c ≠ ' ') : c ∉ mods.flatMap (· ++ [' ']) := by
  intro hmem
  obtain ⟨x, hx, hcx⟩ := List.mem_flatMap.mp hmem
  rw [List.mem_append, List.mem_singleton] at hcx
  exact hcx.elim ((h x hx).notMem hc) hs

/-- `parse_java_pretty_name` on a text in its parts. -/
theorem parseJavaPrettyName_text {pre r cls name args tail : Str} (hpre : EndsAtSpace pre)
    (hr : ' ' ∉ r) (hne : r ≠ []) (hcls : Plain cls) (hname : Plain name) (hdot : '.' ∉ name)
    (hopen : '(' ∉ pre ++ r) (hclose : ')' ∉ pre ++ r) (hargs : ')' ∉ args)
    {items types : List Str} {ret spaceless : Str} (hspace : replaceAll args [' '] [] = .ok spaceless)
    (hsplit : stringSplit spaceless [','] = .ok items)
    (htypes : items.mapM convJavaType2SigType = .ok types)
    (hret : convJavaType2SigType r = .ok ret) (out : PrettyNameOut) :
    parseJavaPrettyName
        (pre ++ r ++ ' ' :: (cls ++ '.' :: name ++ '(' :: (args ++ ')' :: tail))) out =
      .ok (true, ⟨cls, name, types, ret⟩) := by
  have hmid {c : Char} (hc : c ∈ stops) : c ∉ cls ++ '.' :: name := by
    rw [List.mem_append, List.mem_cons, not_or, not_or]
    exact ⟨hcls.notMem hc, fun h => absurd hc (h ▸ by decide), hname.notMem hc⟩
  generalize hcm : cls ++ '.' :: name = classMethod at hmid ⊢
  have hcm' : classMethod ≠ [] := by rw [← hcm]; simp
  -- The text, cut at each of the places the parser looks for.
  generalize hdecl : pre ++ r ++ ' ' :: (classMethod ++ '(' :: (args ++ ')' :: tail)) = decl
  have hcutOpen : decl = (pre ++ r ++ ' ' :: classMethod) ++ '(' :: (args ++ ')' :: tail) := by
    rw [← hdecl]; simp only [List.append_assoc, List.cons_append]
  have hcutClose : decl = (pre ++ r ++ ' ' :: classMethod ++ '(' :: args) ++ ')' :: tail := by
    rw [← hdecl]; simp only [List.append_assoc, List.cons_append]
  have hfront {c : Char} (hc : c ∈ stops) (hs : c ≠ ' ') (h : c ∉ pre ++ r) :
      c ∉ pre ++ r ++ ' ' :: classMethod := by
    rw [List.mem_append, List.mem_cons, not_or, not_or]
    exact ⟨h, hs, hmid hc⟩
  -- The searches.
  have hstart := find_char_append (args ++ ')' :: tail) (hfront (by decide) (by decide) hopen)
  have hend : find decl [')'] = _ := hcutClose ▸ find_char_append tail (by
    rw [List.mem_append, List.mem_cons, not_or, not_or]
    exact ⟨hfront (by decide) (by decide) hclose, by decide, hargs⟩)
  rw [← hcutOpen] at hstart
  have hlast : findLastOfUpTo decl ' ' (pre ++ r ++ ' ' :: classMethod).length =
      some (pre ++ r).length := by
    rw [findLastOfUpTo, if_neg (by omega), Int.toNat_natCast, hcutOpen, List.take_length_add_append,
      List.append_assoc (pre ++ r), List.cons_append]
    refine findLastOf_append _ ?_
    rw [List.mem_append, not_or]
    exact ⟨hmid (by decide), by simp⟩
  have hpoint : findLastOf classMethod '.' = some cls.length := hcm ▸ findLastOf_append cls hdot
  -- The texts between them.
  obtain ⟨hgap, hretText⟩ := retType_read hpre hr hne
    (' ' :: (classMethod ++ '(' :: (args ++ ')' :: tail)))
  rw [hdecl] at hgap hretText
  have hlen : 0 < classMethod.length := List.length_pos_iff.mpr hcm'
  generalize hP : ((pre ++ r).length : Int) = P at *
  generalize hS : ((pre ++ r ++ ' ' :: classMethod).length : Int) = S at *
  generalize hE : ((pre ++ r ++ ' ' :: classMethod ++ '(' :: args).length : Int) = E at *
  have hSP : S = P + 1 + classMethod.length := by
    rw [← hS, ← hP]; simp only [List.length_append, List.length_cons]; omega
  have hES : E = S + 1 + args.length := by
    rw [← hS, ← hE]; simp only [List.length_append, List.length_cons]; omega
  have hargsText : substr decl (S + 1) (E - S - 1) = .ok args :=
    substr_eq (pre ++ r ++ ' ' :: classMethod ++ ['(']) (')' :: tail) (by simpa using hcutOpen)
      (by rw [List.length_append, ← hS]; rfl) (by omega)
  have hmidText : substr decl (P + 1) (S - P - 1) = .ok classMethod :=
    substr_eq (pre ++ r ++ [' ']) ('(' :: (args ++ ')' :: tail)) (by simp [← hdecl])
      (by rw [List.length_append, ← hP]; rfl) (by omega)
  have hnameText : substrFrom classMethod (cls.length + 1) = .ok name :=
    substrFrom_eq (cls ++ ['.']) (by simp [← hcm]) (by simp)
  have hclsText : substr classMethod 0 cls.length = .ok cls :=
    substr_eq [] ('.' :: name) hcm.symm rfl rfl
  rw [parseJavaPrettyName, if_neg (by rw [← hdecl]; simp)]
  simp only [hstart, hend, hlast, toInt_some, hE, hS, hP]
  rw [if_neg (by omega), hargsText, ok_bind, hspace, ok_bind, hsplit, ok_bind, htypes, ok_bind,
    if_neg (by omega), hmidText, ok_bind, if_neg hcm', hpoint, toInt_some, if_neg (by omega),
    hnameText, ok_bind, hclsText, ok_bind, if_neg (not_or.mpr ⟨hname.1, hcls.1⟩), if_neg hgap,
    hretText, ok_bind, if_neg hne, hret, ok_bind]

/-- `parse_java_pretty_name` reads back a printed method. -/
theorem parseJavaPrettyName_print (m : JavaMethod) {mods : List Str} (hmods : ∀ x ∈ mods, Plain x)
    {sep : Str} (hsep : IsSeparator sep) (tail : Str) (out : PrettyNameOut) :
    parseJavaPrettyName (m.print mods sep tail) out = .ok (true,
      ⟨m.className.chars, m.methodName.chars, m.descriptors, retDescriptor m.ret⟩) := by
  have hfront {c : Char} (hc : c ∈ ['(', ')']) : c ∉ mods.flatMap (· ++ [' ']) ++ retName m.ret := by
    have hstop : c ∈ stops ∧ c ∉ ['[', ']'] ∧ c ≠ ' ' := by
      revert c; decide
    rw [List.mem_append, not_or]
    exact ⟨mods_notMem hmods hstop.1 hstop.2.2, retName_notMem m.ret hstop.1 hstop.2.1⟩
  exact parseJavaPrettyName_text (mods_endsAtSpace mods) (retName_notMem m.ret (by decide) (by decide))
    (retName_ne_nil m.ret) m.className.plain m.methodName.plain m.methodName.not_dotted
    (hfront (by decide)) (hfront (by decide)) (params_notMem_close m.params hsep)
    (replaceAll_params m.params hsep) (stringSplit_params m.params) (mapM_javaName m.params)
    (convJavaType2SigType_retName m.ret) out

end HookJni
