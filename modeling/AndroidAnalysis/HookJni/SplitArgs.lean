import AndroidAnalysis.HookJni.DescriptorPositions
import AndroidAnalysis.HookJni.JavaTypes

/-!
# What a run of descriptors is split into

`split_args_sig` gives back the descriptors it is given, except that it drops
the brackets of an array of a class.  For a list that holds no such array the
split undoes the joining, and any list it returns holds none.

`parse_java_signature` reads its text up to a NUL and keeps the places of the
parentheses in an `int`, so it gives a signature back where nothing of it holds a NUL
and what is in front of the result is shorter than `2^31`.
-/

namespace HookJni

open Cpp

/-! ## What is returned -/

/-- A string `split_args_sig` can return: brackets and the letter of a primitive,
or a class. -/
def SplitPart (d : Str) : Prop :=
  (∃ k c, isJavaBaseArgsSig c ∧ d = List.replicate k '[' ++ [c]) ∨ d.head? = some 'L'

/-- The entry of a descriptor can be returned. -/
theorem IsDescriptor.splitPart {d : Str} (h : IsDescriptor d) : SplitPart (entryOf d) := by
  obtain ⟨k, base, hbase, rfl⟩ := h
  cases hbase with
  | @letter c hc => exact .inl ⟨k, c, mem_baseLetters.mp hc, entryOf_letter k hc⟩
  | cls =>
      rw [entryOf_cls]
      exact .inr rfl

/-- What is split off a text, which is read up to its NUL. -/
theorem splitArgsSig_parts {s : Str} {r : List Str} (h : splitArgsSig s [] = .ok (true, r)) :
    (∀ d ∈ r, SplitPart d) ∧ ∀ c, c ≠ '[' → r.flatten.count c = (cStr s).count c := by
  obtain ⟨ds, ⟨hds, hflat⟩, rfl⟩ := splitArgsSig_eq_ok.mp h
  rw [List.nil_append]
  refine ⟨fun d hd => ?_, fun c hc => ?_⟩
  · obtain ⟨d', hd', rfl⟩ := List.mem_map.mp hd
    exact (hds d' hd').splitPart
  · rw [← hflat, List.count_flatten, List.count_flatten, List.map_map]
    congr 1
    exact List.map_congr_left fun d _ => count_entryOf d hc

/-! ## What is read back -/

section
variable {N : Type}

/-- An array of a class. -/
def JavaType.IsClassArray (t : JavaType N) : Prop :=
  match t.base with
  | .prim _ => False
  | .cls _ => t.dim ≠ 0

/-- A string that can be returned is no descriptor of an array of a class. -/
theorem SplitPart.not_isClassArray {t : JavaType N} {slash : N → Str}
    (h : SplitPart (t.descriptor slash)) : ¬ t.IsClassArray := by
  obtain ⟨dim, base⟩ := t
  cases base with
  | prim p => exact id
  | cls name =>
      intro hdim
      obtain ⟨k, c, hc, heq⟩ | hhead := h
      · have hlast := congrArg List.getLast? heq
        rw [JavaType.descriptor, BaseType.descriptor, ← List.append_assoc, List.getLast?_concat,
          List.getLast?_concat, Option.some_inj] at hlast
        rw [← hlast] at hc
        exact nomatch hc
      · obtain ⟨k, rfl⟩ := Nat.exists_eq_succ_of_ne_zero hdim
        exact absurd (Option.some_inj.mp hhead) (by decide)

/-- The descriptor of a type is one. -/
theorem JavaType.isDescriptor {slash : N → Str} (hslash : ∀ n, ';' ∉ slash n) (t : JavaType N) :
    IsDescriptor (t.descriptor slash) := by
  obtain ⟨dim, base⟩ := t
  cases base with
  | prim p => exact ⟨dim, [p.letter], .letter (by cases p <;> decide), rfl⟩
  | cls name => exact ⟨dim, _, .cls (hslash name), rfl⟩

theorem JavaType.entryOf_descriptor {t : JavaType N} (ht : ¬ t.IsClassArray) (slash : N → Str) :
    entryOf (t.descriptor slash) = t.descriptor slash := by
  obtain ⟨dim, base⟩ := t
  cases base with
  | prim p => exact entryOf_letter dim (by cases p <;> decide)
  | cls name =>
      obtain rfl : dim = 0 := not_not.mp ht
      exact entryOf_cls 0 (slash name)

/-- `split_args_sig` undoes the joining of descriptors. -/
theorem splitArgsSig_descriptors {slash : N → Str} {ts : List (JavaType N)}
    (hts : ∀ t ∈ ts, ¬ t.IsClassArray) (hslash : ∀ n, ';' ∉ slash n)
    (hnul : '\x00' ∉ (ts.map (JavaType.descriptor slash)).flatten) (ret : List Str) :
    splitArgsSig (ts.map (JavaType.descriptor slash)).flatten ret =
      .ok (true, ret ++ ts.map (JavaType.descriptor slash)) := by
  refine splitArgsSig_eq_ok.mpr ⟨ts.map (JavaType.descriptor slash), ⟨fun d hd => ?_, ?_⟩, ?_⟩
  · obtain ⟨t, -, rfl⟩ := List.mem_map.mp hd
    exact t.isDescriptor hslash
  · rw [cStr_eq hnul]
  · rw [List.map_map]
    congr 1
    exact List.map_congr_left fun t ht => (JavaType.entryOf_descriptor (hts t ht) slash).symm

/-! ## A signature -/

/-- A signature in its parts is split between its parentheses. -/
theorem parseJavaSignatureInt_eq {args ret : Str} (hclose : ')' ∉ args) (hargs : '\x00' ∉ args)
    (hret : '\x00' ∉ ret) (hlen : args.length + 2 < 2147483648) :
    parseJavaSignatureInt ('(' :: args ++ ')' :: ret) ⟨[], []⟩ =
      splitArgsSig args [] >>= fun split =>
        .ok (split.1, ⟨split.2, if split.1 then ret else []⟩) := by
  have hnul : cStr ('(' :: args ++ ')' :: ret) = '(' :: args ++ ')' :: ret :=
    cStr_eq (by simp [hargs, hret])
  have hfirst : asInt (toInt (find ('(' :: args ++ ')' :: ret) ['('])) = 0 := rfl
  have hlast : asInt (toInt (find ('(' :: args ++ ')' :: ret) [')'])) = args.length + 1 := by
    rw [find_char_append ret, toInt_some, List.length_cons, asInt_of_isInt]
    · rfl
    · rw [IsInt]
      omega
    · rw [List.mem_cons, not_or]
      exact ⟨by decide, hclose⟩
  have hcut : substr ('(' :: args ++ ')' :: ret) 1 args.length = .ok args :=
    substr_eq ['('] (')' :: ret) rfl rfl rfl
  have hrest : substrFrom ('(' :: args ++ ')' :: ret) (args.length + 1 + 1) = .ok ret :=
    substrFrom_eq ('(' :: args ++ [')']) (by simp) (by simp)
  have hsplit : (if args ≠ [] then splitArgsSigInt args [] else .ok (true, [])) =
      splitArgsSig args [] := by
    split
    next =>
      refine splitArgsSigInt_of_readInInt (.inl ?_)
      rw [cStr_eq hargs]
      omega
    next hnil => rw [not_not.mp hnil]; rfl
  have hgap : intResult ((args.length + 1 : Int) - 0) = .ok (args.length + 1 : Int) := by
    rw [Int.sub_zero, intResult_of_isInt (by rw [IsInt]; omega)]
  have hn : intResult ((args.length + 1 : Int) - 1) = .ok (args.length : Int) := by
    rw [Int.add_sub_cancel, intResult_of_isInt (by rw [IsInt]; omega)]
  have hbehind : intResult ((args.length + 1 : Int) + 1) = .ok (args.length + 1 + 1 : Int) :=
    intResult_of_isInt (by rw [IsInt]; omega)
  rw [parseJavaSignatureInt, hnul]
  dsimp only
  rw [hfirst, hlast, if_neg (by omega), intResult_of_isInt (by decide), ok_bind, hgap, ok_bind, hn,
    ok_bind, show (0 : Int) + 1 = 1 from rfl, hcut, ok_bind, hsplit]
  obtain ⟨⟨done, types⟩, hread⟩ := splitArgsSig_ok args []
  rw [hread, ok_bind, ok_bind]
  cases done with
  | true => rw [if_neg (by simp), hbehind, ok_bind, hrest]; rfl
  | false => rfl

/-- A signature that is read has its result behind the first `)`. -/
theorem parseJavaSignatureInt_true {signature : Str} {out out' : SignatureOut}
    (h : parseJavaSignatureInt signature out = .ok (true, out')) :
    ∃ k, find (cStr signature) [')'] = some k ∧ IsInt (asInt k + 1) ∧
      substrFrom (cStr signature) (asInt k + 1) = .ok out'.retType := by
  rw [parseJavaSignatureInt] at h
  generalize cStr signature = s at h ⊢
  split at h
  next => exact nomatch h
  next hfound =>
    rw [not_or, not_or] at hfound
    obtain ⟨k, hk⟩ : ∃ k, find s [')'] = some k := by
      refine Option.ne_none_iff_exists'.mp fun hnone => hfound.2.1 ?_
      rw [hnone]
      rfl
    rw [hk, toInt_some] at h
    obtain ⟨start, -, h⟩ := bind_eq_ok.mp h
    obtain ⟨gap, -, h⟩ := bind_eq_ok.mp h
    obtain ⟨n, -, h⟩ := bind_eq_ok.mp h
    obtain ⟨argsSig, -, h⟩ := bind_eq_ok.mp h
    obtain ⟨split, -, h⟩ := bind_eq_ok.mp h
    split at h
    next => exact nomatch h
    next =>
      obtain ⟨behind, hbehind, h⟩ := bind_eq_ok.mp h
      obtain ⟨retType, hret, h⟩ := bind_eq_ok.mp h
      obtain ⟨hint, hplace⟩ := intResult_eq_ok.mp hbehind
      rw [hplace] at hret
      cases h
      exact ⟨k, hk, hint, hret⟩

/-- `parse_java_signature` gives a signature back where it is read to its end, its
positions are in range, and `split_args_sig` gives back its parameters. -/
theorem parseJavaSignatureInt_eq_ok {args : Str} (hclose : ')' ∉ args) {ret : Str} {ds : List Str} :
    parseJavaSignatureInt ('(' :: args ++ ')' :: ret) ⟨[], []⟩ = .ok (true, ⟨ds, ret⟩) ↔
      ('\x00' ∉ args ∧ '\x00' ∉ ret ∧ args.length + 2 < 2147483648) ∧
        splitArgsSig args [] = .ok (true, ds) := by
  constructor
  · intro h
    have hread : '\x00' ∉ args ∧ '\x00' ∉ ret ∧ args.length + 2 < 2147483648 := by
      obtain ⟨k, hk, hint, hrest⟩ := parseJavaSignatureInt_true h
      obtain ⟨hlow, hhigh, hdrop⟩ := substrFrom_eq_ok hrest
      have hargs : '\x00' ∉ args := by
        intro hnul
        refine absurd hk ?_
        rw [find_char_of_notMem]
        · exact nofun
        · intro hmem
          obtain ⟨pre, post, rfl⟩ := List.append_of_mem hnul
          rw [← List.cons_append, List.append_assoc, List.cons_append] at hmem
          obtain hmem | hmem := List.mem_cons.mp (mem_of_mem_cStr hmem)
          · exact absurd hmem (by decide)
          · exact hclose (List.mem_append_left _ hmem)
      have hret : '\x00' ∉ ret := by
        rw [show ret = _ from hdrop]
        exact fun hmem => notMem_cStr _ (List.mem_of_mem_drop hmem)
      have hnul : cStr ('(' :: args ++ ')' :: ret) = '(' :: args ++ ')' :: ret :=
        cStr_eq (by simp [hargs, hret])
      rw [hnul] at hk hhigh hdrop
      rw [find_char_append ret, Option.some_inj, List.length_cons] at hk
      · have hlen := congrArg List.length hdrop
        simp only [List.length_drop, List.length_append, List.length_cons] at hlen hhigh
        rw [IsInt] at hint
        exact ⟨hargs, hret, by omega⟩
      · rw [List.mem_cons, not_or]
        exact ⟨by decide, hclose⟩
    refine ⟨hread, ?_⟩
    rw [parseJavaSignatureInt_eq hclose hread.1 hread.2.1 hread.2.2] at h
    obtain ⟨⟨done, types⟩, hsplit⟩ := splitArgsSig_ok args []
    rw [hsplit, ok_bind] at h
    cases h
    exact hsplit
  · rintro ⟨⟨hargs, hret, hlen⟩, hsplit⟩
    rw [parseJavaSignatureInt_eq hclose hargs hret hlen, hsplit]
    rfl

end

/-- A name in a descriptor. -/
structure DescriptorName where
  chars : Str
  notMem : ∀ c ∈ [';', '(', ')'], c ∉ chars

section
variable {ts : List (JavaType DescriptorName)}

/-- The parameters of a signature. -/
def signatureArgs (ts : List (JavaType DescriptorName)) : List Str :=
  ts.map (JavaType.descriptor DescriptorName.chars)

theorem signatureArgs_notMem_close : ')' ∉ (signatureArgs ts).flatten := by
  intro h
  obtain ⟨d, hd, hc⟩ := List.mem_flatten.mp h
  obtain ⟨⟨dim, base⟩, -, rfl⟩ := List.mem_map.mp hd
  rw [JavaType.descriptor, List.mem_append] at hc
  obtain hc | hc := hc
  · exact absurd (List.eq_of_mem_replicate hc) (by decide)
  · cases base with
    | prim p =>
        rw [BaseType.descriptor, List.mem_singleton] at hc
        exact absurd hc (by cases p <;> decide)
    | cls n =>
        have hn : ')' ∉ n.chars := n.notMem ')' (by decide)
        simp [BaseType.descriptor, hn] at hc

/-- `parse_java_signature` gives back the parameters and the result of a signature
exactly when no parameter is an array of a class, neither the parameters nor the result
hold a NUL, and the place behind the parameters is an `int`. -/
theorem parseJavaSignatureInt_iff (ts : List (JavaType DescriptorName)) (ret : Str) :
    parseJavaSignatureInt ('(' :: (signatureArgs ts).flatten ++ ')' :: ret) ⟨[], []⟩ =
        .ok (true, ⟨signatureArgs ts, ret⟩) ↔
      (∀ t ∈ ts, ¬ t.IsClassArray) ∧ '\x00' ∉ (signatureArgs ts).flatten ∧ '\x00' ∉ ret ∧
        (signatureArgs ts).flatten.length + 2 < 2147483648 := by
  rw [parseJavaSignatureInt_eq_ok signatureArgs_notMem_close]
  constructor
  · rintro ⟨⟨hargs, hret, hlen⟩, hsplit⟩
    obtain ⟨hparts, -⟩ := splitArgsSig_parts hsplit
    refine ⟨fun t ht => ?_, hargs, hret, hlen⟩
    have hmem := List.mem_map_of_mem (f := JavaType.descriptor DescriptorName.chars) ht
    exact (hparts _ hmem).not_isClassArray
  · rintro ⟨harray, hargs, hret, hlen⟩
    exact ⟨⟨hargs, hret, hlen⟩, splitArgsSig_descriptors harray
      (fun n => n.notMem ';' (by decide)) hargs []⟩

end

/-- An array of strings loses its bracket. -/
theorem parseJavaSignatureInt_class_array :
    let ts : List (JavaType DescriptorName) := [⟨1, .cls ⟨"java/lang/String".toList, by decide⟩⟩]
    signatureArgs ts = ["[Ljava/lang/String;".toList] ∧
      parseJavaSignatureInt ('(' :: (signatureArgs ts).flatten ++ ')' :: ['V']) ⟨[], []⟩ =
        .ok (true, ⟨["Ljava/lang/String;".toList], ['V']⟩) ∧
      parseJavaSignatureInt ('(' :: (signatureArgs ts).flatten ++ ')' :: ['V']) ⟨[], []⟩ ≠
        .ok (true, ⟨signatureArgs ts, ['V']⟩) :=
  ⟨rfl, rfl, fun h => absurd h (by decide)⟩

end HookJni
