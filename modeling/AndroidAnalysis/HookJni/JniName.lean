import AndroidAnalysis.HookJni.JavaTypes
import AndroidAnalysis.HookJni.ParseJavaSig

/-!
# The symbols of natives

The name the virtual machine looks a native up by.  The short name is the class
and the method, and the long name of an overloaded native has the descriptors of
its parameters after two underscores.  Both are mangled, so that what is left is
letters, digits and underscores.
-/

namespace HookJni

open Cpp Utils Words

/-! ## Names -/

/-- A Java identifier of letters, digits and underscores. -/
structure JavaIdent where
  chars : Str
  ne_nil : chars ≠ []
  alphabet : ∀ c ∈ chars, c.isAlphanum ∨ c = '_'
  not_digit : ∀ c ∈ chars.head?, ¬ c.isDigit

/-- Identifiers with a separator between them. -/
def joinNames (sep : Char) (ns : List JavaIdent) : Str := [sep].intercalate (ns.map JavaIdent.chars)

/-- The components of a class name: at least one. -/
structure ClassPath where
  names : List JavaIdent
  ne_nil : names ≠ []

/-- The dotted form of a class name. -/
def ClassPath.dotted (n : ClassPath) : Str := joinNames '.' n.names

/-- The slash form of a class name. -/
def ClassPath.slash (n : ClassPath) : Str := joinNames '/' n.names

theorem JavaIdent.notMem (n : JavaIdent) {c : Char} (hc : ¬ (c.isAlphanum ∨ c = '_')) :
    c ∉ n.chars :=
  fun h => hc (n.alphabet c h)

theorem JavaIdent.head?_ne_digit (n : JavaIdent) {c : Char} (hc : c.isDigit) :
    n.chars.head? ≠ some c :=
  fun h => n.not_digit c h hc

theorem joinNames_ne_nil {ns : List JavaIdent} (h : ns ≠ []) (sep : Char) :
    joinNames sep ns ≠ [] := by
  obtain ⟨n, ns, rfl⟩ := List.exists_cons_of_ne_nil h
  intro hnil
  cases ns with
  | nil => exact n.ne_nil ((List.intercalate_singleton).symm.trans hnil)
  | cons m ns =>
      rw [joinNames, List.map_cons, List.map_cons, List.intercalate_cons_cons] at hnil
      exact n.ne_nil (List.append_eq_nil_iff.mp (List.append_eq_nil_iff.mp hnil).1).1

/-- What is neither the separator nor in the alphabet is in no joined name. -/
theorem notMem_joinNames {sep c : Char} (hsep : c ≠ sep) (hc : ¬ (c.isAlphanum ∨ c = '_'))
    (ns : List JavaIdent) : c ∉ joinNames sep ns := by
  refine notMem_intercalate (fun h => hsep (List.mem_singleton.mp h)) _ fun f hf => ?_
  obtain ⟨n, -, rfl⟩ := List.mem_map.mp hf
  exact n.notMem hc

theorem mem_joinNames {sep c : Char} {ns : List JavaIdent} (h : c ∈ joinNames sep ns) :
    c = sep ∨ c.isAlphanum ∨ c = '_' := by
  by_contra hc
  rw [not_or] at hc
  exact notMem_joinNames hc.1 hc.2 ns h

/-- A pair of the separator and a letter is where a later component starts with
the letter. -/
theorem pairFree_joinNames {sep b : Char} (hsep : ¬ (sep.isAlphanum ∨ sep = '_'))
    (ns : List JavaIdent) :
    PairFree sep b (joinNames sep ns) ↔ ∀ n ∈ ns.tail, n.chars.head? ≠ some b := by
  rw [joinNames, pairFree_intercalate, ← List.map_tail, List.forall_mem_map]
  · intro f hf
    obtain ⟨n, -, rfl⟩ := List.mem_map.mp hf
    exact n.ne_nil
  · intro f hf
    obtain ⟨n, -, rfl⟩ := List.mem_map.mp hf
    exact n.notMem hsep

/-- No component starts with a digit. -/
theorem pairFree_joinNames_digit {sep b : Char} (hsep : ¬ (sep.isAlphanum ∨ sep = '_'))
    (hb : b.isDigit) (ns : List JavaIdent) : PairFree sep b (joinNames sep ns) :=
  (pairFree_joinNames hsep ns).mpr fun n _ => n.head?_ne_digit hb

/-- A joined name with one more component. -/
theorem joinNames_append {ns : List JavaIdent} (h : ns ≠ []) (sep : Char) (n : JavaIdent) :
    joinNames sep (ns ++ [n]) = joinNames sep ns ++ sep :: n.chars := by
  induction ns with
  | nil => exact absurd rfl h
  | cons m ns ih =>
      cases ns with
      | nil => simp [joinNames]
      | cons m' ns =>
          have hrest := ih (List.cons_ne_nil m' ns)
          simp only [joinNames, List.map_append, List.map_cons, List.cons_append, List.map_nil,
            List.intercalate_cons_cons, List.append_assoc] at hrest ⊢
          rw [hrest]

/-! ## Mangling -/

/-- The letters that are mangled. -/
def mangled : List Char := ['.', '/', '_', ';', '[']

/-- A letter in a symbol. -/
def mangleChar (c : Char) : Str :=
  if c = '.' ∨ c = '/' then ['_']
  else if c = '_' then ['_', '1']
  else if c = ';' then ['_', '2']
  else if c = '[' then ['_', '3']
  else [c]

/-- A text in a symbol. -/
def mangle (s : Str) : Str := s.flatMap mangleChar

/-- The short name of a native. -/
def shortName (cls : ClassPath) (method : JavaIdent) : Str :=
  javaPrefix ++ mangle cls.dotted ++ '_' :: mangle method.chars

/-- The long name of a native. -/
def longName (cls : ClassPath) (method : JavaIdent) (ds : List Str) : Str :=
  shortName cls method ++ ['_', '_'] ++ mangle ds.flatten

theorem mangleChar_of_notMem {c : Char} (h : c ∉ mangled) : mangleChar c = [c] := by
  simp only [mangled, List.mem_cons, List.not_mem_nil, or_false, not_or] at h
  obtain ⟨hdot, hslash, hunder, hsemi, hopen⟩ := h
  rw [mangleChar, if_neg (not_or.mpr ⟨hdot, hslash⟩), if_neg hunder, if_neg hsemi, if_neg hopen]

theorem mangle_cons (c : Char) (s : Str) : mangle (c :: s) = mangleChar c ++ mangle s :=
  List.flatMap_cons

theorem mangle_append (s t : Str) : mangle (s ++ t) = mangle s ++ mangle t :=
  List.flatMap_append

/-- A property of letters and their code holds when it holds of the mangled ones
and of those that stay. -/
theorem forall_mangleChar {P : Char → Str → Prop} (hmangled : ∀ c ∈ mangled, P c (mangleChar c))
    (hother : ∀ c, c ∉ mangled → P c [c]) (c : Char) : P c (mangleChar c) := by
  by_cases hc : c ∈ mangled
  · exact hmangled c hc
  · rw [mangleChar_of_notMem hc]
    exact hother c hc

theorem mangleChar_ne_nil (c : Char) : mangleChar c ≠ [] :=
  forall_mangleChar (P := fun _ s => s ≠ []) (by decide) (fun c _ => List.cons_ne_nil c []) c

theorem mangle_ne_nil {s : Str} (h : s ≠ []) : mangle s ≠ [] := by
  obtain ⟨c, s, rfl⟩ := List.exists_cons_of_ne_nil h
  rw [mangle_cons]
  exact fun hnil => mangleChar_ne_nil c (List.append_eq_nil_iff.mp hnil).1

/-- Only a separator ends in an underscore. -/
theorem mangleChar_getLast? (c : Char) :
    (mangleChar c).getLast? = some '_' ↔ c = '.' ∨ c = '/' := by
  refine forall_mangleChar (P := fun c s => s.getLast? = some '_' ↔ c = '.' ∨ c = '/')
    (by decide) (fun c hc => ?_) c
  simp only [mangled, List.mem_cons, List.not_mem_nil, or_false, not_or] at hc
  simp [hc]

/-- Every mangled letter starts with an underscore. -/
theorem mangleChar_head? (c : Char) : (mangleChar c).head? = some '_' ↔ c ∈ mangled := by
  refine forall_mangleChar (P := fun c s => s.head? = some '_' ↔ c ∈ mangled)
    (by decide) (fun c hc => iff_of_false ?_ hc) c
  rintro h
  cases h
  exact hc (by decide)

/-- Any other first letter is the letter itself. -/
theorem mangleChar_head?_of_ne {b : Char} (hb : b ≠ '_') {c : Char}
    (h : (mangleChar c).head? = some b) : c = b := by
  revert h
  refine forall_mangleChar (P := fun c s => s.head? = some b → c = b) (fun c hc h => ?_)
    (fun c _ h => Option.some_inj.mp h) c
  exact absurd (((mangleChar_head? c).mpr hc).symm.trans h) (by simpa using Ne.symm hb)

/-- A mangled text ends in an underscore where the text ends in a separator. -/
theorem mangle_getLast? {s : Str} (h : (mangle s).getLast? = some '_') :
    s.getLast? = some '.' ∨ s.getLast? = some '/' := by
  obtain rfl | ⟨s, c, rfl⟩ := s.eq_nil_or_concat
  · exact nomatch h
  · rw [List.concat_eq_append] at h ⊢
    rw [mangle_append, mangle_cons, mangle, mangle, List.flatMap_nil, List.append_nil,
      List.getLast?_append_of_ne_nil _ (mangleChar_ne_nil c), mangleChar_getLast?] at h
    rw [List.getLast?_concat, Option.some_inj, Option.some_inj]
    exact h

/-- A mangled text starts like the text, or with an underscore. -/
theorem mangle_head? {b : Char} (hb : b ≠ '_') {s : Str} (h : (mangle s).head? = some b) :
    s.head? = some b := by
  cases s with
  | nil => exact h
  | cons c s =>
      rw [mangle_cons, List.head?_append_of_ne_nil _ (mangleChar_ne_nil c)] at h
      rw [List.head?_cons, mangleChar_head?_of_ne hb h]

/-- Between two letters a pair of underscores is made by a separator and any
mangled letter. -/
theorem mangle_pairFree {s : Str} :
    PairFree '_' '_' (mangle s) ↔ s.IsChain fun x y => ¬ ((x = '.' ∨ x = '/') ∧ y ∈ mangled) := by
  rw [mangle, pairFree_flatMap fun c _ => mangleChar_ne_nil c]
  simp only [mangleChar_getLast?, mangleChar_head?]
  refine and_iff_right fun c _ => ?_
  exact forall_mangleChar (P := fun _ s => PairFree '_' '_' s)
    (fun c hc => by revert c; simp [mangled, mangleChar, PairFree])
    (fun c _ => List.isChain_singleton c) c

/-- Where no separator stands before another, a pair of underscores has a `1`
behind it. -/
theorem mangle_pair_one {s pre post : Str} (hs : ∀ c ∈ ['/', ';', '['], c ∉ s)
    (hdot : PairFree '.' '.' s) (h : mangle s = pre ++ '_' :: '_' :: post) :
    post.head? = some '1' := by
  induction s generalizing pre with
  | nil => exact absurd h (by simp [mangle])
  | cons c s ih =>
      have hrest {pre : Str} (h : mangle s = pre ++ '_' :: '_' :: post) : post.head? = some '1' :=
        ih (fun d hd hm => hs d hd (List.mem_cons_of_mem c hm)) hdot.tail h
      rw [mangle_cons] at h
      by_cases hc : c ∈ mangled
      · simp only [mangled, List.mem_cons, List.not_mem_nil, or_false] at hc
        obtain rfl | rfl | rfl | rfl | rfl := hc
        · cases pre with
          | cons x pre => exact hrest (List.cons.inj h).2
          | nil =>
              -- The separator is the first of the two, so the second is a letter's.
              have hmangle : mangle s = '_' :: post := (List.cons.inj h).2
              cases s with
              | nil => exact nomatch hmangle
              | cons d s =>
                  have hd : d ∈ mangled := by
                    rw [← mangleChar_head?, ← List.head?_append_of_ne_nil _ (mangleChar_ne_nil d),
                      ← mangle_cons, hmangle]
                    rfl
                  simp only [mangled, List.mem_cons, List.not_mem_nil, or_false] at hd
                  obtain rfl | rfl | rfl | rfl | rfl := hd
                  · exact absurd ⟨rfl, rfl⟩ (List.isChain_cons_cons.mp hdot).1
                  · exact absurd (by simp) (hs '/' (by decide))
                  · rw [← (List.cons.inj hmangle).2]
                    rfl
                  · exact absurd (by simp) (hs ';' (by decide))
                  · exact absurd (by simp) (hs '[' (by decide))
        · exact absurd List.mem_cons_self (hs '/' (by decide))
        · match pre, h with
          | [], h => exact absurd (List.cons.inj (List.cons.inj h).2).1 (by decide)
          | [x], h => exact absurd (List.cons.inj (List.cons.inj h).2).1 (by decide)
          | x :: y :: pre, h => exact hrest (List.cons.inj (List.cons.inj h).2).2
        · exact absurd List.mem_cons_self (hs ';' (by decide))
        · exact absurd List.mem_cons_self (hs '[' (by decide))
      · rw [mangleChar_of_notMem hc, List.singleton_append] at h
        cases pre with
        | nil => exact absurd ((List.cons.inj h).1 ▸ by decide) hc
        | cons x pre => exact hrest (List.cons.inj h).2

/-- A pair of an underscore and a zero is made by a separator and a zero. -/
theorem mangle_pairFree_zero {s : Str} (hdot : PairFree '.' '0' s) (hslash : '/' ∉ s) :
    PairFree '_' '0' (mangle s) := by
  rw [mangle, pairFree_flatMap fun c _ => mangleChar_ne_nil c]
  constructor
  · intro c _
    exact forall_mangleChar (P := fun _ s => PairFree '_' '0' s)
      (fun c hc => by revert c; simp [mangled, mangleChar, PairFree])
      (fun c _ => List.isChain_singleton c) c
  · refine List.IsChain.imp_of_mem_imp (fun x y hxs _ hd hxy => ?_) hdot
    cases (mangleChar_getLast? x).mp hxy.1 with
    | inl h => exact hd ⟨h, mangleChar_head?_of_ne (by decide) hxy.2⟩
    | inr h => exact hslash (h ▸ hxs)

/-- The letters of a mangled text. -/
theorem mem_mangle {s : Str} {c : Char} (h : c ∈ mangle s) :
    c ∈ ['_', '1', '2', '3'] ∨ c ∈ s ∧ c ∉ mangled := by
  obtain ⟨x, hx, hc⟩ := List.mem_flatMap.mp h
  have hcodes : ∀ x ∈ mangled, ∀ c ∈ mangleChar x, c ∈ ['_', '1', '2', '3'] := by decide
  by_cases hm : x ∈ mangled
  · exact .inl (hcodes x hm c hc)
  · rw [mangleChar_of_notMem hm, List.mem_singleton] at hc
    exact .inr (hc ▸ ⟨hx, hm⟩)

/-- An underscore is mangled to one with a `1`. -/
theorem count_one_mangle (s : Str) : (mangle s).count '1' = s.count '1' + s.count '_' := by
  have hchar (c : Char) : (mangleChar c).count '1' = [c].count '1' + [c].count '_' := by
    refine forall_mangleChar (P := fun c s => s.count '1' = [c].count '1' + [c].count '_')
      (by decide) (fun c hc => ?_) c
    have hne : '_' ∉ [c] := fun h => hc (List.mem_singleton.mp h ▸ by decide)
    rw [List.count_eq_zero.mpr hne, Nat.add_zero]
  induction s with
  | nil => rfl
  | cons c s ih =>
      rw [mangle_cons, List.count_append, ih, hchar]
      show _ = ([c] ++ s).count '1' + ([c] ++ s).count '_'
      rw [List.count_append, List.count_append]
      omega

/-- Underscores read as dots. -/
theorem substChar_mangle {s : Str} (h : ∀ c ∈ ['/', ';', '['], c ∉ s) :
    substChar '_' ['.'] (mangle s) = substChar '_' ['.', '1'] s := by
  induction s with
  | nil => rfl
  | cons x s ih =>
      have hs := ih fun c hc hm => h c hc (List.mem_cons_of_mem x hm)
      rw [mangle_cons, substChar_append, hs]
      by_cases hx : x ∈ mangled
      · simp only [mangled, List.mem_cons, List.not_mem_nil, or_false] at hx
        obtain rfl | rfl | rfl | rfl | rfl := hx
        · rfl
        · exact absurd List.mem_cons_self (h '/' (by decide))
        · rfl
        · exact absurd List.mem_cons_self (h ';' (by decide))
        · exact absurd List.mem_cons_self (h '[' (by decide))
      · have hne : x ≠ '_' := fun he => hx (he ▸ by decide)
        rw [mangleChar_of_notMem hx, substChar_cons_of_ne hne, substChar_cons_of_ne hne]
        rfl

end HookJni
