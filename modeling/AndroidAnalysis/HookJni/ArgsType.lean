import AndroidAnalysis.HookJni.JavaTypes
import AndroidAnalysis.HookJni.ParseJavaSig

/-!
# The parts of a descriptor

What `conv_sig_2_args_type` makes of a field descriptor: array dimensions and a
base, which is a primitive or a class under any name that a class file can hold.

It has three cases.  An array loses its `[` and is said to have no dimensions,
because the characters counted are dots (`convSig2ArgsType_array`).  A primitive
stays as it is.  The name of a class is mangled, but an underscore is replaced by
a text with an underscore, and that loop does not end.  In the last two cases
nothing assigns the number of dimensions.
-/

namespace HookJni

open Cpp Utils Words

/-! ## Names of classes -/

/-- What a name in a class file cannot have. -/
def separators : List Char := ['.', ';', '[', '/']

/-- A name between slashes. -/
structure UnqualifiedName where
  chars : Str
  ne_nil : chars ≠ []
  unseparated : ∀ c ∈ separators, c ∉ chars

/-- The name of a class in a class file: one or more names. -/
structure InternalName where
  names : List UnqualifiedName
  ne_nil : names ≠ []

/-- The text of a class name. -/
def InternalName.slash (n : InternalName) : Str :=
  ['/'].intercalate (n.names.map UnqualifiedName.chars)

/-- The mangled class name: `_` as `_1`, then `/` as `_`. -/
def InternalName.mangled (n : InternalName) : Str :=
  substChar '/' ['_'] (substChar '_' ['_', '1'] n.slash)

/-- The base that should be read from a descriptor. -/
def BaseType.mangled : BaseType InternalName → Str
  | .prim p => [p.letter]
  | .cls n => n.mangled

/-- The descriptor has no class name with an underscore. -/
def BaseType.NoUnderscore : BaseType InternalName → Prop
  | .prim _ => True
  | .cls n => '_' ∉ n.slash

/-- `conv_sig_2_args_type` ends and takes the descriptor of `t` apart, from a
`ret` with that `array_dim`. -/
def Decomposed (arrayDim : Int) (t : JavaType InternalName) : Prop :=
  ∃ n, convSig2ArgsType n arrayDim (t.descriptor InternalName.slash) =
    .ok { sig := t.descriptor InternalName.slash, innerBaseType := t.base.mangled,
          arrayDim := t.dim }

/-- A class name has one separator. -/
theorem InternalName.notMem_slash (n : InternalName) {c : Char} (hc : c ∈ separators)
    (hslash : c ≠ '/') : c ∉ n.slash := by
  refine notMem_intercalate (fun h => hslash (List.mem_singleton.mp h)) _ fun f hf => ?_
  obtain ⟨m, -, rfl⟩ := List.mem_map.mp hf
  exact m.unseparated c hc

theorem Prim.letter_notMem_separators (p : Prim) : p.letter ∉ separators := by
  cases p <;> decide

theorem BaseType.dot_notMem_descriptor (b : BaseType InternalName) :
    '.' ∉ b.descriptor InternalName.slash := by
  have hsep : '.' ∈ separators := by decide
  cases b with
  | prim p => exact fun h => p.letter_notMem_separators (List.mem_singleton.mp h ▸ hsep)
  | cls n => simp [BaseType.descriptor, n.notMem_slash hsep (by decide)]

/-- No descriptor has a dot. -/
theorem dot_notMem_descriptor (t : JavaType InternalName) :
    '.' ∉ t.descriptor InternalName.slash := by
  rw [JavaType.descriptor, List.mem_append, not_or]
  exact ⟨fun h => absurd (List.eq_of_mem_replicate h) (by decide),
    t.base.dot_notMem_descriptor⟩

/-! ## Arrays -/

/-- The descriptor of an array starts like one. -/
theorem headD_descriptor_of_dim {t : JavaType InternalName} (h : t.dim ≠ 0) :
    (t.descriptor InternalName.slash).headD '\x00' = '[' := by
  obtain ⟨k, hk⟩ := Nat.exists_eq_succ_of_ne_zero h
  rw [JavaType.descriptor, hk, List.replicate_succ]
  rfl

/-- An array loses its `[` and is said to have no dimensions. -/
theorem convSig2ArgsType_array (n : Nat) (arrayDim : Int) {t : JavaType InternalName}
    (hdim : t.dim ≠ 0) : convSig2ArgsType n arrayDim (t.descriptor InternalName.slash) = (do
      let inner ← replaceAllLoop n (t.descriptor InternalName.slash) ['['] []
      .ok { sig := t.descriptor InternalName.slash, innerBaseType := inner, arrayDim := 0 }) := by
  have hhead := headD_descriptor_of_dim hdim
  have hcount := List.count_eq_zero_of_not_mem (dot_notMem_descriptor t)
  rw [convSig2ArgsType]
  simp only [hhead, if_true, hcount]
  cases replaceAllLoop n (t.descriptor InternalName.slash) ['['] [] <;> rfl

/-! ## Scalars -/

/-- A primitive stays, and so does `array_dim`. -/
theorem convSig2ArgsType_prim (n : Nat) (arrayDim : Int) (p : Prim) :
    convSig2ArgsType n arrayDim [p.letter] =
      .ok { sig := [p.letter], innerBaseType := [p.letter], arrayDim } := by
  cases p <;> rfl

/-- A class: its name between `L` and `;` goes through two replacements. -/
theorem convSig2ArgsType_class (n : Nat) (arrayDim : Int) (name : Str) :
    convSig2ArgsType n arrayDim ('L' :: name ++ [';']) = (do
      let inner ← replaceAllLoop n name ['_'] ['_', '1']
      let inner ← replaceAllLoop n inner ['/'] ['_']
      .ok { sig := 'L' :: name ++ [';'], innerBaseType := inner, arrayDim }) := by
  have hinner : substr ('L' :: name ++ [';']) 1 (('L' :: name ++ [';']).length - 2) = .ok name :=
    substr_eq ['L'] [';'] rfl rfl (by simp; omega)
  rw [convSig2ArgsType]
  simp only [List.cons_append, List.headD_cons] at hinner ⊢
  rw [if_neg (by decide), ok_bind, if_pos trivial, hinner]
  rfl

/-- A class name with an underscore: the first of the two does not end. -/
theorem convSig2ArgsType_underscore (n : Nat) (arrayDim : Int) {name : Str} (h : '_' ∈ name) :
    convSig2ArgsType n arrayDim ('L' :: name ++ [';']) = .error .diverges := by
  rw [convSig2ArgsType_class, replaceAllLoop_diverges List.mem_cons_self n h]
  rfl

/-- A class name without one. -/
theorem convSig2ArgsType_no_underscore {n : Nat} (arrayDim : Int) {name : Str} (h : '_' ∉ name)
    (hn : name.length < n) : convSig2ArgsType n arrayDim ('L' :: name ++ [';']) =
      .ok { sig := 'L' :: name ++ [';'], innerBaseType := substChar '/' ['_'] name, arrayDim } := by
  have hcount : name.count '/' < n := Nat.lt_of_le_of_lt List.count_le_length hn
  have hfirst : replaceAllLoop n name ['_'] ['_', '1'] = .ok name := by
    cases n with
    | zero => exact absurd hn (Nat.not_lt_zero _)
    | succ n => rw [replaceAllLoop, find_char_of_notMem h]
  rw [convSig2ArgsType_class, hfirst, ok_bind, replaceAllLoop_char (by decide) hcount]
  rfl

/-! ## All descriptors -/

variable {arrayDim : Int}

theorem decomposed_prim_iff (p : Prim) : Decomposed arrayDim ⟨0, .prim p⟩ ↔ arrayDim = 0 := by
  constructor
  · rintro ⟨n, hret⟩
    have hprim := (convSig2ArgsType_prim n arrayDim p).symm.trans hret
    injection hprim with hprim
    exact congrArg ArgsType.arrayDim hprim
  · rintro rfl
    exact ⟨0, convSig2ArgsType_prim 0 0 p⟩

/-- No class name with an underscore is returned from. -/
theorem not_decomposed_underscore {m : InternalName} (h : '_' ∈ m.slash) :
    ¬ Decomposed arrayDim ⟨0, .cls m⟩ := by
  rintro ⟨n, hret⟩
  have hdiv := (convSig2ArgsType_underscore n arrayDim h).symm.trans hret
  exact nomatch hdiv

theorem decomposed_class_iff (m : InternalName) :
    Decomposed arrayDim ⟨0, .cls m⟩ ↔ '_' ∉ m.slash ∧ arrayDim = 0 := by
  constructor
  · intro hdec
    refine ⟨fun h => not_decomposed_underscore h hdec, ?_⟩
    obtain ⟨n, hret⟩ := hdec
    change convSig2ArgsType n arrayDim ('L' :: m.slash ++ [';']) = _ at hret
    rw [convSig2ArgsType_class] at hret
    obtain ⟨first, -, hret⟩ := bind_eq_ok.mp hret
    obtain ⟨second, -, hret⟩ := bind_eq_ok.mp hret
    injection hret with hret
    exact congrArg ArgsType.arrayDim hret
  · rintro ⟨h, rfl⟩
    have hclass := convSig2ArgsType_no_underscore 0 h (Nat.lt_succ_self m.slash.length)
    refine ⟨m.slash.length + 1, ?_⟩
    show convSig2ArgsType _ 0 ('L' :: m.slash ++ [';']) = _
    rw [hclass, BaseType.mangled, InternalName.mangled, substChar_of_notMem h]
    rfl

/-- No array is taken apart. -/
theorem not_decomposed_array {t : JavaType InternalName} (hdim : t.dim ≠ 0) :
    ¬ Decomposed arrayDim t := by
  rintro ⟨n, hret⟩
  rw [convSig2ArgsType_array n arrayDim hdim] at hret
  obtain ⟨inner, -, hret⟩ := bind_eq_ok.mp hret
  injection hret with hret
  have hzero : (0 : Int) = t.dim := congrArg ArgsType.arrayDim hret
  exact hdim (Int.natCast_eq_zero.mp hzero.symm)

/-- A descriptor is taken apart exactly when it is no array and has no
underscore, and the number of dimensions that nothing assigns happens to be 0. -/
theorem decomposed_iff (t : JavaType InternalName) :
    Decomposed arrayDim t ↔ t.dim = 0 ∧ t.base.NoUnderscore ∧ arrayDim = 0 := by
  obtain ⟨dim, base⟩ := t
  rcases Nat.eq_zero_or_pos dim with rfl | hdim
  · cases base with
    | prim p => rw [decomposed_prim_iff]; simp [BaseType.NoUnderscore]
    | cls m => rw [decomposed_class_iff]; simp [BaseType.NoUnderscore]
  · exact iff_of_false (not_decomposed_array (Nat.ne_of_gt hdim))
      fun h => absurd h.1 (Nat.ne_of_gt hdim)

/-- `my_A` -/
def classMyA : InternalName :=
  ⟨[⟨['m', 'y', '_', 'A'], by decide, by decide⟩], List.cons_ne_nil _ _⟩

/-- `[I` is said to have no dimensions, and `Lmy_A;` is never returned from. -/
theorem descriptors_not_decomposed :
    ¬ Decomposed 0 ⟨1, .prim .int⟩ ∧ ¬ Decomposed 0 ⟨0, .cls classMyA⟩ :=
  ⟨not_decomposed_array (Nat.succ_ne_zero 0), not_decomposed_underscore (by decide)⟩

end HookJni
