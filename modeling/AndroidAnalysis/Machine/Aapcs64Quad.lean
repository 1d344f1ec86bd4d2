import AndroidAnalysis.Machine.Aapcs64

/-!
# Long arguments on AArch64

A floating argument of sixteen bytes takes one vector register, or two
doublewords of the stack that begin at an even one.  So with such arguments the
stack words of a call depend on the order of the arguments.

`extraFrom` counts the doublewords that are not the first of an argument, and
`stackWordsOf_eq` says that the rest is what each register file leaves over.
-/

namespace Machine.Aapcs64

/-- An integer or pointer, a floating number of eight bytes, and one of sixteen. -/
inductive ArgKind
  | general
  | double
  | quad
deriving DecidableEq

/-- The register file of an argument. -/
def ArgKind.argClass : ArgKind → ArgClass
  | .general => .int
  | .double => .fp
  | .quad => .fp

/-- The counters after the next argument. -/
def Counters.nextKind (c : Counters) : ArgKind → Counters
  | .general => c.next .int
  | .double => c.next .fp
  | .quad =>
      if c.nsrn < 8 then { c with nsrn := c.nsrn + 1 }
      else { c with nsaa := c.nsaa + c.nsaa % 2 + 2 }

/-- The doublewords a call puts on the stack. -/
def stackWordsOf (as : List ArgKind) : Nat := (as.foldl Counters.nextKind {}).nsaa

/-- The doublewords an argument takes besides its first: one it skips, and its
second one. -/
def Counters.extra (c : Counters) : ArgKind → Nat
  | .general => 0
  | .double => 0
  | .quad => if c.nsrn < 8 then 0 else c.nsaa % 2 + 1

/-- The same of a list of arguments. -/
def extraFrom (c : Counters) : List ArgKind → Nat
  | [] => 0
  | a :: as => c.extra a + extraFrom (c.nextKind a) as

/-- The general arguments. -/
def generals (as : List ArgKind) : Nat := (as.map ArgKind.argClass).count .int

/-- The floating arguments. -/
def floats (as : List ArgKind) : Nat := (as.map ArgKind.argClass).count .fp

theorem generals_add_floats (as : List ArgKind) : generals as + floats as = as.length := by
  rw [generals, floats, count_int_add_count_fp, List.length_map]

/-- An argument among the general ones. -/
def ArgKind.inGeneral : ArgKind → Nat
  | .general => 1
  | .double => 0
  | .quad => 0

/-- An argument among the floating ones. -/
def ArgKind.inVector : ArgKind → Nat
  | .general => 0
  | .double => 1
  | .quad => 1

theorem generals_cons (a : ArgKind) (as : List ArgKind) :
    generals (a :: as) = generals as + a.inGeneral := by
  cases a <;> simp [generals, ArgKind.argClass, ArgKind.inGeneral]

theorem floats_cons (a : ArgKind) (as : List ArgKind) :
    floats (a :: as) = floats as + a.inVector := by
  cases a <;> simp [floats, ArgKind.argClass, ArgKind.inVector]

theorem generals_append (as bs : List ArgKind) :
    generals (as ++ bs) = generals as + generals bs := by
  rw [generals, List.map_append, List.count_append]
  rfl

theorem nextKind_le {c : Counters} (hx : c.ngrn ≤ 8) (hv : c.nsrn ≤ 8) (a : ArgKind) :
    (c.nextKind a).ngrn ≤ 8 ∧ (c.nextKind a).nsrn ≤ 8 := by
  cases a with
  | general =>
      rw [Counters.nextKind, Counters.next]
      split
      next hlt => exact ⟨hlt, hv⟩
      next => exact ⟨hx, hv⟩
  | double =>
      rw [Counters.nextKind, Counters.next]
      split
      next hlt => exact ⟨hx, hlt⟩
      next => exact ⟨hx, hv⟩
  | quad =>
      rw [Counters.nextKind]
      split
      next hlt => exact ⟨hx, hlt⟩
      next => exact ⟨hx, hv⟩

/-- What a run puts on the stack: what the two register files leave over, and the
extra doublewords. -/
theorem nsaa_foldl {c : Counters} (hx : c.ngrn ≤ 8) (hv : c.nsrn ≤ 8) (as : List ArgKind) :
    (as.foldl Counters.nextKind c).nsaa =
      c.nsaa + (c.ngrn + generals as - 8) + (c.nsrn + floats as - 8) + extraFrom c as := by
  induction as generalizing c with
  | nil =>
      show c.nsaa = c.nsaa + (c.ngrn - 8) + (c.nsrn - 8)
      omega
  | cons a as ih =>
      obtain ⟨hx', hv'⟩ := nextKind_le hx hv a
      rw [List.foldl_cons, ih hx' hv', extraFrom, generals_cons, floats_cons]
      cases a with
      | general =>
          rw [Counters.nextKind, Counters.next, Counters.extra]
          split <;> simp only [ArgKind.inGeneral, ArgKind.inVector] <;> omega
      | double =>
          rw [Counters.nextKind, Counters.next, Counters.extra]
          split <;> simp only [ArgKind.inGeneral, ArgKind.inVector] <;> omega
      | quad =>
          rw [Counters.nextKind, Counters.extra]
          split <;> simp only [ArgKind.inGeneral, ArgKind.inVector] <;> omega

theorem stackWordsOf_eq (as : List ArgKind) :
    stackWordsOf as = (generals as - 8) + (floats as - 8) + extraFrom {} as := by
  rw [stackWordsOf, nsaa_foldl (Nat.zero_le 8) (Nat.zero_le 8)]
  simp only [Nat.zero_add]

/-- No argument takes an extra doubleword while there are vector registers. -/
theorem extraFrom_eq_zero {c : Counters} {as : List ArgKind} (h : c.nsrn + floats as ≤ 8) :
    extraFrom c as = 0 := by
  induction as generalizing c with
  | nil => rfl
  | cons a as ih =>
      rw [floats_cons] at h
      have hextra : c.extra a = 0 := by
        cases a with
        | general => rfl
        | double => rfl
        | quad =>
            simp only [ArgKind.inVector] at h
            exact if_pos (by omega)
      have hnext : (c.nextKind a).nsrn + floats as ≤ 8 := by
        cases a with
        | general =>
            rw [Counters.nextKind, Counters.next]
            split <;> simpa [ArgKind.inVector] using h
        | double =>
            simp only [ArgKind.inVector] at h
            rw [Counters.nextKind, Counters.next, if_pos (by omega)]
            dsimp only
            omega
        | quad =>
            simp only [ArgKind.inVector] at h
            rw [Counters.nextKind, if_pos (by omega)]
            dsimp only
            omega
      rw [extraFrom, hextra, ih hnext]

/-- A count of the arguments that misses `missed` general ones is enough for the stack
when both register files hold their arguments, or when the registers leave out more
than is missed. -/
theorem stackWordsOf_le_iff {as : List ArgKind} {n missed : Nat} (hn : n + missed = as.length)
    (hmissed : missed ≤ generals as) : stackWordsOf as ≤ n - 8 ↔
      (generals as ≤ 8 ∧ floats as ≤ 8) ∨
        missed + extraFrom {} as ≤ min 8 (min (generals as) (floats as)) := by
  have hsum := generals_add_floats as
  rw [stackWordsOf_eq]
  rcases Nat.lt_or_ge 8 (floats as) with hfull | hfree
  · omega
  · rw [extraFrom_eq_zero (by simpa using hfree)]
    omega

end Machine.Aapcs64
