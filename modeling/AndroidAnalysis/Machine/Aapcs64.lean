import AndroidAnalysis.Machine.Arm64
import Mathlib.Data.List.Induction

/-!
# The AArch64 procedure call standard

Two parts of the standard: what a callee keeps, and where a call puts its
arguments.  An integer or pointer argument takes the next of `x0`..`x7`, a
floating one the next of `v0`..`v7`, and an argument that finds its registers
used up takes the next doubleword of the stack.  `allocate` is that with its
three counters, and `stackWords_eq` counts the doublewords without running it.
-/

namespace Machine.Aapcs64

open Machine.Arm64

/-! ## What a callee keeps -/

/-- From `s` to `s'` the stack pointer, `x19`..`x29` and the memory at `keep`
are unchanged. -/
structure Kept (keep : Nat → Prop) (s s' : State) : Prop where
  sp : s'.reg .sp = s.reg .sp
  saved : ∀ i : Fin 31, 19 ≤ i.val → i.val ≤ 29 → s'.reg (.x i) = s.reg (.x i)
  mem : Mem.AgreeOn keep s.mem s'.mem

/-- At and above the stack pointer. -/
def above (s : State) (b : Nat) : Prop := s.spAddr ≤ b

/-- Outside the free part of the stack, which ends at the stack pointer and
begins at `lo`. -/
def outsideFree (lo : Nat) (s : State) (b : Nat) : Prop := b < lo ∨ s.spAddr ≤ b

/-! ## Argument passing -/

/-- The register file an argument belongs to. -/
inductive ArgClass
  | int
  | fp
deriving DecidableEq

/-- Where an argument is: a general register, a vector register, or a
doubleword of the stack arguments. -/
inductive Loc
  | x (i : Nat)
  | v (i : Nat)
  | stack (i : Nat)
deriving DecidableEq

/-- The next general register, the next vector register and the next doubleword
of the stack. -/
structure Counters where
  ngrn : Nat := 0
  nsrn : Nat := 0
  nsaa : Nat := 0
deriving DecidableEq

/-- The place of the next argument. -/
def Counters.loc (c : Counters) : ArgClass → Loc
  | .int => if c.ngrn < 8 then .x c.ngrn else .stack c.nsaa
  | .fp => if c.nsrn < 8 then .v c.nsrn else .stack c.nsaa

/-- The counters after the next argument. -/
def Counters.next (c : Counters) : ArgClass → Counters
  | .int => if c.ngrn < 8 then { c with ngrn := c.ngrn + 1 } else { c with nsaa := c.nsaa + 1 }
  | .fp => if c.nsrn < 8 then { c with nsrn := c.nsrn + 1 } else { c with nsaa := c.nsaa + 1 }

/-- The places of a list of arguments, from given counters. -/
def allocateFrom (c : Counters) : List ArgClass → List Loc
  | [] => []
  | a :: as => c.loc a :: allocateFrom (c.next a) as

/-- The places of the arguments of a call. -/
def allocate (as : List ArgClass) : List Loc := allocateFrom {} as

/-- The doublewords a call puts on the stack. -/
def stackWords (as : List ArgClass) : Nat := (as.foldl Counters.next {}).nsaa

/-- The counters, as counts of the arguments seen. -/
theorem foldl_next (as : List ArgClass) : as.foldl Counters.next {} =
    { ngrn := min 8 (as.count .int)
      nsrn := min 8 (as.count .fp)
      nsaa := (as.count .int - 8) + (as.count .fp - 8) } := by
  induction as using List.reverseRecOn with
  | nil => rfl
  | append_singleton as a ih =>
      rw [List.foldl_append, ih]
      cases a with
      | int =>
          simp only [List.foldl_cons, List.foldl_nil, Counters.next, List.count_append,
            List.count_singleton, beq_self_eq_true, if_true, reduceCtorEq, beq_iff_eq, if_false]
          by_cases h : as.count .int < 8
          · rw [if_pos (by omega)]
            simp only [Counters.mk.injEq]
            omega
          · rw [if_neg (by omega)]
            simp only [Counters.mk.injEq]
            omega
      | fp =>
          simp only [List.foldl_cons, List.foldl_nil, Counters.next, List.count_append,
            List.count_singleton, beq_self_eq_true, if_true, reduceCtorEq, beq_iff_eq, if_false]
          by_cases h : as.count .fp < 8
          · rw [if_pos (by omega)]
            simp only [Counters.mk.injEq]
            omega
          · rw [if_neg (by omega)]
            simp only [Counters.mk.injEq]
            omega

/-- Each register file overflows on its own. -/
theorem stackWords_eq (as : List ArgClass) :
    stackWords as = (as.count .int - 8) + (as.count .fp - 8) := by
  rw [stackWords, foldl_next]

/-- Every argument is in one of the two classes. -/
theorem count_int_add_count_fp (as : List ArgClass) : as.count .int + as.count .fp = as.length := by
  induction as with
  | nil => rfl
  | cons a as ih => cases a <;> simp <;> omega

/-- The place of an argument depends on the arguments before it. -/
theorem getElem?_allocateFrom (c : Counters) (as : List ArgClass) (i : Nat) :
    (allocateFrom c as)[i]? = as[i]?.map ((as.take i).foldl Counters.next c).loc := by
  induction as generalizing c i with
  | nil => simp [allocateFrom]
  | cons a as ih =>
      cases i with
      | zero => rfl
      | succ i => simp only [allocateFrom, List.getElem?_cons_succ, ih, List.take_succ_cons,
          List.foldl_cons]

/-- The place of an argument, from the counts of the arguments before it. -/
theorem getElem?_allocate (as : List ArgClass) (i : Nat) :
    (allocate as)[i]? = as[i]?.map (Counters.loc
      { ngrn := min 8 ((as.take i).count .int)
        nsrn := min 8 ((as.take i).count .fp)
        nsaa := ((as.take i).count .int - 8) + ((as.take i).count .fp - 8) }) := by
  rw [allocate, getElem?_allocateFrom, foldl_next]

/-- The stack only grows. -/
theorem nsaa_le_next (c : Counters) (a : ArgClass) : c.nsaa ≤ (c.next a).nsaa := by
  cases a with
  | int =>
      rw [Counters.next]
      split
      next => exact Nat.le_refl _
      next => exact Nat.le_succ _
  | fp =>
      rw [Counters.next]
      split
      next => exact Nat.le_refl _
      next => exact Nat.le_succ _

theorem nsaa_le_foldl (c : Counters) (as : List ArgClass) :
    c.nsaa ≤ (as.foldl Counters.next c).nsaa := by
  induction as generalizing c with
  | nil => exact Nat.le_refl _
  | cons a as ih => exact Nat.le_trans (nsaa_le_next c a) (ih (c.next a))

/-- An argument on the stack takes the next doubleword. -/
theorem loc_eq_stack {c : Counters} {a : ArgClass} {k : Nat} (h : c.loc a = .stack k) :
    k = c.nsaa ∧ (c.next a).nsaa = c.nsaa + 1 := by
  cases a with
  | int =>
      rw [Counters.loc] at h
      split at h
      next => cases h
      next hfull =>
        cases h
        exact ⟨rfl, by rw [Counters.next, if_neg hfull]⟩
  | fp =>
      rw [Counters.loc] at h
      split at h
      next => cases h
      next hfull =>
        cases h
        exact ⟨rfl, by rw [Counters.next, if_neg hfull]⟩

/-- The doublewords counted are those that hold arguments. -/
theorem lt_nsaa_of_mem {c : Counters} {as : List ArgClass} {k : Nat}
    (h : Loc.stack k ∈ allocateFrom c as) : k < (as.foldl Counters.next c).nsaa := by
  induction as generalizing c with
  | nil => cases h
  | cons a as ih =>
      rcases List.mem_cons.mp h with hloc | hmem
      · obtain ⟨rfl, hnext⟩ := loc_eq_stack hloc.symm
        exact Nat.lt_of_lt_of_le (by rw [hnext]; exact Nat.lt_succ_self _)
          (nsaa_le_foldl (c.next a) as)
      · exact ih hmem

/-- Every argument on the stack lies in the doublewords of the call. -/
theorem lt_stackWords {as : List ArgClass} {i k : Nat} (h : (allocate as)[i]? = some (.stack k)) :
    k < stackWords as := lt_nsaa_of_mem (List.mem_of_getElem? h)

end Machine.Aapcs64
