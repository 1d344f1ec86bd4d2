import AndroidAnalysis.Machine.Calls
import AndroidAnalysis.Machine.EventRun

/-!
# Rules for programs that call their surroundings

A contract says which calls a program may make, which answers it gets, and with
which faults it may end.  `Meets` is the weakest condition under which a program
keeps its side of the contract and returns a result of a kind, whatever it is
answered.  It goes through a program part by part (`meets_bind`), and through the
steps of a run (`run_meets_iff`, `Follows.run_meets_iff`).
-/

namespace Machine

namespace Calls

variable {C : Type} {A : C → Type} {F α β : Type}

/-- The calls a program may make, the answers it may get, and the faults it may end
with. -/
structure Contract (A : C → Type) (F : Type) where
  calls : C → Prop
  answers : (c : C) → A c → Prop
  faults : F → Prop

/-- The program keeps to the contract, and its result has the property. -/
def Meets (K : Contract A F) (Q : α → Prop) : Calls A F α → Prop
  | .ret a => Q a
  | .fault e => K.faults e
  | .call c k => K.calls c ∧ ∀ a, K.answers c a → (k a).Meets K Q

section
variable {K : Contract A F} {Q R : α → Prop}

@[simp] theorem meets_ret {a : α} : (ret a : Calls A F α).Meets K Q ↔ Q a := Iff.rfl

@[simp] theorem meets_fault {e : F} : (fault e : Calls A F α).Meets K Q ↔ K.faults e := Iff.rfl

@[simp] theorem meets_call {c : C} {k : A c → Calls A F α} :
    (call c k).Meets K Q ↔ K.calls c ∧ ∀ a, K.answers c a → (k a).Meets K Q := Iff.rfl

/-- A program in two parts. -/
theorem meets_bind {p : Calls A F α} {f : α → Calls A F β} {Q : β → Prop} :
    (p >>= f).Meets K Q ↔ p.Meets K fun a => (f a).Meets K Q := by
  induction p with
  | ret a => exact Iff.rfl
  | fault e => exact Iff.rfl
  | call c k ih =>
      exact and_congr_right fun _ => forall_congr' fun a => imp_congr_right fun _ => ih a

/-- A weaker property of the result. -/
theorem Meets.mono {p : Calls A F α} (h : p.Meets K Q) (hQ : ∀ a, Q a → R a) : p.Meets K R := by
  induction p with
  | ret a => exact hQ a h
  | fault e => exact h
  | call c k ih => exact ⟨h.1, fun a ha => ih a (h.2 a ha)⟩

/-- A program without calls. -/
theorem meets_ofExcept {x : Except F α} :
    (ofExcept x : Calls A F α).Meets K Q ↔
      (∀ a, x = .ok a → Q a) ∧ ∀ e, x = .error e → K.faults e := by
  cases x with
  | ok a => simp
  | error e => simp

/-- A program without calls, where no fault is in the contract. -/
theorem meets_ofExcept_strict (hK : ∀ e, ¬ K.faults e) {x : Except F α} :
    (ofExcept x : Calls A F α).Meets K Q ↔ ∃ a, x = .ok a ∧ Q a := by
  rw [meets_ofExcept]
  cases x with
  | ok a => simp
  | error e => simp [hK]

/-- A call after which the answer does not matter. -/
theorem meets_call_iff {c : C} {k : A c → Calls A F α} {P : Prop} (hc : K.calls c)
    (ha : ∃ a, K.answers c a) (hk : ∀ a, K.answers c a → ((k a).Meets K Q ↔ P)) :
    (call c k).Meets K Q ↔ P := by
  rw [meets_call, and_iff_right hc]
  constructor
  · intro h
    obtain ⟨a, ha⟩ := ha
    exact (hk a ha).mp (h a ha)
  · intro h a ha
    exact (hk a ha).mpr h

/-- Where no fault is in the contract and every call is answered, a program that keeps
to it returns. -/
theorem not_meets_false (hK : ∀ e, ¬ K.faults e) (ha : ∀ c, ∃ a, K.answers c a)
    {p : Calls A F α} : ¬ p.Meets K fun _ => False := by
  induction p with
  | ret a => exact id
  | fault e => exact hK e
  | call c k ih =>
      rintro ⟨-, hmeets⟩
      obtain ⟨a, ha⟩ := ha c
      exact ih a (hmeets a ha)

end

/-! ## Runs -/

variable {S Ev : Type} {step : S → Ev → Calls A F S}

/-- The program that takes one event after the other. -/
def run (step : S → Ev → Calls A F S) : S → List Ev → Calls A F S
  | s, [] => .ret s
  | s, e :: es => step s e >>= fun t => run step t es

/-- Where a step leaves the state that `after` gives, whatever it is answered, a run
leaves that of `after`. -/
theorem run_meets_iff {K : Contract A F} {after : S → Ev → Except F S} {es : List Ev}
    (hstep : ∀ s e (Q : S → Prop), e ∈ es →
      ((step s e).Meets K Q ↔ ∃ t, after s e = .ok t ∧ Q t)) {s : S} {Q : S → Prop} :
    (run step s es).Meets K Q ↔ ∃ t, Machine.run after s es = .ok t ∧ Q t := by
  induction es generalizing s with
  | nil => simp [run]
  | cons e es ih =>
      rw [run, meets_bind, hstep s e _ List.mem_cons_self]
      have hrest := fun t => ih (fun s e Q he => hstep s e Q (List.mem_cons_of_mem _ he)) (s := t)
      simp only [hrest, run_cons_eq_ok]
      constructor
      · rintro ⟨t, ht, u, hu, hQ⟩
        exact ⟨u, ⟨t, ht, hu⟩, hQ⟩
      · rintro ⟨u, ⟨t, ht, hu⟩, hQ⟩
        exact ⟨t, ht, u, hu, hQ⟩

variable {T : Type}

/-- Steps beside those of a reference.  One faults where the reference does.  Where
the reference goes on, it returns a related state if the event is good, and is out of
the contract if not. -/
structure Follows (K : Contract A F) (R : S → T → Prop) (Good : T → Ev → Prop)
    (step : S → Ev → Calls A F S) (after : T → Ev → Except F T) : Prop where
  fault : ∀ s t e f, R s t → after t e = .error f → (step s e).Meets K fun _ => False
  good : ∀ s t e t', R s t → after t e = .ok t' → Good t e → ∃ s', step s e = .ret s' ∧ R s' t'
  bad : ∀ s t e t', R s t → after t e = .ok t' → ¬ Good t e → ¬ (step s e).Meets K fun _ => True

/-- A run is in the contract exactly when every event at which the reference goes on
is good. -/
theorem Follows.run_meets_iff {K : Contract A F} {R : S → T → Prop} {Good : T → Ev → Prop}
    {after : T → Ev → Except F T} (h : Follows K R Good step after) {s : S} {t : T}
    (hR : R s t) {es : List Ev} :
    ((run step s es).Meets K fun _ => True) ↔
      ∀ mid e post, es = mid ++ e :: post → ∀ t₁ t₂, Machine.run after t mid = .ok t₁ →
        after t₁ e = .ok t₂ → Good t₁ e := by
  induction es generalizing s t with
  | nil => exact iff_of_true trivial fun mid e post hsplit => absurd hsplit.symm (by simp)
  | cons e es ih =>
      rw [run, meets_bind]
      cases hafter : after t e with
      | error f =>
          refine iff_of_true ((h.fault s t e f hR hafter).mono fun _ hfalse => hfalse.elim) ?_
          intro mid e' post hsplit t₁ t₂ hrun hnext
          cases mid with
          | nil =>
              cases hsplit
              cases hrun
              exact nomatch hafter.symm.trans hnext
          | cons m mid =>
              cases hsplit
              obtain ⟨u, hu, -⟩ := run_cons_eq_ok.mp hrun
              exact nomatch hafter.symm.trans hu
      | ok t' =>
          by_cases hgood : Good t e
          · obtain ⟨s', hs', hR'⟩ := h.good s t e t' hR hafter hgood
            rw [hs', meets_ret, ih hR']
            constructor
            · intro hall mid e' post hsplit t₁ t₂ hrun hnext
              cases mid with
              | nil =>
                  cases hsplit
                  cases hrun
                  exact hgood
              | cons m mid =>
                  cases hsplit
                  obtain ⟨u, hu, hrun⟩ := run_cons_eq_ok.mp hrun
                  cases hafter.symm.trans hu
                  exact hall mid e' post rfl t₁ t₂ hrun hnext
            · intro hall mid e' post hsplit t₁ t₂ hrun
              exact hall (e :: mid) e' post (by rw [hsplit, List.cons_append]) t₁ t₂
                (run_cons_eq_ok.mpr ⟨t', hafter, hrun⟩)
          · refine iff_of_false (fun hmeets => ?_) fun hall => hgood ?_
            · exact h.bad s t e t' hR hafter hgood (hmeets.mono fun _ _ => trivial)
            · exact hall [] e es rfl t t' rfl hafter

end Calls

end Machine
