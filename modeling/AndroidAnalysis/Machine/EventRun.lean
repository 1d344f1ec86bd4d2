/-!
# Runs of an event system

A system takes one event after the other, and a step may fault.  `run` is a
list of events taken in order.  A property of runs is proved from one of steps:
`run_invariant` for a property of states, `run_relation` for one that relates
the ends of a run, and `run_log` for what a run records of its events.
`run_always_iff` gives the exact condition for a property to hold all along, and
`run_safe_iff` the one for a run that is not to fault either.
-/

namespace Machine

variable {S Ev F : Type}

/-- The state after a list of events. -/
def run (step : S → Ev → Except F S) : S → List Ev → Except F S
  | s, [] => .ok s
  | s, e :: es =>
      match step s e with
      | .ok s' => run step s' es
      | .error f => .error f

section
variable {step : S → Ev → Except F S}

@[simp] theorem run_nil (s : S) : run step s [] = .ok s := rfl

/-- A run that takes an event took the step of it. -/
theorem run_cons_eq_ok {s s' : S} {e : Ev} {es : List Ev} :
    run step s (e :: es) = .ok s' ↔ ∃ t, step s e = .ok t ∧ run step t es = .ok s' := by
  rw [run]
  cases step s e with
  | ok t => simp
  | error f => simp

/-- A run and one more step. -/
theorem run_append_singleton {s t t' : S} {es : List Ev} {e : Ev} (h : run step s es = .ok t)
    (hstep : step t e = .ok t') : run step s (es ++ [e]) = .ok t' := by
  induction es generalizing s with
  | nil =>
      cases h
      exact run_cons_eq_ok.mpr ⟨t', hstep, rfl⟩
  | cons e' es ih =>
      obtain ⟨u, hu, hrun⟩ := run_cons_eq_ok.mp h
      exact run_cons_eq_ok.mpr ⟨u, hu, ih hrun⟩

/-- What every step relates, a run relates. -/
theorem run_relation {R : S → S → Prop} (hrefl : ∀ s, R s s)
    (htrans : ∀ s t u, R s t → R t u → R s u) (hstep : ∀ s e s', step s e = .ok s' → R s s')
    {s s' : S} {es : List Ev} (h : run step s es = .ok s') : R s s' := by
  induction es generalizing s with
  | nil =>
      rw [run_nil, Except.ok.injEq] at h
      exact h ▸ hrefl s
  | cons e es ih =>
      obtain ⟨t, ht, hs⟩ := run_cons_eq_ok.mp h
      exact htrans s t s' (hstep s e t ht) (ih hs)

/-- What no step changes, a run does not change. -/
theorem run_same {A : Type} {f : S → A} (hstep : ∀ s e s', step s e = .ok s' → f s' = f s)
    {s s' : S} {es : List Ev} (h : run step s es = .ok s') : f s' = f s :=
  run_relation (R := fun s s' => f s' = f s) (fun _ => rfl) (fun _ _ _ h h' => h'.trans h) hstep h

/-- A log to which every step adds what its event gives has, after a run, what
the events give. -/
theorem run_log {A : Type} {log : S → List A} {out : Ev → Option A}
    (hstep : ∀ s e s', step s e = .ok s' → log s' = log s ++ (out e).toList)
    {s s' : S} {es : List Ev} (h : run step s es = .ok s') :
    log s' = log s ++ es.filterMap out := by
  induction es generalizing s with
  | nil =>
      rw [run_nil, Except.ok.injEq] at h
      rw [h, List.filterMap_nil, List.append_nil]
  | cons e es ih =>
      obtain ⟨t, ht, hrun⟩ := run_cons_eq_ok.mp h
      rw [ih hrun, hstep s e t ht, List.append_assoc]
      cases he : out e with
      | none => rw [List.filterMap_cons_none he]; rfl
      | some a => rw [List.filterMap_cons_some he]; rfl

/-- What the steps of a run keep, it keeps. -/
theorem run_invariant_mem {P : S → Prop} {es : List Ev}
    (hstep : ∀ s e s', e ∈ es → P s → step s e = .ok s' → P s') {s s' : S} (hs : P s)
    (h : run step s es = .ok s') : P s' := by
  induction es generalizing s with
  | nil =>
      rw [run_nil, Except.ok.injEq] at h
      exact h ▸ hs
  | cons e es ih =>
      obtain ⟨t, ht, hrun⟩ := run_cons_eq_ok.mp h
      exact ih (fun s e' s' he => hstep s e' s' (List.mem_cons_of_mem e he))
        (hstep s e t List.mem_cons_self hs ht) hrun

/-- What every step keeps, a run keeps. -/
theorem run_invariant {P : S → Prop} (hstep : ∀ s e s', P s → step s e = .ok s' → P s')
    {s s' : S} {es : List Ev} (hs : P s) (h : run step s es = .ok s') : P s' :=
  run_invariant_mem (fun s e s' _ => hstep s e s') hs h

/-- What a step keeps where it is guarded, a run keeps whose steps all are. -/
theorem run_invariant_guarded {P : S → Prop} {G : S → Ev → Prop}
    (hstep : ∀ s e s', P s → G s e → step s e = .ok s' → P s') {s s' : S} {es : List Ev} (hs : P s)
    (hguard : ∀ past e post, es = past ++ e :: post → ∀ t, run step s past = .ok t → G t e)
    (h : run step s es = .ok s') : P s' := by
  induction es generalizing s with
  | nil =>
      rw [run_nil, Except.ok.injEq] at h
      exact h ▸ hs
  | cons e es ih =>
      obtain ⟨t, ht, hrun⟩ := run_cons_eq_ok.mp h
      refine ih (hstep s e t hs (hguard [] e es rfl s rfl) ht) ?_ hrun
      intro past e' post hes u hu
      exact hguard (e :: past) e' post (by rw [hes]; rfl) u (run_cons_eq_ok.mpr ⟨t, ht, hu⟩)

/-- A property holds at every time of a run exactly when every event is good,
where a good event keeps an invariant that gives the property, and after one that
is not the property fails. -/
theorem run_always_iff (Inv : List Ev → S → Prop) (P : S → Prop) (Good : List Ev → Ev → Prop)
    {es : List Ev} (hinv : ∀ past s, Inv past s → P s)
    (hkeep : ∀ past s e s', e ∈ es → Inv past s → step s e = .ok s' → Good past e →
      Inv (past ++ [e]) s')
    (hbreak : ∀ past s e s', e ∈ es → Inv past s → step s e = .ok s' → ¬ Good past e → ¬ P s')
    (past : List Ev) {s s' : S} (hs : Inv past s) (h : run step s es = .ok s') :
    (∀ p, p <+: es → ∀ q, run step s p = .ok q → P q) ↔
      ∀ mid e post, es = mid ++ e :: post → Good (past ++ mid) e := by
  induction es generalizing past s with
  | nil =>
      refine iff_of_true (fun p hp q hq => ?_) fun mid e post hsplit => ?_
      · rw [List.prefix_nil.mp hp, run_nil, Except.ok.injEq] at hq
        exact hq ▸ hinv past s hs
      · exact absurd hsplit.symm (by simp)
  | cons e es ih =>
      obtain ⟨t, ht, hrun⟩ := run_cons_eq_ok.mp h
      by_cases hgood : Good past e
      · have hnext := ih (fun past s e' s' he => hkeep past s e' s' (List.mem_cons_of_mem _ he))
          (fun past s e' s' he => hbreak past s e' s' (List.mem_cons_of_mem _ he))
          (past ++ [e]) (hkeep past s e t List.mem_cons_self hs ht hgood) hrun
        constructor
        · intro hall mid e' post hsplit
          cases mid with
          | nil =>
              cases hsplit
              rwa [List.append_nil]
          | cons m mid =>
              cases hsplit
              have := hnext.mp (fun p hp q hq => hall (e :: p)
                (List.cons_prefix_cons.mpr ⟨rfl, hp⟩) q (run_cons_eq_ok.mpr ⟨t, ht, hq⟩))
                mid e' post rfl
              rwa [List.append_assoc, List.singleton_append] at this
        · intro hall p hp q hq
          cases p with
          | nil =>
              rw [run_nil, Except.ok.injEq] at hq
              exact hq ▸ hinv past s hs
          | cons m p =>
              obtain ⟨rfl, htail⟩ := List.cons_prefix_cons.mp hp
              obtain ⟨u, hu, hq⟩ := run_cons_eq_ok.mp hq
              rw [ht, Except.ok.injEq] at hu
              subst hu
              refine hnext.mpr (fun mid e' post hsplit => ?_) p htail q hq
              have := hall (m :: mid) e' post (by rw [hsplit, List.cons_append])
              rwa [List.append_assoc, List.singleton_append]
      · refine iff_of_false (fun hall => ?_) fun hall => hgood ?_
        · exact hbreak past s e t List.mem_cons_self hs ht hgood
            (hall [e] (List.cons_prefix_cons.mpr ⟨rfl, List.nil_prefix⟩) t
              (run_cons_eq_ok.mpr ⟨t, ht, rfl⟩))
        · have := hall [] e es rfl
          rwa [List.append_nil] at this

/-- The same, where events are good or not whenever they happen. -/
theorem run_always_iff_mem (Inv P : S → Prop) (Good : Ev → Prop) {es : List Ev}
    (hinv : ∀ s, Inv s → P s)
    (hkeep : ∀ s e s', e ∈ es → Inv s → step s e = .ok s' → Good e → Inv s')
    (hbreak : ∀ s e s', e ∈ es → Inv s → step s e = .ok s' → ¬ Good e → ¬ P s')
    {s s' : S} (hs : Inv s) (h : run step s es = .ok s') :
    (∀ p, p <+: es → ∀ q, run step s p = .ok q → P q) ↔ ∀ e ∈ es, Good e := by
  rw [run_always_iff (fun _ => Inv) P (fun _ => Good) (fun _ => hinv) (fun _ => hkeep)
    (fun _ => hbreak) [] hs h]
  constructor
  · intro hall e he
    obtain ⟨mid, post, hsplit⟩ := List.append_of_mem he
    exact hall mid e post hsplit
  · rintro hall mid e post rfl
    exact hall e (List.mem_append_right _ List.mem_cons_self)

/-- The same, where an event is good or not for the state it happens in. -/
theorem run_always_iff_state (Inv P : S → Prop) (Good : S → Ev → Prop) {es : List Ev}
    (hinv : ∀ s, Inv s → P s)
    (hkeep : ∀ s e s', Inv s → step s e = .ok s' → Good s e → Inv s')
    (hbreak : ∀ s e s', Inv s → step s e = .ok s' → ¬ Good s e → ¬ P s') {s s' : S} (hs : Inv s)
    (h : run step s es = .ok s') :
    (∀ p, p <+: es → ∀ q, run step s p = .ok q → P q) ↔
      ∀ mid e post, es = mid ++ e :: post → ∀ q, run step s mid = .ok q → Good q e := by
  refine run_always_iff (fun past t => run step s past = .ok t ∧ Inv t) P
    (fun past e => ∀ q, run step s past = .ok q → Good q e) (fun _ t ht => hinv t ht.2)
    (fun past t e t' _ ht hstep hgood => ?_) (fun past t e t' _ ht hstep hbad => ?_)
    [] ⟨rfl, hs⟩ h
  · exact ⟨run_append_singleton ht.1 hstep, hkeep t e t' ht.2 hstep (hgood t ht.1)⟩
  · refine hbreak t e t' ht.2 hstep fun hgood => hbad fun q hq => ?_
    cases ht.1.symm.trans hq
    exact hgood

/-- A run never faults and its states have a property exactly when every event is
good for the state it happens in, where an event is good when its step returns a
state with the property. -/
theorem run_safe_iff (Inv P : S → Prop) (Good : S → Ev → Prop) {es : List Ev}
    (hstep : ∀ s e, e ∈ es → Inv s → ((∃ t, step s e = .ok t ∧ P t) ↔ Good s e))
    (hkeep : ∀ s e t, e ∈ es → Inv s → step s e = .ok t → P t → Inv t)
    {s : S} (hs : Inv s) (hP : P s) :
    (∀ p, p <+: es → ∃ t, run step s p = .ok t ∧ P t) ↔
      ∀ mid e post, es = mid ++ e :: post → ∀ t, run step s mid = .ok t → Good t e := by
  induction es generalizing s with
  | nil =>
      refine iff_of_true (fun p hp => ?_) fun mid e post hsplit => absurd hsplit.symm (by simp)
      exact ⟨s, by rw [List.prefix_nil.mp hp, run_nil], hP⟩
  | cons e es ih =>
      have htail := fun t => ih (s := t)
        (fun s e' he => hstep s e' (List.mem_cons_of_mem e he))
        (fun s e' t he => hkeep s e' t (List.mem_cons_of_mem e he))
      have hhead := hstep s e List.mem_cons_self hs
      constructor
      · intro hall mid e' post hsplit t ht
        obtain ⟨u, hu, hPu⟩ := hall [e] (List.cons_prefix_cons.mpr ⟨rfl, List.nil_prefix⟩)
        obtain ⟨u', hu, hnil⟩ := run_cons_eq_ok.mp hu
        cases hnil
        cases mid with
        | nil =>
            cases hsplit
            cases ht
            exact hhead.mp ⟨u, hu, hPu⟩
        | cons m mid =>
            cases hsplit
            obtain ⟨v, hv, ht⟩ := run_cons_eq_ok.mp ht
            cases hu.symm.trans hv
            refine (htail u (hkeep s e u List.mem_cons_self hs hu hPu) hPu).mp (fun p hp => ?_)
              mid e' post rfl t ht
            obtain ⟨w, hw, hPw⟩ := hall (e :: p) (List.cons_prefix_cons.mpr ⟨rfl, hp⟩)
            obtain ⟨u'', hu'', hw⟩ := run_cons_eq_ok.mp hw
            cases hu.symm.trans hu''
            exact ⟨w, hw, hPw⟩
      · intro hall p hp
        cases p with
        | nil => exact ⟨s, rfl, hP⟩
        | cons m p =>
            obtain ⟨rfl, htake⟩ := List.cons_prefix_cons.mp hp
            obtain ⟨u, hu, hPu⟩ := hhead.mpr (hall [] m es rfl s rfl)
            obtain ⟨t, ht, hPt⟩ := (htail u (hkeep s m u List.mem_cons_self hs hu hPu) hPu).mpr
              (fun mid e' post hsplit t ht => hall (m :: mid) e' post
                (by rw [hsplit, List.cons_append]) t (run_cons_eq_ok.mpr ⟨u, hu, ht⟩)) p htake
            exact ⟨t, run_cons_eq_ok.mpr ⟨u, hu, ht⟩, hPt⟩

end

/-! ## Steps that do not fault -/

theorem run_foldl (step : S → Ev → S) (s : S) (es : List Ev) :
    run (F := F) (fun s e => .ok (step s e)) s es = .ok (es.foldl step s) := by
  induction es generalizing s with
  | nil => rfl
  | cons e es ih => exact ih (step s e)

/-- `run_always_iff` for steps that do not fault. -/
theorem foldl_always_iff {step : S → Ev → S} (Inv : List Ev → S → Prop) (P : S → Prop)
    (Good : List Ev → Ev → Prop) (hinv : ∀ past s, Inv past s → P s)
    (hkeep : ∀ past s e, Inv past s → Good past e → Inv (past ++ [e]) (step s e))
    (hbreak : ∀ past s e, Inv past s → ¬ Good past e → ¬ P (step s e))
    (past : List Ev) {s : S} (hs : Inv past s) (es : List Ev) :
    (∀ p, p <+: es → P (p.foldl step s)) ↔
      ∀ mid e post, es = mid ++ e :: post → Good (past ++ mid) e := by
  have hrun := run_always_iff Inv P Good hinv
    (fun past s e s' _ hs hstep hgood => by
      cases hstep
      exact hkeep past s e hs hgood)
    (fun past s e s' _ hs hstep hbad => by
      cases hstep
      exact hbreak past s e hs hbad)
    past hs (run_foldl (F := Empty) step s es)
  rw [← hrun]
  refine forall_congr' fun p => imp_congr_right fun _ => ?_
  rw [run_foldl]
  exact ⟨fun h q hq => Except.ok.inj hq ▸ h, fun h => h _ rfl⟩

/-- The same, where an event is good or not for the state it happens in. -/
theorem foldl_always_iff_state {step : S → Ev → S} (Inv P : S → Prop) (Good : S → Ev → Prop)
    (hinv : ∀ s, Inv s → P s) (hkeep : ∀ s e, Inv s → Good s e → Inv (step s e))
    (hbreak : ∀ s e, Inv s → ¬ Good s e → ¬ P (step s e)) {s : S} (hs : Inv s) (es : List Ev) :
    (∀ p, p <+: es → P (p.foldl step s)) ↔
      ∀ mid e post, es = mid ++ e :: post → Good (mid.foldl step s) e :=
  foldl_always_iff (fun past t => t = past.foldl step s ∧ Inv t) P
    (fun past e => Good (past.foldl step s) e) (fun _ t h => hinv t h.2)
    (fun past t e h hgood => by
      obtain ⟨rfl, hinv⟩ := h
      exact ⟨by rw [List.foldl_append]; rfl, hkeep _ e hinv hgood⟩)
    (fun past t e h hbad => by
      obtain ⟨rfl, hinv⟩ := h
      exact hbreak _ e hinv hbad)
    [] ⟨rfl, hs⟩ es

end Machine
