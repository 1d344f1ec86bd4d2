import Mathlib.Tactic.Common

/-!
# Runs of a step function

A deterministic machine is a step function `S → Option S`, with `none` when it
cannot move.  `RunsTo` is the first state on the run that a test accepts, so a
claim about "the state at the call" speaks of one state: `RunsTo.unique`.

A run is put together from `Path`s, pieces that meet no accepted state before
their end.  `Path.iterate` is the loop rule.
-/

namespace Machine

variable {S : Type} (step : S → Option S) (stop : S → Bool)

/-- Run for at most `n` steps, up to the first accepted state. -/
def runUntil : Nat → S → Option S
  | 0, s => if stop s then some s else none
  | n + 1, s => if stop s then some s else (step s).bind (runUntil n)

/-- `t` is the first accepted state on the run from `s`. -/
def RunsTo (s t : S) : Prop := ∃ n, runUntil step stop n s = some t

/-- A piece of a run, with no accepted state before its end. -/
inductive Path : S → S → Prop
  | refl (s : S) : Path s s
  | head {s s' t : S} : stop s = false → step s = some s' → Path s' t → Path s t

variable {step stop}

theorem Path.single {s t : S} (hstop : stop s = false) (hstep : step s = some t) :
    Path step stop s t := .head hstop hstep (.refl t)

theorem Path.trans {s t u : S} (h : Path step stop s t) (h' : Path step stop t u) :
    Path step stop s u := by
  induction h with
  | refl => exact h'
  | head hstop hstep _ ih => exact .head hstop hstep (ih h')

/-- A path to an accepted state is a run to it. -/
theorem Path.runsTo {s t : S} (h : Path step stop s t) (hstop : stop t = true) :
    RunsTo step stop s t := by
  induction h with
  | refl s => exact ⟨0, by rw [runUntil, if_pos hstop]⟩
  | head hs hstep _ ih =>
      obtain ⟨n, hn⟩ := ih hstop
      refine ⟨n + 1, ?_⟩
      rw [runUntil, hs, if_neg Bool.false_ne_true, hstep, Option.bind_some, hn]

theorem runUntil_succ {s t : S} : ∀ {n : Nat},
    runUntil step stop n s = some t → runUntil step stop (n + 1) s = some t
  | 0, h => by
      rw [runUntil] at h
      by_cases hs : stop s = true
      · rw [runUntil, if_pos hs]
        rwa [if_pos hs] at h
      · rw [if_neg hs] at h
        cases h
  | n + 1, h => by
      rw [runUntil] at h ⊢
      by_cases hs : stop s = true
      · rwa [if_pos hs] at h ⊢
      · rw [if_neg hs] at h ⊢
        obtain ⟨s', hs', hrun⟩ := Option.bind_eq_some_iff.mp h
        exact Option.bind_eq_some_iff.mpr ⟨s', hs', runUntil_succ hrun⟩

theorem runUntil_le {s t : S} {n k : Nat} (h : runUntil step stop n s = some t) (hle : n ≤ k) :
    runUntil step stop k s = some t := by
  induction hle with
  | refl => exact h
  | step _ ih => exact runUntil_succ ih

/-- There is one first accepted state. -/
theorem RunsTo.unique {s t u : S} (h : RunsTo step stop s t) (h' : RunsTo step stop s u) :
    t = u := by
  obtain ⟨n, hn⟩ := h
  obtain ⟨k, hk⟩ := h'
  have ht := runUntil_le hn (Nat.le_max_left n k)
  have hu := runUntil_le hk (Nat.le_max_right n k)
  exact Option.some.inj (ht.symm.trans hu)

/-- The loop rule: an invariant indexed by the rounds left, kept by one round. -/
theorem Path.iterate {inv : Nat → S → Prop}
    (round : ∀ k s, inv (k + 1) s → ∃ t, inv k t ∧ Path step stop s t) :
    ∀ k s, inv k s → ∃ t, inv 0 t ∧ Path step stop s t
  | 0, s, h => ⟨s, h, .refl s⟩
  | k + 1, s, h => by
      obtain ⟨t, ht, hst⟩ := round k s h
      obtain ⟨u, hu, htu⟩ := Path.iterate round k t ht
      exact ⟨u, hu, hst.trans htu⟩

/-- A stretch of a listing whose instructions only change the state runs to its
end. -/
theorem path_stretch {I T : Type} {prog : List I} (place : Nat → T → S) (exec : T → I → T)
    (data : I → Bool) (hstop : ∀ pc s i, prog[pc]? = some i → data i = true →
      stop (place pc s) = false)
    (hstep : ∀ pc s i, prog[pc]? = some i → data i = true →
      step (place pc s) = some (place (pc + 1) (exec s i))) :
    ∀ (is : List I) (pc : Nat) (s : T), is <+: prog.drop pc → (∀ i ∈ is, data i = true) →
      Path step stop (place pc s) (place (pc + is.length) (is.foldl exec s))
  | [], pc, s, _, _ => .refl _
  | i :: is, pc, s, hpre, hdata => by
      obtain ⟨rest, hrest⟩ := hpre
      have hi : data i = true := hdata i List.mem_cons_self
      have hget : prog[pc]? = some i := by
        have h0 : (prog.drop pc)[0]? = some i := by rw [← hrest]; rfl
        rwa [List.getElem?_drop, Nat.add_zero] at h0
      have htail : is <+: prog.drop (pc + 1) := ⟨rest, by rw [← List.tail_drop, ← hrest]; rfl⟩
      have hrun := path_stretch place exec data hstop hstep is (pc + 1) (exec s i) htail
        fun j hj => hdata j (List.mem_cons_of_mem _ hj)
      rw [Nat.add_assoc, Nat.add_comm 1] at hrun
      exact .head (hstop pc s i hget hi) (hstep pc s i hget hi) hrun

end Machine
