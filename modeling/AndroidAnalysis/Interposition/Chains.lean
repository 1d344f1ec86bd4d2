import Mathlib.Data.List.Nodup
import Mathlib.Logic.Function.Basic

/-!
# Hooks that save what they replace

A table holds a pointer in each slot.  Installing a hook saves the pointer of a slot
in the record of the hook and puts the hook there instead, and a call through the
slot is passed on by following the saved pointers.  A pass installs a list of
hooks.

After one pass over hooks with records of their own, every slot still leads to the
code it held (`reaches_pass`): a hook saves a pointer that leads there by records
that were written before it.  After a second pass no slot of the list leads to any
code (`not_reaches_pass_pass`): the records then hold hooks only, and what they hold
is never left again.
-/

namespace Interposition

/-- A pointer: to code, or to a hook with its record. -/
inductive Ptr (F R : Type*)
  | code (f : F)
  | hook (r : R)

/-- The slots of the table, and what the records have saved. -/
structure State (F S R : Type*) where
  slots : S → Ptr F R
  saved : R → Option (Ptr F R)

/-- Following the saved pointers leads from a pointer to some code. -/
inductive Reaches {F R : Type*} (saved : R → Option (Ptr F R)) : Ptr F R → F → Prop
  | code (f : F) : Reaches saved (.code f) f
  | hook {r : R} {p : Ptr F R} {f : F} : saved r = some p → Reaches saved p f →
      Reaches saved (.hook r) f

variable {F S R : Type*}

/-- More records lead where fewer did. -/
theorem Reaches.mono {saved saved' : R → Option (Ptr F R)} {p : Ptr F R} {f : F}
    (h : Reaches saved p f) (hsaved : ∀ r q, saved r = some q → saved' r = some q) :
    Reaches saved' p f := by
  induction h with
  | code f => exact .code f
  | hook hr _ ih => exact .hook (hsaved _ _ hr) ih

/-- A pointer to a hook of a list. -/
def Ptr.IsHookOf (records : List R) (p : Ptr F R) : Prop := ∃ r ∈ records, p = .hook r

/-- Records that hold hooks of the list only lead to no code. -/
theorem not_reaches_of_closed {records : List R} {saved : R → Option (Ptr F R)}
    (hclosed : ∀ r ∈ records, ∃ p, saved r = some p ∧ p.IsHookOf records) {p : Ptr F R}
    (hp : p.IsHookOf records) (f : F) : ¬ Reaches saved p f := by
  intro h
  induction h with
  | code f =>
      obtain ⟨r, -, hr⟩ := hp
      exact nomatch hr
  | hook hr _ ih =>
      obtain ⟨r, hmem, heq⟩ := hp
      cases heq
      obtain ⟨q, hq, hhook⟩ := hclosed _ hmem
      rw [hr] at hq
      cases hq
      exact ih hhook

section
variable [DecidableEq S] [DecidableEq R]

/-- One hook is installed: its slot and its record. -/
def install (st : State F S R) (e : S × R) : State F S R where
  slots := Function.update st.slots e.1 (.hook e.2)
  saved := Function.update st.saved e.2 (some (st.slots e.1))

/-- The hooks of a list are installed. -/
def pass (entries : List (S × R)) (st : State F S R) : State F S R := entries.foldl install st

/-- The list is installed a number of times. -/
def passes (entries : List (S × R)) : Nat → State F S R → State F S R
  | 0, st => st
  | n + 1, st => pass entries (passes entries n st)

/-! ## One pass -/

/-- What is saved in some of the records. -/
def only (records : List R) (saved : R → Option (Ptr F R)) (r : R) : Option (Ptr F R) :=
  if r ∈ records then saved r else none

/-- Every slot leads to its code by the records of a list. -/
def LeadsBy (records : List R) (st : State F S R) (origin : S → F) : Prop :=
  ∀ s, Reaches (only records st.saved) (st.slots s) (origin s)

/-- A hook whose record has not been used takes its record into the list. -/
theorem LeadsBy.install {records : List R} {st : State F S R} {origin : S → F}
    (h : LeadsBy records st origin) {e : S × R} (he : e.2 ∉ records) :
    LeadsBy (e.2 :: records) (install st e) origin := by
  have hmono (s : S) : Reaches (only (e.2 :: records) (Interposition.install st e).saved)
      (st.slots s) (origin s) := by
    refine (h s).mono fun r q hr => ?_
    rw [only] at hr ⊢
    split at hr
    next hmem =>
      have hne : r ≠ e.2 := fun heq => he (heq ▸ hmem)
      rw [if_pos (List.mem_cons_of_mem _ hmem)]
      exact (Function.update_of_ne hne _ _).trans hr
    next => exact nomatch hr
  intro s
  by_cases hs : s = e.1
  · subst hs
    have hslot : (Interposition.install st e).slots e.1 = .hook e.2 := Function.update_self _ _ _
    rw [hslot]
    refine .hook (p := st.slots e.1) ?_ (hmono e.1)
    rw [only, if_pos List.mem_cons_self]
    exact Function.update_self _ _ _
  · have hslot : (Interposition.install st e).slots s = st.slots s := Function.update_of_ne hs _ _
    rw [hslot]
    exact hmono s

/-- A pass with records that have not been used. -/
theorem LeadsBy.pass {records : List R} {st : State F S R} {origin : S → F}
    (h : LeadsBy records st origin) {entries : List (S × R)} (hnodup : (entries.map Prod.snd).Nodup)
    (hfresh : ∀ e ∈ entries, e.2 ∉ records) :
    ∃ records', LeadsBy records' (pass entries st) origin := by
  induction entries generalizing records st with
  | nil => exact ⟨records, h⟩
  | cons e entries ih =>
      rw [List.map_cons, List.nodup_cons] at hnodup
      refine ih (h.install (hfresh e List.mem_cons_self)) hnodup.2 fun e' he' => ?_
      rw [List.mem_cons, not_or]
      refine ⟨fun heq => hnodup.1 ?_, hfresh e' (List.mem_cons_of_mem e he')⟩
      exact heq ▸ List.mem_map_of_mem he'

/-- After one pass every slot leads to the code it held. -/
theorem reaches_pass {entries : List (S × R)} (hnodup : (entries.map Prod.snd).Nodup)
    {st : State F S R} {origin : S → F} (h : ∀ s, st.slots s = .code (origin s)) (s : S) :
    Reaches (pass entries st).saved ((pass entries st).slots s) (origin s) := by
  have hstart : LeadsBy [] st origin := fun s => by
    rw [h s]
    exact .code _
  obtain ⟨records, hpass⟩ := hstart.pass hnodup fun _ _ => List.not_mem_nil
  refine (hpass s).mono fun r q hr => ?_
  rw [only] at hr
  split at hr
  next => exact hr
  next => exact nomatch hr

/-! ## Two passes -/

/-- A slot holds a hook of the list after the pass where it did before, or where the pass
installs one in it. -/
theorem slots_pass {records : List R} {entries : List (S × R)}
    (hrecords : ∀ e ∈ entries, e.2 ∈ records) {st : State F S R} {s : S}
    (h : s ∈ entries.map Prod.fst ∨ (st.slots s).IsHookOf records) :
    ((pass entries st).slots s).IsHookOf records := by
  induction entries generalizing st with
  | nil => exact h.resolve_left List.not_mem_nil
  | cons e entries ih =>
      refine ih (fun e' he' => hrecords e' (List.mem_cons_of_mem e he')) ?_
      by_cases hs : s = e.1
      · refine .inr ⟨e.2, hrecords e List.mem_cons_self, ?_⟩
        rw [hs]
        exact Function.update_self _ _ _
      · have hslot : (install st e).slots s = st.slots s := Function.update_of_ne hs _ _
        rw [hslot]
        rw [List.map_cons, List.mem_cons] at h
        exact h.imp_left fun hmem => hmem.resolve_left hs

/-- A record holds a hook of the list after a pass over slots that held one. -/
theorem saved_pass {records : List R} {entries : List (S × R)}
    (hrecords : ∀ e ∈ entries, e.2 ∈ records) {st : State F S R}
    (hslots : ∀ e ∈ entries, (st.slots e.1).IsHookOf records) {r : R}
    (h : r ∈ entries.map Prod.snd ∨ ∃ p, st.saved r = some p ∧ p.IsHookOf records) :
    ∃ p, (pass entries st).saved r = some p ∧ p.IsHookOf records := by
  induction entries generalizing st with
  | nil => exact h.resolve_left List.not_mem_nil
  | cons e entries ih =>
      refine ih (fun e' he' => hrecords e' (List.mem_cons_of_mem e he')) ?_ ?_
      · intro e' he'
        show ((pass [e] st).slots e'.1).IsHookOf records
        refine slots_pass ?_ (.inr (hslots e' (List.mem_cons_of_mem e he')))
        exact fun e'' he'' => List.mem_singleton.mp he'' ▸ hrecords e List.mem_cons_self
      · by_cases hr : r = e.2
        · refine .inr ⟨st.slots e.1, ?_, hslots e List.mem_cons_self⟩
          rw [hr]
          exact Function.update_self _ _ _
        · have hsaved : (install st e).saved r = st.saved r := Function.update_of_ne hr _ _
          rw [hsaved]
          rw [List.map_cons, List.mem_cons] at h
          exact h.imp_left fun hmem => hmem.resolve_left hr

/-- After two passes no slot of the list leads to any code. -/
theorem not_reaches_pass_pass (entries : List (S × R)) (st : State F S R) {s : S}
    (hs : s ∈ entries.map Prod.fst) (f : F) :
    ¬ Reaches (pass entries (pass entries st)).saved ((pass entries (pass entries st)).slots s)
      f := by
  have hrecords : ∀ e ∈ entries, e.2 ∈ entries.map Prod.snd := fun e he => List.mem_map_of_mem he
  have hslots : ∀ e ∈ entries, ((pass entries st).slots e.1).IsHookOf (entries.map Prod.snd) :=
    fun e he => slots_pass hrecords (.inl (List.mem_map_of_mem he))
  refine not_reaches_of_closed ?_ (slots_pass hrecords (.inl hs)) f
  exact fun r hr => saved_pass hrecords hslots (.inl hr)

/-! ## Any number of passes -/

/-- After two passes or more no slot of the list leads to any code. -/
theorem not_reaches_passes (entries : List (S × R)) (st : State F S R) (n : Nat) {s : S}
    (hs : s ∈ entries.map Prod.fst) (f : F) :
    ¬ Reaches (passes entries (n + 2) st).saved ((passes entries (n + 2) st).slots s) f :=
  not_reaches_pass_pass entries (passes entries n st) hs f

/-- A slot of the list leads to the code it held exactly after one pass. -/
theorem reaches_passes_iff {entries : List (S × R)} (hnodup : (entries.map Prod.snd).Nodup)
    {st : State F S R} {origin : S → F} (h : ∀ s, st.slots s = .code (origin s)) {n : Nat}
    (hn : 1 ≤ n) {s : S} (hs : s ∈ entries.map Prod.fst) :
    Reaches (passes entries n st).saved ((passes entries n st).slots s) (origin s) ↔ n = 1 := by
  cases n with
  | zero => exact absurd hn (by decide)
  | succ n =>
      cases n with
      | zero => exact iff_of_true (reaches_pass hnodup h s) rfl
      | succ n =>
          exact iff_of_false (not_reaches_passes entries st n hs _) (by omega)

end

end Interposition
