import Mathlib.Logic.Function.Basic
import Mathlib.Data.List.Infix

/-!
# `std::map` under insertion

A map is what it gives at each key.  `insert` does not replace: a key that is
present keeps its value.  So a map that is only ever inserted into gives each
key the first value written to it, which is `insertAll_apply`, and this is the
last value written at every time exactly when a key is never given two values,
which is `firstWrite_eq_lastWrite_iff`.
-/

namespace Cpp

variable {κ ν : Type}

/-- A `std::map`, by its lookups. -/
abbrev StdMap (κ ν : Type) := κ → Option ν

section
variable [DecidableEq κ]

/-- `m.insert({k, v})`. -/
def StdMap.insert (m : StdMap κ ν) (k : κ) (v : ν) : StdMap κ ν :=
  if (m k).isSome then m else Function.update m k (some v)

/-- The map without keys. -/
def StdMap.empty : StdMap κ ν := fun _ => none

/-- What a series of insertions leaves. -/
def StdMap.insertAll (m : StdMap κ ν) (log : List (κ × ν)) : StdMap κ ν :=
  log.foldl (fun m p => m.insert p.1 p.2) m

/-- The first value a log gives to a key. -/
def firstWrite : List (κ × ν) → κ → Option ν
  | [], _ => none
  | p :: log, k => if p.1 = k then some p.2 else firstWrite log k

/-- The last value a log gives to a key. -/
def lastWrite (log : List (κ × ν)) (k : κ) : Option ν := firstWrite log.reverse k

/-- A key that is present is kept. -/
theorem StdMap.insert_of_some {m : StdMap κ ν} {k : κ} {v : ν} (h : m k = some v) (k' : κ)
    (v' : ν) : (m.insert k' v') k = some v := by
  rw [insert]
  split
  next => exact h
  next hn =>
    have hne : k ≠ k' := by
      rintro rfl
      rw [h] at hn
      exact hn rfl
    rw [Function.update_of_ne hne, h]

theorem StdMap.insert_apply (m : StdMap κ ν) (k k' : κ) (v : ν) :
    (m.insert k v) k' = (m k').or (if k = k' then some v else none) := by
  rw [insert]
  cases hk : m k with
  | some w =>
      rw [Option.isSome_some, if_pos rfl]
      split
      next h => rw [← h, hk, Option.some_or]
      next => rw [Option.or_none]
  | none =>
      rw [Option.isSome_none, if_neg Bool.false_ne_true]
      split
      next h => rw [← h, Function.update_self, hk, Option.none_or]
      next h => rw [Function.update_of_ne (Ne.symm h), Option.or_none]

/-- Insertions keep what is there and then go by the first. -/
theorem StdMap.insertAll_apply (m : StdMap κ ν) (log : List (κ × ν)) (k : κ) :
    m.insertAll log k = (m k).or (firstWrite log k) := by
  induction log generalizing m with
  | nil => exact (Option.or_none).symm
  | cons p log ih =>
      show (m.insert p.1 p.2).insertAll log k = _
      rw [ih, insert_apply, Option.or_assoc, firstWrite]
      congr 1
      split
      next => rfl
      next => rw [Option.none_or]

theorem firstWrite_append (log log' : List (κ × ν)) (k : κ) :
    firstWrite (log ++ log') k = (firstWrite log k).or (firstWrite log' k) := by
  induction log with
  | nil => rfl
  | cons p log ih =>
      rw [List.cons_append, firstWrite, firstWrite, ih]
      split
      next => rfl
      next => rfl

theorem lastWrite_append_singleton (log : List (κ × ν)) (k : κ) (v : ν) :
    lastWrite (log ++ [(k, v)]) k = some v := by
  rw [lastWrite, List.reverse_append, List.reverse_singleton, List.singleton_append, firstWrite,
    if_pos rfl]

/-- The last write of two logs is that of the later one. -/
theorem lastWrite_append (log log' : List (κ × ν)) (k : κ) :
    lastWrite (log ++ log') k = (lastWrite log' k).or (lastWrite log k) := by
  rw [lastWrite, List.reverse_append, firstWrite_append]
  rfl

theorem lastWrite_cons (p : κ × ν) (log : List (κ × ν)) (k : κ) :
    lastWrite (p :: log) k = (lastWrite log k).or (if p.1 = k then some p.2 else none) := by
  rw [← List.singleton_append, lastWrite_append]
  rfl

/-- A value a log gives to a key is one of its entries. -/
theorem mem_of_firstWrite {log : List (κ × ν)} {k : κ} {v : ν} (h : firstWrite log k = some v) :
    (k, v) ∈ log := by
  induction log with
  | nil => exact nomatch h
  | cons p log ih =>
      rw [firstWrite] at h
      split at h
      next hp =>
        obtain ⟨k', v'⟩ := p
        cases hp
        cases h
        exact List.mem_cons_self
      next => exact List.mem_cons_of_mem p (ih h)

/-- A key with an entry has a first value. -/
theorem firstWrite_isSome {log : List (κ × ν)} {k : κ} {v : ν} (h : (k, v) ∈ log) :
    ∃ w, firstWrite log k = some w := by
  induction log with
  | nil => exact absurd h List.not_mem_nil
  | cons p log ih =>
      rw [firstWrite]
      split
      next => exact ⟨_, rfl⟩
      next hp =>
        cases List.mem_cons.mp h with
        | inl heq => exact absurd (congrArg Prod.fst heq).symm hp
        | inr hmem => exact ih hmem

/-- A key without a last write is not in the log. -/
theorem lastWrite_eq_none_iff {log : List (κ × ν)} {k : κ} :
    lastWrite log k = none ↔ ∀ p ∈ log, p.1 ≠ k := by
  induction log with
  | nil => exact iff_of_true rfl fun p hp => absurd hp List.not_mem_nil
  | cons p log ih =>
      rw [lastWrite_cons, Option.or_eq_none_iff, ih, List.forall_mem_cons, and_comm]
      refine and_congr_left fun _ => ?_
      split
      next h => exact iff_of_false (fun hn => nomatch hn) fun hne => hne h
      next h => exact iff_of_true rfl h

/-- The first write is the last one at every time exactly when a key is never
given two values. -/
theorem firstWrite_eq_lastWrite_iff (log : List (κ × ν)) :
    (∀ p, p <+: log → ∀ k, firstWrite p k = lastWrite p k) ↔
      ∀ k v w, (k, v) ∈ log → (k, w) ∈ log → v = w := by
  constructor
  · intro h k v w hv hw
    -- Each value of a key was its last write once, and the first write never changes.
    have hfirst (u : ν) (hu : (k, u) ∈ log) : firstWrite log k = some u := by
      obtain ⟨p, q, hpq⟩ := List.append_of_mem hu
      have hcut : log = (p ++ [(k, u)]) ++ q := by
        rw [hpq, List.append_assoc, List.singleton_append]
      have hp := h (p ++ [(k, u)]) ⟨q, hcut.symm⟩ k
      rw [lastWrite_append_singleton] at hp
      rw [hcut, firstWrite_append, hp, Option.some_or]
    exact Option.some_inj.mp ((hfirst v hv).symm.trans (hfirst w hw))
  · intro h p hp k
    rw [lastWrite]
    cases hf : firstWrite p k with
    | none =>
        cases hl : firstWrite p.reverse k with
        | none => rfl
        | some w =>
            obtain ⟨v, hv⟩ := firstWrite_isSome (List.mem_reverse.mp (mem_of_firstWrite hl))
            exact nomatch hf.symm.trans hv
    | some v =>
        have hv := mem_of_firstWrite hf
        obtain ⟨w, hw⟩ := firstWrite_isSome (List.mem_reverse.mpr hv)
        have hmem := List.mem_reverse.mp (mem_of_firstWrite hw)
        rw [hw, h k v w (hp.subset hv) (hp.subset hmem)]

end

end Cpp
