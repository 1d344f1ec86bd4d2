import AndroidAnalysis.Machine.Memory

/-!
# Slots that are given a new function

A slot is a word of memory that a call goes through.  `replaceSlot` puts a new
function into it and saves the one that it held, and `replaceAll` does so for a list
of slots, but for those that hold the new function already.

`read64_replaceAll` says what a word holds afterwards and `replaceAll_saved` what is
saved, where the slots do not overlap and held one function.  Doing it a second time
changes nothing.
-/

namespace XHook

open Machine

/-- The function of a slot is saved, where there is a place for it. -/
def saveOld (oldFunc : Option (BitVec 64)) (oldAddr : BitVec 64) (m : Mem) : Mem :=
  match oldFunc with
  | some p => write64 m p.toNat oldAddr
  | none => m

/-- The memory after a slot was given the new function, and what it held was saved. -/
def replaceSlot (newFunc : BitVec 64) (oldFunc : Option (BitVec 64)) (m : Mem)
    (addr : BitVec 64) : Mem :=
  write64 (saveOld oldFunc (read64 m addr.toNat) m) addr.toNat newFunc

/-- The slots are given the new function, one after the other, but for those that have
it. -/
def replaceAll (newFunc : BitVec 64) (oldFunc : Option (BitVec 64)) (slots : List (BitVec 64))
    (m : Mem) : Mem :=
  slots.foldl (fun m addr =>
    if read64 m addr.toNat = newFunc then m else replaceSlot newFunc oldFunc m addr) m

/-- The eight bytes of a word are not of these. -/
def WordMisses (p : Nat → Prop) (a : BitVec 64) : Prop :=
  ∀ b, p b → b < a.toNat ∨ a.toNat + 8 ≤ b

/-- Two words do not overlap. -/
def WordsApart (a b : BitVec 64) : Prop := a.toNat + 8 ≤ b.toNat ∨ b.toNat + 8 ≤ a.toNat

section
variable {p : Nat → Prop} {newFunc : BitVec 64} {oldFunc : Option (BitVec 64)} {m m' : Mem}

theorem replaceSlot_agreeOn {addr : BitVec 64} (haddr : WordMisses p addr)
    (hold : ∀ o, oldFunc = some o → WordMisses p o) (m : Mem) :
    Mem.AgreeOn p m (replaceSlot newFunc oldFunc m addr) := by
  rw [replaceSlot]
  cases oldFunc with
  | none => exact (Mem.AgreeOn.refl p m).write64 _ haddr
  | some o => exact ((Mem.AgreeOn.refl p m).write64 _ (hold o rfl)).write64 _ haddr

/-- Nothing but the slots and the saved function is written. -/
theorem replaceAll_agreeOn {slots : List (BitVec 64)} (hslots : ∀ s ∈ slots, WordMisses p s)
    (hold : ∀ o, oldFunc = some o → WordMisses p o) (m : Mem) :
    Mem.AgreeOn p m (replaceAll newFunc oldFunc slots m) := by
  induction slots generalizing m with
  | nil => exact Mem.AgreeOn.refl p m
  | cons s slots ih =>
      have hrest := fun m => ih (fun t ht => hslots t (List.mem_cons_of_mem _ ht)) m
      rw [replaceAll, List.foldl_cons]
      split
      next => exact hrest m
      next => exact (replaceSlot_agreeOn (hslots s List.mem_cons_self) hold m).trans (hrest _)

theorem replaceAll_append (xs ys : List (BitVec 64)) (m : Mem) :
    replaceAll newFunc oldFunc (xs ++ ys) m =
      replaceAll newFunc oldFunc ys (replaceAll newFunc oldFunc xs m) := List.foldl_append ..

/-! ## What words hold -/

theorem read64_saveOld {a v : BitVec 64} (h : ∀ o, oldFunc = some o → WordsApart a o) :
    read64 (saveOld oldFunc v m) a.toNat = read64 m a.toNat := by
  cases oldFunc with
  | none => rfl
  | some o => exact read64_write64_of_disjoint m v (h o rfl)

theorem read64_replaceSlot_same (m : Mem) (s : BitVec 64) :
    read64 (replaceSlot newFunc oldFunc m s) s.toNat = newFunc := read64_write64_same ..

/-- Another word keeps what it holds. -/
theorem read64_replaceSlot_apart {s t : BitVec 64} (hs : WordsApart t s)
    (hold : ∀ o, oldFunc = some o → WordsApart t o) :
    read64 (replaceSlot newFunc oldFunc m s) t.toNat = read64 m t.toNat := by
  rw [replaceSlot, read64_write64_of_disjoint _ _ hs]
  exact read64_saveOld hold

/-- What the slot held is saved. -/
theorem read64_replaceSlot_saved {s o : BitVec 64} (h : WordsApart o s) :
    read64 (replaceSlot newFunc (some o) m s) o.toNat = read64 m s.toNat := by
  rw [replaceSlot, read64_write64_of_disjoint _ _ h]
  exact read64_write64_same ..

theorem replaceAll_cons (s : BitVec 64) (slots : List (BitVec 64)) (m : Mem) :
    replaceAll newFunc oldFunc (s :: slots) m = replaceAll newFunc oldFunc slots
      (if read64 m s.toNat = newFunc then m else replaceSlot newFunc oldFunc m s) := rfl

/-- A word that is one of the slots or apart from them holds the new function or what it
held. -/
theorem read64_replaceAll {slots : List (BitVec 64)} {t : BitVec 64}
    (hslots : ∀ s ∈ slots, t = s ∨ WordsApart t s)
    (hold : ∀ o, oldFunc = some o → WordsApart t o) :
    read64 (replaceAll newFunc oldFunc slots m) t.toNat =
      if t ∈ slots then newFunc else read64 m t.toNat := by
  induction slots generalizing m with
  | nil => rfl
  | cons s slots ih =>
      rw [replaceAll_cons, ih fun s' hs' => hslots s' (List.mem_cons_of_mem _ hs')]
      by_cases hmem : t ∈ slots
      · rw [if_pos hmem, if_pos (List.mem_cons_of_mem _ hmem)]
      · rw [if_neg hmem]
        rcases hslots s List.mem_cons_self with rfl | hapart
        · rw [if_pos List.mem_cons_self]
          split
          next hsame => exact hsame
          next => exact read64_replaceSlot_same m t
        · have hne : t ≠ s := by
            rintro rfl
            rw [WordsApart] at hapart
            omega
          rw [if_neg fun h => (List.mem_cons.mp h).elim hne hmem]
          split
          next => rfl
          next => exact read64_replaceSlot_apart hapart hold

/-- The function that the slots held is saved, where one of them did not have the new
one. -/
theorem replaceAll_saved {slots : List (BitVec 64)} {o f : BitVec 64}
    (hslots : ∀ s ∈ slots, ∀ t ∈ slots, t = s ∨ WordsApart t s)
    (hold : ∀ s ∈ slots, WordsApart o s)
    (hf : ∀ s ∈ slots, read64 m s.toNat = newFunc ∨ read64 m s.toNat = f) :
    read64 (replaceAll newFunc (some o) slots m) o.toNat =
      if ∃ s ∈ slots, read64 m s.toNat ≠ newFunc then f else read64 m o.toNat := by
  induction slots generalizing m with
  | nil => rw [if_neg fun ⟨s, hs, _⟩ => List.not_mem_nil hs]; rfl
  | cons s slots ih =>
      have hslots' : ∀ s ∈ slots, ∀ t ∈ slots, t = s ∨ WordsApart t s := fun s' hs' t ht =>
        hslots s' (List.mem_cons_of_mem _ hs') t (List.mem_cons_of_mem _ ht)
      have hold' : ∀ s ∈ slots, WordsApart o s := fun t ht => hold t (List.mem_cons_of_mem _ ht)
      rw [replaceAll_cons]
      by_cases hsame : read64 m s.toNat = newFunc
      · rw [if_pos hsame, ih hslots' hold' fun t ht => hf t (List.mem_cons_of_mem _ ht)]
        have hiff : (∃ t ∈ slots, read64 m t.toNat ≠ newFunc) ↔
            ∃ t ∈ s :: slots, read64 m t.toNat ≠ newFunc := by
          constructor
          · rintro ⟨t, ht, hne⟩
            exact ⟨t, List.mem_cons_of_mem _ ht, hne⟩
          · rintro ⟨t, ht, hne⟩
            rcases List.mem_cons.mp ht with rfl | ht
            · exact absurd hsame hne
            · exact ⟨t, ht, hne⟩
        exact if_congr hiff rfl rfl
      · have hread : ∀ t ∈ slots, read64 (replaceSlot newFunc (some o) m s) t.toNat = newFunc ∨
            read64 (replaceSlot newFunc (some o) m s) t.toNat = f := by
          intro t ht
          rcases hslots s List.mem_cons_self t (List.mem_cons_of_mem _ ht) with rfl | hapart
          · exact .inl (read64_replaceSlot_same m t)
          · rw [read64_replaceSlot_apart hapart fun o' ho' => ?_]
            · exact hf t (List.mem_cons_of_mem _ ht)
            · cases ho'
              exact (hold' t ht).symm
        have hsaved : read64 (replaceSlot newFunc (some o) m s) o.toNat = f := by
          rw [read64_replaceSlot_saved (hold s List.mem_cons_self)]
          exact (hf s List.mem_cons_self).resolve_left hsame
        rw [if_neg hsame, ih hslots' hold' hread, hsaved, ite_self,
          if_pos ⟨s, List.mem_cons_self, hsame⟩]

/-- Slots that have the new function are left alone. -/
theorem replaceAll_same {slots : List (BitVec 64)}
    (h : ∀ s ∈ slots, read64 m s.toNat = newFunc) : replaceAll newFunc oldFunc slots m = m := by
  induction slots with
  | nil => rfl
  | cons s slots ih =>
      rw [replaceAll_cons, if_pos (h s List.mem_cons_self),
        ih fun t ht => h t (List.mem_cons_of_mem _ ht)]

end

end XHook
