import AndroidAnalysis.Machine.Memory

/-!
# Bytes in memory

A reader walks over a table or a string byte by byte.  `Stored` says which bytes are
in memory from an address on, and is taken apart as its list is.
-/

namespace Machine

/-- The bytes are in memory from an address on. -/
def Stored (m : Mem) : (a : Nat) → List (BitVec 8) → Prop
  | _, [] => True
  | a, b :: bs => m a = b ∧ Stored m (a + 1) bs

instance (m : Mem) : ∀ (a : Nat) (bs : List (BitVec 8)), Decidable (Stored m a bs)
  | _, [] => .isTrue trivial
  | a, _ :: bs =>
      let _ := instDecidableStored m (a + 1) bs
      inferInstanceAs (Decidable (_ ∧ _))

theorem stored_append {m : Mem} {a : Nat} {bs cs : List (BitVec 8)} :
    Stored m a (bs ++ cs) ↔ Stored m a bs ∧ Stored m (a + bs.length) cs := by
  induction bs generalizing a with
  | nil => simp [Stored]
  | cons b bs ih =>
      have haddr : a + 1 + bs.length = a + (b :: bs).length := by
        rw [List.length_cons, Nat.add_assoc, Nat.add_comm 1]
      rw [List.cons_append, Stored, Stored, ih, haddr, and_assoc]

/-- Where two memories agree, they hold the same bytes. -/
theorem Stored.agreeOn {p : Nat → Prop} {m m' : Mem} (h : Mem.AgreeOn p m m') {a : Nat}
    {bs : List (BitVec 8)} (hin : ∀ b, a ≤ b → b < a + bs.length → p b) :
    Stored m' a bs ↔ Stored m a bs := by
  induction bs generalizing a with
  | nil => exact Iff.rfl
  | cons b bs ih =>
      rw [List.length_cons] at hin
      rw [Stored, Stored, h a (hin a (Nat.le_refl _) (by omega)),
        ih fun b hlo hhi => hin b (by omega) (by omega)]

/-- A memory that starts with some bytes. -/
theorem stored_ofBytes (bytes : List (BitVec 8)) : Stored (Mem.ofBytes bytes) 0 bytes := by
  have hbehind : ∀ bs cs : List (BitVec 8), Stored (Mem.ofBytes (bs ++ cs)) bs.length cs := by
    intro bs cs
    induction cs generalizing bs with
    | nil => trivial
    | cons c cs ih =>
        have hrest := ih (bs ++ [c])
        rw [List.append_assoc, List.length_append] at hrest
        refine ⟨?_, hrest⟩
        rw [Mem.ofBytes, List.getD_eq_getElem?_getD, List.getElem?_append_right (Nat.le_refl _),
          Nat.sub_self]
        rfl
  exact hbehind [] bytes

end Machine
