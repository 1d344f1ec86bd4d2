import AndroidAnalysis.Machine.EventRun
import AndroidAnalysis.Cpp.String

/-!
# A vector and the pointers into it

A pointer to an element of a `std::vector` is good until the vector is assigned:
then its elements are destroyed, and the new ones are others even where they are
equal.  So a vector counts its assignments in `life`, and a pointer remembers the
count it was taken at.
-/

namespace Cpp

open Machine

variable {α : Type}

/-- A pointer to an element. -/
structure ElemPtr where
  life : Nat
  index : Nat
deriving DecidableEq

/-- A `std::vector`. -/
structure Vec (α : Type) where
  life : Nat
  elems : List α
deriving DecidableEq

namespace Vec

variable (v : Vec α)

/-- A vector that has not been assigned. -/
def empty : Vec α := ⟨0, []⟩

/-- The element a pointer is to, when it is alive. -/
def deref (p : ElemPtr) : Option α := if p.life = v.life then v.elems[p.index]? else none

/-- `v = elems` -/
def assign (elems : List α) : Vec α := ⟨v.life + 1, elems⟩

/-- A change of an element through a pointer. -/
def modify (p : ElemPtr) (f : α → α) : Except Fault (Vec α) :=
  match v.deref p with
  | some a => .ok { v with elems := v.elems.set p.index (f a) }
  | none => .error .undefined

/-- The pointers `&item` of `for (auto &item : v)`. -/
def ptrs : List ElemPtr := (List.range' 0 v.elems.length).map (ElemPtr.mk v.life)

variable {v}

@[simp] theorem deref_mk (i : Nat) : v.deref ⟨v.life, i⟩ = v.elems[i]? := if_pos rfl

/-- What is taken from one life is dead in another. -/
theorem deref_of_life_ne {p : ElemPtr} (h : p.life ≠ v.life) : v.deref p = none := if_neg h

/-- An assignment ends the life of the elements. -/
theorem deref_assign_of_le {p : ElemPtr} (h : p.life ≤ v.life) (elems : List α) :
    (v.assign elems).deref p = none :=
  deref_of_life_ne (Nat.ne_of_lt (Nat.lt_succ_of_le h))

theorem modify_mk {i : Nat} {a : α} (h : v.elems[i]? = some a) (f : α → α) :
    v.modify ⟨v.life, i⟩ f = .ok { v with elems := v.elems.set i (f a) } := by
  rw [modify, deref_mk, h]

/-! ## A loop over the elements -/

variable {β : Type}

/-- The body of a loop that changes the element it is at, and records something of
what this was. -/
def eachElem (f : ElemPtr → α → α) (g : ElemPtr → α → β) (s : Vec α × List β) (p : ElemPtr) :
    Except Fault (Vec α × List β) :=
  match s.1.deref p with
  | some a => do
      let v ← s.1.modify p (f p)
      .ok (v, s.2 ++ [g p a])
  | none => .error .undefined

variable {f : ElemPtr → α → α} {g : ElemPtr → α → β}

theorem eachElem_mk {i : Nat} {a : α} (h : v.elems[i]? = some a) (out : List β) :
    eachElem f g (v, out) ⟨v.life, i⟩ = .ok ({ v with elems := v.elems.set i (f ⟨v.life, i⟩ a) },
      out ++ [g ⟨v.life, i⟩ a]) := by
  rw [eachElem, deref_mk, h]
  dsimp only
  rw [modify_mk h, ok_bind]

/-- The rest of the loop, where the elements `done` are changed already. -/
theorem run_eachElem_append (life : Nat) (done rest : List α) (out : List β) :
    run (eachElem f g) (⟨life, done ++ rest⟩, out)
        ((List.range' done.length rest.length).map (ElemPtr.mk life)) =
      .ok (⟨life, done ++ rest.mapIdx fun i a => f ⟨life, done.length + i⟩ a⟩,
        out ++ rest.mapIdx fun i a => g ⟨life, done.length + i⟩ a) := by
  induction rest generalizing done out with
  | nil => simp only [List.mapIdx_nil, List.append_nil, List.length_nil, List.range'_zero,
      List.map_nil, run_nil]
  | cons a rest ih =>
      have hat : (done ++ a :: rest)[done.length]? = some a := by
        rw [List.getElem?_append_right (Nat.le_refl _), Nat.sub_self, List.getElem?_cons_zero]
      have hset : (done ++ a :: rest).set done.length (f ⟨life, done.length⟩ a) =
          (done ++ [f ⟨life, done.length⟩ a]) ++ rest := by
        rw [List.set_append_right _ _ (Nat.le_refl _), Nat.sub_self, List.set_cons_zero,
          List.append_assoc, List.singleton_append]
      have hstep := eachElem_mk (f := f) (g := g) (v := ⟨life, done ++ a :: rest⟩) hat out
      dsimp only at hstep
      rw [hset] at hstep
      refine run_cons_eq_ok.mpr ⟨_, hstep, ?_⟩
      have hrest := ih (done ++ [f ⟨life, done.length⟩ a]) (out ++ [g ⟨life, done.length⟩ a])
      rw [List.length_append, List.length_singleton] at hrest
      rw [hrest, List.mapIdx_cons, List.mapIdx_cons]
      simp only [List.append_assoc, List.singleton_append, Nat.add_zero, Nat.add_assoc,
        Nat.add_comm 1]

/-- The whole loop. -/
theorem run_eachElem (v : Vec α) (out : List β) : run (eachElem f g) (v, out) v.ptrs =
    .ok ({ v with elems := v.elems.mapIdx fun i => f ⟨v.life, i⟩ },
      out ++ v.elems.mapIdx fun i => g ⟨v.life, i⟩) := by
  have h := run_eachElem_append (f := f) (g := g) v.life [] v.elems out
  simp only [List.length_nil, Nat.zero_add, List.nil_append] at h
  exact h

end Vec

end Cpp
