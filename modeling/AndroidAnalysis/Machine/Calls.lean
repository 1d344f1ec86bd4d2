/-!
# Programs that call their surroundings

A program returns, faults, or makes a call and goes on with the answer.  The
calls have a type `C`, and `A c` is the type of the answers to the call `c`, so a
program is the tree of what it does under every answer.  Two programs that are
equal make the same calls and return the same.

`eval` runs a program in surroundings, a function that answers a call and
changes the state of the world.
-/

namespace Machine

/-- A program that makes calls in `C`. -/
inductive Calls {C : Type} (A : C → Type) (F : Type) (α : Type) : Type
  | ret (a : α)
  | fault (f : F)
  | call (c : C) (k : A c → Calls A F α)

namespace Calls

variable {C : Type} {A : C → Type} {F α β : Type}

/-- A program and what goes on from its result. -/
protected def bind : Calls A F α → (α → Calls A F β) → Calls A F β
  | .ret a, f => f a
  | .fault e, _ => .fault e
  | .call c k, f => .call c fun a => (k a).bind f

instance : Monad (Calls A F) where
  pure := .ret
  bind := Calls.bind

@[simp] theorem ret_bind (a : α) (f : α → Calls A F β) : (ret a >>= f) = f a := rfl

theorem call_ne_ret {c : C} {k : A c → Calls A F α} {a : α} : call c k ≠ ret a := nofun

/-- Two programs whose first calls differ. -/
theorem call_ne_call {c c' : C} {k : A c → Calls A F α} {k' : A c' → Calls A F α} (h : c ≠ c') :
    call c k ≠ call c' k' := by
  intro heq
  injection heq with hc
  exact h hc

/-- The program that makes one call. -/
def perform (c : C) : Calls A F (A c) := .call c .ret

@[simp] theorem perform_bind (c : C) (f : A c → Calls A F β) : (perform c >>= f) = call c f := rfl

/-- The program that makes no calls. -/
def ofExcept : Except F α → Calls A F α
  | .ok a => .ret a
  | .error e => .fault e

@[simp] theorem ofExcept_ok (a : α) : (ofExcept (.ok a) : Calls A F α) = .ret a := rfl

@[simp] theorem ofExcept_error (e : F) : (ofExcept (.error e) : Calls A F α) = .fault e := rfl

/-! ## Surroundings -/

variable {S : Type}

/-- The run of a program, with the state of the world and the result. -/
def eval (exec : (c : C) → S → S × A c) : Calls A F α → S → Except F (S × α)
  | .ret a, w => .ok (w, a)
  | .fault e, _ => .error e
  | .call c k, w => (k (exec c w).2).eval exec (exec c w).1

variable {exec : (c : C) → S → S × A c}

@[simp] theorem eval_ret (a : α) (w : S) :
    (ret a : Calls A F α).eval exec w = .ok (w, a) := rfl

@[simp] theorem eval_call (c : C) (k : A c → Calls A F α) (w : S) :
    (call c k).eval exec w = (k (exec c w).2).eval exec (exec c w).1 := rfl

/-- The run of a program in two parts. -/
theorem eval_bind (p : Calls A F α) (f : α → Calls A F β) (w : S) :
    (p >>= f).eval exec w = (p.eval exec w >>= fun r => (f r.2).eval exec r.1) := by
  induction p generalizing w with
  | ret a => rfl
  | fault e => rfl
  | call c k ih => exact ih (exec c w).2 (exec c w).1

end Calls

end Machine
