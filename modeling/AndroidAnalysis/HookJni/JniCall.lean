import AndroidAnalysis.HookJni.PrintfArgsHelper
import AndroidAnalysis.Machine.Aapcs64

/-!
# JNI calls under the procedure call standard

Where the arguments of the calls that the hooks stand in for are.  A native
method receives the environment, the class or the object, and its parameters.
A hook sees the general registers and the stack words of such a call, so a
place in a vector register has no word here.
-/

namespace HookJni

open Cpp Machine Machine.Aapcs64

section
variable {N : Type}

/-- The register file of a type. -/
def JavaType.argClass (t : JavaType N) : ArgClass :=
  match t with
  | ⟨0, .prim .float⟩ | ⟨0, .prim .double⟩ => .fp
  | _ => .int

/-- The arguments of a native method's call. -/
def nativeCall (params : List (JavaType N)) : List ArgClass :=
  .int :: .int :: params.map JavaType.argClass

end

/-- The word at a place. -/
def HookArgs.word (h : HookArgs) : Loc → Option (BitVec 64)
  | .x i => if hi : i < 8 then some (h.x ⟨i, hi⟩) else none
  | .v _ => none
  | .stack i => some (read64 h.mem (h.stackArgs + 8 * i))

/-- The place a slot stands for. -/
def slotLoc (k : Nat) : Loc := if k < 8 then .x k else .stack (k - 8)

theorem HookArgs.word_slotLoc (h : HookArgs) (k : Nat) : h.word (slotLoc k) = some (h.slot k) := by
  rw [slotLoc, HookArgs.slot]
  split
  next hk => exact dif_pos hk
  next => rfl

/-- The lowest bit of a word is kept by a cut. -/
theorem getLsbD_cut {n : Nat} (hn : 0 < n) (w : BitVec 64) :
    (cut n w).getLsbD 0 = w.getLsbD 0 := by
  rw [cut, BitVec.getLsbD_setWidth, BitVec.getLsbD_setWidth]
  simp [hn]

/-- A call whose general registers hold their own numbers. -/
def numbered : HookArgs := ⟨fun i => BitVec.ofNat 64 i, fun _ => 0, 0⟩

/-- A hook that receives a `1` at one place and zeros elsewhere. -/
def HookArgs.mark (l : Loc) : HookArgs where
  x i := if l = .x i then 1 else 0
  mem a := if l = .stack (a / 8) then 1 else 0
  stackArgs := 0

/-- The marked place is the one place with a lowest bit. -/
theorem HookArgs.getLsbD_mark {l l' : Loc} {w : BitVec 64}
    (hw : (HookArgs.mark l).word l' = some w) : w.getLsbD 0 = decide (l = l') := by
  have hbit {n : Nat} (p : Prop) [Decidable p] :
      (if p then 1 else 0 : BitVec (n + 1)).getLsbD 0 = decide p := by
    split
    next h => simp [h]
    next h => simp [h]
  cases l' with
  | v i => exact absurd hw (by simp [HookArgs.word])
  | x i =>
      simp only [HookArgs.word, Option.dite_none_right_eq_some, Option.some.injEq] at hw
      obtain ⟨_, rfl⟩ := hw
      exact hbit _
  | stack i =>
      simp only [HookArgs.word, Option.some.injEq] at hw
      subst hw
      rw [read64, getLsbD_readBytes]
      simpa [HookArgs.mark] using hbit (n := 7) (l = .stack i)

end HookJni
