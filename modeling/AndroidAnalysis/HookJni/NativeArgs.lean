import AndroidAnalysis.HookJni.JniCall
import AndroidAnalysis.HookJni.JniNativeHook

/-!
# The traced arguments of a native method

`hook_native_func` prints the parameters of a native call from the slot behind
the environment and the class.  The parameter at position `i` is read at slot
`i + 2`, while the call puts it at the place its register file has next.  The
two agree up to the first `float` or `double`, which takes a vector register and
no slot, so every general argument behind one is read at a wrong place:
`native_loc_iff`.
-/

namespace HookJni

open Cpp Machine Machine.Aapcs64

section
variable {N : Type} (params : List (JavaType N))

/-- No `float` or `double` comes before a general parameter. -/
def GeneralFirst : Prop :=
  params.Pairwise fun s t => ¬ (s.argClass = .fp ∧ t.argClass = .int)

/-- Each general parameter is traced with its type and the word the call put
it in, cut to the width of the type. -/
def TracesNative (slash : N → Str) (h : HookArgs) (tr : Traced) : Prop :=
  ∀ i t, params[i]? = some t → t.argClass = .int →
    ∃ l w, (allocate (nativeCall params))[i + 2]? = some l ∧ h.word l = some w ∧
      tr[i]? = some (t.descriptor slash, cut t.width w)

theorem JavaType.width_eq (t : JavaType N) : t.width = 4 ∨ t.width = 8 := by
  unfold JavaType.width
  split <;> simp

/-- The bytes read for a descriptor are those of its type. -/
theorem readSize_descriptor (slash : N → Str) (t : JavaType N) :
    readSize (t.descriptor slash) = t.width := by
  show (if getArgsSize (t.descriptor slash) = 8 then 8 else 4) = t.width
  rw [getArgsSize_descriptor]
  cases t.width_eq with
  | inl h => rw [h]; rfl
  | inr h => rw [h]; rfl

/-- The place of a general parameter, from the counts of those before it. -/
theorem native_loc {i : Nat} {t : JavaType N} (ht : params[i]? = some t)
    (hint : t.argClass = .int) :
    (allocate (nativeCall params))[i + 2]? = some (Counters.loc
      { ngrn := min 8 (((params.map JavaType.argClass).take i).count .int + 2)
        nsrn := min 8 (((params.map JavaType.argClass).take i).count .fp)
        nsaa := (((params.map JavaType.argClass).take i).count .int + 2 - 8) +
          (((params.map JavaType.argClass).take i).count .fp - 8) } .int) := by
  rw [getElem?_allocate, nativeCall, List.getElem?_cons_succ, List.getElem?_cons_succ,
    List.getElem?_map, ht, List.take_succ_cons, List.take_succ_cons]
  simp only [Option.map_some, hint, List.count_cons_self, ne_eq, reduceCtorEq, not_false_eq_true,
    List.count_cons_of_ne]

/-- The place is the slot `i + 2` as long as no vector register is taken. -/
theorem native_loc_iff {i : Nat} {t : JavaType N} (ht : params[i]? = some t)
    (hint : t.argClass = .int) :
    (allocate (nativeCall params))[i + 2]? = some (slotLoc (i + 2)) ↔
      ((params.map JavaType.argClass).take i).count .fp = 0 := by
  have hi : i < params.length := (List.getElem?_eq_some_iff.mp ht).1
  have hsum := count_int_add_count_fp ((params.map JavaType.argClass).take i)
  rw [List.length_take, List.length_map, Nat.min_eq_left (Nat.le_of_lt hi)] at hsum
  rw [native_loc params ht hint, Option.some_inj, slotLoc, Counters.loc]
  generalize ((params.map JavaType.argClass).take i).count .int = a at *
  generalize ((params.map JavaType.argClass).take i).count .fp = f at *
  dsimp only
  split <;> split <;> simp only [Loc.x.injEq, Loc.stack.injEq, reduceCtorEq, false_iff] <;> omega

/-- Where a general parameter is preceded by no `float` or `double`. -/
theorem generalFirst_iff : GeneralFirst params ↔ ∀ i t, params[i]? = some t →
    t.argClass = .int → ((params.map JavaType.argClass).take i).count .fp = 0 := by
  rw [GeneralFirst, List.pairwise_iff_getElem]
  constructor
  · intro h j t ht hint
    obtain ⟨hj, rfl⟩ := List.getElem?_eq_some_iff.mp ht
    rw [List.count_eq_zero]
    intro hmem
    obtain ⟨i, hi, hfp⟩ := List.mem_iff_getElem.mp hmem
    rw [List.length_take] at hi
    rw [List.getElem_take, List.getElem_map] at hfp
    exact h i j (by rw [List.length_map] at hi; omega) hj (by omega) ⟨hfp, hint⟩
  · rintro h i j hi hj hij ⟨hfp, hint⟩
    have hzero := h j params[j] (List.getElem?_eq_getElem hj) hint
    rw [List.count_eq_zero] at hzero
    refine hzero (List.mem_iff_getElem.mpr ⟨i, ?_, ?_⟩)
    · rw [List.length_take, List.length_map]; omega
    · rw [List.getElem_take, List.getElem_map]; exact hfp

/-- The trace of a native call, when it has one. -/
theorem printf_native (slash : N → Str) (h : HookArgs) :
    printfJavaFuncArgs h nativeJavaArgsOffset (params.map (JavaType.descriptor slash))
        (params.length : Nat) =
      if params.length + 2 ≤ 2 ^ 28 then
        .ok (tracedFrom h 2 (params.map (JavaType.descriptor slash)),
          slotOffset (2 + params.length))
      else .error .undefined := by
  have := printfJavaFuncArgs_eq h (k := 2) (by omega) (params.map (JavaType.descriptor slash))
  rw [List.length_map, Nat.add_comm 2] at this
  rw [Nat.add_comm 2]
  exact this

/-- What is traced of the slots from `k` on. -/
theorem traced_slots (slash : N → Str) (h : HookArgs) (k : Nat) {i : Nat} {t : JavaType N}
    (ht : params[i]? = some t) :
    (tracedFrom h k (params.map (JavaType.descriptor slash)))[i]? =
      some (t.descriptor slash, cut t.width (h.slot (k + i))) := by
  rw [getElem?_tracedFrom, List.getElem?_map, ht]
  simp only [Option.map_some, readSize_descriptor]

/-- The value traced for a parameter. -/
theorem traced_native (slash : N → Str) (h : HookArgs) {i : Nat} {t : JavaType N}
    (ht : params[i]? = some t) :
    (tracedFrom h 2 (params.map (JavaType.descriptor slash)))[i]? =
      some (t.descriptor slash, cut t.width (h.slot (i + 2))) := by
  rw [Nat.add_comm]
  exact traced_slots params slash h 2 ht

end

/-- The trace of a native call shows each general parameter as the call passed
it, whatever the call passed, exactly when no `float` or `double` comes before
a general parameter and every offset is an `int`. -/
theorem printfJavaFuncArgs_native_iff {N : Type} (slash : N → Str) (params : List (JavaType N)) :
    (∀ h : HookArgs, ∃ tr offset,
      printfJavaFuncArgs h nativeJavaArgsOffset (params.map (JavaType.descriptor slash))
        (params.length : Nat) = .ok (tr, offset) ∧ TracesNative params slash h tr) ↔
      GeneralFirst params ∧ params.length + 2 ≤ 2 ^ 28 := by
  simp only [printf_native]
  constructor
  · intro hall
    have hlen : params.length + 2 ≤ 2 ^ 28 := by
      obtain ⟨tr, offset, hok, -⟩ := hall (HookArgs.mark (.v 0))
      by_contra hlen
      rw [if_neg hlen] at hok
      exact nomatch hok
    refine ⟨(generalFirst_iff params).mpr fun i t ht hint => ?_, hlen⟩
    -- Mark the place of the parameter: the trace shows the mark only if it read that place.
    rw [← native_loc_iff params ht hint]
    obtain ⟨l, hl⟩ : ∃ l, (allocate (nativeCall params))[i + 2]? = some l :=
      ⟨_, native_loc params ht hint⟩
    obtain ⟨tr, offset, hok, htr⟩ := hall (HookArgs.mark l)
    rw [if_pos hlen, Except.ok.injEq, Prod.mk.injEq] at hok
    obtain ⟨l', w, hl', hw, hread⟩ := htr i t ht hint
    rw [hl, Option.some_inj] at hl'
    subst hl'
    rw [← hok.1, traced_native params slash _ ht, Option.some_inj, Prod.mk.injEq] at hread
    have hwidth : 0 < t.width := by cases t.width_eq <;> omega
    have hbit := congrArg (fun v => v.getLsbD 0) hread.2
    simp only [getLsbD_cut hwidth, HookArgs.getLsbD_mark hw,
      HookArgs.getLsbD_mark (HookArgs.word_slotLoc _ _), decide_true, decide_eq_true_eq] at hbit
    rw [hl, hbit]
  · rintro ⟨hfirst, hlen⟩ h
    rw [if_pos hlen]
    refine ⟨_, _, rfl, fun i t ht hint => ?_⟩
    have hzero := (generalFirst_iff params).mp hfirst i t ht hint
    exact ⟨_, _, (native_loc_iff params ht hint).mpr hzero, h.word_slotLoc _,
      traced_native params slash h ht⟩

/-- A native method with the parameters `(double, int)` is called with its `int`
in `x2`, and the trace shows `x3`. -/
theorem printfJavaFuncArgs_double_int :
    let params : List (JavaType ClassName) := [⟨0, .prim .double⟩, ⟨0, .prim .int⟩]
    let tr : Traced := [(['D'], 2), (['I'], 3)]
    printfJavaFuncArgs numbered nativeJavaArgsOffset
        (params.map (JavaType.descriptor ClassName.slash)) 2 = .ok (tr, slotOffset 4) ∧
      ¬ TracesNative params ClassName.slash numbered tr := by
  refine ⟨rfl, fun h => ?_⟩
  obtain ⟨l, w, hl, hw, htr⟩ := h 1 ⟨0, .prim .int⟩ rfl rfl
  obtain rfl : l = .x 2 := (Option.some_inj.mp hl).symm
  obtain rfl : w = 2 := (Option.some_inj.mp hw).symm
  exact absurd htr (by decide)

end HookJni
