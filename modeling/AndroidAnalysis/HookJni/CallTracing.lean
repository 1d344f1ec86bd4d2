import AndroidAnalysis.HookJni.CallMethods
import AndroidAnalysis.HookJni.NativeArgs

/-!
# The traced arguments of a method call

Where `hook_call_methods` looks for the arguments of the Java method.  A call
carries them in one of three ways, by its variant: as arguments of its own
behind the fixed ones, in a `va_list`, or in an array (`Carries`).

The residue that stands for a `va_list` is the right one.  The other two are
both read as arguments of the call, so of an array the hook prints its address
for the first element and unrelated words for the others:
`hookCallMethods_traces_iff`.
-/

namespace HookJni

open Cpp Machine Machine.Aapcs64

/-! ## What a call carries -/

/-- A `va_list` after arguments of the given sizes were taken from it. -/
def vaListAfter (m : Mem) (ap : VaList) (sizes : List Nat) : VaList :=
  sizes.foldl (fun ap n => (vaArg m n ap).2) ap

section
variable {N : Type}

/-- A value is the `i`-th Java argument of a call, of type `t`. -/
def Carries (info : MethodInfo) (params : List (JavaType N)) (h : HookArgs) (i : Nat)
    (t : JavaType N) (value : BitVec 64) : Prop :=
  match info.argsType.getLast? with
  | some .varargs => ∃ l w,
      (allocate (jniCall info params))[info.argsType.length - 1 + i]? = some l ∧
        h.word l = some w ∧ value = cut t.width w
  | some .jvaluePtr =>
      let jvalues := (h.slot (info.argsType.length - 1)).toNat
      value = (readBytes h.mem (jvalues + 8 * i) t.width).setWidth 64
  | _ =>
      let ap := readVaList h.mem (h.slot (info.argsType.length - 1)).toNat
      value = (vaArg h.mem t.width
        (vaListAfter h.mem ap ((params.take i).map JavaType.width))).1

/-- Behind the fixed arguments, each Java argument is traced with its type. -/
def TracesCall (slash : N → Str) (info : MethodInfo) (params : List (JavaType N)) (h : HookArgs)
    (tr : Traced) : Prop :=
  ∀ i t, params[i]? = some t → ∃ value,
    tr[info.argsType.length - 1 + i]? = some (t.descriptor slash, value) ∧
      Carries info params h i t value

/-- When a call is traced right: a `va_list` always, arguments of the call while
every offset is an `int`, and an array when nothing is read from it. -/
def Traceable (info : MethodInfo) (params : List (JavaType N)) : Prop :=
  match info.argsType.getLast? with
  | some .varargs => info.argsType.length - 1 + params.length ≤ 2 ^ 28
  | some .jvaluePtr => params = []
  | _ => True

end

/-! ## The three readings -/

/-- General arguments take the slots in order. -/
theorem getElem?_allocate_int {as : List ArgClass} (has : ∀ a ∈ as, a = .int) {i : Nat}
    (hi : i < as.length) : (allocate as)[i]? = some (slotLoc i) := by
  have hget : as[i]? = some .int := by
    rw [List.getElem?_eq_getElem hi, has _ (List.getElem_mem hi)]
  have hfp : (as.take i).count .fp = 0 := by
    rw [List.count_eq_zero]
    intro hmem
    cases has _ (List.mem_of_mem_take hmem)
  have hcount : (as.take i).count .int = i := by
    have hsum := count_int_add_count_fp (as.take i)
    rw [hfp, List.length_take, Nat.min_eq_left (Nat.le_of_lt hi)] at hsum
    exact hsum
  rw [getElem?_allocate, hget, hfp, hcount, Option.map_some, Option.some_inj, slotLoc,
    Counters.loc]
  dsimp only
  split <;> split <;> simp only [Loc.x.injEq, Loc.stack.injEq, reduceCtorEq] <;> omega

/-- The places of the Java arguments of a `...` variant. -/
theorem getElem?_allocate_dots {N : Type} {info : MethodInfo} {fixed : List JniType}
    (hfixed : fixed ∈ fixedTypes) (htypes : info.argsType = fixed ++ [.varargs])
    {params : List (JavaType N)} (hint : ∀ t ∈ params, t.argClass = .int) {i : Nat}
    (hi : i < params.length) :
    (allocate (jniCall info params))[fixed.length + i]? = some (slotLoc (fixed.length + i)) := by
  have hlast : info.argsType = fixed ++ [Variant.dots.lastType] := htypes
  have hcall : jniCall info params = List.replicate fixed.length .int ++ argClasses params :=
    jniCall_eq hfixed hlast params
  rw [hcall]
  refine getElem?_allocate_int ?_ ?_
  · intro a ha
    rcases List.mem_append.mp ha with hrep | hparam
    · exact List.eq_of_mem_replicate hrep
    · obtain ⟨t, ht, rfl⟩ := List.mem_map.mp hparam
      exact hint t ht
  · rw [List.length_append, List.length_replicate, argClasses, List.length_map]
    omega

/-- The loop of the `va_list` takes one argument after the other. -/
theorem getElem?_vaArgLoop (m : Mem) (ts : List Str) (ap : VaList) (i : Nat) :
    (vaArgLoop m ts ap)[i]? = ts[i]?.map fun t =>
      (t, (vaArg m (readSize t) (vaListAfter m ap ((ts.take i).map readSize))).1) := by
  induction ts generalizing ap i with
  | nil => rfl
  | cons t ts ih =>
      cases i with
      | zero => rfl
      | succ i =>
          rw [vaArgLoop, List.getElem?_cons_succ, List.getElem?_cons_succ, ih, List.take_succ_cons,
            List.map_cons]
          rfl

/-- What is traced of a `va_list`. -/
theorem traced_vaList {N : Type} (slash : N → Str) (m : Mem) (ap : VaList)
    {params : List (JavaType N)} {i : Nat} {t : JavaType N} (ht : params[i]? = some t) :
    (vaArgLoop m (params.map (JavaType.descriptor slash)) ap)[i]? = some (t.descriptor slash,
      (vaArg m t.width (vaListAfter m ap ((params.take i).map JavaType.width))).1) := by
  have hsizes : ((params.map (JavaType.descriptor slash)).take i).map readSize =
      (params.take i).map JavaType.width := by
    rw [← List.map_take, List.map_map]
    exact List.map_congr_left fun t _ => readSize_descriptor slash t
  rw [getElem?_vaArgLoop, hsizes, List.getElem?_map, ht]
  simp only [Option.map_some, readSize_descriptor]

theorem length_tracedFrom (h : HookArgs) (k : Nat) (ts : List Str) :
    (tracedFrom h k ts).length = ts.length := by
  induction ts generalizing k with
  | nil => rfl
  | cons t ts ih => rw [tracedFrom, List.length_cons, ih, List.length_cons]

/-! ## The three variants -/

section

variable {info : MethodInfo} {fixed : List JniType} (hfixed : fixed ∈ fixedTypes)

/-- Behind the trace of the fixed arguments. -/
theorem getElem?_fixed_append (h : HookArgs) {variant : Variant}
    (htypes : info.argsType = fixed ++ [variant.lastType]) (tr : Traced) (i : Nat) :
    (tracedFrom h 0 (info.argsText.take fixed.length) ++ tr)[fixed.length + i]? = tr[i]? := by
  have hlen : (tracedFrom h 0 (info.argsText.take fixed.length)).length = fixed.length := by
    rw [length_tracedFrom, List.length_take, MethodInfo.argsText, List.length_map, htypes,
      List.length_append]
    exact Nat.min_eq_left (Nat.le_add_right _ _)
  rw [List.getElem?_append_right (by omega), hlen, Nat.add_sub_cancel_left]

variable {r : Fin 8} {m : JavaMethod} {pretty : BitVec 64 → Str} {h : HookArgs}
  (hid : pretty (h.x r) = m.print [] [',', ' '] []) (originEnv originCall : BitVec 64)

include hfixed hid

/-- With `...` the arguments are in the slots behind the fixed ones. -/
theorem traces_dots (htypes : info.argsType = fixed ++ [.varargs])
    (hmod : modIndexOf info.index = some (Variant.dots.modIndex, r))
    (hint : ∀ t ∈ m.params, t.argClass = .int) (hlen : fixed.length + m.params.length ≤ 2 ^ 28) :
    ∃ tr call, hookCallMethods info originEnv originCall pretty h = .ok (tr, .route call) ∧
      TracesCall ClassName.slash info m.params h tr := by
  have hlast : info.argsType.getLast? = some .varargs := by rw [htypes]; simp
  have hcount : info.argsType.length - 1 = fixed.length := by rw [htypes]; simp
  have hdots : info.argsType = fixed ++ [Variant.dots.lastType] := htypes
  refine ⟨_, _, (hookCallMethods_eq_of_ne_v (by decide) hfixed htypes hmod hid originEnv
    originCall).trans (if_pos hlen), fun i t ht => ?_⟩
  refine ⟨cut t.width (h.slot (fixed.length + i)), ?_, ?_⟩
  · rw [hcount, getElem?_fixed_append h hdots]
    exact traced_slots m.params ClassName.slash h fixed.length ht
  · simp only [Carries, hlast, hcount]
    have hi : i < m.params.length := (List.getElem?_eq_some_iff.mp ht).1
    exact ⟨_, _, getElem?_allocate_dots hfixed htypes hint hi, h.word_slotLoc _, rfl⟩

/-- A `va_list` is read as one. -/
theorem traces_vaList (htypes : info.argsType = fixed ++ [.vaList])
    (hmod : modIndexOf info.index = some (Variant.v.modIndex, r)) :
    ∃ tr call, hookCallMethods info originEnv originCall pretty h = .ok (tr, .route call) ∧
      TracesCall ClassName.slash info m.params h tr := by
  have hlast : info.argsType.getLast? = some .vaList := by rw [htypes]; simp
  have hv : info.argsType = fixed ++ [Variant.v.lastType] := htypes
  have hcount : info.argsType.length - 1 = fixed.length := by rw [htypes]; simp
  have hfix : fixed.length < 2 ^ 28 :=
    Nat.lt_of_le_of_lt (fixedTypes_length_le hfixed) (by decide)
  have hpva : getArgs 8 ((slotOffset fixed.length).setWidth 32).toInt h =
      .ok (h.slot fixed.length) := by
    rw [toInt_slotOffset hfix, getArgs_slot (Nat.le_refl 8), cut, BitVec.setWidth_eq,
      BitVec.setWidth_eq]
  have hva : printfJavaFuncArgsEndWithArray h (slotOffset fixed.length) m.descriptors =
      .ok (vaArgLoop h.mem m.descriptors (readVaList h.mem (h.slot fixed.length).toNat)) := by
    rw [printfJavaFuncArgsEndWithArray]
    split
    next hnil => rw [List.eq_nil_of_length_eq_zero hnil]; rfl
    next => rw [hpva, ok_bind]
  refine ⟨_, _, (hookCallMethods_eq hfixed hv hmod hid originEnv
    originCall).trans (by rw [if_pos rfl, hva, ok_bind]), fun i t ht => ?_⟩
  have hget := (getElem?_fixed_append h hv _ i).trans
    (traced_vaList ClassName.slash h.mem (readVaList h.mem (h.slot fixed.length).toNat) ht)
  rw [hcount]
  refine ⟨_, hget, ?_⟩
  simp only [Carries, hlast, hcount]

/-- An array is traced as the words behind the fixed arguments, its address first. -/
theorem traces_array (htypes : info.argsType = fixed ++ [.jvaluePtr])
    (hmod : modIndexOf info.index = some (Variant.a.modIndex, r))
    {tr : Traced} {call : HookAction}
    (hok : hookCallMethods info originEnv originCall pretty h = .ok (tr, call))
    {t : JavaType ClassName} (ht : m.params[0]? = some t) :
    tr[fixed.length]? = some (t.descriptor ClassName.slash, cut t.width (h.slot fixed.length)) := by
  have ha : info.argsType = fixed ++ [Variant.a.lastType] := htypes
  rw [hookCallMethods_eq_of_ne_v (by decide) hfixed ha hmod hid] at hok
  split at hok
  next =>
    rw [Except.ok.injEq, Prod.mk.injEq] at hok
    have hget := getElem?_fixed_append h ha
      (tracedFrom h fixed.length m.descriptors) 0
    rw [← hok.1]
    exact hget.trans (traced_slots m.params ClassName.slash h fixed.length ht)
  next => cases hok

end

/-- An array of zeros whose address is odd is traced wrong. -/
theorem not_carries_mark {N : Type} {info : MethodInfo}
    (hlast : info.argsType.getLast? = some .jvaluePtr) (hlen : info.argsType.length - 1 < 8)
    (params : List (JavaType N)) (t : JavaType N) :
    let h := HookArgs.mark (.x (info.argsType.length - 1))
    ¬ Carries info params h 0 t (cut t.width (h.slot (info.argsType.length - 1))) := by
  intro h hcarries
  simp only [Carries, hlast] at hcarries
  have hwidth : 0 < t.width := by cases t.width_eq <;> omega
  have hbit := congrArg (fun v => v.getLsbD 0) hcarries
  have hslot : h.slot (info.argsType.length - 1) = 1 := by
    rw [HookArgs.slot, dif_pos hlen]
    exact if_pos rfl
  simp only [getLsbD_cut hwidth, hslot, BitVec.getLsbD_setWidth, getLsbD_readBytes] at hbit
  simp [h, HookArgs.mark] at hbit

/-- `hook_call_methods` traces the arguments of every call of a method without
`float` and `double` as the call carries them exactly when the call is traceable.
`pretty` prints the method whose id the call passes. -/
theorem hookCallMethods_traces_iff {info : MethodInfo} (hinfo : info ∈ jniCallMethodInfo)
    (m : JavaMethod) (hint : ∀ t ∈ m.params, t.argClass = .int) :
    (∀ (pretty : BitVec 64 → Str) (h : HookArgs) (originEnv originCall : BitVec 64),
      pretty (h.slot (info.argsType.idxOf .jmethodID)) = m.print [] [',', ' '] [] →
      ∃ tr call, hookCallMethods info originEnv originCall pretty h = .ok (tr, .route call) ∧
        TracesCall ClassName.slash info m.params h tr) ↔ Traceable info m.params := by
  obtain ⟨variant, -, fixed, hfixed, htypes, r, -, hmod, hr⟩ := call_entry info hinfo
  have hlen : info.argsType.length - 1 = fixed.length := by rw [htypes]; simp
  have hlast : info.argsType.getLast? = some variant.lastType := by rw [htypes]; simp
  have hslot (h : HookArgs) : h.slot (info.argsType.idxOf .jmethodID) = h.x r := by
    rw [hr, HookArgs.slot, dif_pos r.isLt]
  simp only [hslot, Traceable, hlast, hlen]
  cases variant with
  | v =>
      refine iff_of_true (fun pretty h originEnv originCall hid => ?_) trivial
      exact traces_vaList hfixed hid originEnv originCall htypes hmod
  | dots =>
      constructor
      · intro hall
        obtain ⟨tr, call, hok, -⟩ := hall (fun _ => m.print [] [',', ' '] []) numbered 0 0 rfl
        rw [hookCallMethods_eq_of_ne_v (by decide) hfixed htypes hmod rfl] at hok
        split at hok
        next hle => exact hle
        next => cases hok
      · intro hle pretty h originEnv originCall hid
        exact traces_dots hfixed hid originEnv originCall htypes hmod hint hle
  | a =>
      constructor
      · intro hall
        cases hparams : m.params with
        | nil => rfl
        | cons t ts =>
            have hfix := fixedTypes_length_le hfixed
            obtain ⟨tr, call, hok, htr⟩ := hall (fun _ => m.print [] [',', ' '] [])
              (HookArgs.mark (.x fixed.length)) 0 0 rfl
            have ht : m.params[0]? = some t := by rw [hparams]; rfl
            obtain ⟨value, hvalue, hcarries⟩ := htr 0 t ht
            rw [hlen, Nat.add_zero, traces_array hfixed rfl 0 0 htypes hmod hok ht, Option.some_inj,
              Prod.mk.injEq] at hvalue
            rw [← hvalue.2, ← hlen] at hcarries
            exact absurd hcarries (not_carries_mark hlast (by omega) m.params t)
      · intro hnil pretty h originEnv originCall hid
        have hle : fixed.length + m.params.length ≤ 2 ^ 28 := by
          rw [hnil]
          exact Nat.le_trans (fixedTypes_length_le hfixed) (by decide)
        refine ⟨_, _, (hookCallMethods_eq_of_ne_v (by decide) hfixed htypes hmod hid originEnv
          originCall).trans (if_pos hle), fun i t ht => ?_⟩
        rw [hnil] at ht
        cases ht

/-- Five parameters of `CallVoidMethod` are traced right. -/
theorem callVoidMethod_five_traced : callVoidMethod ∈ jniCallMethodInfo ∧
    ∀ (pretty : BitVec 64 → Str) (h : HookArgs) (originEnv originCall : BitVec 64),
      pretty (h.slot (callVoidMethod.argsType.idxOf .jmethodID)) =
          (intMethod 5).print [] [',', ' '] [] →
      ∃ tr call,
        hookCallMethods callVoidMethod originEnv originCall pretty h = .ok (tr, .route call) ∧
          TracesCall ClassName.slash callVoidMethod (intMethod 5).params h tr := by
  have hmem : callVoidMethod ∈ jniCallMethodInfo := by decide
  have hint : ∀ t ∈ (intMethod 5).params, t.argClass = .int := by
    intro t ht
    rw [List.eq_of_mem_replicate ht]
    rfl
  have hle : Traceable callVoidMethod (intMethod 5).params := show 3 + 5 ≤ 2 ^ 28 by decide
  exact ⟨hmem, (hookCallMethods_traces_iff hmem (intMethod 5) hint).mpr hle⟩

/-- `CallVoidMethodA`. -/
def callVoidMethodA : MethodInfo :=
  ⟨63, "CallVoidMethodA", .void, [.envPtr, .jobject, .jmethodID, .jvaluePtr]⟩

/-- Called with an array at address 3 whose first element is 0, `CallVoidMethodA`
is traced with a 3. -/
theorem callVoidMethodA_one : ∃ tr call,
    hookCallMethods callVoidMethodA 0 0 (fun _ => (intMethod 1).print [] [',', ' '] []) numbered =
        .ok (tr, .route call) ∧
      ¬ TracesCall ClassName.slash callVoidMethodA (intMethod 1).params numbered tr := by
  have hrun : hookCallMethods callVoidMethodA 0 0 (fun _ => (intMethod 1).print [] [',', ' '] [])
      numbered = _ :=
    hookCallMethods_eq_of_ne_v (by decide : Variant.a ≠ .v)
      (by decide : [.envPtr, .jobject, .jmethodID] ∈ fixedTypes) rfl rfl rfl 0 0
  refine ⟨_, _, hrun.trans (if_pos (by decide)), fun htr => ?_⟩
  obtain ⟨value, hvalue, hcarries⟩ := htr 0 ⟨0, .prim .int⟩ rfl
  obtain rfl : (3 : BitVec 64) = value := (Prod.mk.inj (Option.some_inj.mp hvalue)).2
  have hread : (3 : BitVec 64) = (readBytes numbered.mem 3 4).setWidth 64 := hcarries
  exact absurd hread (by decide)

end HookJni
