import AndroidAnalysis.HookJni.JniEnvHook
import AndroidAnalysis.HookJni.JniCall
import AndroidAnalysis.HookJni.ParsePrettyName

/-!
# The stack words of a method call

`hook_call_methods` stands in for the functions that call a Java method.  Each
comes in three variants, which differ in the last argument: the Java arguments
themselves, a `va_list`, or an array.  The hook tells them apart by the residue
of the slot, and `call_entry` says which variant each residue is.

Only the first variant puts Java arguments on the stack, and it is not the one
whose count the hook makes from the Java parameters.  So the hook forwards no
stack word of such a call, and drops an argument as soon as there is one:
`hookCallMethods_forwards_iff`.
-/

namespace HookJni

open Cpp Machine Machine.Aapcs64

/-! ## The variants -/

/-- The variants of a call. -/
inductive Variant
  | dots
  | v
  | a
deriving DecidableEq

/-- The last argument of a variant. -/
def Variant.lastType : Variant → JniType
  | .dots => .varargs
  | .v => .vaList
  | .a => .jvaluePtr

/-- The residue of a variant. -/
def Variant.modIndex : Variant → Nat
  | .dots => 1
  | .v => 2
  | .a => 0

/-- The arguments before the last one. -/
def fixedTypes : List (List JniType) := [
  [.envPtr, .jclass, .jmethodID],
  [.envPtr, .jobject, .jmethodID],
  [.envPtr, .jobject, .jclass, .jmethodID]]

/-- Every entry is a variant of a call, its residue says which, and its method
id is in the register the hook reads it from. -/
theorem call_entry : ∀ info ∈ jniCallMethodInfo, ∃ variant ∈ [Variant.dots, .v, .a],
    ∃ fixed ∈ fixedTypes, info.argsType = fixed ++ [variant.lastType] ∧
      ∃ r ∈ [(2 : Fin 8), 3], modIndexOf info.index = some (variant.modIndex, r) ∧
        info.argsType.idxOf .jmethodID = r.val := by
  decide +kernel

/-! ## The call -/

section
variable {N : Type}

/-- The register files of a method's parameters. -/
def argClasses (params : List (JavaType N)) : List ArgClass := params.map JavaType.argClass

/-- The arguments of a call: the parameters of the method stand for the `...`,
and every other argument is a pointer. -/
def jniCall (info : MethodInfo) (params : List (JavaType N)) : List ArgClass :=
  info.argsType.flatMap fun t => if t = .varargs then argClasses params else [.int]

/-- When a call can be forwarded: with `...`, every argument is in a register,
and with an array, every traced offset is an `int`. -/
def Forwardable (info : MethodInfo) (params : List (JavaType N)) : Prop :=
  match info.argsType.getLast? with
  | some .varargs => info.argsType.length - 1 + (argClasses params).count .int ≤ 8 ∧
      (argClasses params).count .fp ≤ 8
  | some .jvaluePtr => info.argsType.length - 1 + params.length ≤ 2 ^ 28
  | _ => True

end

theorem fixedTypes_length_le {fixed : List JniType} (hfixed : fixed ∈ fixedTypes) :
    fixed.length ≤ 4 := by
  revert fixed
  simp [fixedTypes]

/-- The fixed arguments are pointers, and with `...` the parameters come behind them. -/
theorem jniCall_eq {N : Type} {info : MethodInfo} {variant : Variant} {fixed : List JniType}
    (hfixed : fixed ∈ fixedTypes) (htypes : info.argsType = fixed ++ [variant.lastType])
    (params : List (JavaType N)) : jniCall info params = List.replicate fixed.length .int ++
      if variant = .dots then argClasses params else [.int] := by
  have hints : fixed.flatMap (fun t => if t = .varargs then argClasses params else [.int]) =
      List.replicate fixed.length .int := by
    revert fixed
    simp [fixedTypes]
  rw [jniCall, htypes, List.flatMap_append, hints, List.flatMap_singleton]
  cases variant with
  | dots => rfl
  | v => rfl
  | a => rfl

/-- The stack words of a call. -/
theorem stackWords_jniCall {N : Type} {info : MethodInfo} {variant : Variant}
    {fixed : List JniType} (hfixed : fixed ∈ fixedTypes)
    (htypes : info.argsType = fixed ++ [variant.lastType]) (params : List (JavaType N)) :
    stackWords (jniCall info params) = if variant = .dots then
      (fixed.length + (argClasses params).count .int - 8) + ((argClasses params).count .fp - 8)
      else 0 := by
  have hlen := fixedTypes_length_le hfixed
  rw [stackWords_eq, jniCall_eq hfixed htypes]
  cases variant with
  | dots => simp [List.count_replicate]
  | v => simp [List.count_replicate]; omega
  | a => simp [List.count_replicate]; omega

/-- The fixed arguments are always printed. -/
theorem printf_fixed (h : HookArgs) (ts : List Str) (hlen : ts.length ≤ 2 ^ 28) :
    printfJavaFuncArgs h 0 ts ((ts.length : Int) - 1) =
      .ok (tracedFrom h 0 (ts.take (ts.length - 1)), slotOffset (ts.length - 1)) := by
  rw [printfJavaFuncArgs]
  split
  next hle =>
    have hzero : ts.length - 1 = 0 := by omega
    rw [hzero, List.take_zero]
    rfl
  next hgt =>
    have hnat : ((ts.length : Int) - 1).toNat = ts.length - 1 := by omega
    have hle : ts.length - 1 ≤ ts.length := by omega
    have hloop := printfJavaFuncArgsLoop_ok h (k := 0) hle (by omega)
    rw [Nat.zero_add] at hloop
    rw [hnat]
    exact hloop

/-- The text of a method is not empty. -/
theorem print_ne_nil (m : JavaMethod) (mods : List Str) (sep tail : Str) :
    m.print mods sep tail ≠ [] := by
  simp [JavaMethod.print]

/-- The count of a variant with three or four arguments before the last one. -/
theorem stackArgsCount_dots {fixed : List JniType} (hfixed : fixed ∈ fixedTypes) (args : Nat) :
    stackArgsCount Variant.dots.modIndex args (fixed.length + 1) = 0 ∧
      stackArgsCount Variant.v.modIndex args (fixed.length + 1) = 0 := by
  simp only [fixedTypes, List.mem_cons, List.not_mem_nil, or_false] at hfixed
  obtain rfl | rfl | rfl := hfixed
  · exact ⟨rfl, rfl⟩
  · exact ⟨rfl, rfl⟩
  · exact ⟨rfl, rfl⟩

theorem stackArgsCount_nonneg (modIndex args ctxArgs : Nat) :
    0 ≤ stackArgsCount modIndex args ctxArgs := by
  unfold stackArgsCount
  dsimp only
  generalize (if modIndex = 0 then narrow (sizeT args + sizeT ctxArgs - 8 - 1)
    else narrow (sizeT ctxArgs - 8)) = count
  split <;> omega

/-- `hook_call_methods` on a method the virtual machine prints: what remains is
the trace of the Java arguments. -/
theorem hookCallMethods_eq {info : MethodInfo} {variant : Variant} {fixed : List JniType}
    (hfixed : fixed ∈ fixedTypes) (htypes : info.argsType = fixed ++ [variant.lastType]) {r : Fin 8}
    (hmod : modIndexOf info.index = some (variant.modIndex, r)) {m : JavaMethod}
    {pretty : BitVec 64 → Str} {h : HookArgs} (hid : pretty (h.x r) = m.print [] [',', ' '] [])
    (originEnv originCall : BitVec 64) :
    hookCallMethods info originEnv originCall pretty h =
      (if variant = .v then
        printfJavaFuncArgsEndWithArray h (slotOffset fixed.length) m.descriptors
      else do
        let traced ← printfJavaFuncArgs h (slotOffset fixed.length) m.descriptors m.params.length
        .ok traced.1) >>= fun traced =>
        .ok (tracedFrom h 0 (info.argsText.take fixed.length) ++ traced,
          .route ⟨h.withX0 originEnv,
            stackArgsCount variant.modIndex m.params.length (fixed.length + 1), h.stackArgs,
            originCall⟩) := by
  have hlen : info.argsType.length = fixed.length + 1 := by rw [htypes]; simp
  have htext : info.argsText.length = fixed.length + 1 := by
    rw [MethodInfo.argsText, List.length_map, hlen]
  have hfix := fixedTypes_length_le hfixed
  have hdesc : m.descriptors.length = m.params.length := List.length_map _
  rw [hookCallMethods, printf_fixed h _ (by omega), ok_bind, hmod]
  dsimp only
  rw [if_neg (hid ▸ print_ne_nil m _ _ _), hid,
    parseJavaPrettyName_print m (fun _ hx => absurd hx List.not_mem_nil) (.inr rfl), ok_bind]
  dsimp only
  rw [if_neg (by decide : ¬ true = false), htext, hlen, hdesc, Nat.add_sub_cancel]
  cases variant with
  | v => rfl
  | dots => rfl
  | a => rfl

/-- The trace of the Java arguments of a `...` or an array variant. -/
theorem hookCallMethods_eq_of_ne_v {info : MethodInfo} {variant : Variant}
    {fixed : List JniType} (hv : variant ≠ .v) (hfixed : fixed ∈ fixedTypes)
    (htypes : info.argsType = fixed ++ [variant.lastType]) {r : Fin 8}
    (hmod : modIndexOf info.index = some (variant.modIndex, r)) {m : JavaMethod}
    {pretty : BitVec 64 → Str} {h : HookArgs} (hid : pretty (h.x r) = m.print [] [',', ' '] [])
    (originEnv originCall : BitVec 64) :
    hookCallMethods info originEnv originCall pretty h =
      if fixed.length + m.params.length ≤ 2 ^ 28 then
        .ok (tracedFrom h 0 (info.argsText.take fixed.length) ++
            tracedFrom h fixed.length m.descriptors,
          .route ⟨h.withX0 originEnv,
            stackArgsCount variant.modIndex m.params.length (fixed.length + 1), h.stackArgs,
            originCall⟩)
      else .error .undefined := by
  have hfix : fixed.length ≤ 2 ^ 28 := Nat.le_trans (fixedTypes_length_le hfixed) (by decide)
  have hdesc : m.descriptors.length = m.params.length := List.length_map _
  have hprintf := printfJavaFuncArgs_eq h hfix m.descriptors
  rw [hdesc] at hprintf
  rw [hookCallMethods_eq hfixed htypes hmod hid, if_neg hv, hprintf]
  split <;> rfl

/-- `hook_call_methods` hands on at least the stack words of the call exactly
when the call is forwardable.  `pretty` prints the method whose id the call
passes. -/
theorem hookCallMethods_forwards_iff {info : MethodInfo} (hinfo : info ∈ jniCallMethodInfo)
    (m : JavaMethod) (pretty : BitVec 64 → Str) (h : HookArgs)
    (hid : pretty (h.slot (info.argsType.idxOf .jmethodID)) = m.print [] [',', ' '] [])
    (originEnv originCall : BitVec 64) :
    (∃ tr call, hookCallMethods info originEnv originCall pretty h = .ok (tr, .route call) ∧
      (stackWords (jniCall info m.params) : Int) ≤ call.argc) ↔ Forwardable info m.params := by
  obtain ⟨variant, -, fixed, hfixed, htypes, r, -, hmod, hr⟩ := call_entry info hinfo
  rw [hr, HookArgs.slot, dif_pos r.isLt] at hid
  have hlen : info.argsType.length - 1 = fixed.length := by rw [htypes]; simp
  have hlast : info.argsType.getLast? = some variant.lastType := by rw [htypes]; simp
  rw [stackWords_jniCall hfixed htypes, Forwardable, hlast, hlen]
  have hcount := stackArgsCount_dots hfixed m.params.length
  have hnonneg := stackArgsCount_nonneg variant.modIndex m.params.length (fixed.length + 1)
  cases variant with
  | v =>
      obtain ⟨pva, hpva⟩ :
          ∃ w, getArgs 8 ((slotOffset fixed.length).setWidth 32).toInt h = .ok w := by
        have hfix : fixed.length < 2 ^ 28 :=
          Nat.lt_of_le_of_lt (fixedTypes_length_le hfixed) (by decide)
        exact ⟨_, by rw [toInt_slotOffset hfix, getArgs_slot (Nat.le_refl 8)]⟩
      rw [hookCallMethods_eq hfixed htypes hmod hid, if_pos rfl, printfJavaFuncArgsEndWithArray,
        hpva]
      simp only [Variant.lastType, iff_true]
      split
      · exact ⟨_, _, rfl, by simpa using hnonneg⟩
      · exact ⟨_, _, rfl, by simpa using hnonneg⟩
  | a =>
      rw [hookCallMethods_eq_of_ne_v (by decide) hfixed htypes hmod hid]
      simp only [Variant.lastType]
      split
      next hle => exact iff_of_true ⟨_, _, rfl, by simpa using hnonneg⟩ hle
      next hgt =>
        refine iff_of_false ?_ hgt
        rintro ⟨tr, call, hok, -⟩
        cases hok
  | dots =>
      rw [hookCallMethods_eq_of_ne_v (by decide) hfixed htypes hmod hid, if_pos rfl, hcount.1]
      simp only [Variant.lastType]
      have hsum := count_int_add_count_fp (argClasses m.params)
      rw [argClasses, List.length_map] at hsum
      constructor
      · rintro ⟨tr, call, hok, hle⟩
        split at hok
        next =>
          rw [Except.ok.injEq, Prod.mk.injEq, HookAction.route.injEq] at hok
          rw [← hok.2] at hle
          dsimp only at hle
          omega
        next => cases hok
      · rintro ⟨hint, hfp⟩
        rw [argClasses] at hint hfp
        rw [if_pos (by omega)]
        refine ⟨_, _, rfl, ?_⟩
        rw [argClasses]
        dsimp only
        omega

/-! ## Two calls -/

/-- `CallVoidMethod`. -/
def callVoidMethod : MethodInfo :=
  ⟨61, "CallVoidMethod", .void, [.envPtr, .jobject, .jmethodID, .varargs]⟩

/-- A method with `n` parameters of type `int`. -/
def intMethod (n : Nat) : JavaMethod where
  className := ⟨"a.B".toList, by decide, by decide⟩
  methodName := ⟨"f".toList, by decide, by decide⟩
  params := List.replicate n ⟨0, .prim .int⟩
  ret := none

/-- Five parameters are in registers. -/
theorem callVoidMethod_five :
    callVoidMethod ∈ jniCallMethodInfo ∧ ∃ tr call,
      hookCallMethods callVoidMethod 0 0 (fun _ => (intMethod 5).print [] [',', ' '] []) numbered =
          .ok (tr, .route call) ∧
        (stackWords (jniCall callVoidMethod (intMethod 5).params) : Int) ≤ call.argc := by
  have hmem : callVoidMethod ∈ jniCallMethodInfo := by decide
  have hfit : Forwardable callVoidMethod (intMethod 5).params :=
    show 3 + 5 ≤ 8 ∧ 0 ≤ 8 by decide
  exact ⟨hmem, (hookCallMethods_forwards_iff hmem (intMethod 5) _ numbered rfl 0 0).mpr hfit⟩

/-- The sixth is on the stack, and the hook forwards no stack word. -/
theorem callVoidMethod_six : ∃ tr call,
    hookCallMethods callVoidMethod 0 0 (fun _ => (intMethod 6).print [] [',', ' '] []) numbered =
        .ok (tr, .route call) ∧
      call.argc = 0 ∧ stackWords (jniCall callVoidMethod (intMethod 6).params) = 1 := by
  have hrun : hookCallMethods callVoidMethod 0 0 (fun _ => (intMethod 6).print [] [',', ' '] [])
      numbered = _ :=
    hookCallMethods_eq_of_ne_v (by decide : Variant.dots ≠ .v)
      (by decide : [.envPtr, .jobject, .jmethodID] ∈ fixedTypes) rfl rfl rfl 0 0
  exact ⟨_, _, hrun.trans (if_pos (by decide)), rfl, by decide⟩

end HookJni
