import AndroidAnalysis.Cpp.Vector
import AndroidAnalysis.HookJni.JniNativeHook

/-!
# The trampolines of `init_jni_hook`

The trampoline of a static native holds `&item`, a pointer to an element of
`static_jni_func_infos`, and every call of `init_jni_hook` assigns that vector.  So
the pointers of one call are good in the states it leaves, and the next call that
opens its module ends them.

`initJniHook_of_some` says what a call does.  The rest follows from it: new
trampolines are sound (`contextsLive_hooked`) and old ones are dead (`dead_hooked`).
-/

namespace HookJni

open Cpp Machine Utils

/-! ## The calls -/

/-- A trampoline of `hook_native_func`: the pointer in its code, and the function it
was installed on, by its info and by the entry that `DobbyHook` gave for it. -/
structure StaticTrampoline where
  context : ElemPtr
  function : NativeMethodInfo
  originEntry : BitVec 64
deriving DecidableEq

/-- `static_jni_func_infos`, `origin_jni_onload_ptr` and the trampolines that have
been installed. -/
structure StaticHooks where
  staticJniFuncInfos : Vec NativeMethodInfo
  originJniOnloadPtr : BitVec 64
  trampolines : List StaticTrampoline
deriving DecidableEq

/-- Before the first call. -/
def noStaticHooks : StaticHooks := ⟨.empty, 0, []⟩

/-- A call of `init_jni_hook`: what `fake_dlopen` returns for the module, what the
virtual machine answers, and the original entries that `DobbyHook` stores, of the
elements and of `JNI_OnLoad`. -/
structure InitCall where
  tarModule : Option ElfInfo
  refl : Reflection
  originOf : Nat → BitVec 64
  originOnload : BitVec 64

/-- A round of the loop: the trampoline of `&item`, and `DobbyHook` stores the
original entry through `&item.origin_call`. -/
def hookStaticItem (originOf : Nat → BitVec 64) (s : Vec NativeMethodInfo × List StaticTrampoline)
    (item : ElemPtr) : Except Fault (Vec NativeMethodInfo × List StaticTrampoline) :=
  match s.1.deref item with
  | some info => do
      let infos ← s.1.modify item fun info => { info with originCall := originOf item.index }
      .ok (infos, s.2 ++ [⟨item, info, originOf item.index⟩])
  | none => .error .undefined

/-- `get_jni_onload_ptr` -/
def getJniOnloadPtr (tarModule : ElfInfo) : BitVec 64 := tarModule.dlsym "JNI_OnLoad".toList

/-- `init_jni_hook` -/
def initJniHook (s : StaticHooks) (e : InitCall) : Except Fault StaticHooks :=
  match e.tarModule with
  | none => .ok s
  | some tarModule => do
      let infos ← enumStaticJniFunc e.refl tarModule
      let assigned := s.staticJniFuncInfos.assign infos
      let hooked ← run (hookStaticItem e.originOf) (assigned, s.trampolines) assigned.ptrs
      .ok ⟨hooked.1,
        if getJniOnloadPtr tarModule = 0 then s.originJniOnloadPtr else e.originOnload, hooked.2⟩

/-! ## What is to hold -/

/-- An info describes the function of a trampoline. -/
structure Describes (info : NativeMethodInfo) (t : StaticTrampoline) : Prop where
  className : info.className = t.function.className
  methodName : info.methodName = t.function.methodName
  argsType : info.argsType = t.function.argsType
  originCall : info.originCall = t.originEntry

/-- Every trampoline has a pointer to a live info that describes its function. -/
def ContextsLive (s : StaticHooks) : Prop :=
  ∀ t ∈ s.trampolines, ∃ info, s.staticJniFuncInfos.deref t.context = some info ∧ Describes info t

/-- A symbol that `parse_java_lang_name` reads. -/
def readsLangName (symName : Str) : Bool :=
  match parseJavaLangName symName ⟨[], [], [], false⟩ with
  | .ok (found, _) => found
  | .error _ => false

/-- The call opens a module with a static native. -/
def InitCall.HasStatic (e : InitCall) : Prop :=
  ∃ tarModule ∈ e.tarModule, ∃ symName ∈ tarModule.symNames, readsLangName symName = true

/-! ## The infos of a module -/

theorem updateAt_length {method : Str × Str} {infos infos' : List NativeMethodInfo} {ptr : Nat}
    (h : updateAt method infos ptr = .ok infos') : infos'.length = infos.length := by
  rw [updateAt] at h
  cases hinfo : infos[ptr]? with
  | none => rw [hinfo] at h; exact nomatch h
  | some info =>
      rw [hinfo] at h
      obtain ⟨info', -, h⟩ := bind_eq_ok.mp h
      cases h
      exact List.length_set

/-- `get_method_info` changes infos and adds none. -/
theorem getMethodInfo_length {refl : Reflection} {className : Str} {ptrs : List Nat}
    {infos infos' : List NativeMethodInfo}
    (h : getMethodInfo refl className ptrs infos = .ok infos') : infos'.length = infos.length := by
  obtain ⟨target, -, h⟩ := bind_eq_ok.mp h
  cases target with
  | none =>
      cases h
      rfl
  | some c =>
      exact run_same (f := List.length) (fun _ _ _ => run_same fun _ _ _ => updateAt_length) h

/-- The loop over the symbols adds an info when it reads one. -/
theorem enumSymbol_eq_nil {tarModule : ElfInfo} {infos infos' : List NativeMethodInfo}
    {symName : Str} (h : enumSymbol tarModule infos symName = .ok infos') :
    infos' = [] ↔ infos = [] ∧ readsLangName symName = false := by
  obtain ⟨⟨found, out⟩, hparse, h⟩ := bind_eq_ok.mp h
  have hreads : readsLangName symName = found := by rw [readsLangName, hparse]
  rw [hreads]
  cases found with
  | false =>
      cases h
      simp
  | true =>
      cases h
      simp

theorem run_enumSymbol_eq_nil {tarModule : ElfInfo} {symNames : List Str}
    {infos infos' : List NativeMethodInfo}
    (h : run (enumSymbol tarModule) infos symNames = .ok infos') :
    infos' = [] ↔ infos = [] ∧ ∀ symName ∈ symNames, readsLangName symName = false := by
  induction symNames generalizing infos with
  | nil =>
      cases h
      simp
  | cons symName symNames ih =>
      obtain ⟨t, ht, hrun⟩ := run_cons_eq_ok.mp h
      rw [ih hrun, enumSymbol_eq_nil ht, List.forall_mem_cons, and_assoc]

/-- A module has infos exactly when a symbol of it is read. -/
theorem enumStaticJniFunc_eq_nil {refl : Reflection} {tarModule : ElfInfo}
    {infos : List NativeMethodInfo} (h : enumStaticJniFunc refl tarModule = .ok infos) :
    infos = [] ↔ ∀ symName ∈ tarModule.symNames, readsLangName symName = false := by
  obtain ⟨infos₀, hread, h⟩ := bind_eq_ok.mp h
  have hlength : infos.length = infos₀.length := run_same (fun _ _ _ => getMethodInfo_length) h
  rw [← List.length_eq_zero_iff, hlength, List.length_eq_zero_iff, run_enumSymbol_eq_nil hread]
  exact and_iff_right rfl

/-! ## What a call does -/

/-- The loop of `init_jni_hook`, in one go. -/
theorem run_hookStaticItem (originOf : Nat → BitVec 64) (infos : Vec NativeMethodInfo)
    (trampolines : List StaticTrampoline) :
    run (hookStaticItem originOf) (infos, trampolines) infos.ptrs =
      .ok ({ infos with elems := hookStaticInfos originOf infos.elems },
        trampolines ++ infos.elems.mapIdx fun i info => ⟨⟨infos.life, i⟩, info, originOf i⟩) := by
  have hitem : hookStaticItem originOf = Vec.eachElem
      (fun p info => { info with originCall := originOf p.index })
      (fun p info => ⟨p, info, originOf p.index⟩) := by
    funext s item
    rw [hookStaticItem, Vec.eachElem]
    cases s.1.deref item with
    | some info => rfl
    | none => rfl
  rw [hitem, Vec.run_eachElem]
  rfl

section

variable {s s' : StaticHooks} {e : InitCall} {tarModule : ElfInfo}

/-- The state that a call leaves which has found `infos`. -/
def StaticHooks.hooked (s : StaticHooks) (e : InitCall) (tarModule : ElfInfo)
    (infos : List NativeMethodInfo) : StaticHooks where
  staticJniFuncInfos := s.staticJniFuncInfos.assign (hookStaticInfos e.originOf infos)
  originJniOnloadPtr :=
    if getJniOnloadPtr tarModule = 0 then s.originJniOnloadPtr else e.originOnload
  trampolines := s.trampolines ++
    infos.mapIdx fun i info => ⟨⟨s.staticJniFuncInfos.life + 1, i⟩, info, e.originOf i⟩

theorem initJniHook_of_none (h : e.tarModule = none) : initJniHook s e = .ok s := by
  rw [initJniHook, h]

theorem initJniHook_of_some (hm : e.tarModule = some tarModule) (h : initJniHook s e = .ok s') :
    ∃ infos, enumStaticJniFunc e.refl tarModule = .ok infos ∧ s' = s.hooked e tarModule infos := by
  rw [initJniHook, hm] at h
  obtain ⟨infos, henum, h⟩ := bind_eq_ok.mp h
  refine ⟨infos, henum, ?_⟩
  dsimp only at h
  rw [run_hookStaticItem, ok_bind, Except.ok.injEq] at h
  exact h.symm

/-- What is found of a module has infos exactly when the module has a static native. -/
theorem InitCall.hasStatic_iff (hm : e.tarModule = some tarModule)
    {infos : List NativeMethodInfo} (henum : enumStaticJniFunc e.refl tarModule = .ok infos) :
    e.HasStatic ↔ infos ≠ [] := by
  rw [Ne, enumStaticJniFunc_eq_nil henum, InitCall.HasStatic, hm]
  simp

theorem mem_hooked {infos : List NativeMethodInfo} {t : StaticTrampoline}
    (ht : t ∈ (s.hooked e tarModule infos).trampolines) : t ∈ s.trampolines ∨
      ∃ i info, infos[i]? = some info ∧
        t = ⟨⟨s.staticJniFuncInfos.life + 1, i⟩, info, e.originOf i⟩ := by
  rcases List.mem_append.mp ht with ht | ht
  · exact .inl ht
  · obtain ⟨i, hi, rfl⟩ := List.mem_mapIdx.mp ht
    exact .inr ⟨i, infos[i], List.getElem?_eq_getElem hi, rfl⟩

/-- The trampolines of a call are sound where it is the first with any. -/
theorem contextsLive_hooked (hnone : s.trampolines = []) (infos : List NativeMethodInfo) :
    ContextsLive (s.hooked e tarModule infos) := by
  intro t ht
  rcases mem_hooked ht with ht | ⟨i, info, hinfo, rfl⟩
  · rw [hnone] at ht
    exact absurd ht List.not_mem_nil
  · refine ⟨{ info with originCall := e.originOf i }, ?_, rfl, rfl, rfl, rfl⟩
    have hderef := Vec.deref_mk (v := (s.hooked e tarModule infos).staticJniFuncInfos) i
    refine hderef.trans ?_
    show (hookStaticInfos e.originOf infos)[i]? = _
    rw [hookStaticInfos, List.getElem?_mapIdx, hinfo]
    rfl

/-- The pointers of earlier calls are dead. -/
theorem dead_hooked {t : StaticTrampoline} (h : t.context.life ≤ s.staticJniFuncInfos.life)
    (infos : List NativeMethodInfo) :
    (s.hooked e tarModule infos).staticJniFuncInfos.deref t.context = none :=
  Vec.deref_assign_of_le h _

/-! ## Runs -/

/-- What holds as long as all contexts are live. -/
structure HookedSince (past : List InitCall) (s : StaticHooks) : Prop where
  live : ContextsLive s
  life : ∀ t ∈ s.trampolines, t.context.life ≤ s.staticJniFuncInfos.life
  some : s.trampolines = [] ↔ ∀ e ∈ past, ¬ e.HasStatic

theorem hookedSince_nil : HookedSince [] noStaticHooks where
  live := nofun
  life := nofun
  some := iff_of_true rfl nofun

/-- A call keeps the contexts live when no call before it has met a static native, or it
does not open its module. -/
def InitCall.Keeps (past : List InitCall) (e : InitCall) : Prop :=
  e.tarModule ≠ none → ∀ e' ∈ past, ¬ e'.HasStatic

theorem HookedSince.keep {past : List InitCall} (hs : HookedSince past s)
    (h : initJniHook s e = .ok s') (hkeeps : e.Keeps past) : HookedSince (past ++ [e]) s' := by
  cases hm : e.tarModule with
  | none =>
      rw [initJniHook_of_none hm, Except.ok.injEq] at h
      subst h
      refine ⟨hs.live, hs.life, ?_⟩
      have hstatic : ¬ e.HasStatic := by
        rintro ⟨m, hmem, -⟩
        rw [hm] at hmem
        exact nomatch hmem
      rw [hs.some, List.forall_mem_append, List.forall_mem_singleton, and_iff_left hstatic]
  | some m =>
      obtain ⟨infos, henum, rfl⟩ := initJniHook_of_some hm h
      have hnone : s.trampolines = [] := hs.some.mpr (hkeeps (by rw [hm]; exact nofun))
      refine ⟨contextsLive_hooked hnone infos, fun t ht => ?_, ?_⟩
      · rcases mem_hooked ht with ht | ⟨i, info, -, rfl⟩
        · rw [hnone] at ht
          exact absurd ht List.not_mem_nil
        · exact Nat.le_refl _
      · rw [List.forall_mem_append, List.forall_mem_singleton, ← hs.some,
          InitCall.hasStatic_iff hm henum, not_not, StaticHooks.hooked]
        simp

theorem HookedSince.break {past : List InitCall} (hs : HookedSince past s)
    (h : initJniHook s e = .ok s') (hbad : ¬ e.Keeps past) : ¬ ContextsLive s' := by
  rw [InitCall.Keeps, Classical.not_imp] at hbad
  obtain ⟨hopen, hpast⟩ := hbad
  obtain ⟨m, hm⟩ := Option.ne_none_iff_exists'.mp hopen
  obtain ⟨infos, -, rfl⟩ := initJniHook_of_some hm h
  rw [← hs.some] at hpast
  obtain ⟨t, ht⟩ := List.exists_mem_of_ne_nil _ hpast
  intro hlive
  obtain ⟨info, hderef, -⟩ := hlive t (List.mem_append_left _ ht)
  rw [dead_hooked (hs.life t ht)] at hderef
  exact nomatch hderef

end

/-- The contexts of all static trampolines are live in every state of a run exactly when
no call that opens its module comes after one that has met a static native. -/
theorem contextsLive_run_iff {calls : List InitCall} {s : StaticHooks}
    (h : run initJniHook noStaticHooks calls = .ok s) :
    (∀ p, p <+: calls → ∀ q, run initJniHook noStaticHooks p = .ok q → ContextsLive q) ↔
      ∀ past e post, calls = past ++ e :: post → e.tarModule ≠ none →
        ∀ e' ∈ past, ¬ e'.HasStatic :=
  run_always_iff HookedSince ContextsLive (fun past e => e.Keeps past) (fun _ _ hs => hs.live)
    (fun _ _ _ _ _ hs hstep hkeeps => hs.keep hstep hkeeps)
    (fun _ _ _ _ _ hs hstep hbad => hs.break hstep hbad) [] hookedSince_nil h

/-! ## Two modules -/

/-- A virtual machine that knows no class. -/
def noClasses : Reflection := ⟨fun _ => 0, fun _ => [], fun _ => none, fun _ => none, fun _ => []⟩

/-- A call for a module that has one function, at `addr`. -/
def callFor (symName : Str) (addr : BitVec 64) : InitCall where
  tarModule := some ⟨[symName], fun name => if name = symName then addr else 0⟩
  refl := noClasses
  originOf := fun _ => addr + 4096
  originOnload := addr + 4096

/-- A module that is not loaded, one without natives and one with a native. -/
def oneStatic : List InitCall :=
  [⟨none, noClasses, fun _ => 0, 0⟩, callFor "JNI_OnLoad".toList 64, callFor "Java_a_f".toList 128]

theorem contextsLive_oneStatic : ∃ s, run initJniHook noStaticHooks oneStatic = .ok s ∧
    ∀ p, p <+: oneStatic → ∀ q, run initJniHook noStaticHooks p = .ok q → ContextsLive q := by
  obtain ⟨s, hs⟩ : ∃ s, run initJniHook noStaticHooks oneStatic = .ok s := ⟨_, rfl⟩
  refine ⟨s, hs, (contextsLive_run_iff hs).mpr fun past e post hsplit _ e' he' => ?_⟩
  -- The calls in front of another are the first two.
  have hfirst : e' ∈ oneStatic.take 2 := by
    have hlength := congrArg List.length hsplit
    rw [List.length_append, List.length_cons] at hlength
    have htake : past <+: oneStatic.take 2 := by
      rw [List.prefix_take_iff, hsplit]
      refine ⟨List.prefix_append _ _, ?_⟩
      have : oneStatic.length = 3 := rfl
      omega
    exact htake.subset he'
  rintro ⟨m, hm, symName, hsym, hreads⟩
  rcases List.mem_cons.mp hfirst with rfl | hsecond
  · exact nomatch hm
  · rw [List.mem_singleton.mp hsecond] at hm
    cases hm
    rw [List.mem_singleton.mp hsym] at hreads
    exact absurd hreads (by decide)

/-- Two modules with a native each. -/
def twoStatics : List InitCall := [callFor "Java_a_f".toList 128, callFor "Java_b_g".toList 256]

/-- What is found of such a native. -/
def foundStatic (className methodName symName : Str) (addr : BitVec 64) : NativeMethodInfo where
  className := className
  methodName := methodName
  addr := addr
  originCall := 0
  symName := symName

/-- What the calls leave. -/
def twoStaticsHooked : StaticHooks where
  staticJniFuncInfos :=
    ⟨2, [{ foundStatic ['b'] ['g'] "Java_b_g".toList 256 with originCall := 4352 }]⟩
  originJniOnloadPtr := 0
  trampolines :=
    [⟨⟨1, 0⟩, foundStatic ['a'] ['f'] "Java_a_f".toList 128, 4224⟩,
      ⟨⟨2, 0⟩, foundStatic ['b'] ['g'] "Java_b_g".toList 256, 4352⟩]

/-- The pointer of the first trampoline is dead after the second call. -/
theorem twoStatics_not_live : run initJniHook noStaticHooks twoStatics = .ok twoStaticsHooked ∧
    twoStaticsHooked.staticJniFuncInfos.deref ⟨1, 0⟩ = none ∧ ¬ ContextsLive twoStaticsHooked := by
  refine ⟨rfl, rfl, fun hlive => ?_⟩
  obtain ⟨info, hderef, -⟩ := hlive _ List.mem_cons_self
  exact nomatch hderef

end HookJni
