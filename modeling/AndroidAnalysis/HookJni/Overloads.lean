import AndroidAnalysis.HookJni.LongName
import AndroidAnalysis.HookJni.StoredInfo

/-!
# The first call of an overloaded native

`enum_static_jni_func` reads the parameters of an overloaded native from its long
name, and asks the virtual machine only about the other natives.  But the info is
not available yet, so the first call asks it all the same, and takes every method
of the name in turn.

A letter that is no letter, digit or underscore is `_0` and its code in a symbol,
and `parse_java_lang_name` reads no such symbol.  So the names of a native with an
info are those of `ClassPath` and `JavaIdent`.
-/

namespace HookJni

open Cpp Machine RouteFunc Utils

/-! ## The infos of long names -/

/-- The infos with parameters are the same, and the others are of the same
symbols. -/
def OverridesKept (infos infos' : List NativeMethodInfo) : Prop :=
  ∀ (i : Nat) (info' : NativeMethodInfo), infos'[i]? = some info' → ∃ info, infos[i]? = some info ∧
    info'.symName = info.symName ∧ info'.isOverride = info.isOverride ∧
    (info.isOverride = true → info' = info)

theorem OverridesKept.refl (infos : List NativeMethodInfo) : OverridesKept infos infos :=
  fun _ info h => ⟨info, h, rfl, rfl, fun _ => rfl⟩

theorem updateFromMethod_symbol {info info' : NativeMethodInfo} {method : Str × Str}
    (h : updateFromMethod info method = .ok info') :
    info'.symName = info.symName ∧ info'.isOverride = info.isOverride := by
  obtain rfl | ⟨pretty, available, rfl⟩ := updateFromMethod_ok h
  · exact ⟨rfl, rfl⟩
  · exact ⟨rfl, rfl⟩

section
variable {infos₀ infos infos' : List NativeMethodInfo}

/-- An update of an info without parameters. -/
theorem OverridesKept.updateAt {method : Str × Str} {ptr : Nat}
    (hptr : ∀ info, infos₀[ptr]? = some info → info.isOverride = false)
    (hkept : OverridesKept infos₀ infos) (h : updateAt method infos ptr = .ok infos') :
    OverridesKept infos₀ infos' := by
  rw [HookJni.updateAt] at h
  cases hinfo : infos[ptr]? with
  | none => rw [hinfo] at h; exact nomatch h
  | some info =>
      rw [hinfo] at h
      obtain ⟨info', hupdate, h⟩ := bind_eq_ok.mp h
      cases h
      intro i found hfound
      by_cases hi : ptr = i
      · subst hi
        obtain ⟨info₀, hinfo₀, hsym, hover, -⟩ := hkept ptr info hinfo
        obtain ⟨hsym', hover'⟩ := updateFromMethod_symbol hupdate
        have hlt := (List.getElem?_eq_some_iff.mp hinfo).1
        rw [List.getElem?_set_self hlt, Option.some_inj] at hfound
        subst hfound
        refine ⟨info₀, hinfo₀, hsym'.trans hsym, hover'.trans hover, fun htrue => ?_⟩
        rw [hptr info₀ hinfo₀] at htrue
        exact nomatch htrue
      · rw [List.getElem?_set_ne hi] at hfound
        exact hkept i found hfound

/-- `get_method_info` on infos without parameters. -/
theorem OverridesKept.getMethodInfo {refl : Reflection} {className : Str} {ptrs : List Nat}
    (hptrs : ∀ ptr ∈ ptrs, ∀ info, infos₀[ptr]? = some info → info.isOverride = false)
    (hkept : OverridesKept infos₀ infos)
    (h : getMethodInfo refl className ptrs infos = .ok infos') : OverridesKept infos₀ infos' := by
  obtain ⟨target, -, h⟩ := bind_eq_ok.mp h
  cases target with
  | none =>
      cases h
      exact hkept
  | some c =>
      refine run_invariant (fun infos method infos' hkept h => ?_) hkept h
      exact run_invariant_mem
        (fun infos ptr infos' hptr hkept h => hkept.updateAt (hptrs ptr hptr) h) hkept h

/-- The pointers of `need_query` are to infos without parameters. -/
theorem needQuery_isOverride {className : Str} {ptr : Nat} (hptr : ptr ∈ needQuery infos className)
    {info : NativeMethodInfo} (hinfo : infos[ptr]? = some info) : info.isOverride = false := by
  have h := (List.mem_filter.mp hptr).2
  rw [hinfo, Option.any_some, Bool.and_eq_true, Bool.not_eq_true'] at h
  exact h.1

/-- Every info of the loop over the symbols is what is read of its symbol. -/
theorem run_enumSymbol {tarModule : ElfInfo} {symNames : List Str}
    (h : run (enumSymbol tarModule) [] symNames = .ok infos) :
    ∀ info ∈ infos, ∃ parsed, parseJavaLangName info.symName ⟨[], [], [], false⟩ =
      .ok (true, parsed) ∧ info = tarModule.info info.symName parsed := by
  refine run_invariant (P := fun infos => ∀ info ∈ infos, ∃ parsed,
    parseJavaLangName info.symName ⟨[], [], [], false⟩ = .ok (true, parsed) ∧
      info = tarModule.info info.symName parsed) (fun infos symName infos' hall h => ?_)
    (fun info hinfo => absurd hinfo List.not_mem_nil) h
  obtain ⟨⟨done, parsed⟩, hparse, h⟩ := bind_eq_ok.mp h
  cases done with
  | false =>
      cases h
      exact hall
  | true =>
      cases h
      intro info hinfo
      obtain hinfo | hinfo := List.mem_append.mp hinfo
      · exact hall info hinfo
      · rw [List.mem_singleton.mp hinfo]
        exact ⟨parsed, hparse, rfl⟩

/-- `enum_static_jni_func` leaves an info with parameters as it was read of its
symbol. -/
theorem enumStaticJniFunc_override {refl : Reflection} {tarModule : ElfInfo}
    (h : enumStaticJniFunc refl tarModule = .ok infos) {i : Nat} {info : NativeMethodInfo}
    (hinfo : infos[i]? = some info) : ∃ parsed,
    parseJavaLangName info.symName ⟨[], [], [], false⟩ = .ok (true, parsed) ∧
      (parsed.isOverride = true → info = tarModule.info info.symName parsed) := by
  obtain ⟨infos₀, hread, h⟩ := bind_eq_ok.mp h
  have hkept : OverridesKept infos₀ infos :=
    run_invariant (fun infos className infos' hkept h => hkept.getMethodInfo
      (fun ptr hptr info hinfo => needQuery_isOverride hptr hinfo) h) (OverridesKept.refl infos₀) h
  obtain ⟨info₀, hinfo₀, hsym, -, hsame⟩ := hkept i info hinfo
  obtain ⟨parsed, hparse, heq⟩ := run_enumSymbol hread info₀ (List.mem_of_getElem? hinfo₀)
  rw [← hsym] at hparse heq
  refine ⟨parsed, hparse, fun hover => ?_⟩
  have hsame := hsame (by rw [heq]; exact hover)
  exact hsame.trans heq

end

/-! ## The first call -/

/-- The event is a call of the exported native with the `i`-th info. -/
def Event.CallsStatic (i : Nat) : Event → Prop
  | .native _ _ ref _ => ref = .static i
  | _ => False

/-- Only a call of the native changes its info. -/
theorem Effect.statics {f : Installed} {p p' : Process} {e : Event} (h : Effect f p e p') {i : Nat}
    (hno : ¬ e.CallsStatic i) : p'.statics[i]? = p.statics[i]? := by
  cases h with
  | onLoad => rfl
  | @native vm tid ref h info info' hinfo hupdate =>
      cases ref with
      | static j => exact List.getElem?_set_ne fun hij => hno (congrArg NativeRef.static hij)
      | reg j => rfl
  | envReturn hslot => rfl
  | envRoute hslot hne => rfl
  | registerNatives hslot hindex hreg => rfl
  | jvmAttach hslot hindex =>
      rw [Process.attached]
      split
      next => rfl
      next => rfl
  | jvmRoute hslot hne => rfl

section
variable {f : Installed} {refl : Reflection} {tarModule : ElfInfo} {infos : List NativeMethodInfo}
  {originOf : Nat → BitVec 64} {i : Nat} {info : NativeMethodInfo} {cls : ClassPath}
  {method : JavaIdent} {ts : List (JavaType ClassPath)}

/-- The info of a native with a long name has the names of the native, and is not
available. -/
theorem enumStaticJniFunc_longName (henum : enumStaticJniFunc refl tarModule = .ok infos)
    (hinfo : infos[i]? = some info) (hsym : info.symName = longName cls method (descriptors ts)) :
    info.className = cls.dotted ∧ info.methodName = method.chars ∧ info.available = false := by
  obtain ⟨parsed, hparse, hkept⟩ := enumStaticJniFunc_override henum hinfo
  rw [hsym] at hparse
  obtain ⟨hcls, hmethod, hover⟩ := parseJavaLangName_long_names hparse
  rw [hkept hover]
  exact ⟨hcls, hmethod, rfl⟩

/-- Until the native is called, its info is as it was. -/
theorem statics_until_call (hinfo : infos[i]? = some info) {earlier : List Event} {p : Process}
    (hrun : run (step f) (Process.start (hookStaticInfos originOf infos)) earlier = .ok p)
    (hfirst : ∀ e ∈ earlier, ¬ e.CallsStatic i) :
    p.statics[i]? = some { info with originCall := originOf i } := by
  refine run_invariant_mem (P := fun p => p.statics[i]? =
    some { info with originCall := originOf i }) (fun p e p' he hp hstep => ?_) ?_ hrun
  · rw [(step_effect hstep).statics (hfirst e he), hp]
  · show (hookStaticInfos originOf infos)[i]? = _
    rw [hookStaticInfos, List.getElem?_mapIdx, hinfo]
    rfl

/-- The first call of a native with a long name leaves the parameters of that
overload in its info, exactly when the last method of the name that the class
lists has them. -/
theorem overload_kept_iff (henum : enumStaticJniFunc refl tarModule = .ok infos)
    (hinfo : infos[i]? = some info) (hsym : info.symName = longName cls method (descriptors ts))
    {earlier : List Event} {p p' : Process}
    (hrun : run (step f) (Process.start (hookStaticInfos originOf infos)) earlier = .ok p)
    (hfirst : ∀ e ∈ earlier, ¬ e.CallsStatic i) {vm : Vm} {tid : Int} {h : HookArgs}
    (hstep : step f p (.native vm tid (.static i) h) = .ok p') {ds : List Declared}
    (hds : Declares vm.refl cls.dotted ds)
    (hdecl : ∃ d ∈ ds, d.name = method.chars ∧ d.method.descriptors = descriptors ts) :
    (∃ info', p'.statics[i]? = some info' ∧ info'.argsType = descriptors ts) ↔
      ∀ d, lastNamed ds method.chars = some d → d.method.descriptors = descriptors ts := by
  obtain ⟨hcls, hmethod, havailable⟩ := enumStaticJniFunc_longName henum hinfo hsym
  have hp := statics_until_call hinfo hrun hfirst
  obtain ⟨d₀, hd₀, hname, -⟩ := hdecl
  obtain ⟨d, hlast⟩ := exists_lastNamed hd₀
  rw [hname] at hlast
  cases step_effect hstep with
  | @native _ _ _ _ info₀ info' hinfo₀ hupdate =>
      obtain rfl : info₀ = { info with originCall := originOf i } :=
        Option.some_inj.mp (hinfo₀.symm.trans hp)
      have hu : updateMethodInfo vm.refl { info with originCall := originOf i } = .ok info' := by
        obtain ⟨ha, -⟩ | ⟨-, hu⟩ := hupdate
        · exact absurd (havailable.symm.trans ha) Bool.false_ne_true
        · exact hu
      have hclass : Declares vm.refl ({ info with originCall := originOf i } :
          NativeMethodInfo).className ds := by
        show Declares vm.refl info.className ds
        rw [hcls]
        exact hds
      rw [updateMethodInfo_declares hclass, Except.ok.injEq] at hu
      have hargs : info'.argsType = d.method.descriptors := by
        rw [← hu, show ({ info with originCall := originOf i } : NativeMethodInfo).methodName =
          method.chars from hmethod, hlast]
        rfl
      have hstored : (p.statics.set i info')[i]? = some info' :=
        List.getElem?_set_self (List.getElem?_eq_some_iff.mp hp).1
      rw [hlast]
      constructor
      · rintro ⟨info'', hfound, hargs'⟩ d' hd'
        obtain rfl : info' = info'' := Option.some_inj.mp (hstored.symm.trans hfound)
        rw [← Option.some_inj.mp hd', ← hargs, hargs']
      · intro hall
        exact ⟨info', hstored, hargs.trans (hall d rfl)⟩

end

/-! ## Two overloads -/

/-- The native `void a.f(p)`. -/
def nativeF (p : Prim) : Declared where
  method := ⟨⟨['a'], by decide, by decide⟩, ⟨['f'], by decide, by decide⟩, [⟨0, .prim p⟩], none⟩
  mods := ["native".toList]
  plain := by decide
  tail := []

/-- The symbols of `a.f(int)` and `a.f(double)`. -/
def overloadsModule : ElfInfo := ⟨["Java_a_f__I".toList, "Java_a_f__D".toList], fun _ => 0⟩

/-- The process that has found them. -/
def overloadsProcess (infos : List NativeMethodInfo) : Process :=
  Process.start (hookStaticInfos (fun _ => 0) infos)

/-- A machine that lists these methods of `a`. -/
def overloadsVm (ds : List Declared) : Vm := ⟨listing ['a'] ds, fun _ => [], fun _ => 0⟩

/-- Where the class lists `f(double)` last, the first call of `f(int)` leaves
`double` in its info. -/
theorem overload_lost : ∃ infos info p,
    enumStaticJniFunc emptyVm.refl overloadsModule = .ok infos ∧ infos[0]? = some info ∧
      info.symName = longName classA methodF (descriptors [⟨0, .prim .int⟩]) ∧
      info.argsType = descriptors [⟨0, .prim .int⟩] ∧
      step installed (overloadsProcess infos)
        (.native (overloadsVm [nativeF .int, nativeF .double]) 7 (.static 0) numbered) = .ok p ∧
      p.statics[0]?.map NativeMethodInfo.argsType = some (descriptors [⟨0, .prim .double⟩]) ∧
      ¬ ∃ info', p.statics[0]? = some info' ∧ info'.argsType = descriptors [⟨0, .prim .int⟩] := by
  refine ⟨_, _, _, rfl, rfl, rfl, rfl, rfl, rfl, ?_⟩
  rintro ⟨info', hinfo, hargs⟩
  cases hinfo
  exact absurd hargs (by decide)

/-- Where the class lists `f(int)` last, the info keeps its parameter. -/
theorem overload_kept : ∃ infos p, enumStaticJniFunc emptyVm.refl overloadsModule = .ok infos ∧
    step installed (overloadsProcess infos)
      (.native (overloadsVm [nativeF .double, nativeF .int]) 7 (.static 0) numbered) = .ok p ∧
    ∃ info', p.statics[0]? = some info' ∧ info'.argsType = descriptors [⟨0, .prim .int⟩] := by
  obtain ⟨infos, info, henum, hinfo, hsym⟩ : ∃ infos info,
      enumStaticJniFunc emptyVm.refl overloadsModule = .ok infos ∧ infos[0]? = some info ∧
        info.symName = longName classA methodF (descriptors [⟨0, .prim .int⟩]) :=
    ⟨_, _, rfl, rfl, rfl⟩
  obtain ⟨p, hstep⟩ : ∃ p, step installed (overloadsProcess infos)
      (.native (overloadsVm [nativeF .double, nativeF .int]) 7 (.static 0) numbered) = .ok p := by
    cases henum
    exact ⟨_, rfl⟩
  have hds : Declares (overloadsVm [nativeF .double, nativeF .int]).refl classA.dotted
      [nativeF .double, nativeF .int] := declares_listing _ _
  refine ⟨infos, p, henum, hstep, (overload_kept_iff henum hinfo hsym (run_nil _)
    (fun e he => absurd he List.not_mem_nil) hstep hds
    ⟨nativeF .int, by simp, rfl, rfl⟩).mpr fun d hd => ?_⟩
  cases hd
  rfl

end HookJni
