import AndroidAnalysis.HookJni.JniCall
import AndroidAnalysis.HookJni.RegisterNatives
import AndroidAnalysis.HookJni.ParsePrettyName

/-!
# What is stored of a registered native

`hook_RegisterNatives` stores the class and the parameters of a native, and the
first call of it looks the method up by reflection and stores them again.  Both
ask the virtual machine, so a result about them needs its classes: `ClassTable`
has the classes and their declared methods, and `Shows` says that the answers
are about these.
-/

namespace HookJni

open Cpp Machine RouteFunc Utils

/-! ## Classes -/

/-- The name of the class of classes. -/
def javaLangClass : Str := "java.lang.Class".toList

/-- A declared method, and what it prints around its types. -/
structure Declared where
  method : JavaMethod
  mods : List Str
  plain : ∀ x ∈ mods, Plain x
  tail : Str

/-- What `getName` returns. -/
def Declared.name (d : Declared) : Str := d.method.methodName.chars

/-- What `getName` and `toString` return. -/
def Declared.pair (d : Declared) : Str × Str := (d.name, d.method.print d.mods [','] d.tail)

/-- The classes of a virtual machine, by name, and the methods each declares. -/
structure ClassTable where
  IsClass : Str → Prop
  declared : Str → List Declared
  className : ∀ X, ∀ d ∈ declared X, d.method.className.chars = X
  isClass_class : IsClass javaLangClass

/-- Answers are about the classes, where `name` gives the class a reference is
of: the class of a class is `java.lang.Class`, a class prints `class` and its
name, and is found with its methods by its name. -/
structure ClassTable.Shows (w : ClassTable) (name : BitVec 64 → Option Str) (refl : Reflection) :
    Prop where
  getObjectClass : ∀ c X, name c = some X → name (refl.getObjectClass c) = some javaLangClass
  toString : ∀ c X, name c = some X → refl.toString c = "class ".toList ++ X
  forName : ∀ X, w.IsClass X → ∃ c, refl.forName X = some c ∧ name c = some X
  declaredMethods : ∀ c X, name c = some X →
    refl.declaredMethods c = (w.declared X).map Declared.pair

section
variable {w : ClassTable} {name : BitVec 64 → Option Str} {refl : Reflection}

/-- The class name that is read of a class is that of its class. -/
theorem getObjectClassName_class (hw : w.Shows name refl) {c : BitVec 64} {X : Str}
    (hc : name c = some X) : getObjectClassName refl c = .ok javaLangClass := by
  rw [getObjectClassName, hw.toString _ _ (hw.getObjectClass c X hc), substrFrom_find_succ]
  rfl

/-! ## An update -/

/-- The declared method of a name that is listed last. -/
def lastNamed (ds : List Declared) (n : Str) : Option Declared :=
  (ds.filter fun d => d.name = n).getLast?

/-- An info with what a declared method prints. -/
def NativeMethodInfo.withDeclared (info : NativeMethodInfo) (d : Declared) : NativeMethodInfo :=
  { info with
    className := d.method.className.chars
    methodName := d.name
    argsType := d.method.descriptors
    retType := retDescriptor d.method.ret
    available := true }

/-- An info after an update by the method that is found. -/
def NativeMethodInfo.updated (info : NativeMethodInfo) : Option Declared → NativeMethodInfo
  | some d => info.withDeclared d
  | none => info

theorem lastNamed_cons (d : Declared) (ds : List Declared) (n : Str) :
    lastNamed (d :: ds) n = (lastNamed ds n).or (if d.name = n then some d else none) := by
  rw [lastNamed, List.filter_cons]
  split
  next h =>
    rw [if_pos (of_decide_eq_true h), List.getLast?_cons, lastNamed]
    cases (ds.filter fun d => d.name = n).getLast? with
    | none => rfl
    | some d' => rfl
  next h => rw [if_neg (fun hn => h (decide_eq_true hn)), Option.or_none, lastNamed]

theorem lastNamed_some {ds : List Declared} {n : Str} {d : Declared} (h : lastNamed ds n = some d) :
    d ∈ ds ∧ d.name = n := by
  have := List.mem_filter.mp (List.mem_of_getLast? h)
  exact ⟨this.1, of_decide_eq_true this.2⟩

/-- A name that is declared has a last method. -/
theorem exists_lastNamed {ds : List Declared} {d : Declared} (h : d ∈ ds) :
    ∃ d', lastNamed ds d.name = some d' := by
  have hmem : d ∈ ds.filter fun e => e.name = d.name :=
    List.mem_filter.mpr ⟨h, decide_eq_true rfl⟩
  exact ⟨_, List.getLast?_eq_some_getLast (List.ne_nil_of_mem hmem)⟩

/-- An info after a round of the loop, which takes a method of the info's
name. -/
def NativeMethodInfo.round (info : NativeMethodInfo) (d : Declared) : NativeMethodInfo :=
  info.updated (if d.name = info.methodName then some d else none)

theorem updateFromMethod_pair (info : NativeMethodInfo) (d : Declared) :
    updateFromMethod info d.pair = .ok (info.round d) := by
  rw [updateFromMethod, show d.pair.1 = d.name from rfl, NativeMethodInfo.round]
  split
  next =>
    rw [Declared.pair, parseJavaPrettyName_print d.method d.plain (.inl rfl), ok_bind]
    rfl
  next => rfl

/-- A later method of the name overwrites all that a round takes. -/
theorem NativeMethodInfo.updated_round (info : NativeMethodInfo) (d : Declared)
    (ds : List Declared) :
    (info.round d).updated (lastNamed ds (info.round d).methodName) =
      info.updated (lastNamed (d :: ds) info.methodName) := by
  rw [round, lastNamed_cons]
  split
  next h =>
    rw [show (info.updated (some d)).methodName = info.methodName from h]
    cases lastNamed ds info.methodName with
    | none => rfl
    | some d' => rfl
  next h => rw [Option.or_none]; rfl

/-- The loop leaves what the last method of the info's name prints. -/
theorem run_updateFromMethod (ds : List Declared) (info : NativeMethodInfo) :
    run updateFromMethod info (ds.map Declared.pair) =
      .ok (info.updated (lastNamed ds info.methodName)) := by
  induction ds generalizing info with
  | nil => rfl
  | cons d ds ih =>
      rw [List.map_cons, run, updateFromMethod_pair]
      dsimp only
      rw [ih, info.updated_round]

/-- A class of the name is found, and its declared methods are listed so. -/
def Declares (refl : Reflection) (X : Str) (ds : List Declared) : Prop :=
  ∃ c, targetClass refl X = .ok (some c) ∧ refl.declaredMethods c = ds.map Declared.pair

/-- A machine with one class, and its methods as they are listed. -/
def listing (X : Str) (ds : List Declared) : Reflection where
  getObjectClass _ := 0
  toString _ := []
  forName Y := if Y = X then some 1 else none
  findClass _ := none
  declaredMethods _ := ds.map Declared.pair

theorem declares_listing (X : Str) (ds : List Declared) : Declares (listing X ds) X ds := by
  have hfor : (listing X ds).forName X = some 1 := if_pos rfl
  exact ⟨1, by rw [targetClass, hfor], rfl⟩

theorem ClassTable.Shows.declares (hw : w.Shows name refl) {X : Str} (hX : w.IsClass X) :
    Declares refl X (w.declared X) := by
  obtain ⟨c, hfor, hc⟩ := hw.forName X hX
  exact ⟨c, by rw [targetClass, hfor], hw.declaredMethods c X hc⟩

/-- An update takes the last method of the info's name that its class declares. -/
theorem updateMethodInfo_declares {info : NativeMethodInfo} {ds : List Declared}
    (h : Declares refl info.className ds) :
    updateMethodInfo refl info = .ok (info.updated (lastNamed ds info.methodName)) := by
  obtain ⟨c, htarget, hds⟩ := h
  rw [updateMethodInfo, htarget, ok_bind]
  dsimp only
  rw [hds, run_updateFromMethod]

end

/-! ## The info of an entry -/

/-- An entry with a trampoline has its info in the list: the parsed signature,
and the class name that was read. -/
theorem hookRegisterNatives_stored {refl : Reflection} {c : BitVec 64} {method : MethodTable}
    {regs : List NativeMethodInfo} {r : List (JniNativeMethod FnPtr) × List NativeMethodInfo}
    (h : hookRegisterNatives refl c method regs = .ok r) {m : JniNativeMethod (BitVec 64)}
    {m' : JniNativeMethod FnPtr} (hm : (m, m') ∈ method.zip r.1) {k : Nat}
    (hk : m'.fnPtr = .shellcode (.reg k)) :
    ∃ parsed className, parseJavaSignature m.signature ⟨[], []⟩ = .ok (true, parsed) ∧
      getObjectClassName refl c = .ok className ∧
      r.2[k]? = some (registeredInfo m parsed className) := by
  induction method generalizing regs r with
  | nil => exact absurd hm (by simp)
  | cons m₀ method ih =>
      obtain ⟨first, hfirst, h⟩ := bind_eq_ok.mp h
      obtain ⟨rest, hrest, h⟩ := bind_eq_ok.mp h
      cases h
      rw [List.zip_cons_cons, List.mem_cons, Prod.mk.injEq] at hm
      obtain ⟨rfl, rfl⟩ | htail := hm
      · obtain ⟨-, rfl⟩ | ⟨-, parsed, className, hparse, hclass, rfl⟩ := registerEntry_cases hfirst
        · exact nomatch hk
        · cases hk
          exact ⟨parsed, className, hparse, hclass,
            getElem?_of_append (hookRegisterNatives_preserved hrest).2 List.getElem?_concat_length⟩
      · have hstored := ih hrest htail
        exact hstored

/-! ## Runs -/

section
variable {f : Installed} {p p' : Process} {e : Event} {k : Nat}

/-- The virtual machine at the time of an event. -/
def Event.vm : Event → Option Vm
  | .onLoad => none
  | .native vm _ _ _ | .env vm _ _ _ _ _ | .jvm vm _ _ _ _ => some vm

/-- The event is a call of the native with the `k`-th registered info. -/
def Event.Calls (k : Nat) : Event → Prop
  | .native _ _ ref _ => ref = .reg k
  | _ => False

/-- Only a call of the native changes its info. -/
theorem Effect.regs_cases (h : Effect f p e p') {info : NativeMethodInfo}
    (hinfo : p.regs[k]? = some info) :
    (¬ e.Calls k ∧ p'.regs[k]? = some info) ∨
      ∃ vm info', e.vm = some vm ∧ e.Calls k ∧ p'.regs[k]? = some info' ∧
        (info.available ∧ info' = info ∨
          info.available = false ∧ updateMethodInfo vm.refl info = .ok info') := by
  cases h with
  | onLoad => exact .inl ⟨id, hinfo⟩
  | @native vm tid ref h info₀ info' hinfo₀ hupdate =>
      cases ref with
      | static i => exact .inl ⟨nofun, hinfo⟩
      | reg i =>
          by_cases hik : i = k
          · subst hik
            rw [Process.info, hinfo, Option.some_inj] at hinfo₀
            subst hinfo₀
            exact .inr ⟨vm, info', rfl, rfl,
              List.getElem?_set_self (List.getElem?_eq_some_iff.mp hinfo).1, hupdate⟩
          · refine .inl ⟨fun hc => hik (NativeRef.reg.inj hc), ?_⟩
            exact (List.getElem?_set_ne hik).trans hinfo
  | envReturn hslot => exact .inl ⟨id, hinfo⟩
  | envRoute hslot hne => exact .inl ⟨id, hinfo⟩
  | registerNatives hslot hindex hreg =>
      exact .inl ⟨id, getElem?_of_append (hookRegisterNatives_preserved hreg).2 hinfo⟩
  | jvmAttach hslot hindex =>
      refine .inl ⟨id, ?_⟩
      rw [Process.attached]
      split
      next => exact hinfo
      next => exact hinfo
  | jvmRoute hslot hne => exact .inl ⟨id, hinfo⟩

/-- The stored class and parameters are those. -/
def Stored (k : Nat) (X : Str) (args : List Str) (p : Process) : Prop :=
  ∃ info, p.regs[k]? = some info ∧ info.className = X ∧ info.argsType = args

/-- Where the class of classes declares a method of the name, the last one has
the parameters. -/
def ClassTable.Agrees (w : ClassTable) (n : Str) (args : List Str) : Prop :=
  ∀ d, lastNamed (w.declared javaLangClass) n = some d → d.method.descriptors = args

/-- What a run keeps of a stored info as long as it is right: it has its name,
and was looked up only if the methods agree. -/
def StoredFor (w : ClassTable) (k : Nat) (n : Str) (args : List Str) (p : Process) : Prop :=
  ∃ info, p.regs[k]? = some info ∧ info.className = javaLangClass ∧ info.argsType = args ∧
    info.methodName = n ∧ (info.available = true → w.Agrees n args)

/-- The answers at the time of an event are about the classes. -/
def Event.Shows (w : ClassTable) (e : Event) : Prop :=
  ∀ vm, e.vm = some vm → ∃ name, w.Shows name vm.refl

variable {w : ClassTable} {n : Str} {args : List Str}

theorem StoredFor.stored (h : StoredFor w k n args p) : Stored k javaLangClass args p := by
  obtain ⟨info, hinfo, hclass, hargs, -⟩ := h
  exact ⟨info, hinfo, hclass, hargs⟩

/-- A step keeps the stored info right exactly when it is no call of the native,
or the methods agree. -/
theorem StoredFor.effect (hs : StoredFor w k n args p) (h : Effect f p e p') (hw : e.Shows w) :
    ((e.Calls k → w.Agrees n args) → StoredFor w k n args p') ∧
      (Stored k javaLangClass args p' → e.Calls k → w.Agrees n args) := by
  obtain ⟨info, hinfo, hclass, hargs, hname, havail⟩ := hs
  obtain ⟨hno, hsame⟩ | ⟨vm, info', hvm, hcall, hinfo', hupdate⟩ := h.regs_cases hinfo
  · exact ⟨fun _ => ⟨info, hsame, hclass, hargs, hname, havail⟩, fun _ hc => absurd hc hno⟩
  · obtain ⟨ha, rfl⟩ | ⟨ha, hu⟩ := hupdate
    · exact ⟨fun _ => ⟨info', hinfo', hclass, hargs, hname, havail⟩, fun _ _ => havail ha⟩
    · obtain ⟨name, hshow⟩ := hw vm hvm
      rw [updateMethodInfo_declares (hclass ▸ hshow.declares w.isClass_class), hclass, hname,
        Except.ok.injEq] at hu
      subst hu
      cases hl : lastNamed (w.declared javaLangClass) n with
      | none =>
          rw [hl] at hinfo'
          refine ⟨fun _ => ⟨info, hinfo', hclass, hargs, hname, havail⟩, fun _ _ d hd => ?_⟩
          exact nomatch hl.symm.trans hd
      | some d =>
          rw [hl] at hinfo'
          have hmem := lastNamed_some hl
          refine ⟨fun hagrees => ?_, fun hstored hc d' hd' => ?_⟩
          · have := hagrees hcall
            exact ⟨_, hinfo', w.className _ d hmem.1, this d hl, hmem.2, fun _ => this⟩
          · obtain ⟨info', hi, -, hargs'⟩ := hstored
            rw [hinfo', Option.some_inj] at hi
            rw [hl, Option.some_inj] at hd'
            rw [← hd', ← hargs', ← hi]
            rfl

/-- What is stored by `hook_RegisterNatives` for an entry with a trampoline. -/
theorem storedFor_register {vm : Vm} {tid : Int} {h : HookArgs} {method : MethodTable}
    {answer : Answer} (hstep : step f p (.env vm tid 215 h method answer) = .ok p')
    {name : BitVec 64 → Option Str} (hw : w.Shows name vm.refl) {X : Str}
    (hX : name (h.x 1) = some X) {r : Registration} (hr : p'.registrations.getLast? = some r)
    {m : JniNativeMethod (BitVec 64)} {m' : JniNativeMethod FnPtr}
    (hm : (m, m') ∈ r.method.zip r.passed) (hk : m'.fnPtr = .shellcode (.reg k))
    {out : SignatureOut} (hparse : parseJavaSignature m.signature ⟨[], []⟩ = .ok (true, out)) :
    StoredFor w k m.name out.argsType p' := by
  cases step_effect hstep with
  | envReturn hslot => exact absurd rfl (slot_ne_registerNatives hslot (.inl rfl))
  | envRoute hslot hne => exact absurd rfl (slot_ne_registerNatives hslot hne)
  | registerNatives hslot hindex hreg =>
      rw [List.getLast?_concat, Option.some_inj] at hr
      subst hr
      obtain ⟨parsed, className, hp, hclass, hinfo⟩ := hookRegisterNatives_stored hreg hm hk
      rw [hparse, Except.ok.injEq, Prod.mk.injEq] at hp
      rw [getObjectClassName_class hw hX, Except.ok.injEq] at hclass
      exact ⟨_, hinfo, hclass.symm, hp.2 ▸ rfl, rfl, fun ha => nomatch ha⟩

/-- After `hook_RegisterNatives` has stored an info for a native of the class
`X`, and as long as the process runs, the info has the name of the class and the
parameters of the signature, exactly when `X` is `java.lang.Class` itself and the
native is never called or that class declares no method that says otherwise. -/
theorem stored_iff {vm : Vm} {tid : Int} {h : HookArgs} {method : MethodTable} {answer : Answer}
    (hstep : step f p (.env vm tid 215 h method answer) = .ok p')
    {name : BitVec 64 → Option Str} (hw : w.Shows name vm.refl) {X : Str}
    (hX : name (h.x 1) = some X) {r : Registration} (hr : p'.registrations.getLast? = some r)
    {m : JniNativeMethod (BitVec 64)} {m' : JniNativeMethod FnPtr}
    (hm : (m, m') ∈ r.method.zip r.passed) (hk : m'.fnPtr = .shellcode (.reg k))
    {out : SignatureOut} (hparse : parseJavaSignature m.signature ⟨[], []⟩ = .ok (true, out))
    {later : List Event} (hlater : ∀ e ∈ later, e.Shows w) {q : Process}
    (hrun : run (step f) p' later = .ok q) :
    (∀ es, es <+: later → ∀ q, run (step f) p' es = .ok q → Stored k X out.argsType q) ↔
      X = javaLangClass ∧ ∀ e ∈ later, e.Calls k → w.Agrees m.name out.argsType := by
  have hstart : StoredFor w k m.name out.argsType p' :=
    storedFor_register hstep hw hX hr hm hk hparse
  by_cases hname : X = javaLangClass
  · subst hname
    rw [run_always_iff_mem (StoredFor w k m.name out.argsType)
      (Stored k javaLangClass out.argsType) (fun e => e.Calls k → w.Agrees m.name out.argsType)
      (fun _ hs => hs.stored)
      (fun _ e _ he hs hstep => (hs.effect (step_effect hstep) (hlater e he)).1)
      (fun _ e _ he hs hstep hbad hs' =>
        hbad ((hs.effect (step_effect hstep) (hlater e he)).2 hs'))
      hstart hrun]
    exact (and_iff_right rfl).symm
  · refine iff_of_false (fun hall => hname ?_) fun h => hname h.1
    obtain ⟨info, hinfo, hclass, -⟩ := hall [] List.nil_prefix p' rfl
    obtain ⟨info', hinfo', hclass', -⟩ := hstart
    rw [hinfo, Option.some_inj] at hinfo'
    rw [← hclass, hinfo', hclass']

end

/-! ## Two registrations -/

/-- The reflected answers of a machine with the class `a.B` at 1 and
`java.lang.Class` everywhere else. -/
def twoClasses : Reflection where
  getObjectClass _ := 2
  toString c := "class ".toList ++ if c = 1 then "a.B".toList else javaLangClass
  forName X := if X = "a.B".toList then some 1 else if X = javaLangClass then some 2 else none
  findClass _ := none
  declaredMethods _ := []

/-- Two classes without declared methods. -/
def twoClassTable : ClassTable where
  IsClass X := X = "a.B".toList ∨ X = javaLangClass
  declared _ := []
  className _ _ hd := absurd hd List.not_mem_nil
  isClass_class := .inr rfl

/-- The class a reference of that machine is of. -/
def twoClassName (c : BitVec 64) : Option Str :=
  some (if c = 1 then "a.B".toList else javaLangClass)

theorem twoClasses_shows : twoClassTable.Shows twoClassName twoClasses where
  getObjectClass _ _ _ := rfl
  toString c X h := by rw [← Option.some_inj.mp h]; rfl
  forName X h := by
    obtain rfl | rfl := h
    · exact ⟨1, rfl, rfl⟩
    · exact ⟨2, rfl, rfl⟩
  declaredMethods _ _ _ := rfl

/-- The machine with the two classes. -/
def twoClassVm : Vm := ⟨twoClasses, fun _ => [], fun c => c.toNat⟩

/-- The info of a native of `a.B` has the class name `java.lang.Class`. -/
theorem stored_class_name : twoClassTable.Shows twoClassName twoClassVm.refl ∧
    twoClassName (numbered.x 1) = some "a.B".toList ∧
    ∃ p, run (step installed) (Process.start [])
        [.jvm twoClassVm 7 6 numbered ⟨0, 100, 0⟩,
          .env twoClassVm 7 215 numbered [⟨"f".toList, "(I)V".toList, 0x500⟩] ⟨0, 100, 0⟩] = .ok p ∧
      p.regs[0]?.map (·.className) = some javaLangClass ∧ ¬ Stored 0 "a.B".toList [['I']] p := by
  refine ⟨twoClasses_shows, rfl, _, rfl, rfl, fun h => ?_⟩
  obtain ⟨info, hinfo, hclass, -⟩ := h
  cases hinfo
  exact absurd hclass (by decide)

/-- A native `void g(int)` of `java.lang.Class`. -/
def classG : Declared where
  method := ⟨⟨javaLangClass, by decide, by decide⟩, ⟨"g".toList, by decide, by decide⟩,
    [⟨0, .prim .int⟩], none⟩
  mods := ["public".toList, "native".toList]
  plain := by decide
  tail := []

/-- The two classes, where `java.lang.Class` declares the native. -/
def classDeclaresG : ClassTable where
  IsClass := twoClassTable.IsClass
  declared X := if X = javaLangClass then [classG] else []
  className X d hd := by
    split at hd
    next hX => rw [List.mem_singleton.mp hd, hX]; rfl
    next => exact absurd hd List.not_mem_nil
  isClass_class := .inr rfl

/-- The machine with these classes. -/
def classGVm : Vm :=
  { twoClassVm with
    refl := { twoClasses with declaredMethods := fun c => if c = 1 then [] else [classG.pair] } }

theorem classGVm_shows : classDeclaresG.Shows twoClassName classGVm.refl where
  getObjectClass := twoClasses_shows.getObjectClass
  toString := twoClasses_shows.toString
  forName := twoClasses_shows.forName
  declaredMethods c X h := by
    rw [← Option.some_inj.mp h]
    by_cases hc : c = 1
    · subst hc
      rfl
    · show (if c = 1 then [] else [classG.pair]) = _
      rw [if_neg hc, if_neg hc]
      rfl

/-- A call with the reference 2 in every register. -/
def classArgs : HookArgs := { numbered with x := fun _ => 2 }

/-- The native of `java.lang.Class` keeps its class and parameters when it is
called, and its info is found there. -/
theorem stored_native_of_class : ∃ p p',
    step installed ((Process.start []).attached installed 7 ⟨0, 100, 0⟩)
      (.env classGVm 7 215 classArgs [⟨"g".toList, "(I)V".toList, 0x500⟩] ⟨0, 100, 0⟩) = .ok p ∧
    run (step installed) p [.native classGVm 7 (.reg 0) classArgs] = .ok p' ∧
    p'.regs[0]?.map (·.available) = some true ∧ Stored 0 javaLangClass [['I']] p' := by
  obtain ⟨p, hstep, hr⟩ : ∃ p, step installed
        ((Process.start []).attached installed 7 ⟨0, 100, 0⟩)
        (.env classGVm 7 215 classArgs [⟨"g".toList, "(I)V".toList, 0x500⟩] ⟨0, 100, 0⟩) = .ok p ∧
      p.registrations.getLast? = some ⟨2, [⟨"g".toList, "(I)V".toList, 0x500⟩],
        [⟨"g".toList, "(I)V".toList, .shellcode (.reg 0)⟩]⟩ := ⟨_, rfl, rfl⟩
  obtain ⟨p', hrun, havailable⟩ : ∃ p', run (step installed) p
      [.native classGVm 7 (.reg 0) classArgs] = .ok p' ∧
        p'.regs[0]?.map (·.available) = some true := by
    cases hstep
    exact ⟨_, rfl, rfl⟩
  have hshows : ∀ e ∈ [Event.native classGVm 7 (.reg 0) classArgs],
      e.Shows classDeclaresG := by
    intro e he vm hvm
    rw [List.mem_singleton.mp he] at hvm
    cases hvm
    exact ⟨_, classGVm_shows⟩
  have hagrees : classDeclaresG.Agrees "g".toList [['I']] := by
    intro d hd
    cases hd
    rfl
  have hall := (stored_iff hstep classGVm_shows (X := javaLangClass) rfl hr
    (List.mem_singleton_self _) rfl rfl hshows hrun).mpr ⟨rfl, fun _ _ _ => hagrees⟩
  exact ⟨p, p', hstep, hrun, havailable, hall _ (List.prefix_refl _) p' hrun⟩

end HookJni
