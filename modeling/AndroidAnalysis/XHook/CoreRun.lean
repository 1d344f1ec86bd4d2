import AndroidAnalysis.Machine.EventRun
import AndroidAnalysis.XHook.CoreRefresh

/-!
# Runs of the PLT hook

Hooks are registered, then the library is refreshed again and again, while the process
loads and unloads libraries in between.  A hook has one place where it saves what it
replaced, and that place is written anew by every library that it is put into.

`core_reaches` says that this is enough.  At any time of such a run, from every slot of a
symbol with at most one `JUMP_SLOT` in any library that is known, the saved functions lead
to the function of the symbol, as long as a library that is met anew holds that function in
its slots.  After `xh_core_clear` this means a library that was loaded again.
-/

namespace XHook

open Machine Interposition

variable {Re : Type}

/-- What happens: a call of the library, or the process running. -/
inductive CoreEvent where
  | register (pathnameRegexStr : Option (List Char)) (symbol : Option CStr) (newFunc : BitVec 64)
      (oldFunc : Option (BitVec 64))
  | ignore (pathnameRegexStr : Option (List Char)) (symbol : Option CStr)
  | refresh (os : Os)
  | clear
  | runs (m : Mem)

namespace Core

/-- What an event does.  A refresh that does not return ends the run. -/
def step (regcomp : List Char → Option Re) (regexec : Re → List Char → Bool) (core : Core Re) :
    CoreEvent → Except Unit (Core Re)
  | .register pathnameRegexStr symbol newFunc oldFunc =>
      .ok (core.register regcomp pathnameRegexStr symbol newFunc oldFunc).2
  | .ignore pathnameRegexStr symbol => .ok (core.ignore regcomp pathnameRegexStr symbol).2
  | .refresh os =>
      match core.refresh regexec os with
      | some core => .ok core
      | none => .error ()
  | .clear => .ok core.clear
  | .runs mem => .ok { core with mem }

/-- The slot holds the function of a symbol, and no hook stands for that function. -/
def Fresh (core : Core Re) (origin : CStr → BitVec 64) (m : Mem) (symbol : CStr)
    (s : BitVec 64) : Prop :=
  read64 m s.toNat = origin symbol ∧ origin symbol ∉ core.hookInfo.map HookInfo.newFunc

/-- A refresh needs apart words, and libraries that are new to hold the functions of the
symbols.  The process may load other libraries, and leaves the saved functions and the
slots of the known libraries alone. -/
def Guarded (regexec : Re → List Char → Bool) (origin : CStr → BitVec 64) (core : Core Re) :
    CoreEvent → Prop
  | .refresh os => ∀ lines, os.maps = some lines → ∃ q, core.Ready regexec q lines ∧
      ∀ mi ∈ core.met regexec core.mem lines, core.knows mi = false → ∀ hi ∈ core.hookInfo,
        ∀ s ∈ mi.hookedSlots core.mem hi.symbol, core.Fresh origin core.mem hi.symbol s
  | .runs m =>
      (∀ hi ∈ core.hookInfo, ∀ o, hi.oldFunc = some o →
        read64 m o.toNat = read64 core.mem o.toNat) ∧
      ∀ mi ∈ core.mapInfo, ∀ hi ∈ core.hookInfo, ∀ s ∈ mi.hookedSlots m hi.symbol,
        core.Fresh origin m hi.symbol s ∨
          s ∈ mi.hookedSlots core.mem hi.symbol ∧ read64 m s.toNat = read64 core.mem s.toNat
  | _ => True

/-- The slots of the known libraries lead to the functions of their symbols. -/
def AllLed (origin : CStr → BitVec 64) (core : Core Re) (mis : List MapInfo) : Prop :=
  ∃ done : BitVec 64 → Prop,
    Recorded (posOf core.hookInfo) (originOf core.hookInfo origin) done
      (savedOf core.hookInfo core.mem) ∧
    ∀ mi ∈ mis, ∀ hi ∈ core.hookInfo, ∀ s ∈ mi.hookedSlots core.mem hi.symbol,
      Led (originOf core.hookInfo origin) done (origin hi.symbol)
        (ptrOf core.hookInfo (read64 core.mem s.toNat))

/-- What a run keeps: before the first refresh no library is known, and the slots of the
known ones lead to their functions. -/
structure Keeps (origin : CStr → BitVec 64) (core : Core Re) : Prop where
  early : core.inited = false → core.mapInfo = []
  led : core.AllLed origin core.mapInfo

end Core

section
variable {regcomp : List Char → Option Re} {regexec : Re → List Char → Bool}
  {origin : CStr → BitVec 64} {core core' : Core Re} {os : Os} {mis : List MapInfo}

/-- Where no library is known, there is nothing to show. -/
theorem Core.AllLed.none (core : Core Re) : core.AllLed origin [] :=
  ⟨fun _ => False, fun _ hr => hr.elim, fun _ hmi => absurd hmi List.not_mem_nil⟩

/-! ## One event -/

/-- A hook is registered only before the first refresh. -/
theorem register_keeps (h : core.Keeps origin) (pathnameRegexStr : Option (List Char))
    (symbol : Option CStr) (newFunc : BitVec 64) (oldFunc : Option (BitVec 64)) :
    (core.register regcomp pathnameRegexStr symbol newFunc oldFunc).2.Keeps origin := by
  unfold Core.register
  split
  next =>
    split
    next => exact h
    next =>
      split
      next => exact h
      next hearly =>
        split
        next => exact h
        next =>
          have hnil := h.early (Bool.eq_false_iff.mpr hearly)
          refine ⟨fun _ => hnil, ?_⟩
          simp only [hnil]
          exact .none _
  next => exact h

theorem ignore_keeps (h : core.Keeps origin) (pathnameRegexStr : Option (List Char))
    (symbol : Option CStr) : (core.ignore regcomp pathnameRegexStr symbol).2.Keeps origin := by
  unfold Core.ignore
  split
  next =>
    split
    next => exact h
    next =>
      split
      next => exact h
      next => exact ⟨h.early, h.led⟩
  next => exact h

theorem clear_keeps : core.clear.Keeps origin := ⟨fun _ => rfl, .none _⟩

/-- The records stay while the process runs. -/
theorem savedOf_eq {hooks : List (HookInfo Re)} {m m' : Mem}
    (h : ∀ hi ∈ hooks, ∀ o, hi.oldFunc = some o → read64 m' o.toNat = read64 m o.toNat) :
    savedOf hooks m' = savedOf hooks m := by
  funext r
  rw [savedOf, savedOf]
  cases hfind : hooks.find? fun h => h.newFunc == r with
  | none => rfl
  | some hi =>
      cases ho : hi.oldFunc with
      | none => simp only [ho, Option.map_none]
      | some o => simp only [ho, Option.map_some, h hi (List.mem_of_find?_eq_some hfind) o ho]

theorem runs_keeps (h : core.Keeps origin) {m : Mem}
    (hguard : core.Guarded regexec origin (.runs m)) :
    ({ core with mem := m } : Core Re).Keeps origin := by
  obtain ⟨hrecords, hslots⟩ := hguard
  obtain ⟨done, hrec, hled⟩ := h.led
  refine ⟨h.early, done, ?_, fun mi hmi hi hhi s hs => ?_⟩
  · show Recorded _ _ done (savedOf core.hookInfo m)
    rw [savedOf_eq hrecords]
    exact hrec
  · rcases hslots mi hmi hi hhi s hs with ⟨heq, hcode⟩ | ⟨hold, heq⟩
    · show Led _ done (origin hi.symbol) (ptrOf core.hookInfo (read64 m s.toNat))
      rw [heq]
      exact .inl (if_neg hcode)
    · show Led _ done (origin hi.symbol) (ptrOf core.hookInfo (read64 m s.toNat))
      rw [heq]
      exact hled mi hmi hi hhi s hold

/-- A refresh knows the libraries that it met. -/
theorem refresh_keeps (h : core.Keeps origin) (hguard : core.Guarded regexec origin (.refresh os))
    (hrefresh : core.refresh regexec os = some core') : core'.Keeps origin := by
  rw [Core.refresh] at hrefresh
  cases hmaps : os.maps with
  | none =>
      rw [Core.refreshImpl, hmaps] at hrefresh
      cases hrefresh
      exact ⟨fun hno => Bool.noConfusion hno, h.led⟩
  | some lines =>
      obtain ⟨q, hready, hfresh⟩ := hguard lines hmaps
      obtain ⟨done, hrec, hled⟩ := h.led
      rw [refreshImpl_eq hmaps hready.started, Option.map_eq_some_iff] at hrefresh
      obtain ⟨m, hnew, rfl⟩ := hrefresh
      have hknown : ∀ mi, core.knows mi = true → mi ∈ core.mapInfo := fun mi hk =>
        List.mem_of_find?_eq_some (beq_iff_eq.mp hk)
      have hnodup : ((core.met regexec core.mem lines).filter fun mi => !core.knows mi).Nodup := by
        refine List.Nodup.filter _ ((pairwise_firsts _ _).imp fun hne heq => hne ?_)
        rw [heq]
      have hold : ∀ mi ∈ core.met regexec core.mem lines,
          mi ∉ (core.met regexec core.mem lines).filter (fun mi => !core.knows mi) →
            mi ∈ core.mapInfo := by
        intro mi hmi hnot
        refine hknown mi ?_
        by_contra hk
        exact hnot (List.mem_filter.mpr ⟨hmi, by simpa using hk⟩)
      obtain ⟨hm, done', hrec', hled'⟩ := hookNew_led hready.started hnodup
        (fun mi hmi => List.mem_of_mem_filter hmi) (Mem.AgreeOn.refl q core.mem)
        (fun mi hmi => hfresh mi (List.mem_of_mem_filter hmi)
          (by simpa using (List.mem_filter.mp hmi).2))
        (fun mi hmi hnot => hled mi (hold mi hmi hnot)) hrec hnew
      refine ⟨fun hno => Bool.noConfusion hno, done', hrec', fun mi hmi hi hhi s hs => ?_⟩
      have hs' : s ∈ mi.hookedSlots core.mem hi.symbol := by
        rw [← (hready.reads mi hmi).hookedSlots_agreeOn hm hhi]
        exact hs
      exact hled' mi hmi hi hhi s hs'

/-- Every event keeps that the slots lead to their functions. -/
theorem step_keeps {e : CoreEvent} (h : core.Keeps origin) (hguard : core.Guarded regexec origin e)
    (hstep : core.step regcomp regexec e = .ok core') : core'.Keeps origin := by
  cases e with
  | register pathnameRegexStr symbol newFunc oldFunc =>
      cases hstep
      exact register_keeps h pathnameRegexStr symbol newFunc oldFunc
  | ignore pathnameRegexStr symbol =>
      cases hstep
      exact ignore_keeps h pathnameRegexStr symbol
  | refresh os =>
      rw [Core.step] at hstep
      cases hdone : core.refresh regexec os with
      | none => rw [hdone] at hstep; cases hstep
      | some core₁ =>
          rw [hdone] at hstep
          cases hstep
          exact refresh_keeps h hguard hdone
  | clear =>
      cases hstep
      exact clear_keeps
  | runs m =>
      cases hstep
      exact runs_keeps h hguard

/-! ## Runs -/

/-- At any time of a run the slots of the known libraries lead to the functions of their
symbols. -/
theorem core_reaches {events : List CoreEvent} (hstart : core.mapInfo = [])
    (hguard : ∀ past e post, events = past ++ e :: post →
      ∀ t, run (Core.step regcomp regexec) core past = .ok t → t.Guarded regexec origin e)
    (h : run (Core.step regcomp regexec) core events = .ok core') :
    ∀ mi ∈ core'.mapInfo, ∀ hi ∈ core'.hookInfo, mi.OneJumpSlot core'.mem hi.symbol →
      ∀ s ∈ mi.slots core'.mem hi.symbol, Reaches (savedOf core'.hookInfo core'.mem)
        (ptrOf core'.hookInfo (read64 core'.mem s.toNat)) (origin hi.symbol) := by
  have hkeeps : core.Keeps origin := ⟨fun _ => hstart, by rw [hstart]; exact .none core⟩
  obtain ⟨done, hrec, hled⟩ := (run_invariant_guarded
    (fun t e t' ht hg hstep => step_keeps ht hg hstep) hkeeps hguard h).led
  intro mi hmi hi hhi hone s hs
  rw [hone.slots_eq] at hs
  exact (hled mi hmi hi hhi s hs).reaches hrec

end

/-- The function is registered, and the library refreshed. -/
def importEvents : List CoreEvent :=
  [.register (some ['l', 'i', 'b']) (some importName) 0x30000 (some 0x20000), .refresh importOs]

theorem core_reaches_import : ∃ core', run (Core.step some contains)
      { importCore with hookInfo := [] } importEvents = .ok core' ∧
    core'.mapInfo = [importMap] ∧
    Reaches (savedOf core'.hookInfo core'.mem)
      (ptrOf core'.hookInfo (read64 core'.mem (0x10280 : BitVec 64).toNat)) 0x7000 := by
  have hcheck : (match run (Core.step some contains) { importCore with hookInfo := [] }
      importEvents with
    | .ok c => decide (c.mapInfo = [importMap] ∧ (∃ h ∈ c.hookInfo, h.symbol = importName) ∧
        ImportIn c.mem)
    | .error _ => false) = true := by decide +kernel
  have hguard : ∀ past e post, importEvents = past ++ e :: post →
      ∀ t, run (Core.step some contains) { importCore with hookInfo := [] } past = .ok t →
        t.Guarded contains (fun _ => 0x7000) e := by
    intro past e post hsplit t ht
    rcases past with _ | ⟨e₁, _ | ⟨e₂, past⟩⟩
    · cases hsplit
      trivial
    · cases hsplit
      cases ht
      rintro lines ⟨⟩
      refine ⟨InImage, importCore_ready, fun mi hmi _ h hh s hs => ?_⟩
      cases List.mem_singleton.mp (importCore_met ▸ hmi)
      cases List.mem_singleton.mp hh
      cases List.mem_singleton.mp (importMap_hookedSlots ▸ hs)
      exact ⟨by decide +kernel, by decide⟩
    · have hlen := congrArg List.length hsplit
      rw [List.cons_append, List.cons_append, List.length_cons, List.length_cons,
        List.length_append, List.length_cons] at hlen
      have htwo : importEvents.length = 2 := rfl
      omega
  cases hrun : run (Core.step some contains) { importCore with hookInfo := [] } importEvents with
  | error e => rw [hrun] at hcheck; cases hcheck
  | ok core' =>
      rw [hrun] at hcheck
      obtain ⟨hmap, ⟨h, hh, hname⟩, hinit, hfind, hone, hslot⟩ := of_decide_eq_true hcheck
      exact ⟨core', rfl, hmap, core_reaches rfl hguard hrun importMap
        (hmap ▸ List.mem_cons_self) h hh
        (hname ▸ MapInfo.oneJumpSlot_of_init hinit hfind hone) 0x10280 (hname ▸ hslot)⟩

end XHook
