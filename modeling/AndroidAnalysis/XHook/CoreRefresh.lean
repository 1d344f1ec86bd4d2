import AndroidAnalysis.XHook.ElfHooked
import AndroidAnalysis.XHook.HookChains

/-!
# What a refresh does

A refresh reads the mappings line by line and hooks libraries as it meets them.
`refreshLoop_eq` takes it apart: the libraries that it meets are those that the lines
name, by the first line of each path, whatever was known before, and the ones that are
not known at their address are hooked one after the other.

`hookNew_led` is what this does to slots that held the functions of their symbols.
-/

namespace XHook

open Machine Interposition

variable {Re : Type} {regexec : Re → List Char → Bool}

/-! ## What is read of a library -/

/-- The slots that a library that is mapped is gone through for -/
def MapInfo.hookedSlots (m : Mem) (mi : MapInfo) (symbol : CStr) : List (BitVec 64) :=
  match elfInit m mi.baseAddr (some mi.pathname) with
  | .error _ => []
  | .ok elf =>
      match elfFindSymidxByName m elf symbol with
      | some (.ok symidx) => elf.hookedSlots m symidx
      | _ => []

/-- All slots of a symbol in a library that is mapped -/
def MapInfo.slots (m : Mem) (mi : MapInfo) (symbol : CStr) : List (BitVec 64) :=
  match elfInit m mi.baseAddr (some mi.pathname) with
  | .error _ => []
  | .ok elf =>
      match elfFindSymidxByName m elf symbol with
      | some (.ok symidx) => elf.slots m symidx
      | _ => []

/-- The symbol has one `JUMP_SLOT` at most, if the library has it. -/
def MapInfo.OneJumpSlot (m : Mem) (mi : MapInfo) (symbol : CStr) : Prop :=
  ∀ elf symidx, elfInit m mi.baseAddr (some mi.pathname) = .ok elf →
    elfFindSymidxByName m elf symbol = some (.ok symidx) → elf.OneJumpSlot m symidx

section
variable {m : Mem} {mi : MapInfo} {symbol : CStr} {elf : Elf} {symidx : BitVec 32}

theorem MapInfo.oneJumpSlot_of_init (hinit : elfInit m mi.baseAddr (some mi.pathname) = .ok elf)
    (hfind : elfFindSymidxByName m elf symbol = some (.ok symidx))
    (h : elf.OneJumpSlot m symidx) : mi.OneJumpSlot m symbol := by
  intro elf' symidx' hinit' hfind'
  cases hinit.symm.trans hinit'
  cases hfind.symm.trans hfind'
  exact h

theorem MapInfo.OneJumpSlot.slots_eq (h : mi.OneJumpSlot m symbol) :
    mi.slots m symbol = mi.hookedSlots m symbol := by
  rw [MapInfo.slots, MapInfo.hookedSlots]
  cases hinit : elfInit m mi.baseAddr (some mi.pathname) with
  | error e => rfl
  | ok elf =>
      cases hfind : elfFindSymidxByName m elf symbol with
      | none => simp only [hfind]
      | some r =>
          cases r with
          | error e => simp only [hfind]
          | ok symidx =>
              simp only [hfind]
              exact (h elf symidx hinit hfind).slots_eq

end

/-- This part of memory has all that is read of a library to hook symbols in it: what
says where its tables are, what decides the lookups, and the relocations. -/
structure MapInfo.ReadIn (q : Nat → Prop) (hooks : List (HookInfo Re)) (m : Mem) (mi : MapInfo) :
    Prop where
  image : ImageIn q m mi.baseAddr (some mi.pathname)
  find : ∀ elf, elfInit m mi.baseAddr (some mi.pathname) = .ok elf → ∀ h ∈ hooks, ∀ m',
    Mem.AgreeOn q m m' →
      elfFindSymidxByName m' elf h.symbol = elfFindSymidxByName m elf h.symbol
  tables : ∀ elf, elfInit m mi.baseAddr (some mi.pathname) = .ok elf → ∀ b, elf.InTables b → q b

section
variable {q : Nat → Prop} {core : Core Re} {hooks : List (HookInfo Re)} {h : HookInfo Re}
  {m₀ m m' : Mem} {mi : MapInfo} {os : Os} {elf : Elf}

theorem MapInfo.ReadIn.hookedSlots_agreeOn (hread : mi.ReadIn q hooks m₀) (hm : Mem.AgreeOn q m₀ m)
    (hh : h ∈ hooks) : mi.hookedSlots m h.symbol = mi.hookedSlots m₀ h.symbol := by
  rw [MapInfo.hookedSlots, MapInfo.hookedSlots, elfInit_agreeOn hm hread.image]
  cases hinit : elfInit m₀ mi.baseAddr (some mi.pathname) with
  | error e => rfl
  | ok elf =>
      simp only [hread.find elf hinit h hh m hm]
      cases hfind : elfFindSymidxByName m₀ elf h.symbol with
      | none => rfl
      | some r =>
          cases r with
          | error e => rfl
          | ok symidx => exact Elf.hookedSlots_agreeOn hm (hread.tables elf hinit)

/-- The hooks and the slots do not touch what is read of libraries. -/
structure Spared (q : Nat → Prop) (hooks : List (HookInfo Re)) (m : Mem) (mi : MapInfo) : Prop where
  read : mi.ReadIn q hooks m
  slots : ∀ h ∈ hooks, ∀ s ∈ mi.hookedSlots m h.symbol, WordMisses q s
  records : ∀ h ∈ hooks, ∀ o, h.oldFunc = some o → WordMisses q o

/-- A hook replaces slots of its symbol, as far as it gets. -/
theorem elfHook_slots (hspared : Spared q hooks m₀ mi) (hm : Mem.AgreeOn q m₀ m) (hh : h ∈ hooks)
    (hinit : elfInit m₀ mi.baseAddr (some mi.pathname) = .ok elf) {r : Option Errno}
    (hhook : elfHook os elf h.newFunc h.oldFunc (some h.symbol) m = some (r, m')) :
    ∃ slots, (∀ s ∈ slots, s ∈ mi.hookedSlots m₀ h.symbol) ∧
      m' = replaceAll h.newFunc h.oldFunc slots m := by
  rcases elfHook_cases hhook with rfl | ⟨symidx, hfind, htables⟩
  · exact ⟨[], fun s hs => absurd hs List.not_mem_nil, rfl⟩
  · rw [hspared.read.find elf hinit h hh m hm] at hfind
    have hslots : mi.hookedSlots m₀ h.symbol = elf.hookedSlots m₀ symidx := by
      rw [MapInfo.hookedSlots, hinit]
      simp only [hfind]
    have hdoes : Does q m₀ (Granted os elf) h.newFunc h.oldFunc _ _ :=
      does_tables (hspared.read.tables elf hinit) (hslots ▸ hspared.slots h hh)
        (hspared.records h hh)
    obtain ⟨k, hmem, -, -⟩ := hdoes m hm
    rw [htables] at hmem
    refine ⟨(elf.hookedSlots m₀ symidx).take k, fun s hs => ?_, hmem⟩
    rw [hslots]
    exact List.mem_of_mem_take hs

/-- Hooking a library is a round of the hooks on its slots, in the order of their
registration. -/
theorem hookLoop_round (hspared : Spared q core.hookInfo m₀ mi)
    (hinit : elfInit m₀ mi.baseAddr (some mi.pathname) = .ok elf) {his : List (HookInfo Re)}
    (hin : ∀ h ∈ his, h ∈ core.hookInfo) (hm : Mem.AgreeOn q m₀ m)
    (hhook : core.hookLoop regexec os mi.pathname elf his m = some m') :
    ∃ ops, m' = hookOps ops m ∧ (ops.map Prod.fst).Sublist his ∧
      ∀ op ∈ ops, ∀ s ∈ op.2, s ∈ mi.hookedSlots m₀ op.1.symbol := by
  have hnone : ∀ {m : Mem} {his : List (HookInfo Re)}, ∃ ops, m = hookOps ops m ∧
      (ops.map Prod.fst).Sublist his ∧ ∀ op ∈ ops, ∀ s ∈ op.2, s ∈ mi.hookedSlots m₀ op.1.symbol :=
    ⟨[], rfl, List.nil_sublist _, fun op hop => absurd hop List.not_mem_nil⟩
  induction his generalizing m with
  | nil =>
      cases hhook
      exact hnone
  | cons h his ih =>
      have hin' : ∀ h ∈ his, h ∈ core.hookInfo := fun h' hh' => hin h' (List.mem_cons_of_mem _ hh')
      have hskip : core.hookLoop regexec os mi.pathname elf his m = some m' →
          ∃ ops, m' = hookOps ops m ∧ (ops.map Prod.fst).Sublist (h :: his) ∧
            ∀ op ∈ ops, ∀ s ∈ op.2, s ∈ mi.hookedSlots m₀ op.1.symbol := by
        intro hrest
        obtain ⟨ops, hops, hsub, hslots⟩ := ih hin' hm hrest
        exact ⟨ops, hops, hsub.cons _, hslots⟩
      rw [Core.hookLoop] at hhook
      split at hhook
      next =>
        split at hhook
        next =>
          cases hhook
          exact hnone
        next => exact hskip hhook
        next =>
          split at hhook
          next => cases hhook
          next r m₁ hdone =>
            have hh := hin h List.mem_cons_self
            obtain ⟨slots, hslots, rfl⟩ := elfHook_slots hspared hm hh hinit hdone
            have hkeep : Mem.AgreeOn q m (replaceAll h.newFunc h.oldFunc slots m) :=
              replaceAll_agreeOn (fun s hs => hspared.slots h hh s (hslots s hs))
                (hspared.records h hh) m
            obtain ⟨ops, hops, hsub, hops'⟩ := ih hin' (hm.trans hkeep) hhook
            refine ⟨(h, slots) :: ops, hops, hsub.cons_cons _, fun op hop => ?_⟩
            rcases List.mem_cons.mp hop with rfl | hop
            · exact hslots
            · exact hops' op hop
      next => exact hskip hhook

theorem hook_round (hspared : Spared q core.hookInfo m₀ mi) (hm : Mem.AgreeOn q m₀ m)
    (hhook : core.hook regexec os mi m = some m') :
    ∃ ops, m' = hookOps ops m ∧ (ops.map Prod.fst).Sublist core.hookInfo ∧
      ∀ op ∈ ops, ∀ s ∈ op.2, s ∈ mi.hookedSlots m₀ op.1.symbol := by
  rw [Core.hook, elfInit_agreeOn hm hspared.read.image] at hhook
  cases hinit : elfInit m₀ mi.baseAddr (some mi.pathname) with
  | error e =>
      rw [hinit] at hhook
      cases hhook
      exact ⟨[], rfl, List.nil_sublist _, fun op hop => absurd hop List.not_mem_nil⟩
  | ok elf =>
      rw [hinit] at hhook
      exact hookLoop_round hspared hinit (fun _ hh => hh) hm hhook

theorem hook_agreeOn (hspared : Spared q core.hookInfo m₀ mi) (hm : Mem.AgreeOn q m₀ m)
    (hhook : core.hook regexec os mi m = some m') : Mem.AgreeOn q m₀ m' := by
  obtain ⟨ops, rfl, hsub, hslots⟩ := hook_round hspared hm hhook
  have hmem : ∀ op ∈ ops, op.1 ∈ core.hookInfo := fun op hop =>
    hsub.subset (List.mem_map_of_mem hop)
  exact hm.trans (hookOps_agreeOn
    (fun op hop s hs => hspared.slots op.1 (hmem op hop) s (hslots op hop s hs))
    (fun op hop => hspared.records op.1 (hmem op hop)) m)

end

/-! ## The libraries of a refresh -/

/-- Those whose path is not there yet, and of those with one path the first -/
def firsts : (seen : List MapInfo) → List MapInfo → List MapInfo
  | _, [] => []
  | seen, mi :: mis =>
      if Core.hasPath mi.pathname seen then firsts seen mis else mi :: firsts (seen ++ [mi]) mis

namespace Core

/-- The libraries that the lines of `/proc/self/maps` name, where they are looked at -/
def found (regexec : Re → List Char → Bool) (core : Core Re) (m : Mem) (lines : List MapsLine) :
    List MapInfo :=
  (lines.filter fun line => core.checkLine regexec line &&
    (elfCheckElfheader m line.start).isNone).map fun line => ⟨line.pathname, line.start⟩

/-- Whether a library was known at its address -/
def knows (core : Core Re) (mi : MapInfo) : Bool :=
  core.mapInfo.find? (fun k => k.pathname == mi.pathname) == some mi

/-- The libraries are hooked one after the other. -/
def hookNew (regexec : Re → List Char → Bool) (core : Core Re) (os : Os) :
    List MapInfo → Mem → Option Mem
  | [], m => some m
  | mi :: mis, m => (core.hook regexec os mi m).bind (core.hookNew regexec os mis)

end Core

section
variable {q : Nat → Prop} {core : Core Re} {m₀ m m' : Mem} {os : Os} {seen mis : List MapInfo}

theorem hasPath_append (pathname : List Char) (xs ys : List MapInfo) :
    Core.hasPath pathname (xs ++ ys) = (Core.hasPath pathname xs || Core.hasPath pathname ys) :=
  List.any_append

theorem hasPath_eq_true {pathname : List Char} :
    Core.hasPath pathname mis = true ↔ ∃ mi ∈ mis, mi.pathname = pathname := by
  rw [Core.hasPath, List.any_eq_true]
  exact exists_congr fun mi => and_congr_right fun _ => beq_iff_eq

/-- A path that is not there once a library was added. -/
theorem ne_of_hasPath_append {pathname : List Char} {k : MapInfo}
    (h : Core.hasPath pathname (seen ++ [k]) = false) :
    Core.hasPath pathname seen = false ∧ pathname ≠ k.pathname := by
  rw [hasPath_append, Bool.or_eq_false_iff] at h
  refine ⟨h.1, fun heq => ?_⟩
  have hself : Core.hasPath pathname [k] = true :=
    hasPath_eq_true.mpr ⟨k, List.mem_cons_self, heq.symm⟩
  exact Bool.noConfusion (h.2.symm.trans hself)

/-- A path that was seen is left out. -/
theorem not_hasPath_firsts {mi : MapInfo} (h : mi ∈ firsts seen mis) :
    Core.hasPath mi.pathname seen = false := by
  induction mis generalizing seen with
  | nil => exact absurd h List.not_mem_nil
  | cons k mis ih =>
      rw [firsts] at h
      split at h
      next => exact ih h
      next hnew =>
        rcases List.mem_cons.mp h with rfl | h
        · exact Bool.not_eq_true _ ▸ hnew
        · exact (ne_of_hasPath_append (ih h)).1

/-- There is one library of a path. -/
theorem pairwise_firsts (seen mis : List MapInfo) :
    (firsts seen mis).Pairwise fun a b => a.pathname ≠ b.pathname := by
  induction mis generalizing seen with
  | nil => exact .nil
  | cons k mis ih =>
      rw [firsts]
      split
      next => exact ih seen
      next =>
        refine List.pairwise_cons.mpr ⟨fun mi hmi heq => ?_, ih _⟩
        exact (ne_of_hasPath_append (not_hasPath_firsts hmi)).2 heq.symm

/-! ## A refresh in two steps -/

/-- A path that is taken out does not matter for the others. -/
theorem find?_eraseP_path {pathname pathname' : List Char} (hne : pathname' ≠ pathname)
    (ks : List MapInfo) :
    (ks.eraseP fun k => k.pathname == pathname).find? (fun k => k.pathname == pathname') =
      ks.find? fun k => k.pathname == pathname' := by
  induction ks with
  | nil => rfl
  | cons k ks ih =>
      by_cases hk : (k.pathname == pathname) = true
      · have hother : (k.pathname == pathname') = false := by
          refine beq_false_of_ne fun heq => hne ?_
          rw [← heq, beq_iff_eq.mp hk]
        rw [List.eraseP_cons_of_pos (p := fun k : MapInfo => k.pathname == pathname) hk,
          List.find?_cons, hother]
      · rw [List.eraseP_cons_of_neg (p := fun k : MapInfo => k.pathname == pathname) hk,
          List.find?_cons, List.find?_cons, ih]

/-- A library is met for the first time. -/
theorem meet_new {known refreshed : List MapInfo} {m : Mem} {mi : MapInfo}
    (hnew : Core.hasPath mi.pathname refreshed = false) (hooked : Bool) :
    core.meet regexec os ⟨known, refreshed, m⟩ mi hooked =
      (if hooked then some m else core.hook regexec os mi m).map fun m =>
        ⟨known, refreshed ++ [mi], m⟩ := by
  rw [Core.meet, if_neg (hnew ▸ Bool.false_ne_true)]
  cases hooked with
  | true => rfl
  | false =>
      simp only [Bool.false_eq_true, if_false]
      cases core.hook regexec os mi m with
      | none => rfl
      | some m => rfl

/-- It was met before. -/
theorem meet_old {known refreshed : List MapInfo} {m : Mem} {mi : MapInfo}
    (hold : Core.hasPath mi.pathname refreshed = true) (hooked : Bool) :
    core.meet regexec os ⟨known, refreshed, m⟩ mi hooked = some ⟨known, refreshed, m⟩ := by
  rw [Core.meet, if_pos hold]

/-- A line that names a library takes it from those that were known. -/
theorem refreshLine_found {st : Core.Refreshing} {line : MapsLine}
    (hcheck : core.checkLine regexec line = true)
    (helf : elfCheckElfheader st.mem line.start = none) :
    core.refreshLine regexec os st line = core.meet regexec os
      { st with known := st.known.eraseP fun k => k.pathname == line.pathname }
      ⟨line.pathname, line.start⟩
      (st.known.find? (fun k => k.pathname == line.pathname) ==
        some ⟨line.pathname, line.start⟩) := by
  rw [Core.refreshLine, hcheck, if_neg (by simp), if_neg (not_not.mpr helf)]
  cases hfind : st.known.find? fun k => k.pathname == line.pathname with
  | none =>
      have hnone : st.known.eraseP (fun k => k.pathname == line.pathname) = st.known :=
        List.eraseP_of_forall_not (List.find?_eq_none.mp hfind)
      rw [hnone]
      rfl
  | some k =>
      have hpath : k.pathname = line.pathname :=
        beq_iff_eq.mp (List.find?_some (p := fun k : MapInfo => k.pathname == line.pathname) hfind)
      have hbase : (k.baseAddr == line.start) =
          (some k == some (⟨line.pathname, line.start⟩ : MapInfo)) := by
        rw [Bool.eq_iff_iff, beq_iff_eq, beq_iff_eq, Option.some.injEq, MapInfo.mk.injEq]
        exact (and_iff_right hpath).symm
      simp only [hbase]

theorem refreshLine_other {st : Core.Refreshing} {line : MapsLine}
    (h : core.checkLine regexec line = false ∨ elfCheckElfheader st.mem line.start ≠ none) :
    core.refreshLine regexec os st line = some st := by
  rw [Core.refreshLine]
  split
  next => rfl
  next hcheck =>
    rw [if_pos (h.resolve_left fun hno => hcheck (by rw [hno]; rfl))]

/-- A line that names no library is passed over, also where other slots were written. -/
theorem refreshLine_dead {st : Core.Refreshing} {line : MapsLine} (hm : Mem.AgreeOn q m₀ st.mem)
    (hheader : core.checkLine regexec line = true → SpanIn q line.start.toNat 64)
    (hdead : ¬ (core.checkLine regexec line = true ∧ elfCheckElfheader m₀ line.start = none)) :
    core.refreshLine regexec os st line = some st := by
  refine refreshLine_other ?_
  by_cases hcheck : core.checkLine regexec line = true
  · rw [elfCheckElfheader_agreeOn hm (hheader hcheck)]
    exact .inr fun helf => hdead ⟨hcheck, helf⟩
  · exact .inl (Bool.eq_false_iff.mpr hcheck)

theorem found_cons (line : MapsLine) (lines : List MapsLine) :
    core.found regexec m₀ (line :: lines) =
      if core.checkLine regexec line = true ∧ elfCheckElfheader m₀ line.start = none then
        ⟨line.pathname, line.start⟩ :: core.found regexec m₀ lines
      else core.found regexec m₀ lines := by
  simp only [Core.found, List.filter_cons, Bool.and_eq_true, Option.isNone_iff_eq_none]
  split
  next => rfl
  next => rfl

/-- The loop over the lines is to find the libraries first, and then to hook the ones that
are not known. -/
theorem refreshLoop_eq {lines : List MapsLine} {st : Core.Refreshing}
    (hm : Mem.AgreeOn q m₀ st.mem)
    (hheaders : ∀ line ∈ lines, core.checkLine regexec line = true → SpanIn q line.start.toNat 64)
    (hknown : ∀ pathname, Core.hasPath pathname st.refreshed = false →
      st.known.find? (fun k => k.pathname == pathname) =
        core.mapInfo.find? fun k => k.pathname == pathname)
    (hhook : ∀ mi ∈ firsts st.refreshed (core.found regexec m₀ lines), ∀ m m',
      Mem.AgreeOn q m₀ m → core.hook regexec os mi m = some m' → Mem.AgreeOn q m₀ m') :
    (core.refreshLoop regexec os st lines).map (fun st => (st.refreshed, st.mem)) =
      (core.hookNew regexec os ((firsts st.refreshed (core.found regexec m₀ lines)).filter
        fun mi => !core.knows mi) st.mem).map fun m =>
          (st.refreshed ++ firsts st.refreshed (core.found regexec m₀ lines), m) := by
  induction lines generalizing st with
  | nil =>
      show some (st.refreshed, st.mem) = some (st.refreshed ++ [], st.mem)
      rw [List.append_nil]
  | cons line lines ih =>
      have hheaders' := fun l hl => hheaders l (List.mem_cons_of_mem line hl)
      rw [Core.refreshLoop, found_cons] at *
      by_cases hlive : core.checkLine regexec line = true ∧ elfCheckElfheader m₀ line.start = none
      · rw [if_pos hlive] at hhook ⊢
        obtain ⟨hcheck, helf⟩ := hlive
        have helf' : elfCheckElfheader st.mem line.start = none := by
          rw [elfCheckElfheader_agreeOn hm (hheaders line List.mem_cons_self hcheck), helf]
        rw [refreshLine_found hcheck helf']
        obtain ⟨mi, hmi⟩ : ∃ mi : MapInfo, mi = ⟨line.pathname, line.start⟩ := ⟨_, rfl⟩
        have hname : mi.pathname = line.pathname := by rw [hmi]
        rw [← hmi] at hhook ⊢
        have hrest : ∀ seen : List MapInfo, (∀ pathname, Core.hasPath pathname seen = false →
            Core.hasPath pathname st.refreshed = false ∧ pathname ≠ line.pathname) →
            ∀ pathname, Core.hasPath pathname seen = false →
              (st.known.eraseP fun k => k.pathname == line.pathname).find?
                (fun k => k.pathname == pathname) =
                core.mapInfo.find? fun k => k.pathname == pathname := by
          intro seen hseen pathname hpath
          obtain ⟨hnot, hne⟩ := hseen pathname hpath
          rw [find?_eraseP_path hne, hknown pathname hnot]
        by_cases hold : Core.hasPath mi.pathname st.refreshed = true
        · rw [firsts, if_pos hold] at hhook ⊢
          rw [meet_old hold]
          refine ih hm hheaders' (hrest _ fun pathname hpath => ⟨hpath, fun heq => ?_⟩) hhook
          rw [heq, ← hname, hold] at hpath
          cases hpath
        · have hnew : Core.hasPath mi.pathname st.refreshed = false := Bool.eq_false_iff.mpr hold
          have hknows : (st.known.find? (fun k => k.pathname == line.pathname) == some mi) =
              core.knows mi := by
            rw [← hname, hknown _ hnew]
            rfl
          have hseen : ∀ pathname, Core.hasPath pathname (st.refreshed ++ [mi]) = false →
              Core.hasPath pathname st.refreshed = false ∧ pathname ≠ line.pathname := by
            intro pathname hpath
            exact hname ▸ ne_of_hasPath_append hpath
          rw [firsts, if_neg hold] at hhook ⊢
          have hhook' := fun mi hmi => hhook mi (List.mem_cons_of_mem _ hmi)
          rw [meet_new hnew, hknows, List.filter_cons,
            List.append_cons st.refreshed mi (firsts _ _)]
          cases hk : core.knows mi with
          | true => exact @ih ⟨_, st.refreshed ++ [mi], st.mem⟩ hm hheaders' (hrest _ hseen) hhook'
          | false =>
              show _ = Option.map _ ((core.hook regexec os mi st.mem).bind _)
              cases hdone : core.hook regexec os mi st.mem with
              | none => rfl
              | some m =>
                  have hm' := hhook mi List.mem_cons_self st.mem m hm hdone
                  exact @ih ⟨_, st.refreshed ++ [mi], m⟩ hm' hheaders' (hrest _ hseen) hhook'
      · rw [if_neg hlive] at hhook ⊢
        rw [refreshLine_dead hm (hheaders line List.mem_cons_self) hlive]
        exact ih hm hheaders' hknown hhook

end

/-- The libraries that a refresh knows afterwards -/
def Core.met (regexec : Re → List Char → Bool) (core : Core Re) (m : Mem) (lines : List MapsLine) :
    List MapInfo := firsts [] (core.found regexec m lines)

/-- The slots that hooks may replace in these libraries -/
def Core.IsSlot (core : Core Re) (mis : List MapInfo) (s : BitVec 64) : Prop :=
  ∃ mi ∈ mis, ∃ h ∈ core.hookInfo, s ∈ mi.hookedSlots core.mem h.symbol

/-- What a refresh needs of the libraries that it meets: the words that it writes are
apart, and none of them is in what it reads. -/
structure Core.Ready (regexec : Re → List Char → Bool) (core : Core Re) (q : Nat → Prop)
    (lines : List MapsLine) : Prop where
  headers : ∀ line ∈ lines, core.checkLine regexec line = true → SpanIn q line.start.toNat 64
  reads : ∀ mi ∈ core.met regexec core.mem lines, mi.ReadIn q core.hookInfo core.mem
  words : WordsOk core.hookInfo (core.IsSlot (core.met regexec core.mem lines))
  slots : ∀ s, core.IsSlot (core.met regexec core.mem lines) s → WordMisses q s
  records : ∀ h ∈ core.hookInfo, ∀ o, h.oldFunc = some o → WordMisses q o
  apart : ∀ mi ∈ core.met regexec core.mem lines, ∀ mi' ∈ core.met regexec core.mem lines,
    mi ≠ mi' → ∀ h ∈ core.hookInfo, ∀ h' ∈ core.hookInfo, ∀ s ∈ mi.hookedSlots core.mem h.symbol,
      s ∉ mi'.hookedSlots core.mem h'.symbol

section
variable {q : Nat → Prop} {core : Core Re} {lines : List MapsLine} {os : Os}

theorem Core.Ready.spared (h : core.Ready regexec q lines) {mi : MapInfo}
    (hmi : mi ∈ core.met regexec core.mem lines) : Spared q core.hookInfo core.mem mi where
  read := h.reads mi hmi
  slots := fun hi hhi s hs => h.slots s ⟨mi, hmi, hi, hhi, hs⟩
  records := h.records

/-- That the library was started changes nothing. -/
theorem Core.Ready.started (h : core.Ready regexec q lines) :
    Core.Ready regexec { core with inited := true } q lines :=
  ⟨h.headers, h.reads, h.words, h.slots, h.records, h.apart⟩

/-- A refresh finds the libraries first, and then hooks the ones that are not known. -/
theorem refreshImpl_eq (hmaps : os.maps = some lines) (h : core.Ready regexec q lines) :
    core.refreshImpl regexec os = (core.hookNew regexec os
      ((core.met regexec core.mem lines).filter fun mi => !core.knows mi) core.mem).map
        fun m => { core with mapInfo := core.met regexec core.mem lines, mem := m } := by
  have hhook : ∀ mi ∈ core.met regexec core.mem lines, ∀ m m', Mem.AgreeOn q core.mem m →
      core.hook regexec os mi m = some m' → Mem.AgreeOn q core.mem m' :=
    fun mi hmi m m' hm hdone => hook_agreeOn (h.spared hmi) hm hdone
  have hloop := @refreshLoop_eq Re regexec q core core.mem os lines ⟨core.mapInfo, [], core.mem⟩
    (.refl q core.mem) h.headers (fun _ _ => rfl) hhook
  rw [List.nil_append] at hloop
  rw [Core.refreshImpl, hmaps, Core.met]
  cases hnew : core.hookNew regexec os
      ((firsts [] (core.found regexec core.mem lines)).filter fun mi => !core.knows mi)
      core.mem with
  | none =>
      rw [hnew, Option.map_none, Option.map_eq_none_iff] at hloop
      simp only [hloop, Option.map_none]
  | some m =>
      rw [hnew, Option.map_some, Option.map_eq_some_iff] at hloop
      obtain ⟨st, hst, heq⟩ := hloop
      rw [Prod.mk.injEq] at heq
      simp only [hst, heq, Option.map_some]

/-- Operations on the slots of other libraries leave the slots of a library alone. -/
theorem read64_apart (h : core.Ready regexec q lines) {ops : List (HookInfo Re × List (BitVec 64))}
    {mi : MapInfo} (hops : ∀ op ∈ ops, op.1 ∈ core.hookInfo ∧
      ∃ k ∈ core.met regexec core.mem lines, mi ≠ k ∧
        ∀ s ∈ op.2, s ∈ k.hookedSlots core.mem op.1.symbol)
    (hmi : mi ∈ core.met regexec core.mem lines) {hi : HookInfo Re} (hhi : hi ∈ core.hookInfo)
    {s : BitVec 64} (hs : s ∈ mi.hookedSlots core.mem hi.symbol) (m : Mem) :
    read64 (hookOps ops m) s.toNat = read64 m s.toNat := by
  refine read64_hookOps h.words (fun op hop => (hops op hop).1) (fun op hop t ht => ?_)
    ⟨mi, hmi, hi, hhi, hs⟩ fun op hop hin => ?_
  · obtain ⟨hh, k, hk, -, hslots⟩ := hops op hop
    exact ⟨k, hk, op.1, hh, hslots t ht⟩
  · obtain ⟨hh, k, hk, hne, hslots⟩ := hops op hop
    exact h.apart mi hmi k hk hne hi hhi op.1 hh s hs (hslots s hin)

/-! ## Slots that held the functions of their symbols -/

variable {origin : CStr → BitVec 64} {done : BitVec 64 → Prop} {todo : List MapInfo} {m m' : Mem}

/-- Hooking libraries whose slots hold the functions of their symbols keeps the records,
and that every slot leads to its function. -/
theorem hookNew_led (h : core.Ready regexec q lines) (hnodup : todo.Nodup)
    (htodo : ∀ mi ∈ todo, mi ∈ core.met regexec core.mem lines)
    (hm : Mem.AgreeOn q core.mem m)
    (hfresh : ∀ mi ∈ todo, ∀ hi ∈ core.hookInfo, ∀ s ∈ mi.hookedSlots core.mem hi.symbol,
      read64 m s.toNat = origin hi.symbol ∧
        origin hi.symbol ∉ core.hookInfo.map HookInfo.newFunc)
    (hled : ∀ mi ∈ core.met regexec core.mem lines, mi ∉ todo → ∀ hi ∈ core.hookInfo,
      ∀ s ∈ mi.hookedSlots core.mem hi.symbol, Led (originOf core.hookInfo origin) done
        (origin hi.symbol) (ptrOf core.hookInfo (read64 m s.toNat)))
    (hrec : Recorded (posOf core.hookInfo) (originOf core.hookInfo origin) done
      (savedOf core.hookInfo m))
    (hnew : core.hookNew regexec os todo m = some m') :
    Mem.AgreeOn q core.mem m' ∧ ∃ done' : BitVec 64 → Prop,
      Recorded (posOf core.hookInfo) (originOf core.hookInfo origin) done'
        (savedOf core.hookInfo m') ∧
      ∀ mi ∈ core.met regexec core.mem lines, ∀ hi ∈ core.hookInfo,
        ∀ s ∈ mi.hookedSlots core.mem hi.symbol, Led (originOf core.hookInfo origin) done'
          (origin hi.symbol) (ptrOf core.hookInfo (read64 m' s.toNat)) := by
  induction todo generalizing m done with
  | nil =>
      cases hnew
      exact ⟨hm, done, hrec, fun mi hmi => hled mi hmi List.not_mem_nil⟩
  | cons mi todo ih =>
      obtain ⟨hnotin, hnodup⟩ := List.nodup_cons.mp hnodup
      have hmi := htodo mi List.mem_cons_self
      rw [Core.hookNew, Option.bind_eq_some_iff] at hnew
      obtain ⟨m₁, hhook, hnew⟩ := hnew
      have hm₁ := hook_agreeOn (h.spared hmi) hm hhook
      obtain ⟨ops, rfl, hsub, hops⟩ := hook_round (h.spared hmi) hm hhook
      have hmem : ∀ op ∈ ops, op.1 ∈ core.hookInfo := fun op hop =>
        hsub.subset (List.mem_map_of_mem hop)
      have hself := hfresh mi List.mem_cons_self
      -- the slots of the other libraries are not written
      have hother : ∀ mi' ∈ core.met regexec core.mem lines, mi' ≠ mi → ∀ hi ∈ core.hookInfo,
          ∀ s ∈ mi'.hookedSlots core.mem hi.symbol,
            read64 (hookOps ops m) s.toNat = read64 m s.toNat := by
        intro mi' hmi' hne hi hhi s hs
        exact read64_apart h (fun op hop => ⟨hmem op hop, mi, hmi, hne, hops op hop⟩) hmi' hhi hs m
      let L : BitVec 64 → Prop := fun s =>
        ∃ hi ∈ core.hookInfo, s ∈ mi.hookedSlots core.mem hi.symbol
      have hown : ∀ op ∈ ops, ∀ s ∈ op.2, L s ∧ read64 m s.toNat = origin op.1.symbol :=
        fun op hop s hs => ⟨⟨op.1, hmem op hop, hops op hop s hs⟩,
          (hself op.1 (hmem op hop) s (hops op hop s hs)).1⟩
      have hL : ∀ s, L s → core.IsSlot (core.met regexec core.mem lines) s ∧
          read64 m s.toNat ∉ core.hookInfo.map HookInfo.newFunc := by
        rintro s ⟨hi, hhi, hs⟩
        obtain ⟨heq, hcode⟩ := hself hi hhi s hs
        exact ⟨⟨mi, hmi, hi, hhi, hs⟩, heq ▸ hcode⟩
      obtain ⟨done₁, hsub₁, hrec₁, hled₁⟩ := hookOps_led h.words hsub hown hL hrec
      refine ih hnodup (fun k hk => htodo k (List.mem_cons_of_mem _ hk)) hm₁ ?_ ?_ hrec₁ hnew
      · intro k hk hi hhi s hs
        have hne : k ≠ mi := fun heq => hnotin (heq ▸ hk)
        rw [hother k (htodo k (List.mem_cons_of_mem _ hk)) hne hi hhi s hs]
        exact hfresh k (List.mem_cons_of_mem _ hk) hi hhi s hs
      · intro k hk hnot hi hhi s hs
        by_cases heq : k = mi
        · subst heq
          have hat := hled₁ s ⟨hi, hhi, hs⟩
          rwa [(hself hi hhi s hs).1] at hat
        · rw [hother k hk heq hi hhi s hs]
          refine (hled k hk (fun hin => ?_) hi hhi s hs).mono hsub₁
          exact (List.mem_cons.mp hin).elim heq hnot

end

/-! ## The library with one import -/

/-- Whether an expression without special characters matches -/
def contains (re : List Char) : List Char → Bool
  | [] => re.isEmpty
  | c :: pathname => re.isPrefixOf (c :: pathname) || contains re pathname

/-- Its function is hooked, and not refreshed yet. -/
def importCore : Core (List Char) where
  inited := false
  hookInfo := [⟨['l', 'i', 'b'], importName, 0x30000, some 0x20000⟩]
  ignoreInfo := []
  mapInfo := []
  mem := oneImport

/-- Where it is mapped -/
def importMap : MapInfo := ⟨['l', 'i', 'b', 'f'], 0x10000⟩

theorem importCore_met : importCore.met contains importCore.mem [importLine] = [importMap] := by
  decide +kernel

theorem importMap_slots : importMap.slots oneImport importName = [0x10280] := by
  decide +kernel

theorem spanIn_image {a n : Nat} (h : 0x10000 ≤ a ∧ a + n ≤ 0x10280) : SpanIn InImage a n :=
  fun b hlo hhi => ⟨by omega, by omega⟩

theorem oneImport_init :
    elfInit oneImport importMap.baseAddr (some importMap.pathname) = .ok oneImportElf := by
  decide +kernel

theorem importMap_oneJumpSlot : importMap.OneJumpSlot oneImport importName :=
  MapInfo.oneJumpSlot_of_init oneImport_init
    (importName_at.find (oneImport_liesIn.symbols _ (.refl _ _))) oneImport_oneJumpSlot

/-- The library is still the one with one import. -/
def ImportIn (m : Mem) : Prop :=
  elfInit m importMap.baseAddr (some importMap.pathname) = .ok oneImportElf ∧
    elfFindSymidxByName m oneImportElf importName = some (.ok 1) ∧
    oneImportElf.OneJumpSlot m 1 ∧ 0x10280 ∈ importMap.slots m importName

instance (m : Mem) : Decidable (ImportIn m) := inferInstanceAs (Decidable (_ ∧ _ ∧ _ ∧ _))

theorem importMap_hookedSlots : importMap.hookedSlots oneImport importName = [0x10280] := by
  rw [← importMap_oneJumpSlot.slots_eq, importMap_slots]

/-- What is known of it before its dynamic section is read -/
def importStart : Elf :=
  { Elf.zero with
    pathname := some ['l', 'i', 'b', 'f'], baseAddr := 0x10000, ehdr := 0x10000, phdr := 0x10040
    biasAddr := 0x10000, dyn := 0x10100, dynSz := 0x70 }

theorem oneImport_image :
    ImageIn InImage oneImport importMap.baseAddr (some importMap.pathname) := by
  have hstart : elfStart oneImport importMap.baseAddr (some importMap.pathname) =
      .ok importStart := by decide +kernel
  have hphdrs : ∀ p ∈ programHeaders oneImport importMap.baseAddr
      (importMap.baseAddr + read64 oneImport (importMap.baseAddr.toNat + 32)),
      0x10000 ≤ p ∧ p + 56 ≤ 0x10280 := by decide +kernel
  have hentries : ∀ d ∈ importStart.dynEntries oneImport,
      (d.tag = Dyn.hash ∨ d.tag = Dyn.gnuHash →
        0x10000 ≤ (importStart.biasAddr + d.val).toNat ∧
          (importStart.biasAddr + d.val).toNat + 16 ≤ 0x10280) ∧
      ¬ (d.tag = Dyn.androidRel ∨ d.tag = Dyn.androidRela) := by decide +kernel
  refine ⟨spanIn_image (by decide), fun p hp => spanIn_image (hphdrs p hp), ?_, ?_, ?_⟩
  · intro elf helf
    cases hstart.symm.trans helf
    exact spanIn_image (by decide)
  · intro elf helf d hd htag
    cases hstart.symm.trans helf
    exact spanIn_image ((hentries d hd).1 htag)
  · intro elf helf d hd htag
    cases hstart.symm.trans helf
    exact absurd htag (hentries d hd).2

/-- The library can be hooked. -/
theorem importCore_ready : importCore.Ready contains InImage [importLine] := by
  have hslot : ∀ s, importCore.IsSlot (importCore.met contains importCore.mem [importLine]) s →
      s = 0x10280 := by
    rintro s ⟨mi, hmi, h, hh, hs⟩
    rw [importCore_met] at hmi
    cases List.mem_singleton.mp hmi
    cases List.mem_singleton.mp hh
    exact List.mem_singleton.mp (importMap_hookedSlots ▸ hs)
  have hrecord : ∀ h ∈ importCore.hookInfo, ∀ o, h.oldFunc = some o → o = 0x20000 := by
    intro h hh o ho
    cases List.mem_singleton.mp hh
    exact (Option.some.inj ho).symm
  constructor
  · intro line hline _
    cases List.mem_singleton.mp hline
    exact spanIn_image (by decide)
  · intro mi hmi
    rw [importCore_met] at hmi
    cases List.mem_singleton.mp hmi
    refine ⟨oneImport_image, fun elf helf h hh m hm => ?_, fun elf helf => ?_⟩
    · cases oneImport_init.symm.trans helf
      cases List.mem_singleton.mp hh
      exact (importName_at.find (oneImport_liesIn.symbols m hm)).trans
        (importName_at.find (oneImport_liesIn.symbols _ (.refl _ _))).symm
    · cases oneImport_init.symm.trans helf
      exact oneImport_liesIn.tables
  · refine ⟨by decide, by decide, fun s t hs ht => .inl ((hslot s hs).trans (hslot t ht).symm),
      fun s hs h hh o ho => ?_, fun h hh h' hh' hne => ?_⟩
    · rw [hslot s hs, hrecord h hh o ho]
      exact .inl (by decide)
    · exact absurd (congrArg HookInfo.newFunc
        ((List.mem_singleton.mp hh).trans (List.mem_singleton.mp hh').symm)) hne
  · intro s hs b hb
    rw [hslot s hs]
    exact .inl hb.2
  · intro h hh o ho b hb
    rw [hrecord h hh o ho]
    exact .inl (Nat.lt_trans hb.2 (by decide))
  · intro mi hmi mi' hmi' hne
    rw [importCore_met] at hmi hmi'
    exact absurd ((List.mem_singleton.mp hmi).trans (List.mem_singleton.mp hmi').symm) hne

end XHook
