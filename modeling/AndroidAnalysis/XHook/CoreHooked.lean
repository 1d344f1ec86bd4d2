import AndroidAnalysis.XHook.CoreRefresh
import Mathlib.Data.List.Induction

/-!
# A refresh that is let do what it wants

Where the system lets every slot be written and every lookup ends, a refresh returns,
and what it leaves behind can be said outright: it knows the libraries that it met,
each slot of a new one holds the last hook that applies to it, and nothing else but the
records is written (`refresh_spec`).
-/

namespace XHook

open Machine

variable {Re : Type}

namespace Core

/-- The hooks that are put into a library: those that match its path, up to one for which
all symbols are ignored there -/
def applied (regexec : Re → List Char → Bool) (core : Core Re) (pathname : List Char) :
    List (HookInfo Re) → List (HookInfo Re)
  | [] => []
  | hi :: his =>
      if regexec hi.pathnameRegex pathname then
        match core.ignoredBy regexec pathname hi.symbol with
        | .all => []
        | .symbol => core.applied regexec pathname his
        | .no => hi :: core.applied regexec pathname his
      else core.applied regexec pathname his

/-- The hook that a slot of a library has in the end: the last one -/
def hookOf (regexec : Re → List Char → Bool) (core : Core Re) (mi : MapInfo) (s : BitVec 64) :
    Option (HookInfo Re) :=
  (core.applied regexec mi.pathname core.hookInfo).reverse.find? fun hi =>
    (mi.slots core.mem hi.symbol).contains s

/-- Nothing keeps the hooks from a library: its lookups end, and its slots may be
written. -/
structure Allows (core : Core Re) (os : Os) (mi : MapInfo) : Prop where
  ends : ∀ elf, elfInit core.mem mi.baseAddr (some mi.pathname) = .ok elf →
    ∀ hi ∈ core.hookInfo, elfFindSymidxByName core.mem elf hi.symbol ≠ none
  granted : ∀ elf, elfInit core.mem mi.baseAddr (some mi.pathname) = .ok elf →
    ∀ hi ∈ core.hookInfo, ∀ s ∈ mi.hookedSlots core.mem hi.symbol, Granted os elf s

end Core

section
variable {regexec : Re → List Char → Bool} {q : Nat → Prop} {core : Core Re} {os : Os}
  {mi : MapInfo} {h : HookInfo Re} {m : Mem} {elf : Elf} {lines : List MapsLine}

/-- All slots that a symbol is looked for in are hooked. -/
theorem elfHook_allowed (hspared : Spared q core.hookInfo core.mem mi) (hallows : core.Allows os mi)
    (hm : Mem.AgreeOn q core.mem m) (hh : h ∈ core.hookInfo) (hnew : h.newFunc ≠ 0)
    (hinit : elfInit core.mem mi.baseAddr (some mi.pathname) = .ok elf) :
    elfHook os elf h.newFunc h.oldFunc (some h.symbol) m =
      some (none, replaceAll h.newFunc h.oldFunc (mi.hookedSlots core.mem h.symbol) m) := by
  obtain ⟨pathname, hpath⟩ := Option.isSome_iff_exists.mp (elfInit_pathname hinit)
  have hfind := hspared.read.find elf hinit h hh m hm
  have hslots := hspared.slots h hh
  have hgranted := hallows.granted elf hinit h hh
  simp only [elfHook, hpath, if_neg hnew, hfind]
  cases hres : elfFindSymidxByName core.mem elf h.symbol with
  | none => exact absurd hres (hallows.ends elf hinit h hh)
  | some r =>
      rw [MapInfo.hookedSlots, hinit] at hslots hgranted ⊢
      cases r with
      | error e =>
          simp only [hres]
          rfl
      | ok symidx =>
          simp only [hres] at hslots hgranted ⊢
          have hdoes : Does q core.mem (Granted os elf) h.newFunc h.oldFunc _ _ :=
            does_tables (hspared.read.tables elf hinit) hslots (hspared.records h hh)
          obtain ⟨k, hmem, hlen, hok⟩ := hdoes m hm
          have hnone := hok hgranted
          rw [List.take_of_length_le (hlen hnone)] at hmem
          exact congrArg some (Prod.ext hnone hmem)

/-- What is done to a library: each hook that applies, on the slots of its symbol -/
def opsOf (core : Core Re) (mi : MapInfo) (his : List (HookInfo Re)) :
    List (HookInfo Re × List (BitVec 64)) :=
  his.map fun hi => (hi, mi.hookedSlots core.mem hi.symbol)

theorem hookLoop_allowed (hspared : Spared q core.hookInfo core.mem mi)
    (hallows : core.Allows os mi) (hnew : ∀ h ∈ core.hookInfo, h.newFunc ≠ 0)
    (hinit : elfInit core.mem mi.baseAddr (some mi.pathname) = .ok elf) {his : List (HookInfo Re)}
    (hin : ∀ h ∈ his, h ∈ core.hookInfo) (hm : Mem.AgreeOn q core.mem m) :
    core.hookLoop regexec os mi.pathname elf his m =
      some (hookOps (opsOf core mi (core.applied regexec mi.pathname his)) m) := by
  induction his generalizing m with
  | nil => rfl
  | cons h his ih =>
      have hh := hin h List.mem_cons_self
      have hin' : ∀ h ∈ his, h ∈ core.hookInfo := fun h' hh' => hin h' (List.mem_cons_of_mem _ hh')
      rw [Core.hookLoop, Core.applied]
      split
      next =>
        cases core.ignoredBy regexec mi.pathname h.symbol with
        | all => rfl
        | symbol => exact ih hin' hm
        | no =>
            simp only
            rw [elfHook_allowed hspared hallows hm hh (hnew h hh) hinit]
            exact ih hin'
              (hm.trans (replaceAll_agreeOn (hspared.slots h hh) (hspared.records h hh) m))
      next => exact ih hin' hm

theorem mem_applied {pathname : List Char} {his : List (HookInfo Re)}
    (hh : h ∈ core.applied regexec pathname his) : h ∈ his := by
  induction his with
  | nil => exact hh
  | cons hi his ih =>
      rw [Core.applied] at hh
      split at hh
      next =>
        cases hig : core.ignoredBy regexec pathname hi.symbol with
        | all => rw [hig] at hh; exact absurd hh List.not_mem_nil
        | symbol => rw [hig] at hh; exact List.mem_cons_of_mem _ (ih hh)
        | no =>
            rw [hig] at hh
            rcases List.mem_cons.mp hh with rfl | hh
            · exact List.mem_cons_self
            · exact List.mem_cons_of_mem _ (ih hh)
      next => exact List.mem_cons_of_mem _ (ih hh)

/-- That the library was started does not matter for which hooks apply. -/
theorem applied_started (core : Core Re) (pathname : List Char) (his : List (HookInfo Re)) :
    ({ core with inited := true } : Core Re).applied regexec pathname his =
      core.applied regexec pathname his := by
  induction his with
  | nil => rfl
  | cons hi his ih =>
      rw [Core.applied, Core.applied, ih]
      rfl

/-- Hooks that do not match a path are passed over. -/
theorem applied_append {pathname : List Char} {pre post : List (HookInfo Re)}
    (hpre : ∀ h ∈ pre, regexec h.pathnameRegex pathname = false) :
    core.applied regexec pathname (pre ++ post) = core.applied regexec pathname post := by
  induction pre with
  | nil => rfl
  | cons hi pre ih =>
      rw [List.cons_append, Core.applied, if_neg (hpre hi List.mem_cons_self ▸ Bool.false_ne_true)]
      exact ih fun h hh => hpre h (List.mem_cons_of_mem _ hh)

/-- The first hook that matches decides how to go on. -/
theorem applied_first {pathname : List Char} {pre post : List (HookInfo Re)} {hi : HookInfo Re}
    (hpre : ∀ h ∈ pre, regexec h.pathnameRegex pathname = false)
    (hmatch : regexec hi.pathnameRegex pathname = true) :
    core.applied regexec pathname (pre ++ hi :: post) =
      match core.ignoredBy regexec pathname hi.symbol with
      | .all => []
      | .symbol => core.applied regexec pathname post
      | .no => hi :: core.applied regexec pathname post := by
  rw [applied_append hpre, Core.applied, if_pos hmatch]

theorem checkPathname_first {pathname : List Char} {pre post : List (HookInfo Re)}
    {hi : HookInfo Re} (hsplit : core.hookInfo = pre ++ hi :: post)
    (hpre : ∀ h ∈ pre, regexec h.pathnameRegex pathname = false)
    (hmatch : regexec hi.pathnameRegex pathname = true) :
    core.checkPathname regexec pathname =
      (core.ignoredBy regexec pathname hi.symbol == .no) := by
  have hfind : core.hookInfo.find? (fun h => regexec h.pathnameRegex pathname) = some hi := by
    refine List.find?_eq_some_iff_append.mpr ⟨hmatch, pre, post, hsplit, fun h hh => ?_⟩
    rw [hpre h hh]
    rfl
  rw [Core.checkPathname, hfind]

/-- A library that hooks apply to is passed over by a refresh exactly when the first hook
that matches its path has its symbol ignored there, and a later one applies. -/
theorem refresh_overlooks_iff (core : Core Re) (pathname : List Char) :
    core.applied regexec pathname core.hookInfo ≠ [] ∧
        core.checkPathname regexec pathname = false ↔
      ∃ pre hi post, core.hookInfo = pre ++ hi :: post ∧
        (∀ h ∈ pre, regexec h.pathnameRegex pathname = false) ∧
        regexec hi.pathnameRegex pathname = true ∧
        core.ignoredBy regexec pathname hi.symbol = .symbol ∧
        core.applied regexec pathname post ≠ [] := by
  constructor
  · rintro ⟨hsome, hcheck⟩
    cases hfind : core.hookInfo.find? fun hi => regexec hi.pathnameRegex pathname with
    | none =>
        have hpass : core.applied regexec pathname (core.hookInfo ++ []) =
            core.applied regexec pathname [] := applied_append fun h hh =>
          Bool.eq_false_iff.mpr (List.find?_eq_none.mp hfind h hh)
        rw [List.append_nil] at hpass
        exact absurd hpass hsome
    | some hi =>
        obtain ⟨hmatch, pre, post, hsplit, hpass⟩ := List.find?_eq_some_iff_append.mp hfind
        have hpre : ∀ h ∈ pre, regexec h.pathnameRegex pathname = false := fun h hh =>
          (Bool.not_eq_true' _).mp (hpass h hh)
        rw [checkPathname_first hsplit hpre hmatch] at hcheck
        rw [hsplit, applied_first hpre hmatch] at hsome
        refine ⟨pre, hi, post, hsplit, hpre, hmatch, ?_⟩
        cases hig : core.ignoredBy regexec pathname hi.symbol with
        | all => rw [hig] at hsome; exact absurd rfl hsome
        | symbol => rw [hig] at hsome; exact ⟨rfl, hsome⟩
        | no => rw [hig] at hcheck; cases hcheck
  · rintro ⟨pre, hi, post, hsplit, hpre, hmatch, hig, hsome⟩
    rw [checkPathname_first hsplit hpre hmatch, hsplit, applied_first hpre hmatch, hig]
    exact ⟨hsome, rfl⟩

/-- A hook without slots does nothing. -/
theorem hookOps_nil {ops : List (HookInfo Re × List (BitVec 64))} (hops : ∀ op ∈ ops, op.2 = [])
    (m : Mem) : hookOps ops m = m := by
  induction ops generalizing m with
  | nil => rfl
  | cons op ops ih =>
      rw [hookOps, List.foldl_cons, hops op List.mem_cons_self]
      exact ih (fun op' hop' => hops op' (List.mem_cons_of_mem _ hop')) m

theorem hookOps_append (xs ys : List (HookInfo Re × List (BitVec 64))) (m : Mem) :
    hookOps (xs ++ ys) m = hookOps ys (hookOps xs m) := List.foldl_append ..

/-- What a refresh does to a library that is new -/
def newOps (regexec : Re → List Char → Bool) (core : Core Re) (mi : MapInfo) :
    List (HookInfo Re × List (BitVec 64)) :=
  opsOf core mi (core.applied regexec mi.pathname core.hookInfo)

theorem hook_allowed (hspared : Spared q core.hookInfo core.mem mi) (hallows : core.Allows os mi)
    (hnew : ∀ h ∈ core.hookInfo, h.newFunc ≠ 0) (hm : Mem.AgreeOn q core.mem m) :
    core.hook regexec os mi m = some (hookOps (newOps regexec core mi) m) := by
  rw [Core.hook, elfInit_agreeOn hm hspared.read.image]
  cases hinit : elfInit core.mem mi.baseAddr (some mi.pathname) with
  | error e =>
      have hnil : ∀ op ∈ newOps regexec core mi, op.2 = [] := by
        intro op hop
        obtain ⟨hi, -, rfl⟩ := List.mem_map.mp hop
        show mi.hookedSlots core.mem hi.symbol = []
        rw [MapInfo.hookedSlots, hinit]
      rw [hookOps_nil hnil]
  | ok elf => exact hookLoop_allowed hspared hallows hnew hinit (fun _ hh => hh) hm

theorem hookNew_allowed {todo : List MapInfo}
    (hspared : ∀ mi ∈ todo, Spared q core.hookInfo core.mem mi)
    (hallows : ∀ mi ∈ todo, core.Allows os mi) (hnew : ∀ h ∈ core.hookInfo, h.newFunc ≠ 0)
    (hm : Mem.AgreeOn q core.mem m) :
    core.hookNew regexec os todo m = some (hookOps (todo.flatMap (newOps regexec core)) m) := by
  induction todo generalizing m with
  | nil => rfl
  | cons mi todo ih =>
      have hone : core.hook regexec os mi m = some (hookOps (newOps regexec core mi) m) :=
        hook_allowed (hspared mi List.mem_cons_self) (hallows mi List.mem_cons_self) hnew hm
      rw [Core.hookNew, hone, Option.bind_some, List.flatMap_cons, hookOps_append]
      exact ih (fun k hk => hspared k (List.mem_cons_of_mem _ hk))
        (fun k hk => hallows k (List.mem_cons_of_mem _ hk))
        (hook_agreeOn (hspared mi List.mem_cons_self) hm hone)

/-! ## What a slot holds -/

/-- A slot holds the last hook that was put into it. -/
theorem read64_hookOps_last {hooks : List (HookInfo Re)} {K : BitVec 64 → Prop}
    (hw : WordsOk hooks K) {ops : List (HookInfo Re × List (BitVec 64))}
    (hmem : ∀ op ∈ ops, op.1 ∈ hooks) (hK : ∀ op ∈ ops, ∀ s ∈ op.2, K s) {t : BitVec 64}
    (ht : K t) :
    read64 (hookOps ops m) t.toNat = match ops.reverse.find? fun op => op.2.contains t with
      | some op => op.1.newFunc
      | none => read64 m t.toNat := by
  induction ops using List.reverseRecOn generalizing m with
  | nil => rfl
  | append_singleton ops op ih =>
      have hop : op ∈ ops ++ [op] := List.mem_append_right _ List.mem_cons_self
      rw [hookOps_append, List.reverse_append, List.reverse_singleton, List.singleton_append,
        List.find?_cons]
      show read64 (replaceAll op.1.newFunc op.1.oldFunc op.2 (hookOps ops m)) t.toNat = _
      rw [read64_replaceAll (fun s hs => hw.slots t s ht (hK op hop s hs))
        (hw.slotRecord t ht op.1 (hmem op hop))]
      by_cases hin : t ∈ op.2
      · rw [if_pos hin, List.contains_iff_mem.mpr hin]
      · rw [if_neg hin, Bool.eq_false_iff.mpr fun hc => hin (List.contains_iff_mem.mp hc)]
        exact ih (fun op' hop' => hmem op' (List.mem_append_left _ hop'))
          (fun op' hop' => hK op' (List.mem_append_left _ hop'))

/-- The last operation on a slot is that of the last hook whose symbol it is one of. -/
theorem find?_newOps (hone : ∀ h ∈ core.hookInfo, mi.OneJumpSlot core.mem h.symbol)
    (t : BitVec 64) :
    ((newOps regexec core mi).reverse.find? fun op => op.2.contains t).map (fun op => op.1) =
      core.hookOf regexec mi t := by
  have hall : newOps regexec core mi = (core.applied regexec mi.pathname core.hookInfo).map
      fun hi => (hi, mi.slots core.mem hi.symbol) :=
    List.map_congr_left fun hi hhi => by rw [(hone hi (mem_applied hhi)).slots_eq]
  rw [hall, ← List.map_reverse, List.find?_map, Option.map_map]
  exact Option.map_id'

theorem mem_newOps {mis : List MapInfo} {op : HookInfo Re × List (BitVec 64)}
    (hop : op ∈ mis.flatMap (newOps regexec core)) : ∃ mi ∈ mis, op.1 ∈ core.hookInfo ∧
      op.2 = mi.hookedSlots core.mem op.1.symbol := by
  obtain ⟨mi, hmi, hop⟩ := List.mem_flatMap.mp hop
  obtain ⟨hi, hhi, rfl⟩ := List.mem_map.mp hop
  exact ⟨mi, hmi, mem_applied hhi, rfl⟩

theorem newOps_isSlot {mis : List MapInfo}
    (hmis : ∀ mi ∈ mis, mi ∈ core.met regexec core.mem lines)
    {op : HookInfo Re × List (BitVec 64)}
    (hop : op ∈ mis.flatMap (newOps regexec core)) :
    op.1 ∈ core.hookInfo ∧ ∀ s ∈ op.2, core.IsSlot (core.met regexec core.mem lines) s := by
  obtain ⟨mi, hmi, hh, hslots⟩ := mem_newOps hop
  exact ⟨hh, fun s hs => ⟨mi, hmis mi hmi, op.1, hh, hslots ▸ hs⟩⟩

/-- Hooking other libraries leaves the slots of a library alone. -/
theorem read64_other (hready : core.Ready regexec q lines) {mis : List MapInfo}
    (hmis : ∀ mi ∈ mis, mi ∈ core.met regexec core.mem lines)
    (hmi : mi ∈ core.met regexec core.mem lines) (hnot : mi ∉ mis)
    (hh : h ∈ core.hookInfo) {s : BitVec 64} (hs : s ∈ mi.hookedSlots core.mem h.symbol) (m : Mem) :
    read64 (hookOps (mis.flatMap (newOps regexec core)) m) s.toNat = read64 m s.toNat := by
  refine read64_apart hready (fun op hop => ?_) hmi hh hs m
  obtain ⟨k, hk, hh', hslots⟩ := mem_newOps hop
  exact ⟨hh', k, hmis k hk, fun heq => hnot (heq ▸ hk), fun t ht => hslots ▸ ht⟩

/-- Hooking a library gives its slots the last hooks that apply. -/
theorem read64_own (hready : core.Ready regexec q lines)
    (hone : ∀ h ∈ core.hookInfo, mi.OneJumpSlot core.mem h.symbol)
    (hmi : mi ∈ core.met regexec core.mem lines) (hh : h ∈ core.hookInfo) {s : BitVec 64}
    (hs : s ∈ mi.hookedSlots core.mem h.symbol) (m : Mem) :
    read64 (hookOps (newOps regexec core mi) m) s.toNat =
      match core.hookOf regexec mi s with
      | some h => h.newFunc
      | none => read64 m s.toNat := by
  have hops : ∀ op ∈ newOps regexec core mi, op.1 ∈ core.hookInfo ∧
      ∀ t ∈ op.2, core.IsSlot (core.met regexec core.mem lines) t := by
    intro op hop
    obtain ⟨hi, hhi, rfl⟩ := List.mem_map.mp hop
    exact ⟨mem_applied hhi, fun t ht => ⟨mi, hmi, hi, mem_applied hhi, ht⟩⟩
  rw [read64_hookOps_last hready.words (fun op hop => (hops op hop).1)
    (fun op hop => (hops op hop).2) ⟨mi, hmi, h, hh, hs⟩, ← find?_newOps hone]
  cases (newOps regexec core mi).reverse.find? fun op => op.2.contains s with
  | none => rfl
  | some op => rfl

theorem refreshImpl_spec (hmaps : os.maps = some lines) (hready : core.Ready regexec q lines)
    (hallows : ∀ mi ∈ core.met regexec core.mem lines, core.knows mi = false → core.Allows os mi)
    (hnew : ∀ h ∈ core.hookInfo, h.newFunc ≠ 0)
    (hone : ∀ mi ∈ core.met regexec core.mem lines, ∀ h ∈ core.hookInfo,
      mi.OneJumpSlot core.mem h.symbol) :
    ∃ m, core.refreshImpl regexec os =
        some { core with mapInfo := core.met regexec core.mem lines, mem := m } ∧
      (∀ mi ∈ core.met regexec core.mem lines, ∀ h ∈ core.hookInfo,
        ∀ s ∈ mi.slots core.mem h.symbol, read64 m s.toNat =
          if core.knows mi then read64 core.mem s.toNat
          else match core.hookOf regexec mi s with
            | some h => h.newFunc
            | none => read64 core.mem s.toNat) ∧
      ∀ p : Nat → Prop,
        (∀ s, core.IsSlot (core.met regexec core.mem lines) s → WordMisses p s) →
        (∀ h ∈ core.hookInfo, ∀ o, h.oldFunc = some o → WordMisses p o) →
        Mem.AgreeOn p core.mem m := by
  obtain ⟨todo, htodo⟩ : ∃ todo,
      todo = (core.met regexec core.mem lines).filter fun mi => !core.knows mi := ⟨_, rfl⟩
  have hmem : ∀ mi, mi ∈ todo ↔ mi ∈ core.met regexec core.mem lines ∧ core.knows mi = false := by
    intro mi
    rw [htodo, List.mem_filter, Bool.not_eq_true']
  have hin : ∀ mi ∈ todo, mi ∈ core.met regexec core.mem lines := fun mi hmi => ((hmem mi).mp hmi).1
  refine ⟨hookOps (todo.flatMap (newOps regexec core)) core.mem, ?_, ?_, ?_⟩
  · rw [refreshImpl_eq hmaps hready, ← htodo, hookNew_allowed
      (fun mi hmi => hready.spared (hin mi hmi))
      (fun mi hmi => hallows mi (hin mi hmi) ((hmem mi).mp hmi).2) hnew (.refl q core.mem)]
    rfl
  · intro mi hmi h hh s hs
    rw [(hone mi hmi h hh).slots_eq] at hs
    split
    next hk =>
      refine read64_other hready hin hmi (fun hnot => ?_) hh hs core.mem
      rw [((hmem mi).mp hnot).2] at hk
      cases hk
    next hk =>
      have hnodup : todo.Nodup := by
        rw [htodo]
        refine List.Nodup.filter _ ((pairwise_firsts _ _).imp fun hne heq => hne ?_)
        rw [heq]
      obtain ⟨pre, post, hsplit⟩ :=
        List.append_of_mem ((hmem mi).mpr ⟨hmi, Bool.eq_false_iff.mpr hk⟩)
      rw [hsplit] at hin hnodup ⊢
      obtain ⟨-, hpost, hapart⟩ := List.nodup_append.mp hnodup
      rw [List.flatMap_append, List.flatMap_cons, hookOps_append, hookOps_append]
      rw [read64_other hready (fun k hk => hin k (by simp [hk])) hmi
        (List.nodup_cons.mp hpost).1 hh hs, read64_own hready (hone mi hmi) hmi hh hs,
        read64_other hready (fun k hk => hin k (by simp [hk])) hmi
          (fun hmem => hapart mi hmem mi List.mem_cons_self rfl) hh hs]
  · intro p hslots hrecords
    refine hookOps_agreeOn (fun op hop s hs => ?_) (fun op hop => ?_) core.mem
    · exact hslots s ((newOps_isSlot hin hop).2 s hs)
    · exact hrecords op.1 (newOps_isSlot hin hop).1

/-- Each slot of a new library holds the last hook that applies to it, if one does, and
those of the libraries that were known are left alone.  Nothing else but the records is
written.  A second `JUMP_SLOT` of a symbol would be left out. -/
theorem refresh_spec (hmaps : os.maps = some lines) (hready : core.Ready regexec q lines)
    (hallows : ∀ mi ∈ core.met regexec core.mem lines, core.knows mi = false → core.Allows os mi)
    (hnew : ∀ h ∈ core.hookInfo, h.newFunc ≠ 0)
    (hone : ∀ mi ∈ core.met regexec core.mem lines, ∀ h ∈ core.hookInfo,
      mi.OneJumpSlot core.mem h.symbol) :
    ∃ m, core.refresh regexec os = some { core with
        inited := true, mapInfo := core.met regexec core.mem lines, mem := m } ∧
      (∀ mi ∈ core.met regexec core.mem lines, ∀ h ∈ core.hookInfo,
        ∀ s ∈ mi.slots core.mem h.symbol, read64 m s.toNat =
          if core.knows mi then read64 core.mem s.toNat
          else match core.hookOf regexec mi s with
            | some h => h.newFunc
            | none => read64 core.mem s.toNat) ∧
      ∀ p : Nat → Prop,
        (∀ s, core.IsSlot (core.met regexec core.mem lines) s → WordMisses p s) →
        (∀ h ∈ core.hookInfo, ∀ o, h.oldFunc = some o → WordMisses p o) →
        Mem.AgreeOn p core.mem m := by
  obtain ⟨m, hdone, hslots, hframe⟩ := refreshImpl_spec hmaps hready.started
    (fun mi hmi hk => ⟨(hallows mi hmi hk).ends, (hallows mi hmi hk).granted⟩) hnew hone
  refine ⟨m, hdone, fun mi hmi h hh s hs => ?_, hframe⟩
  have hheld := hslots mi hmi h hh s hs
  rw [Core.hookOf, applied_started] at hheld
  exact hheld

end

theorem refresh_spec_import : ∃ m, importCore.refresh contains importOs =
      some { importCore with inited := true, mapInfo := [importMap], mem := m } ∧
    read64 m 0x10280 = 0x30000 := by
  have hknows : importCore.knows importMap = false := rfl
  have hmem : importMap ∈ importCore.met contains importCore.mem [importLine] := by
    rw [importCore_met]
    exact List.mem_cons_self
  have hallows : importCore.Allows importOs importMap := by
    refine ⟨fun elf helf h hh => ?_, fun elf helf h hh s hs => ?_⟩
    · cases oneImport_init.symm.trans helf
      cases List.mem_singleton.mp hh
      have hfind := importName_at.find (oneImport_liesIn.symbols _ (.refl _ _))
      intro hno
      cases hfind.symm.trans hno
    · cases oneImport_init.symm.trans helf
      cases List.mem_singleton.mp hh
      cases List.mem_singleton.mp (importMap_hookedSlots ▸ hs)
      exact ⟨by decide, ⟨true, false, false⟩, by decide, fun _ => rfl⟩
  obtain ⟨m, hdone, hslots, -⟩ := refresh_spec (rfl : importOs.maps = some [importLine])
    importCore_ready (fun mi hmi _ => by
      rw [importCore_met] at hmi
      cases List.mem_singleton.mp hmi
      exact hallows) (by decide) fun mi hmi h hh => by
      rw [importCore_met] at hmi
      cases List.mem_singleton.mp hmi
      cases List.mem_singleton.mp hh
      exact importMap_oneJumpSlot
  rw [importCore_met] at hdone
  refine ⟨m, hdone, ?_⟩
  have hheld := hslots importMap hmem ⟨['l', 'i', 'b'], importName, 0x30000, some 0x20000⟩
    List.mem_cons_self 0x10280 (importMap_slots ▸ List.mem_cons_self)
  have hof : (importCore.hookOf contains importMap 0x10280).map HookInfo.newFunc =
      some 0x30000 := by decide +kernel
  obtain ⟨h, hh, hnew⟩ := Option.map_eq_some_iff.mp hof
  rw [hknows, hh] at hheld
  exact hheld.trans hnew

end XHook
