import AndroidAnalysis.Cpp.StdMap
import AndroidAnalysis.HookLibc.Libc
import AndroidAnalysis.Machine.EventRun

/-!
# Streams that are used again

`hook_fopen` and `hook_fclose` of several threads, on hooked paths whose filter lets
the C library open the file.  A call is a series of steps: the ones of the C library
and the ones of `g_hook`, each of which holds `lock_handle`.

`hook_fclose` gives the stream back to the C library before it removes the entry.  In
between another thread can be given the same stream, and `insert` keeps the entry that
is there.

`Inv` is what holds as long as this does not happen.  An entry belongs to a stream
that is in use or to one thread that closes it, and a stream that is not in the table
can be entered.
-/

namespace HookLibc

open Cpp Machine

namespace HandleReuse

/-! ## Threads -/

/-- A `file_hook`, by the order in which they are made. -/
abbrev Obj := Nat

/-- Where a thread is. -/
inductive Pc
  /-- in no hook -/
  | idle
  /-- in `hook_fopen`, before the stream is opened -/
  | created (phandle : Obj)
  /-- in `hook_fopen`, before `insert_hook_handle` -/
  | opened (phandle : Obj) (fp : Handle)
  /-- in `hook_fclose`, before the stream is closed, with what `get_hook_handle` gave -/
  | closing (fp : Handle) (p : Option Obj)
  /-- in `hook_fclose`, before `remove_hook_handle` -/
  | released (fp : Handle) (p : Obj)
deriving DecidableEq

/-- The threads, `g_hook`, the streams that are open, the objects, and the streams
that a `hook_fopen` has returned and that no thread has begun to close. -/
structure State (T : Type) where
  pc : T → Pc
  gHook : StdMap Handle Obj
  isOpen : Handle → Bool
  objects : Nat
  deleted : Obj → Bool
  held : StdMap Handle Obj

/-- Why a step is not taken: the thread is elsewhere, or the step has no meaning. -/
inductive Failure
  | disabled
  | undefined

/-- A step of a thread. -/
inductive Event (T : Type)
  /-- `check_and_create_handle` -/
  | create (t : T)
  /-- `fopen` of the C library, with its result -/
  | libcFopen (t : T) (fp : Handle)
  /-- `insert_hook_handle`, and the return -/
  | insert (t : T)
  /-- the call of `hook_fclose`, and `get_hook_handle` -/
  | get (t : T) (fp : Handle)
  /-- `fclose` of the C library -/
  | libcFclose (t : T)
  /-- `remove_hook_handle`, `delete`, and the return -/
  | remove (t : T)

section

variable {T : Type} [DecidableEq T]

/-- A thread goes on. -/
def State.goto (s : State T) (t : T) (pc : Pc) : State T :=
  { s with pc := Function.update s.pc t pc }

/-- One step. -/
def step (s : State T) : Event T → Except Failure (State T)
  | .create t =>
      match s.pc t with
      | .idle => .ok { s.goto t (.created s.objects) with objects := s.objects + 1 }
      | _ => .error .disabled
  | .libcFopen t fp =>
      match s.pc t with
      | .created p =>
          if fp = 0 then .ok (s.goto t .idle)
          else if s.isOpen fp then .error .disabled
          else .ok { s.goto t (.opened p fp) with isOpen := Function.update s.isOpen fp true }
      | _ => .error .disabled
  | .insert t =>
      match s.pc t with
      | .opened p fp =>
          .ok { s.goto t .idle with
            gHook := s.gHook.insert fp p
            held := Function.update s.held fp (some p) }
      | _ => .error .disabled
  | .get t fp =>
      match s.pc t, s.held fp with
      | .idle, some _ =>
          .ok { s.goto t (.closing fp (s.gHook fp)) with held := Function.update s.held fp none }
      | _, _ => .error .disabled
  | .libcFclose t =>
      match s.pc t with
      | .closing fp (some p) =>
          if s.deleted p ∨ s.isOpen fp = false then .error .undefined
          else .ok { s.goto t (.released fp p) with isOpen := Function.update s.isOpen fp false }
      | .closing fp none =>
          if s.isOpen fp = false then .error .undefined
          else .ok { s.goto t .idle with isOpen := Function.update s.isOpen fp false }
      | _ => .error .disabled
  | .remove t =>
      match s.pc t with
      | .released fp p =>
          -- `erase(find(fp))`, where `find` finds nothing, and a second `delete`
          if s.gHook fp = none ∨ s.deleted p then .error .undefined
          else .ok { s.goto t .idle with
            gHook := Function.update s.gHook fp none
            deleted := Function.update s.deleted p true }
      | _ => .error .disabled

/-- Before the first call. -/
def start : State T where
  pc := fun _ => .idle
  gHook := StdMap.empty
  isOpen := fun _ => false
  objects := 0
  deleted := fun _ => false
  held := StdMap.empty

/-- The table has, for a stream that a `hook_fopen` has returned and that no thread
has begun to close, the object of that call. -/
def Tracked (s : State T) : Prop := ∀ fp p, s.held fp = some p → s.gHook fp = some p

/-- A step that keeps this: a stream is entered when no other thread is between the
`fclose` and the `remove_hook_handle` of it. -/
def Good (s : State T) : Event T → Prop
  | .insert t => ∀ p fp, s.pc t = .opened p fp → ∀ u q, s.pc u ≠ .released fp q
  | _ => True

end

/-! ## What the threads know -/

/-- The thread has the open stream to itself. -/
def Pc.Uses : Pc → Handle → Prop
  | .opened _ f, fp => f = fp
  | .closing f _, fp => f = fp
  | _, _ => False

/-- The thread is to remove the entry. -/
def Pc.Closes : Pc → Handle → Option Obj → Prop
  | .closing f o, fp, p => f = fp ∧ o = p
  | .released f o, fp, p => f = fp ∧ some o = p
  | _, _, _ => False

/-- The thread has an object that is in no table. -/
def Pc.Makes : Pc → Obj → Prop
  | .created o, p => o = p
  | .opened o _, p => o = p
  | _, _ => False

section

variable {T : Type}

/-- What holds while streams are entered in good time. -/
structure Inv (s : State T) : Prop where
  tracked : Tracked s
  heldOpen : ∀ fp p, s.held fp = some p → s.isOpen fp = true
  uses : ∀ t fp, (s.pc t).Uses fp → s.isOpen fp = true ∧ s.held fp = none
  usesOne : ∀ t u fp, (s.pc t).Uses fp → (s.pc u).Uses fp → t = u
  closes : ∀ t fp p, (s.pc t).Closes fp p → p ≠ none ∧ s.gHook fp = p ∧ s.held fp = none
  closesOne : ∀ t u fp p q, (s.pc t).Closes fp p → (s.pc u).Closes fp q → t = u
  entry : ∀ fp p, s.gHook fp = some p → s.held fp = some p ∨ ∃ t, (s.pc t).Closes fp (some p)
  makes : ∀ t p, (s.pc t).Makes p → p < s.objects ∧ ∀ fp, s.gHook fp ≠ some p
  makesOne : ∀ t u p, (s.pc t).Makes p → (s.pc u).Makes p → t = u
  made : ∀ fp p, s.gHook fp = some p → p < s.objects

end

/-! ## The steps

What a step has found, and what it leaves. -/

section

variable {T : Type} [DecidableEq T] {s s' : State T} {t : T} {fp : Handle}

theorem create_ok (hs : step s (.create t) = .ok s') : s.pc t = .idle ∧
    s' = { s.goto t (.created s.objects) with objects := s.objects + 1 } := by
  simp only [step] at hs
  split at hs
  next hpc => exact ⟨hpc, (Except.ok.inj hs).symm⟩
  next => cases hs

theorem libcFopen_ok (hs : step s (.libcFopen t fp) = .ok s') : ∃ p, s.pc t = .created p ∧
    (fp = 0 ∧ s' = s.goto t .idle ∨ s.isOpen fp = false ∧
      s' = { s.goto t (.opened p fp) with isOpen := Function.update s.isOpen fp true }) := by
  simp only [step] at hs
  split at hs
  next p hpc =>
    refine ⟨p, hpc, ?_⟩
    split at hs
    next hnull => exact Or.inl ⟨hnull, (Except.ok.inj hs).symm⟩
    next =>
      split at hs
      next => cases hs
      next hopen => exact Or.inr ⟨Bool.eq_false_iff.mpr hopen, (Except.ok.inj hs).symm⟩
  next => cases hs

theorem insert_ok (hs : step s (.insert t) = .ok s') : ∃ p fp, s.pc t = .opened p fp ∧
    s' = { s.goto t .idle with
      gHook := s.gHook.insert fp p
      held := Function.update s.held fp (some p) } := by
  simp only [step] at hs
  split at hs
  next p fp hpc => exact ⟨p, fp, hpc, (Except.ok.inj hs).symm⟩
  next => cases hs

theorem get_ok (hs : step s (.get t fp) = .ok s') : s.pc t = .idle ∧ (∃ p, s.held fp = some p) ∧
    s' = { s.goto t (.closing fp (s.gHook fp)) with held := Function.update s.held fp none } := by
  simp only [step] at hs
  split at hs
  next p hpc hheld => exact ⟨hpc, ⟨p, hheld⟩, (Except.ok.inj hs).symm⟩
  next => cases hs

theorem libcFclose_ok (hs : step s (.libcFclose t) = .ok s') : ∃ fp p, s.pc t = .closing fp p ∧
    s' = { s.goto t (p.elim .idle (.released fp)) with
      isOpen := Function.update s.isOpen fp false } := by
  simp only [step] at hs
  split at hs
  next fp p hpc =>
    split at hs
    next => cases hs
    next => exact ⟨fp, some p, hpc, (Except.ok.inj hs).symm⟩
  next fp hpc =>
    split at hs
    next => cases hs
    next => exact ⟨fp, none, hpc, (Except.ok.inj hs).symm⟩
  next => cases hs

theorem remove_ok (hs : step s (.remove t) = .ok s') : ∃ fp p, s.pc t = .released fp p ∧
    s' = { s.goto t .idle with
      gHook := Function.update s.gHook fp none
      deleted := Function.update s.deleted p true } := by
  simp only [step] at hs
  split at hs
  next fp p hpc =>
    split at hs
    next => cases hs
    next => exact ⟨fp, p, hpc, (Except.ok.inj hs).symm⟩
  next => cases hs

end

/-! ## What a step keeps -/

section

variable {T : Type} [DecidableEq T] {s s' : State T} {t : T} {fp : Handle}

/-- At most one thread has what at most one had, when the thread that goes on already
had what it gets or no thread had it. -/
theorem one_goto {R : Pc → Prop} {pc : Pc} (hone : ∀ u v, R (s.pc u) → R (s.pc v) → u = v)
    (hnew : R pc → R (s.pc t) ∨ ∀ u, ¬ R (s.pc u)) (u v : T)
    (hu : R ((s.goto t pc).pc u)) (hv : R ((s.goto t pc).pc v)) : u = v := by
  simp only [State.goto, Function.update_apply] at hu hv
  split at hu
  next hut =>
    split at hv
    next hvt => exact hut.trans hvt.symm
    next =>
      rcases hnew hu with hhad | hnone
      · exact hut.trans (hone t v hhad hv)
      · exact absurd hv (hnone v)
  next =>
    split at hv
    next hvt =>
      rcases hnew hv with hhad | hnone
      · exact (hone u t hu hhad).trans hvt.symm
      · exact absurd hu (hnone u)
    next => exact hone u v hu hv

/-- The same of the entry of a stream, whatever object it has. -/
theorem one_closes_goto {pc : Pc} {f : Handle} {o o' : Option Obj}
    (hone : ∀ u v p q, (s.pc u).Closes f p → (s.pc v).Closes f q → u = v)
    (hnew : ∀ p, pc.Closes f p → (∃ q, (s.pc t).Closes f q) ∨ ∀ u q, ¬ (s.pc u).Closes f q)
    (u v : T) (hu : ((s.goto t pc).pc u).Closes f o) (hv : ((s.goto t pc).pc v).Closes f o') :
    u = v := by
  refine one_goto (R := fun pc => ∃ p, pc.Closes f p) ?_ ?_ u v ⟨o, hu⟩ ⟨o', hv⟩
  · rintro u v ⟨p, hp⟩ ⟨q, hq⟩
    exact hone u v p q hp hq
  · rintro ⟨p, hp⟩
    exact (hnew p hp).imp_right fun hnone u ⟨q, hq⟩ => hnone u q hq

omit [DecidableEq T] in
theorem inv_start : Inv (start : State T) where
  tracked := fun _ _ h => nomatch h
  heldOpen := fun _ _ h => nomatch h
  uses := fun _ _ h => h.elim
  usesOne := fun _ _ _ h => h.elim
  closes := fun _ _ _ h => h.elim
  closesOne := fun _ _ _ _ _ h => h.elim
  entry := fun _ _ h => nomatch h
  makes := fun _ _ h => h.elim
  makesOne := fun _ _ _ h => h.elim
  made := fun _ _ h => nomatch h

theorem inv_create (h : Inv s) (hs : step s (.create t) = .ok s') : Inv s' := by
  obtain ⟨hpc, rfl⟩ := create_ok hs
  clear hs
  obtain ⟨tracked, heldOpen, uses, usesOne, closes, closesOne, entry, makes, makesOne, made⟩ := h
  constructor
  case tracked => exact tracked
  case heldOpen => exact heldOpen
  case usesOne =>
    exact fun u v f => one_goto (R := (·.Uses f)) (usesOne · · f) False.elim u v
  case closesOne =>
    exact fun u v f _ _ => one_closes_goto (closesOne · · f) (fun _ => False.elim) u v
  case makesOne =>
    -- no thread has the new object
    intro u v p
    refine one_goto (R := (·.Makes p)) (makesOne · · p) (fun hp => .inr fun w hw => ?_) u v
    have hlt := (makes w p hw).1
    exact absurd hlt (Nat.not_lt.mpr hp.le)
  all_goals simp only [State.goto, Function.update_apply]
  case uses => grind [Pc.Uses]
  case closes => grind [Pc.Closes]
  case entry => grind [Pc.Closes]
  case makes => grind [Pc.Makes]
  case made => grind

theorem inv_libcFopen (h : Inv s) (hs : step s (.libcFopen t fp) = .ok s') : Inv s' := by
  obtain ⟨p, hpc, ⟨-, rfl⟩ | ⟨hfree, rfl⟩⟩ := libcFopen_ok hs
  · clear hs
    obtain ⟨tracked, heldOpen, uses, usesOne, closes, closesOne, entry, makes, makesOne, made⟩ := h
    constructor
    case tracked => exact tracked
    case heldOpen => exact heldOpen
    case made => exact made
    case usesOne =>
      exact fun u v f => one_goto (R := (·.Uses f)) (usesOne · · f) False.elim u v
    case closesOne =>
      exact fun u v f _ _ => one_closes_goto (closesOne · · f) (fun _ => False.elim) u v
    case makesOne =>
      exact fun u v p => one_goto (R := (·.Makes p)) (makesOne · · p) False.elim u v
    all_goals simp only [State.goto, Function.update_apply]
    case uses => grind [Pc.Uses]
    case closes => grind [Pc.Closes]
    case entry => grind [Pc.Closes]
    case makes => grind [Pc.Makes]
  · clear hs
    obtain ⟨tracked, heldOpen, uses, usesOne, closes, closesOne, entry, makes, makesOne, made⟩ := h
    -- a stream that is not open is nobody's
    have hheld : s.held fp = none := Option.eq_none_iff_forall_ne_some.mpr fun q hq => by
      rw [heldOpen fp q hq] at hfree
      cases hfree
    have hunused : ∀ u, ¬ (s.pc u).Uses fp := fun u hu => by
      rw [(uses u fp hu).1] at hfree
      cases hfree
    have hmakes : (s.pc t).Makes p := by rw [hpc]; rfl
    constructor
    case tracked => exact tracked
    case made => exact made
    case usesOne =>
      intro u v f
      refine one_goto (R := (·.Uses f)) (usesOne · · f) (fun hf => .inr ?_) u v
      exact hf ▸ hunused
    case closesOne =>
      exact fun u v f _ _ => one_closes_goto (closesOne · · f) (fun _ => False.elim) u v
    case makesOne =>
      intro u v q
      refine one_goto (R := (·.Makes q)) (makesOne · · q) (fun hq => .inl ?_) u v
      exact hq ▸ hmakes
    all_goals simp only [State.goto, Function.update_apply]
    case heldOpen => grind
    case uses => grind [Pc.Uses]
    case closes => grind [Pc.Closes]
    case entry => grind [Pc.Closes]
    case makes => grind [Pc.Makes]

theorem inv_insert (h : Inv s) (hs : step s (.insert t) = .ok s') (hgood : Good s (.insert t)) :
    Inv s' := by
  obtain ⟨p, fp, hpc, rfl⟩ := insert_ok hs
  clear hs
  obtain ⟨tracked, heldOpen, uses, usesOne, closes, closesOne, entry, makes, makesOne, made⟩ := h
  have huses : (s.pc t).Uses fp := by rw [hpc]; rfl
  have hmakes : (s.pc t).Makes p := by rw [hpc]; rfl
  obtain ⟨hopen, hheld⟩ := uses t fp huses
  -- nobody is to remove the entry of the stream, so there is none
  have hclosers : ∀ u q, ¬ (s.pc u).Closes fp q := by
    intro u q hu
    cases hu' : s.pc u with
    | closing f o =>
        rw [hu'] at hu
        have hut : t = u := usesOne t u fp huses (by rw [hu']; exact hu.1)
        rw [← hut, hpc] at hu'
        cases hu'
    | released f o =>
        rw [hu'] at hu
        exact hgood p fp hpc u o (by rw [hu', hu.1])
    | _ =>
        rw [hu'] at hu
        exact hu
  have hfree : s.gHook fp = none := Option.eq_none_iff_forall_ne_some.mpr fun q hq => by
    rcases entry fp q hq with hheld' | ⟨u, hu⟩
    · exact nomatch hheld.symm.trans hheld'
    · exact hclosers u _ hu
  have hinsert : s.gHook.insert fp p = Function.update s.gHook fp (some p) := by
    rw [StdMap.insert, hfree]
    rfl
  rw [hinsert]
  constructor
  case usesOne =>
    exact fun u v f => one_goto (R := (·.Uses f)) (usesOne · · f) False.elim u v
  case closesOne =>
    exact fun u v f _ _ => one_closes_goto (closesOne · · f) (fun _ => False.elim) u v
  case makesOne =>
    exact fun u v q => one_goto (R := (·.Makes q)) (makesOne · · q) False.elim u v
  all_goals simp only [Tracked, State.goto, Function.update_apply]
  case tracked => grind [Tracked]
  case heldOpen => grind
  case uses => grind [Pc.Uses]
  case closes => grind [Pc.Closes]
  case entry => grind [Pc.Closes]
  case makes => grind [Pc.Makes]
  case made => grind

theorem inv_get (h : Inv s) (hs : step s (.get t fp) = .ok s') : Inv s' := by
  obtain ⟨hpc, ⟨p, hheld⟩, rfl⟩ := get_ok hs
  clear hs
  obtain ⟨tracked, heldOpen, uses, usesOne, closes, closesOne, entry, makes, makesOne, made⟩ := h
  have hentry : s.gHook fp = some p := tracked fp p hheld
  -- a stream that is held is in nobody's hands
  have hunused : ∀ u, ¬ (s.pc u).Uses fp := fun u hu => nomatch (uses u fp hu).2.symm.trans hheld
  have hclosers : ∀ u q, ¬ (s.pc u).Closes fp q := fun u q hu =>
    nomatch (closes u fp q hu).2.2.symm.trans hheld
  rw [hentry]
  constructor
  case made => exact made
  case usesOne =>
    intro u v f
    refine one_goto (R := (·.Uses f)) (usesOne · · f) (fun hf => .inr ?_) u v
    exact hf ▸ hunused
  case closesOne =>
    intro u v f _ _
    refine one_closes_goto (closesOne · · f) (fun q hq => .inr ?_) u v
    exact hq.1 ▸ hclosers
  case makesOne =>
    exact fun u v q => one_goto (R := (·.Makes q)) (makesOne · · q) False.elim u v
  all_goals simp only [Tracked, State.goto, Function.update_apply]
  case tracked => grind [Tracked]
  case heldOpen => grind
  case uses => grind [Pc.Uses]
  case closes => grind [Pc.Closes]
  case entry => grind [Pc.Closes]
  case makes => grind [Pc.Makes]

theorem inv_libcFclose (h : Inv s) (hs : step s (.libcFclose t) = .ok s') : Inv s' := by
  obtain ⟨fp, p, hpc, rfl⟩ := libcFclose_ok hs
  clear hs
  obtain ⟨tracked, heldOpen, uses, usesOne, closes, closesOne, entry, makes, makesOne, made⟩ := h
  have huses : (s.pc t).Uses fp := by rw [hpc]; rfl
  have hcloses : (s.pc t).Closes fp p := by rw [hpc]; exact ⟨rfl, rfl⟩
  obtain ⟨hsome, hentry, hheld⟩ := closes t fp p hcloses
  obtain ⟨q, rfl⟩ := Option.ne_none_iff_exists'.mp hsome
  -- the others have other streams open
  have hothers : ∀ u, (s.pc u).Uses fp → u = t := fun u hu => usesOne u t fp hu huses
  constructor
  case tracked => exact tracked
  case made => exact made
  case usesOne =>
    exact fun u v f => one_goto (R := (·.Uses f)) (usesOne · · f) False.elim u v
  case closesOne =>
    intro u v f _ _
    refine one_closes_goto (closesOne · · f) (fun o ho => .inl ⟨some q, ?_⟩) u v
    exact ho.1 ▸ hcloses
  case makesOne =>
    exact fun u v o => one_goto (R := (·.Makes o)) (makesOne · · o) False.elim u v
  all_goals simp only [State.goto, Function.update_apply, Option.elim]
  case heldOpen => grind
  case uses => grind [Pc.Uses]
  case closes => grind [Pc.Closes]
  case entry => grind [Pc.Closes]
  case makes => grind [Pc.Makes]

theorem inv_remove (h : Inv s) (hs : step s (.remove t) = .ok s') : Inv s' := by
  obtain ⟨fp, p, hpc, rfl⟩ := remove_ok hs
  clear hs
  obtain ⟨tracked, heldOpen, uses, usesOne, closes, closesOne, entry, makes, makesOne, made⟩ := h
  have hcloses : (s.pc t).Closes fp (some p) := by rw [hpc]; exact ⟨rfl, rfl⟩
  obtain ⟨-, hentry, hheld⟩ := closes t fp (some p) hcloses
  have hothers : ∀ u q, (s.pc u).Closes fp q → u = t := fun u q hu =>
    closesOne u t fp q _ hu hcloses
  constructor
  case heldOpen => exact heldOpen
  case usesOne =>
    exact fun u v f => one_goto (R := (·.Uses f)) (usesOne · · f) False.elim u v
  case closesOne =>
    exact fun u v f _ _ => one_closes_goto (closesOne · · f) (fun _ => False.elim) u v
  case makesOne =>
    exact fun u v o => one_goto (R := (·.Makes o)) (makesOne · · o) False.elim u v
  all_goals simp only [Tracked, State.goto, Function.update_apply]
  case tracked => grind [Tracked]
  case uses => grind [Pc.Uses]
  case closes => grind [Pc.Closes]
  case entry => grind [Pc.Closes]
  case makes => grind [Pc.Makes]
  case made => grind

theorem inv_step {e : Event T} (h : Inv s) (hs : step s e = .ok s') (hgood : Good s e) :
    Inv s' := by
  cases e with
  | create t => exact inv_create h hs
  | libcFopen t fp => exact inv_libcFopen h hs
  | insert t => exact inv_insert h hs hgood
  | get t fp => exact inv_get h hs
  | libcFclose t => exact inv_libcFclose h hs
  | remove t => exact inv_remove h hs

/-- A stream that is entered too early keeps the object of the one before it. -/
theorem not_tracked_of_not_good {e : Event T} (h : Inv s) (hs : step s e = .ok s')
    (hbad : ¬ Good s e) : ¬ Tracked s' := by
  cases e with
  | insert t =>
      obtain ⟨p, fp, hpc, rfl⟩ := insert_ok hs
      intro htracked
      refine hbad fun p' fp' hpc' u q hu => ?_
      obtain ⟨rfl, rfl⟩ := Pc.opened.inj (hpc.symm.trans hpc')
      have hcloses : (s.pc u).Closes fp (some q) := by rw [hu]; exact ⟨rfl, rfl⟩
      have hentry : s.gHook fp = some q := (h.closes u fp (some q) hcloses).2.1
      have hnew : s.gHook fp ≠ some p := (h.makes t p (by rw [hpc]; rfl)).2 fp
      have hkept : (s.gHook.insert fp p) fp = some p := htracked fp p (Function.update_self ..)
      rw [StdMap.insert_of_some hentry] at hkept
      exact hnew (hentry.trans hkept)
  | _ => exact absurd trivial hbad

end

/-! ## Runs -/

/-- In every state of a run the table has the object of the `hook_fopen` that returned
a stream, exactly when no stream is entered while another thread is between the
`fclose` and the `remove_hook_handle` of it. -/
theorem tracked_iff {T : Type} [DecidableEq T] {es : List (Event T)} {s' : State T}
    (h : run step start es = .ok s') :
    (∀ p, p <+: es → ∀ q, run step start p = .ok q → Tracked q) ↔
      ∀ past e rest, es = past ++ e :: rest → ∀ q, run step start past = .ok q → Good q e :=
  run_always_iff_state Inv Tracked Good (fun _ h => h.tracked) (fun _ _ _ => inv_step)
    (fun _ _ _ => not_tracked_of_not_good) inv_start h

/-- While a thread closes a stream, another one is given a second stream, and then the
first one again. -/
def again : List (Event Bool) :=
  [.create false, .libcFopen false 4096, .insert false, .get false 4096, .create true,
    .libcFclose false, .libcFopen true 8192, .insert true, .remove false, .create true,
    .libcFopen true 4096, .insert true]

/-- A stream is entered in good time when each thread that closes one closes another. -/
theorem good_insert {s : State Bool} {t : Bool} {p : Obj} {fp : Handle}
    (hpc : s.pc t = .opened p fp) (hother : ∀ f q, s.pc (!t) = .released f q → f ≠ fp) :
    Good s (.insert t) := by
  intro p' fp' hpc' u q hu
  obtain ⟨rfl, rfl⟩ := Pc.opened.inj (hpc.symm.trans hpc')
  by_cases hut : u = t
  · rw [hut, hpc] at hu
    cases hu
  · rw [Bool.eq_not_of_ne hut] at hu
    exact hother _ q hu rfl

theorem again_tracked : ∃ s, run step start again = .ok s ∧
    ∀ p, p <+: again → ∀ q, run step start p = .ok q → Tracked q := by
  obtain ⟨s, hs⟩ : ∃ s, run step start again = .ok s := ⟨_, rfl⟩
  refine ⟨s, hs, (tracked_iff hs).mpr fun past e rest hsplit q hrun => ?_⟩
  obtain _ | ⟨_, _ | ⟨_, _ | ⟨_, _ | ⟨_, _ | ⟨_, _ | ⟨_, _ | ⟨_, _ | ⟨_, _ | ⟨_, _ | ⟨_, _ | ⟨_, _ |
    ⟨_, past⟩⟩⟩⟩⟩⟩⟩⟩⟩⟩⟩⟩ := past
  case cons.cons.cons.cons.cons.cons.cons.cons.cons.cons.cons.cons =>
    exact absurd (congrArg List.length hsplit) (by simp [again])
  all_goals cases hsplit
  case cons.cons.nil =>
    cases hrun
    exact good_insert rfl nofun
  case cons.cons.cons.cons.cons.cons.cons.nil =>
    cases hrun
    refine good_insert rfl fun f q hf => ?_
    obtain ⟨rfl, -⟩ := Pc.released.inj hf
    decide
  case cons.cons.cons.cons.cons.cons.cons.cons.cons.cons.cons.nil =>
    cases hrun
    exact good_insert rfl nofun
  all_goals exact trivial

/-- A thread closes a stream, and another one is given it before the entry is removed. -/
def tooEarly : List (Event Bool) :=
  [.create false, .libcFopen false 4096, .insert false, .get false 4096, .libcFclose false,
    .create true, .libcFopen true 4096, .insert true, .remove false]

/-- The second thread holds the stream, and the table has nothing for it. -/
theorem tooEarly_not_tracked : ∃ q, run step start tooEarly = .ok q ∧
    q.held 4096 = some 1 ∧ q.gHook 4096 = none ∧ ¬ Tracked q := by
  refine ⟨_, rfl, rfl, rfl, fun h => ?_⟩
  exact nomatch h 4096 1 rfl

end HandleReuse

end HookLibc
