import AndroidAnalysis.XHook.CoreRun

/-!
# Asynchronous refreshes

`xh_core_refresh` can leave the refresh to a thread.  A request sets a flag and signals
a condition variable, and the thread takes the flag back before it refreshes.
`xh_core_clear` ends the thread first.  The critical sections of `xh_core_mutex` are
single steps, and the thread can be anywhere in between when something else happens.

`async_reaches` says that the slots of a symbol with at most one `JUMP_SLOT` lead to its
function in any order of these steps.  `request_served` says that no request is lost while the thread is to run:
it is never asleep with one.  `refreshes_le_requests` says that the thread does not
refresh unasked: what a thread owes changes by the requests and the refreshes only.  The
flag outlives `xh_core_clear`, and `restarted_refreshes_iff` says what the next thread
does then.
-/

namespace XHook

open Machine Interposition

variable {Re : Type}

/-! ## The code -/

/-- Where the thread that refreshes is -/
inductive Thread
  /-- There is none. -/
  | none
  /-- at the test of its loop -/
  | outer
  /-- before it locks `xh_core_mutex`, at first or in `pthread_cond_wait` -/
  | locking
  /-- in `pthread_cond_wait` -/
  | asleep
  /-- before `xh_core_refresh_impl` -/
  | taken
  /-- at its end -/
  | exited
  deriving DecidableEq, Repr

/-- `pthread_cond_signal` -/
def Thread.signal : Thread → Thread
  | .asleep => .locking
  | thread => thread

/-- The state of the library, with the variables `xh_core_async_inited`,
`xh_core_async_init_ok`, `xh_core_refresh_thread_running` and
`xh_core_refresh_thread_do` -/
structure Async (Re : Type) where
  core : Core Re
  asyncInited : Bool
  asyncInitOk : Bool
  running : Bool
  refreshDo : Bool
  thread : Thread

/-- The state before the first call -/
def Async.start (core : Core Re) : Async Re := ⟨core, false, false, false, false, .none⟩

/-- `xh_core_clear` -/
def CoreEvent.isClear : CoreEvent → Bool
  | .clear => true
  | _ => false

/-- What happens: a call that has nothing to do with the thread, a part of one that has,
or a step of the thread. -/
inductive AsyncEvent where
  | call (e : CoreEvent)
  /-- `xh_core_init_once` and `xh_core_init_async_once`, where the thread is created or not -/
  | initAsync (created : Bool)
  /-- the end of `xh_core_refresh` -/
  | request
  /-- the test of the loop -/
  | test
  /-- the critical section of the loop, up to its end or to `pthread_cond_wait` -/
  | lock
  /-- a return of `pthread_cond_wait` without a signal -/
  | wake
  /-- `xh_core_refresh_impl` by the thread -/
  | refresh (os : Os)
  /-- `xh_core_clear` up to `pthread_join` -/
  | stop
  /-- `xh_core_clear` from the return of `pthread_join` on -/
  | clear

namespace Async

/-- What an event does, where it can happen. -/
def step (regcomp : List Char → Option Re) (regexec : Re → List Char → Bool) (s : Async Re) :
    AsyncEvent → Except Unit (Async Re)
  | .call e =>
      if e.isClear then .error ()
      else (s.core.step regcomp regexec e).map fun core => { s with core }
  | .initAsync created =>
      let core := { s.core with inited := true }
      if s.asyncInited then .ok { s with core }
      else if created then
        .ok { s with
          core, asyncInited := true, asyncInitOk := true, running := true, thread := .outer }
      else .ok { s with core, asyncInited := true, running := false }
  | .request =>
      if s.asyncInitOk then .ok { s with refreshDo := true, thread := s.thread.signal }
      else .error ()
  | .test =>
      if s.thread = .outer then .ok { s with thread := if s.running then .locking else .exited }
      else .error ()
  | .lock =>
      if s.thread = .locking then
        if !s.refreshDo && s.running then .ok { s with thread := .asleep }
        else if !s.running then .ok { s with thread := .exited }
        else .ok { s with refreshDo := false, thread := .taken }
      else .error ()
  | .wake => if s.thread = .asleep then .ok { s with thread := .locking } else .error ()
  | .refresh os =>
      if s.thread = .taken then
        match s.core.refreshImpl regexec os with
        | some core => .ok { s with core, thread := .outer }
        | none => .error ()
      else .error ()
  | .stop =>
      if s.asyncInitOk then .ok { s with running := false, thread := s.thread.signal }
      else .error ()
  | .clear =>
      if s.asyncInitOk ∧ s.thread ≠ .exited then .error ()
      else .ok { s with
        core := s.core.clear, asyncInited := false, asyncInitOk := false, thread := .none }

/-! ## Steps -/

/-- All that a step can do. -/
inductive Moves (regcomp : List Char → Option Re) (regexec : Re → List Char → Bool)
    (s : Async Re) : AsyncEvent → Async Re → Prop
  | call {e : CoreEvent} {core : Core Re} : e.isClear = false →
      s.core.step regcomp regexec e = .ok core → Moves regcomp regexec s (.call e) { s with core }
  | initAgain {created : Bool} : s.asyncInited = true →
      Moves regcomp regexec s (.initAsync created) { s with core := { s.core with inited := true } }
  | initCreated : s.asyncInited = false →
      Moves regcomp regexec s (.initAsync true) { s with
        core := { s.core with inited := true }, asyncInited := true, asyncInitOk := true
        running := true, thread := .outer }
  | initFailed : s.asyncInited = false →
      Moves regcomp regexec s (.initAsync false) { s with
        core := { s.core with inited := true }, asyncInited := true, running := false }
  | request : s.asyncInitOk = true →
      Moves regcomp regexec s .request { s with refreshDo := true, thread := s.thread.signal }
  | goes : s.thread = .outer → s.running = true →
      Moves regcomp regexec s .test { s with thread := .locking }
  | leaves : s.thread = .outer → s.running = false →
      Moves regcomp regexec s .test { s with thread := .exited }
  | sleeps : s.thread = .locking → s.refreshDo = false → s.running = true →
      Moves regcomp regexec s .lock { s with thread := .asleep }
  | ends : s.thread = .locking → s.running = false →
      Moves regcomp regexec s .lock { s with thread := .exited }
  | takes : s.thread = .locking → s.refreshDo = true → s.running = true →
      Moves regcomp regexec s .lock { s with refreshDo := false, thread := .taken }
  | wakes : s.thread = .asleep → Moves regcomp regexec s .wake { s with thread := .locking }
  | refreshes {os : Os} {core : Core Re} : s.thread = .taken →
      s.core.refreshImpl regexec os = some core →
      Moves regcomp regexec s (.refresh os) { s with core, thread := .outer }
  | stops : s.asyncInitOk = true →
      Moves regcomp regexec s .stop { s with running := false, thread := s.thread.signal }
  | clears : (s.asyncInitOk = true → s.thread = .exited) →
      Moves regcomp regexec s .clear { s with
        core := s.core.clear, asyncInited := false, asyncInitOk := false, thread := .none }

end Async

section
variable {regcomp : List Char → Option Re} {regexec : Re → List Char → Bool} {core core' : Core Re}
  {os : Os} {s s' t : Async Re} {e : AsyncEvent} {es : List AsyncEvent}

theorem Async.step_cases (h : s.step regcomp regexec e = .ok s') :
    s.Moves regcomp regexec e s' := by
  cases e with
  | call e =>
      rcases ite_eq_iff.mp h with ⟨-, h⟩ | ⟨hno, h⟩
      · cases h
      · cases hcore : s.core.step regcomp regexec e with
        | error u => rw [hcore] at h; cases h
        | ok core =>
            rw [hcore] at h
            cases h
            exact .call (Bool.not_eq_true _ ▸ hno) hcore
  | initAsync created =>
      rcases ite_eq_iff.mp h with ⟨hagain, h⟩ | ⟨hfirst, h⟩
      · cases h
        exact .initAgain hagain
      · rw [Bool.not_eq_true] at hfirst
        cases created with
        | true =>
            cases h
            exact .initCreated hfirst
        | false =>
            cases h
            exact .initFailed hfirst
  | request =>
      rcases ite_eq_iff.mp h with ⟨hok, h⟩ | ⟨-, h⟩
      · cases h
        exact .request hok
      · cases h
  | test =>
      rcases ite_eq_iff.mp h with ⟨hat, h⟩ | ⟨-, h⟩
      · cases h
        split
        next hrun => exact .goes hat hrun
        next hrun => exact .leaves hat (Bool.not_eq_true _ ▸ hrun)
      · cases h
  | lock =>
      rcases ite_eq_iff.mp h with ⟨hat, h⟩ | ⟨-, h⟩
      · rcases ite_eq_iff.mp h with ⟨hidle, h⟩ | ⟨hbusy, h⟩
        · cases h
          rw [Bool.and_eq_true, Bool.not_eq_true'] at hidle
          exact .sleeps hat hidle.1 hidle.2
        · rcases ite_eq_iff.mp h with ⟨hend, h⟩ | ⟨hrun, h⟩
          · cases h
            exact .ends hat ((Bool.not_eq_true' _).mp hend)
          · cases h
            have hrun : s.running = true := by simpa using hrun
            rw [hrun, Bool.and_true, Bool.not_eq_true, Bool.not_eq_false'] at hbusy
            exact .takes hat hbusy hrun
      · cases h
  | wake =>
      rcases ite_eq_iff.mp h with ⟨hat, h⟩ | ⟨-, h⟩
      · cases h
        exact .wakes hat
      · cases h
  | refresh os =>
      rcases ite_eq_iff.mp h with ⟨hat, h⟩ | ⟨-, h⟩
      · cases hdone : s.core.refreshImpl regexec os with
        | none => rw [hdone] at h; cases h
        | some core =>
            rw [hdone] at h
            cases h
            exact .refreshes hat hdone
      · cases h
  | stop =>
      rcases ite_eq_iff.mp h with ⟨hok, h⟩ | ⟨-, h⟩
      · cases h
        exact .stops hok
      · cases h
  | clear =>
      rcases ite_eq_iff.mp h with ⟨-, h⟩ | ⟨hjoined, h⟩
      · cases h
      · cases h
        exact .clears fun hok => not_not.mp fun hne => hjoined ⟨hok, hne⟩

/-! ## The thread -/

/-- What holds between any two steps: the thread sleeps only where there is nothing to do,
and is there where it was created. -/
structure Async.Wf (s : Async Re) : Prop where
  asleep : s.thread = .asleep → s.refreshDo = false ∧ s.running = true
  exited : s.thread = .exited → s.running = false
  none : s.thread = .none ↔ s.asyncInitOk = false
  inited : s.asyncInitOk = true → s.core.inited = true ∧ s.asyncInited = true

theorem signal_ne_asleep (thread : Thread) : thread.signal ≠ .asleep := by
  cases thread <;> exact Thread.noConfusion

theorem eq_exited_of_signal {thread : Thread} (h : thread.signal = .exited) :
    thread = .exited := by
  cases thread with
  | asleep => cases h
  | _ => exact h

theorem signal_eq_none {thread : Thread} : thread.signal = .none ↔ thread = .none := by
  cases thread <;> exact ⟨fun h => by cases h <;> rfl, fun h => by cases h <;> rfl⟩

theorem refreshImpl_inited (h : core.refreshImpl regexec os = some core') :
    core'.inited = core.inited := by
  rw [Core.refreshImpl] at h
  split at h
  next => cases h; rfl
  next =>
    split at h
    next => cases h
    next => cases h; rfl

/-- Only `xh_core_clear` makes the library forget that it was started. -/
theorem core_step_inited {e : CoreEvent} (hno : e.isClear = false) (hcore : core.inited = true)
    (h : core.step regcomp regexec e = .ok core') : core'.inited = true := by
  cases e with
  | register pathnameRegexStr symbol newFunc oldFunc =>
      cases h
      unfold Core.register
      split
      next =>
        split
        next => exact hcore
        next => exact hcore
      next => exact hcore
  | ignore pathnameRegexStr symbol =>
      cases h
      unfold Core.ignore
      split
      next =>
        split
        next => exact hcore
        next hearly => exact absurd hcore hearly
      next => exact hcore
  | refresh os =>
      rw [Core.step] at h
      cases hdone : core.refresh regexec os with
      | none => rw [hdone] at h; cases h
      | some core₁ =>
          rw [hdone] at h
          cases h
          exact refreshImpl_inited hdone
  | clear => cases hno
  | runs m =>
      cases h
      exact hcore

theorem start_wf (core : Core Re) : (Async.start core).Wf where
  asleep := fun h => by cases h
  exited := fun h => by cases h
  none := ⟨fun _ => rfl, fun _ => rfl⟩
  inited := fun h => by cases h

/-- The thread is where it was created. -/
theorem Async.Wf.initOk (h : s.Wf) (hthread : s.thread ≠ .none) : s.asyncInitOk = true :=
  Bool.not_eq_false _ ▸ fun hno => hthread (h.none.mpr hno)

/-- The thread goes on. -/
theorem Async.Wf.goes {thread : Thread} (h : s.Wf) (hfrom : s.thread ≠ .none)
    (hnone : thread ≠ .none) (hasleep : thread ≠ .asleep) (hexited : thread ≠ .exited)
    (refreshDo : Bool) : ({ s with refreshDo, thread } : Async Re).Wf where
  asleep := fun hno => absurd hno hasleep
  exited := fun hno => absurd hno hexited
  none := ⟨fun hno => absurd hno hnone, fun hno => absurd (h.none.mpr hno) hfrom⟩
  inited := h.inited

/-- The thread ends. -/
theorem Async.Wf.ends (h : s.Wf) (hfrom : s.thread ≠ .none) (hrun : s.running = false) :
    ({ s with thread := .exited } : Async Re).Wf where
  asleep := fun hno => Thread.noConfusion hno
  exited := fun _ => hrun
  none := ⟨fun hno => Thread.noConfusion hno, fun hno => absurd (h.none.mpr hno) hfrom⟩
  inited := h.inited

/-- The thread is signalled. -/
theorem Async.Wf.signalled (h : s.Wf) {refreshDo running : Bool}
    (hrun : s.thread = .exited → running = false) :
    ({ s with refreshDo, running, thread := s.thread.signal } : Async Re).Wf where
  asleep := fun hno => absurd hno (signal_ne_asleep _)
  exited := fun hend => hrun (eq_exited_of_signal hend)
  none := signal_eq_none.trans h.none
  inited := h.inited

/-- Every step keeps it. -/
theorem step_wf (h : s.Wf) (hstep : s.step regcomp regexec e = .ok s') : s'.Wf := by
  have hthere : ∀ {thread}, s.thread = thread → thread ≠ .none → s.thread ≠ .none :=
    fun heq hne => heq ▸ hne
  cases Async.step_cases hstep with
  | call hno hcore =>
      exact ⟨h.asleep, h.exited, h.none, fun hok =>
        ⟨core_step_inited hno (h.inited hok).1 hcore, (h.inited hok).2⟩⟩
  | initAgain hagain => exact ⟨h.asleep, h.exited, h.none, fun _ => ⟨rfl, hagain⟩⟩
  | initCreated hfirst =>
      exact ⟨fun hno => Thread.noConfusion hno, fun hno => Thread.noConfusion hno,
        ⟨fun hno => Thread.noConfusion hno, fun hno => Bool.noConfusion hno⟩,
        fun _ => ⟨rfl, rfl⟩⟩
  | initFailed hfirst =>
      -- where nothing was initialised there is no thread
      have hnone : s.thread = .none := by
        by_contra hthread
        exact Bool.noConfusion (hfirst.symm.trans (h.inited (h.initOk hthread)).2)
      exact ⟨fun hno => Thread.noConfusion (hnone.symm.trans hno), fun _ => rfl, h.none,
        fun _ => ⟨rfl, rfl⟩⟩
  | request hok => exact h.signalled h.exited
  | goes hat hrun =>
      exact h.goes (hthere hat Thread.noConfusion) Thread.noConfusion Thread.noConfusion
        Thread.noConfusion _
  | leaves hat hrun => exact h.ends (hthere hat Thread.noConfusion) hrun
  | sleeps hat hdo hrun =>
      have hfrom := hthere hat Thread.noConfusion
      exact ⟨fun _ => ⟨hdo, hrun⟩, fun hno => Thread.noConfusion hno,
        ⟨fun hno => Thread.noConfusion hno, fun hno => absurd (h.none.mpr hno) hfrom⟩, h.inited⟩
  | ends hat hrun => exact h.ends (hthere hat Thread.noConfusion) hrun
  | takes hat hdo hrun =>
      exact h.goes (hthere hat Thread.noConfusion) Thread.noConfusion Thread.noConfusion
        Thread.noConfusion _
  | wakes hat =>
      exact h.goes (hthere hat Thread.noConfusion) Thread.noConfusion Thread.noConfusion
        Thread.noConfusion _
  | refreshes hat hdone =>
      have hgoes : ({ s with thread := .outer } : Async Re).Wf :=
        h.goes (hthere hat Thread.noConfusion) Thread.noConfusion Thread.noConfusion
          Thread.noConfusion s.refreshDo
      exact ⟨hgoes.asleep, hgoes.exited, hgoes.none, fun hok =>
        ⟨(refreshImpl_inited hdone).trans (h.inited hok).1, (h.inited hok).2⟩⟩
  | stops hok => exact h.signalled fun _ => rfl
  | clears hjoined =>
      exact ⟨fun hno => Thread.noConfusion hno, fun hno => Thread.noConfusion hno,
        ⟨fun _ => rfl, fun _ => rfl⟩, fun hno => Bool.noConfusion hno⟩

/-- It holds all along a run. -/
theorem run_wf (h : run (Async.step regcomp regexec) (.start core) es = .ok s) : s.Wf :=
  run_invariant (fun _ _ _ ht hstep => step_wf ht hstep) (start_wf core) h

/-! ## Requests -/

theorem test_goes (hat : s.thread = .outer) (hrun : s.running = true) :
    s.step regcomp regexec .test = .ok { s with thread := .locking } := by
  simp only [Async.step, hat, hrun, if_pos]

theorem lock_takes (hat : s.thread = .locking) (hrun : s.running = true)
    (hdo : s.refreshDo = true) :
    s.step regcomp regexec .lock = .ok { s with refreshDo := false, thread := .taken } := by
  simp only [Async.step, hat, hrun, hdo, if_pos, Bool.not_true, Bool.false_and,
    Bool.false_eq_true, if_false]

/-- A thread with a request is about to refresh, or gets there by at most two steps of
its own. -/
theorem pending_served (hwf : s.Wf) (hok : s.asyncInitOk = true) (hrun : s.running = true)
    (hdo : s.refreshDo = true) :
    s.thread = .taken ∨ ∃ steps : List AsyncEvent, steps.length ≤ 2 ∧
      (∀ e ∈ steps, e = .test ∨ e = .lock) ∧
      run (Async.step regcomp regexec) s steps =
        .ok { s with refreshDo := false, thread := .taken } := by
  cases hthread : s.thread with
  | none => exact absurd (hok.symm.trans (hwf.none.mp hthread)) Bool.noConfusion
  | asleep => exact absurd (hdo.symm.trans (hwf.asleep hthread).1) Bool.noConfusion
  | exited => exact absurd (hrun.symm.trans (hwf.exited hthread)) Bool.noConfusion
  | taken => exact .inl rfl
  | locking =>
      refine .inr ⟨[.lock], by decide, fun e he => .inr (List.mem_singleton.mp he), ?_⟩
      exact run_cons_eq_ok.mpr ⟨_, lock_takes hthread hrun hdo, rfl⟩
  | outer =>
      refine .inr ⟨[.test, .lock], by decide, fun e he => ?_, ?_⟩
      · rcases List.mem_cons.mp he with rfl | he
        · exact .inl rfl
        · exact .inr (List.mem_singleton.mp he)
      · exact run_cons_eq_ok.mpr ⟨_, test_goes hthread hrun,
          run_cons_eq_ok.mpr ⟨_, lock_takes rfl hrun hdo, rfl⟩⟩

/-- A request is not lost: the thread that it was made for is about to refresh, or gets
there by at most two steps of its own. -/
theorem request_served (h : run (Async.step regcomp regexec) (.start core) es = .ok s)
    (hok : s.asyncInitOk = true) (hrun : s.running = true) (hdo : s.refreshDo = true) :
    s.thread = .taken ∨ ∃ steps : List AsyncEvent, steps.length ≤ 2 ∧
      (∀ e ∈ steps, e = .test ∨ e = .lock) ∧
      run (Async.step regcomp regexec) s steps =
        .ok { s with refreshDo := false, thread := .taken } :=
  pending_served (run_wf h) hok hrun hdo

/-- An asynchronous request -/
def AsyncEvent.isRequest : AsyncEvent → Bool
  | .request => true
  | _ => false

/-- A refresh by the thread -/
def AsyncEvent.isRefresh : AsyncEvent → Bool
  | .refresh _ => true
  | _ => false

/-- The refreshes that are still to come -/
def Async.owed (s : Async Re) : Nat := s.refreshDo.toNat + (decide (s.thread = .taken)).toNat

theorem signal_eq_taken (thread : Thread) : thread.signal = .taken ↔ thread = .taken := by
  cases thread with
  | asleep => exact ⟨fun h => Thread.noConfusion h, fun h => Thread.noConfusion h⟩
  | _ => exact Iff.rfl

/-- A step that is no request changes what is owed by the refresh that it is. -/
theorem step_owed_eq (hwf : s.Wf) (hno : e.isRequest = false)
    (h : s.step regcomp regexec e = .ok s') : s'.owed + e.isRefresh.toNat = s.owed := by
  -- the thread was somewhere else than before a refresh, and still is
  have haway : ∀ (t : Async Re) {thread : Thread}, t.refreshDo = s.refreshDo →
      t.thread ≠ .taken → s.thread = thread → thread ≠ .taken → t.owed = s.owed := by
    intro t thread hdo hthread hat hne
    rw [Async.owed, Async.owed, hdo, decide_eq_false hthread, hat, decide_eq_false hne]
  cases Async.step_cases h with
  | call hno hcore => rfl
  | initAgain hagain => rfl
  | initCreated hfirst =>
      have hoff : s.asyncInitOk = false := by
        refine Bool.eq_false_iff.mpr fun hok => ?_
        cases hfirst.symm.trans (hwf.inited hok).2
      exact haway _ rfl Thread.noConfusion (hwf.none.mpr hoff) Thread.noConfusion
  | initFailed hfirst => rfl
  | request hok => cases hno
  | goes hat hrun => exact haway _ rfl Thread.noConfusion hat Thread.noConfusion
  | leaves hat hrun => exact haway _ rfl Thread.noConfusion hat Thread.noConfusion
  | sleeps hat hdo hrun => exact haway _ rfl Thread.noConfusion hat Thread.noConfusion
  | ends hat hrun => exact haway _ rfl Thread.noConfusion hat Thread.noConfusion
  | takes hat hdo hrun =>
      simp only [Async.owed, hdo, hat]
      decide
  | wakes hat => exact haway _ rfl Thread.noConfusion hat Thread.noConfusion
  | refreshes hat hdone =>
      simp only [Async.owed, hat]
      rfl
  | stops hok =>
      simp only [Async.owed, signal_eq_taken]
      rfl
  | clears hjoined =>
      cases hok : s.asyncInitOk with
      | true => exact haway _ rfl Thread.noConfusion (hjoined hok) Thread.noConfusion
      | false => exact haway _ rfl Thread.noConfusion (hwf.none.mpr hok) Thread.noConfusion

/-- A request owes one refresh more at most. -/
theorem step_owed (hwf : s.Wf) (h : s.step regcomp regexec e = .ok s') :
    s'.owed + e.isRefresh.toNat ≤ s.owed + e.isRequest.toNat := by
  cases hreq : e.isRequest with
  | false => exact Nat.le_of_eq (step_owed_eq hwf hreq h)
  | true =>
      cases Async.step_cases h with
      | request hok =>
          simp only [Async.owed, signal_eq_taken, AsyncEvent.isRefresh, Bool.toNat_true,
            Bool.toNat_false]
          omega
      | _ => cases hreq

theorem countP_cons_toNat (p : AsyncEvent → Bool) (e : AsyncEvent) (es : List AsyncEvent) :
    (e :: es).countP p = es.countP p + (p e).toNat := by
  rw [List.countP_cons]
  cases p e <;> rfl

theorem run_owed (hwf : s.Wf) (h : run (Async.step regcomp regexec) s es = .ok s') :
    s'.owed + es.countP AsyncEvent.isRefresh ≤ s.owed + es.countP AsyncEvent.isRequest := by
  induction es generalizing s with
  | nil =>
      cases h
      exact Nat.le_refl _
  | cons e es ih =>
      obtain ⟨t, hstep, htail⟩ := run_cons_eq_ok.mp h
      have hhead := step_owed hwf hstep
      have hrest := ih (step_wf hwf hstep) htail
      rw [countP_cons_toNat, countP_cons_toNat]
      omega

/-- Without a request what is owed is there, or it was paid. -/
theorem run_owed_eq (hwf : s.Wf) (hno : ∀ e ∈ es, e.isRequest = false)
    (h : run (Async.step regcomp regexec) s es = .ok s') :
    s'.owed + es.countP AsyncEvent.isRefresh = s.owed := by
  induction es generalizing s with
  | nil =>
      cases h
      rfl
  | cons e es ih =>
      obtain ⟨t, hstep, htail⟩ := run_cons_eq_ok.mp h
      have hhead := step_owed_eq hwf (hno e List.mem_cons_self) hstep
      have hrest := ih (step_wf hwf hstep) (fun e' he' => hno e' (List.mem_cons_of_mem _ he')) htail
      rw [countP_cons_toNat]
      omega

/-- The thread does not refresh more often than it is asked. -/
theorem refreshes_le_requests (h : run (Async.step regcomp regexec) (.start core) es = .ok s) :
    es.countP AsyncEvent.isRefresh ≤ es.countP AsyncEvent.isRequest := by
  have howed := run_owed (start_wf core) h
  have hstart : (Async.start core).owed = 0 := rfl
  omega

/-- Where a thread is at a refresh, was there, or gets there by at most two steps of its
own -/
def Async.Refreshes (regcomp : List Char → Option Re) (regexec : Re → List Char → Bool)
    (es : List AsyncEvent) (s : Async Re) : Prop :=
  (∃ e ∈ es, e.isRefresh = true) ∨ ∃ (steps : List AsyncEvent) (s' : Async Re),
    steps.length ≤ 2 ∧ (∀ e ∈ steps, e = .test ∨ e = .lock) ∧
      run (Async.step regcomp regexec) s steps = .ok s' ∧ s'.thread = .taken

/-- What a thread does that is created after `xh_core_clear`, as long as nothing is
requested: it refreshes exactly where a request was left. -/
theorem restarted_refreshes_iff {past : List AsyncEvent} {s₁ s₂ : Async Re}
    (hpast : run (Async.step regcomp regexec) (.start core) past = .ok s)
    (hclear : s.step regcomp regexec .clear = .ok s₁)
    (hrun : run (Async.step regcomp regexec) s₁ es = .ok s₂)
    (hno : ∀ e ∈ es, e.isRequest = false) (hok : s₂.asyncInitOk = true)
    (hrunning : s₂.running = true) :
    s₂.Refreshes regcomp regexec es ↔ s.refreshDo = true := by
  have hwf₁ : s₁.Wf := step_wf (run_wf hpast) hclear
  have hwf₂ : s₂.Wf := run_invariant (fun _ _ _ ht hstep => step_wf ht hstep) hwf₁ hrun
  have howed : s₂.owed + es.countP AsyncEvent.isRefresh = s.refreshDo.toNat := by
    rw [run_owed_eq hwf₁ hno hrun]
    cases Async.step_cases hclear
    rfl
  have hflag := Bool.toNat_le s.refreshDo
  constructor
  · rintro (⟨e, he, hrefresh⟩ | ⟨steps, s₃, -, hown, hsteps, htaken⟩)
    · have hpos : 0 < es.countP AsyncEvent.isRefresh := List.countP_pos_iff.mpr ⟨e, he, hrefresh⟩
      exact Bool.toNat_eq_one.mp (by omega)
    · have hown' : ∀ e ∈ steps, e.isRequest = false := fun e he => by
        rcases hown e he with rfl | rfl <;> rfl
      have hlast := run_owed_eq hwf₂ hown' hsteps
      have hone : 1 ≤ s₃.owed := by
        rw [Async.owed, htaken]
        exact Nat.le_add_left 1 _
      exact Bool.toNat_eq_one.mp (by omega)
  · intro hleft
    rw [hleft] at howed
    rcases Nat.eq_zero_or_pos (es.countP AsyncEvent.isRefresh) with hnone | hpos
    · refine .inr ?_
      by_cases htaken : s₂.thread = .taken
      · exact ⟨[], s₂, Nat.zero_le _, fun _ he => absurd he List.not_mem_nil, rfl, htaken⟩
      · have hdo : s₂.refreshDo = true := by
          rw [hnone, Async.owed, decide_eq_false htaken] at howed
          exact Bool.toNat_eq_one.mp howed
        obtain ⟨steps, hlen, hown, hsteps⟩ :=
          (pending_served hwf₂ hok hrunning hdo).resolve_left htaken
        exact ⟨steps, _, hlen, hown, hsteps, rfl⟩
    · exact .inl (List.countP_pos_iff.mp hpos)

/-! ## The slots -/

variable {origin : CStr → BitVec 64}

/-- What `core_reaches` needs of the refreshes, and of the process. -/
def Async.Guarded (regexec : Re → List Char → Bool) (origin : CStr → BitVec 64) (s : Async Re) :
    AsyncEvent → Prop
  | .call e => s.core.Guarded regexec origin e
  | .refresh os => s.core.Guarded regexec origin (.refresh os)
  | _ => True

/-- A refresh by the thread is one of the library. -/
theorem Core.refresh_eq (hcore : core.inited = true) :
    core.refresh regexec os = core.refreshImpl regexec os := by
  obtain ⟨inited, hooks, ignores, mis, m⟩ := core
  cases hcore
  rfl

/-- The library was started before. -/
theorem Core.Keeps.started (h : core.Keeps origin) :
    ({ core with inited := true } : Core Re).Keeps origin :=
  ⟨fun hno => Bool.noConfusion hno, h.led⟩

theorem async_step_keeps (hwf : s.Wf) (h : s.core.Keeps origin)
    (hguard : s.Guarded regexec origin e) (hstep : s.step regcomp regexec e = .ok s') :
    s'.core.Keeps origin := by
  cases Async.step_cases hstep with
  | call hno hcore => exact step_keeps h hguard hcore
  | initAgain hagain => exact h.started
  | initCreated hfirst => exact h.started
  | initFailed hfirst => exact h.started
  | refreshes hat hdone =>
      have hthread : s.thread ≠ .none := fun hno => Thread.noConfusion (hat.symm.trans hno)
      rw [← Core.refresh_eq (hwf.inited (hwf.initOk hthread)).1] at hdone
      exact refresh_keeps h hguard hdone
  | clears hjoined => exact clear_keeps
  | _ => exact h

/-- In any order of calls, steps of the thread and the process running, the slots of the
known libraries lead to the functions of their symbols. -/
theorem async_reaches (hstart : core.mapInfo = [])
    (hguard : ∀ past e post, es = past ++ e :: post →
      ∀ t, run (Async.step regcomp regexec) (.start core) past = .ok t →
        t.Guarded regexec origin e)
    (h : run (Async.step regcomp regexec) (.start core) es = .ok s) :
    ∀ mi ∈ s.core.mapInfo, ∀ hi ∈ s.core.hookInfo, mi.OneJumpSlot s.core.mem hi.symbol →
      ∀ a ∈ mi.slots s.core.mem hi.symbol, Reaches (savedOf s.core.hookInfo s.core.mem)
        (ptrOf s.core.hookInfo (read64 s.core.mem a.toNat)) (origin hi.symbol) := by
  have hkeeps : core.Keeps origin := ⟨fun _ => hstart, by rw [hstart]; exact .none core⟩
  obtain ⟨-, hlast⟩ := run_invariant_guarded
    (P := fun t : Async Re => t.Wf ∧ t.core.Keeps origin)
    (fun t e t' ht hg hstep => ⟨step_wf ht.1 hstep, async_step_keeps ht.1 ht.2 hg hstep⟩)
    ⟨start_wf core, hkeeps⟩ hguard h
  obtain ⟨done, hrec, hled⟩ := hlast.led
  intro mi hmi hi hhi hone a ha
  rw [hone.slots_eq] at ha
  exact (hled mi hmi hi hhi a ha).reaches hrec

end

/-! ## The library with one import -/

/-- A request meets the thread asleep. -/
def wakingEvents : List AsyncEvent := [.initAsync true, .test, .lock, .request]

theorem request_served_asleep :
    ∃ s, run (Async.step some contains) (.start importCore) wakingEvents = .ok s ∧
      s.thread ≠ .taken ∧ ∃ steps : List AsyncEvent, steps.length ≤ 2 ∧
        (∀ e ∈ steps, e = .test ∨ e = .lock) ∧
        run (Async.step some contains) s steps =
          .ok { s with refreshDo := false, thread := .taken } := by
  obtain ⟨s, hrun, hok, hrunning, hdo, hthread⟩ : ∃ s,
      run (Async.step some contains) (.start importCore) wakingEvents = .ok s ∧
        s.asyncInitOk = true ∧ s.running = true ∧ s.refreshDo = true ∧ s.thread = .locking :=
    ⟨_, rfl, rfl, rfl, rfl, rfl⟩
  have hnot : s.thread ≠ .taken := fun h => Thread.noConfusion (hthread.symm.trans h)
  exact ⟨s, hrun, hnot, (request_served hrun hok hrunning hdo).resolve_left hnot⟩

/-- The function is registered, and the thread refreshes the library. -/
def threadEvents : List AsyncEvent :=
  [.call (.register (some ['l', 'i', 'b']) (some importName) 0x30000 (some 0x20000)),
    .initAsync true, .request, .test, .lock, .refresh importOs]

theorem refreshes_le_requests_one :
    threadEvents.countP AsyncEvent.isRefresh = 1 ∧
      threadEvents.countP AsyncEvent.isRefresh ≤ threadEvents.countP AsyncEvent.isRequest := by
  obtain ⟨s, hrun⟩ : ∃ s, run (Async.step some contains)
      (.start { importCore with hookInfo := [] }) threadEvents = .ok s := by
    cases hrun : run (Async.step some contains) (.start { importCore with hookInfo := [] })
        threadEvents with
    | ok s => exact ⟨s, rfl⟩
    | error u =>
        have hcheck : (run (Async.step some contains) (.start { importCore with hookInfo := [] })
          threadEvents).isOk = true := by decide +kernel
        rw [hrun] at hcheck
        cases hcheck
  exact ⟨rfl, refreshes_le_requests hrun⟩

/-- The library is cleared before the thread met the request. -/
def leftEvents : List AsyncEvent := [.initAsync true, .request, .stop, .test]

/-- A hook is registered anew and the library refreshed by a call before the next thread
is created. -/
def restartEvents : List AsyncEvent :=
  [.call (.register (some ['l', 'i', 'b']) (some importName) 0x30000 (some 0x20000)),
    .initAsync true, .call (.refresh ⟨none, fun _ _ => none⟩)]

theorem restarted_refreshes_iff_left :
    ∃ s s₁ s₂, run (Async.step some contains) (.start importCore) leftEvents = .ok s ∧
      s.step some contains .clear = .ok s₁ ∧
      run (Async.step some contains) s₁ restartEvents = .ok s₂ ∧
      s₂.Refreshes some contains restartEvents := by
  obtain ⟨s, s₁, s₂, hpast, hclear, hrun, hdo, hok, hrunning⟩ : ∃ s s₁ s₂,
      run (Async.step some contains) (.start importCore) leftEvents = .ok s ∧
      s.step some contains .clear = .ok s₁ ∧
      run (Async.step some contains) s₁ restartEvents = .ok s₂ ∧
      s.refreshDo = true ∧ s₂.asyncInitOk = true ∧ s₂.running = true :=
    ⟨_, _, _, rfl, rfl, rfl, rfl, rfl, rfl⟩
  have hno : ∀ e ∈ restartEvents, e.isRequest = false := by
    simp [restartEvents, AsyncEvent.isRequest]
  exact ⟨s, s₁, s₂, hpast, hclear, hrun,
    (restarted_refreshes_iff hpast hclear hrun hno hok hrunning).mpr hdo⟩

theorem async_reaches_import : ∃ s, run (Async.step some contains)
      (.start { importCore with hookInfo := [] }) threadEvents = .ok s ∧
    s.core.mapInfo = [importMap] ∧
    Reaches (savedOf s.core.hookInfo s.core.mem)
      (ptrOf s.core.hookInfo (read64 s.core.mem (0x10280 : BitVec 64).toNat)) 0x7000 := by
  have hcheck : (match run (Async.step some contains) (.start { importCore with hookInfo := [] })
      threadEvents with
    | .ok s => decide (s.core.mapInfo = [importMap] ∧
        (∃ h ∈ s.core.hookInfo, h.symbol = importName) ∧ ImportIn s.core.mem)
    | .error _ => false) = true := by decide +kernel
  have hguard : ∀ past e post, threadEvents = past ++ e :: post →
      ∀ t, run (Async.step some contains) (.start { importCore with hookInfo := [] }) past =
        .ok t → t.Guarded contains (fun _ => 0x7000) e := by
    intro past e post hsplit t ht
    rcases past with _ | ⟨e₁, _ | ⟨e₂, _ | ⟨e₃, _ | ⟨e₄, _ | ⟨e₅, _ | ⟨e₆, past⟩⟩⟩⟩⟩⟩
    · cases hsplit
      trivial
    · cases hsplit
      trivial
    · cases hsplit
      trivial
    · cases hsplit
      trivial
    · cases hsplit
      trivial
    · cases hsplit
      cases ht
      rintro lines ⟨⟩
      refine ⟨InImage, importCore_ready.started, fun mi hmi _ h hh s hs => ?_⟩
      cases List.mem_singleton.mp (importCore_met ▸ hmi)
      cases List.mem_singleton.mp hh
      cases List.mem_singleton.mp (importMap_hookedSlots ▸ hs)
      exact ⟨by decide +kernel, by decide⟩
    · have hlen := congrArg List.length hsplit
      have hsix : threadEvents.length = 6 := rfl
      simp only [List.cons_append, List.length_cons, List.length_append] at hlen
      omega
  cases hrun : run (Async.step some contains) (.start { importCore with hookInfo := [] })
      threadEvents with
  | error e => rw [hrun] at hcheck; cases hcheck
  | ok s =>
      rw [hrun] at hcheck
      obtain ⟨hmap, ⟨h, hh, hname⟩, hinit, hfind, hone, hslot⟩ := of_decide_eq_true hcheck
      exact ⟨s, rfl, hmap, async_reaches rfl hguard hrun importMap
        (hmap ▸ List.mem_cons_self) h hh
        (hname ▸ MapInfo.oneJumpSlot_of_init hinit hfind hone) 0x10280 (hname ▸ hslot)⟩

end XHook
