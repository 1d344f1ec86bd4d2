import AndroidAnalysis.HookLibc.Hooks

/-!
# What no hook matches

A call on a path that no registered expression matches, or on a handle that is
not in `g_hook`, is to go to the function of its own name and to leave what the
hooks keep.  It does but for `popen` and `pclose`, which go to `fopen` and
`fclose`, and for an `open` whose caller gives a mode where the flags have no
`O_CREAT`, which goes on without the mode.
-/

namespace HookLibc

open Cpp Machine Calls

/-- The path or the command that a call is matched by. -/
def LibcCall.name : LibcCall → Option Str
  | .fopen path _ | .open path _ _ | .lstat path _ | .stat path _ | .rename path _
  | .access path _ => some path
  | .popen command _ => some command
  | _ => none

/-- A call on nothing that is hooked. -/
structure Unmatched {U : UserFilters} (regexec : Str → Str → Bool) (st : Hooks U) (c : LibcCall) :
    Prop where
  name : ∀ name, c.name = some name → ∀ item ∈ st.hookFileList,
    regexec item.2.regPath name = false
  handle : ∀ h, c.handle = some h → st.gHook h = none

/-- A call that is passed on as it is. -/
def LibcCall.PassedOn : LibcCall → Prop
  | .popen .. | .pclose .. => False
  | .open _ flag mode => mode.isSome = creates flag
  | _ => True

section
variable {U : UserFilters} {b : Build} {regexec : Str → Str → Bool} {st : Hooks U}
  {memory : IntMemory}

/-! ## The lookups -/

theorem openHooked_of_unmatched {name : Str} (method : Method Handle) (failed : Handle)
    {otherwise : Prog Handle}
    (h : ∀ item ∈ st.hookFileList, regexec item.2.regPath name = false) :
    openHooked b regexec st name method failed otherwise =
      (otherwise >>= fun fp => .ret (st, fp)) := by
  rw [openHooked, checkAndCreateHandle_of_unmatched h]

theorem onPath_of_unmatched {α : Type} {name : Str} (method : Method α) {otherwise : Prog α}
    (h : ∀ item ∈ st.hookFileList, regexec item.2.regPath name = false) :
    onPath b regexec st name method otherwise = (otherwise >>= fun a => .ret (st, a)) := by
  rw [onPath, checkAndCreateHandle_of_unmatched h]

theorem onHooked_of_unmatched {α : Type} {handle : Handle} (method : Method α)
    {otherwise : Prog α} (h : st.gHook handle = none) :
    onHooked b st handle method otherwise = (otherwise >>= fun a => .ret (st, a)) := by
  rw [onHooked, Hooks.getHookHandle, h]

theorem closeHooked_of_unmatched {handle : Handle} (method : Method Int) {otherwise : Prog Int}
    (h : st.gHook handle = none) :
    closeHooked b st handle method otherwise = (otherwise >>= fun a => .ret (st, a)) := by
  rw [closeHooked, Hooks.getHookHandle, h]

/-! ## The calls -/

theorem hookIo_of_unmatched {h : Handle} (hh : st.gHook h = none) (c : IoCall) :
    hookIo b st h c = .call (.io h c) fun a => .ret (st, a) := by
  cases c with
  | fread buffer size count => rw [hookIo, hookFread, onHooked_of_unmatched _ hh]; rfl
  | fwrite buffer size count owned => rw [hookIo, hookFwrite, onHooked_of_unmatched _ hh]; rfl
  | fgets buffer maxCount => rw [hookIo, hookFgets, onHooked_of_unmatched _ hh]; rfl
  | fputs s => rw [hookIo, hookFputs, onHooked_of_unmatched _ hh]; rfl
  | fseek offset whence => rw [hookIo, hookFseek, onHooked_of_unmatched _ hh]; rfl
  | ftell => rw [hookIo, hookFtell, onHooked_of_unmatched _ hh]; rfl
  | rewind => rw [hookIo, hookRewind, onHooked_of_unmatched _ hh]; rfl
  | read buffer nbytes => rw [hookIo, hookRead, onHooked_of_unmatched _ hh]; rfl
  | pread buffer count offset => rw [hookIo, hookPread, onHooked_of_unmatched _ hh]; rfl
  | write buffer count owned => rw [hookIo, hookWrite, onHooked_of_unmatched _ hh]; rfl
  | pwrite buffer count offset owned => rw [hookIo, hookPwrite, onHooked_of_unmatched _ hh]; rfl

theorem hookOpen_of_unmatched_iff {path : Str} {flag : Int} {mode : Option Nat}
    (h : ∀ item ∈ st.hookFileList, regexec item.2.regPath path = false) :
    hookOpen b regexec st memory path flag mode =
        .call (.open path flag mode) (fun a => .ret (st, a)) ↔ mode.isSome = creates flag := by
  rw [hookOpen, openMode.eq_def]
  cases hcreates : creates flag with
  | true =>
      cases mode with
      | none => exact iff_of_false nofun nofun
      | some mode =>
          refine iff_of_true ?_ rfl
          rw [if_pos rfl, ofExcept_ok, ret_bind, if_pos rfl, openHooked_of_unmatched _ _ h]
          rfl
  | false =>
      rw [if_neg Bool.false_ne_true, ofExcept_ok, ret_bind, if_neg Bool.false_ne_true,
        openHooked_of_unmatched _ _ h]
      cases mode with
      | none => exact iff_of_true rfl rfl
      | some mode =>
          refine iff_of_false (call_ne_call fun heq => ?_) nofun
          injection heq with _ _ hmode
          exact nomatch hmode

/-- For all that the hooks keep and every call that they do not match, the hook
makes this one call, returns its result and keeps all as it was, exactly when the
call is not `popen` or `pclose`, nor an `open` that has a mode without `O_CREAT` or
`O_CREAT` without a mode. -/
theorem hook_eq_call_iff {c : LibcCall} (h : Unmatched regexec st c) :
    hook b regexec st memory c = .call c (fun a => .ret (st, a)) ↔ c.PassedOn := by
  cases c with
  | io fp c => exact iff_of_true (hookIo_of_unmatched (h.handle fp rfl) c) trivial
  | fstat fd buf =>
      refine iff_of_true ?_ trivial
      rw [hook, hookFstat, onHooked_of_unmatched _ (h.handle fd rfl)]
      rfl
  | fclose fp =>
      refine iff_of_true ?_ trivial
      rw [hook, hookFclose, closeHooked_of_unmatched _ (h.handle fp rfl)]
      rfl
  | pclose fp =>
      refine iff_of_false ?_ id
      rw [hook, hookPclose, closeHooked_of_unmatched _ (h.handle fp rfl)]
      exact call_ne_call nofun
  | close fd =>
      refine iff_of_true ?_ trivial
      rw [hook, hookClose, closeHooked_of_unmatched _ (h.handle fd rfl)]
      rfl
  | fopen path mode =>
      refine iff_of_true ?_ trivial
      rw [hook, hookFopen, openHooked_of_unmatched _ _ (h.name path rfl)]
      rfl
  | popen command mode =>
      refine iff_of_false ?_ id
      rw [hook, hookPopen, openHooked_of_unmatched _ _ (h.name command rfl)]
      exact call_ne_call nofun
  | «open» path flag mode => exact hookOpen_of_unmatched_iff (h.name path rfl)
  | lstat file buf =>
      refine iff_of_true ?_ trivial
      rw [hook, hookLstat, onPath_of_unmatched _ (h.name file rfl)]
      rfl
  | stat pathname buf =>
      refine iff_of_true ?_ trivial
      rw [hook, hookStat, onPath_of_unmatched _ (h.name pathname rfl)]
      rfl
  | rename oldPath newPath =>
      refine iff_of_true ?_ trivial
      rw [hook, hookRename, onPath_of_unmatched _ (h.name oldPath rfl)]
      rfl
  | access pathname mode =>
      refine iff_of_true ?_ trivial
      rw [hook, hookAccess, onPath_of_unmatched _ (h.name pathname rfl)]
      rfl

end

/-- No classes but those of the library. -/
def noUserFilters : UserFilters := ⟨Empty, fun _ => Unit, Empty.rec⟩

/-- Nothing is registered or open. -/
def Hooks.fresh : Hooks noUserFilters := ⟨[], StdMap.empty⟩

theorem unmatched_fresh (regexec : Str → Str → Bool) (c : LibcCall) :
    Unmatched regexec Hooks.fresh c :=
  ⟨fun _ _ _ hitem => absurd hitem List.not_mem_nil, fun _ _ => rfl⟩

/-- Where nothing is registered, `access` goes to `access`. -/
theorem hook_access_fresh :
    hook .arm64 (fun _ _ => true) Hooks.fresh (fun _ => none) (.access "/sbin".toList 0) =
      .call (.access "/sbin".toList 0) fun a => .ret (Hooks.fresh, a) :=
  (hook_eq_call_iff (unmatched_fresh _ _)).mpr trivial

/-- Where nothing is registered, `popen` of a command opens a file of that name. -/
theorem hook_popen_fresh :
    Unmatched (fun _ _ => true) Hooks.fresh (.popen "ls".toList "r".toList) ∧
      hook .arm64 (fun _ _ => true) Hooks.fresh (fun _ => none) (.popen "ls".toList "r".toList) =
        .call (.fopen "ls".toList "r".toList) (fun fp => .ret (Hooks.fresh, fp)) ∧
      hook .arm64 (fun _ _ => true) Hooks.fresh (fun _ => none) (.popen "ls".toList "r".toList) ≠
        .call (.popen "ls".toList "r".toList) (fun fp => .ret (Hooks.fresh, fp)) :=
  ⟨unmatched_fresh _ _, rfl, call_ne_call nofun⟩

end HookLibc
