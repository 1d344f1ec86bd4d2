import AndroidAnalysis.HookLibc.Hooks
import AndroidAnalysis.HookLibc.InBounds
import AndroidAnalysis.HookLibc.MemoryFileAnswers
import AndroidAnalysis.HookLibc.Unmatched

/-!
# The handles of `memory_file`s

A `memory_file` is opened under its own address, or under a number of `require_fd`,
and no function of the C library is to get such a handle.  The hooks keep it from
them as long as every call on the handle is answered by the file.
-/

namespace HookLibc

open Cpp Machine Calls

/-- A call that opens a file. -/
inductive OpenCall
  | fopen (path mode : Str)
  | popen (command mode : Str)
  | open (path : Str) (flag : Int) (mode : Option Nat)

namespace OpenCall

/-- What the call is matched by. -/
def name : OpenCall → Str
  | .fopen path _ | .open path _ _ => path
  | .popen command _ => command

/-- The result that makes no entry. -/
def failed : OpenCall → Handle
  | .fopen .. | .popen .. => 0
  | .open .. => -1

/-- The hook of the call. -/
def hooked {U : UserFilters} (b : Build) (regexec : Str → Str → Bool) (memory : IntMemory)
    (st : Hooks U) : OpenCall → Prog (Hooks U × Handle)
  | .fopen path mode => hookFopen b regexec st path mode
  | .popen command mode => hookPopen b regexec st command mode
  | .open path flag mode => hookOpen b regexec st memory path flag mode

end OpenCall

/-- A call on a handle. -/
inductive HandleCall
  | io (c : IoCall)
  | fstat (buf : Stat)
  | fclose
  | pclose
  | close

namespace HandleCall

/-- The call, with its handle. -/
def on (h : Handle) : HandleCall → LibcCall
  | .io c => .io h c
  | .fstat buf => .fstat h buf
  | .fclose => .fclose h
  | .pclose => .pclose h
  | .close => .close h

/-- The `memory_file` that its callbacks leave. -/
def after (b : Build) (m : MemoryFile) : HandleCall → Except Fault MemoryFile
  | .io c => m.after b c
  | .fstat _ | .fclose | .pclose | .close => .ok m

/-- A call that a `memory_file` answers. -/
def Answered (b : Build) (m : MemoryFile) : HandleCall → Prop
  | .io c => m.Answers b c
  | .fstat _ => True
  | .fclose | .pclose | .close => False

end HandleCall

/-- No function of the C library gets the handle. -/
def notOn (h : Handle) : Contract LibcCall.Answer Fault where
  calls c := c.handle ≠ some h
  answers _ _ := True
  faults _ := True

section
variable {U : UserFilters} (b : Build) (regexec : Str → Str → Bool) (memory : IntMemory)

/-- A hooked call, by what it leaves of what the hooks keep. -/
def hookStep (st : Hooks U) (c : LibcCall) : Prog (Hooks U) := do
  let r ← hook b regexec st memory c
  .ret r.1

/-- A file is opened, and calls are made on its handle. -/
def opened (st : Hooks U) (call : OpenCall) (calls : List HandleCall) : Prog (Hooks U) := do
  let r ← call.hooked b regexec memory st
  Calls.run (fun st c => hookStep b regexec memory st (HandleCall.on r.2 c)) r.1 calls

variable {b regexec memory} {st st' : Hooks U} {h : Handle} {m : MemoryFile}

/-! ## Opening -/

/-- A method that returns a handle without a call gets the entry of its file. -/
theorem openHooked_entry {name : Str} {method : Method Handle} {failed : Handle}
    {otherwise : Prog Handle} {list : HookFileList U} {p : BaseHookHandle U}
    (hmatch : checkAndCreateHandle regexec name st.hookFileList = (list, some p))
    (hp : p.callBack = ⟨.memoryFile, m⟩) {x : Except Fault Handle}
    (hmethod : method _ (memoryFile b) m = (ofExcept x >>= fun h => .ret (m, h)))
    (hopened : openHooked b regexec st name method failed otherwise = .ret (st', h))
    (hvalid : h ≠ failed) (hfresh : st.gHook h = none) : st'.gHook h = some p := by
  obtain ⟨index, path, callBack⟩ := p
  cases hp
  rw [openHooked, hmatch] at hopened
  have hopened : (method _ (memoryFile b) m >>= fun opened =>
      .ret (if opened.2 = failed then { st with hookFileList := list }
        else ({ st with hookFileList := list } : Hooks U).insertHookHandle opened.2
          ⟨index, path, ⟨.memoryFile, opened.1⟩⟩, opened.2) : Prog (Hooks U × Handle)) =
      .ret (st', h) := hopened
  rw [hmethod] at hopened
  cases x with
  | error e => cases hopened
  | ok handle =>
      cases hopened
      rw [if_neg hvalid]
      show (st.gHook.insert handle _) handle = _
      rw [StdMap.insert_apply, hfresh, if_pos rfl]
      rfl

/-- A `memory_file` that has been opened is in the table. -/
theorem OpenCall.entry {call : OpenCall} {list : HookFileList U} {p : BaseHookHandle U}
    (hmatch : checkAndCreateHandle regexec call.name st.hookFileList = (list, some p))
    (hp : p.callBack = ⟨.memoryFile, m⟩)
    (hopened : call.hooked b regexec memory st = .ret (st', h))
    (hvalid : h ≠ call.failed) (hfresh : st.gHook h = none) : st'.gHook h = some p := by
  cases call with
  | fopen path mode =>
      rw [hooked, hookFopen] at hopened
      exact openHooked_entry (x := .ok m.this) hmatch hp (by rfl) hopened hvalid hfresh
  | popen command mode =>
      rw [hooked, hookPopen] at hopened
      exact openHooked_entry (x := .ok m.this) hmatch hp (by rfl) hopened hvalid hfresh
  | «open» path flag mode =>
      rw [hooked, hookOpen] at hopened
      cases hmode : openMode flag mode with
      | error e =>
          rw [hmode] at hopened
          cases hopened
      | ok mode =>
          rw [hmode, ofExcept_ok, ret_bind] at hopened
          exact openHooked_entry (x := FileHook.openResult b memory m.fd) hmatch hp (by rfl)
            hopened hvalid hfresh

/-! ## Calls -/

/-- The file under the handle. -/
def Holds (h : Handle) (st : Hooks U) (m : MemoryFile) : Prop :=
  0 ≤ m.alllen ∧ ∃ p, st.gHook h = some p ∧ p.callBack = ⟨.memoryFile, m⟩

theorem hookIo_eq (c : IoCall) :
    hookIo b st h c = onHooked b st h (fun _ F s => FileHook.io b F s h c) (libc (.io h c)) := by
  cases c with
  | fread | fwrite | fgets | fputs | fseek | ftell | rewind | read | pread | write | pwrite => rfl

/-- A hook on the handle is the method of the file. -/
theorem onHooked_eq {α : Type} {method : Method α} {otherwise : Prog α} {p : BaseHookHandle U}
    (hentry : st.gHook h = some p) (hp : p.callBack = ⟨.memoryFile, m⟩) :
    onHooked b st h method otherwise = (method _ (memoryFile b) m >>= fun r =>
      .ret (st.setCallBack h p ⟨.memoryFile, r.1⟩, r.2)) := by
  obtain ⟨index, path, callBack⟩ := p
  cases hp
  rw [onHooked, Hooks.getHookHandle, hentry]
  rfl

theorem holds_setCallBack {p : BaseHookHandle U} {m' : MemoryFile} (halllen : 0 ≤ m'.alllen) :
    Holds h (st.setCallBack h p ⟨.memoryFile, m'⟩) m' :=
  ⟨halllen, _, Function.update_self .., rfl⟩

/-- A closing hook passes the handle on. -/
theorem closeHooked_calls (method : Method Int) (otherwise : Prog Int) {c : LibcCall}
    (hc : c.handle = some h) {k : c.Answer → Prog (MemoryFile × Int)}
    (hmethod : method _ (memoryFile b) m = .call c k) (hst : Holds h st m) :
    ¬ (closeHooked b st h method otherwise >>= fun r => .ret r.1).Meets (notOn h)
      fun _ => True := by
  obtain ⟨-, ⟨index, path, callBack⟩, hentry, hp⟩ := hst
  cases hp
  rw [closeHooked, Hooks.getHookHandle, hentry]
  show ¬ ((method _ (memoryFile b) m >>= fun _ => ofExcept (st.removeHookHandle h) >>= fun st =>
    .ret (st, (0 : Int))) >>= fun r => .ret r.1 : Prog (Hooks U)).Meets (notOn h) fun _ => True
  rw [hmethod]
  exact fun hmeets => hmeets.1 hc

/-- A call on the handle is answered by the file, or goes on with the handle. -/
theorem hookStep_follows : Follows (notOn h) (Holds h) (fun m c => c.Answered b m)
    (fun (st : Hooks U) c => hookStep b regexec memory st (HandleCall.on h c))
    (fun m c => c.after b m) where
  fault := by
    rintro st m c e ⟨halllen, p, hentry, hp⟩ hafter
    cases c with
    | io c =>
        have hdecides := MemoryFile.io_decides (b := b) (h := h) halllen c
        have hafter : m.after b c = .error e := hafter
        rw [hafter] at hdecides
        obtain ⟨e', hfault⟩ := hdecides
        show (hookIo b st h c >>= fun r => .ret r.1 : Prog (Hooks U)).Meets _ _
        rw [hookIo_eq, onHooked_eq hentry hp, hfault]
        trivial
    | fstat | fclose | pclose | close => exact nomatch hafter
  good := by
    rintro st m c m' ⟨halllen, p, hentry, hp⟩ hafter hgood
    cases c with
    | io c =>
        have hdecides := MemoryFile.io_decides (b := b) (h := h) halllen c
        have hafter : m.after b c = .ok m' := hafter
        have halllen' := MemoryFile.alllen_after halllen hafter
        rw [hafter] at hdecides
        obtain ⟨a, hret⟩ := hdecides.1 hgood
        refine ⟨st.setCallBack h p ⟨.memoryFile, m'⟩, ?_, holds_setCallBack halllen'⟩
        show (hookIo b st h c >>= fun r => .ret r.1 : Prog (Hooks U)) = _
        rw [hookIo_eq, onHooked_eq hentry hp, hret]
        rfl
    | fstat buf =>
        cases hafter
        refine ⟨st.setCallBack h p ⟨.memoryFile, m⟩, ?_, holds_setCallBack halllen⟩
        show (hookFstat b st h buf >>= fun r => .ret r.1 : Prog (Hooks U)) = _
        rw [hookFstat, onHooked_eq hentry hp]
        rfl
    | fclose | pclose | close => exact hgood.elim
  bad := by
    rintro st m c m' hst hafter hgood
    cases c with
    | io c =>
        obtain ⟨halllen, p, hentry, hp⟩ := hst
        have hdecides := MemoryFile.io_decides (b := b) (h := h) halllen c
        have hafter : m.after b c = .ok m' := hafter
        rw [hafter] at hdecides
        obtain ⟨c', k, hcall, hc⟩ := hdecides.2 hgood
        show ¬ (hookIo b st h c >>= fun r => .ret r.1 : Prog (Hooks U)).Meets _ _
        rw [hookIo_eq, onHooked_eq hentry hp, hcall]
        exact fun hmeets => hmeets.1 hc
    | fstat buf => exact absurd trivial hgood
    | fclose =>
        exact closeHooked_calls (fun _ F s => FileHook.fclose F s h) (libc (.fclose h))
          (c := .fclose h) rfl rfl hst
    | pclose =>
        exact closeHooked_calls (fun _ F s => FileHook.pclose F s h) (libc (.fclose h))
          (c := .pclose h) rfl rfl hst
    | close =>
        exact closeHooked_calls (fun _ F s => FileHook.close F s h) (libc (.close h))
          (c := .close h) rfl rfl hst

/-! ## Runs -/

theorem alllen_of_make {this : Handle} {fd : Int} {ctor : MemoryFile.Constructor}
    (hctor : ctor.Owned) (hmake : ctor.make this fd = .ok m) : 0 ≤ m.alllen := by
  cases ctor with
  | copying data len =>
      have hsound := (MemoryFile.Built.copying hmake).rep.sound
      exact Int.le_trans hsound.lenNonneg hsound.len
  | moving data len =>
      obtain ⟨-, rfl⟩ := MemoryFile.Constructor.moving_eq_ok.mp hmake
      exact Int.le_trans hctor.1 (MemoryFile.Constructor.le_tdiv hctor.1)
  | empty =>
      cases hmake
      exact (by decide : (0 : Int) ≤ 1024 * 2)

/-- For every registry and table, every `memory_file` that is opened under a handle
that is not in the table yet, and all calls on that handle, no function of the C library
gets the handle exactly when every call, in the state of the file it is made in, is
answered by the file, as far as the callbacks return. -/
theorem opened_notOn_iff {call : OpenCall} {list : HookFileList U} {p : BaseHookHandle U}
    {this : Handle} {fd : Int} {ctor : MemoryFile.Constructor}
    (hmatch : checkAndCreateHandle regexec call.name st.hookFileList = (list, some p))
    (hp : p.callBack = ⟨.memoryFile, m⟩) (hctor : ctor.Owned) (hmake : ctor.make this fd = .ok m)
    (hopened : call.hooked b regexec memory st = .ret (st', h)) (hvalid : h ≠ call.failed)
    (hfresh : st.gHook h = none) {calls : List HandleCall} :
    ((opened b regexec memory st call calls).Meets (notOn h) fun _ => True) ↔
      ∀ mid c post, calls = mid ++ c :: post → ∀ m₁ m₂,
        Machine.run (fun m c => HandleCall.after b m c) m mid = .ok m₁ →
          c.after b m₁ = .ok m₂ → c.Answered b m₁ := by
  have hholds : Holds h st' m :=
    ⟨alllen_of_make hctor hmake, p, OpenCall.entry hmatch hp hopened hvalid hfresh, hp⟩
  rw [opened, hopened, ret_bind]
  exact hookStep_follows.run_meets_iff hholds

end

/-- A copy of a line, at the address 4096. -/
def line : MemoryFile := ⟨4096, 65555, [], 4, 3, 0, [97, 98, 10, 0]⟩

/-- The line is registered for all names. -/
def Hooks.served : Hooks noUserFilters :=
  ⟨[(0, ⟨"/proc/mounts".toList, fun _ => ⟨.memoryFile, line⟩, 0⟩)], StdMap.empty⟩

/-- Asking for the position. -/
theorem served_ftell : (opened .arm64 (fun _ _ => true) (fun _ => none) Hooks.served
    (.fopen "/proc/mounts".toList "r".toList) [.io .ftell]).Meets (notOn 4096)
      fun _ => True := by
  have hctor : MemoryFile.Constructor.Owned (.copying [97, 98, 10] 3) := ⟨by decide, by decide⟩
  have hmake : MemoryFile.Constructor.make 4096 65555 (.copying [97, 98, 10] 3) = .ok line := rfl
  refine (opened_notOn_iff (p := ⟨0, "/proc/mounts".toList, ⟨.memoryFile, line⟩⟩) rfl rfl hctor
    hmake rfl (by decide) rfl).mpr ?_
  intro mid c post hsplit m₁ m₂ hrun hafter
  cases mid with
  | nil =>
      cases hsplit
      cases hrun
      exact (by decide : (0 : Int) ≠ -1)
  | cons c' mid => exact absurd (List.cons.inj hsplit).2 (by simp)

/-- `fclose` gets the address of the object, and so does a read at the end. -/
theorem served_not_notOn :
    ¬ ((opened .arm64 (fun _ _ => true) (fun _ => none) Hooks.served
      (.fopen "/proc/mounts".toList "r".toList) [.fclose]).Meets (notOn 4096) fun _ => True) ∧
    ¬ ((opened .arm64 (fun _ _ => true) (fun _ => none) Hooks.served
      (.fopen "/proc/mounts".toList "r".toList)
      [.io (.read [0, 0, 0] 3), .io (.read [0] 1)]).Meets (notOn 4096) fun _ => True) :=
  ⟨fun hmeets => hmeets.1 rfl, fun hmeets => hmeets.1 rfl⟩

end HookLibc
