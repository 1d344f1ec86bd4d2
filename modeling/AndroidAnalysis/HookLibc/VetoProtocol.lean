import AndroidAnalysis.HookLibc.FileHook

/-!
# The veto of a filter

A callback `before_*` that returns `true` stops the operation, and what it has
stored is the result.  Otherwise the function of the C library is called.  This
is `protocol`, and `code` is what `file_hook` does.  They agree for `fopen`,
`popen` and `fstat`.  On arm64 `open` returns the `int` that the stored handle
points at, where the protocol returns the handle, and the operations on a path
take the answer of the callback the other way round.
-/

namespace HookLibc

open Cpp Machine Calls

/-- An operation that a filter can stop. -/
inductive VetoOp
  | open (path : Str) (flag : Int) (mode : Nat)
  | fopen (path mode : Str)
  | popen (command mode : Str)
  | fstat (fd : Handle) (buf : Stat)
  | lstat (file : Str) (buf : Stat)
  | stat (pathname : Str) (buf : Stat)
  | rename (oldPath newPath : Str)
  | access (pathname : Str) (mode : Int)

namespace VetoOp

/-- The result of an operation. -/
def Result : VetoOp → Type
  | .fstat .. | .lstat .. | .stat .. => Int × Stat
  | .open .. | .fopen .. | .popen .. | .rename .. | .access .. => Int

/-- What the callback of an operation leaves. -/
def Asked : VetoOp → Type
  | .open .. | .fopen .. | .popen .. => OpenVeto
  | .fstat .. | .lstat .. | .stat .. => Veto × Stat
  | .rename .. | .access .. => Veto

section
variable {σ : Type} (b : Build) (memory : IntMemory) (F : FileFilter σ) (s : σ)

/-- The callback of an operation. -/
def ask : (op : VetoOp) → Except Fault (σ × op.Asked)
  | .open path flag mode => F.beforeOpen s .open (.open path flag mode)
  | .fopen path mode => F.beforeOpen s .fopen (.fpopen path mode)
  | .popen command mode => F.beforeOpen s .popen (.fpopen command mode)
  | .fstat _ buf => F.beforeStat s .fstat buf
  | .lstat _ buf => F.beforeStat s .lstat buf
  | .stat _ buf => F.beforeStat s .stat buf
  | .rename _ newPath => F.beforeRename s newPath
  | .access _ mode => F.beforeAccess s mode

/-- The method of `file_hook`. -/
def code : (op : VetoOp) → Prog (σ × op.Result)
  | .open path flag mode => FileHook.open b F s memory path flag mode
  | .fopen path mode => FileHook.fopen F s path mode
  | .popen command mode => FileHook.popen F s command mode
  | .fstat fd buf => FileHook.fstat F s fd buf
  | .lstat file buf => FileHook.lstat F s file buf
  | .stat pathname buf => FileHook.stat F s pathname buf
  | .rename oldPath newPath => FileHook.rename F s oldPath newPath
  | .access pathname mode => FileHook.access F s pathname mode

/-- Stop with what is stored, or go on with a call. -/
def stopOr {α : Type} (stop : Bool) (stored : α) (c : LibcCall) (finish : c.Answer → Prog α) :
    Prog α :=
  if stop then .ret stored else .call c finish

/-- An argument of the function, where the callback may have written another
path. -/
def pick {α : Type} (r : OpenVeto) (new old : α) : α := if r.newPath ≠ [] then new else old

/-- The operation as the filter is promised it. -/
def protocol : (op : VetoOp) → Prog (σ × op.Result)
  | .open path flag mode => do
      let r ← ofExcept (F.beforeOpen s .open (.open path flag mode))
      stopOr r.2.stop (r.1, asInt r.2.handle)
        (.open (pick r.2 r.2.newPath path) (pick r.2 r.2.newFlag flag)
          (some (pick r.2 r.2.newModeT mode))) fun fd => .ret (r.1, fd)
  | .fopen path mode => do
      let r ← ofExcept (F.beforeOpen s .fopen (.fpopen path mode))
      stopOr r.2.stop (r.1, r.2.handle)
        (.fopen (pick r.2 r.2.newPath path) (pick r.2 r.2.newMode mode)) fun fp => .ret (r.1, fp)
  | .popen command mode => do
      let r ← ofExcept (F.beforeOpen s .popen (.fpopen command mode))
      stopOr r.2.stop (r.1, r.2.handle)
        (.popen (pick r.2 r.2.newPath command) (pick r.2 r.2.newMode mode)) fun fp => .ret (r.1, fp)
  | .fstat fd buf => do
      let r ← ofExcept (F.beforeStat s .fstat buf)
      stopOr r.2.1.stop (r.1, r.2.1.ret, r.2.2) (.fstat fd r.2.2)
        fun a => ofExcept (F.afterStat r.1 a.1 a.2)
  | .lstat file buf => do
      let r ← ofExcept (F.beforeStat s .lstat buf)
      stopOr r.2.1.stop (r.1, r.2.1.ret, r.2.2) (.lstat file r.2.2)
        fun a => ofExcept (F.afterStat r.1 a.1 a.2)
  | .stat pathname buf => do
      let r ← ofExcept (F.beforeStat s .stat buf)
      stopOr r.2.1.stop (r.1, r.2.1.ret, r.2.2) (.stat pathname r.2.2)
        fun a => ofExcept (F.afterStat r.1 a.1 a.2)
  | .rename oldPath newPath => do
      let r ← ofExcept (F.beforeRename s newPath)
      stopOr r.2.stop (r.1, r.2.ret) (.rename oldPath newPath) fun a => .ret (r.1, a)
  | .access pathname mode => do
      let r ← ofExcept (F.beforeAccess s mode)
      stopOr r.2.stop (r.1, r.2.ret) (.access pathname mode) fun a => .ret (r.1, a)

/-- Whether the operation keeps to the protocol after what its callback left. -/
def Keeps : (op : VetoOp) → op.Asked → Prop
  | .open .., r => b = .arm32 ∨ r.stop = false ∨
      memory r.handle = some (asInt r.handle) ∧ memory (r.handle + 4) ≠ none
  | .fopen .., _ | .popen .., _ | .fstat .., _ => True
  | .lstat .., _ | .stat .., _ | .rename .., _ | .access .., _ => False

/-! ## The operations that keep to it -/

variable {b memory F s}

/-- A program that hands on what a program without calls returns. -/
theorem ofExcept_ret {α : Type} (x : Except Fault α) :
    ((ofExcept x : Prog α) >>= fun a => .ret a) = ofExcept x := by
  cases x with
  | ok a => rfl
  | error e => rfl

/-- A call in two branches, with the arguments that the callback has written and
with the old ones. -/
theorem pick_eq {α : Type} (r : OpenVeto) (stored : α) (call : Str → Str → Prog α)
    (path mode : Str) :
    (if r.stop then .ret stored
      else if r.newPath ≠ [] then call r.newPath r.newMode else call path mode) =
    (if r.stop then .ret stored
      else call (pick r r.newPath path) (pick r r.newMode mode) : Prog α) := by
  rw [pick, pick]
  split
  next => rfl
  next =>
    split
    next => rfl
    next => rfl

theorem fopen_eq (path mode : Str) :
    FileHook.fopen F s path mode = (fopen path mode).protocol F s := by
  rw [FileHook.fopen, protocol]
  cases F.beforeOpen s .fopen (.fpopen path mode) with
  | error e => rfl
  | ok r =>
      exact pick_eq r.2 (r.1, r.2.handle)
        (fun path mode => .call (.fopen path mode) fun fp => .ret (r.1, fp)) path mode

theorem popen_eq (command mode : Str) :
    FileHook.popen F s command mode = (popen command mode).protocol F s := by
  rw [FileHook.popen, protocol]
  cases F.beforeOpen s .popen (.fpopen command mode) with
  | error e => rfl
  | ok r =>
      exact pick_eq r.2 (r.1, r.2.handle)
        (fun path mode => .call (.popen path mode) fun fp => .ret (r.1, fp)) command mode

theorem fstat_eq (fd : Handle) (buf : Stat) :
    FileHook.fstat F s fd buf = (fstat fd buf).protocol F s := by
  rw [FileHook.fstat, protocol]
  simp only [ofExcept_ret]
  rfl

/-- What `open` makes of a stored handle is the handle, on 32-bit ARM, and where
memory holds it at its own address. -/
theorem openResult_eq_iff {handle : Handle} :
    FileHook.openResult b memory handle = .ok (asInt handle) ↔
      b = .arm32 ∨ memory handle = some (asInt handle) ∧ memory (handle + 4) ≠ none := by
  cases b with
  | arm32 => exact iff_of_true rfl (.inl rfl)
  | arm64 =>
      simp only [FileHook.openResult, derefInt]
      cases memory handle with
      | none => simp [bind_eq_ok]
      | some x =>
          cases memory (handle + 4) with
          | none => simp [ok_bind, bind_eq_ok]
          | some y => simp [ok_bind]

theorem open_eq_iff {path : Str} {flag : Int} {mode : Nat} {r : σ × OpenVeto}
    (hask : F.beforeOpen s .open (.open path flag mode) = .ok r) :
    FileHook.open b F s memory path flag mode = («open» path flag mode).protocol F s ↔
      (Keeps b memory («open» path flag mode) r.2) := by
  rw [FileHook.open, protocol, hask]
  obtain ⟨s', stop, handle, newPath, newMode, newFlag, newModeT⟩ := r
  cases stop with
  | true =>
      have hkeeps : Keeps b memory (.open path flag mode)
          ⟨true, handle, newPath, newMode, newFlag, newModeT⟩ ↔
            FileHook.openResult b memory handle = .ok (asInt handle) := by
        rw [openResult_eq_iff]
        exact or_congr_right (or_iff_right (nofun : ¬ true = false))
      rw [hkeeps]
      show (Calls.ofExcept (FileHook.openResult b memory handle) >>= fun fd => .ret (s', fd)) =
        (.ret (s', asInt handle) : Prog (σ × Int)) ↔ _
      cases FileHook.openResult b memory handle with
      | error e => exact iff_of_false nofun nofun
      | ok x => simp
  | false =>
      refine iff_of_true ?_ (.inr (.inl rfl))
      cases newPath with
      | nil => rfl
      | cons c newPath => rfl

/-! ## The operations on a path -/

/-- The answer of the callback, taken the other way round. -/
theorem inverted_ne {α : Type} (stop : Bool) (stored : α) (c : LibcCall)
    {k k' : c.Answer → Prog α} :
    (if stop = false then .ret stored else .call c k) ≠ stopOr stop stored c k' := by
  cases stop with
  | true => exact call_ne_ret
  | false => exact call_ne_ret.symm

theorem lstat_ne {file : Str} {buf : Stat} {r : σ × Veto × Stat}
    (hask : F.beforeStat s .lstat buf = .ok r) :
    FileHook.lstat F s file buf ≠ (lstat file buf).protocol F s := by
  rw [FileHook.lstat, protocol, hask]
  exact inverted_ne r.2.1.stop (r.1, r.2.1.ret, r.2.2) (.lstat file r.2.2)

theorem stat_ne {pathname : Str} {buf : Stat} {r : σ × Veto × Stat}
    (hask : F.beforeStat s .stat buf = .ok r) :
    FileHook.stat F s pathname buf ≠ (stat pathname buf).protocol F s := by
  rw [FileHook.stat, protocol, hask]
  exact inverted_ne r.2.1.stop (r.1, r.2.1.ret, r.2.2) (.stat pathname r.2.2)

theorem rename_ne {oldPath newPath : Str} {r : σ × Veto}
    (hask : F.beforeRename s newPath = .ok r) :
    FileHook.rename F s oldPath newPath ≠ (rename oldPath newPath).protocol F s := by
  rw [FileHook.rename, protocol, hask]
  exact inverted_ne r.2.stop (r.1, r.2.ret) (.rename oldPath newPath)

theorem access_ne {pathname : Str} {mode : Int} {r : σ × Veto}
    (hask : F.beforeAccess s mode = .ok r) :
    FileHook.access F s pathname mode ≠ (access pathname mode).protocol F s := by
  rw [FileHook.access, protocol, hask]
  exact inverted_ne r.2.stop (r.1, r.2.ret) (.access pathname mode)

/-! ## All operations -/

/-- For every filter, an operation whose callback returns keeps to the protocol
exactly when it is `fopen`, `popen` or `fstat`, or `open` on 32-bit ARM, or `open`
on arm64 where the callback does not stop it or the stored handle points at its own
`int` and another one. -/
theorem code_eq_protocol_iff (op : VetoOp) {r : σ × op.Asked} (hask : op.ask F s = .ok r) :
    op.code b memory F s = op.protocol F s ↔ Keeps b memory op r.2 := by
  cases op with
  | «open» path flag mode => exact open_eq_iff hask
  | fopen path mode => exact iff_of_true (fopen_eq path mode) trivial
  | popen command mode => exact iff_of_true (popen_eq command mode) trivial
  | fstat fd buf => exact iff_of_true (fstat_eq fd buf) trivial
  | lstat file buf => exact iff_of_false (lstat_ne hask) id
  | stat pathname buf => exact iff_of_false (stat_ne hask) id
  | rename oldPath newPath => exact iff_of_false (rename_ne hask) id
  | access pathname mode => exact iff_of_false (access_ne hask) id

end

/-- A filter that hides a file: `popen` of it is stopped. -/
theorem none_popen :
    (popen "su".toList "r".toList).code .arm64 (fun _ => none) noneFileFilter () =
      (popen "su".toList "r".toList).protocol noneFileFilter () :=
  (code_eq_protocol_iff (popen "su".toList "r".toList) rfl).mpr trivial

/-- The filter that hides `su` is told of `access` and `open`: `access` is called
all the same, and on arm64 `open` reads memory at the address -1. -/
theorem none_access_open :
    (access "/system/bin/su".toList 0).ask noneFileFilter () = .ok ((), ⟨true, -1⟩) ∧
      (access "/system/bin/su".toList 0).code .arm64 (fun _ => none) noneFileFilter () =
        .call (.access "/system/bin/su".toList 0) (fun a => .ret ((), a)) ∧
      (access "/system/bin/su".toList 0).protocol noneFileFilter () = .ret ((), (-1 : Int)) ∧
      («open» "/system/bin/su".toList 0 0).code .arm64 (fun _ => none) noneFileFilter () =
        .fault .undefined ∧
      («open» "/system/bin/su".toList 0 0).protocol noneFileFilter () = .ret ((), (-1 : Int)) :=
  ⟨rfl, rfl, rfl, rfl, rfl⟩

end VetoOp

end HookLibc
