import AndroidAnalysis.HookLibc.Libc

/-!
# `hook_libc/filter.h`

A `file_filter` is the callbacks of a hooked file.  A callback gets the state of
the filter and may change it, and may store results through its pointers: a value
it does not store is the one that was there.  The buffer a callback writes from
is `const` in every caller, so only the reading callbacks return theirs.
-/

namespace HookLibc

open Cpp

/-- `file_open_type`. -/
inductive OpenType
  | open
  | popen
  | fopen
deriving DecidableEq

/-- `file_stat_type`. -/
inductive StatType
  | fstat
  | lstat
  | stat
deriving DecidableEq

/-- `open_args`, by the member that is in use. -/
inductive OpenArgs
  | open (path : Str) (flag : Int) (mode : Nat)
  | fpopen (path mode : Str)

/-- What `before_open` leaves: whether to stop, `*ret`, and `*new_args`. -/
structure OpenVeto where
  stop : Bool
  handle : Handle
  newPath : Str
  newMode : Str
  newFlag : Int
  newModeT : Nat

/-- What a callback with an `int *ret` leaves: whether to stop, and `*ret`. -/
structure Veto where
  stop : Bool
  ret : Int

/-- `file_filter`, with the state `σ`. -/
structure FileFilter (σ : Type) where
  onSetPos : σ → (offset : Int) → Except Fault (σ × Veto)
  onGetPos : σ → Except Fault (σ × Int)
  onGetFileSize : σ → Except Fault (σ × Int)
  beforeOpen : σ → OpenType → OpenArgs → Except Fault (σ × OpenVeto)
  onClose : σ → Except Fault (σ × Int)
  beforeRead : σ → (buf : Bytes) → (readSize : Nat) → (isFgets : Bool) →
    Except Fault (σ × Nat × Bytes)
  afterRead : σ → (buf : Bytes) → (readSize readedSize : Nat) → (isFgets : Bool) →
    Except Fault (σ × Nat × Bytes)
  beforeWrite : σ → (buf : Bytes) → (writeSize : Nat) → Except Fault (σ × Nat)
  beforeStat : σ → StatType → Stat → Except Fault (σ × Veto × Stat)
  afterStat : σ → (ret : Int) → Stat → Except Fault (σ × Int × Stat)
  beforeRename : σ → (newPath : Str) → Except Fault (σ × Veto)
  beforeAccess : σ → (mode : Int) → Except Fault (σ × Veto)

/-- `common_file_filter`, which leaves `before_open` to its subclasses.  Its
`on_close` ends without a `return`. -/
def commonFileFilter (beforeOpen : OpenType → OpenArgs → OpenVeto) : FileFilter Unit where
  onSetPos s _ := .ok (s, ⟨false, 0⟩)
  onGetPos s := .ok (s, -1)
  onGetFileSize s := .ok (s, -1)
  beforeOpen s type args := .ok (s, beforeOpen type args)
  onClose _ := .error .undefined
  beforeRead s buf _ _ := .ok (s, 0, buf)
  afterRead s buf _ readedSize _ := .ok (s, readedSize, buf)
  beforeWrite s _ _ := .ok (s, 0)
  beforeStat s _ buf := .ok (s, ⟨false, 0⟩, buf)
  afterStat s ret buf := .ok (s, ret, buf)
  beforeRename s _ := .ok (s, ⟨false, 0⟩)
  beforeAccess s _ := .ok (s, ⟨false, 0⟩)

/-- `none_file_filter`. -/
def noneFileFilter : FileFilter Unit :=
  { commonFileFilter fun type _ =>
      ⟨true, if type = .open then -1 else 0, [], [], 0, 0⟩ with
    beforeStat s _ buf := .ok (s, ⟨true, -1⟩, buf)
    beforeRename s _ := .ok (s, ⟨true, -1⟩)
    beforeAccess s _ := .ok (s, ⟨true, -1⟩) }

end HookLibc
