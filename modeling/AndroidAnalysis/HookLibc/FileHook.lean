import AndroidAnalysis.HookLibc.Filter

/-!
# `hook_libc/file_hook.h`

`file_hook` is a hooked file: each of its methods asks the callbacks of its
filter and calls the function of `file_func_ptr`.  A method is a program with the
state of the filter and its own result.  On arm64 `open` reads two `int`s where
the handle points, so it is given what memory holds there.
-/

namespace HookLibc

open Cpp Machine Calls

/-- The `int` at an address, where there is one. -/
abbrev IntMemory := Handle → Option Int

/-- `*(int *) p`. -/
def derefInt (memory : IntMemory) (p : Handle) : Except Fault Int :=
  match memory p with
  | some x => .ok x
  | none => .error .undefined

namespace FileHook

variable {σ : Type} (b : Build) (F : FileFilter σ) (s : σ)

/-! ## Opening -/

/-- `file_hook::fopen`. -/
def fopen (path mode : Str) : Prog (σ × Handle) := do
  let r ← ofExcept (F.beforeOpen s .fopen (.fpopen path mode))
  if r.2.stop then .ret (r.1, r.2.handle)
  else if r.2.newPath ≠ [] then do
    let fp ← libc (.fopen r.2.newPath r.2.newMode)
    .ret (r.1, fp)
  else do
    let fp ← libc (.fopen path mode)
    .ret (r.1, fp)

/-- `file_hook::popen`. -/
def popen (command mode : Str) : Prog (σ × Handle) := do
  let r ← ofExcept (F.beforeOpen s .popen (.fpopen command mode))
  if r.2.stop then .ret (r.1, r.2.handle)
  else if r.2.newPath ≠ [] then do
    let fp ← libc (.popen r.2.newPath r.2.newMode)
    .ret (r.1, fp)
  else do
    let fp ← libc (.popen command mode)
    .ret (r.1, fp)

/-- The `int` that `file_hook::open` makes of the stored handle. -/
def openResult (memory : IntMemory) (handle : Handle) : Except Fault Int :=
  match b with
  | .arm32 => .ok (asInt handle)
  | .arm64 => do
      let _ ← derefInt memory handle
      let _ ← derefInt memory (handle + 4)
      derefInt memory handle

/-- `file_hook::open`. -/
def «open» (memory : IntMemory) (path : Str) (flag : Int) (mode : Nat) : Prog (σ × Int) := do
  let r ← ofExcept (F.beforeOpen s .open (.open path flag mode))
  if r.2.stop then do
    let fd ← ofExcept (openResult b memory r.2.handle)
    .ret (r.1, fd)
  else if r.2.newPath ≠ [] then do
    let fd ← libc (.open r.2.newPath r.2.newFlag (some r.2.newModeT))
    .ret (r.1, fd)
  else do
    let fd ← libc (.open path flag (some mode))
    .ret (r.1, fd)

/-! ## Streams -/

/-- `file_hook::fgets`, which does not look at what `fgets` returns. -/
def fgets (buffer : Bytes) (maxCount : Int) (fp : Handle) : Prog (σ × Line × Bytes) := do
  let before ← ofExcept (F.beforeRead s buffer (asSize b maxCount) true)
  if before.2.1 ≠ 0 then .ret (before.1, .buffer, before.2.2)
  else do
    let a ← libc (.io fp (.fgets before.2.2 maxCount))
    let len ← ofExcept (strlen a.2)
    let after ← ofExcept (F.afterRead before.1 a.2 (asSize b maxCount) len true)
    .ret (after.1, if after.2.1 = 0 then .null else .buffer, after.2.2)

/-- `rd_size` of `file_hook::fread`. -/
def rdSize (size count : Nat) : Int := asInt (asSize b (size * count : Nat))

/-- `file_hook::fread`. -/
def fread (buffer : Bytes) (size count : Nat) (fp : Handle) : Prog (σ × Nat × Bytes) := do
  let before ← ofExcept (F.beforeRead s buffer (asSize b (rdSize b size count)) false)
  -- `rded_size` is an `int`.
  if asInt before.2.1 ≠ 0 then .ret (before.1, asSize b (asInt before.2.1), before.2.2)
  else do
    let a ← libc (.io fp (.fread before.2.2 size count))
    let after ← ofExcept (F.afterRead before.1 a.2 (asSize b (rdSize b size count))
      (asSize b (asInt (a.1 : Nat))) false)
    .ret after

/-- One block of one byte for each of a buffer is the buffer. -/
theorem length_mul_one_le (buffer : Bytes) : buffer.length * 1 ≤ buffer.length :=
  (Nat.mul_one _).le

/-- `file_hook::fputs`. -/
def fputs (buffer : Bytes) (fp : Handle) : Prog (σ × Int) := do
  let before ← ofExcept (F.beforeWrite s buffer buffer.length)
  if asInt before.2 ≠ 0 then .ret (before.1, asInt before.2)
  else do
    let a : Nat ← libc (.io fp (.fwrite buffer buffer.length 1 (length_mul_one_le buffer)))
    .ret (before.1, asInt a)

/-- `wt_size` of `file_hook::fwrite`. -/
def wtSize (size count : Nat) : Nat := asSize b (size * count : Nat)

theorem wtSize_le (size count : Nat) : wtSize b size count ≤ size * count := by
  rw [wtSize, asSize]
  have hmod : ((size * count : Nat) : Int) % (b.words : Int) =
      ((size * count % b.words : Nat) : Int) := rfl
  rw [hmod, Int.toNat_natCast]
  exact Nat.mod_le _ _

/-- What is read of a file is in the caller's buffer, though `rd_size` is an `int`. -/
theorem rdSize_le {left : Int} (hleft : IsInt left) (size count : Nat) :
    min left (asSize b (rdSize b size count)) ≤ (size * count : Nat) := by
  have hsize := wtSize_le b (wtSize b size count) 1
  rw [wtSize, Nat.mul_one] at hsize
  exact Int.le_trans (asSize_asInt_le hleft)
    (Int.ofNat_le.mpr (hsize.trans (wtSize_le b size count)))

/-- What is written is in the caller's buffer. -/
theorem wtSize_mul_one_le {buffer : Bytes} {size count : Nat}
    (owned : size * count ≤ buffer.length) : wtSize b size count * 1 ≤ buffer.length :=
  (Nat.mul_one _).trans_le ((wtSize_le b size count).trans owned)

/-- `file_hook::fwrite`. -/
def fwrite (buffer : Bytes) (size count : Nat) (owned : size * count ≤ buffer.length)
    (fp : Handle) : Prog (σ × Nat) := do
  let before ← ofExcept (F.beforeWrite s buffer (wtSize b size count))
  if before.2 ≠ 0 then .ret before
  else do
    let a ← libc (.io fp (.fwrite buffer (wtSize b size count) 1 (wtSize_mul_one_le b owned)))
    .ret (before.1, a)

/-- `off` of `file_hook::fseek`. -/
def seekOff (offset whence : Int) : Except Fault (σ × Int) :=
  if whence = 0 then .ok (s, asInt offset)
  else if whence = 1 then do
    let pos ← F.onGetPos s
    let off ← longResult b (pos.2 + offset)
    .ok (pos.1, asInt off)
  else if whence = 2 then do
    let size ← F.onGetFileSize s
    let last ← intResult (size.2 - 1)
    let off ← longResult b (last + offset)
    .ok (size.1, asInt off)
  else .ok (s, 0)

/-- `file_hook::fseek`. -/
def fseek (offset whence : Int) (fp : Handle) : Prog (σ × Int) := do
  let pos ← ofExcept (F.onGetPos s)
  if pos.2 = -1 then do
    let a ← libc (.io fp (.fseek offset whence))
    .ret (pos.1, a)
  else do
    let size ← ofExcept (F.onGetFileSize pos.1)
    if size.2 = -1 then do
      let a ← libc (.io fp (.fseek offset whence))
      .ret (size.1, a)
    else do
      let off ← ofExcept (seekOff b F size.1 offset whence)
      let set ← ofExcept (F.onSetPos off.1 off.2)
      if set.2.stop then .ret (set.1, set.2.ret)
      else do
        let a ← libc (.io fp (.fseek offset whence))
        .ret (set.1, a)

/-- `file_hook::ftell`. -/
def ftell (fp : Handle) : Prog (σ × Int) := do
  let pos ← ofExcept (F.onGetPos s)
  if pos.2 = -1 then do
    let a ← libc (.io fp .ftell)
    .ret (pos.1, a)
  else do
    let rpos ← ofExcept (F.onGetPos pos.1)
    if rpos.2 ≠ -1 then .ret rpos
    else do
      let a ← libc (.io fp .ftell)
      .ret (rpos.1, a)

/-- `file_hook::rewind`. -/
def rewind (fp : Handle) : Prog (σ × Unit) := do
  let set ← ofExcept (F.onSetPos s 0)
  if set.2.stop then .ret (set.1, ())
  else do
    let a ← libc (.io fp .rewind)
    .ret (set.1, a)

/-- `file_hook::pclose`. -/
def pclose (fp : Handle) : Prog (σ × Int) := do
  let closed ← ofExcept (F.onClose s)
  let a ← libc (.pclose fp)
  .ret (closed.1, a)

/-- `file_hook::fclose`. -/
def fclose (fp : Handle) : Prog (σ × Int) := do
  let closed ← ofExcept (F.onClose s)
  let a ← libc (.fclose fp)
  .ret (closed.1, a)

/-! ## Descriptors -/

/-- `file_hook::read`. -/
def read (fd : Handle) (buffer : Bytes) (nbytes : Nat) : Prog (σ × Nat × Bytes) := do
  let before ← ofExcept (F.beforeRead s buffer nbytes false)
  if before.2.1 ≠ 0 then .ret before
  else do
    let a ← libc (.io fd (.read before.2.2 nbytes))
    let after ← ofExcept (F.afterRead before.1 a.2 nbytes a.1 false)
    .ret after

/-- `file_hook::write`. -/
def write (fd : Handle) (buffer : Bytes) (count : Nat) (owned : count ≤ buffer.length) :
    Prog (σ × Nat) := do
  let before ← ofExcept (F.beforeWrite s buffer count)
  if before.2 ≠ 0 then .ret before
  else do
    let a ← libc (.io fd (.write buffer count owned))
    .ret (before.1, a)

/-- The life of an `auto_set_pos` around a method: its constructor sets the
position, and its destructor sets it back. -/
def autoSetPos {α : Type} (pos : Int) (body : σ → Prog (σ × α)) : Prog (σ × α) := do
  let oldPos ← ofExcept (F.onGetPos s)
  let set ← ofExcept (F.onSetPos oldPos.1 (asInt pos))
  let r ← body set.1
  let reset ← ofExcept (F.onSetPos r.1 oldPos.2)
  .ret (reset.1, r.2)

/-- `file_hook::pread`. -/
def pread (fd : Handle) (buffer : Bytes) (count : Nat) (offset : Int) :
    Prog (σ × Nat × Bytes) :=
  autoSetPos F s offset fun s => read F s fd buffer count

/-- `file_hook::pwrite`. -/
def pwrite (fd : Handle) (buffer : Bytes) (count : Nat) (offset : Int)
    (owned : count ≤ buffer.length) : Prog (σ × Nat) :=
  autoSetPos F s offset fun s => write F s fd buffer count owned

/-- `file_hook::fstat`. -/
def fstat (fd : Handle) (buf : Stat) : Prog (σ × Int × Stat) := do
  let before ← ofExcept (F.beforeStat s .fstat buf)
  if before.2.1.stop then .ret (before.1, before.2.1.ret, before.2.2)
  else do
    let a ← libc (.fstat fd before.2.2)
    let after ← ofExcept (F.afterStat before.1 a.1 a.2)
    .ret after

/-- `file_hook::close`. -/
def close (fd : Handle) : Prog (σ × Int) := do
  let closed ← ofExcept (F.onClose s)
  let a ← libc (.close fd)
  .ret (closed.1, a)

/-! ## Paths

These four compare the answer of the callback with 0, where `fopen`, `popen`,
`open` and `fstat` take it as it is. -/

/-- `file_hook::lstat`. -/
def lstat (file : Str) (buf : Stat) : Prog (σ × Int × Stat) := do
  let before ← ofExcept (F.beforeStat s .lstat buf)
  if before.2.1.stop = false then .ret (before.1, before.2.1.ret, before.2.2)
  else do
    let a ← libc (.lstat file before.2.2)
    let after ← ofExcept (F.afterStat before.1 a.1 a.2)
    .ret after

/-- `file_hook::stat`. -/
def stat (pathname : Str) (buf : Stat) : Prog (σ × Int × Stat) := do
  let before ← ofExcept (F.beforeStat s .stat buf)
  if before.2.1.stop = false then .ret (before.1, before.2.1.ret, before.2.2)
  else do
    let a ← libc (.stat pathname before.2.2)
    let after ← ofExcept (F.afterStat before.1 a.1 a.2)
    .ret after

/-- `file_hook::rename`. -/
def rename (oldPath newPath : Str) : Prog (σ × Int) := do
  let before ← ofExcept (F.beforeRename s newPath)
  if before.2.stop = false then .ret (before.1, before.2.ret)
  else do
    let a ← libc (.rename oldPath newPath)
    .ret (before.1, a)

/-- `file_hook::access`. -/
def access (pathname : Str) (mode : Int) : Prog (σ × Int) := do
  let before ← ofExcept (F.beforeAccess s mode)
  if before.2.stop = false then .ret (before.1, before.2.ret)
  else do
    let a ← libc (.access pathname mode)
    .ret (before.1, a)

/-! ## By the call -/

/-- The method that a call on an open file becomes. -/
def io (h : Handle) : (c : IoCall) → Prog (σ × c.Answer)
  | .fread buffer size count => fread b F s buffer size count h
  | .fwrite buffer size count owned => fwrite b F s buffer size count owned h
  | .fgets buffer maxCount => fgets b F s buffer maxCount h
  | .fputs str => fputs F s str h
  | .fseek offset whence => fseek b F s offset whence h
  | .ftell => ftell F s h
  | .rewind => rewind F s h
  | .read buffer nbytes => read F s h buffer nbytes
  | .pread buffer count offset => pread F s h buffer count offset
  | .write buffer count owned => write F s h buffer count owned
  | .pwrite buffer count offset owned => pwrite F s h buffer count offset owned

end FileHook

end HookLibc
