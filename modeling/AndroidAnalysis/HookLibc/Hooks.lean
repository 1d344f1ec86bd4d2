import AndroidAnalysis.HookLibc.BaseHook
import AndroidAnalysis.HookLibc.FileHook

/-!
# `hook_libc/file_hook.cpp`

The 22 functions that take the place of those of the C library.  An opening hook
and one on a path look the name up in `hook_file_list`, one on a handle looks the
handle up in `g_hook`.  What is not found goes to `file_func_ptr`.
-/

namespace HookLibc

open Cpp Machine Calls

/-- A method of `file_hook`, for a filter of any class. -/
abbrev Method (α : Type) := (σ : Type) → FileFilter σ → σ → Prog (σ × α)

section
variable {U : UserFilters} (b : Build) (regexec : Str → Str → Bool) (st : Hooks U)

/-! ## Lookups -/

/-- A hook that opens a file: `failed` is the result that makes no entry. -/
def openHooked (name : Str) (method : Method Handle) (failed : Handle)
    (otherwise : Prog Handle) : Prog (Hooks U × Handle) :=
  let r := checkAndCreateHandle regexec name st.hookFileList
  match r.2 with
  | some phandle => do
      let opened ← method _ (phandle.callBack.1.callbacks b) phandle.callBack.2
      let st := { st with hookFileList := r.1 }
      .ret (if opened.2 = failed then st
        else st.insertHookHandle opened.2
          { phandle with callBack := ⟨phandle.callBack.1, opened.1⟩ }, opened.2)
  | none => do
      let fp ← otherwise
      .ret ({ st with hookFileList := r.1 }, fp)

/-- A hook on a handle. -/
def onHooked {α : Type} (handle : Handle) (method : Method α) (otherwise : Prog α) :
    Prog (Hooks U × α) :=
  match st.getHookHandle handle with
  | some p => do
      let r ← method _ (p.callBack.1.callbacks b) p.callBack.2
      .ret (st.setCallBack handle p ⟨p.callBack.1, r.1⟩, r.2)
  | none => do
      let a ← otherwise
      .ret (st, a)

/-- A hook that closes a handle: the file is called, removed and deleted, and the
result is 0. -/
def closeHooked (handle : Handle) (method : Method Int) (otherwise : Prog Int) :
    Prog (Hooks U × Int) :=
  match st.getHookHandle handle with
  | some p => do
      let _ ← method _ (p.callBack.1.callbacks b) p.callBack.2
      let st ← ofExcept (st.removeHookHandle handle)
      .ret (st, (0 : Int))
  | none => do
      let a ← otherwise
      .ret (st, a)

/-- A hook on a path, for which a file is created and deleted again. -/
def onPath {α : Type} (name : Str) (method : Method α) (otherwise : Prog α) :
    Prog (Hooks U × α) :=
  let r := checkAndCreateHandle regexec name st.hookFileList
  let st := { st with hookFileList := r.1 }
  match r.2 with
  | some phandle => do
      let a ← method _ (phandle.callBack.1.callbacks b) phandle.callBack.2
      .ret (st, a.2)
  | none => do
      let a ← otherwise
      .ret (st, a)

/-! ## Streams -/

/-- `hook_fopen`. -/
def hookFopen (fileName mode : Str) : Prog (Hooks U × Handle) :=
  openHooked b regexec st fileName (fun _ F s => FileHook.fopen F s fileName mode) 0
    (libc (.fopen fileName mode))

/-- `hook_fclose`. -/
def hookFclose (fp : Handle) : Prog (Hooks U × Int) :=
  closeHooked b st fp (fun _ F s => FileHook.fclose F s fp) (libc (.fclose fp))

/-- `hook_fgets`. -/
def hookFgets (buffer : Bytes) (maxCount : Int) (fp : Handle) : Prog (Hooks U × Line × Bytes) :=
  onHooked b st fp (fun _ F s => FileHook.fgets b F s buffer maxCount fp)
    (libc (.io fp (.fgets buffer maxCount)))

/-- `hook_fwrite`. -/
def hookFwrite (buf : Bytes) (size count : Nat) (owned : size * count ≤ buf.length)
    (fp : Handle) : Prog (Hooks U × Nat) :=
  onHooked b st fp (fun _ F s => FileHook.fwrite b F s buf size count owned fp)
    (libc (.io fp (.fwrite buf size count owned)))

/-- `hook_fputs`. -/
def hookFputs (s : Bytes) (fp : Handle) : Prog (Hooks U × Int) :=
  onHooked b st fp (fun _ F state => FileHook.fputs F state s fp) (libc (.io fp (.fputs s)))

/-- `hook_fread`. -/
def hookFread (buf : Bytes) (size count : Nat) (fp : Handle) : Prog (Hooks U × Nat × Bytes) :=
  onHooked b st fp (fun _ F s => FileHook.fread b F s buf size count fp)
    (libc (.io fp (.fread buf size count)))

/-- `hook_fseek`. -/
def hookFseek (fp : Handle) (offset whence : Int) : Prog (Hooks U × Int) :=
  onHooked b st fp (fun _ F s => FileHook.fseek b F s offset whence fp)
    (libc (.io fp (.fseek offset whence)))

/-- `hook_ftell`. -/
def hookFtell (fp : Handle) : Prog (Hooks U × Int) :=
  onHooked b st fp (fun _ F s => FileHook.ftell F s fp) (libc (.io fp .ftell))

/-- `hook_rewind`. -/
def hookRewind (fp : Handle) : Prog (Hooks U × Unit) :=
  onHooked b st fp (fun _ F s => FileHook.rewind F s fp) (libc (.io fp .rewind))

/-- `hook_popen`, which opens with `fopen` what is not hooked. -/
def hookPopen (command mode : Str) : Prog (Hooks U × Handle) :=
  openHooked b regexec st command (fun _ F s => FileHook.popen F s command mode) 0
    (libc (.fopen command mode))

/-- `hook_pclose`, which closes with `fclose` what is not hooked. -/
def hookPclose (fp : Handle) : Prog (Hooks U × Int) :=
  closeHooked b st fp (fun _ F s => FileHook.pclose F s fp) (libc (.fclose fp))

/-! ## Descriptors -/

/-- `oflag & O_CREAT`. -/
def creates (oflag : Int) : Bool := oflag / 64 % 2 = 1

/-- The `mode` of `hook_open`: the variadic argument, where there has to be
one. -/
def openMode (oflag : Int) (mode : Option Nat) : Except Fault Nat :=
  if creates oflag then
    match mode with
    | some mode => .ok mode
    | none => .error .undefined
  else .ok 0

/-- `hook_open`. -/
def hookOpen (memory : IntMemory) (path : Str) (oflag : Int) (mode : Option Nat) :
    Prog (Hooks U × Int) := do
  let mode ← ofExcept (openMode oflag mode)
  openHooked b regexec st path (fun _ F s => FileHook.open b F s memory path oflag mode) (-1)
    (libc (.open path oflag (if creates oflag then some mode else none)))

/-- `hook_read`. -/
def hookRead (fd : Handle) (buf : Bytes) (nbytes : Nat) : Prog (Hooks U × Nat × Bytes) :=
  onHooked b st fd (fun _ F s => FileHook.read F s fd buf nbytes) (libc (.io fd (.read buf nbytes)))

/-- `hook_pread`. -/
def hookPread (fd : Handle) (buf : Bytes) (count : Nat) (offset : Int) :
    Prog (Hooks U × Nat × Bytes) :=
  onHooked b st fd (fun _ F s => FileHook.pread F s fd buf count offset)
    (libc (.io fd (.pread buf count offset)))

/-- `hook_write`. -/
def hookWrite (fd : Handle) (buf : Bytes) (count : Nat) (owned : count ≤ buf.length) :
    Prog (Hooks U × Nat) :=
  onHooked b st fd (fun _ F s => FileHook.write F s fd buf count owned)
    (libc (.io fd (.write buf count owned)))

/-- `hook_pwrite`. -/
def hookPwrite (fd : Handle) (buf : Bytes) (count : Nat) (offset : Int)
    (owned : count ≤ buf.length) : Prog (Hooks U × Nat) :=
  onHooked b st fd (fun _ F s => FileHook.pwrite F s fd buf count offset owned)
    (libc (.io fd (.pwrite buf count offset owned)))

/-- `hook_fstat`. -/
def hookFstat (fd : Handle) (buf : Stat) : Prog (Hooks U × Int × Stat) :=
  onHooked b st fd (fun _ F s => FileHook.fstat F s fd buf) (libc (.fstat fd buf))

/-- `hook_close`. -/
def hookClose (fd : Handle) : Prog (Hooks U × Int) :=
  closeHooked b st fd (fun _ F s => FileHook.close F s fd) (libc (.close fd))

/-! ## Paths -/

/-- `hook_lstat`. -/
def hookLstat (file : Str) (buf : Stat) : Prog (Hooks U × Int × Stat) :=
  onPath b regexec st file (fun _ F s => FileHook.lstat F s file buf) (libc (.lstat file buf))

/-- `hook_stat`. -/
def hookStat (pathname : Str) (buf : Stat) : Prog (Hooks U × Int × Stat) :=
  onPath b regexec st pathname (fun _ F s => FileHook.stat F s pathname buf)
    (libc (.stat pathname buf))

/-- `hook_rename`. -/
def hookRename (oldPath newPath : Str) : Prog (Hooks U × Int) :=
  onPath b regexec st oldPath (fun _ F s => FileHook.rename F s oldPath newPath)
    (libc (.rename oldPath newPath))

/-- `hook_access`. -/
def hookAccess (pathname : Str) (mode : Int) : Prog (Hooks U × Int) :=
  onPath b regexec st pathname (fun _ F s => FileHook.access F s pathname mode)
    (libc (.access pathname mode))

/-! ## The table of `init_file_hook` -/

/-- The hook of a function on an open file. -/
def hookIo (h : Handle) : (c : IoCall) → Prog (Hooks U × c.Answer)
  | .fread buffer size count => hookFread b st buffer size count h
  | .fwrite buffer size count owned => hookFwrite b st buffer size count owned h
  | .fgets buffer maxCount => hookFgets b st buffer maxCount h
  | .fputs s => hookFputs b st s h
  | .fseek offset whence => hookFseek b st h offset whence
  | .ftell => hookFtell b st h
  | .rewind => hookRewind b st h
  | .read buffer nbytes => hookRead b st h buffer nbytes
  | .pread buffer count offset => hookPread b st h buffer count offset
  | .write buffer count owned => hookWrite b st h buffer count owned
  | .pwrite buffer count offset owned => hookPwrite b st h buffer count offset owned

/-- The hook of a function of the C library. -/
def hook (memory : IntMemory) : (c : LibcCall) → Prog (Hooks U × c.Answer)
  | .io h c => hookIo b st h c
  | .fstat fd buf => hookFstat b st fd buf
  | .fclose fp => hookFclose b st fp
  | .pclose fp => hookPclose b st fp
  | .close fd => hookClose b st fd
  | .fopen path mode => hookFopen b regexec st path mode
  | .popen command mode => hookPopen b regexec st command mode
  | .open path flag mode => hookOpen b regexec st memory path flag mode
  | .lstat file buf => hookLstat b regexec st file buf
  | .stat pathname buf => hookStat b regexec st pathname buf
  | .rename oldPath newPath => hookRename b regexec st oldPath newPath
  | .access pathname mode => hookAccess b regexec st pathname mode

end

end HookLibc
