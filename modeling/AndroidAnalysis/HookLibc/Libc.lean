import AndroidAnalysis.Cpp.Buffer
import AndroidAnalysis.Machine.Calls

/-!
# The functions of `file_func_ptr`

A call of one of the 22 functions of the C library that are hooked, and the type
of its result.  `IoCall` has those that read, write or move in an open file, and
the file is the `FILE *` or the descriptor they are called on.

A buffer the caller reads from comes with the promise that it holds what is to be
written.  A buffer the caller reads into is what it held before the call, and the
result has what it holds after it.  A string is its characters in front of the
NUL.  An `ssize_t` is given as the `size_t` with its bits.
-/

namespace HookLibc

open Cpp Machine

/-- A `FILE *` or a file descriptor, as the `void *` it is converted to. -/
abbrev Handle := Int

/-- The bytes of a `struct stat`. -/
abbrev Stat := Bytes

/-- What `fgets` returns. -/
inductive Line
  | null
  | buffer
deriving DecidableEq

/-- A call on the contents or the position of an open file. -/
inductive IoCall
  | fread (buffer : Bytes) (size count : Nat)
  | fwrite (buffer : Bytes) (size count : Nat) (owned : size * count ≤ buffer.length)
  | fgets (buffer : Bytes) (maxCount : Int)
  | fputs (s : Bytes)
  | fseek (offset whence : Int)
  | ftell
  | rewind
  | read (buffer : Bytes) (nbytes : Nat)
  | pread (buffer : Bytes) (count : Nat) (offset : Int)
  | write (buffer : Bytes) (count : Nat) (owned : count ≤ buffer.length)
  | pwrite (buffer : Bytes) (count : Nat) (offset : Int) (owned : count ≤ buffer.length)

/-- The result of such a call, with the buffer it has filled. -/
abbrev IoCall.Answer : IoCall → Type
  | .fread .. | .read .. | .pread .. => Nat × Bytes
  | .fwrite .. | .write .. | .pwrite .. => Nat
  | .fgets .. => Line × Bytes
  | .fputs .. | .fseek .. | .ftell => Int
  | .rewind => Unit

/-- A call of a function of `file_func_ptr`.  `open` is variadic: its mode may be
absent. -/
inductive LibcCall
  | io (handle : Handle) (c : IoCall)
  | fstat (fd : Handle) (buf : Stat)
  | fclose (fp : Handle)
  | pclose (fp : Handle)
  | close (fd : Handle)
  | fopen (path mode : Str)
  | popen (command mode : Str)
  | open (path : Str) (flag : Int) (mode : Option Nat)
  | lstat (file : Str) (buf : Stat)
  | stat (pathname : Str) (buf : Stat)
  | rename (oldPath newPath : Str)
  | access (pathname : Str) (mode : Int)

/-- The result of a call. -/
abbrev LibcCall.Answer : LibcCall → Type
  | .io _ c => c.Answer
  | .fstat .. | .lstat .. | .stat .. => Int × Stat
  | .fclose .. | .pclose .. | .close .. | .fopen .. | .popen .. | .open .. | .rename ..
  | .access .. => Int

/-- A program that calls functions of `file_func_ptr`. -/
abbrev Prog (α : Type) := Calls LibcCall.Answer Fault α

/-- A call through `file_func_ptr`. -/
def libc (c : LibcCall) : Prog c.Answer := Calls.perform c

/-- The handle a function is called with. -/
def LibcCall.handle : LibcCall → Option Handle
  | .io h _ | .fstat h _ | .fclose h | .pclose h | .close h => some h
  | _ => none

end HookLibc
