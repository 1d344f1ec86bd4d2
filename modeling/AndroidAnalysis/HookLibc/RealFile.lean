import AndroidAnalysis.HookLibc.Libc

/-!
# The files of the C library

An open file has a content and a position, and behind it is a device that moves
bytes: of a transfer it may move all bytes, some of them or none, or fail.  The
functions of the C library are transfers from or to a place in the content, with
their own counts as results.
-/

namespace HookLibc

open Cpp Words

/-- A device: what it does with a transfer of some bytes, which is to fail or to move
a number of them. -/
abbrev Device (D : Type) := D → Nat → D × Option Nat

/-- An open file. -/
structure RealFile (D : Type) where
  device : D
  content : Bytes
  pos : Nat

/-- The front part up to a newline, of `n` bytes at most. -/
def takeLine : Nat → Bytes → Bytes
  | 0, _ | _, [] => []
  | n + 1, c :: rest => if c = 10 then [c] else c :: takeLine n rest

/-- A count or a failure, as the `size_t` with the bits of the `ssize_t`. -/
def ssize (b : Build) : Option Nat → Nat
  | none => b.words - 1
  | some k => k

theorem ssize_inj {b : Build} {x y : Option Nat} (hx : ∀ k, x = some k → 2 * k < b.words)
    (hy : ∀ k, y = some k → 2 * k < b.words) (h : ssize b x = ssize b y) : x = y := by
  have hwords : 2 < b.words := by
    cases b with
    | arm32 => decide
    | arm64 => decide
  cases x with
  | none =>
      cases y with
      | none => rfl
      | some k =>
          have := hy k rfl
          have h : b.words - 1 = k := h
          omega
  | some k =>
      cases y with
      | none =>
          have := hx k rfl
          have h : k = b.words - 1 := h
          omega
      | some k' => exact congrArg some h

namespace RealFile

variable {D : Type} (b : Build) (dev : Device D) (w : RealFile D)

/-! ## Transfers -/

/-- A transfer.  For one of no bytes the device is not asked. -/
def transfer (n : Nat) : D × Option Nat :=
  if n = 0 then (w.device, some 0) else ((dev w.device n).1, (dev w.device n).2.map (min n))

/-- The number of bytes that a transfer moves. -/
def moved (n : Nat) : Nat := (w.transfer dev n).2.getD 0

/-- The file after a transfer. -/
def asked (n : Nat) : RealFile D := { w with device := (w.transfer dev n).1 }

/-- The file at a later position. -/
def advance (k : Nat) : RealFile D := { w with pos := w.pos + k }

/-- The number of bytes at a place, `n` at most. -/
def avail (pos n : Nat) : Nat := min n (w.content.length - pos)

/-- The bytes that a transfer from a place moves. -/
def got (pos n : Nat) : Bytes := (w.content.drop pos).take (w.moved dev (w.avail pos n))

/-- The file with bytes at a place, which may be behind its end. -/
def put (pos : Nat) (bytes : Bytes) : RealFile D :=
  if bytes = [] then w
  else
    { w with
      content := overwrite (w.content ++ List.replicate (pos - w.content.length) 0) pos bytes }

/-- The file after a transfer from its position. -/
def taken (n : Nat) : RealFile D :=
  (w.asked dev (w.avail w.pos n)).advance (w.moved dev (w.avail w.pos n))

/-- The file after a transfer to its position. -/
def given (bytes : Bytes) : RealFile D :=
  ((w.asked dev bytes.length).put w.pos (bytes.take (w.moved dev bytes.length))).advance
    (w.moved dev bytes.length)

/-! ## Streams -/

/-- `fread`, which counts whole items. -/
def fread (buffer : Bytes) (size count : Nat) : RealFile D × Nat × Bytes :=
  (w.taken dev (size * count), w.moved dev (w.avail w.pos (size * count)) / size,
    overwrite buffer 0 (w.got dev w.pos (size * count)))

/-- `fwrite`, which counts whole items. -/
def fwrite (buffer : Bytes) (size count : Nat) : RealFile D × Nat :=
  (w.given dev (buffer.take (size * count)),
    w.moved dev (buffer.take (size * count)).length / size)

/-- The line that `fgets` asks for. -/
def line (maxCount : Int) : Bytes := takeLine (maxCount - 1).toNat (w.content.drop w.pos)

/-- The part of the line that is moved. -/
def text (maxCount : Int) : Bytes :=
  (w.line maxCount).take (w.moved dev (w.line maxCount).length)

/-- `fgets`.  A buffer of one byte has room for the NUL only, and one of none is an
error. -/
def fgets (buffer : Bytes) (maxCount : Int) : RealFile D × Line × Bytes :=
  if maxCount ≤ 0 then (w, .null, buffer)
  else if maxCount = 1 then (w, .buffer, overwrite buffer 0 [0])
  else if w.text dev maxCount = [] then
    (w.asked dev (w.line maxCount).length, .null, buffer)
  else
    ((w.asked dev (w.line maxCount).length).advance (w.text dev maxCount).length, .buffer,
      overwrite buffer 0 (w.text dev maxCount ++ [0]))

/-- `fputs`, which fails where not all is moved. -/
def fputs (s : Bytes) : RealFile D × Int :=
  (w.given dev s, if w.moved dev s.length = s.length then 0 else -1)

/-- `fseek`. -/
def fseek (offset whence : Int) : RealFile D × Int :=
  if whence = 0 then seekTo offset
  else if whence = 1 then seekTo (w.pos + offset)
  else if whence = 2 then seekTo (w.content.length + offset)
  else (w, -1)
where
  /-- There is no position in front of the file. -/
  seekTo (pos : Int) : RealFile D × Int :=
    if 0 ≤ pos then ({ w with pos := pos.toNat }, 0) else (w, -1)

/-! ## Descriptors -/

/-- `read`. -/
def read (buffer : Bytes) (nbytes : Nat) : RealFile D × Nat × Bytes :=
  (w.taken dev nbytes, ssize b (w.transfer dev (w.avail w.pos nbytes)).2,
    overwrite buffer 0 (w.got dev w.pos nbytes))

/-- `pread`, which leaves the position. -/
def pread (buffer : Bytes) (count : Nat) (offset : Int) : RealFile D × Nat × Bytes :=
  if offset < 0 then (w, ssize b none, buffer)
  else
    (w.asked dev (w.avail offset.toNat count),
      ssize b (w.transfer dev (w.avail offset.toNat count)).2,
      overwrite buffer 0 (w.got dev offset.toNat count))

/-- `write`. -/
def write (buffer : Bytes) (count : Nat) : RealFile D × Nat :=
  (w.given dev (buffer.take count), ssize b (w.transfer dev (buffer.take count).length).2)

/-- `pwrite`, which leaves the position. -/
def pwrite (buffer : Bytes) (count : Nat) (offset : Int) : RealFile D × Nat :=
  if offset < 0 then (w, ssize b none)
  else
    ((w.asked dev (buffer.take count).length).put offset.toNat
        ((buffer.take count).take (w.moved dev (buffer.take count).length)),
      ssize b (w.transfer dev (buffer.take count).length).2)

/-- A function of the C library. -/
def call : (c : IoCall) → RealFile D × c.Answer
  | .fread buffer size count => w.fread dev buffer size count
  | .fwrite buffer size count _ => w.fwrite dev buffer size count
  | .fgets buffer maxCount => w.fgets dev buffer maxCount
  | .fputs s => w.fputs dev s
  | .fseek offset whence => w.fseek offset whence
  | .ftell => (w, (w.pos : Int))
  | .rewind => ({ w with pos := 0 }, ())
  | .read buffer nbytes => w.read b dev buffer nbytes
  | .pread buffer count offset => w.pread b dev buffer count offset
  | .write buffer count _ => w.write b dev buffer count
  | .pwrite buffer count offset _ => w.pwrite b dev buffer count offset

/-! ## What a transfer moves -/

variable {b dev w} {n : Nat}

theorem le_of_transfer {k : Nat} (h : (w.transfer dev n).2 = some k) : k ≤ n := by
  rw [transfer] at h
  split at h
  next =>
    cases h
    exact Nat.zero_le n
  next =>
    obtain ⟨k', -, rfl⟩ := Option.map_eq_some_iff.mp h
    exact Nat.min_le_left n k'

theorem moved_le : w.moved dev n ≤ n := by
  rw [moved]
  cases h : (w.transfer dev n).2 with
  | none => exact Nat.zero_le n
  | some k => exact le_of_transfer h

theorem length_got {pos : Nat} : (w.got dev pos n).length = w.moved dev (w.avail pos n) := by
  have hle : w.avail pos n ≤ w.content.length - pos := Nat.min_le_right ..
  rw [got, List.length_take, List.length_drop, Nat.min_eq_left (moved_le.trans hle)]

@[simp] theorem put_nil (pos : Nat) : w.put pos [] = w := if_pos rfl

theorem put_device (pos : Nat) (bytes : Bytes) : (w.put pos bytes).device = w.device := by
  rw [put]
  split
  next => rfl
  next => rfl

theorem put_pos (pos : Nat) (bytes : Bytes) : (w.put pos bytes).pos = w.pos := by
  rw [put]
  split
  next => rfl
  next => rfl

end RealFile

end HookLibc
