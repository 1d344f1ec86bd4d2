import Mathlib.Data.List.TakeWhile
import AndroidAnalysis.Cpp.Int
import AndroidAnalysis.Words.Overwrite

/-!
# `format_log` of `utils/log.h`

The line of a log message: the tag, the level and the message in a string that is
made 1024 bytes longer than its header.  `vsnprintf` has these 1024 bytes and
always leaves room for its NUL.  The suffix of three bytes that ends in a NUL is
written where the text ends, and for it there is room behind 1022 bytes of message
only, with its NUL on the terminator of the string.

A message is what `vsnprintf` makes of the format and its arguments, so it may be of
any length and may have a NUL in it.  The string is an area of `size + 1` characters,
the last of them its terminator, and what is written is kept beside it, as it may
lie outside.
-/

namespace Utils

open Cpp Words

/-! ## The functions -/

/-- `log_level`. -/
inductive LogLevel
  | debug
  | warn
  | info
  | error

/-- `level_string` at the index of a level. -/
def levelString : LogLevel → Str
  | .debug => "debug".toList
  | .warn => "warn".toList
  | .info => "info".toList
  | .error => "error".toList

/-- `buffer_size`. -/
def bufferSize : Nat := 1024

/-- The front of a line. -/
def logHeader (tag : Str) (level : LogLevel) : Str :=
  tag ++ " ".toList ++ levelString level ++ " : ".toList

/-- The text that ends at the first NUL of an area. -/
def textOf (area : Str) : Str := area.takeWhile (· ≠ '\x00')

/-- What `strncpy` writes behind the text. -/
def logSuffix : Str := ['\n', '\r', '\x00']

/-- A string of `size` characters: its area with the terminator, and what was written
into it at which index. -/
structure LogBuffer where
  size : Nat
  area : Str
  writes : List (Nat × Str)

/-- `s.resize(size)`, with the terminator. -/
def resized (s : Str) (size : Nat) : Str :=
  s.take size ++ List.replicate (size - s.length) '\x00' ++ ['\x00']

/-- What `vsnprintf` writes of a message. -/
def vsnprintfText (msg : Str) : Str := msg.take (bufferSize - 1) ++ ['\x00']

/-- The writes of `vsnprintf` at `len` and of `strncpy` at the end of the text. -/
def logLine (buffer : Str) (len size : Nat) (msg : Str) : LogBuffer :=
  let area := overwrite (resized buffer size) len (vsnprintfText msg)
  let pos := (textOf area).length
  { size := size
    area := (overwrite area pos logSuffix).take (size + 1)
    writes := [(len, vsnprintfText msg), (pos, logSuffix)] }

/-- How a call of `format_log` ends. -/
inductive LogOutcome
  /-- With its string. -/
  | returned (r : LogBuffer)
  /-- With the `std::length_error` of `resize`. -/
  | lengthError
  /-- Nowhere: the size overflows, or the index is in front of the string. -/
  | undefined

/-- `format_log` with the message made.  The length of the header and the size are
`int`s, and `resize` takes a negative size as one that no string has. -/
def formatLog (tag : Str) (level : LogLevel) (msg : Str) : LogOutcome :=
  let buffer := logHeader tag level
  let len := asInt buffer.length
  let size := len + bufferSize
  if ¬ IsInt size then .undefined
  else if size < 0 then .lengthError
  else if len < 0 then .undefined
  else .returned (logLine buffer len.toNat size.toNat msg)

/-- Everything is written at an index of the string, or is a NUL on its terminator, and
the string has a NUL. -/
def LogBuffer.StaysInside (r : LogBuffer) : Prop :=
  (∀ w ∈ r.writes, ∀ j c, w.2[j]? = some c →
    w.1 + j < r.size ∨ w.1 + j = r.size ∧ c = '\x00') ∧ '\x00' ∈ r.area

/-- No byte is written outside, and a string that is returned has its NUL. -/
def LogOutcome.NeverPast : LogOutcome → Prop
  | .returned r => r.StaysInside
  | .lengthError => True
  | .undefined => False

/-! ## Texts in areas -/

theorem nul_notMem_textOf (area : Str) : '\x00' ∉ textOf area := fun h => by
  simpa using List.mem_takeWhile_imp h

theorem textOf_sublist (area : Str) : List.Sublist (textOf area) area := List.takeWhile_sublist _

/-- A text that has no NUL is all of its area. -/
theorem textOf_of_notMem {area : Str} (h : '\x00' ∉ area) : textOf area = area :=
  List.takeWhile_eq_self_iff.mpr fun c hc => by
    simpa using fun hzero : c = '\x00' => h (hzero ▸ hc)

/-- What is behind a NUL does not belong to the text. -/
theorem textOf_append_nul (front rest : Str) :
    textOf (front ++ '\x00' :: rest) = textOf front := by
  induction front with
  | nil => rfl
  | cons c front ih =>
      by_cases hc : c = '\x00'
      · subst hc
        rfl
      · rw [List.cons_append, textOf, List.takeWhile_cons_of_pos (by simpa using hc), textOf,
          List.takeWhile_cons_of_pos (by simpa using hc)]
        exact congrArg (c :: ·) ih

/-- A text is shorter than its area where the area has a NUL. -/
theorem length_textOf_lt {area : Str} (h : '\x00' ∈ area) : (textOf area).length < area.length := by
  obtain ⟨front, rest, rfl, hfront⟩ := List.eq_append_cons_of_mem h
  rw [textOf_append_nul, textOf_of_notMem hfront, List.length_append, List.length_cons]
  omega

/-- An area with a NUL is its text, the NUL and a rest. -/
theorem eq_textOf_append {area : Str} (h : '\x00' ∈ area) :
    ∃ rest, area = textOf area ++ '\x00' :: rest := by
  obtain ⟨front, rest, rfl, hfront⟩ := List.eq_append_cons_of_mem h
  exact ⟨rest, by rw [textOf_append_nul, textOf_of_notMem hfront]⟩

/-! ## The two writes -/

/-- What `vsnprintf` leaves in the string: the header up to the index, the message cut to
1023 characters, and a NUL. -/
theorem overwrite_resized {buffer : Str} {n : Nat} (hn : n ≤ buffer.length) (msg : Str) :
    ∃ rest, overwrite (resized buffer (n + bufferSize)) n (vsnprintfText msg) =
      buffer.take n ++ msg.take 1023 ++ '\x00' :: rest := by
  refine ⟨(resized buffer (n + bufferSize)).drop (n + (vsnprintfText msg).length), ?_⟩
  have hfront : (resized buffer (n + bufferSize)).take n = buffer.take n := by
    rw [resized, List.append_assoc, List.take_append_of_le_length, List.take_take,
      Nat.min_eq_left (Nat.le_add_right n _)]
    rw [List.length_take]
    omega
  rw [overwrite, hfront, vsnprintfText]
  simp [bufferSize]

/-- The suffix at the end of a text stays inside where three characters fit behind it, and
is then the end of the text. -/
theorem suffix_inside {area : Str} (h : '\x00' ∈ area) {size : Nat}
    (hsize : (textOf area).length + 2 ≤ size) :
    '\x00' ∈ (overwrite area (textOf area).length logSuffix).take (size + 1) ∧
      textOf ((overwrite area (textOf area).length logSuffix).take (size + 1)) =
        textOf area ++ ['\n', '\r'] := by
  obtain ⟨rest, hrest⟩ := eq_textOf_append h
  have hno := nul_notMem_textOf area
  generalize textOf area = text at *
  subst hrest
  have htake : (overwrite (text ++ '\x00' :: rest) text.length logSuffix).take (size + 1) =
      text ++ ['\n', '\r'] ++ '\x00' :: (rest.drop 2).take (size - (text.length + 2)) := by
    have hlen : (text ++ logSuffix).length = text.length + 3 := by
      rw [List.length_append]
      rfl
    rw [overwrite_append, List.take_append, List.take_of_length_le (by omega), hlen]
    have hrest : size + 1 - (text.length + 3) = size - (text.length + 2) := by omega
    simp [logSuffix, hrest]
  rw [htake]
  refine ⟨List.mem_append_right _ List.mem_cons_self, ?_⟩
  rw [textOf_append_nul, textOf_of_notMem]
  intro hmem
  rcases List.mem_append.mp hmem with hmem | hmem
  · exact hno hmem
  · exact absurd hmem (by decide)

section
variable {buffer : Str} {n : Nat}

/-- The text that the suffix is written behind. -/
theorem textOf_overwrite_resized (hn : n ≤ buffer.length) (msg : Str) :
    textOf (overwrite (resized buffer (n + bufferSize)) n (vsnprintfText msg)) =
      textOf (buffer.take n ++ msg.take 1023) := by
  obtain ⟨rest, hrest⟩ := overwrite_resized hn msg
  rw [hrest, textOf_append_nul]

theorem nul_mem_overwrite_resized (hn : n ≤ buffer.length) (msg : Str) :
    '\x00' ∈ overwrite (resized buffer (n + bufferSize)) n (vsnprintfText msg) := by
  obtain ⟨rest, hrest⟩ := overwrite_resized hn msg
  rw [hrest]
  exact List.mem_append_right _ List.mem_cons_self

/-- `vsnprintf` writes at most 1024 characters. -/
theorem length_vsnprintfText_le (msg : Str) : (vsnprintfText msg).length ≤ bufferSize := by
  rw [vsnprintfText, List.length_append, List.length_take, List.length_singleton, bufferSize]
  omega

/-- What is written at `len` is inside, and the suffix is where the text leaves room for
it. -/
theorem logLine_staysInside_iff (hn : n ≤ buffer.length) (msg : Str) :
    (logLine buffer n (n + bufferSize) msg).StaysInside ↔
      (textOf (buffer.take n ++ msg.take 1023)).length + 2 ≤ n + bufferSize := by
  rw [← textOf_overwrite_resized hn]
  constructor
  · rintro ⟨hwrites, -⟩
    rcases hwrites _ (List.mem_cons_of_mem _ List.mem_cons_self) 2 '\x00' rfl with hlt | ⟨heq, -⟩
    · exact Nat.le_of_lt hlt
    · exact Nat.le_of_eq heq
  · intro hroom
    refine ⟨?_, (suffix_inside (nul_mem_overwrite_resized hn msg) hroom).1⟩
    intro w hw j c hc
    have hj : j < w.2.length := (List.getElem?_eq_some_iff.mp hc).1
    rcases List.mem_cons.mp hw with rfl | hw
    · exact .inl (Nat.add_lt_add_left (Nat.lt_of_lt_of_le hj (length_vsnprintfText_le msg)) n)
    · obtain rfl := List.mem_singleton.mp hw
      have hj : j < 3 := hj
      rcases Nat.lt_or_eq_of_le (Nat.le_of_lt_succ hj) with hlt | rfl
      · exact .inl (Nat.lt_of_lt_of_le (Nat.add_lt_add_left hlt _) hroom)
      · rcases Nat.lt_or_eq_of_le hroom with hlt | heq
        · exact .inl hlt
        · exact .inr ⟨heq, (Option.some.inj hc).symm⟩

/-- The text of the line, where it stays inside. -/
theorem textOf_logLine (hn : n ≤ buffer.length) {msg : Str}
    (h : (logLine buffer n (n + bufferSize) msg).StaysInside) :
    textOf (logLine buffer n (n + bufferSize) msg).area =
      textOf (buffer.take n ++ msg.take 1023) ++ ['\n', '\r'] := by
  have hroom := (logLine_staysInside_iff hn msg).mp h
  rw [← textOf_overwrite_resized hn] at hroom ⊢
  exact (suffix_inside (nul_mem_overwrite_resized hn msg) hroom).2

end

/-! ## `format_log` -/

section
variable {tag msg : Str} {level : LogLevel}

/-- The header as far as the string has it, and the message as far as `vsnprintf` writes
it. -/
def logFront (tag : Str) (level : LogLevel) (msg : Str) : Str :=
  (logHeader tag level).take (asInt (logHeader tag level).length).toNat ++ msg.take 1023

/-- The header has a length that is an `int`, and so has the string. -/
def SizeFits (tag : Str) (level : LogLevel) : Prop :=
  0 ≤ asInt (logHeader tag level).length ∧ IsInt (asInt (logHeader tag level).length + 1024)

/-- A string is returned where its size fits. -/
theorem formatLog_eq_returned {r : LogBuffer} : formatLog tag level msg = .returned r ↔
    SizeFits tag level ∧ r = logLine (logHeader tag level)
      (asInt (logHeader tag level).length).toNat
      ((asInt (logHeader tag level).length).toNat + bufferSize) msg := by
  have hbuffer : (bufferSize : Int) = 1024 := rfl
  rw [formatLog, SizeFits, hbuffer]
  split
  next hint => exact iff_of_false nofun fun hr => hint hr.1.2
  next hint =>
    split
    next hneg => exact iff_of_false nofun fun hr => absurd hr.1.1 (by omega)
    next hpos =>
      split
      next hneg => exact iff_of_false nofun fun hr => absurd hr.1.1 (by omega)
      next hlen =>
        have hsize : (asInt (logHeader tag level).length + 1024).toNat =
            (asInt (logHeader tag level).length).toNat + bufferSize := by
          rw [bufferSize]
          omega
        rw [hsize, LogOutcome.returned.injEq, eq_comm]
        exact (and_iff_right ⟨Int.not_lt.mp hlen, not_not.mp hint⟩).symm

/-- `resize` throws where the size is negative. -/
theorem formatLog_eq_lengthError : formatLog tag level msg = .lengthError ↔
    asInt (logHeader tag level).length < -1024 := by
  have hbuffer : (bufferSize : Int) = 1024 := rfl
  have hrange := isInt_asInt (logHeader tag level).length
  rw [formatLog, hbuffer]
  rw [IsInt] at hrange
  split
  next hint =>
    rw [IsInt] at hint
    exact iff_of_false (fun hout => by cases hout) (by omega)
  next hint =>
    split
    next hneg => exact iff_of_true rfl (by omega)
    next hpos =>
      split
      next hlen => exact iff_of_false (fun hout => by cases hout) (by omega)
      next hlen => exact iff_of_false (fun hout => by cases hout) (by omega)

/-- The length that is used is no more than the length of the header. -/
theorem toNat_asInt_le (n : Nat) : (asInt n).toNat ≤ n := by
  obtain ⟨q, hq⟩ := asInt_eq_sub (Int.natCast_nonneg n)
  omega

/-- The text of a string that stays inside. -/
theorem textOf_formatLog {r : LogBuffer} (h : formatLog tag level msg = .returned r)
    (hinside : r.StaysInside) :
    textOf r.area = textOf (logFront tag level msg) ++ ['\n', '\r'] := by
  obtain ⟨-, rfl⟩ := formatLog_eq_returned.mp h
  exact textOf_logLine (toNat_asInt_le _) hinside

/-- There is room for the suffix behind a text that a NUL ends early, or behind a message of
at most 1022 characters. -/
theorem logFront_room_iff : (textOf (logFront tag level msg)).length + 2 ≤
      (asInt (logHeader tag level).length).toNat + bufferSize ↔
    '\x00' ∈ logFront tag level msg ∨ msg.length ≤ 1022 := by
  have hlen : (logFront tag level msg).length =
      (asInt (logHeader tag level).length).toNat + min 1023 msg.length := by
    rw [logFront, List.length_append, List.length_take, List.length_take,
      Nat.min_eq_left (toNat_asInt_le _)]
  rw [bufferSize]
  by_cases hnul : '\x00' ∈ logFront tag level msg
  · have hlt := length_textOf_lt hnul
    exact iff_of_true (by omega) (.inl hnul)
  · rw [textOf_of_notMem hnul, or_iff_right hnul, hlen]
    omega

/-- The string that is returned stays inside where a NUL ends its text early, or the message
has at most 1022 characters. -/
theorem returned_staysInside_iff {r : LogBuffer} (h : formatLog tag level msg = .returned r) :
    r.StaysInside ↔ '\x00' ∈ logFront tag level msg ∨ msg.length ≤ 1022 := by
  obtain ⟨-, rfl⟩ := formatLog_eq_returned.mp h
  exact (logLine_staysInside_iff (toNat_asInt_le _) msg).trans logFront_room_iff

/-- Nothing is written outside exactly where `resize` throws, or the size fits and a NUL
ends the text early or the message has at most 1022 characters. -/
theorem formatLog_neverPast_iff (tag : Str) (level : LogLevel) (msg : Str) :
    (formatLog tag level msg).NeverPast ↔
      asInt (logHeader tag level).length < -1024 ∨
      SizeFits tag level ∧ ('\x00' ∈ logFront tag level msg ∨ msg.length ≤ 1022) := by
  cases hout : formatLog tag level msg with
  | returned r =>
      obtain ⟨hfits, -⟩ := formatLog_eq_returned.mp hout
      have hlen : ¬ asInt (logHeader tag level).length < -1024 := Int.not_lt.mpr
        (Int.le_trans (by decide) hfits.1)
      rw [or_iff_right hlen, and_iff_right hfits]
      exact returned_staysInside_iff hout
  | lengthError => exact iff_of_true trivial (.inl (formatLog_eq_lengthError.mp hout))
  | undefined =>
      refine iff_of_false id ?_
      rintro (hlen | ⟨hfits, -⟩)
      · rw [formatLog_eq_lengthError.mpr hlen] at hout
        exact nomatch hout
      · rw [formatLog_eq_returned.mpr ⟨hfits, rfl⟩] at hout
        exact nomatch hout

end

/-- A message of 1023 characters: the carriage return takes the place of the terminator, and
the NUL is behind it. -/
theorem formatLog_writes_past :
    ¬ (formatLog "hk_jni".toList .debug (List.replicate 1023 'a')).NeverPast := by
  rw [formatLog_eq_returned.mpr ⟨⟨by decide, by decide⟩, rfl⟩]
  intro hinside
  rcases (returned_staysInside_iff (formatLog_eq_returned.mpr ⟨⟨by decide, by decide⟩, rfl⟩)).mp
    hinside with hnul | hlen
  · rcases List.mem_append.mp hnul with hnul | hnul
    · exact absurd (List.mem_of_mem_take hnul) (by decide)
    · exact absurd (List.eq_of_mem_replicate (List.mem_of_mem_take hnul)) (by decide)
  · rw [List.length_replicate] at hlen
    exact absurd hlen (by decide)

end Utils
