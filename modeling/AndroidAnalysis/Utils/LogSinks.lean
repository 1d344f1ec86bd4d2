import AndroidAnalysis.Cpp.PrintfOutput
import AndroidAnalysis.Utils.Log

/-!
# Where log lines go

`output_log` of `utils/log.h` hands a line to the sink of the adapter.  `log2file`
writes its text.  `printf` and `__android_log_print` are given the text as their
format, the first with no arguments and the second with an empty string.

A text that is logged by `"%s"` goes through two formattings then, and what the
second does to a percent sign is not to write it.  So a text arrives exactly where it
goes to a file or has no percent sign (`logs_exactly_iff`).
-/

namespace Utils

open Cpp

/-! ## Sinks -/

/-- `log_adapt`. -/
inductive LogAdapt
  | useFile
  | usePrintf
  | useCustomFunc
  | useAdb
  | useNone
deriving DecidableEq

section
variable (pointerText : Str → Str)

/-- `output_log`: the text that reaches the sink. -/
def OutputLog (adapt : LogAdapt) (buf : LogBuffer) (out : Str) : Prop :=
  match adapt with
  | .useNone => False
  | .useFile => out = textOf buf.area
  | .usePrintf => PrintfWrites pointerText (textOf buf.area) [] out
  | .useCustomFunc => out = buf.area.take buf.size
  | .useAdb => PrintfWrites pointerText (textOf buf.area) [[]] out

/-- `logd("%s", text)` and its siblings let a text reach the sink. -/
def Logs (adapt : LogAdapt) (tag : Str) (level : LogLevel) (text out : Str) : Prop :=
  ∃ msg buf, PrintfWrites pointerText ['%', 's'] [text] msg ∧
    formatLog tag level msg = .returned buf ∧ buf.StaysInside ∧ OutputLog pointerText adapt buf out

/-- The line of a text. -/
def logLineText (tag : Str) (level : LogLevel) (text : Str) : Str :=
  logHeader tag level ++ text ++ ['\n', '\r']

/-- A text reaches the sink as its line and as nothing else. -/
def LogsExactly (adapt : LogAdapt) (tag : Str) (level : LogLevel) (text : Str) : Prop :=
  ∀ out, Logs pointerText adapt tag level text out ↔ out = logLineText tag level text

end

section
variable {pointerText : Str → Str} {adapt : LogAdapt} {tag text out : Str} {level : LogLevel}

/-! ## The line that is formatted -/

/-- The first formatting writes the text. -/
theorem logs_iff : Logs pointerText adapt tag level text out ↔ ∃ buf,
    formatLog tag level text = .returned buf ∧ buf.StaysInside ∧
      OutputLog pointerText adapt buf out := by
  simp only [Logs, printfWrites_string]
  constructor
  · rintro ⟨msg, buf, rfl, h⟩
    exact ⟨buf, h⟩
  · rintro ⟨buf, h⟩
    exact ⟨text, buf, rfl, h⟩

theorem percent_notMem_levelString (level : LogLevel) : '%' ∉ levelString level := by
  cases level <;> decide

theorem nul_notMem_levelString (level : LogLevel) : '\x00' ∉ levelString level := by
  cases level <;> decide

/-- A character of the header is one of the tag, or one that every header has. -/
theorem mem_logHeader {c : Char} (hlevel : c ∉ levelString level) (hblank : c ∉ " : ".toList) :
    c ∈ logHeader tag level ↔ c ∈ tag := by
  have hspace : c ∉ " ".toList := fun h => hblank (List.mem_append_left _ h)
  simp only [logHeader, List.mem_append, hlevel, hspace, hblank, or_false]

/-- The percent signs of a line are those of its text. -/
theorem percent_mem_logLineText (htag : '%' ∉ tag) :
    '%' ∈ logLineText tag level text ↔ '%' ∈ text := by
  have hheader : '%' ∉ logHeader tag level := fun h =>
    htag ((mem_logHeader (percent_notMem_levelString level) (by decide)).mp h)
  have hsuffix : '%' ∉ ['\n', '\r'] := by decide
  simp only [logLineText, List.mem_append, hheader, hsuffix, false_or, or_false]

/-- The text that is formatted again has no percent sign that is not in the text logged. -/
theorem count_textOf_logFront_le (htag : '%' ∉ tag) :
    (textOf (logFront tag level text) ++ ['\n', '\r']).count '%' ≤ text.count '%' := by
  have hheader : '%' ∉ logHeader tag level := fun h =>
    htag ((mem_logHeader (percent_notMem_levelString level) (by decide)).mp h)
  have hfront : (logFront tag level text).count '%' ≤ text.count '%' := by
    rw [logFront, List.count_append,
      List.count_eq_zero_of_not_mem fun h => hheader (List.mem_of_mem_take h), Nat.zero_add]
    exact (List.take_sublist 1023 text).count_le '%'
  have hsuffix : ['\n', '\r'].count '%' = 0 := by decide
  rw [List.count_append, hsuffix, Nat.add_zero]
  exact Nat.le_trans ((textOf_sublist _).count_le '%') hfront

/-- The text that is formatted again is the line exactly where the tag has no NUL and the
size of the string is an `int`. -/
theorem textOf_logFront_eq_iff (hlen : text.length ≤ 1021) (hnul : '\x00' ∉ text) :
    SizeFits tag level ∧ textOf (logFront tag level text) = logHeader tag level ++ text ↔
      '\x00' ∉ tag ∧ (logHeader tag level).length + 1024 ≤ 2147483647 := by
  have htag : '\x00' ∈ logHeader tag level ↔ '\x00' ∈ tag :=
    mem_logHeader (nul_notMem_levelString level) (by decide)
  have htext : text.take 1023 = text := List.take_of_length_le (by omega)
  rw [SizeFits, IsInt, logFront, htext]
  constructor
  · rintro ⟨⟨hpos, hfits⟩, heq⟩
    refine ⟨?_, ?_⟩
    · rw [← htag]
      intro hmem
      exact nul_notMem_textOf _ (heq ▸ List.mem_append_left text hmem)
    · obtain ⟨q, hq⟩ := asInt_eq_sub (Int.natCast_nonneg (logHeader tag level).length)
      have hle := (textOf_sublist ((logHeader tag level).take
        (asInt (logHeader tag level).length).toNat ++ text)).length_le
      rw [heq, List.length_append, List.length_append, List.length_take] at hle
      omega
  · rintro ⟨hnone, hfits⟩
    have hlength : asInt (logHeader tag level).length = (logHeader tag level).length :=
      asInt_of_isInt (by rw [IsInt]; omega)
    rw [hlength, Int.toNat_natCast, List.take_length]
    refine ⟨by omega, textOf_of_notMem fun hmem => ?_⟩
    rcases List.mem_append.mp hmem with hmem | hmem
    · exact hnone (htag.mp hmem)
    · exact hnul hmem

/-! ## What reaches the sinks -/

/-- The adapters that write the text as it is, or format it again. -/
def LogAdapt.IsSink (adapt : LogAdapt) : Prop :=
  adapt = .useFile ∨ adapt = .usePrintf ∨ adapt = .useAdb

/-- A text without percent signs, or one for a file, reaches the sink. -/
theorem outputLog_iff (hadapt : adapt.IsSink) (hpointer : '%' ∉ pointerText []) {buf : LogBuffer}
    (h : adapt = .useFile ∨ '%' ∉ textOf buf.area) :
    OutputLog pointerText adapt buf out ↔ out = textOf buf.area := by
  rcases hadapt with rfl | rfl | rfl
  · exact Iff.rfl
  · have hpercent := h.resolve_left nofun
    exact (printfWrites_self_iff (nul_notMem_textOf _) (List.forall_mem_nil _)).mpr hpercent out
  · have hpercent := h.resolve_left nofun
    refine (printfWrites_self_iff (nul_notMem_textOf _) ?_).mpr hpercent out
    exact fun a ha => List.mem_singleton.mp ha ▸ ⟨List.not_mem_nil, hpointer⟩

/-- Of a text that is formatted again, a percent sign is lost. -/
theorem count_outputLog_lt (hadapt : adapt.IsSink) (hpointer : '%' ∉ pointerText [])
    {buf : LogBuffer} (h : ¬ (adapt = .useFile ∨ '%' ∉ textOf buf.area))
    (hout : OutputLog pointerText adapt buf out) :
    out.count '%' < (textOf buf.area).count '%' := by
  rw [not_or, not_not] at h
  rcases hadapt with rfl | rfl | rfl
  · exact absurd rfl h.1
  · obtain ⟨pieces, hpieces, hout⟩ := hout
    rw [← hpieces] at h ⊢
    exact (count_printfOut (List.forall_mem_nil _) hout).2 h.2
  · obtain ⟨pieces, hpieces, hout⟩ := hout
    rw [← hpieces] at h ⊢
    refine (count_printfOut ?_ hout).2 h.2
    exact fun a ha => List.mem_singleton.mp ha ▸ ⟨List.not_mem_nil, hpointer⟩

/-- A line that reaches the sink goes to a file or has no percent sign. -/
theorem plain_of_outputLog (hpointer : '%' ∉ pointerText []) (htag : '%' ∉ tag)
    (hadapt : adapt.IsSink) {buf : LogBuffer} (hbuf : formatLog tag level text = .returned buf)
    (hinside : buf.StaysInside)
    (hout : OutputLog pointerText adapt buf (logLineText tag level text)) :
    adapt = .useFile ∨ '%' ∉ textOf buf.area := by
  by_contra hpercent
  have hlost := count_outputLog_lt hadapt hpointer hpercent hout
  rw [textOf_formatLog hbuf hinside] at hlost
  have hkept : text.count '%' ≤ (logLineText tag level text).count '%' := by
    rw [logLineText, List.count_append, List.count_append]
    omega
  exact absurd (Nat.lt_of_lt_of_le hlost (count_textOf_logFront_le htag)) (Nat.not_lt.mpr hkept)

/-- A text reaches the sink as its line exactly where it goes to a file or has no percent
sign, and the tag has no NUL and leaves the size of the string an `int`. -/
theorem logsExactly_iff (hpointer : '%' ∉ pointerText []) (htag : '%' ∉ tag) (level : LogLevel)
    (hlen : text.length ≤ 1021) (hnul : '\x00' ∉ text) (hadapt : adapt.IsSink) :
    LogsExactly pointerText adapt tag level text ↔
      (adapt = .useFile ∨ '%' ∉ text) ∧ '\x00' ∉ tag ∧
        (logHeader tag level).length + 1024 ≤ 2147483647 := by
  rw [← textOf_logFront_eq_iff hlen hnul]
  constructor
  · intro h
    obtain ⟨buf, hbuf, hinside, hout⟩ := logs_iff.mp ((h _).mpr rfl)
    have htext := textOf_formatLog hbuf hinside
    have hplain := plain_of_outputLog hpointer htag hadapt hbuf hinside hout
    have hline := (outputLog_iff hadapt hpointer hplain).mp hout
    rw [← hline, percent_mem_logLineText htag] at hplain
    rw [htext, logLineText] at hline
    exact ⟨hplain, (formatLog_eq_returned.mp hbuf).1, (List.append_cancel_right hline).symm⟩
  · rintro ⟨hplain, hfits, hfront⟩ out
    have hbuf : formatLog tag level text = .returned _ :=
      formatLog_eq_returned.mpr ⟨hfits, rfl⟩
    have hinside := (returned_staysInside_iff hbuf).mpr (.inr (Nat.le_succ_of_le hlen))
    have htext := textOf_formatLog hbuf hinside
    rw [hfront, ← logLineText] at htext
    rw [← percent_mem_logLineText htag, ← htext] at hplain
    rw [logs_iff, ← htext, ← outputLog_iff hadapt hpointer hplain]
    constructor
    · rintro ⟨buf, hbuf', -, hout⟩
      rw [hbuf] at hbuf'
      cases hbuf'
      exact hout
    · exact fun hout => ⟨_, hbuf, hinside, hout⟩

end

/-- A text without percent signs arrives in the log of the system. -/
theorem logsExactly_adb : LogsExactly (fun _ => "0x7fc0".toList) .useAdb "hk_jni".toList .info
    "text".toList :=
  (logsExactly_iff (by decide) (by decide) .info (by decide) (by decide) (.inr (.inr rfl))).mpr
    ⟨.inr (by decide), by decide, by decide⟩

/-- The text `%n` does not arrive on the standard output. -/
theorem not_logsExactly_printf : ¬ LogsExactly (fun _ => "0x7fc0".toList) .usePrintf
    "hk_jni".toList .info "%n".toList := by
  intro h
  obtain ⟨buf, hbuf, hinside, hout⟩ := logs_iff.mp ((h _).mpr rfl)
  have htext : textOf buf.area = logLineText "hk_jni".toList .info "%n".toList := by
    rw [textOf_formatLog hbuf hinside]
    decide
  have hplain := plain_of_outputLog (by decide) (by decide) (.inr (.inl rfl)) hbuf hinside hout
  rw [htext] at hplain
  exact absurd hplain (by decide)

end Utils
