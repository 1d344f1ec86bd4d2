import AndroidAnalysis.Cpp.Format

/-!
# What `printf` writes

The output of a format whose arguments are strings.  A directive that takes
something else, or an argument that is not there, is undefined and writes nothing
that could be relied on: it has no output here.  What `%p` writes is left to the
implementation.

A format without a percent sign is its own output, and no other format is.  A
directive is written with one percent sign or two and writes none or one, so the
output has fewer of them than the format (`count_printfOut_lt`).
-/

namespace Cpp

/-! ## Fields -/

/-- The number a run of digits is read as. -/
def digitsValue (ds : List (Fin 10)) : Nat := ds.foldl (fun n d => 10 * n + d.val) 0

def Flag.isMinus : Flag → Bool
  | .minus => true
  | _ => false

/-- A flag that a text can have: `#` and `0` are undefined for it. -/
def Flag.forText : Flag → Bool
  | .hash | .zero => false
  | _ => true

/-- A text in a field that is at least `width` wide. -/
def PrintfSpec.pad (s : PrintfSpec) (width : Nat) (text : Str) : Str :=
  if s.flags.any Flag.isMinus then text ++ List.replicate (width - text.length) ' '
  else List.replicate (width - text.length) ' ' ++ text

section
variable (pointerText : Str → Str)

/-- What a conversion writes for a string. -/
def PrintfSpec.field (s : PrintfSpec) (a : Str) : Option Str :=
  if s.flags.all Flag.forText then
    match s.conv, s.width, s.precision with
    | .str false, .digits w, none => some (s.pad (digitsValue w) a)
    | .str false, .digits w, some (.digits p) =>
        some (s.pad (digitsValue w) (a.take (digitsValue p)))
    | .ptr, .digits w, none => some (s.pad (digitsValue w) (pointerText a))
    | _, _, _ => none
  else none

/-- What directives write for strings. -/
def printfOut : List PrintfPiece → List Str → Option Str
  | [], _ => some []
  | .plain c :: ps, args => (c.val :: ·) <$> printfOut ps args
  | .percent :: ps, args => ('%' :: ·) <$> printfOut ps args
  | .spec _ :: _, [] => none
  | .spec s :: ps, a :: args => do
      let field ← s.field pointerText a
      let rest ← printfOut ps args
      some (field ++ rest)

/-- A format writes a text for strings. -/
def PrintfWrites (fmt : Str) (args : List Str) (out : Str) : Prop :=
  ∃ pieces, (Format.printf pieces).text = fmt ∧ printfOut pointerText pieces args = some out

end

/-! ## Percent signs in and out -/

theorem PrintfSpec.percent_notMem_pad (s : PrintfSpec) (width : Nat) {text : Str}
    (h : '%' ∉ text) : '%' ∉ s.pad width text := by
  have hblanks : '%' ∉ List.replicate (width - text.length) ' ' := fun hmem =>
    absurd (List.eq_of_mem_replicate hmem) (by decide)
  rw [PrintfSpec.pad]
  split
  next => exact fun hmem => (List.mem_append.mp hmem).elim h hblanks
  next => exact fun hmem => (List.mem_append.mp hmem).elim hblanks h

section
variable {pointerText : Str → Str}

/-- A conversion writes no percent sign that is not in its argument. -/
theorem PrintfSpec.percent_notMem_field {s : PrintfSpec} {a out : Str} (ha : '%' ∉ a)
    (hpointer : '%' ∉ pointerText a) (h : s.field pointerText a = some out) : '%' ∉ out := by
  rw [PrintfSpec.field] at h
  split at h
  next =>
    split at h
    next =>
      cases h
      exact s.percent_notMem_pad _ ha
    next =>
      cases h
      exact s.percent_notMem_pad _ fun hmem => ha (List.mem_of_mem_take hmem)
    next =>
      cases h
      exact s.percent_notMem_pad _ hpointer
    next => exact nomatch h
  next => exact nomatch h

/-- The text of a conversion has one percent sign. -/
theorem PrintfSpec.count_text (s : PrintfSpec) :
    (PrintfPiece.spec s).text.count '%' = 1 := by
  rw [PrintfPiece.text, List.count_cons_self, List.count_eq_zero_of_not_mem s.percent_notMem]

/-- The output has no more percent signs than the format, and fewer where the format has
one. -/
theorem count_printfOut {pieces : List PrintfPiece} {args : List Str} {out : Str}
    (hargs : ∀ a ∈ args, '%' ∉ a ∧ '%' ∉ pointerText a)
    (h : printfOut pointerText pieces args = some out) :
    out.count '%' ≤ (Format.printf pieces).text.count '%' ∧
      ('%' ∈ (Format.printf pieces).text →
        out.count '%' < (Format.printf pieces).text.count '%') := by
  induction pieces generalizing args out with
  | nil =>
      cases h
      exact ⟨Nat.le_refl _, fun hmem => absurd hmem List.not_mem_nil⟩
  | cons piece ps ih =>
      have htext : (Format.printf (piece :: ps)).text = piece.text ++ (Format.printf ps).text :=
        List.flatMap_cons
      rw [htext]
      cases piece with
      | plain c =>
          obtain ⟨rest, hrest, rfl⟩ := Option.map_eq_some_iff.mp h
          obtain ⟨hle, hlt⟩ := ih hargs hrest
          rw [PrintfPiece.text, List.singleton_append, List.count_cons_of_ne c.ne_percent,
            List.count_cons_of_ne c.ne_percent, List.mem_cons, or_iff_right c.ne_percent.symm]
          exact ⟨hle, hlt⟩
      | percent =>
          obtain ⟨rest, hrest, rfl⟩ := Option.map_eq_some_iff.mp h
          obtain ⟨hle, -⟩ := ih hargs hrest
          rw [List.count_append, List.count_cons_self]
          have hcount : PrintfPiece.percent.text.count '%' = 2 := rfl
          omega
      | spec s =>
          cases args with
          | nil => exact nomatch h
          | cons a args =>
              obtain ⟨ha, hargs⟩ := List.forall_mem_cons.mp hargs
              obtain ⟨field, hfield, h⟩ := Option.bind_eq_some_iff.mp h
              obtain ⟨rest, hrest, h⟩ := Option.bind_eq_some_iff.mp h
              cases h
              obtain ⟨hle, -⟩ := ih hargs hrest
              have hfield := s.percent_notMem_field ha.1 ha.2 hfield
              rw [List.count_append, List.count_append, s.count_text,
                List.count_eq_zero_of_not_mem hfield]
              omega

/-- A format without a percent sign writes itself. -/
theorem printfOut_of_notMem {pieces : List PrintfPiece}
    (h : '%' ∉ (Format.printf pieces).text) (args : List Str) :
    printfOut pointerText pieces args = some (Format.printf pieces).text := by
  induction pieces with
  | nil => rfl
  | cons piece ps ih =>
      have htext : (Format.printf (piece :: ps)).text = piece.text ++ (Format.printf ps).text :=
        List.flatMap_cons
      rw [htext, List.mem_append, not_or] at h
      cases piece with
      | plain c =>
          rw [printfOut, ih h.2]
          rfl
      | percent => exact absurd List.mem_cons_self h.1
      | spec s => exact absurd List.mem_cons_self h.1

/-- Ordinary characters are a format. -/
theorem exists_format {s : Str} (hpercent : '%' ∉ s) (hnul : '\x00' ∉ s) :
    ∃ pieces, (Format.printf pieces).text = s := by
  induction s with
  | nil => exact ⟨[], rfl⟩
  | cons c s ih =>
      rw [List.mem_cons, not_or] at hpercent hnul
      obtain ⟨pieces, hpieces⟩ := ih hpercent.2 hnul.2
      exact ⟨.plain ⟨c, Ne.symm hpercent.1, Ne.symm hnul.1⟩ :: pieces, congrArg (c :: ·) hpieces⟩

/-- A format writes itself and nothing else exactly where it has no percent sign. -/
theorem printfWrites_self_iff {fmt : Str} (hnul : '\x00' ∉ fmt) {args : List Str}
    (hargs : ∀ a ∈ args, '%' ∉ a ∧ '%' ∉ pointerText a) :
    (∀ out, PrintfWrites pointerText fmt args out ↔ out = fmt) ↔ '%' ∉ fmt := by
  constructor
  · intro h hpercent
    obtain ⟨pieces, rfl, hout⟩ := (h fmt).mpr rfl
    exact Nat.lt_irrefl _ ((count_printfOut hargs hout).2 hpercent)
  · intro hpercent out
    constructor
    · rintro ⟨pieces, rfl, hout⟩
      rw [printfOut_of_notMem hpercent] at hout
      exact (Option.some.inj hout).symm
    · rintro rfl
      obtain ⟨pieces, hpieces⟩ := exists_format hpercent hnul
      refine ⟨pieces, hpieces, ?_⟩
      rw [printfOut_of_notMem (by rwa [hpieces]), hpieces]

/-! ## `%s` -/

/-- The directive `%s`. -/
def stringSpec : PrintfSpec := ⟨[], .digits [], none, .str false⟩

/-- No other conversion is written `s`. -/
theorem PrintfConv.eq_str {c : PrintfConv} (h : c.text = ['s']) : c = .str false := by
  cases c with
  | int len c => cases len <;> cases c <;> exact absurd h (by decide)
  | float len c => cases len <;> cases c <;> exact absurd h (by decide)
  | char wide => cases wide <;> exact absurd h (by decide)
  | str wide =>
      cases wide with
      | false => rfl
      | true => exact absurd h (by decide)
  | ptr => exact absurd h (by decide)
  | written len => cases len <;> exact absurd h (by decide)

/-- A directive without modifiers has no flags, no width and no precision. -/
theorem PrintfSpec.eq_of_modifiers {s : PrintfSpec} (h : s.modifiers = []) :
    s = ⟨[], .digits [], none, s.conv⟩ := by
  obtain ⟨flags, width, precision, conv⟩ := s
  rw [PrintfSpec.modifiers, List.append_eq_nil_iff, List.append_eq_nil_iff, List.map_eq_nil_iff] at h
  obtain ⟨⟨rfl, hwidth⟩, hprecision⟩ := h
  cases width with
  | star => exact absurd hwidth (List.cons_ne_nil _ _)
  | digits ds =>
      obtain rfl := List.map_eq_nil_iff.mp hwidth
      cases precision with
      | none => rfl
      | some a => exact absurd hprecision (List.cons_ne_nil _ _)

/-- No other directive is written `%s`. -/
theorem eq_stringSpec {s : PrintfSpec} {rest : Str}
    (h : (PrintfPiece.spec s).text ++ rest = ['%', 's']) : s = stringSpec ∧ rest = [] := by
  have htext : s.modifiers ++ (s.conv.text ++ rest) = ['s'] := by
    rw [← List.append_assoc]
    exact (List.cons.inj h).2
  have hlen := congrArg List.length htext
  have hconv := List.length_pos_iff.mpr s.conv.text_ne_nil
  rw [List.length_append, List.length_append, List.length_singleton] at hlen
  have hmodifiers : s.modifiers = [] := List.eq_nil_of_length_eq_zero (by omega)
  obtain rfl : rest = [] := List.eq_nil_of_length_eq_zero (by omega)
  rw [hmodifiers, List.nil_append, List.append_nil] at htext
  refine ⟨?_, rfl⟩
  rw [s.eq_of_modifiers hmodifiers, PrintfConv.eq_str htext]
  rfl

/-- A string that is formatted by `%s` is written as it is. -/
theorem printfWrites_string (a out : Str) :
    PrintfWrites pointerText ['%', 's'] [a] out ↔ out = a := by
  have hfield : stringSpec.field pointerText a = some a := by
    show some (List.replicate (0 - a.length) ' ' ++ a) = some a
    rw [Nat.zero_sub]
    rfl
  constructor
  · rintro ⟨pieces, hpieces, hout⟩
    cases pieces with
    | nil => exact nomatch hpieces
    | cons piece ps =>
        cases piece with
        | plain c => exact absurd (List.cons.inj hpieces).1 c.ne_percent
        | percent => exact absurd hpieces (by simp [Format.text, PrintfPiece.text])
        | spec s =>
            obtain ⟨rfl, hrest⟩ : s = stringSpec ∧ (Format.printf ps).text = [] :=
              eq_stringSpec hpieces
            have hnone : '%' ∉ (Format.printf ps).text := hrest ▸ List.not_mem_nil
            rw [printfOut, hfield, printfOut_of_notMem hnone, hrest] at hout
            exact (Option.some.inj hout).symm.trans (List.append_nil a)
  · rintro rfl
    refine ⟨[.spec stringSpec], rfl, ?_⟩
    rw [printfOut, hfield]
    exact congrArg some (List.append_nil out)

end

end Cpp
