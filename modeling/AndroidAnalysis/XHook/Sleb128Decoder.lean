import AndroidAnalysis.Codec.Sleb128
import AndroidAnalysis.Machine.Stored

/-!
# The number decoder of the PLT hook

Packed relocations are a list of signed LEB128 numbers.  The decoder reads one of
them at its cursor, collects it in a `size_t`, and fails where its bytes are used up
within a number.  C leaves a shift by 64 or more open, which only happens from the
eleventh byte of a number on.  The model takes no bits there.

`sleb128DecoderNext_ahead` says what a number is read as, in whatever encoding, and
`ahead_encode` that a value that was encoded is read back.
-/

namespace XHook

open Machine

/-- `xh_errno.h`, and a number that the system gives -/
inductive Errno
  | unknown | inval | nomem | repeated | notfnd | badmaps | format | elfinit | segverr
  | sys (errno : Nat)
  deriving DecidableEq, Repr

/-- `xh_elf_sleb128_decoder_t` -/
structure Sleb128Decoder where
  cur : Nat
  stop : Nat
  deriving DecidableEq, Repr

/-- `xh_elf_sleb128_decoder_init` -/
def sleb128DecoderInit (rel : BitVec 64) (relSz : BitVec 32) : Sleb128Decoder where
  cur := rel.toNat
  stop := rel.toNat + relSz.toNat

/-- The loop of `xh_elf_sleb128_decoder_next`, with the number of bytes that are left,
and where it leaves the cursor. -/
def sleb128DecoderLoop (m : Mem) : (left : Nat) → (cur : Nat) → (value : BitVec 64) →
    (shift : Nat) → Except Errno (BitVec 64 × Nat)
  | 0, _, _, _ => .error .format
  | left + 1, cur, value, shift =>
      let byte := m cur
      let value := value ||| ((byte &&& 127).setWidth 64 <<< shift)
      let shift := shift + 7
      if byte &&& 128 ≠ 0 then sleb128DecoderLoop m left (cur + 1) value shift
      else if shift < 64 ∧ byte &&& 64 ≠ 0 then
        .ok (value ||| -((1 : BitVec 64) <<< shift), cur + 1)
      else .ok (value, cur + 1)

/-- `xh_elf_sleb128_decoder_next` -/
def sleb128DecoderNext (m : Mem) (self : Sleb128Decoder) :
    Except Errno (BitVec 64 × Sleb128Decoder) :=
  match sleb128DecoderLoop m (self.stop - self.cur) self.cur 0 0 with
  | .error e => .error e
  | .ok (ret, cur) => .ok (ret, { self with cur })

/-! ## Reading a number -/

/-- The value with one digit more is below the place of the next one. -/
theorem digits_lt {value shift : Nat} (b : BitVec 8) (hvalue : value < 2 ^ shift) :
    value + 2 ^ shift * (Sleb128.digit b).toNat < 2 ^ (shift + 7) := by
  have hdigit : (Sleb128.digit b).toNat < 2 ^ 7 := (Sleb128.digit b).isLt
  have hmul : 2 ^ shift * ((Sleb128.digit b).toNat + 1) ≤ 2 ^ shift * 2 ^ 7 :=
    Nat.mul_le_mul_left _ hdigit
  rw [Nat.pow_add]
  rw [Nat.mul_add_one] at hmul
  omega

theorem toNat_ofInt_digits {value shift : Nat} (b : BitVec 8) (hvalue : value < 2 ^ shift)
    (hfit : shift + 7 < 64) :
    (BitVec.ofInt 64 (value + 2 ^ shift * (Sleb128.digit b).toNat)).toNat =
      value + 2 ^ shift * (Sleb128.digit b).toNat := by
  have hlt : value + 2 ^ shift * (Sleb128.digit b).toNat < 2 ^ 64 :=
    Nat.lt_of_lt_of_le (digits_lt b hvalue) (Nat.pow_le_pow_right (by decide) (Nat.le_of_lt hfit))
  have hcast : (value + 2 ^ shift * (Sleb128.digit b).toNat : Int) =
      ((value + 2 ^ shift * (Sleb128.digit b).toNat : Nat) : Int) := by push_cast; rfl
  rw [hcast, BitVec.ofInt_natCast, BitVec.toNat_ofNat, Nat.mod_eq_of_lt hlt]

/-- The last byte: its digit counts with its sign. -/
theorem last_digit {value shift : Nat} (b : BitVec 8) (hvalue : value < 2 ^ shift) :
    (if shift + 7 < 64 ∧ b &&& 64 ≠ 0 then
      BitVec.ofInt 64 (value + 2 ^ shift * (Sleb128.digit b).toNat) |||
        -((1 : BitVec 64) <<< (shift + 7))
    else BitVec.ofInt 64 (value + 2 ^ shift * (Sleb128.digit b).toNat)) =
      BitVec.ofInt 64 (value + 2 ^ shift * (Sleb128.digit b).toInt) := by
  rw [Sleb128.toInt_digit]
  by_cases hsign : b &&& 64 ≠ 0
  · have hsub : (value + 2 ^ shift * ((Sleb128.digit b).toNat - 2 ^ 7) : Int) =
        value + 2 ^ shift * (Sleb128.digit b).toNat - 2 ^ (shift + 7) := by
      rw [Int.mul_sub, ← Int.pow_add, Int.add_sub_assoc]
    rw [if_pos hsign, hsub]
    rcases Nat.lt_or_ge (shift + 7) 64 with hlt | hge
    · have hnext := toNat_ofInt_digits b hvalue hlt
      rw [if_pos ⟨hlt, hsign⟩]
      refine (Sleb128.or_sign (hnext ▸ digits_lt b hvalue)).trans ?_
      rw [hnext]
      push_cast
      rfl
    · rw [if_neg fun h => Nat.not_lt.mpr hge h.1, Int.sub_eq_add_neg, ← Int.mul_neg_one,
        Sleb128.ofInt_add_mul _ _ hge]
  · rw [if_neg fun h => hsign h.2, if_neg hsign]

/-- A number that is in memory is read as its value. -/
theorem sleb128DecoderLoop_stored {m : Mem} {bs : List (BitVec 8)} (hbs : Sleb128.Terminated bs)
    (rest : Nat) {cur : Nat} {value : BitVec 64} {shift : Nat} (hin : Stored m cur bs)
    (hvalue : value.toNat < 2 ^ shift) (hfit : shift + 7 * bs.length < 64 + 7) :
    sleb128DecoderLoop m (bs.length + rest) cur value shift =
      .ok (BitVec.ofInt 64 (value.toNat + 2 ^ shift * Sleb128.value bs), cur + bs.length) := by
  induction bs generalizing cur value shift with
  | nil => exact hbs.elim
  | cons b bs ih =>
      obtain ⟨hb, hin⟩ := hin
      rw [List.length_cons, Nat.add_right_comm, sleb128DecoderLoop, hb]
      simp only [Sleb128.and_128_ne_zero, Sleb128.or_digit hvalue b]
      cases bs with
      | nil =>
          have hlast : b.msb = false := hbs
          rw [Sleb128.value_last hlast, hlast, if_neg Bool.false_ne_true, ← last_digit b hvalue]
          split
          next => rfl
          next => rfl
      | cons c cs =>
          obtain ⟨hmore, hrest⟩ := hbs
          simp only [List.length_cons] at hfit
          have hnext := toNat_ofInt_digits b hvalue (by omega)
          have hsum : ((value.toNat + 2 ^ shift * (Sleb128.digit b).toNat : Nat) : Int) +
              2 ^ (shift + 7) * Sleb128.value (c :: cs) =
              value.toNat + 2 ^ shift * Sleb128.value (b :: c :: cs) := by
            rw [Sleb128.value_more hmore, Int.pow_add, Int.mul_add, Int.mul_assoc, ← Int.add_assoc]
            push_cast
            rfl
          rw [if_pos hmore, ih hrest hin (hnext ▸ digits_lt b hvalue)
            (by simp only [List.length_cons]; omega), hnext, hsum, Nat.add_right_comm]
          rfl

/-! ## The cursor -/

/-- The bytes are what the decoder has ahead of it. -/
def Ahead (m : Mem) (self : Sleb128Decoder) (bytes : List (BitVec 8)) : Prop :=
  Stored m self.cur bytes ∧ self.stop = self.cur + bytes.length

/-- The decoder reads the number it has ahead of it. -/
theorem sleb128DecoderNext_ahead {m : Mem} {self : Sleb128Decoder} {bs rest : List (BitVec 8)}
    (hbs : Sleb128.Terminated bs) (hlen : bs.length ≤ 10) (h : Ahead m self (bs ++ rest)) :
    ∃ d, sleb128DecoderNext m self = .ok (BitVec.ofInt 64 (Sleb128.value bs), d) ∧
      Ahead m d rest := by
  obtain ⟨hin, hstop⟩ := h
  obtain ⟨hin, hrest⟩ := stored_append.mp hin
  rw [List.length_append] at hstop
  have hleft : self.stop - self.cur = bs.length + rest.length := by
    rw [hstop, Nat.add_sub_cancel_left]
  have hval : ((0 : BitVec 64).toNat + 2 ^ 0 * Sleb128.value bs : Int) = Sleb128.value bs := by
    rw [Int.pow_zero, Int.one_mul]
    exact Int.zero_add _
  have hloop : sleb128DecoderLoop m (bs.length + rest.length) self.cur 0 0 = _ :=
    sleb128DecoderLoop_stored hbs rest.length hin Nat.zero_lt_one (by omega)
  refine ⟨⟨self.cur + bs.length, self.stop⟩, ?_, hrest, by rw [hstop, Nat.add_assoc]⟩
  rw [sleb128DecoderNext, hleft, hloop, hval]

/-- A word as a number. -/
def encodeWord (v : BitVec 64) : List (BitVec 8) := Sleb128.encode v.toInt

/-- A word that was encoded is read back. -/
theorem ahead_encodeWord {m : Mem} {self : Sleb128Decoder} {v : BitVec 64}
    {rest : List (BitVec 8)} (h : Ahead m self (encodeWord v ++ rest)) :
    ∃ d, sleb128DecoderNext m self = .ok (v, d) ∧ Ahead m d rest := by
  have hlo := BitVec.le_toInt v
  have hhi := BitVec.toInt_lt (x := v)
  have hlen : (encodeWord v).length ≤ 9 + 1 :=
    Sleb128.length_encode_le (by omega) (by omega)
  obtain ⟨d, hd, hahead⟩ := sleb128DecoderNext_ahead (Sleb128.terminated_encode _) hlen h
  rw [Sleb128.value_encode, BitVec.ofInt_toInt] at hd
  exact ⟨d, hd, hahead⟩

end XHook
