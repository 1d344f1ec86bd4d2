import AndroidAnalysis.Cpp.Buffer

/-!
# `hex2str` and `str2hex` of `utils/str_helper.cpp`

`hex2str` writes two digits and a separator for each byte, and `str2hex` reads
two digits for each byte.  The bytes at a pointer and the length that goes with
it are one list.  What a function writes starts at the front of its area and has
no gaps, so it is a list too, and the index it is written at is counted in an
`int`: three steps a byte, which no sequence of `2^31 / 3` bytes has.

The hard point is `hex2int`.  It knows the letters up to `B` and counts them from
0, so a digit is read back exactly when it is at most 9 (`hex2int_cHex`), and a
sequence when all its digits are (`roundTrips_iff`).

A `char` is a byte here.  Where it is signed the bytes from 128 on are negative,
which no range of `hex2int` and no mask of `hex2str` tells apart.
-/

namespace Utils

open Cpp

/-! ## The functions -/

/-- `hex2int`. -/
def hex2int (c : UInt8) : Nat :=
  if '0'.toUInt8 ≤ c ∧ c ≤ '9'.toUInt8 then (c - 48).toNat
  else if 'A'.toUInt8 ≤ c ∧ c ≤ 'B'.toUInt8 then (c - 65).toNat
  else if 'a'.toUInt8 ≤ c ∧ c ≤ 'b'.toUInt8 then (c - 97).toNat
  else 0

/-- The digits `hex2str` writes. -/
def cHex : Bytes := "0123456789ABCDEF".toList.map Char.toUInt8

/-- The digit at an index. -/
def cHexAt (d : Nat) : UInt8 := cHex.getD d 0

/-- What follows the digits of the byte at `j`. -/
def separator (j : Int) : UInt8 := if (j + 1) % 16 = 0 then '\n'.toUInt8 else ' '.toUInt8

/-- The loop of `hex2str`, with `i` bytes written. -/
def hex2strLoop : Int → Int → Bytes → Except Fault Bytes
  | _, _, [] => .ok [0]
  | i, j, a :: hex => do
      let i ← intResult (i + 1)
      let i ← intResult (i + 1)
      let next ← intResult (j + 1)
      let i ← intResult (i + 1)
      let str ← hex2strLoop i next hex
      .ok (cHexAt ((a.toNat &&& 0xf0) >>> 4) :: cHexAt (a.toNat &&& 0x0f) :: separator j :: str)

/-- `hex2str`. -/
def hex2str (hex : Bytes) : Except Fault Bytes := hex2strLoop 0 0 hex

/-- The loop of `str2hex`, with `i` bytes written and `j` read. -/
def str2hexLoop : Int → Int → Bytes → Except Fault Bytes
  | i, j, c :: c' :: str => do
      let j ← intResult (j + 1)
      let j ← intResult (j + 1)
      let i ← intResult (i + 1)
      let hex ← str2hexLoop i j str
      .ok (UInt8.ofNat (hex2int c * 16 + hex2int c') :: hex)
  | _, _, _ => .ok []

/-- `str2hex`. -/
def str2hex (str : Bytes) : Except Fault Bytes := str2hexLoop 0 0 str

/-- The text that ends at the first NUL, without separators. -/
def digits (str : Bytes) : Bytes :=
  (str.takeWhile (· ≠ 0)).filter fun c => c ≠ ' '.toUInt8 ∧ c ≠ '\n'.toUInt8

/-- Decoding the digits of the encoded bytes gives the bytes. -/
def RoundTrips (bytes : Bytes) : Prop :=
  ∃ str, hex2str bytes = .ok str ∧ str2hex (digits str) = .ok bytes

/-! ## One digit -/

/-- A digit is neither a separator nor the end of the text. -/
theorem cHexAt_isDigit : ∀ d < 16,
    cHexAt d ≠ 0 ∧ cHexAt d ≠ ' '.toUInt8 ∧ cHexAt d ≠ '\n'.toUInt8 := by
  decide

/-- A digit is read back where it is no letter. -/
theorem hex2int_cHexAt : ∀ d < 16,
    hex2int (cHexAt d) < 16 ∧ (hex2int (cHexAt d) = d ↔ d ≤ 9) := by
  decide

/-- The digits of a byte. -/
theorem low_digit (a : Nat) : a &&& 0x0f = a % 16 := Nat.and_two_pow_sub_one_eq_mod a 4

theorem high_digit {a : Nat} (h : a < 256) : (a &&& 0xf0) >>> 4 = a / 16 := by
  rw [Nat.shiftRight_and_distrib, Nat.shiftRight_eq_div_pow]
  show a / 16 &&& 0x0f = a / 16
  rw [low_digit]
  omega

/-- The byte that is read for two digits. -/
def reread (a : UInt8) : UInt8 :=
  UInt8.ofNat (hex2int (cHexAt (a.toNat / 16)) * 16 + hex2int (cHexAt (a.toNat % 16)))

/-- A byte is read back where both its digits are. -/
theorem reread_eq_iff (a : UInt8) : reread a = a ↔ a.toNat / 16 ≤ 9 ∧ a.toNat % 16 ≤ 9 := by
  have ha := a.toNat_lt
  obtain ⟨hhigh, hhigh'⟩ := hex2int_cHexAt (a.toNat / 16) (by omega)
  obtain ⟨hlow, hlow'⟩ := hex2int_cHexAt (a.toNat % 16) (by omega)
  rw [← hhigh', ← hlow', ← UInt8.toNat_inj, reread, UInt8.toNat_ofNat']
  omega

/-! ## The loops -/

/-- What is written for the bytes from `j` on. -/
def hexText : Int → Bytes → Bytes
  | _, [] => [0]
  | j, a :: hex =>
      cHexAt (a.toNat / 16) :: cHexAt (a.toNat % 16) :: separator j :: hexText (j + 1) hex

/-- The digits of a byte. -/
def hexPair (a : UInt8) : Bytes := [cHexAt (a.toNat / 16), cHexAt (a.toNat % 16)]

/-- `hex2str` returns where its index remains an `int`. -/
theorem hex2strLoop_eq_ok {i j : Int} (hi : IsInt i) (hj : 0 ≤ j) (hji : j ≤ i) (hex str : Bytes) :
    hex2strLoop i j hex = .ok str ↔ IsInt (i + 3 * hex.length) ∧ str = hexText j hex := by
  induction hex generalizing i j str with
  | nil =>
      rw [hex2strLoop, hexText, Except.ok.injEq, eq_comm]
      simpa using fun _ => hi
  | cons a hex ih =>
      have hdigits := high_digit a.toNat_lt
      simp only [hex2strLoop, hexText, bind_eq_ok, intResult_eq_ok, hdigits, low_digit,
        List.length_cons, Except.ok.injEq]
      constructor
      · rintro ⟨i₁, ⟨-, rfl⟩, i₂, ⟨-, rfl⟩, j, ⟨-, rfl⟩, i₃, ⟨hi₃, rfl⟩, rest, hrest, rfl⟩
        obtain ⟨hlen, rfl⟩ := (ih hi₃ (by omega) (by omega) rest).mp hrest
        exact ⟨by rw [IsInt] at hlen ⊢; omega, rfl⟩
      · rintro ⟨hlen, rfl⟩
        have hsteps : ∀ k : Int, 0 ≤ k → k ≤ i + 3 → IsInt k := fun k hk hle =>
          hlen.of_le hk (by omega)
        have hi₃ : IsInt (i + 1 + 1 + 1) := hsteps _ (by omega) (by omega)
        refine ⟨_, ⟨hsteps _ (by omega) (by omega), rfl⟩, _, ⟨hsteps _ (by omega) (by omega), rfl⟩,
          _, ⟨hsteps _ (by omega) (by omega), rfl⟩, _, ⟨hi₃, rfl⟩, _, ?_, rfl⟩
        refine (ih hi₃ (by omega) (by omega) _).mpr ⟨?_, rfl⟩
        rw [IsInt] at hlen ⊢
        omega

/-- A character that is no separator stays. -/
theorem digits_cons {c : UInt8} (h : c ≠ 0 ∧ c ≠ ' '.toUInt8 ∧ c ≠ '\n'.toUInt8) (str : Bytes) :
    digits (c :: str) = c :: digits str := by
  rw [digits, List.takeWhile_cons_of_pos (by simpa using h.1), List.filter_cons_of_pos
    (by simpa using h.2)]
  rfl

/-- A separator goes. -/
theorem digits_separator_cons (j : Int) (str : Bytes) :
    digits (separator j :: str) = digits str := by
  have hsep : separator j ≠ 0 ∧ (separator j = ' '.toUInt8 ∨ separator j = '\n'.toUInt8) := by
    rw [separator]
    split
    next => decide
    next => decide
  rw [digits, List.takeWhile_cons_of_pos (by simpa using hsep.1), List.filter_cons_of_neg
    (by rcases hsep.2 with h | h <;> simp [h])]
  rfl

/-- The digits of the text are those of the bytes. -/
theorem digits_hexText (j : Int) (hex : Bytes) : digits (hexText j hex) = hex.flatMap hexPair := by
  induction hex generalizing j with
  | nil => rfl
  | cons a hex ih =>
      have ha := a.toNat_lt
      rw [hexText, digits_cons (cHexAt_isDigit (a.toNat / 16) (by omega)),
        digits_cons (cHexAt_isDigit (a.toNat % 16) (by omega)), digits_separator_cons, ih]
      rfl

/-- `str2hex` reads a byte for every pair of digits. -/
theorem str2hexLoop_pairs {i j : Int} (hi : 0 ≤ i) (hij : i ≤ j) {hex : Bytes}
    (hlen : IsInt (j + 2 * hex.length)) :
    str2hexLoop i j (hex.flatMap hexPair) = .ok (hex.map reread) := by
  induction hex generalizing i j with
  | nil => rfl
  | cons a hex ih =>
      rw [List.length_cons] at hlen
      have hsteps : ∀ k : Int, 0 ≤ k → k ≤ j + 2 → IsInt k := fun k hk hle =>
        hlen.of_le hk (by omega)
      have hrest := ih (i := i + 1) (j := j + 1 + 1) (by omega) (by omega)
        (by rw [IsInt] at hlen ⊢; omega)
      show str2hexLoop i j (_ :: _ :: hex.flatMap hexPair) = _
      rw [str2hexLoop, intResult_of_isInt (hsteps _ (by omega) (by omega)), ok_bind,
        intResult_of_isInt (hsteps _ (by omega) (by omega)), ok_bind,
        intResult_of_isInt (hsteps _ (by omega) (by omega)), ok_bind, hrest]
      rfl

/-! ## The round trip -/

/-- A sequence is read back exactly where no digit of it is a letter and the index
of its text is an `int`. -/
theorem roundTrips_iff (bytes : Bytes) :
    RoundTrips bytes ↔ (∀ a ∈ bytes, a.toNat / 16 ≤ 9 ∧ a.toNat % 16 ≤ 9) ∧
      3 * bytes.length ≤ 2147483647 := by
  have hread (hlen : IsInt (0 + 3 * (bytes.length : Int))) :
      str2hex (digits (hexText 0 bytes)) = .ok (bytes.map reread) := by
    rw [digits_hexText]
    exact str2hexLoop_pairs (Int.le_refl 0) (Int.le_refl 0) (hlen.of_le (by omega) (by omega))
  have hbytes : bytes.map reread = bytes ↔ ∀ a ∈ bytes, a.toNat / 16 ≤ 9 ∧ a.toNat % 16 ≤ 9 := by
    have hmap := List.map_inj_left (f := reread) (g := id) (l := bytes)
    rw [List.map_id] at hmap
    simpa only [← reread_eq_iff, id_eq] using hmap
  have hlength : IsInt (0 + 3 * (bytes.length : Int)) ↔ 3 * bytes.length ≤ 2147483647 := by
    rw [IsInt]
    omega
  rw [RoundTrips, and_comm, ← hlength, ← hbytes]
  simp only [hex2str, hex2strLoop_eq_ok (show IsInt 0 by decide) (Int.le_refl 0) (Int.le_refl 0)]
  constructor
  · rintro ⟨str, ⟨hlen, rfl⟩, h⟩
    rw [hread hlen, Except.ok.injEq] at h
    exact ⟨hlen, h⟩
  · rintro ⟨hlen, h⟩
    exact ⟨_, ⟨hlen, rfl⟩, by rw [hread hlen, h]⟩

/-- The byte `A0` is read back as `00`. -/
theorem not_roundTrips_letter : ¬ RoundTrips [0xa0] := by
  rintro ⟨str, hstr, hbytes⟩
  cases hstr
  exact absurd hbytes (by decide)

end Utils
