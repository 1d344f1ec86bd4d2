import Mathlib.Algebra.Group.Int.Defs
import Mathlib.Algebra.GroupWithZero.Nat
import Mathlib.Tactic.Common

/-!
# Byte memory

A memory gives a byte at every address.  A word of `n` bytes at `a` has its
least significant byte at `a`.  Addresses are natural numbers.  A machine reads
them off its registers, and the bounds that keep an access below the top of the
address space are stated where an access is made.

`readBytes_writeBytes_same` and `readBytes_writeBytes_of_disjoint` are the two
rules a program proof uses.  `Mem.AgreeOn` is the frame of a callee: the set of
addresses it leaves alone.
-/

namespace Machine

/-- A byte at every address. -/
abbrev Mem := Nat → BitVec 8

/-- The `n` bytes from `a` on, least significant first. -/
def readBytes (m : Mem) (a : Nat) : (n : Nat) → BitVec (8 * n)
  | 0 => 0#0
  | n + 1 => (readBytes m (a + 1) n ++ m a : BitVec (8 * n + 8))

/-- Store the `n` bytes of `v` from `a` on. -/
def writeBytes (m : Mem) (a n : Nat) (v : BitVec (8 * n)) : Mem := fun b =>
  if a ≤ b ∧ b < a + n then v.extractLsb' (8 * (b - a)) 8 else m b

/-- Bit `i` of a word is bit `i % 8` of its byte `i / 8`. -/
theorem getLsbD_readBytes (m : Mem) : ∀ (n a i : Nat),
    (readBytes m a n).getLsbD i = (decide (i < 8 * n) && (m (a + i / 8)).getLsbD (i % 8))
  | 0, a, i => by simp [readBytes]
  | n + 1, a, i => by
      have ih := getLsbD_readBytes m n (a + 1) (i - 8)
      rw [readBytes, BitVec.getLsbD_append]
      by_cases h : i < 8
      · have hdiv : i / 8 = 0 := by omega
        have hmod : i % 8 = i := by omega
        have hlt : i < 8 * (n + 1) := by omega
        simp [h, hdiv, hmod, hlt]
      · have hdiv : a + 1 + (i - 8) / 8 = a + i / 8 := by omega
        have hmod : (i - 8) % 8 = i % 8 := by omega
        have hlt : i - 8 < 8 * n ↔ i < 8 * (n + 1) := by omega
        rw [if_neg h, ih, hdiv, hmod]
        simp only [hlt]

/-- A word just stored reads back. -/
theorem readBytes_writeBytes_same (m : Mem) (a n : Nat) (v : BitVec (8 * n)) :
    readBytes (writeBytes m a n v) a n = v := by
  apply BitVec.eq_of_getLsbD_eq
  intro i hi
  have hin : a ≤ a + i / 8 ∧ a + i / 8 < a + n := by omega
  have hoff : a + i / 8 - a = i / 8 := by omega
  have hbit : 8 * (i / 8) + i % 8 = i := by omega
  have hmod : i % 8 < 8 := by omega
  rw [getLsbD_readBytes, writeBytes, if_pos hin, BitVec.getLsbD_extractLsb', hoff, hbit]
  simp [hi, hmod]

/-- A word depends on its own bytes only. -/
theorem readBytes_congr {m m' : Mem} : ∀ {n a : Nat},
    (∀ b, a ≤ b → b < a + n → m b = m' b) → readBytes m a n = readBytes m' a n
  | 0, _, _ => rfl
  | n + 1, a, h => by
      have htail : readBytes m (a + 1) n = readBytes m' (a + 1) n :=
        readBytes_congr fun b hlo hhi => h b (by omega) (by omega)
      rw [readBytes, readBytes, htail, h a (by omega) (by omega)]

/-- A store to other addresses leaves a word alone. -/
theorem readBytes_writeBytes_of_disjoint (m : Mem) {a b n k : Nat} (v : BitVec (8 * k))
    (h : a + n ≤ b ∨ b + k ≤ a) : readBytes (writeBytes m b k v) a n = readBytes m a n := by
  refine readBytes_congr fun c hlo hhi => ?_
  have hout : ¬(b ≤ c ∧ c < b + k) := by omega
  rw [writeBytes, if_neg hout]

/-- A store outside `b` leaves the byte at `b` alone. -/
theorem writeBytes_apply_of_lt (m : Mem) {a b n : Nat} (v : BitVec (8 * n))
    (h : b < a ∨ a + n ≤ b) : writeBytes m a n v b = m b := by
  have hout : ¬(a ≤ b ∧ b < a + n) := by omega
  rw [writeBytes, if_neg hout]

/-- The first bytes of a word are its low bits. -/
theorem readBytes_setWidth (m : Mem) (a : Nat) {k n : Nat} (h : k ≤ n) :
    (readBytes m a n).setWidth (8 * k) = readBytes m a k := by
  apply BitVec.eq_of_getLsbD_eq
  intro i hi
  have hn : i < 8 * n := by omega
  rw [BitVec.getLsbD_setWidth, getLsbD_readBytes, getLsbD_readBytes]
  simp [hi, hn]

/-! ## Doublewords -/

/-- The doubleword at `a`. -/
def read64 (m : Mem) (a : Nat) : BitVec 64 := readBytes m a 8

/-- Store a doubleword at `a`. -/
def write64 (m : Mem) (a : Nat) (v : BitVec 64) : Mem := writeBytes m a 8 v

@[simp] theorem read64_write64_same (m : Mem) (a : Nat) (v : BitVec 64) :
    read64 (write64 m a v) a = v := readBytes_writeBytes_same m a 8 v

theorem read64_write64_of_disjoint (m : Mem) {a b : Nat} (v : BitVec 64)
    (h : a + 8 ≤ b ∨ b + 8 ≤ a) : read64 (write64 m b v) a = read64 m a :=
  readBytes_writeBytes_of_disjoint m (n := 8) (k := 8) v h

theorem write64_congr {m m' : Mem} {a a' : Nat} {v : BitVec 64} (hm : m = m') (ha : a = a') :
    write64 m a v = write64 m' a' v := by rw [hm, ha]

/-! ## Words -/

/-- The word at `a`. -/
def read32 (m : Mem) (a : Nat) : BitVec 32 := readBytes m a 4

/-- Store a word at `a`. -/
def write32 (m : Mem) (a : Nat) (v : BitVec 32) : Mem := writeBytes m a 4 v

@[simp] theorem read32_write32_same (m : Mem) (a : Nat) (v : BitVec 32) :
    read32 (write32 m a v) a = v := readBytes_writeBytes_same m a 4 v

theorem read32_write32_of_disjoint (m : Mem) {a b : Nat} (v : BitVec 32)
    (h : a + 4 ≤ b ∨ b + 4 ≤ a) : read32 (write32 m b v) a = read32 m a :=
  readBytes_writeBytes_of_disjoint m (n := 4) (k := 4) v h

theorem write32_congr {m m' : Mem} {a a' : Nat} {v : BitVec 32} (hm : m = m') (ha : a = a') :
    write32 m a v = write32 m' a' v := by rw [hm, ha]

/-- What the words from `a` on stand for. -/
def decodeWords {I : Type} (decode : BitVec 32 → Option I) (m : Mem) (a : Nat) :
    (n : Nat) → Option (List I)
  | 0 => some []
  | n + 1 => do
      let i ← decode (read32 m a)
      let is ← decodeWords decode m (a + 4) n
      some (i :: is)

/-- A stretch is decoded word by word. -/
theorem decodeWords_eq_some {I : Type} {decode : BitVec 32 → Option I} {m : Mem} {a : Nat}
    {is : List I} (h : ∀ i (hi : i < is.length), decode (read32 m (a + 4 * i)) = some is[i]) :
    decodeWords decode m a is.length = some is := by
  induction is generalizing a with
  | nil => rfl
  | cons i is ih =>
      have hhead : decode (read32 m a) = some i := h 0 (Nat.zero_lt_succ _)
      have htail : decodeWords decode m (a + 4) is.length = some is := by
        refine ih fun k hk => ?_
        have hnext := h (k + 1) (Nat.succ_lt_succ hk)
        rwa [Nat.mul_succ, Nat.add_comm (4 * k), ← Nat.add_assoc, List.getElem_cons_succ] at hnext
      rw [List.length_cons, decodeWords, hhead, htail]
      rfl

/-! ## Copies -/

/-- A memory with a list of bytes at its bottom. -/
def Mem.ofBytes (bytes : List (BitVec 8)) : Mem := fun b => bytes.getD b 0

/-- `memcpy(a, bytes, bytes.length)` -/
def memcpy (m : Mem) (a : Nat) (bytes : List (BitVec 8)) : Mem := fun b =>
  if a ≤ b ∧ b < a + bytes.length then Mem.ofBytes bytes (b - a) else m b

/-- What lies in a copy reads as in the original. -/
theorem readBytes_memcpy (m : Mem) (a : Nat) {bytes : List (BitVec 8)} {j n : Nat}
    (h : j + n ≤ bytes.length) :
    readBytes (memcpy m a bytes) (a + j) n = readBytes (Mem.ofBytes bytes) j n := by
  induction n generalizing j with
  | zero => rfl
  | succ n ih =>
      have hin : a ≤ a + j ∧ a + j < a + bytes.length := by omega
      have htail := ih (j := j + 1) (by omega)
      rw [readBytes, readBytes, memcpy, if_pos hin, Nat.add_sub_cancel_left, ← htail,
        Nat.add_assoc]

/-- The `n` bytes from `a` on, as a list. -/
def bytesAt (m : Mem) (a n : Nat) : List (BitVec 8) := (List.range n).map fun k => m (a + k)

@[simp] theorem length_bytesAt (m : Mem) (a n : Nat) : (bytesAt m a n).length = n := by
  rw [bytesAt, List.length_map, List.length_range]

theorem ofBytes_bytesAt (m : Mem) {a n k : Nat} (hk : k < n) :
    Mem.ofBytes (bytesAt m a n) k = m (a + k) := by
  rw [Mem.ofBytes, bytesAt, List.getD_eq_getElem?_getD, List.getElem?_map,
    List.getElem?_range hk]
  rfl

/-- What is copied from one address to another reads the same. -/
theorem readBytes_copy (m m' : Mem) (a b : Nat) {j n k : Nat} (h : j + n ≤ k) :
    readBytes (memcpy m' a (bytesAt m b k)) (a + j) n = readBytes m (b + j) n := by
  rw [readBytes_memcpy m' a (by rwa [length_bytesAt])]
  induction n generalizing j with
  | zero => rfl
  | succ n ih =>
      have htail := ih (j := j + 1) (by omega)
      rw [readBytes, readBytes, ofBytes_bytesAt m (by omega), htail, Nat.add_assoc]

/-! ## Frames -/

/-- Two memories agree on a set of addresses. -/
def Mem.AgreeOn (p : Nat → Prop) (m m' : Mem) : Prop := ∀ b, p b → m' b = m b

theorem Mem.AgreeOn.refl (p : Nat → Prop) (m : Mem) : Mem.AgreeOn p m m := fun _ _ => rfl

theorem Mem.AgreeOn.trans {p : Nat → Prop} {m m' m'' : Mem} (h : Mem.AgreeOn p m m')
    (h' : Mem.AgreeOn p m' m'') : Mem.AgreeOn p m m'' :=
  fun b hb => (h' b hb).trans (h b hb)

theorem Mem.AgreeOn.mono {p q : Nat → Prop} {m m' : Mem} (h : Mem.AgreeOn p m m')
    (hqp : ∀ b, q b → p b) : Mem.AgreeOn q m m' := fun b hb => h b (hqp b hb)

theorem Mem.AgreeOn.writeBytes {p : Nat → Prop} {m m' : Mem} (h : Mem.AgreeOn p m m') {a n : Nat}
    (v : BitVec (8 * n)) (hout : ∀ b, p b → b < a ∨ a + n ≤ b) :
    Mem.AgreeOn p m (writeBytes m' a n v) :=
  fun b hb => (writeBytes_apply_of_lt m' v (hout b hb)).trans (h b hb)

theorem Mem.AgreeOn.readBytes {p : Nat → Prop} {m m' : Mem} (h : Mem.AgreeOn p m m') {a n : Nat}
    (hin : ∀ b, a ≤ b → b < a + n → p b) : readBytes m' a n = readBytes m a n :=
  readBytes_congr fun b hlo hhi => h b (hin b hlo hhi)

theorem Mem.AgreeOn.write64 {p : Nat → Prop} {m m' : Mem} (h : Mem.AgreeOn p m m') {a : Nat}
    (v : BitVec 64) (hout : ∀ b, p b → b < a ∨ a + 8 ≤ b) :
    Mem.AgreeOn p m (write64 m' a v) := h.writeBytes (n := 8) v hout

theorem Mem.AgreeOn.read64 {p : Nat → Prop} {m m' : Mem} (h : Mem.AgreeOn p m m') {a : Nat}
    (hin : ∀ b, a ≤ b → b < a + 8 → p b) : read64 m' a = read64 m a := h.readBytes hin

theorem Mem.AgreeOn.write32 {p : Nat → Prop} {m m' : Mem} (h : Mem.AgreeOn p m m') {a : Nat}
    (v : BitVec 32) (hout : ∀ b, p b → b < a ∨ a + 4 ≤ b) :
    Mem.AgreeOn p m (write32 m' a v) := h.writeBytes (n := 4) v hout

theorem Mem.AgreeOn.read32 {p : Nat → Prop} {m m' : Mem} (h : Mem.AgreeOn p m m') {a : Nat}
    (hin : ∀ b, a ≤ b → b < a + 4 → p b) : read32 m' a = read32 m a := h.readBytes hin

theorem Mem.AgreeOn.memcpy {p : Nat → Prop} {m m' : Mem} (h : Mem.AgreeOn p m m') {a : Nat}
    (bytes : List (BitVec 8)) (hout : ∀ b, p b → b < a ∨ a + bytes.length ≤ b) :
    Mem.AgreeOn p m (memcpy m' a bytes) := by
  intro b hb
  have hnot : ¬(a ≤ b ∧ b < a + bytes.length) := by
    have := hout b hb
    omega
  exact (if_neg hnot).trans (h b hb)

end Machine
