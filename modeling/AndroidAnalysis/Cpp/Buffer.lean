import AndroidAnalysis.Cpp.Int
import AndroidAnalysis.Words.Overwrite

/-!
# Areas of memory

An area is the list of its bytes.  `load` and `store` are the two sides of
`memcpy`: an access outside the area is undefined, and one of no bytes accesses
nothing.
-/

namespace Cpp

open Words

/-- The bytes of an area. -/
abbrev Bytes := List UInt8

/-- The `n` bytes at `off`. -/
def load (mem : Bytes) (off n : Int) : Except Fault Bytes :=
  if n = 0 then .ok []
  else if 0 ≤ off ∧ 0 < n ∧ off + n ≤ mem.length then .ok ((mem.drop off.toNat).take n.toNat)
  else .error .undefined

/-- The area with other bytes at `off`. -/
def store (mem : Bytes) (off : Int) (bytes : Bytes) : Except Fault Bytes :=
  if bytes = [] then .ok mem
  else if 0 ≤ off ∧ off + bytes.length ≤ mem.length then .ok (overwrite mem off.toNat bytes)
  else .error .undefined

/-- `new char[n]()`. -/
def newChars (n : Int) : Except Fault Bytes :=
  if 0 ≤ n then .ok (List.replicate n.toNat 0) else .error .undefined

/-- `strlen`, which reads up to a NUL. -/
def strlen : Bytes → Except Fault Nat
  | [] => .error .undefined
  | c :: s => if c = 0 then .ok 0 else (· + 1) <$> strlen s

section
variable {mem bytes : Bytes} {off n : Int}

/-- A load returns when it is inside the area, or of no bytes. -/
theorem load_eq_ok {r : Bytes} :
    load mem off n = .ok r ↔ 0 ≤ n ∧ (n = 0 ∨ 0 ≤ off ∧ off + n ≤ mem.length) ∧
      r = (mem.drop off.toNat).take n.toNat := by
  rw [load]
  split
  next hzero =>
    subst hzero
    rw [Except.ok.injEq, Int.toNat_zero, List.take_zero, eq_comm]
    simp
  next hne =>
    split
    next hin =>
      rw [Except.ok.injEq, eq_comm]
      exact ⟨fun h => ⟨by omega, .inr ⟨hin.1, hin.2.2⟩, h⟩, fun h => h.2.2⟩
    next hout => exact iff_of_false nofun fun h => hout (by omega)

/-- A load that returns has as many bytes as it was to have. -/
theorem length_of_load {r : Bytes} (h : load mem off n = .ok r) : (r.length : Int) = n := by
  obtain ⟨hn, hin, rfl⟩ := load_eq_ok.mp h
  rw [List.length_take, List.length_drop]
  omega

/-- A store returns when it is inside the area, or of no bytes. -/
theorem store_eq_ok {r : Bytes} :
    store mem off bytes = .ok r ↔ (bytes.length = 0 ∨ 0 ≤ off ∧ off + bytes.length ≤ mem.length) ∧
      r = overwrite mem off.toNat bytes := by
  rw [store]
  split
  next hnil =>
    rw [hnil, overwrite_nil, Except.ok.injEq, eq_comm]
    simp
  next hne =>
    have hlength : bytes.length ≠ 0 := fun h => hne (List.eq_nil_of_length_eq_zero h)
    rw [or_iff_right hlength]
    split
    next hin => rw [Except.ok.injEq, eq_comm, and_iff_right hin]
    next hout => exact iff_of_false nofun fun h => hout h.1

/-- A store keeps the length of the area. -/
theorem length_of_store {r : Bytes} (h : store mem off bytes = .ok r) :
    r.length = mem.length := by
  obtain ⟨hin, rfl⟩ := store_eq_ok.mp h
  cases hin with
  | inl hnil => rw [List.eq_nil_of_length_eq_zero hnil, overwrite_nil]
  | inr hin => exact length_overwrite_of_le (by omega)

theorem newChars_eq_ok {r : Bytes} :
    newChars n = .ok r ↔ 0 ≤ n ∧ r = List.replicate n.toNat 0 := by
  rw [newChars]
  split
  next hn => rw [Except.ok.injEq, eq_comm, and_iff_right hn]
  next hn => exact iff_of_false nofun fun h => hn h.1

/-- The length of a text that ends in its area. -/
theorem strlen_append {s : Bytes} (hs : 0 ∉ s) (rest : Bytes) :
    strlen (s ++ 0 :: rest) = .ok s.length := by
  induction s with
  | nil => exact if_pos rfl
  | cons c s ih =>
      rw [List.mem_cons, not_or] at hs
      rw [List.cons_append, strlen, if_neg (Ne.symm hs.1), ih hs.2]
      rfl

/-- An area with a NUL has a text. -/
theorem strlen_of_mem {s : Bytes} (h : 0 ∈ s) : ∃ n, strlen s = .ok n := by
  obtain ⟨front, rest, rfl, hfront⟩ := List.eq_append_cons_of_mem h
  exact ⟨front.length, strlen_append hfront rest⟩

/-- A text has no length where its area starts with the NUL, and an area without
a NUL has no text. -/
theorem strlen_eq_zero_iff {s : Bytes} : strlen s = .ok 0 ↔ s.head? = some 0 := by
  cases s with
  | nil => exact iff_of_false nofun nofun
  | cons c s =>
      rw [strlen, List.head?_cons, Option.some_inj]
      split
      next h => exact iff_of_true rfl h
      next h =>
        refine iff_of_false (fun hlen => ?_) h
        cases hs : strlen s with
        | error e => rw [hs] at hlen; exact nomatch hlen
        | ok n => rw [hs] at hlen; exact nomatch hlen

end

end Cpp
