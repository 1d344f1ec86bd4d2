import AndroidAnalysis.HookLibc.InBounds
import AndroidAnalysis.HookLibc.MemoryFileAnswers

/-!
# The states a `memory_file` reaches

`Reached` is what a constructor and any hooked calls lead to, in the bounds or out
of them.  What holds of all these states is that the values of the object are values
of their types, and that its two lengths are not negative.
-/

namespace HookLibc

open Cpp Machine Calls Words

namespace MemoryFile

/-- The position and the lengths are `int`s, and the lengths are not negative. -/
structure Typed (m : MemoryFile) : Prop where
  off : IsInt m.off
  len : IsInt m.len
  alllen : IsInt m.alllen
  lenNonneg : 0 ≤ m.len
  alllenNonneg : 0 ≤ m.alllen

/-- A state that a constructor and hooked calls lead to. -/
def Reached (b : Build) (m : MemoryFile) : Prop :=
  ∃ (this : Handle) (fd : Int) (ctor : Constructor) (calls : List IoCall) (m₀ : MemoryFile),
    ctor.Owned ∧ ctor.make this fd = .ok m₀ ∧ Machine.run (after b) m₀ calls = .ok m

variable {b : Build} {m : MemoryFile} {w buffer : Bytes} {n : Nat} {rlen : Int}

theorem Sound.typed (h : m.Sound) : m.Typed := by
  have hlen := h.len
  exact ⟨h.offInt, h.alllenInt.of_le h.lenNonneg hlen, h.alllenInt, h.lenNonneg,
    Int.le_trans h.lenNonneg hlen⟩

namespace Typed

theorem setOff (h : m.Typed) {off : Int} (hoff : IsInt off) : (m.setOff off).Typed :=
  ⟨hoff, h.len, h.alllen, h.lenNonneg, h.alllenNonneg⟩

theorem read (h : m.Typed) {update : Bool} {r : MemoryFile × Nat × Bytes}
    (hread : m.read b buffer n update = .ok r) : r.1.Typed := by
  obtain ⟨-, rfl⟩ | ⟨-, -, hget⟩ := read_eq_ok.mp hread
  · exact h
  · obtain ⟨-, -, hint, rfl⟩ := get_eq_ok.mp hget
    cases update with
    | false => exact h
    | true => exact h.setOff (hint rfl)

theorem fgets (h : m.Typed) {maxCount : Int} {r : MemoryFile × Nat × Bytes}
    (hr : m.fgets b buffer maxCount = .ok r) : r.1.Typed := by
  obtain ⟨-, rfl⟩ | ⟨-, -, line, r', -, hread, rfl⟩ := fgets_eq_ok.mp hr
  · exact h
  · have htyped := h.read hread
    exact htyped

theorem put (h : m.Typed) {r : MemoryFile × Nat} (hput : m.put b w rlen true = .ok r) :
    r.1.Typed := by
  obtain ⟨hrlen, -, hint, rfl⟩ := put_eq_ok.mp hput
  have hnonneg := h.lenNonneg
  have hlen : IsInt (if m.off + rlen ≥ m.len then m.off + rlen else m.len) ∧
      0 ≤ (if m.off + rlen ≥ m.len then m.off + rlen else m.len) := by
    split
    next hle => exact ⟨hint, by omega⟩
    next => exact ⟨h.len, hnonneg⟩
  exact ⟨hint, hlen.1, h.alllen, hlen.2, h.alllenNonneg⟩

theorem grow (h : m.Typed) (hrlen : rlen ≤ 0) {g : MemoryFile} (hgrow : m.grow rlen = .ok g) :
    g.Typed := by
  obtain ⟨hint, rfl⟩ := enlarged_of_grow hgrow
  have halllen := h.alllenNonneg
  rw [half_again halllen hrlen] at hint ⊢
  exact ⟨h.off, h.len, hint, h.lenNonneg, show 0 ≤ m.alllen - rlen + m.alllen / 2 by omega⟩

theorem write (h : m.Typed) {r : MemoryFile × Nat} (hwrite : m.write b w n true = .ok r) :
    r.1.Typed := by
  obtain ⟨rlen, -, ⟨-, hput⟩ | ⟨hrlen, g, rlen', hgrow, -, hput⟩⟩ := write_cases hwrite
  · exact h.put hput
  · exact (h.grow hrlen hgrow).put hput

theorem after (h : m.Typed) {c : IoCall} {m' : MemoryFile} (hafter : m.after b c = .ok m') :
    m'.Typed := by
  cases change_of_after hafter with
  | same => exact h
  | seek hint => exact h.setOff hint
  | read hread => exact h.read hread
  | fgets hfgets => exact h.fgets hfgets
  | write hwrite => exact h.write hwrite
  | pread hint hread => exact ((h.setOff hint).read hread).setOff h.off
  | pwrite hint hwrite => exact ((h.setOff hint).write hwrite).setOff h.off

end Typed

theorem typed_of_make {this : Handle} {fd : Int} {ctor : Constructor} (h : ctor.Owned)
    (hmake : ctor.make this fd = .ok m) : m.Typed := by
  cases ctor with
  | copying data len => exact (Built.copying hmake).rep.sound.typed
  | moving data len =>
      obtain ⟨hint, rfl⟩ := Constructor.moving_eq_ok.mp hmake
      have hle := Constructor.le_tdiv h.1
      exact ⟨(by decide : IsInt 0), hint.of_le h.1 hle, hint, h.1, Int.le_trans h.1 hle⟩
  | empty => exact (Built.empty hmake).rep.sound.typed

theorem Reached.typed (h : m.Reached b) : m.Typed := by
  obtain ⟨this, fd, ctor, calls, m₀, hctor, hmake, hrun⟩ := h
  exact Machine.run_invariant (fun _ _ _ htyped hafter => htyped.after hafter)
    (typed_of_make hctor hmake) hrun

end MemoryFile

end HookLibc
