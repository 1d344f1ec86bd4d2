import AndroidAnalysis.HookLibc.MemoryFileAnswers
import AndroidAnalysis.HookLibc.MemoryFileRefines
import AndroidAnalysis.Words.Lines

/-!
# The lines of a `memory_file`

`LineSteps` is what calls of `fgets` on a file of a content do by the standard, one
after the other.  `memory_file::fgets` hands the position to `read` where that wants
to know whether to move it, so at the position 0 it stays where it is.  At the end of
the content `file_hook::fgets` gives the address of the object to the `fgets` of the C
library.  So no file serves its lines.
-/

namespace HookLibc

open Cpp Machine Calls Words

/-- Calls of `fgets` on a file with a count of `maxCount`, their results, and the
lines that they have stored. -/
inductive LineSteps (maxCount : Nat) :
    PosFile UInt8 → List (Line × Bytes) → List Bytes → PosFile UInt8 → Prop
  | nil {f} : LineSteps maxCount f [] [] f
  | line {f text rs lines f'} (hpos : f.pos < f.content.length)
      (htext : f.line 10 (maxCount - 1) ++ [0] <+: text)
      (tail : LineSteps maxCount (f.skipLine 10 (maxCount - 1)) rs lines f') :
      LineSteps maxCount f ((.buffer, text) :: rs) (f.line 10 (maxCount - 1) :: lines) f'
  | atEnd {f text rs lines f'} (hpos : f.pos = f.content.length)
      (tail : LineSteps maxCount f rs lines f') :
      LineSteps maxCount f ((.null, text) :: rs) lines f'

namespace MemoryFile

/-- The file without the bytes behind its content.  A call that examines one of them
faults on it. -/
def cut (m : MemoryFile) : MemoryFile := { m with shareData := m.shareData.take m.len.toNat }

/-- Calls of `fgets` one after the other, each with its own buffer. -/
def fgetsAll (b : Build) (h : Handle) (maxCount : Int) :
    MemoryFile → List Bytes → Prog (MemoryFile × List (Line × Bytes))
  | m, [] => .ret (m, [])
  | m, buffer :: buffers => do
      let r ← FileHook.fgets b (memoryFile b) m buffer maxCount h
      let rs ← fgetsAll b h maxCount r.1 buffers
      .ret (rs.1, r.2 :: rs.2)

/-- From the start of its content on, the file serves lines as the standard has it, up
to a null they are the content, and no byte behind the content is examined.  The C
library is not asked for the lines of the file. -/
def ServesLines (b : Build) (h : Handle) (m : MemoryFile) (content : Bytes) (maxCount : Int) :
    Prop :=
  ∀ buffers : List Bytes, (∀ buffer ∈ buffers, maxCount ≤ buffer.length) →
    ((fgetsAll b h maxCount m buffers).Meets (libcElsewhere h) fun r => ∃ lines f',
      LineSteps maxCount.toNat (.start content) r.2 lines f' ∧ r.1.Shows f' ∧
        ∀ text, (.null, text) ∈ r.2 → lines.flatten = content) ∧
    (fgetsAll b h maxCount m.cut buffers).Meets (libcElsewhere h) fun _ => True

variable {b : Build} {h : Handle} {m : MemoryFile} {content buffer : Bytes} {maxCount : Int}

/-! ## The first call -/

/-- From the position 0, `memory_file::fgets` does not move. -/
theorem fgets_off_zero (hoff : m.off = 0) {r : MemoryFile × Nat × Bytes}
    (hfgets : m.fgets b buffer maxCount = .ok r) : r.1.off = 0 := by
  obtain ⟨-, rfl⟩ | ⟨-, -, line, r', -, hread, rfl⟩ := fgets_eq_ok.mp hfgets
  · exact hoff
  have hstays : decide (m.off ≠ 0) = false := decide_eq_false (not_not.mpr hoff)
  rw [hstays] at hread
  obtain ⟨-, rfl⟩ | ⟨-, -, hget⟩ := read_eq_ok.mp hread
  · exact hoff
  · obtain ⟨-, -, -, rfl⟩ := get_eq_ok.mp hget
    exact hoff

/-- A file that serves its lines serves the first. -/
theorem ServesLines.first (hserves : ServesLines b h m content maxCount) :
    ∃ buffer, (FileHook.fgets b (memoryFile b) m buffer maxCount h).Meets (libcElsewhere h)
      fun r => ∃ lines f', LineSteps maxCount.toNat (.start content) [r.2] lines f' ∧
        r.1.Shows f' := by
  obtain ⟨hmeets, -⟩ := hserves [List.replicate maxCount.toNat 0] (by
    intro buffer hbuffer
    rw [List.mem_singleton.mp hbuffer, List.length_replicate]
    omega)
  rw [fgetsAll, meets_bind] at hmeets
  refine ⟨_, hmeets.mono ?_⟩
  rintro r ⟨lines, f', hsteps, hshows', -⟩
  exact ⟨lines, f', hsteps, hshows'⟩

/-- The first call on a file with some content does not move. -/
theorem not_servesLines_of_ne_nil (hshows : m.Shows (.start content)) (hcount : 2 ≤ maxCount)
    (hne : content ≠ []) : ¬ ServesLines b h m content maxCount := by
  intro hserves
  obtain ⟨buffer, hfirst⟩ := hserves.first
  have hpos : (PosFile.start content).pos < (PosFile.start content).content.length :=
    List.length_pos_iff.mpr hne
  have hmoves : (FileHook.fgets b (memoryFile b) m buffer maxCount h).Meets (libcElsewhere h)
      fun r => 0 < r.1.off := by
    refine hfirst.mono ?_
    rintro ⟨m', line, text⟩ ⟨lines, f', hsteps, hshows'⟩
    cases hsteps with
    | line _ _ tail =>
        cases tail
        have hline : 0 < ((PosFile.start content).line 10 (maxCount.toNat - 1)).length :=
          PosFile.length_line_pos hpos (by omega)
        have hoff : m'.off = _ := hshows'.pos
        rw [PosFile.skipLine_pos] at hoff
        show 0 < m'.off
        omega
    | atEnd hend => omega
  obtain ⟨m', hafter, -, a, -, hoff⟩ := (fgets_decides _ _).meets_iff.mp hmoves
  obtain ⟨r, hfgets, rfl⟩ := map_eq_ok.mp ⟨m', hafter, rfl⟩
  have hzero := fgets_off_zero hshows.pos hfgets
  have hoff : 0 < r.1.off := hoff
  omega

/-- The first call on a file without content gives its handle to the C library. -/
theorem not_servesLines_nil (hshows : m.Shows (.start [])) :
    ¬ ServesLines b h m [] maxCount := by
  intro hserves
  obtain ⟨buffer, hfirst⟩ := hserves.first
  obtain ⟨-, -, hanswers, -⟩ := (fgets_decides _ _).meets_iff.mp hfirst
  have hfront : m.off < m.len := hanswers.1
  rw [hshows.len, hshows.pos] at hfront
  exact Int.lt_irrefl 0 hfront

/-- No `memory_file` serves the lines of its content. -/
theorem not_servesLines (hshows : m.Shows (.start content)) (hcount : 2 ≤ maxCount) :
    ¬ ServesLines b h m content maxCount := by
  by_cases hnil : content = []
  · rw [hnil] at hshows ⊢
    exact not_servesLines_nil hshows
  · exact not_servesLines_of_ne_nil hshows hcount hnil

/-- A file without content, and a count of 16. -/
theorem empty_not_served : ¬ ServesLines .arm64 4096 ⟨4096, 65555, [], 2, 0, 0, [0, 0]⟩ [] 16 :=
  not_servesLines ⟨rfl, rfl, rfl⟩ (by decide)

/-- The copy of a line of two letters. -/
theorem line_not_served :
    ¬ ServesLines .arm64 0 ⟨0, 0, [], 4, 3, 0, [97, 98, 10, 0]⟩ [97, 98, 10] 16 :=
  not_servesLines_of_ne_nil ⟨rfl, rfl, rfl⟩ (by decide) (List.cons_ne_nil _ _)

end MemoryFile

end HookLibc
