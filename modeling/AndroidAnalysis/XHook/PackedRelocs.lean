import AndroidAnalysis.XHook.Sleb128Decoder

/-!
# Packed relocations

The relocations of an Android library may be packed: the offsets and addends are
differences to the relocation before, and a group of relocations can share its
offset difference, its info or its addend.  The iterator of the PLT hook unpacks
them one after the other.

`Group` is the format: the relocations of a group and what they share.
`packedRelocs_encode` says that the iterator gives back the relocations of any list
of groups that was packed, in their order, and then ends.  It also ends, without a
word, where the data is broken.

A group of no relocations is the one thing the format allows and the iterator does
not: it reads the fields of the next group where its index is the size of the group,
so it takes such a group to have no end.
-/

namespace XHook

open Machine

/-- `ElfW(Rela)`.  In a table without addends they are zero. -/
structure Rela where
  rOffset : BitVec 64
  rInfo : BitVec 64
  rAddend : BitVec 64
  deriving DecidableEq, Repr

/-! ## The iterator -/

/-- `xh_elf_packed_reloc_iterator_t` -/
structure PackedRelocIterator where
  decoder : Sleb128Decoder
  relocationCount : BitVec 64
  groupSize : BitVec 64
  groupFlags : BitVec 64
  groupROffsetDelta : BitVec 64
  relocationIndex : BitVec 64
  relocationGroupIndex : BitVec 64
  rOffset : BitVec 64
  rInfo : BitVec 64
  rAddend : BitVec 64
  isUseRela : Bool
  deriving DecidableEq, Repr

/-- `RELOCATION_GROUPED_BY_INFO_FLAG` -/
def relocationGroupedByInfoFlag : BitVec 64 := 1

/-- `RELOCATION_GROUPED_BY_OFFSET_DELTA_FLAG` -/
def relocationGroupedByOffsetDeltaFlag : BitVec 64 := 2

/-- `RELOCATION_GROUPED_BY_ADDEND_FLAG` -/
def relocationGroupedByAddendFlag : BitVec 64 := 4

/-- `RELOCATION_GROUP_HAS_ADDEND_FLAG` -/
def relocationGroupHasAddendFlag : BitVec 64 := 8

/-- A flag of the group. -/
def PackedRelocIterator.has (self : PackedRelocIterator) (flag : BitVec 64) : Bool :=
  self.groupFlags &&& flag != 0

/-- The decoder of the iterator reads a number. -/
def PackedRelocIterator.read (m : Mem) (self : PackedRelocIterator) :
    Except Errno (BitVec 64 × PackedRelocIterator) := do
  let (val, decoder) ← sleb128DecoderNext m self.decoder
  pure (val, { self with decoder })

/-- `xh_elf_packed_reloc_iterator_init`, which is left half done where the data ends.
Its caller does not look at what it returns. -/
def packedRelocIteratorInit (m : Mem) (rel : BitVec 64) (relSz : BitVec 32) (isUseRela : Bool) :
    PackedRelocIterator :=
  let decoder := sleb128DecoderInit rel relSz
  let self : PackedRelocIterator := ⟨decoder, 0, 0, 0, 0, 0, 0, 0, 0, 0, isUseRela⟩
  match self.read m with
  | .error _ => { self with decoder := { decoder with cur := decoder.stop } }
  | .ok (relocationCount, self) =>
      let self := { self with relocationCount }
      match self.read m with
      | .error _ => { self with decoder := { decoder with cur := decoder.stop } }
      | .ok (rOffset, self) => { self with rOffset }

/-- The offset difference that a group shares -/
def PackedRelocIterator.readGroupOffset (m : Mem) (self : PackedRelocIterator) :
    Except Errno PackedRelocIterator :=
  if self.has relocationGroupedByOffsetDeltaFlag then do
    let (groupROffsetDelta, self) ← self.read m
    pure { self with groupROffsetDelta }
  else pure self

/-- The info that a group shares -/
def PackedRelocIterator.readGroupInfo (m : Mem) (self : PackedRelocIterator) :
    Except Errno PackedRelocIterator :=
  if self.has relocationGroupedByInfoFlag then do
    let (rInfo, self) ← self.read m
    pure { self with rInfo }
  else pure self

/-- The addend that a group shares -/
def PackedRelocIterator.readGroupAddend (m : Mem) (self : PackedRelocIterator) :
    Except Errno PackedRelocIterator :=
  if self.has relocationGroupHasAddendFlag && self.has relocationGroupedByAddendFlag then
    if !self.isUseRela then .error .format
    else do
      let (val, self) ← self.read m
      pure { self with rAddend := self.rAddend + val }
  else if !self.has relocationGroupHasAddendFlag then pure { self with rAddend := 0 }
  else pure self

/-- `xh_elf_packed_reloc_iterator_read_group_fields` -/
def packedRelocIteratorReadGroupFields (m : Mem) (self : PackedRelocIterator) :
    Except Errno PackedRelocIterator := do
  let (groupSize, self) ← self.read m
  let (groupFlags, self) ← self.read m
  let self ← { self with groupSize, groupFlags }.readGroupOffset m
  let self ← self.readGroupInfo m
  let self ← self.readGroupAddend m
  pure { self with relocationGroupIndex := 0 }

/-- The offset of a relocation -/
def PackedRelocIterator.readOffset (m : Mem) (self : PackedRelocIterator) :
    Except Errno PackedRelocIterator :=
  if self.has relocationGroupedByOffsetDeltaFlag then
    pure { self with rOffset := self.rOffset + self.groupROffsetDelta }
  else do
    let (val, self) ← self.read m
    pure { self with rOffset := self.rOffset + val }

/-- The info of a relocation -/
def PackedRelocIterator.readInfo (m : Mem) (self : PackedRelocIterator) :
    Except Errno PackedRelocIterator :=
  if !self.has relocationGroupedByInfoFlag then do
    let (rInfo, self) ← self.read m
    pure { self with rInfo }
  else pure self

/-- The addend of a relocation -/
def PackedRelocIterator.readAddend (m : Mem) (self : PackedRelocIterator) :
    Except Errno PackedRelocIterator :=
  if self.isUseRela && self.has relocationGroupHasAddendFlag &&
      !self.has relocationGroupedByAddendFlag then do
    let (val, self) ← self.read m
    pure { self with rAddend := self.rAddend + val }
  else pure self

/-- A relocation of the group -/
def PackedRelocIterator.readMember (m : Mem) (self : PackedRelocIterator) :
    Except Errno (Rela × PackedRelocIterator) := do
  let self ← self.readOffset m
  let self ← self.readInfo m
  let self ← self.readAddend m
  pure (⟨self.rOffset, self.rInfo, if self.isUseRela then self.rAddend else 0⟩,
    { self with
      relocationIndex := self.relocationIndex + 1
      relocationGroupIndex := self.relocationGroupIndex + 1 })

/-- A group is entered where the one before is done -/
def PackedRelocIterator.enterGroup (m : Mem) (self : PackedRelocIterator) :
    Except Errno PackedRelocIterator :=
  if self.relocationGroupIndex == self.groupSize then packedRelocIteratorReadGroupFields m self
  else .ok self

/-- `xh_elf_packed_reloc_iterator_next`.  A broken table ends like one that is done. -/
def packedRelocIteratorNext (m : Mem) (self : PackedRelocIterator) :
    Option (Rela × PackedRelocIterator) :=
  if self.relocationCount ≤ self.relocationIndex then none
  else (self.enterGroup m >>= fun self => self.readMember m).toOption

/-- What the iterator gives until it ends, at most so many relocations. -/
def packedRelocs (m : Mem) : Nat → PackedRelocIterator → List Rela
  | 0, _ => []
  | n + 1, self =>
      match packedRelocIteratorNext m self with
      | none => []
      | some (rel, self) => rel :: packedRelocs m n self

/-! ## The format -/

/-- Relocations that are packed together, and what is not given for each of them. -/
structure Group where
  relocs : List Rela
  byInfo : Bool
  byOffsetDelta : Bool
  byAddend : Bool
  hasAddend : Bool

namespace Group

/-- The flags of a group. -/
def flags (g : Group) : BitVec 64 :=
  (if g.byInfo then relocationGroupedByInfoFlag else 0) |||
  (if g.byOffsetDelta then relocationGroupedByOffsetDeltaFlag else 0) |||
  (if g.byAddend then relocationGroupedByAddendFlag else 0) |||
  (if g.hasAddend then relocationGroupHasAddendFlag else 0)

/-- A relocation of a group behind an offset and an addend. -/
def encodeMember (g : Group) (offset addend : BitVec 64) (r : Rela) : List (BitVec 8) :=
  (if g.byOffsetDelta then [] else encodeWord (r.rOffset - offset)) ++
  ((if g.byInfo then [] else encodeWord r.rInfo) ++
  (if g.hasAddend && !g.byAddend then encodeWord (r.rAddend - addend) else []))

/-- Relocations of a group behind an offset and an addend. -/
def encodeMembers (g : Group) : (offset addend : BitVec 64) → List Rela → List (BitVec 8)
  | _, _, [] => []
  | offset, addend, r :: rs =>
      g.encodeMember offset addend r ++ g.encodeMembers r.rOffset r.rAddend rs

/-- The relocation that what is shared is taken from -/
def first (g : Group) : Rela := g.relocs.headD ⟨0, 0, 0⟩

/-- What a group behind an offset and an addend says of itself. -/
def encodeFields (g : Group) (offset addend : BitVec 64) : List (BitVec 8) :=
  encodeWord (BitVec.ofNat 64 g.relocs.length) ++ (encodeWord g.flags ++
  ((if g.byOffsetDelta then encodeWord (g.first.rOffset - offset) else []) ++
  ((if g.byInfo then encodeWord g.first.rInfo else []) ++
  (if g.hasAddend && g.byAddend then encodeWord (g.first.rAddend - addend) else []))))

/-- A group behind an offset and an addend. -/
def encode (g : Group) (offset addend : BitVec 64) : List (BitVec 8) :=
  g.encodeFields offset addend ++ g.encodeMembers offset addend g.relocs

/-- A relocation behind an offset shares what the group says. -/
structure Shared (g : Group) (first : Rela) (delta offset : BitVec 64) (r : Rela) : Prop where
  info : g.byInfo = true → first.rInfo = r.rInfo
  offset : g.byOffsetDelta = true → offset + delta = r.rOffset
  addend : g.hasAddend = true → g.byAddend = true → first.rAddend = r.rAddend
  noAddend : g.hasAddend = false → r.rAddend = 0

/-- Relocations behind an offset share what the group says. -/
def AllShared (g : Group) (first : Rela) (delta : BitVec 64) : BitVec 64 → List Rela → Prop
  | _, [] => True
  | offset, r :: rs => g.Shared first delta offset r ∧ g.AllShared first delta r.rOffset rs

/-- A group behind an offset can be packed: it is not empty, shares what it says, and
has addends only where the table has. -/
structure Fits (isUseRela : Bool) (offset : BitVec 64) (g : Group) : Prop where
  nonempty : g.relocs ≠ []
  shared : g.AllShared g.first (g.first.rOffset - offset) offset g.relocs
  rela : g.hasAddend = true → isUseRela = true

end Group

/-- The offset and the addend behind a list of relocations. -/
def lastOf : (offset addend : BitVec 64) → List Rela → BitVec 64 × BitVec 64
  | offset, addend, [] => (offset, addend)
  | _, _, r :: rs => lastOf r.rOffset r.rAddend rs

/-- Groups behind an offset and an addend. -/
def encodeGroups : (offset addend : BitVec 64) → List Group → List (BitVec 8)
  | _, _, [] => []
  | offset, addend, g :: gs =>
      let (offset', addend') := lastOf offset addend g.relocs
      g.encode offset addend ++ encodeGroups offset' addend' gs

/-- All groups fit, each behind the one before. -/
def GroupsFit (isUseRela : Bool) : (offset addend : BitVec 64) → List Group → Prop
  | _, _, [] => True
  | offset, addend, g :: gs =>
      let (offset', addend') := lastOf offset addend g.relocs
      g.Fits isUseRela offset ∧ GroupsFit isUseRela offset' addend' gs

/-- A packed table: how many relocations, the offset that they start from, and the
groups. -/
def encodePacked (offset : BitVec 64) (gs : List Group) : List (BitVec 8) :=
  encodeWord (BitVec.ofNat 64 (gs.flatMap Group.relocs).length) ++
    (encodeWord offset ++ encodeGroups offset 0 gs)

/-! ## Reading what was packed -/

section
variable {m : Mem} {t : PackedRelocIterator} {g : Group} {r : Rela}
  {rest : List (BitVec 8)}

theorem except_ok_bind {α β : Type} (a : α) (f : α → Except Errno β) :
    (Except.ok a >>= f) = f a := rfl

theorem word_add_sub (a b : BitVec 64) : a + (b - a) = b := by
  rw [BitVec.add_comm, BitVec.sub_add_cancel]

theorem read_ahead {v : BitVec 64} (h : Ahead m t.decoder (encodeWord v ++ rest)) :
    ∃ decoder, t.read m = .ok (v, { t with decoder }) ∧ Ahead m decoder rest := by
  obtain ⟨decoder, hnext, hahead⟩ := ahead_encodeWord h
  refine ⟨decoder, ?_, hahead⟩
  rw [PackedRelocIterator.read, hnext]
  rfl

/-- The flags of a group are told apart. -/
theorem has_flags (h : t.groupFlags = g.flags) :
    t.has relocationGroupedByInfoFlag = g.byInfo ∧
      t.has relocationGroupedByOffsetDeltaFlag = g.byOffsetDelta ∧
      t.has relocationGroupedByAddendFlag = g.byAddend ∧
      t.has relocationGroupHasAddendFlag = g.hasAddend := by
  simp only [PackedRelocIterator.has, h, Group.flags]
  cases g.byInfo <;> cases g.byOffsetDelta <;> cases g.byAddend <;> cases g.hasAddend <;> decide

theorem readOffset_ahead (hflags : t.groupFlags = g.flags)
    (hshared : g.byOffsetDelta = true → t.rOffset + t.groupROffsetDelta = r.rOffset)
    (h : Ahead m t.decoder
      ((if g.byOffsetDelta then [] else encodeWord (r.rOffset - t.rOffset)) ++ rest)) :
    ∃ decoder, t.readOffset m = .ok { t with decoder, rOffset := r.rOffset } ∧
      Ahead m decoder rest := by
  obtain ⟨-, hdelta, -, -⟩ := has_flags hflags
  rw [PackedRelocIterator.readOffset, hdelta]
  cases hby : g.byOffsetDelta with
  | true =>
      rw [hby] at h
      refine ⟨t.decoder, ?_, h⟩
      rw [if_pos rfl, hshared hby]
      rfl
  | false =>
      rw [hby] at h
      obtain ⟨decoder, hread, hahead⟩ := read_ahead h
      refine ⟨decoder, ?_, hahead⟩
      rw [if_neg Bool.false_ne_true, hread]
      exact congrArg (fun rOffset => Except.ok { t with decoder, rOffset })
        (word_add_sub ..)

theorem readInfo_ahead (hflags : t.groupFlags = g.flags)
    (hshared : g.byInfo = true → t.rInfo = r.rInfo)
    (h : Ahead m t.decoder ((if g.byInfo then [] else encodeWord r.rInfo) ++ rest)) :
    ∃ decoder, t.readInfo m = .ok { t with decoder, rInfo := r.rInfo } ∧
      Ahead m decoder rest := by
  obtain ⟨hinfo, -, -, -⟩ := has_flags hflags
  rw [PackedRelocIterator.readInfo, hinfo]
  cases hby : g.byInfo with
  | true =>
      rw [hby] at h
      refine ⟨t.decoder, ?_, h⟩
      rw [Bool.not_true, if_neg Bool.false_ne_true, ← hshared hby]
      rfl
  | false =>
      rw [hby] at h
      obtain ⟨decoder, hread, hahead⟩ := read_ahead h
      refine ⟨decoder, ?_, hahead⟩
      rw [Bool.not_false, if_pos rfl, hread]
      rfl

theorem readAddend_ahead (hflags : t.groupFlags = g.flags)
    (hrela : g.hasAddend = true → t.isUseRela = true)
    (hshared : (g.hasAddend && !g.byAddend) = false → t.rAddend = r.rAddend)
    (h : Ahead m t.decoder
      ((if g.hasAddend && !g.byAddend then encodeWord (r.rAddend - t.rAddend) else []) ++
        rest)) :
    ∃ decoder, t.readAddend m = .ok { t with decoder, rAddend := r.rAddend } ∧
      Ahead m decoder rest := by
  obtain ⟨-, -, haddend, hhas⟩ := has_flags hflags
  have hcond : (t.isUseRela && t.has relocationGroupHasAddendFlag &&
      !t.has relocationGroupedByAddendFlag) = (g.hasAddend && !g.byAddend) := by
    rw [hhas, haddend]
    cases hadd : g.hasAddend with
    | true => rw [hrela hadd, Bool.true_and]
    | false => rw [Bool.and_false]
  rw [PackedRelocIterator.readAddend, hcond]
  cases heach : g.hasAddend && !g.byAddend with
  | true =>
      rw [heach] at h
      obtain ⟨decoder, hread, hahead⟩ := read_ahead h
      refine ⟨decoder, ?_, hahead⟩
      rw [if_pos rfl, hread]
      exact congrArg (fun rAddend => Except.ok { t with decoder, rAddend })
        (word_add_sub ..)
  | false =>
      rw [heach] at h
      refine ⟨t.decoder, ?_, h⟩
      rw [if_neg Bool.false_ne_true, ← hshared heach]
      rfl

/-- The addend that the relocations of a group are read with, where it is not their
own. -/
def Group.addendBehind (g : Group) (addend : BitVec 64) : BitVec 64 :=
  if g.hasAddend then if g.byAddend then g.first.rAddend else addend else 0

theorem addendBehind_each {addend : BitVec 64} (h : (g.hasAddend && !g.byAddend) = true) :
    g.addendBehind addend = addend := by
  obtain ⟨hadd, hby⟩ := Bool.and_eq_true_iff.mp h
  rw [Group.addendBehind, if_pos hadd, (Bool.not_eq_true' _).mp hby, if_neg Bool.false_ne_true]

theorem Group.Shared.addendBehind {delta offset : BitVec 64} (hr : g.Shared g.first delta offset r)
    {addend : BitVec 64} (h : (g.hasAddend && !g.byAddend) = false) :
    g.addendBehind addend = r.rAddend := by
  rw [Group.addendBehind]
  cases hadd : g.hasAddend with
  | false => exact (hr.noAddend hadd).symm
  | true =>
      cases hby : g.byAddend with
      | true => exact hr.addend hadd hby
      | false => rw [hadd, hby] at h; cases h

/-- The iterator is within a group, behind an offset and an addend. -/
structure Within (g : Group) (delta offset addend : BitVec 64) (t : PackedRelocIterator) :
    Prop where
  flags : t.groupFlags = g.flags
  rela : g.hasAddend = true → t.isUseRela = true
  info : g.byInfo = true → t.rInfo = g.first.rInfo
  delta : g.byOffsetDelta = true → t.groupROffsetDelta = delta
  offset : t.rOffset = offset
  addend : t.rAddend = g.addendBehind addend

/-- The next relocation of a group is read. -/
theorem readMember_within {delta offset addend : BitVec 64} (h : Within g delta offset addend t)
    (hr : g.Shared g.first delta offset r)
    (hahead : Ahead m t.decoder (g.encodeMember offset addend r ++ rest)) :
    ∃ s, t.readMember m = .ok (r, s) ∧ Within g delta r.rOffset r.rAddend s ∧
      Ahead m s.decoder rest ∧ s.relocationCount = t.relocationCount ∧
      s.relocationIndex = t.relocationIndex + 1 ∧ s.groupSize = t.groupSize ∧
      s.relocationGroupIndex = t.relocationGroupIndex + 1 ∧ s.isUseRela = t.isUseRela := by
  have haddend : (if g.hasAddend && !g.byAddend then encodeWord (r.rAddend - addend) else []) =
      if g.hasAddend && !g.byAddend then encodeWord (r.rAddend - t.rAddend) else [] := by
    rw [h.addend]
    split
    next heach => rw [addendBehind_each heach]
    next => rfl
  rw [Group.encodeMember, List.append_assoc, List.append_assoc, ← h.offset, haddend] at hahead
  obtain ⟨d, hoffset, hahead⟩ := readOffset_ahead h.flags
    (fun hby => by rw [h.delta hby, h.offset, hr.offset hby]) hahead
  obtain ⟨d', hinfo, hahead⟩ := readInfo_ahead (t := { t with decoder := d, rOffset := r.rOffset })
    h.flags (fun hby => (h.info hby).trans (hr.info hby)) hahead
  obtain ⟨d'', hadd, hahead⟩ := readAddend_ahead
    (t := { t with decoder := d', rOffset := r.rOffset, rInfo := r.rInfo }) h.flags h.rela
    (fun hnot => h.addend.trans (hr.addendBehind hnot)) hahead
  have hout : (⟨r.rOffset, r.rInfo, if t.isUseRela then r.rAddend else 0⟩ : Rela) = r := by
    cases hrela : t.isUseRela with
    | true => rfl
    | false =>
        have hnone : r.rAddend = 0 := by
          refine hr.noAddend ?_
          cases hhas : g.hasAddend with
          | false => rfl
          | true => rw [h.rela hhas] at hrela; cases hrela
        rw [if_neg Bool.false_ne_true, ← hnone]
  have hread : t.readMember m = .ok
      (⟨r.rOffset, r.rInfo, if t.isUseRela then r.rAddend else 0⟩,
        { t with
          decoder := d''
          rOffset := r.rOffset
          rInfo := r.rInfo
          rAddend := r.rAddend
          relocationIndex := t.relocationIndex + 1
          relocationGroupIndex := t.relocationGroupIndex + 1 }) := by
    rw [PackedRelocIterator.readMember, hoffset, except_ok_bind, hinfo, except_ok_bind, hadd]
    rfl
  rw [hout] at hread
  refine ⟨_, hread, ⟨h.flags, h.rela, fun hby => (hr.info hby).symm, h.delta, rfl, ?_⟩, hahead,
    rfl, rfl, rfl, rfl, rfl⟩
  cases heach : g.hasAddend && !g.byAddend with
  | true => exact (addendBehind_each heach).symm
  | false => exact (hr.addendBehind heach).symm

theorem readGroupOffset_ahead {delta : BitVec 64} (hflags : t.groupFlags = g.flags)
    (h : Ahead m t.decoder ((if g.byOffsetDelta then encodeWord delta else []) ++ rest)) :
    ∃ decoder groupROffsetDelta, t.readGroupOffset m = .ok { t with decoder, groupROffsetDelta } ∧
      (g.byOffsetDelta = true → groupROffsetDelta = delta) ∧ Ahead m decoder rest := by
  obtain ⟨-, hdelta, -, -⟩ := has_flags hflags
  rw [PackedRelocIterator.readGroupOffset, hdelta]
  cases hby : g.byOffsetDelta with
  | true =>
      rw [hby] at h
      obtain ⟨decoder, hread, hahead⟩ := read_ahead h
      refine ⟨decoder, delta, ?_, fun _ => rfl, hahead⟩
      rw [if_pos rfl, hread]
      rfl
  | false =>
      rw [hby] at h
      exact ⟨t.decoder, t.groupROffsetDelta, rfl, fun hno => (Bool.false_ne_true hno).elim, h⟩

theorem readGroupInfo_ahead {info : BitVec 64} (hflags : t.groupFlags = g.flags)
    (h : Ahead m t.decoder ((if g.byInfo then encodeWord info else []) ++ rest)) :
    ∃ decoder rInfo, t.readGroupInfo m = .ok { t with decoder, rInfo } ∧
      (g.byInfo = true → rInfo = info) ∧ Ahead m decoder rest := by
  obtain ⟨hinfo, -, -, -⟩ := has_flags hflags
  rw [PackedRelocIterator.readGroupInfo, hinfo]
  cases hby : g.byInfo with
  | true =>
      rw [hby] at h
      obtain ⟨decoder, hread, hahead⟩ := read_ahead h
      refine ⟨decoder, info, ?_, fun _ => rfl, hahead⟩
      rw [if_pos rfl, hread]
      rfl
  | false =>
      rw [hby] at h
      exact ⟨t.decoder, t.rInfo, rfl, fun hno => (Bool.false_ne_true hno).elim, h⟩

theorem readGroupAddend_ahead (hflags : t.groupFlags = g.flags)
    (hrela : g.hasAddend = true → t.isUseRela = true)
    (h : Ahead m t.decoder
      ((if g.hasAddend && g.byAddend then encodeWord (g.first.rAddend - t.rAddend) else []) ++
        rest)) :
    ∃ decoder, t.readGroupAddend m =
        .ok { t with decoder, rAddend := g.addendBehind t.rAddend } ∧
      Ahead m decoder rest := by
  obtain ⟨-, -, haddend, hhas⟩ := has_flags hflags
  rw [PackedRelocIterator.readGroupAddend, hhas, haddend, Group.addendBehind]
  cases hadd : g.hasAddend with
  | false =>
      rw [hadd] at h
      exact ⟨t.decoder, rfl, h⟩
  | true =>
      rw [hadd] at h
      cases hby : g.byAddend with
      | false =>
          rw [hby] at h
          exact ⟨t.decoder, rfl, h⟩
      | true =>
          rw [hby] at h
          obtain ⟨decoder, hread, hahead⟩ := read_ahead h
          refine ⟨decoder, ?_, hahead⟩
          rw [Bool.and_self, if_pos rfl, if_neg (by rw [hrela hadd]; exact Bool.false_ne_true),
            hread]
          exact congrArg (fun rAddend => Except.ok { t with decoder, rAddend }) (word_add_sub ..)

/-- The iterator goes into a group. -/
theorem readGroupFields_within (hrela : g.hasAddend = true → t.isUseRela = true)
    (hahead : Ahead m t.decoder (g.encodeFields t.rOffset t.rAddend ++ rest)) :
    ∃ s, packedRelocIteratorReadGroupFields m t = .ok s ∧
      Within g (g.first.rOffset - t.rOffset) t.rOffset t.rAddend s ∧ Ahead m s.decoder rest ∧
      s.relocationCount = t.relocationCount ∧ s.relocationIndex = t.relocationIndex ∧
      s.groupSize = BitVec.ofNat 64 g.relocs.length ∧ s.relocationGroupIndex = 0 ∧
      s.isUseRela = t.isUseRela := by
  rw [Group.encodeFields] at hahead
  simp only [List.append_assoc] at hahead
  obtain ⟨d₁, hsize, hahead⟩ := read_ahead hahead
  obtain ⟨d₂, hflags, hahead⟩ := read_ahead (t := { t with decoder := d₁ }) hahead
  let t₂ : PackedRelocIterator := { t with
    decoder := d₂
    groupSize := BitVec.ofNat 64 g.relocs.length
    groupFlags := g.flags }
  obtain ⟨d₃, delta, hdelta, hdeltaEq, hahead⟩ := readGroupOffset_ahead (t := t₂) rfl hahead
  obtain ⟨d₄, info, hinfo, hinfoEq, hahead⟩ := readGroupInfo_ahead
    (t := { t₂ with decoder := d₃, groupROffsetDelta := delta }) rfl hahead
  obtain ⟨d₅, haddend, hahead⟩ := readGroupAddend_ahead
    (t := { t₂ with decoder := d₄, groupROffsetDelta := delta, rInfo := info }) rfl hrela hahead
  refine ⟨{ t₂ with
    decoder := d₅
    groupROffsetDelta := delta
    rInfo := info
    rAddend := g.addendBehind t.rAddend
    relocationGroupIndex := 0 }, ?_, ⟨rfl, hrela, hinfoEq, hdeltaEq, rfl, rfl⟩, hahead,
    rfl, rfl, rfl, rfl, rfl⟩
  rw [packedRelocIteratorReadGroupFields, hsize, except_ok_bind]
  simp only [hflags, except_ok_bind]
  rw [hdelta, except_ok_bind, hinfo, except_ok_bind, haddend]
  rfl

theorem next_within (hcount : t.relocationIndex < t.relocationCount)
    (hgroup : t.relocationGroupIndex ≠ t.groupSize) :
    packedRelocIteratorNext m t = (t.readMember m).toOption := by
  rw [packedRelocIteratorNext, if_neg (BitVec.not_le.mpr hcount), PackedRelocIterator.enterGroup,
    beq_false_of_ne hgroup, if_neg Bool.false_ne_true, except_ok_bind]

theorem next_atGroup {s : PackedRelocIterator} (hcount : t.relocationIndex < t.relocationCount)
    (hgroup : t.relocationGroupIndex = t.groupSize)
    (hread : packedRelocIteratorReadGroupFields m t = .ok s) :
    packedRelocIteratorNext m t = (s.readMember m).toOption := by
  rw [packedRelocIteratorNext, if_neg (BitVec.not_le.mpr hcount), PackedRelocIterator.enterGroup,
    beq_iff_eq.mpr hgroup, if_pos rfl, hread, except_ok_bind]

theorem toNat_succ {x y : BitVec 64} (h : x.toNat < y.toNat) : (x + 1).toNat = x.toNat + 1 := by
  have hy := y.isLt
  rw [BitVec.toNat_add]
  exact Nat.mod_eq_of_lt (by show x.toNat + 1 < _; omega)

/-- Behind the relocations of a group, the addend is that of the last one. -/
theorem addendBehind_lastOf {delta offset addend : BitVec 64} {rs : List Rela}
    (hall : g.AllShared g.first delta offset rs) (hne : rs ≠ []) :
    g.addendBehind (lastOf offset addend rs).2 = (lastOf offset addend rs).2 := by
  induction rs generalizing offset addend with
  | nil => exact absurd rfl hne
  | cons r rs ih =>
      cases rs with
      | cons => exact @ih r.rOffset r.rAddend hall.2 (List.cons_ne_nil _ _)
      | nil =>
          show g.addendBehind r.rAddend = r.rAddend
          cases heach : g.hasAddend && !g.byAddend with
          | true => exact addendBehind_each heach
          | false => exact hall.1.addendBehind heach

/-- The relocations that are left of a group are given one after the other. -/
theorem packedRelocs_members {delta : BitVec 64} {rs : List Rela} {more : Nat}
    {offset addend : BitVec 64} {t : PackedRelocIterator} (h : Within g delta offset addend t)
    (hall : g.AllShared g.first delta offset rs)
    (hahead : Ahead m t.decoder (g.encodeMembers offset addend rs ++ rest))
    (hgroup : t.relocationGroupIndex.toNat + rs.length = t.groupSize.toNat)
    (hcount : t.relocationIndex.toNat + (rs.length + more) = t.relocationCount.toNat) :
    ∃ s, (∀ n, packedRelocs m (rs.length + n) t = rs ++ packedRelocs m n s) ∧
      Within g delta (lastOf offset addend rs).1 (lastOf offset addend rs).2 s ∧
      Ahead m s.decoder rest ∧ s.relocationGroupIndex = s.groupSize ∧
      s.relocationIndex.toNat + more = s.relocationCount.toNat ∧ s.isUseRela = t.isUseRela := by
  induction rs generalizing offset addend t with
  | nil =>
      refine ⟨t, fun n => ?_, h, hahead, BitVec.eq_of_toNat_eq hgroup, ?_, rfl⟩
      · rw [List.length_nil, Nat.zero_add, List.nil_append]
      · rwa [List.length_nil, Nat.zero_add] at hcount
  | cons r rs ih =>
      rw [List.length_cons] at hgroup hcount
      rw [Group.encodeMembers, List.append_assoc] at hahead
      obtain ⟨s, hread, hwithin, hs, hcnt, hidx, hsize, hgidx, hrela⟩ :=
        readMember_within h hall.1 hahead
      have hlt : t.relocationIndex.toNat < t.relocationCount.toNat := by omega
      have hglt : t.relocationGroupIndex.toNat < t.groupSize.toNat := by omega
      obtain ⟨u, hrun, hu, hout⟩ := ih hwithin hall.2 hs
        (by rw [hgidx, hsize, toNat_succ hglt]; omega)
        (by rw [hidx, hcnt, toNat_succ hlt]; omega)
      refine ⟨u, fun n => ?_, hu, ?_⟩
      · rw [List.length_cons, Nat.add_right_comm, packedRelocs,
          next_within hlt (fun heq => Nat.ne_of_lt hglt (congrArg BitVec.toNat heq)), hread]
        exact congrArg (r :: ·) (hrun n)
      · rwa [hrela] at hout

/-- The iterator is between two groups, with so many relocations left. -/
structure AtGroup (isUseRela : Bool) (offset addend : BitVec 64) (left : Nat)
    (t : PackedRelocIterator) : Prop where
  done : t.relocationGroupIndex = t.groupSize
  offset : t.rOffset = offset
  addend : t.rAddend = addend
  rela : t.isUseRela = isUseRela
  left : t.relocationIndex.toNat + left = t.relocationCount.toNat

variable {isUseRela : Bool} {offset addend : BitVec 64}

/-- The relocations of a group are given. -/
theorem packedRelocs_group {more : Nat} (h : AtGroup isUseRela offset addend
    (g.relocs.length + more) t) (hfit : g.Fits isUseRela offset)
    (hahead : Ahead m t.decoder (g.encode offset addend ++ rest)) :
    ∃ s, (∀ n, packedRelocs m (g.relocs.length + n) t = g.relocs ++ packedRelocs m n s) ∧
      AtGroup isUseRela (lastOf offset addend g.relocs).1 (lastOf offset addend g.relocs).2 more s ∧
      Ahead m s.decoder rest := by
  have hpos : 0 < g.relocs.length := List.length_pos_iff.mpr hfit.nonempty
  have hleft := h.left
  have hcnt := t.relocationCount.isLt
  rw [Group.encode, List.append_assoc] at hahead
  obtain ⟨s, hread, hwithin, hs, hscnt, hsidx, hssize, hsgidx, hsrela⟩ := readGroupFields_within
    (fun hadd => h.rela.trans (hfit.rela hadd))
    (by rw [h.offset, h.addend]; exact hahead)
  rw [h.offset, h.addend] at hwithin
  have hsize : s.groupSize.toNat = g.relocs.length := by
    rw [hssize, BitVec.toNat_ofNat]
    exact Nat.mod_eq_of_lt (by omega)
  obtain ⟨u, hrun, hu, hur, hudone, huleft, hurela⟩ := packedRelocs_members hwithin hfit.shared hs
    (by rw [hsgidx, hsize]; exact Nat.zero_add _) (by rw [hsidx, hscnt]; exact hleft)
  refine ⟨u, fun n => ?_, ⟨hudone, hu.offset, ?_, ?_, huleft⟩, hur⟩
  · rw [← hrun n]
    obtain ⟨k, hk⟩ := Nat.exists_eq_add_of_lt hpos
    have hlt : t.relocationIndex.toNat < t.relocationCount.toNat := by omega
    have hslt : s.relocationIndex.toNat < s.relocationCount.toNat := by rw [hsidx, hscnt]; exact hlt
    have hne : s.relocationGroupIndex ≠ s.groupSize := by
      intro heq
      rw [← heq, hsgidx] at hsize
      exact absurd hsize.symm (Nat.ne_of_gt hpos)
    rw [hk, Nat.add_right_comm, packedRelocs, packedRelocs, next_within hslt hne,
      next_atGroup hlt h.done hread]
  · rw [hu.addend]
    exact addendBehind_lastOf hfit.shared hfit.nonempty
  · rw [hurela, hsrela, h.rela]

/-- The relocations of all groups are given, and then no more. -/
theorem packedRelocs_groups {gs : List Group}
    (h : AtGroup isUseRela offset addend (gs.flatMap Group.relocs).length t)
    (hfit : GroupsFit isUseRela offset addend gs)
    (hahead : Ahead m t.decoder (encodeGroups offset addend gs)) (n : Nat) :
    packedRelocs m ((gs.flatMap Group.relocs).length + n) t = gs.flatMap Group.relocs := by
  induction gs generalizing offset addend t with
  | nil =>
      have hleft : t.relocationIndex.toNat = t.relocationCount.toNat := h.left
      cases hn : ([].flatMap Group.relocs).length + n with
      | zero => rfl
      | succ k =>
          have hdone : t.relocationCount ≤ t.relocationIndex := Nat.le_of_eq hleft.symm
          rw [packedRelocs, packedRelocIteratorNext, if_pos hdone]
          rfl
  | cons g gs ih =>
      rw [List.flatMap_cons, List.length_append] at h
      obtain ⟨s, hrun, hs, hrest⟩ := packedRelocs_group h hfit.1 hahead
      rw [List.flatMap_cons, List.length_append, Nat.add_assoc, hrun, ih hs hfit.2 hrest]

theorem init_atGroup {gs : List Group} {rel : BitVec 64} {relSz : BitVec 32}
    (hlen : (gs.flatMap Group.relocs).length < 2 ^ 64)
    (hahead : Ahead m (sleb128DecoderInit rel relSz) (encodePacked offset gs)) :
    AtGroup isUseRela offset 0 (gs.flatMap Group.relocs).length
        (packedRelocIteratorInit m rel relSz isUseRela) ∧
      Ahead m (packedRelocIteratorInit m rel relSz isUseRela).decoder
        (encodeGroups offset 0 gs) := by
  obtain ⟨d, hcount, hahead⟩ := read_ahead
    (t := ⟨sleb128DecoderInit rel relSz, 0, 0, 0, 0, 0, 0, 0, 0, 0, isUseRela⟩) hahead
  obtain ⟨d', hoffset, hahead⟩ := read_ahead
    (t := ⟨d, BitVec.ofNat 64 (gs.flatMap Group.relocs).length, 0, 0, 0, 0, 0, 0, 0, 0, isUseRela⟩)
    hahead
  have hinit : packedRelocIteratorInit m rel relSz isUseRela =
      ⟨d', BitVec.ofNat 64 (gs.flatMap Group.relocs).length, 0, 0, 0, 0, 0, offset, 0, 0,
        isUseRela⟩ := by
    rw [packedRelocIteratorInit]
    simp only [hcount, hoffset]
  rw [hinit]
  refine ⟨⟨rfl, rfl, rfl, rfl, ?_⟩, hahead⟩
  show 0 + _ = (BitVec.ofNat 64 _).toNat
  rw [BitVec.toNat_ofNat, Nat.mod_eq_of_lt hlen, Nat.zero_add]

/-- Relocations that were packed come out again, in their order, and then no more. -/
theorem packedRelocs_encode {gs : List Group} {rel : BitVec 64} {relSz : BitVec 32}
    (hfit : GroupsFit isUseRela offset 0 gs) (hlen : (gs.flatMap Group.relocs).length < 2 ^ 64)
    (hin : Stored m rel.toNat (encodePacked offset gs))
    (hsize : relSz.toNat = (encodePacked offset gs).length) (n : Nat) :
    packedRelocs m ((gs.flatMap Group.relocs).length + n)
      (packedRelocIteratorInit m rel relSz isUseRela) = gs.flatMap Group.relocs := by
  have hahead : Ahead m (sleb128DecoderInit rel relSz) (encodePacked offset gs) :=
    ⟨hin, congrArg (rel.toNat + ·) hsize⟩
  obtain ⟨hat, hrest⟩ := init_atGroup hlen hahead
  exact packedRelocs_groups hat hfit hrest n

end

/-! ## What the iterator reads -/

/-- The decoder is within a section of memory. -/
def Sleb128Decoder.In (lo hi : Nat) (d : Sleb128Decoder) : Prop := lo ≤ d.cur ∧ d.stop = hi

section
variable {lo hi : Nat} {m m' : Mem}

theorem sleb128DecoderLoop_agreeOn {left cur : Nat} {value : BitVec 64} {shift : Nat}
    (h : Mem.AgreeOn (fun b => lo ≤ b ∧ b < hi) m m') (hlo : lo ≤ cur) (hhi : cur + left ≤ hi) :
    sleb128DecoderLoop m' left cur value shift = sleb128DecoderLoop m left cur value shift ∧
      ∀ v cur', sleb128DecoderLoop m left cur value shift = .ok (v, cur') → lo ≤ cur' := by
  induction left generalizing cur value shift with
  | zero => exact ⟨rfl, fun _ _ hno => by cases hno⟩
  | succ left ih =>
      have hbyte : m' cur = m cur := h cur ⟨hlo, by omega⟩
      rw [sleb128DecoderLoop, sleb128DecoderLoop, hbyte]
      split
      next => exact ih (by omega) (by omega)
      next =>
        refine ⟨rfl, fun v cur' hok => ?_⟩
        split at hok
        next => cases hok; omega
        next => cases hok; omega

theorem sleb128DecoderNext_agreeOn {d : Sleb128Decoder}
    (h : Mem.AgreeOn (fun b => lo ≤ b ∧ b < hi) m m') (hd : d.In lo hi) :
    sleb128DecoderNext m' d = sleb128DecoderNext m d ∧
      ∀ v d', sleb128DecoderNext m d = .ok (v, d') → d'.In lo hi := by
  obtain ⟨hlo, hstop⟩ := hd
  rcases Nat.le_total d.cur d.stop with hle | hle
  · have hleft : d.cur + (d.stop - d.cur) ≤ hi := by omega
    obtain ⟨heq, hcur⟩ : sleb128DecoderLoop m' (d.stop - d.cur) d.cur 0 0 =
        sleb128DecoderLoop m (d.stop - d.cur) d.cur 0 0 ∧ _ :=
      sleb128DecoderLoop_agreeOn h hlo hleft
    rw [sleb128DecoderNext, sleb128DecoderNext, heq]
    refine ⟨rfl, fun v d' hok => ?_⟩
    split at hok
    next => cases hok
    next v' cur' hloop =>
      cases hok
      exact ⟨hcur _ _ hloop, hstop⟩
  · have hnone : d.stop - d.cur = 0 := Nat.sub_eq_zero_of_le hle
    rw [sleb128DecoderNext, sleb128DecoderNext, hnone]
    exact ⟨rfl, fun _ _ hno => by cases hno⟩

/-- A part of the iterator only reads the section. -/
def Local {α : Type} (lo hi : Nat) (f : Mem → PackedRelocIterator → Except Errno α)
    (next : α → PackedRelocIterator) : Prop :=
  ∀ (m m' : Mem) (t : PackedRelocIterator), Mem.AgreeOn (fun b => lo ≤ b ∧ b < hi) m m' →
    t.decoder.In lo hi → f m' t = f m t ∧ ∀ a, f m t = .ok a → (next a).decoder.In lo hi

theorem local_read : Local lo hi PackedRelocIterator.read Prod.snd := by
  intro m m' t h ht
  obtain ⟨heq, hin⟩ := sleb128DecoderNext_agreeOn h ht
  rw [PackedRelocIterator.read, PackedRelocIterator.read, heq]
  refine ⟨rfl, fun a hok => ?_⟩
  cases hnext : sleb128DecoderNext m t.decoder with
  | error e => rw [hnext] at hok; cases hok
  | ok vd =>
      rw [hnext] at hok
      cases hok
      exact hin _ _ hnext

theorem local_pure {α : Type} {next : α → PackedRelocIterator} (g : PackedRelocIterator → α)
    (hg : ∀ t, (next (g t)).decoder = t.decoder) :
    Local lo hi (fun _ t => .ok (g t)) next := by
  intro m m' t _ ht
  refine ⟨rfl, fun a hok => ?_⟩
  cases hok
  rw [hg]
  exact ht

theorem Local.bind {α β : Type} {f : Mem → PackedRelocIterator → Except Errno α}
    {next : α → PackedRelocIterator} {k : α → Mem → PackedRelocIterator → Except Errno β}
    {next' : β → PackedRelocIterator} (hf : Local lo hi f next)
    (hk : ∀ a, Local lo hi (k a) next') :
    Local lo hi (fun m t => f m t >>= fun a => k a m (next a)) next' := by
  intro m m' t h ht
  obtain ⟨heq, hin⟩ := hf m m' t h ht
  simp only [heq]
  cases hfa : f m t with
  | error e => exact ⟨rfl, fun _ hno => by cases hno⟩
  | ok a => exact hk a m m' (next a) h (hin a hfa)

theorem Local.ite {α : Type} {f g : Mem → PackedRelocIterator → Except Errno α}
    {next : α → PackedRelocIterator} (hf : Local lo hi f next) (c : PackedRelocIterator → Bool)
    (hg : Local lo hi g next) : Local lo hi (fun m t => if c t then f m t else g m t) next := by
  intro m m' t h ht
  simp only
  split
  next => exact hf m m' t h ht
  next => exact hg m m' t h ht

theorem local_error (e : Errno) : Local lo hi (fun _ _ => .error e) id :=
  fun _ _ _ _ _ => ⟨rfl, fun _ hno => by cases hno⟩

theorem local_set (g : PackedRelocIterator → PackedRelocIterator)
    (hg : ∀ t, (g t).decoder = t.decoder) : Local lo hi (fun _ t => .ok (g t)) id :=
  local_pure g hg

/-- A number is read and put into the iterator. -/
theorem local_read_put (g : BitVec 64 → PackedRelocIterator → PackedRelocIterator)
    (hg : ∀ v t, (g v t).decoder = t.decoder) :
    Local lo hi (fun m t => t.read m >>= fun a => .ok (g a.1 a.2)) id :=
  local_read.bind fun a => local_set (g a.1) (hg a.1)

variable (lo hi)

theorem local_readGroupOffset : Local lo hi (fun m t => t.readGroupOffset m) id := by
  have hread : Local lo hi _ id := local_read_put (fun v t => { t with groupROffsetDelta := v })
    fun _ _ => rfl
  exact hread.ite (·.has relocationGroupedByOffsetDeltaFlag) (local_set id fun _ => rfl)

theorem local_readGroupInfo : Local lo hi (fun m t => t.readGroupInfo m) id := by
  have hread : Local lo hi _ id := local_read_put (fun v t => { t with rInfo := v }) fun _ _ => rfl
  exact hread.ite (·.has relocationGroupedByInfoFlag) (local_set id fun _ => rfl)

theorem local_readGroupAddend : Local lo hi (fun m t => t.readGroupAddend m) id := by
  have hread : Local lo hi _ id := local_read_put (fun v t => { t with rAddend := t.rAddend + v })
    fun _ _ => rfl
  have hzero : Local lo hi _ id := local_set (fun t => { t with rAddend := 0 }) fun _ => rfl
  exact ((local_error .format).ite (fun t => !t.isUseRela) hread).ite
    (fun t => t.has relocationGroupHasAddendFlag && t.has relocationGroupedByAddendFlag)
    (hzero.ite (fun t => !t.has relocationGroupHasAddendFlag) (local_set id fun _ => rfl))

theorem local_readGroupFields : Local lo hi packedRelocIteratorReadGroupFields id := by
  have hoffset (a b : BitVec 64) : Local lo hi
      (fun m t => { t with groupSize := a, groupFlags := b }.readGroupOffset m) id :=
    fun m m' t h ht => local_readGroupOffset lo hi m m' _ h ht
  have hlast : Local lo hi _ id :=
    local_set (fun t => { t with relocationGroupIndex := 0 }) fun _ => rfl
  have haddend := (local_readGroupAddend lo hi).bind fun _ => hlast
  have hinfo := (local_readGroupInfo lo hi).bind fun _ => haddend
  have hrest (a b : BitVec 64) := (hoffset a b).bind fun _ => hinfo
  exact local_read.bind fun a => local_read.bind fun b => hrest a.1 b.1

theorem local_readOffset : Local lo hi (fun m t => t.readOffset m) id := by
  have hread : Local lo hi _ id := local_read_put (fun v t => { t with rOffset := t.rOffset + v })
    fun _ _ => rfl
  have hset : Local lo hi _ id :=
    local_set (fun t => { t with rOffset := t.rOffset + t.groupROffsetDelta }) fun _ => rfl
  exact hset.ite (·.has relocationGroupedByOffsetDeltaFlag) hread

theorem local_readInfo : Local lo hi (fun m t => t.readInfo m) id := by
  have hread : Local lo hi _ id := local_read_put (fun v t => { t with rInfo := v }) fun _ _ => rfl
  exact hread.ite (fun t => !t.has relocationGroupedByInfoFlag) (local_set id fun _ => rfl)

theorem local_readAddend : Local lo hi (fun m t => t.readAddend m) id := by
  have hread : Local lo hi _ id := local_read_put (fun v t => { t with rAddend := t.rAddend + v })
    fun _ _ => rfl
  exact hread.ite (fun t => t.isUseRela && t.has relocationGroupHasAddendFlag &&
    !t.has relocationGroupedByAddendFlag) (local_set id fun _ => rfl)

theorem local_readMember : Local lo hi (fun m t => t.readMember m) Prod.snd := by
  have hlast : Local lo hi _ fun a : Rela × PackedRelocIterator => a.2 := local_pure (fun t =>
    (⟨t.rOffset, t.rInfo, if t.isUseRela then t.rAddend else 0⟩, { t with
      relocationIndex := t.relocationIndex + 1
      relocationGroupIndex := t.relocationGroupIndex + 1 })) fun _ => rfl
  have haddend := (local_readAddend lo hi).bind fun _ => hlast
  have hinfo := (local_readInfo lo hi).bind fun _ => haddend
  exact (local_readOffset lo hi).bind fun _ => hinfo

variable {lo hi} {t : PackedRelocIterator}

/-- The iterator only reads the section, whatever is in it. -/
theorem packedRelocIteratorNext_agreeOn (h : Mem.AgreeOn (fun b => lo ≤ b ∧ b < hi) m m')
    (ht : t.decoder.In lo hi) :
    packedRelocIteratorNext m' t = packedRelocIteratorNext m t ∧
      ∀ r s, packedRelocIteratorNext m t = some (r, s) → s.decoder.In lo hi := by
  have hbody := ((local_readGroupFields lo hi).ite
    (fun t => t.relocationGroupIndex == t.groupSize) (local_set id fun _ => rfl)).bind
    fun _ => local_readMember lo hi
  obtain ⟨heq, hin⟩ : (t.enterGroup m' >>= fun s => s.readMember m') =
      (t.enterGroup m >>= fun s => s.readMember m) ∧ _ := hbody m m' t h ht
  rw [packedRelocIteratorNext, packedRelocIteratorNext, heq]
  refine ⟨rfl, fun r s hnext => ?_⟩
  split at hnext
  next => cases hnext
  next =>
    cases hread : t.enterGroup m >>= fun s => s.readMember m with
    | error e => rw [hread] at hnext; cases hnext
    | ok rs =>
        rw [hread] at hnext
        cases hnext
        exact hin _ hread

/-- So does the whole iteration. -/
theorem packedRelocs_agreeOn (h : Mem.AgreeOn (fun b => lo ≤ b ∧ b < hi) m m')
    (ht : t.decoder.In lo hi) (n : Nat) : packedRelocs m' n t = packedRelocs m n t := by
  induction n generalizing t with
  | zero => rfl
  | succ n ih =>
      obtain ⟨heq, hin⟩ := packedRelocIteratorNext_agreeOn h ht
      rw [packedRelocs, packedRelocs, heq]
      cases hnext : packedRelocIteratorNext m t with
      | none => rfl
      | some rs => exact congrArg (rs.1 :: ·) (ih (hin rs.1 rs.2 hnext))

/-- The iterator starts in the section. -/
theorem packedRelocIteratorInit_agreeOn {rel : BitVec 64} {relSz : BitVec 32} {isUseRela : Bool}
    (h : Mem.AgreeOn (fun b => rel.toNat ≤ b ∧ b < rel.toNat + relSz.toNat) m m') :
    packedRelocIteratorInit m' rel relSz isUseRela = packedRelocIteratorInit m rel relSz isUseRela ∧
      (packedRelocIteratorInit m rel relSz isUseRela).decoder.In rel.toNat
        (rel.toNat + relSz.toNat) := by
  have hstart : (sleb128DecoderInit rel relSz).In rel.toNat (rel.toNat + relSz.toNat) :=
    ⟨Nat.le_refl _, rfl⟩
  have hread := local_read m m' ⟨sleb128DecoderInit rel relSz, 0, 0, 0, 0, 0, 0, 0, 0, 0, isUseRela⟩
    h hstart
  rw [packedRelocIteratorInit, packedRelocIteratorInit]
  simp only [hread.1]
  split
  next => exact ⟨rfl, Nat.le_add_right _ _, rfl⟩
  next relocationCount s hok =>
    have hs := hread.2 _ hok
    have hread' := local_read m m' { s with relocationCount } h hs
    simp only [hread'.1]
    split
    next => exact ⟨trivial, Nat.le_add_right _ _, rfl⟩
    next rOffset u hok' => exact ⟨trivial, hread'.2 _ hok'⟩

end

/-- Two relocations that share their info and lie side by side, and one with an
addend. -/
theorem packedRelocs_encode_two :
    let gs : List Group := [⟨[⟨0x1008, 0x403, 0⟩, ⟨0x1010, 0x403, 0⟩], true, true, false, false⟩,
      ⟨[⟨0x1030, 0x101, 5⟩], false, false, false, true⟩]
    packedRelocs (Mem.ofBytes (encodePacked 0x1000 gs)) 4 (packedRelocIteratorInit
      (Mem.ofBytes (encodePacked 0x1000 gs)) 0 14 true) =
      [⟨0x1008, 0x403, 0⟩, ⟨0x1010, 0x403, 0⟩, ⟨0x1030, 0x101, 5⟩] := by
  intro gs
  have hfit : GroupsFit true 0x1000 0 gs := by
    refine ⟨⟨by decide, ?_, by decide⟩, ⟨by decide, ?_, by decide⟩, trivial⟩
    · exact ⟨by constructor <;> decide, by constructor <;> decide, trivial⟩
    · exact ⟨by constructor <;> decide, trivial⟩
  have hlen : (14 : BitVec 32).toNat = (encodePacked 0x1000 gs).length := by
    simp [gs, encodePacked, encodeWord, encodeGroups, Group.encode, Group.encodeFields,
      Group.encodeMembers, Group.encodeMember, lastOf, Group.flags, Group.first, Sleb128.encode,
      relocationGroupedByInfoFlag, relocationGroupedByOffsetDeltaFlag,
      relocationGroupHasAddendFlag]
  exact packedRelocs_encode hfit (by decide) (stored_ofBytes _) hlen 1

end XHook
