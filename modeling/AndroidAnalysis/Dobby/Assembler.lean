import AndroidAnalysis.Dobby.InstWords

/-!
# The assembler

`TurboAssembler` of Dobby collects instruction words in a buffer and the
doublewords that its literal loads read in a list of labels.  A literal load is
emitted without an offset and remembered in its label.  `RelocBind` goes through
the labels, writes each doubleword at the end of the buffer, and puts its offset
into the loads that wait for it.

The buffer is kept in words.  Everything the relocator and the trampolines emit
is a whole number of words, and a doubleword is its two halves.

What was emitted is a list of `Item`s, and `render` is the assembler after them.
`relocBind_render` gives the buffer after `RelocBind`, and `relocBind_twice` the
buffer after a second one: the loads read the second pool, and the first one
stays behind as data.  `ItemAt` says what an item is worth in memory, whichever
pool it reads, and `codeAt_of_linked` is the one fact about layout that a user
of the assembler needs.
-/

namespace Dobby

open Machine Machine.A64

/-! ## Labels and buffers -/

/-- `RelocLabel`: its doubleword, its offset in the buffer once it is bound, and
the offsets of the loads that refer to it. -/
structure RelocLabel where
  data : BitVec 64
  relocatedPos : Nat
  refLabelInsts : List Nat
deriving DecidableEq

/-- `RelocLabel(value)` -/
def RelocLabel.new (value : BitVec 64) : RelocLabel := ⟨value, 0, []⟩

/-- `TurboAssembler`: `buffer_` and `data_labels_`. -/
structure TurboAssembler where
  buffer : List (BitVec 32)
  dataLabels : List RelocLabel
deriving DecidableEq

namespace TurboAssembler

/-- `TurboAssembler(0)` -/
def empty : TurboAssembler := ⟨[], []⟩

variable (a : TurboAssembler)

/-- `GetBufferSize` -/
def bufferSize : Nat := 4 * a.buffer.length

/-- `Emit` -/
def emit (value : BitVec 32) : TurboAssembler := { a with buffer := a.buffer ++ [value] }

/-- `AppendRelocLabel` -/
def appendRelocLabel (label : RelocLabel) : TurboAssembler :=
  { a with dataLabels := a.dataLabels ++ [label] }

/-- `ldr(const CPURegister &, const MemOperand &)` -/
def ldr (rt rn : BitVec 5) (offset : BitVec 64) : TurboAssembler := a.emit (ldrWord rt rn offset)

/-- `br` -/
def br (rn : BitVec 5) : TurboAssembler := a.emit (brWord rn)

/-- `blr` -/
def blr (rn : BitVec 5) : TurboAssembler := a.emit (blrWord rn)

/-- `adrp` -/
def adrp (rd : BitVec 5) (imm : BitVec 64) : TurboAssembler := a.emit (adrpWord rd imm)

/-- `add` -/
def add (rd rn : BitVec 5) (imm : BitVec 64) : TurboAssembler := a.emit (addWord rd rn imm)

/-- `movz` -/
def movz (rd : BitVec 5) (imm : BitVec 16) (shift : BitVec 2) : TurboAssembler :=
  a.emit (movzWord rd imm shift)

/-- `movk` -/
def movk (rd : BitVec 5) (imm : BitVec 16) (shift : BitVec 2) : TurboAssembler :=
  a.emit (movkWord rd imm shift)

/-- `Mov` -/
def mov (rd : BitVec 5) (imm : BitVec 64) : TurboAssembler :=
  let h0 := imm.extractLsb' 0 16
  let h1 := imm.extractLsb' 16 16
  let h2 := imm.extractLsb' 32 16
  let h3 := imm.extractLsb' 48 16
  (((a.movz rd h0 0).movk rd h1 1).movk rd h2 2).movk rd h3 3

/-- `AdrpAdd` -/
def adrpAdd (rd : BitVec 5) (src dst : BitVec 64) : TurboAssembler :=
  let fromPage := alignFloor src 0x1000
  let toPage := alignFloor dst 0x1000
  let toPageOff := dst % 0x1000
  (a.adrp rd (toPage - fromPage)).add rd rd toPageOff

/-- `Ldr` of a label, given by its place in `data_labels_`. -/
def ldrLabel (rt : BitVec 5) (label : Nat) : TurboAssembler :=
  match a.dataLabels[label]? with
  | none => a
  | some l =>
      if l.relocatedPos ≠ 0 then
        a.emit (ldrLiteralWord rt (BitVec.ofNat 64 l.relocatedPos - BitVec.ofNat 64 a.bufferSize))
      else
        let linked := { l with refLabelInsts := l.refLabelInsts ++ [a.bufferSize] }
        TurboAssembler.emit { a with dataLabels := a.dataLabels.set label linked }
          (ldrLiteralWord rt 0)

/-! ## Binding -/

/-- `link_confused_instructions` -/
def linkConfusedInstructions (pos : Nat) (refs : List Nat) (buffer : List (BitVec 32)) :
    List (BitVec 32) :=
  refs.foldl (fun buf off => buf.modify (off / 4) fun inst =>
    encodeImm19Offset inst (BitVec.ofNat 64 pos - BitVec.ofNat 64 off)) buffer

/-- The two words of a doubleword. -/
def dataWords (v : BitVec 64) : List (BitVec 32) := [v.extractLsb' 0 32, v.extractLsb' 32 32]

/-- The loop of `RelocBind`: each label is bound to the end of the buffer, and
its doubleword written there. -/
def bindLabels : List RelocLabel → List (BitVec 32) → List RelocLabel × List (BitVec 32)
  | [], buf => ([], buf)
  | l :: ls, buf =>
      let pos := 4 * buf.length
      let linked := linkConfusedInstructions pos l.refLabelInsts buf
      let rest := bindLabels ls (linked ++ dataWords l.data)
      ({ l with relocatedPos := pos } :: rest.1, rest.2)

/-- `RelocBind` -/
def relocBind : TurboAssembler :=
  let r := bindLabels a.dataLabels a.buffer
  ⟨r.2, r.1⟩

/-- `CodeGen::LiteralLdrBranch`, which binds all the labels at its end. -/
def literalLdrBranch (address : BitVec 64) : TurboAssembler :=
  let label := a.dataLabels.length
  (((a.appendRelocLabel (.new address)).ldrLabel tmpReg0 label).br tmpReg0).relocBind

end TurboAssembler

/-! ## Emitted items -/

/-- What was emitted: a word, or a load of `x17` from a label of its own. -/
inductive Item
  | word (w : BitVec 32)
  | literal (v : BitVec 64)
deriving DecidableEq

/-- The word of an item before its label is bound. -/
def Item.unbound : Item → BitVec 32
  | .word w => w
  | .literal _ => ldrLiteralWord tmpReg0 0

/-- The labels of items that start at a word of the buffer. -/
def labelsOf : Nat → List Item → List RelocLabel
  | _, [] => []
  | o, .word _ :: is => labelsOf (o + 1) is
  | o, .literal v :: is => ⟨v, 0, [4 * o]⟩ :: labelsOf (o + 1) is

/-- The assembler after emitting items. -/
def render (is : List Item) : TurboAssembler := ⟨is.map Item.unbound, labelsOf 0 is⟩

theorem labelsOf_append : ∀ (is js : List Item) (o : Nat),
    labelsOf o (is ++ js) = labelsOf o is ++ labelsOf (o + is.length) js
  | [], _, _ => rfl
  | .word _ :: is, js, o => by
      rw [List.cons_append, labelsOf, labelsOf, labelsOf_append is js (o + 1), List.length_cons,
        Nat.add_right_comm, Nat.add_assoc]
  | .literal _ :: is, js, o => by
      rw [List.cons_append, labelsOf, labelsOf, labelsOf_append is js (o + 1), List.length_cons,
        Nat.add_right_comm, Nat.add_assoc, List.cons_append]

theorem emit_render (is : List Item) (w : BitVec 32) :
    (render is).emit w = render (is ++ [.word w]) := by
  rw [render, render, labelsOf_append, labelsOf, labelsOf, List.append_nil, List.map_append]
  rfl

/-- A label is appended and loaded. -/
theorem ldrLabel_render (is : List Item) (v : BitVec 64) :
    ((render is).appendRelocLabel (.new v)).ldrLabel tmpReg0
      (render is).dataLabels.length = render (is ++ [.literal v]) := by
  have hget : ((render is).appendRelocLabel (.new v)).dataLabels[(render is).dataLabels.length]? =
      some (.new v) := List.getElem?_concat_length ..
  have hset : ((render is).dataLabels ++ [RelocLabel.new v]).set (render is).dataLabels.length
      ⟨v, 0, [4 * is.length]⟩ = (render is).dataLabels ++ [⟨v, 0, [4 * is.length]⟩] := by
    rw [List.set_append_right _ _ (Nat.le_refl _), Nat.sub_self, List.set_cons_zero]
  have hsize : ((render is).appendRelocLabel (.new v)).bufferSize = 4 * is.length := by
    rw [TurboAssembler.bufferSize, TurboAssembler.appendRelocLabel, render, List.length_map]
  rw [TurboAssembler.ldrLabel, hget]
  simp only [RelocLabel.new, ne_eq, not_true_eq_false, if_false, List.nil_append] at hset hsize ⊢
  rw [hsize, TurboAssembler.appendRelocLabel, hset, render, render, TurboAssembler.emit,
    labelsOf_append, Nat.zero_add, List.map_append]
  rfl

/-! ## Bound items -/

/-- The words of items from word `o` of a buffer on, with the next label bound
to word `p`. -/
def linked : Nat → Nat → List Item → List (BitVec 32)
  | _, _, [] => []
  | p, o, .word w :: is => w :: linked p (o + 1) is
  | p, o, .literal _ :: is =>
      encodeImm19Offset (ldrLiteralWord tmpReg0 0)
        (BitVec.ofNat 64 (4 * p) - BitVec.ofNat 64 (4 * o)) :: linked (p + 2) (o + 1) is

/-- The doublewords of items. -/
def pool : List Item → List (BitVec 32)
  | [] => []
  | .word _ :: is => pool is
  | .literal v :: is => TurboAssembler.dataWords v ++ pool is

/-- A word of an item, with any offset in a load. -/
def Item.Written : Item → BitVec 32 → Prop
  | .word w, u => u = w
  | .literal _, u => ∃ f : BitVec 19,
      u = replaceField (ldrLiteralWord tmpReg0 0) 5 f

/-- An offset put into a load covers the one put there before. -/
theorem Item.Written.encode {v : BitVec 64} {u : BitVec 32} (h : Item.Written (.literal v) u)
    (off : BitVec 64) : encodeImm19Offset u off =
      encodeImm19Offset (ldrLiteralWord tmpReg0 0) off := by
  obtain ⟨f, rfl⟩ := h
  rw [encodeImm19Offset_eq, encodeImm19Offset_eq, replaceField_replaceField]

theorem written_unbound : ∀ is : List Item, List.Forall₂ Item.Written is (is.map Item.unbound)
  | [] => .nil
  | .word _ :: is => .cons rfl (written_unbound is)
  | .literal _ :: is => by
      have hzero : ldrLiteralWord tmpReg0 0 =
          replaceField (ldrLiteralWord tmpReg0 0) 5 (0 : BitVec 19) := by
        decide
      exact .cons ⟨0, hzero⟩ (written_unbound is)

theorem written_linked : ∀ (is : List Item) (p o : Nat),
    List.Forall₂ Item.Written is (linked p o is)
  | [], _, _ => .nil
  | .word _ :: is, p, o => .cons rfl (written_linked is p (o + 1))
  | .literal _ :: is, p, o => .cons ⟨_, encodeImm19Offset_eq ..⟩ (written_linked is (p + 2) (o + 1))

theorem modify_append_cons {α : Type} (f : α → α) (u : α) (rest : List α) :
    ∀ pre : List α, (pre ++ u :: rest).modify pre.length f = pre ++ f u :: rest
  | [] => rfl
  | x :: pre => by
      rw [List.cons_append, List.length_cons, List.modify_succ_cons,
        modify_append_cons f u rest pre, List.cons_append]

/-- What binding reads of a label. -/
def RelocLabel.key (l : RelocLabel) : BitVec 64 × List Nat := (l.data, l.refLabelInsts)

/-- Binding moves labels and keeps what they hold. -/
theorem map_key_bindLabels : ∀ (ls : List RelocLabel) (buf : List (BitVec 32)),
    (TurboAssembler.bindLabels ls buf).1.map RelocLabel.key = ls.map RelocLabel.key
  | [], _ => rfl
  | l :: ls, buf => by
      rw [TurboAssembler.bindLabels, List.map_cons, List.map_cons, map_key_bindLabels ls]
      rfl

/-- Binding the labels of items that lie in a buffer of `p` words. -/
theorem bindLabels_items : ∀ (is : List Item) (ls : List RelocLabel)
    (pre cur post : List (BitVec 32)) (p : Nat), (pre ++ cur ++ post).length = p →
    ls.map RelocLabel.key = (labelsOf pre.length is).map RelocLabel.key →
    List.Forall₂ Item.Written is cur →
    (TurboAssembler.bindLabels ls (pre ++ cur ++ post)).2 =
      pre ++ linked p pre.length is ++ (post ++ pool is)
  | [], ls, pre, cur, post, p, _, hls, hcur => by
      cases hcur
      have hnil : ls = [] := List.map_eq_nil_iff.mp hls
      rw [hnil, TurboAssembler.bindLabels, linked, pool, List.append_nil, List.append_nil]
  | .word w :: is, ls, pre, cur, post, p, hp, hls, hcur => by
      cases hcur with
      | @cons _ u _ cur hu hcur =>
          cases hu
          have hp' : (pre ++ [w] ++ cur ++ post).length = p := by rw [← hp]; simp
          have ih := bindLabels_items is ls (pre ++ [w]) cur post p hp'
            (by rw [hls, labelsOf, List.length_append]; rfl) hcur
          simp only [List.append_assoc, List.cons_append, List.nil_append, List.length_append,
            List.length_cons, List.length_nil] at ih
          simp only [List.append_assoc, List.cons_append, linked, pool]
          exact ih
  | .literal v :: is, [], pre, cur, post, _, _, hls, _ => by cases hls
  | .literal v :: is, l :: ls, pre, cur, post, p, hp, hls, hcur => by
      obtain ⟨hdata, hrefs⟩ := Prod.mk.inj (List.cons.inj hls).1
      have hrest := (List.cons.inj hls).2
      cases hcur with
      | @cons _ u _ cur hu hcur =>
          -- The load is patched in place, and the doubleword goes to the end.
          let load := encodeImm19Offset (ldrLiteralWord tmpReg0 0)
            (BitVec.ofNat 64 (4 * p) - BitVec.ofNat 64 (4 * pre.length))
          have hp' : (pre ++ [load] ++ cur ++ (post ++ TurboAssembler.dataWords v)).length =
              p + 2 := by
            rw [← hp]
            simp only [List.length_append, List.length_cons, List.length_nil,
              TurboAssembler.dataWords]
            omega
          have ih := bindLabels_items is ls (pre ++ [load]) cur
            (post ++ TurboAssembler.dataWords v) (p + 2) hp'
            (by rw [hrest, List.length_append]; rfl) hcur
          have hindex : 4 * pre.length / 4 = pre.length := Nat.mul_div_cancel_left _ (by decide)
          rw [TurboAssembler.bindLabels, hdata, hrefs, hp]
          simp only [List.append_assoc, List.cons_append, List.nil_append, List.length_append,
            List.length_cons, List.length_nil] at ih
          simp only [TurboAssembler.linkConfusedInstructions, List.foldl_cons, List.foldl_nil,
            hindex, hu.encode, modify_append_cons, List.append_assoc, List.cons_append, linked,
            pool]
          exact ih

/-- The buffer after `RelocBind`: the loads are linked, and the pool follows. -/
theorem relocBind_render (is : List Item) :
    (render is).relocBind.buffer = linked is.length 0 is ++ pool is := by
  have h := bindLabels_items is (labelsOf 0 is) [] (is.map Item.unbound) [] is.length
    (by rw [List.nil_append, List.append_nil, List.length_map]) rfl (written_unbound is)
  rwa [List.nil_append, List.append_nil, List.nil_append, List.nil_append] at h

theorem length_linked : ∀ (is : List Item) (p o : Nat), (linked p o is).length = is.length
  | [], _, _ => rfl
  | .word _ :: is, p, o => by rw [linked, List.length_cons, List.length_cons, length_linked is]
  | .literal _ :: is, p, o => by rw [linked, List.length_cons, List.length_cons, length_linked is]

/-- After a second `RelocBind` the loads read the second pool. -/
theorem relocBind_twice (is : List Item) :
    (render is).relocBind.relocBind.buffer =
      linked (is.length + (pool is).length) 0 is ++ (pool is ++ pool is) := by
  have hkeys := map_key_bindLabels (labelsOf 0 is) (is.map Item.unbound)
  have h := bindLabels_items is (render is).relocBind.dataLabels [] (linked is.length 0 is)
    (pool is) (is.length + (pool is).length)
    (by rw [List.nil_append, List.length_append, length_linked]) hkeys (written_linked is _ _)
  rw [List.nil_append, List.nil_append, ← relocBind_render] at h
  exact h

/-! ## Words in memory -/

/-- The words from `a` on. -/
def Loaded (m : Mem) (a : Nat) (ws : List (BitVec 32)) : Prop :=
  ∀ (i : Nat) (h : i < ws.length), read32 m (a + 4 * i) = ws[i]

theorem loaded_append {m : Mem} {a : Nat} {us ws : List (BitVec 32)} :
    Loaded m a (us ++ ws) ↔ Loaded m a us ∧ Loaded m (a + 4 * us.length) ws := by
  constructor
  · intro h
    constructor
    · intro i hi
      rw [h i (by rw [List.length_append]; omega), List.getElem_append_left hi]
    · intro i hi
      have hget := h (us.length + i) (by rw [List.length_append]; omega)
      rw [List.getElem_append_right (Nat.le_add_right _ _)] at hget
      simp only [Nat.add_sub_cancel_left] at hget
      rw [← hget, Nat.mul_add, Nat.add_assoc]
  · rintro ⟨hus, hws⟩ i hi
    rcases Nat.lt_or_ge i us.length with hlt | hge
    · rw [hus i hlt, List.getElem_append_left hlt]
    · rw [List.getElem_append_right hge,
        ← hws (i - us.length) (by rw [List.length_append] at hi; omega)]
      congr 1
      omega

theorem loaded_cons {m : Mem} {a : Nat} {w : BitVec 32} {ws : List (BitVec 32)} :
    Loaded m a (w :: ws) ↔ read32 m a = w ∧ Loaded m (a + 4) ws := by
  rw [← List.singleton_append, loaded_append]
  refine and_congr_left fun _ => ⟨fun h => h 0 (Nat.zero_lt_one), fun h i hi => ?_⟩
  have hzero : i = 0 := Nat.lt_one_iff.mp hi
  subst hzero
  exact h

/-- Words stored one behind the other. -/
def storeWords (m : Mem) (a : Nat) : List (BitVec 32) → Mem
  | [] => m
  | w :: ws => write32 (storeWords m (a + 4) ws) a w

theorem storeWords_agreeOn {p : Nat → Prop} (m : Mem) : ∀ (ws : List (BitVec 32)) (a : Nat),
    (∀ b, p b → b < a ∨ a + 4 * ws.length ≤ b) → Mem.AgreeOn p m (storeWords m a ws)
  | [], a, _ => .refl _ _
  | w :: ws, a, hout => by
      rw [List.length_cons] at hout
      refine (storeWords_agreeOn m ws (a + 4) fun b hb => ?_).write32 w fun b hb => ?_
      · have := hout b hb
        omega
      · have := hout b hb
        omega

theorem loaded_storeWords (m : Mem) : ∀ (ws : List (BitVec 32)) (a : Nat),
    Loaded (storeWords m a ws) a ws
  | [], _ => fun _ hi => absurd hi (Nat.not_lt_zero _)
  | w :: ws, a => by
      refine loaded_cons.mpr ⟨read32_write32_same _ _ _, fun i hi => ?_⟩
      have hrest := loaded_storeWords m ws (a + 4) i hi
      rw [← hrest]
      exact read32_write32_of_disjoint _ w (.inr (by omega))

/-- The `n` words from an address on. -/
def wordsFrom (m : Mem) (a n : Nat) : List (BitVec 32) :=
  (List.range n).map fun k => read32 m (a + 4 * k)

@[simp] theorem length_wordsFrom (m : Mem) (a n : Nat) : (wordsFrom m a n).length = n := by
  rw [wordsFrom, List.length_map, List.length_range]

theorem loaded_wordsFrom (m : Mem) (a n : Nat) : Loaded m a (wordsFrom m a n) := by
  intro i hi
  simp [wordsFrom]

/-! ## Items in memory -/

/-- What an item is worth in memory: a load of `x17` reads the doubleword of
its label. -/
def ItemAt (m : Mem) (a : BitVec 64) : Item → Prop
  | .word w => read32 m a.toNat = w
  | .literal v => ∃ off, decode (read32 m a.toNat) = .ldrLit 1 tmpReg0 off ∧
      read64 m (a + off).toNat = v

/-- Items one after the other in memory. -/
def CodeAt (m : Mem) (a : BitVec 64) (is : List Item) : Prop :=
  ∀ (i : Nat) (h : i < is.length), ItemAt m (after a i) is[i]

/-- A literal load with its offset put in. -/
theorem decode_encodeImm19Offset (off : BitVec 64) :
    decode (encodeImm19Offset (ldrLiteralWord tmpReg0 0) off) =
      .ldrLit 1 tmpReg0 (wordOffset (off.extractLsb' 2 19)) := by
  have hmask (mask : BitVec 32) (h : mask.extractLsb' 5 19 = 0#19) := replaceField_and
    (ldrLiteralWord tmpReg0 0) (off.extractLsb' 2 19) h
  have hbit : (replaceField (ldrLiteralWord tmpReg0 0) 5
      (off.extractLsb' 2 19)).getLsbD 26 = false := by
    rw [getLsbD_replaceField _ _ (by decide)]
    rfl
  rw [encodeImm19Offset_eq, decode, hmask _ (by decide), hmask _ (by decide), if_neg (by decide),
    if_pos (by decide), hbit, if_neg Bool.false_ne_true,
    extractLsb'_replaceField_of_disjoint _ _ (by decide) (by decide),
    extractLsb'_replaceField_of_disjoint _ _ (by decide) (by decide),
    extractLsb'_replaceField_same _ _ (by decide)]
  rfl

/-- The field of a load holds the distance to a doubleword less than a megabyte
ahead. -/
theorem wordOffset_extract {d : Nat} (h : d < 262144) :
    wordOffset ((BitVec.ofNat 64 (4 * d)).extractLsb' 2 19) = BitVec.ofNat 64 (4 * d) := by
  have hfield : (BitVec.ofNat 64 (4 * d)).extractLsb' 2 19 = BitVec.ofNat 19 d := by
    apply BitVec.eq_of_toNat_eq
    rw [BitVec.extractLsb'_toNat, BitVec.toNat_ofNat, BitVec.toNat_ofNat, Nat.shiftRight_eq_div_pow]
    omega
  have happ : (BitVec.ofNat 19 d ++ 0#2 : BitVec 21) = BitVec.ofNat 21 (4 * d) := by
    apply BitVec.eq_of_toNat_eq
    rw [BitVec.toNat_append, BitVec.toNat_ofNat, BitVec.toNat_ofNat, BitVec.toNat_ofNat,
      Nat.shiftLeft_eq, Nat.zero_mod, Nat.or_zero]
    omega
  have hmsb : (BitVec.ofNat 21 (4 * d)).msb = false := by
    rw [BitVec.msb_eq_false_iff_two_mul_lt, BitVec.toNat_ofNat]
    omega
  rw [hfield, wordOffset, happ, BitVec.signExtend_eq_setWidth_of_msb_false hmsb]
  apply BitVec.eq_of_toNat_eq
  rw [BitVec.toNat_setWidth, BitVec.toNat_ofNat, BitVec.toNat_ofNat]
  omega

theorem codeAt_nil (m : Mem) (a : BitVec 64) : CodeAt m a [] :=
  fun _ h => absurd h (Nat.not_lt_zero _)

theorem codeAt_cons {m : Mem} {a : BitVec 64} {i : Item} {is : List Item} :
    CodeAt m a (i :: is) ↔ ItemAt m a i ∧ CodeAt m (a + 4) is := by
  constructor
  · exact fun h => ⟨h 0 (Nat.zero_lt_succ _), fun k hk => h (k + 1) (Nat.succ_lt_succ hk)⟩
  · rintro ⟨hi, his⟩ k hk
    cases k with
    | zero => exact hi
    | succ k => exact his k (Nat.lt_of_succ_lt_succ hk)

theorem codeAt_append {m : Mem} {a : BitVec 64} {is js : List Item} :
    CodeAt m a (is ++ js) ↔ CodeAt m a is ∧ CodeAt m (after a is.length) js := by
  induction is generalizing a with
  | nil => exact ⟨fun h => ⟨codeAt_nil m a, h⟩, fun h => h.2⟩
  | cons i is ih =>
      rw [List.cons_append, codeAt_cons, codeAt_cons, ih, and_assoc]
      rfl

/-- The two halves of a doubleword in memory. -/
theorem read64_of_dataWords {m : Mem} {a : Nat} {v : BitVec 64}
    (h : Loaded m a (TurboAssembler.dataWords v)) : read64 m a = v := by
  obtain ⟨hlow, hrest⟩ := loaded_cons.mp h
  obtain ⟨hhigh, -⟩ := loaded_cons.mp hrest
  apply BitVec.eq_of_getLsbD_eq
  intro i hi
  rw [read64, getLsbD_readBytes, decide_eq_true (by omega : i < 8 * 8), Bool.true_and]
  rcases Nat.lt_or_ge i 32 with h32 | h32
  · have hbit := congrArg (fun b => b.getLsbD i) hlow
    simp only [read32, getLsbD_readBytes, BitVec.getLsbD_extractLsb', h32, decide_true,
      Bool.true_and, Nat.zero_add] at hbit
    exact hbit
  · have hbit := congrArg (fun b => b.getLsbD (i - 32)) hhigh
    have haddr : a + 4 + (i - 32) / 8 = a + i / 8 := by omega
    have hmod : (i - 32) % 8 = i % 8 := by omega
    simp only [read32, getLsbD_readBytes, BitVec.getLsbD_extractLsb', decide_true,
      Bool.true_and, show i - 32 < 8 * 4 by omega, haddr, hmod,
      Nat.add_sub_cancel' h32] at hbit
    exact hbit

/-- Linked words and their pool in memory are the items, where the pool is near
enough. -/
theorem codeAt_of_linked {m : Mem} {a : Nat} : ∀ (is : List Item) (p o : Nat),
    Loaded m (a + 4 * o) (linked p o is) → Loaded m (a + 4 * p) (pool is) →
    o + is.length ≤ p → p + (pool is).length ≤ o + 262144 →
    a + 4 * (p + (pool is).length) ≤ 2 ^ 64 →
    CodeAt m (BitVec.ofNat 64 (a + 4 * o)) is
  | [], _, _, _, _, _, _, _ => codeAt_nil _ _
  | .word w :: is, p, o, hcode, hpool, hop, hnear, htop => by
      obtain ⟨hw, hcode⟩ := loaded_cons.mp hcode
      rw [List.length_cons] at hop
      refine codeAt_cons.mpr ⟨?_, ?_⟩
      · have haddr : (BitVec.ofNat 64 (a + 4 * o)).toNat = a + 4 * o := by
          rw [BitVec.toNat_ofNat]
          omega
        rw [ItemAt, haddr, hw]
      · have htail := codeAt_of_linked is p (o + 1) hcode hpool (by omega)
          (by rw [pool] at hnear; omega) htop
        rw [Nat.mul_succ, ← Nat.add_assoc, BitVec.ofNat_add] at htail
        exact htail
  | .literal v :: is, p, o, hcode, hpool, hop, hnear, htop => by
      obtain ⟨hw, hcode⟩ := loaded_cons.mp hcode
      obtain ⟨hdata, hpool⟩ := loaded_append.mp hpool
      have hlen : (TurboAssembler.dataWords v).length = 2 := rfl
      simp only [pool, List.length_append, List.length_cons, hlen] at hop hnear htop hpool
      refine codeAt_cons.mpr ⟨?_, ?_⟩
      · have haddr : (BitVec.ofNat 64 (a + 4 * o)).toNat = a + 4 * o := by
          rw [BitVec.toNat_ofNat]
          omega
        have hoff : BitVec.ofNat 64 (4 * p) - BitVec.ofNat 64 (4 * o) =
            BitVec.ofNat 64 (4 * (p - o)) := by
          rw [Nat.mul_sub]
          exact BitVec.ofNat_sub_ofNat_of_le _ _ (by omega) (by omega)
        have hlit : (BitVec.ofNat 64 (a + 4 * o) + BitVec.ofNat 64 (4 * (p - o))).toNat =
            a + 4 * p := by
          rw [← BitVec.ofNat_add, BitVec.toNat_ofNat]
          omega
        refine ⟨BitVec.ofNat 64 (4 * (p - o)), ?_, ?_⟩
        · rw [haddr, hw, hoff, decode_encodeImm19Offset, wordOffset_extract (by omega)]
        · rw [hlit]
          exact read64_of_dataWords hdata
      · have htail := codeAt_of_linked is (p + 2) (o + 1) hcode
          (by rw [Nat.mul_add, ← Nat.add_assoc]; exact hpool) (by omega) (by omega) (by omega)
        rw [Nat.mul_succ, ← Nat.add_assoc, BitVec.ofNat_add] at htail
        exact htail

end Dobby
