import AndroidAnalysis.Interposition.SharedRecords
import AndroidAnalysis.XHook.Core

/-!
# The chains of registered hooks

A slot in memory holds code or the new function of a registered hook, and so does the
place where a hook saves what it replaced.  `Shows` says that memory is such a table of
slots and records, and `shows_hookOps` that hooking keeps to it: where the words do not
overlap, replacing slots in memory is putting the hook into them.
-/

namespace XHook

open Machine Interposition

variable {Re : Type}

/-- A pointer: to the hook with this new function, or to code. -/
def ptrOf (hooks : List (HookInfo Re)) (v : BitVec 64) : Ptr (BitVec 64) (BitVec 64) :=
  if v ∈ hooks.map HookInfo.newFunc then .hook v else .code v

/-- What the registered hooks have saved, by their new functions. -/
def savedOf (hooks : List (HookInfo Re)) (m : Mem) (r : BitVec 64) :
    Option (Ptr (BitVec 64) (BitVec 64)) :=
  match hooks.find? fun h => h.newFunc == r with
  | none => none
  | some h => h.oldFunc.map fun o => ptrOf hooks (read64 m o.toNat)

/-- The words are apart: the slots from each other and from the records, and the records
from each other.  Each hook has a new function of its own, and a record. -/
structure WordsOk (hooks : List (HookInfo Re)) (K : BitVec 64 → Prop) : Prop where
  nodup : (hooks.map HookInfo.newFunc).Nodup
  record : ∀ h ∈ hooks, h.oldFunc.isSome
  slots : ∀ s t, K s → K t → s = t ∨ WordsApart s t
  slotRecord : ∀ s, K s → ∀ h ∈ hooks, ∀ o, h.oldFunc = some o → WordsApart s o
  records : ∀ h ∈ hooks, ∀ h' ∈ hooks, h.newFunc ≠ h'.newFunc → ∀ o o', h.oldFunc = some o →
    h'.oldFunc = some o' → WordsApart o o'

/-- Memory holds these slots and records. -/
structure Shows (hooks : List (HookInfo Re)) (K : BitVec 64 → Prop) (m : Mem)
    (st : State (BitVec 64) (BitVec 64) (BitVec 64)) : Prop where
  slots : ∀ s, K s → st.slots s = ptrOf hooks (read64 m s.toNat)
  saved : st.saved = savedOf hooks m

section
variable {hooks : List (HookInfo Re)} {K : BitVec 64 → Prop} {m : Mem}
  {st : State (BitVec 64) (BitVec 64) (BitVec 64)} {h : HookInfo Re}

theorem ptrOf_newFunc (hh : h ∈ hooks) : ptrOf hooks h.newFunc = .hook h.newFunc :=
  if_pos (List.mem_map_of_mem hh)

theorem ptrOf_eq_hook {v r : BitVec 64} (hv : ptrOf hooks v = .hook r) : v = r := by
  rw [ptrOf] at hv
  split at hv
  next => cases hv; rfl
  next => cases hv

/-- A hook is found by its new function. -/
theorem find_newFunc (hnodup : (hooks.map HookInfo.newFunc).Nodup) (hh : h ∈ hooks) :
    hooks.find? (fun h' => h'.newFunc == h.newFunc) = some h := by
  induction hooks with
  | nil => exact absurd hh List.not_mem_nil
  | cons h' hooks ih =>
      rw [List.map_cons, List.nodup_cons] at hnodup
      rw [List.find?_cons]
      rcases List.mem_cons.mp hh with rfl | hmem
      · rw [beq_self_eq_true]
      · have hne : (h'.newFunc == h.newFunc) = false := by
          refine beq_false_of_ne fun heq => hnodup.1 ?_
          rw [heq]
          exact List.mem_map_of_mem hmem
        rw [hne]
        exact ih hnodup.2 hmem

/-- Replacing a slot is putting the hook into it. -/
theorem Shows.replaceSlot (hw : WordsOk hooks K) (hs : Shows hooks K m st) (hh : h ∈ hooks)
    {s : BitVec 64} (hK : K s) :
    Shows hooks K (if read64 m s.toNat = h.newFunc then m
      else XHook.replaceSlot h.newFunc h.oldFunc m s) (put h.newFunc st s) := by
  obtain ⟨o, ho⟩ := Option.isSome_iff_exists.mp (hw.record h hh)
  have hslot := hs.slots s hK
  rw [put]
  by_cases hsame : read64 m s.toNat = h.newFunc
  · have hhook : (st.slots s).isHook h.newFunc = true := by
      rw [Ptr.isHook_iff, hslot, hsame, ptrOf_newFunc hh]
    rw [if_pos hsame, if_pos hhook]
    exact hs
  · have hnot : ¬ (st.slots s).isHook h.newFunc = true := by
      rw [Ptr.isHook_iff, hslot]
      exact fun heq => hsame (ptrOf_eq_hook heq)
    rw [if_neg hsame, if_neg hnot]
    constructor
    · intro t ht
      have hold : ∀ o, h.oldFunc = some o → WordsApart t o := hw.slotRecord t ht h hh
      rcases hw.slots t s ht hK with rfl | hapart
      · rw [read64_replaceSlot_same, ptrOf_newFunc hh]
        exact Function.update_self _ _ _
      · have hne : t ≠ s := by
          rintro rfl
          rw [WordsApart] at hapart
          omega
        rw [read64_replaceSlot_apart hapart hold, ← hs.slots t ht]
        exact Function.update_of_ne hne _ _
    · funext r
      have hfind := find_newFunc hw.nodup hh
      by_cases hr : r = h.newFunc
      · subst hr
        rw [savedOf, hfind]
        show _ = h.oldFunc.map _
        rw [ho, Option.map_some, read64_replaceSlot_saved (hw.slotRecord s hK h hh o ho).symm,
          ← hslot]
        exact Function.update_self _ _ _
      · have hkeep : savedOf hooks (XHook.replaceSlot h.newFunc h.oldFunc m s) r =
            savedOf hooks m r := by
          rw [savedOf, savedOf]
          cases hfind' : hooks.find? fun h' => h'.newFunc == r with
          | none => rfl
          | some h' =>
              have hmem := List.mem_of_find?_eq_some hfind'
              have hbeq := List.find?_some hfind'
              have hnew : h'.newFunc = r := beq_iff_eq.mp hbeq
              obtain ⟨o', ho'⟩ := Option.isSome_iff_exists.mp (hw.record h' hmem)
              simp only [ho', Option.map_some]
              rw [read64_replaceSlot_apart (hw.slotRecord s hK h' hmem o' ho').symm]
              intro o₂ ho₂
              exact hw.records h' hmem h hh (hnew ▸ hr) o' o₂ ho' ho₂
        rw [hkeep, ← hs.saved]
        exact Function.update_of_ne hr _ _

theorem Shows.replaceAll (hw : WordsOk hooks K) (hh : h ∈ hooks) {slots : List (BitVec 64)}
    (hK : ∀ s ∈ slots, K s) (hs : Shows hooks K m st) :
    Shows hooks K (XHook.replaceAll h.newFunc h.oldFunc slots m) (putAll h.newFunc slots st) := by
  induction slots generalizing m st with
  | nil => exact hs
  | cons s slots ih =>
      exact ih (fun t ht => hK t (List.mem_cons_of_mem _ ht))
        (hs.replaceSlot hw hh (hK s List.mem_cons_self))

/-- Hooks that are put into slots of memory one after the other. -/
def hookOps (ops : List (HookInfo Re × List (BitVec 64))) (m : Mem) : Mem :=
  ops.foldl (fun m op => replaceAll op.1.newFunc op.1.oldFunc op.2 m) m

/-- The same hooks by their new functions. -/
def roundOf (ops : List (HookInfo Re × List (BitVec 64))) :
    List (BitVec 64 × List (BitVec 64)) :=
  ops.map fun op => (op.1.newFunc, op.2)

/-- Hooking in memory is a round of hooks on its slots and records. -/
theorem shows_hookOps (hw : WordsOk hooks K) {ops : List (HookInfo Re × List (BitVec 64))}
    (hmem : ∀ op ∈ ops, op.1 ∈ hooks) (hK : ∀ op ∈ ops, ∀ s ∈ op.2, K s)
    (hs : Shows hooks K m st) : Shows hooks K (hookOps ops m) (hookAll (roundOf ops) st) := by
  induction ops generalizing m st with
  | nil => exact hs
  | cons op ops ih =>
      exact ih (fun op' hop' => hmem op' (List.mem_cons_of_mem _ hop'))
        (fun op' hop' => hK op' (List.mem_cons_of_mem _ hop'))
        (hs.replaceAll hw (hmem op List.mem_cons_self) (hK op List.mem_cons_self))

/-! ## The order of registration -/

/-- When a hook was registered, by its new function. -/
def posOf (hooks : List (HookInfo Re)) (r : BitVec 64) : Nat :=
  hooks.findIdx fun h => h.newFunc == r

/-- The function of a symbol that a hook stands for, by its new function. -/
def originOf (hooks : List (HookInfo Re)) (origin : CStr → BitVec 64) (r : BitVec 64) :
    BitVec 64 :=
  match hooks.find? fun h => h.newFunc == r with
  | none => 0
  | some h => origin h.symbol

theorem originOf_newFunc (hnodup : (hooks.map HookInfo.newFunc).Nodup) (hh : h ∈ hooks)
    (origin : CStr → BitVec 64) : originOf hooks origin h.newFunc = origin h.symbol := by
  rw [originOf, find_newFunc hnodup hh]

theorem posOf_inj (hh : h ∈ hooks) (q : BitVec 64)
    (hq : posOf hooks q = posOf hooks h.newFunc) : q = h.newFunc := by
  have hlt : posOf hooks h.newFunc < hooks.length :=
    List.findIdx_lt_length_of_exists ⟨h, hh, beq_self_eq_true _⟩
  have hat : ∀ r i (hi : i < hooks.length), posOf hooks r = i → hooks[i].newFunc = r := by
    rintro r i hi rfl
    exact beq_iff_eq.mp (List.findIdx_getElem (w := hi))
  rw [← hat q _ hlt hq, hat h.newFunc _ hlt rfl]

theorem posOf_cons (h h' : HookInfo Re) (hooks : List (HookInfo Re))
    (hne : h.newFunc ≠ h'.newFunc) :
    posOf (h :: hooks) h'.newFunc = posOf hooks h'.newFunc + 1 := by
  rw [posOf, List.findIdx_cons, beq_false_of_ne hne]
  rfl

theorem posOf_pairwise (hnodup : (hooks.map HookInfo.newFunc).Nodup) :
    hooks.Pairwise fun a b => posOf hooks a.newFunc < posOf hooks b.newFunc := by
  induction hooks with
  | nil => exact .nil
  | cons h hooks ih =>
      rw [List.map_cons, List.nodup_cons] at hnodup
      have hne : ∀ h' ∈ hooks, h.newFunc ≠ h'.newFunc := fun h' hh' heq =>
        hnodup.1 (heq ▸ List.mem_map_of_mem hh')
      refine List.pairwise_cons.mpr ⟨fun b hb => ?_, (ih hnodup.2).imp_of_mem ?_⟩
      · have hzero : posOf (h :: hooks) h.newFunc = 0 := by
          rw [posOf, List.findIdx_cons, beq_self_eq_true]
          rfl
        rw [hzero, posOf_cons _ _ _ (hne b hb)]
        exact Nat.succ_pos _
      · intro a b ha hb hlt
        rw [posOf_cons _ _ _ (hne a ha), posOf_cons _ _ _ (hne b hb)]
        exact Nat.succ_lt_succ hlt

/-! ## Rounds on memory -/

/-- What a round does not write, it keeps. -/
theorem hookOps_agreeOn {p : Nat → Prop} {ops : List (HookInfo Re × List (BitVec 64))}
    (hslots : ∀ op ∈ ops, ∀ s ∈ op.2, WordMisses p s)
    (hold : ∀ op ∈ ops, ∀ o, op.1.oldFunc = some o → WordMisses p o) (m : Mem) :
    Mem.AgreeOn p m (hookOps ops m) := by
  induction ops generalizing m with
  | nil => exact .refl p m
  | cons op ops ih =>
      exact (replaceAll_agreeOn (hslots op List.mem_cons_self) (hold op List.mem_cons_self) m).trans
        (ih (fun op' hop' => hslots op' (List.mem_cons_of_mem _ hop'))
          (fun op' hop' => hold op' (List.mem_cons_of_mem _ hop')) _)

/-- The slots of other libraries keep what they hold. -/
theorem read64_hookOps (hw : WordsOk hooks K) {ops : List (HookInfo Re × List (BitVec 64))}
    (hmem : ∀ op ∈ ops, op.1 ∈ hooks) (hK : ∀ op ∈ ops, ∀ s ∈ op.2, K s) {t : BitVec 64} (ht : K t)
    (hout : ∀ op ∈ ops, t ∉ op.2) : read64 (hookOps ops m) t.toNat = read64 m t.toNat := by
  induction ops generalizing m with
  | nil => rfl
  | cons op ops ih =>
      have hkeep : read64 (replaceAll op.1.newFunc op.1.oldFunc op.2 m) t.toNat =
          read64 m t.toNat := by
        rw [read64_replaceAll (fun s hs => hw.slots t s ht (hK op List.mem_cons_self s hs))
          (hw.slotRecord t ht op.1 (hmem op List.mem_cons_self)),
          if_neg (hout op List.mem_cons_self)]
      rw [← hkeep]
      exact ih (fun op' hop' => hmem op' (List.mem_cons_of_mem _ hop'))
        (fun op' hop' => hK op' (List.mem_cons_of_mem _ hop'))
        (fun op' hop' => hout op' (List.mem_cons_of_mem _ hop'))

/-- A round in the order of registration, on slots that hold the functions of their
symbols, keeps the records and takes the slots to pointers that lead to what they held. -/
theorem hookOps_led (hw : WordsOk hooks K) {origin : CStr → BitVec 64} {done : BitVec 64 → Prop}
    {ops : List (HookInfo Re × List (BitVec 64))} {L : BitVec 64 → Prop}
    (hsub : (ops.map Prod.fst).Sublist hooks)
    (hslots : ∀ op ∈ ops, ∀ s ∈ op.2, L s ∧ read64 m s.toNat = origin op.1.symbol)
    (hL : ∀ s, L s → K s ∧ read64 m s.toNat ∉ hooks.map HookInfo.newFunc)
    (hrec : Recorded (posOf hooks) (originOf hooks origin) done (savedOf hooks m)) :
    ∃ done' : BitVec 64 → Prop, (∀ q, done q → done' q) ∧
      Recorded (posOf hooks) (originOf hooks origin) done' (savedOf hooks (hookOps ops m)) ∧
      ∀ s, L s → Led (originOf hooks origin) done' (read64 m s.toNat)
        (ptrOf hooks (read64 (hookOps ops m) s.toNat)) := by
  have hmem : ∀ op ∈ ops, op.1 ∈ hooks := fun op hop =>
    hsub.subset (List.mem_map_of_mem hop)
  let st : State (BitVec 64) (BitVec 64) (BitVec 64) :=
    ⟨fun s => ptrOf hooks (read64 m s.toNat), savedOf hooks m⟩
  have hshows : Shows hooks K (hookOps ops m) (hookAll (roundOf ops) st) :=
    shows_hookOps hw hmem (fun op hop s hs => (hL s (hslots op hop s hs).1).1)
      ⟨fun _ _ => rfl, rfl⟩
  have hround : ∀ h ∈ roundOf ops, ∃ op ∈ ops, (op.1.newFunc, op.2) = h := fun h hh =>
    List.mem_map.mp hh
  have hinj : ∀ h ∈ roundOf ops, ∀ q, posOf hooks q = posOf hooks h.1 → q = h.1 := by
    intro h hh q hq
    obtain ⟨op, hop, rfl⟩ := hround h hh
    exact posOf_inj (hmem op hop) q hq
  have horder : (roundOf ops).Pairwise fun a b => posOf hooks a.1 < posOf hooks b.1 := by
    have hpair := (posOf_pairwise hw.nodup).sublist hsub
    rw [List.pairwise_map] at hpair
    rw [roundOf, List.pairwise_map]
    exact hpair
  have hown : ∀ h ∈ roundOf ops, ∀ s ∈ h.2,
      L s ∧ read64 m s.toNat = originOf hooks origin h.1 := by
    intro h hh s hs
    obtain ⟨op, hop, rfl⟩ := hround h hh
    obtain ⟨hin, heq⟩ := hslots op hop s hs
    exact ⟨hin, heq.trans (originOf_newFunc hw.nodup (hmem op hop) origin).symm⟩
  have hcode : ∀ s, L s → Below (posOf hooks) (originOf hooks origin) done 0
      (read64 m s.toNat) (st.slots s) := fun s hs => .inl (if_neg (hL s hs).2)
  have hzero : ∀ h ∈ roundOf ops, 0 ≤ posOf hooks h.1 := fun _ _ => Nat.zero_le _
  obtain ⟨done', hsub', hrec', hled⟩ := hookAll_led hinj horder hown hzero hrec hcode
  refine ⟨done', hsub', hshows.saved ▸ hrec', fun s hs => ?_⟩
  rw [← hshows.slots s (hL s hs).1]
  exact hled s hs

end

end XHook
