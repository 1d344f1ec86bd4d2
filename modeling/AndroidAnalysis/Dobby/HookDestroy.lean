import AndroidAnalysis.Dobby.HookHistory

/-!
# One hook, made and destroyed

`dobbyHook_spec` is the contract of a call of `DobbyHook`: it fails and changes
nothing, or it makes a hook, writes to the block of it, to the patched bytes and to
the place of the original, and to nothing else.

`DobbyDestroy` takes the number of bytes to write back from `origin_insn_size`.  No
function sets that field, so it is what the heap happens to hold.
`dobbyDestroy_restores_iff` says when the function is restored all the same: where
the bytes of the trampoline that are not written over, and those behind it that are,
are the right ones by chance.
-/

namespace Dobby

open Machine Machine.A64

section
variable {page : Nat} {ndebug : Bool} {c : HookCall} {r : Int} {t : Hooker}

/-! ## The contract of a call -/

/-- The address of the relocated code is where it was asked for. -/
theorem Hook.read_origin (h : Hook) (m : Mem) {p : BitVec 64}
    (hapart : MemBlock.Apart ⟨p.toNat, 8⟩ h.patch) :
    read64 (h.write (some p) m) p.toNat = h.relocated := by
  have hput : read64 (putOrigin (storeWords m h.relocated.toNat h.code) (some p) h.relocated)
      p.toNat = h.relocated := read64_write64_same _ _ _
  rw [← hput]
  refine (storeWords_agreeOn_has (p := MemBlock.Has ⟨p.toNat, 8⟩) (b := h.patch) _ _ rfl
    fun x hx => hapart.not_has hx).read64 fun x hlo hhi => ⟨hlo, hhi⟩

/-- A call fails and changes nothing, or it makes a hook. -/
theorem dobbyHook_spec {s : History} (hp : s.Placed ndebug)
    (hsound : s.Sound page ndebug (.hook c)) (hr : dobbyHook page ndebug s.hooker c = .ok (r, t)) :
    (r = -1 ∧ t = s.hooker ∧
      (c.address = 0 ∨ c.permitted = false ∨ ∃ h ∈ s.live, h.address = c.address)) ∨
    r = 0 ∧ (∀ h ∈ s.live, h.address ≠ c.address) ∧
      ∃ h : Hook, hookOf page ndebug s.hooker c = some h ∧ h.address = c.address ∧
        h.replaceFunc = c.replaceFunc ∧
        h.insts = wordsFrom s.hooker.mem c.address.toNat h.tramp.length ∧
        History.Placed ndebug ⟨t, h :: s.made, s.live ++ [h]⟩ ∧
        (∀ p, c.originFunc = some p → read64 t.mem p.toNat = h.relocated) ∧
        Mem.AgreeOn (fun x => ∀ b ∈ h.written c.originFunc, ¬ b.Has x) s.hooker.mem t.mem := by
  rcases dobbyHook_cases hr with ⟨rfl, rfl, hwhy⟩ | ⟨h, allocator, rfl, hh, halloc, hnone, rfl⟩
  · refine .inl ⟨rfl, rfl, hwhy.imp_right (Or.imp_right fun hfound => ?_)⟩
    obtain ⟨e, he⟩ := Option.isSome_iff_exists.mp hfound
    obtain ⟨h, pre, post, hlive, -, hmatch⟩ :=
      History.forall₂_find (History.matches_address c.address) hp.table he
    exact ⟨h, hlive ▸ by simp, hmatch.address.symm.trans (Hooker.find_eq_some he)⟩
  · have hcall := hsound h hh
    have hplaced := History.placed_hook hp hcall hh halloc
    have hfits := hplaced.fits h List.mem_cons_self
    obtain ⟨haddr, hreplace, hinsts, -, -⟩ := hookOf_eq_some hh
    refine .inr ⟨rfl, ?_, h, hh, haddr, hreplace, hinsts, hplaced, ?_, ?_⟩
    · have herase := History.forall₂_eraseP_of_find (History.matches_address c.address) hp.table
        hnone
      intro l hl heq
      have hnot := List.eraseP_eq_self_iff.mp herase l hl
      exact hnot (beq_iff_eq.mpr heq)
    · intro p hp'
      have hapart := (List.pairwise_cons.mp hcall.apart).2
      rw [hp'] at hapart ⊢
      obtain ⟨hpatch, -⟩ := List.pairwise_cons.mp hapart
      exact h.read_origin _ (hpatch _ List.mem_cons_self).symm
    · exact hfits.write_agreeOn _ fun b hb x hx => hx b hb

end

/-- The call of the sample history makes a hook. -/
theorem made_zeroCall : ∃ t h,
    dobbyHook 0x1000 true (History.start fun _ => 0).hooker History.zeroCall = .ok (0, t) ∧
      hookOf 0x1000 true (History.start fun _ => 0).hooker History.zeroCall = some h ∧
      History.Placed true ⟨t, [h], [h]⟩ := by
  have hzero : (dobbyHook 0x1000 true (History.start fun _ => 0).hooker History.zeroCall).map
      Prod.fst = .ok 0 := by decide
  cases hr : dobbyHook 0x1000 true (History.start fun _ => 0).hooker History.zeroCall with
  | error =>
      rw [hr] at hzero
      cases hzero
  | ok r =>
      rw [hr] at hzero
      have hret : r.1 = 0 := Except.ok.inj hzero
      obtain ⟨r, t⟩ := r
      subst hret
      rcases dobbyHook_cases hr with ⟨hneg, -⟩ | ⟨h, allocator, -, hh, halloc, -, rfl⟩
      · exact absurd hneg (by decide)
      · exact ⟨_, h, rfl, hh, History.placed_hook (History.placed_start _)
          (History.sound_zeroCall h hh) hh halloc⟩

theorem dobbyHook_spec_zeroCall : ∃ t h,
    dobbyHook 0x1000 true (History.start fun _ => 0).hooker History.zeroCall = .ok (0, t) ∧
      ∀ p, History.zeroCall.originFunc = some p → read64 t.mem p.toNat = Hook.relocated h := by
  obtain ⟨t, -, hr, -⟩ := made_zeroCall
  rcases dobbyHook_spec (History.placed_start _) History.sound_zeroCall hr with
    ⟨hneg, -⟩ | ⟨-, -, h, -, -, -, -, -, horigin, -⟩
  · exact absurd hneg (by decide)
  · exact ⟨t, h, hr, horigin⟩

/-! ## Destroying it -/

section
variable {page : Nat} {ndebug : Bool} {c : HookCall} {t : Hooker}

theorem getElem_bytesAt (m : Mem) {a n i : Nat} (h : i < (bytesAt m a n).length) :
    (bytesAt m a n)[i] = m (a + i) := by
  simp [bytesAt]

/-- The bytes of an entry: those that are patched, and behind them what was in the
heap. -/
theorem Hook.originInsns_get (h : Hook) (s : Hooker) (unset : InterceptEntry) (i : Nat) :
    Mem.ofBytes (h.entry s unset).originInsns i =
      if i < 4 * h.tramp.length then
        storeWords s.mem h.relocated.toNat h.code (h.address.toNat + i)
      else Mem.ofBytes unset.originInsns i := by
  rw [Mem.ofBytes, Mem.ofBytes, List.getD_eq_getElem?_getD (l := unset.originInsns),
    List.getD_eq_getElem?_getD]
  show ((bytesAt _ _ _ ++ List.drop _ _)[i]?).getD 0 = _
  split
  next hlt =>
    rw [List.getElem?_append_left (by simpa using hlt),
      List.getElem?_eq_getElem (by simpa using hlt), getElem_bytesAt]
    rfl
  next hge =>
    have hle : 4 * h.tramp.length ≤ i := Nat.le_of_not_lt hge
    rw [List.getElem?_append_right (by simpa using hle), length_bytesAt, List.getElem?_drop,
      Nat.add_sub_cancel' hle]

theorem ofBytes_take {bytes : List (BitVec 8)} {g i : Nat} (hi : i < g) :
    Mem.ofBytes (bytes.take g) i = Mem.ofBytes bytes i := by
  rw [Mem.ofBytes, Mem.ofBytes, List.getD_eq_getElem?_getD, List.getD_eq_getElem?_getD,
    List.getElem?_take_of_lt hi]

/-- What destroying a hook that was just made does to the table and to memory. -/
theorem dobbyDestroy_dobbyHook {s : Hooker} {h : Hook}
    (hr : dobbyHook page ndebug s c = .ok (0, t)) (hh : hookOf page ndebug s c = some h)
    (hg : c.unset.originInsnSize ≤ c.unset.originInsns.length)
    (hlen : 4 * h.tramp.length ≤ c.unset.originInsns.length) :
    t.mem = h.write c.originFunc s.mem ∧ ∃ u, dobbyDestroy t c.address = .ok (0, u) ∧
      u.entries = s.entries ∧ u.mem = memcpy t.mem h.address.toNat
        ((h.entry s c.unset).originInsns.take c.unset.originInsnSize) := by
  rcases dobbyHook_cases hr with ⟨hneg, -⟩ | ⟨h', allocator, -, hh', -, hnone, rfl⟩
  · exact absurd hneg (by decide)
  cases hh.symm.trans hh'
  have haddr : (h.entry s c.unset).patchedAddr = c.address := (hookOf_eq_some hh).1
  have hhas : ((h.entry s c.unset).patchedAddr == c.address) = true := beq_iff_eq.mpr haddr
  have hfind : Hooker.find ⟨h.write c.originFunc s.mem, allocator,
      s.entries ++ [h.entry s c.unset]⟩ c.address = some (h.entry s c.unset) := by
    rw [Hooker.find] at hnone ⊢
    rw [List.find?_append, hnone, Option.none_or, List.find?_cons]
    simp only [hhas]
  have hsize : (h.entry s c.unset).originInsns.length = c.unset.originInsns.length := by
    rw [Hook.entry, List.length_append, length_bytesAt, List.length_drop]
    omega
  have herase : (s.entries ++ [h.entry s c.unset]).eraseP (·.patchedAddr == c.address) =
      s.entries := by
    rw [Hooker.find, List.find?_eq_none] at hnone
    rw [List.eraseP_append_right _ hnone, List.eraseP_cons]
    simp only [hhas, cond_true, List.append_nil]
  let buffer := (h.entry s c.unset).originInsns.take c.unset.originInsnSize
  refine ⟨rfl, Hooker.remove ⟨memcpy (h.write c.originFunc s.mem) c.address.toNat buffer, allocator,
    s.entries ++ [h.entry s c.unset]⟩ c.address, ?_, herase, ?_⟩
  · rw [dobbyDestroy, hfind]
    simp only
    rw [if_pos (by rw [hsize]; exact hg)]
    rfl
  · rw [show h.address = c.address from haddr]
    rfl

section
variable {s : Hooker} {h : Hook}

/-- A byte of the function's 256. -/
theorem has_function {i : Nat} (hi : i < 256) :
    MemBlock.Has ⟨h.address.toNat, 256⟩ (h.address.toNat + i) :=
  ⟨Nat.le_add_right _ _, Nat.add_lt_add_left hi _⟩

/-- Behind the patch making the hook writes nothing of the function. -/
theorem write_behind (hf : h.Fits ndebug)
    (hapart : ∀ b ∈ h.block :: originPlace c.originFunc, b.Apart ⟨h.address.toNat, 256⟩) {i : Nat}
    (hle : h.patch.size ≤ i) (hi : i < 256) :
    h.write c.originFunc s.mem (h.address.toNat + i) = s.mem (h.address.toNat + i) := by
  have hkeep : Mem.AgreeOn (fun x => x = h.address.toNat + i) s.mem
      (h.write c.originFunc s.mem) := by
    refine hf.write_agreeOn s.mem fun b hb x hx => ?_
    subst hx
    rcases List.mem_cons.mp hb with rfl | hb
    · exact (hapart _ List.mem_cons_self).symm.not_has (has_function hi)
    · rcases List.mem_cons.mp hb with rfl | hb
      · rintro ⟨-, hstop⟩
        rw [MemBlock.stop] at hstop
        have haddr : h.patch.addr = h.address.toNat := rfl
        omega
      · exact (hapart _ (List.mem_cons_of_mem _ hb)).symm.not_has (has_function hi)
  exact hkeep _ rfl

/-- The relocated code is written apart from the function. -/
theorem storeWords_function (hf : h.Fits ndebug)
    (hapart : h.block.Apart ⟨h.address.toNat, 256⟩) {i : Nat} (hi : i < 256) :
    storeWords s.mem h.relocated.toNat h.code (h.address.toNat + i) =
      s.mem (h.address.toNat + i) := by
  have hblock : h.block = ⟨h.relocated.toNat, 4 * h.code.length⟩ := by
    rw [hf.relocated_toNat, ← hf.size]
  exact storeWords_agreeOn_has (p := fun x => x = h.address.toNat + i) s.mem h.code hblock
    (fun x hx => hx ▸ hapart.symm.not_has (has_function hi)) _ rfl

/-- A byte of the function after the hook is destroyed: what the entry saved of it, or
what the heap held behind that, or what it was. -/
theorem destroyed_byte {m : Mem} {unset : InterceptEntry} (hf : h.Fits ndebug)
    (hapart : h.block.Apart ⟨h.address.toNat, 256⟩) (hlen : unset.originInsns.length = 256)
    (hshort : h.patch.size ≤ 256) (hg : unset.originInsnSize ≤ 256) {i : Nat} (hi : i < 256) :
    memcpy m h.address.toNat ((h.entry s unset).originInsns.take unset.originInsnSize)
        (h.address.toNat + i) =
      if i < unset.originInsnSize then
        if i < h.patch.size then s.mem (h.address.toNat + i) else Mem.ofBytes unset.originInsns i
      else m (h.address.toNat + i) := by
  have hpatch : h.patch.size = 4 * h.tramp.length := rfl
  have hsize : (h.entry s unset).originInsns.length = 256 := by
    rw [Hook.entry, List.length_append, length_bytesAt, List.length_drop]
    omega
  have hcond : (h.address.toNat ≤ h.address.toNat + i ∧ h.address.toNat + i <
      h.address.toNat + ((h.entry s unset).originInsns.take unset.originInsnSize).length) ↔
      i < unset.originInsnSize := by
    rw [List.length_take, hsize]
    omega
  rw [memcpy]
  simp only [hcond, Nat.add_sub_cancel_left]
  split
  next hlt =>
    rw [ofBytes_take hlt, Hook.originInsns_get, storeWords_function hf hapart hi]
    rfl
  next => rfl

end

/-- Destroying a hook restores the function exactly where the bytes of the
trampoline that are left are those of the function, and so are the bytes of the heap
that are written behind it. -/
theorem dobbyDestroy_restores_iff {s : Hooker} {h : Hook}
    (hr : dobbyHook page ndebug s c = .ok (0, t)) (hh : hookOf page ndebug s c = some h)
    (hf : h.Fits ndebug) (hlen : c.unset.originInsns.length = 256)
    (hg : c.unset.originInsnSize ≤ 256)
    (hapart : ∀ b ∈ h.block :: originPlace c.originFunc, b.Apart ⟨h.address.toNat, 256⟩) :
    ∃ u, dobbyDestroy t c.address = .ok (0, u) ∧ u.entries = s.entries ∧
      ((∀ i < 256, u.mem (h.address.toNat + i) = s.mem (h.address.toNat + i)) ↔
        (∀ i, c.unset.originInsnSize ≤ i → i < h.patch.size →
          t.mem (h.address.toNat + i) = s.mem (h.address.toNat + i)) ∧
        ∀ i, h.patch.size ≤ i → i < c.unset.originInsnSize →
          Mem.ofBytes c.unset.originInsns i = s.mem (h.address.toNat + i)) := by
  have htramp := (length_generateNormalTrampolineBuffer h.address h.replaceFunc).2
  have hpatch : h.patch.size = 4 * h.tramp.length := rfl
  have hshort : 4 * h.tramp.length ≤ 16 := Nat.mul_le_mul_left 4 htramp
  obtain ⟨hmem, u, hu, hentries, humem⟩ := dobbyDestroy_dobbyHook hr hh (hlen ▸ hg)
    (by omega)
  refine ⟨u, hu, hentries, ?_⟩
  have hafter : ∀ i < 256, u.mem (h.address.toNat + i) =
      if i < c.unset.originInsnSize then
        if i < h.patch.size then s.mem (h.address.toNat + i)
        else Mem.ofBytes c.unset.originInsns i
      else t.mem (h.address.toNat + i) := by
    intro i hi
    rw [humem]
    exact destroyed_byte hf (hapart _ List.mem_cons_self) hlen (by omega) hg hi
  constructor
  · intro hall
    constructor
    · intro i hge hlt
      have h' := hall i (by omega)
      rwa [hafter i (by omega), if_neg (by omega)] at h'
    · intro i hge hlt
      have h' := hall i (by omega)
      rwa [hafter i (by omega), if_pos hlt, if_neg (by omega)] at h'
  · rintro ⟨hleft, hover⟩ i hi
    rw [hafter i hi]
    split
    next hlt =>
      split
      next => rfl
      next hge => exact hover i (Nat.le_of_not_lt hge) hlt
    next hge =>
      rcases Nat.lt_or_ge i h.patch.size with hlt | hle
      · exact hleft i (Nat.le_of_not_lt hge) hlt
      · rw [hmem]
        exact write_behind hf hapart hle hi

end

/-- From a heap of zeros nothing is written back: the trampoline stays, and the table
is empty again. -/
theorem dobbyDestroy_restores_iff_zeroCall : ∃ t u,
    dobbyHook 0x1000 true (History.start fun _ => 0).hooker History.zeroCall = .ok (0, t) ∧
      dobbyDestroy t History.zeroCall.address = .ok (0, u) ∧ u.entries = [] ∧
        ¬ ∀ i < 256, u.mem (0x10000 + i) = 0 := by
  obtain ⟨t, h, hr, hh, hplaced⟩ := made_zeroCall
  obtain ⟨hpatch, hlen⟩ := History.hookOf_zeroCall hh
  obtain ⟨haddr, hreplace, -, -, allocator, halloc⟩ := hookOf_eq_some hh
  have hblock : h.block = ⟨0x30000, 36⟩ := by
    rw [hlen] at halloc
    exact congrArg Prod.fst (Option.some.inj halloc).symm
  have hapart : ∀ b ∈ h.block :: originPlace History.zeroCall.originFunc,
      b.Apart ⟨h.address.toNat, 256⟩ := by
    rw [hblock, haddr]
    decide
  obtain ⟨u, hu, hentries, hiff⟩ := dobbyDestroy_restores_iff hr hh
    (hplaced.fits h List.mem_cons_self) (List.length_replicate ..) (by decide) hapart
  refine ⟨t, u, hr, hu, hentries, fun hall => ?_⟩
  have hplace : h.address.toNat = 0x10000 := congrArg MemBlock.addr hpatch
  rw [hplace] at hiff
  have hleft := (hiff.mp hall).1
  rw [hpatch] at hleft
  -- The first word of the trampoline is not zero.
  have hword := hplaced.tramp h List.mem_cons_self 0 (by rw [Hook.tramp, haddr, hreplace]; decide)
  have hzero : read32 t.mem (0x10000 + 4 * 0) = 0 := by
    have hsame : read32 t.mem (0x10000 + 4 * 0) = read32 (fun _ => 0) (0x10000 + 4 * 0) := by
      refine readBytes_congr fun b hlo hhi => ?_
      obtain ⟨i, rfl⟩ := Nat.exists_eq_add_of_le hlo
      exact hleft i (Nat.zero_le _) (by show i < 12; omega)
    exact hsame.trans (by decide)
  have hfirst : (generateNormalTrampolineBuffer 0x10000 0x20000)[0]? = some 0 := by
    have hget := List.getElem?_eq_getElem (l := h.tramp) (i := 0)
      (by rw [Hook.tramp, haddr, hreplace]; decide)
    rw [← hword, hpatch, hzero, Hook.tramp, haddr, hreplace] at hget
    exact hget
  exact absurd hfirst (by decide)

end Dobby
