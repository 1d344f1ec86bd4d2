import AndroidAnalysis.HookLibc.Unmatched
import AndroidAnalysis.Machine.EventRun

/-!
# Registrations

`register_file_hook` and `unregister_file_hook`, and what a caller may do with
the number it was given.  The number is a key of `hook_file_list`, from a counter
that starts at 0.  For an expression that is registered already the function
returns `false`, which is 0 and so the key of the first hook.

A `Call` remembers which hook a registration added, so that a number can be
compared with the hook it is for.  `Issued` is the invariant: as long as the
counter has not come around, the key of a hook tells which call added it.
-/

namespace HookLibc

open Cpp Machine

variable {U : UserFilters}

/-! ## The functions -/

/-- `hook_params` -/
structure HookParams (U : UserFilters) where
  regPath : Str
  ffactory : Int → Filter U

/-- The constructor of `inside_hook_params`. -/
def HookParams.inside (params : HookParams U) : InsideHookParams U where
  regPath := params.regPath
  ffactory := params.ffactory
  openIndex := 0

/-- A `shared_ptr<inside_hook_params>`: which object it points to, and the object. -/
structure HookPtr (U : UserFilters) where
  number : Nat
  params : InsideHookParams U

/-- `hook_file_list` and `map_hook_index`, with the count of objects made so far. -/
structure Registry (U : UserFilters) where
  hookFileList : Std.TreeMap Int (HookPtr U)
  mapHookIndex : Int
  objects : Nat

namespace Registry

variable (r : Registry U)

/-- Before the first call. -/
def empty : Registry U := ⟨∅, 0, 0⟩

/-- The hook under a key. -/
def hook (key : Int) : Option (HookPtr U) := r.hookFileList[key]?

/-- `check_hook_info` -/
def checkHookInfo (info : HookParams U) : Bool :=
  r.hookFileList.toList.all fun item => item.2.params.regPath ≠ info.regPath

/-- `register_file_hook` -/
def registerFileHook (info : HookParams U) : Registry U × Int :=
  if r.checkHookInfo info then
    let iinfo : HookPtr U := ⟨r.objects, info.inside⟩
    let mhandle := r.mapHookIndex
    ({ hookFileList := r.hookFileList.insertIfNew mhandle iinfo
       mapHookIndex := asInt (mhandle + 1)
       objects := r.objects + 1 }, mhandle)
  else
    -- `return false`
    (r, 0)

/-- `unregister_file_hook` -/
def unregisterFileHook (mhandle : Int) : Registry U :=
  if r.hookFileList.contains mhandle then
    { r with hookFileList := r.hookFileList.erase mhandle }
  else r

end Registry

/-! ## Runs -/

/-- A call of one of the two functions. -/
inductive RegistryCall (U : UserFilters)
  | register (info : HookParams U)
  | unregister (mhandle : Int)

/-- A past call of `register_file_hook`: what it returned, and the hook it added. -/
structure Registered where
  ret : Int
  added : Option Nat

/-- The program, and the registrations it has made. -/
structure RegistryRun (U : UserFilters) where
  registry : Registry U
  past : List Registered

namespace RegistryRun

/-- Before the first call. -/
def start : RegistryRun U := ⟨.empty, []⟩

/-- The object that a call has made, if it is in the list now. -/
def addedBy (before after : Registry U) (ret : Int) : Option Nat :=
  ((after.hook ret).map HookPtr.number).filter (· = before.objects)

/-- One call. -/
def call (s : RegistryRun U) : RegistryCall U → RegistryRun U
  | .register info =>
      let r := s.registry.registerFileHook info
      { registry := r.1, past := s.past ++ [⟨r.2, addedBy s.registry r.1 r.2⟩] }
  | .unregister mhandle => { s with registry := s.registry.unregisterFileHook mhandle }

/-- Registrations are individually revocable: a number is the key of the hook that
its call added and of no other, and to unregister it leaves all others. -/
structure Revocable (s : RegistryRun U) : Prop where
  identifies : ∀ c ∈ s.past, ∀ k h, s.registry.hook k = some h →
    (k = c.ret ↔ c.added = some h.number)
  leaves : ∀ c ∈ s.past, ∀ k h, s.registry.hook k = some h → c.added ≠ some h.number →
    (s.registry.unregisterFileHook c.ret).hook k = some h

/-- A call that does not spoil this: a new expression before the counter comes
around, or an old one while no hook has the key 0. -/
def Good (s : RegistryRun U) : RegistryCall U → Prop
  | .register info =>
      if s.registry.checkHookInfo info then s.registry.objects < 4294967296
      else s.registry.hook 0 = none
  | .unregister _ => True

end RegistryRun

/-! ## Lookups -/

section

variable (r : Registry U)

theorem hook_unregisterFileHook (mhandle k : Int) :
    (r.unregisterFileHook mhandle).hook k = if mhandle = k then none else r.hook k := by
  rw [Registry.unregisterFileHook]
  split
  next => simp [Registry.hook, Std.TreeMap.getElem?_erase]
  next h =>
    split
    next hk =>
      rw [← hk]
      exact Std.TreeMap.getElem?_eq_none_of_contains_eq_false (Bool.eq_false_iff.mpr h)
    next => rfl

/-- A registered expression is that of a hook in the list. -/
theorem checkHookInfo_eq_false {info : HookParams U} (h : r.checkHookInfo info = false) :
    ∃ k h, r.hook k = some h := by
  obtain ⟨⟨k, h⟩, hmem, -⟩ := List.all_eq_false.mp h
  exact ⟨k, h, Std.TreeMap.mem_toList_iff_getElem?_eq_some.mp hmem⟩

theorem registerFileHook_of_registered {info : HookParams U}
    (h : r.checkHookInfo info = false) : r.registerFileHook info = (r, 0) := by
  rw [Registry.registerFileHook, h]
  rfl

/-- The next hook goes under the counter, unless there is one. -/
theorem hook_registerFileHook {info : HookParams U} (h : r.checkHookInfo info = true) (k : Int) :
    (r.registerFileHook info).1.hook k =
      (r.hook k).or (if k = r.mapHookIndex then some ⟨r.objects, info.inside⟩ else none) := by
  rw [Registry.registerFileHook, if_pos h]
  simp only [Registry.hook, Std.TreeMap.getElem?_insertIfNew, Std.LawfulEqCmp.compare_eq_iff_eq,
    Std.TreeMap.mem_iff_isSome_getElem?]
  by_cases hk : k = r.mapHookIndex
  · rw [hk]
    cases r.hookFileList[r.mapHookIndex]? with
    | none => simp
    | some old => simp
  · simp [hk, Ne.symm hk]

end

/-! ## Which call added a hook -/

/-- The counter tells apart the numbers it gives before it comes around. -/
theorem asInt_inj {n k : Nat} (hn : n < 4294967296) (hk : k < 4294967296)
    (h : asInt n = asInt k) : n = k := by
  rw [asInt, asInt] at h
  split at h <;> split at h <;> omega

theorem asInt_succ (n : Nat) : asInt (asInt n + 1) = asInt ((n + 1 : Nat) : Int) := by
  rw [asInt, asInt, asInt]
  split <;> split <;> split <;> omega

namespace RegistryRun

/-- The call added the `n`-th hook and returned the `n`-th number. -/
def Adds (c : Registered) (n : Nat) : Prop := c.added = some n ∧ c.ret = asInt n

/-- Before the counter has come around: the `n`-th hook is under the `n`-th number,
which the call that added it returned, and a call that added nothing found no hook
under 0. -/
structure Issued (s : RegistryRun U) : Prop where
  index : s.registry.mapHookIndex = asInt s.registry.objects
  bound : s.registry.objects ≤ 4294967296
  keys : ∀ k h, s.registry.hook k = some h → h.number < s.registry.objects ∧ k = asInt h.number
  calls : ∀ c ∈ s.past, (∃ n < s.registry.objects, Adds c n) ∨
    c.added = none ∧ c.ret = 0 ∧ s.registry.hook 0 = none ∧ 0 < s.registry.objects
  adders : ∀ n < s.registry.objects, ∃ c ∈ s.past, Adds c n

/-- So a number tells the hook. -/
theorem Issued.identifies {s : RegistryRun U} (hs : Issued s) {c : Registered} (hc : c ∈ s.past)
    {k : Int} {h : HookPtr U} (hk : s.registry.hook k = some h) :
    k = c.ret ↔ c.added = some h.number := by
  obtain ⟨hlt, hkey⟩ := hs.keys k h hk
  have hbound := hs.bound
  rcases hs.calls c hc with ⟨n, hn, hadd, hret⟩ | ⟨hadd, hret, hzero, -⟩
  · rw [hadd, hret, hkey, Option.some.injEq]
    constructor
    · intro heq
      exact (asInt_inj (by omega) (by omega) heq).symm
    · rintro rfl
      rfl
  · rw [hadd, hret]
    refine iff_of_false (fun h0 => ?_) fun hno => nomatch hno
    rw [h0, hzero] at hk
    exact nomatch hk

/-- A number that tells the hook can be unregistered without harm. -/
theorem Revocable.of_identifies {s : RegistryRun U}
    (hid : ∀ c ∈ s.past, ∀ k h, s.registry.hook k = some h →
      (k = c.ret ↔ c.added = some h.number)) : Revocable s where
  identifies := hid
  leaves := fun c hc k h hk hne => by
    have hkey : c.ret ≠ k := fun heq => hne ((hid c hc k h hk).mp heq.symm)
    rw [hook_unregisterFileHook, if_neg hkey, hk]

theorem Issued.revocable {s : RegistryRun U} (hs : Issued s) : Revocable s :=
  .of_identifies fun _ hc _ _ hk => hs.identifies hc hk

theorem issued_start : Issued (start : RegistryRun U) where
  index := asInt_of_isInt (by decide : IsInt 0) |>.symm
  bound := (by decide : (0 : Nat) ≤ 4294967296)
  keys := fun k h hk => by simp [start, Registry.hook, Registry.empty] at hk
  calls := fun c hc => absurd hc List.not_mem_nil
  adders := fun n hn => absurd hn (Nat.not_lt_zero n)

/-! ## One call -/

/-- An expression that is registered adds nothing and gives 0. -/
theorem call_registered {s : RegistryRun U} (hs : Issued s) {info : HookParams U}
    (hreg : s.registry.checkHookInfo info = false) :
    call s (.register info) = { s with past := s.past ++ [⟨0, none⟩] } := by
  have hadded : addedBy s.registry s.registry 0 = none := by
    rw [addedBy]
    cases hk : s.registry.hook 0 with
    | none => rfl
    | some h =>
        have hlt := (hs.keys 0 h hk).1
        simp [Nat.ne_of_lt hlt]
  rw [call, registerFileHook_of_registered _ hreg]
  dsimp only
  rw [hadded]

theorem Issued.unregister {s : RegistryRun U} (hs : Issued s) (mhandle : Int) :
    Issued (call s (.unregister mhandle)) := by
  have hobjects : (s.registry.unregisterFileHook mhandle).objects = s.registry.objects := by
    rw [Registry.unregisterFileHook]
    split <;> rfl
  have hindex : (s.registry.unregisterFileHook mhandle).mapHookIndex = s.registry.mapHookIndex := by
    rw [Registry.unregisterFileHook]
    split <;> rfl
  have hless {k : Int} {h : HookPtr U}
      (hk : (s.registry.unregisterFileHook mhandle).hook k = some h) :
      s.registry.hook k = some h := by
    rw [hook_unregisterFileHook] at hk
    split at hk
    next => exact nomatch hk
    next => exact hk
  refine ⟨?_, ?_, ?_, ?_, ?_⟩ <;> simp only [call, hobjects, hindex]
  · exact hs.index
  · exact hs.bound
  · exact fun k h hk => hs.keys k h (hless hk)
  · intro c hc
    refine (hs.calls c hc).imp_right fun ⟨hadd, hret, hzero, hpos⟩ => ⟨hadd, hret, ?_, hpos⟩
    rw [hook_unregisterFileHook, hzero, ite_self]
  · exact hs.adders

theorem Issued.register_old {s : RegistryRun U} (hs : Issued s) {info : HookParams U}
    (hreg : s.registry.checkHookInfo info = false) (hzero : s.registry.hook 0 = none) :
    Issued (call s (.register info)) := by
  obtain ⟨k, h, hk⟩ := checkHookInfo_eq_false _ hreg
  have hpos : 0 < s.registry.objects := Nat.lt_of_le_of_lt (Nat.zero_le _) (hs.keys k h hk).1
  rw [call_registered hs hreg]
  refine ⟨hs.index, hs.bound, hs.keys, fun c hc => ?_, fun n hn => ?_⟩
  · rcases List.mem_append.mp hc with hold | hnew
    · exact hs.calls c hold
    · obtain rfl := List.mem_singleton.mp hnew
      exact Or.inr ⟨rfl, rfl, hzero, hpos⟩
  · obtain ⟨c, hc, hadd⟩ := hs.adders n hn
    exact ⟨c, List.mem_append_left _ hc, hadd⟩

/-- A new expression, while the next number is not that of a hook. -/
theorem call_new {s : RegistryRun U} {info : HookParams U}
    (hnew : s.registry.checkHookInfo info = true)
    (hfree : s.registry.hook s.registry.mapHookIndex = none) :
    call s (.register info) = {
      registry := (s.registry.registerFileHook info).1
      past := s.past ++ [⟨s.registry.mapHookIndex, some s.registry.objects⟩] } := by
  have hret : (s.registry.registerFileHook info).2 = s.registry.mapHookIndex := by
    rw [Registry.registerFileHook, if_pos hnew]
  have hadded : addedBy s.registry (s.registry.registerFileHook info).1 s.registry.mapHookIndex =
      some s.registry.objects := by
    rw [addedBy, hook_registerFileHook _ hnew, hfree, if_pos rfl]
    simp
  rw [call, hret, hadded]

theorem Issued.register_new {s : RegistryRun U} (hs : Issued s) {info : HookParams U}
    (hnew : s.registry.checkHookInfo info = true) (hlt : s.registry.objects < 4294967296) :
    Issued (call s (.register info)) := by
  have hfree : s.registry.hook s.registry.mapHookIndex = none := by
    cases hk : s.registry.hook s.registry.mapHookIndex with
    | none => rfl
    | some h =>
        obtain ⟨hn, hkey⟩ := hs.keys _ h hk
        rw [hs.index] at hkey
        exact absurd (asInt_inj hlt (by omega) hkey) (by omega)
  have hobjects : (s.registry.registerFileHook info).1.objects = s.registry.objects + 1 := by
    rw [Registry.registerFileHook, if_pos hnew]
  have hindex : (s.registry.registerFileHook info).1.mapHookIndex =
      asInt (s.registry.mapHookIndex + 1) := by
    rw [Registry.registerFileHook, if_pos hnew]
  rw [call_new hnew hfree]
  refine ⟨?_, ?_, ?_, ?_, ?_⟩ <;> simp only [hobjects]
  · rw [hindex, hs.index, asInt_succ]
  · exact hlt
  · intro k h hk
    rw [hook_registerFileHook _ hnew, Option.or_eq_some_iff] at hk
    rcases hk with hold | ⟨-, hk⟩
    · obtain ⟨hn, hkey⟩ := hs.keys k h hold
      exact ⟨Nat.lt_succ_of_lt hn, hkey⟩
    · split at hk
      next heq =>
        cases hk
        exact ⟨Nat.lt_succ_self _, heq.trans hs.index⟩
      next => exact nomatch hk
  · intro c hc
    rcases List.mem_append.mp hc with hold | hadd
    · rcases hs.calls c hold with ⟨n, hn, hadd⟩ | ⟨hadd, hret, hzero, hpos⟩
      · exact Or.inl ⟨n, Nat.lt_succ_of_lt hn, hadd⟩
      · refine Or.inr ⟨hadd, hret, ?_, Nat.succ_pos _⟩
        have hne : (0 : Int) ≠ s.registry.mapHookIndex := fun h0 => by
          have hfirst : asInt s.registry.objects = asInt (0 : Nat) := by
            rw [← hs.index, ← h0]
            decide
          exact absurd (asInt_inj hlt (by decide) hfirst) (by omega)
        rw [hook_registerFileHook _ hnew, hzero, if_neg hne]
        rfl
    · obtain rfl := List.mem_singleton.mp hadd
      exact Or.inl ⟨s.registry.objects, Nat.lt_succ_self _, rfl, hs.index⟩
  · intro n hn
    rcases Nat.lt_succ_iff_lt_or_eq.mp hn with hold | rfl
    · obtain ⟨c, hc, hadd⟩ := hs.adders n hold
      exact ⟨c, List.mem_append_left _ hc, hadd⟩
    · exact ⟨_, List.mem_append_right _ List.mem_cons_self, rfl, hs.index⟩

theorem Issued.call {s : RegistryRun U} (hs : Issued s) {e : RegistryCall U} (hgood : Good s e) :
    Issued (call s e) := by
  cases e with
  | unregister mhandle => exact hs.unregister mhandle
  | register info =>
      rw [Good] at hgood
      split at hgood
      next hnew => exact hs.register_new hnew hgood
      next hreg => exact hs.register_old (Bool.eq_false_iff.mpr hreg) hgood

/-- After a call that is not good, a number is the key of a hook that its call did
not add. -/
theorem Issued.not_revocable {s : RegistryRun U} (hs : Issued s) {e : RegistryCall U}
    (hbad : ¬ Good s e) : ¬ Revocable (RegistryRun.call s e) := by
  intro hrev
  cases e with
  | unregister mhandle => exact hbad trivial
  | register info =>
      rw [Good] at hbad
      split at hbad
      next hnew =>
        -- the counter has come around: 0 is given out again
        have hall : s.registry.objects = 4294967296 := by
          have := hs.bound
          omega
        have hzero : s.registry.mapHookIndex = 0 := by
          rw [hs.index, hall]
          decide
        have hret : (s.registry.registerFileHook info).2 = 0 := by
          rw [Registry.registerFileHook, if_pos hnew, ← hzero]
        cases hk : s.registry.hook 0 with
        | none =>
            obtain ⟨c, hc, hadd, hcret⟩ := hs.adders 0 (by omega)
            have hk' : (s.registry.registerFileHook info).1.hook 0 =
                some ⟨s.registry.objects, info.inside⟩ := by
              rw [hook_registerFileHook _ hnew, hk, hzero]
              rfl
            have hid := (hrev.identifies c (List.mem_append_left _ hc) 0 _ hk').mp
              (hcret.symm ▸ by decide)
            have hown : 0 = s.registry.objects := Option.some.inj (hadd.symm.trans hid)
            omega
        | some h =>
            have hk' : (s.registry.registerFileHook info).1.hook 0 = some h := by
              rw [hook_registerFileHook _ hnew, hk]
              rfl
            have hid := (hrev.identifies _ (List.mem_append_right _ List.mem_cons_self) 0 h hk').mp
              hret.symm
            have hown : h.number = s.registry.objects := by
              have := Option.filter_eq_some_iff.mp hid
              simpa using this.2
            have hlt := (hs.keys 0 h hk).1
            omega
      next hreg =>
        rw [call_registered hs (Bool.eq_false_iff.mpr hreg)] at hrev
        obtain ⟨h, hk⟩ := Option.ne_none_iff_exists'.mp hbad
        have hid := hrev.identifies ⟨0, none⟩ (List.mem_append_right _ List.mem_cons_self) 0 h hk
        exact nomatch hid.mp rfl

end RegistryRun

/-- Registrations stay individually revocable exactly when a new expression is only
registered before the counter has come around, and a registered one only while no
hook has the key 0. -/
theorem registrations_revocable_iff (es : List (RegistryCall U)) :
    (∀ p, p <+: es → (p.foldl RegistryRun.call .start).Revocable) ↔
      ∀ past e rest, es = past ++ e :: rest → (past.foldl RegistryRun.call .start).Good e :=
  foldl_always_iff_state RegistryRun.Issued RegistryRun.Revocable RegistryRun.Good
    (fun _ => RegistryRun.Issued.revocable) (fun _ _ hs hgood => hs.call hgood)
    (fun _ _ hs hbad => hs.not_revocable hbad) RegistryRun.issued_start es

/-- A hook of the files that show a process its memory. -/
def mapsHook : HookParams noUserFilters where
  regPath := "/proc/.*/maps".toList
  ffactory := fun _ => ⟨.noneFileFilter, ()⟩

/-- The second registration of an expression returns the number of the first, so to
revoke it removes the hook. -/
theorem not_revocable_registered_twice : ¬ RegistryRun.Revocable
    ([.register mapsHook, .register mapsHook].foldl RegistryRun.call .start) := by
  have hfirst : RegistryRun.Issued (RegistryRun.start.call (.register mapsHook)) :=
    RegistryRun.issued_start.call (by decide : (0 : Nat) < 4294967296)
  show ¬ ((RegistryRun.start.call (.register mapsHook)).call (.register mapsHook)).Revocable
  refine hfirst.not_revocable fun hgood => ?_
  have hzero : (RegistryRun.start.call (.register mapsHook)).registry.hook 0 = none := hgood
  exact nomatch hzero

end HookLibc
