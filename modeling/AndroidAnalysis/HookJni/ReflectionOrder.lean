import AndroidAnalysis.HookJni.Overloads

/-!
# The order of the declared methods

`get_method_info` goes through the declared methods, and each method of an info's
name overwrites what the ones before it have left, native or not.  So what it
leaves does not depend on the order exactly when all methods of the name print
the same types.
-/

namespace HookJni

open Cpp Machine Utils

/-- A method that is declared `native`. -/
def Declared.IsNative (d : Declared) : Prop := "native".toList ∈ d.mods

instance (d : Declared) : Decidable d.IsNative := inferInstanceAs (Decidable (_ ∈ _))

/-! ## The loops -/

/-- A second round with a method changes nothing. -/
theorem NativeMethodInfo.round_round (info : NativeMethodInfo) (d : Declared) :
    (info.round d).round d = info.round d := by
  by_cases h : d.name = info.methodName
  · have htake : info.round d = info.withDeclared d := by rw [round, if_pos h]; rfl
    have hname : d.name = (info.withDeclared d).methodName := rfl
    rw [htake, round, if_pos hname]
    rfl
  · have hkeep : info.round d = info := by rw [round, if_neg h]; rfl
    rw [hkeep, hkeep]

section
variable {ptrs : List Nat} {infos : List NativeMethodInfo}

/-- The loop over the infos makes the round of a method at every pointer. -/
theorem run_updateAt (hptrs : ∀ ptr ∈ ptrs, ptr < infos.length) (d : Declared) :
    ∃ infos', run (updateAt d.pair) infos ptrs = .ok infos' ∧ infos'.length = infos.length ∧
      ∀ k, infos'[k]? = if k ∈ ptrs then infos[k]?.map (·.round d) else infos[k]? := by
  induction ptrs generalizing infos with
  | nil => exact ⟨infos, rfl, rfl, fun k => by rw [if_neg List.not_mem_nil]⟩
  | cons ptr ptrs ih =>
      obtain ⟨info, hinfo⟩ : ∃ info, infos[ptr]? = some info :=
        ⟨_, List.getElem?_eq_getElem (hptrs ptr List.mem_cons_self)⟩
      have hstep : updateAt d.pair infos ptr = .ok (infos.set ptr (info.round d)) := by
        rw [updateAt, hinfo]
        dsimp only
        rw [updateFromMethod_pair, ok_bind]
      obtain ⟨infos', hrun, hlen, hall⟩ := @ih (infos.set ptr (info.round d)) fun q hq => by
        rw [List.length_set]
        exact hptrs q (List.mem_cons_of_mem ptr hq)
      refine ⟨infos', run_cons_eq_ok.mpr ⟨_, hstep, hrun⟩, hlen.trans List.length_set, fun k => ?_⟩
      rw [hall]
      by_cases hk : ptr = k
      · subst hk
        rw [List.getElem?_set_self (hptrs ptr List.mem_cons_self), hinfo, if_pos List.mem_cons_self,
          Option.map_some, Option.map_some, info.round_round, ite_self]
      · rw [List.getElem?_set_ne hk]
        simp only [List.mem_cons, Ne.symm hk, false_or]

/-- The loop over the methods leaves at every pointer what the last method of its
name prints. -/
theorem run_getMethodInfo (hptrs : ∀ ptr ∈ ptrs, ptr < infos.length) (ds : List Declared) :
    ∃ infos', run (fun infos method => run (updateAt method) infos ptrs) infos
        (ds.map Declared.pair) = .ok infos' ∧
      ∀ k ∈ ptrs, infos'[k]? =
        infos[k]?.map fun info => info.updated (lastNamed ds info.methodName) := by
  induction ds generalizing infos with
  | nil =>
      refine ⟨infos, rfl, fun k _ => ?_⟩
      exact Option.map_id_apply.symm
  | cons d ds ih =>
      obtain ⟨infos', hround, hlen, hall⟩ := run_updateAt hptrs d
      obtain ⟨infos'', hrun, hlast⟩ := @ih infos' fun ptr hptr => hlen ▸ hptrs ptr hptr
      refine ⟨infos'', run_cons_eq_ok.mpr ⟨infos', hround, hrun⟩, fun k hk => ?_⟩
      rw [hlast k hk, hall, if_pos hk, Option.map_map]
      congr 1
      funext info
      exact info.updated_round d ds

/-- What `get_method_info` leaves of an info it is given. -/
theorem getMethodInfo_declares {refl : Reflection} {X : Str} {ds : List Declared}
    (h : Declares refl X ds) (hptrs : ∀ ptr ∈ ptrs, ptr < infos.length) {k : Nat} (hk : k ∈ ptrs)
    {info : NativeMethodInfo} (hinfo : infos[k]? = some info) :
    ∃ r, getMethodInfo refl X ptrs infos = .ok r ∧
      r[k]? = some (info.updated (lastNamed ds info.methodName)) := by
  obtain ⟨c, htarget, hds⟩ := h
  obtain ⟨r, hrun, hall⟩ := run_getMethodInfo hptrs ds
  refine ⟨r, ?_, ?_⟩
  · rw [getMethodInfo, htarget, ok_bind]
    dsimp only
    rw [hds, hrun]
  · rw [hall k hk, hinfo]
    rfl

end

/-! ## Orders -/

theorem lastNamed_concat (ds : List Declared) (d : Declared) :
    lastNamed (ds ++ [d]) d.name = some d := by
  rw [lastNamed, List.filter_append, List.filter_singleton, decide_eq_true rfl]
  exact List.getLast?_concat

/-- The last method of a name in some order of the methods. -/
theorem lastNamed_perm {ds ds' : List Declared} (hperm : ds'.Perm ds) {d : Declared} (hd : d ∈ ds) :
    ∃ e, lastNamed ds' d.name = some e ∧ e ∈ ds ∧ e.name = d.name := by
  obtain ⟨e, he⟩ := exists_lastNamed (hperm.mem_iff.mpr hd)
  obtain ⟨hmem, hname⟩ := lastNamed_some he
  exact ⟨e, he, hperm.mem_iff.mp hmem, hname⟩

/-- In whatever two orders the methods `ds` of the class `X` are listed,
`get_method_info` leaves the same in the `k`-th info, with the types of `d`. -/
def SameInEveryOrder (X : Str) (ds : List Declared) (ptrs : List Nat)
    (infos : List NativeMethodInfo) (k : Nat) (d : Declared) : Prop :=
  ∀ ds₁ ds₂, ds₁.Perm ds → ds₂.Perm ds → ∀ refl₁ refl₂, Declares refl₁ X ds₁ →
    Declares refl₂ X ds₂ → ∃ r₁ r₂ info', getMethodInfo refl₁ X ptrs infos = .ok r₁ ∧
      getMethodInfo refl₂ X ptrs infos = .ok r₂ ∧ r₁[k]? = some info' ∧ r₂[k]? = some info' ∧
      info'.argsType = d.method.descriptors ∧ info'.retType = retDescriptor d.method.ret

/-- For a class with one native method of a name, `get_method_info` leaves the
types of the native in every order of the methods, exactly when every method of
the name that the class declares has these types. -/
theorem sameInEveryOrder_iff {X n : Str} {ds : List Declared}
    (hcls : ∀ e ∈ ds, e.method.className.chars = X) {d : Declared}
    (hnative : ds.filter (fun e => e.name = n ∧ e.IsNative) = [d]) {ptrs : List Nat}
    {infos : List NativeMethodInfo} (hptrs : ∀ ptr ∈ ptrs, ptr < infos.length) {k : Nat}
    (hk : k ∈ ptrs) {info : NativeMethodInfo} (hinfo : infos[k]? = some info)
    (hname : info.methodName = n) :
    SameInEveryOrder X ds ptrs infos k d ↔ ∀ e ∈ ds, e.name = n →
      e.method.descriptors = d.method.descriptors ∧
        retDescriptor e.method.ret = retDescriptor d.method.ret := by
  have hd := List.mem_filter.mp (hnative ▸ List.mem_singleton_self d)
  obtain ⟨hdname, -⟩ := of_decide_eq_true hd.2
  subst hdname
  constructor
  · intro hsame e he hen
    -- The method `e` is listed last.
    obtain ⟨before, behind, hcut⟩ := List.append_of_mem he
    have hperm : ((before ++ behind) ++ [e]).Perm ds := by
      rw [hcut]
      exact (List.perm_append_singleton e _).trans List.perm_middle.symm
    obtain ⟨r, r', info', hr, -, hinfo', -, hargs, hret⟩ :=
      hsame _ _ hperm hperm _ _ (declares_listing X _) (declares_listing X _)
    obtain ⟨r'', hr'', hinfo''⟩ := getMethodInfo_declares (declares_listing X _) hptrs hk hinfo
    rw [hr, Except.ok.injEq] at hr''
    subst hr''
    rw [hinfo', Option.some_inj, hname, ← hen, lastNamed_concat] at hinfo''
    subst hinfo''
    exact ⟨hargs, hret⟩
  · intro hall ds₁ ds₂ hperm₁ hperm₂ refl₁ refl₂ hds₁ hds₂
    obtain ⟨r₁, hr₁, hinfo₁⟩ := getMethodInfo_declares hds₁ hptrs hk hinfo
    obtain ⟨r₂, hr₂, hinfo₂⟩ := getMethodInfo_declares hds₂ hptrs hk hinfo
    obtain ⟨e₁, hlast₁, hmem₁, hname₁⟩ := lastNamed_perm hperm₁ hd.1
    obtain ⟨e₂, hlast₂, hmem₂, hname₂⟩ := lastNamed_perm hperm₂ hd.1
    obtain ⟨hargs₁, hret₁⟩ := hall e₁ hmem₁ hname₁
    obtain ⟨hargs₂, hret₂⟩ := hall e₂ hmem₂ hname₂
    rw [hname, hlast₁] at hinfo₁
    rw [hname, hlast₂] at hinfo₂
    have heq : info.withDeclared e₂ = info.withDeclared e₁ := by
      simp only [NativeMethodInfo.withDeclared, hcls e₁ hmem₁, hcls e₂ hmem₂, hname₁, hname₂, hargs₁,
        hargs₂, hret₁, hret₂]
    exact ⟨r₁, r₂, info.withDeclared e₁, hr₁, hr₂, hinfo₁, hinfo₂.trans (congrArg some heq), hargs₁,
      hret₁⟩

/-! ## A native and an overload of it -/

/-- The method `void a.f(p)` in Java code. -/
def plainF (p : Prim) : Declared := { nativeF p with mods := [], plain := by decide }

/-- The info of the short name of `a.f`. -/
def infoF : NativeMethodInfo :=
  { className := ['a'], methodName := ['f'], addr := 0, originCall := 0 }

/-- The native `a.f(int)` and the method `a.f(double)`, listed in two orders. -/
theorem not_sameInEveryOrder :
    [nativeF .int, plainF .double].filter (fun e => e.name = ['f'] ∧ e.IsNative) = [nativeF .int] ∧
      (getMethodInfo (listing ['a'] [plainF .double, nativeF .int]) ['a'] [0] [infoF]).map
        (·.map NativeMethodInfo.argsType) = .ok [[['I']]] ∧
      (getMethodInfo (listing ['a'] [nativeF .int, plainF .double]) ['a'] [0] [infoF]).map
        (·.map NativeMethodInfo.argsType) = .ok [[['D']]] ∧
      ¬ SameInEveryOrder ['a'] [nativeF .int, plainF .double] [0] [infoF] 0 (nativeF .int) := by
  refine ⟨rfl, rfl, rfl, fun hsame => ?_⟩
  obtain ⟨r₁, r₂, info', hr₁, -, hinfo', -, hargs, -⟩ := hsame _ _ (List.Perm.refl _)
    (List.Perm.refl _) _ _ (declares_listing _ _) (declares_listing _ _)
  cases hr₁
  cases hinfo'
  exact absurd hargs (by decide)

/-- The method `void a.g(p)` in Java code. -/
def plainG (p : Prim) : Declared :=
  { plainF p with
    method := { (plainF p).method with methodName := ⟨['g'], by decide, by decide⟩ } }

/-- The native `a.f(int)` and a method of another name, `a.g(double)`. -/
theorem sameInEveryOrder_beside :
    SameInEveryOrder ['a'] [nativeF .int, plainG .double] [0] [infoF] 0 (nativeF .int) := by
  have hmem (e : Declared) (he : e ∈ [nativeF .int, plainG .double]) :
      e = nativeF .int ∨ e = plainG .double := by
    rcases List.mem_cons.mp he with rfl | he
    · exact .inl rfl
    · exact .inr (List.mem_singleton.mp he)
  refine (sameInEveryOrder_iff (X := ['a']) (n := ['f']) (k := 0) (fun e he => ?_) rfl
    (fun ptr hptr => ?_) (List.mem_singleton_self 0) rfl rfl).mpr fun e he hname => ?_
  · rcases hmem e he with rfl | rfl
    · rfl
    · rfl
  · rw [List.mem_singleton.mp hptr]
    exact Nat.zero_lt_one
  · rcases hmem e he with rfl | rfl
    · exact ⟨rfl, rfl⟩
    · exact absurd hname (by decide)

end HookJni
