import AndroidAnalysis.Interposition.Chains

/-!
# Hooks with one record for many slots

A hook may be put into many slots, and has one record for all of them.  It is put into
a slot where it is not there yet, and saves what it finds there.

Where the hooks of a slot are put there in one order, what a record holds is code or a
hook that comes before its own (`Recorded`), so every slot still leads to code.
`hookAll_led` keeps this over a round of hooks on slots that held code.
-/

namespace Interposition

variable {F S R : Type*}

/-- The pointer is to this hook. -/
def Ptr.isHook [DecidableEq R] (r : R) : Ptr F R → Bool
  | .code _ => false
  | .hook r' => r' == r

theorem Ptr.isHook_iff [DecidableEq R] {r : R} {p : Ptr F R} :
    p.isHook r = true ↔ p = .hook r := by
  cases p with
  | code f => exact iff_of_false Bool.false_ne_true (fun h => by cases h)
  | hook r' =>
      rw [Ptr.isHook, beq_iff_eq]
      exact ⟨congrArg _, fun h => by cases h; rfl⟩

/-! ## Pointers that lead to code -/

section
variable (pos : R → Nat) (origin : R → F)

/-- The pointer is to this code, or to a hook before a place that stands for it. -/
def Below (done : R → Prop) (n : Nat) (f : F) (p : Ptr F R) : Prop :=
  p = .code f ∨ ∃ r, done r ∧ pos r < n ∧ origin r = f ∧ p = .hook r

/-- The records of these hooks hold the code that their hook stands for, or a hook that
comes before it. -/
def Recorded (done : R → Prop) (saved : R → Option (Ptr F R)) : Prop :=
  ∀ r, done r → ∃ p, saved r = some p ∧ Below pos origin done (pos r) (origin r) p

/-- The pointer is to this code, or to a hook that stands for it. -/
def Led (done : R → Prop) (f : F) (p : Ptr F R) : Prop :=
  p = .code f ∨ ∃ r, done r ∧ origin r = f ∧ p = .hook r

variable {pos origin} {done done' : R → Prop} {n k : Nat} {f : F} {p : Ptr F R}

theorem Below.mono (h : Below pos origin done n f p) (hdone : ∀ r, done r → done' r)
    (hle : n ≤ k) : Below pos origin done' k f p :=
  h.imp_right fun ⟨r, hr, hn, hf, hp⟩ => ⟨r, hdone r hr, Nat.lt_of_lt_of_le hn hle, hf, hp⟩

/-- Such a pointer leads to the code. -/
theorem Below.reaches {saved : R → Option (Ptr F R)} (hrec : Recorded pos origin done saved)
    (h : Below pos origin done n f p) : Reaches saved p f := by
  induction n generalizing f p with
  | zero =>
      rcases h with rfl | ⟨r, -, hlt, -⟩
      · exact .code f
      · exact absurd hlt (Nat.not_lt_zero _)
  | succ n ih =>
      rcases h with rfl | ⟨r, hr, hlt, rfl, rfl⟩
      · exact .code f
      · obtain ⟨q, hq, hbelow⟩ := hrec r hr
        exact .hook hq (ih (hbelow.mono (fun _ h => h) (Nat.le_of_lt_succ hlt)))

theorem Led.mono (h : Led origin done f p) (hdone : ∀ r, done r → done' r) :
    Led origin done' f p :=
  h.imp_right fun ⟨r, hr, hf, hp⟩ => ⟨r, hdone r hr, hf, hp⟩

theorem Led.reaches {saved : R → Option (Ptr F R)} (hrec : Recorded pos origin done saved)
    (h : Led origin done f p) : Reaches saved p f := by
  rcases h with rfl | ⟨r, hr, rfl, rfl⟩
  · exact .code f
  · obtain ⟨q, hq, hbelow⟩ := hrec r hr
    exact .hook hq (hbelow.reaches hrec)

theorem Below.led (h : Below pos origin done n f p) : Led origin done f p :=
  h.imp_right fun ⟨r, hr, _, hf, hp⟩ => ⟨r, hr, hf, hp⟩

end

section
variable [DecidableEq S] [DecidableEq R]

/-- A hook is put into a slot where it is not there yet. -/
def put (r : R) (st : State F S R) (s : S) : State F S R :=
  if (st.slots s).isHook r then st else install st (s, r)

/-- A hook is put into slots. -/
def putAll (r : R) (slots : List S) (st : State F S R) : State F S R := slots.foldl (put r) st

/-- A round of hooks, each with its slots. -/
def hookAll (hooks : List (R × List S)) (st : State F S R) : State F S R :=
  hooks.foldl (fun st h => putAll h.1 h.2 st) st

/-! ## What a round changes -/

variable {r : R} {st : State F S R}

theorem slots_put (r : R) (st : State F S R) (s t : S) :
    (put r st s).slots t = if t = s then .hook r else st.slots t := by
  rw [put]
  split
  next h =>
    split
    next heq => rw [heq, Ptr.isHook_iff.mp h]
    next => rfl
  next =>
    split
    next heq => rw [heq]; exact Function.update_self _ _ _
    next hne => exact Function.update_of_ne hne _ _

theorem slots_putAll (r : R) (slots : List S) (st : State F S R) (t : S) :
    (putAll r slots st).slots t = if t ∈ slots then .hook r else st.slots t := by
  induction slots generalizing st with
  | nil => rw [if_neg List.not_mem_nil]; rfl
  | cons s slots ih =>
      rw [putAll, List.foldl_cons, ← putAll, ih, slots_put]
      by_cases hmem : t ∈ slots
      · rw [if_pos hmem, if_pos (List.mem_cons_of_mem _ hmem)]
      · rw [if_neg hmem]
        by_cases heq : t = s
        · rw [if_pos heq, if_pos (List.mem_cons.mpr (.inl heq))]
        · rw [if_neg heq, if_neg fun h => (List.mem_cons.mp h).elim heq hmem]

/-! ## One round on slots that hold code -/

variable {pos : R → Nat} {origin : R → F} {done : R → Prop} {n : Nat}

/-- A hook saves what comes before it. -/
theorem put_recorded (hinj : ∀ q, pos q = pos r → q = r)
    (hrec : Recorded pos origin done st.saved) {s : S}
    (hs : Below pos origin done (pos r + 1) (origin r) (st.slots s)) :
    Recorded pos origin (fun q => done q ∨ q = r) (put r st s).saved := by
  have hmono : ∀ q, done q → done q ∨ q = r := fun _ => .inl
  rw [put]
  split
  next hsame =>
    have hr : done r := by
      rw [Ptr.isHook_iff.mp hsame] at hs
      rcases hs with hcode | ⟨q, hq, -, -, heq⟩
      · cases hcode
      · cases heq; exact hq
    intro q hq
    obtain ⟨p, hp, hbelow⟩ := hrec q (hq.elim id fun heq => heq ▸ hr)
    exact ⟨p, hp, hbelow.mono hmono (Nat.le_refl _)⟩
  next hother =>
    have hbelow : Below pos origin done (pos r) (origin r) (st.slots s) := by
      refine hs.imp_right fun ⟨q, hq, hlt, hf, hp⟩ => ⟨q, hq, ?_, hf, hp⟩
      refine Nat.lt_of_le_of_ne (Nat.le_of_lt_succ hlt) fun heq => hother ?_
      rw [hp, Ptr.isHook_iff, hinj q heq]
    intro q hq
    by_cases heq : q = r
    · subst heq
      exact ⟨_, Function.update_self _ _ _, hbelow.mono hmono (Nat.le_refl _)⟩
    · obtain ⟨p, hp, hb⟩ := hrec q (hq.resolve_right heq)
      exact ⟨p, (Function.update_of_ne heq _ _).trans hp, hb.mono hmono (Nat.le_refl _)⟩

/-- So it does in all its slots. -/
theorem putAll_recorded (hinj : ∀ q, pos q = pos r → q = r) {slots : List S}
    (hrec : Recorded pos origin done st.saved)
    (hs : ∀ s ∈ slots, Below pos origin done (pos r + 1) (origin r) (st.slots s)) :
    ∃ done' : R → Prop, (∀ q, done q → done' q) ∧ (∀ s ∈ slots, done' r) ∧
      Recorded pos origin done' (putAll r slots st).saved := by
  induction slots generalizing done st with
  | nil => exact ⟨done, fun _ h => h, fun _ h => absurd h List.not_mem_nil, hrec⟩
  | cons s slots ih =>
      have hput : ∀ t ∈ slots, Below pos origin (fun q => done q ∨ q = r) (pos r + 1) (origin r)
          ((put r st s).slots t) := by
        intro t ht
        rw [slots_put]
        split
        next => exact .inr ⟨r, .inr rfl, Nat.lt_succ_self _, rfl, rfl⟩
        next => exact (hs t (List.mem_cons_of_mem _ ht)).mono (fun _ => .inl) (Nat.le_refl _)
      obtain ⟨done', hsub, -, hrec'⟩ := ih (put_recorded hinj hrec (hs s List.mem_cons_self)) hput
      exact ⟨done', fun q hq => hsub q (.inl hq), fun _ _ => hsub r (.inr rfl), hrec'⟩

/-- A round of hooks in their order keeps the records, and takes slots that held their
code to slots that lead there. -/
theorem hookAll_led {org : S → F} {L : S → Prop} {hooks : List (R × List S)}
    (hinj : ∀ h ∈ hooks, ∀ q, pos q = pos h.1 → q = h.1)
    (horder : hooks.Pairwise fun a b => pos a.1 < pos b.1)
    (hslots : ∀ h ∈ hooks, ∀ s ∈ h.2, L s ∧ org s = origin h.1)
    (hn : ∀ h ∈ hooks, n ≤ pos h.1) (hrec : Recorded pos origin done st.saved)
    (hL : ∀ s, L s → Below pos origin done n (org s) (st.slots s)) :
    ∃ done' : R → Prop, (∀ q, done q → done' q) ∧
      Recorded pos origin done' (hookAll hooks st).saved ∧
      ∀ s, L s → Led origin done' (org s) ((hookAll hooks st).slots s) := by
  induction hooks generalizing done st n with
  | nil => exact ⟨done, fun _ h => h, hrec, fun s hs => (hL s hs).led⟩
  | cons h hooks ih =>
      obtain ⟨horder, hrest⟩ := List.pairwise_cons.mp horder
      have hpos := hn h List.mem_cons_self
      have hself := hslots h List.mem_cons_self
      have hown : ∀ s ∈ h.2, Below pos origin done (pos h.1 + 1) (origin h.1) (st.slots s) := by
        intro s hs
        rw [← (hself s hs).2]
        exact (hL s (hself s hs).1).mono (fun _ h => h) (Nat.le_succ_of_le hpos)
      obtain ⟨done', hsub, hdone, hrec'⟩ :=
        putAll_recorded (hinj h List.mem_cons_self) hrec hown
      have hnext : ∀ s, L s →
          Below pos origin done' (pos h.1 + 1) (org s) ((putAll h.1 h.2 st).slots s) := by
        intro s hs
        rw [slots_putAll]
        split
        next hmem => exact .inr ⟨h.1, hdone s hmem, Nat.lt_succ_self _, (hself s hmem).2.symm, rfl⟩
        next => exact (hL s hs).mono hsub (Nat.le_succ_of_le hpos)
      obtain ⟨done'', hsub', hrec'', hled⟩ := ih
        (fun h' hh' => hinj h' (List.mem_cons_of_mem _ hh')) hrest
        (fun h' hh' => hslots h' (List.mem_cons_of_mem _ hh')) horder hrec' hnext
      exact ⟨done'', fun q hq => hsub' q (hsub q hq), hrec'', hled⟩

end

end Interposition
