import AndroidAnalysis.Cpp.Int
import AndroidAnalysis.HookJni.JniCall
import AndroidAnalysis.HookJni.JniNativeHook
import AndroidAnalysis.Machine.Aapcs32

/-!
# The stack words of a native call

`hook_native_func` does not look at the types of the parameters when it says how
many stack words `route_jni_func` is to copy.  It counts the parameters with the
environment and the class, less the registers.

On arm64 each argument has a doubleword, and the two register files can only
hold more than one of them does, so the count is enough (`nativeStackArgs_covers`).
On 32-bit ARM a `long` and a `double` have two words, and the count is too small
by what they take: `nativeStackArgs32_covers_iff`.
-/

namespace HookJni

open Cpp Utils Machine

/-! ## The counts -/

/-- The stack words the 32-bit `hook_native_func` forwards:
`size() + 2 >= 4 ? size() - 4 + 2 : 0`. -/
def nativeStackArgs32 (args : Nat) : Int := if args + 2 ≥ 4 then (args : Int) - 4 + 2 else 0

/-- The expression of both builds, with its arithmetic in `size_t`. -/
def stackArgsSize (b : Build) (regs args : Nat) : Nat :=
  if asSize b (args + 2) ≥ regs then asSize b (asSize b (args - regs) + 2) else 0

/-- The subtraction may wrap around, and the addition behind it wraps back. -/
theorem stackArgsSize_eq {b : Build} {regs args : Nat} (hregs : 2 ≤ regs)
    (h : args + 2 < b.words) : (stackArgsSize b regs args : Int) =
      if args + 2 ≥ regs then (args : Int) - regs + 2 else 0 := by
  have hsum : (asSize b (args + 2) : Int) = args + 2 := asSize_of_lt (by omega) (by omega)
  rw [stackArgsSize]
  split
  next hge =>
    have hdiff : asSize b (asSize b (args - regs) + 2) = asSize b (args - regs + 2) := by
      have hwords : (b.words : Int) ≠ 0 := by cases b <;> decide
      have hnonneg := Int.emod_nonneg ((args : Int) - regs) hwords
      rw [asSize, asSize, asSize, Int.toNat_of_nonneg hnonneg, Int.emod_add_emod]
    rw [if_pos (by omega), hdiff, asSize_of_lt (by omega) (by omega)]
  next hlt => rw [if_neg (by omega)]; rfl

/-! ## arm64 -/

section
variable {N : Type} (params : List (JavaType N))

/-- What `hook_native_func` passes is counted from the parameters it knows. -/
theorem hookNativeFunc_argc {refl : Reflection} {fakeEnv : BitVec 64} {info : NativeMethodInfo}
    {h : HookArgs} {out : NativeMethodInfo × Traced × RouteFunc.RouteCall}
    (hrun : hookNativeFunc refl fakeEnv info h = .ok out) :
    out.2.2.argc = nativeStackArgs out.1.argsType.length := by
  rw [hookNativeFunc] at hrun
  obtain ⟨info', -, hrun⟩ := bind_eq_ok.mp hrun
  obtain ⟨printed, -, hrun⟩ := bind_eq_ok.mp hrun
  cases hrun
  rfl

/-- One register file overflows no later than two. -/
theorem stackWords_nativeCall_le :
    (Aapcs64.stackWords (nativeCall params) : Int) ≤ nativeStackArgs params.length := by
  have hsum := Aapcs64.count_int_add_count_fp (nativeCall params)
  have htwo : 2 ≤ (nativeCall params).count .int := by
    rw [nativeCall, List.count_cons_self, List.count_cons_self]
    omega
  have hlen : (nativeCall params).length = params.length + 2 := by
    rw [nativeCall, List.length_cons, List.length_cons, List.length_map]
  rw [Aapcs64.stackWords_eq, nativeStackArgs]
  split <;> omega

end

/-- `hook_native_func` forwards enough stack words: those that the call has, and
with them every parameter on the stack. -/
theorem nativeStackArgs_covers {N : Type} (params : List (JavaType N)) :
    (Aapcs64.stackWords (nativeCall params) : Int) ≤ nativeStackArgs params.length ∧
    (∀ i k : Nat, (Aapcs64.allocate (nativeCall params))[i]? = some (Aapcs64.Loc.stack k) →
      (k : Int) < nativeStackArgs params.length) ∧
    (params.length + 2 < Build.arm64.words →
      (stackArgsSize .arm64 8 params.length : Int) = nativeStackArgs params.length) ∧
    ∀ (slash : N → Str) (refl : Reflection) (fakeEnv : BitVec 64) (info : NativeMethodInfo)
      (h : HookArgs) (out : NativeMethodInfo × Traced × RouteFunc.RouteCall),
      hookNativeFunc refl fakeEnv info h = .ok out →
        out.1.argsType = params.map (JavaType.descriptor slash) →
          out.2.2.argc = nativeStackArgs params.length := by
  refine ⟨stackWords_nativeCall_le params, fun i k hk => ?_, fun hlen => ?_, ?_⟩
  · have hlt := Aapcs64.lt_stackWords hk
    have hle := stackWords_nativeCall_le params
    omega
  · exact stackArgsSize_eq (by decide) hlen
  · intro slash refl fakeEnv info h out hrun hargs
    rw [hookNativeFunc_argc hrun, hargs, List.length_map]

/-- The parameters of a method of seven `int`s. -/
def sevenInts : List (JavaType ClassName) := List.replicate 7 ⟨0, .prim .int⟩

/-- Its info. -/
def sevenIntsInfo : NativeMethodInfo where
  argsType := sevenInts.map (JavaType.descriptor ClassName.slash)
  available := true
  addr := 0
  originCall := 0

/-- Reflection that finds nothing. -/
def noReflection : Reflection := ⟨id, fun _ => [], fun _ => none, fun _ => none, fun _ => []⟩

/-- The last of the seven is on the stack, and one word is forwarded. -/
theorem nativeStackArgs_covers_seven : ∃ out,
    hookNativeFunc noReflection 0 sevenIntsInfo numbered = .ok out ∧ out.2.2.argc = 1 ∧
      Aapcs64.stackWords (nativeCall sevenInts) = 1 ∧ (stackArgsSize .arm64 8 7 : Int) = 1 := by
  obtain ⟨-, -, hsize, hargc⟩ := nativeStackArgs_covers sevenInts
  have hrun : ∃ out, hookNativeFunc noReflection 0 sevenIntsInfo numbered = .ok out ∧
      out.1.argsType = sevenInts.map (JavaType.descriptor ClassName.slash) := ⟨_, rfl, rfl⟩
  obtain ⟨out, hrun, hargs⟩ := hrun
  exact ⟨out, hrun, hargc ClassName.slash noReflection 0 sevenIntsInfo numbered out hrun hargs,
    by decide, hsize (by decide)⟩

/-! ## 32-bit ARM -/

section
variable {N : Type}

/-- The size of a type: two words for a `long` and a `double`. -/
def JavaType.argSize (t : JavaType N) : Aapcs32.ArgSize :=
  match t with
  | ⟨0, .prim .long⟩ | ⟨0, .prim .double⟩ => .double
  | _ => .word

/-- The arguments of a native method's call. -/
def nativeCall32 (params : List (JavaType N)) : List Aapcs32.ArgSize :=
  .word :: .word :: params.map JavaType.argSize

/-- Single words take the registers that are left and then the stack. -/
theorem stackWords_nativeCall32 {params : List (JavaType N)}
    (h : ∀ t ∈ params, t.argSize = .word) :
    Aapcs32.stackWords (nativeCall32 params) = params.length - 2 := by
  have hwords : ∀ a ∈ params.map JavaType.argSize, a = .word := by
    intro a ha
    obtain ⟨t, ht, rfl⟩ := List.mem_map.mp ha
    exact h t ht
  show (Aapcs32.Counters.run { ncrn := 2 } (params.map JavaType.argSize)).nsaa = _
  rw [Aapcs32.run_word (by decide) (Or.inl rfl) hwords, List.length_map]
  simp only [Aapcs32.Counters.used]
  omega

/-- With two parameters or more, one of two words takes a word that is not counted. -/
theorem lt_stackWords_nativeCall32 {params : List (JavaType N)} {t : JavaType N} (ht : t ∈ params)
    (hdouble : t.argSize = .double) :
    params.length - 2 < Aapcs32.stackWords (nativeCall32 params) ∨ params.length ≤ 1 := by
  have hmem : .double ∈ params.map JavaType.argSize := List.mem_map.mpr ⟨t, ht, hdouble⟩
  have hwords := Aapcs32.length_lt_words hmem
  obtain ⟨hused, hncrn⟩ :=
    Aapcs32.used_run (c := { ncrn := 2 }) (by decide) (params.map JavaType.argSize)
  rw [List.length_map] at hwords
  simp only [Aapcs32.Counters.used] at hused
  have hstack : Aapcs32.stackWords (nativeCall32 params) =
    (Aapcs32.Counters.run { ncrn := 2 } (params.map JavaType.argSize)).nsaa := rfl
  rw [hstack]
  omega

end

/-- The 32-bit `hook_native_func` forwards enough stack words exactly where there
is no `long` or `double`, or no other parameter, and its count is the one in `size_t`. -/
theorem nativeStackArgs32_covers_iff {N : Type} (params : List (JavaType N)) :
    ((Aapcs32.stackWords (nativeCall32 params) : Int) ≤ nativeStackArgs32 params.length ↔
      (∀ t ∈ params, t.argSize = .word) ∨ params.length ≤ 1) ∧
    (params.length + 2 < Build.arm32.words →
      (stackArgsSize .arm32 4 params.length : Int) = nativeStackArgs32 params.length) := by
  refine ⟨?_, fun hlen => stackArgsSize_eq (by decide) hlen⟩
  constructor
  · intro hle
    by_contra hnot
    rw [not_or] at hnot
    obtain ⟨hnotWord, hlen⟩ := hnot
    refine hnotWord fun t ht => ?_
    cases hsize : t.argSize with
    | word => rfl
    | double =>
        rcases lt_stackWords_nativeCall32 ht hsize with hlt | hshort
        · rw [nativeStackArgs32] at hle
          split at hle <;> omega
        · exact absurd hshort hlen
  · rintro (hwords | hlen)
    · rw [stackWords_nativeCall32 hwords, nativeStackArgs32]
      split <;> omega
    · -- The registers left hold any one parameter.
      have hzero : Aapcs32.stackWords (nativeCall32 params) = 0 := by
        match params, hlen with
        | [], _ => rfl
        | [t], _ =>
            rw [nativeCall32, List.map_cons, List.map_nil]
            cases t.argSize <;> rfl
      rw [hzero, nativeStackArgs32]
      split <;> omega

/-- A `long` and nothing else takes no word of the stack. -/
theorem nativeStackArgs32_covers_long :
    (Aapcs32.stackWords (nativeCall32 [(⟨0, .prim .long⟩ : JavaType ClassName)]) : Int) ≤
        nativeStackArgs32 1 ∧ (stackArgsSize .arm32 4 1 : Int) = nativeStackArgs32 1 := by
  obtain ⟨hcovers, hsize⟩ :=
    nativeStackArgs32_covers_iff [(⟨0, .prim .long⟩ : JavaType ClassName)]
  exact ⟨hcovers.mpr (.inr (by decide)), hsize (by decide)⟩

/-- A native method with the parameters `(long, long)` is called with the second
one on the stack, and no stack word is forwarded. -/
theorem nativeStackArgs32_long_long :
    let params : List (JavaType ClassName) := [⟨0, .prim .long⟩, ⟨0, .prim .long⟩]
    ¬ (Aapcs32.stackWords (nativeCall32 params) : Int) ≤ nativeStackArgs32 params.length := by
  decide

end HookJni
