import AndroidAnalysis.HookJni.NativeArgs
import AndroidAnalysis.Machine.VaListMemory

/-!
# The walk over a caller's `va_list`

`printf_java_func_args_end_with_array` copies the 32 bytes of the `va_list` that it was
given into `va_buf` and takes the arguments from the copy.  The definitions here keep
the memory that `PrintfArgsHelper` leaves out, and trace the same
(`printfJavaFuncArgsEndWithArray_vaBuf`).

The walk goes over two regions, the saved registers and the stack, and the crossover
is where the registers of the caller end.  An argument is found by its number
alone (`getElem?_vaArgLoop_advance`), and the `va_list` that the virtual machine gets
afterwards is as it was (`printfVaList_ok`).
-/

namespace HookJni

open Cpp Machine

/-! ## The function on memory -/

namespace VaBuf

section

-- `logged` is what formatting a value and printing it does to memory.
variable (logged : Str → BitVec 64 → Mem → Mem) (vaBuf : Nat)

/-- The loop over the types. -/
def walk : List Str → Mem → Traced × Mem
  | [], m => ([], m)
  | t :: ts, m =>
      let (value, m) := vaArgAt m vaBuf (readSize t)
      let rest := walk ts (logged t value m)
      ((t, value) :: rest.1, rest.2)

/-- `printf_java_func_args_end_with_array`, with its `va_buf` at an address. -/
def printfJavaFuncArgsEndWithArray (h : HookArgs) (offset : BitVec 64) (argsType : List Str) :
    Except Fault (Traced × Mem) :=
  if argsType.length = 0 then .ok ([], h.mem)
  else do
    let pva ← getArgs 8 (offset.setWidth 32).toInt h
    .ok (walk logged vaBuf argsType (memcpy h.mem vaBuf (bytesAt h.mem pva.toNat 0x20)))

end

end VaBuf

/-! ## The arguments by their numbers -/

theorem readSize_cases (t : Str) : readSize t = 4 ∨ readSize t = 8 :=
  (readSizeOn_cases .arm64 t).symm

/-- A general argument read at the size of its type. -/
theorem setWidth_readBytes_argAddr (m : Mem) (ap : VaList) (i : Nat) (t : Str) :
    (readBytes m (ap.argAddr i) (readSize t)).setWidth 64 = cut (readSize t) (ap.arg m i) := by
  rw [cut, VaList.arg, read64, readBytes_setWidth m _ (readSize_le t)]

/-- The loop takes the general arguments in order. -/
theorem getElem?_vaArgLoop_advance {ap : VaList} (hwf : ap.Wf) (m : Mem) (ts : List Str)
    (i k : Nat) : (vaArgLoop m ts (ap.advance i))[k]? =
      ts[k]?.map fun t => (t, cut (readSize t) (ap.arg m (i + k))) := by
  induction ts generalizing i k with
  | nil => rfl
  | cons t ts ih =>
      rw [vaArgLoop, vaArg_advance hwf (readSize_cases t) m, setWidth_readBytes_argAddr]
      cases k with
      | zero => rfl
      | succ k =>
          rw [List.getElem?_cons_succ, List.getElem?_cons_succ, ih, Nat.add_right_comm]
          rfl

theorem length_vaArgLoop (m : Mem) (ts : List Str) (ap : VaList) :
    (vaArgLoop m ts ap).length = ts.length := by
  induction ts generalizing ap with
  | nil => rfl
  | cons t ts ih => exact congrArg (· + 1) (ih _)

/-! ## The bytes of the caller -/

/-- A byte of the `va_list` at `pva` or of one of its first `n` general arguments. -/
def CallerByte (m : Mem) (pva n b : Nat) : Prop :=
  (pva ≤ b ∧ b < pva + 0x20) ∨
    ∃ i < n, (readVaList m pva).argAddr i ≤ b ∧ b < (readVaList m pva).argAddr i + 8

/-- A byte of `va_buf`. -/
def VaBufByte (vaBuf b : Nat) : Prop := vaBuf ≤ b ∧ b < vaBuf + 0x20

/-- A `va_list` of the calling convention at `pva`, with `n` general arguments that lie in
the address space. -/
structure CallerVaList (m : Mem) (pva n : Nat) : Prop where
  wf : (readVaList m pva).Wf
  stack_lt : ((readVaList m pva).advance n).stack < 2 ^ 64

/-! ## The walk -/

section
variable {logged : Str → BitVec 64 → Mem → Mem} {m₀ : Mem} {pva n vaBuf : Nat}
  (hva : CallerVaList m₀ pva n)
  (hout : ∀ b, CallerByte m₀ pva n b → ¬VaBufByte vaBuf b)
  (hlogged : ∀ t value m,
    Mem.AgreeOn (fun b => CallerByte m₀ pva n b ∨ VaBufByte vaBuf b) m (logged t value m))

include hout

/-- An argument of the caller is on one side of `va_buf`. -/
theorem argAddr_vaBuf {i : Nat} (hi : i < n) : (readVaList m₀ pva).argAddr i + 8 ≤ vaBuf ∨
    vaBuf + 0x20 ≤ (readVaList m₀ pva).argAddr i := by
  have hbyte (b : Nat) (hlo : (readVaList m₀ pva).argAddr i ≤ b)
      (hhi : b < (readVaList m₀ pva).argAddr i + 8) : ¬(vaBuf ≤ b ∧ b < vaBuf + 0x20) :=
    hout b (.inr ⟨i, hi, hlo, hhi⟩)
  have hfirst := hbyte ((readVaList m₀ pva).argAddr i)
  have hbuf := hbyte vaBuf
  omega

/-- One `va_arg` of the loop: the next argument of the caller, whose bytes stay. -/
theorem vaArgAt_walk (hva : CallerVaList m₀ pva n) {m : Mem} {i : Nat} (hi : i < n)
    (hm : Mem.AgreeOn (CallerByte m₀ pva n) m₀ m)
    (hfields : readVaList m vaBuf = (readVaList m₀ pva).advance i) (t : Str) :
    (vaArgAt m vaBuf (readSize t)).1 =
        (vaArg m₀ (readSize t) ((readVaList m₀ pva).advance i)).1 ∧
      readVaList (vaArgAt m vaBuf (readSize t)).2 vaBuf = (readVaList m₀ pva).advance (i + 1) ∧
      Mem.AgreeOn (CallerByte m₀ pva n) m₀ (vaArgAt m vaBuf (readSize t)).2 := by
  have hstack : ((readVaList m₀ pva).advance (i + 1)).stack < 2 ^ 64 := by
    have hn := hva.stack_lt
    rw [VaList.advance_stack] at hn ⊢
    omega
  obtain ⟨hvalue, hnext⟩ :=
    vaArgAt_advance hva.wf (readSize_cases t) hfields (argAddr_vaBuf hout hi) hstack
  have hread : readBytes m ((readVaList m₀ pva).argAddr i) (readSize t) =
      readBytes m₀ ((readVaList m₀ pva).argAddr i) (readSize t) :=
    hm.readBytes fun b hlo hhi =>
      .inr ⟨i, hi, hlo, Nat.lt_of_lt_of_le hhi (Nat.add_le_add_left (readSize_le t) _)⟩
  refine ⟨?_, hnext, hm.trans (vaArgAt_agreeOn m _ fun b hb => ?_)⟩
  · rw [hvalue, hread, vaArg_advance hva.wf (readSize_cases t) m₀]
  · have hnot : ¬(vaBuf ≤ b ∧ b < vaBuf + 0x20) := hout b hb
    omega

include hva hlogged

/-- The loop traces what the loop without the memory traces, and the bytes of the caller
stay. -/
theorem walk_eq {ts : List Str} {m : Mem} {i : Nat} (hlen : i + ts.length = n)
    (hm : Mem.AgreeOn (CallerByte m₀ pva n) m₀ m)
    (hfields : readVaList m vaBuf = (readVaList m₀ pva).advance i) :
    (VaBuf.walk logged vaBuf ts m).1 = vaArgLoop m₀ ts ((readVaList m₀ pva).advance i) ∧
      Mem.AgreeOn (CallerByte m₀ pva n) m₀ (VaBuf.walk logged vaBuf ts m).2 := by
  induction ts generalizing m i with
  | nil => exact ⟨rfl, hm⟩
  | cons t ts ih =>
      rw [List.length_cons] at hlen
      obtain ⟨hvalue, hnext, hagree⟩ := vaArgAt_walk hout hva (by omega) hm hfields t
      have hlog := hlogged t (vaArgAt m vaBuf (readSize t)).1 (vaArgAt m vaBuf (readSize t)).2
      have hfieldsNext := (hlog.readVaList fun b hlo hhi => .inr ⟨hlo, hhi⟩).trans hnext
      obtain ⟨htraced, hrest⟩ := ih (i := i + 1) (by omega)
        (hagree.trans (hlog.mono fun b hb => .inl hb)) hfieldsNext
      refine ⟨?_, hrest⟩
      rw [vaArgLoop, VaBuf.walk, vaArg_advance hva.wf (readSize_cases t) m₀]
      rw [vaArg_advance hva.wf (readSize_cases t) m₀] at hvalue
      exact congrArg₂ _ (congrArg (Prod.mk t) hvalue) htraced

end

/-! ## The function -/

section
variable {logged : Str → BitVec 64 → Mem → Mem} {h : HookArgs} {offset pva : BitVec 64}
  {vaBuf : Nat} {ts : List Str}
  (hpva : getArgs 8 (offset.setWidth 32).toInt h = .ok pva)
  (hva : CallerVaList h.mem pva.toNat ts.length)
  (hout : ∀ b, CallerByte h.mem pva.toNat ts.length b → ¬VaBufByte vaBuf b)
  (hlogged : ∀ t value m, Mem.AgreeOn
    (fun b => CallerByte h.mem pva.toNat ts.length b ∨ VaBufByte vaBuf b) m (logged t value m))

include hpva hva hout hlogged

/-- The function on memory traces what the function without it traces. -/
theorem printfJavaFuncArgsEndWithArray_vaBuf : ∃ tr m',
    VaBuf.printfJavaFuncArgsEndWithArray logged vaBuf h offset ts = .ok (tr, m') ∧
      printfJavaFuncArgsEndWithArray h offset ts = .ok tr ∧
      tr = vaArgLoop h.mem ts (readVaList h.mem pva.toNat) ∧
      Mem.AgreeOn (CallerByte h.mem pva.toNat ts.length) h.mem m' := by
  rw [VaBuf.printfJavaFuncArgsEndWithArray, printfJavaFuncArgsEndWithArray]
  split
  next hnil =>
      rw [List.eq_nil_of_length_eq_zero hnil]
      exact ⟨_, _, rfl, rfl, rfl, .refl _ _⟩
  next =>
      have hcopy : Mem.AgreeOn (CallerByte h.mem pva.toNat ts.length) h.mem
          (memcpy h.mem vaBuf (bytesAt h.mem pva.toNat 0x20)) := by
        refine (Mem.AgreeOn.refl _ h.mem).memcpy _ fun b hb => ?_
        have hnot : ¬(vaBuf ≤ b ∧ b < vaBuf + 0x20) := hout b hb
        rw [length_bytesAt]
        omega
      have hfields := readVaList_copy h.mem h.mem vaBuf pva.toNat
      rw [← hva.wf.advance_zero] at hfields
      obtain ⟨htraced, hagree⟩ := walk_eq hva hout hlogged (Nat.zero_add _) hcopy hfields
      rw [hva.wf.advance_zero] at htraced
      rw [hpva, ok_bind, ok_bind]
      exact ⟨_, _, rfl, by rw [htraced], htraced, hagree⟩

end

/-- For every list of parameters, each value is the general argument of its number, cut to
the width of the parameter's type, and the `va_list` is left as it was. -/
theorem printfVaList_ok {N : Type} {slash : N → Str} {params : List (JavaType N)}
    {logged : Str → BitVec 64 → Mem → Mem} {h : HookArgs} {offset pva : BitVec 64} {vaBuf : Nat}
    (hpva : getArgs 8 (offset.setWidth 32).toInt h = .ok pva)
    (hva : CallerVaList h.mem pva.toNat params.length)
    (hout : ∀ b, CallerByte h.mem pva.toNat params.length b → ¬VaBufByte vaBuf b)
    (hlogged : ∀ t value m, Mem.AgreeOn
      (fun b => CallerByte h.mem pva.toNat params.length b ∨ VaBufByte vaBuf b) m
      (logged t value m)) :
    ∃ tr m', VaBuf.printfJavaFuncArgsEndWithArray logged vaBuf h offset
        (params.map (JavaType.descriptor slash)) = .ok (tr, m') ∧
      tr.length = params.length ∧
      (∀ i t, params[i]? = some t → tr[i]? = some
        (t.descriptor slash, cut t.width ((readVaList h.mem pva.toNat).arg h.mem i))) ∧
      Mem.AgreeOn (fun b => pva.toNat ≤ b ∧ b < pva.toNat + 0x20) h.mem m' := by
  have hlength : (params.map (JavaType.descriptor slash)).length = params.length :=
    List.length_map ..
  rw [← hlength] at hva hout hlogged
  obtain ⟨tr, m', hrun, -, htraced, hagree⟩ :=
    printfJavaFuncArgsEndWithArray_vaBuf hpva hva hout hlogged
  refine ⟨tr, m', hrun, ?_, fun i t ht => ?_, hagree.mono fun b hb => .inl hb⟩
  · rw [htraced, length_vaArgLoop, hlength]
  · rw [htraced, ← hva.wf.advance_zero, getElem?_vaArgLoop_advance hva.wf, Nat.zero_add,
      hva.wf.advance_zero, List.getElem?_map, ht]
    simp only [Option.map_some, readSize_descriptor]

/-- A call whose `va_list`, at address zero, has one register left and then the stack. -/
def oneRegisterLeft : HookArgs where
  x := fun _ => 0
  mem := Mem.ofBytes [
    40, 0, 0, 0, 0, 0, 0, 0, 40, 0, 0, 0, 0, 0, 0, 0,
    0, 0, 0, 0, 0, 0, 0, 0, 0xf8, 0xff, 0xff, 0xff, 0, 0, 0, 0,
    7, 0, 0, 0, 0, 0, 0, 0, 9, 0, 0, 0, 1, 0, 0, 0]
  stackArgs := 0

/-- A `jlong` in the last register, and a `jint` behind it on the stack. -/
theorem printfVaList_oneRegisterLeft : ∃ tr m',
    VaBuf.printfJavaFuncArgsEndWithArray (fun _ _ m => m) 64 oneRegisterLeft (slotOffset 3)
        ["J".toList, "I".toList] = .ok (tr, m') ∧
      tr[0]? = some ("J".toList, 7) ∧ tr[1]? = some ("I".toList, 9) ∧
      ∀ b < 0x20, m' b = oneRegisterLeft.mem b := by
  have haddr : ∀ i < 2, (readVaList oneRegisterLeft.mem 0).argAddr i + 8 ≤ 64 := by decide
  have hva : CallerVaList oneRegisterLeft.mem 0 2 :=
    ⟨⟨by decide, by decide, by decide, by decide⟩, by decide⟩
  have hout (b : Nat) (hb : CallerByte oneRegisterLeft.mem 0 2 b) : ¬VaBufByte 64 b := by
    rintro ⟨hbuf, -⟩
    rcases hb with ⟨-, hb⟩ | ⟨i, hi, -, hb⟩
    · exact absurd (Nat.lt_of_le_of_lt hbuf hb) (by decide)
    · exact absurd (Nat.lt_of_lt_of_le (Nat.lt_of_le_of_lt hbuf hb) (haddr i hi))
        (Nat.lt_irrefl 64)
  obtain ⟨tr, m', hrun, -, hvalues, hkept⟩ := @printfVaList_ok ClassName ClassName.slash
    [⟨0, .prim .long⟩, ⟨0, .prim .int⟩] (fun _ _ m => m) oneRegisterLeft (slotOffset 3) 0 64 rfl
    hva hout fun _ _ m => .refl _ m
  exact ⟨tr, m', hrun, hvalues 0 _ rfl, hvalues 1 _ rfl,
    fun b hb => hkept b ⟨Nat.zero_le b, by simpa using hb⟩⟩

end HookJni
