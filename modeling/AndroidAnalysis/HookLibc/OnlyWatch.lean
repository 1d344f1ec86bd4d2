import AndroidAnalysis.Cpp.Format
import AndroidAnalysis.Cpp.Int
import AndroidAnalysis.HookJni.JniCall
import AndroidAnalysis.Machine.Aapcs64Quad
import AndroidAnalysis.RouteFunc.RouteFunc

/-!
# `hook_libc/only_watch.cpp` on arm64

The functions of the C library that are only watched.  `hook_libc_func` calls the
original with the arguments it received, and has to say how many stack words they
have.  For the six functions with a format it counts the conversions.

The count is one argument for each conversion.  It misses what a `*` takes and
the second word of a `long double`, and it makes up for them with the registers
that the floating arguments leave: `hookLibcFunc_forwards_iff`.
-/

namespace HookLibc

open Cpp HookJni Machine Machine.Aapcs64 RouteFunc

/-! ## The table -/

/-- The types in the list. -/
inductive LibcType
  | charPtr
  | varargs
  | filePtr
  | int
  | sizeT
  | regexPtr
  | regmatchPtr
  | void
  | voidPtr
  | double
  | float
  | long
deriving DecidableEq

/-- The text of a type, as the list has it. -/
def LibcType.text : LibcType → Str
  | .charPtr => "char*".toList
  | .varargs => "...".toList
  | .filePtr => "FILE*".toList
  | .int => "int".toList
  | .sizeT => "size_t".toList
  | .regexPtr => "regex_t*".toList
  | .regmatchPtr => "regmatch_t*".toList
  | .void => "void".toList
  | .voidPtr => "void*".toList
  | .double => "double".toList
  | .float => "float".toList
  | .long => "long".toList

/-- `method_info_t`. -/
structure LibcMethodInfo where
  index : Nat
  name : String
  retType : LibcType
  argsType : List LibcType
deriving DecidableEq

/-- `libc_only_watch_method_info`. -/
def libcOnlyWatchMethodInfo : List LibcMethodInfo := [
  ⟨1, "scanf", .int, [.charPtr, .varargs]⟩,
  ⟨2, "printf", .int, [.charPtr, .varargs]⟩,
  ⟨3, "fprintf", .int, [.filePtr, .charPtr, .varargs]⟩,
  ⟨4, "dprintf", .int, [.int, .charPtr, .varargs]⟩,
  ⟨5, "sprintf", .int, [.charPtr, .charPtr, .varargs]⟩,
  ⟨6, "snprintf", .int, [.charPtr, .sizeT, .charPtr, .varargs]⟩,
  ⟨7, "regcomp", .int, [.regexPtr, .charPtr, .int]⟩,
  ⟨8, "regexec", .int, [.regexPtr, .charPtr, .sizeT, .regmatchPtr, .int]⟩,
  ⟨9, "regerror", .sizeT, [.int, .regexPtr, .charPtr, .sizeT]⟩,
  ⟨10, "regfree", .void, [.regexPtr]⟩,
  ⟨11, "strcat", .charPtr, [.charPtr, .charPtr]⟩,
  ⟨12, "strncat", .charPtr, [.charPtr, .charPtr, .sizeT]⟩,
  ⟨13, "strchr", .charPtr, [.charPtr, .int]⟩,
  ⟨14, "strrchr", .charPtr, [.charPtr, .int]⟩,
  ⟨15, "strcmp", .int, [.charPtr, .charPtr]⟩,
  ⟨16, "strncmp", .int, [.charPtr, .charPtr, .sizeT]⟩,
  ⟨17, "strcpy", .charPtr, [.charPtr, .charPtr]⟩,
  ⟨18, "strncpy", .charPtr, [.charPtr, .charPtr, .sizeT]⟩,
  ⟨19, "strdup", .charPtr, [.charPtr]⟩,
  ⟨20, "strndup", .charPtr, [.charPtr, .sizeT]⟩,
  ⟨21, "strdupa", .charPtr, [.charPtr]⟩,
  ⟨22, "strndupa", .charPtr, [.charPtr, .sizeT]⟩,
  ⟨23, "strlen", .sizeT, [.charPtr]⟩,
  ⟨24, "strsep", .charPtr, [.charPtr, .charPtr]⟩,
  ⟨25, "strstr", .charPtr, [.charPtr, .charPtr]⟩,
  ⟨26, "strcasestr", .charPtr, [.charPtr, .charPtr]⟩,
  ⟨27, "strtod", .double, [.charPtr, .charPtr]⟩,
  ⟨28, "strtof", .float, [.charPtr, .charPtr]⟩,
  ⟨29, "double strtold", .long, [.charPtr, .charPtr]⟩,
  ⟨30, "isalnum", .int, [.int]⟩,
  ⟨31, "isalpha", .int, [.int]⟩,
  ⟨32, "iscntrl", .int, [.int]⟩,
  ⟨33, "isdigit", .int, [.int]⟩,
  ⟨34, "isgraph", .int, [.int]⟩,
  ⟨35, "islower", .int, [.int]⟩,
  ⟨36, "isprint", .int, [.int]⟩,
  ⟨37, "ispunct", .int, [.int]⟩,
  ⟨38, "isspace", .int, [.int]⟩,
  ⟨39, "isupper", .int, [.int]⟩,
  ⟨40, "isxdigit", .int, [.int]⟩,
  ⟨41, "isascii", .int, [.int]⟩,
  ⟨42, "isblank", .int, [.int]⟩,
  ⟨43, "memchr", .voidPtr, [.voidPtr, .int, .sizeT]⟩,
  ⟨44, "memrchr", .voidPtr, [.voidPtr, .int, .sizeT]⟩,
  ⟨45, "rawmemchr", .voidPtr, [.voidPtr, .int]⟩,
  ⟨46, "memcpy", .voidPtr, [.voidPtr, .voidPtr, .sizeT]⟩,
  ⟨47, "memcmp", .int, [.voidPtr, .voidPtr, .sizeT]⟩]

/-! ## `hook_libc_func` -/

/-- The register of the format. -/
def formatRegister : Nat → Except Fault (Fin 8)
  | 2 => .ok 0
  | 3 => .ok 1
  | 4 => .ok 2
  | _ => .error .undefined

/-- The loop over the format. -/
def formatLoop (stackArgsCount : Int) : Str → Except Fault Int
  | [] => .ok stackArgsCount
  | '%' :: '%' :: pfmt => formatLoop stackArgsCount pfmt
  | '%' :: pfmt => do
      let stackArgsCount ← intResult (stackArgsCount + 1)
      formatLoop stackArgsCount pfmt
  | _ :: pfmt => formatLoop stackArgsCount pfmt

/-- `stack_args_count` before the fixed arguments are added. -/
def formatCount (info : LibcMethodInfo) (text : BitVec 64 → Str) (h : HookArgs) :
    Except Fault Int :=
  if info.index ≤ 6 then do
    let r ← formatRegister info.argsType.length
    let stackArgsCount ← formatLoop 0 (text (h.x r))
    intResult (stackArgsCount - 1)
  else .ok 0

/-- `hook_libc_func`: the call of the original function, and what is printed.
`text` is the string a pointer points to. -/
def hookLibcFunc (info : LibcMethodInfo) (originCall : BitVec 64) (text : BitVec 64 → Str)
    (h : HookArgs) : Except Fault (RouteCall × Traced) := do
  let count ← formatCount info text h
  -- The sum is a `size_t`.
  let count := asInt (asSize .arm64 (count + asSize .arm64 (info.argsType.length - 8)))
  let count := if count < 0 then 0 else count
  let argsText := info.argsType.map LibcType.text
  let printed ← printfJavaFuncArgs h 0 argsText argsText.length
  .ok (⟨h.x, count, h.stackArgs, originCall⟩, printed.1)

/-! ## What the loop counts -/

/-- The percent signs the loop counts. -/
def percents : Str → Nat
  | [] => 0
  | '%' :: '%' :: pfmt => percents pfmt
  | '%' :: pfmt => percents pfmt + 1
  | _ :: pfmt => percents pfmt

/-- The loop ends with the count of the text, where that is an `int`. -/
theorem formatLoop_eq {count : Int} (hcount : IsInt count) (h0 : 0 ≤ count) (pfmt : Str) :
    formatLoop count pfmt = intResult (count + percents pfmt) := by
  fun_induction percents pfmt generalizing count with
  | case1 =>
      rw [formatLoop, Int.natCast_zero, Int.add_zero, intResult_of_isInt hcount]
  | case2 pfmt ih => rw [formatLoop, ih hcount h0]
  | case3 pfmt hne ih =>
      have hsum : count + (percents pfmt + 1 : Nat) = count + 1 + percents pfmt := by omega
      rw [formatLoop.eq_3 _ _ hne, hsum]
      by_cases h : IsInt (count + 1)
      · rw [intResult_of_isInt h, ok_bind, ih h (by omega)]
      · have hover : ¬ IsInt (count + 1 + percents pfmt) := by
          rw [IsInt] at hcount h ⊢
          omega
        rw [intResult, if_neg h, intResult, if_neg hover]
        rfl
  | case4 c pfmt hne hne' ih => rw [formatLoop.eq_4 _ _ _ hne hne', ih hcount h0]

/-- A percent sign that begins something. -/
theorem percents_cons {xs : Str} (hxs : xs.head? ≠ some '%') :
    percents ('%' :: xs) = percents xs + 1 := by
  refine percents.eq_3 xs ?_
  rintro pfmt rfl
  exact hxs rfl

theorem percents_cons_of_ne {c : Char} (hc : c ≠ '%') (xs : Str) :
    percents (c :: xs) = percents xs := by
  refine percents.eq_4 c xs ?_ ?_
  · rintro pfmt rfl rfl
    exact hc rfl
  · rintro rfl
    exact hc rfl

/-- What ends in another character is counted on its own. -/
theorem percents_append (xs ys : Str) {back : Char} (hback : back ≠ '%') :
    percents (xs ++ back :: ys) = percents (xs ++ [back]) + percents ys := by
  fun_induction percents xs with
  | case1 =>
      rw [List.nil_append, List.nil_append, percents_cons_of_ne hback, percents_cons_of_ne hback,
        percents, Nat.zero_add]
  | case2 pfmt ih => exact ih
  | case3 pfmt hne ih =>
      have hhead (zs : Str) : (pfmt ++ back :: zs).head? ≠ some '%' := by
        cases pfmt with
        | nil => exact fun h => hback (Option.some.inj h)
        | cons c cs =>
            rintro h
            obtain rfl : c = '%' := Option.some.inj h
            exact hne cs rfl
      rw [List.cons_append, List.cons_append, percents_cons (hhead ys), percents_cons (hhead []),
        ih, Nat.add_right_comm]
  | case4 c pfmt hne hne' ih =>
      have hc : c ≠ '%' := hne'
      rw [List.cons_append, List.cons_append, percents_cons_of_ne hc, percents_cons_of_ne hc, ih]

/-- A text without percent signs. -/
theorem percents_of_notMem {xs : Str} (hxs : '%' ∉ xs) (ys : Str) :
    percents (xs ++ ys) = percents ys := by
  induction xs with
  | nil => rfl
  | cons c xs ih =>
      rw [List.mem_cons, not_or] at hxs
      rw [List.cons_append, percents_cons_of_ne (Ne.symm hxs.1), ih hxs.2]

/-! ## What a format makes the loop count -/

theorem head?_append_ne {xs : Str} (hne : xs ≠ []) (hxs : '%' ∉ xs) (ys : Str) :
    (xs ++ ys).head? ≠ some '%' := by
  obtain ⟨c, cs, rfl⟩ := List.exists_cons_of_ne_nil hne
  rw [List.cons_append, List.head?_cons, ne_eq, Option.some_inj]
  exact fun h => hxs (h ▸ List.mem_cons_self)

/-- Of a directive of `printf`, all arguments but those for a `*` are counted. -/
theorem percents_printfPiece (p : PrintfPiece) (rest : Str) :
    percents (p.text ++ rest) + p.stars = p.args.length + percents rest := by
  cases p with
  | plain c =>
      have htext : percents ([c.val] ++ rest) = percents rest :=
        percents_cons_of_ne c.ne_percent rest
      simp only [PrintfPiece.text, PrintfPiece.stars, PrintfPiece.args, htext, List.length_nil]
      omega
  | percent =>
      simp only [PrintfPiece.text, PrintfPiece.stars, PrintfPiece.args, List.length_nil]
      exact (Nat.zero_add _).symm
  | spec s =>
      have hne : s.modifiers ++ s.conv.text ≠ [] := by
        rw [ne_eq, List.append_eq_nil_iff, not_and]
        exact fun _ => s.conv.text_ne_nil
      have htext : percents ('%' :: (s.modifiers ++ s.conv.text) ++ rest) = percents rest + 1 := by
        rw [List.cons_append, percents_cons (head?_append_ne hne s.percent_notMem rest),
          percents_of_notMem s.percent_notMem]
      simp only [PrintfPiece.text, PrintfPiece.stars, PrintfPiece.args, htext, List.length_append,
        List.length_replicate, List.length_singleton]
      omega

/-- Of a directive of `scanf` every argument is counted. -/
theorem length_le_percents_scanfPiece (p : ScanfPiece) (rest : Str) :
    p.args.length + percents rest ≤ percents (p.text ++ rest) := by
  cases p with
  | plain c =>
      have htext : percents ([c.val] ++ rest) = percents rest :=
        percents_cons_of_ne c.ne_percent rest
      simp only [ScanfPiece.text, ScanfPiece.args, htext, List.length_nil]
      omega
  | percent =>
      simp only [ScanfPiece.text, ScanfPiece.args, List.length_nil]
      exact Nat.le_of_eq (Nat.zero_add _)
  | spec s =>
      obtain ⟨hhead, front, back, htext, hback⟩ := s.ends
      have hcount : percents rest + 1 ≤
          percents ('%' :: (s.modifiers ++ s.conv.text) ++ rest) := by
        have hhead' : (s.modifiers ++ s.conv.text ++ rest).head? ≠ some '%' := by
          rw [htext] at hhead ⊢
          cases front with
          | nil => exact hhead
          | cons c cs => exact hhead
        rw [List.cons_append, percents_cons hhead', htext, List.append_assoc,
          List.singleton_append, percents_append front rest hback]
        omega
      have hargs : (ScanfPiece.spec s).args.length ≤ 1 := by
        rw [ScanfPiece.args]
        split
        next => exact Nat.zero_le 1
        next => exact Nat.le_refl 1
      simp only [ScanfPiece.text]
      omega

theorem percents_printf (pieces : List PrintfPiece) :
    percents (Format.printf pieces).text + (Format.printf pieces).stars =
      (Format.printf pieces).args.length := by
  simp only [Format.text, Format.stars, Format.args]
  induction pieces with
  | nil => rfl
  | cons p pieces ih =>
      have hp := percents_printfPiece p (pieces.flatMap PrintfPiece.text)
      rw [List.flatMap_cons, List.flatMap_cons, List.map_cons, List.sum_cons, List.length_append]
      omega

theorem length_le_percents_scanf (pieces : List ScanfPiece) :
    (Format.scanf pieces).args.length ≤ percents (Format.scanf pieces).text := by
  simp only [Format.text, Format.args]
  induction pieces with
  | nil => exact Nat.le_refl 0
  | cons p pieces ih =>
      have hp := length_le_percents_scanfPiece p (pieces.flatMap ScanfPiece.text)
      rw [List.flatMap_cons, List.flatMap_cons, List.length_append]
      omega

/-! ## The call -/

/-- How an argument of a format is passed. -/
def argKind : FormatArg → ArgKind
  | .general => .general
  | .double => .double
  | .longDouble => .quad

/-- The arguments of a call: those before the `...`, and what the format consumes. -/
def formatCall (info : LibcMethodInfo) (fmt : Format) : List ArgKind :=
  List.replicate (info.argsType.length - 1) .general ++ fmt.args.map argKind

/-- When the count is enough: the arguments are in registers, or the registers hold
what is missed. -/
def FormatFits (info : LibcMethodInfo) (fmt : Format) : Prop :=
  let call := formatCall info fmt
  (generals call ≤ 8 ∧ floats call ≤ 8) ∨
    fmt.stars + extraFrom {} call ≤ min 8 (min (generals call) (floats call))

/-- The functions with a format have it last of the arguments before the `...`. -/
theorem format_entry : ∀ info ∈ libcOnlyWatchMethodInfo, info.index ≤ 6 →
    ∃ r, formatRegister info.argsType.length = .ok r ∧ r.val + 2 = info.argsType.length := by
  decide +kernel

section

variable {info : LibcMethodInfo} {r : Fin 8} {text : BitVec 64 → Str} {h : HookArgs}
  {fmt : Format} (hsix : info.index ≤ 6)
  (hr : formatRegister info.argsType.length = .ok r) (htext : text (h.x r) = fmt.text)

include hsix hr htext

theorem formatCount_eq : formatCount info text h =
    if percents fmt.text < 2147483648 then .ok ((percents fmt.text : Int) - 1)
    else .error .undefined := by
  rw [formatCount, if_pos hsix, hr, ok_bind, htext, formatLoop_eq (by decide) (Int.le_refl 0),
    Int.zero_add]
  split
  next hlt =>
    rw [intResult_of_isInt ⟨by omega, by omega⟩, ok_bind, intResult_of_isInt ⟨by omega, by omega⟩]
  next hge =>
    have hover : ¬ IsInt (percents fmt.text) := by
      rw [IsInt]
      omega
    rw [intResult, if_neg hover]
    rfl

/-- The count is that of the fixed arguments and the percent signs, less the
registers. -/
theorem hookLibcFunc_eq (hlen : info.argsType.length ≤ 9) (originCall : BitVec 64) :
    ∃ tr, hookLibcFunc info originCall text h = if percents fmt.text < 2147483648 then
      .ok (⟨h.x, (info.argsType.length + percents fmt.text - 9 : Nat), h.stackArgs, originCall⟩,
        tr)
      else .error .undefined := by
  have hprintf : printfJavaFuncArgs h 0 (info.argsType.map LibcType.text)
      (info.argsType.map LibcType.text).length =
        .ok (tracedFrom h 0 (info.argsType.map LibcType.text),
          slotOffset (0 + (info.argsType.map LibcType.text).length)) := by
    have hall := printfJavaFuncArgs_eq h (Nat.zero_le (2 ^ 28)) (info.argsType.map LibcType.text)
    rwa [if_pos (by rw [List.length_map]; omega)] at hall
  refine ⟨tracedFrom h 0 (info.argsType.map LibcType.text), ?_⟩
  rw [hookLibcFunc, formatCount_eq hsix hr htext]
  split
  next hlt =>
    have hsum : asInt (asSize .arm64 ((percents fmt.text : Int) - 1 +
        asSize .arm64 (info.argsType.length - 8))) =
          (info.argsType.length : Int) + percents fmt.text - 9 := by
      have hmod : asSize .arm64 ((percents fmt.text : Int) - 1 +
          asSize .arm64 (info.argsType.length - 8)) =
            asSize .arm64 ((info.argsType.length : Int) + percents fmt.text - 9) := by
        simp only [asSize, Build.words]
        omega
      rw [hmod, asInt_asSize, asInt_of_isInt ⟨by omega, by omega⟩]
    have hmax : (if (info.argsType.length : Int) + percents fmt.text - 9 < 0 then 0
        else (info.argsType.length : Int) + percents fmt.text - 9) =
          ((info.argsType.length + percents fmt.text - 9 : Nat) : Int) := by
      split <;> omega
    rw [ok_bind]
    dsimp only
    rw [hsum, hmax, hprintf, ok_bind]
  next => rfl

end

/-! ## Whether the count is enough -/

theorem generals_formatCall (info : LibcMethodInfo) (fmt : Format) :
    generals (formatCall info fmt) =
      info.argsType.length - 1 + generals (fmt.args.map argKind) := by
  have hfixed : generals (List.replicate (info.argsType.length - 1) .general) =
      info.argsType.length - 1 := by
    rw [generals, List.map_replicate]
    exact List.count_replicate_self
  rw [formatCall, generals_append, hfixed]

/-- What a `*` takes is a general argument. -/
theorem stars_le_generals (fmt : Format) : fmt.stars ≤ generals (fmt.args.map argKind) := by
  cases fmt with
  | scanf pieces => exact Nat.zero_le _
  | printf pieces =>
      simp only [Format.stars, Format.args]
      induction pieces with
      | nil => exact Nat.le_refl 0
      | cons p pieces ih =>
          have hp : p.stars ≤ generals (p.args.map argKind) := by
            cases p with
            | plain c => exact Nat.le_refl 0
            | percent => exact Nat.le_refl 0
            | spec s =>
                rw [PrintfPiece.args, List.map_append, generals_append, List.map_replicate,
                  generals, List.map_replicate]
                exact Nat.le_trans (Nat.le_of_eq List.count_replicate_self.symm)
                  (Nat.le_add_right _ _)
          rw [List.map_cons, List.sum_cons, List.flatMap_cons, List.map_append, generals_append]
          exact Nat.add_le_add hp ih

/-- The arguments of `scanf` are pointers. -/
theorem floats_scanf (info : LibcMethodInfo) (pieces : List ScanfPiece) :
    floats (formatCall info (.scanf pieces)) = 0 := by
  rw [floats, List.count_eq_zero]
  intro hmem
  obtain ⟨k, hk, hclass⟩ := List.mem_map.mp hmem
  have hgeneral : k = .general := by
    rcases List.mem_append.mp hk with hfixed | harg
    · exact List.eq_of_mem_replicate hfixed
    · obtain ⟨a, ha, rfl⟩ := List.mem_map.mp harg
      obtain ⟨p, -, hp⟩ := List.mem_flatMap.mp ha
      cases p with
      | plain c => cases hp
      | percent => cases hp
      | spec s =>
          rw [ScanfPiece.args] at hp
          split at hp
          next => cases hp
          next => rw [List.mem_singleton.mp hp]; rfl
  rw [hgeneral] at hclass
  cases hclass

/-- A format of `scanf` always fits. -/
theorem formatFits_scanf (info : LibcMethodInfo) (pieces : List ScanfPiece) :
    FormatFits info (.scanf pieces) ∧ extraFrom {} (formatCall info (.scanf pieces)) = 0 := by
  have hextra : extraFrom {} (formatCall info (.scanf pieces)) = 0 :=
    extraFrom_eq_zero (by rw [floats_scanf]; exact Nat.zero_le 8)
  refine ⟨Or.inr ?_, hextra⟩
  rw [hextra]
  exact Nat.zero_le _

/-- A count is enough exactly when the call fits. -/
theorem stackWordsOf_formatCall_le_iff {info : LibcMethodInfo} (hlen : 1 ≤ info.argsType.length)
    (fmt : Format) : stackWordsOf (formatCall info fmt) ≤
      info.argsType.length + percents fmt.text - 9 ↔ FormatFits info fmt := by
  have hlength : (formatCall info fmt).length = info.argsType.length - 1 + fmt.args.length := by
    rw [formatCall, List.length_append, List.length_replicate, List.length_map]
  have hcount : info.argsType.length + percents fmt.text - 9 =
      info.argsType.length - 1 + percents fmt.text - 8 := by omega
  rw [hcount]
  cases fmt with
  | printf pieces =>
      have hpercents := percents_printf pieces
      have hstars := stars_le_generals (.printf pieces)
      have hgenerals := generals_formatCall info (.printf pieces)
      exact stackWordsOf_le_iff (by omega) (by omega)
  | scanf pieces =>
      obtain ⟨hfits, hextra⟩ := formatFits_scanf info pieces
      have hpercents := length_le_percents_scanf pieces
      have hsum := generals_add_floats (formatCall info (.scanf pieces))
      refine iff_of_true ?_ hfits
      rw [stackWordsOf_eq, floats_scanf, hextra]
      omega

/-- `hook_libc_func` forwards the stack words of a call with a format exactly when
its percent signs are an `int` and the count is enough.  The format is the last of
the fixed arguments, and `scanf` has the second language and the others the first. -/
theorem hookLibcFunc_forwards_iff {info : LibcMethodInfo} (hinfo : info ∈ libcOnlyWatchMethodInfo)
    (hsix : info.index ≤ 6) (fmt : Format) (text : BitVec 64 → Str) (h : HookArgs)
    (htext : text (h.slot (info.argsType.length - 2)) = fmt.text) (originCall : BitVec 64) :
    (∃ call tr, hookLibcFunc info originCall text h = .ok (call, tr) ∧
      (stackWordsOf (formatCall info fmt) : Int) ≤ call.argc) ↔
      percents fmt.text < 2147483648 ∧ FormatFits info fmt := by
  obtain ⟨r, hr, hrlen⟩ := format_entry info hinfo hsix
  have hslot : h.slot (info.argsType.length - 2) = h.x r := by
    have hindex : info.argsType.length - 2 = r.val := by omega
    rw [hindex, HookArgs.slot, dif_pos r.isLt]
  rw [hslot] at htext
  obtain ⟨tr, hrun⟩ := hookLibcFunc_eq hsix hr htext (by omega) originCall
  rw [hrun, ← stackWordsOf_formatCall_le_iff (by omega) fmt]
  split
  next hlt =>
    constructor
    · rintro ⟨call, tr', hok, hle⟩
      cases hok
      exact ⟨hlt, Int.ofNat_le.mp hle⟩
    · rintro ⟨-, hle⟩
      exact ⟨_, _, rfl, Int.ofNat_le.mpr hle⟩
  next hge =>
    refine iff_of_false ?_ fun hboth => hge hboth.1
    rintro ⟨call, tr', hok, -⟩
    cases hok

/-- `printf`. -/
def printfInfo : LibcMethodInfo := ⟨2, "printf", .int, [.charPtr, .varargs]⟩

/-- `%*d` -/
def starInt : PrintfPiece := .spec ⟨[], .star, none, .int .int .d⟩

/-- Three numbers with a width each are in registers. -/
theorem printf_three_stars : printfInfo ∈ libcOnlyWatchMethodInfo ∧ ∃ call tr,
    hookLibcFunc printfInfo 0 (fun _ => "%*d%*d%*d".toList) numbered = .ok (call, tr) ∧
      (stackWordsOf (formatCall printfInfo (.printf [starInt, starInt, starInt])) : Int) ≤
        call.argc := by
  have hmem : printfInfo ∈ libcOnlyWatchMethodInfo := by decide
  exact ⟨hmem, (hookLibcFunc_forwards_iff hmem (by decide) (.printf [starInt, starInt, starInt])
    (fun _ => "%*d%*d%*d".toList) numbered (by decide) 0).mpr ⟨by decide, Or.inl (by decide)⟩⟩

/-- The fourth is on the stack, and no stack word is forwarded. -/
theorem printf_four_stars : ∃ call tr,
    hookLibcFunc printfInfo 0 (fun _ => "%*d%*d%*d%*d".toList) numbered = .ok (call, tr) ∧
      "%*d%*d%*d%*d".toList = (Format.printf [starInt, starInt, starInt, starInt]).text ∧
      call.argc = 0 ∧
      stackWordsOf (formatCall printfInfo (.printf [starInt, starInt, starInt, starInt])) = 1 := by
  obtain ⟨tr, hrun⟩ := @hookLibcFunc_eq printfInfo _ (fun _ => "%*d%*d%*d%*d".toList) numbered
    (.printf [starInt, starInt, starInt, starInt]) (by decide) rfl (by decide) (by decide) 0
  exact ⟨_, tr, hrun.trans (if_pos (by decide)), by decide, by decide, by decide⟩

end HookLibc
