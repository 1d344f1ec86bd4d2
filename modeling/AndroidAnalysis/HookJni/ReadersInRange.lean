import AndroidAnalysis.HookJni.DescriptorPositions

/-!
# The readers on texts shorter than `2^31`

In such a text every place is an `int`, and so is the place behind it and the distance of
two places.  A part of the text is no longer, so `parse_java_signature` and
`parse_java_pretty_name` are the readers whose positions have no end.
-/

namespace HookJni

open Cpp Utils Words

/-- A text without a NUL is read in full, and no further otherwise. -/
theorem length_cStr_le (s : Str) : (cStr s).length ≤ s.length :=
  (List.takeWhile_prefix _).length_le

/-- `split_args_sig` of a text shorter than `2^31`. -/
theorem splitArgsSigInt_of_lt {s : Str} (h : s.length < 2147483648) (ret : List Str) :
    splitArgsSigInt s ret = splitArgsSig s ret :=
  splitArgsSigInt_of_readInInt (.inl (Nat.lt_of_le_of_lt (length_cStr_le s) h))

/-- `parse_java_signature` of a text shorter than `2^31` is the reader that the registrations
of natives go through. -/
theorem parseJavaSignatureInt_of_lt {signature : Str} (h : signature.length < 2147483648)
    (out : SignatureOut) :
    parseJavaSignatureInt signature out = parseJavaSignature signature out := by
  have hlen := Nat.lt_of_le_of_lt (length_cStr_le signature) h
  rw [parseJavaSignatureInt, parseJavaSignature]
  generalize cStr signature = s at hlen
  obtain ⟨hopen, hopen_le, hopen_lt⟩ := asInt_toInt (fun _ => lt_of_find_char (c := '(')) hlen
  obtain ⟨hclose, hclose_le, hclose_lt⟩ := asInt_toInt (fun _ => lt_of_find_char (c := ')')) hlen
  rw [hopen, hclose]
  refine ite_congr rfl (fun _ => rfl) fun hfound => ?_
  rw [not_or, not_or] at hfound
  rw [intResult_of_isInt (by rw [IsInt]; omega), ok_bind,
    intResult_of_isInt (by rw [IsInt]; omega), ok_bind,
    intResult_of_isInt (by rw [IsInt]; omega), ok_bind,
    intResult_of_isInt (by rw [IsInt]; omega)]
  refine bind_congr_ok fun argsSig hargs => ?_
  rw [splitArgsSigInt_of_lt (Nat.lt_of_le_of_lt (length_of_substr hargs) hlen)]
  rfl

/-- `conv_java_type_2_sig_type` of a text shorter than `2^31`. -/
theorem convJavaType2SigTypeInt_of_lt {typeName : Str} (h : typeName.length < 2147483648) :
    convJavaType2SigTypeInt typeName = convJavaType2SigType typeName := by
  have hcount : typeName.count '[' ≤ typeName.length := List.count_le_length
  rw [convJavaType2SigTypeInt, convJavaType2SigType, asInt_of_isInt (by rw [IsInt]; omega),
    Int.toNat_natCast]

/-- `parse_java_pretty_name` of a text shorter than `2^31`. -/
theorem parseJavaPrettyNameInt_of_lt {decl : Str} (h : decl.length < 2147483648)
    (out : PrettyNameOut) : parseJavaPrettyNameInt decl out = parseJavaPrettyName decl out := by
  have hconv {s : Str} (hs : s.length ≤ decl.length) :
      convJavaType2SigTypeInt s = convJavaType2SigType s :=
    convJavaType2SigTypeInt_of_lt (Nat.lt_of_le_of_lt hs h)
  obtain ⟨hopen, hopen_le, hopen_lt⟩ := asInt_toInt (fun _ => lt_of_find_char (c := '(')) h
  obtain ⟨hclose, hclose_le, hclose_lt⟩ := asInt_toInt (fun _ => lt_of_find_char (c := ')')) h
  obtain ⟨hspace, hspace_le, hspace_lt⟩ := asInt_toInt
    (fun _ => lt_of_findLastOfUpTo (c := ' ') (i := toInt (find decl ['(']))) h
  rw [parseJavaPrettyNameInt, parseJavaPrettyName, hopen, hclose]
  dsimp only
  refine ite_congr rfl (fun _ => rfl) fun _ => ?_
  rw [intResult_of_isInt (by rw [IsInt]; omega), ok_bind]
  refine ite_congr rfl (fun _ => rfl) fun hfound => ?_
  -- The parameters.
  rw [not_or, not_or] at hfound
  rw [intResult_of_isInt (by rw [IsInt]; omega), ok_bind,
    intResult_of_isInt (by rw [IsInt]; omega), ok_bind]
  refine bind_congr_ok fun args hargs => ?_
  have hargs := Nat.le_trans (length_substChar_nil_le ' ' args) (length_of_substr hargs)
  rw [replaceAll_char List.not_mem_nil, ok_bind, ok_bind,
    stringSplitInt_eq (List.cons_ne_nil _ _) (Nat.lt_of_le_of_lt hargs h)]
  refine bind_congr_ok fun items hitems => ?_
  rw [mapM_congr_of_mem fun item hitem =>
    hconv (Nat.le_trans (length_of_mem_stringSplit hitems item hitem) hargs)]
  refine bind_congr_ok fun argsType _ => ?_
  -- The class and the method.
  rw [hspace, intResult_of_isInt (by rw [IsInt]; omega), ok_bind]
  refine ite_congr rfl (fun _ => rfl) fun hword => ?_
  rw [not_or] at hword
  rw [intResult_of_isInt (by rw [IsInt]; omega), ok_bind,
    intResult_of_isInt (by rw [IsInt]; omega), ok_bind]
  refine bind_congr_ok fun classMethod hclassMethod => ?_
  obtain ⟨hdot, hdot_le, hdot_lt⟩ := asInt_toInt
    (fun _ => lt_of_findLastOf (s := classMethod) (c := '.'))
    (Nat.lt_of_le_of_lt (length_of_substr hclassMethod) h)
  have hclassMethod := length_of_substr hclassMethod
  rw [hdot]
  refine ite_congr rfl (fun _ => rfl) fun _ => ite_congr rfl (fun _ => rfl) fun _ => ?_
  rw [intResult_of_isInt (by rw [IsInt]; omega), ok_bind]
  refine bind_congr_ok fun methodName _ => bind_congr_ok fun className _ => ?_
  refine ite_congr rfl (fun _ => rfl) fun _ => ?_
  -- The result.
  obtain ⟨hresult, hresult_le, hresult_lt⟩ := asInt_toInt (fun _ => lt_of_findLastOfUpTo (c := ' ')
    (i := toInt (findLastOfUpTo decl ' ' (toInt (find decl ['(']))) - 1)) h
  rw [intResult_of_isInt (by rw [IsInt]; omega), ok_bind, hresult]
  by_cases hnone : toInt (findLastOfUpTo decl ' '
    (toInt (findLastOfUpTo decl ' ' (toInt (find decl ['(']))) - 1)) = -1
  · rw [if_pos hnone, ok_bind, if_neg fun hp2 => hp2.1 hnone, if_pos hnone]
    refine bind_congr_ok fun retType hret => ?_
    rw [hconv (length_of_substr hret)]
  · rw [if_neg hnone, intResult_of_isInt (by rw [IsInt]; omega), ok_bind,
      intResult_of_isInt (by rw [IsInt]; omega), ok_bind, if_neg hnone]
    by_cases hshort : toInt (findLastOfUpTo decl ' ' (toInt (find decl ['(']))) -
      toInt (findLastOfUpTo decl ' '
        (toInt (findLastOfUpTo decl ' ' (toInt (find decl ['(']))) - 1)) - 1 < 1
    · rw [if_pos hshort, if_pos ⟨hnone, hshort⟩]
      rfl
    · rw [if_neg hshort, intResult_of_isInt (by rw [IsInt]; omega), ok_bind, ok_bind,
        if_neg fun hp2 => hshort hp2.2]
      refine bind_congr_ok fun retType hret => ?_
      rw [hconv (length_of_substr hret)]

end HookJni
