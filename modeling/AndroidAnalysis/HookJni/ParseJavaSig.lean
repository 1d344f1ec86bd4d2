import AndroidAnalysis.Utils.StringSplit

/-!
# `hook_jni/parse_java_sig.cpp`

The three readers of a Java method's name and types: a JNI signature
(`parseJavaSignature`), the symbol of a native (`parseJavaLangName`), and the
text a method prints itself as (`parseJavaPrettyName`).  The first two share
`splitArgsSig`, which cuts a run of descriptors into its parts.  One descriptor
is taken apart by `convSig2ArgsType`.

An out-parameter is an argument and part of the result, also where the reader
returns `false`: it may have been written by then.  A reader that takes a
`const char *` reads the characters before its NUL (`cStr`).

The readers keep their positions in an `int`.  `parseJavaLangName` and the
definitions with `Int` in their names have that `int`; the others have positions
without an end, and read the same in a text shorter than `2^31`.
-/

namespace HookJni

open Cpp Utils

/-! ## Descriptors -/

/-- `is_java_base_args_sig`. -/
def isJavaBaseArgsSig : Char → Bool
  | 'V' | 'Z' | 'B' | 'C' | 'S' | 'I' | 'J' | 'F' | 'D' => true
  | _ => false

/-- `s.c_str()`, read up to its NUL. -/
def cStr (s : Str) : Str := s.takeWhile (· ≠ '\x00')

/-- `get_class_args_type` of `split_args_sig`, at the pointer `psig + start`:
the text up to the next `;` and the pointer behind it.  The pointer is the
characters that are left. -/
def getClassArgsType : Str → Option (Str × Str)
  | [] => none
  | c :: s => if c = ';' then some ([c], s) else (getClassArgsType s).map fun r => (c :: r.1, r.2)

/-- `get_array_args_count` of `split_args_sig`: the number of `[` and the
pointer behind them. -/
def getArrayArgsCount : Str → Option (Nat × Str)
  | [] => none
  | c :: s => if c ≠ '[' then some (0, c :: s) else (getArrayArgsCount s).map fun r => (r.1 + 1, r.2)

/-- The loop of `split_args_sig`, with the pointer, `array` and `ret_sig`. -/
def splitArgsSigLoop : Nat → Str → Nat → List Str → Except Fault (Bool × List Str)
  | 0, _, _, _ => .error .diverges
  | _ + 1, [], _, ret => .ok (true, ret)
  | n + 1, c :: s, array, ret =>
      if c = '[' then
        match getArrayArgsCount (c :: s) with
        | none => .ok (false, ret)
        | some (array', s') => splitArgsSigLoop n s' array' ret
      else if c = 'L' then
        -- The source builds the `[` prefix first, and then assigns over it.
        match getClassArgsType (c :: s) with
        | none => .ok (false, ret)
        | some (sig, s') => splitArgsSigLoop n s' 0 (ret ++ [sig])
      else if isJavaBaseArgsSig c then
        splitArgsSigLoop n s 0 (ret ++ [List.replicate array '[' ++ [c]])
      else .ok (false, ret)

/-- `split_args_sig`, with positions without an end. -/
def splitArgsSig (argsSig : Str) (retSig : List Str) : Except Fault (Bool × List Str) :=
  splitArgsSigLoop ((cStr argsSig).length + 1) (cStr argsSig) 0 retSig

/-- `get_class_args_type` at the position `end`: the text up to the next `;`, and the
position and the pointer behind it. -/
def getClassArgsTypeInt : Int → Str → Except Fault (Option (Str × Int × Str))
  | _, [] => .ok none
  | «end», c :: s => do
      let next ← intResult («end» + 1)
      if c = ';' then .ok (some ([c], next, s))
      else do
        let r ← getClassArgsTypeInt next s
        .ok (r.map fun r => (c :: r.1, r.2))

/-- `get_array_args_count` at the position `end`: the number of `[`, and the position and
the pointer behind them. -/
def getArrayArgsCountInt : Int → Str → Except Fault (Option (Nat × Int × Str))
  | _, [] => .ok none
  | «end», c :: s =>
      if c ≠ '[' then .ok (some (0, «end», c :: s))
      else do
        let next ← intResult («end» + 1)
        let r ← getArrayArgsCountInt next s
        .ok (r.map fun r => (r.1 + 1, r.2))

/-- The loop of `split_args_sig`, with the position `p` and the pointer `psig + p`. -/
def splitArgsSigIntLoop : Nat → Int → Str → Nat → List Str → Except Fault (Bool × List Str)
  | 0, _, _, _, _ => .error .diverges
  | _ + 1, _, [], _, ret => .ok (true, ret)
  | n + 1, p, c :: s, array, ret =>
      if c = '[' then do
        let r ← getArrayArgsCountInt p (c :: s)
        match r with
        | none => .ok (false, ret)
        | some (array', p', s') => splitArgsSigIntLoop n p' s' array' ret
      else if c = 'L' then do
        let r ← getClassArgsTypeInt p (c :: s)
        match r with
        | none => .ok (false, ret)
        | some (sig, p', s') => splitArgsSigIntLoop n p' s' 0 (ret ++ [sig])
      else if isJavaBaseArgsSig c then do
        let p' ← intResult (p + 1)
        splitArgsSigIntLoop n p' s 0 (ret ++ [List.replicate array '[' ++ [c]])
      else .ok (false, ret)

/-- `split_args_sig`. -/
def splitArgsSigInt (argsSig : Str) (retSig : List Str) : Except Fault (Bool × List Str) :=
  splitArgsSigIntLoop ((cStr argsSig).length + 1) 0 (cStr argsSig) 0 retSig

/-! ## A JNI signature -/

/-- The out-parameters of `parse_java_signature`. -/
structure SignatureOut where
  argsType : List Str
  retType : Str
deriving DecidableEq

/-- `parse_java_signature`, with positions without an end. -/
def parseJavaSignature (signature : Str) (out : SignatureOut) :
    Except Fault (Bool × SignatureOut) :=
  let signature := cStr signature
  let p1 := toInt (find signature ['('])
  let p2 := toInt (find signature [')'])
  if p1 = -1 ∨ p2 = -1 ∨ p1 > p2 then .ok (false, out)
  else do
    let argsSig ← substr signature (p1 + 1) (p2 - p1 - 1)
    let split ← (if argsSig ≠ [] then splitArgsSig argsSig out.argsType
      else .ok (true, out.argsType))
    if split.1 = false then .ok (false, { out with argsType := split.2 })
    else do
      let retType ← substrFrom signature (p2 + 1)
      .ok (true, ⟨split.2, retType⟩)

/-- `parse_java_signature`. -/
def parseJavaSignatureInt (signature : Str) (out : SignatureOut) :
    Except Fault (Bool × SignatureOut) :=
  let signature := cStr signature
  let p1 := asInt (toInt (find signature ['(']))
  let p2 := asInt (toInt (find signature [')']))
  if p1 = -1 ∨ p2 = -1 ∨ p1 > p2 then .ok (false, out)
  else do
    let start ← intResult (p1 + 1)
    let gap ← intResult (p2 - p1)
    let n ← intResult (gap - 1)
    let argsSig ← substr signature start n
    let split ← (if argsSig ≠ [] then splitArgsSigInt argsSig out.argsType
      else .ok (true, out.argsType))
    if split.1 = false then .ok (false, { out with argsType := split.2 })
    else do
      let behind ← intResult (p2 + 1)
      let retType ← substrFrom signature behind
      .ok (true, ⟨split.2, retType⟩)

/-! ## The symbol of a native -/

/-- The out-parameters of `parse_java_lang_name`. -/
structure LangNameOut where
  className : Str
  methodName : Str
  argsType : List Str
  isOverride : Bool
deriving DecidableEq

/-- `v[i]` of a `std::vector`. -/
def vectorGet (v : List Str) (i : Nat) : Except Fault Str :=
  match v[i]? with
  | some s => .ok s
  | none => .error .undefined

/-- The characters before the symbol's own name. -/
def javaPrefix : Str := ['J', 'a', 'v', 'a', '_']

/-- `parse_java_lang_name`. -/
def parseJavaLangName (langName : Str) (out : LangNameOut) : Except Fault (Bool × LangNameOut) :=
  let langName := cStr langName
  if langName.length < 6 ∨ ¬ javaPrefix <+: langName then .ok (false, out)
  else
    let sysNameCpy := langName.drop 5
    if find sysNameCpy ['_', '0'] ≠ none then .ok (false, out)
    else do
      let split ← stringSplitInt sysNameCpy ['_', '_']
      if split.length ≠ 1 ∧ split.length ≠ 2 then .ok (false, out)
      else do
        let isOverride := decide (find sysNameCpy ['_', '_'] ≠ none)
        let spSysName := if isOverride then split else split ++ [[]]
        let out := { out with isOverride }
        let apiSig ← vectorGet spSysName 0
        let argsSig ← vectorGet spSysName 1
        let apiSig ← replaceAll apiSig ['_'] ['.']
        let apiSig ← replaceAll apiSig ['.', '1'] ['_']
        if apiSig.count '.' < 1 then .ok (false, out)
        else do
          let «end» := asInt (toInt (findLastOf apiSig '.'))
          let className ← substr apiSig 0 «end»
          let behind ← intResult («end» + 1)
          let methodName ← substrFrom apiSig behind
          let out := { out with className, methodName }
          if className = [] ∨ methodName = [] then .ok (false, out)
          else if isOverride then do
            let argsSig ← replaceAll argsSig ['_', '2'] [';']
            let argsSig ← replaceAll argsSig ['_', '3'] ['[']
            let split ← splitArgsSigInt argsSig out.argsType
            .ok (split.1, { out with argsType := split.2 })
          else .ok (true, out)

/-! ## A printed method -/

/-- `make_sig` of `conv_java_type_2_sig_type`. -/
def makeSig (sig : Str) (array : Nat) : Str := List.replicate array '[' ++ sig

/-- The end of `conv_java_type_2_sig_type`, where `cpy_str` has no brackets. -/
def makeBaseSig (cpyStr : Str) (array : Nat) : Except Fault Str :=
  if cpyStr = "void".toList then .ok (makeSig ['V'] array)
  else if cpyStr = "boolean".toList then .ok (makeSig ['Z'] array)
  else if cpyStr = "byte".toList then .ok (makeSig ['B'] array)
  else if cpyStr = "char".toList then .ok (makeSig ['C'] array)
  else if cpyStr = "short".toList then .ok (makeSig ['S'] array)
  else if cpyStr = "int".toList then .ok (makeSig ['I'] array)
  else if cpyStr = "long".toList then .ok (makeSig ['J'] array)
  else if cpyStr = "float".toList then .ok (makeSig ['F'] array)
  else if cpyStr = "double".toList then .ok (makeSig ['D'] array)
  else do
    let name ← replaceAll cpyStr ['.'] ['/']
    .ok (makeSig ('L' :: name ++ [';']) array)

/-- `conv_java_type_2_sig_type`, with a count without an end. -/
def convJavaType2SigType (typeName : Str) : Except Fault Str :=
  if find typeName ['['] ≠ none ∧ find typeName [']'] ≠ none then do
    let cpyStr ← replaceAll typeName ['['] []
    let cpyStr ← replaceAll cpyStr [']'] []
    makeBaseSig cpyStr (typeName.count '[')
  else makeBaseSig typeName 0

/-- `conv_java_type_2_sig_type`.  No bracket is made for a negative count. -/
def convJavaType2SigTypeInt (typeName : Str) : Except Fault Str :=
  if find typeName ['['] ≠ none ∧ find typeName [']'] ≠ none then do
    let cpyStr ← replaceAll typeName ['['] []
    let cpyStr ← replaceAll cpyStr [']'] []
    makeBaseSig cpyStr (asInt (typeName.count '[')).toNat
  else makeBaseSig typeName 0

/-- The out-parameters of `parse_java_pretty_name`. -/
structure PrettyNameOut where
  className : Str
  methodName : Str
  argsType : List Str
  retType : Str
deriving DecidableEq

/-- `parse_java_pretty_name`, with positions without an end. -/
def parseJavaPrettyName (decl : Str) (out : PrettyNameOut) : Except Fault (Bool × PrettyNameOut) :=
  if decl.count ' ' < 1 then .ok (false, out)
  else
    let start := toInt (find decl ['('])
    let «end» := toInt (find decl [')'])
    if «end» - start < 1 ∨ start = -1 ∨ «end» = -1 then .ok (false, out)
    else do
      let args ← substr decl (start + 1) («end» - start - 1)
      let args ← replaceAll args [' '] []
      let items ← stringSplit args [',']
      let argsType ← items.mapM convJavaType2SigType
      let out := { out with argsType }
      let p := toInt (findLastOfUpTo decl ' ' start)
      if start - p ≤ 1 ∨ p = -1 then .ok (false, out)
      else do
        let classMethod ← substr decl (p + 1) (start - p - 1)
        if classMethod = [] then .ok (false, out)
        else
          let ppoint := toInt (findLastOf classMethod '.')
          if ppoint = -1 then .ok (false, out)
          else do
            let methodName ← substrFrom classMethod (ppoint + 1)
            let className ← substr classMethod 0 ppoint
            let out := { out with methodName, className }
            if methodName = [] ∨ className = [] then .ok (false, out)
            else
              let p2 := toInt (findLastOfUpTo decl ' ' (p - 1))
              if p2 ≠ -1 ∧ p - p2 - 1 < 1 then .ok (false, out)
              else do
                let retType ← (if p2 = -1 then substr decl 0 p
                  else substr decl (p2 + 1) (p - p2 - 1))
                if retType = [] then .ok (false, { out with retType })
                else do
                  let retType ← convJavaType2SigType retType
                  .ok (true, { out with retType })

/-- `parse_java_pretty_name`. -/
def parseJavaPrettyNameInt (decl : Str) (out : PrettyNameOut) :
    Except Fault (Bool × PrettyNameOut) :=
  if decl.count ' ' < 1 then .ok (false, out)
  else do
    let start := asInt (toInt (find decl ['(']))
    let «end» := asInt (toInt (find decl [')']))
    let gap ← intResult («end» - start)
    if gap < 1 ∨ start = -1 ∨ «end» = -1 then .ok (false, out)
    else do
      let i ← intResult (start + 1)
      let n ← intResult (gap - 1)
      let args ← substr decl i n
      let args ← replaceAll args [' '] []
      let items ← stringSplitInt args [',']
      let argsType ← items.mapM convJavaType2SigTypeInt
      let out := { out with argsType }
      let p := asInt (toInt (findLastOfUpTo decl ' ' start))
      let gap ← intResult (start - p)
      if gap ≤ 1 ∨ p = -1 then .ok (false, out)
      else do
        let i ← intResult (p + 1)
        let n ← intResult (gap - 1)
        let classMethod ← substr decl i n
        if classMethod = [] then .ok (false, out)
        else
          let ppoint := asInt (toInt (findLastOf classMethod '.'))
          if ppoint = -1 then .ok (false, out)
          else do
            let i ← intResult (ppoint + 1)
            let methodName ← substrFrom classMethod i
            let className ← substr classMethod 0 ppoint
            let out := { out with methodName, className }
            if methodName = [] ∨ className = [] then .ok (false, out)
            else do
              let i ← intResult (p - 1)
              let p2 := asInt (toInt (findLastOfUpTo decl ' ' i))
              let place ← (if p2 = -1 then .ok (some (0, p))
                else do
                  let gap ← intResult (p - p2)
                  let n ← intResult (gap - 1)
                  if n < 1 then .ok none
                  else do
                    let i ← intResult (p2 + 1)
                    .ok (some (i, n)))
              match place with
              | none => .ok (false, out)
              | some (i, n) => do
                  let retType ← substr decl i n
                  if retType = [] then .ok (false, { out with retType })
                  else do
                    let retType ← convJavaType2SigTypeInt retType
                    .ok (true, { out with retType })

/-! ## One descriptor -/

/-- `args_type_t`. -/
structure ArgsType where
  sig : Str
  innerBaseType : Str
  arrayDim : Int
deriving DecidableEq

/-- `conv_sig_2_args_type`, with the counter of the loops of `replace_all` and
the value that the `array_dim` of `ret` has before it is assigned. -/
def convSig2ArgsType (n : Nat) (arrayDim : Int) (sig : Str) : Except Fault ArgsType := do
  let ret : ArgsType := { sig, innerBaseType := sig, arrayDim }
  let ret ←
    if ret.innerBaseType.headD '\x00' = '[' then do
      let dim := asInt (ret.innerBaseType.count '.')
      let inner ← replaceAllLoop n ret.innerBaseType ['['] []
      .ok { ret with innerBaseType := inner, arrayDim := dim }
    else .ok ret
  if sig.headD '\x00' = 'L' then do
    let inner ← substr ret.innerBaseType 1 (ret.innerBaseType.length - 2)
    let inner ← replaceAllLoop n inner ['_'] ['_', '1']
    let inner ← replaceAllLoop n inner ['/'] ['_']
    .ok { ret with innerBaseType := inner }
  else .ok ret

end HookJni
