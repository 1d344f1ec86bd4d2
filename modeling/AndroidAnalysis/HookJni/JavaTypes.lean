import AndroidAnalysis.Cpp.String

/-!
# Java types and methods as text

What the readers of `parse_java_sig.cpp` are given.  A type is a primitive or a
class under some number of array dimensions.  It has two texts, its name in
Java (`int[][]`) and its JNI descriptor (`[[I`), and a printed method is made
of the first kind.  Class names are a parameter of the types, so that a result
can say which names it is about.
-/

namespace HookJni

open Cpp

/-! ## Types -/

/-- The primitive types. -/
inductive Prim
  | boolean
  | byte
  | char
  | short
  | int
  | long
  | float
  | double
deriving DecidableEq

/-- A type without array dimensions, with class names of type `N`. -/
inductive BaseType (N : Type)
  | prim (p : Prim)
  | cls (name : N)
deriving DecidableEq

/-- A type: `dim` array dimensions of a base. -/
structure JavaType (N : Type) where
  dim : Nat
  base : BaseType N
deriving DecidableEq

/-- The keyword of a primitive type. -/
def Prim.keyword : Prim → Str
  | .boolean => "boolean".toList
  | .byte => "byte".toList
  | .char => "char".toList
  | .short => "short".toList
  | .int => "int".toList
  | .long => "long".toList
  | .float => "float".toList
  | .double => "double".toList

/-- The descriptor of a primitive type. -/
def Prim.letter : Prim → Char
  | .boolean => 'Z'
  | .byte => 'B'
  | .char => 'C'
  | .short => 'S'
  | .int => 'I'
  | .long => 'J'
  | .float => 'F'
  | .double => 'D'

section
variable {N : Type}

/-- The descriptor of a base, from the slash form of class names. -/
def BaseType.descriptor (slash : N → Str) : BaseType N → Str
  | .prim p => [p.letter]
  | .cls n => 'L' :: slash n ++ [';']

/-- The descriptor of a type. -/
def JavaType.descriptor (slash : N → Str) (t : JavaType N) : Str :=
  List.replicate t.dim '[' ++ t.base.descriptor slash

/-- The Java name of a base, from the dotted form of class names. -/
def BaseType.javaName (dotted : N → Str) : BaseType N → Str
  | .prim p => p.keyword
  | .cls n => dotted n

/-- The Java name of a type. -/
def JavaType.javaName (dotted : N → Str) (t : JavaType N) : Str :=
  t.base.javaName dotted ++ (List.replicate t.dim ['[', ']']).flatten

end

/-! ## Names -/

/-- The keywords that stand where a class name could. -/
def keywords : List Str :=
  "void".toList ::
    [Prim.boolean, .byte, .char, .short, .int, .long, .float, .double].map Prim.keyword

/-- The characters that end a name in the text of a method. -/
def stops : List Char := [' ', ',', '(', ')', '[', ']']

/-- A name the text of a method can hold. -/
def Plain (s : Str) : Prop := s ≠ [] ∧ ∀ c ∈ s, c ∉ stops

instance (s : Str) : Decidable (Plain s) := inferInstanceAs (Decidable (_ ∧ _))

/-- The dotted name of a class. -/
structure ClassName where
  chars : Str
  plain : Plain chars
  not_keyword : chars ∉ keywords

/-- The slash form of a class name. -/
def ClassName.slash (n : ClassName) : Str := n.chars.map fun c => if c = '.' then '/' else c

/-- The name of a method. -/
structure MethodName where
  chars : Str
  plain : Plain chars
  not_dotted : '.' ∉ chars

theorem Prim.keyword_mem (p : Prim) : p.keyword ∈ keywords := by
  cases p <;> decide

theorem Prim.keyword_plain (p : Prim) : Plain p.keyword := by
  cases p <;> decide

theorem Plain.notMem {s : Str} (h : Plain s) {c : Char} (hc : c ∈ stops) : c ∉ s :=
  fun hs => h.2 c hs hc

/-! ## Methods -/

/-- A method: its class, its name, its parameters and its result, which is
`none` for `void`. -/
structure JavaMethod where
  className : ClassName
  methodName : MethodName
  params : List (JavaType ClassName)
  ret : Option (JavaType ClassName)

/-- The Java name of a result. -/
def retName : Option (JavaType ClassName) → Str
  | some t => t.javaName ClassName.chars
  | none => "void".toList

/-- The descriptor of a result. -/
def retDescriptor : Option (JavaType ClassName) → Str
  | some t => t.descriptor ClassName.slash
  | none => ['V']

/-- The descriptors of the parameters. -/
def JavaMethod.descriptors (m : JavaMethod) : List Str :=
  m.params.map (JavaType.descriptor ClassName.slash)

/-- The text of a method: modifiers each followed by a space, the result, the
qualified name, the parameters with `sep` between them, and a tail. -/
def JavaMethod.print (m : JavaMethod) (mods : List Str) (sep tail : Str) : Str :=
  mods.flatMap (· ++ [' ']) ++ retName m.ret ++ ' ' ::
    (m.className.chars ++ '.' :: m.methodName.chars ++ '(' ::
      (sep.intercalate (m.params.map (JavaType.javaName ClassName.chars)) ++ ')' :: tail))

end HookJni
