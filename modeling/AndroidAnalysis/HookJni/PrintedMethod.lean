import AndroidAnalysis.HookJni.ParsePrettyName
import AndroidAnalysis.HookJni.ReadersInRange

/-!
# The two texts of a method

`Method.toString` of Java writes the modifiers and the `throws` clause around a
method and a comma between its parameters, and the virtual machine's
`PrettyMethod` writes neither and a comma and a space.  Both are
`JavaMethod.print`, so `parse_java_pretty_name` reads the same from both, as long as
the text is shorter than `2^31`.
-/

namespace HookJni

open Cpp

/-- A word before a method, such as a modifier. -/
structure Modifier where
  chars : Str
  plain : Plain chars

/-- The `throws` clause of a method. -/
def throwsClause : List ClassName → Str
  | [] => []
  | n :: ns => " throws ".toList ++ [','].intercalate ((n :: ns).map ClassName.chars)

/-- What `Method.toString` returns. -/
def JavaMethod.toString (m : JavaMethod) (mods : List Modifier) (exceptions : List ClassName) :
    Str :=
  m.print (mods.map Modifier.chars) [','] (throwsClause exceptions)

/-- What `PrettyMethod` returns. -/
def JavaMethod.prettyMethod (m : JavaMethod) : Str := m.print [] [',', ' '] []

/-- What is read of a method. -/
def JavaMethod.fields (m : JavaMethod) : PrettyNameOut :=
  ⟨m.className.chars, m.methodName.chars, m.descriptors, retDescriptor m.ret⟩

/-- Either text of a method is read with positions without an end. -/
theorem parseJavaPrettyName_texts (m : JavaMethod) (mods : List Modifier)
    (exceptions : List ClassName) (out : PrettyNameOut) :
    parseJavaPrettyName (m.toString mods exceptions) out = .ok (true, m.fields) ∧
      parseJavaPrettyName m.prettyMethod out = .ok (true, m.fields) := by
  have hmods : ∀ x ∈ mods.map Modifier.chars, Plain x := by
    intro x hx
    obtain ⟨w, -, rfl⟩ := List.mem_map.mp hx
    exact w.plain
  constructor
  · exact parseJavaPrettyName_print m hmods (.inl rfl) (throwsClause exceptions) out
  · exact parseJavaPrettyName_print m (fun _ hx => absurd hx List.not_mem_nil) (.inr rfl) [] out

/-- `parse_java_pretty_name` reads the class, the name, and the descriptors of
the parameters and the result of a method from either text of it that is shorter than
`2^31`, whatever the out-parameters held. -/
theorem parseJavaPrettyNameInt_texts (m : JavaMethod) (mods : List Modifier)
    (exceptions : List ClassName) (out : PrettyNameOut) :
    ((m.toString mods exceptions).length < 2147483648 →
        parseJavaPrettyNameInt (m.toString mods exceptions) out = .ok (true, m.fields)) ∧
      (m.prettyMethod.length < 2147483648 →
        parseJavaPrettyNameInt m.prettyMethod out = .ok (true, m.fields)) := by
  obtain ⟨htoString, hpretty⟩ := parseJavaPrettyName_texts m mods exceptions out
  constructor
  · intro h
    rw [parseJavaPrettyNameInt_of_lt h, htoString]
  · intro h
    rw [parseJavaPrettyNameInt_of_lt h, hpretty]

/-- The method `int b.B.h(int[][], java.lang.String)`. -/
def methodOfB : JavaMethod where
  className := ⟨"b.B".toList, by decide, by decide⟩
  methodName := ⟨"h".toList, by decide, by decide⟩
  params := [⟨2, .prim .int⟩, ⟨0, .cls ⟨"java.lang.String".toList, by decide, by decide⟩⟩]
  ret := some ⟨0, .prim .int⟩

/-- Its two texts are read. -/
theorem parseJavaPrettyNameInt_texts_of_b :
    methodOfB.toString [⟨"native".toList, by decide⟩] [⟨"b.E".toList, by decide, by decide⟩] =
        "native int b.B.h(int[][],java.lang.String) throws b.E".toList ∧
      methodOfB.prettyMethod = "int b.B.h(int[][], java.lang.String)".toList ∧
      parseJavaPrettyNameInt (methodOfB.toString [⟨"native".toList, by decide⟩]
          [⟨"b.E".toList, by decide, by decide⟩]) ⟨[], [], [], []⟩ = .ok (true, methodOfB.fields) ∧
      parseJavaPrettyNameInt methodOfB.prettyMethod ⟨[], [], [], []⟩ =
        .ok (true, methodOfB.fields) :=
  have h := parseJavaPrettyNameInt_texts methodOfB [⟨"native".toList, by decide⟩]
    [⟨"b.E".toList, by decide, by decide⟩] ⟨[], [], [], []⟩
  ⟨by decide, by decide, h.1 (by decide), h.2 (by decide)⟩

end HookJni
