import AndroidAnalysis.Cpp.String

/-!
# `utils/jni_helper.cpp`

`Reflection` is the virtual machine's side of the program's own JNI calls: the
answers to the calls it makes on an object, which it knows by its reference.
-/

namespace Utils

open Cpp

/-- The calls into the virtual machine, by the reference of their receiver. -/
structure Reflection where
  /-- `GetObjectClass`. -/
  getObjectClass : BitVec 64 → BitVec 64
  /-- `toString`. -/
  toString : BitVec 64 → Str
  /-- `Class.forName`, null when it throws. -/
  forName : Str → Option (BitVec 64)
  /-- `FindClass`. -/
  findClass : Str → Option (BitVec 64)
  /-- The `getName` and the `toString` of each of `getDeclaredMethods`. -/
  declaredMethods : BitVec 64 → List (Str × Str)

/-- `get_object_class_name`: the text of the object's class, from behind the
first space on.  Without a space `find` gives `npos`, and `npos + 1` is `0`. -/
def getObjectClassName (refl : Reflection) (obj : BitVec 64) : Except Fault Str :=
  let ret := refl.toString (refl.getObjectClass obj)
  substrFrom ret (toInt (find ret [' ']) + 1)

/-- The position behind a find is in the string. -/
theorem substrFrom_find_succ (s : Str) (c : Char) :
    substrFrom s (toInt (find s [c]) + 1) = .ok (s.drop (toInt (find s [c]) + 1).toNat) := by
  have hle : toInt (find s [c]) + 1 ≤ s.length := by
    cases hf : find s [c] with
    | none => rw [toInt_none]; omega
    | some k =>
        obtain ⟨pre, post, rfl, rfl⟩ := find_eq_some_append hf
        rw [toInt_some, List.length_append, List.length_append, List.length_singleton]
        omega
  have hpos : 0 ≤ toInt (find s [c]) + 1 := by
    cases find s [c] with
    | none => rw [toInt_none]; omega
    | some k => rw [toInt_some]; omega
  rw [substrFrom, substr, if_pos ⟨hpos, hle⟩, if_pos (by omega)]

/-- A class name is always read. -/
theorem getObjectClassName_ok (refl : Reflection) (obj : BitVec 64) :
    ∃ name, getObjectClassName refl obj = .ok name :=
  ⟨_, substrFrom_find_succ _ ' '⟩

end Utils
