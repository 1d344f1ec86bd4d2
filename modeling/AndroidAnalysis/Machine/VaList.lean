import AndroidAnalysis.Machine.Memory

/-!
# The AArch64 `va_list`

The part of `va_arg` that takes a general argument of at most eight bytes: from
the register save area while there is some left, and from the stack after that.
-/

namespace Machine

/-- The fields of a `va_list` that a general argument is found through. -/
@[ext]
structure VaList where
  stack : Nat
  grTop : Nat
  grOffs : Int
deriving DecidableEq

/-- The doubleword at an address, as an address. -/
def readAddr (m : Mem) (a : Nat) : Nat := (read64 m a).toNat

/-- A `va_list` at an address. -/
def readVaList (m : Mem) (a : Nat) : VaList where
  stack := readAddr m a
  grTop := readAddr m (a + 8)
  grOffs := (readBytes m (a + 24) 4).toInt

/-- `va_arg` of a general argument of `n` bytes, at most eight. -/
def vaArg (m : Mem) (n : Nat) (ap : VaList) : BitVec 64 × VaList :=
  if ap.grOffs ≥ 0 then fromStack ap
  else if ap.grOffs + 8 > 0 then fromStack { ap with grOffs := ap.grOffs + 8 }
  else
    ((readBytes m (ap.grTop + ap.grOffs).toNat n).setWidth 64, { ap with grOffs := ap.grOffs + 8 })
where
  /-- The next doubleword of the stack. -/
  fromStack (ap : VaList) : BitVec 64 × VaList :=
    ((readBytes m ap.stack n).setWidth 64, { ap with stack := (ap.stack + n + 7) / 8 * 8 })

end Machine
