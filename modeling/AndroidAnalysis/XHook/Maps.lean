import AndroidAnalysis.XHook.Sleb128Decoder

/-!
# The mappings of the process

`/proc/self/maps` lists the mapped ranges of the process with what they may be used
for.  The PLT hook reads it to learn where libraries are, and how the page of a slot
is protected before it writes there.
-/

namespace XHook

open Machine

/-- A line of `/proc/self/maps`, and what `sscanf` reads from it. -/
structure MapsLine where
  text : List Char
  start : BitVec 64
  stop : BitVec 64
  perm : List Char
  offset : BitVec 64
  pathname : List Char
  deriving DecidableEq, Repr

/-- `PROT_READ`, `PROT_WRITE` and `PROT_EXEC` -/
structure Prot where
  read : Bool
  write : Bool
  exec : Bool
  deriving DecidableEq, Repr

/-- `PROT_READ | PROT_WRITE` -/
def Prot.readWrite : Prot := ⟨true, true, false⟩

/-- Whether a line says that something is allowed -/
def MapsLine.allows (line : MapsLine) (i : Nat) (c : Char) : Bool := line.perm[i]? == some c

/-- What a line allows -/
def MapsLine.prot (line : MapsLine) : Prot :=
  ⟨line.allows 0 'r', line.allows 1 'w', line.allows 2 'x'⟩

/-- What is allowed by both -/
def Prot.and (p q : Prot) : Prot := ⟨p.read && q.read, p.write && q.write, p.exec && q.exec⟩

/-- The loop of `xh_util_get_mem_protect`: the first range gives what is allowed, and
the next ones take away from it. -/
def getMemProtectLoop (pathname : List Char) (endAddr : BitVec 64) :
    List MapsLine → (startAddr : BitVec 64) → (prot : Option Prot) → Except Errno Prot
  | [], _, _ => .error .segverr
  | line :: lines, startAddr, prot =>
      if ¬ pathname <:+: line.text then getMemProtectLoop pathname endAddr lines startAddr prot
      else if !line.allows 3 'p' then getMemProtectLoop pathname endAddr lines startAddr prot
      else if line.start ≤ startAddr ∧ startAddr < line.stop then
        let prot := match prot with
          | none => line.prot
          | some prot => prot.and line.prot
        if endAddr ≤ line.stop then .ok prot
        else getMemProtectLoop pathname endAddr lines line.stop (some prot)
      else getMemProtectLoop pathname endAddr lines startAddr prot

/-- What the system answers: the lines of `/proc/self/maps`, if it can be read, and
the error number of `mprotect`, if it fails. -/
structure Os where
  maps : Option (List MapsLine)
  mprotect : BitVec 64 → Prot → Option Nat

/-- `xh_util_get_addr_protect` -/
def getAddrProtect (os : Os) (addr : BitVec 64) (pathname : List Char) : Except Errno Prot :=
  match os.maps with
  | none => .error .badmaps
  | some lines => getMemProtectLoop pathname (addr + 8) lines addr none

/-- `xh_util_set_addr_protect` -/
def setAddrProtect (os : Os) (addr : BitVec 64) (prot : Prot) : Except Errno Unit :=
  match os.mprotect addr prot with
  | none => .ok ()
  | some 0 => .error .unknown
  | some errno => .error (.sys errno)

end XHook
