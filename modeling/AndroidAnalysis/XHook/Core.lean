import AndroidAnalysis.XHook.ElfHook
import AndroidAnalysis.XHook.ElfInit

/-!
# The hooks of the process

Hooks are registered for the libraries whose path a regular expression matches, before
the first refresh.  A refresh reads the mappings of the process, and hooks each library
that is new or was moved.  Of the mappings of a library the first one counts.

Whether a library is looked at is decided by the first hook that matches its path: if
that one is ignored there, so are all others.
-/

namespace XHook

open Machine

/-- `xh_core_hook_info_t` -/
structure HookInfo (Re : Type) where
  pathnameRegex : Re
  symbol : CStr
  newFunc : BitVec 64
  oldFunc : Option (BitVec 64)

/-- `xh_core_ignore_info_t`, for all symbols where it has none -/
structure IgnoreInfo (Re : Type) where
  pathnameRegex : Re
  symbol : Option CStr

/-- `xh_core_map_info_t` -/
structure MapInfo where
  pathname : List Char
  baseAddr : BitVec 64
  deriving DecidableEq, Repr

/-- The state of the library: whether it was started, what was registered, the libraries
of the last refresh, and the memory of the process. -/
structure Core (Re : Type) where
  inited : Bool
  hookInfo : List (HookInfo Re)
  ignoreInfo : List (IgnoreInfo Re)
  mapInfo : List MapInfo
  mem : Mem

namespace Core

variable {Re : Type} (regcomp : List Char → Option Re) (regexec : Re → List Char → Bool)

/-- `xh_core_register` -/
def register (core : Core Re) (pathnameRegexStr : Option (List Char)) (symbol : Option CStr)
    (newFunc : BitVec 64) (oldFunc : Option (BitVec 64)) : Option Errno × Core Re :=
  match pathnameRegexStr, symbol with
  | some pathnameRegexStr, some symbol =>
      if newFunc = 0 then (some .inval, core)
      else if core.inited then (some .inval, core)
      else
        match regcomp pathnameRegexStr with
        | none => (some .inval, core)
        | some pathnameRegex =>
            (none, { core with
              hookInfo := core.hookInfo ++ [⟨pathnameRegex, symbol, newFunc, oldFunc⟩] })
  | _, _ => (some .inval, core)

/-- `xh_core_ignore` -/
def ignore (core : Core Re) (pathnameRegexStr : Option (List Char)) (symbol : Option CStr) :
    Option Errno × Core Re :=
  match pathnameRegexStr with
  | some pathnameRegexStr =>
      if core.inited then (some .inval, core)
      else
        match regcomp pathnameRegexStr with
        | none => (some .inval, core)
        | some pathnameRegex =>
            (none, { core with ignoreInfo := core.ignoreInfo ++ [⟨pathnameRegex, symbol⟩] })
  | none => (some .inval, core)

/-- What an ignore says about a symbol of a library: nothing, to leave it out, or to
leave all symbols out -/
inductive Ignored
  | no | symbol | all
  deriving DecidableEq, Repr

/-- The first ignore that says something about a symbol of a library -/
def ignoredBy (core : Core Re) (pathname : List Char) (symbol : CStr) : Ignored :=
  match core.ignoreInfo.find? fun ii => regexec ii.pathnameRegex pathname &&
      (ii.symbol.isNone || decide (ii.symbol = some symbol)) with
  | none => .no
  | some ii => if ii.symbol.isNone then .all else .symbol

/-- The loop of `xh_core_hook_impl` over the hooks.  It gives nothing where a hook does
not return. -/
def hookLoop (core : Core Re) (os : Os) (pathname : List Char) (elf : Elf) :
    List (HookInfo Re) → Mem → Option Mem
  | [], m => some m
  | hi :: his, m =>
      if regexec hi.pathnameRegex pathname then
        match core.ignoredBy regexec pathname hi.symbol with
        | .all => some m
        | .symbol => core.hookLoop os pathname elf his m
        | .no =>
            match elfHook os elf hi.newFunc hi.oldFunc (some hi.symbol) m with
            | none => none
            | some (_, m) => core.hookLoop os pathname elf his m
      else core.hookLoop os pathname elf his m

/-- `xh_core_hook` -/
def hook (core : Core Re) (os : Os) (mi : MapInfo) (m : Mem) : Option Mem :=
  match elfInit m mi.baseAddr (some mi.pathname) with
  | .error _ => some m
  | .ok elf => core.hookLoop regexec os mi.pathname elf core.hookInfo m

/-- Whether `xh_core_refresh_impl` looks at a library: the first hook that matches its
path decides. -/
def checkPathname (core : Core Re) (pathname : List Char) : Bool :=
  match core.hookInfo.find? fun hi => regexec hi.pathnameRegex pathname with
  | none => false
  | some hi => core.ignoredBy regexec pathname hi.symbol == .no

/-- Whether a line of `/proc/self/maps` can be the start of a library that is looked at -/
def checkLine (core : Core Re) (line : MapsLine) : Bool :=
  line.allows 0 'r' && line.allows 3 'p' && line.offset == 0 && !line.pathname.isEmpty &&
    line.pathname.head? != some '[' && core.checkPathname regexec line.pathname

/-- What `xh_core_refresh_impl` works on: the libraries it knew and has not met again,
those it has met, and the memory -/
structure Refreshing where
  known : List MapInfo
  refreshed : List MapInfo
  mem : Mem

/-- A path is in a list of libraries -/
def hasPath (pathname : List Char) (mis : List MapInfo) : Bool :=
  mis.any fun mi => mi.pathname == pathname

/-- A library is met: it is hooked, but for one that was known at the same address -/
def meet (core : Core Re) (os : Os) (st : Refreshing) (mi : MapInfo) (hooked : Bool) :
    Option Refreshing :=
  if hasPath mi.pathname st.refreshed then some st
  else
    let st := { st with refreshed := st.refreshed ++ [mi] }
    if hooked then some st
    else
      match core.hook regexec os mi st.mem with
      | none => none
      | some mem => some { st with mem }

/-- A line of `/proc/self/maps` in `xh_core_refresh_impl` -/
def refreshLine (core : Core Re) (os : Os) (st : Refreshing) (line : MapsLine) :
    Option Refreshing :=
  if !core.checkLine regexec line then some st
  else if elfCheckElfheader st.mem line.start ≠ none then some st
  else
    let mi : MapInfo := ⟨line.pathname, line.start⟩
    match st.known.find? fun k => k.pathname == line.pathname with
    | some k =>
        let st := { st with known := st.known.eraseP fun k => k.pathname == line.pathname }
        core.meet regexec os st mi (k.baseAddr == line.start)
    | none => core.meet regexec os st mi false

/-- The lines of `/proc/self/maps` -/
def refreshLoop (core : Core Re) (os : Os) : Refreshing → List MapsLine → Option Refreshing
  | st, [] => some st
  | st, line :: lines =>
      match core.refreshLine regexec os st line with
      | none => none
      | some st => core.refreshLoop os st lines

/-- `xh_core_refresh_impl` -/
def refreshImpl (core : Core Re) (os : Os) : Option (Core Re) :=
  match os.maps with
  | none => some core
  | some lines =>
      match core.refreshLoop regexec os ⟨core.mapInfo, [], core.mem⟩ lines with
      | none => none
      | some st => some { core with mapInfo := st.refreshed, mem := st.mem }

/-- `xh_core_refresh`, where the handler of `SIGSEGV` can be installed -/
def refresh (core : Core Re) (os : Os) : Option (Core Re) :=
  ({ core with inited := true } : Core Re).refreshImpl regexec os

/-- `xh_core_clear`.  The slots stay as they are. -/
def clear (core : Core Re) : Core Re :=
  { core with inited := false, hookInfo := [], ignoreInfo := [], mapInfo := [] }

end Core

end XHook
