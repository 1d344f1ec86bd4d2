import AndroidAnalysis.Cpp.StdMap

/-!
# `hook_jni/global_code.cpp`

The environment of each thread.  `g_map_jnievn` goes from kernel thread ids to
`JNIEnv` pointers, `push_origin_env` inserts into it and `get_origin_env` looks
a thread up.  Both hold the lock while they use the map, so a run of any number
of threads is a list of calls, each made under a thread id.

`E` is the type of the non-null `JNIEnv` pointers, and a null pointer is `none`.
-/

namespace HookJni

open Cpp

variable {E : Type}

/-- `g_map_jnievn`. -/
abbrev EnvMap (E : Type) := StdMap Int E

/-- `push_origin_env` on the thread `tid`. -/
def pushOriginEnv (m : EnvMap E) (tid : Int) (originEnv : E) : EnvMap E := m.insert tid originEnv

/-- `get_origin_env` on the thread `tid`. -/
def getOriginEnv (m : EnvMap E) (tid : Int) : Option E := m tid

/-- A call of one of the two functions. -/
inductive EnvCall (E : Type)
  | push (tid : Int) (originEnv : E)
  | get (tid : Int)
deriving DecidableEq

/-- A call's effect on the map. -/
def stepEnv (m : EnvMap E) : EnvCall E → EnvMap E
  | .push tid originEnv => pushOriginEnv m tid originEnv
  | .get _ => m

/-- The map after a list of calls. -/
def runEnv (calls : List (EnvCall E)) : EnvMap E := calls.foldl stepEnv StdMap.empty

/-- What a call pushes. -/
def EnvCall.pushed : EnvCall E → Option (Int × E)
  | .push tid originEnv => some (tid, originEnv)
  | .get _ => none

/-- The pushes of a list of calls. -/
def pushes (calls : List (EnvCall E)) : List (Int × E) := calls.filterMap EnvCall.pushed

/-- The environment of the latest push on a thread. -/
def latestPush (calls : List (EnvCall E)) (tid : Int) : Option E := lastWrite (pushes calls) tid

/-- A run inserts its pushes. -/
theorem runEnv_eq (calls : List (EnvCall E)) :
    runEnv calls = StdMap.empty.insertAll (pushes calls) := by
  have hfrom (m : EnvMap E) : calls.foldl stepEnv m = m.insertAll (pushes calls) := by
    induction calls generalizing m with
    | nil => rfl
    | cons c calls ih =>
        rw [List.foldl_cons, ih]
        cases c with
        | push tid originEnv => rfl
        | get tid => rfl
  exact hfrom StdMap.empty

/-- After a run, a thread has the environment of its first push. -/
theorem getOriginEnv_runEnv (calls : List (EnvCall E)) (tid : Int) :
    getOriginEnv (runEnv calls) tid = firstWrite (pushes calls) tid := by
  rw [getOriginEnv, runEnv_eq, StdMap.insertAll_apply]
  exact Option.none_or

/-- A push gives the thread an environment when it has none. -/
theorem getOriginEnv_pushOriginEnv_eq (m : EnvMap E) (tid tid' : Int) (originEnv : E) :
    getOriginEnv (pushOriginEnv m tid originEnv) tid' =
      (getOriginEnv m tid').or (if tid = tid' then some originEnv else none) :=
  StdMap.insert_apply m tid tid' originEnv

/-- An environment that is known for a thread stays known. -/
theorem getOriginEnv_pushOriginEnv {m : EnvMap E} {tid : Int} {originEnv : E}
    (h : getOriginEnv m tid = some originEnv) (tid' : Int) (originEnv' : E) :
    getOriginEnv (pushOriginEnv m tid' originEnv') tid = some originEnv :=
  StdMap.insert_of_some h tid' originEnv'

/-- After a push, the thread has an environment. -/
theorem getOriginEnv_pushOriginEnv_self (m : EnvMap E) (tid : Int) (originEnv : E) :
    (getOriginEnv (pushOriginEnv m tid originEnv) tid).isSome := by
  rw [getOriginEnv_pushOriginEnv_eq, if_pos rfl]
  cases getOriginEnv m tid <;> rfl

/-- The prefixes of the pushes are the pushes of the prefixes. -/
theorem forall_prefix_pushes {calls : List (EnvCall E)} {P : List (Int × E) → Prop} :
    (∀ p, p <+: calls → P (pushes p)) ↔ ∀ q, q <+: pushes calls → P q := by
  constructor
  · rintro h q ⟨r, hqr⟩
    obtain ⟨p, p', hp, hq, -⟩ := List.filterMap_eq_append_iff.mp hqr.symm
    exact hq ▸ h p ⟨p', hp.symm⟩
  · exact fun h p hp => h _ (hp.filterMap EnvCall.pushed)

/-- At every time of a run, every thread has the environment of its latest push,
exactly when no thread id is ever pushed with two environments. -/
theorem getOriginEnv_latest_iff (calls : List (EnvCall E)) :
    (∀ p, p <+: calls → ∀ tid, getOriginEnv (runEnv p) tid = latestPush p tid) ↔
      ∀ tid e e', .push tid e ∈ calls → .push tid e' ∈ calls → e = e' := by
  have hmem (tid : Int) (e : E) : (tid, e) ∈ pushes calls ↔ EnvCall.push tid e ∈ calls := by
    rw [pushes, List.mem_filterMap]
    constructor
    · rintro ⟨c, hc, hp⟩
      cases c with
      | push tid' e' => cases hp; exact hc
      | get tid' => exact nomatch hp
    · exact fun h => ⟨_, h, rfl⟩
  simp only [getOriginEnv_runEnv, latestPush]
  rw [forall_prefix_pushes (P := fun q => ∀ tid, firstWrite q tid = lastWrite q tid),
    firstWrite_eq_lastWrite_iff]
  simp only [hmem]

/-- A thread that attaches again keeps its first environment. -/
theorem getOriginEnv_second_push :
    getOriginEnv (runEnv [.push 7 'a', .push 7 'b']) 7 = some 'a' ∧
      latestPush [.push 7 'a', .push 7 'b'] 7 = some 'b' := by
  decide

end HookJni
