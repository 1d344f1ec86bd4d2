import Mathlib.Data.Finmap
import AndroidAnalysis.Cpp.String

/-!
# `com/caller/XposedService.java`

The service that a plug binds to.  A plug registers its name through the binder it
got from `onBind`, and `ctrl_xposed_plug` finds the client by that name.
`service_handle_2_plug_name` is for `onUnbind`, which is to forget the name.

A name is stored under the binder, and `onUnbind` looks it up under the `Intent`.
The keys are binders in every run (`Sound.handle`), so the lookup finds nothing and
`onUnbind` changes nothing (`onUnbind_intent`).
-/

namespace Caller

open Cpp

/-! ## The service -/

/-- A `String`, or `null`. -/
abbrev JavaString := Option Str

/-- A key that `service_handle_2_plug_name` is asked for.  Neither class overrides
`equals`, so a key is which object it is. -/
inductive JavaObject
  | serviceBinder (number : Nat)
  | intent (number : Nat)
deriving DecidableEq

/-- What a call throws. -/
inductive JavaException
  | nullPointer
  | remote
deriving DecidableEq

/-- An `IXposedClient`, by its number, or `null`. -/
abbrev XposedClient := Option Nat

/-- `on_callback` of the clients. -/
abbrev OnCallback := Nat → JavaString → Option (List (BitVec 8)) → Except JavaException Bool

/-- The two maps of an `XposedService`. -/
structure XposedService where
  plugName2Client : Finmap fun _ : JavaString => XposedClient
  serviceHandle2PlugName : Finmap fun _ : JavaObject => JavaString

namespace XposedService

variable (s : XposedService)

/-- `onUnbind`.  `get` returns `null` for a key that is not there too. -/
def onUnbind (intent : JavaObject) : Bool × XposedService :=
  match s.serviceHandle2PlugName.lookup intent with
  | some (some plugName) =>
      (true, ⟨s.plugName2Client.erase (some plugName), s.serviceHandle2PlugName.erase intent⟩)
  | some none => (true, s)
  | none => (true, s)

/-- `regiest_callback`, on the binder `self`. -/
def regiestCallback (self : JavaObject) (plugName : JavaString) (handle : XposedClient) :
    Bool × XposedService :=
  if plugName ∈ s.plugName2Client then (false, s)
  else (true, ⟨s.plugName2Client.insert plugName handle,
    s.serviceHandle2PlugName.insert self plugName⟩)

/-- `ctrl_xposed_plug` -/
def ctrlXposedPlug (onCallback : OnCallback) (plugName cmd : JavaString)
    (data : Option (List (BitVec 8))) : Except JavaException Bool :=
  match s.plugName2Client.lookup plugName with
  | none => .ok false
  | some none => .error .nullPointer
  | some (some client) => onCallback client cmd data

/-- No plug has registered. -/
def empty : XposedService := ⟨∅, ∅⟩

end XposedService

/-! ## Runs -/

/-- What happens to the service.  A connection is numbered by its `onBind`. -/
inductive Event
  | onBind (intent : Nat)
  | regiestCallback (connection : Nat) (plugName : JavaString) (handle : XposedClient)
  | onUnbind (connection : Nat)
  | ctrlXposedPlug (connection : Nat) (plugName cmd : JavaString)
      (data : Option (List (BitVec 8)))
deriving DecidableEq

/-- The service with its connections. -/
structure Connected where
  service : XposedService
  /-- The `Intent` that each connection was bound with. -/
  intents : List Nat
  /-- The names that a connection has registered and that it has not been unbound since. -/
  registered : List (Nat × JavaString)

namespace Connected

/-- Before the first event. -/
def start : Connected := ⟨.empty, [], []⟩

/-- An event.  `onBind` returns a new binder, which is that of its connection, and
`onUnbind` is given the `Intent` of the `onBind`.  A connection that is not there
has no events. -/
def step (w : Connected) : Event → Connected
  | .onBind intent => { w with intents := w.intents ++ [intent] }
  | .regiestCallback connection plugName handle =>
      if connection < w.intents.length then
        let r := w.service.regiestCallback (.serviceBinder connection) plugName handle
        { w with
          service := r.2
          registered := if r.1 then w.registered ++ [(connection, plugName)] else w.registered }
      else w
  | .onUnbind connection =>
      match w.intents[connection]? with
      | none => w
      | some intent =>
          { w with
            service := (w.service.onUnbind (.intent intent)).2
            registered := w.registered.filter fun r => r.1 ≠ connection }
  | .ctrlXposedPlug _ _ _ _ => w

/-- The state after some events. -/
def after (es : List Event) : Connected := es.foldl step start

end Connected

/-- Nothing is left of a registration: the name is in neither map, a command for it
is not passed on, and it can be registered again. -/
structure Gone (s : XposedService) (plugName : JavaString) : Prop where
  client : plugName ∉ s.plugName2Client
  handle : ∀ k, s.serviceHandle2PlugName.lookup k ≠ some plugName
  ctrl : ∀ onCallback cmd data, s.ctrlXposedPlug onCallback plugName cmd data = .ok false
  again : ∀ self handle, (s.regiestCallback self plugName handle).1 = true

/-! ## What a step does -/

section

variable {s : XposedService} {w : Connected}

/-- A name is registered once. -/
theorem regiestCallback_of_mem {plugName : JavaString} (h : plugName ∈ s.plugName2Client)
    (self : JavaObject) (handle : XposedClient) :
    s.regiestCallback self plugName handle = (false, s) := by
  rw [XposedService.regiestCallback, if_pos h]

theorem regiestCallback_of_notMem {plugName : JavaString} (h : plugName ∉ s.plugName2Client)
    (self : JavaObject) (handle : XposedClient) :
    s.regiestCallback self plugName handle = (true, ⟨s.plugName2Client.insert plugName handle,
      s.serviceHandle2PlugName.insert self plugName⟩) := by
  rw [XposedService.regiestCallback, if_neg h]

/-- A command for a registered name goes to its client. -/
theorem ctrlXposedPlug_of_lookup {plugName : JavaString} {client : Nat}
    (h : s.plugName2Client.lookup plugName = some (some client)) (onCallback : OnCallback)
    (cmd : JavaString) (data : Option (List (BitVec 8))) :
    s.ctrlXposedPlug onCallback plugName cmd data = onCallback client cmd data := by
  rw [XposedService.ctrlXposedPlug, h]

/-- The names are stored under binders. -/
def HandlesAreBinders (s : XposedService) : Prop :=
  ∀ k ∈ s.serviceHandle2PlugName, ∃ number, k = .serviceBinder number

/-- `onUnbind` finds nothing under an `Intent`. -/
theorem onUnbind_intent (h : HandlesAreBinders s) (number : Nat) :
    s.onUnbind (.intent number) = (true, s) := by
  have hnone : s.serviceHandle2PlugName.lookup (.intent number) = none := by
    rw [Finmap.lookup_eq_none]
    intro hmem
    obtain ⟨b, hb⟩ := h _ hmem
    cases hb
  rw [XposedService.onUnbind, hnone]

theorem HandlesAreBinders.regiestCallback (h : HandlesAreBinders s) (connection : Nat)
    (plugName : JavaString) (handle : XposedClient) :
    HandlesAreBinders (s.regiestCallback (.serviceBinder connection) plugName handle).2 := by
  by_cases hmem : plugName ∈ s.plugName2Client
  · rw [regiestCallback_of_mem hmem]
    exact h
  · rw [regiestCallback_of_notMem hmem]
    intro k hk
    rcases Finmap.mem_insert.mp hk with rfl | hk
    · exact ⟨connection, rfl⟩
    · exact h k hk

/-! ## Runs -/

/-- What holds in every run: the keys are binders, and a registered name is there. -/
structure Sound (w : Connected) : Prop where
  handle : HandlesAreBinders w.service
  client : ∀ r ∈ w.registered, r.2 ∈ w.service.plugName2Client

theorem Sound.start : Sound .start where
  handle := fun _ hk => absurd hk Finmap.notMem_empty
  client := nofun

/-- An unbind leaves the service as it is. -/
theorem Sound.onUnbind_service (h : Sound w) (connection : Nat) :
    (w.step (.onUnbind connection)).service = w.service := by
  rw [Connected.step]
  cases w.intents[connection]? with
  | none => rfl
  | some intent =>
      show (w.service.onUnbind (.intent intent)).2 = w.service
      rw [onUnbind_intent h.handle]

theorem mem_registered_onUnbind {r : Nat × JavaString} {connection : Nat}
    (h : r ∈ (w.step (.onUnbind connection)).registered) : r ∈ w.registered := by
  rw [Connected.step] at h
  cases hi : w.intents[connection]? with
  | none => rwa [hi] at h
  | some intent =>
      rw [hi] at h
      exact (List.mem_filter.mp h).1

theorem Sound.regiestCallback (h : Sound w) (connection : Nat) (plugName : JavaString)
    (handle : XposedClient) : Sound (w.step (.regiestCallback connection plugName handle)) := by
  rw [Connected.step]
  split
  next =>
    refine ⟨h.handle.regiestCallback connection plugName handle, fun r hr => ?_⟩
    by_cases hmem : plugName ∈ w.service.plugName2Client
    · rw [regiestCallback_of_mem hmem] at hr ⊢
      exact h.client r hr
    · rw [regiestCallback_of_notMem hmem] at hr ⊢
      rcases List.mem_append.mp hr with hr | hr
      · exact Finmap.mem_insert.mpr (.inr (h.client r hr))
      · rw [List.mem_singleton.mp hr]
        exact Finmap.mem_insert.mpr (.inl rfl)
  next => exact h

/-- Every event keeps it. -/
theorem Sound.step (h : Sound w) (e : Event) : Sound (w.step e) := by
  cases e with
  | onBind intent => exact ⟨h.handle, h.client⟩
  | regiestCallback connection plugName handle => exact h.regiestCallback connection plugName handle
  | onUnbind connection =>
      refine ⟨?_, fun r hr => ?_⟩
      · rw [h.onUnbind_service]
        exact h.handle
      · rw [h.onUnbind_service]
        exact h.client r (mem_registered_onUnbind hr)
  | ctrlXposedPlug connection plugName cmd data => exact h

/-- So every run does. -/
theorem sound_after (es : List Event) : Sound (.after es) :=
  List.foldlRecOn es Connected.step Sound.start fun _ h e _ => h.step e

end

/-! ## After an unbind -/

theorem after_append_singleton (past : List Event) (e : Event) :
    Connected.after (past ++ [e]) = (Connected.after past).step e := by
  rw [Connected.after, List.foldl_append]
  rfl

/-- A name that a connection has registered is still there when that has been
unbound, and nobody can register it. -/
theorem registered_survives {past : List Event} {connection : Nat} {plugName : JavaString}
    (h : (connection, plugName) ∈ (Connected.after past).registered) :
    plugName ∈ (Connected.after (past ++ [.onUnbind connection])).service.plugName2Client ∧
      ∀ self handle, ((Connected.after (past ++ [.onUnbind connection])).service.regiestCallback
        self plugName handle).1 = false := by
  have hmem := (sound_after past).client _ h
  rw [after_append_singleton, (sound_after past).onUnbind_service]
  exact ⟨hmem, fun self handle => by rw [regiestCallback_of_mem hmem]⟩

/-- Registrations end with their connection exactly in the runs where no connection is
unbound that has registered a name. -/
theorem gone_after_onUnbind_iff (es : List Event) :
    (∀ past connection post, es = past ++ .onUnbind connection :: post →
      ∀ plugName, (connection, plugName) ∈ (Connected.after past).registered →
        Gone (Connected.after (past ++ [.onUnbind connection])).service plugName) ↔
      ∀ past connection post, es = past ++ .onUnbind connection :: post →
        ∀ plugName, (connection, plugName) ∉ (Connected.after past).registered := by
  constructor
  · intro hall past connection post hsplit plugName hmem
    exact (hall past connection post hsplit plugName hmem).client (registered_survives hmem).1
  · intro hnone past connection post hsplit plugName hmem
    exact absurd hmem (hnone past connection post hsplit plugName)

/-- A plug that binds, registers and is unbound. -/
def plugLeaves : List Event :=
  [.onBind 0, .regiestCallback 0 (some "plug".toList) (some 0), .onUnbind 0]

/-- Its name is still in both maps, still gets commands and cannot be registered. -/
theorem plugLeaves_not_gone :
    (0, some "plug".toList) ∈ (Connected.after (plugLeaves.take 2)).registered ∧
      ¬ Gone (Connected.after plugLeaves).service (some "plug".toList) ∧
      some "plug".toList ∈ (Connected.after plugLeaves).service.plugName2Client ∧
      (Connected.after plugLeaves).service.serviceHandle2PlugName.lookup (.serviceBinder 0) =
        some (some "plug".toList) ∧
      (∀ onCallback cmd data, (Connected.after plugLeaves).service.ctrlXposedPlug onCallback
        (some "plug".toList) cmd data = onCallback 0 cmd data) ∧
      ∀ self handle, ((Connected.after plugLeaves).service.regiestCallback self
        (some "plug".toList) handle).1 = false := by
  have hmem : some "plug".toList ∈ (Connected.after plugLeaves).service.plugName2Client := by
    decide
  refine ⟨by decide, fun hgone => hgone.client hmem, hmem, by decide, fun onCallback cmd data => ?_,
    fun self handle => ?_⟩
  · exact ctrlXposedPlug_of_lookup (by decide) _ _ _
  · rw [regiestCallback_of_mem hmem]

end Caller
