import Atlas.Lib.Dict
import Atlas.Lib.Raising

/-!
# Agents: `identity/models.py`, `registry/registry.py`, `lifecycle/engine.py`

* `AgentIdentity`, `Registry` : the registered agents, each under its own id and none of them `created`;
* `Lifecycle.transition`, `startup`, `suspend`, `resume`, `shutdown` : the lifecycle state machine;
* `wp_run` : a lifecycle call moves one agent that is not terminated, or raises and leaves the registry as it is.
-/

namespace Atlas.ControlPlane
open Raising

/-- A string field with `min_length=1`. -/
abbrev Id := { s : String // s ≠ "" }

theorem momentum_ne : "momentum" ≠ "" := by decide

theorem version_ne : "1" ≠ "" := by decide

theorem memory_ne : "mem-1" ≠ "" := by decide

theorem operation_ne : "op-1" ≠ "" := by decide

/-- The exceptions of the control plane; `validationError` names the fields that a model refuses, `foreign` ones come
out of a storage or an audit sink. -/
inductive Raised
  | validationError (fields : List String)
  | valueError (text : String)
  | permissionError (text : String)
  | keyError (text : String)
  | runtimeError (text : String)
  | foreign (text : String)
  deriving DecidableEq, Repr

inductive AgentStatus
  | created
  | validated
  | ready
  | running
  | suspended
  | terminated
  deriving DecidableEq, Repr

theorem ready_ne : AgentStatus.ready ≠ .created := by decide

def AgentStatus.value : AgentStatus → String
  | .created => "created"
  | .validated => "validated"
  | .ready => "ready"
  | .running => "running"
  | .suspended => "suspended"
  | .terminated => "terminated"

structure AgentIdentity where
  agentId : Id
  version : Id
  status : AgentStatus
  deriving DecidableEq

/-! ## The registry -/

/-- Controlled registry for validated Agent identities. -/
structure Registry where
  agents : Dict String AgentIdentity
  keyed : ∀ agentId identity, agents.get? agentId = some identity → identity.agentId.val = agentId
  entered : ∀ agentId identity, agents.get? agentId = some identity → identity.status ≠ .created

namespace Registry

def empty : Registry where
  agents := .empty
  keyed := fun _ _ h => nomatch h
  entered := fun _ _ h => nomatch h

/-- `self._agents[identity.agent_id] = identity` -/
def enter (registry : Registry) (identity : AgentIdentity) (h : identity.status ≠ .created) : Registry where
  agents := registry.agents.set identity.agentId identity
  keyed := by
    intro agentId other hother
    rw [Dict.get?_set] at hother
    split_ifs at hother with heq
    · rw [← Option.some.inj hother, heq]
    · exact registry.keyed agentId other hother
  entered := by
    intro agentId other hother
    rw [Dict.get?_set] at hother
    split_ifs at hother
    · exact Option.some.inj hother ▸ h
    · exact registry.entered agentId other hother

def register (identity : AgentIdentity) : EStateM Raised Registry Unit := do
  let registry ← get
  if h : identity.status = .validated then
    if (registry.agents.get? identity.agentId).isSome then
      throw (.valueError "Agent is already registered.")
    else
      set (registry.enter identity (by simp [h]))
  else
    throw (.valueError "Only validated agents may be registered.")

/-- `get`, for callers whose own state is `σ`. -/
def get {σ : Type} (registry : Registry) (agentId : String) : EStateM Raised σ (Option AgentIdentity) :=
  if agentId = "" then throw (.valueError "agent_id must not be empty.")
  else return registry.agents.get? agentId

def replace (identity : AgentIdentity) : EStateM Raised Registry Unit := do
  let registry ← MonadState.get
  if registry.agents.get? identity.agentId = none then
    throw (.valueError "Agent is not registered.")
  else if h : identity.status = .created then
    throw (.valueError "Registered Agent cannot return to created state.")
  else
    set (registry.enter identity h)

def status? (registry : Registry) (agentId : String) : Option AgentStatus :=
  (registry.agents.get? agentId).map AgentIdentity.status

/-- The agent is ready or running. -/
def Active (registry : Registry) (agentId : String) : Prop :=
  registry.status? agentId = some .ready ∨ registry.status? agentId = some .running

instance (registry : Registry) (agentId : String) : Decidable (registry.Active agentId) :=
  inferInstanceAs (Decidable (_ ∨ _))

theorem active_iff {registry : Registry} {agentId : String} {identity : AgentIdentity}
    (hget : registry.agents.get? agentId = some identity) :
    registry.Active agentId ↔ identity.status ∈ [.ready, .running] := by
  unfold Active status?
  rw [hget]
  simp

/-- Afterwards `identity` is registered, and everything else is as before. -/
def Enters (registry : Registry) (identity : AgentIdentity) (registry' : Registry) : Prop :=
  ∀ agentId, registry'.agents.get? agentId =
    if agentId = identity.agentId.val then some identity else registry.agents.get? agentId

theorem enters_enter (registry : Registry) (identity : AgentIdentity) (h : identity.status ≠ .created) :
    registry.Enters identity (registry.enter identity h) :=
  fun agentId => Dict.get?_set registry.agents identity.agentId agentId identity

theorem Enters.status? {registry registry' : Registry} {identity : AgentIdentity}
    (h : registry.Enters identity registry') (agentId : String) :
    registry'.status? agentId =
      if agentId = identity.agentId then some identity.status else registry.status? agentId := by
  unfold Registry.status?
  rw [h agentId]
  split_ifs <;> rfl

theorem agentId_ne {registry : Registry} {agentId : String} {identity : AgentIdentity}
    (h : registry.agents.get? agentId = some identity) : agentId ≠ "" := by
  rw [← registry.keyed agentId identity h]
  exact identity.agentId.2

theorem wp_get {σ : Type} {Q : Option AgentIdentity → σ → Prop} {E : Raised → σ → Prop} {s : σ} (registry : Registry)
    {agentId : String} (h : agentId ≠ "") : wp (registry.get agentId) Q E s ↔ Q (registry.agents.get? agentId) s := by
  rw [get, if_neg h, wp_pure]

theorem wp_register (identity : AgentIdentity) (registry : Registry) :
    wp (register identity)
      (fun _ registry' => identity.status = .validated ∧ registry.agents.get? identity.agentId = none ∧
        registry.Enters identity registry')
      (fun _ registry' => registry' = registry) registry := by
  unfold register
  simp only [wp_bind, Raising.wp_get, wp_dite, wp_ite, wp_throw, wp_set]
  refine ⟨fun hstatus => ⟨fun _ => trivial, fun hnew => ?_⟩, fun _ => trivial⟩
  exact ⟨hstatus, by simpa using hnew, enters_enter registry identity _⟩

theorem wp_replace {identity : AgentIdentity} {registry : Registry} {old : AgentIdentity}
    (hold : registry.agents.get? identity.agentId = some old) (hstatus : identity.status ≠ .created)
    {Q : Unit → Registry → Prop} {E : Raised → Registry → Prop}
    (h : ∀ registry', registry.Enters identity registry' → Q () registry') : wp (replace identity) Q E registry := by
  unfold replace
  simp only [wp_bind, Raising.wp_get, wp_dite, wp_ite, wp_throw, wp_set]
  refine ⟨fun hnone => ?_, fun _ => ⟨fun heq => absurd heq hstatus, fun _ => h _ (enters_enter registry identity _)⟩⟩
  rw [hold] at hnone
  cases hnone

end Registry

/-! ## The lifecycle -/

namespace Lifecycle

/-- `_TRANSITIONS` -/
def transitions : AgentStatus → List AgentStatus
  | .created => [.validated]
  | .validated => [.ready]
  | .ready => [.running, .terminated]
  | .running => [.suspended, .terminated]
  | .suspended => [.ready, .terminated]
  | .terminated => []

def transition (agentId : String) (targetStatus : AgentStatus) : EStateM Raised Registry AgentIdentity := do
  let registry ← get
  let identity ← registry.get agentId
  match identity with
  | none => throw (.permissionError "Unknown Agent.")
  | some identity =>
    if targetStatus ∉ transitions identity.status then
      throw (.valueError ("Invalid lifecycle transition: " ++ identity.status.value ++ " -> " ++ targetStatus.value))
    else do
      let updated := { identity with status := targetStatus }
      Registry.replace updated
      return updated

def startup (agentId : String) : EStateM Raised Registry AgentIdentity := do
  let registry ← get
  let identity ← registry.get agentId
  match identity with
  | none => throw (.permissionError "Unknown Agent.")
  | some identity =>
    if identity.status = .validated then
      let _ ← transition agentId .ready
    let registry ← get
    let identity ← registry.get agentId
    match identity with
    | none => throw (.runtimeError "Agent disappeared during startup.")
    | some identity =>
      if identity.status = .ready then transition agentId .running
      else throw (.valueError ("Agent cannot start from state: " ++ identity.status.value))

def suspend (agentId : String) : EStateM Raised Registry AgentIdentity := transition agentId .suspended

def resume (agentId : String) : EStateM Raised Registry AgentIdentity := transition agentId .ready

def shutdown (agentId : String) : EStateM Raised Registry AgentIdentity := do
  let registry ← get
  let identity ← registry.get agentId
  match identity with
  | none => throw (.permissionError "Unknown Agent.")
  | some identity =>
    if identity.status ∉ [.ready, .running, .suspended] then
      throw (.valueError ("Agent cannot shutdown from state: " ++ identity.status.value))
    else transition agentId .terminated

theorem not_created_of_mem {status target : AgentStatus} (h : target ∈ transitions status) : target ≠ .created := by
  rintro rfl
  cases status <;> simp [transitions] at h

theorem wp_transition (agentId : String) (target : AgentStatus) (registry : Registry) :
    wp (transition agentId target)
      (fun updated registry' => ∃ identity, registry.agents.get? agentId = some identity ∧
        target ∈ transitions identity.status ∧ updated = { identity with status := target } ∧
        registry.Enters updated registry')
      (fun _ registry' => registry' = registry ∧
        ∀ identity, registry.agents.get? agentId = some identity → target ∉ transitions identity.status)
      registry := by
  unfold transition
  simp only [wp_bind, wp_get]
  by_cases hid : agentId = ""
  · rw [Registry.get, if_pos hid, wp_throw]
    exact ⟨rfl, fun identity h => absurd hid (Registry.agentId_ne h)⟩
  rw [Registry.wp_get registry hid]
  cases hget : registry.agents.get? agentId with
  | none =>
    rw [wp_throw]
    exact ⟨rfl, fun _ h => absurd h.symm (Option.some_ne_none _)⟩
  | some identity =>
    simp only [wp_ite, wp_throw, wp_bind, wp_pure]
    constructor
    · intro hnot
      exact ⟨trivial, fun _ h => Option.some.inj h ▸ hnot⟩
    · intro hallowed
      rw [not_not] at hallowed
      have hkey := registry.keyed agentId identity hget
      apply Registry.wp_replace
      · show registry.agents.get? identity.agentId = some identity
        rw [hkey, hget]
      · exact not_created_of_mem hallowed
      · exact fun registry' henters => ⟨identity, rfl, hallowed, rfl, henters⟩

end Lifecycle

/-! ## Calls -/

inductive LifecycleCall
  | transition (agentId : String) (targetStatus : AgentStatus)
  | startup (agentId : String)
  | suspend (agentId : String)
  | resume (agentId : String)
  | shutdown (agentId : String)

namespace LifecycleCall

def run : LifecycleCall → EStateM Raised Registry AgentIdentity
  | transition agentId targetStatus => Lifecycle.transition agentId targetStatus
  | startup agentId => Lifecycle.startup agentId
  | suspend agentId => Lifecycle.suspend agentId
  | resume agentId => Lifecycle.resume agentId
  | shutdown agentId => Lifecycle.shutdown agentId

def agentId : LifecycleCall → String
  | transition agentId _ => agentId
  | startup agentId => agentId
  | suspend agentId => agentId
  | resume agentId => agentId
  | shutdown agentId => agentId

/-- The status behind the call. -/
def target : LifecycleCall → AgentStatus
  | transition _ targetStatus => targetStatus
  | startup _ => .running
  | suspend _ => .suspended
  | resume _ => .ready
  | shutdown _ => .terminated

end LifecycleCall

namespace Lifecycle

/-- The agent of the call, not terminated before, has the status of the call, which is not one from before its start. -/
def Moves (call : LifecycleCall) (registry : Registry) (updated : AgentIdentity) (registry' : Registry) : Prop :=
  ∃ identity, registry.agents.get? call.agentId = some identity ∧ identity.status ≠ .terminated ∧
    call.target ∈ [.ready, .running, .suspended, .terminated] ∧
    updated = { identity with status := call.target } ∧ registry.Enters updated registry'

theorem Moves.status? {call : LifecycleCall} {registry registry' : Registry} {updated : AgentIdentity}
    (h : Moves call registry updated registry') (agentId : String) :
    registry'.status? agentId = if agentId = call.agentId then some call.target else registry.status? agentId := by
  obtain ⟨identity, hget, -, -, rfl, henters⟩ := h
  rw [henters.status? agentId]
  show (if agentId = identity.agentId then some call.target else _) = _
  rw [registry.keyed _ _ hget]

theorem mem_transitions {status target : AgentStatus} (h : target ∈ transitions status) (hentered : status ≠ .created) :
    status ≠ .terminated ∧ target ∈ [.ready, .running, .suspended, .terminated] := by
  cases status with
  | created => exact absurd rfl hentered
  | validated =>
    rw [List.mem_singleton.mp h]
    decide
  | ready => rcases List.mem_pair.mp h with rfl | rfl <;> decide
  | running => rcases List.mem_pair.mp h with rfl | rfl <;> decide
  | suspended => rcases List.mem_pair.mp h with rfl | rfl <;> decide
  | terminated => cases h

theorem wp_moves_transition {agentId : String} {target : AgentStatus} {call : LifecycleCall} {registry : Registry}
    (hid : call.agentId = agentId) (htarget : call.target = target) :
    wp (transition agentId target) (Moves call registry) (fun _ registry' => registry' = registry) registry := by
  apply wp_mono (wp_transition agentId target registry)
  · rintro updated registry' ⟨identity, hget, hallowed, hupdated, henters⟩
    obtain ⟨hlive, hstarted⟩ := mem_transitions hallowed (registry.entered agentId identity hget)
    exact ⟨identity, hid ▸ hget, hlive, htarget ▸ hstarted, htarget ▸ hupdated, henters⟩
  · exact fun _ _ h => h.1

theorem wp_startup (agentId : String) (registry : Registry) :
    wp (startup agentId) (Moves (.startup agentId) registry) (fun _ registry' => registry' = registry) registry := by
  unfold startup
  simp only [wp_bind, wp_get]
  by_cases hid : agentId = ""
  · rw [Registry.get, if_pos hid, wp_throw]
  rw [Registry.wp_get registry hid]
  cases hget : registry.agents.get? agentId with
  | none => rw [wp_throw]
  | some identity =>
    have hkey := registry.keyed agentId identity hget
    simp only [wp_ite, wp_bind, wp_get]
    constructor
    · intro hvalidated
      apply wp_mono (wp_transition agentId .ready registry)
      · rintro updated registry' ⟨_, hget', -, rfl, henters⟩
        obtain rfl := Option.some.inj (hget.symm.trans hget')
        have hready : registry'.agents.get? agentId = some { identity with status := .ready } := by
          rw [henters, if_pos hkey.symm]
        rw [Registry.wp_get registry' hid, hready]
        simp only [wp_ite]
        refine ⟨fun _ => ?_, fun hnot => absurd trivial hnot⟩
        apply wp_mono (wp_transition agentId .running registry')
        · rintro updated registry'' ⟨_, hget'', -, rfl, henters'⟩
          obtain rfl := Option.some.inj (hready.symm.trans hget'')
          refine ⟨identity, hget, by simp [hvalidated], by simp [LifecycleCall.target], rfl, fun other => ?_⟩
          rw [henters', henters]
          split_ifs with heq <;> rfl
        · rintro _ _ ⟨-, hnot⟩
          exact absurd (by simp [transitions]) (hnot _ hready)
      · rintro _ _ ⟨-, hnot⟩
        refine absurd ?_ (hnot identity hget)
        rw [hvalidated]
        decide
    · intro _
      rw [Registry.wp_get registry hid, hget]
      simp only [wp_ite, wp_throw]
      exact ⟨fun _ => wp_moves_transition rfl rfl, fun _ => trivial⟩

theorem wp_run (call : LifecycleCall) (registry : Registry) :
    wp call.run (Moves call registry) (fun _ registry' => registry' = registry) registry := by
  cases call with
  | transition agentId target => exact wp_moves_transition rfl rfl
  | startup agentId => exact wp_startup agentId registry
  | suspend agentId => exact wp_moves_transition rfl rfl
  | resume agentId => exact wp_moves_transition rfl rfl
  | shutdown agentId =>
    show wp (shutdown agentId) _ _ _
    unfold shutdown
    simp only [wp_bind, wp_get]
    by_cases hid : agentId = ""
    · rw [Registry.get, if_pos hid, wp_throw]
    rw [Registry.wp_get registry hid]
    cases hget : registry.agents.get? agentId with
    | none => rw [wp_throw]
    | some identity =>
      simp only [wp_ite, wp_throw]
      exact ⟨fun _ => trivial, fun _ => wp_moves_transition rfl rfl⟩

end Lifecycle

end Atlas.ControlPlane
