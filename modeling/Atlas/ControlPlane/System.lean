import Atlas.ControlPlane.Communication
import Atlas.ControlPlane.Gateway
import Atlas.ControlPlane.Scheduler

/-!
# The control plane as a whole

Registry, scheduler, communication engine and gateway, with one registry between them. A step is one call of any of
their methods; every call meets a sink of its own.

* `System.next` : the system after a call; `registry_next`, `scheduler_next`, `messages_next` : what a call can do to
  each part;
* `Gated` : what has to hold of an agent when something happens for it; `Idle` : nothing does;
* `lifecycle_gates` : every call of every run is gated, and a terminated agent stays idle.
-/

namespace Atlas.ControlPlane
open Raising

variable {α τ : Type}

structure System (τ : Type) where
  registry : Registry
  scheduler : Scheduler
  communication : Communication
  permissions : Permissions
  world : World τ

inductive SystemCall (α : Type)
  | register (identity : AgentIdentity)
  | lifecycle (call : LifecycleCall)
  | scheduler (call : SchedulerCall)
  | message (call : MessageCall)
  | grant (permissions : PermissionSet)
  | gateway (call : GatewayCall α)

/-- A call, with the sink it meets. -/
structure SystemEvent (α : Type) where
  sink : Sink
  call : SystemCall α

namespace System

def new (resources : SchedulerResources) (storage : τ) : System τ where
  registry := .empty
  scheduler := .new resources
  communication := .new
  permissions := .empty
  world := ⟨storage, [], [], []⟩

def next (policy : CommunicationPolicy) (storage : Storage α τ) (s : System τ) (event : SystemEvent α) : System τ :=
  match event.call with
  | .register identity => { s with registry := after (Registry.register identity) s.registry }
  | .lifecycle call => { s with registry := after call.run s.registry }
  | .scheduler call => { s with scheduler := after (call.run event.sink s.registry) s.scheduler }
  | .message call => { s with communication := after (call.run event.sink s.registry policy) s.communication }
  | .grant permissions => { s with permissions := s.permissions.grant permissions }
  | .gateway call => { s with world := after (call.run event.sink s.registry s.permissions storage) s.world }

def step (policy : CommunicationPolicy) (storage : Storage α τ) (s : System τ) (event : SystemEvent α) :
    Option (System τ) :=
  some (next policy storage s event)

section
variable {policy : CommunicationPolicy} {storage : Storage α τ} {s : System τ} {event : SystemEvent α}

/-! ## What a call can do -/

/-- Registry and agents: nothing changes, a validated agent comes in, or a lifecycle call moves one. -/
theorem registry_next : (next policy storage s event).registry = s.registry ∨
    (∃ identity, event.call = .register identity ∧ identity.status = .validated ∧
      s.registry.agents.get? identity.agentId = none ∧
      s.registry.Enters identity (next policy storage s event).registry) ∨
    ∃ call updated, event.call = .lifecycle call ∧
      Lifecycle.Moves call s.registry updated (next policy storage s event).registry := by
  obtain ⟨sink, call⟩ := event
  cases call with
  | register identity =>
    have hwp := Registry.wp_register identity s.registry
    have hafter := @after_of_wp _ _ _ s.registry (Registry.register identity) (fun registry' => registry' = s.registry ∨
      (identity.status = .validated ∧ s.registry.agents.get? identity.agentId = none ∧
        s.registry.Enters identity registry')) (wp_mono hwp (fun _ _ h => .inr h) fun _ _ h => .inl h)
    exact hafter.imp_right fun h => .inl ⟨identity, rfl, h⟩
  | lifecycle call =>
    have hwp := Lifecycle.wp_run call s.registry
    have hafter := @after_of_wp _ _ _ s.registry call.run (fun registry' => registry' = s.registry ∨
      ∃ updated, Lifecycle.Moves call s.registry updated registry') (wp_mono hwp (fun updated _ h => .inr ⟨updated, h⟩)
        fun _ _ h => .inl h)
    exact hafter.imp_right fun ⟨updated, h⟩ => .inr ⟨call, updated, rfl, h⟩
  | scheduler call => exact .inl rfl
  | message call => exact .inl rfl
  | grant permissions => exact .inl rfl
  | gateway call => exact .inl rfl

theorem scheduler_next :
    Scheduler.Changes s.registry s.scheduler (next policy storage s event).scheduler := by
  obtain ⟨sink, call⟩ := event
  cases call with
  | scheduler call => exact Scheduler.changes_run sink s.registry call s.scheduler
  | register _ => exact .unchanged rfl rfl
  | lifecycle _ => exact .unchanged rfl rfl
  | message _ => exact .unchanged rfl rfl
  | grant _ => exact .unchanged rfl rfl
  | gateway _ => exact .unchanged rfl rfl

theorem messages_next :
    Communication.Changes s.registry policy s.communication (next policy storage s event).communication := by
  obtain ⟨sink, call⟩ := event
  cases call with
  | message call => exact Communication.changes_run sink s.registry policy call s.communication
  | register _ => exact .unchanged rfl
  | lifecycle _ => exact .unchanged rfl
  | scheduler _ => exact .unchanged rfl
  | grant _ => exact .unchanged rfl
  | gateway _ => exact .unchanged rfl

theorem reached_next : (next policy storage s event).world.reached = s.world.reached ∨
    ∃ agentId capability, Gateway.Authorized s.registry s.permissions agentId capability ∧
      (next policy storage s event).world.reached = s.world.reached ++ [(agentId, capability)] := by
  obtain ⟨sink, call⟩ := event
  cases call with
  | gateway call => exact (Gateway.reaches_run call).imp_right fun h => ⟨call.agentId, call.capability, h⟩
  | register _ => exact .inl rfl
  | lifecycle _ => exact .inl rfl
  | scheduler _ => exact .inl rfl
  | message _ => exact .inl rfl
  | grant _ => exact .inl rfl

/-- The status of one agent: it stays, the agent comes in, or a lifecycle call moves an agent that is not terminated. -/
theorem status_next (agentId : String) :
    (next policy storage s event).registry.status? agentId = s.registry.status? agentId ∨
    (s.registry.status? agentId = none ∧ (next policy storage s event).registry.status? agentId = some .validated) ∨
    ∃ status target, s.registry.status? agentId = some status ∧ status ≠ .terminated ∧
      target ∈ [AgentStatus.ready, .running, .suspended, .terminated] ∧
      (next policy storage s event).registry.status? agentId = some target := by
  rcases @registry_next _ _ policy storage s event with hsame | ⟨identity, -, hvalidated, hnew, henters⟩ |
    ⟨call, updated, -, hmoves⟩
  · rw [hsame]
    exact .inl rfl
  · rw [henters.status? agentId]
    split_ifs with heq
    · rw [heq, Registry.status?, hnew, hvalidated]
      exact .inr (.inl ⟨rfl, rfl⟩)
    · exact .inl rfl
  · rw [hmoves.status? agentId]
    split_ifs with heq
    · obtain ⟨identity, hget, hlive, htarget, -⟩ := hmoves
      rw [heq, Registry.status?, hget]
      exact .inr (.inr ⟨identity.status, call.target, rfl, hlive, htarget, rfl⟩)
    · exact .inl rfl

/-- A terminated agent stays terminated. -/
theorem terminated_next {agentId : String} (h : s.registry.status? agentId = some .terminated) :
    (next policy storage s event).registry.status? agentId = some .terminated := by
  rcases @status_next _ _ policy storage s event agentId with hsame | ⟨hnone, -⟩ | ⟨status, target, hstatus, hlive, -⟩
  · rw [hsame, h]
  · rw [h] at hnone
    cases hnone
  · rw [h] at hstatus
    exact absurd (Option.some.inj hstatus).symm hlive

end

/-! ## Gates -/

/-- The task runs now and did not before. -/
def BecomesRunning (s s' : System τ) (task : AgentTask) : Prop :=
  ∃ taskId, s'.scheduler.tasks.get? taskId = some task ∧ task.status = .running ∧
    ∀ old, s.scheduler.tasks.get? taskId = some old → old.status ≠ .running

/-- The message is delivered now and was not before. -/
def BecomesDelivered (s s' : System τ) (message : AgentMessage) : Prop :=
  ∃ messageId, s'.communication.messages.get? messageId = some message ∧ message.status = .delivered ∧
    ∀ old, s.communication.messages.get? messageId = some old → old.status ≠ .delivered

/-- The gateway has entered an engine for the agent. -/
def ReachesEngine (s s' : System τ) (agentId : String) (capability : Capability) : Prop :=
  s'.world.reached = s.world.reached ++ [(agentId, capability)]

/-- What happens between `s` and `s'` happens for agents that are in the right state. -/
structure Gated (policy : CommunicationPolicy) (s s' : System τ) : Prop where
  running : ∀ task, BecomesRunning s s' task → s.registry.Active task.agentId
  delivered : ∀ message, BecomesDelivered s s' message → s.registry.Active message.senderId ∧
    (s.registry.Active message.recipientId ∨
      s.registry.status? message.recipientId = none ∧ policy.allowAgentToSystem = true)
  reached : s'.world.reached = s.world.reached ∨ ∃ agentId capability, ReachesEngine s s' agentId capability ∧
    Gateway.Authorized s.registry s.permissions agentId capability

/-- Nothing happens for the agent. -/
structure Idle (agentId : String) (s s' : System τ) : Prop where
  running : ∀ task, BecomesRunning s s' task → task.agentId.val ≠ agentId
  delivered : ∀ message, BecomesDelivered s s' message →
    message.senderId.val ≠ agentId ∧ message.recipientId.val ≠ agentId
  reached : ∀ capability, ¬ ReachesEngine s s' agentId capability

section
variable {policy : CommunicationPolicy} {storage : Storage α τ} {s s' : System τ}

/-- A running task ran before, or its agent is ready or running. -/
theorem running_or_active (hchanges : Scheduler.Changes s.registry s.scheduler s'.scheduler) {taskId : String}
    {task : AgentTask} (hget : s'.scheduler.tasks.get? taskId = some task) (hrunning : task.status = .running) :
    s.scheduler.tasks.get? taskId = some task ∨ s.registry.Active task.agentId := by
  cases hchanges with
  | unchanged htasks _ =>
    rw [htasks] at hget
    exact .inl hget
  | submitted new hnew hstatus _ _ htasks _ =>
    rw [htasks, Dict.get?_set] at hget
    split_ifs at hget
    · rw [← Option.some.inj hget, hstatus] at hrunning
      cases hrunning
    · exact .inl hget
  | started startedId old hold hstatus hagent _ htasks _ =>
    rw [htasks, Dict.get?_set] at hget
    split_ifs at hget
    · rw [← Option.some.inj hget]
      exact .inr hagent
    · exact .inl hget
  | finished finishedId old status hold hstatus hfinal _ htasks _ =>
    rw [htasks, Dict.get?_set] at hget
    split_ifs at hget
    · rw [← Option.some.inj hget] at hrunning
      dsimp only at hrunning
      rw [hrunning] at hfinal
      simp at hfinal
    · exact .inl hget

theorem deliverable_of_becomesDelivered
    (hchanges : Communication.Changes s.registry policy s.communication s'.communication) {message : AgentMessage}
    (h : BecomesDelivered s s' message) : Communication.Deliverable s.registry policy message := by
  obtain ⟨messageId, hget, hdelivered, hbefore⟩ := h
  have hsame : s.communication.messages.get? messageId ≠ some message := fun hold => hbefore message hold hdelivered
  cases hchanges with
  | unchanged hmessages =>
    rw [hmessages] at hget
    exact absurd hget hsame
  | created new hnew hstatus hmessages =>
    rw [hmessages, Dict.get?_set] at hget
    split_ifs at hget
    · rw [← Option.some.inj hget, hstatus] at hdelivered
      cases hdelivered
    · exact absurd hget hsame
  | delivered sent hold hdeliverable hmessages =>
    rw [hmessages, Dict.get?_set] at hget
    split_ifs at hget
    · rw [← Option.some.inj hget]
      exact hdeliverable
    · exact absurd hget hsame
  | rejected old hold hstatus hmessages =>
    rw [hmessages, Dict.get?_set] at hget
    split_ifs at hget
    · rw [← Option.some.inj hget] at hdelivered
      cases hdelivered
    · exact absurd hget hsame

theorem gated_next (event : SystemEvent α) : Gated policy s (next policy storage s event) := by
  refine ⟨fun task ⟨taskId, hget, hrunning, hbefore⟩ => ?_, fun message h => ?_, ?_⟩
  · exact (running_or_active scheduler_next hget hrunning).resolve_left fun hold => hbefore task hold hrunning
  · obtain ⟨hsender, hrecipient⟩ := deliverable_of_becomesDelivered messages_next h
    refine ⟨hsender, ?_⟩
    split_ifs at hrecipient with hnone
    · exact .inr ⟨hnone, hrecipient⟩
    · exact .inl hrecipient.2
  · refine (@reached_next _ _ policy storage s event).imp_right ?_
    rintro ⟨agentId, capability, hauthorized, hreached⟩
    exact ⟨agentId, capability, hreached, hauthorized⟩

theorem not_active_of_terminated {registry : Registry} {agentId : String}
    (h : registry.status? agentId = some .terminated) : ¬ registry.Active agentId := by
  unfold Registry.Active
  rw [h]
  simp

/-- What is gated does not happen for a terminated agent. -/
theorem Gated.idle (h : Gated policy s s') {agentId : String}
    (hterminated : s.registry.status? agentId = some .terminated) : Idle agentId s s' := by
  have hinactive := not_active_of_terminated hterminated
  constructor
  · rintro task hrunning rfl
    exact hinactive (h.running task hrunning)
  · intro message hdelivered
    obtain ⟨hsender, hrecipient⟩ := h.delivered message hdelivered
    constructor
    · rintro rfl
      exact hinactive hsender
    · rintro rfl
      rcases hrecipient with hactive | ⟨hnone, -⟩
      · exact hinactive hactive
      · rw [hnone] at hterminated
        cases hterminated
  · intro capability hreached
    rcases h.reached with hsame | ⟨other, otherCapability, hother, hauthorized⟩
    · rw [ReachesEngine, hsame] at hreached
      simp at hreached
    · rw [ReachesEngine] at hreached hother
      have hpair := List.append_cancel_left (hreached.symm.trans hother)
      obtain ⟨⟨status, hmem, hstatus⟩, -⟩ := hauthorized
      rw [← (Prod.mk.inj (List.cons.inj hpair).1).1, hterminated] at hstatus
      rw [← Option.some.inj hstatus] at hmem
      simp at hmem

/-- **Lifecycle gating.** In every run, whatever the order of the calls: a task gets to run, a message is delivered and
a gateway call gets to an engine only for agents that are in the right state at that moment, and none of this happens
for an agent once it has been terminated. -/
theorem lifecycle_gates {t : System τ} {events : List (SystemEvent α)}
    (hrun : Run.exec (step policy storage) t events = some s) (event : SystemEvent α) :
    Gated policy s (next policy storage s event) ∧
      ∀ agentId, t.registry.status? agentId = some .terminated → Idle agentId s (next policy storage s event) := by
  have hgated := @gated_next _ _ policy storage s event
  refine ⟨hgated, fun agentId hterminated => hgated.idle ?_⟩
  refine Run.exec_invariant (fun s => s.registry.status? agentId = some .terminated) ?_ hterminated hrun
  intro s event s' h hstep
  rw [← Option.some.inj hstep]
  exact terminated_next h

end

/-- A task that is submitted before its agent is shut down is not started afterwards. -/
theorem lifecycle_gates_shutdown :
    let agent : AgentIdentity := ⟨⟨"momentum", by decide⟩, ⟨"1", by decide⟩, .validated⟩
    let task : AgentTask := { taskId := ⟨"t1", by decide⟩, agentId := agent.agentId, units_pos := by decide }
    ∃ t : System Unit, Run.exec (step {} Gateway.emptyStorage) (new ⟨3, 3⟩ ())
        [⟨quiet, .register agent⟩, ⟨quiet, .lifecycle (.startup "momentum")⟩, ⟨quiet, .scheduler (.submit task)⟩,
          ⟨quiet, .lifecycle (.shutdown "momentum")⟩] = some t ∧
      Idle "momentum" t (next {} Gateway.emptyStorage t ⟨quiet, .scheduler (.start "t1")⟩) := by
  intro agent task
  exact ⟨_, rfl, (@lifecycle_gates _ _ {} Gateway.emptyStorage _ _ [] rfl _).2 "momentum" rfl⟩

end System

end Atlas.ControlPlane
