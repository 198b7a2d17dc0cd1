import Atlas.ControlPlane.System

/-!
# The execution engine: `agent_runtime/execution/engine.py`

* `execute` : a task that runs is handed to the behavior, and settled with the scheduler afterwards;
* `Invokes` : the behavior is entered; `invokes_iff` : it is for a request that fits a running task;
* `Tracked` : the control plane, with account kept of the agents whose last lifecycle call stopped them;
* `after_execute` : a call of `execute` as a part of a run;
* `executions_iff` : the runs in which the behavior is invoked for ready and running agents only.
-/

namespace Atlas.Runtime
open Raising ControlPlane

inductive ExecutionStatus
  | pending
  | running
  | completed
  | failed
  deriving DecidableEq, Repr

/-- Request to execute a task that has already been admitted by the Scheduler. -/
structure ExecutionRequest where
  taskId : Id
  agentId : Id
  resourceUnits : Int
  units_pos : 1 ≤ resourceUnits

/-- What a behavior raises. -/
structure BehaviorError where
  typeName : String
  text : String
  deriving DecidableEq, Repr

/-- The metadata: the output of the behavior, or the name of the type of its exception. -/
structure ExecutionResult (β : Type) where
  taskId : Id
  agentId : Id
  status : ExecutionStatus
  error : Option String
  metadata : β ⊕ String

section
variable {β τ : Type}

/-- A method of the scheduler. -/
def onScheduler (call : EStateM Raised Scheduler β) : EStateM Raised (System τ) β := fun s =>
  match call.run s.scheduler with
  | .ok b scheduler => .ok b { s with scheduler }
  | .error e scheduler => .error e { s with scheduler }

/-- `ExecutionRejectedError` -/
def rejected (text : String) : Raised := .valueError text

/-- `_require_running_task` -/
def requireRunningTask (request : ExecutionRequest) : EStateM Raised Scheduler AgentTask := do
  let task ← Scheduler.get request.taskId
  match task with
  | none => throw (rejected "Unknown task.")
  | some task =>
    if task.agentId ≠ request.agentId then throw (rejected "Task agent_id does not match request.")
    else if task.status ≠ .running then
      throw (rejected "Only running tasks may be executed. Scheduler.start() must succeed before execute().")
    else if task.resourceUnits ≠ request.resourceUnits then
      throw (rejected "Request resource_units does not match the admitted task.")
    else return task

/-- A behavior may call the control plane itself. -/
abbrev ExecutionBehavior (β τ : Type) := ExecutionRequest → EStateM BehaviorError (System τ) β

/-- `_complete` -/
def complete (sink : Sink) (task : AgentTask) (output : β) : EStateM Raised (System τ) (ExecutionResult β) := do
  let finished ← onScheduler (Scheduler.complete sink task.taskId)
  return ⟨finished.taskId, finished.agentId, .completed, none, .inl output⟩

/-- `_fail` -/
def fail (sink : Sink) (task : AgentTask) (exc : BehaviorError) : EStateM Raised (System τ) (ExecutionResult β) := do
  let finished ← onScheduler (Scheduler.fail sink task.taskId)
  return ⟨finished.taskId, finished.agentId, .failed, some (exc.typeName ++ ": " ++ exc.text), .inr exc.typeName⟩

/-- `try: output = self._behavior(request)` with `except Exception as exc`. -/
def invoke (behavior : ExecutionBehavior β τ) (request : ExecutionRequest) :
    EStateM Raised (System τ) (Except BehaviorError β) := fun s =>
  match (behavior request).run s with
  | .ok output s => .ok (.ok output) s
  | .error exc s => .ok (.error exc) s

def execute (sink : Sink) (behavior : ExecutionBehavior β τ) (request : ExecutionRequest) :
    EStateM Raised (System τ) (ExecutionResult β) := do
  let task ← onScheduler (requireRunningTask request)
  let outcome ← invoke behavior request
  match outcome with
  | .error exc => fail sink task exc
  | .ok output => complete sink task output

theorem run_onScheduler {call : EStateM Raised Scheduler β} {b : β} {s : System τ} {scheduler : Scheduler}
    (h : call.run s.scheduler = .ok b scheduler) : (onScheduler call).run s = .ok b { s with scheduler } := by
  show onScheduler call s = _
  unfold onScheduler
  rw [h]

theorem after_onScheduler (call : EStateM Raised Scheduler β) (s : System τ) :
    after (onScheduler call) s = { s with scheduler := after call s.scheduler } := by
  cases hrun : call.run s.scheduler with
  | ok b scheduler => rw [after, after, run_onScheduler hrun, hrun]
  | error e scheduler =>
    have hlifted : (onScheduler call).run s = .error e { s with scheduler } := by
      show onScheduler call s = _
      rw [onScheduler, hrun]
    rw [after, after, hlifted, hrun]

/-- The request gets past the checks of `execute`, to the behavior. -/
def Invokes (scheduler : Scheduler) (request : ExecutionRequest) : Prop :=
  ∃ task, (requireRunningTask request).run scheduler = .ok task scheduler

/-- The task of the request runs, for the agent and with the units of the request. -/
def Accepted (scheduler : Scheduler) (request : ExecutionRequest) : Prop :=
  ∃ task, scheduler.tasks.get? request.taskId = some task ∧ task.agentId = request.agentId ∧ task.status = .running ∧
    task.resourceUnits = request.resourceUnits

theorem wp_requireRunningTask (request : ExecutionRequest) (s : Scheduler) :
    wp (requireRunningTask request)
      (fun task s' => s' = s ∧ s.tasks.get? request.taskId = some task ∧ task.agentId = request.agentId ∧
        task.status = .running ∧ task.resourceUnits = request.resourceUnits)
      (fun _ s' => s' = s ∧ ¬ Accepted s request) s := by
  unfold requireRunningTask Scheduler.get
  simp only [wp_bind, wp_ite, wp_throw, wp_get, wp_pure]
  refine ⟨fun h => absurd h request.taskId.2, fun _ => ?_⟩
  cases hget : s.tasks.get? request.taskId with
  | none =>
    refine ⟨rfl, ?_⟩
    rintro ⟨task, htask, _⟩
    rw [hget] at htask
    cases htask
  | some task =>
    have hsame : ∀ {other}, s.tasks.get? request.taskId = some other → other = task := by
      intro other hother
      rw [hget] at hother
      exact (Option.some.inj hother).symm
    simp only [wp_ite, wp_throw, wp_pure]
    refine ⟨fun hagent => ⟨trivial, ?_⟩, fun hagent => ⟨fun hstatus => ⟨trivial, ?_⟩, fun hstatus =>
      ⟨fun hunits => ⟨trivial, ?_⟩, fun hunits => ?_⟩⟩⟩
    · rintro ⟨other, hother, h, -, -⟩
      exact hagent (hsame hother ▸ h)
    · rintro ⟨other, hother, -, h, -⟩
      exact hstatus (hsame hother ▸ h)
    · rintro ⟨other, hother, -, -, h⟩
      exact hunits (hsame hother ▸ h)
    · exact ⟨trivial, trivial, not_not.mp hagent, not_not.mp hstatus, not_not.mp hunits⟩

theorem invokes_iff (scheduler : Scheduler) (request : ExecutionRequest) :
    Invokes scheduler request ↔ Accepted scheduler request := by
  have hwp := wp_requireRunningTask request scheduler
  unfold wp at hwp
  unfold Invokes
  cases hrun : (requireRunningTask request).run scheduler with
  | ok task scheduler' =>
    rw [hrun] at hwp
    obtain ⟨rfl, haccepted⟩ := hwp
    exact ⟨fun _ => ⟨task, haccepted⟩, fun _ => ⟨task, rfl⟩⟩
  | error e scheduler' =>
    rw [hrun] at hwp
    exact ⟨fun ⟨_, h⟩ => (nomatch h), fun h => absurd h hwp.2⟩

end

/-! ## Runs -/

/-- The control plane. `stopped` keeps account of the agents whose last lifecycle call, of those that returned, has
suspended or terminated them. -/
structure Tracked (τ : Type) where
  system : System τ
  stopped : List String

/-- A call of the control plane, which may be one of a behavior, or the moment at which a request is given to `execute`,
where a request that is refused changes nothing. The settling of a task is a call of the scheduler. -/
inductive RuntimeEvent (α : Type)
  | control (event : SystemEvent α)
  | invoke (request : ExecutionRequest)

namespace Tracked

variable {α β τ : Type}

def new (resources : SchedulerResources) (storage : τ) : Tracked τ := ⟨.new resources storage, []⟩

/-- The stopped agents after a lifecycle call. -/
def track (registry : Registry) (call : LifecycleCall) (stopped : List String) : List String :=
  match call.run.run registry with
  | .error .. => stopped
  | .ok .. =>
    if call.target ∈ [.suspended, .terminated] then call.agentId :: stopped
    else stopped.filter (· ≠ call.agentId)

def next (policy : CommunicationPolicy) (storage : Storage α τ) (s : Tracked τ) : RuntimeEvent α → Tracked τ
  | .control event => {
      system := System.next policy storage s.system event
      stopped := match event.call with
        | .lifecycle call => track s.system.registry call s.stopped
        | _ => s.stopped }
  | .invoke _ => s

def step (policy : CommunicationPolicy) (storage : Storage α τ) (s : Tracked τ) (event : RuntimeEvent α) :
    Option (Tracked τ) :=
  some (next policy storage s event)

/-- The behavior is invoked for a running task of an agent that is ready or running, or not at all. -/
def Safe (s : Tracked τ) (event : RuntimeEvent α) : Prop :=
  ∀ request, event = .invoke request → Invokes s.system.scheduler request →
    (∃ task, s.system.scheduler.tasks.get? request.taskId = some task ∧ task.agentId = request.agentId ∧
      task.status = .running) ∧ s.system.registry.Active request.agentId

/-- A request that fits a running task does not come behind a call that has stopped its agent, up to the next call that
takes the agent back. -/
def NotStopped (s : Tracked τ) (event : RuntimeEvent α) : Prop :=
  ∀ request, event = .invoke request → Accepted s.system.scheduler request → request.agentId.val ∉ s.stopped

/-- The agent has been started once. -/
def Started (registry : Registry) (agentId : String) : Prop :=
  ∃ status ∈ [AgentStatus.ready, .running, .suspended, .terminated], registry.status? agentId = some status

/-- The agent is suspended or terminated. -/
def Stopped (registry : Registry) (agentId : String) : Prop :=
  registry.status? agentId = some .suspended ∨ registry.status? agentId = some .terminated

structure Inv (s : Tracked τ) : Prop where
  stopped_iff : ∀ agentId, agentId ∈ s.stopped ↔ Stopped s.system.registry agentId
  started : ∀ taskId task, s.system.scheduler.tasks.get? taskId = some task → task.status = .running →
    Started s.system.registry task.agentId

theorem started_active {registry : Registry} {agentId : String} (h : registry.Active agentId) :
    Started registry agentId := by
  rcases h with hready | hrunning
  · exact ⟨.ready, by simp, hready⟩
  · exact ⟨.running, by simp, hrunning⟩

/-- An agent that has been started is active or stopped. -/
theorem active_iff_not_stopped {registry : Registry} {agentId : String} (h : Started registry agentId) :
    registry.Active agentId ↔ ¬ Stopped registry agentId := by
  obtain ⟨status, hmem, hstatus⟩ := h
  unfold Registry.Active Stopped
  rw [hstatus]
  simp only [List.mem_cons, List.not_mem_nil, or_false] at hmem
  rcases hmem with rfl | rfl | rfl | rfl <;> decide

section
variable {policy : CommunicationPolicy} {storage : Storage α τ} {s : Tracked τ}

theorem inv_new (resources : SchedulerResources) (start : τ) : Inv (new resources start) := by
  refine ⟨fun agentId => ?_, fun _ _ h => nomatch h⟩
  show agentId ∈ [] ↔ Stopped Registry.empty agentId
  simp [Stopped, Registry.status?, Registry.empty]

theorem started_next {agentId : String} (h : Started s.system.registry agentId) (event : SystemEvent α) :
    Started (System.next policy storage s.system event).registry agentId := by
  obtain ⟨status, hmem, hstatus⟩ := h
  rcases @System.status_next _ _ policy storage s.system event agentId with hsame | ⟨hnone, -⟩ |
    ⟨_, target, -, -, htarget, hmoved⟩
  · exact ⟨status, hmem, hsame.trans hstatus⟩
  · rw [hnone] at hstatus
    cases hstatus
  · exact ⟨target, htarget, hmoved⟩

/-- A call of `execute` in a run. A behavior does what the calls `events` do, and the scheduler settles the task behind
it. -/
theorem after_execute {sink : Sink} {behavior : ExecutionBehavior β τ} {request : ExecutionRequest}
    {task : AgentTask} {events : List (RuntimeEvent α)} {s' : Tracked τ}
    (hinvokes : (requireRunningTask request).run s.system.scheduler = .ok task s.system.scheduler)
    (hexec : Run.exec (step policy storage) s events = some s')
    (hbehavior : after (behavior request) s.system = s'.system) :
    ∃ call ∈ [SchedulerCall.complete task.taskId, .fail task.taskId], ∃ t,
      Run.exec (step policy storage) s (.invoke request :: events ++ [.control ⟨sink, .scheduler call⟩]) = some t ∧
        after (execute sink behavior request) s.system = t.system := by
  have hcheck := run_onScheduler (τ := τ) hinvokes
  have hsettle : ∀ call, ∃ t, Run.exec (step policy storage) s
      (.invoke request :: events ++ [.control ⟨sink, .scheduler call⟩]) = some t ∧
      t.system = { s'.system with scheduler := after (call.run sink s'.system.registry) s'.system.scheduler } := by
    intro call
    refine ⟨next policy storage s' (.control ⟨sink, .scheduler call⟩), ?_, rfl⟩
    show Run.exec (step policy storage) s (events ++ _) = _
    rw [Run.exec_append, hexec]
    rfl
  unfold execute
  rw [after_bind_of_run hcheck]
  cases hrun : (behavior request).run s.system with
  | ok output t =>
    obtain rfl : t = s'.system := by rw [← hbehavior, after, hrun]
    have hinvoke : (invoke behavior request).run s.system = .ok (.ok output) s'.system := by
      show invoke behavior request s.system = _
      rw [invoke, hrun]
    obtain ⟨t, hexec', ht⟩ := hsettle (.complete task.taskId)
    refine ⟨_, by simp, t, hexec', ?_⟩
    rw [after_bind_of_run hinvoke, ht]
    exact (after_bind_pure _ _ _).trans (after_onScheduler _ _)
  | error exc t =>
    obtain rfl : t = s'.system := by rw [← hbehavior, after, hrun]
    have hinvoke : (invoke behavior request).run s.system = .ok (.error exc) s'.system := by
      show invoke behavior request s.system = _
      rw [invoke, hrun]
    obtain ⟨t, hexec', ht⟩ := hsettle (.fail task.taskId)
    refine ⟨_, by simp, t, hexec', ?_⟩
    rw [after_bind_of_run hinvoke, ht]
    exact (after_bind_pure _ _ _).trans (after_onScheduler _ _)

/-- Registration stops nobody. -/
theorem stopped_register (registry : Registry) (identity : AgentIdentity) (agentId : String) :
    Stopped (after (Registry.register identity) registry) agentId ↔ Stopped registry agentId := by
  apply @after_of_wp _ _ _ _ _ fun registry' => Stopped registry' agentId ↔ Stopped registry agentId
  apply wp_mono (Registry.wp_register identity registry)
  · rintro - registry' ⟨hvalidated, hnew, henters⟩
    unfold Stopped
    rw [henters.status? agentId]
    split_ifs with hsame
    · rw [hsame, Registry.status?, hnew, hvalidated]
      decide
    · exact Iff.rfl
  · rintro - registry' rfl
    exact Iff.rfl

/-- The account of a lifecycle call. -/
theorem mem_track {registry : Registry} {stopped : List String} (call : LifecycleCall)
    (h : ∀ agentId, agentId ∈ stopped ↔ Stopped registry agentId) (agentId : String) :
    agentId ∈ track registry call stopped ↔ Stopped (after call.run registry) agentId := by
  have hrun := Lifecycle.wp_run call registry
  unfold wp at hrun
  unfold track after
  cases hcall : call.run.run registry with
  | error e registry' =>
    rw [hcall] at hrun
    dsimp only at hrun ⊢
    rw [hrun, h]
  | ok updated registry' =>
    rw [hcall] at hrun
    dsimp only at hrun ⊢
    rw [Stopped, hrun.status? agentId]
    split_ifs with hstops hsame hsame
    · rw [hsame]
      simpa using hstops
    · rw [List.mem_cons, or_iff_right hsame, h, Stopped]
    · rw [hsame]
      simpa using hstops
    · rw [List.mem_filter, h, Stopped]
      simpa using fun _ => hsame

theorem inv_next (h : Inv s) (event : RuntimeEvent α) : Inv (next policy storage s event) := by
  cases event with
  | invoke request => exact h
  | control event =>
    constructor
    · intro agentId
      obtain ⟨sink, call⟩ := event
      cases call with
      | lifecycle call => exact mem_track call h.stopped_iff agentId
      | register identity => exact (h.stopped_iff agentId).trans (stopped_register _ identity agentId).symm
      | scheduler _ => exact h.stopped_iff agentId
      | message _ => exact h.stopped_iff agentId
      | grant _ => exact h.stopped_iff agentId
      | gateway _ => exact h.stopped_iff agentId
    · intro taskId task hget hrunning
      have hstarted : Started s.system.registry task.agentId := by
        rcases System.running_or_active System.scheduler_next hget hrunning with hold | hactive
        · exact h.started taskId task hold hrunning
        · exact started_active hactive
      exact started_next hstarted event

theorem safe_iff (h : Inv s) (event : RuntimeEvent α) : Safe s event ↔ NotStopped s event := by
  refine forall_congr' fun request => forall_congr' fun _ => ?_
  rw [invokes_iff]
  refine forall_congr' fun ⟨task, hget, hagent, hrunning, _⟩ => ?_
  have hstarted := h.started request.taskId task hget hrunning
  rw [hagent] at hstarted
  rw [and_iff_right ⟨task, hget, hagent, hrunning⟩, active_iff_not_stopped hstarted, h.stopped_iff]

/-- **Executions.** In a run, whatever the order of the calls, the behavior is invoked for running tasks of ready and
running agents only, just when no request that fits a running task is executed between a call that has suspended or
terminated its agent and the next one that takes it back. -/
theorem executions_iff (resources : SchedulerResources) (start : τ) (events : List (RuntimeEvent α)) :
    Run.Each (step policy storage) Safe (new resources start) events ↔
      Run.Each (step policy storage) NotStopped (new resources start) events := by
  refine Run.each_congr Inv ?_ (fun s event h => safe_iff h event) (inv_new resources start) events
  intro s event s' h hstep
  rw [← Option.some.inj hstep]
  exact inv_next h event

end

/-- A suspended agent, started before with a task of its own, has the task executed. -/
theorem executes_suspended :
    let agent : AgentIdentity := ⟨⟨"momentum", by decide⟩, ⟨"1", by decide⟩, .validated⟩
    let task : AgentTask := { taskId := ⟨"t1", by decide⟩, agentId := agent.agentId, units_pos := by decide }
    let calls : List (SystemCall Unit) := [.register agent, .lifecycle (.startup "momentum"), .scheduler (.submit task),
      .scheduler (.start "t1"), .lifecycle (.suspend "momentum")]
    let request : ExecutionRequest := ⟨task.taskId, task.agentId, 1, by decide⟩
    ¬ Run.Each (step {} Gateway.emptyStorage) Safe (new ⟨3, 3⟩ ())
      (calls.map (fun call => .control ⟨quiet, call⟩) ++ [.invoke request]) := by
  intro agent task calls request hsafe
  obtain ⟨-, hactive⟩ := (((((((hsafe _ rfl).2 _ rfl).2 _ rfl).2 _ rfl).2 _ rfl).2 _ rfl).1 request rfl ⟨_, rfl⟩)
  revert hactive
  decide

end Tracked

end Atlas.Runtime
