import Atlas.ControlPlane.Dispatch
import Atlas.Runtime.Execution

/-!
# How an execution settles its task

The behavior may call the control plane itself, and finish the task before `execute` does.

* `Releases` : a step in which a task comes to its end and gives its units back;
* `once_released` : a run at whose beginning a task runs and at whose end it does not has one such step;
* `wp_finish_settles` : behind `complete`, `fail` and `cancel` a task does not run, whatever they answer;
* `execute_settles` : so a call of `execute` settles its task once, or is refused and changes nothing.
-/

namespace Atlas.Runtime
open Raising ControlPlane

variable {α β τ : Type}

/-- The values of the two enumerations. -/
def ExecutionStatus.value : ExecutionStatus → String
  | .pending => "pending"
  | .running => "running"
  | .completed => "completed"
  | .failed => "failed"

def taskStatusValue : TaskStatus → String
  | .queued => "queued"
  | .running => "running"
  | .completed => "completed"
  | .failed => "failed"
  | .cancelled => "cancelled"

/-- The task runs before the step and has come to its end behind it, and its units are available again. -/
def Releases (taskId : String) (s s' : System τ) : Prop :=
  ∃ task status, s.scheduler.tasks.get? taskId = some task ∧ task.status = .running ∧ status.Terminal ∧
    s'.scheduler.tasks.get? taskId = some { task with status } ∧
    s'.scheduler.resources.available = s.scheduler.resources.available + task.resourceUnits

/-- What the other tasks hold. -/
def heldByOthers (scheduler : Scheduler) (taskId : String) : Int := (scheduler.tasks.erase taskId).total Scheduler.held

/-- The task of the request has come to its end, and its units have been added once to what is available. -/
structure Settled (request : ExecutionRequest) (s s' : Scheduler) (task : AgentTask) : Prop where
  registered : s'.tasks.get? request.taskId = some task
  terminal : task.status.Terminal
  units : s'.resources.available + heldByOthers s' request.taskId =
    s.resources.available + heldByOthers s request.taskId + request.resourceUnits

/-! ## One step -/

section
variable {registry : Registry} {s s' : Scheduler} {taskId : String} {task : AgentTask}

theorem not_terminal_running : ¬ TaskStatus.Terminal .running := by decide

/-- A running task runs on, or comes to its end with its units available. -/
theorem running_changes (h : Scheduler.Changes registry s s') (hget : s.tasks.get? taskId = some task)
    (hrunning : task.status = .running) :
    s'.tasks.get? taskId = some task ∨ ∃ status : TaskStatus, status.Terminal ∧
      s'.tasks.get? taskId = some { task with status } ∧
      s'.resources.available = s.resources.available + task.resourceUnits := by
  cases h with
  | unchanged htasks _ => exact .inl (htasks ▸ hget)
  | submitted new hnew _ _ _ htasks _ =>
    have hne : taskId ≠ new.taskId := by
      rintro rfl
      rw [hnew] at hget
      cases hget
    rw [htasks, Dict.get?_set, if_neg hne]
    exact .inl hget
  | started id old hold hstatus _ _ htasks _ =>
    have hne : taskId ≠ id := by
      rintro rfl
      rw [← Option.some.inj (hold.symm.trans hget), hstatus] at hrunning
      cases hrunning
    rw [htasks, Dict.get?_set, if_neg hne]
    exact .inl hget
  | finished id old status hold _ hend _ htasks hresources =>
    rw [htasks, Dict.get?_set, hresources]
    split_ifs with hid
    · subst hid
      obtain rfl := Option.some.inj (hold.symm.trans hget)
      exact .inr ⟨status, hend, rfl, rfl⟩
    · exact .inl hget

/-- Behind a call that finishes a task it does not run, whatever the call answers; what it returns is the task. -/
theorem wp_finish_settles {resources : SchedulerResources} (haccounted : Scheduler.Accounted resources s)
    (hvalid : resources.available ≤ resources.capacity) (sink : Sink) (hregistered : (s.tasks.get? taskId).isSome)
    (hne : taskId ≠ "") {status : TaskStatus} (hend : status.Terminal) :
    wp (Scheduler.finish sink taskId status)
      (fun updated s' => updated.status = status ∧ s'.tasks.get? taskId = some updated)
      (fun _ s' => ∀ task, s'.tasks.get? taskId = some task → task.status ≠ .running) s := by
  refine Scheduler.wp_finish (fun h => absurd h hne) (fun h => absurd h (Option.isSome_iff_ne_none.mp hregistered))
    (fun task hget hstatus => ?_) (fun task hget hstatus hover => ?_) fun task hget _ _ action result => ?_
  · have hstays : ∀ task', s.tasks.get? taskId = some task' → task'.status ≠ .running := by
      intro task' hget'
      rwa [← Option.some.inj (hget.symm.trans hget')]
    exact Scheduler.wp_reject (fun _ => hstays) fun _ _ => hstays
  · exact absurd hover (not_lt.mpr (haccounted.fits hvalid hget hstatus))
  · apply Scheduler.wp_auditTask
    · intro event
      exact ⟨rfl, Dict.get?_set_self ..⟩
    · intro text event task' hget'
      have hupdated := (Dict.get?_set_self s.tasks taskId { task with status }).symm.trans hget'
      rw [← Option.some.inj hupdated]
      rintro rfl
      exact not_terminal_running hend

end

/-! ## Runs -/

section
variable {policy : CommunicationPolicy} {storage : Storage α τ} {s s' : System τ} {events : List (SystemEvent α)}

theorem keyed_exec (hkeyed : s.scheduler.Keyed) (hexec : Run.exec (System.step policy storage) s events = some s') :
    s'.scheduler.Keyed := by
  refine Run.exec_invariant (·.scheduler.Keyed) (fun s event s' h hstep => ?_) hkeyed hexec
  obtain rfl := Option.some.inj hstep
  exact System.scheduler_next.keyed h

theorem accounted_exec {resources : SchedulerResources} (h : Scheduler.Accounted resources s.scheduler)
    (hexec : Run.exec (System.step policy storage) s events = some s') :
    Scheduler.Accounted resources s'.scheduler := by
  refine Run.exec_invariant (fun s => Scheduler.Accounted resources s.scheduler) (fun s event s' h hstep => ?_) h hexec
  obtain rfl := Option.some.inj hstep
  exact h.changes System.scheduler_next

/-- A run at whose beginning a task runs and at whose end it does not. -/
theorem once_released {taskId : String} {task : AgentTask} (hget : s.scheduler.tasks.get? taskId = some task)
    (hrunning : task.status = .running) (hexec : Run.exec (System.step policy storage) s events = some s')
    (hleft : s'.scheduler.tasks.get? taskId ≠ some task) :
    Run.Once (System.step policy storage) (Releases taskId) s events ∧ ∃ status : TaskStatus, status.Terminal ∧
      s'.scheduler.tasks.get? taskId = some { task with status } := by
  refine @Run.once_of_phases _ _ _ (Releases taskId) (fun s => s.scheduler.tasks.get? taskId = some task)
    (fun s => ∃ status : TaskStatus, status.Terminal ∧ s.scheduler.tasks.get? taskId = some { task with status })
    (fun s event t hget hstep => ?_) (fun s event t hended hstep => ?_) s s' events hget hexec hleft
  · obtain rfl := Option.some.inj hstep
    rcases running_changes (@System.scheduler_next _ _ policy storage s event) hget hrunning with
      hstays | ⟨status, hend, hended, hunits⟩
    · refine .inl ⟨hstays, ?_⟩
      rintro ⟨old, status, hold, -, hend, hended, -⟩
      have hsame := congrArg AgentTask.status (Option.some.inj (hstays.symm.trans hended))
      rw [hrunning] at hsame
      exact not_terminal_running (hsame ▸ hend)
    · exact .inr ⟨⟨status, hend, hended⟩, task, status, hget, hrunning, hend, hended, hunits⟩
  · obtain rfl := Option.some.inj hstep
    obtain ⟨status, hend, hended⟩ := hended
    refine ⟨⟨status, hend, System.scheduler_next.terminal hended hend⟩, ?_⟩
    rintro ⟨old, status', hold, holdRunning, -⟩
    rw [← Option.some.inj (hended.symm.trans hold)] at holdRunning
    exact not_terminal_running (holdRunning ▸ hend)

/-- What the settling of a task makes of the account. -/
theorem units_of_settled {resources : SchedulerResources} {s s' : Scheduler}
    (haccounted : Scheduler.Accounted resources s) (haccounted' : Scheduler.Accounted resources s') {taskId : String}
    {task task' : AgentTask} (hget : s.tasks.get? taskId = some task) (hrunning : task.status = .running)
    (hget' : s'.tasks.get? taskId = some task') (hend : task'.status.Terminal) :
    s'.resources.available + heldByOthers s' taskId =
      s.resources.available + heldByOthers s taskId + task.resourceUnits := by
  have hbefore := Dict.total_erase Scheduler.held s.tasks taskId
  have hafter := Dict.total_erase Scheduler.held s'.tasks taskId
  have hne : task'.status ≠ .running := fun h => not_terminal_running (h ▸ hend)
  rw [hget, Option.elim, Scheduler.held_of_running hrunning] at hbefore
  rw [hget', Option.elim, Scheduler.held_of_ne hne] at hafter
  have hbalance := haccounted.balance
  have hbalance' := haccounted'.balance
  unfold heldByOthers
  omega

end

/-! ## A call of `execute` -/

theorem wp_onScheduler {call : EStateM Raised Scheduler β} {s : System τ} {Q : β → System τ → Prop}
    {E : Raised → System τ → Prop} :
    wp (onScheduler call) Q E s ↔ wp call (fun b scheduler => Q b { s with scheduler })
      (fun e scheduler => E e { s with scheduler }) s.scheduler := by
  unfold wp onScheduler EStateM.run
  dsimp only
  cases call s.scheduler <;> rfl

/-- Behind the behavior, `complete` or `fail` is called. -/
theorem wp_execute {sink : Sink} {behavior : ExecutionBehavior β τ} {request : ExecutionRequest} {s : System τ}
    {Q : ExecutionResult β → System τ → Prop} {E : Raised → System τ → Prop}
    (hrejected : ∀ e, ¬ Accepted s.scheduler request → E e s)
    (hcomplete : ∀ task : AgentTask, s.scheduler.tasks.get? request.taskId = some task → Accepted s.scheduler request →
      ∀ output, wp (complete sink task output) Q E (after (behavior request) s))
    (hfail : ∀ task : AgentTask, s.scheduler.tasks.get? request.taskId = some task → Accepted s.scheduler request →
      ∀ exc, wp (fail sink task exc) Q E (after (behavior request) s)) : wp (execute sink behavior request) Q E s := by
  unfold execute
  rw [wp_bind, wp_onScheduler]
  refine wp_mono (wp_requireRunningTask request s.scheduler) ?_ ?_
  · rintro task scheduler ⟨rfl, hget, hfits⟩
    have haccepted : Accepted s.scheduler request := ⟨task, hget, hfits⟩
    rw [wp_bind]
    unfold wp invoke EStateM.run
    cases hrun : behavior request s with
    | ok output t =>
      have hafter : after (behavior request) s = t := by rw [after, EStateM.run, hrun]
      dsimp only
      rw [hrun, ← hafter]
      exact hcomplete task hget haccepted output
    | error exc t =>
      have hafter : after (behavior request) s = t := by rw [after, EStateM.run, hrun]
      dsimp only
      rw [hrun, ← hafter]
      exact hfail task hget haccepted exc
  · rintro e scheduler ⟨rfl, hnot⟩
    exact hrejected e hnot

section
variable (policy : CommunicationPolicy) (storage : Storage α τ)

/-- Behind the calls of the behavior the scheduler is told to settle the task, which comes to its end in one step of all
of these. -/
def SettledIn (sink : Sink) (request : ExecutionRequest) (events : List (SystemEvent α)) (s s' : System τ) : Prop :=
  ∃ call ∈ [SchedulerCall.complete request.taskId, .fail request.taskId],
    Run.exec (System.step policy storage) s (events ++ [⟨sink, .scheduler call⟩]) = some s' ∧
    Run.Once (System.step policy storage) (Releases request.taskId) s (events ++ [⟨sink, .scheduler call⟩]) ∧
    ∃ task, Settled request s.scheduler s'.scheduler task

variable {policy storage} {resources : SchedulerResources} {request : ExecutionRequest} {s t : System τ}
  {events : List (SystemEvent α)}

/-- The settling call. -/
theorem wp_settling (hvalid : resources.available ≤ resources.capacity)
    (haccounted : Scheduler.Accounted resources s.scheduler) (haccepted : Accepted s.scheduler request)
    (hexec : Run.exec (System.step policy storage) s events = some t) (sink : Sink) (call : SchedulerCall)
    (hcall : call ∈ [SchedulerCall.complete request.taskId, .fail request.taskId]) {status : TaskStatus}
    (hend : status.Terminal)
    (hfinish : ∀ registry, call.run sink registry = Scheduler.finish sink request.taskId status) :
    wp (Scheduler.finish sink request.taskId status)
      (fun updated scheduler => SettledIn policy storage sink request events s { t with scheduler } ∧
        updated.status = status ∧ scheduler.tasks.get? request.taskId = some updated)
      (fun _ scheduler => SettledIn policy storage sink request events s { t with scheduler }) t.scheduler := by
  obtain ⟨task, hget, -, hrunning, hunits⟩ := haccepted
  have hregistered : (t.scheduler.tasks.get? request.taskId).isSome := by
    by_cases hstays : t.scheduler.tasks.get? request.taskId = some task
    · rw [hstays, Option.isSome_some]
    · obtain ⟨-, _, -, hended⟩ := once_released hget hrunning hexec hstays
      rw [hended, Option.isSome_some]
  have hsettles := wp_finish_settles (accounted_exec haccounted hexec) hvalid sink hregistered request.taskId.2 hend
  have hsettled : ∀ scheduler, after (Scheduler.finish sink request.taskId status) t.scheduler = scheduler →
      scheduler.tasks.get? request.taskId ≠ some task →
      SettledIn policy storage sink request events s { t with scheduler } := by
    intro scheduler hafter hleft
    have hexec' : Run.exec (System.step policy storage) s (events ++ [⟨sink, .scheduler call⟩]) =
        some { t with scheduler } := by
      rw [Run.exec_append, hexec, ← hafter, ← hfinish t.registry]
      rfl
    obtain ⟨honce, ended, hended, hget'⟩ := once_released hget hrunning hexec' hleft
    have haccounted' := accounted_exec haccounted hexec'
    refine ⟨call, hcall, hexec', honce, { task with status := ended }, hget', hended, ?_⟩
    rw [← hunits]
    exact units_of_settled haccounted haccounted' hget hrunning hget' hended
  refine wp_mono (wp_and hsettles (wp_run _ _)) ?_ ?_
  · rintro updated scheduler ⟨⟨hstatus, hupdated⟩, hrun⟩
    refine ⟨hsettled scheduler (by rw [after, hrun]) fun hstays => ?_, hstatus, hupdated⟩
    rw [Option.some.inj (hupdated.symm.trans hstays), hrunning] at hstatus
    exact not_terminal_running (hstatus ▸ hend)
  · rintro e scheduler ⟨hnot, hrun⟩
    exact hsettled scheduler (by rw [after, hrun]) fun hstays => hnot task hstays hrunning

/-- **An execution settles its task once.** In every state that a run reaches, with any behavior, which may itself do
whatever calls of the control plane do, finish the task, return or raise: a request that is not accepted is refused and
changes nothing; otherwise the task has come to its end behind `execute`, in one step of those that the behavior and
`execute` take, its units are counted once in what is available, and a result has the status of the task. -/
theorem execute_settles (hvalid : resources.validate = .ok ()) {start : τ} {before : List (SystemEvent α)}
    (hrun : Run.exec (System.step policy storage) (System.new resources start) before = some s) (sink : Sink)
    (behavior : ExecutionBehavior β τ) (request : ExecutionRequest) {events : List (SystemEvent α)}
    (hbehavior : Run.exec (System.step policy storage) s events = some (after (behavior request) s)) :
    (¬ Accepted s.scheduler request → wp (execute sink behavior request) (fun _ _ => False) (fun _ s' => s' = s) s) ∧
    (Accepted s.scheduler request → wp (execute sink behavior request)
      (fun result s' => SettledIn policy storage sink request events s s' ∧
        ∃ task, s'.scheduler.tasks.get? request.taskId = some task ∧
          result.status.value = taskStatusValue task.status)
      (fun _ s' => SettledIn policy storage sink request events s s') s) := by
  have hnew := Scheduler.accounted_new hvalid
  have haccounted : Scheduler.Accounted resources s.scheduler := accounted_exec hnew hrun
  have hempty : (System.new resources start).scheduler.Keyed := by
    intro taskId task hget
    cases hget
  have hkeyed := keyed_exec hempty hrun
  constructor
  · intro hnot
    apply wp_execute
    · exact fun _ _ => rfl
    · exact fun _ _ haccepted => absurd haccepted hnot
    · exact fun _ _ haccepted => absurd haccepted hnot
  · intro haccepted
    apply wp_execute
    · exact fun _ hnot => absurd haccepted hnot
    · intro task hget _ output
      unfold complete Scheduler.complete
      rw [wp_bind, wp_onScheduler, hkeyed _ _ hget]
      refine wp_mono (wp_settling hnew.le_capacity haccounted haccepted hbehavior sink (.complete request.taskId)
        (by simp) (by decide) fun _ => rfl) ?_ fun _ _ h => h
      rintro updated scheduler ⟨hsettled, hstatus, hupdated⟩
      refine ⟨hsettled, updated, hupdated, ?_⟩
      rw [hstatus]
      rfl
    · intro task hget _ exc
      unfold fail Scheduler.fail
      rw [wp_bind, wp_onScheduler, hkeyed _ _ hget]
      refine wp_mono (wp_settling hnew.le_capacity haccounted haccepted hbehavior sink (.fail request.taskId)
        (by simp) (by decide) fun _ => rfl) ?_ fun _ _ h => h
      rintro updated scheduler ⟨hsettled, hstatus, hupdated⟩
      refine ⟨hsettled, updated, hupdated, ?_⟩
      rw [hstatus]
      rfl

end

/-- A behavior that cancels its own task. -/
def cancelling : ExecutionBehavior Unit Unit := fun _ s =>
  .ok () (System.next {} Gateway.emptyStorage s ⟨quiet, .scheduler (.cancel "t1")⟩)

theorem execute_settles_cancelling :
    let agent : AgentIdentity := ⟨⟨"momentum", by decide⟩, ⟨"1", by decide⟩, .validated⟩
    let task : AgentTask := { taskId := ⟨"t1", by decide⟩, agentId := agent.agentId, units_pos := by decide }
    let calls : List (SystemCall Unit) := [.register agent, .lifecycle (.startup "momentum"), .scheduler (.submit task),
      .scheduler (.start "t1")]
    ∃ s : System Unit, Run.exec (System.step {} Gateway.emptyStorage) (System.new ⟨3, 3⟩ ())
        (calls.map fun call => ⟨quiet, call⟩) = some s ∧
      wp (execute quiet cancelling ⟨task.taskId, task.agentId, 1, by decide⟩) (fun _ _ => False)
        (fun _ s' => SettledIn {} Gateway.emptyStorage quiet ⟨task.taskId, task.agentId, 1, by decide⟩
          [⟨quiet, .scheduler (.cancel "t1")⟩] s s') s := by
  intro agent task calls
  let request : ExecutionRequest := ⟨task.taskId, task.agentId, 1, by decide⟩
  let run := Run.exec (System.step {} Gateway.emptyStorage) (System.new ⟨3, 3⟩ ()) (calls.map fun call => ⟨quiet, call⟩)
  obtain ⟨s, hrun⟩ := Option.isSome_iff_exists.mp (by decide +kernel : run.isSome)
  have haccepted : run.all fun s => (s.scheduler.tasks.get? request.taskId).any fun task =>
      task.agentId = request.agentId ∧ task.resourceUnits = request.resourceUnits ∧ task.status = .running := by
    decide +kernel
  have hraises : run.all fun s => ((execute quiet cancelling request).run' s).isNone := by decide +kernel
  rw [hrun] at haccepted hraises
  obtain ⟨running, hget, hfits⟩ := (Option.any_eq_true _ _).mp haccepted
  obtain ⟨hagent, hunits, hstatus⟩ := of_decide_eq_true hfits
  have hbehavior : Run.exec (System.step {} Gateway.emptyStorage) s [⟨quiet, .scheduler (.cancel "t1")⟩] =
      some (after (cancelling request) s) := rfl
  have hsettles := (execute_settles (by rfl) hrun quiet cancelling request hbehavior).2
    ⟨running, hget, hagent, hstatus, hunits⟩
  refine ⟨s, hrun, wp_cases (fun result s' hreturns => ?_) fun e s' hraised => (wp_of_run_error hraised).mp hsettles⟩
  have hvalue : (execute quiet cancelling request).run' s = some result := by
    unfold EStateM.run'
    rw [hreturns]
  rw [Option.all_some, hvalue] at hraises
  cases hraises

end Atlas.Runtime
