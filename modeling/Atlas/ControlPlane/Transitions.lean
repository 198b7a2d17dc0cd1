import Atlas.ControlPlane.Scheduler

/-!
# What a call of the scheduler answers for

* `Moves` : one task is registered, starts or comes to its end; `Answered`, `Refused` : what a call leaves behind when
  it returns and when it raises;
* `Keyed` : every task is registered under its own id; `Changes.terminal` : what a task at its end is;
* `transitions_audited` : every call on a registered task moves it or refuses, with one record, and a task at its end
  stays what it is.
-/

namespace Atlas.ControlPlane
open Raising

def TaskStatus.Terminal (status : TaskStatus) : Prop := status ∈ [.completed, .failed, .cancelled]

instance (status : TaskStatus) : Decidable status.Terminal := inferInstanceAs (Decidable (_ ∈ _))

/-- The way of a task. -/
def TaskStatus.Next (status status' : TaskStatus) : Prop :=
  (status = .queued ∧ status' = .running) ∨ (status = .running ∧ status'.Terminal)

namespace Scheduler

/-- One task is added, or one takes its next status, and the others stay. -/
inductive Moves (s s' : Scheduler) : Prop
  | added (task : AgentTask) (hnew : s.tasks.get? task.taskId = none) (hstatus : task.status = .queued)
      (htasks : s'.tasks = s.tasks.set task.taskId task)
  | moved (taskId : String) (task : AgentTask) (status : TaskStatus) (hget : s.tasks.get? taskId = some task)
      (hnext : task.status.Next status) (htasks : s'.tasks = s.tasks.set taskId { task with status })

/-- The call has returned: a task has moved, and one record is written. -/
def Answered (s s' : Scheduler) : Prop := Moves s s' ∧ ∃ event, s'.audit = s.audit ++ [event]

/-- The call has raised: tasks and resources are what they were, and one record of the failure is written. -/
def Refused (s s' : Scheduler) : Prop :=
  s'.tasks = s.tasks ∧ s'.resources = s.resources ∧
    ∃ event, event.action = .failed ∧ event.result = .failure ∧ s'.audit = s.audit ++ [event]

/-- Every task is registered under its own id. -/
def Keyed (s : Scheduler) : Prop := ∀ taskId task, s.tasks.get? taskId = some task → task.taskId.val = taskId

end Scheduler

/-- The task of the call is registered; `submit` brings its own. -/
def SchedulerCall.Registered (s : Scheduler) : SchedulerCall → Prop
  | submit _ => True
  | start taskId | complete taskId | fail taskId | cancel taskId => (s.tasks.get? taskId).isSome

namespace Scheduler
variable {registry : Registry} {s s' : Scheduler}

/-! ## Over a run -/

theorem Changes.keyed (h : Changes registry s s') (hkeyed : s.Keyed) : s'.Keyed := by
  intro taskId task hget
  cases h with
  | unchanged htasks _ => exact hkeyed taskId task (htasks ▸ hget)
  | submitted new _ _ _ _ htasks _ =>
    rw [htasks, Dict.get?_set] at hget
    split_ifs at hget with hid
    · rw [← Option.some.inj hget, hid]
    · exact hkeyed taskId task hget
  | started id old hold _ _ _ htasks _ =>
    rw [htasks, Dict.get?_set] at hget
    split_ifs at hget with hid
    · rw [← Option.some.inj hget, hid]
      exact hkeyed id old hold
    · exact hkeyed taskId task hget
  | finished id old status hold _ _ _ htasks _ =>
    rw [htasks, Dict.get?_set] at hget
    split_ifs at hget with hid
    · rw [← Option.some.inj hget, hid]
      exact hkeyed id old hold
    · exact hkeyed taskId task hget

/-- A task at its end stays what it is. -/
theorem Changes.terminal (h : Changes registry s s') {taskId : String} {task : AgentTask}
    (hget : s.tasks.get? taskId = some task) (hend : task.status.Terminal) : s'.tasks.get? taskId = some task := by
  cases h with
  | unchanged htasks _ => rw [htasks, hget]
  | submitted new hnew _ _ _ htasks _ =>
    have hne : taskId ≠ new.taskId := by
      rintro rfl
      rw [hnew] at hget
      cases hget
    rw [htasks, Dict.get?_set, if_neg hne, hget]
  | started id old hold hstatus _ _ htasks _ =>
    have hne : taskId ≠ id := by
      rintro rfl
      rw [← Option.some.inj (hold.symm.trans hget), hstatus] at hend
      exact absurd hend (by decide)
    rw [htasks, Dict.get?_set, if_neg hne, hget]
  | finished id old status hold hstatus _ _ htasks _ =>
    have hne : taskId ≠ id := by
      rintro rfl
      rw [← Option.some.inj (hold.symm.trans hget), hstatus] at hend
      exact absurd hend (by decide)
    rw [htasks, Dict.get?_set, if_neg hne, hget]

theorem terminal_run {taskId : String} {task : AgentTask} (hget : s.tasks.get? taskId = some task)
    (hend : task.status.Terminal) {events : List SchedulerEvent} (hrun : Run.exec step s events = some s') :
    s'.tasks.get? taskId = some task := by
  refine Run.exec_invariant (·.tasks.get? taskId = some task) (fun s event s' h hstep => ?_) hget hrun
  obtain rfl := Option.some.inj hstep
  exact (changes_run event.sink event.registry event.call s).terminal h hend

/-! ## One call -/

theorem wp_reject_quiet {α : Type} (task : AgentTask) (e : Raised) :
    wp (reject quiet task e : EStateM Raised Scheduler α) (fun _ s' => Answered s s') (fun _ s' => Refused s s') s :=
  ⟨rfl, rfl, _, rfl, rfl, rfl⟩

theorem wp_auditTask_quiet {moved : Scheduler} (hmoves : Moves s moved) (haudit : moved.audit = s.audit)
    (action : AuditAction) (result : AuditResult) (task : AgentTask) :
    wp (auditTask quiet action result task) (fun _ s' => Answered s s') (fun _ s' => Refused s s') moved := by
  refine ⟨?_, ⟨.uuid4, .schedulerTask, task.taskId, task.agentId, action, task.taskId, result, []⟩, ?_⟩
  · cases hmoves with
    | added task hnew hstatus htasks => exact .added task hnew hstatus htasks
    | moved taskId task status hget hnext htasks => exact .moved taskId task status hget hnext htasks
  · exact congrArg (· ++ _) haudit

theorem answered_submit (task : AgentTask) :
    wp (submit quiet registry task) (fun _ s' => Answered s s') (fun _ s' => Refused s s') s := by
  refine wp_submit (wp_reject_quiet task) fun hnew hstatus _ _ => ?_
  apply wp_auditTask_quiet
  · exact .added task hnew hstatus rfl
  · rfl

section registered
variable {taskId : String} (hkeyed : s.Keyed) (hregistered : (s.tasks.get? taskId).isSome)
include hkeyed hregistered

theorem registered_ne_empty : taskId ≠ "" := by
  obtain ⟨task, hget⟩ := Option.isSome_iff_exists.mp hregistered
  rw [← hkeyed taskId task hget]
  exact task.taskId.2

theorem answered_start :
    wp (start quiet registry taskId) (fun _ s' => Answered s s') (fun _ s' => Refused s s') s := by
  refine wp_start (fun hempty => absurd hempty (registered_ne_empty hkeyed hregistered))
    (fun hnone => absurd hnone (Option.isSome_iff_ne_none.mp hregistered)) (fun task e _ => wp_reject_quiet task e)
    fun task hget hstatus _ _ => ?_
  apply wp_auditTask_quiet
  · exact .moved taskId task .running hget (Or.inl ⟨hstatus, rfl⟩) rfl
  · rfl

theorem answered_finish {resources : SchedulerResources} (haccounted : Accounted resources s)
    (hvalid : resources.available ≤ resources.capacity) {status : TaskStatus} (hend : status.Terminal) :
    wp (finish quiet taskId status) (fun _ s' => Answered s s') (fun _ s' => Refused s s') s := by
  refine wp_finish (fun hempty => absurd hempty (registered_ne_empty hkeyed hregistered))
    (fun hnone => absurd hnone (Option.isSome_iff_ne_none.mp hregistered)) (fun task _ _ => wp_reject_quiet task _)
    (fun task hget hstatus hover => ?_) fun task hget hstatus _ action result => ?_
  · exact absurd hover (not_lt.mpr (haccounted.fits hvalid hget hstatus))
  · apply wp_auditTask_quiet
    · exact .moved taskId task status hget (Or.inr ⟨hstatus, hend⟩) rfl
    · rfl

end registered

/-- **Every call answers for one task, with one record**: it moves the task, or it refuses and changes nothing; and a
task at its end never changes. -/
theorem transitions_audited {resources : SchedulerResources} (hvalid : resources.validate = .ok ())
    {events : List SchedulerEvent} (hrun : Run.exec step (new resources) events = some s) :
    (∀ (registry : Registry) (call : SchedulerCall), call.Registered s →
      wp (call.run quiet registry) (fun _ s' => Answered s s') (fun _ s' => Refused s s') s) ∧
    (∀ taskId task, s.tasks.get? taskId = some task → task.status.Terminal → ∀ later s',
      Run.exec step s later = some s' → s'.tasks.get? taskId = some task) := by
  have hnew := accounted_new hvalid
  obtain ⟨haccounted, hkeyed⟩ : Accounted resources s ∧ s.Keyed := by
    refine Run.exec_invariant (fun s => Accounted resources s ∧ s.Keyed) (fun s event s' h hstep => ?_)
      ⟨hnew, fun _ _ hget => (nomatch hget)⟩ hrun
    obtain rfl := Option.some.inj hstep
    have hchanges := changes_run event.sink event.registry event.call s
    exact ⟨h.1.changes hchanges, hchanges.keyed h.2⟩
  refine ⟨fun registry call hregistered => ?_, fun taskId task hget hend later s' => terminal_run hget hend⟩
  cases call with
  | submit task => exact answered_submit task
  | start taskId => exact answered_start hkeyed hregistered
  | complete taskId => exact answered_finish hkeyed hregistered haccounted hnew.le_capacity (by decide)
  | fail taskId => exact answered_finish hkeyed hregistered haccounted hnew.le_capacity (by decide)
  | cancel taskId => exact answered_finish hkeyed hregistered haccounted hnew.le_capacity (by decide)

/-- A task that is started and completed. -/
theorem transitions_audited_completed :
    let agent : AgentIdentity := ⟨⟨"momentum", by decide⟩, ⟨"1", by decide⟩, .ready⟩
    let registry := Registry.empty.enter agent (by decide)
    let task : AgentTask := ⟨⟨"t1", by decide⟩, agent.agentId, .normal, 2, .queued, by decide⟩
    ∃ s, Run.exec step (new ⟨3, 3⟩) [⟨quiet, registry, .submit task⟩, ⟨quiet, registry, .start "t1"⟩] = some s ∧
      wp (complete quiet "t1") (fun _ s' => Answered s s') (fun _ s' => Refused s s') s := by
  intro agent registry task
  exact ⟨_, rfl, (@transitions_audited _ ⟨3, 3⟩ rfl
    [⟨quiet, registry, .submit task⟩, ⟨quiet, registry, .start "t1"⟩] rfl).1 registry (.complete "t1") rfl⟩

end Scheduler

end Atlas.ControlPlane
