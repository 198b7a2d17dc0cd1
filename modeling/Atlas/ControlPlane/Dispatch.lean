import Atlas.ControlPlane.Transitions
import Mathlib.Data.List.MinMax
import Mathlib.Data.Prod.Lex
import Mathlib.Data.String.Basic

/-!
# Which task comes next: `next_task` of `scheduler/engine.py`

* `nextTask` : the queued task with the least priority and id; `nextTask_eq_some_iff`;
* `Startable` : what `start` asks of a task; `wp_start_of_startable`, `wp_start_of_not_startable` : it starts, or
  nothing changes;
* `idle_start` : what can be started while nothing runs; `next_task_best` : when the next task can.
-/

namespace Atlas.ControlPlane
open Raising

/-- `_PRIORITY` -/
def TaskPriority.rank : TaskPriority → Nat
  | .critical => 0
  | .high => 1
  | .normal => 2
  | .low => 3

/-- The order of the tasks: by priority, then by id. -/
def AgentTask.key (task : AgentTask) : ℕ ×ₗ String := toLex (task.priority.rank, task.taskId.val)

namespace Scheduler

/-- `next_task` -/
def nextTask (s : Scheduler) : Option AgentTask := (s.tasks.values.filter (·.status = .queued)).argmin AgentTask.key

/-- The scheduler has this task, and it waits. -/
def Waits (s : Scheduler) (task : AgentTask) : Prop :=
  s.tasks.get? task.taskId = some task ∧ task.status = .queued

/-- What `start` asks of a task that waits. -/
def Startable (registry : Registry) (s : Scheduler) (task : AgentTask) : Prop :=
  s.Waits task ∧ registry.Active task.agentId ∧ task.resourceUnits ≤ s.resources.available

/-- The task runs, and its units are taken. -/
def started (s : Scheduler) (task : AgentTask) : Scheduler :=
  { s with
    resources := { s.resources with available := s.resources.available - task.resourceUnits }
    tasks := s.tasks.set task.taskId { task with status := .running } }

/-- The state but for the records. -/
def Same (s s' : Scheduler) : Prop := s'.tasks = s.tasks ∧ s'.resources = s.resources

section
variable {s : Scheduler} {registry : Registry}

theorem mem_values_iff (h : s.Keyed) {task : AgentTask} :
    task ∈ s.tasks.values ↔ s.tasks.get? task.taskId = some task := by
  constructor
  · intro hmem
    obtain ⟨⟨taskId, _⟩, hentry, rfl⟩ := List.mem_map.mp hmem
    have hget := Dict.get?_of_mem hentry
    rwa [h taskId _ hget]
  · exact Dict.mem_values_of_get?

theorem nextTask_eq_none_iff (h : s.Keyed) : s.nextTask = none ↔ ∀ task, ¬ s.Waits task := by
  unfold nextTask Waits
  rw [List.argmin_eq_none, List.filter_eq_nil_iff]
  simp only [decide_eq_true_eq, mem_values_iff h, not_and]

/-- The next task waits, and none that waits comes before it. -/
theorem nextTask_eq_some (h : s.Keyed) {task : AgentTask} (hnext : s.nextTask = some task) :
    s.Waits task ∧ ∀ other, s.Waits other → task.key ≤ other.key := by
  unfold nextTask at hnext
  have hwaits : ∀ other, other ∈ s.tasks.values.filter (·.status = .queued) ↔ s.Waits other := by
    intro other
    rw [List.mem_filter, decide_eq_true_eq, mem_values_iff h, Waits]
  constructor
  · exact (hwaits task).mp (List.argmin_mem hnext)
  · intro other hother
    exact List.le_of_mem_argmin ((hwaits other).mpr hother) hnext

theorem wp_getTask_of_get? {task : AgentTask} (hget : s.tasks.get? task.taskId = some task)
    {Q : AgentTask → Scheduler → Prop} {E : Raised → Scheduler → Prop} : wp (getTask task.taskId) Q E s ↔ Q task s := by
  unfold getTask get
  rw [if_neg task.taskId.2]
  simp only [wp_bind, wp_get, wp_pure, hget]

/-- A task that can be started is, and a record is written. -/
theorem wp_start_of_startable {sink : Sink} {task : AgentTask} (h : Startable registry s task)
    {Q : AgentTask → Scheduler → Prop} {E : Raised → Scheduler → Prop} :
    wp (start sink registry task.taskId) Q E s ↔
      wp (auditTask sink .requested .success { task with status := .running })
        (fun _ => Q { task with status := .running }) E (s.started task) := by
  obtain ⟨⟨hget, hstatus⟩, hactive, hunits⟩ := h
  unfold start
  rw [wp_bind, wp_getTask_of_get? hget, if_neg (not_not.mpr hstatus), wp_bind,
    Registry.wp_get registry task.agentId.2]
  cases hagent : registry.agents.get? task.agentId with
  | none => simp [Registry.Active, Registry.status?, hagent] at hactive
  | some identity =>
    have hmem := (Registry.active_iff hagent).mp hactive
    dsimp only
    rw [if_neg (not_not.mpr hmem), wp_bind, wp_get, if_neg (not_lt.mpr hunits)]
    simp only [wp_bind, wp_modify, wp_pure]
    rfl

/-- Any other task that waits is refused. -/
theorem wp_start_of_not_startable {sink : Sink} {task : AgentTask} (hwaits : s.Waits task)
    (h : ¬ Startable registry s task) :
    wp (start sink registry task.taskId) (fun _ _ => False) (fun _ => Same s) s := by
  have hsame : ∀ event, Same s (s.noted event) := fun _ => ⟨rfl, rfl⟩
  refine wp_start (fun _ => ⟨rfl, rfl⟩) (fun _ => ⟨rfl, rfl⟩) (fun _ _ _ => wp_reject hsame fun _ => hsame)
    fun other hother _ hactive hunits => ?_
  obtain rfl := Option.some.inj (hwaits.1.symm.trans hother)
  exact absurd ⟨hwaits, hactive, hunits⟩ h

/-- `start` of a task that waits, with a sink that does not raise. -/
theorem start_returns_iff {task : AgentTask} (hwaits : s.Waits task) :
    wp (start quiet registry task.taskId) (fun _ _ => True) (fun _ _ => False) s ↔ Startable registry s task := by
  constructor
  · intro hreturns
    by_contra hnot
    exact not_wp (fun _ _ h => h.2) (fun _ _ h => h.1) (wp_and hreturns (wp_start_of_not_startable hwaits hnot))
  · intro h
    exact (wp_start_of_startable h).mpr trivial

/-- What is available while nothing runs. -/
theorem Accounted.available_of_idle {resources : SchedulerResources} (h : Accounted resources s)
    (hidle : ∀ task ∈ s.tasks.values, task.status ≠ .running) : s.resources.available = resources.available := by
  have hheld : s.tasks.total held = 0 := by
    apply List.sum_eq_zero
    exact List.forall_mem_map.mpr fun task hmem => held_of_ne (hidle task hmem)
  have hbalance := h.balance
  omega

end

/-! ## Over a run -/

section
variable {resources : SchedulerResources} {events : List SchedulerEvent} {s : Scheduler}

theorem keyed_exec (hrun : Run.exec step (new resources) events = some s) : s.Keyed := by
  have hnew : (new resources).Keyed := by
    intro taskId task hget
    cases hget
  refine Run.exec_invariant Keyed (fun s event s' h hstep => ?_) hnew hrun
  obtain rfl := Option.some.inj hstep
  exact (changes_run event.sink event.registry event.call s).keyed h

theorem accounted_exec (hvalid : resources.validate = .ok ())
    (hrun : Run.exec step (new resources) events = some s) : Accounted resources s := by
  refine Run.exec_invariant (Accounted resources) (fun s event s' h hstep => ?_) (accounted_new hvalid) hrun
  obtain rfl := Option.some.inj hstep
  exact h.changes (changes_run event.sink event.registry event.call s)

/-- **Starting while nothing runs.** In every run, a task that waits for a ready or running agent is started, whatever
the sink answers at its record, if it asks for no more than there was at the beginning; otherwise it stays. -/
theorem idle_start (hvalid : resources.validate = .ok ()) (hrun : Run.exec step (new resources) events = some s)
    (hidle : ∀ task ∈ s.tasks.values, task.status ≠ .running) (registry : Registry) (sink : Sink) {taskId : String}
    {task : AgentTask} (hget : s.tasks.get? taskId = some task) (hqueued : task.status = .queued)
    (hactive : registry.Active task.agentId) :
    (task.resourceUnits ≤ resources.available → wp (start sink registry taskId)
      (fun updated s' => updated = { task with status := .running } ∧ Same (s.started task) s')
      (fun e s' => (∃ text, e = .foreign text) ∧ Same (s.started task) s') s) ∧
    (resources.available < task.resourceUnits →
      wp (start sink registry taskId) (fun _ _ => False) (fun _ => Same s) s) := by
  have havailable := (accounted_exec hvalid hrun).available_of_idle hidle
  have hid := keyed_exec hrun taskId task hget
  subst hid
  constructor
  · intro hunits
    have hstartable : Startable registry s task := ⟨⟨hget, hqueued⟩, hactive, by omega⟩
    rw [wp_start_of_startable hstartable]
    exact wp_auditTask (fun event => ⟨rfl, rfl, rfl⟩) fun text event => ⟨⟨text, rfl⟩, rfl, rfl⟩
  · intro hunits
    apply wp_start_of_not_startable ⟨hget, hqueued⟩
    rintro ⟨-, -, hle⟩
    omega

/-- **The next task.** In every run it is the first of the tasks that wait, by priority and id, also of those that can
be started; it can be started itself just when its agent is ready or running and its units are available. -/
theorem next_task_best (hrun : Run.exec step (new resources) events = some s) (registry : Registry) :
    (s.nextTask = none ↔ ∀ task, ¬ s.Waits task) ∧
    ∀ task, s.nextTask = some task → s.Waits task ∧ (∀ other, s.Waits other → task.key ≤ other.key) ∧
      (wp (start quiet registry task.taskId) (fun _ _ => True) (fun _ _ => False) s ↔
        registry.Active task.agentId ∧ task.resourceUnits ≤ s.resources.available) := by
  have hkeyed := keyed_exec hrun
  refine ⟨nextTask_eq_none_iff hkeyed, fun task hnext => ?_⟩
  obtain ⟨hwaits, hbest⟩ := nextTask_eq_some hkeyed hnext
  refine ⟨hwaits, hbest, ?_⟩
  rw [start_returns_iff hwaits]
  exact and_iff_right hwaits

end

/-! ### Two tasks of one agent -/

def momentum : AgentIdentity := ⟨⟨"momentum", momentum_ne⟩, ⟨"1", version_ne⟩, .ready⟩

def momentumOnly : Registry := Registry.empty.enter momentum (by decide)

/-- A task that asks for so many units. -/
def askingFor (taskId : Id) (priority : TaskPriority) (units : Int) (h : 1 ≤ units) : AgentTask :=
  ⟨taskId, momentum.agentId, priority, units, .queued, h⟩

theorem idle_start_two :
    ∃ s, Run.exec step (new ⟨10, 3⟩)
        [⟨quiet, momentumOnly, .submit (askingFor ⟨"t1", by decide⟩ .normal 2 (by decide))⟩] = some s ∧
      wp (start quiet momentumOnly "t1") (fun updated _ => updated.status = .running) (fun _ _ => True) s := by
  refine ⟨_, rfl, ?_⟩
  have hstart := (@idle_start ⟨10, 3⟩
    [⟨quiet, momentumOnly, .submit (askingFor ⟨"t1", by decide⟩ .normal 2 (by decide))⟩]
    _ rfl rfl (by decide) momentumOnly quiet "t1" _ rfl rfl (by decide)).1 (by decide)
  refine wp_mono hstart (fun updated s' h => ?_) fun _ _ _ => trivial
  rw [h.1]

/-- Of ten units seven are in use elsewhere: a task that asks for five is admitted, and cannot be started though
nothing runs. -/
theorem admitted_not_started :
    (⟨10, 3⟩ : SchedulerResources).validate = .ok () ∧
    ∃ s task, Run.exec step (new ⟨10, 3⟩)
        [⟨quiet, momentumOnly, .submit (askingFor ⟨"t1", by decide⟩ .normal 5 (by decide))⟩] = some s ∧
      (∀ task ∈ s.tasks.values, task.status ≠ .running) ∧
      s.tasks.get? "t1" = some task ∧ task.status = .queued ∧ momentumOnly.Active task.agentId ∧
      wp (start quiet momentumOnly "t1") (fun _ _ => False)
        (fun e _ => e = .runtimeError "Insufficient scheduler resources.") s :=
  ⟨rfl, _, _, rfl, by decide, rfl, rfl, by decide, rfl⟩

theorem next_task_best_critical :
    ∃ s task, Run.exec step (new ⟨3, 3⟩)
        [⟨quiet, momentumOnly, .submit (askingFor ⟨"low", by decide⟩ .low 1 (by decide))⟩,
          ⟨quiet, momentumOnly, .submit (askingFor ⟨"critical", by decide⟩ .critical 1 (by decide))⟩] = some s ∧
      s.nextTask = some task ∧ task.taskId.val = "critical" ∧ ∀ other, s.Waits other → task.key ≤ other.key := by
  refine ⟨_, _, rfl, rfl, rfl, ?_⟩
  exact ((@next_task_best ⟨3, 3⟩ [⟨quiet, momentumOnly, .submit (askingFor ⟨"low", by decide⟩ .low 1 (by decide))⟩,
    ⟨quiet, momentumOnly, .submit (askingFor ⟨"critical", by decide⟩ .critical 1 (by decide))⟩] _ rfl momentumOnly).2
    _ rfl).2.1

/-- A critical task that asks for more than is left stands in front of one that could be started. -/
theorem head_blocks :
    ∃ s first second, Run.exec step (new ⟨3, 3⟩)
        [⟨quiet, momentumOnly, .submit (askingFor ⟨"first", by decide⟩ .critical 2 (by decide))⟩,
          ⟨quiet, momentumOnly, .submit (askingFor ⟨"second", by decide⟩ .normal 1 (by decide))⟩,
          ⟨quiet, momentumOnly, .submit (askingFor ⟨"third", by decide⟩ .critical 2 (by decide))⟩,
          ⟨quiet, momentumOnly, .start "first"⟩] = some s ∧
      s.nextTask = some first ∧ wp (start quiet momentumOnly first.taskId) (fun _ _ => False) (fun _ _ => True) s ∧
      s.Waits second ∧ wp (start quiet momentumOnly second.taskId) (fun _ _ => True) (fun _ _ => False) s := by
  refine ⟨_, _, askingFor ⟨"second", by decide⟩ .normal 1 (by decide), rfl, rfl, ?_, ⟨rfl, rfl⟩, ?_⟩
  · trivial
  · trivial

end Scheduler

end Atlas.ControlPlane
