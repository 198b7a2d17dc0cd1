import Atlas.ControlPlane.Audit
import Atlas.Lib.Run

/-!
# The scheduler: `scheduler/models.py`, `scheduler/engine.py`

* `Scheduler.submit`, `start`, `complete`, `fail`, `cancel` : the tasks and the resources they hold;
* `Changes` : everything that a call can do to them; `changes_run` : a call does no more, whether it returns or raises;
* `Accounted` : what is available and what the running tasks hold make up what there was at the beginning;
  `resources_accounted` : in every run, and `_finish` never finds more available than there is capacity.
-/

namespace Atlas.ControlPlane
open Raising

inductive TaskPriority
  | low
  | normal
  | high
  | critical
  deriving DecidableEq, Repr

inductive TaskStatus
  | queued
  | running
  | completed
  | failed
  | cancelled
  deriving DecidableEq, Repr

structure AgentTask where
  taskId : Id
  agentId : Id
  priority : TaskPriority := .normal
  resourceUnits : Int := 1
  status : TaskStatus := .queued
  units_pos : 1 ≤ resourceUnits

structure SchedulerResources where
  capacity : Int
  available : Int
  deriving DecidableEq, Repr

/-- The fields' bounds, and `validate_available_capacity` behind them. -/
def SchedulerResources.validate (resources : SchedulerResources) : Except Raised Unit :=
  if resources.capacity < 1 ∨ resources.available < 0 then
    .error (.validationError ((if resources.capacity < 1 then ["capacity"] else []) ++
      (if resources.available < 0 then ["available"] else [])))
  else if resources.capacity < resources.available then
    .error (.valueError "available resources cannot exceed scheduler capacity.")
  else .ok ()

/-- Controlled scheduler for validated and lifecycle-authorized Agents. -/
structure Scheduler where
  resources : SchedulerResources
  tasks : Dict String AgentTask
  audit : List AuditRecord

namespace Scheduler

def new (resources : SchedulerResources) : Scheduler := ⟨resources, .empty, []⟩

/-- The sink has got one more record. -/
def noted (event : AuditRecord) (s : Scheduler) : Scheduler := { s with audit := s.audit ++ [event] }

section
variable (sink : Sink) (registry : Registry)

def auditTask (action : AuditAction) (result : AuditResult) (task : AgentTask) : EStateM Raised Scheduler Unit :=
  record audit noted sink ⟨.uuid4, .schedulerTask, task.taskId, task.agentId, action, task.taskId, result, []⟩

/-- `_audit_rejection`, and the exception behind it. -/
def reject {α : Type} (task : AgentTask) (e : Raised) : EStateM Raised Scheduler α := do
  auditTask sink .failed .failure task
  throw e

def submit (task : AgentTask) : EStateM Raised Scheduler AgentTask := do
  let s ← get
  if (s.tasks.get? task.taskId).isSome then
    reject sink task (.valueError "Task is already registered.")
  else if task.status ≠ .queued then
    reject sink task (.valueError "Only queued tasks may be submitted.")
  else do
    let identity ← registry.get task.agentId
    match identity with
    | none => reject sink task (.permissionError "Unknown Agent.")
    | some identity =>
      if identity.status ∉ [.ready, .running] then
        reject sink task (.permissionError "Agent is not schedulable.")
      else if s.resources.capacity < task.resourceUnits then
        reject sink task (.runtimeError "Task exceeds scheduler capacity.")
      else do
        modify fun s => { s with tasks := s.tasks.set task.taskId task }
        auditTask sink .requested .success task
        return task

def get (taskId : String) : EStateM Raised Scheduler (Option AgentTask) := do
  if taskId = "" then throw (.valueError "task_id must not be empty.")
  else do
    let s ← MonadState.get
    return s.tasks.get? taskId

/-- `_get` -/
def getTask (taskId : String) : EStateM Raised Scheduler AgentTask := do
  let task ← get taskId
  match task with
  | none => throw (.keyError "Unknown task.")
  | some task => return task

def start (taskId : String) : EStateM Raised Scheduler AgentTask := do
  let task ← getTask taskId
  if task.status ≠ .queued then
    reject sink task (.valueError "Only queued tasks may start.")
  else do
    let identity ← registry.get task.agentId
    match identity with
    | none => reject sink task (.permissionError "Unknown Agent.")
    | some identity =>
      if identity.status ∉ [.ready, .running] then
        reject sink task (.permissionError "Agent is not schedulable.")
      else do
        let s ← MonadState.get
        if s.resources.available < task.resourceUnits then
          reject sink task (.runtimeError "Insufficient scheduler resources.")
        else do
          let newAvailable := s.resources.available - task.resourceUnits
          modify fun s => { s with resources := { s.resources with available := newAvailable } }
          let updated := { task with status := .running }
          modify fun s => { s with tasks := s.tasks.set taskId updated }
          auditTask sink .requested .success updated
          return updated

/-- `_finish` -/
def finish (taskId : String) (status : TaskStatus) : EStateM Raised Scheduler AgentTask := do
  let task ← getTask taskId
  if task.status ≠ .running then
    reject sink task (.valueError "Only running tasks may finish.")
  else do
    let s ← MonadState.get
    let newAvailable := s.resources.available + task.resourceUnits
    if s.resources.capacity < newAvailable then
      throw (.runtimeError "Scheduler resource accounting overflow.")
    else do
      modify fun s => { s with resources := { s.resources with available := newAvailable } }
      let updated := { task with status }
      modify fun s => { s with tasks := s.tasks.set taskId updated }
      if status = .failed then
        auditTask sink .failed .failure updated
      else
        auditTask sink .completed .success updated
      return updated

def complete (taskId : String) : EStateM Raised Scheduler AgentTask := finish sink taskId .completed

def fail (taskId : String) : EStateM Raised Scheduler AgentTask := finish sink taskId .failed

def cancel (taskId : String) : EStateM Raised Scheduler AgentTask := finish sink taskId .cancelled

end

/-! ## What a call can do -/

/-- What becomes of tasks and resources in a call. -/
inductive Changes (registry : Registry) (s s' : Scheduler) : Prop
  | unchanged (htasks : s'.tasks = s.tasks) (hresources : s'.resources = s.resources)
  | submitted (task : AgentTask) (hnew : s.tasks.get? task.taskId = none) (hstatus : task.status = .queued)
      (hagent : registry.Active task.agentId) (hunits : task.resourceUnits ≤ s.resources.capacity)
      (htasks : s'.tasks = s.tasks.set task.taskId task) (hresources : s'.resources = s.resources)
  | started (taskId : String) (task : AgentTask) (hget : s.tasks.get? taskId = some task)
      (hstatus : task.status = .queued) (hagent : registry.Active task.agentId)
      (hunits : task.resourceUnits ≤ s.resources.available)
      (htasks : s'.tasks = s.tasks.set taskId { task with status := .running })
      (hresources : s'.resources = { s.resources with available := s.resources.available - task.resourceUnits })
  | finished (taskId : String) (task : AgentTask) (status : TaskStatus) (hget : s.tasks.get? taskId = some task)
      (hstatus : task.status = .running) (hfinal : status ∈ [.completed, .failed, .cancelled])
      (hunits : s.resources.available + task.resourceUnits ≤ s.resources.capacity)
      (htasks : s'.tasks = s.tasks.set taskId { task with status })
      (hresources : s'.resources = { s.resources with available := s.resources.available + task.resourceUnits })

section
variable {sink : Sink} {registry : Registry} {s : Scheduler}

theorem Changes.noted {s' : Scheduler} (h : Changes registry s s') (event : AuditRecord) :
    Changes registry s (s'.noted event) := by
  cases h with
  | unchanged htasks hresources => exact .unchanged htasks hresources
  | submitted task hnew hstatus hagent hunits htasks hresources =>
    exact .submitted task hnew hstatus hagent hunits htasks hresources
  | started taskId task hget hstatus hagent hunits htasks hresources =>
    exact .started taskId task hget hstatus hagent hunits htasks hresources
  | finished taskId task status hget hstatus hfinal hunits htasks hresources =>
    exact .finished taskId task status hget hstatus hfinal hunits htasks hresources

theorem wp_auditTask {action : AuditAction} {result : AuditResult} {task : AgentTask}
    {Q : Unit → Scheduler → Prop} {E : Raised → Scheduler → Prop} (hreturn : ∀ event, Q () (s.noted event))
    (hraise : ∀ text event, E (.foreign text) (s.noted event)) : wp (auditTask sink action result task) Q E s :=
  wp_record (hreturn _) fun text _ => hraise text _

theorem wp_reject {α : Type} {task : AgentTask} {e : Raised} {Q : α → Scheduler → Prop} {E : Raised → Scheduler → Prop}
    (hraise : ∀ event, E e (s.noted event)) (hforeign : ∀ text event, E (.foreign text) (s.noted event)) :
    wp (reject sink task e) Q E s := by
  unfold reject
  rw [wp_bind]
  exact wp_auditTask hraise hforeign

theorem wp_getTask {taskId : String} {Q : AgentTask → Scheduler → Prop} {E : Raised → Scheduler → Prop}
    (hget : ∀ task, s.tasks.get? taskId = some task → Q task s)
    (hempty : taskId = "" → E (.valueError "task_id must not be empty.") s)
    (hunknown : s.tasks.get? taskId = none → E (.keyError "Unknown task.") s) : wp (getTask taskId) Q E s := by
  unfold getTask get
  simp only [wp_bind, wp_ite, wp_throw, wp_get, wp_pure]
  refine ⟨hempty, fun _ => ?_⟩
  cases htask : s.tasks.get? taskId with
  | none => exact hunknown htask
  | some task => exact hget task htask

/-- `submit` rejects the task, or registers it and writes its record. -/
theorem wp_submit {task : AgentTask} {Q : AgentTask → Scheduler → Prop} {E : Raised → Scheduler → Prop}
    (hreject : ∀ e, wp (reject sink task e) Q E s)
    (hsubmit : s.tasks.get? task.taskId = none → task.status = .queued → registry.Active task.agentId →
      task.resourceUnits ≤ s.resources.capacity →
      wp (auditTask sink .requested .success task) (fun _ => Q task) E
        { s with tasks := s.tasks.set task.taskId task }) : wp (submit sink registry task) Q E s := by
  unfold submit
  simp only [wp_bind, wp_get, wp_ite]
  refine ⟨fun _ => hreject _, fun hnew => ⟨fun _ => hreject _, fun hstatus => ?_⟩⟩
  rw [Registry.wp_get registry task.agentId.2]
  cases hagent : registry.agents.get? task.agentId with
  | none => exact hreject _
  | some identity =>
    simp only [wp_ite, wp_bind, wp_modify, wp_pure]
    refine ⟨fun _ => hreject _, fun hready => ⟨fun _ => hreject _, fun hunits => ?_⟩⟩
    exact hsubmit (by simpa using hnew) (not_not.mp hstatus) ((Registry.active_iff hagent).mpr (not_not.mp hready))
      (not_lt.mp hunits)

/-- `start` finds no task, rejects the one it finds, or takes its units and writes its record. -/
theorem wp_start {taskId : String} {Q : AgentTask → Scheduler → Prop} {E : Raised → Scheduler → Prop}
    (hempty : taskId = "" → E (.valueError "task_id must not be empty.") s)
    (hunknown : s.tasks.get? taskId = none → E (.keyError "Unknown task.") s)
    (hreject : ∀ task e, s.tasks.get? taskId = some task → wp (reject sink task e) Q E s)
    (hstart : ∀ task : AgentTask, s.tasks.get? taskId = some task → task.status = .queued →
      registry.Active task.agentId → task.resourceUnits ≤ s.resources.available →
      wp (auditTask sink .requested .success { task with status := .running })
        (fun _ => Q { task with status := .running }) E
        { s with
          resources := { s.resources with available := s.resources.available - task.resourceUnits }
          tasks := s.tasks.set taskId { task with status := .running } }) : wp (start sink registry taskId) Q E s := by
  unfold start
  rw [wp_bind]
  refine wp_getTask (fun task hget => ?_) hempty hunknown
  simp only [wp_ite, wp_bind]
  refine ⟨fun _ => hreject task _ hget, fun hstatus => ?_⟩
  rw [Registry.wp_get registry task.agentId.2]
  cases hagent : registry.agents.get? task.agentId with
  | none => exact hreject task _ hget
  | some identity =>
    simp only [wp_ite, wp_bind, wp_get, wp_modify, wp_pure]
    refine ⟨fun _ => hreject task _ hget, fun hready => ⟨fun _ => hreject task _ hget, fun hunits => ?_⟩⟩
    exact hstart task hget (not_not.mp hstatus) ((Registry.active_iff hagent).mpr (not_not.mp hready))
      (not_lt.mp hunits)

/-- `_finish` finds no task, rejects the one it finds, finds too much available, or gives the units back and writes a
record. -/
theorem wp_finish {taskId : String} {status : TaskStatus} {Q : AgentTask → Scheduler → Prop}
    {E : Raised → Scheduler → Prop} (hempty : taskId = "" → E (.valueError "task_id must not be empty.") s)
    (hunknown : s.tasks.get? taskId = none → E (.keyError "Unknown task.") s)
    (hreject : ∀ task : AgentTask, s.tasks.get? taskId = some task → task.status ≠ .running →
      wp (reject sink task (.valueError "Only running tasks may finish.")) Q E s)
    (hover : ∀ task : AgentTask, s.tasks.get? taskId = some task → task.status = .running →
      s.resources.capacity < s.resources.available + task.resourceUnits →
      E (.runtimeError "Scheduler resource accounting overflow.") s)
    (hfinish : ∀ task : AgentTask, s.tasks.get? taskId = some task → task.status = .running →
      s.resources.available + task.resourceUnits ≤ s.resources.capacity → ∀ action result,
      wp (auditTask sink action result { task with status }) (fun _ => Q { task with status }) E
        { s with
          resources := { s.resources with available := s.resources.available + task.resourceUnits }
          tasks := s.tasks.set taskId { task with status } }) : wp (finish sink taskId status) Q E s := by
  unfold finish
  rw [wp_bind]
  refine wp_getTask (fun task hget => ?_) hempty hunknown
  simp only [wp_ite, wp_bind, wp_get, wp_throw, wp_modify, wp_pure]
  refine ⟨hreject task hget, fun hstatus => ?_⟩
  refine ⟨hover task hget (not_not.mp hstatus), fun hunits => ?_⟩
  have hdone := hfinish task hget (not_not.mp hstatus) (not_lt.mp hunits)
  exact ⟨fun _ => hdone .failed .failure, fun _ => hdone .completed .success⟩

theorem changes_submit (task : AgentTask) :
    wp (submit sink registry task) (fun _ s' => Changes registry s s') (fun _ s' => Changes registry s s') s := by
  have hsame : ∀ event, Changes registry s (s.noted event) := fun _ => .unchanged rfl rfl
  refine wp_submit (fun _ => wp_reject hsame fun _ => hsame) fun hnew hstatus hagent hunits => ?_
  have hsubmitted : Changes registry s { s with tasks := s.tasks.set task.taskId task } :=
    .submitted task hnew hstatus hagent hunits rfl rfl
  exact wp_auditTask hsubmitted.noted fun _ => hsubmitted.noted

theorem changes_start (taskId : String) :
    wp (start sink registry taskId) (fun _ s' => Changes registry s s') (fun _ s' => Changes registry s s') s := by
  have hsame : ∀ event, Changes registry s (s.noted event) := fun _ => .unchanged rfl rfl
  refine wp_start (fun _ => .unchanged rfl rfl) (fun _ => .unchanged rfl rfl)
    (fun _ _ _ => wp_reject hsame fun _ => hsame) fun task hget hstatus hagent hunits => ?_
  have hstarted : Changes registry s
      { s with
        resources := { s.resources with available := s.resources.available - task.resourceUnits }
        tasks := s.tasks.set taskId { task with status := .running } } :=
    .started taskId task hget hstatus hagent hunits rfl rfl
  exact wp_auditTask hstarted.noted fun _ => hstarted.noted

theorem changes_finish (taskId : String) {status : TaskStatus} (hfinal : status ∈ [.completed, .failed, .cancelled]) :
    wp (finish sink taskId status) (fun _ s' => Changes registry s s') (fun _ s' => Changes registry s s') s := by
  have hsame : ∀ event, Changes registry s (s.noted event) := fun _ => .unchanged rfl rfl
  refine wp_finish (fun _ => .unchanged rfl rfl) (fun _ => .unchanged rfl rfl)
    (fun _ _ _ => wp_reject hsame fun _ => hsame) (fun _ _ _ _ => .unchanged rfl rfl)
    fun task hget hstatus hunits action result => ?_
  have hfinished : Changes registry s
      { s with
        resources := { s.resources with available := s.resources.available + task.resourceUnits }
        tasks := s.tasks.set taskId { task with status } } :=
    .finished taskId task status hget hstatus hfinal hunits rfl rfl
  exact wp_auditTask hfinished.noted fun _ => hfinished.noted

end

end Scheduler

/-! ## Runs -/

inductive SchedulerCall
  | submit (task : AgentTask)
  | start (taskId : String)
  | complete (taskId : String)
  | fail (taskId : String)
  | cancel (taskId : String)

def SchedulerCall.run (sink : Sink) (registry : Registry) : SchedulerCall → EStateM Raised Scheduler AgentTask
  | submit task => Scheduler.submit sink registry task
  | start taskId => Scheduler.start sink registry taskId
  | complete taskId => Scheduler.complete sink taskId
  | fail taskId => Scheduler.fail sink taskId
  | cancel taskId => Scheduler.cancel sink taskId

/-- A call, with the registry and the sink it meets. -/
structure SchedulerEvent where
  sink : Sink
  registry : Registry
  call : SchedulerCall

namespace Scheduler

def step (s : Scheduler) (event : SchedulerEvent) : Option Scheduler :=
  some (after (event.call.run event.sink event.registry) s)

theorem changes_run (sink : Sink) (registry : Registry) (call : SchedulerCall) (s : Scheduler) :
    Changes registry s (after (call.run sink registry) s) := by
  apply after_of_wp
  cases call with
  | submit task => exact changes_submit task
  | start taskId => exact changes_start taskId
  | complete taskId => exact changes_finish taskId (by simp)
  | fail taskId => exact changes_finish taskId (by simp)
  | cancel taskId => exact changes_finish taskId (by simp)

/-- The resource units that a task holds. -/
def held (task : AgentTask) : Int := if task.status = .running then task.resourceUnits else 0

theorem held_nonneg (task : AgentTask) : 0 ≤ held task := by
  unfold held
  have := task.units_pos
  split_ifs <;> omega

theorem held_of_running {task : AgentTask} (h : task.status = .running) : held task = task.resourceUnits := if_pos h

theorem held_of_ne {task : AgentTask} (h : task.status ≠ .running) : held task = 0 := if_neg h

/-- The resources there were at the beginning are available or held, and no bound is broken. -/
structure Accounted (resources : SchedulerResources) (s : Scheduler) : Prop where
  balance : s.resources.available + s.tasks.total held = resources.available
  nonneg : 0 ≤ s.resources.available
  le_capacity : s.resources.available ≤ s.resources.capacity
  capacity_eq : s.resources.capacity = resources.capacity

theorem accounted_new {resources : SchedulerResources} (h : resources.validate = .ok ()) :
    Accounted resources (new resources) := by
  unfold SchedulerResources.validate at h
  split_ifs at h with hfields hmodel
  refine ⟨?_, ?_, ?_, rfl⟩
  · show resources.available + Dict.total held .empty = _
    rw [Dict.total_empty, add_zero]
  · show 0 ≤ resources.available
    omega
  · exact not_lt.mp hmodel

section
variable {registry : Registry} {s s' : Scheduler}

/-- What a call takes from what is available is held afterwards, and the other way round. -/
theorem Changes.balance (h : Changes registry s s') :
    s'.resources.available + s'.tasks.total held = s.resources.available + s.tasks.total held := by
  cases h with
  | unchanged htasks hresources => rw [htasks, hresources]
  | submitted task hnew hstatus _ _ htasks hresources =>
    have htotal := Dict.total_set held s.tasks task.taskId task
    rw [hnew, held_of_ne (by simp [hstatus])] at htotal
    simp only [Option.elim, add_zero] at htotal
    rw [htasks, hresources, htotal]
  | started taskId task hget hstatus _ _ htasks hresources =>
    have htotal := Dict.total_set held s.tasks taskId { task with status := .running }
    rw [hget, held_of_running rfl] at htotal
    simp only [Option.elim, held_of_ne (show task.status ≠ .running by simp [hstatus]), add_zero] at htotal
    rw [htasks, hresources, htotal]
    dsimp only
    omega
  | finished taskId task status hget hstatus hfinal _ htasks hresources =>
    have hne : status ≠ .running := by
      rintro rfl
      simp at hfinal
    have htotal := Dict.total_set held s.tasks taskId { task with status }
    rw [hget, held_of_ne hne] at htotal
    simp only [Option.elim, held_of_running hstatus, add_zero] at htotal
    rw [htasks, hresources]
    dsimp only
    omega

theorem Changes.capacity (h : Changes registry s s') : s'.resources.capacity = s.resources.capacity := by
  cases h with
  | unchanged _ hresources => rw [hresources]
  | submitted _ _ _ _ _ _ hresources => rw [hresources]
  | started _ _ _ _ _ _ _ hresources => rw [hresources]
  | finished _ _ _ _ _ _ _ _ hresources => rw [hresources]

theorem Changes.bounds (h : Changes registry s s') (hnonneg : 0 ≤ s.resources.available)
    (hle : s.resources.available ≤ s.resources.capacity) :
    0 ≤ s'.resources.available ∧ s'.resources.available ≤ s'.resources.capacity := by
  cases h with
  | unchanged _ hresources =>
    rw [hresources]
    exact ⟨hnonneg, hle⟩
  | submitted _ _ _ _ _ _ hresources =>
    rw [hresources]
    exact ⟨hnonneg, hle⟩
  | started _ task _ _ _ hunits _ hresources =>
    have hpos := task.units_pos
    rw [hresources]
    dsimp only
    omega
  | finished _ task _ _ _ _ hunits _ hresources =>
    have hpos := task.units_pos
    rw [hresources]
    dsimp only
    omega

/-- A call keeps the account. -/
theorem Accounted.changes {resources : SchedulerResources} (h : Accounted resources s)
    (hchanges : Changes registry s s') : Accounted resources s' := by
  obtain ⟨hnonneg, hle⟩ := hchanges.bounds h.nonneg h.le_capacity
  exact ⟨hchanges.balance.trans h.balance, hnonneg, hle, hchanges.capacity.trans h.capacity_eq⟩

end

/-- What a running task gives back fits below the capacity. -/
theorem Accounted.fits {resources : SchedulerResources} {s : Scheduler} (h : Accounted resources s)
    (hvalid : resources.available ≤ resources.capacity) {taskId : String} {task : AgentTask}
    (hget : s.tasks.get? taskId = some task) (hstatus : task.status = .running) :
    s.resources.available + task.resourceUnits ≤ s.resources.capacity := by
  have hle := Dict.le_total held_nonneg hget
  rw [held_of_running hstatus] at hle
  have := h.balance
  have := h.capacity_eq
  omega

theorem Accounted.no_overflow {resources : SchedulerResources} {s : Scheduler} (h : Accounted resources s)
    (hvalid : resources.available ≤ resources.capacity) (sink : Sink) (taskId : String) (status : TaskStatus) :
    wp (finish sink taskId status) (fun _ _ => True)
      (fun e _ => e ≠ .runtimeError "Scheduler resource accounting overflow.") s := by
  refine wp_finish (by simp) (by simp) (fun _ _ _ => ?_) (fun task hget hstatus hover => ?_) fun _ _ _ _ _ _ => ?_
  · exact wp_reject (by simp) (by simp)
  · exact absurd hover (not_lt.mpr (h.fits hvalid hget hstatus))
  · exact wp_auditTask (by simp) (by simp)

/-- **Resource accounting**: in every run, whatever becomes of registry and sink between the calls and whether they
return or raise, what is available and what the running tasks hold make up what there was at the beginning, the bounds
hold, and the overflow branch is not reached. -/
theorem resources_accounted {resources : SchedulerResources} (hvalid : resources.validate = .ok ())
    {events : List SchedulerEvent} {s : Scheduler} (hrun : Run.exec step (new resources) events = some s) :
    s.resources.available + s.tasks.total held = resources.available ∧ 0 ≤ s.resources.available ∧
      s.resources.available ≤ s.resources.capacity ∧ s.resources.capacity = resources.capacity ∧
      ∀ sink taskId status s',
        (finish sink taskId status).run s ≠ .error (.runtimeError "Scheduler resource accounting overflow.") s' := by
  have hnew := accounted_new hvalid
  have haccounted : Accounted resources s := by
    refine Run.exec_invariant (Accounted resources) (fun s event s' h hstep => ?_) hnew hrun
    obtain rfl := Option.some.inj hstep
    exact h.changes (changes_run event.sink event.registry event.call s)
  refine ⟨haccounted.balance, haccounted.nonneg, haccounted.le_capacity, haccounted.capacity_eq, ?_⟩
  intro sink taskId status s' hraise
  have hno := haccounted.no_overflow hnew.le_capacity sink taskId status
  rw [wp, hraise] at hno
  exact hno rfl

/-- Two of three units go to a task. -/
theorem resources_accounted_twoUnits :
    let agent : AgentIdentity := ⟨⟨"momentum", by decide⟩, ⟨"1", by decide⟩, .ready⟩
    let registry := Registry.empty.enter agent (by decide)
    let task : AgentTask := ⟨⟨"t1", by decide⟩, agent.agentId, .normal, 2, .queued, by decide⟩
    ∃ s, Run.exec step (new ⟨3, 3⟩) [⟨quiet, registry, .submit task⟩, ⟨quiet, registry, .start "t1"⟩] = some s ∧
      s.resources.available = 1 ∧ s.resources.available + s.tasks.total held = 3 := by
  intro agent registry task
  exact ⟨_, rfl, rfl, (@resources_accounted ⟨3, 3⟩ rfl
    [⟨quiet, registry, .submit task⟩, ⟨quiet, registry, .start "t1"⟩] _ rfl).1⟩

end Scheduler

end Atlas.ControlPlane
