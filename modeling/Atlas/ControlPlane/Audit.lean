import Atlas.ControlPlane.Agents

/-!
# Audit records: `audit/models.py`, `audit/interface.py`, `audit/database_sink.py`

* `AuditRecord` : what the engines hand to the sink, but for the time of day;
* `retained` : the rows that the table of the database sink ends up with; `retained_iff` : when that is all of them;
* `Sink` : how a sink answers, given the records it has got so far; `quiet` : a sink that never raises, as the sink in
  memory and the database sink do;
* `record`, `wp_record` : a record is handed over, and the call goes on unless the sink raises.
-/

namespace Atlas.ControlPlane
open Raising

inductive AuditEventType
  | memoryRetrieve
  | memoryStore
  | memoryForget
  | communicationSend
  | schedulerTask
  | strategySignalReceived
  | strategySignalExecuted
  | riskAssessment
  deriving DecidableEq, Repr

inductive AuditAction
  | requested
  | completed
  | failed
  deriving DecidableEq, Repr

inductive AuditResult
  | success
  | failure
  deriving DecidableEq, Repr

inductive EventId
  /-- `str(uuid4())` -/
  | uuid4
  | named (id : Id)
  deriving DecidableEq

inductive MetaValue
  | absent
  | flag (b : Bool)
  | text (s : String)
  deriving DecidableEq, Repr

/-- The contract version of every record is `"1.0"`. -/
structure AuditRecord where
  eventId : EventId
  eventType : AuditEventType
  operationId : Id
  agentId : Id
  action : AuditAction
  resource : Id
  result : AuditResult
  metadata : List (String × MetaValue)
  deriving DecidableEq

def EventId.name? : EventId → Option Id
  | .uuid4 => none
  | .named id => some id

/-- The event ids that are not drawn afresh. -/
def names (records : List AuditRecord) : List Id := records.filterMap (·.eventId.name?)

/-! ## The table of the database sink -/

/-- `DatabaseAuditSink.record` on a table with the text of `event_id` as its key: a second row with the same key is
refused, and the sink only logs that. -/
def insertRow (table : List AuditRecord) (event : AuditRecord) : List AuditRecord :=
  match event.eventId.name? with
  | none => table ++ [event]
  | some id => if id ∈ names table then table else table ++ [event]

/-- The table after the records. -/
def retained (records : List AuditRecord) : List AuditRecord := records.foldl insertRow []

theorem length_foldl_insertRow (table records : List AuditRecord) :
    (records.foldl insertRow table).length ≤ table.length + records.length := by
  induction records generalizing table with
  | nil => simp
  | cons event records ih =>
    have hrow : (insertRow table event).length ≤ table.length + 1 := by
      unfold insertRow
      split
      · simp
      · split_ifs <;> simp
    have := ih (insertRow table event)
    rw [List.foldl_cons, List.length_cons]
    omega

theorem foldl_insertRow_iff (table records : List AuditRecord) (h : (names table).Nodup) :
    records.foldl insertRow table = table ++ records ↔ (names (table ++ records)).Nodup := by
  induction records generalizing table with
  | nil => simpa using h
  | cons event records ih =>
    rw [List.foldl_cons, List.append_cons]
    cases hname : event.eventId.name? with
    | none =>
      have hsame : names (table ++ [event]) = names table := by simp [names, hname]
      rw [insertRow, hname]
      exact ih _ (hsame ▸ h)
    | some id =>
      have hnames : names (table ++ [event]) = names table ++ [id] := by simp [names, hname]
      rw [insertRow, hname]
      dsimp only
      split_ifs with hmem
      · refine iff_of_false (fun heq => ?_) (fun hnodup => ?_)
        · have hle := length_foldl_insertRow table records
          rw [heq] at hle
          simp at hle
        · have hsub : (names (table ++ [event])).Nodup := by
            unfold names at hnodup ⊢
            rw [List.filterMap_append] at hnodup
            exact hnodup.of_append_left
          rw [hnames, List.nodup_append] at hsub
          exact hsub.2.2 id hmem id (List.mem_singleton_self id) rfl
      · apply ih
        rw [hnames, List.nodup_append]
        refine ⟨h, List.nodup_singleton _, fun a ha b hb => ?_⟩
        rw [List.mem_singleton.mp hb]
        rintro rfl
        exact hmem ha

/-- The table keeps all records just when no name comes twice. -/
theorem retained_iff (records : List AuditRecord) : retained records = records ↔ (names records).Nodup := by
  unfold retained
  simpa using foldl_insertRow_iff [] records List.nodup_nil

/-! ## Sinks -/

/-- The text of the exception that the sink raises at a record, if it does, behind the records it has got before. -/
abbrev Sink := List AuditRecord → AuditRecord → Option String

def quiet : Sink := fun _ _ => none

section
variable {σ : Type}

/-- `self._audit_sink.record(event)`, where `append` keeps account of what the sink has got. -/
def record (log : σ → List AuditRecord) (append : AuditRecord → σ → σ) (sink : Sink) (event : AuditRecord) :
    EStateM Raised σ Unit := do
  let s ← get
  modify (append event)
  match sink (log s) event with
  | none => return
  | some text => throw (.foreign text)

theorem wp_record {log : σ → List AuditRecord} {append : AuditRecord → σ → σ} {sink : Sink} {event : AuditRecord}
    {Q : Unit → σ → Prop} {E : Raised → σ → Prop} {s : σ} (hreturn : Q () (append event s))
    (hraise : ∀ text, sink (log s) event = some text → E (.foreign text) (append event s)) :
    wp (record log append sink event) Q E s := by
  unfold record
  simp only [wp_bind, wp_get, wp_modify]
  split
  · exact hreturn
  · rename_i text htext
    exact hraise text htext

/-- A quiet sink takes the record. -/
theorem wp_record_quiet {log : σ → List AuditRecord} {append : AuditRecord → σ → σ} {event : AuditRecord}
    {Q : Unit → σ → Prop} {E : Raised → σ → Prop} {s : σ} :
    wp (record log append quiet event) Q E s ↔ Q () (append event s) :=
  Iff.rfl

end

end Atlas.ControlPlane
