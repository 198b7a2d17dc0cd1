import Atlas.Lib.PyJson

/-!
# The experience engine

The capture functions of `ExperienceEngine`, the record they build and the way it takes through the memory kernel, with
`_detect_event_type` of the subscriber.

* `MemoryRecord` : a record; the texts its model declares with `min_length=1` are non-empty by type;
* `CaptureFunction.call` : a capture function on keyword arguments: binding, checks, record, kernel;
* `captureExecutionOutcome`, `captureRiskAssessment`, `captureAgentDecision` : the three, and `detectEventType`;
* `call_isCaptured_iff` : a call passes validation just when its arguments bind and all checks pass.
-/

namespace Atlas.Memory

open PyJson

/-- What is raised; `typeError` for a call or a comparison that cannot be made, `storage` by the storage behind the
kernel. -/
inductive Raised
  | typeError
  | valueError (text : String) (got : Option PyValue)
  | validationError (field : String)
  | storage (text : String)

inductive MemoryType
  | working | episodic | semantic | procedural
  deriving DecidableEq, Repr

inductive ValidationStatus
  | pending | validated | rejected
  deriving DecidableEq, Repr

/-- A `str` field with `min_length=1`; such a field takes Unicode text only, no lone surrogates. -/
abbrev NonEmptyStr := {s : String // s ≠ ""}

def nonEmptyStr (field : String) (s : String) : Except Raised NonEmptyStr :=
  if h : s ≠ "" then .ok ⟨s, h⟩ else .error (.validationError field)

structure MemoryRecord where
  memoryId : NonEmptyStr
  memoryType : MemoryType
  content : List (String × PyValue)
  metadata : List (PyStr × PyValue)
  validationStatus : ValidationStatus
  operationId : NonEmptyStr
  agentId : NonEmptyStr

/-! ## The kernel -/

/-- `MemoryValidator.validate` -/
def validate (record : MemoryRecord) : Except Raised MemoryRecord :=
  if record.memoryId.1 = "" then .error (.valueError "memory_id must not be empty." none)
  else if record.operationId.1 = "" then .error (.valueError "operation_id must not be empty." none)
  else if record.agentId.1 = "" then .error (.valueError "agent_id must not be empty." none)
  else if record.validationStatus = .rejected then .error (.valueError "Rejected memory cannot be persisted." none)
  else .ok record

/-- A storage: it takes a record or raises. -/
abbrev Storage := MemoryRecord → Except String Unit

/-- `MemoryKernel.store` -/
def kernelStore (storage : Storage) (record : MemoryRecord) : Except Raised Unit :=
  match validate record with
  | .error e => .error e
  | .ok record =>
    if record.validationStatus ≠ .validated then .error (.valueError "Only validated memory may be stored." none)
    else (storage record).mapError .storage

inductive AuditResult
  | success | failure
  deriving DecidableEq, Repr

/-- `_store_and_audit` : what is returned or raised, and the results of the audit records on the way. -/
def storeAndAudit (storage : Storage) (record : MemoryRecord) : Except Raised MemoryRecord × List AuditResult :=
  match kernelStore storage record with
  | .ok () => (.ok record, [.success])
  | .error e => (.error e, [.failure])

/-! ## Capture functions -/

/-- The checks in front of a record; each names an argument. -/
inductive Check
  | notEmpty (name : String)
  | oneOf (name : String) (options : List String) (text : String)
  | between (name : String) (low high : ℚ) (text : String)

namespace Check

def name : Check → String
  | notEmpty name => name
  | oneOf name _ _ => name
  | between name _ _ _ => name

def run (arg : String → PyValue) : Check → Except Raised Unit
  | notEmpty name => if (arg name).truthy then .ok () else .error (.valueError (name ++ " must not be empty") none)
  | oneOf name options text =>
    if options.any (arg name).isStr then .ok () else .error (.valueError text (some (arg name)))
  | between name low high text =>
    match (arg name).number? with
    | none => .error .typeError
    | some x =>
      if ((low : WithTop ℚ) : WithBot (WithTop ℚ)) ≤ x ∧ x ≤ ((high : WithTop ℚ) : WithBot (WithTop ℚ)) then .ok ()
      else .error (.valueError text (some (arg name)))

end Check

/-- A capture function: the arguments it requires besides `agent_id` and `operation_id`, and its checks in order. -/
structure CaptureFunction where
  eventType : String
  required : List String
  checks : List Check

def captureExecutionOutcome : CaptureFunction where
  eventType := "execution_outcome"
  required := ["order_id", "symbol", "side", "quantity", "pnl", "status"]
  checks := [.notEmpty "order_id", .notEmpty "symbol", .oneOf "side" ["buy", "sell"] "side must be buy or sell, got ",
    .oneOf "status" ["filled", "rejected", "cancelled", "halted_by_circuit_breaker"] "invalid status: "]

def captureRiskAssessment : CaptureFunction where
  eventType := "risk_assessment"
  required := ["assessment_type", "result", "circuit_breaker_state", "risk_score"]
  checks := [.notEmpty "assessment_type",
    .oneOf "result" ["pass", "warn", "block"] "result must be pass/warn/block, got ",
    .oneOf "circuit_breaker_state" ["normal", "tripped", "cooldown"] "invalid circuit_breaker_state: ",
    .between "risk_score" 0 100 "risk_score must be 0-100, got "]

def captureAgentDecision : CaptureFunction where
  eventType := "agent_decision"
  required := ["decision_type", "input_summary", "output_action", "confidence"]
  checks := [.notEmpty "decision_type", .notEmpty "input_summary", .notEmpty "output_action",
    .between "confidence" 0 1 "confidence must be 0-1, got "]

/-- `_detect_event_type` -/
def detectEventType (payload : List (PyStr × PyValue)) : String :=
  if (get payload (pyStr "order_id")).isSome then "execution_outcome"
  else if (get payload (pyStr "assessment_type")).isSome then "risk_assessment"
  else if (get payload (pyStr "decision_type")).isSome then "agent_decision"
  else "unknown"

/-- The capture function of an event type. -/
def captureOf (eventType : String) : Option CaptureFunction :=
  [captureExecutionOutcome, captureRiskAssessment, captureAgentDecision].find? (·.eventType = eventType)

namespace CaptureFunction

/-- Keyword binding, with `agent_id` and `operation_id` given apart: a key that is no parameter, or one given twice,
is a `TypeError`, and so is a required argument that is missing. -/
def bindArguments (f : CaptureFunction) (payload : List (PyStr × PyValue)) : Except Raised (String → PyValue) :=
  if (∀ item ∈ payload, item.1 ∈ ("metadata" :: f.required).map pyStr) ∧
      ∀ name ∈ f.required, (get payload (pyStr name)).isSome then
    .ok fun name => (get payload (pyStr name)).getD .none
  else .error .typeError

def runChecks (arg : String → PyValue) : List Check → Except Raised Unit
  | [] => .ok ()
  | c :: cs =>
    match c.run arg with
    | .error e => .error e
    | .ok () => runChecks arg cs

/-- `metadata or {}`, which the record's model wants to be a dict. -/
def metadataOf (v : PyValue) : Except Raised (List (PyStr × PyValue)) :=
  if v.truthy then
    match v with
    | .dict items => .ok items
    | _ => .error (.validationError "metadata")
  else .ok []

/-- A call `f(**payload, agent_id=agentId, operation_id=operationId)`. `memoryId` : the text of a fresh UUID. -/
def call (f : CaptureFunction) (storage : Storage) (memoryId : NonEmptyStr) (payload : List (PyStr × PyValue))
    (agentId operationId : String) : Except Raised MemoryRecord × List AuditResult :=
  match f.bindArguments payload with
  | .error e => (.error e, [])
  | .ok arg =>
    match runChecks arg f.checks with
    | .error e => (.error e, [])
    | .ok () =>
      match metadataOf (arg "metadata"), nonEmptyStr "operation_id" operationId, nonEmptyStr "agent_id" agentId with
      | .ok metadata, .ok operationId, .ok agentId =>
        storeAndAudit storage
          ⟨memoryId, .episodic, ("event_type", .str (pyStr f.eventType)) :: f.required.map fun name => (name, arg name),
            metadata, .validated, operationId, agentId⟩
      | .error e, _, _ => (.error e, [])
      | _, .error e, _ => (.error e, [])
      | _, _, .error e => (.error e, [])

end CaptureFunction

/-- Nothing is raised but what the storage raises. -/
def IsCaptured {α : Type} : Except Raised α → Prop
  | .ok _ => True
  | .error (.storage _) => True
  | .error _ => False

/-! ## Passing validation -/

theorem runChecks_ok_iff {arg : String → PyValue} {cs : List Check} :
    CaptureFunction.runChecks arg cs = .ok () ↔ ∀ c ∈ cs, c.run arg = .ok () := by
  induction cs with
  | nil => simp [CaptureFunction.runChecks]
  | cons c cs ih =>
    rw [CaptureFunction.runChecks, List.forall_mem_cons]
    cases hc : c.run arg with
    | error e => simp
    | ok u => simp [ih]

theorem check_raises {arg : String → PyValue} {c : Check} {e : Raised} (h : c.run arg = .error e) :
    ¬ IsCaptured (.error e : Except Raised MemoryRecord) := by
  cases c with
  | notEmpty name =>
    rw [Check.run] at h
    split_ifs at h
    obtain rfl := Except.error.inj h
    exact id
  | oneOf name options text =>
    rw [Check.run] at h
    split_ifs at h
    obtain rfl := Except.error.inj h
    exact id
  | between name low high text =>
    rw [Check.run] at h
    split at h
    · obtain rfl := Except.error.inj h
      exact id
    · split_ifs at h
      obtain rfl := Except.error.inj h
      exact id

theorem runChecks_raises {arg : String → PyValue} {cs : List Check} {e : Raised}
    (h : CaptureFunction.runChecks arg cs = .error e) : ¬ IsCaptured (.error e : Except Raised MemoryRecord) := by
  induction cs with
  | nil => cases h
  | cons c cs ih =>
    rw [CaptureFunction.runChecks] at h
    split at h
    · rename_i e' hc
      obtain rfl := Except.error.inj h
      exact check_raises hc
    · exact ih h

/-- A record whose texts are non-empty by type passes the kernel. -/
theorem storeAndAudit_isCaptured (storage : Storage) (record : MemoryRecord)
    (h : record.validationStatus = .validated) :
    IsCaptured (storeAndAudit storage record).1 := by
  have hvalid : validate record = .ok record := by
    rw [validate, if_neg record.memoryId.2, if_neg record.operationId.2, if_neg record.agentId.2, h]
    rfl
  have hstore : kernelStore storage record = (storage record).mapError .storage := by
    rw [kernelStore, hvalid]
    exact if_neg (not_not.mpr h)
  rw [storeAndAudit, hstore]
  cases storage record <;> trivial

/-- What the parameters of a call hold. -/
def argsOf (payload : List (PyStr × PyValue)) (name : String) : PyValue := (get payload (pyStr name)).getD .none

theorem bindArguments_ok_iff {f : CaptureFunction} {payload : List (PyStr × PyValue)} {arg : String → PyValue} :
    f.bindArguments payload = .ok arg ↔
      ((∀ item ∈ payload, item.1 ∈ ("metadata" :: f.required).map pyStr) ∧
        ∀ name ∈ f.required, (get payload (pyStr name)).isSome) ∧ arg = argsOf payload := by
  rw [CaptureFunction.bindArguments]
  split_ifs with hfits
  · exact ⟨fun h => ⟨hfits, (Except.ok.inj h).symm⟩, fun h => by rw [h.2]; rfl⟩
  · exact ⟨fun h => (nomatch h), fun h => absurd h.1 hfits⟩

/-- A call passes validation just when its arguments bind and all checks pass; there is no `metadata` among them. -/
theorem call_isCaptured_iff (f : CaptureFunction) (storage : Storage) (memoryId : NonEmptyStr)
    {payload : List (PyStr × PyValue)} {agentId operationId : String} (hagent : agentId ≠ "")
    (hoperation : operationId ≠ "") (hmetadata : get payload (pyStr "metadata") = none) :
    IsCaptured (f.call storage memoryId payload agentId operationId).1 ↔
      ∃ arg, f.bindArguments payload = .ok arg ∧ ∀ c ∈ f.checks, c.run arg = .ok () := by
  unfold CaptureFunction.call
  cases hbind : f.bindArguments payload with
  | error e =>
    have htype : e = .typeError := by
      rw [CaptureFunction.bindArguments] at hbind
      split_ifs at hbind
      exact (Except.error.inj hbind).symm
    subst htype
    exact ⟨False.elim, fun h => by obtain ⟨arg, harg, -⟩ := h; cases harg⟩
  | ok arg =>
    have hnone : arg "metadata" = .none := by
      rw [(bindArguments_ok_iff.mp hbind).2, argsOf, hmetadata]
      rfl
    simp only [Except.ok.injEq, exists_eq_left', ← runChecks_ok_iff]
    cases hchecks : CaptureFunction.runChecks arg f.checks with
    | error e => exact ⟨fun h => absurd h (runChecks_raises hchecks), fun h => by cases h⟩
    | ok u =>
      refine ⟨fun _ => rfl, fun _ => ?_⟩
      have hm : CaptureFunction.metadataOf (arg "metadata") = .ok [] := by
        rw [hnone]
        rfl
      rw [hm, nonEmptyStr, dif_pos hoperation, nonEmptyStr, dif_pos hagent]
      exact storeAndAudit_isCaptured storage _ rfl

end Atlas.Memory
