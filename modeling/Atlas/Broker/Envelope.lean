import Atlas.Lib.GoJson

/-!
# The broker's envelope check

`Validate` of the message broker's `envelope` package with the payload checks for memory and strategy signal
messages. An error is kept as the format and the arguments `fmt.Errorf` is called with.

* `EngineMessage`, `MessageMetadata` and the payload records with their JSON fields;
* `validateExecutionOutcome`, `validateRiskAssessment`, `validateAgentDecision`, `validateMemoryPayload`;
* `validate` : of a body's bytes; `validate_ok_iff` : what an accepted body starts with.
-/

namespace Atlas.Broker

open Json GoJson

inductive Arg
  | str (s : String)
  | float (q : ℚ)
  deriving DecidableEq

inductive EnvelopeError
  | json (e : DecodeError)
  | errorf (format : String) (args : List Arg)
  | wrapf (format : String) (e : EnvelopeError)
  deriving DecidableEq

/-- `Decoder.Decode` into a record, the error wrapped. -/
def decodeInto {σ : Type} (format : String) (fields : List (StructField σ)) (zero : σ) (raw : Value) :
    Except EnvelopeError σ :=
  (decodeStruct fields raw zero).mapError fun e => .wrapf format (.json e)

/-! ## The message -/

structure MessageMetadata where
  specificationID : String
  policyVersion : String
  owner : String
  validationStatus : String
  deriving DecidableEq, Inhabited

def MessageMetadata.fields : List (StructField MessageMetadata) :=
  [.of "specification_id" string fun x m => { m with specificationID := x },
    .of "policy_version" string fun x m => { m with policyVersion := x },
    .of "owner" string fun x m => { m with owner := x },
    .of "validation_status" string fun x m => { m with validationStatus := x }]

/-- `payload` is the raw message: absent, or the value that stands there. -/
structure EngineMessage where
  contractVersion : String
  messageType : String
  sourceEngine : String
  timestamp : String
  payload : Option Value
  metadata : MessageMetadata
  deriving Inhabited

def EngineMessage.fields : List (StructField EngineMessage) :=
  [.of "contract_version" string fun x m => { m with contractVersion := x },
    .of "message_type" string fun x m => { m with messageType := x },
    .of "source_engine" string fun x m => { m with sourceEngine := x },
    .of "timestamp" string fun x m => { m with timestamp := x },
    .of "payload" rawMessage fun x m => { m with payload := some x },
    .nested "metadata" MessageMetadata.fields EngineMessage.metadata fun x m => { m with metadata := x }]

/-- The message before anything is decoded into it. -/
def EngineMessage.zero : EngineMessage := ⟨"", "", "", "", none, ⟨"", "", "", ""⟩⟩

def validEngines : List String := ["rust_engine", "python_engine", "go_engine"]

/-! ## Memory payloads -/

structure ExecutionOutcomePayload where
  orderID : String
  symbol : String
  side : String
  quantityScaled : ℤ
  pnlScaled : ℤ
  status : String
  deriving DecidableEq

def ExecutionOutcomePayload.fields : List (StructField ExecutionOutcomePayload) :=
  [.of "order_id" string fun x p => { p with orderID := x },
    .of "symbol" string fun x p => { p with symbol := x },
    .of "side" string fun x p => { p with side := x },
    .of "quantity" int64 fun x p => { p with quantityScaled := x },
    .of "pnl" int64 fun x p => { p with pnlScaled := x },
    .of "status" string fun x p => { p with status := x }]

structure RiskAssessmentPayload where
  assessmentType : String
  result : String
  circuitBreakerState : String
  riskScore : ℚ
  deriving DecidableEq

def RiskAssessmentPayload.fields : List (StructField RiskAssessmentPayload) :=
  [.of "assessment_type" string fun x p => { p with assessmentType := x },
    .of "result" string fun x p => { p with result := x },
    .of "circuit_breaker_state" string fun x p => { p with circuitBreakerState := x },
    .of "risk_score" float64 fun x p => { p with riskScore := x }]

structure AgentDecisionPayload where
  decisionType : String
  inputSummary : String
  outputAction : String
  confidence : ℚ
  deriving DecidableEq

def AgentDecisionPayload.fields : List (StructField AgentDecisionPayload) :=
  [.of "decision_type" string fun x p => { p with decisionType := x },
    .of "input_summary" string fun x p => { p with inputSummary := x },
    .of "output_action" string fun x p => { p with outputAction := x },
    .of "confidence" float64 fun x p => { p with confidence := x }]

/-! ### Where the fields are held -/

namespace ExecutionOutcomePayload

theorem heldIn_orderID : HeldIn fields "order_id" string ExecutionOutcomePayload.orderID := by
  refine heldIn_here (fun _ _ => rfl) ?_
  simp only [List.forall_mem_cons, List.not_mem_nil, false_imp_iff, implies_true, and_true]
  refine ⟨?_, ?_, ?_, ?_, ?_⟩ <;> exact beside_of (by decide) fun _ _ => rfl

theorem heldIn_symbol : HeldIn fields "symbol" string ExecutionOutcomePayload.symbol := by
  refine heldIn_there (beside_of (by decide) fun _ _ => rfl) <| heldIn_here (fun _ _ => rfl) ?_
  simp only [List.forall_mem_cons, List.not_mem_nil, false_imp_iff, implies_true, and_true]
  refine ⟨?_, ?_, ?_, ?_⟩ <;> exact beside_of (by decide) fun _ _ => rfl

theorem heldIn_side : HeldIn fields "side" string ExecutionOutcomePayload.side := by
  refine heldIn_there (beside_of (by decide) fun _ _ => rfl) <|
    heldIn_there (beside_of (by decide) fun _ _ => rfl) <| heldIn_here (fun _ _ => rfl) ?_
  simp only [List.forall_mem_cons, List.not_mem_nil, false_imp_iff, implies_true, and_true]
  refine ⟨?_, ?_, ?_⟩ <;> exact beside_of (by decide) fun _ _ => rfl

theorem heldIn_status : HeldIn fields "status" string ExecutionOutcomePayload.status := by
  refine heldIn_there (beside_of (by decide) fun _ _ => rfl) <|
    heldIn_there (beside_of (by decide) fun _ _ => rfl) <| heldIn_there (beside_of (by decide) fun _ _ => rfl) <|
    heldIn_there (beside_of (by decide) fun _ _ => rfl) <| heldIn_there (beside_of (by decide) fun _ _ => rfl) <|
    heldIn_here (fun _ _ => rfl) ?_
  simp

end ExecutionOutcomePayload

namespace RiskAssessmentPayload

theorem heldIn_assessmentType : HeldIn fields "assessment_type" string RiskAssessmentPayload.assessmentType := by
  refine heldIn_here (fun _ _ => rfl) ?_
  simp only [List.forall_mem_cons, List.not_mem_nil, false_imp_iff, implies_true, and_true]
  refine ⟨?_, ?_, ?_⟩ <;> exact beside_of (by decide) fun _ _ => rfl

theorem heldIn_result : HeldIn fields "result" string RiskAssessmentPayload.result := by
  refine heldIn_there (beside_of (by decide) fun _ _ => rfl) <| heldIn_here (fun _ _ => rfl) ?_
  simp only [List.forall_mem_cons, List.not_mem_nil, false_imp_iff, implies_true, and_true]
  refine ⟨?_, ?_⟩ <;> exact beside_of (by decide) fun _ _ => rfl

theorem heldIn_circuitBreakerState :
    HeldIn fields "circuit_breaker_state" string RiskAssessmentPayload.circuitBreakerState := by
  refine heldIn_there (beside_of (by decide) fun _ _ => rfl) <|
    heldIn_there (beside_of (by decide) fun _ _ => rfl) <| heldIn_here (fun _ _ => rfl) ?_
  simp only [List.forall_mem_cons, List.not_mem_nil, false_imp_iff, implies_true, and_true]
  exact beside_of (by decide) fun _ _ => rfl

theorem heldIn_riskScore : HeldIn fields "risk_score" float64 RiskAssessmentPayload.riskScore := by
  refine heldIn_there (beside_of (by decide) fun _ _ => rfl) <|
    heldIn_there (beside_of (by decide) fun _ _ => rfl) <| heldIn_there (beside_of (by decide) fun _ _ => rfl) <|
    heldIn_here (fun _ _ => rfl) ?_
  simp

end RiskAssessmentPayload

namespace AgentDecisionPayload

theorem heldIn_decisionType : HeldIn fields "decision_type" string AgentDecisionPayload.decisionType := by
  refine heldIn_here (fun _ _ => rfl) ?_
  simp only [List.forall_mem_cons, List.not_mem_nil, false_imp_iff, implies_true, and_true]
  refine ⟨?_, ?_, ?_⟩ <;> exact beside_of (by decide) fun _ _ => rfl

theorem heldIn_inputSummary : HeldIn fields "input_summary" string AgentDecisionPayload.inputSummary := by
  refine heldIn_there (beside_of (by decide) fun _ _ => rfl) <| heldIn_here (fun _ _ => rfl) ?_
  simp only [List.forall_mem_cons, List.not_mem_nil, false_imp_iff, implies_true, and_true]
  refine ⟨?_, ?_⟩ <;> exact beside_of (by decide) fun _ _ => rfl

theorem heldIn_outputAction : HeldIn fields "output_action" string AgentDecisionPayload.outputAction := by
  refine heldIn_there (beside_of (by decide) fun _ _ => rfl) <|
    heldIn_there (beside_of (by decide) fun _ _ => rfl) <| heldIn_here (fun _ _ => rfl) ?_
  simp only [List.forall_mem_cons, List.not_mem_nil, false_imp_iff, implies_true, and_true]
  exact beside_of (by decide) fun _ _ => rfl

theorem heldIn_confidence : HeldIn fields "confidence" float64 AgentDecisionPayload.confidence := by
  refine heldIn_there (beside_of (by decide) fun _ _ => rfl) <|
    heldIn_there (beside_of (by decide) fun _ _ => rfl) <| heldIn_there (beside_of (by decide) fun _ _ => rfl) <|
    heldIn_here (fun _ _ => rfl) ?_
  simp

end AgentDecisionPayload

/-! ### Their checks -/

/-- The checks on a decoded `execution_outcome`. -/
def ExecutionOutcomePayload.check (p : ExecutionOutcomePayload) : Except EnvelopeError Unit :=
  if p.orderID = "" then .error (.errorf "execution_outcome: order_id is required" [])
  else if p.symbol = "" then .error (.errorf "execution_outcome: symbol is required" [])
  else if p.side ≠ "buy" ∧ p.side ≠ "sell" then
    .error (.errorf "execution_outcome: side must be buy or sell, got %q" [.str p.side])
  else if p.status ≠ "filled" ∧ p.status ≠ "rejected" ∧ p.status ≠ "cancelled" ∧
      p.status ≠ "halted_by_circuit_breaker" then
    .error (.errorf "execution_outcome: invalid status %q" [.str p.status])
  else .ok ()

def RiskAssessmentPayload.check (p : RiskAssessmentPayload) : Except EnvelopeError Unit :=
  if p.assessmentType = "" then .error (.errorf "risk_assessment: assessment_type is required" [])
  else if p.result ≠ "pass" ∧ p.result ≠ "warn" ∧ p.result ≠ "block" then
    .error (.errorf "risk_assessment: result must be pass/warn/block, got %q" [.str p.result])
  else if p.circuitBreakerState ≠ "normal" ∧ p.circuitBreakerState ≠ "tripped" ∧
      p.circuitBreakerState ≠ "cooldown" then
    .error (.errorf "risk_assessment: invalid circuit_breaker_state %q" [.str p.circuitBreakerState])
  else if p.riskScore < 0 ∨ 10000 < p.riskScore then
    .error (.errorf "risk_assessment: risk_score must be 0-10000 (basis points), got %f" [.float p.riskScore])
  else .ok ()

def AgentDecisionPayload.check (p : AgentDecisionPayload) : Except EnvelopeError Unit :=
  if p.decisionType = "" then .error (.errorf "agent_decision: decision_type is required" [])
  else if p.inputSummary = "" then .error (.errorf "agent_decision: input_summary is required" [])
  else if p.outputAction = "" then .error (.errorf "agent_decision: output_action is required" [])
  else if p.confidence < 0 ∨ 1 < p.confidence then
    .error (.errorf "agent_decision: confidence must be 0-1, got %f" [.float p.confidence])
  else .ok ()

def validateExecutionOutcome (raw : Value) : Except EnvelopeError Unit :=
  match decodeInto "execution_outcome decode: %w" ExecutionOutcomePayload.fields ⟨"", "", "", 0, 0, ""⟩ raw with
  | .error e => .error e
  | .ok p => p.check

def validateRiskAssessment (raw : Value) : Except EnvelopeError Unit :=
  match decodeInto "risk_assessment decode: %w" RiskAssessmentPayload.fields ⟨"", "", "", 0⟩ raw with
  | .error e => .error e
  | .ok p => p.check

def validateAgentDecision (raw : Value) : Except EnvelopeError Unit :=
  match decodeInto "agent_decision decode: %w" AgentDecisionPayload.fields ⟨"", "", "", 0⟩ raw with
  | .error e => .error e
  | .ok p => p.check

theorem ExecutionOutcomePayload.check_ok {p : ExecutionOutcomePayload} (h : p.check = .ok ()) :
    p.orderID ≠ "" ∧ p.symbol ≠ "" ∧ p.side ∈ ["buy", "sell"] ∧
      p.status ∈ ["filled", "rejected", "cancelled", "halted_by_circuit_breaker"] := by
  unfold check at h
  split_ifs at h with horder hsymbol hside hstatus
  refine ⟨horder, hsymbol, ?_, ?_⟩
  · simp only [List.mem_cons, List.not_mem_nil, or_false]
    tauto
  · simp only [List.mem_cons, List.not_mem_nil, or_false]
    tauto

theorem RiskAssessmentPayload.check_ok {p : RiskAssessmentPayload} (h : p.check = .ok ()) :
    p.assessmentType ≠ "" ∧ p.result ∈ ["pass", "warn", "block"] ∧
      p.circuitBreakerState ∈ ["normal", "tripped", "cooldown"] ∧ 0 ≤ p.riskScore ∧ p.riskScore ≤ 10000 := by
  unfold check at h
  split_ifs at h with htype hresult hstate hscore
  refine ⟨htype, ?_, ?_, not_lt.mp fun hlt => hscore (Or.inl hlt), not_lt.mp fun hlt => hscore (Or.inr hlt)⟩
  · simp only [List.mem_cons, List.not_mem_nil, or_false]
    tauto
  · simp only [List.mem_cons, List.not_mem_nil, or_false]
    tauto

theorem AgentDecisionPayload.check_ok {p : AgentDecisionPayload} (h : p.check = .ok ()) :
    p.decisionType ≠ "" ∧ p.inputSummary ≠ "" ∧ p.outputAction ≠ "" ∧ 0 ≤ p.confidence ∧ p.confidence ≤ 1 := by
  unfold check at h
  split_ifs at h with htype hinput houtput hconfidence
  exact ⟨htype, hinput, houtput, not_lt.mp fun hlt => hconfidence (Or.inl hlt),
    not_lt.mp fun hlt => hconfidence (Or.inr hlt)⟩

/-- The keys of the probe map: `null` makes an empty map, any other value that is no object an error. -/
def probeKeys : Option Value → Except DecodeError (List String)
  | none => .error .malformed
  | some v => (mapOf rawMessage v).map fun entries => (entries.getD []).map Prod.fst

theorem probeKeys_obj (ms : List (StrLit × Value)) : probeKeys (some (.obj ms)) = .ok (ms.map (goString ·.1)) := by
  have hmap : ms.mapM (fun m => (rawMessage m.2).map fun a => (goString m.1, a))
      = .ok (ms.map fun m => (goString m.1, some m.2)) := by
    induction ms with
    | nil => rfl
    | cons m ms ih => rw [List.mapM_cons, ih]; rfl
  rw [probeKeys, mapOf, hmap]
  show Except.ok ((ms.map fun m => (goString m.1, some m.2)).map Prod.fst) = _
  rw [List.map_map]
  rfl

/-- The kind of event is told by the first of three keys that is there. -/
def validateMemoryPayload (raw : Option Value) : Except EnvelopeError Unit :=
  match probeKeys raw with
  | .error e => .error (.wrapf "payload is not a JSON object: %w" (.json e))
  | .ok keys =>
    if "order_id" ∈ keys then validateExecutionOutcome (raw.getD (.obj []))
    else if "assessment_type" ∈ keys then validateRiskAssessment (raw.getD (.obj []))
    else if "decision_type" ∈ keys then validateAgentDecision (raw.getD (.obj []))
    else .error (.errorf "unknown memory event type: cannot identify from payload fields" [])

theorem decodeInto_ok {σ : Type} {format : String} {fields : List (StructField σ)} {zero p : σ} {raw : Value} :
    decodeInto format fields zero raw = .ok p ↔ decodeStruct fields raw zero = .ok p := by
  unfold decodeInto
  cases decodeStruct fields raw zero <;> simp [Except.mapError]

/-- An accepted memory payload is an object of the first kind whose key is there. -/
theorem validateMemoryPayload_cases {raw : Option Value} (h : validateMemoryPayload raw = .ok ()) :
    ∃ ms, raw = some (.obj ms) ∧
      (("order_id" ∈ ms.map (goString ·.1) ∧ validateExecutionOutcome (.obj ms) = .ok ()) ∨
        ("order_id" ∉ ms.map (goString ·.1) ∧ "assessment_type" ∈ ms.map (goString ·.1) ∧
          validateRiskAssessment (.obj ms) = .ok ()) ∨
        ("order_id" ∉ ms.map (goString ·.1) ∧ "assessment_type" ∉ ms.map (goString ·.1) ∧
          "decision_type" ∈ ms.map (goString ·.1) ∧ validateAgentDecision (.obj ms) = .ok ())) := by
  have hobj : ∃ ms, raw = some (.obj ms) := by
    rcases raw with _ | ((_ | _ | _) | _ | _ | _ | ms)
    case some.obj => exact ⟨ms, rfl⟩
    all_goals cases h
  obtain ⟨ms, rfl⟩ := hobj
  refine ⟨ms, rfl, ?_⟩
  rw [validateMemoryPayload, probeKeys_obj] at h
  simp only [Option.getD_some] at h
  split_ifs at h with ho ha hd
  · exact Or.inl ⟨ho, h⟩
  · exact Or.inr (Or.inl ⟨ho, ha, h⟩)
  · exact Or.inr (Or.inr ⟨ho, ha, hd, h⟩)

/-! ## Strategy signal payloads -/

structure StrategySignalData where
  symbol : String
  direction : String
  confidence : ℚ
  regime : String
  parameters : Option (List (String × Unit))

def StrategySignalData.fields : List (StructField StrategySignalData) :=
  [.of "symbol" string fun x p => { p with symbol := x },
    .of "direction" string fun x p => { p with direction := x },
    .of "confidence" float64 fun x p => { p with confidence := x },
    .of "regime" string fun x p => { p with regime := x },
    .of "parameters" (mapOf anyValue) fun x p => { p with parameters := some x }]

structure StrategySignalPayload where
  version : String
  eventID : String
  timestampUTC : String
  traceID : Option String
  sourceAgent : String
  signal : StrategySignalData
  metadata : Option (List (String × String))

def StrategySignalPayload.fields : List (StructField StrategySignalPayload) :=
  [.of "version" string fun x p => { p with version := x },
    .of "event_id" string fun x p => { p with eventID := x },
    .of "timestamp_utc" string fun x p => { p with timestampUTC := x },
    { name := "trace_id"
      set := fun v p => (string v).map fun x => { p with traceID := x } },
    .of "source_agent" string fun x p => { p with sourceAgent := x },
    .nested "signal" StrategySignalData.fields StrategySignalPayload.signal fun x p => { p with signal := x },
    .of "metadata" (mapOf fun v => (string v).map (Option.getD · "")) fun x p => { p with metadata := some x }]

def StrategySignalPayload.zero : StrategySignalPayload := ⟨"", "", "", none, "", ⟨"", "", 0, "", none⟩, none⟩

def validDirections : List String := ["LONG", "SHORT", "FLAT"]

def validRegimes : List String := ["TRENDING", "RANGING", "VOLATILE", "CALM"]

def isValidSymbol (s : String) : Bool :=
  if s.utf8ByteSize < 2 ∨ s.utf8ByteSize > 20 then false
  else s.toList.all fun c => ('A' ≤ c ∧ c ≤ 'Z') ∨ ('0' ≤ c ∧ c ≤ '9')

def StrategySignalPayload.check (p : StrategySignalPayload) : Except EnvelopeError Unit :=
  if p.version ≠ "1.0.0" then .error (.errorf "strategy signal: version must be 1.0.0, got %q" [.str p.version])
  else if p.eventID = "" then .error (.errorf "strategy signal: event_id is required" [])
  else if p.timestampUTC = "" then .error (.errorf "strategy signal: timestamp_utc is required" [])
  else if p.sourceAgent = "" then .error (.errorf "strategy signal: source_agent is required" [])
  else if isValidSymbol p.signal.symbol = false then
    .error (.errorf "strategy signal: symbol %q does not match ^[A-Z0-9]\x7b2,20\x7d$" [.str p.signal.symbol])
  else if p.signal.direction ∉ validDirections then
    .error (.errorf "strategy signal: direction must be LONG/SHORT/FLAT, got %q" [.str p.signal.direction])
  else if p.signal.confidence < 0 ∨ 1 < p.signal.confidence then
    .error (.errorf "strategy signal: confidence must be 0-1, got %f" [.float p.signal.confidence])
  else if p.signal.regime ∉ validRegimes then
    .error (.errorf "strategy signal: regime must be TRENDING/RANGING/VOLATILE/CALM, got %q" [.str p.signal.regime])
  else .ok ()

def validateStrategySignalPayload (raw : Option Value) : Except EnvelopeError Unit :=
  match raw with
  | none => .error (.wrapf "strategy signal decode: %w" (.json .malformed))
  | some raw =>
    match decodeInto "strategy signal decode: %w" StrategySignalPayload.fields .zero raw with
    | .error e => .error e
    | .ok p => p.check

/-! ## The check of a message -/

/-- The checks on a decoded message, in the order of the source. -/
def EngineMessage.check (msg : EngineMessage) : Except EnvelopeError Unit :=
  if msg.contractVersion ≠ "1.0" then .error (.errorf "invalid contract_version: %s" [.str msg.contractVersion])
  else if msg.sourceEngine ∉ validEngines then .error (.errorf "invalid source_engine: %s" [.str msg.sourceEngine])
  else if msg.messageType = "" ∨ msg.timestamp = "" then .error (.errorf "missing required fields" [])
  else if msg.metadata.specificationID = "" ∨ msg.metadata.owner = "" then
    .error (.errorf "missing required metadata fields" [])
  else if msg.messageType = "memory.experience.v1" then
    (validateMemoryPayload msg.payload).mapError (.wrapf "memory payload validation: %w")
  else if msg.messageType = "strategy.signal.v1" then
    (validateStrategySignalPayload msg.payload).mapError (.wrapf "strategy signal payload validation: %w")
  else .ok ()

/-- `Validate` : decode the first JSON value of the body, then check. What follows the value is not looked at. -/
def validate (data : List UInt8) : Except EnvelopeError EngineMessage :=
  match firstValue data with
  | none => .error (.wrapf "envelope decode: %w" (.json .malformed))
  | some v =>
    match decodeInto "envelope decode: %w" EngineMessage.fields .zero v with
    | .error e => .error e
    | .ok msg =>
      match msg.check with
      | .error e => .error e
      | .ok () => .ok msg

/-- A body is accepted for its first value, decoded and checked. -/
theorem validate_ok_iff {data : List UInt8} {msg : EngineMessage} :
    validate data = .ok msg ↔
      ∃ v, firstValue data = some v ∧ decodeStruct EngineMessage.fields v .zero = .ok msg ∧ msg.check = .ok () := by
  unfold validate decodeInto
  constructor
  · intro h
    split at h
    · cases h
    · rename_i v hv
      split at h
      · cases h
      · rename_i m hm
        split at h
        · cases h
        · rename_i hcheck
          obtain rfl := Except.ok.inj h
          refine ⟨v, hv, ?_, hcheck⟩
          cases hd : decodeStruct EngineMessage.fields v .zero with
          | error e => rw [hd] at hm; cases hm
          | ok m' => simpa [hd, Except.mapError] using hm
  · rintro ⟨v, hv, hd, hcheck⟩
    rw [hv]
    simp only [hd, Except.mapError, hcheck]

end Atlas.Broker
