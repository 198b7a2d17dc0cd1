import Atlas.Execution.Orders
import Atlas.Broker.Envelope

/-!
# Memory events on their way to the broker

The execution crate's `memory_events` with the envelope of the risk crate: a memory event is wrapped, serialised by
serde_json and posted to the broker, which accepts or rejects it with `validate`.

* `MemoryEvent.body` : the bytes posted;
* `rejected_executionOutcome`, `accepted_circuitBreakerCheck` : what the broker makes of the two kinds;
* `admitOrder_accepted_iff` : the broker accepts what an admission emits just when the circuit breaker is halted.

serde_json's number writer is a parameter: `ryu x` is the literal of a finite `x`.
-/

namespace Atlas.Execution

open Json

/-! ## Serialisation -/

section Serialise

variable (ryu : F64 → NumLit)

/-- A double as serde_json writes it: `null` for NaN and the infinities. -/
def f64Value (x : F64) : Value := if x.IsFinite then .num (ryu x) else .word .null

def strValue (s : String) : Value := .str (lit s)

def ExecutionOutcome.toValue (o : ExecutionOutcome) : Value :=
  .obj [(lit "order_id", strValue o.orderId), (lit "symbol", strValue o.symbol), (lit "side", strValue o.side),
    (lit "quantity", f64Value ryu o.quantity), (lit "pnl", f64Value ryu o.pnl), (lit "status", strValue o.status)]

def RiskAssessmentEvent.toValue (a : RiskAssessmentEvent) : Value :=
  .obj [(lit "assessment_type", strValue a.assessmentType), (lit "result", strValue a.result),
    (lit "circuit_breaker_state", strValue a.circuitBreakerState), (lit "risk_score", f64Value ryu a.riskScore)]

def MemoryEvent.payload : MemoryEvent → Value
  | executionOutcome outcome => outcome.toValue ryu
  | riskAssessment assessment => assessment.toValue ryu

structure MessageMetadata where
  specificationId : String
  policyVersion : String
  owner : String
  validationStatus : String

structure EngineMessage where
  contractVersion : String
  messageType : String
  sourceEngine : String
  timestamp : String
  payload : Value
  metadata : MessageMetadata

/-- `now` : the time of day as chrono prints it. -/
def EngineMessage.newRiskMessage (now messageType specificationId : String) (payload : Value) : EngineMessage where
  contractVersion := "1.0"
  messageType := messageType
  sourceEngine := "rust_engine"
  timestamp := now
  payload := payload
  metadata := ⟨specificationId, "1.0", "Risk Engine", "validated"⟩

def MessageMetadata.toValue (m : MessageMetadata) : Value :=
  .obj [(lit "specification_id", strValue m.specificationId), (lit "policy_version", strValue m.policyVersion),
    (lit "owner", strValue m.owner), (lit "validation_status", strValue m.validationStatus)]

def EngineMessage.toValue (m : EngineMessage) : Value :=
  .obj [(lit "contract_version", strValue m.contractVersion), (lit "message_type", strValue m.messageType),
    (lit "source_engine", strValue m.sourceEngine), (lit "timestamp", strValue m.timestamp),
    (lit "payload", m.payload), (lit "metadata", m.metadata.toValue)]

def wrapMemoryEvent (now : String) (payload : Value) : EngineMessage :=
  .newRiskMessage now "memory.experience.v1" "memory-experience-event-v1" payload

/-- The bytes posted for an event. -/
def MemoryEvent.body (now : String) (e : MemoryEvent) : List UInt8 :=
  (wrapMemoryEvent now (e.payload ryu)).toValue.render

end Serialise

/-! ## The broker's answer -/

open GoJson Broker

variable {ryu : F64 → NumLit}

@[simp] theorem string_strValue (s : String) : GoJson.string (strValue s) = .ok (some s) := by
  rw [strValue, GoJson.string, goString_lit]

theorem depth_f64Value (x : F64) : (f64Value ryu x).depth = 0 := by
  unfold f64Value
  split_ifs <;> rfl

theorem depth_payload (e : MemoryEvent) : (e.payload ryu).depth = 1 := by
  cases e <;> simp [MemoryEvent.payload, ExecutionOutcome.toValue, RiskAssessmentEvent.toValue, Value.depth,
    memberDepth, strValue, depth_f64Value]

/-- The message the broker decodes from a memory event. -/
def received (now : String) (payload : Value) : Broker.EngineMessage :=
  ⟨"1.0", "memory.experience.v1", "rust_engine", now, some payload,
    ⟨"memory-experience-event-v1", "1.0", "Risk Engine", "validated"⟩⟩

theorem decode_body (now : String) (payload : Value) :
    decodeStruct EngineMessage.fields (wrapMemoryEvent now payload).toValue .zero = .ok (received now payload) := by
  simp [decodeStruct, decodeMembers, field?, EngineMessage.fields, StructField.of, wrapMemoryEvent,
    Execution.EngineMessage.newRiskMessage, Execution.EngineMessage.toValue, Execution.MessageMetadata.toValue,
    EngineMessage.zero, StructField.nested, MessageMetadata.fields, rawMessage, Except.map, received]

/-- The envelope is in order, so the payload decides. -/
theorem validate_body_iff {now : String} (hnow : now ≠ "") (e : MemoryEvent) :
    (∃ msg, validate (e.body ryu now) = .ok msg) ↔ validateMemoryPayload (some (e.payload ryu)) = .ok () := by
  have hdepth : (wrapMemoryEvent now (e.payload ryu)).toValue.depth ≤ maxNestingDepth := by
    have hpayload := @depth_payload ryu e
    simp [wrapMemoryEvent, Execution.EngineMessage.newRiskMessage, Execution.EngineMessage.toValue,
      Execution.MessageMetadata.toValue, Value.depth, memberDepth, strValue, hpayload, maxNestingDepth]
  have hfirst : firstValue (e.body ryu now) = some (wrapMemoryEvent now (e.payload ryu)).toValue := by
    have h := firstValue_render _ hdepth (notStart_nil IsNumberByte)
    rwa [List.append_nil] at h
  have hcheck : (received now (e.payload ryu)).check =
      (validateMemoryPayload (some (e.payload ryu))).mapError (.wrapf "memory payload validation: %w") := by
    simp [EngineMessage.check, received, validEngines, hnow]
  constructor
  · rintro ⟨msg, hmsg⟩
    obtain ⟨v, hv, hdecode, hok⟩ := validate_ok_iff.mp hmsg
    rw [hfirst] at hv
    obtain rfl := Option.some.inj hv
    rw [decode_body] at hdecode
    obtain rfl := Except.ok.inj hdecode
    rw [hcheck] at hok
    cases hpayload : validateMemoryPayload (some (e.payload ryu)) with
    | ok _ => rfl
    | error _ => rw [hpayload] at hok; cases hok
  · intro hok
    refine ⟨received now (e.payload ryu), validate_ok_iff.mpr ⟨_, hfirst, decode_body _ _, ?_⟩⟩
    rw [hcheck, hok]
    rfl

/-- A double with a decimal point is no `int64`. -/
theorem int64_f64Value (hpoint : ∀ x, ¬ (ryu x).IsInt) (x : F64) :
    int64 (f64Value ryu x) = if x.IsFinite then .error (.wrongType "number" "int64") else .ok none := by
  unfold f64Value
  split_ifs
  · exact if_neg fun h => hpoint x h.1
  · rfl

/-- No execution outcome is accepted: its `pnl` is a decimal number, where the broker expects an integer. -/
theorem rejected_executionOutcome (hpoint : ∀ x, ¬ (ryu x).IsInt) {now : String} (hnow : now ≠ "")
    (o : ExecutionOutcome) (hpnl : o.pnl.IsFinite) :
    ¬ ∃ msg, validate ((MemoryEvent.executionOutcome o).body ryu now) = .ok msg := by
  have hdecode : decodeStruct ExecutionOutcomePayload.fields (o.toValue ryu) ⟨"", "", "", 0, 0, ""⟩ =
      .error (.wrongType "number" "int64") := by
    by_cases hquantity : o.quantity.IsFinite <;>
      simp [decodeStruct, decodeMembers, field?, ExecutionOutcomePayload.fields, StructField.of,
        ExecutionOutcome.toValue, int64_f64Value hpoint, hpnl, hquantity]
  have hpayload : validateMemoryPayload (some (o.toValue ryu)) = validateExecutionOutcome (o.toValue ryu) := by
    rw [validateMemoryPayload, ExecutionOutcome.toValue, probeKeys_obj]
    simp
  rw [validate_body_iff hnow, MemoryEvent.payload, hpayload, validateExecutionOutcome, decodeInto, hdecode]
  intro h
  cases h

/-- The risk event of a halted circuit breaker is accepted. -/
theorem accepted_circuitBreakerCheck (hscore : Binary64.round (ryu OrderManager.fullRiskScore).value = some 100)
    {now : String} (hnow : now ≠ "") :
    ∃ msg, validate ((MemoryEvent.riskAssessment
      ⟨"circuit_breaker_check", "block", "tripped", OrderManager.fullRiskScore⟩).body ryu now) = .ok msg := by
  have hfinite : OrderManager.fullRiskScore.IsFinite := trivial
  rw [validate_body_iff hnow, MemoryEvent.payload, RiskAssessmentEvent.toValue, validateMemoryPayload, probeKeys_obj]
  simp [validateRiskAssessment, decodeInto, decodeStruct, decodeMembers, field?, RiskAssessmentPayload.fields,
    StructField.of, f64Value, hfinite, GoJson.float64, hscore, RiskAssessmentPayload.check, Except.mapError]
  norm_num

/-- **What the broker makes of an admission.** Whatever event `admit_order` emits is accepted just when the circuit
breaker is halted. -/
theorem admitOrder_accepted_iff (order : Order) (breaker : CircuitBreaker) {now : String} (hnow : now ≠ "")
    (hpoint : ∀ x, ¬ (ryu x).IsInt) (hscore : Binary64.round (ryu OrderManager.fullRiskScore).value = some 100) :
    (∀ e ∈ (OrderManager.withGateway.admitOrder order breaker).2, ∃ msg, validate (e.body ryu now) = .ok msg) ↔
      breaker.isHalted = true := by
  have houtcome : ∀ status, ¬ ∀ e ∈ OrderManager.withGateway.emitExecutionEvent order status,
      ∃ msg, validate (e.body ryu now) = .ok msg := by
    intro status h
    refine rejected_executionOutcome hpoint hnow _ ?_ (h _ (List.mem_singleton_self _))
    trivial
  unfold OrderManager.admitOrder
  split_ifs with hhalted
  · refine ⟨fun _ => hhalted, fun _ e he => ?_⟩
    rw [List.mem_singleton.mp he]
    exact accepted_circuitBreakerCheck hscore hnow
  · refine ⟨fun h => ?_, fun h => absurd h hhalted⟩
    split at h
    · exact absurd h (houtcome "validated")
    · exact absurd h (houtcome "rejected")

/-! ### An order for one BTCUSDT -/

def digits (d : UInt8) (more : List UInt8) (h : ∀ b ∈ d :: more, Decimal.IsDigit b) : Digits :=
  ⟨d :: more, List.cons_ne_nil d more, h⟩

/-- `100.0`, `0.0` and `1.0`, the numbers in the order's events. -/
def orderRyu (x : F64) : NumLit where
  neg := false
  int :=
    if x = OrderManager.fullRiskScore then .pos (digits 49 [48, 48] (by simp [Decimal.IsDigit])) (by simp [digits])
    else if x = .zero then .zero
    else .pos (digits 49 [] (by simp [Decimal.IsDigit])) (by simp [digits])
  frac := some (digits 48 [] (by simp [Decimal.IsDigit]))
  exp := none

theorem orderRyu_point (x : F64) : ¬ (orderRyu x).IsInt := by
  rintro ⟨hfrac, -⟩
  cases hfrac

theorem round_orderRyu : Binary64.round (orderRyu OrderManager.fullRiskScore).value = some 100 := by
  have hvalue : (orderRyu OrderManager.fullRiskScore).value = ((100 : ℤ) : ℚ) := by
    simp [orderRyu, NumLit.value, IntPart.bytes, digits, Decimal.value]
    norm_num
  rw [hvalue, Binary64.round_intCast (by norm_num)]
  norm_num

def buyOne : Order where
  orderId := 1
  symbol := "BTCUSDT"
  side := .buy
  quantity := .ofInt 1 F64.one_exact
  orderType := .market
  price := none
  stopPrice := none
  timeInForce := none
  timestamp := "2026-08-30T12:00:00+00:00"
  agentId := "agent-1"

theorem buyOne_accepted_iff :
    (∀ e ∈ (OrderManager.withGateway.admitOrder buyOne ⟨true⟩).2,
      ∃ msg, validate (e.body orderRyu "2026-08-30T12:00:00+00:00") = .ok msg) ↔
      CircuitBreaker.isHalted ⟨true⟩ = true :=
  admitOrder_accepted_iff buyOne ⟨true⟩ (by decide) orderRyu_point round_orderRyu

/-- The outcome of a valid order is rejected. -/
theorem buyOne_rejected :
    OrderManager.withGateway.admitOrder buyOne ⟨false⟩ =
      (.validated, OrderManager.withGateway.emitExecutionEvent buyOne "validated") ∧
    ¬ ∀ e ∈ (OrderManager.withGateway.admitOrder buyOne ⟨false⟩).2,
      ∃ msg, validate (e.body orderRyu "2026-08-30T12:00:00+00:00") = .ok msg := by
  have hvalid : buyOne.validate = .ok () := by
    have hpos : buyOne.quantity.le .zero = false := by
      simp [buyOne, F64.le, F64.ofInt, F64.zero, F64.place]
    simp [Order.validate, hpos]
    simp [buyOne]
  have hstatus : OrderManager.withGateway.admitOrder buyOne ⟨false⟩ =
      (.validated, OrderManager.withGateway.emitExecutionEvent buyOne "validated") := by
    simp [OrderManager.admitOrder, CircuitBreaker.isHalted, hvalid]
  refine ⟨hstatus, fun h => ?_⟩
  rw [hstatus] at h
  refine rejected_executionOutcome orderRyu_point (by decide) _ ?_ (h _ (List.mem_singleton_self _))
  trivial

end Atlas.Execution
