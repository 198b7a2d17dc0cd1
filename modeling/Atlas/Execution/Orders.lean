import Atlas.Lib.Binary64

/-!
# Orders and their admission

The execution crate's `types`, `validator` and `order_manager`, with the state of the risk crate's circuit breaker that
`admit_order` reads. The memory events an admission emits are given as values; `MemoryEvents` writes them out.

* `Order.validate` : the list of violations;
* `OrderManager.admitOrder` : the status and the events handed to the gateway.
-/

namespace Atlas.Execution

inductive OrderSide
  | buy | sell
  deriving DecidableEq, Repr

inductive OrderType
  | market | limit | stopLimit | stopMarket
  deriving DecidableEq, Repr

inductive TimeInForce
  | gtc | ioc | fok | gtd
  deriving DecidableEq, Repr

/-- A UUID, written as 32 hexadecimal digits in groups of 8, 4, 4, 4 and 12. -/
abbrev Uuid := BitVec 128

def hexChar (n : Nat) : Char := if n < 10 then Char.ofNat (48 + n) else Char.ofNat (87 + n)

def Uuid.toString (u : Uuid) : String :=
  String.ofList ((List.range 32).flatMap fun i =>
    (if i = 8 ∨ i = 12 ∨ i = 16 ∨ i = 20 then ['-'] else []) ++ [hexChar (u.toNat / 16 ^ (31 - i) % 16)])

/-- An order, without the free-form metadata that no check reads. -/
structure Order where
  orderId : Uuid
  symbol : String
  side : OrderSide
  quantity : F64
  orderType : OrderType
  price : Option F64
  stopPrice : Option F64
  timeInForce : Option TimeInForce
  timestamp : String
  agentId : String

/-- The violations of an order, none for a valid one. -/
def Order.validate (order : Order) : Except (List String) Unit :=
  let errors :=
    (if order.symbol = "" then ["symbol must not be empty"] else []) ++
    (if order.quantity.le .zero then ["quantity must be > 0"] else []) ++
    (if order.agentId = "" then ["agent_id must not be empty"] else []) ++
    (match order.orderType with
      | .limit | .stopLimit =>
        match order.price with
        | none => ["price required and > 0 for limit orders"]
        | some price => if price.le .zero then ["price required and > 0 for limit orders"] else []
      | _ => [])
  if errors = [] then .ok () else .error errors

/-- The circuit breaker as far as an admission reads it. -/
structure CircuitBreaker where
  halted : Bool

def CircuitBreaker.isHalted (breaker : CircuitBreaker) : Bool := breaker.halted

inductive OrderStatus
  | pendingValidation
  | validated
  | rejected (reasons : List String)
  | haltedByCircuitBreaker
  | submitted
  deriving DecidableEq, Repr

structure ExecutionOutcome where
  orderId : String
  symbol : String
  side : String
  quantity : F64
  pnl : F64
  status : String

structure RiskAssessmentEvent where
  assessmentType : String
  result : String
  circuitBreakerState : String
  riskScore : F64

inductive MemoryEvent
  | executionOutcome (outcome : ExecutionOutcome)
  | riskAssessment (assessment : RiskAssessmentEvent)

/-- `hasGateway` : the manager was made with a gateway to the broker. -/
structure OrderManager where
  hasGateway : Bool

namespace OrderManager

def withGateway : OrderManager := ⟨true⟩

def sideName : OrderSide → String
  | .buy => "buy"
  | .sell => "sell"

/-- The events `emit_execution_event` hands to the gateway. -/
def emitExecutionEvent (manager : OrderManager) (order : Order) (status : String) : List MemoryEvent :=
  if manager.hasGateway then
    [.executionOutcome ⟨order.orderId.toString, order.symbol, sideName order.side, order.quantity, .zero, status⟩]
  else []

/-- `risk_score: 100.0` -/
def fullRiskScore : F64 := .ofInt 100 (by norm_num)

def emitRiskEvent (manager : OrderManager) (assessmentType result cbState : String) : List MemoryEvent :=
  if manager.hasGateway then [.riskAssessment ⟨assessmentType, result, cbState, fullRiskScore⟩] else []

/-- `admit_order`: the status, and the memory events on the way. -/
def admitOrder (manager : OrderManager) (order : Order) (breaker : CircuitBreaker) : OrderStatus × List MemoryEvent :=
  if breaker.isHalted then
    (.haltedByCircuitBreaker, manager.emitRiskEvent "circuit_breaker_check" "block" "tripped")
  else match order.validate with
    | .ok () => (.validated, manager.emitExecutionEvent order "validated")
    | .error reasons => (.rejected reasons, manager.emitExecutionEvent order "rejected")

end OrderManager

end Atlas.Execution
