import Atlas.Strategy.SignalAgreement
import Mathlib.Algebra.Order.Round

/-!
# From the contract to the domain: `conversions.rs`, `domain_types.rs`

* `DomainEvent.validate` : the rules of the domain;
* `tryFrom` : a contract event by the rules of the contract, and what becomes of its fields; the product of two floats
  is a parameter;
* `tryFrom_eq_ok` : what is converted, and to what;
* `validate_of_tryFrom` : the domain takes it, with any product that stays in bounds; `validate_of_tryFrom_binary64`;
* `conversion_sound` : with the exact product the confidence is the nearest number of basis points.
-/

namespace Atlas.Strategy.Rust

/-- `f64::round` : the nearest integer, ties away from zero. -/
def roundAway (x : ℚ) : ℤ := if 0 ≤ x then round x else -round (-x)

/-- `as u32` : what is out of range becomes the nearest bound. -/
def asU32 (n : ℤ) : UInt32 := UInt32.ofNat (min n.toNat (2 ^ 32 - 1))

/-! ## The domain -/

inductive SignalType
  | entryLong
  | entryShort
  | exitLong
  | exitShort
  | adjustPosition
  | noSignal
  deriving DecidableEq, Repr

/-- `domain_types::StrategySignalEventV1` -/
structure DomainEvent where
  eventId : Execution.Uuid
  strategyId : String
  signalType : SignalType
  symbol : String
  side : Option String
  quantityScaled : Option UInt64
  priceScaled : Option UInt64
  stopLossScaled : Option UInt64
  takeProfitScaled : Option UInt64
  timestampNs : UInt64
  confidenceBps : UInt32
  timeframe : Option String
  agentId : String
  reasoning : Option String
  metadata : List (String × String)

inductive StrategyValidationError
  | emptyStrategyId
  | invalidSymbol
  | confidenceOutOfRange (got : UInt32)
  | zeroTimestamp
  | emptyAgentId
  | sideRequiredForSignal
  deriving DecidableEq, Repr

def SignalType.needsSide (signalType : SignalType) : Bool :=
  signalType ∈ [.entryLong, .entryShort, .exitLong, .exitShort]

def DomainEvent.validate (event : DomainEvent) : Except StrategyValidationError Unit :=
  if event.strategyId = "" then .error .emptyStrategyId
  else if event.symbol = "" ∨ event.symbol.utf8ByteSize > 32 then .error .invalidSymbol
  else if event.confidenceBps > 10000 then .error (.confidenceOutOfRange event.confidenceBps)
  else if event.timestampNs = 0 then .error .zeroTimestamp
  else if event.agentId = "" then .error .emptyAgentId
  else if event.signalType.needsSide ∧ event.side = none then .error .sideRequiredForSignal
  else .ok ()

/-! ## The conversion -/

/-- `UnsupportedDirection` is not produced. -/
inductive ConversionError
  | contractValidation (e : ContractValidationError)
  | unsupportedDirection (direction : Direction)
  | timestampParse (text : String)
  deriving DecidableEq

/-- `parse_iso8601_to_nanos` looks at the last character and the length, and answers a constant. -/
def parseIso8601ToNanos (ts : String) : Except String UInt64 :=
  if ts.toList.getLast? ≠ some 'Z' then .error ("expected UTC timestamp ending with 'Z': " ++ ts)
  else if ts.utf8ByteSize ≠ 20 then .error ("unexpected timestamp length: " ++ ts)
  else .ok 1725000000000000000

def Direction.signalType : Direction → SignalType
  | .long => .entryLong
  | .short => .entryShort
  | .flat => .noSignal

def Direction.side : Direction → Option String
  | .long => some "buy"
  | .short => some "sell"
  | .flat => none

/-- `TryFrom<ContractEvent> for DomainEvent` -/
def tryFrom (times : ℚ → ℚ → ℚ) (contract : StrategySignalEventV1) : Except ConversionError DomainEvent :=
  match contract.validateContract with
  | .error e => .error (.contractValidation e)
  | .ok () =>
    let signalType := contract.signal.direction.signalType
    let confidenceBps := asU32 (roundAway (times contract.signal.confidence 10000))
    match parseIso8601ToNanos contract.timestampUtc with
    | .error text => .error (.timestampParse text)
    | .ok timestampNs => .ok {
        eventId := contract.eventId
        strategyId := contract.sourceAgent
        signalType
        symbol := contract.signal.symbol
        side := contract.signal.direction.side
        quantityScaled := none
        priceScaled := none
        stopLossScaled := none
        takeProfitScaled := none
        timestampNs
        confidenceBps
        timeframe := none
        agentId := contract.sourceAgent
        reasoning := none
        metadata := contract.metadata }

/-! ## Rounding -/

theorem roundAway_of_nonneg {x : ℚ} (h : 0 ≤ x) : roundAway x = round x := if_pos h

theorem roundAway_nonneg {x : ℚ} (h : 0 ≤ x) : 0 ≤ roundAway x := by
  rw [roundAway_of_nonneg h, round_eq]
  apply Int.floor_nonneg.mpr
  linarith

theorem round_mono {x y : ℚ} (h : x ≤ y) : round x ≤ round y := by
  rw [round_eq, round_eq]
  apply Int.floor_mono
  linarith

/-- No number is rounded past a bound. -/
theorem roundAway_le {x : ℚ} {n : ℤ} (h : 0 ≤ x) (hx : x ≤ n) : roundAway x ≤ n := by
  have hmono := round_mono hx
  rwa [round_intCast, ← roundAway_of_nonneg h] at hmono

theorem toNat_asU32 {n : ℤ} (hnonneg : 0 ≤ n) (hle : n ≤ 10000) : ((asU32 n).toNat : ℤ) = n := by
  have hsmall : min n.toNat (2 ^ 32 - 1) = n.toNat := by
    apply min_eq_left
    omega
  unfold asU32
  rw [hsmall, UInt32.toNat_ofNat_of_lt' (by show n.toNat < 2 ^ 32; omega)]
  omega

section
variable {times : ℚ → ℚ → ℚ} {contract : StrategySignalEventV1} {d : DomainEvent}

/-- A contract event that the conversion takes, and the domain event it becomes. -/
theorem tryFrom_eq_ok (h : tryFrom times contract = .ok d) :
    contract.validateContract = .ok () ∧ d.eventId = contract.eventId ∧ d.strategyId = contract.sourceAgent ∧
      d.agentId = contract.sourceAgent ∧ d.signalType = contract.signal.direction.signalType ∧
      d.side = contract.signal.direction.side ∧ d.symbol = contract.signal.symbol ∧ d.metadata = contract.metadata ∧
      d.timestampNs = 1725000000000000000 ∧
      d.confidenceBps = asU32 (roundAway (times contract.signal.confidence 10000)) := by
  unfold tryFrom at h
  split at h
  · cases h
  · rename_i hvalid
    dsimp only at h
    split at h
    · cases h
    · rename_i ns hns
      have hconstant : ns = 1725000000000000000 := by
        unfold parseIso8601ToNanos at hns
        split_ifs at hns
        exact (Except.ok.inj hns).symm
      obtain rfl := Except.ok.inj h
      exact ⟨hvalid, rfl, rfl, rfl, rfl, rfl, rfl, rfl, hconstant, rfl⟩

/-- What the contract says of an event that is converted. -/
theorem contract_of_tryFrom (h : tryFrom times contract = .ok d) :
    contract.sourceAgent ≠ "" ∧ Python.fullSymbol contract.signal.symbol.toList = true ∧
      0 ≤ contract.signal.confidence ∧ contract.signal.confidence ≤ 1 :=
  ((validateContract_ok_iff contract).mp (tryFrom_eq_ok h).1).2

/-- The basis points are the rounded product, if that stays in bounds. -/
theorem confidenceBps_of_tryFrom (h : tryFrom times contract = .ok d)
    (hnonneg : 0 ≤ times contract.signal.confidence 10000) (hle : times contract.signal.confidence 10000 ≤ 10000) :
    (d.confidenceBps.toNat : ℤ) = round (times contract.signal.confidence 10000) ∧ d.confidenceBps.toNat ≤ 10000 := by
  have hbps : d.confidenceBps = asU32 (roundAway (times contract.signal.confidence 10000)) :=
    (tryFrom_eq_ok h).2.2.2.2.2.2.2.2.2
  have hrounded := roundAway_le (n := 10000) hnonneg (by exact_mod_cast hle)
  have hvalue := toNat_asU32 (roundAway_nonneg hnonneg) hrounded
  rw [← hbps] at hvalue
  rw [hvalue, ← roundAway_of_nonneg hnonneg]
  exact ⟨rfl, by omega⟩

/-- The domain takes what the conversion yields. -/
theorem validate_of_tryFrom (h : tryFrom times contract = .ok d)
    (hnonneg : 0 ≤ times contract.signal.confidence 10000) (hle : times contract.signal.confidence 10000 ≤ 10000) :
    d.validate = .ok () := by
  obtain ⟨hagent, hsymbol, -⟩ := contract_of_tryFrom h
  obtain ⟨-, hbps⟩ := confidenceBps_of_tryFrom h hnonneg hle
  obtain ⟨-, -, hstrategy, hagentId, htype, hside, hsym, -, hns, -⟩ := tryFrom_eq_ok h
  obtain ⟨hlow, hhigh, -⟩ := (sized_symbol_iff contract.signal.symbol).mpr hsymbol
  have hnotEmpty : contract.signal.symbol ≠ "" := by
    intro hempty
    rw [hempty] at hlow
    exact absurd hlow (by decide)
  have hneeds : ¬ (d.signalType.needsSide ∧ d.side = none) := by
    rw [htype, hside]
    cases contract.signal.direction <;> decide
  unfold DomainEvent.validate
  rw [if_neg (hstrategy ▸ hagent), hsym, if_neg (not_or.mpr ⟨hnotEmpty, by omega⟩), if_neg, if_neg, if_neg,
    if_neg hneeds]
  · exact hagentId ▸ hagent
  · rw [hns]
    decide
  · rw [gt_iff_lt, UInt32.lt_iff_toNat_lt]
    exact not_lt.mpr hbps

/-- Also with the product of doubles. -/
theorem validate_of_tryFrom_binary64
    (h : tryFrom (fun x y => (Binary64.round (x * y)).getD 0) contract = .ok d) : d.validate = .ok () := by
  obtain ⟨-, -, hnonneg, hle⟩ := contract_of_tryFrom h
  have hbounds : ∀ r, Binary64.round (contract.signal.confidence * 10000) = some r → 0 ≤ r ∧ r ≤ 10000 := by
    intro r hr
    constructor
    · exact_mod_cast Binary64.le_round (k := 0) (by norm_num) (by push_cast; positivity) hr
    · exact_mod_cast Binary64.round_le (k := 10000) (by norm_num) (by push_cast; linarith) hr
  cases hround : Binary64.round (contract.signal.confidence * 10000) with
  | none => exact validate_of_tryFrom h (by simp [hround]) (by simp [hround])
  | some r =>
    obtain ⟨hlow, hhigh⟩ := hbounds r hround
    exact validate_of_tryFrom h (by simpa [hround] using hlow) (by simpa [hround] using hhigh)

end

/-- The product of two numbers. -/
def exactTimes (x y : ℚ) : ℚ := x * y

theorem exactTimes_bounds {contract : StrategySignalEventV1} {d : DomainEvent}
    (h : tryFrom exactTimes contract = .ok d) : 0 ≤ exactTimes contract.signal.confidence 10000 ∧
      exactTimes contract.signal.confidence 10000 ≤ 10000 := by
  obtain ⟨-, -, hnonneg, hle⟩ := contract_of_tryFrom h
  unfold exactTimes
  constructor
  · positivity
  · linarith

/-- **The conversion is sound.** What it yields is valid in the domain; its basis points are a nearest integer to
10000 times the confidence, at most 10000 and monotone; its side is the direction; and the rest is taken over. -/
theorem conversion_sound {contract : StrategySignalEventV1} {d : DomainEvent}
    (h : tryFrom exactTimes contract = .ok d) :
    d.validate = .ok () ∧
    (∀ n : ℤ, |10000 * contract.signal.confidence - d.confidenceBps.toNat| ≤ |10000 * contract.signal.confidence - n|) ∧
    d.confidenceBps.toNat ≤ 10000 ∧
    (∀ larger e, tryFrom exactTimes larger = .ok e → contract.signal.confidence ≤ larger.signal.confidence →
      d.confidenceBps.toNat ≤ e.confidenceBps.toNat) ∧
    ((d.side = some "buy" ↔ contract.signal.direction = .long) ∧
      (d.side = some "sell" ↔ contract.signal.direction = .short) ∧
      (d.side = none ↔ contract.signal.direction = .flat)) ∧
    d.eventId = contract.eventId ∧ d.symbol = contract.signal.symbol ∧ d.agentId = contract.sourceAgent ∧
    d.strategyId = contract.sourceAgent ∧ d.metadata = contract.metadata := by
  obtain ⟨hnonneg, hle⟩ := exactTimes_bounds h
  obtain ⟨hbps, hmax⟩ := confidenceBps_of_tryFrom h hnonneg hle
  obtain ⟨-, hid, hstrategy, hagent, -, hside, hsymbol, hmetadata, -, -⟩ := tryFrom_eq_ok h
  have hproduct : exactTimes contract.signal.confidence 10000 = 10000 * contract.signal.confidence := mul_comm _ _
  refine ⟨validate_of_tryFrom h hnonneg hle, fun n => ?_, hmax, fun larger e he hlarger => ?_, ?_, hid, hsymbol, hagent,
    hstrategy, hmetadata⟩
  · have hcast : (d.confidenceBps.toNat : ℚ) = ((d.confidenceBps.toNat : ℤ) : ℚ) := by norm_cast
    rw [hcast, hbps, hproduct]
    exact round_le _ n
  · obtain ⟨hnonneg', hle'⟩ := exactTimes_bounds he
    have hmono : round (exactTimes contract.signal.confidence 10000) ≤
        round (exactTimes larger.signal.confidence 10000) := by
      apply round_mono
      unfold exactTimes
      linarith
    rw [← hbps, ← (confidenceBps_of_tryFrom he hnonneg' hle').1] at hmono
    exact_mod_cast hmono
  · rw [hside]
    cases contract.signal.direction <;> decide

/-- The event of the tests: a confidence of 0.75 is 7500 basis points. -/
def sampleContractEvent : StrategySignalEventV1 where
  version := "1.0.0"
  eventId := 0x550e8400e29b41d4a716446655440000
  timestampUtc := "2026-08-31T10:00:00Z"
  traceId := none
  sourceAgent := "strategy_selector_v2"
  signal := ⟨"BTCUSDT", .long, 3 / 4, .trending, []⟩
  metadata := []

def sampleDomainEvent : DomainEvent where
  eventId := 0x550e8400e29b41d4a716446655440000
  strategyId := "strategy_selector_v2"
  signalType := .entryLong
  symbol := "BTCUSDT"
  side := some "buy"
  quantityScaled := none
  priceScaled := none
  stopLossScaled := none
  takeProfitScaled := none
  timestampNs := 1725000000000000000
  confidenceBps := 7500
  timeframe := none
  agentId := "strategy_selector_v2"
  reasoning := none
  metadata := []

theorem tryFrom_sample : tryFrom exactTimes sampleContractEvent = .ok sampleDomainEvent := by
  have hrounded : roundAway (exactTimes (3 / 4) 10000) = 7500 := by norm_num [roundAway, exactTimes, round_eq]
  have hvalid : sampleContractEvent.validateContract = .ok () := by
    refine (validateContract_ok_iff _).mpr ⟨rfl, by decide, by decide, ?_⟩
    norm_num [sampleContractEvent]
  unfold tryFrom
  rw [hvalid]
  show (match parseIso8601ToNanos "2026-08-31T10:00:00Z" with
    | .error text => Except.error (ConversionError.timestampParse text)
    | .ok timestampNs => .ok { sampleDomainEvent with
        timestampNs, confidenceBps := asU32 (roundAway (exactTimes (3 / 4) 10000)) }) = _
  rw [hrounded]
  rfl

theorem conversion_sound_sample : tryFrom exactTimes sampleContractEvent = .ok sampleDomainEvent ∧
    sampleDomainEvent.validate = .ok () :=
  ⟨tryFrom_sample, (@conversion_sound sampleContractEvent sampleDomainEvent tryFrom_sample).1⟩

end Atlas.Strategy.Rust
