import Atlas.Lib.PyText
import Atlas.Lib.SerdeJson
import Atlas.Broker.Envelope
import Atlas.Execution.Orders

/-!
# Strategy signal events in three languages

* `SignalEvent` : an event by its fields, and the JSON object it is written as;
* `Python.validate` : `StrategySignalEventV1.validate` of the contract adapter;
* `Rust.deserialize`, `Rust.validateContract` : the serde record of `contract_types` and its check. The `uuid` crate's
  parser is a parameter; `IsUuidText` : the texts it is documented to take;
* `PyAccepts`, `RustAccepts`, `GoAccepts` : an event is accepted.
-/

namespace Atlas.Strategy

open Json

/-- An event. Its confidence is the number that the literal in its text is read as. -/
structure SignalEvent where
  version : String
  eventId : String
  timestampUtc : String
  traceId : Option String
  sourceAgent : String
  symbol : String
  direction : String
  regime : String
  confidence : ℚ
  written : NumLit
  exact : Binary64.round written.value = some confidence

def SignalEvent.signalMembers (event : SignalEvent) : List (StrLit × Value) :=
  [(lit "symbol", .str (lit event.symbol)), (lit "direction", .str (lit event.direction)),
    (lit "confidence", .num event.written), (lit "regime", .str (lit event.regime))]

def SignalEvent.traceMembers (event : SignalEvent) : List (StrLit × Value) :=
  event.traceId.toList.map fun trace => (lit "trace_id", .str (lit trace))

/-- The JSON object of an event; `trace_id` is left out where there is none. -/
def SignalEvent.toValue (event : SignalEvent) : Value :=
  .obj ([(lit "version", .str (lit event.version)), (lit "event_id", .str (lit event.eventId)),
      (lit "timestamp_utc", .str (lit event.timestampUtc))] ++ event.traceMembers ++
    [(lit "source_agent", .str (lit event.sourceAgent)), (lit "signal", .obj event.signalMembers)])

/-! ## Python -/

namespace Python

/-- What a `ContractValidationError` is about. -/
inductive ContractValidationError
  | version (got : String)
  | sourceAgent
  | eventId
  | traceId
  | symbol (got : String)
  | direction (got : String)
  | confidence (got : ℚ)
  | regime (got : String)
  deriving DecidableEq

def isSymbolChar (c : Char) : Bool := (65 ≤ c.toNat ∧ c.toNat ≤ 90) ∨ (48 ≤ c.toNat ∧ c.toNat ≤ 57)

/-- `^[A-Z0-9]{2,20}$` on a whole text. -/
def fullSymbol (cs : List Char) : Bool := 2 ≤ cs.length ∧ cs.length ≤ 20 ∧ cs.all isSymbolChar

/-- `_SYMBOL_PATTERN.match` : `$` is at the end, and in front of a newline that ends the text. -/
def matchesSymbol (symbol : String) : Bool :=
  fullSymbol symbol.toList ∨ (symbol.toList.getLast? = some '\n' ∧ fullSymbol symbol.toList.dropLast)

def validDirections : List String := ["LONG", "SHORT", "FLAT"]

def validRegimes : List String := ["TRENDING", "RANGING", "VOLATILE", "CALM"]

def validateSignal (event : SignalEvent) : Except ContractValidationError Unit :=
  if matchesSymbol event.symbol = false then .error (.symbol event.symbol)
  else if event.direction ∉ validDirections then .error (.direction event.direction)
  else if ¬ (0 ≤ event.confidence ∧ event.confidence ≤ 1) then .error (.confidence event.confidence)
  else if event.regime ∉ validRegimes then .error (.regime event.regime)
  else .ok ()

/-- `uuid.UUID` takes the text. -/
def isUuid (decimal : Char → Option Nat) (s : String) : Prop := (PyText.uuid? decimal s.toList).isSome = true

instance (decimal : Char → Option Nat) (s : String) : Decidable (isUuid decimal s) :=
  inferInstanceAs (Decidable (_ = _))

def validate (decimal : Char → Option Nat) (event : SignalEvent) : Except ContractValidationError Unit :=
  if event.version ≠ "1.0.0" then .error (.version event.version)
  else if event.sourceAgent = "" then .error .sourceAgent
  else if ¬ isUuid decimal event.eventId then .error .eventId
  else if ¬ ∀ trace ∈ event.traceId, isUuid decimal trace then .error .traceId
  else validateSignal event

end Python

/-! ## Rust -/

namespace Rust

open SerdeJson (Error RecordField)

inductive Direction
  | long | short | flat
  deriving DecidableEq, Repr

inductive MarketRegime
  | trending | ranging | volatile | calm
  deriving DecidableEq, Repr

structure Signal where
  symbol : String
  direction : Direction
  confidence : ℚ
  regime : MarketRegime
  parameters : List (String × Value)

structure StrategySignalEventV1 where
  version : String
  eventId : Execution.Uuid
  timestampUtc : String
  traceId : Option Execution.Uuid
  sourceAgent : String
  signal : Signal
  metadata : List (String × String)

def directions : List (String × Direction) := [("LONG", .long), ("SHORT", .short), ("FLAT", .flat)]

def regimes : List (String × MarketRegime) :=
  [("TRENDING", .trending), ("RANGING", .ranging), ("VOLATILE", .volatile), ("CALM", .calm)]

def Signal.fields : List (RecordField Signal) :=
  [.of "symbol" SerdeJson.string fun x s => { s with symbol := x },
    .of "direction" (SerdeJson.variant directions) fun x s => { s with direction := x },
    .of "confidence" SerdeJson.f64 fun x s => { s with confidence := x },
    .of "regime" (SerdeJson.variant regimes) fun x s => { s with regime := x },
    .optional "parameters" (SerdeJson.mapOf SerdeJson.jsonValue) fun x s => { s with parameters := x }]

def Signal.deserialize : Value → Except Error Signal :=
  SerdeJson.deserialize Signal.fields ⟨"", .flat, 0, .calm, []⟩

/-- A string the `uuid` crate parses. -/
def uuid (parseStr : String → Option Execution.Uuid) (v : Value) : Except Error Execution.Uuid :=
  match SerdeJson.string v with
  | .error e => .error e
  | .ok s => (parseStr s).elim (.error (.invalidValue s)) .ok

def StrategySignalEventV1.fields (parseStr : String → Option Execution.Uuid) :
    List (RecordField StrategySignalEventV1) :=
  [.of "version" SerdeJson.string fun x e => { e with version := x },
    .of "event_id" (uuid parseStr) fun x e => { e with eventId := x },
    .of "timestamp_utc" SerdeJson.string fun x e => { e with timestampUtc := x },
    .optional "trace_id" (SerdeJson.option (uuid parseStr)) fun x e => { e with traceId := x },
    .of "source_agent" SerdeJson.string fun x e => { e with sourceAgent := x },
    .of "signal" Signal.deserialize fun x e => { e with signal := x },
    .optional "metadata" (SerdeJson.mapOf SerdeJson.string) fun x e => { e with metadata := x }]

def deserialize (parseStr : String → Option Execution.Uuid) : Value → Except Error StrategySignalEventV1 :=
  SerdeJson.deserialize (StrategySignalEventV1.fields parseStr) ⟨"", 0, "", none, "", ⟨"", .flat, 0, .calm, []⟩, []⟩

inductive ContractValidationError
  | invalidVersion (got : String)
  | emptySourceAgent
  | invalidSymbol (got : String)
  | confidenceOutOfRange (got : ℚ)
  | invalidTimestamp (got : String)
  deriving DecidableEq

def isUpperOrDigit (c : Char) : Bool := ('A' ≤ c ∧ c ≤ 'Z') ∨ ('0' ≤ c ∧ c ≤ '9')

def Signal.validateContract (signal : Signal) : Except ContractValidationError Unit :=
  let validSymbol : Bool :=
    signal.symbol.utf8ByteSize ≥ 2 ∧ signal.symbol.utf8ByteSize ≤ 20 ∧ signal.symbol.toList.all isUpperOrDigit
  if validSymbol = false then .error (.invalidSymbol signal.symbol)
  else if ¬ (0 ≤ signal.confidence ∧ signal.confidence ≤ 1) then .error (.confidenceOutOfRange signal.confidence)
  else .ok ()

def StrategySignalEventV1.validateContract (event : StrategySignalEventV1) : Except ContractValidationError Unit :=
  if event.version ≠ "1.0.0" then .error (.invalidVersion event.version)
  else if event.sourceAgent = "" then .error .emptySourceAgent
  else event.signal.validateContract

end Rust

/-! ## UUIDs in Rust -/

open PyText (IsDigits hyphenate)

/-- The ways to write the digits of a UUID: alone, with hyphens, in braces, as a URN. -/
def uuidWritings (digits : List Char) : List (List Char) :=
  [digits, hyphenate digits, '{' :: hyphenate digits ++ ['}'], "urn:uuid:".toList ++ hyphenate digits]

/-- The texts the parser of the `uuid` crate is documented to take. -/
def IsUuidText (s : String) : Prop := ∃ digits, IsDigits digits ∧ s.toList ∈ uuidWritings digits

/-- Python reads every such writing as the number of its digits. -/
theorem uuid?_writing (decimal : Char → Option Nat) {digits text : List Char} (h : IsDigits digits)
    (htext : text ∈ uuidWritings digits) :
    PyText.uuid? decimal text = some (BitVec.ofNat 128 (PyText.value16 digits)) := by
  simp only [uuidWritings, List.mem_cons, List.not_mem_nil, or_false] at htext
  rcases htext with rfl | rfl | rfl | rfl
  · exact PyText.uuid?_digits decimal h
  · exact PyText.uuid?_hyphenate decimal h
  · exact PyText.uuid?_braced decimal h
  · exact PyText.uuid?_urn decimal h

/-- Python takes every UUID that Rust takes. -/
theorem IsUuidText.python {s : String} (h : IsUuidText s) (decimal : Char → Option Nat) : Python.isUuid decimal s := by
  obtain ⟨digits, hdigits, hs⟩ := h
  unfold Python.isUuid
  rw [uuid?_writing decimal hdigits hs]
  rfl

theorem not_isUuidText_empty : ¬ IsUuidText "" := by
  rintro ⟨digits, hdigits, hs⟩
  have hlength := hdigits.1
  simp only [uuidWritings, List.mem_cons, List.not_mem_nil, or_false] at hs
  rcases hs with hs | hs | hs | hs
  · rw [← hs] at hlength
    cases hlength
  · simp [hyphenate] at hs
  · simp at hs
  · simp at hs

/-! ## Acceptance -/

def PyAccepts (decimal : Char → Option Nat) (event : SignalEvent) : Prop := Python.validate decimal event = .ok ()

def RustAccepts (parseStr : String → Option Execution.Uuid) (event : SignalEvent) : Prop :=
  ∃ e, Rust.deserialize parseStr event.toValue = .ok e ∧ e.validateContract = .ok ()

def GoAccepts (event : SignalEvent) : Prop := Broker.validateStrategySignalPayload (some event.toValue) = .ok ()

end Atlas.Strategy
