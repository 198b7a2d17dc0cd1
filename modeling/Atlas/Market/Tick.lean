import Atlas.Lib.SerdeRecord
import Atlas.Lib.JsonSchema

/-!
# Market ticks: `core_engine/market_data/src/types.rs`

* `TickDataV1` with its serde encoding, `toValue` and `fromValue`; `toJson`, `fromJson` : as texts;
* `TickDataV1.validate` : the checks, in their order;
* `tickDataV1` : the contract, `contracts/schemas/market/tick-data-v1.json`.
-/

namespace Atlas.Market

open Json SerdeJson
open JsonSchema (Scalar Property Record)

/-- Numbers are scaled integers. -/
structure TickDataV1 where
  symbol : String
  priceScaled : UInt64
  volumeScaled : UInt64
  timestampNs : UInt64
  exchangeId : String
  bidPriceScaled : Option UInt64
  askPriceScaled : Option UInt64
  tradeId : Option String
  metadata : SortedMap String String

inductive TickValidationError
  /-- symbol must not be empty -/
  | emptySymbol
  /-- symbol exceeds max length 32: got {0} -/
  | symbolTooLong (length : Nat)
  /-- price_scaled must be > 0 -/
  | zeroPrice
  /-- timestamp_ns must be > 0 -/
  | zeroTimestamp
  /-- exchange_id must not be empty -/
  | emptyExchangeId
  /-- exchange_id exceeds max length 64: got {0} -/
  | exchangeIdTooLong (length : Nat)
  /-- bid_price_scaled must be > 0 when present -/
  | zeroBidPrice
  /-- ask_price_scaled must be > 0 when present -/
  | zeroAskPrice
  /-- trade_id exceeds max length 128: got {0} -/
  | tradeIdTooLong (length : Nat)
  /-- metadata exceeds max 16 keys: got {0} -/
  | metadataTooManyKeys (keys : Nat)
  /-- metadata value for key '{0}' exceeds max 256 chars: got {1} -/
  | metadataValueTooLong (key : String) (length : Nat)
  deriving DecidableEq, Repr

namespace TickDataV1

/-- `len` is in bytes. -/
def validate (t : TickDataV1) : Except TickValidationError Unit :=
  if t.symbol = "" then .error .emptySymbol
  else if t.symbol.utf8ByteSize > 32 then .error (.symbolTooLong t.symbol.utf8ByteSize)
  else if t.priceScaled = 0 then .error .zeroPrice
  else if t.timestampNs = 0 then .error .zeroTimestamp
  else if t.exchangeId = "" then .error .emptyExchangeId
  else if t.exchangeId.utf8ByteSize > 64 then .error (.exchangeIdTooLong t.exchangeId.utf8ByteSize)
  else if t.bidPriceScaled = some 0 then .error .zeroBidPrice
  else if t.askPriceScaled = some 0 then .error .zeroAskPrice
  else
    match t.tradeId.filter fun tid => tid.utf8ByteSize > 128 with
    | some tid => .error (.tradeIdTooLong tid.utf8ByteSize)
    | none =>
      if t.metadata.entries.length > 16 then .error (.metadataTooManyKeys t.metadata.entries.length)
      else
        match t.metadata.entries.find? fun e => e.2.utf8ByteSize > 256 with
        | some e => .error (.metadataValueTooLong e.1 e.2.utf8ByteSize)
        | none => .ok ()

/-! ## serde -/

def fields : List (RecordField TickDataV1) :=
  [.of "symbol" string fun x t => { t with symbol := x },
    .of "price_scaled" u64 fun x t => { t with priceScaled := x },
    .of "volume_scaled" u64 fun x t => { t with volumeScaled := x },
    .of "timestamp_ns" u64 fun x t => { t with timestampNs := x },
    .of "exchange_id" string fun x t => { t with exchangeId := x },
    .optional "bid_price_scaled" (option u64) fun x t => { t with bidPriceScaled := x },
    .optional "ask_price_scaled" (option u64) fun x t => { t with askPriceScaled := x },
    .optional "trade_id" (option string) fun x t => { t with tradeId := x },
    .optional "metadata" (sortedMap string) fun x t => { t with metadata := x }]

/-- Before anything is read into it. -/
def blank : TickDataV1 := ⟨"", 0, 0, 0, "", none, none, none, .empty⟩

/-- An array has the fields in their order; only `metadata`, with `#[serde(default)]`, may be left out of one. -/
def fromValue : Value → Except Error TickDataV1
  | .arr vs => visitSeq ["metadata"] fields vs blank
  | v => deserialize fields blank v

def numValue (n : UInt64) : Value := .num (natLit n.toNat)

def textValue (s : String) : Value := .str (lit s)

/-- What is absent is left out, and so is empty metadata. -/
def toValue (t : TickDataV1) : Value :=
  .obj ([(lit "symbol", textValue t.symbol), (lit "price_scaled", numValue t.priceScaled),
      (lit "volume_scaled", numValue t.volumeScaled), (lit "timestamp_ns", numValue t.timestampNs),
      (lit "exchange_id", textValue t.exchangeId)] ++
    (t.bidPriceScaled.toList.map fun n => (lit "bid_price_scaled", numValue n)) ++
    (t.askPriceScaled.toList.map fun n => (lit "ask_price_scaled", numValue n)) ++
    (t.tradeId.toList.map fun s => (lit "trade_id", textValue s)) ++
    (if t.metadata.entries = [] then []
      else [(lit "metadata", .obj (t.metadata.entries.map fun e => (lit e.1, textValue e.2)))]))

/-- `serde_json::to_string` -/
def toJson (t : TickDataV1) : List UInt8 := t.toValue.render

/-- `serde_json::from_str`; containers nest 127 deep at most. -/
def fromJson (text : List UInt8) : Option TickDataV1 :=
  match readValue 127 text with
  | none => none
  | some (v, rest) => if Blank rest then (fromValue v).toOption else none

end TickDataV1

/-! ## The contract -/

def text (minLength maxLength : Nat) : Property :=
  .scalar { types := [.string], minLength, maxLength := some maxLength }

def whole (minimum : ℚ) : Property := .scalar { types := [.integer], minimum := some minimum }

def wholeOrNull (minimum : ℚ) : Property := .scalar { types := [.integer, .null], minimum := some minimum }

def textOrNull (maxLength : Nat) : Property := .scalar { types := [.string, .null], maxLength := some maxLength }

def tickDataV1 : Record where
  required := ["symbol", "price_scaled", "volume_scaled", "timestamp_ns", "exchange_id"]
  properties :=
    [("symbol", text 1 32), ("price_scaled", whole 1), ("volume_scaled", whole 0), ("timestamp_ns", whole 1),
      ("exchange_id", text 1 64), ("bid_price_scaled", wholeOrNull 1), ("ask_price_scaled", wholeOrNull 1),
      ("trade_id", textOrNull 128), ("metadata", .map 16 { types := [.string], maxLength := some 256 })]

end Atlas.Market
