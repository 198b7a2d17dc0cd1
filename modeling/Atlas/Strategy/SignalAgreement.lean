import Atlas.Strategy.Signals
import Atlas.Lib.Checked

/-!
# Do the three languages agree on a signal?

* `Shared` : the rules all three have in common;
* `pyAccepts_iff`, `rustAccepts_iff`, `goAccepts_iff` : what each accepts, besides;
* `signals_agree_iff` : exactly when an event is accepted by all or by none.
-/

namespace Atlas.Strategy

open Json
open Checked (check_ok_iff)
open PyText (IsDigits hyphenate)
open Python (fullSymbol matchesSymbol isUuid isSymbolChar)

/-- The rules on the version, the agent, the direction, the confidence and the regime. -/
structure Shared (event : SignalEvent) : Prop where
  version : event.version = "1.0.0"
  sourceAgent : event.sourceAgent ≠ ""
  direction : event.direction ∈ Python.validDirections
  confidence : 0 ≤ event.confidence ∧ event.confidence ≤ 1
  regime : event.regime ∈ Python.validRegimes

/-- Both identifiers meet `p`. -/
def Ids (p : String → Prop) (event : SignalEvent) : Prop := p event.eventId ∧ ∀ trace ∈ event.traceId, p trace

theorem pyAccepts_iff (decimal : Char → Option Nat) (event : SignalEvent) :
    PyAccepts decimal event ↔ Shared event ∧ matchesSymbol event.symbol = true ∧ Ids (isUuid decimal) event := by
  unfold PyAccepts Python.validate Python.validateSignal
  rw [check_ok_iff, check_ok_iff, check_ok_iff, check_ok_iff, check_ok_iff, check_ok_iff, check_ok_iff, check_ok_iff,
    Bool.not_eq_false]
  simp only [ne_eq, not_not, and_true]
  constructor
  · rintro ⟨hversion, hagent, hevent, htrace, hsymbol, hdirection, hconfidence, hregime⟩
    exact ⟨⟨hversion, hagent, hdirection, hconfidence, hregime⟩, hsymbol, hevent, htrace⟩
  · rintro ⟨h, hsymbol, hevent, htrace⟩
    exact ⟨h.version, h.sourceAgent, hevent, htrace, hsymbol, h.direction, h.confidence, h.regime⟩

/-! ## Symbols -/

theorem isSymbolChar_iff {c : Char} :
    isSymbolChar c = true ↔ (65 ≤ c.toNat ∧ c.toNat ≤ 90) ∨ (48 ≤ c.toNat ∧ c.toNat ≤ 57) := by
  simp [isSymbolChar]

theorem isUpperOrDigit_eq (c : Char) : Rust.isUpperOrDigit c = isSymbolChar c := by
  rw [Bool.eq_iff_iff, isSymbolChar_iff]
  simp only [Rust.isUpperOrDigit, decide_eq_true_eq, Char.le_def, UInt32.le_iff_toNat_le]
  rfl

/-- The bytes of a symbol are its characters. -/
theorem utf8ByteSize_symbol {s : String} (h : s.toList.all isSymbolChar = true) :
    s.utf8ByteSize = s.toList.length := by
  rw [← Utf8.length_bytes, Utf8.bytes]
  generalize s.toList = cs at h
  induction cs with
  | nil => rfl
  | cons c cs ih =>
    rw [List.all_cons, Bool.and_eq_true, isSymbolChar_iff] at h
    have hsize : c.utf8Size = 1 := by
      unfold Char.utf8Size
      rw [if_pos]
      rw [UInt32.le_iff_toNat_le]
      show c.toNat ≤ 127
      omega
    rw [Utf8.encode_cons, List.length_append, String.length_utf8EncodeChar, hsize, ih h.2, List.length_cons,
      Nat.add_comm]

/-- A length in bytes and one in characters are the same check on symbols. -/
theorem sized_symbol_iff (s : String) :
    (2 ≤ s.utf8ByteSize ∧ s.utf8ByteSize ≤ 20 ∧ s.toList.all isSymbolChar = true) ↔ fullSymbol s.toList = true := by
  simp only [fullSymbol, decide_eq_true_eq]
  constructor
  · rintro ⟨hlow, hhigh, hall⟩
    rw [utf8ByteSize_symbol hall] at hlow hhigh
    exact ⟨hlow, hhigh, hall⟩
  · rintro ⟨hlow, hhigh, hall⟩
    rw [utf8ByteSize_symbol hall]
    exact ⟨hlow, hhigh, hall⟩

theorem isValidSymbol_iff (s : String) : Broker.isValidSymbol s = true ↔ fullSymbol s.toList = true := by
  rw [← sized_symbol_iff]
  have hchar : ∀ c : Char, decide (('A' ≤ c ∧ c ≤ 'Z') ∨ ('0' ≤ c ∧ c ≤ '9')) = isSymbolChar c := isUpperOrDigit_eq
  unfold Broker.isValidSymbol
  simp only [hchar]
  split_ifs with h
  · refine iff_of_false (by decide) fun hs => ?_
    omega
  · have hrange : 2 ≤ s.utf8ByteSize ∧ s.utf8ByteSize ≤ 20 := by omega
    exact ⟨fun hall => ⟨hrange.1, hrange.2, hall⟩, fun hs => hs.2.2⟩

/-! ## Rust -/

variable {parseStr : String → Option Execution.Uuid}

theorem validateContract_ok_iff (e : Rust.StrategySignalEventV1) :
    e.validateContract = .ok () ↔ e.version = "1.0.0" ∧ e.sourceAgent ≠ "" ∧ fullSymbol e.signal.symbol.toList = true ∧
      0 ≤ e.signal.confidence ∧ e.signal.confidence ≤ 1 := by
  have hsymbol : (decide (e.signal.symbol.utf8ByteSize ≥ 2 ∧ e.signal.symbol.utf8ByteSize ≤ 20 ∧
      e.signal.symbol.toList.all Rust.isUpperOrDigit = true)) = fullSymbol e.signal.symbol.toList := by
    rw [Bool.eq_iff_iff, decide_eq_true_eq, ← sized_symbol_iff, funext isUpperOrDigit_eq]
  unfold Rust.StrategySignalEventV1.validateContract Rust.Signal.validateContract
  simp only [hsymbol]
  rw [check_ok_iff, check_ok_iff, check_ok_iff, check_ok_iff, Bool.not_eq_false]
  simp only [ne_eq, not_not, and_true]

theorem deserialize_signal (event : SignalEvent) :
    Rust.Signal.deserialize (.obj event.signalMembers) =
      match SerdeJson.named Rust.directions event.direction, SerdeJson.named Rust.regimes event.regime with
      | some direction, some regime => .ok ⟨event.symbol, direction, event.confidence, regime, []⟩
      | none, _ => .error (.unknownVariant event.direction)
      | _, none => .error (.unknownVariant event.regime) := by
  cases hdirection : SerdeJson.named Rust.directions event.direction with
  | none =>
    simp [Rust.Signal.deserialize, SerdeJson.deserialize, SerdeJson.visitMap, Rust.Signal.fields,
      SerdeJson.RecordField.of, SerdeJson.RecordField.optional, SignalEvent.signalMembers, SerdeJson.string,
      SerdeJson.variant, hdirection, Except.map]
  | some direction =>
    cases hregime : SerdeJson.named Rust.regimes event.regime with
    | none =>
      simp [Rust.Signal.deserialize, SerdeJson.deserialize, SerdeJson.visitMap, Rust.Signal.fields,
        SerdeJson.RecordField.of, SerdeJson.RecordField.optional, SignalEvent.signalMembers, SerdeJson.string,
        SerdeJson.variant, hdirection, hregime, SerdeJson.f64, event.exact, Except.map]
    | some regime =>
      simp [Rust.Signal.deserialize, SerdeJson.deserialize, SerdeJson.visitMap, Rust.Signal.fields,
        SerdeJson.RecordField.of, SerdeJson.RecordField.optional, SignalEvent.signalMembers, SerdeJson.string,
        SerdeJson.variant, hdirection, hregime, SerdeJson.f64, event.exact, Except.map]

/-- An event has a record just when its signal and its identifiers can be read. -/
theorem deserialize_event (event : SignalEvent) (e : Rust.StrategySignalEventV1) :
    Rust.deserialize parseStr event.toValue = .ok e ↔ ∃ signal eventId traceId,
      Rust.Signal.deserialize (.obj event.signalMembers) = .ok signal ∧
      parseStr event.eventId = some eventId ∧ event.traceId.map parseStr = traceId.map some ∧
      ⟨event.version, eventId, event.timestampUtc, traceId, event.sourceAgent, signal, []⟩ = e := by
  cases hevent : parseStr event.eventId with
  | none =>
    simp [Rust.deserialize, SerdeJson.deserialize, SerdeJson.visitMap, Rust.StrategySignalEventV1.fields,
      SerdeJson.RecordField.of, SerdeJson.RecordField.optional, SignalEvent.toValue, SignalEvent.traceMembers,
      SerdeJson.string, Rust.uuid, hevent, Except.map]
  | some eventId =>
    cases htrace : event.traceId with
    | none =>
      cases hsignal : Rust.Signal.deserialize (.obj event.signalMembers) <;>
        simp [Rust.deserialize, SerdeJson.deserialize, SerdeJson.visitMap, Rust.StrategySignalEventV1.fields,
          SerdeJson.RecordField.of, SerdeJson.RecordField.optional, SignalEvent.toValue, SignalEvent.traceMembers,
          SerdeJson.string, Rust.uuid, hevent, htrace, hsignal, Except.map]
    | some trace =>
      cases hparsed : parseStr trace <;>
        cases hsignal : Rust.Signal.deserialize (.obj event.signalMembers) <;>
          simp [Rust.deserialize, SerdeJson.deserialize, SerdeJson.visitMap, Rust.StrategySignalEventV1.fields,
            SerdeJson.RecordField.of, SerdeJson.RecordField.optional, SignalEvent.toValue, SignalEvent.traceMembers,
            SerdeJson.string, SerdeJson.option, Rust.uuid, hevent, htrace, hparsed, hsignal, Except.map]

theorem rustAccepts_iff (event : SignalEvent) :
    RustAccepts parseStr event ↔ Shared event ∧ fullSymbol event.symbol.toList = true ∧
      Ids (fun s => (parseStr s).isSome = true) event := by
  have hids : Ids (fun s => (parseStr s).isSome = true) event ↔
      ∃ (eventId : Execution.Uuid) (traceId : Option Execution.Uuid), parseStr event.eventId = some eventId ∧
        event.traceId.map parseStr = traceId.map some := by
    simp only [Ids, Option.isSome_iff_exists]
    cases event.traceId with
    | none => simp
    | some trace => cases hparsed : parseStr trace <;> simp [hparsed]
  have hdirection : event.direction ∈ Python.validDirections ↔
      ∃ direction, SerdeJson.named Rust.directions event.direction = some direction := by
    rw [← Option.isSome_iff_exists, SerdeJson.named_isSome_iff]
    rfl
  have hregime : event.regime ∈ Python.validRegimes ↔
      ∃ regime, SerdeJson.named Rust.regimes event.regime = some regime := by
    rw [← Option.isSome_iff_exists, SerdeJson.named_isSome_iff]
    rfl
  unfold RustAccepts
  simp only [deserialize_event, deserialize_signal, hids]
  constructor
  · rintro ⟨e, ⟨signal, eventId, traceId, hsignal, hevent, htrace, rfl⟩, hcheck⟩
    obtain ⟨hversion, hagent, hsymbol, hconfidence⟩ := (validateContract_ok_iff _).mp hcheck
    split at hsignal
    · rename_i direction regime hd hr
      obtain rfl := Except.ok.inj hsignal
      exact ⟨⟨hversion, hagent, hdirection.mpr ⟨_, hd⟩, hconfidence, hregime.mpr ⟨_, hr⟩⟩, hsymbol, eventId, traceId,
        hevent, htrace⟩
    · cases hsignal
    · cases hsignal
  · rintro ⟨h, hsymbol, eventId, traceId, hevent, htrace⟩
    obtain ⟨direction, hd⟩ := hdirection.mp h.direction
    obtain ⟨regime, hr⟩ := hregime.mp h.regime
    refine ⟨_, ⟨⟨event.symbol, direction, event.confidence, regime, []⟩, eventId, traceId, ?_, hevent, htrace, rfl⟩, ?_⟩
    · rw [hd, hr]
    · exact (validateContract_ok_iff _).mpr ⟨h.version, h.sourceAgent, hsymbol, h.confidence⟩

/-! ## Go -/

/-- The record Go decodes an event into. -/
def goRecord (event : SignalEvent) : Broker.StrategySignalPayload :=
  ⟨event.version, event.eventId, event.timestampUtc, event.traceId, event.sourceAgent,
    ⟨event.symbol, event.direction, event.confidence, event.regime, none⟩, none⟩

theorem decode_goRecord (event : SignalEvent) :
    GoJson.decodeStruct Broker.StrategySignalPayload.fields event.toValue .zero = .ok (goRecord event) := by
  cases htrace : event.traceId <;>
    simp [GoJson.decodeStruct, GoJson.decodeMembers, GoJson.field?, Broker.StrategySignalPayload.fields,
      GoJson.StructField.of, GoJson.StructField.nested, Broker.StrategySignalData.fields, SignalEvent.toValue,
      SignalEvent.traceMembers, SignalEvent.signalMembers, GoJson.string, GoJson.float64, event.exact, Except.map,
      Broker.StrategySignalPayload.zero, goRecord, htrace]

theorem goAccepts_iff (event : SignalEvent) :
    GoAccepts event ↔ Shared event ∧ fullSymbol event.symbol.toList = true ∧ event.eventId ≠ "" ∧
      event.timestampUtc ≠ "" := by
  have hcheck : GoAccepts event ↔ (goRecord event).check = .ok () := by
    unfold GoAccepts Broker.validateStrategySignalPayload
    simp only [Broker.decodeInto, decode_goRecord, Except.mapError]
  rw [hcheck, ← isValidSymbol_iff]
  unfold Broker.StrategySignalPayload.check goRecord
  rw [check_ok_iff, check_ok_iff, check_ok_iff, check_ok_iff, check_ok_iff, check_ok_iff, check_ok_iff, check_ok_iff,
    Bool.not_eq_false]
  simp only [ne_eq, not_not, not_or, not_lt, and_true]
  constructor
  · rintro ⟨hversion, hevent, htime, hagent, hsymbol, hdirection, hconfidence, hregime⟩
    exact ⟨⟨hversion, hagent, hdirection, hconfidence, hregime⟩, hsymbol, hevent, htime⟩
  · rintro ⟨h, hsymbol, hevent, htime⟩
    exact ⟨h.version, hevent, htime, h.sourceAgent, hsymbol, h.direction, h.confidence, h.regime⟩

/-! ## Agreement -/

variable {decimal : Char → Option Nat}

/-- The event is accepted by all three or by none. -/
def Agree (decimal : Char → Option Nat) (parseStr : String → Option Execution.Uuid) (event : SignalEvent) : Prop :=
  (PyAccepts decimal event ↔ RustAccepts parseStr event) ∧ (RustAccepts parseStr event ↔ GoAccepts event)

/-- The second of three conditions implies the first and half of the last. -/
theorem all_or_none_iff {p r e t : Prop} (hp : r → p) (he : r → e) :
    ((p ↔ r) ∧ (r ↔ e ∧ t)) ↔ (r ∧ t) ∨ (¬ p ∧ (¬ e ∨ ¬ t)) := by
  by_cases hr : r
  · simp [hr, hp hr, he hr]
  · simp only [hr, iff_false, false_iff, false_and, false_or, not_and_or]

/-- **The three validators.** Where the shared rules hold, a symbol with a newline behind it is only refused by all if
Python refuses an identifier; with a well-formed symbol, all accept or all refuse the identifiers and the time. -/
theorem signals_agree_iff (hparse : ∀ s, (parseStr s).isSome = true ↔ IsUuidText s) (event : SignalEvent) :
    Agree decimal parseStr event ↔ (Shared event →
      (fullSymbol event.symbol.toList = false → matchesSymbol event.symbol = true → ¬ Ids (isUuid decimal) event) ∧
      (fullSymbol event.symbol.toList = true →
        (Ids IsUuidText event ∧ event.timestampUtc ≠ "") ∨
          (¬ Ids (isUuid decimal) event ∧ (event.eventId = "" ∨ event.timestampUtc = "")))) := by
  have hrust : Ids (fun s => (parseStr s).isSome = true) event ↔ Ids IsUuidText event := by
    simp only [Ids, hparse]
  have hpython : Ids IsUuidText event → Ids (isUuid decimal) event := fun h =>
    ⟨h.1.python decimal, fun trace ht => (h.2 trace ht).python decimal⟩
  have hempty : Ids IsUuidText event → event.eventId ≠ "" := by
    intro h hnil
    exact not_isUuidText_empty (hnil ▸ h.1)
  have hmatch : fullSymbol event.symbol.toList = true → matchesSymbol event.symbol = true := fun h => by
    simp [matchesSymbol, h]
  unfold Agree
  rw [pyAccepts_iff, rustAccepts_iff, goAccepts_iff, hrust]
  by_cases hshared : Shared event
  · cases hfull : fullSymbol event.symbol.toList with
    | false =>
      simp only [hshared, Bool.false_eq_true, true_and, false_and, and_false, and_true, forall_const, false_imp_iff,
        iff_false, not_and]
    | true =>
      have hall := @all_or_none_iff _ _ _ (event.timestampUtc ≠ "") hpython hempty
      simp only [ne_eq, not_not] at hall
      simp only [hshared, hmatch hfull, true_and, forall_const, Bool.true_eq_false, false_imp_iff, ne_eq]
      exact hall
  · simp only [hshared, false_and, false_imp_iff, iff_self, and_self]

/-! ### One long signal -/

/-- The parser of the `uuid` crate: the digits between what a writing puts around them. -/
def parseUuid (s : String) : Option Execution.Uuid :=
  let cs := s.toList
  let candidates := [cs, cs.filter (· ≠ '-'), ((cs.drop 1).dropLast).filter (· ≠ '-'), (cs.drop 9).filter (· ≠ '-')]
  (candidates.find? fun digits => IsDigits digits ∧ cs ∈ uuidWritings digits).map fun digits =>
    BitVec.ofNat 128 (PyText.value16 digits)

theorem parseUuid_isSome_iff (s : String) : (parseUuid s).isSome = true ↔ IsUuidText s := by
  unfold parseUuid IsUuidText
  rw [Option.isSome_map, List.find?_isSome]
  simp only [decide_eq_true_eq]
  constructor
  · rintro ⟨digits, -, hdigits, hs⟩
    exact ⟨digits, hdigits, hs⟩
  · rintro ⟨digits, hdigits, hs⟩
    refine ⟨digits, ?_, hdigits, hs⟩
    have hfilter := PyText.filter_hyphenate hdigits
    simp only [uuidWritings, List.mem_cons, List.not_mem_nil, or_false] at hs
    rcases hs with hs | hs | hs | hs <;> rw [hs]
    · simp
    · rw [hfilter]
      simp
    · have hinner : (('{' :: hyphenate digits ++ ['}']).drop 1).dropLast = hyphenate digits := by simp
      rw [hinner, hfilter]
      simp
    · have hinner : ("urn:uuid:".toList ++ hyphenate digits).drop 9 = hyphenate digits := by simp
      rw [hinner, hfilter]
      simp

theorem one_ne_nil : ([49] : List UInt8) ≠ [] := by simp

theorem isDigit_one : ∀ b ∈ [49], Decimal.IsDigit b := by simp [Decimal.IsDigit]

theorem head_one : ([49] : List UInt8).head? ≠ some 48 := by simp

def one : NumLit where
  neg := false
  int := .pos ⟨[49], one_ne_nil, isDigit_one⟩ head_one
  frac := none
  exp := none

theorem round_one : Binary64.round one.value = some 1 := by
  have hvalue : one.value = ((1 : ℤ) : ℚ) := NumLit.value_of_isInt ⟨rfl, rfl⟩
  rw [hvalue, Binary64.round_intCast (by norm_num)]
  norm_num

def longSignal (timestampUtc : String) : SignalEvent where
  version := "1.0.0"
  eventId := "550e8400-e29b-41d4-a716-446655440000"
  timestampUtc := timestampUtc
  traceId := none
  sourceAgent := "strategy_selector_v2"
  symbol := "BTCUSDT"
  direction := "LONG"
  regime := "TRENDING"
  confidence := 1
  written := one
  exact := round_one

theorem isUuidText_longSignal : IsUuidText "550e8400-e29b-41d4-a716-446655440000" :=
  ⟨"550e8400e29b41d4a716446655440000".toList, by decide, by decide⟩

theorem longSignal_agree : Agree (fun _ => none) parseUuid (longSignal "2026-08-31T10:00:00Z") := by
  refine (signals_agree_iff parseUuid_isSome_iff _).mpr fun _ => ⟨fun h => absurd h (by decide), fun _ => Or.inl ?_⟩
  exact ⟨⟨isUuidText_longSignal, fun trace ht => nomatch ht⟩, by decide⟩

/-- Python and Rust take an event without a time, Go does not. -/
theorem signals_not_agree_untimed :
    (∀ s, (parseUuid s).isSome = true ↔ IsUuidText s) ∧ ¬ Agree (fun _ => none) parseUuid (longSignal "") := by
  refine ⟨parseUuid_isSome_iff, fun h => ?_⟩
  have hshared : Shared (longSignal "") := ⟨rfl, by decide, by decide, by norm_num [longSignal], by decide⟩
  have hids : Ids (fun s => (parseUuid s).isSome = true) (longSignal "") :=
    ⟨(parseUuid_isSome_iff _).mpr isUuidText_longSignal, fun trace ht => nomatch ht⟩
  have hrust : RustAccepts parseUuid (longSignal "") := (rustAccepts_iff _).mpr ⟨hshared, by decide, hids⟩
  exact ((goAccepts_iff _).mp (h.2.mp hrust)).2.2.2 rfl

end Atlas.Strategy
