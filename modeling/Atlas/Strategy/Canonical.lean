import Atlas.Strategy.SignalAgreement
import Atlas.Strategy.UuidText
import Atlas.Lib.FloatRepr
import Atlas.Lib.Json.Line
import Atlas.Lib.Json.Splice

/-!
# The canonical text of a signal event in two languages

* `Python.toJson` : `to_json` of the contract adapter;
* `Rust.parityCheck` : the binary `parity_check` : a file is read, checked, sorted and printed. What serde_json makes of
  numbers is a parameter: `format` prints a confidence, `number` what is printed for a number among the parameters;
* `Canonical` : the events for which both texts are the same; `parity_iff`.
-/

namespace Atlas.Strategy

open Json
open SerdeJson (deserialize_obj visitMap_asciiLit visitMap_nil fieldFor finish RecordField ok_bind map_eq_bind)

/-! ## Python -/

namespace Python

/-- The event as Python's object. Dicts have no key twice, and the confidence is a double. -/
structure StrategySignalEventV1 where
  version : String
  eventId : String
  timestampUtc : String
  sourceAgent : String
  symbol : String
  direction : String
  confidence : ℚ
  regime : String
  parameters : List (String × Data)
  traceId : Option String
  metadata : List (String × String)
  double : Binary64.round confidence = some confidence
  parameters_distinct : (Data.dict parameters).Distinct
  metadata_nodup : (metadata.map Prod.fst).Nodup

namespace StrategySignalEventV1
variable (event : StrategySignalEventV1)

/-- What `validate` reads. -/
def signalEvent : SignalEvent where
  version := event.version
  eventId := event.eventId
  timestampUtc := event.timestampUtc
  traceId := event.traceId
  sourceAgent := event.sourceAgent
  symbol := event.symbol
  direction := event.direction
  regime := event.regime
  confidence := event.confidence
  written := FloatRepr.repr event.confidence
  exact := FloatRepr.round_repr event.double

/-- `asdict` of the signal, without parameters that are empty. -/
def signalItems : List (String × Data) :=
  [("symbol", Data.text event.symbol), ("direction", Data.text event.direction),
    ("confidence", Data.num (FloatRepr.repr event.confidence)), ("regime", Data.text event.regime)] ++
  if event.parameters.isEmpty then [] else [("parameters", Data.dict event.parameters)]

def metadataItems : List (String × Data) := event.metadata.map fun m => (m.1, Data.text m.2)

/-- `asdict` of the event, without what is absent or empty. -/
def items : List (String × Data) :=
  [("version", Data.text event.version), ("event_id", Data.text event.eventId),
    ("timestamp_utc", Data.text event.timestampUtc), ("source_agent", Data.text event.sourceAgent),
    ("signal", Data.dict event.signalItems)] ++
  event.traceId.toList.map (fun trace => ("trace_id", Data.text trace)) ++
  if event.metadata.isEmpty then [] else [("metadata", Data.dict event.metadataItems)]

/-- The bytes of `to_json`, which are all ASCII; keys are sorted by their code points. -/
def toJson (decimal : Char → Option Nat) : Except ContractValidationError (List UInt8) :=
  match validate decimal event.signalEvent with
  | .error e => .error e
  | .ok () => .ok (((Data.dict event.items).sorted (· ≤ ·)).write asciiLit).render

end StrategySignalEventV1

end Python

/-! ## Rust -/

namespace Rust

def Direction.name : Direction → String
  | .long => "LONG"
  | .short => "SHORT"
  | .flat => "FLAT"

def MarketRegime.name : MarketRegime → String
  | .trending => "TRENDING"
  | .ranging => "RANGING"
  | .volatile => "VOLATILE"
  | .calm => "CALM"

section
variable (format : ℚ → NumLit) (number : NumLit → NumLit)

/-- `serde_json::to_value` of a signal. -/
def Signal.items (signal : Signal) : List (String × Data) :=
  [("symbol", Data.text signal.symbol), ("direction", Data.text signal.direction.name),
    ("confidence", Data.num (format signal.confidence)), ("regime", Data.text signal.regime.name)] ++
  if signal.parameters.isEmpty then []
  else [("parameters", Data.dict (signal.parameters.map fun p => (p.1, SerdeJson.data number p.2)))]

/-- `serde_json::to_value` of an event; a UUID is written with hyphens, in lower case. -/
def StrategySignalEventV1.items (event : StrategySignalEventV1) : List (String × Data) :=
  [("version", Data.text event.version), ("event_id", Data.text (Execution.Uuid.toString event.eventId)),
    ("timestamp_utc", Data.text event.timestampUtc)] ++
  event.traceId.toList.map (fun trace => ("trace_id", Data.text (Execution.Uuid.toString trace))) ++
  [("source_agent", Data.text event.sourceAgent), ("signal", Data.dict (event.signal.items format number))] ++
  if event.metadata.isEmpty then [] else [("metadata", Data.dict (event.metadata.map fun m => (m.1, Data.text m.2)))]

/-- Keys in the order of their bytes. -/
def sortJsonValue : Data → Data := Data.sorted fun s t => Utf8.byteNumbers s ≤ Utf8.byteNumbers t

/-- What is printed for a file, nothing on the way out through an error. Containers nest 127 deep at most. -/
def parityCheck (parseStr : String → Option Execution.Uuid) (fixture : List UInt8) : Option (List UInt8) :=
  if (Utf8.fromUtf8 fixture).isNone then none
  else match readValue 127 fixture with
    | none => none
    | some (raw, rest) =>
      if ¬ Blank rest then none
      else match deserialize parseStr raw with
        | .error _ => none
        | .ok event =>
          match event.validateContract with
          | .error _ => none
          | .ok () => some ((sortJsonValue (.dict (event.items format number))).write lit).render

end

end Rust

/-! ## Keys in order -/

/-- The entries of a signal in the order of their keys. -/
def sortedSignal (symbol direction regime : String) (confidence : NumLit) (parameters : List (String × Data)) :
    List (String × Data) :=
  [("confidence", Data.num confidence), ("direction", Data.text direction)] ++
  (if parameters.isEmpty then [] else [("parameters", Data.dict parameters)]) ++
  [("regime", Data.text regime), ("symbol", Data.text symbol)]

/-- The entries of an event in the order of their keys. -/
def sortedEvent (version eventId timestampUtc sourceAgent : String) (traceId : Option String)
    (signal metadata : List (String × Data)) : List (String × Data) :=
  [("event_id", Data.text eventId)] ++ (if metadata.isEmpty then [] else [("metadata", Data.dict metadata)]) ++
  [("signal", Data.dict signal), ("source_agent", Data.text sourceAgent), ("timestamp_utc", Data.text timestampUtc)] ++
  traceId.toList.map (fun trace => ("trace_id", Data.text trace)) ++ [("version", Data.text version)]

/-- The entries of a dict in the order of the keys, at every level. -/
def sortItems (items : List (String × Data)) : List (String × Data) :=
  Data.sortKeys (· ≤ ·) (items.map fun e => (e.1, e.2.sorted (· ≤ ·)))

theorem sorted_dict (items : List (String × Data)) : (Data.dict items).sorted (· ≤ ·) = .dict (sortItems items) :=
  Data.sorted_dict _ items

theorem isEmpty_sortItems (items : List (String × Data)) : (sortItems items).isEmpty = items.isEmpty := by
  have hperm := Data.perm_sortKeys (· ≤ ·) (items.map fun e => (e.1, e.2.sorted (· ≤ ·)))
  rw [Bool.eq_iff_iff, List.isEmpty_iff_length_eq_zero, List.isEmpty_iff_length_eq_zero, sortItems, hperm.length_eq,
    List.length_map]

theorem sortJsonValue_eq : Rust.sortJsonValue = Data.sorted (· ≤ ·) := by
  have hle : (fun s t => Utf8.byteNumbers s ≤ Utf8.byteNumbers t) = fun s t : String => s ≤ t := by
    ext s t
    exact Utf8.byteNumbers_le_iff s t
  unfold Rust.sortJsonValue
  congr!

section
variable (symbol direction regime version eventId timestampUtc sourceAgent : String) (confidence : NumLit)
  (traceId : Option String) (parameters signal metadata : List (String × Data))

theorem sortItems_signal :
    sortItems ([("symbol", Data.text symbol), ("direction", Data.text direction), ("confidence", Data.num confidence),
        ("regime", Data.text regime)] ++ if parameters.isEmpty then [] else [("parameters", Data.dict parameters)]) =
      sortedSignal symbol direction regime confidence (sortItems parameters) := by
  unfold sortedSignal
  rw [isEmpty_sortItems]
  show Data.sortKeys (· ≤ ·) (List.map _ _) = _
  split_ifs <;> simp only [List.cons_append, List.nil_append, List.append_nil, List.map_cons, List.map_nil,
    Data.sorted_text, Data.sorted_num, sorted_dict, Data.sortKeys_cons, Data.sortKeys_nil, List.orderedInsert_cons,
    List.orderedInsert_nil, String.reduceLE, if_true, if_false]

/-- In the order of Python's fields. -/
theorem sortItems_python :
    sortItems ([("version", Data.text version), ("event_id", Data.text eventId),
        ("timestamp_utc", Data.text timestampUtc), ("source_agent", Data.text sourceAgent),
        ("signal", Data.dict signal)] ++
        traceId.toList.map (fun trace => ("trace_id", Data.text trace)) ++
        if metadata.isEmpty then [] else [("metadata", Data.dict metadata)]) =
      sortedEvent version eventId timestampUtc sourceAgent traceId (sortItems signal) (sortItems metadata) := by
  unfold sortedEvent
  rw [isEmpty_sortItems]
  show Data.sortKeys (· ≤ ·) (List.map _ _) = _
  cases traceId <;> split_ifs <;> simp only [Option.toList, List.cons_append, List.nil_append, List.append_nil,
    List.map_cons, List.map_nil, Data.sorted_text, sorted_dict, Data.sortKeys_cons, Data.sortKeys_nil,
    List.orderedInsert_cons, List.orderedInsert_nil, String.reduceLE, if_true, if_false]

/-- In the order of Rust's fields. -/
theorem sortItems_rust :
    sortItems ([("version", Data.text version), ("event_id", Data.text eventId),
        ("timestamp_utc", Data.text timestampUtc)] ++
        traceId.toList.map (fun trace => ("trace_id", Data.text trace)) ++
        [("source_agent", Data.text sourceAgent), ("signal", Data.dict signal)] ++
        if metadata.isEmpty then [] else [("metadata", Data.dict metadata)]) =
      sortedEvent version eventId timestampUtc sourceAgent traceId (sortItems signal) (sortItems metadata) := by
  unfold sortedEvent
  rw [isEmpty_sortItems]
  show Data.sortKeys (· ≤ ·) (List.map _ _) = _
  cases traceId <;> split_ifs <;> simp only [Option.toList, List.cons_append, List.nil_append, List.append_nil,
    List.map_cons, List.map_nil, Data.sorted_text, sorted_dict, Data.sortKeys_cons, Data.sortKeys_nil,
    List.orderedInsert_cons, List.orderedInsert_nil, String.reduceLE, if_true, if_false]

end

/-! ## Reading what Python has written -/

/-- The members of the parameters, as they are read. -/
def readItems (items : List (String × Data)) : List (String × Value) := items.map fun e => (e.1, e.2.write asciiLit)

theorem mapOf_jsonValue {items : List (String × Data)} (h : (items.map Prod.fst).Nodup)
    {entries : List (String × Value)}
    (hread : SerdeJson.mapOf SerdeJson.jsonValue ((Data.dict items).write asciiLit) = .ok entries) :
    entries = readItems items := by
  rw [Data.write_dict,
    SerdeJson.mapOf_write SerdeJson.text?_asciiLit SerdeJson.jsonValue (Data.write asciiLit) h] at hread
  exact SerdeJson.eq_of_mapM_jsonValue (Data.write asciiLit) hread

theorem mapOf_string {items : List (String × String)} (h : (items.map Prod.fst).Nodup) :
    SerdeJson.mapOf SerdeJson.string ((Data.dict (items.map fun m => (m.1, .text m.2))).write asciiLit) =
      .ok items := by
  rw [Data.write_dict, List.map_map]
  exact (SerdeJson.mapOf_write SerdeJson.text?_asciiLit SerdeJson.string (fun s => .str (asciiLit s)) h).trans
    (SerdeJson.mapM_string SerdeJson.text?_asciiLit items)

theorem string_asciiLit (s : String) : SerdeJson.string (.str (asciiLit s)) = .ok s := by
  rw [SerdeJson.string, SerdeJson.text?_asciiLit]
  rfl

/-- The parameters of a signal, read or left out. -/
def readParameters (items : List (String × Data)) : Except SerdeJson.Error (List (String × Value)) :=
  if items.isEmpty then .ok [] else SerdeJson.mapOf SerdeJson.jsonValue ((Data.dict items).write asciiLit)

theorem readParameters_ok {items : List (String × Data)} (h : (items.map Prod.fst).Nodup)
    {entries : List (String × Value)} (hread : readParameters items = .ok entries) : entries = readItems items := by
  unfold readParameters at hread
  split_ifs at hread with hempty
  · rw [List.isEmpty_iff.mp hempty]
    exact (Except.ok.inj hread).symm
  · exact mapOf_jsonValue h hread

/-- A signal that Python has written, as Rust reads it. -/
theorem deserialize_sortedSignal (symbol direction regime : String) {written : NumLit} {confidence : ℚ}
    (hround : Binary64.round written.value = some confidence) (items : List (String × Data)) :
    Rust.Signal.deserialize ((Data.dict (sortedSignal symbol direction regime written items)).write asciiLit) = (do
      let d ← SerdeJson.variant Rust.directions (.str (asciiLit direction))
      let parameters ← readParameters items
      let r ← SerdeJson.variant Rust.regimes (.str (asciiLit regime))
      pure ⟨symbol, d, confidence, r, parameters⟩) := by
  have hnumber : SerdeJson.f64 (.num written) = .ok confidence := by
    rw [SerdeJson.f64, hround]
    rfl
  unfold readParameters sortedSignal Rust.Signal.deserialize
  rw [Data.write_dict, deserialize_obj]
  split_ifs with hempty
  · simp [visitMap_asciiLit, visitMap_nil, fieldFor, finish, Rust.Signal.fields, RecordField.of, RecordField.optional,
      ok_bind, map_eq_bind, hnumber, string_asciiLit]
    rfl
  · simp [visitMap_asciiLit, visitMap_nil, fieldFor, finish, Rust.Signal.fields, RecordField.of, RecordField.optional,
      ok_bind, map_eq_bind, hnumber, string_asciiLit]
    rfl

/-- The trace id of an event, read or left out. -/
def readTrace (parseStr : String → Option Execution.Uuid) (traceId : Option String) :
    Except SerdeJson.Error (Option Execution.Uuid) :=
  match traceId with
  | none => .ok none
  | some trace => SerdeJson.option (Rust.uuid parseStr) (.str (asciiLit trace))

/-- An event that Python has written, as Rust reads it. -/
theorem deserialize_sortedEvent (parseStr : String → Option Execution.Uuid)
    (version eventId timestampUtc sourceAgent : String) (traceId : Option String) (signal : List (String × Data))
    {metadata : List (String × String)} (h : (metadata.map Prod.fst).Nodup) :
    Rust.deserialize parseStr ((Data.dict (sortedEvent version eventId timestampUtc sourceAgent traceId signal
        (metadata.map fun m => (m.1, .text m.2)))).write asciiLit) = (do
      let eventId ← Rust.uuid parseStr (.str (asciiLit eventId))
      let signal ← Rust.Signal.deserialize ((Data.dict signal).write asciiLit)
      let traceId ← readTrace parseStr traceId
      pure ⟨version, eventId, timestampUtc, traceId, sourceAgent, signal, metadata⟩) := by
  have hmetadata := mapOf_string h
  unfold readTrace sortedEvent Rust.deserialize
  rw [Data.write_dict, deserialize_obj, List.isEmpty_map]
  cases traceId with
  | none =>
    split_ifs with hempty
    · simp [visitMap_asciiLit, visitMap_nil, fieldFor, finish, Rust.StrategySignalEventV1.fields, RecordField.of,
        RecordField.optional, ok_bind, map_eq_bind, string_asciiLit, List.isEmpty_iff.mp hempty]
    · simp [visitMap_asciiLit, visitMap_nil, fieldFor, finish, Rust.StrategySignalEventV1.fields, RecordField.of,
        RecordField.optional, ok_bind, map_eq_bind, string_asciiLit, hmetadata]
  | some trace =>
    split_ifs with hempty
    · simp [visitMap_asciiLit, visitMap_nil, fieldFor, finish, Rust.StrategySignalEventV1.fields, RecordField.of,
        RecordField.optional, ok_bind, map_eq_bind, string_asciiLit, List.isEmpty_iff.mp hempty]
      rfl
    · simp [visitMap_asciiLit, visitMap_nil, fieldFor, finish, Rust.StrategySignalEventV1.fields, RecordField.of,
        RecordField.optional, ok_bind, map_eq_bind, string_asciiLit, hmetadata]
      rfl

/-! ## UUIDs -/

variable {parseStr : String → Option Execution.Uuid}

/-- Rust writes a UUID as Python does just when it has been given in the canonical form. -/
theorem lit_toString_iff (hparse : ParsesUuids parseStr) {s : String} {u : Execution.Uuid} (h : parseStr s = some u) :
    lit (Execution.Uuid.toString u) = asciiLit s ↔ IsLowerUuid s := by
  rw [← toString_eq_iff hparse h]
  constructor
  · intro heq
    have hrunes := congrArg runes heq
    rw [runes_lit, runes_asciiLit] at hrunes
    exact String.toList_inj.mp (List.map_injective_iff.mpr (fun _ _ => Rune.char.inj) hrunes)
  · rintro rfl
    exact (asciiLit_eq_iff _).mpr (isAscii_toString u)

/-! ## The two texts -/

theorem sortItems_texts (items : List (String × String)) :
    sortItems (items.map fun m => (m.1, .text m.2)) = (Data.sortKeys (· ≤ ·) items).map fun m => (m.1, .text m.2) := by
  unfold sortItems
  rw [List.map_map]
  exact Data.sortKeys_map (· ≤ ·) Data.text items

namespace Python.StrategySignalEventV1
variable (event : StrategySignalEventV1)

def sortedParameters : List (String × Data) := sortItems event.parameters

def sortedMetadata : List (String × String) := Data.sortKeys (· ≤ ·) event.metadata

theorem sorted_items : (Data.dict event.items).sorted (· ≤ ·) =
    .dict (sortedEvent event.version event.eventId event.timestampUtc event.sourceAgent event.traceId
      (sortedSignal event.symbol event.direction event.regime (FloatRepr.repr event.confidence) event.sortedParameters)
      (event.sortedMetadata.map fun m => (m.1, .text m.2))) := by
  have hmetadata : event.metadata.isEmpty = event.metadataItems.isEmpty := List.isEmpty_map.symm
  unfold items
  rw [sorted_dict, hmetadata, sortItems_python, signalItems, sortItems_signal, metadataItems, sortItems_texts]
  rfl

theorem distinct_sortedParameters : (Data.dict event.sortedParameters).Distinct := by
  have hsorted := (Data.distinct_sorted (· ≤ ·)).mpr event.parameters_distinct
  rwa [sorted_dict] at hsorted

theorem nodup_sortedMetadata : (event.sortedMetadata.map Prod.fst).Nodup :=
  (Data.nodup_sortKeys (· ≤ ·)).mpr event.metadata_nodup

end Python.StrategySignalEventV1

theorem of_bind_ok {α β : Type} {x : Except SerdeJson.Error α} {f : α → Except SerdeJson.Error β} {b : β}
    (h : (x >>= f) = .ok b) : ∃ a, x = .ok a ∧ f a = .ok b := by
  cases x with
  | error e => cases h
  | ok a => exact ⟨a, rfl, h⟩

theorem uuid_asciiLit {s : String} {u : Execution.Uuid} (h : Rust.uuid parseStr (.str (asciiLit s)) = .ok u) :
    parseStr s = some u := by
  rw [Rust.uuid, string_asciiLit] at h
  dsimp only at h
  cases hs : parseStr s with
  | none =>
    rw [hs] at h
    cases h
  | some v =>
    rw [hs] at h
    rw [Except.ok.inj h]

theorem readTrace_ok {traceId : Option String} {uuid : Option Execution.Uuid}
    (h : readTrace parseStr traceId = .ok uuid) : traceId.map parseStr = uuid.map some := by
  cases traceId with
  | none => rw [← Except.ok.inj h]; rfl
  | some trace =>
    have hread : (Rust.uuid parseStr (.str (asciiLit trace)) >>= fun u => .ok (some u)) = .ok uuid := h
    obtain ⟨u, hu, heq⟩ := of_bind_ok hread
    rw [← Except.ok.inj heq, Option.map_some, uuid_asciiLit hu]
    rfl

theorem variant_asciiLit {α : Type} {variants : List (String × α)} {s : String} {a : α}
    (h : SerdeJson.variant variants (.str (asciiLit s)) = .ok a) : SerdeJson.named variants s = some a := by
  unfold SerdeJson.variant at h
  simp only [string_asciiLit] at h
  cases hs : SerdeJson.named variants s with
  | none =>
    rw [hs] at h
    cases h
  | some b =>
    rw [hs] at h
    rw [Except.ok.inj h]

theorem name_direction {s : String} {d : Rust.Direction} (h : SerdeJson.named Rust.directions s = some d) :
    d.name = s := by
  obtain ⟨⟨name, d'⟩, hfind, rfl⟩ := Option.map_eq_some_iff.mp h
  have hname : name = s := by simpa using List.find?_some hfind
  have hmem := List.mem_of_find?_eq_some hfind
  simp only [Rust.directions, List.mem_cons, List.not_mem_nil, or_false, Prod.mk.injEq] at hmem
  rcases hmem with ⟨rfl, rfl⟩ | ⟨rfl, rfl⟩ | ⟨rfl, rfl⟩ <;> exact hname

theorem name_regime {s : String} {r : Rust.MarketRegime} (h : SerdeJson.named Rust.regimes s = some r) :
    r.name = s := by
  obtain ⟨⟨name, r'⟩, hfind, rfl⟩ := Option.map_eq_some_iff.mp h
  have hname : name = s := by simpa using List.find?_some hfind
  have hmem := List.mem_of_find?_eq_some hfind
  simp only [Rust.regimes, List.mem_cons, List.not_mem_nil, or_false, Prod.mk.injEq] at hmem
  rcases hmem with ⟨rfl, rfl⟩ | ⟨rfl, rfl⟩ | ⟨rfl, rfl⟩ | ⟨rfl, rfl⟩ <;> exact hname

/-- The text that Python writes, as a value. -/
def written (event : Python.StrategySignalEventV1) : Value := ((Data.dict event.items).sorted (· ≤ ·)).write asciiLit

/-- What Rust reads of it. -/
structure ReadAs (parseStr : String → Option Execution.Uuid) (event : Python.StrategySignalEventV1)
    (record : Rust.StrategySignalEventV1) : Prop where
  version : record.version = event.version
  eventId : parseStr event.eventId = some record.eventId
  timestampUtc : record.timestampUtc = event.timestampUtc
  traceId : event.traceId.map parseStr = record.traceId.map some
  sourceAgent : record.sourceAgent = event.sourceAgent
  symbol : record.signal.symbol = event.symbol
  direction : record.signal.direction.name = event.direction
  confidence : record.signal.confidence = event.confidence
  regime : record.signal.regime.name = event.regime
  parameters : record.signal.parameters = readItems event.sortedParameters
  metadata : record.metadata = event.sortedMetadata

theorem readAs_of_deserialize {event : Python.StrategySignalEventV1} {record : Rust.StrategySignalEventV1}
    (h : Rust.deserialize parseStr (written event) = .ok record) : ReadAs parseStr event record := by
  unfold written at h
  rw [event.sorted_items, deserialize_sortedEvent parseStr _ _ _ _ _ _ event.nodup_sortedMetadata] at h
  obtain ⟨eventId, heventId, h⟩ := of_bind_ok h
  obtain ⟨signal, hsignal, h⟩ := of_bind_ok h
  obtain ⟨traceId, htraceId, h⟩ := of_bind_ok h
  obtain rfl := Except.ok.inj h
  rw [deserialize_sortedSignal _ _ _ (FloatRepr.round_repr event.double)] at hsignal
  obtain ⟨direction, hdirection, hsignal⟩ := of_bind_ok hsignal
  obtain ⟨parameters, hparameters, hsignal⟩ := of_bind_ok hsignal
  obtain ⟨regime, hregime, hsignal⟩ := of_bind_ok hsignal
  obtain rfl := Except.ok.inj hsignal
  have hdistinct := (Data.distinct_dict.mp event.distinct_sortedParameters).1
  exact ⟨rfl, uuid_asciiLit heventId, rfl, readTrace_ok htraceId, rfl, rfl,
    name_direction (variant_asciiLit hdirection), rfl, name_regime (variant_asciiLit hregime),
    readParameters_ok hdistinct hparameters, rfl⟩

section
variable (format : ℚ → NumLit) (number : NumLit → NumLit)

/-- Entries with other numbers. -/
def mapItems (items : List (String × Data)) : List (String × Data) := items.map fun e => (e.1, e.2.mapNum number)

theorem le_trans_string (a b c : String) : a ≤ b → b ≤ c → a ≤ c := le_trans

theorem data_readItems {items : List (String × Data)} (h : (Data.dict items).Distinct) :
    (readItems items).map (fun p => (p.1, SerdeJson.data number p.2)) = mapItems number items := by
  rw [readItems, List.map_map]
  refine List.map_congr_left fun e he => ?_
  rw [Function.comp_apply, SerdeJson.data_write SerdeJson.text?_asciiLit number ((Data.distinct_dict.mp h).2 e he)]

/-- What has been sorted stays so with other numbers. -/
theorem sortItems_mapItems (items : List (String × Data)) :
    sortItems (mapItems number (sortItems items)) = mapItems number (sortItems items) := by
  have hsorted : Data.dict (sortItems (mapItems number (sortItems items))) =
      .dict (mapItems number (sortItems items)) := by
    calc Data.dict (sortItems (mapItems number (sortItems items)))
        = ((Data.dict (sortItems items)).mapNum number).sorted (· ≤ ·) := by rw [Data.mapNum_dict, sorted_dict]; rfl
      _ = (((Data.dict items).sorted (· ≤ ·)).sorted (· ≤ ·)).mapNum number := by
        rw [Data.sorted_mapNum, sorted_dict items]
      _ = ((Data.dict items).sorted (· ≤ ·)).mapNum number := by
        rw [Data.sorted_sorted (· ≤ ·) le_total le_trans_string]
      _ = .dict (mapItems number (sortItems items)) := by rw [sorted_dict, Data.mapNum_dict]; rfl
  exact Data.dict.inj hsorted

/-- What Rust prints, before it is written. -/
theorem sorted_record {event : Python.StrategySignalEventV1} {record : Rust.StrategySignalEventV1}
    (h : ReadAs parseStr event record) : Rust.sortJsonValue (.dict (record.items format number)) =
      .dict (sortedEvent event.version (Execution.Uuid.toString record.eventId) event.timestampUtc event.sourceAgent
        (record.traceId.map Execution.Uuid.toString)
        (sortedSignal event.symbol event.direction event.regime (format event.confidence)
          (mapItems number event.sortedParameters))
        (event.sortedMetadata.map fun m => (m.1, .text m.2))) := by
  have hsignal : sortItems (record.signal.items format number) = sortedSignal event.symbol event.direction event.regime
      (format event.confidence) (mapItems number event.sortedParameters) := by
    have hread : record.signal.parameters.map (fun p => (p.1, SerdeJson.data number p.2)) =
        mapItems number event.sortedParameters := by
      rw [h.parameters, data_readItems number event.distinct_sortedParameters]
    have hempty : record.signal.parameters.isEmpty = (mapItems number event.sortedParameters).isEmpty := by
      rw [← hread, List.isEmpty_map]
    unfold Rust.Signal.items
    rw [hread, hempty, sortItems_signal, h.symbol, h.direction, h.confidence, h.regime]
    exact congrArg _ (sortItems_mapItems number event.parameters)
  have hmetadata : sortItems (event.sortedMetadata.map fun m => (m.1, .text m.2)) =
      event.sortedMetadata.map fun m => (m.1, .text m.2) := by
    rw [sortItems_texts, Python.StrategySignalEventV1.sortedMetadata,
      Data.sortKeys_sortKeys (· ≤ ·) le_total le_trans_string]
  have htrace : record.traceId.toList.map (fun trace => ("trace_id", Data.text (Execution.Uuid.toString trace))) =
      (record.traceId.map Execution.Uuid.toString).toList.map fun trace => ("trace_id", Data.text trace) := by
    cases record.traceId <;> rfl
  have hempty : record.metadata.isEmpty = (event.sortedMetadata.map fun m => (m.1, Data.text m.2)).isEmpty := by
    rw [h.metadata, List.isEmpty_map]
  unfold Rust.StrategySignalEventV1.items
  rw [sortJsonValue_eq, sorted_dict, htrace, hempty, h.metadata, sortItems_rust, hsignal, hmetadata, h.version,
    h.timestampUtc, h.sourceAgent]

end

/-! ## Comparing the texts -/

/-- Rust writes the one as Python writes the other. -/
def Alike (d d' : Data) : Prop := d.write lit = d'.write asciiLit

theorem alike_text {s s' : String} : Alike (.text s) (.text s') ↔ lit s = asciiLit s' := by
  unfold Alike
  rw [Data.write_text, Data.write_text, Value.str.injEq]

theorem alike_num {n n' : NumLit} : Alike (.num n) (.num n') ↔ n = n' := by
  unfold Alike
  rw [Data.write_num, Data.write_num, Value.num.injEq]

theorem alike_dict {items items' : List (String × Data)} : Alike (.dict items) (.dict items') ↔
    List.Forall₂ (fun a b => lit a.1 = asciiLit b.1 ∧ Alike a.2 b.2) items items' := by
  unfold Alike
  rw [Data.write_dict, Data.write_dict, Value.obj.injEq, ← List.forall₂_eq_eq_eq, List.forall₂_map_left_iff,
    List.forall₂_map_right_iff]
  simp only [Prod.mk.injEq]

theorem alike_mapNum (number : NumLit → NumLit) (d : Data) :
    Alike (d.mapNum number) d ↔ d.All IsAscii fun n => number n = n := by
  unfold Alike
  rw [Data.write_mapNum_eq_iff]
  simp only [asciiLit_eq_iff]

theorem alike_nil : Alike (.dict []) (.dict []) := alike_dict.mpr .nil

theorem alike_sortedSignal {symbol direction regime : String} (hsymbol : IsAscii symbol)
    (hdirection : IsAscii direction) (hregime : IsAscii regime) {n n' : NumLit} {items items' : List (String × Data)}
    (hempty : items.isEmpty = items'.isEmpty) :
    Alike (.dict (sortedSignal symbol direction regime n items))
        (.dict (sortedSignal symbol direction regime n' items')) ↔
      n = n' ∧ Alike (.dict items) (.dict items') := by
  have hkeys : IsAscii "confidence" ∧ IsAscii "direction" ∧ IsAscii "parameters" ∧ IsAscii "regime" ∧
      IsAscii "symbol" := by decide
  unfold sortedSignal
  rw [alike_dict, hempty]
  split_ifs with h
  · have hitems := List.isEmpty_iff.mp (hempty.trans h)
    have hitems' := List.isEmpty_iff.mp h
    simp only [List.cons_append, List.nil_append, List.forall₂_cons, List.forall₂_nil_left_iff, alike_text, alike_num,
      asciiLit_eq_iff, hkeys, hsymbol, hdirection, hregime, hitems, hitems', alike_nil, true_and, and_true]
  · simp only [List.cons_append, List.nil_append, List.forall₂_cons, List.forall₂_nil_left_iff, alike_text, alike_num,
      asciiLit_eq_iff, hkeys, hsymbol, hdirection, hregime, true_and, and_true]

theorem alike_sortedEvent {version eventId eventId' timestampUtc sourceAgent : String}
    {traceId traceId' : Option String} (hversion : IsAscii version) (htrace : traceId.isSome = traceId'.isSome)
    (signal signal' metadata : List (String × Data)) :
    Alike (.dict (sortedEvent version eventId timestampUtc sourceAgent traceId signal metadata))
        (.dict (sortedEvent version eventId' timestampUtc sourceAgent traceId' signal' metadata)) ↔
      lit eventId = asciiLit eventId' ∧ Alike (.dict metadata) (.dict metadata) ∧
        Alike (.dict signal) (.dict signal') ∧ IsAscii sourceAgent ∧ IsAscii timestampUtc ∧
        ∀ trace ∈ traceId, ∀ trace' ∈ traceId', lit trace = asciiLit trace' := by
  have hkeys : IsAscii "event_id" ∧ IsAscii "metadata" ∧ IsAscii "signal" ∧ IsAscii "source_agent" ∧
      IsAscii "timestamp_utc" ∧ IsAscii "trace_id" ∧ IsAscii "version" := by decide
  unfold sortedEvent
  rw [alike_dict]
  cases traceId with
  | none =>
    have hnone : traceId' = none := by simpa using htrace
    subst hnone
    split_ifs with h
    · simp [List.isEmpty_iff.mp h, alike_text, asciiLit_eq_iff, hkeys, hversion, alike_nil]
    · simp [alike_text, asciiLit_eq_iff, hkeys, hversion]
  | some trace =>
    obtain ⟨trace', rfl⟩ : ∃ trace', traceId' = some trace' := Option.isSome_iff_exists.mp htrace.symm
    split_ifs with h
    · simp [List.isEmpty_iff.mp h, alike_text, asciiLit_eq_iff, hkeys, hversion, alike_nil]
    · simp [alike_text, asciiLit_eq_iff, hkeys, hversion]

theorem alike_texts (items : List (String × String)) :
    Alike (.dict (items.map fun m => (m.1, .text m.2))) (.dict (items.map fun m => (m.1, .text m.2))) ↔
      ∀ m ∈ items, IsAscii m.1 ∧ IsAscii m.2 := by
  rw [alike_dict, List.forall₂_same, List.forall_mem_map]
  simp only [alike_text, asciiLit_eq_iff]

section
variable (format : ℚ → NumLit) (number : NumLit → NumLit)

/-- The events that both languages write alike. -/
structure Canonical (event : Python.StrategySignalEventV1) : Prop where
  eventId : IsLowerUuid event.eventId
  traceId : ∀ trace ∈ event.traceId, IsLowerUuid trace
  timestampUtc : IsAscii event.timestampUtc
  sourceAgent : IsAscii event.sourceAgent
  confidence : format event.confidence = FloatRepr.repr event.confidence
  parameters : (Data.dict event.parameters).All IsAscii fun n => number n = n
  metadata : ∀ m ∈ event.metadata, IsAscii m.1 ∧ IsAscii m.2

theorem alike_sortedParameters (event : Python.StrategySignalEventV1) :
    Alike (.dict (mapItems number event.sortedParameters)) (.dict event.sortedParameters) ↔
      (Data.dict event.parameters).All IsAscii fun n => number n = n := by
  have hsorted : Data.dict event.sortedParameters = (Data.dict event.parameters).sorted (· ≤ ·) :=
    (sorted_dict event.parameters).symm
  rw [← Data.all_sorted (· ≤ ·), ← hsorted, ← alike_mapNum, Data.mapNum_dict]
  rfl

theorem alike_sortedMetadata (event : Python.StrategySignalEventV1) :
    Alike (.dict (event.sortedMetadata.map fun m => (m.1, .text m.2)))
        (.dict (event.sortedMetadata.map fun m => (m.1, .text m.2))) ↔
      ∀ m ∈ event.metadata, IsAscii m.1 ∧ IsAscii m.2 := by
  rw [alike_texts, Python.StrategySignalEventV1.sortedMetadata, Data.forall_sortKeys]

theorem lit_traceId_iff (hparse : ParsesUuids parseStr) {traceId : Option String} {uuid : Option Execution.Uuid}
    (h : traceId.map parseStr = uuid.map some) :
    (∀ t ∈ uuid.map Execution.Uuid.toString, ∀ trace ∈ traceId, lit t = asciiLit trace) ↔
      ∀ trace ∈ traceId, IsLowerUuid trace := by
  cases traceId with
  | none => simp
  | some trace =>
    cases uuid with
    | none => cases h
    | some u =>
      have hu : parseStr trace = some u := Option.some.inj h
      simpa using lit_toString_iff hparse hu

theorem isAscii_symbol {s : String} (h : Python.fullSymbol s.toList = true) : IsAscii s := by
  intro c hc
  have hall := (of_decide_eq_true h).2.2
  have hchar := isSymbolChar_iff.mp (List.all_eq_true.mp hall c hc)
  omega

theorem isAscii_direction (d : Rust.Direction) : IsAscii d.name := by cases d <;> decide

theorem isAscii_regime (r : Rust.MarketRegime) : IsAscii r.name := by cases r <;> decide

/-- What Rust writes of a record, and what Python has written. -/
theorem alike_record_iff (hparse : ParsesUuids parseStr) {event : Python.StrategySignalEventV1}
    {record : Rust.StrategySignalEventV1} (h : ReadAs parseStr event record)
    (hvalid : record.validateContract = .ok ()) :
    Alike (Rust.sortJsonValue (.dict (record.items format number))) ((Data.dict event.items).sorted (· ≤ ·)) ↔
      Canonical format number event := by
  obtain ⟨hversion, -, hsymbol, -, -⟩ := (validateContract_ok_iff record).mp hvalid
  have hversion' : IsAscii event.version := by
    rw [← h.version, hversion]
    decide
  have htrace : (record.traceId.map Execution.Uuid.toString).isSome = event.traceId.isSome := by
    have hsome := congrArg Option.isSome h.traceId
    rw [Option.isSome_map, Option.isSome_map] at hsome
    rw [Option.isSome_map, hsome]
  have hempty : (mapItems number event.sortedParameters).isEmpty = event.sortedParameters.isEmpty := List.isEmpty_map
  have hsignal := @alike_sortedSignal event.symbol event.direction event.regime
    (by rw [← h.symbol]; exact isAscii_symbol hsymbol) (by rw [← h.direction]; exact isAscii_direction _)
    (by rw [← h.regime]; exact isAscii_regime _) (format event.confidence) (FloatRepr.repr event.confidence) _ _ hempty
  rw [sorted_record format number h, event.sorted_items, alike_sortedEvent hversion' htrace, hsignal,
    lit_toString_iff hparse h.eventId, alike_sortedMetadata, alike_sortedParameters, lit_traceId_iff hparse h.traceId]
  constructor
  · rintro ⟨hevent, hmetadata, ⟨hconfidence, hparameters⟩, hagent, htime, htraces⟩
    exact ⟨hevent, htraces, htime, hagent, hconfidence, hparameters, hmetadata⟩
  · intro hc
    exact ⟨hc.eventId, hc.metadata, ⟨hc.confidence, hc.parameters⟩, hc.sourceAgent, hc.timestampUtc, hc.traceId⟩

/-- What the binary has read when it prints something. -/
theorem of_parityCheck {event : Python.StrategySignalEventV1} {out : List UInt8}
    (h : Rust.parityCheck format number parseStr (written event).render = some out) :
    ∃ record, ReadAs parseStr event record ∧ record.validateContract = .ok () ∧
      out = ((Rust.sortJsonValue (.dict (record.items format number))).write lit).render := by
  unfold Rust.parityCheck at h
  split_ifs at h
  cases hread : readValue 127 (written event).render with
  | none =>
    rw [hread] at h
    cases h
  | some p =>
    obtain ⟨raw, rest⟩ := p
    have hraw : raw = written event :=
      StartsWith.unique ⟨rest, readValue_sound _ _ _ _ hread⟩ ⟨[], reads_render_nil (written event)⟩
    rw [hread, hraw] at h
    dsimp only at h
    split_ifs at h
    cases hrecord : Rust.deserialize parseStr (written event) with
    | error e =>
      rw [hrecord] at h
      cases h
    | ok record =>
      rw [hrecord] at h
      dsimp only at h
      split at h
      · cases h
      · rename_i hvalid
        exact ⟨record, readAs_of_deserialize hrecord, hvalid, (Option.some.inj h).symm⟩

/-- What Rust prints for the text of an event. -/
theorem printed_eq_iff (hparse : ParsesUuids parseStr) {event : Python.StrategySignalEventV1} {out : List UInt8}
    (h : Rust.parityCheck format number parseStr (written event).render = some out) :
    out = (written event).render ↔ Canonical format number event := by
  obtain ⟨record, hrecord, hvalid, rfl⟩ := of_parityCheck format number h
  rw [render_injective.eq_iff, ← alike_record_iff format number hparse hrecord hvalid, Alike, written]

/-- **Canonical events.** What Rust prints for an event is what Python has written just when its texts are ASCII, its
UUIDs canonical and its numbers printed by both alike. -/
theorem parity_iff (hparse : ParsesUuids parseStr) {decimal : Char → Option Nat} {event : Python.StrategySignalEventV1}
    {printed out : List UInt8} (hpython : event.toJson decimal = .ok printed)
    (hrust : Rust.parityCheck format number parseStr printed = some out) :
    out = printed ↔ Canonical format number event := by
  have hprinted : printed = (written event).render := by
    unfold Python.StrategySignalEventV1.toJson at hpython
    split at hpython
    · cases hpython
    · exact (Except.ok.inj hpython).symm
  rw [hprinted] at hrust ⊢
  exact printed_eq_iff format number hparse hrust

end

/-! ### Printing an event -/

theorem uuid_eq_ok {s : String} {u : Execution.Uuid} (h : parseStr s = some u) :
    Rust.uuid parseStr (.str (asciiLit s)) = .ok u := by
  rw [Rust.uuid, string_asciiLit]
  dsimp only
  rw [h]
  rfl

theorem variant_eq_ok {α : Type} {variants : List (String × α)} {s : String} (h : s ∈ variants.map Prod.fst) :
    ∃ a, SerdeJson.variant variants (.str (asciiLit s)) = .ok a := by
  obtain ⟨a, ha⟩ := Option.isSome_iff_exists.mp (SerdeJson.named_isSome_iff.mpr h)
  refine ⟨a, ?_⟩
  unfold SerdeJson.variant
  simp only [string_asciiLit]
  rw [ha]
  rfl

theorem ParsesUuids.eq_some (hparse : ParsesUuids parseStr) {s : String} (h : IsUuidText s) :
    ∃ u, parseStr s = some u := by
  obtain ⟨digits, hdigits, hs⟩ := h
  exact ⟨_, (hparse s _).mpr ⟨digits, hdigits, hs, rfl⟩⟩

theorem exists_deserialize (hparse : ParsesUuids parseStr) {event : Python.StrategySignalEventV1}
    (hshared : Shared event.signalEvent) (hids : Ids IsUuidText event.signalEvent)
    {entries : List (String × Value)} (hparameters : readParameters event.sortedParameters = .ok entries) :
    ∃ record, Rust.deserialize parseStr (written event) = .ok record := by
  obtain ⟨u, hu⟩ : ∃ u, parseStr event.eventId = some u := hparse.eq_some hids.1
  obtain ⟨d, hd⟩ := @variant_eq_ok _ Rust.directions event.direction hshared.direction
  obtain ⟨r, hr⟩ := @variant_eq_ok _ Rust.regimes event.regime hshared.regime
  obtain ⟨trace, htrace⟩ : ∃ trace, readTrace parseStr event.traceId = .ok trace := by
    have htraces : ∀ t ∈ event.traceId, IsUuidText t := hids.2
    cases h : event.traceId with
    | none => exact ⟨none, rfl⟩
    | some t =>
      obtain ⟨v, hv⟩ := hparse.eq_some (htraces t h)
      refine ⟨some v, ?_⟩
      show (Rust.uuid parseStr (.str (asciiLit t))).map some = _
      rw [uuid_eq_ok hv]
      rfl
  refine ⟨⟨event.version, u, event.timestampUtc, trace, event.sourceAgent,
    ⟨event.symbol, d, event.confidence, r, entries⟩, event.sortedMetadata⟩, ?_⟩
  unfold written
  rw [event.sorted_items, deserialize_sortedEvent parseStr _ _ _ _ _ _ event.nodup_sortedMetadata,
    deserialize_sortedSignal _ _ _ (FloatRepr.round_repr event.double), uuid_eq_ok hu, hd, hr, htrace, hparameters]
  rfl

/-- An event that Python accepts is printed if its symbol and UUIDs are those of Rust, its parameters can be held and
nothing is nested too deep. -/
theorem exists_parityCheck (format : ℚ → NumLit) (number : NumLit → NumLit) (hparse : ParsesUuids parseStr)
    {event : Python.StrategySignalEventV1} (hshared : Shared event.signalEvent)
    (hsymbol : Python.fullSymbol event.symbol.toList = true) (hids : Ids IsUuidText event.signalEvent)
    {entries : List (String × Value)} (hparameters : readParameters event.sortedParameters = .ok entries)
    (hdepth : (written event).depth ≤ 127) :
    ∃ out, Rust.parityCheck format number parseStr (written event).render = some out := by
  obtain ⟨record, hrecord⟩ := exists_deserialize hparse hshared hids hparameters
  have hread := readAs_of_deserialize hrecord
  have hvalid : record.validateContract = .ok () := by
    rw [validateContract_ok_iff, hread.version, hread.sourceAgent, hread.symbol, hread.confidence]
    exact ⟨hshared.version, hshared.sourceAgent, hsymbol, hshared.confidence⟩
  have hutf8 : ¬ (Utf8.fromUtf8 (written event).render).isNone = true := by
    have hline : (written event).OnLine := onLine_write oneLine_asciiLit _
    have hsome := (Utf8.fromUtf8_isSome_iff _).mpr hline.valid
    intro hnone
    rw [Option.isNone_iff_eq_none.mp hnone] at hsome
    cases hsome
  refine ⟨((Rust.sortJsonValue (.dict (record.items format number))).write lit).render, ?_⟩
  unfold Rust.parityCheck
  rw [if_neg hutf8, readValue_complete (written event) hdepth _ _ (reads_render_nil _)]
  dsimp only
  have hblank : Blank [] := fun b hb => nomatch hb
  rw [if_neg (not_not.mpr hblank), hrecord]
  dsimp only
  rw [hvalid]

/-! ### One signal in both languages -/

theorem of_parseUuid {s : String} {u : Execution.Uuid} (h : parseUuid s = some u) :
    ∃ digits, PyText.IsDigits digits ∧ s.toList ∈ uuidWritings digits ∧
      u = BitVec.ofNat 128 (PyText.value16 digits) := by
  unfold parseUuid at h
  obtain ⟨digits, hfind, rfl⟩ := Option.map_eq_some_iff.mp h
  have hdigits := List.find?_some hfind
  rw [decide_eq_true_eq] at hdigits
  exact ⟨digits, hdigits.1, hdigits.2, rfl⟩

theorem parseUuid_parses : ParsesUuids parseUuid := by
  intro s u
  constructor
  · exact of_parseUuid
  · rintro ⟨digits, hdigits, hs, rfl⟩
    obtain ⟨u, hu⟩ := Option.isSome_iff_exists.mp ((parseUuid_isSome_iff s).mpr ⟨digits, hdigits, hs⟩)
    obtain ⟨digits', hdigits', hs', rfl⟩ := of_parseUuid hu
    -- Python reads the text as one number, whichever digits it is a writing of
    rw [hu, ← uuid?_writing (fun _ => none) hdigits hs, ← uuid?_writing (fun _ => none) hdigits' hs']

theorem double_one : Binary64.round 1 = some 1 := by
  have hround := @Binary64.round_intCast 1 (by norm_num)
  simpa using hround

def momentumSignal (sourceAgent : String) : Python.StrategySignalEventV1 where
  version := "1.0.0"
  eventId := "550e8400-e29b-41d4-a716-446655440000"
  timestampUtc := "2026-08-31T10:00:00Z"
  sourceAgent := sourceAgent
  symbol := "BTCUSDT"
  direction := "LONG"
  confidence := 1
  regime := "TRENDING"
  parameters := [("lookback", .num one)]
  traceId := none
  metadata := [("run", "7")]
  double := double_one
  parameters_distinct := by simp [Data.Distinct, Data.fold, Data.foldEntries]
  metadata_nodup := by decide

theorem shared_momentumSignal {sourceAgent : String} (h : sourceAgent ≠ "") :
    Shared (momentumSignal sourceAgent).signalEvent where
  version := rfl
  sourceAgent := h
  direction := List.mem_cons_self ..
  confidence := by norm_num [momentumSignal, Python.StrategySignalEventV1.signalEvent]
  regime := List.mem_cons_self ..

theorem fullSymbol_momentumSignal : Python.fullSymbol "BTCUSDT".toList = true := by decide

theorem toJson_momentumSignal {sourceAgent : String} (h : sourceAgent ≠ "") :
    (momentumSignal sourceAgent).toJson (fun _ => none) = .ok (written (momentumSignal sourceAgent)).render := by
  have hids : Ids (Python.isUuid fun _ => none) (momentumSignal sourceAgent).signalEvent :=
    ⟨isUuidText_longSignal.python _, fun trace ht => nomatch ht⟩
  have haccepts : PyAccepts (fun _ => none) (momentumSignal sourceAgent).signalEvent :=
    (pyAccepts_iff _ _).mpr ⟨shared_momentumSignal h, decide_eq_true (.inl fullSymbol_momentumSignal), hids⟩
  unfold PyAccepts at haccepts
  rw [Python.StrategySignalEventV1.toJson, haccepts]
  rfl

theorem parityCheck_momentumSignal {sourceAgent : String} (h : sourceAgent ≠ "") :
    ∃ out, Rust.parityCheck FloatRepr.repr id parseUuid (written (momentumSignal sourceAgent)).render = some out := by
  have hids : Ids IsUuidText (momentumSignal sourceAgent).signalEvent :=
    ⟨isUuidText_longSignal, fun trace ht => nomatch ht⟩
  have hone : SerdeJson.jsonValue (.num one) = .ok (.num one) := by
    unfold SerdeJson.jsonValue
    simp [Value.tokens, SerdeJson.holdable, round_one]
  have hparameters : readParameters (momentumSignal sourceAgent).sortedParameters =
      .ok [("lookback", .num one)] := by
    show SerdeJson.mapOf SerdeJson.jsonValue (.obj [(asciiLit "lookback", .num one)]) = _
    rw [SerdeJson.mapOf_obj, List.foldlM_cons, SerdeJson.addEntry_write SerdeJson.text?_asciiLit, hone]
    rfl
  have hdepth : (written (momentumSignal sourceAgent)).depth ≤ 127 := by
    have hsorted : (momentumSignal sourceAgent).sortedParameters = [("lookback", .num one)] := rfl
    have hmetadata : (momentumSignal sourceAgent).sortedMetadata = [("run", "7")] := rfl
    have htrace : (momentumSignal sourceAgent).traceId = none := rfl
    unfold written
    rw [Python.StrategySignalEventV1.sorted_items, hsorted, hmetadata, htrace]
    simp [sortedEvent, sortedSignal, Data.write_dict, Value.depth, memberDepth]
  exact exists_parityCheck _ _ parseUuid_parses (shared_momentumSignal h) fullSymbol_momentumSignal hids hparameters
    hdepth

theorem canonical_momentumSignal : Canonical FloatRepr.repr id (momentumSignal "momentum_v3") where
  eventId := ⟨"550e8400e29b41d4a716446655440000".toList, by decide, by simp [IsUpper], by decide⟩
  traceId trace ht := nomatch ht
  timestampUtc := by decide
  sourceAgent := by decide
  confidence := rfl
  parameters := Data.all_dict.mpr (List.forall_mem_singleton.mpr ⟨by decide, rfl⟩)
  metadata := List.forall_mem_singleton.mpr ⟨by decide, by decide⟩

theorem parity_momentumSignal :
    ∃ printed out, (momentumSignal "momentum_v3").toJson (fun _ => none) = .ok printed ∧
      Rust.parityCheck FloatRepr.repr id parseUuid printed = some out ∧ out = printed := by
  obtain ⟨out, hout⟩ := @parityCheck_momentumSignal "momentum_v3" (by decide)
  have hjson := @toJson_momentumSignal "momentum_v3" (by decide)
  exact ⟨_, out, hjson, hout,
    (parity_iff FloatRepr.repr id parseUuid_parses hjson hout).mpr canonical_momentumSignal⟩

/-- Python escapes the name of the agent, Rust does not. -/
theorem no_parity_unicode : ParsesUuids parseUuid ∧
    ∃ printed out, (momentumSignal "é").toJson (fun _ => none) = .ok printed ∧
      Rust.parityCheck FloatRepr.repr id parseUuid printed = some out ∧ out ≠ printed := by
  obtain ⟨out, hout⟩ := @parityCheck_momentumSignal "é" (by decide)
  refine ⟨parseUuid_parses, _, out, toJson_momentumSignal (by decide), hout, fun heq => ?_⟩
  have hagent : IsAscii "é" := ((printed_eq_iff _ _ parseUuid_parses hout).mp heq).sourceAgent
  exact absurd hagent (by decide)

end Atlas.Strategy
