import Atlas.Lib.PyDumps
import Atlas.Strategy.Adapter

/-!
# The contract adapter, there and back

* `toJson` : `StrategySignalEventV1.to_json`; `asdict`, `written` : the fields, and those that are not left out;
* `eq` : `==` of two events;
* `RoundTrips` : the text of an event is read as an event that is equal to it; `Restorable` : the events with which it
  is so;
* `fromJson_written` : what is read of the text of an event; `eq_restored_iff` : when it is equal.
-/

namespace Atlas.Strategy.Adapter
open Py
open PyJson (PyStr pyStr)

/-! ## `to_json` -/

def Signal.asdict (signal : Signal) : List (PyStr × Object) :=
  [(pyStr "symbol", signal.symbol), (pyStr "direction", signal.direction),
    (pyStr "confidence", .float signal.confidence), (pyStr "regime", signal.regime),
    (pyStr "parameters", signal.parameters)]

def StrategySignalEventV1.asdict (event : StrategySignalEventV1) : List (PyStr × Object) :=
  [(pyStr "version", event.version), (pyStr "event_id", event.eventId), (pyStr "timestamp_utc", event.timestampUtc),
    (pyStr "source_agent", event.sourceAgent), (pyStr "signal", .dict event.signal.asdict),
    (pyStr "trace_id", event.traceId), (pyStr "metadata", event.metadata)]

/-- Without parameters that are falsy. -/
def Signal.written (signal : Signal) : List (PyStr × Object) :=
  [(pyStr "symbol", signal.symbol), (pyStr "direction", signal.direction),
    (pyStr "confidence", .float signal.confidence), (pyStr "regime", signal.regime)] ++
    if signal.parameters.truthy then [(pyStr "parameters", signal.parameters)] else []

/-- Without a trace id that is null, and without metadata that are falsy. -/
def StrategySignalEventV1.written (event : StrategySignalEventV1) : List (PyStr × Object) :=
  [(pyStr "version", event.version), (pyStr "event_id", event.eventId), (pyStr "timestamp_utc", event.timestampUtc),
    (pyStr "source_agent", event.sourceAgent), (pyStr "signal", .dict event.signal.written)] ++
    ((if event.traceId.isNone then [] else [(pyStr "trace_id", event.traceId)]) ++
      if event.metadata.truthy then [(pyStr "metadata", event.metadata)] else [])

def Raised.ofDumps : DumpsError → Raised
  | .recursion => .recursionError
  | .digits => .valueError

def StrategySignalEventV1.toJson (limits : Limits) (decimal : Char → Option Nat) (event : StrategySignalEventV1) :
    Except Raised PyStr := do
  event.validate limits decimal
  if (Object.dict event.asdict).depth ≤ limits.asdict then (dumps limits (.dict event.written)).mapError .ofDumps
  else .error .recursionError

/-! ## `==` -/

/-- `==` of two fields. NaN is not equal to itself, but before Python 3.13 the fields are compared as tuples, which go
by identity first: `byIdentity`. -/
def fieldEq (byIdentity : Bool) (v w : Object) : Bool := v.eq w && (byIdentity || !v.isNaN)

def Signal.eq (byIdentity : Bool) (signal other : Signal) : Bool :=
  fieldEq byIdentity signal.symbol other.symbol && fieldEq byIdentity signal.direction other.direction &&
    fieldEq byIdentity (.float signal.confidence) (.float other.confidence) &&
    fieldEq byIdentity signal.regime other.regime && fieldEq byIdentity signal.parameters other.parameters

def StrategySignalEventV1.eq (byIdentity : Bool) (event other : StrategySignalEventV1) : Bool :=
  fieldEq byIdentity event.version other.version && fieldEq byIdentity event.eventId other.eventId &&
    fieldEq byIdentity event.timestampUtc other.timestampUtc &&
    fieldEq byIdentity event.sourceAgent other.sourceAgent &&
    event.signal.eq byIdentity other.signal && fieldEq byIdentity event.traceId other.traceId &&
    fieldEq byIdentity event.metadata other.metadata

/-- `from_json(to_json(event))` is an event, and equal to the first one. -/
def RoundTrips (limits : Limits) (decimal : Char → Option Nat) (byIdentity : Bool) (event : StrategySignalEventV1) :
    Prop :=
  ∃ text restored, event.toJson limits decimal = .ok text ∧ fromJson limits decimal text = .ok restored ∧
    event.eq byIdentity restored = true

/-- The fields that may be any object. -/
def StrategySignalEventV1.free (event : StrategySignalEventV1) : List Object :=
  [event.timestampUtc, event.sourceAgent, event.signal.parameters, event.metadata]

/-- Parameters and metadata that are left out are `{}`; no string has a high surrogate with a low one behind it; the
nesting is no deeper than `asdict` and `json.dumps` go; and NaN is no field, unless fields are compared by identity. -/
structure Restorable (limits : Limits) (byIdentity : Bool) (event : StrategySignalEventV1) : Prop where
  copied : (Object.dict event.asdict).depth ≤ limits.asdict
  written : (Object.dict event.written).depth ≤ limits.dumps
  parameters : event.signal.parameters.truthy = true ∨ event.signal.parameters = .dict []
  metadata : event.metadata.truthy = true ∨ event.metadata = .dict []
  unpaired : ∀ v ∈ event.free, v.All Unpaired
  noNaN : byIdentity = false → ∀ v ∈ event.free, v.isNaN = false

/-! ## What has been read -/

/-- No deeper than `depth`, and as `json.loads` makes it. -/
def Loaded (digits depth : ℕ) (v : Object) : Prop := v.depth ≤ depth ∧ v.All (Sound digits)

theorem loaded_dict {digits depth : ℕ} {items : List (PyStr × Object)} (h : Loaded digits depth (.dict items)) :
    ∃ inner, depth = inner + 1 ∧ ∀ item ∈ items, Loaded digits inner item.2 := by
  obtain ⟨hdepth, hsound⟩ := h
  rw [Object.depth] at hdepth
  refine ⟨depth - 1, by omega, fun item hi => ⟨?_, (Object.all_dict.mp hsound).2 item hi⟩⟩
  exact depthItems_le.mp (by omega) item hi

theorem loaded_getD {digits depth : ℕ} {items : List (PyStr × Object)} (h : ∀ item ∈ items, Loaded digits depth item.2)
    (name : String) {v : Object} (hv : Loaded digits depth v) : Loaded digits depth ((lookup items name).getD v) := by
  cases hlookup : lookup items name with
  | none => exact hv
  | some w => exact h _ (Dict.mem_of_lookup hlookup)

theorem loaded_scalar {digits : ℕ} (depth : ℕ) {v : Object} (hdepth : v.depth = 0) (hscalar : v.Hashable)
    (hsound : Sound digits v) : Loaded digits depth v :=
  ⟨hdepth.trans_le (Nat.zero_le _), (Object.all_scalar hscalar).mpr hsound⟩

/-- The fields of an event that has been read, but for what has been put in the place of a missing one. -/
structure Signal.Loaded (digits depth : ℕ) (signal : Signal) : Prop where
  symbol : Adapter.Loaded digits depth signal.symbol
  direction : Adapter.Loaded digits depth signal.direction
  regime : Adapter.Loaded digits depth signal.regime
  parameters : signal.parameters.truthy = true → Adapter.Loaded digits depth signal.parameters
  sound : signal.parameters.All (Sound digits)

structure StrategySignalEventV1.Loaded (digits depth : ℕ) (event : StrategySignalEventV1) : Prop where
  version : Adapter.Loaded digits (depth + 1) event.version
  eventId : Adapter.Loaded digits (depth + 1) event.eventId
  timestampUtc : Adapter.Loaded digits (depth + 1) event.timestampUtc
  sourceAgent : Adapter.Loaded digits (depth + 1) event.sourceAgent
  signal : event.signal.Loaded digits depth
  traceId : Adapter.Loaded digits (depth + 1) event.traceId
  metadata : Adapter.Loaded digits (depth + 1) event.metadata

theorem loaded_eventOf {digits depth : ℕ} {data signalData : List (PyStr × Object)} (confidence : F64)
    (hdata : ∀ item ∈ data, Adapter.Loaded digits (depth + 1) item.2)
    (hsignal : ∀ item ∈ signalData, Adapter.Loaded digits depth item.2) :
    (eventOf data signalData confidence).Loaded digits depth := by
  have hempty : ∀ n, Adapter.Loaded digits n (.str []) := fun n => loaded_scalar n rfl trivial (List.forall_mem_nil _)
  have hdict : (Object.dict []).All (Sound digits) :=
    Object.all_dict.mpr ⟨⟨List.nodup_nil, List.forall_mem_nil _⟩, List.forall_mem_nil _⟩
  refine ⟨loaded_getD hdata _ (hempty _), loaded_getD hdata _ (hempty _), loaded_getD hdata _ (hempty _),
    loaded_getD hdata _ (hempty _), ⟨loaded_getD hsignal _ (hempty _), loaded_getD hsignal _ (hempty _),
      loaded_getD hsignal _ (hempty _), fun htruthy => ?_, ?_⟩,
    loaded_getD hdata _ (loaded_scalar _ rfl trivial trivial),
    loaded_getD hdata _ ⟨Nat.succ_le_succ (Nat.zero_le depth), hdict⟩⟩
  · cases hlookup : lookup signalData "parameters" with
    | none =>
      simp only [eventOf, hlookup] at htruthy
      exact nomatch htruthy
    | some v =>
      simp only [eventOf, hlookup]
      exact hsignal _ (Dict.mem_of_lookup hlookup)
  · cases hlookup : lookup signalData "parameters" with
    | none =>
      simp only [eventOf, hlookup]
      exact hdict
    | some v =>
      simp only [eventOf, hlookup]
      exact (hsignal _ (Dict.mem_of_lookup hlookup)).2

theorem of_fromJson_ok {limits : Limits} {decimal : Char → Option Nat} {raw : PyStr} {event : StrategySignalEventV1}
    (hraw : CodePoints raw) (h : fromJson limits decimal raw = .ok event) :
    ∃ depth, limits.loads = depth + 2 ∧ event.Loaded limits.digits depth ∧ event.validate limits decimal = .ok () := by
  rcases fromJson_cases limits decimal raw with
    ⟨e, hloads, -, hfrom⟩ | ⟨data, signalData, hloads, -, hsignal, -, hfrom⟩ | ⟨-, reason, hfrom⟩
  · exact absurd (h ▸ settled_ok event) hfrom
  · obtain ⟨confidence, -, rfl, hvalid⟩ := of_buildEvent_ok (hfrom.symm.trans h)
    obtain ⟨inner, hlimit, hdata⟩ := loaded_dict (loads_sound hraw hloads)
    obtain ⟨depth, rfl, hsignalData⟩ := loaded_dict (hdata _ (Dict.mem_of_lookup hsignal))
    exact ⟨depth, hlimit, loaded_eventOf confidence hdata hsignalData, hvalid⟩
  · exact nomatch hfrom.symm.trans h

/-! ## What is written -/

theorem valid_pyStr (s : String) : ∀ c ∈ pyStr s, c.isValidChar := by
  intro c hc
  obtain ⟨d, -, rfl⟩ := List.mem_map.mp hc
  exact d.valid

theorem codePoints_of_valid {s : PyStr} (h : ∀ c ∈ s, c.isValidChar) : CodePoints s := by
  intro c hc
  have := h c hc
  unfold Nat.isValidChar at this
  omega

theorem keys_signal_written (signal : Signal) :
    (signal.written.map Prod.fst).Sublist (knownSignalFields.map pyStr) := by
  unfold Signal.written
  split_ifs
  · exact List.Sublist.refl _
  · exact List.sublist_append_left (["symbol", "direction", "confidence", "regime"].map pyStr) [pyStr "parameters"]

/-- The fields in the order in which they are written. -/
def fields : List String := ["version", "event_id", "timestamp_utc", "source_agent", "signal", "trace_id", "metadata"]

theorem fields_perm : fields.Perm knownFields := by decide

theorem keys_written (event : StrategySignalEventV1) : (event.written.map Prod.fst).Sublist (fields.map pyStr) := by
  have hfields : fields.map pyStr =
      ["version", "event_id", "timestamp_utc", "source_agent", "signal"].map pyStr ++
        ([pyStr "trace_id"] ++ [pyStr "metadata"]) := rfl
  unfold StrategySignalEventV1.written
  rw [hfields, List.map_append, List.map_append]
  refine List.Sublist.append (List.Sublist.refl _) (List.Sublist.append ?_ ?_)
  · split_ifs
    · exact List.nil_sublist _
    · exact List.Sublist.refl _
  · split_ifs
    · exact List.Sublist.refl _
    · exact List.nil_sublist _

/-- Entries under known names, each once. -/
theorem sound_keys (digits : ℕ) {items : List (PyStr × Object)} {names : List String} (hnodup : names.Nodup)
    (h : (items.map Prod.fst).Sublist (names.map pyStr)) :
    Sound digits (.dict items) ∧ ∀ item ∈ items, NoPair item.1 := by
  have hname : ∀ item ∈ items, ∃ name, item.1 = pyStr name := by
    intro item hi
    obtain ⟨name, -, heq⟩ := List.mem_map.mp (h.subset (List.mem_map_of_mem hi))
    exact ⟨name, heq.symm⟩
  refine ⟨⟨h.nodup (hnodup.map fun s t => PyJson.pyStr_inj.mp), fun item hi => ?_⟩, fun item hi => ?_⟩
  · obtain ⟨name, heq⟩ := hname item hi
    exact heq ▸ codePoints_of_valid (valid_pyStr name)
  · obtain ⟨name, heq⟩ := hname item hi
    exact heq ▸ merged_eq_iff.mp (Object.str.inj (again_str (valid_pyStr name)))

theorem loaded_of_items {digits depth : ℕ} {items : List (PyStr × Object)} (hkeys : Sound digits (.dict items))
    (h : ∀ item ∈ items, Loaded digits depth item.2) : Loaded digits (depth + 1) (.dict items) :=
  ⟨Nat.succ_le_succ (depthItems_le.mpr fun item hi => (h item hi).1),
    Object.all_dict.mpr ⟨hkeys, fun item hi => (h item hi).2⟩⟩

theorem loaded_signal_written {digits depth : ℕ} {signal : Signal} (h : signal.Loaded digits depth) :
    Loaded digits (depth + 1) (.dict signal.written) := by
  refine loaded_of_items (sound_keys digits (by decide) (keys_signal_written signal)).1 ?_
  unfold Signal.written
  simp only [List.forall_mem_append, List.forall_mem_cons]
  refine ⟨⟨h.symbol, h.direction, loaded_scalar _ rfl trivial trivial, h.regime, List.forall_mem_nil _⟩, ?_⟩
  split_ifs with htruthy
  · exact List.forall_mem_singleton.mpr (h.parameters htruthy)
  · exact List.forall_mem_nil _

theorem loaded_written {digits depth : ℕ} {event : StrategySignalEventV1} (h : event.Loaded digits depth) :
    Loaded digits (depth + 2) (.dict event.written) := by
  refine loaded_of_items (sound_keys digits (by decide) (keys_written event)).1 ?_
  unfold StrategySignalEventV1.written
  simp only [List.forall_mem_append, List.forall_mem_cons]
  refine ⟨⟨h.version, h.eventId, h.timestampUtc, h.sourceAgent, loaded_signal_written h.signal, List.forall_mem_nil _⟩,
    ?_, ?_⟩
  · split_ifs
    · exact List.forall_mem_nil _
    · exact List.forall_mem_singleton.mpr h.traceId
  · split_ifs
    · exact List.forall_mem_singleton.mpr h.metadata
    · exact List.forall_mem_nil _

/-! ## What is read of it -/

def Signal.restored (signal : Signal) : Signal where
  symbol := signal.symbol.again
  direction := signal.direction.again
  confidence := signal.confidence
  regime := signal.regime.again
  parameters := if signal.parameters.truthy then signal.parameters.again else .dict []

def StrategySignalEventV1.restored (event : StrategySignalEventV1) : StrategySignalEventV1 where
  version := event.version.again
  eventId := event.eventId.again
  timestampUtc := event.timestampUtc.again
  sourceAgent := event.sourceAgent.again
  signal := event.signal.restored
  traceId := event.traceId.again
  metadata := if event.metadata.truthy then event.metadata.again else .dict []

theorem again_of_isStr {v : Object} {s : String} (h : v.isStr s = true) : v.again = v := by
  cases v with
  | str t =>
    obtain rfl : t = pyStr s := of_decide_eq_true h
    exact again_str (valid_pyStr s)
  | _ => exact nomatch h

theorem again_of_isName {names : List String} {v : Object} (h : IsName names v) : v.again = v := by
  obtain ⟨name, -, hv⟩ := List.any_eq_true.mp h
  exact again_of_isStr hv

theorem valid_of_chars {s : PyStr} {cs : List Char} (h : chars? s = some cs) : ∀ c ∈ s, c.isValidChar := by
  induction s generalizing cs with
  | nil => exact List.forall_mem_nil _
  | cons c s ih =>
    unfold chars? at h
    rw [List.mapM_cons] at h
    obtain ⟨d, hd, h⟩ := Option.bind_eq_some_iff.mp h
    obtain ⟨ds, hds, -⟩ := Option.bind_eq_some_iff.mp h
    split_ifs at hd with hvalid
    exact List.forall_mem_cons.mpr ⟨hvalid, ih hds⟩

theorem again_of_isSymbol {v : Object} (h : IsSymbol v) : v.again = v := by
  obtain ⟨text, rfl, hmatch⟩ := h
  obtain ⟨cs, hcs, -⟩ := (Option.any_eq_true ..).mp hmatch
  exact again_str (valid_of_chars hcs)

theorem again_of_isUuid {decimal : Char → Option Nat} {v : Object} (h : IsUuid decimal v) : v.again = v := by
  obtain ⟨text, rfl, huuid⟩ := h
  obtain ⟨n, hn⟩ := Option.isSome_iff_exists.mp huuid
  obtain ⟨cs, hcs, -⟩ := Option.bind_eq_some_iff.mp hn
  exact again_str (valid_of_chars hcs)

theorem validate_restored {limits : Limits} {decimal : Char → Option Nat} {event : StrategySignalEventV1}
    (h : event.validate limits decimal = .ok ()) : event.restored.validate limits decimal = .ok () := by
  rw [validate_eq_ok, Signal.validate_eq_ok] at h ⊢
  obtain ⟨hversion, hsource, hevent, htrace, hsymbol, hdirection, hrange, hregime⟩ := h
  have htraceId : event.traceId.again = event.traceId := by
    rcases htrace with hnone | huuid
    · rw [hnone]
      rfl
    · exact again_of_isUuid huuid
  show event.version.again.isStr "1.0.0" = true ∧ event.sourceAgent.again.truthy = true ∧
    IsUuid decimal event.eventId.again ∧ (event.traceId.again = .none ∨ IsUuid decimal event.traceId.again) ∧
      IsSymbol event.signal.symbol.again ∧ IsName Python.validDirections event.signal.direction.again ∧
        InRange event.signal.confidence ∧ IsName Python.validRegimes event.signal.regime.again
  rw [again_of_isStr hversion, truthy_again, again_of_isUuid hevent, htraceId, again_of_isSymbol hsymbol,
    again_of_isName hdirection, again_of_isName hregime]
  exact ⟨hversion, hsource, hevent, htrace, hsymbol, hdirection, hrange, hregime⟩

theorem unknown_eq_nil {known : List String} {items : List (PyStr × Object)} :
    unknown known items = [] ↔ ∀ key ∈ items.map Prod.fst, key ∈ known.map pyStr := by
  unfold unknown
  rw [List.filter_eq_nil_iff]
  simp

theorem lookup_parameters (signal : Signal) : lookup signal.written "parameters" =
    if signal.parameters.truthy then some signal.parameters else none := by
  unfold Signal.written
  split_ifs <;> rfl

theorem lookup_traceId (event : StrategySignalEventV1) : lookup event.written "trace_id" =
    if event.traceId.isNone then none else some event.traceId := by
  unfold StrategySignalEventV1.written
  split_ifs <;> rfl

theorem lookup_metadata (event : StrategySignalEventV1) : lookup event.written "metadata" =
    if event.metadata.truthy then some event.metadata else none := by
  unfold StrategySignalEventV1.written
  split_ifs <;> rfl

theorem eq_none_of_isNone {v : Object} (h : v.isNone = true) : v = .none := by
  cases v with
  | none => rfl
  | _ => exact nomatch h

/-- The arguments of `cls` when the entries are those of the text. -/
theorem eventOf_restored {event : StrategySignalEventV1} {data signalData : List (PyStr × Object)}
    (hdata : ∀ name, lookup data name = (lookup event.written name).map Object.again)
    (hsignal : ∀ name, lookup signalData name = (lookup event.signal.written name).map Object.again) :
    eventOf data signalData event.signal.confidence = event.restored := by
  have htrace : ((lookup event.written "trace_id").map Object.again).getD .none = event.traceId.again := by
    rw [lookup_traceId]
    split_ifs with hnone
    · rw [eq_none_of_isNone hnone]
      rfl
    · rfl
  have hmetadata : ((lookup event.written "metadata").map Object.again).getD (.dict []) =
      if event.metadata.truthy then event.metadata.again else .dict [] := by
    rw [lookup_metadata]
    split_ifs <;> rfl
  have hparameters : ((lookup event.signal.written "parameters").map Object.again).getD (.dict []) =
      if event.signal.parameters.truthy then event.signal.parameters.again else .dict [] := by
    rw [lookup_parameters]
    split_ifs <;> rfl
  unfold eventOf
  simp only [hdata, hsignal, htrace, hmetadata, hparameters]
  rfl

/-- **The text of an event is read as the event with each field read again.** -/
theorem fromJson_written {limits : Limits} {decimal : Char → Option Nat} {event : StrategySignalEventV1}
    (hvalid : event.validate limits decimal = .ok ()) {depth : ℕ} (hlimit : limits.loads = depth + 2)
    (hloaded : event.Loaded limits.digits depth) {text : PyStr} (h : dumps limits (.dict event.written) = .ok text) :
    fromJson limits decimal text = .ok event.restored := by
  obtain ⟨hdepth, hsound⟩ := loaded_written hloaded
  have hloads := loads_dumps hsound (hlimit ▸ hdepth) h
  obtain ⟨hkeys, hplain⟩ := sound_keys limits.digits (by decide) (keys_written event)
  obtain ⟨data, hdata, hlookup, hmem⟩ := exists_again_dict hkeys.1 hplain
  obtain ⟨hkeys', hplain'⟩ := sound_keys limits.digits (by decide) (keys_signal_written event.signal)
  obtain ⟨signalData, hsignalData, hlookup', hmem'⟩ := exists_again_dict hkeys'.1 hplain'
  have hknown : unknown knownFields data = [] := unknown_eq_nil.mpr fun key hkey =>
    (fields_perm.map pyStr).mem_iff.mp ((keys_written event).subset ((hmem key).mp hkey))
  have hfields : unknown knownSignalFields signalData = [] := unknown_eq_nil.mpr fun key hkey =>
    (keys_signal_written event.signal).subset ((hmem' key).mp hkey)
  have hsignal : lookup data "signal" = some (.dict signalData) :=
    (hlookup (pyStr "signal")).trans (congrArg some hsignalData)
  have hfloat : toFloat decimal (confidenceData signalData) = .ok event.signal.confidence := by
    unfold confidenceData lookup
    rw [hlookup']
    rfl
  have hevent := eventOf_restored (fun name => hlookup (pyStr name)) fun name => hlookup' (pyStr name)
  rw [fromJson_eq decimal (hloads.trans (congrArg Except.ok hdata)) hknown hsignal hfields,
    buildEvent_eq hfloat (hevent ▸ validate_restored hvalid), hevent]

/-! ## When it is equal -/

theorem or_not_iff {byIdentity : Bool} {v : Object} :
    (byIdentity || !v.isNaN) = true ↔ (byIdentity = false → v.isNaN = false) := by
  cases byIdentity <;> simp

theorem fieldEq_again {digits : ℕ} {byIdentity : Bool} {v : Object} (h : v.All (Sound digits)) :
    fieldEq byIdentity v v.again = true ↔ v.All Unpaired ∧ (byIdentity = false → v.isNaN = false) := by
  unfold fieldEq
  rw [Bool.and_eq_true, eq_again h, or_not_iff]

/-- A text, or null, that is read as it is. -/
theorem fieldEq_of_again_eq {byIdentity : Bool} {v : Object} (hagain : v.again = v) (h : v = .none ∨ v.IsText) :
    fieldEq byIdentity v v.again = true := by
  rw [hagain]
  unfold fieldEq
  cases v with
  | none => cases byIdentity <;> rfl
  | str s =>
    show (decide (s = s) && (byIdentity || true)) = true
    rw [decide_eq_true rfl, Bool.or_true, Bool.and_true]
  | _ => exact h.elim nofun False.elim

theorem fieldEq_confidence {byIdentity : Bool} {x : F64} (h : InRange x) :
    fieldEq byIdentity (.float x) (.float x) = true := by
  have hnan : (Object.float x).isNaN = false := by
    cases x with
    | nan => exact nomatch h
    | _ => rfl
  unfold fieldEq
  rw [hnan, Bool.not_false, Bool.or_true, Bool.and_true]
  exact scalarEq_self (v := .float x) trivial

theorem eq_emptyDict {v : Object} : v.eq (.dict []) = true ↔ v = .dict [] := by
  cases v with
  | dict items =>
    cases items with
    | nil => exact iff_of_true rfl rfl
    | cons item items => exact iff_of_false nofun nofun
  | list items => exact iff_of_false nofun nofun
  | none => exact iff_of_false nofun nofun
  | str s => exact iff_of_false nofun nofun
  | float x =>
    cases x with
    | infinity neg => cases neg <;> exact iff_of_false nofun nofun
    | _ => exact iff_of_false nofun nofun
  | _ => exact iff_of_false nofun nofun

/-- A field that is left out when it is falsy, `{}` being put in its place. -/
theorem fieldEq_optional {digits : ℕ} {byIdentity : Bool} {v : Object} (h : v.All (Sound digits)) :
    fieldEq byIdentity v (if v.truthy then v.again else .dict []) = true ↔
      (v.truthy = true ∨ v = .dict []) ∧ v.All Unpaired ∧ (byIdentity = false → v.isNaN = false) := by
  split_ifs with htruthy
  · rw [fieldEq_again h, and_iff_right (Or.inl htruthy)]
  · rw [or_iff_right htruthy]
    unfold fieldEq
    rw [Bool.and_eq_true, eq_emptyDict, or_not_iff]
    refine and_congr_right fun heq => ?_
    rw [heq, and_iff_right (Object.all_dict.mpr ⟨List.forall_mem_nil _, List.forall_mem_nil _⟩)]

theorem isText_of_isUuid {decimal : Char → Option Nat} {v : Object} (h : IsUuid decimal v) : v.IsText := by
  obtain ⟨text, rfl, -⟩ := h
  trivial

theorem isText_of_isStr {v : Object} {s : String} (h : v.isStr s = true) : v.IsText := by
  cases v with
  | str t => trivial
  | _ => exact nomatch h

theorem isText_of_isName {names : List String} {v : Object} (h : IsName names v) : v.IsText := by
  obtain ⟨name, -, hv⟩ := List.any_eq_true.mp h
  exact isText_of_isStr hv

theorem isText_of_isSymbol {v : Object} (h : IsSymbol v) : v.IsText := by
  obtain ⟨text, rfl, -⟩ := h
  trivial

theorem eq_restored_iff {limits : Limits} {decimal : Char → Option Nat} {event : StrategySignalEventV1}
    {byIdentity : Bool} {digits depth : ℕ} (hvalid : event.validate limits decimal = .ok ())
    (hloaded : event.Loaded digits depth) : event.eq byIdentity event.restored = true ↔
      (event.signal.parameters.truthy = true ∨ event.signal.parameters = .dict []) ∧
        (event.metadata.truthy = true ∨ event.metadata = .dict []) ∧ (∀ v ∈ event.free, v.All Unpaired) ∧
          (byIdentity = false → ∀ v ∈ event.free, v.isNaN = false) := by
  rw [validate_eq_ok, Signal.validate_eq_ok] at hvalid
  obtain ⟨hversion, -, hevent, htrace, hsymbol, hdirection, hrange, hregime⟩ := hvalid
  have htraceId : fieldEq byIdentity event.traceId event.traceId.again = true := by
    rcases htrace with hnone | huuid
    · exact fieldEq_of_again_eq (by rw [hnone]; rfl) (.inl hnone)
    · exact fieldEq_of_again_eq (again_of_isUuid huuid) (.inr (isText_of_isUuid huuid))
  show (fieldEq byIdentity event.version event.version.again && fieldEq byIdentity event.eventId event.eventId.again &&
    fieldEq byIdentity event.timestampUtc event.timestampUtc.again &&
    fieldEq byIdentity event.sourceAgent event.sourceAgent.again &&
    (fieldEq byIdentity event.signal.symbol event.signal.symbol.again &&
      fieldEq byIdentity event.signal.direction event.signal.direction.again &&
      fieldEq byIdentity (.float event.signal.confidence) (.float event.signal.confidence) &&
      fieldEq byIdentity event.signal.regime event.signal.regime.again &&
      fieldEq byIdentity event.signal.parameters
        (if event.signal.parameters.truthy then event.signal.parameters.again else .dict [])) &&
    fieldEq byIdentity event.traceId event.traceId.again &&
    fieldEq byIdentity event.metadata (if event.metadata.truthy then event.metadata.again else .dict [])) = true ↔ _
  rw [fieldEq_of_again_eq (again_of_isStr hversion) (.inr (isText_of_isStr hversion)),
    fieldEq_of_again_eq (again_of_isUuid hevent) (.inr (isText_of_isUuid hevent)),
    fieldEq_of_again_eq (again_of_isSymbol hsymbol) (.inr (isText_of_isSymbol hsymbol)),
    fieldEq_of_again_eq (again_of_isName hdirection) (.inr (isText_of_isName hdirection)), fieldEq_confidence hrange,
    fieldEq_of_again_eq (again_of_isName hregime) (.inr (isText_of_isName hregime)), htraceId]
  simp only [Bool.true_and, Bool.and_true, Bool.and_eq_true, fieldEq_again hloaded.timestampUtc.2,
    fieldEq_again hloaded.sourceAgent.2, fieldEq_optional hloaded.signal.sound, fieldEq_optional hloaded.metadata.2,
    StrategySignalEventV1.free, List.forall_mem_cons, List.not_mem_nil, false_implies, implies_true, and_true]
  constructor
  · rintro ⟨⟨⟨⟨htime, htimeNaN⟩, hsource, hsourceNaN⟩, hparameters, hp, hpNaN⟩, hmetadata, hm, hmNaN⟩
    exact ⟨hparameters, hmetadata, ⟨htime, hsource, hp, hm⟩, fun h => ⟨htimeNaN h, hsourceNaN h, hpNaN h, hmNaN h⟩⟩
  · rintro ⟨hparameters, hmetadata, ⟨htime, hsource, hp, hm⟩, hnan⟩
    exact ⟨⟨⟨⟨htime, fun h => (hnan h).1⟩, hsource, fun h => (hnan h).2.1⟩, hparameters, hp, fun h => (hnan h).2.2.1⟩,
      hmetadata, hm, fun h => (hnan h).2.2.2⟩

/-! ## There and back -/

theorem toJson_eq_ok {limits : Limits} {decimal : Char → Option Nat} {event : StrategySignalEventV1} {text : PyStr}
    (hvalid : event.validate limits decimal = .ok ()) : event.toJson limits decimal = .ok text ↔
      (Object.dict event.asdict).depth ≤ limits.asdict ∧ dumps limits (.dict event.written) = .ok text := by
  unfold StrategySignalEventV1.toJson
  rw [hvalid]
  show (if _ then _ else _) = _ ↔ _
  split_ifs with hdepth
  · rw [and_iff_right hdepth]
    cases dumps limits (.dict event.written) with
    | error e => exact iff_of_false nofun nofun
    | ok t => exact ⟨fun h => congrArg _ (Except.ok.inj h), fun h => congrArg _ (Except.ok.inj h)⟩
  · exact iff_of_false nofun fun h => hdepth h.1

theorem restorable_of_roundTrips {limits : Limits} {decimal : Char → Option Nat} {byIdentity : Bool} {raw : PyStr}
    {event : StrategySignalEventV1} (hraw : CodePoints raw) (h : fromJson limits decimal raw = .ok event)
    (htrips : RoundTrips limits decimal byIdentity event) : Restorable limits byIdentity event := by
  obtain ⟨depth, hlimit, hloaded, hvalid⟩ := of_fromJson_ok hraw h
  obtain ⟨text, restored, htext, hfrom, heq⟩ := htrips
  obtain ⟨hcopied, hdumps⟩ := (toJson_eq_ok hvalid).mp htext
  obtain rfl := Except.ok.inj ((fromJson_written hvalid hlimit hloaded hdumps).symm.trans hfrom)
  obtain ⟨hparameters, hmetadata, hunpaired, hnan⟩ := (eq_restored_iff hvalid hloaded).mp heq
  have hwritten := (exists_dumps_iff (loaded_written hloaded).2).mp ⟨text, hdumps⟩
  exact ⟨hcopied, hwritten, hparameters, hmetadata, hunpaired, hnan⟩

theorem roundTrips_of_restorable {limits : Limits} {decimal : Char → Option Nat} {byIdentity : Bool} {raw : PyStr}
    {event : StrategySignalEventV1} (hraw : CodePoints raw) (h : fromJson limits decimal raw = .ok event)
    (hrestorable : Restorable limits byIdentity event) : RoundTrips limits decimal byIdentity event := by
  obtain ⟨depth, hlimit, hloaded, hvalid⟩ := of_fromJson_ok hraw h
  obtain ⟨hcopied, hwritten, hparameters, hmetadata, hunpaired, hnan⟩ := hrestorable
  obtain ⟨text, hdumps⟩ := (exists_dumps_iff (loaded_written hloaded).2).mpr hwritten
  exact ⟨text, event.restored, (toJson_eq_ok hvalid).mpr ⟨hcopied, hdumps⟩,
    fromJson_written hvalid hlimit hloaded hdumps,
    (eq_restored_iff hvalid hloaded).mpr ⟨hparameters, hmetadata, hunpaired, hnan⟩⟩

/-- **An event that has been read is restored from its text** exactly when it is restorable. -/
theorem roundTrips_iff {limits : Limits} {decimal : Char → Option Nat} {byIdentity : Bool} {raw : PyStr}
    {event : StrategySignalEventV1} (hraw : CodePoints raw) (h : fromJson limits decimal raw = .ok event) :
    RoundTrips limits decimal byIdentity event ↔ Restorable limits byIdentity event :=
  ⟨restorable_of_roundTrips hraw h, roundTrips_of_restorable hraw h⟩

/-- The signal of the contract test, with parameters that are null. -/
def nullParameters : PyStr :=
  pyStr "\x7b\"version\":\"1.0.0\",\"event_id\":\"550e8400-e29b-41d4-a716-446655440000\"," ++
    pyStr "\"timestamp_utc\":\"2026-08-31T10:00:00Z\",\"source_agent\":\"strategy_selector_v2\"," ++
    pyStr "\"signal\":\x7b\"symbol\":\"BTCUSDT\",\"direction\":\"LONG\",\"confidence\":1,\"regime\":\"TRENDING\"," ++
    pyStr "\"parameters\":null\x7d\x7d"

theorem codePoints_nullParameters : CodePoints nullParameters := by
  apply codePoints_of_valid
  unfold nullParameters
  simp only [List.forall_mem_append]
  exact ⟨⟨⟨valid_pyStr _, valid_pyStr _⟩, valid_pyStr _⟩, valid_pyStr _⟩

def sampleLimits : Limits := ⟨1000, 1000, 1000, 1000, 4300⟩

theorem fromJson_nullParameters : ∃ event, fromJson sampleLimits (fun _ => none) nullParameters = .ok event ∧
    event.signal.parameters = .none := by
  have h : (match fromJson sampleLimits (fun _ => none) nullParameters with
    | .ok event => event.signal.parameters.isNone
    | .error _ => false) = true := by decide +kernel
  cases hfrom : fromJson sampleLimits (fun _ => none) nullParameters with
  | error e => rw [hfrom] at h; exact nomatch h
  | ok event =>
    rw [hfrom] at h
    exact ⟨event, rfl, eq_none_of_isNone h⟩

theorem roundTrips_nullParameters : ∃ event, fromJson sampleLimits (fun _ => none) nullParameters = .ok event ∧
    (RoundTrips sampleLimits (fun _ => none) true event ↔ Restorable sampleLimits true event) := by
  obtain ⟨event, h, -⟩ := fromJson_nullParameters
  exact ⟨event, h, roundTrips_iff codePoints_nullParameters h⟩

/-- Parameters that are null are accepted, left out, and read as an empty dict. -/
theorem null_parameters_lost : ¬ ∀ limits decimal byIdentity raw event, CodePoints raw →
    fromJson limits decimal raw = .ok event → RoundTrips limits decimal byIdentity event := by
  intro h
  obtain ⟨event, hfrom, hnone⟩ := fromJson_nullParameters
  have hkept := (restorable_of_roundTrips codePoints_nullParameters hfrom
    (h _ _ true _ event codePoints_nullParameters hfrom)).parameters
  rw [hnone] at hkept
  exact hkept.elim nofun nofun

end Atlas.Strategy.Adapter
