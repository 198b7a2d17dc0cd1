import Atlas.Lib.PyLoads
import Atlas.Strategy.Signals

/-!
# The contract adapter: `contract_adapter.py`

* `fromJson` : `StrategySignalEventV1.from_json` on any text; `StrategySignalEventV1.validate`;
* `Settles` : it returns an event that passes `validate`, or raises a `ContractValidationError`;
* `Checkable` : every value that a check comes to is one that the check can take;
* `settled_bind` : calls one after the other settle when each that is reached does; `fromJson_settles_iff`.
-/

namespace Atlas.Strategy.Adapter
open Py
open PyJson (PyStr pyStr)

/-- What a `ContractValidationError` is about. -/
inductive Reason
  | invalidJson
  | notObject
  | unknownFields (names : List PyStr)
  | signalNotObject
  | unknownSignalFields (names : List PyStr)
  | version (got : Object)
  | sourceAgent
  | eventId
  | traceId
  | symbol (got : PyStr)
  | direction (got : Object)
  | confidence (got : F64)
  | regime (got : Object)

inductive Raised
  | contractValidationError (reason : Reason)
  | typeError
  | attributeError
  | valueError
  | overflowError
  | recursionError

structure Signal where
  symbol : Object
  direction : Object
  confidence : F64
  regime : Object
  parameters : Object

structure StrategySignalEventV1 where
  version : Object
  eventId : Object
  timestampUtc : Object
  sourceAgent : Object
  signal : Signal
  traceId : Object
  metadata : Object

def reject {α : Type} (reason : Reason) : Except Raised α := .error (.contractValidationError reason)

/-! ## `validate` -/

/-- `_SYMBOL_PATTERN.match(symbol)` -/
def matchesSymbol (symbol : PyStr) : Bool :=
  (chars? symbol).any fun cs => Python.matchesSymbol (String.ofList cs)

def checkSymbol : Object → Except Raised Unit
  | .str symbol => if matchesSymbol symbol then .ok () else reject (.symbol symbol)
  | _ => .error .typeError

/-- `value not in names`, for a frozenset of strings. -/
def checkName (names : List String) (reason : Object → Reason) (value : Object) : Except Raised Unit :=
  if value.Hashable then if names.any value.isStr then .ok () else reject (reason value)
  else .error .typeError

def one : F64 := .ofInt 1 F64.one_exact

def checkConfidence (confidence : F64) : Except Raised Unit :=
  if F64.zero.le confidence && confidence.le one then .ok () else reject (.confidence confidence)

def Signal.validate (signal : Signal) : Except Raised Unit := do
  checkSymbol signal.symbol
  checkName Python.validDirections .direction signal.direction
  checkConfidence signal.confidence
  checkName Python.validRegimes .regime signal.regime

/-- `uuid.UUID` takes the text. -/
def isUuid (decimal : Char → Option Nat) (text : PyStr) : Bool :=
  ((chars? text).bind (PyText.uuid? decimal)).isSome

/-- `uuid.UUID(value)`, whose `ValueError` is caught. -/
def checkUuid (decimal : Char → Option Nat) (reason : Reason) : Object → Except Raised Unit
  | .str text => if isUuid decimal text then .ok () else reject reason
  | .none => .error .typeError
  | _ => .error .attributeError

/-- The message has the text of the version in it. -/
def checkVersion (limits : Limits) (version : Object) : Except Raised Unit :=
  if version.isStr "1.0.0" then .ok ()
  else if version.depth ≤ limits.str then reject (.version version)
  else .error .recursionError

def checkSourceAgent (sourceAgent : Object) : Except Raised Unit :=
  if sourceAgent.truthy then .ok () else reject .sourceAgent

def checkTraceId (decimal : Char → Option Nat) : Object → Except Raised Unit
  | .none => .ok ()
  | traceId => checkUuid decimal .traceId traceId

def StrategySignalEventV1.validate (limits : Limits) (decimal : Char → Option Nat) (event : StrategySignalEventV1) :
    Except Raised Unit := do
  checkVersion limits event.version
  checkSourceAgent event.sourceAgent
  checkUuid decimal .eventId event.eventId
  checkTraceId decimal event.traceId
  event.signal.validate

/-! ## `from_json` -/

def knownFields : List String :=
  ["version", "event_id", "timestamp_utc", "trace_id", "source_agent", "signal", "metadata"]

def knownSignalFields : List String := ["symbol", "direction", "confidence", "regime", "parameters"]

/-- `set(items.keys()) - known` -/
def unknown (known : List String) (items : List (PyStr × Object)) : List PyStr :=
  (items.map Prod.fst).filter fun key => key ∉ known.map pyStr

def Raised.ofFloat : FloatError → Raised
  | .typeError => .typeError
  | .valueError => .valueError
  | .overflowError => .overflowError

/-- `signal_data.get("confidence", -1)` -/
def confidenceData (signalData : List (PyStr × Object)) : Object := (lookup signalData "confidence").getD (.int (-1))

/-- The arguments of `cls`, `confidence` being the float that has been made. -/
def eventOf (data signalData : List (PyStr × Object)) (confidence : F64) : StrategySignalEventV1 where
  version := (lookup data "version").getD (.str [])
  eventId := (lookup data "event_id").getD (.str [])
  timestampUtc := (lookup data "timestamp_utc").getD (.str [])
  sourceAgent := (lookup data "source_agent").getD (.str [])
  signal :=
    { symbol := (lookup signalData "symbol").getD (.str [])
      direction := (lookup signalData "direction").getD (.str [])
      confidence := confidence
      regime := (lookup signalData "regime").getD (.str [])
      parameters := (lookup signalData "parameters").getD (.dict []) }
  traceId := (lookup data "trace_id").getD .none
  metadata := (lookup data "metadata").getD (.dict [])

/-- From `event = cls(…)` on. -/
def buildEvent (limits : Limits) (decimal : Char → Option Nat) (data signalData : List (PyStr × Object)) :
    Except Raised StrategySignalEventV1 := do
  let confidence ← (toFloat decimal (confidenceData signalData)).mapError .ofFloat
  let event := eventOf data signalData confidence
  event.validate limits decimal
  pure event

def readSignal (limits : Limits) (decimal : Char → Option Nat) (data : List (PyStr × Object)) :
    Except Raised StrategySignalEventV1 :=
  match lookup data "signal" with
  | some (.dict signalData) =>
    if unknown knownSignalFields signalData ≠ [] then
      reject (.unknownSignalFields (unknown knownSignalFields signalData))
    else buildEvent limits decimal data signalData
  | _ => reject .signalNotObject

def readEvent (limits : Limits) (decimal : Char → Option Nat) : Object → Except Raised StrategySignalEventV1
  | .dict data =>
    if unknown knownFields data ≠ [] then reject (.unknownFields (unknown knownFields data))
    else readSignal limits decimal data
  | _ => reject .notObject

def fromJson (limits : Limits) (decimal : Char → Option Nat) (raw : PyStr) : Except Raised StrategySignalEventV1 :=
  match loads limits raw with
  | .error .decode => reject .invalidJson
  | .error .recursion => .error .recursionError
  | .error .digits => .error .valueError
  | .ok data => readEvent limits decimal data

/-! ## What each check can take -/

/-- An event that passes `validate`, or a `ContractValidationError`. -/
def Settles (limits : Limits) (decimal : Char → Option Nat) (result : Except Raised StrategySignalEventV1) : Prop :=
  (∃ event, result = .ok event ∧ event.validate limits decimal = .ok ()) ∨ ∃ reason, result = reject reason

def IsUuid (decimal : Char → Option Nat) (v : Object) : Prop := ∃ text, v = .str text ∧ isUuid decimal text = true

def IsSymbol (v : Object) : Prop := ∃ text, v = .str text ∧ matchesSymbol text = true

def IsName (names : List String) (v : Object) : Prop := names.any v.isStr = true

def InRange (confidence : F64) : Prop := (F64.zero.le confidence && confidence.le one) = true

/-- A symbol is a text and, each when the checks in front of it pass, a direction and a regime have a hash. -/
def Signal.Checkable (signal : Signal) : Prop :=
  signal.symbol.IsText ∧ (IsSymbol signal.symbol →
    signal.direction.Hashable ∧ (IsName Python.validDirections signal.direction →
      (InRange signal.confidence → signal.regime.Hashable)))

/-- Each when the checks in front of it pass: another version is no deeper than its message goes, the event id is a
text, the trace id a text or null, and the signal as above. -/
def StrategySignalEventV1.Checkable (limits : Limits) (decimal : Char → Option Nat) (event : StrategySignalEventV1) :
    Prop :=
  (event.version.isStr "1.0.0" = false → event.version.depth ≤ limits.str) ∧
    (event.version.isStr "1.0.0" = true → event.sourceAgent.truthy = true →
      event.eventId.IsText ∧ (IsUuid decimal event.eventId →
        (event.traceId = .none ∨ event.traceId.IsText) ∧
          (event.traceId = .none ∨ IsUuid decimal event.traceId → event.signal.Checkable)))

/-- The text is no JSON, or JSON that the interpreter can read; in an object with known fields and a signal with known
fields, the confidence is a float or can be made one, and the checks can take the event. -/
def Readable (limits : Limits) (decimal : Char → Option Nat) (raw : PyStr) : Prop :=
  (∀ e, loads limits raw = .error e → e = .decode) ∧
    ∀ data signalData, loads limits raw = .ok (.dict data) → unknown knownFields data = [] →
      lookup data "signal" = some (.dict signalData) → unknown knownSignalFields signalData = [] →
        ∃ confidence, toFloat decimal (confidenceData signalData) = .ok confidence ∧
          (eventOf data signalData confidence).Checkable limits decimal

/-- No exception but a `ContractValidationError`. -/
def Settled {α : Type} (result : Except Raised α) : Prop :=
  ∀ e, result = .error e → ∃ reason, e = .contractValidationError reason

theorem settled_ok {α : Type} (a : α) : Settled (.ok a : Except Raised α) := fun _ h => nomatch h

theorem settled_reject {α : Type} (reason : Reason) : Settled (reject reason : Except Raised α) := by
  intro e h
  exact ⟨reason, (Except.error.inj h).symm⟩

theorem settled_bind {α β : Type} {x : Except Raised α} {f : α → Except Raised β} :
    Settled (x >>= f) ↔ Settled x ∧ ∀ a, x = .ok a → Settled (f a) := by
  cases x with
  | error e =>
    refine ⟨fun h => ⟨fun e' he' => h e' (congrArg Except.error (Except.error.inj he')), fun a ha => nomatch ha⟩, ?_⟩
    intro h e' he'
    exact h.1 e' (congrArg Except.error (Except.error.inj he'))
  | ok a =>
    refine ⟨fun h => ⟨settled_ok a, fun b hb => Except.ok.inj hb ▸ h⟩, fun h => h.2 a rfl⟩

theorem not_settled {α : Type} {e : Raised} (h : ∀ reason, e ≠ .contractValidationError reason) :
    ¬ Settled (.error e : Except Raised α) := fun hsettled => (hsettled e rfl).elim h

theorem checkSymbol_settled {v : Object} : Settled (checkSymbol v) ↔ v.IsText := by
  cases v with
  | str text =>
    refine iff_of_true ?_ trivial
    show Settled (if matchesSymbol text then .ok () else reject (.symbol text))
    split_ifs
    · exact settled_ok ()
    · exact settled_reject _
  | _ => exact iff_of_false (not_settled nofun) id

theorem checkSymbol_ok {v : Object} : checkSymbol v = .ok () ↔ IsSymbol v := by
  cases v with
  | str text =>
    show (if matchesSymbol text then .ok () else reject (.symbol text)) = .ok () ↔ IsSymbol (.str text)
    split_ifs with h
    · exact iff_of_true rfl ⟨text, rfl, h⟩
    · refine iff_of_false nofun ?_
      rintro ⟨_, heq, hmatch⟩
      obtain rfl := Object.str.inj heq
      exact h hmatch
  | _ => exact iff_of_false nofun fun ⟨_, heq, _⟩ => nomatch heq

theorem checkName_settled {names : List String} {reason : Object → Reason} {v : Object} :
    Settled (checkName names reason v) ↔ v.Hashable := by
  unfold checkName
  split_ifs with hhash hname
  · exact iff_of_true (settled_ok ()) hhash
  · exact iff_of_true (settled_reject _) hhash
  · exact iff_of_false (not_settled nofun) hhash

theorem hashable_of_isName {names : List String} {v : Object} (h : IsName names v) : v.Hashable := by
  obtain ⟨name, -, hv⟩ := List.any_eq_true.mp h
  cases v with
  | str s => trivial
  | _ => exact nomatch hv

theorem checkName_ok {names : List String} {reason : Object → Reason} {v : Object} :
    checkName names reason v = .ok () ↔ IsName names v := by
  unfold checkName
  split_ifs with hhash hname
  · exact iff_of_true rfl hname
  · exact iff_of_false nofun hname
  · exact iff_of_false nofun fun hname => hhash (hashable_of_isName hname)

theorem checkConfidence_settled {x : F64} : Settled (checkConfidence x) := by
  unfold checkConfidence
  split_ifs
  · exact settled_ok ()
  · exact settled_reject _

theorem checkConfidence_ok {x : F64} : checkConfidence x = .ok () ↔ InRange x := by
  unfold checkConfidence InRange
  split_ifs with h
  · exact iff_of_true rfl h
  · exact iff_of_false nofun h

theorem checkUuid_settled {decimal : Char → Option Nat} {reason : Reason} {v : Object} :
    Settled (checkUuid decimal reason v) ↔ v.IsText := by
  cases v with
  | str text =>
    refine iff_of_true ?_ trivial
    show Settled (if isUuid decimal text then .ok () else reject reason)
    split_ifs
    · exact settled_ok ()
    · exact settled_reject _
  | _ => exact iff_of_false (not_settled nofun) id

theorem checkUuid_ok {decimal : Char → Option Nat} {reason : Reason} {v : Object} :
    checkUuid decimal reason v = .ok () ↔ IsUuid decimal v := by
  cases v with
  | str text =>
    show (if isUuid decimal text then .ok () else reject reason) = .ok () ↔ IsUuid decimal (.str text)
    split_ifs with h
    · exact iff_of_true rfl ⟨text, rfl, h⟩
    · refine iff_of_false nofun ?_
      rintro ⟨_, heq, huuid⟩
      obtain rfl := Object.str.inj heq
      exact h huuid
  | _ => exact iff_of_false nofun fun ⟨_, heq, _⟩ => nomatch heq

theorem checkTraceId_none {decimal : Char → Option Nat} : checkTraceId decimal .none = .ok () := rfl

theorem checkTraceId_of_ne {decimal : Char → Option Nat} {v : Object} (h : v ≠ .none) :
    checkTraceId decimal v = checkUuid decimal .traceId v := by
  cases v with
  | none => exact absurd rfl h
  | _ => rfl

theorem checkTraceId_settled {decimal : Char → Option Nat} {v : Object} :
    Settled (checkTraceId decimal v) ↔ v = .none ∨ v.IsText := by
  by_cases h : v = .none
  · subst h
    exact iff_of_true (settled_ok ()) (.inl rfl)
  · rw [checkTraceId_of_ne h, or_iff_right h]
    exact checkUuid_settled

theorem checkTraceId_ok {decimal : Char → Option Nat} {v : Object} :
    checkTraceId decimal v = .ok () ↔ v = .none ∨ IsUuid decimal v := by
  by_cases h : v = .none
  · subst h
    exact iff_of_true checkTraceId_none (.inl rfl)
  · rw [checkTraceId_of_ne h, or_iff_right h]
    exact checkUuid_ok

theorem checkVersion_settled {limits : Limits} {v : Object} :
    Settled (checkVersion limits v) ↔ (v.isStr "1.0.0" = false → v.depth ≤ limits.str) := by
  unfold checkVersion
  split_ifs with hversion hdepth
  · exact iff_of_true (settled_ok ()) fun h => absurd (hversion.symm.trans h) (by decide)
  · exact iff_of_true (settled_reject _) fun _ => hdepth
  · exact iff_of_false (not_settled nofun) fun h => hdepth (h (by simpa using hversion))

theorem checkVersion_ok {limits : Limits} {v : Object} :
    checkVersion limits v = .ok () ↔ v.isStr "1.0.0" = true := by
  unfold checkVersion
  split_ifs with hversion hdepth
  · exact iff_of_true rfl hversion
  · exact iff_of_false nofun hversion
  · exact iff_of_false nofun hversion

theorem checkSourceAgent_settled {v : Object} : Settled (checkSourceAgent v) := by
  unfold checkSourceAgent
  split_ifs
  · exact settled_ok ()
  · exact settled_reject _

theorem checkSourceAgent_ok {v : Object} : checkSourceAgent v = .ok () ↔ v.truthy = true := by
  unfold checkSourceAgent
  split_ifs with h
  · exact iff_of_true rfl h
  · exact iff_of_false nofun h

/-! ## All of them -/

theorem Signal.validate_settled {signal : Signal} : Settled signal.validate ↔ signal.Checkable := by
  unfold Signal.validate Signal.Checkable
  rw [settled_bind, checkSymbol_settled]
  refine and_congr_right fun _ => ⟨fun h hsymbol => ?_, fun h _ hsymbol => ?_⟩
  · obtain ⟨hhash, hrest⟩ := settled_bind.mp (h () (checkSymbol_ok.mpr hsymbol))
    have hdirection := checkName_settled.mp hhash
    refine ⟨hdirection, fun hname hrange => ?_⟩
    have hregime := (settled_bind.mp (hrest () (checkName_ok.mpr hname))).2 ()
      (checkConfidence_ok.mpr hrange)
    exact checkName_settled.mp hregime
  · obtain ⟨hdirection, hrest⟩ := h (checkSymbol_ok.mp hsymbol)
    refine settled_bind.mpr ⟨checkName_settled.mpr hdirection, fun _ hname => ?_⟩
    refine settled_bind.mpr ⟨checkConfidence_settled, fun _ hrange => ?_⟩
    exact checkName_settled.mpr (hrest (checkName_ok.mp hname) (checkConfidence_ok.mp hrange))

theorem validate_settled {limits : Limits} {decimal : Char → Option Nat} {event : StrategySignalEventV1} :
    Settled (event.validate limits decimal) ↔ event.Checkable limits decimal := by
  unfold StrategySignalEventV1.validate StrategySignalEventV1.Checkable
  rw [settled_bind, checkVersion_settled]
  refine and_congr_right fun _ => ⟨fun h hversion hsource => ?_, fun h _ hversion => ?_⟩
  · have hsource := (settled_bind.mp (h () (checkVersion_ok.mpr hversion))).2 () (checkSourceAgent_ok.mpr hsource)
    obtain ⟨hevent, hrest⟩ := settled_bind.mp hsource
    refine ⟨checkUuid_settled.mp hevent, fun huuid => ?_⟩
    obtain ⟨htrace, hsignal⟩ := settled_bind.mp (hrest () (checkUuid_ok.mpr huuid))
    exact ⟨checkTraceId_settled.mp htrace, fun hid => Signal.validate_settled.mp (hsignal () (checkTraceId_ok.mpr hid))⟩
  · refine settled_bind.mpr ⟨checkSourceAgent_settled, fun _ hsource => ?_⟩
    obtain ⟨hevent, hrest⟩ := h (checkVersion_ok.mp hversion) (checkSourceAgent_ok.mp hsource)
    refine settled_bind.mpr ⟨checkUuid_settled.mpr hevent, fun _ huuid => ?_⟩
    obtain ⟨htrace, hsignal⟩ := hrest (checkUuid_ok.mp huuid)
    refine settled_bind.mpr ⟨checkTraceId_settled.mpr htrace, fun _ hid => ?_⟩
    exact Signal.validate_settled.mpr (hsignal (checkTraceId_ok.mp hid))

theorem buildEvent_settled {limits : Limits} {decimal : Char → Option Nat} {data signalData : List (PyStr × Object)} :
    Settled (buildEvent limits decimal data signalData) ↔
      ∃ confidence, toFloat decimal (confidenceData signalData) = .ok confidence ∧
        (eventOf data signalData confidence).Checkable limits decimal := by
  unfold buildEvent
  cases hfloat : toFloat decimal (confidenceData signalData) with
  | error e =>
    refine iff_of_false (not_settled ?_) fun ⟨_, h, _⟩ => nomatch h
    cases e <;> nofun
  | ok confidence =>
    show Settled ((eventOf data signalData confidence).validate limits decimal >>= fun _ => .ok _) ↔ _
    rw [settled_bind, validate_settled]
    constructor
    · intro h
      exact ⟨confidence, rfl, h.1⟩
    · rintro ⟨_, heq, h⟩
      obtain rfl := Except.ok.inj heq
      exact ⟨h, fun _ _ => settled_ok _⟩

theorem of_buildEvent_ok {limits : Limits} {decimal : Char → Option Nat} {data signalData : List (PyStr × Object)}
    {event : StrategySignalEventV1} (h : buildEvent limits decimal data signalData = .ok event) :
    ∃ confidence, toFloat decimal (confidenceData signalData) = .ok confidence ∧
      event = eventOf data signalData confidence ∧ event.validate limits decimal = .ok () := by
  unfold buildEvent at h
  cases hfloat : toFloat decimal (confidenceData signalData) with
  | error e => rw [hfloat] at h; exact nomatch h
  | ok confidence =>
    replace h : ((eventOf data signalData confidence).validate limits decimal >>= fun _ =>
        .ok (eventOf data signalData confidence)) = .ok event := by rwa [hfloat] at h
    cases hvalid : (eventOf data signalData confidence).validate limits decimal with
    | error e => rw [hvalid] at h; exact nomatch h
    | ok _ =>
      rw [hvalid] at h
      obtain rfl := Except.ok.inj h
      exact ⟨confidence, rfl, rfl, hvalid⟩

theorem buildEvent_eq {limits : Limits} {decimal : Char → Option Nat} {data signalData : List (PyStr × Object)}
    {confidence : F64} (hfloat : toFloat decimal (confidenceData signalData) = .ok confidence)
    (hvalid : (eventOf data signalData confidence).validate limits decimal = .ok ()) :
    buildEvent limits decimal data signalData = .ok (eventOf data signalData confidence) := by
  unfold buildEvent
  rw [hfloat]
  show ((eventOf data signalData confidence).validate limits decimal >>= fun _ => .ok _) = _
  rw [hvalid]
  rfl

/-! ### Events that pass -/

theorem Signal.validate_eq_ok {signal : Signal} : signal.validate = .ok () ↔ IsSymbol signal.symbol ∧
    IsName Python.validDirections signal.direction ∧ InRange signal.confidence ∧
      IsName Python.validRegimes signal.regime := by
  unfold Signal.validate
  simp only [bind_eq_ok, Unique.exists_iff, PUnit.default_eq_unit, checkSymbol_ok, checkName_ok,
    checkConfidence_ok]

theorem validate_eq_ok {limits : Limits} {decimal : Char → Option Nat} {event : StrategySignalEventV1} :
    event.validate limits decimal = .ok () ↔ event.version.isStr "1.0.0" = true ∧ event.sourceAgent.truthy = true ∧
      IsUuid decimal event.eventId ∧ (event.traceId = .none ∨ IsUuid decimal event.traceId) ∧
        event.signal.validate = .ok () := by
  unfold StrategySignalEventV1.validate
  simp only [bind_eq_ok, Unique.exists_iff, PUnit.default_eq_unit, checkVersion_ok, checkSourceAgent_ok,
    checkUuid_ok, checkTraceId_ok]

/-! ## Any text -/

/-- The cases that `from_json` tells apart before it makes the event. -/
theorem fromJson_cases (limits : Limits) (decimal : Char → Option Nat) (raw : PyStr) :
    (∃ e, loads limits raw = .error e ∧ e ≠ .decode ∧ ¬ Settled (fromJson limits decimal raw)) ∨
    (∃ data signalData, loads limits raw = .ok (.dict data) ∧ unknown knownFields data = [] ∧
      lookup data "signal" = some (.dict signalData) ∧ unknown knownSignalFields signalData = [] ∧
      fromJson limits decimal raw = buildEvent limits decimal data signalData) ∨
    (Readable limits decimal raw ∧ ∃ reason, fromJson limits decimal raw = reject reason) := by
  unfold fromJson Readable
  cases hloads : loads limits raw with
  | error e =>
    cases e with
    | decode => exact .inr (.inr ⟨⟨fun e h => (Except.error.inj h).symm, nofun⟩, _, rfl⟩)
    | recursion => exact .inl ⟨_, rfl, nofun, not_settled nofun⟩
    | digits => exact .inl ⟨_, rfl, nofun, not_settled nofun⟩
  | ok v =>
    refine .inr ?_
    dsimp only
    unfold readEvent
    split
    case h_2 hother => exact .inr ⟨⟨nofun, fun data _ h => absurd (Except.ok.inj h) (hother data)⟩, _, rfl⟩
    case h_1 data =>
      split_ifs with hunknown
      · refine .inr ⟨⟨nofun, fun other _ h hknown => ?_⟩, _, rfl⟩
        obtain rfl := Object.dict.inj (Except.ok.inj h)
        exact absurd hknown hunknown
      · replace hunknown := not_not.mp hunknown
        unfold readSignal
        split
        case h_2 hother =>
          refine .inr ⟨⟨nofun, fun other signalData h _ hsignal => ?_⟩, _, rfl⟩
          obtain rfl := Object.dict.inj (Except.ok.inj h)
          exact absurd hsignal (hother signalData)
        case h_1 signalData hsignal =>
          split_ifs with hfields
          · refine .inr ⟨⟨nofun, fun other otherSignal h _ hlookup hknown => ?_⟩, _, rfl⟩
            obtain rfl := Object.dict.inj (Except.ok.inj h)
            obtain rfl := Object.dict.inj (Option.some.inj (hsignal.symm.trans hlookup))
            exact absurd hknown hfields
          · exact .inl ⟨data, signalData, rfl, hunknown, hsignal, not_not.mp hfields, rfl⟩

theorem fromJson_eq {limits : Limits} (decimal : Char → Option Nat) {raw : PyStr}
    {data signalData : List (PyStr × Object)} (hloads : loads limits raw = .ok (.dict data))
    (hknown : unknown knownFields data = [])
    (hsignal : lookup data "signal" = some (.dict signalData)) (hfields : unknown knownSignalFields signalData = []) :
    fromJson limits decimal raw = buildEvent limits decimal data signalData := by
  unfold fromJson
  rw [hloads]
  dsimp only
  rw [readEvent, if_neg (not_not.mpr hknown), readSignal, hsignal]
  exact if_neg (not_not.mpr hfields)

theorem settled_of_settles {limits : Limits} {decimal : Char → Option Nat}
    {result : Except Raised StrategySignalEventV1} (h : Settles limits decimal result) : Settled result := by
  rcases h with ⟨event, rfl, _⟩ | ⟨reason, rfl⟩
  · exact settled_ok event
  · exact settled_reject reason

theorem buildEvent_settles {limits : Limits} {decimal : Char → Option Nat} {data signalData : List (PyStr × Object)}
    (h : Settled (buildEvent limits decimal data signalData)) :
    Settles limits decimal (buildEvent limits decimal data signalData) := by
  cases hbuild : buildEvent limits decimal data signalData with
  | ok event =>
    obtain ⟨_, -, -, hvalid⟩ := of_buildEvent_ok hbuild
    exact .inl ⟨event, rfl, hvalid⟩
  | error e =>
    obtain ⟨reason, rfl⟩ := h e hbuild
    exact .inr ⟨reason, rfl⟩

/-- `from_json` returns an event that passes `validate` or raises a `ContractValidationError` on the readable texts,
and on no others. -/
theorem fromJson_settles_iff (limits : Limits) (decimal : Char → Option Nat) (raw : PyStr) :
    Settles limits decimal (fromJson limits decimal raw) ↔ Readable limits decimal raw := by
  rcases fromJson_cases limits decimal raw with
    ⟨e, hloads, he, hfrom⟩ | ⟨data, signalData, hloads, hunknown, hsignal, hknown, hfrom⟩ | ⟨hread, reason, hfrom⟩
  · refine iff_of_false (fun h => hfrom (settled_of_settles h)) fun hread => ?_
    exact he (hread.1 e hloads)
  · have hreadable : Readable limits decimal raw ↔ Settled (buildEvent limits decimal data signalData) := by
      unfold Readable
      rw [hloads, buildEvent_settled]
      constructor
      · intro h
        exact h.2 data signalData rfl hunknown hsignal hknown
      · refine fun h => ⟨nofun, fun other otherSignal heq _ hother _ => ?_⟩
        obtain rfl := Object.dict.inj (Except.ok.inj heq)
        obtain rfl := Object.dict.inj (Option.some.inj (hsignal.symm.trans hother))
        exact h
    rw [hreadable, hfrom]
    exact ⟨settled_of_settles, buildEvent_settles⟩
  · exact iff_of_true (.inr ⟨reason, hfrom⟩) hread

/-- A confidence that is null: `float(None)` raises a `TypeError`. -/
theorem null_confidence : ¬ ∀ limits decimal raw, Settles limits decimal (fromJson limits decimal raw) := by
  intro h
  let limits : Limits := ⟨1000, 1000, 1000, 1000, 4300⟩
  have hraised : (match fromJson limits (fun _ => none) (pyStr "\x7b\"signal\":\x7b\"confidence\":null\x7d\x7d") with
    | .error .typeError => true
    | _ => false) = true := by decide +kernel
  rcases h limits (fun _ => none) (pyStr "\x7b\"signal\":\x7b\"confidence\":null\x7d\x7d") with
    ⟨event, heq, _⟩ | ⟨reason, heq⟩
  · rw [heq] at hraised
    exact nomatch hraised
  · rw [heq] at hraised
    exact nomatch hraised

end Atlas.Strategy.Adapter
