import Atlas.ControlPlane.Audit
import Atlas.Lib.PyText

/-!
# The database sink: `audit/database_sink.py`

* `Meta` : a metadata tree, with the entries of a `dict` in their order;
* `scrubMetadata` : the scrubbing, which goes into a `dict` but not into a `list`; `record` : what is inserted;
* `redact` : what the scrubbing makes of a tree whose keys are all texts; `scrubMetadata_eq`;
* `Related` : two trees that differ under sensitive keys only; `record_eq_iff` : when nothing of that can be told from
  what is inserted;
* `NoSensitive`, `record_eq_unchanged_iff` : when a tree without sensitive keys is inserted as it is.
-/

namespace Atlas.ControlPlane.DatabaseSink

/-- The key of a nested `dict` need not be a text. -/
inductive Key
  | str (text : String)
  | other (key : Nat)
  deriving DecidableEq

/-- `leaf` : a number, `None`, or whatever else is neither a text nor a `list` nor a `dict`. -/
inductive Meta (α : Type)
  | text (s : String)
  | leaf (a : α)
  | list (items : List (Meta α))
  | dict (entries : List (Key × Meta α))

abbrev Entries (α : Type) := List (Key × Meta α)

def sensitiveKeys : List String :=
  ["password", "secret", "token", "api_key", "apikey", "authorization", "credential", "private_key", "supabase_key"]

def Sensitive (key : String) : Prop := PyText.lower key ∈ sensitiveKeys

instance (key : String) : Decidable (Sensitive key) := by
  unfold Sensitive
  infer_instance

section
variable {α : Type}

mutual

/-- `none` : a key has no `lower`, which raises. -/
def scrubMetadata : Entries α → Option (Entries α)
  | [] => some []
  | (.other _, _) :: _ => none
  | (.str key, value) :: rest => do
    let value ← if Sensitive key then some (.text "[REDACTED]") else scrubValue value
    let rest ← scrubMetadata rest
    return (.str key, value) :: rest

/-- The other two branches of the loop. -/
def scrubValue : Meta α → Option (Meta α)
  | .dict entries => do
    let entries ← scrubMetadata entries
    return .dict entries
  | .text s => some (.text s)
  | .leaf a => some (.leaf a)
  | .list items => some (.list items)

end

/-! ## Redaction -/

mutual

/-- Every value under a sensitive key gone. -/
def redact : Entries α → Entries α
  | [] => []
  | (.other key, value) :: rest => (.other key, redactValue value) :: redact rest
  | (.str key, value) :: rest =>
    (.str key, if Sensitive key then .text "[REDACTED]" else redactValue value) :: redact rest

def redactValue : Meta α → Meta α
  | .dict entries => .dict (redact entries)
  | .text s => .text s
  | .leaf a => .leaf a
  | .list items => .list items

end

mutual

/-- Every `dict` that the scrubbing comes to has texts for keys. -/
def StrKeys : Entries α → Prop
  | [] => True
  | (.other _, _) :: _ => False
  | (.str key, value) :: rest => (Sensitive key ∨ StrKeysValue value) ∧ StrKeys rest

def StrKeysValue : Meta α → Prop
  | .dict entries => StrKeys entries
  | .text _ => True
  | .leaf _ => True
  | .list _ => True

end

mutual

theorem scrubMetadata_eq (entries : Entries α) :
    (StrKeys entries → scrubMetadata entries = some (redact entries)) ∧
      (¬ StrKeys entries → scrubMetadata entries = none) := by
  match entries with
  | [] => simp [StrKeys, scrubMetadata, redact]
  | (.other _, _) :: _ => simp [StrKeys, scrubMetadata]
  | (.str key, value) :: rest =>
    have hvalue := scrubValue_eq value
    have hrest := scrubMetadata_eq rest
    rw [StrKeys, scrubMetadata, redact]
    by_cases hkey : Sensitive key <;> by_cases hv : StrKeysValue value <;> by_cases hr : StrKeys rest <;>
      simp [hkey, hv, hr, hvalue, hrest]

theorem scrubValue_eq (value : Meta α) :
    (StrKeysValue value → scrubValue value = some (redactValue value)) ∧
      (¬ StrKeysValue value → scrubValue value = none) := by
  match value with
  | .dict entries =>
    have h := scrubMetadata_eq entries
    rw [StrKeysValue, scrubValue, redactValue]
    by_cases hkeys : StrKeys entries <;> simp [hkeys, h]
  | .text _ => simp [StrKeysValue, scrubValue, redactValue]
  | .leaf _ => simp [StrKeysValue, scrubValue, redactValue]
  | .list _ => simp [StrKeysValue, scrubValue, redactValue]

end

/-! ## Two trees that differ under sensitive keys -/

mutual

/-- The same but for values under sensitive keys, at any depth. -/
def Related : Entries α → Entries α → Prop
  | [], [] => True
  | (.other key, value) :: rest, (.other key', value') :: rest' =>
    key = key' ∧ RelatedValue value value' ∧ Related rest rest'
  | (.str key, value) :: rest, (.str key', value') :: rest' =>
    key = key' ∧ (Sensitive key ∨ RelatedValue value value') ∧ Related rest rest'
  | _, _ => False

def RelatedValue : Meta α → Meta α → Prop
  | .dict entries, .dict entries' => Related entries entries'
  | .text s, .text s' => s = s'
  | .leaf a, .leaf a' => a = a'
  | .list items, .list items' => RelatedItems items items'
  | _, _ => False

def RelatedItems : List (Meta α) → List (Meta α) → Prop
  | [], [] => True
  | item :: items, item' :: items' => RelatedValue item item' ∧ RelatedItems items items'
  | _, _ => False

end

mutual

/-- Where the scrubbing comes to a `list` in both, it is the same one. -/
def ListsAgree : Entries α → Entries α → Prop
  | (.other _, value) :: rest, (.other _, value') :: rest' => ListsAgreeValue value value' ∧ ListsAgree rest rest'
  | (.str key, value) :: rest, (.str _, value') :: rest' =>
    (Sensitive key ∨ ListsAgreeValue value value') ∧ ListsAgree rest rest'
  | _, _ => True

def ListsAgreeValue : Meta α → Meta α → Prop
  | .dict entries, .dict entries' => ListsAgree entries entries'
  | .list items, .list items' => items = items'
  | _, _ => True

end

mutual

theorem redact_eq_iff {entries entries' : Entries α} (h : Related entries entries') :
    redact entries = redact entries' ↔ ListsAgree entries entries' := by
  match entries, entries' with
  | [], [] => simp [ListsAgree]
  | (.other key, value) :: rest, (.other key', value') :: rest' =>
    rw [Related] at h
    obtain ⟨hkey, hvalue, hrest⟩ := h
    rw [ListsAgree, ← redactValue_eq_iff hvalue, ← redact_eq_iff hrest, redact, redact]
    simp [hkey]
  | (.str key, value) :: rest, (.str key', value') :: rest' =>
    rw [Related] at h
    obtain ⟨rfl, hvalue, hrest⟩ := h
    rw [ListsAgree, ← redact_eq_iff hrest, redact, redact]
    by_cases hkey : Sensitive key
    · simp [hkey]
    · rw [← redactValue_eq_iff (hvalue.resolve_left hkey)]
      simp [hkey]

theorem redactValue_eq_iff {value value' : Meta α} (h : RelatedValue value value') :
    redactValue value = redactValue value' ↔ ListsAgreeValue value value' := by
  match value, value' with
  | .dict entries, .dict entries' =>
    rw [RelatedValue] at h
    rw [ListsAgreeValue, ← redact_eq_iff h, redactValue, redactValue, Meta.dict.injEq]
  | .text s, .text s' => simpa [redactValue, ListsAgreeValue, RelatedValue] using h
  | .leaf a, .leaf a' => simpa [redactValue, ListsAgreeValue, RelatedValue] using h
  | .list items, .list items' => simp [redactValue, ListsAgreeValue]

end

mutual

theorem strKeys_congr {entries entries' : Entries α} (h : Related entries entries') :
    StrKeys entries ↔ StrKeys entries' := by
  match entries, entries' with
  | [], [] => rfl
  | (.other _, _) :: _, (.other _, _) :: _ => simp [StrKeys]
  | (.str key, value) :: rest, (.str key', value') :: rest' =>
    rw [Related] at h
    obtain ⟨rfl, hvalue, hrest⟩ := h
    rw [StrKeys, StrKeys, strKeys_congr hrest]
    by_cases hkey : Sensitive key
    · simp [hkey]
    · rw [strKeysValue_congr (hvalue.resolve_left hkey)]

theorem strKeysValue_congr {value value' : Meta α} (h : RelatedValue value value') :
    StrKeysValue value ↔ StrKeysValue value' := by
  match value, value' with
  | .dict entries, .dict entries' =>
    rw [RelatedValue] at h
    rw [StrKeysValue, StrKeysValue, strKeys_congr h]
  | .text _, .text _ => simp [StrKeysValue]
  | .leaf _, .leaf _ => simp [StrKeysValue]
  | .list _, .list _ => simp [StrKeysValue]

end

/-- What the scrubbing leaves tells nothing just when the lists that it comes to agree. -/
theorem scrubMetadata_eq_iff {entries entries' : Entries α} (h : Related entries entries') :
    scrubMetadata entries = scrubMetadata entries' ↔ (StrKeys entries → ListsAgree entries entries') := by
  by_cases hkeys : StrKeys entries
  · rw [(scrubMetadata_eq entries).1 hkeys, (scrubMetadata_eq entries').1 ((strKeys_congr h).mp hkeys),
      Option.some.injEq, redact_eq_iff h]
    exact ⟨fun hagree _ => hagree, fun hagree => hagree hkeys⟩
  · rw [(scrubMetadata_eq entries).2 hkeys,
      (scrubMetadata_eq entries').2 fun hkeys' => hkeys ((strKeys_congr h).mpr hkeys')]
    exact ⟨fun _ hkeys' => absurd hkeys' hkeys, fun _ => rfl⟩

/-! ## Trees without sensitive keys -/

mutual

/-- No key at any depth is sensitive. -/
def NoSensitive : Entries α → Prop
  | [] => True
  | (.other _, value) :: rest => NoSensitiveValue value ∧ NoSensitive rest
  | (.str key, value) :: rest => ¬ Sensitive key ∧ NoSensitiveValue value ∧ NoSensitive rest

def NoSensitiveValue : Meta α → Prop
  | .dict entries => NoSensitive entries
  | .text _ => True
  | .leaf _ => True
  | .list items => NoSensitiveItems items

def NoSensitiveItems : List (Meta α) → Prop
  | [] => True
  | item :: items => NoSensitiveValue item ∧ NoSensitiveItems items

end

mutual

theorem redact_eq_self {entries : Entries α} (h : NoSensitive entries) : redact entries = entries := by
  match entries with
  | [] => rw [redact]
  | (.other key, value) :: rest =>
    rw [NoSensitive] at h
    rw [redact, redactValue_eq_self h.1, redact_eq_self h.2]
  | (.str key, value) :: rest =>
    rw [NoSensitive] at h
    rw [redact, if_neg h.1, redactValue_eq_self h.2.1, redact_eq_self h.2.2]

theorem redactValue_eq_self {value : Meta α} (h : NoSensitiveValue value) : redactValue value = value := by
  match value with
  | .dict entries =>
    rw [NoSensitiveValue] at h
    rw [redactValue, redact_eq_self h]
  | .text _ => rw [redactValue]
  | .leaf _ => rw [redactValue]
  | .list _ => rw [redactValue]

end

theorem scrubMetadata_eq_self_iff {entries : Entries α} (h : NoSensitive entries) :
    scrubMetadata entries = some entries ↔ StrKeys entries := by
  by_cases hkeys : StrKeys entries
  · rw [(scrubMetadata_eq entries).1 hkeys, redact_eq_self h]
    exact iff_of_true rfl hkeys
  · rw [(scrubMetadata_eq entries).2 hkeys]
    exact iff_of_false nofun hkeys

end

/-! ## Records -/

def eventTypeValue : AuditEventType → String
  | .memoryRetrieve => "memory.retrieve"
  | .memoryStore => "memory.store"
  | .memoryForget => "memory.forget"
  | .communicationSend => "communication.send"
  | .schedulerTask => "scheduler.task"
  | .strategySignalReceived => "strategy_signal.received"
  | .strategySignalExecuted => "strategy_signal.executed"
  | .riskAssessment => "risk.assessment"

def actionValue : AuditAction → String
  | .requested => "requested"
  | .completed => "completed"
  | .failed => "failed"

def resultValue : AuditResult → String
  | .success => "success"
  | .failure => "failure"

/-- A whole record; `timestamp` by its `isoformat`. -/
structure Event (α : Type) where
  eventId : String
  contractVersion : String
  eventType : AuditEventType
  operationId : String
  agentId : String
  timestamp : String
  action : AuditAction
  resource : String
  result : AuditResult
  metadata : Entries α

def allowedFields : List String :=
  ["event_id", "contract_version", "event_type", "operation_id", "agent_id", "timestamp", "action", "resource",
    "result", "metadata"]

abbrev Payload (α : Type) := List (String × Meta α)

variable {α : Type}

def payload (event : Event α) (metadata : Entries α) : Payload α :=
  [("event_id", .text event.eventId), ("contract_version", .text event.contractVersion),
    ("event_type", .text (eventTypeValue event.eventType)), ("operation_id", .text event.operationId),
    ("agent_id", .text event.agentId), ("timestamp", .text event.timestamp),
    ("action", .text (actionValue event.action)), ("resource", .text event.resource),
    ("result", .text (resultValue event.result)), ("metadata", .dict metadata)]

/-- The payload that `record` hands to `insert`; `none` : it inserts nothing, and only logs that. -/
def record (event : Event α) : Option (Payload α) := do
  let metadata ← scrubMetadata event.metadata
  let payload := payload event metadata
  if (payload.map Prod.fst).all (· ∈ allowedFields) then some payload else none

/-- No field of the payload is unknown. -/
theorem record_eq (event : Event α) : record event = (scrubMetadata event.metadata).map (payload event) := by
  unfold record
  cases scrubMetadata event.metadata with
  | none => rfl
  | some metadata =>
    have hfields : ((payload event metadata).map Prod.fst).all (· ∈ allowedFields) = true := by
      show allowedFields.all (· ∈ allowedFields) = true
      decide
    simp [hfields]

theorem payload_injective (event : Event α) : Function.Injective (payload event) := by
  intro metadata metadata' h
  simpa [payload] using h

/-- Two records that differ under sensitive keys of their metadata only. -/
def RelatedEvents (event event' : Event α) : Prop :=
  event' = { event with metadata := event'.metadata } ∧ Related event.metadata event'.metadata

/-- Nothing that stands under a sensitive key can be told from what is inserted just when the lists agree that the
scrubbing comes to, or nothing is inserted. -/
theorem record_eq_iff {event event' : Event α} (h : RelatedEvents event event') :
    record event = record event' ↔ (StrKeys event.metadata → ListsAgree event.metadata event'.metadata) := by
  have hpayload : payload event' = payload event := by
    rw [h.1]
    rfl
  rw [← scrubMetadata_eq_iff h.2, record_eq, record_eq, hpayload]
  exact (Option.map_injective (payload_injective event)).eq_iff

/-- Metadata without sensitive keys is inserted unchanged just when the scrubbing comes to texts for keys only. -/
theorem record_eq_unchanged_iff {event : Event α} (h : NoSensitive event.metadata) :
    record event = some (payload event event.metadata) ↔ StrKeys event.metadata := by
  rw [← scrubMetadata_eq_self_iff h, record_eq]
  exact (Option.map_injective (payload_injective event)).eq_iff' rfl

/-- Both halves of the scrubbing, for all records. -/
theorem scrubbing_iff :
    (∀ event event' : Event α, RelatedEvents event event' →
      (record event = record event' ↔ (StrKeys event.metadata → ListsAgree event.metadata event'.metadata))) ∧
    ∀ event : Event α, NoSensitive event.metadata →
      (record event = some (payload event event.metadata) ↔ StrKeys event.metadata) :=
  ⟨fun _ _ h => record_eq_iff h, fun _ h => record_eq_unchanged_iff h⟩

/-- A record of a stored memory. -/
def stored (metadata : Entries Nat) : Event Nat :=
  ⟨"e1", "1.0", .memoryStore, "op1", "agent1", "2026-01-01T00:00:00+00:00", .completed, "m1", .success, metadata⟩

theorem scrubbing_iff_stored :
    (record (stored [(.str "Password", .text "a")]) = record (stored [(.str "Password", .text "b")]) ↔
      (StrKeys (stored [(.str "Password", .text "a")]).metadata →
        ListsAgree (stored [(.str "Password", .text "a")]).metadata
          (stored [(.str "Password", .text "b")]).metadata)) ∧
    (record (stored [(.str "layer", .leaf 2)]) =
        some (payload (stored [(.str "layer", .leaf 2)]) (stored [(.str "layer", .leaf 2)]).metadata) ↔
      StrKeys (stored [(.str "layer", .leaf 2)]).metadata) := by
  have hpassword : Sensitive "Password" := by decide
  have hlayer : ¬ Sensitive "layer" := by decide
  have hrelated : Related [(.str "Password", (.text "a" : Meta Nat))] [(.str "Password", .text "b")] := by
    simp [Related, hpassword]
  have hplain : NoSensitive [(.str "layer", (.leaf 2 : Meta Nat))] := by
    simp [NoSensitive, NoSensitiveValue, hlayer]
  exact ⟨scrubbing_iff.1 _ _ ⟨rfl, hrelated⟩, scrubbing_iff.2 _ hplain⟩

/-- Call attempts with their headers: a `list` of a `dict` with a token. -/
def attempts (token : String) : Event Nat :=
  stored [(.str "attempts", .list [.dict [(.str "token", .text token)]])]

/-- Two tokens in a `list` come through the scrubbing. -/
theorem attempts_leak :
    RelatedEvents (attempts "a") (attempts "b") ∧ record (attempts "a") ≠ record (attempts "b") := by
  have htoken : Sensitive "token" := by decide
  have hattempts : ¬ Sensitive "attempts" := by decide
  have hrelated : RelatedEvents (attempts "a") (attempts "b") := by
    refine ⟨rfl, ?_⟩
    simp [attempts, stored, Related, RelatedValue, RelatedItems, htoken]
  refine ⟨hrelated, ?_⟩
  rw [Ne, record_eq_iff hrelated]
  simp [attempts, stored, StrKeys, StrKeysValue, ListsAgree, ListsAgreeValue, hattempts]

end Atlas.ControlPlane.DatabaseSink
