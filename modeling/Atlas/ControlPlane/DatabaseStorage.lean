import Atlas.ControlPlane.KeyedStorage

/-!
# The database storage: `infrastructure/database/memory_storage.py`

* `Row` : a row of `memory_records`; `payload`, `modelValidate` : from a record to its row and back;
* `Client` : the client of the database, a parameter; `Client.Serves` : what is relied on about it;
* `databaseStorage` : the storage over a client; `keyed_databaseStorage` : it keeps a table;
* `Experience.storeAndAudit` : the experience engine's way to the storage;
* `Honest` : what is said to be stored is stored; `stores_honest_iff` : when the gateway and the experience engine are.
-/

namespace Atlas.ControlPlane
open Raising
open Atlas.Memory (MemoryType ValidationStatus)

/-! ## Rows -/

structure Row (α : Type) where
  memoryId : String
  memoryType : String
  createdAt : String
  content : α
  metadata : List (String × α)
  validationStatus : String
  operationId : String
  agentId : String

namespace Row
variable {α : Type}

def statusValue : ValidationStatus → String
  | .pending => "pending"
  | .validated => "validated"
  | .rejected => "rejected"

/-- The `payload` of `store`. -/
def payload (record : MemoryRecord α) : Row α :=
  ⟨record.memoryId, Forgetting.typeValue record.memoryType, record.createdAt, record.content, record.metadata,
    statusValue record.validationStatus, record.operationId, record.agentId⟩

def typeOf? (value : String) : Option MemoryType :=
  [MemoryType.working, .episodic, .semantic, .procedural].find? (Forgetting.typeValue · = value)

def statusOf? (value : String) : Option ValidationStatus :=
  [ValidationStatus.pending, .validated, .rejected].find? (statusValue · = value)

def idOf? (text : String) : Option Id := if h : text ≠ "" then some ⟨text, h⟩ else none

/-- `MemoryRecord.model_validate`; `datetime` is the `isoformat` of what pydantic reads from a text. -/
def modelValidate (datetime : String → Option String) (row : Row α) : Option (MemoryRecord α) := do
  let memoryId ← idOf? row.memoryId
  let memoryType ← typeOf? row.memoryType
  let createdAt ← datetime row.createdAt
  let validationStatus ← statusOf? row.validationStatus
  let operationId ← idOf? row.operationId
  let agentId ← idOf? row.agentId
  return ⟨memoryId, memoryType, createdAt, row.content, row.metadata, validationStatus, operationId, agentId⟩

/-- A row that has been left as it was sent. -/
theorem modelValidate_payload {datetime : String → Option String} {record : MemoryRecord α}
    (h : datetime record.createdAt = some record.createdAt) :
    modelValidate datetime (payload record) = some record := by
  have hid (id : Id) : idOf? id.val = some id := by
    unfold idOf?
    rw [dif_pos id.2]
  have htype (memoryType : MemoryType) : typeOf? (Forgetting.typeValue memoryType) = some memoryType := by
    cases memoryType <;> rfl
  have hstatus (status : ValidationStatus) : statusOf? (statusValue status) = some status := by
    cases status <;> rfl
  simp only [modelValidate, payload, hid, htype, hstatus, h]
  rfl

end Row

/-! ## The client -/

/-- The requests up to `execute()`: the upsert of a row on conflict of its `memory_id`, the `select` of at most one row
with a `memory_id`, the `delete` of the rows with one. What is raised is given by its text. -/
structure Client (α ω : Type) where
  upsert : Row α → EStateM String ω Unit
  select : String → EStateM String ω (List (Row α))
  delete : String → EStateM String ω (List (Row α))

variable {α ω : Type}

section
variable (datetime : String → Option String) (client : Client α ω)

/-- The body of the `try` in `retrieve`. -/
def select (memoryId : String) : EStateM String ω (Option (MemoryRecord α)) := do
  let data ← client.select memoryId
  match data with
  | [] => pure none
  | row :: _ =>
    match row.modelValidate datetime with
    | none => throw "validation error"
    | some record => pure (some record)

/-- `DatabaseMemoryStorage` : every exception is caught and logged. -/
def databaseStorage : Storage α ω where
  store record := tryCatch (client.upsert (Row.payload record)) fun _ => pure ()
  retrieve memoryId := tryCatch (select datetime client memoryId) fun _ => pure none
  delete memoryId :=
    tryCatch (do
      let data ← client.delete memoryId
      return !data.isEmpty) fun _ => pure false

end

namespace Client

/-- What is relied on: a request that is answered has been carried out, and one that raises has been carried out, or not
at all. A row is kept under its id; what the table makes of its values, which travel as JSON, is `kept`. -/
structure Serves (client : Client α ω) (rows : ω → String → Option (Row α)) (kept : Row α → Row α) : Prop where
  upsert : ∀ row s, wp (client.upsert row)
    (fun _ s' => rows s' = Function.update (rows s) row.memoryId (some (kept row)))
    (fun _ s' => rows s' = rows s ∨ rows s' = Function.update (rows s) row.memoryId (some (kept row))) s
  select : ∀ memoryId s, wp (client.select memoryId)
    (fun data s' => data = (rows s memoryId).toList ∧ rows s' = rows s) (fun _ s' => rows s' = rows s) s
  delete : ∀ memoryId s, wp (client.delete memoryId)
    (fun data s' => data = (rows s memoryId).toList ∧ rows s' = Function.update (rows s) memoryId none)
    (fun _ s' => rows s' = rows s ∨ rows s' = Function.update (rows s) memoryId none) s

/-- The upsert of the record raises and is not carried out. -/
def Refuses (client : Client α ω) (rows : ω → String → Option (Row α)) (record : MemoryRecord α) (s : ω) : Prop :=
  ∃ text s', (client.upsert (Row.payload record)).run s = .error text s' ∧ rows s' = rows s

end Client

/-! ## The table -/

section
variable (datetime : String → Option String)

/-- The records that can be read. -/
def tableOf (rows : String → Option (Row α)) : Table α := fun memoryId =>
  (rows memoryId).bind (Row.modelValidate datetime)

/-- The record can be read back from what the table makes of its row. -/
def Survives (kept : Row α → Row α) (record : MemoryRecord α) : Prop :=
  (kept (Row.payload record)).modelValidate datetime = some record

end

section
variable {datetime : String → Option String} {client : Client α ω} {rows : ω → String → Option (Row α)}
  {kept : Row α → Row α}

theorem tableOf_update (entries : String → Option (Row α)) (memoryId : String) (entry : Option (Row α)) :
    tableOf datetime (Function.update entries memoryId entry) =
      Function.update (tableOf datetime entries) memoryId (entry.bind (Row.modelValidate datetime)) := by
  funext other
  unfold tableOf
  rw [Function.update_apply, Function.update_apply]
  split_ifs <;> rfl

/-- Whatever the client does, `store` returns. -/
theorem wp_databaseStore {record : MemoryRecord α} {Q : Unit → ω → Prop} {E : String → ω → Prop} {s : ω} :
    wp ((databaseStorage datetime client).store record) Q E s ↔
      Q () (after (client.upsert (Row.payload record)) s) := by
  unfold databaseStorage
  dsimp only
  rw [wp_tryCatch]
  unfold wp after
  cases (client.upsert (Row.payload record)).run s <;> rfl

/-- The rows behind a call of `store`. -/
theorem rows_stored (hserves : client.Serves rows kept) (record : MemoryRecord α) (s : ω) :
    client.Refuses rows record s ∧ rows (after (client.upsert (Row.payload record)) s) = rows s ∨
      ¬ client.Refuses rows record s ∧ rows (after (client.upsert (Row.payload record)) s) =
        Function.update (rows s) record.memoryId (some (kept (Row.payload record))) := by
  have hupsert := hserves.upsert (Row.payload record) s
  unfold Client.Refuses after
  cases hrun : (client.upsert (Row.payload record)).run s with
  | ok u s' =>
    rw [wp_of_run_ok hrun] at hupsert
    refine .inr ⟨?_, hupsert⟩
    rintro ⟨text, s'', herror, -⟩
    cases herror
  | error text s' =>
    rw [wp_of_run_error hrun] at hupsert
    by_cases hsame : rows s' = rows s
    · exact .inl ⟨⟨text, s', rfl, hsame⟩, hsame⟩
    · refine .inr ⟨?_, hupsert.resolve_left hsame⟩
      rintro ⟨text', s'', herror, hrefused⟩
      cases herror
      exact hsame hrefused

/-- `retrieve` returns what the table has, or nothing if the client raises. -/
theorem wp_databaseRetrieve (hserves : client.Serves rows kept) {memoryId : String}
    {Q : Option (MemoryRecord α) → ω → Prop} {E : String → ω → Prop} {s : ω}
    (hread : ∀ s', rows s' = rows s → Q (tableOf datetime (rows s) memoryId) s')
    (hraise : ∀ text s', (client.select memoryId).run s = .error text s' → rows s' = rows s → Q none s') :
    wp ((databaseStorage datetime client).retrieve memoryId) Q E s := by
  have hselect := hserves.select memoryId s
  unfold databaseStorage
  dsimp only
  unfold ControlPlane.select
  rw [wp_tryCatch, wp_bind]
  cases hrun : (client.select memoryId).run s with
  | error text s' =>
    rw [wp_of_run_error hrun] at hselect ⊢
    exact hraise text s' hrun hselect
  | ok data s' =>
    rw [wp_of_run_ok hrun] at hselect ⊢
    obtain ⟨rfl, hrows⟩ := hselect
    have hnow := hread s' hrows
    cases hrow : rows s memoryId with
    | none =>
      rw [tableOf, hrow] at hnow
      exact hnow
    | some row =>
      rw [tableOf, hrow, Option.bind_some] at hnow
      dsimp only [Option.toList_some]
      cases hfound : row.modelValidate datetime with
      | none =>
        rw [hfound] at hnow
        exact hnow
      | some found =>
        rw [hfound] at hnow
        exact hnow

/-- The database storage keeps a table, if every record can be read back. -/
theorem keyed_databaseStorage (hserves : client.Serves rows kept)
    (hsurvives : ∀ record : MemoryRecord α, Survives datetime kept record) :
    Keyed (databaseStorage datetime client) fun s => tableOf datetime (rows s) where
  store record s := by
    rw [wp_databaseStore]
    rcases rows_stored hserves record s with ⟨-, hrows⟩ | ⟨-, hrows⟩
    · rw [hrows]
      exact .inl rfl
    · rw [hrows, tableOf_update]
      refine .inr (congrArg _ ?_)
      exact hsurvives record
  retrieve memoryId s := by
    refine wp_databaseRetrieve hserves (fun s' hrows => ⟨congrArg _ hrows, fun _ h => h⟩) fun _ s' _ hrows => ?_
    exact ⟨congrArg _ hrows, nofun⟩
  delete memoryId s := by
    unfold databaseStorage
    dsimp only
    rw [wp_tryCatch, wp_bind]
    have hremoved (s' : ω) (h : rows s' = Function.update (rows s) memoryId none) :
        Table.Removed memoryId (tableOf datetime (rows s)) (tableOf datetime (rows s')) := by
      rw [h, tableOf_update]
      exact .inr rfl
    refine wp_mono (hserves.delete memoryId s) (fun data s' hdata => hremoved s' hdata.2) fun _ s' hrows => ?_
    rcases hrows with hsame | hgone
    · exact .inl (congrArg _ hsame)
    · exact hremoved s' hgone

/-- Where the client answers, `retrieve` returns what the table has. -/
theorem answering_databaseStorage (hserves : client.Serves rows kept) :
    Answering (databaseStorage datetime client) (fun s => tableOf datetime (rows s))
      fun memoryId s => ∃ data s', (client.select memoryId).run s = .ok data s' := by
  rintro memoryId s ⟨data, s', hrun⟩
  refine wp_databaseRetrieve hserves (fun _ _ => rfl) fun text s'' herror _ => ?_
  cases hrun.symm.trans herror

/-- Whatever the client does, `retrieve` returns. -/
theorem not_retrieveRaises_database (memoryId : String) (w : World ω) :
    ¬ RetrieveRaises (databaseStorage datetime client) memoryId w := by
  rintro ⟨text, s, hrun⟩
  have hreturns : wp ((databaseStorage datetime client).retrieve memoryId) (fun _ _ => True) (fun _ _ => False)
      w.storage := by
    unfold databaseStorage
    dsimp only
    rw [wp_tryCatch]
    apply wp_cases
    · exact fun _ _ _ => trivial
    · exact fun _ _ _ => trivial
  exact (wp_of_run_error hrun).mp hreturns

end

/-! ## What a stored record is said to be -/

namespace Experience

/-- `_store_and_audit` of the experience engine. -/
def storeAndAudit {τ : Type} (sink : Sink) (storage : Storage α τ) (record : MemoryRecord α)
    (operationId agentId : String) : EStateM Raised (World τ) (MemoryRecord α) :=
  tryCatch (do
    Kernel.store storage record
    emit sink (buildRecord .memoryStore operationId agentId .completed record.memoryId .success
      [("source", .text "experience_engine"), ("memory_type", .text "episodic")])
    return record) fun exc => do
      emit sink (buildRecord .memoryStore operationId agentId .failed record.memoryId .failure
        [("source", .text "experience_engine"), ("error", .text (Forgetting.textOf exc))])
      throw exc

end Experience

/-- The record says that a memory has been stored. -/
def SaysStored (event : AuditRecord) : Prop :=
  event.eventType = .memoryStore ∧ event.action = .completed ∧ event.result = .success

/-- If the call says that the memory has been stored, the storage holds it. -/
def Honest (table : ω → Table α) (record : MemoryRecord α) (w w' : World ω) : Prop :=
  ∀ more, w'.audit = w.audit ++ more → (∃ event ∈ more, SaysStored event) →
    table w'.storage record.memoryId = some record

/-- The upsert is refused and the table holds the record already, or it is carried out and the record can be read
back. -/
def Lasts (datetime : String → Option String) (client : Client α ω) (rows : ω → String → Option (Row α))
    (kept : Row α → Row α) (record : MemoryRecord α) (s : ω) : Prop :=
  (client.Refuses rows record s → tableOf datetime (rows s) record.memoryId = some record) ∧
    (¬ client.Refuses rows record s → Survives datetime kept record)

section
variable {datetime : String → Option String} {client : Client α ω} {rows : ω → String → Option (Row α)}
  {kept : Row α → Row α} {table : ω → Table α} {record : MemoryRecord α} {w : World ω}

/-- A call that says nothing, or something else. -/
theorem honest_of_silent {w' : World ω} {more : List AuditRecord} (haudit : w'.audit = w.audit ++ more)
    (hmore : ∀ event ∈ more, ¬ SaysStored event) : Honest table record w w' := by
  intro more' hmore' hevent
  obtain rfl := List.append_cancel_left (haudit.symm.trans hmore')
  obtain ⟨event, hmem, hclaims⟩ := hevent
  exact absurd hclaims (hmore event hmem)

theorem wp_kernelStore {Q : Unit → World ω → Prop} {E : Raised → World ω → Prop}
    (hreturn : record.validationStatus = .validated → ∀ w',
      w'.storage = after (client.upsert (Row.payload record)) w.storage → w'.audit = w.audit → Q () w')
    (hraise : record.validationStatus ≠ .validated → ∀ e, E e w) :
    wp (Kernel.store (databaseStorage datetime client) record) Q E w := by
  unfold Kernel.store Kernel.validate
  rw [if_neg record.memoryId.2, if_neg record.operationId.2, if_neg record.agentId.2]
  by_cases hvalid : record.validationStatus = .validated
  · rw [hvalid, if_neg (by decide), wp_bind, wp_pure, hvalid, if_neg (by decide), World.wp_touch, wp_databaseStore]
    exact hreturn hvalid _ rfl rfl
  · simp only [wp_bind, wp_ite, wp_throw, wp_pure]
    exact ⟨fun _ => hraise hvalid _, fun _ => ⟨fun _ => hraise hvalid _, fun h => absurd h (not_not.mpr hvalid)⟩⟩

theorem table_stored_iff (hserves : client.Serves rows kept) (record : MemoryRecord α) (s : ω) :
    tableOf datetime (rows (after (client.upsert (Row.payload record)) s)) record.memoryId = some record ↔
      Lasts datetime client rows kept record s := by
  unfold Lasts
  rcases rows_stored hserves record s with ⟨hrefused, hrows⟩ | ⟨htaken, hrows⟩
  · rw [hrows]
    exact ⟨fun h => ⟨fun _ => h, fun htaken => absurd hrefused htaken⟩, fun h => h.1 hrefused⟩
  · rw [hrows, tableOf_update, Function.update_self]
    exact ⟨fun h => ⟨fun hrefused => absurd hrefused htaken, fun _ => h⟩, fun h => h.2 htaken⟩

/-- A call that says that the memory has been stored. -/
theorem honest_noted_iff (hserves : client.Serves rows kept) {w' : World ω} {earlier : List AuditRecord}
    {event : AuditRecord} (hstorage : w'.storage = after (client.upsert (Row.payload record)) w.storage)
    (haudit : w'.audit = w.audit ++ earlier) (hclaims : SaysStored event) :
    Honest (fun s => tableOf datetime (rows s)) record w (w'.noted event) ↔
      Lasts datetime client rows kept record w.storage := by
  have hnoted : (w'.noted event).audit = w.audit ++ (earlier ++ [event]) := by
    rw [← List.append_assoc, ← haudit]
    rfl
  rw [← table_stored_iff hserves, ← hstorage]
  refine ⟨fun h => h _ hnoted ⟨event, ?_, hclaims⟩, fun h _ _ _ => h⟩
  exact List.mem_append_right _ (List.mem_singleton_self event)

/-- A record with an empty text is not built, so that its sink gets nothing. -/
theorem wp_emit_emptyId {τ : Type} {sink : Sink} {eventType : AuditEventType} {operationId agentId resource : String}
    {action : AuditAction} {result : AuditResult} {metadata : List (String × MetaValue)} {Q : Unit → World τ → Prop}
    {E : Raised → World τ → Prop} {w : World τ} (hids : ¬ (operationId ≠ "" ∧ agentId ≠ "" ∧ resource ≠ ""))
    (hraise : ∀ e, E e w) :
    wp (emit sink (buildRecord eventType operationId agentId action resource result metadata)) Q E w := by
  unfold buildRecord
  rw [dif_neg hids]
  exact hraise _

/-- Whatever is emitted that does not say that the memory is stored, there is nothing to be honest about. -/
theorem wp_emit_silent {eventType : AuditEventType} {operationId agentId resource : String} {action : AuditAction}
    {result : AuditResult} {metadata : List (String × MetaValue)} {P : World ω → Prop} {E : Raised → World ω → Prop}
    {w' : World ω} (haudit : w'.audit = w.audit) (haction : action ≠ .completed)
    (hP : ∀ w', Honest table record w w' → P w') (hE : ∀ e w', Honest table record w w' → E e w') :
    wp (emit quiet (buildRecord eventType operationId agentId action resource result metadata)) (fun _ w' => P w') E
      w' := by
  by_cases hids : operationId ≠ "" ∧ agentId ≠ "" ∧ resource ≠ ""
  · rw [wp_emit_quiet hids.1 hids.2.1 hids.2.2]
    refine hP _ (honest_of_silent (congrArg (· ++ [_]) haudit) fun event hevent hclaims => ?_)
    rw [List.mem_singleton.mp hevent] at hclaims
    exact haction hclaims.2.1
  · refine wp_emit_emptyId hids fun e => hE e w' (@honest_of_silent _ _ table record w w' [] ?_ nofun)
    rw [haudit, List.append_nil]

/-- **The experience engine** tells the truth about a stored record just when what has become of the record lasts;
nothing is at stake when the call does not get that far. -/
theorem storeAndAudit_honest_iff (hserves : client.Serves rows kept) (record : MemoryRecord α)
    (operationId agentId : String) (w : World ω) :
    Honest (fun s => tableOf datetime (rows s)) record w
        (after (Experience.storeAndAudit quiet (databaseStorage datetime client) record operationId agentId) w) ↔
      (operationId ≠ "" → agentId ≠ "" → record.validationStatus = .validated →
        Lasts datetime client rows kept record w.storage) := by
  refine @after_of_wp _ _ _ w
    (Experience.storeAndAudit quiet (databaseStorage datetime client) record operationId agentId)
    (fun w' => Honest (fun s => tableOf datetime (rows s)) record w w' ↔ _) ?_
  unfold Experience.storeAndAudit
  rw [wp_tryCatch, wp_bind]
  apply wp_kernelStore
  · intro hvalid w' hstorage haudit
    rw [wp_bind]
    by_cases hids : operationId ≠ "" ∧ agentId ≠ ""
    · rw [wp_emit_quiet hids.1 hids.2 record.memoryId.2, wp_pure,
        honest_noted_iff hserves hstorage (haudit.trans (List.append_nil _).symm) ⟨rfl, rfl, rfl⟩]
      exact ⟨fun h _ _ _ => h, fun h => h hids.1 hids.2 hvalid⟩
    · have hcond (C : Prop) : operationId ≠ "" → agentId ≠ "" → C := fun h₁ h₂ => absurd ⟨h₁, h₂⟩ hids
      refine wp_emit_emptyId (fun h => hids ⟨h.1, h.2.1⟩) fun e => ?_
      rw [wp_bind]
      exact wp_emit_silent haudit (by decide) (fun _ h => iff_of_true h (hcond _)) fun _ _ h => iff_of_true h (hcond _)
  · intro hinvalid e
    rw [wp_bind]
    have hcond (C : Prop) : operationId ≠ "" → agentId ≠ "" → record.validationStatus = .validated → C :=
      fun _ _ h => absurd h hinvalid
    exact wp_emit_silent rfl (by decide) (fun _ h => iff_of_true h (hcond _)) fun _ _ h => iff_of_true h (hcond _)

/-- **The gateway**, in the same way, for an agent that may store. -/
theorem gatewayStore_honest_iff (hserves : client.Serves rows kept) (registry : Registry) (permissions : Permissions)
    (agentId : String) (record : MemoryRecord α) (operationId : String) (w : World ω) :
    Honest (fun s => tableOf datetime (rows s)) record w
        (after (Gateway.store quiet registry permissions (databaseStorage datetime client) agentId record operationId)
          w) ↔
      (Gateway.Authorized registry permissions agentId .memoryStore → operationId ≠ "" →
        record.validationStatus = .validated → Lasts datetime client rows kept record w.storage) := by
  refine @after_of_wp _ _ _ w
    (Gateway.store quiet registry permissions (databaseStorage datetime client) agentId record operationId)
    (fun w' => Honest (fun s => tableOf datetime (rows s)) record w w' ↔ _) ?_
  unfold Gateway.store Gateway.attempt
  rw [wp_bind]
  apply Gateway.wp_authorize
  · intro hauthorized
    have hagent : agentId ≠ "" := hauthorized.agentId_ne
    rw [wp_bind]
    unfold Gateway.audit
    by_cases hoperation : operationId = ""
    · refine wp_emit_emptyId (fun h => h.1 hoperation) fun e => iff_of_true ?_ fun _ h => absurd hoperation h
      exact honest_of_silent (List.append_nil _).symm nofun
    · have hclaims : SaysStored (Gateway.recordOf .memoryStore ⟨operationId, hoperation⟩ ⟨agentId, hagent⟩
          record.memoryId .completed .success) := ⟨rfl, rfl, rfl⟩
      rw [wp_emit_quiet hoperation hagent record.memoryId.2]
      unfold Gateway.reach
      simp only [wp_bind, wp_modify, wp_tryCatch, wp_throw, wp_pure]
      apply wp_kernelStore
      · intro hvalid w' hstorage haudit
        rw [wp_emit_quiet hoperation hagent record.memoryId.2]
        have haudit' : w'.audit = w.audit ++ [Gateway.recordOf .memoryStore ⟨operationId, hoperation⟩
          ⟨agentId, hagent⟩ record.memoryId .requested .success] := haudit
        have hstorage' : w'.storage = after (client.upsert (Row.payload record)) w.storage := hstorage
        refine (honest_noted_iff hserves hstorage' haudit' hclaims).trans ?_
        exact ⟨fun h _ _ _ => h, fun h => h hauthorized hoperation hvalid⟩
      · intro hinvalid e
        rw [wp_emit_quiet hoperation hagent record.memoryId.2]
        refine iff_of_true ?_ fun _ _ h => absurd h hinvalid
        refine @honest_of_silent _ _ _ record w _ [Gateway.recordOf .memoryStore ⟨operationId, hoperation⟩
          ⟨agentId, hagent⟩ record.memoryId .requested .success, Gateway.recordOf .memoryStore
          ⟨operationId, hoperation⟩ ⟨agentId, hagent⟩ record.memoryId .failed .failure] (List.append_assoc ..) ?_
        intro event hevent hclaims'
        rcases List.mem_pair.mp hevent with rfl | rfl
        · cases hclaims'.2.1
        · cases hclaims'.2.1
  · intro hdenied
    have hcond (C : Prop) : Gateway.Authorized registry permissions agentId .memoryStore → C :=
      fun h => absurd h hdenied
    exact wp_emit_silent rfl (by decide) (fun _ h e => iff_of_true h (hcond _)) fun _ _ h => iff_of_true h (hcond _)

/-- Both, for every client that serves a table. -/
theorem stores_honest_iff (hserves : client.Serves rows kept) (record : MemoryRecord α) (operationId agentId : String)
    (w : World ω) :
    (∀ registry permissions, Honest (fun s => tableOf datetime (rows s)) record w
        (after (Gateway.store quiet registry permissions (databaseStorage datetime client) agentId record operationId)
          w) ↔
      (Gateway.Authorized registry permissions agentId .memoryStore → operationId ≠ "" →
        record.validationStatus = .validated → Lasts datetime client rows kept record w.storage)) ∧
    (Honest (fun s => tableOf datetime (rows s)) record w
        (after (Experience.storeAndAudit quiet (databaseStorage datetime client) record operationId agentId) w) ↔
      (operationId ≠ "" → agentId ≠ "" → record.validationStatus = .validated →
        Lasts datetime client rows kept record w.storage)) :=
  ⟨fun registry permissions => gatewayStore_honest_iff hserves registry permissions agentId record operationId w,
    storeAndAudit_honest_iff hserves record operationId agentId w⟩

end

/-! ### A table, and a client that is let down -/

/-- `lost` : the request is carried out, and the client raises all the same; `refused` : it raises, and nothing is
done. -/
inductive Reply
  | answered
  | lost
  | refused
  deriving DecidableEq

/-- The rows, and how many requests there have been. -/
structure Database (α : Type) where
  rows : Dict String (Row α)
  requests : Nat

namespace Database
variable {β : Type} (replies : Nat → Reply)

/-- Each request is ended as `replies` has it. -/
def execute (request : Dict String (Row α) → β × Dict String (Row α)) : EStateM String (Database α) β := fun db =>
  let (data, rows) := request db.rows
  match replies db.requests with
  | .answered => .ok data ⟨rows, db.requests + 1⟩
  | .lost => .error "no response" ⟨rows, db.requests + 1⟩
  | .refused => .error "refused" ⟨db.rows, db.requests + 1⟩

/-- A client of rows that are left as they are. -/
def client : Client α (Database α) where
  upsert row := execute replies fun rows => ((), rows.set row.memoryId row)
  select memoryId := execute replies fun rows => ((rows.get? memoryId).toList, rows)
  delete memoryId := execute replies fun rows => ((rows.get? memoryId).toList, rows.erase memoryId)

/-- The row of an id. -/
def entries (db : Database α) : String → Option (Row α) := db.rows.get?

/-- The records, with `created_at` as it is written. -/
def table (db : Database α) : Table α := tableOf some db.entries

variable {replies}

theorem wp_execute {request : Dict String (Row α) → β × Dict String (Row α)} {Q : β → Database α → Prop}
    {E : String → Database α → Prop} {db : Database α} :
    wp (execute replies request) Q E db ↔
      match replies db.requests with
      | .answered => Q (request db.rows).1 ⟨(request db.rows).2, db.requests + 1⟩
      | .lost => E "no response" ⟨(request db.rows).2, db.requests + 1⟩
      | .refused => E "refused" ⟨db.rows, db.requests + 1⟩ := by
  unfold wp execute
  dsimp only [EStateM.run]
  cases replies db.requests <;> rfl

theorem entries_set (rows : Dict String (Row α)) (row : Row α) (n : Nat) :
    (⟨rows.set row.memoryId row, n⟩ : Database α).entries =
      Function.update (⟨rows, n⟩ : Database α).entries row.memoryId (some row) := by
  funext memoryId
  rw [entries, Dict.get?_set, Function.update_apply]
  rfl

theorem entries_erase (rows : Dict String (Row α)) (memoryId : String) (n : Nat) :
    (⟨rows.erase memoryId, n⟩ : Database α).entries =
      Function.update (⟨rows, n⟩ : Database α).entries memoryId none := by
  funext other
  rw [entries, Dict.get?_erase, Function.update_apply]
  rfl

theorem serves_client (replies : Nat → Reply) :
    (client replies : Client α (Database α)).Serves entries id where
  upsert row db := by
    unfold client
    dsimp only
    rw [wp_execute]
    cases replies db.requests with
    | answered => exact entries_set db.rows row _
    | lost => exact .inr (entries_set db.rows row _)
    | refused => exact .inl rfl
  select memoryId db := by
    unfold client
    dsimp only
    rw [wp_execute]
    cases replies db.requests with
    | answered => exact ⟨rfl, rfl⟩
    | lost => rfl
    | refused => rfl
  delete memoryId db := by
    unfold client
    dsimp only
    rw [wp_execute]
    cases replies db.requests with
    | answered => exact ⟨rfl, entries_erase db.rows memoryId _⟩
    | lost => exact .inr (entries_erase db.rows memoryId _)
    | refused => exact .inl rfl

end Database

/-- The storage over a table whose client always gets an answer. -/
def answeringStorage : Storage α (Database α) := databaseStorage some (Database.client fun _ => .answered)

theorem keyed_answeringStorage : Keyed (answeringStorage : Storage α (Database α)) Database.table :=
  keyed_databaseStorage (Database.serves_client _) fun _ => Row.modelValidate_payload rfl

/-- It answers every lookup. -/
theorem answering_answeringStorage :
    Answering (answeringStorage : Storage α (Database α)) Database.table fun _ _ => True :=
  fun memoryId s _ => answering_databaseStorage (Database.serves_client _) memoryId s ⟨_, _, rfl⟩

/-- An empty table. -/
def emptyDatabase : World (Database Unit) := ⟨⟨.empty, 0⟩, [], [], []⟩

def lesson : MemoryRecord Unit :=
  ⟨⟨"mem-1", memory_ne⟩, .episodic, "2026-01-01T00:00:00+00:00", (), [], .validated, ⟨"op-1", operation_ne⟩,
    ⟨"momentum", momentum_ne⟩⟩

/-- `momentum` may store. -/
def mayStore : Permissions := Permissions.grant .empty ⟨⟨"momentum", momentum_ne⟩, [.memoryStore]⟩

theorem answered_honest :
    Honest Database.table lesson emptyDatabase (after (Gateway.store quiet Gateway.oneAgent mayStore answeringStorage
        "momentum" lesson "op-1") emptyDatabase) ∧
      Honest Database.table lesson emptyDatabase (after (Experience.storeAndAudit quiet answeringStorage lesson "op-1"
        "momentum") emptyDatabase) := by
  have hlasts : Lasts some (Database.client fun _ => .answered) Database.entries id lesson emptyDatabase.storage := by
    refine ⟨?_, fun _ => Row.modelValidate_payload rfl⟩
    rintro ⟨text, s, hrun, -⟩
    cases hrun
  obtain ⟨hgateway, hengine⟩ :=
    stores_honest_iff (Database.serves_client fun _ => .answered) lesson "op-1" "momentum" emptyDatabase
  exact ⟨(hgateway Gateway.oneAgent mayStore).mpr fun _ _ _ => hlasts, hengine.mpr fun _ _ _ => hlasts⟩

/-- Neither the gateway nor the experience engine is honest about a request that the client refuses. -/
theorem refused_dishonest :
    ¬ Honest Database.table lesson emptyDatabase (after (Gateway.store quiet Gateway.oneAgent mayStore
        (databaseStorage some (Database.client fun _ => .refused)) "momentum" lesson "op-1") emptyDatabase) ∧
      ¬ Honest Database.table lesson emptyDatabase (after (Experience.storeAndAudit quiet
        (databaseStorage some (Database.client fun _ => .refused)) lesson "op-1" "momentum") emptyDatabase) := by
  have hserves := @Database.serves_client Unit fun _ => .refused
  have hstatus : Gateway.oneAgent.status? "momentum" = some .ready := rfl
  have hauthorized : Gateway.Authorized Gateway.oneAgent mayStore "momentum" .memoryStore :=
    ⟨⟨.ready, by decide, hstatus⟩, _, rfl, by decide⟩
  have hfails : ¬ Lasts some (Database.client fun _ => .refused) Database.entries id lesson emptyDatabase.storage := by
    intro h
    cases h.1 ⟨_, _, rfl, rfl⟩
  constructor
  · intro h
    have hgateway := (gatewayStore_honest_iff hserves Gateway.oneAgent mayStore "momentum" lesson "op-1" _).mp h
    exact hfails (hgateway hauthorized (by decide) rfl)
  · intro h
    have hengine := (storeAndAudit_honest_iff hserves lesson "op-1" "momentum" _).mp h
    exact hfails (hengine (by decide) (by decide) rfl)

end Atlas.ControlPlane
