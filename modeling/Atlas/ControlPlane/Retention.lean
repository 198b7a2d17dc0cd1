import Atlas.ControlPlane.Expiry

/-!
# What becomes of protected memory

Semantic and procedural records over whole runs of the calls that come to a storage.

* `Consolidation.consolidate` : `consolidation/engine.py`;
* `MemoryCall` : a call of the gateway, of the kernel, or of an engine;
* `Forgets`, `Writes` : the calls that may end a record, by the policy or by an upsert;
* `Retrievable` : a lookup that the storage answers returns the record;
* `fate_of_call`, `protected_retained` : a stored record stays retrievable as it is until one of them.
-/

namespace Atlas.ControlPlane
open Raising
open Atlas.Memory (MemoryType)

variable {α τ : Type}

/-! ## Consolidation -/

/-- How Python makes a value of a text and of a dict. -/
structure Values (α : Type) where
  text : String → α
  dict : List (String × α) → α

namespace Consolidation

/-- The semantic record about an episode. -/
def consolidated (values : Values α) (source : MemoryRecord α) (createdAt : String) (operationId agentId : Id) :
    MemoryRecord α where
  memoryId := ⟨"semantic:" ++ source.memoryId, by simp⟩
  memoryType := .semantic
  createdAt := createdAt
  content := values.dict [("source_memory_id", values.text source.memoryId), ("knowledge", source.content)]
  metadata := [("consolidated_from", values.text source.memoryId),
    ("source_memory_type", values.text (Forgetting.typeValue source.memoryType))]
  validationStatus := .validated
  operationId := operationId
  agentId := agentId

def consolidate (values : Values α) (storage : Storage α τ) (source : MemoryRecord α)
    (createdAt operationId agentId : String) : EStateM Raised (World τ) (MemoryRecord α) :=
  if source.memoryType ≠ .episodic then throw (.valueError "Consolidation requires episodic source memory.")
  else if source.validationStatus ≠ .validated then
    throw (.valueError "Only validated episodic memory may be consolidated.")
  else if hoperation : operationId = "" then throw (.valueError "operation_id must not be empty.")
  else if hagent : agentId = "" then throw (.valueError "agent_id must not be empty.")
  else do
    let record := consolidated values source createdAt ⟨operationId, hoperation⟩ ⟨agentId, hagent⟩
    Kernel.store storage record
    return record

end Consolidation

/-! ## Calls -/

/-- A call by some agent, with the sink, the registry and the permissions that it finds. -/
inductive MemoryCall (α : Type)
  | gateway (sink : Sink) (registry : Registry) (permissions : Permissions) (call : GatewayCall α)
  | kernelStore (record : MemoryRecord α)
  | consolidate (source : MemoryRecord α) (createdAt operationId agentId : String)
  | forget (sink : Sink) (memoryId operationId agentId : String) (explicitPolicyId : Option String) (automatic : Bool)
  | forgetIfExpired (sink : Sink) (now : DateTime) (memoryId operationId agentId : String)

namespace MemoryCall

section
variable (values : Values α) (text? : α → Option String) (fromisoformat : String → Option DateTime)

def run (storage : Storage α τ) : MemoryCall α → EStateM Raised (World τ) Unit
  | gateway sink registry permissions call => call.run sink registry permissions storage
  | kernelStore record => Kernel.store storage record
  | consolidate source createdAt operationId agentId => do
    let _ ← Consolidation.consolidate values storage source createdAt operationId agentId
  | forget sink memoryId operationId agentId explicitPolicyId automatic => do
    let _ ← Forgetting.forget storage sink memoryId operationId agentId explicitPolicyId automatic
  | forgetIfExpired sink now memoryId operationId agentId => do
    let _ ← Forgetting.forgetIfExpiredWorkingMemory text? fromisoformat now storage sink memoryId operationId agentId

/-- One call after the other, whichever way they end. -/
def runAll (storage : Storage α τ) (calls : List (MemoryCall α)) (w : World τ) : World τ :=
  calls.foldl (fun w call => after (call.run values text? fromisoformat storage) w) w

/-- A call to forget the record, which the policy check lets through. -/
def Forgets (record : MemoryRecord α) : MemoryCall α → Prop
  | gateway _ registry permissions (.forget agentId memoryId _ explicitPolicyId) =>
    Gateway.Authorized registry permissions agentId .memoryForget ∧ memoryId = record.memoryId ∧
      (Forgetting.isForgettingAllowed record explicitPolicyId false).1 = true
  | forget _ memoryId _ _ explicitPolicyId automatic =>
    memoryId = record.memoryId ∧ (Forgetting.isForgettingAllowed record explicitPolicyId automatic).1 = true
  | _ => False

/-- A call that puts the record under its id. -/
inductive Writes (record : MemoryRecord α) : MemoryCall α → Prop
  | gateway (sink : Sink) {registry : Registry} {permissions : Permissions} {agentId : String} (operationId : String) :
    Gateway.Authorized registry permissions agentId .memoryStore → record.validationStatus = .validated →
      Writes record (.gateway sink registry permissions (.store agentId record operationId))
  | kernel : record.validationStatus = .validated → Writes record (.kernelStore record)
  | consolidation {source : MemoryRecord α} {createdAt : String} {operationId agentId : Id} :
    source.memoryType = .episodic → source.validationStatus = .validated →
      record = Consolidation.consolidated values source createdAt operationId agentId →
      Writes record (.consolidate source createdAt operationId agentId)

/-- What a call makes of a stored record: it is there as before; or forgotten; or replaced by another under its id. -/
def Fate (call : MemoryCall α) (record : MemoryRecord α) (entry : Option (MemoryRecord α)) : Prop :=
  entry = some record ∨ call.Forgets record ∧ entry = none ∨
    ∃ other, call.Writes values other ∧ other.memoryId = record.memoryId ∧ entry = some other

end

end MemoryCall

/-! ## The storage behind a call -/

section
variable {storage : Storage α τ} {w : World τ}

theorem wp_kernelStore_storage {P : τ → Prop} {record : MemoryRecord α} (h : P w.storage)
    (hstore : record.validationStatus = .validated → wp (storage.store record) (fun _ => P) (fun _ => P) w.storage) :
    wp (Kernel.store storage record) (fun _ w' => P w'.storage) (fun _ w' => P w'.storage) w := by
  unfold Kernel.store Kernel.validate
  rw [if_neg record.memoryId.2, if_neg record.operationId.2, if_neg record.agentId.2]
  simp only [wp_bind, wp_ite, wp_throw, wp_pure]
  refine ⟨fun _ => h, fun _ => ⟨fun _ => h, fun hvalid => ?_⟩⟩
  rw [World.wp_touch]
  exact hstore (not_not.mp hvalid)

theorem wp_audit_storage (P : τ → Prop) {β : Type} {sink : Sink} {capability : Capability} {action : AuditAction}
    {result : AuditResult} {operationId agentId resource : String} {next : EStateM Raised (World τ) β}
    {Q : β → World τ → Prop} (h : P w.storage)
    (hnext : ∀ w', w'.storage = w.storage → wp next Q (fun _ w' => P w'.storage) w') :
    wp (Gateway.audit sink capability action result operationId agentId resource >>= fun _ => next) Q
      (fun _ w' => P w'.storage) w := by
  have hkeeps : Keeps World.storage (Gateway.audit sink capability action result operationId agentId resource :
      EStateM Raised (World τ) Unit) := keeps_emit (fun _ _ => rfl) sink _
  rw [wp_bind]
  exact wp_mono (hkeeps w) (fun _ w' => hnext w') fun _ w' hw' => by rwa [hw']

theorem wp_authorize_storage (P : τ → Prop) {sink : Sink} {registry : Registry} {permissions : Permissions}
    {agentId operationId resource : String} {capability : Capability} {Q : Unit → World τ → Prop}
    (h : P w.storage) (hreturn : Gateway.Authorized registry permissions agentId capability → Q () w) :
    wp (Gateway.authorize sink registry permissions agentId capability operationId resource) Q
      (fun _ w' => P w'.storage) w := by
  refine Gateway.wp_authorize hreturn fun _ => ?_
  have hkeeps : Keeps World.storage (Gateway.audit sink capability .failed .failure operationId agentId resource :
      EStateM Raised (World τ) Unit) := keeps_emit (fun _ _ => rfl) sink _
  exact wp_mono (hkeeps w) (fun _ w' hw' _ => by rwa [hw']) fun _ w' hw' => by rwa [hw']

/-- The gateway lets the engine have its way with the storage, for an authorized agent. -/
theorem wp_attempt_storage (P : τ → Prop) {β : Type} {sink : Sink} {registry : Registry} {permissions : Permissions}
    {agentId operationId resource : String} {capability : Capability} {engine : EStateM Raised (World τ) β}
    (h : P w.storage) (hengine : Gateway.Authorized registry permissions agentId capability → ∀ w',
      w'.storage = w.storage → wp engine (fun _ w' => P w'.storage) (fun _ w' => P w'.storage) w') :
    wp (Gateway.attempt sink registry permissions agentId capability operationId resource engine)
      (fun _ w' => P w'.storage) (fun _ w' => P w'.storage) w := by
  unfold Gateway.attempt
  rw [wp_bind]
  refine wp_authorize_storage P h fun hauthorized => wp_audit_storage P h fun w' hw' => ?_
  rw [Gateway.reach, wp_bind, wp_modify, wp_bind, wp_tryCatch]
  refine wp_mono (hengine hauthorized _ hw') (fun b w'' hw'' => ?_) fun e w'' hw'' => ?_
  · refine wp_audit_storage P hw'' fun w₃ hw₃ => ?_
    rwa [wp_pure, hw₃]
  · refine wp_audit_storage P hw'' fun w₃ hw₃ => ?_
    rwa [wp_throw, hw₃]

end

/-! ## One call -/

section
variable {storage : Storage α τ} {table : τ → Table α} {record : MemoryRecord α} {w : World τ}

/-- A call to forget leaves the record alone, unless it is one that the policy check lets through. -/
theorem leaves_of_keyed (hkeyed : Keyed storage table) {memoryId : String} {explicitPolicyId : Option String}
    {automatic : Bool} {P : Option (MemoryRecord α) → Prop} {s : τ} (hstored : table s record.memoryId = some record)
    (hkept : P (some record)) (hgone : memoryId = record.memoryId →
      (Forgetting.isForgettingAllowed record explicitPolicyId automatic).1 = true → P none) :
    Forgetting.Leaves storage memoryId explicitPolicyId automatic (fun s' => P (table s' record.memoryId)) s := by
  have hkept' (s' : τ) (hsame : table s' = table s) : P (table s' record.memoryId) := by
    rw [hsame, hstored]
    exact hkept
  refine wp_mono (hkeyed.retrieve memoryId s) (fun found s' hread => ?_) fun _ s' hsame => hkept' s' hsame
  refine ⟨fun _ => hkept' s' hread.1, fun record' hfound => ⟨fun _ => hkept' s' hread.1, fun hallowed => ?_⟩⟩
  have hremoved (s'' : τ) (h : Table.Removed memoryId (table s') (table s'')) : P (table s'' record.memoryId) := by
    rcases h with hsame | hremoved
    · exact hkept' s'' (hsame.trans hread.1)
    · rw [hremoved, hread.1, Function.update_apply]
      by_cases hid : record.memoryId.val = memoryId
      · rw [if_pos hid]
        refine hgone hid.symm ?_
        have hrecord := hread.2 record' hfound
        rw [← hid, hstored] at hrecord
        rwa [Option.some.inj hrecord]
      · rw [if_neg hid, hstored]
        exact hkept
  exact wp_mono (hkeyed.delete memoryId s') (fun _ s'' => hremoved s'') fun _ s'' => hremoved s''

/-- A store leaves the record alone, unless it is one under its id. -/
theorem store_of_keyed (hkeyed : Keyed storage table) {other : MemoryRecord α} {P : Option (MemoryRecord α) → Prop}
    {s : τ} (hstored : table s record.memoryId = some record) (hkept : P (some record))
    (hreplaced : other.memoryId = record.memoryId → P (some other)) :
    wp (storage.store other) (fun _ s' => P (table s' record.memoryId)) (fun _ s' => P (table s' record.memoryId))
      s := by
  have hupserted (s' : τ) (h : Table.Upserted other (table s) (table s')) : P (table s' record.memoryId) := by
    rcases h with hsame | hupserted
    · rw [hsame, hstored]
      exact hkept
    · rw [hupserted, Function.update_apply]
      by_cases hid : record.memoryId.val = other.memoryId
      · rw [if_pos hid]
        exact hreplaced (Subtype.ext hid.symm)
      · rw [if_neg hid, hstored]
        exact hkept
  exact wp_mono (hkeyed.store other s) (fun _ s' => hupserted s') fun _ s' => hupserted s'

/-- A call to forget, by its ids: with an empty one, it does not come to the storage. -/
theorem wp_forget_of_leaves {sink : Sink} {memoryId operationId agentId : String} {explicitPolicyId : Option String}
    {automatic : Bool} {P : τ → Prop} (h : P w.storage)
    (hleaves : Forgetting.Leaves storage memoryId explicitPolicyId automatic P w.storage) :
    wp (Forgetting.forget storage sink memoryId operationId agentId explicitPolicyId automatic)
      (fun _ w' => P w'.storage) (fun _ w' => P w'.storage) w := by
  by_cases hids : memoryId ≠ "" ∧ operationId ≠ "" ∧ agentId ≠ ""
  · exact (Forgetting.wp_forget_storage hids.1 hids.2.1 hids.2.2).mpr hleaves
  · unfold Forgetting.forget Forgetting.validateRequired
    simp only [wp_bind, wp_ite, wp_throw, wp_pure]
    exact ⟨fun _ => h, fun hmemory => ⟨fun _ => h, fun hoperation => ⟨fun _ => h, fun hagent =>
      absurd ⟨hmemory, hoperation, hagent⟩ hids⟩⟩⟩

theorem wp_retrieve_of_keyed (hkeyed : Keyed storage table) {memoryId : String} {P : Table α → Prop}
    (h : P (table w.storage)) :
    wp (Retrieval.retrieve storage memoryId) (fun _ w' => P (table w'.storage)) (fun _ w' => P (table w'.storage))
      w := by
  unfold Retrieval.retrieve
  rw [wp_ite, wp_bind, World.wp_touch]
  refine ⟨fun _ => h, fun _ => ?_⟩
  refine wp_mono (hkeyed.retrieve memoryId w.storage) (fun found s hread => ?_) fun _ s hsame => by rwa [hsame]
  have hs : P (table s) := by rwa [hread.1]
  cases found with
  | none => exact hs
  | some record =>
    rw [wp_ite]
    exact ⟨fun _ => hs, fun _ => hs⟩

/-- Protected memory. -/
def MemoryRecord.Protected (record : MemoryRecord α) : Prop :=
  record.memoryType = .semantic ∨ record.memoryType = .procedural

variable {values : Values α} {text? : α → Option String} {fromisoformat : String → Option DateTime}

/-- A call to forget what has expired comes to forgetting with a working record under the id. -/
theorem wp_forgetIfExpired_of_keyed (hkeyed : Keyed storage table) {now : DateTime} {sink : Sink}
    {memoryId operationId agentId : String} {P : Table α → Prop} (h : P (table w.storage))
    (hworking : ∀ s found, table s = table w.storage → table s memoryId = some found → found.memoryType = .working →
      Forgetting.Leaves storage memoryId (some Forgetting.policyId) true (fun s' => P (table s')) s) :
    wp (Forgetting.forgetIfExpiredWorkingMemory text? fromisoformat now storage sink memoryId operationId agentId)
      (fun _ w' => P (table w'.storage)) (fun _ w' => P (table w'.storage)) w := by
  by_cases hids : memoryId ≠ "" ∧ operationId ≠ "" ∧ agentId ≠ ""
  · refine (@Forgetting.wp_forgetIfExpired_storage _ _ storage sink memoryId operationId agentId
      (fun s => P (table s)) w text? fromisoformat now hids.1 hids.2.1 hids.2.2).mpr ?_
    refine wp_mono (hkeyed.retrieve memoryId w.storage) (fun found s hread => ?_) fun _ s hsame => hsame ▸ h
    refine ⟨fun _ => hread.1 ▸ h, fun record hfound hexpired => hworking s record hread.1 ?_ hexpired.1⟩
    rw [hread.1]
    exact hread.2 record hfound
  · unfold Forgetting.forgetIfExpiredWorkingMemory Forgetting.validateRequired
    simp only [wp_bind, wp_ite, wp_throw, wp_pure]
    exact ⟨fun _ => h, fun hmemory => ⟨fun _ => h, fun hoperation => ⟨fun _ => h, fun hagent =>
      absurd ⟨hmemory, hoperation, hagent⟩ hids⟩⟩⟩

/-- **One call**: a protected record stays, or is forgotten as the policy allows, or is replaced by an upsert. -/
theorem fate_of_call (hkeyed : Keyed storage table) (hprotected : record.Protected)
    (hstored : table w.storage record.memoryId = some record) (call : MemoryCall α) :
    call.Fate values record
      (table (after (call.run values text? fromisoformat storage) w).storage record.memoryId) := by
  refine @after_of_wp _ _ _ w (call.run values text? fromisoformat storage)
    (fun w' => call.Fate values record (table w'.storage record.memoryId)) ?_
  have hkept (call : MemoryCall α) : call.Fate values record (some record) := .inl rfl
  have hnow (call : MemoryCall α) : call.Fate values record (table w.storage record.memoryId) := by
    rw [hstored]
    exact hkept call
  cases call with
  | gateway sink registry permissions call =>
    cases call with
    | retrieve agentId memoryId operationId =>
      unfold MemoryCall.run GatewayCall.run
      rw [wp_bind]
      refine wp_attempt_storage (fun s => MemoryCall.Fate values _ record (table s record.memoryId)) (hnow _)
        fun _ w' hw' => ?_
      refine @wp_retrieve_of_keyed _ _ storage table w' hkeyed memoryId
        (fun t => MemoryCall.Fate values _ record (t record.memoryId)) ?_
      rw [hw']
      exact hnow _
    | store agentId other operationId =>
      refine wp_attempt_storage (fun s => MemoryCall.Fate values _ record (table s record.memoryId)) (hnow _)
        fun hauthorized w' hw' => ?_
      refine wp_kernelStore_storage (hw' ▸ hnow _) fun hvalid =>
        store_of_keyed hkeyed (hw' ▸ hstored) (hkept _) fun hid => ?_
      exact .inr (.inr ⟨other, .gateway sink operationId hauthorized hvalid, hid, rfl⟩)
    | forget agentId memoryId operationId explicitPolicyId =>
      unfold MemoryCall.run GatewayCall.run Gateway.forget
      rw [wp_bind, wp_bind]
      refine wp_authorize_storage (fun s => MemoryCall.Fate values _ record (table s record.memoryId)) (hnow _)
        fun hauthorized => ?_
      refine wp_audit_storage (fun s => MemoryCall.Fate values _ record (table s record.memoryId)) (hnow _)
        fun w' hw' => ?_
      rw [Gateway.reach, wp_bind, wp_modify, wp_bind]
      refine wp_mono (wp_forget_of_leaves (hw' ▸ hnow _) (leaves_of_keyed hkeyed (hw' ▸ hstored) (hkept _) ?_))
        (fun deleted w'' hw'' => ?_) fun _ _ h => h
      · exact fun hid hallowed => .inr (.inl ⟨⟨hauthorized, hid, hallowed⟩, rfl⟩)
      · refine wp_audit_storage (fun s => MemoryCall.Fate values _ record (table s record.memoryId)) hw''
          fun w₃ hw₃ => ?_
        rw [wp_pure, wp_pure, hw₃]
        exact hw''
  | kernelStore other =>
    refine wp_kernelStore_storage (hnow _) fun hvalid => store_of_keyed hkeyed hstored (hkept _) fun hid => ?_
    exact .inr (.inr ⟨other, .kernel hvalid, hid, rfl⟩)
  | consolidate source createdAt operationId agentId =>
    unfold MemoryCall.run Consolidation.consolidate
    simp only [wp_bind, wp_ite, wp_dite, wp_throw, wp_pure]
    refine ⟨fun _ => hnow _, fun hepisodic => ⟨fun _ => hnow _, fun hvalid => ⟨fun _ => hnow _, fun hoperation =>
      ⟨fun _ => hnow _, fun hagent => ?_⟩⟩⟩⟩
    refine wp_kernelStore_storage (hnow _) fun _ => store_of_keyed hkeyed hstored (hkept _) fun hid => ?_
    refine .inr (.inr ⟨_, ?_, hid, rfl⟩)
    exact @MemoryCall.Writes.consolidation _ _ _ source createdAt ⟨operationId, hoperation⟩ ⟨agentId, hagent⟩
      (not_not.mp hepisodic) (not_not.mp hvalid) rfl
  | forget sink memoryId operationId agentId explicitPolicyId automatic =>
    unfold MemoryCall.run
    rw [wp_bind]
    refine wp_forget_of_leaves (hnow _) (leaves_of_keyed hkeyed hstored (hkept _) fun hid hallowed => ?_)
    exact .inr (.inl ⟨⟨hid, hallowed⟩, rfl⟩)
  | forgetIfExpired sink now memoryId operationId agentId =>
    unfold MemoryCall.run
    rw [wp_bind]
    refine @wp_forgetIfExpired_of_keyed _ _ storage table w text? fromisoformat hkeyed now sink memoryId operationId
      agentId (fun t => MemoryCall.Fate values _ record (t record.memoryId)) (hnow _)
      fun s found hsame hfound hworking => ?_
    refine leaves_of_keyed hkeyed (hsame ▸ hstored) (hkept _) fun hid _ => ?_
    -- the record would have to be a working one
    rw [hid, hsame, hstored] at hfound
    rw [MemoryRecord.Protected, Option.some.inj hfound, hworking] at hprotected
    rcases hprotected with h | h <;> cases h

/-! ## Runs -/

section
variable (values text? fromisoformat storage table record w) (answers : String → τ → Prop)

/-- The retrieval engine returns the record as it is, if the storage answers. -/
def Retrievable : Prop :=
  answers record.memoryId w.storage → wp (Retrieval.retrieve storage record.memoryId)
    (fun found _ => found = some record) (fun _ _ => False) w

/-- The record is in the table and can be retrieved, as it is, from one end of the run to the other. -/
def Retained (calls : List (MemoryCall α)) : Prop :=
  ∀ part, part <+: calls →
    table (MemoryCall.runAll values text? fromisoformat storage part w).storage record.memoryId = some record ∧
      Retrievable storage record (MemoryCall.runAll values text? fromisoformat storage part w) answers

/-- What has ended a record: a call to forget that the policy check lets through, or an upsert under its id. -/
def Ended (call : MemoryCall α) (entry : Option (MemoryRecord α)) : Prop :=
  call.Forgets record ∧ entry = none ∨
    ∃ other, call.Writes values other ∧ other.memoryId = record.memoryId ∧ entry = some other

end

variable {answers : String → τ → Prop}

theorem retrievable_of_table (hanswering : Answering storage table answers)
    (hstored : table w.storage record.memoryId = some record) : Retrievable storage record w answers := by
  intro hanswers
  unfold Retrieval.retrieve
  rw [if_neg record.memoryId.2, wp_bind, World.wp_touch]
  refine wp_mono (hanswering record.memoryId w.storage hanswers) (fun found s hfound => ?_) fun _ _ h => h
  rw [hstored] at hfound
  rw [hfound]
  have htype : record.memoryType ∈ [MemoryType.working, .episodic, .semantic, .procedural] := by
    cases record.memoryType <;> decide
  dsimp only
  rw [if_neg (not_not.mpr htype)]
  rfl

/-- **Whole runs**: a stored protected record can be retrieved as it is until it is forgotten as the policy check
allows, or replaced by an upsert under its id. -/
theorem protected_retained (hkeyed : Keyed storage table) (hanswering : Answering storage table answers)
    (hprotected : record.Protected) (hstored : table w.storage record.memoryId = some record)
    (calls : List (MemoryCall α)) :
    Retained storage table record w values text? fromisoformat answers calls ∨
      ∃ before call rest, calls = before ++ call :: rest ∧
        Retained storage table record w values text? fromisoformat answers before ∧
        Ended record values call (table (MemoryCall.runAll values text? fromisoformat storage (before ++ [call])
          w).storage record.memoryId) := by
  induction calls using List.reverseRecOn with
  | nil =>
    refine .inl fun part hpart => ?_
    rw [List.prefix_nil.mp hpart]
    exact ⟨hstored, retrievable_of_table hanswering hstored⟩
  | append_singleton calls call ih =>
    rcases ih with hretained | ⟨before, ending, rest, rfl, hretained, hended⟩
    · have hrun : MemoryCall.runAll values text? fromisoformat storage (calls ++ [call]) w =
          after (call.run values text? fromisoformat storage)
            (MemoryCall.runAll values text? fromisoformat storage calls w) := List.foldl_concat ..
      rcases fate_of_call hkeyed hprotected (hretained calls (List.prefix_refl calls)).1 call with hkept | hended
      · refine .inl fun part hpart => ?_
        rcases List.prefix_concat_iff.mp hpart with rfl | hpart
        · rw [hrun]
          exact ⟨hkept, retrievable_of_table hanswering hkept⟩
        · exact hretained part hpart
      · refine .inr ⟨calls, call, [], rfl, hretained, ?_⟩
        rw [hrun]
        exact hended
    · exact .inr ⟨before, ending, rest ++ [call], by simp, hretained, hended⟩

end

/-! ### Knowledge, replaced -/

/-- Values of one kind. -/
def noValues : Values Unit := ⟨fun _ => (), fun _ => ()⟩

/-- Another record under the id of the knowledge. -/
def rumour : MemoryRecord Unit := { knowledge with memoryType := .working, createdAt := "2026-01-02T00:00:00+00:00" }

/-- The agent stores it through the gateway. -/
def storeRumour : MemoryCall Unit :=
  .gateway quiet Gateway.oneAgent mayStore (.store "momentum" rumour "op-2")

theorem protected_retained_knowledge :
    Retained answeringStorage Database.table knowledge knowledgeable noValues (fun _ => none) (fun _ => none)
        (fun _ _ => True) [storeRumour] ∨
      ∃ before call rest, [storeRumour] = before ++ call :: rest ∧
        Retained answeringStorage Database.table knowledge knowledgeable noValues (fun _ => none) (fun _ => none)
          (fun _ _ => True) before ∧
        Ended knowledge noValues call ((MemoryCall.runAll noValues (fun _ => none) (fun _ => none) answeringStorage
          (before ++ [call]) knowledgeable).storage.table knowledge.memoryId) :=
  protected_retained keyed_answeringStorage answering_answeringStorage (.inl rfl) table_knowledgeable [storeRumour]

/-- Nobody has asked to forget the knowledge, and it is gone. -/
theorem knowledge_replaced :
    knowledge.Protected ∧ knowledgeable.storage.table knowledge.memoryId = some knowledge ∧
      ¬ storeRumour.Forgets knowledge ∧
      (MemoryCall.runAll noValues (fun _ => none) (fun _ => none) answeringStorage [storeRumour]
        knowledgeable).storage.table knowledge.memoryId = some rumour ∧ rumour ≠ knowledge := by
  refine ⟨.inl rfl, table_knowledgeable, id, rfl, fun h => ?_⟩
  exact nomatch congrArg MemoryRecord.memoryType h

end Atlas.ControlPlane
