import Atlas.ControlPlane.Audit
import Atlas.Memory.Experience

/-!
# The engines behind the gateway: `memory_system/memory_kernel`, `retrieval_engine`, `forgetting`

* `Storage` : a storage, given by its answers; `World` : its state, what has been asked of it, and the audit records;
* `Kernel`, `Retrieval`, `Forgetting` : the engines over a storage; Python values are of any type `α`;
* `wp_forget_quiet` : a call to forget emits one record of its own, or the storage raised when the record was looked up.
-/

namespace Atlas.ControlPlane
open Raising
open Atlas.Memory (MemoryType ValidationStatus)

/-- `created_at` by its `isoformat`. -/
structure MemoryRecord (α : Type) where
  memoryId : Id
  memoryType : MemoryType
  createdAt : String
  content : α
  metadata : List (String × α)
  validationStatus : ValidationStatus
  operationId : Id
  agentId : Id

/-- A storage with states `τ`; what it raises is given by its text. -/
structure Storage (α τ : Type) where
  store : MemoryRecord α → EStateM String τ Unit
  retrieve : String → EStateM String τ (Option (MemoryRecord α))
  delete : String → EStateM String τ Bool

/-- A call of the storage. -/
inductive Touch
  | store (memoryId : String)
  | retrieve (memoryId : String)
  | delete (memoryId : String)
  deriving DecidableEq, Repr

inductive Capability
  | memoryRetrieve
  | memoryStore
  | memoryForget
  deriving DecidableEq, Repr

/-- The storage and the sink. `touches` and `reached` keep account of the calls of the storage, and of the agents for
which the gateway has entered an engine. -/
structure World (τ : Type) where
  storage : τ
  touches : List Touch
  audit : List AuditRecord
  reached : List (String × Capability)

variable {α β τ : Type}

namespace World

/-- The sink has got one more record. -/
def noted (event : AuditRecord) (w : World τ) : World τ := { w with audit := w.audit ++ [event] }

/-- A call of the storage. -/
def touch (call : Touch) (answer : EStateM String τ β) : EStateM Raised (World τ) β := fun w =>
  match answer.run w.storage with
  | .ok b storage => .ok b { w with storage, touches := w.touches ++ [call] }
  | .error text storage => .error (.foreign text) { w with storage, touches := w.touches ++ [call] }

theorem wp_touch {call : Touch} {answer : EStateM String τ β} {Q : β → World τ → Prop}
    {E : Raised → World τ → Prop} {w : World τ} :
    wp (touch call answer) Q E w ↔
      wp answer (fun b storage => Q b { w with storage, touches := w.touches ++ [call] })
        (fun text storage => E (.foreign text) { w with storage, touches := w.touches ++ [call] }) w.storage := by
  unfold wp touch
  dsimp only [EStateM.run]
  cases answer w.storage <;> rfl

end World

/-- The record, if its texts are not empty. -/
def buildRecord (eventType : AuditEventType) (operationId agentId : String) (action : AuditAction) (resource : String)
    (result : AuditResult) (metadata : List (String × MetaValue)) : Except Raised AuditRecord :=
  if h : operationId ≠ "" ∧ agentId ≠ "" ∧ resource ≠ "" then
    .ok ⟨.uuid4, eventType, ⟨operationId, h.1⟩, ⟨agentId, h.2.1⟩, action, ⟨resource, h.2.2⟩, result, metadata⟩
  else
    .error (.validationError ((if operationId = "" then ["operation_id"] else []) ++
      (if agentId = "" then ["agent_id"] else []) ++ (if resource = "" then ["resource"] else [])))

/-- The record is built and handed to the sink. -/
def emit (sink : Sink) (event : Except Raised AuditRecord) : EStateM Raised (World τ) Unit :=
  match event with
  | .error e => throw e
  | .ok event => record World.audit World.noted sink event

/-! ## Kernel and retrieval -/

namespace Kernel
variable (storage : Storage α τ)

/-- `MemoryValidator.validate` -/
def validate (record : MemoryRecord α) : EStateM Raised (World τ) (MemoryRecord α) :=
  if record.memoryId.val = "" then throw (.valueError "memory_id must not be empty.")
  else if record.operationId.val = "" then throw (.valueError "operation_id must not be empty.")
  else if record.agentId.val = "" then throw (.valueError "agent_id must not be empty.")
  else if record.validationStatus = .rejected then throw (.valueError "Rejected memory cannot be persisted.")
  else return record

def store (record : MemoryRecord α) : EStateM Raised (World τ) Unit := do
  let validatedRecord ← validate record
  if validatedRecord.validationStatus ≠ .validated then
    throw (.valueError "Only validated memory may be stored.")
  else
    World.touch (.store validatedRecord.memoryId) (storage.store validatedRecord)

def retrieve (memoryId : String) : EStateM Raised (World τ) (Option (MemoryRecord α)) :=
  if memoryId = "" then throw (.valueError "memory_id must not be empty.")
  else World.touch (.retrieve memoryId) (storage.retrieve memoryId)

def delete (memoryId : String) : EStateM Raised (World τ) Bool :=
  if memoryId = "" then throw (.valueError "memory_id must not be empty.")
  else World.touch (.delete memoryId) (storage.delete memoryId)

end Kernel

/-- `MemoryRetrievalEngine.retrieve` -/
def Retrieval.retrieve (storage : Storage α τ) (memoryId : String) :
    EStateM Raised (World τ) (Option (MemoryRecord α)) := do
  if memoryId = "" then throw (.valueError "memory_id must not be empty.")
  else do
    let record ← World.touch (.retrieve memoryId) (storage.retrieve memoryId)
    match record with
    | none => return none
    | some record =>
      if record.memoryType ∉ [.working, .episodic, .semantic, .procedural] then
        throw (.valueError "Unsupported memory type.")
      else return some record

/-! ## Forgetting -/

namespace Forgetting

/-- `not explicit_policy_id` -/
def lacksPolicy (explicitPolicyId : Option String) : Bool := explicitPolicyId = none ∨ explicitPolicyId = some ""

/-- `_is_forgetting_allowed` -/
def isForgettingAllowed (record : MemoryRecord α) (explicitPolicyId : Option String) (automatic : Bool) :
    Bool × String :=
  match record.memoryType with
  | .working => (true, "working_memory_forgetting_allowed")
  | .episodic =>
    if automatic ∧ lacksPolicy explicitPolicyId then (false, "episodic_automatic_forgetting_requires_policy")
    else (true, "episodic_policy_controlled_forgetting_allowed")
  | .semantic =>
    if lacksPolicy explicitPolicyId then (false, "semantic_forgetting_requires_explicit_policy")
    else (true, "semantic_explicit_policy_forgetting_allowed")
  | .procedural =>
    if automatic then (false, "procedural_automatic_forgetting_forbidden")
    else if lacksPolicy explicitPolicyId then (false, "procedural_forgetting_requires_explicit_policy")
    else (true, "procedural_explicit_policy_forgetting_allowed")

def typeValue : MemoryType → String
  | .working => "working"
  | .episodic => "episodic"
  | .semantic => "semantic"
  | .procedural => "procedural"

section
variable (storage : Storage α τ) (sink : Sink) (memoryId operationId agentId : String)
  (explicitPolicyId : Option String) (automatic : Bool)

/-- `_audit_forget`, with the metadata that every record of the engine ends with. -/
def auditForget (result : AuditResult) (metadata : List (String × MetaValue)) : EStateM Raised (World τ) Unit :=
  emit sink (buildRecord .memoryForget operationId agentId .requested memoryId result
    (metadata ++ [("automatic", .flag automatic), ("explicit_policy_id", explicitPolicyId.elim .absent .text)]))

/-- `_validate_required` -/
def validateRequired : EStateM Raised (World τ) Unit :=
  if memoryId = "" then throw (.valueError "memory_id must not be empty.")
  else if operationId = "" then throw (.valueError "operation_id must not be empty.")
  else if agentId = "" then throw (.valueError "agent_id must not be empty.")
  else return

/-- `str(exc)` for what `delete` has raised, which is never an error of a model. -/
def textOf : Raised → String
  | .validationError _ => "validation error"
  | .valueError text => text
  | .permissionError text => text
  | .keyError text => "'" ++ text ++ "'"
  | .runtimeError text => text
  | .foreign text => text

def forget : EStateM Raised (World τ) Bool := do
  validateRequired memoryId operationId agentId
  let record ← Kernel.retrieve storage memoryId
  match record with
  | none =>
    auditForget sink memoryId operationId agentId explicitPolicyId automatic .failure
      [("reason", .text "memory_not_found")]
    return false
  | some record =>
    let (allowed, reason) := isForgettingAllowed record explicitPolicyId automatic
    let memoryType := ("memory_type", MetaValue.text (typeValue record.memoryType))
    if allowed = false then
      auditForget sink memoryId operationId agentId explicitPolicyId automatic .failure
        [("reason", .text reason), memoryType]
      return false
    else do
      let deleted ← try
          let deleted ← Kernel.delete storage memoryId
          pure (Except.ok deleted)
        catch exc => pure (Except.error exc)
      match deleted with
      | .error exc =>
        auditForget sink memoryId operationId agentId explicitPolicyId automatic .failure
          [("reason", .text "storage_delete_exception"), ("error", .text (textOf exc)), memoryType]
        return false
      | .ok deleted =>
        auditForget sink memoryId operationId agentId explicitPolicyId automatic
          (if deleted then .success else .failure)
          [("reason", .text (if deleted then "deleted" else "storage_delete_returned_false")), memoryType]
        return deleted

end

end Forgetting

/-! ## One call to forget -/

theorem wp_emit_quiet {eventType : AuditEventType} {operationId agentId : String} {action : AuditAction}
    {resource : String} {result : AuditResult} {metadata : List (String × MetaValue)} {Q : Unit → World τ → Prop}
    {E : Raised → World τ → Prop} {w : World τ} (hoperation : operationId ≠ "") (hagent : agentId ≠ "")
    (hresource : resource ≠ "") :
    wp (emit quiet (buildRecord eventType operationId agentId action resource result metadata)) Q E w ↔
      Q () (w.noted ⟨.uuid4, eventType, ⟨operationId, hoperation⟩, ⟨agentId, hagent⟩, action, ⟨resource, hresource⟩,
        result, metadata⟩) := by
  unfold buildRecord
  rw [dif_pos ⟨hoperation, hagent, hresource⟩]
  exact @wp_record_quiet _ World.audit _ _ _ _ _

/-- The storage raises when the record is looked up. -/
def RetrieveRaises (storage : Storage α τ) (memoryId : String) (w : World τ) : Prop :=
  ∃ text s, (storage.retrieve memoryId).run w.storage = .error text s

/-- With a sink that does not raise, the engine emits one record, which has metadata, and returns, unless the storage
raises when the record is looked up. -/
theorem wp_forget_quiet {storage : Storage α τ} {memoryId operationId agentId : String}
    {explicitPolicyId : Option String} {automatic : Bool} {Q : Bool → World τ → Prop} {E : Raised → World τ → Prop}
    {w : World τ} (hmemory : memoryId ≠ "") (hoperation : operationId ≠ "") (hagent : agentId ≠ "")
    (hreturn : ¬ RetrieveRaises storage memoryId w → ∀ b w' event, event.metadata ≠ [] →
      w'.audit = w.audit ++ [event] → Q b w')
    (hraise : RetrieveRaises storage memoryId w → ∀ e w', w'.audit = w.audit → E e w') :
    wp (Forgetting.forget storage quiet memoryId operationId agentId explicitPolicyId automatic) Q E w := by
  unfold Forgetting.forget Forgetting.validateRequired Kernel.retrieve
  simp only [wp_bind, wp_ite, wp_throw, wp_pure]
  refine ⟨fun h => absurd h hmemory, fun _ => ⟨fun h => absurd h hoperation, fun _ => ⟨fun h => absurd h hagent,
    fun _ => ⟨fun h => absurd h hmemory, fun _ => ?_⟩⟩⟩⟩
  rw [World.wp_touch]
  have haudit : ∀ (w' : World τ) result metadata (b : Bool), w'.audit = w.audit → ¬ RetrieveRaises storage memoryId w →
      wp (Forgetting.auditForget quiet memoryId operationId agentId explicitPolicyId automatic result metadata)
        (fun _ w' => Q b w') E w' := by
    intro w' result metadata b hw' hnot
    rw [Forgetting.auditForget, wp_emit_quiet hoperation hagent hmemory]
    exact hreturn hnot b _ _ (by simp) (congrArg (· ++ _) hw')
  apply wp_cases
  · intro record storage' hrun
    have hnot : ¬ RetrieveRaises storage memoryId w := by
      rintro ⟨text, s, h⟩
      rw [hrun] at h
      cases h
    cases record with
    | none =>
      simp only [wp_bind, wp_pure]
      exact haudit _ _ _ _ rfl hnot
    | some record =>
      simp only [wp_ite, wp_bind, wp_pure, wp_tryCatch]
      refine ⟨fun _ => haudit _ _ _ _ rfl hnot, fun _ => ?_⟩
      unfold Kernel.delete
      rw [if_neg hmemory, World.wp_touch]
      apply wp_cases
      · exact fun deleted _ _ => haudit _ _ _ deleted rfl hnot
      · exact fun _ _ _ => haudit _ _ _ false rfl hnot
  · intro text storage' hrun
    exact hraise ⟨text, storage', hrun⟩ _ _ rfl

/-! ## What the engines leave alone -/

section
variable {γ : Type} {f : World τ → γ}

/-- What neither the storage nor the sink has to do with. -/
def Outside (f : World τ → γ) : Prop :=
  (∀ w storage call, f { w with storage, touches := w.touches ++ [call] } = f w) ∧ ∀ w event, f (w.noted event) = f w

theorem keeps_touch (h : ∀ w storage call, f { w with storage, touches := w.touches ++ [call] } = f w) (call : Touch)
    (answer : EStateM String τ β) : Keeps f (World.touch call answer) := by
  intro w
  rw [World.wp_touch]
  unfold wp
  split <;> exact h _ _ _

theorem keeps_emit (h : ∀ w event, f (World.noted event w) = f w) (sink : Sink) (event : Except Raised AuditRecord) :
    Keeps f (emit sink event) := by
  intro w
  cases event with
  | error e => exact Keeps.throw e w
  | ok event => exact wp_record (h w event) fun _ _ => h w event

theorem keeps_validate (record : MemoryRecord α) : Keeps f (Kernel.validate record) := by
  unfold Kernel.validate
  apply Keeps.ite (Keeps.throw _)
  apply Keeps.ite (Keeps.throw _)
  apply Keeps.ite (Keeps.throw _)
  exact Keeps.ite (Keeps.throw _) (Keeps.pure _)

theorem keeps_store (h : ∀ w storage call, f { w with storage, touches := w.touches ++ [call] } = f w)
    (storage : Storage α τ) (record : MemoryRecord α) : Keeps f (Kernel.store storage record) :=
  (keeps_validate record).bind fun _ => Keeps.ite (Keeps.throw _) (keeps_touch h _ _)

theorem keeps_retrieve (h : ∀ w storage call, f { w with storage, touches := w.touches ++ [call] } = f w)
    (storage : Storage α τ) (memoryId : String) : Keeps f (Retrieval.retrieve storage memoryId) := by
  refine Keeps.ite (Keeps.throw _) ((keeps_touch h _ _).bind fun record => ?_)
  cases record with
  | none => exact Keeps.pure _
  | some record => exact Keeps.ite (Keeps.throw _) (Keeps.pure _)

theorem keeps_forget (h : Outside f) (storage : Storage α τ) (sink : Sink) (memoryId operationId agentId : String)
    (explicitPolicyId : Option String) (automatic : Bool) :
    Keeps f (Forgetting.forget storage sink memoryId operationId agentId explicitPolicyId automatic) := by
  have haudit : ∀ result metadata (b : Bool), Keeps f (do
      Forgetting.auditForget sink memoryId operationId agentId explicitPolicyId automatic result metadata
      return b) :=
    fun result metadata b => (keeps_emit h.2 sink _).bind fun _ => Keeps.pure b
  unfold Forgetting.forget
  refine Keeps.bind ?_ fun _ => Keeps.bind ?_ fun record => ?_
  · unfold Forgetting.validateRequired
    apply Keeps.ite (Keeps.throw _)
    apply Keeps.ite (Keeps.throw _)
    exact Keeps.ite (Keeps.throw _) (Keeps.pure _)
  · exact Keeps.ite (Keeps.throw _) (keeps_touch h.1 _ _)
  · cases record with
    | none => exact haudit _ _ _
    | some record =>
      apply Keeps.ite
      · exact haudit _ _ _
      · refine Keeps.bind ?_ fun deleted => ?_
        · refine Keeps.tryCatch (Keeps.bind ?_ fun _ => Keeps.pure _) fun _ => Keeps.pure _
          exact Keeps.ite (Keeps.throw _) (keeps_touch h.1 _ _)
        · cases deleted with
          | error exc => exact haudit _ _ _
          | ok deleted => exact haudit _ _ _

end

end Atlas.ControlPlane
