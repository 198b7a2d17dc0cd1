import Atlas.ControlPlane.MemoryEngines

/-!
# The gateway: `permissions`, `policy/engine.py`, `gateway/gateway.py`

* `Gateway.retrieve`, `store`, `forget` : the memory operations of an agent, with the records around them;
* `Authorized`, `wp_authorize` : who may have an operation carried out;
* `reaches_run` : an engine is entered for authorized agents only;
* `paired_iff` : the calls whose records come in pairs.
-/

namespace Atlas.ControlPlane
open Raising

/-! ## Permissions and policy -/

structure PermissionSet where
  agentId : Id
  capabilities : List Capability
  deriving DecidableEq

/-- Enforce explicit Agent capabilities. -/
abbrev Permissions := Dict String PermissionSet

namespace Permissions

def grant (engine : Permissions) (permissions : PermissionSet) : Permissions :=
  engine.set permissions.agentId permissions

/-- The values of `Capability`. -/
def capabilityValue : Capability → String
  | .memoryRetrieve => "memory.retrieve"
  | .memoryStore => "memory.store"
  | .memoryForget => "memory.forget"

def require {σ : Type} (engine : Permissions) (agentId : String) (capability : Capability) : EStateM Raised σ Unit :=
  match engine.get? agentId with
  | none => throw (.permissionError "Agent has no registered permissions.")
  | some permissions =>
    if capability ∉ permissions.capabilities then
      throw (.permissionError ("Agent lacks capability: " ++ capabilityValue capability))
    else return

end Permissions

/-- `AgentPolicyEngine.validate` -/
def validatePolicy {σ : Type} (capability : Capability) : EStateM Raised σ Unit :=
  if capability ∉ [.memoryRetrieve, .memoryStore, .memoryForget] then
    throw (.permissionError "Policy rejected capability.")
  else return

/-! ## The gateway -/

namespace Gateway

variable {α τ : Type}

/-- The event type of the records about a capability. -/
def eventType : Capability → AuditEventType
  | .memoryRetrieve => .memoryRetrieve
  | .memoryStore => .memoryStore
  | .memoryForget => .memoryForget

section
variable (sink : Sink) (registry : Registry) (permissions : Permissions)

/-- `_audit` : the metadata is empty. -/
def audit (capability : Capability) (action : AuditAction) (result : AuditResult)
    (operationId agentId resource : String) : EStateM Raised (World τ) Unit :=
  emit sink (buildRecord (eventType capability) operationId agentId action resource result [])

/-- The body of the `try` in `_authorize`. -/
def check (agentId : String) (capability : Capability) : EStateM Raised (World τ) Unit := do
  let identity ← registry.get agentId
  match identity with
  | none => throw (.permissionError "Unknown Agent.")
  | some identity =>
    if identity.status ∉ [.validated, .ready, .running] then
      throw (.permissionError "Agent is not authorized for execution.")
    else do
      validatePolicy capability
      permissions.require agentId capability

def authorize (agentId : String) (capability : Capability) (operationId resource : String) :
    EStateM Raised (World τ) Unit := do
  try
    check registry permissions agentId capability
  catch e =>
    audit sink capability .failed .failure operationId agentId resource
    throw e

/-- An engine is entered for the agent. -/
def reach (agentId : String) (capability : Capability) : EStateM Raised (World τ) Unit :=
  modify fun w => { w with reached := w.reached ++ [(agentId, capability)] }

/-- What `retrieve` and `store` do around their engine. -/
def attempt {β : Type} (agentId : String) (capability : Capability) (operationId resource : String)
    (engine : EStateM Raised (World τ) β) : EStateM Raised (World τ) β := do
  authorize sink registry permissions agentId capability operationId resource
  audit sink capability .requested .success operationId agentId resource
  reach agentId capability
  let result ← try
      engine
    catch e =>
      audit sink capability .failed .failure operationId agentId resource
      throw e
  audit sink capability .completed .success operationId agentId resource
  return result

def retrieve (storage : Storage α τ) (agentId memoryId operationId : String) :
    EStateM Raised (World τ) (Option (MemoryRecord α)) :=
  attempt sink registry permissions agentId .memoryRetrieve operationId memoryId (Retrieval.retrieve storage memoryId)

def store (storage : Storage α τ) (agentId : String) (record : MemoryRecord α) (operationId : String) :
    EStateM Raised (World τ) Unit :=
  attempt sink registry permissions agentId .memoryStore operationId record.memoryId (Kernel.store storage record)

def forget (storage : Storage α τ) (agentId memoryId operationId : String) (explicitPolicyId : Option String) :
    EStateM Raised (World τ) Bool := do
  authorize sink registry permissions agentId .memoryForget operationId memoryId
  audit sink .memoryForget .requested .success operationId agentId memoryId
  reach agentId .memoryForget
  let result ← Forgetting.forget storage sink memoryId operationId agentId explicitPolicyId false
  audit sink .memoryForget .completed (if result then .success else .failure) operationId agentId memoryId
  return result

end

/-! ## Who is let through -/

/-- The agent is validated, ready or running, and has been granted the capability. -/
def Authorized (registry : Registry) (permissions : Permissions) (agentId : String) (capability : Capability) : Prop :=
  (∃ status ∈ [AgentStatus.validated, .ready, .running], registry.status? agentId = some status) ∧
    ∃ granted, permissions.get? agentId = some granted ∧ capability ∈ granted.capabilities

theorem Authorized.agentId_ne {registry : Registry} {permissions : Permissions} {agentId : String}
    {capability : Capability} (h : Authorized registry permissions agentId capability) : agentId ≠ "" := by
  obtain ⟨⟨status, _, hstatus⟩, _⟩ := h
  obtain ⟨identity, hget, _⟩ := Option.map_eq_some_iff.mp hstatus
  exact Registry.agentId_ne hget

section
variable {sink : Sink} {registry : Registry} {permissions : Permissions} {w : World τ}

theorem wp_check {agentId : String} {capability : Capability} {Q : Unit → World τ → Prop}
    {E : Raised → World τ → Prop} (hreturn : Authorized registry permissions agentId capability → Q () w)
    (hraise : ¬ Authorized registry permissions agentId capability → ∀ e, E e w) :
    wp (check registry permissions agentId capability) Q E w := by
  unfold check
  rw [wp_bind]
  by_cases hid : agentId = ""
  · rw [Registry.get, if_pos hid, wp_throw]
    exact hraise (fun h => h.agentId_ne hid) _
  rw [Registry.wp_get registry hid]
  cases hget : registry.agents.get? agentId with
  | none =>
    refine hraise ?_ _
    rintro ⟨⟨status, _, hstatus⟩, _⟩
    rw [Registry.status?, hget] at hstatus
    cases hstatus
  | some identity =>
    have hstatus : registry.status? agentId = some identity.status := by
      rw [Registry.status?, hget]
      rfl
    unfold validatePolicy Permissions.require
    simp only [wp_ite, wp_throw, wp_bind, wp_pure]
    refine ⟨fun hnot => hraise ?_ _, fun hallowed => ⟨fun hpolicy => ?_, fun _ => ?_⟩⟩
    · rintro ⟨⟨status, hmem, hsame⟩, _⟩
      rw [hstatus] at hsame
      exact hnot (Option.some.inj hsame ▸ hmem)
    · cases capability <;> simp at hpolicy
    · have hactive : ∃ status ∈ [AgentStatus.validated, .ready, .running], registry.status? agentId = some status :=
        ⟨identity.status, not_not.mp hallowed, hstatus⟩
      cases hgranted : permissions.get? agentId with
      | none =>
        refine hraise ?_ _
        rintro ⟨_, granted, hsome, _⟩
        rw [hgranted] at hsome
        cases hsome
      | some granted =>
        simp only [wp_ite, wp_throw, wp_pure]
        refine ⟨fun hlacks => hraise ?_ _, fun hhas => ?_⟩
        · rintro ⟨_, granted', hsome, hmem⟩
          rw [hgranted] at hsome
          exact hlacks (Option.some.inj hsome ▸ hmem)
        · exact hreturn ⟨hactive, granted, hgranted, not_not.mp hhas⟩

theorem wp_authorize {agentId operationId resource : String} {capability : Capability} {Q : Unit → World τ → Prop}
    {E : Raised → World τ → Prop} (hreturn : Authorized registry permissions agentId capability → Q () w)
    (hraise : ¬ Authorized registry permissions agentId capability →
      wp (audit sink capability .failed .failure operationId agentId resource) (fun _ w' => ∀ e, E e w') E w) :
    wp (authorize sink registry permissions agentId capability operationId resource) Q E w := by
  unfold authorize
  rw [wp_tryCatch]
  refine wp_check hreturn fun hnot e => ?_
  simp only [wp_bind, wp_throw]
  exact wp_mono (hraise hnot) (fun _ _ h => h e) fun _ _ h => h

end

end Gateway

/-! ## Calls -/

inductive GatewayCall (α : Type)
  | retrieve (agentId memoryId operationId : String)
  | store (agentId : String) (record : MemoryRecord α) (operationId : String)
  | forget (agentId memoryId operationId : String) (explicitPolicyId : Option String)

namespace GatewayCall

variable {α τ : Type}

def agentId : GatewayCall α → String
  | retrieve agentId _ _ => agentId
  | store agentId _ _ => agentId
  | forget agentId _ _ _ => agentId

def operationId : GatewayCall α → String
  | retrieve _ _ operationId => operationId
  | store _ _ operationId => operationId
  | forget _ _ operationId _ => operationId

/-- The id of the memory. -/
def resource : GatewayCall α → String
  | retrieve _ memoryId _ => memoryId
  | store _ record _ => record.memoryId
  | forget _ memoryId _ _ => memoryId

def capability : GatewayCall α → Capability
  | retrieve .. => .memoryRetrieve
  | store .. => .memoryStore
  | forget .. => .memoryForget

def run (sink : Sink) (registry : Registry) (permissions : Permissions) (storage : Storage α τ) :
    GatewayCall α → EStateM Raised (World τ) Unit
  | retrieve agentId memoryId operationId => do
    let _ ← Gateway.retrieve sink registry permissions storage agentId memoryId operationId
  | store agentId record operationId => Gateway.store sink registry permissions storage agentId record operationId
  | forget agentId memoryId operationId explicitPolicyId => do
    let _ ← Gateway.forget sink registry permissions storage agentId memoryId operationId explicitPolicyId

end GatewayCall

namespace Gateway

section
variable {α τ : Type} {sink : Sink} {registry : Registry} {permissions : Permissions} {w : World τ}

/-- An engine is entered for an authorized agent, or none is. -/
def Reaches (registry : Registry) (permissions : Permissions) (agentId : String) (capability : Capability)
    (w w' : World τ) : Prop :=
  w'.reached = w.reached ∨ Authorized registry permissions agentId capability ∧
    w'.reached = w.reached ++ [(agentId, capability)]

theorem keeps_audit (capability : Capability) (action : AuditAction) (result : AuditResult)
    (operationId agentId resource : String) :
    Keeps World.reached
      (audit sink capability action result operationId agentId resource : EStateM Raised (World τ) Unit) :=
  keeps_emit (fun _ _ => rfl) sink _

theorem wp_of_keeps {β γ σ : Type} {f : σ → γ} {call : EStateM Raised σ β} (h : Keeps f call) {s : σ} {P : σ → Prop}
    (hP : ∀ s', f s' = f s → P s') : wp call (fun _ s' => P s') (fun _ s' => P s') s :=
  wp_mono (h s) (fun _ => hP) fun _ => hP

/-- The operations, once the agent is let through: one record, an engine, and what leaves `reached` alone. -/
theorem reaches_behind {agentId operationId resource : String} {capability : Capability} {β : Type}
    {rest : EStateM Raised (World τ) β} (hrest : Keeps World.reached rest) :
    wp (authorize sink registry permissions agentId capability operationId resource >>= fun _ =>
        audit sink capability .requested .success operationId agentId resource >>= fun _ =>
        reach agentId capability >>= fun _ => rest)
      (fun _ w' => Reaches registry permissions agentId capability w w')
      (fun _ w' => Reaches registry permissions agentId capability w w') w := by
  rw [wp_bind]
  apply wp_authorize
  · intro hauthorized
    rw [wp_bind]
    refine wp_mono (keeps_audit _ _ _ _ _ _ w) (fun _ w' hw' => ?_) fun _ _ hw' => .inl hw'
    unfold reach
    rw [wp_bind, wp_modify]
    refine wp_of_keeps hrest fun w'' hw'' => .inr ⟨hauthorized, ?_⟩
    rw [hw'', hw']
  · intro _
    exact wp_mono (keeps_audit _ _ _ _ _ _ w) (fun _ _ hw' _ => .inl hw') fun _ _ hw' => .inl hw'

theorem reaches_attempt {agentId operationId resource : String} {capability : Capability} {β : Type}
    {engine : EStateM Raised (World τ) β} (hengine : Keeps World.reached engine) :
    wp (attempt sink registry permissions agentId capability operationId resource engine)
      (fun _ w' => Reaches registry permissions agentId capability w w')
      (fun _ w' => Reaches registry permissions agentId capability w w') w := by
  refine reaches_behind (Keeps.bind ?_ fun result => (keeps_audit _ _ _ _ _ _).bind fun _ => Keeps.pure result)
  exact hengine.tryCatch fun e => (keeps_audit _ _ _ _ _ _).bind fun _ => Keeps.throw e

/-- **Who gets to the engines**: a call enters an engine for an authorized agent, or none. -/
theorem reaches_run {storage : Storage α τ} (call : GatewayCall α) : Reaches registry permissions call.agentId
    call.capability w (after (call.run sink registry permissions storage) w) := by
  apply after_of_wp
  cases call with
  | retrieve agentId memoryId operationId =>
    unfold GatewayCall.run
    simp only [wp_bind, wp_pure]
    exact reaches_attempt (keeps_retrieve (fun _ _ _ => rfl) storage memoryId)
  | store agentId record operationId =>
    exact reaches_attempt (keeps_store (fun _ _ _ => rfl) storage record)
  | forget agentId memoryId operationId explicitPolicyId =>
    unfold GatewayCall.run
    simp only [wp_bind, wp_pure]
    refine reaches_behind (Keeps.bind ?_ fun result => (keeps_audit _ _ _ _ _ _).bind fun _ => Keeps.pure result)
    exact keeps_forget ⟨fun _ _ _ => rfl, fun _ _ => rfl⟩ storage sink memoryId operationId agentId explicitPolicyId
      false

end

/-! ## Pairs of records -/

section
variable {α τ : Type} {registry : Registry} {permissions : Permissions} {w : World τ}

/-- A record of the gateway: the forgetting engine, which shares the sink, always gives metadata. -/
def ByGateway (event : AuditRecord) : Bool := event.metadata = []

/-- The gateway's records of a call come in pairs: a denied call leaves one, `failed`, and does not get to the storage;
behind a `requested` one there is exactly one more, with the same operation id. -/
structure Paired (registry : Registry) (permissions : Permissions) (call : GatewayCall α) (w w' : World τ) : Prop where
  denied : ¬ Authorized registry permissions call.agentId call.capability →
    w'.touches = w.touches ∧ ∃ event, w'.audit = w.audit ++ [event] ∧ ByGateway event = true ∧ event.action = .failed
  closed : ∀ more, w'.audit = w.audit ++ more →
    (∃ event ∈ more.filter ByGateway, event.action = .requested) →
      ∃ requested closing, more.filter ByGateway = [requested, closing] ∧ requested.action = .requested ∧
        (closing.action = .completed ∨ closing.action = .failed) ∧ closing.operationId = requested.operationId ∧
        requested.operationId.val = call.operationId

/-- A record of the gateway about an operation. -/
def recordOf (capability : Capability) (operationId agentId resource : Id) (action : AuditAction)
    (result : AuditResult) : AuditRecord :=
  ⟨.uuid4, eventType capability, operationId, agentId, action, resource, result, []⟩

theorem wp_audit_quiet {capability : Capability} {action : AuditAction} {result : AuditResult}
    {operationId agentId resource : Id} {Q : Unit → World τ → Prop} {E : Raised → World τ → Prop} :
    wp (audit quiet capability action result operationId agentId resource) Q E w ↔
      Q () (w.noted (recordOf capability operationId agentId resource action result)) :=
  wp_emit_quiet operationId.2 agentId.2 resource.2

/-- What a denied operation leaves behind. -/
def Denied (registry : Registry) (permissions : Permissions) (capability : Capability)
    (operationId agentId resource : Id) (w w' : World τ) : Prop :=
  ¬ Authorized registry permissions agentId capability ∧ w'.touches = w.touches ∧
    w'.audit = w.audit ++ [recordOf capability operationId agentId resource .failed .failure]

theorem wp_authorize_quiet {capability : Capability} {operationId agentId resource : Id}
    {Q : Unit → World τ → Prop} {E : Raised → World τ → Prop}
    (hreturn : Authorized registry permissions agentId capability → Q () w)
    (hraise : ∀ e w', Denied registry permissions capability operationId agentId resource w w' → E e w') :
    wp (authorize quiet registry permissions agentId capability operationId resource) Q E w := by
  refine wp_authorize hreturn fun hnot => ?_
  rw [wp_audit_quiet]
  exact fun e => hraise e _ ⟨hnot, rfl, rfl⟩

/-- What an attempt leaves behind: it is denied, or its records come in a pair. -/
theorem wp_attempt_quiet {capability : Capability} {operationId agentId resource : Id} {β : Type}
    {engine : EStateM Raised (World τ) β} (hengine : Keeps World.audit engine) {P : World τ → Prop}
    (hdenied : ∀ w', Denied registry permissions capability operationId agentId resource w w' → P w')
    (hclosed : Authorized registry permissions agentId capability → ∀ w' action result,
      (action = .completed ∨ action = .failed) →
      w'.audit = w.audit ++ [recordOf capability operationId agentId resource .requested .success,
        recordOf capability operationId agentId resource action result] → P w') :
    wp (attempt quiet registry permissions agentId capability operationId resource engine) (fun _ w' => P w')
      (fun _ w' => P w') w := by
  unfold attempt
  rw [wp_bind]
  refine wp_authorize_quiet (fun hauthorized => ?_) fun _ => hdenied
  rw [wp_bind, wp_audit_quiet]
  unfold reach
  simp only [wp_bind, wp_modify, wp_tryCatch, wp_throw, wp_pure]
  refine wp_mono (hengine _) (fun _ w' hw' => ?_) fun _ w' hw' => ?_
  · rw [wp_audit_quiet]
    refine hclosed hauthorized _ .completed .success (.inl rfl) ?_
    show w'.audit ++ [_] = _
    rw [hw']
    exact List.append_assoc ..
  · rw [wp_audit_quiet]
    refine hclosed hauthorized _ .failed .failure (.inr rfl) ?_
    show w'.audit ++ [_] = _
    rw [hw']
    exact List.append_assoc ..

/-- What a call to forget leaves behind: it is denied; or its records come in a pair, around that of the engine; or the
storage has raised, and the second record is missing. -/
theorem wp_forget {storage : Storage α τ} {operationId agentId memoryId : Id} {explicitPolicyId : Option String}
    {P : World τ → Prop}
    (hdenied : ∀ w', Denied registry permissions .memoryForget operationId agentId memoryId w w' → P w')
    (hclosed : Authorized registry permissions agentId .memoryForget → ¬ RetrieveRaises storage memoryId w →
      ∀ w' own result, own.metadata ≠ [] →
      w'.audit = w.audit ++ [recordOf .memoryForget operationId agentId memoryId .requested .success, own,
        recordOf .memoryForget operationId agentId memoryId .completed result] → P w')
    (hopen : Authorized registry permissions agentId .memoryForget → RetrieveRaises storage memoryId w →
      ∀ w', w'.audit = w.audit ++ [recordOf .memoryForget operationId agentId memoryId .requested .success] → P w') :
    wp (forget quiet registry permissions storage agentId memoryId operationId explicitPolicyId) (fun _ w' => P w')
      (fun _ w' => P w') w := by
  unfold forget
  rw [wp_bind]
  refine wp_authorize_quiet (fun hauthorized => ?_) fun _ => hdenied
  rw [wp_bind, wp_audit_quiet]
  unfold reach
  simp only [wp_bind, wp_modify, wp_pure]
  apply wp_forget_quiet memoryId.2 operationId.2 agentId.2
  · intro hreturns b w' own hown hw'
    rw [wp_audit_quiet]
    refine hclosed hauthorized hreturns _ own (if b then .success else .failure) hown ?_
    show w'.audit ++ [_] = _
    rw [hw']
    show w.audit ++ [_] ++ [_] ++ [_] = _
    simp only [List.append_assoc, List.cons_append, List.nil_append]
  · exact fun hraises _ w' hw' => hopen hauthorized hraises w' hw'

/-! ### Pairing -/

theorem paired_of_denied {call : GatewayCall α} {w' : World τ} {capability : Capability}
    {operationId agentId resource : Id}
    (h : Denied registry permissions capability operationId agentId resource w w') :
    Paired registry permissions call w w' := by
  obtain ⟨hnot, htouches, haudit⟩ := h
  refine ⟨fun _ => ⟨htouches, _, haudit, rfl, rfl⟩, fun more hmore => ?_⟩
  obtain rfl := List.append_cancel_left (haudit.symm.trans hmore)
  rintro ⟨event, hevent, haction⟩
  rw [List.mem_singleton.mp (List.mem_filter.mp hevent).1] at haction
  cases haction

theorem paired_of_closed {call : GatewayCall α} {w' : World τ} {more : List AuditRecord}
    {requested closing : AuditRecord} (hauthorized : Authorized registry permissions call.agentId call.capability)
    (haudit : w'.audit = w.audit ++ more) (hmore : more.filter ByGateway = [requested, closing])
    (hrequested : requested.action = .requested) (hclosing : closing.action = .completed ∨ closing.action = .failed)
    (hsame : closing.operationId = requested.operationId) (hid : requested.operationId.val = call.operationId) :
    Paired registry permissions call w w' := by
  refine ⟨fun hnot => absurd hauthorized hnot, fun more' hmore' _ => ?_⟩
  obtain rfl := List.append_cancel_left (haudit.symm.trans hmore')
  exact ⟨requested, closing, hmore, hrequested, hclosing, hsame, hid⟩

theorem not_paired_of_open {call : GatewayCall α} {w' : World τ} {requested : AuditRecord}
    (haudit : w'.audit = w.audit ++ [requested]) (hgateway : ByGateway requested = true)
    (hrequested : requested.action = .requested) : ¬ Paired registry permissions call w w' := by
  intro h
  have hfilter : [requested].filter ByGateway = [requested] := List.filter_eq_self.mpr (by simpa using hgateway)
  obtain ⟨_, _, htwo, -⟩ := h.closed _ haudit ⟨requested, by simp [hgateway], hrequested⟩
  rw [hfilter] at htwo
  cases htwo

/-- The ids of the call are not empty. -/
def NonEmptyIds (call : GatewayCall α) : Prop := call.agentId ≠ "" ∧ call.operationId ≠ "" ∧ call.resource ≠ ""

/-- The call is an authorized one to forget, and the storage raises when the record is looked up. -/
def ForgetRaises (registry : Registry) (permissions : Permissions) (storage : Storage α τ) (w : World τ) :
    GatewayCall α → Prop
  | .forget agentId memoryId _ _ =>
    Authorized registry permissions agentId .memoryForget ∧ RetrieveRaises storage memoryId w
  | _ => False

/-- **Audit pairing**: whatever the storage does, the gateway's records of a call come in pairs just when it is not an
authorized call to forget at which the storage raises on `retrieve`. -/
theorem paired_iff {storage : Storage α τ} {call : GatewayCall α} (hids : NonEmptyIds call) :
    Paired registry permissions call w (after (call.run quiet registry permissions storage) w) ↔
      ¬ ForgetRaises registry permissions storage w call := by
  obtain ⟨hagent, hoperation, hresource⟩ := hids
  cases call with
  | retrieve agentId memoryId operationId =>
    refine iff_of_true ?_ id
    apply after_of_wp
    unfold GatewayCall.run
    simp only [wp_bind, wp_pure]
    refine @wp_attempt_quiet _ _ _ _ .memoryRetrieve ⟨operationId, hoperation⟩ ⟨agentId, hagent⟩ ⟨memoryId, hresource⟩
      _ _ (keeps_retrieve (fun _ _ _ => rfl) storage memoryId) _ (fun w' => paired_of_denied) ?_
    intro hauthorized w' action result haction haudit
    exact paired_of_closed hauthorized haudit rfl rfl haction rfl rfl
  | store agentId record operationId =>
    refine iff_of_true ?_ id
    apply after_of_wp
    refine @wp_attempt_quiet _ _ _ _ .memoryStore ⟨operationId, hoperation⟩ ⟨agentId, hagent⟩ record.memoryId
      _ _ (keeps_store (fun _ _ _ => rfl) storage record) _ (fun w' => paired_of_denied) ?_
    intro hauthorized w' action result haction haudit
    exact paired_of_closed hauthorized haudit rfl rfl haction rfl rfl
  | forget agentId memoryId operationId explicitPolicyId =>
    refine @after_of_wp _ _ _ w (GatewayCall.run quiet registry permissions storage
      (.forget agentId memoryId operationId explicitPolicyId)) (fun w' => Paired registry permissions _ w w' ↔ _) ?_
    unfold GatewayCall.run
    simp only [wp_bind, wp_pure]
    refine @wp_forget _ _ _ _ _ storage ⟨operationId, hoperation⟩ ⟨agentId, hagent⟩ ⟨memoryId, hresource⟩
      explicitPolicyId _ ?_ ?_ ?_
    · exact fun w' hdenied => iff_of_true (paired_of_denied hdenied) fun h => hdenied.1 h.1
    · intro hauthorized hreturns w' own result hown haudit
      have hfilter : ∀ requested closing, ByGateway requested = true → ByGateway closing = true →
          [requested, own, closing].filter ByGateway = [requested, closing] := by
        intro requested closing hrequested hclosing
        have hown' : ByGateway own = false := by simpa [ByGateway] using hown
        simp [hrequested, hclosing, hown']
      exact iff_of_true (paired_of_closed hauthorized haudit (hfilter _ _ rfl rfl) rfl (.inl rfl) rfl rfl)
        fun h => hreturns h.2
    · intro hauthorized hraises w' haudit
      exact iff_of_false (not_paired_of_open haudit rfl rfl) fun h => h ⟨hauthorized, hraises⟩

end

/-! ### A storage out of reach -/

/-- A storage without records. -/
def emptyStorage : Storage Unit Unit := ⟨fun _ => pure (), fun _ => pure none, fun _ => pure false⟩

def brokenStorage : Storage Unit Unit := { emptyStorage with retrieve := fun _ => throw "connection lost" }

/-- An agent that is ready. -/
def oneAgent : Registry := Registry.empty.enter ⟨⟨"momentum", momentum_ne⟩, ⟨"1", version_ne⟩, .ready⟩ ready_ne

/-- It may forget. -/
def mayForget : Permissions := Permissions.grant .empty ⟨⟨"momentum", momentum_ne⟩, [.memoryForget]⟩

def forgetCall : GatewayCall Unit := .forget "momentum" "mem-1" "op-1" none

theorem paired_emptyStorage :
    Paired oneAgent mayForget forgetCall ⟨(), [], [], []⟩
      (after (forgetCall.run quiet oneAgent mayForget emptyStorage) ⟨(), [], [], []⟩) := by
  refine (paired_iff ⟨by decide, by decide, by decide⟩).mpr fun h => ?_
  obtain ⟨-, text, s, hraise⟩ := h
  cases hraise

/-- The storage raises, and the gateway leaves one record, `requested`. -/
theorem forget_unpaired :
    (after (forgetCall.run quiet oneAgent mayForget brokenStorage) ⟨(), [], [], []⟩).audit =
        [recordOf .memoryForget ⟨"op-1", by decide⟩ ⟨"momentum", by decide⟩ ⟨"mem-1", by decide⟩ .requested .success] ∧
      ¬ Paired oneAgent mayForget forgetCall ⟨(), [], [], []⟩
        (after (forgetCall.run quiet oneAgent mayForget brokenStorage) ⟨(), [], [], []⟩) := by
  have haudit : (after (forgetCall.run quiet oneAgent mayForget brokenStorage) ⟨(), [], [], []⟩).audit =
      [] ++ [recordOf .memoryForget ⟨"op-1", by decide⟩ ⟨"momentum", by decide⟩ ⟨"mem-1", by decide⟩ .requested
        .success] := rfl
  exact ⟨haudit, not_paired_of_open haudit rfl rfl⟩

end Gateway

end Atlas.ControlPlane
