import Atlas.ControlPlane.Audit
import Atlas.Lib.Run

/-!
# Messages between agents: `communication/models.py`, `communication/engine.py`

* `Communication.create`, `send`, `reject` : the stored messages and their status;
* `Changes` : everything that a call can do to them; `changes_run` : a call does no more, whether it returns or raises.

The payload of a message, which the engine does not look at, is left out.
-/

namespace Atlas.ControlPlane
open Raising

inductive MessageType
  | request
  | response
  | event
  | command
  deriving DecidableEq, Repr

def MessageType.value : MessageType → String
  | .request => "request"
  | .response => "response"
  | .event => "event"
  | .command => "command"

inductive MessageStatus
  | created
  | delivered
  | rejected
  deriving DecidableEq, Repr

def MessageStatus.value : MessageStatus → String
  | .created => "created"
  | .delivered => "delivered"
  | .rejected => "rejected"

structure AgentMessage where
  messageId : Id
  senderId : Id
  recipientId : Id
  messageType : MessageType
  status : MessageStatus := .created
  deriving DecidableEq

structure CommunicationPolicy where
  allowAgentToAgent : Bool := true
  allowAgentToSystem : Bool := false
  allowSystemToAgent : Bool := true
  deriving DecidableEq, Repr

/-- Controlled Agent-to-Agent and Agent-to-System communication. -/
structure Communication where
  messages : Dict String AgentMessage
  keyed : ∀ messageId message, messages.get? messageId = some message → message.messageId.val = messageId
  audit : List AuditRecord

/-- The argument of `send`. -/
inductive SendTarget
  | object (message : AgentMessage)
  | id (messageId : String)

namespace Communication

def new : Communication where
  messages := .empty
  keyed := fun _ _ h => nomatch h
  audit := []

/-- The sink has got one more record. -/
def noted (event : AuditRecord) (s : Communication) : Communication := { s with audit := s.audit ++ [event] }

/-- `self._messages[message.message_id] = message` -/
def put (message : AgentMessage) (s : Communication) : Communication where
  messages := s.messages.set message.messageId message
  keyed := by
    intro messageId other hother
    rw [Dict.get?_set] at hother
    split_ifs at hother with heq
    · rw [← Option.some.inj hother, heq]
    · exact s.keyed messageId other hother
  audit := s.audit

/-- The record of a message; its event id is the id of the message. -/
def auditRecord (message : AgentMessage) (action : AuditAction) (result : AuditResult) : AuditRecord where
  eventId := .named message.messageId
  eventType := .communicationSend
  operationId := message.messageId
  agentId := message.senderId
  action
  resource := message.recipientId
  result
  metadata := [("message_type", .text message.messageType.value), ("message_status", .text message.status.value)]

def create (message : AgentMessage) : EStateM Raised Communication AgentMessage := do
  let s ← get
  if (s.messages.get? message.messageId).isSome then throw (.valueError "Message is already registered.")
  else if message.status ≠ .created then throw (.valueError "Only created messages may be registered.")
  else do
    modify (put message)
    return message

def get (messageId : String) : EStateM Raised Communication (Option AgentMessage) := do
  if messageId = "" then throw (.valueError "message_id must not be empty.")
  else do
    let s ← MonadState.get
    return s.messages.get? messageId

/-- The first part of `send`: the message to be sent is the registered one, if there is one. -/
def lookup : SendTarget → EStateM Raised Communication AgentMessage
  | .id messageId => do
    let registered ← get messageId
    match registered with
    | none => throw (.keyError "Unknown message.")
    | some registered =>
      if registered.status ≠ .created then throw (.valueError "Only created messages may be sent.")
      else return registered
  | .object message => do
    let s ← MonadState.get
    match s.messages.get? message.messageId with
    | some registered =>
      if registered.status ≠ .created then throw (.valueError "Only created messages may be sent.")
      else return registered
    | none => return message

section
variable (sink : Sink) (registry : Registry) (policy : CommunicationPolicy)

def auditMessage (action : AuditAction) (result : AuditResult) (message : AgentMessage) :
    EStateM Raised Communication Unit :=
  record audit noted sink (auditRecord message action result)

/-- The checks of `_send_authorized`. -/
def authorize (message : AgentMessage) : EStateM Raised Communication Unit := do
  let sender ← registry.get message.senderId
  match sender with
  | none => throw (.permissionError "Unknown sender Agent.")
  | some sender =>
    if sender.status ∉ [.ready, .running] then throw (.permissionError "Sender Agent is not authorized.")
    else do
      let recipient ← registry.get message.recipientId
      match recipient with
      | none =>
        if policy.allowAgentToSystem = false then
          throw (.permissionError "Agent-to-system communication is disabled.")
      | some recipient =>
        if policy.allowAgentToAgent = false then
          throw (.permissionError "Agent-to-Agent communication is disabled.")
        else if recipient.status ∈ [.created, .validated, .suspended, .terminated] then
          throw (.permissionError "Recipient Agent is not available.")

/-- `_send_authorized` -/
def sendAuthorized (message : AgentMessage) : EStateM Raised Communication AgentMessage := do
  authorize registry policy message
  let delivered := { message with status := .delivered }
  modify (put delivered)
  auditMessage sink .completed .success delivered
  return delivered

def send (target : SendTarget) : EStateM Raised Communication AgentMessage := do
  let message ← lookup target
  auditMessage sink .requested .success message
  try
    sendAuthorized sink registry policy message
  catch e =>
    auditMessage sink .failed .failure message
    throw e

def reject (messageId : String) : EStateM Raised Communication AgentMessage := do
  let message ← get messageId
  match message with
  | none => throw (.keyError "Unknown message.")
  | some message =>
    if message.status ≠ .created then throw (.valueError "Only created messages may be rejected.")
    else do
      -- the entry of `messageId` is the entry of the message's own id
      let rejected := { message with status := .rejected }
      modify (put rejected)
      auditMessage sink .failed .failure rejected
      return rejected

end

/-! ## What a call can do -/

/-- Sender and recipient may have the message. -/
def Deliverable (registry : Registry) (policy : CommunicationPolicy) (message : AgentMessage) : Prop :=
  registry.Active message.senderId ∧
    if registry.status? message.recipientId = none then policy.allowAgentToSystem = true
    else policy.allowAgentToAgent = true ∧ registry.Active message.recipientId

instance (registry : Registry) (policy : CommunicationPolicy) (message : AgentMessage) :
    Decidable (Deliverable registry policy message) :=
  inferInstanceAs (Decidable (_ ∧ _))

/-- What becomes of the stored messages in a call. -/
inductive Changes (registry : Registry) (policy : CommunicationPolicy) (s s' : Communication) : Prop
  | unchanged (hmessages : s'.messages = s.messages)
  | created (message : AgentMessage) (hnew : s.messages.get? message.messageId = none)
      (hstatus : message.status = .created) (hmessages : s'.messages = s.messages.set message.messageId message)
  | delivered (message : AgentMessage)
      (hold : s.messages.get? message.messageId = some message ∧ message.status = .created ∨
        s.messages.get? message.messageId = none)
      (hdeliverable : Deliverable registry policy message)
      (hmessages : s'.messages = s.messages.set message.messageId { message with status := .delivered })
  | rejected (message : AgentMessage) (hold : s.messages.get? message.messageId = some message)
      (hstatus : message.status = .created)
      (hmessages : s'.messages = s.messages.set message.messageId { message with status := .rejected })

/-- The message that `lookup` returns, if it does. -/
def sent? (s : Communication) : SendTarget → Option AgentMessage
  | .id messageId => (s.messages.get? messageId).filter (·.status = .created)
  | .object message =>
    match s.messages.get? message.messageId with
    | some registered => if registered.status = .created then some registered else none
    | none => some message

section
variable {sink : Sink} {registry : Registry} {policy : CommunicationPolicy} {s : Communication}

theorem Changes.noted {s' : Communication} (h : Changes registry policy s s') (event : AuditRecord) :
    Changes registry policy s (s'.noted event) := by
  cases h with
  | unchanged hmessages => exact .unchanged hmessages
  | created message hnew hstatus hmessages => exact .created message hnew hstatus hmessages
  | delivered message hold hdeliverable hmessages => exact .delivered message hold hdeliverable hmessages
  | rejected message hold hstatus hmessages => exact .rejected message hold hstatus hmessages

theorem get?_empty_id : s.messages.get? "" = none := by
  cases h : s.messages.get? "" with
  | none => rfl
  | some message => exact absurd (s.keyed "" message h) message.messageId.2

theorem wp_lookup {target : SendTarget} {Q : AgentMessage → Communication → Prop} {E : Raised → Communication → Prop}
    (hsent : ∀ message, s.sent? target = some message → Q message s) (hnone : s.sent? target = none → ∀ e, E e s) :
    wp (lookup target) Q E s := by
  cases target with
  | id messageId =>
    unfold lookup get
    dsimp only [sent?] at hsent hnone
    simp only [wp_bind, wp_ite, wp_throw, wp_get, wp_pure]
    constructor
    · rintro rfl
      exact hnone (by rw [get?_empty_id]; rfl) _
    · intro _
      cases hget : s.messages.get? messageId with
      | none => exact hnone (by rw [hget]; rfl) _
      | some registered =>
        rw [hget] at hsent hnone
        simp only [wp_ite, wp_throw, wp_pure]
        exact ⟨fun hstatus => hnone (by simp [hstatus]) _, fun hstatus => hsent _ (by simpa using hstatus)⟩
  | object message =>
    unfold lookup
    dsimp only [sent?] at hsent hnone
    simp only [wp_bind, wp_get]
    cases hget : s.messages.get? message.messageId with
    | none =>
      rw [hget] at hsent
      exact hsent message rfl
    | some registered =>
      rw [hget] at hsent hnone
      simp only [wp_ite, wp_throw, wp_pure]
      exact ⟨fun hstatus => hnone (if_neg hstatus) _, fun hstatus => hsent _ (if_pos (not_not.mp hstatus))⟩

/-- The message sent is a stored one that is `created`, or one that is not stored. -/
theorem old_of_sent? {target : SendTarget} {message : AgentMessage} (h : s.sent? target = some message) :
    s.messages.get? message.messageId = some message ∧ message.status = .created ∨
      s.messages.get? message.messageId = none := by
  cases target with
  | id messageId =>
    obtain ⟨hget, hstatus⟩ := Option.filter_eq_some_iff.mp h
    rw [s.keyed messageId message hget]
    exact .inl ⟨hget, by simpa using hstatus⟩
  | object message' =>
    dsimp only [sent?] at h
    split at h
    · rename_i registered hget
      split_ifs at h with hstatus
      obtain rfl := Option.some.inj h
      rw [s.keyed _ _ hget]
      exact .inl ⟨hget, hstatus⟩
    · obtain rfl := Option.some.inj h
      right
      assumption

/-- A message that is not stored is the one given to `send`. -/
theorem target_of_sent? {target : SendTarget} {message : AgentMessage} (h : s.sent? target = some message)
    (hnone : s.messages.get? message.messageId = none) : target = .object message := by
  cases target with
  | id messageId =>
    obtain ⟨hget, -⟩ := Option.filter_eq_some_iff.mp h
    rw [s.keyed messageId message hget, hget] at hnone
    cases hnone
  | object message' =>
    dsimp only [sent?] at h
    split at h
    · rename_i registered hget
      split_ifs at h
      obtain rfl := Option.some.inj h
      rw [s.keyed _ _ hget, hget] at hnone
      cases hnone
    · rw [Option.some.inj h]

theorem wp_authorize {message : AgentMessage} {Q : Unit → Communication → Prop} {E : Raised → Communication → Prop}
    (hreturn : Deliverable registry policy message → Q () s)
    (hraise : ¬ Deliverable registry policy message → ∀ e, E e s) :
    wp (authorize registry policy message) Q E s := by
  unfold authorize
  unfold Deliverable at hreturn hraise
  rw [wp_bind, Registry.wp_get registry message.senderId.2]
  cases hsender : registry.agents.get? message.senderId with
  | none =>
    refine hraise (fun h => ?_) _
    rcases h.1 with h | h <;> simp [Registry.status?, hsender] at h
  | some sender =>
    rw [Registry.active_iff hsender] at hreturn hraise
    simp only [wp_ite, wp_throw, wp_bind]
    refine ⟨fun hnot => hraise (fun h => hnot h.1) _, fun hactive => ?_⟩
    rw [not_not] at hactive
    rw [Registry.wp_get registry message.recipientId.2]
    cases hrecipient : registry.agents.get? message.recipientId with
    | none =>
      have hstatus : registry.status? message.recipientId = none := by simp [Registry.status?, hrecipient]
      rw [if_pos hstatus] at hreturn hraise
      simp only [wp_ite, wp_throw, wp_pure]
      exact ⟨fun hoff => hraise (by simp [hoff]) _, fun hon => hreturn ⟨hactive, by simpa using hon⟩⟩
    | some recipient =>
      have hstatus : registry.status? message.recipientId ≠ none := by simp [Registry.status?, hrecipient]
      rw [if_neg hstatus, Registry.active_iff hrecipient] at hreturn hraise
      simp only [wp_ite, wp_throw, wp_pure]
      refine ⟨fun hoff => hraise (by simp [hoff]) _, fun hon => ⟨fun hgone => hraise (fun h => ?_) _, fun hthere => ?_⟩⟩
      · have := h.2.2
        cases hs : recipient.status <;> simp [hs] at this hgone
      · refine hreturn ⟨hactive, by simpa using hon, ?_⟩
        cases hs : recipient.status <;> simp [hs] at hthere ⊢

theorem wp_auditMessage {action : AuditAction} {result : AuditResult} {message : AgentMessage}
    {Q : Unit → Communication → Prop} {E : Raised → Communication → Prop} (hreturn : ∀ event, Q () (s.noted event))
    (hraise : ∀ e event, E e (s.noted event)) : wp (auditMessage sink action result message) Q E s :=
  wp_record (hreturn _) fun _ _ => hraise _ _

theorem wp_get_message {messageId : String} {Q : Option AgentMessage → Communication → Prop}
    {E : Raised → Communication → Prop} (hempty : ∀ e, E e s) (hget : Q (s.messages.get? messageId) s) :
    wp (get messageId) Q E s := by
  unfold get
  simp only [wp_ite, wp_throw, wp_bind, wp_get, wp_pure]
  exact ⟨fun _ => hempty _, fun _ => hget⟩

theorem changes_create (message : AgentMessage) :
    wp (create message) (fun _ s' => Changes registry policy s s') (fun _ s' => Changes registry policy s s') s := by
  unfold create
  simp only [wp_bind, wp_get, wp_ite, wp_throw, wp_modify, wp_pure]
  refine ⟨fun _ => .unchanged rfl, fun hnew => ⟨fun _ => .unchanged rfl, fun hstatus => ?_⟩⟩
  exact .created message (by simpa using hnew) (not_not.mp hstatus) rfl

theorem changes_reject (messageId : String) :
    wp (reject sink messageId) (fun _ s' => Changes registry policy s s')
      (fun _ s' => Changes registry policy s s') s := by
  unfold reject
  rw [wp_bind]
  apply wp_get_message fun _ => .unchanged rfl
  cases hget : s.messages.get? messageId with
  | none => exact .unchanged rfl
  | some message =>
    simp only [wp_ite, wp_throw, wp_bind, wp_modify, wp_pure]
    refine ⟨fun _ => .unchanged rfl, fun hstatus => ?_⟩
    have hrejected : Changes registry policy s (put { message with status := .rejected } s) :=
      .rejected message (by rw [s.keyed messageId message hget, hget]) (not_not.mp hstatus) rfl
    exact wp_auditMessage hrejected.noted fun _ => hrejected.noted

theorem changes_send (target : SendTarget) :
    wp (send sink registry policy target) (fun _ s' => Changes registry policy s s')
      (fun _ s' => Changes registry policy s s') s := by
  unfold send
  rw [wp_bind]
  apply wp_lookup
  · intro message hsent
    rw [wp_bind]
    refine wp_auditMessage (fun event => ?_) fun _ _ => .unchanged rfl
    -- what `_send_authorized` leaves behind stands, also when the sink raises afterwards
    have hafter : ∀ {s' : Communication}, Changes registry policy s s' →
        wp (auditMessage sink .failed .failure message) (fun _ s' => Changes registry policy s s')
          (fun _ s' => Changes registry policy s s') s' :=
      fun hchanges => wp_auditMessage hchanges.noted fun _ => hchanges.noted
    rw [wp_tryCatch]
    unfold sendAuthorized
    simp only [wp_bind, wp_modify, wp_throw, wp_pure]
    refine wp_authorize (fun hdeliverable => ?_) fun _ _ => hafter (.unchanged rfl)
    have hdelivered : Changes registry policy s (put { message with status := .delivered } (s.noted event)) :=
      .delivered message (old_of_sent? hsent) hdeliverable rfl
    exact wp_auditMessage hdelivered.noted fun _ event => hafter (hdelivered.noted event)
  · exact fun _ _ => .unchanged rfl

end

end Communication

/-! ## Calls -/

inductive MessageCall
  | create (message : AgentMessage)
  | send (target : SendTarget)
  | reject (messageId : String)

def MessageCall.run (sink : Sink) (registry : Registry) (policy : CommunicationPolicy) :
    MessageCall → EStateM Raised Communication AgentMessage
  | create message => Communication.create message
  | send target => Communication.send sink registry policy target
  | reject messageId => Communication.reject sink messageId

namespace Communication

theorem changes_run (sink : Sink) (registry : Registry) (policy : CommunicationPolicy) (call : MessageCall)
    (s : Communication) : Changes registry policy s (after (call.run sink registry policy) s) := by
  apply after_of_wp
  cases call with
  | create message => exact changes_create message
  | send target => exact changes_send target
  | reject messageId => exact changes_reject messageId

end Communication

end Atlas.ControlPlane
