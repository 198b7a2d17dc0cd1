import Atlas.ControlPlane.Communication

/-!
# Runs of the communication engine

The sink does not raise here; the registry may be another one at every call.

* `wp_send_quiet`, `wp_reject_quiet` : what `send` and `reject` leave behind, in full; `outcome_next` : the same of
  every call;
* `messages_obey_iff` : the runs in which the statuses of messages follow the state machine;
* `eventIds_iff` : the runs whose audit records have distinct event ids.
-/

namespace Atlas.ControlPlane
open Raising

namespace Communication

section
variable {registry : Registry} {policy : CommunicationPolicy} {s : Communication}

/-! ## Whole calls -/

/-- A message that is sent and delivered. -/
def delivering (message : AgentMessage) (s : Communication) : Communication :=
  let delivered := { message with status := .delivered }
  noted (auditRecord delivered .completed .success)
    (put delivered (noted (auditRecord message .requested .success) s))

/-- A message that is sent and not delivered. -/
def failing (message : AgentMessage) (s : Communication) : Communication :=
  noted (auditRecord message .failed .failure) (noted (auditRecord message .requested .success) s)

def rejecting (message : AgentMessage) (s : Communication) : Communication :=
  let rejected := { message with status := .rejected }
  noted (auditRecord rejected .failed .failure) (put rejected s)

theorem wp_send_quiet {target : SendTarget} {Q : AgentMessage → Communication → Prop}
    {E : Raised → Communication → Prop} (hnone : s.sent? target = none → ∀ e, E e s)
    (hdelivered : ∀ message, s.sent? target = some message → Deliverable registry policy message →
      Q { message with status := .delivered } (delivering message s))
    (hfailed : ∀ message, s.sent? target = some message → ¬ Deliverable registry policy message →
      ∀ e, E e (failing message s)) : wp (send quiet registry policy target) Q E s := by
  unfold send
  rw [wp_bind]
  refine wp_lookup (fun message hsent => ?_) hnone
  simp only [wp_bind, wp_tryCatch, wp_throw]
  unfold auditMessage
  rw [wp_record_quiet]
  unfold sendAuthorized
  simp only [wp_bind, wp_modify, wp_pure]
  apply wp_authorize
  · intro hdeliverable
    exact wp_record_quiet.mpr (hdelivered message hsent hdeliverable)
  · intro hnot e
    exact wp_record_quiet.mpr (hfailed message hsent hnot e)

theorem wp_reject_quiet {messageId : String} {Q : AgentMessage → Communication → Prop}
    {E : Raised → Communication → Prop} (hraise : ∀ e, E e s)
    (hreject : ∀ message, s.messages.get? messageId = some message → message.status = .created →
      Q { message with status := .rejected } (rejecting message s)) : wp (reject quiet messageId) Q E s := by
  unfold reject
  rw [wp_bind]
  apply wp_get_message hraise
  cases hget : s.messages.get? messageId with
  | none => exact hraise _
  | some message =>
    simp only [wp_ite, wp_throw, wp_bind, wp_modify, wp_pure]
    exact ⟨fun _ => hraise _, fun hstatus => wp_record_quiet.mpr (hreject message hget (not_not.mp hstatus))⟩

theorem after_send (target : SendTarget) : after (send quiet registry policy target) s =
    match s.sent? target with
    | none => s
    | some message => if Deliverable registry policy message then delivering message s else failing message s := by
  apply after_eq_of_wp
  apply wp_send_quiet
  · intro hnone e
    rw [hnone]
  · intro message hsent hdeliverable
    rw [hsent]
    exact (if_pos hdeliverable).symm
  · intro message hsent hnot e
    rw [hsent]
    exact (if_neg hnot).symm

theorem after_create (message : AgentMessage) : after (create message) s = s ∨
    s.messages.get? message.messageId = none ∧ message.status = .created ∧
      after (create message) s = put message s := by
  refine @after_of_wp _ _ _ s (create message) (fun s' => s' = s ∨ s.messages.get? message.messageId = none ∧
    message.status = .created ∧ s' = put message s) ?_
  unfold create
  simp only [wp_bind, wp_get, wp_ite, wp_throw, wp_modify, wp_pure]
  refine ⟨fun _ => .inl trivial, fun hnew => ⟨fun _ => .inl trivial, fun hstatus => ?_⟩⟩
  exact .inr ⟨by simpa using hnew, not_not.mp hstatus, trivial⟩

theorem after_reject (messageId : String) : after (reject quiet messageId) s = s ∨
    ∃ message, s.messages.get? messageId = some message ∧ message.status = .created ∧
      after (reject quiet messageId) s = rejecting message s := by
  refine @after_of_wp _ _ _ s (reject quiet messageId) (fun s' => s' = s ∨ ∃ message,
    s.messages.get? messageId = some message ∧ message.status = .created ∧ s' = rejecting message s) ?_
  apply wp_reject_quiet
  · exact fun _ => .inl rfl
  · exact fun message hget hstatus => .inr ⟨message, hget, hstatus, rfl⟩

end

end Communication

/-! ## The status machine -/

/-- A call, with the registry it meets. -/
structure MessageEvent where
  registry : Registry
  call : MessageCall

namespace Communication

section
variable (policy : CommunicationPolicy)

def next (s : Communication) (event : MessageEvent) : Communication :=
  after (event.call.run quiet event.registry policy) s

def step (s : Communication) (event : MessageEvent) : Option Communication := some (next policy s event)

/-- The call gets no message past the lookup of `send`. -/
def SendsNothing (s : Communication) (event : MessageEvent) : Prop :=
  ∀ target, event.call = .send target → s.sent? target = none

/-- What becomes of everything in a call. -/
inductive Outcome (s : Communication) (event : MessageEvent) (s' : Communication) : Prop
  | unchanged (hnothing : SendsNothing s event) (hsame : s' = s)
  | created (message : AgentMessage) (hnothing : SendsNothing s event) (hstatus : message.status = .created)
      (hput : s' = put message s)
  | rejected (message : AgentMessage) (hnothing : SendsNothing s event)
      (hold : s.messages.get? message.messageId = some message) (hstatus : message.status = .created)
      (hreject : s' = rejecting message s)
  | delivered (target : SendTarget) (message : AgentMessage) (hcall : event.call = .send target)
      (hsent : s.sent? target = some message) (hdeliverable : Deliverable event.registry policy message)
      (hdeliver : s' = delivering message s)
  | failed (target : SendTarget) (message : AgentMessage) (hcall : event.call = .send target)
      (hsent : s.sent? target = some message) (hfail : s' = failing message s)

theorem outcome_next (s : Communication) (event : MessageEvent) : Outcome policy s event (next policy s event) := by
  obtain ⟨registry, call⟩ := event
  unfold next
  cases call with
  | create message =>
    have hnothing : SendsNothing s ⟨registry, .create message⟩ := fun _ h => nomatch h
    rcases after_create message with hsame | ⟨-, hstatus, hput⟩
    · exact .unchanged hnothing hsame
    · exact .created message hnothing hstatus hput
  | reject messageId =>
    have hnothing : SendsNothing s ⟨registry, .reject messageId⟩ := fun _ h => nomatch h
    rcases after_reject messageId with hsame | ⟨message, hget, hstatus, hreject⟩
    · exact .unchanged hnothing hsame
    · rw [← s.keyed messageId message hget] at hget
      exact .rejected message hnothing hget hstatus hreject
  | send target =>
    have hafter := @after_send registry policy s target
    cases hsent : s.sent? target with
    | none =>
      rw [hsent] at hafter
      refine .unchanged (fun other h => ?_) hafter
      obtain rfl : target = other := by simpa using h
      exact hsent
    | some message =>
      rw [hsent] at hafter
      dsimp only at hafter
      split_ifs at hafter with hdeliverable
      · exact .delivered target message rfl hsent hdeliverable hafter
      · exact .failed target message rfl hsent hafter

/-- A stored message stays as it is, or it was `created` and is delivered or rejected. -/
def Transition (message message' : AgentMessage) : Prop :=
  message' = message ∨ message.status = .created ∧
    (message' = { message with status := .delivered } ∨ message' = { message with status := .rejected })

/-- Every stored message makes a transition. -/
def KeepsStatuses (s : Communication) (event : MessageEvent) : Prop :=
  ∀ messageId message, s.messages.get? messageId = some message →
    ∃ message', (next policy s event).messages.get? messageId = some message' ∧ Transition message message'

/-- A call that raises leaves the stored messages as they are. -/
def RaisingKeeps (s : Communication) (event : MessageEvent) : Prop :=
  ∀ e s', (event.call.run quiet event.registry policy).run s = .error e s' → s'.messages = s.messages

/-- A message object that is not `created` itself gets nothing delivered, neither itself nor a registered message of
its id. -/
def RefusesStale (s : Communication) (event : MessageEvent) : Prop :=
  ∀ message, event.call = .send (.object message) → message.status ≠ .created →
    (next policy s event).messages = s.messages

/-- What becomes delivered was `created`, as a registered message or as the object given to `send`. -/
def DeliversCreated (s : Communication) (event : MessageEvent) : Prop :=
  ∀ messageId message', (next policy s event).messages.get? messageId = some message' → message'.status = .delivered →
    s.messages.get? messageId = some message' ∨
      (∃ message, s.messages.get? messageId = some message ∧ message.status = .created) ∨
      ∃ message, event.call = .send (.object message) ∧ message.messageId.val = messageId ∧ message.status = .created

/-- An object that gets a message delivered is `created` itself. -/
def SendsUnstale (s : Communication) (event : MessageEvent) : Prop :=
  ∀ message found, event.call = .send (.object message) → s.sent? (.object message) = some found →
    Deliverable event.registry policy found → message.status = .created

/-- A deliverable object that is not registered is `created`. -/
def SendsCreated (s : Communication) (event : MessageEvent) : Prop :=
  ∀ message, event.call = .send (.object message) → s.messages.get? message.messageId = none →
    Deliverable event.registry policy message → message.status = .created

variable {policy}

theorem keepsStatuses (s : Communication) (event : MessageEvent) : KeepsStatuses policy s event := by
  intro messageId message hget
  have hset : ∀ updated : AgentMessage, (messageId = updated.messageId.val → Transition message updated) →
      (next policy s event).messages = s.messages.set updated.messageId updated →
      ∃ message', (next policy s event).messages.get? messageId = some message' ∧ Transition message message' := by
    intro updated htransition hmessages
    rw [hmessages, Dict.get?_set]
    split_ifs with hkey
    · exact ⟨updated, rfl, htransition hkey⟩
    · exact ⟨message, hget, .inl rfl⟩
  cases changes_run quiet event.registry policy event.call s with
  | unchanged hmessages => exact ⟨message, by rw [next, hmessages, hget], .inl rfl⟩
  | created new hnew _ hmessages =>
    refine hset new (fun hkey => ?_) hmessages
    rw [← hkey, hget] at hnew
    cases hnew
  | delivered sent hold _ hmessages =>
    refine hset { sent with status := .delivered } (fun hkey => ?_) hmessages
    dsimp only at hkey
    rw [← hkey, hget] at hold
    rcases hold with ⟨hsame, hstatus⟩ | hnone
    · obtain rfl := Option.some.inj hsame
      exact .inr ⟨hstatus, .inl rfl⟩
    · cases hnone
  | rejected old hold hstatus hmessages =>
    refine hset { old with status := .rejected } (fun hkey => ?_) hmessages
    dsimp only at hkey
    rw [← hkey, hget] at hold
    obtain rfl := Option.some.inj hold
    exact .inr ⟨hstatus, .inr rfl⟩

theorem raisingKeeps (s : Communication) (event : MessageEvent) : RaisingKeeps policy s event := by
  obtain ⟨registry, call⟩ := event
  have hwp : wp (call.run quiet registry policy) (fun _ _ => True) (fun _ s' => s'.messages = s.messages) s := by
    cases call with
    | create message =>
      show wp (create message) _ _ _
      unfold create
      simp only [wp_bind, wp_get, wp_ite, wp_throw, wp_modify, wp_pure]
      exact ⟨fun _ => trivial, fun _ => ⟨fun _ => trivial, fun _ => trivial⟩⟩
    | send target => exact wp_send_quiet (fun _ _ => rfl) (fun _ _ _ => trivial) fun _ _ _ _ => rfl
    | reject messageId => exact wp_reject_quiet (fun _ => rfl) fun _ _ _ => trivial
  intro e s' hraise
  rw [wp, hraise] at hwp
  exact hwp

theorem refusesStale_iff (s : Communication) (event : MessageEvent) :
    RefusesStale policy s event ↔ SendsUnstale policy s event := by
  constructor
  · intro h message found hcall hsent hdeliverable
    by_contra hstale
    have hsame := h message hcall hstale
    rw [next, hcall, MessageCall.run, after_send, hsent] at hsame
    dsimp only at hsame
    rw [if_pos hdeliverable] at hsame
    have hget : s.messages.get? found.messageId = some { found with status := .delivered } := by
      rw [← hsame]
      exact Dict.get?_set_self s.messages found.messageId _
    rcases old_of_sent? hsent with ⟨hold, hstatus⟩ | hnone
    · rw [hold] at hget
      rw [Option.some.inj hget] at hstatus
      cases hstatus
    · rw [hnone] at hget
      cases hget
  · intro h message hcall hstale
    rw [next, hcall, MessageCall.run, after_send]
    cases hsent : s.sent? (.object message) with
    | none => rfl
    | some found =>
      dsimp only
      rw [if_neg fun hdeliverable => hstale (h message found hcall hsent hdeliverable)]
      rfl

/-- A message that is delivered was so before, or the call has sent it. -/
theorem delivered_next {event : MessageEvent} {messageId : String} {message' : AgentMessage}
    (hnext : (next policy s event).messages.get? messageId = some message')
    (hdelivered : message'.status = .delivered) :
    s.messages.get? messageId = some message' ∨ ∃ target found, event.call = .send target ∧
      s.sent? target = some found ∧ Deliverable event.registry policy found ∧ messageId = found.messageId := by
  have hset : ∀ updated : AgentMessage, (s.messages.set updated.messageId updated).get? messageId = some message' →
      s.messages.get? messageId = some message' ∨ messageId = updated.messageId ∧ updated = message' := by
    intro updated hget
    rw [Dict.get?_set] at hget
    split_ifs at hget with hkey
    · exact .inr ⟨hkey, Option.some.inj hget⟩
    · exact .inl hget
  cases outcome_next policy s event with
  | unchanged _ hsame =>
    rw [hsame] at hnext
    exact .inl hnext
  | created message _ hstatus hput =>
    rw [hput] at hnext
    refine (hset message hnext).imp_right ?_
    rintro ⟨-, rfl⟩
    rw [hstatus] at hdelivered
    cases hdelivered
  | rejected message _ _ _ hreject =>
    rw [hreject] at hnext
    refine (hset { message with status := .rejected } hnext).imp_right ?_
    rintro ⟨-, rfl⟩
    cases hdelivered
  | delivered target message hcall hsent hdeliverable hdeliver =>
    rw [hdeliver] at hnext
    refine (hset { message with status := .delivered } hnext).imp_right ?_
    rintro ⟨hkey, -⟩
    exact ⟨target, message, hcall, hsent, hdeliverable, hkey⟩
  | failed _ _ _ _ hfail =>
    rw [hfail] at hnext
    exact .inl hnext

theorem deliversCreated_iff (s : Communication) (event : MessageEvent) :
    DeliversCreated policy s event ↔ SendsCreated policy s event := by
  constructor
  · intro h message hcall hnone hdeliverable
    have hsent : s.sent? (.object message) = some message := by
      rw [sent?, hnone]
    have hnext : (next policy s event).messages.get? message.messageId =
        some { message with status := .delivered } := by
      rw [next, hcall, MessageCall.run, after_send, hsent]
      dsimp only
      rw [if_pos hdeliverable]
      exact Dict.get?_set_self s.messages message.messageId _
    rcases h _ _ hnext rfl with hold | ⟨old, hold, -⟩ | ⟨object, hobject, -, hstatus⟩
    · rw [hnone] at hold
      cases hold
    · rw [hnone] at hold
      cases hold
    · rw [hcall] at hobject
      obtain rfl : message = object := by simpa using hobject
      exact hstatus
  · intro h messageId message' hnext hdelivered
    rcases delivered_next hnext hdelivered with hsame | ⟨target, found, hcall, hsent, hdeliverable, rfl⟩
    · exact .inl hsame
    · rcases old_of_sent? hsent with hold | hnone
      · exact .inr (.inl ⟨found, hold⟩)
      · obtain rfl := target_of_sent? hsent hnone
        exact .inr (.inr ⟨found, hcall, rfl, h found hcall hnone hdeliverable⟩)

/-- **The status machine.** In a run every call keeps to it just when no object that is not `created` gets a message
delivered. Where an object stands for the registered message of its id, it is the unregistered objects that matter. -/
theorem messages_obey_iff (policy : CommunicationPolicy) (events : List MessageEvent) :
    (Run.Each (step policy) (fun s event =>
        KeepsStatuses policy s event ∧ RaisingKeeps policy s event ∧ RefusesStale policy s event) new events ↔
      Run.Each (step policy) (SendsUnstale policy) new events) ∧
    (Run.Each (step policy) (fun s event =>
        KeepsStatuses policy s event ∧ RaisingKeeps policy s event ∧ DeliversCreated policy s event) new events ↔
      Run.Each (step policy) (SendsCreated policy) new events) := by
  constructor <;> apply Run.each_congr (fun _ => True) (fun _ _ _ _ _ => trivial) _ trivial <;> intro s event _
  · rw [and_iff_right (keepsStatuses s event), and_iff_right (raisingKeeps s event)]
    exact refusesStale_iff s event
  · rw [and_iff_right (keepsStatuses s event), and_iff_right (raisingKeeps s event)]
    exact deliversCreated_iff s event

end

/-- Two agents that are ready. -/
def twoAgents : Registry :=
  (Registry.empty.enter ⟨⟨"momentum", momentum_ne⟩, ⟨"1", version_ne⟩, .ready⟩ ready_ne).enter
    ⟨⟨"risk", by decide⟩, ⟨"1", version_ne⟩, .ready⟩ ready_ne

def request (status : MessageStatus) : AgentMessage :=
  ⟨⟨"m1", by decide⟩, ⟨"momentum", momentum_ne⟩, ⟨"risk", by decide⟩, .request, status⟩

/-- An object that is already rejected, and not registered, is delivered. -/
theorem rejected_object_delivered :
    (next {} new ⟨twoAgents, .send (.object (request .rejected))⟩).messages.get? "m1" = some (request .delivered) ∧
      ¬ RefusesStale {} new ⟨twoAgents, .send (.object (request .rejected))⟩ ∧
      ¬ DeliversCreated {} new ⟨twoAgents, .send (.object (request .rejected))⟩ := by
  have hdelivered : (next {} new ⟨twoAgents, .send (.object (request .rejected))⟩).messages.get? "m1" =
      some (request .delivered) := rfl
  refine ⟨hdelivered, fun h => ?_, fun h => ?_⟩
  · rw [h (request .rejected) rfl (by decide)] at hdelivered
    cases hdelivered
  · rcases h "m1" _ hdelivered rfl with hold | ⟨message, hold, -⟩ | ⟨message, hobject, -, hstatus⟩
    · cases hold
    · cases hold
    · obtain rfl : request .rejected = message := by simpa using hobject
      cases hstatus

/-! ## Event ids -/

section
variable {policy : CommunicationPolicy} {s : Communication} {event : MessageEvent}

/-- The names that a call puts behind the ones there are: none, that of a message it rejects, or that of a message it
sends, twice. -/
theorem names_next (policy : CommunicationPolicy) (s : Communication) (event : MessageEvent) :
    (SendsNothing s event ∧ names (next policy s event).audit = names s.audit) ∨
    (∃ message : AgentMessage, SendsNothing s event ∧ s.messages.get? message.messageId = some message ∧
      message.status = .created ∧ names (next policy s event).audit = names s.audit ++ [message.messageId] ∧
      (next policy s event).messages.get? message.messageId = some { message with status := .rejected }) ∨
    ∃ message : AgentMessage, ¬ SendsNothing s event ∧
      names (next policy s event).audit = names s.audit ++ [message.messageId, message.messageId] := by
  have hnames : ∀ records more, names (records ++ more) = names records ++ names more := fun records more =>
    List.filterMap_append
  have hsends : ∀ {target message}, event.call = .send target → s.sent? target = some message →
      ¬ SendsNothing s event := by
    intro target message hcall hsent hnothing
    rw [hnothing target hcall] at hsent
    cases hsent
  cases outcome_next policy s event with
  | unchanged hnothing hsame =>
    rw [hsame]
    exact .inl ⟨hnothing, rfl⟩
  | created message hnothing _ hput =>
    rw [hput]
    exact .inl ⟨hnothing, rfl⟩
  | rejected message hnothing hold hstatus hreject =>
    rw [hreject]
    exact .inr (.inl ⟨message, hnothing, hold, hstatus, hnames s.audit _,
      Dict.get?_set_self s.messages message.messageId _⟩)
  | delivered target message hcall hsent _ hdeliver =>
    refine .inr (.inr ⟨message, hsends hcall hsent, ?_⟩)
    rw [hdeliver]
    show names (s.audit ++ [_] ++ [_]) = _
    rw [List.append_assoc]
    exact hnames s.audit _
  | failed target message hcall hsent hfail =>
    refine .inr (.inr ⟨message, hsends hcall hsent, ?_⟩)
    rw [hfail]
    show names (s.audit ++ [_] ++ [_]) = _
    rw [List.append_assoc]
    exact hnames s.audit _

/-- As long as the names are distinct, they are those of rejected messages. -/
def NamesSettled (s : Communication) : Prop :=
  (names s.audit).Nodup → ∀ id ∈ names s.audit, ∃ message, s.messages.get? id = some message ∧ message.status ≠ .created

theorem nodup_back (h : (names (next policy s event).audit).Nodup) : (names s.audit).Nodup := by
  rcases names_next policy s event with ⟨-, hnames⟩ | ⟨message, -, -, -, hnames, -⟩ | ⟨message, -, hnames⟩
  · rwa [hnames] at h
  · rw [hnames] at h
    exact h.of_append_left
  · rw [hnames] at h
    exact h.of_append_left

theorem namesSettled_next (h : NamesSettled s) : NamesSettled (next policy s event) := by
  intro hnodup
  have hback := h (nodup_back hnodup)
  -- a message that is not `created` does not change any more
  have hold : ∀ id ∈ names s.audit, ∃ message, (next policy s event).messages.get? id = some message ∧
      message.status ≠ .created := by
    intro id hid
    obtain ⟨message, hget, hstatus⟩ := hback id hid
    obtain ⟨message', hget', htransition⟩ := @keepsStatuses policy s event id message hget
    rcases htransition with rfl | ⟨hcreated, -⟩
    · exact ⟨_, hget', hstatus⟩
    · exact absurd hcreated hstatus
  rcases names_next policy s event with ⟨-, hnames⟩ | ⟨message, -, -, -, hnames, hget⟩ | ⟨message, -, hnames⟩
  · rwa [hnames]
  · rw [hnames]
    intro id hid
    rcases List.mem_append.mp hid with hid | hid
    · exact hold id hid
    · rw [List.mem_singleton.mp hid]
      exact ⟨_, hget, by simp⟩
  · rw [hnames, List.nodup_append] at hnodup
    simp at hnodup

theorem nodup_next_iff (hsettled : NamesSettled s) (h : (names s.audit).Nodup) :
    (names (next policy s event).audit).Nodup ↔ SendsNothing s event := by
  rcases names_next policy s event with ⟨hnothing, hnames⟩ | ⟨message, hnothing, hget, hstatus, hnames, -⟩ |
    ⟨message, hsends, hnames⟩
  · rw [hnames]
    exact iff_of_true h hnothing
  · rw [hnames, List.nodup_append]
    refine iff_of_true ⟨h, List.nodup_singleton _, fun id hid other hother => ?_⟩ hnothing
    rw [List.mem_singleton.mp hother]
    rintro rfl
    obtain ⟨message', hget', hstatus'⟩ := hsettled h _ hid
    rw [hget] at hget'
    rw [← Option.some.inj hget'] at hstatus'
    exact hstatus' hstatus
  · rw [hnames]
    refine iff_of_false (fun hnodup => ?_) hsends
    rw [List.nodup_append] at hnodup
    simp at hnodup

/-- **Event ids.** The records of a run have distinct event ids, and the table keeps all of them, just when no call of
the run gets a message past the lookup of `send`. -/
theorem eventIds_iff {events : List MessageEvent} (hrun : Run.exec (step policy) new events = some s) :
    ((names s.audit).Nodup ↔ Run.Each (step policy) SendsNothing new events) ∧
      (retained s.audit = s.audit ↔ Run.Each (step policy) SendsNothing new events) := by
  have hnext : ∀ {s s' : Communication} {event : MessageEvent}, step policy s event = some s' →
      s' = next policy s event :=
    fun h => (Option.some.inj h).symm
  have hiff : (names s.audit).Nodup ↔ Run.Each (step policy) SendsNothing new events := by
    rw [← @Run.always_iff_last _ _ _ (fun s => (names s.audit).Nodup) ?_ _ _ _ hrun]
    · apply Run.always_iff_each NamesSettled
      · intro s event s' hsettled hstep
        rw [hnext hstep]
        exact namesSettled_next hsettled
      · intro s event s' hsettled h hstep
        rw [hnext hstep]
        exact nodup_next_iff hsettled h
      · exact fun _ _ h => nomatch h
      · exact List.nodup_nil
    · intro s event s' hstep h
      rw [hnext hstep] at h
      exact nodup_back h
  exact ⟨hiff, (retained_iff s.audit).trans hiff⟩

end

/-- A message that is registered and rejected leaves one record. -/
theorem eventIds_iff_reject :
    retained [auditRecord (request .rejected) .failed .failure] =
      [auditRecord (request .rejected) .failed .failure] := by
  refine ((@eventIds_iff {} _ [⟨twoAgents, .create (request .created)⟩, ⟨twoAgents, .reject "m1"⟩] rfl).2).mpr ?_
  exact fun _ _ => ⟨fun _ h => (nomatch h), fun _ _ => ⟨fun _ h => (nomatch h), trivial⟩⟩

/-- A message that is sent leaves two records with its id, and the table keeps the first. -/
theorem send_records_clash : ∃ s requested completed,
    Run.exec (step {}) new [⟨twoAgents, .send (.object (request .created))⟩] = some s ∧
      s.audit = [requested, completed] ∧ requested.eventId = completed.eventId ∧ retained s.audit = [requested] :=
  ⟨_, auditRecord (request .created) .requested .success, auditRecord (request .delivered) .completed .success, rfl,
    rfl, rfl, rfl⟩

end Communication

end Atlas.ControlPlane
