import Atlas.Broker.Topics

/-!
# The batches a subscriber gets

* `Log` : a topic as its readers see it: the messages published since it was subscribed to, and two cursors;
  `observe` : what an event of the broker means for the log;
* `Holds` : the subscription holds the part of the log that is still to be read (`holds_exec`, over runs);
* `IsArrayOf` : the body of a reply is a JSON array of the messages of a batch;
* `subscribe_isArrayOf_iff` : which batches make one.
-/

namespace Atlas.Broker

open Json GoJson

/-- `start` : so many messages were read or dropped; `delivered` : so many have reached the buffer. -/
structure Log where
  published : List Bytes
  start : Nat
  delivered : Nat

namespace Log

def empty : Log := ⟨[], 0, 0⟩

/-- The messages delivered and neither read nor dropped, in publish order. -/
def undropped (l : Log) : List Bytes := (l.published.take l.delivered).drop l.start

def publish (l : Log) (body : Bytes) : Log := { l with published := l.published ++ [body] }

/-- One more message is delivered; the oldest is dropped when there is no room for it. -/
def deliver (l : Log) : Log :=
  { l with delivered := l.delivered + 1
           start := if subscriberBufferSize ≤ l.delivered - l.start then l.start + 1 else l.start }

/-- All that was delivered is read. -/
def read (l : Log) : Log := { l with start := l.delivered }

end Log

namespace Service

/-- The topic of a body that the handler accepts: it answers 200 and the topic has a subscription. -/
def publishedOn (b : Service) (isPost : Bool) (body : Option Bytes) (topic : String) : Option Bytes :=
  match body, (b.publish isPost body).2 with
  | some body, .ok _ =>
    match validate body with
    | .ok msg => if msg.messageType = topic ∧ (b.subs topic).isSome then some body else none
    | .error _ => none
  | _, _ => none

/-- What an event means for the log of `topic`. -/
def observe (topic : String) (b : Service) (l : Log) : Event → Log
  | .publish isPost body => (b.publishedOn isPost body topic).elim l l.publish
  | .push t => if t = topic then l.deliver else l
  | .subscribe isGet t => if isGet ∧ t = topic then l.read else l
  | .receive _ => l
  | .close => l

/-- The broker with the log of one topic. -/
def logged (topic : String) : Service × Log → Event → Option (Service × Log)
  | (b, l), e => (b.step e).map fun b' => (b', b.observe topic l e)

/-- The subscription holds what the log has left to read, and every message was accepted. -/
structure Holds (sub : Subscription) (l : Log) : Prop where
  start_le : l.start ≤ l.delivered
  delivered_le : l.delivered ≤ l.published.length
  messages : sub.buffer.messages = l.undropped
  maxSize : sub.buffer.maxSize = subscriberBufferSize
  pending : sub.hand.toList ++ sub.queue = l.published.drop l.delivered
  accepted : ∀ body ∈ l.published, ∃ msg, validate body = .ok msg

theorem holds_newSubscription : Holds newSubscription .empty where
  start_le := le_rfl
  delivered_le := le_rfl
  messages := rfl
  maxSize := rfl
  pending := rfl
  accepted := by simp [Log.empty]

/-- A topic without subscription has an empty log. -/
def HoldsOf (topic : String) (s : Service × Log) : Prop :=
  Holds (s.1.subOf topic) s.2 ∧ (s.1.subs topic = none → s.2 = .empty)

theorem Holds.publish {sub : Subscription} {l : Log} {body : Bytes} {msg : EngineMessage} (h : Holds sub l)
    (hbody : validate body = .ok msg) : Holds { sub with queue := sub.queue ++ [body] } (l.publish body) where
  start_le := h.start_le
  delivered_le := by
    have := h.delivered_le
    simp only [Log.publish, List.length_append]
    omega
  messages := by
    rw [Log.undropped, Log.publish, List.take_append_of_le_length h.delivered_le]
    exact h.messages
  maxSize := h.maxSize
  pending := by
    rw [← List.append_assoc, h.pending, Log.publish, List.drop_append_of_le_length h.delivered_le]
  accepted := by
    intro b hb
    rcases List.mem_append.mp hb with hb | hb
    · exact h.accepted b hb
    · exact ⟨msg, by rw [List.mem_singleton.mp hb, hbody]⟩

theorem Holds.receive {data : Bytes} {queue : List Bytes} {buffer : SubscriberBuffer} {l : Log}
    (h : Holds ⟨data :: queue, none, buffer⟩ l) : Holds ⟨queue, some data, buffer⟩ l :=
  ⟨h.start_le, h.delivered_le, h.messages, h.maxSize, h.pending, h.accepted⟩

theorem Holds.push {data : Bytes} {queue : List Bytes} {buffer : SubscriberBuffer} {l : Log}
    (h : Holds ⟨queue, some data, buffer⟩ l) : Holds ⟨queue, none, buffer.push data⟩ l.deliver := by
  have hpending : l.published.drop l.delivered = data :: queue := h.pending.symm
  have hlt : l.delivered < l.published.length := by
    by_contra hge
    rw [List.drop_eq_nil_of_le (not_lt.mp hge)] at hpending
    cases hpending
  have hdata : l.published.take (l.delivered + 1) = l.published.take l.delivered ++ [data] := by
    rw [List.take_add_one, ← List.head?_drop, hpending]
    rfl
  have hlen : (l.published.take l.delivered).length = l.delivered := by
    rw [List.length_take, min_eq_left h.delivered_le]
  have hroom : buffer.messages.length = l.delivered - l.start := by
    rw [h.messages, Log.undropped, List.length_drop, hlen]
  have hmessages : buffer.messages = l.undropped := h.messages
  have hmax : buffer.maxSize = subscriberBufferSize := h.maxSize
  have hstart := h.start_le
  refine ⟨?_, hlt, ?_, h.maxSize, ?_, h.accepted⟩
  · simp only [Log.deliver]
    split_ifs <;> omega
  · simp only [SubscriberBuffer.push, Log.undropped, Log.deliver, hdata, hroom, hmax]
    split_ifs with hfull
    · have hpos : 0 < subscriberBufferSize := by decide
      rw [hmessages, Log.undropped, List.drop_drop, List.drop_append_of_le_length (by omega)]
    · rw [hmessages, Log.undropped, List.drop_append_of_le_length (by omega)]
  · show queue = l.published.drop (l.delivered + 1)
    rw [← List.drop_drop, hpending]
    rfl

theorem Holds.read {sub : Subscription} {l : Log} (h : Holds sub l) :
    Holds { sub with buffer := sub.buffer.drain.2 } l.read where
  start_le := le_rfl
  delivered_le := h.delivered_le
  messages := by
    rw [Log.undropped, Log.read, List.drop_eq_nil_of_le (by simp)]
    rfl
  maxSize := h.maxSize
  pending := h.pending
  accepted := h.accepted

/-! ## The handlers -/

@[simp] theorem setSub_subs (b : Service) (topic : String) (sub : Subscription) :
    (b.setSub topic sub).subs = Function.update b.subs topic (some sub) := rfl

theorem subOf_setSub_self (b : Service) (topic : String) (sub : Subscription) :
    (b.setSub topic sub).subOf topic = sub := by
  simp [subOf]

theorem subOf_setSub_ne (b : Service) {topic t : String} (sub : Subscription) (h : topic ≠ t) :
    (b.setSub t sub).subOf topic = b.subOf topic := by
  simp [subOf, Function.update_of_ne h]

theorem subOf_eq {b : Service} {topic : String} {sub : Subscription} (h : b.subs topic = some sub) :
    b.subOf topic = sub := by
  rw [subOf, h]
  rfl

/-- What `/publish` does: nothing, or it puts an accepted body into the channel of its topic. -/
theorem publish_cases (b : Service) (isPost : Bool) (body : Option Bytes) :
    ((b.publish isPost body).1 = b ∧ ∀ topic, b.publishedOn isPost body topic = none) ∨
    ∃ data msg sub, validate data = .ok msg ∧ b.subs msg.messageType = some sub ∧
      (b.publish isPost body).1 = b.setSub msg.messageType { sub with queue := sub.queue ++ [data] } ∧
      ∀ topic, b.publishedOn isPost body topic = if msg.messageType = topic then some data else none := by
  unfold publishedOn publish
  cases isPost with
  | false => exact Or.inl ⟨rfl, fun _ => by cases body <;> rfl⟩
  | true =>
    cases body with
    | none => exact Or.inl ⟨rfl, fun _ => rfl⟩
    | some data =>
      cases hdata : validate data with
      | error e => exact Or.inl ⟨by simp [hdata], fun _ => by simp [hdata]⟩
      | ok msg =>
        unfold transportPublish
        by_cases hclosed : b.closed
        · exact Or.inl ⟨by simp [hdata, hclosed], fun _ => by simp [hdata, hclosed]⟩
        · cases hsub : b.subs msg.messageType with
          | none =>
            refine Or.inl ⟨by simp [hdata, hclosed, hsub], fun topic => ?_⟩
            by_cases htopic : msg.messageType = topic
            · subst htopic
              simp [hdata, hclosed, hsub]
            · simp [hdata, hclosed, hsub, htopic]
          | some sub =>
            by_cases hroom : sub.queue.length < defaultBufferSize
            · refine Or.inr ⟨data, msg, sub, hdata, hsub, by simp [hdata, hclosed, hsub, hroom], fun topic => ?_⟩
              by_cases htopic : msg.messageType = topic
              · subst htopic
                simp [hdata, hclosed, hsub, hroom]
              · simp [hdata, hclosed, hsub, hroom, htopic]
            · exact Or.inl ⟨by simp [hdata, hclosed, hsub, hroom], fun _ => by simp [hdata, hclosed, hsub, hroom]⟩

theorem subscribe_cases (b : Service) (isGet : Bool) (topic : String) :
    ((b.subscribe isGet topic).1 = b ∧ (isGet = false ∨ topic = "")) ∨
    (isGet = true ∧ topic ≠ "" ∧
      b.subscribe isGet topic = (b.setSub topic { b.subOf topic with buffer := (b.subOf topic).buffer.drain.2 },
        .ok (arrayBody (b.subOf topic).buffer.messages))) := by
  unfold subscribe
  cases isGet with
  | false => exact Or.inl ⟨rfl, Or.inl rfl⟩
  | true =>
    by_cases htopic : topic = ""
    · exact Or.inl ⟨by simp [htopic], Or.inr htopic⟩
    · exact Or.inr ⟨rfl, htopic, by simp [htopic, SubscriberBuffer.drain]⟩

theorem receive_cases {b b' : Service} {topic : String} (h : b.step (.receive topic) = some b') :
    ∃ data queue buffer, b.subs topic = some ⟨data :: queue, none, buffer⟩ ∧
      b' = b.setSub topic ⟨queue, some data, buffer⟩ := by
  rw [step] at h
  split at h
  · exact ⟨_, _, _, by assumption, (Option.some.inj h).symm⟩
  · cases h

theorem push_cases {b b' : Service} {topic : String} (h : b.step (.push topic) = some b') :
    ∃ data queue buffer, b.subs topic = some ⟨queue, some data, buffer⟩ ∧
      b' = b.setSub topic ⟨queue, none, buffer.push data⟩ := by
  rw [step] at h
  split at h
  · exact ⟨_, _, _, by assumption, (Option.some.inj h).symm⟩
  · cases h

/-! ## Runs -/

theorem HoldsOf.setSub_ne {topic t : String} {b : Service} {l : Log} (sub : Subscription) (h : HoldsOf topic (b, l))
    (hne : topic ≠ t) : HoldsOf topic (b.setSub t sub, l) := by
  refine ⟨by rw [subOf_setSub_ne b sub hne]; exact h.1, fun hnone => h.2 ?_⟩
  simpa [Function.update_of_ne hne] using hnone

theorem HoldsOf.setSub_self {topic : String} {b : Service} {l : Log} {sub : Subscription} (h : Holds sub l) :
    HoldsOf topic (b.setSub topic sub, l) :=
  ⟨by rw [subOf_setSub_self]; exact h, fun hnone => by simp at hnone⟩

theorem HoldsOf.publish {topic : String} {b : Service} {l : Log} (h : HoldsOf topic (b, l)) (isPost : Bool)
    (body : Option Bytes) :
    HoldsOf topic ((b.publish isPost body).1, b.observe topic l (.publish isPost body)) := by
  rcases publish_cases b isPost body with ⟨hb, hlog⟩ | ⟨data, msg, sub, hdata, hsub, hb, hlog⟩
  · rw [observe, hb, hlog]
    exact h
  · rw [observe, hb, hlog]
    by_cases htopic : msg.messageType = topic
    · subst htopic
      have hold : Holds sub l := subOf_eq hsub ▸ h.1
      rw [if_pos rfl]
      exact HoldsOf.setSub_self (hold.publish hdata)
    · rw [if_neg htopic]
      exact h.setSub_ne _ (Ne.symm htopic)

theorem HoldsOf.subscribe {topic : String} (htopic : topic ≠ "") {b : Service} {l : Log} (h : HoldsOf topic (b, l))
    (isGet : Bool) (t : String) :
    HoldsOf topic ((b.subscribe isGet t).1, b.observe topic l (.subscribe isGet t)) := by
  rcases subscribe_cases b isGet t with ⟨hb, hidle⟩ | ⟨rfl, -, hb⟩
  · have hnot : ¬ (isGet = true ∧ t = topic) := by
      rintro ⟨rfl, rfl⟩
      rcases hidle with hfalse | rfl
      · cases hfalse
      · exact htopic rfl
    rw [observe, hb, if_neg hnot]
    exact h
  · rw [observe, hb]
    by_cases ht : t = topic
    · subst ht
      rw [if_pos ⟨rfl, rfl⟩]
      exact HoldsOf.setSub_self h.1.read
    · rw [if_neg (by simp [ht])]
      exact h.setSub_ne _ (Ne.symm ht)

theorem holds_step {topic : String} (htopic : topic ≠ "") (s : Service × Log) (e : Event) (s' : Service × Log)
    (h : HoldsOf topic s) (hs : logged topic s e = some s') : HoldsOf topic s' := by
  obtain ⟨b, l⟩ := s
  obtain ⟨b', hb', rfl⟩ := Option.map_eq_some_iff.mp hs
  cases e with
  | publish isPost body =>
    obtain rfl := Option.some.inj hb'
    exact h.publish isPost body
  | subscribe isGet t =>
    obtain rfl := Option.some.inj hb'
    exact h.subscribe htopic isGet t
  | receive t =>
    obtain ⟨data, queue, buffer, hsub, rfl⟩ := receive_cases hb'
    rw [observe]
    by_cases ht : t = topic
    · subst ht
      have hold : Holds ⟨data :: queue, none, buffer⟩ l := subOf_eq hsub ▸ h.1
      exact HoldsOf.setSub_self hold.receive
    · exact h.setSub_ne _ (Ne.symm ht)
  | push t =>
    obtain ⟨data, queue, buffer, hsub, rfl⟩ := push_cases hb'
    rw [observe]
    by_cases ht : t = topic
    · subst ht
      have hold : Holds ⟨queue, some data, buffer⟩ l := subOf_eq hsub ▸ h.1
      rw [if_pos rfl]
      exact HoldsOf.setSub_self hold.push
    · rw [if_neg ht]
      exact h.setSub_ne _ (Ne.symm ht)
  | close =>
    obtain rfl := Option.some.inj hb'
    exact h

/-- **The broker refines the log.** In every state of a run a subscription holds what is left of its topic's log. -/
theorem holds_exec {topic : String} (htopic : topic ≠ "") {es : List Event} {b : Service} {l : Log}
    (h : Run.exec (logged topic) (newService, .empty) es = some (b, l)) : Holds (b.subOf topic) l :=
  have h0 : HoldsOf topic (newService, .empty) := ⟨holds_newSubscription, fun _ => rfl⟩
  (Run.exec_invariant (HoldsOf topic) (holds_step htopic) h0 h).1

/-! ## The reply -/

/-- A JSON array in UTF-8, one element for each message: the value the message was accepted for. -/
def IsArrayOf (reply : Bytes) (msgs : List Bytes) : Prop :=
  Utf8.Valid reply ∧ ∃ vs, IsText reply (.arr vs) ∧ List.Forall₂ (fun msg v => firstValue msg = some v) msgs vs

/-- One JSON value, white space around its tokens, in UTF-8. -/
def IsMessageText (msg : Bytes) : Prop := Utf8.Valid msg ∧ ∃ v, IsText msg v

theorem startsWith_of_firstValue {msg : Bytes} {v : Value} (h : firstValue msg = some v) : StartsWith msg v := by
  obtain ⟨⟨w, rest⟩, hread, rfl⟩ := Option.map_eq_some_iff.mp h
  exact ⟨rest, readValue_sound _ _ _ _ hread⟩

theorem isArrayOf_arrayBody_iff {msgs : List Bytes} (h : ∀ msg ∈ msgs, ∃ v, firstValue msg = some v) :
    IsArrayOf (arrayBody msgs) msgs ↔ ∀ msg ∈ msgs, IsMessageText msg := by
  have hfirst : ∀ {vs : List Value}, List.Forall₂ (fun msg v => firstValue msg = some v) msgs vs →
      List.Forall₂ StartsWith msgs vs := fun hvs => hvs.imp fun _ _ => startsWith_of_firstValue
  constructor
  · rintro ⟨hvalid, vs, htext, hvs⟩ msg hmsg
    have htexts := (isText_arrayText_iff (hfirst hvs)).mp htext
    obtain ⟨i, hi, rfl⟩ := List.mem_iff_getElem.mp hmsg
    obtain ⟨hlen, hget⟩ := List.forall₂_iff_get.mp htexts
    exact ⟨(valid_arrayText msgs).mp hvalid _ hmsg, _, hget i hi (hlen ▸ hi)⟩
  · intro htexts
    refine ⟨(valid_arrayText msgs).mpr fun msg hmsg => (htexts msg hmsg).1, ?_⟩
    -- the value of a text is the first value, and there is only one
    choose! v hv using h
    refine ⟨msgs.map v, (isText_arrayText_iff ?_).mpr ?_, ?_⟩
    · rw [List.forall₂_map_right_iff, List.forall₂_same]
      exact fun msg hmsg => startsWith_of_firstValue (hv msg hmsg)
    · rw [List.forall₂_map_right_iff, List.forall₂_same]
      intro msg hmsg
      obtain ⟨w, hw⟩ := (htexts msg hmsg).2
      rw [(startsWith_of_firstValue (hv msg hmsg)).unique hw.startsWith]
      exact hw
    · rw [List.forall₂_map_right_iff, List.forall₂_same]
      exact hv

theorem firstValue_of_undropped {sub : Subscription} {l : Log} (h : Holds sub l) :
    ∀ msg ∈ l.undropped, ∃ v, firstValue msg = some v := by
  intro msg hmsg
  obtain ⟨m, hm⟩ := h.accepted msg (List.mem_of_mem_take (List.mem_of_mem_drop hmsg))
  obtain ⟨v, hv, -⟩ := validate_ok_iff.mp hm
  exact ⟨v, hv⟩

theorem subscribe_reply {topic : String} (htopic : topic ≠ "") {b : Service} {l : Log}
    (h : Holds (b.subOf topic) l) : (b.subscribe true topic).2 = .ok (arrayBody l.undropped) := by
  rcases subscribe_cases b true topic with ⟨-, hfalse | hempty⟩ | ⟨-, -, hb⟩
  · cases hfalse
  · exact absurd hempty htopic
  · rw [hb, h.messages]

/-- The next reply is an array of the log's undropped messages just when `arrayBody` makes one of them. -/
theorem exists_reply_iff {topic : String} (htopic : topic ≠ "") {b : Service} {l : Log}
    (h : Holds (b.subOf topic) l) :
    (∃ reply, (b.subscribe true topic).2 = .ok reply ∧ IsArrayOf reply l.undropped) ↔
      IsArrayOf (arrayBody l.undropped) l.undropped := by
  rw [subscribe_reply htopic h]
  constructor
  · rintro ⟨reply, hr, harray⟩
    cases hr
    exact harray
  · exact fun harray => ⟨_, rfl, harray⟩

/-- **The batch a subscriber gets.** After any run, the next reply is one JSON array of the undropped messages just
when each of them is one JSON text. -/
theorem subscribe_isArrayOf_iff {topic : String} (htopic : topic ≠ "") {es : List Event} {b : Service} {l : Log}
    (h : Run.exec (logged topic) (newService, .empty) es = some (b, l)) :
    (∃ reply, (b.subscribe true topic).2 = .ok reply ∧ IsArrayOf reply l.undropped) ↔
      ∀ msg ∈ l.undropped, IsMessageText msg := by
  have hold := holds_exec htopic h
  rw [exists_reply_iff htopic hold]
  exact isArrayOf_arrayBody_iff (firstValue_of_undropped hold)

/-! ### One message -/

/-- A topic is subscribed to, then one message is published and delivered. -/
def oneMessage (topic : String) (body : Bytes) : List Event :=
  [.subscribe true topic, .publish true (some body), .receive topic, .push topic]

theorem exec_oneMessage {topic : String} (htopic : topic ≠ "") {body : Bytes} {msg : EngineMessage}
    (hbody : validate body = .ok msg) (hmsg : msg.messageType = topic) :
    ∃ b, Run.exec (logged topic) (newService, .empty) (oneMessage topic body) = some (b, ⟨[body], 0, 1⟩) := by
  subst hmsg
  refine ⟨newService.setSub msg.messageType ⟨[], none, ⟨[body], subscriberBufferSize⟩⟩, ?_⟩
  simp [oneMessage, Run.exec, logged, step, observe, publishedOn, publish, subscribe, hbody, transportPublish, htopic,
    newService, setSub, subOf, newSubscription, SubscriberBuffer.drain, SubscriberBuffer.push, defaultBufferSize,
    subscriberBufferSize, Log.publish, Log.deliver, Log.read, Log.empty]

def orderEnvelope : Value :=
  .obj [(lit "contract_version", .str (lit "1.0")), (lit "message_type", .str (lit "exec.order.v1")),
    (lit "source_engine", .str (lit "rust_engine")), (lit "timestamp", .str (lit "2026-08-30T12:00:00Z")),
    (lit "payload", .obj []),
    (lit "metadata", .obj [(lit "specification_id", .str (lit "order-v1")),
      (lit "owner", .str (lit "Execution Engine"))])]

theorem validate_orderEnvelope {rest : Bytes} (hrest : NotStart IsNumberByte rest) :
    ∃ msg, validate (orderEnvelope.render ++ rest) = .ok msg ∧ msg.messageType = "exec.order.v1" := by
  refine ⟨⟨"1.0", "exec.order.v1", "rust_engine", "2026-08-30T12:00:00Z", some (.obj []),
    ⟨"order-v1", "", "Execution Engine", ""⟩⟩, validate_ok_iff.mpr ?_, rfl⟩
  refine ⟨orderEnvelope, firstValue_render _ (by decide) hrest, ?_, ?_⟩
  · simp [decodeStruct, decodeMembers, field?, EngineMessage.fields, StructField.of, orderEnvelope, GoJson.string,
      EngineMessage.zero, StructField.nested, MessageMetadata.fields, rawMessage, Except.map]
  · simp [EngineMessage.check, validEngines]

theorem subscribe_isArrayOf_order :
    ∃ b l, Run.exec (logged "exec.order.v1") (newService, .empty) (oneMessage "exec.order.v1" orderEnvelope.render)
        = some (b, l) ∧
      ((∃ reply, (b.subscribe true "exec.order.v1").2 = .ok reply ∧ IsArrayOf reply l.undropped) ↔
        ∀ msg ∈ l.undropped, IsMessageText msg) := by
  obtain ⟨msg, hvalid, hmsg⟩ := validate_orderEnvelope (notStart_nil _)
  rw [List.append_nil] at hvalid
  obtain ⟨b, hb⟩ := exec_oneMessage (by decide) hvalid hmsg
  exact ⟨b, _, hb, subscribe_isArrayOf_iff (by decide) hb⟩

/-- An accepted body may have anything behind its first value. -/
theorem not_isMessageText_append (v : Value) {rest : Bytes} (hrest : NotStart IsNumberByte rest)
    (hblank : ¬ Blank rest) : ¬ IsMessageText (v.render ++ rest) := by
  rintro ⟨-, w, hw⟩
  have hread := reads_render v hrest
  obtain rfl := StartsWith.unique ⟨rest, hread⟩ hw.startsWith
  obtain ⟨rest', hread', hblank'⟩ := hw
  rw [hread'.rest_unique hread] at hblank'
  exact hblank hblank'

/-- The body is an accepted message with `{}` behind it. -/
theorem not_isArrayOf_trailing :
    ∃ es b l, Run.exec (logged "exec.order.v1") (newService, .empty) es = some (b, l) ∧
      ¬ ∃ reply, (b.subscribe true "exec.order.v1").2 = .ok reply ∧ IsArrayOf reply l.undropped := by
  have hrest : NotStart IsNumberByte [123, 125] := notStart_symbol .lbrace [125]
  obtain ⟨msg, hvalid, hmsg⟩ := validate_orderEnvelope hrest
  obtain ⟨b, hb⟩ := exec_oneMessage (by decide) hvalid hmsg
  refine ⟨_, b, _, hb, ?_⟩
  have hold := holds_exec (by decide) hb
  rw [exists_reply_iff (by decide) hold, isArrayOf_arrayBody_iff (firstValue_of_undropped hold)]
  intro htexts
  exact not_isMessageText_append orderEnvelope hrest (by decide) (htexts _ (List.mem_singleton_self _))

end Service

end Atlas.Broker
