import Atlas.Broker.Batches
import Mathlib.Data.List.Perm.Basic

/-!
# The broker, step by step

The handlers of `main` with the channel transport, each lock and each channel operation a step of its own, so that any
number of calls and the goroutines of the subscriptions run side by side. A section under a lock that nobody else can
look into is one step.

* `Call` : where a call of a handler is; `State.step` : one step of a call, of a goroutine, or of `Close`;
* `Accounted` : what becomes of the messages of a channel; `Inv` : what holds in every state (`inv_step`);
* `calls_step` : what a step makes of a call; `EnteredSince` : the publishers behind the subscription;
* `topic_delivery` : which messages of a topic are drained.
-/

namespace Atlas.Broker.Delivery

/-! ## The machine -/

/-- A body, with the call of `/publish` that brings it. -/
structure Message where
  call : Nat
  body : Bytes
  deriving DecidableEq

/-- `subscriberBuffer`; `evicted` keeps account of the messages dropped, each with the number of messages held. -/
structure Buffer where
  messages : List Message
  evicted : List (Message × Nat)

def newBuffer : Buffer := ⟨[], []⟩

def Buffer.push (buffer : Buffer) (m : Message) : Buffer :=
  if subscriberBufferSize ≤ buffer.messages.length then
    ⟨buffer.messages.drop 1 ++ [m], buffer.evicted ++ (buffer.messages.take 1).map (·, buffer.messages.length)⟩
  else ⟨buffer.messages ++ [m], buffer.evicted⟩

/-- The buffer without the account. -/
def Buffer.forget (buffer : Buffer) : SubscriberBuffer := ⟨buffer.messages.map Message.body, subscriberBufferSize⟩

theorem Buffer.forget_push (buffer : Buffer) (m : Message) :
    (buffer.push m).forget = buffer.forget.push m.body := by
  unfold Buffer.push Buffer.forget SubscriberBuffer.push
  dsimp only
  rw [List.length_map]
  split_ifs
  · rw [List.map_append, List.map_drop]
    rfl
  · rw [List.map_append]
    rfl

theorem Buffer.forget_drain (buffer : Buffer) : buffer.forget.drain =
    (buffer.messages.map Message.body, Buffer.forget { buffer with messages := [] }) := rfl

/-- A channel of the transport, the message that its goroutine has in hand, and the buffer that its handler pushes to;
`sent` keeps account of what has been put into the channel. -/
structure Channel where
  queue : List Message
  closed : Bool
  hand : Option Message
  handler : Nat
  sent : List Message

def newChannel (handler : Nat) : Channel := ⟨[], false, none, handler, []⟩

/-- A topic: its entry in `buffers`, the buffers that have been made for it, its channels, and what has been drained. -/
structure Topic where
  buffer : Option Nat
  made : List Buffer
  subs : List Channel
  batches : List (List Message)

def newTopic : Topic := ⟨none, [], [], []⟩

/-- Where a call is. `/subscribe`: looking for the buffer, waiting for the lock, with the lock, about to subscribe,
about to unlock, about to drain, done. `/publish`: about to enter the transport, with channels to send to, done. -/
inductive Call
  | fresh
  | looking (topic : String)
  | waiting (topic : String)
  | locked (topic : String)
  | subscribing (topic : String) (buffer : Nat)
  | unlocking (topic : String) (buffer : Nat)
  | draining (topic : String) (buffer : Nat)
  | answered (topic : String) (batch : List Message)
  | publishing (topic : String) (m : Message)
  | sending (topic : String) (m : Message) (todo : List Nat) (count : Nat)
  | published (topic : String) (m : Message) (count : Nat)
  | refused (e : TransportError)
  | panicked
  | replied (reply : Reply)

/-- `writer` holds `buffersMu`; `readers` hold the mutex of the transport, for reading. -/
structure State where
  topics : String → Topic
  closed : Bool
  writer : Option Nat
  readers : List Nat
  calls : Nat → Call

def newState : State := ⟨fun _ => newTopic, false, none, [], fun _ => .fresh⟩

namespace State
variable (s : State)

def setCall (call : Nat) (c : Call) : State := { s with calls := Function.update s.calls call c }

def setTopic (topic : String) (t : Topic) : State := { s with topics := Function.update s.topics topic t }

/-- `/subscribe` up to the lookup. -/
def get (isGet : Bool) (topic : String) : Call :=
  if !isGet then .replied (.status 405)
  else if topic = "" then .replied (.badRequest "\x7b\"error\":\"topic parameter required\"\x7d")
  else .looking topic

/-- `/publish` up to the transport. -/
def post (call : Nat) (isPost : Bool) (body : Option Bytes) : Call :=
  if !isPost then .replied (.status 405)
  else match body with
    | none => .replied (.status 400)
    | some body =>
      match validate body with
      | .error e => .replied (.invalid e)
      | .ok msg => .publishing msg.messageType ⟨call, body⟩

/-- One step of a call that is under way. -/
def go (call : Nat) : Option State :=
  match s.calls call with
  | .looking topic =>
    if s.writer.isSome then none
    else match (s.topics topic).buffer with
      | some buffer => some (s.setCall call (.draining topic buffer))
      | none => some (s.setCall call (.waiting topic))
  | .waiting topic =>
    if s.writer.isSome then none else some { s.setCall call (.locked topic) with writer := some call }
  | .locked topic =>
    match s.topics topic with
    | ⟨some buffer, _, _, _⟩ => some (s.setCall call (.unlocking topic buffer))
    | ⟨none, made, subs, batches⟩ =>
      some ((s.setTopic topic ⟨some made.length, made ++ [newBuffer], subs, batches⟩).setCall call
        (.subscribing topic made.length))
  | .subscribing topic buffer =>
    if s.readers ≠ [] then none
    else some ((s.setTopic topic { s.topics topic with subs := (s.topics topic).subs ++ [newChannel buffer] }).setCall
      call (.unlocking topic buffer))
  | .unlocking topic buffer => some { s.setCall call (.draining topic buffer) with writer := none }
  | .draining topic buffer =>
    match (s.topics topic).made[buffer]? with
    | none => none
    | some held =>
      some ((s.setTopic topic { s.topics topic with
        made := (s.topics topic).made.set buffer { held with messages := [] }
        batches := (s.topics topic).batches ++ [held.messages] }).setCall call (.answered topic held.messages))
  | .publishing topic m =>
    if s.closed then some (s.setCall call (.refused .transportClosed))
    else some { s.setCall call (.sending topic m (List.range (s.topics topic).subs.length) 0) with
      readers := call :: s.readers }
  | .sending topic m [] count =>
    some { s.setCall call (.published topic m count) with readers := s.readers.erase call }
  | .sending topic m (i :: todo) count =>
    match (s.topics topic).subs[i]? with
    | none => none
    | some ch =>
      if ch.closed then some { s.setCall call .panicked with readers := s.readers.erase call }
      else if ch.queue.length < defaultBufferSize then
        some ((s.setTopic topic { s.topics topic with
          subs := (s.topics topic).subs.set i { ch with queue := ch.queue ++ [m], sent := ch.sent ++ [m] } }).setCall
          call (.sending topic m todo (count + 1)))
      else some { s.setCall call (.refused .bufferFull) with readers := s.readers.erase call }
  | _ => none

/-- The goroutine of a channel takes a message. -/
def receive (topic : String) (i : Nat) : Option State :=
  match (s.topics topic).subs[i]? with
  | some ⟨m :: queue, closed, none, handler, sent⟩ =>
    some (s.setTopic topic { s.topics topic with
      subs := (s.topics topic).subs.set i ⟨queue, closed, some m, handler, sent⟩ })
  | _ => none

/-- The goroutine hands it to the handler, which pushes it. -/
def push (topic : String) (i : Nat) : Option State :=
  match (s.topics topic).subs[i]? with
  | some ⟨queue, closed, some m, handler, sent⟩ =>
    match (s.topics topic).made[handler]? with
    | none => none
    | some held =>
      some (s.setTopic topic { s.topics topic with
        made := (s.topics topic).made.set handler (held.push m)
        subs := (s.topics topic).subs.set i ⟨queue, closed, none, handler, sent⟩ })
  | _ => none

/-- `Close` -/
def close : Option State :=
  if s.readers ≠ [] then none
  else if s.closed then some s
  else some { s with
    closed := true
    topics := fun topic => { s.topics topic with
      subs := (s.topics topic).subs.map fun ch => { ch with closed := true } } }

end State

inductive Event
  | get (call : Nat) (isGet : Bool) (topic : String)
  | post (call : Nat) (isPost : Bool) (body : Option Bytes)
  | go (call : Nat)
  | receive (topic : String) (i : Nat)
  | push (topic : String) (i : Nat)
  | close

/-- A call begins once. -/
def State.step (s : State) : Event → Option State
  | .get call isGet topic => match s.calls call with
    | .fresh => some (s.setCall call (State.get isGet topic))
    | _ => none
  | .post call isPost body => match s.calls call with
    | .fresh => some (s.setCall call (State.post call isPost body))
    | _ => none
  | .go call => s.go call
  | .receive topic i => s.receive topic i
  | .push topic i => s.push topic i
  | .close => s.close

/-! ## The invariant -/

/-- The call holds `buffersMu`. -/
def Call.Holding : Call → Prop
  | .locked _ => True
  | .subscribing _ _ => True
  | .unlocking _ _ => True
  | _ => False

/-- The call has put the message into one channel of the topic. -/
def Call.Sent (topic : String) (m : Message) : Call → Prop
  | .sending topic' m' todo count => topic' = topic ∧ m' = m ∧ todo = [] ∧ count = 1
  | .published topic' m' count => topic' = topic ∧ m' = m ∧ count = 1
  | _ => False

/-- What has been put into a channel has been drained or evicted, or is on its way, in that order. -/
structure Accounted (ch : Channel) (buffer : Buffer) (batches : List (List Message)) : Prop where
  handler : ch.handler = 0
  gone : ∃ gone, ch.sent = gone ++ (buffer.messages ++ (ch.hand.toList ++ ch.queue)) ∧ batches.flatten.Sublist gone ∧
    gone.Perm (batches.flatten ++ buffer.evicted.map Prod.fst)
  nodup : ch.sent.Nodup
  length : buffer.messages.length ≤ subscriberBufferSize
  evicted : ∀ e ∈ buffer.evicted, e.2 = subscriberBufferSize

/-- A topic has nothing, or a buffer that a call is about to subscribe, or a buffer with its channel. -/
inductive Phase (s : State) (topic : String) : Prop
  | untouched : s.topics topic = newTopic → Phase s topic
  | created (call : Nat) : s.calls call = .subscribing topic 0 → s.topics topic = ⟨some 0, [newBuffer], [], []⟩ →
    Phase s topic
  | subscribed (buffer : Buffer) (ch : Channel) (batches : List (List Message)) :
    s.topics topic = ⟨some 0, [buffer], [ch], batches⟩ → Accounted ch buffer batches → Phase s topic

/-- What a call relies on. -/
def CallOk (topics : String → Topic) (call : Nat) : Call → Prop
  | .subscribing topic buffer => buffer = 0 ∧ topics topic = ⟨some 0, [newBuffer], [], []⟩
  | .unlocking topic buffer => buffer = 0 ∧ (topics topic).subs ≠ []
  | .draining topic buffer => buffer = 0 ∧ (topics topic).subs ≠ []
  | .answered topic _ => (topics topic).subs ≠ []
  | .publishing _ m => m.call = call
  | .sending topic m todo count =>
    m.call = call ∧ (todo = [] ∧ count ≤ 1 ∨ todo = [0] ∧ count = 0 ∧ (topics topic).subs ≠ [])
  | .published _ m count => m.call = call ∧ count ≤ 1
  | _ => True

structure Inv (s : State) : Prop where
  owner : ∀ call, (s.calls call).Holding → s.writer = some call
  phase : ∀ topic, Phase s topic
  callOk : ∀ call, CallOk s.topics call (s.calls call)
  sent : ∀ topic m, (∃ ch ∈ (s.topics topic).subs, m ∈ ch.sent) ↔ (s.calls m.call).Sent topic m

theorem inv_newState : Inv newState where
  owner _ h := h.elim
  phase _ := .untouched rfl
  callOk _ := trivial
  sent topic m := by
    refine iff_of_false (fun ⟨ch, hch, _⟩ => ?_) id
    cases hch

section
variable {s s' : State} {call : Nat} {topic : String} {c : Call}

theorem CallOk.mono {topics topics' : String → Topic} (h : CallOk topics call c)
    (hsubs : ∀ topic, (topics topic).subs ≠ [] → (topics' topic).subs ≠ [])
    (hcreated : ∀ topic, c = .subscribing topic 0 → topics' topic = topics topic) : CallOk topics' call c := by
  cases c with
  | subscribing topic buffer =>
    obtain ⟨rfl, htopic⟩ := h
    exact ⟨rfl, (hcreated topic rfl).trans htopic⟩
  | unlocking topic buffer => exact ⟨h.1, hsubs topic h.2⟩
  | draining topic buffer => exact ⟨h.1, hsubs topic h.2⟩
  | answered topic batch => exact hsubs topic h
  | sending topic m todo count =>
    exact ⟨h.1, h.2.imp id fun htodo => ⟨htodo.1, htodo.2.1, hsubs topic htodo.2.2⟩⟩
  | publishing topic m => exact h
  | published topic m count => exact h
  | fresh => trivial
  | looking topic => trivial
  | waiting topic => trivial
  | locked topic => trivial
  | refused e => trivial
  | panicked => trivial
  | replied reply => trivial

/-- Behind a step of one call that leaves the topics alone, and does not come from `subscribing`. -/
theorem Inv.move (h : Inv s) (htopics : s'.topics = s.topics) (hcalls : s'.calls = Function.update s.calls call c)
    (howner : ∀ k, (s'.calls k).Holding → s'.writer = some k) (hnot : ∀ topic, s.calls call ≠ .subscribing topic 0)
    (hok : CallOk s.topics call c) (hsent : ∀ topic m, m.call = call → (c.Sent topic m ↔ (s.calls call).Sent topic m)) :
    Inv s' where
  owner := howner
  phase topic := by
    cases h.phase topic with
    | untouched htopic => exact .untouched (htopics ▸ htopic)
    | created k hk htopic =>
      refine .created k ?_ (htopics ▸ htopic)
      rw [hcalls, Function.update_of_ne ?_]
      · exact hk
      · rintro rfl
        exact hnot topic hk
    | subscribed buffer ch batches htopic haccounted =>
      exact .subscribed buffer ch batches (htopics ▸ htopic) haccounted
  callOk k := by
    rw [htopics, hcalls, Function.update_apply]
    split_ifs with hk
    · exact hk ▸ hok
    · exact h.callOk k
  sent topic m := by
    rw [htopics, hcalls, h.sent topic m, Function.update_apply]
    split_ifs with hm
    · rw [hsent topic m hm, hm]
    · rfl

/-- The lock stays where it is. -/
theorem owner_of_same (h : Inv s) (hwriter : s'.writer = s.writer) (hcalls : s'.calls = Function.update s.calls call c)
    (hholding : c.Holding → (s.calls call).Holding) (k : Nat) (hk : (s'.calls k).Holding) : s'.writer = some k := by
  rw [hwriter]
  rw [hcalls, Function.update_apply] at hk
  split_ifs at hk with heq
  · exact h.owner k (heq ▸ hholding hk)
  · exact h.owner k hk

/-- Behind a step of one call on one topic, or of its goroutine. -/
theorem Inv.change (h : Inv s) {t : Topic} (htopics : s'.topics = Function.update s.topics topic t)
    (hcalls : s'.calls = Function.update s.calls call c) (howner : ∀ k, (s'.calls k).Holding → s'.writer = some k)
    (hphase : Phase s' topic) (hok : CallOk s'.topics call c)
    (hnot : ∀ other, s.calls call = .subscribing other 0 → c = .subscribing other 0 ∨ other = topic)
    (hsubs : (s.topics topic).subs ≠ [] → t.subs ≠ [])
    (hcreated : ∀ k, k ≠ call → s.calls k = .subscribing topic 0 → t = s.topics topic)
    (hsent : ∀ m, (∃ ch ∈ t.subs, m ∈ ch.sent) ↔ (s'.calls m.call).Sent topic m)
    (hother : ∀ other m, other ≠ topic → m.call = call → (c.Sent other m ↔ (s.calls call).Sent other m)) : Inv s' where
  owner := howner
  phase other := by
    by_cases heq : other = topic
    · exact heq ▸ hphase
    have htopic : s'.topics other = s.topics other := by rw [htopics, Function.update_of_ne heq]
    cases h.phase other with
    | untouched hsame => exact .untouched (htopic.trans hsame)
    | created k hk hsame =>
      refine .created k ?_ (htopic.trans hsame)
      rw [hcalls, Function.update_apply]
      split_ifs with hcall
      · exact (hnot other (hcall ▸ hk)).resolve_right heq
      · exact hk
    | subscribed buffer ch batches hsame haccounted =>
      exact .subscribed buffer ch batches (htopic.trans hsame) haccounted
  callOk k := by
    rw [hcalls, Function.update_apply]
    split_ifs with hk
    · exact hk ▸ hok
    have hgrows (other : String) (hne : (s.topics other).subs ≠ []) : (s'.topics other).subs ≠ [] := by
      rw [htopics, Function.update_apply]
      split_ifs with heq
      · exact hsubs (heq ▸ hne)
      · exact hne
    refine (h.callOk k).mono hgrows fun other hc => ?_
    rw [htopics, Function.update_apply]
    split_ifs with heq
    · rw [heq] at hc ⊢
      exact hcreated k hk hc
    · rfl
  sent other m := by
    by_cases heq : other = topic
    · subst heq
      rw [htopics, Function.update_self]
      exact hsent m
    · rw [htopics, Function.update_of_ne heq, hcalls, h.sent other m, Function.update_apply]
      split_ifs with hm
      · rw [hother other m heq hm, hm]
      · rfl

/-- Behind a step of a goroutine. -/
theorem Inv.turn (h : Inv s) {t : Topic} (hphase : Phase (s.setTopic topic t) topic)
    (hsubs : (s.topics topic).subs ≠ [] → t.subs ≠ [])
    (hcreated : ∀ k, s.calls k = .subscribing topic 0 → t = s.topics topic)
    (hsent : ∀ m, (∃ ch ∈ t.subs, m ∈ ch.sent) ↔ ∃ ch ∈ (s.topics topic).subs, m ∈ ch.sent) :
    Inv (s.setTopic topic t) := by
  have htopics (other : String) : (s.setTopic topic t).topics other =
      if other = topic then t else s.topics other := Function.update_apply ..
  refine h.change rfl (Function.update_eq_self 0 s.calls).symm h.owner hphase ?_ (fun _ h => .inl h) hsubs
    (fun k _ => hcreated k) (fun m => (hsent m).trans (h.sent topic m)) fun _ _ _ _ => Iff.rfl
  · refine (h.callOk 0).mono (fun other hne => ?_) fun other hc => ?_
    · rw [htopics]
      split_ifs with heq
      · exact hsubs (heq ▸ hne)
      · exact hne
    · rw [htopics]
      split_ifs with heq
      · rw [heq] at hc ⊢
        exact hcreated 0 hc
      · rfl

end

/-! ## The messages of a channel -/

section
variable {ch : Channel} {buffer : Buffer} {batches : List (List Message)} {m : Message}

theorem accounted_new : Accounted (newChannel 0) newBuffer [] where
  handler := rfl
  gone := ⟨[], rfl, List.Sublist.refl [], List.Perm.refl []⟩
  nodup := List.nodup_nil
  length := Nat.zero_le _
  evicted := nofun

theorem Accounted.send (h : Accounted ch buffer batches) (hm : m ∉ ch.sent) :
    Accounted { ch with queue := ch.queue ++ [m], sent := ch.sent ++ [m] } buffer batches where
  handler := h.handler
  gone := by
    obtain ⟨gone, hsent, hsub, hperm⟩ := h.gone
    refine ⟨gone, ?_, hsub, hperm⟩
    rw [hsent]
    simp only [List.append_assoc]
  nodup := by
    rw [List.nodup_append]
    refine ⟨h.nodup, List.nodup_singleton m, fun a ha b hb => ?_⟩
    rw [List.mem_singleton.mp hb]
    rintro rfl
    exact hm ha
  length := h.length
  evicted := h.evicted

theorem Accounted.receive {queue sent : List Message} {closed : Bool} {handler : Nat}
    (h : Accounted ⟨m :: queue, closed, none, handler, sent⟩ buffer batches) :
    Accounted ⟨queue, closed, some m, handler, sent⟩ buffer batches :=
  ⟨h.handler, h.gone, h.nodup, h.length, h.evicted⟩

/-- A push evicts the oldest message of a full buffer. -/
theorem Accounted.push {queue sent : List Message} {closed : Bool} {handler : Nat}
    (h : Accounted ⟨queue, closed, some m, handler, sent⟩ buffer batches) :
    Accounted ⟨queue, closed, none, handler, sent⟩ (buffer.push m) batches := by
  obtain ⟨gone, hsent, hsub, hperm⟩ := h.gone
  obtain ⟨messages, evicted⟩ := buffer
  have hlength : messages.length ≤ subscriberBufferSize := h.length
  by_cases hfull : subscriberBufferSize ≤ messages.length
  · cases messages with
    | nil => exact absurd hfull (by decide)
    | cons oldest messages =>
      have hpush : Buffer.push ⟨oldest :: messages, evicted⟩ m =
          ⟨messages ++ [m], evicted ++ [(oldest, messages.length + 1)]⟩ := by
        unfold Buffer.push
        rw [if_pos hfull]
        rfl
      rw [hpush]
      refine ⟨h.handler, ⟨gone ++ [oldest], ?_, ?_, ?_⟩, h.nodup, ?_, fun e he => ?_⟩
      · rw [hsent]
        simp
      · exact hsub.trans (List.sublist_append_left gone [oldest])
      · show (gone ++ [oldest]).Perm (batches.flatten ++ (evicted ++ [(oldest, messages.length + 1)]).map Prod.fst)
        rw [List.map_append, ← List.append_assoc]
        exact hperm.append_right _
      · show (messages ++ [m]).length ≤ subscriberBufferSize
        rw [List.length_append]
        exact hlength
      · rcases List.mem_append.mp he with he | he
        · exact h.evicted e he
        · rw [List.mem_singleton.mp he]
          exact le_antisymm hlength hfull
  · have hpush : Buffer.push ⟨messages, evicted⟩ m = ⟨messages ++ [m], evicted⟩ := by
      unfold Buffer.push
      rw [if_neg hfull]
    rw [hpush]
    refine ⟨h.handler, ⟨gone, ?_, hsub, hperm⟩, h.nodup, ?_, h.evicted⟩
    · rw [hsent]
      simp
    · show (messages ++ [m]).length ≤ subscriberBufferSize
      rw [List.length_append]
      exact not_le.mp hfull

theorem Accounted.drain (h : Accounted ch buffer batches) :
    Accounted ch { buffer with messages := [] } (batches ++ [buffer.messages]) where
  handler := h.handler
  gone := by
    obtain ⟨gone, hsent, hsub, hperm⟩ := h.gone
    have hflat : (batches ++ [buffer.messages]).flatten = batches.flatten ++ buffer.messages := by simp
    refine ⟨gone ++ buffer.messages, ?_, ?_, ?_⟩
    · rw [hsent]
      simp only [List.append_assoc, List.nil_append]
    · rw [hflat]
      exact hsub.append (List.Sublist.refl _)
    · rw [hflat]
      refine (hperm.append_right buffer.messages).trans ?_
      rw [List.append_assoc, List.append_assoc]
      exact List.perm_append_comm.append_left _
  nodup := h.nodup
  length := Nat.zero_le _
  evicted := h.evicted

theorem Accounted.close (h : Accounted ch buffer batches) : Accounted { ch with closed := true } buffer batches :=
  ⟨h.handler, h.gone, h.nodup, h.length, h.evicted⟩

end

/-! ## One step -/

section
variable {s s' : State} {topic : String}

/-- Where a topic has a channel, there is one, with its buffer. -/
theorem Inv.subscribed (h : Inv s) (hsubs : (s.topics topic).subs ≠ []) :
    ∃ buffer ch batches, s.topics topic = ⟨some 0, [buffer], [ch], batches⟩ ∧ Accounted ch buffer batches := by
  cases h.phase topic with
  | untouched htopic =>
    rw [htopic] at hsubs
    exact absurd rfl hsubs
  | created call _ htopic =>
    rw [htopic] at hsubs
    exact absurd rfl hsubs
  | subscribed buffer ch batches htopic haccounted => exact ⟨buffer, ch, batches, htopic, haccounted⟩

/-- Who sees a buffer while no other call is about to subscribe sees its channel, too. -/
theorem Inv.found (h : Inv s) {buffer : Nat} (hbuffer : (s.topics topic).buffer = some buffer)
    (hnot : ∀ call, s.calls call ≠ .subscribing topic 0) : buffer = 0 ∧ (s.topics topic).subs ≠ [] := by
  cases h.phase topic with
  | untouched htopic =>
    rw [htopic] at hbuffer
    cases hbuffer
  | created call hcall _ => exact absurd hcall (hnot call)
  | subscribed held ch batches htopic _ =>
    rw [htopic] at hbuffer ⊢
    exact ⟨(Option.some.inj hbuffer).symm, nofun⟩

/-- No call is about to subscribe while nobody has the lock. -/
theorem Inv.not_subscribing (h : Inv s) (hwriter : s.writer = none) (call : Nat) (buffer : Nat) :
    s.calls call ≠ .subscribing topic buffer := by
  intro hc
  have howner := h.owner call (by rw [hc]; trivial)
  rw [hwriter] at howner
  cases howner

theorem inv_looking (h : Inv s) {call : Nat} (hc : s.calls call = .looking topic) (hgo : s.go call = some s') :
    Inv s' := by
  rw [State.go, hc] at hgo
  dsimp only at hgo
  split_ifs at hgo with hwriter
  have hwriter : s.writer = none := Option.not_isSome_iff_eq_none.mp hwriter
  have hnot (other : String) : s.calls call ≠ .subscribing other 0 := by
    rw [hc]
    exact nofun
  cases hbuffer : (s.topics topic).buffer with
  | none =>
    rw [hbuffer] at hgo
    obtain rfl := Option.some.inj hgo
    refine h.move rfl rfl (owner_of_same h rfl rfl False.elim) hnot trivial fun _ _ _ => ?_
    rw [hc]
    rfl
  | some buffer =>
    rw [hbuffer] at hgo
    obtain rfl := Option.some.inj hgo
    refine h.move rfl rfl (owner_of_same h rfl rfl False.elim) hnot (h.found hbuffer fun k => ?_) fun _ _ _ => ?_
    · exact h.not_subscribing hwriter k 0
    · rw [hc]
      rfl

theorem inv_waiting (h : Inv s) {call : Nat} (hc : s.calls call = .waiting topic) (hgo : s.go call = some s') :
    Inv s' := by
  rw [State.go, hc] at hgo
  dsimp only at hgo
  split_ifs at hgo with hwriter
  have hwriter : s.writer = none := Option.not_isSome_iff_eq_none.mp hwriter
  obtain rfl := Option.some.inj hgo
  refine h.move rfl rfl (fun k hk => ?_) (fun other => ?_) trivial fun _ _ _ => ?_
  · by_cases heq : k = call
    · rw [heq]
    · have hk' : (Function.update s.calls call (.locked topic) k).Holding := hk
      rw [Function.update_of_ne heq] at hk'
      have howner := h.owner k hk'
      rw [hwriter] at howner
      cases howner
  · rw [hc]
    exact nofun
  · rw [hc]
    rfl

/-- The holder of the lock is the only one. -/
theorem Inv.holder (h : Inv s) {call k : Nat} (hcall : (s.calls call).Holding) (hk : (s.calls k).Holding) : k = call :=
  Option.some.inj ((h.owner k hk).symm.trans (h.owner call hcall))

/-- A call that goes on without having sent anything. -/
theorem Inv.sent_update (h : Inv s) {call : Nat} {c : Call} (c' : Call) {m : Message} (hc : s.calls call = c)
    (hsent : c'.Sent topic m ↔ c.Sent topic m) :
    (Function.update s.calls call c' m.call).Sent topic m ↔ ∃ ch ∈ (s.topics topic).subs, m ∈ ch.sent := by
  rw [h.sent topic m, Function.update_apply]
  split_ifs with hm
  · rw [hsent, hm, hc]
  · rfl

theorem inv_locked (h : Inv s) {call : Nat} (hc : s.calls call = .locked topic) (hgo : s.go call = some s') :
    Inv s' := by
  have hholding : (s.calls call).Holding := by
    rw [hc]
    trivial
  have hnot (k : Nat) (other : String) : s.calls k ≠ .subscribing other 0 := by
    intro hk
    have heq := h.holder hholding (k := k) (by rw [hk]; trivial)
    rw [heq, hc] at hk
    cases hk
  rw [State.go, hc] at hgo
  dsimp only at hgo
  cases htopic : s.topics topic with
  | mk buffer made subs batches =>
  rw [htopic] at hgo
  cases buffer with
  | some buffer =>
    obtain rfl := Option.some.inj hgo
    refine h.move rfl rfl (owner_of_same h rfl rfl fun _ => hholding) (hnot call) ?_ fun _ _ _ => ?_
    · exact h.found (by rw [htopic]) fun k => hnot k topic
    · rw [hc]
      rfl
  | none =>
    obtain rfl := Option.some.inj hgo
    cases h.phase topic with
    | created k hk _ => exact absurd hk (hnot k topic)
    | subscribed held ch batches' hsame _ =>
      rw [htopic] at hsame
      cases hsame
    | untouched hsame =>
      rw [htopic] at hsame
      cases hsame
      refine h.change rfl rfl (owner_of_same h rfl rfl fun _ => hholding) (.created call ?_ ?_) ⟨rfl, ?_⟩
        (fun _ hk => absurd hk (hnot call _)) ?_ (fun k _ hk => absurd hk (hnot k topic)) ?_ fun _ _ _ _ => ?_
      · exact Function.update_self ..
      · exact Function.update_self ..
      · exact Function.update_self ..
      · intro hsubs
        rw [htopic] at hsubs
        exact absurd rfl hsubs
      · intro m
        refine Iff.trans ?_ (h.sent_update (.subscribing topic 0) hc Iff.rfl).symm
        rw [htopic]
      · rw [hc]
        rfl

theorem inv_subscribing (h : Inv s) {call buffer : Nat} (hc : s.calls call = .subscribing topic buffer)
    (hgo : s.go call = some s') : Inv s' := by
  have hholding : (s.calls call).Holding := by
    rw [hc]
    trivial
  have hok := h.callOk call
  rw [hc] at hok
  obtain ⟨rfl, htopic⟩ := hok
  rw [State.go, hc] at hgo
  dsimp only at hgo
  split_ifs at hgo
  obtain rfl := Option.some.inj hgo
  rw [htopic]
  refine h.change rfl rfl (owner_of_same h rfl rfl fun _ => hholding)
    (.subscribed newBuffer (newChannel 0) [] (Function.update_self ..) accounted_new) ⟨rfl, ?_⟩
    (fun other hk => ?_) (fun _ => nofun) (fun k hne hk => ?_) (fun m => ?_) fun _ _ _ _ => ?_
  · show (Function.update s.topics topic _ topic).subs ≠ []
    rw [Function.update_self]
    exact nofun
  · rw [hc] at hk
    exact .inr (Call.subscribing.inj hk).1.symm
  · exact absurd (h.holder hholding (by rw [hk]; trivial)) hne
  · refine Iff.trans ?_ (h.sent_update (.unlocking topic 0) hc Iff.rfl).symm
    rw [htopic]
    simp [newChannel]
  · rw [hc]
    rfl

theorem inv_unlocking (h : Inv s) {call buffer : Nat} (hc : s.calls call = .unlocking topic buffer)
    (hgo : s.go call = some s') : Inv s' := by
  have hholding : (s.calls call).Holding := by
    rw [hc]
    trivial
  have hok := h.callOk call
  rw [State.go, hc] at hgo
  rw [hc] at hok
  obtain rfl := Option.some.inj hgo
  refine h.move rfl rfl (fun k hk => ?_) (fun other => ?_) hok fun _ _ _ => ?_
  · have hk' : (Function.update s.calls call (.draining topic buffer) k).Holding := hk
    by_cases heq : k = call
    · rw [heq, Function.update_self] at hk'
      exact hk'.elim
    · rw [Function.update_of_ne heq] at hk'
      exact absurd (h.holder hholding hk') heq
  · rw [hc]
    exact nofun
  · rw [hc]
    rfl

theorem inv_draining (h : Inv s) {call buffer : Nat} (hc : s.calls call = .draining topic buffer)
    (hgo : s.go call = some s') : Inv s' := by
  have hok := h.callOk call
  rw [hc] at hok
  obtain ⟨rfl, hsubs⟩ := hok
  obtain ⟨held, ch, batches, htopic, haccounted⟩ := h.subscribed hsubs
  rw [State.go, hc] at hgo
  dsimp only at hgo
  rw [htopic] at hgo
  obtain rfl := Option.some.inj hgo
  refine h.change rfl rfl (owner_of_same h rfl rfl False.elim)
    (.subscribed { held with messages := [] } ch (batches ++ [held.messages]) (Function.update_self ..)
      haccounted.drain) ?_ (fun other hk => ?_) (fun _ => nofun) (fun k _ hk => ?_) (fun m => ?_) fun _ _ _ _ => ?_
  · show (Function.update s.topics topic _ topic).subs ≠ []
    rw [Function.update_self]
    exact nofun
  · rw [hc] at hk
    cases hk
  · have hok := h.callOk k
    rw [hk] at hok
    rw [hok.2] at hsubs
    exact absurd rfl hsubs
  · refine Iff.trans ?_ (h.sent_update (.answered topic held.messages) hc Iff.rfl).symm
    rw [htopic]
  · rw [hc]
    rfl

theorem inv_publishing (h : Inv s) {call : Nat} {m : Message} (hc : s.calls call = .publishing topic m)
    (hgo : s.go call = some s') : Inv s' := by
  have hok := h.callOk call
  have hnot (other : String) : s.calls call ≠ .subscribing other 0 := by
    rw [hc]
    exact nofun
  rw [State.go, hc] at hgo
  rw [hc] at hok
  dsimp only at hgo
  split_ifs at hgo
  · obtain rfl := Option.some.inj hgo
    refine h.move rfl rfl (owner_of_same h rfl rfl False.elim) hnot trivial fun _ _ _ => ?_
    rw [hc]
    rfl
  · obtain rfl := Option.some.inj hgo
    refine h.move rfl rfl (owner_of_same h rfl rfl False.elim) hnot ⟨hok, ?_⟩ fun other m' _ => ?_
    · by_cases hsubs : (s.topics topic).subs = []
      · left
        rw [hsubs]
        exact ⟨rfl, Nat.zero_le _⟩
      · right
        obtain ⟨held, ch, batches, htopic, _⟩ := h.subscribed hsubs
        rw [htopic]
        exact ⟨rfl, rfl, nofun⟩
    · rw [hc]
      exact iff_of_false (fun hsent => nomatch hsent.2.2.2) id

theorem inv_sending (h : Inv s) {call count : Nat} {m : Message} {todo : List Nat}
    (hc : s.calls call = .sending topic m todo count) (hgo : s.go call = some s') : Inv s' := by
  have hok := h.callOk call
  have hnot (other : String) : s.calls call ≠ .subscribing other 0 := by
    rw [hc]
    exact nofun
  rw [hc] at hok
  obtain ⟨hm, htodo⟩ := hok
  rw [State.go, hc] at hgo
  cases todo with
  | nil =>
    have hcount := (htodo.resolve_right fun h => nomatch h.1).2
    obtain rfl := Option.some.inj hgo
    refine h.move rfl rfl (owner_of_same h rfl rfl False.elim) hnot ⟨hm, hcount⟩ fun other m' _ => ?_
    rw [hc]
    exact and_congr_right fun _ => and_congr_right fun _ => ⟨fun hcount => ⟨rfl, hcount⟩, fun hcount => hcount.2⟩
  | cons i todo =>
    obtain ⟨hi, rfl, hsubs⟩ := htodo.resolve_left fun h => nomatch h.1
    obtain ⟨rfl, rfl⟩ := List.cons.inj hi
    obtain ⟨held, ch, batches, htopic, haccounted⟩ := h.subscribed hsubs
    have hsent (m' : Message) : m' ∈ ch.sent ↔ (s.calls m'.call).Sent topic m' := by
      refine Iff.trans ?_ (h.sent topic m')
      rw [htopic]
      simp
    -- the call has not sent anything yet
    have hfresh (m' : Message) (hm' : m'.call = call) : m' ∉ ch.sent := by
      rw [hsent m', hm', hc]
      exact fun h => nomatch h.2.2.1
    dsimp only at hgo
    rw [htopic] at hgo
    dsimp only [List.getElem?_cons_zero] at hgo
    split_ifs at hgo
    · obtain rfl := Option.some.inj hgo
      refine h.move rfl rfl (owner_of_same h rfl rfl False.elim) hnot trivial fun other m' _ => ?_
      rw [hc]
      exact iff_of_false id fun hsent => nomatch hsent.2.2.1
    · obtain rfl := Option.some.inj hgo
      refine h.change rfl rfl (owner_of_same h rfl rfl False.elim)
        (.subscribed held _ batches (Function.update_self ..) (haccounted.send (hfresh m hm))) ⟨hm, .inl ⟨rfl, le_rfl⟩⟩
        (fun other hk => absurd hk (hnot other)) (fun _ => nofun) (fun k _ hk => ?_) (fun m' => ?_)
        fun other m' hne _ => ?_
      · have hok := h.callOk k
        rw [hk] at hok
        rw [hok.2] at hsubs
        exact absurd rfl hsubs
      · have hmem : (∃ ch' ∈ [{ ch with queue := ch.queue ++ [m], sent := ch.sent ++ [m] }], m' ∈ ch'.sent) ↔
            m' ∈ ch.sent ∨ m' = m := by simp
        refine hmem.trans ?_
        show _ ↔ (Function.update s.calls call (.sending topic m [] 1) m'.call).Sent topic m'
        by_cases hm' : m'.call = call
        · rw [hm', Function.update_self]
          refine ⟨fun h => ⟨rfl, (h.resolve_left (hfresh m' hm')).symm, rfl, rfl⟩, fun h => .inr h.2.1.symm⟩
        · rw [Function.update_of_ne hm', hsent m']
          refine or_iff_left fun heq => hm' ?_
          rw [heq, hm]
      · rw [hc]
        exact iff_of_false (fun hsent => hne hsent.1.symm) fun hsent => hne hsent.1.symm
    · obtain rfl := Option.some.inj hgo
      refine h.move rfl rfl (owner_of_same h rfl rfl False.elim) hnot trivial fun other m' _ => ?_
      rw [hc]
      exact iff_of_false id fun hsent => nomatch hsent.2.2.1

/-- Where a channel can be found, it is the one of its topic. -/
theorem Inv.channel (h : Inv s) {i : Nat} {ch : Channel} (hch : (s.topics topic).subs[i]? = some ch) :
    i = 0 ∧ ∃ buffer batches, s.topics topic = ⟨some 0, [buffer], [ch], batches⟩ ∧ Accounted ch buffer batches := by
  have hsubs : (s.topics topic).subs ≠ [] := by
    intro hnil
    rw [hnil] at hch
    cases hch
  obtain ⟨buffer, ch', batches, htopic, haccounted⟩ := h.subscribed hsubs
  rw [htopic] at hch
  cases i with
  | zero =>
    obtain rfl := Option.some.inj hch
    exact ⟨rfl, buffer, batches, htopic, haccounted⟩
  | succ i => cases hch

/-- No call is about to subscribe to a topic that has a channel. -/
theorem Inv.not_created (h : Inv s) {buffer : Buffer} {ch : Channel} {batches : List (List Message)}
    (htopic : s.topics topic = ⟨some 0, [buffer], [ch], batches⟩) (call : Nat) :
    s.calls call ≠ .subscribing topic 0 := by
  intro hc
  have hok := h.callOk call
  rw [hc] at hok
  have hcreated := hok.2
  rw [htopic] at hcreated
  cases hcreated

theorem inv_receive (h : Inv s) {i : Nat} (hreceive : s.receive topic i = some s') : Inv s' := by
  unfold State.receive at hreceive
  split at hreceive
  · rename_i m queue closed handler sent hch
    obtain ⟨rfl, buffer, batches, htopic, haccounted⟩ := h.channel hch
    obtain rfl := Option.some.inj hreceive
    rw [htopic]
    refine h.turn (.subscribed buffer ⟨queue, closed, some m, handler, sent⟩ batches (Function.update_self ..)
      haccounted.receive) (fun _ => nofun) (fun k hk => absurd hk (h.not_created htopic k)) fun m' => ?_
    rw [htopic]
    simp
  · cases hreceive

theorem inv_push (h : Inv s) {i : Nat} (hpush : s.push topic i = some s') : Inv s' := by
  unfold State.push at hpush
  split at hpush
  · rename_i queue closed m handler sent hch
    obtain ⟨rfl, buffer, batches, htopic, haccounted⟩ := h.channel hch
    obtain rfl : handler = 0 := haccounted.handler
    rw [htopic] at hpush
    obtain rfl := Option.some.inj hpush
    refine h.turn (.subscribed (buffer.push m) ⟨queue, closed, none, 0, sent⟩ batches (Function.update_self ..)
      haccounted.push) (fun _ => nofun) (fun k hk => absurd hk (h.not_created htopic k)) fun m' => ?_
    rw [htopic]
    simp
  · cases hpush

theorem inv_close (h : Inv s) (hclose : s.close = some s') : Inv s' := by
  unfold State.close at hclose
  split_ifs at hclose
  · exact Option.some.inj hclose ▸ h
  obtain rfl := Option.some.inj hclose
  refine ⟨h.owner, fun topic => ?_, fun k => ?_, fun topic m => ?_⟩
  · cases h.phase topic with
    | untouched htopic =>
      refine .untouched ?_
      dsimp only
      rw [htopic]
      rfl
    | created k hk htopic =>
      refine .created k hk ?_
      dsimp only
      rw [htopic]
      rfl
    | subscribed buffer ch batches htopic haccounted =>
      refine .subscribed buffer { ch with closed := true } batches ?_ haccounted.close
      dsimp only
      rw [htopic]
      rfl
  · refine (h.callOk k).mono (fun topic hne => ?_) fun topic hc => ?_
    · simpa using hne
    · have hok := h.callOk k
      rw [hc] at hok
      dsimp only
      rw [hok.2]
      rfl
  · refine Iff.trans ?_ (h.sent topic m)
    simp

/-- How a call may begin. -/
inductive Begins (call : Nat) : Call → Prop
  | looking (topic : String) : Begins call (.looking topic)
  | publishing (topic : String) (body : Bytes) : Begins call (.publishing topic ⟨call, body⟩)
  | replied (reply : Reply) : Begins call (.replied reply)

theorem begins_get (call : Nat) (isGet : Bool) (topic : String) : Begins call (State.get isGet topic) := by
  unfold State.get
  split_ifs
  · exact .replied _
  · exact .replied _
  · exact .looking topic

theorem begins_post (call : Nat) (isPost : Bool) (body : Option Bytes) :
    Begins call (State.post call isPost body) := by
  unfold State.post
  split_ifs
  · exact .replied _
  cases body with
  | none => exact .replied _
  | some body =>
    dsimp only
    split
    · exact .replied _
    · exact .publishing _ body

theorem inv_begin (h : Inv s) {call : Nat} {c : Call} (hfresh : s.calls call = .fresh) (hbegins : Begins call c) :
    Inv (s.setCall call c) := by
  have hnot (other : String) : s.calls call ≠ .subscribing other 0 := by
    rw [hfresh]
    exact nofun
  have hquiet (other : String) (m : Message) : c.Sent other m ↔ (s.calls call).Sent other m := by
    rw [hfresh]
    cases hbegins <;> rfl
  have hholding : c.Holding → (s.calls call).Holding := by
    rw [hfresh]
    cases hbegins <;> exact id
  refine h.move rfl rfl (owner_of_same h rfl rfl hholding) hnot ?_ fun other m _ => hquiet other m
  cases hbegins with
  | looking topic => trivial
  | publishing topic body => rfl
  | replied reply => trivial

/-- **One step** keeps the invariant. -/
theorem inv_step (s : State) (e : Event) (s' : State) (h : Inv s) (hs : s.step e = some s') : Inv s' := by
  cases e with
  | get call isGet topic =>
    rw [State.step] at hs
    split at hs
    · rename_i hfresh
      exact Option.some.inj hs ▸ inv_begin h hfresh (begins_get call isGet topic)
    · cases hs
  | post call isPost body =>
    rw [State.step] at hs
    split at hs
    · rename_i hfresh
      exact Option.some.inj hs ▸ inv_begin h hfresh (begins_post call isPost body)
    · cases hs
  | go call =>
    have hgo : s.go call = some s' := hs
    have hdone (hnone : s.go call = none) : Inv s' := by
      rw [hnone] at hgo
      cases hgo
    cases hc : s.calls call with
    | looking topic => exact inv_looking h hc hgo
    | waiting topic => exact inv_waiting h hc hgo
    | locked topic => exact inv_locked h hc hgo
    | subscribing topic buffer => exact inv_subscribing h hc hgo
    | unlocking topic buffer => exact inv_unlocking h hc hgo
    | draining topic buffer => exact inv_draining h hc hgo
    | publishing topic m => exact inv_publishing h hc hgo
    | sending topic m todo count => exact inv_sending h hc hgo
    | fresh => exact hdone (by rw [State.go, hc])
    | answered topic batch => exact hdone (by rw [State.go, hc])
    | published topic m count => exact hdone (by rw [State.go, hc])
    | refused e => exact hdone (by rw [State.go, hc])
    | panicked => exact hdone (by rw [State.go, hc])
    | replied reply => exact hdone (by rw [State.go, hc])
  | receive topic i => exact inv_receive h hs
  | push topic i => exact inv_push h hs
  | close => exact inv_close h hs

end

/-! ## The publishers -/

/-- A call of `/subscribe`. -/
def Call.Subscribing : Call → Prop
  | .looking _ => True
  | .waiting _ => True
  | .locked _ => True
  | .subscribing _ _ => True
  | .unlocking _ _ => True
  | .draining _ _ => True
  | .answered _ _ => True
  | _ => False

/-- Where a step takes a call. -/
inductive Goes (topics : String → Topic) : Call → Call → Prop
  | subscriber (c c' : Call) : c.Subscribing → c'.Subscribing → Goes topics c c'
  | entered (topic : String) (m : Message) :
    Goes topics (.publishing topic m) (.sending topic m (List.range (topics topic).subs.length) 0)
  | sent (topic : String) (m : Message) (i : Nat) (todo : List Nat) (count : Nat) :
    Goes topics (.sending topic m (i :: todo) count) (.sending topic m todo (count + 1))
  | returned (topic : String) (m : Message) (count : Nat) :
    Goes topics (.sending topic m [] count) (.published topic m count)
  | refused (c : Call) (e : TransportError) : Goes topics c (.refused e)
  | panicked (c : Call) : Goes topics c .panicked

/-- The call has entered the transport, and found a channel of the topic there. -/
def Call.Through (topic : String) (m : Message) : Call → Prop
  | .sending other m' todo count => other = topic ∧ m' = m ∧ (todo ≠ [] ∨ count ≠ 0)
  | .published other m' count => other = topic ∧ m' = m ∧ count ≠ 0
  | _ => False

/-- `Publish` has an error to return, or has panicked. -/
def Call.Failed : Call → Prop
  | .refused _ => True
  | .panicked => True
  | _ => False

/-- `Publish` has been through the channels, and returns no error. -/
def Call.Succeeded (topic : String) (m : Message) : Call → Prop
  | .sending other m' todo _ => other = topic ∧ m' = m ∧ todo = []
  | .published other m' _ => other = topic ∧ m' = m
  | _ => False

section
variable {s s' : State} {topic : String} {m : Message}

theorem goes_of_go {call : Nat} (h : s.go call = some s') :
    ∃ c, s'.calls = Function.update s.calls call c ∧ Goes s.topics (s.calls call) c := by
  cases hc : s.calls call with
  | looking topic =>
    rw [State.go, hc] at h
    dsimp only at h
    split_ifs at h
    split at h <;> obtain rfl := Option.some.inj h
    · exact ⟨_, rfl, .subscriber _ _ trivial trivial⟩
    · exact ⟨_, rfl, .subscriber _ _ trivial trivial⟩
  | waiting topic =>
    rw [State.go, hc] at h
    dsimp only at h
    split_ifs at h
    obtain rfl := Option.some.inj h
    exact ⟨_, rfl, .subscriber _ _ trivial trivial⟩
  | locked topic =>
    rw [State.go, hc] at h
    dsimp only at h
    split at h <;> obtain rfl := Option.some.inj h
    · exact ⟨_, rfl, .subscriber _ _ trivial trivial⟩
    · exact ⟨_, rfl, .subscriber _ _ trivial trivial⟩
  | subscribing topic buffer =>
    rw [State.go, hc] at h
    dsimp only at h
    split_ifs at h
    obtain rfl := Option.some.inj h
    exact ⟨_, rfl, .subscriber _ _ trivial trivial⟩
  | unlocking topic buffer =>
    rw [State.go, hc] at h
    obtain rfl := Option.some.inj h
    exact ⟨_, rfl, .subscriber _ _ trivial trivial⟩
  | draining topic buffer =>
    rw [State.go, hc] at h
    dsimp only at h
    split at h
    · cases h
    · obtain rfl := Option.some.inj h
      exact ⟨_, rfl, .subscriber _ _ trivial trivial⟩
  | publishing topic m =>
    rw [State.go, hc] at h
    dsimp only at h
    split_ifs at h <;> obtain rfl := Option.some.inj h
    · exact ⟨_, rfl, .refused _ _⟩
    · exact ⟨_, rfl, .entered topic m⟩
  | sending topic m todo count =>
    rw [State.go, hc] at h
    cases todo with
    | nil =>
      obtain rfl := Option.some.inj h
      exact ⟨_, rfl, .returned topic m count⟩
    | cons i todo =>
      dsimp only at h
      split at h
      · cases h
      split_ifs at h <;> obtain rfl := Option.some.inj h
      · exact ⟨_, rfl, .panicked _⟩
      · exact ⟨_, rfl, .sent topic m i todo count⟩
      · exact ⟨_, rfl, .refused _ _⟩
  | fresh => simp [State.go, hc] at h
  | answered topic batch => simp [State.go, hc] at h
  | published topic m count => simp [State.go, hc] at h
  | refused e => simp [State.go, hc] at h
  | panicked => simp [State.go, hc] at h
  | replied reply => simp [State.go, hc] at h

/-- What a step makes of one of the calls. -/
theorem calls_step {e : Event} (h : s.step e = some s') (call : Nat) :
    s'.calls call = s.calls call ∨ s.calls call = .fresh ∧ Begins call (s'.calls call) ∨
      e = .go call ∧ Goes s.topics (s.calls call) (s'.calls call) := by
  have hbegin (k : Nat) (c : Call) (hfresh : s.calls k = .fresh) (hbegins : Begins k c)
      (hs : some (s.setCall k c) = some s') : s'.calls call = s.calls call ∨
      s.calls call = .fresh ∧ Begins call (s'.calls call) := by
    obtain rfl := Option.some.inj hs
    by_cases hk : call = k
    · have hcall : (s.setCall k c).calls call = c := by
        rw [hk]
        exact Function.update_self ..
      rw [hcall, hk]
      exact .inr ⟨hfresh, hbegins⟩
    · exact .inl (Function.update_of_ne hk ..)
  cases e with
  | get k isGet topic =>
    rw [State.step] at h
    split at h
    · rename_i hfresh
      exact (hbegin k _ hfresh (begins_get k isGet topic) h).imp_right .inl
    · cases h
  | post k isPost body =>
    rw [State.step] at h
    split at h
    · rename_i hfresh
      exact (hbegin k _ hfresh (begins_post k isPost body) h).imp_right .inl
    · cases h
  | go k =>
    obtain ⟨c, hcalls, hgoes⟩ := goes_of_go h
    rw [hcalls]
    by_cases hk : call = k
    · rw [hk, Function.update_self]
      exact .inr (.inr ⟨rfl, hgoes⟩)
    · exact .inl (Function.update_of_ne hk ..)
  | receive topic i =>
    rw [State.step, State.receive] at h
    split at h
    · exact .inl (Option.some.inj h ▸ rfl)
    · cases h
  | push topic i =>
    rw [State.step, State.push] at h
    split at h
    · split at h
      · cases h
      · exact .inl (Option.some.inj h ▸ rfl)
    · cases h
  | close =>
    rw [State.step, State.close] at h
    split_ifs at h
    · exact .inl (Option.some.inj h ▸ rfl)
    · exact .inl (Option.some.inj h ▸ rfl)

theorem not_through_of_begins {call : Nat} {c : Call} (h : Begins call c) : ¬c.Through topic m := by
  cases h <;> exact id

/-- A call gets through the transport by entering it. -/
theorem through_step {e : Event} {call : Nat} (h : s.step e = some s') (hthrough : (s'.calls call).Through topic m) :
    (s.calls call).Through topic m ∨
      e = .go call ∧ s.calls call = .publishing topic m ∧ (s.topics topic).subs ≠ [] := by
  obtain hsame | ⟨-, hbegins⟩ | ⟨he, hgoes⟩ := calls_step h call
  · exact .inl (hsame ▸ hthrough)
  · exact absurd hthrough (not_through_of_begins hbegins)
  generalize s.calls call = c at hgoes ⊢
  generalize s'.calls call = c' at hgoes hthrough
  cases hgoes with
  | subscriber c c' _ hc' => cases c' <;> first | exact hthrough.elim | exact hc'.elim
  | entered other m' =>
    obtain ⟨rfl, rfl, hrange⟩ := hthrough
    refine .inr ⟨he, rfl, fun hnil => ?_⟩
    rw [hnil] at hrange
    exact hrange.elim (absurd rfl) (absurd rfl)
  | sent other m' i todo count => exact .inl ⟨hthrough.1, hthrough.2.1, .inl nofun⟩
  | returned other m' count => exact .inl ⟨hthrough.1, hthrough.2.1, .inr hthrough.2.2⟩
  | refused c e => exact hthrough.elim
  | panicked c => exact hthrough.elim

/-- From there, it may only fail. -/
theorem through_kept {e : Event} {call : Nat} (h : s.step e = some s')
    (hthrough : (s.calls call).Through topic m ∨ (s.calls call).Failed) :
    (s'.calls call).Through topic m ∨ (s'.calls call).Failed := by
  obtain hsame | ⟨hfresh, -⟩ | ⟨he, hgoes⟩ := calls_step h call
  · rw [hsame]
    exact hthrough
  · rw [hfresh] at hthrough
    exact (hthrough.elim id id).elim
  generalize s.calls call = c at hgoes hthrough
  generalize s'.calls call = c' at hgoes ⊢
  cases hgoes with
  | subscriber c c' hc _ => cases c <;> first | exact (hthrough.elim id id).elim | exact hc.elim
  | entered other m' => exact (hthrough.elim id id).elim
  | sent other m' i todo count =>
    have hsent := hthrough.resolve_right id
    exact .inl ⟨hsent.1, hsent.2.1, .inr (Nat.succ_ne_zero count)⟩
  | returned other m' count =>
    have hsent := hthrough.resolve_right id
    exact .inl ⟨hsent.1, hsent.2.1, hsent.2.2.resolve_left (absurd rfl)⟩
  | refused c e => exact .inr trivial
  | panicked c => exact .inr trivial

/-- In the run `es`, the publish of `m` entered the transport when the topic was subscribed to. -/
def EnteredSince (es : List Event) (topic : String) (m : Message) : Prop :=
  ∃ before after s, es = before ++ .go m.call :: after ∧ Run.exec State.step newState before = some s ∧
    s.calls m.call = .publishing topic m ∧ (s.topics topic).subs ≠ []

theorem enteredSince_of_through {es : List Event} (h : Run.exec State.step newState es = some s)
    (hthrough : (s.calls m.call).Through topic m) : EnteredSince es topic m := by
  induction es using List.reverseRecOn generalizing s with
  | nil =>
    obtain rfl := Option.some.inj h
    exact hthrough.elim
  | append_singleton es e ih =>
    rw [Run.exec_append] at h
    obtain ⟨t, ht, hstep⟩ := Option.bind_eq_some_iff.mp h
    obtain ⟨s', hs', hlast⟩ := Option.bind_eq_some_iff.mp hstep
    obtain rfl := Option.some.inj hlast
    obtain hearlier | ⟨rfl, hcall, hsubs⟩ := through_step hs' hthrough
    · obtain ⟨before, after, s₀, rfl, hrest⟩ := ih ht hearlier
      refine ⟨before, after ++ [e], s₀, ?_, hrest⟩
      rw [List.append_assoc, List.cons_append]
    · exact ⟨es, [], t, rfl, ht, hcall, hsubs⟩

theorem through_of_enteredSince {es : List Event} (h : Run.exec State.step newState es = some s)
    (hentered : EnteredSince es topic m) : (s.calls m.call).Through topic m ∨ (s.calls m.call).Failed := by
  obtain ⟨before, after, s₀, rfl, hbefore, hcall, hsubs⟩ := hentered
  rw [Run.exec_append, hbefore, Option.bind_some] at h
  obtain ⟨s₁, hstep, hafter⟩ := Option.bind_eq_some_iff.mp h
  refine Run.exec_invariant (fun s => (s.calls m.call).Through topic m ∨ (s.calls m.call).Failed)
    (fun _ _ _ ht hs => through_kept hs ht) ?_ hafter
  have hgo : s₀.go m.call = some s₁ := hstep
  rw [State.go, hcall] at hgo
  dsimp only at hgo
  split_ifs at hgo <;> obtain rfl := Option.some.inj hgo
  · right
    show (Function.update s₀.calls m.call _ m.call).Failed
    rw [Function.update_self]
    trivial
  · left
    show (Function.update s₀.calls m.call _ m.call).Through topic m
    rw [Function.update_self]
    refine ⟨rfl, rfl, .inl fun hnil => hsubs ?_⟩
    exact List.length_eq_zero_iff.mp (List.range_eq_nil.mp hnil)

/-- A message has been sent when its publish is through and has succeeded. -/
theorem Inv.sent_iff (h : Inv s) : (s.calls m.call).Sent topic m ↔
    (s.calls m.call).Succeeded topic m ∧ (s.calls m.call).Through topic m := by
  have hok := h.callOk m.call
  cases hc : s.calls m.call with
  | sending other m' todo count =>
    rw [hc] at hok
    constructor
    · rintro ⟨rfl, rfl, rfl, rfl⟩
      exact ⟨⟨rfl, rfl, rfl⟩, rfl, rfl, .inr one_ne_zero⟩
    · rintro ⟨⟨rfl, rfl, rfl⟩, -, -, hcount⟩
      have hle := (hok.2.resolve_right fun h => nomatch h.1).2
      have hne := hcount.resolve_left (absurd rfl)
      exact ⟨rfl, rfl, rfl, by omega⟩
  | published other m' count =>
    rw [hc] at hok
    constructor
    · rintro ⟨rfl, rfl, rfl⟩
      exact ⟨⟨rfl, rfl⟩, rfl, rfl, one_ne_zero⟩
    · rintro ⟨⟨rfl, rfl⟩, -, -, hcount⟩
      have hle := hok.2
      exact ⟨rfl, rfl, by omega⟩
  | _ => exact iff_of_false id fun hboth => hboth.2

end

/-! ## Delivery -/

/-- The call has subscribed to the topic, or found it subscribed. -/
def Call.Subscribed (topic : String) : Call → Prop
  | .unlocking other _ => other = topic
  | .draining other _ => other = topic
  | .answered other _ => other = topic
  | _ => False

/-- The account of a channel: what is drained is part of what has been put in, in that order, and no message twice;
missing is what has been evicted, from a full buffer, or is still queued. -/
structure Delivered (buffer : Buffer) (ch : Channel) (batches : List (List Message)) : Prop where
  sublist : batches.flatten.Sublist ch.sent
  nodup : batches.flatten.Nodup
  missing : ∀ m ∈ ch.sent, m ∉ batches.flatten ↔ m ∈ buffer.evicted.map Prod.fst ∨
    m ∈ buffer.messages ++ (ch.hand.toList ++ ch.queue)
  evicted : ∀ e ∈ buffer.evicted, e.1 ∈ ch.sent ∧ e.2 = subscriberBufferSize

theorem Accounted.delivered {buffer : Buffer} {ch : Channel} {batches : List (List Message)}
    (h : Accounted ch buffer batches) : Delivered buffer ch batches := by
  obtain ⟨gone, hsent, hsub, hperm⟩ := h.gone
  have hgone : gone.Sublist ch.sent := by
    rw [hsent]
    exact List.sublist_append_left gone _
  have hnodup := h.nodup
  rw [hsent, List.nodup_append] at hnodup
  obtain ⟨hgoneNodup, -, hdisjoint⟩ := hnodup
  have hparts := hperm.nodup_iff.mp hgoneNodup
  rw [List.nodup_append] at hparts
  refine ⟨hsub.trans hgone, hparts.1, fun m hm => ?_, fun e he => ⟨?_, h.evicted e he⟩⟩
  · constructor
    · intro hnot
      rw [hsent, List.mem_append] at hm
      refine hm.imp_left fun hm => ?_
      exact (List.mem_append.mp (hperm.mem_iff.mp hm)).resolve_left hnot
    · rintro (hevicted | hqueued) hdrained
      · exact hparts.2.2 m hdrained m hevicted rfl
      · exact hdisjoint m (hperm.mem_iff.mpr (List.mem_append_left _ hdrained)) m hqueued rfl
  · refine hgone.subset (hperm.mem_iff.mpr (List.mem_append_right _ ?_))
    exact List.mem_map_of_mem he

theorem Inv.subs_of_subscribed {s : State} {topic : String} (h : Inv s) {call : Nat}
    (hcall : (s.calls call).Subscribed topic) : (s.topics topic).subs ≠ [] := by
  have hok := h.callOk call
  cases hc : s.calls call with
  | unlocking other buffer =>
    rw [hc] at hcall hok
    obtain rfl : other = topic := hcall
    exact hok.2
  | draining other buffer =>
    rw [hc] at hcall hok
    obtain rfl : other = topic := hcall
    exact hok.2
  | answered other batch =>
    rw [hc] at hcall hok
    obtain rfl : other = topic := hcall
    exact hok
  | _ =>
    rw [hc] at hcall
    exact hcall.elim

theorem Call.Succeeded.not_failed {c : Call} {topic : String} {m : Message} (h : c.Succeeded topic m) : ¬c.Failed := by
  cases c <;> first | exact id | exact h.elim

/-- **Delivery**: in every state of every run, a topic has one channel once a call has subscribed to it, and never more;
the messages in it are those whose publish entered the transport since then and succeeded; what has been drained is an
account of them. -/
theorem topic_delivery {es : List Event} {s : State} (h : Run.exec State.step newState es = some s) (topic : String) :
    ((s.topics topic).subs.length ≤ 1 ∧ ∀ call, (s.calls call).Subscribed topic → (s.topics topic).subs.length = 1) ∧
      ((s.topics topic).subs = [] → (s.topics topic).batches = []) ∧
      ∀ ch ∈ (s.topics topic).subs, ∃ buffer, (s.topics topic).made = [buffer] ∧ ch.handler = 0 ∧
        (∀ m, m ∈ ch.sent ↔ (s.calls m.call).Succeeded topic m ∧ EnteredSince es topic m) ∧
        Delivered buffer ch (s.topics topic).batches := by
  have hinv : Inv s := Run.exec_invariant Inv inv_step inv_newState h
  have hone (hsubs : (s.topics topic).subs ≠ []) : (s.topics topic).subs.length = 1 := by
    obtain ⟨buffer, ch, batches, htopic, -⟩ := hinv.subscribed hsubs
    rw [htopic]
    rfl
  refine ⟨⟨?_, fun call hcall => hone (hinv.subs_of_subscribed hcall)⟩, fun hnil => ?_, fun ch hch => ?_⟩
  · by_cases hsubs : (s.topics topic).subs = []
    · rw [hsubs]
      exact Nat.zero_le 1
    · exact (hone hsubs).le
  · cases hinv.phase topic with
    | untouched htopic => rw [htopic]; rfl
    | created call _ htopic => rw [htopic]
    | subscribed buffer ch batches htopic _ =>
      rw [htopic] at hnil
      cases hnil
  · obtain ⟨buffer, ch', batches, htopic, haccounted⟩ := hinv.subscribed (List.ne_nil_of_mem hch)
    have hsent (m : Message) := (hinv.sent topic m).trans hinv.sent_iff
    rw [htopic] at hch hsent ⊢
    obtain rfl := List.mem_singleton.mp hch
    refine ⟨buffer, rfl, haccounted.handler, fun m => ?_, haccounted.delivered⟩
    have hmem : m ∈ ch.sent ↔ ∃ ch' ∈ [ch], m ∈ ch'.sent := by simp
    rw [hmem, hsent m]
    refine and_congr_right fun hsucceeded => ⟨enteredSince_of_through h, fun hentered => ?_⟩
    refine (through_of_enteredSince h hentered).resolve_right fun hfailed => ?_
    exact hsucceeded.not_failed hfailed

/-! ### One message -/

/-- A topic is subscribed to, a message is published, and the next subscriber gets it. -/
def oneMessage (topic : String) (body : Bytes) : List Event :=
  (.get 0 true topic :: List.replicate 6 (.go 0)) ++ (.post 1 true (some body) :: List.replicate 3 (.go 1)) ++
    [.receive topic 0, .push topic 0, .get 2 true topic, .go 2, .go 2]

/-- The calls between the parts of `oneMessage`. -/
def between (topic : String) (t : Topic) (calls : Nat → Call) : State :=
  ⟨Function.update newState.topics topic t, false, none, [], calls⟩

section
variable {topic : String} {body : Bytes}

theorem exec_subscriber (htopic : topic ≠ "") :
    Run.exec State.step newState (.get 0 true topic :: List.replicate 6 (.go 0)) =
      some (between topic ⟨some 0, [newBuffer], [newChannel 0], [[]]⟩
        (Function.update newState.calls 0 (.answered topic []))) := by
  simp [Run.exec, State.step, State.get, State.go, State.setCall, State.setTopic, newState, newTopic, newChannel,
    newBuffer, between, htopic]

theorem exec_publisher {msg : EngineMessage} (hbody : validate body = .ok msg) (hmsg : msg.messageType = topic)
    {calls : Nat → Call} (hcall : calls 1 = .fresh) :
    Run.exec State.step (between topic ⟨some 0, [newBuffer], [newChannel 0], [[]]⟩ calls)
        (.post 1 true (some body) :: List.replicate 3 (.go 1)) =
      some (between topic ⟨some 0, [newBuffer], [⟨[⟨1, body⟩], false, none, 0, [⟨1, body⟩]⟩], [[]]⟩
        (Function.update calls 1 (.published topic ⟨1, body⟩ 1))) := by
  simp [Run.exec, State.step, State.post, State.go, State.setCall, State.setTopic, newChannel, between, hbody, hmsg,
    hcall, defaultBufferSize]

theorem exec_goroutine (htopic : topic ≠ "") {calls : Nat → Call} (hcall : calls 2 = .fresh) :
    Run.exec State.step
        (between topic ⟨some 0, [newBuffer], [⟨[⟨1, body⟩], false, none, 0, [⟨1, body⟩]⟩], [[]]⟩ calls)
        [.receive topic 0, .push topic 0, .get 2 true topic, .go 2, .go 2] =
      some (between topic ⟨some 0, [newBuffer], [⟨[], false, none, 0, [⟨1, body⟩]⟩], [[], [⟨1, body⟩]]⟩
        (Function.update calls 2 (.answered topic [⟨1, body⟩]))) := by
  simp [Run.exec, State.step, State.get, State.go, State.receive, State.push, State.setCall, State.setTopic, newBuffer,
    Buffer.push, between, htopic, hcall, subscriberBufferSize]

theorem exec_oneMessage (htopic : topic ≠ "") {msg : EngineMessage} (hbody : validate body = .ok msg)
    (hmsg : msg.messageType = topic) : ∃ s, Run.exec State.step newState (oneMessage topic body) = some s ∧
      s.topics topic = ⟨some 0, [newBuffer], [⟨[], false, none, 0, [⟨1, body⟩]⟩], [[], [⟨1, body⟩]]⟩ := by
  rw [oneMessage, Run.exec_append, Run.exec_append, exec_subscriber htopic, Option.bind_some,
    exec_publisher hbody hmsg rfl, Option.bind_some, exec_goroutine htopic rfl]
  exact ⟨_, rfl, Function.update_self ..⟩

end

theorem topic_delivery_order :
    ∃ es s m ch, Run.exec State.step newState es = some s ∧ ch ∈ (s.topics "exec.order.v1").subs ∧
      (s.topics "exec.order.v1").batches.flatten = [m] ∧ [m].Sublist ch.sent ∧ EnteredSince es "exec.order.v1" m := by
  obtain ⟨msg, hbody, hmsg⟩ := Service.validate_orderEnvelope (Json.notStart_nil _)
  rw [List.append_nil] at hbody
  obtain ⟨s, hrun, htopic⟩ := exec_oneMessage (by decide) hbody hmsg
  obtain ⟨-, -, hall⟩ := topic_delivery hrun "exec.order.v1"
  rw [htopic] at hall
  obtain ⟨buffer, -, -, hsent, hdelivered⟩ := hall _ (List.mem_singleton.mpr rfl)
  refine ⟨_, s, ⟨1, _⟩, _, hrun, ?_, ?_, hdelivered.sublist, ((hsent _).mp (List.mem_singleton.mpr rfl)).2⟩
  · rw [htopic]
    exact List.mem_singleton.mpr rfl
  · rw [htopic]
    rfl

end Atlas.Broker.Delivery
