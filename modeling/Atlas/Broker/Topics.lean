import Atlas.Broker.Envelope
import Atlas.Lib.Json.Splice
import Atlas.Lib.Run

/-!
# The broker's topics

The message broker's `main` with its channel transport as a state machine. Handlers take effect at one point: a
publisher at its channel send, a subscriber when it drains the buffer. The goroutine of a subscription takes a message
from the channel in one step and pushes it into the buffer in another.

* `SubscriberBuffer.push`, `drain` : at most `maxSize` messages, the oldest dropped;
* `Service.publish`, `Service.subscribe` : the two handlers;
* `Service.step` : the events of a run.
-/

namespace Atlas.Broker

abbrev Bytes := List UInt8

/-- `DefaultBufferSize`, the capacity of a subscription's channel. -/
def defaultBufferSize : Nat := 1024

/-- The size a subscriber's buffer is created with. -/
def subscriberBufferSize : Nat := 1024

structure SubscriberBuffer where
  messages : List Bytes
  maxSize : Nat

namespace SubscriberBuffer

def push (sb : SubscriberBuffer) (data : Bytes) : SubscriberBuffer :=
  let kept := if sb.maxSize ≤ sb.messages.length then sb.messages.drop 1 else sb.messages
  { sb with messages := kept ++ [data] }

def drain (sb : SubscriberBuffer) : List Bytes × SubscriberBuffer := (sb.messages, { sb with messages := [] })

end SubscriberBuffer

/-- A subscription: its channel, the message its goroutine has taken, and its buffer. -/
structure Subscription where
  queue : List Bytes
  hand : Option Bytes
  buffer : SubscriberBuffer

def newSubscription : Subscription := ⟨[], none, ⟨[], subscriberBufferSize⟩⟩

/-- `subs` : the subscription of each topic that has one. -/
structure Service where
  subs : String → Option Subscription
  closed : Bool

def newService : Service := ⟨fun _ => none, false⟩

inductive TransportError
  | transportClosed
  | bufferFull
  deriving DecidableEq

/-- What a handler answers: a bare status, the text of an envelope error with status 400, or 200 with a body. -/
inductive Reply
  | status (code : Nat)
  | invalid (e : EnvelopeError)
  | badRequest (body : String)
  | ok (body : Bytes)

namespace Service

def setSub (b : Service) (topic : String) (sub : Subscription) : Service :=
  { b with subs := Function.update b.subs topic (some sub) }

/-- `ChannelTransport.Publish`. Without a subscription the message goes nowhere. -/
def transportPublish (b : Service) (topic : String) (data : Bytes) : Except TransportError Service :=
  if b.closed then .error .transportClosed
  else match b.subs topic with
    | none => .ok b
    | some sub =>
      if sub.queue.length < defaultBufferSize then .ok (b.setSub topic { sub with queue := sub.queue ++ [data] })
      else .error .bufferFull

/-- The `/publish` handler. `body` is absent when it cannot be read. -/
def publish (b : Service) (isPost : Bool) (body : Option Bytes) : Service × Reply :=
  if !isPost then (b, .status 405)
  else match body with
    | none => (b, .status 400)
    | some body =>
      match validate body with
      | .error e => (b, .invalid e)
      | .ok msg =>
        match b.transportPublish msg.messageType body with
        | .error _ => (b, .status 500)
        | .ok b' => (b', .ok (Utf8.bytes "\x7b\"status\":\"published\"\x7d"))

/-- What `/subscribe` writes for the drained messages, `[]` for none. -/
def arrayBody (msgs : List Bytes) : Bytes := Json.arrayText msgs

/-- The subscription of a topic, made by the first subscriber. -/
def subOf (b : Service) (topic : String) : Subscription := (b.subs topic).getD newSubscription

/-- The `/subscribe` handler. -/
def subscribe (b : Service) (isGet : Bool) (topic : String) : Service × Reply :=
  if !isGet then (b, .status 405)
  else if topic = "" then (b, .badRequest "\x7b\"error\":\"topic parameter required\"\x7d")
  else
    let sub := b.subOf topic
    let (msgs, buffer) := sub.buffer.drain
    (b.setSub topic { sub with buffer := buffer }, .ok (arrayBody msgs))

inductive Event
  | publish (isPost : Bool) (body : Option Bytes)
  | subscribe (isGet : Bool) (topic : String)
  | receive (topic : String)
  | push (topic : String)
  | close

/-- One event; the goroutine's two steps are enabled by the message they move. -/
def step (b : Service) : Event → Option Service
  | .publish isPost body => some (b.publish isPost body).1
  | .subscribe isGet topic => some (b.subscribe isGet topic).1
  | .receive topic =>
    match b.subs topic with
    | some ⟨data :: queue, none, buffer⟩ => some (b.setSub topic ⟨queue, some data, buffer⟩)
    | _ => none
  | .push topic =>
    match b.subs topic with
    | some ⟨queue, some data, buffer⟩ => some (b.setSub topic ⟨queue, none, buffer.push data⟩)
    | _ => none
  | .close => some { b with closed := true }

end Service

end Atlas.Broker
