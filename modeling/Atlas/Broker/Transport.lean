import Atlas.Broker.Topics
import Atlas.Lib.Dict

/-!
# The channel transport: `services/message_broker/internal/transport/channel.go`

* `ChannelTransport` : the subscribers' channels of each topic; `publish`, `subscribe`, `close` : the methods, with the
  panics of Go's channels;
* `Sound` : no channel is closed before the transport is, and the methods keep it so;
* `publish_atomic_iff` : where `Publish` reaches all subscribers or none.
-/

namespace Atlas.Broker.Transport

inductive Panic
  | sendOnClosedChannel
  | closeOfClosedChannel
  deriving DecidableEq, Repr

/-- A subscriber's channel; its goroutine is `running` until it returns. -/
structure Channel where
  queue : List Bytes := []
  closed : Bool := false
  running : Bool := true
  deriving DecidableEq, Repr

namespace Channel

def Full (ch : Channel) : Prop := defaultBufferSize ≤ ch.queue.length

instance (ch : Channel) : Decidable ch.Full := inferInstanceAs (Decidable (_ ≤ _))

/-- `ch <- data` -/
def push (ch : Channel) (data : Bytes) : Channel := { ch with queue := ch.queue ++ [data] }

/-- The `select` of `Publish`; `none` is its default branch. -/
def offer (ch : Channel) (data : Bytes) : Except Panic (Option Channel) :=
  if ch.closed then .error .sendOnClosedChannel
  else if ch.Full then .ok none
  else .ok (some (ch.push data))

/-- The goroutine of `Subscribe` turns once: `for msg := range ch`. -/
def receive (ch : Channel) : Option Channel :=
  if !ch.running then none
  else match ch.queue with
    | _ :: queue => some { ch with queue }
    | [] => if ch.closed then some { ch with running := false } else none

end Channel

structure ChannelTransport where
  subs : Dict String (List Channel) := Dict.empty
  closed : Bool := false

namespace ChannelTransport

/-- `c.subs[topic]` -/
def channels (t : ChannelTransport) (topic : String) : List Channel := (t.subs.get? topic).getD []

/-- Every channel in `c.subs`. -/
def registered (t : ChannelTransport) : List Channel := t.subs.values.flatten

/-- The loop of `Publish`. -/
def deliver (data : Bytes) : List Channel → Except Panic (List Channel × Option TransportError)
  | [] => .ok ([], none)
  | ch :: chs => do
    match ← ch.offer data with
    | none => return (ch :: chs, some .bufferFull)
    | some ch =>
      let (chs, err) ← deliver data chs
      return (ch :: chs, err)

def publish (t : ChannelTransport) (topic : String) (data : Bytes) :
    Except Panic (ChannelTransport × Option TransportError) :=
  if t.closed then .ok (t, some .transportClosed)
  else match t.subs.get? topic with
    | none => .ok (t, none)
    | some chs => do
      let (chs, err) ← deliver data chs
      return ({ t with subs := t.subs.set topic chs }, err)

def subscribe (t : ChannelTransport) (topic : String) : ChannelTransport :=
  { t with subs := t.subs.set topic (t.channels topic ++ [{}]) }

/-- A channel that is closed already stops the loops of `Close`, in whatever order they walk the map. -/
def close (t : ChannelTransport) : Except Panic ChannelTransport :=
  if t.closed then .ok t
  else if ∃ ch ∈ t.registered, ch.closed then .error .closeOfClosedChannel
  else .ok { subs := t.subs.mapValues (·.map ({ · with closed := true })), closed := true }

/-- The channel `i` of a topic has changed. -/
def setChannel (t : ChannelTransport) (topic : String) (i : Nat) (ch : Channel) : ChannelTransport :=
  { t with subs := t.subs.set topic ((t.channels topic).set i ch) }

/-- No channel is closed before the transport is. -/
def Sound (t : ChannelTransport) : Prop := t.closed = false → ∀ ch ∈ t.registered, ch.closed = false

/-- An error left every channel as it was, and without one every subscriber of the topic has the message, once. -/
def AllOrNone (t : ChannelTransport) (topic : String) (data : Bytes) : Prop :=
  ∃ t' err, t.publish topic data = .ok (t', err) ∧
    (err ≠ none → t'.channels = t.channels) ∧
    (err = none → t'.channels topic = (t.channels topic).map (·.push data))

theorem mem_registered_of_mem_channels {t : ChannelTransport} {topic : String} {ch : Channel}
    (h : ch ∈ t.channels topic) : ch ∈ t.registered := by
  unfold channels at h
  cases hget : t.subs.get? topic with
  | none =>
    rw [hget] at h
    cases h
  | some chs =>
    rw [hget] at h
    exact List.mem_flatten.mpr ⟨chs, Dict.mem_values_of_get? hget, h⟩

theorem mem_registered_set {t : ChannelTransport} {topic : String} {chs : List Channel} {ch : Channel}
    (h : ch ∈ (t.subs.set topic chs).values.flatten) : ch ∈ chs ∨ ch ∈ t.registered := by
  obtain ⟨chs', hchs', hch⟩ := List.mem_flatten.mp h
  rcases Dict.mem_values_set hchs' with rfl | hold
  · exact Or.inl hch
  · exact Or.inr (List.mem_flatten.mpr ⟨chs', hold, hch⟩)

theorem mem_registered_setChannel {t : ChannelTransport} {topic : String} {i : Nat} {ch ch' : Channel}
    (h : ch' ∈ (t.setChannel topic i ch).registered) : ch' = ch ∨ ch' ∈ t.registered := by
  rcases mem_registered_set h with hset | hold
  · rcases List.mem_or_eq_of_mem_set hset with hmem | heq
    · exact Or.inr (mem_registered_of_mem_channels hmem)
    · exact Or.inl heq
  · exact Or.inr hold

/-- A change of one channel that leaves it open, if it was. -/
theorem Sound.setChannel {t : ChannelTransport} {topic : String} {i : Nat} {ch ch' : Channel} (h : t.Sound)
    (hch : (t.channels topic)[i]? = some ch) (hclosed : ch'.closed = ch.closed) : (t.setChannel topic i ch').Sound := by
  intro hopen other hother
  rcases mem_registered_setChannel hother with rfl | hold
  · rw [hclosed]
    exact h hopen ch (mem_registered_of_mem_channels (List.mem_of_getElem? hch))
  · exact h hopen other hold

/-! ## One call of `Publish` -/

/-- The channels in front of the first full one. -/
def front (chs : List Channel) : List Channel := chs.takeWhile (¬ ·.Full)

/-- The channels from the first full one on. -/
def back (chs : List Channel) : List Channel := chs.dropWhile (¬ ·.Full)

/-- The channels behind the loop: those in front have got the message. -/
def delivered (data : Bytes) (chs : List Channel) : List Channel := (front chs).map (·.push data) ++ back chs

theorem back_eq_nil_iff {chs : List Channel} : back chs = [] ↔ ∀ ch ∈ chs, ¬ ch.Full := by
  simp [back, List.dropWhile_eq_nil_iff]

theorem front_eq_nil_iff {chs : List Channel} :
    front chs = [] ↔ chs = [] ∨ ∃ ch rest, chs = ch :: rest ∧ ch.Full := by
  cases chs with
  | nil => exact ⟨fun _ => Or.inl rfl, fun _ => rfl⟩
  | cons ch rest =>
    by_cases hfull : ch.Full
    · exact ⟨fun _ => Or.inr ⟨ch, rest, rfl, hfull⟩, fun _ => List.takeWhile_cons_of_neg (by simpa using hfull)⟩
    · have hcons : front (ch :: rest) = ch :: front rest := List.takeWhile_cons_of_pos (by simpa using hfull)
      rw [hcons]
      refine ⟨fun h => (nomatch h), ?_⟩
      rintro (h | ⟨c, cs, h, hc⟩)
      · cases h
      · exact absurd ((List.cons.inj h).1 ▸ hc) hfull

theorem front_append_back (chs : List Channel) : front chs ++ back chs = chs := List.takeWhile_append_dropWhile

theorem delivered_of_room {data : Bytes} {chs : List Channel} (h : back chs = []) :
    delivered data chs = chs.map (·.push data) := by
  have hfront := front_append_back chs
  rw [h, List.append_nil] at hfront
  rw [delivered, h, hfront, List.append_nil]

/-- The loop leaves everything as it was where no channel is in front of a full one. -/
theorem delivered_eq_self_iff {data : Bytes} {chs : List Channel} : delivered data chs = chs ↔ front chs = [] := by
  constructor
  · intro h
    by_contra hne
    obtain ⟨ch, rest, hfront⟩ := List.exists_cons_of_ne_nil hne
    have hsame := h.trans (front_append_back chs).symm
    rw [delivered, hfront, List.map_cons, List.cons_append, List.cons_append] at hsame
    have hqueue := congrArg Channel.queue (List.cons.inj hsame).1
    exact absurd hqueue (by simp [Channel.push])
  · intro h
    have hback := front_append_back chs
    rw [h, List.nil_append] at hback
    rw [delivered, h, List.map_nil, List.nil_append, hback]

theorem deliver_eq (data : Bytes) {chs : List Channel} (hopen : ∀ ch ∈ chs, ch.closed = false) :
    deliver data chs = .ok (delivered data chs, if back chs = [] then none else some .bufferFull) := by
  induction chs with
  | nil => rfl
  | cons ch chs ih =>
    have hch := hopen ch (List.mem_cons_self ..)
    have hrest := ih fun c hc => hopen c (List.mem_cons_of_mem _ hc)
    unfold delivered front back at hrest ⊢
    rw [deliver, Channel.offer, hch, if_neg Bool.false_ne_true]
    by_cases hfull : ch.Full
    · rw [if_pos hfull, List.takeWhile_cons_of_neg (by simpa using hfull),
        List.dropWhile_cons_of_neg (by simpa using hfull), if_neg (List.cons_ne_nil _ _)]
      rfl
    · rw [if_neg hfull, List.takeWhile_cons_of_pos (by simpa using hfull),
        List.dropWhile_cons_of_pos (by simpa using hfull)]
      show (do let (chs, err) ← deliver data chs; return (ch.push data :: chs, err)) = _
      rw [hrest]
      rfl

theorem channels_set (t : ChannelTransport) (topic : String) (chs : List Channel) :
    ({ t with subs := t.subs.set topic chs } : ChannelTransport).channels = Function.update t.channels topic chs := by
  funext other
  unfold channels
  rw [Dict.get?_set, Function.update_apply]
  split_ifs
  · rfl
  · rfl

theorem publish_eq {t : ChannelTransport} (h : t.Sound) (hopen : t.closed = false) {topic : String} (data : Bytes)
    {chs : List Channel} (hget : t.subs.get? topic = some chs) : t.publish topic data =
      .ok ({ t with subs := t.subs.set topic (delivered data chs) },
        if back chs = [] then none else some .bufferFull) := by
  have hchs : ∀ ch ∈ chs, ch.closed = false := fun ch hch =>
    h hopen ch (List.mem_flatten.mpr ⟨chs, Dict.mem_values_of_get? hget, hch⟩)
  simp only [publish, if_neg (Bool.eq_false_iff.mp hopen), hget, deliver_eq data hchs]
  rfl

/-- **All subscribers or none**: a full channel must not stand behind one that has room. -/
theorem publish_atomic_iff {t : ChannelTransport} (h : t.Sound) (topic : String) (data : Bytes) :
    t.AllOrNone topic data ↔ t.closed = true ∨ (∀ ch ∈ t.channels topic, ¬ ch.Full) ∨
      ∃ ch chs, t.channels topic = ch :: chs ∧ ch.Full := by
  unfold AllOrNone
  cases hclosed : t.closed with
  | true =>
    have hres : t.publish topic data = .ok (t, some .transportClosed) := if_pos hclosed
    rw [hres]
    exact ⟨fun _ => Or.inl rfl, fun _ => ⟨t, _, rfl, fun _ => rfl, fun hnone => (nomatch hnone)⟩⟩
  | false =>
  rw [or_iff_right Bool.false_ne_true]
  cases hget : t.subs.get? topic with
  | none =>
    have hres : t.publish topic data = .ok (t, none) := by
      simp only [publish, if_neg (Bool.eq_false_iff.mp hclosed), hget]
    have hnil : t.channels topic = [] := by rw [channels, hget, Option.getD_none]
    rw [hres, hnil]
    exact ⟨fun _ => Or.inl (by simp), fun _ => ⟨t, none, rfl, fun hne => absurd rfl hne, fun _ => hnil⟩⟩
  | some chs =>
    have hchs : t.channels topic = chs := by rw [channels, hget, Option.getD_some]
    rw [publish_eq h hclosed data hget, hchs, ← back_eq_nil_iff]
    constructor
    · rintro ⟨t', err, hres, herr, -⟩
      obtain ⟨rfl, rfl⟩ := Prod.mk.inj (Except.ok.inj hres)
      by_cases hroom : back chs = []
      · exact Or.inl hroom
      have hsame := congrFun (herr (by rw [if_neg hroom]; exact Option.some_ne_none _)) topic
      rw [channels_set, Function.update_self, hchs, delivered_eq_self_iff, front_eq_nil_iff] at hsame
      rcases hsame with rfl | hfirst
      · exact Or.inl rfl
      · exact Or.inr hfirst
    · rintro (hroom | hfirst)
      · refine ⟨_, _, rfl, fun hne => absurd (if_pos hroom) hne, fun _ => ?_⟩
        rw [channels_set, Function.update_self, delivered_of_room hroom]
      · have hsame : delivered data chs = chs := delivered_eq_self_iff.mpr (front_eq_nil_iff.mpr (Or.inr hfirst))
        have hfull : back chs ≠ [] := by
          obtain ⟨ch, rest, rfl, hch⟩ := hfirst
          exact fun hroom => back_eq_nil_iff.mp hroom ch (List.mem_cons_self ..) hch
        refine ⟨_, _, rfl, fun _ => ?_, fun hnone => ?_⟩
        · rw [channels_set, hsame, ← hchs, Function.update_eq_self]
        · rw [if_neg hfull] at hnone
          cases hnone

/-- Two subscribers, and the second one has not read for long. -/
def slowSecond : ChannelTransport where
  subs := Dict.empty.set "a" [{}, { queue := List.replicate defaultBufferSize [] }]

theorem slowSecond_sound : slowSecond.Sound := fun _ => by decide +kernel

theorem publish_atomic_slowSecond : slowSecond.AllOrNone "a" [1] ↔ slowSecond.closed = true ∨
    (∀ ch ∈ slowSecond.channels "a", ¬ ch.Full) ∨ ∃ ch chs, slowSecond.channels "a" = ch :: chs ∧ ch.Full :=
  publish_atomic_iff slowSecond_sound "a" [1]

/-- The first subscriber has the message, and the publisher has an error. -/
theorem slowSecond_not_atomic : ¬ slowSecond.AllOrNone "a" [1] := by
  rintro ⟨t', err, hres, herr, -⟩
  have hrun : (slowSecond.publish "a" [1]).toOption.map (fun r => (r.2.isSome, (r.1.channels "a").map (·.queue.length)))
      = some (true, [1, 1024]) := by decide +kernel
  rw [hres] at hrun
  obtain ⟨hsome, hlengths⟩ := Prod.mk.inj (Option.some.inj hrun)
  have hlengths' : (t'.channels "a").map (·.queue.length) = [1, 1024] := hlengths
  rw [herr (Option.isSome_iff_ne_none.mp hsome)] at hlengths'
  exact absurd hlengths' (by decide +kernel)

end ChannelTransport

theorem Channel.closed_receive {ch ch' : Channel} (h : ch.receive = some ch') : ch'.closed = ch.closed := by
  unfold receive at h
  split at h
  · cases h
  split at h
  · obtain rfl := Option.some.inj h
    rfl
  · split at h
    · obtain rfl := Option.some.inj h
      rfl
    · cases h

namespace ChannelTransport

theorem Sound.subscribe {t : ChannelTransport} (h : t.Sound) (topic : String) : (t.subscribe topic).Sound := by
  intro hopen ch hch
  rcases mem_registered_set hch with hnew | hold
  · rcases List.mem_append.mp hnew with hmem | hself
    · exact h hopen ch (mem_registered_of_mem_channels hmem)
    · rw [List.mem_singleton.mp hself]
  · exact h hopen ch hold

/-- `Close` meets no channel that is closed already. -/
theorem Sound.close {t : ChannelTransport} (h : t.Sound) : t.close = .ok
    (if t.closed then t else { subs := t.subs.mapValues (·.map ({ · with closed := true })), closed := true }) := by
  unfold ChannelTransport.close
  split_ifs with hclosed hany
  · rfl
  · obtain ⟨ch, hch, hch'⟩ := hany
    rw [h (Bool.eq_false_iff.mpr hclosed) ch hch] at hch'
    cases hch'
  · rfl

end ChannelTransport

end Atlas.Broker.Transport
