import Atlas.Broker.Transport
import Atlas.Lib.Run

/-!
# Calls of the channel transport, side by side

* `Session.step` : the sections under the write lock are one step each; those of `Publish` share the read lock, and
  every channel they send to is a step of its own;
* `session_safe` : no panic, and nothing is published behind `Close`;
* `exec_publish` : a call of `Publish` that nobody disturbs does what the method does;
* `closed_registered_iff` : which runs leave no open channel behind `Close`.
-/

namespace Atlas.Broker.Transport

/-! ## Calls side by side -/

/-- Where a call of `Publish` stands: before its lock, at a channel of its topic, back at its caller. -/
inductive Place
  | called
  | sending (i : Nat)
  | returned (err : Option TransportError)
  deriving DecidableEq

/-- The call holds the read lock. -/
def Place.reading : Place → Bool
  | .sending _ => true
  | _ => false

structure PublishCall where
  topic : String
  data : Bytes
  place : Place
  /-- The call started after a `Close` had returned. -/
  late : Bool
  deriving DecidableEq

structure Session where
  transport : ChannelTransport := {}
  publishes : List PublishCall := []
  /-- The panic that ended the program. -/
  panic : Option Panic := none
  /-- A call of `Close` has returned. -/
  closeReturned : Bool := false

inductive Event
  | publish (topic : String) (data : Bytes)
  /-- `RLock` and the look at `c.closed` -/
  | enter (k : Nat)
  /-- The loop turns, or the call returns behind it. -/
  | send (k : Nat)
  | subscribe (topic : String)
  | close
  /-- The goroutine behind channel `i` of a topic turns. -/
  | receive (topic : String) (i : Nat)
  deriving DecidableEq, Repr

namespace Session

/-- The read lock is held. -/
def Reading (s : Session) : Prop := ∃ c ∈ s.publishes, c.place.reading = true

instance (s : Session) : Decidable s.Reading := inferInstanceAs (Decidable (∃ c ∈ s.publishes, _))

/-- The call `k` goes on to `place`. -/
def move (s : Session) (k : Nat) (c : PublishCall) (place : Place) : Session :=
  { s with publishes := s.publishes.set k { c with place } }

/-- The call `c` at channel `i`. -/
def send (s : Session) (k : Nat) (c : PublishCall) (i : Nat) : Session :=
  match (s.transport.channels c.topic)[i]? with
  | none => s.move k c (.returned none)
  | some ch =>
    match ch.offer c.data with
    | .error p => { s with panic := some p }
    | .ok none => s.move k c (.returned (some .bufferFull))
    | .ok (some ch) =>
      { s.move k c (.sending (i + 1)) with transport := s.transport.setChannel c.topic i ch }

theorem send_full {s : Session} {k i : Nat} {c : PublishCall} {ch : Channel}
    (hch : (s.transport.channels c.topic)[i]? = some ch) (hclosed : ch.closed = false) (hfull : ch.Full) :
    s.send k c i = s.move k c (.returned (some .bufferFull)) := by
  have hoffer : ch.offer c.data = .ok none := by
    rw [Channel.offer, hclosed, if_neg Bool.false_ne_true, if_pos hfull]
  unfold send
  simp only [hch, hoffer]

theorem send_room {s : Session} {k i : Nat} {c : PublishCall} {ch : Channel}
    (hch : (s.transport.channels c.topic)[i]? = some ch) (hclosed : ch.closed = false) (hroom : ¬ ch.Full) :
    s.send k c i =
      { s.move k c (.sending (i + 1)) with transport := s.transport.setChannel c.topic i (ch.push c.data) } := by
  have hoffer : ch.offer c.data = .ok (some (ch.push c.data)) := by
    rw [Channel.offer, hclosed, if_neg Bool.false_ne_true, if_neg hroom]
  unfold send
  simp only [hch, hoffer]

/-- Call `k` takes the read lock and looks at `c.closed`. -/
def enter (s : Session) (k : Nat) : Option Session :=
  match s.publishes[k]? with
  | some c =>
    if c.place ≠ .called then none
    else some (s.move k c (if s.transport.closed then .returned (some .transportClosed) else .sending 0))
  | none => none

/-- The loop of call `k` turns. -/
def turn (s : Session) (k : Nat) : Option Session :=
  match s.publishes[k]? with
  | some ⟨topic, data, .sending i, late⟩ => some (s.send k ⟨topic, data, .sending i, late⟩ i)
  | _ => none

def close (s : Session) : Option Session :=
  if s.Reading then none
  else match s.transport.close with
    | .error p => some { s with panic := some p }
    | .ok transport => some { s with transport, closeReturned := true }

def receive (s : Session) (topic : String) (i : Nat) : Option Session :=
  ((s.transport.channels topic)[i]?.bind Channel.receive).map fun ch =>
    { s with transport := s.transport.setChannel topic i ch }

def fire (s : Session) : Event → Option Session
  | .publish topic data => some { s with publishes := s.publishes ++ [⟨topic, data, .called, s.closeReturned⟩] }
  | .enter k => s.enter k
  | .send k => s.turn k
  | .subscribe topic => if s.Reading then none else some { s with transport := s.transport.subscribe topic }
  | .close => s.close
  | .receive topic i => s.receive topic i

/-- One event, absent where it cannot happen; behind a panic nothing does. -/
def step (s : Session) (e : Event) : Option Session := if s.panic.isSome then none else s.fire e

theorem fire_of_step {s s' : Session} {e : Event} (h : s.step e = some s') : s.fire e = some s' := by
  unfold step at h
  split_ifs at h
  exact h

theorem step_eq_fire {s : Session} (hpanic : s.panic = none) (e : Event) : s.step e = s.fire e := by
  rw [step, hpanic]
  rfl

theorem enter_cases {s s' : Session} {k : Nat} (h : s.enter k = some s') : ∃ c ∈ s.publishes, s' = s.move k c
    (if s.transport.closed then .returned (some .transportClosed) else .sending 0) := by
  unfold enter at h
  split at h
  · rename_i c hc
    by_cases hcalled : c.place ≠ .called
    · rw [if_pos hcalled] at h
      cases h
    · rw [if_neg hcalled] at h
      exact ⟨c, List.mem_of_getElem? hc, (Option.some.inj h).symm⟩
  · cases h

theorem turn_cases {s s' : Session} {k : Nat} (h : s.turn k = some s') :
    ∃ c ∈ s.publishes, ∃ i, c.place = .sending i ∧ s' = s.send k c i := by
  unfold turn at h
  split at h
  · rename_i topic data i late hc
    exact ⟨_, List.mem_of_getElem? hc, i, rfl, (Option.some.inj h).symm⟩
  · cases h

theorem close_cases {s s' : Session} (h : s.close = some s') : ¬ s.Reading ∧
    ((∃ p, s.transport.close = .error p ∧ s' = { s with panic := some p }) ∨
      ∃ transport, s.transport.close = .ok transport ∧ s' = { s with transport, closeReturned := true }) := by
  unfold close at h
  split_ifs at h with hreading
  refine ⟨hreading, ?_⟩
  split at h
  · rename_i p hclose
    exact Or.inl ⟨p, hclose, (Option.some.inj h).symm⟩
  · rename_i transport hclose
    exact Or.inr ⟨transport, hclose, (Option.some.inj h).symm⟩

theorem receive_cases {s s' : Session} {topic : String} {i : Nat} (h : s.receive topic i = some s') :
    ∃ ch ch', (s.transport.channels topic)[i]? = some ch ∧ ch.receive = some ch' ∧
      s' = { s with transport := s.transport.setChannel topic i ch' } := by
  obtain ⟨ch', hch', rfl⟩ := Option.map_eq_some_iff.mp h
  obtain ⟨ch, hch, hreceive⟩ := Option.bind_eq_some_iff.mp hch'
  exact ⟨ch, ch', hch, hreceive, rfl⟩

end Session

/-! ## What every session keeps -/

namespace Session

structure Inv (s : Session) : Prop where
  panic : s.panic = none
  sound : s.transport.Sound
  reading : s.Reading → s.transport.closed = false
  returned : s.closeReturned = true → s.transport.closed = true
  late : ∀ c ∈ s.publishes, c.late = true →
    s.closeReturned = true ∧ ∀ err, c.place = .returned err → err = some .transportClosed

theorem mem_move {s : Session} {k : Nat} {c c' : PublishCall} {place : Place}
    (h : c' ∈ (s.move k c place).publishes) : c' = { c with place } ∨ c' ∈ s.publishes :=
  (List.mem_or_eq_of_mem_set h).symm

variable {s s' : Session}

/-- Under the read lock a channel is open: the call returns, or the channel has the message. -/
theorem Inv.send_cases (h : s.Inv) {c : PublishCall} (hc : c ∈ s.publishes) {i : Nat} (hplace : c.place = .sending i)
    (k : Nat) : (∃ err, s.send k c i = s.move k c (.returned err)) ∨
      ∃ ch, (s.transport.channels c.topic)[i]? = some ch ∧ s.send k c i =
        { s.move k c (.sending (i + 1)) with transport := s.transport.setChannel c.topic i (ch.push c.data) } := by
  have hopen := h.reading ⟨c, hc, by rw [hplace]; rfl⟩
  cases hch : (s.transport.channels c.topic)[i]? with
  | none =>
    unfold send
    simp only [hch]
    exact Or.inl ⟨none, rfl⟩
  | some ch =>
    have hmem := ChannelTransport.mem_registered_of_mem_channels (List.mem_of_getElem? hch)
    have hclosed := h.sound hopen ch hmem
    by_cases hfull : ch.Full
    · exact Or.inl ⟨_, send_full hch hclosed hfull⟩
    · exact Or.inr ⟨ch, rfl, send_room hch hclosed hfull⟩

/-- A call moves on and keeps the account: what it finds if it is late, and the lock if it holds it. -/
theorem Inv.move (h : s.Inv) {c : PublishCall} (hc : c ∈ s.publishes) (k : Nat) {place : Place}
    (hreading : place.reading = true → s.transport.closed = false)
    (hlate : c.late = true → ∀ err, place = .returned err → err = some .transportClosed) : (s.move k c place).Inv where
  panic := h.panic
  sound := h.sound
  reading := by
    rintro ⟨c', hc', hread⟩
    rcases mem_move hc' with rfl | hold
    · exact hreading hread
    · exact h.reading ⟨c', hold, hread⟩
  returned := h.returned
  late c' hc' hl := by
    rcases mem_move hc' with rfl | hold
    · exact ⟨(h.late c hc hl).1, hlate hl⟩
    · exact h.late c' hold hl

theorem Inv.setChannel (h : s.Inv) {topic : String} {i : Nat} {ch ch' : Channel}
    (hch : (s.transport.channels topic)[i]? = some ch) (hclosed : ch'.closed = ch.closed) :
    ({ s with transport := s.transport.setChannel topic i ch' } : Session).Inv :=
  ⟨h.panic, h.sound.setChannel hch hclosed, h.reading, h.returned, h.late⟩

/-- A late call is not one that sends: what it finds is a closed transport. -/
theorem Inv.not_reading (h : s.Inv) {c : PublishCall} (hc : c ∈ s.publishes) (hlate : c.late = true) :
    c.place.reading ≠ true := by
  intro hread
  have hopen := h.reading ⟨c, hc, hread⟩
  rw [h.returned (h.late c hc hlate).1] at hopen
  cases hopen

theorem Inv.step (h : s.Inv) {e : Event} (hstep : s.step e = some s') : s'.Inv := by
  have hfire := fire_of_step hstep
  cases e with
  | publish topic data =>
    obtain rfl := Option.some.inj hfire
    refine ⟨h.panic, h.sound, ?_, h.returned, ?_⟩
    · rintro ⟨c, hc, hread⟩
      rcases List.mem_append.mp hc with hold | hnew
      · exact h.reading ⟨c, hold, hread⟩
      · rw [List.mem_singleton.mp hnew] at hread
        cases hread
    · intro c hc hlate
      rcases List.mem_append.mp hc with hold | hnew
      · exact h.late c hold hlate
      · rw [List.mem_singleton.mp hnew] at hlate ⊢
        exact ⟨hlate, fun err herr => (nomatch herr)⟩
  | enter k =>
    obtain ⟨c, hc, rfl⟩ := enter_cases hfire
    split_ifs with hclosed
    · refine h.move hc k (fun hread => (nomatch hread)) fun _ err herr => ?_
      exact (Place.returned.inj herr).symm
    · exact h.move hc k (fun _ => Bool.eq_false_iff.mpr hclosed) fun _ err herr => (nomatch herr)
  | send k =>
    obtain ⟨c, hc, i, hplace, rfl⟩ := turn_cases hfire
    have hopen := h.reading ⟨c, hc, by rw [hplace]; rfl⟩
    have hnot : c.late ≠ true := fun hlate => h.not_reading hc hlate (by rw [hplace]; rfl)
    rcases h.send_cases hc hplace k with ⟨err, heq⟩ | ⟨ch, hch, heq⟩
    · rw [heq]
      exact h.move hc k (fun hread => (nomatch hread)) fun hlate => absurd hlate hnot
    · rw [heq]
      have hmoved : (s.move k c (.sending (i + 1))).Inv :=
        h.move hc k (fun _ => hopen) fun hlate => absurd hlate hnot
      exact hmoved.setChannel hch rfl
  | subscribe topic =>
    rw [fire] at hfire
    split_ifs at hfire
    obtain rfl := Option.some.inj hfire
    exact ⟨h.panic, h.sound.subscribe topic, h.reading, h.returned, h.late⟩
  | close =>
    obtain ⟨hfree, hclose⟩ := close_cases hfire
    rw [h.sound.close] at hclose
    rcases hclose with ⟨p, hp, -⟩ | ⟨transport, htransport, rfl⟩
    · cases hp
    obtain rfl := Except.ok.inj htransport
    have hlate : ∀ c ∈ s.publishes, c.late = true →
        true = true ∧ ∀ err, c.place = .returned err → err = some .transportClosed :=
      fun c hc hl => ⟨rfl, (h.late c hc hl).2⟩
    split_ifs with hclosed
    · exact ⟨h.panic, h.sound, h.reading, fun _ => hclosed, hlate⟩
    · exact ⟨h.panic, fun hopen => (nomatch hopen), fun hread => absurd hread hfree, fun _ => rfl, hlate⟩
  | receive topic i =>
    obtain ⟨ch, ch', hch, hreceive, rfl⟩ := receive_cases hfire
    exact h.setChannel hch (Channel.closed_receive hreceive)

/-- Behind `Close` a late call gets its lock, and its answer. -/
theorem Inv.step_enter (h : s.Inv) {k : Nat} {c : PublishCall} (hc : s.publishes[k]? = some c)
    (hlate : c.late = true) (hcalled : c.place = .called) :
    s.step (.enter k) = some (s.move k c (.returned (some .transportClosed))) := by
  have hclosed := h.returned (h.late c (List.mem_of_getElem? hc) hlate).1
  rw [step_eq_fire h.panic, fire, enter, hc]
  dsimp only
  rw [if_neg (not_not.mpr hcalled), if_pos hclosed]

theorem inv_start : Inv {} := by
  refine ⟨rfl, ?_, ?_, nofun, ?_⟩
  · intro _ ch hch
    cases hch
  · rintro ⟨c, hc, -⟩
    cases hc
  · intro c hc
    cases hc

end Session

/-- **No panic, and nothing is published behind `Close`**: a call of `Publish` that starts when a `Close` has returned
sends nothing; as soon as it runs it returns, and what it returns is `ErrTransportClosed`. -/
theorem session_safe {events : List Event} {s : Session} (h : Run.exec Session.step {} events = some s) :
    s.panic = none ∧
      ∀ k c, s.publishes[k]? = some c → c.late = true →
        c.place = .returned (some .transportClosed) ∨
          c.place = .called ∧ s.step (.enter k) = some (s.move k c (.returned (some .transportClosed))) := by
  have hinv := Run.exec_invariant Session.Inv (fun _ _ _ hinv hstep => hinv.step hstep) Session.inv_start h
  refine ⟨hinv.panic, fun k c hk hlate => ?_⟩
  have hc := List.mem_of_getElem? hk
  cases hplace : c.place with
  | called => exact Or.inr ⟨rfl, hinv.step_enter hk hlate hplace⟩
  | sending i => exact absurd (by rw [hplace]; rfl) (hinv.not_reading hc hlate)
  | returned err => rw [(hinv.late c hc hlate).2 err hplace]; exact Or.inl rfl

/-- A message, `Close`, and a message behind it. -/
theorem session_safe_close : ∃ s, Run.exec Session.step {}
      [.subscribe "a", .publish "a" [1], .enter 0, .send 0, .send 0, .close, .publish "a" [2], .enter 1] = some s ∧
    s.panic = none ∧
      ∀ k c, s.publishes[k]? = some c → c.late = true →
        c.place = .returned (some .transportClosed) ∨
          c.place = .called ∧ s.step (.enter k) = some (s.move k c (.returned (some .transportClosed))) := by
  obtain ⟨s, hs⟩ := Option.isSome_iff_exists.mp (by decide +kernel : (Run.exec Session.step {}
    [.subscribe "a", .publish "a" [1], .enter 0, .send 0, .send 0, .close, .publish "a" [2], .enter 1]).isSome)
  exact ⟨s, hs, session_safe hs⟩

/-! ## A call by itself -/

namespace Session
open ChannelTransport

theorem step_send {s : Session} (hpanic : s.panic = none) {k i : Nat} {topic : String} {data : Bytes} {late : Bool}
    (hcall : s.publishes[k]? = some ⟨topic, data, .sending i, late⟩) :
    s.step (.send k) = some (s.send k ⟨topic, data, .sending i, late⟩ i) := by
  rw [step_eq_fire hpanic, fire, turn, hcall]

/-- The loop of a call that nobody disturbs, from channel `i` on. -/
theorem exec_loop (data : Bytes) (topic : String) (k : Nat) (late : Bool) (todo : List Channel) (s : Session)
    (done : List Channel) (hpanic : s.panic = none)
    (hcall : s.publishes[k]? = some ⟨topic, data, .sending done.length, late⟩)
    (hchannels : s.transport.channels topic = done ++ todo) (hopen : ∀ ch ∈ todo, ch.closed = false) :
    ∃ s', Run.exec step s (List.replicate ((front todo).length + 1) (.send k)) = some s' ∧
      s'.transport.channels = Function.update s.transport.channels topic (done ++ delivered data todo) ∧
      s'.publishes = s.publishes.set k
        ⟨topic, data, .returned (if back todo = [] then none else some .bufferFull), late⟩ := by
  have hsame : Function.update s.transport.channels topic (done ++ todo) = s.transport.channels := by
    rw [← hchannels, Function.update_eq_self]
  induction todo generalizing s done with
  | nil =>
    refine ⟨_, congrArg (Option.bind · some) (step_send hpanic hcall), ?_, ?_⟩
    all_goals
      have hch : (s.transport.channels topic)[done.length]? = none := by simp [hchannels]
      unfold send
      simp only [hch]
    · exact hsame.symm
    · rfl
  | cons ch todo ih =>
    have hch : (s.transport.channels topic)[done.length]? = some ch := by simp [hchannels]
    have hclosed := hopen ch (List.mem_cons_self ..)
    by_cases hfull : ch.Full
    · have hfront : front (ch :: todo) = [] := front_eq_nil_iff.mpr (Or.inr ⟨ch, todo, rfl, hfull⟩)
      have hback := front_append_back (ch :: todo)
      rw [hfront, List.nil_append] at hback
      rw [hfront, delivered_eq_self_iff.mpr hfront, hback, if_neg (List.cons_ne_nil _ _)]
      refine ⟨_, congrArg (Option.bind · some) (step_send hpanic hcall), ?_, ?_⟩
      · rw [send_full hch hclosed hfull]
        exact hsame.symm
      · rw [send_full hch hclosed hfull]
        rfl
    · have hfront : front (ch :: todo) = ch :: front todo := List.takeWhile_cons_of_pos (by simpa using hfull)
      have hback : back (ch :: todo) = back todo := List.dropWhile_cons_of_pos (by simpa using hfull)
      have hdelivered : delivered data (ch :: todo) = ch.push data :: delivered data todo := by
        rw [delivered, hfront, hback]
        rfl
      have hlt : k < s.publishes.length := (List.getElem?_eq_some_iff.mp hcall).1
      have hset : (done ++ ch :: todo).set done.length (ch.push data) = done ++ [ch.push data] ++ todo := by simp
      have hsent := @send_room s k done.length ⟨topic, data, .sending done.length, late⟩ ch hch hclosed hfull
      have hnext : (s.send k ⟨topic, data, .sending done.length, late⟩ done.length).transport.channels =
          Function.update s.transport.channels topic (done ++ [ch.push data] ++ todo) := by
        rw [hsent]
        show (s.transport.setChannel topic done.length (ch.push data)).channels = _
        rw [setChannel, channels_set, hchannels, hset]
      have hcalls : (s.send k ⟨topic, data, .sending done.length, late⟩ done.length).publishes =
          s.publishes.set k ⟨topic, data, .sending (done.length + 1), late⟩ := by
        rw [hsent]
        rfl
      obtain ⟨s', hexec, hchannels', hcalls'⟩ := ih (s.send k ⟨topic, data, .sending done.length, late⟩ done.length)
        (done ++ [ch.push data]) (by rw [hsent]; exact hpanic)
        (by rw [hcalls, List.getElem?_set_self hlt, List.length_append, List.length_singleton])
        (by rw [hnext, Function.update_self]) (fun c hc => hopen c (List.mem_cons_of_mem _ hc))
        (by rw [hnext, Function.update_idem])
      refine ⟨s', ?_, ?_, ?_⟩
      · rw [hfront, List.length_cons, List.replicate_succ, Run.exec, step_send hpanic hcall]
        exact hexec
      · rw [hchannels', hnext, Function.update_idem, hdelivered, List.append_assoc]
        rfl
      · rw [hcalls', hcalls, List.set_set, hback]

/-- A call of `Publish` that nobody disturbs does what `ChannelTransport.publish` does. -/
theorem exec_publish {s : Session} (h : s.Inv) {topic : String} {data : Bytes} {t : ChannelTransport}
    {err : Option TransportError} (hpublish : s.transport.publish topic data = .ok (t, err)) :
    ∃ turns s', Run.exec step s (.publish topic data :: .enter s.publishes.length ::
        List.replicate turns (.send s.publishes.length)) = some s' ∧
      s'.transport.channels = t.channels ∧
      s'.publishes = s.publishes ++ [⟨topic, data, .returned err, s.closeReturned⟩] := by
  obtain ⟨called, hcalled⟩ : ∃ called : Session, called =
      { s with publishes := s.publishes ++ [⟨topic, data, .called, s.closeReturned⟩] } := ⟨_, rfl⟩
  have hcalls : called.publishes[s.publishes.length]? = some ⟨topic, data, .called, s.closeReturned⟩ := by
    rw [hcalled, List.getElem?_concat_length]
  have hset : ∀ c, called.publishes.set s.publishes.length c = s.publishes ++ [c] := by
    intro c
    rw [hcalled, List.set_append_right _ _ le_rfl, Nat.sub_self]
    rfl
  have hstart : s.step (.publish topic data) = some called := by
    rw [step_eq_fire h.panic, hcalled]
    rfl
  have henter : called.step (.enter s.publishes.length) = some (called.move s.publishes.length
      ⟨topic, data, .called, s.closeReturned⟩
      (if s.transport.closed then .returned (some .transportClosed) else .sending 0)) := by
    rw [step_eq_fire (by rw [hcalled]; exact h.panic), fire, enter, hcalls, hcalled]
    rfl
  simp only [Run.exec, hstart, henter, Option.bind_some]
  cases hclosed : s.transport.closed with
  | true =>
    rw [ChannelTransport.publish, if_pos hclosed] at hpublish
    obtain ⟨rfl, rfl⟩ := Prod.mk.inj (Except.ok.inj hpublish)
    exact ⟨0, _, rfl, by rw [hcalled]; rfl, hset _⟩
  | false =>
    have hopen : ∀ ch ∈ s.transport.channels topic, ch.closed = false := fun ch hch =>
      h.sound hclosed ch (mem_registered_of_mem_channels hch)
    obtain ⟨s', hexec, hchannels, hcalls'⟩ := exec_loop data topic s.publishes.length s.closeReturned
      (s.transport.channels topic) (called.move s.publishes.length ⟨topic, data, .called, s.closeReturned⟩ (.sending 0))
      []
      (by rw [hcalled]; exact h.panic)
      (by show (called.publishes.set _ _)[_]? = _; rw [hset, List.getElem?_concat_length]; rfl)
      (by rw [hcalled]; rfl) hopen
    have hsame : (called.move s.publishes.length ⟨topic, data, .called, s.closeReturned⟩ (.sending 0)).transport =
        s.transport := by
      rw [hcalled]
      rfl
    have hreturned : s'.publishes = s.publishes ++ [⟨topic, data,
        .returned (if back (s.transport.channels topic) = [] then none else some .bufferFull), s.closeReturned⟩] := by
      rw [hcalls']
      show (called.publishes.set _ _).set _ _ = _
      rw [List.set_set, hset]
    rw [hsame, List.nil_append] at hchannels
    refine ⟨_, s', hexec, ?_⟩
    rw [hchannels, hreturned]
    cases hget : s.transport.subs.get? topic with
    | none =>
      have hnil : s.transport.channels topic = [] := by rw [channels, hget, Option.getD_none]
      simp only [ChannelTransport.publish, if_neg (Bool.eq_false_iff.mp hclosed), hget] at hpublish
      obtain ⟨rfl, rfl⟩ := Prod.mk.inj (Except.ok.inj hpublish)
      rw [hnil]
      refine ⟨?_, rfl⟩
      show Function.update s.transport.channels topic [] = _
      rw [← hnil, Function.update_eq_self]
    | some chs =>
      have hchs : s.transport.channels topic = chs := by rw [channels, hget, Option.getD_some]
      rw [publish_eq h.sound hclosed data hget] at hpublish
      obtain ⟨rfl, rfl⟩ := Prod.mk.inj (Except.ok.inj hpublish)
      rw [channels_set, hchs]
      exact ⟨rfl, rfl⟩

end Session

/-! ## What `Close` leaves open -/

namespace Session

/-- Once the transport is closed, so is every channel in `c.subs`. -/
def AllClosed (s : Session) : Prop := s.transport.closed = true → ∀ ch ∈ s.transport.registered, ch.closed = true

/-- `Subscribe` does not take its lock behind `Close`. -/
def NotLate (s : Session) (e : Event) : Prop := ∀ topic, e = .subscribe topic → s.transport.closed = false

theorem allClosed_of_open {s : Session} (h : s.transport.closed = false) : s.AllClosed := by
  intro hclosed
  rw [h] at hclosed
  cases hclosed

theorem notLate_of_ne {s : Session} {e : Event} (h : ∀ topic, e ≠ .subscribe topic) : s.NotLate e :=
  fun topic he => absurd he (h topic)

/-- The new channel of `Subscribe` is open, and `Close` does not come back to it. -/
theorem allClosed_subscribe_iff {s : Session} (topic : String) :
    AllClosed { s with transport := s.transport.subscribe topic } ↔ s.NotLate (.subscribe topic) := by
  constructor
  · intro hall _ _
    by_contra hclosed
    have hnew : ({} : Channel) ∈ (s.transport.subscribe topic).registered := by
      refine @ChannelTransport.mem_registered_of_mem_channels _ topic _ ?_
      unfold ChannelTransport.subscribe
      rw [ChannelTransport.channels_set, Function.update_self]
      exact List.mem_append_right _ (List.mem_singleton_self _)
    exact Bool.false_ne_true (hall (Bool.not_eq_false _ ▸ hclosed) _ hnew)
  · intro hlate
    exact allClosed_of_open (hlate topic rfl)

theorem AllClosed.step_iff {s s' : Session} {e : Event} (h : s.Inv) (hall : s.AllClosed) (hstep : s.step e = some s') :
    s'.AllClosed ↔ s.NotLate e := by
  have hfire := fire_of_step hstep
  cases e with
  | subscribe topic =>
    rw [fire] at hfire
    split_ifs at hfire
    obtain rfl := Option.some.inj hfire
    exact allClosed_subscribe_iff topic
  | publish topic data =>
    obtain rfl := Option.some.inj hfire
    exact iff_of_true hall (notLate_of_ne fun _ he => (nomatch he))
  | enter k =>
    obtain ⟨c, -, rfl⟩ := enter_cases hfire
    exact iff_of_true hall (notLate_of_ne fun _ he => (nomatch he))
  | send k =>
    obtain ⟨c, hc, i, hplace, rfl⟩ := turn_cases hfire
    have hopen := h.reading ⟨c, hc, by rw [hplace]; rfl⟩
    refine iff_of_true ?_ (notLate_of_ne fun _ he => (nomatch he))
    rcases h.send_cases hc hplace k with ⟨err, heq⟩ | ⟨ch, -, heq⟩
    · rw [heq]
      exact hall
    · rw [heq]
      exact allClosed_of_open hopen
  | close =>
    refine iff_of_true ?_ (notLate_of_ne fun _ he => (nomatch he))
    obtain ⟨-, hclose⟩ := close_cases hfire
    rw [h.sound.close] at hclose
    rcases hclose with ⟨p, hp, -⟩ | ⟨transport, htransport, rfl⟩
    · cases hp
    obtain rfl := Except.ok.inj htransport
    split_ifs with hclosed
    · exact hall
    · intro _ ch hch
      obtain ⟨chs, hchs, hmem⟩ := List.mem_flatten.mp hch
      rw [Dict.values_mapValues] at hchs
      obtain ⟨old, -, rfl⟩ := List.mem_map.mp hchs
      obtain ⟨_, -, rfl⟩ := List.mem_map.mp hmem
      rfl
  | receive topic i =>
    obtain ⟨ch, ch', hch, hreceive, rfl⟩ := receive_cases hfire
    refine iff_of_true ?_ (notLate_of_ne fun _ he => (nomatch he))
    intro hclosed other hother
    rcases ChannelTransport.mem_registered_setChannel hother with rfl | hold
    · rw [Channel.closed_receive hreceive]
      exact hall hclosed ch (ChannelTransport.mem_registered_of_mem_channels (List.mem_of_getElem? hch))
    · exact hall hclosed other hold

end Session

/-- **Which runs leave no open channel behind `Close`**: those in which no `Subscribe` comes after it. -/
theorem closed_registered_iff (events : List Event) :
    Run.Always Session.step Session.AllClosed {} events ↔ Run.Each Session.step Session.NotLate {} events := by
  apply Run.always_iff_each Session.Inv
  · exact fun _ _ _ hinv hstep => hinv.step hstep
  · exact fun _ _ _ hinv hall hstep => hall.step_iff hinv hstep
  · exact Session.inv_start
  · exact Session.allClosed_of_open rfl

/-- A subscriber that comes after `Close` waits on its channel for ever. -/
theorem late_subscriber_open : ∃ s, Run.exec Session.step {} [.close, .subscribe "a"] = some s ∧
    s.transport.closed = true ∧ ∃ ch ∈ s.transport.registered, ch.closed = false := by
  obtain ⟨s, hs⟩ := Option.isSome_iff_exists.mp (by decide +kernel :
    (Run.exec Session.step {} [.close, .subscribe "a"]).isSome)
  have hrun : (Run.exec Session.step {} [.close, .subscribe "a"]).all (fun s =>
      s.transport.closed ∧ ∃ ch ∈ s.transport.registered, ch.closed = false) := by decide +kernel
  rw [hs] at hrun
  exact ⟨s, hs, of_decide_eq_true hrun⟩

end Atlas.Broker.Transport
