import Atlas.Broker.Topics
import Atlas.Lib.Run
import Mathlib.Data.List.Perm.Basic

/-!
# The router and its buffer: `services/message_broker/validator.go`

* `Buffer.add`, `Buffer.drain` : a bounded queue that drops its oldest message;
* `Router.route`, `Router.flush` : publish now, or keep the message for later; the results of `natsPublish` come with
  the call;
* `Router.step` : the calls of a run, one after the other under the router's mutex;
* `flush_eq` : what a flush publishes and what it keeps; `flush_conserves` : nothing else happens to a message;
* `accepted_accounted` : what becomes of an accepted message, and in which runs none is lost;
* `in_order_of_no_overtaking` : in which runs a topic is published in order.
-/

namespace Atlas.Broker.Routing

/-- A message, with the number of the call of `Route` that brought it. -/
structure ValidatedMessage where
  call : Nat
  envelope : Bytes
  routingPath : String
  deriving DecidableEq, Repr

inductive RouteError
  /-- nil message -/
  | nilMessage
  | timeout
  deriving DecidableEq, Repr

/-- An error of `natsPublish`: `context.DeadlineExceeded` or `context.Canceled`, or another one. -/
inductive PublishError
  | context
  | other
  deriving DecidableEq, Repr

/-- `evicted` keeps account of the messages that were dropped. -/
structure Buffer where
  messages : List ValidatedMessage := []
  maxSize : Nat
  evicted : List ValidatedMessage := []
  deriving DecidableEq, Repr

def newBuffer (maxSize : Int) : Buffer := { maxSize := if maxSize ≤ 0 then 1000 else maxSize.toNat }

namespace Buffer

def add (b : Buffer) : Option ValidatedMessage → Except RouteError Buffer
  | none => .error .nilMessage
  | some msg =>
    if b.messages.length ≥ b.maxSize then
      .ok { b with messages := b.messages.drop 1 ++ [msg], evicted := b.evicted ++ b.messages.take 1 }
    else .ok { b with messages := b.messages ++ [msg] }

def drain (b : Buffer) : List ValidatedMessage × Buffer :=
  if b.messages.length = 0 then ([], b) else (b.messages, { b with messages := [] })

end Buffer

/-- `accepted` and `published` keep account of the messages for which `Route` returned nil and of those that were
published, in order. -/
structure Router where
  buffer : Buffer
  /-- `natsPublish` is not nil. -/
  hasPublisher : Bool
  calls : Nat := 0
  accepted : List ValidatedMessage := []
  published : List ValidatedMessage := []
  deriving DecidableEq, Repr

def newRouter (hasPublisher : Bool) : Router := { buffer := newBuffer 1000, hasPublisher }

namespace Router

/-- The message goes to the buffer. -/
def keep (r : Router) (msg : ValidatedMessage) : Router × Option RouteError :=
  match r.buffer.add (some msg) with
  | .error err => (r, some err)
  | .ok buffer => ({ r with buffer, accepted := r.accepted ++ [msg] }, none)

/-- `res` is what `natsPublish` returns, `none` for nil. -/
def route (r : Router) (msg : Option ValidatedMessage) (res : Option PublishError) : Router × Option RouteError :=
  match msg with
  | none => (r, some .nilMessage)
  | some msg =>
    if r.hasPublisher then
      match res with
      | none => ({ r with accepted := r.accepted ++ [msg], published := r.published ++ [msg] }, none)
      | some .context => (r, some .timeout)
      | some .other => r.keep msg
    else r.keep msg

/-- `_ = r.buffer.Add(msg)` -/
def rebuffer (r : Router) (msg : ValidatedMessage) : Router :=
  match r.buffer.add (some msg) with
  | .error _ => r
  | .ok buffer => { r with buffer }

/-- The loop of `Flush`; `res i` is what `natsPublish` returns for message `i`. -/
def flushLoop (res : Nat → Option PublishError) :
    Router → Nat → List ValidatedMessage → Option PublishError → Router × Option PublishError
  | r, _, [], lastErr => (r, lastErr)
  | r, i, msg :: msgs, lastErr =>
    if r.hasPublisher then
      match res i with
      | none => flushLoop res { r with published := r.published ++ [msg] } (i + 1) msgs lastErr
      | some err => flushLoop res (r.rebuffer msg) (i + 1) msgs (some err)
    else flushLoop res (r.rebuffer msg) (i + 1) msgs lastErr

def flush (r : Router) (res : Nat → Option PublishError) : Router × Option PublishError :=
  let (msgs, buffer) := r.buffer.drain
  if msgs.length = 0 then (r, none) else flushLoop res { r with buffer } 0 msgs none

end Router

/-- A call, with what `natsPublish` returns in it. -/
inductive Event
  /-- the envelope and the routing path of the message, if it is not nil -/
  | route (msg : Option (Bytes × String)) (res : Option PublishError)
  | flush (res : Nat → Option PublishError)

namespace Router

/-- The message that a call of `Route` brings. -/
def message (r : Router) (msg : Bytes × String) : ValidatedMessage := ⟨r.calls, msg.1, msg.2⟩

def step (r : Router) : Event → Option Router
  | .route msg res => some { (r.route (msg.map r.message) res).1 with calls := r.calls + 1 }
  | .flush res => some (r.flush res).1

/-! ## What a flush does -/

/-- Message `i` of a flush is not published. -/
def fails (r : Router) (res : Nat → Option PublishError) (i : Nat) : Bool := !r.hasPublisher || (res i).isSome

/-- The messages that a flush publishes; `i` is the number of the first one. -/
def sent (r : Router) (res : Nat → Option PublishError) (i : Nat) (msgs : List ValidatedMessage) :
    List ValidatedMessage :=
  ((msgs.zipIdx i).filter fun m => !r.fails res m.2).map Prod.fst

/-- The messages that a flush cannot publish. -/
def unsent (r : Router) (res : Nat → Option PublishError) (i : Nat) (msgs : List ValidatedMessage) :
    List ValidatedMessage :=
  ((msgs.zipIdx i).filter fun m => r.fails res m.2).map Prod.fst

section flush
variable (r : Router) (res : Nat → Option PublishError) {i : Nat} {msg : ValidatedMessage}
  {msgs : List ValidatedMessage}

theorem sent_cons : r.sent res i (msg :: msgs) =
    if r.fails res i then r.sent res (i + 1) msgs else msg :: r.sent res (i + 1) msgs := by
  unfold sent
  cases h : r.fails res i <;> simp [List.zipIdx_cons, h]

theorem unsent_cons : r.unsent res i (msg :: msgs) =
    if r.fails res i then msg :: r.unsent res (i + 1) msgs else r.unsent res (i + 1) msgs := by
  unfold unsent
  cases h : r.fails res i <;> simp [List.zipIdx_cons, h]

theorem sent_append_unsent_perm : (r.sent res i msgs ++ r.unsent res i msgs).Perm msgs := by
  induction msgs generalizing i with
  | nil => exact List.Perm.nil
  | cons msg msgs ih =>
    rw [sent_cons, unsent_cons]
    split_ifs
    · exact List.perm_middle.trans (ih.cons msg)
    · exact ih.cons msg

theorem sent_sublist : (r.sent res i msgs).Sublist msgs := by
  have h := (List.filter_sublist (p := fun m : ValidatedMessage × Nat => !r.fails res m.2)
    (l := msgs.zipIdx i)).map Prod.fst
  rwa [List.zipIdx_map_fst] at h

theorem unsent_sublist : (r.unsent res i msgs).Sublist msgs := by
  have h := (List.filter_sublist (p := fun m : ValidatedMessage × Nat => r.fails res m.2)
    (l := msgs.zipIdx i)).map Prod.fst
  rwa [List.zipIdx_map_fst] at h

end flush

theorem rebuffer_of_room {r : Router} (msg : ValidatedMessage) (h : r.buffer.messages.length < r.buffer.maxSize) :
    r.rebuffer msg = { r with buffer := { r.buffer with messages := r.buffer.messages ++ [msg] } } := by
  simp only [rebuffer, Buffer.add, if_neg (Nat.not_le.mpr h)]

/-- The loop with room for every message that it has still to look at: none is evicted. -/
theorem flushLoop_eq (res : Nat → Option PublishError) (msgs : List ValidatedMessage) (r : Router) (i : Nat)
    (lastErr : Option PublishError) (h : r.buffer.messages.length + msgs.length ≤ r.buffer.maxSize) :
    (flushLoop res r i msgs lastErr).1 = { r with
      buffer := { r.buffer with messages := r.buffer.messages ++ r.unsent res i msgs }
      published := r.published ++ r.sent res i msgs } := by
  induction msgs generalizing r i lastErr with
  | nil => simp [flushLoop, sent, unsent]
  | cons msg msgs ih =>
    rw [List.length_cons] at h
    have hroom : r.buffer.messages.length < r.buffer.maxSize := by omega
    have hrest : r.buffer.messages.length + msgs.length ≤ r.buffer.maxSize := by omega
    rw [flushLoop, sent_cons, unsent_cons]
    by_cases hpublisher : r.hasPublisher = true
    swap
    · have hfails : r.fails res i = true := by simp [fails, hpublisher]
      rw [if_neg hpublisher, if_pos hfails, if_pos hfails, rebuffer_of_room msg hroom, ih _ _ _ (by simp; omega)]
      simp only [List.append_assoc, List.singleton_append]
      rfl
    rw [if_pos hpublisher]
    cases hres : res i with
    | none =>
      have hfails : ¬ r.fails res i = true := by simp [fails, hpublisher, hres]
      simp only
      rw [if_neg hfails, if_neg hfails, ih { r with published := r.published ++ [msg] } _ _ hrest]
      simp only [List.append_assoc, List.singleton_append]
      rfl
    | some err =>
      have hfails : r.fails res i = true := by simp [fails, hres]
      simp only
      rw [if_pos hfails, if_pos hfails, rebuffer_of_room msg hroom, ih _ _ _ (by simp; omega)]
      simp only [List.append_assoc, List.singleton_append]
      rfl

theorem flush_eq {r : Router} (h : r.buffer.messages.length ≤ r.buffer.maxSize) (res : Nat → Option PublishError) :
    (r.flush res).1 = { r with
      buffer := { r.buffer with messages := r.unsent res 0 r.buffer.messages }
      published := r.published ++ r.sent res 0 r.buffer.messages } := by
  unfold flush Buffer.drain
  by_cases hempty : r.buffer.messages.length = 0
  · have hnil := List.length_eq_zero_iff.mp hempty
    simp only [List.length_nil, if_true, hnil, sent, unsent, List.zipIdx_nil, List.filter_nil,
      List.map_nil, List.append_nil]
    rw [← hnil]
  · simp only [if_neg hempty]
    rw [flushLoop_eq res _ _ _ _ (by simpa using h)]
    rfl

/-! ## What every run keeps -/

/-- Every accepted message is published, kept or evicted, and calls have numbers in order. -/
structure Inv (r : Router) : Prop where
  maxSize : r.buffer.maxSize = 1000
  bounded : r.buffer.messages.length ≤ 1000
  account : r.accepted.Perm (r.published ++ r.buffer.messages ++ r.buffer.evicted)
  sorted : r.accepted.Pairwise (·.call < ·.call)
  past : ∀ m ∈ r.accepted, m.call < r.calls
  inOrder : r.buffer.messages.Pairwise (·.call < ·.call)

theorem inv_newRouter (hasPublisher : Bool) : (newRouter hasPublisher).Inv where
  maxSize := rfl
  bounded := Nat.zero_le _
  account := List.Perm.nil
  sorted := List.Pairwise.nil
  past := fun _ h => (nomatch h)
  inOrder := List.Pairwise.nil

variable {r r' : Router}

theorem Inv.mem_accepted (h : r.Inv) {m : ValidatedMessage} :
    m ∈ r.accepted ↔ m ∈ r.published ∨ m ∈ r.buffer.messages ∨ m ∈ r.buffer.evicted := by
  rw [h.account.mem_iff, List.mem_append, List.mem_append, or_assoc]

/-- The messages that `Buffer.Add` drops to make room. -/
def overflow (b : Buffer) : List ValidatedMessage := if b.messages.length ≥ b.maxSize then b.messages.take 1 else []

/-- The messages that stay. -/
def room (b : Buffer) : List ValidatedMessage := if b.messages.length ≥ b.maxSize then b.messages.drop 1 else b.messages

theorem overflow_append_room (b : Buffer) : overflow b ++ room b = b.messages := by
  unfold overflow room
  split_ifs
  · exact List.take_append_drop 1 _
  · rfl

theorem room_sublist (b : Buffer) : (room b).Sublist b.messages := by
  rw [← overflow_append_room b]
  exact List.sublist_append_right _ _

theorem add_eq (b : Buffer) (msg : ValidatedMessage) : b.add (some msg) =
    .ok { b with messages := room b ++ [msg], evicted := b.evicted ++ overflow b } := by
  unfold Buffer.add room overflow
  split_ifs
  · rfl
  · rw [List.append_nil]

/-- `Route` publishes, buffers, or leaves everything as it was. -/
theorem route_cases (r : Router) (msg : Option (Bytes × String)) (res : Option PublishError) :
    (∃ m, msg = some m ∧ r.hasPublisher = true ∧ res = none ∧ (r.route (msg.map r.message) res).1 =
      { r with accepted := r.accepted ++ [r.message m], published := r.published ++ [r.message m] }) ∨
    (∃ m, msg = some m ∧ (r.hasPublisher = true → res = some .other) ∧ (r.route (msg.map r.message) res).1 =
      { r with
        accepted := r.accepted ++ [r.message m]
        buffer := { r.buffer with
          messages := room r.buffer ++ [r.message m]
          evicted := r.buffer.evicted ++ overflow r.buffer } }) ∨
    ((msg = none ∨ r.hasPublisher = true ∧ res = some .context) ∧ (r.route (msg.map r.message) res).1 = r) := by
  cases msg with
  | none => exact Or.inr (Or.inr ⟨Or.inl rfl, rfl⟩)
  | some m =>
    have hkeep : (r.keep (r.message m)).1 = { r with
        accepted := r.accepted ++ [r.message m]
        buffer := { r.buffer with
          messages := room r.buffer ++ [r.message m]
          evicted := r.buffer.evicted ++ overflow r.buffer } } := by
      simp only [keep, add_eq]
    rw [Option.map_some]
    by_cases hpublisher : r.hasPublisher = true
    · simp only [route, if_pos hpublisher]
      cases res with
      | none => exact Or.inl ⟨m, rfl, hpublisher, rfl, rfl⟩
      | some err =>
        cases err with
        | context => exact Or.inr (Or.inr ⟨Or.inr ⟨hpublisher, rfl⟩, rfl⟩)
        | other => exact Or.inr (Or.inl ⟨m, rfl, fun _ => rfl, hkeep⟩)
    · simp only [route, if_neg hpublisher]
      exact Or.inr (Or.inl ⟨m, rfl, fun hp => absurd hp hpublisher, hkeep⟩)

/-- The message of the next call comes behind all accepted ones. -/
theorem Inv.sorted_concat (h : r.Inv) (m : Bytes × String) :
    (r.accepted ++ [r.message m]).Pairwise (·.call < ·.call) ∧
      ∀ m' ∈ r.accepted ++ [r.message m], m'.call < r.calls + 1 := by
  constructor
  · refine List.pairwise_append.mpr ⟨h.sorted, List.pairwise_singleton _ _, fun m' hm' m'' hm'' => ?_⟩
    rw [List.mem_singleton.mp hm'']
    exact h.past m' hm'
  · intro m' hm'
    rcases List.mem_append.mp hm' with hold | hnew
    · exact (h.past m' hold).trans (Nat.lt_succ_self _)
    · rw [List.mem_singleton.mp hnew]
      exact Nat.lt_succ_self _

theorem Inv.step {e : Event} (h : r.Inv) (hstep : r.step e = some r') : r'.Inv := by
  cases e with
  | flush res =>
    obtain rfl := Option.some.inj hstep
    rw [flush_eq (h.bounded.trans h.maxSize.ge)]
    have hperm := @sent_append_unsent_perm r res 0 r.buffer.messages
    refine ⟨h.maxSize, (r.unsent_sublist res).length_le.trans h.bounded, ?_, h.sorted, h.past,
      h.inOrder.sublist (r.unsent_sublist res)⟩
    refine h.account.trans ?_
    simp only [List.append_assoc]
    rw [← List.append_assoc (r.sent res 0 r.buffer.messages)]
    exact (hperm.symm.append_right _).append_left _
  | route msg res =>
    obtain rfl := Option.some.inj hstep
    rcases route_cases r msg res with ⟨m, -, -, -, heq⟩ | ⟨m, -, -, heq⟩ | ⟨-, heq⟩
    · rw [heq]
      obtain ⟨hsorted, hpast⟩ := h.sorted_concat m
      refine ⟨h.maxSize, h.bounded, ?_, hsorted, hpast, h.inOrder⟩
      simp only [List.append_assoc]
      refine (h.account.append_right [r.message m]).trans ?_
      simp only [List.append_assoc]
      refine List.Perm.append_left _ ?_
      rw [← List.append_assoc]
      exact List.perm_append_comm
    · rw [heq]
      obtain ⟨hsorted, hpast⟩ := h.sorted_concat m
      refine ⟨h.maxSize, ?_, ?_, hsorted, hpast, ?_⟩
      · have hmax := h.maxSize
        have hbounded := h.bounded
        simp only [room, List.length_append, List.length_singleton]
        split_ifs
        · rw [List.length_drop]
          omega
        · omega
      · refine (h.account.append_right [r.message m]).trans ?_
        rw [← overflow_append_room r.buffer, List.perm_iff_count]
        intro x
        simp only [List.count_append]
        omega
      · refine List.pairwise_append.mpr ⟨h.inOrder.sublist (room_sublist _), List.pairwise_singleton _ _, ?_⟩
        intro m' hm' m'' hm''
        rw [List.mem_singleton.mp hm'']
        exact h.past m' (h.mem_accepted.mpr (Or.inr (Or.inl ((room_sublist _).subset hm'))))
    · rw [heq]
      exact ⟨h.maxSize, h.bounded, h.account, h.sorted, fun m hm => (h.past m hm).trans (Nat.lt_succ_self _),
        h.inOrder⟩

end Router

/-! ## Conservation -/

section conservation
variable (hasPublisher : Bool) {events : List Event} {r : Router}

/-- **A flush conserves its messages**: those that it publishes and those that it keeps, in their order, are the
messages of the buffer, and none is evicted. -/
theorem flush_conserves (h : Run.exec Router.step (newRouter hasPublisher) events = some r)
    (res : Nat → Option PublishError) :
    (r.flush res).1.published = r.published ++ r.sent res 0 r.buffer.messages ∧
      (r.sent res 0 r.buffer.messages ++ (r.flush res).1.buffer.messages).Perm r.buffer.messages ∧
      (r.flush res).1.buffer.messages = r.unsent res 0 r.buffer.messages ∧
      (r.flush res).1.buffer.evicted = r.buffer.evicted := by
  have hinv := Run.exec_invariant Router.Inv (fun _ _ _ hinv hstep => hinv.step hstep)
    (Router.inv_newRouter hasPublisher) h
  rw [Router.flush_eq (hinv.bounded.trans hinv.maxSize.ge)]
  exact ⟨rfl, r.sent_append_unsent_perm res, rfl, rfl⟩

end conservation

/-- Two buffered messages, of which the second one can be published. -/
theorem flush_conserves_second : ∃ r, Run.exec Router.step (newRouter true)
      [.route (some ([1], "a")) (some .other), .route (some ([2], "a")) (some .other)] = some r ∧
    (r.flush fun i => if i = 0 then some .other else none).1.published =
      r.published ++ r.sent (fun i => if i = 0 then some .other else none) 0 r.buffer.messages ∧
    (r.sent (fun i => if i = 0 then some .other else none) 0 r.buffer.messages ++
      (r.flush fun i => if i = 0 then some .other else none).1.buffer.messages).Perm r.buffer.messages ∧
    (r.flush fun i => if i = 0 then some .other else none).1.buffer.messages =
      r.unsent (fun i => if i = 0 then some .other else none) 0 r.buffer.messages ∧
    (r.flush fun i => if i = 0 then some .other else none).1.buffer.evicted = r.buffer.evicted := by
  obtain ⟨r, hr⟩ := Option.isSome_iff_exists.mp (by decide +kernel : (Run.exec Router.step (newRouter true)
    [.route (some ([1], "a")) (some .other), .route (some ([2], "a")) (some .other)]).isSome)
  exact ⟨r, hr, flush_conserves true hr _⟩

/-! ## Loss -/

namespace Router
variable {r r' : Router}

/-- What `Route` has accepted is published or still there. -/
def Kept (r : Router) : Prop := ∀ m ∈ r.accepted, m ∈ r.published ∨ m ∈ r.buffer.messages

/-- A message that `Route` buffers finds room. -/
def HasRoom (r : Router) : Event → Prop
  | .route (some _) res => (r.hasPublisher = true → res = some .other) → r.buffer.messages.length < r.buffer.maxSize
  | _ => True

theorem Inv.kept_iff_evicted (h : r.Inv) : r.Kept ↔ r.buffer.evicted = [] := by
  have hnodup : r.accepted.Nodup := h.sorted.imp fun hlt he => absurd hlt (by rw [he]; exact lt_irrefl _)
  rw [h.account.nodup_iff, List.nodup_append'] at hnodup
  constructor
  · intro hkept
    refine List.eq_nil_iff_forall_not_mem.mpr fun m hm => ?_
    have hmem : m ∈ r.published ++ r.buffer.messages :=
      List.mem_append.mpr (hkept m (h.mem_accepted.mpr (Or.inr (Or.inr hm))))
    exact hnodup.2.2 hmem hm
  · intro hnil m hm
    have hmem := h.mem_accepted.mp hm
    rw [hnil] at hmem
    exact hmem.imp_right fun h => h.resolve_right List.not_mem_nil

theorem overflow_eq_nil_iff {b : Buffer} (hpos : 0 < b.maxSize) :
    overflow b = [] ↔ b.messages.length < b.maxSize := by
  unfold overflow
  split_ifs with hfull
  · refine iff_of_false (fun hnil => ?_) (Nat.not_lt.mpr hfull)
    have hlen := congrArg List.length hnil
    rw [List.length_take, List.length_nil] at hlen
    omega
  · exact iff_of_true rfl (Nat.not_le.mp hfull)

theorem Inv.evicted_step_iff {e : Event} (h : r.Inv) (hnil : r.buffer.evicted = []) (hstep : r.step e = some r') :
    r'.buffer.evicted = [] ↔ r.HasRoom e := by
  cases e with
  | flush res =>
    obtain rfl := Option.some.inj hstep
    rw [flush_eq (h.bounded.trans h.maxSize.ge)]
    exact iff_of_true hnil trivial
  | route msg res =>
    obtain rfl := Option.some.inj hstep
    rcases route_cases r msg res with ⟨m, rfl, hpublisher, rfl, heq⟩ | ⟨m, rfl, hres, heq⟩ | ⟨hskip, heq⟩
    · rw [heq]
      exact iff_of_true hnil fun hother => (nomatch hother hpublisher)
    · rw [heq]
      show r.buffer.evicted ++ overflow r.buffer = [] ↔ _
      rw [hnil, List.nil_append, overflow_eq_nil_iff (by rw [h.maxSize]; decide)]
      exact ⟨fun hroom _ => hroom, fun hroom => hroom hres⟩
    · rw [heq]
      refine iff_of_true hnil ?_
      cases msg with
      | none => trivial
      | some m =>
        obtain hnone | ⟨hpublisher, rfl⟩ := hskip
        · cases hnone
        · exact fun hother => (nomatch hother hpublisher)

end Router

/-- In which runs no accepted message is lost: the buffer has room for each message that goes there. -/
theorem accepted_kept_iff (hasPublisher : Bool) (events : List Event) :
    Run.Always Router.step Router.Kept (newRouter hasPublisher) events ↔
      Run.Each Router.step Router.HasRoom (newRouter hasPublisher) events := by
  apply Run.always_iff_each Router.Inv
  · exact fun _ _ _ hinv hstep => hinv.step hstep
  · intro r e r' hinv hkept hstep
    rw [(hinv.step hstep).kept_iff_evicted]
    exact hinv.evicted_step_iff (hinv.kept_iff_evicted.mp hkept) hstep
  · exact Router.inv_newRouter hasPublisher
  · exact fun m hm => (nomatch hm)

/-- **What becomes of an accepted message**: it is published, it is kept, or it was the oldest message of a full buffer
that took another one; no message is lost so just where the buffer has room for each message that goes there. -/
theorem accepted_accounted (hasPublisher : Bool) (events : List Event) :
    Run.Always Router.step
      (fun r => ∀ m ∈ r.accepted, m ∈ r.published ∨ m ∈ r.buffer.messages ∨ m ∈ r.buffer.evicted)
      (newRouter hasPublisher) events ∧
    (Run.Always Router.step Router.Kept (newRouter hasPublisher) events ↔
      Run.Each Router.step Router.HasRoom (newRouter hasPublisher) events) := by
  refine ⟨(Run.always_iff _ _).mpr fun front back r _ hexec m hm => ?_, accepted_kept_iff hasPublisher events⟩
  have hinv := Run.exec_invariant Router.Inv (fun _ _ _ hinv hstep => hinv.step hstep)
    (Router.inv_newRouter hasPublisher) hexec
  exact hinv.mem_accepted.mp hm

/-- `n` messages while nothing can be published. -/
def outage (n : Nat) : List Event := List.replicate n (.route (some ([], "a")) (some .other))

/-- The first messages of an outage. -/
def outageMessages (n : Nat) : List ValidatedMessage := (List.range n).map fun call => ⟨call, [], "a"⟩

theorem exec_outage {n : Nat} (h : n ≤ 1000) : Run.exec Router.step (newRouter true) (outage n) = some {
    buffer := { messages := outageMessages n, maxSize := 1000 }
    hasPublisher := true
    calls := n
    accepted := outageMessages n } := by
  induction n with
  | zero => rfl
  | succ n ih =>
    have hroom : ¬ (outageMessages n).length ≥ 1000 := by
      rw [outageMessages, List.length_map, List.length_range]
      omega
    have hsucc : outageMessages (n + 1) = outageMessages n ++ [⟨n, [], "a"⟩] := by
      rw [outageMessages, List.range_succ, List.map_append]
      rfl
    rw [outage, List.replicate_succ', Run.exec_append]
    show (Run.exec Router.step (newRouter true) (outage n)).bind _ = _
    rw [ih (by omega), hsucc]
    simp only [Option.bind_some, Run.exec, Router.step, Option.map_some, Router.route, if_true, Router.keep, Buffer.add,
      if_neg hroom, Router.message]

/-- After 1001 messages of an outage the first one is gone. -/
theorem first_message_lost : ∃ r, Run.exec Router.step (newRouter true) (outage 1001) = some r ∧ ¬ r.Kept := by
  obtain ⟨full, hexec, hlength, hmax, hnil⟩ : ∃ full, Run.exec Router.step (newRouter true) (outage 1000) = some full ∧
      full.buffer.messages.length = 1000 ∧ full.buffer.maxSize = 1000 ∧ full.buffer.evicted = [] := by
    refine ⟨_, exec_outage le_rfl, ?_, rfl, rfl⟩
    rw [outageMessages, List.length_map, List.length_range]
  have hinv := Run.exec_invariant Router.Inv (fun _ _ _ hinv hstep => hinv.step hstep) (Router.inv_newRouter true) hexec
  obtain ⟨r, hr⟩ : ∃ r, full.step (.route (some ([], "a")) (some .other)) = some r := ⟨_, rfl⟩
  refine ⟨r, ?_, fun hkept => ?_⟩
  · rw [outage, List.replicate_succ', Run.exec_append]
    show (Run.exec Router.step (newRouter true) (outage 1000)).bind _ = _
    rw [hexec, Option.bind_some, Run.exec, hr]
    rfl
  · have hroom := (hinv.evicted_step_iff hnil hr).mp ((hinv.step hr).kept_iff_evicted.mp hkept) fun _ => rfl
    omega

/-! ## Order -/

namespace Router

/-- On every topic the messages are published in the order of their calls. -/
def InOrder (r : Router) : Prop := r.published.Pairwise fun m m' => m.routingPath = m'.routingPath → m.call < m'.call

/-- A later message of the topic has been published before a message that is still in the buffer. -/
def Overtaken (r : Router) : Prop :=
  ∃ m ∈ r.buffer.messages, ∃ m' ∈ r.published, m.routingPath = m'.routingPath ∧ m.call < m'.call

/-- `Route` publishes on a topic that has a message in the buffer, or `Flush` publishes a message of a topic behind one
that it could not publish. -/
def Overtakes (r : Router) : Event → Prop
  | .route (some msg) res => r.hasPublisher = true ∧ res = none ∧ ∃ m ∈ r.buffer.messages, m.routingPath = msg.2
  | .route none _ => False
  | .flush res => ∃ i j m m', i < j ∧ r.buffer.messages[i]? = some m ∧ r.buffer.messages[j]? = some m' ∧
      m.routingPath = m'.routingPath ∧ r.fails res i = true ∧ r.fails res j = false

variable {r r' : Router}

theorem mem_unsent_iff {res : Nat → Option PublishError} {msgs : List ValidatedMessage} {m : ValidatedMessage} :
    m ∈ r.unsent res 0 msgs ↔ ∃ i, msgs[i]? = some m ∧ r.fails res i = true := by
  simp only [unsent, List.mem_map, List.mem_filter, Prod.exists, List.mem_zipIdx_iff_getElem?]
  constructor
  · rintro ⟨_, i, ⟨hi, hfails⟩, rfl⟩
    exact ⟨i, hi, hfails⟩
  · rintro ⟨i, hi, hfails⟩
    exact ⟨m, i, ⟨hi, hfails⟩, rfl⟩

theorem mem_sent_iff {res : Nat → Option PublishError} {msgs : List ValidatedMessage} {m : ValidatedMessage} :
    m ∈ r.sent res 0 msgs ↔ ∃ i, msgs[i]? = some m ∧ r.fails res i = false := by
  simp only [sent, List.mem_map, List.mem_filter, Prod.exists, List.mem_zipIdx_iff_getElem?]
  constructor
  · rintro ⟨_, i, ⟨hi, hfails⟩, rfl⟩
    exact ⟨i, hi, by simpa using hfails⟩
  · rintro ⟨i, hi, hfails⟩
    exact ⟨m, i, ⟨hi, by simpa using hfails⟩, rfl⟩

theorem Inv.call_lt_of_published (h : r.Inv) {m : ValidatedMessage} (hm : m ∈ r.published) : m.call < r.calls :=
  h.past m (h.mem_accepted.mpr (Or.inl hm))

theorem Inv.call_lt_of_buffered (h : r.Inv) {m : ValidatedMessage} (hm : m ∈ r.buffer.messages) : m.call < r.calls :=
  h.past m (h.mem_accepted.mpr (Or.inr (Or.inl hm)))

theorem Inv.call_ne (h : r.Inv) {m m' : ValidatedMessage} (hm : m ∈ r.published) (hm' : m' ∈ r.buffer.messages) :
    m.call ≠ m'.call := by
  have hsorted : r.accepted.Pairwise (·.call ≠ ·.call) := h.sorted.imp Nat.ne_of_lt
  have hparts := (h.account.pairwise_iff Ne.symm).mp hsorted
  exact (List.pairwise_append.mp (List.pairwise_append.mp hparts).1).2.2 m hm m' hm'

/-- Two messages at places of the buffer. -/
theorem Inv.call_lt_of_lt (h : r.Inv) {i j : Nat} {m m' : ValidatedMessage} (hij : i < j)
    (hm : r.buffer.messages[i]? = some m) (hm' : r.buffer.messages[j]? = some m') : m.call < m'.call := by
  obtain ⟨hi, rfl⟩ := List.getElem?_eq_some_iff.mp hm
  obtain ⟨hj, rfl⟩ := List.getElem?_eq_some_iff.mp hm'
  exact List.pairwise_iff_getElem.mp h.inOrder i j hi hj hij

/-- Where a message goes to the buffer, nothing has been published behind it. -/
theorem not_overtaken_route (h : r.Inv) (hnot : ¬ r.Overtaken) (msg : Option (Bytes × String))
    (res : Option PublishError) (hovertakes : ¬ r.Overtakes (.route msg res)) (horder : r.InOrder) :
    (r.route (msg.map r.message) res).1.InOrder ∧ ¬ (r.route (msg.map r.message) res).1.Overtaken := by
  rcases route_cases r msg res with ⟨m, rfl, hpublisher, rfl, heq⟩ | ⟨m, -, -, heq⟩ | ⟨-, heq⟩
  · rw [heq]
    constructor
    · refine List.pairwise_append.mpr ⟨horder, List.pairwise_singleton _ _, fun m' hm' m'' hm'' _ => ?_⟩
      rw [List.mem_singleton.mp hm'']
      exact h.call_lt_of_published hm'
    · rintro ⟨x, hx, y, hy, htopic, hlt⟩
      rcases List.mem_append.mp hy with hold | hnew
      · exact hnot ⟨x, hx, y, hold, htopic, hlt⟩
      · rw [List.mem_singleton.mp hnew] at htopic
        exact hovertakes ⟨hpublisher, rfl, x, hx, htopic⟩
  · rw [heq]
    refine ⟨horder, ?_⟩
    rintro ⟨x, hx, y, hy, htopic, hlt⟩
    rcases List.mem_append.mp hx with hold | hnew
    · exact hnot ⟨x, (room_sublist _).subset hold, y, hy, htopic, hlt⟩
    · rw [List.mem_singleton.mp hnew] at hlt
      exact absurd (h.call_lt_of_published hy) (Nat.not_lt.mpr hlt.le)
  · rw [heq]
    exact ⟨horder, hnot⟩

theorem not_overtaken_flush (h : r.Inv) (hnot : ¬ r.Overtaken) (res : Nat → Option PublishError)
    (hovertakes : ¬ r.Overtakes (.flush res)) (horder : r.InOrder) :
    (r.flush res).1.InOrder ∧ ¬ (r.flush res).1.Overtaken := by
  rw [flush_eq (h.bounded.trans h.maxSize.ge)]
  constructor
  · refine List.pairwise_append.mpr ⟨horder, ?_, fun y hy x hx htopic => ?_⟩
    · refine (h.inOrder.sublist (r.sent_sublist res)).imp ?_
      exact fun hlt _ => hlt
    · have hbuffered := (r.sent_sublist res).subset hx
      have hle : y.call ≤ x.call := Nat.not_lt.mp fun hlt => hnot ⟨x, hbuffered, y, hy, htopic.symm, hlt⟩
      exact lt_of_le_of_ne hle (h.call_ne hy hbuffered)
  · rintro ⟨x, hx, y, hy, htopic, hlt⟩
    obtain ⟨i, hi, hfails⟩ := mem_unsent_iff.mp hx
    rcases List.mem_append.mp hy with hold | hnew
    · exact hnot ⟨x, List.mem_of_getElem? hi, y, hold, htopic, hlt⟩
    · obtain ⟨j, hj, hsent⟩ := mem_sent_iff.mp hnew
      rcases lt_trichotomy i j with hij | rfl | hji
      · exact hovertakes ⟨i, j, x, y, hij, hi, hj, htopic, hfails, hsent⟩
      · rw [hfails] at hsent
        cases hsent
      · exact absurd (h.call_lt_of_lt hji hj hi) (Nat.not_lt.mpr hlt.le)

theorem not_overtaken_step {e : Event} (h : r.Inv) (hnot : ¬ r.Overtaken) (horder : r.InOrder)
    (hovertakes : ¬ r.Overtakes e) (hstep : r.step e = some r') : r'.InOrder ∧ ¬ r'.Overtaken := by
  cases e with
  | route msg res =>
    obtain rfl := Option.some.inj hstep
    exact not_overtaken_route h hnot msg res hovertakes horder
  | flush res =>
    obtain rfl := Option.some.inj hstep
    exact not_overtaken_flush h hnot res hovertakes horder

theorem overtaken_step {e : Event} (h : r.Inv) (hovertakes : r.Overtakes e) (hstep : r.step e = some r') :
    r'.Overtaken := by
  cases e with
  | route msg res =>
    obtain rfl := Option.some.inj hstep
    cases msg with
    | none => exact absurd hovertakes id
    | some msg =>
      obtain ⟨hpublisher, rfl, m, hm, htopic⟩ := hovertakes
      rw [Option.map_some]
      simp only [route, if_pos hpublisher]
      exact ⟨m, hm, r.message msg, List.mem_append_right _ (List.mem_singleton_self _), htopic,
        h.call_lt_of_buffered hm⟩
  | flush res =>
    obtain rfl := Option.some.inj hstep
    obtain ⟨i, j, m, m', hij, hm, hm', htopic, hfails, hsent⟩ := hovertakes
    rw [flush_eq (h.bounded.trans h.maxSize.ge)]
    exact ⟨m, mem_unsent_iff.mpr ⟨i, hm, hfails⟩, m',
      List.mem_append_right _ (mem_sent_iff.mpr ⟨j, hm', hsent⟩), htopic, h.call_lt_of_lt hij hm hm'⟩

/-- Only a router with a publisher publishes. -/
theorem hasPublisher_of_overtakes {e : Event} (h : r.Overtakes e) : r.hasPublisher = true := by
  cases e with
  | route msg res =>
    cases msg with
    | none => exact absurd h id
    | some msg => exact h.1
  | flush res =>
    obtain ⟨i, j, m, m', -, -, -, -, -, hsent⟩ := h
    have hpublisher := (Bool.or_eq_false_iff.mp hsent).1
    simpa using hpublisher

theorem hasPublisher_step {e : Event} (h : r.Inv) (hstep : r.step e = some r') : r'.hasPublisher = r.hasPublisher := by
  cases e with
  | route msg res =>
    obtain rfl := Option.some.inj hstep
    rcases route_cases r msg res with ⟨m, -, -, -, heq⟩ | ⟨m, -, -, heq⟩ | ⟨-, heq⟩ <;> rw [heq]
  | flush res =>
    obtain rfl := Option.some.inj hstep
    rw [flush_eq (h.bounded.trans h.maxSize.ge)]

/-- A flush that publishes everything publishes the overtaken message too. -/
theorem not_inOrder_flush (h : r.Inv) (hpublisher : r.hasPublisher = true) (hover : r.Overtaken) :
    ¬ (r.flush fun _ => none).1.InOrder := by
  obtain ⟨m, hm, m', hm', htopic, hlt⟩ := hover
  rw [flush_eq (h.bounded.trans h.maxSize.ge)]
  intro horder
  obtain ⟨i, hi⟩ := List.mem_iff_getElem?.mp hm
  have hsent : m ∈ r.sent (fun _ => none) 0 r.buffer.messages :=
    mem_sent_iff.mpr ⟨i, hi, by simp [fails, hpublisher]⟩
  exact absurd ((List.pairwise_append.mp horder).2.2 m' hm' m hsent htopic.symm) (Nat.not_lt.mpr hlt.le)

end Router

section order
variable (hasPublisher : Bool) (events : List Event)

/-- **In which runs a topic is published in order**: as long as nothing is published in front of a message of its topic
that waits in the buffer. Otherwise a flush at some point of the run breaks the order. -/
theorem in_order_of_no_overtaking :
    (Run.Each Router.step (fun r e => ¬ r.Overtakes e) (newRouter hasPublisher) events →
      Run.Always Router.step Router.InOrder (newRouter hasPublisher) events) ∧
    (¬ Run.Each Router.step (fun r e => ¬ r.Overtakes e) (newRouter hasPublisher) events →
      ∃ front, front <+: events ∧
        ¬ Run.Always Router.step Router.InOrder (newRouter hasPublisher) (front ++ [.flush fun _ => none])) := by
  constructor
  · intro heach
    have hsafe := Run.always_of_each (fun r : Router => r.Inv ∧ r.InOrder ∧ ¬ r.Overtaken)
      (fun _ _ _ hinv hnot hstep => ⟨hinv.1.step hstep,
        Router.not_overtaken_step hinv.1 hinv.2.2 hinv.2.1 hnot hstep⟩)
      ⟨Router.inv_newRouter hasPublisher, List.Pairwise.nil, fun ⟨_, hm, _⟩ => (nomatch hm)⟩ heach
    exact Run.Always.mono (fun _ h => h.2.1) hsafe
  · intro hbad
    obtain ⟨front, e, back, r, r', hsplit, hexec, hstep, hovertakes⟩ := Run.exists_of_not_each hbad
    have hinv := Run.exec_invariant Router.Inv (fun _ _ _ hinv hstep => hinv.step hstep)
      (Router.inv_newRouter hasPublisher) hexec
    have hover := Router.overtaken_step hinv (not_not.mp hovertakes) hstep
    have hpublisher : r'.hasPublisher = true :=
      (Router.hasPublisher_step hinv hstep).trans (Router.hasPublisher_of_overtakes (not_not.mp hovertakes))
    refine ⟨front ++ [e], ⟨back, by rw [hsplit, List.append_assoc]; rfl⟩, fun halways => ?_⟩
    refine Router.not_inOrder_flush (hinv.step hstep) hpublisher hover ?_
    refine (Run.always_iff _ _).mp halways _ [] _ (List.append_nil _).symm ?_
    rw [Run.exec_append, Run.exec_append, hexec, Option.bind_some]
    show (((r.step e).bind some).bind fun r => (r.step (.flush fun _ => none)).bind some) = _
    rw [hstep]
    rfl

end order

/-- Two messages of a topic that are published at once. -/
theorem in_order_of_no_overtaking_two : Run.Always Router.step Router.InOrder (newRouter true)
    [.route (some ([1], "a")) none, .route (some ([2], "a")) none] := by
  refine (in_order_of_no_overtaking true _).1 ?_
  intro r hr
  obtain rfl := Option.some.inj hr
  refine ⟨fun ⟨_, _, m, hm, _⟩ => List.not_mem_nil hm, fun r hr => ?_⟩
  obtain rfl := Option.some.inj hr
  exact ⟨fun ⟨_, _, m, hm, _⟩ => List.not_mem_nil hm, trivial⟩

/-- The second message of a topic is published while the first one waits. -/
theorem waiting_message_overtaken : ∃ r, Run.exec Router.step (newRouter true)
      [.route (some ([1], "a")) (some .other), .route (some ([2], "a")) none, .flush fun _ => none] = some r ∧
    ¬ r.InOrder := by
  obtain ⟨r, hr⟩ := Option.isSome_iff_exists.mp (by decide +kernel : (Run.exec Router.step (newRouter true)
    [.route (some ([1], "a")) (some .other), .route (some ([2], "a")) none, .flush fun _ => none]).isSome)
  have hpublished : (Run.exec Router.step (newRouter true)
      [.route (some ([1], "a")) (some .other), .route (some ([2], "a")) none, .flush fun _ => none]).map
        Router.published = some [⟨1, [2], "a"⟩, ⟨0, [1], "a"⟩] := by decide +kernel
  rw [hr] at hpublished
  refine ⟨r, hr, fun horder => ?_⟩
  rw [Router.InOrder, Option.some.inj hpublished] at horder
  exact absurd ((List.pairwise_cons.mp horder).1 _ (List.mem_singleton_self _) rfl) (by decide)

end Atlas.Broker.Routing
