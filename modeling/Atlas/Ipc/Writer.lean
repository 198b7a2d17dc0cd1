import Atlas.Ipc.Frame
import Atlas.Lib.Run

/-!
# The IPC writer: `services/ingestion/internal/ipc/writer.go`

The writer is a machine whose events are the atomic steps of its goroutines: a call of `Write` or `WriteRaw` runs its
`select` statements one at a time, a `writeLoop` takes a frame, looks at `w.conn`, writes; `Connect` starts one more
loop, `Close` closes `done`.

* `Request.frame` : the checks of `Write` and `WriteRaw`, and the frame to enqueue;
* `Writer.select`, `take`, `aim`, `put`, `exit`, `connect`, `close` : the steps; `Writer.step` : the machine;
* `accepted`, `removed`, `settled` : the history of the frames, read by no step.
-/

namespace Atlas.Ipc
open Checked

/-- Frames the channel `w.buffer` holds. -/
def maxBufferSize : Nat := 1000

/-- 16 MB per spec -/
def Writer.maxFrameSize : Nat := 16 * 1024 * 1024

/-- A call of `Write`, or of `WriteRaw` with a frame that is already serialized. -/
inductive Request
  | write (payload : Bytes)
  | writeRaw (frame : Bytes)
  deriving DecidableEq, Repr

inductive WriteError
  /-- zero-length payload rejected per ipc-binary-v1 spec -/
  | zeroLengthPayload
  /-- payload size {size} exceeds max {max} per ipc-binary-v1 spec -/
  | payloadSize (size max : Nat)
  /-- IPC buffer overflow: frame dropped after backpressure eviction -/
  | overflow
  /-- zero-length raw frame rejected per ipc-binary-v1 spec -/
  | zeroLengthRawFrame
  /-- raw frame size {size} exceeds max {max} per ipc-binary-v1 spec -/
  | rawFrameSize (size max : Nat)
  /-- IPC buffer overflow: raw frame dropped after backpressure eviction -/
  | rawOverflow
  deriving DecidableEq, Repr

/-- The frame a request enqueues, or the error it returns before it touches the buffer. -/
def Request.frame : Request → Except Panic (Except WriteError Bytes)
  | .write payload =>
    if payload.length = 0 then .ok (.error .zeroLengthPayload)
    else if payload.length > Writer.maxFrameSize then
      .ok (.error (.payloadSize payload.length Writer.maxFrameSize))
    else do
      let frame ← serializeFrame payload
      return .ok frame
  | .writeRaw frame =>
    if frame.length = 0 then .ok (.error .zeroLengthRawFrame)
    else if frame.length > Writer.maxFrameSize + 4 then
      .ok (.error (.rawFrameSize frame.length (Writer.maxFrameSize + 4)))
    else .ok (.ok frame)

theorem Request.frame_write_iff {payload frame : Bytes} : (Request.write payload).frame = .ok (.ok frame) ↔
    payload ≠ [] ∧ payload.length ≤ Writer.maxFrameSize ∧ serializeFrame payload = .ok frame := by
  rw [Request.frame, ← List.length_pos_iff]
  by_cases hzero : payload.length = 0
  · rw [if_pos hzero]
    exact ⟨fun h => (nomatch h), fun h => absurd hzero (by omega)⟩
  by_cases hmax : payload.length > Writer.maxFrameSize
  · rw [if_neg hzero, if_pos hmax]
    exact ⟨fun h => (nomatch h), fun h => absurd hmax (by omega)⟩
  rw [if_neg hzero, if_neg hmax]
  cases hframe : serializeFrame payload with
  | error p => exact ⟨fun h => (nomatch h), fun h => (nomatch h.2.2)⟩
  | ok frame' =>
    constructor
    · intro h
      exact ⟨by omega, by omega, congrArg Except.ok (Except.ok.inj (Except.ok.inj h))⟩
    · rintro ⟨-, -, h⟩
      rw [Except.ok.inj h]
      rfl

/-- The error of a request whose frame found no room after the eviction. -/
def Request.overflow : Request → WriteError
  | .write _ => .overflow
  | .writeRaw _ => .rawOverflow

/-- Where a call stands: in front of one of its three `select` statements, or back at its caller. -/
inductive CallState
  | sending
  | evicting
  | resending
  | returned (err : Option WriteError)
  deriving DecidableEq, Repr

structure Call where
  request : Request
  frame : Bytes
  state : CallState
  deriving DecidableEq, Repr

/-- Where a `writeLoop` stands: at its `select`, behind it with a frame, at `w.conn.Write` on a connection, returned. -/
inductive Loop
  | idle
  | holding (frame : Bytes)
  | writing (frame : Bytes) (conn : Nat)
  | exited
  deriving DecidableEq, Repr

/-- One `conn.Write(frame)` and the number of bytes it wrote. -/
structure Put where
  frame : Bytes
  n : Nat
  deriving DecidableEq, Repr

/-- How a frame left the buffer. -/
inductive Removal
  | evicted
  | taken
  deriving DecidableEq, Repr

/-- What a `writeLoop` did with a frame it took. -/
inductive Settlement
  | noConnection
  | writeError
  | partialWrite
  | forwarded
  deriving DecidableEq, Repr

structure Metrics where
  framesForwarded : Nat := 0
  /-- `FramesDropped{reason="backpressure"}` -/
  backpressure : Nat := 0
  /-- `FramesDropped{reason="backpressure_overflow"}` -/
  backpressureOverflow : Nat := 0
  /-- `FramesDropped{reason="no_connection"}` -/
  noConnection : Nat := 0
  /-- `ErrorEvents{type="ipc_write"}` -/
  ipcWrite : Nat := 0
  /-- `ErrorEvents{type="ipc_partial_write"}` -/
  ipcPartialWrite : Nat := 0
  deriving DecidableEq, Repr

/-- The counter of a settlement goes up by one. -/
def Metrics.count (m : Metrics) : Settlement → Metrics
  | .noConnection => { m with noConnection := m.noConnection + 1 }
  | .writeError => { m with ipcWrite := m.ipcWrite + 1 }
  | .partialWrite => { m with ipcPartialWrite := m.ipcPartialWrite + 1 }
  | .forwarded => { m with framesForwarded := m.framesForwarded + 1 }

def Metrics.counted (m : Metrics) : Settlement → Nat
  | .noConnection => m.noConnection
  | .writeError => m.ipcWrite
  | .partialWrite => m.ipcPartialWrite
  | .forwarded => m.framesForwarded

theorem Metrics.counted_count (m : Metrics) (o o' : Settlement) :
    (m.count o).counted o' = m.counted o' + if o = o' then 1 else 0 := by
  cases o <;> cases o' <;> rfl

structure Writer where
  buffer : List Bytes := []
  /-- Every connection dialled, with what was written on it; `w.conn` is the last one. -/
  conns : List (List Put) := []
  closed : Bool := false
  calls : List Call := []
  loops : List Loop := []
  metrics : Metrics := {}
  /-- The frames of the calls that returned nil, in the order they were enqueued. -/
  accepted : List Bytes := []
  /-- The frames that left the buffer, in order. -/
  removed : List (Bytes × Removal) := []
  /-- The frames the loops are done with, in order. -/
  settled : List (Bytes × Settlement) := []
  deriving DecidableEq, Repr

inductive Event
  | call (request : Request)
  | select (k : Nat)
  | connect
  | take (i : Nat)
  | aim (i : Nat)
  | put (i n : Nat) (err : Bool)
  | exit (i : Nat)
  | close
  deriving DecidableEq, Repr

namespace Writer

def newWriter : Writer := {}

/-- A call starts: its checks, its frame. -/
def call (w : Writer) (request : Request) : Option Writer :=
  match request.frame with
  | .error _ => none
  | .ok (.error err) => some { w with calls := w.calls ++ [⟨request, [], .returned (some err)⟩] }
  | .ok (.ok frame) => some { w with calls := w.calls ++ [⟨request, frame, .sending⟩] }

/-- The call `k` goes on to `state`. -/
def move (w : Writer) (k : Nat) (c : Call) (state : CallState) : Writer :=
  { w with calls := w.calls.set k { c with state } }

/-- `w.buffer <- frame`, and the call returns nil. -/
def send (w : Writer) (k : Nat) (c : Call) : Writer :=
  { w.move k c (.returned none) with
    buffer := w.buffer ++ [c.frame]
    accepted := w.accepted ++ [c.frame] }

/-- `<-w.buffer`: the oldest frame makes room. -/
def evict (w : Writer) (k : Nat) (c : Call) (oldest : Bytes) (rest : List Bytes) : Writer :=
  { w.move k c .resending with
    buffer := rest
    removed := w.removed ++ [(oldest, .evicted)]
    metrics := { w.metrics with backpressure := w.metrics.backpressure + 1 } }

/-- The buffer is full again behind the eviction, and the call returns its overflow error. -/
def refuse (w : Writer) (k : Nat) (c : Call) : Writer :=
  { w.move k c (.returned (some c.request.overflow)) with
    metrics := { w.metrics with backpressureOverflow := w.metrics.backpressureOverflow + 1 } }

/-- The call `k` runs the `select` it stands in front of. -/
def select (w : Writer) (k : Nat) : Option Writer :=
  match w.calls[k]? with
  | none => none
  | some c =>
    match c.state with
    | .sending => if w.buffer.length < maxBufferSize then some (w.send k c) else some (w.move k c .evicting)
    | .evicting =>
      match w.buffer with
      | oldest :: rest => some (w.evict k c oldest rest)
      | [] => some (w.move k c .resending)
    | .resending => if w.buffer.length < maxBufferSize then some (w.send k c) else some (w.refuse k c)
    | .returned _ => none

/-- `Connect` after a successful dial. -/
def connect (w : Writer) : Option Writer :=
  if w.closed then none
  else some { w with conns := w.conns ++ [[]], loops := w.loops ++ [.idle] }

/-- Loop `i` runs its `select` and receives a frame. -/
def take (w : Writer) (i : Nat) : Option Writer :=
  match w.loops[i]?, w.buffer with
  | some .idle, frame :: rest =>
    some { w with
      buffer := rest
      removed := w.removed ++ [(frame, .taken)]
      loops := w.loops.set i (.holding frame) }
  | _, _ => none

/-- Loop `i` is done with a frame, counts it and goes back to its `select`. -/
def settle (w : Writer) (i : Nat) (frame : Bytes) (outcome : Settlement) : Writer :=
  { w with
    loops := w.loops.set i .idle
    settled := w.settled ++ [(frame, outcome)]
    metrics := w.metrics.count outcome }

/-- Loop `i` looks at `w.conn`. -/
def aim (w : Writer) (i : Nat) : Option Writer :=
  match w.loops[i]? with
  | some (.holding frame) =>
    match w.conns.length with
    | 0 => some (w.settle i frame .noConnection)
    | conn + 1 => some { w with loops := w.loops.set i (.writing frame conn) }
  | _ => none

/-- The bytes of one `conn.Write` arrive on a connection. -/
def record (w : Writer) (conn : Nat) (p : Put) : Writer :=
  { w with conns := w.conns.modify conn (· ++ [p]) }

/-- What `writeLoop` makes of the results of `w.conn.Write(frame)`. -/
def outcome (frame : Bytes) (n : Nat) (err : Bool) : Settlement :=
  if err then .writeError else if n ≠ frame.length then .partialWrite else .forwarded

/-- `w.conn.Write(frame)` returns in loop `i`, with `n` bytes written and `err != nil` or not. -/
def put (w : Writer) (i n : Nat) (err : Bool) : Option Writer :=
  match w.loops[i]? with
  | some (.writing frame conn) =>
    if n ≤ frame.length then
      some ((w.record conn ⟨frame, n⟩).settle i frame (outcome frame n err))
    else none
  | _ => none

/-- Loop `i` runs its `select` and receives from the closed `done`. -/
def exit (w : Writer) (i : Nat) : Option Writer :=
  match w.loops[i]? with
  | some .idle => if w.closed then some { w with loops := w.loops.set i .exited } else none
  | _ => none

/-- `Close`: closes `done` and the connection, and does nothing the second time. -/
def close (w : Writer) : Option Writer := some { w with closed := true }

def step (w : Writer) : Event → Option Writer
  | .call request => w.call request
  | .select k => w.select k
  | .connect => w.connect
  | .take i => w.take i
  | .aim i => w.aim i
  | .put i n err => w.put i n err
  | .exit i => w.exit i
  | .close => w.close

/-! ## What a step can do -/

theorem call_cases {w w' : Writer} {request : Request} (h : w.call request = some w') :
    ∃ c : Call, w' = { w with calls := w.calls ++ [c] } ∧ c.request = request ∧
      ((∃ err, c.state = .returned (some err) ∧ request.frame = .ok (.error err)) ∨
        (c.state = .sending ∧ request.frame = .ok (.ok c.frame))) := by
  unfold call at h
  split at h
  · cases h
  · rename_i hframe
    exact ⟨_, (Option.some.inj h).symm, rfl, Or.inl ⟨_, rfl, hframe⟩⟩
  · rename_i hframe
    exact ⟨_, (Option.some.inj h).symm, rfl, Or.inr ⟨rfl, hframe⟩⟩

/-- A `select` of a call sends its frame, finds the buffer full, drops the oldest frame, finds none to drop, or gives
up. -/
theorem select_cases {w w' : Writer} {k : Nat} (h : w.select k = some w') : ∃ c, w.calls[k]? = some c ∧
    (((c.state = .sending ∨ c.state = .resending) ∧ w.buffer.length < maxBufferSize ∧ w' = w.send k c) ∨
      (c.state = .sending ∧ maxBufferSize ≤ w.buffer.length ∧ w' = w.move k c .evicting) ∨
      (c.state = .evicting ∧ ∃ oldest rest, w.buffer = oldest :: rest ∧ w' = w.evict k c oldest rest) ∨
      (c.state = .evicting ∧ w.buffer = [] ∧ w' = w.move k c .resending) ∨
      (c.state = .resending ∧ maxBufferSize ≤ w.buffer.length ∧ w' = w.refuse k c)) := by
  unfold select at h
  split at h
  · cases h
  rename_i c hc
  refine ⟨c, hc, ?_⟩
  split at h
  · rename_i hstate
    split_ifs at h with hroom
    · exact Or.inl ⟨Or.inl hstate, hroom, (Option.some.inj h).symm⟩
    · exact Or.inr (Or.inl ⟨hstate, Nat.not_lt.mp hroom, (Option.some.inj h).symm⟩)
  · rename_i hstate
    split at h
    · rename_i oldest rest hbuffer
      exact Or.inr (Or.inr (Or.inl ⟨hstate, oldest, rest, hbuffer, (Option.some.inj h).symm⟩))
    · rename_i hbuffer
      exact Or.inr (Or.inr (Or.inr (Or.inl ⟨hstate, hbuffer, (Option.some.inj h).symm⟩)))
  · rename_i hstate
    split_ifs at h with hroom
    · exact Or.inl ⟨Or.inr hstate, hroom, (Option.some.inj h).symm⟩
    · exact Or.inr (Or.inr (Or.inr (Or.inr ⟨hstate, Nat.not_lt.mp hroom, (Option.some.inj h).symm⟩)))
  · cases h

theorem connect_cases {w w' : Writer} (h : w.connect = some w') :
    w.closed = false ∧ w' = { w with conns := w.conns ++ [[]], loops := w.loops ++ [.idle] } := by
  unfold connect at h
  split_ifs at h with hclosed
  exact ⟨Bool.eq_false_iff.mpr hclosed, (Option.some.inj h).symm⟩

theorem take_cases {w w' : Writer} {i : Nat} (h : w.take i = some w') : ∃ frame rest,
    w.loops[i]? = some .idle ∧ w.buffer = frame :: rest ∧ w' = { w with
      buffer := rest
      removed := w.removed ++ [(frame, .taken)]
      loops := w.loops.set i (.holding frame) } := by
  unfold take at h
  split at h
  · rename_i frame rest hloop hbuffer
    exact ⟨frame, rest, hloop, hbuffer, (Option.some.inj h).symm⟩
  · cases h

theorem aim_cases {w w' : Writer} {i : Nat} (h : w.aim i = some w') : ∃ frame,
    w.loops[i]? = some (.holding frame) ∧ (w' = w.settle i frame .noConnection ∨
      ∃ conn, w' = { w with loops := w.loops.set i (.writing frame conn) }) := by
  unfold aim at h
  split at h
  · rename_i frame hloop
    refine ⟨frame, hloop, ?_⟩
    split at h
    · exact Or.inl (Option.some.inj h).symm
    · exact Or.inr ⟨_, (Option.some.inj h).symm⟩
  · cases h

theorem put_cases {w w' : Writer} {i n : Nat} {err : Bool} (h : w.put i n err = some w') : ∃ frame conn,
    w.loops[i]? = some (.writing frame conn) ∧ n ≤ frame.length ∧
      w' = (w.record conn ⟨frame, n⟩).settle i frame (outcome frame n err) := by
  unfold put at h
  split at h
  · rename_i frame conn hloop
    split_ifs at h with hn
    exact ⟨frame, conn, hloop, hn, (Option.some.inj h).symm⟩
  · cases h

theorem exit_cases {w w' : Writer} {i : Nat} (h : w.exit i = some w') :
    w.loops[i]? = some .idle ∧ w.closed = true ∧ w' = { w with loops := w.loops.set i .exited } := by
  unfold exit at h
  split at h
  · rename_i hloop
    split_ifs at h with hclosed
    exact ⟨hloop, hclosed, (Option.some.inj h).symm⟩
  · cases h

end Writer

end Atlas.Ipc
