import Atlas.Ipc.Parser
import Atlas.Lib.Reader

/-!
# The IPC listener: `core_engine/ipc_listener/src/main.rs`

* `payloadPreview`, `logParsedFrame` : the log line of a frame, with a string slice that can panic;
* `readFrame` : one turn of the loop of `handle_connection`, `readPayload` its part behind the header;
* `handleConnection` : the loop, until the connection is over; `runConnection` leaves the logging open;
* `headers`, `delivered` : where a header was read, and which frames were handed on, read by no step.
-/

namespace Atlas.Ipc
open Checked Reading

def Listener.maxFrameSize : Nat := 16777216 + 4

structure ListenerStats where
  frames : Nat := 0
  connections : Nat := 0
  errors : Nat := 0
  deriving DecidableEq, Repr

/-- The fields of the line that `log_parsed_frame` writes. -/
structure LogRecord where
  connectionId : Nat
  frameNumber : Nat
  trace : Option TraceInfo
  payloadSize : Nat
  payloadPreview : String
  deriving DecidableEq, Repr

/-- `&s[..120]` panics where byte 120 is inside a character. -/
def payloadPreview (payload : Bytes) : Except Panic String :=
  let s := Utf8.lossy payload
  if Utf8.byteLength s > 120 then
    match Utf8.takeBytes 120 s with
    | some front => .ok (String.ofList front ++ "...[truncated]")
    | none => .error (.notCharBoundary 120)
  else .ok (String.ofList s)

def logParsedFrame (connId frameNum : Nat) (parsed : ParsedFrame) : Except Panic LogRecord := do
  let preview ← payloadPreview parsed.payload
  return ⟨connId, frameNum, parsed.trace, parsed.payload.length, preview⟩

inductive ConnError
  /-- read error conn {connId}: {err} -/
  | read (connId : Nat) (err : ReadError)
  /-- read timeout conn {connId} after 60s -/
  | readTimeout (connId : Nat)
  /-- payload read error conn {connId}: {err} -/
  | payloadRead (connId : Nat) (err : ReadError)
  deriving DecidableEq, Repr

structure Conn where
  connId : Nat
  reader : Reader
  stats : ListenerStats
  framesInConn : Nat := 0
  /-- The offsets in the stream at which four bytes were read as a header. -/
  headers : List Nat := []
  /-- The frames handed to `log_parsed_frame`. -/
  delivered : List ParsedFrame := []
  deriving DecidableEq, Repr

namespace Conn

variable (log : Nat → ParsedFrame → Except Panic LogRecord)

/-- Four bytes were read as a header. -/
def readHeader (c : Conn) (reader : Reader) : Conn :=
  { c with reader, headers := c.headers ++ [c.reader.offset] }

/-- A frame is counted and skipped. -/
def reject (c : Conn) : Conn := { c with stats := { c.stats with errors := c.stats.errors + 1 } }

/-- A frame is counted and handed on. -/
def deliver (c : Conn) (parsed : ParsedFrame) : Conn :=
  { c with
    stats := { c.stats with frames := c.stats.frames + 1 }
    framesInConn := c.framesInConn + 1
    delivered := c.delivered ++ [parsed] }

/-- The loop body behind the header. -/
def readPayload (c : Conn) (header : Bytes) : Except Panic (Conn × Option (Except ConnError Nat)) :=
  let payloadLength := (u32FromBeBytes header).toNat
  if payloadLength = 0 then .ok (c.reject, none)
  else if payloadLength > Listener.maxFrameSize - 4 then
    let skipLen := min payloadLength 65536
    .ok ({ c.reject with reader := (readExact false skipLen c.reader).2 }, none)
  else match readExact false payloadLength c.reader with
    | (.error err, reader) => .ok ({ c with reader }, some (.error (.payloadRead c.connId err)))
    | (.ok payload, reader) => do
      let c := { c with reader }
      match ← parseFrame (header ++ payload) with
      | .ok parsed =>
        let c := c.deliver parsed
        let _ ← log c.stats.frames parsed
        return (c, none)
      | .error _ => return (c.reject, none)

/-- One turn of the loop, with the result of the connection where the loop returns. -/
def readFrame (c : Conn) : Except Panic (Conn × Option (Except ConnError Nat)) :=
  match readExact true 4 c.reader with
  | (.ok header, reader) => readPayload log (c.readHeader reader) header
  | (.error .unexpectedEof, reader) => .ok ({ c with reader }, some (.ok c.framesInConn))
  | (.error .failed, reader) => .ok ({ c with reader }, some (.error (.read c.connId .failed)))
  | (.error .timeout, reader) => .ok ({ c with reader }, some (.error (.readTimeout c.connId)))

/-! ## One turn of the loop -/

/-- A turn that hands on `frame` ends where `log` does not panic on it. -/
def afterLog (c' : Conn) (o : Option (Except ConnError Nat)) (frame : Option ParsedFrame) :
    Except Panic (Conn × Option (Except ConnError Nat)) :=
  match frame with
  | none => .ok (c', o)
  | some parsed => (log c'.stats.frames parsed).map fun _ => (c', o)

theorem eq_of_afterLog {c c' : Conn} {o o' : Option (Except ConnError Nat)} {frame : Option ParsedFrame}
    (h : afterLog log c o frame = .ok (c', o')) : c' = c ∧ o' = o := by
  cases frame with
  | none => exact ⟨(Prod.mk.inj (Except.ok.inj h)).1.symm, (Prod.mk.inj (Except.ok.inj h)).2.symm⟩
  | some parsed =>
    unfold afterLog at h
    cases hlog : log c.stats.frames parsed with
    | error p => simp [hlog, Except.map] at h
    | ok record =>
      simp only [hlog, Except.map] at h
      exact ⟨(Prod.mk.inj (Except.ok.inj h)).1.symm, (Prod.mk.inj (Except.ok.inj h)).2.symm⟩

theorem readPayload_turn (c : Conn) (header : Bytes) : ∃ c' o frame,
    (∀ log, readPayload log c header = afterLog log c' o frame) ∧
    c'.delivered = c.delivered ++ frame.toList ∧ c'.headers = c.headers ∧
    c'.reader.rest.length ≤ c.reader.rest.length := by
  by_cases hzero : (u32FromBeBytes header).toNat = 0
  · refine ⟨c.reject, none, none, fun log => ?_, (List.append_nil _).symm, rfl, le_rfl⟩
    rw [readPayload, if_pos hzero]
    rfl
  by_cases hmax : (u32FromBeBytes header).toNat > Listener.maxFrameSize - 4
  · refine ⟨{ c.reject with reader := (readExact false (min (u32FromBeBytes header).toNat 65536) c.reader).2 }, none,
      none, fun log => ?_, (List.append_nil _).symm, rfl, length_rest_readExact _ _ _⟩
    rw [readPayload, if_neg hzero, if_pos hmax]
    rfl
  have hshort := length_rest_readExact false (u32FromBeBytes header).toNat c.reader
  rcases hread : readExact false (u32FromBeBytes header).toNat c.reader with ⟨err | payload, reader⟩
  · rw [hread] at hshort
    refine ⟨{ c with reader }, some (.error (.payloadRead c.connId err)), none, fun log => ?_,
      (List.append_nil _).symm, rfl, hshort⟩
    rw [readPayload, if_neg hzero, if_neg hmax, hread]
    rfl
  · rw [hread] at hshort
    obtain ⟨r, hr⟩ := parseFrame_isOk (header ++ payload)
    cases r with
    | error err =>
      refine ⟨{ c with reader }.reject, none, none, fun log => ?_, (List.append_nil _).symm, rfl, hshort⟩
      rw [readPayload, if_neg hzero, if_neg hmax, hread]
      simp only [hr, ok_bind]
      rfl
    | ok parsed =>
      refine ⟨{ c with reader }.deliver parsed, none, some parsed, fun log => ?_, rfl, rfl, hshort⟩
      rw [readPayload, if_neg hzero, if_neg hmax, hread]
      simp only [hr, ok_bind, afterLog]
      cases log ({ c with reader }.deliver parsed).stats.frames parsed <;> rfl

/-- **One turn**, apart from the logging: it hands on one frame or none, adds to the headers, and where the loop goes
on fewer bytes are left. -/
theorem readFrame_turn (c : Conn) : ∃ c' o frame, (∀ log, readFrame log c = afterLog log c' o frame) ∧
    c'.delivered = c.delivered ++ frame.toList ∧ c.headers <+: c'.headers ∧
    (o = none → c'.reader.rest.length < c.reader.rest.length) := by
  rcases hread : readExact true 4 c.reader with ⟨err | header, reader⟩
  · obtain ⟨result, hresult⟩ : ∃ result, ∀ log, readFrame log c = .ok ({ c with reader }, some result) := by
      cases err with
      | unexpectedEof => exact ⟨.ok c.framesInConn, fun log => by rw [readFrame, hread]⟩
      | failed => exact ⟨.error (.read c.connId .failed), fun log => by rw [readFrame, hread]⟩
      | timeout => exact ⟨.error (.readTimeout c.connId), fun log => by rw [readFrame, hread]⟩
    refine ⟨{ c with reader }, some result, none, fun log => hresult log, (List.append_nil _).symm,
      List.prefix_refl _, fun h => ?_⟩
    cases h
  · obtain ⟨hn, -, hrest, -⟩ := readExact_ok hread
    obtain ⟨c', o, frame, hrun, hdelivered, hheaders, hlength⟩ :=
      readPayload_turn (c.readHeader reader) header
    refine ⟨c', o, frame, fun log => ?_, hdelivered, hheaders ▸ List.prefix_append _ _, fun _ => ?_⟩
    · rw [readFrame, hread]
      exact hrun log
    · rw [show (c.readHeader reader).reader.rest = c.reader.rest.drop 4 from hrest, List.length_drop] at hlength
      omega

theorem readFrame_shorter {c c' : Conn} (h : readFrame log c = .ok (c', none)) :
    c'.reader.rest.length < c.reader.rest.length := by
  obtain ⟨d, o, frame, hrun, -, -, hshorter⟩ := readFrame_turn c
  rw [hrun log] at h
  obtain ⟨rfl, rfl⟩ := eq_of_afterLog log h
  exact hshorter rfl

/-- The loop of `handle_connection`: the connection when it is over, and its result. -/
def runConnection (c : Conn) : Except Panic (Conn × Except ConnError Nat) :=
  match _h : readFrame log c with
  | .error p => .error p
  | .ok (c', some result) => .ok (c', result)
  | .ok (c', none) => runConnection c'
  termination_by c.reader.rest.length
  decreasing_by exact readFrame_shorter log _h

end Conn

/-- `handle_connection` on a stream that arrives as `incoming`. -/
def handleConnection (connId : Nat) (stats : ListenerStats) (incoming : List Reading.Event) :
    Except Panic (Conn × Except ConnError Nat) :=
  Conn.runConnection (logParsedFrame connId) { connId, reader := ⟨[], incoming, 0⟩, stats }

end Atlas.Ipc
