import Atlas.Ipc.Listener

/-!
# The IPC listener over whole connections

* `turn_induction` : the loop, turn by turn; `headers_of_turn` : the headers it has read are kept;
* `PreviewSafe` : the payloads that can be logged; `panics_iff` : which connections end in a panic;
* `framesOf` : the frames in a byte string, read the way the loop reads them; `delivered_eq_framesOf` : what a
  connection hands on does not depend on how the stream is cut.
-/

namespace Atlas.Ipc
open Checked Reading

/-! ## Logging -/

/-- The lossy text of the payload fits the preview, or can be cut behind byte 120. -/
def PreviewSafe (payload : Bytes) : Prop :=
  Utf8.byteLength (Utf8.lossy payload) ≤ 120 ∨ Utf8.IsCharBoundary 120 (Utf8.lossy payload)

theorem payloadPreview_isOk_iff (payload : Bytes) : (payloadPreview payload).isOk ↔ PreviewSafe payload := by
  unfold payloadPreview PreviewSafe
  rw [← Utf8.takeBytes_isSome_iff]
  by_cases hlong : Utf8.byteLength (Utf8.lossy payload) > 120
  · simp only [if_pos hlong]
    cases Utf8.takeBytes 120 (Utf8.lossy payload) with
    | none => simp [Except.isOk, Except.toBool, hlong]
    | some front => simp [Except.isOk, Except.toBool]
  · simp only [if_neg hlong]
    exact ⟨fun _ => Or.inl (Nat.not_lt.mp hlong), fun _ => rfl⟩

theorem logParsedFrame_isOk_iff (connId frameNum : Nat) (parsed : ParsedFrame) :
    (logParsedFrame connId frameNum parsed).isOk ↔ PreviewSafe parsed.payload := by
  rw [← payloadPreview_isOk_iff, logParsedFrame]
  cases payloadPreview parsed.payload with
  | error p => exact Iff.rfl
  | ok preview => exact ⟨fun _ => rfl, fun _ => rfl⟩

/-- A log line without a preview: it never panics. -/
def silent (connId frameNum : Nat) (parsed : ParsedFrame) : Except Panic LogRecord :=
  .ok ⟨connId, frameNum, parsed.trace, parsed.payload.length, ""⟩

namespace Conn

/-! ## The loop, turn by turn -/

section turns
variable {log : Nat → ParsedFrame → Except Panic LogRecord} {c c' : Conn}

theorem runConnection_error {p : Panic} (h : readFrame log c = .error p) : runConnection log c = .error p := by
  rw [runConnection]
  split <;> simp_all

theorem runConnection_finished {result : Except ConnError Nat} (h : readFrame log c = .ok (c', some result)) :
    runConnection log c = .ok (c', result) := by
  rw [runConnection]
  split <;> simp_all

theorem runConnection_again (h : readFrame log c = .ok (c', none)) :
    runConnection log c = runConnection log c' := by
  rw [runConnection]
  split <;> simp_all

/-- What a log line does to a turn: nothing, if it can be written. -/
theorem afterLog_safe (connId : Nat) {o : Option (Except ConnError Nat)} {frame : Option ParsedFrame}
    (hsafe : ∀ parsed ∈ frame.toList, PreviewSafe parsed.payload) :
    afterLog (logParsedFrame connId) c' o frame = .ok (c', o) := by
  cases frame with
  | none => rfl
  | some parsed =>
    have hisOk := (logParsedFrame_isOk_iff connId c'.stats.frames parsed).mpr (hsafe parsed (by simp))
    rw [afterLog]
    cases hrecord : logParsedFrame connId c'.stats.frames parsed with
    | error p => simp [hrecord, Except.isOk, Except.toBool] at hisOk
    | ok record => rfl

theorem afterLog_panics (connId : Nat) {o : Option (Except ConnError Nat)} {parsed : ParsedFrame}
    (hcut : ¬ PreviewSafe parsed.payload) :
    ∃ p, afterLog (logParsedFrame connId) c' o (some parsed) = .error p := by
  cases hrecord : logParsedFrame connId c'.stats.frames parsed with
  | error p =>
    refine ⟨p, ?_⟩
    rw [afterLog, hrecord]
    rfl
  | ok record =>
    have hisOk : (logParsedFrame connId c'.stats.frames parsed).isOk := by rw [hrecord]; rfl
    exact absurd ((logParsedFrame_isOk_iff _ _ _).mp hisOk) hcut

/-- The headers behind a turn are kept, if those of the turns that follow are. -/
theorem headers_of_turn {o : Option (Except ConnError Nat)} {frame : Option ParsedFrame} {d : Conn}
    {result : Except ConnError Nat} (hturn : readFrame log c = afterLog log c' o frame)
    (hlater : o = none → runConnection log c' = .ok (d, result) → c'.headers <+: d.headers)
    (h : runConnection log c = .ok (d, result)) : c'.headers <+: d.headers := by
  cases hlog : afterLog log c' o frame with
  | error p =>
    rw [runConnection_error (hturn.trans hlog)] at h
    cases h
  | ok co =>
    obtain ⟨c'', o'⟩ := co
    obtain ⟨rfl, rfl⟩ := eq_of_afterLog log hlog
    rw [hlog] at hturn
    cases o' with
    | some r =>
      rw [runConnection_finished hturn] at h
      rw [(Prod.mk.inj (Except.ok.inj h)).1]
    | none =>
      rw [runConnection_again hturn] at h
      exact hlater rfl h

end turns

/-- Induction over the turns of a connection. -/
theorem turn_induction {motive : Conn → Prop}
    (step : ∀ c c' o frame, (∀ log, readFrame log c = afterLog log c' o frame) →
      c'.delivered = c.delivered ++ frame.toList → c.headers <+: c'.headers → (o = none → motive c') → motive c)
    (c : Conn) : motive c := by
  induction hlen : c.reader.rest.length using Nat.strongRecOn generalizing c with
  | ind n ih =>
    obtain ⟨c', o, frame, hrun, hdelivered, hheaders, hshorter⟩ := readFrame_turn c
    exact step c c' o frame hrun hdelivered hheaders fun ho => ih _ (hlen ▸ hshorter ho) c' rfl

/-- The headers of a connection are kept. -/
theorem headers_runConnection (log : Nat → ParsedFrame → Except Panic LogRecord) (c : Conn) :
    ∀ {d : Conn} {result : Except ConnError Nat}, runConnection log c = .ok (d, result) →
      c.headers <+: d.headers := by
  induction c using turn_induction with
  | step c c' o frame hrun _ hheaders ih =>
    intro d result h
    exact hheaders.trans (headers_of_turn (hrun log) (fun ho => ih ho) h)

/-- What a connection hands on when nothing panics. -/
theorem runConnection_silent (connId : Nat) (c : Conn) : ∃ d result frames,
    runConnection (silent connId) c = .ok (d, result) ∧ d.delivered = c.delivered ++ frames ∧
      ((∃ p, runConnection (logParsedFrame connId) c = .error p) ↔
        ∃ parsed ∈ frames, ¬ PreviewSafe parsed.payload) := by
  induction c using turn_induction with
  | step c c' o frame hrun hdelivered _ ih =>
    have hsilent : readFrame (silent connId) c = .ok (c', o) := by
      rw [hrun]
      cases frame <;> rfl
    have hlogged := hrun (logParsedFrame connId)
    by_cases hsafe : ∀ parsed ∈ frame.toList, PreviewSafe parsed.payload
    · -- the frame of this turn can be logged, so a panic comes later
      rw [afterLog_safe connId hsafe] at hlogged
      cases o with
      | some result =>
        refine ⟨c', result, frame.toList, runConnection_finished hsilent, hdelivered, ?_⟩
        rw [runConnection_finished hlogged]
        refine ⟨fun h => ?_, fun ⟨parsed, hmem, hunsafe⟩ => absurd (hsafe parsed hmem) hunsafe⟩
        obtain ⟨p, hp⟩ := h
        cases hp
      | none =>
        obtain ⟨d, result, frames, hrest, hmore, hpanic⟩ := ih rfl
        refine ⟨d, result, frame.toList ++ frames, ?_, ?_, ?_⟩
        · rw [runConnection_again hsilent, hrest]
        · rw [hmore, hdelivered, List.append_assoc]
        · rw [runConnection_again hlogged, hpanic]
          refine ⟨fun ⟨parsed, hmem, hunsafe⟩ => ⟨parsed, List.mem_append_right _ hmem, hunsafe⟩, ?_⟩
          rintro ⟨parsed, hmem, hunsafe⟩
          rcases List.mem_append.mp hmem with hmem | hmem
          · exact absurd (hsafe parsed hmem) hunsafe
          · exact ⟨parsed, hmem, hunsafe⟩
    · -- the log line of this turn panics
      obtain ⟨parsed, hmem, hunsafe⟩ : ∃ parsed ∈ frame.toList, ¬ PreviewSafe parsed.payload := by
        simpa using hsafe
      obtain rfl : frame = some parsed := by simpa using hmem
      obtain ⟨p, hp⟩ := @afterLog_panics c' connId o parsed hunsafe
      have hpanic : runConnection (logParsedFrame connId) c = .error p := runConnection_error (hlogged.trans hp)
      obtain ⟨d, result, more, hrest, hmore⟩ : ∃ d result more,
          runConnection (silent connId) c = .ok (d, result) ∧ d.delivered = c'.delivered ++ more := by
        cases o with
        | some result => exact ⟨c', result, [], runConnection_finished hsilent, (List.append_nil _).symm⟩
        | none =>
          obtain ⟨d, result, frames, hrest, hmore, -⟩ := ih rfl
          exact ⟨d, result, frames, (runConnection_again hsilent).trans hrest, hmore⟩
      refine ⟨d, result, parsed :: more, hrest, ?_, fun _ => ⟨parsed, List.mem_cons_self, hunsafe⟩, fun _ => ?_⟩
      · rw [hmore, hdelivered, List.append_assoc]
        rfl
      · exact ⟨p, hpanic⟩

/-! ## Streams without stalls and failures -/

/-- A turn reads `k` bytes, a header first, and hands on `frames`. -/
structure Advanced (c c' : Conn) (k : Nat) (frames : List ParsedFrame) : Prop where
  chunked : c'.reader.Chunked
  rest : c'.reader.rest = c.reader.rest.drop k
  offset : k ≤ c.reader.rest.length → c'.reader.offset = c.reader.offset + k
  headers : c'.headers = c.headers ++ [c.reader.offset]
  delivered : c'.delivered = c.delivered ++ frames

variable {c : Conn} {n : Nat} {more : Bytes}

theorem turn_eof (hc : c.reader.Chunked) (h : c.reader.rest.length < 4) : ∃ reader,
    ∀ log, readFrame log c = .ok ({ c with reader }, some (.ok c.framesInConn)) := by
  rcases readExact_chunked true 4 hc with ⟨hlen, -⟩ | ⟨-, reader, hread, -, -⟩
  · omega
  · exact ⟨reader, fun log => by rw [readFrame, hread]⟩

theorem turn_header (hc : c.reader.Chunked) (hrest : c.reader.rest = lengthHeader n ++ more) : ∃ reader,
    reader.Chunked ∧ reader.rest = more ∧ reader.offset = c.reader.offset + 4 ∧
    ∀ log, readFrame log c =
      readPayload log (c.readHeader reader) (lengthHeader n) := by
  have hlen : c.reader.rest.length = 4 + more.length := by rw [hrest, List.length_append, length_lengthHeader]
  rcases readExact_chunked true 4 hc with ⟨-, reader, hread, hchunked, hmore, hoffset⟩ | ⟨hshort, -⟩
  · rw [hrest, List.take_left' (length_lengthHeader n)] at hread
    rw [hrest, List.drop_left' (length_lengthHeader n)] at hmore
    exact ⟨reader, hchunked, hmore, hoffset, fun log => by rw [readFrame, hread]⟩
  · omega

theorem turn_zero (hc : c.reader.Chunked) (hrest : c.reader.rest = lengthHeader 0 ++ more) : ∃ c',
    Advanced c c' 4 [] ∧ ∀ log, readFrame log c = .ok (c', none) := by
  obtain ⟨reader, hchunked, hmore, hoffset, hrun⟩ := turn_header hc hrest
  refine ⟨(c.readHeader reader).reject, ⟨hchunked, ?_, fun _ => hoffset, rfl, (List.append_nil _).symm⟩,
    fun log => ?_⟩
  · rw [hrest, List.drop_left' (length_lengthHeader 0)]
    exact hmore
  · rw [hrun, readPayload, if_pos (toNat_header (by decide))]

theorem turn_oversized (hc : c.reader.Chunked) (hn : n < 2 ^ 32) (hmax : 16777216 < n)
    (hrest : c.reader.rest = lengthHeader n ++ more) {skip : Nat} (hskip : skip = min n 65536) : ∃ c',
    Advanced c c' (4 + skip) [] ∧ ∀ log, readFrame log c = .ok (c', none) := by
  obtain ⟨reader, hchunked, hmore, hoffset, hrun⟩ := turn_header hc hrest
  have hlen : c.reader.rest.length = 4 + more.length := by rw [hrest, List.length_append, length_lengthHeader]
  have hdrop : c.reader.rest.drop (4 + skip) = more.drop skip := by
    rw [hrest, ← List.drop_drop, List.drop_left' (length_lengthHeader n)]
  have hlarge : n > Listener.maxFrameSize - 4 := hmax
  refine ⟨{ (c.readHeader reader).reject with reader := (readExact false skip reader).2 },
    ⟨Chunked_readExact false skip hchunked, ?_, fun hk => ?_, rfl, (List.append_nil _).symm⟩, fun log => ?_⟩
  · show (readExact false skip reader).2.rest = c.reader.rest.drop (4 + skip)
    rw [hdrop]
    rcases readExact_chunked false skip hchunked with ⟨-, r, hr, -, hrr, -⟩ | ⟨hshort, r, hr, -, hrr⟩
    · rw [hr]
      exact hmore ▸ hrr
    · rw [hr, List.drop_of_length_le (by rw [hmore] at hshort; omega)]
      exact hrr
  · show (readExact false skip reader).2.offset = c.reader.offset + (4 + skip)
    rcases readExact_chunked false skip hchunked with ⟨-, r, hr, -, -, hro⟩ | ⟨hshort, -⟩
    · rw [hr, ← Nat.add_assoc, ← hoffset]
      exact hro
    · rw [hmore] at hshort
      omega
  · rw [hrun, readPayload, toNat_header hn, if_neg (by omega), if_pos hlarge, ← hskip]
    rfl

theorem turn_short (hc : c.reader.Chunked) (hn : 1 ≤ n) (hmax : n ≤ 16777216) (hshort : more.length < n)
    (hrest : c.reader.rest = lengthHeader n ++ more) : ∃ c' err, c'.delivered = c.delivered ∧
    ∀ log, readFrame log c = .ok (c', some (.error err)) := by
  obtain ⟨reader, hchunked, hmore, -, hrun⟩ := turn_header hc hrest
  have hsmall : ¬ n > Listener.maxFrameSize - 4 := Nat.not_lt.mpr hmax
  rcases readExact_chunked false n hchunked with ⟨hlen, -⟩ | ⟨-, r, hr, -, -⟩
  · rw [hmore] at hlen
    omega
  · refine ⟨{ c.readHeader reader with reader := r }, .payloadRead c.connId .unexpectedEof, rfl, fun log => ?_⟩
    rw [hrun, readPayload, toNat_header (by omega), if_neg (by omega), if_neg hsmall, show
      readExact false n (c.readHeader reader).reader = (.error .unexpectedEof, r) from hr]
    rfl

theorem turn_body (hc : c.reader.Chunked) {body : Bytes} (hn : 1 ≤ body.length) (hmax : body.length ≤ 16777216)
    (hrest : c.reader.rest = lengthHeader body.length ++ (body ++ more)) : ∃ c',
    Advanced c c' (4 + body.length) (parseBody body).toOption.toList ∧
      ∀ log, readFrame log c = afterLog log c' none (parseBody body).toOption := by
  obtain ⟨reader, hchunked, hmore, hoffset, hrun⟩ := turn_header hc hrest
  have hsmall : ¬ body.length > Listener.maxFrameSize - 4 := Nat.not_lt.mpr hmax
  have hdrop : c.reader.rest.drop (4 + body.length) = more := by
    rw [hrest, ← List.append_assoc, List.drop_left' (by simp)]
  have hparse : parseFrame (lengthHeader body.length ++ body) = .ok (parseBody body) := by
    have hcomplete := parseFrame_complete body [] hn hmax
    rwa [List.append_nil] at hcomplete
  rcases readExact_chunked false body.length hchunked with ⟨-, r, hr, hrchunked, hrr, hro⟩ | ⟨hshort, -⟩
  · rw [hmore, List.take_left] at hr
    rw [hmore, List.drop_left] at hrr
    rw [hoffset, Nat.add_assoc] at hro
    have hread' : readExact false body.length (c.readHeader reader).reader = (.ok body, r) := hr
    cases hbody : parseBody body with
    | error err =>
      refine ⟨({ c.readHeader reader with reader := r } : Conn).reject,
        ⟨hrchunked, hrr.trans hdrop.symm, fun _ => hro, rfl, (List.append_nil _).symm⟩, fun log => ?_⟩
      rw [hrun, readPayload, toNat_header (by omega), if_neg (by omega), if_neg hsmall, hread']
      simp only [hparse, ok_bind, hbody]
      rfl
    | ok parsed =>
      refine ⟨({ c.readHeader reader with reader := r } : Conn).deliver parsed,
        ⟨hrchunked, hrr.trans hdrop.symm, fun _ => hro, rfl, rfl⟩, fun log => ?_⟩
      rw [hrun, readPayload, toNat_header (by omega), if_neg (by omega), if_neg hsmall, hread']
      simp only [hparse, ok_bind, hbody, Except.toOption, afterLog]
      cases log (({ c.readHeader reader with reader := r } : Conn).deliver parsed).stats.frames parsed <;> rfl
  · rw [hmore, List.length_append] at hshort
    omega

end Conn

/-! ## What a connection hands on -/

/-- The frames that can be parsed in a byte string, read from the front as the loop reads them. -/
def framesOf (bs : Bytes) : List ParsedFrame :=
  if bs.length < 4 then []
  else
    let n := (u32FromBeBytes (bs.take 4)).toNat
    let more := bs.drop 4
    if n = 0 then framesOf more
    else if n > 16777216 then framesOf (more.drop (min n 65536))
    else if more.length < n then []
    else (parseBody (more.take n)).toOption.toList ++ framesOf (more.drop n)
  termination_by bs.length
  decreasing_by all_goals simp only [List.length_drop]; omega

theorem eq_lengthHeader {bs : Bytes} (h : bs.length = 4) : bs = lengthHeader (u32FromBeBytes bs).toNat := by
  have hlt := BigEndian.decode_lt bs
  rw [h] at hlt
  have hencode := BigEndian.encode_decode bs
  rw [h] at hencode
  rw [u32FromBeBytes, toNat_uint32 (by omega), lengthHeader, hencode]

/-- **What a connection hands on** is what its bytes contain, however they are cut into pieces. -/
theorem delivered_eq_framesOf (connId : Nat) (c : Conn) (hc : c.reader.Chunked) : ∃ d result,
    Conn.runConnection (silent connId) c = .ok (d, result) ∧
      d.delivered = c.delivered ++ framesOf c.reader.rest := by
  induction hlen : c.reader.rest.length using Nat.strongRecOn generalizing c with
  | ind len ih =>
    by_cases hshort : c.reader.rest.length < 4
    · obtain ⟨reader, hread⟩ := Conn.turn_eof hc hshort
      refine ⟨_, _, Conn.runConnection_finished (hread _), ?_⟩
      rw [framesOf, if_pos hshort, List.append_nil]
    -- a turn that goes on leaves the rest to the induction
    have hagain : ∀ c' k frames, Conn.Advanced c c' k frames → 0 < k →
        Conn.readFrame (silent connId) c = .ok (c', none) →
        framesOf c.reader.rest = frames ++ framesOf (c.reader.rest.drop k) → ∃ d result,
          Conn.runConnection (silent connId) c = .ok (d, result) ∧
            d.delivered = c.delivered ++ framesOf c.reader.rest := by
      intro c' k frames hadv hpos hread hframes
      have hrest : c'.reader.rest.length = len - k := by rw [hadv.rest, List.length_drop, hlen]
      obtain ⟨d, result, hrun, hdelivered⟩ := ih (len - k) (by omega) c' hadv.chunked hrest
      refine ⟨d, result, (Conn.runConnection_again hread).trans hrun, ?_⟩
      rw [hdelivered, hadv.delivered, hadv.rest, hframes, List.append_assoc]
    obtain ⟨header, more, hsplit, hheader⟩ : ∃ header more, c.reader.rest = header ++ more ∧ header.length = 4 :=
      ⟨c.reader.rest.take 4, c.reader.rest.drop 4, (List.take_append_drop 4 _).symm, by simp; omega⟩
    have htake : c.reader.rest.take 4 = header := by rw [hsplit, List.take_left' hheader]
    have hdrop : c.reader.rest.drop 4 = more := by rw [hsplit, List.drop_left' hheader]
    obtain ⟨n, hn⟩ : ∃ n, n = (u32FromBeBytes header).toNat := ⟨_, rfl⟩
    have hlt : n < 2 ^ 32 := hn ▸ (u32FromBeBytes header).toNat_lt
    have hrest : c.reader.rest = lengthHeader n ++ more := by rw [hn, ← eq_lengthHeader hheader, hsplit]
    have hframes : framesOf c.reader.rest = if n = 0 then framesOf more
        else if n > 16777216 then framesOf (more.drop (min n 65536))
        else if more.length < n then []
        else (parseBody (more.take n)).toOption.toList ++ framesOf (more.drop n) := by
      rw [framesOf, if_neg hshort, htake, hdrop, ← hn]
    by_cases hzero : n = 0
    · subst hzero
      obtain ⟨c', hadv, hread⟩ := Conn.turn_zero hc hrest
      refine hagain c' 4 [] hadv (by omega) (hread _) ?_
      rw [hframes, if_pos rfl, hdrop]
      rfl
    rw [if_neg hzero] at hframes
    by_cases hmax : n > 16777216
    · obtain ⟨c', hadv, hread⟩ := Conn.turn_oversized hc hlt hmax hrest rfl
      refine hagain c' (4 + min n 65536) [] hadv (by omega) (hread _) ?_
      rw [hframes, if_pos hmax, ← List.drop_drop, hdrop]
      rfl
    rw [if_neg hmax] at hframes
    by_cases hmore : more.length < n
    · obtain ⟨c', err, hdelivered, hread⟩ := Conn.turn_short hc (by omega) (by omega) hmore hrest
      refine ⟨c', _, Conn.runConnection_finished (hread _), ?_⟩
      rw [hframes, if_pos hmore, List.append_nil, hdelivered]
    · have hbody : (more.take n).length = n := by rw [List.length_take]; omega
      have hsplit : c.reader.rest = lengthHeader (more.take n).length ++ (more.take n ++ more.drop n) := by
        rw [hbody, List.take_append_drop, hrest]
      obtain ⟨c', hadv, hread⟩ := Conn.turn_body hc (by omega) (by omega) hsplit
      refine hagain c' (4 + n) _ (hbody ▸ hadv) (by omega) ?_ ?_
      · rw [hread]
        cases (parseBody (more.take n)).toOption <;> rfl
      · rw [hframes, if_neg hmore, ← List.drop_drop, hdrop]

/-- The frames of a connection, whatever is made of them. -/
def received (connId : Nat) (stats : ListenerStats) (incoming : List Reading.Event) : List ParsedFrame :=
  match Conn.runConnection (silent connId) { connId, reader := ⟨[], incoming, 0⟩, stats } with
  | .ok (d, _) => d.delivered
  | .error _ => []

theorem panics_iff_received (connId : Nat) (stats : ListenerStats) (incoming : List Reading.Event) :
    (∃ p, handleConnection connId stats incoming = .error p) ↔
      ∃ parsed ∈ received connId stats incoming, ¬ PreviewSafe parsed.payload := by
  obtain ⟨d, result, frames, hrun, hdelivered, hpanic⟩ :=
    Conn.runConnection_silent connId { connId, reader := ⟨[], incoming, 0⟩, stats }
  have hreceived : received connId stats incoming = frames := by
    rw [received, hrun]
    exact hdelivered
  rw [hreceived]
  exact hpanic

theorem chunked_reader (chunks : List Bytes) : (⟨[], chunks.map .chunk, 0⟩ : Reader).Chunked := by
  intro e he
  obtain ⟨bs, -, rfl⟩ := List.mem_map.mp he
  exact ⟨bs, rfl⟩

theorem rest_reader (chunks : List Bytes) : (⟨[], chunks.map .chunk, 0⟩ : Reader).rest = chunks.flatten := by
  simp [Reader.rest, List.flatMap_map, Event.bytes, List.flatMap_id']

theorem received_chunks (connId : Nat) (stats : ListenerStats) (chunks : List Bytes) :
    received connId stats (chunks.map .chunk) = framesOf chunks.flatten := by
  obtain ⟨d, result, hrun, hdelivered⟩ :=
    delivered_eq_framesOf connId { connId, reader := ⟨[], chunks.map .chunk, 0⟩, stats } (chunked_reader chunks)
  rw [received, hrun]
  exact hdelivered.trans (congrArg framesOf (rest_reader chunks))

/-- **Which connections end in a panic**: those that receive a frame whose payload cannot be cut for the preview; and
what is received depends on the bytes of the stream alone. -/
theorem panics_iff (connId : Nat) (stats : ListenerStats) :
    (∀ incoming, (∃ p, handleConnection connId stats incoming = .error p) ↔
      ∃ parsed ∈ received connId stats incoming, ¬ PreviewSafe parsed.payload) ∧
    ∀ chunks : List Bytes, received connId stats (chunks.map .chunk) = framesOf chunks.flatten :=
  ⟨panics_iff_received connId stats, received_chunks connId stats⟩

theorem framesOf_frame (body tail : Bytes) (hn : 1 ≤ body.length) (hmax : body.length ≤ 16777216) :
    framesOf (lengthHeader body.length ++ (body ++ tail)) = (parseBody body).toOption.toList ++ framesOf tail := by
  have hlen := length_lengthHeader body.length
  rw [framesOf, if_neg (by simp), List.take_left' hlen, List.drop_left' hlen]
  simp only [toNat_header (show body.length < 2 ^ 32 by omega)]
  rw [if_neg (by omega), if_neg (by omega), if_neg (by simp), List.take_left, List.drop_left]

/-- A text of 119 one-byte characters and a three-byte one is longer than the preview, which ends inside it. -/
def straddling : List Char := List.replicate 119 'a' ++ ['€']

theorem byteLength_straddling : Utf8.byteLength straddling = 122 := by
  rw [straddling, Utf8.byteLength_append, Utf8.byteLength_replicate]
  rfl

theorem not_previewSafe_straddling : ¬ PreviewSafe (Utf8.encode straddling) := by
  have hcut : Utf8.takeBytes 120 straddling = none := by
    have happend := Utf8.takeBytes_append (List.replicate 119 'a') ['€'] 1
    rwa [Utf8.byteLength_replicate] at happend
  rw [PreviewSafe, Utf8.lossy_encode, ← Utf8.takeBytes_isSome_iff, byteLength_straddling, hcut]
  simp

/-- A frame with such a payload stops the listener. -/
theorem panics_on_straddling : ∃ p,
    handleConnection 1 {} [.chunk (lengthHeader 123 ++ 0x00 :: Utf8.encode straddling)] = .error p := by
  have hbody : (0x00 :: Utf8.encode straddling).length = 123 := by
    rw [List.length_cons, Utf8.length_encode, byteLength_straddling]
  have hframes := framesOf_frame (0x00 :: Utf8.encode straddling) [] (by omega) (by omega)
  rw [hbody, List.append_nil, parseBody_untraced (by decide)] at hframes
  have hreceived := received_chunks 1 {} [lengthHeader 123 ++ 0x00 :: Utf8.encode straddling]
  rw [List.flatten_singleton, hframes] at hreceived
  refine (panics_iff_received _ _ _).mpr ⟨⟨Utf8.encode straddling, none⟩, ?_, not_previewSafe_straddling⟩
  exact hreceived ▸ List.mem_append_left _ (by simp [Except.toOption])

end Atlas.Ipc
