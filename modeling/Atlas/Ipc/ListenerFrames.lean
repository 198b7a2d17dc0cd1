import Atlas.Ipc.ListenerRuns

/-!
# The IPC listener on streams of frames

* `WireFrame`, `boundaries` : frames of any kind one after another, and where they start;
* `InStep` : the loop reads no header inside a frame, and closes at a bad frame or hands on all well-formed ones;
* `runConnection_harmless`, `runConnection_harmful` : the loop on frames it steps over, and on others.
-/

namespace Atlas.Ipc
open Checked Reading

/-! ## Streams of frames -/

/-- A frame on the wire: a length header and as many bytes as it says, whatever they are. -/
structure WireFrame where
  body : Bytes
  length_lt : body.length < 2 ^ 32

namespace WireFrame

def bytes (f : WireFrame) : Bytes := lengthHeader f.body.length ++ f.body

/-- What `parse_frame` makes of a frame, absent where it rejects it. -/
def parsed (f : WireFrame) : Option ParsedFrame :=
  match parseFrame f.bytes with
  | .ok (.ok parsed) => some parsed
  | _ => none

theorem length_bytes (f : WireFrame) : f.bytes.length = 4 + f.body.length := by
  rw [bytes, List.length_append, length_lengthHeader]

theorem parsed_eq {f : WireFrame} (hn : 1 ≤ f.body.length) (hmax : f.body.length ≤ 16777216) :
    f.parsed = (parseBody f.body).toOption := by
  have hparse := parseFrame_complete f.body [] hn hmax
  rw [List.append_nil] at hparse
  rw [parsed, bytes, hparse]
  cases parseBody f.body <;> rfl

theorem parsed_empty {f : WireFrame} (h : f.body = []) : f.parsed = none := by
  have hparse : parseFrame (lengthHeader 0 ++ []) = .ok (.error .zeroLengthPayload) := rfl
  rw [parsed, bytes, h, List.length_nil, hparse]

end WireFrame

/-- The offsets at which the frames of a stream start, the first one at `o`. -/
def boundaries : Nat → List WireFrame → List Nat
  | _, [] => []
  | o, f :: fs => o :: boundaries (o + f.bytes.length) fs

/-- The connection is closed at a frame that is not well formed. -/
def ClosedAtBadFrame (frames : List WireFrame) (d : Conn) : Prop := ∃ front bad back,
  frames = front ++ bad :: back ∧ bad.parsed = none ∧ d.headers = boundaries 0 (front ++ [bad]) ∧
    d.delivered = front.filterMap WireFrame.parsed

/-- The loop reads headers at the starts of frames only, and either closes the connection at a bad frame or hands on
exactly the well-formed ones, in order. -/
def InStep (frames : List WireFrame) (run : Except Panic (Conn × Except ConnError Nat)) : Prop := ∃ d result,
  run = .ok (d, result) ∧ (∀ o ∈ d.headers, o ∈ boundaries 0 frames) ∧
    (ClosedAtBadFrame frames d ∨ d.delivered = frames.filterMap WireFrame.parsed)

/-- A frame the loop steps over: not oversized, and logged without a panic if it is well formed. -/
def WireFrame.Harmless (f : WireFrame) : Prop :=
  f.body.length ≤ 16777216 ∧ ∀ parsed, f.parsed = some parsed → PreviewSafe parsed.payload

namespace Conn

/-- A turn on a frame that is not oversized. -/
theorem turn_frame {c : Conn} {f : WireFrame} {more : Bytes} (hc : c.reader.Chunked)
    (hmax : f.body.length ≤ 16777216) (hrest : c.reader.rest = f.bytes ++ more) : ∃ c',
    Advanced c c' f.bytes.length f.parsed.toList ∧ ∀ log, readFrame log c = afterLog log c' none f.parsed := by
  rw [WireFrame.length_bytes]
  by_cases hzero : f.body.length = 0
  · have hnil := List.eq_nil_of_length_eq_zero hzero
    have hrest' : c.reader.rest = lengthHeader 0 ++ more := by
      rw [hrest, WireFrame.bytes, hnil, List.append_nil]
      rfl
    rw [WireFrame.parsed_empty hnil, hzero]
    exact turn_zero hc hrest'
  · rw [WireFrame.parsed_eq (by omega) hmax]
    have hrest' : c.reader.rest = lengthHeader f.body.length ++ (f.body ++ more) := by
      rw [hrest, WireFrame.bytes, List.append_assoc]
    exact turn_body hc (by omega) hmax hrest'

variable (connId : Nat) {c : Conn}

/-- The log line of a harmless frame is written. -/
theorem afterLog_harmless {c' : Conn} {f : WireFrame} (hf : f.Harmless) :
    afterLog (logParsedFrame connId) c' none f.parsed = .ok (c', none) :=
  afterLog_safe connId fun parsed hparsed => hf.2 parsed (Option.mem_toList.mp hparsed)

/-- On harmless frames the loop reads every header and hands on every well-formed frame. -/
theorem runConnection_harmless (frames : List WireFrame) (hc : c.reader.Chunked)
    (hrest : c.reader.rest = frames.flatMap WireFrame.bytes) (hframes : ∀ f ∈ frames, f.Harmless) : ∃ d result,
    runConnection (logParsedFrame connId) c = .ok (d, result) ∧
      d.headers = c.headers ++ boundaries c.reader.offset frames ∧
      d.delivered = c.delivered ++ frames.filterMap WireFrame.parsed := by
  induction frames generalizing c with
  | nil =>
    have hshort : c.reader.rest.length < 4 := by rw [hrest]; simp
    obtain ⟨reader, hread⟩ := turn_eof hc hshort
    exact ⟨_, _, runConnection_finished (hread _), (List.append_nil _).symm, (List.append_nil _).symm⟩
  | cons f frames ih =>
    have hf := hframes f List.mem_cons_self
    obtain ⟨c', hadv, hread⟩ := turn_frame hc hf.1 (hrest.trans List.flatMap_cons)
    have hrest' : c'.reader.rest = frames.flatMap WireFrame.bytes := by
      rw [hadv.rest, hrest, List.flatMap_cons, List.drop_left]
    obtain ⟨d, result, hrun, hheaders, hdelivered⟩ :=
      ih hadv.chunked hrest' fun g hg => hframes g (List.mem_cons_of_mem _ hg)
    have hoffset : c'.reader.offset = c.reader.offset + f.bytes.length := hadv.offset (by
      rw [hrest, List.flatMap_cons, List.length_append]
      omega)
    have hturn := (hread (logParsedFrame connId)).trans (afterLog_harmless connId hf)
    refine ⟨d, result, (runConnection_again hturn).trans hrun, ?_, ?_⟩
    · rw [hheaders, hadv.headers, hoffset, List.append_assoc]
      rfl
    · rw [hdelivered, hadv.delivered, List.append_assoc]
      cases hparsed : f.parsed <;> simp [hparsed]

theorem le_of_mem_boundaries {o x : Nat} {frames : List WireFrame} (h : x ∈ boundaries o frames) : o ≤ x := by
  induction frames generalizing o with
  | nil => cases h
  | cons f frames ih =>
    rcases List.mem_cons.mp h with rfl | h
    · exact le_rfl
    · have := ih h
      omega

/-- After an oversized frame the loop takes bytes from inside the frame for a header. -/
theorem header_inside_oversized {f : WireFrame} {more : Bytes} (hc : c.reader.Chunked)
    (hmax : 16777216 < f.body.length) (hrest : c.reader.rest = f.bytes ++ more) :
    (∃ p, runConnection (logParsedFrame connId) c = .error p) ∨
      ∃ d result, runConnection (logParsedFrame connId) c = .ok (d, result) ∧
        c.reader.offset + (4 + 65536) ∈ d.headers := by
  have hskip : 65536 = min f.body.length 65536 := by omega
  have hrest' : c.reader.rest = lengthHeader f.body.length ++ (f.body ++ more) := by
    rw [hrest, WireFrame.bytes, List.append_assoc]
  have hlen : c.reader.rest.length = 4 + (f.body.length + more.length) := by
    rw [hrest', List.length_append, length_lengthHeader, List.length_append]
  obtain ⟨c', hadv, hread⟩ := turn_oversized hc f.length_lt hmax hrest' hskip
  have hoffset := hadv.offset (by omega)
  have hlen' : 4 ≤ c'.reader.rest.length := by
    rw [hadv.rest, List.length_drop]
    omega
  have hsplit : c'.reader.rest = lengthHeader (u32FromBeBytes (c'.reader.rest.take 4)).toNat ++
      c'.reader.rest.drop 4 := by
    rw [← eq_lengthHeader (by rw [List.length_take]; omega), List.take_append_drop]
  obtain ⟨reader, hchunked, -, -, hheader⟩ := turn_header hadv.chunked hsplit
  obtain ⟨c'', o, frame, hrun, -, hheaders, -⟩ := readPayload_turn (c'.readHeader reader)
    (lengthHeader (u32FromBeBytes (c'.reader.rest.take 4)).toNat)
  have hmem : c.reader.offset + (4 + 65536) ∈ c''.headers := by
    rw [hheaders, ← hoffset]
    exact List.mem_append_right _ (List.mem_singleton.mpr rfl)
  rw [runConnection_again (hread _)]
  have hsecond := (hheader (logParsedFrame connId)).trans (hrun _)
  cases hrest'' : runConnection (logParsedFrame connId) c' with
  | error p => exact Or.inl ⟨p, rfl⟩
  | ok dr =>
    obtain ⟨d, result⟩ := dr
    refine Or.inr ⟨d, result, rfl, ?_⟩
    exact (headers_of_turn hsecond (fun _ => headers_runConnection _ _) hrest'').subset hmem

/-- A stream with a frame that is not harmless ends in a panic or with a header read inside a frame. -/
theorem runConnection_harmful (frames : List WireFrame) (hc : c.reader.Chunked)
    (hrest : c.reader.rest = frames.flatMap WireFrame.bytes) (hframes : ¬ ∀ f ∈ frames, f.Harmless) :
    (∃ p, runConnection (logParsedFrame connId) c = .error p) ∨
      ∃ d result x, runConnection (logParsedFrame connId) c = .ok (d, result) ∧ x ∈ d.headers ∧
        c.reader.offset < x ∧ x ∉ boundaries c.reader.offset frames := by
  induction frames generalizing c with
  | nil => exact absurd (fun f hf => absurd hf List.not_mem_nil) hframes
  | cons f frames ih =>
    rw [List.flatMap_cons] at hrest
    by_cases hmax : f.body.length ≤ 16777216
    · obtain ⟨c', hadv, hread⟩ := turn_frame hc hmax hrest
      by_cases hf : f.Harmless
      · have hrest' : c'.reader.rest = frames.flatMap WireFrame.bytes := by rw [hadv.rest, hrest, List.drop_left]
        have hoffset : c'.reader.offset = c.reader.offset + f.bytes.length := hadv.offset (by
          rw [hrest, List.length_append]
          omega)
        have hturn := (hread (logParsedFrame connId)).trans (afterLog_harmless connId hf)
        rw [runConnection_again hturn]
        have hlater : ¬ ∀ g ∈ frames, g.Harmless := fun hall => hframes fun g hg => by
          rcases List.mem_cons.mp hg with rfl | hg
          · exact hf
          · exact hall g hg
        rcases ih hadv.chunked hrest' hlater with hpanic | ⟨d, result, x, hrun, hx, hlt, hout⟩
        · exact Or.inl hpanic
        · refine Or.inr ⟨d, result, x, hrun, hx, by omega, fun hmem => ?_⟩
          rcases List.mem_cons.mp hmem with hstart | hmem
          · omega
          · exact hout (hoffset ▸ hmem)
      · left
        obtain ⟨parsed, hparsed, hunsafe⟩ : ∃ parsed, f.parsed = some parsed ∧ ¬ PreviewSafe parsed.payload := by
          by_contra hall
          refine hf ⟨hmax, fun parsed hparsed => ?_⟩
          by_contra hunsafe
          exact hall ⟨parsed, hparsed, hunsafe⟩
        obtain ⟨p, hp⟩ := @afterLog_panics c' connId none parsed hunsafe
        refine ⟨p, runConnection_error ?_⟩
        rw [hread, hparsed, hp]
    · rcases header_inside_oversized connId hc (Nat.not_le.mp hmax) hrest with hpanic | ⟨d, result, hrun, hx⟩
      · exact Or.inl hpanic
      · refine Or.inr ⟨d, result, _, hrun, hx, by omega, fun hmem => ?_⟩
        rcases List.mem_cons.mp hmem with hstart | hmem
        · omega
        · have := le_of_mem_boundaries hmem
          rw [WireFrame.length_bytes] at this
          omega

end Conn

/-- **When the loop stays in step** with a stream of frames, however it is cut into pieces: just when no frame is
oversized and every well-formed one can be logged. -/
theorem inStep_iff (connId : Nat) (stats : ListenerStats) {frames : List WireFrame} {chunks : List Bytes}
    (h : chunks.flatten = frames.flatMap WireFrame.bytes) :
    InStep frames (handleConnection connId stats (chunks.map .chunk)) ↔ ∀ f ∈ frames, f.Harmless := by
  have hrest := (rest_reader chunks).trans h
  constructor
  · rintro ⟨d, result, hrun, hheaders, -⟩
    by_contra hframes
    rcases @Conn.runConnection_harmful connId { connId, reader := ⟨[], chunks.map .chunk, 0⟩, stats } frames
      (chunked_reader chunks) hrest hframes with ⟨p, hpanic⟩ | ⟨d', result', x, hrun', hx, -, hout⟩
    · cases hrun.symm.trans hpanic
    · obtain ⟨rfl, rfl⟩ := Prod.mk.inj (Except.ok.inj (hrun.symm.trans hrun'))
      exact hout (hheaders x hx)
  · intro hframes
    obtain ⟨d, result, hrun, hheaders, hdelivered⟩ :=
      @Conn.runConnection_harmless connId { connId, reader := ⟨[], chunks.map .chunk, 0⟩, stats } frames
        (chunked_reader chunks) hrest hframes
    refine ⟨d, result, hrun, fun o ho => ?_, Or.inr hdelivered⟩
    rw [hheaders] at ho
    exact ho

/-- A rejected frame and an empty one, cut in the middle of a header and of a body. -/
theorem inStep_two_frames : InStep [⟨[0x01], by decide⟩, ⟨[0x00], by decide⟩]
    (handleConnection 1 {} ([[0, 0, 0], [1, 1, 0, 0, 0], [1, 0]].map .chunk)) := by
  refine (inStep_iff 1 {} (by decide)).mpr fun f hf => ?_
  simp only [List.mem_cons, List.not_mem_nil, or_false] at hf
  rcases hf with rfl | rfl
  · exact ⟨by decide, fun parsed hparsed => nomatch hparsed⟩
  · refine ⟨by decide, fun parsed hparsed => Or.inl ?_⟩
    have hempty : (⟨[0x00], by decide⟩ : WireFrame).parsed = some ⟨[], none⟩ := rfl
    obtain rfl := Option.some.inj (hempty.symm.trans hparsed)
    simp [Utf8.lossy, Utf8.byteLength]

/-- One zero byte too many for a frame. -/
def oversizedFrame : WireFrame := ⟨List.replicate 16777217 0, by rw [List.length_replicate]; decide⟩

/-- Behind the skip of an oversized frame the loop reads a header inside the frame. -/
theorem not_inStep_oversized :
    ¬ InStep [oversizedFrame] (handleConnection 1 {} ([oversizedFrame.bytes].map .chunk)) := by
  rintro ⟨d, result, hrun, hheaders, -⟩
  have hlarge : ¬ ∀ f ∈ [oversizedFrame], f.Harmless := by
    intro hall
    have hlen := (hall oversizedFrame List.mem_cons_self).1
    rw [oversizedFrame, List.length_replicate] at hlen
    omega
  have hrest := rest_reader [oversizedFrame.bytes]
  rcases @Conn.runConnection_harmful 1
    { connId := 1, reader := ⟨[], [oversizedFrame.bytes].map .chunk, 0⟩, stats := {} }
    [oversizedFrame] (chunked_reader _) hrest hlarge with ⟨p, hpanic⟩ | ⟨d', result', x, hrun', hx, -, hout⟩
  · cases hrun.symm.trans hpanic
  · obtain ⟨rfl, rfl⟩ := Prod.mk.inj (Except.ok.inj (hrun.symm.trans hrun'))
    exact hout (hheaders x hx)

end Atlas.Ipc
