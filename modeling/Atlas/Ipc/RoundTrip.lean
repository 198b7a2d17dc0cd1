import Atlas.Ipc.Parser
import Atlas.Ipc.Writer

/-!
# Go writes, Rust reads

* `parseFrame_serializeFrameTraced` : a traced frame gives back its payload, its timestamp and its exchange;
* `parseFrame_serializeUntraced` : so does a frame without trace its payload;
* `traced_roundtrip` : both, for whole trace ids;
* `write_misread` : the frames of `Writer.Write`, which carry no flags byte, never give back their payload.
-/

namespace Atlas.Ipc
open Checked

/-! ## Frames with a flags byte -/

theorem parseFrame_serializeFrameTraced {now tsMs : UInt64} {payload traceID : Bytes} {exchange : String}
    (hne : traceID ≠ []) (hid : parseTraceID now traceID = .ok (Utf8.bytes exchange, tsMs))
    (htag : (Utf8.bytes exchange).length ≤ maxExchangeTag)
    (hmax : 10 + (Utf8.bytes exchange).length + payload.length ≤ 16777216) :
    ∃ frame, serializeFrameTraced now payload traceID = .ok frame ∧
      parseFrame frame = .ok (.ok ⟨payload, some ⟨tsMs, exchange⟩⟩) := by
  have hlt : 10 + (Utf8.bytes exchange).length + payload.length < 2 ^ 32 := by omega
  have hframe := serializeFrameTraced_eq hne hid (List.take_of_length_le htag).symm hlt
  have hflags : ¬ flagTracePresent &&& flagTracePresent = 0 := by decide
  have hbody := parseBody_traced tsMs exchange payload hflags htag
  have hparse := parseFrame_complete (flagTracePresent :: (BigEndian.encode 8 tsMs.toNat ++
    UInt8.ofNat (Utf8.bytes exchange).length :: (Utf8.bytes exchange ++ payload))) [] (by simp) (by simp; omega)
  have hlen : (flagTracePresent :: (BigEndian.encode 8 tsMs.toNat ++ UInt8.ofNat (Utf8.bytes exchange).length ::
      (Utf8.bytes exchange ++ payload))).length = 10 + (Utf8.bytes exchange).length + payload.length := by
    simp only [List.length_cons, List.length_append, BigEndian.length_encode]
    omega
  refine ⟨_, hframe, ?_⟩
  rw [hlen, List.append_nil, hbody] at hparse
  rw [← hparse]
  simp only [List.append_assoc, List.cons_append, List.nil_append]

theorem parseFrame_serializeUntraced {payload : Bytes} (hmax : 1 + payload.length ≤ 16777216) :
    ∃ frame, serializeUntraced payload = .ok frame ∧ parseFrame frame = .ok (.ok ⟨payload, none⟩) := by
  have hparse := parseFrame_complete (0x00 :: payload) [] (by simp) (by simp; omega)
  have hlen : ((0x00 : UInt8) :: payload).length = 1 + payload.length := by rw [List.length_cons, Nat.add_comm]
  refine ⟨_, serializeUntraced_eq (by omega), ?_⟩
  rw [hlen, List.append_nil, parseBody_untraced (by decide)] at hparse
  rw [← hparse, List.append_assoc]
  rfl

/-! ## Whole trace ids -/

/-- `{exchange}-{ts}-{seq}` -/
def traceIDOf (exchange ts seq : Bytes) : Bytes := exchange ++ 45 :: (ts ++ 45 :: seq)

/-- Fewer than three parts between `'-'`, or a second part with a byte that is no digit. -/
def MalformedTraceID (traceID : Bytes) : Prop :=
  traceID.count 45 < 2 ∨
    ∃ exchange ts seq, traceID = traceIDOf exchange ts seq ∧ 45 ∉ exchange ∧ 45 ∉ ts ∧ ∃ c ∈ ts, ¬ Decimal.IsDigit c

theorem splitN_of_notMem {sep : UInt8} {s : Bytes} (n : Nat) (h : sep ∉ s) : splitN sep (n + 1) s = [s] := by
  have hne : ∀ b ∈ s, (b != sep) = true := fun b hb => bne_iff_ne.mpr (fun he => h (he ▸ hb))
  have hdrop : s.dropWhile (· != sep) = [] := by
    rw [← List.append_nil s, List.dropWhile_append_of_pos hne]
    rfl
  cases n with
  | zero => rfl
  | succ n => rw [splitN, hdrop]

theorem splitN_traceIDOf {exchange ts : Bytes} (seq : Bytes) (hexchange : 45 ∉ exchange) (hts : 45 ∉ ts) :
    splitN 45 3 (traceIDOf exchange ts seq) = [exchange, ts, seq] := by
  rw [traceIDOf, splitN_append 45 1 _ _ hexchange, splitN_append 45 0 _ _ hts]
  rfl

theorem notMem_of_isDigit {ts : Bytes} (h : ∀ c ∈ ts, Decimal.IsDigit c) : 45 ∉ ts := fun hmem =>
  absurd (h 45 hmem) (by decide)

theorem parseTraceID_traceIDOf (now : UInt64) {exchange ts : Bytes} (seq : Bytes) (hexchange : 45 ∉ exchange)
    (hts : ∀ c ∈ ts, Decimal.IsDigit c) (hpos : 0 < Decimal.value ts) (hlt : Decimal.value ts < 2 ^ 64) :
    parseTraceID now (traceIDOf exchange ts seq) = .ok (exchange, UInt64.ofNat (Decimal.value ts)) := by
  have hvalue : parseMillis 0 ts = some (UInt64.ofNat (Decimal.value ts)) := by
    rw [parseMillis_eq_some hts]
    simp
  have hne : ¬ UInt64.ofNat (Decimal.value ts) = 0 := by
    rw [← UInt64.toNat_inj, UInt64.toNat_ofNat', Nat.mod_eq_of_lt hlt]
    exact Nat.pos_iff_ne_zero.mp hpos
  rw [parseTraceID, splitN_traceIDOf seq hexchange (notMem_of_isDigit hts)]
  simp only [hvalue, if_neg hne]

theorem parseTraceID_malformed (now : UInt64) {traceID : Bytes} (h : MalformedTraceID traceID) :
    ∃ err, parseTraceID now traceID = .error err := by
  rcases h with hcount | ⟨exchange, ts, seq, rfl, hexchange, hts, hbad⟩
  · refine ⟨.format traceID, ?_⟩
    by_cases hmem : 45 ∈ traceID
    · obtain ⟨front, back, rfl, hfront⟩ := List.eq_append_cons_of_mem hmem
      have hback : 45 ∉ back := by
        rw [← List.count_eq_zero]
        rw [List.count_append, List.count_cons_self] at hcount
        omega
      rw [parseTraceID, splitN_append 45 1 _ _ hfront, splitN_of_notMem 1 hback]
    · rw [parseTraceID, splitN_of_notMem 2 hmem]
  · refine ⟨.timestamp ts (traceIDOf exchange ts seq), ?_⟩
    rw [parseTraceID, splitN_traceIDOf seq hexchange hts]
    simp only [parseMillis_eq_none hbad]

/-- A frame whose trace id is empty or malformed is the frame without trace. -/
theorem serializeFrameTraced_malformed (now : UInt64) (payload : Bytes) {traceID : Bytes}
    (h : traceID = [] ∨ MalformedTraceID traceID) :
    serializeFrameTraced now payload traceID = serializeUntraced payload := by
  unfold serializeFrameTraced
  split_ifs with hnil
  · rfl
  · obtain ⟨err, herr⟩ := parseTraceID_malformed now (h.resolve_left hnil)
    rw [herr]

/-- **The traced format round-trips**: payload, timestamp and exchange for a well-formed trace id, the payload alone
for an empty or malformed one. -/
theorem traced_roundtrip (now : UInt64) (payload : Bytes) :
    (∀ (exchange : String) (ts seq : Bytes), 45 ∉ Utf8.bytes exchange → (Utf8.bytes exchange).length ≤ 32 →
      (∀ c ∈ ts, Decimal.IsDigit c) → 0 < Decimal.value ts → Decimal.value ts < 2 ^ 64 →
      10 + (Utf8.bytes exchange).length + payload.length ≤ 16777216 →
      ∃ frame, serializeFrameTraced now payload (traceIDOf (Utf8.bytes exchange) ts seq) = .ok frame ∧
        parseFrame frame = .ok (.ok ⟨payload, some ⟨UInt64.ofNat (Decimal.value ts), exchange⟩⟩)) ∧
    (∀ traceID, traceID = [] ∨ MalformedTraceID traceID → 1 + payload.length ≤ 16777216 →
      ∃ frame, serializeFrameTraced now payload traceID = .ok frame ∧
        parseFrame frame = .ok (.ok ⟨payload, none⟩)) := by
  constructor
  · intro exchange ts seq hexchange htag hts hpos hlt hmax
    have hid := parseTraceID_traceIDOf now seq hexchange hts hpos hlt
    exact parseFrame_serializeFrameTraced (by simp [traceIDOf]) hid htag hmax
  · intro traceID h hmax
    rw [serializeFrameTraced_malformed now payload h]
    exact parseFrame_serializeUntraced hmax

/-- The trace id of a Bybit frame, and one without a sequence. -/
theorem traced_roundtrip_bybit :
    (∃ frame, serializeFrameTraced 0 [0x7B, 0x7D] (traceIDOf (Utf8.bytes "bybit") [49, 55, 56] [48, 49]) = .ok frame ∧
      parseFrame frame = .ok (.ok ⟨[0x7B, 0x7D], some ⟨178, "bybit"⟩⟩)) ∧
    (∃ frame, serializeFrameTraced 0 [0x7B, 0x7D] [98, 45, 49] = .ok frame ∧
      parseFrame frame = .ok (.ok ⟨[0x7B, 0x7D], none⟩)) :=
  ⟨(traced_roundtrip 0 [0x7B, 0x7D]).1 "bybit" [49, 55, 56] [48, 49] (by decide) (by decide)
      (by simp [Decimal.IsDigit]) (by decide) (by decide) (by decide),
    (traced_roundtrip 0 [0x7B, 0x7D]).2 [98, 45, 49] (Or.inr (Or.inl (by decide))) (by decide)⟩

/-! ## Frames without a flags byte -/

theorem parseTraced_isSome {rest : Bytes} {parsed : ParsedFrame} (h : parseTraced rest = .ok parsed) :
    parsed.trace.isSome := by
  unfold parseTraced at h
  split_ifs at h
  split at h
  · cases h
  · split_ifs at h
    split at h
    · cases h
    · exact Except.ok.inj h ▸ rfl

/-- The body of a frame is never its own payload without trace: its first byte is read as flags. -/
theorem parseBody_ne (payload : Bytes) : parseBody payload ≠ .ok ⟨payload, none⟩ := by
  cases payload with
  | nil => simp [parseBody]
  | cons flags rest =>
    intro h
    rw [parseBody] at h
    split_ifs at h
    · have hpayload := congrArg (fun p : ParsedFrame => p.payload.length) (Except.ok.inj h)
      simp at hpayload
    · exact absurd (parseTraced_isSome h) (by simp)

theorem parseFrame_serializeFrame_ne {payload frame : Bytes} (hne : payload ≠ [])
    (hmax : payload.length ≤ Writer.maxFrameSize) (hframe : serializeFrame payload = .ok frame) :
    parseFrame frame ≠ .ok (.ok ⟨payload, none⟩) := by
  have hmax' : payload.length ≤ 16777216 := hmax
  rw [serializeFrame_eq (by omega)] at hframe
  obtain rfl := Except.ok.inj hframe
  have hparse := parseFrame_complete payload [] (List.length_pos_iff.mpr hne) hmax'
  rw [List.append_nil] at hparse
  rw [hparse]
  exact fun h => parseBody_ne payload (Except.ok.inj h)

namespace Writer

/-- A call that has not failed carries the frame of its request, and has enqueued it once it has returned nil. -/
def CallOk (w : Writer) (c : Call) : Prop :=
  (∀ err, c.state ≠ .returned (some err)) →
    c.request.frame = .ok (.ok c.frame) ∧ (c.state = .returned none → c.frame ∈ w.accepted)

theorem callOk_mono {w w' : Writer} {c : Call} (haccepted : w.accepted ⊆ w'.accepted) (h : w.CallOk c) :
    w'.CallOk c := fun hok => ⟨(h hok).1, fun hnil => haccepted ((h hok).2 hnil)⟩

theorem callOk_set {w w' : Writer} {k : Nat} {c c' : Call} (hw : ∀ c ∈ w.calls, w.CallOk c)
    (hcalls : w'.calls = w.calls.set k c') (haccepted : w.accepted ⊆ w'.accepted) (hc : w.calls[k]? = some c)
    (hc' : w.CallOk c → w'.CallOk c') : ∀ c ∈ w'.calls, w'.CallOk c := by
  intro d hd
  rw [hcalls] at hd
  rcases List.mem_or_eq_of_mem_set hd with hold | rfl
  · exact callOk_mono haccepted (hw d hold)
  · exact hc' (hw c (List.mem_of_getElem? hc))

theorem callOk_step {w w' : Writer} {e : Event} (hw : ∀ c ∈ w.calls, w.CallOk c) (h : w.step e = some w') :
    ∀ c ∈ w'.calls, w'.CallOk c := by
  cases e with
  | call request =>
    obtain ⟨c, rfl, rfl, hstate⟩ := call_cases h
    intro d hd
    rcases List.mem_append.mp hd with hold | hnew
    · exact callOk_mono (fun _ hf => hf) (hw d hold)
    · obtain rfl := List.mem_singleton.mp hnew
      intro hok
      rcases hstate with ⟨err, herr, -⟩ | ⟨hsending, hframe⟩
      · exact absurd herr (hok err)
      · exact ⟨hframe, fun hnil => by rw [hsending] at hnil; cases hnil⟩
  | select k =>
    obtain ⟨c, hc, hcases⟩ := select_cases h
    obtain ⟨hstate, -, rfl⟩ | ⟨hstate, -, rfl⟩ | ⟨hstate, oldest, rest, -, rfl⟩ | ⟨hstate, -, rfl⟩ |
      ⟨-, -, rfl⟩ := hcases
    · refine callOk_set hw rfl (List.subset_append_left _ _) hc fun hcall _ => ⟨?_, fun _ => ?_⟩
      · exact (hcall fun err => by rcases hstate with hs | hs <;> rw [hs] <;> simp).1
      · exact List.mem_append_right _ (List.mem_singleton.mpr rfl)
    · exact callOk_set hw rfl (fun _ hf => hf) hc fun hcall _ =>
        ⟨(hcall fun err => by rw [hstate]; simp).1, fun hnil => by simp at hnil⟩
    · exact callOk_set hw rfl (fun _ hf => hf) hc fun hcall _ =>
        ⟨(hcall fun err => by rw [hstate]; simp).1, fun hnil => by simp at hnil⟩
    · exact callOk_set hw rfl (fun _ hf => hf) hc fun hcall _ =>
        ⟨(hcall fun err => by rw [hstate]; simp).1, fun hnil => by simp at hnil⟩
    · exact callOk_set hw rfl (fun _ hf => hf) hc fun _ hok => absurd rfl (hok _)
  | connect =>
    obtain ⟨-, rfl⟩ := connect_cases h
    exact hw
  | take i =>
    obtain ⟨frame, rest, -, -, rfl⟩ := take_cases h
    exact hw
  | aim i =>
    obtain ⟨frame, -, rfl | ⟨conn, rfl⟩⟩ := aim_cases h
    all_goals exact hw
  | put i n err =>
    obtain ⟨frame, conn, -, -, rfl⟩ := put_cases h
    exact hw
  | exit i =>
    obtain ⟨-, -, rfl⟩ := exit_cases h
    exact hw
  | close =>
    obtain rfl := Option.some.inj h
    exact hw

/-- **`Write` is never read back**: in every run, the frame that a `Write` enqueued is the serialized payload, and
`parseFrame` does not give the payload back. -/
theorem write_misread {es : List Event} {w : Writer} (h : Run.exec step newWriter es = some w) {c : Call}
    {payload : Bytes} (hc : c ∈ w.calls) (hrequest : c.request = .write payload) (hnil : c.state = .returned none) :
    c.frame ∈ w.accepted ∧ serializeFrame payload = .ok c.frame ∧
      parseFrame c.frame ≠ .ok (.ok ⟨payload, none⟩) := by
  have hcalls := Run.exec_invariant (fun w => ∀ c ∈ w.calls, CallOk w c)
    (fun _ _ _ hw hstep => callOk_step hw hstep) (fun c hc => absurd hc List.not_mem_nil) h
  obtain ⟨hframe, haccepted⟩ := hcalls c hc fun err => by rw [hnil]; simp
  refine ⟨haccepted hnil, ?_⟩
  rw [hrequest] at hframe
  obtain ⟨hne, hmax, hserialize⟩ := Request.frame_write_iff.mp hframe
  exact ⟨hserialize, parseFrame_serializeFrame_ne hne hmax hserialize⟩

theorem write_misread_object : ([0, 0, 0, 2, 0x7B, 0x7D] : Bytes) ∈ ([[0, 0, 0, 2, 0x7B, 0x7D]] : List Bytes) ∧
    serializeFrame [0x7B, 0x7D] = .ok [0, 0, 0, 2, 0x7B, 0x7D] ∧
    parseFrame [0, 0, 0, 2, 0x7B, 0x7D] ≠ .ok (.ok ⟨[0x7B, 0x7D], none⟩) :=
  @write_misread [.call (.write [0x7B, 0x7D]), .select 0] _ rfl
    ⟨.write [0x7B, 0x7D], [0, 0, 0, 2, 0x7B, 0x7D], .returned none⟩ [0x7B, 0x7D] List.mem_cons_self rfl rfl

/-- The frame of `{}` is taken for a traced frame and rejected. -/
theorem write_object_rejected : ¬ ∀ payload frame : Bytes, (Request.write payload).frame = .ok (.ok frame) →
    parseFrame frame = .ok (.ok ⟨payload, none⟩) := by
  intro h
  have hread := h [0x7B, 0x7D] [0, 0, 0, 2, 0x7B, 0x7D] rfl
  have hrejected : parseFrame [0, 0, 0, 2, 0x7B, 0x7D] = .ok (.error .truncatedTraceTimestamp) := rfl
  rw [hrejected] at hread
  cases hread

end Writer

end Atlas.Ipc
