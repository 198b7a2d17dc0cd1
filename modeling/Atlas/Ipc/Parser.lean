import Atlas.Ipc.Frame
import Atlas.Lib.Utf8

/-!
# The reading side of the IPC framing: `core_engine/market_data/src/ipc_parser.rs`

`parseFrame` reads one frame: length header, flags byte, the trace fields when bit 0 of the flags is set, payload.

* `parseBody` : what is read off the bytes behind the header once they are all there;
* `parseFrame_complete` : on a complete frame `parseFrame` is `parseBody`, whatever follows the frame;
* `parseFrame_isOk` : no index or slice expression of `parseFrame` is out of range.
-/

namespace Atlas.Ipc
open Checked

/-- Trace metadata extracted from IPC frame header. -/
structure TraceInfo where
  timestampMs : UInt64
  exchangeTag : String
  deriving DecidableEq, Repr

/-- Parsed result from an IPC frame: the payload, and trace metadata if flags bit 0 = 1. -/
structure ParsedFrame where
  payload : Bytes
  trace : Option TraceInfo
  deriving DecidableEq, Repr

inductive IpcParseError
  /-- truncated header: got {got} bytes, need minimum 4 -/
  | truncatedHeader (got : Nat)
  /-- zero_length_payload: REJECTED per spec -/
  | zeroLengthPayload
  /-- oversized_payload: {size} bytes exceeds max 16777216 -/
  | oversizedPayload (size : UInt32)
  /-- truncated_payload: header says {expected} bytes but only {available} available after header -/
  | truncatedPayload (expected : UInt32) (available : Nat)
  /-- truncated_trace_flags: payload too short for flags byte -/
  | truncatedTraceFlags
  /-- truncated_trace_timestamp: payload too short for 8-byte timestamp after flags -/
  | truncatedTraceTimestamp
  /-- truncated_trace_tag_length: payload too short for tag length byte -/
  | truncatedTraceTagLength
  /-- truncated_trace_tag: tag_length says {expected} bytes but only {available} available -/
  | truncatedTraceTag (expected available : Nat)
  /-- trace_tag_too_long: {length} bytes exceeds max 32 -/
  | traceTagTooLong (length : Nat)
  /-- invalid_utf8_in_exchange_tag -/
  | invalidUtf8InExchangeTag
  deriving DecidableEq, Repr

/-- 16 MB -/
def maxFrameSize : UInt32 := 16777216

/-- `u32::from_be_bytes` -/
def u32FromBeBytes (bs : Bytes) : UInt32 := UInt32.ofNat (BigEndian.decode bs)

/-- `u64::from_be_bytes` -/
def u64FromBeBytes (bs : Bytes) : UInt64 := UInt64.ofNat (BigEndian.decode bs)

def parseFrame (raw : Bytes) : Except Panic (Except IpcParseError ParsedFrame) := do
  if raw.length < 4 then return .error (.truncatedHeader raw.length)
  let totalLength := u32FromBeBytes [← index raw 0, ← index raw 1, ← index raw 2, ← index raw 3]
  if totalLength = 0 then return .error .zeroLengthPayload
  if totalLength > maxFrameSize then return .error (.oversizedPayload totalLength)
  let expectedTotal := 4 + totalLength.toNat
  if raw.length < expectedTotal then return .error (.truncatedPayload totalLength (raw.length - 4))
  let afterHeader ← slice raw 4 expectedTotal
  if afterHeader.isEmpty then return .error .truncatedTraceFlags
  let flags ← index afterHeader 0
  if flags &&& flagTracePresent = 0 then
    return .ok { payload := ← sliceFrom afterHeader 1, trace := none }
  if afterHeader.length < 1 + 8 then return .error .truncatedTraceTimestamp
  let timestampMs := u64FromBeBytes [← index afterHeader 1, ← index afterHeader 2, ← index afterHeader 3,
    ← index afterHeader 4, ← index afterHeader 5, ← index afterHeader 6, ← index afterHeader 7,
    ← index afterHeader 8]
  if afterHeader.length < 1 + 8 + 1 then return .error .truncatedTraceTagLength
  let tagLen := (← index afterHeader 9).toNat
  if tagLen > maxExchangeTag then return .error (.traceTagTooLong tagLen)
  if afterHeader.length < 1 + 8 + 1 + tagLen then
    return .error (.truncatedTraceTag tagLen (afterHeader.length - (1 + 8 + 1)))
  let tagBytes ← slice afterHeader 10 (10 + tagLen)
  match Utf8.fromUtf8 tagBytes with
  | none => return .error .invalidUtf8InExchangeTag
  | some exchangeTag =>
    let payloadStart := 1 + 8 + 1 + tagLen
    let payload ← sliceFrom afterHeader payloadStart
    return .ok { payload, trace := some { timestampMs, exchangeTag } }

/-! ## The bytes behind the header -/

/-- What `parseFrame` reads behind a set trace flag. -/
def parseTraced (rest : Bytes) : Except IpcParseError ParsedFrame :=
  if rest.length < 8 then .error .truncatedTraceTimestamp
  else match rest.drop 8 with
    | [] => .error .truncatedTraceTagLength
    | tagLen :: rest' =>
      if tagLen.toNat > maxExchangeTag then .error (.traceTagTooLong tagLen.toNat)
      else if rest'.length < tagLen.toNat then .error (.truncatedTraceTag tagLen.toNat rest'.length)
      else match Utf8.fromUtf8 (rest'.take tagLen.toNat) with
        | none => .error .invalidUtf8InExchangeTag
        | some exchangeTag =>
          .ok ⟨rest'.drop tagLen.toNat, some ⟨u64FromBeBytes (rest.take 8), exchangeTag⟩⟩

/-- What `parseFrame` makes of the bytes behind the header, once they are all there. -/
def parseBody : Bytes → Except IpcParseError ParsedFrame
  | [] => .error .truncatedTraceFlags
  | flags :: rest => if flags &&& flagTracePresent = 0 then .ok ⟨rest, none⟩ else parseTraced rest

theorem exists_cons8 {rest : Bytes} (h : 8 ≤ rest.length) :
    ∃ t0 t1 t2 t3 t4 t5 t6 t7 more, rest = t0 :: t1 :: t2 :: t3 :: t4 :: t5 :: t6 :: t7 :: more := by
  match rest, h with
  | t0 :: t1 :: t2 :: t3 :: t4 :: t5 :: t6 :: t7 :: more, _ => exact ⟨t0, t1, t2, t3, t4, t5, t6, t7, more, rfl⟩

/-- `parseFrame` behind the checks on the header. -/
theorem parseFrame_cons {b0 b1 b2 b3 : UInt8} (rest : Bytes) {n : Nat}
    (hn : (u32FromBeBytes [b0, b1, b2, b3]).toNat = n) (h1 : 1 ≤ n) (hmax : n ≤ 16777216) (hrest : n ≤ rest.length) :
    parseFrame (b0 :: b1 :: b2 :: b3 :: rest) = .ok (parseBody (rest.take n)) := by
  have hzero : ¬ u32FromBeBytes [b0, b1, b2, b3] = 0 := by
    intro h
    rw [h] at hn
    simp at hn
    omega
  have hsize : ¬ u32FromBeBytes [b0, b1, b2, b3] > maxFrameSize := by
    rw [gt_iff_lt, UInt32.lt_iff_toNat_lt, hn]
    exact Nat.not_lt.mpr hmax
  have hslice : slice (b0 :: b1 :: b2 :: b3 :: rest) 4 (4 + n) = .ok (rest.take n) := by
    rw [slice_of_le (by omega) (by simp; omega), Nat.add_comm 4 n]
    rfl
  have hheader : ¬ (b0 :: b1 :: b2 :: b3 :: rest).length < 4 := by simp
  have hlen : ¬ (b0 :: b1 :: b2 :: b3 :: rest).length < 4 + n := by simp; omega
  have hbody : (rest.take n).length = n := by simp [hrest]
  unfold parseFrame
  rw [if_neg hheader]
  simp only [index, List.getElem?_cons_zero, List.getElem?_cons_succ, ok_bind, if_neg hzero, if_neg hsize, hn,
    if_neg hlen, hslice]
  cases hb : rest.take n with
  | nil => rw [hb] at hbody; simp at hbody; omega
  | cons flags body =>
    rw [List.isEmpty_cons, if_neg Bool.false_ne_true]
    simp only [List.getElem?_cons_zero, ok_bind, parseBody]
    by_cases hflag : flags &&& flagTracePresent = 0
    · rw [if_pos hflag, if_pos hflag, sliceFrom_of_le (by simp)]
      rfl
    rw [if_neg hflag, if_neg hflag]
    unfold parseTraced
    by_cases hts : body.length < 8
    · rw [if_pos (by simp; omega), if_pos hts]
      rfl
    rw [if_neg (by simp; omega), if_neg hts]
    obtain ⟨t0, t1, t2, t3, t4, t5, t6, t7, more, rfl⟩ := exists_cons8 (Nat.not_lt.mp hts)
    simp only [List.getElem?_cons_zero, List.getElem?_cons_succ, ok_bind, List.drop_succ_cons, List.drop_zero,
      List.take_succ_cons, List.take_zero]
    cases more with
    | nil => rfl
    | cons tagLen tail =>
      rw [if_neg (by simp)]
      simp only [List.getElem?_cons_zero, ok_bind]
      by_cases htag : tagLen.toNat > maxExchangeTag
      · rw [if_pos htag, if_pos htag]
        rfl
      rw [if_neg htag, if_neg htag]
      by_cases hshort : tail.length < tagLen.toNat
      · rw [if_pos (by simp; omega), if_pos hshort]
        simp [pure, Except.pure]
      rw [if_neg (by simp; omega), if_neg hshort, slice_of_le (by omega) (by simp; omega), ok_bind,
        Nat.add_comm 10 tagLen.toNat]
      simp only [List.take_succ_cons, List.drop_succ_cons, List.drop_zero]
      cases Utf8.fromUtf8 (tail.take tagLen.toNat) with
      | none => rfl
      | some exchangeTag =>
        simp only
        rw [sliceFrom_of_le (by simp; omega), ok_bind]
        simp only [List.drop_succ_cons]
        rfl

theorem exists_header (n : Nat) : ∃ b0 b1 b2 b3, lengthHeader n = [b0, b1, b2, b3] :=
  List.length_eq_four.mp (length_lengthHeader n)

theorem toNat_header {n : Nat} (h : n < 2 ^ 32) : (u32FromBeBytes (lengthHeader n)).toNat = n := by
  rw [u32FromBeBytes, lengthHeader, BigEndian.decode_encode (by simpa using h), toNat_uint32 h]

/-- **A complete frame** is read as its body, whatever bytes follow. -/
theorem parseFrame_complete (body tail : Bytes) (h1 : 1 ≤ body.length) (hmax : body.length ≤ 16777216) :
    parseFrame (lengthHeader body.length ++ body ++ tail) = .ok (parseBody body) := by
  obtain ⟨b0, b1, b2, b3, hb⟩ := exists_header body.length
  have hn : (u32FromBeBytes [b0, b1, b2, b3]).toNat = body.length := hb ▸ toNat_header (by omega)
  have hbody := parseFrame_cons (body ++ tail) hn h1 hmax (by simp)
  rw [List.take_left] at hbody
  rw [hb, List.append_assoc]
  exact hbody

/-- Four bytes at least, or an error for the header. -/
theorem parseFrame_short {raw : Bytes} (h : raw.length < 4) :
    parseFrame raw = .ok (.error (.truncatedHeader raw.length)) := by
  rw [parseFrame, if_pos h]
  rfl

theorem exists_cons4 {raw : Bytes} (h : 4 ≤ raw.length) : ∃ b0 b1 b2 b3 rest, raw = b0 :: b1 :: b2 :: b3 :: rest := by
  match raw, h with
  | b0 :: b1 :: b2 :: b3 :: rest, _ => exact ⟨b0, b1, b2, b3, rest, rfl⟩

/-- The checks on the header, in their order. -/
theorem parseFrame_header {b0 b1 b2 b3 : UInt8} (rest : Bytes) {total : UInt32}
    (htotal : u32FromBeBytes [b0, b1, b2, b3] = total) :
    parseFrame (b0 :: b1 :: b2 :: b3 :: rest) = .ok (
      if total = 0 then .error .zeroLengthPayload
      else if total > maxFrameSize then .error (.oversizedPayload total)
      else if rest.length < total.toNat then .error (.truncatedPayload total rest.length)
      else parseBody (rest.take total.toNat)) := by
  have hlen : ∀ n, (b0 :: b1 :: b2 :: b3 :: rest).length < 4 + n ↔ rest.length < n := by
    intro n
    simp only [List.length_cons]
    omega
  by_cases hcomplete : total ≠ 0 ∧ ¬ total > maxFrameSize ∧ ¬ rest.length < total.toNat
  · obtain ⟨hzero, hsize, hrest⟩ := hcomplete
    have hpos : 1 ≤ total.toNat := by
      rw [Ne, ← UInt32.toNat_inj, UInt32.toNat_zero] at hzero
      omega
    have hmax : total.toNat ≤ 16777216 := by
      rw [gt_iff_lt, UInt32.lt_iff_toNat_lt] at hsize
      exact Nat.not_lt.mp hsize
    rw [if_neg hzero, if_neg hsize, if_neg hrest]
    exact parseFrame_cons rest (congrArg UInt32.toNat htotal) hpos hmax (Nat.not_lt.mp hrest)
  unfold parseFrame
  rw [if_neg (by simp)]
  simp only [index, List.getElem?_cons_zero, List.getElem?_cons_succ, ok_bind, htotal, hlen]
  by_cases hzero : total = 0
  · rw [if_pos hzero, if_pos hzero]
    rfl
  rw [if_neg hzero, if_neg hzero]
  by_cases hsize : total > maxFrameSize
  · rw [if_pos hsize, if_pos hsize]
    rfl
  rw [if_neg hsize, if_neg hsize]
  have hrest : rest.length < total.toNat := by
    by_contra hrest
    exact hcomplete ⟨hzero, hsize, hrest⟩
  rw [if_pos hrest, if_pos hrest]
  rfl

theorem parseFrame_oversized {n : Nat} (rest : Bytes) (hn : n < 2 ^ 32) (h : 16777216 < n) :
    parseFrame (lengthHeader n ++ rest) = .ok (.error (.oversizedPayload (UInt32.ofNat n))) := by
  obtain ⟨b0, b1, b2, b3, hb⟩ := exists_header n
  have htotal : u32FromBeBytes [b0, b1, b2, b3] = UInt32.ofNat n := by
    rw [← UInt32.toNat_inj, ← hb, toNat_header hn, toNat_uint32 hn]
  have hzero : ¬ UInt32.ofNat n = 0 := by
    rw [← UInt32.toNat_inj, toNat_uint32 hn]
    exact Nat.ne_of_gt (Nat.lt_of_le_of_lt (Nat.zero_le _) h)
  have hsize : UInt32.ofNat n > maxFrameSize := by
    rw [gt_iff_lt, UInt32.lt_iff_toNat_lt, toNat_uint32 hn]
    exact h
  have hheader := parseFrame_header rest htotal
  rw [if_neg hzero, if_pos hsize] at hheader
  rw [hb]
  exact hheader

/-- A frame that is accepted is accepted for its body. -/
theorem parseBody_of_parseFrame {body : Bytes} {parsed : ParsedFrame} (hlt : body.length < 2 ^ 32)
    (h : parseFrame (lengthHeader body.length ++ body) = .ok (.ok parsed)) : parseBody body = .ok parsed := by
  by_cases hzero : body.length = 0
  · rw [List.eq_nil_of_length_eq_zero hzero] at h
    cases h
  by_cases hmax : 16777216 < body.length
  · rw [parseFrame_oversized body hlt hmax] at h
    cases h
  have hcomplete := parseFrame_complete body [] (by omega) (by omega)
  rw [List.append_nil, h] at hcomplete
  exact (Except.ok.inj hcomplete).symm

/-- **No bounds check of `parseFrame` fails**, on any input. -/
theorem parseFrame_isOk (raw : Bytes) : ∃ r, parseFrame raw = .ok r := by
  by_cases hshort : raw.length < 4
  · exact ⟨_, parseFrame_short hshort⟩
  · obtain ⟨b0, b1, b2, b3, rest, rfl⟩ := exists_cons4 (Nat.not_lt.mp hshort)
    exact ⟨_, parseFrame_header rest rfl⟩

/-! ## The two kinds of body -/

theorem parseBody_untraced {flags : UInt8} {payload : Bytes} (h : flags &&& flagTracePresent = 0) :
    parseBody (flags :: payload) = .ok ⟨payload, none⟩ := if_pos h

theorem parseBody_tag {flags : UInt8} (ts : UInt64) (tag payload : Bytes)
    (hflags : ¬ flags &&& flagTracePresent = 0) (htag : tag.length ≤ maxExchangeTag) :
    parseBody (flags :: (BigEndian.encode 8 ts.toNat ++ UInt8.ofNat tag.length :: (tag ++ payload))) =
      match Utf8.fromUtf8 tag with
      | none => .error .invalidUtf8InExchangeTag
      | some exchangeTag => .ok ⟨payload, some ⟨ts, exchangeTag⟩⟩ := by
  have hlen : (UInt8.ofNat tag.length).toNat = tag.length := by
    rw [UInt8.toNat_ofNat', Nat.mod_eq_of_lt (by unfold maxExchangeTag at htag; omega)]
  have hts : u64FromBeBytes (BigEndian.encode 8 ts.toNat) = ts := by
    rw [u64FromBeBytes, BigEndian.decode_encode (by simpa using ts.toNat_lt), UInt64.ofNat_toNat]
  rw [parseBody, if_neg hflags, parseTraced, if_neg (by simp),
    List.drop_left' (BigEndian.length_encode 8 _), List.take_left' (BigEndian.length_encode 8 _)]
  simp only [hlen]
  rw [if_neg (by omega), if_neg (by simp), List.take_left, List.drop_left, hts]

theorem parseBody_traced {flags : UInt8} (ts : UInt64) (tag : String) (payload : Bytes)
    (hflags : ¬ flags &&& flagTracePresent = 0) (htag : (Utf8.bytes tag).length ≤ maxExchangeTag) :
    parseBody (flags :: (BigEndian.encode 8 ts.toNat ++ UInt8.ofNat (Utf8.bytes tag).length ::
      (Utf8.bytes tag ++ payload))) = .ok ⟨payload, some ⟨ts, tag⟩⟩ := by
  rw [parseBody_tag ts _ payload hflags htag, Utf8.fromUtf8_bytes]

end Atlas.Ipc
