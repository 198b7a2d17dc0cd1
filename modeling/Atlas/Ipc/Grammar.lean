import Atlas.Ipc.Parser
import Mathlib.Data.List.GetD

/-!
# The grammar of `parseFrame`

* `InGrammar` : the byte strings that begin with a frame of spec v1.1;
* `ParsedFrame.encode` : the frame of spec v1.1 for a payload and its trace;
* `parseFrame_isOk_iff`, `parseFrame_take`, `encode_of_parseFrame` : what is accepted, what the result depends on,
  and what the result gives back.
-/

namespace Atlas.Ipc
open Checked

/-- The length in the header. -/
def announced (raw : Bytes) : Nat := BigEndian.decode (raw.take 4)

/-- The flags byte. -/
def flagsByte (raw : Bytes) : UInt8 := raw.getD 4 0

/-- The tag length behind flags and timestamp. -/
def tagLength (raw : Bytes) : Nat := (raw.getD 13 0).toNat

def tagBytes (raw : Bytes) : Bytes := (raw.drop 14).take (tagLength raw)

/-- A complete frame of 1 to 16777216 bytes behind its header and, where bit 0 of the flags is set, with a timestamp
and a tag of at most 32 bytes of UTF-8. -/
structure InGrammar (raw : Bytes) : Prop where
  header : 4 ≤ raw.length
  nonempty : 1 ≤ announced raw
  bounded : announced raw ≤ 16777216
  complete : 4 + announced raw ≤ raw.length
  traced : flagsByte raw &&& flagTracePresent = 0 ∨ 10 ≤ announced raw ∧ tagLength raw ≤ 32 ∧
    10 + tagLength raw ≤ announced raw ∧ Utf8.Valid (tagBytes raw)

/-- The v1.1 layout. -/
def ParsedFrame.encode (parsed : ParsedFrame) : Bytes :=
  match parsed.trace with
  | none => lengthHeader (1 + parsed.payload.length) ++ [0x00] ++ parsed.payload
  | some trace =>
    lengthHeader (10 + (Utf8.bytes trace.exchangeTag).length + parsed.payload.length) ++ [flagTracePresent] ++
      BigEndian.encode 8 trace.timestampMs.toNat ++ [UInt8.ofNat (Utf8.bytes trace.exchangeTag).length] ++
      Utf8.bytes trace.exchangeTag ++ parsed.payload

/-! ## Bodies -/

/-- A trace is read off its eight bytes of timestamp, its tag length, its tag and the payload. -/
theorem parseTraced_ok_iff {rest : Bytes} {parsed : ParsedFrame} : parseTraced rest = .ok parsed ↔
    ∃ ts tag, ts.length = 8 ∧ (Utf8.bytes tag).length ≤ 32 ∧
      rest = ts ++ UInt8.ofNat (Utf8.bytes tag).length :: (Utf8.bytes tag ++ parsed.payload) ∧
      parsed.trace = some ⟨u64FromBeBytes ts, tag⟩ := by
  constructor
  · intro h
    unfold parseTraced at h
    split_ifs at h with hts
    split at h
    · cases h
    rename_i tagLen rest' hdrop
    split_ifs at h with htag hshort
    split at h
    · cases h
    rename_i tag hutf8
    obtain rfl := Except.ok.inj h
    have hbytes : Utf8.bytes tag = rest'.take tagLen.toNat := Utf8.bytes_of_fromUtf8 hutf8
    have hlen : (Utf8.bytes tag).length = tagLen.toNat := by
      rw [hbytes, List.length_take]
      omega
    refine ⟨rest.take 8, tag, by rw [List.length_take]; omega, ?_, ?_, rfl⟩
    · rw [hlen]
      exact Nat.not_lt.mp htag
    · rw [hlen, UInt8.ofNat_toNat, hbytes, List.take_append_drop, ← hdrop, List.take_append_drop]
  · obtain ⟨payload, trace⟩ := parsed
    rintro ⟨ts, tag, hts, htag, rfl, rfl⟩
    have hlen : (UInt8.ofNat (Utf8.bytes tag).length).toNat = (Utf8.bytes tag).length := by
      rw [UInt8.toNat_ofNat', Nat.mod_eq_of_lt (by omega)]
    rw [parseTraced, if_neg (by rw [List.length_append]; omega), List.drop_left' hts, List.take_left' hts]
    simp only [hlen]
    rw [if_neg (show ¬ _ > maxExchangeTag from Nat.not_lt.mpr htag), if_neg (by simp), List.take_left, List.drop_left,
      Utf8.fromUtf8_bytes]

theorem parseBody_isOk_iff (flags : UInt8) (rest : Bytes) : (∃ parsed, parseBody (flags :: rest) = .ok parsed) ↔
    flags &&& flagTracePresent = 0 ∨ 9 ≤ rest.length ∧ (rest.getD 8 0).toNat ≤ 32 ∧
      9 + (rest.getD 8 0).toNat ≤ rest.length ∧ Utf8.Valid ((rest.drop 9).take (rest.getD 8 0).toNat) := by
  by_cases hflags : flags &&& flagTracePresent = 0
  · exact ⟨fun _ => Or.inl hflags, fun _ => ⟨_, parseBody_untraced hflags⟩⟩
  rw [or_iff_right hflags, parseBody, if_neg hflags]
  constructor
  · rintro ⟨parsed, h⟩
    obtain ⟨ts, tag, hts, htag, rfl, -⟩ := parseTraced_ok_iff.mp h
    have hlen : (UInt8.ofNat (Utf8.bytes tag).length).toNat = (Utf8.bytes tag).length := by
      rw [UInt8.toNat_ofNat', Nat.mod_eq_of_lt (by omega)]
    have hget : (ts ++ UInt8.ofNat (Utf8.bytes tag).length :: (Utf8.bytes tag ++ parsed.payload)).getD 8 0 =
        UInt8.ofNat (Utf8.bytes tag).length := by
      rw [List.getD_append_right _ _ _ _ (by omega), hts]
      rfl
    have hdrop : (ts ++ UInt8.ofNat (Utf8.bytes tag).length :: (Utf8.bytes tag ++ parsed.payload)).drop 9 =
        Utf8.bytes tag ++ parsed.payload := by
      rw [List.drop_append, hts, List.drop_eq_nil_of_le (by omega)]
      rfl
    rw [hget, hdrop, hlen, List.take_left]
    refine ⟨?_, htag, ?_, Utf8.valid_bytes tag⟩
    all_goals
      simp only [List.length_append, List.length_cons]
      omega
  · rintro ⟨hlen, htag, hroom, hvalid⟩
    obtain ⟨tag, hbytes⟩ := Utf8.exists_bytes_of_valid hvalid
    have htaglen : (Utf8.bytes tag).length = (rest.getD 8 0).toNat := by
      rw [hbytes, List.length_take, List.length_drop]
      omega
    have hget : rest.drop 8 = rest.getD 8 0 :: rest.drop 9 := by
      rw [List.drop_eq_getElem_cons (by omega), List.getD_eq_getElem _ _ (by omega)]
    refine ⟨⟨(rest.drop 9).drop (rest.getD 8 0).toNat, some ⟨u64FromBeBytes (rest.take 8), tag⟩⟩,
      parseTraced_ok_iff.mpr ⟨rest.take 8, tag, ?_, ?_, ?_, rfl⟩⟩
    · rw [List.length_take]
      omega
    · rw [htaglen]
      exact htag
    · rw [htaglen, UInt8.ofNat_toNat, hbytes, List.take_append_drop, ← hget, List.take_append_drop]

/-- A body with plain flags is given back by what was read off it. -/
theorem encode_of_parseBody {body : Bytes} {parsed : ParsedFrame} (hflags : body.getD 0 0 = 0 ∨ body.getD 0 0 = 1)
    (h : parseBody body = .ok parsed) : parsed.encode = lengthHeader body.length ++ body := by
  cases body with
  | nil => cases h
  | cons flags rest =>
    rw [List.getD_cons_zero] at hflags
    rcases hflags with rfl | rfl
    · rw [parseBody_untraced (by decide)] at h
      obtain rfl := Except.ok.inj h
      rw [ParsedFrame.encode, List.length_cons, Nat.add_comm 1, List.append_assoc]
      rfl
    · rw [parseBody, if_neg (by decide)] at h
      obtain ⟨ts, tag, hts, htag, rfl, htrace⟩ := parseTraced_ok_iff.mp h
      have hencode : BigEndian.encode 8 (u64FromBeBytes ts).toNat = ts := by
        have hlt := BigEndian.decode_lt ts
        rw [hts] at hlt
        rw [u64FromBeBytes, UInt64.toNat_ofNat', Nat.mod_eq_of_lt (by simpa using hlt), ← hts,
          BigEndian.encode_decode]
      have hlen : ((1 : UInt8) :: (ts ++ UInt8.ofNat (Utf8.bytes tag).length ::
          (Utf8.bytes tag ++ parsed.payload))).length = 10 + (Utf8.bytes tag).length + parsed.payload.length := by
        simp only [List.length_cons, List.length_append, hts]
        omega
      rw [ParsedFrame.encode, htrace, hlen]
      simp only [hencode, List.append_assoc, List.cons_append, List.nil_append]
      rfl

/-! ## Frames -/

/-- Four bytes of header and the bytes behind them. -/
theorem exists_announced {raw : Bytes} (h : 4 ≤ raw.length) : ∃ b0 b1 b2 b3 rest, raw = b0 :: b1 :: b2 :: b3 :: rest ∧
    announced raw < 2 ^ 32 ∧ (u32FromBeBytes [b0, b1, b2, b3]).toNat = announced raw := by
  obtain ⟨b0, b1, b2, b3, rest, rfl⟩ := exists_cons4 h
  have hlt : BigEndian.decode [b0, b1, b2, b3] < 2 ^ 32 := by simpa using BigEndian.decode_lt [b0, b1, b2, b3]
  exact ⟨b0, b1, b2, b3, rest, rfl, hlt, toNat_uint32 hlt⟩

/-- Whatever lies behind the frame is not looked at. -/
theorem parseFrame_take {raw : Bytes} (h : 4 ≤ raw.length) :
    parseFrame (raw.take (4 + announced raw)) = parseFrame raw := by
  obtain ⟨b0, b1, b2, b3, rest, rfl, -, htotal⟩ := exists_announced h
  have htake : ∀ n, (b0 :: b1 :: b2 :: b3 :: rest).take (4 + n) = b0 :: b1 :: b2 :: b3 :: rest.take n := by
    intro n
    rw [Nat.add_comm]
    rfl
  rw [htake, ← htotal, parseFrame_header _ rfl, parseFrame_header rest rfl, List.take_take, Nat.min_self]
  by_cases hshort : rest.length < (u32FromBeBytes [b0, b1, b2, b3]).toNat
  · rw [List.take_of_length_le hshort.le]
  · have hfull : ¬ (rest.take (u32FromBeBytes [b0, b1, b2, b3]).toNat).length <
        (u32FromBeBytes [b0, b1, b2, b3]).toNat := by
      rw [List.length_take]
      omega
    rw [if_neg hshort, if_neg hfull]

/-- The trace fields of a body that is cut off a longer byte string. -/
theorem traced_take_iff (body : Bytes) (n : Nat) (hn : n ≤ body.length) :
    (9 ≤ (body.take n).length ∧ ((body.take n).getD 8 0).toNat ≤ 32 ∧
      9 + ((body.take n).getD 8 0).toNat ≤ (body.take n).length ∧
      Utf8.Valid (((body.take n).drop 9).take ((body.take n).getD 8 0).toNat)) ↔
    (9 ≤ n ∧ (body.getD 8 0).toNat ≤ 32 ∧ 9 + (body.getD 8 0).toNat ≤ n ∧
      Utf8.Valid ((body.drop 9).take (body.getD 8 0).toNat)) := by
  rw [List.length_take_of_le hn]
  apply and_congr_right
  intro h9
  have hget : (body.take n).getD 8 0 = body.getD 8 0 := by
    rw [List.getD_eq_getElem?_getD, List.getD_eq_getElem?_getD, List.getElem?_take_of_lt (by omega)]
  rw [hget]
  apply and_congr_right
  intro _
  apply and_congr_right
  intro hroom
  rw [List.drop_take, List.take_take, Nat.min_eq_left (by omega)]

theorem parseFrame_isOk_iff (raw : Bytes) : (∃ parsed, parseFrame raw = .ok (.ok parsed)) ↔ InGrammar raw := by
  by_cases hheader : 4 ≤ raw.length
  swap
  · refine ⟨fun h => ?_, fun h => absurd h.header hheader⟩
    obtain ⟨parsed, h⟩ := h
    rw [parseFrame_short (Nat.not_le.mp hheader)] at h
    cases h
  obtain ⟨b0, b1, b2, b3, rest, hraw, -, htotal⟩ := exists_announced hheader
  have hlen : raw.length = rest.length + 4 := by rw [hraw]; rfl
  by_cases hframe : 1 ≤ announced raw ∧ announced raw ≤ 16777216 ∧ 4 + announced raw ≤ raw.length
  · obtain ⟨hpos, hmax, hcomplete⟩ := hframe
    obtain ⟨flags, body, rfl⟩ := List.exists_cons_of_length_pos (show 0 < rest.length by omega)
    obtain ⟨n, hn⟩ : ∃ n, announced raw = n + 1 := ⟨announced raw - 1, by omega⟩
    have hbody : n ≤ body.length := by
      rw [hlen, hn, List.length_cons] at hcomplete
      omega
    have hparse : parseFrame raw = .ok (parseBody (flags :: body.take n)) := by
      rw [hraw, parseFrame_cons _ htotal hpos hmax (by omega), hn, List.take_succ_cons]
    have hflags : flagsByte raw = flags := by rw [hraw]; rfl
    have htag : tagLength raw = (body.getD 8 0).toNat := by rw [hraw]; rfl
    have htagBytes : tagBytes raw = (body.drop 9).take (body.getD 8 0).toNat := by
      rw [tagBytes, htag, hraw]
      rfl
    have hgrammar : InGrammar raw ↔ flags &&& flagTracePresent = 0 ∨ 9 ≤ n ∧ (body.getD 8 0).toNat ≤ 32 ∧
        9 + (body.getD 8 0).toNat ≤ n ∧ Utf8.Valid ((body.drop 9).take (body.getD 8 0).toNat) := by
      have hten : 9 ≤ n ↔ 10 ≤ announced raw := by omega
      have hroom : 9 + tagLength raw ≤ n ↔ 10 + tagLength raw ≤ announced raw := by omega
      rw [← hflags, ← htagBytes, ← htag, hten, hroom]
      exact ⟨fun h => h.traced, fun h => ⟨hheader, hpos, hmax, hcomplete, h⟩⟩
    rw [hgrammar, ← traced_take_iff body n hbody, ← parseBody_isOk_iff, hparse]
    simp only [Except.ok.injEq]
  · refine ⟨fun h => ?_, fun h => absurd ⟨h.nonempty, h.bounded, h.complete⟩ hframe⟩
    obtain ⟨parsed, h⟩ := h
    rw [hraw, parseFrame_header rest rfl] at h
    split_ifs at h with hzero hsize hrest
    any_goals cases h
    refine absurd ?_ hframe
    rw [← UInt32.toNat_inj, htotal, UInt32.toNat_zero] at hzero
    rw [gt_iff_lt, UInt32.lt_iff_toNat_lt, htotal] at hsize
    rw [htotal] at hrest
    have hmax : announced raw ≤ 16777216 := Nat.not_lt.mp hsize
    omega

theorem lengthHeader_decode {front : Bytes} (h : front.length = 4) : lengthHeader (BigEndian.decode front) = front := by
  rw [lengthHeader, ← h, BigEndian.encode_decode]

/-- What was read off a frame with plain flags gives its bytes back. -/
theorem encode_of_parseFrame {raw : Bytes} {parsed : ParsedFrame} (hflags : flagsByte raw = 0 ∨ flagsByte raw = 1)
    (h : parseFrame raw = .ok (.ok parsed)) : parsed.encode = raw.take (4 + announced raw) := by
  have hgrammar := (parseFrame_isOk_iff raw).mp ⟨parsed, h⟩
  obtain ⟨b0, b1, b2, b3, rest, hraw, hlt, htotal⟩ := exists_announced hgrammar.header
  obtain ⟨hheader, hpos, hmax, hcomplete, -⟩ := hgrammar
  have hlen : raw.length = rest.length + 4 := by rw [hraw]; rfl
  have hbodylen : (rest.take (announced raw)).length = announced raw := List.length_take_of_le (by omega)
  rw [hraw, parseFrame_cons rest htotal hpos hmax (by omega)] at h
  have hflags' : (rest.take (announced raw)).getD 0 0 = flagsByte raw := by
    rw [flagsByte, List.getD_eq_getElem?_getD, List.getElem?_take_of_lt (by omega), List.getD_eq_getElem?_getD]
    rw [hraw]
    rfl
  have hencode := encode_of_parseBody (hflags'.symm ▸ hflags) (Except.ok.inj h)
  have hheaderbytes : lengthHeader (announced raw) = raw.take 4 := lengthHeader_decode (List.length_take_of_le hheader)
  rw [hencode, hbodylen, hheaderbytes, List.take_add]
  rw [hraw]
  rfl

/-- **`parseFrame` accepts exactly its grammar**, looks at nothing behind the frame, and where the flags are `0` or `1`
its result encodes to the bytes it was read from. -/
theorem parseFrame_grammar (raw : Bytes) :
    ((∃ parsed, parseFrame raw = .ok (.ok parsed)) ↔ InGrammar raw) ∧
      (4 ≤ raw.length → ∀ raw', raw'.take (4 + announced raw) = raw.take (4 + announced raw) →
        parseFrame raw' = parseFrame raw) ∧
      ∀ parsed, parseFrame raw = .ok (.ok parsed) → flagsByte raw = 0 ∨ flagsByte raw = 1 →
        parsed.encode = raw.take (4 + announced raw) := by
  refine ⟨parseFrame_isOk_iff raw, fun hheader raw' hsame => ?_, fun parsed h hflags => encode_of_parseFrame hflags h⟩
  have hfront : raw'.take 4 = raw.take 4 := by
    have hcut := congrArg (List.take 4) hsame
    rwa [List.take_take, List.take_take, Nat.min_eq_left (by omega)] at hcut
  have hheader' : 4 ≤ raw'.length := by
    have hlen := congrArg List.length hfront
    rw [List.length_take, List.length_take] at hlen
    omega
  have hannounced : announced raw' = announced raw := congrArg BigEndian.decode hfront
  rw [← parseFrame_take hheader', hannounced, hsame, parseFrame_take hheader]

end Atlas.Ipc
