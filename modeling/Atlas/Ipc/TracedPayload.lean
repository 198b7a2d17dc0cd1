import Atlas.Ipc.Grammar
import Atlas.Ipc.TraceIdentity

/-!
# The payload behind a trace header

* `Traced` : the trace ids that `SerializeFrameTraced` writes a header for; `fieldsLength` : what stands in front of
  the payload;
* `payloadKept_iff` : a frame of legal length gives its payload back just when the length field has not wrapped and
  the 32 bytes of the tag are whole characters.
-/

namespace Atlas.Ipc
open Checked

/-- Two dashes at least, and digits between the first two. -/
def Traced (traceID : Bytes) : Prop := 2 ≤ traceID.count 45 ∧ ∀ c ∈ secondPart traceID, Decimal.IsDigit c

instance (traceID : Bytes) : Decidable (Traced traceID) := inferInstanceAs (Decidable (_ ∧ _))

/-- The tag of a traced frame. -/
def exchangeTag (traceID : Bytes) : Bytes := (firstPart traceID).take maxExchangeTag

/-- The bytes between the length header and the payload. -/
def fieldsLength (traceID : Bytes) : Nat := if Traced traceID then 10 + (exchangeTag traceID).length else 1

/-- No character of the exchange is cut at the end of the tag. -/
def TagWhole (traceID : Bytes) : Prop := Traced traceID → Utf8.Valid (exchangeTag traceID)

/-- A frame of legal length is accepted, with just this payload. -/
def PayloadKept (now : UInt64) (payload traceID : Bytes) : Prop :=
  ∀ frame, serializeFrameTraced now payload traceID = .ok frame → announced frame ≤ 16777216 →
    ∃ parsed, parseFrame frame = .ok (.ok parsed) ∧ parsed.payload = payload

/-! ## The two branches of `SerializeFrameTraced` -/

theorem splitN_of_count {traceID : Bytes} (h : 2 ≤ traceID.count 45) :
    ∃ seq, splitN 45 3 traceID = [firstPart traceID, secondPart traceID, seq] := by
  have hpos : 0 < traceID.count 45 := by omega
  obtain ⟨exchange, rest, rfl, hexchange⟩ := List.eq_append_cons_of_mem (List.count_pos_iff.mp hpos)
  rw [List.count_append, List.count_cons_self, List.count_eq_zero.mpr hexchange] at h
  have hrest : 0 < rest.count 45 := by omega
  obtain ⟨ts, seq, rfl, hts⟩ := List.eq_append_cons_of_mem (List.count_pos_iff.mp hrest)
  have hne : ∀ part : Bytes, 45 ∉ part → ∀ b ∈ part, (b != 45) = true :=
    fun part hpart b hb => bne_iff_ne.mpr fun he => hpart (he ▸ hb)
  have hfirst : firstPart (exchange ++ 45 :: (ts ++ 45 :: seq)) = exchange := by
    rw [firstPart, List.takeWhile_append_of_pos (hne _ hexchange), List.takeWhile_cons_of_neg (by simp),
      List.append_nil]
  have hsecond : secondPart (exchange ++ 45 :: (ts ++ 45 :: seq)) = ts := by
    rw [secondPart, List.dropWhile_append_of_pos (hne _ hexchange), List.dropWhile_cons_of_neg (by simp),
      List.drop_one, List.tail_cons, List.takeWhile_append_of_pos (hne _ hts), List.takeWhile_cons_of_neg (by simp),
      List.append_nil]
  rw [hfirst, hsecond]
  exact ⟨seq, splitN_traceIDOf seq hexchange hts⟩

/-- A trace id that is not traced is malformed. -/
theorem parseTraceID_of_not_traced (now : UInt64) {traceID : Bytes} (h : ¬ Traced traceID) :
    ∃ err, parseTraceID now traceID = .error err := by
  by_cases hcount : 2 ≤ traceID.count 45
  · have hbad : ∃ c ∈ secondPart traceID, ¬ Decimal.IsDigit c := by
      by_contra hdigits
      push Not at hdigits
      exact h ⟨hcount, hdigits⟩
    obtain ⟨seq, hsplit⟩ := splitN_of_count hcount
    refine ⟨.timestamp (secondPart traceID) traceID, ?_⟩
    rw [parseTraceID, hsplit]
    simp only [parseMillis_eq_none hbad]
  · exact parseTraceID_malformed now (Or.inl (Nat.not_le.mp hcount))

theorem parseTraceID_of_traced (now : UInt64) {traceID : Bytes} (h : Traced traceID) :
    parseTraceID now traceID = .ok (firstPart traceID, headerMillis now traceID) := by
  obtain ⟨seq, hsplit⟩ := splitN_of_count h.1
  have hmillis := @parseMillis_eq_some 0 _ h.2
  rw [UInt64.toNat_zero, Nat.zero_mul, Nat.zero_add] at hmillis
  rw [parseTraceID, hsplit]
  simp only [hmillis]
  rfl

theorem serializeFrameTraced_of_not_traced (now : UInt64) (payload : Bytes) {traceID : Bytes} (h : ¬ Traced traceID) :
    serializeFrameTraced now payload traceID = serializeUntraced payload := by
  obtain ⟨err, herr⟩ := parseTraceID_of_not_traced now h
  rw [serializeFrameTraced, herr, ite_self]

/-- What `SerializeFrameTraced` writes between the length header and the payload. -/
def frameFields (now : UInt64) (traceID : Bytes) : Bytes :=
  if Traced traceID then
    flagTracePresent :: (BigEndian.encode 8 (headerMillis now traceID).toNat ++
      UInt8.ofNat (exchangeTag traceID).length :: exchangeTag traceID)
  else [0x00]

theorem length_frameFields (now : UInt64) (traceID : Bytes) :
    (frameFields now traceID).length = fieldsLength traceID := by
  unfold frameFields fieldsLength
  split_ifs
  · simp only [List.length_cons, List.length_append, BigEndian.length_encode]
    omega
  · rfl

theorem fieldsLength_pos (traceID : Bytes) : 0 < fieldsLength traceID := by
  unfold fieldsLength
  split_ifs <;> omega

theorem fieldsLength_le (traceID : Bytes) : fieldsLength traceID ≤ 42 := by
  have htag : (exchangeTag traceID).length ≤ 32 := List.length_take_le _ _
  unfold fieldsLength
  split_ifs <;> omega

theorem Traced.ne_nil {traceID : Bytes} (h : Traced traceID) : traceID ≠ [] := by
  rintro rfl
  exact absurd h.1 (by decide)

section anyLength
variable (now : UInt64) {payload traceID : Bytes} {m : Nat} (hm : m = (fieldsLength traceID + payload.length) % 2 ^ 32)
include hm

/-- The frame, for any length: what does not fit a wrapped length is cut off the payload. -/
theorem serializeFrameTraced_fields (h : fieldsLength traceID ≤ m) : serializeFrameTraced now payload traceID =
    .ok (lengthHeader m ++ (frameFields now traceID ++ payload.take (m - fieldsLength traceID))) := by
  unfold fieldsLength at hm h ⊢
  unfold frameFields
  split_ifs at hm h ⊢ with htraced
  · rw [serializeFrameTraced_wrapped htraced.ne_nil (parseTraceID_of_traced now htraced) rfl hm h]
    simp only [exchangeTag, List.append_assoc, List.cons_append, List.nil_append]
  · rw [serializeFrameTraced_of_not_traced now payload htraced, serializeUntraced_wrapped hm h, List.append_assoc]

/-- A wrapped length without room for the fields. -/
theorem serializeFrameTraced_short (h : m < fieldsLength traceID) :
    ∃ p, serializeFrameTraced now payload traceID = .error p := by
  unfold fieldsLength at hm h
  split_ifs at hm h with htraced
  · exact serializeFrameTraced_panic htraced.ne_nil (parseTraceID_of_traced now htraced) rfl hm h
  · rw [serializeFrameTraced_of_not_traced now payload htraced]
    exact serializeUntraced_panic (by omega)

end anyLength

/-! ## What a frame keeps of its payload -/

theorem parseBody_cut_tag (traceID p : Bytes) (ts : UInt64) :
    parseBody (flagTracePresent :: (BigEndian.encode 8 ts.toNat ++
      UInt8.ofNat (exchangeTag traceID).length :: exchangeTag traceID) ++ p) =
      match Utf8.fromUtf8 (exchangeTag traceID) with
      | none => .error .invalidUtf8InExchangeTag
      | some exchange => .ok ⟨p, some ⟨ts, exchange⟩⟩ := by
  simp only [List.cons_append, List.append_assoc]
  exact parseBody_tag ts (exchangeTag traceID) p (by decide) (List.length_take_le _ _)

section fields
variable {serialized : Except Panic Bytes} {fields payload : Bytes} {m : Nat} {readable : Prop}

/-- A frame whose fields are read off it, or refused, whatever stands behind them. -/
theorem kept_fields_iff (hm : m = (fields.length + payload.length) % 2 ^ 32) (hne : 0 < fields.length)
    (hpanic : m < fields.length → ∃ p, serialized = .error p)
    (hframe : fields.length ≤ m →
      serialized = .ok (lengthHeader m ++ (fields ++ payload.take (m - fields.length))))
    (hread : readable → ∀ p, ∃ parsed, parseBody (fields ++ p) = .ok parsed ∧ parsed.payload = p)
    (hrefuse : ¬ readable → ∀ p parsed, parseBody (fields ++ p) ≠ .ok parsed) :
    (∀ frame, serialized = .ok frame → announced frame ≤ 16777216 →
      ∃ parsed, parseFrame frame = .ok (.ok parsed) ∧ parsed.payload = payload) ↔
      16777216 < m ∨ m < fields.length ∨ fields.length + payload.length < 2 ^ 32 ∧ readable := by
  have hle : m ≤ fields.length + payload.length := hm ▸ Nat.mod_le _ _
  have hlt : m < 2 ^ 32 := hm ▸ Nat.mod_lt _ (by decide)
  by_cases hshort : m < fields.length
  · obtain ⟨p, hp⟩ := hpanic hshort
    refine ⟨fun _ => Or.inr (Or.inl hshort), fun _ frame h => ?_⟩
    rw [hp] at h
    cases h
  have hbody : (fields ++ payload.take (m - fields.length)).length = m := by
    rw [List.length_append, List.length_take]
    omega
  have hannounced : announced (lengthHeader m ++ (fields ++ payload.take (m - fields.length))) = m := by
    rw [announced, List.take_left' (length_lengthHeader m), lengthHeader, BigEndian.decode_encode hlt]
  rw [hframe (Nat.not_lt.mp hshort)]
  by_cases hmax : 16777216 < m
  · refine ⟨fun _ => Or.inl hmax, fun _ frame h hlegal => ?_⟩
    rw [← Except.ok.inj h, hannounced] at hlegal
    exact absurd hmax (Nat.not_lt.mpr hlegal)
  rw [or_iff_right hmax, or_iff_right hshort]
  have hparse := parseFrame_complete (fields ++ payload.take (m - fields.length)) [] (by omega) (by omega)
  rw [hbody, List.append_nil] at hparse
  constructor
  · intro hkept
    obtain ⟨parsed, hparsed, hpayload⟩ := hkept _ rfl (hannounced.trans_le (Nat.not_lt.mp hmax))
    rw [hparse] at hparsed
    have hbodyparsed := Except.ok.inj hparsed
    have hreadable : readable := by
      by_contra hbad
      exact hrefuse hbad _ parsed hbodyparsed
    refine ⟨?_, hreadable⟩
    -- a payload that is read back has not been cut by a wrapped length
    obtain ⟨parsed', hparsed', hpayload'⟩ := hread hreadable (payload.take (m - fields.length))
    obtain rfl := Except.ok.inj (hbodyparsed.symm.trans hparsed')
    have hlen := congrArg List.length (hpayload'.symm.trans hpayload)
    rw [List.length_take] at hlen
    omega
  · rintro ⟨hfits, hreadable⟩ frame h -
    rw [Nat.mod_eq_of_lt hfits] at hm
    obtain ⟨parsed, hparsed, hpayload⟩ := hread hreadable (payload.take (m - fields.length))
    refine ⟨parsed, ?_, ?_⟩
    · rw [← Except.ok.inj h, hparse, hparsed]
    · rw [hpayload, List.take_of_length_le (by omega)]

end fields

/-- **When a trace header costs the payload**: a frame of legal length gives its payload back just when its length
field did not wrap and its tag ends between two characters. -/
theorem payloadKept_iff (now : UInt64) (payload traceID : Bytes) : PayloadKept now payload traceID ↔
    16777216 < (fieldsLength traceID + payload.length) % 2 ^ 32 ∨
      (fieldsLength traceID + payload.length) % 2 ^ 32 < fieldsLength traceID ∨
      fieldsLength traceID + payload.length < 2 ^ 32 ∧ TagWhole traceID := by
  have hshort := @serializeFrameTraced_short now payload traceID _ rfl
  have hframe := @serializeFrameTraced_fields now payload traceID _ rfl
  have hpos := fieldsLength_pos traceID
  rw [← length_frameFields now] at hshort hframe hpos ⊢
  refine kept_fields_iff rfl hpos hshort hframe (fun h p => ?_) (fun h p parsed => ?_)
  all_goals unfold frameFields
  · split_ifs with htraced
    · obtain ⟨exchange, hexchange⟩ := Option.isSome_iff_exists.mp ((Utf8.fromUtf8_isSome_iff _).mpr (h htraced))
      exact ⟨_, by rw [parseBody_cut_tag, hexchange], rfl⟩
    · exact ⟨⟨p, none⟩, parseBody_untraced (by decide), rfl⟩
  · obtain ⟨htraced, hcut⟩ := Classical.not_imp.mp h
    rw [← Utf8.fromUtf8_isSome_iff, Option.not_isSome_iff_eq_none] at hcut
    rw [if_pos htraced, parseBody_cut_tag, hcut]
    simp

/-- 31 letters and a letter of two bytes in front of the timestamp. -/
def splitTraceID : Bytes := Utf8.bytes "aaaaaaaaaaaaaaaaaaaaaaaaaaaaaaaé-1-1"

/-- Its frame, the two-byte letter cut in the middle. -/
def splitFrame : Bytes :=
  [0, 0, 0, 43, 1] ++ [0, 0, 0, 0, 0, 0, 0, 1] ++ [32] ++ List.replicate 31 97 ++ [0xC3] ++ [0x7B]

theorem payload_lost : ¬ ∀ now payload traceID, Utf8.Valid traceID → PayloadKept now payload traceID := by
  intro h
  have hframe : (serializeFrameTraced 0 [0x7B] splitTraceID).toOption = some splitFrame := by decide +kernel
  have hrefused : (parseFrame splitFrame).toOption.map Except.isOk = some false := by decide +kernel
  cases hserialize : serializeFrameTraced 0 [0x7B] splitTraceID with
  | error p =>
    rw [hserialize] at hframe
    cases hframe
  | ok frame =>
    rw [hserialize] at hframe
    obtain rfl := Option.some.inj hframe
    obtain ⟨parsed, hparsed, -⟩ := h 0 [0x7B] splitTraceID (Utf8.valid_bytes _) _ hserialize (by decide)
    rw [hparsed] at hrefused
    cases hrefused

end Atlas.Ipc
