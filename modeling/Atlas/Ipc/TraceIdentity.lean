import Atlas.Adapter.Trace
import Atlas.Ipc.RoundTrip

/-!
# What is left of a trace id behind the IPC boundary

* `headerMillis` : the timestamp that `SerializeFrameTraced` writes for a trace id;
* `traceInfo_of_frame` : the trace of a frame is that timestamp and the front of the id;
* `trace_distinct_iff` : two frames of one generator keep distinct traces just when these timestamps differ.
-/

namespace Atlas.Ipc
open Checked Atlas.Adapter

/-- The part of a trace id in front of the first `'-'`. -/
def firstPart (traceID : Bytes) : Bytes := traceID.takeWhile (· != 45)

/-- The part between the first two `'-'`. -/
def secondPart (traceID : Bytes) : Bytes := ((traceID.dropWhile (· != 45)).drop 1).takeWhile (· != 45)

/-- The timestamp in the header: the numeral of the id, and the clock in the place of `0`. -/
def headerMillis (now : UInt64) (traceID : Bytes) : UInt64 :=
  let tsMs := UInt64.ofNat (Decimal.value (secondPart traceID))
  if tsMs = 0 then now else tsMs

theorem parseTraceID_ok {now tsMs : UInt64} {traceID exchange : Bytes}
    (h : parseTraceID now traceID = .ok (exchange, tsMs)) :
    exchange = firstPart traceID ∧ tsMs = headerMillis now traceID := by
  have hparts : ∀ exchange tsStr seq rest, splitN 45 3 traceID = exchange :: tsStr :: seq :: rest →
      exchange = firstPart traceID ∧ tsStr = secondPart traceID := by
    intro exchange tsStr seq rest hsplit
    unfold firstPart secondPart
    rw [splitN] at hsplit
    split at hsplit
    · cases hsplit
    · rename_i rest₁ hdrop
      rw [splitN] at hsplit
      split at hsplit
      · cases hsplit
      · obtain ⟨hfirst, hrest⟩ := List.cons.inj hsplit
        rw [hdrop]
        exact ⟨hfirst.symm, (List.cons.inj hrest).1.symm⟩
  unfold parseTraceID at h
  split at h
  · rename_i exchange' tsStr seq rest hsplit
    obtain ⟨rfl, rfl⟩ := hparts _ _ _ _ hsplit
    by_cases hdigits : ∀ c ∈ secondPart traceID, Decimal.IsDigit c
    · have hvalue := @parseMillis_eq_some 0 _ hdigits
      rw [hvalue] at h
      simp only [UInt64.toNat_zero, Nat.zero_mul, Nat.zero_add] at h
      obtain ⟨rfl, rfl⟩ := Prod.mk.inj (Except.ok.inj h)
      exact ⟨rfl, rfl⟩
    · rw [parseMillis_eq_none (by simpa using hdigits)] at h
      cases h
  · cases h

/-- A frame without trace has no trace, whatever its length. -/
theorem trace_of_untraced {payload frame : Bytes} {parsed : ParsedFrame}
    (hframe : serializeUntraced payload = .ok frame) (hparse : parseFrame frame = .ok (.ok parsed)) :
    parsed.trace = none := by
  obtain ⟨m, hm⟩ : ∃ m, m = (1 + payload.length) % 2 ^ 32 := ⟨_, rfl⟩
  have hle : m ≤ 1 + payload.length := hm ▸ Nat.mod_le _ _
  by_cases hzero : m = 0
  · obtain ⟨p, hp⟩ := serializeUntraced_panic (hm ▸ hzero)
    cases hp.symm.trans hframe
  obtain ⟨body, hbody⟩ : ∃ body : Bytes, body = 0x00 :: payload.take (m - 1) := ⟨_, rfl⟩
  have hlen : body.length = m := by
    rw [hbody, List.length_cons, List.length_take]
    omega
  rw [serializeUntraced_wrapped hm (by omega), List.append_assoc] at hframe
  obtain rfl := Except.ok.inj hframe
  have hframe' : parseFrame (lengthHeader body.length ++ body) = .ok (.ok parsed) := by
    rw [← hparse, hlen, hbody]
    rfl
  have hparsed := parseBody_of_parseFrame (by omega) hframe'
  rw [hbody, parseBody_untraced (by decide)] at hparsed
  exact congrArg ParsedFrame.trace (Except.ok.inj hparsed).symm

/-- The trace of a frame comes from its trace id alone. -/
theorem traceInfo_of_frame {now : UInt64} {payload traceID frame : Bytes} {parsed : ParsedFrame} {trace : TraceInfo}
    (hframe : serializeFrameTraced now payload traceID = .ok frame) (hparse : parseFrame frame = .ok (.ok parsed))
    (htrace : parsed.trace = some trace) : trace.timestampMs = headerMillis now traceID ∧
      Utf8.fromUtf8 ((firstPart traceID).take maxExchangeTag) = some trace.exchangeTag := by
  have huntraced : serializeUntraced payload ≠ .ok frame := by
    intro h
    rw [trace_of_untraced h hparse] at htrace
    cases htrace
  by_cases hnil : traceID = []
  · rw [serializeFrameTraced, if_pos hnil] at hframe
    exact absurd hframe huntraced
  cases hid : parseTraceID now traceID with
  | error err =>
    rw [serializeFrameTraced, if_neg hnil, hid] at hframe
    exact absurd hframe huntraced
  | ok found =>
    obtain ⟨exchange, tsMs⟩ := found
    obtain ⟨tag, htag⟩ : ∃ tag, tag = exchange.take maxExchangeTag := ⟨_, rfl⟩
    obtain ⟨m, hm⟩ : ∃ m, m = (10 + tag.length + payload.length) % 2 ^ 32 := ⟨_, rfl⟩
    have hle : m ≤ 10 + tag.length + payload.length := hm ▸ Nat.mod_le _ _
    have htaglen : tag.length ≤ maxExchangeTag := by
      rw [htag, List.length_take]
      omega
    by_cases hroom : m < 10 + tag.length
    · obtain ⟨p, hp⟩ := serializeFrameTraced_panic hnil hid htag hm hroom
      cases hp.symm.trans hframe
    rw [serializeFrameTraced_wrapped hnil hid htag hm (by omega)] at hframe
    obtain rfl := Except.ok.inj hframe
    obtain ⟨rest, hrest⟩ : ∃ rest, rest = payload.take (m - (10 + tag.length)) := ⟨_, rfl⟩
    obtain ⟨body, hbody⟩ : ∃ body, body = flagTracePresent :: (BigEndian.encode 8 tsMs.toNat ++
      UInt8.ofNat tag.length :: (tag ++ rest)) := ⟨_, rfl⟩
    have hlen : body.length = m := by
      rw [hbody, hrest]
      simp only [List.length_cons, List.length_append, BigEndian.length_encode, List.length_take]
      omega
    have hframe' : parseFrame (lengthHeader body.length ++ body) = .ok (.ok parsed) := by
      rw [← hparse, hlen, hbody, hrest]
      simp only [List.append_assoc, List.cons_append, List.nil_append]
    have hparsed := parseBody_of_parseFrame (by omega) hframe'
    rw [hbody, parseBody_tag tsMs tag rest (by decide) htaglen] at hparsed
    obtain ⟨hexchange, hts⟩ := parseTraceID_ok hid
    split at hparsed
    · cases hparsed
    · rename_i exchangeTag hutf8
      obtain rfl := Except.ok.inj hparsed
      obtain rfl := Option.some.inj htrace
      refine ⟨hts, ?_⟩
      rw [← hexchange, ← htag]
      exact hutf8

/-! ## The ids of one generator -/

theorem firstPart_formatTraceID (exchange : Bytes) (ts : Int) (seq : UInt64) :
    firstPart (formatTraceID exchange ts seq) = firstPart exchange := by
  unfold firstPart formatTraceID
  induction exchange with
  | nil => rfl
  | cons b exchange ih =>
    simp only [List.cons_append, List.takeWhile_cons]
    split_ifs
    · rw [ih]
    · rfl

/-- With a name without `'-'` and a clock behind the epoch the header has the clock of the id. -/
theorem headerMillis_formatTraceID (now : UInt64) {exchange : Bytes} {ts : Int} (seq : UInt64)
    (hexchange : 45 ∉ exchange) (hpos : 0 < ts) (hlt : ts < 2 ^ 63) :
    headerMillis now (formatTraceID exchange ts seq) = UInt64.ofNat ts.toNat := by
  have hne : ∀ b ∈ exchange, (b != 45) = true := fun b hb => bne_iff_ne.mpr (fun he => hexchange (he ▸ hb))
  have hdigits : ∀ b ∈ formatInt ts, (b != 45) = true := by
    intro b hb
    rw [formatInt_of_pos hpos] at hb
    have hdigit := Decimal.isDigit_of_mem_render hb
    rw [bne_iff_ne]
    rintro rfl
    exact absurd hdigit (by decide)
  have hsecond : secondPart (formatTraceID exchange ts seq) = formatInt ts := by
    unfold secondPart formatTraceID
    rw [List.append_assoc, List.append_assoc, List.append_assoc, List.dropWhile_append_of_pos hne]
    rw [List.singleton_append, List.dropWhile_cons_of_neg (by simp), List.drop_one, List.tail_cons,
      List.takeWhile_append_of_pos hdigits, List.singleton_append, List.takeWhile_cons_of_neg (by simp),
      List.append_nil]
  have hnat : ts.toNat < 2 ^ 64 := by omega
  unfold headerMillis
  rw [hsecond, formatInt_of_pos hpos, Decimal.value_render]
  apply if_neg
  rw [← UInt64.toNat_inj, UInt64.toNat_ofNat', Nat.mod_eq_of_lt hnat]
  simp
  omega

/-- **When two traces stay distinct**: the frames of two ids of one generator give back distinct traces just when
their headers carry different timestamps, that is, for a name without `'-'` and clocks behind the epoch, when the ids
were generated in different milliseconds. -/
theorem trace_distinct_iff {exchange : Bytes} {seq₁ seq₂ now₁ now₂ : UInt64} {ts₁ ts₂ : Int}
    {payload₁ payload₂ id₁ id₂ frame₁ frame₂ : Bytes} {parsed₁ parsed₂ : ParsedFrame} {trace₁ trace₂ : TraceInfo}
    (hid₁ : id₁ = (TraceGenerator.generate ⟨exchange, seq₁⟩ ts₁).1)
    (hid₂ : id₂ = (TraceGenerator.generate ⟨exchange, seq₂⟩ ts₂).1)
    (hframe₁ : serializeFrameTraced now₁ payload₁ id₁ = .ok frame₁)
    (hframe₂ : serializeFrameTraced now₂ payload₂ id₂ = .ok frame₂)
    (hparse₁ : parseFrame frame₁ = .ok (.ok parsed₁)) (hparse₂ : parseFrame frame₂ = .ok (.ok parsed₂))
    (htrace₁ : parsed₁.trace = some trace₁) (htrace₂ : parsed₂.trace = some trace₂) :
    (trace₁ ≠ trace₂ ↔ headerMillis now₁ id₁ ≠ headerMillis now₂ id₂) ∧
      (45 ∉ exchange → 0 < ts₁ → ts₁ < 2 ^ 63 → 0 < ts₂ → ts₂ < 2 ^ 63 → (trace₁ ≠ trace₂ ↔ ts₁ ≠ ts₂)) := by
  obtain ⟨hmillis₁, htag₁⟩ := traceInfo_of_frame hframe₁ hparse₁ htrace₁
  obtain ⟨hmillis₂, htag₂⟩ := traceInfo_of_frame hframe₂ hparse₂ htrace₂
  have htag : trace₁.exchangeTag = trace₂.exchangeTag := by
    rw [hid₁, TraceGenerator.generate, firstPart_formatTraceID] at htag₁
    rw [hid₂, TraceGenerator.generate, firstPart_formatTraceID] at htag₂
    exact Option.some.inj (htag₁.symm.trans htag₂)
  have hmain : trace₁ ≠ trace₂ ↔ headerMillis now₁ id₁ ≠ headerMillis now₂ id₂ := by
    rw [← hmillis₁, ← hmillis₂]
    apply not_congr
    refine ⟨congrArg TraceInfo.timestampMs, fun h => ?_⟩
    cases trace₁
    cases trace₂
    exact congrArg₂ TraceInfo.mk h htag
  refine ⟨hmain, fun hexchange hpos₁ hlt₁ hpos₂ hlt₂ => ?_⟩
  rw [hmain, hid₁, hid₂, TraceGenerator.generate, TraceGenerator.generate]
  simp only
  rw [headerMillis_formatTraceID now₁ _ hexchange hpos₁ hlt₁, headerMillis_formatTraceID now₂ _ hexchange hpos₂ hlt₂]
  apply not_congr
  rw [← UInt64.toNat_inj, UInt64.toNat_ofNat', UInt64.toNat_ofNat', Nat.mod_eq_of_lt (by omega),
    Nat.mod_eq_of_lt (by omega)]
  omega

theorem formatTraceID_eq (exchange : Bytes) {ts : Int} (seq : UInt64) (hpos : 0 < ts) :
    formatTraceID exchange ts seq =
      traceIDOf exchange (Decimal.render ts.toNat) (Decimal.renderPadded 20 seq.toNat) := by
  rw [formatTraceID, formatInt_of_pos hpos, traceIDOf]
  simp only [List.append_assoc, List.cons_append, List.nil_append]

/-- The frame of a generated id gives back the name and the clock, and no more of the id. -/
theorem parseFrame_formatTraceID (now : UInt64) {exchange : String} {ts : Int} (seq : UInt64) {payload : Bytes}
    (hexchange : 45 ∉ Utf8.bytes exchange) (htag : (Utf8.bytes exchange).length ≤ maxExchangeTag) (hpos : 0 < ts)
    (hlt : ts < 2 ^ 63) (hmax : 10 + (Utf8.bytes exchange).length + payload.length ≤ 16777216) :
    ∃ frame, serializeFrameTraced now payload (formatTraceID (Utf8.bytes exchange) ts seq) = .ok frame ∧
      parseFrame frame = .ok (.ok ⟨payload, some ⟨UInt64.ofNat ts.toNat, exchange⟩⟩) := by
  have hid := parseTraceID_traceIDOf now (Decimal.renderPadded 20 seq.toNat) hexchange
    (fun c hc => @Decimal.isDigit_of_mem_render ts.toNat c hc) (by rw [Decimal.value_render]; omega)
    (by rw [Decimal.value_render]; omega)
  rw [Decimal.value_render] at hid
  rw [formatTraceID_eq _ seq hpos]
  exact parseFrame_serializeFrameTraced (by simp [traceIDOf]) hid htag hmax

/-- Two ids of Bybit's generator, one millisecond apart. -/
theorem trace_distinct_iff_bybit :
    (⟨1788293930811, "bybit"⟩ : TraceInfo) ≠ ⟨1788293930812, "bybit"⟩ ↔ (1788293930811 : Int) ≠ 1788293930812 := by
  obtain ⟨frame₁, hframe₁, hparse₁⟩ := @parseFrame_formatTraceID 0 "bybit" 1788293930811 1 [0x7B] (by decide)
    (by decide) (by decide) (by decide) (by decide)
  obtain ⟨frame₂, hframe₂, hparse₂⟩ := @parseFrame_formatTraceID 0 "bybit" 1788293930812 2 [0x7B] (by decide)
    (by decide) (by decide) (by decide) (by decide)
  exact (@trace_distinct_iff (Utf8.bytes "bybit") 0 1 0 0 1788293930811 1788293930812 _ _ _ _ _ _ _ _ _ _ rfl rfl
    hframe₁ hframe₂ hparse₁ hparse₂ rfl rfl).2 (by decide) (by decide) (by decide) (by decide) (by decide)

/-- Two ids of one millisecond are distinct, their traces are not. -/
theorem same_millisecond_same_trace : ∃ id₁ id₂ frame₁ frame₂ trace,
    id₁ = (TraceGenerator.generate ⟨Utf8.bytes "bybit", 0⟩ 1788293930811).1 ∧
    id₂ = (TraceGenerator.generate ⟨Utf8.bytes "bybit", 1⟩ 1788293930811).1 ∧ id₁ ≠ id₂ ∧
    serializeFrameTraced 0 [0x7B] id₁ = .ok frame₁ ∧ serializeFrameTraced 0 [0x7B] id₂ = .ok frame₂ ∧
    parseFrame frame₁ = .ok (.ok ⟨[0x7B], some trace⟩) ∧ parseFrame frame₂ = .ok (.ok ⟨[0x7B], some trace⟩) := by
  obtain ⟨frame₁, hframe₁, hparse₁⟩ := @parseFrame_formatTraceID 0 "bybit" 1788293930811 1 [0x7B] (by decide)
    (by decide) (by decide) (by decide) (by decide)
  obtain ⟨frame₂, hframe₂, hparse₂⟩ := @parseFrame_formatTraceID 0 "bybit" 1788293930811 2 [0x7B] (by decide)
    (by decide) (by decide) (by decide) (by decide)
  refine ⟨_, _, frame₁, frame₂, _, rfl, rfl, fun h => ?_, hframe₁, hframe₂, hparse₁, hparse₂⟩
  have hseq : Decimal.renderPadded 20 1 = Decimal.renderPadded 20 2 := List.append_cancel_left h
  have hvalue := congrArg Decimal.value hseq
  rw [Decimal.value_renderPadded, Decimal.value_renderPadded] at hvalue
  cases hvalue

end Atlas.Ipc
