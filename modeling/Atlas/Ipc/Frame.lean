import Atlas.Lib.BigEndian
import Atlas.Lib.Checked
import Atlas.Lib.Decimal

/-!
# The writing side of the IPC framing: `services/ingestion/internal/ipc/frame.go`

* `serializeFrame` : length header and payload (the legacy format);
* `serializeFrameTraced` : length header, flags byte, optional trace fields, payload (spec v1.1);
* `parseTraceID` : the exchange and the millisecond timestamp of `{exchange}-{timestamp_ms}-{sequence}`.

Go strings and `[]byte` are byte lists, `len` is their length, an index or slice expression is a checked one.
`serializeFrame_eq`, `serializeUntraced_eq`, `serializeFrameTraced_eq` : the frames as concatenations, below the
length where `uint32` wraps.
-/

namespace Atlas.Ipc
open Checked

abbrev Bytes := List UInt8

/-- bit 0 of flags byte -/
def flagTracePresent : UInt8 := 0x01

/-- max bytes for exchange tag per spec -/
def maxExchangeTag : Nat := 32

/-- `binary.BigEndian.PutUint32(frame[lo:lo+4], v)` -/
def putUint32 (frame : Bytes) (lo : Nat) (v : UInt32) : Except Panic Bytes := do
  let _ ← slice frame lo (lo + 4)
  copyAt frame lo (BigEndian.encode 4 v.toNat)

/-- `binary.BigEndian.PutUint64(frame[lo:lo+8], v)` -/
def putUint64 (frame : Bytes) (lo : Nat) (v : UInt64) : Except Panic Bytes := do
  let _ ← slice frame lo (lo + 8)
  copyAt frame lo (BigEndian.encode 8 v.toNat)

def serializeFrame (payload : Bytes) : Except Panic Bytes := do
  let length := UInt32.ofNat payload.length
  let frame := List.replicate (4 + length.toNat) 0
  let frame ← putUint32 frame 0 length
  copyAt frame 4 payload

/-- `strings.SplitN` for a one-byte separator and `n ≥ 0`. -/
def splitN (sep : UInt8) : Nat → Bytes → List Bytes
  | 0, _ => []
  | 1, s => [s]
  | n + 2, s =>
    match s.dropWhile (· != sep) with
    | [] => [s]
    | _ :: rest => s.takeWhile (· != sep) :: splitN sep (n + 1) rest

inductive TraceIDError
  /-- traceID must have format {exchange}-{ts}-{seq} -/
  | format (traceID : Bytes)
  /-- timestamp must be numeric -/
  | timestamp (tsStr traceID : Bytes)
  deriving DecidableEq, Repr

/-- The loop over `tsStr`: `tsMs = tsMs*10 + uint64(c-'0')`, absent at the first rune that is no digit. Runes above
`'9'` start with a byte above `'9'`, so the loop over bytes stops at the same place. -/
def parseMillis : UInt64 → Bytes → Option UInt64
  | tsMs, [] => some tsMs
  | tsMs, c :: cs =>
    if c.toNat < 48 ∨ 57 < c.toNat then none
    else parseMillis (tsMs * 10 + UInt64.ofNat (c.toNat - 48)) cs

/-- `now` is `uint64(time.Now().UnixMilli())`, read where the parsed timestamp is `0`. -/
def parseTraceID (now : UInt64) (traceID : Bytes) : Except TraceIDError (Bytes × UInt64) :=
  match splitN 45 3 traceID with
  | exchange :: tsStr :: _ :: _ =>
    match parseMillis 0 tsStr with
    | none => .error (.timestamp tsStr traceID)
    | some tsMs => .ok (exchange, if tsMs = 0 then now else tsMs)
  | _ => .error (.format traceID)

/-- The fallback body of `SerializeFrameTraced`, for an empty and for a malformed trace id: flags 0x00. -/
def serializeUntraced (payload : Bytes) : Except Panic Bytes := do
  let totalLen := UInt32.ofNat (1 + payload.length)
  let frame := List.replicate (4 + totalLen.toNat) 0
  let frame ← putUint32 frame 0 totalLen
  let frame ← store frame 4 0x00
  copyAt frame 5 payload

def serializeFrameTraced (now : UInt64) (payload traceID : Bytes) : Except Panic Bytes :=
  if traceID = [] then serializeUntraced payload
  else match parseTraceID now traceID with
    | .error _ => serializeUntraced payload
    | .ok (exchange, tsMs) => do
      let tag := if exchange.length > maxExchangeTag then exchange.take maxExchangeTag else exchange
      let traceFieldsLen := 1 + 8 + 1 + tag.length
      let totalLen := UInt32.ofNat (traceFieldsLen + payload.length)
      let frame := List.replicate (4 + totalLen.toNat) 0
      let frame ← putUint32 frame 0 totalLen
      let offset := 4
      let frame ← store frame offset flagTracePresent
      let offset := offset + 1
      let frame ← putUint64 frame offset tsMs
      let offset := offset + 8
      let frame ← store frame offset (UInt8.ofNat tag.length)
      let offset := offset + 1
      let _ ← slice frame offset (offset + tag.length)
      let frame ← copyAt frame offset tag
      let offset := offset + tag.length
      copyAt frame offset payload

/-! ## Frames as concatenations -/

/-- The four header bytes of a frame of length `n`. -/
def lengthHeader (n : Nat) : Bytes := BigEndian.encode 4 n

@[simp] theorem length_lengthHeader (n : Nat) : (lengthHeader n).length = 4 := BigEndian.length_encode 4 n

theorem toNat_uint32 {n : Nat} (h : n < 2 ^ 32) : (UInt32.ofNat n).toNat = n := by
  rw [UInt32.toNat_ofNat', Nat.mod_eq_of_lt h]

theorem putUint32_zeros {n : Nat} (v : UInt32) (h : 4 ≤ n) :
    putUint32 (List.replicate n 0) 0 v = .ok (lengthHeader v.toNat ++ List.replicate (n - 4) 0) := by
  have hcopy := copyAt_zeros [] (lengthHeader v.toNat) (0 : UInt8) rfl (by simpa using h)
  rw [length_lengthHeader] at hcopy
  rw [putUint32, slice_of_le (by omega) (by simpa using h), ok_bind]
  exact hcopy

theorem putUint64_zeros (front : Bytes) {n off : Nat} (v : UInt64) (hoff : off = front.length) (h : 8 ≤ n) :
    putUint64 (front ++ List.replicate n 0) off v =
      .ok (front ++ BigEndian.encode 8 v.toNat ++ List.replicate (n - 8) 0) := by
  have hcopy := copyAt_zeros front (BigEndian.encode 8 v.toNat) (0 : UInt8) hoff (by simpa using h)
  rw [BigEndian.length_encode] at hcopy
  rw [putUint64, slice_of_le (by omega) (by simp; omega), ok_bind]
  exact hcopy

/-- A zeroed frame with its length header written; the length wraps at `2 ^ 32`. -/
theorem putUint32_frame {n m : Nat} (hm : m = n % 2 ^ 32) :
    putUint32 (List.replicate (4 + (UInt32.ofNat n).toNat) 0) 0 (UInt32.ofNat n) =
      .ok (lengthHeader m ++ List.replicate m 0) := by
  rw [putUint32_zeros _ (by omega), UInt32.toNat_ofNat', ← hm, Nat.add_sub_cancel_left]

theorem serializeFrame_eq {payload : Bytes} (h : payload.length < 2 ^ 32) :
    serializeFrame payload = .ok (lengthHeader payload.length ++ payload) := by
  rw [serializeFrame, putUint32_frame (Nat.mod_eq_of_lt h).symm, ok_bind, copyAt_zeros_last _ _ _ (by simp) rfl]

/-- The frame without trace, for any length: what does not fit a wrapped length is cut off. -/
theorem serializeUntraced_wrapped {payload : Bytes} {m : Nat} (hm : m = (1 + payload.length) % 2 ^ 32) (h : 0 < m) :
    serializeUntraced payload = .ok (lengthHeader m ++ [0x00] ++ payload.take (m - 1)) := by
  rw [serializeUntraced, putUint32_frame hm, ok_bind, store_zeros _ _ _ (by simp) h, ok_bind,
    copyAt_zeros_cut _ _ _ (by simp) (by have := Nat.mod_le (1 + payload.length) (2 ^ 32); omega)]

theorem serializeUntraced_eq {payload : Bytes} (h : 1 + payload.length < 2 ^ 32) :
    serializeUntraced payload = .ok (lengthHeader (1 + payload.length) ++ [0x00] ++ payload) := by
  rw [serializeUntraced_wrapped (Nat.mod_eq_of_lt h).symm (by omega), Nat.add_sub_cancel_left, List.take_length]

/-- A wrapped length of zero leaves no room for the flags. -/
theorem serializeUntraced_panic {payload : Bytes} (h : (1 + payload.length) % 2 ^ 32 = 0) :
    ∃ p, serializeUntraced payload = .error p := by
  refine ⟨.indexOutOfRange 4 4, ?_⟩
  rw [serializeUntraced, putUint32_frame h.symm, ok_bind, store, if_neg (by simp)]
  rfl

/-- The exchange tag of a frame: the exchange, cut to 32 bytes. -/
theorem tag_eq_take (exchange : Bytes) :
    (if exchange.length > maxExchangeTag then exchange.take maxExchangeTag else exchange) =
      exchange.take maxExchangeTag := by
  split_ifs with h
  · rfl
  · rw [List.take_of_length_le (by omega)]

section traced
variable {now tsMs : UInt64} {payload traceID exchange tag : Bytes} {m : Nat}

/-- The traced frame, for any length: what does not fit a wrapped length is cut off. -/
theorem serializeFrameTraced_wrapped (hne : traceID ≠ []) (hid : parseTraceID now traceID = .ok (exchange, tsMs))
    (htag : tag = exchange.take maxExchangeTag) (hm : m = (10 + tag.length + payload.length) % 2 ^ 32)
    (h : 10 + tag.length ≤ m) : serializeFrameTraced now payload traceID =
      .ok (lengthHeader m ++ [flagTracePresent] ++ BigEndian.encode 8 tsMs.toNat ++ [UInt8.ofNat tag.length] ++ tag ++
        payload.take (m - (10 + tag.length))) := by
  have hcut := (tag_eq_take exchange).trans htag.symm
  have hle : m ≤ 10 + tag.length + payload.length := hm ▸ Nat.mod_le _ _
  have hroom : m - 1 - 8 - 1 - tag.length = m - (10 + tag.length) := by omega
  rw [serializeFrameTraced, if_neg hne, hid]
  simp only [hcut, Nat.reduceAdd]
  rw [putUint32_frame hm, ok_bind, store_zeros _ _ _ (by simp) (by omega), ok_bind,
    putUint64_zeros _ _ (by simp) (by omega), ok_bind, store_zeros _ _ _ (by simp) (by omega), ok_bind,
    slice_of_le (by omega) (by simp; omega), ok_bind, copyAt_zeros _ _ _ (by simp) (by omega), ok_bind,
    copyAt_zeros_cut _ _ _ (by simp; omega) (by omega), hroom]

theorem serializeFrameTraced_eq (hne : traceID ≠ []) (hid : parseTraceID now traceID = .ok (exchange, tsMs))
    (htag : tag = exchange.take maxExchangeTag) (h : 10 + tag.length + payload.length < 2 ^ 32) :
    serializeFrameTraced now payload traceID =
      .ok (lengthHeader (10 + tag.length + payload.length) ++ [flagTracePresent] ++
        BigEndian.encode 8 tsMs.toNat ++ [UInt8.ofNat tag.length] ++ tag ++ payload) := by
  rw [serializeFrameTraced_wrapped hne hid htag (Nat.mod_eq_of_lt h).symm (by omega), Nat.add_sub_cancel_left,
    List.take_length]

/-- A wrapped length that leaves no room for the trace fields. -/
theorem serializeFrameTraced_panic (hne : traceID ≠ []) (hid : parseTraceID now traceID = .ok (exchange, tsMs))
    (htag : tag = exchange.take maxExchangeTag) (hm : m = (10 + tag.length + payload.length) % 2 ^ 32)
    (h : m < 10 + tag.length) : ∃ p, serializeFrameTraced now payload traceID = .error p := by
  have hcut := (tag_eq_take exchange).trans htag.symm
  rw [serializeFrameTraced, if_neg hne, hid]
  simp only [hcut, Nat.reduceAdd]
  rw [putUint32_frame hm, ok_bind]
  by_cases hflags : m = 0
  · rw [store, if_neg (by simp; omega)]
    exact ⟨_, rfl⟩
  rw [store_zeros _ _ _ (by simp) (by omega), ok_bind]
  by_cases hts : m < 9
  · rw [putUint64, slice, if_neg (by simp; omega)]
    exact ⟨_, rfl⟩
  rw [putUint64_zeros _ _ (by simp) (by omega), ok_bind]
  by_cases hlen : m < 10
  · rw [store, if_neg (by simp; omega)]
    exact ⟨_, rfl⟩
  rw [store_zeros _ _ _ (by simp) (by omega), ok_bind, slice, if_neg (by simp; omega)]
  exact ⟨_, rfl⟩

end traced

/-! ## The parts of a trace id -/

theorem splitN_append (sep : UInt8) (n : Nat) (part rest : Bytes) (h : sep ∉ part) :
    splitN sep (n + 2) (part ++ sep :: rest) = part :: splitN sep (n + 1) rest := by
  have hne : ∀ b ∈ part, (b != sep) = true := fun b hb => bne_iff_ne.mpr (fun he => h (he ▸ hb))
  have hdrop : (part ++ sep :: rest).dropWhile (· != sep) = sep :: rest := by
    rw [List.dropWhile_append_of_pos hne]
    simp
  have htake : (part ++ sep :: rest).takeWhile (· != sep) = part := by
    rw [List.takeWhile_append_of_pos hne]
    simp
  rw [splitN, hdrop, htake]

theorem parseMillis_eq_some {acc : UInt64} {cs : Bytes} (h : ∀ c ∈ cs, Decimal.IsDigit c) :
    parseMillis acc cs = some (UInt64.ofNat (acc.toNat * 10 ^ cs.length + Decimal.value cs)) := by
  induction cs generalizing acc with
  | nil => simp [parseMillis, Decimal.value]
  | cons c cs ih =>
    have hc := h c (List.mem_cons_self ..)
    rw [parseMillis, if_neg (by unfold Decimal.IsDigit at hc; omega),
      ih (fun d hd => h d (List.mem_cons_of_mem _ hd)), Decimal.value_cons, Option.some_inj, List.length_cons]
    apply UInt64.toNat_inj.mp
    have hstep : (acc * 10 + UInt64.ofNat (c.toNat - 48)).toNat ≡ acc.toNat * 10 + (c.toNat - 48) [MOD 2 ^ 64] := by
      simp only [UInt64.toNat_add, UInt64.toNat_mul, UInt64.toNat_ofNat']
      exact (Nat.mod_modEq _ _).trans ((Nat.mod_modEq _ _).add (Nat.mod_modEq _ _))
    have hexp : acc.toNat * 10 ^ (cs.length + 1) + ((c.toNat - 48) * 10 ^ cs.length + Decimal.value cs) =
        (acc.toNat * 10 + (c.toNat - 48)) * 10 ^ cs.length + Decimal.value cs := by ring
    rw [UInt64.toNat_ofNat', UInt64.toNat_ofNat', hexp]
    exact (hstep.mul_right _).add_right _

theorem parseMillis_eq_none {acc : UInt64} {cs : Bytes} (h : ∃ c ∈ cs, ¬ Decimal.IsDigit c) :
    parseMillis acc cs = none := by
  induction cs generalizing acc with
  | nil => simp at h
  | cons c cs ih =>
    rw [parseMillis]
    split_ifs with hc
    · rfl
    · obtain ⟨d, hd, hbad⟩ := h
      rcases List.mem_cons.mp hd with rfl | hd
      · exact absurd ⟨by omega, by omega⟩ hbad
      · exact ih ⟨d, hd, hbad⟩

end Atlas.Ipc
