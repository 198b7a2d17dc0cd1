import Atlas.Ipc.TracedPayload
import Atlas.Ipc.Writer

/-!
# The length of a traced frame at `WriteRaw`

`SerializeFrameTraced` casts the length of the content to `uint32`, and only `WriteRaw` looks at the size.

* `Sendable` : a frame comes out of the first, and the second rejects it for its size or takes it whole;
* `sendable_iff` : for payloads of every length, that is where the cast loses nothing or keeps more than 16 MB.
-/

namespace Atlas.Ipc

/-- The length field counts the content, and the content ends with the whole payload. -/
def Whole (payload frame : Bytes) : Prop :=
  4 ≤ frame.length ∧ announced frame = (frame.drop 4).length ∧ payload <:+ frame.drop 4

/-- `SerializeFrameTraced` stays inside its frame, and `WriteRaw` rejects the frame for its size or takes it whole. -/
def Sendable (now : UInt64) (payload traceID : Bytes) : Prop :=
  ∃ frame, serializeFrameTraced now payload traceID = .ok frame ∧
    ((Request.writeRaw frame).frame = .ok (.error (.rawFrameSize frame.length (Writer.maxFrameSize + 4))) ∨
      (Request.writeRaw frame).frame = .ok (.ok frame) ∧ Whole payload frame)

theorem writeRaw_frame {frame : Bytes} (hne : frame.length ≠ 0) : (Request.writeRaw frame).frame =
    if frame.length > Writer.maxFrameSize + 4 then
      .ok (.error (.rawFrameSize frame.length (Writer.maxFrameSize + 4)))
    else .ok (.ok frame) := by
  rw [Request.frame, if_neg hne]

section content
variable {content payload : Bytes} {m : Nat}

theorem announced_lengthHeader (hm : m < 2 ^ 32) : announced (lengthHeader m ++ content) = m := by
  rw [announced, List.take_left' (length_lengthHeader m), lengthHeader, BigEndian.decode_encode hm]

theorem whole_iff (hm : m < 2 ^ 32) (hlen : content.length = m) :
    Whole payload (lengthHeader m ++ content) ↔ payload <:+ content := by
  unfold Whole
  rw [announced_lengthHeader hm, List.drop_left' (length_lengthHeader m), List.length_append, length_lengthHeader]
  exact ⟨fun h => h.2.2, fun h => ⟨by omega, hlen.symm, h⟩⟩

end content

/-- **The cast and the size check behind it.** -/
theorem sendable_iff (now : UInt64) (payload traceID : Bytes) : Sendable now payload traceID ↔
    fieldsLength traceID + payload.length < 2 ^ 32 ∨
      Writer.maxFrameSize < (fieldsLength traceID + payload.length) % 2 ^ 32 := by
  obtain ⟨m, hm⟩ : ∃ m, m = (fieldsLength traceID + payload.length) % 2 ^ 32 := ⟨_, rfl⟩
  have hmlt : m < 2 ^ 32 := hm ▸ Nat.mod_lt _ (by decide)
  have hmle : m ≤ fieldsLength traceID + payload.length := hm ▸ Nat.mod_le _ _
  have hfields := fieldsLength_le traceID
  have hmax : Writer.maxFrameSize = 16777216 := rfl
  rw [← hm]
  by_cases hshort : m < fieldsLength traceID
  · obtain ⟨p, hp⟩ := serializeFrameTraced_short now hm hshort
    constructor
    · rintro ⟨frame, hframe, -⟩
      rw [hp] at hframe
      cases hframe
    · omega
  have hframe := serializeFrameTraced_fields now hm (Nat.not_lt.mp hshort)
  obtain ⟨content, hcontent⟩ : ∃ content,
      content = frameFields now traceID ++ payload.take (m - fieldsLength traceID) := ⟨_, rfl⟩
  have hlen : content.length = m := by
    rw [hcontent, List.length_append, length_frameFields, List.length_take]
    omega
  have hsize : (lengthHeader m ++ content).length = 4 + m := by
    rw [List.length_append, length_lengthHeader, hlen]
  rw [← hcontent] at hframe
  have hraw := @writeRaw_frame (lengthHeader m ++ content) (by omega)
  constructor
  · rintro ⟨frame, hframe', hsent⟩
    obtain rfl := Except.ok.inj (hframe.symm.trans hframe')
    by_contra hcond
    obtain ⟨hwrapped, hsmall⟩ := not_or.mp hcond
    rw [if_neg (by omega)] at hraw
    rcases hsent with hrejected | ⟨-, hwhole⟩
    · rw [hraw] at hrejected
      cases hrejected
    · -- a payload that wraps the length is longer than the content
      have hle := ((whole_iff hmlt hlen).mp hwhole).length_le
      omega
  · intro hcond
    refine ⟨_, hframe, ?_⟩
    by_cases hbig : Writer.maxFrameSize < m
    · rw [if_pos (by omega)] at hraw
      exact Or.inl hraw
    · rw [if_neg (by omega)] at hraw
      refine Or.inr ⟨hraw, (whole_iff hmlt hlen).mpr ?_⟩
      have hfits := hcond.resolve_right hbig
      rw [Nat.mod_eq_of_lt hfits] at hm
      rw [hcontent, List.take_of_length_le (by omega)]
      exact List.suffix_append _ _

/-- Behind the flags of a frame without trace, a payload of `2 ^ 32 - 1` bytes makes the length zero. -/
theorem wrapped_frame_not_sendable : ¬ Sendable 0 (List.replicate (2 ^ 32 - 1) 0) [] := by
  rintro ⟨frame, hframe, -⟩
  have hfields : fieldsLength [] = 1 := by decide
  have hm : 0 = (fieldsLength [] + (List.replicate (2 ^ 32 - 1) (0 : UInt8)).length) % 2 ^ 32 := by
    rw [hfields, List.length_replicate]
    omega
  obtain ⟨p, hp⟩ := serializeFrameTraced_short 0 hm (by rw [hfields]; decide)
  rw [hp] at hframe
  cases hframe

end Atlas.Ipc
