import Atlas.Ipc.WriterRuns

/-!
# The buffer accounting of the IPC writer

* `Accounting` : where the frames of the calls are, and how the two backpressure counters say so;
* `Sequential` : one producer, whose next call waits for the one before;
* `accounting_of_run` : the accounting holds in every state of every run, and one producer never meets an overflow.
-/

namespace Atlas.Ipc

/-- The frame of a call that returned `nil`. -/
def Call.sent (c : Call) : Option Bytes := if c.state = .returned none then some c.frame else none

/-- The frame of a call that returned the overflow error. -/
def Call.refused (c : Call) : Option Bytes :=
  if c.state = .returned (some c.request.overflow) then some c.frame else none

/-- The call returned an error. -/
def Call.failed (c : Call) : Bool :=
  match c.state with
  | .returned (some _) => true
  | _ => false

/-- A rejected request does not fail with an overflow. -/
theorem Request.frame_error_ne_overflow {request : Request} {err : WriteError}
    (h : request.frame = .ok (.error err)) : err ≠ request.overflow := by
  rintro rfl
  cases request with
  | write payload =>
    by_cases hzero : payload.length = 0
    · simp [Request.frame, Request.overflow, hzero] at h
    by_cases hmax : payload.length > Writer.maxFrameSize
    · simp [Request.frame, Request.overflow, hzero, hmax] at h
    · rw [Request.frame, if_neg hzero, if_neg hmax] at h
      cases hframe : serializeFrame payload with
      | error p =>
        rw [hframe] at h
        cases h
      | ok frame =>
        rw [hframe] at h
        cases h
  | writeRaw frame =>
    by_cases hzero : frame.length = 0
    · simp [Request.frame, Request.overflow, hzero] at h
    by_cases hmax : frame.length > Writer.maxFrameSize + 4
    · simp [Request.frame, Request.overflow, hzero, hmax] at h
    · simp [Request.frame, hzero, hmax] at h

namespace Writer

/-- The frames of the calls that returned `nil`, in the order of the calls. -/
def sentFrames (w : Writer) : List Bytes := w.calls.filterMap Call.sent

/-- The frames of the calls that returned the overflow error. -/
def refusedFrames (w : Writer) : List Bytes := w.calls.filterMap Call.refused

structure Accounting (w : Writer) : Prop where
  bounded : w.buffer.length ≤ maxBufferSize
  /-- `accepted` has the frames of the calls that returned `nil`, in the order they were enqueued. -/
  enqueued : w.accepted.Perm w.sentFrames
  conserved : w.sentFrames.length = w.buffer.length + (w.left .taken).length + (w.left .evicted).length
  /-- Taken or evicted, a frame left the buffer in the order of the enqueuing. -/
  fifo : w.accepted = w.removed.map Prod.fst ++ w.buffer
  evictions : w.metrics.backpressure = (w.left .evicted).length
  overflows : w.metrics.backpressureOverflow = w.refusedFrames.length
  /-- A call that failed was rejected in front of the buffer, or met an overflow. -/
  failures : ∀ c ∈ w.calls, ∀ err, c.state = .returned (some err) →
    c.request.frame = .ok (.error err) ∨ err = c.request.overflow

/-- What the calls and the counter of the overflows add to `Inv`. -/
structure CallInv (w : Writer) : Prop where
  bounded : w.buffer.length ≤ maxBufferSize
  enqueued : w.accepted.Perm w.sentFrames
  overflows : w.metrics.backpressureOverflow = w.refusedFrames.length
  failures : ∀ c ∈ w.calls, ∀ err, c.state = .returned (some err) →
    c.request.frame = .ok (.error err) ∨ err = c.request.overflow

theorem callInv_newWriter : newWriter.CallInv where
  bounded := by decide
  enqueued := List.Perm.refl _
  overflows := rfl
  failures c hc := absurd hc List.not_mem_nil

/-- A call that goes on, and what it gets from it. -/
theorem calls_set {w : Writer} {k : Nat} {c : Call} (hc : w.calls[k]? = some c) (state : CallState)
    (hopen : ∀ err, c.state ≠ .returned err) :
    ((w.calls.set k { c with state }).filterMap Call.sent).Perm
        (w.sentFrames ++ (Call.sent { c with state }).toList) ∧
      ((w.calls.set k { c with state }).filterMap Call.refused).length =
        w.refusedFrames.length + (Call.refused { c with state }).toList.length := by
  have hsent := Run.perm_filterMap_set Call.sent { c with state } hc
  have hrefused := (Run.perm_filterMap_set Call.refused { c with state } hc).length_eq
  rw [Call.sent, if_neg (hopen _), Option.toList_none, List.append_nil] at hsent
  rw [List.length_append, List.length_append, Call.refused, if_neg (hopen _), Option.toList_none, List.length_nil,
    Nat.add_zero] at hrefused
  exact ⟨hsent, hrefused⟩

theorem failures_set {w : Writer} (hw : w.CallInv) {k : Nat} {c : Call} {state : CallState}
    (hstate : ∀ err, state = .returned (some err) → err = c.request.overflow) :
    ∀ d ∈ w.calls.set k { c with state }, ∀ err, d.state = .returned (some err) →
      d.request.frame = .ok (.error err) ∨ err = d.request.overflow := by
  intro d hd err herr
  rcases List.mem_or_eq_of_mem_set hd with hold | rfl
  · exact hw.failures d hold err herr
  · exact Or.inr (hstate err herr)

theorem CallInv.call {w w' : Writer} {request : Request} (hw : w.CallInv) (h : w.call request = some w') :
    w'.CallInv := by
  obtain ⟨c, rfl, hrequest, hstate⟩ := call_cases h
  have hsent : c.sent = none := by
    rw [Call.sent, if_neg]
    rcases hstate with ⟨err, herr, -⟩ | ⟨hsending, -⟩
    · simp [herr]
    · simp [hsending]
  have hrefused : c.refused = none := by
    rw [Call.refused, if_neg]
    rcases hstate with ⟨err, herr, hframe⟩ | ⟨hsending, -⟩
    · rw [herr, hrequest]
      simpa using Request.frame_error_ne_overflow hframe
    · simp [hsending]
  refine ⟨hw.bounded, ?_, ?_, fun d hd err herr => ?_⟩
  · show w.accepted.Perm ((w.calls ++ [c]).filterMap Call.sent)
    rw [List.filterMap_append, List.filterMap_cons_none hsent, List.filterMap_nil, List.append_nil]
    exact hw.enqueued
  · show w.metrics.backpressureOverflow = ((w.calls ++ [c]).filterMap Call.refused).length
    rw [List.filterMap_append, List.filterMap_cons_none hrefused, List.filterMap_nil, List.append_nil]
    exact hw.overflows
  · rcases List.mem_append.mp hd with hold | hnew
    · exact hw.failures d hold err herr
    · obtain rfl := List.mem_singleton.mp hnew
      rcases hstate with ⟨err', herr', hframe⟩ | ⟨hsending, -⟩
      · obtain rfl : err' = err := by simpa [herr'] using herr
        exact Or.inl (hrequest ▸ hframe)
      · rw [hsending] at herr
        cases herr

theorem CallInv.move {w : Writer} {k : Nat} {c : Call} {state : CallState} (hw : w.CallInv)
    (hc : w.calls[k]? = some c) (hopen : ∀ err, c.state ≠ .returned err) (hstate : ∀ err, state ≠ .returned err) :
    (w.move k c state).CallInv := by
  obtain ⟨hsent, hrefused⟩ := calls_set hc state hopen
  rw [Call.sent, if_neg (hstate _), Option.toList_none, List.append_nil] at hsent
  rw [Call.refused, if_neg (hstate _), Option.toList_none, List.length_nil, Nat.add_zero] at hrefused
  exact ⟨hw.bounded, hw.enqueued.trans hsent.symm, hw.overflows.trans hrefused.symm,
    failures_set hw fun err herr => absurd herr (hstate _)⟩

theorem CallInv.send {w : Writer} {k : Nat} {c : Call} (hw : w.CallInv) (hc : w.calls[k]? = some c)
    (hopen : ∀ err, c.state ≠ .returned err) (hroom : w.buffer.length < maxBufferSize) : (w.send k c).CallInv := by
  obtain ⟨hsent, hrefused⟩ := calls_set hc (.returned none) hopen
  rw [Call.sent, if_pos rfl] at hsent
  rw [Call.refused, if_neg (by simp), Option.toList_none, List.length_nil, Nat.add_zero] at hrefused
  refine ⟨?_, (hw.enqueued.append_right _).trans hsent.symm, hw.overflows.trans hrefused.symm,
    failures_set hw fun err herr => by simp at herr⟩
  show (w.buffer ++ [c.frame]).length ≤ maxBufferSize
  rw [List.length_append, List.length_singleton]
  exact hroom

theorem CallInv.refuse {w : Writer} {k : Nat} {c : Call} (hw : w.CallInv) (hc : w.calls[k]? = some c)
    (hopen : ∀ err, c.state ≠ .returned err) : (w.refuse k c).CallInv := by
  obtain ⟨hsent, hrefused⟩ := calls_set hc (.returned (some c.request.overflow)) hopen
  rw [Call.sent, if_neg (by simp), Option.toList_none, List.append_nil] at hsent
  rw [Call.refused, if_pos rfl] at hrefused
  refine ⟨hw.bounded, hw.enqueued.trans hsent.symm, ?_, failures_set hw fun err herr => ?_⟩
  · show w.metrics.backpressureOverflow + 1 = _
    rw [hw.overflows]
    exact hrefused.symm
  · simpa using herr.symm

theorem CallInv.select {w w' : Writer} {k : Nat} (hw : w.CallInv) (h : w.select k = some w') : w'.CallInv := by
  obtain ⟨c, hc, hcases⟩ := select_cases h
  obtain ⟨hstate, hroom, rfl⟩ | ⟨hstate, -, rfl⟩ | ⟨hstate, oldest, rest, hbuffer, rfl⟩ | ⟨hstate, -, rfl⟩ |
    ⟨hstate, -, rfl⟩ := hcases
  · exact hw.send hc (fun err => by rcases hstate with hs | hs <;> simp [hs]) hroom
  · exact hw.move hc (fun err => by simp [hstate]) (fun err => by simp)
  · have hmoved : (w.move k c .resending).CallInv :=
      hw.move hc (fun err => by simp [hstate]) (fun err => by simp)
    obtain ⟨-, henqueued, hoverflows, hfailures⟩ := hmoved
    refine ⟨?_, henqueued, hoverflows, hfailures⟩
    have hbounded := hw.bounded
    rw [hbuffer, List.length_cons] at hbounded
    exact Nat.le_of_succ_le hbounded
  · exact hw.move hc (fun err => by simp [hstate]) (fun err => by simp)
  · exact hw.refuse hc (fun err => by simp [hstate])

theorem CallInv.take {w w' : Writer} {i : Nat} (hw : w.CallInv) (h : w.take i = some w') : w'.CallInv := by
  obtain ⟨frame, rest, -, hbuffer, rfl⟩ := take_cases h
  have hbounded := hw.bounded
  rw [hbuffer, List.length_cons] at hbounded
  exact ⟨Nat.le_of_succ_le hbounded, hw.enqueued, hw.overflows, hw.failures⟩

theorem CallInv.settle {w : Writer} (hw : w.CallInv) (i : Nat) (frame : Bytes) (o : Settlement) :
    (w.settle i frame o).CallInv := by
  refine ⟨hw.bounded, hw.enqueued, ?_, hw.failures⟩
  have hmetrics : (w.metrics.count o).backpressureOverflow = w.metrics.backpressureOverflow := by cases o <;> rfl
  exact hmetrics.trans hw.overflows

theorem CallInv.step {w w' : Writer} {e : Event} (hw : w.CallInv) (h : w.step e = some w') : w'.CallInv := by
  cases e with
  | call request => exact hw.call h
  | select k => exact hw.select h
  | connect =>
    obtain ⟨-, rfl⟩ := connect_cases h
    exact ⟨hw.bounded, hw.enqueued, hw.overflows, hw.failures⟩
  | take i => exact hw.take h
  | aim i =>
    obtain ⟨frame, -, rfl | ⟨conn, rfl⟩⟩ := aim_cases h
    · exact hw.settle i frame _
    · exact ⟨hw.bounded, hw.enqueued, hw.overflows, hw.failures⟩
  | put i n err =>
    obtain ⟨frame, conn, -, -, rfl⟩ := put_cases h
    have hrecord : (w.record conn ⟨frame, n⟩).CallInv := ⟨hw.bounded, hw.enqueued, hw.overflows, hw.failures⟩
    exact hrecord.settle i frame _
  | exit i =>
    obtain ⟨-, -, rfl⟩ := exit_cases h
    exact ⟨hw.bounded, hw.enqueued, hw.overflows, hw.failures⟩
  | close =>
    obtain rfl := Option.some.inj h
    exact ⟨hw.bounded, hw.enqueued, hw.overflows, hw.failures⟩

/-- What left the buffer was taken or evicted. -/
theorem length_removed (w : Writer) : w.removed.length = (w.left .taken).length + (w.left .evicted).length := by
  unfold left
  rw [List.length_map, List.length_map]
  induction w.removed with
  | nil => rfl
  | cons p removed ih =>
    obtain ⟨frame, r⟩ := p
    cases r <;> simp [ih] <;> omega

theorem Inv.accounting {w : Writer} (hw : w.Inv) (hcalls : w.CallInv) : w.Accounting := by
  refine ⟨hcalls.bounded, hcalls.enqueued, ?_, hw.fifo, hw.evicted, hcalls.overflows, hcalls.failures⟩
  have hlen := congrArg List.length hw.fifo
  rw [List.length_append, List.length_map, length_removed] at hlen
  rw [← hcalls.enqueued.length_eq, hlen]
  omega

/-! ## One producer -/

/-- A call begins when every call before it has returned. -/
def Sequential (w : Writer) : Event → Prop
  | .call _ => ∀ c ∈ w.calls, ∃ err, c.state = .returned err
  | _ => True

/-- One call at most is under way, one that is about to send again finds room, and none met an overflow. -/
structure OneProducer (w : Writer) : Prop where
  alone : ∀ (k : Nat) (c : Call), w.calls[k]? = some c → (∀ err, c.state ≠ .returned err) →
    ∀ (j : Nat) (d : Call), w.calls[j]? = some d → j ≠ k → ∃ err, d.state = .returned err
  room : ∀ c ∈ w.calls, c.state = .resending → w.buffer.length < maxBufferSize
  spared : ∀ c ∈ w.calls, c.state ≠ .returned (some c.request.overflow)

theorem oneProducer_newWriter : newWriter.OneProducer where
  alone k c hc := by simp [newWriter] at hc
  room c hc := absurd hc List.not_mem_nil
  spared c hc := absurd hc List.not_mem_nil

/-- The call under way goes on. -/
theorem OneProducer.set {w w' : Writer} {k : Nat} {c : Call} {state : CallState} (hw : w.OneProducer)
    (hc : w.calls[k]? = some c) (hopen : ∀ err, c.state ≠ .returned err)
    (hcalls : w'.calls = w.calls.set k { c with state }) (hroom : state = .resending → w'.buffer.length < maxBufferSize)
    (hspared : state ≠ .returned (some c.request.overflow)) : w'.OneProducer := by
  have hothers : ∀ (j : Nat) (d : Call), w'.calls[j]? = some d → j ≠ k →
      d ∈ w.calls ∧ ∃ err, d.state = .returned err := by
    intro j d hd hj
    rw [hcalls, List.getElem?_set_ne (Ne.symm hj)] at hd
    exact ⟨List.mem_of_getElem? hd, hw.alone k c hc hopen j d hd hj⟩
  have hself : ∀ d, w'.calls[k]? = some d → d = { c with state } := by
    intro d hd
    rw [hcalls, List.getElem?_set_self (List.getElem?_eq_some_iff.mp hc).1] at hd
    exact (Option.some.inj hd).symm
  refine ⟨fun i d hd hdopen j e he hj => ?_, fun d hd hresending => ?_, fun d hd => ?_⟩
  · obtain rfl : i = k := by
      by_contra hi
      obtain ⟨err, herr⟩ := (hothers i d hd hi).2
      exact hdopen err herr
    exact (hothers j e he hj).2
  · obtain ⟨i, hi⟩ := List.mem_iff_getElem?.mp hd
    by_cases hik : i = k
    · rw [hself d (hik ▸ hi)] at hresending
      exact hroom hresending
    · obtain ⟨err, herr⟩ := (hothers i d hi hik).2
      rw [herr] at hresending
      cases hresending
  · obtain ⟨i, hi⟩ := List.mem_iff_getElem?.mp hd
    by_cases hik : i = k
    · rw [hself d (hik ▸ hi)]
      exact hspared
    · exact hw.spared d (hothers i d hi hik).1

theorem OneProducer.call {w w' : Writer} {request : Request} (hw : w.OneProducer) (hseq : w.Sequential (.call request))
    (h : w.call request = some w') : w'.OneProducer := by
  obtain ⟨c, rfl, hrequest, hstate⟩ := call_cases h
  have hlast : ∀ (i : Nat) (d : Call), (w.calls ++ [c])[i]? = some d → (∀ err, d.state ≠ .returned err) →
      i = w.calls.length := by
    intro i d hd hopen
    by_contra hi
    by_cases hlt : i < w.calls.length
    · rw [List.getElem?_append_left hlt] at hd
      obtain ⟨err, herr⟩ := hseq d (List.mem_of_getElem? hd)
      exact hopen err herr
    · rw [List.getElem?_eq_none (by rw [List.length_append, List.length_singleton]; omega)] at hd
      cases hd
  refine ⟨fun i d hd hopen j e he hj => ?_, fun d hd hresending => ?_, fun d hd => ?_⟩
  · by_contra hreturned
    push Not at hreturned
    exact hj ((hlast j e he hreturned).trans (hlast i d hd hopen).symm)
  · rcases List.mem_append.mp hd with hold | hnew
    · obtain ⟨err, herr⟩ := hseq d hold
      rw [herr] at hresending
      cases hresending
    · obtain rfl := List.mem_singleton.mp hnew
      rcases hstate with ⟨err, herr, -⟩ | ⟨hsending, -⟩
      · rw [herr] at hresending
        cases hresending
      · rw [hsending] at hresending
        cases hresending
  · rcases List.mem_append.mp hd with hold | hnew
    · exact hw.spared d hold
    · obtain rfl := List.mem_singleton.mp hnew
      rcases hstate with ⟨err, herr, hframe⟩ | ⟨hsending, -⟩
      · rw [herr, hrequest]
        simpa using Request.frame_error_ne_overflow hframe
      · rw [hsending]
        simp

theorem OneProducer.select {w w' : Writer} {k : Nat} (hw : w.OneProducer) (hcalls : w.CallInv)
    (h : w.select k = some w') : w'.OneProducer := by
  obtain ⟨c, hc, hcases⟩ := select_cases h
  obtain ⟨hstate, -, rfl⟩ | ⟨hstate, -, rfl⟩ | ⟨hstate, oldest, rest, hbuffer, rfl⟩ | ⟨hstate, hbuffer, rfl⟩ |
    ⟨hstate, hfull, -⟩ := hcases
  · exact hw.set hc (fun err => by rcases hstate with hs | hs <;> simp [hs]) rfl (fun h => nomatch h) (by simp)
  · exact hw.set hc (fun err => by simp [hstate]) rfl (fun h => nomatch h) (by simp)
  · refine hw.set hc (fun err => by simp [hstate]) rfl (fun _ => ?_) (by simp)
    -- the frame that went out leaves room for this call's own
    have hbounded := hcalls.bounded
    rw [hbuffer, List.length_cons] at hbounded
    exact hbounded
  · refine hw.set hc (fun err => by simp [hstate]) rfl (fun _ => ?_) (by simp)
    show w.buffer.length < maxBufferSize
    rw [hbuffer]
    decide
  · exact absurd (hw.room c (List.mem_of_getElem? hc) hstate) (Nat.not_lt.mpr hfull)

/-- A step outside of the calls only takes frames out of the buffer. -/
theorem OneProducer.of_calls {w w' : Writer} (hw : w.OneProducer) (hcalls : w'.calls = w.calls)
    (hbuffer : w'.buffer.length ≤ w.buffer.length) : w'.OneProducer := by
  obtain ⟨halone, hroom, hspared⟩ := hw
  rw [← hcalls] at halone hroom hspared
  exact ⟨halone, fun c hc hstate => Nat.lt_of_le_of_lt hbuffer (hroom c hc hstate), hspared⟩

theorem OneProducer.step {w w' : Writer} {e : Event} (hw : w.OneProducer) (hcalls : w.CallInv) (hseq : w.Sequential e)
    (h : w.step e = some w') : w'.OneProducer := by
  cases e with
  | call request => exact hw.call hseq h
  | select k => exact hw.select hcalls h
  | connect =>
    obtain ⟨-, rfl⟩ := connect_cases h
    exact hw.of_calls rfl le_rfl
  | take i =>
    obtain ⟨frame, rest, -, hbuffer, rfl⟩ := take_cases h
    exact hw.of_calls rfl (by simp [hbuffer])
  | aim i =>
    obtain ⟨frame, -, rfl | ⟨conn, rfl⟩⟩ := aim_cases h
    all_goals exact hw.of_calls rfl le_rfl
  | put i n err =>
    obtain ⟨frame, conn, -, -, rfl⟩ := put_cases h
    exact hw.of_calls rfl le_rfl
  | exit i =>
    obtain ⟨-, -, rfl⟩ := exit_cases h
    exact hw.of_calls rfl le_rfl
  | close =>
    obtain rfl := Option.some.inj h
    exact hw.of_calls rfl le_rfl

/-- **The buffer accounting**: in every state of every run the accounting holds, and with one producer a call fails
only for its own frame. -/
theorem accounting_of_run {es : List Event} {w : Writer} (h : Run.exec step newWriter es = some w) :
    w.Accounting ∧ (Run.Each step Sequential newWriter es → ∀ c ∈ w.calls, ∀ err,
      c.state = .returned (some err) → c.request.frame = .ok (.error err)) := by
  have hinv := Run.exec_invariant Inv (fun _ _ _ hw hstep => hw.step hstep) inv_newWriter h
  have hcalls := Run.exec_invariant CallInv (fun _ _ _ hw hstep => hw.step hstep) callInv_newWriter h
  refine ⟨hinv.accounting hcalls, fun hseq c hc err herr => ?_⟩
  have hboth := Run.exec_invariant_of_each (fun w => w.CallInv ∧ w.OneProducer)
    (fun _ _ _ hw hseq hstep => ⟨hw.1.step hstep, hw.2.step hw.1 hseq hstep⟩)
    ⟨callInv_newWriter, oneProducer_newWriter⟩ hseq h
  refine (hcalls.failures c hc err herr).resolve_right ?_
  rintro rfl
  exact hboth.2.spared c hc herr

/-- A frame enqueued and taken. -/
theorem accounting_of_run_taken : ([[0, 0, 0, 1, 0x7B]] : List Bytes).length = 0 + 1 + 0 :=
  (@accounting_of_run [.connect, .call (.write [0x7B]), .select 0, .take 0] _ rfl).1.conserved

/-- A call with an empty payload fails in front of the buffer, and is counted nowhere. -/
theorem rejected_not_counted : ¬ ∀ es w, Run.exec step newWriter es = some w →
    w.metrics.backpressureOverflow = w.calls.countP Call.failed := by
  intro h
  have hcount := h [.connect, .call (.write [])] _ rfl
  revert hcount
  decide

end Writer

end Atlas.Ipc
