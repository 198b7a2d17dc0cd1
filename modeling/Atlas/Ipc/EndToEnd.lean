import Atlas.Ipc.ListenerRuns
import Atlas.Ipc.TracedPayload
import Atlas.Ipc.WriterFraming
import Atlas.Ipc.WriterOrder
import Atlas.Lib.Places

/-!
# From `WriteRaw` to the listener

* `Message` : what is handed to `SerializeFrameTraced`; `Message.Fits` : its frame is sent as it is;
* `heard` : what the listener makes of the bytes of a connection; `heard_eq` : the frames that came through whole;
* `Ships` : what stands on the connections against what the loops have written and counted, over whole runs;
* `end_to_end` : what the listeners hand on, against what was handed to the writer.
-/

namespace Atlas.Ipc
open Checked Reading

/-! ## Messages -/

structure Message where
  now : UInt64
  payload : Bytes
  traceID : Bytes
deriving Inhabited

namespace Message
variable (m : Message)

def frame : Except Panic Bytes := serializeFrameTraced m.now m.payload m.traceID

/-- The frame is not too long, and the tag does not end inside a character. -/
def Fits : Prop := fieldsLength m.traceID + m.payload.length ≤ 16777216 ∧ TagWhole m.traceID

/-- The trace that is read off the frame. -/
def trace : Option TraceInfo :=
  if Traced m.traceID then (Utf8.fromUtf8 (exchangeTag m.traceID)).map (⟨headerMillis m.now m.traceID, ·⟩) else none

def parsed : ParsedFrame := ⟨m.payload, m.trace⟩

def body : Bytes := frameFields m.now m.traceID ++ m.payload

theorem length_body : m.body.length = fieldsLength m.traceID + m.payload.length := by
  rw [body, List.length_append, length_frameFields]

variable {m}

theorem frame_eq (h : m.Fits) : m.frame = .ok (lengthHeader m.body.length ++ m.body) := by
  obtain ⟨hlen, -⟩ := h
  have hm : fieldsLength m.traceID + m.payload.length = (fieldsLength m.traceID + m.payload.length) % 2 ^ 32 :=
    (Nat.mod_eq_of_lt (by omega)).symm
  have hframe := serializeFrameTraced_fields m.now hm (Nat.le_add_right _ _)
  rw [Nat.add_sub_cancel_left, List.take_length] at hframe
  rw [frame, hframe, length_body]
  rfl

theorem parseBody_body (h : m.Fits) : parseBody m.body = .ok m.parsed := by
  obtain ⟨-, hwhole⟩ := h
  unfold body frameFields parsed trace
  by_cases htraced : Traced m.traceID
  · obtain ⟨exchange, hexchange⟩ := Option.isSome_iff_exists.mp ((Utf8.fromUtf8_isSome_iff _).mpr (hwhole htraced))
    rw [if_pos htraced, if_pos htraced, parseBody_cut_tag, hexchange]
    rfl
  · rw [if_neg htraced, if_neg htraced]
    exact parseBody_untraced (by decide)

theorem framesOf_append (h : m.Fits) (tail : Bytes) :
    framesOf (lengthHeader m.body.length ++ m.body ++ tail) = m.parsed :: framesOf tail := by
  have hlen := length_body m
  have hpos := fieldsLength_pos m.traceID
  have hmax := h.1
  rw [List.append_assoc, framesOf_frame m.body tail (by omega) (by omega), parseBody_body h]
  rfl

theorem framesOf_frame (h : m.Fits) : framesOf (lengthHeader m.body.length ++ m.body) = [m.parsed] := by
  have happend := framesOf_append h []
  rw [List.append_nil] at happend
  rw [happend, framesOf, if_pos (by simp)]

/-- Of a frame that is cut short nothing is handed on. -/
theorem framesOf_take (h : m.Fits) {n : Nat} (hn : n < 4 + m.body.length) :
    framesOf ((lengthHeader m.body.length ++ m.body).take n) = [] := by
  have hlen := length_lengthHeader m.body.length
  have hbody := length_body m
  have hpos := fieldsLength_pos m.traceID
  have hmax := h.1
  by_cases hshort : n < 4
  · rw [framesOf, if_pos]
    rw [List.length_take]
    omega
  · obtain ⟨k, rfl⟩ : ∃ k, n = 4 + k := ⟨n - 4, by omega⟩
    have htake : (lengthHeader m.body.length ++ m.body).take (4 + k) = lengthHeader m.body.length ++ m.body.take k := by
      rw [List.take_append, hlen, List.take_of_length_le (by omega), Nat.add_sub_cancel_left]
    have hcut : (m.body.take k).length = k := by
      rw [List.length_take]
      omega
    rw [htake, framesOf, if_neg (by rw [List.length_append, hlen]; omega), List.take_left' hlen, List.drop_left' hlen]
    simp only [toNat_header (show m.body.length < 2 ^ 32 by omega)]
    rw [if_neg (by omega), if_neg (by omega), if_pos (by omega)]

end Message

/-! ## The bytes of one connection -/

/-- What is handed on of a connection. -/
def heard (puts : List Put) : List ParsedFrame := framesOf (stream puts)

/-- The frames that a connection has got bytes of. -/
def begun (puts : List Put) : List Bytes := (pieces puts).map Put.frame

/-- The frames that a connection has got whole. -/
def arrived (puts : List Put) : List Bytes := ((pieces puts).filter fun p => p.n = p.frame.length).map Put.frame

theorem arrived_sublist (puts : List Put) : (arrived puts).Sublist (begun puts) := List.filter_sublist.map _

/-- Frames of messages, the last one maybe cut short, are heard as those that came whole. -/
theorem framesOf_stream {puts : List Put} (hall : ∀ p ∈ puts, p.n ≤ p.frame.length)
    (hwhole : ∀ p ∈ puts.dropLast, p.n = p.frame.length)
    (hfits : ∀ p ∈ puts, ∃ m : Message, m.Fits ∧ m.frame = .ok p.frame) :
    framesOf (stream puts) = ((puts.filter fun p => p.n = p.frame.length).map Put.frame).flatMap framesOf := by
  induction puts with
  | nil =>
    rw [stream, List.flatMap_nil, framesOf, if_pos (by simp)]
    rfl
  | cons p puts ih =>
    obtain ⟨⟨m, hm, hframe⟩, hms⟩ := List.forall_mem_cons.mp hfits
    obtain ⟨hp, hputs⟩ := List.forall_mem_cons.mp hall
    rw [Message.frame_eq hm] at hframe
    have hframe := Except.ok.inj hframe
    rw [stream, List.flatMap_cons]
    by_cases hn : p.n = p.frame.length
    · have hdrop : ∀ q ∈ puts.dropLast, q.n = q.frame.length := by
        intro q hq
        cases puts with
        | nil => exact absurd hq List.not_mem_nil
        | cons q' puts => exact hwhole q (List.mem_cons_of_mem _ hq)
      rw [List.filter_cons_of_pos (by simpa using hn), List.map_cons, List.flatMap_cons, ← ih hputs hdrop hms, hn,
        List.take_length, ← hframe, Message.framesOf_append hm, Message.framesOf_frame hm]
      rfl
    · -- a frame that is cut short is the last one
      have hlast : puts = [] := by
        by_contra hne
        apply hn
        apply hwhole p
        rw [List.dropLast_cons_of_ne_nil hne]
        exact List.mem_cons_self
      have hlen : p.frame.length = 4 + m.body.length := by
        rw [← hframe, List.length_append, length_lengthHeader]
      rw [hlast, List.filter_cons_of_neg (by simpa using hn), List.flatMap_nil, List.append_nil, ← hframe,
        Message.framesOf_take hm (by omega)]
      rfl

theorem begun_concat (puts : List Put) (p : Put) :
    begun (puts ++ [p]) = begun puts ++ if 0 < p.n then [p.frame] else [] := by
  rw [begun, begun, pieces, pieces, List.filter_append, List.map_append, List.filter_singleton]
  by_cases hn : 0 < p.n
  · rw [if_pos hn, decide_eq_true hn]
    rfl
  · rw [if_neg hn, decide_eq_false hn]
    rfl

theorem arrived_concat (puts : List Put) (p : Put) :
    arrived (puts ++ [p]) = arrived puts ++ if 0 < p.n ∧ p.n = p.frame.length then [p.frame] else [] := by
  rw [arrived, arrived, pieces, pieces, List.filter_append, List.filter_append, List.map_append, List.filter_singleton]
  by_cases hn : 0 < p.n
  · rw [decide_eq_true hn, cond_true, List.filter_singleton]
    by_cases hlen : p.n = p.frame.length
    · rw [if_pos ⟨hn, hlen⟩, decide_eq_true hlen]
      rfl
    · rw [if_neg fun h => hlen h.2, decide_eq_false hlen]
      rfl
  · rw [if_neg fun h => hn h.1, decide_eq_false hn]
    rfl

/-- One connection gets one more write. -/
theorem flatMap_modify {f : List Put → List Bytes} {q : Put} {more : List Bytes}
    (hf : ∀ puts, f (puts ++ [q]) = f puts ++ more) {conns : List (List Put)} {k : Nat} (hk : k < conns.length) :
    ((conns.modify k (· ++ [q])).flatMap f).Perm (conns.flatMap f ++ more) := by
  induction conns generalizing k with
  | nil => exact absurd hk (Nat.not_lt_zero _)
  | cons puts conns ih =>
    cases k with
    | zero =>
      rw [List.modify_zero_cons, List.flatMap_cons, List.flatMap_cons, hf, List.append_assoc, List.append_assoc]
      exact List.perm_append_comm.append_left _
    | succ k =>
      rw [List.modify_succ_cons, List.flatMap_cons, List.flatMap_cons, List.append_assoc]
      exact (ih (Nat.lt_of_succ_lt_succ hk)).append_left _

theorem mem_modify {q : Put} {conns : List (List Put)} {k : Nat} {puts : List Put}
    (h : puts ∈ conns.modify k (· ++ [q])) : puts ∈ conns ∨ ∃ old ∈ conns, puts = old ++ [q] := by
  obtain ⟨c, hc⟩ := List.mem_iff_getElem?.mp h
  rw [List.getElem?_modify] at hc
  obtain ⟨old, hold, rfl⟩ := Option.map_eq_some_iff.mp hc
  have hmem := List.mem_of_getElem? hold
  split_ifs
  · exact .inr ⟨old, hmem, rfl⟩
  · exact .inl hmem

/-! ## Whole runs of the writer -/

namespace Writer

/-- The frames counted as `FramesForwarded`. -/
def forwarded (w : Writer) : List Bytes := (w.settled.filter fun x => x.2 = .forwarded).map Prod.fst

/-- Every loop at `conn.Write` is at a connection that was dialled. -/
def Aimed (w : Writer) : Prop := ∀ frame conn, .writing frame conn ∈ w.loops → conn < w.conns.length

theorem Aimed.set {w : Writer} (h : w.Aimed) {i : Nat} {l : Loop} (hl : ∀ frame conn, l ≠ .writing frame conn)
    {conns : List (List Put)} (hconns : w.conns.length ≤ conns.length) :
    ∀ frame conn, .writing frame conn ∈ w.loops.set i l → conn < conns.length := by
  intro frame conn hmem
  rcases List.mem_or_eq_of_mem_set hmem with hmem | heq
  · exact (h frame conn hmem).trans_le hconns
  · exact absurd heq.symm (hl frame conn)

theorem Aimed.step {w w' : Writer} {e : Event} (h : w.Aimed) (hstep : w.step e = some w') : w'.Aimed := by
  cases e with
  | call request =>
    obtain ⟨c, rfl, -, -⟩ := call_cases hstep
    exact h
  | select k =>
    obtain ⟨c, -, ⟨-, -, rfl⟩ | ⟨-, -, rfl⟩ | ⟨-, _, _, -, rfl⟩ | ⟨-, -, rfl⟩ | ⟨-, -, rfl⟩⟩ := select_cases hstep
    all_goals exact h
  | connect =>
    obtain ⟨-, rfl⟩ := connect_cases hstep
    intro frame conn hmem
    rw [List.length_append, List.length_singleton]
    rcases List.mem_append.mp hmem with hmem | hmem
    · exact Nat.lt_succ_of_lt (h frame conn hmem)
    · exact absurd (List.mem_singleton.mp hmem) Loop.noConfusion
  | take i =>
    obtain ⟨frame, rest, -, -, rfl⟩ := take_cases hstep
    exact h.set (fun _ _ => Loop.noConfusion) le_rfl
  | aim i =>
    replace hstep : w.aim i = some w' := hstep
    unfold aim at hstep
    split at hstep
    · split at hstep
      · obtain rfl := Option.some.inj hstep
        exact h.set (fun _ _ => Loop.noConfusion) le_rfl
      · rename_i conn hlen
        obtain rfl := Option.some.inj hstep
        intro frame conn' hmem
        rcases List.mem_or_eq_of_mem_set hmem with hmem | heq
        · exact h frame conn' hmem
        · rw [(Loop.writing.inj heq).2]
          exact hlen ▸ Nat.lt_succ_self conn
    · exact absurd hstep (Option.some_ne_none _).symm
  | put i n err =>
    obtain ⟨frame, conn, -, -, rfl⟩ := put_cases hstep
    exact h.set (fun _ _ => Loop.noConfusion) (List.length_modify ..).ge
  | exit i =>
    obtain ⟨-, -, rfl⟩ := exit_cases hstep
    exact h.set (fun _ _ => Loop.noConfusion) le_rfl
  | close =>
    obtain rfl := Option.some.inj hstep
    exact h

/-- A step that is no write leaves the frames that are forwarded. -/
theorem forwarded_of_step {w w' : Writer} {e : Event} (h : w.step e = some w') (hput : ∀ i n err, e ≠ .put i n err) :
    w'.forwarded = w.forwarded := by
  cases e with
  | call request =>
    obtain ⟨c, rfl, -, -⟩ := call_cases h
    rfl
  | select k =>
    obtain ⟨c, -, ⟨-, -, rfl⟩ | ⟨-, -, rfl⟩ | ⟨-, _, _, -, rfl⟩ | ⟨-, -, rfl⟩ | ⟨-, -, rfl⟩⟩ := select_cases h
    all_goals rfl
  | connect =>
    obtain ⟨-, rfl⟩ := connect_cases h
    rfl
  | take i =>
    obtain ⟨frame, rest, -, -, rfl⟩ := take_cases h
    rfl
  | aim i =>
    obtain ⟨frame, -, rfl | ⟨conn, rfl⟩⟩ := aim_cases h
    · simp [forwarded, settle, List.filter_append]
    · rfl
  | put i n err => exact absurd rfl (hput i n err)
  | exit i =>
    obtain ⟨-, -, rfl⟩ := exit_cases h
    rfl
  | close =>
    obtain rfl := Option.some.inj h
    rfl

end Writer

namespace Numbered

/-- What stands on the connections, against what the loops have written and counted. -/
structure Ships (s : Numbered) : Prop where
  aimed : s.writer.Aimed
  fits : ∀ puts ∈ s.writer.conns, ∀ p ∈ puts, p.n ≤ p.frame.length
  lined : ∀ puts ∈ s.writer.conns, (begun puts).Sublist (s.written.map Prod.snd)
  listed : (s.writer.conns.flatMap begun).Perm (s.written.map Prod.snd)
  forwarded : s.writer.forwarded.Subperm (s.writer.conns.flatMap arrived)
  apart : (s.written.map Prod.fst).Nodup
  free : ∀ x ∈ s.written, ∀ i p f, s.Holds i p f → x.1 ≠ p

theorem ships_newNumbered : newNumbered.Ships where
  aimed _ _ hmem := absurd hmem List.not_mem_nil
  fits _ hmem := absurd hmem List.not_mem_nil
  lined _ hmem := absurd hmem List.not_mem_nil
  listed := List.Perm.nil
  forwarded := List.nil_subperm
  apart := List.nodup_nil
  free _ hmem := absurd hmem List.not_mem_nil

theorem written_of_step {s s' : Numbered} {e : Event} (h : s.step e = some s') (hput : ∀ i n err, e ≠ .put i n err) :
    s'.written = s.written := by
  obtain ⟨w', -, rfl⟩ := Option.map_eq_some_iff.mp h
  cases e with
  | put i n err => exact absurd rfl (hput i n err)
  | call _ | select _ | connect | take _ | aim _ | exit _ | close => rfl

theorem Ships.free_step {s s' : Numbered} {e : Event} (h : s.Ships) (hs : s.Inv) (hstep : s.step e = some s') :
    (s'.written.map Prod.fst).Nodup ∧ ∀ x ∈ s'.written, ∀ i p f, s'.Holds i p f → x.1 ≠ p := by
  rcases hs.written_cases hstep with hsame | ⟨i, n, err, p, frame, rfl, hn, hheld, hwritten, hrest⟩
  · rw [hsame]
    refine ⟨h.apart, fun x hx j q g hg => ?_⟩
    rcases hs.step_cases hstep with hshrinks | ⟨i, rfl⟩
    · exact h.free x hx j q g (hshrinks.holds j q g hg)
    · rcases holds_take hstep hg with ⟨-, rfl⟩ | ⟨-, hold⟩
      · exact (hs.place_lt hx).ne
      · exact h.free x hx j q g hold
  · rw [hwritten]
    constructor
    · rw [List.map_append, List.map_singleton, List.nodup_append]
      refine ⟨h.apart, List.nodup_singleton _, fun q hq q' hq' => ?_⟩
      obtain ⟨x, hx, rfl⟩ := List.mem_map.mp hq
      rw [List.mem_singleton.mp hq']
      exact h.free x hx i p frame hheld
    · intro x hx j q g hg
      obtain ⟨hold, hne⟩ := hrest j q g hg
      rcases List.mem_append.mp hx with hx | hx
      · exact h.free x hx j q g hold
      · rw [List.mem_singleton.mp hx]
        rintro rfl
        exact hne (hs.distinct j i p g frame hold hheld)

/-- A write of `n` bytes of a frame that is not empty. -/
theorem Ships.put {s s' : Numbered} {i n : Nat} {err : Bool} (h : s.Ships) (hs : s.Inv) (hw : s.writer.Inv)
    (hpos : ∀ frame ∈ s.writer.accepted, 0 < frame.length) (hstep : s.step (.put i n err) = some s') : s'.Ships := by
  have hfree := h.free_step hs hstep
  obtain ⟨w', hwstep, rfl⟩ := Option.map_eq_some_iff.mp hstep
  have haimed := h.aimed.step hwstep
  obtain ⟨frame, conn, hloop, hn, rfl⟩ := Writer.put_cases hwstep
  obtain ⟨p, hp⟩ : ∃ p, s.positions[i]? = some p :=
    ⟨_, List.getElem?_eq_getElem (hs.positions ▸ (List.getElem?_eq_some_iff.mp hloop).1)⟩
  have hconn := h.aimed frame conn (List.mem_of_getElem? hloop)
  have hframe : 0 < frame.length := by
    apply hpos
    rw [hw.fifo]
    exact List.mem_append_left _ (List.mem_of_getElem? (hs.held i p frame ⟨hp, _, hloop, rfl⟩))
  have hwritten : (s.written ++ s.puts i n).map Prod.snd =
      s.written.map Prod.snd ++ if 0 < n then [frame] else [] := by
    rw [puts_of_writing hp hloop, List.map_append]
    split_ifs <;> rfl
  refine ⟨haimed, ?_, ?_, ?_, ?_, hfree.1, hfree.2⟩
  · intro puts hmem q hq
    rcases mem_modify hmem with hold | ⟨old, hold, rfl⟩
    · exact h.fits puts hold q hq
    · rcases List.mem_append.mp hq with hq | hq
      · exact h.fits old hold q hq
      · rw [List.mem_singleton.mp hq]
        exact hn
  · intro puts hmem
    show (_ : List Bytes).Sublist ((s.written ++ s.puts i n).map Prod.snd)
    rw [hwritten]
    rcases mem_modify hmem with hold | ⟨old, hold, rfl⟩
    · exact (h.lined puts hold).trans (List.sublist_append_left _ _)
    · rw [begun_concat]
      exact (h.lined old hold).append (List.Sublist.refl _)
  · show (List.flatMap _ (s.writer.conns.modify conn _)).Perm ((s.written ++ s.puts i n).map Prod.snd)
    rw [hwritten]
    exact (flatMap_modify (fun puts => begun_concat puts ⟨frame, n⟩) hconn).trans (h.listed.append_right _)
  · have hmore := flatMap_modify (fun puts => arrived_concat puts ⟨frame, n⟩) hconn
    apply List.Subperm.trans _ hmore.symm.subperm
    have hforwarded : ((s.writer.record conn ⟨frame, n⟩).settle i frame (Writer.outcome frame n err)).forwarded =
        s.writer.forwarded ++ if Writer.outcome frame n err = .forwarded then [frame] else [] := by
      unfold Writer.forwarded
      show ((s.writer.settled ++ [(frame, Writer.outcome frame n err)]).filter _).map _ = _
      rw [List.filter_append, List.map_append, List.filter_singleton]
      by_cases hout : Writer.outcome frame n err = .forwarded
      · rw [if_pos hout, decide_eq_true hout]
        rfl
      · rw [if_neg hout, decide_eq_false hout]
        rfl
    show ((s.writer.record conn ⟨frame, n⟩).settle i frame (Writer.outcome frame n err)).forwarded.Subperm _
    rw [hforwarded]
    by_cases hout : Writer.outcome frame n err = .forwarded
    · have hlen : n = frame.length := by
        unfold Writer.outcome at hout
        split_ifs at hout with herr hne
        exact not_not.mp hne
      rw [if_pos hout, if_pos ⟨hlen ▸ hframe, hlen⟩]
      exact h.forwarded.append (List.Subperm.refl _)
    · rw [if_neg hout, List.append_nil]
      exact h.forwarded.trans (List.sublist_append_left _ _).subperm

theorem Ships.step {s s' : Numbered} {e : Event} (h : s.Ships) (hs : s.Inv) (hw : s.writer.Inv)
    (hpos : ∀ frame ∈ s.writer.accepted, 0 < frame.length) (hstep : s.step e = some s') : s'.Ships := by
  by_cases hput : ∃ i n err, e = .put i n err
  · obtain ⟨i, n, err, rfl⟩ := hput
    exact h.put hs hw hpos hstep
  · have hne : ∀ i n err, e ≠ .put i n err := fun i n err he => hput ⟨i, n, err, he⟩
    have hfree := h.free_step hs hstep
    have hwritten := written_of_step hstep hne
    obtain ⟨w', hwstep, rfl⟩ := Option.map_eq_some_iff.mp hstep
    have hconns := Writer.conns_of_step hwstep hne
    have hmem (puts : List Put) (hputs : puts ∈ w'.conns) : puts ∈ s.writer.conns ∨ puts = [] := by
      rcases hconns with hsame | hmore
      · exact .inl (hsame ▸ hputs)
      · rw [hmore] at hputs
        exact (List.mem_append.mp hputs).imp_right List.mem_singleton.mp
    have hflat (f : List Put → List Bytes) (hnil : f [] = []) : w'.conns.flatMap f = s.writer.conns.flatMap f := by
      rcases hconns with hsame | hmore
      · rw [hsame]
      · rw [hmore, List.flatMap_append, List.flatMap_singleton, hnil, List.append_nil]
    refine ⟨?_, ?_, ?_, ?_, ?_, hfree.1, hfree.2⟩
    all_goals rw [writer_note]
    · exact h.aimed.step hwstep
    · intro puts hputs
      rcases hmem puts hputs with hold | rfl
      · exact h.fits puts hold
      · exact fun p hp => absurd hp List.not_mem_nil
    · intro puts hputs
      rw [hwritten]
      rcases hmem puts hputs with hold | rfl
      · exact h.lined puts hold
      · exact List.nil_sublist _
    · rw [hwritten, hflat begun rfl]
      exact h.listed
    · rw [Writer.forwarded_of_step hwstep hne, hflat arrived rfl]
      exact h.forwarded

theorem exec_of_numbered {events : List Event} {s : Numbered} (h : Run.exec step newNumbered events = some s) :
    Run.exec Writer.step Writer.newWriter events = some s.writer := by
  have hwriter := exec_writer newNumbered events
  rw [h] at hwriter
  exact hwriter.symm

theorem ships_of_run {events : List Event} {s : Numbered} (h : Run.exec step newNumbered events = some s) :
    s.Ships ∧ s.Inv ∧ s.writer.Inv := by
  induction events using List.reverseRecOn generalizing s with
  | nil =>
    obtain rfl := Option.some.inj h
    exact ⟨ships_newNumbered, inv_newNumbered, Writer.inv_newWriter⟩
  | append_singleton events e ih =>
    rw [Run.exec_append] at h
    obtain ⟨t, ht, hlast⟩ := Option.bind_eq_some_iff.mp h
    obtain ⟨hships, hinv, hw⟩ := ih ht
    obtain ⟨s', hstep, hend⟩ := Option.bind_eq_some_iff.mp hlast
    obtain rfl := Option.some.inj hend
    have hw' : s'.writer.Inv := by
      obtain ⟨w', hwstep, rfl⟩ := Option.map_eq_some_iff.mp hstep
      rw [writer_note]
      exact hw.step hwstep
    exact ⟨hships.step hinv hw (Writer.accepted_pos (exec_of_numbered ht)) hstep, hinv.step hstep, hw'⟩

/-- The frames on the connections are no more than were enqueued, and of one connection they stand in that order. -/
theorem begun_accepted {events : List Event} {s : Numbered} (h : Run.exec step newNumbered events = some s) :
    (s.writer.conns.flatMap begun).Subperm s.writer.accepted ∧
      (Run.Each step OldestFirst newNumbered events →
        ∀ puts ∈ s.writer.conns, (begun puts).Sublist s.writer.accepted) := by
  obtain ⟨hships, hinv, hw⟩ := ships_of_run h
  have hplaces := hinv.places hw
  constructor
  · exact hships.listed.subperm.trans (Places.subperm_of_places hplaces hships.apart)
  · intro horder puts hputs
    have hascending := (Run.always_iff _ _).mp (inOrder_of_oldestFirst horder) events [] s (List.append_nil _).symm h
    exact (hships.lined puts hputs).trans (Places.sublist_of_places hplaces hascending.ascending)

end Numbered

/-! ## End to end -/

/-- A run that does not panic hands on what the silent one does. -/
theorem Conn.runConnection_silent_of_ok {connId : Nat} {c : Conn} {answer : Conn × Except ConnError Nat}
    (h : Conn.runConnection (logParsedFrame connId) c = .ok answer) :
    Conn.runConnection (silent connId) c = .ok answer := by
  induction c using Conn.turn_induction with
  | step c c' o frame hrun _ _ ih =>
    have hsilent : Conn.readFrame (silent connId) c = .ok (c', o) := by
      rw [hrun]
      cases frame <;> rfl
    have hlogged := hrun (logParsedFrame connId)
    by_cases hsafe : ∀ parsed ∈ frame.toList, PreviewSafe parsed.payload
    · rw [Conn.afterLog_safe connId hsafe] at hlogged
      cases o with
      | some result =>
        rw [Conn.runConnection_finished hlogged] at h
        rw [Conn.runConnection_finished hsilent, h]
      | none =>
        rw [Conn.runConnection_again hlogged] at h
        rw [Conn.runConnection_again hsilent, ih rfl h]
    · obtain ⟨parsed, hmem, hunsafe⟩ : ∃ parsed ∈ frame.toList, ¬ PreviewSafe parsed.payload := by
        simpa using hsafe
      obtain rfl : frame = some parsed := by simpa using hmem
      obtain ⟨p, hp⟩ := @Conn.afterLog_panics c' connId o parsed hunsafe
      rw [Conn.runConnection_error (hlogged.trans hp)] at h
      cases h

/-- What is heard of a connection with frames of messages: those that arrived whole. -/
theorem heard_eq {puts : List Put} (hframed : Framed puts) (hall : ∀ p ∈ puts, p.n ≤ p.frame.length)
    (hfits : ∀ frame ∈ begun puts, ∃ m : Message, m.Fits ∧ m.frame = .ok frame) :
    heard puts = (arrived puts).flatMap framesOf := by
  have hpieces : ∀ p ∈ pieces puts, p.n ≤ p.frame.length := fun p hp => hall p (List.mem_of_mem_filter hp)
  have hframes := framesOf_stream hpieces ((framed_iff puts).mp hframed) fun p hp =>
    hfits p.frame (List.mem_map_of_mem hp)
  rwa [stream_pieces] at hframes

/-- A connection that can be logged is handed on whole. -/
theorem handleConnection_heard (connId : Nat) (stats : ListenerStats) {chunks : List Bytes} {puts : List Put}
    (hstream : chunks.flatten = stream puts) (hsafe : ∀ parsed ∈ heard puts, PreviewSafe parsed.payload) :
    ∃ d result, handleConnection connId stats (chunks.map .chunk) = .ok (d, result) ∧ d.delivered = heard puts := by
  have hreceived := received_chunks connId stats chunks
  rw [hstream] at hreceived
  have hpanics := panics_iff_received connId stats (chunks.map .chunk)
  rw [hreceived] at hpanics
  cases hrun : handleConnection connId stats (chunks.map .chunk) with
  | error p =>
    obtain ⟨parsed, hmem, hunsafe⟩ := hpanics.mp ⟨p, hrun⟩
    exact absurd (hsafe parsed hmem) hunsafe
  | ok answer =>
    refine ⟨answer.1, answer.2, rfl, ?_⟩
    have hsilent := Conn.runConnection_silent_of_ok hrun
    rw [received, hsilent] at hreceived
    exact hreceived

section
variable {events : List Event} {s : Numbered} {ms : List Message}

theorem exists_message (hposted : s.writer.accepted.map Except.ok = ms.map Message.frame) (hfits : ∀ m ∈ ms, m.Fits) :
    ∀ frame ∈ s.writer.accepted, ∃ m : Message, m ∈ ms ∧ m.Fits ∧ m.frame = .ok frame := by
  intro frame hframe
  have hmem : Except.ok frame ∈ ms.map Message.frame := hposted ▸ List.mem_map_of_mem hframe
  obtain ⟨m, hm, heq⟩ := List.mem_map.mp hmem
  exact ⟨m, hm, hfits m hm, heq⟩

theorem framesOf_posted {frames : List Bytes} (hposted : frames.map Except.ok = ms.map Message.frame)
    (hfits : ∀ m ∈ ms, m.Fits) : frames.flatMap framesOf = ms.map Message.parsed := by
  induction frames generalizing ms with
  | nil =>
    obtain rfl := List.map_eq_nil_iff.mp hposted.symm
    rfl
  | cons frame frames ih =>
    cases ms with
    | nil => exact absurd hposted (by simp)
    | cons m ms =>
      obtain ⟨hframe, hrest⟩ := List.cons.inj hposted
      obtain ⟨hm, hms⟩ := List.forall_mem_cons.mp hfits
      rw [Message.frame_eq hm] at hframe
      rw [List.flatMap_cons, ih hrest hms, Except.ok.inj hframe, Message.framesOf_frame hm]
      rfl

theorem framed_of_run (hexec : Run.exec Numbered.step Numbered.newNumbered events = some s)
    (hframing : Run.Each Writer.step Writer.KeepsFraming Writer.newWriter events) :
    ∀ puts ∈ s.writer.conns, Framed puts :=
  (Run.always_iff _ _).mp ((Writer.framed_iff_keepsFraming events).mpr hframing) events [] s.writer
    (List.append_nil _).symm (Numbered.exec_of_numbered hexec)

theorem subperm_flatMap {frames others : List Bytes} (h : frames.Subperm others) :
    (frames.flatMap framesOf).Subperm (others.flatMap framesOf) := by
  obtain ⟨middle, hperm, hsub⟩ := h
  exact ⟨_, hperm.flatMap_right _, hsub.flatMap _⟩

/-- **From the writer to the listener**: when no step of a run breaks the framing, the listener of a connection hands on
exactly the messages whose frames arrived there whole, however the bytes are cut into chunks; over all connections no
message more often than it was enqueued, as many as are counted as forwarded at least, and, when the oldest frame is
always written first, in the order of the enqueuing on every connection. -/
theorem end_to_end (hexec : Run.exec Numbered.step Numbered.newNumbered events = some s)
    (hframing : Run.Each Writer.step Writer.KeepsFraming Writer.newWriter events)
    (hposted : s.writer.accepted.map Except.ok = ms.map Message.frame) (hfits : ∀ m ∈ ms, m.Fits)
    (hsafe : ∀ m ∈ ms, PreviewSafe m.payload) :
    ∃ sent : List Put → List Message,
      (∀ puts ∈ s.writer.conns, (arrived puts).map Except.ok = (sent puts).map Message.frame ∧
        (∀ m ∈ sent puts, m ∈ ms) ∧
        ∀ connId stats (chunks : List Bytes), chunks.flatten = stream puts →
          ∃ d result, handleConnection connId stats (chunks.map .chunk) = .ok (d, result) ∧
            d.delivered = (sent puts).map Message.parsed) ∧
      ((s.writer.conns.flatMap sent).map Message.parsed).Subperm (ms.map Message.parsed) ∧
      s.writer.metrics.framesForwarded ≤ (s.writer.conns.flatMap sent).length ∧
      (Run.Each Numbered.step Numbered.OldestFirst Numbered.newNumbered events →
        ∀ puts ∈ s.writer.conns, ((sent puts).map Message.parsed).Sublist (ms.map Message.parsed)) := by
  obtain ⟨hships, -, hw⟩ := Numbered.ships_of_run hexec
  obtain ⟨hsub, horder⟩ := Numbered.begun_accepted hexec
  choose! msg hmem hfit hframe using exists_message hposted hfits
  have hall : s.writer.accepted.flatMap framesOf = ms.map Message.parsed := framesOf_posted hposted hfits
  have hbegun (puts : List Put) (hputs : puts ∈ s.writer.conns) (frame : Bytes) (hbegan : frame ∈ begun puts) :
      frame ∈ s.writer.accepted := hsub.subset (List.mem_flatMap.mpr ⟨puts, hputs, hbegan⟩)
  have harrived (puts : List Put) (hputs : puts ∈ s.writer.conns) (frame : Bytes) (hwhole : frame ∈ arrived puts) :
      frame ∈ s.writer.accepted := hbegun puts hputs frame ((arrived_sublist puts).subset hwhole)
  have hsent (puts : List Put) (hputs : puts ∈ s.writer.conns) :
      (arrived puts).map Except.ok = ((arrived puts).map msg).map Message.frame := by
    rw [List.map_map]
    exact List.map_congr_left fun frame hwhole => (hframe frame (harrived puts hputs frame hwhole)).symm
  have hheard (puts : List Put) (hputs : puts ∈ s.writer.conns) :
      (arrived puts).flatMap framesOf = ((arrived puts).map msg).map Message.parsed := by
    apply framesOf_posted (hsent puts hputs)
    intro m hm
    obtain ⟨frame, hwhole, rfl⟩ := List.mem_map.mp hm
    exact hfit frame (harrived puts hputs frame hwhole)
  refine ⟨fun puts => (arrived puts).map msg, fun puts hputs => ⟨hsent puts hputs, ?_, ?_⟩, ?_, ?_, ?_⟩
  · intro m hm
    obtain ⟨frame, hwhole, rfl⟩ := List.mem_map.mp hm
    exact hmem frame (harrived puts hputs frame hwhole)
  · intro connId stats chunks hstream
    have hparsed : heard puts = ((arrived puts).map msg).map Message.parsed := by
      rw [← hheard puts hputs]
      apply heard_eq (framed_of_run hexec hframing puts hputs) (hships.fits puts hputs)
      exact fun frame hbegan => ⟨msg frame, hfit frame (hbegun puts hputs frame hbegan),
        hframe frame (hbegun puts hputs frame hbegan)⟩
    rw [← hparsed]
    apply handleConnection_heard connId stats hstream
    intro parsed hp
    rw [hparsed] at hp
    obtain ⟨m, hm, rfl⟩ := List.mem_map.mp hp
    obtain ⟨frame, hwhole, rfl⟩ := List.mem_map.mp hm
    exact hsafe _ (hmem frame (harrived puts hputs frame hwhole))
  · have hflat : (s.writer.conns.flatMap fun puts => (arrived puts).map msg).map Message.parsed =
        (s.writer.conns.flatMap arrived).flatMap framesOf := by
      rw [List.map_flatMap, List.flatMap_assoc]
      exact List.flatMap_congr fun puts hputs => (hheard puts hputs).symm
    rw [hflat, ← hall]
    exact subperm_flatMap ((List.Sublist.flatMap_right _ fun puts _ => arrived_sublist puts).subperm.trans hsub)
  · have hcount : s.writer.metrics.framesForwarded = s.writer.forwarded.length := by
      have hcounted := hw.counted .forwarded
      rw [List.count_eq_length_filter, List.filter_map, List.length_map] at hcounted
      rw [Writer.forwarded, List.length_map]
      exact hcounted
    rw [hcount, ← List.map_flatMap, List.length_map]
    exact hships.forwarded.length_le
  · intro holdest puts hputs
    rw [← hheard puts hputs, ← hall]
    exact ((arrived_sublist puts).trans (horder holdest puts hputs)).flatMap _

end

def bybitFrame : Bytes :=
  [0, 0, 0, 17, 1] ++ [0, 0, 0, 0, 0, 0, 0, 178] ++ [5, 98, 121, 98, 105, 116] ++ [0x7B, 0x7D]

def bybitRun : List Ipc.Event :=
  [.connect, .call (.writeRaw bybitFrame), .select 0, .take 0, .aim 0, .put 0 bybitFrame.length false]

/-- Its connection has got nothing when the frame is written. -/
theorem keepsFraming_bybitRun : Run.Each Writer.step Writer.KeepsFraming Writer.newWriter bybitRun := by
  intro s₁ h₁
  obtain rfl := Option.some.inj h₁
  refine ⟨trivial, fun s₂ h₂ => ?_⟩
  obtain rfl := Option.some.inj h₂
  refine ⟨trivial, fun s₃ h₃ => ?_⟩
  obtain rfl := Option.some.inj h₃
  refine ⟨trivial, fun s₄ h₄ => ?_⟩
  obtain rfl := Option.some.inj h₄
  refine ⟨trivial, fun s₅ h₅ => ?_⟩
  obtain rfl := Option.some.inj h₅
  refine ⟨trivial, fun s₆ h₆ => ⟨?_, trivial⟩⟩
  intro frame conn puts hloop hconn hcut
  obtain ⟨-, rfl⟩ := Loop.writing.inj (Option.some.inj hloop)
  obtain rfl := Option.some.inj hconn
  obtain ⟨p, hp, -⟩ := hcut
  exact absurd hp List.not_mem_nil

def bybitMessage : Message := ⟨0, [0x7B, 0x7D], Utf8.bytes "bybit-178-01"⟩

theorem frame_bybitMessage : bybitMessage.frame = .ok bybitFrame := by
  have hframe : bybitMessage.frame.toOption = some bybitFrame := by decide +kernel
  cases hserialized : bybitMessage.frame with
  | error p =>
    rw [hserialized] at hframe
    cases hframe
  | ok frame =>
    rw [hserialized] at hframe
    rw [Option.some.inj hframe]

/-- A frame of Bybit, from one end to the other. -/
theorem end_to_end_bybit : ∃ d result, handleConnection 1 {} [.chunk bybitFrame] = .ok (d, result) ∧
    d.delivered = [⟨[0x7B, 0x7D], some ⟨178, "bybit"⟩⟩] := by
  obtain ⟨s, hexec⟩ := Option.isSome_iff_exists.mp
    (show (Run.exec Numbered.step Numbered.newNumbered bybitRun).isSome by decide)
  have hstate : (Run.exec Numbered.step Numbered.newNumbered bybitRun).map (fun s =>
      (s.writer.accepted, s.writer.conns)) = some ([bybitFrame], [[⟨bybitFrame, bybitFrame.length⟩]]) := by decide
  rw [hexec] at hstate
  obtain ⟨haccepted, hconns⟩ := Prod.mk.inj (Option.some.inj hstate)
  have hposted : s.writer.accepted.map Except.ok = [bybitMessage].map Message.frame := by
    rw [haccepted, List.map_singleton, List.map_singleton, frame_bybitMessage]
  have htag : Utf8.Valid (exchangeTag bybitMessage.traceID) := (Utf8.fromUtf8_isSome_iff _).mp (by decide +kernel)
  have hfits : ∀ m ∈ [bybitMessage], m.Fits := List.forall_mem_singleton.mpr ⟨by decide +kernel, fun _ => htag⟩
  have hsafe : ∀ m ∈ [bybitMessage], PreviewSafe m.payload := List.forall_mem_singleton.mpr (.inl (by decide +kernel))
  obtain ⟨sent, hconn, -⟩ := end_to_end hexec keepsFraming_bybitRun hposted hfits hsafe
  obtain ⟨hframes, hms, hhandled⟩ := hconn [⟨bybitFrame, bybitFrame.length⟩]
    (by rw [hconns]; exact List.mem_singleton_self _)
  obtain ⟨d, result, hrun, hdelivered⟩ := hhandled 1 {} [bybitFrame] (by decide)
  -- one frame arrived, so one message was handed on
  have hone : (sent [⟨bybitFrame, bybitFrame.length⟩]).length = 1 := by
    have hlen := congrArg List.length hframes
    rw [List.length_map, List.length_map] at hlen
    rw [← hlen]
    decide
  have hsent : sent [⟨bybitFrame, bybitFrame.length⟩] = [bybitMessage] :=
    List.eq_replicate_iff.mpr ⟨hone, fun m hm => List.mem_singleton.mp (hms m hm)⟩
  have hparsed : bybitMessage.parsed = ⟨[0x7B, 0x7D], some ⟨178, "bybit"⟩⟩ := by decide +kernel
  rw [hsent, List.map_singleton, hparsed] at hdelivered
  exact ⟨d, result, hrun, hdelivered⟩

end Atlas.Ipc
