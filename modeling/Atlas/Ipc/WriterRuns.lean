import Atlas.Ipc.Writer

/-!
# The IPC writer over whole runs

* `Inv` : the buffer is first in, first out; every frame a loop took is held by a loop or settled; the counters say
  how the frames left the writer;
* `Quiescent`, `NoSilentLoss` : after `Close` and the end of the loops, where the accepted frames are.
-/

namespace Atlas.Ipc

namespace Loop

/-- The frame a loop has taken and not settled. -/
def held : Loop → Option Bytes
  | idle => none
  | holding frame => some frame
  | writing frame _ => some frame
  | exited => none

end Loop

namespace Writer

/-- The frames that left the buffer in one of the two ways. -/
def left (w : Writer) (r : Removal) : List Bytes := (w.removed.filter (·.2 = r)).map Prod.fst

def held (w : Writer) : List Bytes := w.loops.filterMap Loop.held

structure Inv (w : Writer) : Prop where
  fifo : w.accepted = w.removed.map Prod.fst ++ w.buffer
  taken : ∀ f, (w.left .taken).count f = (w.settled.map Prod.fst).count f + w.held.count f
  evicted : w.metrics.backpressure = (w.left .evicted).length
  counted : ∀ o, w.metrics.counted o = (w.settled.map Prod.snd).count o
  exited : Loop.exited ∈ w.loops → w.closed = true

theorem inv_newWriter : newWriter.Inv where
  fifo := rfl
  taken f := rfl
  evicted := rfl
  counted o := by cases o <;> rfl
  exited h := absurd h List.not_mem_nil

/-- What the loops hold after loop `i` has moved from `l` to `l'`. -/
theorem count_held_set {w : Writer} {i : Nat} {l : Loop} (l' : Loop) (h : w.loops[i]? = some l) (f : Bytes) :
    ((w.loops.set i l').filterMap Loop.held).count f + l.held.toList.count f =
      w.held.count f + l'.held.toList.count f :=
  Run.count_filterMap_set Loop.held l' h f

/-! ## The steps keep the invariant -/

theorem Inv.call {w w' : Writer} {request : Request} (hw : w.Inv) (h : w.call request = some w') : w'.Inv := by
  obtain ⟨c, rfl, -, -⟩ := call_cases h
  exact ⟨hw.fifo, hw.taken, hw.evicted, hw.counted, hw.exited⟩

theorem Inv.send {w : Writer} (hw : w.Inv) (k : Nat) (c : Call) : (w.send k c).Inv where
  fifo := by
    show w.accepted ++ [c.frame] = w.removed.map Prod.fst ++ (w.buffer ++ [c.frame])
    rw [hw.fifo, List.append_assoc]
  taken := hw.taken
  evicted := hw.evicted
  counted := hw.counted
  exited := hw.exited

theorem Inv.evict {w : Writer} (hw : w.Inv) (k : Nat) (c : Call) {oldest : Bytes} {rest : List Bytes}
    (hbuffer : w.buffer = oldest :: rest) : (w.evict k c oldest rest).Inv where
  fifo := by
    show w.accepted = (w.removed ++ [(oldest, Removal.evicted)]).map Prod.fst ++ rest
    rw [hw.fifo, hbuffer]
    simp
  taken f := by
    have hleft : (w.evict k c oldest rest).left .taken = w.left .taken := by simp [left, Writer.evict]
    rw [hleft]
    exact hw.taken f
  evicted := by
    have hleft : (w.evict k c oldest rest).left .evicted = w.left .evicted ++ [oldest] := by
      simp [left, Writer.evict]
    rw [hleft, List.length_append, List.length_singleton, ← hw.evicted]
    rfl
  counted o := by
    have hmetrics : (w.evict k c oldest rest).metrics.counted o = w.metrics.counted o := by cases o <;> rfl
    exact hmetrics.trans (hw.counted o)
  exited := hw.exited

theorem Inv.refuse {w : Writer} (hw : w.Inv) (k : Nat) (c : Call) : (w.refuse k c).Inv where
  fifo := hw.fifo
  taken := hw.taken
  evicted := hw.evicted
  counted o := by
    have hmetrics : (w.refuse k c).metrics.counted o = w.metrics.counted o := by cases o <;> rfl
    exact hmetrics.trans (hw.counted o)
  exited := hw.exited

theorem Inv.move {w : Writer} (hw : w.Inv) (k : Nat) (c : Call) (state : CallState) : (w.move k c state).Inv :=
  ⟨hw.fifo, hw.taken, hw.evicted, hw.counted, hw.exited⟩

theorem Inv.select {w w' : Writer} {k : Nat} (hw : w.Inv) (h : w.select k = some w') : w'.Inv := by
  obtain ⟨c, -, ⟨-, -, rfl⟩ | ⟨-, -, rfl⟩ | ⟨-, oldest, rest, hbuffer, rfl⟩ | ⟨-, -, rfl⟩ | ⟨-, -, rfl⟩⟩ :=
    select_cases h
  · exact hw.send k c
  · exact hw.move k c .evicting
  · exact hw.evict k c hbuffer
  · exact hw.move k c .resending
  · exact hw.refuse k c

theorem Inv.connect {w w' : Writer} (hw : w.Inv) (h : w.connect = some w') : w'.Inv := by
  obtain ⟨hclosed, rfl⟩ := connect_cases h
  refine ⟨hw.fifo, fun f => ?_, hw.evicted, hw.counted, fun hmem => ?_⟩
  · have hheld : (w.loops ++ [Loop.idle]).filterMap Loop.held = w.held := by
      rw [List.filterMap_append, List.filterMap_cons_none rfl, List.filterMap_nil, List.append_nil]
      rfl
    show (w.left .taken).count f =
      (w.settled.map Prod.fst).count f + ((w.loops ++ [Loop.idle]).filterMap Loop.held).count f
    rw [hheld]
    exact hw.taken f
  · rcases List.mem_append.mp hmem with hold | hnew
    · exact hw.exited hold
    · simp at hnew

/-- A loop that goes to a place other than the end lets no exited loop appear. -/
theorem Inv.mem_exited {w : Writer} (hw : w.Inv) {i : Nat} {l : Loop} (hl : l ≠ .exited)
    (h : Loop.exited ∈ w.loops.set i l) : w.closed = true := by
  rcases List.mem_or_eq_of_mem_set h with hold | hnew
  · exact hw.exited hold
  · exact absurd hnew.symm hl

theorem Inv.take {w w' : Writer} {i : Nat} (hw : w.Inv) (h : w.take i = some w') : w'.Inv := by
  obtain ⟨frame, rest, hloop, hbuffer, rfl⟩ := take_cases h
  refine ⟨?_, fun f => ?_, ?_, hw.counted, hw.mem_exited (by simp)⟩
  · show w.accepted = (w.removed ++ [(frame, Removal.taken)]).map Prod.fst ++ rest
    rw [hw.fifo, hbuffer]
    simp
  · have hleft : ((w.removed ++ [(frame, Removal.taken)]).filter (·.2 = .taken)).map Prod.fst =
        w.left .taken ++ [frame] := by simp [left]
    have hset := count_held_set (.holding frame) hloop f
    have htaken := hw.taken f
    show (((w.removed ++ [(frame, Removal.taken)]).filter (·.2 = .taken)).map Prod.fst).count f =
      (w.settled.map Prod.fst).count f + ((w.loops.set i (.holding frame)).filterMap Loop.held).count f
    rw [hleft, List.count_append]
    simp only [Loop.held, Option.toList, List.count_nil] at hset
    omega
  · have hleft : ((w.removed ++ [(frame, Removal.taken)]).filter (·.2 = .evicted)).map Prod.fst = w.left .evicted := by
      simp [left]
    show w.metrics.backpressure =
      (((w.removed ++ [(frame, Removal.taken)]).filter (·.2 = .evicted)).map Prod.fst).length
    rw [hleft]
    exact hw.evicted

theorem Inv.settle {w : Writer} (hw : w.Inv) {i : Nat} {l : Loop} {frame : Bytes} (hloop : w.loops[i]? = some l)
    (hheld : l.held = some frame) (o : Settlement) : (w.settle i frame o).Inv where
  fifo := hw.fifo
  taken f := by
    have hset := count_held_set .idle hloop f
    have htaken := hw.taken f
    rw [hheld] at hset
    show (w.left .taken).count f = ((w.settled ++ [(frame, o)]).map Prod.fst).count f +
      ((w.loops.set i .idle).filterMap Loop.held).count f
    have hmap : (w.settled ++ [(frame, o)]).map Prod.fst = w.settled.map Prod.fst ++ [frame] := by simp
    rw [hmap, List.count_append]
    simp only [Loop.held, Option.toList, List.count_nil] at hset
    omega
  evicted := by
    have hmetrics : (w.metrics.count o).backpressure = w.metrics.backpressure := by cases o <;> rfl
    exact hmetrics.trans hw.evicted
  counted o' := by
    show (w.metrics.count o).counted o' = ((w.settled ++ [(frame, o)]).map Prod.snd).count o'
    rw [Metrics.counted_count, hw.counted, List.map_append, List.count_append, List.map_singleton,
      List.count_singleton]
    simp only [beq_iff_eq]
  exited := hw.mem_exited (by simp)

theorem Inv.aim {w w' : Writer} {i : Nat} (hw : w.Inv) (h : w.aim i = some w') : w'.Inv := by
  obtain ⟨frame, hloop, rfl | ⟨conn, rfl⟩⟩ := aim_cases h
  · exact hw.settle hloop rfl _
  · refine ⟨hw.fifo, fun f => ?_, hw.evicted, hw.counted, hw.mem_exited (by simp)⟩
    have hset := count_held_set (.writing frame conn) hloop f
    have htaken := hw.taken f
    show (w.left .taken).count f = (w.settled.map Prod.fst).count f +
      ((w.loops.set i (.writing frame conn)).filterMap Loop.held).count f
    simp only [Loop.held] at hset
    omega

theorem Inv.put {w w' : Writer} {i n : Nat} {err : Bool} (hw : w.Inv) (h : w.put i n err = some w') : w'.Inv := by
  obtain ⟨frame, conn, hloop, -, rfl⟩ := put_cases h
  have hrecord : (w.record conn ⟨frame, n⟩).Inv := ⟨hw.fifo, hw.taken, hw.evicted, hw.counted, hw.exited⟩
  exact hrecord.settle hloop rfl _

theorem Inv.exit {w w' : Writer} {i : Nat} (hw : w.Inv) (h : w.exit i = some w') : w'.Inv := by
  obtain ⟨hloop, hclosed, rfl⟩ := exit_cases h
  refine ⟨hw.fifo, fun f => ?_, hw.evicted, hw.counted, fun _ => hclosed⟩
  have hset := count_held_set .exited hloop f
  have htaken := hw.taken f
  show (w.left .taken).count f = (w.settled.map Prod.fst).count f +
    ((w.loops.set i .exited).filterMap Loop.held).count f
  simp only [Loop.held, Option.toList, List.count_nil] at hset
  omega

theorem Inv.close {w w' : Writer} (hw : w.Inv) (h : w.close = some w') : w'.Inv := by
  obtain rfl := Option.some.inj h
  exact ⟨hw.fifo, hw.taken, hw.evicted, hw.counted, fun _ => rfl⟩

theorem Inv.step {w w' : Writer} {e : Event} (hw : w.Inv) (h : w.step e = some w') : w'.Inv := by
  cases e with
  | call request => exact hw.call h
  | select k => exact hw.select h
  | connect => exact hw.connect h
  | take i => exact hw.take h
  | aim i => exact hw.aim h
  | put i n err => exact hw.put h
  | exit i => exact hw.exit h
  | close => exact hw.close h

/-! ## No silent loss -/

/-- `Close` has returned, and every `writeLoop` that was started has exited. -/
def Quiescent (w : Writer) : Prop := w.closed = true ∧ w.loops ≠ [] ∧ ∀ l ∈ w.loops, l = .exited

/-- Every frame whose call returned nil is accounted for: one evicted frame or one settled frame for each of them, the
evictions counted as `backpressure`, the settlements each in its own counter. -/
structure NoSilentLoss (w : Writer) : Prop where
  frames : w.accepted.Perm (w.left .evicted ++ w.settled.map Prod.fst)
  evicted : w.metrics.backpressure = (w.left .evicted).length
  counted : ∀ o, w.metrics.counted o = (w.settled.map Prod.snd).count o

/-- The steps that lose no frame: the last loop leaves no frame behind in the buffer, and no call sends a frame after
the last loop has exited. -/
def LossFree (w : Writer) : Event → Prop
  | .exit i => (∀ l ∈ w.loops.set i .exited, l = .exited) → w.buffer = []
  | .select k => w.Quiescent → ∀ c, w.calls[k]? = some c → c.state ≠ .sending ∧ c.state ≠ .resending
  | _ => True

/-- Where the accepted frames are. -/
theorem Inv.count_accepted {w : Writer} (hw : w.Inv) (f : Bytes) : w.accepted.count f =
    (w.left .evicted).count f + (w.settled.map Prod.fst).count f + w.held.count f + w.buffer.count f := by
  have hremoved : ∀ removed : List (Bytes × Removal), (removed.map Prod.fst).count f =
      ((removed.filter (·.2 = .evicted)).map Prod.fst).count f +
        ((removed.filter (·.2 = .taken)).map Prod.fst).count f := by
    intro removed
    induction removed with
    | nil => rfl
    | cons p removed ih =>
      obtain ⟨frame, r⟩ := p
      cases r <;> simp [List.count_cons, ih] <;> omega
  have htaken := hw.taken f
  have hsplit := hremoved w.removed
  rw [hw.fifo, List.count_append, hsplit]
  unfold left at htaken ⊢
  omega

theorem Quiescent.held_eq_nil {w : Writer} (h : w.Quiescent) : w.held = [] := by
  unfold held
  rw [List.filterMap_eq_nil_iff]
  intro l hl
  rw [h.2.2 l hl]
  rfl

theorem Inv.noSilentLoss_iff {w : Writer} (hw : w.Inv) (hq : w.Quiescent) : w.NoSilentLoss ↔ w.buffer = [] := by
  constructor
  · intro h
    by_contra hne
    obtain ⟨f, rest, hbuffer⟩ := List.exists_cons_of_ne_nil hne
    have hcount := hw.count_accepted f
    rw [h.frames.count_eq, List.count_append, hbuffer, List.count_cons_self] at hcount
    omega
  · intro hbuffer
    refine ⟨List.perm_iff_count.mpr fun f => ?_, hw.evicted, hw.counted⟩
    rw [hw.count_accepted, hq.held_eq_nil, hbuffer, List.count_append]
    rfl

theorem not_quiescent_of_mem {w : Writer} {l : Loop} (hmem : l ∈ w.loops) (hl : l ≠ .exited) : ¬ w.Quiescent :=
  fun h => hl (h.2.2 l hmem)

/-- Setting a loop that exists to anything but the end leaves the writer with a loop that runs. -/
theorem mem_set_loop {w : Writer} {i : Nat} {l : Loop} (l' : Loop) (h : w.loops[i]? = some l) :
    l' ∈ w.loops.set i l' :=
  List.mem_set (List.getElem?_eq_some_iff.mp h).1 l'

/-- One step of the writer keeps the accepted frames accounted for just when it is free of losses. -/
theorem Inv.quiescent_step_iff {w w' : Writer} {e : Event} (hw : w.Inv)
    (hP : w.Quiescent → w.buffer = []) (h : w.step e = some w') :
    (w'.Quiescent → w'.buffer = []) ↔ w.LossFree e := by
  cases e with
  | call request =>
    obtain ⟨c, rfl, -, -⟩ := call_cases h
    exact ⟨fun _ => trivial, fun _ hq => hP hq⟩
  | select k =>
    obtain ⟨c, hc, hcases⟩ := select_cases h
    have hat : w.LossFree (.select k) ↔ (w.Quiescent → c.state ≠ .sending ∧ c.state ≠ .resending) := by
      constructor
      · exact fun hfree hq => hfree hq c hc
      · intro hstate hq c' hc'
        obtain rfl := Option.some.inj (hc.symm.trans hc')
        exact hstate hq
    rw [hat]
    obtain ⟨hstate, -, rfl⟩ | ⟨-, hfull, rfl⟩ | ⟨hstate, oldest, rest, hbuffer, rfl⟩ | ⟨hstate, hbuffer, rfl⟩ |
      ⟨-, hfull, rfl⟩ := hcases
    · constructor
      · intro hsent hq
        have hbuffer : w.buffer ++ [c.frame] = [] := hsent hq
        simp at hbuffer
      · intro hfree hq
        exact absurd hstate (not_or.mpr (hfree hq))
    · refine ⟨fun _ hq => ?_, fun _ hq => hP hq⟩
      rw [hP hq] at hfull
      simp [maxBufferSize] at hfull
    · refine ⟨fun _ _ => by rw [hstate]; simp, fun _ hq => ?_⟩
      have := hP hq
      rw [hbuffer] at this
      cases this
    · exact ⟨fun _ _ => by rw [hstate]; simp, fun _ _ => hbuffer⟩
    · refine ⟨fun _ hq => ?_, fun _ hq => hP hq⟩
      rw [hP hq] at hfull
      simp [maxBufferSize] at hfull
  | connect =>
    obtain ⟨hclosed, rfl⟩ := connect_cases h
    exact ⟨fun _ => trivial, fun _ hq => absurd (hclosed.symm.trans hq.1) (by simp)⟩
  | take i =>
    obtain ⟨frame, rest, hloop, -, rfl⟩ := take_cases h
    exact ⟨fun _ => trivial, fun _ hq => absurd hq (not_quiescent_of_mem (mem_set_loop _ hloop) (by simp))⟩
  | aim i =>
    obtain ⟨frame, hloop, rfl | ⟨conn, rfl⟩⟩ := aim_cases h
    all_goals
      exact ⟨fun _ => trivial, fun _ hq => absurd hq (not_quiescent_of_mem (mem_set_loop _ hloop) (by simp))⟩
  | put i n err =>
    obtain ⟨frame, conn, hloop, -, rfl⟩ := put_cases h
    exact ⟨fun _ => trivial, fun _ hq => absurd hq (not_quiescent_of_mem (mem_set_loop _ hloop) (by simp))⟩
  | exit i =>
    obtain ⟨hloop, hclosed, rfl⟩ := exit_cases h
    constructor
    · intro hbuffer hall
      exact hbuffer ⟨hclosed, List.ne_nil_of_mem (mem_set_loop _ hloop), hall⟩
    · intro hfree hq
      exact hfree hq.2.2
  | close =>
    obtain rfl := Option.some.inj h
    refine ⟨fun _ => trivial, fun _ hq => hP ⟨?_, hq.2⟩⟩
    obtain ⟨l, hl⟩ := List.exists_mem_of_ne_nil _ hq.2.1
    exact hw.exited (hq.2.2 l hl ▸ hl)

/-- **When no frame is lost silently**: in a run, the accepted frames are accounted for in every state behind `Close`
and the end of the loops just when every step is free of losses. -/
theorem noSilentLoss_iff_lossFree (es : List Event) :
    Run.Always step (fun w => w.Quiescent → w.NoSilentLoss) newWriter es ↔ Run.Each step LossFree newWriter es := by
  refine Run.always_iff_each Inv (fun w e w' hw h => hw.step h) (fun w e w' hw hP h => ?_) inv_newWriter
    (fun hq => absurd hq.1 (by simp [newWriter]))
  have hafter : (w'.Quiescent → w'.NoSilentLoss) ↔ (w'.Quiescent → w'.buffer = []) :=
    forall_congr' fun hq => (hw.step h).noSilentLoss_iff hq
  rw [hafter]
  exact hw.quiescent_step_iff (fun hq => (hw.noSilentLoss_iff hq).mp (hP hq)) h

/-- The frame of a call that returned nil stays in the buffer when the loop takes the other branch of its `select`. -/
theorem silent_loss_on_close : ¬ Run.Always step (fun w => w.Quiescent → w.NoSilentLoss) newWriter
    [.connect, .call (.write [0x7B]), .select 0, .close, .exit 0] := by
  intro h
  have hloss := (Run.always_iff _ _).mp h _ [] _ (List.append_nil _).symm rfl
  have hframes := (hloss ⟨rfl, by decide, by decide⟩).frames
  exact absurd hframes.length_eq (by decide)

end Writer

end Atlas.Ipc
