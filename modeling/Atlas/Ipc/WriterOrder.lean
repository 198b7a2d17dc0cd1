import Atlas.Ipc.RoundTrip
import Atlas.Ipc.WriterRuns

/-!
# The order of the frames on the sockets

* `Numbered` : the writer, with the place of each frame in the order of the enqueuing; `exec_writer` : its runs are
  those of the writer;
* `InOrder` : the frames were written in that order;
* `OldestFirst` : a loop writes the oldest frame in the hands of the loops;
* `order_kept` : runs of such writes are in order, and behind any other write a schedule breaks the order.
-/

namespace Atlas.Ipc

theorem Request.frame_pos {request : Request} {frame : Bytes} (h : request.frame = .ok (.ok frame)) :
    0 < frame.length := by
  cases request with
  | write payload =>
    obtain ⟨hne, hmax, hframe⟩ := Request.frame_write_iff.mp h
    have hmax' : payload.length ≤ 16777216 := hmax
    rw [serializeFrame_eq (by omega)] at hframe
    rw [← Except.ok.inj hframe, List.length_append, length_lengthHeader]
    omega
  | writeRaw raw =>
    rw [Request.frame] at h
    split_ifs at h with hzero hmax
    · cases h
    · cases h
    · rw [← Except.ok.inj (Except.ok.inj h)]
      omega

namespace Writer

/-- A step enqueues at most the frame of a call under way. -/
theorem accepted_step {w w' : Writer} {e : Event} (h : w.step e = some w') : w'.accepted = w.accepted ∨
    ∃ c ∈ w.calls, (∀ err, c.state ≠ .returned err) ∧ w'.accepted = w.accepted ++ [c.frame] := by
  cases e with
  | call request =>
    obtain ⟨c, rfl, -, -⟩ := call_cases h
    exact Or.inl rfl
  | select k =>
    obtain ⟨c, hc, ⟨hstate, -, rfl⟩ | ⟨-, -, rfl⟩ | ⟨-, oldest, rest, -, rfl⟩ | ⟨-, -, rfl⟩ | ⟨-, -, rfl⟩⟩ :=
      select_cases h
    · refine Or.inr ⟨c, List.mem_of_getElem? hc, fun err => ?_, rfl⟩
      rcases hstate with hs | hs <;> simp [hs]
    all_goals exact Or.inl rfl
  | connect =>
    obtain ⟨-, rfl⟩ := connect_cases h
    exact Or.inl rfl
  | take i =>
    obtain ⟨frame, rest, -, -, rfl⟩ := take_cases h
    exact Or.inl rfl
  | aim i =>
    obtain ⟨frame, -, rfl | ⟨conn, rfl⟩⟩ := aim_cases h
    all_goals exact Or.inl rfl
  | put i n err =>
    obtain ⟨frame, conn, -, -, rfl⟩ := put_cases h
    exact Or.inl rfl
  | exit i =>
    obtain ⟨-, -, rfl⟩ := exit_cases h
    exact Or.inl rfl
  | close =>
    obtain rfl := Option.some.inj h
    exact Or.inl rfl

/-- No frame in the channel is empty. -/
theorem accepted_pos {es : List Event} {w : Writer} (h : Run.exec step newWriter es = some w) :
    ∀ frame ∈ w.accepted, 0 < frame.length := by
  have hstep : ∀ w e w', ((∀ c ∈ w.calls, w.CallOk c) ∧ ∀ frame ∈ w.accepted, 0 < frame.length) →
      step w e = some w' → (∀ c ∈ w'.calls, w'.CallOk c) ∧ ∀ frame ∈ w'.accepted, 0 < frame.length := by
    rintro w e w' ⟨hcalls, hpos⟩ hstep
    refine ⟨callOk_step hcalls hstep, fun frame hframe => ?_⟩
    rcases accepted_step hstep with hsame | ⟨c, hc, hopen, happend⟩
    · exact hpos frame (hsame ▸ hframe)
    · rw [happend] at hframe
      rcases List.mem_append.mp hframe with hold | hnew
      · exact hpos frame hold
      · rw [List.mem_singleton.mp hnew]
        exact Request.frame_pos (hcalls c hc fun err => hopen _).1
  exact (Run.exec_invariant _ hstep ⟨fun c hc => absurd hc List.not_mem_nil,
    fun f hf => absurd hf List.not_mem_nil⟩ h).2

end Writer

/-- The writer, with the history of the places. -/
structure Numbered where
  writer : Writer
  /-- For each loop, the place of the frame it took last in the order of the enqueuing. -/
  positions : List Nat
  /-- The frames of which bytes went to a socket, each with its place, in the order of the writes. -/
  written : List (Nat × Bytes)

namespace Numbered

def newNumbered : Numbered := ⟨Writer.newWriter, [], []⟩

/-- What `w.conn.Write` of loop `i` puts on its socket. -/
def puts (s : Numbered) (i n : Nat) : List (Nat × Bytes) :=
  match s.positions[i]?, s.writer.loops[i]? with
  | some p, some (.writing frame _) => if 0 < n then [(p, frame)] else []
  | _, _ => []

/-- The history behind a step of the writer. -/
def note (s : Numbered) (e : Event) (w : Writer) : Numbered :=
  match e with
  | .connect => { s with writer := w, positions := s.positions ++ [0] }
  | .take i => { s with writer := w, positions := s.positions.set i s.writer.removed.length }
  | .put i n _ => { s with writer := w, written := s.written ++ s.puts i n }
  | _ => { s with writer := w }

def step (s : Numbered) (e : Event) : Option Numbered := (s.writer.step e).map (s.note e)

/-- Loop `i` has taken the frame at place `p` and is not done with it. -/
def Holds (s : Numbered) (i p : Nat) (frame : Bytes) : Prop :=
  s.positions[i]? = some p ∧ ∃ l, s.writer.loops[i]? = some l ∧ l.held = some frame

/-- The frames were written in the order in which they were enqueued. -/
structure InOrder (s : Numbered) : Prop where
  places : ∀ x ∈ s.written, s.writer.accepted[x.1]? = some x.2
  ascending : s.written.Pairwise fun x y => x.1 < y.1

/-- A loop that writes bytes holds the oldest of the frames in the hands of the loops. -/
def OldestFirst (s : Numbered) : Event → Prop
  | .put i n _ => 0 < n → ∀ p f j q g, s.Holds i p f → s.Holds j q g → p ≤ q
  | _ => True

theorem writer_note (s : Numbered) (e : Event) (w : Writer) : (s.note e w).writer = w := by cases e <;> rfl

/-- The history restricts no run. -/
theorem exec_writer (s : Numbered) (es : List Event) :
    (Run.exec step s es).map Numbered.writer = Run.exec Writer.step s.writer es := by
  induction es generalizing s with
  | nil => rfl
  | cons e es ih =>
    rw [Run.exec, Run.exec, step]
    cases hstep : s.writer.step e with
    | none => rfl
    | some w =>
      rw [Option.map_some, Option.bind_some, Option.bind_some, ih, writer_note]

/-! ## The places -/

structure Inv (s : Numbered) : Prop where
  positions : s.positions.length = s.writer.loops.length
  conns : s.writer.conns.length = s.writer.loops.length
  held : ∀ i p f, s.Holds i p f → (s.writer.removed.map Prod.fst)[p]? = some f
  distinct : ∀ i j p f g, s.Holds i p f → s.Holds j p g → i = j
  written : ∀ x ∈ s.written, (s.writer.removed.map Prod.fst)[x.1]? = some x.2

theorem not_holds_newNumbered (i p : Nat) (f : Bytes) : ¬ newNumbered.Holds i p f := fun h => by
  simp [Holds, newNumbered] at h

theorem inv_newNumbered : newNumbered.Inv where
  positions := rfl
  conns := rfl
  held i p f h := absurd h (not_holds_newNumbered i p f)
  distinct i _ p f _ h := absurd h (not_holds_newNumbered i p f)
  written _ hx := absurd hx List.not_mem_nil

/-- What a loop that goes to `l` holds, it held before, and no more if it holds nothing. -/
theorem holds_set {s s' : Numbered} {i j p : Nat} {f : Bytes} {l : Loop} (l' : Loop) (h : s'.Holds j p f)
    (hloop : s.writer.loops[i]? = some l) (hpositions : s'.positions = s.positions)
    (hloops : s'.writer.loops = s.writer.loops.set i l') (hheld : l'.held = none ∨ l'.held = l.held) :
    s.Holds j p f ∧ (l'.held = none → j ≠ i) := by
  obtain ⟨hp, m, hm, hf⟩ := h
  rw [hpositions] at hp
  rw [hloops] at hm
  by_cases hj : i = j
  · subst hj
    rw [List.getElem?_set_self (List.getElem?_eq_some_iff.mp hloop).1] at hm
    obtain rfl := Option.some.inj hm
    have hnone : l'.held ≠ none := by rw [hf]; simp
    exact ⟨⟨hp, l, hloop, (hheld.resolve_left hnone) ▸ hf⟩, fun h => absurd h hnone⟩
  · rw [List.getElem?_set_ne hj] at hm
    exact ⟨⟨hp, m, hm, hf⟩, fun _ => Ne.symm hj⟩

/-- What a step other than `take` does to the places: the loops hold no more than before, and what is written was
held. -/
structure Shrinks (s s' : Numbered) : Prop where
  positions : s'.positions.length = s'.writer.loops.length
  conns : s'.writer.conns.length = s'.writer.loops.length
  holds : ∀ i p f, s'.Holds i p f → s.Holds i p f
  removed : s.writer.removed <+: s'.writer.removed
  written : ∀ x ∈ s'.written, x ∈ s.written ∨ ∃ i, s.Holds i x.1 x.2

theorem getElem?_removed {xs ys : List (Bytes × Removal)} (h : xs <+: ys) {p : Nat} {f : Bytes}
    (hp : (xs.map Prod.fst)[p]? = some f) : (ys.map Prod.fst)[p]? = some f := by
  obtain ⟨more, rfl⟩ := h
  rw [List.map_append, List.getElem?_append_left (List.getElem?_eq_some_iff.mp hp).1]
  exact hp

theorem Inv.shrinks {s s' : Numbered} (hs : s.Inv) (h : s.Shrinks s') : s'.Inv where
  positions := h.positions
  conns := h.conns
  held i p f hf := getElem?_removed h.removed (hs.held i p f (h.holds i p f hf))
  distinct i j p f g hf hg := hs.distinct i j p f g (h.holds i p f hf) (h.holds j p g hg)
  written x hx := by
    rcases h.written x hx with hold | ⟨i, hi⟩
    · exact getElem?_removed h.removed (hs.written x hold)
    · exact getElem?_removed h.removed (hs.held i x.1 x.2 hi)

/-- A step that touches no loop. -/
theorem Inv.shrinks_of_loops {s s' : Numbered} (hs : s.Inv) (hpositions : s'.positions = s.positions)
    (hloops : s'.writer.loops = s.writer.loops) (hconns : s'.writer.conns = s.writer.conns)
    (hremoved : s.writer.removed <+: s'.writer.removed) (hwritten : s'.written = s.written) : s.Shrinks s' where
  positions := by rw [hpositions, hloops, hs.positions]
  conns := by rw [hconns, hloops, hs.conns]
  holds i p f h := by
    unfold Holds at h
    rw [hpositions, hloops] at h
    exact h
  removed := hremoved
  written x hx := Or.inl (hwritten ▸ hx)

theorem puts_of_writing {s : Numbered} {i p n : Nat} {frame : Bytes} {conn : Nat} (hp : s.positions[i]? = some p)
    (hloop : s.writer.loops[i]? = some (.writing frame conn)) : s.puts i n = if 0 < n then [(p, frame)] else [] := by
  rw [puts, hp, hloop]

/-- Every step is a `take`, or shrinks what the loops hold. -/
theorem Inv.step_cases {s s' : Numbered} {e : Event} (hs : s.Inv) (h : s.step e = some s') :
    s.Shrinks s' ∨ ∃ i, e = .take i := by
  obtain ⟨w', hstep, rfl⟩ := Option.map_eq_some_iff.mp h
  cases e with
  | call request =>
    obtain ⟨c, rfl, -, -⟩ := Writer.call_cases hstep
    exact Or.inl (hs.shrinks_of_loops rfl rfl rfl (List.prefix_refl _) rfl)
  | select k =>
    obtain ⟨c, -, ⟨-, -, rfl⟩ | ⟨-, -, rfl⟩ | ⟨-, oldest, rest, -, rfl⟩ | ⟨-, -, rfl⟩ | ⟨-, -, rfl⟩⟩ :=
      Writer.select_cases hstep
    · exact Or.inl (hs.shrinks_of_loops rfl rfl rfl (List.prefix_refl _) rfl)
    · exact Or.inl (hs.shrinks_of_loops rfl rfl rfl (List.prefix_refl _) rfl)
    · exact Or.inl (hs.shrinks_of_loops rfl rfl rfl (List.prefix_append _ _) rfl)
    · exact Or.inl (hs.shrinks_of_loops rfl rfl rfl (List.prefix_refl _) rfl)
    · exact Or.inl (hs.shrinks_of_loops rfl rfl rfl (List.prefix_refl _) rfl)
  | connect =>
    obtain ⟨-, rfl⟩ := Writer.connect_cases hstep
    refine Or.inl ⟨?_, ?_, fun i p f h => ?_, List.prefix_refl _, fun x hx => Or.inl hx⟩
    · simp [note, hs.positions]
    · simp [note, hs.conns]
    · obtain ⟨hp, l, hl, hf⟩ := h
      have hold : i < s.writer.loops.length := by
        by_contra hi
        obtain rfl | hlt : i = s.writer.loops.length ∨ s.writer.loops.length < i := by omega
        · simp only [note, List.getElem?_concat_length] at hl
          rw [← Option.some.inj hl] at hf
          cases hf
        · have hout : (s.writer.loops ++ [Loop.idle])[i]? = none :=
            List.getElem?_eq_none (by rw [List.length_append, List.length_singleton]; omega)
          exact absurd (hout.symm.trans hl) (by simp)
      simp only [note] at hp hl
      rw [List.getElem?_append_left (hs.positions ▸ hold)] at hp
      rw [List.getElem?_append_left hold] at hl
      exact ⟨hp, l, hl, hf⟩
  | take i => exact Or.inr ⟨i, rfl⟩
  | aim i =>
    obtain ⟨frame, hloop, rfl | ⟨conn, rfl⟩⟩ := Writer.aim_cases hstep
    · refine Or.inl ⟨?_, ?_, fun j p f h => (holds_set .idle h hloop rfl rfl (Or.inl rfl)).1, List.prefix_refl _,
        fun x hx => Or.inl hx⟩
      · simp [note, Writer.settle, hs.positions]
      · simp [note, Writer.settle, hs.conns]
    · refine Or.inl ⟨?_, ?_, fun j p f h => (holds_set (.writing frame conn) h hloop rfl rfl (Or.inr rfl)).1,
        List.prefix_refl _, fun x hx => Or.inl hx⟩
      · simp [note, hs.positions]
      · simp [note, hs.conns]
  | put i n err =>
    obtain ⟨frame, conn, hloop, -, rfl⟩ := Writer.put_cases hstep
    refine Or.inl ⟨?_, ?_, fun j p f h => (holds_set .idle h hloop rfl rfl (Or.inl rfl)).1, List.prefix_refl _,
      fun x hx => ?_⟩
    · simp [note, Writer.settle, Writer.record, hs.positions]
    · simp [note, Writer.settle, Writer.record, hs.conns]
    · rcases List.mem_append.mp hx with hold | hnew
      · exact Or.inl hold
      · obtain ⟨p, hp⟩ : ∃ p, s.positions[i]? = some p :=
          ⟨_, List.getElem?_eq_getElem (hs.positions ▸ (List.getElem?_eq_some_iff.mp hloop).1)⟩
        rw [puts_of_writing hp hloop] at hnew
        split_ifs at hnew with hn
        · rw [List.mem_singleton.mp hnew]
          exact Or.inr ⟨i, hp, _, hloop, rfl⟩
        · cases hnew
  | exit i =>
    obtain ⟨hloop, -, rfl⟩ := Writer.exit_cases hstep
    refine Or.inl ⟨?_, ?_, fun j p f h => (holds_set .exited h hloop rfl rfl (Or.inl rfl)).1, List.prefix_refl _,
      fun x hx => Or.inl hx⟩
    · simp [note, hs.positions]
    · simp [note, hs.conns]
  | close =>
    obtain rfl := Option.some.inj hstep
    exact Or.inl (hs.shrinks_of_loops rfl rfl rfl (List.prefix_refl _) rfl)

/-- Loop `i` takes the frame at the next place. -/
theorem take_cases {s s' : Numbered} {i : Nat} (h : s.step (.take i) = some s') : ∃ frame,
    s.writer.loops[i]? = some .idle ∧ s'.positions = s.positions.set i s.writer.removed.length ∧
      s'.writer.loops = s.writer.loops.set i (.holding frame) ∧ s'.writer.conns = s.writer.conns ∧
      s'.writer.removed = s.writer.removed ++ [(frame, .taken)] ∧ s'.written = s.written := by
  obtain ⟨w', hstep, rfl⟩ := Option.map_eq_some_iff.mp h
  obtain ⟨frame, rest, hloop, -, rfl⟩ := Writer.take_cases hstep
  exact ⟨frame, hloop, rfl, rfl, rfl, rfl, rfl⟩

theorem holds_take {s s' : Numbered} {i j p : Nat} {f : Bytes} (h : s.step (.take i) = some s')
    (hf : s'.Holds j p f) : (j = i ∧ p = s.writer.removed.length) ∨ (j ≠ i ∧ s.Holds j p f) := by
  obtain ⟨frame, hloop, hpositions, hloops, -⟩ := take_cases h
  obtain ⟨hp, l, hl, hheld⟩ := hf
  rw [hpositions] at hp
  rw [hloops] at hl
  by_cases hj : i = j
  · subst hj
    rw [List.getElem?_set_self' ] at hp
    cases hold : s.positions[i]? with
    | none => simp [hold] at hp
    | some q => exact Or.inl ⟨rfl, by simpa [hold] using hp.symm⟩
  · rw [List.getElem?_set_ne hj] at hp hl
    exact Or.inr ⟨Ne.symm hj, hp, l, hl, hheld⟩

theorem Inv.take {s s' : Numbered} {i : Nat} (hs : s.Inv) (h : s.step (.take i) = some s') : s'.Inv := by
  obtain ⟨frame, hloop, hpositions, hloops, hconns, hremoved, hwritten⟩ := take_cases h
  have hplace : ∀ p f, (s.writer.removed.map Prod.fst)[p]? = some f → p < s.writer.removed.length := by
    intro p f hp
    simpa using (List.getElem?_eq_some_iff.mp hp).1
  have hprefix : s.writer.removed <+: s'.writer.removed := hremoved ▸ List.prefix_append _ _
  refine ⟨?_, ?_, fun j p f hf => ?_, fun j k p f g hf hg => ?_, fun x hx => ?_⟩
  · rw [hpositions, hloops, List.length_set, List.length_set, hs.positions]
  · rw [hconns, hloops, List.length_set, hs.conns]
  · rcases holds_take h hf with ⟨rfl, rfl⟩ | ⟨-, hold⟩
    · obtain ⟨-, l, hl, hheld⟩ := hf
      rw [hloops, List.getElem?_set_self (List.getElem?_eq_some_iff.mp hloop).1] at hl
      rw [← Option.some.inj hl] at hheld
      rw [hremoved, List.map_append, List.getElem?_append_right (by simp), List.length_map, Nat.sub_self, ← hheld]
      rfl
    · exact getElem?_removed hprefix (hs.held j p f hold)
  · rcases holds_take h hf with ⟨hj, hp⟩ | ⟨-, hold⟩ <;> rcases holds_take h hg with ⟨hk, hq⟩ | ⟨-, hold'⟩
    · rw [hj, hk]
    · exact absurd (hplace _ _ (hs.held k p g hold')) (by omega)
    · exact absurd (hplace _ _ (hs.held j p f hold)) (by omega)
    · exact hs.distinct j k p f g hold hold'
  · exact getElem?_removed hprefix (hs.written x (hwritten ▸ hx))

theorem Inv.step {s s' : Numbered} {e : Event} (hs : s.Inv) (h : s.step e = some s') : s'.Inv := by
  rcases hs.step_cases h with hshrinks | ⟨i, rfl⟩
  · exact hs.shrinks hshrinks
  · exact hs.take h

theorem Inv.place_lt {s : Numbered} (hs : s.Inv) {x : Nat × Bytes} (hx : x ∈ s.written) :
    x.1 < s.writer.removed.length := by
  simpa using (List.getElem?_eq_some_iff.mp (hs.written x hx)).1

/-! ## Oldest first -/

/-- What is written is in order, and in front of all that the loops hold. -/
structure Ahead (s : Numbered) : Prop where
  ascending : s.written.Pairwise fun x y => x.1 < y.1
  ahead : ∀ x ∈ s.written, ∀ i p f, s.Holds i p f → x.1 < p

/-- A step that puts no bytes on a socket writes nothing, and one that does writes what its loop holds and lets go. -/
theorem Inv.written_cases {s s' : Numbered} {e : Event} (hs : s.Inv) (h : s.step e = some s') :
    s'.written = s.written ∨ ∃ i n err p frame, e = .put i n err ∧ 0 < n ∧ s.Holds i p frame ∧
      s'.written = s.written ++ [(p, frame)] ∧ ∀ j q g, s'.Holds j q g → s.Holds j q g ∧ j ≠ i := by
  obtain ⟨w', hstep, rfl⟩ := Option.map_eq_some_iff.mp h
  cases e with
  | put i n err =>
    obtain ⟨frame, conn, hloop, -, rfl⟩ := Writer.put_cases hstep
    obtain ⟨p, hp⟩ : ∃ p, s.positions[i]? = some p :=
      ⟨_, List.getElem?_eq_getElem (hs.positions ▸ (List.getElem?_eq_some_iff.mp hloop).1)⟩
    have hputs := @puts_of_writing s i p n frame conn hp hloop
    by_cases hn : 0 < n
    · rw [if_pos hn] at hputs
      refine Or.inr ⟨i, n, err, p, frame, rfl, hn, ⟨hp, _, hloop, rfl⟩, congrArg (s.written ++ ·) hputs,
        fun j q g hg => ?_⟩
      obtain ⟨hold, hne⟩ := holds_set .idle hg hloop rfl rfl (Or.inl rfl)
      exact ⟨hold, hne rfl⟩
    · rw [if_neg hn] at hputs
      refine Or.inl ?_
      show s.written ++ s.puts i n = s.written
      rw [hputs, List.append_nil]
  | call request => exact Or.inl rfl
  | select k => exact Or.inl rfl
  | connect => exact Or.inl rfl
  | take i => exact Or.inl rfl
  | aim i => exact Or.inl rfl
  | exit i => exact Or.inl rfl
  | close => exact Or.inl rfl

theorem Ahead.step {s s' : Numbered} {e : Event} (ha : s.Ahead) (hs : s.Inv) (hoc : s.OldestFirst e)
    (h : s.step e = some s') : s'.Ahead := by
  rcases hs.written_cases h with hsame | ⟨i, n, err, p, frame, rfl, hn, hheld, hwritten, hrest⟩
  · refine ⟨by rw [hsame]; exact ha.ascending, fun x hx j q g hg => ?_⟩
    rw [hsame] at hx
    rcases hs.step_cases h with hshrinks | ⟨i, rfl⟩
    · exact ha.ahead x hx j q g (hshrinks.holds j q g hg)
    · rcases holds_take h hg with ⟨-, rfl⟩ | ⟨-, hold⟩
      · exact hs.place_lt hx
      · exact ha.ahead x hx j q g hold
  · constructor
    · rw [hwritten, List.pairwise_append]
      refine ⟨ha.ascending, List.pairwise_singleton _ _, fun x hx y hy => ?_⟩
      rw [List.mem_singleton.mp hy]
      exact ha.ahead x hx i p frame hheld
    · intro x hx j q g hg
      obtain ⟨hold, hne⟩ := hrest j q g hg
      rw [hwritten] at hx
      rcases List.mem_append.mp hx with hx | hx
      · exact ha.ahead x hx j q g hold
      · rw [List.mem_singleton.mp hx]
        refine Nat.lt_of_le_of_ne (hoc hn p frame j q g hheld hold) ?_
        rintro rfl
        exact hne (hs.distinct j i p g frame hold hheld)

theorem Inv.places {s : Numbered} (hs : s.Inv) (hw : s.writer.Inv) :
    ∀ x ∈ s.written, s.writer.accepted[x.1]? = some x.2 := by
  intro x hx
  have hplace := hs.written x hx
  rw [hw.fifo, List.getElem?_append_left (List.getElem?_eq_some_iff.mp hplace).1]
  exact hplace

/-- In a run that writes the oldest frame first the frames are written in order. -/
theorem inOrder_of_oldestFirst {es : List Event} (h : Run.Each step OldestFirst newNumbered es) :
    Run.Always step InOrder newNumbered es := by
  have hall : ∀ (es : List Event) (s : Numbered), s.Inv → s.writer.Inv → s.Ahead →
      Run.Each step OldestFirst s es → Run.Always step InOrder s es := by
    intro es
    induction es with
    | nil => exact fun s hs hw ha _ => ⟨hs.places hw, ha.ascending⟩
    | cons e es ih =>
      intro s hs hw ha heach
      refine ⟨⟨hs.places hw, ha.ascending⟩, fun s' hstep => ?_⟩
      obtain ⟨hoc, hrest⟩ := heach s' hstep
      have hw' : s'.writer.Inv := by
        obtain ⟨w', hwstep, rfl⟩ := Option.map_eq_some_iff.mp hstep
        rw [writer_note]
        exact hw.step hwstep
      exact ih s' (hs.step hstep) hw' (ha.step hs hoc hstep) hrest
  exact hall es newNumbered inv_newNumbered Writer.inv_newWriter
    ⟨List.Pairwise.nil, fun x hx => absurd hx List.not_mem_nil⟩ h

/-! ## Any other write -/

/-- A frame in the hands of a loop can be written, right away. -/
theorem exists_put {s : Numbered} (hs : s.Inv) {j q : Nat} {g : Bytes} (hheld : s.Holds j q g) (hg : 0 < g.length) :
    ∃ es s', Run.exec step s es = some s' ∧ s'.written = s.written ++ [(q, g)] := by
  obtain ⟨hq, l, hl, hlheld⟩ := hheld
  have hput : ∀ (t : Numbered) (conn : Nat), t.positions[j]? = some q →
      t.writer.loops[j]? = some (.writing g conn) → ∃ s', t.step (.put j g.length false) = some s' ∧
        s'.written = t.written ++ [(q, g)] := by
    intro t conn ht hloop
    refine ⟨t.note (.put j g.length false) ((t.writer.record conn ⟨g, g.length⟩).settle j g
      (Writer.outcome g g.length false)), ?_, ?_⟩
    · rw [step, Writer.step, Writer.put, hloop]
      simp only [le_refl, if_true, Option.map_some]
    · show t.written ++ t.puts j g.length = _
      rw [puts_of_writing ht hloop, if_pos hg]
  cases l with
  | idle => cases hlheld
  | exited => cases hlheld
  | writing frame conn =>
    obtain rfl := Option.some.inj hlheld
    obtain ⟨s', hstep, hwritten⟩ := hput s conn hq hl
    refine ⟨[.put j frame.length false], s', ?_, hwritten⟩
    rw [Run.exec, hstep]
    rfl
  | holding frame =>
    obtain rfl := Option.some.inj hlheld
    have hj := (List.getElem?_eq_some_iff.mp hl).1
    obtain ⟨conn, hconn⟩ : ∃ conn, s.writer.conns.length = conn + 1 := ⟨s.writer.conns.length - 1, by
      rw [hs.conns]
      omega⟩
    obtain ⟨t, ht⟩ : ∃ t, t = s.note (.aim j) { s.writer with loops := s.writer.loops.set j (.writing frame conn) } :=
      ⟨_, rfl⟩
    have haim : s.step (.aim j) = some t := by
      rw [ht, step, Writer.step, Writer.aim, hl]
      simp only [hconn, Option.map_some]
    have hloop : t.writer.loops[j]? = some (.writing frame conn) := by
      rw [ht, writer_note]
      exact List.getElem?_set_self hj
    obtain ⟨s', hstep, hwritten⟩ := hput t conn (ht ▸ hq) hloop
    refine ⟨[.aim j, .put j frame.length false], s', ?_, ?_⟩
    · rw [Run.exec, haim, Option.bind_some, Run.exec, hstep]
      rfl
    · rw [hwritten, ht]
      rfl

/-- Behind a write that was not the oldest frame's, the older frame can still come. -/
theorem not_inOrder_of_not_oldestFirst {es : List Event} {s s' : Numbered} {e : Event}
    (hexec : Run.exec step newNumbered es = some s) (h : s.step e = some s') (hbad : ¬ s.OldestFirst e) :
    ∃ es', ¬ Run.Always step InOrder s' es' := by
  have hs := Run.exec_invariant Inv (fun _ _ _ hs hstep => hs.step hstep) inv_newNumbered hexec
  have hwriter : Run.exec Writer.step Writer.newWriter es = some s.writer :=
    (exec_writer newNumbered es).symm.trans (congrArg (Option.map writer) hexec)
  have hfifo := (Run.exec_invariant Writer.Inv (fun _ _ _ hw hstep => hw.step hstep) Writer.inv_newWriter hwriter).fifo
  cases e with
  | put i n err =>
    simp only [OldestFirst] at hbad
    push Not at hbad
    obtain ⟨hn, p, f, j, q, g, hi, hj, hqp⟩ := hbad
    have hg : 0 < g.length := by
      refine Writer.accepted_pos hwriter g ?_
      rw [hfifo]
      exact List.mem_append_left _ (List.mem_of_getElem? (hs.held j q g hj))
    have hs' := hs.step h
    obtain ⟨w', hstep, rfl⟩ := Option.map_eq_some_iff.mp h
    obtain ⟨frame, conn, hloop, -, rfl⟩ := Writer.put_cases hstep
    have hwritten : (s.note (.put i n err) ((s.writer.record conn ⟨frame, n⟩).settle i frame
        (Writer.outcome frame n err))).written = s.written ++ [(p, frame)] := by
      show s.written ++ s.puts i n = _
      rw [puts_of_writing hi.1 hloop, if_pos hn]
    have hne : i ≠ j := by
      rintro rfl
      rw [Option.some.inj (hi.1.symm.trans hj.1)] at hqp
      exact Nat.lt_irrefl q hqp
    have hj' : (s.note (.put i n err) ((s.writer.record conn ⟨frame, n⟩).settle i frame
        (Writer.outcome frame n err))).Holds j q g := by
      obtain ⟨hq, l, hl, hheld⟩ := hj
      refine ⟨hq, l, ?_, hheld⟩
      show (s.writer.loops.set i .idle)[j]? = some l
      rw [List.getElem?_set_ne hne, hl]
    obtain ⟨es', t, hes', ht⟩ := exists_put hs' hj' hg
    refine ⟨es', fun hall => ?_⟩
    have horder := ((Run.always_iff _ _).mp hall es' [] t (List.append_nil _).symm hes').ascending
    rw [ht, hwritten, List.append_assoc, List.pairwise_append] at horder
    have hpq : p < q := by simpa using horder.2.1
    exact absurd hpq (Nat.not_lt.mpr hqp.le)
  | call request => exact absurd trivial hbad
  | select k => exact absurd trivial hbad
  | connect => exact absurd trivial hbad
  | take i => exact absurd trivial hbad
  | aim i => exact absurd trivial hbad
  | exit i => exact absurd trivial hbad
  | close => exact absurd trivial hbad

/-! ## One connection -/

theorem length_loops_step {w w' : Writer} {e : Event} (h : w.step e = some w') :
    w'.loops.length = w.loops.length + if e = .connect then 1 else 0 := by
  cases e with
  | call request =>
    obtain ⟨c, rfl, -, -⟩ := Writer.call_cases h
    rfl
  | select k =>
    obtain ⟨c, -, ⟨-, -, rfl⟩ | ⟨-, -, rfl⟩ | ⟨-, oldest, rest, -, rfl⟩ | ⟨-, -, rfl⟩ | ⟨-, -, rfl⟩⟩ :=
      Writer.select_cases h
    all_goals rfl
  | connect =>
    obtain ⟨-, rfl⟩ := Writer.connect_cases h
    exact List.length_append
  | take i =>
    obtain ⟨frame, rest, -, -, rfl⟩ := Writer.take_cases h
    exact List.length_set
  | aim i =>
    obtain ⟨frame, -, rfl | ⟨conn, rfl⟩⟩ := Writer.aim_cases h
    all_goals exact List.length_set
  | put i n err =>
    obtain ⟨frame, conn, -, -, rfl⟩ := Writer.put_cases h
    exact List.length_set
  | exit i =>
    obtain ⟨-, -, rfl⟩ := Writer.exit_cases h
    exact List.length_set
  | close =>
    obtain rfl := Option.some.inj h
    rfl

/-- With one loop the oldest frame is the only one. -/
theorem oldestFirst_of_one_loop {s : Numbered} (h : s.writer.loops.length ≤ 1) (e : Event) : s.OldestFirst e := by
  cases e with
  | put i n err =>
    rintro - p f j q g ⟨hp, l, hl, -⟩ ⟨hq, m, hm, -⟩
    have hi := (List.getElem?_eq_some_iff.mp hl).1
    have hj := (List.getElem?_eq_some_iff.mp hm).1
    obtain rfl : i = j := by omega
    rw [Option.some.inj (hp.symm.trans hq)]
  | call request => trivial
  | select k => trivial
  | connect => trivial
  | take i => trivial
  | aim i => trivial
  | exit i => trivial
  | close => trivial

theorem oldestFirst_of_one_connect {es : List Event} (h : es.count .connect ≤ 1) :
    Run.Each step OldestFirst newNumbered es := by
  have hall : ∀ (es : List Event) (s : Numbered), s.writer.loops.length + es.count .connect ≤ 1 →
      Run.Each step OldestFirst s es := by
    intro es
    induction es with
    | nil => exact fun s _ => trivial
    | cons e es ih =>
      intro s hs s' hstep
      obtain ⟨w', hwstep, rfl⟩ := Option.map_eq_some_iff.mp hstep
      have hlen := length_loops_step hwstep
      rw [List.count_cons] at hs
      simp only [beq_iff_eq] at hs
      refine ⟨oldestFirst_of_one_loop (by omega) e, ih _ ?_⟩
      rw [writer_note, hlen]
      omega
  exact hall es newNumbered (by simpa [newNumbered, Writer.newWriter] using h)

/-- **The order of the frames**: when each write is that of the oldest frame in the hands of the loops the frames are
written in the order of the enqueuing, as with one connection they are; behind any other write there is a schedule
that breaks the order. -/
theorem order_kept (es : List Event) :
    (Run.Each step OldestFirst newNumbered es → Run.Always step InOrder newNumbered es) ∧
    (es.count .connect ≤ 1 → Run.Each step OldestFirst newNumbered es) ∧
    ∀ s e s', Run.exec step newNumbered es = some s → s.step e = some s' → ¬ s.OldestFirst e →
      ∃ es', ¬ Run.Always step InOrder s' es' :=
  ⟨inOrder_of_oldestFirst, oldestFirst_of_one_connect,
    fun _ _ _ hexec hstep => not_inOrder_of_not_oldestFirst hexec hstep⟩

/-- Two connections, two frames: the second loop writes before the first. -/
theorem second_loop_overtakes : ¬ ∀ es, Run.Always step InOrder newNumbered es := by
  intro h
  have horder := (Run.always_iff _ _).mp (h [.connect, .connect, .call (.write [0x41]), .select 0,
    .call (.write [0x42]), .select 1, .take 0, .take 1, .aim 1, .put 1 5 false, .aim 0, .put 0 5 false])
      _ [] _ (List.append_nil _).symm rfl
  exact absurd horder.ascending (by decide)

end Numbered

end Atlas.Ipc
