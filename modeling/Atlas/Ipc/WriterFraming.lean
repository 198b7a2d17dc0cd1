import Atlas.Ipc.Writer

/-!
# What the IPC writer puts on a connection

* `stream` : the bytes on a connection;
* `Framed` : they are whole frames, the last one maybe truncated;
* `framed_append_iff` : one more `conn.Write`; `framed_iff_keepsFraming` : whole runs;
* `framed_of_neverResumes` : runs in which no loop comes back to a connection after a cut frame.
-/

namespace Atlas.Ipc

/-- The bytes on a connection: of each frame as many as `conn.Write` wrote. -/
def stream (puts : List Put) : Bytes := puts.flatMap fun p => p.frame.take p.n

/-- The writes that put bytes on the connection. -/
def pieces (puts : List Put) : List Put := puts.filter (0 < ·.n)

/-- The bytes on a connection are whole frames, followed by at most one truncated frame. -/
def Framed (puts : List Put) : Prop := ∃ (whole : List Bytes) (cut : List Put),
  pieces puts = whole.map (fun frame => ⟨frame, frame.length⟩) ++ cut ∧ cut.length ≤ 1 ∧
    stream puts = whole.flatten ++ stream cut

/-- A frame was cut short on the connection. -/
def Truncated (puts : List Put) : Prop := ∃ p ∈ pieces puts, p.n ≠ p.frame.length

theorem stream_pieces (puts : List Put) : stream (pieces puts) = stream puts := by
  induction puts with
  | nil => rfl
  | cons p puts ih =>
    unfold stream pieces at ih ⊢
    rw [List.flatMap_cons, List.filter_cons]
    split_ifs with hn
    · rw [List.flatMap_cons, ih]
    · have hzero : p.n = 0 := by simpa using hn
      rw [ih, hzero, List.take_zero, List.nil_append]

theorem stream_whole (whole : List Bytes) :
    stream (whole.map fun frame => ⟨frame, frame.length⟩) = whole.flatten := by
  induction whole with
  | nil => rfl
  | cons frame whole ih =>
    rw [List.map_cons, List.flatten_cons, ← ih, stream, List.flatMap_cons, List.take_length]
    rfl

theorem framed_iff (puts : List Put) : Framed puts ↔ ∀ p ∈ (pieces puts).dropLast, p.n = p.frame.length := by
  constructor
  · rintro ⟨whole, cut, hpieces, hcut, -⟩ p hp
    have hmem : p ∈ whole.map fun frame => (⟨frame, frame.length⟩ : Put) := by
      rw [hpieces] at hp
      match cut, hcut with
      | [], _ => exact List.dropLast_subset _ (by simpa using hp)
      | [_], _ => simpa using hp
    obtain ⟨frame, -, rfl⟩ := List.mem_map.mp hmem
    rfl
  · intro h
    have hwhole : ((pieces puts).dropLast.map Put.frame).map (fun frame => (⟨frame, frame.length⟩ : Put)) =
        (pieces puts).dropLast := by
      rw [List.map_map]
      conv_rhs => rw [← List.map_id (pieces puts).dropLast]
      refine List.map_congr_left fun p hp => ?_
      show (⟨p.frame, p.frame.length⟩ : Put) = p
      rw [← h p hp]
    have hsplit : pieces puts = (pieces puts).dropLast ++ (pieces puts).getLast?.toList := by
      rcases List.eq_nil_or_concat (pieces puts) with hnil | ⟨front, p, hlast⟩
      · rw [hnil]
        rfl
      · rw [hlast]
        simp
    refine ⟨(pieces puts).dropLast.map Put.frame, (pieces puts).getLast?.toList, ?_, ?_, ?_⟩
    · rw [hwhole]
      exact hsplit
    · cases (pieces puts).getLast? <;> simp
    · rw [← stream_whole, hwhole, ← stream_pieces]
      conv_lhs => rw [hsplit]
      exact List.flatMap_append

theorem framed_append_iff {puts : List Put} (h : Framed puts) (p : Put) :
    Framed (puts ++ [p]) ↔ (Truncated puts → p.n = 0) := by
  by_cases hn : p.n = 0
  · have hpieces : pieces (puts ++ [p]) = pieces puts := by
      rw [pieces, List.filter_append, List.filter_cons_of_neg (by simp [hn]), List.filter_nil, List.append_nil]
      rfl
    rw [framed_iff, hpieces, ← framed_iff]
    exact ⟨fun _ _ => hn, fun _ => h⟩
  · have hpieces : pieces (puts ++ [p]) = pieces puts ++ [p] := by
      rw [pieces, List.filter_append, List.filter_cons_of_pos (by simp; omega), List.filter_nil]
      rfl
    rw [framed_iff, hpieces, List.dropLast_concat]
    constructor
    · rintro hall ⟨q, hq, hcut⟩
      exact absurd (hall q hq) hcut
    · intro hcut q hq
      by_contra hne
      exact hn (hcut ⟨q, hq, hne⟩)

namespace Writer

/-- The steps that keep the framing: on a connection with a frame cut short, `conn.Write` writes nothing more. -/
def KeepsFraming (w : Writer) : Event → Prop
  | .put i n _ => ∀ frame conn puts, w.loops[i]? = some (.writing frame conn) → w.conns[conn]? = some puts →
      Truncated puts → n = 0
  | _ => True

/-- No loop calls `conn.Write` on a connection again behind one that stopped inside a frame there. -/
def NeverResumes (w : Writer) : Event → Prop
  | .put i _ _ => ∀ frame conn puts, w.loops[i]? = some (.writing frame conn) → w.conns[conn]? = some puts →
      ¬ Truncated puts
  | _ => True

theorem NeverResumes.keepsFraming {w : Writer} {e : Event} (h : w.NeverResumes e) : w.KeepsFraming e := by
  cases e with
  | put i n err =>
    intro frame conn puts hloop hconn hcut
    exact absurd hcut (h frame conn puts hloop hconn)
  | _ => trivial

/-- A step writes on one connection at most. -/
theorem conns_of_step {w w' : Writer} {e : Event} (h : w.step e = some w') (hput : ∀ i n err, e ≠ .put i n err) :
    w'.conns = w.conns ∨ w'.conns = w.conns ++ [[]] := by
  cases e with
  | call request =>
    obtain ⟨c, rfl, -, -⟩ := call_cases h
    exact Or.inl rfl
  | select k =>
    obtain ⟨c, -, ⟨-, -, rfl⟩ | ⟨-, -, rfl⟩ | ⟨-, _, _, -, rfl⟩ | ⟨-, -, rfl⟩ | ⟨-, -, rfl⟩⟩ := select_cases h
    all_goals exact Or.inl rfl
  | connect =>
    obtain ⟨-, rfl⟩ := connect_cases h
    exact Or.inr rfl
  | take i =>
    obtain ⟨frame, rest, -, -, rfl⟩ := take_cases h
    exact Or.inl rfl
  | aim i =>
    obtain ⟨frame, -, rfl | ⟨conn, rfl⟩⟩ := aim_cases h
    all_goals exact Or.inl rfl
  | put i n err => exact absurd rfl (hput i n err)
  | exit i =>
    obtain ⟨-, -, rfl⟩ := exit_cases h
    exact Or.inl rfl
  | close =>
    obtain rfl := Option.some.inj h
    exact Or.inl rfl

theorem framed_step_iff {w w' : Writer} {e : Event} (hP : ∀ puts ∈ w.conns, Framed puts) (h : w.step e = some w') :
    (∀ puts ∈ w'.conns, Framed puts) ↔ w.KeepsFraming e := by
  by_cases hput : ∃ i n err, e = .put i n err
  · obtain ⟨i, n, err, rfl⟩ := hput
    obtain ⟨frame, conn, hloop, -, rfl⟩ := put_cases h
    show (∀ puts ∈ w.conns.modify conn (· ++ [⟨frame, n⟩]), Framed puts) ↔ _
    constructor
    · intro hall frame' conn' puts hloop' hconn hcut
      obtain ⟨rfl, rfl⟩ := Loop.writing.inj (Option.some.inj (hloop.symm.trans hloop'))
      have hnew : puts ++ [⟨frame, n⟩] ∈ w.conns.modify conn (· ++ [⟨frame, n⟩]) := by
        refine List.mem_iff_getElem?.mpr ⟨conn, ?_⟩
        rw [List.getElem?_modify, hconn]
        simp
      exact (framed_append_iff (hP puts (List.mem_of_getElem? hconn)) ⟨frame, n⟩).mp (hall _ hnew) hcut
    · intro hkeeps puts hmem
      obtain ⟨c, hc⟩ := List.mem_iff_getElem?.mp hmem
      rw [List.getElem?_modify] at hc
      obtain ⟨old, hold, rfl⟩ := Option.map_eq_some_iff.mp hc
      have hframed := hP old (List.mem_of_getElem? hold)
      split_ifs with hconn
      · subst hconn
        exact (framed_append_iff hframed _).mpr (hkeeps frame conn old hloop hold)
      · exact hframed
  · have hne : ∀ i n err, e ≠ .put i n err := fun i n err he => hput ⟨i, n, err, he⟩
    have hkeeps : w.KeepsFraming e := by
      unfold KeepsFraming
      split
      · exact absurd rfl (hne _ _ _)
      · trivial
    refine ⟨fun _ => hkeeps, fun _ => ?_⟩
    rcases conns_of_step h hne with hconns | hconns
    · rw [hconns]
      exact hP
    · intro puts hmem
      rw [hconns, List.mem_append, List.mem_singleton] at hmem
      rcases hmem with hmem | rfl
      · exact hP puts hmem
      · exact (framed_iff []).mpr fun p hp => absurd hp List.not_mem_nil

/-- **When the framing survives**: all connections carry whole frames with at most one truncated frame at the end, in
every state of a run, just when every step of the run keeps the framing. -/
theorem framed_iff_keepsFraming (es : List Event) :
    Run.Always step (fun w => ∀ puts ∈ w.conns, Framed puts) newWriter es ↔
      Run.Each step KeepsFraming newWriter es :=
  Run.always_iff_each (fun _ => True) (fun _ _ _ _ _ => trivial) (fun _ _ _ _ hP h => framed_step_iff hP h)
    trivial (fun _ hmem => absurd hmem List.not_mem_nil)

/-- **Framing**: in every run in which no loop comes back to a connection after a `conn.Write` that stopped inside a
frame, every connection carries whole frames, followed by at most one truncated frame at the very end, in every
state. -/
theorem framed_of_neverResumes {es : List Event} (h : Run.Each step NeverResumes newWriter es) :
    Run.Always step (fun w => ∀ puts ∈ w.conns, Framed puts) newWriter es :=
  Run.always_of_each _ (fun _ _ _ hP hnever hstep => (framed_step_iff hP hstep).mpr hnever.keepsFraming)
    (fun _ hmem => absurd hmem List.not_mem_nil) h

/-- A frame that a deadline cuts short, on a connection that no loop comes back to. -/
theorem framed_deadline : Run.Always step (fun w => ∀ puts ∈ w.conns, Framed puts) newWriter
    [.connect, .call (.write [0x7B]), .select 0, .take 0, .aim 0, .put 0 2 true] := by
  apply framed_of_neverResumes
  intro s₁ h₁
  obtain rfl := Option.some.inj h₁
  refine ⟨trivial, fun s₂ h₂ => ?_⟩
  obtain rfl := Option.some.inj h₂
  refine ⟨trivial, fun s₃ h₃ => ?_⟩
  obtain rfl := Option.some.inj h₃
  refine ⟨trivial, fun s₄ h₄ => ?_⟩
  obtain rfl := Option.some.inj h₄
  refine ⟨trivial, fun s₅ h₅ => ?_⟩
  obtain rfl := Option.some.inj h₅
  refine ⟨trivial, fun s₆ h₆ => ⟨?_, trivial⟩⟩
  intro frame conn puts hloop hconn
  obtain ⟨-, rfl⟩ := Loop.writing.inj (Option.some.inj hloop)
  obtain rfl := Option.some.inj hconn
  rintro ⟨p, hp, -⟩
  exact absurd hp List.not_mem_nil

/-- A write deadline cuts a frame short, and the next frame follows on the same connection. -/
theorem frame_after_truncated_frame : ¬ Run.Always step (fun w => ∀ puts ∈ w.conns, Framed puts) newWriter
    [.connect, .call (.write [0x7B]), .select 0, .call (.write [0x7D]), .select 1, .take 0, .aim 0, .put 0 2 true,
      .take 0, .aim 0, .put 0 5 false] := by
  intro h
  have hframed := (Run.always_iff _ _).mp h _ [] _ (List.append_nil _).symm rfl
    [⟨[0, 0, 0, 1, 0x7B], 2⟩, ⟨[0, 0, 0, 1, 0x7D], 5⟩] (by decide)
  exact absurd ((framed_iff _).mp hframed ⟨[0, 0, 0, 1, 0x7B], 2⟩ (by decide)) (by decide)

end Writer

end Atlas.Ipc
