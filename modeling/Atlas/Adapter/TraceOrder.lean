import Atlas.Adapter.Trace
import Atlas.Lib.Run

/-!
# Trace ids of concurrent and of sequential calls

* `Generating` : a generator and the calls on it, each of which reads the clock in one step and counts in another;
* `sequential` : the schedule of calls that follow one another;
* `traceIDs_unique_sorted` : no id is returned twice, and the ids of sequential calls increase where the clock does not
  run backwards, is not before 1970 and its readings have one number of digits.
-/

namespace Atlas.Adapter
open Atlas.Ipc (Bytes)

structure Generating where
  tg : TraceGenerator
  /-- The clock readings of the calls that have not counted yet. -/
  reading : List Int := []
  /-- The ids that were returned, the newest last. -/
  returned : List Bytes := []
  deriving DecidableEq, Repr

inductive GenerateStep
  /-- A call starts: `ts := time.Now().UnixMilli()`. -/
  | now (ts : Int)
  /-- The call behind the reading `k` goes on: `tg.seq.Add(1)`, and it returns. -/
  | add (k : Nat)
  deriving DecidableEq, Repr

namespace Generating

def step (g : Generating) : GenerateStep → Option Generating
  | .now ts => some { g with reading := g.reading ++ [ts] }
  | .add k => g.reading[k]?.map fun ts =>
    let (id, tg) := g.tg.generate ts
    { tg, reading := g.reading.eraseIdx k, returned := g.returned ++ [id] }

end Generating

/-- Calls that follow one another, with their clock readings. -/
def sequential (clock : List Int) : List GenerateStep := clock.flatMap fun ts => [.now ts, .add 0]

/-- The number of digits of a clock reading. -/
def digitCount (ts : Int) : Nat := (Decimal.render ts.natAbs).length

/-! ## The sequence number of an id -/

/-- The number behind the last dash: the last twenty bytes. -/
def sequenceOf (id : Bytes) : Nat := Decimal.value (id.drop (id.length - 20))

theorem length_renderPadded_seq (seq : UInt64) : (Decimal.renderPadded 20 seq.toNat).length = 20 :=
  Decimal.length_renderPadded (by decide) (seq.toNat_lt.trans (by decide))

@[simp] theorem sequenceOf_formatTraceID (exchange : Bytes) (ts : Int) (seq : UInt64) :
    sequenceOf (formatTraceID exchange ts seq) = seq.toNat := by
  have hlen := length_renderPadded_seq seq
  unfold sequenceOf formatTraceID
  rw [List.length_append, hlen, Nat.add_sub_cancel, List.drop_left, Decimal.value_renderPadded]

namespace Generating

/-- The ids so far have the sequence numbers from 1 on, up to the counter. -/
structure Inv (exchange : Bytes) (g : Generating) : Prop where
  exchange_eq : g.tg.exchange = exchange
  seq : g.tg.seq = UInt64.ofNat g.returned.length
  returned : g.returned.map sequenceOf = (List.range' 1 g.returned.length).map (· % 2 ^ 64)

theorem Inv.step {exchange : Bytes} {g g' : Generating} {s : GenerateStep} (h : g.Inv exchange)
    (hstep : g.step s = some g') : g'.Inv exchange := by
  cases s with
  | now ts =>
    obtain rfl := Option.some.inj hstep
    exact ⟨h.exchange_eq, h.seq, h.returned⟩
  | add k =>
    obtain ⟨ts, -, rfl⟩ := Option.map_eq_some_iff.mp hstep
    have hseq : g.tg.seq + 1 = UInt64.ofNat (g.returned.length + 1) := by
      rw [h.seq, UInt64.ofNat_add]
      rfl
    refine ⟨h.exchange_eq, ?_, ?_⟩
    · rw [List.length_append, List.length_singleton]
      exact hseq
    · simp only [List.map_append, List.map_singleton, List.length_append, List.length_singleton,
        TraceGenerator.generate, sequenceOf_formatTraceID]
      rw [h.returned, List.range'_concat, List.map_append, List.map_singleton, hseq, UInt64.toNat_ofNat', Nat.one_mul,
        Nat.add_comm 1]

theorem Inv.nodup {exchange : Bytes} {g : Generating} (h : g.Inv exchange) (hlt : g.returned.length < 2 ^ 64) :
    g.returned.Nodup := by
  apply List.Nodup.of_map sequenceOf
  rw [h.returned]
  refine List.Nodup.map_on ?_ List.nodup_range'
  intro m hm n hn hmod
  rw [List.mem_range'_1] at hm hn
  rw [Nat.mod_eq_of_lt (by omega), Nat.mod_eq_of_lt (by omega)] at hmod
  exact hmod

end Generating

/-! ## The order of sequential ids -/

theorem append_lt_append {as bs xs ys : Bytes} (hlen : as.length = bs.length) (h : as < bs) : as ++ xs < bs ++ ys := by
  induction as generalizing bs with
  | nil =>
    obtain rfl := List.length_eq_zero_iff.mp hlen.symm
    exact absurd h (List.not_lt_nil _)
  | cons a as ih =>
    cases bs with
    | nil => cases hlen
    | cons b bs =>
      rw [List.cons_lt_cons_iff] at h
      rw [List.cons_append, List.cons_append, List.cons_lt_cons_iff]
      exact h.imp_right fun ⟨hab, hlt⟩ => ⟨hab, ih (Nat.succ.inj hlen) hlt⟩

theorem formatTraceID_lt (exchange : Bytes) {ts ts' : Int} {seq seq' : UInt64} (hnonneg : 0 ≤ ts) (hts : ts ≤ ts')
    (hdigits : digitCount ts = digitCount ts') (hseq : seq.toNat < seq'.toNat) :
    formatTraceID exchange ts seq < formatTraceID exchange ts' seq' := by
  have hpadded : Decimal.renderPadded 20 seq.toNat < Decimal.renderPadded 20 seq'.toNat := by
    apply Decimal.lt_of_value_lt
    · rw [length_renderPadded_seq, length_renderPadded_seq]
    · exact fun _ => Decimal.isDigit_of_mem_renderPadded
    · exact fun _ => Decimal.isDigit_of_mem_renderPadded
    · rwa [Decimal.value_renderPadded, Decimal.value_renderPadded]
  unfold formatTraceID
  rcases hts.eq_or_lt with rfl | hlt
  · exact List.append_left_lt hpadded
  obtain ⟨n, rfl⟩ := Int.eq_ofNat_of_zero_le hnonneg
  obtain ⟨n', rfl⟩ := Int.eq_ofNat_of_zero_le (hnonneg.trans hts)
  have hrender : Decimal.render n < Decimal.render n' := by
    apply Decimal.lt_of_value_lt hdigits
    · exact fun _ => Decimal.isDigit_of_mem_render
    · exact fun _ => Decimal.isDigit_of_mem_render
    · rw [Decimal.value_render, Decimal.value_render]
      exact Int.ofNat_lt.mp hlt
  simp only [List.append_assoc]
  exact List.append_left_lt (List.append_left_lt (append_lt_append hdigits hrender))

/-- The ids of the calls that a generator takes one after the other. -/
def TraceGenerator.ids (tg : TraceGenerator) : List Int → List Bytes
  | [] => []
  | ts :: clock => (tg.generate ts).1 :: (tg.generate ts).2.ids clock

theorem exec_sequential (clock : List Int) (g : Generating) (hidle : g.reading = []) :
    ∃ tg, Run.exec Generating.step g (sequential clock) =
      some { tg, reading := [], returned := g.returned ++ g.tg.ids clock } := by
  induction clock generalizing g with
  | nil =>
    refine ⟨g.tg, ?_⟩
    rw [TraceGenerator.ids, List.append_nil]
    obtain ⟨_, reading, _⟩ := g
    obtain rfl := hidle
    rfl
  | cons ts clock ih =>
    obtain ⟨tg, htg⟩ := ih ⟨(g.tg.generate ts).2, [], g.returned ++ [(g.tg.generate ts).1]⟩ rfl
    refine ⟨tg, ?_⟩
    have hstep : Run.exec Generating.step g (sequential (ts :: clock)) =
        Run.exec Generating.step ⟨(g.tg.generate ts).2, [], g.returned ++ [(g.tg.generate ts).1]⟩
          (sequential clock) := by
      obtain ⟨_, reading, _⟩ := g
      obtain rfl := hidle
      rfl
    rw [hstep, htg, List.append_assoc]
    rfl

theorem mem_ids {tg : TraceGenerator} {clock : List Int} (hlt : tg.seq.toNat + clock.length < 2 ^ 64) {id : Bytes}
    (h : id ∈ tg.ids clock) :
    ∃ ts ∈ clock, ∃ seq, tg.seq.toNat < seq.toNat ∧ id = formatTraceID tg.exchange ts seq := by
  induction clock generalizing tg with
  | nil => cases h
  | cons ts clock ih =>
    rw [List.length_cons] at hlt
    have hnext : (tg.seq + 1).toNat = tg.seq.toNat + 1 := by
      rw [UInt64.toNat_add, UInt64.toNat_one, Nat.mod_eq_of_lt (by omega)]
    rcases List.mem_cons.mp h with rfl | h
    · exact ⟨ts, List.mem_cons_self .., tg.seq + 1, by omega, rfl⟩
    · obtain ⟨ts', hts', seq, hseq, rfl⟩ := ih (by show (tg.seq + 1).toNat + _ < _; omega) h
      have hseq' : (tg.seq + 1).toNat < seq.toNat := hseq
      exact ⟨ts', List.mem_cons_of_mem _ hts', seq, by omega, rfl⟩

theorem ids_sorted {tg : TraceGenerator} {clock : List Int} (hlt : tg.seq.toNat + clock.length < 2 ^ 64)
    (hmono : clock.Pairwise (· ≤ ·)) (hnonneg : ∀ ts ∈ clock, 0 ≤ ts)
    (hdigits : ∀ ts ∈ clock, ∀ ts' ∈ clock, digitCount ts = digitCount ts') : (tg.ids clock).Pairwise (· < ·) := by
  induction clock generalizing tg with
  | nil => exact List.Pairwise.nil
  | cons ts clock ih =>
    obtain ⟨hle, hmono⟩ := List.pairwise_cons.mp hmono
    rw [List.length_cons] at hlt
    have hnext : (tg.generate ts).2.seq.toNat = tg.seq.toNat + 1 := by
      show (tg.seq + 1).toNat = _
      rw [UInt64.toNat_add, UInt64.toNat_one, Nat.mod_eq_of_lt (by omega)]
    refine List.pairwise_cons.mpr ⟨fun id hid => ?_, ?_⟩
    · obtain ⟨ts', hts', seq, hseq, rfl⟩ := mem_ids (by omega) hid
      exact formatTraceID_lt tg.exchange (hnonneg ts (List.mem_cons_self ..)) (hle ts' hts')
        (hdigits ts (List.mem_cons_self ..) ts' (List.mem_cons_of_mem _ hts')) hseq
    · refine ih (by omega) hmono (fun t ht => hnonneg t (List.mem_cons_of_mem _ ht)) fun t ht t' ht' => ?_
      exact hdigits t (List.mem_cons_of_mem _ ht) t' (List.mem_cons_of_mem _ ht')

/-- **Trace ids are unique**, whatever the schedule, **and sorted** where one call follows the other. -/
theorem traceIDs_unique_sorted (exchange : Bytes) :
    (∀ steps g, Run.exec Generating.step { tg := newTraceGenerator exchange } steps = some g →
      g.returned.length < 2 ^ 64 → g.returned.Nodup) ∧
    (∀ clock g, Run.exec Generating.step { tg := newTraceGenerator exchange } (sequential clock) = some g →
      clock.length < 2 ^ 64 → clock.Pairwise (· ≤ ·) → (∀ ts ∈ clock, 0 ≤ ts) →
      (∀ ts ∈ clock, ∀ ts' ∈ clock, digitCount ts = digitCount ts') → g.returned.Pairwise (· < ·)) := by
  constructor
  · intro steps g hexec hlt
    have hstart : Generating.Inv exchange { tg := newTraceGenerator exchange } := ⟨rfl, rfl, rfl⟩
    exact (Run.exec_invariant (Generating.Inv exchange) (fun _ _ _ h hstep => h.step hstep) hstart hexec).nodup hlt
  · intro clock g hexec hlt hmono hnonneg hdigits
    obtain ⟨tg, htg⟩ := exec_sequential clock { tg := newTraceGenerator exchange } rfl
    obtain rfl := Option.some.inj (htg.symm.trans hexec)
    rw [List.nil_append]
    exact ids_sorted (by simpa [newTraceGenerator] using hlt) hmono hnonneg hdigits

/-- Two calls whose clock readings and counts cross, and three calls in a row. -/
theorem traceIDs_crossed : ∃ g g',
    Run.exec Generating.step { tg := newTraceGenerator [111] } [.now 7, .now 8, .add 1, .add 0] = some g ∧
    g.returned.Nodup ∧
    Run.exec Generating.step { tg := newTraceGenerator [111] } (sequential [7, 8, 8]) = some g' ∧
    g'.returned.Pairwise (· < ·) := by
  obtain ⟨g, hg⟩ := Option.isSome_iff_exists.mp (by decide +kernel :
    (Run.exec Generating.step { tg := newTraceGenerator [111] } [.now 7, .now 8, .add 1, .add 0]).isSome)
  obtain ⟨g', hg'⟩ := Option.isSome_iff_exists.mp (by decide +kernel :
    (Run.exec Generating.step { tg := newTraceGenerator [111] } (sequential [7, 8, 8])).isSome)
  have hlt : g.returned.length < 2 ^ 64 := by
    have hlen : (Run.exec Generating.step { tg := newTraceGenerator [111] }
        [.now 7, .now 8, .add 1, .add 0]).all (·.returned.length < 2 ^ 64) := by decide +kernel
    rw [hg] at hlen
    exact of_decide_eq_true hlen
  exact ⟨g, g', hg, (traceIDs_unique_sorted [111]).1 _ g hg hlt, hg',
    (traceIDs_unique_sorted [111]).2 [7, 8, 8] g' hg' (by decide) (by decide) (by decide) (by decide +kernel)⟩

/-- Before 1970 a later reading has the smaller number behind its minus. -/
theorem before_epoch_not_sorted : [-200, -100].Pairwise (fun ts ts' : Int => ts ≤ ts') ∧
    digitCount (-200) = digitCount (-100) ∧
    ∃ g, Run.exec Generating.step { tg := newTraceGenerator [111] } (sequential [-200, -100]) = some g ∧
      ¬ g.returned.Pairwise (· < ·) := by
  refine ⟨by decide, by decide +kernel, _, rfl, ?_⟩
  decide +kernel

end Atlas.Adapter
