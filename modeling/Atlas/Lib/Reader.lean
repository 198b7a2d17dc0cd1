import Mathlib.Data.List.Basic
import Mathlib.Tactic

/-!
# Reading exactly `n` bytes from a stream that arrives in pieces

* `Event` : what a wait for input ends with; at the end of the list the stream is closed;
* `readExact` : waits until `n` bytes are there, at most up to a stall if the read is timed;
* `Reader.rest` : the bytes still to come; `readExact_ok`, `readExact_chunked` : a read takes them from the front,
  and how they are cut into pieces does not matter.
-/

namespace Reading

inductive Event
  | chunk (bs : List UInt8)
  /-- no input for longer than any timeout -/
  | stall
  | fail
  deriving DecidableEq, Repr

inductive ReadError
  | unexpectedEof
  | failed
  | timeout
  deriving DecidableEq, Repr

/-- A buffered reader, and the number of bytes that were taken out of it. -/
structure Reader where
  buffered : List UInt8
  incoming : List Event
  offset : Nat
  deriving DecidableEq, Repr

def Event.bytes : Event → List UInt8
  | chunk bs => bs
  | stall => []
  | fail => []

def Reader.rest (r : Reader) : List UInt8 := r.buffered ++ r.incoming.flatMap Event.bytes

/-- The stream has no stall and no failure. -/
def Reader.Chunked (r : Reader) : Prop := ∀ e ∈ r.incoming, ∃ bs, e = .chunk bs

/-- Waits until `n` bytes are held. -/
def gather (timed : Bool) (n : Nat) : List UInt8 → List Event → Option ReadError × List UInt8 × List Event
  | held, [] => if n ≤ held.length then (none, held, []) else (some .unexpectedEof, held, [])
  | held, e :: rest =>
    if n ≤ held.length then (none, held, e :: rest)
    else match e with
      | .chunk bs => gather timed n (held ++ bs) rest
      | .stall => if timed then (some .timeout, held, rest) else gather timed n held rest
      | .fail => (some .failed, held, rest)

/-- The bytes held are lost to the caller when the read fails. -/
def readExact (timed : Bool) (n : Nat) (r : Reader) : Except ReadError (List UInt8) × Reader :=
  match gather timed n r.buffered r.incoming with
  | (none, held, incoming) => (.ok (held.take n), ⟨held.drop n, incoming, r.offset + n⟩)
  | (some err, held, incoming) => (.error err, ⟨[], incoming, r.offset + held.length⟩)

/-! ## What a wait does -/

section gather
variable {timed : Bool} {n : Nat} {held bs : List UInt8} {incoming rest : List Event}

theorem gather_of_le (h : n ≤ held.length) : gather timed n held incoming = (none, held, incoming) := by
  unfold gather
  cases incoming <;> simp only [if_pos h]

theorem gather_nil (h : ¬ n ≤ held.length) : gather timed n held [] = (some .unexpectedEof, held, []) := by
  rw [gather, if_neg h]

theorem gather_chunk (h : ¬ n ≤ held.length) :
    gather timed n held (.chunk bs :: rest) = gather timed n (held ++ bs) rest := by
  rw [gather, if_neg h]

theorem gather_stall (h : ¬ n ≤ held.length) :
    gather timed n held (.stall :: rest) = if timed then (some .timeout, held, rest) else gather timed n held rest := by
  rw [gather, if_neg h]

theorem gather_fail (h : ¬ n ≤ held.length) :
    gather timed n held (.fail :: rest) = (some .failed, held, rest) := by
  rw [gather, if_neg h]

end gather

/-- Waiting loses no bytes, and reads on in the stream. -/
theorem gather_bytes (timed : Bool) (n : Nat) (held : List UInt8) (incoming : List Event) :
    (gather timed n held incoming).2.1 ++ (gather timed n held incoming).2.2.flatMap Event.bytes =
      held ++ incoming.flatMap Event.bytes ∧ (gather timed n held incoming).2.2 ⊆ incoming := by
  by_cases hn : n ≤ held.length
  · rw [gather_of_le hn]
    exact ⟨rfl, List.Subset.refl _⟩
  induction incoming generalizing held with
  | nil =>
    rw [gather_nil hn]
    exact ⟨rfl, List.Subset.refl _⟩
  | cons e rest ih =>
    have hnext : ∀ held' : List UInt8, (gather timed n held' rest).2.1 ++
        (gather timed n held' rest).2.2.flatMap Event.bytes = held' ++ rest.flatMap Event.bytes ∧
          (gather timed n held' rest).2.2 ⊆ e :: rest := by
      intro held'
      by_cases hn' : n ≤ held'.length
      · rw [gather_of_le hn']
        exact ⟨rfl, List.subset_cons_self _ _⟩
      · exact ⟨(ih held' hn').1, List.Subset.trans (ih held' hn').2 (List.subset_cons_self _ _)⟩
    cases e with
    | chunk bs =>
      rw [gather_chunk hn]
      refine ⟨(hnext _).1.trans ?_, (hnext _).2⟩
      rw [List.flatMap_cons, List.append_assoc]
      rfl
    | stall =>
      rw [gather_stall hn]
      split_ifs
      · exact ⟨rfl, List.subset_cons_self _ _⟩
      · exact hnext held
    | fail =>
      rw [gather_fail hn]
      exact ⟨rfl, List.subset_cons_self _ _⟩

theorem length_of_gather {timed : Bool} {n : Nat} {held : List UInt8} {incoming : List Event}
    (h : (gather timed n held incoming).1 = none) : n ≤ (gather timed n held incoming).2.1.length := by
  induction incoming generalizing held with
  | nil =>
    by_cases hn : n ≤ held.length
    · rwa [gather_of_le hn]
    · rw [gather_nil hn] at h
      cases h
  | cons e rest ih =>
    by_cases hn : n ≤ held.length
    · rwa [gather_of_le hn]
    cases e with
    | chunk bs =>
      rw [gather_chunk hn] at h ⊢
      exact ih h
    | stall =>
      rw [gather_stall hn] at h ⊢
      split_ifs at h ⊢
      exact ih h
    | fail =>
      rw [gather_fail hn] at h
      cases h

/-- Without stalls and failures a wait ends with enough bytes, or with all of them at the end of the stream. -/
theorem gather_chunked (timed : Bool) (n : Nat) (held : List UInt8) {incoming : List Event}
    (h : ∀ e ∈ incoming, ∃ bs, e = .chunk bs) :
    (gather timed n held incoming).1 = none ∨
      ((gather timed n held incoming).1 = some .unexpectedEof ∧ (gather timed n held incoming).2.2 = [] ∧
        (gather timed n held incoming).2.1.length < n) := by
  induction incoming generalizing held with
  | nil =>
    by_cases hn : n ≤ held.length
    · exact Or.inl (by rw [gather_of_le hn])
    · rw [gather_nil hn]
      exact Or.inr ⟨rfl, rfl, Nat.not_le.mp hn⟩
  | cons e rest ih =>
    by_cases hn : n ≤ held.length
    · exact Or.inl (by rw [gather_of_le hn])
    · obtain ⟨bs, rfl⟩ := h e List.mem_cons_self
      rw [gather_chunk hn]
      exact ih (held ++ bs) fun e' he' => h e' (List.mem_cons_of_mem _ he')

/-! ## What a read does -/

/-- A read that succeeds takes the next `n` bytes. -/
theorem readExact_ok {timed : Bool} {n : Nat} {r r' : Reader} {bs : List UInt8}
    (h : readExact timed n r = (.ok bs, r')) :
    n ≤ r.rest.length ∧ bs = r.rest.take n ∧ r'.rest = r.rest.drop n ∧ r'.offset = r.offset + n := by
  have hbytes := (gather_bytes timed n r.buffered r.incoming).1
  have hlength := @length_of_gather timed n r.buffered r.incoming
  unfold readExact at h
  split at h
  · rename_i held incoming hgather
    rw [hgather] at hbytes hlength
    have hn : n ≤ held.length := hlength rfl
    have hrest : held ++ incoming.flatMap Event.bytes = r.rest := hbytes
    obtain ⟨hbs, rfl⟩ := Prod.mk.inj h
    refine ⟨?_, ?_, ?_, rfl⟩
    · rw [← hrest, List.length_append]
      omega
    · rw [← hrest, List.take_append_of_le_length hn]
      exact (Except.ok.inj hbs).symm
    · rw [← hrest, List.drop_append_of_le_length hn]
      rfl
  · cases (Prod.mk.inj h).1

theorem length_rest_readExact (timed : Bool) (n : Nat) (r : Reader) :
    (readExact timed n r).2.rest.length ≤ r.rest.length := by
  have hbytes := congrArg List.length (gather_bytes timed n r.buffered r.incoming).1
  rw [List.length_append] at hbytes
  unfold readExact
  split
  all_goals
    rename_i hgather
    rw [hgather] at hbytes
    simp only [Reader.rest, List.length_append, List.length_drop, List.length_nil] at hbytes ⊢
    omega

theorem Chunked_readExact {r : Reader} (timed : Bool) (n : Nat) (h : r.Chunked) :
    (readExact timed n r).2.Chunked := by
  have hsubset := (gather_bytes timed n r.buffered r.incoming).2
  unfold readExact
  split
  all_goals
    rename_i hgather
    rw [hgather] at hsubset
    exact fun e he => h e (hsubset he)

/-- **Chunk independence**: without stalls and failures a read succeeds just when the bytes are there, and fails only
at the end of the stream. -/
theorem readExact_chunked (timed : Bool) (n : Nat) {r : Reader} (h : r.Chunked) :
    (n ≤ r.rest.length ∧ ∃ r', readExact timed n r = (.ok (r.rest.take n), r') ∧ r'.Chunked ∧
        r'.rest = r.rest.drop n ∧ r'.offset = r.offset + n) ∨
      (r.rest.length < n ∧ ∃ r', readExact timed n r = (.error .unexpectedEof, r') ∧ r'.Chunked ∧ r'.rest = []) := by
  have hkeep := Chunked_readExact timed n h
  rcases hread : readExact timed n r with ⟨_ | bs, r'⟩
  · rename_i err
    right
    rw [hread] at hkeep
    have hbytes := (gather_bytes timed n r.buffered r.incoming).1
    unfold readExact at hread
    split at hread
    · cases (Prod.mk.inj hread).1
    · rename_i err' held incoming hgather
      rw [hgather] at hbytes
      obtain ⟨herr, rfl⟩ := Prod.mk.inj hread
      rcases gather_chunked timed n r.buffered h with hnone | ⟨heof, hnil, hlt⟩
      · rw [hgather] at hnone
        cases hnone
      · rw [hgather] at heof hnil hlt
        obtain rfl : incoming = [] := hnil
        have hrest : held = r.rest := by
          rw [Reader.rest, ← hbytes]
          simp
        refine ⟨hrest ▸ hlt, _, ?_, hkeep, rfl⟩
        rw [← herr, Option.some.inj heof]
  · left
    rw [hread] at hkeep
    obtain ⟨hn, rfl, hrest, hoffset⟩ := readExact_ok hread
    exact ⟨hn, r', rfl, hkeep, hrest, hoffset⟩

end Reading
