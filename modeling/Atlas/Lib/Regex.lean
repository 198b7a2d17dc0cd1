import Atlas.Lib.PyText

/-!
# Regular expressions of Python's `re`

Patterns that are a sequence of repeated classes of characters, with assertions about the characters beside a place.

* `Piece`, `Matches` : what a pattern says of a text and of the characters beside it;
* `first` : the match the engine takes at a place, the longest repetitions first; `first_sound`, `first_complete`;
* `Starts`, `Occurs` : a match at a place, and anywhere (`re.search`); `search` decides it;
* `Pattern.sub` : `re.sub`; `Replaces` : what it makes of a text, whichever matches it takes;
* `Replaces.occurs` : where a match in the outcome comes from;
* `Tables`, `caseless` : the classes of characters of `re`, and letters without regard to case.
-/

namespace Regex

/-- `rep p least most` : so many characters of `p`; `assert q` : `q` of the characters before and behind the place. -/
inductive Piece
  | rep (p : Char → Bool) (least : Nat) (most : Option Nat)
  | assert (q : Option Char → Option Char → Bool)

namespace Piece

def one (p : Char → Bool) : Piece := rep p 1 (some 1)

def star (p : Char → Bool) : Piece := rep p 0 none

def plus (p : Char → Bool) : Piece := rep p 1 none

def optional (p : Char → Bool) : Piece := rep p 0 (some 1)

end Piece

/-- The text `w`, between `before` and `behind`, is a match. -/
def Matches : List Piece → Option Char → List Char → Option Char → Prop
  | [], _, w, _ => w = []
  | .assert q :: ps, before, w, behind => q before (w.head?.or behind) = true ∧ Matches ps before w behind
  | .rep p least most :: ps, before, w, behind =>
    ∃ u v, w = u ++ v ∧ (∀ c ∈ u, p c = true) ∧ least ≤ u.length ∧ (∀ n ∈ most, u.length ≤ n) ∧
      Matches ps (u.getLast?.or before) v behind

/-! ## The engine -/

/-- Repetitions of `p`, as many as possible, such that `next` goes on. -/
def greedy (p : Char → Bool) (next : Option Char → List Char → Option (List Char)) :
    Nat → Option Nat → Option Char → List Char → Option (List Char)
  | least, _, before, [] => if least = 0 then next before [] else none
  | least, most, before, c :: cs =>
    (if p c = true ∧ most ≠ some 0 then greedy p next (least - 1) (most.map (· - 1)) (some c) cs else none).or
      (if least = 0 then next before (c :: cs) else none)

/-- The text behind the match that is taken at the place in front of it. -/
def first : List Piece → Option Char → List Char → Option (List Char)
  | [], _, s => some s
  | .assert q :: ps, before, s => if q before s.head? = true then first ps before s else none
  | .rep p least most :: ps, before, s => greedy p (first ps) least most before s

theorem getLast?_cons_or (c : Char) (u : List Char) (before : Option Char) :
    (c :: u).getLast?.or before = u.getLast?.or (some c) := by
  cases u with
  | nil => rfl
  | cons d u =>
    rw [List.getLast?_cons_cons]
    cases h : (d :: u).getLast? with
    | none => exact absurd (List.getLast?_eq_none_iff.mp h) nofun
    | some e => rfl

theorem greedy_sound {p : Char → Bool} {next : Option Char → List Char → Option (List Char)} {least : Nat}
    {most : Option Nat} {before : Option Char} {s rest : List Char}
    (h : greedy p next least most before s = some rest) :
    ∃ u t, s = u ++ t ∧ (∀ c ∈ u, p c = true) ∧ least ≤ u.length ∧ (∀ n ∈ most, u.length ≤ n) ∧
      next (u.getLast?.or before) t = some rest := by
  induction s generalizing least most before with
  | nil =>
    rw [greedy] at h
    split_ifs at h with hleast
    exact ⟨[], [], rfl, nofun, hleast.le, fun _ _ => Nat.zero_le _, h⟩
  | cons c cs ih =>
    rw [greedy] at h
    rcases Option.or_eq_some_iff.mp h with h | ⟨-, h⟩
    · split_ifs at h with hmore
      obtain ⟨u, t, rfl, hu, hleast, hmost, hnext⟩ := ih h
      refine ⟨c :: u, t, rfl, ?_, ?_, ?_, ?_⟩
      · intro d hd
        rcases List.mem_cons.mp hd with rfl | hd
        · exact hmore.1
        · exact hu d hd
      · rw [List.length_cons]
        omega
      · intro n hn
        have hpred := hmost (n - 1) (by rw [hn]; rfl)
        have hpos : n ≠ 0 := by
          rintro rfl
          exact hmore.2 hn
        rw [List.length_cons]
        omega
      · rw [getLast?_cons_or]
        exact hnext
    · split_ifs at h with hleast
      exact ⟨[], c :: cs, rfl, nofun, hleast.le, fun _ _ => Nat.zero_le _, h⟩

theorem greedy_complete {p : Char → Bool} {next : Option Char → List Char → Option (List Char)} {u t : List Char}
    {least : Nat} {most : Option Nat} {before : Option Char} (hu : ∀ c ∈ u, p c = true) (hleast : least ≤ u.length)
    (hmost : ∀ n ∈ most, u.length ≤ n) (hnext : next (u.getLast?.or before) t ≠ none) :
    greedy p next least most before (u ++ t) ≠ none := by
  induction u generalizing least most before with
  | nil =>
    obtain rfl : least = 0 := Nat.le_zero.mp hleast
    cases t with
    | nil => exact hnext
    | cons c cs =>
      rw [List.nil_append, greedy, if_pos rfl, Ne, Option.or_eq_none_iff]
      exact fun h => hnext h.2
  | cons c u ih =>
    have hmore : most ≠ some 0 := by
      intro h
      have hlength := hmost 0 h
      rw [List.length_cons] at hlength
      omega
    rw [List.cons_append, greedy, if_pos ⟨hu c (List.mem_cons_self ..), hmore⟩, Ne, Option.or_eq_none_iff, not_and_or]
    left
    refine ih (fun d hd => hu d (List.mem_cons_of_mem c hd)) ?_ (fun n hn => ?_) ?_
    · rw [List.length_cons] at hleast
      omega
    · obtain ⟨m, hm, rfl⟩ := Option.map_eq_some_iff.mp hn
      have hlength := hmost m hm
      rw [List.length_cons] at hlength
      omega
    · rw [← getLast?_cons_or c u before]
      exact hnext

theorem first_sound {ps : List Piece} {before : Option Char} {s rest : List Char} (h : first ps before s = some rest) :
    ∃ w, s = w ++ rest ∧ Matches ps before w rest.head? := by
  induction ps generalizing before s with
  | nil => exact ⟨[], (Option.some.inj h : s = rest), rfl⟩
  | cons piece ps ih =>
    cases piece with
    | assert q =>
      rw [first] at h
      split_ifs at h with hq
      obtain ⟨w, rfl, hw⟩ := ih h
      rw [List.head?_append] at hq
      exact ⟨w, rfl, hq, hw⟩
    | rep p least most =>
      obtain ⟨u, t, rfl, hu, hleast, hmost, hnext⟩ := greedy_sound h
      obtain ⟨v, rfl, hv⟩ := ih hnext
      exact ⟨u ++ v, (List.append_assoc u v rest).symm, u, v, rfl, hu, hleast, hmost, hv⟩

theorem first_complete {ps : List Piece} {before : Option Char} {w rest : List Char}
    (h : Matches ps before w rest.head?) : first ps before (w ++ rest) ≠ none := by
  induction ps generalizing before w with
  | nil => exact nofun
  | cons piece ps ih =>
    cases piece with
    | assert q =>
      rw [first, List.head?_append, if_pos h.1]
      exact ih h.2
    | rep p least most =>
      obtain ⟨u, v, rfl, hu, hleast, hmost, hv⟩ := h
      rw [first, List.append_assoc]
      exact greedy_complete hu hleast hmost (ih hv)

/-! ## Search -/

/-- A match begins in front of `s`. -/
def Starts (ps : List Piece) (before : Option Char) (s : List Char) : Prop :=
  ∃ w rest, s = w ++ rest ∧ Matches ps before w rest.head?

theorem first_eq_none_iff {ps : List Piece} {before : Option Char} {s : List Char} :
    first ps before s = none ↔ ¬ Starts ps before s := by
  constructor
  · rintro h ⟨w, rest, rfl, hw⟩
    exact first_complete hw h
  · intro h
    by_contra hne
    obtain ⟨rest, hrest⟩ := Option.ne_none_iff_exists'.mp hne
    obtain ⟨w, hs, hw⟩ := first_sound hrest
    exact h ⟨w, rest, hs, hw⟩

/-- A match begins somewhere in `s`, which `before` stands in front of. -/
def OccursFrom (ps : List Piece) (before : Option Char) (s : List Char) : Prop :=
  ∃ a t, s = a ++ t ∧ Starts ps (a.getLast?.or before) t

/-- The text contains a match. -/
def Occurs (ps : List Piece) (text : List Char) : Prop := OccursFrom ps none text

def searchFrom (ps : List Piece) : Option Char → List Char → Bool
  | before, [] => (first ps before []).isSome
  | before, c :: s => (first ps before (c :: s)).isSome || searchFrom ps (some c) s

/-- `re.search(pattern, text) is not None` -/
def search (ps : List Piece) (text : List Char) : Bool := searchFrom ps none text

section
variable {ps : List Piece} {before : Option Char}

theorem occursFrom_nil : OccursFrom ps before [] ↔ Starts ps before [] := by
  constructor
  · rintro ⟨a, t, hsplit, hstarts⟩
    obtain ⟨rfl, rfl⟩ := List.append_eq_nil_iff.mp hsplit.symm
    exact hstarts
  · exact fun h => ⟨[], [], rfl, h⟩

theorem occursFrom_cons {c : Char} {s : List Char} :
    OccursFrom ps before (c :: s) ↔ Starts ps before (c :: s) ∨ OccursFrom ps (some c) s := by
  constructor
  · rintro ⟨a, t, hsplit, hstarts⟩
    cases a with
    | nil =>
      obtain rfl : c :: s = t := hsplit
      exact .inl hstarts
    | cons d a =>
      obtain ⟨rfl, rfl⟩ := List.cons.inj hsplit
      rw [getLast?_cons_or] at hstarts
      exact .inr ⟨a, t, rfl, hstarts⟩
  · rintro (h | ⟨a, t, rfl, hstarts⟩)
    · exact ⟨[], c :: s, rfl, h⟩
    · refine ⟨c :: a, t, rfl, ?_⟩
      rw [getLast?_cons_or]
      exact hstarts

theorem searchFrom_iff {s : List Char} : searchFrom ps before s = true ↔ OccursFrom ps before s := by
  have hstarts (before : Option Char) (s : List Char) : (first ps before s).isSome = true ↔ Starts ps before s := by
    rw [Option.isSome_iff_ne_none, Ne, first_eq_none_iff, not_not]
  induction s generalizing before with
  | nil => rw [searchFrom, hstarts, occursFrom_nil]
  | cons c s ih =>
    have hrest : searchFrom ps (some c) s = true ↔ OccursFrom ps (some c) s := ih
    rw [searchFrom, Bool.or_eq_true, hstarts, hrest, occursFrom_cons]

theorem search_iff {text : List Char} : search ps text = true ↔ Occurs ps text := searchFrom_iff

instance (text : List Char) : Decidable (Occurs ps text) := decidable_of_iff _ search_iff

/-- A match in a text put together begins in its first part, or lies in the second. -/
theorem occursFrom_append {a t : List Char} : OccursFrom ps before (a ++ t) ↔
    (∃ u v, a = u ++ v ∧ v ≠ [] ∧ Starts ps (u.getLast?.or before) (v ++ t)) ∨
      OccursFrom ps (a.getLast?.or before) t := by
  induction a generalizing before with
  | nil =>
    refine ⟨.inr, fun h => h.resolve_left ?_⟩
    rintro ⟨u, v, hsplit, hne, -⟩
    exact hne (List.append_eq_nil_iff.mp hsplit.symm).2
  | cons c a ih =>
    rw [List.cons_append, occursFrom_cons, ih, getLast?_cons_or, ← or_assoc]
    refine or_congr_left ⟨?_, ?_⟩
    · rintro (h | ⟨u, v, rfl, hne, h⟩)
      · exact ⟨[], c :: a, rfl, nofun, h⟩
      · refine ⟨c :: u, v, rfl, hne, ?_⟩
        rw [getLast?_cons_or]
        exact h
    · rintro ⟨u, v, hsplit, hne, h⟩
      cases u with
      | nil =>
        obtain rfl : c :: a = v := hsplit
        exact .inl h
      | cons d u =>
        obtain ⟨rfl, rfl⟩ := List.cons.inj hsplit
        rw [getLast?_cons_or] at h
        exact .inr ⟨u, v, rfl, hne, h⟩

end

/-! ## Parts of a pattern -/

section
variable {p : Char → Bool} {ps qs : List Piece} {before behind : Option Char} {w : List Char}

theorem matches_one : Matches (.one p :: ps) before w behind ↔
    ∃ c v, w = c :: v ∧ p c = true ∧ Matches ps (some c) v behind := by
  constructor
  · rintro ⟨u, v, rfl, hu, hleast, hmost, hv⟩
    have hlength : u.length = 1 := le_antisymm (hmost 1 rfl) hleast
    obtain ⟨c, rfl⟩ := List.length_eq_one_iff.mp hlength
    exact ⟨c, v, rfl, hu c (List.mem_singleton_self c), hv⟩
  · rintro ⟨c, v, rfl, hc, hv⟩
    refine ⟨[c], v, rfl, ?_, le_rfl, ?_, hv⟩
    · intro d hd
      rwa [List.mem_singleton.mp hd]
    · intro n hn
      exact (Option.some.inj hn).le

theorem matches_star : Matches (.star p :: ps) before w behind ↔
    ∃ u v, w = u ++ v ∧ (∀ c ∈ u, p c = true) ∧ Matches ps (u.getLast?.or before) v behind := by
  constructor
  · rintro ⟨u, v, hw, hu, -, -, hv⟩
    exact ⟨u, v, hw, hu, hv⟩
  · rintro ⟨u, v, hw, hu, hv⟩
    exact ⟨u, v, hw, hu, Nat.zero_le _, nofun, hv⟩

theorem matches_plus : Matches [.plus p] before w behind ↔ w ≠ [] ∧ ∀ c ∈ w, p c = true := by
  constructor
  · rintro ⟨u, v, rfl, hu, hleast, -, rfl⟩
    rw [List.append_nil]
    exact ⟨List.ne_nil_of_length_pos hleast, hu⟩
  · rintro ⟨hne, hw⟩
    exact ⟨w, [], (List.append_nil w).symm, hw, List.length_pos_iff.mpr hne, nofun, rfl⟩

theorem matches_append : Matches (ps ++ qs) before w behind ↔
    ∃ u v, w = u ++ v ∧ Matches ps before u (v.head?.or behind) ∧ Matches qs (u.getLast?.or before) v behind := by
  induction ps generalizing before w with
  | nil =>
    constructor
    · exact fun h => ⟨[], w, rfl, rfl, h⟩
    · rintro ⟨u, v, rfl, rfl, h⟩
      exact h
  | cons piece ps ih =>
    cases piece with
    | assert q =>
      rw [List.cons_append, Matches, ih]
      constructor
      · rintro ⟨hq, u, v, rfl, hu, hv⟩
        rw [List.head?_append, Option.or_assoc] at hq
        exact ⟨u, v, rfl, ⟨hq, hu⟩, hv⟩
      · rintro ⟨u, v, rfl, ⟨hq, hu⟩, hv⟩
        rw [← Option.or_assoc, ← List.head?_append] at hq
        exact ⟨hq, u, v, rfl, hu, hv⟩
    | rep p least most =>
      have hlast (x u : List Char) : u.getLast?.or (x.getLast?.or before) = (x ++ u).getLast?.or before := by
        rw [List.getLast?_append, Option.or_assoc]
      constructor
      · rintro ⟨x, y, rfl, hx, hleast, hmost, hy⟩
        obtain ⟨u, v, rfl, hu, hv⟩ := ih.mp hy
        rw [hlast] at hv
        exact ⟨x ++ u, v, (List.append_assoc x u v).symm, ⟨x, u, rfl, hx, hleast, hmost, hu⟩, hv⟩
      · rintro ⟨_, v, rfl, ⟨x, u, rfl, hx, hleast, hmost, hu⟩, hv⟩
        rw [← hlast] at hv
        exact ⟨x, u ++ v, List.append_assoc x u v, hx, hleast, hmost, ih.mpr ⟨u, v, rfl, hu, hv⟩⟩

/-- One character for each of the classes. -/
theorem matches_ones {classes : List (Char → Bool)} : Matches (classes.map .one ++ ps) before w behind ↔
    ∃ u v, w = u ++ v ∧ List.Forall₂ (fun p c => p c = true) classes u ∧
      Matches ps (u.getLast?.or before) v behind := by
  induction classes generalizing before w with
  | nil =>
    constructor
    · exact fun h => ⟨[], w, rfl, .nil, h⟩
    · rintro ⟨u, v, rfl, hu, hv⟩
      cases hu
      exact hv
  | cons p classes ih =>
    rw [List.map_cons, List.cons_append, matches_one]
    constructor
    · rintro ⟨c, _, rfl, hc, hrest⟩
      obtain ⟨u, v, rfl, hu, hv⟩ := ih.mp hrest
      rw [← getLast?_cons_or c u before] at hv
      exact ⟨c :: u, v, rfl, .cons hc hu, hv⟩
    · rintro ⟨_, v, rfl, hu, hv⟩
      cases hu with
      | cons hc hu =>
        rw [getLast?_cons_or] at hv
        exact ⟨_, _, rfl, hc, ih.mpr ⟨_, v, rfl, hu, hv⟩⟩

/-- A pattern without assertions. -/
def Plain (ps : List Piece) : Prop := ∀ q, Piece.assert q ∉ ps

theorem Plain.matches (h : Plain ps) (hw : Matches ps before w behind) (before' behind' : Option Char) :
    Matches ps before' w behind' := by
  induction ps generalizing before before' w with
  | nil => exact hw
  | cons piece ps ih =>
    cases piece with
    | assert q => exact absurd (List.mem_cons_self ..) (h q)
    | rep p least most =>
      obtain ⟨u, v, rfl, hu, hleast, hmost, hv⟩ := hw
      exact ⟨u, v, rfl, hu, hleast, hmost, ih (fun q hq => h q (List.mem_cons_of_mem _ hq)) hv _⟩

theorem Plain.occursFrom (h : Plain ps) {s : List Char} : OccursFrom ps before s ↔ Occurs ps s := by
  have hstarts {before before' : Option Char} {t : List Char} : Starts ps before t → Starts ps before' t := by
    rintro ⟨w, rest, ht, hw⟩
    exact ⟨w, rest, ht, h.matches hw _ _⟩
  constructor
  · rintro ⟨a, t, hs, ht⟩
    exact ⟨a, t, hs, hstarts ht⟩
  · rintro ⟨a, t, hs, ht⟩
    exact ⟨a, t, hs, hstarts ht⟩

/-- The characters of a match are those of the classes. -/
theorem forall_of_matches {P : Char → Prop}
    (h : ∀ piece ∈ ps, ∀ p least most, piece = .rep p least most → ∀ c, p c = true → P c)
    (hw : Matches ps before w behind) : ∀ c ∈ w, P c := by
  induction ps generalizing before w with
  | nil =>
    rw [show w = [] from hw]
    exact nofun
  | cons piece ps ih =>
    have hrest := fun piece hpiece => h piece (List.mem_cons_of_mem _ hpiece)
    cases piece with
    | assert q => exact ih hrest hw.2
    | rep p least most =>
      obtain ⟨u, v, rfl, hu, -, -, hv⟩ := hw
      intro c hc
      rcases List.mem_append.mp hc with hc | hc
      · exact h _ (List.mem_cons_self ..) p least most rfl c (hu c hc)
      · exact ih hrest hv c hc

end

/-! ## Substitution -/

/-- A pattern whose matches are not empty. -/
structure Pattern where
  pieces : List Piece
  consumes : ∀ before behind, ¬ Matches pieces before [] behind

theorem Pattern.not_starts_nil (pattern : Pattern) (before : Option Char) : ¬ Starts pattern.pieces before [] := by
  rintro ⟨w, rest, hsplit, hw⟩
  obtain ⟨rfl, rfl⟩ := List.append_eq_nil_iff.mp hsplit.symm
  exact pattern.consumes _ _ hw

/-- `skip` characters of the match that was found last are still ahead. -/
def Pattern.subFrom (pattern : Pattern) (repl : List Char) : Nat → Option Char → List Char → List Char
  | _, _, [] => []
  | skip + 1, _, c :: s => pattern.subFrom repl skip (some c) s
  | 0, before, c :: s =>
    match first pattern.pieces before (c :: s) with
    | some rest => repl ++ pattern.subFrom repl (s.length - rest.length) (some c) s
    | none => c :: pattern.subFrom repl 0 (some c) s

/-- `re.sub(pattern, repl, text)` -/
def Pattern.sub (pattern : Pattern) (repl text : List Char) : List Char := pattern.subFrom repl 0 none text

/-- Matches are taken one behind another and replaced; a character is kept where no match begins. -/
inductive Replaces (ps : List Piece) (repl : List Char) : Option Char → List Char → List Char → Prop
  | nil (before : Option Char) : Replaces ps repl before [] []
  | keep {before : Option Char} {c : Char} {s out : List Char} : ¬ Starts ps before (c :: s) →
    Replaces ps repl (some c) s out → Replaces ps repl before (c :: s) (c :: out)
  | cut {before : Option Char} {w s out : List Char} : w ≠ [] → Matches ps before w s.head? →
    Replaces ps repl (w.getLast?.or before) s out → Replaces ps repl before (w ++ s) (repl ++ out)

section
variable {ps qs : List Piece} {repl : List Char}

theorem Pattern.subFrom_length (pattern : Pattern) (u : List Char) (before : Option Char) (s : List Char) :
    pattern.subFrom repl u.length before (u ++ s) = pattern.subFrom repl 0 (u.getLast?.or before) s := by
  induction u generalizing before with
  | nil => rfl
  | cons c u ih =>
    rw [List.length_cons, List.cons_append, Pattern.subFrom, ih, getLast?_cons_or]

theorem Pattern.replaces_subFrom (pattern : Pattern) (before : Option Char) (s : List Char) :
    Replaces pattern.pieces repl before s (pattern.subFrom repl 0 before s) := by
  match s with
  | [] => exact .nil before
  | c :: s =>
    rw [Pattern.subFrom]
    cases hfirst : first pattern.pieces before (c :: s) with
    | none => exact .keep (first_eq_none_iff.mp hfirst) (pattern.replaces_subFrom (some c) s)
    | some rest =>
      obtain ⟨w, hsplit, hw⟩ := first_sound hfirst
      cases w with
      | nil => exact absurd hw (pattern.consumes _ _)
      | cons d w =>
        obtain ⟨rfl, hs⟩ := List.cons.inj hsplit
        have hskip : s.length - rest.length = w.length := by
          rw [hs]
          show (w ++ rest).length - rest.length = w.length
          rw [List.length_append]
          omega
        dsimp only
        rw [hskip, hs, List.append_eq, pattern.subFrom_length, ← getLast?_cons_or c w before]
        have hlt : rest.length < (c :: s).length := by
          rw [hs, List.append_eq, List.length_cons, List.length_append]
          omega
        exact .cut (List.cons_ne_nil c w) hw (pattern.replaces_subFrom _ rest)
termination_by s.length

theorem Pattern.replaces_sub (pattern : Pattern) (text : List Char) :
    Replaces pattern.pieces repl none text (pattern.sub repl text) := pattern.replaces_subFrom none text

theorem Replaces.eq_nil {before : Option Char} {out : List Char} (h : Replaces ps repl before [] out) : out = [] := by
  generalize hs : ([] : List Char) = s at h
  cases h with
  | nil => rfl
  | keep => cases hs
  | cut hne => exact absurd (List.append_eq_nil_iff.mp hs.symm).1 hne

/-- The outcome without the first character of the replacement comes from the text as it is. -/
theorem Replaces.kept {mark : Char} {before : Option Char} {s out w rest : List Char}
    (h : Replaces ps repl before s out) (hrepl : repl.head? = some mark) (hout : out = w ++ rest) (hw : mark ∉ w) :
    ∃ t, s = w ++ t ∧ Replaces ps repl (w.getLast?.or before) t rest := by
  induction w generalizing before s out with
  | nil =>
    obtain rfl : out = rest := hout
    exact ⟨s, rfl, h⟩
  | cons c w ih =>
    rw [List.mem_cons, not_or] at hw
    cases h with
    | nil before => cases hout
    | keep hnot hrest =>
      obtain ⟨rfl, rfl⟩ := List.cons.inj hout
      obtain ⟨t, rfl, ht⟩ := ih hrest rfl hw.2
      rw [getLast?_cons_or]
      exact ⟨t, rfl, ht⟩
    | cut hne hmatch hrest =>
      obtain ⟨tail, rfl⟩ := List.head?_eq_some_iff.mp hrepl
      exact absurd (List.cons.inj hout).1 hw.1

/-- Where a match of `qs` in the outcome comes from, when none begins in the replacement: a place in the text where a
match of `qs` begins and none of `ps`. `L` relates the characters in front of a place before and after. -/
theorem Replaces.occurs (L : Option Char → Option Char → List Char → Prop) (hsame : ∀ c s, L (some c) (some c) s)
    (hcut : ∀ before before' w s, w ≠ [] → Matches ps before w s.head? →
      L (w.getLast?.or before) (repl.getLast?.or before') s)
    (hend : ∀ before, ¬ Starts qs before [])
    (hinside : ∀ before u v rest, repl = u ++ v → v ≠ [] → ¬ Starts qs before (v ++ rest))
    (hkept : ∀ before before' s out, L before before' s → Replaces ps repl before s out → Starts qs before' out →
      Starts qs before s)
    {before before' : Option Char} {s out : List Char} (h : Replaces ps repl before s out) (hL : L before before' s)
    (hoccurs : OccursFrom qs before' out) :
    ∃ a t, s = a ++ t ∧ Starts qs (a.getLast?.or before) t ∧ ¬ Starts ps (a.getLast?.or before) t := by
  induction h generalizing before' with
  | nil before => exact absurd (occursFrom_nil.mp hoccurs) (hend _)
  | @keep before c s out hnot hrest ih =>
    rcases occursFrom_cons.mp hoccurs with hstarts | hlater
    · exact ⟨[], c :: s, rfl, hkept _ _ _ _ hL (.keep hnot hrest) hstarts, hnot⟩
    · obtain ⟨a, t, rfl, hqs, hps⟩ := ih (hsame c s) hlater
      refine ⟨c :: a, t, rfl, ?_⟩
      rw [getLast?_cons_or]
      exact ⟨hqs, hps⟩
  | @cut before w s out hne hmatch hrest ih =>
    rcases occursFrom_append.mp hoccurs with ⟨u, v, hsplit, hv, hstarts⟩ | hlater
    · exact absurd hstarts (hinside _ u v out hsplit hv)
    · obtain ⟨a, t, rfl, hqs, hps⟩ := ih (hcut _ _ w s hne hmatch) hlater
      refine ⟨w ++ a, t, (List.append_assoc w a t).symm, ?_⟩
      rw [List.getLast?_append, Option.or_assoc]
      exact ⟨hqs, hps⟩

end

/-! ## Classes of characters -/

/-- What the Unicode tables of the interpreter say: `str.isdecimal` and `str.isalnum` of a character. -/
structure Tables where
  isDecimal : Char → Bool
  isAlnum : Char → Bool
  alnum_of_decimal : ∀ c, isDecimal c = true → isAlnum c = true
  not_space : ∀ c, isAlnum c = true → PyText.isSpace c = false
  decimal_ascii : ∀ c, c.toNat < 128 → isDecimal c = c.isDigit
  alnum_ascii : ∀ c, c.toNat < 128 → isAlnum c = c.isAlphanum

namespace Tables
variable (tables : Tables)

/-- `\w` -/
def isWord (c : Char) : Bool := tables.isAlnum c || c = '_'

/-- `\b` -/
def boundary : Piece := .assert fun before behind => before.any tables.isWord != behind.any tables.isWord

end Tables

theorem not_space_of_isAlphanum {c : Char} (h : c.isAlphanum = true) : PyText.isSpace c = false := by
  have hrange : (48 ≤ c.toNat ∧ c.toNat ≤ 57) ∨ (65 ≤ c.toNat ∧ c.toNat ≤ 90) ∨ (97 ≤ c.toNat ∧ c.toNat ≤ 122) := by
    have hclasses : c.isAlphanum = (decide (c.val ≥ 'A'.val ∧ c.val ≤ 'Z'.val) ||
        (decide (c.val ≥ 'a'.val) && decide (c.val ≤ 'z'.val)) ||
        (decide (c.val ≥ '0'.val) && decide (c.val ≤ '9'.val))) := rfl
    rw [hclasses] at h
    simp only [Bool.or_eq_true, Bool.and_eq_true, decide_eq_true_eq, ge_iff_le, UInt32.le_iff_toNat_le] at h
    have hval : c.val.toNat = c.toNat := rfl
    have hA : 'A'.val.toNat = 65 := rfl
    have hZ : 'Z'.val.toNat = 90 := rfl
    have ha : 'a'.val.toNat = 97 := rfl
    have hz : 'z'.val.toNat = 122 := rfl
    have h0 : '0'.val.toNat = 48 := rfl
    have h9 : '9'.val.toNat = 57 := rfl
    rw [hval, hA, hZ, ha, hz, h0, h9] at h
    omega
  unfold PyText.isSpace
  simp only [List.mem_cons, List.not_mem_nil, or_false, decide_eq_false_iff_not]
  omega

/-- The tables for texts in ASCII. -/
def Tables.ascii : Tables where
  isDecimal := Char.isDigit
  isAlnum := Char.isAlphanum
  alnum_of_decimal c h := by rw [Char.isAlphanum, h, Bool.or_true]
  not_space _ := not_space_of_isAlphanum
  decimal_ascii _ _ := rfl
  alnum_ascii _ _ := rfl

/-- What a small letter, or a character without case, matches under `re.IGNORECASE`. -/
def caseless (x : Char) : List Char :=
  if x = 'i' then ['i', 'I', '\u0130', '\u0131']
  else if x = 'k' then ['k', 'K', '\u212A']
  else if x = 's' then ['s', 'S', '\u017F']
  else [x, x.toUpper]

/-- The text under `re.IGNORECASE`. -/
def letters (text : List Char) : List Piece := (text.map fun x c => decide (c ∈ caseless x)).map .one

/-- `[a-zA-Z0-9]` under `re.IGNORECASE`. -/
def isAlnumCaseless (c : Char) : Bool := c.isAlphanum || c ∈ ['\u0130', '\u0131', '\u017F', '\u212A']

theorem matches_letters {text : List Char} {ps : List Piece} {before behind : Option Char} {w : List Char} :
    Matches (letters text ++ ps) before w behind ↔ ∃ u v, w = u ++ v ∧
      List.Forall₂ (fun x c => c ∈ caseless x) text u ∧ Matches ps (u.getLast?.or before) v behind := by
  have hforall (u : List Char) : List.Forall₂ (fun (p : Char → Bool) c => p c = true)
      (text.map fun x c => decide (c ∈ caseless x)) u ↔ List.Forall₂ (fun x c => c ∈ caseless x) text u := by
    rw [List.forall₂_map_left_iff]
    simp only [decide_eq_true_eq]
  unfold letters
  rw [matches_ones]
  simp only [hforall]

end Regex
