import Atlas.Lib.Lines
import Atlas.Lib.Replace

/-!
# Texts whose lines all begin with a mark

* `Marked` : every line begins with the mark; `Place`, `step` : a reader that checks it; `marked_iff_read`;
* `Guarded` : a text can stand on a line behind the mark; `guarded_iff`;
* `marked_records` : a text of records, each of them a line by itself, is marked when their values are guarded;
* `Neutral` : a text that the reader passes over in a line and nowhere else; `read_neutral`.
-/

namespace Lines

/-- Every line of the text begins with the mark. -/
def Marked (isBreak : Char → Bool) (mark text : List Char) : Prop := ∀ line ∈ splitLines isBreak text, mark <+: line

instance (isBreak : Char → Bool) (mark text : List Char) : Decidable (Marked isBreak mark text) :=
  inferInstanceAs (Decidable (∀ line ∈ splitLines isBreak text, mark <+: line))

/-- Where a reader is: an end of the mark is to come, or a line feed may, or a line lacks the mark. -/
inductive Place (mark : List Char)
  | before (rest : List Char) (h : rest <:+ mark)
  | returned
  | lacking

variable (isBreak : Char → Bool) (mark : List Char)

def Place.inside : Place mark := .before [] List.nil_suffix

def Place.start : Place mark := .before mark List.suffix_rfl

/-- The place behind a character in the middle of a line. -/
def pass (c : Char) : Place mark :=
  if isBreak c = false then Place.inside mark else if c = '\r' then .returned else Place.start mark

/-- The place behind a character, an end of the mark being to come. -/
def expect (c : Char) : (rest : List Char) → rest <:+ mark → Place mark
  | [], _ => pass isBreak mark c
  | p :: rest, h => if c = p then .before rest ((List.suffix_cons p rest).trans h) else .lacking

def step : Place mark → Char → Place mark
  | .before rest h, c => expect isBreak mark c rest h
  | .returned, c => if c = '\n' then Place.start mark else expect isBreak mark c mark List.suffix_rfl
  | .lacking, _ => .lacking

variable {mark} in
/-- A text may end here: no line is left with a part of the mark. -/
def Place.Fine : Place mark → Prop
  | .before rest _ => rest = [] ∨ rest = mark
  | .returned => True
  | .lacking => False

/-- The mark has no line break in it, and a line feed is one. -/
structure Breaks (isBreak : Char → Bool) (mark : List Char) : Prop where
  feed : isBreak '\n' = true
  mark_ne : mark ≠ []
  unbroken : ∀ c ∈ mark, isBreak c = false

variable {isBreak mark}

theorem read_lacking (text : List Char) : text.foldl (step isBreak mark) .lacking = .lacking := by
  induction text with
  | nil => rfl
  | cons c text ih => exact ih

theorem read_return {text : List Char} (h : text.head? ≠ some '\n') :
    (text.foldl (step isBreak mark) .returned).Fine ↔ (text.foldl (step isBreak mark) (.start mark)).Fine := by
  cases text with
  | nil => simp [Place.Fine, Place.start]
  | cons c text =>
    have hc : c ≠ '\n' := fun heq => h (congrArg some heq)
    rw [List.foldl_cons, List.foldl_cons, step, if_neg hc]
    rfl

/-- What is left of the mark is what the first line must begin with. -/
def Awaits (isBreak : Char → Bool) (mark rest text : List Char) : Prop :=
  rest <+: (splitLines isBreak text).headD [] ∧ ∀ line ∈ (splitLines isBreak text).tail, mark <+: line

theorem splitLines_cons (c : Char) (text : List Char) :
    ∃ line, splitLines isBreak (c :: text) = (c :: line) :: (splitLines isBreak (c :: text)).tail := by
  rw [splitLines]
  split_ifs
  · exact ⟨[], rfl⟩
  · cases splitLines isBreak text with
    | nil => exact ⟨[], rfl⟩
    | cons line lines => exact ⟨line, rfl⟩

theorem marked_cons {c : Char} {text : List Char} :
    Marked isBreak mark (c :: text) ↔ Awaits isBreak mark mark (c :: text) := by
  obtain ⟨line, hline⟩ := @splitLines_cons isBreak c text
  rw [Marked, Awaits, hline, List.forall_mem_cons]
  rfl

theorem awaits_glue {c : Char} {rest text : List Char} (h : ¬ Ends isBreak c text) :
    Awaits isBreak mark rest (c :: text) ↔
      rest <+: c :: (splitLines isBreak text).headD [] ∧ ∀ line ∈ (splitLines isBreak text).tail, mark <+: line := by
  rw [Awaits, splitLines, if_neg h]
  cases splitLines isBreak text <;> rfl

/-- A step inside a line. -/
theorem read_inside (h : Breaks isBreak mark) {c : Char} {text : List Char}
    (hmark : (text.foldl (step isBreak mark) (.start mark)).Fine ↔ Marked isBreak mark text)
    (hinside : (text.foldl (step isBreak mark) (.inside mark)).Fine ↔ Awaits isBreak mark [] text) :
    (text.foldl (step isBreak mark) (pass isBreak mark c)).Fine ↔ Awaits isBreak mark [] (c :: text) := by
  have hends : Ends isBreak c text → (Awaits isBreak mark [] (c :: text) ↔ Marked isBreak mark text) := by
    intro hends
    rw [Awaits, splitLines, if_pos hends]
    exact and_iff_right List.nil_prefix
  have hgoes : ¬ Ends isBreak c text → (Awaits isBreak mark [] (c :: text) ↔ Awaits isBreak mark [] text) := by
    intro hgoes
    rw [awaits_glue hgoes]
    exact and_congr_left' (iff_of_true List.nil_prefix List.nil_prefix)
  rw [pass]
  split_ifs with hbreak hreturn
  · rw [hinside]
    exact (hgoes fun hc => absurd hc.1 (by rw [hbreak]; decide)).symm
  · by_cases hfeed : text.head? = some '\n'
    · obtain ⟨rest, rfl⟩ : ∃ rest, text = '\n' :: rest := by
        cases text with
        | nil => cases hfeed
        | cons d rest => exact ⟨rest, by rw [Option.some.inj hfeed]⟩
      -- the line feed ends the line that the carriage return is in
      have hsame : step isBreak mark .returned '\n' = step isBreak mark (.inside mark) '\n' := by
        simp [step, Place.inside, expect, pass, h.feed]
      rw [hgoes fun hc => hc.2 ⟨hreturn, rfl⟩, ← hinside, List.foldl_cons, hsame, List.foldl_cons]
    · rw [hends ⟨by simpa using hbreak, fun hc => hfeed hc.2⟩, read_return hfeed, hmark]
  · rw [hends ⟨by simpa using hbreak, fun hc => hreturn hc.1⟩, hmark]

/-- In front of a line the lines are read from there; inside one, it and the lines behind it. -/
theorem read_iff (h : Breaks isBreak mark) (text : List Char) :
    ((text.foldl (step isBreak mark) (.start mark)).Fine ↔ Marked isBreak mark text) ∧
      ∀ rest (hrest : rest <:+ mark), rest ≠ mark →
        ((text.foldl (step isBreak mark) (.before rest hrest)).Fine ↔ Awaits isBreak mark rest text) := by
  induction text with
  | nil =>
    refine ⟨by simp [Place.Fine, Place.start, Marked, splitLines], fun rest _ hne => ?_⟩
    simp [Place.Fine, Awaits, splitLines, hne]
  | cons c text ih =>
    obtain ⟨hmark, hinside⟩ := ih
    have hall : ∀ rest (hrest : rest <:+ mark),
        (((c :: text).foldl (step isBreak mark) (.before rest hrest)).Fine ↔
          Awaits isBreak mark rest (c :: text)) := by
      intro rest hrest
      cases rest with
      | nil => exact read_inside h hmark (hinside [] List.nil_suffix h.mark_ne.symm)
      | cons p rest =>
        have hp : isBreak p = false := h.unbroken p (hrest.subset (List.mem_cons_self ..))
        rw [List.foldl_cons, step, expect]
        split_ifs with hc
        · subst hc
          have hshort : rest ≠ mark := fun heq => by
            have := hrest.length_le
            rw [heq, List.length_cons] at this
            omega
          rw [awaits_glue fun hends => absurd hends.1 (by rw [hp]; decide), List.cons_prefix_cons,
            hinside rest ((List.suffix_cons _ _).trans hrest) hshort]
          exact and_congr_left' (and_iff_right rfl).symm
        · rw [read_lacking]
          refine iff_of_false id fun hawaits => ?_
          obtain ⟨line, hline⟩ := @splitLines_cons isBreak c text
          have hpre := hawaits.1
          rw [hline] at hpre
          exact hc (List.cons_prefix_cons.mp hpre).1.symm
    refine ⟨?_, fun rest hrest _ => hall rest hrest⟩
    rw [marked_cons]
    exact hall mark List.suffix_rfl

theorem marked_iff_read (h : Breaks isBreak mark) {text : List Char} :
    Marked isBreak mark text ↔ (text.foldl (step isBreak mark) (.start mark)).Fine := (read_iff h text).1.symm

/-! ## Records -/

theorem read_rest (rest : List Char) (hrest : rest <:+ mark) :
    rest.foldl (step isBreak mark) (.before rest hrest) = .inside mark := by
  induction rest with
  | nil => rfl
  | cons p rest ih =>
    rw [List.foldl_cons, step, expect, if_pos rfl]
    exact ih _

theorem read_unbroken {text : List Char} (h : ∀ c ∈ text, isBreak c = false) :
    text.foldl (step isBreak mark) (.inside mark) = .inside mark := by
  induction text with
  | nil => rfl
  | cons c text ih =>
    rw [List.foldl_cons, show step isBreak mark (.inside mark) c = .inside mark by
      simp [step, Place.inside, expect, pass, h c (List.mem_cons_self ..)]]
    exact ih fun d hd => h d (List.mem_cons_of_mem _ hd)

theorem step_feed (h : Breaks isBreak mark) (place : Place mark) :
    step isBreak mark place '\n' = .start mark ∨ step isBreak mark place '\n' = .lacking := by
  cases place with
  | before rest hrest =>
    cases rest with
    | nil => exact .inl (by simp [step, expect, pass, h.feed])
    | cons p rest =>
      have hp : '\n' ≠ p := fun heq => by
        have := h.unbroken p (hrest.subset (List.mem_cons_self ..))
        rw [← heq, h.feed] at this
        cases this
      exact .inr (if_neg hp)
  | returned => exact .inl (by simp [step])
  | lacking => exact .inr rfl

/-- The text stands behind the mark on a line of its own. -/
def Guarded (isBreak : Char → Bool) (mark text : List Char) : Prop :=
  (text ++ ['\n']).foldl (step isBreak mark) (.inside mark) = .start mark

def record (mark : List Char) (r : List Char × List Char) : List Char := mark ++ (r.1 ++ (r.2 ++ ['\n']))

/-- A record comes to the next one, or a line in it lacks the mark. -/
theorem read_record (h : Breaks isBreak mark) {r : List Char × List Char} (hr : ∀ c ∈ r.1, isBreak c = false) :
    (Guarded isBreak mark r.2 ∧ (record mark r).foldl (step isBreak mark) (.start mark) = .start mark) ∨
      ¬ Guarded isBreak mark r.2 ∧ (record mark r).foldl (step isBreak mark) (.start mark) = .lacking := by
  have hread : (record mark r).foldl (step isBreak mark) (.start mark)
      = (r.2 ++ ['\n']).foldl (step isBreak mark) (.inside mark) := by
    rw [record, List.foldl_append, Place.start, read_rest, List.foldl_append, read_unbroken hr]
  rw [hread, Guarded]
  rw [List.foldl_append]
  obtain hfeed | hfeed := step_feed h (r.2.foldl (step isBreak mark) (.inside mark))
  · exact .inl ⟨hfeed, hfeed⟩
  · refine .inr ⟨fun hc => ?_, hfeed⟩
    rw [List.foldl_cons, hfeed] at hc
    cases hc

theorem marked_records (h : Breaks isBreak mark) {rs : List (List Char × List Char)}
    (hrs : ∀ r ∈ rs, ∀ c ∈ r.1, isBreak c = false) :
    Marked isBreak mark (rs.flatMap (record mark)) ↔ ∀ r ∈ rs, Guarded isBreak mark r.2 := by
  rw [marked_iff_read h]
  induction rs with
  | nil => simp [Place.Fine, Place.start]
  | cons r rs ih =>
    rw [List.flatMap_cons, List.foldl_append, List.forall_mem_cons]
    obtain ⟨hguard, hread⟩ | ⟨hguard, hread⟩ := read_record h (hrs r (List.mem_cons_self ..))
    · rw [hread, ih fun r' hr' => hrs r' (List.mem_cons_of_mem _ hr')]
      exact (and_iff_right hguard).symm
    · rw [hread, read_lacking]
      exact iff_of_false id fun hc => hguard hc.1

/-- Every line break in the text has the mark behind it. -/
theorem guarded_iff (h : Breaks isBreak mark) {text : List Char} :
    Guarded isBreak mark text ↔ ∀ line ∈ (splitLines isBreak (text ++ ['\n'])).tail, mark <+: line := by
  have hread := (read_iff h (text ++ ['\n'])).2 [] List.nil_suffix h.mark_ne.symm
  rw [Awaits, and_iff_right List.nil_prefix] at hread
  rw [← hread, Guarded, Place.inside, List.foldl_append]
  obtain hfeed | hfeed := step_feed h (text.foldl (step isBreak mark) (.before [] List.nil_suffix))
  · rw [List.foldl_cons, hfeed]
    exact iff_of_true rfl (.inr rfl)
  · rw [List.foldl_cons, hfeed]
    exact iff_of_false nofun id

theorem guarded_unbroken (h : Breaks isBreak mark) {text : List Char} (htext : ∀ c ∈ text, isBreak c = false) :
    Guarded isBreak mark text := by
  rw [Guarded, List.foldl_append, read_unbroken htext]
  simp [step, Place.inside, expect, pass, h.feed]

/-! ## Replacements that a reader does not notice -/

/-- No break, and nothing of the mark. -/
structure Neutral (isBreak : Char → Bool) (mark text : List Char) : Prop where
  text_ne : text ≠ []
  neutral : ∀ c ∈ text, isBreak c = false ∧ c ∉ mark

theorem read_neutral (h : Breaks isBreak mark) {s t : List Char} (hs : Neutral isBreak mark s)
    (ht : Neutral isBreak mark t) (place : Place mark) :
    s.foldl (step isBreak mark) place = t.foldl (step isBreak mark) place := by
  have hother {s : List Char} {c : Char} (hs : Neutral isBreak mark (c :: s)) {rest : List Char} (hrest : rest <:+ mark)
      (hne : rest ≠ []) : expect isBreak mark c rest hrest = .lacking := by
    obtain ⟨p, rest, rfl⟩ := List.exists_cons_of_ne_nil hne
    refine if_neg fun heq => (hs.neutral c (List.mem_cons_self ..)).2 ?_
    rw [heq]
    exact hrest.subset (List.mem_cons_self ..)
  cases place with
  | before rest hrest =>
    cases rest with
    | nil =>
      exact (read_unbroken fun d hd => (hs.neutral d hd).1).trans (read_unbroken fun d hd => (ht.neutral d hd).1).symm
    | cons p rest =>
      have hread {s : List Char} (hs : Neutral isBreak mark s) :
          s.foldl (step isBreak mark) (.before (p :: rest) hrest) = .lacking := by
        obtain ⟨c, s, rfl⟩ := List.exists_cons_of_ne_nil hs.text_ne
        rw [List.foldl_cons, step, hother hs _ (List.cons_ne_nil _ _), read_lacking]
      rw [hread hs, hread ht]
  | returned =>
    have hread {s : List Char} (hs : Neutral isBreak mark s) : s.foldl (step isBreak mark) .returned = .lacking := by
      obtain ⟨c, s, rfl⟩ := List.exists_cons_of_ne_nil hs.text_ne
      have hfeed : c ≠ '\n' := fun heq => by
        have hc := (hs.neutral c (List.mem_cons_self ..)).1
        rw [heq, h.feed] at hc
        cases hc
      rw [List.foldl_cons, step, if_neg hfeed, hother hs _ h.mark_ne, read_lacking]
    rw [hread hs, hread ht]
  | lacking => rw [read_lacking, read_lacking]

end Lines
