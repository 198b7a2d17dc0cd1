import Mathlib.Data.List.Infix
import Mathlib.Tactic

/-!
# Lines of a text

`isBreak` says which characters end a line; a carriage return and the line feed behind it end one line together.

* `splitLines` : `splitlines(keepends=True)`; `flatten_splitLines`;
* `Joint` : no line reaches from one text into the next; `splitLines_append`;
* `splitLines_eq_cons`, `splitLines_eq_append` : the lines of a part of the lines are the part.
-/

namespace Lines

variable (isBreak : Char → Bool)

/-- A line ends behind `c`, in front of the text `rest`. -/
def Ends (c : Char) (rest : List Char) : Prop := isBreak c = true ∧ ¬ (c = '\r' ∧ rest.head? = some '\n')

instance (c : Char) (rest : List Char) : Decidable (Ends isBreak c rest) := inferInstanceAs (Decidable (_ ∧ _))

/-- The character comes in front of the first line. -/
def glue (c : Char) : List (List Char) → List (List Char)
  | [] => [[c]]
  | line :: lines => (c :: line) :: lines

def splitLines : List Char → List (List Char)
  | [] => []
  | c :: cs => if Ends isBreak c cs then [c] :: splitLines cs else glue c (splitLines cs)

/-- No line of the first text goes on in the second one. -/
def Joint (front back : List Char) : Prop := ∀ c ∈ front.getLast?, back ≠ [] → Ends isBreak c back

variable {isBreak}

theorem ends_congr {c : Char} {rest rest' : List Char} (h : rest.head? = rest'.head?) :
    Ends isBreak c rest ↔ Ends isBreak c rest' := by
  unfold Ends
  rw [h]

@[simp] theorem glue_ne_nil (c : Char) (lines : List (List Char)) : glue c lines ≠ [] := by
  cases lines <;> exact List.cons_ne_nil _ _

@[simp] theorem flatten_glue (c : Char) (lines : List (List Char)) : (glue c lines).flatten = c :: lines.flatten := by
  cases lines <;> rfl

theorem glue_append {c : Char} {lines others : List (List Char)} (h : lines ≠ []) :
    glue c (lines ++ others) = glue c lines ++ others := by
  cases lines with
  | nil => exact absurd rfl h
  | cons line lines => rfl

@[simp] theorem flatten_splitLines (cs : List Char) : (splitLines isBreak cs).flatten = cs := by
  induction cs with
  | nil => rfl
  | cons c cs ih =>
    rw [splitLines]
    split_ifs
    · rw [List.flatten_cons, ih, List.singleton_append]
    · rw [flatten_glue, ih]

@[simp] theorem splitLines_eq_nil {cs : List Char} : splitLines isBreak cs = [] ↔ cs = [] := by
  constructor
  · intro h
    rw [← @flatten_splitLines isBreak cs, h, List.flatten_nil]
  · rintro rfl
    rfl

theorem joint_nil_left (back : List Char) : Joint isBreak [] back := fun _ h => nomatch h

theorem joint_nil_right (front : List Char) : Joint isBreak front [] := fun _ _ h => absurd rfl h

theorem joint_cons {c : Char} {cs back : List Char} (h : cs ≠ []) :
    Joint isBreak (c :: cs) back ↔ Joint isBreak cs back := by
  unfold Joint
  rw [List.getLast?_cons_of_ne_nil h]

/-- The lines of two texts. -/
theorem splitLines_append {front back : List Char} (h : Joint isBreak front back) :
    splitLines isBreak (front ++ back) = splitLines isBreak front ++ splitLines isBreak back := by
  by_cases hback : back = []
  · rw [hback, List.append_nil, splitLines, List.append_nil]
  induction front with
  | nil => rfl
  | cons c front ih =>
    by_cases hfront : front = []
    · subst hfront
      have hends := h c rfl hback
      have hends' : splitLines isBreak [c] = [[c]] := by
        rw [splitLines]
        split_ifs <;> rfl
      rw [hends', List.singleton_append, splitLines, if_pos hends, List.singleton_append]
    · have hhead : (front ++ back).head? = front.head? := List.head?_append_of_ne_nil front hfront
      have hsame : Ends isBreak c (front ++ back) ↔ Ends isBreak c front := ends_congr hhead
      have htail := ih ((joint_cons hfront).mp h)
      rw [List.cons_append, splitLines, splitLines, htail]
      by_cases hends : Ends isBreak c front
      · rw [if_pos (hsame.mpr hends), if_pos hends, List.cons_append]
      · rw [if_neg fun hc => hends (hsame.mp hc), if_neg hends]
        exact glue_append fun hnil => hfront (splitLines_eq_nil.mp hnil)

/-- The first line is a line, the others are lines, and a line ends between them. -/
theorem splitLines_eq_cons {cs line : List Char} {lines : List (List Char)}
    (h : splitLines isBreak cs = line :: lines) :
    line ≠ [] ∧ splitLines isBreak line = [line] ∧ splitLines isBreak lines.flatten = lines ∧
      Joint isBreak line lines.flatten := by
  induction cs generalizing line lines with
  | nil => cases h
  | cons c cs ih =>
    rw [splitLines] at h
    have hsingle : ∀ c, splitLines isBreak [c] = [[c]] := by
      intro c
      rw [splitLines]
      split_ifs <;> rfl
    split_ifs at h with hends
    · obtain ⟨rfl, rfl⟩ := List.cons.inj h
      rw [flatten_splitLines]
      refine ⟨List.cons_ne_nil _ _, hsingle c, rfl, fun d hd _ => ?_⟩
      obtain rfl := Option.some.inj hd
      exact hends
    · cases hlines : splitLines isBreak cs with
      | nil =>
        rw [hlines] at h
        obtain ⟨rfl, rfl⟩ := List.cons.inj h
        exact ⟨List.cons_ne_nil _ _, hsingle c, rfl, joint_nil_right _⟩
      | cons first rest =>
        rw [hlines] at h
        obtain ⟨rfl, rfl⟩ := List.cons.inj h
        obtain ⟨hne, hline, hrest, hjoint⟩ := ih hlines
        have hcs : cs = first ++ rest.flatten := by
          rw [← @flatten_splitLines isBreak cs, hlines, List.flatten_cons]
        have hsame : Ends isBreak c first ↔ Ends isBreak c cs := by
          rw [hcs]
          exact ends_congr (List.head?_append_of_ne_nil first hne).symm
        refine ⟨List.cons_ne_nil _ _, ?_, hrest, (joint_cons hne).mpr hjoint⟩
        rw [splitLines, if_neg fun hc => hends (hsame.mp hc), hline]
        rfl

/-- The lines of a text, up to one of them and from there on. -/
theorem splitLines_eq_append {cs : List Char} {front back : List (List Char)}
    (h : splitLines isBreak cs = front ++ back) :
    splitLines isBreak front.flatten = front ∧ splitLines isBreak back.flatten = back ∧
      Joint isBreak front.flatten back.flatten := by
  induction front generalizing cs with
  | nil =>
    refine ⟨rfl, ?_, joint_nil_left _⟩
    rw [show back = splitLines isBreak cs from h.symm, flatten_splitLines]
  | cons line front ih =>
    rw [List.cons_append] at h
    obtain ⟨hne, hline, hlines, hjoint⟩ := splitLines_eq_cons h
    obtain ⟨hfront, hback, hjoint'⟩ := ih hlines
    rw [List.flatten_cons]
    by_cases hempty : front.flatten = []
    · have hnil : front = [] := by rw [← hfront, hempty, splitLines]
      subst hnil
      rw [List.flatten_nil, List.append_nil]
      exact ⟨hline, hback, by simpa using hjoint⟩
    · have hlast : (line ++ front.flatten).getLast? = front.flatten.getLast? := List.getLast?_append_of_ne_nil _ hempty
      have hhead : (front ++ back).flatten.head? = front.flatten.head? := by
        rw [List.flatten_append, List.head?_append_of_ne_nil _ hempty]
      have hjoint₀ : Joint isBreak line front.flatten := by
        intro c hc _
        exact (ends_congr hhead).mp (hjoint c hc (by simp [List.flatten_append, hempty]))
      refine ⟨?_, hback, fun c hc => hjoint' c (by rwa [hlast] at hc)⟩
      rw [splitLines_append hjoint₀, hline, hfront, List.singleton_append]

theorem ne_nil_of_mem_splitLines {cs line : List Char} (h : line ∈ splitLines isBreak cs) : line ≠ [] := by
  obtain ⟨front, back, hsplit⟩ := List.append_of_mem h
  exact (splitLines_eq_cons (splitLines_eq_append hsplit).2.1).1

end Lines
