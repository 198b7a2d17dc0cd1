import Atlas.Lib.Lines
import Atlas.Lib.PyText

/-!
# Repair by patches: `atlas_agent/code_patcher.py`, `attempt_patch_repair` of `self_correcting_loop.py`

* `applyPatch` : lines of a text give way to a section, and repeated `return` and `raise` lines to one;
* `patchLoop`, `attemptPatchRepair` : the first three targets, one after the other, each by its number in the text that
  was analyzed;
* `replaced` : what it is for: each target by its own section, all other lines as they were;
* `InPlace`, `Clean` : a target still has its numbers; no `return` or `raise` line is repeated;
* `applyPatch_replaced` : a step; `assembled_eq` : all of them.
-/

namespace Atlas.Agent.Patcher
open PyText Lines

abbrev Text := List Char

/-- What `str.splitlines` takes for the end of a line. -/
def isLineBreak (c : Char) : Bool := c.toNat ∈ [0xA, 0xB, 0xC, 0xD, 0x1C, 0x1D, 0x1E, 0x85, 0x2028, 0x2029]

/-- `splitlines(keepends=True)` -/
def linesOf (text : Text) : List Text := splitLines isLineBreak text

structure PatchTarget where
  lineStart : ℤ
  lineEnd : ℤ
  issueType : String

/-- `line.strip()` begins with `return ` or `raise `. -/
def isExit (line : Text) : Bool :=
  let stripped := strip isSpace line
  !stripped.isEmpty && ("return ".toList.isPrefixOf stripped || "raise ".toList.isPrefixOf stripped)

/-- The loop of the safety check, behind the line `previous`. -/
def dedupe : Option Text → List Text → List Text
  | _, [] => []
  | previous, line :: lines =>
    if previous = some line ∧ isExit line = true then dedupe (some line) lines
    else line :: dedupe (some line) lines

/-- What is put in the place of a target. -/
def sectionOf (patchedSection : Text) : Text := strip isSpace patchedSection ++ ['\n']

def applyPatch (originalCode : Text) (target : PatchTarget) (patchedSection : Text) : Text :=
  let lines := linesOf originalCode
  let startIdx := target.lineStart - 1
  let endIdx := target.lineEnd
  let endIdx :=
    if target.issueType ∈ ["missing_type_hints", "missing_docstring"] then target.lineEnd else endIdx
  let startIdx := max 0 (min startIdx lines.length)
  let endIdx := max startIdx (min endIdx lines.length)
  let newLines := lines.take startIdx.toNat ++ [sectionOf patchedSection] ++ lines.drop endIdx.toNat
  (dedupe none (linesOf newLines.flatten)).flatten

/-- The loop over the targets; `answers` : what the calls of the language model come to. -/
def patchLoop : Text × Nat → List PatchTarget → List (Except String Text) → Text × Nat
  | (code, applied), target :: targets, .ok patchedSection :: answers =>
    patchLoop (applyPatch code target patchedSection, applied + 1) targets answers
  | state, _ :: targets, .error _ :: answers => patchLoop state targets answers
  | state, _, _ => state

/-- The text that is assembled. -/
def assembled (code : Text) (targets : List PatchTarget) (answers : List (Except String Text)) : Text × Nat :=
  patchLoop (code, 0) (targets.take 3) answers

/-- The analyzer and the parser of Python are parameters. -/
def attemptPatchRepair (analyzePython : Text → List PatchTarget) (parses : Text → Bool)
    (answers : List (Except String Text)) (code : Text) (language : String) : Text × Bool :=
  if language ≠ "python" then (code, false)
  else
    let targets := analyzePython code
    if targets.isEmpty then (code, false)
    else
      let (patchedCode, patchesApplied) := assembled code targets answers
      if parses patchedCode then (patchedCode, patchesApplied > 0) else (code, false)

/-- The code comes back, or the text that is assembled. -/
theorem attemptPatchRepair_text (analyzePython : Text → List PatchTarget) (parses : Text → Bool)
    (answers : List (Except String Text)) (code : Text) (language : String) :
    (attemptPatchRepair analyzePython parses answers code language).1 = code ∨
      (attemptPatchRepair analyzePython parses answers code language).1 =
        (assembled code (analyzePython code) answers).1 := by
  unfold attemptPatchRepair
  dsimp only
  split_ifs
  · exact .inl rfl
  · exact .inl rfl
  · exact .inr rfl
  · exact .inl rfl

/-! ## What it is for -/

abbrev Patch := PatchTarget × Text

/-- The targets that the model has answered, with their sections. -/
def answered : List PatchTarget → List (Except String Text) → List Patch
  | target :: targets, .ok patchedSection :: answers => (target, patchedSection) :: answered targets answers
  | _ :: targets, .error _ :: answers => answered targets answers
  | _, _ => []

/-- The number is one of the lines of the target. -/
def Covers (target : PatchTarget) (number : ℕ) : Prop := target.lineStart ≤ number ∧ number ≤ target.lineEnd

instance (target : PatchTarget) (number : ℕ) : Decidable (Covers target number) := inferInstanceAs (Decidable (_ ∧ _))

/-- What becomes of a line: the section of a target comes in the place of its first line, the others go. -/
def cell (patches : List Patch) (number : ℕ) (line : Text) : Text :=
  match patches.find? fun patch => patch.1.lineStart = (number : ℤ) with
  | some patch => sectionOf patch.2
  | none => if ∃ patch ∈ patches, Covers patch.1 number then [] else line

def replacedFrom (patches : List Patch) : ℕ → List Text → Text
  | _, [] => []
  | number, line :: lines => cell patches number line ++ replacedFrom patches (number + 1) lines

/-- The lines with each target replaced by its section. -/
def replaced (patches : List Patch) (code : Text) : Text := replacedFrom patches 1 (linesOf code)

/-- The target is a range of lines of the code. -/
structure InRange (code : Text) (target : PatchTarget) : Prop where
  one_le : 1 ≤ target.lineStart
  le_end : target.lineStart ≤ target.lineEnd
  end_le : target.lineEnd ≤ (linesOf code).length

def Apart (target other : PatchTarget) : Prop :=
  target.lineEnd < other.lineStart ∨ other.lineEnd < target.lineStart

instance (target other : PatchTarget) : Decidable (Apart target other) := inferInstanceAs (Decidable (_ ∨ _))

/-! ### The text around a target -/

def linesAbove (code : Text) (target : PatchTarget) : List Text := (linesOf code).take (target.lineStart - 1).toNat

def linesWithin (code : Text) (target : PatchTarget) : List Text :=
  ((linesOf code).drop (target.lineStart - 1).toNat).take (target.lineEnd - target.lineStart + 1).toNat

def linesBelow (code : Text) (target : PatchTarget) : List Text := (linesOf code).drop target.lineEnd.toNat

/-- The text above the target, with the sections so far. -/
def above (patches : List Patch) (code : Text) (target : PatchTarget) : Text :=
  replacedFrom patches 1 (linesAbove code target)

def below (patches : List Patch) (code : Text) (target : PatchTarget) : Text :=
  replacedFrom patches (target.lineEnd.toNat + 1) (linesBelow code target)

/-- In the text with the sections so far the lines of the target have their numbers: there are as many lines above it
as there were, and its last line ends where it did. -/
structure InPlace (patches : List Patch) (code : Text) (target : PatchTarget) : Prop where
  count : (linesOf (above patches code target)).length = (linesAbove code target).length
  ends : Joint isLineBreak (linesWithin code target).flatten (below patches code target)

/-- No `return` or `raise` line is equal to the one above it. -/
def Clean (text : Text) : Prop := (linesOf text).IsChain fun line next => ¬ (line = next ∧ isExit next = true)

instance (text : Text) : Decidable (Clean text) := inferInstanceAs (Decidable (List.IsChain _ _))

/-! ## Cells -/

section
variable {patches : List Patch} {code : Text} {target : PatchTarget} {number : ℕ}

theorem replacedFrom_append (front back : List Text) : replacedFrom patches number (front ++ back) =
    replacedFrom patches number front ++ replacedFrom patches (number + front.length) back := by
  induction front generalizing number with
  | nil => rfl
  | cons line front ih =>
    have hnumber : number + (line :: front).length = number + 1 + front.length := by
      rw [List.length_cons]
      omega
    rw [List.cons_append, replacedFrom, replacedFrom, ih, List.append_assoc, hnumber]

theorem cell_of_uncovered (h : ∀ patch ∈ patches, ¬ Covers patch.1 number)
    (hranges : ∀ patch ∈ patches, InRange code patch.1) (line : Text) : cell patches number line = line := by
  have hfind : patches.find? (fun patch => patch.1.lineStart = (number : ℤ)) = none := by
    refine List.find?_eq_none.mpr fun patch hmem hstart => h patch hmem ?_
    have hstart := of_decide_eq_true hstart
    have hend := (hranges patch hmem).le_end
    exact ⟨hstart.le, by omega⟩
  rw [cell, hfind]
  refine if_neg ?_
  rintro ⟨patch, hmem, hcovers⟩
  exact h patch hmem hcovers

/-- Lines that no target has. -/
theorem replacedFrom_uncovered (hranges : ∀ patch ∈ patches, InRange code patch.1) {lines : List Text}
    (h : ∀ patch ∈ patches, ∀ i < lines.length, ¬ Covers patch.1 (number + i)) :
    replacedFrom patches number lines = lines.flatten := by
  induction lines generalizing number with
  | nil => rfl
  | cons line lines ih =>
    have hfirst := cell_of_uncovered (fun patch hmem => h patch hmem 0 (by simp)) hranges line
    rw [add_zero] at hfirst
    rw [replacedFrom, hfirst, List.flatten_cons, ih]
    intro patch hmem i hi
    have hnext := h patch hmem (i + 1) (by simpa using hi)
    rwa [show number + (i + 1) = number + 1 + i by omega] at hnext

/-- Targets that are apart have no line in common. -/
theorem not_covers_of_apart {other : PatchTarget} (h : Apart target other) (hcovers : Covers target number) :
    ¬ Covers other number := by
  rintro ⟨hlow, hhigh⟩
  obtain ⟨hlow', hhigh'⟩ := hcovers
  unfold Apart at h
  omega

instance : Std.Symm fun patch other : Patch => Apart patch.1 other.1 := ⟨fun _ _ h => h.symm⟩

/-- A line of a target, the first one and the others. -/
theorem cell_of_covered (hapart : patches.Pairwise fun patch other => Apart patch.1 other.1)
    (hranges : ∀ patch ∈ patches, InRange code patch.1) {patch : Patch} (hmem : patch ∈ patches)
    (hcovers : Covers patch.1 number) (line : Text) :
    cell patches number line = if patch.1.lineStart = (number : ℤ) then sectionOf patch.2 else [] := by
  have hsame : ∀ other ∈ patches, Covers other.1 number → other = patch := by
    intro other hother hcovers'
    by_contra hne
    exact not_covers_of_apart (hapart.forall hother hmem hne) hcovers' hcovers
  have hstarts : ∀ other ∈ patches, other.1.lineStart = (number : ℤ) → other = patch := by
    intro other hother hstart
    have hend := (hranges other hother).le_end
    exact hsame other hother ⟨hstart.le, by omega⟩
  unfold cell
  split
  · rename_i found hfound
    have hstart : found.1.lineStart = (number : ℤ) := by simpa using List.find?_some hfound
    have hfirst := hstarts found (List.mem_of_find?_eq_some hfound) hstart
    rw [← hfirst, if_pos hstart]
  · rename_i hnone
    have hlater : patch.1.lineStart ≠ (number : ℤ) := by
      intro hstart
      exact List.find?_eq_none.mp hnone patch hmem (decide_eq_true hstart)
    rw [if_neg hlater, if_pos ⟨patch, hmem, hcovers⟩]

/-- The lines of a target behind its first one go. -/
theorem replacedFrom_later (hapart : patches.Pairwise fun patch other => Apart patch.1 other.1)
    (hranges : ∀ patch ∈ patches, InRange code patch.1) {patch : Patch} (hmem : patch ∈ patches) {lines : List Text}
    (hstart : patch.1.lineStart < number) (hend : number + lines.length ≤ patch.1.lineEnd + 1) :
    replacedFrom patches number lines = [] := by
  induction lines generalizing number with
  | nil => rfl
  | cons line lines ih =>
    rw [List.length_cons] at hend
    push_cast at hend
    have hcell := cell_of_covered hapart hranges hmem ⟨hstart.le, by omega⟩ line
    rw [if_neg (by omega)] at hcell
    rw [replacedFrom, hcell, ih (by omega) (by push_cast; omega)]
    rfl

/-- The lines of a target give way to its section. -/
theorem replacedFrom_block (hapart : patches.Pairwise fun patch other => Apart patch.1 other.1)
    (hranges : ∀ patch ∈ patches, InRange code patch.1) {patch : Patch} (hmem : patch ∈ patches) {lines : List Text}
    (hne : lines ≠ []) (hstart : patch.1.lineStart = number) (hend : number + lines.length ≤ patch.1.lineEnd + 1) :
    replacedFrom patches number lines = sectionOf patch.2 := by
  cases lines with
  | nil => exact absurd rfl hne
  | cons line lines =>
    rw [List.length_cons] at hend
    push_cast at hend
    have hcell := cell_of_covered hapart hranges hmem ⟨hstart.le, by omega⟩ line
    rw [if_pos hstart] at hcell
    rw [replacedFrom, hcell, replacedFrom_later hapart hranges hmem (by omega) (by push_cast; omega), List.append_nil]

/-- A target that has none of the lines. -/
theorem replacedFrom_concat {patch : Patch} {lines : List Text} (hle : patch.1.lineStart ≤ patch.1.lineEnd)
    (h : ∀ i < lines.length, ¬ Covers patch.1 (number + i)) :
    replacedFrom (patches ++ [patch]) number lines = replacedFrom patches number lines := by
  induction lines generalizing number with
  | nil => rfl
  | cons line lines ih =>
    have hfirst : ¬ Covers patch.1 number := by simpa using h 0 (by simp)
    have hcell : cell (patches ++ [patch]) number line = cell patches number line := by
      have hstart : ¬ patch.1.lineStart = (number : ℤ) := fun hstart => hfirst ⟨hstart.le, by omega⟩
      have hfind : (patches ++ [patch]).find? (fun patch => patch.1.lineStart = (number : ℤ)) =
          patches.find? fun patch => patch.1.lineStart = (number : ℤ) := by
        rw [List.find?_append]
        simp [hstart]
      have hcovers : (∃ other ∈ patches ++ [patch], Covers other.1 number) ↔
          ∃ other ∈ patches, Covers other.1 number := by
        simp [List.mem_append, or_and_right, exists_or, hfirst]
      unfold cell
      rw [hfind]
      simp only [hcovers]
    rw [replacedFrom, replacedFrom, hcell, ih]
    intro i hi
    have hnext := h (i + 1) (by simpa using hi)
    rwa [show number + (i + 1) = number + 1 + i by omega] at hnext

/-! ## The text around a target -/

theorem linesOf_split (h : InRange code target) :
    linesOf code = linesAbove code target ++ (linesWithin code target ++ linesBelow code target) ∧
      ((linesAbove code target).length : ℤ) = target.lineStart - 1 ∧
      ((linesWithin code target).length : ℤ) = target.lineEnd - target.lineStart + 1 := by
  have hone := h.one_le
  have hle := h.le_end
  have hend := h.end_le
  unfold linesAbove linesWithin linesBelow
  refine ⟨?_, ?_, ?_⟩
  · have hdrop : (linesOf code).drop target.lineEnd.toNat =
        ((linesOf code).drop (target.lineStart - 1).toNat).drop (target.lineEnd - target.lineStart + 1).toNat := by
      rw [List.drop_drop]
      congr 1
      omega
    rw [hdrop, List.take_append_drop, List.take_append_drop]
  · rw [List.length_take]
    omega
  · rw [List.length_take, List.length_drop]
    omega

/-- The text with the sections of other targets. -/
theorem replaced_eq (hranges : ∀ patch ∈ patches, InRange code patch.1) (h : InRange code target)
    (hapart : ∀ patch ∈ patches, Apart patch.1 target) :
    replaced patches code =
      above patches code target ++ ((linesWithin code target).flatten ++ below patches code target) := by
  obtain ⟨hsplit, habove, hwithin⟩ := linesOf_split h
  have hone := h.one_le
  have hle := h.le_end
  have hnumber : 1 + (linesAbove code target).length + (linesWithin code target).length = target.lineEnd.toNat + 1 := by
    omega
  have hmiddle : replacedFrom patches (1 + (linesAbove code target).length) (linesWithin code target) =
      (linesWithin code target).flatten := by
    apply replacedFrom_uncovered hranges
    intro patch hmem i hi
    apply not_covers_of_apart (Or.symm (hapart patch hmem))
    unfold Covers
    push_cast
    omega
  unfold replaced above below
  rw [hsplit, replacedFrom_append, replacedFrom_append, hnumber, hmiddle]

/-- One more section, in the place of its target. -/
theorem replaced_concat {patchedSection : Text}
    (hranges : ∀ patch ∈ patches ++ [(target, patchedSection)], InRange code patch.1)
    (hapart : (patches ++ [(target, patchedSection)]).Pairwise fun patch other => Apart patch.1 other.1) :
    replaced (patches ++ [(target, patchedSection)]) code =
      above patches code target ++ (sectionOf patchedSection ++ below patches code target) := by
  have hmem : (target, patchedSection) ∈ patches ++ [(target, patchedSection)] := by simp
  have h : InRange code target := hranges _ hmem
  obtain ⟨hsplit, habove, hwithin⟩ := linesOf_split h
  have hone := h.one_le
  have hle := h.le_end
  have hnumber : 1 + (linesAbove code target).length + (linesWithin code target).length = target.lineEnd.toNat + 1 := by
    omega
  have hne : linesWithin code target ≠ [] := by
    apply List.ne_nil_of_length_pos
    omega
  unfold replaced above below
  rw [hsplit, replacedFrom_append, replacedFrom_append, hnumber,
    replacedFrom_block hapart hranges hmem hne (by dsimp only; push_cast; omega) (by dsimp only; push_cast; omega)]
  congr 1
  · refine replacedFrom_concat hle fun i hi hcovers => ?_
    obtain ⟨hlow, -⟩ := hcovers
    push_cast at hlow
    omega
  · congr 1
    refine replacedFrom_concat hle fun i hi hcovers => ?_
    obtain ⟨-, hhigh⟩ := hcovers
    push_cast at hhigh
    omega

theorem joint_section (front : Text) (patchedSection behind : Text) :
    Joint isLineBreak (front ++ sectionOf patchedSection) behind := by
  intro c hc _
  rw [sectionOf, ← List.append_assoc, List.getLast?_concat] at hc
  obtain rfl := Option.some.inj hc
  exact ⟨by decide, fun h => absurd h.1 (by decide)⟩

theorem flatten_linesWithin_ne_nil (h : InRange code target) : (linesWithin code target).flatten ≠ [] := by
  obtain ⟨hsplit, -, hwithin⟩ := linesOf_split h
  have hle := h.le_end
  cases hlines : linesWithin code target with
  | nil =>
    rw [hlines, List.length_nil] at hwithin
    push_cast at hwithin
    omega
  | cons line lines =>
    have hne : line ≠ [] := by
      apply @ne_nil_of_mem_splitLines isLineBreak code
      rw [show splitLines isLineBreak code = _ from hsplit, hlines]
      simp
    rw [List.flatten_cons]
    exact List.append_ne_nil_of_left_ne_nil hne _

/-- No line above the target goes on in it: the last one is a line of the code, or the last one of a section. -/
theorem joint_above (hapart : patches.Pairwise fun patch other => Apart patch.1 other.1)
    (hranges : ∀ patch ∈ patches, InRange code patch.1) (h : InRange code target)
    (htarget : ∀ patch ∈ patches, Apart patch.1 target) (behind : Text) :
    Joint isLineBreak (above patches code target) ((linesWithin code target).flatten ++ behind) := by
  obtain ⟨hsplit, habove, hwithin⟩ := linesOf_split h
  have hone := h.one_le
  have hle := h.le_end
  obtain ⟨-, -, hjoint⟩ := splitLines_eq_append hsplit
  unfold above
  rcases List.eq_nil_or_concat (linesAbove code target) with hnil | ⟨front, last, hconcat⟩
  · rw [hnil]
    exact joint_nil_left _
  rw [List.concat_eq_append] at hconcat
  have hlength : (linesAbove code target).length = front.length + 1 := by rw [hconcat, List.length_append]; rfl
  by_cases hcovered : ∃ patch ∈ patches, Covers patch.1 (front.length + 1)
  · obtain ⟨patch, hmem, hlow, hhigh⟩ := hcovered
    have hbefore := htarget patch hmem
    have hone' := (hranges patch hmem).one_le
    unfold Apart at hbefore
    push_cast at hlow hhigh
    have hsizes : ((linesAbove code target).take (patch.1.lineStart - 1).toNat).length =
          (patch.1.lineStart - 1).toNat ∧ ((linesAbove code target).drop (patch.1.lineStart - 1).toNat).length =
          front.length + 1 - (patch.1.lineStart - 1).toNat := by
      rw [List.length_take, List.length_drop]
      omega
    have hblock : replacedFrom patches (1 + ((linesAbove code target).take (patch.1.lineStart - 1).toNat).length)
        ((linesAbove code target).drop (patch.1.lineStart - 1).toNat) = sectionOf patch.2 := by
      apply replacedFrom_block hapart hranges hmem
      · apply List.ne_nil_of_length_pos
        omega
      · omega
      · omega
    rw [← List.take_append_drop (patch.1.lineStart - 1).toNat (linesAbove code target), replacedFrom_append, hblock]
    exact joint_section _ _ _
  · have hlast : last ≠ [] := by
      apply @ne_nil_of_mem_splitLines isLineBreak code
      rw [show splitLines isLineBreak code = _ from hsplit, hconcat]
      simp
    have hcell : cell patches (1 + front.length) last = last := by
      refine cell_of_uncovered (fun patch hmem hcovers => ?_) hranges last
      rw [Nat.add_comm] at hcovers
      exact hcovered ⟨patch, hmem, hcovers⟩
    have htext : replacedFrom patches 1 (front ++ [last]) = replacedFrom patches 1 front ++ last := by
      rw [replacedFrom_append, replacedFrom, hcell, replacedFrom, List.append_nil]
    have hne := flatten_linesWithin_ne_nil h
    have hhead : ((linesWithin code target).flatten ++ behind).head? =
        (linesWithin code target ++ linesBelow code target).flatten.head? := by
      rw [List.flatten_append, List.head?_append_of_ne_nil _ hne, List.head?_append_of_ne_nil _ hne]
    rw [hconcat, htext]
    intro c hc _
    rw [List.getLast?_append_of_ne_nil _ hlast] at hc
    refine (ends_congr hhead).mpr (hjoint c ?_ ?_)
    · rw [hconcat, List.flatten_append, List.flatten_singleton, List.getLast?_append_of_ne_nil _ hlast]
      exact hc
    · rw [List.flatten_append]
      exact List.append_ne_nil_of_left_ne_nil hne _

/-! ## A step -/

/-- The lines of the text with the sections so far. -/
theorem linesOf_replaced (hapart : patches.Pairwise fun patch other => Apart patch.1 other.1)
    (hranges : ∀ patch ∈ patches, InRange code patch.1) (h : InRange code target)
    (htarget : ∀ patch ∈ patches, Apart patch.1 target) (hplace : InPlace patches code target) :
    linesOf (replaced patches code) =
      linesOf (above patches code target) ++ (linesWithin code target ++ linesOf (below patches code target)) := by
  obtain ⟨hsplit, -, -⟩ := linesOf_split h
  have hwithin : linesOf (linesWithin code target).flatten = linesWithin code target :=
    (splitLines_eq_append (splitLines_eq_append hsplit).2.1).1
  unfold linesOf at hwithin ⊢
  rw [replaced_eq hranges h htarget, splitLines_append (joint_above hapart hranges h htarget _),
    splitLines_append hplace.ends, hwithin]

/-- In front of the safety check a step puts the section in the place of its target. -/
theorem applyPatch_replaced {patchedSection : Text}
    (hranges : ∀ patch ∈ patches ++ [(target, patchedSection)], InRange code patch.1)
    (hapart : (patches ++ [(target, patchedSection)]).Pairwise fun patch other => Apart patch.1 other.1)
    (hplace : InPlace patches code target) :
    applyPatch (replaced patches code) target patchedSection =
      (dedupe none (linesOf (replaced (patches ++ [(target, patchedSection)]) code))).flatten := by
  have h : InRange code target := hranges (target, patchedSection) (by simp)
  have hranges' : ∀ patch ∈ patches, InRange code patch.1 := fun patch hmem => hranges patch (by simp [hmem])
  obtain ⟨hapart', -, hcross⟩ := List.pairwise_append.mp hapart
  have htarget : ∀ patch ∈ patches, Apart patch.1 target :=
    fun patch hmem => hcross patch hmem (target, patchedSection) (by simp)
  obtain ⟨hsplit, habove, hwithin⟩ := linesOf_split h
  have hone := h.one_le
  have hle := h.le_end
  have hlines := linesOf_replaced hapart' hranges' h htarget hplace
  have hcount := hplace.count
  have hlength : (linesOf (above patches code target)).length = (target.lineStart - 1).toNat := by omega
  have hend : target.lineEnd.toNat =
      (linesOf (above patches code target)).length + (linesWithin code target).length := by
    omega
  generalize hall : linesOf (above patches code target) ++
    (linesWithin code target ++ linesOf (below patches code target)) = lines at hlines
  have htotal : target.lineEnd.toNat ≤ lines.length := by
    rw [← hall, hend, List.length_append, List.length_append]
    omega
  have hfrom : (max 0 (min (target.lineStart - 1) (lines.length : ℤ))).toNat = (target.lineStart - 1).toNat := by
    omega
  have hto : (max (max 0 (min (target.lineStart - 1) (lines.length : ℤ))) (min target.lineEnd lines.length)).toNat =
      target.lineEnd.toNat := by
    omega
  have htake : lines.take (target.lineStart - 1).toNat = linesOf (above patches code target) := by
    rw [← hall, ← hlength, List.take_left]
  have hdrop : lines.drop target.lineEnd.toNat = linesOf (below patches code target) := by
    rw [← hall, hend, ← List.append_assoc, ← List.length_append, List.drop_left]
  unfold applyPatch
  dsimp only
  rw [ite_self, hlines, hfrom, hto, htake, hdrop, replaced_concat hranges hapart]
  unfold linesOf
  rw [List.flatten_append, List.flatten_append, flatten_splitLines, flatten_splitLines, List.flatten_singleton,
    List.append_assoc]

/-! ## The safety check -/

theorem dedupe_sublist (previous : Option Text) (lines : List Text) : (dedupe previous lines).Sublist lines := by
  induction lines generalizing previous with
  | nil => exact List.Sublist.refl _
  | cons line lines ih =>
    rw [dedupe]
    split_ifs
    · exact (ih (some line)).cons line
    · exact (ih (some line)).cons_cons line

theorem dedupe_eq_self_iff (line : Text) (lines : List Text) : dedupe (some line) lines = lines ↔
    (line :: lines).IsChain fun line next => ¬ (line = next ∧ isExit next = true) := by
  induction lines generalizing line with
  | nil => simp [dedupe]
  | cons next lines ih =>
    rw [dedupe, List.isChain_cons_cons]
    simp only [Option.some.injEq]
    split_ifs with hrepeat
    · refine iff_of_false (fun hsame => ?_) fun h => h.1 hrepeat
      have hlength := (dedupe_sublist (some next) lines).length_le
      rw [hsame, List.length_cons] at hlength
      omega
    · rw [List.cons_inj_right, ih next, and_iff_right hrepeat]

/-- What is left of lines is the same text only if all are left. -/
theorem eq_of_flatten_eq {lines lines' : List Text} (h : lines.Sublist lines') (hne : ∀ line ∈ lines', line ≠ [])
    (htext : lines.flatten = lines'.flatten) : lines = lines' := by
  induction h with
  | slnil => rfl
  | @cons lines lines' line hsub ih =>
    have hlength := congrArg List.length htext
    have hle := hsub.flatten.length_le
    have hpos := List.length_pos_of_ne_nil (hne line (by simp))
    rw [List.flatten_cons, List.length_append] at hlength
    omega
  | cons_cons line _ ih =>
    rw [List.flatten_cons, List.flatten_cons] at htext
    rw [ih (fun other hmem => hne other (by simp [hmem])) (List.append_cancel_left htext)]

/-- The safety check leaves a text alone just when it is clean. -/
theorem flatten_dedupe_iff (text : Text) : (dedupe none (linesOf text)).flatten = text ↔ Clean text := by
  have hself : dedupe none (linesOf text) = linesOf text ↔ Clean text := by
    unfold Clean
    cases linesOf text with
    | nil => exact iff_of_true rfl (List.IsChain.nil)
    | cons line lines =>
      rw [dedupe, if_neg (by simp), List.cons_inj_right]
      exact dedupe_eq_self_iff line lines
  rw [← hself]
  constructor
  · intro htext
    refine eq_of_flatten_eq (dedupe_sublist none _) (fun line hmem => ne_nil_of_mem_splitLines hmem) ?_
    rw [htext]
    exact (flatten_splitLines text).symm
  · intro hsame
    rw [hsame]
    exact flatten_splitLines text

end

/-! ## All steps -/

/-- The patches in their order. -/
def applyAll (code : Text) (patches : List Patch) : Text :=
  patches.foldl (fun code patch => applyPatch code patch.1 patch.2) code

theorem patchLoop_eq (code : Text) (applied : Nat) (targets : List PatchTarget) (answers : List (Except String Text)) :
    patchLoop (code, applied) targets answers =
      (applyAll code (answered targets answers), applied + (answered targets answers).length) := by
  induction targets generalizing code applied answers with
  | nil => rfl
  | cons target targets ih =>
    cases answers with
    | nil => rfl
    | cons answer answers =>
      cases answer with
      | error e => exact ih code applied answers
      | ok patchedSection =>
        rw [patchLoop, ih, answered, List.length_cons, applyAll, applyAll, List.foldl_cons]
        congr 1
        omega

theorem map_answered_sublist (targets : List PatchTarget) (answers : List (Except String Text)) :
    ((answered targets answers).map Prod.fst).Sublist targets := by
  induction targets generalizing answers with
  | nil => exact List.Sublist.refl _
  | cons target targets ih =>
    cases answers with
    | nil => exact List.nil_sublist _
    | cons answer answers =>
      cases answer with
      | error e => exact (ih answers).cons target
      | ok patchedSection => exact (ih answers).cons_cons target

theorem replacedFrom_nil (number : ℕ) (lines : List Text) : replacedFrom [] number lines = lines.flatten :=
  @replacedFrom_uncovered [] [] number (fun _ h => nomatch h) lines fun _ h => nomatch h

theorem replaced_nil (code : Text) : replaced [] code = code := by
  rw [replaced, replacedFrom_nil]
  exact flatten_splitLines code

/-- At its turn each target is in place, and the steps in front of the last one leave clean texts. -/
def OnTarget (code : Text) (patches : List Patch) : Prop :=
  ∀ front patch back, patches = front ++ patch :: back →
    InPlace front code patch.1 ∧ (back ≠ [] → Clean (replaced (front ++ [patch]) code))

section
variable {code : Text} {patches front : List Patch} {patch : Patch}

theorem OnTarget.of_append (h : OnTarget code (front ++ [patch])) : OnTarget code front := by
  intro front' patch' back hsplit
  obtain ⟨hplace, hclean⟩ := h front' patch' (back ++ [patch]) (by rw [hsplit, List.append_assoc]; rfl)
  exact ⟨hplace, fun _ => hclean (by simp)⟩

theorem OnTarget.clean_front (h : OnTarget code (front ++ [patch])) (hne : front ≠ []) :
    Clean (replaced front code) := by
  rcases List.eq_nil_or_concat front with hnil | ⟨front', patch', hconcat⟩
  · exact absurd hnil hne
  · rw [List.concat_eq_append] at hconcat
    rw [hconcat]
    exact (h front' patch' [patch] (by rw [hconcat, List.append_assoc]; rfl)).2 (by simp)

/-- Every step so far has put its section in the place of its target. -/
theorem applyAll_eq (hranges : ∀ patch ∈ patches, InRange code patch.1)
    (hapart : patches.Pairwise fun patch other => Apart patch.1 other.1) (hmet : OnTarget code patches)
    (hclean : patches ≠ [] → Clean (replaced patches code)) : applyAll code patches = replaced patches code := by
  induction patches using List.reverseRecOn with
  | nil => rw [replaced_nil, applyAll, List.foldl_nil]
  | append_singleton front patch ih =>
    have hfront := ih (fun patch' hmem => hranges patch' (by simp [hmem])) (List.pairwise_append.mp hapart).1
      hmet.of_append hmet.clean_front
    have hplace := (hmet front patch [] rfl).1
    unfold applyAll at hfront ⊢
    rw [List.foldl_append, hfront, List.foldl_cons, List.foldl_nil, applyPatch_replaced hranges hapart hplace]
    exact (flatten_dedupe_iff _).mpr (hclean (by simp))

/-- The last step does just when it leaves a clean text. -/
theorem applyAll_concat_iff (hranges : ∀ patch' ∈ front ++ [patch], InRange code patch'.1)
    (hapart : (front ++ [patch]).Pairwise fun patch other => Apart patch.1 other.1)
    (hmet : OnTarget code (front ++ [patch])) :
    applyAll code (front ++ [patch]) = replaced (front ++ [patch]) code ↔ Clean (replaced (front ++ [patch]) code) := by
  have hfront := applyAll_eq (fun patch' hmem => hranges patch' (by simp [hmem])) (List.pairwise_append.mp hapart).1
    hmet.of_append hmet.clean_front
  have hplace := (hmet front patch [] rfl).1
  rw [← flatten_dedupe_iff]
  unfold applyAll at hfront ⊢
  rw [List.foldl_append, hfront, List.foldl_cons, List.foldl_nil, applyPatch_replaced hranges hapart hplace]

end

/-- **The patches.** For targets that are ranges of lines of the code with no line in common, each of them in place at
its turn: the text that is assembled has each target replaced by its section and all other lines as they were, just when
it has no repeated `return` or `raise` line. -/
theorem assembled_iff {code : Text} {targets : List PatchTarget} (hranges : ∀ target ∈ targets, InRange code target)
    (hapart : targets.Pairwise Apart) (hthree : targets.length ≤ 3) {answers : List (Except String Text)}
    (hmet : OnTarget code (answered targets answers)) :
    (assembled code targets answers).1 = replaced (answered targets answers) code ↔
      (answered targets answers ≠ [] → Clean (replaced (answered targets answers) code)) := by
  have hsub := map_answered_sublist targets answers
  have hranges' : ∀ patch ∈ answered targets answers, InRange code patch.1 :=
    fun patch hmem => hranges patch.1 (hsub.subset (List.mem_map_of_mem hmem))
  have hapart' : (answered targets answers).Pairwise fun patch other => Apart patch.1 other.1 :=
    List.pairwise_map.mp (hapart.sublist hsub)
  have hassembled : (assembled code targets answers).1 = applyAll code (answered targets answers) := by
    rw [assembled, List.take_of_length_le hthree, patchLoop_eq]
  rw [hassembled]
  refine ⟨fun htext hne => ?_, fun hclean => applyAll_eq hranges' hapart' hmet hclean⟩
  rcases List.eq_nil_or_concat (answered targets answers) with hnil | ⟨front, patch, hconcat⟩
  · exact absurd hnil hne
  · rw [List.concat_eq_append] at hconcat
    rw [hconcat] at hranges' hapart' hmet htext ⊢
    exact (applyAll_concat_iff hranges' hapart' hmet).mp htext

/-- The first target is in place. -/
theorem inPlace_nil {code : Text} {target : PatchTarget} (h : InRange code target) : InPlace [] code target := by
  obtain ⟨hsplit, -, -⟩ := linesOf_split h
  obtain ⟨habove, hrest, -⟩ := splitLines_eq_append hsplit
  obtain ⟨-, -, hjoint⟩ := splitLines_eq_append hrest
  constructor
  · rw [above, replacedFrom_nil]
    exact congrArg List.length habove
  · rw [below, replacedFrom_nil]
    exact hjoint

theorem onTarget_pair {code : Text} {patch patch' : Patch} (h : InRange code patch.1)
    (hclean : Clean (replaced [patch] code)) (hplace : InPlace [patch] code patch'.1) :
    OnTarget code [patch, patch'] := by
  intro front other back hsplit
  match front with
  | [] =>
    obtain ⟨rfl, -⟩ := List.cons.inj hsplit
    exact ⟨inPlace_nil h, fun _ => hclean⟩
  | [_] =>
    obtain ⟨rfl, hrest⟩ := List.cons.inj hsplit
    obtain ⟨rfl, rfl⟩ := List.cons.inj hrest
    exact ⟨hplace, fun hne => absurd rfl hne⟩
  | _ :: _ :: front =>
    simp at hsplit

/-! ### Three lines -/

def threeLines : Text := "a\nb\nc\n".toList

def firstLine : PatchTarget := ⟨1, 1, "syntax_error"⟩

def lastLine : PatchTarget := ⟨3, 3, "syntax_error"⟩

theorem inRange_firstLine : InRange threeLines firstLine := ⟨by decide, by decide, by decide⟩

theorem inRange_lastLine : InRange threeLines lastLine := ⟨by decide, by decide, by decide⟩

/-- From the bottom up. -/
theorem assembled_iff_bottomUp :
    (assembled threeLines [lastLine, firstLine] [.ok "z\nw".toList, .ok "x".toList]).1 =
      replaced (answered [lastLine, firstLine] [.ok "z\nw".toList, .ok "x".toList]) threeLines := by
  have hmet : OnTarget threeLines (answered [lastLine, firstLine] [.ok "z\nw".toList, .ok "x".toList]) := by
    refine onTarget_pair inRange_lastLine (by decide) ⟨by decide, fun c hc _ => ?_⟩
    obtain rfl := Option.some.inj hc
    exact ⟨by decide, by decide⟩
  refine (assembled_iff ?_ (by decide) (by decide) hmet).mpr fun _ => by decide
  exact List.forall_mem_cons.mpr ⟨inRange_lastLine, List.forall_mem_singleton.mpr inRange_firstLine⟩

/-- From the top down: the first section has two lines, and the second one comes in the place of the second line. -/
theorem topDown_not_replaced :
    (∀ target ∈ [firstLine, lastLine], InRange threeLines target) ∧ [firstLine, lastLine].Pairwise Apart ∧
    (assembled threeLines [firstLine, lastLine] [.ok "x\ny".toList, .ok "z".toList]).1 ≠
      replaced (answered [firstLine, lastLine] [.ok "x\ny".toList, .ok "z".toList]) threeLines := by
  refine ⟨?_, by decide, by decide⟩
  exact List.forall_mem_cons.mpr ⟨inRange_firstLine, List.forall_mem_singleton.mpr inRange_lastLine⟩

end Atlas.Agent.Patcher
