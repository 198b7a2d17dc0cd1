import Atlas.Agent.Generator

/-!
# What prompts give away

* `Guarded` : nothing that a prompt is made from contains a match, or ends in a key and its `=` or `:`;
* `sensitive_prompt_iff`, `sensitive_testPrompt_iff` : the prompts made from it;
* `private_iff` : a whole run.
-/

namespace Atlas.Agent.Generator
open Raising Regex Files Memory

/-! ## Prompts -/

section
variable (tables : Tables) (printable : Char → Bool)

/-- Nothing leaks that a prompt for a module is made from. -/
structure GuardedModule (spec : Spec) (name : String) (memory : LearningMemory) (repairContext : Option String) :
    Prop where
  moduleName : ¬ Leaks tables name.toList
  projectName : ¬ Leaks tables spec.projectName.toList
  description : ¬ Open (sanitize tables spec.description).toList
  architecture : ¬ Open (sanitize tables spec.architecture).toList
  modules : ∀ module ∈ spec.allModules, ¬ Leaks tables (module.getD "").toList
  positive : ∀ e ∈ memory.getPositive spec.language.value (targetModule spec name) 2,
    ¬ Leaks tables e.artifact.module.toList ∧ ¬ Leaks tables e.outcome.reason.toList
  negative : ∀ e ∈ memory.getNegative spec.language.value 2,
    ¬ Leaks tables e.outcome.reason.toList ∧ ¬ Leaks tables (PyText.reprList printable e.antiPatterns).toList
  antiPatterns : ∀ pattern ∈ memory.antiPatterns, ¬ Leaks tables pattern.toList
  repairContext : ∀ text, repairContext = some text → ¬ Open (sanitize tables text).toList

/-- What a prompt is made from. -/
def Guarded (spec : Spec) (repairContext : Option String) : Subject → Prop
  | .module name memory => GuardedModule tables printable spec name memory repairContext
  | .tests mainCode => ¬ Sensitive tables mainCode.toList

end

section
variable {tables : Tables} {printable : Char → Bool}

theorem leaks_sanitize (text : String) :
    Leaks tables (sanitize tables text).toList ↔ Open (sanitize tables text).toList :=
  or_iff_right (not_sensitive_sanitize tables text)

theorem not_leaks_fixed2 (q : ℚ) : ¬ Leaks tables (PyText.fixed2 q).toList := by
  have hdigits (n : Nat) : ∀ c ∈ (toString n).toList, c.isDigit = true := by
    intro c hc
    rw [Nat.toString_eq_repr, Nat.toList_repr] at hc
    exact Nat.isDigit_of_mem_toDigits (by decide) (by decide) hc
  have hnone (n : Nat) : (toString n).toList.count '.' = 0 :=
    List.count_eq_zero.mpr fun h => absurd (hdigits n _ h) (by decide)
  unfold PyText.fixed2
  refine not_leaks_number (fun c hc => ?_) ?_
  · simp only [String.toList_append, List.mem_append] at hc
    rcases hc with (((hc | hc) | hc) | hc) | hc
    · split_ifs at hc
      · exact .inr (.inl (List.mem_singleton.mp hc))
      · cases hc
    · exact .inl (hdigits _ c hc)
    · exact .inr (.inr (List.mem_singleton.mp hc))
    · exact .inl (hdigits _ c hc)
    · exact .inl (hdigits _ c hc)
  · have hsign : (if q < 0 then "-" else "").toList.count '.' = 0 := by
      split_ifs <;> rfl
    have hdot : ".".toList.count '.' = 1 := rfl
    simp only [String.toList_append, List.count_append, hnone, hsign, hdot]
    omega

/-- Values with `, ` between them. -/
theorem yields_values (values : List String) :
    Yields tables (", ".intercalate values).toList (∃ value ∈ values, Leaks tables value.toList) := by
  have hparts := @yields_intercalate tables ", ".toList (by decide)
    (values.map fun value => (value.toList, Leaks tables value.toList)) fun part hpart => by
      obtain ⟨value, -, rfl⟩ := List.mem_map.mp hpart
      exact ⟨yields_value _, fun y => closing_append (by decide) _⟩
  rw [String.toList_intercalate]
  rw [List.map_map] at hparts
  exact hparts.congr (by simp)

theorem yields_text {rest : String} {P : Prop} (text : String) (hrest : Yields tables rest.toList P)
    (h : inert text.toList = true) : Yields tables (text ++ rest).toList P := by
  rw [String.toList_append]
  exact hrest.fixed h

theorem yields_string {rest : String} {P : Prop} (value : String) (hrest : Yields tables rest.toList P)
    (h : closing rest.toList = true) :
    Yields tables (value ++ rest).toList (Leaks tables value.toList ∨ P) := by
  rw [String.toList_append]
  exact hrest.value h _

theorem closing_text {text : String} (h : closing text.toList = true) (rest : String) :
    closing (text ++ rest).toList = true := by
  rw [String.toList_append]
  exact closing_append h _

/-- A line of a prompt gives a match when `P` holds, and closes the line in front of it. -/
structure Line (tables : Tables) (line : String) (P : Prop) : Prop where
  yields : Yields tables line.toList P
  closing : ∀ y, closing ('\n' :: (line.toList ++ y)) = true

theorem line_fixed {text : String} (hinert : inert text.toList = true) (h : closing ('\n' :: text.toList) = true) :
    Line tables text False :=
  ⟨yields_fixed hinert, closing_append h⟩

theorem line_append {rest : String} {P : Prop} (text : String) (hrest : Yields tables rest.toList P)
    (hinert : inert text.toList = true) (h : closing ('\n' :: text.toList) = true) : Line tables (text ++ rest) P := by
  refine ⟨yields_text text hrest hinert, fun y => ?_⟩
  rw [String.toList_append, List.append_assoc]
  exact closing_append h _

theorem Line.congr {line : String} {P Q : Prop} (h : Line tables line P) (hPQ : P ↔ Q) : Line tables line Q :=
  ⟨h.yields.congr hPQ, h.closing⟩

theorem line_approved (e : Experience) : Line tables (approvedLine e)
    (Leaks tables e.artifact.module.toList ∨ Leaks tables e.outcome.reason.toList) := by
  have hquote : Yields tables "'".toList False := yields_fixed (by decide)
  have hreason := yields_text " reason='" (yields_string e.outcome.reason hquote (by decide))
    (by decide)
  rw [or_false] at hreason
  have hscore := yields_string (PyText.fixed2 e.outcome.qualityScore) hreason (closing_text (by decide) _)
  rw [or_iff_right (not_leaks_fixed2 _)] at hscore
  have hmodule := yields_string e.artifact.module (yields_text "] score=" hscore (by decide))
    (closing_text (by decide) _)
  have hline := line_append "  - [" hmodule (by decide) (by decide)
  simpa only [approvedLine, String.append_assoc] using hline

theorem line_rejected (e : Experience) : Line tables (rejectedLine printable e)
    (Leaks tables e.outcome.reason.toList ∨ Leaks tables (PyText.reprList printable e.antiPatterns).toList) := by
  have hpatterns := yields_text "' anti_patterns="
    (@yields_value tables (PyText.reprList printable e.antiPatterns).toList) (by decide)
  have hline := line_append "  - reason='"
    (yields_string e.outcome.reason hpatterns (closing_text (by decide) _)) (by decide)
    (by decide)
  simpa only [rejectedLine, String.append_assoc] using hline

theorem line_antiPatterns (patterns : List String) : Line tables (antiPatternsLine patterns)
    (∃ pattern ∈ patterns, Leaks tables pattern.toList) :=
  line_append _ (yields_values patterns) (by decide) (by decide)

/-- Lines, one of which gives a match when `P` holds. -/
def Lines (tables : Tables) (lines : List String) (P : Prop) : Prop :=
  ∃ parts : List (String × Prop), lines = parts.map Prod.fst ∧ (∀ part ∈ parts, Line tables part.1 part.2) ∧
    ((∃ part ∈ parts, part.2) ↔ P)

theorem lines_nil : Lines tables [] False := ⟨[], rfl, nofun, by simp⟩

theorem lines_singleton {line : String} {P : Prop} (h : Line tables line P) : Lines tables [line] P := by
  refine ⟨[(line, P)], rfl, fun part hpart => ?_, by simp⟩
  rw [List.mem_singleton.mp hpart]
  exact h

theorem lines_map {α : Type} {f : α → String} {P : α → Prop} (xs : List α) (h : ∀ x ∈ xs, Line tables (f x) (P x)) :
    Lines tables (xs.map f) (∃ x ∈ xs, P x) := by
  refine ⟨xs.map fun x => (f x, P x), by simp, fun part hpart => ?_, by simp⟩
  obtain ⟨x, hx, rfl⟩ := List.mem_map.mp hpart
  exact h x hx

theorem Lines.append {lines rest : List String} {P Q : Prop} (h : Lines tables lines P) (hrest : Lines tables rest Q) :
    Lines tables (lines ++ rest) (P ∨ Q) := by
  obtain ⟨parts, rfl, hparts, hP⟩ := h
  obtain ⟨others, rfl, hothers, hQ⟩ := hrest
  refine ⟨parts ++ others, List.map_append.symm, fun part hpart => ?_, ?_⟩
  · exact (List.mem_append.mp hpart).elim (hparts part) (hothers part)
  · rw [← hP, ← hQ, ← exists_or]
    simp only [List.mem_append, or_and_right]

theorem Lines.congr {lines : List String} {P Q : Prop} (h : Lines tables lines P) (hPQ : P ↔ Q) :
    Lines tables lines Q := by
  obtain ⟨parts, hlines, hparts, hP⟩ := h
  exact ⟨parts, hlines, hparts, hP.trans hPQ⟩

/-- Lines put together are a line. -/
theorem Lines.joined {lines : List String} {P : Prop} (h : Lines tables lines P) (hne : lines ≠ []) :
    Line tables ("\n".intercalate lines) P := by
  obtain ⟨parts, rfl, hparts, hP⟩ := h
  refine Line.congr ⟨?_, fun y => ?_⟩ hP
  · rw [String.toList_intercalate]
    have hyields := @yields_intercalate tables "\n".toList (by decide)
      (parts.map fun part => (part.1.toList, part.2)) fun pair hpair => by
        obtain ⟨part, hpart, rfl⟩ := List.mem_map.mp hpair
        exact ⟨(hparts part hpart).yields, (hparts part hpart).closing⟩
    rw [List.map_map] at hyields ⊢
    refine hyields.congr ⟨?_, ?_⟩
    · rintro ⟨pair, hpair, h⟩
      obtain ⟨part, hpart, rfl⟩ := List.mem_map.mp hpair
      exact ⟨part, hpart, h⟩
    · rintro ⟨part, hpart, h⟩
      exact ⟨_, List.mem_map_of_mem hpart, h⟩
  · rw [String.toList_intercalate]
    cases parts with
    | nil => exact absurd rfl hne
    | cons part parts =>
      have hfirst := (hparts part (List.mem_cons_self ..)).closing
      cases parts with
      | nil => simpa using hfirst y
      | cons next parts =>
        rw [List.map_cons, List.map_cons, List.map_cons, List.map_cons, List.intercalate_cons_cons, List.append_assoc,
          List.append_assoc]
        exact hfirst _

theorem closing_newline {y : List Char} (h : closing y = true) : closing ('\n' :: y) = true := by
  simp only [closing, Bool.and_eq_true] at h ⊢
  exact ⟨rfl, h.2⟩

theorem Line.ne_empty {line : String} {P : Prop} (h : Line tables line P) : line ≠ "" := by
  rintro rfl
  exact absurd (h.closing []) (by decide)

theorem line_newline {line : String} {P : Prop} (h : Line tables line P) : Line tables ("\n" ++ line) P := by
  refine ⟨yields_text "\n" h.yields (by decide), fun y => ?_⟩
  rw [String.toList_append, List.append_assoc]
  exact closing_newline (h.closing y)

theorem lines_block {α : Type} {f : α → String} {P : α → Prop} {headline : String} (xs : List α)
    (h : ∀ x ∈ xs, Line tables (f x) (P x)) (hheadline : Line tables headline False) :
    Lines tables (block headline (xs.map f)) (∃ x ∈ xs, P x) := by
  unfold block
  split_ifs with hnil
  · obtain rfl := List.map_eq_nil_iff.mp hnil
    exact lines_nil.congr (by simp)
  · exact ((lines_singleton hheadline).append (lines_map xs h)).congr (by simp)

/-- What leaks from the memory. -/
def MemoryLeaks (tables : Tables) (printable : Char → Bool) (memory : LearningMemory) (language module : String) :
    Prop :=
  (∃ e ∈ memory.getPositive language module 2, Leaks tables e.artifact.module.toList ∨
      Leaks tables e.outcome.reason.toList) ∨
    (∃ e ∈ memory.getNegative language 2, Leaks tables e.outcome.reason.toList ∨
      Leaks tables (PyText.reprList printable e.antiPatterns).toList) ∨
    ∃ pattern ∈ memory.antiPatterns, Leaks tables pattern.toList

theorem lines_context (memory : LearningMemory) (language module : String) :
    Lines tables (contextLines printable memory language module)
      (MemoryLeaks tables printable memory language module) := by
  have hfollow : inert "APPROVED PATTERNS (follow these):".toList = true := inert_ofList (by decide)
  have hrepeat : inert "REJECTED PATTERNS (DO NOT repeat):".toList = true := inert_ofList (by decide)
  have hpositive := lines_block (memory.getPositive language module 2) (fun e _ => @line_approved tables e)
    (line_fixed hfollow (by decide))
  have hnegative := lines_block (memory.getNegative language 2) (fun e _ => @line_rejected tables printable e)
    (line_fixed hrepeat (by decide))
  have hanti : Lines tables (if memory.antiPatterns = ∅ then [] else
      [antiPatternsLine (memory.antiPatterns.sort (· ≤ ·))])
      (∃ pattern ∈ memory.antiPatterns, Leaks tables pattern.toList) := by
    split_ifs with hempty
    · exact lines_nil.congr (by simp [hempty])
    · exact (lines_singleton (line_antiPatterns _)).congr (by simp)
  exact ((hpositive.append hnegative).append hanti).congr or_assoc

/-- The memory context as a part of the prompt. -/
theorem lines_memory (memory : LearningMemory) (language module : String) :
    Lines tables (if buildContext printable memory language module ≠ "" then
      ["\n" ++ buildContext printable memory language module] else [])
      (MemoryLeaks tables printable memory language module) := by
  have hlines := @lines_context tables printable memory language module
  unfold buildContext
  by_cases hnil : contextLines printable memory language module = []
  · rw [hnil] at hlines ⊢
    rw [String.intercalate_nil, if_neg (not_not.mpr rfl)]
    exact hlines
  · have hline := hlines.joined hnil
    rw [if_pos hline.ne_empty]
    exact lines_singleton (line_newline hline)

/-- A value and the end of its line. -/
theorem yields_value_newline (value : String) :
    Yields tables (value ++ "\n").toList (Leaks tables value.toList) := by
  intro y hy
  rw [String.toList_append, List.append_assoc]
  show Sensitive tables (value.toList ++ '\n' :: y) ↔ _
  rw [sensitive_closing (closing_newline hy)]
  exact or_congr_right (@sensitive_inert tables y "\n".toList (by decide))

theorem lines_repair (repairContext : Option String) :
    Lines tables (if repairSection tables repairContext ≠ "" then [repairSection tables repairContext] else [])
      (∃ text, repairContext = some text ∧ Open (sanitize tables text).toList) := by
  cases repairContext with
  | none => exact lines_nil.congr (by simp)
  | some text =>
    by_cases htext : text = ""
    · obtain rfl := htext
      refine lines_nil.congr (iff_of_false id ?_)
      rintro ⟨_, heq, hopen⟩
      rw [← Option.some.inj heq, sanitize_empty] at hopen
      exact not_open_nil hopen
    · have hline := line_append "\nPREVIOUS ATTEMPT FAILED. Fix these errors:\n"
        (@yields_value_newline tables (sanitize tables text)) (inert_ofList (by decide)) (by decide)
      have hsection : repairSection tables (some text) =
          "\nPREVIOUS ATTEMPT FAILED. Fix these errors:\n" ++ (sanitize tables text ++ "\n") := by
        rw [repairSection, if_neg htext, String.append_assoc]
      rw [hsection, if_pos hline.ne_empty]
      refine (lines_singleton hline).congr ?_
      rw [leaks_sanitize]
      exact ⟨fun hopen => ⟨text, rfl, hopen⟩, fun ⟨_, heq, hopen⟩ => by rwa [Option.some.inj heq]⟩

/-- The lines that every prompt for a module has. -/
def baseLines (tables : Tables) (spec : Spec) (name : String) : List String :=
  ["Generate a complete " ++ spec.language.value ++ " source file for module '" ++ name ++ "'.",
    "Project: " ++ spec.projectName,
    "Requirement: " ++ sanitize tables spec.description,
    "Architecture: " ++ sanitize tables spec.architecture,
    "All modules: " ++ ", ".intercalate (spec.allModules.map (·.getD ""))]

theorem line_headline (language : Language) (name : String) :
    Line tables ("Generate a complete " ++ language.value ++ " source file for module '" ++ name ++ "'.")
      (Leaks tables name.toList) := by
  have hname := yields_string name (@yields_fixed tables "'.".toList (by decide)) (by decide)
  rw [or_false] at hname
  have hfront : ("Generate a complete " ++ language.value ++ " source file for module '").toList =
      "Generate a complete ".toList ++ (language.value.toList ++ " source file for module '".toList) := by
    rw [String.toList_append, String.toList_append, List.append_assoc]
  have hline := line_append ("Generate a complete " ++ language.value ++ " source file for module '") hname
    (by rw [hfront]; exact inert_append (inert_ofList (by decide)) (by cases language <;> decide))
    (by rw [hfront]; exact closing_append (y := '\n' :: "Generate a complete ".toList) (by decide) _)
  rwa [← String.append_assoc] at hline

theorem lines_base (spec : Spec) (name : String) : Lines tables (baseLines tables spec name)
    (Leaks tables name.toList ∨ Leaks tables spec.projectName.toList ∨
      Open (sanitize tables spec.description).toList ∨ Open (sanitize tables spec.architecture).toList ∨
        ∃ module ∈ spec.allModules, Leaks tables (module.getD "").toList) := by
  have hproject := line_append "Project: " (@yields_value tables spec.projectName.toList) (by decide)
    (by decide)
  have hdescription := line_append "Requirement: " (@yields_value tables (sanitize tables spec.description).toList)
    (by decide) (by decide)
  have harchitecture := line_append "Architecture: " (@yields_value tables (sanitize tables spec.architecture).toList)
    (by decide) (by decide)
  have hmodules := line_append "All modules: " (@yields_values tables (spec.allModules.map (·.getD "")))
    (by decide) (by decide)
  rw [leaks_sanitize] at hdescription harchitecture
  have hexists : (∃ value ∈ spec.allModules.map (·.getD ""), Leaks tables value.toList) ↔
      ∃ module ∈ spec.allModules, Leaks tables (module.getD "").toList := by simp
  exact (lines_singleton (line_headline spec.language name)).append ((lines_singleton hproject).append
    ((lines_singleton hdescription).append ((lines_singleton harchitecture).append
      (lines_singleton (hmodules.congr hexists)))))

/-- The rules, which close the prompt. -/
theorem closing_rules (language : Language) : closing ("\n" ++ rules language).toList = true := by
  delta rules
  simp only [String.toList_append, List.append_assoc]
  rw [← List.append_assoc]
  exact closing_append (by decide) _

theorem inert_rules (language : Language) : inert ("\n" ++ rules language).toList = true := by
  delta rules
  simp only [String.toList_append, List.append_assoc]
  have hlast : inert ("Provide ONLY complete source code. No markdown, no explanations.".toList ++
      (if language = .go then " Use ONLY Go standard library packages. Do NOT import external dependencies."
        else "").toList) = true := by
    split_ifs
    · exact inert_append (inert_ofList (by decide)) (inert_ofList (by decide))
    · rw [String.toList_empty, List.append_nil]
      exact inert_ofList (by decide)
  refine inert_append ?_ (inert_append ?_ (inert_append ?_ hlast))
  all_goals exact inert_ofList (by decide)

theorem not_sensitive_rules (language : Language) : ¬ Sensitive tables ("\n" ++ rules language).toList := by
  have hinert := inert_rules language
  rw [← List.append_nil ("\n" ++ rules language).toList, sensitive_inert hinert]
  exact not_sensitive_nil

/-- Lines, and another one that closes them. -/
theorem Lines.sensitive_iff {lines : List String} {P : Prop} (h : Lines tables lines P) (hne : lines ≠ [])
    {last : String} (hlast : closing ("\n" ++ last).toList = true) :
    Sensitive tables ("\n".intercalate (lines ++ [last])).toList ↔ P ∨ Sensitive tables ("\n" ++ last).toList := by
  rw [String.intercalate_append_of_ne_nil hne (List.cons_ne_nil _ _), String.intercalate_singleton,
    String.append_assoc, String.toList_append]
  exact (h.joined hne).yields _ hlast

theorem guardedModule_iff (spec : Spec) (name : String) (memory : LearningMemory) (repairContext : Option String) :
    GuardedModule tables printable spec name memory repairContext ↔
      ¬ (((Leaks tables name.toList ∨ Leaks tables spec.projectName.toList ∨
          Open (sanitize tables spec.description).toList ∨ Open (sanitize tables spec.architecture).toList ∨
            ∃ module ∈ spec.allModules, Leaks tables (module.getD "").toList) ∨
        MemoryLeaks tables printable memory spec.language.value (targetModule spec name)) ∨
        ∃ text, repairContext = some text ∧ Open (sanitize tables text).toList) := by
  simp only [MemoryLeaks, not_or, not_exists, not_and]
  constructor
  · rintro ⟨hname, hproject, hdescription, harchitecture, hmodules, hpositive, hnegative, hanti, hrepair⟩
    exact ⟨⟨⟨hname, hproject, hdescription, harchitecture, hmodules⟩, hpositive, hnegative, hanti⟩, hrepair⟩
  · rintro ⟨⟨⟨hname, hproject, hdescription, harchitecture, hmodules⟩, hpositive, hnegative, hanti⟩, hrepair⟩
    exact ⟨hname, hproject, hdescription, harchitecture, hmodules, hpositive, hnegative, hanti, hrepair⟩

/-- **A prompt for a module** contains a match just when something leaks that it is made from. -/
theorem sensitive_prompt_iff (spec : Spec) (name : String) (memory : LearningMemory) (repairContext : Option String) :
    Sensitive tables (prompt tables printable spec name memory repairContext).toList ↔
      ¬ GuardedModule tables printable spec name memory repairContext := by
  have hlines := ((@lines_base tables spec name).append
    (@lines_memory tables printable memory spec.language.value (targetModule spec name))).append
      (@lines_repair tables repairContext)
  have hne : baseLines tables spec name ≠ [] := List.cons_ne_nil _ _
  have hprompt := hlines.sensitive_iff (by simp [hne]) (closing_rules spec.language)
  rw [guardedModule_iff, not_not]
  exact hprompt.trans (or_iff_left (not_sensitive_rules spec.language))

theorem inert_testFront : inert ("Generate ONLY Go table-driven tests for this code.\n" ++
    "Same package. Use func TestXxx(t *testing.T) with []struct.\n" ++
    "Cover success and error paths. Import only testing and time.\n" ++ "ONLY the test code. No markdown.\n\n" ++
    "Source code:\n").toList = true := by
  simp only [String.toList_append]
  refine inert_append (inert_append (inert_append (inert_append ?_ ?_) ?_) ?_) ?_
  all_goals exact inert_ofList (by decide)

theorem sensitive_testPrompt_iff (mainCode : String) :
    Sensitive tables (testPrompt mainCode).toList ↔ Sensitive tables mainCode.toList := by
  unfold testPrompt
  rw [String.toList_append]
  exact sensitive_inert inert_testFront

end

/-! ## Runs -/

section
variable {ω α : Type} (surroundings : Surroundings ω) (spec : Spec) (repairContext : Option String)

/-- The prompt that is made from a subject. -/
def Subject.prompt : Subject → String
  | .module name memory =>
    Generator.prompt surroundings.tables surroundings.printable spec name memory repairContext
  | .tests mainCode => testPrompt mainCode

theorem sensitive_subject_iff (subject : Subject) :
    Sensitive surroundings.tables (subject.prompt surroundings spec repairContext).toList ↔
      ¬ Guarded surroundings.tables surroundings.printable spec repairContext subject := by
  cases subject with
  | module name memory => exact sensitive_prompt_iff spec name memory repairContext
  | tests mainCode => exact (sensitive_testPrompt_iff mainCode).trans not_not.symm

/-- What has been passed to the model is made from what the account says. -/
def Told (s : State ω) : Prop :=
  ∀ sent ∈ s.prompts, sent.2 = sent.1.prompt surroundings spec repairContext

variable {surroundings spec repairContext}

theorem told_outside (call : EStateM Failure ω α) :
    Preserves (Told surroundings spec repairContext) (outside call) := by
  intro s hs
  unfold wp outside EStateM.run
  dsimp only
  cases call s.outside <;> exact hs

theorem told_generateCode {subject : Subject} {text : String}
    (h : text = subject.prompt surroundings spec repairContext) (language : String) :
    Preserves (Told surroundings spec repairContext) (generateCode surroundings subject text language) := by
  apply Preserves.bind
  · apply Preserves.modify
    intro s hs sent hsent
    rcases List.mem_append.mp hsent with hsent | hsent
    · exact hs sent hsent
    · rw [List.mem_singleton.mp hsent]
      exact h
  · exact fun _ => told_outside _

theorem told_record (source : Source) (method : Method) (artifact : Memory.Artifact) (decision : Decision)
    (reason : String) (qualityScore : ℚ) (antiPatterns : List String) :
    Preserves (Told surroundings spec repairContext)
      (record surroundings source method artifact decision reason qualityScore antiPatterns) := by
  apply Preserves.bind (told_outside _)
  rintro ⟨id, ts⟩
  apply Preserves.bind
  · exact Preserves.modify fun s hs => hs
  · exact fun _ => Preserves.bind (told_outside _) fun _ => Preserves.modify fun s hs => hs

theorem told_filePath (targetDir : Path) (language : Language) (name : String) :
    Preserves (Told surroundings spec repairContext) (filePath surroundings targetDir language name) :=
  Preserves.ite (Preserves.bind (told_outside _) fun _ => Preserves.pure _) (Preserves.pure _)

theorem told_generateModule (targetDir : Path) (module : Option String) :
    Preserves (Told surroundings spec repairContext)
    (generateModule surroundings spec targetDir repairContext module) := by
  apply Preserves.get
  intro s
  apply Preserves.bind (told_generateCode rfl _)
  intro response
  apply Preserves.bind (told_filePath _ _ _)
  intro path
  apply Preserves.bind (told_outside _)
  intro _
  apply Preserves.bind (told_outside _)
  intro model
  exact Preserves.bind (told_record _ _ _ _ _ _ _) fun _ => Preserves.pure _

theorem told_generateModules (targetDir : Path) (modules : List (Option String)) :
    Preserves (Told surroundings spec repairContext)
      (generateModules surroundings spec targetDir repairContext modules) := by
  induction modules with
  | nil => exact Preserves.pure _
  | cons module modules ih =>
    exact Preserves.bind (told_generateModule targetDir module) fun _ => Preserves.bind ih fun _ => Preserves.pure _

theorem told_generateTests (targetDir file : Path) :
    Preserves (Told surroundings spec repairContext) (generateTests surroundings targetDir file) := by
  apply Preserves.ite (Preserves.pure _)
  apply Preserves.bind (told_outside _)
  intro mainCode
  apply Preserves.tryCatch
  · apply Preserves.bind (told_generateCode rfl _)
    intro code
    exact Preserves.bind (told_outside _) fun _ => Preserves.pure _
  · intro e
    cases e with
    | runtimeError text => exact Preserves.pure _
    | other text => exact Preserves.throw _

theorem told_generateAllTests (targetDir : Path) (files : List Path) :
    Preserves (Told surroundings spec repairContext) (generateAllTests surroundings targetDir files) := by
  induction files with
  | nil => exact Preserves.pure _
  | cons file files ih =>
    exact Preserves.bind (told_generateTests targetDir file) fun _ => Preserves.bind ih fun _ => Preserves.pure _

theorem told_writeManifest (targetDir : Path) :
    Preserves (Told surroundings spec repairContext) (writeManifest surroundings spec targetDir) := by
  unfold writeManifest
  split
  · exact Preserves.pure _
  · apply Preserves.bind (told_outside _)
    intro exist
    exact Preserves.ite (Preserves.pure _) (Preserves.bind (told_outside _) fun _ => Preserves.pure _)

theorem told_generateProject (targetDir : Path) :
    Preserves (Told surroundings spec repairContext) (generateProject surroundings spec targetDir repairContext) := by
  apply Preserves.bind (told_outside _)
  intro _
  apply Preserves.bind (told_generateModules targetDir _)
  intro files
  apply Preserves.bind
  · exact Preserves.ite (told_generateAllTests targetDir files) (Preserves.pure _)
  · intro tests
    exact Preserves.bind (told_writeManifest targetDir) fun _ => Preserves.pure _

variable (surroundings spec repairContext)

/-- What a run passes to the model, each prompt with what it was made from. -/
def sent (targetDir : Path) (o : ω) (memory : LearningMemory) : List (Subject × String) :=
  (after (generateProject surroundings spec targetDir repairContext) ⟨o, memory, []⟩).prompts

/-- **Privacy of a run.** No prompt contains a match just when nothing leaks that one of them is made from. -/
theorem private_iff (targetDir : Path) (o : ω) (memory : LearningMemory) :
    (∀ entry ∈ sent surroundings spec repairContext targetDir o memory,
      ¬ Sensitive surroundings.tables entry.2.toList) ↔
    ∀ entry ∈ sent surroundings spec repairContext targetDir o memory,
      Guarded surroundings.tables surroundings.printable spec repairContext entry.1 := by
  have hstart : Told surroundings spec repairContext ⟨o, memory, []⟩ := nofun
  have htold := after_of_wp (told_generateProject targetDir _ hstart)
  refine forall₂_congr fun entry hentry => ?_
  rw [htold entry hentry, sensitive_subject_iff, not_not]

end

/-- Everything outside answers, and the model with nothing. -/
def quiet : Surroundings Unit where
  tables := Tables.ascii
  printable _ := true
  cwd := []
  promptHash _ := ""
  makedirs _ := pure ()
  writeText _ _ := pure ()
  readText _ := pure ""
  exist _ := pure false
  generateCode _ _ := pure ""
  model := pure ""
  stamp := pure ("", "")
  appendLine _ := pure ()

theorem sent_quiet (name : String) (targetDir : Path) :
    sent quiet ⟨.python, name, "", "", []⟩ none targetDir () .empty =
    [(.module "main" .empty, prompt quiet.tables quiet.printable ⟨.python, name, "", "", []⟩ "main" .empty none)] := rfl

theorem sensitive_key : Sensitive Tables.ascii "risk-engine".toList := by
  have hlead : tagged "sk-".toList ∈ leads :=
    List.mem_append_right _ (List.mem_cons_of_mem _ (List.mem_singleton_self _))
  have hsearch : search (tagged "sk-".toList).pattern.pieces "risk-engine".toList = true := by decide
  exact ⟨_, List.mem_append_left _ (List.mem_map_of_mem hlead), search_iff.mp hsearch⟩

/-- `sk-engine`, in the name of a project, reads as a key, and the name is passed on as it is. -/
theorem projectName_told : ∃ entry ∈ sent quiet ⟨.python, "risk-engine", "", "", []⟩ none "out".toList () .empty,
    Sensitive quiet.tables entry.2.toList := by
  have hprompt : Sensitive quiet.tables (prompt quiet.tables quiet.printable ⟨.python, "risk-engine", "", "", []⟩ "main"
      .empty none).toList := by
    rw [sensitive_prompt_iff]
    exact fun hguarded => hguarded.projectName (.inl sensitive_key)
  rw [sent_quiet]
  exact ⟨_, List.mem_singleton_self _, hprompt⟩

end Atlas.Agent.Generator
