import Atlas.Lib.PyText
import Mathlib.Data.Finset.Sort
import Mathlib.Data.String.Basic
import Mathlib.Tactic

/-!
# The boundary detector: `scripts/check_parallel_paths.py`

* `classify` : the verdict on the implementations of one domain, from one set that is cut down along the list;
* `Overlap`, `Common` : two of them share a language, all of them do;
* `classify_eq_violation_iff` : what `classify` calls a violation; `verdict_iff` : when its verdict is the right one;
* `main` : the run over `domains`, with all that it prints; `reported_iff` : when its last word is right.
-/

namespace Atlas.Scripts

/-- `path` by its parts below the project root; the `source_files` are read by nothing but the selection. -/
structure Implementation where
  path : List String
  languages : Finset String
  deriving DecidableEq

/-- What `classify` returns. -/
inductive Verdict
  | ok
  | violation
  | polyglot
  deriving DecidableEq, Repr

/-- `shared.intersection_update(implementation.languages)`, one after the other. -/
def intersections (shared : Finset String) (implementations : List Implementation) : Finset String :=
  implementations.foldl (fun shared implementation => shared ∩ implementation.languages) shared

def classify : List Implementation → Verdict
  | [] => .ok
  | [_] => .ok
  | first :: second :: rest =>
    if (intersections first.languages (second :: rest)).Nonempty then .violation else .polyglot

/-! ## The verdict -/

/-- Two of the implementations have a language in common. -/
def Overlap (implementations : List Implementation) : Prop :=
  ∃ i j : Fin implementations.length, i < j ∧
    ¬ Disjoint (implementations.get i).languages (implementations.get j).languages

/-- All of the implementations have a language in common. -/
def Common (implementations : List Implementation) : Prop :=
  ∃ language, ∀ implementation ∈ implementations, language ∈ implementation.languages

instance (implementations : List Implementation) : Decidable (Overlap implementations) := by
  unfold Overlap
  infer_instance

theorem mem_intersections {language : String} {shared : Finset String} {implementations : List Implementation} :
    language ∈ intersections shared implementations ↔
      language ∈ shared ∧ ∀ implementation ∈ implementations, language ∈ implementation.languages := by
  unfold intersections
  induction implementations generalizing shared with
  | nil => simp
  | cons implementation rest ih =>
    rw [List.foldl_cons, ih, Finset.mem_inter, List.forall_mem_cons, and_assoc]

theorem intersections_nonempty_iff {first : Implementation} {rest : List Implementation} :
    (intersections first.languages rest).Nonempty ↔ Common (first :: rest) := by
  refine exists_congr fun language => ?_
  rw [mem_intersections, List.forall_mem_cons]

theorem overlap_length {implementations : List Implementation} (h : Overlap implementations) :
    2 ≤ implementations.length := by
  obtain ⟨i, j, hlt, _⟩ := h
  have hi : i.val < j.val := hlt
  have hj := j.isLt
  omega

theorem overlap_of_common {implementations : List Implementation} (hlength : 2 ≤ implementations.length)
    (hcommon : Common implementations) : Overlap implementations := by
  obtain ⟨language, hall⟩ := hcommon
  refine ⟨⟨0, by omega⟩, ⟨1, by omega⟩, by simp, fun hdisjoint => ?_⟩
  exact Finset.disjoint_left.mp hdisjoint (hall _ (List.get_mem ..)) (hall _ (List.get_mem ..))

theorem classify_eq_ok_iff (implementations : List Implementation) :
    classify implementations = .ok ↔ implementations.length ≤ 1 := by
  match implementations with
  | [] => simp [classify]
  | [_] => simp [classify]
  | first :: second :: rest =>
    rw [classify]
    split_ifs <;> simp

/-- The detector calls it a violation when a language is shared by all. -/
theorem classify_eq_violation_iff (implementations : List Implementation) :
    classify implementations = .violation ↔ 2 ≤ implementations.length ∧ Common implementations := by
  match implementations with
  | [] => simp [classify]
  | [_] => simp [classify]
  | first :: second :: rest =>
    rw [← intersections_nonempty_iff, classify]
    split_ifs with h <;> simp [h]

/-- The verdict that the implementations deserve. -/
structure Sound (implementations : List Implementation) : Prop where
  violation : classify implementations = .violation ↔ Overlap implementations
  ok : classify implementations = .ok ↔ implementations.length ≤ 1
  polyglot : classify implementations = .polyglot ↔ 2 ≤ implementations.length ∧ ¬ Overlap implementations

/-- The verdict is right just when an overlap is one of all the implementations. -/
theorem verdict_iff (implementations : List Implementation) :
    Sound implementations ↔ (Overlap implementations → Common implementations) := by
  constructor
  · intro h hoverlap
    exact ((classify_eq_violation_iff implementations).mp (h.violation.mpr hoverlap)).2
  · intro h
    have hok := classify_eq_ok_iff implementations
    have hviolation : classify implementations = .violation ↔ Overlap implementations := by
      rw [classify_eq_violation_iff]
      exact ⟨fun hc => overlap_of_common hc.1 hc.2, fun ho => ⟨overlap_length ho, h ho⟩⟩
    refine ⟨hviolation, hok, ?_⟩
    have hmany : 2 ≤ implementations.length ↔ classify implementations ≠ .ok := by
      rw [Ne, hok]
      omega
    rw [← hviolation, hmany]
    cases classify implementations <;> simp

/-! ## The run -/

def domains : List String := ["market_data", "risk_engine", "memory_storage", "execution", "strategy"]

/-- What a run prints, and its exit code. -/
structure Report where
  stdout : List String
  stderr : List String
  code : Nat
  deriving DecidableEq

/-- `./path [languages]` -/
def describe (implementation : Implementation) : String :=
  "./" ++ "/".intercalate implementation.path ++ " [" ++
    ", ".intercalate (implementation.languages.sort (· ≤ ·)) ++ "]"

/-- What is printed for one domain. -/
def domainLines (domain : String) (implementations : List Implementation) : List String :=
  let count := toString implementations.length
  match classify implementations with
  | .ok =>
    match implementations with
    | [] => ["INFO " ++ domain ++ ": no implementation found"]
    | implementation :: _ => ["OK " ++ domain ++ ": " ++ describe implementation]
  | .polyglot =>
    ("INFO " ++ domain ++ ": " ++ count ++ " candidates (POLYGLOT)") ::
      implementations.map fun implementation => "  " ++ describe implementation
  | .violation =>
    ("WARN " ++ domain ++ ": " ++ count ++ " candidates share language (VIOLATION)") ::
      implementations.map fun implementation => "  " ++ describe implementation

/-- The counters of `main` and what it has printed so far. -/
structure Tally where
  violations : Nat
  polyglot : Nat
  printed : List String

def tally (findImplementations : String → List Implementation) (soFar : Tally) (domain : String) : Tally :=
  let implementations := findImplementations domain
  let printed := soFar.printed ++ domainLines domain implementations
  match classify implementations with
  | .ok => { soFar with printed }
  | .polyglot => { soFar with polyglot := soFar.polyglot + 1, printed }
  | .violation => { soFar with violations := soFar.violations + 1, printed }

def allClear : String := "OK: No same-language overlaps"

/-- The last lines of `main`, behind the loop. -/
def conclude (total : Tally) : Report :=
  if total.violations ≠ 0 then
    { stdout := total.printed ++ ["FAIL: " ++ toString total.violations ++ " same-language overlap(s)"]
      stderr := [], code := 1 }
  else
    { stdout := total.printed ++ [allClear] ++
        if total.polyglot ≠ 0 then
          ["INFO: " ++ toString total.polyglot ++ " cross-language overlap(s) for review"]
        else []
      stderr := [], code := 0 }

/-- What is printed before the loop. -/
def header (root : String) : List String := ["Atlas AI - Implementation Boundary Detector", "Root: " ++ root]

/-- `governance` says whether the architecture lock is there. -/
def main (governance : Bool) (root : String) (findImplementations : String → List Implementation) : Report :=
  if governance then
    conclude (domains.foldl (tally findImplementations) ⟨0, 0, header root⟩)
  else
    { stdout := [], stderr := ["ERROR: governance/01_ARCHITECTURE_LOCK.md not found"], code := 2 }

/-- Two texts that begin differently. -/
theorem ne_append {start line : String} (h : ¬ start.toList <+: line.toList) (rest : String) :
    line ≠ start ++ rest := by
  rintro rfl
  apply h
  rw [String.toList_append]
  exact List.prefix_append ..

theorem allClear_notMem_domainLines (domain : String) (implementations : List Implementation) :
    allClear ∉ domainLines domain implementations := by
  have hinfo (rest : String) : allClear ≠ "INFO " ++ rest := ne_append (by decide) rest
  have hok (rest : String) : allClear ≠ "OK " ++ rest := ne_append (by decide) rest
  have hwarn (rest : String) : allClear ≠ "WARN " ++ rest := ne_append (by decide) rest
  have hitem (rest : String) : "  " ++ rest ≠ allClear := (ne_append (by decide) rest).symm
  unfold domainLines
  intro hmem
  split at hmem
  · split at hmem
    · exact absurd hmem (by simp only [String.append_assoc, List.mem_singleton, hinfo, not_false_eq_true])
    · exact absurd hmem (by simp only [String.append_assoc, List.mem_singleton, hok, not_false_eq_true])
  · simp [String.append_assoc, hinfo, hitem] at hmem
  · simp [String.append_assoc, hwarn, hitem] at hmem

theorem tally_printed (findImplementations : String → List Implementation) (soFar : Tally) (domain : String) :
    (tally findImplementations soFar domain).printed =
      soFar.printed ++ domainLines domain (findImplementations domain) := by
  cases h : classify (findImplementations domain) <;> simp only [tally, h]

theorem tally_violations_eq_zero_iff (findImplementations : String → List Implementation) (soFar : Tally)
    (domain : String) :
    (tally findImplementations soFar domain).violations = 0 ↔
      soFar.violations = 0 ∧ classify (findImplementations domain) ≠ .violation := by
  cases h : classify (findImplementations domain) <;> simp [tally, h]

theorem allClear_mem_foldl_tally (findImplementations : String → List Implementation) (some : List String)
    (soFar : Tally) :
    allClear ∈ (some.foldl (tally findImplementations) soFar).printed ↔ allClear ∈ soFar.printed := by
  induction some generalizing soFar with
  | nil => rfl
  | cons domain some ih =>
    have hlines := allClear_notMem_domainLines domain (findImplementations domain)
    rw [List.foldl_cons, ih, tally_printed, List.mem_append, or_iff_left hlines]

theorem violations_foldl_tally (findImplementations : String → List Implementation) (some : List String)
    (soFar : Tally) :
    (some.foldl (tally findImplementations) soFar).violations = 0 ↔
      soFar.violations = 0 ∧ ∀ domain ∈ some, classify (findImplementations domain) ≠ .violation := by
  induction some generalizing soFar with
  | nil => simp
  | cons domain some ih =>
    rw [List.foldl_cons, ih, List.forall_mem_cons, tally_violations_eq_zero_iff, and_assoc]

theorem allClear_mem_conclude_iff {total : Tally} (h : allClear ∉ total.printed) :
    allClear ∈ (conclude total).stdout ↔ total.violations = 0 := by
  have hfail (rest : String) : allClear ≠ "FAIL: " ++ rest := ne_append (by decide) rest
  unfold conclude
  split_ifs with hviolations
  · simp [hviolations, h, String.append_assoc, hfail]
  · simp [not_not.mp hviolations]
  · simp [not_not.mp hviolations]

theorem allClear_notMem_header (root : String) : allClear ∉ header root := by
  have htitle : allClear ≠ "Atlas AI - Implementation Boundary Detector" := by decide
  have hroot : allClear ≠ "Root: " ++ root := ne_append (by decide) root
  simp [header, htitle, hroot]

/-- The run ends well when no domain is called a violation. -/
theorem allClear_mem_main_iff (governance : Bool) (root : String)
    (findImplementations : String → List Implementation) :
    allClear ∈ (main governance root findImplementations).stdout ↔
      governance = true ∧ ∀ domain ∈ domains, classify (findImplementations domain) ≠ .violation := by
  unfold main
  split_ifs with hgovernance
  · have hprinted : allClear ∉ (domains.foldl (tally findImplementations) ⟨0, 0, header root⟩).printed := by
      rw [allClear_mem_foldl_tally]
      exact allClear_notMem_header root
    rw [allClear_mem_conclude_iff hprinted, violations_foldl_tally, eq_self, true_and]
    exact (and_iff_right hgovernance).symm
  · simp [hgovernance]

/-- The last word of the run is right just when no domain has an overlap, or one has an overlap of all of its
implementations and the run does not come to that word. -/
theorem reported_iff (governance : Bool) (root : String) (findImplementations : String → List Implementation) :
    (allClear ∈ (main governance root findImplementations).stdout →
      ∀ domain ∈ domains, ¬ Overlap (findImplementations domain)) ↔
    (governance = true → (∀ domain ∈ domains, ¬ Overlap (findImplementations domain)) ∨
      ∃ domain ∈ domains, Overlap (findImplementations domain) ∧ Common (findImplementations domain)) := by
  have hviolation (implementations : List Implementation) :
      classify implementations = .violation ↔ Overlap implementations ∧ Common implementations := by
    rw [classify_eq_violation_iff]
    exact ⟨fun h => ⟨overlap_of_common h.1 h.2, h.2⟩, fun h => ⟨overlap_length h.1, h.2⟩⟩
  rw [allClear_mem_main_iff, and_imp]
  refine imp_congr_right fun _ => ?_
  simp only [ne_eq, hviolation]
  constructor
  · intro h
    by_cases hfound : ∃ domain ∈ domains, Overlap (findImplementations domain) ∧ Common (findImplementations domain)
    · exact Or.inr hfound
    · exact Or.inl (h fun domain hdomain hboth => hfound ⟨domain, hdomain, hboth⟩)
  · rintro (h | ⟨domain, hdomain, hboth⟩) hnone
    · exact h
    · exact absurd hboth (hnone domain hdomain)

/-- The verdicts and the last word of the run, for all lists and all projects. -/
theorem detector_sound_iff (implementations : List Implementation) (governance : Bool) (root : String)
    (findImplementations : String → List Implementation) :
    (Sound implementations ↔ (Overlap implementations → Common implementations)) ∧
    ((allClear ∈ (main governance root findImplementations).stdout →
        ∀ domain ∈ domains, ¬ Overlap (findImplementations domain)) ↔
      (governance = true → (∀ domain ∈ domains, ¬ Overlap (findImplementations domain)) ∨
        ∃ domain ∈ domains, Overlap (findImplementations domain) ∧ Common (findImplementations domain))) :=
  ⟨verdict_iff implementations, reported_iff governance root findImplementations⟩

/-- Three places for `execution`, the first two both in Rust. -/
def threePlaces : List Implementation :=
  [⟨["core", "execution"], {"rust"}⟩, ⟨["engines", "execution"], {"rust"}⟩, ⟨["sim", "execution"], {"python"}⟩]

/-- The two in Rust are taken for a polyglot domain, and the run ends with no overlap. -/
theorem threePlaces_missed :
    Overlap threePlaces ∧ classify threePlaces = .polyglot ∧
      allClear ∈ (main true "/atlas" fun domain => if domain = "execution" then threePlaces else []).stdout := by
  have hoverlap : Overlap threePlaces := ⟨⟨0, by decide⟩, ⟨1, by decide⟩, by decide, by decide⟩
  refine ⟨hoverlap, by decide, ?_⟩
  rw [allClear_mem_main_iff]
  decide

end Atlas.Scripts
