import Atlas.Lib.Outermost
import Atlas.Lib.Pathlib
import Atlas.Scripts.ParallelPaths

/-!
# The walks of the boundary detector: `find_implementations`

* `pruned`, `scan` : the walk of both functions, with what they exclude;
* `collectSourceFiles`, `candidates` : the two walks; `select` : the outermost of the candidates;
* `select_outermost` : for every list of candidates, what is selected.
-/

namespace Atlas.Scripts.BoundaryScan
open Pathlib

def sourceExtensions : List (String × String) := [(".rs", "rust"), (".py", "python"), (".go", "go")]

def excludedParts : List String :=
  ["contracts", "tests", "output", "sdk", "fixtures", "target", ".git", "__pycache__", ".venv", "node_modules"]

structure Implementation where
  path : Path
  languages : Finset String
  sourceFiles : List Path
  deriving DecidableEq

def isExcluded (path : Path) : Bool := path.parts.any fun part => part ∈ excludedParts

/-- `SOURCE_EXTENSIONS[file.suffix]` -/
def languageOf (file : Path) : Option String := sourceExtensions.lookup file.suffix

/-- The lines that both loops begin with: nothing of a directory that is excluded, and none of its directories that
are. -/
def pruned {α : Type} (visit : Path → Tree → List α) (root : Path) (tree : Tree) : List String × List α :=
  if isExcluded root then ([], [])
  else ((tree.dirs.map Prod.fst).filter fun d => !isExcluded (root.child d), visit root tree)

def scan {α : Type} (visit : Path → Tree → List α) (root : Path) (tree : Tree) : List α := walk (pruned visit) root tree

/-- The source files of one directory. -/
def sourceFilesOf (root : Path) (tree : Tree) : List Path :=
  (tree.fileNames.map root.child).filter fun file => (languageOf file).isSome

def collectSourceFiles (path : Path) (tree : Tree) : List Path := (scan sourceFilesOf path tree).insertionSort Path.le

section
variable (lower : String → String) (domain : String)

/-- `lower` : `str.lower` -/
def domainMatches (name : String) : Bool :=
  let normalized := (lower name).map fun c => if c = '-' then '_' else c
  normalized = domain || (domain ++ "_").toList.isPrefixOf normalized.toList ||
    ("_" ++ domain).toList.isSuffixOf normalized.toList

/-- The candidate that a directory is, by its name and what is in it. -/
def candidate? (root : Path) (directory : String × Tree) : Option Implementation :=
  if domainMatches lower domain directory.1 then
    let files := collectSourceFiles (root.child directory.1) directory.2
    if files = [] then none
    else some ⟨root.child directory.1, (files.filterMap languageOf).toFinset, files⟩
  else none

def candidatesOf (root : Path) (tree : Tree) : List Implementation :=
  (tree.dirs.filter fun directory => !isExcluded (root.child directory.1)).filterMap (candidate? lower domain root)

/-- The candidates, as the walk finds them. -/
def candidates (projectRoot : Path) (tree : Tree) : List Implementation :=
  scan (candidatesOf lower domain) projectRoot tree

end

/-- `(len(item.path.parts), str(item.path))` -/
def Implementation.key (item : Implementation) : ℕ ×ₗ String := toLex (item.path.parts.length, item.path.str)

def sortCandidates (candidates : List Implementation) : List Implementation :=
  candidates.insertionSort fun a b => a.key ≤ b.key

/-- `candidate.path != existing.path and candidate.path.is_relative_to(existing.path)` -/
def LiesInside (candidate existing : Implementation) : Prop := candidate.path.Inside existing.path

instance : DecidableRel LiesInside := fun a b => inferInstanceAs (Decidable (a.path.Inside b.path))

/-- The loop over the sorted candidates. -/
def select (candidates : List Implementation) : List Implementation :=
  Outermost.select LiesInside (sortCandidates candidates)

def findImplementations (lower : String → String) (domain : String) (projectRoot : Path) (tree : Tree) :
    List Implementation :=
  select (candidates lower domain projectRoot tree)

/-! ## What is selected -/

theorem sortCandidates_perm (candidates : List Implementation) : (sortCandidates candidates).Perm candidates :=
  List.perm_insertionSort _ candidates

theorem pairwise_sortCandidates (candidates : List Implementation) :
    (sortCandidates candidates).Pairwise fun a b => a.key ≤ b.key := by
  have : Std.Total fun a b : Implementation => a.key ≤ b.key := ⟨fun a b => le_total a.key b.key⟩
  have : IsTrans Implementation fun a b => a.key ≤ b.key := ⟨fun a b c => le_trans⟩
  exact List.pairwise_insertionSort _ candidates

/-- No candidate lies inside one that stands behind it: it is deeper. -/
theorem not_liesInside_of_key_le {a b : Implementation} (h : a.key ≤ b.key) : ¬ LiesInside a b := by
  intro hinside
  have hdeeper : b.path.parts.length < a.path.parts.length := hinside.parts_lt
  have hdepth : a.path.parts.length ≤ b.path.parts.length := by
    rcases Prod.Lex.toLex_le_toLex.mp h with hlt | ⟨heq, -⟩
    · exact hlt.le
    · exact heq.le
  omega

theorem select_eq_filter (candidates : List Implementation) :
    select candidates = (sortCandidates candidates).filter fun a => !candidates.any fun b => LiesInside a b := by
  have hsorted : (sortCandidates candidates).Pairwise fun a b => ¬ LiesInside a b :=
    (pairwise_sortCandidates candidates).imp not_liesInside_of_key_le
  have hany (a : Implementation) :
      ((sortCandidates candidates).any fun b => LiesInside a b) = candidates.any fun b => LiesInside a b :=
    (sortCandidates_perm candidates).any_eq
  have htrans (a b c : Implementation) (hab : LiesInside a b) (hbc : LiesInside b c) : LiesInside a c := hab.trans hbc
  have hirrefl (a : Implementation) : ¬ LiesInside a a := Path.Inside.irrefl a.path
  rw [select, Outermost.select_eq_filter htrans hirrefl hsorted]
  exact List.filter_congr fun a _ => by rw [hany]

theorem mem_select {candidates : List Implementation} {a : Implementation} :
    a ∈ select candidates ↔ a ∈ candidates ∧ ∀ b ∈ candidates, ¬ LiesInside a b := by
  rw [select_eq_filter, List.mem_filter, (sortCandidates_perm candidates).mem_iff]
  simp

theorem exists_mem_select {candidates : List Implementation} {a : Implementation} (h : a ∈ candidates) :
    ∃ b ∈ select candidates, a.path = b.path ∨ LiesInside a b := by
  have hsorted : a ∈ sortCandidates candidates := (sortCandidates_perm candidates).mem_iff.mpr h
  obtain ⟨b, hb, hab⟩ := Outermost.exists_mem_select LiesInside hsorted
  exact ⟨b, hb, hab.imp_left (congrArg Implementation.path)⟩

/-- **The outermost candidates.** Of every list, those are selected, in the order of their depth, that lie strictly
inside no candidate; no selected one lies strictly inside another, and every candidate is or lies inside a selected
one. -/
theorem select_outermost (candidates : List Implementation) :
    (select candidates = (sortCandidates candidates).filter fun a => !candidates.any fun b => LiesInside a b) ∧
    (∀ a, a ∈ select candidates ↔ a ∈ candidates ∧ ∀ b ∈ candidates, ¬ LiesInside a b) ∧
    (∀ a ∈ select candidates, ∀ b ∈ select candidates, ¬ LiesInside a b) ∧
    ∀ a ∈ candidates, ∃ b ∈ select candidates, a.path = b.path ∨ LiesInside a b := by
  refine ⟨select_eq_filter candidates, fun a => mem_select, fun a ha b hb => ?_, fun a => exists_mem_select⟩
  exact (mem_select.mp ha).2 b (mem_select.mp hb).1

end Atlas.Scripts.BoundaryScan
