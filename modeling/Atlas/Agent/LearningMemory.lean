import Atlas.Agent.Models
import Atlas.Lib.Dict
import Mathlib.Data.Finset.Sort

/-!
# The generator's memory: `atlas_agent/memory/`

* `Experience` : what is remembered of a generation; `LearningMemory` : the experiences by their ids, in the order in
  which they came, and the anti-patterns;
* `getPositive`, `getNegative` : what is shown to the generator;
* `newExperience`, `learn`, `store` : the parts of `record`, before and behind the write to the file.
-/

namespace Atlas.Agent.Memory

inductive Decision
  | approved
  | rejected
  | edited
  deriving DecidableEq, Repr

def Decision.value : Decision → String
  | .approved => "approved"
  | .rejected => "rejected"
  | .edited => "edited"

structure Source where
  provider : String
  model : String
  promptHash : String
  deriving DecidableEq

/-- Numbers that are finite, as rational numbers. -/
structure Method where
  contextSources : List String
  temperature : ℚ
  deriving DecidableEq

structure Artifact where
  language : String
  module : String
  governanceRefs : List String
  deriving DecidableEq

structure Outcome where
  humanDecision : String
  reason : String
  qualityScore : ℚ
  deriving DecidableEq

structure Experience where
  id : String
  ts : String
  type : String
  source : Source
  method : Method
  artifact : Artifact
  outcome : Outcome
  antiPatterns : List String
  tags : List String
  deriving DecidableEq

/-- `_index` and `_anti_patterns` -/
structure LearningMemory where
  index : Dict String Experience
  antiPatterns : Finset String

namespace LearningMemory

def empty : LearningMemory := ⟨Dict.empty, ∅⟩

/-- The best `limit` of the approved experiences with the module, those of one score in the order in which they came. -/
def getPositive (memory : LearningMemory) (language module : String) (limit : Nat) : List Experience :=
  let candidates := memory.index.values.filter fun e =>
    e.outcome.humanDecision = "approved" ∧ e.artifact.language = language ∧ module.toList <:+: e.artifact.module.toList
  (candidates.mergeSort fun e e' => e'.outcome.qualityScore ≤ e.outcome.qualityScore).take limit

def getNegative (memory : LearningMemory) (language : String) (limit : Nat) : List Experience :=
  (memory.index.values.filter fun e =>
    e.outcome.humanDecision = "rejected" ∧ e.artifact.language = language).take limit

/-- The experience that `record` makes. -/
def newExperience (id ts : String) (source : Source) (method : Method) (artifact : Artifact) (decision : Decision)
    (reason : String) (qualityScore : ℚ) (antiPatterns : List String) : Experience where
  id := id
  ts := ts
  type := "generation"
  source := source
  method := method
  artifact := artifact
  outcome := ⟨decision.value, reason, qualityScore⟩
  antiPatterns := antiPatterns
  tags := [artifact.language, artifact.module] ++
    if decision = .rejected ∧ antiPatterns ≠ [] then ["REJECTED"] else []

/-- Before the write: the anti-patterns of what has been rejected. -/
def learn (memory : LearningMemory) (decision : Decision) (antiPatterns : List String) : LearningMemory :=
  if decision = .rejected then { memory with antiPatterns := memory.antiPatterns ∪ antiPatterns.toFinset } else memory

/-- Behind the write. -/
def store (memory : LearningMemory) (e : Experience) : LearningMemory :=
  { memory with index := memory.index.set e.id e }

end LearningMemory

end Atlas.Agent.Memory
