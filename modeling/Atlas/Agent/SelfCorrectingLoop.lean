import Atlas.Agent.Models
import Atlas.Lib.Dict
import Mathlib.Data.Rat.Floor

/-!
# The repair loop's rules: `atlas_agent/self_correcting_loop.py`

* `QualityScore`, `computeQualityScore` : the weighted score, over the rational numbers;
* `determineStrategy`, `shouldEscalateModel` : what changes from attempt to attempt;
* `buildStructuredRepairContext` : what the next attempt is told;
* `LoopMetrics`, `recordOutcome` : the account of outcomes.
-/

namespace Atlas.Agent

/-- The last strategy of the source, a switch to the fallback model, is never chosen. -/
inductive RepairStrategy
  | patch
  | rewrite
  | differentModel
  | differentPrompt
  deriving DecidableEq, Repr

def RepairStrategy.value : RepairStrategy → String
  | .patch => "patch"
  | .rewrite => "rewrite"
  | .differentModel => "different_model"
  | .differentPrompt => "different_prompt"

def maxAttempts : Nat := 5

/-! ## Scores -/

structure QualityScore where
  syntaxScore : ℚ := 0
  security : ℚ := 0
  completeness : ℚ := 0
  style : ℚ := 0
  overall : ℚ := 0
  deriving DecidableEq

namespace QualityScore

def passThreshold : ℚ := 8 / 10

def computeOverall (score : QualityScore) : QualityScore :=
  { score with
    overall := score.syntaxScore * (35 / 100) + score.security * (30 / 100) + score.completeness * (20 / 100) +
      score.style * (15 / 100) }

def passed (score : QualityScore) : Bool := passThreshold ≤ score.overall

end QualityScore

def computeQualityScore (syntaxPassed : Bool) (securityFindings : List SecurityFinding) (generatedFiles : List String) :
    QualityScore :=
  let critical := securityFindings.countP (·.severity = .critical)
  let high := securityFindings.countP (·.severity = .high)
  { syntaxScore := if syntaxPassed then 1 else 0
    security := if critical > 0 then 0 else if high > 0 then 1 / 2 else 1
    completeness := min 1 generatedFiles.length
    style := 1 : QualityScore }.computeOverall

/-! ## Repair -/

structure AttemptRecord where
  attemptNumber : Nat
  strategy : RepairStrategy
  qualityScore : QualityScore
  errors : List String

def determineStrategy (attempt : Nat) : RepairStrategy :=
  if attempt ≤ 2 then .patch else if attempt ≤ 4 then .rewrite else .differentPrompt

def shouldEscalateModel (attempt : Nat) : Bool := attempt ≥ 3

/-- `:.2f` of a score; all scores are multiples of 0.05. -/
def twoDecimals (q : ℚ) : String :=
  let hundredths := (q * 100).floor.toNat
  let rest := toString (hundredths % 100)
  toString (hundredths / 100) ++ "." ++ (if hundredths % 100 < 10 then "0" else "") ++ rest

def strategyInstruction : RepairStrategy → String
  | .patch =>
    "REPAIR STRATEGY: PATCH — Fix ONLY the specific errors below. Keep the rest of the code unchanged."
  | .rewrite =>
    "REPAIR STRATEGY: FULL REWRITE — The previous approach failed. " ++
      "Rewrite the entire file from scratch, avoiding the errors below."
  | _ =>
    "REPAIR STRATEGY: DIFFERENT APPROACH — Previous attempts failed. " ++
      "Try a fundamentally different implementation approach."

/-- A headline with its lines, if there are any. -/
def repairSection (headline : String) (lines : List String) : List String :=
  if lines = [] then [] else headline :: lines

def numbered (errors : List String) : List String :=
  errors.mapIdx fun i error => "  " ++ toString (i + 1) ++ ". " ++ error

def describeAttempt (record : AttemptRecord) : String :=
  "  Attempt " ++ toString record.attemptNumber ++ ": strategy=" ++ record.strategy.value ++ ", score=" ++
    twoDecimals record.qualityScore.overall ++ ", errors=" ++ toString record.errors.length

def buildStructuredRepairContext (previousCode : String) (errors securityFindings antiPatterns : List String)
    (attemptHistory : List AttemptRecord) (strategy : RepairStrategy) : String :=
  "\n".intercalate
    ([strategyInstruction strategy] ++
      (if strategy = .patch ∧ previousCode ≠ "" then
        ["\nPREVIOUS CODE (fix errors in this code):\n```\n" ++ previousCode ++ "\n```"] else []) ++
      repairSection "\nERRORS TO FIX:" (numbered errors) ++
      repairSection "\nSECURITY ISSUES TO FIX:" (securityFindings.map ("  - " ++ ·)) ++
      (if antiPatterns ≠ [] then ["\nANTI-PATTERNS TO AVOID: " ++ ", ".intercalate antiPatterns] else []) ++
      -- `attempt_history[-3:]`
      repairSection "\nPREVIOUS ATTEMPTS (do NOT repeat these approaches):"
        ((attemptHistory.drop (attemptHistory.length - 3)).map describeAttempt))

/-! ## Metrics -/

structure LoopMetrics where
  totalRuns : Nat := 0
  successfulRuns : Nat := 0
  failedRuns : Nat := 0
  totalAttempts : Nat := 0
  scoresByAttempt : Dict Nat (List ℚ) := Dict.empty
  commonFailures : Dict String Nat := Dict.empty

namespace LoopMetrics

def recordAttempt (metrics : LoopMetrics) (attempt : Nat) (score : ℚ) : LoopMetrics :=
  let scores := (metrics.scoresByAttempt.get? attempt).getD []
  { metrics with scoresByAttempt := metrics.scoresByAttempt.set attempt (scores ++ [score]) }

def recordFailure (metrics : LoopMetrics) (category : String) : LoopMetrics :=
  let count := (metrics.commonFailures.get? category).getD 0
  { metrics with commonFailures := metrics.commonFailures.set category (count + 1) }

/-- `SelfCorrectingLoop.record_outcome` -/
def recordOutcome (metrics : LoopMetrics) (success : Bool) (attempts : Nat) (finalScore : ℚ)
    (failureCategories : List String) : LoopMetrics :=
  let metrics := { metrics with totalRuns := metrics.totalRuns + 1, totalAttempts := metrics.totalAttempts + attempts }
  let metrics :=
    if success then { metrics with successfulRuns := metrics.successfulRuns + 1 }
    else failureCategories.foldl recordFailure { metrics with failedRuns := metrics.failedRuns + 1 }
  (List.range' 1 attempts).foldl
    (fun metrics i => metrics.recordAttempt i (if i = attempts then finalScore else 0)) metrics

end LoopMetrics

end Atlas.Agent
