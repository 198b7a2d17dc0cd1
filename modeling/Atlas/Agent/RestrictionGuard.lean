import Mathlib.Tactic

/-!
# The restriction guard: `atlas_agent/restriction_guard.py`

* `Rules` : the patterns, each as what `re.search` says of a text;
* `classifyIntent`, `detectCategory` : layer 1; `validateOutputStructure` : layer 2;
* `RestrictionGuard.checkRequest`, `RestrictionGuard.validateOutput` : the decisions, which are logged;
* `allowed_checkRequest`, `allowed_validateOutput` : when they allow.
-/

namespace Atlas.Agent

inductive RequestIntent
  | scaffold
  | implementation
  | ambiguous
  deriving DecidableEq, Repr

inductive RestrictionCategory
  | hftCore
  | executionLogic
  | riskSystems
  | tradingStrategies
  deriving DecidableEq, Repr

def RestrictionCategory.value : RestrictionCategory → String
  | .hftCore => "hft_core"
  | .executionLogic => "execution_logic"
  | .riskSystems => "risk_systems"
  | .tradingStrategies => "trading_strategies"

structure GuardDecision where
  allowed : Bool
  intent : RequestIntent
  category : Option RestrictionCategory
  reason : String
  timestamp : ℚ
  promptHash : String
  layer : String

/-- Whether `re.search` finds a pattern in a text. -/
abbrev Search := String → Bool

/-- The rules of the contract, the patterns of layer 2 and `str.lower`. -/
structure Rules where
  lower : String → String
  /-- `CATEGORY_PATTERNS`, in the order of the contract. -/
  categoryPatterns : List (RestrictionCategory × List Search)
  scaffoldIndicators : List Search
  implementationIndicators : List Search
  scaffoldPatternsRust : List Search
  implementationPatternsRust : List Search
  scaffoldPatternsPython : List Search
  implementationPatternsPython : List Search

section
variable (rules : Rules)

/-! ## Layers -/

def classifyIntent (prompt : String) : RequestIntent :=
  let text := rules.lower prompt
  let scaffoldHits := rules.scaffoldIndicators.countP fun pattern => pattern text
  let implHits := rules.implementationIndicators.countP fun pattern => pattern text
  if implHits > 0 then .implementation else if scaffoldHits ≥ 2 then .scaffold else .ambiguous

/-- The first category that has a pattern in the text. -/
def detectCategory (prompt : String) : Option RestrictionCategory :=
  let text := rules.lower prompt
  (rules.categoryPatterns.find? fun entry => entry.2.any fun pattern => pattern text).map Prod.fst

/-- What the markers of a scaffold and of an implementation say about the code. -/
def judge (hasTodo hasImpl : Bool) : Bool × String :=
  if hasTodo && !hasImpl then (true, "Valid scaffold: has stubs, no implementation")
  else if hasImpl && !hasTodo then (false, "REJECTED: contains implementation without stubs")
  else if hasImpl && hasTodo then (false, "REJECTED: mixed scaffold + implementation")
  else (false, "REJECTED: no recognizable scaffold markers")

def validateOutputStructure (code language : String) : Bool × String :=
  if language = "rust" then
    judge (rules.scaffoldPatternsRust.any fun pattern => pattern code)
      (rules.implementationPatternsRust.any fun pattern => pattern code)
  else if language = "python" then
    judge (rules.scaffoldPatternsPython.any fun pattern => pattern code)
      (rules.implementationPatternsPython.any fun pattern => pattern code)
  else (true, "Non-restricted language")

/-! ## Decisions -/

structure RestrictionGuard where
  auditLog : List GuardDecision

namespace RestrictionGuard
variable (guard : RestrictionGuard)

/-- The guard with one more decision in its log. -/
def log (decision : GuardDecision) : RestrictionGuard := ⟨guard.auditLog ++ [decision]⟩

/-- `hash` is the start of the SHA-256 of the prompt, `now` the time. -/
def checkRequest (hash : String → String) (now : ℚ) (prompt : String) : GuardDecision × RestrictionGuard :=
  let decision : GuardDecision :=
    match detectCategory rules prompt with
    | none => ⟨true, .scaffold, none, "No restricted category detected", now, hash prompt, "L1"⟩
    | some category =>
      match classifyIntent rules prompt with
      | .implementation => ⟨false, .implementation, some category,
          "BLOCKED: implementation request for restricted category '" ++ category.value ++ "'", now, hash prompt, "L1"⟩
      | .ambiguous => ⟨false, .ambiguous, some category,
          "BLOCKED: ambiguous intent for restricted category '" ++ category.value ++
            "' — use explicit SCAFFOLD markers", now, hash prompt, "L1"⟩
      | .scaffold => ⟨true, .scaffold, some category,
          "ALLOWED: scaffold-only for '" ++ category.value ++ "' — Layer 2 will validate output", now, hash prompt,
          "L1"⟩
  (decision, guard.log decision)

def validateOutput (now : ℚ) (code language : String) (decision : GuardDecision) : GuardDecision × RestrictionGuard :=
  match decision.category with
  | none => (decision, guard)
  | some category =>
    let (isValid, reason) := validateOutputStructure rules code language
    let outputDecision : GuardDecision := ⟨isValid, decision.intent, some category,
      (if isValid then "L2 PASSED: " else "L2 REJECTED: ") ++ reason, now, decision.promptHash, "L2"⟩
    (outputDecision, guard.log outputDecision)

end RestrictionGuard

/-- A request for a scaffold of something restricted. -/
def Promised (prompt : String) : Prop := detectCategory rules prompt ≠ none ∧ classifyIntent rules prompt = .scaffold

end

section
variable {rules : Rules} {guard : RestrictionGuard} {hash : String → String} {now : ℚ} {prompt : String}

theorem category_checkRequest :
    (guard.checkRequest rules hash now prompt).1.category = detectCategory rules prompt := by
  unfold RestrictionGuard.checkRequest
  dsimp only
  split
  · next hcategory => exact hcategory.symm
  · next category hcategory => split <;> exact hcategory.symm

/-- Without a category every request is allowed, and with one those for a scaffold. -/
theorem allowed_checkRequest : (guard.checkRequest rules hash now prompt).1.allowed = true ↔
    detectCategory rules prompt = none ∨ Promised rules prompt := by
  unfold RestrictionGuard.checkRequest Promised
  dsimp only
  cases detectCategory rules prompt with
  | none => exact iff_of_true rfl (.inl rfl)
  | some category => cases classifyIntent rules prompt <;> simp

theorem allowed_validateOutput {code language : String} {decision : GuardDecision} (h : decision.allowed = true) :
    (guard.validateOutput rules now code language decision).1.allowed = true ↔
      decision.category = none ∨ (validateOutputStructure rules code language).1 = true := by
  unfold RestrictionGuard.validateOutput
  cases decision.category with
  | none => exact iff_of_true h (.inl rfl)
  | some category => simp

end

end Atlas.Agent
