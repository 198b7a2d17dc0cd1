import Atlas.Agent.SelfCorrectingLoop
import Atlas.Lib.PyText
import Atlas.Lib.Raising

/-!
# The pipeline: `atlas_agent/orchestrator.py`, `atlas_agent/governance.py`

* `Engines` : the generator, the validator, the files, the human at the terminal and the deployment, as calls on a
  world `ω` outside;
* `World` : the state of the orchestrator and of its parts, and account kept of what it has called;
* `validateArtifact`, `requireHumanApproval` : the gates;
* `attempt`, `attempts`, `runPipeline` : one round of the loop, the loop, the whole run.
-/

namespace Atlas.Agent
open Raising

/-! ## What the pipeline calls -/

/-- The arguments of `generate_project`, and the model that the generator has at that moment. -/
structure GenerateCall where
  specification : Specification
  targetFolder : String
  repairContext : Option String
  model : String

structure Engines (ω : Type) where
  /-- `settings.require_human_approval` -/
  requireHumanApproval : Bool
  fallbackModel : String
  generateProject : GenerateCall → EStateM String ω (List String)
  checkSyntax : String → Language → EStateM String ω TestResult
  runSecurityScan : String → Language → String → EStateM String ω (List SecurityFinding)
  /-- The text of a file, if there is one. -/
  readFile : String → EStateM String ω (Option String)
  getAntiPatterns : EStateM String ω (List String)
  /-- `input("> ")`; `none` : the input is at its end. -/
  input : EStateM String ω (Option String)
  deploy : String → String → Language → EStateM String ω DeploymentRecord

/-- An entry of `audit_logs`, but for the details in its metadata. -/
structure AuditLog where
  action : String
  resource : String
  result : String
  error : Option String
  deriving DecidableEq

/-- Account of what the orchestrator does: `judge` : the artifact of an attempt is as the gates will see it. -/
inductive Event
  | generate
  | judge (artifact : Artifact)
  | approve (artifact : Artifact) (answer : Bool)
  | deploy (path : String)
  deriving DecidableEq

structure World (ω : Type) where
  outside : ω
  /-- `self.generator.llm.model` -/
  model : String
  auditLogs : List AuditLog
  metrics : LoopMetrics
  events : List Event

inductive Failure
  | valueError (text : String)
  | assertionError
  /-- The text names the attempts, the last score and the categories of failures. -/
  | loopExhausted (attempts : Nat) (score : ℚ) (failures : Finset String)
  | foreign (text : String)

section
variable {ω α : Type}

abbrev M (ω α : Type) := EStateM Failure (World ω) α

/-- A call of something outside. -/
def outside (call : EStateM String ω α) : M ω α := fun s =>
  match call.run s.outside with
  | .ok a o => .ok a { s with outside := o }
  | .error text o => .error (.foreign text) { s with outside := o }

def note (event : Event) : M ω Unit := modify fun s => { s with events := s.events ++ [event] }

/-! ## Governance -/

def logAudit (action component result : String) (error : Option String) : M ω Unit :=
  modify fun s => { s with auditLogs := s.auditLogs ++ [⟨action, component, result, error⟩] }

def validateSpecification (specification : Specification) : M ω Bool := do
  logAudit "spec_validation" "governance" "success" none
  if specification.architecture = "" then
    logAudit "spec_validation_failed" "governance" "success" (some "Missing architecture")
    return false
  else if specification.modules = [] then
    logAudit "spec_validation_failed" "governance" "success" (some "Missing modules")
    return false
  else return true

def validateArtifact (artifact : Artifact) : M ω Bool := do
  logAudit "artifact_validation" "governance" "success" none
  if artifact.securityFindings.filter (·.severity = .critical) ≠ [] then
    logAudit "artifact_validation_failed" "governance" "success" (some "Critical security findings")
    return false
  else if artifact.testResults.filter (!·.passed) ≠ [] then
    logAudit "artifact_validation_failed" "governance" "success" (some "Failed tests")
    return false
  else return true

/-- `response.strip().lower() == "yes"` -/
def saysYes (response : String) : Bool :=
  PyText.lower (String.ofList (PyText.strip PyText.isSpace response.toList)) = "yes"

/-- The answer, and the artifact with the status that it then has. -/
def requireHumanApproval (engines : Engines ω) (artifact : Artifact) : M ω (Bool × Artifact) := do
  if engines.requireHumanApproval = false then return (true, artifact)
  else
    match ← outside engines.input with
    | none => return (false, artifact)
    | some response =>
      if saysYes response then
        logAudit "human_approval" "governance" "approved" none
        return (true, { artifact with status := .approved })
      else
        logAudit "human_rejection" "governance" "rejected" none
        return (false, { artifact with status := .rejected })

/-! ## An attempt -/

/-- `os.path.join` -/
def joinPath (folder path : String) : String :=
  if path.startsWith "/" then path
  else if folder = "" ∨ folder.endsWith "/" then folder ++ path
  else folder ++ "/" ++ path

/-- A file with one of the extensions of source code. -/
def isSource (path : String) : Bool := path.endsWith ".py" || path.endsWith ".rs" || path.endsWith ".go"

/-- The artifact with one more syntax check, and `all_syntax_passed`. -/
def checkInto (engines : Engines ω) (path : String) (language : Language) (seen : Artifact × Bool) :
    M ω (Artifact × Bool) := do
  let result ← outside (engines.checkSyntax path language)
  return ({ seen.1 with testResults := seen.1.testResults ++ [result] }, seen.2 && result.passed)

def scanInto (engines : Engines ω) (path : String) (language : Language) (folder : String)
    (seen : Artifact × Bool) : M ω (Artifact × Bool) := do
  let findings ← outside (engines.runSecurityScan path language folder)
  return ({ seen.1 with securityFindings := seen.1.securityFindings ++ findings }, seen.2)

/-- The loop over the source files; for Go the project has been checked as a whole. -/
def inspectFiles (engines : Engines ω) (language : Language) (folder : String) :
    List String → Artifact × Bool → M ω (Artifact × Bool)
  | [], seen => return seen
  | path :: paths, seen => do
    let file := joinPath folder path
    let seen ← (if language = .go then pure seen else checkInto engines file language seen)
    let seen ← scanInto engines file language folder seen
    inspectFiles engines language folder paths seen

def inspect (engines : Engines ω) (language : Language) (folder : String) (sourceFiles : List String)
    (artifact : Artifact) : M ω (Artifact × Bool) := do
  let seen ← (if language = .go then checkInto engines folder language (artifact, true) else pure (artifact, true))
  inspectFiles engines language folder sourceFiles seen

/-- What one attempt leaves for the next one. -/
structure Carried where
  repairContext : Option String := none
  artifact : Option Artifact := none
  previousCode : String := ""
  attemptHistory : List AttemptRecord := []

/-- The texts of the source files are read for the length of the code. -/
def readAll (engines : Engines ω) : List String → M ω Unit
  | [] => return
  | path :: paths => do
    let _ ← outside (engines.readFile path)
    readAll engines paths

def errorsOf (artifact : Artifact) : List String :=
  ((artifact.testResults.filter (!·.passed)).map (·.errors)).flatten

/-- The critical findings and the high ones. -/
def seriousOf (artifact : Artifact) : List SecurityFinding :=
  artifact.securityFindings.filter fun finding => finding.severity = .critical ∨ finding.severity = .high

def describeFinding (finding : SecurityFinding) : String :=
  "[" ++ finding.severity.value.toUpper ++ "] " ++ finding.category ++ ": " ++ finding.message ++ " -> " ++
    finding.suggestion

/-- `error.split(":")[0].strip()` -/
def errorCategory (error : String) : String :=
  String.ofList (PyText.strip PyText.isSpace (error.toList.takeWhile (· ≠ ':')))

def failureCategories (artifact : Artifact) : Finset String :=
  (((errorsOf artifact).take 3).map errorCategory ++ (seriousOf artifact).map (·.category)).toFinset

/-- `generate_project`, with the fallback model from the third attempt on. -/
def generate (engines : Engines ω) (requirement : Requirement) (specification : Specification) (attempt : Nat)
    (repairContext : Option String) : M ω (List String) := do
  let originalModel := (← get).model
  modify fun s => if shouldEscalateModel attempt then { s with model := engines.fallbackModel } else s
  note .generate
  let model := (← get).model
  let generatedFiles ← outside
    (engines.generateProject ⟨specification, requirement.targetFolder, repairContext, model⟩)
  modify fun s => { s with model := originalModel }
  return generatedFiles

/-- The part of an attempt behind a gate that has not been passed: the next attempt is prepared, or there is none. -/
def retry (engines : Engines ω) (requirement : Requirement) (attempt : Nat) (artifact : Artifact)
    (sourceFiles : List String) (quality : QualityScore) (history : List AttemptRecord) (carried : Carried) :
    M ω Carried := do
  let antiPatterns ← outside engines.getAntiPatterns
  let code ← (match sourceFiles with
    | [] => pure none
    | path :: _ => outside (engines.readFile (joinPath requirement.targetFolder path)))
  let previousCode := code.getD carried.previousCode
  let context := buildStructuredRepairContext previousCode (errorsOf artifact)
    ((seriousOf artifact).map describeFinding) antiPatterns history (determineStrategy (attempt + 1))
  if attempt = maxAttempts then
    let failures := failureCategories artifact
    modify fun s => { s with metrics := s.metrics.recordOutcome false attempt quality.overall (failures.sort (· ≤ ·)) }
    logAudit "pipeline_failed" "orchestrator" "success" none
    throw (.loopExhausted attempt quality.overall failures)
  else return ⟨some context, some artifact, previousCode, history⟩

/-- One round of the loop; `true` : it ends with `break`. -/
def attempt (engines : Engines ω) (requirement : Requirement) (specification : Specification) (number : Nat)
    (carried : Carried) : M ω (Bool × Carried) := do
  let generatedFiles ← generate engines requirement specification number carried.repairContext
  let sourceFiles := generatedFiles.filter isSource
  let seen ← inspect engines requirement.language requirement.targetFolder sourceFiles
    { requirement, specification, generatedFiles }
  let artifact := seen.1
  note (.judge artifact)
  let quality := computeQualityScore seen.2 artifact.securityFindings generatedFiles
  readAll engines (sourceFiles.map (joinPath requirement.targetFolder))
  let history := carried.attemptHistory ++ [⟨number, determineStrategy number, quality, errorsOf artifact⟩]
  let through ← (if quality.passed then validateArtifact artifact else pure false)
  if through then
    modify fun s => { s with metrics := s.metrics.recordOutcome true number quality.overall [] }
    logAudit "pipeline_success" "orchestrator" "success" none
    return (true, { carried with artifact := some artifact, attemptHistory := history })
  else
    let carried ← retry engines requirement number artifact sourceFiles quality history carried
    return (false, carried)

/-! ## The run -/

/-- `for attempt in …`, from one attempt to the next. -/
def attempts (engines : Engines ω) (requirement : Requirement) (specification : Specification) :
    List Nat → Carried → M ω Carried
  | [], carried => return carried
  | number :: numbers, carried => do
    let (stop, carried) ← attempt engines requirement specification number carried
    if stop then return carried else attempts engines requirement specification numbers carried

/-- The loop over the generated files. -/
def deployAll (engines : Engines ω) (requirement : Requirement) (artifact : Artifact) : List String → M ω Artifact
  | [] => do
    logAudit "deployment_complete" "orchestrator" "success" none
    logAudit "pipeline_success" "orchestrator" "success" none
    return { artifact with status := .deployed }
  | file :: files => do
    let path := joinPath requirement.targetFolder file
    note (.deploy path)
    let record ← outside (engines.deploy path path requirement.language)
    if record.status ≠ .deployed then
      logAudit "deployment_failed" "orchestrator" "success" none
      return { artifact with status := record.status }
    else deployAll engines requirement artifact files

def specify (requirement : Requirement) (architecture : String) (modules : List String) : Specification :=
  { requirement, architecture, modules }

/-- The part of the run behind the loop. -/
def conclude (engines : Engines ω) (requirement : Requirement) : Option Artifact → M ω Artifact
  | none => throw .assertionError
  | some artifact => do
    let (answer, asked) ← requireHumanApproval engines artifact
    note (.approve artifact answer)
    if answer = false then
      logAudit "pipeline_rejected" "orchestrator" "success" (some "Human approval rejected")
      return { asked with status := .rejected }
    else deployAll engines requirement asked asked.generatedFiles

def runPipeline (engines : Engines ω) (requirement : Requirement) (architecture : String) (modules : List String) :
    M ω Artifact := do
  logAudit "pipeline_start" "orchestrator" "success" none
  let specification := specify requirement architecture modules
  let valid ← validateSpecification specification
  if valid = false then
    logAudit "pipeline_failed" "orchestrator" "success" (some "Specification validation failed")
    throw (.valueError "Specification validation failed")
  else
    let carried ← attempts engines requirement specification (List.range' 1 maxAttempts) {}
    conclude engines requirement carried.artifact

end

end Atlas.Agent
