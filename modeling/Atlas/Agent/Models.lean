import Atlas.Lib.PyText

/-!
# The data of the agent: `atlas_agent/models.py`

The fields that the pipeline reads or sets.

* `Requirement`, `Specification` : what is asked for; `Artifact` : what an attempt has made of it;
* `TestResult`, `SecurityFinding` : what the validator says about a file;
* `DeploymentRecord` : how the deployment of a file ended.
-/

namespace Atlas.Agent

inductive Language
  | python
  | rust
  | go
  deriving DecidableEq, Repr

def Language.value : Language → String
  | .python => "python"
  | .rust => "rust"
  | .go => "go"

inductive SecurityLevel
  | critical
  | high
  | medium
  | low
  | info
  deriving DecidableEq, Repr

def SecurityLevel.value : SecurityLevel → String
  | .critical => "critical"
  | .high => "high"
  | .medium => "medium"
  | .low => "low"
  | .info => "info"

inductive ApprovalStatus
  | pending
  | approved
  | rejected
  | deployed
  | deployFailed
  | rolledBack
  deriving DecidableEq, Repr

def ApprovalStatus.value : ApprovalStatus → String
  | .pending => "pending"
  | .approved => "approved"
  | .rejected => "rejected"
  | .deployed => "deployed"
  | .deployFailed => "deploy_failed"
  | .rolledBack => "rolled_back"

structure Requirement where
  description : String
  language : Language
  projectName : String
  targetFolder : String
  deriving DecidableEq

/-- A module by its name. -/
structure Specification where
  requirement : Requirement
  architecture : String
  modules : List String
  deriving DecidableEq

structure SecurityFinding where
  severity : SecurityLevel
  category : String
  message : String
  suggestion : String
  deriving DecidableEq

structure TestResult where
  passed : Bool
  errors : List String
  deriving DecidableEq

structure Artifact where
  requirement : Requirement
  specification : Specification
  generatedFiles : List String
  securityFindings : List SecurityFinding := []
  testResults : List TestResult := []
  status : ApprovalStatus := .pending
  deriving DecidableEq

structure DeploymentRecord where
  targetPath : String
  status : ApprovalStatus
  backupPath : Option String
  rollbackReason : Option String
  deriving DecidableEq

end Atlas.Agent
