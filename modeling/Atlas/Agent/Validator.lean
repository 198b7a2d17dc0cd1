import Atlas.Agent.CodePatcher
import Atlas.Agent.Pipeline
import Atlas.Lib.Files

/-!
# The validator: `atlas_agent/validator.py`

* `Command`, `Tools` : the programs that the validator starts, and what it asks of the file system and of Python;
* `checkSyntax` : one program for Rust, a parser for Python, a chain of programs for Go;
* `runSecurityScan` : a scanner for each language, and the finding made of its complaints.
-/

namespace Atlas.Agent.Validator
open PyText Files

/-- The arguments of `subprocess.run`; `timeout` in seconds. -/
structure Command where
  words : List String
  cwd : Option Path
  timeout : Nat
  deriving DecidableEq

structure Completed where
  returncode : ℤ
  stdout : String
  stderr : String

/-- What a call of the system raises, with its text. -/
inductive ToolError
  | fileNotFound (text filename : String)
  | timeoutExpired (text : String)
  | other (text : String)

/-- `str(e)` -/
def ToolError.text : ToolError → String
  | fileNotFound text _ => text
  | timeoutExpired text => text
  | other text => text

/-- `parse` : what `ast.parse` says against a source, if anything. -/
structure Tools (ω : Type) where
  run : Command → EStateM ToolError ω Completed
  readSource : String → EStateM ToolError ω String
  view : View ω
  getcwd : Path
  parse : String → Option String

/-! ## Texts -/

/-- A line without what ends it. -/
def dropEnd (line : List Char) : List Char :=
  if ['\r', '\n'].isSuffixOf line then line.dropLast.dropLast
  else if (line.getLast?.any Patcher.isLineBreak) then line.dropLast
  else line

/-- `text.splitlines()` -/
def splitlines (text : String) : List String :=
  (Patcher.linesOf text.toList).map fun line => String.ofList (dropEnd line)

/-- `text.strip()` -/
def stripped (text : String) : String := String.ofList (strip isSpace text.toList)

/-- `text or other` -/
def orElse (text other : String) : String := if text = "" then other else text

section
variable {ω : Type} (tools : Tools ω)

/-! ## Syntax -/

/-- The directory itself, or the one that the file is in. -/
def projectOf (absPath : Path) (isDirectory : Bool) : Path := if isDirectory then absPath else dirname absPath

def projectDir (filePath : String) : EStateM ToolError ω Path := do
  let absPath := abspath tools.getcwd filePath.toList
  return projectOf absPath (tools.view.isdir (← get) absPath)

def rustc (filePath : String) : Command := ⟨["rustc", "--emit=metadata", filePath], none, 30⟩

def gofmt (projectDir : Path) : Command := ⟨["gofmt", "-l", "."], some projectDir, 30⟩

def goVet (projectDir : Path) : Command := ⟨["go", "vet", "./..."], some projectDir, 30⟩

def goTest (projectDir : Path) : Command := ⟨["go", "test", "./..."], some projectDir, 30⟩

def goTestRace (projectDir : Path) : Command := ⟨["go", "test", "-race", "./..."], some projectDir, 30⟩

def goBuild (projectDir : Path) : Command := ⟨["go", "build", "./..."], some projectDir, 30⟩

/-- What a program has come to. -/
def resultOf (result : Completed) : TestResult := ⟨result.returncode = 0, splitlines result.stderr⟩

/-- One program after the other, up to the first that fails. -/
def runChain : List Command → Command → EStateM ToolError ω TestResult
  | [], last => do return resultOf (← tools.run last)
  | command :: commands, last => do
    let result ← tools.run command
    if result.returncode ≠ 0 then return resultOf result
    else runChain commands last

/-- `gofmt` fails with its own complaints, or with the names of files that it would change. -/
def checkGo (filePath : String) : EStateM ToolError ω TestResult := do
  let dir ← projectDir tools filePath
  let format ← tools.run (gofmt dir)
  if format.returncode ≠ 0 then return resultOf format
  else if stripped format.stdout ≠ "" then return ⟨false, ["Go source is not gofmt-formatted"]⟩
  else runChain tools [goVet dir, goTest dir, goTestRace dir] (goBuild dir)

def checkPython (filePath : String) : EStateM ToolError ω TestResult := do
  match tools.parse (← tools.readSource filePath) with
  | none => return ⟨true, []⟩
  | some text => return ⟨false, [text]⟩

def check (filePath : String) : Language → EStateM ToolError ω TestResult
  | .python => checkPython tools filePath
  | .rust => do return resultOf (← tools.run (rustc filePath))
  | .go => checkGo tools filePath

/-- What is raised becomes a result that has not passed. -/
def checkSyntax (filePath : String) (language : Language) : EStateM String ω TestResult :=
  EStateM.adaptExcept ToolError.text
    (tryCatch (check tools filePath language) fun e => return ⟨false, [e.text]⟩)

/-! ## Security -/

/-- What the scan raises, but for the call of a program. -/
inductive ScanError
  | tool (e : ToolError)
  | invalid (text : String)

/-- No leading slash, and no drive in front of the first one. -/
def isRelative (path : String) : Bool :=
  !path.startsWith "/" && !(':' ∈ path.toList.takeWhile (· ≠ '/') && !path.startsWith "./")

def displayPath (filePath baseDir : String) : String :=
  if baseDir ≠ "" ∧ filePath.startsWith "/" then String.ofList (relpath tools.getcwd filePath.toList baseDir.toList)
  else filePath

/-- A finding about a file; the model refuses an empty path and one that is not relative. -/
def newFinding (finding : SecurityFinding) (path : String) : EStateM ScanError ω (List SecurityFinding) :=
  if path = "" then throw (.invalid "String should have at least 1 character")
  else if isRelative path then return [finding]
  else throw (.invalid ("Value error, file_path must be relative, got absolute: " ++ path))

/-- A call of a program, within the scan. -/
def start (command : Command) : EStateM ScanError ω Completed := EStateM.adaptExcept .tool (tools.run command)

def bandit (filePath : String) : Command := ⟨["bandit", "-r", filePath], none, 30⟩

def clippy (projectDir : Path) : Command := ⟨["cargo", "clippy", "--", "-D", "warnings"], some projectDir, 120⟩

def scanPython (filePath path : String) : EStateM ScanError ω (List SecurityFinding) := do
  let result ← start tools (bandit filePath)
  if result.returncode ≠ 0 then
    newFinding ⟨.medium, "security_scan", "Bandit scan found issues",
      orElse (stripped result.stderr) "Review Bandit output"⟩ path
  else return []

/-- Complaints about dependencies. -/
def resolutionErrors : List String :=
  ["no required module", "cannot find package", "build constraints exclude", "missing go.mod"]

def isRealError (line : String) : Bool :=
  resolutionErrors.all (fun text => !decide (text.toList <:+: line.toList)) && stripped line ≠ ""

def scanGo (filePath baseDir path : String) : EStateM ScanError ω (List SecurityFinding) := do
  let s ← get
  let absPath := abspath tools.getcwd filePath.toList
  let dir := if baseDir ≠ "" then baseDir.toList else projectOf absPath (tools.view.isdir s absPath)
  if tools.view.exist s (join dir "go.mod".toList) = false then return []
  else
    let result ← start tools (goVet dir)
    let realErrors := (splitlines result.stderr).filter isRealError
    if result.returncode ≠ 0 ∧ realErrors ≠ [] then
      newFinding ⟨.high, "go_security_validation", "Go vet reported issues",
        orElse ("\n".intercalate (realErrors.take 5)) "Review go vet output"⟩ path
    else return []

def scanRust (filePath path : String) : EStateM ScanError ω (List SecurityFinding) := do
  let absPath := abspath tools.getcwd filePath.toList
  let result ← start tools (clippy (projectOf absPath (tools.view.isdir (← get) absPath)))
  if result.returncode ≠ 0 then
    newFinding ⟨.high, "rust_clippy", "Cargo clippy reported warnings/errors",
      orElse (orElse (stripped result.stdout) (stripped result.stderr)) "Review cargo clippy output"⟩ path
  else return []

def ScanError.raised (filePath : String) (language : Language) : ScanError → String
  | tool (.fileNotFound _ filename) =>
    "Required security scanner is unavailable for " ++ language.value ++ ": " ++ filename
  | tool (.timeoutExpired _) => "Security scan timed out for " ++ language.value ++ ": " ++ filePath
  | tool (.other text) => text
  | invalid text => text

def scan (filePath baseDir : String) : Language → EStateM ScanError ω (List SecurityFinding)
  | .python => scanPython tools filePath (displayPath tools filePath baseDir)
  | .go => scanGo tools filePath baseDir (displayPath tools filePath baseDir)
  | .rust => scanRust tools filePath (displayPath tools filePath baseDir)

def runSecurityScan (filePath : String) (language : Language) (baseDir : String) :
    EStateM String ω (List SecurityFinding) :=
  EStateM.adaptExcept (ScanError.raised filePath language) (scan tools filePath baseDir language)

end

end Atlas.Agent.Validator
