import Atlas.Agent.LearningMemory
import Atlas.Agent.PrivacyGuard
import Atlas.Lib.Files

/-!
# The generator: `atlas_agent/generator.py`

* `buildContext`, `prompt`, `testPrompt` : the texts for the language model;
* `cleanCode` : what is kept of its answer;
* `Surroundings` : the model, the files and the file of the memory, as calls on a world `ω` outside;
* `generateProject` : one file for each module, tests for Go, and the manifest.
-/

namespace Atlas.Agent.Generator
open Raising Regex Files Memory

/-- What is read of a specification; a module is given by its name, if it has one. -/
structure Spec where
  language : Language
  projectName : String
  description : String
  architecture : String
  modules : List (Option String)

/-- `spec.modules or [{"name": "main"}]` -/
def Spec.allModules (spec : Spec) : List (Option String) :=
  if spec.modules = [] then [some "main"] else spec.modules

/-! ## Prompts -/

section
variable (tables : Tables) (printable : Char → Bool)

def approvedLine (e : Experience) : String :=
  "  - [" ++ e.artifact.module ++ "] score=" ++ PyText.fixed2 e.outcome.qualityScore ++ " reason='" ++
    e.outcome.reason ++ "'"

def rejectedLine (e : Experience) : String :=
  "  - reason='" ++ e.outcome.reason ++ "' anti_patterns=" ++ PyText.reprList printable e.antiPatterns

def antiPatternsLine (antiPatterns : List String) : String :=
  "ANTI-PATTERNS TO AVOID: " ++ ", ".intercalate antiPatterns

/-- A headline and the lines below it, if there are any. -/
def block (headline : String) (lines : List String) : List String := if lines = [] then [] else headline :: lines

/-- The lines of `_build_context`. -/
def contextLines (memory : LearningMemory) (language module : String) : List String :=
  block "APPROVED PATTERNS (follow these):" ((memory.getPositive language module 2).map approvedLine) ++
    block "REJECTED PATTERNS (DO NOT repeat):" ((memory.getNegative language 2).map (rejectedLine printable)) ++
    if memory.antiPatterns = ∅ then [] else [antiPatternsLine (memory.antiPatterns.sort (· ≤ ·))]

/-- `_build_context` -/
def buildContext (memory : LearningMemory) (language module : String) : String :=
  "\n".intercalate (contextLines printable memory language module)

def rules (language : Language) : String :=
  "RULES: Production-grade only. Include error handling. " ++ "No floats in financial calculations. " ++
    "Provide ONLY complete source code. No markdown, no explanations." ++
    if language = .go then " Use ONLY Go standard library packages. Do NOT import external dependencies." else ""

def repairSection (repairContext : Option String) : String :=
  match repairContext with
  | none => ""
  | some text =>
    if text = "" then ""
    else "\nPREVIOUS ATTEMPT FAILED. Fix these errors:\n" ++ sanitize tables text ++ "\n"

def targetModule (spec : Spec) (name : String) : String := spec.projectName ++ "/" ++ name

/-- `prompt_parts`, for the module with the name. -/
def promptParts (spec : Spec) (name : String) (memory : LearningMemory) (repairContext : Option String) :
    List String :=
  let memoryContext := buildContext printable memory spec.language.value (targetModule spec name)
  ["Generate a complete " ++ spec.language.value ++ " source file for module '" ++ name ++ "'.",
    "Project: " ++ spec.projectName,
    "Requirement: " ++ sanitize tables spec.description,
    "Architecture: " ++ sanitize tables spec.architecture,
    "All modules: " ++ ", ".intercalate (spec.allModules.map (·.getD ""))] ++
  (if memoryContext ≠ "" then ["\n" ++ memoryContext] else []) ++
  (if repairSection tables repairContext ≠ "" then [repairSection tables repairContext] else []) ++
  [rules spec.language]

def prompt (spec : Spec) (name : String) (memory : LearningMemory) (repairContext : Option String) : String :=
  "\n".intercalate (promptParts tables printable spec name memory repairContext)

end

def testPrompt (mainCode : String) : String :=
  "Generate ONLY Go table-driven tests for this code.\n" ++
  "Same package. Use func TestXxx(t *testing.T) with []struct.\n" ++
  "Cover success and error paths. Import only testing and time.\n" ++
  "ONLY the test code. No markdown.\n\n" ++
  "Source code:\n" ++ mainCode

/-! ## Answers -/

def isLineStart (before _behind : Option Char) : Bool := before = none || before = some '\n'

def isLineEnd (_before behind : Option Char) : Bool := behind = none || behind = some '\n'

/-- The three characters of a fence, with `ps` behind them. -/
def fenced (ps : List Piece) : Pattern where
  pieces := .assert isLineStart :: .one (· = '`') :: .one (· = '`') :: .one (· = '`') :: ps
  consumes before behind h := by
    obtain ⟨c, v, hcv, -⟩ := matches_one.mp h.2
    cases hcv

/-- `^```\w*\s*` -/
def openingFence (tables : Tables) : Pattern := fenced [.star tables.isWord, .star PyText.isSpace]

/-- `^```\s*$` -/
def closingFence : Pattern := fenced [.star PyText.isSpace, .assert isLineEnd]

/-- `_clean_code` -/
def cleanCode (tables : Tables) (code : String) : String :=
  String.ofList (PyText.strip PyText.isSpace (closingFence.sub [] ((openingFence tables).sub [] code.toList)))

/-- `text.rstrip() + "\n"` -/
def finished (text : String) : String := String.ofList (text.toList.rdropWhile PyText.isSpace) ++ "\n"

/-! ## The project -/

inductive Failure
  | runtimeError (text : String)
  | other (text : String)

/-- `model`, `stamp` : the name of the model, and the id and the time of a new experience; `appendLine` : the write to
the file of the memory; `promptHash` : the start of the hash of a prompt. -/
structure Surroundings (ω : Type) where
  tables : Tables
  printable : Char → Bool
  cwd : Path
  promptHash : String → String
  makedirs : Path → EStateM Failure ω Unit
  writeText : Path → String → EStateM Failure ω Unit
  readText : Path → EStateM Failure ω String
  exist : Path → EStateM Failure ω Bool
  generateCode : String → String → EStateM Failure ω String
  model : EStateM Failure ω String
  stamp : EStateM Failure ω (String × String)
  appendLine : Experience → EStateM Failure ω Unit

/-- What a prompt is made from: the name of a module, with the memory as it is then; or the code of a file. -/
inductive Subject
  | module (name : String) (memory : LearningMemory)
  | tests (mainCode : String)

/-- `prompts` keeps account of what has been passed to `generate_code`. -/
structure State (ω : Type) where
  outside : ω
  memory : LearningMemory
  prompts : List (Subject × String)

section
variable {ω α : Type}

abbrev M (ω α : Type) := EStateM Failure (State ω) α

/-- A call of something outside. -/
def outside (call : EStateM Failure ω α) : M ω α := fun s =>
  match call.run s.outside with
  | .ok a o => .ok a { s with outside := o }
  | .error e o => .error e { s with outside := o }

variable (surroundings : Surroundings ω)

/-- `self.llm.generate_code` -/
def generateCode (subject : Subject) (prompt language : String) : M ω String := do
  modify fun s => { s with prompts := s.prompts ++ [(subject, prompt)] }
  outside (surroundings.generateCode prompt language)

/-- `memory.record` -/
def record (source : Source) (method : Method) (artifact : Memory.Artifact) (decision : Decision) (reason : String)
    (qualityScore : ℚ) (antiPatterns : List String) : M ω Unit := do
  let (id, ts) ← outside surroundings.stamp
  let e := LearningMemory.newExperience id ts source method artifact decision reason qualityScore antiPatterns
  modify fun s => { s with memory := s.memory.learn decision antiPatterns }
  outside (surroundings.appendLine e)
  modify fun s => { s with memory := s.memory.store e }

def getExtension : Language → Path
  | .python => "py".toList
  | .rust => "rs".toList
  | .go => "go".toList

/-- The path of the module's file; a directory for the sources of Rust is made. -/
def filePath (targetDir : Path) (language : Language) (name : String) : M ω Path := do
  let file := name.toList ++ '.' :: getExtension language
  if language = .rust then
    outside (surroundings.makedirs (join targetDir "src".toList))
    return join (join targetDir "src".toList) file
  else return join targetDir file

/-- One round of the loop over the modules. -/
def generateModule (spec : Spec) (targetDir : Path) (repairContext : Option String) (module : Option String) :
    M ω Path := do
  let name := module.getD "main"
  let memory := (← get).memory
  let prompt := prompt surroundings.tables surroundings.printable spec name memory repairContext
  let response ← generateCode surroundings (.module name memory) prompt spec.language.value
  let path ← filePath surroundings targetDir spec.language name
  outside (surroundings.writeText path (finished (cleanCode surroundings.tables response)))
  let model ← outside surroundings.model
  let sources := (memory.getPositive spec.language.value (targetModule spec name) 3).map (·.id)
  record surroundings ⟨"groq", model, surroundings.promptHash prompt⟩ ⟨sources, 2 / 10⟩
    ⟨spec.language.value, targetModule spec name, ["llm-invocation-v1.json", "security-policy.yaml"]⟩ .approved
    "auto-generated, pending human review" (1 / 2) []
  return relpath surroundings.cwd path targetDir

def generateModules (spec : Spec) (targetDir : Path) (repairContext : Option String) :
    List (Option String) → M ω (List Path)
  | [] => return []
  | module :: modules => do
    let file ← generateModule surroundings spec targetDir repairContext module
    let files ← generateModules spec targetDir repairContext modules
    return file :: files

/-! ### Tests for Go -/

def isTestable (file : Path) : Bool := ".go".toList.isSuffixOf file && !"_test.go".toList.isSuffixOf file

/-- `.go`, as it is replaced. -/
def goSuffix : Pattern where
  pieces := [.one (· = '.'), .one (· = 'g'), .one (· = 'o')]
  consumes before behind h := by
    obtain ⟨c, v, hcv, -⟩ := matches_one.mp h
    cases hcv

/-- `rel_path.replace(".go", "_test.go")` -/
def testFile (file : Path) : Path := goSuffix.sub "_test.go".toList file

theorem matches_goSuffix {before behind : Option Char} {w : List Char} (h : Matches goSuffix.pieces before w behind) :
    w = ".go".toList := by
  obtain ⟨a, u, rfl, ha, hu⟩ := matches_one.mp h
  obtain ⟨b, v, rfl, hb, hv⟩ := matches_one.mp hu
  obtain ⟨c, rest, rfl, hc, hnil⟩ := matches_one.mp hv
  rw [of_decide_eq_true ha, of_decide_eq_true hb, of_decide_eq_true hc, show rest = [] from hnil]
  rfl

theorem suffix_of_replaces {repl : List Char} {before : Option Char} {s out : List Char}
    (h : Replaces goSuffix.pieces repl before s out) (hs : ".go".toList <:+ s) : repl <:+ out := by
  induction h with
  | nil => exact absurd (List.suffix_nil.mp hs) (by decide)
  | @keep before c s out hnot _ ih =>
    rcases List.suffix_cons_iff.mp hs with heq | hs
    · refine absurd ⟨".go".toList, [], ?_, ?_⟩ hnot
      · rw [← heq, List.append_nil]
      · simp only [goSuffix, matches_one]
        exact ⟨'.', _, rfl, rfl, 'g', _, rfl, rfl, 'o', _, rfl, rfl, rfl⟩
    · exact (ih hs).trans (List.suffix_cons _ _)
  | @cut before w s out _ hw hout ih =>
    obtain rfl := matches_goSuffix hw
    obtain ⟨t, ht⟩ := hs
    -- what ends in `.go` behind a match is the match or goes on behind it
    rcases t with _ | ⟨_, _ | ⟨_, _ | ⟨_, t⟩⟩⟩
    · obtain rfl : s = [] := by simpa using ht.symm
      rw [hout.eq_nil, List.append_nil]
    · simp at ht
    · simp at ht
    · have hs : t ++ ".go".toList = s := (List.cons.inj (List.cons.inj (List.cons.inj ht).2).2).2
      exact (ih ⟨t, hs⟩).trans (List.suffix_append _ _)

theorem not_isTestable_testFile {file : Path} (h : isTestable file = true) : isTestable (testFile file) = false := by
  unfold isTestable at h ⊢
  have hfile : ".go".toList <:+ file := by simpa using (Bool.and_eq_true_iff.mp h).1
  have htest : "_test.go".toList <:+ testFile file := suffix_of_replaces (goSuffix.replaces_sub file) hfile
  rw [List.isSuffixOf_iff_suffix.mpr htest, Bool.not_true, Bool.and_false]

/-- The tests of one file, unless the model fails with a `RuntimeError`. -/
def generateTests (targetDir : Path) (file : Path) : M ω (List Path) := do
  if isTestable file = false then return []
  else
    let mainCode ← outside (surroundings.readText (join targetDir file))
    tryCatch
      (do
        let code ← generateCode surroundings (.tests mainCode) (testPrompt mainCode) "go"
        outside (surroundings.writeText (join targetDir (testFile file)) (finished code))
        return [testFile file])
      fun e => match e with
        | .runtimeError _ => return []
        | .other text => throw (.other text)

/-- The loop over the files, which goes on with those it adds; it passes over them (`generateAllTests_added`). -/
def generateAllTests (targetDir : Path) : List Path → M ω (List Path)
  | [] => return []
  | file :: files => do
    let added ← generateTests surroundings targetDir file
    let rest ← generateAllTests targetDir files
    return added ++ rest

section
variable {surroundings} {targetDir : Path}

theorem wp_generateTests_added (file : Path) (s : State ω) : wp (generateTests surroundings targetDir file)
    (fun added _ => ∀ test ∈ added, isTestable test = false) (fun _ _ => True) s := by
  rw [generateTests, wp_ite]
  refine ⟨fun _ => nofun, fun htestable => ?_⟩
  have htest := not_isTestable_testFile (Bool.eq_true_of_not_eq_false htestable)
  rw [wp_bind]
  refine wp_mono (wp_run _ _) (fun mainCode s₁ _ => ?_) fun _ _ _ => trivial
  rw [wp_tryCatch, wp_bind]
  refine wp_mono (wp_run _ _) (fun code s₂ _ => ?_) fun e s₂ _ => ?_
  · rw [wp_bind]
    refine wp_mono (wp_run _ _) (fun _ s₃ _ => ?_) fun e s₃ _ => ?_
    · exact fun test hmem => (List.mem_singleton.mp hmem) ▸ htest
    · cases e with
      | runtimeError text => exact nofun
      | other text => trivial
  · cases e with
    | runtimeError text => exact nofun
    | other text => trivial

theorem wp_generateAllTests_added (files : List Path) (s : State ω) : wp (generateAllTests surroundings targetDir files)
    (fun added _ => ∀ test ∈ added, isTestable test = false) (fun _ _ => True) s := by
  induction files generalizing s with
  | nil => exact nofun
  | cons file files ih =>
    rw [generateAllTests, wp_bind]
    refine wp_mono (wp_generateTests_added file s) (fun added s₁ hadded => ?_) fun _ _ h => h
    rw [wp_bind]
    refine wp_mono (ih s₁) (fun rest s₂ hrest test hmem => ?_) fun _ _ h => h
    exact (List.mem_append.mp hmem).elim (hadded test) (hrest test)

theorem generateAllTests_untestable {files : List Path} (h : ∀ file ∈ files, isTestable file = false) :
    generateAllTests surroundings targetDir files = pure [] := by
  induction files with
  | nil => rfl
  | cons file files ih =>
    obtain ⟨hfile, hfiles⟩ := List.forall_mem_cons.mp h
    rw [generateAllTests, generateTests, if_pos hfile, ih hfiles]
    rfl

/-- What the loop adds makes no difference to it. -/
theorem generateAllTests_added (files : List Path) :
    (do let added ← generateAllTests surroundings targetDir files
        let more ← generateAllTests surroundings targetDir added
        return added ++ more) = generateAllTests surroundings targetDir files := by
  funext s
  show EStateM.run _ s = EStateM.run _ s
  have hadded := @wp_generateAllTests_added _ surroundings targetDir files s
  rw [EStateM.run_bind]
  cases hrun : (generateAllTests surroundings targetDir files).run s with
  | ok added s' =>
    rw [wp_of_run_ok hrun] at hadded
    dsimp only
    rw [generateAllTests_untestable hadded, pure_bind, List.append_nil]
    rfl
  | error e s' => rfl

end

/-! ### Manifests -/

def manifest (spec : Spec) : Option (Path × String) :=
  match spec.language with
  | .python => none
  | .go => some ("go.mod".toList, "module " ++ spec.projectName ++ "\n\ngo 1.22\n")
  | .rust => some ("Cargo.toml".toList,
      "[package]\nname = \"" ++ spec.projectName ++ "\"\n" ++ "version = \"0.1.0\"\nedition = \"2021\"\n")

def writeManifest (spec : Spec) (targetDir : Path) : M ω (List Path) := do
  match manifest spec with
  | none => return []
  | some (name, text) =>
    let path := join targetDir name
    if ← outside (surroundings.exist path) then
      return [relpath surroundings.cwd path targetDir]
    else
      outside (surroundings.writeText path text)
      return [relpath surroundings.cwd path targetDir]

def generateProject (spec : Spec) (targetDir : Path) (repairContext : Option String) : M ω (List Path) := do
  outside (surroundings.makedirs targetDir)
  let files ← generateModules surroundings spec targetDir repairContext spec.allModules
  let tests ← (if spec.language = .go then generateAllTests surroundings targetDir files else pure [])
  let manifests ← writeManifest surroundings spec targetDir
  return files ++ tests ++ manifests

end

end Atlas.Agent.Generator
