import Atlas.Lib.Location
import Atlas.Specgen.Generators

/-!
# The pipeline: `generator.rs`, `template_selector.rs`, `readme_generator.rs`, `filesystem.rs`, `project.rs` and
`main.rs` in `tools/specgen/src`

* `FileSystem` : the calls of `std::fs`, any of which may fail;
* `generate` : the files of a module, one after the other; `specgen` : the program, from the metadata file on;
* `computeLayout` : the files that a module is said to have;
* `Template`, `Writes` : the text of a template, and a file that is written, from one world to the next; `Found` : the
  templates that a run comes to;
* `Stopped` : where a run that fails has stopped; `wp_generate`;
* `specgen_settles` : a run writes the layout, or an initial part of it.
-/

namespace Atlas.Specgen
open Raising Files

/-! ## Paths -/

/-- What `Components` leaves out at the end of a path, from its last character on: slashes, and `.` behind a slash. -/
def trimEnd : Path → Path
  | '/' :: rest => if rest.isEmpty then ['/'] else trimEnd rest
  | '.' :: '/' :: rest => if rest.isEmpty then ['/'] else trimEnd rest
  | path => path

/-- `Path::parent` -/
def parent (path : Path) : Option Path :=
  let path := (trimEnd path.reverse).reverse
  if path = [] ∨ path = ['/'] then none else some (trimEnd (path.rdropWhile (· ≠ '/')).reverse).reverse

example : parent "out/src/core.rs".toList = some "out/src".toList := by decide
example : parent "core.py".toList = some [] := by decide

def languageDir : Language → Path
  | .python => "python".toList
  | .rust => "rust".toList
  | .go => "go".toList

def languageExt : Language → Path
  | .python => "py".toList
  | .rust => "rs".toList
  | .go => "go".toList

def selectTemplate (templatesDir : Path) (language : Language) (artifact : ArtifactKind) : Path :=
  let filename : Path := match artifact with
    | .module => "module".toList
    | .service => "service".toList
    | .agent => "agent".toList
    | _ => "module".toList
  join (join templatesDir (languageDir language)) (filename ++ '.' :: languageExt language)

def selectTestTemplate (templatesDir : Path) (language : Language) : Path :=
  join (join templatesDir (languageDir language)) ("test.".toList ++ languageExt language)

def computeMainPath (module : ModuleMetadata) (outputDir : Path) : Path :=
  match module.language with
  | .python => join outputDir (module.name ++ ".py".toList)
  | .rust => join (join outputDir "src".toList) (module.name ++ ".rs".toList)
  | .go => join outputDir (module.name ++ ".go".toList)

def computeTestPath (module : ModuleMetadata) (outputDir : Path) : Path :=
  match module.language with
  | .python => join outputDir ("test_".toList ++ module.name ++ ".py".toList)
  | .rust => join (join outputDir "src".toList) (module.name ++ "_test.rs".toList)
  | .go => join outputDir (module.name ++ "_test.go".toList)

/-- The files of a module, for callers that have to predict them. -/
def computeLayout (module : ModuleMetadata) (outputDir : Path) : List Path :=
  (match module.language with
    | .python => [join outputDir (module.name ++ ".py".toList),
        join outputDir ("test_".toList ++ module.name ++ ".py".toList)]
    | .rust => [join (join outputDir "src".toList) (module.name ++ ".rs".toList),
        join (join outputDir "src".toList) (module.name ++ "_test.rs".toList), join outputDir "Cargo.toml".toList]
    | .go => [join outputDir (module.name ++ ".go".toList), join outputDir (module.name ++ "_test.go".toList),
        join outputDir "go.mod".toList]) ++
    [join outputDir "README.md".toList]

/-! ## Texts -/

/-- Minimal scaffold when no template file exists. -/
def generateFallback (module : ModuleMetadata) : Text :=
  let contract := generateContractBlock module module.language.asStr
  match module.language with
  | .python => contract ++ "\n\"\"\"".toList ++ module.purpose ++ ("\"\"\"\n\n\ndef main() -> None:\n" ++
      "    \"\"\"Entry point.\"\"\"\n    pass\n\n\nif __name__ == \"__main__\":\n    main()\n").toList
  | .rust => contract ++ "\n/// ".toList ++ module.purpose ++
      "\npub fn main() \x7b\n    // TODO: implement\n\x7d\n".toList
  | .go => contract ++ "\npackage ".toList ++ module.name ++ "\n\n// ".toList ++ module.purpose ++
      "\nfunc main() \x7b\n\t// TODO: implement\n\x7d\n".toList

/-- `toUppercase` is `char::to_uppercase`. -/
def toPascalCase (toUppercase : Char → Text) (snake : Text) : Text :=
  ((snake.splitOn '_').map fun part => match part with
    | [] => []
    | c :: chars => toUppercase c ++ chars).flatten

/-- Minimal test scaffold when no template file exists. -/
def generateTestFallback (toUppercase : Char → Text) (module : ModuleMetadata) : Text :=
  match module.language with
  | .python => "\"\"\"Tests for ".toList ++ module.name ++ ".\"\"\"\nimport unittest\n\n\nclass Test".toList ++
      toPascalCase toUppercase module.name ++ ("(unittest.TestCase):\n    def test_placeholder(self) -> None:\n" ++
      "        self.assertTrue(True)\n\n\nif __name__ == \"__main__\":\n    unittest.main()\n").toList
  | .rust => ("#[cfg(test)]\nmod tests \x7b\n#[test]\nfn placeholder() \x7b\nassert!(true);\n" ++ "\x7d\n\x7d\n").toList
  | .go => "package ".toList ++ module.name ++
      "\n\nimport \"testing\"\n\nfunc TestPlaceholder(t *testing.T) \x7b\n\t// TODO: implement\n\x7d\n".toList

/-- One section of the README: each entry between two marks, one on a line. -/
def readmeList (front back : Text) (entries : List Text) : Text :=
  if entries.isEmpty then "_None declared._".toList
  else "\n".toList.intercalate (entries.map fun entry => front ++ entry ++ back)

def generateReadme (module : ModuleMetadata) : Text :=
  ["# ".toList, module.name, "\n\n> **Generated by Atlas AI SpecGen**\n\n| Field | Value |\n|-------|-------|\n".toList,
    "| **Specification** | `".toList, module.specificationId, "` |\n".toList,
    "| **Artifact** | `".toList, module.artifact.asStr, "` |\n".toList,
    "| **Language** | `".toList, module.language.asStr, "` |\n".toList,
    "| **Profile** | `".toList, module.profile.asStr, "` |\n".toList,
    "| **Owner** | ".toList, module.owner, " |\n\n## Purpose\n\n".toList,
    module.purpose, "\n\n## Responsibilities\n\n".toList,
    readmeList "- ".toList [] module.responsibilities, "\n\n## Forbidden\n\n".toList,
    readmeList "- ❌ ".toList [] module.forbidden, "\n\n## Dependencies\n\n".toList,
    readmeList "- `".toList "`".toList module.dependencies,
    "\n\n---\n_Governed by Atlas AI Governance Framework_\n".toList].flatten

def generateCargoToml (module : ModuleMetadata) : Text :=
  "[package]\nname = \"".toList ++ module.name ++
    "\"\nversion = \"0.1.0\"\nedition = \"2021\"\ndescription = \"".toList ++ module.purpose ++
    "\"\nlicense = \"MIT\"\npublish = false\n\n[dependencies]\n".toList

/-- Generates a minimal go.mod file. -/
def generateGoMod (module : ModuleMetadata) : Text :=
  "// Governed by: ".toList ++ module.specificationId ++ "\n// Owner: ".toList ++ module.owner ++ "\nmodule ".toList ++
    module.name ++ "\n\ngo 1.22\n".toList

/-! ## The file system -/

inductive SpecgenError
  | metadataRead (path : Path) (source : String)
  | metadataParse (path : Path) (message : String)
  | metadataValidation (reason : Text)
  | templateRead (path : Path) (source : String)
  | directoryCreate (path : Path) (source : String)
  | fileWrite (path : Path) (source : String)

/-- `std::fs`; a call that fails has the text of its error. -/
structure FileSystem (ω : Type) where
  exist : Path → ω → Bool
  readToString : Path → EStateM String ω Text
  createDirAll : Path → EStateM String ω Unit
  write : Path → Text → EStateM String ω Unit

/-- `opened` : what `fs::write` has been called with, in order: history, which no step reads. -/
structure Disk (ω : Type) where
  outside : ω
  opened : List (Path × Text)

section
variable {ω α : Type} (fileSystem : FileSystem ω)

def attempt (call : EStateM String ω α) (error : String → SpecgenError) : EStateM SpecgenError (Disk ω) α := fun s =>
  match call.run s.outside with
  | .ok a o => .ok a ⟨o, s.opened⟩
  | .error source o => .error (error source) ⟨o, s.opened⟩

/-- Ensures the parent directory of a file path exists. -/
def ensureParentDir (path : Path) : EStateM SpecgenError (Disk ω) Unit :=
  match parent path with
  | some dir => attempt (fileSystem.createDirAll dir) (.directoryCreate dir)
  | none => pure ()

/-- Writes content to a file, creating parent directories as needed. -/
def writeFile (path : Path) (content : Text) : EStateM SpecgenError (Disk ω) Unit := do
  ensureParentDir fileSystem path
  modify fun s => ⟨s.outside, s.opened ++ [(path, content)]⟩
  attempt (fileSystem.write path content) (.fileWrite path)

def loadTemplate (path : Path) : EStateM SpecgenError (Disk ω) Text :=
  attempt (fileSystem.readToString path) (.templateRead path)

/-! ## Generation -/

/-- An order in which a map is gone through. -/
abbrev Vars.Order (vars : Vars) : Type := { order : List (Text × Text) // order.Perm vars.entries }

/-- The orders of a run: of the header and of the body, in the module and in its test. -/
structure Orders (module : ModuleMetadata) where
  mainHeader : (headerVars module.language module).Order
  mainBody : (buildVars module).Order
  testHeader : (headerVars module.language module).Order
  testBody : (buildVars module).Order

/-- The template at the path, or the fallback. -/
def templateContent (path : Path) (fallback : Text) : EStateM SpecgenError (Disk ω) Text := do
  let s ← get
  if fileSystem.exist path s.outside then loadTemplate fileSystem path else pure fallback

variable (toUppercase : Char → Text) (module : ModuleMetadata) (orders : Orders module)

def generateMain (templatesDir : Path) : EStateM SpecgenError (Disk ω) Text := do
  let content ← templateContent fileSystem (selectTemplate templatesDir module.language module.artifact)
    (generateFallback module)
  return generateModule module.language content orders.mainHeader.1 orders.mainBody.1

def generateTest (templatesDir : Path) : EStateM SpecgenError (Disk ω) Text := do
  let content ← templateContent fileSystem (selectTestTemplate templatesDir module.language)
    (generateTestFallback toUppercase module)
  return generateModule module.language content orders.testHeader.1 orders.testBody.1

/-- The files that were written. -/
def generate (outputDir templatesDir : Path) : EStateM SpecgenError (Disk ω) (List Path) := do
  let mainContent ← generateMain fileSystem module orders templatesDir
  let mainPath := computeMainPath module outputDir
  writeFile fileSystem mainPath mainContent
  let testContent ← generateTest fileSystem toUppercase module orders templatesDir
  let testPath := computeTestPath module outputDir
  writeFile fileSystem testPath testContent
  let readmePath := join outputDir "README.md".toList
  writeFile fileSystem readmePath (generateReadme module)
  match module.language with
  | .rust => do
    let cargoPath := join outputDir "Cargo.toml".toList
    writeFile fileSystem cargoPath (generateCargoToml module)
    return [mainPath, testPath, readmePath, cargoPath]
  | .go => do
    let goModPath := join outputDir "go.mod".toList
    writeFile fileSystem goModPath (generateGoMod module)
    return [mainPath, testPath, readmePath, goModPath]
  | .python => return [mainPath, testPath, readmePath]

end

/-! ## The program -/

structure Cli where
  metadata : Path
  output : Path
  templates : Option Path

/-- What the program is run in: `toml::from_str`, `current_exe`, `char::to_uppercase`, and the orders of its maps. -/
structure Setting where
  parse : Text → Except String ModuleMetadata
  currentExe : Option Path
  toUppercase : Char → Text
  orders : (module : ModuleMetadata) → Orders module

def Setting.templatesDir (setting : Setting) (cli : Cli) : Path :=
  cli.templates.getD (((setting.currentExe.bind parent).map fun dir => join dir "templates".toList).getD
    "templates".toList)

section
variable {ω : Type} (fileSystem : FileSystem ω) (setting : Setting)

def Metadata.load (path : Path) : EStateM SpecgenError (Disk ω) ModuleMetadata := do
  let content ← attempt (fileSystem.readToString path) (.metadataRead path)
  match setting.parse content with
  | .ok module => return module
  | .error message => throw (.metadataParse path message)

/-- `main`: the module, and the files that were written for it. -/
def specgen (cli : Cli) : EStateM SpecgenError (Disk ω) (ModuleMetadata × List Path) := do
  let module ← Metadata.load fileSystem setting cli.metadata
  match validate module with
  | .error reason => throw (.metadataValidation reason)
  | .ok () => do
    let filesWritten ← generate fileSystem setting.toUppercase module (setting.orders module) cli.output
      (setting.templatesDir cli)
    return (module, filesWritten)

end

/-! ## What a run writes -/

section
variable (module : ModuleMetadata) (outputDir : Path)

/-- What a language has beside the module, its test and the README. -/
def extras : List (Path × Text) :=
  match module.language with
  | .rust => [(join outputDir "Cargo.toml".toList, generateCargoToml module)]
  | .go => [(join outputDir "go.mod".toList, generateGoMod module)]
  | .python => []

/-- The files of a run, with the texts of its two templates. -/
def outputs (orders : Orders module) (template testTemplate : Text) : List (Path × Text) :=
  (computeMainPath module outputDir,
    generateModule module.language template orders.mainHeader.1 orders.mainBody.1) ::
  (computeTestPath module outputDir,
    generateModule module.language testTemplate orders.testHeader.1 orders.testBody.1) ::
  (join outputDir "README.md".toList, generateReadme module) :: extras module outputDir

def outputPaths : List Path :=
  computeMainPath module outputDir :: computeTestPath module outputDir :: join outputDir "README.md".toList ::
    (extras module outputDir).map Prod.fst

section
variable {ω : Type} (fileSystem : FileSystem ω)

/-- The text that a template has in this world: that of its file, or the fallback where there is no file. -/
inductive Template (path : Path) (fallback : Text) (o : ω) : Text → ω → Prop
  | file {content : Text} {o' : ω} (hexist : fileSystem.exist path o = true)
      (hread : (fileSystem.readToString path).run o = .ok content o') : Template path fallback o content o'
  | absent (habsent : fileSystem.exist path o = false) : Template path fallback o fallback o

/-- The file is written, once its directory is there. -/
inductive Writes (path : Path) (content : Text) (o : ω) : ω → Prop
  | inside {dir : Path} {o' o'' : ω} (hparent : parent path = some dir)
      (hcreate : (fileSystem.createDirAll dir).run o = .ok () o')
      (hwrite : (fileSystem.write path content).run o' = .ok () o'') : Writes path content o o''
  | alone {o' : ω} (hparent : parent path = none) (hwrite : (fileSystem.write path content).run o = .ok () o') :
      Writes path content o o'

/-- The files are written, one after the other. -/
def WritesAll : List (Path × Text) → ω → ω → Prop
  | [], o, o' => o = o'
  | file :: files, o, o'' => ∃ o', Writes fileSystem file.1 file.2 o o' ∧ WritesAll files o' o''

/-- The template of the module, for a run of the generator that starts in this world. -/
def MainTemplate (templatesDir : Path) (o : ω) : Text → ω → Prop :=
  Template fileSystem (selectTemplate templatesDir module.language module.artifact) (generateFallback module) o

/-- The templates of the module and of its test, which is looked for when the module has been written. -/
def TestTemplate (toUppercase : Char → Text) (orders : Orders module) (templatesDir : Path) (o : ω)
    (template testTemplate : Text) (o' : ω) : Prop :=
  ∃ o₁ o₂, MainTemplate module fileSystem templatesDir o template o₁ ∧
    Writes fileSystem (computeMainPath module outputDir)
      (generateModule module.language template orders.mainHeader.1 orders.mainBody.1) o₁ o₂ ∧
    Template fileSystem (selectTestTemplate templatesDir module.language) (generateTestFallback toUppercase module) o₂
      testTemplate o'

/-- The templates are those that a run has come to with the first `count` of its files. -/
def Found (toUppercase : Char → Text) (orders : Orders module) (templatesDir : Path) (o : ω)
    (template testTemplate : Text) (count : Nat) : Prop :=
  (0 < count → ∃ o', MainTemplate module fileSystem templatesDir o template o') ∧
    (1 < count →
      ∃ o', TestTemplate module outputDir fileSystem toUppercase orders templatesDir o template testTemplate o')

end

/-- The error is about the file that the run has come to. -/
def Stopped (templatesDir : Path) (done : List Path) : SpecgenError → Prop
  | .templateRead path _ =>
    (done = [] ∧ path = selectTemplate templatesDir module.language module.artifact) ∨
      (done.length = 1 ∧ path = selectTestTemplate templatesDir module.language)
  | .directoryCreate dir _ => ∃ next, done ++ [next] <+: outputPaths module outputDir ∧ parent next = some dir
  | .fileWrite path _ => done.getLast? = some path
  | _ => False

/-- The files are those of the layout, no two of them in one place, and all of them inside. -/
structure LaidOut (cwd : Path) (files : List Path) : Prop where
  layout : files.Perm (computeLayout module outputDir)
  nodup : (files.map (location cwd)).Nodup
  inside : ∀ file ∈ files, location cwd outputDir <+: location cwd file ∧ location cwd file ≠ location cwd outputDir

end

section
variable (module : ModuleMetadata) (outputDir : Path)

theorem layout_outputPaths : (outputPaths module outputDir).Perm (computeLayout module outputDir) := by
  unfold outputPaths computeLayout computeMainPath computeTestPath extras
  cases module.language with
  | python => exact .refl _
  | rust => exact .cons _ (.cons _ (.swap _ _ _))
  | go => exact .cons _ (.cons _ (.swap _ _ _))

/-! ### Places -/

theorem noSlash_of_isValidIdentifier {name : Text} (h : isValidIdentifier name = true) : '/' ∉ name := by
  cases name with
  | nil => exact List.not_mem_nil
  | cons first chars =>
    rw [isValidIdentifier, Bool.and_eq_true, List.all_eq_true] at h
    intro hmem
    rcases List.mem_cons.mp hmem with rfl | hmem
    · exact absurd h.1 (by decide)
    · exact absurd (h.2 '/' hmem) (by decide)

theorem isValidIdentifier_of_validate {module : ModuleMetadata} (h : validate module = .ok ()) :
    isValidIdentifier module.name = true := by
  unfold validate at h
  split_ifs at h with hnone
  unfold violations at hnone
  simp only [List.append_eq_nil_iff] at hnone
  by_contra hname
  rw [if_neg hname] at hnone
  cases hnone.1.1.1.1.1.1.1

/-- A longer text without a slash is a name. -/
theorem isName_of_long {name : Path} (hslash : '/' ∉ name) (hlen : 3 ≤ name.length) : IsName name := by
  refine ⟨List.ne_nil_of_length_pos (by omega), ?_, ?_, hslash⟩
  all_goals
    rintro rfl
    simp at hlen

theorem location_name (dir : Path) {name : Path} (h : IsName name) :
    location ('/' :: dir) (join outputDir name) = location ('/' :: dir) outputDir ++ [name] := by
  rw [location_join, walk_plain (plain_of_isName h), List.splitOn_eq_singleton h.2.2.2]

/-- The files of a module, each by the names that lead to it from the output directory. -/
def places : List (List Path) :=
  match module.language with
  | .python => [[module.name ++ ".py".toList], ["test_".toList ++ module.name ++ ".py".toList], ["README.md".toList]]
  | .rust => [["src".toList, module.name ++ ".rs".toList], ["src".toList, module.name ++ "_test.rs".toList],
      ["README.md".toList], ["Cargo.toml".toList]]
  | .go => [[module.name ++ ".go".toList], [module.name ++ "_test.go".toList], ["README.md".toList],
      ["go.mod".toList]]

variable {module}

theorem locations_outputPaths (dir : Path) (hname : '/' ∉ module.name) :
    (outputPaths module outputDir).map (location ('/' :: dir)) =
      (places module).map (location ('/' :: dir) outputDir ++ ·) := by
  have hback (back : Path) (hslash : '/' ∉ back) (hlen : 3 ≤ back.length) : IsName (module.name ++ back) := by
    apply isName_of_long
    · exact fun h => (List.mem_append.mp h).elim hname hslash
    · rw [List.length_append]
      omega
  have htest : IsName ("test_".toList ++ module.name ++ ".py".toList) := by
    apply isName_of_long
    · simp [hname]
    · simp
  have hreadme : IsName "README.md".toList := by decide
  unfold outputPaths places computeMainPath computeTestPath extras
  cases module.language with
  | python =>
    have hmain := hback ".py".toList (by decide) (by decide)
    simp only [List.map_cons, List.map_nil, location_name _ _ hmain, location_name _ _ htest,
      location_name _ _ hreadme]
  | rust =>
    have hsrc : IsName "src".toList := by decide
    have hcargo : IsName "Cargo.toml".toList := by decide
    have hmain := hback ".rs".toList (by decide) (by decide)
    have htest := hback "_test.rs".toList (by decide) (by decide)
    simp only [List.map_cons, List.map_nil, location_name _ _ hmain, location_name _ _ htest, location_name _ _ hsrc,
      location_name _ _ hreadme, location_name _ _ hcargo, List.append_assoc, List.cons_append, List.nil_append]
  | go =>
    have hmod : IsName "go.mod".toList := by decide
    have hmain := hback ".go".toList (by decide) (by decide)
    have htest := hback "_test.go".toList (by decide) (by decide)
    simp only [List.map_cons, List.map_nil, location_name _ _ hmain, location_name _ _ htest,
      location_name _ _ hreadme, location_name _ _ hmod]

/-- A name with its back is not the other one, which ends differently. -/
theorem append_ne_of_getLast {name back other : Path} (c : Char) (h : back.getLast? = some c)
    (hother : other.getLast? ≠ some c) : name ++ back ≠ other := by
  rintro rfl
  rw [List.getLast?_append, h] at hother
  exact hother rfl

theorem nodup_places : (places module).Nodup := by
  unfold places
  cases module.language with
  | python =>
    have htest : module.name ++ ".py".toList ≠ "test_".toList ++ module.name ++ ".py".toList := by
      intro heq
      have hlen := congrArg List.length heq
      simp at hlen
    have hreadme (name : Path) : name ++ ".py".toList ≠ "README.md".toList :=
      append_ne_of_getLast 'y' rfl (by decide)
    simp only [List.nodup_cons, List.mem_cons, List.cons.injEq, and_true, List.not_mem_nil, or_false, not_or,
      List.nodup_nil, not_false_eq_true]
    exact ⟨⟨htest, hreadme _⟩, hreadme _⟩
  | rust => simp
  | go =>
    have hends (back other : Path) (h : back.getLast? = some 'o') (hother : other.getLast? = some 'd') :
        module.name ++ back ≠ other := by
      apply append_ne_of_getLast 'o' h
      rw [hother]
      decide
    simp only [List.nodup_cons, List.mem_cons, List.cons.injEq, and_true, List.not_mem_nil, or_false, not_or,
      List.nodup_nil, not_false_eq_true, List.append_cancel_left_eq]
    refine ⟨⟨by decide, ?_, ?_⟩, ⟨?_, ?_⟩, by decide⟩
    all_goals exact hends _ _ rfl rfl

theorem places_ne_nil : [] ∉ places module := by
  unfold places
  cases module.language <;> simp

/-- The files of a module with a valid name. -/
theorem laidOut_outputPaths (dir : Path) (h : isValidIdentifier module.name = true) :
    LaidOut module outputDir ('/' :: dir) (outputPaths module outputDir) := by
  have hlocations := locations_outputPaths outputDir dir (noSlash_of_isValidIdentifier h)
  refine ⟨layout_outputPaths module outputDir, ?_, fun file hfile => ?_⟩
  · rw [hlocations]
    exact nodup_places.map (List.append_right_injective _)
  · have hmem := List.mem_map_of_mem (f := location ('/' :: dir)) hfile
    rw [hlocations] at hmem
    obtain ⟨names, hnames, hplace⟩ := List.mem_map.mp hmem
    rw [← hplace]
    refine ⟨List.prefix_append _ _, fun heq => @places_ne_nil module ?_⟩
    obtain rfl := List.append_right_eq_self.mp heq
    exact hnames

end

/-! ## Runs -/

section
variable {ω α : Type} {fileSystem : FileSystem ω}

theorem run_attempt (call : EStateM String ω α) (error : String → SpecgenError) (s : Disk ω) :
    (attempt call error).run s = match call.run s.outside with
      | .ok a o => .ok a ⟨o, s.opened⟩
      | .error source o => .error (error source) ⟨o, s.opened⟩ := rfl

theorem wp_attempt (call : EStateM String ω α) (error : String → SpecgenError) (s : Disk ω) :
    wp (attempt call error) (fun a s' => s'.opened = s.opened ∧ call.run s.outside = .ok a s'.outside)
      (fun e s' => s'.opened = s.opened ∧ ∃ source, e = error source ∧ call.run s.outside = .error source s'.outside)
      s := by
  unfold wp
  rw [run_attempt]
  cases call.run s.outside with
  | ok a o => exact ⟨rfl, rfl⟩
  | error source o => exact ⟨rfl, source, rfl, rfl⟩

/-- A file, or the error of its directory or of its own. -/
theorem wp_writeFile (path : Path) (content : Text) (s : Disk ω) :
    wp (writeFile fileSystem path content)
      (fun _ s' => s'.opened = s.opened ++ [(path, content)] ∧ Writes fileSystem path content s.outside s'.outside)
      (fun e s' => (s'.opened = s.opened ∧ ∃ dir source, parent path = some dir ∧ e = .directoryCreate dir source) ∨
        (s'.opened = s.opened ++ [(path, content)] ∧ ∃ source, e = .fileWrite path source)) s := by
  have hwrite (s₁ : Disk ω) (h : s₁.opened = s.opened) :
      wp (do modify fun s => (⟨s.outside, s.opened ++ [(path, content)]⟩ : Disk ω)
             attempt (fileSystem.write path content) (.fileWrite path))
        (fun _ s' => s'.opened = s.opened ++ [(path, content)] ∧
          (fileSystem.write path content).run s₁.outside = .ok () s'.outside)
        (fun e s' => s'.opened = s.opened ++ [(path, content)] ∧ ∃ source, e = .fileWrite path source) s₁ := by
    rw [wp_bind, wp_modify, ← h]
    refine wp_mono (wp_attempt _ _ _) (fun _ _ h => h) ?_
    rintro _ s' ⟨hopened, source, rfl, -⟩
    exact ⟨hopened, source, rfl⟩
  unfold writeFile ensureParentDir
  rw [wp_bind]
  cases hparent : parent path with
  | none =>
    rw [wp_pure]
    exact wp_mono (hwrite s rfl) (fun _ _ h => ⟨h.1, .alone hparent h.2⟩) fun _ _ => .inr
  | some dir =>
    refine wp_mono (wp_attempt _ _ s) (fun _ s₁ h₁ => ?_) fun e s₁ h₁ => ?_
    · exact wp_mono (hwrite s₁ h₁.1) (fun _ _ h => ⟨h.1, .inside hparent h₁.2 h.2⟩) fun _ _ => .inr
    · obtain ⟨hopened, source, rfl, -⟩ := h₁
      exact .inl ⟨hopened, dir, source, rfl, rfl⟩

theorem wp_templateContent (path : Path) (fallback : Text) (s : Disk ω) :
    wp (templateContent fileSystem path fallback)
      (fun content s' => s'.opened = s.opened ∧ Template fileSystem path fallback s.outside content s'.outside)
      (fun e s' => s'.opened = s.opened ∧ ∃ source, e = .templateRead path source) s := by
  unfold templateContent
  rw [wp_bind, wp_get, wp_ite]
  refine ⟨fun hexist => ?_, fun habsent => ⟨rfl, .absent (Bool.eq_false_iff.mpr habsent)⟩⟩
  refine wp_mono (wp_attempt _ _ s) (fun content s' h => ⟨h.1, .file hexist h.2⟩) ?_
  rintro _ s' ⟨hopened, source, rfl, -⟩
  exact ⟨hopened, source, rfl⟩

end

section
variable {ω : Type} (fileSystem : FileSystem ω) (toUppercase : Char → Text) (module : ModuleMetadata)
  (orders : Orders module) (outputDir templatesDir : Path)

/-- What a run that fails leaves: an initial part of its files. -/
def Partial (s : Disk ω) (e : SpecgenError) (s' : Disk ω) : Prop :=
  ∃ template testTemplate done, done <+: outputs module outputDir orders template testTemplate ∧
    Found module outputDir fileSystem toUppercase orders templatesDir s.outside template testTemplate done.length ∧
    s'.opened = s.opened ++ done ∧ Stopped module outputDir templatesDir (done.map Prod.fst) e

variable {fileSystem toUppercase module orders outputDir templatesDir}

theorem map_fst_outputs (template testTemplate : Text) :
    (outputs module outputDir orders template testTemplate).map Prod.fst = outputPaths module outputDir := rfl

theorem outputs_nil (template testTemplate : Text) : outputs module outputDir orders template testTemplate =
    [] ++ (computeMainPath module outputDir,
      generateModule module.language template orders.mainHeader.1 orders.mainBody.1) ::
    (computeTestPath module outputDir,
      generateModule module.language testTemplate orders.testHeader.1 orders.testBody.1) ::
    (join outputDir "README.md".toList, generateReadme module) :: extras module outputDir := rfl

theorem Found.mono {o : ω} {template testTemplate : Text} {count less : Nat} (hle : less ≤ count)
    (h : Found module outputDir fileSystem toUppercase orders templatesDir o template testTemplate count) :
    Found module outputDir fileSystem toUppercase orders templatesDir o template testTemplate less :=
  ⟨fun hpos => h.1 (hpos.trans_le hle), fun hlt => h.2 (hlt.trans_le hle)⟩

theorem found_nil (o : ω) : Found module outputDir fileSystem toUppercase orders templatesDir o [] [] 0 :=
  ⟨nofun, nofun⟩

theorem found_main {o o' : ω} {template : Text} (h : MainTemplate module fileSystem templatesDir o template o') :
    Found module outputDir fileSystem toUppercase orders templatesDir o template [] 1 :=
  ⟨fun _ => ⟨o', h⟩, fun hlt => absurd hlt (lt_irrefl 1)⟩

theorem found_test {o o' : ω} {template testTemplate : Text}
    (h : TestTemplate module outputDir fileSystem toUppercase orders templatesDir o template testTemplate o')
    (count : Nat) :
    Found module outputDir fileSystem toUppercase orders templatesDir o template testTemplate count := by
  refine ⟨fun _ => ?_, fun _ => ⟨o', h⟩⟩
  obtain ⟨o₁, -, hmain, -⟩ := h
  exact ⟨o₁, hmain⟩

/-- The next file of a run. -/
theorem wp_nextFile {s s₁ : Disk ω} {template testTemplate : Text} {done rest : List (Path × Text)} {path : Path}
    {content : Text} (hopened : s₁.opened = s.opened ++ done)
    (hfiles : outputs module outputDir orders template testTemplate = done ++ (path, content) :: rest)
    (hfound : Found module outputDir fileSystem toUppercase orders templatesDir s.outside template testTemplate
      (done.length + 1)) :
    wp (writeFile fileSystem path content)
      (fun _ s' => s'.opened = s.opened ++ (done ++ [(path, content)]) ∧
        Writes fileSystem path content s₁.outside s'.outside)
      (Partial fileSystem toUppercase module orders outputDir templatesDir s) s₁ := by
  have hdone : done ++ [(path, content)] <+: outputs module outputDir orders template testTemplate := by
    rw [hfiles]
    exact ⟨rest, by rw [List.append_assoc, List.singleton_append]⟩
  refine wp_mono (wp_writeFile path content s₁) (fun _ s' h => ⟨?_, h.2⟩) fun e s' h => ?_
  · rw [h.1, hopened, List.append_assoc]
  · rcases h with ⟨hsame, dir, source, hparent, rfl⟩ | ⟨hnext, source, rfl⟩
    · refine ⟨template, testTemplate, done, (List.prefix_append _ _).trans hdone, hfound.mono (Nat.le_succ _),
        hsame.trans hopened, path, ?_, hparent⟩
      have hpaths := hdone.map Prod.fst
      rwa [List.map_append, map_fst_outputs] at hpaths
    · refine ⟨template, testTemplate, done ++ [(path, content)], hdone, ?_, ?_, ?_⟩
      · rw [List.length_append, List.length_singleton]
        exact hfound
      · rw [hnext, hopened, List.append_assoc]
      · show ((done ++ [(path, content)]).map Prod.fst).getLast? = some path
        rw [List.map_append, List.map_singleton, List.getLast?_concat]

/-- What there is to know of a run of the generator: the files it leaves, whichever way it ends. -/
theorem wp_generate (s : Disk ω) :
    wp (generate fileSystem toUppercase module orders outputDir templatesDir)
      (fun filesWritten s' => filesWritten = outputPaths module outputDir ∧ ∃ template testTemplate o,
        TestTemplate module outputDir fileSystem toUppercase orders templatesDir s.outside template testTemplate o ∧
        WritesAll fileSystem (outputs module outputDir orders template testTemplate).tail o s'.outside ∧
        s'.opened = s.opened ++ outputs module outputDir orders template testTemplate)
      (Partial fileSystem toUppercase module orders outputDir templatesDir s) s := by
  unfold generate generateMain generateTest
  simp only [bind_assoc, pure_bind]
  rw [wp_bind]
  refine wp_mono (wp_templateContent _ _ s) (fun template s₁ h₁ => ?_) fun e s₁ h => ?_
  swap
  · obtain ⟨hopened, source, rfl⟩ := h
    exact ⟨[], [], [], List.nil_prefix, found_nil _, by rw [hopened, List.append_nil], .inl ⟨rfl, rfl⟩⟩
  obtain ⟨h₁, hmain⟩ := h₁
  rw [wp_bind]
  refine wp_mono (wp_nextFile (h₁.trans (List.append_nil _).symm) (outputs_nil template []) (found_main hmain))
    (fun _ s₂ h₂ => ?_) fun _ _ h => h
  obtain ⟨h₂, hwritten⟩ := h₂
  rw [wp_bind]
  refine wp_mono (wp_templateContent _ _ s₂) (fun testTemplate s₃ h₃ => ?_) fun e s₃ h => ?_
  swap
  · obtain ⟨hopened, source, rfl⟩ := h
    exact ⟨template, [], _, ⟨_, rfl⟩, found_main hmain, hopened.trans h₂, .inr ⟨rfl, rfl⟩⟩
  obtain ⟨h₃, htest⟩ := h₃
  have htemplates : TestTemplate module outputDir fileSystem toUppercase orders templatesDir s.outside template
      testTemplate s₃.outside := ⟨_, _, hmain, hwritten, htest⟩
  have hfound := found_test htemplates
  rw [wp_bind]
  have hfiles : outputs module outputDir orders template testTemplate = _ := outputs_nil template testTemplate
  refine wp_mono (wp_nextFile (h₃.trans h₂) hfiles (hfound _)) (fun _ s₄ h₄ => ?_) fun _ _ h => h
  rw [wp_bind]
  refine wp_mono (wp_nextFile h₄.1 hfiles (hfound _)) (fun _ s₅ h₅ => ?_) fun _ _ h => h
  have hlast (last : Path × Text) (hextras : extras module outputDir = [last]) :
      wp (do writeFile fileSystem last.1 last.2
             return [computeMainPath module outputDir, computeTestPath module outputDir,
               join outputDir "README.md".toList, last.1])
        (fun filesWritten s' => filesWritten = outputPaths module outputDir ∧ ∃ template testTemplate o,
          TestTemplate module outputDir fileSystem toUppercase orders templatesDir s.outside template testTemplate o ∧
          WritesAll fileSystem (outputs module outputDir orders template testTemplate).tail o s'.outside ∧
          s'.opened = s.opened ++ outputs module outputDir orders template testTemplate)
        (Partial fileSystem toUppercase module orders outputDir templatesDir s) s₅ := by
    rw [wp_bind]
    rw [hextras] at hfiles
    refine wp_mono (wp_nextFile h₅.1 hfiles (hfound _)) (fun _ s₆ h₆ => ?_) fun _ _ h => h
    rw [wp_pure, outputPaths, hextras]
    refine ⟨rfl, template, testTemplate, _, htemplates, ?_, by rw [h₆.1, hfiles]; rfl⟩
    rw [hfiles]
    exact ⟨_, h₄.2, _, h₅.2, _, h₆.2, rfl⟩
  split
  next hrust =>
    exact hlast (join outputDir "Cargo.toml".toList, generateCargoToml module) (by simp only [extras, hrust])
  next hgo => exact hlast (join outputDir "go.mod".toList, generateGoMod module) (by simp only [extras, hgo])
  next hpython =>
    have hextras : extras module outputDir = [] := by simp only [extras, hpython]
    rw [hextras] at hfiles
    rw [wp_pure, outputPaths, hextras]
    refine ⟨rfl, template, testTemplate, _, htemplates, ?_, by rw [h₅.1, hfiles]; rfl⟩
    rw [hfiles]
    exact ⟨_, h₄.2, _, h₅.2, rfl⟩

end

/-! ## The program's runs -/

section
variable {ω : Type} (fileSystem : FileSystem ω) (setting : Setting) (cli : Cli)

/-- The module that the metadata's file declares in this world, and the world behind the look. -/
def Loads (o : ω) (module : ModuleMetadata) (o' : ω) : Prop :=
  ∃ content, (fileSystem.readToString cli.metadata).run o = .ok content o' ∧ setting.parse content = .ok module

/-- What a run leaves that returns, from one world to another: the files of the layout, with the texts of this module
and of the templates that are there. -/
structure Finished (cwd : Path) (o o' : ω) (module : ModuleMetadata) (filesWritten : List Path)
    (written : List (Path × Text)) : Prop where
  valid : validate module = .ok ()
  reported : filesWritten = written.map Prod.fst
  laidOut : LaidOut module cli.output cwd filesWritten
  contents : ∃ o₁ o₂ template testTemplate, Loads fileSystem setting cli o module o₁ ∧
    TestTemplate module cli.output fileSystem setting.toUppercase (setting.orders module) (setting.templatesDir cli) o₁
      template testTemplate o₂ ∧
    written = outputs module cli.output (setting.orders module) template testTemplate ∧
    WritesAll fileSystem written.tail o₂ o'

/-- What a run leaves that fails: nothing, where the metadata is at fault, and else what the error says. -/
def Unfinished (o : ω) (e : SpecgenError) (written : List (Path × Text)) : Prop :=
  match e with
  | .metadataRead path source =>
    path = cli.metadata ∧ (∃ o', (fileSystem.readToString cli.metadata).run o = .error source o') ∧ written = []
  | .metadataParse path message =>
    path = cli.metadata ∧ (∃ content o', (fileSystem.readToString cli.metadata).run o = .ok content o' ∧
      setting.parse content = .error message) ∧ written = []
  | .metadataValidation reason =>
    (∃ module o', Loads fileSystem setting cli o module o' ∧ validate module = .error reason) ∧ written = []
  | e => ∃ module o' template testTemplate, Loads fileSystem setting cli o module o' ∧ validate module = .ok () ∧
    Found module cli.output fileSystem setting.toUppercase (setting.orders module) (setting.templatesDir cli) o'
      template testTemplate written.length ∧
    written <+: outputs module cli.output (setting.orders module) template testTemplate ∧
    Stopped module cli.output (setting.templatesDir cli) (written.map Prod.fst) e

theorem wp_load (s : Disk ω) :
    wp (Metadata.load fileSystem setting cli.metadata)
      (fun module s' => s'.opened = s.opened ∧ Loads fileSystem setting cli s.outside module s'.outside)
      (fun e s' => s'.opened = s.opened ∧ Unfinished fileSystem setting cli s.outside e []) s := by
  unfold Metadata.load
  rw [wp_bind]
  refine wp_mono (wp_attempt _ _ s) (fun content s₁ h => ?_) fun e s₁ h => ?_
  · cases hparse : setting.parse content with
    | ok module => exact ⟨h.1, content, h.2, hparse⟩
    | error message => exact ⟨h.1, rfl, ⟨content, s₁.outside, h.2, hparse⟩, rfl⟩
  · obtain ⟨hopened, source, rfl, hread⟩ := h
    exact ⟨hopened, rfl, ⟨s₁.outside, hread⟩, rfl⟩

/-- Whatever the file system does, a run writes the files of the layout, or an initial part of them. -/
theorem specgen_settles (dir : Path) (s : Disk ω) :
    wp (specgen fileSystem setting cli)
      (fun result s' => ∃ written, s'.opened = s.opened ++ written ∧
        Finished fileSystem setting cli ('/' :: dir) s.outside s'.outside result.1 result.2 written)
      (fun e s' => ∃ written, s'.opened = s.opened ++ written ∧
        Unfinished fileSystem setting cli s.outside e written) s := by
  unfold specgen
  rw [wp_bind]
  refine wp_mono (wp_load fileSystem setting cli s) (fun module s₁ h => ?_) fun e s₁ h => ?_
  swap
  · exact ⟨[], by rw [h.1, List.append_nil], h.2⟩
  obtain ⟨h₁, hloads⟩ := h
  cases hvalid : validate module with
  | error reason => exact ⟨[], by rw [h₁, List.append_nil], ⟨module, s₁.outside, hloads, hvalid⟩, rfl⟩
  | ok =>
    dsimp only
    rw [wp_bind]
    refine wp_mono (wp_generate s₁) (fun filesWritten s₂ h => ?_) fun e s₂ h => ?_
    · obtain ⟨rfl, template, testTemplate, o, htemplates, hwrites, hopened⟩ := h
      refine ⟨_, by rw [hopened, h₁], hvalid, rfl, ?_, _, o, _, _, hloads, htemplates, rfl, hwrites⟩
      exact laidOut_outputPaths cli.output dir (isValidIdentifier_of_validate hvalid)
    · obtain ⟨template, testTemplate, done, hdone, hfound, hopened, hstopped⟩ := h
      refine ⟨done, by rw [hopened, h₁], ?_⟩
      cases e with
      | templateRead | directoryCreate | fileWrite =>
        exact ⟨module, _, template, testTemplate, hloads, hvalid, hfound, hdone, hstopped⟩
      | metadataRead | metadataParse | metadataValidation => cases hstopped

end

end Atlas.Specgen
