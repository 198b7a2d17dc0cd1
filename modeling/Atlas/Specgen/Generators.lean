import Atlas.Lib.PyText
import Atlas.Specgen.Template

/-!
# Metadata and generators: `metadata.rs`, `module_types.rs`, `validator.rs`, `constants.rs`, the generators of the
languages and `contract_generator.rs` in `tools/specgen/src`

* `ModuleMetadata`, `validate` : what a module is described by, and the check in front of the generators;
* `header`, `headerVars`, `buildVars`, `generateModule` : a generated file, in an order of iteration for each map;
* `generateContractBlock` : the comment of a module without a template;
* `generateModule_separate` : a file that does not depend on the orders.
-/

namespace Atlas.Specgen
open Replace

inductive Language
  | rust
  | python
  | go
  deriving DecidableEq

inductive Profile
  | production
  | research
  | benchmark
  | legacy
  deriving DecidableEq

inductive ArtifactKind
  | module
  | service
  | agent
  | api
  | event
  | schema
  | foundation
  | architectureRules
  deriving DecidableEq

def Language.asStr : Language → Text
  | .rust => "rust".toList
  | .python => "python".toList
  | .go => "go".toList

def Profile.asStr : Profile → Text
  | .production => "production".toList
  | .research => "research".toList
  | .benchmark => "benchmark".toList
  | .legacy => "legacy".toList

def ArtifactKind.asStr : ArtifactKind → Text
  | .module => "module".toList
  | .service => "service".toList
  | .agent => "agent".toList
  | .api => "api".toList
  | .event => "event".toList
  | .schema => "schema".toList
  | .foundation => "foundation".toList
  | .architectureRules => "architecture_rules".toList

structure ModuleMetadata where
  name : Text
  artifact : ArtifactKind
  language : Language
  profile : Profile
  owner : Text
  purpose : Text
  specificationId : Text
  responsibilities : List Text
  forbidden : List Text
  dependencies : List Text

/-! ## Validation -/

/-- `char::is_whitespace` -/
def isWhitespace (c : Char) : Bool :=
  (0x9 ≤ c.toNat ∧ c.toNat ≤ 0xD) ∨ (0x2000 ≤ c.toNat ∧ c.toNat ≤ 0x200A) ∨
    c.toNat ∈ [0x20, 0x85, 0xA0, 0x1680, 0x2028, 0x2029, 0x202F, 0x205F, 0x3000]

/-- `value.trim().is_empty()` -/
def isBlank (value : Text) : Bool := (PyText.strip isWhitespace value).isEmpty

def isAsciiLowercase (c : Char) : Bool := 'a' ≤ c ∧ c ≤ 'z'

def isAsciiDigit (c : Char) : Bool := '0' ≤ c ∧ c ≤ '9'

def isValidIdentifier : Text → Bool
  | [] => false
  | first :: chars => isAsciiLowercase first && chars.all fun c => isAsciiLowercase c || isAsciiDigit c || c = '_'

def notEmpty (field value : Text) : List Text := if isBlank value then [field ++ " must not be empty".toList] else []

def noEmptyEntries (field : Text) (entries : List Text) : List Text :=
  (entries.filter isBlank).map fun _ => field ++ " must not contain empty entries".toList

def violations (module : ModuleMetadata) : List Text :=
  (if isValidIdentifier module.name then []
    else ["name `".toList ++ module.name ++
      "` must be a snake_case identifier starting with a lowercase letter".toList]) ++
  notEmpty "owner".toList module.owner ++
  notEmpty "purpose".toList module.purpose ++
  notEmpty "specification_id".toList module.specificationId ++
  noEmptyEntries "responsibilities".toList module.responsibilities ++
  noEmptyEntries "forbidden".toList module.forbidden ++
  noEmptyEntries "dependencies".toList module.dependencies ++
  (if module.artifact = .agent ∧ module.language ≠ .python then
      ["artifact `agent` requires language `python`, got `".toList ++ module.language.asStr ++ "`".toList]
    else [])

/-- The error is the reason of `MetadataValidation`. -/
def validate (module : ModuleMetadata) : Except Text Unit :=
  if violations module = [] then .ok () else .error ("; ".toList.intercalate (violations module))

/-! ## Generated files -/

def pythonHeader : Text :=
  "# Generated by Atlas AI SpecGen\n".toList ++ "# Governed by: {specification_id}\n".toList ++
    "# Owner: {owner}\n".toList ++ "# Language: {language}\n".toList ++ "# Profile: {profile}\n".toList

def rustHeader : Text :=
  "// Generated by Atlas AI SpecGen\n".toList ++ "// Governed by: {specification_id}\n".toList ++
    "// Owner: {owner}\n".toList ++ "// Language: {language}\n".toList ++ "// Profile: {profile}\n".toList

def goHeader : Text :=
  "// Generated by Atlas AI SpecGen\n".toList ++ "// Governed by: {specification_id}\n".toList ++
    "// Owner: {owner}\n".toList ++ "// Language: {language}\n".toList ++ "// Profile: {profile}\n".toList

/-- The header of the language's generator. -/
def header : Language → Text
  | .python => pythonHeader
  | .rust => rustHeader
  | .go => goHeader

/-- The variables of `render_header`. -/
def headerVars (language : Language) (module : ModuleMetadata) : Vars where
  entries := [("specification_id".toList, module.specificationId), ("owner".toList, module.owner),
    ("language".toList, language.asStr), ("profile".toList, module.profile.asStr)]
  nodup := (by decide : ["specification_id", "owner", "language", "profile"].map String.toList |>.Nodup)

def buildVars (module : ModuleMetadata) : Vars where
  entries := [("module_name".toList, module.name), ("owner".toList, module.owner),
    ("purpose".toList, module.purpose), ("specification_id".toList, module.specificationId),
    ("profile".toList, module.profile.asStr),
    ("responsibilities".toList, ", ".toList.intercalate module.responsibilities),
    ("forbidden".toList, ", ".toList.intercalate module.forbidden),
    ("dependencies".toList, ", ".toList.intercalate module.dependencies)]
  nodup := (by decide : ["module_name", "owner", "purpose", "specification_id", "profile", "responsibilities",
    "forbidden", "dependencies"].map String.toList |>.Nodup)

/-- `format!("{}\n{}", header, body)`, each map in the order that it is gone through in. -/
def generateModule (language : Language) (templateContent : Text) (headerOrder bodyOrder : List (Text × Text)) : Text :=
  render (header language) headerOrder ++ ['\n'] ++ render templateContent bodyOrder

/-- A file is the same in all orders when the maps are separate. -/
theorem generateModule_separate {language : Language} {module : ModuleMetadata}
    (hheader : Separate (headerVars language module)) (hbody : Separate (buildVars module))
    {headerOrder bodyOrder : List (Text × Text)} (hperm : headerOrder.Perm (headerVars language module).entries)
    (hperm' : bodyOrder.Perm (buildVars module).entries) (templateContent : Text) :
    generateModule language templateContent headerOrder bodyOrder =
      (headerVars language module).substitute (header language) ++ ['\n'] ++
        (buildVars module).substitute templateContent := by
  rw [generateModule, render_separate hheader _ _ hperm, render_separate hbody _ _ hperm']

/-! ## The contract block -/

def commentPrefix (language : Text) : Text :=
  if language = "python".toList then "#".toList
  else if language = "rust".toList then "//".toList
  else if language = "go".toList then "//".toList
  else "//".toList

def formatList (mark : Text) (items : List Text) : Text :=
  if items.isEmpty then mark ++ "   _None_".toList
  else "\n".toList.intercalate (items.map fun item => mark ++ "   - ".toList ++ item)

def generateContractBlock (module : ModuleMetadata) (language : Text) : Text :=
  let p := commentPrefix language
  [p, " Contract Compliance\n".toList,
    p, " Specification: ".toList, module.specificationId, ['\n'],
    p, " Artifact:      ".toList, module.artifact.asStr, ['\n'],
    p, " Language:      ".toList, module.language.asStr, ['\n'],
    p, " Profile:       ".toList, module.profile.asStr, ['\n'],
    p, " Owner:         ".toList, module.owner, ['\n'],
    p, ['\n'],
    p, " Responsibilities:\n".toList,
    formatList p module.responsibilities, ['\n'],
    p, ['\n'],
    p, " Forbidden:\n".toList,
    formatList p module.forbidden, ['\n']].flatten

end Atlas.Specgen
