import Atlas.Agent.Pipeline

/-!
# Relations that hold of whole pipelines

* `Relates` : a relation that sequences inherit holds of what two pipelines write down, and of what they ask their
  engines;
* `Relates.attempt_split` : it holds of an attempt behind `generate_project`;
* `Relates.attempts`, `Relates.conclude`, `Relates.runPipeline` : it holds of the loop, of what follows, of the run.
-/

namespace Atlas.Agent
open Raising

variable {ω τ : Type} {R : (α : Type) → M τ α → M ω α → Prop}

/-! ## The gates -/

/-- The relation holds of the entries of the audit log. -/
def Logs (R : (α : Type) → M τ α → M ω α → Prop) : Prop :=
  ∀ action component result error, R Unit (logAudit action component result error)
    (logAudit action component result error)

section
variable (h : Composes R) (hlog : Logs R) {engines' : Engines τ} {engines : Engines ω}
include h

theorem relates_readAll (hread : ∀ path, R _ (outside (engines'.readFile path)) (outside (engines.readFile path)))
    (paths : List String) : R _ (readAll engines' paths) (readAll engines paths) := by
  induction paths with
  | nil => exact h.pure _
  | cons path paths ih => exact h.bind (hread path) fun _ => ih

include hlog

theorem relates_logged {α : Type} (action component result : String) (error : Option String) (a : α) :
    R α (do logAudit action component result error; return a) (do logAudit action component result error; return a) :=
  h.bind (hlog _ _ _ _) fun _ => h.pure a

theorem relates_validateSpecification (specification : Specification) :
    R Bool (validateSpecification specification) (validateSpecification specification) := by
  apply h.bind (hlog _ _ _ _)
  intro _
  apply Composes.ite (relates_logged h hlog _ _ _ _ _)
  exact Composes.ite (relates_logged h hlog _ _ _ _ _) (h.pure _)

theorem relates_validateArtifact (artifact : Artifact) :
    R Bool (validateArtifact artifact) (validateArtifact artifact) := by
  apply h.bind (hlog _ _ _ _)
  intro _
  apply Composes.ite (relates_logged h hlog _ _ _ _ _)
  exact Composes.ite (relates_logged h hlog _ _ _ _ _) (h.pure _)

theorem relates_requireHumanApproval (hhuman : engines'.requireHumanApproval = engines.requireHumanApproval)
    (hinput : R _ (outside engines'.input) (outside engines.input)) (artifact : Artifact) :
    R _ (requireHumanApproval engines' artifact) (requireHumanApproval engines artifact) := by
  unfold requireHumanApproval
  rw [hhuman]
  apply Composes.ite (h.pure _)
  apply h.bind hinput
  intro response
  cases response with
  | none => exact h.pure _
  | some response => exact Composes.ite (relates_logged h hlog _ _ _ _ _) (relates_logged h hlog _ _ _ _ _)

end

/-! ### What they leave alone -/

section
variable {γ : Type} {f : World ω → γ} {engines : Engines ω}

theorem keeps_readAll (hread : ∀ path, Keeps f (outside (engines.readFile path))) (paths : List String) :
    Keeps f (readAll engines paths) := @relates_readAll _ _ _ (Composes.keeps f) engines engines hread paths

variable (hlog : ∀ action component result error, Keeps f (logAudit action component result error : M ω Unit))
include hlog

theorem keeps_validateSpecification (specification : Specification) :
    Keeps f (validateSpecification specification : M ω Bool) :=
  relates_validateSpecification (Composes.keeps f) hlog specification

theorem keeps_validateArtifact (artifact : Artifact) : Keeps f (validateArtifact artifact : M ω Bool) :=
  relates_validateArtifact (Composes.keeps f) hlog artifact

theorem keeps_requireHumanApproval (hinput : Keeps f (outside engines.input)) (artifact : Artifact) :
    Keeps f (requireHumanApproval engines artifact) :=
  @relates_requireHumanApproval _ _ _ (Composes.keeps f) hlog engines engines rfl hinput artifact

end

/-! ## The pipeline -/

/-- What a pipeline asks of its engines in front of the deployment, but for the generator, and what it writes down, but
for the account of events. -/
structure Relates (R : (α : Type) → M τ α → M ω α → Prop) (engines' : Engines τ) (engines : Engines ω) : Prop
    extends Composes R where
  logAudit : Logs R
  metrics : ∀ f : LoopMetrics → LoopMetrics, R Unit (modify fun s => { s with metrics := f s.metrics })
    (modify fun s => { s with metrics := f s.metrics })
  requireHumanApproval : engines'.requireHumanApproval = engines.requireHumanApproval
  checkSyntax : ∀ path language, R _ (outside (engines'.checkSyntax path language))
    (outside (engines.checkSyntax path language))
  runSecurityScan : ∀ path language folder, R _ (outside (engines'.runSecurityScan path language folder))
    (outside (engines.runSecurityScan path language folder))
  readFile : ∀ path, R _ (outside (engines'.readFile path)) (outside (engines.readFile path))
  getAntiPatterns : R _ (outside engines'.getAntiPatterns) (outside engines.getAntiPatterns)
  input : R _ (outside engines'.input) (outside engines.input)

namespace Relates
variable {engines' : Engines τ} {engines : Engines ω} (h : Relates R engines' engines)
include h

theorem checkInto (path : String) (language : Language) (seen : Artifact × Bool) :
    R _ (checkInto engines' path language seen) (checkInto engines path language seen) :=
  h.bind (h.checkSyntax _ _) fun _ => h.pure _

theorem inspectFiles (language : Language) (folder : String) (paths : List String) (seen : Artifact × Bool) :
    R _ (inspectFiles engines' language folder paths seen) (inspectFiles engines language folder paths seen) := by
  induction paths generalizing seen with
  | nil => exact h.pure _
  | cons path paths ih =>
    apply h.bind (Composes.ite (h.pure _) (h.checkInto _ _ _))
    intro seen
    apply h.bind
    · exact h.bind (h.runSecurityScan _ _ _) fun _ => h.pure _
    · exact ih

theorem inspect (language : Language) (folder : String) (sourceFiles : List String) (artifact : Artifact) :
    R _ (inspect engines' language folder sourceFiles artifact)
      (inspect engines language folder sourceFiles artifact) :=
  h.bind (Composes.ite (h.checkInto _ _ _) (h.pure _)) fun _ => h.inspectFiles _ _ _ _

theorem retry (requirement : Requirement) (number : Nat) (artifact : Artifact) (sourceFiles : List String)
    (quality : QualityScore) (history : List AttemptRecord) (carried : Carried) :
    R _ (retry engines' requirement number artifact sourceFiles quality history carried)
      (retry engines requirement number artifact sourceFiles quality history carried) := by
  apply h.bind h.getAntiPatterns
  intro antiPatterns
  apply h.bind
  · cases sourceFiles with
    | nil => exact h.pure _
    | cons path paths => exact h.readFile _
  · intro code
    apply Composes.ite
    · apply h.bind (h.metrics (·.recordOutcome false number quality.overall _))
      exact fun _ => h.bind (h.logAudit _ _ _ _) fun _ => h.throw _
    · exact h.pure _

variable (requirement : Requirement)

/-- An attempt is `generate`, and what goes on with the files. -/
theorem attempt_split (hjudge : ∀ artifact, R Unit (note (.judge artifact)) (note (.judge artifact)))
    (specification : Specification) (number : Nat) (carried : Carried) :
    ∃ (rest' : List String → M τ (Bool × Carried)) (rest : List String → M ω (Bool × Carried)),
      attempt engines' requirement specification number carried =
        generate engines' requirement specification number carried.repairContext >>= rest' ∧
      attempt engines requirement specification number carried =
        generate engines requirement specification number carried.repairContext >>= rest ∧
      ∀ files, R _ (rest' files) (rest files) := by
  refine ⟨_, _, rfl, rfl, fun files => ?_⟩
  apply h.bind (h.inspect _ _ _ _)
  intro seen
  apply h.bind (hjudge _)
  intro _
  apply h.bind (relates_readAll h.toComposes h.readFile _)
  intro _
  apply h.bind (Composes.ite (relates_validateArtifact h.toComposes h.logAudit _) (h.pure _))
  intro through
  apply Composes.ite
  · apply h.bind (h.metrics (·.recordOutcome true number _ []))
    exact fun _ => relates_logged h.toComposes h.logAudit _ _ _ _ _
  · exact h.bind (h.retry _ _ _ _ _ _ _) fun _ => h.pure _

/-- The loop, with what is known of the calls of the generator. -/
theorem attempts (hjudge : ∀ artifact, R Unit (note (.judge artifact)) (note (.judge artifact)))
    (specification : Specification) (hgenerate : ∀ number repairContext,
      R _ (generate engines' requirement specification number repairContext)
        (generate engines requirement specification number repairContext)) (numbers : List Nat) (carried : Carried) :
    R _ (attempts engines' requirement specification numbers carried)
      (attempts engines requirement specification numbers carried) := by
  induction numbers generalizing carried with
  | nil => exact h.pure _
  | cons number numbers ih =>
    obtain ⟨rest', rest, hsplit', hsplit, hrest⟩ := h.attempt_split requirement hjudge specification number carried
    rw [Agent.attempts, Agent.attempts, hsplit', hsplit]
    apply h.bind (h.bind (hgenerate _ _) hrest)
    rintro ⟨stop, carried⟩
    exact Composes.ite (h.pure _) (ih carried)

variable (hnote : ∀ event, R Unit (note event) (note event)) (hdeploy : ∀ source target language,
  R _ (outside (engines'.deploy source target language)) (outside (engines.deploy source target language)))
include hnote hdeploy

theorem deployAll (artifact : Artifact) (files : List String) :
    R _ (deployAll engines' requirement artifact files) (deployAll engines requirement artifact files) := by
  induction files with
  | nil => exact h.bind (h.logAudit _ _ _ _) fun _ => relates_logged h.toComposes h.logAudit _ _ _ _ _
  | cons file files ih =>
    apply h.bind (hnote _)
    intro _
    apply h.bind (hdeploy _ _ _)
    intro record
    exact Composes.ite (relates_logged h.toComposes h.logAudit _ _ _ _ _) ih

/-- What follows the loop. -/
theorem conclude (artifact : Option Artifact) :
    R _ (conclude engines' requirement artifact) (conclude engines requirement artifact) := by
  cases artifact with
  | none => exact h.throw _
  | some artifact =>
    apply h.bind (relates_requireHumanApproval h.toComposes h.logAudit h.requireHumanApproval h.input artifact)
    rintro ⟨answer, asked⟩
    apply h.bind (hnote _)
    intro _
    exact Composes.ite (relates_logged h.toComposes h.logAudit _ _ _ _ _) (h.deployAll requirement hnote hdeploy _ _)

/-- **The run.** -/
theorem runPipeline (hgenerate : ∀ specification number repairContext,
      R _ (generate engines' requirement specification number repairContext)
        (generate engines requirement specification number repairContext)) (architecture : String)
    (modules : List String) : R _ (runPipeline engines' requirement architecture modules)
      (runPipeline engines requirement architecture modules) := by
  apply h.bind (h.logAudit _ _ _ _)
  intro _
  apply h.bind (relates_validateSpecification h.toComposes h.logAudit _)
  intro valid
  apply Composes.ite
  · exact h.bind (h.logAudit _ _ _ _) fun _ => h.throw _
  · apply h.bind (h.attempts requirement (fun artifact => hnote _) _ (hgenerate _) _ _)
    exact fun carried => h.conclude requirement hnote hdeploy _

end Relates

end Atlas.Agent
