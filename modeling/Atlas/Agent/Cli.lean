import Atlas.Agent.PipelineGate
import Atlas.Agent.PipelineWalk

/-!
# The command line: `atlas_agent/cli.py`

* `main` : how a run of the pipeline is reported;
* `Engines.recording` : the engines, with account kept of what `deploy` answers; `simulates_runPipeline` : a run with
  them is the run;
* `Truthful` : what the report says, against that account; `truthful_iff`.
-/

namespace Atlas.Agent
open Raising

/-! ## The report -/

structure Args where
  requirement : String
  language : Language
  projectName : String
  targetFolder : String
  architecture : String
  modules : List String
  autoApprove : Bool

def Args.req (args : Args) : Requirement := ⟨args.requirement, args.language, args.projectName, args.targetFolder⟩

/-- What is printed at the end. -/
inductive Report
  | completed (targetFolder : String)
  | rejected
  | error (e : Failure)

def Report.exitStatus : Report → Nat
  | .completed _ => 0
  | .rejected => 1
  | .error _ => 1

section
variable {ω α : Type}

/-- `settings`, with `--auto-approve` taken into account. -/
def Engines.configured (engines : Engines ω) (args : Args) : Engines ω :=
  if args.autoApprove then { engines with requireHumanApproval := false } else engines

/-- The world of a new `Orchestrator()`. -/
def World.new (o : ω) (model : String) : World ω := ⟨o, model, [], {}, []⟩

/-- The run of the pipeline. -/
def Args.run (args : Args) (engines : Engines ω) (o : ω) (model : String) :
    EStateM.Result Failure (World ω) Artifact :=
  (runPipeline (engines.configured args) args.req args.architecture args.modules).run (World.new o model)

def main (engines : Engines ω) (args : Args) (o : ω) (model : String) : Report :=
  match args.run engines o model with
  | .ok artifact _ => if artifact.status.value = "approved" then .completed args.targetFolder else .rejected
  | .error e _ => .error e

/-! ## An account of the deployments -/

/-- The answers of `deploy`, in order, each with its path. -/
abbrev Records := List (String × DeploymentRecord)

/-- A call that leaves the account alone. -/
def beside (call : EStateM String ω α) : EStateM String (ω × Records) α := fun s =>
  match call.run s.1 with
  | .ok a o => .ok a (o, s.2)
  | .error text o => .error text (o, s.2)

def Engines.recording (engines : Engines ω) : Engines (ω × Records) where
  requireHumanApproval := engines.requireHumanApproval
  fallbackModel := engines.fallbackModel
  generateProject call := beside (engines.generateProject call)
  checkSyntax path language := beside (engines.checkSyntax path language)
  runSecurityScan path language folder := beside (engines.runSecurityScan path language folder)
  readFile path := beside (engines.readFile path)
  getAntiPatterns := beside engines.getAntiPatterns
  input := beside engines.input
  deploy source target language s :=
    match (engines.deploy source target language).run s.1 with
    | .ok record o => .ok record (o, s.2 ++ [(target, record)])
    | .error text o => .error text (o, s.2)

/-- The world without the account. -/
def plain (s : World (ω × Records)) : World ω := ⟨s.outside.1, s.model, s.auditLogs, s.metrics, s.events⟩

theorem simulates_beside (call : EStateM String ω α) : Simulates Prod.fst (beside call) call := by
  intro s
  show mapState Prod.fst (beside call s) = _
  unfold beside
  cases call.run s.1 <;> rfl

theorem simulates_outside {call : EStateM String (ω × Records) α} {call' : EStateM String ω α}
    (h : Simulates Prod.fst call call') : Simulates plain (outside call) (outside call') := by
  intro s
  show mapState plain (outside call s) = outside call' (plain s)
  have hcall : mapState Prod.fst (call.run s.outside) = call'.run (plain s).outside := h s.outside
  unfold outside
  rw [← hcall]
  cases call.run s.outside <;> rfl

/-! ## Before the approval -/

def isEarly : Event → Bool
  | .generate => true
  | .judge _ => true
  | .approve _ _ => false
  | .deploy _ => false

/-- Nobody has been asked, and nothing has been deployed. -/
structure Early (s : World (ω × Records)) : Prop where
  records : s.outside.2 = []
  events : ∀ event ∈ s.events, isEarly event = true

theorem follows_outside (call : EStateM String ω α) :
    Follows plain Early (outside (beside call)) (outside call) := by
  refine ⟨simulates_outside (simulates_beside call), fun s hs => ?_⟩
  unfold wp outside beside EStateM.run
  dsimp only
  cases call s.outside.1 <;> exact ⟨hs.records, hs.events⟩

theorem follows_logAudit (action component result : String) (error : Option String) :
    Follows plain Early (logAudit action component result error)
      (logAudit action component result error : M ω Unit) :=
  Follows.modify (fun _ => rfl) fun _ hs => ⟨hs.records, hs.events⟩

theorem follows_note {event : Event} (h : isEarly event = true) :
    Follows plain Early (note event) (note event : M ω Unit) := by
  refine Follows.modify (fun _ => rfl) ?_
  rintro s ⟨hrecords, hearly⟩
  refine ⟨hrecords, fun e he => ?_⟩
  rcases List.mem_append.mp he with he | he
  · exact hearly e he
  · rwa [List.mem_singleton.mp he]

section
variable {engines : Engines ω}

/-- In front of the approval, the account stays empty. -/
theorem relates_early : Relates (fun _ (call : M (ω × Records) _) (call' : M ω _) => Follows plain Early call call')
    engines.recording engines where
  toComposes := Composes.follows plain Early
  logAudit := follows_logAudit
  metrics _ := Follows.modify (fun _ => rfl) fun _ hs => ⟨hs.records, hs.events⟩
  requireHumanApproval := rfl
  checkSyntax _ _ := follows_outside _
  runSecurityScan _ _ _ := follows_outside _
  readFile _ := follows_outside _
  getAntiPatterns := follows_outside _
  input := follows_outside _

/-- The account is not seen. -/
theorem relates_plain : Relates (fun _ (call : M (ω × Records) _) (call' : M ω _) => Simulates plain call call')
    engines.recording engines where
  toComposes := Composes.simulates plain
  logAudit _ _ _ _ := (follows_logAudit _ _ _ _).simulates
  metrics _ := Simulates.modify fun _ => rfl
  requireHumanApproval := rfl
  checkSyntax _ _ := (follows_outside _).simulates
  runSecurityScan _ _ _ := (follows_outside _).simulates
  readFile _ := (follows_outside _).simulates
  getAntiPatterns := (follows_outside _).simulates
  input := (follows_outside _).simulates

theorem follows_generate (requirement : Requirement) (specification : Specification) (number : Nat)
    (repairContext : Option String) :
    Follows plain Early (generate engines.recording requirement specification number repairContext)
      (generate engines requirement specification number repairContext) := by
  apply Follows.get
  intro s
  apply Follows.bind
  · apply Follows.modify
    · intro t
      split_ifs <;> rfl
    · rintro t ⟨hrecords, hearly⟩
      split_ifs <;> exact ⟨hrecords, hearly⟩
  · intro _
    apply Follows.bind (follows_note rfl)
    intro _
    apply Follows.get
    intro t
    apply Follows.bind (follows_outside _)
    intro generatedFiles
    exact Follows.bind (Follows.modify (fun _ => rfl) fun _ hs => ⟨hs.records, hs.events⟩) fun _ => Follows.pure _

theorem follows_validateSpecification (specification : Specification) :
    Follows plain Early (validateSpecification specification) (validateSpecification specification : M ω Bool) :=
  relates_validateSpecification (Composes.follows plain Early) follows_logAudit specification

theorem follows_attempts (requirement : Requirement) (specification : Specification) (numbers : List Nat)
    (carried : Carried) : Follows plain Early (attempts engines.recording requirement specification numbers carried)
      (attempts engines requirement specification numbers carried) :=
  relates_early.attempts requirement (fun _ => follows_note rfl) specification (follows_generate _ _) numbers carried

theorem follows_requireHumanApproval (artifact : Artifact) :
    Follows plain Early (requireHumanApproval engines.recording artifact) (requireHumanApproval engines artifact) :=
  relates_requireHumanApproval (Composes.follows plain Early) follows_logAudit rfl (follows_outside _) artifact

theorem simulates_deploy (source target : String) (language : Language) :
    Simulates Prod.fst (engines.recording.deploy source target language)
      (engines.deploy source target language) := by
  intro s
  show mapState Prod.fst (engines.recording.deploy source target language s) = _
  unfold Engines.recording
  dsimp only
  cases (engines.deploy source target language).run s.1 <;> rfl

/-- **The account changes nothing.** -/
theorem simulates_runPipeline (requirement : Requirement) (architecture : String) (modules : List String) :
    Simulates plain (runPipeline engines.recording requirement architecture modules)
      (runPipeline engines requirement architecture modules) :=
  relates_plain.runPipeline requirement (fun _ => Simulates.modify fun _ => rfl)
    (fun _ _ _ => simulates_outside (simulates_deploy _ _ _))
    (fun specification _ _ => (follows_generate requirement specification _ _).simulates) architecture modules

/-! ## The deployments -/

/-- How the loop over the files ends: the calls of `deploy`, its answers, and the status that is returned. -/
inductive Ends (paths : List String) : List String → Records → Option ApprovalStatus → Prop
  | all {records : Records} : records.map Prod.fst = paths → (∀ record ∈ records, record.2.status = .deployed) →
    Ends paths paths records (some .deployed)
  | failed {records : Records} {last : String × DeploymentRecord} :
    (∀ record ∈ records, record.2.status = .deployed) → last.2.status ≠ .deployed →
    Ends paths ((records ++ [last]).map Prod.fst) (records ++ [last]) (some last.2.status)
  | raised {records : Records} {path : String} : (∀ record ∈ records, record.2.status = .deployed) →
    records.length < paths.length → Ends paths (records.map Prod.fst ++ [path]) records none

theorem Ends.cons {paths calls : List String} {records : Records} {status : Option ApprovalStatus} {path : String}
    {record : DeploymentRecord} (h : Ends paths calls records status) (hrecord : record.status = .deployed) :
    Ends (path :: paths) (path :: calls) ((path, record) :: records) status := by
  have hcons {records : Records} (hall : ∀ record ∈ records, record.2.status = .deployed) :
      ∀ r ∈ (path, record) :: records, r.2.status = .deployed :=
    List.forall_mem_cons.mpr ⟨hrecord, hall⟩
  cases h with
  | all hpaths hall => exact .all (congrArg (path :: ·) hpaths) (hcons hall)
  | @failed records last hall hlast => exact @Ends.failed _ ((path, record) :: records) last (hcons hall) hlast
  | @raised records last hall hlength =>
    exact @Ends.raised _ ((path, record) :: records) last (hcons hall) (Nat.succ_lt_succ hlength)

/-- No call comes behind an answer that is not `DEPLOYED`. -/
theorem Ends.stops {paths calls : List String} {records : Records} {status : Option ApprovalStatus}
    (h : Ends paths calls records status) {i : Nat} (hi : i + 1 < calls.length) :
    ∃ record, records[i]? = some record ∧ record.2.status = .deployed := by
  cases h with
  | all hpaths hall =>
    have hlength : i < records.length := by
      rw [← hpaths, List.length_map] at hi
      omega
    exact ⟨_, List.getElem?_eq_getElem hlength, hall _ (List.getElem_mem hlength)⟩
  | @failed records last hall hlast =>
    have hlength : i < records.length := by
      rw [List.length_map, List.length_append, List.length_singleton] at hi
      omega
    refine ⟨_, ?_, hall _ (List.getElem_mem hlength)⟩
    rw [List.getElem?_append_left hlength, List.getElem?_eq_getElem hlength]
  | raised hall _ =>
    have hlength : i < records.length := by
      rw [List.length_append, List.length_map, List.length_singleton] at hi
      omega
    exact ⟨_, List.getElem?_eq_getElem hlength, hall _ (List.getElem_mem hlength)⟩

theorem Ends.status_iff {paths calls : List String} {records : Records} {status : Option ApprovalStatus}
    (h : Ends paths calls records status) : status = some .deployed ↔
      records.map Prod.fst = paths ∧ ∀ record ∈ records, record.2.status = .deployed := by
  cases h with
  | all hpaths hall => exact iff_of_true rfl ⟨hpaths, hall⟩
  | failed hall hlast =>
    refine iff_of_false (fun hstatus => hlast (Option.some.inj hstatus)) fun hdone => hlast (hdone.2 _ ?_)
    exact List.mem_append_right _ (List.mem_singleton_self _)
  | raised hall hlength =>
    refine iff_of_false nofun fun hdone => ?_
    rw [← hdone.1, List.length_map] at hlength
    exact absurd hlength (lt_irrefl _)

/-- A status other than `DEPLOYED` is that of an answer. -/
theorem Ends.approved_iff {paths calls : List String} {records : Records} {status : Option ApprovalStatus}
    (h : Ends paths calls records status) :
    status = some .approved ↔ ∃ record ∈ records, record.2.status = .approved := by
  have hnone {records : Records} (hall : ∀ record ∈ records, record.2.status = .deployed) :
      ¬ ∃ record ∈ records, record.2.status = .approved := by
    rintro ⟨record, hrecord, happroved⟩
    rw [hall record hrecord] at happroved
    cases happroved
  cases h with
  | all hpaths hall => exact iff_of_false nofun (hnone hall)
  | failed hall hlast =>
    simp only [List.mem_append, List.mem_singleton, or_and_right, exists_or, exists_eq_left, Option.some.injEq]
    exact (or_iff_right (hnone hall)).symm
  | raised hall hlength => exact iff_of_false nofun (hnone hall)

theorem wp_deploy (source target : String) (language : Language) (s : World (ω × Records)) :
    wp (outside (engines.recording.deploy source target language))
      (fun record s' => s'.events = s.events ∧ s'.outside.2 = s.outside.2 ++ [(target, record)])
      (fun _ s' => s'.events = s.events ∧ s'.outside.2 = s.outside.2) s := by
  unfold wp outside Engines.recording EStateM.run
  dsimp only
  cases engines.deploy source target language s.outside.1 <;> exact ⟨rfl, rfl⟩

/-- Behind a loop over the files that began in `s`. -/
structure Deployed (requirement : Requirement) (files : List String) (status : Option ApprovalStatus)
    (s s' : World (ω × Records)) : Prop where
  ends : ∃ calls records, s'.events = s.events ++ calls.map .deploy ∧ s'.outside.2 = s.outside.2 ++ records ∧
    Ends (files.map (joinPath requirement.targetFolder)) calls records status

theorem wp_deployAll_recording (requirement : Requirement) (artifact : Artifact) (files : List String)
    (s : World (ω × Records)) : wp (deployAll engines.recording requirement artifact files)
      (fun returned s' => returned.generatedFiles = artifact.generatedFiles ∧
        Deployed requirement files (some returned.status) s s')
      (fun _ s' => Deployed requirement files none s s') s := by
  induction files generalizing s with
  | nil => exact ⟨rfl, [], [], (List.append_nil _).symm, (List.append_nil _).symm, .all rfl nofun⟩
  | cons file files ih =>
    have hgo {status : Option ApprovalStatus} {record : DeploymentRecord} {s₁ s₂ : World (ω × Records)}
        (hevents : s₁.events = s.events ++ [.deploy (joinPath requirement.targetFolder file)])
        (hrecords : s₁.outside.2 = s.outside.2 ++ [(joinPath requirement.targetFolder file, record)])
        (hrecord : record.status = .deployed) (h : Deployed requirement files status s₁ s₂) :
        Deployed requirement (file :: files) status s s₂ := by
      obtain ⟨calls, records, hevents₂, hrecords₂, hends⟩ := h
      refine ⟨_, _, ?_, ?_, hends.cons hrecord⟩
      · rw [hevents₂, hevents, List.append_assoc]
        rfl
      · rw [hrecords₂, hrecords, List.append_assoc]
        rfl
    rw [deployAll, wp_bind, note, wp_modify, wp_bind]
    refine wp_mono (wp_deploy _ _ _ _) (fun record s₁ hs₁ => ?_) fun e s₁ hs₁ => ?_
    · rw [wp_ite]
      refine ⟨fun hfailed => ?_, fun hok => ?_⟩
      · exact ⟨rfl, [_], [_], hs₁.1, hs₁.2, @Ends.failed _ [] (_, record) nofun hfailed⟩
      · refine wp_mono (ih s₁) (fun returned s₂ hs₂ => ?_) fun e s₂ hs₂ => ?_
        · exact ⟨hs₂.1, hgo hs₁.1 hs₁.2 (not_not.mp hok) hs₂.2⟩
        · exact hgo hs₁.1 hs₁.2 (not_not.mp hok) hs₂
    · refine ⟨[_], [], hs₁.1, ?_, @Ends.raised _ [] _ nofun (Nat.succ_pos _)⟩
      rw [hs₁.2, List.append_nil]

/-! ## The account of a run -/

/-- What the account of a run says, with the artifact that is returned. -/
inductive Account (requirement : Requirement) : World (ω × Records) → Option Artifact → Prop
  | early {s : World (ω × Records)} : Early s → Account requirement s none
  | refused {s : World (ω × Records)} {early : List Event} {artifact returned : Artifact} :
    (∀ event ∈ early, isEarly event = true) → s.events = early ++ [.approve artifact false] → s.outside.2 = [] →
    returned.status = .rejected → Account requirement s (some returned)
  | granted {s : World (ω × Records)} {early : List Event} {artifact : Artifact} {returned : Option Artifact}
    {calls : List String} :
    (∀ event ∈ early, isEarly event = true) → s.events = early ++ .approve artifact true :: calls.map .deploy →
    Ends (artifact.generatedFiles.map (joinPath requirement.targetFolder)) calls s.outside.2
      (returned.map (·.status)) →
    (∀ a ∈ returned, a.generatedFiles = artifact.generatedFiles) → Account requirement s returned

theorem wp_requireHumanApproval (artifact : Artifact) (s : World (ω × Records)) :
    wp (requireHumanApproval engines.recording artifact)
      (fun r _ => r.2.generatedFiles = artifact.generatedFiles) (fun _ _ => True) s := by
  unfold requireHumanApproval
  rw [wp_ite]
  refine ⟨fun _ => rfl, fun _ => ?_⟩
  rw [wp_bind]
  refine wp_cases (fun response s₁ _ => ?_) fun _ _ _ => trivial
  cases response with
  | none => rfl
  | some response =>
    dsimp only
    rw [wp_ite]
    exact ⟨fun _ => rfl, fun _ => rfl⟩

theorem wp_conclude_recording (requirement : Requirement) (artifact : Artifact) {s : World (ω × Records)}
    (hs : Early s) : wp (conclude engines.recording requirement (some artifact))
      (fun returned s' => Account requirement s' (some returned)) (fun _ s' => Account requirement s' none) s := by
  have happroval := wp_and (wp_requireHumanApproval artifact s)
    ((@follows_requireHumanApproval ω engines artifact).preserves s hs)
  rw [conclude, wp_bind]
  refine wp_mono happroval (fun r s₁ hs₁ => ?_) fun e s₁ hs₁ => .early hs₁.2
  obtain ⟨answer, asked⟩ := r
  obtain ⟨hfiles, hearly⟩ := hs₁
  dsimp only at hfiles ⊢
  rw [wp_bind, note, wp_modify, wp_ite]
  refine ⟨fun hno => ?_, fun hyes => ?_⟩
  · rw [hno]
    exact .refused hearly.events rfl hearly.records rfl
  · have hanswer : answer = true := by simpa using hyes
    have hgranted {returned : Option Artifact} {s₂ : World (ω × Records)}
        (h : Deployed requirement asked.generatedFiles (returned.map (·.status))
          { s₁ with events := s₁.events ++ [.approve artifact answer] } s₂)
        (hreturned : ∀ a ∈ returned, a.generatedFiles = artifact.generatedFiles) : Account requirement s₂ returned := by
      obtain ⟨calls, records, hevents, hrecords, hends⟩ := h
      rw [hearly.records, List.nil_append] at hrecords
      rw [hfiles, ← hrecords] at hends
      refine .granted hearly.events ?_ hends hreturned
      rw [hevents, hanswer, List.append_assoc]
      rfl
    refine wp_mono (wp_deployAll_recording requirement asked asked.generatedFiles _) (fun returned s₂ hs₂ => ?_)
      fun e s₂ hs₂ => hgranted hs₂ fun a ha => absurd ha (Option.not_mem_none a)
    refine hgranted hs₂.2 fun a ha => ?_
    rw [← Option.some.inj ha, hs₂.1, hfiles]

theorem wp_runPipeline_recording (requirement : Requirement) (architecture : String) (modules : List String)
    {s : World (ω × Records)} (hs : Early s) :
    wp (runPipeline engines.recording requirement architecture modules)
      (fun returned s' => Account requirement s' (some returned)) (fun _ s' => Account requirement s' none) s := by
  rw [runPipeline, wp_bind]
  refine wp_mono ((follows_logAudit _ _ _ _).preserves s hs) (fun _ s₁ hs₁ => ?_) fun e s₁ hs₁ => .early hs₁
  rw [wp_bind]
  refine wp_mono ((follows_validateSpecification _).preserves s₁ hs₁) (fun valid s₂ hs₂ => ?_)
    fun e s₂ hs₂ => .early hs₂
  rw [wp_ite]
  refine ⟨fun _ => ?_, fun _ => ?_⟩
  · rw [wp_bind]
    exact wp_mono ((follows_logAudit _ _ _ _).preserves s₂ hs₂) (fun _ s₃ hs₃ => .early hs₃) fun e s₃ hs₃ => .early hs₃
  · rw [wp_bind]
    refine wp_mono ((follows_attempts _ _ _ _).preserves s₂ hs₂) (fun carried s₃ hs₃ => ?_) fun e s₃ hs₃ => .early hs₃
    cases carried.artifact with
    | none => exact .early hs₃
    | some artifact => exact wp_conclude_recording requirement artifact hs₃

end

/-- The world behind the run, with the account of its deployments. -/
def Args.account (args : Args) (engines : Engines ω) (o : ω) (model : String) : World (ω × Records) :=
  after (runPipeline (engines.configured args).recording args.req args.architecture args.modules)
    (World.new (o, []) model)

/-- The artifact that is returned. -/
def Args.returned (args : Args) (engines : Engines ω) (o : ω) (model : String) : Option Artifact :=
  match args.run engines o model with
  | .ok artifact _ => some artifact
  | .error _ _ => none

theorem account_returned (args : Args) (engines : Engines ω) (o : ω) (model : String) :
    Account args.req (args.account engines o model) (args.returned engines o model) := by
  have hnew : Early (World.new ((o, []) : ω × Records) model) := ⟨rfl, nofun⟩
  have hwp := @wp_runPipeline_recording ω (engines.configured args) args.req args.architecture args.modules _ hnew
  have hrun : mapState plain _ = args.run engines o model :=
    @simulates_runPipeline ω (engines.configured args) args.req args.architecture args.modules (World.new (o, []) model)
  unfold Args.returned Args.account after
  unfold wp at hwp
  rw [← hrun]
  split at hwp
  · next artifact s' hcase =>
    rw [hcase]
    exact hwp
  · next e s' hcase =>
    rw [hcase]
    exact hwp

/-! ## What is reported -/

def Granted (events : List Event) : Prop := ∃ artifact, .approve artifact true ∈ events

/-- The deploy record of every one of the files is `DEPLOYED`. -/
def AllDeployed (args : Args) (files : List String) (records : Records) : Prop :=
  records.map Prod.fst = files.map (joinPath args.targetFolder) ∧ ∀ record ∈ records, record.2.status = .deployed

/-- The approved artifact has all its files deployed. -/
def Done (args : Args) (s : World (ω × Records)) : Prop :=
  ∃ artifact, .approve artifact true ∈ s.events ∧ AllDeployed args artifact.generatedFiles s.outside.2

/-- What is reported is what happened. -/
structure Truthful (engines : Engines ω) (args : Args) (o : ω) (model : String) : Prop where
  status : ∀ artifact ∈ args.returned engines o model, artifact.status = .deployed ↔
    Granted (args.account engines o model).events ∧
      AllDeployed args artifact.generatedFiles (args.account engines o model).outside.2
  stops : ∀ i, i + 1 < (deployCalls (args.account engines o model).events).length →
    ∃ record, (args.account engines o model).outside.2[i]? = some record ∧ record.2.status = .deployed
  exit : (main engines args o model).exitStatus = 0 ↔ ∃ artifact ∈ args.returned engines o model,
    Granted (args.account engines o model).events ∧
      AllDeployed args artifact.generatedFiles (args.account engines o model).outside.2

theorem deployCalls_early {events : List Event} (h : ∀ event ∈ events, isEarly event = true) :
    deployCalls events = [] := by
  refine List.filterMap_eq_nil_iff.mpr fun event hevent => ?_
  cases event with
  | deploy path => exact absurd (h _ hevent) Bool.false_ne_true
  | _ => rfl

theorem not_approve_early {events : List Event} (h : ∀ event ∈ events, isEarly event = true) (artifact : Artifact)
    (answer : Bool) : .approve artifact answer ∉ events := fun hevent => absurd (h _ hevent) Bool.false_ne_true

theorem exitStatus_main (engines : Engines ω) (args : Args) (o : ω) (model : String) :
    (main engines args o model).exitStatus = 0 ↔
      ∃ artifact ∈ args.returned engines o model, artifact.status = .approved := by
  unfold main Args.returned
  cases args.run engines o model with
  | ok artifact s' =>
    have hvalue : artifact.status.value = "approved" ↔ artifact.status = .approved := by
      cases artifact.status <;> simp [ApprovalStatus.value]
    simp only [Option.mem_def, Option.some.injEq, exists_eq_left', hvalue]
    split_ifs with happroved <;> simp [Report.exitStatus, happroved]
  | error e s' => simp [Report.exitStatus]

section
variable {args : Args} {s : World (ω × Records)} {returned : Option Artifact}

theorem not_done_early (h : Early s) : ¬ Granted s.events ∧ ¬ Done args s :=
  ⟨fun ⟨artifact, happrove⟩ => not_approve_early h.events artifact true happrove,
    fun ⟨artifact, happrove, _⟩ => not_approve_early h.events artifact true happrove⟩

theorem mem_approve_iff {early : List Event} {artifact a : Artifact} {answer : Bool} {calls : List String}
    (h : ∀ event ∈ early, isEarly event = true) :
    .approve a true ∈ early ++ .approve artifact answer :: calls.map .deploy ↔ a = artifact ∧ answer = true := by
  have hcalls : .approve a true ∉ calls.map Event.deploy := by simp
  rw [List.mem_append, or_iff_right (not_approve_early h a true), List.mem_cons, or_iff_left hcalls]
  simp [eq_comm]

theorem Account.stops (h : Account args.req s returned) {i : Nat} (hi : i + 1 < (deployCalls s.events).length) :
    ∃ record, s.outside.2[i]? = some record ∧ record.2.status = .deployed := by
  cases h with
  | early hearly =>
    rw [deployCalls_early hearly.events] at hi
    cases hi
  | refused hearly hevents =>
    rw [hevents, deployCalls_append, deployCalls_early hearly] at hi
    cases hi
  | granted hearly hevents hends =>
    rw [hevents, deployCalls_append, deployCalls_early hearly, List.nil_append] at hi
    refine hends.stops (hi.trans_eq ?_)
    exact congrArg List.length (deployCalls_map _)

theorem Account.status_iff (h : Account args.req s returned) {artifact : Artifact} (hreturned : artifact ∈ returned) :
    artifact.status = .deployed ↔ Granted s.events ∧ AllDeployed args artifact.generatedFiles s.outside.2 := by
  cases h with
  | early hearly => cases hreturned
  | @refused early approved a hearly hevents hrecords hstatus =>
    obtain rfl := Option.some.inj hreturned
    refine iff_of_false (fun hdeployed => ?_) ?_
    · rw [hstatus] at hdeployed
      cases hdeployed
    · rintro ⟨⟨a, happrove⟩, -⟩
      rw [hevents] at happrove
      exact Bool.false_ne_true ((@mem_approve_iff early approved a false [] hearly).mp happrove).2
  | @granted early approved a calls hearly hevents hends hfiles =>
    obtain rfl := hreturned
    have hgranted : Granted s.events := ⟨approved, by rw [hevents]; exact (mem_approve_iff hearly).mpr ⟨rfl, rfl⟩⟩
    rw [← Option.some_inj, hfiles artifact rfl]
    exact hends.status_iff.trans (and_iff_right hgranted).symm

theorem Account.approved_iff (h : Account args.req s returned) :
    (∃ artifact ∈ returned, artifact.status = .approved) ↔ ∃ record ∈ s.outside.2, record.2.status = .approved := by
  cases h with
  | early hearly =>
    rw [hearly.records]
    exact iff_of_false nofun nofun
  | refused hearly hevents hrecords hstatus =>
    rw [hrecords]
    refine iff_of_false ?_ nofun
    rintro ⟨artifact, hartifact, happroved⟩
    obtain rfl := Option.some.inj hartifact
    rw [hstatus] at happroved
    cases happroved
  | granted hearly hevents hends hfiles =>
    rw [← hends.approved_iff, Option.map_eq_some_iff]
    exact Iff.rfl

theorem Account.done_iff (h : Account args.req s returned) :
    (∃ artifact ∈ returned, Granted s.events ∧ AllDeployed args artifact.generatedFiles s.outside.2) ↔ Done args s := by
  cases h with
  | early hearly => exact iff_of_false (fun ⟨_, hnone, _⟩ => nomatch hnone) (not_done_early hearly).2
  | @refused early approved a hearly hevents hrecords hstatus =>
    have hnot (b : Artifact) : .approve b true ∉ s.events := by
      rw [hevents]
      exact fun happrove => Bool.false_ne_true ((@mem_approve_iff early approved b false [] hearly).mp happrove).2
    exact iff_of_false (fun ⟨_, _, ⟨b, happrove⟩, _⟩ => hnot b happrove) fun ⟨b, happrove, _⟩ => hnot b happrove
  | @granted early approved a calls hearly hevents hends hfiles =>
    have happrove (b : Artifact) : .approve b true ∈ s.events ↔ b = approved := by
      rw [hevents, mem_approve_iff hearly]
      exact and_iff_left rfl
    constructor
    · rintro ⟨artifact, hartifact, -, hall⟩
      refine ⟨approved, (happrove _).mpr rfl, ?_⟩
      rwa [← hfiles artifact hartifact]
    · rintro ⟨b, hb, hall⟩
      obtain rfl := (happrove b).mp hb
      obtain ⟨artifact, hartifact, -⟩ := Option.map_eq_some_iff.mp (hends.status_iff.mpr hall)
      refine ⟨artifact, hartifact, ⟨b, hb⟩, ?_⟩
      rwa [hfiles artifact hartifact]

end

/-- **What is reported** is true just when the approved artifact has not all its files deployed, unless a deploy record
says `APPROVED`. -/
theorem truthful_iff (engines : Engines ω) (args : Args) (o : ω) (model : String) :
    Truthful engines args o model ↔ ¬ Done args (args.account engines o model) ∧
      ∀ record ∈ (args.account engines o model).outside.2, record.2.status ≠ .approved := by
  have haccount := account_returned args engines o model
  have hexit := (exitStatus_main engines args o model).trans haccount.approved_iff
  have hexclude : Done args (args.account engines o model) →
      ¬ ∃ record ∈ (args.account engines o model).outside.2, record.2.status = .approved := by
    rintro ⟨artifact, -, -, hall⟩ ⟨record, hrecord, happroved⟩
    rw [hall record hrecord] at happroved
    cases happroved
  constructor
  · intro h
    have hiff := hexit.symm.trans (h.exit.trans haccount.done_iff)
    have hnot : ¬ Done args (args.account engines o model) := fun hdone => hexclude hdone (hiff.mpr hdone)
    exact ⟨hnot, fun record hrecord happroved => hnot (hiff.mp ⟨record, hrecord, happroved⟩)⟩
  · rintro ⟨hdone, hrecords⟩
    refine ⟨fun artifact hartifact => haccount.status_iff hartifact, fun i hi => haccount.stops hi, ?_⟩
    rw [hexit, haccount.done_iff]
    exact iff_of_false (fun ⟨record, hrecord, happroved⟩ => hrecords record hrecord happroved) hdone

/-- A program that comes through at the second attempt, is approved and is deployed, is reported as rejected. -/
theorem not_truthful_secondTry : ¬ Truthful secondTry
    ⟨"a program", .python, "loop-test", "/tmp/loop", "simple architecture", ["main"], false⟩ 0 "primary" := by
  intro h
  have hexit : (main secondTry ⟨"a program", .python, "loop-test", "/tmp/loop", "simple architecture", ["main"], false⟩
      0 "primary").exitStatus = 1 := by decide +kernel
  have hdeployed : (Args.returned ⟨"a program", .python, "loop-test", "/tmp/loop", "simple architecture", ["main"],
      false⟩ secondTry 0 "primary").map (·.status) = some .deployed := by decide +kernel
  obtain ⟨artifact, hartifact, hstatus⟩ := Option.map_eq_some_iff.mp hdeployed
  have hzero := h.exit.mpr ⟨artifact, hartifact, (h.status artifact hartifact).mp hstatus⟩
  rw [hexit] at hzero
  cases hzero

end

end Atlas.Agent
