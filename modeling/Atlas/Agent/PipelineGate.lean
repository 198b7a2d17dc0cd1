import Atlas.Agent.Pipeline

/-!
# The gates of the pipeline

* `Engines.Quiet` : no engine raises; `Silent` : a call that returns and leaves the account of events alone;
* `Passes` : an artifact that gets through both gates;
* `wp_attempt` : what a round of the loop can do; `wp_attempts`, `wp_conclude` : the loop, and the run behind it;
* `Gated` : what holds of the account of a run; `runPipeline_gated`.
-/

namespace Atlas.Agent
open Raising

section
variable {ω α : Type}

/-! ## Calls that do not raise -/

/-- The call returns, whatever the state. -/
def Returns (call : EStateM String ω α) : Prop := ∀ o, ∃ a o', call.run o = .ok a o'

/-- No engine raises. -/
structure Engines.Quiet (engines : Engines ω) : Prop where
  generateProject : ∀ call, Returns (engines.generateProject call)
  checkSyntax : ∀ path language, Returns (engines.checkSyntax path language)
  runSecurityScan : ∀ path language folder, Returns (engines.runSecurityScan path language folder)
  readFile : ∀ path, Returns (engines.readFile path)
  getAntiPatterns : Returns engines.getAntiPatterns
  input : Returns engines.input
  deploy : ∀ source target language, Returns (engines.deploy source target language)

/-- The call returns something with `P`, and the account of events is as before. -/
structure Silent (P : α → Prop) (call : M ω α) : Prop where
  holds : ∀ s, wp call (fun a s' => P a ∧ s'.events = s.events) (fun _ _ => False) s

namespace Silent
variable {β : Type} {P : α → Prop} {R : β → Prop}

theorem pure {a : α} (h : P a) : Silent P (pure a : M ω α) := ⟨fun _ => ⟨h, rfl⟩⟩

theorem bind {call : M ω α} {next : α → M ω β} (h : Silent P call) (hnext : ∀ a, P a → Silent R (next a)) :
    Silent R (call >>= next) := by
  refine ⟨fun s => ?_⟩
  rw [wp_bind]
  refine wp_mono (h.holds s) (fun a s' hs' => ?_) fun _ _ hfalse => hfalse
  rw [← hs'.2]
  exact (hnext a hs'.1).holds s'

theorem ite {c : Prop} [Decidable c] {call other : M ω α} (h : c → Silent P call) (hother : ¬ c → Silent P other) :
    Silent P (if c then call else other) := by
  split_ifs with hc
  · exact h hc
  · exact hother hc

theorem modify {f : World ω → World ω} (h : ∀ s, (f s).events = s.events) :
    Silent (fun _ => True) (modify f : M ω Unit) := ⟨fun s => ⟨trivial, h s⟩⟩

theorem logAudit (action component result : String) (error : Option String) :
    Silent (fun _ => True) (logAudit action component result error : M ω Unit) := modify fun _ => rfl

theorem outside {call : EStateM String ω α} (h : Returns call) : Silent (fun _ => True) (outside call) := by
  refine ⟨fun s => ?_⟩
  obtain ⟨a, o, hrun⟩ := h s.outside
  have hok : (Agent.outside call).run s = .ok a { s with outside := o } := by
    show Agent.outside call s = _
    rw [Agent.outside, hrun]
  unfold wp
  rw [hok]
  exact ⟨trivial, rfl⟩

/-- A program that goes on behind such a call. -/
theorem wp {call : M ω α} (h : Silent P call) {Q : α → World ω → Prop} {E : Failure → World ω → Prop} {s : World ω}
    (hQ : ∀ a s', P a → s'.events = s.events → Q a s') : wp call Q E s :=
  wp_mono (h.holds s) (fun a s' hs' => hQ a s' hs'.1 hs'.2) fun _ _ hfalse => hfalse.elim

end Silent

/-! ## The gates -/

def accepts (artifact : Artifact) : Bool :=
  artifact.securityFindings.all (·.severity ≠ .critical) && artifact.testResults.all (·.passed)

/-- The score of an artifact whose files are all checked. -/
def qualityOf (artifact : Artifact) : QualityScore :=
  computeQualityScore (artifact.testResults.all (·.passed)) artifact.securityFindings artifact.generatedFiles

/-- The artifact gets through both gates. -/
def Passes (artifact : Artifact) : Prop := (qualityOf artifact).passed = true ∧ accepts artifact = true

instance (artifact : Artifact) : Decidable (Passes artifact) := by
  unfold Passes
  infer_instance

def Valid (architecture : String) (modules : List String) : Prop := architecture ≠ "" ∧ modules ≠ []

theorem silent_validateSpecification (requirement : Requirement) (architecture : String) (modules : List String) :
    Silent (fun valid => valid = true ↔ Valid architecture modules)
      (validateSpecification (specify requirement architecture modules) : M ω Bool) := by
  unfold validateSpecification Valid
  refine Silent.bind (Silent.logAudit _ _ _ _) fun _ _ => Silent.ite (fun harchitecture => ?_) fun harchitecture => ?_
  · refine Silent.bind (Silent.logAudit _ _ _ _) fun _ _ => Silent.pure ?_
    exact iff_of_false Bool.false_ne_true fun hvalid => hvalid.1 harchitecture
  · refine Silent.ite (fun hmodules => ?_) fun hmodules => Silent.pure (iff_of_true rfl ⟨harchitecture, hmodules⟩)
    refine Silent.bind (Silent.logAudit _ _ _ _) fun _ _ => Silent.pure ?_
    exact iff_of_false Bool.false_ne_true fun hvalid => hvalid.2 hmodules

theorem silent_validateArtifact (artifact : Artifact) :
    Silent (· = accepts artifact) (validateArtifact artifact : M ω Bool) := by
  have hfindings : artifact.securityFindings.all (·.severity ≠ .critical) =
      decide (artifact.securityFindings.filter (·.severity = .critical) = []) := by
    rw [Bool.eq_iff_iff]
    simp
  have htests : artifact.testResults.all (·.passed) = decide (artifact.testResults.filter (!·.passed) = []) := by
    rw [Bool.eq_iff_iff]
    simp
  unfold validateArtifact accepts
  rw [hfindings, htests]
  refine Silent.bind (Silent.logAudit _ _ _ _) fun _ _ => Silent.ite (fun hcritical => ?_) fun hcritical => ?_
  · refine Silent.bind (Silent.logAudit _ _ _ _) fun _ _ => Silent.pure ?_
    rw [decide_eq_false hcritical, Bool.false_and]
  · refine Silent.ite (fun hfailed => ?_) fun hfailed => Silent.pure ?_
    · refine Silent.bind (Silent.logAudit _ _ _ _) fun _ _ => Silent.pure ?_
      rw [decide_eq_false hfailed, Bool.and_false]
    · rw [decide_eq_true (not_not.mp hcritical), decide_eq_true (not_not.mp hfailed), Bool.and_true]

/-! ## A round -/

section
variable {engines : Engines ω} (hquiet : engines.Quiet)
include hquiet

theorem silent_checkInto (path : String) (language : Language) (seen : Artifact × Bool)
    (hseen : seen.2 = seen.1.testResults.all (·.passed)) :
    Silent (fun next => next.2 = next.1.testResults.all (·.passed) ∧ next.1.generatedFiles = seen.1.generatedFiles)
      (checkInto engines path language seen) := by
  refine Silent.bind (Silent.outside (hquiet.checkSyntax path language)) fun result _ => Silent.pure ⟨?_, rfl⟩
  simp [hseen]

theorem silent_scanInto (path : String) (language : Language) (folder : String) (seen : Artifact × Bool)
    (hseen : seen.2 = seen.1.testResults.all (·.passed)) :
    Silent (fun next => next.2 = next.1.testResults.all (·.passed) ∧ next.1.generatedFiles = seen.1.generatedFiles)
      (scanInto engines path language folder seen) :=
  Silent.bind (Silent.outside (hquiet.runSecurityScan path language folder)) fun _ _ => Silent.pure ⟨hseen, rfl⟩

theorem silent_inspectFiles (language : Language) (folder : String) (paths : List String) (seen : Artifact × Bool)
    (hseen : seen.2 = seen.1.testResults.all (·.passed)) :
    Silent (fun next => next.2 = next.1.testResults.all (·.passed) ∧ next.1.generatedFiles = seen.1.generatedFiles)
      (inspectFiles engines language folder paths seen) := by
  induction paths generalizing seen with
  | nil => exact Silent.pure ⟨hseen, rfl⟩
  | cons path paths ih =>
    have hcheck : Silent
        (fun next => next.2 = next.1.testResults.all (·.passed) ∧ next.1.generatedFiles = seen.1.generatedFiles)
        (if language = .go then pure seen else checkInto engines (joinPath folder path) language seen) :=
      Silent.ite (fun _ => Silent.pure ⟨hseen, rfl⟩) fun _ => silent_checkInto hquiet _ _ _ hseen
    refine Silent.bind hcheck fun checked hchecked => ?_
    refine Silent.bind (silent_scanInto hquiet _ _ _ _ hchecked.1) fun scanned hscanned => ?_
    refine ⟨fun s => ?_⟩
    refine (ih scanned hscanned.1).wp fun next s' hnext hs' => ⟨⟨hnext.1, ?_⟩, hs'⟩
    rw [hnext.2, hscanned.2, hchecked.2]

theorem silent_inspect (language : Language) (folder : String) (sourceFiles : List String) (artifact : Artifact)
    (hartifact : artifact.testResults = []) :
    Silent (fun seen => seen.2 = seen.1.testResults.all (·.passed) ∧ seen.1.generatedFiles = artifact.generatedFiles)
      (inspect engines language folder sourceFiles artifact) := by
  have hstart : (artifact, true).2 = (artifact, true).1.testResults.all (·.passed) := by simp [hartifact]
  have hcheck : Silent
      (fun seen => seen.2 = seen.1.testResults.all (·.passed) ∧ seen.1.generatedFiles = artifact.generatedFiles)
      (if language = .go then checkInto engines folder language (artifact, true) else pure (artifact, true)) :=
    Silent.ite (fun _ => silent_checkInto hquiet _ _ _ hstart) fun _ => Silent.pure ⟨hstart, rfl⟩
  refine Silent.bind hcheck fun checked hchecked => ?_
  refine ⟨fun s => ?_⟩
  refine (silent_inspectFiles hquiet language folder sourceFiles checked hchecked.1).wp fun seen s' hseen hs' => ?_
  exact ⟨⟨hseen.1, hseen.2.trans hchecked.2⟩, hs'⟩

theorem silent_readAll (paths : List String) : Silent (fun _ => True) (readAll engines paths) := by
  induction paths with
  | nil => exact Silent.pure trivial
  | cons path paths ih => exact Silent.bind (Silent.outside (hquiet.readFile path)) fun _ _ => ih

theorem wp_generate (requirement : Requirement) (specification : Specification) (number : Nat)
    (repairContext : Option String) (s : World ω) :
    wp (generate engines requirement specification number repairContext)
      (fun _ s' => s'.events = s.events ++ [.generate]) (fun _ _ => False) s := by
  unfold generate note
  simp only [wp_bind, wp_get, wp_modify]
  refine (Silent.outside (hquiet.generateProject _)).wp fun _ s' _ hs' => ?_
  show s'.events = s.events ++ [.generate]
  rw [hs']
  split_ifs <;> rfl

/-- `LOOP_EXHAUSTED` is raised. -/
def Exhausted (e : Failure) : Prop := ∃ number score failures, e = .loopExhausted number score failures

theorem wp_retry (requirement : Requirement) (number : Nat) (artifact : Artifact) (sourceFiles : List String)
    (quality : QualityScore) (history : List AttemptRecord) (carried : Carried) (s : World ω) :
    wp (retry engines requirement number artifact sourceFiles quality history carried)
      (fun _ s' => s'.events = s.events ∧ number ≠ maxAttempts)
      (fun e s' => s'.events = s.events ∧ number = maxAttempts ∧ Exhausted e) s := by
  unfold retry
  rw [wp_bind]
  refine (Silent.outside hquiet.getAntiPatterns).wp fun antiPatterns s₁ _ hs₁ => ?_
  rw [wp_bind]
  refine @Silent.wp _ _ (fun _ => True) _ ?_ _ _ _ fun code s₂ _ hs₂ => ?_
  · cases sourceFiles with
    | nil => exact Silent.pure trivial
    | cons path paths => exact Silent.outside (hquiet.readFile _)
  have hevents : s₂.events = s.events := hs₂.trans hs₁
  split_ifs with hlast
  · exact ⟨hevents, hlast, _, _, _, rfl⟩
  · exact ⟨hevents, hlast⟩

/-- A round is one attempt, and ends the loop just when its artifact passes. -/
theorem wp_attempt (requirement : Requirement) (specification : Specification) (number : Nat) (carried : Carried)
    (s : World ω) :
    wp (attempt engines requirement specification number carried)
      (fun r s' => ∃ artifact, s'.events = s.events ++ [.generate, .judge artifact] ∧
        (if r.1 = true then Passes artifact ∧ r.2.artifact = some artifact
          else ¬ Passes artifact ∧ number ≠ maxAttempts))
      (fun e s' => ∃ artifact, s'.events = s.events ++ [.generate, .judge artifact] ∧ ¬ Passes artifact ∧
        number = maxAttempts ∧ Exhausted e) s := by
  unfold attempt
  rw [wp_bind]
  refine wp_mono (wp_generate hquiet requirement specification number carried.repairContext s)
    (fun generatedFiles s₁ hs₁ => ?_) fun _ _ hfalse => hfalse.elim
  rw [wp_bind]
  refine (silent_inspect hquiet _ _ _ _ rfl).wp fun seen s₂ hseen hs₂ => ?_
  have hquality : computeQualityScore seen.2 seen.1.securityFindings generatedFiles = qualityOf seen.1 := by
    rw [qualityOf, ← hseen.1, hseen.2]
  dsimp only
  rw [hquality]
  unfold note
  rw [wp_bind, wp_modify, wp_bind]
  refine (silent_readAll hquiet _).wp fun _ s₃ _ hs₃ => ?_
  have hevents : s₃.events = s.events ++ [.generate, .judge seen.1] := by
    rw [hs₃, hs₂, hs₁, List.append_assoc]
    rfl
  have hthrough : Silent (fun through => through = true ↔ Passes seen.1)
      (if (qualityOf seen.1).passed = true then validateArtifact seen.1 else pure false : M ω Bool) := by
    refine Silent.ite (fun hpassed => ⟨fun s => ?_⟩) fun hpassed => Silent.pure ?_
    · refine (silent_validateArtifact seen.1).wp fun accepted s' haccepted hs' => ⟨?_, hs'⟩
      rw [haccepted]
      exact (and_iff_right hpassed).symm
    · exact iff_of_false nofun fun h => hpassed h.1
  rw [wp_bind]
  refine hthrough.wp fun through s₄ hpasses hs₄ => ?_
  rw [← hs₄] at hevents
  rw [wp_ite]
  refine ⟨fun htrue => ?_, fun hfalse => ?_⟩
  · exact ⟨seen.1, hevents, by simpa using hpasses.mp htrue⟩
  · have hfails : ¬ Passes seen.1 := fun h => hfalse (hpasses.mpr h)
    rw [wp_bind]
    refine wp_mono (wp_retry hquiet _ _ _ _ _ _ _ s₄) (fun carried' s' hs' => ?_) fun e s' hs' => ?_
    · exact ⟨seen.1, hs'.1.trans hevents, by simpa using ⟨hfails, hs'.2⟩⟩
    · exact ⟨seen.1, hs'.1.trans hevents, hfails, hs'.2⟩

/-! ## The loop -/

/-- The account of attempts with these artifacts. -/
def roundsOf (artifacts : List Artifact) : List Event := artifacts.flatMap fun artifact => [.generate, .judge artifact]

/-- The loop ends with the first artifact that passes, or with the last attempt. -/
theorem wp_attempts (requirement : Requirement) (specification : Specification) (first count : Nat)
    (hlast : first + count = maxAttempts) (carried : Carried) (s : World ω) :
    wp (attempts engines requirement specification (List.range' first (count + 1)) carried)
      (fun r s' => ∃ failed artifact, s'.events = s.events ++ roundsOf (failed ++ [artifact]) ∧
        failed.length ≤ count ∧ (∀ other ∈ failed, ¬ Passes other) ∧ Passes artifact ∧ r.artifact = some artifact)
      (fun e s' => ∃ failed, s'.events = s.events ++ roundsOf failed ∧ failed.length = count + 1 ∧
        (∀ other ∈ failed, ¬ Passes other) ∧ Exhausted e) s := by
  induction count generalizing first carried s with
  | zero =>
    rw [List.range'_succ, attempts, wp_bind]
    refine wp_mono (wp_attempt hquiet requirement specification first carried s) (fun r s₁ hs₁ => ?_)
      fun e s₁ hs₁ => ?_
    · obtain ⟨artifact, hevents, hcase⟩ := hs₁
      split_ifs at hcase with hstop
      · rw [wp_ite]
        refine ⟨fun _ => ?_, fun hgo => absurd hstop hgo⟩
        exact ⟨[], artifact, hevents, Nat.le_refl 0, nofun, hcase⟩
      · exact absurd hlast hcase.2
    · obtain ⟨artifact, hevents, hfails, _, hexhausted⟩ := hs₁
      exact ⟨[artifact], hevents, rfl, by simpa using hfails, hexhausted⟩
  | succ count ih =>
    rw [List.range'_succ, attempts, wp_bind]
    refine wp_mono (wp_attempt hquiet requirement specification first carried s) (fun r s₁ hs₁ => ?_)
      fun e s₁ hs₁ => ?_
    · obtain ⟨artifact, hevents, hcase⟩ := hs₁
      rw [wp_ite]
      split_ifs at hcase with hstop
      · refine ⟨fun _ => ?_, fun hgo => absurd hstop hgo⟩
        exact ⟨[], artifact, hevents, Nat.zero_le _, nofun, hcase⟩
      · refine ⟨fun hgo => absurd hgo hstop, fun _ => ?_⟩
        refine wp_mono (ih (first + 1) (by omega) r.2 s₁) (fun r' s₂ hs₂ => ?_) fun e s₂ hs₂ => ?_
        · obtain ⟨failed, accepted, hrest, hlength, hfailed, hpasses, hartifact⟩ := hs₂
          refine ⟨artifact :: failed, accepted, ?_, Nat.succ_le_succ hlength, ?_, hpasses, hartifact⟩
          · rw [hrest, hevents, List.append_assoc]
            rfl
          · exact List.forall_mem_cons.mpr ⟨hcase.1, hfailed⟩
        · obtain ⟨failed, hrest, hlength, hfailed, hexhausted⟩ := hs₂
          refine ⟨artifact :: failed, ?_, congrArg (· + 1) hlength, ?_, hexhausted⟩
          · rw [hrest, hevents, List.append_assoc]
            rfl
          · exact List.forall_mem_cons.mpr ⟨hcase.1, hfailed⟩
    · obtain ⟨_, _, _, hmax, _⟩ := hs₁
      omega

/-! ## The run -/

/-- The human is asked about an artifact, and it is given back with another status at most. -/
theorem silent_requireHumanApproval (artifact : Artifact) :
    Silent (fun r => r.2.generatedFiles = artifact.generatedFiles) (requireHumanApproval engines artifact) := by
  unfold requireHumanApproval
  refine Silent.ite (fun _ => Silent.pure rfl) fun _ => ?_
  refine Silent.bind (Silent.outside hquiet.input) fun response _ => ?_
  cases response with
  | none => exact Silent.pure rfl
  | some response =>
    refine Silent.ite (fun _ => ?_) fun _ => ?_
    · exact Silent.bind (Silent.logAudit _ _ _ _) fun _ _ => Silent.pure rfl
    · exact Silent.bind (Silent.logAudit _ _ _ _) fun _ _ => Silent.pure rfl

/-- The files are deployed one after the other, up to the first one that fails. -/
theorem wp_deployAll (requirement : Requirement) (artifact : Artifact) (files : List String) (s : World ω) :
    wp (deployAll engines requirement artifact files)
      (fun _ s' => ∃ paths, s'.events = s.events ++ paths.map .deploy ∧
        paths <+: files.map (joinPath requirement.targetFolder)) (fun _ _ => False) s := by
  induction files generalizing s with
  | nil => exact ⟨[], (List.append_nil _).symm, List.nil_prefix⟩
  | cons file files ih =>
    rw [deployAll, wp_bind, note, wp_modify, wp_bind]
    refine (Silent.outside (hquiet.deploy _ _ _)).wp fun record s₁ _ hs₁ => ?_
    rw [wp_ite]
    refine ⟨fun _ => ⟨[joinPath requirement.targetFolder file], hs₁, ?_⟩, fun _ => ?_⟩
    · exact List.cons_prefix_cons.mpr ⟨rfl, List.nil_prefix⟩
    · refine wp_mono (ih s₁) (fun _ s₂ hs₂ => ?_) fun _ _ hfalse => hfalse
      obtain ⟨paths, hpaths, hpart⟩ := hs₂
      refine ⟨joinPath requirement.targetFolder file :: paths, ?_, List.cons_prefix_cons.mpr ⟨rfl, hpart⟩⟩
      rw [hpaths, hs₁, List.append_assoc]
      rfl

/-- The artifact is put to the human, and its files are deployed only behind a yes. -/
theorem wp_conclude (requirement : Requirement) (artifact : Artifact) (s : World ω) :
    wp (conclude engines requirement (some artifact))
      (fun _ s' => ∃ (answer : Bool) (paths : List String),
        s'.events = s.events ++ .approve artifact answer :: paths.map .deploy ∧ (answer = false → paths = []) ∧
          paths <+: artifact.generatedFiles.map (joinPath requirement.targetFolder)) (fun _ _ => False) s := by
  rw [conclude, wp_bind]
  refine (silent_requireHumanApproval hquiet artifact).wp fun r s₁ hfiles hs₁ => ?_
  obtain ⟨answer, asked⟩ := r
  dsimp only at hfiles ⊢
  rw [wp_bind, note, wp_modify, wp_ite, hs₁]
  refine ⟨fun hno => ?_, fun hyes => ?_⟩
  · exact ⟨answer, [], rfl, fun _ => rfl, List.nil_prefix⟩
  · refine wp_mono (wp_deployAll hquiet requirement asked asked.generatedFiles _) (fun _ s₂ hs₂ => ?_)
      fun _ _ hfalse => hfalse
    obtain ⟨paths, hpaths, hpart⟩ := hs₂
    refine ⟨answer, paths, ?_, fun hno => absurd hno hyes, hfiles ▸ hpart⟩
    rw [hpaths, List.append_assoc]
    rfl

end

/-! ## The gate -/

/-- The artifacts of the attempts. -/
def judged (events : List Event) : List Artifact :=
  events.filterMap fun
    | .judge artifact => some artifact
    | _ => none

/-- The artifacts that have been put to the human. -/
def asked (events : List Event) : List Artifact :=
  events.filterMap fun
    | .approve artifact _ => some artifact
    | _ => none

/-- The paths that `deploy` has been called with. -/
def deployCalls (events : List Event) : List String :=
  events.filterMap fun
    | .deploy path => some path
    | _ => none

/-- What the account of a run says about the gates; `raised` : the exception that ended it. -/
structure Gated (requirement : Requirement) (architecture : String) (modules : List String) (events : List Event)
    (raised : Option Failure) : Prop where
  bounded : events.count .generate ≤ maxAttempts
  judged : (judged events).length = events.count .generate
  /-- Behind the first artifact that passes there is no attempt. -/
  stops : ∀ before artifact after, events = before ++ .judge artifact :: after → Passes artifact → .generate ∉ after
  /-- The human is asked once for that artifact, and for no other. -/
  approval : asked events = (Agent.judged events).filter Passes ∧ (asked events).length ≤ 1
  deploys : ∀ before path after, events = before ++ .deploy path :: after →
    ∃ artifact, .approve artifact true ∈ before
  /-- A run that returns has come to an artifact that passes, has put it to the human, and has deployed none but its
  files. -/
  returns : raised = none → ∃ front artifact, Agent.judged events = front ++ [artifact] ∧ Passes artifact ∧
    asked events = [artifact] ∧ deployCalls events <+: artifact.generatedFiles.map (joinPath requirement.targetFolder)
  exhausted : (∃ e, raised = some e ∧ Exhausted e) ↔
    Valid architecture modules ∧ ∀ artifact ∈ Agent.judged events, ¬ Passes artifact
  /-- `LOOP_EXHAUSTED` comes behind the last attempt. -/
  attempted : (∃ e, raised = some e ∧ Exhausted e) → (Agent.judged events).length = maxAttempts
  /-- With a valid specification, nothing else is raised. -/
  raises : ∀ e, raised = some e → Valid architecture modules → Exhausted e
  invalid : ¬ Valid architecture modules → events = []

/-- Where an element of a list stands that is not in its first part. -/
theorem split_of_notMem {β : Type} {front back before after : List β} {x : β}
    (h : front ++ back = before ++ x :: after) (hx : x ∉ front) :
    ∃ between, before = front ++ between ∧ back = between ++ x :: after := by
  rcases List.append_eq_append_iff.mp h with ⟨between, hbefore, hback⟩ | ⟨between, hfront, hafter⟩
  · exact ⟨between, hbefore, hback⟩
  · cases between with
    | nil => exact ⟨[], by simpa using hfront.symm, hafter.symm⟩
    | cons y between =>
      rw [List.cons_append, List.cons.injEq] at hafter
      rw [hfront, hafter.1] at hx
      exact absurd (List.mem_append_right _ (List.mem_cons_self ..)) hx

/-! ### Accounts of attempts -/

theorem roundsOf_cons (artifact : Artifact) (artifacts : List Artifact) :
    roundsOf (artifact :: artifacts) = .generate :: .judge artifact :: roundsOf artifacts := rfl

theorem roundsOf_append (artifacts others : List Artifact) :
    roundsOf (artifacts ++ others) = roundsOf artifacts ++ roundsOf others := List.flatMap_append

theorem count_roundsOf (artifacts : List Artifact) : (roundsOf artifacts).count .generate = artifacts.length := by
  induction artifacts with
  | nil => rfl
  | cons artifact artifacts ih => simp [roundsOf_cons, ih]

theorem judged_roundsOf (artifacts : List Artifact) : judged (roundsOf artifacts) = artifacts := by
  induction artifacts with
  | nil => rfl
  | cons artifact artifacts ih => exact congrArg (artifact :: ·) ih

theorem asked_roundsOf (artifacts : List Artifact) : asked (roundsOf artifacts) = [] := by
  induction artifacts with
  | nil => rfl
  | cons artifact artifacts ih => exact ih

theorem mem_roundsOf {artifacts : List Artifact} {event : Event} (h : event ∈ roundsOf artifacts) :
    event = .generate ∨ ∃ artifact ∈ artifacts, event = .judge artifact := by
  obtain ⟨artifact, hartifact, hevent⟩ := List.mem_flatMap.mp h
  rcases List.mem_cons.mp hevent with hevent | hevent
  · exact Or.inl hevent
  · exact Or.inr ⟨artifact, hartifact, List.mem_singleton.mp hevent⟩

theorem deployCalls_append (events others : List Event) :
    deployCalls (events ++ others) = deployCalls events ++ deployCalls others := List.filterMap_append

theorem deployCalls_map (calls : List String) : deployCalls (calls.map .deploy) = calls := by
  induction calls with
  | nil => rfl
  | cons call calls ih => exact congrArg (call :: ·) ih

theorem deployCalls_roundsOf (artifacts : List Artifact) : deployCalls (roundsOf artifacts) = [] := by
  induction artifacts with
  | nil => rfl
  | cons artifact artifacts ih => exact ih

variable {requirement : Requirement}

/-- There is no attempt at an invalid specification. -/
theorem gated_invalid {architecture : String} {modules : List String} (hinvalid : ¬ Valid architecture modules)
    (text : String) : Gated requirement architecture modules [] (some (.valueError text)) where
  bounded := Nat.zero_le _
  judged := rfl
  stops := fun before _ _ hevents => by simp at hevents
  approval := ⟨rfl, Nat.zero_le _⟩
  deploys := fun before _ _ hevents => by simp at hevents
  returns := nofun
  exhausted := by
    refine iff_of_false ?_ fun h => hinvalid h.1
    rintro ⟨e, he, number, score, failures, rfl⟩
    cases he
  attempted := by
    rintro ⟨e, he, number, score, failures, rfl⟩
    cases he
  raises := fun _ _ hvalid => absurd hvalid hinvalid
  invalid := fun _ => rfl

/-- No attempt has passed. -/
theorem gated_exhausted {architecture : String} {modules : List String} {failed : List Artifact} {e : Failure}
    (hvalid : Valid architecture modules) (hlength : failed.length = maxAttempts)
    (hfailed : ∀ artifact ∈ failed, ¬ Passes artifact) (hexhausted : Exhausted e) :
    Gated requirement architecture modules (roundsOf failed) (some e) where
  bounded := (count_roundsOf failed).trans_le hlength.le
  judged := by rw [judged_roundsOf, count_roundsOf]
  stops := by
    intro before artifact after hevents hpasses
    have hmem : Event.judge artifact ∈ roundsOf failed := hevents ▸ List.mem_append_right _ (List.mem_cons_self ..)
    rcases mem_roundsOf hmem with h | ⟨other, hother, h⟩
    · cases h
    · cases h
      exact absurd hpasses (hfailed artifact hother)
  approval := by
    rw [asked_roundsOf, judged_roundsOf]
    exact ⟨(List.filter_eq_nil_iff.mpr fun a ha => by simpa using hfailed a ha).symm, Nat.zero_le _⟩
  deploys := by
    intro before path after hevents
    have hmem : Event.deploy path ∈ roundsOf failed := hevents ▸ List.mem_append_right _ (List.mem_cons_self ..)
    rcases mem_roundsOf hmem with h | ⟨other, _, h⟩ <;> cases h
  returns := nofun
  exhausted := by
    rw [judged_roundsOf]
    exact iff_of_true ⟨e, rfl, hexhausted⟩ ⟨hvalid, hfailed⟩
  attempted := fun _ => by rw [judged_roundsOf, hlength]
  raises := fun _ he _ => Option.some.inj he ▸ hexhausted
  invalid := fun hnot => absurd hvalid hnot

/-- The account of a run whose last attempt has passed. -/
def concluded (failed : List Artifact) (artifact : Artifact) (answer : Bool) (paths : List String) : List Event :=
  roundsOf (failed ++ [artifact]) ++ .approve artifact answer :: paths.map .deploy

section
variable (failed : List Artifact) (artifact : Artifact) (answer : Bool) (paths : List String)

theorem count_concluded : (concluded failed artifact answer paths).count .generate = failed.length + 1 := by
  have hpaths : (paths.map Event.deploy).count .generate = 0 := by simp [List.count_eq_zero]
  have happrove : Event.approve artifact answer ≠ .generate := nofun
  rw [concluded, List.count_append, count_roundsOf, List.count_cons_of_ne happrove, hpaths, List.length_append]
  rfl

theorem judged_concluded : judged (concluded failed artifact answer paths) = failed ++ [artifact] := by
  have hpaths : judged (paths.map Event.deploy) = [] := by simp [judged]
  have happend (l₁ l₂ : List Event) : judged (l₁ ++ l₂) = judged l₁ ++ judged l₂ := List.filterMap_append
  rw [concluded, happend, judged_roundsOf]
  show _ ++ judged (paths.map Event.deploy) = _
  rw [hpaths, List.append_nil]

theorem asked_concluded : asked (concluded failed artifact answer paths) = [artifact] := by
  have hpaths : asked (paths.map Event.deploy) = [] := by simp [asked]
  have happend (l₁ l₂ : List Event) : asked (l₁ ++ l₂) = asked l₁ ++ asked l₂ := List.filterMap_append
  rw [concluded, happend, asked_roundsOf]
  show artifact :: asked (paths.map Event.deploy) = _
  rw [hpaths]

theorem deployCalls_concluded : deployCalls (concluded failed artifact answer paths) = paths := by
  rw [concluded, deployCalls_append, deployCalls_roundsOf]
  exact deployCalls_map paths

end

/-- The last attempt has passed, and has been put to the human. -/
theorem gated_concluded {architecture : String} {modules : List String} {failed : List Artifact} {artifact : Artifact}
    {answer : Bool} {paths : List String} (hvalid : Valid architecture modules)
    (hlength : failed.length < maxAttempts) (hfailed : ∀ other ∈ failed, ¬ Passes other) (hpasses : Passes artifact)
    (hno : answer = false → paths = [])
    (hpart : paths <+: artifact.generatedFiles.map (joinPath requirement.targetFolder)) :
    Gated requirement architecture modules (concluded failed artifact answer paths) none where
  bounded := by
    rw [count_concluded]
    exact hlength
  judged := by
    rw [judged_concluded, count_concluded, List.length_append]
    rfl
  stops := by
    intro before other after hevents hother
    -- an earlier attempt has not passed, so that the one that is judged here is the last
    have hsplit : roundsOf failed ++ (.generate :: .judge artifact :: .approve artifact answer :: paths.map .deploy) =
        before ++ .judge other :: after := by
      rw [← hevents, concluded, roundsOf_append, List.append_assoc]
      rfl
    have hnot : Event.judge other ∉ roundsOf failed := by
      intro hmem
      rcases mem_roundsOf hmem with h | ⟨a, ha, h⟩
      · cases h
      · cases h
        exact hfailed other ha hother
    obtain ⟨between, _, hback⟩ := split_of_notMem hsplit hnot
    cases between with
    | nil => cases hback
    | cons event between =>
      rw [List.cons_append, List.cons.injEq] at hback
      intro hmem
      have hlater : Event.generate ∈ between ++ .judge other :: after :=
        List.mem_append_right _ (List.mem_cons_of_mem _ hmem)
      rw [← hback.2] at hlater
      simp at hlater
  approval := by
    have hnone : failed.filter (fun a => decide (Passes a)) = [] :=
      List.filter_eq_nil_iff.mpr fun a ha => by simpa using hfailed a ha
    have hlast : [artifact].filter (fun a => decide (Passes a)) = [artifact] := by simp [hpasses]
    rw [asked_concluded, judged_concluded, List.filter_append, hnone, hlast]
    exact ⟨rfl, Nat.le_refl 1⟩
  deploys := by
    intro before path after hevents
    have hnot : Event.deploy path ∉ roundsOf (failed ++ [artifact]) := by
      intro hmem
      rcases mem_roundsOf hmem with h | ⟨a, _, h⟩ <;> cases h
    obtain ⟨between, hbefore, hback⟩ := split_of_notMem hevents hnot
    cases between with
    | nil => cases hback
    | cons event between =>
      rw [List.cons_append, List.cons.injEq] at hback
      have hyes : answer = true := by
        by_contra hnot
        rw [hno (Bool.eq_false_of_not_eq_true hnot)] at hback
        simp at hback
      refine ⟨artifact, ?_⟩
      rw [hbefore, ← hback.1, hyes]
      exact List.mem_append_right _ (List.mem_cons_self ..)
  returns := fun _ => ⟨failed, artifact, judged_concluded .., hpasses, asked_concluded .., by
    rwa [deployCalls_concluded]⟩
  exhausted := by
    rw [judged_concluded]
    refine iff_of_false ?_ fun h => ?_
    · rintro ⟨e, he, -⟩
      cases he
    · exact h.2 artifact (List.mem_append_right _ (List.mem_singleton_self _)) hpasses
  attempted := by
    rintro ⟨e, he, -⟩
    cases he
  raises := nofun
  invalid := fun hnot => absurd hvalid hnot

/-- Every run of the pipeline whose engines do not raise obeys the gates. -/
theorem runPipeline_gated (engines : Engines ω) (hquiet : engines.Quiet) (requirement : Requirement)
    (architecture : String) (modules : List String) (s : World ω) :
    wp (runPipeline engines requirement architecture modules)
      (fun _ s' => Gated requirement architecture modules s'.events none)
      (fun e s' => Gated requirement architecture modules s'.events (some e)) { s with events := [] } := by
  unfold runPipeline
  rw [wp_bind]
  refine (Silent.logAudit _ _ _ _).wp fun _ s₁ _ hs₁ => ?_
  rw [wp_bind]
  refine (silent_validateSpecification requirement architecture modules).wp fun valid s₂ hvalid hs₂ => ?_
  have hstart : s₂.events = [] := hs₂.trans hs₁
  rw [wp_ite]
  refine ⟨fun hfalse => ?_, fun htrue => ?_⟩
  · have hinvalid : ¬ Valid architecture modules := fun h => absurd (hvalid.mpr h) (by simp [hfalse])
    rw [wp_bind]
    refine (Silent.logAudit _ _ _ _).wp fun _ s₃ _ hs₃ => ?_
    rw [wp_throw, hs₃, hstart]
    exact gated_invalid hinvalid _
  · have hvalid : Valid architecture modules := hvalid.mp (by simpa using htrue)
    rw [wp_bind]
    refine wp_mono (wp_attempts hquiet requirement _ 1 4 rfl {} s₂) (fun carried s₃ hs₃ => ?_) fun e s₃ hs₃ => ?_
    · obtain ⟨failed, artifact, hevents, hlength, hfailed, hpasses, hartifact⟩ := hs₃
      rw [hartifact]
      refine wp_mono (wp_conclude hquiet requirement artifact s₃) (fun _ s₄ hs₄ => ?_) fun _ _ hfalse => hfalse.elim
      obtain ⟨answer, paths, hrest, hno, hpart⟩ := hs₄
      rw [hrest, hevents, hstart, List.nil_append]
      exact gated_concluded hvalid (Nat.lt_succ_of_le hlength) hfailed hpasses hno hpart
    · obtain ⟨failed, hevents, hlength, hfailed, hexhausted⟩ := hs₃
      rw [hevents, hstart, List.nil_append]
      exact gated_exhausted hvalid hlength hfailed hexhausted

end

/-- Engines that come to code with correct syntax at the second attempt, before a human who approves. -/
def secondTry : Engines Nat where
  requireHumanApproval := true
  fallbackModel := "fallback"
  generateProject := fun _ n => .ok ["main.py"] (n + 1)
  checkSyntax := fun _ _ n => .ok ⟨2 ≤ n, []⟩ n
  runSecurityScan := fun _ _ _ n => .ok [] n
  readFile := fun _ n => .ok (some "pass") n
  getAntiPatterns := fun n => .ok [] n
  input := fun n => .ok (some "yes") n
  deploy := fun _ target _ n => .ok ⟨target, .deployed, none, none⟩ n

theorem secondTry_quiet : secondTry.Quiet where
  generateProject _ _ := ⟨_, _, rfl⟩
  checkSyntax _ _ _ := ⟨_, _, rfl⟩
  runSecurityScan _ _ _ _ := ⟨_, _, rfl⟩
  readFile _ _ := ⟨_, _, rfl⟩
  getAntiPatterns _ := ⟨_, _, rfl⟩
  input _ := ⟨_, _, rfl⟩
  deploy _ _ _ _ := ⟨_, _, rfl⟩

def loopTest : Requirement := ⟨"a program", .python, "loop-test", "/tmp/loop"⟩

theorem runPipeline_gated_secondTry :
    wp (runPipeline secondTry loopTest "simple architecture" ["main"])
      (fun _ s' => Gated loopTest "simple architecture" ["main"] s'.events none)
      (fun e s' => Gated loopTest "simple architecture" ["main"] s'.events (some e)) ⟨0, "primary", [], {}, []⟩ :=
  runPipeline_gated secondTry secondTry_quiet _ _ _ ⟨0, "primary", [], {}, []⟩

end Atlas.Agent
