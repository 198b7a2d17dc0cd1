import Atlas.Agent.PipelineWalk
import Atlas.Agent.Generator

/-!
# What is reused: the generator in the pipeline

* `Engines.Preserve` : what no engine breaks; `preserves_runPipeline` : no run breaks it;
* `Engines.withGenerator` : the engines, with the generator among them, and account kept of what is done with its memory
  and of the answers of the human;
* `Approved` : an experience of an attempt that a human has approved, by that account;
* `Vetted` : what `get_positive` returns is approved; `reused_approved_iff`.
-/

namespace Atlas.Agent
open Raising Memory

/-! ## What a run preserves -/

section
variable {ω α : Type}

/-- No engine breaks `I`. -/
structure Engines.Preserve (I : ω → Prop) (engines : Engines ω) : Prop where
  generateProject : ∀ call, Preserves I (engines.generateProject call)
  checkSyntax : ∀ path language, Preserves I (engines.checkSyntax path language)
  runSecurityScan : ∀ path language folder, Preserves I (engines.runSecurityScan path language folder)
  readFile : ∀ path, Preserves I (engines.readFile path)
  getAntiPatterns : Preserves I engines.getAntiPatterns
  input : Preserves I engines.input
  deploy : ∀ source target language, Preserves I (engines.deploy source target language)

/-- `I` of the world outside. -/
def Outside (I : ω → Prop) (s : World ω) : Prop := I s.outside

variable {I : ω → Prop}

theorem preserves_outside {call : EStateM String ω α} (h : Preserves I call) :
    Preserves (Outside I) (outside call) := by
  intro s hs
  have hcall := h s.outside hs
  unfold wp EStateM.run at hcall ⊢
  unfold outside EStateM.run
  cases hrun : call s.outside with
  | ok a o =>
    rw [hrun] at hcall
    exact hcall
  | error text o =>
    rw [hrun] at hcall
    exact hcall

theorem preserves_modify {f : World ω → World ω} (h : ∀ s, (f s).outside = s.outside) :
    Preserves (Outside I) (modify f : M ω Unit) := by
  apply Preserves.modify
  intro s hs
  unfold Outside
  rwa [h s]

theorem preserves_logAudit (action component result : String) (error : Option String) :
    Preserves (Outside I) (logAudit action component result error) := preserves_modify fun _ => rfl

theorem preserves_note (event : Event) : Preserves (Outside I) (note event) := preserves_modify fun _ => rfl

section
variable {engines : Engines ω} (h : engines.Preserve I)
include h

theorem relates_outside : Relates (fun _ (call _ : M ω _) => Preserves (Outside I) call) engines engines where
  toComposes := Composes.preserves _
  logAudit := preserves_logAudit
  metrics _ := preserves_modify fun _ => rfl
  requireHumanApproval := rfl
  checkSyntax _ _ := preserves_outside (h.checkSyntax _ _)
  runSecurityScan _ _ _ := preserves_outside (h.runSecurityScan _ _ _)
  readFile _ := preserves_outside (h.readFile _)
  getAntiPatterns := preserves_outside h.getAntiPatterns
  input := preserves_outside h.input

theorem preserves_generate (requirement : Requirement) (specification : Specification) (number : Nat)
    (repairContext : Option String) :
    Preserves (Outside I) (generate engines requirement specification number repairContext) := by
  apply Preserves.get
  intro s
  apply Preserves.bind
  · apply preserves_modify
    intro t
    split_ifs <;> rfl
  · intro _
    apply Preserves.bind (preserves_note _)
    intro _
    apply Preserves.get
    intro t
    apply Preserves.bind (preserves_outside (h.generateProject _))
    exact fun _ => Preserves.bind (preserves_modify fun _ => rfl) fun _ => Preserves.pure _

theorem preserves_runPipeline (requirement : Requirement) (architecture : String) (modules : List String) :
    Preserves (Outside I) (runPipeline engines requirement architecture modules) :=
  (relates_outside h).runPipeline requirement preserves_note (fun _ _ _ => preserves_outside (h.deploy _ _ _))
    (fun _ _ _ => preserves_generate h requirement _ _ _) architecture modules

end

end

/-! ## The account -/

/-- What is done with the memory of the generator, and what a human says, if anything. -/
inductive Call
  | attempt
  /-- `get_positive`, for the `number`-th of the prompts. -/
  | positive (language projectName : String) (number limit : Nat)
  | record (e : Experience)
  | answer (yes : Option Bool)
  deriving DecidableEq

/-- `prompts` : how many there have been. -/
structure Watched (ω : Type) where
  outside : ω
  prompts : Nat
  calls : List Call

section
variable {ω ε α : Type}

def Watched.note (call : Call) (w : Watched ω) : Watched ω := { w with calls := w.calls ++ [call] }

/-- A call that leaves the account alone. -/
def unnoted (call : EStateM ε ω α) : EStateM ε (Watched ω) α := fun w =>
  match call.run w.outside with
  | .ok a o => .ok a { w with outside := o }
  | .error e o => .error e { w with outside := o }

/-- The calls of `get_positive` come before the prompt is made and behind the name of the model. -/
def Generator.Surroundings.watched (surroundings : Generator.Surroundings ω) (language projectName model : String) :
    Generator.Surroundings (Watched ω) where
  tables := surroundings.tables
  printable := surroundings.printable
  cwd := surroundings.cwd
  promptHash := surroundings.promptHash
  makedirs path := unnoted (surroundings.makedirs path)
  writeText path text := unnoted (surroundings.writeText path text)
  readText path := unnoted (surroundings.readText path)
  exist path := unnoted (surroundings.exist path)
  generateCode prompt target := do
    modify fun w => { w.note (.positive language projectName w.prompts 2) with prompts := w.prompts + 1 }
    unnoted (surroundings.generateCode prompt target)
  model := do
    modify fun w => w.note (.positive language projectName (w.prompts - 1) 3)
    return model
  stamp := unnoted surroundings.stamp
  appendLine e := do
    unnoted (surroundings.appendLine e)
    modify (Watched.note (.record e))

/-- What the generator reads of a specification. -/
def Specification.spec (specification : Specification) : Generator.Spec where
  language := specification.requirement.language
  projectName := specification.requirement.projectName
  description := specification.requirement.description
  architecture := specification.architecture
  modules := specification.modules.map some

def Generator.Failure.text : Generator.Failure → String
  | .runtimeError text => text
  | .other text => text

abbrev Reviewed (ω : Type) := Generator.State (Watched ω)

/-- `self.generator.generate_project` -/
def generateProject (surroundings : Generator.Surroundings ω) (call : GenerateCall) :
    EStateM String (Reviewed ω) (List String) := fun s =>
  let spec := call.specification.spec
  let surroundings := surroundings.watched spec.language.value spec.projectName call.model
  let program := Generator.generateProject surroundings spec call.targetFolder.toList call.repairContext
  match program.run { s with outside := s.outside.note .attempt } with
  | .ok files s' => .ok (files.map String.ofList) s'
  | .error e s' => .error e.text s'

/-- A call of an engine beside the generator. -/
def beyond (call : EStateM String ω α) : EStateM String (Reviewed ω) α := fun s =>
  match (unnoted call).run s.outside with
  | .ok a w => .ok a { s with outside := w }
  | .error text w => .error text { s with outside := w }

/-- The engines, with the generator among them. -/
def Engines.withGenerator (engines : Engines ω) (surroundings : Generator.Surroundings ω) : Engines (Reviewed ω) where
  requireHumanApproval := engines.requireHumanApproval
  fallbackModel := engines.fallbackModel
  generateProject := Agent.generateProject surroundings
  checkSyntax path language := beyond (engines.checkSyntax path language)
  runSecurityScan path language folder := beyond (engines.runSecurityScan path language folder)
  readFile path := beyond (engines.readFile path)
  getAntiPatterns := beyond engines.getAntiPatterns
  input := do
    let response ← beyond engines.input
    modify fun s => { s with outside := s.outside.note (.answer (response.map saysYes)) }
    return response
  deploy source target language := beyond (engines.deploy source target language)

/-! ## Runs of pipelines -/

/-- A run of the pipeline; or a new `Orchestrator()`, which has read the experiences from the file. -/
inductive Step
  | pipeline (requirement : Requirement) (architecture : String) (modules : List String)
  | restart (model : String)

def Step.run (engines : Engines ω) (surroundings : Generator.Surroundings ω) (s : World (Reviewed ω)) :
    Step → World (Reviewed ω)
  | .pipeline requirement architecture modules =>
    after (runPipeline (engines.withGenerator surroundings) requirement architecture modules) s
  | .restart model => ⟨s.outside, model, [], {}, []⟩

/-- A run of pipelines, from an empty memory, whichever way each of them ends. -/
def session (engines : Engines ω) (surroundings : Generator.Surroundings ω) (o : ω) (model : String)
    (steps : List Step) : Reviewed ω :=
  (steps.foldl (Step.run engines surroundings) ⟨⟨⟨o, 0, []⟩, .empty, []⟩, model, [], {}, []⟩).outside

/-! ## What is reused -/

/-- The experiences that have been recorded, as the memory has them. -/
def remembered (calls : List Call) : Dict String Experience :=
  calls.foldl (fun index call => match call with
    | .record e => index.set e.id e
    | _ => index) .empty

/-- The experiences of the last attempt, until the human has been asked about it; those of the attempts that have been
approved and rejected. -/
structure Tally where
  pending : List Experience := []
  approved : List Experience := []
  rejected : List Experience := []

def Tally.next (tally : Tally) : Call → Tally
  | .attempt => { tally with pending := [] }
  | .positive _ _ _ _ => tally
  | .record e => { tally with pending := tally.pending ++ [e] }
  | .answer none => { tally with pending := [] }
  | .answer (some true) => { tally with pending := [], approved := tally.approved ++ tally.pending }
  | .answer (some false) => { tally with pending := [], rejected := tally.rejected ++ tally.pending }

/-- The experience is of an attempt that a human has approved, and of none that a human has rejected. -/
def Approved (calls : List Call) (e : Experience) : Prop :=
  e ∈ (calls.foldl Tally.next {}).approved ∧ e ∉ (calls.foldl Tally.next {}).rejected

/-- Behind the calls `seen`, `get_positive` was called for a prompt for the module, with the memory as it was. -/
def Asked (s : Reviewed ω) (seen : List Call) (language module : String) (memory : LearningMemory) (limit : Nat) :
    Prop :=
  ∃ projectName number name text, seen ++ [.positive language projectName number limit] <+: s.outside.calls ∧
    s.prompts[number]? = some (.module name memory, text) ∧ module = projectName ++ "/" ++ name

/-- What `get_positive` has returned had been approved by then. -/
def Vetted (s : Reviewed ω) : Prop :=
  ∀ seen language module memory limit, Asked s seen language module memory limit →
    ∀ e ∈ memory.getPositive language module limit, Approved seen e

/-- What concerns the module, in the order in which it has been recorded. -/
def concerning (language module : String) (index : Dict String Experience) : List Experience :=
  index.values.filter fun e => e.artifact.language = language ∧ module.toList <:+: e.artifact.module.toList

/-- The oldest of what had been recorded about a module, in whatever attempts, had been approved. -/
def OldestApproved (s : Reviewed ω) : Prop :=
  ∀ seen language module memory limit, Asked s seen language module memory limit →
    ∀ e ∈ (concerning language module (remembered seen)).take limit, Approved seen e

/-! ## What an account says -/

theorem remembered_concat (calls : List Call) (call : Call) : remembered (calls ++ [call]) = match call with
    | .record e => (remembered calls).set e.id e
    | _ => remembered calls := List.foldl_concat ..

theorem mem_calls_of_remembered {calls : List Call} {e : Experience} (h : e ∈ (remembered calls).values) :
    .record e ∈ calls := by
  induction calls using List.reverseRecOn with
  | nil => cases h
  | append_singleton calls call ih =>
    rw [remembered_concat] at h
    cases call with
    | record e' =>
      rcases Dict.mem_values_set h with rfl | h
      · exact List.mem_append_right _ (List.mem_singleton_self _)
      · exact List.mem_append_left _ (ih h)
    | _ => exact List.mem_append_left _ (ih h)

/-- How the generator has recorded an experience: as approved, with a middling score. -/
def Tentative (e : Experience) : Prop := e.outcome.humanDecision = "approved" ∧ e.outcome.qualityScore = 1 / 2

/-- The best are the oldest. -/
theorem getPositive_eq {memory : LearningMemory} (h : ∀ e ∈ memory.index.values, Tentative e)
    (language module : String) (limit : Nat) :
    memory.getPositive language module limit = (concerning language module memory.index).take limit := by
  have hfilter : (memory.index.values.filter fun e => e.outcome.humanDecision = "approved" ∧
      e.artifact.language = language ∧ module.toList <:+: e.artifact.module.toList) =
      concerning language module memory.index := by
    refine List.filter_congr fun e he => ?_
    simp only [(h e he).1, true_and]
  unfold LearningMemory.getPositive
  dsimp only
  rw [hfilter, List.mergeSort_of_pairwise]
  refine List.pairwise_of_forall_mem_list fun e he e' he' => ?_
  rw [(h e (List.mem_of_mem_filter he)).2, (h e' (List.mem_of_mem_filter he')).2]
  exact decide_eq_true le_rfl

/-- What holds between the calls. -/
structure Inv (s : Reviewed ω) : Prop where
  prompts : s.outside.prompts = s.prompts.length
  memory : s.memory.index = remembered s.outside.calls
  recorded : ∀ e, .record e ∈ s.outside.calls → Tentative e
  asked : ∀ seen language projectName number limit,
    seen ++ [.positive language projectName number limit] <+: s.outside.calls → number < s.prompts.length ∧
      ∀ name memory text, s.prompts[number]? = some (.module name memory, text) → memory.index = remembered seen

theorem Inv.vetted_iff {s : Reviewed ω} (h : Inv s) : Vetted s ↔ OldestApproved s := by
  refine forall_congr' fun seen => forall_congr' fun language => forall_congr' fun module => forall_congr' fun memory =>
    forall_congr' fun limit => forall_congr' fun hasked => ?_
  obtain ⟨projectName, number, name, text, hbefore, hprompt, -⟩ := hasked
  have hindex := (h.asked _ _ _ _ _ hbefore).2 _ _ _ hprompt
  rw [← hindex, getPositive_eq]
  intro e he
  rw [hindex] at he
  refine h.recorded e (hbefore.subset ?_)
  exact List.mem_append_left _ (mem_calls_of_remembered he)

/-! ## Runs -/

/-- `J` does not look at the world outside. -/
def Blind (J : Reviewed ω → Prop) : Prop :=
  ∀ s o, J s → J { s with outside := { s.outside with outside := o } }

theorem blind_inv : Blind (Inv : Reviewed ω → Prop) := fun _ _ h => ⟨h.prompts, h.memory, h.recorded, h.asked⟩

theorem wp_generator_outside {call : EStateM Generator.Failure (Watched ω) α} {Q : α → Reviewed ω → Prop}
    {E : Generator.Failure → Reviewed ω → Prop} {s : Reviewed ω} : wp (Generator.outside call) Q E s ↔
      wp call (fun a w => Q a { s with outside := w }) (fun e w => E e { s with outside := w }) s.outside := by
  unfold wp Generator.outside EStateM.run
  dsimp only
  cases call s.outside <;> rfl

theorem wp_unnoted {call : EStateM ε ω α} {Q : α → Watched ω → Prop} {E : ε → Watched ω → Prop} {w : Watched ω}
    (hQ : ∀ a o, Q a { w with outside := o }) (hE : ∀ e o, E e { w with outside := o }) :
    wp (unnoted call) Q E w := by
  unfold wp unnoted EStateM.run
  dsimp only
  cases call w.outside with
  | ok a o => exact hQ a o
  | error e o => exact hE e o

theorem preserves_unnoted {J : Reviewed ω → Prop} (hJ : Blind J) (call : EStateM Generator.Failure ω α) :
    Preserves J (Generator.outside (unnoted call)) := by
  intro s hs
  rw [wp_generator_outside]
  exact wp_unnoted (fun _ o => hJ s o hs) fun _ o => hJ s o hs

/-- One more call. -/
theorem Inv.next {s s' : Reviewed ω} (h : Inv s) {call : Call}
    (hcalls : s'.outside.calls = s.outside.calls ++ [call]) (hgrows : s.prompts <+: s'.prompts)
    (hprompts : s'.outside.prompts = s'.prompts.length)
    (hmemory : s'.memory.index = remembered (s.outside.calls ++ [call]))
    (hrecord : ∀ e, call = .record e → Tentative e)
    (hpositive : ∀ language projectName number limit, call = .positive language projectName number limit →
      number < s'.prompts.length ∧ ∀ name memory text, s'.prompts[number]? = some (.module name memory, text) →
        memory.index = remembered s.outside.calls) : Inv s' := by
  refine ⟨hprompts, by rw [hmemory, hcalls], fun e he => ?_, fun seen language projectName number limit hseen => ?_⟩
  · rw [hcalls] at he
    rcases List.mem_append.mp he with he | he
    · exact h.recorded e he
    · exact hrecord e (List.mem_singleton.mp he).symm
  · rw [hcalls] at hseen
    rcases List.prefix_concat_iff.mp hseen with heq | hseen
    · obtain ⟨rfl, hcall⟩ := List.append_inj' heq rfl
      exact hpositive _ _ _ _ (List.cons.inj hcall).1.symm
    · obtain ⟨hlt, hold⟩ := h.asked _ _ _ _ _ hseen
      obtain ⟨more, hmore⟩ := hgrows
      rw [← hmore, List.getElem?_append_left hlt]
      exact ⟨hlt.trans_le (by simp), hold⟩

theorem Inv.attempt {s : Reviewed ω} (h : Inv s) : Inv { s with outside := s.outside.note .attempt } :=
  h.next rfl (List.prefix_refl _) h.prompts (h.memory.trans (remembered_concat _ .attempt).symm) nofun nofun

theorem Inv.answer {s : Reviewed ω} (h : Inv s) (yes : Option Bool) :
    Inv { s with outside := s.outside.note (.answer yes) } :=
  h.next rfl (List.prefix_refl _) h.prompts (h.memory.trans (remembered_concat _ (.answer yes)).symm) nofun nofun

/-- The last prompt is for the module, with the memory as it is. -/
structure Prompted (name : String) (s : Reviewed ω) : Prop where
  inv : Inv s
  prompted : ∃ text, s.prompts.getLast? = some (.module name s.memory, text)

theorem blind_prompted (name : String) : Blind (Prompted name : Reviewed ω → Prop) :=
  fun s o h => ⟨blind_inv s o h.inv, h.prompted⟩

section
variable {surroundings : Generator.Surroundings ω} {language projectName model : String}

theorem wp_generateCode_watched {s : Reviewed ω} (h : Inv s) {subject : Generator.Subject}
    (hsubject : ∀ name memory, subject = .module name memory → memory = s.memory) (text target : String) :
    wp (Generator.generateCode (surroundings.watched language projectName model) subject text target)
      (fun _ s' => Inv s' ∧ s'.memory = s.memory ∧ s'.prompts = s.prompts ++ [(subject, text)])
      (fun _ s' => Inv s') s := by
  have hinv : Inv { s with
      prompts := s.prompts ++ [(subject, text)]
      outside := { s.outside.note (.positive language projectName s.outside.prompts 2) with
        prompts := s.outside.prompts + 1 } } := by
    refine h.next rfl (List.prefix_append _ _) ?_
      (h.memory.trans (remembered_concat _ (.positive _ _ _ _)).symm) nofun ?_
    · rw [List.length_append, List.length_singleton, h.prompts]
    · rintro _ _ _ _ ⟨⟩
      rw [h.prompts, List.getElem?_append_right le_rfl, Nat.sub_self]
      refine ⟨by simp, ?_⟩
      rintro name memory _ ⟨⟩
      rw [hsubject name memory rfl, h.memory]
  rw [Generator.generateCode, wp_bind, wp_modify, wp_generator_outside]
  unfold Generator.Surroundings.watched
  dsimp only
  rw [wp_bind, wp_modify]
  exact wp_unnoted (fun _ o => ⟨blind_inv _ o hinv, rfl, rfl⟩) fun _ o => blind_inv _ o hinv

theorem preserves_filePath {J : Reviewed ω → Prop} (hJ : Blind J) (targetDir : Files.Path) (target : Language)
    (name : String) : Preserves J
      (Generator.filePath (surroundings.watched language projectName model) targetDir target name) := by
  apply Preserves.ite
  · exact Preserves.bind (preserves_unnoted hJ _) fun _ => Preserves.pure _
  · exact Preserves.pure _

theorem preserves_model (name : String) : Preserves (Prompted name)
    (Generator.outside (surroundings.watched language projectName model).model) := by
  intro s hs
  obtain ⟨hinv, text, hlast⟩ := hs
  rw [wp_generator_outside]
  show Prompted name
    { s with outside := s.outside.note (.positive language projectName (s.outside.prompts - 1) 3) }
  refine ⟨hinv.next rfl (List.prefix_refl _) hinv.prompts
    (hinv.memory.trans (remembered_concat _ (.positive _ _ _ _)).symm) nofun ?_, text, hlast⟩
  rintro _ _ _ _ ⟨⟩
  rw [List.getLast?_eq_getElem?, ← hinv.prompts] at hlast
  rw [hlast, ← hinv.memory]
  refine ⟨(List.getElem?_eq_some_iff.mp hlast).1, ?_⟩
  rintro _ _ _ ⟨⟩
  rfl

theorem wp_record_watched {s : Reviewed ω} (h : Inv s) (source : Source) (method : Method)
    (artifact : Memory.Artifact) (reason : String) (antiPatterns : List String) :
    wp (Generator.record (surroundings.watched language projectName model) source method artifact .approved reason
      (1 / 2) antiPatterns) (fun _ => Inv) (fun _ => Inv) s := by
  rw [Generator.record, wp_bind, wp_generator_outside]
  refine wp_unnoted (fun stamp o => ?_) fun _ o => blind_inv _ o h
  rw [wp_bind, wp_modify, wp_bind, wp_generator_outside]
  unfold Generator.Surroundings.watched
  dsimp only
  rw [wp_bind]
  refine wp_unnoted (fun _ o' => ?_) fun _ o' => blind_inv _ o' h
  rw [wp_modify, wp_modify]
  refine h.next rfl (List.prefix_refl _) h.prompts ?_ ?_ nofun
  · rw [remembered_concat, ← h.memory]
    rfl
  · rintro _ ⟨⟩
    exact ⟨rfl, rfl⟩

theorem preserves_generateModule (spec : Generator.Spec) (targetDir : Files.Path)
    (repairContext module : Option String) : Preserves Inv (Generator.generateModule
      (surroundings.watched language projectName model) spec targetDir repairContext module) := by
  intro s hs
  rw [Generator.generateModule, wp_bind, wp_get, wp_bind]
  refine wp_mono (wp_generateCode_watched hs ?_ _ _) (fun response s₁ hs₁ => ?_) fun _ _ hs₁ => hs₁
  · rintro _ _ ⟨⟩
    rfl
  have hprompted : Prompted (module.getD "main") s₁ :=
    ⟨hs₁.1, _, by rw [hs₁.2.2, hs₁.2.1, List.getLast?_append, List.getLast?_singleton, Option.some_or]⟩
  rw [wp_bind]
  refine wp_mono (preserves_filePath (blind_prompted _) _ _ _ s₁ hprompted) (fun path s₂ hs₂ => ?_)
    fun _ _ hs₂ => hs₂.inv
  rw [wp_bind]
  refine wp_mono (preserves_unnoted (blind_prompted _) _ s₂ hs₂) (fun _ s₃ hs₃ => ?_) fun _ _ hs₃ => hs₃.inv
  rw [wp_bind]
  refine wp_mono (preserves_model _ s₃ hs₃) (fun name s₄ hs₄ => ?_) fun _ _ hs₄ => hs₄.inv
  rw [wp_bind]
  exact wp_mono (wp_record_watched hs₄.inv _ _ _ _ _) (fun _ _ hs₅ => hs₅) fun _ _ hs₅ => hs₅

theorem preserves_generateModules (spec : Generator.Spec) (targetDir : Files.Path) (repairContext : Option String)
    (modules : List (Option String)) : Preserves Inv (Generator.generateModules
      (surroundings.watched language projectName model) spec targetDir repairContext modules) := by
  induction modules with
  | nil => exact Preserves.pure _
  | cons module modules ih =>
    apply Preserves.bind (preserves_generateModule _ _ _ _)
    exact fun _ => Preserves.bind ih fun _ => Preserves.pure _

theorem preserves_generateTests (targetDir file : Files.Path) : Preserves Inv
    (Generator.generateTests (surroundings.watched language projectName model) targetDir file) := by
  apply Preserves.ite (Preserves.pure _)
  apply Preserves.bind (preserves_unnoted blind_inv _)
  intro mainCode
  apply Preserves.tryCatch
  · apply Preserves.bind
    · intro s hs
      refine wp_mono (wp_generateCode_watched hs (fun _ _ hsubject => ?_) _ _) (fun _ _ hs' => hs'.1) fun _ _ hs' => hs'
      cases hsubject
    · exact fun _ => Preserves.bind (preserves_unnoted blind_inv _) fun _ => Preserves.pure _
  · intro e
    cases e with
    | runtimeError text => exact Preserves.pure _
    | other text => exact Preserves.throw _

theorem preserves_generateAllTests (targetDir : Files.Path) (files : List Files.Path) : Preserves Inv
    (Generator.generateAllTests (surroundings.watched language projectName model) targetDir files) := by
  induction files with
  | nil => exact Preserves.pure _
  | cons file files ih =>
    apply Preserves.bind (preserves_generateTests _ _)
    exact fun _ => Preserves.bind ih fun _ => Preserves.pure _

theorem preserves_writeManifest (spec : Generator.Spec) (targetDir : Files.Path) : Preserves Inv
    (Generator.writeManifest (surroundings.watched language projectName model) spec targetDir) := by
  unfold Generator.writeManifest
  split
  · exact Preserves.pure _
  · apply Preserves.bind (preserves_unnoted blind_inv _)
    intro exist
    apply Preserves.ite (Preserves.pure _)
    exact Preserves.bind (preserves_unnoted blind_inv _) fun _ => Preserves.pure _

theorem preserves_watched (spec : Generator.Spec) (targetDir : Files.Path) (repairContext : Option String) :
    Preserves Inv (Generator.generateProject (surroundings.watched language projectName model) spec targetDir
      repairContext) := by
  apply Preserves.bind (preserves_unnoted blind_inv _)
  intro _
  apply Preserves.bind (preserves_generateModules _ _ _ _)
  intro files
  apply Preserves.bind
  · exact Preserves.ite (preserves_generateAllTests _ _) (Preserves.pure _)
  · exact fun tests => Preserves.bind (preserves_writeManifest _ _) fun _ => Preserves.pure _

end

theorem preserves_generateProject (surroundings : Generator.Surroundings ω) (call : GenerateCall) :
    Preserves Inv (generateProject surroundings call) := by
  intro s hs
  let spec := call.specification.spec
  have hprogram := @preserves_watched ω (surroundings) spec.language.value spec.projectName call.model spec
    call.targetFolder.toList call.repairContext _ hs.attempt
  unfold wp EStateM.run at hprogram
  unfold wp generateProject EStateM.run
  dsimp only
  split at hprogram
  · next files s' hrun =>
    rw [hrun]
    exact hprogram
  · next e s' hrun =>
    rw [hrun]
    exact hprogram

theorem preserves_beyond (call : EStateM String ω α) : Preserves Inv (beyond call) := by
  intro s hs
  unfold wp beyond unnoted EStateM.run
  dsimp only
  cases call s.outside.outside with
  | ok a o => exact blind_inv s o hs
  | error text o => exact blind_inv s o hs

theorem preserve_withGenerator (engines : Engines ω) (surroundings : Generator.Surroundings ω) :
    (engines.withGenerator surroundings).Preserve Inv where
  generateProject := preserves_generateProject surroundings
  checkSyntax _ _ := preserves_beyond _
  runSecurityScan _ _ _ := preserves_beyond _
  readFile _ := preserves_beyond _
  getAntiPatterns := preserves_beyond _
  input := by
    apply Preserves.bind (preserves_beyond _)
    intro response
    apply Preserves.bind
    · exact Preserves.modify fun s hs => hs.answer _
    · exact fun _ => Preserves.pure _
  deploy _ _ _ := preserves_beyond _

theorem inv_session (engines : Engines ω) (surroundings : Generator.Surroundings ω) (o : ω) (model : String)
    (steps : List Step) : Inv (session engines surroundings o model steps) := by
  have hsteps (steps : List Step) (s : World (Reviewed ω)) (hs : Outside Inv s) :
      Outside Inv (steps.foldl (Step.run engines surroundings) s) := by
    induction steps generalizing s with
    | nil => exact hs
    | cons step steps ih =>
      apply ih
      cases step with
      | pipeline requirement architecture modules =>
        exact after_of_wp (preserves_runPipeline (preserve_withGenerator engines surroundings) _ _ _ s hs)
      | restart model => exact hs
  refine hsteps steps _ ⟨rfl, rfl, nofun, fun seen _ _ _ _ hseen => ?_⟩
  exact absurd (List.append_eq_nil_iff.mp (List.prefix_nil.mp hseen)).2 (List.cons_ne_nil _ _)

/-- **What is reused** has been approved just when the oldest of what had been recorded about a module had been. -/
theorem reused_approved_iff (engines : Engines ω) (surroundings : Generator.Surroundings ω) (o : ω) (model : String)
    (steps : List Step) : Vetted (session engines surroundings o model steps) ↔
      OldestApproved (session engines surroundings o model steps) :=
  (inv_session engines surroundings o model steps).vetted_iff

end

/-! ## A rejected artifact -/

/-- Code that gets through the gates, before a human who rejects it. -/
def rejecting : Engines Nat where
  requireHumanApproval := true
  fallbackModel := "fallback"
  generateProject _ n := .ok [] n
  checkSyntax _ _ n := .ok ⟨true, []⟩ n
  runSecurityScan _ _ _ n := .ok [] n
  readFile _ n := .ok none n
  getAntiPatterns n := .ok [] n
  input n := .ok (some "no") n
  deploy _ target _ n := .ok ⟨target, .deployed, none, none⟩ n

/-- Everything outside the generator answers, with the ids in order. -/
def numbering : Generator.Surroundings Nat where
  tables := Regex.Tables.ascii
  printable _ := true
  cwd := []
  promptHash _ := ""
  makedirs _ n := .ok () n
  writeText _ _ n := .ok () n
  readText _ n := .ok "" n
  exist _ n := .ok false n
  generateCode _ _ n := .ok "pass" n
  model n := .ok "primary" n
  stamp n := .ok (toString n, "") (n + 1)
  appendLine _ n := .ok () n

/-- The module that a prompt asks for. -/
def Generator.Subject.moduleName? : Generator.Subject → Option String
  | .module name _ => some name
  | .tests _ => none

/-- The same program, asked for twice. -/
def twice : List Step :=
  let step := .pipeline ⟨"a program", .python, "demo", "/tmp/demo"⟩ "simple architecture" ["main"]
  [step, step]

/-- What has been rejected is shown to the model as approved, when the program is asked for again. -/
theorem rejected_reused : ¬ Vetted (session rejecting numbering 0 "primary" twice) := by
  rw [(inv_session rejecting numbering 0 "primary" twice).vetted_iff]
  let s := session rejecting numbering 0 "primary" twice
  show ¬ OldestApproved s
  intro holdest
  have hseen : s.outside.calls.take 6 ++ [.positive "python" "demo" 1 2] = s.outside.calls.take 7 := by decide +kernel
  have hname : (s.prompts[1]?.bind fun entry => entry.1.moduleName?) = some "main" := by decide +kernel
  have hreused : (((concerning "python" "demo/main" (remembered (s.outside.calls.take 6))).take 2).any fun e =>
      e ∈ ((s.outside.calls.take 6).foldl Tally.next {}).rejected) = true := by decide +kernel
  clear_value s
  obtain ⟨⟨subject, text⟩, hprompt, hmodule⟩ := Option.bind_eq_some_iff.mp hname
  cases subject with
  | tests mainCode => cases hmodule
  | module name memory =>
    obtain rfl := Option.some.inj hmodule
    obtain ⟨e, he, hrejected⟩ := List.any_eq_true.mp hreused
    have hasked : Asked s (s.outside.calls.take 6) "python" "demo/main" memory 2 :=
      ⟨"demo", 1, "main", text, hseen ▸ List.take_prefix _ _, hprompt, rfl⟩
    exact (holdest _ _ _ _ _ hasked e he).2 (of_decide_eq_true hrejected)

end Atlas.Agent
