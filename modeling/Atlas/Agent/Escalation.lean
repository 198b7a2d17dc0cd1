import Atlas.Agent.PipelineGate
import Atlas.Agent.PipelineWalk

/-!
# The model of the generator: the switch to the fallback model in `run_pipeline`

From the third attempt on the generator gets the fallback model before `generate_project`, and its own one back behind
it.

* `Fails` : `generate_project` raises in an attempt; `LeaksFrom` : it does so with the fallback model;
* `wp_attempt_model` : what an attempt makes of the model, `attempts_model_iff` : what the loop makes of it;
* `model_restored_iff` : when the generator has its own model again behind the run.
-/

namespace Atlas.Agent
open Raising

section
variable {ω α : Type}

/-! ## Calls that leave the model alone -/

theorem keeps_outside (call : EStateM String ω α) : Keeps World.model (outside call) := by
  intro s
  unfold wp outside EStateM.run
  dsimp only
  cases call s.outside <;> rfl

theorem keeps_modify {f : World ω → World ω} (h : ∀ s, (f s).model = s.model) :
    Keeps World.model (modify f : M ω Unit) := h

theorem keeps_logAudit (action component result : String) (error : Option String) :
    Keeps World.model (logAudit action component result error : M ω Unit) := keeps_modify fun _ => rfl

theorem keeps_note (event : Event) : Keeps World.model (note event : M ω Unit) := keeps_modify fun _ => rfl

variable (engines : Engines ω) (requirement : Requirement)

/-- Nothing that a pipeline does but the switch touches the model. -/
theorem relates_model : Relates (fun _ (call _ : M ω _) => Keeps World.model call) engines engines where
  toComposes := Composes.keeps World.model
  logAudit := keeps_logAudit
  metrics _ := keeps_modify fun _ => rfl
  requireHumanApproval := rfl
  checkSyntax _ _ := keeps_outside _
  runSecurityScan _ _ _ := keeps_outside _
  readFile _ := keeps_outside _
  getAntiPatterns := keeps_outside _
  input := keeps_outside _

/-! ## The switch -/

variable (specification : Specification)

/-- The model that `generate_project` meets. -/
def modelAt (number : Nat) (s : World ω) : String :=
  if shouldEscalateModel number then engines.fallbackModel else s.model

/-- `generate_project` raises. -/
def Fails (number : Nat) (carried : Carried) (s : World ω) : Prop :=
  ∃ text o, (engines.generateProject ⟨specification, requirement.targetFolder, carried.repairContext,
    modelAt engines number s⟩).run s.outside = .error text o

/-- `generate_project` raises in one of these attempts, and has the fallback model there. -/
def LeaksFrom : List Nat → Carried → World ω → Prop
  | [], _, _ => False
  | number :: numbers, carried, s =>
    (shouldEscalateModel number = true ∧ Fails engines requirement specification number carried s) ∨
      ∃ carried' s', (attempt engines requirement specification number carried).run s = .ok (false, carried') s' ∧
        LeaksFrom numbers carried' s'

theorem wp_generate_model (number : Nat) (carried : Carried) (s : World ω) :
    wp (generate engines requirement specification number carried.repairContext)
      (fun _ s' => s'.model = s.model ∧ ¬ Fails engines requirement specification number carried s)
      (fun _ s' => s'.model = modelAt engines number s ∧ Fails engines requirement specification number carried s)
      s := by
  unfold generate note Fails
  simp only [wp_bind, wp_get, wp_modify]
  have hmodel : ∀ t : World ω, t = (if shouldEscalateModel number = true then { s with model := engines.fallbackModel }
      else s) → t.model = modelAt engines number s ∧ t.outside = s.outside := by
    rintro t rfl
    unfold modelAt
    split_ifs <;> exact ⟨rfl, rfl⟩
  generalize hswitched : (if shouldEscalateModel number = true then { s with model := engines.fallbackModel }
    else s) = t
  obtain ⟨ht, houtside⟩ := hmodel t hswitched.symm
  rw [ht, ← houtside]
  generalize engines.generateProject ⟨specification, requirement.targetFolder, carried.repairContext,
    modelAt engines number s⟩ = call
  unfold wp outside EStateM.run
  dsimp only
  cases call t.outside with
  | ok files o =>
    refine ⟨rfl, ?_⟩
    rintro ⟨text, o', hraised⟩
    cases hraised
  | error text o => exact ⟨rfl, text, o, rfl⟩

/-- Behind an attempt the model is as before, but for one that `generate_project` has ended. -/
theorem wp_attempt_model (number : Nat) (carried : Carried) (s : World ω) :
    wp (attempt engines requirement specification number carried)
      (fun _ s' => s'.model = s.model ∧ ¬ Fails engines requirement specification number carried s)
      (fun _ s' => s'.model = modelAt engines number s ∧ Fails engines requirement specification number carried s ∨
        s'.model = s.model ∧ ¬ Fails engines requirement specification number carried s) s := by
  obtain ⟨rest, -, hrest, -, hkeeps⟩ :=
    (relates_model engines).attempt_split requirement (fun _ => keeps_note _) specification number carried
  rw [hrest, wp_bind]
  refine wp_mono (wp_generate_model engines requirement specification number carried s) ?_ fun _ _ h => .inl h
  rintro files s₁ ⟨hmodel, hnot⟩
  refine wp_mono (hkeeps files s₁) (fun _ s₂ hs₂ => ⟨hs₂.trans hmodel, hnot⟩) fun _ s₂ hs₂ => ?_
  exact .inr ⟨hs₂.trans hmodel, hnot⟩

/-- The model is as before the call, whichever way it ends. -/
def Restores (call : M ω α) (s : World ω) : Prop :=
  wp call (fun _ s' => s'.model = s.model) (fun _ s' => s'.model = s.model) s

/-- The loop: the invariant is that the attempts before have given the model back. -/
theorem attempts_model_iff (numbers : List Nat) (carried : Carried) (s : World ω) :
    Restores (attempts engines requirement specification numbers carried) s ↔
      ¬ LeaksFrom engines requirement specification numbers carried s ∨ engines.fallbackModel = s.model := by
  induction numbers generalizing carried s with
  | nil => exact iff_of_true rfl (.inl fun h => h)
  | cons number numbers ih =>
    have hattempt := wp_attempt_model engines requirement specification number carried s
    unfold Restores at ih ⊢
    rw [attempts, wp_bind, LeaksFrom]
    cases hrun : (attempt engines requirement specification number carried).run s with
    | ok r s' =>
      rw [wp_of_run_ok hrun] at hattempt ⊢
      obtain ⟨hmodel, hnot⟩ := hattempt
      obtain ⟨stop, carried'⟩ := r
      dsimp only
      cases stop with
      | true =>
        refine iff_of_true hmodel (.inl ?_)
        rintro (⟨-, hfails⟩ | ⟨_, _, hgo, -⟩)
        · exact hnot hfails
        · cases hgo
      | false =>
        have hrest : (shouldEscalateModel number = true ∧ Fails engines requirement specification number carried s ∨
            ∃ carried'' s'', (EStateM.Result.ok (false, carried') s' : EStateM.Result Failure (World ω) _) =
              .ok (false, carried'') s'' ∧ LeaksFrom engines requirement specification numbers carried'' s'') ↔
            LeaksFrom engines requirement specification numbers carried' s' := by
          constructor
          · rintro (⟨-, hfails⟩ | ⟨_, _, hgo, hleaks⟩)
            · exact absurd hfails hnot
            · cases hgo
              exact hleaks
          · exact fun hleaks => .inr ⟨carried', s', rfl, hleaks⟩
        rw [hrest, ← hmodel]
        exact ih carried' s'
    | error e s' =>
      rw [wp_of_run_error hrun] at hattempt ⊢
      have hrest : ¬ ∃ carried'' s'', (EStateM.Result.error e s' : EStateM.Result Failure (World ω) _) =
          .ok (false, carried'') s'' ∧ LeaksFrom engines requirement specification numbers carried'' s'' := by
        rintro ⟨_, _, hgo, -⟩
        cases hgo
      rw [or_iff_left hrest]
      rcases hattempt with ⟨hmodel, hfails⟩ | ⟨hmodel, hnot⟩
      · rw [hmodel, modelAt]
        split_ifs with hescalate
        · simp [hescalate, hfails]
        · exact iff_of_true rfl (.inl fun h => hescalate h.1)
      · exact iff_of_true hmodel (.inl fun h => hnot h.2)

end

section
variable {ω : Type}

/-- The part of `run_pipeline` in front of the first attempt. -/
def prelude (requirement : Requirement) (architecture : String) (modules : List String) : M ω Bool := do
  logAudit "pipeline_start" "orchestrator" "success" none
  validateSpecification (specify requirement architecture modules)

theorem run_prelude (requirement : Requirement) (architecture : String) (modules : List String) (s : World ω) :
    ∃ valid s', (prelude requirement architecture modules).run s = .ok valid s' ∧
      (valid = true ↔ Valid architecture modules) ∧ s'.model = s.model := by
  have hsilent := (Silent.logAudit "pipeline_start" "orchestrator" "success" none).bind fun (_ : Unit) _ =>
    silent_validateSpecification (ω := ω) requirement architecture modules
  have hkeeps : Keeps World.model (prelude requirement architecture modules : M ω Bool) :=
    (keeps_logAudit _ _ _ _).bind fun _ => keeps_validateSpecification keeps_logAudit _
  have hwp := wp_and (hsilent.holds s) (hkeeps s)
  change wp (prelude requirement architecture modules) _ _ s at hwp
  cases hrun : (prelude requirement architecture modules).run s with
  | ok valid s' =>
    rw [wp_of_run_ok hrun] at hwp
    exact ⟨valid, s', rfl, hwp.1.1, hwp.2⟩
  | error e s' =>
    rw [wp_of_run_error hrun] at hwp
    exact absurd hwp.1 id

/-- **The escalation.** Behind `run_pipeline` the generator has its own model again, just when `generate_project` does
not raise in an attempt with the fallback model, or that is its own one. -/
theorem model_restored_iff (engines : Engines ω) (requirement : Requirement) (architecture : String)
    (modules : List String) (s : World ω) :
    Restores (runPipeline engines requirement architecture modules) s ↔
      ¬ (Valid architecture modules ∧ LeaksFrom engines requirement (specify requirement architecture modules)
        (List.range' 1 maxAttempts) {} (after (prelude requirement architecture modules) s)) ∨
      engines.fallbackModel = s.model := by
  obtain ⟨valid, s₁, hrun, hvalid, hmodel⟩ := run_prelude requirement architecture modules s
  have hbegun : after (prelude requirement architecture modules) s = s₁ := by rw [after, hrun]
  have hsplit : runPipeline engines requirement architecture modules = (do
      let valid ← prelude requirement architecture modules
      if valid = false then
        logAudit "pipeline_failed" "orchestrator" "success" (some "Specification validation failed")
        throw (.valueError "Specification validation failed")
      else
        let carried ← attempts engines requirement (specify requirement architecture modules)
          (List.range' 1 maxAttempts) {}
        conclude engines requirement carried.artifact) := by
    unfold runPipeline prelude
    rw [bind_assoc]
  rw [hbegun, Restores, hsplit, wp_bind, wp_of_run_ok hrun, ← hmodel]
  cases valid with
  | false =>
    have hinvalid : ¬ Valid architecture modules := fun h => Bool.false_ne_true (hvalid.mpr h)
    refine iff_of_true ?_ (.inl fun h => hinvalid h.1)
    rw [if_pos rfl]
    have hkeeps : Keeps World.model (do
        logAudit "pipeline_failed" "orchestrator" "success" (some "Specification validation failed")
        throw (.valueError "Specification validation failed") : M ω Artifact) :=
      (keeps_logAudit _ _ _ _).bind fun _ => Keeps.throw _
    exact hkeeps s₁
  | true =>
    rw [if_neg (by decide), wp_bind, and_iff_right (hvalid.mp rfl),
      ← attempts_model_iff engines requirement (specify requirement architecture modules)]
    have hkeeps (artifact : Option Artifact) : Keeps World.model (conclude engines requirement artifact) :=
      (relates_model engines).conclude requirement keeps_note (fun _ _ _ => keeps_outside _) artifact
    exact wp_congr (fun carried s' => Keeps.wp_iff (P := (· = s₁.model)) (hkeeps _)) fun _ _ => Iff.rfl

end

/-- The fallback model is out of order, and the code of the other one has an error. -/
def failingFallback : Engines Unit where
  requireHumanApproval := false
  fallbackModel := "fallback"
  generateProject call := if call.model = "fallback" then throw "LLM call failed" else return ["main.py"]
  checkSyntax _ _ := return { passed := false, errors := ["SyntaxError: invalid syntax"] }
  runSecurityScan _ _ _ := return []
  readFile _ := return none
  getAntiPatterns := return []
  input := return none
  deploy _ _ _ := throw "not reached"

theorem model_failingFallback :
    (after (runPipeline failingFallback ⟨"a program", .python, "loop-test", "/tmp/loop"⟩ "simple architecture" ["main"])
      ⟨(), "primary", [], {}, []⟩).model = "fallback" := by
  decide +kernel

/-- The third attempt raises, and the generator keeps the fallback model. -/
theorem model_kept_fallback :
    ¬ Restores (runPipeline failingFallback ⟨"a program", .python, "loop-test", "/tmp/loop"⟩ "simple architecture"
      ["main"]) ⟨(), "primary", [], {}, []⟩ := by
  intro hrestores
  have hmodel := @after_of_wp _ _ _ _ _ (fun s' : World Unit => s'.model = "primary") hrestores
  rw [model_failingFallback] at hmodel
  exact absurd hmodel (by decide)

end Atlas.Agent
