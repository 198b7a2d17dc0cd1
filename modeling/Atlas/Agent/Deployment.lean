import Atlas.Agent.Models
import Atlas.Lib.Files

/-!
# Deployment: `atlas_agent/deployment.py`

* `Engine` : the file system, as `deploy` and as its rollback find it; the audit log; the parser of Python;
* `deploy` : a file is put in the place of another, or what was there is put back;
* `Audited` : what is relied on about the audit log;
* `Loses` : the ways in which it is not; `deploy_restores_iff` : there are no others.
-/

namespace Atlas.Agent
open Raising Files

/-- `rescue` are the calls of the file system that a rollback makes. `audit` is `_audit` where the source has not been
found, `closing` is `_audit` at the end of a call, behind the validation or a rollback. `parseError?` is what parsing a
file as Python brings up, `repr` the `str` of a list. -/
structure Engine (σ : Type) where
  view : View σ
  calls : Calls σ
  rescue : Calls σ
  audit : String → DeploymentRecord → EStateM OSError σ Unit
  closing : String → DeploymentRecord → EStateM OSError σ Unit
  cwd : Path
  parseError? : List UInt8 → Option String
  repr : List String → String

structure Validation where
  syntaxValid : Bool := false
  importable : Bool := false
  testsPassed : Bool := true
  errors : List String := []

namespace Engine
variable {σ : Type} (engine : Engine σ)

/-- `BACKUP_DIR` -/
def backupDir : Path := ".atlas_backups".toList

/-- `_create_backup` -/
def createBackup (targetPath : Path) (deploymentId : String) : EStateM OSError σ Path := do
  let directory := join (dirname targetPath) backupDir
  makedirs engine.view engine.calls true directory
  let backupPath := join directory (basename targetPath ++ ".bak.".toList ++ deploymentId.toList)
  copy2 engine.view engine.calls targetPath backupPath
  return backupPath

/-- `_rollback` -/
def rollback (targetPath : Path) (backupPath : Option Path) : EStateM OSError σ Unit := do
  let s ← get
  match backupPath.filter fun backup => backup ≠ [] && engine.view.isfile s backup with
  | some backup => copy2 engine.view engine.rescue backup targetPath
  | none => if engine.view.isfile s targetPath = true then engine.rescue.remove targetPath else return

/-- `_validate_deployment` -/
def validateDeployment (targetPath : Path) (language : String) : EStateM OSError σ Validation := do
  let s ← get
  if engine.view.isfile s targetPath = false then
    return { errors := ["File not found after deploy: " ++ String.ofList targetPath] }
  else
    tryCatch
      (if language = "python" then do
        let content ← engine.calls.read targetPath
        match engine.parseError? content with
        | none => return { syntaxValid := true, importable := true }
        | some text => return { errors := [text] }
      else if language = "go" ∨ language = "rust" then do
        let size ← engine.calls.getsize targetPath
        return { syntaxValid := 0 < size, importable := 0 < size }
      else return { syntaxValid := true, importable := true })
      fun e => return { errors := ["Validation error: " ++ e.text] }

/-- The fields with a `min_length`. -/
def Named (artifactPath targetPath : Path) (deploymentId : String) : Prop :=
  artifactPath ≠ [] ∧ targetPath ≠ [] ∧ deploymentId ≠ ""

instance (artifactPath targetPath : Path) (deploymentId : String) :
    Decidable (Named artifactPath targetPath deploymentId) := inferInstanceAs (Decidable (_ ∧ _))

/-- What building a `DeploymentRecord` checks. -/
def checkRecord (artifactPath targetPath : Path) (deploymentId : String) : EStateM OSError σ Unit :=
  if Named artifactPath targetPath deploymentId then return else throw (.other "validation error")

/-- The record of a failure. -/
def failure (targetPath : Path) (backupPath : Option Path) (reason : String) : DeploymentRecord where
  targetPath := String.ofList targetPath
  status := if backupPath.any (· ≠ []) then .rolledBack else .deployFailed
  backupPath := backupPath.map String.ofList
  rollbackReason := some reason

/-- `_record_failure` -/
def recordFailure (audit : String → DeploymentRecord → EStateM OSError σ Unit) (artifactPath targetPath : Path)
    (deploymentId : String) (backupPath : Option Path) (reason : String) : EStateM OSError σ DeploymentRecord := do
  checkRecord artifactPath targetPath deploymentId
  let record := failure targetPath backupPath reason
  audit "deployment_failure" record
  return record

/-- Step 3. -/
def ensureDirectory (targetPath : Path) : EStateM OSError σ Unit :=
  if dirname targetPath ≠ [] then makedirs engine.view engine.calls true (dirname targetPath) else return

/-- Step 4. -/
def install (artifactPath targetPath : Path) : EStateM OSError σ Unit :=
  if abspath engine.cwd artifactPath = abspath engine.cwd targetPath then return
  else copy2 engine.view engine.calls artifactPath targetPath

/-- Steps 3 to 5, up to the answer of the validation. -/
def place (artifactPath targetPath : Path) (language : String) : EStateM OSError σ Validation := do
  engine.ensureDirectory targetPath
  engine.install artifactPath targetPath
  engine.validateDeployment targetPath language

/-- The `except` branch. -/
def undo (artifactPath targetPath : Path) (deploymentId : String) (backupPath : Option Path) (e : OSError) :
    EStateM OSError σ DeploymentRecord := do
  engine.rollback targetPath backupPath
  recordFailure engine.closing artifactPath targetPath deploymentId backupPath e.text

/-- What follows the backup. -/
def finish (artifactPath targetPath : Path) (language deploymentId : String) (backupPath : Option Path) :
    EStateM OSError σ DeploymentRecord :=
  tryCatch (do
    let validation ← engine.place artifactPath targetPath language
    if validation.syntaxValid = true then do
      checkRecord artifactPath targetPath deploymentId
      let record := ⟨String.ofList targetPath, .deployed, backupPath.map String.ofList, none⟩
      engine.closing "deployment_success" record
      return record
    else do
      engine.rollback targetPath backupPath
      recordFailure engine.closing artifactPath targetPath deploymentId backupPath
        ("Post-deploy syntax validation failed: " ++ engine.repr validation.errors))
    (engine.undo artifactPath targetPath deploymentId backupPath)

/-- Step 2, with the exception if there is one. -/
def backUp (targetPath : Path) (deploymentId : String) : EStateM OSError σ (Except OSError (Option Path)) := do
  let s ← get
  if engine.view.exist s targetPath = true then
    tryCatch (do
      let backupPath ← engine.createBackup targetPath deploymentId
      return .ok (some backupPath)) fun e => return .error e
  else return .ok none

def deploy (artifactPath targetPath : Path) (language deploymentId : String) : EStateM OSError σ DeploymentRecord := do
  let s ← get
  if engine.view.isfile s artifactPath = false then
    tryCatch (recordFailure engine.audit artifactPath targetPath deploymentId none
      ("Source not found: " ++ String.ofList artifactPath)) (engine.undo artifactPath targetPath deploymentId none)
  else do
    let backup ← engine.backUp targetPath deploymentId
    match backup with
    | .ok backupPath => engine.finish artifactPath targetPath language deploymentId backupPath
    | .error e => engine.undo artifactPath targetPath deploymentId none e

/-- The audit log is not the target, and at the end of a call it can be written. -/
structure Audited (targetPath : Path) : Prop where
  audit : ∀ event record s, wp (engine.audit event record)
    (fun _ s' => engine.view.stat s' targetPath = engine.view.stat s targetPath)
    (fun _ s' => engine.view.stat s' targetPath = engine.view.stat s targetPath) s
  closing : ∀ event record s, wp (engine.closing event record)
    (fun _ s' => engine.view.stat s' targetPath = engine.view.stat s targetPath) (fun _ _ => False) s

/-! ## What the parts come to -/

section
variable {engine} {artifactPath targetPath : Path} {language deploymentId : String} {s : σ} {content : List UInt8}

theorem status_failure (backupPath : Option Path) (reason : String) :
    (failure targetPath backupPath reason).status ≠ .deployed := by
  unfold failure
  dsimp only
  split_ifs <;> exact nofun

/-- The record of a failure is built and handed to the audit log. -/
theorem wp_recordFailure (hnamed : Named artifactPath targetPath deploymentId) {backupPath : Option Path}
    {reason : String} {audit : String → DeploymentRecord → EStateM OSError σ Unit} {Q : DeploymentRecord → σ → Prop}
    {E : OSError → σ → Prop} :
    wp (recordFailure audit artifactPath targetPath deploymentId backupPath reason) Q E s ↔
      wp (audit "deployment_failure" (failure targetPath backupPath reason))
        (fun _ => Q (failure targetPath backupPath reason)) E s := by
  unfold recordFailure checkRecord
  rw [if_pos hnamed, wp_bind, wp_pure, wp_bind]
  rfl

/-- Without a name there is no record. -/
theorem wp_recordFailure_unnamed (hnamed : ¬ Named artifactPath targetPath deploymentId) {backupPath : Option Path}
    {reason : String} {audit : String → DeploymentRecord → EStateM OSError σ Unit} {Q : DeploymentRecord → σ → Prop}
    {E : OSError → σ → Prop} (h : ∀ e, E e s) :
    wp (recordFailure audit artifactPath targetPath deploymentId backupPath reason) Q E s := by
  unfold recordFailure checkRecord
  rw [if_neg hnamed]
  exact h _

/-- A rollback, and what it makes of the target, which the audit leaves alone. -/
theorem wp_undo (hnamed : Named artifactPath targetPath deploymentId) (haudited : engine.Audited targetPath)
    (final : Option Entry) {backupPath : Option Path} {e : OSError}
    (hrollback : wp (engine.rollback targetPath backupPath) (fun _ s' => engine.view.stat s' targetPath = final)
      (fun _ _ => False) s) :
    wp (engine.undo artifactPath targetPath deploymentId backupPath e)
      (fun record s' => record.status ≠ .deployed ∧ engine.view.stat s' targetPath = final) (fun _ _ => False) s := by
  unfold undo
  rw [wp_bind]
  refine wp_mono hrollback (fun _ s' hs' => ?_) fun _ _ => False.elim
  rw [wp_recordFailure hnamed]
  exact wp_mono (haudited.closing _ _ s') (fun _ s'' hs'' => ⟨status_failure _ _, hs''.trans hs'⟩) fun _ _ => False.elim

theorem wp_undo_unnamed (hnamed : ¬ Named artifactPath targetPath deploymentId) {backupPath : Option Path}
    {e : OSError} :
    wp (engine.undo artifactPath targetPath deploymentId backupPath e) (fun _ _ => False) (fun _ _ => True) s := by
  unfold undo
  rw [wp_bind]
  exact wp_cases (fun _ _ _ => wp_recordFailure_unnamed hnamed fun _ => trivial) fun _ _ _ => trivial

theorem isfile_iff {view : View σ} {path : Path} :
    view.isfile s path = true ↔ ∃ content, view.stat s path = some (.file content) := by
  unfold View.isfile
  split <;> simp_all

theorem wp_ensureDirectory (hcalls : Lawful engine.view engine.calls) :
    wp (engine.ensureDirectory targetPath) (fun _ => Files.Kept engine.view s) (fun _ => Files.Kept engine.view s)
      s := by
  unfold ensureDirectory
  rw [wp_ite, wp_pure]
  exact ⟨fun _ => wp_makedirs hcalls true _ s, fun _ => Files.Kept.refl s⟩

/-- What an install leaves alone, and what it makes of the target. -/
theorem wp_install (hcalls : Lawful engine.view engine.calls) {P : σ → Prop}
    (h : ∀ s', Beside engine.view (destination engine.view s artifactPath targetPath) s s' →
      (engine.view.stat s' (destination engine.view s artifactPath targetPath) =
        engine.view.stat s (destination engine.view s artifactPath targetPath) ∨ ∃ partly,
        engine.view.stat s' (destination engine.view s artifactPath targetPath) = some (.file partly)) → P s') :
    wp (engine.install artifactPath targetPath) (fun _ => P) (fun _ => P) s := by
  unfold install
  rw [wp_ite, wp_pure]
  refine ⟨fun _ => h s ((Unseen.refl s).beside _) (.inl rfl), fun _ => ?_⟩
  refine wp_mono (wp_copy2 hcalls artifactPath targetPath s) (fun _ s' hs' => ?_) fun _ s' hs' => h s' hs'.1 hs'.2.2
  obtain ⟨hbeside, copied, -, -, -, hcopied⟩ := hs'
  exact h s' hbeside (.inr ⟨copied, hcopied⟩)

/-- The validation does not raise, and a target that is no file does not pass. -/
theorem wp_validateDeployment (hcalls : Lawful engine.view engine.calls) :
    wp (engine.validateDeployment targetPath language)
      (fun validation s' => Unseen engine.view s s' ∧
        (engine.view.isfile s targetPath = false → validation.syntaxValid = false))
      (fun _ _ => False) s := by
  unfold validateDeployment
  rw [wp_bind, wp_get, wp_ite, wp_pure]
  refine ⟨fun _ => ⟨Unseen.refl s, fun _ => rfl⟩, fun hfile => ?_⟩
  have hvacuous (valid : Bool) : engine.view.isfile s targetPath = false → valid = false := fun h => absurd h hfile
  simp only [wp_tryCatch, wp_ite, wp_bind, wp_pure]
  refine ⟨fun _ => ?_, fun _ => ⟨fun _ => ?_, fun _ => ⟨Unseen.refl s, hvacuous _⟩⟩⟩
  · refine wp_mono (hcalls.read targetPath s) (fun content s' hs' => ?_) fun e s' hs' => ⟨hs', fun _ => trivial⟩
    cases engine.parseError? content with
    | none => exact ⟨hs'.1, hvacuous _⟩
    | some text => exact ⟨hs'.1, hvacuous _⟩
  · exact wp_mono (hcalls.getsize targetPath s) (fun size s' hs' => ⟨hs', hvacuous _⟩)
      fun e s' hs' => ⟨hs', fun _ => trivial⟩

/-- The three steps, each by what it needs and leaves: `R` holds however they end, and `D` if the target passes. -/
theorem wp_place (hcalls : Lawful engine.view engine.calls) {D : Prop} {I R : σ → Prop}
    (hunseen : ∀ s s', Unseen engine.view s s' → R s → R s')
    (hpass : ∀ s, R s → engine.view.isfile s targetPath = true → D)
    (hdirectory : wp (engine.ensureDirectory targetPath) (fun _ => I) (fun _ => R) s)
    (hinstall : ∀ s', I s' → wp (engine.install artifactPath targetPath) (fun _ => R) (fun _ => R) s') :
    wp (engine.place artifactPath targetPath language)
      (fun validation s' => (validation.syntaxValid = true → D) ∧ R s') (fun _ => R) s := by
  unfold place
  rw [wp_bind]
  refine wp_mono hdirectory (fun _ s₁ hs₁ => ?_) fun _ _ h => h
  rw [wp_bind]
  refine wp_mono (hinstall s₁ hs₁) (fun _ s₂ hs₂ => ?_) fun _ _ h => h
  refine wp_mono (wp_validateDeployment hcalls) (fun validation s₃ hs₃ => ?_) fun _ _ => False.elim
  refine ⟨fun hvalid => hpass s₂ hs₂ ?_, hunseen s₂ s₃ hs₃.1 hs₂⟩
  by_contra hnot
  rw [hs₃.2 (Bool.eq_false_of_not_eq_true hnot)] at hvalid
  cases hvalid

/-- A rollback without a backup removes the target, if it is a file. -/
theorem wp_rollback_remove (hrescue : Lawful engine.view engine.rescue)
    (hreliable : Reliable engine.view engine.rescue) {backupPath : Option Path}
    (hbackup : ∀ backup ∈ backupPath, engine.view.isfile s backup = false) :
    wp (engine.rollback targetPath backupPath)
      (fun _ s' => if engine.view.isfile s targetPath = true then engine.view.stat s' targetPath = none else s' = s)
      (fun _ _ => False) s := by
  have hnone : (backupPath.filter fun backup => backup ≠ [] && engine.view.isfile s backup) = none := by
    rw [Option.filter_eq_none_iff]
    intro backup hmem
    simp [hbackup backup hmem]
  unfold rollback
  rw [wp_bind, wp_get]
  simp only [hnone]
  rw [wp_ite, wp_pure]
  refine ⟨fun hfile => ?_, fun hnot => by rw [if_neg hnot]⟩
  obtain ⟨content, hcontent⟩ := isfile_iff.mp hfile
  refine wp_mono (wp_and (hrescue.remove targetPath s content hcontent)
    (hreliable.remove targetPath s content hcontent)) (fun _ s' h => ?_) fun _ _ h => h.2
  rw [if_pos hfile]
  exact h.1

/-- A rollback with a backup writes it back. -/
theorem wp_rollback_restore (hrescue : Lawful engine.view engine.rescue)
    (hreliable : Reliable engine.view engine.rescue) {backup : Path} {earlier : List UInt8} (hne : backup ≠ [])
    (hbackup : engine.view.stat s backup = some (.file content))
    (htarget : engine.view.stat s targetPath = some (.file earlier))
    (hsame : engine.view.sameFile s backup targetPath = false) :
    wp (engine.rollback targetPath (some backup)) (fun _ s' => engine.view.stat s' targetPath = some (.file content))
      (fun _ _ => False) s := by
  have hfile : engine.view.isfile s backup = true := isfile_iff.mpr ⟨content, hbackup⟩
  unfold rollback
  rw [wp_bind, wp_get, Option.filter_some, hfile, Bool.and_true, decide_eq_true hne]
  exact wp_copy2_reliable hrescue hreliable hbackup htarget hsame

/-- What follows the backup, by what the placing comes to and what the rollback makes of that. -/
theorem wp_finish (hnamed : Named artifactPath targetPath deploymentId) (haudited : engine.Audited targetPath)
    {D : Prop} {R : σ → Prop} (final : Option Entry) {backupPath : Option Path}
    (hplace : wp (engine.place artifactPath targetPath language)
      (fun validation s' => (validation.syntaxValid = true → D) ∧ R s') (fun _ => R) s)
    (hrollback : ∀ s', R s' → wp (engine.rollback targetPath backupPath)
      (fun _ s'' => engine.view.stat s'' targetPath = final) (fun _ _ => False) s') :
    wp (engine.finish artifactPath targetPath language deploymentId backupPath)
      (fun record s' => record.status = .deployed ∧ D ∨
        record.status ≠ .deployed ∧ engine.view.stat s' targetPath = final) (fun _ _ => False) s := by
  unfold finish
  rw [wp_tryCatch, wp_bind]
  refine wp_mono hplace (fun validation s' h => ?_) fun e s' h => ?_
  · rw [wp_ite, checkRecord, if_pos hnamed]
    refine ⟨fun hvalid => ?_, fun _ => ?_⟩
    · rw [wp_bind, wp_pure, wp_bind]
      exact wp_mono (haudited.closing _ _ s') (fun _ _ _ => .inl ⟨rfl, h.1 hvalid⟩) fun _ _ => False.elim
    · rw [wp_bind]
      refine wp_mono (hrollback s' h.2) (fun _ s'' hs'' => ?_) fun _ _ => False.elim
      rw [wp_recordFailure hnamed]
      exact wp_mono (haudited.closing _ _ s'') (fun _ _ hs => .inr ⟨status_failure _ _, hs.trans hs''⟩)
        fun _ _ => False.elim
  · exact wp_mono (wp_undo hnamed haudited final (hrollback s' h)) (fun _ _ => .inr) fun _ _ => False.elim

/-- Without a name, no record comes of it. -/
theorem wp_finish_unnamed (hnamed : ¬ Named artifactPath targetPath deploymentId) {backupPath : Option Path} :
    wp (engine.finish artifactPath targetPath language deploymentId backupPath) (fun _ _ => False) (fun _ _ => True)
      s := by
  unfold finish
  rw [wp_tryCatch]
  refine wp_cases (fun record s' hrun => ?_) fun e s' _ => wp_undo_unnamed hnamed
  refine (wp_of_run_ok hrun).mp (?_ : wp _ (fun _ _ => False) (fun _ _ => True) s)
  rw [wp_bind]
  refine wp_cases (fun validation s₁ _ => ?_) fun _ _ _ => trivial
  rw [wp_ite, checkRecord, if_neg hnamed]
  refine ⟨fun _ => trivial, fun _ => ?_⟩
  rw [wp_bind]
  exact wp_cases (fun _ _ _ => wp_recordFailure_unnamed hnamed fun _ => trivial) fun _ _ _ => trivial

/-! ## Three targets -/

theorem stat_target_eq (h : engine.view.stat s targetPath ≠ some .directory) :
    destination engine.view s artifactPath targetPath = targetPath := by
  unfold destination View.isdir
  rw [if_neg (by simpa using h)]

/-- The target is a file; what the backup is called stands for `saved`. -/
structure Target (view : View σ) (targetPath : Path) (saved : Option (Path × Entry)) (s : σ) : Prop where
  target : ∃ content, view.stat s targetPath = some (.file content)
  saved : ∀ path entry, saved = some (path, entry) →
    view.stat s path = some entry ∧ (entry ≠ .directory → view.sameFile s path targetPath = false)

theorem wp_place_file (hcalls : Lawful engine.view engine.calls) {saved : Option (Path × Entry)}
    (h : Target engine.view targetPath saved s) :
    wp (engine.place artifactPath targetPath language)
      (fun validation s' => (validation.syntaxValid = true → True) ∧ Target engine.view targetPath saved s')
      (fun _ => Target engine.view targetPath saved) s := by
  have hkept (s' : σ) (hs' : Files.Kept engine.view s s') : Target engine.view targetPath saved s' := by
    obtain ⟨content, hcontent⟩ := h.target
    refine ⟨⟨content, hs'.stat _ _ hcontent⟩, fun path entry hsaved => ?_⟩
    obtain ⟨hentry, hsame⟩ := h.saved path entry hsaved
    refine ⟨hs'.stat _ _ hentry, fun hne => ?_⟩
    rw [hs'.sameFile _ _ (by rw [hentry]; exact nofun) (by rw [hcontent]; exact nofun)]
    exact hsame hne
  refine wp_place hcalls ?_ (fun _ _ _ => trivial) (wp_mono (wp_ensureDirectory hcalls) (fun _ => hkept) fun _ => hkept)
    fun s₁ hs₁ => wp_install hcalls fun s₂ hbeside hdst => ?_
  · intro s s' hs' hs
    obtain ⟨content, hcontent⟩ := hs.target
    refine ⟨⟨content, by rwa [hs'.stat]⟩, fun path entry hsaved => ?_⟩
    rw [hs'.stat, hs'.sameFile]
    exact hs.saved path entry hsaved
  · obtain ⟨content, hcontent⟩ := hs₁.target
    rw [stat_target_eq (by rw [hcontent]; exact nofun)] at hbeside hdst
    refine ⟨?_, fun path entry hsaved => ?_⟩
    · rcases hdst with hsame | hpartly
      · exact ⟨content, hsame.trans hcontent⟩
      · exact hpartly
    · obtain ⟨hentry, hsame⟩ := hs₁.saved path entry hsaved
      cases entry with
      | file copy =>
        obtain ⟨hfile, hsame'⟩ := hbeside.file path copy hentry (hsame nofun)
        exact ⟨hfile, fun _ => hsame'⟩
      | directory => exact ⟨hbeside.directory path hentry, fun hne => absurd rfl hne⟩

theorem wp_place_directory (hcalls : Lawful engine.view engine.calls)
    (h : engine.view.stat (after (engine.ensureDirectory targetPath) s) targetPath = some .directory) :
    wp (engine.place artifactPath targetPath language)
      (fun validation s' => (validation.syntaxValid = true → False) ∧
        engine.view.stat s' targetPath = some .directory)
      (fun _ s' => engine.view.stat s' targetPath = some .directory) s := by
  refine wp_place hcalls (fun s s' hs' hs => by rwa [hs'.stat]) ?_ (wp_of_after h)
    fun s₁ hs₁ => wp_install hcalls fun s₂ hbeside _ => hbeside.directory _ hs₁
  intro s' hs' hfile
  obtain ⟨content, hcontent⟩ := isfile_iff.mp hfile
  rw [hs'] at hcontent
  cases hcontent

theorem wp_place_absent (hcalls : Lawful engine.view engine.calls)
    (h : engine.view.stat (after (engine.ensureDirectory targetPath) s) targetPath ≠ some .directory) :
    wp (engine.place artifactPath targetPath language)
      (fun validation s' => (validation.syntaxValid = true → True) ∧
        engine.view.stat s' targetPath ≠ some .directory)
      (fun _ s' => engine.view.stat s' targetPath ≠ some .directory) s := by
  refine wp_place hcalls (fun s s' hs' hs => by rwa [hs'.stat]) (fun _ _ _ => trivial)
    (@wp_of_after _ _ _ _ (fun s' => engine.view.stat s' targetPath ≠ some .directory) _ h)
    fun s₁ hs₁ => wp_install hcalls fun s₂ _ hdst => ?_
  rw [stat_target_eq hs₁] at hdst
  rcases hdst with hsame | ⟨partly, hpartly⟩
  · rwa [hsame]
  · rw [hpartly]
    exact nofun

/-- What the backup of something comes to: the target is as before; if the backup returns, the target is a file, and so
is the backup, with the same content, unless its name is that of a directory. -/
theorem wp_createBackup (hcalls : Lawful engine.view engine.calls) {entry : Entry}
    (hentry : engine.view.stat s targetPath = some entry) :
    wp (engine.createBackup targetPath deploymentId)
      (fun backup s' => backup ≠ [] ∧ engine.view.stat s' targetPath = some entry ∧ entry ≠ .directory ∧
        (engine.view.stat s' backup = some .directory ∨
          engine.view.stat s' backup = some entry ∧ engine.view.sameFile s' backup targetPath = false))
      (fun _ s' => engine.view.stat s' targetPath = some entry) s := by
  unfold createBackup
  rw [wp_bind]
  refine wp_mono (wp_makedirs hcalls true _ s) (fun _ s₁ hs₁ => ?_) fun _ s₁ hs₁ => hs₁.stat _ _ hentry
  have hentry₁ := hs₁.stat _ _ hentry
  generalize hpath : join (join (dirname targetPath) backupDir)
    (basename targetPath ++ ".bak.".toList ++ deploymentId.toList) = backup
  have hne : backup ≠ [] := by
    rw [← hpath]
    exact join_ne_nil _ (by simp)
  rw [wp_bind]
  refine wp_mono (wp_copy2 hcalls targetPath backup s₁) (fun _ s₂ hs₂ => ?_) fun _ s₂ hs₂ => ?_
  · obtain ⟨hbeside, content, hsrc, htarget, hsame, hdst⟩ := hs₂
    obtain rfl := Option.some.inj (hentry₁.symm.trans hsrc)
    refine ⟨hne, htarget, nofun, ?_⟩
    by_cases hdir : engine.view.stat s₁ backup = some .directory
    · exact .inl (hbeside.directory backup hdir)
    · rw [stat_target_eq hdir] at hsame hdst
      rw [hcalls.symm s₂ backup]
      exact .inr ⟨hdst, hsame⟩
  · obtain ⟨hbeside, hsrc, -⟩ := hs₂
    cases entry with
    | file content => exact hsrc content hentry₁
    | directory => exact hbeside.directory _ hentry₁

end

/-! ## All or nothing -/

section
variable (artifactPath targetPath : Path) (language deploymentId : String)

/-- What is put in the place of the target passes the validation. -/
def Passes (s : σ) : Prop :=
  ∃ validation s', (engine.place artifactPath targetPath language).run s = .ok validation s' ∧
    validation.syntaxValid = true

/-- The ways in which a target is lost, or something is left in its place: there is no artifact, and the audit of that
raises; its backup raises; it is copied into a directory that has the name of the backup, and the new file does not
pass; there was nothing, and the directories that are made for it are in its place. -/
inductive Loses (s : σ) : Prop
  | unlogged {e : OSError} {s' : σ} : engine.view.isfile s artifactPath = false →
    engine.view.isfile s targetPath = true →
    (engine.audit "deployment_failure" (failure targetPath none
      ("Source not found: " ++ String.ofList artifactPath))).run s = .error e s' → Loses s
  | unsaved {e : OSError} {s' : σ} : engine.view.isfile s artifactPath = true →
    engine.view.isfile s targetPath = true →
    (engine.createBackup targetPath deploymentId).run s = .error e s' → Loses s
  | misplaced {backup : Path} {s' : σ} : engine.view.isfile s artifactPath = true →
    engine.view.isfile s targetPath = true →
    (engine.createBackup targetPath deploymentId).run s = .ok backup s' → engine.view.isfile s' backup = false →
    ¬ engine.Passes artifactPath targetPath language s' → Loses s
  | directory : engine.view.isfile s artifactPath = true → engine.view.stat s targetPath = none →
    engine.view.stat (after (engine.ensureDirectory targetPath) s) targetPath = some .directory → Loses s

/-- Unless the record that `deploy` returns says `deployed`, the target is as before. -/
def Restores (s : σ) : Prop :=
  wp (engine.deploy artifactPath targetPath language deploymentId)
    (fun record s' => record.status ≠ .deployed → engine.view.stat s' targetPath = engine.view.stat s targetPath)
    (fun _ _ => True) s

end

section
variable {engine} {artifactPath targetPath : Path} {language deploymentId : String} {s : σ}

theorem isfile_eq_false {path : Path} (h : engine.view.stat s path = some .directory) :
    engine.view.isfile s path = false := by
  unfold View.isfile
  rw [h]

theorem wp_finish_passes (hnamed : Named artifactPath targetPath deploymentId) (haudited : engine.Audited targetPath)
    {backupPath : Option Path} (h : engine.Passes artifactPath targetPath language s) :
    wp (engine.finish artifactPath targetPath language deploymentId backupPath)
      (fun record _ => record.status = .deployed) (fun _ _ => False) s := by
  obtain ⟨validation, s', hrun, hvalid⟩ := h
  unfold finish checkRecord
  rw [wp_tryCatch, wp_bind, wp_of_run_ok hrun, hvalid, if_pos rfl, if_pos hnamed, wp_bind, wp_pure, wp_bind]
  exact wp_mono (haudited.closing _ _ s') (fun _ _ _ => rfl) fun _ _ => False.elim

section
variable (hnamed : Named artifactPath targetPath deploymentId) (haudited : engine.Audited targetPath)
  (hcalls : Lawful engine.view engine.calls) (hrescue : Lawful engine.view engine.rescue)
  (hreliable : Reliable engine.view engine.rescue)

include hnamed haudited hcalls hrescue hreliable

/-- The directories are in the place of the target. -/
theorem wp_finish_directory (h : engine.view.stat (after (engine.ensureDirectory targetPath) s) targetPath =
      some .directory) :
    wp (engine.finish artifactPath targetPath language deploymentId none)
      (fun record s' => record.status ≠ .deployed ∧ engine.view.stat s' targetPath = some .directory)
      (fun _ _ => False) s := by
  refine wp_mono (wp_finish hnamed haudited (some .directory) (wp_place_directory hcalls h) fun s' hs' => ?_)
    (fun record s' h => ?_) fun _ _ h => h
  · refine wp_mono (wp_rollback_remove hrescue hreliable nofun) (fun _ s'' h => ?_) fun _ _ h => h
    rw [isfile_eq_false hs', if_neg nofun] at h
    rwa [h]
  · exact h.resolve_left fun h => h.2

/-- There was nothing, and there may be something now. -/
theorem wp_finish_absent (h : engine.view.stat (after (engine.ensureDirectory targetPath) s) targetPath ≠
      some .directory) :
    wp (engine.finish artifactPath targetPath language deploymentId none)
      (fun record s' => record.status ≠ .deployed → engine.view.stat s' targetPath = none) (fun _ _ => False) s := by
  refine wp_mono (wp_finish hnamed haudited none (wp_place_absent hcalls h) fun s' hs' => ?_)
    (fun record s' h hne => ?_) fun _ _ h => h
  · refine wp_mono (wp_rollback_remove hrescue hreliable nofun) (fun _ s'' h => ?_) fun _ _ h => h
    by_cases hfile : engine.view.isfile s' targetPath = true
    · rwa [if_pos hfile] at h
    · rw [if_neg hfile] at h
      rw [h]
      cases hstat : engine.view.stat s' targetPath with
      | none => rfl
      | some entry =>
        cases entry with
        | file content => exact absurd (isfile_iff.mpr ⟨content, hstat⟩) hfile
        | directory => exact absurd hstat hs'
  · exact (h.resolve_left fun h => hne h.1).2

/-- There is a backup. -/
theorem wp_finish_saved {backup : Path} (hne : backup ≠ [])
    (h : Target engine.view targetPath (some (backup, .file content)) s) :
    wp (engine.finish artifactPath targetPath language deploymentId (some backup))
      (fun record s' => record.status ≠ .deployed → engine.view.stat s' targetPath = some (.file content))
      (fun _ _ => False) s := by
  refine wp_mono (wp_finish hnamed haudited (some (.file content)) (wp_place_file hcalls h) fun s' hs' => ?_)
    (fun record s' h hne => ?_) fun _ _ h => h
  · obtain ⟨earlier, htarget⟩ := hs'.target
    obtain ⟨hbackup, hsame⟩ := hs'.saved backup _ rfl
    exact wp_rollback_restore hrescue hreliable hne hbackup htarget (hsame nofun)
  · exact (h.resolve_left fun h => hne h.1).2

/-- The backup is in a directory that has its name, and the new file does not pass. -/
theorem wp_finish_misplaced {backup : Path} (h : Target engine.view targetPath (some (backup, .directory)) s)
    (hfails : ¬ engine.Passes artifactPath targetPath language s) :
    wp (engine.finish artifactPath targetPath language deploymentId (some backup))
      (fun record s' => record.status ≠ .deployed ∧ engine.view.stat s' targetPath = none) (fun _ _ => False) s := by
  have hplace : wp (engine.place artifactPath targetPath language)
      (fun validation s' => (validation.syntaxValid = true → False) ∧
        Target engine.view targetPath (some (backup, .directory)) s')
      (fun _ => Target engine.view targetPath (some (backup, .directory))) s := by
    refine wp_mono (wp_and (wp_place_file hcalls h) (wp_run _ s)) (fun validation s' h => ⟨fun hvalid => ?_, h.1.2⟩)
      fun _ _ h => h.1
    exact hfails ⟨validation, s', h.2, hvalid⟩
  refine wp_mono (wp_finish hnamed haudited none hplace fun s' hs' => ?_) (fun record s' h => ?_) fun _ _ h => h
  · have hbackup := isfile_eq_false (hs'.saved backup _ rfl).1
    refine wp_mono (wp_rollback_remove hrescue hreliable fun path hpath => ?_) (fun _ s'' h => ?_) fun _ _ h => h
    · rwa [← Option.some.inj hpath]
    · rwa [if_pos (isfile_iff.mpr hs'.target)] at h
  · exact h.resolve_left fun h => h.2

end

/-- A call that fails, and leaves something else in the place of the target. -/
theorem not_restored {call : EStateM OSError σ DeploymentRecord} {before final : Option Entry}
    (hfails : wp call (fun record s' => record.status ≠ .deployed ∧ engine.view.stat s' targetPath = final)
      (fun _ _ => False) s) (hne : final ≠ before) :
    ¬ wp call (fun record s' => record.status ≠ .deployed → engine.view.stat s' targetPath = before)
      (fun _ _ => True) s := by
  intro h
  refine not_wp ?_ (fun _ _ h => h.2) (wp_and h hfails)
  rintro record s' ⟨hrestored, hstatus, hfinal⟩
  exact hne (hfinal.symm.trans (hrestored hstatus))

/-- No artifact: the target is as before, unless it is a file and the audit raises. -/
theorem restores_iff_of_no_artifact (hnamed : Named artifactPath targetPath deploymentId)
    (haudited : engine.Audited targetPath) (hrescue : Lawful engine.view engine.rescue)
    (hreliable : Reliable engine.view engine.rescue) (hartifact : engine.view.isfile s artifactPath = false) :
    engine.Restores artifactPath targetPath language deploymentId s ↔
      ¬ engine.Loses artifactPath targetPath language deploymentId s := by
  have hloses : engine.Loses artifactPath targetPath language deploymentId s ↔
      engine.view.isfile s targetPath = true ∧ ∃ e s', (engine.audit "deployment_failure" (failure targetPath none
        ("Source not found: " ++ String.ofList artifactPath))).run s = .error e s' := by
    constructor
    · intro h
      cases h with
      | unlogged _ htarget hraise => exact ⟨htarget, _, _, hraise⟩
      | unsaved hfile _ _ => exact absurd hfile (hartifact ▸ nofun)
      | misplaced hfile _ _ _ _ => exact absurd hfile (hartifact ▸ nofun)
      | directory hfile _ _ => exact absurd hfile (hartifact ▸ nofun)
    · rintro ⟨htarget, e, s', hraise⟩
      exact .unlogged hartifact htarget hraise
  have haudit := haudited.audit "deployment_failure"
    (failure targetPath none ("Source not found: " ++ String.ofList artifactPath)) s
  rw [hloses, Restores, deploy, wp_bind, wp_get, if_pos hartifact, wp_tryCatch, wp_recordFailure hnamed]
  cases hrun : (engine.audit "deployment_failure" (failure targetPath none
    ("Source not found: " ++ String.ofList artifactPath))).run s with
  | ok u s₁ =>
    rw [wp_of_run_ok hrun] at haudit ⊢
    refine iff_of_true (fun _ => haudit) ?_
    rintro ⟨-, e, s', hraise⟩
    cases hraise
  | error e s₁ =>
    rw [wp_of_run_error hrun] at haudit ⊢
    have hrollback := @wp_rollback_remove _ engine targetPath s₁ hrescue hreliable none nofun
    by_cases hfile : engine.view.isfile s targetPath = true
    · obtain ⟨content, hcontent⟩ := isfile_iff.mp hfile
      simp only [isfile_iff.mpr ⟨content, haudit.trans hcontent⟩, if_true] at hrollback
      refine iff_of_false ?_ (not_not.mpr ⟨hfile, e, s₁, rfl⟩)
      exact not_restored (wp_undo hnamed haudited none hrollback) fun h => nomatch h.trans hcontent
    · refine iff_of_true ?_ fun h => hfile h.1
      have hnot : ¬ engine.view.isfile s₁ targetPath = true := by
        rwa [View.isfile, haudit]
      simp only [hnot] at hrollback
      have hundo := @wp_undo _ engine artifactPath targetPath deploymentId s₁ hnamed haudited
        (engine.view.stat s targetPath) none e
        (wp_mono hrollback (fun _ s₂ h => by rw [h, haudit]) fun _ _ => False.elim)
      exact wp_mono hundo (fun _ s₂ h _ => h.2) fun _ _ _ => trivial

/-- Where there was nothing, there is one way to lose. -/
theorem loses_iff_of_absent (hartifact : engine.view.isfile s artifactPath = true)
    (habsent : engine.view.stat s targetPath = none) :
    engine.Loses artifactPath targetPath language deploymentId s ↔
      engine.view.stat (after (engine.ensureDirectory targetPath) s) targetPath = some .directory := by
  have hnot : engine.view.isfile s targetPath ≠ true := by
    rw [View.isfile, habsent]
    exact nofun
  constructor
  · intro h
    cases h with
    | unlogged _ htarget _ => exact absurd htarget hnot
    | unsaved _ htarget _ => exact absurd htarget hnot
    | misplaced _ htarget _ _ _ => exact absurd htarget hnot
    | directory _ _ hdirectory => exact hdirectory
  · intro h
    exact .directory hartifact habsent h

/-- Nothing to lose: the target is a directory. -/
theorem not_loses_of_directory (h : engine.view.stat s targetPath = some .directory) :
    ¬ engine.Loses artifactPath targetPath language deploymentId s := by
  have hfile := isfile_eq_false h
  intro hloses
  cases hloses with
  | unlogged _ htarget _ => exact absurd htarget (hfile ▸ nofun)
  | unsaved _ htarget _ => exact absurd htarget (hfile ▸ nofun)
  | misplaced _ htarget _ _ _ => exact absurd htarget (hfile ▸ nofun)
  | directory _ habsent _ =>
    rw [h] at habsent
    cases habsent

/-- Behind a backup, there is one way to lose. -/
theorem loses_iff_of_backup {backup : Path} {s' : σ} (hartifact : engine.view.isfile s artifactPath = true)
    (htarget : engine.view.isfile s targetPath = true)
    (hrun : (engine.createBackup targetPath deploymentId).run s = .ok backup s') :
    engine.Loses artifactPath targetPath language deploymentId s ↔
      engine.view.isfile s' backup = false ∧ ¬ engine.Passes artifactPath targetPath language s' := by
  constructor
  · intro h
    cases h with
    | unlogged hnone _ _ => exact absurd hartifact (hnone ▸ nofun)
    | unsaved _ _ hraise =>
      rw [hrun] at hraise
      cases hraise
    | misplaced _ _ hrun' hbackup hfails =>
      rw [hrun] at hrun'
      cases hrun'
      exact ⟨hbackup, hfails⟩
    | directory _ habsent _ =>
      obtain ⟨content, hcontent⟩ := isfile_iff.mp htarget
      rw [habsent] at hcontent
      cases hcontent
  · intro h
    exact .misplaced hartifact htarget hrun h.1 h.2

/-- With an artifact, a run is its backup and what follows. -/
theorem restores_iff_backUp (hartifact : engine.view.isfile s artifactPath = true) :
    engine.Restores artifactPath targetPath language deploymentId s ↔
      wp (engine.backUp targetPath deploymentId)
        (fun backup => wp
          (match backup with
          | .ok backupPath => engine.finish artifactPath targetPath language deploymentId backupPath
          | .error e => engine.undo artifactPath targetPath deploymentId none e)
          (fun record s' => record.status ≠ .deployed → engine.view.stat s' targetPath = engine.view.stat s targetPath)
          fun _ _ => True)
        (fun _ _ => True) s := by
  unfold Restores deploy
  rw [wp_bind, wp_get, hartifact, if_neg nofun, wp_bind]

/-- The backup, by the run of `_create_backup`. -/
theorem wp_backUp {Q : Except OSError (Option Path) → σ → Prop} {E : OSError → σ → Prop} :
    wp (engine.backUp targetPath deploymentId) Q E s ↔
      match engine.view.stat s targetPath, (engine.createBackup targetPath deploymentId).run s with
      | none, _ => Q (.ok none) s
      | some _, .ok backup s' => Q (.ok (some backup)) s'
      | some _, .error e s' => Q (.error e) s' := by
  unfold backUp
  rw [wp_bind, wp_get, View.exist]
  cases engine.view.stat s targetPath with
  | none => rfl
  | some entry =>
    rw [Option.isSome_some, if_pos rfl, wp_tryCatch, wp_bind]
    cases hrun : (engine.createBackup targetPath deploymentId).run s with
    | ok backup s' => rw [wp_of_run_ok hrun, wp_pure]
    | error e s' => rw [wp_of_run_error hrun, wp_pure]

section
variable (hnamed : Named artifactPath targetPath deploymentId) (haudited : engine.Audited targetPath)
  (hcalls : Lawful engine.view engine.calls) (hrescue : Lawful engine.view engine.rescue)
  (hreliable : Reliable engine.view engine.rescue) (hartifact : engine.view.isfile s artifactPath = true)

include hnamed haudited hcalls hrescue hreliable hartifact

/-- There was nothing. -/
theorem restores_iff_of_absent (htarget : engine.view.stat s targetPath = none) :
    engine.Restores artifactPath targetPath language deploymentId s ↔
      ¬ engine.Loses artifactPath targetPath language deploymentId s := by
  rw [restores_iff_backUp hartifact, wp_backUp, loses_iff_of_absent hartifact htarget, htarget]
  dsimp only
  by_cases hdirectory : engine.view.stat (after (engine.ensureDirectory targetPath) s) targetPath = some .directory
  · refine iff_of_false ?_ (not_not.mpr hdirectory)
    exact not_restored (wp_finish_directory hnamed haudited hcalls hrescue hreliable hdirectory) nofun
  · refine iff_of_true ?_ hdirectory
    exact wp_mono (wp_finish_absent hnamed haudited hcalls hrescue hreliable hdirectory) (fun _ _ h => h)
      fun _ _ _ => trivial

/-- The backup has raised. -/
theorem restores_iff_of_unsaved {entry : Entry} {e : OSError} {s₁ : σ}
    (htarget : engine.view.stat s targetPath = some entry)
    (hrun : (engine.createBackup targetPath deploymentId).run s = .error e s₁) :
    engine.Restores artifactPath targetPath language deploymentId s ↔
      ¬ engine.Loses artifactPath targetPath language deploymentId s := by
  have hbackup := @wp_createBackup _ _ _ deploymentId _ hcalls _ htarget
  rw [wp_of_run_error hrun] at hbackup
  have hrollback := @wp_rollback_remove _ engine targetPath s₁ hrescue hreliable none nofun
  rw [restores_iff_backUp hartifact, wp_backUp, htarget, hrun]
  dsimp only
  cases entry with
  | directory =>
    simp only [isfile_eq_false hbackup, Bool.false_eq_true, if_false] at hrollback
    have hundo := @wp_undo _ engine artifactPath targetPath deploymentId s₁ hnamed haudited (some .directory) none e
      (wp_mono hrollback (fun _ s₂ h => by rwa [h]) fun _ _ => False.elim)
    refine iff_of_true ?_ (not_loses_of_directory htarget)
    exact wp_mono hundo (fun _ _ h _ => h.2) fun _ _ _ => trivial
  | file content =>
    have hfile : engine.view.isfile s targetPath = true := isfile_iff.mpr ⟨content, htarget⟩
    simp only [isfile_iff.mpr ⟨content, hbackup⟩, if_true] at hrollback
    refine iff_of_false ?_ (not_not.mpr (.unsaved hartifact hfile hrun))
    exact not_restored (wp_undo hnamed haudited none hrollback) nofun

/-- The backup has returned: the target was a file, and what counts is whether there is a copy. -/
theorem restores_iff_of_saved {entry : Entry} {backup : Path} {s₁ : σ}
    (htarget : engine.view.stat s targetPath = some entry)
    (hrun : (engine.createBackup targetPath deploymentId).run s = .ok backup s₁) :
    engine.Restores artifactPath targetPath language deploymentId s ↔
      ¬ engine.Loses artifactPath targetPath language deploymentId s := by
  have hbackup := @wp_createBackup _ _ _ deploymentId _ hcalls _ htarget
  rw [wp_of_run_ok hrun] at hbackup
  obtain ⟨hne, htarget₁, hentry, hsaved⟩ := hbackup
  cases entry with
  | directory => exact absurd rfl hentry
  | file content =>
    have hfile : engine.view.isfile s targetPath = true := isfile_iff.mpr ⟨content, htarget⟩
    rw [restores_iff_backUp hartifact, wp_backUp, loses_iff_of_backup hartifact hfile hrun, htarget, hrun]
    dsimp only
    have hkeeps (saved : Entry) (hstat : engine.view.stat s₁ backup = some saved)
        (hsame : saved ≠ .directory → engine.view.sameFile s₁ backup targetPath = false) :
        Target engine.view targetPath (some (backup, saved)) s₁ := by
      refine ⟨⟨content, htarget₁⟩, fun path entry h => ?_⟩
      obtain ⟨rfl, rfl⟩ := Prod.mk.inj (Option.some.inj h)
      exact ⟨hstat, hsame⟩
    rcases hsaved with hdirectory | ⟨hcopy, hsame⟩
    · rw [isfile_eq_false hdirectory, eq_self, true_and, not_not]
      by_cases hpasses : engine.Passes artifactPath targetPath language s₁
      · refine iff_of_true (wp_mono (wp_finish_passes hnamed haudited hpasses) (fun record _ h hnot => ?_)
          fun _ _ _ => trivial) hpasses
        exact absurd h hnot
      · refine iff_of_false ?_ hpasses
        exact not_restored (wp_finish_misplaced hnamed haudited hcalls hrescue hreliable
          (hkeeps _ hdirectory fun h => absurd rfl h) hpasses) nofun
    · have hcopied : engine.view.isfile s₁ backup = true := isfile_iff.mpr ⟨content, hcopy⟩
      refine iff_of_true (wp_mono (wp_finish_saved hnamed haudited hcalls hrescue hreliable hne
        (hkeeps _ hcopy fun _ => hsame)) (fun _ _ h => h) fun _ _ _ => trivial) fun h => ?_
      rw [hcopied] at h
      cases h.1

/-- With an artifact, and with names for a record. -/
theorem restores_iff_of_artifact : engine.Restores artifactPath targetPath language deploymentId s ↔
    ¬ engine.Loses artifactPath targetPath language deploymentId s := by
  cases htarget : engine.view.stat s targetPath with
  | none => exact restores_iff_of_absent hnamed haudited hcalls hrescue hreliable hartifact htarget
  | some entry =>
    cases hrun : (engine.createBackup targetPath deploymentId).run s with
    | error e s₁ => exact restores_iff_of_unsaved hnamed haudited hcalls hrescue hreliable hartifact htarget hrun
    | ok backup s₁ => exact restores_iff_of_saved hnamed haudited hcalls hrescue hreliable hartifact htarget hrun

end

/-- Without names, no record is returned. -/
theorem restores_of_unnamed (hnamed : ¬ Named artifactPath targetPath deploymentId) :
    engine.Restores artifactPath targetPath language deploymentId s := by
  suffices h : wp (engine.deploy artifactPath targetPath language deploymentId) (fun _ _ => False) (fun _ _ => True) s
    from wp_mono h (fun _ _ => False.elim) fun _ _ _ => trivial
  unfold deploy
  rw [wp_bind, wp_get, wp_ite, wp_tryCatch, wp_bind]
  refine ⟨fun _ => wp_recordFailure_unnamed hnamed fun _ => wp_undo_unnamed hnamed, fun _ => ?_⟩
  refine wp_cases (fun backup s₁ _ => ?_) fun _ _ _ => trivial
  cases backup with
  | ok backupPath => exact wp_finish_unnamed hnamed
  | error e => exact wp_undo_unnamed hnamed

/-- **Deployment is all or nothing**, but for four ways to lose. -/
theorem deploy_restores_iff (haudited : engine.Audited targetPath) (hcalls : Lawful engine.view engine.calls)
    (hrescue : Lawful engine.view engine.rescue) (hreliable : Reliable engine.view engine.rescue) :
    engine.Restores artifactPath targetPath language deploymentId s ↔
      (Named artifactPath targetPath deploymentId →
        ¬ engine.Loses artifactPath targetPath language deploymentId s) := by
  by_cases hnamed : Named artifactPath targetPath deploymentId
  · rw [imp_iff_right hnamed]
    by_cases hartifact : engine.view.isfile s artifactPath = true
    · exact restores_iff_of_artifact hnamed haudited hcalls hrescue hreliable hartifact
    · exact restores_iff_of_no_artifact hnamed haudited hrescue hreliable (Bool.eq_false_of_not_eq_true hartifact)
  · exact iff_of_true (restores_of_unnamed hnamed) fun h => absurd h hnamed

end

end Engine

/-! ### A backup that cannot be made -/

/-- An engine on a disk, to whose parser everything is well, with a log that is elsewhere. -/
def diskEngine : Engine Disk where
  view := Disk.view
  calls := Disk.calls
  rescue := Disk.calls
  audit _ _ := pure ()
  closing _ _ := pure ()
  cwd := "/project".toList
  parseError? _ := none
  repr _ := "[]"

theorem audited_diskEngine (targetPath : Path) : diskEngine.Audited targetPath := ⟨fun _ _ _ => rfl, fun _ _ _ => rfl⟩

/-- A file, a new one for it, and a file with the name of the directory of the backups. -/
def disk : Disk := fun path =>
  if path = "f.py".toList then some (.file [1])
  else if path = "new.py".toList then some (.file [2])
  else if path = Engine.backupDir then some (.file [])
  else none

/-- The same without that last file. -/
def emptyDisk : Disk := Function.update disk Engine.backupDir none

theorem deploy_restores_iff_disk :
    diskEngine.Restores "new.py".toList "f.py".toList "python" "0" emptyDisk ↔
      (Engine.Named "new.py".toList "f.py".toList "0" →
        ¬ diskEngine.Loses "new.py".toList "f.py".toList "python" "0" emptyDisk) :=
  Engine.deploy_restores_iff (audited_diskEngine _) Disk.lawful Disk.lawful Disk.reliable

/-- The file is removed by the rollback. -/
theorem file_lost : ¬ diskEngine.Restores "new.py".toList "f.py".toList "python" "0" disk := by
  rw [Engine.restores_iff_of_artifact (by decide) (audited_diskEngine _) Disk.lawful Disk.lawful Disk.reliable rfl,
    not_not]
  have hraises : (diskEngine.createBackup "f.py".toList "0").run disk = .error (.fileExists "File exists") disk := by
    have hname : join (dirname "f.py".toList) Engine.backupDir = Engine.backupDir := by decide
    unfold Engine.createBackup
    dsimp only
    rw [hname, makedirs_of_name (by decide)]
    rfl
  exact .unsaved rfl rfl hraises

end Atlas.Agent
