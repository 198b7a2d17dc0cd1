import Atlas.Agent.Cli
import Atlas.Agent.Validator

/-!
# What stands behind a deployment

The pipeline with its validator. Account is kept of what the tools are asked and answer.

* `Exchange`, `Engines.checked` : the engines with this validator, on a world with the account;
* `Check`, `checksOf`, `Vetted` : the checks of a project; each is asked for, in order, and succeeds;
* `wp_checkSyntax`, `wp_runSecurityScan` : what the validator adds to the account;
* `Round`, `Vouched` : the rounds of a run with their parts of the account;
* `deployed_vetted` : a round passes just when it is vetted, and files are deployed behind such a round.
-/

namespace Atlas.Agent
open Raising Files Validator

/-- `generated` : a round has its files. `scanned` : for the security scan. -/
inductive Exchange
  | generated (files : List String)
  | asked (command : Command) (answer : Except ToolError Completed)
  | sourced (path : String) (answer : Except ToolError String)
  | scanned (command : Command) (answer : Except ToolError Completed)

section
variable {ω α ε : Type}

/-! ## The account -/

/-- A call with an entry for its answer. -/
def recorded (mark : Except ε α → List Exchange) (call : EStateM ε ω α) : EStateM ε (ω × List Exchange) α := fun s =>
  match call.run s.1 with
  | .ok a o => .ok a (o, s.2 ++ mark (.ok a))
  | .error e o => .error e (o, s.2 ++ mark (.error e))

def Validator.Tools.noted (tools : Tools ω) (mark : Command → Except ToolError Completed → Exchange) :
    Tools (ω × List Exchange) where
  run command := recorded (fun answer => [mark command answer]) (tools.run command)
  readSource path := recorded (fun answer => [.sourced path answer]) (tools.readSource path)
  view := ⟨fun s => tools.view.stat s.1, fun s => tools.view.sameFile s.1⟩
  getcwd := tools.getcwd
  parse := tools.parse

def Engines.checked (engines : Engines ω) (tools : Tools ω) : Engines (ω × List Exchange) where
  requireHumanApproval := engines.requireHumanApproval
  fallbackModel := engines.fallbackModel
  generateProject call := recorded (fun answer => answer.toOption.toList.map .generated) (engines.generateProject call)
  checkSyntax := Validator.checkSyntax (tools.noted .asked)
  runSecurityScan := Validator.runSecurityScan (tools.noted .scanned)
  readFile path := widen (engines.readFile path)
  getAntiPatterns := widen engines.getAntiPatterns
  input := widen engines.input
  deploy source target language := widen (engines.deploy source target language)

theorem wp_recorded {mark : Except ε α → List Exchange} {call : EStateM ε ω α} {s : ω × List Exchange}
    {Q : α → ω × List Exchange → Prop} {E : ε → ω × List Exchange → Prop}
    (hok : ∀ a o, Q a (o, s.2 ++ mark (.ok a))) (herror : ∀ e o, E e (o, s.2 ++ mark (.error e))) :
    wp (recorded mark call) Q E s := by
  unfold wp recorded EStateM.run
  dsimp only
  cases call s.1 with
  | ok a o => exact hok a o
  | error e o => exact herror e o

/-! ## Checks -/

inductive Check
  | program (command : Command)
  | source (path : String)
  deriving DecidableEq

/-- `gofmt` has to be silent, too. -/
def succeeded (command : Command) (result : Completed) : Bool :=
  result.returncode = 0 && (command.words ≠ ["gofmt", "-l", "."] || stripped result.stdout = "")

variable (tools : Tools ω)

/-- The check of an entry, and whether it has succeeded. -/
def Exchange.verdict? : Exchange → Option (Check × Bool)
  | asked command (.ok result) => some (.program command, succeeded command result)
  | asked command (.error _) => some (.program command, false)
  | sourced path (.ok text) => some (.source path, (tools.parse text).isNone)
  | sourced path (.error _) => some (.source path, false)
  | _ => none

def verdicts (page : List Exchange) : List (Check × Bool) := page.filterMap (·.verdict? tools)

def goChecks (dir : Path) : List Command := [gofmt dir, goVet dir, goTest dir, goTestRace dir, goBuild dir]

/-- The check of a file. -/
def checkOf (filePath : String) : Language → Check
  | .python => .source filePath
  | _ => .program (rustc filePath)

/-- The checks of a project: those of its directory for Go, and otherwise one for each file. -/
def checksOf (language : Language) (folder : String) (sources : List String) (isDirectory : Bool) : List Check :=
  if language = .go then (goChecks (projectOf (abspath tools.getcwd folder.toList) isDirectory)).map .program
  else sources.map fun path => checkOf (joinPath folder path) language

/-- Each check of a project is asked for, in order, and succeeds. -/
def Proves (language : Language) (folder : String) (sources : List String) (vs : List (Check × Bool)) : Prop :=
  ∃ isDirectory, vs = (checksOf tools language folder sources isDirectory).map (·, true)

/-- The account has grown by these verdicts. -/
def Adds (s s' : ω × List Exchange) (vs : List (Check × Bool)) : Prop :=
  ∃ page, s'.2 = s.2 ++ page ∧ verdicts tools page = vs

variable {tools}

theorem Adds.refl (s : ω × List Exchange) : Adds tools s s [] := ⟨[], (List.append_nil _).symm, rfl⟩

theorem Adds.trans {s s₁ s₂ : ω × List Exchange} {vs ws : List (Check × Bool)} (h : Adds tools s s₁ vs)
    (h' : Adds tools s₁ s₂ ws) : Adds tools s s₂ (vs ++ ws) := by
  obtain ⟨page, hpage, rfl⟩ := h
  obtain ⟨page', hpage', rfl⟩ := h'
  refine ⟨page ++ page', ?_, List.filterMap_append⟩
  rw [hpage', hpage, List.append_assoc]

theorem Adds.one {s : ω × List Exchange} (o : ω) (x : Exchange) :
    Adds tools s (o, s.2 ++ [x]) (x.verdict? tools).toList := by
  refine ⟨[x], rfl, ?_⟩
  rw [verdicts, List.filterMap_cons, List.filterMap_nil]
  cases x.verdict? tools <;> rfl

/-- A call with an entry adds the verdict of the entry. -/
theorem adds_recorded (mark : Except ε α → Exchange) (call : EStateM ε ω α) (s : ω × List Exchange) :
    wp (recorded (fun answer => [mark answer]) call)
      (fun a s' => Adds tools s s' ((mark (.ok a)).verdict? tools).toList)
      (fun e s' => Adds tools s s' ((mark (.error e)).verdict? tools).toList) s :=
  wp_recorded (fun a o => Adds.one o (mark (.ok a))) fun e o => Adds.one o (mark (.error e))

/-! ## Syntax -/

/-- A program is started, for the syntax check. -/
theorem wp_asked (command : Command) (s : ω × List Exchange) :
    wp ((tools.noted .asked).run command)
      (fun result s' => Adds tools s s' [(.program command, succeeded command result)])
      (fun _ s' => Adds tools s s' [(.program command, false)]) s :=
  adds_recorded (.asked command) (tools.run command) s

theorem succeeded_eq {command : Command} (h : command.words ≠ ["gofmt", "-l", "."]) (result : Completed) :
    succeeded command result = (resultOf result).passed := by
  simp [succeeded, resultOf, h]

/-- The verdicts are those of the commands, all of them true, just when the chain passes. -/
theorem wp_runChain (commands : List Command) (last : Command)
    (h : ∀ command ∈ commands ++ [last], command.words ≠ ["gofmt", "-l", "."]) (s : ω × List Exchange) :
    wp (runChain (tools.noted .asked) commands last)
      (fun result s' => ∃ vs, Adds tools s s' vs ∧
        (result.passed = true ↔ vs = (commands ++ [last]).map fun command => (.program command, true)))
      (fun _ s' => ∃ vs, Adds tools s s' vs ∧
        vs ≠ (commands ++ [last]).map fun command => (.program command, true)) s := by
  induction commands generalizing s with
  | nil =>
    rw [runChain, wp_bind]
    refine wp_mono (wp_asked last s) (fun result s' hs' => ?_) fun e s' hs' => ⟨_, hs', by simp⟩
    refine ⟨_, hs', ?_⟩
    rw [succeeded_eq (h last (by simp))]
    simp
  | cons command commands ih =>
    rw [runChain, wp_bind]
    refine wp_mono (wp_asked command s) (fun result s₁ hs₁ => ?_) fun e s' hs' => ⟨_, hs', by simp⟩
    rw [succeeded_eq (h command (by simp))] at hs₁
    rw [wp_ite]
    refine ⟨fun hfailed => ⟨_, hs₁, ?_⟩, fun hok => ?_⟩
    · have hno : (resultOf result).passed = false := by simpa [resultOf] using hfailed
      simp [hno]
    · have hyes : (resultOf result).passed = true := by simpa [resultOf] using hok
      have hrest : ∀ other ∈ commands ++ [last], other.words ≠ ["gofmt", "-l", "."] :=
        fun other hother => h other (List.mem_cons_of_mem _ hother)
      refine wp_mono (ih hrest s₁) (fun result' s₂ hs₂ => ?_) fun e s₂ hs₂ => ?_
      · obtain ⟨vs, hvs, hiff⟩ := hs₂
        refine ⟨_, hs₁.trans hvs, hiff.trans ?_⟩
        simp [hyes]
      · obtain ⟨vs, hvs, hne⟩ := hs₂
        refine ⟨_, hs₁.trans hvs, ?_⟩
        simpa [hyes] using hne

theorem goChecks_iff {absPath dir : Path} {isDirectory passed : Bool} {vs : List (Check × Bool)}
    (hdir : dir = projectOf absPath isDirectory) :
    (∃ isDirectory, (.program (gofmt dir), passed) :: vs =
        ((goChecks (projectOf absPath isDirectory)).map Check.program).map (·, true)) ↔
      (.program (gofmt dir), passed) :: vs = ((goChecks dir).map Check.program).map (·, true) := by
  constructor
  · rintro ⟨other, h⟩
    have hsame : dir = projectOf absPath other := by
      have hhead := (List.cons.inj h).1
      have hboth : dir = projectOf absPath other ∧ passed = true := by simpa [gofmt] using hhead
      exact hboth.1
    rw [hsame]
    rw [hsame] at h
    exact h
  · intro h
    exact ⟨isDirectory, by rw [← hdir]; exact h⟩

theorem wp_checkGo (filePath : String) (s : ω × List Exchange) :
    wp (checkGo (tools.noted .asked) filePath)
      (fun result s' => ∃ vs, Adds tools s s' vs ∧
        (result.passed = true ↔ ∃ isDirectory, vs = (checksOf tools .go filePath [] isDirectory).map (·, true)))
      (fun _ s' => ∃ vs, Adds tools s s' vs ∧
        ¬ ∃ isDirectory, vs = (checksOf tools .go filePath [] isDirectory).map (·, true)) s := by
  obtain ⟨dir, hdir⟩ : ∃ dir, dir = projectOf (abspath tools.getcwd filePath.toList)
    (tools.view.isdir s.1 (abspath tools.getcwd filePath.toList)) := ⟨_, rfl⟩
  have hproject : wp (projectDir (tools.noted .asked) filePath) (fun dir' s' => dir' = dir ∧ s' = s)
      (fun _ _ => False) s := ⟨hdir.symm, rfl⟩
  have hfails (vs : List (Check × Bool)) : (.program (gofmt dir), false) :: vs ≠
      ((goChecks dir).map Check.program).map (·, true) := by
    intro h
    exact Bool.false_ne_true (congrArg Prod.snd (List.cons.inj h).1)
  simp only [checksOf, if_true]
  rw [checkGo, wp_bind]
  refine wp_mono hproject (fun dir' s' hdir' => ?_) fun _ _ hfalse => hfalse.elim
  obtain ⟨rfl, rfl⟩ := hdir'
  rw [wp_bind]
  refine wp_mono (wp_asked (gofmt dir') s') (fun format s₁ hs₁ => ?_) fun e s₁ hs₁ => ?_
  · rw [wp_ite]
    refine ⟨fun hfailed => ⟨_, hs₁, ?_⟩, fun hok => ?_⟩
    · have hno : succeeded (gofmt dir') format = false := by simp [succeeded, hfailed]
      rw [hno, goChecks_iff hdir]
      exact iff_of_false (by simp [resultOf, hfailed]) (hfails [])
    · rw [wp_ite]
      refine ⟨fun hnames => ⟨_, hs₁, ?_⟩, fun hsilent => ?_⟩
      · have hno : succeeded (gofmt dir') format = false := by simp [succeeded, gofmt, hnames]
        rw [hno, goChecks_iff hdir]
        exact iff_of_false Bool.false_ne_true (hfails [])
      · have hyes : succeeded (gofmt dir') format = true := by
          simp [succeeded, not_not.mp hok, not_not.mp hsilent]
        have hwords : ∀ command ∈ [goVet dir', goTest dir', goTestRace dir'] ++ [goBuild dir'],
            command.words ≠ ["gofmt", "-l", "."] := by simp [goVet, goTest, goTestRace, goBuild]
        rw [hyes] at hs₁
        refine wp_mono (wp_runChain [goVet dir', goTest dir', goTestRace dir'] (goBuild dir') hwords s₁)
          (fun result s₂ hs₂ => ?_) fun e s₂ hs₂ => ?_
        · obtain ⟨vs, hvs, hiff⟩ := hs₂
          refine ⟨_, hs₁.trans hvs, ?_⟩
          rw [List.singleton_append, goChecks_iff hdir, hiff]
          simp [goChecks]
        · obtain ⟨vs, hvs, hne⟩ := hs₂
          refine ⟨_, hs₁.trans hvs, ?_⟩
          rw [List.singleton_append, goChecks_iff hdir]
          simpa [goChecks] using hne
  · refine ⟨_, hs₁, ?_⟩
    rw [goChecks_iff hdir]
    exact hfails []

theorem wp_checkPython (filePath : String) (s : ω × List Exchange) :
    wp (checkPython (tools.noted .asked) filePath)
      (fun result s' => Adds tools s s' [(.source filePath, result.passed)])
      (fun _ s' => Adds tools s s' [(.source filePath, false)]) s := by
  unfold checkPython
  rw [wp_bind]
  refine wp_mono (adds_recorded (.sourced filePath) (tools.readSource filePath) s) (fun text s' hs' => ?_)
    fun e s' hs' => hs'
  have hadds : Adds tools s s' [(.source filePath, (tools.parse text).isNone)] := hs'
  cases hparse : tools.parse text with
  | none =>
    rw [hparse] at hadds
    simpa [Tools.noted, hparse] using hadds
  | some complaint =>
    rw [hparse] at hadds
    simpa [Tools.noted, hparse] using hadds

theorem wp_checkSyntax (filePath : String) (language : Language) {Q : TestResult → ω → Prop}
    {E : String → ω → Prop} {s : ω} : wp (checkSyntax tools filePath language) Q E s ↔
      wp (check tools filePath language) Q (fun e => Q ⟨false, [e.text]⟩) s := by
  rw [checkSyntax, wp_adaptExcept, wp_tryCatch]
  rfl

/-- The check of a file. -/
theorem wp_checkFile (filePath : String) {language : Language} (h : language ≠ .go) (s : ω × List Exchange)
    {E : String → ω × List Exchange → Prop} : wp (checkSyntax (tools.noted .asked) filePath language)
      (fun result s' => Adds tools s s' [(checkOf filePath language, result.passed)]) E s := by
  rw [wp_checkSyntax]
  cases language with
  | python => exact wp_checkPython filePath s
  | rust =>
    rw [check, wp_bind]
    refine wp_mono (wp_asked (rustc filePath) s) (fun result s' hs' => ?_) fun e s' hs' => hs'
    rw [succeeded_eq (by simp [rustc])] at hs'
    exact hs'
  | go => exact absurd rfl h

/-- The check of a Go project. -/
theorem wp_checkProject (folder : String) (s : ω × List Exchange) {E : String → ω × List Exchange → Prop} :
    wp (checkSyntax (tools.noted .asked) folder .go)
      (fun result s' => ∃ vs, Adds tools s s' vs ∧
        (result.passed = true ↔ ∃ isDirectory, vs = (checksOf tools .go folder [] isDirectory).map (·, true))) E s := by
  rw [wp_checkSyntax]
  refine wp_mono (wp_checkGo folder s) (fun _ _ hs' => hs') fun e s' hs' => ?_
  obtain ⟨vs, hvs, hno⟩ := hs'
  exact ⟨vs, hvs, iff_of_false Bool.false_ne_true hno⟩

/-! ## Security -/

theorem wp_start (command : Command) (s : ω × List Exchange) :
    wp (start (tools.noted .scanned) command) (fun _ s' => Adds tools s s' []) (fun _ s' => Adds tools s s' []) s := by
  rw [start, wp_adaptExcept]
  exact adds_recorded (.scanned command) (tools.run command) s

/-- There is no critical finding, and no verdict. -/
def Scanned (tools : Tools ω) (s : ω × List Exchange) (findings : List SecurityFinding) (s' : ω × List Exchange) :
    Prop :=
  (∀ finding ∈ findings, finding.severity ≠ .critical) ∧ Adds tools s s' []

theorem wp_newFinding {finding : SecurityFinding} (h : finding.severity ≠ .critical) (path : String)
    {s s' : ω × List Exchange} (hs' : Adds tools s s' []) :
    wp (newFinding finding path) (Scanned tools s) (fun _ s' => Adds tools s s' []) s' := by
  unfold newFinding
  rw [wp_ite]
  refine ⟨fun _ => hs', fun _ => ?_⟩
  rw [wp_ite]
  exact ⟨fun _ => ⟨by simpa using h, hs'⟩, fun _ => hs'⟩

/-- A scanner is started, and its complaints become a finding or nothing. -/
theorem wp_scanner (command : Command) {complains : Completed → Prop} [DecidablePred complains]
    {finding : Completed → SecurityFinding} (h : ∀ result, (finding result).severity ≠ .critical) (path : String)
    (s : ω × List Exchange) :
    wp (do
      let result ← start (tools.noted .scanned) command
      if complains result then newFinding (finding result) path else return [])
      (Scanned tools s) (fun _ s' => Adds tools s s' []) s := by
  rw [wp_bind]
  refine wp_mono (wp_start command s) (fun result s' hs' => ?_) fun _ _ hs' => hs'
  rw [wp_ite]
  exact ⟨fun _ => wp_newFinding (h result) path hs', fun _ => ⟨nofun, hs'⟩⟩

theorem wp_runSecurityScan (filePath : String) (language : Language) (baseDir : String) (s : ω × List Exchange) :
    wp (runSecurityScan (tools.noted .scanned) filePath language baseDir) (Scanned tools s)
      (fun _ s' => Adds tools s s' []) s := by
  have hmedium : SecurityLevel.medium ≠ .critical := by decide
  have hhigh : SecurityLevel.high ≠ .critical := by decide
  rw [runSecurityScan, wp_adaptExcept]
  cases language with
  | python => exact wp_scanner _ (fun _ => hmedium) _ s
  | rust => exact wp_scanner _ (fun _ => hhigh) _ s
  | go =>
    rw [scan, scanGo, wp_bind, wp_get, wp_ite]
    refine ⟨fun _ => ⟨nofun, Adds.refl s⟩, fun _ => ?_⟩
    exact wp_scanner _ (fun _ => hhigh) _ s

/-! ## A round -/

/-- Without critical findings only the checks count. -/
theorem passes_iff {artifact : Artifact}
    (hcritical : ∀ finding ∈ artifact.securityFindings, finding.severity ≠ .critical)
    (hfiles : artifact.generatedFiles ≠ []) : Passes artifact ↔ artifact.testResults.all (·.passed) = true := by
  have hcount : artifact.securityFindings.countP (·.severity = .critical) = 0 := by
    rw [List.countP_eq_zero]
    intro finding hfinding
    simpa using hcritical finding hfinding
  have haccepts : accepts artifact = artifact.testResults.all (·.passed) := by
    have hall : artifact.securityFindings.all (·.severity ≠ .critical) = true := by simpa using hcritical
    rw [accepts, hall, Bool.true_and]
  have hlength : (1 : ℚ) ≤ artifact.generatedFiles.length := by
    exact_mod_cast List.length_pos_iff.mpr hfiles
  rw [Passes, haccepts, and_iff_right_iff_imp]
  intro hall
  have hmin : min 1 (artifact.generatedFiles.length : ℚ) = 1 := min_eq_left hlength
  rw [qualityOf, computeQualityScore, hall, hcount, hmin]
  simp only [QualityScore.passed, QualityScore.computeOverall, QualityScore.passThreshold, gt_iff_lt,
    lt_self_iff_false, if_true, if_false]
  split_ifs <;> norm_num

/-- What a call leaves alone: the account of events, and that of the tools. -/
def accounts (s : World (ω × List Exchange)) : List Event × List Exchange := (s.events, s.outside.2)

theorem accounts_eq {s s' : World (ω × List Exchange)} (h : accounts s' = accounts s) :
    s'.events = s.events ∧ s'.outside.2 = s.outside.2 := Prod.mk.inj h

theorem accounts_outside {call : EStateM String (ω × List Exchange) α} (h : Keeps Prod.snd call) :
    Keeps accounts (outside call) := by
  intro s
  have hcall := h s.outside
  unfold wp outside EStateM.run at *
  dsimp only
  cases hrun : call s.outside with
  | ok a o =>
    rw [hrun] at hcall
    exact congrArg (Prod.mk s.events) hcall
  | error e o =>
    rw [hrun] at hcall
    exact congrArg (Prod.mk s.events) hcall

theorem accounts_widened (call : EStateM String ω α) :
    Keeps accounts (outside (widen call : EStateM String (ω × List Exchange) α)) := accounts_outside (keeps_widen call)

theorem accounts_logAudit (action component result : String) (error : Option String) :
    Keeps accounts (logAudit action component result error : M (ω × List Exchange) Unit) := fun _ => rfl

variable (tools) in
/-- Nothing has been noted but the verdicts. -/
def Grown (s s' : World (ω × List Exchange)) (vs : List (Check × Bool)) : Prop :=
  s'.events = s.events ∧ Adds tools s.outside s'.outside vs

theorem Grown.trans {s s₁ s₂ : World (ω × List Exchange)} {vs ws : List (Check × Bool)} (h : Grown tools s s₁ vs)
    (h' : Grown tools s₁ s₂ ws) : Grown tools s s₂ (vs ++ ws) := ⟨h'.1.trans h.1, h.2.trans h'.2⟩

theorem wp_outside {call : EStateM String (ω × List Exchange) α} {Q : α → ω × List Exchange → Prop}
    {E : String → ω × List Exchange → Prop} {s : World (ω × List Exchange)} (h : wp call Q E s.outside) :
    wp (outside call) (fun a s' => s'.events = s.events ∧ Q a s'.outside)
      (fun _ s' => s'.events = s.events ∧ ∃ text, E text s'.outside) s := by
  unfold wp outside EStateM.run at *
  dsimp only
  cases hrun : call s.outside with
  | ok a o =>
    rw [hrun] at h
    exact ⟨rfl, h⟩
  | error text o =>
    rw [hrun] at h
    exact ⟨rfl, text, h⟩

/-- The files that are checked one by one. -/
def fileChecks (language : Language) (folder : String) (paths : List String) : List Check :=
  if language = .go then [] else paths.map fun path => checkOf (joinPath folder path) language

/-- From one state of an inspection to a later one. -/
structure Inspected (seen next : Artifact × Bool) : Prop where
  files : next.1.generatedFiles = seen.1.generatedFiles
  results : seen.2 = seen.1.testResults.all (·.passed) → next.2 = next.1.testResults.all (·.passed)
  findings : (∀ finding ∈ seen.1.securityFindings, finding.severity ≠ .critical) →
    ∀ finding ∈ next.1.securityFindings, finding.severity ≠ .critical

theorem Inspected.refl (seen : Artifact × Bool) : Inspected seen seen := ⟨rfl, id, id⟩

theorem Inspected.trans {seen next last : Artifact × Bool} (h : Inspected seen next) (h' : Inspected next last) :
    Inspected seen last where
  files := h'.files.trans h.files
  results hseen := h'.results (h.results hseen)
  findings hseen := h'.findings (h.findings hseen)

section
variable (engines : Engines ω)

theorem inspected_check (seen : Artifact × Bool) (result : TestResult) :
    Inspected seen ({ seen.1 with testResults := seen.1.testResults ++ [result] }, seen.2 && result.passed) where
  files := rfl
  results hseen := by simp [hseen]
  findings hseen := hseen

theorem wp_checkInto_file (filePath : String) {language : Language} (h : language ≠ .go) (seen : Artifact × Bool)
    (s : World (ω × List Exchange)) : wp (checkInto (engines.checked tools) filePath language seen)
      (fun next s' => ∃ passed, next.2 = (seen.2 && passed) ∧ Inspected seen next ∧
        Grown tools s s' [(checkOf filePath language, passed)]) (fun _ _ => False) s := by
  rw [checkInto, wp_bind]
  refine wp_mono (wp_outside (wp_checkFile filePath h s.outside (E := fun _ _ => False))) (fun result s' hs' => ?_)
    fun e s' hs' => ?_
  · exact ⟨result.passed, rfl, inspected_check seen result, hs'⟩
  · obtain ⟨_, _, hfalse⟩ := hs'
    exact hfalse

theorem wp_scanInto (filePath : String) (language : Language) (folder : String) (seen : Artifact × Bool)
    (s : World (ω × List Exchange)) : wp (scanInto (engines.checked tools) filePath language folder seen)
      (fun next s' => next.2 = seen.2 ∧ Inspected seen next ∧ Grown tools s s' [])
      (fun _ s' => Grown tools s s' []) s := by
  rw [scanInto, wp_bind]
  refine wp_mono (wp_outside (wp_runSecurityScan filePath language folder s.outside)) (fun findings s' hs' => ?_)
    fun e s' hs' => ?_
  · obtain ⟨hevents, hcritical, hadds⟩ := hs'
    refine ⟨rfl, ⟨rfl, id, fun hseen => ?_⟩, hevents, hadds⟩
    exact List.forall_mem_append.mpr ⟨hseen, hcritical⟩
  · exact ⟨hs'.1, hs'.2.choose_spec⟩

/-- The verdicts of files: all of them are true just when every check has passed. -/
def Judges (language : Language) (folder : String) (paths : List String) (passed passed' : Bool)
    (vs : List (Check × Bool)) : Prop :=
  vs.length = (fileChecks language folder paths).length ∧
    (passed' = true ↔ passed = true ∧ vs = (fileChecks language folder paths).map (·, true))

theorem fileChecks_cons (language : Language) (folder path : String) (paths : List String) :
    fileChecks language folder (path :: paths) =
      fileChecks language folder [path] ++ fileChecks language folder paths := by
  unfold fileChecks
  split_ifs <;> rfl

theorem Judges.cons {language : Language} {folder path : String} {paths : List String} {passed passed₁ passed₂ : Bool}
    {vs ws : List (Check × Bool)} (h : Judges language folder [path] passed passed₁ vs)
    (h' : Judges language folder paths passed₁ passed₂ ws) :
    Judges language folder (path :: paths) passed passed₂ (vs ++ ws) := by
  obtain ⟨hlength, hiff⟩ := h
  obtain ⟨hlength', hiff'⟩ := h'
  unfold Judges
  rw [fileChecks_cons, List.length_append, List.length_append, List.map_append, hlength, hlength', hiff', hiff,
    and_assoc]
  refine ⟨rfl, and_congr_right fun _ => ⟨fun hboth => ?_, fun happend => ?_⟩⟩
  · rw [hboth.1, hboth.2]
  · exact List.append_inj happend (by rw [hlength, List.length_map])

theorem wp_checkNext (language : Language) (folder path : String) (seen : Artifact × Bool)
    (s : World (ω × List Exchange)) :
    wp (if language = .go then pure seen else checkInto (engines.checked tools) (joinPath folder path) language seen)
      (fun next s' => Inspected seen next ∧ ∃ vs, Grown tools s s' vs ∧ Judges language folder [path] seen.2 next.2 vs)
      (fun _ _ => False) s := by
  rw [wp_ite]
  refine ⟨fun hgo => ⟨Inspected.refl seen, [], ⟨rfl, Adds.refl _⟩, ?_⟩, fun hgo => ?_⟩
  · simp [Judges, fileChecks, hgo]
  · refine wp_mono (wp_checkInto_file engines (joinPath folder path) hgo seen s) (fun next s' hs' => ?_)
      fun _ _ hfalse => hfalse
    obtain ⟨passed, hnext, hinspected, hgrown⟩ := hs'
    refine ⟨hinspected, _, hgrown, ?_⟩
    simp [Judges, fileChecks, hgo, hnext]

theorem wp_inspectFiles (language : Language) (folder : String) (paths : List String) (seen : Artifact × Bool)
    (s : World (ω × List Exchange)) : wp (inspectFiles (engines.checked tools) language folder paths seen)
      (fun next s' => Inspected seen next ∧ ∃ vs, Grown tools s s' vs ∧ Judges language folder paths seen.2 next.2 vs)
      (fun _ s' => ∃ vs, Grown tools s s' vs) s := by
  induction paths generalizing seen s with
  | nil =>
    refine ⟨Inspected.refl seen, [], ⟨rfl, Adds.refl _⟩, ?_⟩
    simp [Judges, fileChecks]
  | cons path paths ih =>
    rw [inspectFiles, wp_bind]
    refine wp_mono (wp_checkNext engines language folder path seen s) (fun checked s₁ hs₁ => ?_)
      fun _ _ hfalse => hfalse.elim
    obtain ⟨hchecked, vs, hvs, hjudges⟩ := hs₁
    rw [wp_bind]
    refine wp_mono (wp_scanInto engines (joinPath folder path) language folder checked s₁)
      (fun scanned s₂ hs₂ => ?_) fun e s₂ hs₂ => ⟨_, hvs.trans hs₂⟩
    obtain ⟨hsame, hscanned, hgrown⟩ := hs₂
    refine wp_mono (ih scanned s₂) (fun next s₃ hs₃ => ?_) fun e s₃ hs₃ => ?_
    · obtain ⟨hnext, ws, hws, hrest⟩ := hs₃
      rw [hsame] at hrest
      refine ⟨(hchecked.trans hscanned).trans hnext, _, hvs.trans (hgrown.trans hws), ?_⟩
      exact hjudges.cons hrest
    · obtain ⟨ws, hws⟩ := hs₃
      exact ⟨_, hvs.trans (hgrown.trans hws)⟩

theorem wp_inspect (language : Language) (folder : String) (sources : List String) (artifact : Artifact)
    (s : World (ω × List Exchange)) : wp (inspect (engines.checked tools) language folder sources artifact)
      (fun seen s' => Inspected (artifact, true) seen ∧ ∃ vs, Grown tools s s' vs ∧
        (seen.2 = true ↔ Proves tools language folder sources vs))
      (fun _ s' => ∃ vs, Grown tools s s' vs) s := by
  rw [inspect, wp_bind, wp_ite]
  refine ⟨fun hgo => ?_, fun hgo => ?_⟩
  · subst hgo
    rw [checkInto, wp_bind]
    refine wp_mono (wp_outside (wp_checkProject folder s.outside (E := fun _ _ => False)))
      (fun result s₁ hs₁ => ?_) fun e s₁ hs₁ => hs₁.2.choose_spec.elim
    obtain ⟨hevents, vs, hvs, hiff⟩ := hs₁
    have hchecked := inspected_check (artifact, true) result
    rw [wp_pure]
    refine wp_mono (wp_inspectFiles engines .go folder sources _ s₁) (fun seen s₂ hs₂ => ?_) fun e s₂ hs₂ => ?_
    · obtain ⟨hinspected, ws, hws, hlength, hseen⟩ := hs₂
      have hnil : ws = [] := List.length_eq_zero_iff.mp (by simpa [fileChecks] using hlength)
      refine ⟨hchecked.trans hinspected, _, Grown.trans ⟨hevents, hvs⟩ hws, ?_⟩
      have hchecks : checksOf tools .go folder sources = checksOf tools .go folder [] := rfl
      rw [hseen, hnil, List.append_nil, Proves, hchecks, ← hiff]
      simp [fileChecks]
    · obtain ⟨ws, hws⟩ := hs₂
      exact ⟨_, Grown.trans ⟨hevents, hvs⟩ hws⟩
  · rw [wp_pure]
    refine wp_mono (wp_inspectFiles engines language folder sources (artifact, true) s) (fun seen s₁ hs₁ => ?_)
      fun e s₁ hs₁ => hs₁
    obtain ⟨hinspected, vs, hvs, _, hseen⟩ := hs₁
    refine ⟨hinspected, vs, hvs, ?_⟩
    rw [hseen]
    simp [Proves, fileChecks, checksOf, hgo]

end

/-! ## The loop -/

/-- What was asked of the tools about the files of an artifact. -/
structure Round where
  artifact : Artifact
  page : List Exchange

namespace Round

/-- The part of the account. -/
def log (round : Round) : List Exchange := .generated round.artifact.generatedFiles :: round.page

variable (tools) in
/-- The checks are those of the source files, and all of them have succeeded; what a scanner says does not count. -/
def Vetted (requirement : Requirement) (round : Round) : Prop :=
  Proves tools requirement.language requirement.targetFolder (round.artifact.generatedFiles.filter isSource)
    (verdicts tools round.page)

variable (tools) in
/-- An artifact with files passes just when it is vetted. -/
def Sound (requirement : Requirement) (round : Round) : Prop :=
  round.artifact.generatedFiles ≠ [] → (Passes round.artifact ↔ round.Vetted tools requirement)

end Round

section
variable (engines : Engines ω)

theorem wp_generate_checked (requirement : Requirement) (specification : Specification) (number : Nat)
    (repairContext : Option String) (s : World (ω × List Exchange)) :
    wp (generate (engines.checked tools) requirement specification number repairContext)
      (fun files s' => s'.events = s.events ++ [.generate] ∧ s'.outside.2 = s.outside.2 ++ [.generated files])
      (fun _ s' => s'.events = s.events ++ [.generate] ∧ s'.outside.2 = s.outside.2) s := by
  have hcall (call : GenerateCall) (o : ω × List Exchange) : wp ((engines.checked tools).generateProject call)
      (fun files o' => o'.2 = o.2 ++ [.generated files]) (fun _ o' => o'.2 = o.2) o :=
    @wp_recorded ω (List String) String (fun answer => answer.toOption.toList.map .generated)
      (engines.generateProject call) o _ _ (fun _ _ => rfl) fun _ _ => List.append_nil _
  unfold generate note
  simp only [wp_bind, wp_get, wp_modify]
  refine wp_mono (wp_outside (hcall _ _)) (fun files s' hs' => ?_) fun e s' hs' => ?_
  · rw [wp_pure]
    refine ⟨hs'.1.trans ?_, hs'.2.trans ?_⟩ <;> dsimp only <;> split_ifs <;> rfl
  · obtain ⟨hevents, _, hlog⟩ := hs'
    refine ⟨hevents.trans ?_, hlog.trans ?_⟩ <;> dsimp only <;> split_ifs <;> rfl

theorem wp_retry_checked (requirement : Requirement) (number : Nat) (artifact : Artifact) (sourceFiles : List String)
    (quality : QualityScore) (history : List AttemptRecord) (carried : Carried) (s : World (ω × List Exchange)) :
    wp (retry (engines.checked tools) requirement number artifact sourceFiles quality history carried)
      (fun _ s' => accounts s' = accounts s ∧ number ≠ maxAttempts) (fun _ s' => accounts s' = accounts s) s := by
  unfold retry
  rw [wp_bind]
  refine wp_mono (accounts_widened _ s) (fun antiPatterns s₁ hs₁ => ?_) fun _ _ hs₁ => hs₁
  rw [wp_bind]
  refine wp_mono (Q := fun _ s' => accounts s' = accounts s₁) (E := fun _ s' => accounts s' = accounts s₁) ?_
    (fun code s₂ hs₂ => ?_) fun _ _ hs₂ => hs₂.trans hs₁
  · cases sourceFiles with
    | nil => exact rfl
    | cons path paths => exact accounts_widened _ s₁
  have hsame := hs₂.trans hs₁
  dsimp only
  rw [wp_ite]
  exact ⟨fun _ => hsame, fun hlast => ⟨hsame, hlast⟩⟩

theorem wp_validateArtifact_checked (artifact : Artifact) (s : World (ω × List Exchange)) :
    wp (validateArtifact artifact) (fun accepted s' => accepted = accepts artifact ∧ accounts s' = accounts s)
      (fun _ s' => accounts s' = accounts s) s := by
  have hkeeps := keeps_validateArtifact accounts_logAudit artifact s
  refine wp_mono (wp_and ((silent_validateArtifact artifact).holds s) hkeeps)
    (fun accepted s' hs' => ⟨hs'.1.1, hs'.2⟩) fun _ _ hs' => hs'.2

/-- Through both gates, with the accounts left alone. -/
theorem wp_gates (artifact : Artifact) (s : World (ω × List Exchange)) :
    wp (if (qualityOf artifact).passed = true then validateArtifact artifact else pure false)
      (fun through s' => (through = true → Passes artifact) ∧ accounts s' = accounts s)
      (fun _ s' => accounts s' = accounts s) s := by
  rw [wp_ite]
  refine ⟨fun hpassed => ?_, fun _ => ⟨fun hfalse => absurd hfalse Bool.false_ne_true, rfl⟩⟩
  refine wp_mono (wp_validateArtifact_checked artifact s) (fun accepted s' hs' => ⟨fun htrue => ?_, hs'.2⟩)
    fun _ _ hs' => hs'
  exact ⟨hpassed, hs'.1.symm.trans htrue⟩

/-- An inspection that starts with nothing found makes a sound round. -/
theorem Inspected.sound {requirement : Requirement} {artifact : Artifact} {seen : Artifact × Bool}
    {page : List Exchange} (h : Inspected (artifact, true) seen) (hresults : artifact.testResults = [])
    (hfindings : artifact.securityFindings = []) (hproves : seen.2 = true ↔ Proves tools requirement.language
      requirement.targetFolder (artifact.generatedFiles.filter isSource) (verdicts tools page)) :
    (Round.mk seen.1 page).Sound tools requirement := by
  intro hfiles
  have hall : seen.2 = seen.1.testResults.all (·.passed) := h.results (by rw [hresults, List.all_nil])
  have hcritical := h.findings (by simp [hfindings])
  rw [passes_iff hcritical hfiles, ← hall, hproves, Round.Vetted, h.files]

variable (tools) in
/-- Between two states there is a round, and nothing else. -/
def OneRound (requirement : Requirement) (round : Round) (s s' : World (ω × List Exchange)) : Prop :=
  s'.events = s.events ++ [.generate, .judge round.artifact] ∧ s'.outside.2 = s.outside.2 ++ round.log ∧
    round.Sound tools requirement

variable (tools) in
/-- Between two states a round has begun and not come to its end. -/
def Begun (s s' : World (ω × List Exchange)) : Prop :=
  s'.events = s.events ++ [.generate] ∧ ∃ rest, s'.outside.2 = s.outside.2 ++ rest

theorem OneRound.of_accounts {requirement : Requirement} {round : Round} {s s₁ s₂ : World (ω × List Exchange)}
    (h : OneRound tools requirement round s s₁) (hsame : accounts s₂ = accounts s₁) :
    OneRound tools requirement round s s₂ :=
  ⟨(accounts_eq hsame).1.trans h.1, (accounts_eq hsame).2.trans h.2.1, h.2.2⟩

theorem wp_attempt_checked (requirement : Requirement) (specification : Specification) (number : Nat)
    (carried : Carried) (s : World (ω × List Exchange)) :
    wp (attempt (engines.checked tools) requirement specification number carried)
      (fun r s' => ∃ round, OneRound tools requirement round s s' ∧
        (if r.1 = true then Passes round.artifact ∧ r.2.artifact = some round.artifact else number ≠ maxAttempts))
      (fun _ s' => (∃ round, OneRound tools requirement round s s') ∨ Begun s s') s := by
  unfold attempt
  rw [wp_bind]
  refine wp_mono (wp_generate_checked engines requirement specification number carried.repairContext s)
    (fun files s₁ hs₁ => ?_) fun e s₁ hs₁ => Or.inr ⟨hs₁.1, [], by rw [hs₁.2, List.append_nil]⟩
  rw [wp_bind]
  refine wp_mono (wp_inspect engines requirement.language requirement.targetFolder (files.filter isSource)
    { requirement, specification, generatedFiles := files } s₁) (fun seen s₂ hs₂ => ?_) fun e s₂ hs₂ => ?_
  · obtain ⟨hinspected, vs, ⟨hevents, page, hpage, rfl⟩, hproves⟩ := hs₂
    have hresults : seen.2 = seen.1.testResults.all (·.passed) := hinspected.results rfl
    have hfiles : seen.1.generatedFiles = files := hinspected.files
    have hquality : computeQualityScore seen.2 seen.1.securityFindings files = qualityOf seen.1 := by
      rw [qualityOf, ← hresults, hfiles]
    dsimp only
    rw [hquality]
    unfold note
    rw [wp_bind, wp_modify]
    have hround : OneRound tools requirement ⟨seen.1, page⟩ s { s₂ with events := s₂.events ++ [.judge seen.1] } := by
      refine ⟨?_, ?_, hinspected.sound rfl rfl hproves⟩
      · show s₂.events ++ [.judge seen.1] = _
        rw [hevents, hs₁.1, List.append_assoc]
        rfl
      · show s₂.outside.2 = _
        rw [hpage, hs₁.2, List.append_assoc, Round.log, hfiles]
        rfl
    rw [wp_bind]
    refine wp_mono (keeps_readAll (fun _ => accounts_widened _) _ _) (fun _ s₃ hs₃ => ?_) fun e s₃ hs₃ =>
      Or.inl ⟨_, hround.of_accounts hs₃⟩
    rw [wp_bind]
    refine wp_mono (wp_gates seen.1 s₃) (fun through s₄ hs₄ => ?_) fun e s₄ hs₄ =>
      Or.inl ⟨_, hround.of_accounts (hs₄.trans hs₃)⟩
    have hround₄ := hround.of_accounts (hs₄.2.trans hs₃)
    rw [wp_ite]
    refine ⟨fun htrue => ?_, fun _ => ?_⟩
    · exact ⟨_, hround₄, by simpa using hs₄.1 htrue⟩
    · rw [wp_bind]
      refine wp_mono (wp_retry_checked engines _ _ _ _ _ _ _ s₄) (fun carried' s₅ hs₅ => ?_) fun e s₅ hs₅ => ?_
      · exact ⟨_, hround₄.of_accounts hs₅.1, by simpa using hs₅.2⟩
      · exact Or.inl ⟨_, hround₄.of_accounts hs₅⟩
  · obtain ⟨vs, hevents, page, hpage, _⟩ := hs₂
    exact Or.inr ⟨hevents.trans hs₁.1, _, by rw [hpage, hs₁.2, List.append_assoc]⟩

variable (tools) in
/-- Between two states there are these rounds, and behind them perhaps one that has not come to its end. -/
structure Rounds (requirement : Requirement) (rounds : List Round) (begun : List Event) (rest : List Exchange)
    (s s' : World (ω × List Exchange)) : Prop where
  unfinished : begun = [] ∨ begun = [.generate]
  events : s'.events = s.events ++ roundsOf (rounds.map (·.artifact)) ++ begun
  log : s'.outside.2 = s.outside.2 ++ rounds.flatMap Round.log ++ rest
  sound : ∀ round ∈ rounds, round.Sound tools requirement

theorem OneRound.rounds {requirement : Requirement} {round : Round} {s s' : World (ω × List Exchange)}
    (h : OneRound tools requirement round s s') : Rounds tools requirement [round] [] [] s s' where
  unfinished := Or.inl rfl
  events := by
    rw [List.append_nil]
    exact h.1
  log := by simpa using h.2.1
  sound := by simpa using h.2.2

theorem Rounds.cons {requirement : Requirement} {round : Round} {rounds : List Round} {begun : List Event}
    {rest : List Exchange} {s s₁ s₂ : World (ω × List Exchange)} (h : OneRound tools requirement round s s₁)
    (h' : Rounds tools requirement rounds begun rest s₁ s₂) :
    Rounds tools requirement (round :: rounds) begun rest s s₂ := by
  refine ⟨h'.unfinished, ?_, ?_, List.forall_mem_cons.mpr ⟨h.2.2, h'.sound⟩⟩
  · rw [h'.events, h.1]
    simp [roundsOf]
  · rw [h'.log, h.2.1]
    simp

theorem Rounds.from_accounts {requirement : Requirement} {rounds : List Round} {begun : List Event}
    {rest : List Exchange} {s s₁ s₂ : World (ω × List Exchange)} (hsame : accounts s₁ = accounts s)
    (h : Rounds tools requirement rounds begun rest s₁ s₂) : Rounds tools requirement rounds begun rest s s₂ where
  unfinished := h.unfinished
  events := by rw [h.events, (accounts_eq hsame).1]
  log := by rw [h.log, (accounts_eq hsame).2]
  sound := h.sound

variable (tools) in
/-- The loop has ended, with a round that passes. -/
def Finishes (requirement : Requirement) (s : World (ω × List Exchange)) (carried : Carried)
    (s' : World (ω × List Exchange)) : Prop :=
  ∃ rounds last, Rounds tools requirement (rounds ++ [last]) [] [] s s' ∧ Passes last.artifact ∧
    carried.artifact = some last.artifact

variable (tools) in
/-- It has raised. -/
def BreaksOff (requirement : Requirement) (s s' : World (ω × List Exchange)) : Prop :=
  ∃ rounds begun rest, Rounds tools requirement rounds begun rest s s'

theorem Finishes.cons {requirement : Requirement} {round : Round} {carried : Carried}
    {s s₁ s₂ : World (ω × List Exchange)} (h : OneRound tools requirement round s s₁)
    (h' : Finishes tools requirement s₁ carried s₂) : Finishes tools requirement s carried s₂ := by
  obtain ⟨rounds, last, hrounds, hlast⟩ := h'
  exact ⟨round :: rounds, last, Rounds.cons h hrounds, hlast⟩

theorem BreaksOff.cons {requirement : Requirement} {round : Round} {s s₁ s₂ : World (ω × List Exchange)}
    (h : OneRound tools requirement round s s₁) (h' : BreaksOff tools requirement s₁ s₂) :
    BreaksOff tools requirement s s₂ := by
  obtain ⟨rounds, begun, rest, hrounds⟩ := h'
  exact ⟨_, _, _, Rounds.cons h hrounds⟩

/-- How an attempt may raise. -/
theorem breaksOff_of_raised {requirement : Requirement} {s s' : World (ω × List Exchange)}
    (h : (∃ round, OneRound tools requirement round s s') ∨ Begun s s') : BreaksOff tools requirement s s' := by
  rcases h with ⟨round, hround⟩ | ⟨hevents, rest, hrest⟩
  · exact ⟨_, _, _, hround.rounds⟩
  · refine ⟨[], [.generate], rest, Or.inr rfl, ?_, ?_, nofun⟩
    · rw [hevents, List.map_nil, roundsOf, List.flatMap_nil, List.append_nil]
    · rw [hrest, List.flatMap_nil, List.append_nil]

/-- The loop goes on behind an attempt that is not the last one. -/
theorem wp_attempts_cons (requirement : Requirement) (specification : Specification) (number : Nat)
    (numbers : List Nat) (hnext : number ≠ maxAttempts → ∀ carried s,
      wp (attempts (engines.checked tools) requirement specification numbers carried) (Finishes tools requirement s)
        (fun _ => BreaksOff tools requirement s) s) (carried : Carried) (s : World (ω × List Exchange)) :
    wp (attempts (engines.checked tools) requirement specification (number :: numbers) carried)
      (Finishes tools requirement s) (fun _ => BreaksOff tools requirement s) s := by
  rw [attempts, wp_bind]
  refine wp_mono (wp_attempt_checked engines requirement specification number carried s) (fun r s₁ hs₁ => ?_)
    fun e s₁ hs₁ => breaksOff_of_raised hs₁
  obtain ⟨round, hround, hcase⟩ := hs₁
  rw [wp_ite]
  split_ifs at hcase with hstop
  · exact ⟨fun _ => ⟨[], round, hround.rounds, hcase⟩, fun hgo => absurd hstop hgo⟩
  · refine ⟨fun hgo => absurd hgo hstop, fun _ => ?_⟩
    exact wp_mono (hnext hcase r.2 s₁) (fun _ s₂ hs₂ => hs₂.cons hround) fun _ s₂ hs₂ => hs₂.cons hround

/-- The loop ends with a round that passes, or by raising. -/
theorem wp_attempts_checked (requirement : Requirement) (specification : Specification) (first count : Nat)
    (hlast : first + count = maxAttempts) (carried : Carried) (s : World (ω × List Exchange)) :
    wp (attempts (engines.checked tools) requirement specification (List.range' first (count + 1)) carried)
      (Finishes tools requirement s) (fun _ => BreaksOff tools requirement s) s := by
  induction count generalizing first carried s with
  | zero =>
    rw [List.range'_succ]
    exact wp_attempts_cons engines requirement specification first _ (fun hne => absurd hlast hne) carried s
  | succ count ih =>
    rw [List.range'_succ]
    exact wp_attempts_cons engines requirement specification first _ (fun _ => ih (first + 1) (by omega)) carried s

/-! ## The run -/

theorem files_requireHumanApproval (artifact : Artifact) (s : World (ω × List Exchange)) :
    wp (requireHumanApproval (engines.checked tools) artifact)
      (fun r _ => r.2.generatedFiles = artifact.generatedFiles) (fun _ _ => True) s := by
  unfold requireHumanApproval
  rw [wp_ite]
  refine ⟨fun _ => rfl, fun _ => ?_⟩
  rw [wp_bind]
  refine wp_cases (fun response s₁ _ => ?_) fun _ _ _ => trivial
  cases response with
  | none => rfl
  | some response =>
    dsimp only
    rw [wp_ite]
    exact ⟨fun _ => rfl, fun _ => rfl⟩

/-- Behind a loop over files: the first of them have been deployed. -/
def Deploys (targets : List String) (s s' : World (ω × List Exchange)) : Prop :=
  ∃ paths, paths <+: targets ∧ s'.events = s.events ++ paths.map .deploy ∧ s'.outside.2 = s.outside.2

theorem Deploys.of_accounts {targets : List String} {s s' : World (ω × List Exchange)}
    (h : accounts s' = accounts s) : Deploys targets s s' :=
  ⟨[], List.nil_prefix, (accounts_eq h).1.trans (List.append_nil _).symm, (accounts_eq h).2⟩

theorem Deploys.from_accounts {targets : List String} {s s₁ s₂ : World (ω × List Exchange)}
    (hsame : accounts s₁ = accounts s) (h : Deploys targets s₁ s₂) : Deploys targets s s₂ := by
  obtain ⟨paths, hprefix, hevents, hlog⟩ := h
  refine ⟨paths, hprefix, ?_, hlog.trans (accounts_eq hsame).2⟩
  rw [hevents, (accounts_eq hsame).1]

theorem Deploys.cons {target : String} {targets : List String} {s s' : World (ω × List Exchange)}
    (h : Deploys targets { s with events := s.events ++ [.deploy target] } s') : Deploys (target :: targets) s s' := by
  obtain ⟨paths, hprefix, hevents, hlog⟩ := h
  refine ⟨target :: paths, List.cons_prefix_cons.mpr ⟨rfl, hprefix⟩, ?_, hlog⟩
  rw [hevents]
  simp

theorem wp_deployAll_checked (requirement : Requirement) (artifact : Artifact) (files : List String)
    (s : World (ω × List Exchange)) : wp (deployAll (engines.checked tools) requirement artifact files)
      (fun _ s' => Deploys (files.map (joinPath requirement.targetFolder)) s s')
      (fun _ s' => Deploys (files.map (joinPath requirement.targetFolder)) s s') s := by
  induction files generalizing s with
  | nil => exact ⟨[], List.prefix_refl _, (List.append_nil _).symm, rfl⟩
  | cons file files ih =>
    rw [deployAll, wp_bind, note, wp_modify, wp_bind]
    refine wp_mono (accounts_widened _ _) (fun record s₁ hs₁ => ?_) fun e s₁ hs₁ => (Deploys.of_accounts hs₁).cons
    rw [wp_ite]
    refine ⟨fun _ => (Deploys.of_accounts hs₁).cons, fun _ => ?_⟩
    exact wp_mono_both (ih s₁) fun s₂ hs₂ => (hs₂.from_accounts hs₁).cons

/-- Behind the loop the artifact is put to the human, or not, and then its files are deployed, or not. -/
theorem wp_conclude_checked (requirement : Requirement) (artifact : Artifact) (s : World (ω × List Exchange)) :
    wp (conclude (engines.checked tools) requirement (some artifact))
      (fun _ s' => ∃ asks, (∀ ask ∈ asks, ∃ answer, ask = .approve artifact answer) ∧
        Deploys (artifact.generatedFiles.map (joinPath requirement.targetFolder))
          { s with events := s.events ++ asks } s')
      (fun _ s' => ∃ asks, (∀ ask ∈ asks, ∃ answer, ask = .approve artifact answer) ∧
        Deploys (artifact.generatedFiles.map (joinPath requirement.targetFolder))
          { s with events := s.events ++ asks } s') s := by
  rw [conclude, wp_bind]
  refine wp_mono (wp_and (keeps_requireHumanApproval accounts_logAudit (accounts_widened _) artifact s)
    (files_requireHumanApproval engines artifact s)) (fun r s₁ hs₁ => ?_) fun e s₁ hs₁ => ?_
  · obtain ⟨hsame, hfiles⟩ := hs₁
    obtain ⟨answer, asked⟩ := r
    have hone : ∀ ask ∈ [Event.approve artifact answer], ∃ answer, ask = .approve artifact answer := by
      intro ask hask
      exact ⟨answer, List.mem_singleton.mp hask⟩
    have hasked : accounts { s₁ with events := s₁.events ++ [.approve artifact answer] } =
        accounts { s with events := s.events ++ [.approve artifact answer] } := by
      rw [accounts, accounts, (accounts_eq hsame).1, (accounts_eq hsame).2]
    dsimp only
    rw [wp_bind, note, wp_modify, wp_ite]
    refine ⟨fun _ => ?_, fun _ => ?_⟩
    · rw [wp_bind]
      exact wp_mono_both (accounts_logAudit _ _ _ _ _) fun s₂ hs₂ =>
        ⟨_, hone, Deploys.of_accounts (hs₂.trans hasked)⟩
    · refine wp_mono_both (wp_deployAll_checked engines requirement asked asked.generatedFiles _) fun s₂ hs₂ => ?_
      rw [hfiles] at hs₂
      exact ⟨_, hone, hs₂.from_accounts hasked⟩
  · refine ⟨[], fun _ hask => absurd hask List.not_mem_nil, Deploys.of_accounts ?_⟩
    rw [List.append_nil]
    exact hs₁.1

end

/-- What the accounts of a run from `s` to `s'` say. -/
def Vouched (tools : Tools ω) (requirement : Requirement) (s s' : World (ω × List Exchange)) : Prop :=
  ∃ events rounds rest, s'.events = s.events ++ events ∧
    s'.outside.2 = s.outside.2 ++ rounds.flatMap Round.log ++ rest ∧
    judged events = rounds.map (·.artifact) ∧
    (∀ round ∈ rounds, round.Sound tools requirement) ∧
    (deployCalls events ≠ [] → ∃ front last, rounds = front ++ [last] ∧ rest = [] ∧ last.Vetted tools requirement ∧
      deployCalls events <+: last.artifact.generatedFiles.map (joinPath requirement.targetFolder))

theorem judged_append (events others : List Event) : judged (events ++ others) = judged events ++ judged others :=
  List.filterMap_append

theorem judged_deploys (paths : List String) : judged (paths.map .deploy) = [] := by
  rw [judged, List.filterMap_eq_nil_iff]
  intro event hevent
  obtain ⟨path, _, rfl⟩ := List.mem_map.mp hevent
  rfl

theorem quiet_asks {asks : List Event}
    (h : ∀ ask ∈ asks, ∃ (artifact : Artifact) (answer : Bool), ask = .approve artifact answer) :
    judged asks = [] ∧ deployCalls asks = [] := by
  rw [judged, deployCalls, List.filterMap_eq_nil_iff, List.filterMap_eq_nil_iff]
  refine ⟨fun ask hask => ?_, fun ask hask => ?_⟩
  · obtain ⟨artifact, answer, rfl⟩ := h ask hask
    rfl
  · obtain ⟨artifact, answer, rfl⟩ := h ask hask
    rfl

theorem vouched_of_accounts {requirement : Requirement} {s s' : World (ω × List Exchange)}
    (h : accounts s' = accounts s) : Vouched tools requirement s s' := by
  refine ⟨[], [], [], ?_, ?_, rfl, nofun, fun hne => absurd rfl hne⟩
  · rw [List.append_nil]
    exact (accounts_eq h).1
  · rw [List.flatMap_nil, List.append_nil, List.append_nil]
    exact (accounts_eq h).2

theorem Rounds.vouched {requirement : Requirement} {rounds : List Round} {begun : List Event} {rest : List Exchange}
    {s s' : World (ω × List Exchange)} (h : Rounds tools requirement rounds begun rest s s') :
    Vouched tools requirement s s' := by
  have hquiet : judged begun = [] ∧ deployCalls begun = [] := by
    rcases h.unfinished with hbegun | hbegun <;> rw [hbegun] <;> exact ⟨rfl, rfl⟩
  refine ⟨roundsOf (rounds.map (·.artifact)) ++ begun, rounds, rest, ?_, h.log, ?_, h.sound, fun hne => absurd ?_ hne⟩
  · rw [h.events, List.append_assoc]
  · rw [judged_append, judged_roundsOf, hquiet.1, List.append_nil]
  · rw [deployCalls_append, deployCalls_roundsOf, hquiet.2, List.append_nil]

/-- Behind the last round files of its artifact have been deployed. -/
theorem Rounds.vouched_deploys {requirement : Requirement} {rounds : List Round} {last : Round}
    {s s₁ s₂ : World (ω × List Exchange)} (h : Rounds tools requirement (rounds ++ [last]) [] [] s s₁)
    (hpasses : Passes last.artifact) {asks : List Event}
    (hasks : ∀ ask ∈ asks, ∃ answer, ask = .approve last.artifact answer)
    (hdeploys : Deploys (last.artifact.generatedFiles.map (joinPath requirement.targetFolder))
      { s₁ with events := s₁.events ++ asks } s₂) : Vouched tools requirement s s₂ := by
  obtain ⟨paths, hprefix, hevents, hlog⟩ := hdeploys
  obtain ⟨hjudged, hcalls⟩ := quiet_asks fun ask hask => ⟨_, hasks ask hask⟩
  have hpaths : deployCalls (roundsOf ((rounds ++ [last]).map (·.artifact)) ++ asks ++ paths.map .deploy) = paths := by
    rw [deployCalls_append, deployCalls_append, deployCalls_roundsOf, hcalls, deployCalls_map]
    rfl
  refine ⟨roundsOf ((rounds ++ [last]).map (·.artifact)) ++ asks ++ paths.map .deploy, rounds ++ [last], [], ?_,
    hlog.trans h.log, ?_, h.sound, fun hne => ⟨rounds, last, rfl, rfl, ?_, ?_⟩⟩
  · rw [hevents, h.events]
    simp
  · rw [judged_append, judged_append, judged_roundsOf, hjudged, judged_deploys]
    simp
  · rw [hpaths] at hne
    have hfiles : last.artifact.generatedFiles ≠ [] := by
      intro hnil
      rw [hnil, List.map_nil, List.prefix_nil] at hprefix
      exact hne hprefix
    exact (h.sound last (by simp) hfiles).mp hpasses
  · rw [hpaths]
    exact hprefix

/-- **What stands behind a deployment.** However a run ends and whatever the tools answer: an artifact with files gets
through the gates just when the checks of its source files have all succeeded; and what is deployed are files of the
last artifact, whose checks have succeeded. -/
theorem deployed_vetted (engines : Engines ω) (tools : Tools ω) (requirement : Requirement) (architecture : String)
    (modules : List String) (s : World (ω × List Exchange)) :
    wp (runPipeline (engines.checked tools) requirement architecture modules)
      (fun _ s' => Vouched tools requirement s s') (fun _ s' => Vouched tools requirement s s') s := by
  rw [runPipeline, wp_bind]
  refine wp_mono (accounts_logAudit _ _ _ _ s) (fun _ s₁ hs₁ => ?_) fun _ s₁ hs₁ => vouched_of_accounts hs₁
  dsimp only
  rw [wp_bind]
  refine wp_mono (keeps_validateSpecification accounts_logAudit _ s₁) (fun valid s₂ hs₂ => ?_) fun _ s₂ hs₂ =>
    vouched_of_accounts (hs₂.trans hs₁)
  have hearly := hs₂.trans hs₁
  rw [wp_ite]
  refine ⟨fun _ => ?_, fun _ => ?_⟩
  · rw [wp_bind]
    refine wp_mono (accounts_logAudit _ _ _ _ s₂) (fun _ s₃ hs₃ => ?_) fun _ s₃ hs₃ =>
      vouched_of_accounts (hs₃.trans hearly)
    exact vouched_of_accounts (hs₃.trans hearly)
  · rw [wp_bind]
    refine wp_mono (wp_attempts_checked engines requirement _ 1 4 rfl {} s₂) (fun carried s₃ hs₃ => ?_)
      fun e s₃ hs₃ => ?_
    · obtain ⟨rounds, last, hall, hpasses, hartifact⟩ := hs₃
      rw [hartifact]
      refine wp_mono_both (wp_conclude_checked engines requirement last.artifact s₃) fun s₄ hs₄ => ?_
      obtain ⟨asks, hasks, hdeploys⟩ := hs₄
      exact (hall.from_accounts hearly).vouched_deploys hpasses hasks hdeploys
    · obtain ⟨rounds, begun, rest, hall⟩ := hs₃
      exact (hall.from_accounts hearly).vouched

end

end Atlas.Agent
