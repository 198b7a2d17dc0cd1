import Atlas.Agent.Generator
import Atlas.Lib.Location

/-!
# The files of a generated project

* `testFile_inj`, `plain_testFile` : the name of a test, from the name of its source;
* `Surroundings.logged` : the same surroundings, with an account of the files that are written;
  `simulates_generateProject` : a run without the account;
* `Outcome` : what a run writes and returns; `wp_generateProject`.
-/

namespace Atlas.Agent.Generator
open Raising Regex Files

/-! ## Names of tests -/

abbrev Tested := Replaces goSuffix.pieces "_test.go".toList

theorem starts_go (before : Option Char) (s : List Char) : Starts goSuffix.pieces before (".go".toList ++ s) := by
  refine ⟨".go".toList, s, rfl, ?_⟩
  simp only [goSuffix, matches_one]
  exact ⟨'.', _, rfl, rfl, 'g', _, rfl, rfl, 'o', _, rfl, rfl, rfl⟩

/-- What ends a replacement has not been kept: `.go` would have been replaced. -/
theorem not_tested_kept {before : Option Char} {s out : List Char} : ¬ Tested before s ("test.go".toList ++ out) := by
  intro h
  have hmark : "_test.go".toList.head? = some '_' := rfl
  obtain ⟨t, -, ht⟩ := h.kept hmark (show _ = "test".toList ++ (".go".toList ++ out) from rfl) (by decide)
  obtain ⟨u, rfl, -⟩ := ht.kept hmark rfl (by decide)
  generalize hs : ".go".toList ++ u = s at ht
  generalize hout : ".go".toList ++ out = rest at ht
  cases ht with
  | nil => cases hs
  | keep hnot => exact hnot (hs ▸ starts_go _ u)
  | cut => cases hout

theorem tested_inj {before before' : Option Char} {s t out : List Char} (h : Tested before s out)
    (h' : Tested before' t out) : s = t := by
  induction h generalizing before' t with
  | nil before =>
    generalize hout : ([] : List Char) = out at h'
    cases h' with
    | nil => rfl
    | keep => cases hout
    | cut => cases hout
  | @keep before c s out hnot hrest ih =>
    generalize hout : c :: out = out' at h'
    cases h' with
    | nil => cases hout
    | keep _ hrest' =>
      obtain ⟨rfl, rfl⟩ := List.cons.inj hout
      rw [ih hrest']
    | cut _ _ hrest' =>
      obtain ⟨rfl, rfl⟩ := List.cons.inj hout
      exact absurd hrest not_tested_kept
  | @cut before w s out _ hmatch hrest ih =>
    generalize hout : "_test.go".toList ++ out = out' at h'
    cases h' with
    | nil => cases hout
    | keep _ hrest' =>
      obtain ⟨rfl, rfl⟩ := List.cons.inj hout
      exact absurd hrest' not_tested_kept
    | cut _ hmatch' hrest' =>
      rw [matches_goSuffix hmatch, matches_goSuffix hmatch', ih (List.append_cancel_left hout ▸ hrest')]

/-- Two files have two tests. -/
theorem testFile_inj : Function.Injective testFile := by
  intro a b h
  have ha : Tested none a (testFile a) := goSuffix.replaces_sub a
  have hb : Tested none b (testFile b) := goSuffix.replaces_sub b
  rw [h] at ha
  exact tested_inj ha hb

/-- A component is what it was, or no dots. -/
def Grown (component grown : Path) : Prop := grown = component ∨ 3 ≤ grown.length

theorem grown_modifyHead {cs gs : List Path} {f g : Path → Path} (h : List.Forall₂ Grown cs gs)
    (hhead : ∀ c grown, Grown c grown → Grown (f c) (g grown)) :
    List.Forall₂ Grown (cs.modifyHead f) (gs.modifyHead g) := by
  cases h with
  | nil => exact .nil
  | cons hfirst hrest => exact .cons (hhead _ _ hfirst) hrest

theorem grown_splitOn {before : Option Char} {s out : List Char} (h : Tested before s out) :
    List.Forall₂ Grown (s.splitOn '/') (out.splitOn '/') := by
  induction h with
  | nil => exact .cons (Or.inl rfl) .nil
  | keep _ _ ih =>
    rw [List.splitOn_cons_eq_if_modifyHead, List.splitOn_cons_eq_if_modifyHead]
    split_ifs
    · exact .cons (Or.inl rfl) ih
    · refine grown_modifyHead ih fun c grown hgrown => ?_
      rcases hgrown with rfl | hlong
      · exact Or.inl rfl
      · exact Or.inr (Nat.le_succ_of_le hlong)
  | cut _ hmatch _ ih =>
    rw [matches_goSuffix hmatch, splitOn_append_of_notMem (by decide), splitOn_append_of_notMem (by decide)]
    refine grown_modifyHead ih fun c grown _ => Or.inr ?_
    rw [List.length_append]
    exact Nat.le_add_right_of_le (by decide)

theorem Grown.isName {component grown : Path} (h : Grown component grown) (hname : IsName component)
    (hslash : '/' ∉ grown) : IsName grown := by
  rcases h with rfl | hlong
  · exact hname
  · refine ⟨?_, ?_, ?_, hslash⟩ <;> rintro rfl <;> simp at hlong

/-- The test of a file stands beside it. -/
theorem plain_testFile {file : Path} (h : Files.Plain file) : Files.Plain (testFile file) := by
  have hgrown : List.Forall₂ Grown (file.splitOn '/') ((testFile file).splitOn '/') :=
    grown_splitOn (goSuffix.replaces_sub file)
  intro grown hmem
  obtain ⟨i, hi, rfl⟩ := List.getElem_of_mem hmem
  have hi' : i < (file.splitOn '/').length := hgrown.length_eq ▸ hi
  exact (hgrown.get hi' hi).isName (h _ (List.getElem_mem hi')) (not_mem_of_mem_splitOn hmem)

/-! ## The account -/

section
variable {ω α : Type}

def Surroundings.logged (surroundings : Surroundings ω) : Surroundings (ω × List Path) where
  tables := surroundings.tables
  printable := surroundings.printable
  cwd := surroundings.cwd
  promptHash := surroundings.promptHash
  makedirs path := widen (surroundings.makedirs path)
  writeText path text := do
    widen (surroundings.writeText path text)
    modify fun s => (s.1, s.2 ++ [path])
  readText path := widen (surroundings.readText path)
  exist path := widen (surroundings.exist path)
  generateCode prompt language := widen (surroundings.generateCode prompt language)
  model := widen surroundings.model
  stamp := widen surroundings.stamp
  appendLine e := widen (surroundings.appendLine e)

/-- The files that have been written, in order. -/
def written (s : State (ω × List Path)) : List Path := s.outside.2

/-- The state without the account. -/
def unlogged (s : State (ω × List Path)) : State ω := ⟨s.outside.1, s.memory, s.prompts⟩

theorem run_outside (call : EStateM Failure ω α) (s : State ω) :
    (outside call).run s = match call.run s.outside with
      | .ok a o => .ok a { s with outside := o }
      | .error e o => .error e { s with outside := o } := rfl

/-! ### A run without the account -/

theorem simulates_outside {call : EStateM Failure (ω × List Path) α} {call' : EStateM Failure ω α}
    (h : Simulates Prod.fst call call') : Simulates unlogged (outside call) (outside call') := by
  intro s
  rw [run_outside, run_outside, show (unlogged s).outside = s.outside.1 from rfl, ← h s.outside]
  cases call.run s.outside <;> rfl

variable (surroundings : Surroundings ω)

theorem simulates_generateCode (subject : Subject) (prompt language : String) :
    Simulates unlogged (generateCode surroundings.logged subject prompt language)
      (generateCode surroundings subject prompt language) :=
  Simulates.bind (Simulates.modify fun _ => rfl) fun _ => simulates_outside (simulates_widen _)

theorem simulates_writeText (path : Path) (text : String) :
    Simulates unlogged (outside (surroundings.logged.writeText path text))
      (outside (surroundings.writeText path text)) := by
  apply simulates_outside
  intro s
  show mapState Prod.fst ((widen (surroundings.writeText path text) >>= _).run s) = _
  rw [EStateM.run_bind, run_widen]
  cases (surroundings.writeText path text).run s.1 <;> rfl

theorem simulates_record (source : Memory.Source) (method : Memory.Method) (artifact : Memory.Artifact)
    (decision : Memory.Decision) (reason : String) (qualityScore : ℚ) (antiPatterns : List String) :
    Simulates unlogged (record surroundings.logged source method artifact decision reason qualityScore antiPatterns)
      (record surroundings source method artifact decision reason qualityScore antiPatterns) := by
  refine (simulates_outside (simulates_widen _)).bind fun stamp => ?_
  refine Simulates.bind (Simulates.modify fun _ => rfl) fun _ => ?_
  exact (simulates_outside (simulates_widen _)).bind fun _ => Simulates.modify fun _ => rfl

theorem simulates_filePath (targetDir : Path) (language : Language) (name : String) :
    Simulates unlogged (filePath surroundings.logged targetDir language name)
      (filePath surroundings targetDir language name) := by
  unfold filePath
  apply Simulates.ite
  · exact (simulates_outside (simulates_widen _)).bind fun _ => Simulates.pure _
  · exact Simulates.pure _

variable (spec : Spec) (targetDir : Path) (repairContext : Option String)

theorem simulates_generateModule (module : Option String) :
    Simulates unlogged (generateModule surroundings.logged spec targetDir repairContext module)
      (generateModule surroundings spec targetDir repairContext module) := by
  refine Simulates.get fun s => ?_
  refine (simulates_generateCode surroundings _ _ _).bind fun response => ?_
  refine (simulates_filePath surroundings _ _ _).bind fun path => ?_
  refine (simulates_writeText surroundings _ _).bind fun _ => ?_
  refine (simulates_outside (simulates_widen _)).bind fun model => ?_
  exact (simulates_record surroundings _ _ _ _ _ _ _).bind fun _ => Simulates.pure _

theorem simulates_generateModules (modules : List (Option String)) :
    Simulates unlogged (generateModules surroundings.logged spec targetDir repairContext modules)
      (generateModules surroundings spec targetDir repairContext modules) := by
  induction modules with
  | nil => exact Simulates.pure _
  | cons module modules ih =>
    refine (simulates_generateModule surroundings spec targetDir repairContext module).bind fun file => ?_
    exact ih.bind fun files => Simulates.pure _

theorem simulates_generateTests (file : Path) :
    Simulates unlogged (generateTests surroundings.logged targetDir file)
      (generateTests surroundings targetDir file) := by
  unfold generateTests
  refine Simulates.ite (Simulates.pure _) ((simulates_outside (simulates_widen _)).bind fun mainCode => ?_)
  refine Simulates.tryCatch ?_ fun e => ?_
  · refine (simulates_generateCode surroundings _ _ _).bind fun code => ?_
    exact (simulates_writeText surroundings _ _).bind fun _ => Simulates.pure _
  · cases e with
    | runtimeError text => exact Simulates.pure _
    | other text => exact Simulates.throw _

theorem simulates_generateAllTests (files : List Path) :
    Simulates unlogged (generateAllTests surroundings.logged targetDir files)
      (generateAllTests surroundings targetDir files) := by
  induction files with
  | nil => exact Simulates.pure _
  | cons file files ih =>
    refine (simulates_generateTests surroundings targetDir file).bind fun added => ?_
    exact ih.bind fun rest => Simulates.pure _

theorem simulates_writeManifest : Simulates unlogged (writeManifest surroundings.logged spec targetDir)
    (writeManifest surroundings spec targetDir) := by
  unfold writeManifest
  cases manifest spec with
  | none => exact Simulates.pure _
  | some entry =>
    refine (simulates_outside (simulates_widen _)).bind fun present => ?_
    apply Simulates.ite
    · exact Simulates.pure _
    · exact (simulates_writeText surroundings _ _).bind fun _ => Simulates.pure _

/-- The account changes nothing. -/
theorem simulates_generateProject :
    Simulates unlogged (generateProject surroundings.logged spec targetDir repairContext)
      (generateProject surroundings spec targetDir repairContext) := by
  refine (simulates_outside (simulates_widen _)).bind fun _ => ?_
  refine (simulates_generateModules surroundings spec targetDir repairContext _).bind fun files => ?_
  refine Simulates.bind ?_ fun tests => ?_
  · exact (simulates_generateAllTests surroundings targetDir files).ite (Simulates.pure _)
  · exact (simulates_writeManifest surroundings spec targetDir).bind fun _ => Simulates.pure _

end

/-! ## What a run writes and returns -/

def Spec.names (spec : Spec) : List String := spec.allModules.map (·.getD "main")

def modulePath (targetDir : Path) (language : Language) (name : String) : Path :=
  let file := name.toList ++ '.' :: getExtension language
  if language = .rust then join (join targetDir "src".toList) file else join targetDir file

section
variable (cwd : Path) (spec : Spec) (targetDir : Path)

def sourcePaths : List Path := spec.names.map (modulePath targetDir spec.language)

def sources : List Path := (sourcePaths spec targetDir).map (relpath cwd · targetDir)

def manifestPaths : List Path := (manifest spec).toList.map fun entry => join targetDir entry.1

/-- A test for some of the sources, and the manifest unless there is one. -/
def Outcome (files writes : List Path) : Prop :=
  ∃ tested made, tested.Sublist ((sources cwd spec targetDir).filter isTestable) ∧ (spec.language ≠ .go → tested = []) ∧
    made.Sublist (manifestPaths spec targetDir) ∧
    files = sources cwd spec targetDir ++ tested.map testFile ++
      (manifestPaths spec targetDir).map (relpath cwd · targetDir) ∧
    writes = sourcePaths spec targetDir ++ tested.map (fun file => join targetDir (testFile file)) ++ made

end

section
variable {ω α : Type} {s : State (ω × List Path)}

theorem keeps_outside {call : EStateM Failure (ω × List Path) α} (h : Keeps Prod.snd call) :
    Keeps written (outside call) := by
  intro s
  have hcall := h s.outside
  unfold wp at hcall ⊢
  rw [run_outside]
  cases hrun : call.run s.outside with
  | ok a o =>
    rw [hrun] at hcall
    exact hcall
  | error e o =>
    rw [hrun] at hcall
    exact hcall

variable (surroundings : Surroundings ω)

theorem wp_writeText (path : Path) (text : String) :
    wp (outside (surroundings.logged.writeText path text)) (fun _ s' => written s' = written s ++ [path])
      (fun _ s' => written s' = written s) s := by
  have hcall := keeps_widen (surroundings.writeText path text) s.outside
  unfold wp at hcall ⊢
  rw [run_outside, show surroundings.logged.writeText path text = widen (surroundings.writeText path text) >>=
    fun _ => modify fun s => (s.1, s.2 ++ [path]) from rfl, EStateM.run_bind]
  cases hrun : (widen (surroundings.writeText path text)).run s.outside with
  | ok a o =>
    rw [hrun] at hcall
    exact congrArg (· ++ [path]) hcall
  | error e o =>
    rw [hrun] at hcall
    exact hcall

theorem keeps_generateCode (subject : Subject) (prompt language : String) :
    Keeps written (generateCode surroundings.logged subject prompt language) :=
  Keeps.bind (fun _ => rfl) fun _ => keeps_outside (keeps_widen _)

theorem keeps_record (source : Memory.Source) (method : Memory.Method) (artifact : Memory.Artifact)
    (decision : Memory.Decision) (reason : String) (qualityScore : ℚ) (antiPatterns : List String) :
    Keeps written
      (record surroundings.logged source method artifact decision reason qualityScore antiPatterns) := by
  refine (keeps_outside (keeps_widen _)).bind fun stamp => ?_
  refine Keeps.bind (fun _ => rfl) fun _ => ?_
  exact (keeps_outside (keeps_widen _)).bind fun _ => fun _ => rfl

theorem wp_filePath (targetDir : Path) (language : Language) (name : String) :
    wp (filePath surroundings.logged targetDir language name)
      (fun path s' => path = modulePath targetDir language name ∧ written s' = written s) (fun _ _ => True) s := by
  unfold filePath modulePath
  dsimp only
  split_ifs
  · rw [wp_bind]
    refine wp_mono (keeps_outside (keeps_widen _) s) (fun _ s' hs' => ?_) fun _ _ _ => trivial
    exact ⟨rfl, hs'⟩
  · exact ⟨rfl, rfl⟩

variable (spec : Spec) (targetDir : Path) (repairContext : Option String)

theorem wp_generateModule (module : Option String) :
    wp (generateModule surroundings.logged spec targetDir repairContext module)
      (fun file s' =>
        file = relpath surroundings.cwd (modulePath targetDir spec.language (module.getD "main")) targetDir ∧
        written s' = written s ++ [modulePath targetDir spec.language (module.getD "main")])
      (fun _ _ => True) s := by
  unfold generateModule
  dsimp only
  rw [wp_bind, wp_get, wp_bind]
  refine wp_mono (keeps_generateCode surroundings _ _ _ s) (fun response s₁ h₁ => ?_) fun _ _ _ => trivial
  rw [wp_bind]
  refine wp_mono (wp_filePath surroundings _ _ _) (fun path s₂ h₂ => ?_) fun _ _ _ => trivial
  obtain ⟨rfl, h₂⟩ := h₂
  rw [wp_bind]
  refine wp_mono (wp_writeText surroundings _ _) (fun _ s₃ h₃ => ?_) fun _ _ _ => trivial
  rw [wp_bind]
  refine wp_mono (keeps_outside (keeps_widen _) s₃) (fun model s₄ h₄ => ?_) fun _ _ _ => trivial
  rw [wp_bind]
  refine wp_mono (keeps_record surroundings _ _ _ _ _ _ _ s₄) (fun _ s₅ h₅ => ?_) fun _ _ _ => trivial
  refine ⟨rfl, ?_⟩
  rw [h₅, h₄, h₃, h₂, h₁]

theorem wp_generateModules (modules : List (Option String)) :
    wp (generateModules surroundings.logged spec targetDir repairContext modules)
      (fun files s' =>
        files = ((modules.map (·.getD "main")).map (modulePath targetDir spec.language)).map
          (relpath surroundings.cwd · targetDir) ∧
        written s' = written s ++ (modules.map (·.getD "main")).map (modulePath targetDir spec.language))
      (fun _ _ => True) s := by
  induction modules generalizing s with
  | nil => exact ⟨rfl, (List.append_nil _).symm⟩
  | cons module modules ih =>
    rw [generateModules, wp_bind]
    refine wp_mono (wp_generateModule surroundings spec targetDir repairContext module) (fun file s₁ h₁ => ?_)
      fun _ _ _ => trivial
    rw [wp_bind]
    refine wp_mono ih (fun files s₂ h₂ => ?_) fun _ _ _ => trivial
    refine ⟨?_, ?_⟩
    · rw [h₁.1, h₂.1]
      rfl
    · rw [h₂.2, h₁.2, List.append_assoc]
      rfl

theorem wp_generateTests (file : Path) :
    wp (generateTests surroundings.logged targetDir file)
      (fun added s' => ∃ tested : List Path, tested.Sublist ([file].filter isTestable) ∧ added = tested.map testFile ∧
        written s' = written s ++ tested.map fun file => join targetDir (testFile file))
      (fun _ _ => True) s := by
  have hnone : ∃ tested : List Path, tested.Sublist ([file].filter isTestable) ∧ [] = tested.map testFile ∧
      written s = written s ++ tested.map fun file => join targetDir (testFile file) :=
    ⟨[], List.nil_sublist _, rfl, (List.append_nil _).symm⟩
  unfold generateTests
  by_cases htestable : isTestable file = false
  · rw [if_pos htestable]
    exact hnone
  rw [if_neg htestable, wp_bind]
  refine wp_mono (keeps_outside (keeps_widen _) s) (fun mainCode s₁ h₁ => ?_) fun _ _ _ => trivial
  rw [← h₁] at hnone ⊢
  rw [wp_tryCatch, wp_bind]
  refine wp_mono (keeps_generateCode surroundings _ _ _ s₁) (fun code s₂ h₂ => ?_) fun e s' h => ?_
  · rw [wp_bind]
    refine wp_mono (wp_writeText surroundings _ _) (fun _ s₃ h₃ => ?_) fun e s' h => ?_
    · refine ⟨[file], ?_, rfl, ?_⟩
      · rw [List.filter_singleton, eq_true_of_ne_false htestable]
        exact List.Sublist.refl _
      · rw [h₃, h₂]
        rfl
    · cases e with
      | runtimeError text => exact (h.trans h₂) ▸ hnone
      | other text => exact trivial
  · cases e with
    | runtimeError text => exact h ▸ hnone
    | other text => exact trivial

theorem wp_generateAllTests (files : List Path) :
    wp (generateAllTests surroundings.logged targetDir files)
      (fun added s' => ∃ tested : List Path, tested.Sublist (files.filter isTestable) ∧ added = tested.map testFile ∧
        written s' = written s ++ tested.map fun file => join targetDir (testFile file))
      (fun _ _ => True) s := by
  induction files generalizing s with
  | nil => exact ⟨[], List.nil_sublist _, rfl, (List.append_nil _).symm⟩
  | cons file files ih =>
    rw [generateAllTests, wp_bind]
    refine wp_mono (wp_generateTests surroundings targetDir file) (fun added s₁ h₁ => ?_) fun _ _ _ => trivial
    rw [wp_bind]
    refine wp_mono ih (fun rest s₂ h₂ => ?_) fun _ _ _ => trivial
    obtain ⟨first, hfirst, rfl, h₁⟩ := h₁
    obtain ⟨tested, htested, rfl, h₂⟩ := h₂
    refine ⟨first ++ tested, ?_, List.map_append.symm, ?_⟩
    · rw [← List.singleton_append, List.filter_append]
      exact hfirst.append htested
    · rw [h₂, h₁, List.append_assoc, List.map_append]

theorem wp_writeManifest :
    wp (writeManifest surroundings.logged spec targetDir)
      (fun manifests s' => manifests = (manifestPaths spec targetDir).map (relpath surroundings.cwd · targetDir) ∧
        ∃ made, made.Sublist (manifestPaths spec targetDir) ∧ written s' = written s ++ made)
      (fun _ _ => True) s := by
  unfold writeManifest manifestPaths
  cases manifest spec with
  | none => exact ⟨rfl, [], List.Sublist.slnil, (List.append_nil _).symm⟩
  | some entry =>
    dsimp only
    rw [wp_bind]
    refine wp_mono (keeps_outside (keeps_widen _) s) (fun present s₁ h₁ => ?_) fun _ _ _ => trivial
    rw [← h₁, wp_ite, wp_bind]
    constructor
    · intro _
      exact ⟨rfl, [], List.nil_sublist _, (List.append_nil _).symm⟩
    · intro _
      refine wp_mono (wp_writeText surroundings _ _) (fun _ s₂ h₂ => ?_) fun _ _ _ => trivial
      exact ⟨rfl, _, List.Sublist.refl _, h₂⟩

theorem wp_generateProject (hs : written s = []) :
    wp (generateProject surroundings.logged spec targetDir repairContext)
      (fun files s' => Outcome surroundings.cwd spec targetDir files (written s')) (fun _ _ => True) s := by
  unfold generateProject
  rw [wp_bind]
  refine wp_mono (keeps_outside (keeps_widen _) s) (fun _ s₁ h₁ => ?_) fun _ _ _ => trivial
  rw [wp_bind]
  refine wp_mono (wp_generateModules surroundings spec targetDir repairContext _) (fun files s₂ h₂ => ?_)
    fun _ _ _ => trivial
  have hfiles : files = sources surroundings.cwd spec targetDir := h₂.1
  have hwritten : written s₂ = sourcePaths spec targetDir := by
    rw [h₂.2, h₁, hs]
    rfl
  have htests : wp (if spec.language = .go then generateAllTests surroundings.logged targetDir files else pure [])
      (fun added s' => ∃ tested : List Path, tested.Sublist (files.filter isTestable) ∧
        (spec.language ≠ .go → tested = []) ∧ added = tested.map testFile ∧
        written s' = written s₂ ++ tested.map fun file => join targetDir (testFile file)) (fun _ _ => True) s₂ := by
    rw [wp_ite]
    constructor
    · intro hgo
      refine wp_mono (wp_generateAllTests surroundings targetDir files) (fun added s' h => ?_) fun _ _ h => h
      obtain ⟨tested, htested, hadded, hs'⟩ := h
      exact ⟨tested, htested, fun hne => absurd hgo hne, hadded, hs'⟩
    · intro _
      exact ⟨[], List.nil_sublist _, fun _ => rfl, rfl, (List.append_nil _).symm⟩
  rw [wp_bind]
  refine wp_mono htests (fun added s₃ h₃ => ?_) fun _ _ _ => trivial
  obtain ⟨tested, htested, hgo, rfl, h₃⟩ := h₃
  rw [wp_bind]
  refine wp_mono (wp_writeManifest surroundings spec targetDir) (fun manifests s₄ h₄ => ?_) fun _ _ _ => trivial
  obtain ⟨rfl, made, hmade, h₄⟩ := h₄
  refine ⟨tested, made, hfiles ▸ htested, hgo, hmade, by rw [hfiles], ?_⟩
  rw [h₄, h₃, hwritten]

end

end Atlas.Agent.Generator
