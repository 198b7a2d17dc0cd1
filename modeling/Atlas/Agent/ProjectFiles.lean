import Atlas.Agent.GeneratedFiles
import Atlas.Agent.PromptPrivacy

/-!
# Exactly the files of a project

* `Exact` : what is owed by a run that returns: only files of the project, inside the target directory, and no module
  overwritten; `GeneratesExactly` : by every run;
* `sourceFile?` : where the name of a module leads; `Separate` : to files inside, apart from each other and from tests;
  `separate_of_noSlash`;
* `generatesExactly_iff`.
-/

namespace Atlas.Agent.Generator
open Raising Files

/-! ## What is owed -/

section
variable (cwd : Path) (spec : Spec) (targetDir : Path)

/-- `files` is what is returned, `writes` what is written, in order: first one file for each module. -/
structure Exact (files writes : List Path) : Prop where
  inside : ∀ path ∈ writes, location cwd targetDir <+: location cwd path ∧ location cwd path ≠ location cwd targetDir
  nodup : files.Nodup
  named : ∀ place, place ∈ files.map (fun file => location cwd (join targetDir file)) ↔
    place ∈ (writes ++ manifestPaths spec targetDir).map (location cwd)
  kept : ∀ front path back, writes = front ++ path :: back → front.length < spec.names.length →
    ∀ other ∈ back, location cwd other ≠ location cwd path

/-- The state, with nothing on the account. -/
def State.logged {ω : Type} (s : State ω) : State (ω × List Path) := ⟨(s.outside, []), s.memory, s.prompts⟩

/-- Whatever the model and the files do. -/
def GeneratesExactly : Prop :=
  ∀ (ω : Type) (surroundings : Surroundings ω) (repairContext : Option String) (s : State ω), surroundings.cwd = cwd →
    wp (generateProject surroundings.logged spec targetDir repairContext)
      (fun files s' => Exact cwd spec targetDir files (written s')) (fun _ _ => True) s.logged

end

/-! ## Where names lead -/

section
variable (directory : List Path)

/-- The place of the module's file, for a target directory. -/
def moduleLocation (language : Language) (name : String) : List Path :=
  walk (if language = .rust then directory ++ ["src".toList] else directory)
    (name.toList ++ '.' :: getExtension language)

def sourceFile? (language : Language) (name : String) : Option Path :=
  below directory (moduleLocation directory language name)

/-- The files of the modules that are inside. -/
def sourceFiles (spec : Spec) : List Path := spec.names.filterMap (sourceFile? directory spec.language)

/-- Every name leads to a file inside, no two to one file, and none to the test of another module. -/
structure Separate (spec : Spec) : Prop where
  inside : ∀ name ∈ spec.names, sourceFile? directory spec.language name ≠ none
  apart : (sourceFiles directory spec).Nodup
  tests : spec.language = .go → ∀ source ∈ sourceFiles directory spec, isTestable source = true →
    testFile source ∉ sourceFiles directory spec

end

theorem suffix_intercalate (front : List Path) (last : Path) : last <:+ ['/'].intercalate (front ++ [last]) := by
  induction front with
  | nil => simp
  | cons first front ih =>
    obtain ⟨next, rest, hrest⟩ := List.exists_cons_of_ne_nil (show front ++ [last] ≠ [] by simp)
    rw [List.cons_append, hrest, List.intercalate_cons_cons, ← hrest]
    exact ih.trans (List.suffix_append _ _)

section
variable {dir targetDir : Path} {language : Language} {name : String}

theorem location_modulePath : location ('/' :: dir) (modulePath targetDir language name) =
    moduleLocation (location ('/' :: dir) targetDir) language name := by
  have hsrc (directory : List Path) : walk directory "src".toList = directory ++ ["src".toList] :=
    walk_plain (plain_of_isName (by decide)) directory
  unfold modulePath moduleLocation
  dsimp only
  split_ifs
  · rw [location_join, location_join, hsrc]
  · rw [location_join]

/-- What there is to know of the file of a module. -/
structure Stands (dir targetDir : Path) (language : Language) (name : String) (file : Path) : Prop where
  relative : relpath ('/' :: dir) (modulePath targetDir language name) targetDir = file
  place : location ('/' :: dir) (modulePath targetDir language name) = walk (location ('/' :: dir) targetDir) file
  plain : Files.Plain file
  extension : '.' :: getExtension language <:+ file

theorem stands_of_inside {file : Path}
    (h : sourceFile? (location ('/' :: dir) targetDir) language name = some file) :
    Stands dir targetDir language name file := by
  have hrelative : relpath ('/' :: dir) (modulePath targetDir language name) targetDir = file := by
    apply relpath_eq
    rw [location_modulePath]
    exact h
  obtain ⟨names, hne, hplace, rfl⟩ := below_eq_some_iff.mp h
  have hnames : ∀ n ∈ names, IsName n := by
    intro n hn
    apply isName_of_mem_location dir (modulePath targetDir language name) n
    rw [location_modulePath, hplace]
    exact List.mem_append_right _ hn
  obtain ⟨hplain, hsplit⟩ := plain_intercalate hnames hne
  have hextension : '/' ∉ getExtension language ∧ 2 ≤ (getExtension language).length := by cases language <;> decide
  obtain ⟨front, base, hlast⟩ := exists_walk_extension
    (if language = .rust then location ('/' :: dir) targetDir ++ ["src".toList] else location ('/' :: dir) targetDir)
    name.toList hextension.1 hextension.2
  refine ⟨hrelative, ?_, hplain, ?_⟩
  · rw [location_modulePath, hplace, walk_plain hplain, hsplit]
  · have hends : names.getLast? = some (base ++ '.' :: getExtension language) := by
      rw [← List.getLast?_append_of_ne_nil (location ('/' :: dir) targetDir) hne, ← hplace, moduleLocation, hlast,
        List.getLast?_concat]
    obtain ⟨others, rfl⟩ := List.getLast?_eq_some_iff.mp hends
    exact (List.suffix_append base _).trans (suffix_intercalate others _)

end

/-! ## Names without a slash -/

section
variable {directory : List Path} {language : Language} {name : String}

theorem isName_file (h : '/' ∉ name.toList) : IsName (name.toList ++ '.' :: getExtension language) := by
  have hextension : '/' ∉ '.' :: getExtension language ∧ 3 ≤ ('.' :: getExtension language).length := by
    cases language <;> decide
  have hlong : 3 ≤ (name.toList ++ '.' :: getExtension language).length := by
    rw [List.length_append]
    omega
  refine ⟨?_, ?_, ?_, fun hslash => ?_⟩
  · exact List.ne_nil_of_length_pos (by omega)
  · intro heq
    simp [heq] at hlong
  · intro heq
    simp [heq] at hlong
  · rcases List.mem_append.mp hslash with hslash | hslash
    · exact h hslash
    · exact hextension.1 hslash

/-- The file stands in the target directory, or in its `src`. -/
theorem sourceFile?_of_noSlash (h : '/' ∉ name.toList) : sourceFile? directory language name =
    some ((if language = .rust then "src/".toList else []) ++ (name.toList ++ '.' :: getExtension language)) := by
  have hname := @isName_file language name h
  unfold sourceFile? moduleLocation
  rw [walk_plain (plain_of_isName hname), List.splitOn_eq_singleton hname.2.2.2, below_eq_some_iff]
  split_ifs
  · refine ⟨["src".toList, name.toList ++ '.' :: getExtension language], nofun, ?_, ?_⟩
    · rw [List.append_assoc]
      rfl
    · simp
  · exact ⟨[name.toList ++ '.' :: getExtension language], nofun, rfl, by simp⟩

/-- Names without a slash keep their files apart, but for tests of Go. -/
theorem separate_of_noSlash {spec : Spec} (h : ∀ name ∈ spec.names, '/' ∉ name.toList) (hnodup : spec.names.Nodup)
    (htests : spec.language = .go → ∀ source ∈ sourceFiles directory spec, isTestable source = true →
      testFile source ∉ sourceFiles directory spec) : Separate directory spec := by
  refine ⟨fun name hname => ?_, ?_, htests⟩
  · rw [sourceFile?_of_noSlash (h name hname)]
    exact nofun
  · have hfiles : sourceFiles directory spec = spec.names.map fun name =>
        (if spec.language = .rust then "src/".toList else []) ++
          (name.toList ++ '.' :: getExtension spec.language) := by
      rw [sourceFiles, ← List.filterMap_eq_map]
      exact List.filterMap_congr fun name hname => sourceFile?_of_noSlash (h name hname)
    rw [hfiles]
    refine hnodup.map fun a b heq => ?_
    exact String.toList_injective (List.append_cancel_right (List.append_cancel_left heq))

end

/-! ## A project with its files apart -/

section
variable {dir : Path} {spec : Spec} {targetDir : Path}

theorem forall₂_stands
    (h : ∀ name ∈ spec.names, sourceFile? (location ('/' :: dir) targetDir) spec.language name ≠ none) :
    List.Forall₂ (Stands dir targetDir spec.language) spec.names
      (sourceFiles (location ('/' :: dir) targetDir) spec) := by
  unfold sourceFiles
  generalize spec.names = names at h ⊢
  induction names with
  | nil => exact .nil
  | cons name names ih =>
    obtain ⟨hname, hnames⟩ := List.forall_mem_cons.mp h
    obtain ⟨file, hfile⟩ := Option.ne_none_iff_exists'.mp hname
    rw [List.filterMap_cons_some hfile]
    exact .cons (stands_of_inside hfile) (ih hnames)

theorem stands_of_mem {file : Path} (h : file ∈ sourceFiles (location ('/' :: dir) targetDir) spec) :
    ∃ name, Stands dir targetDir spec.language name file := by
  obtain ⟨name, -, hfile⟩ := List.mem_filterMap.mp h
  exact ⟨name, stands_of_inside hfile⟩

theorem map_eq_map_of_forall₂ {α β γ : Type} {R : α → β → Prop} {f : α → γ} {g : β → γ} {as : List α} {bs : List β}
    (h : List.Forall₂ R as bs) (heq : ∀ a b, R a b → f a = g b) : as.map f = bs.map g := by
  induction h with
  | nil => rfl
  | cons hab _ ih => rw [List.map_cons, List.map_cons, heq _ _ hab, ih]

theorem sources_eq (h : ∀ name ∈ spec.names, sourceFile? (location ('/' :: dir) targetDir) spec.language name ≠ none) :
    sources ('/' :: dir) spec targetDir = sourceFiles (location ('/' :: dir) targetDir) spec := by
  rw [sources, sourcePaths, List.map_map, ← List.map_id (sourceFiles _ _)]
  apply map_eq_map_of_forall₂ (forall₂_stands h)
  intro name file hstands
  rw [Function.comp_apply, hstands.relative, id]

theorem location_sourcePaths
    (h : ∀ name ∈ spec.names, sourceFile? (location ('/' :: dir) targetDir) spec.language name ≠ none) :
    (sourcePaths spec targetDir).map (location ('/' :: dir)) =
      (sourceFiles (location ('/' :: dir) targetDir) spec).map (walk (location ('/' :: dir) targetDir)) := by
  rw [sourcePaths, List.map_map]
  apply map_eq_map_of_forall₂ (forall₂_stands h)
  intro name file hstands
  rw [Function.comp_apply, hstands.place]

def manifestFiles (spec : Spec) : List Path := (manifest spec).toList.map Prod.fst

theorem manifestFiles_cases (spec : Spec) : ∀ file ∈ manifestFiles spec,
    IsName file ∧ ¬ ('.' :: getExtension spec.language) <:+ file := by
  unfold manifestFiles manifest
  cases spec.language with
  | python => exact List.forall_mem_nil _
  | rust =>
    show ∀ file ∈ ["Cargo.toml".toList], IsName file ∧ ¬ ".rs".toList <:+ file
    decide
  | go =>
    show ∀ file ∈ ["go.mod".toList], IsName file ∧ ¬ ".go".toList <:+ file
    decide

theorem nodup_manifestFiles (spec : Spec) : (manifestFiles spec).Nodup := by
  unfold manifestFiles
  cases manifest spec with
  | none => exact List.nodup_nil
  | some entry => exact List.nodup_singleton _

theorem relpath_manifestPaths (dir : Path) (spec : Spec) (targetDir : Path) :
    (manifestPaths spec targetDir).map (relpath ('/' :: dir) · targetDir) = manifestFiles spec := by
  rw [manifestPaths, List.map_map]
  refine List.map_congr_left fun entry hentry => ?_
  have hname := (manifestFiles_cases spec entry.1 (List.mem_map_of_mem hentry)).1
  rw [Function.comp_apply, relpath_join dir targetDir (plain_of_isName hname)]

theorem location_manifestPaths (dir : Path) (spec : Spec) (targetDir : Path) :
    (manifestPaths spec targetDir).map (location ('/' :: dir)) =
      (manifestFiles spec).map (walk (location ('/' :: dir) targetDir)) := by
  rw [manifestPaths, manifestFiles, List.map_map, List.map_map]
  refine List.map_congr_left fun entry _ => ?_
  rw [Function.comp_apply, location_join, Function.comp_apply]

/-- What is returned of a project with its files apart names no file twice. -/
theorem nodup_files (h : Separate (location ('/' :: dir) targetDir) spec) {tested : List Path}
    (htested : tested.Sublist ((sourceFiles (location ('/' :: dir) targetDir) spec).filter isTestable))
    (hgo : spec.language ≠ .go → tested = []) :
    (sourceFiles (location ('/' :: dir) targetDir) spec ++ tested.map testFile ++ manifestFiles spec).Nodup := by
  have hsource {file : Path} (hfile : file ∈ tested) :
      spec.language = .go ∧ file ∈ sourceFiles (location ('/' :: dir) targetDir) spec ∧ isTestable file = true := by
    refine ⟨?_, List.mem_filter.mp (htested.subset hfile)⟩
    by_contra hne
    rw [hgo hne] at hfile
    cases hfile
  have hextension : ∀ file ∈ sourceFiles (location ('/' :: dir) targetDir) spec ++ tested.map testFile,
      '.' :: getExtension spec.language <:+ file := by
    intro file hfile
    rcases List.mem_append.mp hfile with hfile | hfile
    · exact (stands_of_mem hfile).choose_spec.extension
    · obtain ⟨source, hsource', rfl⟩ := List.mem_map.mp hfile
      obtain ⟨hlanguage, -, htestable⟩ := hsource hsource'
      rw [hlanguage]
      have hgo' : ".go".toList <:+ source := by simpa using (Bool.and_eq_true_iff.mp htestable).1
      have htest : "_test.go".toList <:+ testFile source := suffix_of_replaces (goSuffix.replaces_sub source) hgo'
      exact (show ".go".toList <:+ "_test.go".toList by decide).trans htest
  refine List.nodup_append.mpr ⟨List.nodup_append.mpr ⟨h.apart, ?_, ?_⟩, nodup_manifestFiles spec, ?_⟩
  · exact (htested.nodup (h.apart.filter _)).map testFile_inj
  · rintro file hfile test htest rfl
    obtain ⟨source, hsource', heq⟩ := List.mem_map.mp htest
    obtain ⟨hlanguage, hmem, htestable⟩ := hsource hsource'
    exact h.tests hlanguage source hmem htestable (heq ▸ hfile)
  · rintro file hfile name hname rfl
    exact (manifestFiles_cases spec file hname).2 (hextension file hfile)

/-- What is written and what is returned, by the places of the files. -/
theorem exact_of_places {listed made writes : List Path}
    (hplain : ∀ file ∈ listed ++ manifestFiles spec, Files.Plain file) (hnodup : (listed ++ manifestFiles spec).Nodup)
    (hmade : made.Sublist (manifestPaths spec targetDir))
    (hwrites : writes.map (location ('/' :: dir)) =
      listed.map (walk (location ('/' :: dir) targetDir)) ++ made.map (location ('/' :: dir))) :
    Exact ('/' :: dir) spec targetDir (listed ++ manifestFiles spec) writes := by
  have hmade' := hmade.map (location ('/' :: dir))
  rw [location_manifestPaths] at hmade'
  have hsublist : (writes.map (location ('/' :: dir))).Sublist
      ((listed ++ manifestFiles spec).map (walk (location ('/' :: dir) targetDir))) := by
    rw [hwrites, List.map_append]
    exact (List.Sublist.refl _).append hmade'
  have hdistinct := hnodup.map_on fun a ha b hb =>
    @walk_inj (location ('/' :: dir) targetDir) a b (hplain a ha) (hplain b hb)
  constructor
  · intro path hpath
    obtain ⟨file, hfile, heq⟩ := List.mem_map.mp (hsublist.subset (List.mem_map_of_mem hpath))
    rw [← heq, walk_plain (hplain file hfile)]
    exact ⟨List.prefix_append _ _, by simp [List.splitOn_ne_nil]⟩
  · exact hnodup
  · intro place
    rw [funext (location_join dir targetDir), List.map_append, List.map_append, hwrites, location_manifestPaths]
    simp only [List.mem_append]
    have hmanifest : place ∈ made.map (location ('/' :: dir)) →
        place ∈ (manifestFiles spec).map (walk (location ('/' :: dir) targetDir)) := fun hplace => hmade'.subset hplace
    tauto
  · intro front path back hsplit _ other hother heq
    have hnodup' := hdistinct.sublist hsublist
    rw [hsplit, List.map_append, List.map_cons] at hnodup'
    have hnotMem := (List.nodup_cons.mp (List.nodup_append.mp hnodup').2.1).1
    exact hnotMem (heq ▸ List.mem_map_of_mem hother)

theorem exact_of_outcome (h : Separate (location ('/' :: dir) targetDir) spec) {files writes : List Path}
    (houtcome : Outcome ('/' :: dir) spec targetDir files writes) : Exact ('/' :: dir) spec targetDir files writes := by
  obtain ⟨tested, made, htested, hgo, hmade, rfl, rfl⟩ := houtcome
  rw [sources_eq h.inside] at htested ⊢
  rw [relpath_manifestPaths]
  refine exact_of_places (fun file hfile => ?_) (nodup_files h htested hgo) hmade ?_
  · rcases List.mem_append.mp hfile with hfile | hfile
    · rcases List.mem_append.mp hfile with hfile | hfile
      · exact (stands_of_mem hfile).choose_spec.plain
      · obtain ⟨source, hsource, rfl⟩ := List.mem_map.mp hfile
        have hmem := (List.mem_filter.mp (htested.subset hsource)).1
        exact plain_testFile (stands_of_mem hmem).choose_spec.plain
    · exact plain_of_isName (manifestFiles_cases spec file hfile).1
  · rw [List.map_append, List.map_append, List.map_append, location_sourcePaths h.inside, List.map_map, List.map_map]
    congr 2
    refine List.map_congr_left fun file _ => ?_
    rw [Function.comp_apply, location_join, Function.comp_apply]

end

/-! ## A run that shows more -/

/-- Everything outside answers, and the model with nothing. -/
def quietAt (cwd : Path) : Surroundings Unit := { quiet with cwd := cwd }

section
variable (cwd : Path) (spec : Spec) (targetDir : Path) (s : State (Unit × List Path))

theorem returns_generateModules (modules : List (Option String)) :
    wp (generateModules (quietAt cwd).logged spec targetDir none modules) (fun _ _ => True) (fun _ _ => False) s := by
  induction modules generalizing s with
  | nil => exact trivial
  | cons module modules ih =>
    have hmodule : wp (generateModule (quietAt cwd).logged spec targetDir none module) (fun _ _ => True)
        (fun _ _ => False) s := by
      obtain ⟨language, projectName, description, architecture, modules⟩ := spec
      cases language <;> exact trivial
    rw [generateModules, wp_bind]
    refine wp_mono hmodule (fun file s' _ => ?_) fun _ _ h => h
    rw [wp_bind]
    exact wp_mono (ih s') (fun _ _ _ => trivial) fun _ _ h => h

theorem returns_generateAllTests (files : List Path) :
    wp (generateAllTests (quietAt cwd).logged targetDir files)
      (fun added _ => added = (files.filter isTestable).map testFile) (fun _ _ => False) s := by
  induction files generalizing s with
  | nil => exact rfl
  | cons file files ih =>
    have hfile : wp (generateTests (quietAt cwd).logged targetDir file)
        (fun added _ => added = ([file].filter isTestable).map testFile) (fun _ _ => False) s := by
      unfold generateTests
      rw [List.filter_singleton]
      cases isTestable file <;> exact rfl
    rw [generateAllTests, wp_bind]
    refine wp_mono hfile (fun added s' hadded => ?_) fun _ _ h => h
    rw [wp_bind]
    refine wp_mono (ih s') (fun rest _ hrest => ?_) fun _ _ h => h
    rw [hadded, hrest, ← List.map_append, ← List.filter_append]
    rfl

theorem returns_generateProject :
    wp (generateProject (quietAt cwd).logged spec targetDir none)
      (fun files _ => ∃ made, files = sources cwd spec targetDir ++
        (if spec.language = .go then ((sources cwd spec targetDir).filter isTestable).map testFile else []) ++ made)
      (fun _ _ => False) s := by
  unfold generateProject
  rw [wp_bind]
  have hmakedirs : wp (outside ((quietAt cwd).logged.makedirs targetDir) : M (Unit × List Path) Unit)
      (fun _ _ => True) (fun _ _ => False) s := trivial
  refine wp_mono hmakedirs (fun _ s₀ _ => ?_) fun _ _ h => h
  rw [wp_bind]
  refine wp_mono (wp_and (wp_generateModules (quietAt cwd) spec targetDir none _)
    (returns_generateModules cwd spec targetDir s₀ spec.allModules)) (fun files s₁ h₁ => ?_) fun _ _ h => h.2
  obtain rfl : files = sources cwd spec targetDir := h₁.1.1
  have hmanifest (tests : List Path) (s' : State (Unit × List Path)) :
      wp (do
        let manifests ← writeManifest (quietAt cwd).logged spec targetDir
        return sources cwd spec targetDir ++ tests ++ manifests)
        (fun files _ => ∃ made, files = sources cwd spec targetDir ++ tests ++ made) (fun _ _ => False) s' := by
    obtain ⟨language, projectName, description, architecture, modules⟩ := spec
    cases language <;> exact ⟨_, rfl⟩
  rw [wp_bind]
  split_ifs
  · refine wp_mono (returns_generateAllTests cwd targetDir s₁ _) (fun tests s₂ htests => ?_) fun _ _ h => h
    rw [← htests]
    exact hmanifest tests s₂
  · exact hmanifest [] s₁

end

section
variable {dir : Path} {spec : Spec} {targetDir : Path}

theorem separate_of_exact {files writes made : List Path} (h : Exact ('/' :: dir) spec targetDir files writes)
    (hwrites : sourcePaths spec targetDir ⊆ writes)
    (hfiles : files = sources ('/' :: dir) spec targetDir ++
      (if spec.language = .go then ((sources ('/' :: dir) spec targetDir).filter isTestable).map testFile else []) ++
      made) : Separate (location ('/' :: dir) targetDir) spec := by
  have hinside : ∀ name ∈ spec.names, sourceFile? (location ('/' :: dir) targetDir) spec.language name ≠ none := by
    intro name hname
    have hplace := h.inside _ (hwrites (List.mem_map_of_mem hname))
    rw [location_modulePath] at hplace
    unfold sourceFile? below
    rw [if_pos hplace]
    exact nofun
  have hnodup := h.nodup
  rw [hfiles, sources_eq hinside] at hnodup
  obtain ⟨hapart, -, hdisjoint⟩ := List.nodup_append.mp (List.nodup_append.mp hnodup).1
  refine ⟨hinside, hapart, fun hgo source hsource htestable hmem => ?_⟩
  rw [if_pos hgo] at hdisjoint
  exact hdisjoint _ hmem _ (List.mem_map_of_mem (List.mem_filter.mpr ⟨hsource, htestable⟩)) rfl

theorem separate_of_generatesExactly (h : GeneratesExactly ('/' :: dir) spec targetDir) :
    Separate (location ('/' :: dir) targetDir) spec := by
  have hrun := wp_and (h Unit (quietAt ('/' :: dir)) none ⟨(), .empty, []⟩ rfl)
    (wp_and (wp_generateProject (quietAt ('/' :: dir)) spec targetDir none rfl)
      (returns_generateProject ('/' :: dir) spec targetDir _))
  by_contra hnot
  refine not_wp (fun files s' hfiles => ?_) (fun _ _ herror => herror.2.2) hrun
  obtain ⟨hexact, ⟨tested, made, -, -, -, -, hwrites⟩, others, hfiles⟩ := hfiles
  refine hnot (separate_of_exact hexact ?_ hfiles)
  rw [hwrites, List.append_assoc]
  exact List.subset_append_left _ _

/-- **Exactly the files of the project** are written, whatever the model and the files do, just when every name leads to
a file inside the target directory, no two to one file, and, for Go, none to the test of another module. -/
theorem generatesExactly_iff (dir : Path) (spec : Spec) (targetDir : Path) :
    GeneratesExactly ('/' :: dir) spec targetDir ↔ Separate (location ('/' :: dir) targetDir) spec := by
  refine ⟨separate_of_generatesExactly, fun h ω surroundings repairContext s hcwd => ?_⟩
  refine wp_mono (wp_generateProject surroundings spec targetDir repairContext rfl) (fun files s' houtcome => ?_)
    fun _ _ _ => trivial
  rw [hcwd] at houtcome
  exact exact_of_outcome h houtcome

/-- The test of `x` goes to the file of `x_test`. -/
theorem test_overwrites : ¬ ∀ dir spec targetDir, spec.names.Nodup → GeneratesExactly ('/' :: dir) spec targetDir := by
  intro h
  have hseparate := separate_of_generatesExactly
    (h "root".toList ⟨.go, "", "", "", [some "x", some "x_test"]⟩ "out".toList (by decide))
  exact hseparate.tests rfl "x.go".toList (by decide) (by decide) (by decide)

end

end Atlas.Agent.Generator
