import Atlas.Scripts.FindImplementations

/-!
# What the boundary detector finds, and where the project stands

* `mem_scan` : where the walks get; `candidates_below` : each candidate is below the project root;
* `findImplementations_here` : below a root that is not excluded, a walk finds what it finds from the root itself;
* `findImplementations_same` : whatever the order in which directories are listed;
* `HasImplementation` : there is something to find; `sameImplementations_iff` : for any two locations.
-/

namespace Atlas.Scripts.BoundaryScan
open Pathlib Pathlib.Path Pathlib.Tree

/-! ## The walk -/

theorem isExcluded_below (root : Path) (relative : List String) :
    isExcluded (root.below relative) = (isExcluded root || relative.any fun part => part ∈ excludedParts) := by
  rw [isExcluded, parts_below, List.any_append, isExcluded]

theorem isExcluded_child (root : Path) (name : String) :
    isExcluded (root.child name) = (isExcluded root || decide (name ∈ excludedParts)) := by
  have h := isExcluded_below root [name]
  rwa [List.any_cons, List.any_nil, Bool.or_false] at h

section
variable {α β : Type} {visit : Path → Tree → List α}

theorem descend_nil (root : Path) (tree : Tree) : descend (pruned visit) [] root tree = [] := by
  induction tree with
  | files => rfl
  | dir name link content rest _ ih => rw [descend_dir, ih, if_neg (by simp), List.nil_append]

theorem scan_eq_nil {root : Path} (h : isExcluded root = true) (tree : Tree) : scan visit root tree = [] := by
  rw [scan, walk, pruned, if_pos h, descend_nil, List.nil_append]

/-- The walk of a directory, by what the walk collects below it. -/
theorem mem_scan_of_mem_descend {root : Path} {tree : Tree} {x : α} (hroot : isExcluded root = false)
    (hdescend : ∀ kept : List String, (∀ name ∈ tree.dirs.map Prod.fst, name ∈ kept ↔ name ∉ excludedParts) →
      (x ∈ descend (pruned visit) kept root tree ↔
        ∃ name relative content, Reaches tree (name :: relative) content ∧
          (∀ part ∈ name :: relative, part ∉ excludedParts) ∧ x ∈ visit (root.below (name :: relative)) content)) :
    x ∈ scan visit root tree ↔ ∃ relative content, Reaches tree relative content ∧
      (∀ part ∈ relative, part ∉ excludedParts) ∧ x ∈ visit (root.below relative) content := by
  have hvisited : pruned visit root tree =
      ((tree.dirs.map Prod.fst).filter fun d => !isExcluded (root.child d), visit root tree) :=
    if_neg (by rw [hroot]; decide)
  rw [scan, walk, hvisited, List.mem_append, hdescend _ fun name hname => by
    rw [List.mem_filter, isExcluded_child, hroot]
    simp only [hname, true_and]
    simp]
  constructor
  · rintro (h | ⟨name, relative, content, h⟩)
    · exact ⟨[], tree, .here tree, List.forall_mem_nil _, by rwa [below_nil]⟩
    · exact ⟨name :: relative, content, h⟩
  · rintro ⟨_ | ⟨name, relative⟩, content, hreaches, h⟩
    · cases hreaches
      rw [below_nil] at h
      exact Or.inl h.2
    · exact Or.inr ⟨name, relative, content, hreaches, h⟩

theorem mem_descend {kept : List String} {root : Path} {tree : Tree} {x : α} (hroot : isExcluded root = false)
    (hkept : ∀ name ∈ tree.dirs.map Prod.fst, name ∈ kept ↔ name ∉ excludedParts) :
    x ∈ descend (pruned visit) kept root tree ↔
      ∃ name relative content, Reaches tree (name :: relative) content ∧
        (∀ part ∈ name :: relative, part ∉ excludedParts) ∧ x ∈ visit (root.below (name :: relative)) content := by
  induction tree generalizing kept root with
  | files names =>
    constructor
    · intro h
      exact absurd h List.not_mem_nil
    · rintro ⟨_, _, _, h, -⟩
      nomatch h
  | dir name link content rest ihcontent ihrest =>
    have hname : name ∈ kept ↔ name ∉ excludedParts := hkept name List.mem_cons_self
    have hcontent (hin : name ∉ excludedParts) : x ∈ walk (pruned visit) (root.child name) content ↔
        ∃ relative inner, Reaches content relative inner ∧ (∀ part ∈ relative, part ∉ excludedParts) ∧
          x ∈ visit (root.below (name :: relative)) inner := by
      have hchild : isExcluded (root.child name) = false := by rw [isExcluded_child, hroot]; simpa using hin
      have h := mem_scan_of_mem_descend hchild fun kept hkept => ihcontent hchild hkept
      simp only [below_child] at h
      exact h
    rw [descend_dir, List.mem_append, ihrest hroot fun n hn => hkept n (List.mem_cons_of_mem _ hn)]
    constructor
    · rintro (h | ⟨name', relative, inner, hreaches, h⟩)
      · split_ifs at h with hcond
        · obtain ⟨hin, rfl⟩ := hcond
          obtain ⟨relative, inner, hreaches, hparts, hx⟩ := (hcontent (hname.mp hin)).mp h
          exact ⟨name, relative, inner, .down hreaches, List.forall_mem_cons.mpr ⟨hname.mp hin, hparts⟩, hx⟩
        · exact absurd h List.not_mem_nil
      · exact ⟨name', relative, inner, .next hreaches, h⟩
    · rintro ⟨name', relative, inner, hreaches, hparts, hx⟩
      cases hreaches with
      | down hreaches =>
        obtain ⟨hin, hparts⟩ := List.forall_mem_cons.mp hparts
        rw [if_pos ⟨hname.mpr hin, rfl⟩]
        exact Or.inl ((hcontent hin).mpr ⟨relative, inner, hreaches, hparts, hx⟩)
      | next hreaches => exact Or.inr ⟨name', relative, inner, hreaches, hparts, hx⟩

theorem mem_scan {root : Path} {tree : Tree} {x : α} :
    x ∈ scan visit root tree ↔ isExcluded root = false ∧ ∃ relative content, Reaches tree relative content ∧
      (∀ part ∈ relative, part ∉ excludedParts) ∧ x ∈ visit (root.below relative) content := by
  by_cases hroot : isExcluded root = true
  · rw [scan_eq_nil hroot]
    simp [hroot]
  · rw [Bool.not_eq_true] at hroot
    rw [mem_scan_of_mem_descend hroot fun kept hkept => mem_descend hroot hkept]
    exact (and_iff_right hroot).symm

theorem scan_map {visit' : Path → Tree → List β} {root root' : Path} (g : β → α) (hroot : isExcluded root = false)
    (hroot' : isExcluded root' = false)
    (h : ∀ relative tree, visit (root.below relative) tree = (visit' (root'.below relative) tree).map g)
    (relative : List String) (tree : Tree) :
    scan visit (root.below relative) tree = (scan visit' (root'.below relative) tree).map g := by
  refine walk_map g (fun relative tree => ?_) relative tree
  simp only [pruned, isExcluded_below, hroot, hroot', Bool.false_or, child_below, h]
  split_ifs <;> rfl

theorem scan_perm (hvisit : ∀ root tree tree', Same tree tree' → (visit root tree).Perm (visit root tree'))
    {tree tree' : Tree} (h : tree.Same tree') (root : Path) : (scan visit root tree).Perm (scan visit root tree') := by
  refine walk_perm (fun root tree tree' hsame => ?_) h root
  unfold pruned
  split_ifs
  · exact ⟨.refl _, fun _ => Iff.rfl⟩
  · refine ⟨hvisit root tree tree' hsame, fun name => ?_⟩
    rw [List.mem_filter, List.mem_filter, hsame.mem_names]

end

/-! ## From another root -/

section
variable {root : Path}

theorem isExcluded_here : isExcluded here = false := rfl

theorem languageOf_below (root : Path) {relative : List String} (h : relative ≠ []) :
    languageOf (root.below relative) = languageOf (here.below relative) := by
  rw [languageOf, languageOf, suffix_below root h]

theorem mem_sourceFilesOf {path file : Path} {tree : Tree} :
    file ∈ sourceFilesOf path tree ↔ ∃ name ∈ tree.fileNames, file = path.child name ∧ (languageOf file).isSome := by
  rw [sourceFilesOf, List.mem_filter, List.mem_map]
  constructor
  · rintro ⟨⟨name, hname, rfl⟩, hsome⟩
    exact ⟨name, hname, rfl, hsome⟩
  · rintro ⟨name, hname, rfl, hsome⟩
    exact ⟨⟨name, hname, rfl⟩, hsome⟩

theorem sourceFilesOf_here (root : Path) (relative : List String) (tree : Tree) :
    sourceFilesOf (here.below relative) tree = (sourceFilesOf (root.below relative) tree).map (·.relativeTo root) := by
  have hlanguage : (fun file => (languageOf file).isSome) ∘ (here.below relative).child =
      (fun file => (languageOf file).isSome) ∘ (root.below relative).child := by
    funext name
    rw [Function.comp_apply, Function.comp_apply, child_below, child_below, languageOf_below root (by simp)]
  rw [sourceFilesOf, sourceFilesOf, List.filter_map, List.filter_map, List.map_map, hlanguage]
  refine List.map_congr_left fun name _ => ?_
  rw [Function.comp_apply, child_below, child_below, relativeTo_below]

theorem mem_collectSourceFiles {path file : Path} {tree : Tree} :
    file ∈ collectSourceFiles path tree ↔ isExcluded path = false ∧ ∃ relative content, Reaches tree relative content ∧
      (∀ part ∈ relative, part ∉ excludedParts) ∧ file ∈ sourceFilesOf (path.below relative) content := by
  rw [collectSourceFiles, List.mem_insertionSort, mem_scan]

theorem below_of_mem_collectSourceFiles {relative : List String} {tree : Tree} {file : Path}
    (h : file ∈ collectSourceFiles (root.below relative) tree) : ∃ inner, inner ≠ [] ∧ file = root.below inner := by
  obtain ⟨-, inner, content, -, -, hfile⟩ := mem_collectSourceFiles.mp h
  obtain ⟨name, -, rfl, -⟩ := mem_sourceFilesOf.mp hfile
  exact ⟨relative ++ inner ++ [name], by simp, by rw [below_below, child_below]⟩

theorem collectSourceFiles_here (hroot : isExcluded root = false) (relative : List String) (tree : Tree) :
    collectSourceFiles (here.below relative) tree =
      (collectSourceFiles (root.below relative) tree).map (·.relativeTo root) := by
  have hscan := scan_map (fun file : Path => file.relativeTo root) isExcluded_here hroot
    (sourceFilesOf_here root) relative tree
  rw [collectSourceFiles, collectSourceFiles, hscan]
  refine (List.map_insertionSort _ _ _ _ fun a ha b hb => ?_).symm
  obtain ⟨a, -, rfl⟩ := below_of_mem_collectSourceFiles (List.mem_insertionSort _ |>.mpr ha)
  obtain ⟨b, -, rfl⟩ := below_of_mem_collectSourceFiles (List.mem_insertionSort _ |>.mpr hb)
  rw [relativeTo_below, relativeTo_below, le_below_iff, le_below_iff]

/-- The implementation by what it is below a root. -/
def Implementation.relativeTo (root : Path) (item : Implementation) : Implementation :=
  ⟨item.path.relativeTo root, item.languages, item.sourceFiles.map (·.relativeTo root)⟩

variable (lower : String → String) (domain : String)

theorem candidate?_here (hroot : isExcluded root = false) (relative : List String) (directory : String × Tree) :
    candidate? lower domain (here.below relative) directory =
      (candidate? lower domain (root.below relative) directory).map (Implementation.relativeTo root) := by
  have hlanguages : ((collectSourceFiles (root.below (relative ++ [directory.1])) directory.2).map
      (·.relativeTo root)).filterMap languageOf =
      (collectSourceFiles (root.below (relative ++ [directory.1])) directory.2).filterMap languageOf := by
    rw [List.filterMap_map]
    refine List.filterMap_congr fun file hfile => ?_
    obtain ⟨inner, hne, rfl⟩ := below_of_mem_collectSourceFiles hfile
    rw [Function.comp_apply, relativeTo_below, languageOf_below root hne]
  unfold candidate?
  dsimp only
  rw [child_below, child_below, collectSourceFiles_here hroot, hlanguages]
  by_cases hmatches : domainMatches lower domain directory.1 = true
  · rw [if_pos hmatches, if_pos hmatches]
    by_cases hnone : collectSourceFiles (root.below (relative ++ [directory.1])) directory.2 = []
    · rw [if_pos hnone, if_pos (List.map_eq_nil_iff.mpr hnone), Option.map_none]
    · rw [if_neg hnone, if_neg (mt List.map_eq_nil_iff.mp hnone), Option.map_some, Implementation.relativeTo,
        relativeTo_below]
  · rw [if_neg hmatches, if_neg hmatches, Option.map_none]

theorem candidatesOf_here (hroot : isExcluded root = false) (relative : List String) (tree : Tree) :
    candidatesOf lower domain (here.below relative) tree =
      (candidatesOf lower domain (root.below relative) tree).map (Implementation.relativeTo root) := by
  have hexcluded (name : String) :
      isExcluded ((here.below relative).child name) = isExcluded ((root.below relative).child name) := by
    rw [child_below, child_below, isExcluded_below, isExcluded_below, hroot, isExcluded_here]
  simp only [candidatesOf, hexcluded, List.map_filterMap, candidate?_here lower domain hroot]

theorem candidates_here (hroot : isExcluded root = false) (tree : Tree) :
    candidates lower domain here tree =
      (candidates lower domain root tree).map (Implementation.relativeTo root) := by
  have h := scan_map (Implementation.relativeTo root) isExcluded_here hroot (candidatesOf_here lower domain hroot)
    [] tree
  rwa [below_nil, below_nil] at h

variable {lower domain}

theorem mem_candidates {tree : Tree} {item : Implementation} :
    item ∈ candidates lower domain root tree ↔ isExcluded root = false ∧ ∃ relative parent name content,
      Reaches tree relative parent ∧ (∀ part ∈ relative ++ [name], part ∉ excludedParts) ∧
        (name, content) ∈ parent.dirs ∧ candidate? lower domain (root.below relative) (name, content) = some item := by
  rw [candidates, mem_scan]
  refine and_congr_right fun hroot => exists_congr fun relative => ?_
  have hexcluded (hparts : ∀ part ∈ relative, part ∉ excludedParts) (name : String) :
      isExcluded ((root.below relative).child name) = decide (name ∈ excludedParts) := by
    have hnone : (relative.any fun part => part ∈ excludedParts) = false := by simpa using hparts
    rw [isExcluded_child, isExcluded_below, hroot, hnone, Bool.false_or, Bool.false_or]
  constructor
  · rintro ⟨parent, hreaches, hparts, hitem⟩
    obtain ⟨⟨name, content⟩, hmem, hsome⟩ := List.mem_filterMap.mp hitem
    obtain ⟨hdir, hname⟩ := List.mem_filter.mp hmem
    rw [hexcluded hparts] at hname
    exact ⟨parent, name, content, hreaches, List.forall_mem_append.mpr ⟨hparts, by simpa using hname⟩, hdir, hsome⟩
  · rintro ⟨parent, name, content, hreaches, hparts, hdir, hsome⟩
    obtain ⟨hparts, hname⟩ := List.forall_mem_append.mp hparts
    refine ⟨parent, hreaches, hparts, List.mem_filterMap.mpr ⟨_, List.mem_filter.mpr ⟨hdir, ?_⟩, hsome⟩⟩
    rw [hexcluded hparts]
    simpa using hname

theorem path_of_candidate? {path : Path} {directory : String × Tree} {item : Implementation}
    (h : candidate? lower domain path directory = some item) : item.path = path.child directory.1 := by
  unfold candidate? at h
  dsimp only at h
  split_ifs at h
  rw [← Option.some.inj h]

/-- Its path is below the root of the project. -/
def IsBelow (root : Path) (item : Implementation) : Prop := ∃ inner, inner ≠ [] ∧ item.path = root.below inner

theorem candidates_below {tree : Tree} {item : Implementation} (h : item ∈ candidates lower domain root tree) :
    IsBelow root item := by
  obtain ⟨-, relative, parent, name, content, -, -, -, hsome⟩ := mem_candidates.mp h
  exact ⟨relative ++ [name], by simp, by rw [path_of_candidate? hsome, child_below]⟩

theorem key_le_iff {a b : Implementation} {x y : List String} (ha : a.path = root.below x) (hb : b.path = root.below y)
    (hx : x ≠ []) (hy : y ≠ []) :
    a.key ≤ b.key ↔ x.length < y.length ∨ x.length = y.length ∧ "/".intercalate x ≤ "/".intercalate y := by
  rw [Implementation.key, Implementation.key, Prod.Lex.toLex_le_toLex, ha, hb, parts_below, parts_below,
    List.length_append, List.length_append, str_below_le_iff root hx hy]
  simp

theorem path_relativeTo {item : Implementation} {inner : List String} (h : item.path = root.below inner) :
    (item.relativeTo root).path = here.below inner := by
  rw [Implementation.relativeTo, h, relativeTo_below]

/-- The selection from candidates below a root goes by what they are below it. -/
theorem select_map_relativeTo {candidates : List Implementation} (h : ∀ item ∈ candidates, IsBelow root item) :
    select (candidates.map (Implementation.relativeTo root)) =
      (select candidates).map (Implementation.relativeTo root) := by
  have hsort : sortCandidates (candidates.map (Implementation.relativeTo root)) =
      (sortCandidates candidates).map (Implementation.relativeTo root) := by
    refine (List.map_insertionSort _ _ _ _ fun a ha b hb => ?_).symm
    obtain ⟨x, hx, hax⟩ := h a ha
    obtain ⟨y, hy, hby⟩ := h b hb
    rw [key_le_iff hax hby hx hy, key_le_iff (path_relativeTo hax) (path_relativeTo hby) hx hy]
  rw [select_eq_filter, select_eq_filter, hsort, List.filter_map]
  refine congrArg _ (List.filter_congr fun a ha => ?_)
  obtain ⟨x, -, hax⟩ := h a ((sortCandidates_perm candidates).mem_iff.mp ha)
  rw [Function.comp_apply, List.any_map, Bool.not_inj_iff, Bool.eq_iff_iff, List.any_eq_true, List.any_eq_true]
  refine exists_congr fun b => and_congr_right fun hb => ?_
  obtain ⟨y, -, hby⟩ := h b hb
  rw [Function.comp_apply, decide_eq_true_eq, decide_eq_true_eq, LiesInside, LiesInside, path_relativeTo hax,
    path_relativeTo hby, hax, hby]
  exact (inside_below_iff root x y).symm

/-- **From a root that is not excluded** the detector finds what it finds from the project itself. -/
theorem findImplementations_here (hroot : isExcluded root = false) (tree : Tree) :
    findImplementations lower domain here tree =
      (findImplementations lower domain root tree).map (Implementation.relativeTo root) := by
  rw [findImplementations, findImplementations, candidates_here lower domain hroot,
    select_map_relativeTo fun item => candidates_below]

theorem findImplementations_excluded (hroot : isExcluded root = true) (tree : Tree) :
    findImplementations lower domain root tree = [] := by
  rw [findImplementations, candidates, scan_eq_nil hroot]
  rfl

end

/-! ## In another order -/

section
variable {root : Path} {lower : String → String} {domain : String} {tree tree' : Tree}

theorem collectSourceFiles_same (h : tree.Same tree') (path : Path) :
    collectSourceFiles path tree = collectSourceFiles path tree' := by
  have hperm : (scan sourceFilesOf path tree).Perm (scan sourceFilesOf path tree') := by
    refine scan_perm (fun root tree tree' hsame => ?_) h path
    exact (hsame.perm_fileNames.map _).filter _
  have hsorted (tree : Tree) : (collectSourceFiles path tree).Pairwise le := by
    have : Std.Total le := ⟨fun a b => le_total a.parts b.parts⟩
    have : IsTrans Path le := ⟨fun a b c => le_trans⟩
    exact List.pairwise_insertionSort _ _
  have hboth : (collectSourceFiles path tree).Perm (collectSourceFiles path tree') :=
    (List.perm_insertionSort _ _).trans (hperm.trans (List.perm_insertionSort _ _).symm)
  refine hboth.eq_of_pairwise (fun a b ha hb hab hba => ?_) (hsorted tree) (hsorted tree')
  rw [← below_nil path] at ha hb
  obtain ⟨x, -, rfl⟩ := below_of_mem_collectSourceFiles ha
  obtain ⟨y, -, rfl⟩ := below_of_mem_collectSourceFiles hb
  rw [le_antisymm ((le_below_iff path x y).mp hab) ((le_below_iff path y x).mp hba)]

theorem candidates_same (h : tree.Same tree') :
    (candidates lower domain root tree).Perm (candidates lower domain root tree') := by
  refine scan_perm (fun root tree tree' hsame => ?_) h root
  rw [candidatesOf, candidatesOf, List.filterMap_filter, List.filterMap_filter]
  refine hsame.perm_filterMap fun name content content' hcontent => ?_
  rw [candidate?, candidate?, collectSourceFiles_same hcontent]

/-- In a valid tree, a path is the path of one candidate. -/
theorem candidates_unique (hvalid : tree.Valid) {a b : Implementation} (ha : a ∈ candidates lower domain root tree)
    (hb : b ∈ candidates lower domain root tree) (hkey : a.key = b.key) : a = b := by
  obtain ⟨-, relative, parent, name, content, hreaches, -, hdir, ha⟩ := mem_candidates.mp ha
  obtain ⟨-, relative', parent', name', content', hreaches', -, hdir', hb⟩ := mem_candidates.mp hb
  have hpath : a.path = root.below (relative ++ [name]) := by rw [path_of_candidate? ha, child_below]
  have hpath' : b.path = root.below (relative' ++ [name']) := by rw [path_of_candidate? hb, child_below]
  have hnames : ∀ part ∈ relative ++ [name], IsName part :=
    List.forall_mem_append.mpr ⟨(hreaches.valid hvalid).2,
      List.forall_mem_singleton.mpr ((hreaches.valid hvalid).1.isName_of_mem_dirs hdir)⟩
  have hnames' : ∀ part ∈ relative' ++ [name'], IsName part :=
    List.forall_mem_append.mpr ⟨(hreaches'.valid hvalid).2,
      List.forall_mem_singleton.mpr ((hreaches'.valid hvalid).1.isName_of_mem_dirs hdir')⟩
  have htext : "/".intercalate (relative ++ [name]) = "/".intercalate (relative' ++ [name']) := by
    have hle := (key_le_iff hpath hpath' (by simp) (by simp)).mp hkey.le
    have hge := (key_le_iff hpath' hpath (by simp) (by simp)).mp hkey.ge
    rcases hle with hlt | ⟨hlength, hle⟩
    · rcases hge with hgt | ⟨hlength, -⟩ <;> omega
    · rcases hge with hgt | ⟨-, hge⟩
      · omega
      · exact le_antisymm hle hge
  have hparts := intercalate_injective hnames hnames' (by simp) (by simp) htext
  obtain ⟨rfl, hname⟩ := List.append_inj' hparts rfl
  obtain rfl := List.singleton_inj.mp hname
  obtain rfl := hreaches.unique hvalid hreaches'
  obtain rfl := (hreaches.valid hvalid).1.content_unique hdir hdir'
  exact Option.some.inj (ha.symm.trans hb)

theorem findImplementations_same (hvalid : tree.Valid) (h : tree.Same tree') :
    findImplementations lower domain root tree = findImplementations lower domain root tree' := by
  have hsame : (candidates lower domain root tree).Perm (candidates lower domain root tree') := candidates_same h
  have hperm := (sortCandidates_perm _).trans (hsame.trans (sortCandidates_perm _).symm)
  have hsorted := hperm.eq_of_pairwise (fun a b ha hb hab hba => ?_) (pairwise_sortCandidates _)
    (pairwise_sortCandidates _)
  · rw [findImplementations, findImplementations, select, select, hsorted]
  · have hb' := hsame.mem_iff.mpr ((sortCandidates_perm _).mem_iff.mp hb)
    exact candidates_unique hvalid ((sortCandidates_perm _).mem_iff.mp ha) hb' (le_antisymm hab hba)

end

/-! ## Any two locations -/

section
variable (lower : String → String) (domain : String)

/-- There is something to find: a directory of the domain with a source file in it, neither of them in an excluded
directory of the project. -/
def HasImplementation (tree : Tree) : Prop :=
  ∃ relative parent name content, Reaches tree relative parent ∧ (name, content) ∈ parent.dirs ∧
    (∀ part ∈ relative ++ [name], part ∉ excludedParts) ∧ domainMatches lower domain name = true ∧
    ∃ inner directory file, Reaches content inner directory ∧ (∀ part ∈ inner, part ∉ excludedParts) ∧
      file ∈ directory.fileNames ∧ (languageOf (here.child file)).isSome

variable {lower domain} {root : Path} {tree : Tree}

theorem collectSourceFiles_ne_nil_iff {path : Path} (hpath : isExcluded path = false) :
    collectSourceFiles path tree ≠ [] ↔ ∃ inner directory file, Reaches tree inner directory ∧
      (∀ part ∈ inner, part ∉ excludedParts) ∧ file ∈ directory.fileNames ∧ (languageOf (here.child file)).isSome := by
  have hlanguage (inner : List String) (name : String) :
      languageOf ((path.below inner).child name) = languageOf (here.child name) := by
    rw [languageOf, languageOf, suffix, suffix, child, child, List.getLastD_concat, List.getLastD_concat]
  constructor
  · intro h
    obtain ⟨file, hfile⟩ := List.exists_mem_of_ne_nil _ h
    obtain ⟨-, inner, directory, hreaches, hparts, hfile⟩ := mem_collectSourceFiles.mp hfile
    obtain ⟨name, hname, rfl, hsome⟩ := mem_sourceFilesOf.mp hfile
    exact ⟨inner, directory, name, hreaches, hparts, hname, by rwa [hlanguage] at hsome⟩
  · rintro ⟨inner, directory, name, hreaches, hparts, hname, hsome⟩
    have hfile : (path.below inner).child name ∈ sourceFilesOf (path.below inner) directory :=
      mem_sourceFilesOf.mpr ⟨name, hname, rfl, by rwa [hlanguage]⟩
    exact List.ne_nil_of_mem (mem_collectSourceFiles.mpr ⟨hpath, inner, directory, hreaches, hparts, hfile⟩)

theorem isSome_candidate?_iff {path : Path} {directory : String × Tree} :
    (∃ item, candidate? lower domain path directory = some item) ↔
      domainMatches lower domain directory.1 = true ∧ collectSourceFiles (path.child directory.1) directory.2 ≠ [] := by
  unfold candidate?
  dsimp only
  by_cases hmatches : domainMatches lower domain directory.1 = true
  · by_cases hnone : collectSourceFiles (path.child directory.1) directory.2 = []
    · simp [hmatches, hnone]
    · simp [hmatches, hnone]
  · simp [hmatches]

theorem candidates_ne_nil_iff (hroot : isExcluded root = false) :
    candidates lower domain root tree ≠ [] ↔ HasImplementation lower domain tree := by
  have hchild {relative : List String} {name : String} (hparts : ∀ part ∈ relative ++ [name], part ∉ excludedParts) :
      isExcluded ((root.below relative).child name) = false := by
    rw [child_below, isExcluded_below, hroot, Bool.false_or, List.any_eq_false]
    simpa only [decide_eq_true_eq] using hparts
  constructor
  · intro h
    obtain ⟨item, hitem⟩ := List.exists_mem_of_ne_nil _ h
    obtain ⟨-, relative, parent, name, content, hreaches, hparts, hdir, hsome⟩ := mem_candidates.mp hitem
    obtain ⟨hmatches, hfiles⟩ := isSome_candidate?_iff.mp ⟨item, hsome⟩
    exact ⟨relative, parent, name, content, hreaches, hdir, hparts, hmatches,
      (collectSourceFiles_ne_nil_iff (hchild hparts)).mp hfiles⟩
  · rintro ⟨relative, parent, name, content, hreaches, hdir, hparts, hmatches, hfile⟩
    have hfiles := (collectSourceFiles_ne_nil_iff (hchild hparts)).mpr hfile
    have hsome : ∃ item, candidate? lower domain (root.below relative) (name, content) = some item :=
      isSome_candidate?_iff.mpr ⟨hmatches, hfiles⟩
    obtain ⟨item, hsome⟩ := hsome
    have hitem : item ∈ candidates lower domain root tree :=
      mem_candidates.mpr ⟨hroot, relative, parent, name, content, hreaches, hparts, hdir, hsome⟩
    exact List.ne_nil_of_mem hitem

theorem select_eq_nil_iff {candidates : List Implementation} : select candidates = [] ↔ candidates = [] := by
  constructor
  · intro h
    refine List.eq_nil_iff_forall_not_mem.mpr fun item hitem => ?_
    obtain ⟨b, hb, -⟩ := exists_mem_select hitem
    rw [h] at hb
    exact absurd hb List.not_mem_nil
  · rintro rfl
    rfl

/-- What is reported of a location: the implementations below the root. -/
def relativeImplementations (lower : String → String) (domain : String) (root : Path) (tree : Tree) :
    List Implementation :=
  (findImplementations lower domain root tree).map (Implementation.relativeTo root)

/-- The implementation as `classify` sees it. -/
def Implementation.classified (item : Implementation) : Scripts.Implementation := ⟨item.path.tail, item.languages⟩

def verdict (lower : String → String) (domain : String) (root : Path) (tree : Tree) : Verdict :=
  classify ((relativeImplementations lower domain root tree).map Implementation.classified)

theorem relativeImplementations_eq (root : Path) (tree : Tree) :
    relativeImplementations lower domain root tree =
      if isExcluded root then [] else findImplementations lower domain here tree := by
  unfold relativeImplementations
  split_ifs with hroot
  · rw [findImplementations_excluded hroot, List.map_nil]
  · exact (findImplementations_here (Bool.eq_false_of_not_eq_true hroot) tree).symm

/-- **Two locations of one project**, in whatever order they list it: the implementations below the root, and with them
the verdict, are the same just when the two roots are excluded or not alike, or there is nothing to find. -/
theorem sameImplementations_iff (lower : String → String) (domain : String) {tree tree' : Tree} (hvalid : tree.Valid)
    (hsame : tree.Same tree') (root root' : Path) :
    (relativeImplementations lower domain root tree = relativeImplementations lower domain root' tree' ∧
      verdict lower domain root tree = verdict lower domain root' tree') ↔
    (isExcluded root = isExcluded root' ∨ ¬ HasImplementation lower domain tree) := by
  have hnone : findImplementations lower domain here tree = [] ↔ ¬ HasImplementation lower domain tree := by
    rw [findImplementations, select_eq_nil_iff, ← candidates_ne_nil_iff isExcluded_here, not_not]
  have himplementations :
      relativeImplementations lower domain root tree = relativeImplementations lower domain root' tree' ↔
        (isExcluded root = isExcluded root' ∨ ¬ HasImplementation lower domain tree) := by
    rw [relativeImplementations_eq, relativeImplementations_eq, ← findImplementations_same hvalid hsame, ← hnone]
    cases isExcluded root <;> cases isExcluded root' <;> simp
  rw [← himplementations, and_iff_left_iff_imp]
  intro h
  rw [verdict, verdict, h]

/-- A project with one implementation, `src/execution/main.py`. -/
def project : Tree :=
  .dir "docs" false (.files []) (.dir "src" false (.dir "execution" false (.files ["main.py"]) (.files [])) (.files []))

theorem valid_project : project.Valid := by
  simp [project, Tree.Valid, Tree.dirs, IsName]

theorem hasImplementation_project : HasImplementation String.toLower "execution" project :=
  ⟨["src"], .dir "execution" false (.files ["main.py"]) (.files []), "execution", .files ["main.py"],
    .next (.down (.here _)), List.mem_cons_self, by decide, by decide +kernel,
    [], .files ["main.py"], "main.py", .here _, List.forall_mem_nil _, List.mem_cons_self, by decide +kernel⟩

/-- In two homes, with `src` listed first in the second. -/
theorem sameImplementations_homes :
    relativeImplementations String.toLower "execution" ⟨"/", ["home", "ada", "atlas"]⟩ project =
      relativeImplementations String.toLower "execution" ⟨"/", ["srv", "atlas"]⟩
        (.dir "src" false (.dir "execution" false (.files ["main.py"]) (.files []))
          (.dir "docs" false (.files []) (.files []))) :=
  ((sameImplementations_iff String.toLower "execution" valid_project (.swap ..) _ _).mpr (Or.inl (by decide))).1

/-- Below a directory `target`, nothing of the project is found. -/
theorem target_not_scanned : ¬ ∀ (lower : String → String) (domain : String) (tree : Tree) (root root' : Path),
    tree.Valid → relativeImplementations lower domain root tree = relativeImplementations lower domain root' tree := by
  intro h
  have hsame := h String.toLower "execution" project ⟨"/", ["home", "atlas"]⟩ ⟨"/", ["build", "target", "atlas"]⟩
    valid_project
  rw [relativeImplementations_eq, relativeImplementations_eq, if_neg (by decide), if_pos (by decide),
    findImplementations, select_eq_nil_iff] at hsame
  exact (candidates_ne_nil_iff isExcluded_here).mpr hasImplementation_project hsame

end

end Atlas.Scripts.BoundaryScan
