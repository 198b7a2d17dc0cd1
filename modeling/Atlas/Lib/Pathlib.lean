import Mathlib.Data.List.Sort
import Mathlib.Data.List.DropRight
import Mathlib.Data.String.Basic
import Mathlib.Tactic

/-!
# Paths and walks of Python

* `Path` : a `pathlib.Path`, by its root and the parts below it; `parts`, `str`, `child`, `isRelativeTo`, `suffix`;
* `Inside` : strictly inside another path; `below` : what a path is below a root; `str_below`, `le_below_iff` : a root
  in front changes no order;
* `Tree` : what is seen of a directory; `Same` : but for the order in which it is listed;
* `walk` : `os.walk` from the top down, where the loop over it says which directories are kept;
* `descend_map`, `walk_perm`, `Reaches` : a walk at another root, of another listing, and where it gets.
-/

namespace Pathlib

/-! ## Paths -/

/-- `root` is empty for a relative path. -/
structure Path where
  root : String
  tail : List String
  deriving DecidableEq

namespace Path

def parts (path : Path) : List String := if path.root = "" then path.tail else path.root :: path.tail

def str (path : Path) : String :=
  if path.root = "" ∧ path.tail = [] then "." else path.root ++ "/".intercalate path.tail

/-- `path / name` -/
def child (path : Path) (name : String) : Path := ⟨path.root, path.tail ++ [name]⟩

/-- `path.is_relative_to(other)` -/
def isRelativeTo (path other : Path) : Bool := path.root = other.root && other.tail.isPrefixOf path.tail

/-- `path.relative_to(other)`, of a path that is. -/
def relativeTo (path other : Path) : Path := ⟨"", path.tail.drop other.tail.length⟩

/-- The suffix of a name: from its last dot on, unless that is its first or its last character. -/
def suffixOf (name : String) : String :=
  let behind := name.toList.rtakeWhile (· ≠ '.')
  if 2 ≤ (name.toList.rdropWhile (· ≠ '.')).length ∧ behind ≠ [] then String.ofList ('.' :: behind) else ""

def suffix (path : Path) : String := suffixOf (path.tail.getLastD "")

/-- Paths are compared by their parts. -/
def le (a b : Path) : Prop := a.parts ≤ b.parts

instance : DecidableRel le := fun a b => inferInstanceAs (Decidable (a.parts ≤ b.parts))

/-- Strictly inside the other. -/
def Inside (a b : Path) : Prop := a ≠ b ∧ a.isRelativeTo b = true

instance : DecidableRel Inside := fun _ _ => inferInstanceAs (Decidable (_ ∧ _))

theorem isRelativeTo_iff {a b : Path} : a.isRelativeTo b = true ↔ a.root = b.root ∧ b.tail <+: a.tail := by
  rw [isRelativeTo, Bool.and_eq_true, decide_eq_true_eq, List.isPrefixOf_iff_prefix]

theorem inside_iff {a b : Path} : Inside a b ↔ a.root = b.root ∧ b.tail <+: a.tail ∧ b.tail.length < a.tail.length := by
  rw [Inside, isRelativeTo_iff]
  constructor
  · rintro ⟨hne, hroot, hprefix⟩
    refine ⟨hroot, hprefix, lt_of_le_of_ne hprefix.length_le fun hlength => hne ?_⟩
    have htail := hprefix.eq_of_length hlength
    cases a
    cases b
    simp_all
  · rintro ⟨hroot, hprefix, hlength⟩
    refine ⟨?_, hroot, hprefix⟩
    rintro rfl
    exact absurd hlength (lt_irrefl _)

theorem Inside.trans {a b c : Path} (hab : Inside a b) (hbc : Inside b c) : Inside a c := by
  rw [inside_iff] at hab hbc ⊢
  exact ⟨hab.1.trans hbc.1, hbc.2.1.trans hab.2.1, hbc.2.2.trans hab.2.2⟩

theorem Inside.irrefl (a : Path) : ¬ Inside a a := fun h => h.1 rfl

theorem Inside.parts_lt {a b : Path} (h : Inside a b) : b.parts.length < a.parts.length := by
  obtain ⟨hroot, -, hlength⟩ := inside_iff.mp h
  unfold parts
  rw [hroot]
  split_ifs
  · exact hlength
  · rw [List.length_cons, List.length_cons]
    omega

/-! ### Below a root -/

def below (root : Path) (relative : List String) : Path := ⟨root.root, root.tail ++ relative⟩

def here : Path := ⟨"", []⟩

@[simp] theorem below_nil (root : Path) : root.below [] = root := by simp [below]

theorem child_below (root : Path) (relative : List String) (name : String) :
    (root.below relative).child name = root.below (relative ++ [name]) := by
  simp [below, child]

theorem below_child (root : Path) (name : String) (relative : List String) :
    (root.child name).below relative = root.below (name :: relative) := by
  simp [below, child]

@[simp] theorem below_below (root : Path) (a b : List String) : (root.below a).below b = root.below (a ++ b) := by
  simp [below]

@[simp] theorem relativeTo_below (root : Path) (relative : List String) :
    (root.below relative).relativeTo root = here.below relative := by
  simp [below, relativeTo, here]

@[simp] theorem tail_here_below (relative : List String) : (here.below relative).tail = relative := rfl

theorem parts_below (root : Path) (relative : List String) : (root.below relative).parts = root.parts ++ relative := by
  unfold parts below
  split_ifs <;> rfl

theorem inside_below_iff (root : Path) (a b : List String) :
    Inside (root.below a) (root.below b) ↔ Inside (here.below a) (here.below b) := by
  simp [inside_iff, below, here, List.prefix_append_right_inj]

theorem suffix_below (root : Path) {relative : List String} (h : relative ≠ []) :
    (root.below relative).suffix = (here.below relative).suffix := by
  simp [suffix, below, here, List.getLastD_eq_getLast?, List.getLast?_append_of_ne_nil _ h]

theorem append_le_append_iff {α : Type} [LinearOrder α] (front a b : List α) : front ++ a ≤ front ++ b ↔ a ≤ b := by
  induction front with
  | nil => exact Iff.rfl
  | cons c front ih =>
    rw [← ih, ← not_lt, ← not_lt, List.cons_append, List.cons_append]
    exact not_congr List.cons_lt_cons_self

/-- Paths below a root are compared by what they are below it. -/
theorem le_below_iff (root : Path) (a b : List String) : le (root.below a) (root.below b) ↔ a ≤ b := by
  rw [le, parts_below, parts_below, append_le_append_iff]

/-- What a path below the root begins with, as text. -/
def lead (root : Path) : String :=
  if root.tail = [] then root.root else root.root ++ "/".intercalate root.tail ++ "/"

theorem str_below (root : Path) {relative : List String} (h : relative ≠ []) :
    (root.below relative).str = root.lead ++ "/".intercalate relative := by
  have hne : ¬ ((root.below relative).root = "" ∧ (root.below relative).tail = []) := by simp [below, h]
  rw [str, if_neg hne, lead]
  split_ifs with htail
  · simp [below, htail]
  · show root.root ++ "/".intercalate (root.tail ++ relative) = _
    rw [String.intercalate_append_of_ne_nil htail h]
    simp only [String.append_assoc]

theorem str_below_le_iff (root : Path) {a b : List String} (ha : a ≠ []) (hb : b ≠ []) :
    (root.below a).str ≤ (root.below b).str ↔ "/".intercalate a ≤ "/".intercalate b := by
  rw [str_below root ha, str_below root hb, String.le_iff_toList_le, String.toList_append, String.toList_append,
    append_le_append_iff, ← String.le_iff_toList_le]

end Path

/-- A name that a directory can list. -/
def IsName (name : String) : Prop := name ≠ "" ∧ name ≠ "." ∧ name ≠ ".." ∧ '/' ∉ name.toList

theorem intercalate_injective {a b : List String} (ha : ∀ name ∈ a, IsName name) (hb : ∀ name ∈ b, IsName name)
    (hane : a ≠ []) (hbne : b ≠ []) (h : "/".intercalate a = "/".intercalate b) : a = b := by
  have hsplit {names : List String} (hnames : ∀ name ∈ names, IsName name) (hne : names ≠ []) :
      (("/".intercalate names).toList).splitOn '/' = names.map String.toList := by
    rw [String.toList_intercalate]
    refine List.splitOn_intercalate '/' ?_ (by simpa using hne)
    intro part hpart
    obtain ⟨name, hname, rfl⟩ := List.mem_map.mp hpart
    exact (hnames name hname).2.2.2
  have hmap : a.map String.toList = b.map String.toList := by rw [← hsplit ha hane, ← hsplit hb hbne, h]
  exact List.map_injective_iff.mpr (fun _ _ => String.toList_inj.mp) hmap

/-! ## Trees -/

/-- A directory: those in it, one after the other, and the names of its files. A link to a directory shows what is
behind it. -/
inductive Tree
  | files (names : List String)
  | dir (name : String) (link : Bool) (content rest : Tree)

namespace Tree

def dirs : Tree → List (String × Tree)
  | .files _ => []
  | .dir name _ content rest => (name, content) :: rest.dirs

def fileNames : Tree → List String
  | .files names => names
  | .dir _ _ _ rest => rest.fileNames

/-- Names are names, and no two directories of a directory have the same one. -/
def Valid : Tree → Prop
  | .files names => ∀ name ∈ names, IsName name
  | .dir name _ content rest => IsName name ∧ name ∉ rest.dirs.map Prod.fst ∧ content.Valid ∧ rest.Valid

/-- The same directory, listed in another order. -/
inductive Same : Tree → Tree → Prop
  | files {names names' : List String} : names.Perm names' → Same (.files names) (.files names')
  | dir (name : String) (link : Bool) {content content' rest rest' : Tree} :
    Same content content' → Same rest rest' → Same (.dir name link content rest) (.dir name link content' rest')
  | swap (name name' : String) (link link' : Bool) (content content' rest : Tree) :
    Same (.dir name link content (.dir name' link' content' rest))
      (.dir name' link' content' (.dir name link content rest))
  | trans {a b c : Tree} : Same a b → Same b c → Same a c

theorem Same.refl (tree : Tree) : Same tree tree := by
  induction tree with
  | files names => exact .files (.refl names)
  | dir name link content rest ihcontent ihrest => exact .dir name link ihcontent ihrest

/-- `tree.Reaches relative content`: there is the directory `content`, at that path and through no link. -/
inductive Reaches : Tree → List String → Tree → Prop
  | here (tree : Tree) : Reaches tree [] tree
  | down {name : String} {content rest tree : Tree} {relative : List String} :
    Reaches content relative tree → Reaches (.dir name false content rest) (name :: relative) tree
  | next {name name' : String} {link : Bool} {content rest tree : Tree} {relative : List String} :
    Reaches rest (name' :: relative) tree → Reaches (.dir name link content rest) (name' :: relative) tree

theorem Same.perm_fileNames {tree tree' : Tree} (h : tree.Same tree') : tree.fileNames.Perm tree'.fileNames := by
  induction h with
  | files h => exact h
  | dir _ _ _ _ _ ih => exact ih
  | swap => exact .refl _
  | trans _ _ ih ih' => exact ih.trans ih'

/-- What is made of the directories, where it is the same for the same directory. -/
theorem Same.perm_filterMap {α : Type} {f : String × Tree → Option α}
    (hf : ∀ name content content', Same content content' → f (name, content) = f (name, content')) {tree tree' : Tree}
    (h : tree.Same tree') : (tree.dirs.filterMap f).Perm (tree'.dirs.filterMap f) := by
  induction h with
  | files => exact .refl _
  | dir name _ hcontent _ _ ih =>
    rw [dirs, dirs, List.filterMap_cons, List.filterMap_cons, hf name _ _ hcontent]
    split
    · exact ih
    · exact ih.cons _
  | swap => exact (List.Perm.swap _ _ _).filterMap f
  | trans _ _ ih ih' => exact ih.trans ih'

theorem Same.mem_names {tree tree' : Tree} (h : tree.Same tree') (name : String) :
    name ∈ tree.dirs.map Prod.fst ↔ name ∈ tree'.dirs.map Prod.fst := by
  have hperm : (tree.dirs.filterMap (some ∘ Prod.fst)).Perm (tree'.dirs.filterMap (some ∘ Prod.fst)) :=
    h.perm_filterMap fun _ _ _ _ => rfl
  rw [List.filterMap_eq_map] at hperm
  exact hperm.mem_iff

theorem Reaches.mem_dirs {tree content : Tree} {name : String} {relative : List String}
    (h : Reaches tree (name :: relative) content) : name ∈ tree.dirs.map Prod.fst := by
  induction tree with
  | files names => nomatch h
  | dir name' link content' rest _ ih =>
    cases h with
    | down => exact List.mem_cons_self
    | next h => exact List.mem_cons_of_mem _ (ih h)

theorem Reaches.valid {tree content : Tree} {relative : List String} (h : Reaches tree relative content)
    (hvalid : tree.Valid) : content.Valid ∧ ∀ name ∈ relative, IsName name := by
  induction h with
  | here => exact ⟨hvalid, List.forall_mem_nil _⟩
  | down _ ih =>
    have hcontent := ih hvalid.2.2.1
    exact ⟨hcontent.1, List.forall_mem_cons.mpr ⟨hvalid.1, hcontent.2⟩⟩
  | next _ ih => exact ih hvalid.2.2.2

theorem Reaches.unique {tree a b : Tree} {relative : List String} (hvalid : tree.Valid) (ha : Reaches tree relative a)
    (hb : Reaches tree relative b) : a = b := by
  induction ha with
  | here => cases hb; rfl
  | down ha ih =>
    cases hb with
    | down hb => exact ih hvalid.2.2.1 hb
    | next hb => exact absurd hb.mem_dirs hvalid.2.1
  | next ha ih =>
    cases hb with
    | down => exact absurd ha.mem_dirs hvalid.2.1
    | next hb => exact ih hvalid.2.2.2 hb

theorem Valid.isName_of_mem_dirs {tree : Tree} (h : tree.Valid) {name : String} {content : Tree}
    (hmem : (name, content) ∈ tree.dirs) : IsName name := by
  induction tree with
  | files names => exact absurd hmem List.not_mem_nil
  | dir name' link content' rest _ ih =>
    rcases List.mem_cons.mp hmem with heq | hmem
    · rw [(Prod.mk.inj heq).1]
      exact h.1
    · exact ih h.2.2.2 hmem

theorem Valid.content_unique {tree : Tree} (h : tree.Valid) {name : String} {a b : Tree}
    (ha : (name, a) ∈ tree.dirs) (hb : (name, b) ∈ tree.dirs) : a = b := by
  induction tree with
  | files names => exact absurd ha List.not_mem_nil
  | dir name' link content' rest _ ih =>
    rcases List.mem_cons.mp ha with hea | ha <;> rcases List.mem_cons.mp hb with heb | hb
    · rw [(Prod.mk.inj hea).2, (Prod.mk.inj heb).2]
    · rw [(Prod.mk.inj hea).1] at hb
      exact absurd (List.mem_map_of_mem hb) h.2.1
    · rw [(Prod.mk.inj heb).1] at ha
      exact absurd (List.mem_map_of_mem ha) h.2.1
    · exact ih h.2.2.2 ha hb

end Tree

/-! ## Walks -/

section Walk
variable {α β : Type}

/-- The walk through the directories of a tree that have been kept. The loop over the walk is given by what it does with
a directory: which of its directories it keeps, and what it collects. -/
def descend (visit : Path → Tree → List String × List α) (kept : List String) (root : Path) : Tree → List α
  | .files _ => []
  | .dir name link content rest =>
    (if name ∈ kept ∧ link = false then
      let visited := visit (root.child name) content
      visited.2 ++ descend visit visited.1 (root.child name) content
    else []) ++ descend visit kept root rest

/-- `os.walk(root)` -/
def walk (visit : Path → Tree → List String × List α) (root : Path) (tree : Tree) : List α :=
  let visited := visit root tree
  visited.2 ++ descend visit visited.1 root tree

variable {visit : Path → Tree → List String × List α}

theorem descend_dir (kept : List String) (root : Path) (name : String) (link : Bool) (content rest : Tree) :
    descend visit kept root (.dir name link content rest) =
      (if name ∈ kept ∧ link = false then walk visit (root.child name) content else []) ++
        descend visit kept root rest := rfl

theorem descend_congr {kept kept' : List String} (h : ∀ name, name ∈ kept ↔ name ∈ kept') (root : Path) (tree : Tree) :
    descend visit kept root tree = descend visit kept' root tree := by
  induction tree with
  | files names => rfl
  | dir name link content rest _ ih => rw [descend_dir, descend_dir, ih, if_congr (and_congr_left' (h name)) rfl rfl]

/-- Two walks of one tree, at two roots. -/
theorem descend_map {visit' : Path → Tree → List String × List β} {root root' : Path} (g : β → α)
    (h : ∀ relative tree, visit (root.below relative) tree =
      ((visit' (root'.below relative) tree).1, (visit' (root'.below relative) tree).2.map g))
    (kept relative : List String) (tree : Tree) :
    descend visit kept (root.below relative) tree = (descend visit' kept (root'.below relative) tree).map g := by
  induction tree generalizing kept relative with
  | files names => rfl
  | dir name link content rest ihcontent ihrest =>
    rw [descend_dir, descend_dir, ihrest, List.map_append]
    split_ifs
    · rw [walk, walk, Path.child_below, Path.child_below, h, ihcontent, List.map_append]
    · rfl

theorem walk_map {visit' : Path → Tree → List String × List β} {root root' : Path} (g : β → α)
    (h : ∀ relative tree, visit (root.below relative) tree =
      ((visit' (root'.below relative) tree).1, (visit' (root'.below relative) tree).2.map g))
    (relative : List String) (tree : Tree) :
    walk visit (root.below relative) tree = (walk visit' (root'.below relative) tree).map g := by
  rw [walk, walk, h, descend_map g h, List.map_append]

/-- A loop that does the same whatever the order of a listing. -/
def Unordered (visit : Path → Tree → List String × List α) : Prop :=
  ∀ root tree tree', tree.Same tree' → (visit root tree).2.Perm (visit root tree').2 ∧
    ∀ name, name ∈ (visit root tree).1 ↔ name ∈ (visit root tree').1

theorem descend_perm (hvisit : Unordered visit) {tree tree' : Tree} (h : tree.Same tree') (kept : List String)
    (root : Path) : (descend visit kept root tree).Perm (descend visit kept root tree') := by
  induction h generalizing kept root with
  | files => exact .refl _
  | @dir name link content content' rest rest' hcontent _ ihcontent ihrest =>
    rw [descend_dir, descend_dir]
    refine .append ?_ (ihrest kept root)
    split_ifs
    · obtain ⟨hperm, hkept⟩ := hvisit (root.child name) content content' hcontent
      rw [walk, walk, ← descend_congr hkept]
      exact hperm.append (ihcontent _ _)
    · exact .refl _
  | swap name name' link link' content content' rest =>
    simp only [descend_dir, ← List.append_assoc]
    exact List.perm_append_comm.append_right _
  | trans _ _ ih ih' => exact (ih kept root).trans (ih' kept root)

theorem walk_perm (hvisit : Unordered visit) {tree tree' : Tree} (h : tree.Same tree') (root : Path) :
    (walk visit root tree).Perm (walk visit root tree') := by
  obtain ⟨hperm, hkept⟩ := hvisit root tree tree' h
  rw [walk, walk, ← descend_congr hkept]
  exact hperm.append (descend_perm hvisit h _ root)

end Walk

end Pathlib
