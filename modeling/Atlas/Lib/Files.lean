import Atlas.Lib.Raising
import Mathlib.Data.List.DropRight

/-!
# Files, as a Python program sees them

* `split`, `dirname`, `basename`, `join`, `normpath`, `abspath`, `relpath` : `os.path`;
* `View` : what is seen of a file system under its paths, through links; `Calls` : what a program can do to it, where
  any call may raise; `Lawful` : what a call leaves alone; `Reliable` : calls that do not raise without need;
* `makedirs` : `os.makedirs`, which takes nothing away (`wp_makedirs`);
* `copy2` : `shutil.copy2`; `wp_copy2` : what it writes, and what it leaves alone;
* `Disk` : a file system without links.
-/

namespace Files
open Raising

/-! ## Paths -/

abbrev Path := List Char

/-- `os.path.split` -/
def split (path : Path) : Path × Path :=
  let head := path.rdropWhile (· ≠ '/')
  (if head.all (· = '/') then head else head.rdropWhile (· = '/'), path.rtakeWhile (· ≠ '/'))

def dirname (path : Path) : Path := (split path).1

def basename (path : Path) : Path := (split path).2

def join (a b : Path) : Path :=
  if b.head? = some '/' then b
  else if a = [] ∨ a.getLast? = some '/' then a ++ b
  else a ++ '/' :: b

theorem join_ne_nil (a : Path) {b : Path} (h : b ≠ []) : join a b ≠ [] := by
  unfold join
  split_ifs <;> simp [h]

/-- The components of `normpath`, the last one first. -/
def normalize (absolute : Bool) (components : List Path) : List Path :=
  components.foldl (fun done component =>
    if component = [] ∨ component = ['.'] then done
    else if component ≠ ['.', '.'] ∨ (absolute = false ∧ done = []) ∨ done.head? = some ['.', '.'] then
      component :: done
    else done.tail) []

def normpath (path : Path) : Path :=
  let slashes := path.takeWhile (· = '/')
  let start := if slashes.length = 2 then slashes else slashes.take 1
  let done := start ++ ['/'].intercalate (normalize (start ≠ []) (path.splitOn '/')).reverse
  if done = [] then ['.'] else done

def abspath (cwd path : Path) : Path := normpath (if path.head? = some '/' then path else join cwd path)

/-- `os.path.relpath` of a path that is not empty. -/
def relpath (cwd path start : Path) : Path :=
  let components (path : Path) := ((abspath cwd path).splitOn '/').filter (· ≠ [])
  let common := ((components start).zip (components path)).takeWhile fun pair => pair.1 = pair.2
  let relative := List.replicate ((components start).length - common.length) ['.', '.'] ++
    (components path).drop common.length
  if relative = [] then ['.'] else ['/'].intercalate relative

theorem length_dirname_le (path : Path) : (dirname path).length ≤ (path.rdropWhile (· ≠ '/')).length := by
  unfold dirname split
  dsimp only
  split_ifs
  · exact le_refl _
  · exact (List.rdropWhile_prefix _ _).length_le

theorem length_split (path : Path) :
    (path.rdropWhile (· ≠ '/')).length + (basename path).length = path.length := by
  rw [basename, split, ← List.length_append]
  congr 1
  rw [List.rdropWhile, List.rtakeWhile, ← List.reverse_append, List.takeWhile_append_dropWhile, List.reverse_reverse]

/-! ## The file system -/

inductive Entry
  | file (content : List UInt8)
  | directory
  deriving DecidableEq

inductive OSError
  | fileExists (text : String)
  | other (text : String)

/-- `str(e)` -/
def OSError.text : OSError → String
  | fileExists text => text
  | other text => text

/-- `stat` is absent where nothing is found; `sameFile` is `os.path.samefile`, or false where this raises. -/
structure View (σ : Type) where
  stat : σ → Path → Option Entry
  sameFile : σ → Path → Path → Bool

variable {σ : Type}

namespace View
variable (view : View σ) (s : σ) (path : Path)

def exist : Bool := (view.stat s path).isSome

def isfile : Bool := match view.stat s path with
  | some (.file _) => true
  | _ => false

def isdir : Bool := view.stat s path = some .directory

end View

/-- `write` opens a file for writing, makes or empties it, and puts the content into it. -/
structure Calls (σ : Type) where
  mkdir : Path → EStateM OSError σ Unit
  read : Path → EStateM OSError σ (List UInt8)
  getsize : Path → EStateM OSError σ Nat
  write : Path → List UInt8 → EStateM OSError σ Unit
  copystat : Path → Path → EStateM OSError σ Unit
  remove : Path → EStateM OSError σ Unit

section
variable (view : View σ)

/-- Nothing that was there is touched. -/
structure Kept (s s' : σ) : Prop where
  stat : ∀ path entry, view.stat s path = some entry → view.stat s' path = some entry
  sameFile : ∀ p q, view.stat s p ≠ none → view.stat s q ≠ none → view.sameFile s' p q = view.sameFile s p q

/-- Nothing is seen to change. -/
structure Unseen (s s' : σ) : Prop where
  stat : view.stat s' = view.stat s
  sameFile : view.sameFile s' = view.sameFile s

/-- No file but that of the path is touched. -/
structure Beside (path : Path) (s s' : σ) : Prop where
  directory : ∀ p, view.stat s p = some .directory → view.stat s' p = some .directory
  file : ∀ p content, view.stat s p = some (.file content) → view.sameFile s p path = false →
    view.stat s' p = some (.file content) ∧ view.sameFile s' p path = false

/-- What the calls of a file system come to, whichever way they end. -/
structure Lawful (calls : Calls σ) : Prop where
  symm : ∀ s p q, view.sameFile s p q = view.sameFile s q p
  mkdir : ∀ path s, wp (calls.mkdir path) (fun _ => Kept view s) (fun _ => Kept view s) s
  read : ∀ path s, wp (calls.read path)
    (fun content s' => Unseen view s s' ∧ view.stat s path = some (.file content)) (fun _ => Unseen view s) s
  getsize : ∀ path s, wp (calls.getsize path) (fun _ => Unseen view s) (fun _ => Unseen view s) s
  write : ∀ path content s, wp (calls.write path content)
    (fun _ s' => Beside view path s s' ∧ view.stat s' path = some (.file content))
    (fun _ s' => Beside view path s s' ∧ (view.stat s' path = view.stat s path ∨
      ∃ partly, view.stat s' path = some (.file partly))) s
  copystat : ∀ src dst s, wp (calls.copystat src dst) (fun _ => Unseen view s) (fun _ => Unseen view s) s
  remove : ∀ path s content, view.stat s path = some (.file content) →
    wp (calls.remove path) (fun _ s' => view.stat s' path = none) (fun _ => Unseen view s) s

/-- The calls do not raise where they can be carried out. -/
structure Reliable (calls : Calls σ) : Prop where
  read : ∀ path s content, view.stat s path = some (.file content) →
    wp (calls.read path) (fun _ _ => True) (fun _ _ => False) s
  write : ∀ path content s earlier, view.stat s path = some (.file earlier) →
    wp (calls.write path content) (fun _ _ => True) (fun _ _ => False) s
  copystat : ∀ src dst s, wp (calls.copystat src dst) (fun _ _ => True) (fun _ _ => False) s
  remove : ∀ path s content, view.stat s path = some (.file content) →
    wp (calls.remove path) (fun _ _ => True) (fun _ _ => False) s

variable {view}

theorem Kept.refl (s : σ) : Kept view s s := ⟨fun _ _ h => h, fun _ _ _ _ => rfl⟩

theorem Kept.trans {s₁ s₂ s₃ : σ} (h₁ : Kept view s₁ s₂) (h₂ : Kept view s₂ s₃) : Kept view s₁ s₃ where
  stat path entry h := h₂.stat path entry (h₁.stat path entry h)
  sameFile p q hp hq := by
    obtain ⟨entry, hentry⟩ := Option.ne_none_iff_exists'.mp hp
    obtain ⟨other, hother⟩ := Option.ne_none_iff_exists'.mp hq
    rw [h₂.sameFile p q (by rw [h₁.stat p entry hentry]; exact nofun) (by rw [h₁.stat q other hother]; exact nofun),
      h₁.sameFile p q hp hq]

theorem Unseen.refl (s : σ) : Unseen view s s := ⟨rfl, rfl⟩

theorem Unseen.beside {s s' : σ} (h : Unseen view s s') (path : Path) : Beside view path s s' where
  directory p hp := by rwa [h.stat]
  file p content hp hsame := by
    rw [h.stat, h.sameFile]
    exact ⟨hp, hsame⟩

theorem Beside.trans {path : Path} {s₁ s₂ s₃ : σ} (h₁ : Beside view path s₁ s₂) (h₂ : Beside view path s₂ s₃) :
    Beside view path s₁ s₃ where
  directory p hp := h₂.directory p (h₁.directory p hp)
  file p content hp hsame := by
    obtain ⟨hp', hsame'⟩ := h₁.file p content hp hsame
    exact h₂.file p content hp' hsame'

end

/-! ## `os.makedirs` and `shutil.copy2` -/

section
variable (view : View σ) (calls : Calls σ)

/-- The head and the tail of a name, which may end in a slash. -/
def splitName (name : Path) : Path × Path :=
  if (split name).2 = [] then split (split name).1 else split name

theorem length_splitName {name : Path} (h : (splitName name).2 ≠ []) : (splitName name).1.length < name.length := by
  have hsplit (path : Path) (hne : (split path).2 ≠ []) : (split path).1.length < path.length := by
    have hle := length_dirname_le path
    have hlen := length_split path
    have hpos : 0 < (basename path).length := List.length_pos_iff.mpr hne
    unfold dirname at hle
    omega
  unfold splitName at h ⊢
  by_cases hslash : (split name).2 = []
  · rw [if_pos hslash] at h ⊢
    have hle := length_dirname_le name
    have hlen := length_split name
    have hlt := hsplit _ h
    unfold dirname at hle
    omega
  · rw [if_neg hslash]
    exact hsplit name hslash

/-- The last step: the directory itself. -/
def mkdirOk (existOk : Bool) (name : Path) : EStateM OSError σ Unit :=
  tryCatch (calls.mkdir name) fun e => do
    let s ← get
    if existOk = false ∨ view.isdir s name = false then throw e else pure ()

def makedirs (existOk : Bool) (name : Path) : EStateM OSError σ Unit := do
  let s ← get
  if _h : (splitName name).1 ≠ [] ∧ (splitName name).2 ≠ [] ∧ view.exist s (splitName name).1 = false then
    tryCatch (makedirs existOk (splitName name).1) fun e =>
      match e with
      | .fileExists _ => pure ()
      | .other text => throw (.other text)
    if (splitName name).2 = ['.'] then pure () else mkdirOk view calls existOk name
  else mkdirOk view calls existOk name
termination_by name.length
decreasing_by exact length_splitName _h.2.1

/-- Where `copy2` copies to. -/
def destination (s : σ) (src dst : Path) : Path := if view.isdir s dst then join dst (basename src) else dst

def copy2 (src dst : Path) : EStateM OSError σ Unit := do
  let s ← get
  let dst := destination view s src dst
  if view.sameFile s src dst = true then throw (.other (String.ofList src ++ " and " ++ String.ofList dst ++
    " are the same file"))
  else do
    let content ← calls.read src
    calls.write dst content
    calls.copystat src dst

end

section
variable {view : View σ} {calls : Calls σ}

theorem wp_mkdirOk (hcalls : Lawful view calls) (existOk : Bool) (name : Path) (s : σ) :
    wp (mkdirOk view calls existOk name) (fun _ => Kept view s) (fun _ => Kept view s) s := by
  unfold mkdirOk
  rw [wp_tryCatch]
  refine wp_mono (hcalls.mkdir name s) (fun _ _ h => h) fun e s' h => ?_
  simp only [wp_bind, wp_get, wp_ite, wp_throw, wp_pure]
  exact ⟨fun _ => h, fun _ => h⟩

/-- `makedirs` takes nothing away. -/
theorem wp_makedirs (hcalls : Lawful view calls) (existOk : Bool) (name : Path) (s : σ) :
    wp (makedirs view calls existOk name) (fun _ => Kept view s) (fun _ => Kept view s) s := by
  induction hlen : name.length using Nat.strong_induction_on generalizing name s with
  | _ n ih =>
    rw [makedirs, wp_bind, wp_get, wp_dite]
    refine ⟨fun h => ?_, fun _ => wp_mkdirOk hcalls existOk name s⟩
    have hhead := ih _ (hlen ▸ length_splitName h.2.1) (splitName name).1 s rfl
    have hlast (s' : σ) (hs' : Kept view s s') :
        wp (if (splitName name).2 = ['.'] then pure () else mkdirOk view calls existOk name) (fun _ => Kept view s)
          (fun _ => Kept view s) s' := by
      rw [wp_ite, wp_pure]
      refine ⟨fun _ => hs', fun _ => ?_⟩
      exact wp_mono (wp_mkdirOk hcalls existOk name s') (fun _ _ => hs'.trans) fun _ _ => hs'.trans
    rw [wp_bind, wp_tryCatch]
    refine wp_mono hhead (fun _ s' hs' => hlast s' hs') fun e s' hs' => ?_
    cases e with
    | fileExists text => exact hlast s' hs'
    | other text => exact hs'

/-- What `copy2` comes to: no file is touched but the destination, and the source keeps its content. -/
theorem wp_copy2 (hcalls : Lawful view calls) (src dst : Path) (s : σ) :
    wp (copy2 view calls src dst)
      (fun _ s' => Beside view (destination view s src dst) s s' ∧ ∃ content, view.stat s src = some (.file content) ∧
        view.stat s' src = some (.file content) ∧ view.sameFile s' src (destination view s src dst) = false ∧
        view.stat s' (destination view s src dst) = some (.file content))
      (fun _ s' => Beside view (destination view s src dst) s s' ∧
        (∀ content, view.stat s src = some (.file content) → view.stat s' src = some (.file content)) ∧
        (view.stat s' (destination view s src dst) = view.stat s (destination view s src dst) ∨
          ∃ partly, view.stat s' (destination view s src dst) = some (.file partly))) s := by
  unfold copy2
  rw [wp_bind, wp_get]
  dsimp only
  generalize destination view s src dst = d
  rw [wp_ite]
  refine ⟨fun _ => ⟨(Unseen.refl s).beside d, fun _ h => h, .inl rfl⟩, fun hsame => ?_⟩
  have hsame : view.sameFile s src d = false := Bool.eq_false_of_not_eq_true hsame
  rw [wp_bind]
  refine wp_mono (hcalls.read src s) (fun content s₁ hread => ?_) fun _ s₁ hs₁ => ?_
  swap
  · exact ⟨hs₁.beside d, fun content h => by rwa [hs₁.stat], .inl (by rw [hs₁.stat])⟩
  obtain ⟨hs₁, hsrc⟩ := hread
  have hbeside := hs₁.beside d
  rw [wp_bind]
  refine wp_mono (hcalls.write d content s₁) (fun _ s₂ hwrite => ?_) fun _ s₂ hwrite => ?_
  · obtain ⟨hs₂, hdst⟩ := hwrite
    obtain ⟨hsrc₂, hsame₂⟩ := (hbeside.trans hs₂).file src content hsrc hsame
    refine wp_mono (hcalls.copystat src d s₂) (fun _ s₃ hs₃ => ?_) fun _ s₃ hs₃ => ?_
    · refine ⟨(hbeside.trans hs₂).trans (hs₃.beside d), content, hsrc, ?_, ?_, ?_⟩
      · rwa [hs₃.stat]
      · rwa [hs₃.sameFile]
      · rwa [hs₃.stat]
    · refine ⟨(hbeside.trans hs₂).trans (hs₃.beside d), fun content' h => ?_, .inr ⟨content, ?_⟩⟩
      · obtain rfl := Entry.file.inj (Option.some.inj (hsrc.symm.trans h))
        rwa [hs₃.stat]
      · rwa [hs₃.stat]
  · obtain ⟨hs₂, hdst⟩ := hwrite
    refine ⟨hbeside.trans hs₂, fun content' h => ((hbeside.trans hs₂).file src content' h hsame).1, ?_⟩
    rwa [hs₁.stat] at hdst

/-- Onto a file, reliable calls copy. -/
theorem wp_copy2_reliable (hcalls : Lawful view calls) (hreliable : Reliable view calls) {src dst : Path} {s : σ}
    {content earlier : List UInt8} (hsrc : view.stat s src = some (.file content))
    (hdst : view.stat s dst = some (.file earlier)) (hsame : view.sameFile s src dst = false) :
    wp (copy2 view calls src dst) (fun _ s' => view.stat s' dst = some (.file content)) (fun _ _ => False) s := by
  have hd : destination view s src dst = dst := by
    unfold destination View.isdir
    rw [hdst]
    rfl
  unfold copy2
  rw [wp_bind, wp_get]
  dsimp only
  rw [hd, hsame, if_neg nofun, wp_bind]
  refine wp_mono (wp_and (hcalls.read src s) (hreliable.read src s content hsrc)) (fun content' s₁ h => ?_)
    fun _ _ h => h.2
  obtain ⟨⟨hs₁, hread⟩, -⟩ := h
  obtain rfl := Entry.file.inj (Option.some.inj (hsrc.symm.trans hread))
  rw [← hs₁.stat] at hdst
  rw [wp_bind]
  refine wp_mono (wp_and (hcalls.write dst content s₁) (hreliable.write dst content s₁ earlier hdst))
    (fun _ s₂ h => ?_) fun _ _ h => h.2
  refine wp_mono (wp_and (hcalls.copystat src dst s₂) (hreliable.copystat src dst s₂)) (fun _ s₃ h' => ?_)
    fun _ _ h => h.2
  rw [h'.1.stat]
  exact h.1.2

/-- A name without a directory in front is made at once. -/
theorem makedirs_of_name {existOk : Bool} {name : Path} (h : (splitName name).1 = []) :
    makedirs view calls existOk name = mkdirOk view calls existOk name := by
  rw [makedirs]
  simp only [h, ne_eq, not_true_eq_false, false_and, dite_false]
  rfl

end

/-! ## A disk without links -/

/-- Files and directories by their names. -/
abbrev Disk := Path → Option Entry

namespace Disk

def view : View Disk := ⟨id, fun d p q => decide (p = q) && (d p).isSome⟩

/-- There is no directory for the path. -/
def Homeless (d : Disk) (path : Path) : Prop := dirname path ≠ [] ∧ d (dirname path) ≠ some .directory

instance (d : Disk) (path : Path) : Decidable (Homeless d path) := inferInstanceAs (Decidable (_ ∧ _))

def calls : Calls Disk where
  mkdir path d :=
    if d path ≠ none then .error (.fileExists "File exists") d
    else if Homeless d path then .error (.other "No such file or directory") d
    else .ok () (Function.update d path (some .directory))
  read path d := match d path with
    | some (.file content) => .ok content d
    | some .directory => .error (.other "Is a directory") d
    | none => .error (.other "No such file or directory") d
  getsize path d := match d path with
    | some (.file content) => .ok content.length d
    | some .directory => .ok 4096 d
    | none => .error (.other "No such file or directory") d
  write path content d :=
    if d path = some .directory then .error (.other "Is a directory") d
    else if d path = none ∧ Homeless d path then .error (.other "No such file or directory") d
    else .ok () (Function.update d path (some (.file content)))
  copystat _ _ d := .ok () d
  remove path d := match d path with
    | some (.file _) => .ok () (Function.update d path none)
    | some .directory => .error (.other "Is a directory") d
    | none => .error (.other "No such file or directory") d

theorem sameFile_eq_false {d : Disk} {p q : Path} (hp : d p ≠ none) : view.sameFile d p q = false ↔ p ≠ q := by
  have hsome : (d p).isSome = true := Option.isSome_iff_ne_none.mpr hp
  simp [view, hsome]

theorem lawful : Lawful view calls where
  symm d p q := by
    by_cases h : p = q
    · rw [h]
    · simp [view, h, Ne.symm h]
  mkdir path d := by
    unfold wp calls
    dsimp only [EStateM.run]
    by_cases habsent : d path ≠ none
    · rw [if_pos habsent]
      exact Kept.refl d
    by_cases hhome : Homeless d path
    · rw [if_neg habsent, if_pos hhome]
      exact Kept.refl d
    rw [if_neg habsent, if_neg hhome]
    have hother {p : Path} (hp : d p ≠ none) : Function.update d path (some .directory) p = d p := by
      refine Function.update_of_ne ?_ ..
      rintro rfl
      exact habsent hp
    refine ⟨fun p entry hp => ?_, fun p q hp hq => ?_⟩
    · exact (hother (by rw [show d p = some entry from hp]; exact nofun)).trans hp
    · show (decide (p = q) && (Function.update d path (some .directory) p).isSome) = _
      rw [hother hp]
      rfl
  read path d := by
    unfold wp calls
    dsimp only [EStateM.run]
    split <;> rename_i h <;> split at h <;> cases h
    · rename_i hfile
      exact ⟨Unseen.refl d, hfile⟩
    · exact Unseen.refl d
    · exact Unseen.refl d
  getsize path d := by
    unfold wp calls
    dsimp only [EStateM.run]
    split <;> rename_i h <;> split at h <;> cases h <;> exact Unseen.refl d
  write path content d := by
    unfold wp calls
    dsimp only [EStateM.run]
    by_cases hdir : d path = some .directory
    · rw [if_pos hdir]
      exact ⟨(Unseen.refl d).beside path, .inl rfl⟩
    by_cases hhome : d path = none ∧ Homeless d path
    · rw [if_neg hdir, if_pos hhome]
      exact ⟨(Unseen.refl d).beside path, .inl rfl⟩
    rw [if_neg hdir, if_neg hhome]
    refine ⟨⟨fun p hp => ?_, fun p content' hp hsame => ?_⟩, Function.update_self ..⟩
    · have hne : p ≠ path := by
        rintro rfl
        exact hdir hp
      exact (Function.update_of_ne hne ..).trans hp
    · have hsome : d p ≠ none := by
        rw [show d p = some (.file content') from hp]
        exact nofun
      have hne := (sameFile_eq_false hsome).mp hsame
      have hstat : Function.update d path (some (.file content)) p = d p := Function.update_of_ne hne ..
      exact ⟨hstat.trans hp, (sameFile_eq_false (hstat ▸ hsome)).mpr hne⟩
  copystat _ _ d := Unseen.refl d
  remove path d content hfile := by
    unfold wp calls
    dsimp only [EStateM.run]
    rw [show d path = some (.file content) from hfile]
    exact Function.update_self ..

theorem reliable : Reliable view calls where
  read path d content hfile := by
    unfold wp calls
    dsimp only [EStateM.run]
    rw [show d path = some (.file content) from hfile]
    trivial
  write path content d earlier hfile := by
    unfold wp calls
    dsimp only [EStateM.run]
    rw [show d path = some (.file earlier) from hfile, if_neg nofun, if_neg fun h => nomatch h.1]
    trivial
  copystat _ _ _ := trivial
  remove path d content hfile := by
    unfold wp calls
    dsimp only [EStateM.run]
    rw [show d path = some (.file content) from hfile]
    trivial

end Disk

end Files
