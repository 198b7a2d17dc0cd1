import Atlas.Lib.Files

/-!
# Where a path leads

* `IsName` : a component that is an entry of a directory; `enter`, `walk` : the way along a path, from a directory that
  is given by the names on the way to it; `walk_join` : a path behind another one;
* `location` : the names on the way to a path, those of its `abspath`; `location_eq`, `location_join`;
* `Plain` : a path of names only; `walk_plain`, `walk_inj` : where it leads;
* `below` : a place, as it is named from a directory above it; `relpath_eq`, `relpath_join` : by `os.path.relpath`.
-/

namespace Files

/-! ## Along a path -/

def IsName (component : Path) : Prop :=
  component ≠ [] ∧ component ≠ ['.'] ∧ component ≠ ['.', '.'] ∧ '/' ∉ component

instance (component : Path) : Decidable (IsName component) := inferInstanceAs (Decidable (_ ∧ _))

def enter (directory : List Path) (component : Path) : List Path :=
  if component = [] ∨ component = ['.'] then directory
  else if component = ['.', '.'] then directory.dropLast
  else directory ++ [component]

def walk (directory : List Path) (path : Path) : List Path :=
  (path.splitOn '/').foldl enter (if path.head? = some '/' then [] else directory)

theorem not_mem_of_mem_splitOn {path component : Path} (h : component ∈ path.splitOn '/') : '/' ∉ component := by
  induction path generalizing component with
  | nil =>
    rw [List.splitOn_nil, List.mem_singleton] at h
    rw [h]
    exact List.not_mem_nil
  | cons c path ih =>
    rw [List.splitOn_cons_eq_if_modifyHead] at h
    obtain ⟨first, rest, hsplit⟩ := List.exists_cons_of_ne_nil (List.splitOn_ne_nil '/' path)
    rw [hsplit] at h ih
    split_ifs at h with hc
    · rcases List.mem_cons.mp h with rfl | h
      · exact List.not_mem_nil
      · exact ih h
    · rcases List.mem_cons.mp h with rfl | h
      · intro hmem
        rcases List.mem_cons.mp hmem with rfl | hmem
        · exact hc (beq_self_eq_true _)
        · exact ih List.mem_cons_self hmem
      · exact ih (List.mem_cons_of_mem _ h)

theorem splitOn_append_of_notMem {front : Path} (h : '/' ∉ front) (path : Path) :
    (front ++ path).splitOn '/' = (path.splitOn '/').modifyHead (front ++ ·) := by
  obtain ⟨first, rest, hsplit⟩ := List.exists_cons_of_ne_nil (List.splitOn_ne_nil '/' path)
  rw [hsplit]
  induction front with
  | nil => exact hsplit
  | cons c front ih =>
    rw [List.mem_cons, not_or] at h
    rw [List.cons_append, List.splitOn_cons_eq_if_modifyHead, ih h.2, if_neg (by simpa using Ne.symm h.1)]
    rfl

theorem enter_name {component : Path} (h : IsName component) (directory : List Path) :
    enter directory component = directory ++ [component] := by
  unfold enter
  rw [if_neg (not_or.mpr ⟨h.1, h.2.1⟩), if_neg h.2.2.1]

theorem foldl_enter_names {names : List Path} (h : ∀ n ∈ names, IsName n) (directory : List Path) :
    names.foldl enter directory = directory ++ names := by
  induction names generalizing directory with
  | nil => rw [List.foldl_nil, List.append_nil]
  | cons n names ih =>
    obtain ⟨hn, hnames⟩ := List.forall_mem_cons.mp h
    rw [List.foldl_cons, enter_name hn, ih hnames, List.append_assoc, List.singleton_append]

theorem isName_of_mem_enter {directory : List Path} (h : ∀ n ∈ directory, IsName n) {component : Path}
    (hcomponent : '/' ∉ component) : ∀ n ∈ enter directory component, IsName n := by
  unfold enter
  split_ifs with hstay hup
  · exact h
  · exact fun n hn => h n (List.mem_of_mem_dropLast hn)
  · rw [not_or] at hstay
    exact List.forall_mem_append.mpr ⟨h, List.forall_mem_singleton.mpr ⟨hstay.1, hstay.2, hup, hcomponent⟩⟩

theorem isName_of_mem_foldl {components directory : List Path} (h : ∀ n ∈ directory, IsName n)
    (hcomponents : ∀ c ∈ components, '/' ∉ c) : ∀ n ∈ components.foldl enter directory, IsName n := by
  induction components generalizing directory with
  | nil => exact h
  | cons c components ih =>
    obtain ⟨hc, hrest⟩ := List.forall_mem_cons.mp hcomponents
    exact ih (isName_of_mem_enter h hc) hrest

theorem isName_of_mem_walk {directory : List Path} (h : ∀ n ∈ directory, IsName n) (path : Path) :
    ∀ n ∈ walk directory path, IsName n := by
  apply isName_of_mem_foldl _ fun _ => not_mem_of_mem_splitOn
  split_ifs
  · exact List.forall_mem_nil _
  · exact h

theorem foldl_enter_join (directory : List Path) (a : Path) {b : Path} (hb : b.head? ≠ some '/') :
    ((join a b).splitOn '/').foldl enter directory =
      (b.splitOn '/').foldl enter ((a.splitOn '/').foldl enter directory) := by
  unfold join
  rw [if_neg hb]
  split_ifs with ha
  · rcases ha with rfl | ha
    · rfl
    · obtain ⟨front, rfl⟩ := List.getLast?_eq_some_iff.mp ha
      rw [List.append_assoc, List.singleton_append, List.splitOn_append_cons_self, List.splitOn_append_cons_self,
        List.foldl_append, List.foldl_append]
      rfl
  · rw [List.splitOn_append_cons_self, List.foldl_append]

theorem walk_join (directory : List Path) (a b : Path) : walk directory (join a b) = walk (walk directory a) b := by
  by_cases hb : b.head? = some '/'
  · have hjoin : join a b = b := if_pos hb
    rw [hjoin]
    unfold walk
    rw [if_pos hb, if_pos hb]
  · unfold walk
    rw [foldl_enter_join _ a hb, if_neg hb]
    congr 2
    unfold join
    rw [if_neg hb]
    cases a with
    | nil => simp [hb]
    | cons c a => split_ifs <;> simp_all

/-- A file leads on from where its directory does. -/
theorem exists_walk_extension (directory : List Path) (name : Path) {extension : Path} (hslash : '/' ∉ extension)
    (hlength : 2 ≤ extension.length) :
    ∃ front base, walk directory (name ++ '.' :: extension) = front ++ [base ++ '.' :: extension] := by
  have hdot : '/' ∉ '.' :: extension := by simpa using hslash
  have hsplit : ∃ front base, (name ++ '.' :: extension).splitOn '/' = front ++ [base ++ '.' :: extension] := by
    induction name with
    | nil => exact ⟨[], [], List.splitOn_eq_singleton hdot⟩
    | cons c name ih =>
      obtain ⟨front, base, heq⟩ := ih
      rw [List.cons_append, List.splitOn_cons_eq_if_modifyHead, heq]
      split_ifs
      · exact ⟨[] :: front, base, rfl⟩
      · cases front with
        | nil => exact ⟨[], c :: base, rfl⟩
        | cons first front => exact ⟨(c :: first) :: front, base, rfl⟩
  obtain ⟨front, base, heq⟩ := hsplit
  have hlong : 3 ≤ (base ++ '.' :: extension).length := by
    rw [List.length_append, List.length_cons]
    omega
  have hshort {component : Path} (h : component.length < 3) : base ++ '.' :: extension ≠ component := by
    rintro rfl
    omega
  have henter (d : List Path) : enter d (base ++ '.' :: extension) = d ++ [base ++ '.' :: extension] := by
    unfold enter
    rw [if_neg (not_or.mpr ⟨hshort (by decide), hshort (by decide)⟩), if_neg (hshort (by decide))]
  unfold walk
  rw [heq, List.foldl_append, List.foldl_cons, List.foldl_nil, henter]
  exact ⟨_, base, rfl⟩

/-! ## The way from the root -/

def components (path : Path) : List Path := (path.splitOn '/').filter (· ≠ [])

/-- The names on the way from the root to where a path leads, were there no links. -/
def location (cwd path : Path) : List Path := components (abspath cwd path)

theorem foldl_normalize (components directory : List Path) (h : ['.', '.'] ∉ directory) :
    components.foldl (fun done component =>
      if component = [] ∨ component = ['.'] then done
      else if component ≠ ['.', '.'] ∨ (true = false ∧ done = []) ∨ done.head? = some ['.', '.'] then
        component :: done
      else done.tail) directory.reverse = (components.foldl enter directory).reverse := by
  induction components generalizing directory with
  | nil => rfl
  | cons c components ih =>
    have hhead : directory.reverse.head? ≠ some ['.', '.'] := by
      intro hhead
      exact h (List.mem_reverse.mp (List.mem_of_head? hhead))
    rw [List.foldl_cons, List.foldl_cons, enter]
    by_cases hstay : c = [] ∨ c = ['.']
    · rw [if_pos hstay, if_pos hstay]
      exact ih directory h
    rw [if_neg hstay, if_neg hstay]
    by_cases hup : c = ['.', '.']
    · have hnot : ¬ (c ≠ ['.', '.'] ∨ (true = false ∧ directory.reverse = []) ∨
          directory.reverse.head? = some ['.', '.']) :=
        not_or.mpr ⟨not_not_intro hup, not_or.mpr ⟨nofun, hhead⟩⟩
      rw [if_neg hnot, if_pos hup, List.tail_reverse]
      exact ih _ fun hmem => h (List.mem_of_mem_dropLast hmem)
    · rw [if_pos (Or.inl hup), if_neg hup, ← List.reverse_concat]
      refine ih _ fun hmem => ?_
      rcases List.mem_append.mp hmem with hmem | hmem
      · exact h hmem
      · exact hup (List.mem_singleton.mp hmem).symm

theorem normalize_eq (components : List Path) :
    (normalize true components).reverse = components.foldl enter [] :=
  (congrArg List.reverse (foldl_normalize components [] List.not_mem_nil)).trans (List.reverse_reverse _)

theorem components_slashes {slashes : Path} (h : ∀ c ∈ slashes, c = '/') (path : Path) :
    components (slashes ++ path) = components path := by
  induction slashes with
  | nil => rfl
  | cons c slashes ih =>
    obtain ⟨rfl, hrest⟩ := List.forall_mem_cons.mp h
    rw [← ih hrest, List.cons_append, components, components, List.splitOn_cons_eq_if_modifyHead]
    rfl

theorem components_intercalate {names : List Path} (h : ∀ n ∈ names, IsName n) :
    components (['/'].intercalate names) = names := by
  unfold components
  by_cases hnil : names = []
  · rw [hnil]
    rfl
  · rw [List.splitOn_intercalate '/' (fun n hn => (h n hn).2.2.2) hnil, List.filter_eq_self]
    exact fun n hn => decide_eq_true (h n hn).1

theorem components_normpath {path : Path} (h : path.head? = some '/') : components (normpath path) = walk [] path := by
  unfold normpath
  dsimp only
  generalize hslashes : path.takeWhile (· = '/') = slashes
  have hall : ∀ c ∈ slashes, c = '/' := by
    intro c hc
    rw [← hslashes] at hc
    simpa using List.mem_takeWhile_imp hc
  have hne : slashes ≠ [] := by
    cases path with
    | nil => cases h
    | cons c path =>
      obtain rfl := Option.some.inj h
      rw [← hslashes]
      simp
  generalize hstart : (if slashes.length = 2 then slashes else slashes.take 1) = start
  have hstart' : start ≠ [] ∧ ∀ c ∈ start, c = '/' := by
    rw [← hstart]
    split_ifs
    · exact ⟨hne, hall⟩
    · exact ⟨by simpa using hne, fun c hc => hall c (List.mem_of_mem_take hc)⟩
  have hnames : ∀ n ∈ (path.splitOn '/').foldl enter [], IsName n :=
    isName_of_mem_foldl (List.forall_mem_nil _) fun _ => not_mem_of_mem_splitOn
  rw [decide_eq_true hstart'.1, normalize_eq, if_neg (by simp [hstart'.1]), components_slashes hstart'.2,
    components_intercalate hnames, walk, if_pos h]

section
variable (dir : Path)

theorem abspath_eq (path : Path) : abspath ('/' :: dir) path = normpath (join ('/' :: dir) path) := by
  unfold abspath join
  split_ifs <;> rfl

theorem location_eq (path : Path) : location ('/' :: dir) path = walk (walk [] ('/' :: dir)) path := by
  have habsolute : (join ('/' :: dir) path).head? = some '/' := by
    unfold join
    split_ifs with h
    · exact h
    · rfl
    · rfl
  rw [location, abspath_eq, components_normpath habsolute, walk_join]

theorem location_join (a b : Path) : location ('/' :: dir) (join a b) = walk (location ('/' :: dir) a) b := by
  rw [location_eq, location_eq, walk_join]

theorem isName_of_mem_location (path : Path) : ∀ n ∈ location ('/' :: dir) path, IsName n := by
  rw [location_eq]
  exact isName_of_mem_walk (isName_of_mem_walk (List.forall_mem_nil _) _) path

end

/-! ## Plain paths -/

def Plain (path : Path) : Prop := ∀ component ∈ path.splitOn '/', IsName component

theorem plain_intercalate {names : List Path} (h : ∀ n ∈ names, IsName n) (hne : names ≠ []) :
    Plain (['/'].intercalate names) ∧ (['/'].intercalate names).splitOn '/' = names := by
  have hsplit := List.splitOn_intercalate '/' (fun n hn => (h n hn).2.2.2) hne
  unfold Plain
  rw [hsplit]
  exact ⟨h, rfl⟩

theorem plain_of_isName {name : Path} (h : IsName name) : Plain name := by
  unfold Plain
  rw [List.splitOn_eq_singleton h.2.2.2]
  exact List.forall_mem_singleton.mpr h

theorem walk_plain {path : Path} (h : Plain path) (directory : List Path) :
    walk directory path = directory ++ path.splitOn '/' := by
  have hrelative : path.head? ≠ some '/' := by
    cases path with
    | nil => exact nofun
    | cons c path =>
      intro hc
      obtain rfl := Option.some.inj hc
      have hempty : ([] : Path) ∈ ('/' :: path).splitOn '/' := by
        rw [List.splitOn_cons_eq_if_modifyHead]
        exact List.mem_cons_self
      exact (h [] hempty).1 rfl
  rw [walk, if_neg hrelative, foldl_enter_names h]

theorem walk_inj {directory : List Path} {a b : Path} (ha : Plain a) (hb : Plain b)
    (h : walk directory a = walk directory b) : a = b := by
  rw [walk_plain ha, walk_plain hb] at h
  have hjoined : ['/'].intercalate (a.splitOn '/') = ['/'].intercalate (b.splitOn '/') := by
    rw [List.append_cancel_left h]
  rwa [List.intercalate_splitOn, List.intercalate_splitOn] at hjoined

/-- A place below the directory, as it is named from there; absent for any other place. -/
def below (directory place : List Path) : Option Path :=
  if directory <+: place ∧ place ≠ directory then some (['/'].intercalate (place.drop directory.length)) else none

theorem below_eq_some_iff {directory place : List Path} {path : Path} : below directory place = some path ↔
    ∃ names, names ≠ [] ∧ place = directory ++ names ∧ path = ['/'].intercalate names := by
  unfold below
  constructor
  · intro h
    split_ifs at h with hinside
    obtain ⟨⟨names, rfl⟩, hne⟩ := hinside
    rw [List.drop_left] at h
    exact ⟨names, by simpa using hne, rfl, (Option.some.inj h).symm⟩
  · rintro ⟨names, hne, rfl, rfl⟩
    rw [if_pos ⟨List.prefix_append _ _, by simpa using hne⟩, List.drop_left]

theorem relpath_eq {cwd path start : Path} {file : Path}
    (h : below (location cwd start) (location cwd path) = some file) : relpath cwd path start = file := by
  obtain ⟨names, hne, hplace, rfl⟩ := below_eq_some_iff.mp h
  have hcommon (directory : List Path) :
      ((directory.zip (directory ++ names)).takeWhile fun pair => pair.1 = pair.2).length = directory.length := by
    induction directory with
    | nil => rfl
    | cons n directory ih => simpa using ih
  have hpath : ((abspath cwd path).splitOn '/').filter (· ≠ []) = location cwd start ++ names := hplace
  have hstart : ((abspath cwd start).splitOn '/').filter (· ≠ []) = location cwd start := rfl
  unfold relpath
  simp only [hpath, hstart, hcommon, Nat.sub_self, List.drop_left, List.replicate_zero, List.nil_append, if_neg hne]

theorem relpath_join (dir start : Path) {file : Path} (h : Plain file) :
    relpath ('/' :: dir) (join start file) start = file := by
  apply relpath_eq
  rw [location_join, walk_plain h, below_eq_some_iff]
  exact ⟨_, List.splitOn_ne_nil '/' file, rfl, (List.intercalate_splitOn '/').symm⟩

end Files
