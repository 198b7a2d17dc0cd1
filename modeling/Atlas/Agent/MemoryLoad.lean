import Atlas.Agent.MemoryFile
import Atlas.Lib.PyLoads

/-!
# What the generator's memory makes of a file

Any bytes as `portable_memory.jsonl`, with all that `json.loads` makes of a line.

* `fromJsonl`, `loadLine`, `load` : `Experience.from_jsonl`, a turn of the loop of `_load`, and `_load`;
* `isRecord` : an experience whose fields have the types of their classes; `Indexes` : what `_load` owes to a file;
* `Wanting`, `Complete`, `Passable` : a line that is skipped or indexed; `loadLine_of_passable`,
  `loadLine_of_not_passable` : what the loop makes of a line;
* `indexes_iff` : when `_load` pays what it owes.
-/

namespace Atlas.Agent.Memory.Loading
open Py
open PyJson (PyStr pyStr)

/-- What a value is as a key of a dict or in a set. -/
inductive HashKey
  | none
  | number (x : WithBot (WithTop ℚ))
  | nan
  | str (s : PyStr)
  deriving DecidableEq

/-- `_load` catches the first two. -/
inductive Raised
  | decodeError
  | keyError (name : String)
  | typeError
  | recursionError
  | valueError
  | unicodeDecodeError
  deriving DecidableEq

/-- An `Experience` made of a line: the class checks the type of no field. The fields of `source`, `method`, `artifact`
and `outcome` stand in the order of their classes. -/
structure Experience where
  id : Object
  ts : Object
  type : Object
  source : List Object
  method : List Object
  artifact : List Object
  outcome : List Object
  antiPatterns : Object
  tags : Object

/-! ## `from_jsonl` -/

def loadsLine (limits : Limits) (line : List Char) : Except Raised Object :=
  match Py.loads limits (line.map Char.toNat) with
  | .ok v => .ok v
  | .error .decode => .error .decodeError
  | .error .recursion => .error .recursionError
  | .error .digits => .error .valueError

/-- `data[name]` -/
def item (data : Object) (name : String) : Except Raised Object :=
  match data with
  | .dict items => (Py.lookup items name).elim (.error (.keyError name)) .ok
  | _ => .error .typeError

/-- `cls(**data)`, for a class whose fields have no defaults. -/
def construct (fields : List String) (data : Object) : Except Raised (List Object) :=
  match data with
  | .dict items =>
    if items.all fun entry => entry.1 ∈ fields.map pyStr then
      (fields.mapM fun field => Py.lookup items field).elim (.error .typeError) .ok
    else .error .typeError
  | _ => .error .typeError

/-- `data.get(name, [])` -/
def itemOrEmpty (data : Object) (name : String) : Object :=
  match data with
  | .dict items => (Py.lookup items name).getD (.list [])
  | _ => .list []

def fromDict (data : Object) : Except Raised Experience := do
  let id ← item data "id"
  let ts ← item data "ts"
  let type ← item data "type"
  let source ← (item data "source").bind (construct sourceFields)
  let method ← (item data "method").bind (construct methodFields)
  let artifact ← (item data "artifact").bind (construct artifactFields)
  let outcome ← (item data "outcome").bind (construct outcomeFields)
  pure ⟨id, ts, type, source, method, artifact, outcome, itemOrEmpty data "anti_patterns", itemOrEmpty data "tags"⟩

def fromJsonl (limits : Limits) (line : List Char) : Except Raised Experience := (loadsLine limits line).bind fromDict

/-! ## `_load` -/

/-- Absent for a list and a dict, which have no hash. -/
def key? : Object → Option HashKey
  | .none => some .none
  | .str s => some (.str s)
  | .list _ => none
  | .dict _ => none
  | v => some (v.number?.elim .nan .number)

/-- What a loop over the value goes through; absent where a loop is a `TypeError`. -/
def iter? : Object → Option (List Object)
  | .str s => some (s.map fun c => .str [c])
  | .list items => some items
  | .dict items => some (items.map fun entry => .str entry.1)
  | _ => none

/-- `_index` and `_anti_patterns` behind `_load`. -/
structure LoadedMemory where
  index : Dict HashKey Experience
  antiPatterns : Finset HashKey

def LoadedMemory.empty : LoadedMemory := ⟨Dict.empty, ∅⟩

def hashed (v : Object) : Except Raised HashKey := (key? v).elim (.error .typeError) .ok

/-- What `set.update` adds to a set. -/
def hashedItems (v : Object) : Except Raised (List HashKey) :=
  (iter? v).elim (.error .typeError) fun items => items.mapM hashed

/-- `_index[exp.id] = exp` and `_anti_patterns.update(exp.anti_patterns)` -/
def LoadedMemory.add (memory : LoadedMemory) (exp : Experience) : Except Raised LoadedMemory := do
  let id ← hashed exp.id
  let patterns ← hashedItems exp.antiPatterns
  pure ⟨memory.index.set id exp, memory.antiPatterns ∪ patterns.toFinset⟩

/-- One turn of the loop. -/
def loadLine (limits : Limits) (memory : LoadedMemory) (line : List Char) : Except Raised LoadedMemory :=
  let line := PyText.strip PyText.isSpace line
  if line = [] then .ok memory
  else
    match fromJsonl limits line with
    | .ok exp => memory.add exp
    | .error .decodeError => .ok memory
    | .error (.keyError _) => .ok memory
    | .error e => .error e

/-- The text of a file that is opened without a `newline` argument. -/
def readText (file : List UInt8) : Except Raised (List Char) :=
  (Utf8.fromUtf8 file).elim (.error .unicodeDecodeError) fun text => .ok (universal text.toList)

/-- `_prune` : the file behind it. -/
def prune (file : List UInt8) : Except Raised (List UInt8) := do
  let lines := (PyText.strip PyText.isSpace (← readText file)).splitOn '\n'
  if lines.length ≤ maxEntries then pure file
  else pure (Utf8.encode (['\n'].intercalate (lines.drop (lines.length - maxEntries)) ++ ['\n']))

/-- The file that is read. -/
def pruned (file : List UInt8) : Except Raised (List UInt8) := if maxSize < file.length then prune file else pure file

/-- The lines that the loop goes through: those of the file behind `_prune`. -/
def readLines (file : List UInt8) : Except Raised (List (List Char)) := do
  let file ← pruned file
  return (← readText file).splitOn '\n'

/-- `_load`; the file is absent when there is none. -/
def load (limits : Limits) (file : Option (List UInt8)) : Except Raised LoadedMemory :=
  match file with
  | none => .ok .empty
  | some file => (readLines file).bind fun lines => lines.foldlM (loadLine limits) .empty

/-! ## Valid records -/

def isText (v : Object) : Bool := v.IsText

def isTexts : Object → Bool
  | .list items => items.all isText
  | _ => false

def isNumber : Object → Bool
  | .int _ => true
  | .float _ => true
  | _ => false

/-- One value for each type, and of that type. -/
def fits : List (Object → Bool) → List Object → Bool
  | [], [] => true
  | isType :: types, v :: values => isType v && fits types values
  | _, _ => false

/-- Every field has the type that its class declares. -/
def isRecord (exp : Experience) : Bool :=
  isText exp.id && isText exp.ts && isText exp.type && fits [isText, isText, isText] exp.source &&
    fits [isTexts, isNumber] exp.method && fits [isText, isText, isTexts] exp.artifact &&
    fits [isText, isText, isNumber] exp.outcome && isTexts exp.antiPatterns && isTexts exp.tags

/-- The experience of a line, under its id. -/
def record? (limits : Limits) (line : List Char) : Option (HashKey × Experience) :=
  match fromJsonl limits (PyText.strip PyText.isSpace line) with
  | .ok exp => (key? exp.id).map fun key => (key, exp)
  | .error _ => none

/-- The experiences of the lines, in their order. -/
def records (limits : Limits) (lines : List (List Char)) : List (HashKey × Experience) :=
  lines.filterMap (record? limits)

/-- `_load` returns, and has indexed the valid records of the lines, of those with one id the last. -/
def Indexes (limits : Limits) (file : List UInt8) : Prop :=
  ∃ lines memory, readLines file = .ok lines ∧ load limits (some file) = .ok memory ∧
    ∀ key, memory.index.get? key = ((records limits lines).filter fun r => isRecord r.2).reverse.lookup key

/-! ## Lines -/

/-- A dict with just these fields. -/
def HasFields (fields : List String) (v : Object) : Prop :=
  ∃ items, v = .dict items ∧ (∀ entry ∈ items, entry.1 ∈ fields.map pyStr) ∧
    ∀ field ∈ fields, ∃ w, Py.lookup items field = some w

/-- The keys that are looked up, one after the other, and what their values have to be. -/
def checks : List (String × (Object → Prop)) :=
  [("id", fun _ => True), ("ts", fun _ => True), ("type", fun _ => True), ("source", HasFields sourceFields),
    ("method", HasFields methodFields), ("artifact", HasFields artifactFields), ("outcome", HasFields outcomeFields)]

/-- The first key that is missing or has a wrong value is missing. -/
def Wanting (items : List (PyStr × Object)) : List (String × (Object → Prop)) → Prop
  | [] => False
  | check :: rest => Py.lookup items check.1 = none ∨
      (∃ v, Py.lookup items check.1 = some v ∧ check.2 v) ∧ Wanting items rest

def Complete (items : List (PyStr × Object)) (checks : List (String × (Object → Prop))) : Prop :=
  ∀ check ∈ checks, ∃ v, Py.lookup items check.1 = some v ∧ check.2 v

/-- What `set.update` takes. -/
def Patterns : Object → Prop
  | .str _ => True
  | .list items => ∀ v ∈ items, v.Hashable
  | .dict _ => True
  | _ => False

/-- The line is blank, no JSON, an object that wants a key, or one that can be indexed. -/
def Passable (limits : Limits) (line : List Char) : Prop :=
  let line := PyText.strip PyText.isSpace line
  line = [] ∨ Py.loads limits (line.map Char.toNat) = .error .decode ∨
    ∃ items, Py.loads limits (line.map Char.toNat) = .ok (.dict items) ∧
      (Wanting items checks ∨ Complete items checks ∧ (∀ id, Py.lookup items "id" = some id → id.Hashable) ∧
        Patterns ((Py.lookup items "anti_patterns").getD (.list [])))

/-! ### One key after the other -/

section
variable {α β : Type} {items : List (PyStr × Object)}

/-- How looking up the keys has ended. -/
inductive Outcome (items : List (PyStr × Object)) (checks : List (String × (Object → Prop))) :
    Except Raised α → Prop
  | wanting (name : String) : Wanting items checks → Outcome items checks (.error (.keyError name))
  | complete (a : α) : Complete items checks → Outcome items checks (.ok a)
  | wrong : ¬ Wanting items checks → ¬ Complete items checks → Outcome items checks (.error .typeError)

theorem not_wanting_of_complete {checks : List (String × (Object → Prop))} (h : Complete items checks) :
    ¬ Wanting items checks := by
  induction checks with
  | nil => exact id
  | cons check checks ih =>
    obtain ⟨⟨v, hv, -⟩, hrest⟩ := List.forall_mem_cons.mp h
    rintro (hnone | ⟨-, hwanting⟩)
    · rw [hv] at hnone
      cases hnone
    · exact ih hrest hwanting

theorem outcome_pure (a : α) : Outcome items [] (pure a : Except Raised α) := .complete a (List.forall_mem_nil _)

theorem outcome_bind {name : String} {check : Object → Prop} {rest : List (String × (Object → Prop))}
    {call : Except Raised α} {next : α → Except Raised β} (h : Outcome items [(name, check)] call)
    (hnext : ∀ a, Outcome items rest (next a)) : Outcome items ((name, check) :: rest) (call >>= next) := by
  cases h with
  | wanting missing hwanting =>
    refine .wanting missing (Or.inl ?_)
    exact hwanting.resolve_right fun h => h.2
  | complete a hcomplete =>
    have hfirst := List.forall_mem_singleton.mp hcomplete
    have hfound : Py.lookup items name ≠ none := by
      obtain ⟨v, hv, -⟩ := hfirst
      rw [hv]
      exact nofun
    have hwanting : Wanting items ((name, check) :: rest) ↔ Wanting items rest :=
      ⟨fun h => (h.resolve_left hfound).2, fun h => Or.inr ⟨hfirst, h⟩⟩
    have hall : Complete items ((name, check) :: rest) ↔ Complete items rest :=
      List.forall_mem_cons.trans (and_iff_right hfirst)
    show Outcome items ((name, check) :: rest) (next a)
    have hrest := hnext a
    generalize next a = outcome at hrest ⊢
    cases hrest with
    | wanting missing h => exact .wanting missing (hwanting.mpr h)
    | complete b h => exact .complete b (hall.mpr h)
    | wrong h h' => exact .wrong (mt hwanting.mp h) (mt hall.mp h')
  | wrong hwanting hcomplete =>
    refine .wrong (fun h => ?_) fun h => ?_
    · rcases h with h | h
      · exact hwanting (Or.inl h)
      · exact hcomplete (List.forall_mem_singleton.mpr h.1)
    · exact hcomplete (List.forall_mem_singleton.mpr (List.forall_mem_cons.mp h).1)

theorem item_dict (name : String) :
    item (.dict items) name = (Py.lookup items name).elim (.error (.keyError name)) .ok := rfl

theorem outcome_item (name : String) : Outcome items [(name, fun _ => True)] (item (.dict items) name) := by
  rw [item_dict]
  cases h : Py.lookup items name with
  | none => exact .wanting name (Or.inl h)
  | some v =>
    exact .complete v (List.forall_mem_singleton.mpr ⟨v, h, trivial⟩)

theorem mapM_eq_none_or {γ δ : Type} {f : γ → Option δ} {xs : List γ} :
    (xs.mapM f = none ∧ ∃ x ∈ xs, f x = none) ∨ ∃ ys, xs.mapM f = some ys ∧ ∀ x ∈ xs, ∃ y, f x = some y := by
  induction xs with
  | nil => exact Or.inr ⟨[], rfl, List.forall_mem_nil _⟩
  | cons x xs ih =>
    rw [List.mapM_cons]
    cases hx : f x with
    | none => exact Or.inl ⟨rfl, x, List.mem_cons_self, hx⟩
    | some y =>
      rcases ih with ⟨hnone, z, hz, hfz⟩ | ⟨ys, hys, hall⟩
      · rw [hnone]
        exact Or.inl ⟨rfl, z, List.mem_cons_of_mem _ hz, hfz⟩
      · rw [hys]
        exact Or.inr ⟨y :: ys, rfl, List.forall_mem_cons.mpr ⟨⟨y, hx⟩, hall⟩⟩

theorem construct_cases (fields : List String) (v : Object) :
    (HasFields fields v ∧ ∃ values, construct fields v = .ok values) ∨
      ¬ HasFields fields v ∧ construct fields v = .error .typeError := by
  cases v with
  | dict inner =>
    unfold construct
    dsimp only
    by_cases hknown : inner.all fun entry => entry.1 ∈ fields.map pyStr
    · have hkeys : ∀ entry ∈ inner, entry.1 ∈ fields.map pyStr := by simpa using hknown
      rw [if_pos hknown]
      rcases @mapM_eq_none_or _ _ (Py.lookup inner) fields with
        ⟨hnone, field, hfield, hmissing⟩ | ⟨values, hvalues, hall⟩
      · rw [hnone]
        refine Or.inr ⟨?_, rfl⟩
        rintro ⟨_, ⟨⟩, -, hfound⟩
        obtain ⟨w, hw⟩ := hfound field hfield
        rw [hmissing] at hw
        cases hw
      · rw [hvalues]
        exact Or.inl ⟨⟨inner, rfl, hkeys, hall⟩, values, rfl⟩
    · rw [if_neg hknown]
      refine Or.inr ⟨?_, rfl⟩
      rintro ⟨_, ⟨⟩, hkeys, -⟩
      exact hknown (by simpa using hkeys)
  | _ => exact Or.inr ⟨nofun, rfl⟩

theorem outcome_construct (name : String) (fields : List String) :
    Outcome items [(name, HasFields fields)] ((item (.dict items) name).bind (construct fields)) := by
  rw [item_dict]
  cases h : Py.lookup items name with
  | none => exact .wanting name (Or.inl h)
  | some v =>
    show Outcome items _ (construct fields v)
    have hother {w : Object} (hw : Py.lookup items name = some w) : w = v := Option.some.inj (hw.symm.trans h)
    rcases construct_cases fields v with ⟨hfields, values, hok⟩ | ⟨hfields, herror⟩
    · rw [hok]
      exact .complete values (List.forall_mem_singleton.mpr ⟨v, h, hfields⟩)
    · rw [herror]
      refine .wrong (fun hwanting => ?_) fun hcomplete => ?_
      · rcases hwanting with hnone | ⟨-, hfalse⟩
        · rw [h] at hnone
          cases hnone
        · exact hfalse
      · obtain ⟨w, hw, hcheck⟩ := List.forall_mem_singleton.mp hcomplete
        exact hfields (hother hw ▸ hcheck)

/-- An object is read, wants a key, or has a wrong value. -/
theorem outcome_fromDict : Outcome items checks (fromDict (.dict items)) :=
  outcome_bind (outcome_item _) fun _ => outcome_bind (outcome_item _) fun _ => outcome_bind (outcome_item _) fun _ =>
    outcome_bind (outcome_construct _ _) fun _ => outcome_bind (outcome_construct _ _) fun _ =>
    outcome_bind (outcome_construct _ _) fun _ => outcome_bind (outcome_construct _ _) fun _ => outcome_pure _

theorem fromDict_not_dict {v : Object} (h : ∀ items, v ≠ .dict items) : fromDict v = .error .typeError := by
  cases v with
  | dict items => exact absurd rfl (h items)
  | _ => rfl

theorem fromDict_eq_ok {exp : Experience} (h : fromDict (.dict items) = .ok exp) :
    Py.lookup items "id" = some exp.id ∧ exp.antiPatterns = (Py.lookup items "anti_patterns").getD (.list []) := by
  unfold fromDict at h
  obtain ⟨id, hid, h⟩ := bind_eq_ok.mp h
  obtain ⟨ts, -, h⟩ := bind_eq_ok.mp h
  obtain ⟨type, -, h⟩ := bind_eq_ok.mp h
  obtain ⟨source, -, h⟩ := bind_eq_ok.mp h
  obtain ⟨method, -, h⟩ := bind_eq_ok.mp h
  obtain ⟨artifact, -, h⟩ := bind_eq_ok.mp h
  obtain ⟨outcome, -, h⟩ := bind_eq_ok.mp h
  obtain rfl := Except.ok.inj h
  refine ⟨?_, rfl⟩
  rw [item_dict] at hid
  cases hfound : Py.lookup items "id" with
  | none =>
    rw [hfound] at hid
    cases hid
  | some v =>
    rw [hfound] at hid
    exact congrArg some (Except.ok.inj hid)

theorem hashed_cases (v : Object) : (v.Hashable ∧ ∃ key, hashed v = .ok key ∧ key? v = some key) ∨
    ¬ v.Hashable ∧ hashed v = .error .typeError ∧ key? v = none := by
  cases v with
  | list items => exact Or.inr ⟨id, rfl, rfl⟩
  | dict items => exact Or.inr ⟨id, rfl, rfl⟩
  | _ => exact Or.inl ⟨trivial, _, rfl, rfl⟩

theorem mapM_hashed_cases (values : List Object) :
    ((∀ v ∈ values, v.Hashable) ∧ ∃ keys, values.mapM hashed = .ok keys) ∨
      (¬ ∀ v ∈ values, v.Hashable) ∧ values.mapM hashed = .error .typeError := by
  induction values with
  | nil => exact Or.inl ⟨List.forall_mem_nil _, [], rfl⟩
  | cons v values ih =>
    rw [List.mapM_cons, List.forall_mem_cons]
    rcases hashed_cases v with ⟨hv, key, hkey, -⟩ | ⟨hv, herror, -⟩
    · rw [hkey]
      rcases ih with ⟨hall, keys, hkeys⟩ | ⟨hall, herror⟩
      · rw [hkeys]
        exact Or.inl ⟨⟨hv, hall⟩, key :: keys, rfl⟩
      · rw [herror]
        exact Or.inr ⟨fun h => hall h.2, rfl⟩
    · rw [herror]
      exact Or.inr ⟨fun h => hv h.1, rfl⟩

theorem hashedItems_cases (v : Object) :
    (Patterns v ∧ ∃ keys, hashedItems v = .ok keys) ∨ ¬ Patterns v ∧ hashedItems v = .error .typeError := by
  have htexts {γ : Type} (xs : List γ) (f : γ → PyStr) :
      ∃ keys, (xs.map fun x => Object.str (f x)).mapM hashed = .ok keys := by
    rcases mapM_hashed_cases (xs.map fun x => Object.str (f x)) with ⟨-, hkeys⟩ | ⟨hall, -⟩
    · exact hkeys
    · exact absurd (List.forall_mem_map.mpr fun _ _ => trivial) hall
  cases v with
  | str s => exact Or.inl ⟨trivial, htexts s fun c => [c]⟩
  | dict items => exact Or.inl ⟨trivial, htexts items Prod.fst⟩
  | list items => exact mapM_hashed_cases items
  | _ => exact Or.inr ⟨id, rfl⟩

theorem add_cases (memory : LoadedMemory) (exp : Experience) :
    (exp.id.Hashable ∧ Patterns exp.antiPatterns ∧ ∃ key patterns, key? exp.id = some key ∧
        memory.add exp = .ok ⟨memory.index.set key exp, patterns⟩) ∨
      ¬ (exp.id.Hashable ∧ Patterns exp.antiPatterns) ∧ memory.add exp = .error .typeError := by
  unfold LoadedMemory.add
  rcases hashed_cases exp.id with ⟨hid, key, hkey, hsome⟩ | ⟨hid, herror, -⟩
  · rw [hkey]
    rcases hashedItems_cases exp.antiPatterns with ⟨hpatterns, keys, hkeys⟩ | ⟨hpatterns, herror⟩
    · rw [hkeys]
      exact Or.inl ⟨hid, hpatterns, key, _, hsome, rfl⟩
    · rw [herror]
      exact Or.inr ⟨fun h => hpatterns h.2, rfl⟩
  · rw [herror]
    exact Or.inr ⟨fun h => hid h.1, rfl⟩

end

/-! ### One line after the other -/

section
variable {limits : Limits}

theorem fromJsonl_of_loads {line : List Char} {v : Object} (h : Py.loads limits (line.map Char.toNat) = .ok v) :
    fromJsonl limits line = fromDict v := by
  unfold fromJsonl loadsLine
  rw [h]
  rfl

theorem fromJsonl_of_decode {line : List Char} (h : Py.loads limits (line.map Char.toNat) = .error .decode) :
    fromJsonl limits line = .error .decodeError := by
  unfold fromJsonl loadsLine
  rw [h]
  rfl

theorem fromJsonl_nil : fromJsonl limits [] = .error .decodeError := by
  apply fromJsonl_of_decode
  simp [Py.loads, skipBlank, scanValue]

/-- A line that is passable is skipped or indexed. -/
theorem loadLine_of_passable {line : List Char} (h : Passable limits line) (memory : LoadedMemory) :
    ∃ patterns, loadLine limits memory line =
      .ok ⟨(record? limits line).elim memory.index fun r => memory.index.set r.1 r.2, patterns⟩ := by
  unfold loadLine record?
  dsimp only
  by_cases hblank : PyText.strip PyText.isSpace line = []
  · rw [hblank, if_pos rfl, fromJsonl_nil]
    exact ⟨memory.antiPatterns, rfl⟩
  · rw [if_neg hblank]
    rcases h.resolve_left hblank with hdecode | ⟨items, hloads, hitems⟩
    · rw [fromJsonl_of_decode hdecode]
      exact ⟨memory.antiPatterns, rfl⟩
    · rw [fromJsonl_of_loads hloads]
      have houtcome := @outcome_fromDict items
      generalize hread : fromDict (.dict items) = read at houtcome ⊢
      cases houtcome with
      | wanting name => exact ⟨memory.antiPatterns, rfl⟩
      | complete exp hcomplete =>
        obtain ⟨hid, hpatterns⟩ := fromDict_eq_ok hread
        obtain ⟨-, hhashable, hiterable⟩ := hitems.resolve_left (not_wanting_of_complete hcomplete)
        have hgood : exp.id.Hashable ∧ Patterns exp.antiPatterns := ⟨hhashable _ hid, hpatterns ▸ hiterable⟩
        rcases add_cases memory exp with ⟨-, -, key, patterns, hkey, hadd⟩ | ⟨hbad, -⟩
        · refine ⟨patterns, hadd.trans ?_⟩
          dsimp only
          rw [hkey]
          rfl
        · exact absurd hgood hbad
      | wrong hwanting hcomplete =>
        exact absurd hitems (not_or.mpr ⟨hwanting, fun h => hcomplete h.1⟩)

theorem loadLine_of_not_passable {line : List Char} (h : ¬ Passable limits line) (memory : LoadedMemory) :
    ∃ e, loadLine limits memory line = .error e := by
  obtain ⟨hblank, hrest⟩ := not_or.mp h
  obtain ⟨hdecode, hitems⟩ := not_or.mp hrest
  unfold loadLine
  dsimp only
  rw [if_neg hblank]
  cases hloads : Py.loads limits ((PyText.strip PyText.isSpace line).map Char.toNat) with
  | error e =>
    have hother : e ≠ .decode := fun he => hdecode (he ▸ hloads)
    unfold fromJsonl loadsLine
    rw [hloads]
    cases e with
    | decode => exact absurd rfl hother
    | recursion => exact ⟨_, rfl⟩
    | digits => exact ⟨_, rfl⟩
  | ok v =>
    rw [fromJsonl_of_loads hloads]
    by_cases hdict : ∃ items, v = .dict items
    · obtain ⟨items, rfl⟩ := hdict
      have houtcome := @outcome_fromDict items
      generalize hread : fromDict (.dict items) = read at houtcome ⊢
      cases houtcome with
      | wanting name hwanting => exact absurd ⟨items, hloads, Or.inl hwanting⟩ hitems
      | complete exp hcomplete =>
        obtain ⟨hid, hpatterns⟩ := fromDict_eq_ok hread
        rcases add_cases memory exp with ⟨hhashable, hiterable, -⟩ | ⟨-, hadd⟩
        · refine absurd ⟨items, hloads, Or.inr ⟨hcomplete, fun id hfound => ?_, hpatterns ▸ hiterable⟩⟩ hitems
          rwa [← Option.some.inj (hid.symm.trans hfound)]
        · exact ⟨_, hadd⟩
      | wrong => exact ⟨_, rfl⟩
    · rw [fromDict_not_dict (not_exists.mp hdict)]
      exact ⟨_, rfl⟩

/-- The loop returns when every line is passable, with the experiences of the lines under their ids. -/
theorem foldlM_of_passable {lines : List (List Char)} (h : ∀ line ∈ lines, Passable limits line) :
    ∃ memory, lines.foldlM (loadLine limits) .empty = .ok memory ∧
      memory.index = Dict.ofPairs (records limits lines) := by
  induction lines using List.reverseRecOn with
  | nil => exact ⟨.empty, rfl, rfl⟩
  | append_singleton lines line ih =>
    obtain ⟨hlines, hline⟩ := List.forall_mem_append.mp h
    obtain ⟨memory, hmemory, hindex⟩ := ih hlines
    obtain ⟨patterns, hload⟩ := loadLine_of_passable (List.forall_mem_singleton.mp hline) memory
    have hstep : (lines ++ [line]).foldlM (loadLine limits) .empty = loadLine limits memory line := by
      rw [List.foldlM_append, hmemory]
      show (loadLine limits memory line >>= pure) = loadLine limits memory line
      rw [bind_pure]
    refine ⟨_, hstep.trans hload, ?_⟩
    rw [records, List.filterMap_append, ← records]
    cases hrecord : record? limits line with
    | none =>
      rw [List.filterMap_cons_none hrecord, List.filterMap_nil, List.append_nil]
      exact hindex
    | some r =>
      rw [List.filterMap_cons_some hrecord, List.filterMap_nil, Dict.ofPairs_concat, ← hindex]
      rfl

theorem foldlM_of_not_passable {lines : List (List Char)} {line : List Char} (hline : line ∈ lines)
    (h : ¬ Passable limits line) (memory : LoadedMemory) : ∃ e, lines.foldlM (loadLine limits) memory = .error e := by
  induction lines generalizing memory with
  | nil => exact absurd hline List.not_mem_nil
  | cons first lines ih =>
    rw [List.foldlM_cons]
    rcases List.mem_cons.mp hline with rfl | hline
    · obtain ⟨e, he⟩ := loadLine_of_not_passable h memory
      rw [he]
      exact ⟨e, rfl⟩
    · cases loadLine limits memory first with
      | error e => exact ⟨e, rfl⟩
      | ok memory => exact ih hline memory

end

/-! ## The file -/

theorem readText_of_text {file : List UInt8} {text : String} (h : Utf8.fromUtf8 file = some text) :
    readText file = .ok (universal text.toList) := by
  rw [readText, h]
  rfl

theorem readText_of_none {file : List UInt8} (h : Utf8.fromUtf8 file = none) :
    readText file = .error .unicodeDecodeError := by
  rw [readText, h]
  rfl

theorem prune_of_text {file : List UInt8} {text : String} (h : Utf8.fromUtf8 file = some text) :
    ∃ file' text', prune file = .ok file' ∧ Utf8.fromUtf8 file' = some text' := by
  unfold prune
  rw [readText_of_text h]
  dsimp only [bind, Except.bind]
  split_ifs
  · exact ⟨file, text, rfl, h⟩
  · have hbytes := Utf8.fromUtf8_bytes (String.ofList (['\n'].intercalate
      (((PyText.strip PyText.isSpace (universal text.toList)).splitOn '\n').drop
        (((PyText.strip PyText.isSpace (universal text.toList)).splitOn '\n').length - maxEntries)) ++ ['\n']))
    rw [Utf8.bytes, String.toList_ofList] at hbytes
    exact ⟨_, _, rfl, hbytes⟩

/-- A file that is text can be read, and no other one. -/
theorem readLines_ok_iff (file : List UInt8) :
    (∃ lines, readLines file = .ok lines) ↔ ∃ text, Utf8.fromUtf8 file = some text := by
  unfold readLines
  cases h : Utf8.fromUtf8 file with
  | none =>
    refine iff_of_false ?_ nofun
    rintro ⟨lines, hlines⟩
    obtain ⟨file', hfile', hlines⟩ := bind_eq_ok.mp hlines
    obtain ⟨text, htext, -⟩ := bind_eq_ok.mp hlines
    unfold pruned at hfile'
    split_ifs at hfile'
    · unfold prune at hfile'
      rw [readText_of_none h] at hfile'
      cases hfile'
    · obtain rfl := Except.ok.inj hfile'
      rw [readText_of_none h] at htext
      cases htext
  | some text =>
    have hread : ∃ file' text', pruned file = .ok file' ∧ Utf8.fromUtf8 file' = some text' := by
      unfold pruned
      split_ifs
      · exact prune_of_text h
      · exact ⟨file, text, rfl, h⟩
    obtain ⟨file', text', hfile', htext'⟩ := hread
    exact iff_of_true ⟨_, bind_eq_ok.mpr ⟨file', hfile', bind_eq_ok.mpr ⟨_, readText_of_text htext', rfl⟩⟩⟩ ⟨text, rfl⟩

theorem load_of_readLines (limits : Limits) {file : List UInt8} {lines : List (List Char)}
    (h : readLines file = .ok lines) : load limits (some file) = lines.foldlM (loadLine limits) .empty := by
  show (readLines file).bind _ = _
  rw [h]
  rfl

/-- **What `_load` owes to a file** it pays just when the file is UTF-8, every line is passable, and every experience
that is no record is followed by a record with its id. -/
theorem indexes_iff (limits : Limits) (file : List UInt8) : Indexes limits file ↔
    (∃ text, Utf8.fromUtf8 file = some text) ∧ ∀ lines, readLines file = .ok lines →
      (∀ line ∈ lines, Passable limits line) ∧ Dict.Followed (fun r => isRecord r.2) (records limits lines) := by
  rw [← readLines_ok_iff]
  constructor
  · rintro ⟨lines, memory, hlines, hload, hindex⟩
    refine ⟨⟨lines, hlines⟩, fun lines' hlines' => ?_⟩
    obtain rfl := Except.ok.inj (hlines.symm.trans hlines')
    rw [load_of_readLines limits hlines] at hload
    have hpassable : ∀ line ∈ lines, Passable limits line := by
      intro line hline
      by_contra hnot
      obtain ⟨e, he⟩ := foldlM_of_not_passable hline hnot .empty
      cases hload.symm.trans he
    obtain ⟨memory', hmemory', hindex'⟩ := foldlM_of_passable hpassable
    obtain rfl := Except.ok.inj (hload.symm.trans hmemory')
    refine ⟨hpassable, (Dict.lookup_reverse_filter_iff _ _).mp fun key => ?_⟩
    rw [← Dict.get?_ofPairs, ← hindex']
    exact hindex key
  · rintro ⟨⟨lines, hlines⟩, h⟩
    obtain ⟨hpassable, hfollowed⟩ := h lines hlines
    obtain ⟨memory, hmemory, hindex⟩ := foldlM_of_passable hpassable
    refine ⟨lines, memory, hlines, ?_, fun key => ?_⟩
    · rw [load_of_readLines limits hlines]
      exact hmemory
    · rw [hindex, Dict.get?_ofPairs]
      exact (Dict.lookup_reverse_filter_iff _ _).mpr hfollowed key

theorem not_passable_null (limits : Limits) : ¬ Passable limits "null".toList := by
  have hstrip : PyText.strip PyText.isSpace "null".toList = "null".toList := by decide
  have hscan : scanValue limits.digits limits.loads [110, 117, 108, 108] = .ok (.none, []) := by
    unfold scanValue
    simp [scanLiteral, literals, pyStr]
  have hloads : Py.loads limits ("null".toList.map Char.toNat) = .ok .none := by
    simp [Py.loads, skipBlank, isBlank, hscan]
  unfold Passable
  dsimp only
  rw [hstrip, hloads]
  rintro (hblank | hdecode | ⟨items, hitems, -⟩)
  · exact absurd hblank (by decide)
  · cases hdecode
  · cases hitems

/-- The line `null` is JSON, and `data["id"]` a `TypeError`. -/
theorem null_raises : ¬ ∀ limits file, Indexes limits file := by
  intro h
  obtain ⟨lines, memory, -, hload, -⟩ := h ⟨1000, 1000, 1000, 1000, 4300⟩ [110, 117, 108, 108]
  have htext : Utf8.fromUtf8 [110, 117, 108, 108] = some "null" := Utf8.fromUtf8_bytes "null"
  have hlines : readLines [110, 117, 108, 108] = .ok ["null".toList] :=
    bind_eq_ok.mpr ⟨_, rfl, bind_eq_ok.mpr ⟨_, readText_of_text htext, by decide⟩⟩
  rw [load_of_readLines _ hlines] at hload
  obtain ⟨e, he⟩ := foldlM_of_not_passable (List.mem_singleton_self _) (not_passable_null _) .empty
  cases hload.symm.trans he

end Atlas.Agent.Memory.Loading
