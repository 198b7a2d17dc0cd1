import Atlas.Agent.MemoryLoad
import Atlas.Lib.PySpaced

/-!
# A memory that is loaded in two ways

`MemoryFile` reads the lines that `record` writes, and `MemoryLoad` any line. The lines of `record` are loaded alike.

* `ofValue`, `ofRaised`, `ofLoaded`, `ofKey` : what the one makes of a line in the terms of the other;
* `fromJsonl_of_loads` : a line that is one value to both is one experience to both, or raises the same;
* `loads_line_record` : a line of `record` is one value to both;
* `load_agrees` : the memory behind `_load`.
-/

namespace Atlas.Agent.Memory.Loading
open PyJson (PyStr PyValue pyStr)

/-! ## Values -/

/-- The double that a number is, if it is one. -/
def ofNumber (x : WithBot (WithTop ℚ)) : F64 :=
  match (x : Option (Option ℚ)) with
  | none => .infinity true
  | some none => .infinity false
  | some (some x) => if h : Binary64.round x = some x then .finite x h else .nan

mutual

def ofValue : PyValue → Py.Object
  | .none => .none
  | .bool b => .bool b
  | .int n => .int n
  | .float x => .float (ofNumber x)
  | .str s => .str s
  | .list items => .list (ofValues items)
  | .dict items => .dict (Dict.ofPairs (ofItems items)).entries

def ofValues : List PyValue → List Py.Object
  | [] => []
  | v :: vs => ofValue v :: ofValues vs

def ofItems : List (PyStr × PyValue) → List (PyStr × Py.Object)
  | [] => []
  | (key, v) :: items => (key, ofValue v) :: ofItems items

end

def ofRaised : Memory.Raised → Raised
  | .decodeError => .decodeError
  | .keyError name => .keyError name
  | .typeError => .typeError
  | .unicodeDecodeError => .unicodeDecodeError

def ofLoaded (exp : LoadedExperience) : Experience where
  id := ofValue exp.id
  ts := ofValue exp.ts
  type := ofValue exp.type
  source := exp.source.map ofValue
  method := exp.method.map ofValue
  artifact := exp.artifact.map ofValue
  outcome := exp.outcome.map ofValue
  antiPatterns := ofValue exp.antiPatterns
  tags := ofValue exp.tags

def ofKey : PyJson.Key → HashKey
  | .none => .none
  | .number x => .number x
  | .str s => .str s

theorem ofKey_injective : Function.Injective ofKey := by
  intro k k' h
  cases k <;> cases k' <;> cases h <;> rfl

theorem ofValues_eq (vs : List PyValue) : ofValues vs = vs.map ofValue := by
  induction vs with
  | nil => rfl
  | cons v vs ih => rw [ofValues, ih, List.map_cons]

theorem ofItems_eq (items : List (PyStr × PyValue)) :
    ofItems items = items.map fun item => (item.1, ofValue item.2) := by
  induction items with
  | nil => rfl
  | cons item items ih => rw [ofItems, ih, List.map_cons]

theorem get_concat (items : List (PyStr × PyValue)) (item : PyStr × PyValue) (key : PyStr) :
    PyJson.get (items ++ [item]) key = if item.1 = key then some item.2 else PyJson.get items key := by
  unfold PyJson.get
  rw [List.foldl_append]
  rfl

theorem lookup_entries (d : Dict PyStr Py.Object) (name : String) : Py.lookup d.entries name = d.get? (pyStr name) := by
  unfold Py.lookup Dict.get?
  congr 1
  exact lawful_beq_subsingleton ..

/-- Of the members with one key the last one counts, on both sides. -/
theorem lookup_ofItems (items : List (PyStr × PyValue)) (name : String) :
    Py.lookup (Dict.ofPairs (ofItems items)).entries name = (PyJson.get items (pyStr name)).map ofValue := by
  rw [lookup_entries, ofItems_eq]
  induction items using List.reverseRecOn with
  | nil => rfl
  | append_singleton items item ih =>
    rw [List.map_append, List.map_singleton, Dict.ofPairs_concat, Dict.get?_set, get_concat]
    by_cases h : item.1 = pyStr name
    · rw [if_pos h.symm, if_pos h]
      rfl
    · rw [if_neg (Ne.symm h), if_neg h]
      exact ih

/-! ## Experiences -/

/-- An outcome of the one in the terms of the other. -/
def carry {α β : Type} (f : α → β) : Except Memory.Raised α → Except Raised β
  | .ok a => .ok (f a)
  | .error e => .error (ofRaised e)

theorem bind_carry {α α' β β' : Type} {f : α → α'} {g : β → β'} {x : Except Memory.Raised α}
    {next : α → Except Memory.Raised β} {next' : α' → Except Raised β'} (h : ∀ a, next' (f a) = carry g (next a)) :
    (carry f x >>= next') = carry g (x >>= next) := by
  cases x with
  | error e => rfl
  | ok a => exact h a

theorem item_ofValue (data : PyValue) (name : String) :
    item (ofValue data) name = carry ofValue (Memory.item data name) := by
  cases data with
  | dict items =>
    show (Py.lookup (Dict.ofPairs (ofItems items)).entries name).elim _ _ = _
    rw [lookup_ofItems]
    unfold Memory.item
    dsimp only
    cases PyJson.get items (pyStr name) <;> rfl
  | _ => rfl

theorem itemOrEmpty_ofValue (data : PyValue) (name : String) :
    itemOrEmpty (ofValue data) name = ofValue (Memory.itemOrEmpty data name) := by
  cases data with
  | dict items =>
    show (Py.lookup (Dict.ofPairs (ofItems items)).entries name).getD (.list []) = _
    rw [lookup_ofItems]
    unfold Memory.itemOrEmpty Memory.item
    dsimp only
    cases PyJson.get items (pyStr name) <;> rfl
  | _ => rfl

theorem mapM_lookup (items : List (PyStr × PyValue)) (fields : List String) :
    (fields.mapM fun field => Py.lookup (Dict.ofPairs (ofItems items)).entries field) =
      (fields.mapM fun field => PyJson.get items (pyStr field)).map fun values => values.map ofValue := by
  induction fields with
  | nil => rfl
  | cons field fields ih =>
    rw [List.mapM_cons, List.mapM_cons, ih, lookup_ofItems]
    cases PyJson.get items (pyStr field) with
    | none => rfl
    | some v => cases fields.mapM fun field => PyJson.get items (pyStr field) <;> rfl

theorem construct_ofValue (fields : List String) (data : PyValue) :
    construct fields (ofValue data) = carry (List.map ofValue) (Memory.construct fields data) := by
  cases data with
  | dict items =>
    have hkeys : ((Dict.ofPairs (ofItems items)).entries.all fun entry => entry.1 ∈ fields.map pyStr) =
        items.all fun entry => entry.1 ∈ fields.map pyStr := by
      have hmem (key : PyStr) :
          key ∈ (Dict.ofPairs (ofItems items)).entries.map Prod.fst ↔ key ∈ items.map Prod.fst := by
        rw [Dict.mem_keys_ofPairs, ofItems_eq, List.map_map]
        rfl
      rw [Bool.eq_iff_iff, List.all_eq_true, List.all_eq_true]
      simp only [decide_eq_true_eq]
      rw [← @List.forall_mem_map _ _ Prod.fst _ fun key => key ∈ fields.map pyStr,
        ← @List.forall_mem_map _ _ Prod.fst _ fun key => key ∈ fields.map pyStr]
      simp only [hmem]
    unfold construct Memory.construct
    rw [ofValue]
    dsimp only
    rw [hkeys, mapM_lookup]
    split_ifs
    · cases fields.mapM fun field => PyJson.get items (pyStr field) <;> rfl
    · rfl
  | _ => rfl

theorem part_ofValue (fields : List String) (data : PyValue) (name : String) :
    (item (ofValue data) name).bind (construct fields) =
      carry (List.map ofValue) ((Memory.item data name).bind (Memory.construct fields)) := by
  rw [item_ofValue]
  exact bind_carry fun v => construct_ofValue fields v

/-- **A line that is one value to both** is one experience to both, or raises the same. -/
theorem fromJsonl_of_value {limits : Py.Limits} {line : List Char} {data : PyValue} (h : Memory.loads line = .ok data)
    (h' : Py.loads limits (line.map Char.toNat) = .ok (ofValue data)) :
    fromJsonl limits line = carry ofLoaded (Memory.fromJsonl line) := by
  rw [fromJsonl_of_loads h']
  unfold fromDict Memory.fromJsonl
  rw [h]
  show _ = carry ofLoaded (Memory.item data "id" >>= _)
  simp only [part_ofValue]
  simp only [item_ofValue, itemOrEmpty_ofValue]
  refine bind_carry fun id => bind_carry fun ts => bind_carry fun type => ?_
  refine bind_carry fun source => bind_carry fun method => bind_carry fun artifact => bind_carry fun outcome => rfl

/-! ## The lines of `record` -/

section
variable {digits depth : ℕ}

theorem isTextOf_textValue (s : String) :
    Py.IsTextOf digits depth (ofValue (.str (pyStr s))) ((textValue s).write .spaced) := Py.isTextOf_quote s.toList

theorem isTextOf_textsValue (strings : List String) :
    Py.IsTextOf digits (depth + 1) (ofValue (texts strings)) ((textsValue strings).write .spaced) := by
  have hitems : ofValues (strings.map fun s => .str (pyStr s)) = strings.map fun s => Py.Object.str (pyStr s) := by
    rw [ofValues_eq, List.map_map]
    rfl
  rw [texts, ofValue, hitems]
  apply Py.isTextOf_arr
  rw [List.forall₂_map_left_iff, List.forall₂_map_right_iff, List.forall₂_same]
  exact fun s _ => isTextOf_textValue s

theorem isTextOf_floatValue {x : ℚ} (h : Binary64.round x = some x) :
    Py.IsTextOf digits depth (ofValue (float x)) ((floatValue x).write .spaced) := by
  have hdouble : ofValue (float x) = .float (.finite x h) := congrArg Py.Object.float (dif_pos h)
  rw [hdouble]
  exact Py.isTextOf_repr h

theorem isTextOf_dictValue {items : List (String × Json.Value)} {objects : List (String × PyValue)}
    (h : List.Forall₂ (fun a b => a.1 = b.1 ∧ Py.IsTextOf digits depth (ofValue b.2) (a.2.write .spaced))
      items objects) : Py.IsTextOf digits (depth + 1) (ofValue (object objects)) ((dictValue items).write .spaced) := by
  have hmembers : (items.map fun item => (Json.lit item.1, item.2)) =
      (items.map fun item => (item.1.toList, item.2)).map fun m => (Json.quote m.1, m.2) := by
    rw [List.map_map]
    rfl
  rw [object, ofValue, dictValue, hmembers]
  apply Py.isTextOf_obj
  rw [ofItems_eq, List.map_map, List.forall₂_map_left_iff, List.forall₂_map_right_iff]
  refine h.imp fun a b hab => ⟨?_, hab.2⟩
  rw [hab.1]
  rfl

theorem isTextOf_asdict {e : Memory.Experience} (h : e.Doubles) :
    Py.IsTextOf digits (depth + 3) (ofValue (object e.object)) e.toJsonl := by
  apply isTextOf_dictValue
  unfold Memory.Experience.asdict Memory.Experience.object
  simp only [List.forall₂_cons, List.forall₂_nil_left_iff, true_and, and_true, isTextOf_textValue,
    isTextOf_textsValue]
  refine ⟨isTextOf_dictValue ?_, isTextOf_dictValue ?_, isTextOf_dictValue ?_, isTextOf_dictValue ?_⟩
  all_goals simp [isTextOf_textValue, isTextOf_textsValue, isTextOf_floatValue h.1, isTextOf_floatValue h.2]

end

/-- A line of `record` is one value to both, when the interpreter goes into three nested containers. -/
theorem loads_line_record {limits : Py.Limits} (hlimits : 3 ≤ limits.loads) {e : Memory.Experience} (h : e.Doubles)
    {line : List Char} (hline : Utf8.encode line = e.toJsonl) :
    Py.loads limits (line.map Char.toNat) = .ok (ofValue (object e.object)) := by
  obtain ⟨depth, hdepth⟩ := Nat.exists_eq_add_of_le' hlimits
  apply Py.loads_of_isTextOf
  rw [hline, hdepth]
  exact isTextOf_asdict h

theorem fromJsonl_record {limits : Py.Limits} (hlimits : 3 ≤ limits.loads) {e : Memory.Experience} (h : e.Doubles)
    {line : List Char} (hline : Utf8.encode line = e.toJsonl) : fromJsonl limits line = .ok (ofLoaded e.loaded) := by
  have hloads := loads_line h hline
  rw [fromJsonl_of_value hloads (loads_line_record hlimits h hline), fromJsonl_object hloads]
  rfl

/-! ## `_load` -/

/-- The same experiences under the same ids in the same order, and the same anti-patterns. -/
structure Agree (loaded : Memory.LoadedMemory) (memory : LoadedMemory) : Prop where
  index : memory.index.entries = loaded.index.entries.map fun entry => (ofKey entry.1, ofLoaded entry.2)
  antiPatterns : memory.antiPatterns = loaded.antiPatterns.image ofKey

theorem mapM_hashed_texts (strings : List String) :
    (strings.map fun s => Py.Object.str (pyStr s)).mapM hashed = .ok ((strings.map textKey).map ofKey) := by
  induction strings with
  | nil => rfl
  | cons s strings ih =>
    rw [List.map_cons, List.mapM_cons, ih]
    rfl

theorem add_agree {loaded : Memory.LoadedMemory} {memory : LoadedMemory} (h : Agree loaded memory)
    (e : Memory.Experience) :
    ∃ memory', memory.add (ofLoaded e.loaded) = .ok memory' ∧ Agree (loaded.keep e) memory' := by
  have hitems : ofValues (e.antiPatterns.map fun s => .str (pyStr s)) =
      e.antiPatterns.map fun s => Py.Object.str (pyStr s) := by
    rw [ofValues_eq, List.map_map]
    rfl
  have hpatterns : hashedItems (ofLoaded e.loaded).antiPatterns = .ok ((e.antiPatterns.map textKey).map ofKey) := by
    show (ofValues (e.antiPatterns.map fun s => .str (pyStr s))).mapM hashed = _
    rw [hitems]
    exact mapM_hashed_texts e.antiPatterns
  refine ⟨⟨memory.index.set (ofKey (textKey e.id)) (ofLoaded e.loaded),
    memory.antiPatterns ∪ ((e.antiPatterns.map textKey).map ofKey).toFinset⟩, ?_, ?_, ?_⟩
  · unfold LoadedMemory.add
    rw [hpatterns]
    rfl
  · show Dict.put (ofKey (textKey e.id)) (ofLoaded e.loaded) memory.index.entries = _
    rw [h.index]
    exact Dict.put_map ofKey_injective ofLoaded _ _ _
  · show memory.antiPatterns ∪ _ = (loaded.antiPatterns ∪ _).image ofKey
    rw [h.antiPatterns, Finset.image_union]
    exact congrArg _ (Multiset.toFinset_map ofKey (e.antiPatterns.map textKey : List PyJson.Key))

/-- A line of `record` is kept by both. -/
theorem loadLine_agree {limits : Py.Limits} (hlimits : 3 ≤ limits.loads) {e : Memory.Experience} (h : e.Doubles)
    {line : List Char} (hline : IsLine e line) {loaded : Memory.LoadedMemory} {memory : LoadedMemory}
    (hagree : Agree loaded memory) : ∃ memory', loadLine limits memory line = .ok memory' ∧
      Memory.loadLine loaded line = .ok (loaded.keep e) ∧ Agree (loaded.keep e) memory' := by
  have hread := fromJsonl_record hlimits h (hline.elim fun _ hcs => hcs.2.1)
  have hne : line ≠ [] := by
    obtain ⟨cs, rfl, -⟩ := hline
    exact List.cons_ne_nil _ _
  obtain ⟨memory', hadd, hkept⟩ := add_agree hagree e
  refine ⟨memory', ?_, loadLine_line h hline loaded, hkept⟩
  unfold loadLine
  dsimp only
  rw [hline.strip, if_neg hne, hread]
  exact hadd

theorem foldlM_agree {limits : Py.Limits} (hlimits : 3 ≤ limits.loads) {es : List Memory.Experience}
    {lines : List (List Char)} (hlines : List.Forall₂ IsLine es lines) (h : ∀ e ∈ es, e.Doubles)
    {loaded : Memory.LoadedMemory} {memory : LoadedMemory} (hagree : Agree loaded memory) :
    ∃ memory', (lines ++ [[]]).foldlM (loadLine limits) memory = .ok memory' ∧
      Agree (es.foldl Memory.LoadedMemory.keep loaded) memory' := by
  induction hlines generalizing loaded memory with
  | nil => exact ⟨memory, rfl, hagree⟩
  | @cons e line es lines hline _ ih =>
    obtain ⟨he, hes⟩ := List.forall_mem_cons.mp h
    obtain ⟨kept, hload, -, hkept⟩ := loadLine_agree hlimits he hline hagree
    obtain ⟨memory', hmore, hrest⟩ := ih hes hkept
    refine ⟨memory', ?_, hrest⟩
    rw [List.cons_append, List.foldlM_cons, hload]
    exact hmore

/-- **What `record` has written** is loaded as one memory. -/
theorem load_agrees {limits : Py.Limits} (hlimits : 3 ≤ limits.loads) {calls : List Call}
    (hsize : ((recorded calls).file.getD []).length ≤ maxSize) :
    ∃ loaded memory, Memory.load (recorded calls).file = .ok loaded ∧
      load limits (recorded calls).file = .ok memory ∧ Agree loaded memory := by
  have hload := load_recorded hsize
  rw [file_recorded] at hsize hload ⊢
  rw [Option.getD_some] at hsize
  obtain ⟨lines, hlines, hdecode, huniversal, hsplit⟩ := exists_lines (calls.map Call.experience)
  have hread : readLines ((calls.map Call.experience).flatMap fun e => e.toJsonl ++ [10]) = .ok (lines ++ [[]]) := by
    unfold readLines pruned
    rw [if_neg (Nat.not_lt.mpr hsize)]
    show (readText _ >>= fun text => pure (text.splitOn '\n')) = _
    rw [readText_of_text hdecode, String.toList_ofList, huniversal, ← hsplit]
    rfl
  have hdoubles : ∀ e ∈ calls.map Call.experience, e.Doubles := List.forall_mem_map.mpr fun c _ => c.doubles
  obtain ⟨memory, hmemory, hagree⟩ := foldlM_agree hlimits hlines hdoubles (⟨rfl, rfl⟩ : Agree .empty .empty)
  refine ⟨reloaded calls, memory, hload, ?_, hagree⟩
  rw [load_of_readLines limits hread]
  exact hmemory

end Atlas.Agent.Memory.Loading
