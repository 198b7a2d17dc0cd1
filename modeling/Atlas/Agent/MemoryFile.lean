import Atlas.Agent.LearningMemory
import Atlas.Lib.FloatRepr
import Atlas.Lib.Json.Line
import Atlas.Lib.PyJson
import Atlas.Lib.PyText

/-!
# The file of the generator's memory

* `toJsonl`, `fromJsonl` : an experience as a line of the file, and what is made of a line;
* `load` : `_load`, with `_prune`; `Call`, `record` : `record`, on the live object and on the file;
* `fromJsonl_toJsonl` : a line is read as the experience it was written for;
* `Survives` : a restart brings the same experiences and the same anti-patterns back.
-/

namespace Atlas.Agent.Memory

open Json PyJson

/-! ## Writing a line -/

def textValue (s : String) : Value := .str (lit s)

def textsValue (texts : List String) : Value := .arr (texts.map textValue)

def floatValue (x : ℚ) : Value := .num (FloatRepr.repr x)

def dictValue (items : List (String × Value)) : Value := .obj (items.map fun item => (lit item.1, item.2))

namespace Experience
variable (e : Experience)

/-- The entries of `asdict(self)`. -/
def asdict : List (String × Value) :=
  [("id", textValue e.id), ("ts", textValue e.ts), ("type", textValue e.type),
    ("source", dictValue [("provider", textValue e.source.provider), ("model", textValue e.source.model),
      ("prompt_hash", textValue e.source.promptHash)]),
    ("method", dictValue [("context_sources", textsValue e.method.contextSources),
      ("temperature", floatValue e.method.temperature)]),
    ("artifact", dictValue [("language", textValue e.artifact.language), ("module", textValue e.artifact.module),
      ("governance_refs", textsValue e.artifact.governanceRefs)]),
    ("outcome", dictValue [("human_decision", textValue e.outcome.humanDecision),
      ("reason", textValue e.outcome.reason), ("quality_score", floatValue e.outcome.qualityScore)]),
    ("anti_patterns", textsValue e.antiPatterns), ("tags", textsValue e.tags)]

/-- The bytes of `json.dumps(asdict(self), ensure_ascii=False)`. -/
def toJsonl : List UInt8 := (dictValue e.asdict).write .spaced

end Experience

/-! ## Reading a line -/

/-- `_load` catches the first two. -/
inductive Raised
  | decodeError
  | keyError (name : String)
  | typeError
  | unicodeDecodeError
  deriving DecidableEq

/-- An `Experience` made of a line: the class checks the type of no field. The fields of `source`, `method`, `artifact`
and `outcome` stand in the order of their classes. -/
structure LoadedExperience where
  id : PyValue
  ts : PyValue
  type : PyValue
  source : List PyValue
  method : List PyValue
  artifact : List PyValue
  outcome : List PyValue
  antiPatterns : PyValue
  tags : PyValue

def sourceFields : List String := ["provider", "model", "prompt_hash"]

def methodFields : List String := ["context_sources", "temperature"]

def artifactFields : List String := ["language", "module", "governance_refs"]

def outcomeFields : List String := ["human_decision", "reason", "quality_score"]

/-- `json.loads(line)`. What Python's reader takes beside JSON, NaN and the infinities, stands in no line that `record`
writes, nor does a value that is nested beyond the interpreter's stack. -/
def loads (line : List Char) : Except Raised PyValue :=
  let bytes := Utf8.encode line
  match readValue bytes.length bytes with
  | some (v, rest) => if Blank rest then (ofJson v).elim (.error .decodeError) .ok else .error .decodeError
  | none => .error .decodeError

/-- `data[name]` -/
def item (data : PyValue) (name : String) : Except Raised PyValue :=
  match data with
  | .dict items => (get items (pyStr name)).elim (.error (.keyError name)) .ok
  | _ => .error .typeError

/-- `cls(**data)`, for a class whose fields have no defaults. -/
def construct (fields : List String) (data : PyValue) : Except Raised (List PyValue) :=
  match data with
  | .dict items =>
    if items.all fun entry => entry.1 ∈ fields.map pyStr then
      (fields.mapM fun field => get items (pyStr field)).elim (.error .typeError) .ok
    else .error .typeError
  | _ => .error .typeError

/-- `data.get(name, [])` -/
def itemOrEmpty (data : PyValue) (name : String) : PyValue :=
  match item data name with
  | .ok v => v
  | .error _ => .list []

def fromJsonl (line : List Char) : Except Raised LoadedExperience := do
  let data ← loads line
  let id ← item data "id"
  let ts ← item data "ts"
  let type ← item data "type"
  let source ← (item data "source").bind (construct sourceFields)
  let method ← (item data "method").bind (construct methodFields)
  let artifact ← (item data "artifact").bind (construct artifactFields)
  let outcome ← (item data "outcome").bind (construct outcomeFields)
  pure ⟨id, ts, type, source, method, artifact, outcome, itemOrEmpty data "anti_patterns", itemOrEmpty data "tags"⟩

/-! ## `_load` -/

/-- `_index` and `_anti_patterns` behind `_load`. -/
structure LoadedMemory where
  index : Dict Key LoadedExperience
  antiPatterns : Finset Key

def LoadedMemory.empty : LoadedMemory := ⟨Dict.empty, ∅⟩

def hashed (v : PyValue) : Except Raised Key := v.key?.elim (.error .typeError) .ok

/-- `_index[exp.id] = exp` and `_anti_patterns.update(exp.anti_patterns)` -/
def LoadedMemory.add (memory : LoadedMemory) (exp : LoadedExperience) : Except Raised LoadedMemory := do
  let id ← hashed exp.id
  let items ← exp.antiPatterns.iter?.elim (.error .typeError) .ok
  let patterns ← items.mapM hashed
  pure ⟨memory.index.set id exp, memory.antiPatterns ∪ patterns.toFinset⟩

/-- One turn of the loop. -/
def loadLine (memory : LoadedMemory) (line : List Char) : Except Raised LoadedMemory :=
  let line := PyText.strip PyText.isSpace line
  if line = [] then .ok memory
  else match fromJsonl line with
    | .ok exp => memory.add exp
    | .error .decodeError => .ok memory
    | .error (.keyError _) => .ok memory
    | .error e => .error e

/-- The text of a file that is opened without a `newline` argument. -/
def universal : List Char → List Char
  | '\r' :: '\n' :: cs => '\n' :: universal cs
  | '\r' :: cs => '\n' :: universal cs
  | c :: cs => c :: universal cs
  | [] => []

def readText (file : List UInt8) : Except Raised (List Char) :=
  (Utf8.fromUtf8 file).elim (.error .unicodeDecodeError) fun text => .ok (universal text.toList)

def maxEntries : Nat := 10000

/-- 50 MB -/
def maxSize : Nat := 50 * (1024 * 1024)

/-- `_prune` : the file behind it. -/
def prune (file : List UInt8) : Except Raised (List UInt8) := do
  let lines := (PyText.strip PyText.isSpace (← readText file)).splitOn '\n'
  if lines.length ≤ maxEntries then pure file
  else pure (Utf8.encode (['\n'].intercalate (lines.drop (lines.length - maxEntries)) ++ ['\n']))

/-- `_load`; the file is absent when there is none. -/
def load (file : Option (List UInt8)) : Except Raised LoadedMemory :=
  match file with
  | none => .ok .empty
  | some file => do
    let file ← if maxSize < file.length then prune file else pure file
    ((← readText file).splitOn '\n').foldlM loadLine .empty

/-! ## `record` -/

/-- A call of `record`: its arguments, and the id and the time that are made for it. The numbers are finite doubles. -/
structure Call where
  id : String
  ts : String
  source : Source
  method : Method
  artifact : Artifact
  decision : Decision
  reason : String
  qualityScore : ℚ
  antiPatterns : List String
  temperature_double : Binary64.round method.temperature = some method.temperature
  score_double : Binary64.round qualityScore = some qualityScore

def Call.experience (c : Call) : Experience :=
  LearningMemory.newExperience c.id c.ts c.source c.method c.artifact c.decision c.reason c.qualityScore c.antiPatterns

/-- The live object and its file. -/
structure Recorder where
  live : LearningMemory
  file : Option (List UInt8)

def record (r : Recorder) (c : Call) : Recorder where
  live := (r.live.learn c.decision c.antiPatterns).store c.experience
  file := some (r.file.getD [] ++ (c.experience.toJsonl ++ [10]))

/-- The calls one after the other, from an empty file on. -/
def recorded (calls : List Call) : Recorder := calls.foldl record ⟨.empty, some []⟩

def texts (strings : List String) : PyValue := .list (strings.map fun s => .str (pyStr s))

def float (x : ℚ) : PyValue := .float (x : WithTop ℚ)

/-- An experience of the live object, in the terms of what is loaded. -/
def Experience.loaded (e : Experience) : LoadedExperience where
  id := .str (pyStr e.id)
  ts := .str (pyStr e.ts)
  type := .str (pyStr e.type)
  source := [.str (pyStr e.source.provider), .str (pyStr e.source.model), .str (pyStr e.source.promptHash)]
  method := [texts e.method.contextSources, float e.method.temperature]
  artifact := [.str (pyStr e.artifact.language), .str (pyStr e.artifact.module), texts e.artifact.governanceRefs]
  outcome := [.str (pyStr e.outcome.humanDecision), .str (pyStr e.outcome.reason), float e.outcome.qualityScore]
  antiPatterns := texts e.antiPatterns
  tags := texts e.tags

def textKey (s : String) : Key := .str (pyStr s)

/-- The same experiences in the same order, and the same anti-patterns. -/
structure Same (live : LearningMemory) (loaded : LoadedMemory) : Prop where
  index : loaded.index.entries = live.index.entries.map fun entry => (textKey entry.1, entry.2.loaded)
  antiPatterns : loaded.antiPatterns = live.antiPatterns.image textKey

/-- A fresh object, loaded from the file, has what the live object has. -/
def Survives (r : Recorder) : Prop := ∃ loaded, load r.file = .ok loaded ∧ Same r.live loaded

/-! ## A line is read as it was written -/

theorem ofJson_textValue (s : String) : ofJson (textValue s) = some (.str (pyStr s)) := by
  rw [textValue, ofJson, pyText_lit]
  rfl

theorem ofJson_textsValue (strings : List String) : ofJson (textsValue strings) = some (texts strings) := by
  have helements : ofElements (strings.map textValue) = some (strings.map fun s => .str (pyStr s)) := by
    induction strings with
    | nil => rfl
    | cons s strings ih => rw [List.map_cons, ofElements, ofJson_textValue, ih, List.map_cons]
  rw [textsValue, ofJson, helements]
  rfl

theorem ofJson_floatValue {x : ℚ} (hx : Binary64.round x = some x) : ofJson (floatValue x) = some (float x) := by
  rw [floatValue, ofJson, pyNumber, if_neg (FloatRepr.not_isInt_repr x), pyFloat, FloatRepr.round_repr hx]
  rfl

/-- A dict of Python. -/
def object (items : List (String × PyValue)) : PyValue := .dict (items.map fun item => (pyStr item.1, item.2))

theorem ofJson_dictValue {items : List (String × Value)} {objects : List (String × PyValue)}
    (h : List.Forall₂ (fun a b => a.1 = b.1 ∧ ofJson a.2 = some b.2) items objects) :
    ofJson (dictValue items) = some (object objects) := by
  have hmembers : ofMembers (items.map fun item => (lit item.1, item.2)) =
      some (objects.map fun item => (pyStr item.1, item.2)) := by
    rw [ofMembers_iff, List.forall₂_map_left_iff, List.forall₂_map_right_iff]
    refine h.imp fun a b hab => ⟨?_, hab.2⟩
    rw [← hab.1]
    exact pyText_lit a.1
  rw [dictValue, ofJson, hmembers]
  rfl

/-- The object that `json.loads` makes of the line of an experience. -/
def Experience.object (e : Experience) : List (String × PyValue) :=
  [("id", .str (pyStr e.id)), ("ts", .str (pyStr e.ts)), ("type", .str (pyStr e.type)),
    ("source", Memory.object [("provider", .str (pyStr e.source.provider)), ("model", .str (pyStr e.source.model)),
      ("prompt_hash", .str (pyStr e.source.promptHash))]),
    ("method", Memory.object [("context_sources", texts e.method.contextSources),
      ("temperature", float e.method.temperature)]),
    ("artifact", Memory.object [("language", .str (pyStr e.artifact.language)),
      ("module", .str (pyStr e.artifact.module)), ("governance_refs", texts e.artifact.governanceRefs)]),
    ("outcome", Memory.object [("human_decision", .str (pyStr e.outcome.humanDecision)),
      ("reason", .str (pyStr e.outcome.reason)), ("quality_score", float e.outcome.qualityScore)]),
    ("anti_patterns", texts e.antiPatterns), ("tags", texts e.tags)]

/-- The numbers of an experience are doubles. -/
def Experience.Doubles (e : Experience) : Prop :=
  Binary64.round e.method.temperature = some e.method.temperature ∧
    Binary64.round e.outcome.qualityScore = some e.outcome.qualityScore

theorem ofJson_asdict {e : Experience} (h : e.Doubles) : ofJson (dictValue e.asdict) = some (object e.object) := by
  apply ofJson_dictValue
  unfold Experience.asdict Experience.object
  simp only [List.forall₂_cons, List.forall₂_nil_left_iff, true_and, and_true, ofJson_textValue, ofJson_textsValue]
  refine ⟨ofJson_dictValue ?_, ofJson_dictValue ?_, ofJson_dictValue ?_, ofJson_dictValue ?_⟩
  all_goals simp [ofJson_textValue, ofJson_textsValue, ofJson_floatValue h.1, ofJson_floatValue h.2]

/-- The value of a name in the entries of a dict. -/
def named (items : List (String × PyValue)) (name : String) : Option PyValue :=
  items.foldl (fun found entry => if entry.1 = name then some entry.2 else found) none

theorem get_object (items : List (String × PyValue)) (name : String) :
    PyJson.get (items.map fun item => (pyStr item.1, item.2)) (pyStr name) = named items name := by
  unfold PyJson.get named
  rw [List.foldl_map]
  simp only [pyStr_inj]

theorem item_object {items : List (String × PyValue)} {name : String} {v : PyValue} (h : named items name = some v) :
    item (object items) name = .ok v := by
  unfold item object
  dsimp only
  rw [get_object, h]
  rfl

theorem construct_object {fields : List String} {items : List (String × PyValue)} {values : List PyValue}
    (hfields : items.map Prod.fst = fields) (h : fields.mapM (named items) = some values) :
    construct fields (object items) = .ok values := by
  unfold construct object
  dsimp only
  rw [if_pos]
  · simp only [get_object]
    rw [h]
    rfl
  · rw [← hfields]
    simpa [pyStr_inj] using fun name v hentry => ⟨v, hentry⟩

theorem ok_bind {α β : Type} (a : α) (f : α → Except Raised β) : (Except.ok a >>= f) = f a := rfl

/-- What is read of an object with the fields of an experience. -/
theorem fromJsonl_object {line : List Char} {e : Experience} (h : loads line = .ok (object e.object)) :
    fromJsonl line = .ok e.loaded := by
  have hitem : ∀ {name : String} {v : PyValue}, named e.object name = some v → item (object e.object) name = .ok v :=
    item_object
  have hpart : ∀ {name : String} {fields : List String} {items : List (String × PyValue)} {values : List PyValue},
      named e.object name = some (object items) → items.map Prod.fst = fields →
        fields.mapM (named items) = some values →
          (item (object e.object) name).bind (construct fields) = .ok values := by
    intro name fields items values hname hfields hvalues
    rw [hitem hname]
    exact construct_object hfields hvalues
  have hempty : ∀ {name : String} {v : PyValue}, named e.object name = some v →
      itemOrEmpty (object e.object) name = v := by
    intro name v hname
    rw [itemOrEmpty, hitem hname]
  have hid : item (object e.object) "id" = .ok e.loaded.id := hitem rfl
  have hts : item (object e.object) "ts" = .ok e.loaded.ts := hitem rfl
  have htype : item (object e.object) "type" = .ok e.loaded.type := hitem rfl
  have hsource : (item (object e.object) "source").bind (construct sourceFields) = .ok e.loaded.source :=
    hpart rfl rfl rfl
  have hmethod : (item (object e.object) "method").bind (construct methodFields) = .ok e.loaded.method :=
    hpart rfl rfl rfl
  have hartifact : (item (object e.object) "artifact").bind (construct artifactFields) = .ok e.loaded.artifact :=
    hpart rfl rfl rfl
  have houtcome : (item (object e.object) "outcome").bind (construct outcomeFields) = .ok e.loaded.outcome :=
    hpart rfl rfl rfl
  have hpatterns : itemOrEmpty (object e.object) "anti_patterns" = e.loaded.antiPatterns := hempty rfl
  have htags : itemOrEmpty (object e.object) "tags" = e.loaded.tags := hempty rfl
  unfold fromJsonl
  simp only [h, ok_bind, hid, hts, htype, hsource, hmethod, hartifact, houtcome, hpatterns, htags]
  rfl

theorem loads_line {e : Experience} (h : e.Doubles) {line : List Char} (hline : Utf8.encode line = e.toJsonl) :
    loads line = .ok (object e.object) := by
  have hreads := reads_write .spaced (dictValue e.asdict) (notStart_nil IsNumberByte)
  rw [List.append_nil] at hreads
  have hdepth : (dictValue e.asdict).depth ≤ e.toJsonl.length := by
    have hlength := hreads.length_le
    exact (Value.depth_le_length _).trans (Nat.le_of_add_right_le hlength)
  have hread := readValue_complete _ hdepth _ _ hreads
  unfold loads
  rw [hline]
  dsimp only
  rw [show readValue e.toJsonl.length e.toJsonl = _ from hread]
  dsimp only
  rw [if_pos (by decide), ofJson_asdict h]
  rfl

/-! ## The file -/

/-- The text of the line that is written for an experience. -/
def IsLine (e : Experience) (line : List Char) : Prop :=
  ∃ cs, line = '{' :: (cs ++ ['}']) ∧ Utf8.encode line = e.toJsonl ∧ ∀ c ∈ line, ¬ IsBreak c

theorem onLine_textsValue (strings : List String) : (textsValue strings).OnLine := by
  apply onLine_arr
  intro v hv
  obtain ⟨s, -, rfl⟩ := List.mem_map.mp hv
  exact onLine_str s.toList

theorem keys_dictValue (items : List (String × Value)) :
    ∀ m ∈ items.map fun item => (lit item.1, item.2), OneLine (Token.str m.1).bytes := by
  intro m hm
  obtain ⟨item, -, rfl⟩ := List.mem_map.mp hm
  exact oneLine_quote item.1.toList

theorem values_dictValue {items : List (String × Value)} (h : ∀ item ∈ items, item.2.OnLine) :
    ∀ m ∈ items.map fun item => (lit item.1, item.2), m.2.OnLine := by
  intro m hm
  obtain ⟨item, hitem, rfl⟩ := List.mem_map.mp hm
  exact h item hitem

theorem onLine_dictValue {items : List (String × Value)} (h : ∀ item ∈ items, item.2.OnLine) :
    (dictValue items).OnLine := onLine_obj (keys_dictValue items) (values_dictValue h)

theorem onLine_asdict (e : Experience) : ∀ item ∈ e.asdict, item.2.OnLine := by
  have htext : ∀ s, (textValue s).OnLine := fun s => onLine_str s.toList
  have hfloat : ∀ x, (floatValue x).OnLine := fun x => onLine_num _
  unfold Experience.asdict
  simp only [List.forall_mem_cons, List.not_mem_nil, false_imp_iff, implies_true, and_true, htext, onLine_textsValue,
    true_and]
  refine ⟨onLine_dictValue ?_, onLine_dictValue ?_, onLine_dictValue ?_, onLine_dictValue ?_⟩
  all_goals simp [htext, onLine_textsValue, hfloat]

theorem exists_isLine (e : Experience) : ∃ line, IsLine e line := by
  obtain ⟨cs, hcs, hbreak⟩ := exists_line (keys_dictValue e.asdict) (values_dictValue (onLine_asdict e))
  refine ⟨'{' :: (cs ++ ['}']), cs, rfl, hcs, ?_⟩
  simp only [List.mem_cons, List.mem_append, List.not_mem_nil, or_false]
  rintro c (rfl | hc | rfl)
  · decide
  · exact hbreak c hc
  · decide

theorem IsLine.strip {e : Experience} {line : List Char} (h : IsLine e line) :
    PyText.strip PyText.isSpace line = line := by
  obtain ⟨cs, rfl, -, -⟩ := h
  rw [PyText.strip, List.dropWhile_cons_of_neg (by decide), ← List.cons_append,
    List.rdropWhile_concat_neg _ _ _ (by decide)]

/-- What `_load` keeps of the line of an experience. -/
def LoadedMemory.keep (memory : LoadedMemory) (e : Experience) : LoadedMemory where
  index := memory.index.set (textKey e.id) e.loaded
  antiPatterns := memory.antiPatterns ∪ (e.antiPatterns.map textKey).toFinset

theorem mapM_hashed (strings : List String) :
    (strings.map fun s => PyValue.str (pyStr s)).mapM hashed = .ok (strings.map textKey) := by
  induction strings with
  | nil => rfl
  | cons s strings ih =>
    rw [List.map_cons, List.mapM_cons, ih]
    rfl

theorem add_loaded (memory : LoadedMemory) (e : Experience) : memory.add e.loaded = .ok (memory.keep e) := by
  have hid : hashed e.loaded.id = .ok (textKey e.id) := rfl
  have hiter : e.loaded.antiPatterns.iter? = some (e.antiPatterns.map fun s => .str (pyStr s)) := rfl
  unfold LoadedMemory.add
  rw [hid, ok_bind, hiter]
  dsimp only [Option.elim]
  rw [ok_bind, mapM_hashed, ok_bind]
  rfl

theorem loadLine_line {e : Experience} (h : e.Doubles) {line : List Char} (hline : IsLine e line)
    (memory : LoadedMemory) : loadLine memory line = .ok (memory.keep e) := by
  have hread := fromJsonl_object (loads_line h (hline.elim fun _ hcs => hcs.2.1))
  have hne : line ≠ [] := by
    obtain ⟨cs, rfl, -⟩ := hline
    exact List.cons_ne_nil _ _
  unfold loadLine
  rw [hline.strip, if_neg hne, hread]
  exact add_loaded memory e

theorem foldlM_loadLine {es : List Experience} {lines : List (List Char)} (hlines : List.Forall₂ IsLine es lines)
    (h : ∀ e ∈ es, e.Doubles) (memory : LoadedMemory) :
    (lines ++ [[]]).foldlM loadLine memory = .ok (es.foldl LoadedMemory.keep memory) := by
  induction hlines generalizing memory with
  | nil => rfl
  | @cons e line es lines hline _ ih =>
    rw [List.cons_append, List.foldlM_cons, loadLine_line (h e (by simp)) hline, ok_bind]
    exact ih (fun e' he' => h e' (by simp [he'])) (memory.keep e)

theorem universal_eq_self {cs : List Char} (h : '\r' ∉ cs) : universal cs = cs := by
  induction cs with
  | nil => rfl
  | cons c cs ih =>
    rw [List.mem_cons, not_or] at h
    unfold universal
    split
    · next heq => exact absurd (List.cons.inj heq).1.symm h.1
    · next heq => exact absurd (List.cons.inj heq).1.symm h.1
    · next heq =>
      obtain ⟨rfl, rfl⟩ := List.cons.inj heq
      rw [ih h.2]
    · next heq => cases heq

/-- Lines, each with a line feed behind it. -/
def unlines (lines : List (List Char)) : List Char := lines.flatMap (· ++ ['\n'])

theorem unlines_eq (lines : List (List Char)) : unlines lines = ['\n'].intercalate (lines ++ [[]]) := by
  induction lines with
  | nil => rfl
  | cons line lines ih =>
    rw [unlines, List.flatMap_cons, ← unlines, ih]
    obtain ⟨next, rest, hrest⟩ : ∃ next rest, lines ++ [[]] = next :: rest := List.exists_cons_of_ne_nil (by simp)
    rw [List.cons_append, hrest, List.intercalate_cons_cons, List.append_assoc]

theorem splitOn_unlines {lines : List (List Char)} (h : ∀ line ∈ lines, '\n' ∉ line) :
    (unlines lines).splitOn '\n' = lines ++ [[]] := by
  rw [unlines_eq, List.splitOn_intercalate]
  · intro line hline
    rcases List.mem_append.mp hline with hline | hline
    · exact h line hline
    · rw [List.mem_singleton.mp hline]
      exact List.not_mem_nil
  · simp

theorem encode_unlines {es : List Experience} {lines : List (List Char)} (h : List.Forall₂ IsLine es lines) :
    Utf8.encode (unlines lines) = es.flatMap fun e => e.toJsonl ++ [10] := by
  induction h with
  | nil => rfl
  | @cons e line es lines hline _ ih =>
    obtain ⟨cs, -, hbytes, -⟩ := hline
    rw [unlines, List.flatMap_cons, ← unlines, Utf8.encode_append, Utf8.encode_append, hbytes, ih]
    rfl

/-- The text of lines of experiences, which the universal newlines leave as it is, and its lines. -/
theorem exists_lines (es : List Experience) : ∃ lines, List.Forall₂ IsLine es lines ∧
    Utf8.fromUtf8 (es.flatMap fun e => e.toJsonl ++ [10]) = some (String.ofList (unlines lines)) ∧
      universal (unlines lines) = unlines lines ∧ (unlines lines).splitOn '\n' = lines ++ [[]] := by
  choose line hline using exists_isLine
  have hlines : List.Forall₂ IsLine es (es.map line) :=
    List.forall₂_map_right_iff.mpr (List.forall₂_same.mpr fun e _ => hline e)
  have hbreak : ∀ l ∈ es.map line, ∀ c ∈ l, ¬ IsBreak c := by
    intro l hl
    obtain ⟨e, -, rfl⟩ := List.mem_map.mp hl
    exact (hline e).elim fun _ hcs => hcs.2.2
  have hreturn : '\r' ∉ unlines (es.map line) := by
    intro hmem
    obtain ⟨l, hl, hc⟩ := List.mem_flatMap.mp hmem
    rcases List.mem_append.mp hc with hc | hc
    · exact hbreak l hl _ hc (.inr rfl)
    · exact absurd (List.mem_singleton.mp hc) (by decide)
  have hdecode := Utf8.fromUtf8_bytes (String.ofList (unlines (es.map line)))
  rw [Utf8.bytes, String.toList_ofList, encode_unlines hlines] at hdecode
  exact ⟨es.map line, hlines, hdecode, universal_eq_self hreturn,
    splitOn_unlines fun l hl hc => hbreak l hl _ hc (.inl rfl)⟩

/-- Lines of experiences are read one after the other. -/
theorem load_lines {es : List Experience} (h : ∀ e ∈ es, e.Doubles)
    (hsize : (es.flatMap fun e => e.toJsonl ++ [10]).length ≤ maxSize) :
    load (some (es.flatMap fun e => e.toJsonl ++ [10])) = .ok (es.foldl LoadedMemory.keep .empty) := by
  obtain ⟨lines, hlines, hdecode, huniversal, hsplit⟩ := exists_lines es
  have htext : readText (es.flatMap fun e => e.toJsonl ++ [10]) = .ok (unlines lines) := by
    rw [readText, hdecode, Option.elim, String.toList_ofList, huniversal]
  unfold load
  dsimp only
  rw [if_neg (Nat.not_lt.mpr hsize)]
  show (do ((← readText _).splitOn '\n').foldlM loadLine .empty) = _
  rw [htext, ok_bind, hsplit]
  exact foldlM_loadLine hlines h .empty

/-! ## A restart -/

theorem Call.doubles (c : Call) : c.experience.Doubles := ⟨c.temperature_double, c.score_double⟩

theorem recorded_concat (calls : List Call) (c : Call) : recorded (calls ++ [c]) = record (recorded calls) c := by
  rw [recorded, List.foldl_append]
  rfl

theorem file_recorded (calls : List Call) :
    (recorded calls).file = some ((calls.map Call.experience).flatMap fun e => e.toJsonl ++ [10]) := by
  induction calls using List.reverseRecOn with
  | nil => rfl
  | append_singleton calls c ih =>
    rw [recorded_concat, record, ih, List.map_append, List.flatMap_append, List.map_singleton, List.flatMap_singleton]
    rfl

/-- What is loaded behind the calls. -/
def reloaded (calls : List Call) : LoadedMemory := (calls.map Call.experience).foldl LoadedMemory.keep .empty

theorem reloaded_concat (calls : List Call) (c : Call) :
    reloaded (calls ++ [c]) = (reloaded calls).keep c.experience := by
  rw [reloaded, List.map_append, List.foldl_append]
  rfl

theorem load_recorded {calls : List Call} (h : ((recorded calls).file.getD []).length ≤ maxSize) :
    load (recorded calls).file = .ok (reloaded calls) := by
  rw [file_recorded] at h ⊢
  apply load_lines
  · intro e he
    obtain ⟨c, -, rfl⟩ := List.mem_map.mp he
    exact c.doubles
  · exact h

theorem textKey_injective : Function.Injective textKey := fun _ _ h => pyStr_inj.mp (Key.str.inj h)

theorem index_reloaded (calls : List Call) : (reloaded calls).index.entries =
    (recorded calls).live.index.entries.map fun entry => (textKey entry.1, entry.2.loaded) := by
  induction calls using List.reverseRecOn with
  | nil => rfl
  | append_singleton calls c ih =>
    have hindex : (record (recorded calls) c).live.index =
        (recorded calls).live.index.set c.experience.id c.experience := by
      unfold record LearningMemory.store LearningMemory.learn
      dsimp only
      split_ifs <;> rfl
    rw [reloaded_concat, recorded_concat, hindex]
    show Dict.put (textKey c.experience.id) c.experience.loaded (reloaded calls).index.entries = _
    rw [ih]
    exact Dict.put_map textKey_injective Experience.loaded _ _ _

/-- The live object learns from what has been rejected. -/
theorem mem_live {calls : List Call} {p : String} : p ∈ (recorded calls).live.antiPatterns ↔
    ∃ c ∈ calls, c.decision = .rejected ∧ p ∈ c.antiPatterns := by
  induction calls using List.reverseRecOn with
  | nil => simp [recorded, LearningMemory.empty]
  | append_singleton calls c ih =>
    have hstep : p ∈ (record (recorded calls) c).live.antiPatterns ↔
        p ∈ (recorded calls).live.antiPatterns ∨ c.decision = .rejected ∧ p ∈ c.antiPatterns := by
      unfold record LearningMemory.store LearningMemory.learn
      dsimp only
      split_ifs with hrejected
      · simp [hrejected]
      · simp [hrejected]
    rw [recorded_concat, hstep, ih]
    simp only [List.mem_append, List.mem_singleton, or_and_right, exists_or, exists_eq_left]

/-- A fresh object learns from every line. -/
theorem mem_reloaded {calls : List Call} {k : Key} : k ∈ (reloaded calls).antiPatterns ↔
    ∃ c ∈ calls, ∃ p ∈ c.antiPatterns, textKey p = k := by
  induction calls using List.reverseRecOn with
  | nil => simp [reloaded, LoadedMemory.empty]
  | append_singleton calls c ih =>
    have hstep : k ∈ ((reloaded calls).keep c.experience).antiPatterns ↔
        k ∈ (reloaded calls).antiPatterns ∨ ∃ p ∈ c.antiPatterns, textKey p = k := by
      show k ∈ (reloaded calls).antiPatterns ∪ (c.antiPatterns.map textKey).toFinset ↔ _
      rw [Finset.mem_union, List.mem_toFinset, List.mem_map]
    rw [reloaded_concat, hstep, ih]
    simp only [List.mem_append, List.mem_singleton, or_and_right, exists_or, exists_eq_left]

/-- An anti-pattern that came with something else than a rejection has come with a rejection too. -/
def Rejected (calls : List Call) : Prop :=
  ∀ c ∈ calls, c.decision ≠ .rejected → ∀ p ∈ c.antiPatterns,
    ∃ c' ∈ calls, c'.decision = .rejected ∧ p ∈ c'.antiPatterns

theorem same_reloaded_iff (calls : List Call) : Same (recorded calls).live (reloaded calls) ↔ Rejected calls := by
  constructor
  · intro h c hc _ p hp
    apply mem_live.mp
    have hmem : textKey p ∈ (reloaded calls).antiPatterns := mem_reloaded.mpr ⟨c, hc, p, hp, rfl⟩
    rw [h.antiPatterns] at hmem
    obtain ⟨p', hp', heq⟩ := Finset.mem_image.mp hmem
    rwa [textKey_injective heq] at hp'
  · intro h
    refine ⟨index_reloaded calls, ?_⟩
    ext k
    rw [mem_reloaded, Finset.mem_image]
    constructor
    · rintro ⟨c, hc, p, hp, rfl⟩
      refine ⟨p, mem_live.mpr ?_, rfl⟩
      by_cases hdecision : c.decision = .rejected
      · exact ⟨c, hc, hdecision, hp⟩
      · exact h c hc hdecision p hp
    · rintro ⟨p, hp, rfl⟩
      obtain ⟨c, hc, -, hpattern⟩ := mem_live.mp hp
      exact ⟨c, hc, p, hpattern, rfl⟩

/-- **A restart** brings everything back just when every anti-pattern has come with a rejection. -/
theorem survives_iff (calls : List Call) (h : ((recorded calls).file.getD []).length ≤ 50 * (1024 * 1024)) :
    Survives (recorded calls) ↔ ∀ c ∈ calls, c.decision ≠ .rejected → ∀ p ∈ c.antiPatterns,
      ∃ c' ∈ calls, c'.decision = .rejected ∧ p ∈ c'.antiPatterns := by
  have hload := load_recorded h
  constructor
  · rintro ⟨loaded, hloaded, hsame⟩
    obtain rfl := Except.ok.inj (hload.symm.trans hloaded)
    exact (same_reloaded_iff calls).mp hsame
  · intro hrejected
    exact ⟨reloaded calls, hload, (same_reloaded_iff calls).mpr hrejected⟩

/-- A generation that was edited, with one anti-pattern. -/
def edited : Call where
  id := "mem_0123456789ab"
  ts := "2026-01-01T00:00:00Z"
  source := ⟨"ollama", "qwen", "0f"⟩
  method := ⟨[], 0⟩
  artifact := ⟨"python", "risk", []⟩
  decision := .edited
  reason := "shortened"
  qualityScore := 0
  antiPatterns := ["global state"]
  temperature_double := by decide +kernel
  score_double := by decide +kernel

/-- Behind a rejection for the same reason, nothing of it is lost. -/
theorem survives_rejected_edited : Survives (recorded [{ edited with decision := .rejected }, edited]) := by
  apply (survives_iff [{ edited with decision := .rejected }, edited] (by decide +kernel)).mpr
  intro c _ _ p hp
  have hpatterns : c.antiPatterns = ["global state"] := by
    rcases List.mem_pair.mp ‹_› with rfl | rfl <;> rfl
  rw [hpatterns] at hp
  exact ⟨{ edited with decision := .rejected }, by simp, rfl, hp⟩

theorem length_edited : ((recorded [edited]).file.getD []).length ≤ 50 * (1024 * 1024) := by decide +kernel

theorem edited_forgotten : ((recorded [edited]).file.getD []).length ≤ 50 * (1024 * 1024) ∧
    ¬ Survives (recorded [edited]) := by
  refine ⟨length_edited, ?_⟩
  rintro ⟨loaded, hloaded, hsame⟩
  obtain rfl := Except.ok.inj ((load_recorded length_edited).symm.trans hloaded)
  obtain ⟨c, hc, hrejected, -⟩ := (same_reloaded_iff [edited]).mp hsame edited (by simp) (by decide) "global state"
    (by simp [edited])
  rw [List.mem_singleton.mp hc] at hrejected
  cases hrejected

end Atlas.Agent.Memory
