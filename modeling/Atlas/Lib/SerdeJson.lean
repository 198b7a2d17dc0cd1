import Atlas.Lib.Json.Ascii
import Atlas.Lib.Json.Data
import Atlas.Lib.Binary64

/-!
# Decoding JSON objects into records, as serde's derived code does

* `text?` : the text of a string literal, absent where an escape or a byte is no character;
* `RecordField`, `visitMap` : the members of an object, each to the field with its name: an unknown key and a second
  member of one name are errors (`deny_unknown_fields`);
* `deserialize` : a record from an object, with every required field there. The array form of a record is left out;
* `data` : what `Value` makes of a text; `data_write` : of data that were written.
-/

namespace SerdeJson

open Json

inductive Error
  | expected (type : String)
  | invalidText
  | numberOutOfRange
  | unknownField (key : String)
  | duplicateField (name : String)
  | missingField (name : String)
  | unknownVariant (name : String)
  | invalidValue (text : String)
  deriving DecidableEq, Repr

def charOf : Rune → Option Char
  | .char c => some c
  | _ => none

def text? (s : StrLit) : Option String := ((runes s).mapM charOf).map String.ofList

theorem text?_eq {l : StrLit} {s : String} (h : runes l = s.toList.map .char) : text? l = some s := by
  have hchars : ∀ cs : List Char, (cs.map Rune.char).mapM charOf = some cs := by
    intro cs
    induction cs with
    | nil => rfl
    | cons c cs ih =>
      rw [List.map_cons, List.mapM_cons, ih]
      rfl
  rw [text?, h, hchars, Option.map_some, String.ofList_toList]

@[simp] theorem text?_lit (s : String) : text? (lit s) = some s := text?_eq (runes_lit s)

@[simp] theorem text?_asciiLit (s : String) : text? (asciiLit s) = some s := text?_eq (runes_asciiLit s)

/-! ## Types of fields -/

def string : Value → Except Error String
  | .str s => (text? s).elim (.error .invalidText) .ok
  | _ => .error (.expected "a string")

/-- A number literal is read as the nearest double. -/
def f64 : Value → Except Error ℚ
  | .num n => (Binary64.round n.value).elim (.error .numberOutOfRange) .ok
  | _ => .error (.expected "f64")

/-- `Option<T>` : absent for `null`. -/
def option {α : Type} (decode : Value → Except Error α) : Value → Except Error (Option α)
  | .word .null => .ok none
  | v => (decode v).map some

/-- The variant of a name. -/
def named {α : Type} (variants : List (String × α)) (name : String) : Option α :=
  (variants.find? (·.1 = name)).map Prod.snd

theorem named_isSome_iff {α : Type} {variants : List (String × α)} {name : String} :
    (named variants name).isSome = true ↔ name ∈ variants.map Prod.fst := by
  rw [named, Option.isSome_map, List.find?_isSome]
  simp

/-- An enumeration without fields: the name of a variant, alone or as the key of `null`. -/
def variant {α : Type} (variants : List (String × α)) (v : Value) : Except Error α :=
  let name : Except Error String :=
    match v with
    | .str s => string (.str s)
    | .obj [(k, .word .null)] => string (.str k)
    | _ => .error (.expected "string or map")
  match name with
  | .error e => .error e
  | .ok name => (named variants name).elim (.error (.unknownVariant name)) .ok

/-- A map; later members replace earlier ones of the same key. -/
def mapOf {α : Type} (decode : Value → Except Error α) : Value → Except Error (List (String × α))
  | .obj ms =>
    ms.foldlM (fun entries m =>
      match string (.str m.1), decode m.2 with
      | .ok key, .ok a => .ok ((entries.filter (·.1 ≠ key)) ++ [(key, a)])
      | .error e, _ => .error e
      | _, .error e => .error e) []
  | _ => .error (.expected "a map")

/-- What `mapOf` does with a member. -/
def addEntry {α : Type} (decode : Value → Except Error α) (entries : List (String × α)) (m : StrLit × Value) :
    Except Error (List (String × α)) :=
  match string (.str m.1), decode m.2 with
  | .ok key, .ok a => .ok ((entries.filter (·.1 ≠ key)) ++ [(key, a)])
  | .error e, _ => .error e
  | _, .error e => .error e

theorem mapOf_obj {α : Type} (decode : Value → Except Error α) (ms : List (StrLit × Value)) :
    mapOf decode (.obj ms) = ms.foldlM (addEntry decode) [] := rfl

/-- The tokens a `serde_json::Value` can hold. -/
def holdable : Token → Bool
  | .num n => (Binary64.round n.value).isSome
  | .str s => (text? s).isSome
  | _ => true

def jsonValue (v : Value) : Except Error Value := if v.tokens.all holdable then .ok v else .error .invalidText

/-! ## Values of any type -/

/-- Entries of which a later one replaces an earlier one with its key. -/
def latest {β : Type} (es : List (String × β)) : List (String × β) :=
  es.foldl (fun entries e => (entries.filter (·.1 ≠ e.1)) ++ [e]) []

mutual

/-- A `Value` whose tokens are all `holdable`. `number` : how a number is written that has been read. The order of the
keys is left to the one who writes them. -/
def data (number : NumLit → NumLit) : Value → Data
  | .word w => .word w
  | .num n => .num (number n)
  | .str s => .text ((text? s).getD "")
  | .arr vs => .list (dataItems number vs)
  | .obj ms => .dict (latest (dataEntries number ms))

def dataItems (number : NumLit → NumLit) : List Value → List Data
  | [] => []
  | v :: vs => data number v :: dataItems number vs

def dataEntries (number : NumLit → NumLit) : List (StrLit × Value) → List (String × Data)
  | [] => []
  | (k, v) :: ms => ((text? k).getD "", data number v) :: dataEntries number ms

end

/-- Keys that come once stay where they are. -/
theorem append_latest {β : Type} {es rest : List (String × β)} (h : ((es ++ rest).map Prod.fst).Nodup) :
    rest.foldl (fun entries e => (entries.filter (·.1 ≠ e.1)) ++ [e]) es = es ++ rest := by
  induction rest generalizing es with
  | nil => rw [List.foldl_nil, List.append_nil]
  | cons e rest ih =>
    have hkept : es.filter (·.1 ≠ e.1) = es := by
      refine List.filter_eq_self.mpr fun x hx => decide_eq_true fun hkey => ?_
      rw [List.map_append, List.map_cons] at h
      exact (List.nodup_append.mp h).2.2 _ (List.mem_map_of_mem hx) _ (List.mem_cons_self ..) hkey
    rw [List.foldl_cons, hkept, ih (by rwa [List.append_assoc]), List.append_assoc]
    rfl

theorem latest_eq_self {β : Type} {es : List (String × β)} (h : (es.map Prod.fst).Nodup) : latest es = es :=
  append_latest h

section write
variable {q : String → StrLit} (hq : ∀ s, text? (q s) = some s)
include hq

/-- **Data that were written** are read as they were, but for the numbers. -/
theorem data_write (number : NumLit → NumLit) {d : Data} (h : d.Distinct) :
    data number (d.write q) = d.mapNum number := by
  induction d with
  | word w => rfl
  | num n => rfl
  | text s => exact congrArg Data.text (by rw [hq]; rfl)
  | list items ih =>
    rw [Data.distinct_list] at h
    have hitems : dataItems number (items.map (Data.write q)) = items.map (Data.mapNum number) := by
      induction items with
      | nil => rfl
      | cons d ds ihs =>
        rw [List.map_cons, dataItems, ih d (by simp) (h d (by simp)),
          ihs (fun x hx => ih x (by simp [hx])) fun x hx => h x (by simp [hx]), List.map_cons]
    rw [Data.write_list, data, hitems, Data.mapNum_list]
  | dict items ih =>
    rw [Data.distinct_dict] at h
    obtain ⟨hkeys, hvalues⟩ := h
    have hentries : dataEntries number (items.map fun e => (q e.1, e.2.write q)) =
        items.map fun e => (e.1, e.2.mapNum number) := by
      clear hkeys
      induction items with
      | nil => rfl
      | cons e es ihs =>
        rw [List.map_cons, dataEntries, ih e (by simp) (hvalues e (by simp)), hq,
          ihs (fun x hx => ih x (by simp [hx])) fun x hx => hvalues x (by simp [hx]), List.map_cons]
        rfl
    rw [Data.write_dict, data, hentries, latest_eq_self (by rwa [List.map_map]), Data.mapNum_dict]

theorem addEntry_write {α : Type} (decode : Value → Except Error α) (entries : List (String × α)) (k : String)
    (v : Value) :
    addEntry decode entries (q k, v) = (decode v).map fun a => (entries.filter (·.1 ≠ k)) ++ [(k, a)] := by
  have hkey : string (.str (q k)) = .ok k := by
    rw [string, hq]
    rfl
  unfold addEntry
  dsimp only
  rw [hkey]
  cases decode v <;> rfl

theorem foldlM_addEntry {α β : Type} (decode : Value → Except Error α) (g : β → Value) {items : List (String × β)}
    (h : (items.map Prod.fst).Nodup) (entries : List (String × α))
    (hnew : ∀ e ∈ entries, ∀ item ∈ items, e.1 ≠ item.1) :
    (items.map fun e => (q e.1, g e.2)).foldlM (addEntry decode) entries =
      (items.mapM fun e => (decode (g e.2)).map fun a => (e.1, a)).map (entries ++ ·) := by
  induction items generalizing entries with
  | nil => exact congrArg Except.ok (List.append_nil entries).symm
  | cons item items ih =>
    rw [List.map_cons, List.nodup_cons] at h
    rw [List.map_cons, List.foldlM_cons, addEntry_write hq, List.mapM_cons]
    cases hdecode : decode (g item.2) with
    | error e => rfl
    | ok a =>
      have hkept : entries.filter (·.1 ≠ item.1) = entries :=
        List.filter_eq_self.mpr fun e he => decide_eq_true (hnew e he item (by simp))
      have hfresh : ∀ e ∈ entries ++ [(item.1, a)], ∀ later ∈ items, e.1 ≠ later.1 := by
        intro e he later hlater
        rcases List.mem_append.mp he with he | he
        · exact hnew e he later (by simp [hlater])
        · rw [List.mem_singleton.mp he]
          exact fun hkey => h.1 (hkey ▸ List.mem_map_of_mem hlater)
      have hrest := ih h.2 (entries ++ [(item.1, a)]) hfresh
      show (items.map fun e => (q e.1, g e.2)).foldlM (addEntry decode) (entries.filter (·.1 ≠ item.1) ++ [(item.1, a)])
        = _
      rw [hkept, hrest]
      cases items.mapM fun e => (decode (g e.2)).map fun a => (e.1, a) with
      | error e => rfl
      | ok es => exact congrArg Except.ok (List.append_assoc entries [(item.1, a)] es)

/-- A map whose keys come once is read entry by entry. -/
theorem mapOf_write {α β : Type} (decode : Value → Except Error α) (g : β → Value) {items : List (String × β)}
    (h : (items.map Prod.fst).Nodup) : mapOf decode (.obj (items.map fun e => (q e.1, g e.2))) =
      items.mapM fun e => (decode (g e.2)).map fun a => (e.1, a) := by
  rw [mapOf_obj, foldlM_addEntry hq decode g h [] (by simp)]
  cases items.mapM fun e => (decode (g e.2)).map fun a => (e.1, a) <;> rfl

end write

theorem jsonValue_cases (v : Value) : jsonValue v = .ok v ∨ jsonValue v = .error .invalidText := by
  unfold jsonValue
  split_ifs
  · exact .inl rfl
  · exact .inr rfl

/-- Values are kept as they are. -/
theorem eq_of_mapM_jsonValue {β : Type} (g : β → Value) {items : List (String × β)} {entries : List (String × Value)}
    (h : items.mapM (fun e => (jsonValue (g e.2)).map fun v => (e.1, v)) = .ok entries) :
    entries = items.map fun e => (e.1, g e.2) := by
  induction items generalizing entries with
  | nil => exact (Except.ok.inj h).symm
  | cons e es ih =>
    rw [List.mapM_cons] at h
    rcases jsonValue_cases (g e.2) with hvalue | hvalue
    · rw [hvalue] at h
      cases hrest : es.mapM fun e => (jsonValue (g e.2)).map fun v => (e.1, v) with
      | error _ =>
        rw [hrest] at h
        cases h
      | ok rest =>
        rw [hrest] at h
        rw [← Except.ok.inj h, ih hrest, List.map_cons]
    · rw [hvalue] at h
      cases h

theorem mapM_string {q : String → StrLit} (hq : ∀ s, text? (q s) = some s) (items : List (String × String)) :
    items.mapM (fun e => (string (.str (q e.2))).map fun s => (e.1, s)) = .ok items := by
  induction items with
  | nil => rfl
  | cons e es ih =>
    have hkey : string (.str (q e.2)) = .ok e.2 := by
      rw [string, hq]
      rfl
    rw [List.mapM_cons, ih, hkey]
    rfl

/-! ## Records -/

/-- A field of the record `σ`. `required` : an object without it is an error. -/
structure RecordField (σ : Type) where
  name : String
  required : Bool
  set : Value → σ → Except Error σ

def RecordField.of {σ α : Type} (name : String) (decode : Value → Except Error α) (put : α → σ → σ) :
    RecordField σ where
  name := name
  required := true
  set v s := (decode v).map fun a => put a s

def RecordField.optional {σ α : Type} (name : String) (decode : Value → Except Error α) (put : α → σ → σ) :
    RecordField σ :=
  { RecordField.of name decode put with required := false }

variable {σ : Type}

/-- The record after the members, and the names seen. -/
def visitMap (fields : List (RecordField σ)) : List (StrLit × Value) → List String → σ → Except Error (σ × List String)
  | [], seen, s => .ok (s, seen)
  | (k, v) :: ms, seen, s =>
    match text? k with
    | none => .error .invalidText
    | some key =>
      match fields.find? (·.name = key) with
      | none => .error (.unknownField key)
      | some f =>
        if key ∈ seen then .error (.duplicateField key)
        else
          match f.set v s with
          | .error e => .error e
          | .ok s => visitMap fields ms (key :: seen) s

def deserialize (fields : List (RecordField σ)) (blank : σ) : Value → Except Error σ
  | .obj ms =>
    match visitMap fields ms [] blank with
    | .error e => .error e
    | .ok (s, seen) =>
      match fields.find? (fun f => f.required ∧ f.name ∉ seen) with
      | some f => .error (.missingField f.name)
      | none => .ok s
  | _ => .error (.expected "a struct")

/-! ## Reading a record step by step -/

theorem ok_bind {α β : Type} (a : α) (f : α → Except Error β) : (Except.ok a >>= f) = f a := rfl

theorem map_eq_bind {α β : Type} (x : Except Error α) (f : α → β) : x.map f = x >>= fun a => .ok (f a) := rfl

/-- The field of a key that has not been seen. -/
def fieldFor (fields : List (RecordField σ)) (seen : List String) (key : String) : Except Error (RecordField σ) :=
  match fields.find? (·.name = key) with
  | none => .error (.unknownField key)
  | some f => if key ∈ seen then .error (.duplicateField key) else .ok f

theorem visitMap_nil (fields : List (RecordField σ)) (seen : List String) (s : σ) :
    visitMap fields [] seen s = .ok (s, seen) := rfl

theorem visitMap_asciiLit (fields : List (RecordField σ)) (k : String) (v : Value) (ms : List (StrLit × Value))
    (seen : List String) (s : σ) :
    visitMap fields ((asciiLit k, v) :: ms) seen s = (do
      let f ← fieldFor fields seen k
      let s ← f.set v s
      visitMap fields ms (k :: seen) s) := by
  rw [visitMap, text?_asciiLit]
  unfold fieldFor
  dsimp only
  cases fields.find? (·.name = k) with
  | none => rfl
  | some f =>
    dsimp only
    split_ifs
    · rfl
    · show _ = f.set v s >>= _
      cases f.set v s <;> rfl

/-- The record, if every required field has been seen. -/
def finish (fields : List (RecordField σ)) (p : σ × List String) : Except Error σ :=
  match fields.find? (fun f => f.required ∧ f.name ∉ p.2) with
  | some f => .error (.missingField f.name)
  | none => .ok p.1

theorem deserialize_obj (fields : List (RecordField σ)) (blank : σ) (ms : List (StrLit × Value)) :
    deserialize fields blank (.obj ms) = (visitMap fields ms [] blank >>= finish fields) := by
  rw [deserialize]
  cases visitMap fields ms [] blank <;> rfl

end SerdeJson
