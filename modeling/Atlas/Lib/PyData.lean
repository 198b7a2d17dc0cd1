import Atlas.Lib.Json.Line
import Atlas.Lib.PyJson

/-!
# What Python reads of JSON data

* `Data.loaded` : the object of data; `ofJson_write` : it is what is read of the data, however its texts are quoted;
* `readValue_write` : the bytes of a value are read as that value;
* `Data.exists_text` : the text that a dict is written as, on one line.
-/

namespace PyJson
open Json

def loaded : Data → PyValue :=
  Data.fold ⟨fun
      | .null => .none
      | .true => .bool true
      | .false => .bool false,
    pyNumber, fun s => .str (pyStr s), .list, fun es => .dict (es.map fun e => (pyStr e.1, e.2))⟩

@[simp] theorem loaded_text (s : String) : loaded (.text s) = .str (pyStr s) := rfl

@[simp] theorem loaded_num (n : NumLit) : loaded (.num n) = pyNumber n := rfl

theorem loaded_list (items : List Data) : loaded (.list items) = .list (items.map loaded) := Data.fold_list _ items

theorem loaded_dict (items : List (String × Data)) :
    loaded (.dict items) = .dict (items.map fun e => (pyStr e.1, loaded e.2)) := by
  rw [loaded, Data.fold_dict]
  dsimp only
  rw [List.map_map]
  rfl

theorem ofElements_map {items : List Data} {f : Data → Value} (h : ∀ d ∈ items, ofJson (f d) = some (loaded d)) :
    ofElements (items.map f) = some (items.map loaded) := by
  induction items with
  | nil => rfl
  | cons d items ih =>
    obtain ⟨hd, hrest⟩ := List.forall_mem_cons.mp h
    rw [List.map_cons, ofElements, hd, ih hrest, List.map_cons]

/-- Data are read as what they stand for. -/
theorem ofJson_write {q : String → StrLit} (hq : ∀ s, pyText (q s) = some (pyStr s)) (d : Data) :
    ofJson (d.write q) = some (loaded d) := by
  induction d with
  | word w => cases w <;> rfl
  | num n => rfl
  | text s =>
    rw [Data.write_text, ofJson, hq]
    rfl
  | list items ih =>
    rw [Data.write_list, ofJson, ofElements_map ih, loaded_list]
    rfl
  | dict items ih =>
    have hmembers : ofMembers (items.map fun e => (q e.1, e.2.write q)) =
        some (items.map fun e => (pyStr e.1, loaded e.2)) := by
      rw [ofMembers_iff, List.forall₂_map_left_iff, List.forall₂_map_right_iff, List.forall₂_same]
      exact fun e he => ⟨hq e.1, ih e he⟩
    rw [Data.write_dict, ofJson, hmembers, loaded_dict]
    rfl

theorem pyText_asciiLit (s : String) : pyText (asciiLit s) = some (pyStr s) := pyText_eq_iff.mpr (runes_asciiLit s)

/-- The bytes of a value are read as the value. -/
theorem readValue_write (layout : Layout) (v : Value) :
    readValue (v.write layout).length (v.write layout) = some (v, []) := by
  have hreads := reads_write layout v (notStart_nil IsNumberByte)
  rw [List.append_nil] at hreads
  have hdepth : v.depth ≤ (v.write layout).length :=
    (Value.depth_le_length v).trans (Nat.le_of_add_right_le hreads.length_le)
  exact readValue_complete v hdepth _ _ hreads

/-- A dict is written as the text of one line. -/
theorem exists_text (items : List (String × Data)) : ∃ cs,
    Utf8.encode cs = ((Data.dict items).write asciiLit).write .spaced ∧ ∀ c ∈ cs, ¬ IsBreak c := by
  have hkeys : ∀ m ∈ items.map (fun e => (asciiLit e.1, e.2.write asciiLit)), OneLine (Token.str m.1).bytes := by
    intro m hm
    obtain ⟨e, -, rfl⟩ := List.mem_map.mp hm
    exact oneLine_asciiLit e.1
  have hvalues : ∀ m ∈ items.map (fun e => (asciiLit e.1, e.2.write asciiLit)), m.2.OnLine := by
    intro m hm
    obtain ⟨e, -, rfl⟩ := List.mem_map.mp hm
    exact onLine_write oneLine_asciiLit e.2
  rw [Data.write_dict]
  obtain ⟨cs, hcs, hbreak⟩ := exists_line hkeys hvalues
  refine ⟨'{' :: (cs ++ ['}']), hcs, ?_⟩
  simp only [List.mem_cons, List.mem_append, List.not_mem_nil, or_false]
  rintro c (rfl | hc | rfl)
  · decide
  · exact hbreak c hc
  · decide

end PyJson
