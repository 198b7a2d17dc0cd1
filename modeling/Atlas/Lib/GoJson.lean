import Atlas.Lib.Json.Text
import Atlas.Lib.Binary64

/-!
# Decoding JSON into records, as Go's `encoding/json` does

* `firstValue` : the value a decoder reads from a byte string, nested at most 10000 deep; what follows is not read;
* `goString` : a string literal as a Go string, U+FFFD for each byte and surrogate that is no character;
* `StructField`, `decodeStruct` : a record is filled member by member; a key selects a field by its name, or without
  regard to case; an unknown key is an error (`DisallowUnknownFields`); `null` leaves a field as it is;
* `HeldIn` : where a field's value is held; `HeldIn.get_eq` : it is what the last member with its name wrote.
-/

namespace GoJson

open Json

def maxNestingDepth : Nat := 10000

/-- What `Decoder.Decode` reads, absent for text that does not start with a value. -/
def firstValue (data : List UInt8) : Option Value := (readValue maxNestingDepth data).map Prod.fst

theorem firstValue_render (v : Value) (hdepth : v.depth ≤ maxNestingDepth) {rest : List UInt8}
    (hrest : NotStart IsNumberByte rest) : firstValue (v.render ++ rest) = some v := by
  rw [firstValue, readValue_complete v hdepth _ _ (reads_render v hrest)]
  rfl

/-! ## Strings -/

def goRune : Rune → Char
  | .char c => c
  | .surrogate _ _ => Utf8.replacement
  | .broken _ => Utf8.replacement

def goString (s : StrLit) : String := String.ofList ((runes s).map goRune)

/-- A string without U+FFFD comes from a literal of these very characters. -/
theorem goString_eq_iff {lit : StrLit} {s : String} (hs : Utf8.replacement ∉ s.toList) :
    goString lit = s ↔ runes lit = s.toList.map .char := by
  constructor
  · rintro rfl
    rw [goString, String.toList_ofList] at hs ⊢
    rw [List.map_map]
    symm
    conv_rhs => rw [← List.map_id (runes lit)]
    apply List.map_congr_left
    intro r hr
    cases r with
    | char c => rfl
    | surrogate u h => exact absurd (List.mem_map.mpr ⟨_, hr, rfl⟩) hs
    | broken b => exact absurd (List.mem_map.mpr ⟨_, hr, rfl⟩) hs
  · intro h
    rw [goString, h, List.map_map]
    have hid : goRune ∘ Rune.char = id := rfl
    rw [hid, List.map_id, String.ofList_toList]

@[simp] theorem goString_lit (s : String) : goString (lit s) = s := by
  rw [goString, runes_lit, List.map_map]
  have hid : goRune ∘ Rune.char = id := rfl
  rw [hid, List.map_id, String.ofList_toList]

theorem goString_eq_empty {lit : StrLit} : goString lit = "" ↔ runes lit = [] :=
  goString_eq_iff (by simp)

/-! ## Fields -/

inductive DecodeError
  /-- no value, or one nested too deep -/
  | malformed
  | unknownField (key : String)
  | wrongType (found type : String)
  deriving DecidableEq, Repr

/-- The letters that differ in case only count as one; U+017F and U+212A are the letters S and K. -/
def foldRune (c : Char) : Char :=
  if 'a' ≤ c ∧ c ≤ 'z' then Char.ofNat (c.toNat - 32)
  else if c = Char.ofNat 0x17F then 'S'
  else if c = Char.ofNat 0x212A then 'K'
  else c

def foldName (s : String) : List Char := s.toList.map foldRune

/-- The name of a value's kind in error texts. -/
def kind : Value → String
  | .word .null => "null"
  | .word _ => "bool"
  | .num _ => "number"
  | .str _ => "string"
  | .arr _ => "array"
  | .obj _ => "object"

/-- A field of the record `σ` : its name in the text, and what a value written to it does. -/
structure StructField (σ : Type) where
  name : String
  set : Value → σ → Except DecodeError σ

section Struct

variable {σ α : Type}

/-- A field read by `decode`, which answers `none` for `null`. -/
def StructField.of (name : String) (decode : Value → Except DecodeError (Option α)) (put : α → σ → σ) :
    StructField σ where
  name := name
  set v s :=
    match decode v with
    | .error e => .error e
    | .ok none => .ok s
    | .ok (some a) => .ok (put a s)

/-- The field a key selects. -/
def field? (fields : List (StructField σ)) (key : String) : Option (StructField σ) :=
  match fields.find? (fun f => f.name = key) with
  | some f => some f
  | none => fields.find? (fun f => foldName f.name = foldName key)

def decodeMembers (fields : List (StructField σ)) : List (StrLit × Value) → σ → Except DecodeError σ
  | [], s => .ok s
  | (k, v) :: ms, s =>
    match field? fields (goString k) with
    | none => .error (.unknownField (goString k))
    | some f =>
      match f.set v s with
      | .error e => .error e
      | .ok s => decodeMembers fields ms s

def decodeStruct (fields : List (StructField σ)) : Value → σ → Except DecodeError σ
  | .obj ms, s => decodeMembers fields ms s
  | .word .null, s => .ok s
  | v, _ => .error (.wrongType (kind v) "struct")

/-- A field that is a record itself: its members are added to what it holds. -/
def StructField.nested {τ : Type} (name : String) (fields : List (StructField τ)) (get : σ → τ) (put : τ → σ → σ) :
    StructField σ where
  name := name
  set v s := (decodeStruct fields v (get s)).map fun t => put t s

theorem field?_sound {fields : List (StructField σ)} {key : String} {f : StructField σ}
    (h : field? fields key = some f) : f ∈ fields ∧ foldName f.name = foldName key := by
  unfold field? at h
  split at h
  · rename_i g hg
    obtain rfl := Option.some.inj h
    have hname : g.name = key := by simpa using List.find?_some hg
    exact ⟨List.mem_of_find?_eq_some hg, by rw [hname]⟩
  · exact ⟨List.mem_of_find?_eq_some h, by simpa using List.find?_some h⟩

/-- A key that is the name of a field selects that field. -/
theorem field?_exact {fields : List (StructField σ)} {key : String} {f g : StructField σ}
    (h : field? fields key = some f) (hg : g ∈ fields) (hkey : g.name = key) : f.name = key := by
  unfold field? at h
  split at h
  · rename_i f' hf'
    obtain rfl := Option.some.inj h
    simpa using List.find?_some hf'
  · rename_i hnone
    exact absurd (by simpa using hkey) (List.find?_eq_none.mp hnone g hg)

theorem decodeMembers_concat {fields : List (StructField σ)} {ms : List (StrLit × Value)} {m : StrLit × Value}
    {s s' : σ} (h : decodeMembers fields (ms ++ [m]) s = .ok s') :
    ∃ t, decodeMembers fields ms s = .ok t ∧ ∃ f, field? fields (goString m.1) = some f ∧ f.set m.2 t = .ok s' := by
  induction ms generalizing s with
  | nil =>
    refine ⟨s, rfl, ?_⟩
    rw [List.nil_append, decodeMembers] at h
    split at h
    · cases h
    · rename_i f hf
      split at h
      · cases h
      · rename_i t ht
        obtain rfl := Except.ok.inj h
        exact ⟨f, hf, ht⟩
  | cons x ms ih =>
    rw [List.cons_append, decodeMembers] at h
    rw [decodeMembers]
    split at h
    · cases h
    · rename_i f hf
      split at h
      · cases h
      · rename_i t ht
        obtain ⟨t', ht', hm⟩ := ih h
        exact ⟨t', ht', hm⟩

/-- Every member of an accepted object went to a field. -/
theorem decodeMembers_known {fields : List (StructField σ)} {ms : List (StrLit × Value)} {s s' : σ}
    (h : decodeMembers fields ms s = .ok s') :
    ∀ m ∈ ms, ∃ f, field? fields (goString m.1) = some f ∧ ∃ t t', f.set m.2 t = .ok t' := by
  induction ms generalizing s with
  | nil => simp
  | cons m ms ih =>
    unfold decodeMembers at h
    split at h
    · cases h
    · rename_i f hf
      split at h
      · cases h
      · rename_i s₁ hset
        intro m' hm'
        rcases List.mem_cons.mp hm' with rfl | hm'
        · exact ⟨f, hf, _, _, hset⟩
        · exact ih h m' hm'

/-- A field that leaves `get` as it is. -/
def Preserves (get : σ → α) (f : StructField σ) : Prop := ∀ v s s', f.set v s = .ok s' → get s' = get s

/-- The field named `n` is read by `decode` and held in `get`, which no other field changes. -/
def HeldIn (fields : List (StructField σ)) (n : String) (decode : Value → Except DecodeError (Option α))
    (get : σ → α) : Prop :=
  ∃ put, (∀ a s, get (put a s) = a) ∧ ∀ f ∈ fields, f = .of n decode put ∨ (f.name ≠ n ∧ Preserves get f)

theorem preserves_of {β : Type} {name : String} {decode : Value → Except DecodeError (Option β)} {put : β → σ → σ}
    {get : σ → α} (h : ∀ a s, get (put a s) = get s) : Preserves get (.of name decode put) := by
  intro v s s' hset
  unfold StructField.of at hset
  simp only at hset
  split at hset
  · cases hset
  · rw [Except.ok.inj hset]
  · rw [← Except.ok.inj hset, h]

/-- The value of a member that was written to a field has the type of the field. -/
theorem HeldIn.decode_ok {fields : List (StructField σ)} {n : String}
    {decode : Value → Except DecodeError (Option α)} {get : σ → α} (hn : HeldIn fields n decode get)
    {ms : List (StrLit × Value)} (hknown : ∀ m ∈ ms, ∃ f ∈ fields, f.name = goString m.1) {s s' : σ}
    (h : decodeMembers fields ms s = .ok s') {v : Value}
    (hlast : lastMember (fun k => goString k = n) ms = some v) : ∃ a, decode v = .ok a := by
  obtain ⟨put, -, hall⟩ := hn
  obtain ⟨m, hm, hkey, rfl⟩ := mem_of_lastMember hlast
  obtain ⟨f, hf, t, t', hset⟩ := decodeMembers_known h m hm
  obtain ⟨g, hg, hgname⟩ := hknown m hm
  have hfname : f.name = n := (field?_exact hf hg hgname).trans (by simpa using hkey)
  rcases hall f (field?_sound hf).1 with rfl | ⟨hne, -⟩
  · unfold StructField.of at hset
    simp only at hset
    split at hset
    · cases hset
    · exact ⟨_, by assumption⟩
    · exact ⟨_, by assumption⟩
  · exact absurd hfname hne

/-- A field holds what the last member with its name wrote, if that was not `null`. The keys are all names of fields,
spelled as they are. -/
theorem HeldIn.get_eq {fields : List (StructField σ)} {n : String}
    {decode : Value → Except DecodeError (Option α)} {get : σ → α} (hn : HeldIn fields n decode get)
    {ms : List (StrLit × Value)} (hknown : ∀ m ∈ ms, ∃ f ∈ fields, f.name = goString m.1) {s s' : σ}
    (h : decodeMembers fields ms s = .ok s') {v : Value} {a : α}
    (hlast : lastMember (fun k => goString k = n) ms = some v) (hv : decode v = .ok (some a)) : get s' = a := by
  obtain ⟨put, hput, hall⟩ := hn
  induction ms using List.reverseRecOn generalizing s' with
  | nil => simp [lastMember] at hlast
  | append_singleton ms m ih =>
    obtain ⟨t, ht, f, hf, hset⟩ := decodeMembers_concat h
    obtain ⟨g, hg, hgname⟩ := hknown m (by simp)
    have hfname : f.name = goString m.1 := field?_exact hf hg hgname
    rw [lastMember_concat] at hlast
    by_cases hkey : goString m.1 = n
    · rw [if_pos (by simpa using hkey)] at hlast
      rcases hall f (field?_sound hf).1 with rfl | ⟨hne, -⟩
      · rw [Option.some.inj hlast, StructField.of] at hset
        simp only [hv] at hset
        rw [← Except.ok.inj hset, hput]
      · exact absurd (hfname.trans hkey) hne
    · rw [if_neg (by simpa using hkey)] at hlast
      rcases hall f (field?_sound hf).1 with rfl | ⟨-, hpres⟩
      · exact absurd hfname.symm hkey
      · rw [hpres _ _ _ hset]
        exact ih (fun m' hm' => hknown m' (by simp [hm'])) ht hlast

/-- A field that is not named `n` and leaves `get` as it is. -/
def Beside (n : String) (get : σ → α) (f : StructField σ) : Prop := f.name ≠ n ∧ Preserves get f

theorem beside_of {β : Type} {n name : String} {decode : Value → Except DecodeError (Option β)} {put : β → σ → σ}
    {get : σ → α} (hname : name ≠ n) (h : ∀ b s, get (put b s) = get s) : Beside n get (.of name decode put) :=
  ⟨hname, preserves_of h⟩

theorem heldIn_here {n : String} {decode : Value → Except DecodeError (Option α)} {get : σ → α} {put : α → σ → σ}
    {rest : List (StructField σ)} (hput : ∀ a s, get (put a s) = a) (hrest : ∀ f ∈ rest, Beside n get f) :
    HeldIn (.of n decode put :: rest) n decode get := by
  refine ⟨put, hput, fun f hf => ?_⟩
  rcases List.mem_cons.mp hf with rfl | hf
  · exact Or.inl rfl
  · exact Or.inr (hrest f hf)

theorem heldIn_there {n : String} {decode : Value → Except DecodeError (Option α)} {get : σ → α} {f : StructField σ}
    {rest : List (StructField σ)} (hf : Beside n get f) (hrest : HeldIn rest n decode get) :
    HeldIn (f :: rest) n decode get := by
  obtain ⟨put, hput, hall⟩ := hrest
  refine ⟨put, hput, fun g hg => ?_⟩
  rcases List.mem_cons.mp hg with rfl | hg
  · exact Or.inr hf
  · exact hall g hg

end Struct

/-! ## Types of fields -/

def string : Value → Except DecodeError (Option String)
  | .str s => .ok (some (goString s))
  | .word .null => .ok none
  | v => .error (.wrongType (kind v) "string")

/-- An integer literal in the range of `int64`. -/
def int64 : Value → Except DecodeError (Option ℤ)
  | .num n =>
    if n.IsInt ∧ -2 ^ 63 ≤ n.toInt ∧ n.toInt < 2 ^ 63 then .ok (some n.toInt) else .error (.wrongType "number" "int64")
  | .word .null => .ok none
  | v => .error (.wrongType (kind v) "int64")

def float64 : Value → Except DecodeError (Option ℚ)
  | .num n => (Binary64.round n.value).elim (.error (.wrongType "number" "float64")) fun r => .ok (some r)
  | .word .null => .ok none
  | v => .error (.wrongType (kind v) "float64")

/-- `json.RawMessage` : the value's own text, `null` included. -/
def rawMessage (v : Value) : Except DecodeError (Option Value) := .ok (some v)

/-- A number a `float64` can hold. -/
def inRange : Token → Bool
  | .num n => (Binary64.round n.value).isSome
  | _ => true

/-- A value of any type; its numbers are read as `float64`. -/
def anyValue (v : Value) : Except DecodeError Unit :=
  if v.tokens.all inRange then .ok () else .error (.wrongType "number" "float64")

/-- The keys of a map, each member's value read by `decode`. -/
def mapOf {α : Type} (decode : Value → Except DecodeError α) : Value → Except DecodeError (Option (List (String × α)))
  | .obj ms => (ms.mapM fun m => (decode m.2).map fun a => (goString m.1, a)).map some
  | .word .null => .ok none
  | v => .error (.wrongType (kind v) "map")

end GoJson
