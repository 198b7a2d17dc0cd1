import Atlas.Lib.Json.Text
import Atlas.Lib.Binary64

/-!
# JSON values in Python

What `json.loads` makes of a value, and the operations of Python on it.

* `PyValue` : the objects it makes; a dict keeps every member of the text, `get` finds the last one with a key;
* `pyText` : the text of a string literal, with surrogates; absent where the bytes are not UTF-8;
* `ofJson` : the object of a value; `truthy`, `isStr`, `number?` : truth value, equality with a string, comparison;
* `Key`, `key?`, `iter?` : values as keys, and loops over them;
* `get_ofMembers` : a dict entry is the object of the text's last member with that key.
-/

namespace PyJson

open Json

/-- The code points of a string. -/
abbrev PyStr := List Nat

instance lawfulPyStr : LawfulBEq PyStr := inferInstance

def pyStr (s : String) : PyStr := s.toList.map Char.toNat

/-- No NaN is made from JSON text: a float has a place in the order, the infinities at its ends. -/
inductive PyValue
  | none
  | bool (b : Bool)
  | int (n : ℤ)
  | float (x : WithBot (WithTop ℚ))
  | str (s : PyStr)
  | list (items : List PyValue)
  | dict (items : List (PyStr × PyValue))

/-! ## Loading -/

/-- Decoding with `surrogatepass`: an encoded surrogate passes, any other broken byte is an error. -/
def passText : List Rune → Option PyStr
  | [] => some []
  | .char c :: rest => (passText rest).map (c.toNat :: ·)
  | .surrogate u _ :: rest => (passText rest).map (u :: ·)
  | .broken a :: .broken b :: .broken c :: rest =>
    if a = 0xED ∧ 0xA0 ≤ b.toNat ∧ b.toNat ≤ 0xBF ∧ Utf8.IsContinuation c then
      (passText rest).map ((0xD000 + (b.toNat - 0x80) * 0x40 + (c.toNat - 0x80)) :: ·)
    else none
  | .broken _ :: _ => none

def pyText (s : StrLit) : Option PyStr := passText (runes s)

/-- `float(literal)` : the nearest double, an infinity when it is out of range. -/
def pyFloat (n : NumLit) : WithBot (WithTop ℚ) :=
  (Binary64.round n.value).elim (if n.neg then ⊥ else ((⊤ : WithTop ℚ) : WithBot (WithTop ℚ))) fun r => (r : WithTop ℚ)

def pyNumber (n : NumLit) : PyValue := if n.IsInt then .int n.toInt else .float (pyFloat n)

mutual

def ofJson : Value → Option PyValue
  | .word .null => some .none
  | .word .true => some (.bool true)
  | .word .false => some (.bool false)
  | .num n => some (pyNumber n)
  | .str s => (pyText s).map .str
  | .arr vs => (ofElements vs).map .list
  | .obj ms => (ofMembers ms).map .dict

def ofElements : List Value → Option (List PyValue)
  | [] => some []
  | v :: vs =>
    match ofJson v, ofElements vs with
    | some x, some xs => some (x :: xs)
    | _, _ => none

def ofMembers : List (StrLit × Value) → Option (List (PyStr × PyValue))
  | [] => some []
  | (k, v) :: ms =>
    match pyText k, ofJson v, ofMembers ms with
    | some key, some x, some items => some ((key, x) :: items)
    | _, _, _ => none

end

/-! ## Operations -/

/-- The value of a key in a dict. -/
def get (items : List (PyStr × PyValue)) (key : PyStr) : Option PyValue :=
  items.foldl (fun found item => if item.1 = key then some item.2 else found) none

namespace PyValue

def truthy : PyValue → Bool
  | none => false
  | bool b => b
  | int n => n ≠ 0
  | float x => x ≠ ((0 : ℚ) : WithTop ℚ)
  | str s => s ≠ []
  | list items => !items.isEmpty
  | dict items => !items.isEmpty

/-- `v == s` for a string `s`. -/
def isStr (v : PyValue) (s : String) : Bool :=
  match v with
  | str t => t = pyStr s
  | _ => false

/-- The number a value is in a comparison with numbers, which is a `TypeError` without one. -/
def number? : PyValue → Option (WithBot (WithTop ℚ))
  | bool b => some ((if b then (1 : ℚ) else 0 : ℚ) : WithTop ℚ)
  | int n => some ((n : ℚ) : WithTop ℚ)
  | float x => some x
  | _ => Option.none

end PyValue

/-- What a value is as a key of a dict or in a set: numbers count by their size. -/
inductive Key
  | none
  | number (x : WithBot (WithTop ℚ))
  | str (s : PyStr)
  deriving DecidableEq

namespace PyValue

/-- Absent for a list and a dict, which have no hash. -/
def key? : PyValue → Option Key
  | none => some .none
  | str s => some (.str s)
  | v => v.number?.map .number

/-- What a loop over the value goes through; absent where a loop is a `TypeError`. -/
def iter? : PyValue → Option (List PyValue)
  | str s => some (s.map fun c => str [c])
  | list items => some items
  | dict items => some ((items.map Prod.fst).eraseDups.map str)
  | _ => Option.none

end PyValue

/-! ## What is loaded -/

theorem passText_chars (cs : List Char) : passText (cs.map .char) = some (cs.map Char.toNat) := by
  induction cs with
  | nil => rfl
  | cons c cs ih => rw [List.map_cons, passText, ih]; rfl

theorem not_surrogate (c : Char) : ¬ (0xD800 ≤ c.toNat ∧ c.toNat < 0xE000) := by
  have hvalid : c.toNat < 0xD800 ∨ (0xDFFF < c.toNat ∧ c.toNat < 0x110000) := c.valid
  omega

/-- Text is loaded as the characters it is. -/
theorem eq_chars_of_passText {rs : List Rune} {cs : List Char} (h : passText rs = some (cs.map Char.toNat)) :
    rs = cs.map .char := by
  induction cs generalizing rs with
  | nil =>
    unfold passText at h
    split at h
    · rfl
    all_goals simp at h
  | cons c cs ih =>
    unfold passText at h
    split at h
    · simp at h
    · obtain ⟨t, ht, heq⟩ := Option.map_eq_some_iff.mp h
      obtain ⟨hc, rfl⟩ := List.cons.inj heq
      rw [ih ht, List.map_cons, Char.toNat_inj.mp hc]
    · rename_i u hu rest
      obtain ⟨t, ht, heq⟩ := Option.map_eq_some_iff.mp h
      obtain ⟨rfl, -⟩ := List.cons.inj heq
      refine absurd ?_ (not_surrogate c)
      unfold IsHighSurrogate IsLowSurrogate at hu
      omega
    · rename_i a b d rest
      split_ifs at h with hpass
      obtain ⟨t, ht, heq⟩ := Option.map_eq_some_iff.mp h
      obtain ⟨hc, -⟩ := List.cons.inj heq
      obtain ⟨-, hlow, hhigh, hcont⟩ := hpass
      unfold Utf8.IsContinuation at hcont
      refine absurd ?_ (not_surrogate c)
      omega
    · cases h

theorem pyText_eq_iff {lit : StrLit} {s : String} : pyText lit = some (pyStr s) ↔ runes lit = s.toList.map .char := by
  constructor
  · exact eq_chars_of_passText
  · intro h
    rw [pyText, h]
    exact passText_chars s.toList

theorem pyStr_inj {s t : String} : pyStr s = pyStr t ↔ s = t := by
  refine ⟨fun h => ?_, congrArg pyStr⟩
  exact String.toList_inj.mp (List.map_injective_iff.mpr (fun _ _ => Char.toNat_inj.mp) h)

theorem pyText_lit (s : String) : pyText (lit s) = some (pyStr s) := pyText_eq_iff.mpr (runes_lit s)

theorem pyText_eq_nil_iff {lit : StrLit} : pyText lit = some [] ↔ runes lit = [] := @pyText_eq_iff lit ""

/-! ## What is loaded -/

theorem ofMembers_iff {ms : List (StrLit × Value)} {items : List (PyStr × PyValue)} :
    ofMembers ms = some items ↔
      List.Forall₂ (fun m item => pyText m.1 = some item.1 ∧ ofJson m.2 = some item.2) ms items := by
  induction ms generalizing items with
  | nil => simp [ofMembers, eq_comm]
  | cons m ms ih =>
    obtain ⟨k, v⟩ := m
    unfold ofMembers
    constructor
    · intro h
      split at h
      · rename_i key x rest hk hv hms
        obtain rfl := Option.some.inj h
        exact List.Forall₂.cons ⟨hk, hv⟩ (ih.mp hms)
      · cases h
    · intro h
      cases h with
      | cons hitem hrest =>
        rw [hitem.1, hitem.2, ih.mpr hrest]

theorem get_ofMembers {p : StrLit → Bool} {key : PyStr} {ms : List (StrLit × Value)}
    (hkey : ∀ m ∈ ms, ∀ k, pyText m.1 = some k → (k = key ↔ p m.1 = true)) {items : List (PyStr × PyValue)}
    (h : ofMembers ms = some items) : get items key = (lastMember p ms).bind ofJson := by
  have hall := ofMembers_iff.mp h
  suffices hgen : ∀ (found : Option Value) (got : Option PyValue), got = found.bind ofJson →
      items.foldl (fun found item => if item.1 = key then some item.2 else found) got
        = (ms.foldl (fun found m => if p m.1 then some m.2 else found) found).bind ofJson from
    hgen none none rfl
  clear h
  induction hall with
  | nil => intro found got hgot; exact hgot
  | @cons m item ms items hitem hrest ih =>
    intro found got hgot
    refine ih (fun m' hm' => hkey m' (List.mem_cons_of_mem _ hm')) _ _ ?_
    have hm := hkey m (List.mem_cons_self ..) item.1 hitem.1
    show (if item.1 = key then some item.2 else got) = (if p m.1 = true then some m.2 else found).bind ofJson
    by_cases hp : p m.1 = true
    · rw [if_pos (hm.mpr hp), if_pos hp, Option.bind_some, hitem.2]
    · rw [if_neg (fun hk => hp (hm.mp hk)), if_neg hp, hgot]

end PyJson
