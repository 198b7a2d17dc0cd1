import Atlas.Lib.Decimal
import Atlas.Lib.Dict
import Atlas.Lib.PyJson
import Atlas.Lib.PyText

/-!
# Objects of Python

* `Object` : what `json.loads` makes, NaN and the infinities with it; a dict has each key once;
* `truthy`, `IsText`, `Hashable`, `depth`, `lookup` : truth value, types, nesting, entries of a dict;
* `Object.ind`, `parts`, `All` : induction, and what is in an object at any depth;
* `eq` : `==` of two objects inside a container, where one and the same object is equal to itself;
* `Numeral` : a number as it is written; `floatText`, `toFloat` : `float(value)`.
-/

namespace Py
open PyJson (PyStr pyStr)

inductive Object
  | none
  | bool (b : Bool)
  | int (n : ℤ)
  | float (x : F64)
  | str (s : PyStr)
  | list (items : List Object)
  | dict (items : List (PyStr × Object))

instance : Inhabited Object := ⟨.none⟩

/-- `items.get(name)` -/
def lookup (items : List (PyStr × Object)) (name : String) : Option Object := items.lookup (pyStr name)

/-! ## Values -/

namespace Object

def truthy : Object → Bool
  | none => false
  | bool b => b
  | int n => n ≠ 0
  | float x => x.place ≠ some ((0 : ℚ) : WithTop ℚ)
  | str s => s ≠ []
  | list items => !items.isEmpty
  | dict items => !items.isEmpty

/-- `v is None` -/
def isNone : Object → Bool
  | none => true
  | _ => false

/-- `v == s` for a string `s`. -/
def isStr (v : Object) (s : String) : Bool :=
  match v with
  | str t => t = pyStr s
  | _ => false

/-- `isinstance(v, str)` -/
def IsText : Object → Prop
  | str _ => True
  | _ => False

instance : DecidablePred IsText
  | none => isFalse id
  | bool _ => isFalse id
  | int _ => isFalse id
  | float _ => isFalse id
  | str _ => isTrue trivial
  | list _ => isFalse id
  | dict _ => isFalse id

/-- `hash(v)` is no `TypeError`. -/
def Hashable : Object → Prop
  | list _ => False
  | dict _ => False
  | _ => True

instance : DecidablePred Hashable
  | none => isTrue trivial
  | bool _ => isTrue trivial
  | int _ => isTrue trivial
  | float _ => isTrue trivial
  | str _ => isTrue trivial
  | list _ => isFalse id
  | dict _ => isFalse id

end Object

/-- A property of the objects that holds of a container when it holds of what is in it. -/
theorem Object.ind {motive : Object → Prop} (list : ∀ items, (∀ v ∈ items, motive v) → motive (.list items))
    (dict : ∀ items : List (PyStr × Object), (∀ item ∈ items, motive item.2) → motive (.dict items))
    (scalar : ∀ v, v.Hashable → motive v) (v : Object) : motive v := by
  apply @Object.rec motive (fun items => ∀ v ∈ items, motive v) (fun items => ∀ item ∈ items, motive item.2)
    (fun item => motive item.2)
  case list => exact list
  case dict => exact dict
  case nil => exact fun v h => nomatch h
  case nil => exact fun item h => nomatch h
  case cons => exact fun v items hv hitems => List.forall_mem_cons.mpr ⟨hv, hitems⟩
  case cons => exact fun item items hitem hitems => List.forall_mem_cons.mpr ⟨hitem, hitems⟩
  case mk => exact fun key v hv => hv
  all_goals
    intros
    exact scalar _ trivial

mutual

/-- How deep the containers of an object are nested. -/
def Object.depth : Object → ℕ
  | .list items => depthList items + 1
  | .dict items => depthItems items + 1
  | _ => 0

def depthList : List Object → ℕ
  | [] => 0
  | v :: vs => max v.depth (depthList vs)

def depthItems : List (PyStr × Object) → ℕ
  | [] => 0
  | (_, v) :: items => max v.depth (depthItems items)

end

mutual

/-- The object and what is in it, at any depth. -/
def Object.parts : Object → List Object
  | .list items => .list items :: partsList items
  | .dict items => .dict items :: partsItems items
  | v => [v]

def partsList : List Object → List Object
  | [] => []
  | v :: vs => v.parts ++ partsList vs

def partsItems : List (PyStr × Object) → List Object
  | [] => []
  | (_, v) :: items => v.parts ++ partsItems items

end

/-- A property of the object and of what is in it. -/
def Object.All (p : Object → Prop) (v : Object) : Prop := ∀ part ∈ v.parts, p part

theorem depthList_le {n : ℕ} {items : List Object} : depthList items ≤ n ↔ ∀ v ∈ items, v.depth ≤ n := by
  induction items with
  | nil => simp [depthList]
  | cons v items ih => rw [depthList, max_le_iff, ih, List.forall_mem_cons]

theorem depthItems_le {n : ℕ} {items : List (PyStr × Object)} :
    depthItems items ≤ n ↔ ∀ item ∈ items, item.2.depth ≤ n := by
  induction items with
  | nil => simp [depthItems]
  | cons item items ih => rw [depthItems, max_le_iff, ih, List.forall_mem_cons]

theorem mem_partsList {items : List Object} {part : Object} :
    part ∈ partsList items ↔ ∃ v ∈ items, part ∈ v.parts := by
  induction items with
  | nil => simp [partsList]
  | cons v items ih => rw [partsList, List.mem_append, ih, List.exists_mem_cons_iff]

theorem mem_partsItems {items : List (PyStr × Object)} {part : Object} :
    part ∈ partsItems items ↔ ∃ item ∈ items, part ∈ item.2.parts := by
  induction items with
  | nil => simp [partsItems]
  | cons item items ih => rw [partsItems, List.mem_append, ih, List.exists_mem_cons_iff]

namespace Object
variable {p : Object → Prop}

theorem all_list {items : List Object} : (list items).All p ↔ p (list items) ∧ ∀ v ∈ items, v.All p := by
  unfold All
  rw [parts, List.forall_mem_cons]
  refine and_congr_right fun _ => ⟨fun h v hv part hpart => h part (mem_partsList.mpr ⟨v, hv, hpart⟩), ?_⟩
  intro h part hpart
  obtain ⟨v, hv, hmem⟩ := mem_partsList.mp hpart
  exact h v hv part hmem

theorem all_dict {items : List (PyStr × Object)} :
    (dict items).All p ↔ p (dict items) ∧ ∀ item ∈ items, item.2.All p := by
  unfold All
  rw [parts, List.forall_mem_cons]
  refine and_congr_right fun _ => ⟨fun h item hi part hpart => h part (mem_partsItems.mpr ⟨item, hi, hpart⟩), ?_⟩
  intro h part hpart
  obtain ⟨item, hi, hmem⟩ := mem_partsItems.mp hpart
  exact h item hi part hmem

theorem all_scalar {v : Object} (h : v.Hashable) : v.All p ↔ p v := by
  cases v with
  | list items => exact h.elim
  | dict items => exact h.elim
  | _ => exact List.forall_mem_singleton

/-! ## Equality -/

/-- The number that a boolean, an integer or a float is, none for a NaN. -/
def number? : Object → Option (WithBot (WithTop ℚ))
  | bool b => some (((if b then 1 else 0 : ℚ) : WithTop ℚ) : WithBot (WithTop ℚ))
  | int n => some (((n : ℚ) : WithTop ℚ) : WithBot (WithTop ℚ))
  | float x => x.place
  | _ => .none

def isNaN : Object → Bool
  | float .nan => true
  | _ => false

/-- Both are null, the same text, numbers of one value, or NaN. -/
def scalarEq : Object → Object → Bool
  | none, none => true
  | str s, str t => s = t
  | v, w => v.isNaN && w.isNaN || v.number?.isSome && decide (v.number? = w.number?)

end Object

mutual

/-- `v is w or v == w`, which a container asks of its entries. There is one NaN, that of `json.decoder`. -/
def Object.eq : Object → Object → Bool
  | .list items, w =>
    match w with
    | .list others => eqList items others
    | _ => false
  | .dict items, w =>
    match w with
    | .dict others => items.length = others.length && eqItems items others
    | _ => false
  | v, w => v.scalarEq w

def eqList : List Object → List Object → Bool
  | [], others => others.isEmpty
  | v :: items, others =>
    match others with
    | [] => false
    | w :: others => v.eq w && eqList items others

def eqItems : List (PyStr × Object) → List (PyStr × Object) → Bool
  | [], _ => true
  | (key, v) :: items, others => (others.lookup key).elim false (fun w => v.eq w) && eqItems items others

end

theorem eqList_iff {items others : List Object} :
    eqList items others = true ↔ List.Forall₂ (fun v w => v.eq w = true) items others := by
  induction items generalizing others with
  | nil => cases others <;> simp [eqList]
  | cons v items ih =>
    cases others with
    | nil => simp [eqList]
    | cons w others => rw [eqList, Bool.and_eq_true, ih, List.forall₂_cons]

theorem eqItems_iff {items others : List (PyStr × Object)} :
    eqItems items others = true ↔ ∀ item ∈ items, ∃ w, others.lookup item.1 = some w ∧ item.2.eq w = true := by
  induction items with
  | nil => simp [eqItems]
  | cons item items ih =>
    rw [eqItems, Bool.and_eq_true, ih, List.forall_mem_cons]
    cases h : others.lookup item.1 <;> simp

/-! ## Numbers -/

/-- A number as it is written; the digits are bytes. -/
structure Numeral where
  neg : Bool
  int : List UInt8
  frac : Option (List UInt8)
  exp : Option (Option Bool × List UInt8)
  deriving DecidableEq

def Numeral.size (n : Numeral) : ℚ :=
  let scale : ℤ := n.exp.elim 0 fun e => if e.1 = some true then -(Decimal.value e.2) else Decimal.value e.2
  Decimal.value (n.int ++ n.frac.elim [] id) * (10 : ℚ) ^ (scale - (n.frac.elim 0 fun d => (d.length : ℤ)))

def Numeral.value (n : Numeral) : ℚ := if n.neg then -n.size else n.size

def Numeral.toInt (n : Numeral) : ℤ := if n.neg then -(Decimal.value n.int : ℤ) else Decimal.value n.int

/-- The double of a number: an infinity when it is out of range, a negative zero when that is what is left of it. -/
def Numeral.toDouble (n : Numeral) : F64 :=
  match h : Binary64.round n.value with
  | none => .infinity n.neg
  | some x => if x = 0 ∧ n.neg = true then .negZero else .finite x (Binary64.round_round h)

/-! ## `float(value)` -/

def isDigitChar (c : Char) : Bool := '0' ≤ c ∧ c ≤ '9'

def digitBytes (cs : List Char) : List UInt8 := cs.map fun c => UInt8.ofNat c.toNat

/-- The text without its underscores, which stand between two digits. The character is the one in front of the text. -/
def dropUnderscores : Char → List Char → Option (List Char)
  | previous, [] => if previous = '_' then none else some []
  | previous, c :: cs =>
    if c = '_' then if isDigitChar previous then dropUnderscores c cs else none
    else if previous = '_' ∧ isDigitChar c = false then none
    else (dropUnderscores c cs).map (c :: ·)

/-- The exponent that is all of the text. -/
def exponentText : List Char → Option (Option (Option Bool × List UInt8))
  | [] => some none
  | c :: cs =>
    if c = 'e' ∨ c = 'E' then
      let signed := PyText.splitSign cs
      if signed.2 ≠ [] ∧ signed.2.all isDigitChar then some (some (some signed.1, digitBytes signed.2)) else none
    else none

/-- Digits, with a point among, in front of or behind them, and an exponent. -/
def decimalText (neg : Bool) (cs : List Char) : Option Numeral :=
  let int := cs.takeWhile isDigitChar
  let rest := cs.dropWhile isDigitChar
  let frac := if rest.head? = some '.' then some (rest.tail.takeWhile isDigitChar) else none
  let rest := if rest.head? = some '.' then rest.tail.dropWhile isDigitChar else rest
  if int ++ frac.getD [] = [] then none
  else (exponentText rest).map fun exp => ⟨neg, digitBytes int, frac.map digitBytes, exp⟩

/-- `float(text)`, absent for a `ValueError`. -/
def floatText (decimal : Char → Option Nat) (text : List Char) : Option F64 :=
  (dropUnderscores (Char.ofNat 0) (text.map (PyText.toAscii decimal))).bind fun cs =>
    let signed := PyText.splitSign (PyText.strip PyText.isAsciiSpace cs)
    let name := signed.2.map Char.toLower
    if name = "inf".toList ∨ name = "infinity".toList then some (.infinity signed.1)
    else if name = "nan".toList then some .nan
    else (decimalText signed.1 signed.2).map Numeral.toDouble

/-- The characters of a string, none when one of its code points is a surrogate. -/
def chars? (s : PyStr) : Option (List Char) :=
  s.mapM fun c => if c.isValidChar then some (Char.ofNat c) else none

inductive FloatError
  | typeError
  | valueError
  | overflowError
  deriving DecidableEq

/-- `float(value)` -/
def toFloat (decimal : Char → Option Nat) : Object → Except FloatError F64
  | .none => .error .typeError
  | .bool b => .ok (.ofInt (if b then 1 else 0) (by split <;> norm_num))
  | .int n =>
    match h : Binary64.round n with
    | some x => .ok (.finite x (Binary64.round_round h))
    | none => .error .overflowError
  | .float x => .ok x
  | .str s => (((chars? s).bind (floatText decimal)).elim (.error .valueError) .ok)
  | .list _ => .error .typeError
  | .dict _ => .error .typeError

end Py
