import Atlas.Lib.Json.Text
import Atlas.Lib.Json.Value

/-!
# Contracts on JSON values, as JSON Schema states them

* `Kind` : the `type` of a value; a number without a fraction is an integer however it is written;
* `Scalar`, `Property`, `Record` : the keywords `minimum`, `minLength`, `maxLength`, `maxProperties`, `required`,
  `properties`, and `additionalProperties` as a contract or as `false`; a keyword says nothing about values of another
  type;
* `IsKey` : the name of a member; `Distinct` : no object names a member twice.
-/

namespace JsonSchema

open Json

inductive Kind
  | null | integer | string
  deriving DecidableEq, Repr

def Kind.Of : Kind → Value → Prop
  | null, v => v = .word .null
  | integer, v => ∃ n, v = .num n ∧ n.value.den = 1
  | string, v => ∃ l, v = .str l

/-- A length is a number of characters. -/
structure Scalar where
  types : List Kind
  minimum : Option ℚ := none
  minLength : Nat := 0
  maxLength : Option Nat := none

structure Scalar.Valid (c : Scalar) (v : Value) : Prop where
  types : ∃ k ∈ c.types, k.Of v
  minimum : ∀ n, v = .num n → ∀ least ∈ c.minimum, least ≤ n.value
  minLength : ∀ l, v = .str l → c.minLength ≤ (runes l).length
  maxLength : ∀ l, v = .str l → ∀ most ∈ c.maxLength, (runes l).length ≤ most

inductive Property
  | scalar (c : Scalar)
  /-- An object of at most so many members, each with such a value. -/
  | map (maxProperties : Nat) (values : Scalar)

def Property.Valid : Property → Value → Prop
  | scalar c, v => c.Valid v
  | map maxProperties values, v =>
    ∃ ms, v = .obj ms ∧ ms.length ≤ maxProperties ∧ ∀ m ∈ ms, values.Valid m.2

/-- An object with these properties and no others. -/
structure Record where
  required : List String
  properties : List (String × Property)

def IsKey (name : String) (l : StrLit) : Prop := runes l = name.toList.map .char

def Record.Valid (c : Record) (v : Value) : Prop :=
  ∃ ms, v = .obj ms ∧ (∀ name ∈ c.required, ∃ m ∈ ms, IsKey name m.1) ∧
    ∀ m ∈ ms, ∃ p ∈ c.properties, IsKey p.1 m.1 ∧ p.2.Valid m.2

/-- An object that names no member twice, or another value. -/
def NamesOnce (v : Value) : Prop := ∀ ms, v = .obj ms → (ms.map fun m => runes m.1).Nodup

/-- No object on the first two levels names a member twice. -/
def Distinct (v : Value) : Prop :=
  NamesOnce v ∧ (∀ ms, v = .obj ms → ∀ m ∈ ms, NamesOnce m.2) ∧ ∀ vs, v = .arr vs → ∀ item ∈ vs, NamesOnce item

theorem IsKey.unique {name name' : String} {l : StrLit} (h : IsKey name l) (h' : IsKey name' l) : name = name' := by
  have hchars : name.toList = name'.toList :=
    List.map_injective_iff.mpr (fun c c' hc => Rune.char.inj hc) (h.symm.trans h')
  exact String.toList_inj.mp hchars

end JsonSchema
