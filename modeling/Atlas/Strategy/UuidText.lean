import Atlas.Strategy.Signals

/-!
# UUIDs as Rust reads and writes them

* `ParsesUuids` : what the `uuid` crate makes of a text;
* `toList_toString_digits` : the digits come back, in lower case and with hyphens;
* `IsLowerUuid` : a UUID in this form; `toString_eq_iff` : it is written as it was read.
-/

namespace Atlas.Strategy

open PyText (IsDigits hyphenate value16 hexValue isHex)
open Execution (hexChar)

theorem toList_toString (u : Execution.Uuid) : (Execution.Uuid.toString u).toList =
    hyphenate ((List.range 32).map fun i => hexChar (u.toNat / 16 ^ (31 - i) % 16)) := by
  unfold Execution.Uuid.toString
  rw [String.toList_ofList]
  rfl

theorem value16_concat (ds : List Char) (c : Char) : value16 (ds ++ [c]) = value16 ds * 16 + hexValue c := by
  simp [value16]

theorem digits_value16 {digits : List Char} (h : ∀ c ∈ digits, isHex c = true) :
    (List.range digits.length).map (fun i => value16 digits / 16 ^ (digits.length - 1 - i) % 16) =
      digits.map hexValue := by
  induction digits using List.reverseRecOn with
  | nil => rfl
  | append_singleton ds c ih =>
    have hc : hexValue c < 16 := PyText.hexValue_lt (h c (by simp))
    rw [List.length_append, List.length_singleton, List.range_succ, List.map_append, List.map_append,
      ← ih fun d hd => h d (by simp [hd]), value16_concat]
    congr 1
    · refine List.map_congr_left fun i hi => ?_
      have hi := List.mem_range.mp hi
      rw [show ds.length + 1 - 1 - i = 1 + (ds.length - 1 - i) by omega, pow_add, pow_one, ← Nat.div_div_eq_div_mul]
      congr 2
      omega
    · rw [List.map_singleton, List.map_singleton]
      congr 1
      rw [show ds.length + 1 - 1 - ds.length = 0 by omega, pow_zero, Nat.div_one]
      omega

/-- A digit in lower case. -/
def lowerDigit (c : Char) : Char := hexChar (hexValue c)

theorem toList_toString_digits {digits : List Char} (h : IsDigits digits) :
    (Execution.Uuid.toString (BitVec.ofNat 128 (value16 digits))).toList = hyphenate (digits.map lowerDigit) := by
  have hlt := PyText.value16_lt digits h.2
  have hvalue : (BitVec.ofNat 128 (value16 digits)).toNat = value16 digits := by
    rw [h.1] at hlt
    exact Nat.mod_eq_of_lt (lt_of_lt_of_le hlt (by norm_num))
  have hdigits := congrArg (List.map hexChar) (digits_value16 h.2)
  rw [h.1, List.map_map, List.map_map] at hdigits
  rw [toList_toString, hvalue]
  exact congrArg hyphenate hdigits

def IsUpper (c : Char) : Prop := 65 ≤ c.toNat ∧ c.toNat ≤ 70

theorem lowerDigit_hex {c : Char} (h : isHex c = true) : isHex (lowerDigit c) = true ∧ ¬ IsUpper (lowerDigit c) := by
  have hall : ∀ n < 16, isHex (hexChar n) = true ∧ ¬ IsUpper (hexChar n) := by
    intro n hn
    interval_cases n <;> exact ⟨by decide, by unfold IsUpper; decide⟩
  exact hall _ (PyText.hexValue_lt h)

theorem lowerDigit_eq_self {c : Char} (h : isHex c = true) (hlower : ¬ IsUpper c) : lowerDigit c = c := by
  have hcode := PyText.isHex_iff.mp h
  unfold IsUpper at hlower
  unfold lowerDigit hexChar hexValue
  split_ifs
  all_goals try omega
  all_goals
    conv_rhs => rw [← Char.ofNat_toNat c]
    congr 1
    omega

/-- Lower-case digits in groups of 8, 4, 4, 4 and 12. -/
def IsLowerUuid (s : String) : Prop :=
  ∃ digits, IsDigits digits ∧ (∀ c ∈ digits, ¬ IsUpper c) ∧ s.toList = hyphenate digits

/-- The `uuid` crate: what a text is read as is the number of its digits. -/
def ParsesUuids (parseStr : String → Option Execution.Uuid) : Prop :=
  ∀ s u, parseStr s = some u ↔
    ∃ digits, IsDigits digits ∧ s.toList ∈ uuidWritings digits ∧ u = BitVec.ofNat 128 (value16 digits)

variable {parseStr : String → Option Execution.Uuid}

theorem toString_eq_iff (hparse : ParsesUuids parseStr) {s : String} {u : Execution.Uuid} (h : parseStr s = some u) :
    Execution.Uuid.toString u = s ↔ IsLowerUuid s := by
  constructor
  · rintro rfl
    obtain ⟨digits, hdigits, -, rfl⟩ := (hparse _ _).mp h
    refine ⟨digits.map lowerDigit, ⟨by rw [List.length_map, hdigits.1], ?_⟩, ?_, toList_toString_digits hdigits⟩
    · exact List.forall_mem_map.mpr fun c hc => (lowerDigit_hex (hdigits.2 c hc)).1
    · exact List.forall_mem_map.mpr fun c hc => (lowerDigit_hex (hdigits.2 c hc)).2
  · rintro ⟨digits, hdigits, hlower, hs⟩
    have hread := (hparse s _).mpr ⟨digits, hdigits, by rw [hs]; simp [uuidWritings], rfl⟩
    obtain rfl := Option.some.inj (h.symm.trans hread)
    have hself : digits.map lowerDigit = digits := by
      conv_rhs => rw [← List.map_id digits]
      exact List.map_congr_left fun c hc => lowerDigit_eq_self (hdigits.2 c hc) (hlower c hc)
    rw [← String.toList_inj, toList_toString_digits hdigits, hself, hs]

theorem isAscii_toString (u : Execution.Uuid) : Json.IsAscii (Execution.Uuid.toString u) := by
  intro c hc
  rw [toList_toString] at hc
  have hdigits : IsDigits ((List.range 32).map fun i => hexChar (u.toNat / 16 ^ (31 - i) % 16)) := by
    refine ⟨by simp, ?_⟩
    rw [List.forall_mem_map]
    intro i _
    have hall : ∀ n < 16, isHex (hexChar n) = true := by decide
    exact hall _ (Nat.mod_lt _ (by decide))
  rcases PyText.hyphenate_chars hdigits hc with hhex | rfl
  · have := PyText.isHex_iff.mp hhex
    omega
  · decide

end Atlas.Strategy
