import Mathlib.Data.List.Infix
import Mathlib.Tactic

/-!
# Text in Go

The functions of `strings` on the bytes of a text, which need not be UTF-8.

* `spaces`, `trimSpace` : `strings.TrimSpace`; `Trimmed` : a text it leaves as it is;
* `trimmed_append`, `trimmed_intercalate` : texts put together with a separator that is part of no space;
* `equalFold` : `strings.EqualFold` with a lower-case ASCII word.
-/

namespace GoText

/-- The encodings of the runes that `unicode.IsSpace` accepts. -/
def spaces : List (List UInt8) :=
  [[0x09], [0x0A], [0x0B], [0x0C], [0x0D], [0x20], [0xC2, 0x85], [0xC2, 0xA0], [0xE1, 0x9A, 0x80],
    [0xE2, 0x80, 0x80], [0xE2, 0x80, 0x81], [0xE2, 0x80, 0x82], [0xE2, 0x80, 0x83], [0xE2, 0x80, 0x84],
    [0xE2, 0x80, 0x85], [0xE2, 0x80, 0x86], [0xE2, 0x80, 0x87], [0xE2, 0x80, 0x88], [0xE2, 0x80, 0x89],
    [0xE2, 0x80, 0x8A], [0xE2, 0x80, 0xA8], [0xE2, 0x80, 0xA9], [0xE2, 0x80, 0xAF], [0xE2, 0x81, 0x9F],
    [0xE3, 0x80, 0x80]]

/-! ## Trimming -/

section trim
variable {α : Type} [DecidableEq α] {words : List (List α)} {s : List α}

/-- The text behind the words of a list at its front, of which there are at most `n`. -/
def trimFrom (words : List (List α)) : Nat → List α → List α
  | 0, s => s
  | n + 1, s =>
    match words.find? (·.isPrefixOf s) with
    | none => s
    | some word => trimFrom words n (s.drop word.length)

theorem trimFrom_suffix (n : Nat) (s : List α) : trimFrom words n s <:+ s := by
  induction n generalizing s with
  | zero => exact List.suffix_rfl
  | succ n ih =>
    unfold trimFrom
    split
    · exact List.suffix_rfl
    · exact (ih _).trans (List.drop_suffix ..)

/-- Nothing is trimmed just when no word is at the front. -/
theorem trimFrom_eq_self (hne : [] ∉ words) :
    trimFrom words s.length s = s ↔ ∀ word ∈ words, ¬ word <+: s := by
  cases s with
  | nil =>
    refine ⟨fun _ word hword hprefix => hne ?_, fun _ => rfl⟩
    rwa [List.prefix_nil.mp hprefix] at hword
  | cons a s =>
    rw [List.length_cons, trimFrom]
    split
    · rename_i hfind
      rw [List.find?_eq_none] at hfind
      simpa using hfind
    · rename_i word hfind
      have hmem := List.mem_of_find?_eq_some hfind
      have hprefix : word <+: a :: s := by simpa using List.find?_some hfind
      refine iff_of_false (fun heq => ?_) (fun h => h word hmem hprefix)
      have hpos : 0 < word.length := List.length_pos_iff.mpr fun hnil => hne (hnil ▸ hmem)
      have hle := (@trimFrom_suffix _ _ words s.length ((a :: s).drop word.length)).length_le
      rw [heq, List.length_drop] at hle
      have := hprefix.length_le
      omega

end trim

def trimLeft (s : List UInt8) : List UInt8 := trimFrom spaces s.length s

def trimRight (s : List UInt8) : List UInt8 := (trimFrom (spaces.map List.reverse) s.length s.reverse).reverse

/-- `strings.TrimSpace` -/
def trimSpace (s : List UInt8) : List UInt8 := trimRight (trimLeft s)

/-- A text without white space at its ends. -/
def Trimmed (s : List UInt8) : Prop := trimSpace s = s

instance (s : List UInt8) : Decidable (Trimmed s) := inferInstanceAs (Decidable (trimSpace s = s))

theorem trimRight_sublist (s : List UInt8) : (trimRight s).Sublist s := by
  unfold trimRight
  rw [← List.reverse_sublist, List.reverse_reverse]
  exact (trimFrom_suffix _ _).sublist

theorem trimSpace_sublist (s : List UInt8) : (trimSpace s).Sublist s :=
  (trimRight_sublist _).trans (trimFrom_suffix _ _).sublist

theorem trimLeft_eq_self (s : List UInt8) : trimLeft s = s ↔ ∀ space ∈ spaces, ¬ space <+: s :=
  trimFrom_eq_self (by decide)

theorem trimRight_eq_self (s : List UInt8) : trimRight s = s ↔ ∀ space ∈ spaces, ¬ space <:+ s := by
  unfold trimRight
  rw [List.reverse_eq_iff, ← List.length_reverse, trimFrom_eq_self (by decide), List.forall_mem_map]
  simp only [List.reverse_prefix]

theorem trimmed_iff (s : List UInt8) :
    Trimmed s ↔ (∀ space ∈ spaces, ¬ space <+: s) ∧ ∀ space ∈ spaces, ¬ space <:+ s := by
  unfold Trimmed trimSpace
  rw [← trimLeft_eq_self, ← trimRight_eq_self]
  constructor
  · intro h
    have hleft : trimLeft s = s := by
      apply (trimFrom_suffix s.length s).eq_of_length
      apply le_antisymm (trimFrom_suffix _ _).length_le
      exact (congrArg List.length h).ge.trans (trimRight_sublist _).length_le
    exact ⟨hleft, by rwa [hleft] at h⟩
  · rintro ⟨hleft, hright⟩
    rw [hleft, hright]

/-! ## Trimmed parts -/

theorem not_prefix_append {α : Type} {sep : α} {word a b : List α} (hsep : sep ∉ word) (h : ¬ word <+: a) :
    ¬ word <+: a ++ sep :: b := by
  rw [List.append_cons]
  intro hprefix
  rcases List.prefix_or_prefix_of_prefix hprefix (List.prefix_append ..) with hshort | hlong
  · rcases List.prefix_concat_iff.mp hshort with heq | hshort
    · exact hsep (by simp [heq])
    · exact h hshort
  · exact hsep (hlong.subset (by simp))

/-- Trimmed parts with a separator between them that is no byte of a space. -/
theorem trimmed_append {sep : UInt8} {a b : List UInt8} (hsep : ∀ space ∈ spaces, sep ∉ space) (ha : Trimmed a)
    (hb : Trimmed b) : Trimmed (a ++ sep :: b) := by
  rw [trimmed_iff] at ha hb ⊢
  refine ⟨fun space hspace => not_prefix_append (hsep space hspace) (ha.1 space hspace), fun space hspace => ?_⟩
  rw [← List.reverse_prefix, List.reverse_append, List.reverse_cons, List.append_assoc, List.singleton_append]
  apply not_prefix_append
  · simpa using hsep space hspace
  · simpa using hb.2 space hspace

theorem trimmed_intercalate {sep : UInt8} {parts : List (List UInt8)} (hsep : ∀ space ∈ spaces, sep ∉ space)
    (h : ∀ part ∈ parts, Trimmed part) : Trimmed ([sep].intercalate parts) := by
  induction parts with
  | nil =>
    rw [List.intercalate_nil]
    decide
  | cons part parts ih =>
    obtain ⟨hpart, hparts⟩ := List.forall_mem_cons.mp h
    cases parts with
    | nil => simpa using hpart
    | cons next parts =>
      rw [List.intercalate_cons_cons, List.append_assoc, List.singleton_append]
      exact trimmed_append hsep hpart (ih hparts)

theorem mem_intercalate {α : Type} {sep a : α} {parts : List (List α)} (h : a ∈ [sep].intercalate parts) :
    a = sep ∨ ∃ part ∈ parts, a ∈ part := by
  induction parts with
  | nil => simp at h
  | cons part parts ih =>
    cases parts with
    | nil => exact .inr ⟨part, by simp, by simpa using h⟩
    | cons next parts =>
      rw [List.intercalate_cons_cons, List.append_assoc, List.mem_append, List.mem_append] at h
      rcases h with hpart | hsep | hrest
      · exact .inr ⟨part, List.mem_cons_self .., hpart⟩
      · exact .inl (List.mem_singleton.mp hsep)
      · refine (ih hrest).imp_right fun ⟨other, hother, hmem⟩ => ?_
        exact ⟨other, List.mem_cons_of_mem _ hother, hmem⟩

/-! ## Case folding -/

/-- `c | 0x20` for the upper-case letters. -/
def lowerByte (c : UInt8) : UInt8 := if 0x41 ≤ c ∧ c ≤ 0x5A then c + 0x20 else c

/-- `strings.EqualFold(s, word)` for a word of lower-case ASCII letters: besides the two cases of a letter, `ſ` folds to
`s` and the Kelvin sign to `k`. -/
def equalFold : List UInt8 → List UInt8 → Bool
  | s, [] => s.isEmpty
  | 0xC5 :: 0xBF :: s, letter :: word => letter == 0x73 && equalFold s word
  | 0xE2 :: 0x84 :: 0xAA :: s, letter :: word => letter == 0x6B && equalFold s word
  | c :: s, letter :: word => lowerByte c == letter && equalFold s word
  | [], _ :: _ => false

end GoText
