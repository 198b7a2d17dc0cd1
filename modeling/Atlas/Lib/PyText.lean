import Atlas.Lib.Binary64
import Mathlib.Data.List.DropRight
import Mathlib.Data.List.Infix
import Mathlib.Tactic

/-!
# Text in Python

Operations of `str` on lists of characters, and what `uuid.UUID` makes of a text.

* `isSpace`, `strip`, `removeAll` : white space, `strip` of a kind of character, `replace` by nothing; `lower` :
  `str.lower` for comparisons;
* `repr`, `fixed2` : `repr(text)`, and a number with two decimals;
* `int16` : `int(text, 16)`; `uuid?` : `uuid.UUID(text)`;
* `hyphenate` : 32 digits in groups of 8, 4, 4, 4 and 12; `uuid?_digits` and the lemmas behind it : the usual ways to
  write a UUID are read as the number their digits stand for.
-/

namespace PyText

/-- What `str.isspace` and `str.strip` take for white space. -/
def isSpace (c : Char) : Bool :=
  let n := c.toNat
  (0x9 ≤ n ∧ n ≤ 0xD) ∨ (0x1C ≤ n ∧ n ≤ 0x20) ∨ n ∈ [0x85, 0xA0, 0x1680, 0x2028, 0x2029, 0x202F, 0x205F, 0x3000] ∨
    (0x2000 ≤ n ∧ n ≤ 0x200A)

/-- The text without the characters of `p` at its ends. -/
def strip (p : Char → Bool) (cs : List Char) : List Char := (cs.dropWhile p).rdropWhile p

theorem strip_eq_nil {p : Char → Bool} {cs : List Char} : strip p cs = [] ↔ ∀ c ∈ cs, p c = true := by
  rw [strip, List.rdropWhile_eq_nil_iff]
  constructor
  · intro h
    by_contra hnot
    have hne : cs.dropWhile p ≠ [] := fun hnil => hnot (List.dropWhile_eq_nil_iff.mp hnil)
    have hhead := List.head_dropWhile_not p hne
    rw [h _ (List.head_mem hne)] at hhead
    cases hhead
  · intro h c hc
    exact h c ((List.dropWhile_sublist p).mem hc)

/-- A text without characters of `p`. -/
theorem strip_eq_self {p : Char → Bool} {cs : List Char} (h : ∀ c ∈ cs, p c = false) : strip p cs = cs := by
  have hdrop : cs.dropWhile p = cs :=
    List.dropWhile_eq_self_iff.mpr fun hl => by rw [h _ (List.getElem_mem hl)]; decide
  rw [strip, hdrop, List.rdropWhile_eq_self_iff]
  intro hne
  rw [h _ (List.getLast_mem hne)]
  decide

/-- `str.lower` of a character, as far as ASCII letters come of it: the Kelvin sign becomes a `k` too. -/
def lowerChar (c : Char) : Char := if c = '\u212A' then 'k' else c.toLower

/-- `text.lower()`, for a comparison with a text in ASCII. -/
def lower (text : String) : String := String.ofList (text.toList.map lowerChar)

/-- The text behind occurrences of `pat` that have been found; `skip` characters of the last one are still ahead. -/
def removeFrom (pat : List Char) : Nat → List Char → List Char
  | _, [] => []
  | skip + 1, _ :: cs => removeFrom pat skip cs
  | 0, c :: cs => if pat.isPrefixOf (c :: cs) then removeFrom pat (pat.length - 1) cs else c :: removeFrom pat 0 cs

/-- `text.replace(pat, '')` -/
def removeAll (pat cs : List Char) : List Char := removeFrom pat 0 cs

theorem removeAll_eq_self {p : Char} {pat cs : List Char} (h : p ∉ cs) : removeAll (p :: pat) cs = cs := by
  unfold removeAll
  induction cs with
  | nil => rfl
  | cons c cs ih =>
    rw [List.mem_cons, not_or] at h
    obtain ⟨hc, hcs⟩ := h
    have hno : ¬ (p :: pat).isPrefixOf (c :: cs) = true := by
      rw [List.isPrefixOf_iff_prefix, List.cons_prefix_cons]
      exact fun hpre => hc hpre.1
    rw [removeFrom, if_neg hno, ih hcs]

/-! ## Texts in order -/

instance transTexts : IsTrans String (· ≤ ·) := ⟨fun _ _ _ => String.le_trans⟩

instance antisymmTexts : Std.Antisymm fun s t : String => s ≤ t := ⟨fun _ _ => String.le_antisymm⟩

instance totalTexts : Std.Total fun s t : String => s ≤ t := ⟨fun s t => String.le_total s t⟩

/-! ## Values as text -/

/-- `n` with so many digits of base 16. -/
def hexDigits (width n : Nat) : List Char :=
  let digits := Nat.toDigits 16 n
  List.replicate (width - digits.length) '0' ++ digits

/-- A character between quotes. `printable` : what `str.isprintable` says. -/
def reprChar (printable : Char → Bool) (quote c : Char) : List Char :=
  if c = quote ∨ c = '\\' then ['\\', c]
  else if c = '\t' then ['\\', 't']
  else if c = '\n' then ['\\', 'n']
  else if c = '\r' then ['\\', 'r']
  else if c.toNat < 32 ∨ c.toNat = 127 then '\\' :: 'x' :: hexDigits 2 c.toNat
  else if c.toNat < 127 ∨ printable c then [c]
  else if c.toNat < 256 then '\\' :: 'x' :: hexDigits 2 c.toNat
  else if c.toNat < 65536 then '\\' :: 'u' :: hexDigits 4 c.toNat
  else '\\' :: 'U' :: hexDigits 8 c.toNat

/-- `repr(text)` -/
def repr (printable : Char → Bool) (text : String) : String :=
  let quote := if '\'' ∈ text.toList ∧ '"' ∉ text.toList then '"' else '\''
  String.ofList (quote :: text.toList.flatMap (reprChar printable quote) ++ [quote])

/-- The text of a list of texts. -/
def reprList (printable : Char → Bool) (texts : List String) : String :=
  "[" ++ ", ".intercalate (texts.map (repr printable)) ++ "]"

/-- `f'{q:.2f}'` -/
def fixed2 (q : ℚ) : String :=
  let hundredths := (Binary64.nearestEven (|q| * 100)).toNat
  (if q < 0 then "-" else "") ++ toString (hundredths / 100) ++ "." ++ toString (hundredths / 10 % 10) ++
    toString (hundredths % 10)

example : reprList (fun _ => true) ["a'b", "c\"d'\n"] = "[\"a'b\", 'c\"d\\'\\n']" := by decide

/-! ## Numbers in base 16 -/

/-- `'0' ≤ c ≤ '9'` or `'A' ≤ c ≤ 'F'` or `'a' ≤ c ≤ 'f'` -/
def isHex (c : Char) : Bool :=
  (48 ≤ c.toNat ∧ c.toNat ≤ 57) ∨ (65 ≤ c.toNat ∧ c.toNat ≤ 70) ∨ (97 ≤ c.toNat ∧ c.toNat ≤ 102)

def hexValue (c : Char) : Nat :=
  if c.toNat ≤ 57 then c.toNat - 48 else if c.toNat ≤ 70 then c.toNat - 55 else c.toNat - 87

theorem hexValue_lt {c : Char} (h : isHex c = true) : hexValue c < 16 := by
  simp only [isHex, decide_eq_true_eq] at h
  unfold hexValue
  split_ifs <;> omega

def isAsciiSpace (c : Char) : Bool := c ∈ ['\t', '\n', Char.ofNat 11, Char.ofNat 12, '\r', ' ']

/-- A character as the number reader sees it: white space as a blank, a digit of another script as the ASCII digit,
other characters behind ASCII as `?`. `decimal` : the digit a character is in the interpreter's Unicode tables. -/
def toAscii (decimal : Char → Option Nat) (c : Char) : Char :=
  if c.toNat < 127 then c
  else if isSpace c then ' '
  else (decimal c).elim '?' fun d => Char.ofNat (48 + d)

/-- Underscores only stand between digits. -/
def WellSpaced (digits : List Char) : Prop :=
  digits.head? ≠ some '_' ∧ digits.getLast? ≠ some '_' ∧ ¬ ['_', '_'] <:+: digits

instance (digits : List Char) : Decidable (WellSpaced digits) := inferInstanceAs (Decidable (_ ∧ _))

def splitSign : List Char → Bool × List Char
  | '+' :: cs => (false, cs)
  | '-' :: cs => (true, cs)
  | cs => (false, cs)

/-- The text behind `0x`, and behind an underscore that follows it. -/
def dropMark : List Char → List Char
  | '0' :: 'x' :: '_' :: cs => cs
  | '0' :: 'X' :: '_' :: cs => cs
  | '0' :: 'x' :: cs => cs
  | '0' :: 'X' :: cs => cs
  | cs => cs

def value16 (digits : List Char) : Nat := digits.foldl (fun n c => n * 16 + hexValue c) 0

def isHexOrUnderscore (c : Char) : Bool := isHex c || c = '_'

/-- `int(text, 16)`, absent for a `ValueError`. -/
def int16 (decimal : Char → Option Nat) (text : List Char) : Option ℤ :=
  let signed := splitSign ((text.map (toAscii decimal)).dropWhile isAsciiSpace)
  let cs := dropMark signed.2
  let digits := cs.takeWhile isHexOrUnderscore
  if WellSpaced digits ∧ digits ≠ [] ∧ (cs.dropWhile isHexOrUnderscore).all isAsciiSpace then
    let n := value16 (digits.filter (· ≠ '_'))
    some (if signed.1 then -n else n)
  else none

theorem value16_lt (digits : List Char) (h : ∀ c ∈ digits, isHex c = true) : value16 digits < 16 ^ digits.length := by
  induction digits using List.reverseRecOn with
  | nil => simp [value16]
  | append_singleton digits c ih =>
    have hc := hexValue_lt (h c (by simp))
    have hprev := ih fun d hd => h d (by simp [hd])
    rw [value16, List.foldl_append, List.length_append, List.length_singleton, pow_succ]
    show value16 digits * 16 + hexValue c < _
    omega

theorem isHex_iff {c : Char} : isHex c = true ↔
    (48 ≤ c.toNat ∧ c.toNat ≤ 57) ∨ (65 ≤ c.toNat ∧ c.toNat ≤ 70) ∨ (97 ≤ c.toNat ∧ c.toNat ≤ 102) := by
  simp [isHex]

theorem ne_of_isHex {c d : Char} (h : isHex c = true) (hd : isHex d = false) : c ≠ d := by
  rintro rfl
  rw [h] at hd
  cases hd

theorem splitSign_digits {digits : List Char} (h : ∀ c ∈ digits, isHex c = true) :
    splitSign digits = (false, digits) := by
  unfold splitSign
  split
  · exact absurd rfl (ne_of_isHex (h '+' (by simp)) (by decide))
  · exact absurd rfl (ne_of_isHex (h '-' (by simp)) (by decide))
  · rfl

theorem dropMark_digits {digits : List Char} (h : ∀ c ∈ digits, isHex c = true) : dropMark digits = digits := by
  unfold dropMark
  split
  · exact absurd rfl (ne_of_isHex (h 'x' (by simp)) (by decide))
  · exact absurd rfl (ne_of_isHex (h 'X' (by simp)) (by decide))
  · exact absurd rfl (ne_of_isHex (h 'x' (by simp)) (by decide))
  · exact absurd rfl (ne_of_isHex (h 'X' (by simp)) (by decide))
  · rfl

/-- Digits alone are read as their number. -/
theorem int16_digits (decimal : Char → Option Nat) {digits : List Char} (hne : digits ≠ [])
    (h : ∀ c ∈ digits, isHex c = true) : int16 decimal digits = some ((value16 digits : ℕ) : ℤ) := by
  have hascii : digits.map (toAscii decimal) = digits := by
    conv_rhs => rw [← List.map_id digits]
    refine List.map_congr_left fun c hc => ?_
    have := isHex_iff.mp (h c hc)
    exact if_pos (by omega)
  have hspace : digits.dropWhile isAsciiSpace = digits := by
    refine List.dropWhile_eq_self_iff.mpr fun hl hs => ?_
    have hhex := h _ (List.getElem_mem hl)
    simp only [isAsciiSpace, List.mem_cons, List.not_mem_nil, or_false, decide_eq_true_eq] at hs
    rcases hs with hs | hs | hs | hs | hs | hs <;> exact ne_of_isHex hhex (by decide) hs
  have hplain : ∀ c ∈ digits, isHexOrUnderscore c = true := fun c hc => by rw [isHexOrUnderscore, h c hc, Bool.true_or]
  have hnot : '_' ∉ digits := fun hmem => ne_of_isHex (h _ hmem) (by decide) rfl
  have hspaced : WellSpaced digits := by
    refine ⟨fun hh => hnot (List.mem_of_head? hh), fun hh => hnot (List.mem_of_getLast? hh), fun hinside => ?_⟩
    exact hnot (List.IsInfix.subset hinside (List.mem_cons_self ..))
  have hfilter : digits.filter (· ≠ '_') = digits :=
    List.filter_eq_self.mpr fun c hc => decide_eq_true fun heq => hnot (heq ▸ hc)
  unfold int16
  simp only [hascii, hspace, splitSign_digits h, dropMark_digits h, List.takeWhile_eq_self_iff.mpr hplain,
    List.dropWhile_eq_nil_iff.mpr hplain, List.all_nil, hfilter]
  rw [if_pos ⟨hspaced, hne, trivial⟩]
  rfl

/-! ## UUIDs -/

/-- `uuid.UUID(text)`, absent for a `ValueError`. -/
def uuid? (decimal : Char → Option Nat) (text : List Char) : Option (BitVec 128) :=
  let hex := (strip (· ∈ ['{', '}']) (removeAll "uuid:".toList (removeAll "urn:".toList text))).filter (· ≠ '-')
  if hex.length ≠ 32 then none
  else (int16 decimal hex).bind fun n => if 0 ≤ n ∧ n < 2 ^ 128 then some (BitVec.ofInt 128 n) else none

/-- Digits in groups of 8, 4, 4, 4 and the rest. -/
def hyphenate (digits : List Char) : List Char :=
  digits.take 8 ++ '-' :: (digits.drop 8).take 4 ++ '-' :: (digits.drop 12).take 4 ++ '-' :: (digits.drop 16).take 4 ++
    '-' :: digits.drop 20

/-- 32 digits. -/
def IsDigits (digits : List Char) : Prop := digits.length = 32 ∧ ∀ c ∈ digits, isHex c = true

instance (digits : List Char) : Decidable (IsDigits digits) :=
  @instDecidableAnd _ _ _ (List.decidableBAll (isHex · = true) digits)

theorem uuid?_eq (decimal : Char → Option Nat) {text digits : List Char} (h : IsDigits digits)
    (htext : (strip (· ∈ ['{', '}']) (removeAll "uuid:".toList (removeAll "urn:".toList text))).filter (· ≠ '-') =
      digits) : uuid? decimal text = some (BitVec.ofNat 128 (value16 digits)) := by
  have hne : digits ≠ [] := by
    rintro rfl
    exact absurd h.1 (by decide)
  have hlt := value16_lt digits h.2
  rw [h.1] at hlt
  unfold uuid?
  simp only [htext]
  rw [if_neg (not_not.mpr h.1), int16_digits decimal hne h.2, Option.bind_some,
    if_pos ⟨Int.natCast_nonneg _, by exact_mod_cast lt_of_lt_of_le hlt (by norm_num)⟩]
  rfl

theorem hyphenate_chars {digits : List Char} (h : IsDigits digits) {c : Char} (hc : c ∈ hyphenate digits) :
    isHex c = true ∨ c = '-' := by
  have hsub : ∀ d ∈ digits, isHex d = true ∨ d = '-' := fun d hd => Or.inl (h.2 d hd)
  simp only [hyphenate, List.mem_append, List.mem_cons] at hc
  rcases hc with (((hc | rfl | hc) | rfl | hc) | rfl | hc) | rfl | hc
  all_goals first | exact Or.inr rfl | skip
  · exact hsub c (List.mem_of_mem_take hc)
  · exact hsub c (List.mem_of_mem_drop (List.mem_of_mem_take hc))
  · exact hsub c (List.mem_of_mem_drop (List.mem_of_mem_take hc))
  · exact hsub c (List.mem_of_mem_drop (List.mem_of_mem_take hc))
  · exact hsub c (List.mem_of_mem_drop hc)

theorem filter_digits {digits : List Char} (h : IsDigits digits) : digits.filter (· ≠ '-') = digits :=
  List.filter_eq_self.mpr fun c hc => decide_eq_true (ne_of_isHex (h.2 c hc) (by decide))

theorem filter_hyphenate {digits : List Char} (h : IsDigits digits) :
    (hyphenate digits).filter (· ≠ '-') = digits := by
  have hsplit : digits = digits.take 8 ++ ((digits.drop 8).take 4 ++ ((digits.drop 12).take 4 ++
      ((digits.drop 16).take 4 ++ digits.drop 20))) := by
    have hstep : ∀ a b : Nat, (digits.drop a).take b ++ digits.drop (a + b) = digits.drop a := fun a b => by
      rw [← List.drop_drop, List.take_append_drop]
    rw [hstep 16 4, hstep 12 4, hstep 8 4, List.take_append_drop]
  conv_rhs => rw [← filter_digits h, hsplit]
  simp [hyphenate, List.filter_append]

theorem not_brace {text : List Char} (h : ∀ d : Char, isHex d = false → d ≠ '-' → d ∉ text) :
    ∀ c ∈ text, decide (c ∈ ['{', '}']) = false := by
  intro c hc
  simp only [List.mem_cons, List.not_mem_nil, or_false, decide_eq_false_iff_not, not_or]
  exact ⟨fun heq => h '{' (by decide) (by decide) (heq ▸ hc), fun heq => h '}' (by decide) (by decide) (heq ▸ hc)⟩

/-- A text of hex digits and hyphens is read as it is. -/
theorem uuid?_plain (decimal : Char → Option Nat) {text digits : List Char} (h : IsDigits digits)
    (htext : ∀ c ∈ text, isHex c = true ∨ c = '-') (hfilter : text.filter (· ≠ '-') = digits) :
    uuid? decimal text = some (BitVec.ofNat 128 (value16 digits)) := by
  have hno : ∀ d : Char, isHex d = false → d ≠ '-' → d ∉ text := by
    intro d hd hdash hmem
    rcases htext d hmem with hhex | hhex
    · exact ne_of_isHex hhex hd rfl
    · exact hdash hhex
  refine uuid?_eq decimal h ?_
  have hu := hno 'u' (by decide) (by decide)
  rw [show "urn:".toList = 'u' :: ['r', 'n', ':'] from rfl, removeAll_eq_self hu,
    show "uuid:".toList = 'u' :: ['u', 'i', 'd', ':'] from rfl, removeAll_eq_self hu, strip_eq_self (not_brace hno),
    hfilter]

theorem uuid?_hyphenate (decimal : Char → Option Nat) {digits : List Char} (h : IsDigits digits) :
    uuid? decimal (hyphenate digits) = some (BitVec.ofNat 128 (value16 digits)) :=
  uuid?_plain decimal h (fun _ hc => hyphenate_chars h hc) (filter_hyphenate h)

theorem uuid?_digits (decimal : Char → Option Nat) {digits : List Char} (h : IsDigits digits) :
    uuid? decimal digits = some (BitVec.ofNat 128 (value16 digits)) :=
  uuid?_plain decimal h (fun c hc => Or.inl (h.2 c hc)) (filter_digits h)

theorem notMem_hyphenate {digits : List Char} (h : IsDigits digits) {d : Char} (hd : isHex d = false)
    (hdash : d ≠ '-') :
    d ∉ hyphenate digits := by
  intro hmem
  rcases hyphenate_chars h hmem with hhex | hhex
  · exact ne_of_isHex hhex hd rfl
  · exact hdash hhex

theorem uuid?_braced (decimal : Char → Option Nat) {digits : List Char} (h : IsDigits digits) :
    uuid? decimal ('{' :: hyphenate digits ++ ['}']) = some (BitVec.ofNat 128 (value16 digits)) := by
  refine uuid?_eq decimal h ?_
  have hu : 'u' ∉ '{' :: hyphenate digits ++ ['}'] := by
    have := notMem_hyphenate h (d := 'u') (by decide) (by decide)
    simp [this]
  have hbrace := not_brace fun d hd hdash => notMem_hyphenate h hd hdash
  have hne : hyphenate digits ≠ [] := by simp [hyphenate]
  have hstrip : strip (· ∈ ['{', '}']) ('{' :: hyphenate digits ++ ['}']) = hyphenate digits := by
    have hinner := strip_eq_self hbrace
    obtain ⟨c, cs, hcons⟩ := List.exists_cons_of_ne_nil hne
    have hdrop : ('{' :: hyphenate digits ++ ['}']).dropWhile (fun c => decide (c ∈ ['{', '}'])) =
        hyphenate digits ++ ['}'] := by
      rw [List.cons_append, List.dropWhile_cons_of_pos (by decide), hcons, List.cons_append,
        List.dropWhile_cons_of_neg]
      rw [hbrace c (by rw [hcons]; exact List.mem_cons_self ..)]
      decide
    rw [strip, hdrop, List.rdropWhile_concat_pos _ _ _ (by decide), List.rdropWhile_eq_self_iff]
    intro hl
    rw [hbrace _ (List.getLast_mem hl)]
    decide
  rw [show "urn:".toList = 'u' :: ['r', 'n', ':'] from rfl, removeAll_eq_self hu,
    show "uuid:".toList = 'u' :: ['u', 'i', 'd', ':'] from rfl, removeAll_eq_self hu, hstrip, filter_hyphenate h]

theorem uuid?_urn (decimal : Char → Option Nat) {digits : List Char} (h : IsDigits digits) :
    uuid? decimal ("urn:uuid:".toList ++ hyphenate digits) = some (BitVec.ofNat 128 (value16 digits)) := by
  refine uuid?_eq decimal h ?_
  have hu := notMem_hyphenate h (d := 'u') (by decide) (by decide)
  have hurn : removeAll "urn:".toList ("urn:uuid:".toList ++ hyphenate digits) =
      "uuid:".toList ++ hyphenate digits := by
    have hrest : removeAll ['u', 'r', 'n', ':'] _ = _ := removeAll_eq_self hu
    rw [removeAll] at hrest
    simp [removeAll, removeFrom, hrest]
  have huuid : removeAll "uuid:".toList ("uuid:".toList ++ hyphenate digits) = hyphenate digits := by
    have hrest : removeAll ['u', 'u', 'i', 'd', ':'] _ = _ := removeAll_eq_self hu
    rw [removeAll] at hrest
    simp [removeAll, removeFrom, hrest]
  rw [hurn, huuid, strip_eq_self (not_brace fun d hd hdash => notMem_hyphenate h hd hdash), filter_hyphenate h]

end PyText
