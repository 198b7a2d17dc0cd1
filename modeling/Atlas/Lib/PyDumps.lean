import Atlas.Lib.FloatRepr
import Atlas.Lib.PyLoads

/-!
# `json.dumps(value, sort_keys=True, separators=(",", ":"))`

* `quoted`, `intText`, `doubleText` : the text of a string, an integer and a float;
* `Object.sorted` : the entries of every dict in the order of their keys; `write`, `dumps` : the text of an object;
* `merged`, `reread`, `again` : what is read from the text: two surrogates that make a pair are one character then;
* `scanString_quoted`, `scanNumber_lit`, `scanContainer_joined`, `scanValue_write` : the text is read as that;
* `eq_again` : it is equal to what was written when there was no such pair.
-/

namespace Py
open PyJson (PyStr pyStr)

/-! ## Strings and numbers -/

def hexChar (d : ℕ) : ℕ := if d < 10 then 48 + d else 87 + d

/-- `\uXXXX` -/
def unicodeEscape (u : ℕ) : PyStr :=
  [92, 117, hexChar (u / 4096), hexChar (u / 256 % 16), hexChar (u / 16 % 16), hexChar (u % 16)]

/-- The code points with a short escape, and the character behind its backslash. -/
def shortEscapes : List (ℕ × ℕ) := [(92, 92), (34, 34), (8, 98), (12, 102), (10, 110), (13, 114), (9, 116)]

def highOf (c : ℕ) : ℕ := 0xD800 + (c - 0x10000) / 0x400

def lowOf (c : ℕ) : ℕ := 0xDC00 + (c - 0x10000) % 0x400

def escaped (c : ℕ) : PyStr :=
  match shortEscapes.lookup c with
  | some d => [92, d]
  | none =>
    if 32 ≤ c ∧ c ≤ 126 then [c]
    else if c < 0x10000 then unicodeEscape c
    else unicodeEscape (highOf c) ++ unicodeEscape (lowOf c)

def quoted (s : PyStr) : PyStr := 34 :: (s.flatMap escaped ++ [34])

/-- `int.__repr__` -/
def intText (n : ℤ) : PyStr := (if n < 0 then [45] else []) ++ (Decimal.render n.natAbs).map UInt8.toNat

/-- `float.__repr__`, and the names of the others. -/
def doubleText : F64 → PyStr
  | .nan => pyStr "NaN"
  | .infinity neg => pyStr (if neg then "-Infinity" else "Infinity")
  | .negZero => pyStr "-0.0"
  | .finite x _ => (FloatRepr.repr x).bytes.map UInt8.toNat

/-! ## Objects -/

mutual

/-- `sort_keys=True` -/
def Object.sorted : Object → Object
  | .list items => .list (sortedList items)
  | .dict items => .dict (sortedItems items)
  | v => v

def sortedList : List Object → List Object
  | [] => []
  | v :: items => v.sorted :: sortedList items

def sortedItems : List (PyStr × Object) → List (PyStr × Object)
  | [] => []
  | (key, v) :: items => List.orderedInsert (fun a b => a.1 ≤ b.1) (key, v.sorted) (sortedItems items)

end

/-- `RecursionError`, and the `ValueError` for an integer with too many digits. -/
inductive DumpsError
  | recursion
  | digits
  deriving DecidableEq

/-- Texts between brackets, a comma between each two. -/
def bracketed (opening closing : ℕ) (texts : List PyStr) : PyStr := opening :: ([44].intercalate texts ++ [closing])

mutual

/-- The text of an object, the dicts in the order of their entries; `depth` containers may be nested. -/
def Object.write (digits : ℕ) : ℕ → Object → Except DumpsError PyStr
  | _, .none => .ok (pyStr "null")
  | _, .bool b => .ok (pyStr (if b then "true" else "false"))
  | _, .int n => if digits ≠ 0 ∧ digits < (Decimal.render n.natAbs).length then .error .digits else .ok (intText n)
  | _, .float x => .ok (doubleText x)
  | _, .str s => .ok (quoted s)
  | depth, .list items =>
    if depth = 0 then .error .recursion else (writeList digits (depth - 1) items).map (bracketed 91 93)
  | depth, .dict items =>
    if depth = 0 then .error .recursion else (writeItems digits (depth - 1) items).map (bracketed 123 125)

def writeList (digits : ℕ) : ℕ → List Object → Except DumpsError (List PyStr)
  | _, [] => .ok []
  | depth, v :: items => do
    let text ← v.write digits depth
    let texts ← writeList digits depth items
    pure (text :: texts)

def writeItems (digits : ℕ) : ℕ → List (PyStr × Object) → Except DumpsError (List PyStr)
  | _, [] => .ok []
  | depth, (key, v) :: items => do
    let text ← v.write digits depth
    let texts ← writeItems digits depth items
    pure ((quoted key ++ 58 :: text) :: texts)

end

def dumps (limits : Limits) (v : Object) : Except DumpsError PyStr := v.sorted.write limits.digits limits.dumps

/-! ## What is read from the text -/

/-- A high surrogate and a low one behind it are one character. -/
def merged : PyStr → PyStr
  | [] => []
  | [c] => [c]
  | c :: d :: s =>
    if Json.IsHighSurrogate c ∧ Json.IsLowSurrogate d then joined c d :: merged s else c :: merged (d :: s)

mutual

def Object.reread : Object → Object
  | .str s => .str (merged s)
  | .list items => .list (rereadList items)
  | .dict items => .dict (Dict.ofPairs (rereadItems items)).entries
  | v => v

def rereadList : List Object → List Object
  | [] => []
  | v :: items => v.reread :: rereadList items

def rereadItems : List (PyStr × Object) → List (PyStr × Object)
  | [] => []
  | (key, v) :: items => (merged key, v.reread) :: rereadItems items

end

/-- What `json.loads` makes of what `json.dumps` has made. -/
def Object.again (v : Object) : Object := v.sorted.reread

/-! ## Reading a string -/

theorem hexDigit?_hexChar {d : ℕ} (h : d < 16) : hexDigit? (hexChar d) = some d := by
  unfold hexDigit? hexChar
  split_ifs <;> first | omega | (congr 1; omega)

theorem unit?_digits {u : ℕ} (h : u < 0x10000) :
    unit? (hexChar (u / 4096)) (hexChar (u / 256 % 16)) (hexChar (u / 16 % 16)) (hexChar (u % 16)) = some u := by
  unfold unit?
  rw [hexDigit?_hexChar (by omega), hexDigit?_hexChar (by omega), hexDigit?_hexChar (by omega),
    hexDigit?_hexChar (by omega)]
  dsimp only
  congr 1
  omega

theorem lowEscape?_unicodeEscape {u : ℕ} (h : u < 0x10000) (tail : PyStr) :
    lowEscape? (unicodeEscape u ++ tail) = if Json.IsLowSurrogate u then some u else none := by
  show (unit? _ _ _ _).filter _ = _
  rw [unit?_digits h, Option.filter_some]
  simp only [decide_eq_true_eq]

theorem scanString_unit (a b c d : ℕ) (tail : PyStr) : scanStringFrom 0 (92 :: 117 :: a :: b :: c :: d :: tail) =
    (unit? a b c d).bind fun u =>
      match if Json.IsHighSurrogate u then lowEscape? tail else none with
      | some low => (scanStringFrom 6 tail).map fun p => (joined u low :: p.1, p.2)
      | none => (scanStringFrom 0 tail).map fun p => (u :: p.1, p.2) := rfl

/-- The escape of a code unit, when no low surrogate's has to be read with it. -/
theorem scanString_unicodeEscape {u : ℕ} (h : u < 0x10000) {tail : PyStr}
    (halone : Json.IsHighSurrogate u → lowEscape? tail = none) :
    scanStringFrom 0 (unicodeEscape u ++ tail) = (scanStringFrom 0 tail).map fun p => (u :: p.1, p.2) := by
  show scanStringFrom 0 (92 :: 117 :: _ :: _ :: _ :: _ :: tail) = _
  rw [scanString_unit, unit?_digits h, Option.bind_some]
  have hnone : (if Json.IsHighSurrogate u then lowEscape? tail else none) = none := by
    split_ifs with hhigh
    · exact halone hhigh
    · rfl
  rw [hnone]

theorem scanString_pair {high low : ℕ} (hhigh : Json.IsHighSurrogate high) (hlow : Json.IsLowSurrogate low)
    (tail : PyStr) : scanStringFrom 0 (unicodeEscape high ++ (unicodeEscape low ++ tail)) =
      (scanStringFrom 0 tail).map fun p => (joined high low :: p.1, p.2) := by
  have hhigh' := hhigh
  have hlow' := hlow
  unfold Json.IsHighSurrogate at hhigh'
  unfold Json.IsLowSurrogate at hlow'
  show scanStringFrom 0 (92 :: 117 :: _ :: _ :: _ :: _ :: (unicodeEscape low ++ tail)) = _
  rw [scanString_unit, unit?_digits (by omega), Option.bind_some]
  have hsome : (if Json.IsHighSurrogate high then lowEscape? (unicodeEscape low ++ tail) else none) = some low := by
    rw [if_pos hhigh, lowEscape?_unicodeEscape (by omega), if_pos hlow]
  rw [hsome]
  rfl

theorem isHigh_highOf {c : ℕ} (h : c < 0x110000) : Json.IsHighSurrogate (highOf c) := by
  unfold Json.IsHighSurrogate highOf
  omega

theorem isLow_lowOf (c : ℕ) : Json.IsLowSurrogate (lowOf c) := by
  unfold Json.IsLowSurrogate lowOf
  omega

theorem joined_halves {c : ℕ} (h : 0x10000 ≤ c) : joined (highOf c) (lowOf c) = c := by
  unfold joined highOf lowOf
  omega

theorem lookup_shortEscapes {c d : ℕ} (h : shortEscapes.lookup c = some d) :
    d ≠ 117 ∧ escapes.lookup d = some c ∧ c < 128 := by
  have hall : ∀ e ∈ shortEscapes, e.2 ≠ 117 ∧ escapes.lookup e.2 = some e.1 ∧ e.1 < 128 := by decide
  exact hall _ (Dict.mem_of_lookup h)

theorem not_shortEscapes {c : ℕ} (h : shortEscapes.lookup c = none) : c ≠ 34 ∧ c ≠ 92 := by
  constructor <;> rintro rfl <;> exact nomatch h

theorem escaped_unit {c : ℕ} (hc : 128 ≤ c) (hsmall : c < 0x10000) : escaped c = unicodeEscape c := by
  unfold escaped
  split
  case h_1 d hshort =>
    have := (lookup_shortEscapes hshort).2.2
    omega
  case h_2 => rw [if_neg (by omega), if_pos hsmall]

/-- A code point that is not low does not start with the escape of a low surrogate. -/
theorem lowEscape?_escaped {c : ℕ} (hc : c < 0x110000) (hlow : ¬ Json.IsLowSurrogate c) (tail : PyStr) :
    lowEscape? (escaped c ++ tail) = none := by
  unfold escaped
  split
  case h_1 d hshort =>
    have hd := (lookup_shortEscapes hshort).1
    show lowEscape? (92 :: d :: tail) = none
    unfold lowEscape?
    split
    case h_1 heq => exact absurd (List.cons.inj (List.cons.inj heq).2).1 hd
    case h_2 => rfl
  case h_2 hshort =>
    split_ifs with hprint hsmall
    · show lowEscape? (c :: tail) = none
      unfold lowEscape?
      split
      case h_1 heq => exact absurd (List.cons.inj heq).1 (not_shortEscapes hshort).2
      case h_2 => rfl
    · rw [lowEscape?_unicodeEscape hsmall, if_neg hlow]
    · rw [List.append_assoc]
      have hhigh := isHigh_highOf hc
      unfold Json.IsHighSurrogate at hhigh
      rw [lowEscape?_unicodeEscape (by omega), if_neg]
      unfold Json.IsLowSurrogate
      omega

theorem scanString_escaped {c : ℕ} (hc : c < 0x110000) {tail : PyStr}
    (halone : Json.IsHighSurrogate c → lowEscape? tail = none) :
    scanStringFrom 0 (escaped c ++ tail) = (scanStringFrom 0 tail).map fun p => (c :: p.1, p.2) := by
  unfold escaped
  split
  case h_1 d hshort =>
    obtain ⟨hu, hescape, -⟩ := lookup_shortEscapes hshort
    show scanStringFrom 0 (92 :: d :: tail) = _
    conv_lhs => unfold scanStringFrom
    rw [if_neg (by decide), if_pos rfl]
    split
    case h_1 heq => exact absurd (List.cons.inj heq).1 hu
    case h_2 heq =>
      obtain ⟨rfl, rfl⟩ := List.cons.inj heq
      rw [hescape, Option.bind_some]
      rfl
    case h_3 heq => exact nomatch heq
  case h_2 hshort =>
    obtain ⟨hquote, hback⟩ := not_shortEscapes hshort
    split_ifs with hprint hsmall
    · show scanStringFrom 0 (c :: tail) = _
      conv_lhs => unfold scanStringFrom
      rw [if_neg hquote, if_neg hback, if_neg (by omega)]
    · exact scanString_unicodeEscape hsmall halone
    · rw [List.append_assoc, scanString_pair (isHigh_highOf hc) (isLow_lowOf c), joined_halves (by omega)]

/-- **A string is read with its pairs merged.** -/
theorem scanString_quoted {s : PyStr} (h : CodePoints s) (rest : PyStr) :
    scanStringFrom 0 (s.flatMap escaped ++ 34 :: rest) = some (merged s, rest) := by
  induction s using merged.induct with
  | case1 => rfl
  | case2 c =>
    rw [List.flatMap_singleton, scanString_escaped (h c (List.mem_singleton_self c)) fun _ => rfl]
    rfl
  | case3 c d s hpair ih =>
    have hhigh := hpair.1
    have hlow := hpair.2
    unfold Json.IsHighSurrogate at hhigh
    unfold Json.IsLowSurrogate at hlow
    have hs := ih fun e he => h e (List.mem_cons_of_mem _ (List.mem_cons_of_mem _ he))
    rw [List.flatMap_cons, List.flatMap_cons, List.append_assoc, List.append_assoc,
      escaped_unit (by omega) (by omega), escaped_unit (by omega) (by omega), scanString_pair hpair.1 hpair.2, hs,
      merged, if_pos hpair]
    rfl
  | case4 c d s hpair ih =>
    have hd := h d (List.mem_cons_of_mem _ (List.mem_cons_self ..))
    have hs := ih fun e he => h e (List.mem_cons_of_mem _ he)
    rw [List.flatMap_cons, List.append_assoc, scanString_escaped (h c (List.mem_cons_self ..)), hs, merged,
      if_neg hpair]
    · rfl
    · intro hhigh
      rw [List.flatMap_cons, List.append_assoc]
      exact lowEscape?_escaped hd (fun hlow => hpair ⟨hhigh, hlow⟩) _

/-! ## Reading a number -/

/-- Nothing behind, or what may stand behind a value. -/
def Ends (rest : PyStr) : Prop := ∀ c ∈ rest.head?, c = 44 ∨ c = 93 ∨ c = 125

def NoDigit (s : PyStr) : Prop := ∀ c ∈ s.head?, isDigit c = false

theorem Ends.noDigit {rest : PyStr} (h : Ends rest) : NoDigit rest := by
  intro c hc
  rcases h c hc with rfl | rfl | rfl <;> rfl

/-- The number that a literal of the grammar is. -/
def Numeral.ofLit (n : Json.NumLit) : Numeral :=
  ⟨n.neg, n.int.bytes, n.frac.map Json.Digits.bytes, n.exp.map fun e => (e.sign, e.digits.bytes)⟩

theorem Numeral.value_ofLit (n : Json.NumLit) : (Numeral.ofLit n).value = n.value := by
  obtain ⟨neg, int, frac, exp⟩ := n
  cases frac <;> cases exp <;> rfl

theorem isDigit_toNat {b : UInt8} (h : Decimal.IsDigit b) : isDigit b.toNat = true := decide_eq_true h

theorem takeDigits_append {bytes : List UInt8} (h : ∀ b ∈ bytes, Decimal.IsDigit b) {tail : PyStr}
    (htail : NoDigit tail) :
    takeDigits (bytes.map UInt8.toNat ++ tail) = bytes ∧ dropDigits (bytes.map UInt8.toNat ++ tail) = tail := by
  have hall : ∀ c ∈ bytes.map UInt8.toNat, isDigit c = true := by
    intro c hc
    obtain ⟨b, hb, rfl⟩ := List.mem_map.mp hc
    exact isDigit_toNat (h b hb)
  have hstop : tail.takeWhile isDigit = [] ∧ tail.dropWhile isDigit = tail := by
    cases tail with
    | nil => exact ⟨rfl, rfl⟩
    | cons c tail =>
      have hc : ¬ isDigit c = true := by rw [htail c rfl]; exact Bool.false_ne_true
      exact ⟨List.takeWhile_cons_of_neg hc, List.dropWhile_cons_of_neg hc⟩
  unfold takeDigits dropDigits
  rw [List.takeWhile_append_of_pos hall, List.dropWhile_append_of_pos hall, hstop.1, hstop.2, List.append_nil,
    List.map_map]
  refine ⟨?_, rfl⟩
  conv_rhs => rw [← List.map_id bytes]
  exact List.map_congr_left fun b _ => UInt8.ofNat_toNat

theorem scanNeg_lit (neg : Bool) (tail : PyStr) (h : ∀ c ∈ tail.head?, c ≠ 45) :
    scanNeg ((Json.negBytes neg).map UInt8.toNat ++ tail) = (neg, tail) := by
  cases neg with
  | true => rfl
  | false =>
    cases tail with
    | nil => rfl
    | cons c tail => exact if_neg (h c rfl)

theorem scanSign_lit (sign : Option Bool) (tail : PyStr) (h : ∀ c ∈ tail.head?, c ≠ 45 ∧ c ≠ 43) :
    scanSign ((Json.signBytes sign).map UInt8.toNat ++ tail) = (sign, tail) := by
  cases sign with
  | some b => cases b <;> rfl
  | none =>
    cases tail with
    | nil => rfl
    | cons c tail =>
      obtain ⟨hminus, hplus⟩ := h c rfl
      show (if c = 45 then _ else if c = 43 then _ else _) = _
      rw [if_neg hminus, if_neg hplus]

/-- A digit comes first. -/
theorem head?_digits (digits : Json.Digits) (tail : PyStr) :
    ∃ c s, digits.bytes.map UInt8.toNat ++ tail = c :: s ∧ isDigit c = true := by
  obtain ⟨bytes, hne, hdigits⟩ := digits
  obtain ⟨b, bytes, rfl⟩ := List.exists_cons_of_ne_nil hne
  exact ⟨b.toNat, _, rfl, isDigit_toNat (hdigits b (List.mem_cons_self ..))⟩

theorem not_sign_of_isDigit {c : ℕ} (h : isDigit c = true) : c ≠ 45 ∧ c ≠ 43 := by
  have : 48 ≤ c ∧ c ≤ 57 := by simpa [isDigit] using h
  omega

theorem expMark_eq (upper : Bool) :
    (if upper then 69 else 101 : UInt8).toNat = 101 ∨ (if upper then 69 else 101 : UInt8).toNat = 69 := by
  cases upper
  · exact .inl rfl
  · exact .inr rfl

theorem scanExp_lit (exp : Option Json.Exponent) {rest : PyStr} (hrest : Ends rest) :
    scanExp ((Json.expBytes exp).map UInt8.toNat ++ rest) = (exp.map fun e => (e.sign, e.digits.bytes), rest) := by
  cases exp with
  | none =>
    cases rest with
    | nil => rfl
    | cons c rest =>
      refine if_neg fun hexp => ?_
      rcases hrest c rfl with rfl | rfl | rfl <;> exact absurd hexp.1 (by decide)
  | some e =>
    obtain ⟨upper, sign, digits⟩ := e
    obtain ⟨c, s, hhead, hdigit⟩ := head?_digits digits rest
    have hsign := scanSign_lit sign (digits.bytes.map UInt8.toNat ++ rest) (by
      rw [hhead]
      rintro d ⟨⟩
      exact not_sign_of_isDigit hdigit)
    obtain ⟨htake, hdrop⟩ := takeDigits_append digits.isDigit hrest.noDigit
    rw [Json.expBytes, List.map_cons, List.map_append, List.cons_append, List.append_assoc, scanExp, hsign, htake,
      hdrop]
    exact if_pos ⟨expMark_eq upper, digits.ne_nil⟩

theorem scanFrac_lit (frac : Option Json.Digits) {tail : PyStr} (hdigit : NoDigit tail)
    (hpoint : ∀ c ∈ tail.head?, c ≠ 46) :
    scanFrac ((Json.fracBytes frac).map UInt8.toNat ++ tail) = (frac.map Json.Digits.bytes, tail) := by
  cases frac with
  | none =>
    cases tail with
    | nil => rfl
    | cons c tail => exact if_neg fun h => hpoint c rfl h.1
  | some digits =>
    obtain ⟨htake, hdrop⟩ := takeDigits_append digits.isDigit hdigit
    rw [Json.fracBytes, List.map_cons, List.cons_append, scanFrac, htake, hdrop]
    exact if_pos ⟨rfl, digits.ne_nil⟩

theorem scanInt_lit (int : Json.IntPart) {tail : PyStr} (h : NoDigit tail) :
    scanInt (int.bytes.map UInt8.toNat ++ tail) = some (int.bytes, tail) := by
  cases int with
  | zero => rfl
  | pos digits hzero =>
    obtain ⟨htake, hdrop⟩ := takeDigits_append digits.isDigit h
    obtain ⟨bytes, hne, hdigits⟩ := digits
    obtain ⟨b, bytes, rfl⟩ := List.exists_cons_of_ne_nil hne
    have hb : b.toNat ≠ 48 := fun heq => hzero (congrArg some (UInt8.toNat_inj.mp heq))
    show (if b.toNat = 48 then _ else if isDigit b.toNat = true then _ else _) = _
    rw [if_neg hb, if_pos (isDigit_toNat (hdigits b (List.mem_cons_self ..)))]
    exact congrArg some (Prod.ext htake hdrop)

theorem expBytes_head (exp : Option Json.Exponent) {rest : PyStr} (hrest : Ends rest) :
    NoDigit ((Json.expBytes exp).map UInt8.toNat ++ rest) ∧
      ∀ c ∈ ((Json.expBytes exp).map UInt8.toNat ++ rest).head?, c ≠ 46 := by
  cases exp with
  | none =>
    refine ⟨hrest.noDigit, fun c hc => ?_⟩
    rcases hrest c hc with rfl | rfl | rfl <;> decide
  | some e =>
    obtain ⟨upper, sign, digits⟩ := e
    constructor
    · rintro c ⟨⟩
      rcases expMark_eq upper with h | h <;> dsimp only <;> rw [h] <;> rfl
    · rintro c ⟨⟩
      rcases expMark_eq upper with h | h <;> dsimp only <;> rw [h] <;> decide

theorem fracBytes_head (frac : Option Json.Digits) {tail : PyStr} (h : NoDigit tail) :
    NoDigit ((Json.fracBytes frac).map UInt8.toNat ++ tail) := by
  cases frac with
  | none => exact h
  | some digits =>
    rintro c ⟨⟩
    rfl

theorem head?_int (int : Json.IntPart) (tail : PyStr) :
    ∃ c s, int.bytes.map UInt8.toNat ++ tail = c :: s ∧ isDigit c = true := by
  cases int with
  | zero => exact ⟨48, tail, rfl, rfl⟩
  | pos digits h => exact head?_digits digits tail

/-- **A literal of the grammar is read as it is.** -/
theorem scanNumber_lit (n : Json.NumLit) {rest : PyStr} (hrest : Ends rest) :
    scanNumber (n.bytes.map UInt8.toNat ++ rest) = some (Numeral.ofLit n, rest) := by
  obtain ⟨neg, int, frac, exp⟩ := n
  obtain ⟨hexp, hpoint⟩ := expBytes_head exp hrest
  have hfrac := fracBytes_head frac hexp
  unfold Json.NumLit.bytes
  dsimp only
  rw [List.map_append, List.map_append, List.map_append, List.append_assoc, List.append_assoc, List.append_assoc]
  obtain ⟨c, s, hhead, hdigit⟩ := head?_int int
    ((Json.fracBytes frac).map UInt8.toNat ++ ((Json.expBytes exp).map UInt8.toNat ++ rest))
  have hneg := scanNeg_lit neg (int.bytes.map UInt8.toNat ++ ((Json.fracBytes frac).map UInt8.toNat ++
      ((Json.expBytes exp).map UInt8.toNat ++ rest))) (by
    rw [hhead]
    rintro d ⟨⟩
    exact (not_sign_of_isDigit hdigit).1)
  unfold scanNumber
  rw [hneg]
  dsimp only
  rw [scanInt_lit int hfrac, Option.map_some]
  dsimp only
  rw [scanFrac_lit frac hexp hpoint]
  dsimp only
  rw [scanExp_lit exp hrest]
  rfl

theorem bytes_head (n : Json.NumLit) (rest : PyStr) : ∃ d s, isDigit d = true ∧
    n.bytes.map UInt8.toNat ++ rest = (if n.neg then [45] else []) ++ d :: s := by
  obtain ⟨neg, int, frac, exp⟩ := n
  obtain ⟨d, s, hhead, hdigit⟩ := head?_int int ((Json.fracBytes frac ++ Json.expBytes exp).map UInt8.toNat ++ rest)
  refine ⟨d, s, hdigit, ?_⟩
  rw [← hhead]
  unfold Json.NumLit.bytes
  cases neg <;> simp [Json.negBytes]

/-- No name starts with a digit, or with a digit behind the sign. -/
theorem scanLiteral_lit (n : Json.NumLit) (rest : PyStr) : scanLiteral (n.bytes.map UInt8.toNat ++ rest) = none := by
  have hnames : ∀ e ∈ literals, ∃ c c' s, pyStr e.1 = c :: c' :: s ∧ isDigit c = false ∧ isDigit c' = false := by
    unfold literals
    simp only [List.forall_mem_cons]
    exact ⟨⟨_, _, _, rfl, rfl, rfl⟩, ⟨_, _, _, rfl, rfl, rfl⟩, ⟨_, _, _, rfl, rfl, rfl⟩, ⟨_, _, _, rfl, rfl, rfl⟩,
      ⟨_, _, _, rfl, rfl, rfl⟩, ⟨_, _, _, rfl, rfl, rfl⟩, List.forall_mem_nil _⟩
  obtain ⟨d, s, hdigit, htext⟩ := bytes_head n rest
  have hnone : literals.find? (fun entry => pyStr entry.1 <+: n.bytes.map UInt8.toNat ++ rest) = none := by
    rw [List.find?_eq_none]
    intro e he hstarts
    obtain ⟨c, c', s', hname, hc, hc'⟩ := hnames e he
    rw [decide_eq_true_eq, htext, hname] at hstarts
    split_ifs at hstarts with hneg
    · obtain ⟨-, hstarts⟩ := List.cons_prefix_cons.mp hstarts
      obtain ⟨rfl, -⟩ := List.cons_prefix_cons.mp hstarts
      exact Bool.false_ne_true (hc'.symm.trans hdigit)
    · obtain ⟨rfl, -⟩ := List.cons_prefix_cons.mp hstarts
      exact Bool.false_ne_true (hc.symm.trans hdigit)
  unfold scanLiteral
  rw [hnone]
  rfl

/-- The literal of an integer. -/
def intLit (n : ℤ) : Json.NumLit where
  neg := n < 0
  int :=
    if h : n.natAbs = 0 then .zero
    else .pos ⟨Decimal.render n.natAbs, Decimal.render_ne_nil _, fun _ => Decimal.isDigit_of_mem_render⟩
      (FloatRepr.head?_render h)
  frac := none
  exp := none

theorem bytes_int_intLit (n : ℤ) : (intLit n).int.bytes = Decimal.render n.natAbs := by
  unfold intLit
  split_ifs with h
  · rw [h]
    rfl
  · rfl

theorem intText_eq (n : ℤ) : intText n = (intLit n).bytes.map UInt8.toNat := by
  unfold intText Json.NumLit.bytes
  rw [bytes_int_intLit]
  show _ = (Json.negBytes (decide (n < 0)) ++ (Decimal.render n.natAbs ++ ([] ++ []))).map UInt8.toNat
  by_cases h : n < 0 <;> simp [Json.negBytes, h]

theorem toInt_intLit (n : ℤ) : (Numeral.ofLit (intLit n)).toInt = n := by
  unfold Numeral.toInt
  show (if decide (n < 0) = true then -(Decimal.value (intLit n).int.bytes : ℤ)
    else Decimal.value (intLit n).int.bytes) = n
  rw [bytes_int_intLit, Decimal.value_render]
  split_ifs with h <;> simp only [decide_eq_true_eq] at h <;> omega

theorem toDouble_eq {n : Numeral} {x : ℚ} (h : Binary64.round n.value = some x) (hzero : ¬ (x = 0 ∧ n.neg = true)) :
    n.toDouble = .finite x (Binary64.round_round h) := by
  unfold Numeral.toDouble
  split
  case h_1 hnone => exact nomatch hnone.symm.trans h
  case h_2 y hsome =>
    obtain rfl := Option.some.inj (hsome.symm.trans h)
    rw [if_neg hzero]

theorem toDouble_negZero {n : Numeral} (h : Binary64.round n.value = some 0) (hneg : n.neg = true) :
    n.toDouble = .negZero := by
  unfold Numeral.toDouble
  split
  case h_1 hnone => exact nomatch hnone.symm.trans h
  case h_2 y hsome =>
    obtain rfl := Option.some.inj (hsome.symm.trans h)
    rw [if_pos ⟨rfl, hneg⟩]

/-- The literal of a float that has one. -/
def doubleLit : F64 → Json.NumLit
  | .finite x _ => FloatRepr.repr x
  | _ => ⟨true, .zero, some FloatRepr.oneZero, none⟩

theorem doubleText_eq {x : F64} (h : x.IsFinite) : doubleText x = (doubleLit x).bytes.map UInt8.toNat := by
  cases x with
  | nan => exact h.elim
  | infinity neg => exact h.elim
  | negZero => rfl
  | finite x h => rfl

theorem toDouble_doubleLit {x : F64} (h : x.IsFinite) : (Numeral.ofLit (doubleLit x)).toDouble = x := by
  cases x with
  | nan => exact h.elim
  | infinity neg => exact h.elim
  | negZero =>
    have hvalue : (Numeral.ofLit (doubleLit .negZero)).value = 0 := by
      rw [Numeral.value_ofLit]
      show -(((Decimal.value [48, 48] : ℕ) : ℚ) * _) = 0
      rw [show Decimal.value [48, 48] = 0 from rfl, Nat.cast_zero, zero_mul, neg_zero]
    apply toDouble_negZero _ rfl
    rw [hvalue]
    exact Binary64.round_intCast (n := 0) (by norm_num)
  | finite x hx =>
    have hround : Binary64.round (Numeral.ofLit (FloatRepr.repr x)).value = some x := by
      rw [Numeral.value_ofLit]
      exact FloatRepr.round_repr hx
    refine toDouble_eq hround fun hzero => ?_
    exact (FloatRepr.neg_of_neg_repr hzero.2).ne hzero.1

theorem not_isInt_doubleLit {x : F64} : ¬ (doubleLit x).IsInt := by
  cases x with
  | finite x h => exact FloatRepr.not_isInt_repr x
  | _ => exact fun h => nomatch h.1

/-! ## Reading a container -/

theorem skipBlank_cons {c : ℕ} (h : isBlank c = false) (s : PyStr) : skipBlank (c :: s) = c :: s :=
  List.dropWhile_cons_of_neg (by rw [h]; exact Bool.false_ne_true)

theorem skipBlank_append {gap : PyStr} (h : ∀ c ∈ gap, isBlank c = true) (s : PyStr) :
    skipBlank (gap ++ s) = skipBlank s := List.dropWhile_append_of_pos h

section Items
variable {α : Type} {close : ℕ} {item : PyStr → Except LoadsError (α × PyStr)}

/-- A text that is read as an item, whatever stands behind it. -/
def Scans (close : ℕ) (item : PyStr → Except LoadsError (α × PyStr)) (text : PyStr) (a : α) : Prop :=
  (∃ c s, text = c :: s ∧ isBlank c = false ∧ c ≠ close) ∧
    ∀ behind, Ends behind → item (text ++ behind) = .ok (a, behind)

theorem ends_cons {c : ℕ} (h : c = 44 ∨ c = 93 ∨ c = 125) (s : PyStr) : Ends (c :: s) := by
  rintro d ⟨⟩
  exact h

theorem joined_head {text : PyStr} {a : α} (h : Scans close item text a) (sep : PyStr) (texts : List PyStr)
    (tail : PyStr) : ∃ c s, sep.intercalate (text :: texts) ++ tail = c :: s ∧ isBlank c = false ∧ c ≠ close := by
  obtain ⟨⟨c, s, rfl, hc⟩, -⟩ := h
  cases texts with
  | nil => exact ⟨c, s ++ tail, by rw [List.intercalate_singleton, List.cons_append], hc⟩
  | cons other texts => exact ⟨c, _, by rw [List.intercalate_cons_cons]; rfl, hc⟩

/-- Blanks behind the commas are passed over. -/
theorem scanItems_joined (hclose : close = 93 ∨ close = 125) {gap : PyStr} (hgap : ∀ c ∈ gap, isBlank c = true)
    {texts : List PyStr} {items : List α} (h : List.Forall₂ (Scans close item) texts items) (hne : texts ≠ [])
    {fuel : ℕ} (hfuel : texts.length ≤ fuel) (rest : PyStr) :
    scanItems close item fuel ((44 :: gap).intercalate texts ++ close :: rest) = .ok (items, rest) := by
  induction h generalizing fuel with
  | nil => exact absurd rfl hne
  | @cons text a texts items hfirst hothers ih =>
    obtain ⟨fuel, rfl⟩ : ∃ n, fuel = n + 1 := ⟨fuel - 1, by rw [List.length_cons] at hfuel; omega⟩
    have hblank : isBlank close = false := by rcases hclose with rfl | rfl <;> rfl
    rw [scanItems]
    cases hothers with
    | nil =>
      rw [List.intercalate_singleton, hfirst.2 _ (ends_cons (.inr hclose) rest)]
      dsimp only
      rw [skipBlank_cons hblank]
      exact if_pos rfl
    | @cons other b texts items hnext hmore =>
      have hcomma : (44 : ℕ) ≠ close := by rcases hclose with rfl | rfl <;> decide
      obtain ⟨c, s, hhead, hc, -⟩ := joined_head hnext (44 :: gap) texts (close :: rest)
      have hread := ih (List.cons_ne_nil _ _) (Nat.le_of_succ_le_succ hfuel)
      rw [List.intercalate_cons_cons, List.append_assoc, List.append_assoc, List.cons_append,
        hfirst.2 _ (ends_cons (.inl rfl) _)]
      dsimp only
      rw [skipBlank_cons rfl]
      dsimp only
      rw [if_neg hcomma, if_pos rfl, skipBlank_append hgap, hhead, skipBlank_cons hc, ← hhead, hread]
      rfl

/-- A comma less than texts. -/
theorem length_le_intercalate (gap : PyStr) (texts : List PyStr) :
    texts.length ≤ ((44 :: gap).intercalate texts).length + 1 := by
  induction texts with
  | nil => exact Nat.zero_le _
  | cons text texts ih =>
    cases texts with
    | nil => exact Nat.succ_le_succ (Nat.zero_le _)
    | cons other texts =>
      simp only [List.intercalate_cons_cons, List.length_append, List.length_cons] at ih ⊢
      omega

/-- **A container is read item by item.** -/
theorem scanContainer_joined (hclose : close = 93 ∨ close = 125) {gap : PyStr} (hgap : ∀ c ∈ gap, isBlank c = true)
    {texts : List PyStr} {items : List α} (h : List.Forall₂ (Scans close item) texts items) (rest : PyStr) :
    scanContainer close item ((44 :: gap).intercalate texts ++ close :: rest) = .ok (items, rest) := by
  have hlen : texts.length ≤ ((44 :: gap).intercalate texts ++ close :: rest).length := by
    have := length_le_intercalate gap texts
    rw [List.length_append, List.length_cons]
    omega
  unfold scanContainer
  cases h with
  | nil =>
    have hblank : isBlank close = false := by rcases hclose with rfl | rfl <;> rfl
    rw [List.intercalate_nil, List.nil_append, skipBlank_cons hblank]
    exact if_pos rfl
  | @cons text a texts items hfirst hothers =>
    obtain ⟨c, s, hhead, hc, hne⟩ := joined_head hfirst (44 :: gap) texts (close :: rest)
    have hread := scanItems_joined hclose hgap (.cons hfirst hothers) (List.cons_ne_nil _ _) hlen rest
    rw [hhead] at hread ⊢
    rw [skipBlank_cons hc]
    exact (if_neg hne).trans hread

theorem scans_of_forall₂ (close : ℕ) (item : PyStr → Except LoadsError (α × PyStr)) {β : Type} {R : β → PyStr → Prop}
    (f : β → α) {sources : List β} {texts : List PyStr} (h : List.Forall₂ R sources texts)
    (hscan : ∀ b ∈ sources, ∀ t, R b t → Scans close item t (f b)) :
    List.Forall₂ (Scans close item) texts (sources.map f) := by
  induction h with
  | nil => exact .nil
  | @cons b t sources texts hfirst hothers ih =>
    obtain ⟨hb, hmore⟩ := List.forall_mem_cons.mp hscan
    exact .cons (hb t hfirst) (ih hmore)

end Items

/-! ## Reading an object -/

theorem writeList_eq_ok {digits depth : ℕ} {items : List Object} {texts : List PyStr} :
    writeList digits depth items = .ok texts ↔ List.Forall₂ (fun v t => v.write digits depth = .ok t) items texts := by
  induction items generalizing texts with
  | nil => cases texts <;> simp [writeList]
  | cons v items ih =>
    rw [writeList, List.forall₂_cons_left_iff]
    cases hfirst : v.write digits depth with
    | error e =>
      refine iff_of_false nofun ?_
      rintro ⟨t, _, h, -⟩
      exact nomatch h
    | ok text =>
      cases hmore : writeList digits depth items with
      | error e =>
        refine iff_of_false nofun ?_
        rintro ⟨t, others, -, h, -⟩
        exact nomatch hmore.symm.trans (ih.mpr h)
      | ok others =>
        constructor
        · intro h
          obtain rfl := Except.ok.inj h
          exact ⟨text, others, rfl, ih.mp hmore, rfl⟩
        · rintro ⟨t, others', ht, hothers, rfl⟩
          obtain rfl := Except.ok.inj ht
          obtain rfl := Except.ok.inj (hmore.symm.trans (ih.mpr hothers))
          rfl

/-- The text of an entry. -/
def IsMember (digits depth : ℕ) (item : PyStr × Object) (text : PyStr) : Prop :=
  ∃ t, item.2.write digits depth = .ok t ∧ text = quoted item.1 ++ 58 :: t

theorem writeItems_eq_ok {digits depth : ℕ} {items : List (PyStr × Object)} {texts : List PyStr} :
    writeItems digits depth items = .ok texts ↔ List.Forall₂ (IsMember digits depth) items texts := by
  induction items generalizing texts with
  | nil => cases texts <;> simp [writeItems]
  | cons item items ih =>
    rw [writeItems, List.forall₂_cons_left_iff]
    cases hfirst : item.2.write digits depth with
    | error e =>
      refine iff_of_false nofun ?_
      rintro ⟨_, _, ⟨t, h, -⟩, -⟩
      exact nomatch hfirst.symm.trans h
    | ok text =>
      cases hmore : writeItems digits depth items with
      | error e =>
        refine iff_of_false nofun ?_
        rintro ⟨t, others, -, h, -⟩
        exact nomatch hmore.symm.trans (ih.mpr h)
      | ok others =>
        constructor
        · intro h
          obtain rfl := Except.ok.inj h
          exact ⟨_, others, ⟨text, hfirst, rfl⟩, ih.mp hmore, rfl⟩
        · rintro ⟨_, others', ⟨t, ht, rfl⟩, hothers, rfl⟩
          obtain rfl := Except.ok.inj (hfirst.symm.trans ht)
          obtain rfl := Except.ok.inj (hmore.symm.trans (ih.mpr hothers))
          rfl

theorem rereadList_eq (items : List Object) : rereadList items = items.map Object.reread := by
  induction items with
  | nil => rfl
  | cons v items ih => rw [rereadList, ih, List.map_cons]

theorem rereadItems_eq (items : List (PyStr × Object)) :
    rereadItems items = items.map fun item => (merged item.1, item.2.reread) := by
  induction items with
  | nil => rfl
  | cons item items ih => rw [rereadItems, ih, List.map_cons]

/-- What a text of an object starts with: no blank, no closing bracket, and nothing behind ASCII. -/
def Starts (t : PyStr) : Prop := ∃ c s, t = c :: s ∧ isBlank c = false ∧ c ≠ 93 ∧ c ≠ 125 ∧ c < 128

theorem starts_lit (n : Json.NumLit) : Starts (n.bytes.map UInt8.toNat) := by
  obtain ⟨d, s, hdigit, htext⟩ := bytes_head n []
  rw [List.append_nil] at htext
  have hd : 48 ≤ d ∧ d ≤ 57 := by simpa [isDigit] using hdigit
  rw [htext]
  split_ifs
  · exact ⟨45, _, rfl, rfl, by decide, by decide, by decide⟩
  · refine ⟨d, s, rfl, ?_, by omega, by omega, by omega⟩
    unfold isBlank
    simp only [List.mem_cons, List.not_mem_nil, or_false, decide_eq_false_iff_not]
    omega

theorem starts_doubleText (x : F64) : Starts (doubleText x) := by
  by_cases h : x.IsFinite
  · rw [doubleText_eq h]
    exact starts_lit _
  · cases x with
    | nan => exact ⟨78, _, rfl, rfl, by decide, by decide, by decide⟩
    | infinity neg =>
      cases neg
      · exact ⟨73, _, rfl, rfl, by decide, by decide, by decide⟩
      · exact ⟨45, _, rfl, rfl, by decide, by decide, by decide⟩
    | negZero => exact absurd trivial h
    | finite x hx => exact absurd trivial h

theorem starts_write {digits depth : ℕ} {v : Object} {t : PyStr} (h : v.write digits depth = .ok t) : Starts t := by
  cases v with
  | none =>
    obtain rfl := Except.ok.inj h
    exact ⟨110, _, rfl, rfl, by decide, by decide, by decide⟩
  | bool b =>
    obtain rfl := Except.ok.inj h
    cases b
    · exact ⟨102, _, rfl, rfl, by decide, by decide, by decide⟩
    · exact ⟨116, _, rfl, rfl, by decide, by decide, by decide⟩
  | int n =>
    rw [Object.write] at h
    split_ifs at h
    obtain rfl := Except.ok.inj h
    rw [intText_eq]
    exact starts_lit _
  | float x =>
    obtain rfl := Except.ok.inj h
    exact starts_doubleText x
  | str s =>
    obtain rfl := Except.ok.inj h
    exact ⟨34, _, rfl, rfl, by decide, by decide, by decide⟩
  | list items =>
    rw [Object.write] at h
    split_ifs at h
    obtain ⟨texts, -, rfl⟩ := map_eq_ok.mp h
    exact ⟨91, _, rfl, rfl, by decide, by decide, by decide⟩
  | dict items =>
    rw [Object.write] at h
    split_ifs at h
    obtain ⟨texts, -, rfl⟩ := map_eq_ok.mp h
    exact ⟨123, _, rfl, rfl, by decide, by decide, by decide⟩

theorem scanValue_lit (digits depth : ℕ) (n : Json.NumLit) {rest : PyStr} (hrest : Ends rest) :
    scanValue digits depth (n.bytes.map UInt8.toNat ++ rest) =
      ((Numeral.ofLit n).toObject digits).map fun v => (v, rest) := by
  have hliteral := scanLiteral_lit n rest
  have hnumber := scanNumber_lit n hrest
  obtain ⟨c, s, htext, hquote, hlist, hdict⟩ : ∃ c s, n.bytes.map UInt8.toNat ++ rest = c :: s ∧
      c ≠ 34 ∧ c ≠ 91 ∧ c ≠ 123 := by
    obtain ⟨d, s, hdigit, htext⟩ := bytes_head n rest
    have hd : 48 ≤ d ∧ d ≤ 57 := by simpa [isDigit] using hdigit
    rw [htext]
    split_ifs
    · exact ⟨45, _, rfl, by decide, by decide, by decide⟩
    · exact ⟨d, s, rfl, by omega, by omega, by omega⟩
  rw [htext] at hliteral hnumber ⊢
  unfold scanValue
  dsimp only
  rw [if_neg hquote, if_neg hlist, if_neg hdict, hliteral, hnumber]

theorem scanValue_name (digits depth : ℕ) {entry : String × Object} (h : entry ∈ literals) (rest : PyStr) :
    scanValue digits depth (pyStr entry.1 ++ rest) = .ok (entry.2, rest) := by
  unfold literals at h
  simp only [List.mem_cons, List.not_mem_nil, or_false] at h
  unfold scanValue
  rcases h with rfl | rfl | rfl | rfl | rfl | rfl <;> rfl

theorem scanValue_doubleText (digits depth : ℕ) (x : F64) {rest : PyStr} (hrest : Ends rest) :
    scanValue digits depth (doubleText x ++ rest) = .ok (.float x, rest) := by
  by_cases h : x.IsFinite
  · have hobject : (Numeral.ofLit (doubleLit x)).toObject digits = .ok (.float x) := by
      unfold Numeral.toObject
      rw [if_pos, toDouble_doubleLit h]
      by_contra hint
      apply not_isInt_doubleLit (x := x)
      obtain ⟨hfrac, hexp⟩ := not_or.mp hint
      exact ⟨Option.map_eq_none_iff.mp (not_not.mp hfrac), Option.map_eq_none_iff.mp (not_not.mp hexp)⟩
    rw [doubleText_eq h, scanValue_lit digits depth _ hrest, hobject]
    rfl
  · cases x with
    | nan => exact @scanValue_name digits depth ("NaN", .float .nan) (by simp [literals]) rest
    | infinity neg =>
      cases neg
      · exact @scanValue_name digits depth ("Infinity", .float (.infinity false)) (by simp [literals]) rest
      · exact @scanValue_name digits depth ("-Infinity", .float (.infinity true)) (by simp [literals]) rest
    | negZero => exact absurd trivial h
    | finite x hx => exact absurd trivial h

theorem scanValue_intText {digits : ℕ} (depth : ℕ) {n : ℤ}
    (h : ¬ (digits ≠ 0 ∧ digits < (Decimal.render n.natAbs).length)) {rest : PyStr} (hrest : Ends rest) :
    scanValue digits depth (intText n ++ rest) = .ok (.int n, rest) := by
  have hobject : (Numeral.ofLit (intLit n)).toObject digits = .ok (.int n) := by
    unfold Numeral.toObject
    rw [if_neg (fun hfloat => hfloat.elim (fun h => h rfl) fun h => h rfl), toInt_intLit]
    refine if_neg ?_
    show ¬ (digits ≠ 0 ∧ digits < (intLit n).int.bytes.length)
    rwa [bytes_int_intLit]
  rw [intText_eq, scanValue_lit digits depth _ hrest, hobject]
  rfl

/-- A key, a colon and a value are read as an entry; blanks behind the colon are passed over. -/
theorem scanMember_text {value : PyStr → Except LoadsError (Object × PyStr)} {s key gap t behind : PyStr} {v : Object}
    (hgap : ∀ c ∈ gap, isBlank c = true) (hkey : scanString s = some (key, 58 :: (gap ++ (t ++ behind))))
    (hstarts : Starts t) (h : value (t ++ behind) = .ok (v, behind)) :
    scanMember value (34 :: s) = .ok ((key, v), behind) := by
  obtain ⟨c, t, rfl, hblank, -⟩ := hstarts
  unfold scanMember
  dsimp only
  rw [if_pos rfl, hkey]
  dsimp only
  rw [skipBlank_cons rfl]
  dsimp only
  rw [if_pos rfl, skipBlank_append hgap, List.cons_append, skipBlank_cons hblank, ← List.cons_append, h]
  rfl

theorem scanMember_isMember {value : PyStr → Except LoadsError (Object × PyStr)} {key t behind : PyStr} {v : Object}
    (hkey : CodePoints key) (hstarts : Starts t) (h : value (t ++ behind) = .ok (v, behind)) :
    scanMember value (quoted key ++ 58 :: t ++ behind) = .ok ((merged key, v), behind) := by
  have hscan := scanString_quoted hkey (58 :: (t ++ behind))
  have htext : quoted key ++ 58 :: t ++ behind = 34 :: (key.flatMap escaped ++ 34 :: 58 :: (t ++ behind)) := by
    unfold quoted
    simp
  rw [htext]
  exact scanMember_text (List.forall_mem_nil _) hscan hstarts h

/-- **What is written is read back**, but for the pairs of surrogates in its strings. -/
theorem scanValue_write {digits : ℕ} {v : Object} (hsound : v.All (Sound digits)) {depth limit : ℕ} {t : PyStr}
    (h : v.write digits depth = .ok t) (hdepth : v.depth ≤ limit) {rest : PyStr} (hrest : Ends rest) :
    scanValue digits limit (t ++ rest) = .ok (v.reread, rest) := by
  induction v using Object.ind generalizing depth limit t rest with
  | list items ih =>
    rw [Object.write] at h
    split_ifs at h
    obtain ⟨texts, htexts, rfl⟩ := map_eq_ok.mp h
    obtain ⟨limit, rfl⟩ : ∃ n, limit = n + 1 := ⟨limit - 1, by rw [Object.depth] at hdepth; omega⟩
    have hitems := depthList_le.mp (Nat.le_of_succ_le_succ hdepth)
    have hscans := scans_of_forall₂ 93 (scanValue digits limit) Object.reread
      (writeList_eq_ok.mp htexts) fun v hv t ht => by
        obtain ⟨c, s, hstart, hblank, hne, -⟩ := starts_write ht
        refine ⟨⟨c, s, hstart, hblank, hne⟩, fun behind hbehind => ?_⟩
        exact ih v hv ((Object.all_list.mp hsound).2 v hv) ht (hitems v hv) hbehind
    have hread := scanContainer_joined (.inl rfl) (List.forall_mem_nil _) hscans rest
    show (scanContainer 93 (scanValue digits limit) ([44].intercalate texts ++ [93] ++ rest)).map _ = _
    rw [List.append_assoc, List.singleton_append, hread, Object.reread, rereadList_eq]
    rfl
  | dict items ih =>
    rw [Object.write] at h
    split_ifs at h
    obtain ⟨texts, htexts, rfl⟩ := map_eq_ok.mp h
    obtain ⟨limit, rfl⟩ : ∃ n, limit = n + 1 := ⟨limit - 1, by rw [Object.depth] at hdepth; omega⟩
    have hitems := depthItems_le.mp (Nat.le_of_succ_le_succ hdepth)
    obtain ⟨⟨-, hkeys⟩, hvalues⟩ := Object.all_dict.mp hsound
    have hscans := scans_of_forall₂ 125 (scanMember (scanValue digits limit))
      (fun item : PyStr × Object => (merged item.1, item.2.reread)) (writeItems_eq_ok.mp htexts) fun v hv t ht => by
        obtain ⟨text, hwrite, rfl⟩ := ht
        refine ⟨⟨34, _, rfl, rfl, by decide⟩, fun behind hbehind => ?_⟩
        apply scanMember_isMember (hkeys v hv) (starts_write hwrite)
        exact ih v hv (hvalues v hv) hwrite (hitems v hv) hbehind
    have hread := scanContainer_joined (.inr rfl) (List.forall_mem_nil _) hscans rest
    show (scanContainer 125 (scanMember (scanValue digits limit)) ([44].intercalate texts ++ [125] ++ rest)).map _ = _
    rw [List.append_assoc, List.singleton_append, hread, Object.reread, rereadItems_eq]
    rfl
  | scalar v hscalar =>
    cases v with
    | none =>
      obtain rfl := Except.ok.inj h
      exact @scanValue_name digits limit ("null", .none) (by simp [literals]) rest
    | bool b =>
      obtain rfl := Except.ok.inj h
      cases b
      · exact @scanValue_name digits limit ("false", .bool false) (by simp [literals]) rest
      · exact @scanValue_name digits limit ("true", .bool true) (by simp [literals]) rest
    | int n =>
      rw [Object.write] at h
      split_ifs at h with hdigits
      obtain rfl := Except.ok.inj h
      exact scanValue_intText limit hdigits hrest
    | float x =>
      obtain rfl := Except.ok.inj h
      exact scanValue_doubleText digits limit x hrest
    | str s =>
      obtain rfl := Except.ok.inj h
      have hscan := scanString_quoted ((Object.all_scalar (v := .str s) trivial).mp hsound) rest
      have htext : quoted s ++ rest = 34 :: (s.flatMap escaped ++ 34 :: rest) := by
        unfold quoted
        simp
      rw [htext]
      unfold scanValue scanString
      dsimp only
      rw [if_pos rfl, hscan]
      rfl
    | list items => exact hscalar.elim
    | dict items => exact hscalar.elim

/-! ## When it can be written -/

theorem exists_forall₂ {α β : Type} {R : α → β → Prop} {as : List α} :
    (∃ bs, List.Forall₂ R as bs) ↔ ∀ a ∈ as, ∃ b, R a b := by
  induction as with
  | nil => exact iff_of_true ⟨[], .nil⟩ (List.forall_mem_nil _)
  | cons a as ih =>
    rw [List.forall_mem_cons, ← ih]
    constructor
    · rintro ⟨_, h⟩
      obtain ⟨b, bs, hb, hbs, -⟩ := List.forall₂_cons_left_iff.mp h
      exact ⟨⟨b, hb⟩, bs, hbs⟩
    · rintro ⟨⟨b, hb⟩, bs, hbs⟩
      exact ⟨b :: bs, .cons hb hbs⟩

/-- Only the nesting of what has been read can be too much. -/
theorem exists_write_iff {digits : ℕ} {v : Object} (hsound : v.All (Sound digits)) {depth : ℕ} :
    (∃ t, v.write digits depth = .ok t) ↔ v.depth ≤ depth := by
  induction v using Object.ind generalizing depth with
  | list items ih =>
    have hitems := (Object.all_list.mp hsound).2
    rw [Object.write, Object.depth]
    by_cases hzero : depth = 0
    · rw [if_pos hzero]
      exact iff_of_false (fun ⟨_, h⟩ => nomatch h) (by omega)
    · have hlist : (∃ texts, writeList digits (depth - 1) items = .ok texts) ↔ depthList items ≤ depth - 1 := by
        rw [depthList_le]
        simp only [writeList_eq_ok, exists_forall₂]
        exact forall₂_congr fun v hv => ih v hv (hitems v hv)
      rw [if_neg hzero, show depthList items + 1 ≤ depth ↔ depthList items ≤ depth - 1 by omega, ← hlist]
      simp only [map_eq_ok]
      exact ⟨fun ⟨_, texts, h, _⟩ => ⟨texts, h⟩, fun ⟨texts, h⟩ => ⟨_, texts, h, rfl⟩⟩
  | dict items ih =>
    have hitems := (Object.all_dict.mp hsound).2
    rw [Object.write, Object.depth]
    by_cases hzero : depth = 0
    · rw [if_pos hzero]
      exact iff_of_false (fun ⟨_, h⟩ => nomatch h) (by omega)
    · have hmember : ∀ item : PyStr × Object, (∃ text, IsMember digits (depth - 1) item text) ↔
          ∃ t, item.2.write digits (depth - 1) = .ok t := fun item =>
        ⟨fun ⟨_, t, h, _⟩ => ⟨t, h⟩, fun ⟨t, h⟩ => ⟨_, t, h, rfl⟩⟩
      have hlist : (∃ texts, writeItems digits (depth - 1) items = .ok texts) ↔ depthItems items ≤ depth - 1 := by
        rw [depthItems_le]
        simp only [writeItems_eq_ok, exists_forall₂, hmember]
        exact forall₂_congr fun item hi => ih item hi (hitems item hi)
      rw [if_neg hzero, show depthItems items + 1 ≤ depth ↔ depthItems items ≤ depth - 1 by omega, ← hlist]
      simp only [map_eq_ok]
      exact ⟨fun ⟨_, texts, h, _⟩ => ⟨texts, h⟩, fun ⟨texts, h⟩ => ⟨_, texts, h, rfl⟩⟩
  | scalar v hscalar =>
    have hdepth : v.depth = 0 := by cases v <;> first | rfl | exact hscalar.elim
    refine iff_of_true ?_ (hdepth.trans_le (Nat.zero_le _))
    cases v with
    | int n =>
      have hdigits := (Object.all_scalar (v := .int n) trivial).mp hsound
      rw [Object.write, if_neg fun h => absurd (hdigits h.1) (not_le.mpr h.2)]
      exact ⟨_, rfl⟩
    | list items => exact hscalar.elim
    | dict items => exact hscalar.elim
    | _ => exact ⟨_, rfl⟩

/-! ## The order of the keys -/

theorem sortedList_eq (items : List Object) : sortedList items = items.map Object.sorted := by
  induction items with
  | nil => rfl
  | cons v items ih => rw [sortedList, ih, List.map_cons]

theorem sortedItems_perm (items : List (PyStr × Object)) :
    (sortedItems items).Perm (items.map fun item => (item.1, item.2.sorted)) := by
  induction items with
  | nil => exact .nil
  | cons item items ih => exact (List.perm_orderedInsert _ _ _).trans (ih.cons _)

theorem depth_sorted (v : Object) : v.sorted.depth = v.depth := by
  induction v using Object.ind with
  | list items ih =>
    rw [Object.sorted, Object.depth, Object.depth, sortedList_eq]
    refine congrArg (· + 1) (eq_of_forall_ge_iff fun n => ?_)
    rw [depthList_le, depthList_le, List.forall_mem_map]
    exact forall₂_congr fun v hv => by rw [ih v hv]
  | dict items ih =>
    rw [Object.sorted, Object.depth, Object.depth]
    refine congrArg (· + 1) (eq_of_forall_ge_iff fun n => ?_)
    rw [depthItems_le, depthItems_le]
    simp only [(sortedItems_perm items).mem_iff]
    rw [List.forall_mem_map]
    exact forall₂_congr fun item hi => by rw [ih item hi]
  | scalar v hscalar => cases v <;> first | rfl | exact hscalar.elim

theorem sound_sorted {digits : ℕ} {v : Object} (h : v.All (Sound digits)) : v.sorted.All (Sound digits) := by
  induction v using Object.ind with
  | list items ih =>
    rw [Object.sorted, Object.all_list, sortedList_eq, List.forall_mem_map]
    exact ⟨trivial, fun v hv => ih v hv ((Object.all_list.mp h).2 v hv)⟩
  | dict items ih =>
    obtain ⟨⟨hnodup, hkeys⟩, hvalues⟩ := Object.all_dict.mp h
    have hperm := sortedItems_perm items
    rw [Object.sorted, Object.all_dict]
    refine ⟨⟨?_, fun item hi => ?_⟩, fun item hi => ?_⟩
    · rw [(hperm.map Prod.fst).nodup_iff, List.map_map]
      exact hnodup
    · obtain ⟨source, hs, rfl⟩ := List.mem_map.mp (hperm.mem_iff.mp hi)
      exact hkeys source hs
    · obtain ⟨source, hs, rfl⟩ := List.mem_map.mp (hperm.mem_iff.mp hi)
      exact ih source hs (hvalues source hs)
  | scalar v hscalar => cases v <;> first | exact h | exact hscalar.elim

theorem exists_dumps_iff {limits : Limits} {v : Object} (h : v.All (Sound limits.digits)) :
    (∃ t, dumps limits v = .ok t) ↔ v.depth ≤ limits.dumps := by
  unfold dumps
  rw [exists_write_iff (sound_sorted h), depth_sorted]

/-- **`json.loads` of what `json.dumps` has written.** -/
theorem loads_dumps {limits : Limits} {v : Object} (hsound : v.All (Sound limits.digits))
    (hdepth : v.depth ≤ limits.loads) {t : PyStr} (h : dumps limits v = .ok t) : loads limits t = .ok v.again := by
  have hends : Ends [] := nofun
  have hread := scanValue_write (sound_sorted hsound) h ((depth_sorted v).trans_le hdepth) hends
  obtain ⟨c, s, rfl, hblank, -, -, hascii⟩ := starts_write h
  have hmark : (c :: s).head? ≠ some 0xFEFF := fun heq => absurd (Option.some.inj heq) (by omega)
  rw [List.append_nil] at hread
  unfold loads
  rw [if_neg hmark, skipBlank_cons hblank, hread]
  rfl

/-! ## What is read is what was written -/

/-- No high surrogate has a low one behind it. -/
def NoPair (s : PyStr) : Prop := s.IsChain fun c d => ¬ (Json.IsHighSurrogate c ∧ Json.IsLowSurrogate d)

/-- No string and no key has such a pair. -/
def Unpaired : Object → Prop
  | .str s => NoPair s
  | .dict items => ∀ item ∈ items, NoPair item.1
  | _ => True

theorem length_merged_le (s : PyStr) : (merged s).length ≤ s.length := by
  induction s using merged.induct with
  | case1 => exact le_rfl
  | case2 c => exact le_rfl
  | case3 c d s h ih =>
    rw [merged, if_pos h, List.length_cons, List.length_cons, List.length_cons]
    omega
  | case4 c d s h ih =>
    rw [merged, if_neg h, List.length_cons, List.length_cons]
    omega

theorem merged_eq_iff {s : PyStr} : merged s = s ↔ NoPair s := by
  unfold NoPair
  induction s using merged.induct with
  | case1 => exact iff_of_true rfl .nil
  | case2 c => exact iff_of_true rfl (.singleton c)
  | case3 c d s h ih =>
    rw [merged, if_pos h, List.isChain_cons_cons]
    refine iff_of_false (fun heq => ?_) fun hchain => hchain.1 h
    have hlen := congrArg List.length heq
    rw [List.length_cons, List.length_cons, List.length_cons] at hlen
    have := length_merged_le s
    omega
  | case4 c d s h ih => rw [merged, if_neg h, List.isChain_cons_cons, List.cons_inj_right, ih, and_iff_right h]

/-- What comes first is a low surrogate only if it was one. -/
theorem head?_merged {s : PyStr} {d : ℕ} (h : d ∈ (merged s).head?) (hlow : Json.IsLowSurrogate d) : d ∈ s.head? := by
  cases s with
  | nil => exact h
  | cons c s =>
    cases s with
    | nil => exact h
    | cons e s =>
      rw [merged] at h
      split_ifs at h with hpair
      · obtain rfl := Option.some.inj h
        unfold Json.IsHighSurrogate at hpair
        unfold Json.IsLowSurrogate joined at hlow
        omega
      · exact h

theorem noPair_merged (s : PyStr) : NoPair (merged s) := by
  unfold NoPair
  induction s using merged.induct with
  | case1 => exact .nil
  | case2 c => exact .singleton c
  | case3 c d s h ih =>
    rw [merged, if_pos h]
    refine List.isChain_cons.mpr ⟨fun e _ hpair => ?_, ih⟩
    obtain ⟨⟨-, hlt⟩, -⟩ := hpair
    unfold joined at hlt
    omega
  | case4 c d s h ih =>
    rw [merged, if_neg h]
    refine List.isChain_cons.mpr ⟨fun e he hpair => ?_, ih⟩
    obtain rfl := Option.some.inj (head?_merged he hpair.2)
    exact h hpair

theorem again_list (items : List Object) : (Object.list items).again = .list (items.map Object.again) := by
  unfold Object.again
  rw [Object.sorted, Object.reread, rereadList_eq, sortedList_eq, List.map_map]
  rfl

theorem again_dict (items : List (PyStr × Object)) : ∃ pairs : List (PyStr × Object),
    pairs.Perm (items.map fun item => (merged item.1, item.2.again)) ∧
      (Object.dict items).again = .dict (Dict.ofPairs pairs).entries := by
  refine ⟨_, ?_, rfl⟩
  rw [rereadItems_eq]
  have hperm := (sortedItems_perm items).map fun item => (merged item.1, item.2.reread)
  rwa [List.map_map] at hperm

theorem scalarEq_self {v : Object} (h : v.Hashable) : v.scalarEq v = true := by
  cases v with
  | list items => exact h.elim
  | dict items => exact h.elim
  | none => rfl
  | str s => exact decide_eq_true rfl
  | bool b => simp [Object.scalarEq, Object.number?]
  | int n => simp [Object.scalarEq, Object.number?]
  | float x =>
    cases x with
    | nan => rfl
    | infinity neg => cases neg <;> simp [Object.scalarEq, Object.number?, F64.place]
    | negZero => simp [Object.scalarEq, Object.number?, F64.place]
    | finite x hx => simp [Object.scalarEq, Object.number?, F64.place]

/-- Keys without pairs are read as they are. -/
theorem again_dict_of_noPair {items : List (PyStr × Object)} (hnodup : (items.map Prod.fst).Nodup)
    (hkeys : ∀ item ∈ items, NoPair item.1) : ∃ pairs : List (PyStr × Object),
      pairs.Perm (items.map fun item => (item.1, item.2.again)) ∧ (pairs.map Prod.fst).Nodup ∧
        (Object.dict items).again = .dict pairs := by
  obtain ⟨pairs, hperm, hagain⟩ := again_dict items
  have hplain : (items.map fun item => (merged item.1, item.2.again)) = items.map fun item => (item.1, item.2.again) :=
    List.map_congr_left fun item hi => by rw [merged_eq_iff.mpr (hkeys item hi)]
  rw [hplain] at hperm
  have hpairs : (pairs.map Prod.fst).Nodup := by
    rw [(hperm.map Prod.fst).nodup_iff, List.map_map]
    exact hnodup
  exact ⟨pairs, hperm, hpairs, by rw [hagain, Dict.entries_ofPairs hpairs]⟩

/-- An equal dict has keys without pairs: the others are not among those that are read. -/
theorem noPair_of_eq_again {items : List (PyStr × Object)} (h : (Object.dict items).eq (Object.dict items).again = true)
    {item : PyStr × Object} (hi : item ∈ items) : NoPair item.1 := by
  obtain ⟨pairs, hperm, hagain⟩ := again_dict items
  rw [hagain] at h
  replace h : (items.length = (Dict.ofPairs pairs).entries.length &&
    eqItems items (Dict.ofPairs pairs).entries) = true := h
  obtain ⟨w, hlookup, -⟩ := eqItems_iff.mp (Bool.and_eq_true_iff.mp h).2 item hi
  have hmem := hperm.mem_iff.mp (Dict.mem_of_mem_ofPairs (Dict.mem_of_lookup hlookup))
  obtain ⟨source, -, heq⟩ := List.mem_map.mp hmem
  rw [← (Prod.mk.inj heq).1]
  exact noPair_merged source.1

/-- **An object is equal to what is read of it** exactly when no string and no key in it has a pair of surrogates. -/
theorem eq_again {digits : ℕ} {v : Object} (hsound : v.All (Sound digits)) :
    v.eq v.again = true ↔ v.All Unpaired := by
  induction v using Object.ind with
  | list items ih =>
    rw [again_list, Object.all_list, and_iff_right (show Unpaired (.list items) from trivial)]
    show eqList items (items.map Object.again) = true ↔ _
    rw [eqList_iff, List.forall₂_map_right_iff, List.forall₂_same]
    exact forall₂_congr fun v hv => ih v hv ((Object.all_list.mp hsound).2 v hv)
  | dict items ih =>
    obtain ⟨⟨hnodup, -⟩, hvalues⟩ := Object.all_dict.mp hsound
    rw [Object.all_dict]
    -- with keys that are read as they are, each value is compared with what is read of it
    have hmain : (∀ item ∈ items, NoPair item.1) → ((Object.dict items).eq (Object.dict items).again = true ↔
        ∀ item ∈ items, item.2.All Unpaired) := by
      intro hkeys
      obtain ⟨pairs, hperm, hpairs, hagain⟩ := again_dict_of_noPair hnodup hkeys
      have hlen : items.length = pairs.length := by rw [hperm.length_eq, List.length_map]
      rw [hagain]
      show (items.length = pairs.length && eqItems items pairs) = true ↔ _
      rw [decide_eq_true hlen, Bool.true_and, eqItems_iff]
      refine forall₂_congr fun item hi => ?_
      have hlookup : pairs.lookup item.1 = some item.2.again := by
        rw [Dict.lookup_eq_some_iff hpairs, hperm.mem_iff]
        exact List.mem_map_of_mem hi
      rw [← ih item hi (hvalues item hi), hlookup]
      simp
    constructor
    · intro h
      have hkeys := fun item hi => @noPair_of_eq_again items h item hi
      exact ⟨hkeys, (hmain hkeys).mp h⟩
    · rintro ⟨hkeys, h⟩
      exact (hmain hkeys).mpr h
  | scalar v hscalar =>
    rw [Object.all_scalar hscalar]
    cases v with
    | str s =>
      show decide (s = merged s) = true ↔ NoPair s
      rw [decide_eq_true_eq, eq_comm, merged_eq_iff]
    | list items => exact hscalar.elim
    | dict items => exact hscalar.elim
    | _ => exact iff_of_true (scalarEq_self hscalar) trivial

theorem lookup_map_snd {f : Object → Object} (items : List (PyStr × Object)) (key : PyStr) :
    (items.map fun item => (item.1, f item.2)).lookup key = (items.lookup key).map f := by
  induction items with
  | nil => rfl
  | cons item items ih =>
    rw [List.map_cons, List.lookup_cons, List.lookup_cons, ih]
    cases key == item.1 <;> rfl

/-- What is found in the dict that is read. -/
theorem exists_again_dict {items : List (PyStr × Object)} (hnodup : (items.map Prod.fst).Nodup)
    (hkeys : ∀ item ∈ items, NoPair item.1) : ∃ pairs : List (PyStr × Object), (Object.dict items).again = .dict pairs ∧
      (∀ key, pairs.lookup key = (items.lookup key).map Object.again) ∧
        ∀ key, key ∈ pairs.map Prod.fst ↔ key ∈ items.map Prod.fst := by
  obtain ⟨pairs, hperm, hpairs, hagain⟩ := again_dict_of_noPair hnodup hkeys
  refine ⟨pairs, hagain, fun key => ?_, fun key => ?_⟩
  · rw [Dict.lookup_perm hperm hpairs, lookup_map_snd]
  · rw [(hperm.map Prod.fst).mem_iff, List.map_map]
    rfl

theorem merged_eq_nil_iff {s : PyStr} : merged s = [] ↔ s = [] := by
  cases s with
  | nil => exact Iff.rfl
  | cons c s =>
    cases s with
    | nil => exact Iff.rfl
    | cons d s =>
      rw [merged]
      split_ifs <;> exact iff_of_false nofun nofun

theorem truthy_again (v : Object) : v.again.truthy = v.truthy := by
  cases v with
  | str s =>
    show decide (merged s ≠ []) = decide (s ≠ [])
    rw [decide_eq_decide]
    exact not_congr merged_eq_nil_iff
  | list items =>
    rw [again_list]
    cases items <;> rfl
  | dict items =>
    obtain ⟨pairs, hperm, hagain⟩ := again_dict items
    rw [hagain]
    have hempty : (Dict.ofPairs pairs).entries = [] ↔ items = [] := by
      rw [← List.map_eq_nil_iff (f := Prod.fst), List.eq_nil_iff_forall_not_mem]
      simp only [Dict.mem_keys_ofPairs]
      rw [← List.eq_nil_iff_forall_not_mem, List.map_eq_nil_iff, ← List.length_eq_zero_iff, hperm.length_eq,
        List.length_map, List.length_eq_zero_iff]
    show (!(Dict.ofPairs pairs).entries.isEmpty) = !items.isEmpty
    rw [Bool.eq_iff_iff, Bool.not_eq_true', Bool.not_eq_true', ← not_iff_not, Bool.not_eq_false, Bool.not_eq_false,
      List.isEmpty_iff, List.isEmpty_iff, hempty]
  | _ => rfl

/-- Characters are read as they are. -/
theorem again_str {s : PyStr} (h : ∀ c ∈ s, c.isValidChar) : (Object.str s).again = .str s := by
  refine congrArg Object.str (merged_eq_iff.mpr ?_)
  apply List.Pairwise.isChain
  refine List.pairwise_of_forall_mem_list fun c _ d hd hpair => ?_
  have hlow := hpair.2
  have hvalid := h d hd
  unfold Json.IsLowSurrogate at hlow
  unfold Nat.isValidChar at hvalid
  omega

end Py
