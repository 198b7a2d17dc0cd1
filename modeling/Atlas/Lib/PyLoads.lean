import Atlas.Lib.PyObject

/-!
# `json.loads`

* `Limits` : how deep the interpreter goes, and the digits it takes for an integer; `LoadsError` : what may be raised;
* `scanString`, `scanNumber`, `scanLiteral` : strings, numbers and names;
* `scanItems`, `scanContainer`, `scanMember`, `scanValue` : the first value of a text and the text behind it;
* `loads` : the value of a whole text;
* `Reads`, `scanItems_fuel` : a value takes a part of the text, so that the bound on the items is none;
* `Sound`, `loads_sound` : what is read.
-/

namespace Py
open PyJson (PyStr pyStr)

/-- What the interpreter's stack and settings allow: containers that the reader of JSON, `str`, `asdict` and the writer
of JSON go into, and the digits of an integer, zero being no limit. -/
structure Limits where
  loads : ℕ
  str : ℕ
  asdict : ℕ
  dumps : ℕ
  digits : ℕ

/-- `json.JSONDecodeError`, `RecursionError` and the `ValueError` for an integer with too many digits. -/
inductive LoadsError
  | decode
  | recursion
  | digits
  deriving DecidableEq

def isBlank (c : ℕ) : Bool := c ∈ [32, 9, 10, 13]

def skipBlank (s : PyStr) : PyStr := s.dropWhile isBlank

/-! ## Strings -/

def hexDigit? (c : ℕ) : Option ℕ :=
  if 48 ≤ c ∧ c ≤ 57 then some (c - 48)
  else if 65 ≤ c ∧ c ≤ 70 then some (c - 55)
  else if 97 ≤ c ∧ c ≤ 102 then some (c - 87)
  else none

/-- The code unit of four digits. -/
def unit? (a b c d : ℕ) : Option ℕ :=
  match hexDigit? a, hexDigit? b, hexDigit? c, hexDigit? d with
  | some a, some b, some c, some d => some (((a * 16 + b) * 16 + c) * 16 + d)
  | _, _, _, _ => none

/-- The characters behind a backslash, `u` apart, with what they stand for. -/
def escapes : List (ℕ × ℕ) := [(34, 34), (92, 92), (47, 47), (98, 8), (102, 12), (110, 10), (114, 13), (116, 9)]

def joined (high low : ℕ) : ℕ := 0x10000 + (high - 0xD800) * 0x400 + (low - 0xDC00)

/-- The escaped low surrogate at the front of a text. -/
def lowEscape? : PyStr → Option ℕ
  | 92 :: 117 :: a :: b :: c :: d :: _ => (unit? a b c d).filter fun u => Json.IsLowSurrogate u
  | _ => none

/-- A string behind its opening quote, absent for a `JSONDecodeError`. The number is of characters that the code point
in front has taken. -/
def scanStringFrom : ℕ → PyStr → Option (PyStr × PyStr)
  | _, [] => none
  | skip + 1, _ :: rest => scanStringFrom skip rest
  | 0, c :: rest =>
    if c = 34 then some ([], rest)
    else if c = 92 then
      match rest with
      | 117 :: a :: b :: c :: d :: behind =>
        (unit? a b c d).bind fun u =>
          match if Json.IsHighSurrogate u then lowEscape? behind else none with
          | some low => (scanStringFrom 11 rest).map fun p => (joined u low :: p.1, p.2)
          | none => (scanStringFrom 5 rest).map fun p => (u :: p.1, p.2)
      | e :: _ => (escapes.lookup e).bind fun c => (scanStringFrom 1 rest).map fun p => (c :: p.1, p.2)
      | [] => none
    else if c < 32 then none
    else (scanStringFrom 0 rest).map fun p => (c :: p.1, p.2)

def scanString (s : PyStr) : Option (PyStr × PyStr) := scanStringFrom 0 s

/-! ## Numbers -/

def isDigit (c : ℕ) : Bool := 48 ≤ c ∧ c ≤ 57

def takeDigits (s : PyStr) : List UInt8 := (s.takeWhile isDigit).map UInt8.ofNat

def dropDigits (s : PyStr) : PyStr := s.dropWhile isDigit

def scanInt : PyStr → Option (List UInt8 × PyStr)
  | [] => none
  | c :: rest =>
    if c = 48 then some ([48], rest)
    else if isDigit c then some (takeDigits (c :: rest), dropDigits (c :: rest))
    else none

/-- A point without a digit behind it is left where it is. -/
def scanFrac : PyStr → Option (List UInt8) × PyStr
  | [] => (none, [])
  | c :: rest => if c = 46 ∧ takeDigits rest ≠ [] then (some (takeDigits rest), dropDigits rest) else (none, c :: rest)

def scanSign : PyStr → Option Bool × PyStr
  | [] => (none, [])
  | c :: rest => if c = 45 then (some true, rest) else if c = 43 then (some false, rest) else (none, c :: rest)

/-- An `e` without digits behind it is left where it is. -/
def scanExp : PyStr → Option (Option Bool × List UInt8) × PyStr
  | [] => (none, [])
  | c :: rest =>
    if (c = 101 ∨ c = 69) ∧ takeDigits (scanSign rest).2 ≠ [] then
      (some ((scanSign rest).1, takeDigits (scanSign rest).2), dropDigits (scanSign rest).2)
    else (none, c :: rest)

def scanNeg : PyStr → Bool × PyStr
  | [] => (false, [])
  | c :: rest => if c = 45 then (true, rest) else (false, c :: rest)

def scanNumber (s : PyStr) : Option (Numeral × PyStr) :=
  (scanInt (scanNeg s).2).map fun int =>
    let frac := scanFrac int.2
    let exp := scanExp frac.2
    (⟨(scanNeg s).1, int.1, frac.1, exp.1⟩, exp.2)

/-- A float when it has a fraction or an exponent. -/
def Numeral.toObject (digits : ℕ) (n : Numeral) : Except LoadsError Object :=
  if n.frac ≠ none ∨ n.exp ≠ none then .ok (.float n.toDouble)
  else if digits ≠ 0 ∧ digits < n.int.length then .error .digits
  else .ok (.int n.toInt)

/-! ## Values -/

def literals : List (String × Object) :=
  [("null", .none), ("true", .bool true), ("false", .bool false), ("NaN", .float .nan),
    ("Infinity", .float (.infinity false)), ("-Infinity", .float (.infinity true))]

def scanLiteral (s : PyStr) : Option (Object × PyStr) :=
  (literals.find? fun entry => pyStr entry.1 <+: s).map fun entry => (entry.2, s.drop (pyStr entry.1).length)

section Items
variable {α : Type} (close : ℕ) (item : PyStr → Except LoadsError (α × PyStr))

/-- One item or more, a comma between each two, and the closing bracket; at most `fuel` items. -/
def scanItems : ℕ → PyStr → Except LoadsError (List α × PyStr)
  | 0, _ => .error .decode
  | fuel + 1, s =>
    match item s with
    | .error e => .error e
    | .ok (a, behind) =>
      match skipBlank behind with
      | [] => .error .decode
      | c :: rest =>
        if c = close then .ok ([a], rest)
        else if c = 44 then (scanItems fuel (skipBlank rest)).map fun p => (a :: p.1, p.2)
        else .error .decode

/-- What stands behind an opening bracket. -/
def scanContainer (s : PyStr) : Except LoadsError (List α × PyStr) :=
  match skipBlank s with
  | [] => .error .decode
  | c :: rest => if c = close then .ok ([], rest) else scanItems close item (c :: rest).length (c :: rest)

end Items

def scanMember (value : PyStr → Except LoadsError (Object × PyStr)) (s : PyStr) :
    Except LoadsError ((PyStr × Object) × PyStr) :=
  match s with
  | [] => .error .decode
  | c :: rest =>
    if c = 34 then
      match scanString rest with
      | none => .error .decode
      | some (key, behind) =>
        match skipBlank behind with
        | [] => .error .decode
        | c :: rest =>
          if c = 58 then (value (skipBlank rest)).map fun p => ((key, p.1), p.2) else .error .decode
    else .error .decode

/-- The first value of a text; `depth` containers may be nested. -/
def scanValue (digits : ℕ) : ℕ → PyStr → Except LoadsError (Object × PyStr)
  | depth, s =>
    match s with
    | [] => .error .decode
    | c :: rest =>
      if c = 34 then (scanString rest).elim (.error .decode) fun p => .ok (.str p.1, p.2)
      else if c = 91 then
        match depth with
        | 0 => .error .recursion
        | depth + 1 => (scanContainer 93 (scanValue digits depth) rest).map fun p => (.list p.1, p.2)
      else if c = 123 then
        match depth with
        | 0 => .error .recursion
        | depth + 1 =>
          (scanContainer 125 (scanMember (scanValue digits depth)) rest).map fun p =>
            (.dict (Dict.ofPairs p.1).entries, p.2)
      else
        match scanLiteral (c :: rest) with
        | some p => .ok p
        | none =>
          match scanNumber (c :: rest) with
          | none => .error .decode
          | some (n, behind) => (n.toObject digits).map fun v => (v, behind)

/-- `json.loads(raw)` -/
def loads (limits : Limits) (raw : PyStr) : Except LoadsError Object :=
  if raw.head? = some 0xFEFF then .error .decode
  else
    match scanValue limits.digits limits.loads (skipBlank raw) with
    | .error e => .error e
    | .ok (v, behind) => if skipBlank behind = [] then .ok v else .error .decode

/-! ## What is read -/

theorem bind_eq_ok {ε α β : Type} {x : Except ε α} {f : α → Except ε β} {b : β} :
    x >>= f = .ok b ↔ ∃ a, x = .ok a ∧ f a = .ok b := by
  cases x with
  | error e => exact iff_of_false nofun fun ⟨_, h, _⟩ => nomatch h
  | ok a => exact ⟨fun h => ⟨a, rfl, h⟩, fun ⟨_, ha, h⟩ => Except.ok.inj ha ▸ h⟩

theorem map_eq_ok {ε α β : Type} {f : α → β} {x : Except ε α} {b : β} :
    x.map f = .ok b ↔ ∃ a, x = .ok a ∧ f a = b := by
  cases x with
  | error e => exact iff_of_false nofun fun ⟨_, h, _⟩ => nomatch h
  | ok a => exact ⟨fun h => ⟨a, rfl, Except.ok.inj h⟩, fun ⟨_, h, hb⟩ => by rw [Except.ok.inj h, ← hb]; rfl⟩

/-- All of them are code points. -/
def CodePoints (s : PyStr) : Prop := ∀ c ∈ s, c < 0x110000

theorem CodePoints.suffix {s t : PyStr} (h : CodePoints s) (hsuffix : t <:+ s) : CodePoints t :=
  fun c hc => h c (hsuffix.subset hc)

/-- The text behind a value is a part of the text, and a shorter one. -/
def Behind (behind s : PyStr) : Prop := behind <:+ s ∧ behind.length < s.length

theorem Behind.trans {a b c : PyStr} (hab : Behind a b) (hbc : b <:+ c) : Behind a c :=
  ⟨hab.1.trans hbc, hab.2.trans_le hbc.length_le⟩

theorem behind_cons {c : ℕ} {s t : PyStr} (h : t <:+ s) : Behind t (c :: s) :=
  ⟨h.trans (List.suffix_cons c s), Nat.lt_succ_of_le h.length_le⟩

theorem skipBlank_suffix (s : PyStr) : skipBlank s <:+ s := List.dropWhile_suffix _

theorem hexDigit?_lt {c d : ℕ} (h : hexDigit? c = some d) : d < 16 := by
  unfold hexDigit? at h
  split_ifs at h <;> have := Option.some.inj h <;> omega

theorem unit?_lt {a b c d u : ℕ} (h : unit? a b c d = some u) : u < 0x10000 := by
  unfold unit? at h
  split at h
  case h_1 a b c d ha hb hc hd =>
    have := hexDigit?_lt ha
    have := hexDigit?_lt hb
    have := hexDigit?_lt hc
    have := hexDigit?_lt hd
    have := Option.some.inj h
    omega
  case h_2 => exact nomatch h

theorem lowEscape?_low {s : PyStr} {u : ℕ} (h : lowEscape? s = some u) : Json.IsLowSurrogate u := by
  unfold lowEscape? at h
  split at h
  · simpa using (Option.filter_eq_some_iff.mp h).2
  · exact nomatch h

theorem escapes_lt : ∀ e ∈ escapes, e.2 < 0x110000 := by decide

theorem joined_lt {high low : ℕ} (hhigh : Json.IsHighSurrogate high) (hlow : Json.IsLowSurrogate low) :
    joined high low < 0x110000 := by
  unfold Json.IsHighSurrogate at hhigh
  unfold Json.IsLowSurrogate at hlow
  unfold joined
  omega

theorem scanStringFrom_reads {skip : ℕ} {s t behind : PyStr} (h : scanStringFrom skip s = some (t, behind)) :
    Behind behind s ∧ (CodePoints s → CodePoints t) := by
  induction s generalizing skip t with
  | nil => cases skip <;> exact nomatch h
  | cons c rest ih =>
    -- what the rest gives, with one more code point in front
    have hmore : ∀ {k d : ℕ}, ((scanStringFrom k rest).map fun p => (d :: p.1, p.2)) = some (t, behind) →
        Behind behind (c :: rest) ∧
          ((CodePoints (c :: rest) → d < 0x110000) → CodePoints (c :: rest) → CodePoints t) := by
      intro k d hmap
      obtain ⟨⟨t', behind'⟩, hrest, heq⟩ := Option.map_eq_some_iff.mp hmap
      obtain ⟨rfl, rfl⟩ := Prod.mk.inj heq
      obtain ⟨hbehind, hpoints⟩ := ih hrest
      refine ⟨hbehind.trans (List.suffix_cons c rest), fun hd hall => List.forall_mem_cons.mpr ⟨hd hall, ?_⟩⟩
      exact hpoints (hall.suffix (List.suffix_cons c rest))
    cases skip with
    | succ skip =>
      obtain ⟨hbehind, hpoints⟩ := ih (show scanStringFrom skip rest = _ from h)
      exact ⟨hbehind.trans (List.suffix_cons c rest), fun hall => hpoints (hall.suffix (List.suffix_cons c rest))⟩
    | zero =>
      unfold scanStringFrom at h
      split_ifs at h with hquote hescape hcontrol
      · obtain ⟨rfl, rfl⟩ := Prod.mk.inj (Option.some.inj h)
        exact ⟨behind_cons (List.suffix_refl _), fun _ => List.forall_mem_nil _⟩
      · split at h
        · obtain ⟨u, hunit, h⟩ := Option.bind_eq_some_iff.mp h
          split at h
          case h_1 low hlow =>
            split_ifs at hlow with hhigh
            have hlt := joined_lt hhigh (lowEscape?_low hlow)
            exact (hmore h).imp_right fun hpoints => hpoints fun _ => hlt
          case h_2 =>
            have hlt := unit?_lt hunit
            exact (hmore h).imp_right fun hpoints => hpoints fun _ => hlt.trans (by norm_num)
        · obtain ⟨d, hescape, h⟩ := Option.bind_eq_some_iff.mp h
          have hlt := escapes_lt _ (Dict.mem_of_lookup hescape)
          exact (hmore h).imp_right fun hpoints => hpoints fun _ => hlt
        · exact nomatch h
      · exact (hmore h).imp_right fun hpoints => hpoints fun hall => hall c (List.mem_cons_self ..)

theorem isDigit_takeDigits {s : PyStr} {b : UInt8} (h : b ∈ takeDigits s) : Decimal.IsDigit b := by
  obtain ⟨c, hc, rfl⟩ := List.mem_map.mp h
  have hdigit : 48 ≤ c ∧ c ≤ 57 := by simpa [isDigit] using List.mem_takeWhile_imp hc
  have htoNat : (UInt8.ofNat c).toNat = c := by
    rw [UInt8.toNat_ofNat']
    omega
  unfold Decimal.IsDigit
  rwa [htoNat]

theorem dropDigits_suffix (s : PyStr) : dropDigits s <:+ s := List.dropWhile_suffix _

theorem scanInt_reads {s behind : PyStr} {int : List UInt8} (h : scanInt s = some (int, behind)) :
    Behind behind s ∧ ∀ b ∈ int, Decimal.IsDigit b := by
  cases s with
  | nil => exact nomatch h
  | cons c rest =>
    rw [scanInt] at h
    split_ifs at h with hzero hdigit
    · obtain ⟨rfl, rfl⟩ := Prod.mk.inj (Option.some.inj h)
      exact ⟨behind_cons (List.suffix_refl _), List.forall_mem_singleton.mpr (by decide)⟩
    · obtain ⟨rfl, rfl⟩ := Prod.mk.inj (Option.some.inj h)
      refine ⟨?_, fun b hb => isDigit_takeDigits hb⟩
      rw [dropDigits, List.dropWhile_cons_of_pos hdigit]
      exact behind_cons (dropDigits_suffix rest)

theorem scanNeg_suffix (s : PyStr) : (scanNeg s).2 <:+ s := by
  cases s with
  | nil => exact List.suffix_refl _
  | cons c rest =>
    rw [scanNeg]
    split_ifs
    · exact List.suffix_cons c rest
    · exact List.suffix_refl _

theorem scanFrac_suffix (s : PyStr) : (scanFrac s).2 <:+ s := by
  cases s with
  | nil => exact List.suffix_refl _
  | cons c rest =>
    rw [scanFrac]
    split_ifs
    · exact (dropDigits_suffix rest).trans (List.suffix_cons c rest)
    · exact List.suffix_refl _

theorem scanSign_suffix (s : PyStr) : (scanSign s).2 <:+ s := by
  cases s with
  | nil => exact List.suffix_refl _
  | cons c rest =>
    rw [scanSign]
    split_ifs
    · exact List.suffix_cons c rest
    · exact List.suffix_cons c rest
    · exact List.suffix_refl _

theorem scanExp_suffix (s : PyStr) : (scanExp s).2 <:+ s := by
  cases s with
  | nil => exact List.suffix_refl _
  | cons c rest =>
    rw [scanExp]
    split_ifs
    · exact (dropDigits_suffix _).trans ((scanSign_suffix rest).trans (List.suffix_cons c rest))
    · exact List.suffix_refl _

theorem scanNumber_reads {s behind : PyStr} {n : Numeral} (h : scanNumber s = some (n, behind)) :
    Behind behind s ∧ ∀ b ∈ n.int, Decimal.IsDigit b := by
  obtain ⟨⟨int, rest⟩, hint, heq⟩ := Option.map_eq_some_iff.mp h
  obtain ⟨rfl, rfl⟩ := Prod.mk.inj heq
  obtain ⟨⟨hsuffix, hlt⟩, hdigits⟩ := scanInt_reads hint
  have hrest := (scanExp_suffix (scanFrac rest).2).trans (scanFrac_suffix rest)
  refine ⟨Behind.trans ⟨hrest.trans hsuffix, hrest.length_le.trans_lt hlt⟩ (scanNeg_suffix s), hdigits⟩

theorem scanLiteral_reads {s behind : PyStr} {v : Object} (h : scanLiteral s = some (v, behind)) :
    Behind behind s ∧ v ∈ literals.map Prod.snd := by
  unfold scanLiteral at h
  obtain ⟨entry, hfind, heq⟩ := Option.map_eq_some_iff.mp h
  obtain ⟨rfl, rfl⟩ := Prod.mk.inj heq
  have hmem := List.mem_of_find?_eq_some hfind
  have hstarts : pyStr entry.1 <+: s := by simpa using List.find?_some hfind
  have hpos : ∀ e ∈ literals, 0 < (pyStr e.1).length := by decide
  refine ⟨⟨List.drop_suffix _ _, ?_⟩, List.mem_map_of_mem hmem⟩
  rw [List.length_drop]
  have := hpos entry hmem
  have := hstarts.length_le
  omega

/-- What `json.loads` makes: integers with no more digits than are allowed, code points, and a key once in a dict. -/
def Sound (digits : ℕ) : Object → Prop
  | .int n => digits ≠ 0 → (Decimal.render n.natAbs).length ≤ digits
  | .str s => CodePoints s
  | .dict items => (items.map Prod.fst).Nodup ∧ ∀ item ∈ items, CodePoints item.1
  | _ => True

theorem toObject_sound {digits : ℕ} {n : Numeral} {v : Object} (hint : ∀ b ∈ n.int, Decimal.IsDigit b)
    (h : n.toObject digits = .ok v) : v.depth = 0 ∧ v.All (Sound digits) := by
  unfold Numeral.toObject at h
  split_ifs at h with hfloat hdigits
  · obtain rfl := Except.ok.inj h
    exact ⟨rfl, (Object.all_scalar (v := .float n.toDouble) trivial).mpr trivial⟩
  · obtain rfl := Except.ok.inj h
    refine ⟨rfl, (Object.all_scalar (v := .int n.toInt) trivial).mpr fun hne => ?_⟩
    have hlen : n.int.length ≤ digits := by omega
    have hlt : n.toInt.natAbs < 10 ^ digits := by
      have habs : n.toInt.natAbs = Decimal.value n.int := by
        unfold Numeral.toInt
        split_ifs <;> simp
      rw [habs]
      exact (Decimal.value_lt hint).trans_le (Nat.pow_le_pow_right (by norm_num) hlen)
    exact Decimal.length_render_le (Nat.pos_of_ne_zero hne) hlt

/-- A reader of items: it goes on in the text, and what it makes of code points has a property. -/
def Reads {α : Type} (P : α → Prop) (item : PyStr → Except LoadsError (α × PyStr)) : Prop :=
  ∀ s a behind, item s = .ok (a, behind) → Behind behind s ∧ (CodePoints s → P a)

section Items
variable {α : Type} {P : α → Prop} {close : ℕ} {item : PyStr → Except LoadsError (α × PyStr)}

theorem scanItems_reads (hitem : Reads P item) (fuel : ℕ) :
    Reads (fun as => ∀ a ∈ as, P a) (scanItems close item fuel) := by
  induction fuel with
  | zero => exact fun _ _ _ h => nomatch h
  | succ fuel ih =>
    intro s as behind h
    rw [scanItems] at h
    cases hfirst : item s with
    | error e => rw [hfirst] at h; exact nomatch h
    | ok first =>
      obtain ⟨a, rest⟩ := first
      obtain ⟨hrest, ha⟩ := hitem s a rest hfirst
      rw [hfirst] at h
      dsimp only at h
      have hskip := skipBlank_suffix rest
      cases hblank : skipBlank rest with
      | nil => rw [hblank] at h; exact nomatch h
      | cons c tail =>
        rw [hblank] at h hskip
        have htail : Behind tail s := (behind_cons (List.suffix_refl _)).trans (hskip.trans hrest.1)
        dsimp only at h
        split_ifs at h with hclose hcomma
        · obtain ⟨rfl, rfl⟩ := Prod.mk.inj (Except.ok.inj h)
          exact ⟨htail, fun hall => List.forall_mem_singleton.mpr (ha hall)⟩
        · cases hmore : scanItems close item fuel (skipBlank tail) with
          | error e => rw [hmore] at h; exact nomatch h
          | ok more =>
            rw [hmore] at h
            obtain ⟨rfl, rfl⟩ := Prod.mk.inj (Except.ok.inj h)
            obtain ⟨hbehind, hothers⟩ := ih _ _ _ hmore
            have hsuffix := (skipBlank_suffix tail).trans htail.1
            refine ⟨hbehind.trans hsuffix, fun hall => ?_⟩
            exact List.forall_mem_cons.mpr ⟨ha hall, hothers (hall.suffix hsuffix)⟩

theorem scanContainer_reads (hitem : Reads P item) : Reads (fun as => ∀ a ∈ as, P a) (scanContainer close item) := by
  intro s as behind h
  unfold scanContainer at h
  have hskip := skipBlank_suffix s
  cases hblank : skipBlank s with
  | nil => rw [hblank] at h; exact nomatch h
  | cons c rest =>
    rw [hblank] at h hskip
    dsimp only at h
    split_ifs at h with hclose
    · obtain ⟨rfl, rfl⟩ := Prod.mk.inj (Except.ok.inj h)
      exact ⟨(behind_cons (List.suffix_refl _)).trans hskip, fun _ => List.forall_mem_nil _⟩
    · obtain ⟨hbehind, hall⟩ := scanItems_reads hitem _ _ _ _ h
      exact ⟨hbehind.trans hskip, fun hpoints => hall (hpoints.suffix hskip)⟩

/-- **The bound on the items is none**: a larger one than the length of the text makes no difference. -/
theorem scanItems_fuel (hitem : Reads P item) {fuel more : ℕ} {s : PyStr} (hpos : 0 < fuel) (hlen : s.length ≤ fuel)
    (hle : fuel ≤ more) : scanItems close item more s = scanItems close item fuel s := by
  induction fuel generalizing more s with
  | zero => exact absurd hpos (lt_irrefl 0)
  | succ fuel ih =>
    obtain ⟨more, rfl⟩ : ∃ m, more = m + 1 := ⟨more - 1, by omega⟩
    rw [scanItems, scanItems]
    cases hfirst : item s with
    | error e => rfl
    | ok first =>
      obtain ⟨a, rest⟩ := first
      have hrest := (hitem s a rest hfirst).1.2
      dsimp only
      have hskip := (skipBlank_suffix rest).length_le
      cases hblank : skipBlank rest with
      | nil => rfl
      | cons c tail =>
        rw [hblank, List.length_cons] at hskip
        have htail := (skipBlank_suffix tail).length_le
        dsimp only
        rw [@ih more _ (by omega) (by omega) (by omega)]

end Items

theorem scanMember_reads {P : Object → Prop} {value : PyStr → Except LoadsError (Object × PyStr)}
    (hvalue : Reads P value) : Reads (fun member => CodePoints member.1 ∧ P member.2) (scanMember value) := by
  intro s member behind h
  unfold scanMember at h
  split at h
  case h_1 => exact nomatch h
  case h_2 c rest =>
    split_ifs at h with hquote
    cases hkey : scanString rest with
    | none => rw [hkey] at h; exact nomatch h
    | some scanned =>
      obtain ⟨key, afterKey⟩ := scanned
      obtain ⟨hafter, hpoints⟩ := scanStringFrom_reads hkey
      rw [hkey] at h
      dsimp only at h
      have hskip := skipBlank_suffix afterKey
      cases hblank : skipBlank afterKey with
      | nil => rw [hblank] at h; exact nomatch h
      | cons d tail =>
        rw [hblank] at h hskip
        dsimp only at h
        split_ifs at h with hcolon
        cases hread : value (skipBlank tail) with
        | error e => rw [hread] at h; exact nomatch h
        | ok p =>
          rw [hread] at h
          obtain ⟨rfl, rfl⟩ := Prod.mk.inj (Except.ok.inj h)
          have htail : skipBlank tail <:+ c :: rest := (skipBlank_suffix tail).trans
            ((List.suffix_cons d tail).trans (hskip.trans (hafter.trans (List.suffix_cons c rest)).1))
          obtain ⟨hbehind, hv⟩ := hvalue _ _ _ hread
          refine ⟨hbehind.trans htail, fun hall => ⟨hpoints (hall.suffix (List.suffix_cons c rest)), ?_⟩⟩
          exact hv (hall.suffix htail)

theorem sound_literals {digits : ℕ} {v : Object} (h : v ∈ literals.map Prod.snd) :
    v.depth = 0 ∧ v.All (Sound digits) := by
  simp only [literals, List.map_cons, List.map_nil, List.mem_cons, List.not_mem_nil, or_false] at h
  rcases h with rfl | rfl | rfl | rfl | rfl | rfl <;>
    exact ⟨rfl, List.forall_mem_singleton.mpr trivial⟩

/-- What stands in front of the text behind a value. -/
theorem scanValue_cases {digits depth : ℕ} {s behind : PyStr} {v : Object}
    (h : scanValue digits depth s = .ok (v, behind)) :
    (∃ rest t, s = 34 :: rest ∧ scanString rest = some (t, behind) ∧ v = .str t) ∨
    (∃ inner rest items, depth = inner + 1 ∧ s = 91 :: rest ∧
      scanContainer 93 (scanValue digits inner) rest = .ok (items, behind) ∧ v = .list items) ∨
    (∃ inner rest members, depth = inner + 1 ∧ s = 123 :: rest ∧
      scanContainer 125 (scanMember (scanValue digits inner)) rest = .ok (members, behind) ∧
      v = .dict (Dict.ofPairs members).entries) ∨
    scanLiteral s = some (v, behind) ∨ ∃ n, scanNumber s = some (n, behind) ∧ n.toObject digits = .ok v := by
  unfold scanValue at h
  split at h
  case h_1 => exact nomatch h
  case h_2 c rest =>
    split_ifs at h with hquote hlist hdict
    · subst hquote
      cases hstring : scanString rest with
      | none => rw [hstring] at h; exact nomatch h
      | some p =>
        rw [hstring] at h
        obtain ⟨rfl, rfl⟩ := Prod.mk.inj (Except.ok.inj h)
        exact .inl ⟨rest, p.1, rfl, hstring, rfl⟩
    · subst hlist
      split at h
      case h_1 => exact nomatch h
      case h_2 inner =>
        cases hitems : scanContainer 93 (scanValue digits inner) rest with
        | error e => rw [hitems] at h; exact nomatch h
        | ok p =>
          rw [hitems] at h
          obtain ⟨rfl, rfl⟩ := Prod.mk.inj (Except.ok.inj h)
          exact .inr (.inl ⟨inner, rest, p.1, rfl, rfl, hitems, rfl⟩)
    · subst hdict
      split at h
      case h_1 => exact nomatch h
      case h_2 inner =>
        cases hitems : scanContainer 125 (scanMember (scanValue digits inner)) rest with
        | error e => rw [hitems] at h; exact nomatch h
        | ok p =>
          rw [hitems] at h
          obtain ⟨rfl, rfl⟩ := Prod.mk.inj (Except.ok.inj h)
          exact .inr (.inr (.inl ⟨inner, rest, p.1, rfl, rfl, hitems, rfl⟩))
    · split at h
      case h_1 p hliteral => exact .inr (.inr (.inr (.inl (hliteral.trans (congrArg some (Except.ok.inj h))))))
      case h_2 =>
        split at h
        case h_1 => exact nomatch h
        case h_2 n rest' hnumber =>
          cases hv : n.toObject digits with
          | error e => rw [hv] at h; exact nomatch h
          | ok w =>
            rw [hv] at h
            obtain ⟨rfl, rfl⟩ := Prod.mk.inj (Except.ok.inj h)
            exact .inr (.inr (.inr (.inr ⟨n, hnumber, hv⟩)))

theorem scanValue_reads (digits depth : ℕ) :
    Reads (fun v => v.depth ≤ depth ∧ v.All (Sound digits)) (scanValue digits depth) := by
  induction depth using Nat.strong_induction_on with
  | _ depth ih =>
    intro s v behind h
    rcases scanValue_cases h with ⟨rest, t, rfl, hstring, rfl⟩ | ⟨inner, rest, items, rfl, rfl, hitems, rfl⟩ |
      ⟨inner, rest, members, rfl, rfl, hmembers, rfl⟩ | hliteral | ⟨n, hnumber, hv⟩
    · obtain ⟨hbehind, hpoints⟩ := scanStringFrom_reads hstring
      refine ⟨hbehind.trans (List.suffix_cons _ rest), fun hall => ⟨Nat.zero_le _, ?_⟩⟩
      exact List.forall_mem_singleton.mpr (hpoints (hall.suffix (List.suffix_cons _ rest)))
    · obtain ⟨hbehind, hread⟩ := scanContainer_reads (ih inner (Nat.lt_succ_self inner)) _ _ _ hitems
      refine ⟨hbehind.trans (List.suffix_cons _ rest), fun hall => ?_⟩
      have hmem := hread (hall.suffix (List.suffix_cons _ rest))
      exact ⟨Nat.succ_le_succ (depthList_le.mpr fun w hw => (hmem w hw).1),
        Object.all_list.mpr ⟨trivial, fun w hw => (hmem w hw).2⟩⟩
    · obtain ⟨hbehind, hread⟩ :=
        scanContainer_reads (scanMember_reads (ih inner (Nat.lt_succ_self inner))) _ _ _ hmembers
      refine ⟨hbehind.trans (List.suffix_cons _ rest), fun hall => ?_⟩
      have hmem := fun item h => hread (hall.suffix (List.suffix_cons _ rest)) item (Dict.mem_of_mem_ofPairs h)
      exact ⟨Nat.succ_le_succ (depthItems_le.mpr fun item hi => (hmem item hi).2.1),
        Object.all_dict.mpr ⟨⟨(Dict.ofPairs members).nodup, fun item hi => (hmem item hi).1⟩,
          fun item hi => (hmem item hi).2.2⟩⟩
    · obtain ⟨hbehind, hmem⟩ := scanLiteral_reads hliteral
      obtain ⟨hdepth, hsound⟩ := sound_literals hmem
      exact ⟨hbehind, fun _ => ⟨hdepth.trans_le (Nat.zero_le _), hsound⟩⟩
    · obtain ⟨hbehind, hdigits⟩ := scanNumber_reads hnumber
      obtain ⟨hdepth, hsound⟩ := toObject_sound hdigits hv
      exact ⟨hbehind, fun _ => ⟨hdepth.trans_le (Nat.zero_le _), hsound⟩⟩

theorem loads_sound {limits : Limits} {raw : PyStr} {v : Object} (hraw : CodePoints raw)
    (h : loads limits raw = .ok v) : v.depth ≤ limits.loads ∧ v.All (Sound limits.digits) := by
  unfold loads at h
  split_ifs at h
  cases hvalue : scanValue limits.digits limits.loads (skipBlank raw) with
  | error e => rw [hvalue] at h; exact nomatch h
  | ok p =>
    obtain ⟨w, behind⟩ := p
    rw [hvalue] at h
    dsimp only at h
    split_ifs at h
    obtain rfl := Except.ok.inj h
    exact (scanValue_reads _ _ _ _ _ hvalue).2 (hraw.suffix (skipBlank_suffix raw))

end Py
