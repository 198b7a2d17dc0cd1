import Atlas.Lib.Regex

/-!
# What must not leave: `_sanitize` of `atlas_agent/generator.py`

* `sensitivePatterns`, `sanitize` : the patterns, and the text with their matches replaced;
* `Lead` : patterns that are a front with one more character behind it; `address` : the other one;
* `not_sensitive_sanitize` : a sanitized text contains no match;
* `Open` : a text that ends in a key and its `=` or `:`, for which any text behind it is a value;
* `sensitive_inert`, `sensitive_closing` : texts put together.
-/

namespace Atlas.Agent
open Regex PyText

/-! ## The patterns -/

/-- A pattern : `front`, and then one or more characters of `last`. -/
structure Lead where
  front : List Piece
  last : Char → Bool

def Lead.pattern (lead : Lead) : Pattern where
  pieces := lead.front ++ [.plus lead.last]
  consumes before behind h := by
    obtain ⟨u, v, hsplit, -, hv⟩ := matches_append.mp h
    exact (matches_plus.mp hv).1 (List.append_eq_nil_iff.mp hsplit.symm).2

def isAssign (c : Char) : Bool := c ∈ ['=', ':']

/-- `key\s*[=:]\s*\S+` -/
def assigned (key : List Piece) : Lead := ⟨key ++ [.star isSpace, .one isAssign, .star isSpace], fun c => !isSpace c⟩

/-- `text[a-zA-Z0-9]+` -/
def tagged (text : List Char) : Lead := ⟨letters text, isAlnumCaseless⟩

/-- `api[_-]?key` and the words. -/
def keys : List (List Piece) :=
  [letters "api".toList ++ .optional (fun c => c ∈ ['_', '-']) :: letters "key".toList,
    letters "password".toList, letters "secret".toList, letters "token".toList]

def leads : List Lead := keys.map assigned ++ [tagged "gsk_".toList, tagged "sk-".toList]

section
variable (tables : Tables)

/-- `\d{1,3}\.\d{1,3}\.\d{1,3}\.\d{1,3}` -/
def dotted : List Piece :=
  [.rep tables.isDecimal 1 (some 3), .one (· = '.'), .rep tables.isDecimal 1 (some 3), .one (· = '.'),
    .rep tables.isDecimal 1 (some 3), .one (· = '.'), .rep tables.isDecimal 1 (some 3)]

/-- An IP address : digits and dots between word boundaries. -/
def address : Pattern where
  pieces := tables.boundary :: (dotted tables ++ [tables.boundary])
  consumes before behind h := by
    obtain ⟨-, u, v, hsplit, -, hleast, -⟩ := h
    rw [(List.append_eq_nil_iff.mp hsplit.symm).1] at hleast
    exact absurd hleast (by decide)

/-- `SENSITIVE_PATTERNS` -/
def sensitivePatterns : List Pattern := leads.map Lead.pattern ++ [address tables]

def redacted : List Char := "[REDACTED]".toList

/-- `_sanitize` -/
def sanitize (text : String) : String :=
  String.ofList ((sensitivePatterns tables).foldl (fun text pattern => pattern.sub redacted text) text.toList)

/-- The text contains a match. -/
def Sensitive (text : List Char) : Prop := ∃ pattern ∈ sensitivePatterns tables, Occurs pattern.pieces text

end

/-! ## Words of a front -/

/-- The first letters of the fronts. -/
def heads : List (List Char) := ["api", "pas", "sec", "tok", "gsk", "sk-"].map String.toList

/-- The text begins like a front. -/
def Begins (u : List Char) : Prop :=
  ∃ head ∈ heads, ∃ a b, u = a ++ b ∧ List.Forall₂ (fun x c => c ∈ caseless x) head a

theorem begins_of_letters {text u : List Char} {ps : List Piece} {before behind : Option Char}
    (htext : text.take 3 ∈ heads) (hu : Matches (letters text ++ ps) before u behind) : Begins u := by
  obtain ⟨v, rest, rfl, hv, -⟩ := matches_letters.mp hu
  refine ⟨_, htext, v.take 3, v.drop 3 ++ rest, ?_, List.forall₂_take 3 hv⟩
  rw [← List.append_assoc, List.take_append_drop]

def isKeyChar (c : Char) : Bool := c.isAlpha || c ∈ ['_', '-', '\u0130', '\u0131', '\u017F', '\u212A']

/-- The pieces of a key. -/
def IsKey (key : List Piece) : Prop :=
  ∀ piece ∈ key, ∃ p least most, piece = .rep p least most ∧ ∀ c, p c = true → isKeyChar c = true

theorem isKey_letters {text : List Char} (h : (text.flatMap caseless).all isKeyChar = true) :
    IsKey (letters text) := by
  intro piece hpiece
  obtain ⟨p, hp, rfl⟩ := List.mem_map.mp hpiece
  obtain ⟨x, hx, rfl⟩ := List.mem_map.mp hp
  refine ⟨_, 1, some 1, rfl, fun c hc => List.all_eq_true.mp h c ?_⟩
  exact List.mem_flatMap.mpr ⟨x, hx, of_decide_eq_true hc⟩

theorem IsKey.append {key key' : List Piece} (h : IsKey key) (h' : IsKey key') : IsKey (key ++ key') :=
  fun piece hpiece => (List.mem_append.mp hpiece).elim (h piece) (h' piece)

/-- Each key has its letters in front. -/
theorem key_cases {key : List Piece} (h : key ∈ keys) :
    IsKey key ∧ ∃ text ps, key = letters text ++ ps ∧ text.take 3 ∈ heads := by
  have hoptional : IsKey [.optional fun c => c ∈ ['_', '-']] := by
    intro piece hpiece
    refine ⟨_, 0, some 1, List.mem_singleton.mp hpiece, fun c hc => ?_⟩
    rcases List.mem_pair.mp (of_decide_eq_true hc) with rfl | rfl <;> rfl
  have hword {text : List Char} (hkey : (text.flatMap caseless).all isKeyChar = true) (hhead : text.take 3 ∈ heads) :
      IsKey (letters text) ∧ ∃ text' ps, letters text = letters text' ++ ps ∧ text'.take 3 ∈ heads :=
    ⟨isKey_letters hkey, text, [], (List.append_nil _).symm, hhead⟩
  unfold keys at h
  rcases h with _ | ⟨_, _ | ⟨_, _ | ⟨_, _ | ⟨_, h⟩⟩⟩⟩
  · refine ⟨(isKey_letters ?_).append (hoptional.append (isKey_letters ?_)), _, _, rfl, ?_⟩ <;> decide
  · exact hword (by decide) (by decide)
  · exact hword (by decide) (by decide)
  · exact hword (by decide) (by decide)
  · cases h

theorem IsKey.plain {key : List Piece} (h : IsKey key) : Plain key := by
  intro q hq
  obtain ⟨p, least, most, heq, -⟩ := h _ hq
  cases heq

theorem IsKey.chars {key : List Piece} (h : IsKey key) {before behind : Option Char} {u : List Char}
    (hu : Matches key before u behind) : ∀ c ∈ u, isKeyChar c = true := by
  refine forall_of_matches (fun piece hpiece p least most heq => ?_) hu
  obtain ⟨p', least', most', heq', hp'⟩ := h piece hpiece
  obtain ⟨rfl, -, -⟩ := Piece.rep.inj (heq.symm.trans heq')
  exact hp'

/-- What a key is followed by : `=` or `:` and white space. -/
theorem matches_assigned {key : List Piece} (h : IsKey key) {before behind : Option Char} {u : List Char} :
    Matches (assigned key).front before u behind ↔ ∃ k s e s', u = k ++ (s ++ e :: s') ∧ Matches key none k none ∧
      (∀ c ∈ s, isSpace c = true) ∧ isAssign e = true ∧ ∀ c ∈ s', isSpace c = true := by
  unfold assigned
  dsimp only
  rw [matches_append]
  constructor
  · rintro ⟨k, rest, rfl, hk, hrest⟩
    obtain ⟨s, rest, rfl, hs, hrest⟩ := matches_star.mp hrest
    obtain ⟨e, rest, rfl, he, hrest⟩ := matches_one.mp hrest
    obtain ⟨s', rest, rfl, hs', rfl⟩ := matches_star.mp hrest
    rw [List.append_nil]
    exact ⟨k, s, e, s', rfl, h.plain.matches hk none none, hs, he, hs'⟩
  · rintro ⟨k, s, e, s', rfl, hk, hs, he, hs'⟩
    refine ⟨k, _, rfl, h.plain.matches hk _ _, matches_star.mpr ⟨s, _, rfl, hs, matches_one.mpr ⟨e, _, rfl, he, ?_⟩⟩⟩
    exact matches_star.mpr ⟨s', [], (List.append_nil s').symm, hs', rfl⟩

/-- What the proofs need of a front. -/
structure Lead.Regular (lead : Lead) : Prop where
  plain : Plain lead.front
  begins : ∀ u, Matches lead.front none u none → Begins u
  mark : ∀ u, Matches lead.front none u none → '[' ∉ u
  last : lead.last '[' = true → ∀ c, isSpace c = false → lead.last c = true

theorem Lead.Regular.plain_pieces {lead : Lead} (h : lead.Regular) : Plain lead.pattern.pieces := by
  intro q hq
  rcases List.mem_append.mp hq with hq | hq
  · exact h.plain q hq
  · cases List.mem_singleton.mp hq

theorem regular_assigned {key : List Piece} (h : key ∈ keys) : (assigned key).Regular := by
  obtain ⟨hkey, text, ps, rfl, hhead⟩ := key_cases h
  refine ⟨?_, fun u hu => ?_, fun u hu hmark => ?_, fun _ c hc => ?_⟩
  · intro q hq
    rcases List.mem_append.mp hq with hq | hq
    · exact hkey.plain q hq
    · rcases hq with _ | ⟨_, _ | ⟨_, _ | ⟨_, hq⟩⟩⟩
      cases hq
  · have hfront : Matches (letters text ++ (ps ++ [.star isSpace, .one isAssign, .star isSpace])) none u none := by
      rw [← List.append_assoc]
      exact hu
    exact begins_of_letters hhead hfront
  · obtain ⟨k, s, e, s', rfl, hk, hs, he, hs'⟩ := (matches_assigned hkey).mp hu
    rcases List.mem_append.mp hmark with hmark | hmark
    · exact absurd (hkey.chars hk _ hmark) (by decide)
    · rcases List.mem_append.mp hmark with hmark | hmark
      · exact absurd (hs _ hmark) (by decide)
      · rcases List.mem_cons.mp hmark with rfl | hmark
        · exact absurd he (by decide)
        · exact absurd (hs' _ hmark) (by decide)
  · show (!isSpace c) = true
    rw [hc]
    rfl

theorem regular_tagged {text : List Char} (hhead : text.take 3 ∈ heads) (hkey : IsKey (letters text)) :
    (tagged text).Regular where
  plain := hkey.plain
  begins u hu := by
    rw [← List.append_nil (tagged text).front] at hu
    exact begins_of_letters hhead hu
  mark u hu hmark := absurd (hkey.chars hu _ hmark) (by decide)
  last h := by
    have hlast : isAlnumCaseless '[' = true := h
    exact absurd hlast (by decide)

theorem regular_of_mem {lead : Lead} (h : lead ∈ leads) : lead.Regular := by
  rcases List.mem_append.mp h with h | h
  · obtain ⟨key, hkey, rfl⟩ := List.mem_map.mp h
    exact regular_assigned hkey
  · rcases List.mem_pair.mp h with rfl | rfl
    · exact regular_tagged (by decide) (isKey_letters (by decide))
    · exact regular_tagged (by decide) (isKey_letters (by decide))

theorem Lead.Regular.starts_iff {lead : Lead} (h : lead.Regular) {before : Option Char} {s : List Char} :
    Starts lead.pattern.pieces before s ↔
      ∃ u c rest, s = u ++ c :: rest ∧ Matches lead.front none u none ∧ lead.last c = true := by
  constructor
  · rintro ⟨w, rest, rfl, hw⟩
    obtain ⟨u, v, rfl, hu, hv⟩ := matches_append.mp hw
    obtain ⟨hne, hv⟩ := matches_plus.mp hv
    cases v with
    | nil => exact absurd rfl hne
    | cons c v =>
      refine ⟨u, c, v ++ rest, ?_, h.plain.matches hu none none, hv c (List.mem_cons_self ..)⟩
      rw [List.append_assoc, List.cons_append]
  · rintro ⟨u, c, rest, rfl, hu, hc⟩
    refine ⟨u ++ [c], rest, ?_, matches_append.mpr ⟨u, [c], rfl, h.plain.matches hu _ _, matches_plus.mpr ⟨nofun, ?_⟩⟩⟩
    · rw [List.append_assoc, List.singleton_append]
    · intro d hd
      rwa [List.mem_singleton.mp hd]

/-! ## Addresses -/

section
variable {tables : Tables}

/-- What is between the boundaries of an address. -/
structure Dotted (tables : Tables) (w : List Char) : Prop where
  word : Matches (dotted tables) none w none
  head : ∃ c u, w = c :: u ∧ tables.isDecimal c = true
  last : ∃ c, w.getLast? = some c ∧ tables.isDecimal c = true
  chars : ∀ c ∈ w, tables.isDecimal c = true ∨ c = '.'

theorem plain_dotted : Plain (dotted tables) := by
  intro q hq
  simp [dotted, Piece.one] at hq

theorem dotted_of_matches {w : List Char} (h : Matches (dotted tables) none w none) : Dotted tables w where
  word := h
  head := by
    obtain ⟨u, v, rfl, hu, hleast, -, -⟩ := h
    cases u with
    | nil => exact absurd hleast (by decide)
    | cons c u => exact ⟨c, u ++ v, rfl, hu c (List.mem_cons_self ..)⟩
  last := by
    have hsplit : dotted tables = (dotted tables).take 6 ++ [.rep tables.isDecimal 1 (some 3)] := rfl
    rw [hsplit, matches_append] at h
    obtain ⟨u, v, rfl, -, v, rest, rfl, hv, hleast, -, rfl⟩ := h
    have hne : v ≠ [] := List.ne_nil_of_length_pos hleast
    refine ⟨v.getLast hne, ?_, hv _ (List.getLast_mem hne)⟩
    rw [List.append_nil, List.getLast?_append_of_ne_nil u hne, List.getLast?_eq_getLast_of_ne_nil hne]
  chars := by
    refine forall_of_matches (fun piece hpiece p least most heq c hc => ?_) h
    simp only [dotted, Piece.one, List.mem_cons, List.not_mem_nil, or_false] at hpiece
    rcases hpiece with rfl | rfl | rfl | rfl | rfl | rfl | rfl <;> obtain ⟨rfl, -, -⟩ := Piece.rep.inj heq
    all_goals first | exact .inl hc | exact .inr (of_decide_eq_true hc)

theorem isWord_of_isDecimal {c : Char} (h : tables.isDecimal c = true) : tables.isWord c = true := by
  rw [Tables.isWord, tables.alnum_of_decimal c h, Bool.true_or]

theorem matches_address {before behind : Option Char} {w : List Char} :
    Matches (address tables).pieces before w behind ↔
      before.any tables.isWord = false ∧ Dotted tables w ∧ behind.any tables.isWord = false := by
  have hpieces : (address tables).pieces = tables.boundary :: (dotted tables ++ [tables.boundary]) := rfl
  have hinner : Matches (dotted tables ++ [tables.boundary]) before w behind ↔
      Dotted tables w ∧ behind.any tables.isWord = false := by
    rw [matches_append]
    constructor
    · rintro ⟨u, v, rfl, hu, hboundary, rfl⟩
      have hdotted := dotted_of_matches (plain_dotted.matches hu none none)
      obtain ⟨c, hc, hdecimal⟩ := hdotted.last
      rw [List.append_nil]
      refine ⟨hdotted, ?_⟩
      simpa [hc, isWord_of_isDecimal hdecimal] using hboundary
    · rintro ⟨hdotted, hbehind⟩
      obtain ⟨c, hc, hdecimal⟩ := hdotted.last
      refine ⟨w, [], (List.append_nil w).symm, plain_dotted.matches hdotted.word _ _, ?_, rfl⟩
      simp [hc, isWord_of_isDecimal hdecimal, hbehind]
  rw [hpieces]
  show _ ∧ Matches (dotted tables ++ [tables.boundary]) before w behind ↔ _
  rw [hinner, ← and_assoc, ← and_assoc]
  refine and_congr_left fun _ => and_congr_left fun hdotted => ?_
  obtain ⟨c, u, rfl, hdecimal⟩ := hdotted.head
  simp [isWord_of_isDecimal hdecimal]

theorem starts_address {before : Option Char} {s : List Char} : Starts (address tables).pieces before s ↔
    before.any tables.isWord = false ∧
      ∃ w rest, s = w ++ rest ∧ Dotted tables w ∧ rest.head?.any tables.isWord = false := by
  unfold Starts
  simp only [matches_address]
  constructor
  · rintro ⟨w, rest, hs, hbefore, hw, hrest⟩
    exact ⟨hbefore, w, rest, hs, hw, hrest⟩
  · rintro ⟨hbefore, w, rest, hs, hw, hrest⟩
    exact ⟨w, rest, hs, hbefore, hw, hrest⟩

end

/-! ## Texts in which no match begins -/

/-- Both agree as far as they go. -/
def compatible (head v : List Char) : Bool := (head.zip v).all fun xc => xc.2 ∈ caseless xc.1

theorem compatible_of_forall₂ {head a v : List Char} (h : List.Forall₂ (fun x c => c ∈ caseless x) head a)
    {r y : List Char} (hsplit : v ++ y = a ++ r) : compatible head v = true := by
  induction h generalizing v with
  | nil => rfl
  | @cons x c head a hc _ ih =>
    cases v with
    | nil => rfl
    | cons d v =>
      obtain ⟨rfl, hrest⟩ := List.cons.inj hsplit
      have hhere : decide (d ∈ caseless x) = true := decide_eq_true hc
      show (decide (d ∈ caseless x) && compatible head v) = true
      rw [hhere, ih hrest]
      rfl

/-- ASCII without digits, where no front begins, whatever follows; the last character is not one of a word. -/
def inert (t : List Char) : Bool :=
  t.all (fun c => c.toNat < 128 && !c.isDigit) && t.getLast?.any (fun c => !c.isAlphanum && c ≠ '_') &&
    heads.all fun head => t.tails.all fun v => v.isEmpty || !compatible head v

theorem inert_redacted : inert redacted = true := by decide

theorem compatible_of_append {head v w : List Char} (h : compatible head (v ++ w) = true) :
    compatible head v = true := by
  induction v generalizing head with
  | nil => simp [compatible]
  | cons c v ih =>
    cases head with
    | nil => rfl
    | cons x head =>
      simp only [compatible, List.cons_append, List.zip_cons_cons, List.all_cons, Bool.and_eq_true] at h ⊢
      exact ⟨h.1, ih h.2⟩

/-- A front that began in the first text would have to go through its end. -/
theorem inert_append {t u : List Char} (ht : inert t = true) (hu : inert u = true) : inert (t ++ u) = true := by
  simp only [inert, Bool.and_eq_true, List.all_eq_true, List.mem_tails, Bool.or_eq_true, Bool.not_eq_true',
    List.isEmpty_iff] at ht hu ⊢
  refine ⟨⟨fun c hc => ?_, ?_⟩, fun head hhead v hv => ?_⟩
  · exact (List.mem_append.mp hc).elim (ht.1.1 c) (hu.1.1 c)
  · obtain ⟨c, hc, hword⟩ := (Option.any_eq_true _ _).mp hu.1.2
    rw [List.getLast?_append, hc]
    exact hword
  · obtain ⟨w, hw⟩ := hv
    rcases List.append_eq_append_iff.mp hw with ⟨a, rfl, rfl⟩ | ⟨a, rfl, rfl⟩
    · rcases ht.2 head hhead a (List.suffix_append w a) with rfl | hnot
      · exact hu.2 head hhead _ (List.suffix_refl _)
      · exact .inr (Bool.eq_false_iff.mpr fun h => Bool.eq_false_iff.mp hnot (compatible_of_append h))
    · exact hu.2 head hhead v (List.suffix_append a v)

theorem inert_ofList {t : List Char} (h : inert t = true) : inert (String.ofList t).toList = true := by
  rwa [String.toList_ofList]

section
variable {tables : Tables} {t : List Char}

theorem not_decimal_of_inert (h : inert t = true) {c : Char} (hc : c ∈ t) : tables.isDecimal c = false := by
  simp only [inert, Bool.and_eq_true, List.all_eq_true, decide_eq_true_eq, Bool.not_eq_true'] at h
  obtain ⟨hascii, hdigit⟩ := h.1.1 c hc
  rw [tables.decimal_ascii c hascii, hdigit]

theorem last_of_inert (h : inert t = true) (before : Option Char) :
    (t.getLast?.or before).any tables.isWord = false := by
  simp only [inert, Bool.and_eq_true, List.all_eq_true, decide_eq_true_eq] at h
  obtain ⟨⟨hall, hlast⟩, -⟩ := h
  obtain ⟨c, hc, hword⟩ := (Option.any_eq_true _ _).mp hlast
  have hascii := (hall c (List.mem_of_getLast? hc)).1
  simp only [ne_eq, Bool.and_eq_true, Bool.not_eq_true', decide_eq_true_eq] at hword
  rw [hc]
  show tables.isWord c = false
  rw [Tables.isWord, tables.alnum_ascii c hascii, hword.1, decide_eq_false hword.2]
  rfl

theorem not_begins_of_inert (h : inert t = true) {u v rest : List Char} (ht : t = u ++ v) (hv : v ≠ []) :
    ¬ Begins (v ++ rest) := by
  rintro ⟨head, hhead, a, b, hsplit, ha⟩
  simp only [inert, Bool.and_eq_true, List.all_eq_true, List.mem_tails] at h
  have hno := h.2 head hhead v ⟨u, ht.symm⟩
  rw [compatible_of_forall₂ ha hsplit, Bool.not_true, Bool.or_false, List.isEmpty_iff] at hno
  exact hv hno

/-- Whatever follows the text, no match begins in it. -/
theorem not_starts_of_inert (h : inert t = true) {pattern : Pattern} (hpattern : pattern ∈ sensitivePatterns tables)
    {u v : List Char} (ht : t = u ++ v) (hv : v ≠ []) (before : Option Char) (rest : List Char) :
    ¬ Starts pattern.pieces before (v ++ rest) := by
  rcases List.mem_append.mp hpattern with hpattern | hpattern
  · obtain ⟨lead, hlead, rfl⟩ := List.mem_map.mp hpattern
    rw [(regular_of_mem hlead).starts_iff]
    rintro ⟨w, c, back, hsplit, hw, -⟩
    obtain ⟨head, hhead, a, b, rfl, ha⟩ := (regular_of_mem hlead).begins w hw
    have hbegins : Begins (v ++ rest) := ⟨head, hhead, a, b ++ c :: back, by rw [hsplit, List.append_assoc], ha⟩
    exact not_begins_of_inert h ht hv hbegins
  · rw [List.mem_singleton.mp hpattern, starts_address]
    rintro ⟨-, w, back, hsplit, hw, -⟩
    obtain ⟨c, w, rfl, hdecimal⟩ := hw.head
    cases v with
    | nil => exact hv rfl
    | cons d v =>
      obtain ⟨rfl, -⟩ := List.cons.inj hsplit
      rw [not_decimal_of_inert h (ht ▸ List.mem_append_right u (List.mem_cons_self ..))] at hdecimal
      cases hdecimal

end

/-! ## The sanitized text -/

section
variable {tables : Tables} {pattern : Pattern} {before before' : Option Char} {s out : List Char}

/-- A match begins with a character that can be seen. -/
theorem visible_of_matches (hpattern : pattern ∈ sensitivePatterns tables) {w : List Char} {behind : Option Char}
    (hw : Matches pattern.pieces before w behind) : ∃ c u, w = c :: u ∧ isSpace c = false := by
  rcases List.mem_append.mp hpattern with hpattern | hpattern
  · obtain ⟨lead, hlead, rfl⟩ := List.mem_map.mp hpattern
    obtain ⟨u, v, rfl, hu, -⟩ := matches_append.mp hw
    obtain ⟨head, hhead, a, b, rfl, ha⟩ :=
      (regular_of_mem hlead).begins u ((regular_of_mem hlead).plain.matches hu none none)
    have hvisible : ∀ head ∈ heads, ∃ x rest, head = x :: rest ∧ (caseless x).any isSpace = false := by
      intro head hhead
      obtain ⟨text, htext, rfl⟩ := List.mem_map.mp hhead
      simp only [List.mem_cons, List.not_mem_nil, or_false] at htext
      rcases htext with rfl | rfl | rfl | rfl | rfl | rfl <;> exact ⟨_, _, rfl, by decide⟩
    obtain ⟨x, rest, rfl, hx⟩ := hvisible head hhead
    cases ha with
    | cons hc ha => exact ⟨_, _, rfl, by simpa using List.any_eq_false.mp hx _ hc⟩
  · rw [List.mem_singleton.mp hpattern] at hw
    obtain ⟨-, hdotted, -⟩ := matches_address.mp hw
    obtain ⟨c, u, rfl, hdecimal⟩ := hdotted.head
    exact ⟨c, u, rfl, tables.not_space c (tables.alnum_of_decimal c hdecimal)⟩

/-- A match of a lead in front of the outcome was there before. -/
theorem starts_lead_of_replaces (hpattern : pattern ∈ sensitivePatterns tables) {lead : Lead} (hlead : lead ∈ leads)
    (h : Replaces pattern.pieces redacted before s out) (hstarts : Starts lead.pattern.pieces before' out) :
    Starts lead.pattern.pieces before s := by
  have hregular := regular_of_mem hlead
  obtain ⟨u, c, rest, hout, hu, hc⟩ := hregular.starts_iff.mp hstarts
  obtain ⟨t, rfl, ht⟩ := @Replaces.kept _ _ '[' _ _ _ _ _ h rfl hout (hregular.mark u hu)
  refine hregular.starts_iff.mpr ?_
  generalize hrest : c :: rest = behind at ht
  cases ht with
  | nil => cases hrest
  | @keep _ d t out _ _ =>
    obtain ⟨rfl, -⟩ := List.cons.inj hrest
    exact ⟨u, c, t, rfl, hu, hc⟩
  | @cut _ w t out _ hw _ =>
    obtain ⟨rfl, -⟩ := List.cons.inj hrest
    obtain ⟨d, w, rfl, hd⟩ := visible_of_matches hpattern hw
    exact ⟨u, d, w ++ t, rfl, hu, hregular.last hc d hd⟩

/-- In front of what is left behind a match, no address begins. -/
theorem starts_address_of_replaces (h : Replaces (address tables).pieces redacted before s out)
    (hbefore : before' = before ∨ s.head?.any tables.isWord = false)
    (hstarts : Starts (address tables).pieces before' out) : Starts (address tables).pieces before s := by
  obtain ⟨hword, w, rest, hout, hw, hrest⟩ := starts_address.mp hstarts
  have hmark : '[' ∉ w := by
    intro hmem
    rcases hw.chars _ hmem with hdecimal | hdot
    · rw [tables.decimal_ascii _ (by decide)] at hdecimal
      exact absurd hdecimal (by decide)
    · exact absurd hdot (by decide)
  obtain ⟨t, rfl, ht⟩ := @Replaces.kept _ _ '[' _ _ _ _ _ h rfl hout hmark
  obtain ⟨c, u, hcu, hdecimal⟩ := hw.head
  refine starts_address.mpr ⟨?_, w, t, rfl, hw, ?_⟩
  · rcases hbefore with rfl | hhead
    · exact hword
    · rw [hcu] at hhead
      exact absurd ((isWord_of_isDecimal hdecimal).symm.trans hhead) (by decide)
  · cases ht with
    | nil => rfl
    | keep _ _ => exact hrest
    | @cut _ v t out _ hv _ =>
      -- a match cannot begin right behind a digit
      obtain ⟨hbehind, -, -⟩ := matches_address.mp hv
      obtain ⟨d, hd, hdigit⟩ := hw.last
      rw [hd] at hbehind
      exact absurd ((isWord_of_isDecimal hdigit).symm.trans hbehind) (by decide)

/-- `re.sub` leaves no match of its own pattern, and makes none of a lead. -/
theorem not_occurs_sub (hpattern : pattern ∈ sensitivePatterns tables) {text : List Char} :
    ¬ Occurs pattern.pieces (pattern.sub redacted text) := by
  intro hoccurs
  have hreplaces := @Pattern.replaces_sub redacted pattern text
  have hinside := fun before u v rest h hv =>
    @not_starts_of_inert tables _ inert_redacted pattern hpattern u v h hv before rest
  have hself : ∃ a t, text = a ++ t ∧ Starts pattern.pieces (a.getLast?.or none) t ∧
      ¬ Starts pattern.pieces (a.getLast?.or none) t := by
    rcases List.mem_append.mp hpattern with hmem | hmem
    · obtain ⟨lead, hlead, rfl⟩ := List.mem_map.mp hmem
      exact hreplaces.occurs (fun _ _ _ => True) (fun _ _ => trivial) (fun _ _ _ _ _ _ => trivial)
        (Pattern.not_starts_nil _) hinside (fun _ _ _ _ _ h => starts_lead_of_replaces hpattern hlead h) trivial hoccurs
    · obtain rfl := List.mem_singleton.mp hmem
      refine hreplaces.occurs (fun before before' s => before' = before ∨ s.head?.any tables.isWord = false)
        (fun _ _ => .inl rfl) (fun before before' w s _ hw => .inr ?_) (Pattern.not_starts_nil _) hinside
        (fun _ _ _ _ hL h => starts_address_of_replaces h hL) (.inl rfl) hoccurs
      exact (matches_address.mp hw).2.2
  obtain ⟨a, t, -, hstarts, hnot⟩ := hself
  exact hnot hstarts

theorem occurs_of_occurs_sub (hpattern : pattern ∈ sensitivePatterns tables) {lead : Lead} (hlead : lead ∈ leads)
    {text : List Char} (h : Occurs lead.pattern.pieces (pattern.sub redacted text)) :
    Occurs lead.pattern.pieces text := by
  have hmem : lead.pattern ∈ sensitivePatterns tables := List.mem_append_left _ (List.mem_map_of_mem hlead)
  have hinside := fun before u v rest h hv =>
    @not_starts_of_inert tables _ inert_redacted lead.pattern hmem u v h hv before rest
  obtain ⟨a, t, htext, hstarts, -⟩ := (@Pattern.replaces_sub redacted pattern text).occurs (fun _ _ _ => True)
    (fun _ _ => trivial) (fun _ _ _ _ _ _ => trivial) (Pattern.not_starts_nil _) hinside
    (fun _ _ _ _ _ h => starts_lead_of_replaces hpattern hlead h) trivial h
  exact ⟨a, t, htext, hstarts⟩

/-- The leads one behind another: each leaves no match of its own and makes none of those before. -/
theorem not_occurs_foldl {done ahead : List Lead} (hmem : ∀ lead ∈ done ++ ahead, lead ∈ leads) {text : List Char}
    (h : ∀ lead ∈ done, ¬ Occurs lead.pattern.pieces text) :
    ∀ lead ∈ done ++ ahead, ¬ Occurs lead.pattern.pieces
      ((ahead.map Lead.pattern).foldl (fun text pattern => pattern.sub redacted text) text) := by
  induction ahead generalizing done text with
  | nil =>
    rw [List.append_nil]
    exact h
  | cons next ahead ih =>
    have hsplit : done ++ next :: ahead = (done ++ [next]) ++ ahead := by
      rw [List.append_assoc, List.singleton_append]
    have hnext : next.pattern ∈ sensitivePatterns Tables.ascii :=
      List.mem_append_left _ (List.mem_map_of_mem (hmem next (by simp)))
    rw [hsplit] at hmem ⊢
    refine ih hmem fun lead hlead => ?_
    rcases List.mem_append.mp hlead with hdone | hlead
    · exact fun hoccurs => h lead hdone (occurs_of_occurs_sub hnext (hmem lead (by simp [hdone])) hoccurs)
    · rw [List.mem_singleton.mp hlead]
      exact not_occurs_sub hnext

end

/-- **`_sanitize`** leaves no match. -/
theorem not_sensitive_sanitize (tables : Tables) (text : String) :
    ¬ Sensitive tables (sanitize tables text).toList := by
  have haddress : address tables ∈ sensitivePatterns tables := List.mem_append_right _ (List.mem_singleton.mpr rfl)
  rintro ⟨pattern, hpattern, hoccurs⟩
  rw [sanitize, String.toList_ofList, sensitivePatterns, List.foldl_append] at hoccurs
  rcases List.mem_append.mp hpattern with hpattern | hpattern
  · obtain ⟨lead, hlead, rfl⟩ := List.mem_map.mp hpattern
    have hleads : ∀ lead ∈ [] ++ leads, lead ∈ leads := fun _ h => h
    exact not_occurs_foldl hleads nofun lead hlead (occurs_of_occurs_sub haddress hlead hoccurs)
  · rw [List.mem_singleton.mp hpattern] at hoccurs
    exact not_occurs_sub haddress hoccurs

theorem sanitize_empty (tables : Tables) : sanitize tables "" = "" := rfl

/-! ## Texts put together -/

/-- The text ends in a key and its `=` or `:`, and white space. -/
def Open (text : List Char) : Prop :=
  ∃ key ∈ keys, ∃ a u, text = a ++ u ∧ Matches (assigned key).front none u none

theorem not_open_nil : ¬ Open [] := by
  rintro ⟨key, hkey, a, u, hsplit, hu⟩
  obtain ⟨-, rfl⟩ := List.append_eq_nil_iff.mp hsplit.symm
  obtain ⟨k, s, e, s', hsplit, -⟩ := (matches_assigned (key_cases hkey).1).mp hu
  simp at hsplit

/-- Characters that can be part of no match but of a value. -/
def isQuiet (c : Char) : Bool := c ∈ ['\n', ' ', '\'', ',', ']']

/-- Such a character comes first, and then something that can be seen, no `=` and no `:`. -/
def closing (y : List Char) : Bool := y.head?.any isQuiet && (y.dropWhile isSpace).head?.any fun d => !isAssign d

theorem closing_append {y : List Char} (h : closing y = true) (z : List Char) : closing (y ++ z) = true := by
  simp only [closing, Bool.and_eq_true, Option.any_eq_true] at h ⊢
  obtain ⟨⟨c, hc, hquiet⟩, d, hd, hassign⟩ := h
  refine ⟨⟨c, by rw [List.head?_append, hc]; rfl, hquiet⟩, d, ?_, hassign⟩
  have hne : y.dropWhile isSpace ≠ [] := by
    intro hnil
    rw [hnil] at hd
    cases hd
  rw [List.dropWhile_append, List.isEmpty_eq_false_iff.mpr hne, if_neg nofun, List.head?_append, hd]
  rfl

theorem closing_cases {y : List Char} (h : closing y = true) :
    (∃ c z, y = c :: z ∧ isQuiet c = true) ∧
      ∃ s d z, y = s ++ d :: z ∧ (∀ c ∈ s, isSpace c = true) ∧ isSpace d = false ∧ isAssign d = false := by
  simp only [closing, Bool.and_eq_true, Option.any_eq_true, Bool.not_eq_true'] at h
  obtain ⟨⟨c, hc, hquiet⟩, d, hd, hassign⟩ := h
  obtain ⟨z, rfl⟩ := List.head?_eq_some_iff.mp hc
  refine ⟨⟨c, z, rfl, hquiet⟩, ?_⟩
  obtain ⟨rest, hrest⟩ := List.head?_eq_some_iff.mp hd
  refine ⟨(c :: z).takeWhile isSpace, d, rest, ?_, fun e he => List.mem_takeWhile_imp he, ?_, hassign⟩
  · rw [← hrest, List.takeWhile_append_dropWhile]
  · have hnot := List.head?_dropWhile_not isSpace (c :: z)
    rw [hd] at hnot
    exact hnot

theorem isKeyChar_of_isQuiet {c : Char} (h : isQuiet c = true) : isKeyChar c = false := by
  simp only [isQuiet, List.mem_cons, List.not_mem_nil, or_false, decide_eq_true_eq] at h
  rcases h with rfl | rfl | rfl | rfl | rfl <;> rfl

/-- Where what is seen first is no `=` and no `:`, white space and one of them cannot be read. -/
theorem not_assign_of_closing {y : List Char} (h : closing y = true) {s rest : List Char} {e : Char}
    (hy : y = s ++ e :: rest) (hs : ∀ c ∈ s, isSpace c = true) : isAssign e = false := by
  simp only [closing, Bool.and_eq_true, Option.any_eq_true, Bool.not_eq_true'] at h
  obtain ⟨-, d, hd, hassign⟩ := h
  rw [hy, List.dropWhile_append_of_pos hs] at hd
  by_cases he : isSpace e = true
  · by_contra hne
    have hspaces : ∀ c, isSpace c = true → isAssign c = false := by
      intro c hc
      by_contra hassign
      simp only [isAssign, List.mem_cons, List.not_mem_nil, or_false, decide_eq_true_eq, Bool.not_eq_false] at hassign
      rcases hassign with rfl | rfl <;> exact absurd hc (by decide)
    exact hne (hspaces e he)
  · rw [List.dropWhile_cons_of_neg he] at hd
    obtain rfl := Option.some.inj hd
    exact hassign

/-- A key that is cut off has its `=` or `:` in front of the cut. -/
theorem front_of_cut {key : List Piece} (hkey : IsKey key) {f v rest : List Char}
    (hclosing : closing (v ++ rest) = true) (hv : v ≠ [])
    (h : Matches (assigned key).front none (f ++ v) none) : Matches (assigned key).front none f none := by
  obtain ⟨k, s, e, s', hsplit, hk, hs, he, hs'⟩ := (matches_assigned hkey).mp h
  obtain ⟨⟨c, z, hc, hquiet⟩, -⟩ := closing_cases hclosing
  have hcv : c ∈ v := by
    cases v with
    | nil => exact absurd rfl hv
    | cons d v =>
      obtain ⟨rfl, -⟩ := List.cons.inj hc
      exact List.mem_cons_self ..
  rcases List.append_eq_append_iff.mp hsplit with ⟨x, hx, hv'⟩ | ⟨x, hx, hv'⟩
  · -- the cut is in the key
    cases x with
    | nil =>
      rw [List.nil_append] at hv'
      rw [hv', List.append_assoc, List.cons_append] at hclosing
      rw [not_assign_of_closing hclosing rfl hs] at he
      cases he
    | cons d x =>
      rw [hv', List.cons_append, List.cons_append] at hc
      obtain ⟨rfl, -⟩ := List.cons.inj hc
      have hkeyChar := hkey.chars hk d (by rw [hx]; simp)
      rw [isKeyChar_of_isQuiet hquiet] at hkeyChar
      cases hkeyChar
  · rcases List.append_eq_append_iff.mp hv' with ⟨y, hy, hev⟩ | ⟨y, hy, hev⟩
    · -- behind the white space that follows the key
      cases y with
      | nil =>
        rw [List.nil_append] at hev
        rw [← hev, List.cons_append] at hclosing
        rw [not_assign_of_closing hclosing (List.nil_append _).symm nofun] at he
        cases he
      | cons d y =>
        obtain ⟨rfl, rfl⟩ := List.cons.inj hev
        refine (matches_assigned hkey).mpr ⟨k, s, e, y, ?_, hk, hs, he, fun c hc => hs' c (by simp [hc])⟩
        rw [hx, hy]
    · -- in that white space
      have hspaces : ∀ c ∈ y, isSpace c = true := fun c hc => hs c (by rw [hy]; simp [hc])
      rw [hev, List.append_assoc, List.cons_append] at hclosing
      rw [not_assign_of_closing hclosing rfl hspaces] at he
      cases he

/-- A front that reaches up to a closing text, or into it, is that of a key. -/
theorem open_of_cut {lead : Lead} (hlead : lead ∈ leads) {f v rest : List Char} {c : Char}
    (hclosing : closing (v ++ c :: rest) = true) (h : Matches lead.front none (f ++ v) none)
    (hlast : lead.last c = true) : ∃ key ∈ keys, Matches (assigned key).front none f none := by
  rcases List.mem_append.mp hlead with hmem | htag
  · obtain ⟨key, hkey, rfl⟩ := List.mem_map.mp hmem
    refine ⟨key, hkey, ?_⟩
    by_cases hv : v = []
    · rwa [hv, List.append_nil] at h
    · exact front_of_cut (key_cases hkey).1 hclosing hv h
  · have htagged : (∀ u, Matches lead.front none u none → ∀ d ∈ u, isKeyChar d = true) ∧
        lead.last = isAlnumCaseless := by
      rcases List.mem_pair.mp htag with rfl | rfl
      · exact ⟨fun u hu => (isKey_letters (by decide)).chars hu, rfl⟩
      · exact ⟨fun u hu => (isKey_letters (by decide)).chars hu, rfl⟩
    obtain ⟨⟨d, z, hd, hquiet⟩, -⟩ := closing_cases hclosing
    cases v with
    | nil =>
      obtain ⟨rfl, -⟩ := List.cons.inj hd
      rw [htagged.2] at hlast
      have hno : isAlnumCaseless c = false := by
        simp only [isQuiet, List.mem_cons, List.not_mem_nil, or_false, decide_eq_true_eq] at hquiet
        rcases hquiet with rfl | rfl | rfl | rfl | rfl <;> rfl
      rw [hno] at hlast
      cases hlast
    | cons e v =>
      obtain ⟨rfl, -⟩ := List.cons.inj hd
      have hkeyChar := htagged.1 _ h e (by simp)
      rw [isKeyChar_of_isQuiet hquiet] at hkeyChar
      cases hkeyChar

section
variable {tables : Tables} {before before' : Option Char} {f y : List Char}

theorem isWord_of_isQuiet {c : Char} (h : isQuiet c = true) : tables.isWord c = false := by
  have hascii : c.toNat < 128 ∧ c.isAlphanum = false ∧ c ≠ '_' := by
    simp only [isQuiet, List.mem_cons, List.not_mem_nil, or_false, decide_eq_true_eq] at h
    rcases h with rfl | rfl | rfl | rfl | rfl <;> decide
  rw [Tables.isWord, tables.alnum_ascii c hascii.1, hascii.2.1, decide_eq_false hascii.2.2]
  rfl

theorem not_dotted_of_isQuiet {c : Char} (h : isQuiet c = true) : ¬ (tables.isDecimal c = true ∨ c = '.') := by
  rintro (hdecimal | rfl)
  · have hword := @isWord_of_isQuiet tables c h
    rw [isWord_of_isDecimal hdecimal] at hword
    cases hword
  · exact absurd h (by decide)

theorem occursFrom_address (h : before.any tables.isWord = before'.any tables.isWord) :
    OccursFrom (address tables).pieces before f ↔ OccursFrom (address tables).pieces before' f := by
  cases f with
  | nil => rw [occursFrom_nil, occursFrom_nil, starts_address, starts_address, h]
  | cons c f => rw [occursFrom_cons, occursFrom_cons, starts_address, starts_address, h]

theorem occursFrom_address_closing (h : closing y = true) :
    OccursFrom (address tables).pieces before y ↔ Occurs (address tables).pieces y := by
  obtain ⟨⟨c, z, rfl, hquiet⟩, -⟩ := closing_cases h
  have hnot (before : Option Char) : ¬ Starts (address tables).pieces before (c :: z) := by
    rw [starts_address]
    rintro ⟨-, w, rest, hsplit, hw, -⟩
    obtain ⟨d, u, rfl, hdecimal⟩ := hw.head
    obtain ⟨rfl, -⟩ := List.cons.inj hsplit
    exact not_dotted_of_isQuiet hquiet (.inl hdecimal)
  rw [Occurs, occursFrom_cons, occursFrom_cons, or_iff_right (hnot before), or_iff_right (hnot none)]

theorem starts_address_closing (h : closing y = true) :
    Starts (address tables).pieces before (f ++ y) ↔ Starts (address tables).pieces before f := by
  obtain ⟨⟨c, z, rfl, hquiet⟩, -⟩ := closing_cases h
  rw [starts_address, starts_address]
  refine and_congr_right fun _ => ⟨?_, ?_⟩
  · rintro ⟨w, rest, hsplit, hw, hrest⟩
    rcases List.append_eq_append_iff.mp hsplit with ⟨x, rfl, hx⟩ | ⟨x, rfl, hx⟩
    · cases x with
      | nil => exact ⟨f, [], (List.append_nil f).symm, by rwa [List.append_nil] at hw, rfl⟩
      | cons d x =>
        obtain ⟨rfl, -⟩ := List.cons.inj hx
        exact absurd (hw.chars c (by simp)) (not_dotted_of_isQuiet hquiet)
    · refine ⟨w, x, rfl, hw, ?_⟩
      cases x with
      | nil => rfl
      | cons d x =>
        rw [hx] at hrest
        exact hrest
  · rintro ⟨w, rest, rfl, hw, hrest⟩
    refine ⟨w, rest ++ c :: z, List.append_assoc w rest _, hw, ?_⟩
    cases rest with
    | nil => exact isWord_of_isQuiet hquiet
    | cons d rest => exact hrest

theorem occurs_address_closing (h : closing y = true) : Occurs (address tables).pieces (f ++ y) ↔
    Occurs (address tables).pieces f ∨ Occurs (address tables).pieces y := by
  have hnil : ∀ before, ¬ Starts (address tables).pieces before [] := (address tables).not_starts_nil
  have hf := @occursFrom_append (address tables).pieces none f []
  rw [List.append_nil, occursFrom_nil, or_iff_left (hnil _)] at hf
  rw [Occurs, occursFrom_append, occursFrom_address_closing h]
  refine or_congr_left (Iff.trans ?_ hf.symm)
  simp only [starts_address_closing h, List.append_nil]

theorem occurs_lead_closing {lead : Lead} (hlead : lead ∈ leads) (h : closing y = true)
    (hoccurs : Occurs lead.pattern.pieces (f ++ y)) :
    Occurs lead.pattern.pieces f ∨ Open f ∨ Occurs lead.pattern.pieces y := by
  have hregular := regular_of_mem hlead
  rcases occursFrom_append.mp hoccurs with ⟨a, t, rfl, -, hstarts⟩ | hlater
  · obtain ⟨u, c, rest, hsplit, hu, hc⟩ := hregular.starts_iff.mp hstarts
    have hopen (x : List Char) (hx : u = t ++ x) (hy : y = x ++ c :: rest) : Open (a ++ t) := by
      rw [hx] at hu
      rw [hy] at h
      obtain ⟨key, hkey, hfront⟩ := open_of_cut hlead h hu hc
      exact ⟨key, hkey, a, t, rfl, hfront⟩
    rcases List.append_eq_append_iff.mp hsplit with ⟨x, hx, hy⟩ | ⟨x, hx, hy⟩
    · exact .inr (.inl (hopen x hx hy))
    · cases x with
      | nil => exact .inr (.inl (hopen [] (by rw [hx, List.append_nil, List.append_nil]) hy.symm))
      | cons d x =>
        obtain ⟨rfl, -⟩ := List.cons.inj hy
        exact .inl ⟨a, t, rfl, hregular.starts_iff.mpr ⟨u, c, x, hx, hu, hc⟩⟩
  · exact .inr (.inr (hregular.plain_pieces.occursFrom.mp hlater))

theorem occurs_lead_append {lead : Lead} (hlead : lead ∈ leads)
    (h : Occurs lead.pattern.pieces f ∨ Occurs lead.pattern.pieces y) : Occurs lead.pattern.pieces (f ++ y) := by
  have hregular := regular_of_mem hlead
  rcases h with ⟨a, t, rfl, hstarts⟩ | hlater
  · obtain ⟨u, c, rest, rfl, hu, hc⟩ := hregular.starts_iff.mp hstarts
    refine ⟨a, u ++ c :: (rest ++ y), by simp, hregular.starts_iff.mpr ⟨u, c, _, rfl, hu, hc⟩⟩
  · exact occursFrom_append.mpr (.inr (hregular.plain_pieces.occursFrom.mpr hlater))

/-- An open text gives a match, whatever closes it. -/
theorem sensitive_of_open (h : Open f) (hy : closing y = true) : Sensitive tables (f ++ y) := by
  obtain ⟨key, hkey, a, u, rfl, hu⟩ := h
  obtain ⟨-, s, d, z, rfl, hs, hd, -⟩ := closing_cases hy
  have hlead : assigned key ∈ leads := List.mem_append_left _ (List.mem_map_of_mem hkey)
  have hkeyOk := (key_cases hkey).1
  obtain ⟨k, s₁, e, s₂, rfl, hk, hs₁, he, hs₂⟩ := (matches_assigned hkeyOk).mp hu
  refine ⟨_, List.mem_append_left _ (List.mem_map_of_mem hlead), a, k ++ (s₁ ++ e :: s₂) ++ (s ++ d :: z), by simp, ?_⟩
  refine (regular_of_mem hlead).starts_iff.mpr ⟨k ++ (s₁ ++ e :: (s₂ ++ s)), d, z, by simp, ?_, ?_⟩
  · refine (matches_assigned hkeyOk).mpr ⟨k, s₁, e, s₂ ++ s, rfl, hk, hs₁, he, fun c hc => ?_⟩
    exact (List.mem_append.mp hc).elim (hs₂ c) (hs c)
  · show (!isSpace d) = true
    rw [hd]
    rfl

/-- The text contains a match, or it gives one with any text that closes it. -/
def Leaks (tables : Tables) (text : List Char) : Prop := Sensitive tables text ∨ Open text

/-- **A text in front of another** that closes it. -/
theorem sensitive_closing (h : closing y = true) :
    Sensitive tables (f ++ y) ↔ Leaks tables f ∨ Sensitive tables y := by
  constructor
  · rintro ⟨pattern, hpattern, hoccurs⟩
    rcases List.mem_append.mp hpattern with hmem | hmem
    · obtain ⟨lead, hlead, rfl⟩ := List.mem_map.mp hmem
      rcases occurs_lead_closing hlead h hoccurs with hf | hopen | hy
      · exact .inl (.inl ⟨_, hpattern, hf⟩)
      · exact .inl (.inr hopen)
      · exact .inr ⟨_, hpattern, hy⟩
    · obtain rfl := List.mem_singleton.mp hmem
      exact ((occurs_address_closing h).mp hoccurs).imp (fun hf => .inl ⟨_, hpattern, hf⟩) fun hy => ⟨_, hpattern, hy⟩
  · have happend (hpart : Sensitive tables f ∨ Sensitive tables y) : Sensitive tables (f ++ y) := by
      obtain ⟨pattern, hpattern, hoccurs⟩ : ∃ pattern ∈ sensitivePatterns tables,
          Occurs pattern.pieces f ∨ Occurs pattern.pieces y := by
        rcases hpart with ⟨pattern, hpattern, hoccurs⟩ | ⟨pattern, hpattern, hoccurs⟩
        · exact ⟨pattern, hpattern, .inl hoccurs⟩
        · exact ⟨pattern, hpattern, .inr hoccurs⟩
      refine ⟨pattern, hpattern, ?_⟩
      rcases List.mem_append.mp hpattern with hmem | hmem
      · obtain ⟨lead, hlead, rfl⟩ := List.mem_map.mp hmem
        exact occurs_lead_append hlead hoccurs
      · obtain rfl := List.mem_singleton.mp hmem
        exact (occurs_address_closing h).mpr hoccurs
    rintro ((hf | hopen) | hy)
    · exact happend (.inl hf)
    · exact sensitive_of_open hopen h
    · exact happend (.inr hy)

/-- **A fixed text in front of another.** -/
theorem sensitive_inert {t : List Char} (h : inert t = true) : Sensitive tables (t ++ y) ↔ Sensitive tables y := by
  refine exists_congr fun pattern => and_congr_right fun hpattern => ?_
  have hbehind : Occurs pattern.pieces (t ++ y) ↔ OccursFrom pattern.pieces (t.getLast?.or none) y := by
    rw [Occurs, occursFrom_append]
    refine or_iff_right ?_
    rintro ⟨u, v, ht, hv, hstarts⟩
    exact not_starts_of_inert h hpattern ht hv _ y hstarts
  rw [hbehind]
  rcases List.mem_append.mp hpattern with hmem | hmem
  · obtain ⟨lead, hlead, rfl⟩ := List.mem_map.mp hmem
    exact (regular_of_mem hlead).plain_pieces.occursFrom
  · rw [List.mem_singleton.mp hmem]
    exact occursFrom_address (last_of_inert h none)

theorem not_sensitive_nil : ¬ Sensitive tables [] := by
  rintro ⟨pattern, -, hoccurs⟩
  exact pattern.not_starts_nil none (occursFrom_nil.mp hoccurs)

/-- In front of a text that closes it, `p` gives a match when `P` holds. -/
def Yields (tables : Tables) (p : List Char) (P : Prop) : Prop :=
  ∀ y, closing y = true → (Sensitive tables (p ++ y) ↔ P ∨ Sensitive tables y)

theorem yields_value (f : List Char) : Yields tables f (Leaks tables f) := fun _ hy => sensitive_closing hy

theorem yields_fixed {t : List Char} (h : inert t = true) : Yields tables t False := by
  intro y _
  rw [sensitive_inert h, false_or]

theorem Yields.fixed {p t : List Char} {P : Prop} (hp : Yields tables p P) (h : inert t = true) :
    Yields tables (t ++ p) P := by
  intro y hy
  rw [List.append_assoc, sensitive_inert h, hp y hy]

theorem Yields.value {p : List Char} {P : Prop} (hp : Yields tables p P) (h : closing p = true) (f : List Char) :
    Yields tables (f ++ p) (Leaks tables f ∨ P) := by
  intro y hy
  rw [List.append_assoc, sensitive_closing (closing_append h y), hp y hy, or_assoc]

theorem Yields.congr {p : List Char} {P Q : Prop} (hp : Yields tables p P) (h : P ↔ Q) : Yields tables p Q := by
  intro y hy
  rw [hp y hy, h]

/-- Texts with a separator between them, which closes each of them. -/
theorem yields_intercalate {sep : List Char} (hsep : inert sep = true) {parts : List (List Char × Prop)}
    (h : ∀ part ∈ parts, Yields tables part.1 part.2 ∧ ∀ y, closing (sep ++ (part.1 ++ y)) = true) :
    Yields tables (sep.intercalate (parts.map Prod.fst)) (∃ part ∈ parts, part.2) := by
  induction parts with
  | nil =>
    intro y _
    simp [List.intercalate]
  | cons part parts ih =>
    have hfirst := (h part (List.mem_cons_self ..)).1
    have hrest := ih fun part hpart => h part (List.mem_cons_of_mem _ hpart)
    cases parts with
    | nil =>
      rw [List.map_singleton, List.intercalate_singleton]
      exact hfirst.congr (by simp)
    | cons next parts =>
      intro y hy
      have hclosing : closing (sep ++ (sep.intercalate ((next :: parts).map Prod.fst) ++ y)) = true := by
        have hnext := (h next (by simp)).2
        cases parts with
        | nil =>
          rw [List.map_singleton, List.intercalate_singleton]
          exact hnext y
        | cons other parts =>
          rw [List.map_cons, List.map_cons, List.intercalate_cons_cons, List.append_assoc, List.append_assoc]
          exact hnext _
      have hexists : (∃ p ∈ part :: next :: parts, p.2) ↔ part.2 ∨ ∃ p ∈ next :: parts, p.2 :=
        List.exists_mem_cons_iff ..
      rw [List.map_cons, List.map_cons, List.intercalate_cons_cons, ← List.map_cons, List.append_assoc,
        List.append_assoc, hfirst _ hclosing, sensitive_inert hsep, hrest y hy, hexists, or_assoc]

/-- An address has three dots. -/
theorem Dotted.dots {w : List Char} (h : Dotted tables w) : 3 ≤ w.count '.' := by
  obtain ⟨a, r, rfl, -, -, -, hr⟩ := h.word
  obtain ⟨c, r, rfl, hc, b, r', rfl, -, -, -, hr'⟩ := matches_one.mp hr
  obtain ⟨d, r', rfl, hd, e, r'', rfl, -, -, -, hr''⟩ := matches_one.mp hr'
  obtain ⟨f, r'', rfl, hf, -⟩ := matches_one.mp hr''
  obtain rfl : c = '.' := of_decide_eq_true hc
  obtain rfl : d = '.' := of_decide_eq_true hd
  obtain rfl : f = '.' := of_decide_eq_true hf
  simp only [List.count_append, List.count_cons_self]
  omega

/-- A number is no match, and not a part of one. -/
theorem not_leaks_number {text : List Char} (hchars : ∀ c ∈ text, c.isDigit = true ∨ c = '-' ∨ c = '.')
    (hdots : text.count '.' ≤ 2) : ¬ Leaks tables text := by
  have hbegins {u v r : List Char} (htext : text = u ++ (v ++ r)) : ¬ Begins v := by
    rintro ⟨head, hhead, a, b, rfl, ha⟩
    have hletter : ∀ head ∈ heads, ∃ x rest, head = x :: rest ∧
        (caseless x).all (fun c => ¬ (c.isDigit = true ∨ c = '-' ∨ c = '.')) = true := by
      intro head hhead
      obtain ⟨word, hword, rfl⟩ := List.mem_map.mp hhead
      simp only [List.mem_cons, List.not_mem_nil, or_false] at hword
      rcases hword with rfl | rfl | rfl | rfl | rfl | rfl <;> exact ⟨_, _, rfl, by decide⟩
    obtain ⟨x, rest, rfl, hx⟩ := hletter head hhead
    cases ha with
    | cons hc _ => exact of_decide_eq_true (List.all_eq_true.mp hx _ hc) (hchars _ (by rw [htext]; simp))
  rintro (⟨pattern, hpattern, a, t, htext, hstarts⟩ | ⟨key, hkey, a, u, htext, hu⟩)
  · rcases List.mem_append.mp hpattern with hmem | hmem
    · obtain ⟨lead, hlead, rfl⟩ := List.mem_map.mp hmem
      obtain ⟨u, c, rest, rfl, hu, -⟩ := (regular_of_mem hlead).starts_iff.mp hstarts
      exact hbegins htext ((regular_of_mem hlead).begins u hu)
    · rw [List.mem_singleton.mp hmem] at hstarts
      obtain ⟨-, w, rest, rfl, hw, -⟩ := starts_address.mp hstarts
      have hcount := hw.dots
      rw [htext, List.count_append, List.count_append] at hdots
      omega
  · have hlead : assigned key ∈ leads := List.mem_append_left _ (List.mem_map_of_mem hkey)
    rw [← List.append_nil u] at htext
    exact hbegins htext ((regular_of_mem hlead).begins u hu)

end

end Atlas.Agent
