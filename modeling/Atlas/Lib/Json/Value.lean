import Atlas.Lib.Json.Lexer

/-!
# JSON values

* `Value` : a value as it is written, literals unread, members in the order of the text;
* `Value.tokens`, `Value.render` : its tokens, and the text without white space;
* `readValue` : the first value of a byte string, nested at most `depth` deep, and the bytes behind it;
* `readValue_sound`, `readValue_complete` : it finds a value exactly where the value's tokens stand;
* `IsText` : one value and white space;
* `Layout`, `Value.write` : texts with white space behind commas and colons, which read back (`reads_write`).
-/

namespace Json

inductive Value
  | word (w : Word)
  | num (n : NumLit)
  | str (s : StrLit)
  | arr (elements : List Value)
  | obj (members : List (StrLit × Value))

namespace Value

instance : Inhabited Value := ⟨.word .null⟩

/-- Induction over a value: a container from its parts. -/
@[elab_as_elim, induction_eliminator]
theorem induct {P : Value → Prop} (word : ∀ w, P (.word w)) (num : ∀ n, P (.num n)) (str : ∀ s, P (.str s))
    (arr : ∀ elements, (∀ v ∈ elements, P v) → P (.arr elements))
    (obj : ∀ members, (∀ m ∈ members, P m.2) → P (.obj members)) (v : Value) : P v :=
  @Value.rec P (fun vs => ∀ v ∈ vs, P v) (fun ms => ∀ m ∈ ms, P m.2) (fun m => P m.2) word num str arr obj
    (by simp) (by simp; grind) (by simp) (by simp; grind) (fun _ _ h => h) v

end Value

/-- Token lists with a comma between each two. -/
def separated : List (List Token) → List Token
  | [] => []
  | [x] => x
  | x :: y :: rest => x ++ .sym .comma :: separated (y :: rest)

mutual

def Value.tokens : Value → List Token
  | .word w => [.word w]
  | .num n => [.num n]
  | .str s => [.str s]
  | .arr vs => .sym .lbrack :: separated (elementTokens vs) ++ [.sym .rbrack]
  | .obj ms => .sym .lbrace :: separated (memberTokens ms) ++ [.sym .rbrace]

def elementTokens : List Value → List (List Token)
  | [] => []
  | v :: vs => v.tokens :: elementTokens vs

def memberTokens : List (StrLit × Value) → List (List Token)
  | [] => []
  | (k, v) :: ms => (.str k :: .sym .colon :: v.tokens) :: memberTokens ms

end

mutual

/-- How deep the containers of a value are nested. -/
def Value.depth : Value → Nat
  | .word _ => 0
  | .num _ => 0
  | .str _ => 0
  | .arr vs => elementDepth vs + 1
  | .obj ms => memberDepth ms + 1

def elementDepth : List Value → Nat
  | [] => 0
  | v :: vs => max v.depth (elementDepth vs)

def memberDepth : List (StrLit × Value) → Nat
  | [] => 0
  | (_, v) :: ms => max v.depth (memberDepth ms)

end

theorem elementTokens_eq (vs : List Value) : elementTokens vs = vs.map Value.tokens := by
  induction vs with
  | nil => rfl
  | cons v vs ih => rw [elementTokens, ih]; rfl

/-- The tokens of a member. -/
def tokensOfMember (m : StrLit × Value) : List Token := .str m.1 :: .sym .colon :: m.2.tokens

theorem memberTokens_eq (ms : List (StrLit × Value)) : memberTokens ms = ms.map tokensOfMember := by
  induction ms with
  | nil => rfl
  | cons m ms ih => rw [memberTokens, ih]; rfl

theorem elementDepth_le {vs : List Value} {d : Nat} : elementDepth vs ≤ d ↔ ∀ v ∈ vs, v.depth ≤ d := by
  induction vs with
  | nil => simp [elementDepth]
  | cons v vs ih => simp [elementDepth, ih]

theorem memberDepth_le {ms : List (StrLit × Value)} {d : Nat} : memberDepth ms ≤ d ↔ ∀ m ∈ ms, m.2.depth ≤ d := by
  induction ms with
  | nil => simp [memberDepth]
  | cons m ms ih => simp [memberDepth, ih]

theorem length_le_separated_of_mem {x : List Token} {xs : List (List Token)} (h : x ∈ xs) :
    x.length ≤ (separated xs).length := by
  induction xs with
  | nil => cases h
  | cons y xs ih =>
    cases xs with
    | nil => rw [List.mem_singleton.mp h, separated]
    | cons z zs =>
      rw [separated, List.length_append, List.length_cons]
      rcases List.mem_cons.mp h with rfl | h
      · omega
      · have := ih h
        omega

/-- A value has a token for every container around it. -/
theorem Value.depth_le_length (v : Value) : v.depth ≤ v.tokens.length := by
  induction v with
  | word w => exact Nat.zero_le _
  | num n => exact Nat.zero_le _
  | str s => exact Nat.zero_le _
  | arr vs ih =>
    have hparts : elementDepth vs ≤ (separated (elementTokens vs)).length := by
      refine elementDepth_le.mpr fun v hv => (ih v hv).trans (length_le_separated_of_mem ?_)
      rw [elementTokens_eq]
      exact List.mem_map_of_mem hv
    rw [Value.depth, Value.tokens, List.cons_append, List.length_cons, List.length_append]
    omega
  | obj ms ih =>
    have hparts : memberDepth ms ≤ (separated (memberTokens ms)).length := by
      refine memberDepth_le.mpr fun m hm => (ih m hm).trans ?_
      have hmember : tokensOfMember m ∈ memberTokens ms := by
        rw [memberTokens_eq]
        exact List.mem_map_of_mem hm
      have hle := length_le_separated_of_mem hmember
      rw [tokensOfMember, List.length_cons, List.length_cons] at hle
      omega
    rw [Value.depth, Value.tokens, List.cons_append, List.length_cons, List.length_append]
    omega

/-- The value of the last member whose key `p` picks. -/
def lastMember (p : StrLit → Bool) (ms : List (StrLit × Value)) : Option Value :=
  ms.foldl (fun found m => if p m.1 then some m.2 else found) none

theorem lastMember_concat (p : StrLit → Bool) (ms : List (StrLit × Value)) (m : StrLit × Value) :
    lastMember p (ms ++ [m]) = if p m.1 then some m.2 else lastMember p ms := by
  simp [lastMember]

theorem lastMember_isSome {p : StrLit → Bool} {ms : List (StrLit × Value)} :
    (lastMember p ms).isSome ↔ ∃ m ∈ ms, p m.1 = true := by
  induction ms using List.reverseRecOn with
  | nil => simp [lastMember]
  | append_singleton ms m ih =>
    rw [lastMember_concat]
    split_ifs with hp
    · simp only [Option.isSome_some, true_iff]
      exact ⟨m, by simp, hp⟩
    · rw [ih]
      constructor
      · rintro ⟨x, hx, hpx⟩
        exact ⟨x, by simp [hx], hpx⟩
      · rintro ⟨x, hx, hpx⟩
        rcases List.mem_append.mp hx with hx | hx
        · exact ⟨x, hx, hpx⟩
        · rw [List.mem_singleton.mp hx] at hpx
          exact absurd hpx hp

theorem mem_of_lastMember {p : StrLit → Bool} {ms : List (StrLit × Value)} {v : Value} (h : lastMember p ms = some v) :
    ∃ m ∈ ms, p m.1 = true ∧ m.2 = v := by
  induction ms using List.reverseRecOn with
  | nil => simp [lastMember] at h
  | append_singleton ms m ih =>
    rw [lastMember_concat] at h
    split_ifs at h with hp
    · exact ⟨m, by simp, hp, Option.some.inj h⟩
    · obtain ⟨x, hx, hpx, hv⟩ := ih h
      exact ⟨x, by simp [hx], hpx, hv⟩

/-! ## Reading a value -/

section Items

variable {α : Type} (close : Symbol) (item : List UInt8 → Option (α × List UInt8))

/-- One item or more, a comma between each two, and the closing bracket; at most `fuel` items. -/
def readItems : Nat → List UInt8 → Option (List α × List UInt8)
  | 0, _ => none
  | fuel + 1, bs =>
    match item bs with
    | none => none
    | some (a, mid) =>
      match next mid with
      | none => none
      | some (t, rest) =>
        if t = .sym close then some ([a], rest)
        else if t = .sym .comma then (readItems fuel rest).map fun p => (a :: p.1, p.2)
        else none

/-- What stands behind an opening bracket. -/
def readContainer (bs : List UInt8) : Option (List α × List UInt8) :=
  match next bs with
  | none => none
  | some (t, rest) => if t = .sym close then some ([], rest) else readItems close item bs.length bs

end Items

def readMember (value : List UInt8 → Option (Value × List UInt8)) (bs : List UInt8) :
    Option ((StrLit × Value) × List UInt8) :=
  match next bs with
  | some (.str k, mid) =>
    match next mid with
    | some (.sym .colon, rest) => (value rest).map fun p => ((k, p.1), p.2)
    | _ => none
  | _ => none

/-- The first value of a byte string, its containers nested at most `depth` deep. -/
def readValue : Nat → List UInt8 → Option (Value × List UInt8)
  | depth, bs =>
    match next bs with
    | some (.word w, rest) => some (.word w, rest)
    | some (.num n, rest) => some (.num n, rest)
    | some (.str s, rest) => some (.str s, rest)
    | some (.sym .lbrack, rest) =>
      match depth with
      | 0 => none
      | depth + 1 => (readContainer .rbrack (readValue depth) rest).map fun p => (.arr p.1, p.2)
    | some (.sym .lbrace, rest) =>
      match depth with
      | 0 => none
      | depth + 1 => (readContainer .rbrace (readMember (readValue depth)) rest).map fun p => (.obj p.1, p.2)
    | _ => none

section Items

variable {α : Type} {close : Symbol} {item : List UInt8 → Option (α × List UInt8)} {tokens : α → List Token}

theorem reads_singleton {bs rest : List UInt8} {t : Token} : Reads bs [t] rest ↔ next bs = some (t, rest) := by
  simp [reads_cons]

theorem separated_cons (x : List Token) {xs : List (List Token)} (h : xs ≠ []) :
    separated (x :: xs) = x ++ .sym .comma :: separated xs := by
  cases xs with
  | nil => exact absurd rfl h
  | cons y ys => rfl

theorem readItems_sound (hitem : ∀ bs a rest, item bs = some (a, rest) → Reads bs (tokens a) rest) {fuel : Nat}
    {bs rest : List UInt8} {as : List α} (h : readItems close item fuel bs = some (as, rest)) :
    as ≠ [] ∧ Reads bs (separated (as.map tokens) ++ [.sym close]) rest := by
  induction fuel generalizing bs as with
  | zero => cases h
  | succ fuel ih =>
    unfold readItems at h
    split at h
    · cases h
    · rename_i a mid ha
      have hread := hitem _ _ _ ha
      split at h
      · cases h
      · rename_i t tail ht
        split_ifs at h with hclose hcomma
        · obtain ⟨rfl, rfl⟩ := Prod.mk.inj (Option.some.inj h)
          refine ⟨by simp, ?_⟩
          exact reads_append.mpr ⟨mid, hread, reads_singleton.mpr (hclose ▸ ht)⟩
        · obtain ⟨⟨as', r⟩, hitems, heq⟩ := Option.map_eq_some_iff.mp h
          obtain ⟨rfl, rfl⟩ := Prod.mk.inj heq
          obtain ⟨hne, htail⟩ := ih hitems
          refine ⟨by simp, ?_⟩
          rw [List.map_cons, separated_cons _ (by simpa using hne), List.append_assoc]
          exact reads_append.mpr ⟨mid, hread, tail, hcomma ▸ ht, htail⟩

theorem readContainer_sound (hitem : ∀ bs a rest, item bs = some (a, rest) → Reads bs (tokens a) rest)
    {bs rest : List UInt8} {as : List α} (h : readContainer close item bs = some (as, rest)) :
    Reads bs (separated (as.map tokens) ++ [.sym close]) rest := by
  unfold readContainer at h
  split at h
  · cases h
  · rename_i t tail ht
    split_ifs at h with hclose
    · obtain ⟨rfl, rfl⟩ := Prod.mk.inj (Option.some.inj h)
      exact reads_singleton.mpr (hclose ▸ ht)
    · exact (readItems_sound hitem h).2

theorem readItems_complete {as : List α} (hne : as ≠ []) (hclose : close ≠ .comma)
    (hitem : ∀ a ∈ as, ∀ bs rest, Reads bs (tokens a) rest → item bs = some (a, rest)) {fuel : Nat}
    (hfuel : as.length ≤ fuel) {bs rest : List UInt8}
    (h : Reads bs (separated (as.map tokens) ++ [.sym close]) rest) :
    readItems close item fuel bs = some (as, rest) := by
  induction as generalizing bs fuel with
  | nil => exact absurd rfl hne
  | cons a as ih =>
    obtain ⟨fuel, rfl⟩ : ∃ k, fuel = k + 1 := ⟨fuel - 1, by simp at hfuel; omega⟩
    by_cases has : as = []
    · subst has
      obtain ⟨mid, ha, htail⟩ := reads_append.mp h
      rw [readItems, hitem a (by simp) _ _ ha]
      simp only [reads_singleton.mp htail, if_true]
    · rw [List.map_cons, separated_cons _ (by simpa using has), List.append_assoc] at h
      obtain ⟨mid, ha, tail, hcomma, htail⟩ := reads_append.mp h
      have hrest := ih has (fun b hb => hitem b (by simp [hb])) (by simpa using hfuel) htail
      rw [readItems, hitem a (by simp) _ _ ha]
      simp only [hcomma]
      rw [if_neg (by simpa using hclose.symm), if_pos trivial, hrest]
      rfl

theorem length_le_separated (as : List α) (htokens : ∀ a, tokens a ≠ []) :
    as.length ≤ (separated (as.map tokens)).length := by
  induction as with
  | nil => simp
  | cons a as ih =>
    have hpos := List.length_pos_iff.mpr (htokens a)
    by_cases has : as = []
    · subst has
      exact hpos
    · rw [List.map_cons, separated_cons _ (by simpa using has)]
      simp only [List.length_cons, List.length_append]
      omega

theorem Reads.length_le {bs rest : List UInt8} {ts : List Token} (h : Reads bs ts rest) :
    ts.length + rest.length ≤ bs.length := by
  induction ts generalizing bs with
  | nil => simp [reads_nil.mp h]
  | cons t ts ih =>
    obtain ⟨mid, hnext, htail⟩ := h
    have := next_shorter hnext
    have := ih htail
    rw [List.length_cons]
    omega

theorem readContainer_complete {as : List α} (hclose : close ≠ .comma)
    (hitem : ∀ a ∈ as, ∀ bs rest, Reads bs (tokens a) rest → item bs = some (a, rest))
    (hfirst : ∀ a, ∃ t ts, tokens a = t :: ts ∧ t ≠ .sym close) {bs rest : List UInt8}
    (h : Reads bs (separated (as.map tokens) ++ [.sym close]) rest) :
    readContainer close item bs = some (as, rest) := by
  cases as with
  | nil =>
    rw [readContainer, reads_singleton.mp h]
    simp
  | cons a as =>
    have hne : ∀ a, tokens a ≠ [] := fun a => by
      obtain ⟨t, ts, ht, -⟩ := hfirst a
      simp [ht]
    have hfuel : (a :: as).length ≤ bs.length := by
      have h1 := h.length_le
      have h2 := length_le_separated (a :: as) hne
      rw [List.length_append] at h1
      omega
    have hitems := readItems_complete (List.cons_ne_nil a as) hclose hitem hfuel h
    obtain ⟨t, ts, ht, htclose⟩ := hfirst a
    obtain ⟨more, hmore⟩ : ∃ more, separated ((a :: as).map tokens) ++ [.sym close] = t :: more := by
      by_cases has : as = []
      · exact ⟨_, by rw [has, List.map_singleton, separated, ht]; rfl⟩
      · exact ⟨_, by rw [List.map_cons, separated_cons _ (by simpa using has), ht]; rfl⟩
    rw [hmore] at h
    obtain ⟨mid, hnext, -⟩ := h
    rw [readContainer, hnext]
    simp only
    rw [if_neg htclose, hitems]

end Items

theorem readMember_sound {value : List UInt8 → Option (Value × List UInt8)}
    (hvalue : ∀ bs v rest, value bs = some (v, rest) → Reads bs v.tokens rest) (bs : List UInt8) (m : StrLit × Value)
    (rest : List UInt8) (h : readMember value bs = some (m, rest)) : Reads bs (tokensOfMember m) rest := by
  unfold readMember at h
  split at h
  · rename_i k mid hkey
    split at h
    · rename_i tail hcolon
      obtain ⟨⟨v, r⟩, hv, heq⟩ := Option.map_eq_some_iff.mp h
      obtain ⟨rfl, rfl⟩ := Prod.mk.inj heq
      exact ⟨mid, hkey, tail, hcolon, hvalue _ _ _ hv⟩
    · cases h
  · cases h

theorem readMember_complete {value : List UInt8 → Option (Value × List UInt8)} {m : StrLit × Value}
    (hvalue : ∀ bs rest, Reads bs m.2.tokens rest → value bs = some (m.2, rest)) (bs rest : List UInt8)
    (h : Reads bs (tokensOfMember m) rest) : readMember value bs = some (m, rest) := by
  obtain ⟨mid, hkey, tail, hcolon, hv⟩ := h
  rw [readMember, hkey]
  simp only [hcolon]
  rw [hvalue _ _ hv]
  rfl

/-- What `readValue` finds stands at the front of the byte string. -/
theorem readValue_sound (depth : Nat) (bs : List UInt8) (v : Value) (rest : List UInt8)
    (h : readValue depth bs = some (v, rest)) : Reads bs v.tokens rest := by
  induction depth generalizing bs v rest with
  | zero =>
    unfold readValue at h
    split at h <;> try cases h
    all_goals exact reads_singleton.mpr (by assumption)
  | succ depth ih =>
    unfold readValue at h
    split at h
    · rename_i w tail hnext
      cases h
      exact reads_singleton.mpr hnext
    · rename_i n tail hnext
      cases h
      exact reads_singleton.mpr hnext
    · rename_i s tail hnext
      cases h
      exact reads_singleton.mpr hnext
    · rename_i tail hnext
      obtain ⟨⟨vs, r⟩, hvs, heq⟩ := Option.map_eq_some_iff.mp h
      obtain ⟨rfl, rfl⟩ := Prod.mk.inj heq
      rw [Value.tokens, elementTokens_eq]
      exact ⟨tail, hnext, readContainer_sound ih hvs⟩
    · rename_i tail hnext
      obtain ⟨⟨ms, r⟩, hms, heq⟩ := Option.map_eq_some_iff.mp h
      obtain ⟨rfl, rfl⟩ := Prod.mk.inj heq
      rw [Value.tokens, memberTokens_eq]
      exact ⟨tail, hnext, readContainer_sound (readMember_sound ih) hms⟩
    · cases h

theorem Value.first_token (v : Value) (close : Symbol) (h : close = .rbrack ∨ close = .rbrace) :
    ∃ t ts, v.tokens = t :: ts ∧ t ≠ .sym close := by
  have hbrack : close ≠ .lbrack ∧ close ≠ .lbrace := by rcases h with rfl | rfl <;> decide
  cases v with
  | word w => exact ⟨_, _, rfl, by simp⟩
  | num n => exact ⟨_, _, rfl, by simp⟩
  | str s => exact ⟨_, _, rfl, by simp⟩
  | arr vs => exact ⟨_, _, rfl, by simpa using hbrack.1.symm⟩
  | obj ms => exact ⟨_, _, rfl, by simpa using hbrack.2.symm⟩

/-- A value whose tokens stand at the front of a byte string is found, if it is not nested too deep. -/
theorem readValue_complete (v : Value) {depth : Nat} (hdepth : v.depth ≤ depth) (bs rest : List UInt8)
    (h : Reads bs v.tokens rest) : readValue depth bs = some (v, rest) := by
  induction v generalizing depth bs rest with
  | word w => rw [readValue, reads_singleton.mp h]
  | num n => rw [readValue, reads_singleton.mp h]
  | str s => rw [readValue, reads_singleton.mp h]
  | arr vs ih =>
    rw [Value.depth] at hdepth
    obtain ⟨depth, rfl⟩ : ∃ k, depth = k + 1 := ⟨depth - 1, by omega⟩
    rw [Value.tokens, elementTokens_eq] at h
    obtain ⟨mid, hnext, hvs⟩ := h
    have hread : readContainer .rbrack (readValue depth) mid = some (vs, rest) := readContainer_complete (by decide)
      (fun v hv => ih v hv (elementDepth_le.mp (by omega) v hv)) (fun v => v.first_token _ (Or.inl rfl)) hvs
    rw [readValue, hnext]
    simp only
    rw [hread]
    rfl
  | obj ms ih =>
    rw [Value.depth] at hdepth
    obtain ⟨depth, rfl⟩ : ∃ k, depth = k + 1 := ⟨depth - 1, by omega⟩
    rw [Value.tokens, memberTokens_eq] at h
    obtain ⟨mid, hnext, hms⟩ := h
    have hread : readContainer .rbrace (readMember (readValue depth)) mid = some (ms, rest) :=
      readContainer_complete (by decide)
        (fun m hm => readMember_complete (ih m hm (memberDepth_le.mp (by omega) m hm)))
        (fun m => ⟨_, _, rfl, by simp⟩) hms
    rw [readValue, hnext]
    simp only
    rw [hread]
    rfl

/-! ## Texts -/

/-- The text of a value without white space. -/
def Value.render (v : Value) : List UInt8 := v.tokens.flatMap Token.bytes

/-- The byte string is one value, with white space around its tokens and nothing else. -/
def IsText (bs : List UInt8) (v : Value) : Prop := ∃ rest, Reads bs v.tokens rest ∧ Blank rest

theorem notStart_symbol (s : Symbol) (rest : List UInt8) : NotStart IsNumberByte (s.byte :: rest) := by
  apply notStart_cons
  cases s <;> unfold IsNumberByte Decimal.IsDigit IsExpMark Symbol.byte <;> decide

theorem reads_symbol (s : Symbol) (rest : List UInt8) : Reads (s.byte :: rest) [.sym s] rest :=
  reads_singleton.mpr (@next_complete [] rest (.sym s) (fun _ h => nomatch h) trivial)

/-- The white space behind commas and behind colons. -/
structure Layout where
  comma : List UInt8
  colon : List UInt8
  blank : Blank comma ∧ Blank colon

namespace Layout

/-- No white space. -/
def compact : Layout := ⟨[], [], by decide⟩

/-- A space behind each. -/
def spaced : Layout := ⟨[32], [32], by decide⟩

def bytes (l : Layout) : Token → List UInt8
  | .sym .comma => Symbol.comma.byte :: l.comma
  | .sym .colon => Symbol.colon.byte :: l.colon
  | t => t.bytes

theorem compact_bytes : compact.bytes = Token.bytes := by
  funext t
  rcases t with (_ | _ | _ | _ | _ | _) | _ | _ | _ <;> rfl

end Layout

/-- The text of a value in a layout. -/
def Value.write (l : Layout) (v : Value) : List UInt8 := v.tokens.flatMap l.bytes

/-- The texts of the parts, with that of a comma between each two. -/
theorem flatMap_separated (f : Token → List UInt8) (xs : List (List Token)) :
    (separated xs).flatMap f = (f (.sym .comma)).intercalate (xs.map fun x => x.flatMap f) := by
  induction xs with
  | nil => rfl
  | cons x xs ih =>
    cases xs with
    | nil => simp [separated]
    | cons y ys =>
      rw [separated, List.flatMap_append, List.flatMap_cons, ih, List.map_cons, List.map_cons, List.map_cons,
        List.intercalate_cons_cons, List.append_assoc]

/-- White space in front is passed over. -/
theorem Reads.blank {ws bs rest : List UInt8} {ts : List Token} (hws : Blank ws) (hts : ts ≠ [])
    (h : Reads bs ts rest) : Reads (ws ++ bs) ts rest := by
  obtain ⟨t, ts, rfl⟩ := List.exists_cons_of_ne_nil hts
  obtain ⟨mid, hnext, htail⟩ := h
  refine ⟨mid, ?_, htail⟩
  rw [next, List.dropWhile_append_of_pos fun b hb => decide_eq_true (hws b hb)]
  exact hnext

section write
variable (l : Layout)

theorem write_arr (vs : List Value) : (Value.arr vs).write l =
    91 :: ((44 :: l.comma).intercalate (vs.map (Value.write l)) ++ [93]) := by
  rw [Value.write, Value.tokens, elementTokens_eq, List.cons_append, List.flatMap_cons, List.flatMap_append,
    flatMap_separated, List.map_map]
  rfl

/-- The text of an entry. -/
def memberText (m : StrLit × Value) : List UInt8 := (Token.str m.1).bytes ++ 58 :: (l.colon ++ m.2.write l)

theorem write_obj (ms : List (StrLit × Value)) : (Value.obj ms).write l =
    123 :: ((44 :: l.comma).intercalate (ms.map (memberText l)) ++ [125]) := by
  rw [Value.write, Value.tokens, memberTokens_eq, List.cons_append, List.flatMap_cons, List.flatMap_append,
    flatMap_separated, List.map_map]
  rfl

/-- Texts that each read back, put together with commas. -/
theorem reads_separated (xs : List (List Token)) (hne : ∀ x ∈ xs, x ≠ [])
    (hxs : ∀ x ∈ xs, ∀ rest, NotStart IsNumberByte rest → Reads (x.flatMap l.bytes ++ rest) x rest)
    {rest : List UInt8} (hrest : NotStart IsNumberByte rest) :
    Reads ((separated xs).flatMap l.bytes ++ rest) (separated xs) rest := by
  induction xs with
  | nil => exact rfl
  | cons x xs ih =>
    by_cases hnil : xs = []
    · subst hnil
      exact hxs x (by simp) rest hrest
    · have htail := ih (fun y hy => hne y (by simp [hy])) fun y hy => hxs y (by simp [hy])
      have htokens : separated xs ≠ [] := by
        obtain ⟨y, ys, rfl⟩ := List.exists_cons_of_ne_nil hnil
        have hy := hne y (by simp)
        cases ys with
        | nil => exact hy
        | cons z zs => simp [separated]
      rw [separated_cons x hnil, List.flatMap_append, List.append_assoc, reads_append]
      refine ⟨_, hxs x (by simp) _ ?_, l.comma ++ ((separated xs).flatMap l.bytes ++ rest), ?_, ?_⟩
      · exact notStart_symbol .comma _
      · rw [List.flatMap_cons, Layout.bytes, List.cons_append, List.cons_append, List.append_assoc]
        exact reads_singleton.mp (reads_symbol .comma _)
      · exact htail.blank l.blank.1 htokens

theorem reads_enclosed (opening closing : Symbol) (hopening : l.bytes (.sym opening) = [opening.byte])
    (hclosing : l.bytes (.sym closing) = [closing.byte]) (ts : List Token) {rest : List UInt8}
    (h : ∀ more, NotStart IsNumberByte more → Reads (ts.flatMap l.bytes ++ more) ts more) :
    Reads ((Token.sym opening :: ts ++ [Token.sym closing]).flatMap l.bytes ++ rest)
      (Token.sym opening :: ts ++ [Token.sym closing]) rest := by
  have hclose : (Token.sym opening :: ts ++ [Token.sym closing]).flatMap l.bytes ++ rest
      = opening.byte :: (ts.flatMap l.bytes ++ closing.byte :: rest) := by
    simp [hopening, hclosing]
  rw [hclose]
  refine ⟨_, reads_singleton.mp (reads_symbol opening _), reads_append.mpr ⟨_, h _ ?_, reads_symbol closing rest⟩⟩
  exact notStart_symbol closing rest

theorem Value.tokens_ne_nil (v : Value) : v.tokens ≠ [] := by
  obtain ⟨t, ts, ht, -⟩ := v.first_token .rbrack (Or.inl rfl)
  rw [ht]
  exact List.cons_ne_nil t ts

/-- **What is written in a layout reads back.** -/
theorem reads_write (v : Value) {rest : List UInt8} (hrest : NotStart IsNumberByte rest) :
    Reads (v.write l ++ rest) v.tokens rest := by
  induction v generalizing rest with
  | word w =>
    have hnext := @next_complete [] rest (.word w) (fun _ h => nomatch h) trivial
    rw [Value.write, Value.tokens, List.flatMap_singleton]
    exact reads_singleton.mpr hnext
  | num n =>
    have hends : (Token.num n).Ends rest := hrest.mono fun _ hb => NumLit.isNumberByte_of_continues hb
    have hnext := @next_complete [] rest (.num n) (fun _ h => nomatch h) hends
    rw [Value.write, Value.tokens, List.flatMap_singleton]
    exact reads_singleton.mpr hnext
  | str s =>
    have hnext := @next_complete [] rest (.str s) (fun _ h => nomatch h) trivial
    rw [Value.write, Value.tokens, List.flatMap_singleton]
    exact reads_singleton.mpr hnext
  | arr vs ih =>
    rw [Value.write, Value.tokens, elementTokens_eq]
    refine reads_enclosed l .lbrack .rbrack rfl rfl _ fun more hmore => reads_separated l _ ?_ ?_ hmore
    · simpa using fun v _ => v.tokens_ne_nil
    · intro x hx rest hrest
      obtain ⟨v, hv, rfl⟩ := List.mem_map.mp hx
      exact ih v hv hrest
  | obj ms ih =>
    rw [Value.write, Value.tokens, memberTokens_eq]
    refine reads_enclosed l .lbrace .rbrace rfl rfl _ fun more hmore => reads_separated l _ ?_ ?_ hmore
    · intro x hx
      obtain ⟨m, -, rfl⟩ := List.mem_map.mp hx
      exact List.cons_ne_nil _ _
    · intro x hx rest hrest
      obtain ⟨m, hm, rfl⟩ := List.mem_map.mp hx
      have hkey := @next_complete [] (58 :: (l.colon ++ (m.2.write l ++ rest))) (.str m.1) (fun _ h => nomatch h)
        trivial
      have hsplit : (tokensOfMember m).flatMap l.bytes ++ rest
          = [] ++ ((Token.str m.1).bytes ++ 58 :: (l.colon ++ (m.2.write l ++ rest))) := by
        simp [tokensOfMember, Value.write, Layout.bytes, Token.bytes, Symbol.byte]
      rw [hsplit]
      exact ⟨_, hkey, _, reads_singleton.mp (reads_symbol .colon _), (ih m hm hrest).blank l.blank.2 m.2.tokens_ne_nil⟩

end write

theorem render_eq_write (v : Value) : v.render = v.write .compact := by
  rw [Value.render, Value.write, Layout.compact_bytes]

theorem reads_render (v : Value) {rest : List UInt8} (hrest : NotStart IsNumberByte rest) :
    Reads (v.render ++ rest) v.tokens rest := by
  rw [render_eq_write]
  exact reads_write .compact v hrest

end Json
