import Atlas.Lib.Json.Ascii
import Atlas.Lib.Json.Data

/-!
# JSON on one line

* `OneLine` : the bytes of a text without line breaks;
* `Value.OnLine` : every token is such a text; `onLine_str`, `onLine_num`, `onLine_arr`, `onLine_obj`;
* `exists_line` : an object written with a space behind commas and colons, as a line of text;
* `onLine_write` : data whose texts are quoted.
-/

namespace Json

def IsBreak (c : Char) : Prop := c = '\n' ∨ c = '\r'

instance (c : Char) : Decidable (IsBreak c) := inferInstanceAs (Decidable (_ ∨ _))

def OneLine (bs : List UInt8) : Prop := ∃ cs, Utf8.encode cs = bs ∧ ∀ c ∈ cs, ¬ IsBreak c

theorem OneLine.append {bs cs : List UInt8} (hbs : OneLine bs) (hcs : OneLine cs) : OneLine (bs ++ cs) := by
  obtain ⟨xs, rfl, hxs⟩ := hbs
  obtain ⟨ys, rfl, hys⟩ := hcs
  refine ⟨xs ++ ys, Utf8.encode_append xs ys, fun c hc => ?_⟩
  exact (List.mem_append.mp hc).elim (hxs c) (hys c)

theorem oneLine_flatMap {α : Type} {f : α → List UInt8} {xs : List α} (h : ∀ x ∈ xs, OneLine (f x)) :
    OneLine (xs.flatMap f) := by
  induction xs with
  | nil => exact ⟨[], rfl, by simp⟩
  | cons x xs ih =>
    rw [List.flatMap_cons]
    exact (h x (by simp)).append (ih fun y hy => h y (by simp [hy]))

theorem toNat_ofNat_byte {b : UInt8} (hb : b.toNat < 128) : (Char.ofNat b.toNat).toNat = b.toNat := by
  rw [Char.ofNat, dif_pos (Or.inl (by omega))]
  rfl

theorem oneLine_ascii {bs : List UInt8} (h : ∀ b ∈ bs, 32 ≤ b.toNat ∧ b.toNat < 128) : OneLine bs := by
  have hbyte : ∀ b ∈ bs, OneLine [b] := by
    intro b hb
    obtain ⟨hlow, hhigh⟩ := h b hb
    refine ⟨[Char.ofNat b.toNat], ?_, fun c hc hbreak => ?_⟩
    · rw [Utf8.encode_cons, Utf8.encodeChar_ofNat hhigh]
      rfl
    · have hc := List.mem_singleton.mp hc
      have htoNat := toNat_ofNat_byte hhigh
      rw [← hc] at htoNat
      rcases hbreak with rfl | rfl
      · rw [← htoNat] at hlow
        exact absurd hlow (by decide)
      · rw [← htoNat] at hlow
        exact absurd hlow (by decide)
  have hsplit : bs = bs.flatMap fun b => [b] := by simp
  rw [hsplit]
  exact oneLine_flatMap hbyte

theorem ascii_of_all {bs : List UInt8} (h : bs.all (fun b => 32 ≤ b.toNat ∧ b.toNat < 128) = true) :
    ∀ b ∈ bs, 32 ≤ b.toNat ∧ b.toNat < 128 :=
  fun b hb => of_decide_eq_true (List.all_eq_true.mp h b hb)

theorem oneLine_of_all {bs : List UInt8} (h : bs.all (fun b => 32 ≤ b.toNat ∧ b.toNat < 128) = true) : OneLine bs :=
  oneLine_ascii (ascii_of_all h)

/-! ## Tokens -/

theorem oneLine_sym (s : Symbol) : OneLine (Token.sym s).bytes := by
  apply oneLine_of_all
  cases s <;> decide

theorem oneLine_word (w : Word) : OneLine (Token.word w).bytes := by
  apply oneLine_of_all
  cases w <;> decide

/-- A number is written in ASCII. -/
theorem ascii_num (n : NumLit) : ∀ b ∈ n.bytes, 32 ≤ b.toNat ∧ b.toNat < 128 := by
  obtain ⟨neg, int, frac, exp⟩ := n
  have hdigits (d : Digits) : ∀ b ∈ d.bytes, 32 ≤ b.toNat ∧ b.toNat < 128 := by
    intro b hb
    have := d.isDigit b hb
    unfold Decimal.IsDigit at this
    omega
  have hneg : ∀ b ∈ negBytes neg, 32 ≤ b.toNat ∧ b.toNat < 128 := ascii_of_all (by cases neg <;> decide)
  have hint : ∀ b ∈ int.bytes, 32 ≤ b.toNat ∧ b.toNat < 128 := by
    cases int with
    | zero => exact ascii_of_all (by decide)
    | pos digits h => exact hdigits digits
  have hfrac : ∀ b ∈ fracBytes frac, 32 ≤ b.toNat ∧ b.toNat < 128 := by
    cases frac with
    | none => exact ascii_of_all (by decide)
    | some digits => exact List.forall_mem_cons.mpr ⟨by decide, hdigits digits⟩
  have hexp : ∀ b ∈ expBytes exp, 32 ≤ b.toNat ∧ b.toNat < 128 := by
    cases exp with
    | none => exact ascii_of_all (by decide)
    | some e =>
      have hsign : ∀ b ∈ signBytes e.sign, 32 ≤ b.toNat ∧ b.toNat < 128 :=
        ascii_of_all (by rcases e.sign with _ | _ | _ <;> decide)
      refine List.forall_mem_cons.mpr ⟨by split_ifs <;> decide, ?_⟩
      exact List.forall_mem_append.mpr ⟨hsign, hdigits e.digits⟩
  exact List.forall_mem_append.mpr ⟨hneg, List.forall_mem_append.mpr ⟨hint,
    List.forall_mem_append.mpr ⟨hfrac, hexp⟩⟩⟩

theorem oneLine_num (n : NumLit) : OneLine (Token.num n).bytes := oneLine_ascii (ascii_num n)

/-- A byte that is escaped is written in ASCII. -/
theorem ascii_escape {b : UInt8} (h : ¬ IsPlain b) : ∀ c ∈ (escapeByte b).bytes, 32 ≤ c.toNat ∧ c.toNat < 128 := by
  have hhex : ∀ n, n < 16 → 32 ≤ (hexByte n).toNat ∧ (hexByte n).toNat < 128 := by decide
  have hhigh := hhex _ (Nat.mod_lt (b.toNat / 16) (by decide))
  have hlow := hhex _ (Nat.mod_lt b.toNat (by decide))
  unfold escapeByte
  rw [dif_neg h]
  split_ifs
  -- seven short escapes, and the one that writes the byte in hexadecimal
  iterate 7 exact ascii_of_all (by decide)
  intro c hc
  simp only [Piece.bytes, List.mem_cons, List.not_mem_nil, or_false] at hc
  rcases hc with rfl | rfl | rfl | rfl | rfl | rfl
  all_goals first | exact hhigh | exact hlow | decide

theorem oneLine_escape {b : UInt8} (h : ¬ IsPlain b) : OneLine (escapeByte b).bytes := oneLine_ascii (ascii_escape h)

theorem oneLine_escapeChar (c : Char) :
    OneLine (((String.utf8EncodeChar c).map escapeByte).flatMap Piece.bytes) := by
  rcases encodeChar_cases c with hall | ⟨a, ha, hescaped, -⟩
  · refine ⟨[c], by rw [pieces_plain hall, Utf8.encode_cons, Utf8.encode_nil, List.append_nil], fun d hd hbreak => ?_⟩
    obtain rfl := List.mem_singleton.mp hd
    rcases hbreak with rfl | rfl
    · exact absurd (hall 10 (by decide)) (by decide)
    · exact absurd (hall 13 (by decide)) (by decide)
  · rw [ha, List.map_singleton, List.flatMap_singleton]
    exact oneLine_escape hescaped

theorem oneLine_quote (cs : List Char) : OneLine (Token.str (quote cs)).bytes := by
  have hmark : OneLine [34] := oneLine_of_all (by decide)
  have hpieces : OneLine ((quote cs).flatMap Piece.bytes) := by
    induction cs with
    | nil => exact ⟨[], rfl, by simp⟩
    | cons c cs ih =>
      rw [quote_cons, List.flatMap_append]
      exact (oneLine_escapeChar c).append ih
  exact hmark.append (hpieces.append hmark)

/-! ## Values -/

/-- No token breaks the line. -/
def Value.OnLine (v : Value) : Prop := ∀ t ∈ v.tokens, OneLine t.bytes

theorem mem_separated {t : Token} {xs : List (List Token)} (h : t ∈ separated xs) :
    t = .sym .comma ∨ ∃ x ∈ xs, t ∈ x := by
  induction xs with
  | nil => simp [separated] at h
  | cons x xs ih =>
    by_cases hnil : xs = []
    · subst hnil
      exact .inr ⟨x, by simp, h⟩
    · rw [separated_cons x hnil, List.mem_append, List.mem_cons] at h
      rcases h with h | rfl | h
      · exact .inr ⟨x, by simp, h⟩
      · exact .inl rfl
      · refine (ih h).imp id ?_
        rintro ⟨y, hy, ht⟩
        exact ⟨y, by simp [hy], ht⟩

theorem oneLine_separated {xs : List (List Token)} (h : ∀ x ∈ xs, ∀ t ∈ x, OneLine t.bytes) :
    ∀ t ∈ separated xs, OneLine t.bytes := by
  intro t ht
  rcases mem_separated ht with rfl | ⟨x, hx, ht⟩
  · exact oneLine_sym .comma
  · exact h x hx t ht

theorem onLine_str (cs : List Char) : (Value.str (quote cs)).OnLine := by
  intro t ht
  rw [List.mem_singleton.mp ht]
  exact oneLine_quote cs

theorem onLine_num (n : NumLit) : (Value.num n).OnLine := by
  intro t ht
  rw [List.mem_singleton.mp ht]
  exact oneLine_num n

theorem onLine_arr {vs : List Value} (h : ∀ v ∈ vs, v.OnLine) : (Value.arr vs).OnLine := by
  have hinner : ∀ t ∈ separated (elementTokens vs), OneLine t.bytes := by
    apply oneLine_separated
    rw [elementTokens_eq]
    intro x hx
    obtain ⟨v, hv, rfl⟩ := List.mem_map.mp hx
    exact h v hv
  intro t ht
  rw [Value.tokens, List.cons_append, List.mem_cons, List.mem_append, List.mem_singleton] at ht
  rcases ht with rfl | ht | rfl
  · exact oneLine_sym .lbrack
  · exact hinner t ht
  · exact oneLine_sym .rbrack

theorem oneLine_members {ms : List (StrLit × Value)} (hkeys : ∀ m ∈ ms, OneLine (Token.str m.1).bytes)
    (h : ∀ m ∈ ms, m.2.OnLine) : ∀ t ∈ separated (memberTokens ms), OneLine t.bytes := by
  apply oneLine_separated
  rw [memberTokens_eq]
  intro x hx t ht
  obtain ⟨m, hm, rfl⟩ := List.mem_map.mp hx
  rw [tokensOfMember, List.mem_cons, List.mem_cons] at ht
  rcases ht with rfl | rfl | ht
  · exact hkeys m hm
  · exact oneLine_sym .colon
  · exact h m hm t ht

theorem onLine_obj {ms : List (StrLit × Value)} (hkeys : ∀ m ∈ ms, OneLine (Token.str m.1).bytes)
    (h : ∀ m ∈ ms, m.2.OnLine) : (Value.obj ms).OnLine := by
  intro t ht
  rw [Value.tokens, List.cons_append, List.mem_cons, List.mem_append, List.mem_singleton] at ht
  rcases ht with rfl | ht | rfl
  · exact oneLine_sym .lbrace
  · exact oneLine_members hkeys h t ht
  · exact oneLine_sym .rbrace

/-- An object is written between its braces, without a line break. -/
theorem exists_line {ms : List (StrLit × Value)} (hkeys : ∀ m ∈ ms, OneLine (Token.str m.1).bytes)
    (h : ∀ m ∈ ms, m.2.OnLine) :
    ∃ cs, Utf8.encode ('{' :: (cs ++ ['}'])) = (Value.obj ms).write .spaced ∧ ∀ c ∈ cs, ¬ IsBreak c := by
  have hspaced : ∀ t : Token, OneLine t.bytes → OneLine (Layout.spaced.bytes t) := by
    intro t ht
    have hseparator : ∀ b : UInt8, b = 44 ∨ b = 58 → OneLine [b, 32] := by
      rintro b (rfl | rfl) <;> exact oneLine_of_all (by decide)
    unfold Layout.bytes
    split
    · exact hseparator _ (.inl rfl)
    · exact hseparator _ (.inr rfl)
    · exact ht
  obtain ⟨cs, hcs, hbreak⟩ := oneLine_flatMap fun t ht => hspaced t (oneLine_members hkeys h t ht)
  refine ⟨cs, ?_, hbreak⟩
  rw [Utf8.encode_cons, Utf8.encode_append, hcs, Value.write, Value.tokens, List.flatMap_append, List.flatMap_cons,
    List.append_assoc]
  rfl

theorem oneLine_asciiLit (s : String) : OneLine (Token.str (asciiLit s)).bytes := by
  have hmark : OneLine [34] := oneLine_of_all (by decide)
  have hunit (u : Nat) : OneLine (Piece.uni (unitQuad u)).bytes := by
    have hhex : ∀ n, n < 16 → 32 ≤ (hexByte n).toNat ∧ (hexByte n).toNat < 128 := by decide
    have hdigit (n : Nat) := hhex (n % 16) (Nat.mod_lt n (by decide))
    apply oneLine_ascii
    intro b hb
    simp only [Piece.bytes, unitQuad, List.mem_cons, List.not_mem_nil, or_false] at hb
    rcases hb with rfl | rfl | rfl | rfl | rfl | rfl
    · decide
    · decide
    all_goals exact hdigit _
  have hpieces : OneLine ((asciiLit s).flatMap Piece.bytes) := by
    rw [asciiLit, quoteAscii, List.flatMap_assoc]
    apply oneLine_flatMap
    intro c _
    unfold asciiChar
    split_ifs
    · exact oneLine_escapeChar c
    · rw [List.flatMap_singleton]
      exact hunit _
    · rw [List.flatMap_cons, List.flatMap_singleton]
      exact (hunit _).append (hunit _)
  exact hmark.append (hpieces.append hmark)

/-- Data are written on one line, if their texts are. -/
theorem onLine_write {q : String → StrLit} (hq : ∀ s, OneLine (Token.str (q s)).bytes) (d : Data) :
    (d.write q).OnLine := by
  induction d with
  | word w =>
    intro t ht
    rw [List.mem_singleton.mp ht]
    exact oneLine_word w
  | num n => exact onLine_num n
  | text s =>
    intro t ht
    rw [List.mem_singleton.mp ht]
    exact hq s
  | list items ih =>
    rw [Data.write_list]
    exact onLine_arr (List.forall_mem_map.mpr ih)
  | dict items ih =>
    rw [Data.write_dict]
    exact onLine_obj (List.forall_mem_map.mpr fun e _ => hq e.1) (List.forall_mem_map.mpr ih)

/-- A value on one line is written in well-formed UTF-8. -/
theorem Value.OnLine.valid {v : Value} (h : v.OnLine) : Utf8.Valid v.render := by
  obtain ⟨cs, hcs, -⟩ := oneLine_flatMap h
  exact (Utf8.valid_iff _).mpr ⟨cs, hcs.symm⟩

end Json
