import Atlas.Lib.Json.Text

/-!
# String literals in ASCII

* `quoteAscii` : the literal of a text as `json.dumps` writes it: whatever is no printable ASCII character is escaped,
  a character beyond U+FFFF as two surrogates; `runes_quoteAscii` : it stands for that text;
* `quoteAscii_eq_iff` : it is the literal with the fewest escapes for the texts whose characters are below U+007F.
-/

namespace Json

theorem isHex_digit (n : Nat) : IsHex (hexByte (n % 16)) := isHex_hexByte (Nat.mod_lt n (by decide))

/-- `\uXXXX` for a code unit. -/
def unitQuad (u : Nat) : HexQuad :=
  ⟨hexByte (u / 4096 % 16), hexByte (u / 256 % 16), hexByte (u / 16 % 16), hexByte (u % 16),
    isHex_digit _, isHex_digit _, isHex_digit _, isHex_digit _⟩

theorem value_unitQuad {u : Nat} (h : u < 0x10000) : (unitQuad u).value = u := by
  unfold HexQuad.value unitQuad
  dsimp only
  rw [hexValue_hexByte (Nat.mod_lt _ (by decide)), hexValue_hexByte (Nat.mod_lt _ (by decide)),
    hexValue_hexByte (Nat.mod_lt _ (by decide)), hexValue_hexByte (Nat.mod_lt _ (by decide))]
  omega

def highSurrogate (c : Char) : Nat := 0xD800 + (c.toNat - 0x10000) / 0x400

def lowSurrogate (c : Char) : Nat := 0xDC00 + (c.toNat - 0x10000) % 0x400

def asciiChar (c : Char) : StrLit :=
  if c.toNat < 127 then (String.utf8EncodeChar c).map escapeByte
  else if c.toNat < 0x10000 then [.uni (unitQuad c.toNat)]
  else [.uni (unitQuad (highSurrogate c)), .uni (unitQuad (lowSurrogate c))]

def quoteAscii (cs : List Char) : StrLit := cs.flatMap asciiChar

/-- The literal of a string. -/
def asciiLit (s : String) : StrLit := quoteAscii s.toList

theorem char_valid (c : Char) : c.toNat < 0xD800 ∨ (0xDFFF < c.toNat ∧ c.toNat < 0x110000) := c.valid

theorem unitRune_char {c : Char} (h : c.toNat < 0x10000) (rest : StrLit) :
    unitRune c.toNat rest = (.char c, false) := by
  have hvalid := char_valid c
  rw [unitRune, dif_neg (by unfold IsHighSurrogate; omega), dif_neg (by unfold IsLowSurrogate; omega),
    Char.ofNat_toNat]

theorem unitRune_surrogates {c : Char} (h : 0x10000 ≤ c.toNat) (rest : StrLit) :
    unitRune (highSurrogate c) (.uni (unitQuad (lowSurrogate c)) :: rest) = (.char c, true) := by
  have hvalid := char_valid c
  have hhigh : IsHighSurrogate (highSurrogate c) := by
    unfold IsHighSurrogate highSurrogate
    omega
  have hlow : IsLowSurrogate (lowSurrogate c) := by
    unfold IsLowSurrogate lowSurrogate
    omega
  have hvalue : (unitQuad (lowSurrogate c)).value = lowSurrogate c := value_unitQuad (by
    unfold IsLowSurrogate at hlow
    omega)
  have hchar : 0x10000 + (highSurrogate c - 0xD800) * 0x400 + (lowSurrogate c - 0xDC00) = c.toNat := by
    unfold highSurrogate lowSurrogate
    omega
  rw [unitRune, dif_pos hhigh, lowSurrogate?, hvalue, if_pos hlow]
  dsimp only
  rw [hchar, Char.ofNat_toNat]

theorem runes_asciiChar (c : Char) (rest : StrLit) : runes (asciiChar c ++ rest) = .char c :: runes rest := by
  have hvalid := char_valid c
  unfold asciiChar
  split_ifs with hascii hunit
  · exact runes_encodeChar c rest
  · rw [List.singleton_append, runes, value_unitQuad hunit, unitRune_char hunit]
    rfl
  · have hhigh : highSurrogate c < 0x10000 := by
      unfold highSurrogate
      omega
    rw [List.cons_append, List.singleton_append, runes, value_unitQuad hhigh, unitRune_surrogates (by omega)]
    rfl

/-- A text in ASCII stands for itself. -/
theorem runes_quoteAscii (cs : List Char) : runes (quoteAscii cs) = cs.map .char := by
  induction cs with
  | nil => rw [quoteAscii, List.flatMap_nil, runes]; rfl
  | cons c cs ih =>
    rw [quoteAscii, List.flatMap_cons, ← quoteAscii, runes_asciiChar, ih]
    rfl

theorem runes_asciiLit (s : String) : runes (asciiLit s) = s.toList.map .char := runes_quoteAscii s.toList

/-! ## Two ways to quote -/

/-- Every character is below U+007F. -/
def IsAscii (s : String) : Prop := ∀ c ∈ s.toList, c.toNat < 127

instance (s : String) : Decidable (IsAscii s) := List.decidableBAll (fun c : Char => c.toNat < 127) s.toList

theorem encodeChar_of_ascii {c : Char} (h : c.toNat < 0x80) :
    ∃ b : UInt8, String.utf8EncodeChar c = [b] ∧ b.toNat = c.toNat := by
  have hbyte : (UInt8.ofNat c.toNat).toNat = c.toNat := by
    rw [UInt8.toNat_ofNat']
    omega
  refine ⟨UInt8.ofNat c.toNat, ?_, hbyte⟩
  have hencode := @Utf8.encodeChar_ofNat (UInt8.ofNat c.toNat) (by omega)
  rwa [hbyte, Char.ofNat_toNat] at hencode

/-- No byte of an ASCII literal from 127 on stands for itself. -/
theorem plain_asciiChar {c : Char} {b : UInt8} {hb : IsPlain b} (h : Piece.plain b hb ∈ asciiChar c) :
    b.toNat < 127 := by
  unfold asciiChar at h
  split_ifs at h with hascii hunit
  · obtain ⟨a, ha, hvalue⟩ := encodeChar_of_ascii (show c.toNat < 0x80 by omega)
    rw [ha, List.map_singleton, List.mem_singleton] at h
    by_cases hplain : IsPlain a
    · rw [escapeByte_plain hplain] at h
      rw [(Piece.plain.inj h)]
      omega
    · unfold escapeByte at h
      rw [dif_neg hplain] at h
      split_ifs at h
  · simp at h
  · simp at h

/-- A character from U+007F on has such a byte. -/
theorem exists_plain {c : Char} (h : 127 ≤ c.toNat) :
    ∃ (b : UInt8) (hb : IsPlain b), Piece.plain b hb ∈ (String.utf8EncodeChar c).map escapeByte ∧ 127 ≤ b.toNat := by
  have hplain : ∀ b : UInt8, 127 ≤ b.toNat → IsPlain b := by
    intro b hb
    refine ⟨by omega, ?_, ?_⟩ <;> rintro rfl <;> exact absurd hb (by decide)
  obtain ⟨n, hn, hge⟩ : ∃ n ∈ Utf8.codeBytes c.toNat, 127 ≤ n := by
    unfold Utf8.codeBytes
    split_ifs
    all_goals exact ⟨_, List.mem_cons_self .., by omega⟩
  rw [← Utf8.map_toNat_encodeChar] at hn
  obtain ⟨b, hmem, rfl⟩ := List.mem_map.mp hn
  exact ⟨b, hplain b hge, List.mem_map.mpr ⟨b, hmem, escapeByte_plain _⟩, hge⟩

theorem quoteAscii_eq_iff (cs : List Char) : quote cs = quoteAscii cs ↔ ∀ c ∈ cs, c.toNat < 127 := by
  constructor
  · intro h c hc
    by_contra hhigh
    obtain ⟨b, hb, hmem, hge⟩ := exists_plain (not_lt.mp hhigh)
    have hquote : Piece.plain b hb ∈ quote cs := by
      rw [quote, Utf8.encode, List.map_flatMap]
      exact List.mem_flatMap.mpr ⟨c, hc, hmem⟩
    rw [h] at hquote
    obtain ⟨d, -, hd⟩ := List.mem_flatMap.mp hquote
    have := plain_asciiChar hd
    omega
  · intro h
    rw [quote, Utf8.encode, List.map_flatMap, quoteAscii]
    refine List.flatMap_congr fun c hc => ?_
    rw [asciiChar, if_pos (h c hc)]

theorem asciiLit_eq_iff (s : String) : lit s = asciiLit s ↔ IsAscii s := quoteAscii_eq_iff s.toList

end Json
