import Atlas.Lib.Json.Value
import Atlas.Lib.Utf8

/-!
# The text of a string literal

* `runes` : what a string literal stands for: characters, and the surrogates and bytes that make none;
* `quote` : the literal of a text, with the fewest escapes; `runes_quote` : it stands for that text.
-/

namespace Json

def IsHighSurrogate (u : Nat) : Prop := 0xD800 ≤ u ∧ u < 0xDC00

instance (u : Nat) : Decidable (IsHighSurrogate u) := inferInstanceAs (Decidable (_ ∧ _))

def IsLowSurrogate (u : Nat) : Prop := 0xDC00 ≤ u ∧ u < 0xE000

instance (u : Nat) : Decidable (IsLowSurrogate u) := inferInstanceAs (Decidable (_ ∧ _))

/-- A character, an escaped surrogate without its other half, or a byte that is not part of a character. -/
inductive Rune
  | char (c : Char)
  | surrogate (u : Nat) (h : IsHighSurrogate u ∨ IsLowSurrogate u)
  | broken (b : UInt8)
  deriving DecidableEq

def Escape.char : Escape → Char
  | quote => '"'
  | backslash => '\\'
  | slash => '/'
  | backspace => Char.ofNat 8
  | formFeed => Char.ofNat 12
  | newline => '\n'
  | carriageReturn => '\r'
  | tab => '\t'

def hexValue (b : UInt8) : Nat :=
  if b.toNat ≤ 57 then b.toNat - 48 else if b.toNat ≤ 70 then b.toNat - 55 else b.toNat - 87

def HexQuad.value (q : HexQuad) : Nat :=
  ((hexValue q.a * 16 + hexValue q.b) * 16 + hexValue q.c) * 16 + hexValue q.d

/-- The low surrogate escaped at the front of a literal. -/
def lowSurrogate? : StrLit → Option Nat
  | .uni q :: _ => if IsLowSurrogate q.value then some q.value else none
  | _ => none

/-- The bytes in front of the first escape. -/
def plainFront : StrLit → List UInt8
  | .plain b _ :: rest => b :: plainFront rest
  | _ => []

/-- What an escaped code unit stands for, and whether it takes the escape behind it for its other half. -/
def unitRune (u : Nat) (rest : StrLit) : Rune × Bool :=
  if h : IsHighSurrogate u then
    match lowSurrogate? rest with
    | some l => (.char (Char.ofNat (0x10000 + (u - 0xD800) * 0x400 + (l - 0xDC00))), true)
    | none => (.surrogate u (Or.inl h), false)
  else if h : IsLowSurrogate u then (.surrogate u (Or.inr h), false)
  else (.char (Char.ofNat u), false)

def runes : StrLit → List Rune
  | [] => []
  | .esc e :: rest => .char e.char :: runes rest
  | .uni q :: rest => (unitRune q.value rest).1 :: runes (rest.drop (if (unitRune q.value rest).2 then 1 else 0))
  | .plain b h :: rest =>
    match Utf8.head? (plainFront (.plain b h :: rest)) with
    | some c => .char c :: runes ((.plain b h :: rest).drop c.utf8Size)
    | none => .broken b :: runes rest
  termination_by s => s.length
  decreasing_by
    · simp
    · simp only [List.length_drop, List.length_cons]
      omega
    · have := c.utf8Size_pos
      simp only [List.length_drop, List.length_cons]
      omega
    · simp

/-! ## Quoting -/

def hexByte (n : Nat) : UInt8 := if n < 10 then UInt8.ofNat (48 + n) else UInt8.ofNat (87 + n)

theorem isHex_hexByte {n : Nat} (h : n < 16) : IsHex (hexByte n) := by
  interval_cases n <;> decide

theorem hexValue_hexByte {n : Nat} (h : n < 16) : hexValue (hexByte n) = n := by
  interval_cases n <;> rfl

/-- How a byte of a text is written. -/
def escapeByte (b : UInt8) : Piece :=
  if h : IsPlain b then .plain b h
  else if b = 34 then .esc .quote
  else if b = 92 then .esc .backslash
  else if b = 8 then .esc .backspace
  else if b = 9 then .esc .tab
  else if b = 10 then .esc .newline
  else if b = 12 then .esc .formFeed
  else if b = 13 then .esc .carriageReturn
  else .uni ⟨48, 48, hexByte (b.toNat / 16 % 16), hexByte (b.toNat % 16), by decide, by decide,
    isHex_hexByte (Nat.mod_lt _ (by decide)), isHex_hexByte (Nat.mod_lt _ (by decide))⟩

/-- The literal of a text: quotes, backslashes and control characters escaped, everything else as it is. -/
def quote (cs : List Char) : StrLit := (Utf8.encode cs).map escapeByte

theorem runes_escapeByte {b : UInt8} (h : ¬ IsPlain b) (rest : StrLit) :
    runes (escapeByte b :: rest) = .char (Char.ofNat b.toNat) :: runes rest := by
  unfold escapeByte
  rw [dif_neg h]
  split_ifs with h34 h92 h8 h9 h10 h12 h13
  · rw [runes, h34]; rfl
  · rw [runes, h92]; rfl
  · rw [runes, h8]; rfl
  · rw [runes, h9]; rfl
  · rw [runes, h10]; rfl
  · rw [runes, h12]; rfl
  · rw [runes, h13]; rfl
  · have hlow : b.toNat < 32 := by
      by_contra hge
      exact h ⟨by omega, h34, h92⟩
    have hval : HexQuad.value ⟨48, 48, hexByte (b.toNat / 16 % 16), hexByte (b.toNat % 16), by decide, by decide,
        isHex_hexByte (Nat.mod_lt _ (by decide)), isHex_hexByte (Nat.mod_lt _ (by decide))⟩ = b.toNat := by
      rw [HexQuad.value, hexValue_hexByte (Nat.mod_lt _ (by decide)), hexValue_hexByte (Nat.mod_lt _ (by decide))]
      have hzero : hexValue 48 = 0 := rfl
      rw [hzero]
      omega
    have hunit : unitRune b.toNat rest = (.char (Char.ofNat b.toNat), false) := by
      rw [unitRune, dif_neg (by unfold IsHighSurrogate; omega), dif_neg (by unfold IsLowSurrogate; omega)]
    rw [runes, hval, hunit]
    rfl

theorem escapeByte_plain {b : UInt8} (h : IsPlain b) : escapeByte b = .plain b h := dif_pos h

theorem plainFront_map {bs : List UInt8} (h : ∀ b ∈ bs, IsPlain b) (rest : StrLit) :
    plainFront (bs.map escapeByte ++ rest) = bs ++ plainFront rest := by
  induction bs with
  | nil => rfl
  | cons b bs ih =>
    have htail := ih fun x hx => h x (by simp [hx])
    rw [List.map_cons, List.cons_append, escapeByte_plain (h b (by simp)), plainFront, htail]
    rfl

/-- A character stands for itself, or is a byte that is escaped. -/
theorem encodeChar_cases (c : Char) : (∀ b ∈ String.utf8EncodeChar c, IsPlain b) ∨
    ∃ b, String.utf8EncodeChar c = [b] ∧ ¬ IsPlain b ∧ b.toNat < 0x80 ∧ Char.ofNat b.toNat = c := by
  rcases Utf8.encodeChar_ascii c with ⟨b, hb⟩ | hhigh
  · by_cases hplain : IsPlain b
    · exact .inl (by simpa [hb] using hplain)
    · have hascii : b.toNat < 0x80 := by
        by_contra hge
        refine hplain ⟨by omega, ?_, ?_⟩ <;> rintro rfl <;> simp at hge
      exact .inr ⟨b, hb, hplain, hascii, Utf8.encodeChar_injective (by rw [Utf8.encodeChar_ofNat hascii, hb])⟩
  · refine .inl fun b hb => ⟨?_, ?_, ?_⟩
    · have := hhigh b hb
      omega
    · rintro rfl
      exact absurd (hhigh _ hb) (by decide)
    · rintro rfl
      exact absurd (hhigh _ hb) (by decide)

theorem runes_encodeChar (c : Char) (rest : StrLit) :
    runes ((String.utf8EncodeChar c).map escapeByte ++ rest) = .char c :: runes rest := by
  rcases encodeChar_cases c with hall | ⟨a, ha, hescaped, -, hc⟩
  · have hhead := Utf8.head?_encodeChar_append c (plainFront rest)
    rw [← plainFront_map hall rest] at hhead
    obtain ⟨b, bs, hb⟩ := List.exists_cons_of_ne_nil (@String.utf8EncodeChar_ne_nil c)
    have hplain : IsPlain b := hall b (by simp [hb])
    rw [hb, List.map_cons, List.cons_append, escapeByte_plain hplain] at hhead ⊢
    rw [runes, hhead]
    simp only
    rw [← escapeByte_plain hplain, ← List.cons_append, ← List.map_cons, ← hb, List.drop_left' (by simp)]
  · rw [ha, List.map_singleton, List.singleton_append, runes_escapeByte hescaped, hc]

/-- What stands for itself is written as it is. -/
theorem pieces_plain {bs : List UInt8} (h : ∀ b ∈ bs, IsPlain b) : (bs.map escapeByte).flatMap Piece.bytes = bs := by
  rw [List.flatMap_map, List.flatMap_congr (g := fun b => [b]), List.flatMap_singleton']
  intro b hb
  rw [escapeByte_plain (h b hb)]
  rfl

theorem quote_cons (c : Char) (cs : List Char) :
    quote (c :: cs) = (String.utf8EncodeChar c).map escapeByte ++ quote cs := List.map_append ..

/-- A quoted text stands for itself. -/
theorem runes_quote (cs : List Char) : runes (quote cs) = cs.map .char := by
  induction cs with
  | nil => rw [quote, Utf8.encode_nil, List.map_nil, runes]; rfl
  | cons c cs ih => rw [quote_cons, runes_encodeChar, ih]; rfl

/-- The literal of a string. -/
def lit (s : String) : StrLit := quote s.toList

theorem runes_lit (s : String) : runes (lit s) = s.toList.map .char := runes_quote s.toList

end Json
