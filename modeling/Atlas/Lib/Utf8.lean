import Mathlib.Data.List.Basic
import Mathlib.Data.List.Lex
import Mathlib.Data.String.Basic
import Mathlib.Tactic

/-!
# UTF-8 text in byte strings

* `encode` : the bytes of a list of characters; `head?` : the character a byte string starts with;
* `fromUtf8` : strict decoding to a `String`, `bytes` its inverse (`fromUtf8_bytes`);
* `lossy` : lossy decoding, one U+FFFD for each maximal subpart of an ill-formed sequence; on well-formed text it is
  exact (`lossy_encode`);
* `takeBytes` : the front of a text that is `n` bytes long, absent when byte `n` lies inside a character;
* `Valid` : well-formed byte strings; an ASCII byte separates well-formed text (`valid_append_ascii`);
* `byteNumbers_le_iff` : the order of the bytes is the order of the code points.
-/

theorem List.flatMap_intercalate {α β : Type} (f : α → List β) (sep : List α) (xs : List (List α)) :
    (sep.intercalate xs).flatMap f = (sep.flatMap f).intercalate (xs.map fun x => x.flatMap f) := by
  induction xs with
  | nil => rfl
  | cons x xs ih =>
    cases xs with
    | nil => rw [List.map_singleton, List.intercalate_singleton, List.intercalate_singleton]
    | cons y ys =>
      rw [List.intercalate_cons_cons, List.flatMap_append, List.flatMap_append, ih]
      simp only [List.map_cons, List.intercalate_cons_cons]

namespace Utf8

def encode (cs : List Char) : List UInt8 := cs.flatMap String.utf8EncodeChar

/-- The character at the head of a byte string. -/
def head? (bs : List UInt8) : Option Char := bs.toByteArray.utf8DecodeChar? 0

@[simp] theorem encode_nil : encode [] = [] := rfl

@[simp] theorem encode_cons (c : Char) (cs : List Char) : encode (c :: cs) = String.utf8EncodeChar c ++ encode cs :=
  rfl

theorem encode_append (cs ds : List Char) : encode (cs ++ ds) = encode cs ++ encode ds := List.flatMap_append

theorem encode_intercalate (sep : List Char) (texts : List (List Char)) :
    encode (sep.intercalate texts) = (encode sep).intercalate (texts.map encode) := List.flatMap_intercalate ..

theorem toByteArray_encode (cs : List Char) : (encode cs).toByteArray = cs.utf8Encode := rfl

theorem head?_encodeChar_append (c : Char) (bs : List UInt8) : head? (String.utf8EncodeChar c ++ bs) = some c := by
  rw [head?, List.toByteArray_append]
  exact ByteArray.utf8DecodeChar?_utf8EncodeChar_append

theorem encodeChar_injective : Function.Injective String.utf8EncodeChar := by
  intro c d h
  have hc := head?_encodeChar_append c []
  rw [h, head?_encodeChar_append] at hc
  exact (Option.some.inj hc).symm

/-! ## Strict decoding -/

/-- The UTF-8 bytes of a string. -/
def bytes (s : String) : List UInt8 := encode s.toList

/-- The string a byte string is the encoding of. -/
def fromUtf8 (bs : List UInt8) : Option String := String.fromUTF8? bs.toByteArray

theorem toByteArray_bytes (s : String) : (bytes s).toByteArray = s.toByteArray := by
  rw [bytes, toByteArray_encode, String.utf8Encode_toList]

theorem fromUtf8_bytes (s : String) : fromUtf8 (bytes s) = some s := by
  have hvalid : (bytes s).toByteArray.IsValidUTF8 := toByteArray_bytes s ▸ s.isValidUTF8
  rw [fromUtf8, String.fromUTF8?, dif_pos hvalid, Option.some_inj, ← String.toByteArray_inj]
  exact toByteArray_bytes s

theorem length_bytes (s : String) : (bytes s).length = s.utf8ByteSize := by
  rw [← List.size_toByteArray, toByteArray_bytes]
  rfl

/-! ## Lossy decoding -/

/-- The length a first byte announces, `0` for a byte that starts no character. -/
def charWidth (b : UInt8) : Nat :=
  if b.toNat ≤ 0x7F then 1
  else if 0xC2 ≤ b.toNat ∧ b.toNat ≤ 0xDF then 2
  else if 0xE0 ≤ b.toNat ∧ b.toNat ≤ 0xEF then 3
  else if 0xF0 ≤ b.toNat ∧ b.toNat ≤ 0xF4 then 4
  else 0

def IsContinuation (b : UInt8) : Prop := 0x80 ≤ b.toNat ∧ b.toNat ≤ 0xBF

instance (b : UInt8) : Decidable (IsContinuation b) := inferInstanceAs (Decidable (_ ∧ _))

/-- The second bytes that may follow a first byte of a three- or four-byte character. -/
def SecondOk (b₀ b₁ : UInt8) : Prop :=
  if b₀ = 0xE0 then 0xA0 ≤ b₁.toNat ∧ b₁.toNat ≤ 0xBF
  else if b₀ = 0xED then 0x80 ≤ b₁.toNat ∧ b₁.toNat ≤ 0x9F
  else if b₀ = 0xF0 then 0x90 ≤ b₁.toNat ∧ b₁.toNat ≤ 0xBF
  else if b₀ = 0xF4 then 0x80 ≤ b₁.toNat ∧ b₁.toNat ≤ 0x8F
  else IsContinuation b₁

instance (b₀ b₁ : UInt8) : Decidable (SecondOk b₀ b₁) := by
  unfold SecondOk
  infer_instance

/-- How many bytes of an ill-formed head one replacement character stands for: the bytes that could still have
started a character. -/
def brokenLength : List UInt8 → Nat
  | b₀ :: b₁ :: rest =>
    if charWidth b₀ < 3 ∨ ¬ SecondOk b₀ b₁ then 1
    else match rest with
      | b₂ :: _ => if charWidth b₀ = 4 ∧ IsContinuation b₂ then 3 else 2
      | [] => 2
  | _ => 1

theorem brokenLength_pos (bs : List UInt8) : 0 < brokenLength bs := by
  unfold brokenLength
  repeat' split
  all_goals decide

/-- U+FFFD -/
def replacement : Char := Char.ofNat 0xFFFD

def lossy : List UInt8 → List Char
  | [] => []
  | b :: bs =>
    match head? (b :: bs) with
    | some c => c :: lossy ((b :: bs).drop c.utf8Size)
    | none => replacement :: lossy ((b :: bs).drop (brokenLength (b :: bs)))
  termination_by bs => bs.length
  decreasing_by
    · have := c.utf8Size_pos
      simp only [List.length_drop, List.length_cons]
      omega
    · have := brokenLength_pos (b :: bs)
      simp only [List.length_drop, List.length_cons]
      omega

theorem lossy_encode (cs : List Char) : lossy (encode cs) = cs := by
  induction cs with
  | nil => rw [encode_nil, lossy]
  | cons c cs ih =>
    obtain ⟨b, bs, hb⟩ : ∃ b bs, encode (c :: cs) = b :: bs :=
      List.exists_cons_of_ne_nil (by simp [String.utf8EncodeChar_ne_nil])
    have hhead : head? (b :: bs) = some c := by
      rw [← hb]
      exact head?_encodeChar_append c _
    rw [hb, lossy, hhead]
    simp only
    rw [← hb, encode_cons, List.drop_left' (String.length_utf8EncodeChar c), ih]

/-! ## Cutting a text at a byte position -/

/-- The byte length of a text. -/
def byteLength (cs : List Char) : Nat := (cs.map Char.utf8Size).sum

theorem length_encode (cs : List Char) : (encode cs).length = byteLength cs := by
  induction cs with
  | nil => rfl
  | cons c cs ih =>
    rw [encode_cons, List.length_append, ih, String.length_utf8EncodeChar]
    rfl

theorem byteLength_append (cs ds : List Char) : byteLength (cs ++ ds) = byteLength cs + byteLength ds := by
  rw [← length_encode, encode_append, List.length_append, length_encode, length_encode]

theorem byteLength_replicate (n : Nat) (c : Char) : byteLength (List.replicate n c) = n * c.utf8Size := by
  rw [byteLength, List.map_replicate, List.sum_replicate, smul_eq_mul]

/-- The characters in front of byte `n`, absent when `n` is inside a character or behind the end. -/
def takeBytes : Nat → List Char → Option (List Char)
  | 0, _ => some []
  | _ + 1, [] => none
  | n + 1, c :: cs => if c.utf8Size ≤ n + 1 then (takeBytes (n + 1 - c.utf8Size) cs).map (c :: ·) else none

theorem takeBytes_append (front back : List Char) (n : Nat) :
    takeBytes (byteLength front + n) (front ++ back) = (takeBytes n back).map (front ++ ·) := by
  induction front with
  | nil => simp [byteLength]
  | cons c front ih =>
    have hpos := c.utf8Size_pos
    obtain ⟨m, hm⟩ : ∃ m, byteLength (c :: front) + n = m + 1 := ⟨byteLength (c :: front) + n - 1, by
      simp only [byteLength, List.map_cons, List.sum_cons]
      omega⟩
    have hrest : m + 1 - c.utf8Size = byteLength front + n := by
      rw [← hm]
      simp only [byteLength, List.map_cons, List.sum_cons]
      omega
    have hfit : c.utf8Size ≤ m + 1 := by
      rw [← hm]
      simp only [byteLength, List.map_cons, List.sum_cons]
      omega
    rw [hm, List.cons_append, takeBytes, if_pos hfit, hrest, ih, Option.map_map]
    rfl

/-- Byte `n` is at a character's start, or at the end. -/
def IsCharBoundary (n : Nat) (cs : List Char) : Prop := ∃ front back, cs = front ++ back ∧ byteLength front = n

theorem takeBytes_isSome_iff (n : Nat) (cs : List Char) : (takeBytes n cs).isSome ↔ IsCharBoundary n cs := by
  induction cs generalizing n with
  | nil =>
    cases n with
    | zero => exact ⟨fun _ => ⟨[], [], rfl, rfl⟩, fun _ => rfl⟩
    | succ n =>
      refine ⟨fun h => by simp [takeBytes] at h, ?_⟩
      rintro ⟨front, back, hsplit, hlen⟩
      obtain ⟨rfl, -⟩ := List.append_eq_nil_iff.mp hsplit.symm
      simp [byteLength] at hlen
  | cons c cs ih =>
    cases n with
    | zero => exact ⟨fun _ => ⟨[], c :: cs, rfl, rfl⟩, fun _ => rfl⟩
    | succ n =>
      have hpos := c.utf8Size_pos
      unfold takeBytes
      split_ifs with hc
      · rw [Option.isSome_map, ih]
        constructor
        · rintro ⟨front, back, rfl, hlen⟩
          exact ⟨c :: front, back, rfl, by simp only [byteLength, List.map_cons, List.sum_cons] at hlen ⊢; omega⟩
        · rintro ⟨front, back, hsplit, hlen⟩
          cases front with
          | nil => simp [byteLength] at hlen
          | cons d front =>
            obtain ⟨rfl, rfl⟩ := List.cons.inj hsplit
            exact ⟨front, back, rfl, by simp only [byteLength, List.map_cons, List.sum_cons] at hlen ⊢; omega⟩
      · refine ⟨fun h => by simp at h, ?_⟩
        rintro ⟨front, back, hsplit, hlen⟩
        cases front with
        | nil => simp [byteLength] at hlen
        | cons d front =>
          obtain ⟨rfl, -⟩ := List.cons.inj hsplit
          simp only [byteLength, List.map_cons, List.sum_cons] at hlen
          omega

/-! ## Well-formed byte strings -/

def Valid (bs : List UInt8) : Prop := bs.toByteArray.IsValidUTF8

instance (bs : List UInt8) : Decidable (Valid bs) := inferInstanceAs (Decidable (ByteArray.IsValidUTF8 _))

theorem valid_iff (bs : List UInt8) : Valid bs ↔ ∃ cs, bs = encode cs := by
  constructor
  · rintro ⟨cs, h⟩
    exact ⟨cs, List.toByteArray_inj.mp h⟩
  · rintro ⟨cs, rfl⟩
    exact ⟨cs, rfl⟩

theorem valid_bytes (s : String) : Valid (bytes s) := (valid_iff _).mpr ⟨s.toList, rfl⟩

theorem exists_bytes_of_valid {bs : List UInt8} (h : Valid bs) : ∃ s, bytes s = bs := by
  obtain ⟨cs, rfl⟩ := (valid_iff bs).mp h
  exact ⟨String.ofList cs, by rw [bytes, String.toList_ofList]⟩

theorem fromUtf8_isSome_iff (bs : List UInt8) : (fromUtf8 bs).isSome ↔ Valid bs := by
  rw [fromUtf8, String.fromUTF8?]
  split_ifs with h
  · exact ⟨fun _ => h, fun _ => rfl⟩
  · exact ⟨fun h' => absurd h' (by simp), fun h' => absurd h' h⟩

theorem bytes_of_fromUtf8 {bs : List UInt8} {s : String} (h : fromUtf8 bs = some s) : bytes s = bs := by
  obtain ⟨t, rfl⟩ := exists_bytes_of_valid ((fromUtf8_isSome_iff bs).mp (h ▸ rfl))
  rw [fromUtf8_bytes] at h
  rw [Option.some.inj h]

/-- A character is one ASCII byte, or none of its bytes is ASCII. -/
theorem encodeChar_ascii (c : Char) :
    (∃ b : UInt8, String.utf8EncodeChar c = [b]) ∨ ∀ b ∈ String.utf8EncodeChar c, 0x80 ≤ b.toNat := by
  unfold String.utf8EncodeChar
  extract_lets v
  split_ifs
  · exact Or.inl ⟨_, rfl⟩
  all_goals
    refine Or.inr fun b hb => ?_
    simp only [List.mem_cons, List.not_mem_nil, or_false] at hb
    rcases hb with rfl | rfl | rfl | rfl <;> rw [UInt8.toNat_ofNat'] <;> omega

theorem encodeChar_ofNat {b : UInt8} (hb : b.toNat < 0x80) : String.utf8EncodeChar (Char.ofNat b.toNat) = [b] := by
  have hval : (Char.ofNat b.toNat).val.toNat = b.toNat := by
    rw [Char.ofNat, dif_pos (Or.inl (by omega))]
    rfl
  unfold String.utf8EncodeChar
  rw [hval, if_pos (by omega)]
  simp

/-- An ASCII byte separates well-formed text. -/
theorem valid_append_ascii (front back : List UInt8) (b : UInt8) (hb : b.toNat < 0x80) :
    Valid (front ++ b :: back) ↔ Valid front ∧ Valid back := by
  simp only [valid_iff]
  constructor
  · rintro ⟨cs, h⟩
    induction cs generalizing front with
    | nil => simp at h
    | cons c cs ih =>
      rw [encode_cons] at h
      rcases List.append_eq_append_iff.mp h with ⟨more, hc, hback⟩ | ⟨more, rfl, hrest⟩
      · -- the character reaches to the separator or beyond, so it is the separator
        cases more with
        | nil =>
          obtain ⟨ds, hds⟩ := (ih [] (by simpa using hback)).2
          exact ⟨⟨[c], by simpa using hc.symm⟩, ds, hds⟩
        | cons x more =>
          obtain ⟨rfl, rfl⟩ := List.cons.inj hback
          rcases encodeChar_ascii c with ⟨a, ha⟩ | hhigh
          · rw [ha] at hc
            cases front with
            | nil =>
              obtain ⟨-, rfl⟩ := List.cons.inj hc
              exact ⟨⟨[], rfl⟩, cs, rfl⟩
            | cons y front => simp at hc
          · have := hhigh b (by rw [hc]; simp)
            omega
      · obtain ⟨⟨ds, rfl⟩, hvalid⟩ := ih more hrest.symm
        exact ⟨⟨c :: ds, rfl⟩, hvalid⟩
  · rintro ⟨⟨cs, rfl⟩, ds, rfl⟩
    exact ⟨cs ++ Char.ofNat b.toNat :: ds, by rw [encode_append, encode_cons, encodeChar_ofNat hb]; rfl⟩

/-! ## The order of the bytes -/

/-- The bytes of a code point, as numbers. -/
def codeBytes (n : ℕ) : List ℕ :=
  if n < 128 then [n]
  else if n < 2048 then [192 + n / 64, 128 + n % 64]
  else if n < 65536 then [224 + n / 64 / 64, 128 + n / 64 % 64, 128 + n % 64]
  else [240 + n / 64 / 64 / 64, 128 + n / 64 / 64 % 64, 128 + n / 64 % 64, 128 + n % 64]

theorem map_toNat_encodeChar (c : Char) : (String.utf8EncodeChar c).map UInt8.toNat = codeBytes c.toNat := by
  have hc : c.toNat < 0x110000 := by
    have hvalid : c.toNat < 0xD800 ∨ (0xDFFF < c.toNat ∧ c.toNat < 0x110000) := c.valid
    omega
  unfold String.utf8EncodeChar codeBytes
  extract_lets v
  have hv : v = c.toNat := rfl
  rw [← hv] at hc ⊢
  clear_value v
  clear hv
  split_ifs
  all_goals try omega
  all_goals
    simp only [List.map_cons, List.map_nil, UInt8.toNat_ofNat', List.cons.injEq, and_true]
    omega

theorem codeBytes_lt {n m : ℕ} (h : n < m) (xs ys : List ℕ) : codeBytes n ++ xs < codeBytes m ++ ys := by
  unfold codeBytes
  split_ifs
  all_goals simp only [List.cons_append, List.nil_append, List.cons_lt_cons_iff]
  all_goals omega

/-- Texts in the order of their code points are in the order of their bytes. -/
theorem encode_strictMono : StrictMono fun cs : List Char => (encode cs).map UInt8.toNat := by
  intro cs ds h
  dsimp only
  induction cs generalizing ds with
  | nil =>
    cases ds with
    | nil => exact absurd h (lt_irrefl _)
    | cons d ds =>
      rw [encode_cons, List.map_append, map_toNat_encodeChar]
      unfold codeBytes
      split_ifs <;> exact List.nil_lt_cons _ _
  | cons c cs ih =>
    cases ds with
    | nil => exact absurd h (by simp)
    | cons d ds =>
      rw [encode_cons, encode_cons, List.map_append, List.map_append, map_toNat_encodeChar, map_toNat_encodeChar]
      rcases List.cons_lt_cons_iff.mp h with hfirst | ⟨rfl, hrest⟩
      · exact codeBytes_lt hfirst _ _
      · exact List.append_left_lt (ih hrest)

/-- The bytes of a string, as numbers. -/
def byteNumbers (s : String) : List ℕ := (bytes s).map UInt8.toNat

theorem byteNumbers_le_iff (s t : String) : byteNumbers s ≤ byteNumbers t ↔ s ≤ t := by
  rw [← not_lt, ← not_lt, String.lt_iff]
  exact not_congr encode_strictMono.lt_iff_lt

end Utf8
