import Atlas.Lib.Decimal
import Mathlib.Data.List.TakeWhile

/-!
# The tokens of JSON

* `NumLit`, `StrLit` : number and string literals as they are written, valid by construction;
* `next` : the first token of a byte string, behind white space, and the bytes that follow it;
* `Token.Ends` : what may stand behind a token; `next_sound`, `next_complete` : `next` finds a token exactly where
  its bytes stand;
* `Reads` : a list of tokens read one after the other; `Reads.append`, `Reads.solid` : what is read stays so when
  bytes are added behind it, and the bytes passed over are white space.
-/

namespace Json

open Decimal (IsDigit)

/-- The first byte of a byte string, if there is one, is not one of `p`. -/
def NotStart (p : UInt8 → Prop) (bs : List UInt8) : Prop := ∀ b rest, bs = b :: rest → ¬ p b

theorem notStart_nil (p : UInt8 → Prop) : NotStart p [] := fun _ _ h => nomatch h

theorem notStart_cons {p : UInt8 → Prop} {b : UInt8} (rest : List UInt8) (h : ¬ p b) : NotStart p (b :: rest) := by
  intro b' rest' heq
  obtain ⟨rfl, rfl⟩ := List.cons.inj heq
  exact h

theorem NotStart.append {p : UInt8 → Prop} {bs cs : List UInt8} (h : NotStart p bs) (hcs : NotStart p cs) :
    NotStart p (bs ++ cs) := by
  cases bs with
  | nil => exact hcs
  | cons b bs => exact notStart_cons _ (h b bs rfl)

theorem NotStart.mono {p q : UInt8 → Prop} {bs : List UInt8} (h : NotStart q bs) (hpq : ∀ b, p b → q b) :
    NotStart p bs := fun b rest heq hb => h b rest heq (hpq b hb)

theorem notStart_dropWhile (p : UInt8 → Prop) [DecidablePred p] (bs : List UInt8) :
    NotStart p (bs.dropWhile (fun b => decide (p b))) := by
  intro b rest heq
  have := List.head?_dropWhile_not (fun b => decide (p b)) bs
  rw [heq] at this
  simpa using this

theorem dropWhile_eq_self {p : UInt8 → Prop} [DecidablePred p] {bs : List UInt8} (h : NotStart p bs) :
    bs.dropWhile (fun b => decide (p b)) = bs := by
  cases bs with
  | nil => rfl
  | cons b bs => rw [List.dropWhile_cons_of_neg (by simpa using h b bs rfl)]

theorem takeWhile_eq_nil {p : UInt8 → Prop} [DecidablePred p] {bs : List UInt8} (h : NotStart p bs) :
    bs.takeWhile (fun b => decide (p b)) = [] := by
  cases bs with
  | nil => rfl
  | cons b bs => rw [List.takeWhile_cons_of_neg (by simpa using h b bs rfl)]

/-! ## Numbers -/

/-- A non-empty string of digits. -/
structure Digits where
  bytes : List UInt8
  ne_nil : bytes ≠ []
  isDigit : ∀ b ∈ bytes, IsDigit b
  deriving DecidableEq

/-- The integer part of a number: no zero in front of another digit. -/
inductive IntPart
  | zero
  | pos (digits : Digits) (h : digits.bytes.head? ≠ some 48)
  deriving DecidableEq

/-- `upper` : written with `E`; `sign` : `some true` for `-`, `some false` for `+`. -/
structure Exponent where
  upper : Bool
  sign : Option Bool
  digits : Digits
  deriving DecidableEq

structure NumLit where
  neg : Bool
  int : IntPart
  frac : Option Digits
  exp : Option Exponent
  deriving DecidableEq

def IntPart.bytes : IntPart → List UInt8
  | zero => [48]
  | pos digits _ => digits.bytes

def fracBytes : Option Digits → List UInt8
  | none => []
  | some digits => 46 :: digits.bytes

def signBytes : Option Bool → List UInt8
  | none => []
  | some true => [45]
  | some false => [43]

def expBytes : Option Exponent → List UInt8
  | none => []
  | some e => (if e.upper then 69 else 101) :: (signBytes e.sign ++ e.digits.bytes)

def negBytes (neg : Bool) : List UInt8 := if neg then [45] else []

def NumLit.bytes (n : NumLit) : List UInt8 :=
  negBytes n.neg ++ (n.int.bytes ++ (fracBytes n.frac ++ expBytes n.exp))

/-- The number a literal stands for. -/
def NumLit.value (n : NumLit) : ℚ :=
  let digits := n.int.bytes ++ (n.frac.elim [] Digits.bytes)
  let scale : ℤ := n.exp.elim 0 fun e =>
    if e.sign = some true then -(Decimal.value e.digits.bytes) else Decimal.value e.digits.bytes
  let size : ℚ := Decimal.value digits * (10 : ℚ) ^ (scale - (n.frac.elim 0 fun d => (d.bytes.length : ℤ)))
  if n.neg then -size else size

/-- A literal without fraction and exponent. -/
def NumLit.IsInt (n : NumLit) : Prop := n.frac = none ∧ n.exp = none

instance (n : NumLit) : Decidable n.IsInt := inferInstanceAs (Decidable (_ ∧ _))

/-- The integer that a literal without fraction and exponent stands for. -/
def NumLit.toInt (n : NumLit) : ℤ :=
  if n.neg then -(Decimal.value n.int.bytes : ℤ) else Decimal.value n.int.bytes

theorem NumLit.value_of_isInt {n : NumLit} (h : n.IsInt) : n.value = n.toInt := by
  unfold NumLit.value NumLit.toInt
  rw [h.1, h.2]
  split_ifs <;> simp

/-! ### Scanning a number -/

def IsExpMark (b : UInt8) : Prop := b = 101 ∨ b = 69

instance (b : UInt8) : Decidable (IsExpMark b) := inferInstanceAs (Decidable (_ ∨ _))

def scanDigits (bs : List UInt8) : Option (Digits × List UInt8) :=
  if h : bs.takeWhile (fun b => decide (IsDigit b)) ≠ [] then
    some (⟨_, h, fun _ hb => by simpa using List.mem_takeWhile_imp hb⟩,
      bs.dropWhile (fun b => decide (IsDigit b)))
  else none

def scanNeg : List UInt8 → Bool × List UInt8
  | [] => (false, [])
  | b :: rest => if b = 45 then (true, rest) else (false, b :: rest)

def scanInt : List UInt8 → Option (IntPart × List UInt8)
  | [] => none
  | b :: rest =>
    if b = 48 then some (.zero, rest)
    else match scanDigits (b :: rest) with
      | none => none
      | some (digits, rest) => if h : digits.bytes.head? ≠ some 48 then some (.pos digits h, rest) else none

def scanFrac : List UInt8 → Option (Option Digits × List UInt8)
  | [] => some (none, [])
  | b :: rest => if b = 46 then (scanDigits rest).map fun p => (some p.1, p.2) else some (none, b :: rest)

def scanSign : List UInt8 → Option Bool × List UInt8
  | [] => (none, [])
  | b :: rest => if b = 45 then (some true, rest) else if b = 43 then (some false, rest) else (none, b :: rest)

def scanExp : List UInt8 → Option (Option Exponent × List UInt8)
  | [] => some (none, [])
  | b :: rest =>
    if IsExpMark b then
      (scanDigits (scanSign rest).2).map fun p => (some ⟨b = 69, (scanSign rest).1, p.1⟩, p.2)
    else some (none, b :: rest)

def scanNumber (bs : List UInt8) : Option (NumLit × List UInt8) :=
  match scanInt (scanNeg bs).2 with
  | none => none
  | some (int, bs₁) =>
    match scanFrac bs₁ with
    | none => none
    | some (frac, bs₂) => (scanExp bs₂).map fun p => (⟨(scanNeg bs).1, int, frac, p.1⟩, p.2)

/-- The bytes that would carry a literal on. -/
def IntPart.Continues : IntPart → UInt8 → Prop
  | zero, _ => False
  | pos _ _, b => IsDigit b

def fracContinues : Option Digits → UInt8 → Prop
  | none, b => b = 46
  | some _, b => IsDigit b

def expContinues : Option Exponent → UInt8 → Prop
  | none, b => IsExpMark b
  | some _, b => IsDigit b

def NumLit.Continues (n : NumLit) (b : UInt8) : Prop :=
  expContinues n.exp b ∨ (n.exp = none ∧ (fracContinues n.frac b ∨ (n.frac = none ∧ n.int.Continues b)))

theorem scanDigits_sound {bs rest : List UInt8} {d : Digits} (h : scanDigits bs = some (d, rest)) :
    bs = d.bytes ++ rest ∧ NotStart IsDigit rest := by
  unfold scanDigits at h
  split_ifs at h
  obtain ⟨rfl, rfl⟩ := Prod.mk.inj (Option.some.inj h)
  exact ⟨List.takeWhile_append_dropWhile.symm, notStart_dropWhile IsDigit bs⟩

theorem scanDigits_complete (d : Digits) {rest : List UInt8} (h : NotStart IsDigit rest) :
    scanDigits (d.bytes ++ rest) = some (d, rest) := by
  have hall : ∀ b ∈ d.bytes, decide (IsDigit b) = true := fun b hb => decide_eq_true (d.isDigit b hb)
  have htake : (d.bytes ++ rest).takeWhile (fun b => decide (IsDigit b)) = d.bytes := by
    rw [List.takeWhile_append_of_pos hall, takeWhile_eq_nil h, List.append_nil]
  have hdrop : (d.bytes ++ rest).dropWhile (fun b => decide (IsDigit b)) = rest := by
    rw [List.dropWhile_append_of_pos hall, dropWhile_eq_self h]
  unfold scanDigits
  simp only [htake, hdrop]
  rw [dif_pos d.ne_nil]

theorem Digits.exists_cons (d : Digits) : ∃ b more, d.bytes = b :: more ∧ IsDigit b := by
  obtain ⟨b, more, hb⟩ := List.exists_cons_of_ne_nil d.ne_nil
  exact ⟨b, more, hb, d.isDigit b (by simp [hb])⟩

theorem scanNeg_eq (bs : List UInt8) : bs = negBytes (scanNeg bs).1 ++ (scanNeg bs).2 := by
  cases bs with
  | nil => rfl
  | cons b rest =>
    by_cases h : b = 45
    · rw [scanNeg, if_pos h, h]; rfl
    · rw [scanNeg, if_neg h]; rfl

theorem scanNeg_complete (neg : Bool) {rest : List UInt8} (h : NotStart (· = 45) rest) :
    scanNeg (negBytes neg ++ rest) = (neg, rest) := by
  cases neg with
  | true => rfl
  | false =>
    cases rest with
    | nil => rfl
    | cons b rest => exact if_neg (h b rest rfl)

theorem scanInt_sound {bs rest : List UInt8} {i : IntPart} (h : scanInt bs = some (i, rest)) :
    bs = i.bytes ++ rest ∧ NotStart i.Continues rest := by
  unfold scanInt at h
  split at h
  · cases h
  · rename_i b tail
    split_ifs at h with hb
    · obtain ⟨rfl, rfl⟩ := Prod.mk.inj (Option.some.inj h)
      exact ⟨by rw [hb]; rfl, fun _ _ _ hf => hf⟩
    · split at h
      · cases h
      · rename_i digits rest' hscan
        split_ifs at h with hhead
        obtain ⟨rfl, rfl⟩ := Prod.mk.inj (Option.some.inj h)
        exact scanDigits_sound hscan

theorem scanInt_complete (i : IntPart) {rest : List UInt8} (h : NotStart i.Continues rest) :
    scanInt (i.bytes ++ rest) = some (i, rest) := by
  cases i with
  | zero => rfl
  | pos digits hhead =>
    obtain ⟨b, more, hb, -⟩ := digits.exists_cons
    have hne : b ≠ 48 := fun h0 => hhead (by rw [hb, h0]; rfl)
    have hscan := scanDigits_complete digits h
    rw [hb, List.cons_append] at hscan
    rw [IntPart.bytes, hb, List.cons_append, scanInt, if_neg hne, hscan]
    exact dif_pos hhead

theorem scanFrac_sound {bs rest : List UInt8} {f : Option Digits} (h : scanFrac bs = some (f, rest)) :
    bs = fracBytes f ++ rest ∧ NotStart (fracContinues f) rest := by
  unfold scanFrac at h
  split at h
  · obtain ⟨rfl, rfl⟩ := Prod.mk.inj (Option.some.inj h)
    exact ⟨rfl, notStart_nil _⟩
  · rename_i b tail
    split_ifs at h with hb
    · obtain ⟨⟨d, r⟩, hscan, heq⟩ := Option.map_eq_some_iff.mp h
      obtain ⟨rfl, rfl⟩ := Prod.mk.inj heq
      obtain ⟨htail, hrest⟩ := scanDigits_sound hscan
      exact ⟨by rw [hb, htail]; rfl, hrest⟩
    · obtain ⟨rfl, rfl⟩ := Prod.mk.inj (Option.some.inj h)
      exact ⟨rfl, notStart_cons _ hb⟩

theorem scanFrac_complete (f : Option Digits) {rest : List UInt8} (h : NotStart (fracContinues f) rest) :
    scanFrac (fracBytes f ++ rest) = some (f, rest) := by
  cases f with
  | none =>
    cases rest with
    | nil => rfl
    | cons b rest => exact if_neg (h b rest rfl)
  | some d =>
    rw [fracBytes, List.cons_append, scanFrac, if_pos rfl, scanDigits_complete d h]
    rfl

theorem scanSign_eq (bs : List UInt8) : bs = signBytes (scanSign bs).1 ++ (scanSign bs).2 := by
  cases bs with
  | nil => rfl
  | cons b rest =>
    by_cases h : b = 45
    · rw [scanSign, if_pos h, h]; rfl
    · by_cases h' : b = 43
      · rw [scanSign, if_neg h, if_pos h', h']; rfl
      · rw [scanSign, if_neg h, if_neg h']; rfl

theorem scanSign_complete (s : Option Bool) (d : Digits) (rest : List UInt8) :
    scanSign (signBytes s ++ (d.bytes ++ rest)) = (s, d.bytes ++ rest) := by
  rcases s with _ | _ | _
  · obtain ⟨b, more, hb, hdigit⟩ := d.exists_cons
    have h45 : b ≠ 45 := by rintro rfl; exact absurd hdigit (by decide)
    have h43 : b ≠ 43 := by rintro rfl; exact absurd hdigit (by decide)
    rw [hb, List.cons_append, signBytes, List.nil_append, scanSign, if_neg h45, if_neg h43]
  · rfl
  · rfl

theorem scanExp_sound {bs rest : List UInt8} {e : Option Exponent} (h : scanExp bs = some (e, rest)) :
    bs = expBytes e ++ rest ∧ NotStart (expContinues e) rest := by
  unfold scanExp at h
  split at h
  · obtain ⟨rfl, rfl⟩ := Prod.mk.inj (Option.some.inj h)
    exact ⟨rfl, notStart_nil _⟩
  · rename_i b tail
    split_ifs at h with hb
    · obtain ⟨⟨d, r⟩, hscan, heq⟩ := Option.map_eq_some_iff.mp h
      obtain ⟨rfl, rfl⟩ := Prod.mk.inj heq
      obtain ⟨htail, hrest⟩ := scanDigits_sound hscan
      refine ⟨?_, hrest⟩
      have htail' : tail = signBytes (scanSign tail).1 ++ (d.bytes ++ r) := htail ▸ scanSign_eq tail
      have hmark : b = if decide (b = 69) = true then 69 else 101 := by
        rcases hb with rfl | rfl <;> rfl
      conv_lhs => rw [hmark, htail']
      simp [expBytes]
    · obtain ⟨rfl, rfl⟩ := Prod.mk.inj (Option.some.inj h)
      exact ⟨rfl, notStart_cons _ hb⟩

theorem scanExp_complete (e : Option Exponent) {rest : List UInt8} (h : NotStart (expContinues e) rest) :
    scanExp (expBytes e ++ rest) = some (e, rest) := by
  cases e with
  | none =>
    cases rest with
    | nil => rfl
    | cons b rest => exact if_neg (h b rest rfl)
  | some e =>
    obtain ⟨upper, sign, digits⟩ := e
    have hscan := scanDigits_complete digits h
    have hmark : IsExpMark (if upper then 69 else 101) := by
      cases upper
      · exact Or.inl rfl
      · exact Or.inr rfl
    rw [expBytes, List.cons_append, List.append_assoc, scanExp, if_pos hmark, scanSign_complete, hscan]
    cases upper <;> rfl

theorem scanNumber_sound {bs rest : List UInt8} {n : NumLit} (h : scanNumber bs = some (n, rest)) :
    bs = n.bytes ++ rest ∧ NotStart n.Continues rest := by
  unfold scanNumber at h
  split at h
  · cases h
  · rename_i int bs₁ hint
    split at h
    · cases h
    · rename_i frac bs₂ hfrac
      obtain ⟨⟨exp, r⟩, hexp, heq⟩ := Option.map_eq_some_iff.mp h
      obtain ⟨rfl, rfl⟩ := Prod.mk.inj heq
      obtain ⟨h₁, hc₁⟩ := scanInt_sound hint
      obtain ⟨rfl, hc₂⟩ := scanFrac_sound hfrac
      obtain ⟨rfl, hc₃⟩ := scanExp_sound hexp
      refine ⟨?_, ?_⟩
      · conv_lhs => rw [scanNeg_eq bs, h₁]
        simp only [NumLit.bytes, List.append_assoc]
      · -- each part that is absent leaves the byte behind it to the part in front
        intro b tail hr hcont
        rcases hcont with hcont | ⟨rfl, hcont⟩
        · exact hc₃ b tail hr hcont
        · rcases hcont with hcont | ⟨rfl, hcont⟩
          · exact hc₂ b tail (by rw [← hr]; rfl) hcont
          · exact hc₁ b tail (by rw [← hr]; rfl) hcont

theorem IntPart.exists_cons (i : IntPart) : ∃ b more, i.bytes = b :: more ∧ IsDigit b := by
  cases i with
  | zero => exact ⟨48, [], rfl, by decide⟩
  | pos digits h => exact digits.exists_cons

theorem notStart_expBytes {p : UInt8 → Prop} (h101 : ¬ p 101) (h69 : ¬ p 69) (e : Option Exponent) {rest : List UInt8}
    (h : e = none → NotStart p rest) : NotStart p (expBytes e ++ rest) := by
  cases e with
  | none => exact h rfl
  | some e =>
    apply notStart_cons
    by_cases hu : e.upper
    · rwa [if_pos hu]
    · rwa [if_neg hu]

theorem scanNumber_complete (n : NumLit) {rest : List UInt8} (h : NotStart n.Continues rest) :
    scanNumber (n.bytes ++ rest) = some (n, rest) := by
  obtain ⟨neg, int, frac, exp⟩ := n
  have hexp : NotStart (expContinues exp) rest := h.mono fun _ hb => Or.inl hb
  have hfrac : NotStart (fracContinues frac) (expBytes exp ++ rest) := by
    apply notStart_expBytes
    · cases frac <;> simp [fracContinues, IsDigit]
    · cases frac <;> simp [fracContinues, IsDigit]
    · intro hnone
      exact h.mono fun _ hb => Or.inr ⟨hnone, Or.inl hb⟩
  have hint : NotStart int.Continues (fracBytes frac ++ (expBytes exp ++ rest)) := by
    cases frac with
    | some d =>
      apply notStart_cons
      cases int <;> simp [IntPart.Continues, IsDigit]
    | none =>
      apply notStart_expBytes
      · cases int <;> simp [IntPart.Continues, IsDigit]
      · cases int <;> simp [IntPart.Continues, IsDigit]
      · intro hnone
        exact h.mono fun _ hb => Or.inr ⟨hnone, Or.inr ⟨rfl, hb⟩⟩
  have hneg : NotStart (· = 45) (int.bytes ++ (fracBytes frac ++ (expBytes exp ++ rest))) := by
    obtain ⟨b, more, hb, hdigit⟩ := int.exists_cons
    rw [hb]
    apply notStart_cons
    rintro rfl
    exact absurd hdigit (by decide)
  simp only [NumLit.bytes, List.append_assoc]
  rw [scanNumber, scanNeg_complete neg hneg, scanInt_complete int hint]
  simp only
  rw [scanFrac_complete frac hfrac]
  simp only
  rw [scanExp_complete exp hexp]
  rfl

/-! ## Strings -/

/-- The characters behind a backslash, `u` apart. -/
inductive Escape
  | quote | backslash | slash | backspace | formFeed | newline | carriageReturn | tab
  deriving DecidableEq, Repr

def Escape.byte : Escape → UInt8
  | quote => 34
  | backslash => 92
  | slash => 47
  | backspace => 98
  | formFeed => 102
  | newline => 110
  | carriageReturn => 114
  | tab => 116

def Escape.ofByte (b : UInt8) : Option Escape :=
  [quote, backslash, slash, backspace, formFeed, newline, carriageReturn, tab].find? (·.byte = b)

theorem Escape.ofByte_byte (e : Escape) : Escape.ofByte e.byte = some e := by cases e <;> rfl

theorem Escape.byte_of_ofByte {b : UInt8} {e : Escape} (h : Escape.ofByte b = some e) : e.byte = b := by
  simpa using List.find?_some h

/-- A byte that stands for itself in a string: no control character, quote or backslash. -/
def IsPlain (b : UInt8) : Prop := 32 ≤ b.toNat ∧ b ≠ 34 ∧ b ≠ 92

instance (b : UInt8) : Decidable (IsPlain b) := inferInstanceAs (Decidable (_ ∧ _))

def IsHex (b : UInt8) : Prop :=
  IsDigit b ∨ (65 ≤ b.toNat ∧ b.toNat ≤ 70) ∨ (97 ≤ b.toNat ∧ b.toNat ≤ 102)

instance (b : UInt8) : Decidable (IsHex b) := inferInstanceAs (Decidable (_ ∨ _))

/-- The four bytes behind `\u`. -/
structure HexQuad where
  a : UInt8
  b : UInt8
  c : UInt8
  d : UInt8
  isHex : IsHex a ∧ IsHex b ∧ IsHex c ∧ IsHex d
  deriving DecidableEq

inductive Piece
  | plain (b : UInt8) (h : IsPlain b)
  | esc (e : Escape)
  | uni (q : HexQuad)
  deriving DecidableEq

/-- What stands between the quotes. -/
abbrev StrLit := List Piece

def Piece.bytes : Piece → List UInt8
  | plain b _ => [b]
  | esc e => [92, e.byte]
  | uni q => [92, 117, q.a, q.b, q.c, q.d]

/-- The contents of a string, its closing quote included. -/
def closedBytes (s : StrLit) : List UInt8 := s.flatMap Piece.bytes ++ [34]

/-- Scan a string behind its opening quote. -/
def scanString : List UInt8 → Option (StrLit × List UInt8)
  | [] => none
  | b :: rest =>
    if b = 34 then some ([], rest)
    else if b = 92 then
      match rest with
      | [] => none
      | e :: rest =>
        if e = 117 then
          match rest with
          | a :: b :: c :: d :: rest =>
            if h : IsHex a ∧ IsHex b ∧ IsHex c ∧ IsHex d then
              (scanString rest).map fun p => (.uni ⟨a, b, c, d, h⟩ :: p.1, p.2)
            else none
          | _ => none
        else match Escape.ofByte e with
          | none => none
          | some e => (scanString rest).map fun p => (.esc e :: p.1, p.2)
    else if h : IsPlain b then (scanString rest).map fun p => (.plain b h :: p.1, p.2)
    else none
  termination_by structural bs => bs

theorem scanString_sound (bs : List UInt8) {rest : List UInt8} {s : StrLit} (h : scanString bs = some (s, rest)) :
    bs = closedBytes s ++ rest := by
  induction hlength : bs.length using Nat.strong_induction_on generalizing bs s with
  | _ n ih =>
    have hmapped {tail : List UInt8} {piece : Piece} (hlt : tail.length < n)
        (h : (scanString tail).map (fun p => (piece :: p.1, p.2)) = some (s, rest)) :
        piece.bytes ++ tail = closedBytes s ++ rest := by
      obtain ⟨⟨s', r⟩, hscan, heq⟩ := Option.map_eq_some_iff.mp h
      obtain ⟨rfl, rfl⟩ := Prod.mk.inj heq
      rw [ih _ hlt tail hscan rfl]
      simp [closedBytes]
    rw [scanString.eq_def] at h
    cases bs with
    | nil => cases h
    | cons b tail =>
      rw [List.length_cons] at hlength
      dsimp only at h
      by_cases hquote : b = 34
      · rw [if_pos hquote] at h
        obtain ⟨rfl, rfl⟩ := Prod.mk.inj (Option.some.inj h)
        rw [hquote]
        rfl
      rw [if_neg hquote] at h
      by_cases hplain : b = 92
      swap
      · rw [if_neg hplain] at h
        split_ifs at h with hb
        exact @hmapped tail (.plain b hb) (by omega) h
      rw [if_pos hplain] at h
      rw [hplain]
      cases tail with
      | nil => cases h
      | cons e tail =>
        rw [List.length_cons] at hlength
        dsimp only at h
        by_cases he : e = 117
        · rw [if_pos he] at h
          rcases tail with _ | ⟨a, _ | ⟨b, _ | ⟨c, _ | ⟨d, tail⟩⟩⟩⟩
          · cases h
          · cases h
          · cases h
          · cases h
          · dsimp only at h
            split_ifs at h with hhex
            rw [he]
            refine @hmapped tail (.uni ⟨a, b, c, d, hhex⟩) ?_ h
            simp only [List.length_cons] at hlength
            omega
        · rw [if_neg he] at h
          cases hescape : Escape.ofByte e with
          | none =>
            rw [hescape] at h
            cases h
          | some escape =>
            rw [hescape] at h
            rw [← Escape.byte_of_ofByte hescape]
            exact @hmapped tail (.esc escape) (by omega) h

theorem scanString_complete (s : StrLit) (rest : List UInt8) : scanString (closedBytes s ++ rest) = some (s, rest) := by
  induction s with
  | nil =>
    show scanString (34 :: rest) = _
    rw [scanString.eq_def]
    exact if_pos rfl
  | cons piece s ih =>
    have hsplit : closedBytes (piece :: s) ++ rest = piece.bytes ++ (closedBytes s ++ rest) := by
      simp [closedBytes]
    rw [hsplit, scanString.eq_def]
    cases piece with
    | plain b h =>
      simp only [Piece.bytes, List.singleton_append]
      rw [if_neg h.2.1, if_neg h.2.2, dif_pos h, ih]
      rfl
    | esc e =>
      have hu : e.byte ≠ 117 := by cases e <;> decide
      simp only [Piece.bytes, List.cons_append, List.nil_append]
      rw [if_neg (by decide), if_pos trivial, if_neg hu, Escape.ofByte_byte]
      simp only
      rw [ih]
      rfl
    | uni q =>
      obtain ⟨a, b, c, d, h⟩ := q
      simp only [Piece.bytes, List.cons_append, List.nil_append]
      rw [if_neg (by decide), if_pos trivial, if_pos trivial, dif_pos h, ih]
      rfl

/-! ## Tokens -/

inductive Symbol
  | lbrack | rbrack | lbrace | rbrace | comma | colon
  deriving DecidableEq, Repr

def Symbol.byte : Symbol → UInt8
  | lbrack => 91
  | rbrack => 93
  | lbrace => 123
  | rbrace => 125
  | comma => 44
  | colon => 58

def Symbol.ofByte (b : UInt8) : Option Symbol :=
  [lbrack, rbrack, lbrace, rbrace, comma, colon].find? (·.byte = b)

theorem Symbol.ofByte_byte (s : Symbol) : Symbol.ofByte s.byte = some s := by cases s <;> rfl

theorem Symbol.byte_of_ofByte {b : UInt8} {s : Symbol} (h : Symbol.ofByte b = some s) : s.byte = b := by
  simpa using List.find?_some h

inductive Word
  | null | true | false
  deriving DecidableEq, Repr

def Word.bytes : Word → List UInt8
  | null => [110, 117, 108, 108]
  | true => [116, 114, 117, 101]
  | false => [102, 97, 108, 115, 101]

def scanWord (bs : List UInt8) : Option (Word × List UInt8) :=
  if Word.null.bytes <+: bs then some (.null, bs.drop 4)
  else if Word.true.bytes <+: bs then some (.true, bs.drop 4)
  else if Word.false.bytes <+: bs then some (.false, bs.drop 5)
  else none

theorem scanWord_sound {bs rest : List UInt8} {w : Word} (h : scanWord bs = some (w, rest)) : bs = w.bytes ++ rest := by
  unfold scanWord at h
  split_ifs at h with hn ht hf
  · obtain ⟨rfl, rfl⟩ := Prod.mk.inj (Option.some.inj h)
    exact (List.prefix_iff_eq_append.mp hn).symm
  · obtain ⟨rfl, rfl⟩ := Prod.mk.inj (Option.some.inj h)
    exact (List.prefix_iff_eq_append.mp ht).symm
  · obtain ⟨rfl, rfl⟩ := Prod.mk.inj (Option.some.inj h)
    exact (List.prefix_iff_eq_append.mp hf).symm

theorem scanWord_complete (w : Word) (rest : List UInt8) : scanWord (w.bytes ++ rest) = some (w, rest) := by
  cases w <;> simp [scanWord, Word.bytes]

inductive Token
  | sym (s : Symbol)
  | word (w : Word)
  | num (n : NumLit)
  | str (s : StrLit)
  deriving DecidableEq

def Token.bytes : Token → List UInt8
  | sym s => [s.byte]
  | word w => w.bytes
  | num n => n.bytes
  | str s => 34 :: closedBytes s

/-- No byte behind a token carries it on. -/
def Token.Ends : Token → List UInt8 → Prop
  | num n, rest => NotStart n.Continues rest
  | _, _ => True

/-- Space, tab, line feed, carriage return. -/
def IsSpace (b : UInt8) : Prop := b = 32 ∨ b = 9 ∨ b = 10 ∨ b = 13

instance (b : UInt8) : Decidable (IsSpace b) := inferInstanceAs (Decidable (_ ∨ _))

/-- The token that starts at the first byte. -/
def tokenAt : List UInt8 → Option (Token × List UInt8)
  | [] => none
  | b :: rest =>
    match Symbol.ofByte b with
    | some s => some (.sym s, rest)
    | none =>
      if b = 34 then (scanString rest).map fun p => (.str p.1, p.2)
      else match scanWord (b :: rest) with
        | some (w, rest) => some (.word w, rest)
        | none => (scanNumber (b :: rest)).map fun p => (.num p.1, p.2)

/-- The first token, behind white space. -/
def next (bs : List UInt8) : Option (Token × List UInt8) := tokenAt (bs.dropWhile (fun b => decide (IsSpace b)))

/-- White space only. -/
def Blank (bs : List UInt8) : Prop := ∀ b ∈ bs, IsSpace b

instance (bs : List UInt8) : Decidable (Blank bs) := List.decidableBAll IsSpace bs

theorem tokenAt_sound {bs rest : List UInt8} {t : Token} (h : tokenAt bs = some (t, rest)) :
    bs = t.bytes ++ rest ∧ t.Ends rest := by
  unfold tokenAt at h
  split at h
  · cases h
  · rename_i b tail
    split at h
    · rename_i s hs
      obtain ⟨rfl, rfl⟩ := Prod.mk.inj (Option.some.inj h)
      exact ⟨by rw [← Symbol.byte_of_ofByte hs]; rfl, trivial⟩
    · split_ifs at h with hb
      · obtain ⟨⟨s, r⟩, hscan, heq⟩ := Option.map_eq_some_iff.mp h
        obtain ⟨rfl, rfl⟩ := Prod.mk.inj heq
        exact ⟨by rw [hb, scanString_sound tail hscan]; rfl, trivial⟩
      · split at h
        · rename_i w r hscan
          obtain ⟨rfl, rfl⟩ := Prod.mk.inj (Option.some.inj h)
          exact ⟨scanWord_sound hscan, trivial⟩
        · obtain ⟨⟨n, r⟩, hscan, heq⟩ := Option.map_eq_some_iff.mp h
          obtain ⟨rfl, rfl⟩ := Prod.mk.inj heq
          exact scanNumber_sound hscan

/-- What a number starts with: a digit or a minus sign. -/
theorem NumLit.exists_cons (n : NumLit) : ∃ b more, n.bytes = b :: more ∧ (IsDigit b ∨ b = 45) := by
  obtain ⟨b, more, hb, hdigit⟩ := n.int.exists_cons
  unfold NumLit.bytes negBytes
  split_ifs
  · exact ⟨45, _, rfl, Or.inr rfl⟩
  · exact ⟨b, more ++ (fracBytes n.frac ++ expBytes n.exp), by rw [hb]; rfl, Or.inl hdigit⟩

theorem Symbol.ofByte_eq_none {b : UInt8} (h : ∀ s : Symbol, s.byte ≠ b) : Symbol.ofByte b = none := by
  rw [Symbol.ofByte, List.find?_eq_none]
  intro s _
  simpa using h s

theorem digit_or_minus {b : UInt8} (h : IsDigit b ∨ b = 45) :
    Symbol.ofByte b = none ∧ b ≠ 34 ∧ ¬ IsSpace b ∧ b ≠ 110 ∧ b ≠ 116 ∧ b ≠ 102 := by
  have hne : ∀ c : UInt8, ¬ (IsDigit c ∨ c = 45) → b ≠ c := fun c hc hbc => hc (hbc ▸ h)
  refine ⟨Symbol.ofByte_eq_none fun s => (hne _ (by cases s <;> decide)).symm, hne _ (by decide), ?_,
    hne _ (by decide), hne _ (by decide), hne _ (by decide)⟩
  rintro (hb | hb | hb | hb)
  all_goals exact hne _ (by decide) hb

theorem tokenAt_complete (t : Token) {rest : List UInt8} (h : t.Ends rest) :
    tokenAt (t.bytes ++ rest) = some (t, rest) := by
  cases t with
  | sym s =>
    show tokenAt (s.byte :: rest) = _
    rw [tokenAt, Symbol.ofByte_byte]
  | word w =>
    have hscan := scanWord_complete w rest
    cases w <;> simp only [Token.bytes, Word.bytes, List.cons_append] at hscan ⊢ <;> rw [tokenAt, hscan] <;> rfl
  | str s =>
    show tokenAt (34 :: (closedBytes s ++ rest)) = _
    rw [tokenAt, scanString_complete]
    rfl
  | num n =>
    have hscan := scanNumber_complete n h
    obtain ⟨b, more, hb, hfirst⟩ := n.exists_cons
    obtain ⟨hsym, hquote, -, hn, ht, hf⟩ := digit_or_minus hfirst
    show tokenAt (n.bytes ++ rest) = _
    rw [hb, List.cons_append] at hscan ⊢
    have hword : scanWord (b :: (more ++ rest)) = none := by
      simp [scanWord, Word.bytes, hn.symm, ht.symm, hf.symm]
    rw [tokenAt, hsym]
    simp only
    rw [if_neg hquote, hword, hscan]
    rfl

theorem Token.exists_cons (t : Token) : ∃ b more, t.bytes = b :: more ∧ ¬ IsSpace b := by
  cases t with
  | sym s => exact ⟨s.byte, [], rfl, by cases s <;> decide⟩
  | word w => cases w <;> exact ⟨_, _, rfl, by decide⟩
  | str s => exact ⟨34, closedBytes s, rfl, by decide⟩
  | num n =>
    obtain ⟨b, more, hb, hfirst⟩ := n.exists_cons
    exact ⟨b, more, hb, (digit_or_minus hfirst).2.2.1⟩

theorem next_sound {bs rest : List UInt8} {t : Token} (h : next bs = some (t, rest)) :
    ∃ ws, Blank ws ∧ bs = ws ++ (t.bytes ++ rest) ∧ t.Ends rest := by
  obtain ⟨hbytes, hends⟩ := tokenAt_sound h
  refine ⟨bs.takeWhile (fun b => decide (IsSpace b)), fun b hb => by simpa using List.mem_takeWhile_imp hb, ?_, hends⟩
  rw [← hbytes, List.takeWhile_append_dropWhile]

theorem next_complete {ws rest : List UInt8} {t : Token} (hws : Blank ws) (h : t.Ends rest) :
    next (ws ++ (t.bytes ++ rest)) = some (t, rest) := by
  obtain ⟨b, more, hb, hspace⟩ := t.exists_cons
  have hstart : NotStart IsSpace (t.bytes ++ rest) := by
    rw [hb]
    exact notStart_cons _ hspace
  rw [next, List.dropWhile_append_of_pos (fun b hb => decide_eq_true (hws b hb)), dropWhile_eq_self hstart]
  exact tokenAt_complete t h

theorem next_shorter {bs rest : List UInt8} {t : Token} (h : next bs = some (t, rest)) : rest.length < bs.length := by
  obtain ⟨ws, -, rfl, -⟩ := next_sound h
  obtain ⟨b, more, hb, -⟩ := t.exists_cons
  rw [hb]
  simp only [List.length_append, List.length_cons]
  omega

/-- The bytes that carry some number on. -/
def IsNumberByte (b : UInt8) : Prop := IsDigit b ∨ b = 46 ∨ IsExpMark b

theorem NumLit.isNumberByte_of_continues {n : NumLit} {b : UInt8} (h : n.Continues b) : IsNumberByte b := by
  obtain ⟨neg, int, frac, exp⟩ := n
  rcases h with h | ⟨-, h | ⟨-, h⟩⟩
  · cases exp
    · exact Or.inr (Or.inr h)
    · exact Or.inl h
  · cases frac
    · exact Or.inr (Or.inl h)
    · exact Or.inl h
  · cases int
    · exact h.elim
    · exact Or.inl h

theorem Token.Ends.append {t : Token} {rest more : List UInt8} (h : t.Ends rest) (hmore : NotStart IsNumberByte more) :
    t.Ends (rest ++ more) := by
  cases t with
  | num n => exact NotStart.append h (hmore.mono fun _ hb => NumLit.isNumberByte_of_continues hb)
  | sym s => trivial
  | word w => trivial
  | str s => trivial

theorem next_append {bs rest more : List UInt8} {t : Token} (h : next bs = some (t, rest))
    (hmore : NotStart IsNumberByte more) : next (bs ++ more) = some (t, rest ++ more) := by
  obtain ⟨ws, hws, rfl, hends⟩ := next_sound h
  rw [List.append_assoc, List.append_assoc]
  exact next_complete hws (hends.append hmore)

/-! ## Reading a list of tokens -/

/-- The tokens `ts` stand at the front of `bs`, and `rest` behind them. -/
def Reads : List UInt8 → List Token → List UInt8 → Prop
  | bs, [], rest => bs = rest
  | bs, t :: ts, rest => ∃ mid, next bs = some (t, mid) ∧ Reads mid ts rest

@[simp] theorem reads_nil {bs rest : List UInt8} : Reads bs [] rest ↔ bs = rest := Iff.rfl

theorem reads_cons {bs rest : List UInt8} {t : Token} {ts : List Token} :
    Reads bs (t :: ts) rest ↔ ∃ mid, next bs = some (t, mid) ∧ Reads mid ts rest := Iff.rfl

theorem reads_append {bs rest : List UInt8} {ts us : List Token} :
    Reads bs (ts ++ us) rest ↔ ∃ mid, Reads bs ts mid ∧ Reads mid us rest := by
  induction ts generalizing bs with
  | nil => simp
  | cons t ts ih =>
    simp only [List.cons_append, reads_cons, ih]
    grind

theorem Reads.append {bs rest more : List UInt8} {ts : List Token} (h : Reads bs ts rest)
    (hmore : NotStart IsNumberByte more) : Reads (bs ++ more) ts (rest ++ more) := by
  induction ts generalizing bs with
  | nil => rw [reads_nil.mp h, reads_nil]
  | cons t ts ih =>
    obtain ⟨mid, hnext, htail⟩ := h
    exact ⟨mid ++ more, next_append hnext hmore, ih htail⟩

/-- The bytes that are not white space. -/
def solid (bs : List UInt8) : List UInt8 := bs.filter fun b => ¬ IsSpace b

theorem solid_append (bs cs : List UInt8) : solid (bs ++ cs) = solid bs ++ solid cs := List.filter_append ..

theorem solid_eq_nil {bs : List UInt8} : solid bs = [] ↔ Blank bs := by simp [solid, Blank]

/-- Reading passes over white space and the tokens' own bytes. -/
theorem Reads.solid {bs rest : List UInt8} {ts : List Token} (h : Reads bs ts rest) :
    Json.solid bs = Json.solid (ts.flatMap Token.bytes) ++ Json.solid rest := by
  induction ts generalizing bs with
  | nil => rw [reads_nil.mp h]; rfl
  | cons t ts ih =>
    obtain ⟨mid, hnext, htail⟩ := h
    obtain ⟨ws, hws, rfl, -⟩ := next_sound hnext
    rw [solid_append, solid_append, solid_eq_nil.mpr hws, ih htail, List.flatMap_cons, solid_append]
    simp

end Json
