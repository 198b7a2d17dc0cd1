import Mathlib.Data.Nat.Digits.Lemmas
import Mathlib.Tactic

/-!
# Decimal numerals as ASCII bytes

`render n` : the shortest numeral of `n`; `renderPadded w n` : the same, filled with zeros on the left up to `w`
digits; `value` reads a byte string of digits as a numeral. `value_render`, `value_renderPadded` : the round trips.
`lt_of_value_lt` : numerals of one length are ordered as their numbers are.
-/

namespace Decimal

/-- The byte of a decimal digit. -/
def digitByte (d : Nat) : UInt8 := UInt8.ofNat (48 + d)

/-- `'0' ≤ b ≤ '9'` -/
def IsDigit (b : UInt8) : Prop := 48 ≤ b.toNat ∧ b.toNat ≤ 57

instance (b : UInt8) : Decidable (IsDigit b) := inferInstanceAs (Decidable (_ ∧ _))

def render (n : Nat) : List UInt8 :=
  if n = 0 then [48] else (Nat.digits 10 n).reverse.map digitByte

def renderPadded (w n : Nat) : List UInt8 :=
  List.replicate (w - (render n).length) 48 ++ render n

/-- The number a string of digits stands for, leading zeros allowed. -/
def value (bs : List UInt8) : Nat := bs.foldl (fun acc b => acc * 10 + (b.toNat - 48)) 0

theorem toNat_digitByte {d : Nat} (h : d < 10) : (digitByte d).toNat = 48 + d := by
  rw [digitByte, UInt8.toNat_ofNat', Nat.mod_eq_of_lt (by omega)]

theorem isDigit_digitByte {d : Nat} (h : d < 10) : IsDigit (digitByte d) := by
  rw [IsDigit, toNat_digitByte h]
  omega

theorem render_ne_nil (n : Nat) : render n ≠ [] := by
  unfold render
  split_ifs with h
  · simp
  · simp [Nat.digits_ne_nil_iff_ne_zero.mpr h]

theorem isDigit_of_mem_render {n : Nat} {b : UInt8} (h : b ∈ render n) : IsDigit b := by
  unfold render at h
  split_ifs at h with hn
  · rw [List.mem_singleton] at h
    subst h
    decide
  · obtain ⟨d, hd, rfl⟩ := List.mem_map.mp h
    exact isDigit_digitByte (Nat.digits_lt_base (by decide) (List.mem_reverse.mp hd))

theorem value_concat (bs : List UInt8) (b : UInt8) : value (bs ++ [b]) = value bs * 10 + (b.toNat - 48) := by
  simp [value]

theorem value_append (as bs : List UInt8) : value (as ++ bs) = value as * 10 ^ bs.length + value bs := by
  induction bs using List.reverseRecOn with
  | nil => simp [value]
  | append_singleton bs b ih =>
    rw [← List.append_assoc, value_concat, ih, value_concat, List.length_append, List.length_singleton, pow_succ]
    ring

theorem value_cons (b : UInt8) (bs : List UInt8) :
    value (b :: bs) = (b.toNat - 48) * 10 ^ bs.length + value bs := by
  rw [← List.singleton_append, value_append]
  simp [value]

theorem value_lt {bs : List UInt8} (h : ∀ b ∈ bs, IsDigit b) : value bs < 10 ^ bs.length := by
  induction bs with
  | nil => exact Nat.one_pos
  | cons b bs ih =>
    have htail := ih fun c hc => h c (List.mem_cons_of_mem _ hc)
    have hdigit : b.toNat - 48 ≤ 9 := by
      have := (h b (List.mem_cons_self ..)).2
      omega
    have hscaled := Nat.mul_le_mul_right (10 ^ bs.length) hdigit
    rw [value_cons, List.length_cons, pow_succ]
    omega

/-- Numerals of one length are ordered as their numbers are. -/
theorem lt_of_value_lt {as bs : List UInt8} (hlen : as.length = bs.length) (has : ∀ b ∈ as, IsDigit b)
    (hbs : ∀ b ∈ bs, IsDigit b) (h : value as < value bs) : as < bs := by
  induction as generalizing bs with
  | nil =>
    obtain rfl := List.length_eq_zero_iff.mp hlen.symm
    exact absurd h (lt_irrefl _)
  | cons a as ih =>
    cases bs with
    | nil => cases hlen
    | cons b bs =>
      have hlen' : as.length = bs.length := Nat.succ.inj hlen
      have has' : ∀ c ∈ as, IsDigit c := fun c hc => has c (List.mem_cons_of_mem _ hc)
      have hbs' : ∀ c ∈ bs, IsDigit c := fun c hc => hbs c (List.mem_cons_of_mem _ hc)
      have ha := has a (List.mem_cons_self ..)
      have hb := hbs b (List.mem_cons_self ..)
      unfold IsDigit at ha hb
      rw [value_cons, value_cons, hlen'] at h
      rw [List.cons_lt_cons_iff]
      rcases lt_trichotomy a.toNat b.toNat with hlt | heq | hgt
      · exact Or.inl (UInt8.lt_iff_toNat_lt.mpr hlt)
      · refine Or.inr ⟨UInt8.toNat_inj.mp heq, ih hlen' has' hbs' ?_⟩
        rw [heq] at h
        omega
      · -- a first digit above the other makes up for all the digits behind it
        have hover := Nat.mul_le_mul_right (10 ^ bs.length) (show b.toNat - 48 + 1 ≤ a.toNat - 48 by omega)
        have hrest := value_lt hbs'
        rw [Nat.add_mul, Nat.one_mul] at hover
        omega

theorem value_replicate_zero (k : Nat) : value (List.replicate k 48) = 0 := by
  induction k with
  | zero => rfl
  | succ k ih => rw [List.replicate_succ', value_concat, ih]; rfl

theorem value_map_digitByte (ds : List Nat) (h : ∀ d ∈ ds, d < 10) :
    value (ds.reverse.map digitByte) = Nat.ofDigits 10 ds := by
  induction ds with
  | nil => rfl
  | cons d ds ih =>
    have hd := h d (List.mem_cons_self ..)
    rw [List.reverse_cons, List.map_append, List.map_singleton, value_concat, toNat_digitByte hd,
      ih (fun e he => h e (List.mem_cons_of_mem _ he)), Nat.ofDigits_cons]
    omega

theorem value_render (n : Nat) : value (render n) = n := by
  unfold render
  split_ifs with hn
  · subst hn
    rfl
  · rw [value_map_digitByte _ (fun d hd => Nat.digits_lt_base (by decide) hd), Nat.ofDigits_digits]

theorem value_renderPadded (w n : Nat) : value (renderPadded w n) = n := by
  rw [renderPadded, value_append, value_replicate_zero, Nat.zero_mul, Nat.zero_add, value_render]

theorem isDigit_of_mem_renderPadded {w n : Nat} {b : UInt8} (h : b ∈ renderPadded w n) : IsDigit b := by
  rcases List.mem_append.mp h with h | h
  · rw [List.eq_of_mem_replicate h]
    decide
  · exact isDigit_of_mem_render h

theorem length_render_le {w n : Nat} (hw : 0 < w) (h : n < 10 ^ w) : (render n).length ≤ w := by
  unfold render
  split_ifs with hn
  · exact hw
  · rw [List.length_map, List.length_reverse]
    exact (Nat.digits_length_le_iff (by decide) n).mpr h

theorem length_renderPadded {w n : Nat} (hw : 0 < w) (h : n < 10 ^ w) : (renderPadded w n).length = w := by
  have := length_render_le hw h
  rw [renderPadded, List.length_append, List.length_replicate]
  omega

end Decimal
