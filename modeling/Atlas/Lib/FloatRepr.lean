import Atlas.Lib.Binary64
import Atlas.Lib.Json.Lexer
import Mathlib.Data.List.DropRight

/-!
# `repr` of a float

* `shortest` : the fewest significant digits that read back as the number, the nearest to it of those;
* `literal` : digits and the place of the point as Python writes them: with an exponent when the number is below 0.0001
  or has more than 16 digits in front of the point; `value_literal`;
* `repr` : both; `round_repr` : it reads back.
-/

namespace FloatRepr
open Json

/-! ## Digits -/

/-- The exponent of the last of `k` significant digits. -/
def unit (x : ℚ) (k : Nat) : ℤ := Int.log 10 |x| + 1 - k

def signed (x y : ℚ) : ℚ := if x < 0 then -y else y

/-- The decimal reads back as the number. -/
def ReadsBack (x : ℚ) (c : ℕ) (e : ℤ) : Prop := Binary64.round (signed x (c * 10 ^ e)) = some x

instance (x : ℚ) (c : ℕ) (e : ℤ) : Decidable (ReadsBack x c e) := inferInstanceAs (Decidable (_ = _))

/-- Of the two decimals with `k` digits around the number, the nearer one that reads back. -/
def candidate (x : ℚ) (k : Nat) : Option ℕ :=
  let exact := |x| / 10 ^ unit x k
  let below := ⌊exact⌋₊
  if ReadsBack x below (unit x k) ∧ (exact - below ≤ 1 / 2 ∨ ¬ ReadsBack x (below + 1) (unit x k)) then some below
  else if ReadsBack x (below + 1) (unit x k) then some (below + 1)
  else none

theorem readsBack_of_candidate {x : ℚ} {k c : Nat} (h : candidate x k = some c) : ReadsBack x c (unit x k) := by
  unfold candidate at h
  dsimp only at h
  split_ifs at h with hbelow habove
  · rw [← Option.some.inj h]
    exact hbelow.1
  · rw [← Option.some.inj h]
    exact_mod_cast habove

attribute [irreducible] candidate

/-- The first candidate from `k` digits on; behind them, all the digits there are. -/
def search (x : ℚ) : Nat → Nat → ℕ × ℤ
  | 0, k => (⌊|x| / 10 ^ unit x k⌋₊, unit x k)
  | more + 1, k =>
    match candidate x k with
    | some c => (c, unit x k)
    | none => search x more (k + 1)

/-- No double has digits behind the 1074th place. -/
def shortest (x : ℚ) : ℕ × ℤ := search x (Int.log 10 |x| + 1074).toNat 1

theorem search_zero (x : ℚ) (k : Nat) : search x 0 k = (⌊|x| / 10 ^ unit x k⌋₊, unit x k) := rfl

theorem search_succ (x : ℚ) (more k : Nat) : search x (more + 1) k =
    match candidate x k with
    | some c => (c, unit x k)
    | none => search x more (k + 1) := rfl

theorem search_cases (x : ℚ) (more k : Nat) :
    ReadsBack x (search x more k).1 (search x more k).2 ∨
      search x more k = (⌊|x| / 10 ^ unit x (k + more)⌋₊, unit x (k + more)) := by
  induction more generalizing k with
  | zero => exact .inr (by rw [search_zero, Nat.add_zero])
  | succ more ih =>
    rw [search_succ]
    split
    · next c hc => exact .inl (readsBack_of_candidate hc)
    · rw [show k + (more + 1) = k + 1 + more by omega]
      exact ih (k + 1)

/-- A double is a multiple of the smallest one. -/
theorem exists_multiple {x : ℚ} (hx : Binary64.round x = some x) : ∃ n : ℤ, x = n * 2 ^ (-1074 : ℤ) := by
  have hplace : -1074 ≤ Binary64.lastPlace x := le_max_right _ _
  obtain ⟨j, hj⟩ := Int.eq_ofNat_of_zero_le (show 0 ≤ Binary64.lastPlace x + 1074 by omega)
  refine ⟨Binary64.nearestEven (x / 2 ^ Binary64.lastPlace x) * 2 ^ j, ?_⟩
  conv_lhs => rw [Binary64.round_eq hx]
  rw [show Binary64.lastPlace x = j + -1074 by omega, zpow_add₀ (by norm_num), zpow_natCast]
  rw [Int.cast_mul, Int.cast_pow, Int.cast_ofNat, mul_assoc]

theorem ten_zpow_le (j : ℕ) : (((10 : ℕ) : ℚ)) ^ (-j : ℤ) ≤ 2 ^ (-j : ℤ) := by
  rw [zpow_neg, zpow_neg, zpow_natCast, zpow_natCast]
  exact inv_anti₀ (by positivity) (pow_le_pow_left₀ (by norm_num) (by norm_num) j)

theorem two_zpow_le_abs {x : ℚ} (hx : Binary64.round x = some x) (h : x ≠ 0) : (2 : ℚ) ^ (-1074 : ℤ) ≤ |x| := by
  obtain ⟨n, hn⟩ := exists_multiple hx
  have hpos := Binary64.two_zpow_pos (-1074)
  have hne : n ≠ 0 := by
    rintro rfl
    exact h (by rw [hn, Int.cast_zero, zero_mul])
  have hone : (1 : ℚ) ≤ |(n : ℚ)| := by exact_mod_cast Int.one_le_abs hne
  rw [hn, abs_mul, abs_of_pos hpos]
  exact le_mul_of_one_le_left hpos.le hone

/-- A multiple of a power of 1/2 has no digits behind that place. -/
theorem exact_multiple (n : ℤ) (j : ℕ) : (⌊|(n : ℚ) * 2 ^ (-j : ℤ)| / 10 ^ (-j : ℤ)⌋₊ : ℚ) * 10 ^ (-j : ℤ) =
    |(n : ℚ) * 2 ^ (-j : ℤ)| := by
  have hmultiple : |(n : ℚ) * 2 ^ (-j : ℤ)| / 10 ^ (-j : ℤ) = ((n.natAbs * 5 ^ j : ℕ) : ℚ) := by
    rw [abs_mul, abs_of_pos (Binary64.two_zpow_pos _), zpow_neg, zpow_neg, div_inv_eq_mul, mul_assoc,
      show (10 : ℚ) = 2 * 5 by norm_num, mul_zpow, inv_mul_cancel_left₀ (by positivity), zpow_natCast]
    push_cast [Nat.cast_natAbs]
    rfl
  rw [hmultiple, Nat.floor_natCast, ← hmultiple, div_mul_cancel₀ _ (by positivity)]

/-- The digits up to the 1074th place are all there are. -/
theorem exact_digits {x : ℚ} (hx : Binary64.round x = some x) :
    (⌊|x| / 10 ^ (-1074 : ℤ)⌋₊ : ℚ) * 10 ^ (-1074 : ℤ) = |x| := by
  obtain ⟨n, hn⟩ := exists_multiple hx
  rw [hn]
  exact exact_multiple n 1074

theorem readsBack_shortest {x : ℚ} (hx : Binary64.round x = some x) : ReadsBack x (shortest x).1 (shortest x).2 := by
  unfold shortest
  rcases search_cases x (Int.log 10 |x| + 1074).toNat 1 with hback | hall
  · exact hback
  · have hlog : (-1074 : ℤ) ≤ Int.log 10 |x| := by
      by_cases h : x = 0
      · rw [h, abs_zero, Int.log_of_right_le_zero _ le_rfl]
        norm_num
      · refine (Int.zpow_le_iff_le_log (by norm_num) (abs_pos.mpr h)).mp (le_trans ?_ (two_zpow_le_abs hx h))
        exact ten_zpow_le 1074
    have hunit : unit x (1 + (Int.log 10 |x| + 1074).toNat) = -1074 := by
      unfold unit
      omega
    rw [hall, hunit]
    show Binary64.round (signed x _) = some x
    rw [exact_digits hx]
    unfold signed
    split_ifs with hneg
    · rwa [abs_of_neg hneg, neg_neg]
    · rwa [abs_of_nonneg (not_lt.mp hneg)]

/-! ## Literals -/

/-- Digits, the first of which is not zero. -/
structure Significand where
  digits : Digits
  head : digits.bytes.head? ≠ some 48

theorem isDigit_zero : Decimal.IsDigit 48 := by decide

theorem isDigit_zeros {k : Nat} {b : UInt8} (h : b ∈ List.replicate k 48) : Decimal.IsDigit b := by
  rw [List.eq_of_mem_replicate h]
  exact isDigit_zero

/-- More zeros behind the digits. -/
def Significand.padded (d : Significand) (k : Nat) : Significand where
  digits := ⟨d.digits.bytes ++ List.replicate k 48, by simp [d.digits.ne_nil],
    fun b hb => (List.mem_append.mp hb).elim (d.digits.isDigit b) isDigit_zeros⟩
  head := by
    rw [List.head?_append_of_ne_nil _ d.digits.ne_nil]
    exact d.head

/-- The first `k` digits. -/
def Significand.front (d : Significand) (k : Nat) (hk : 0 < k) : Significand where
  digits := ⟨d.digits.bytes.take k, by simp [d.digits.ne_nil, hk.ne'],
    fun b hb => d.digits.isDigit b (List.mem_of_mem_take hb)⟩
  head := by
    rw [List.head?_take, if_neg hk.ne']
    exact d.head

/-- The digits behind the first `k`. -/
def Significand.back (d : Significand) (k : Nat) (hk : k < d.digits.bytes.length) : Digits where
  bytes := d.digits.bytes.drop k
  ne_nil := by simp [hk]
  isDigit b hb := d.digits.isDigit b (List.mem_of_mem_drop hb)

/-- Zeros in front of the digits. -/
def Significand.lowered (d : Significand) (k : Nat) : Digits where
  bytes := List.replicate k 48 ++ d.digits.bytes
  ne_nil := by simp [d.digits.ne_nil]
  isDigit b hb := (List.mem_append.mp hb).elim isDigit_zeros (d.digits.isDigit b)

def oneZero : Digits := ⟨[48], by decide, List.forall_mem_singleton.mpr isDigit_zero⟩

/-- At least two digits. -/
def twoDigits (k : Nat) : Digits where
  bytes := Decimal.renderPadded 2 k
  ne_nil := List.append_ne_nil_of_right_ne_nil _ (Decimal.render_ne_nil k)
  isDigit _ hb := (List.mem_append.mp hb).elim isDigit_zeros Decimal.isDigit_of_mem_render

/-- The digits, with the point behind the first `point` of them. -/
def literal (neg : Bool) (d : Significand) (point : ℤ) : NumLit :=
  if -4 < point ∧ point ≤ 16 then
    if h : 0 < point.toNat then
      if hlt : point.toNat < d.digits.bytes.length then
        ⟨neg, .pos (d.front point.toNat h).digits (d.front point.toNat h).head, some (d.back point.toNat hlt), none⟩
      else
        let padded := d.padded (point.toNat - d.digits.bytes.length)
        ⟨neg, .pos padded.digits padded.head, some oneZero, none⟩
    else ⟨neg, .zero, some (d.lowered (-point).toNat), none⟩
  else
    ⟨neg, .pos (d.front 1 one_pos).digits (d.front 1 one_pos).head,
      if h : 1 < d.digits.bytes.length then some (d.back 1 h) else none,
      some ⟨false, some (point < 1), twoDigits (point - 1).natAbs⟩⟩

/-- What a literal stands for, but for its sign. -/
def size (n : NumLit) : ℚ := { n with neg := false }.value

theorem value_eq_size (n : NumLit) : n.value = if n.neg then -size n else size n := by
  unfold size NumLit.value
  rfl

theorem size_mk (neg : Bool) (int : IntPart) (frac : Option Digits) (exp : Option Exponent) :
    size ⟨neg, int, frac, exp⟩ = Decimal.value (int.bytes ++ frac.elim [] Digits.bytes) *
      10 ^ (exp.elim 0 (fun e => if e.sign = some true then -(Decimal.value e.digits.bytes : ℤ)
        else Decimal.value e.digits.bytes) - frac.elim 0 fun d => (d.bytes.length : ℤ)) := by
  unfold size NumLit.value
  rw [if_neg Bool.false_ne_true]

theorem value_twoDigits (k : Nat) : Decimal.value (twoDigits k).bytes = k := Decimal.value_renderPadded 2 k

/-- The digits in two parts. -/
theorem size_split (neg : Bool) (d : Significand) {k : Nat} (hk : 0 < k) (hlt : k < d.digits.bytes.length)
    (exp : Option Exponent) : size ⟨neg, .pos (d.front k hk).digits (d.front k hk).head, some (d.back k hlt), exp⟩ =
      Decimal.value d.digits.bytes * 10 ^ (exp.elim 0 (fun e => if e.sign = some true then
        -(Decimal.value e.digits.bytes : ℤ) else Decimal.value e.digits.bytes) - (d.digits.bytes.length - k)) := by
  rw [size_mk]
  show ((Decimal.value (d.digits.bytes.take k ++ d.digits.bytes.drop k) : ℕ) : ℚ) *
    10 ^ (_ - ((d.digits.bytes.drop k).length : ℤ)) = _
  rw [List.take_append_drop, List.length_drop, Nat.cast_sub hlt.le]

theorem size_literal (neg : Bool) (d : Significand) (point : ℤ) : size (literal neg d point) =
    Decimal.value d.digits.bytes * 10 ^ (point - d.digits.bytes.length) := by
  have hexponent : (if (some (decide (point < 1)) : Option Bool) = some true
      then -(Decimal.value (twoDigits (point - 1).natAbs).bytes : ℤ)
      else Decimal.value (twoDigits (point - 1).natAbs).bytes) = point - 1 := by
    rw [value_twoDigits]
    split_ifs with hneg <;> simp at hneg <;> omega
  unfold literal
  split_ifs with hplain hpos hlt hmore
  · rw [size_split]
    congr 2
    show 0 - ((d.digits.bytes.length : ℤ) - point.toNat) = _
    omega
  · rw [size_mk]
    show ((Decimal.value (d.digits.bytes ++ List.replicate (point.toNat - d.digits.bytes.length) 48 ++ [48]) : ℕ) : ℚ) *
      10 ^ (0 - (1 : ℤ)) = _
    rw [Decimal.value_concat, Decimal.value_append, Decimal.value_replicate_zero, List.length_replicate]
    obtain ⟨k, hk⟩ := Int.eq_ofNat_of_zero_le (show 0 ≤ point - d.digits.bytes.length by omega)
    rw [hk, show point.toNat - d.digits.bytes.length = k by omega, zpow_natCast]
    push_cast
    rw [zpow_neg_one, add_zero, add_zero, mul_inv_cancel_right₀ (by norm_num)]
  · rw [size_mk]
    show ((Decimal.value ([48] ++ (List.replicate (-point).toNat 48 ++ d.digits.bytes)) : ℕ) : ℚ) *
      10 ^ (0 - ((List.replicate (-point).toNat (48 : UInt8) ++ d.digits.bytes).length : ℤ)) = _
    rw [Decimal.value_append, Decimal.value_append, Decimal.value_replicate_zero, List.length_append,
      List.length_replicate]
    rw [show Decimal.value [48] = 0 from rfl, Nat.zero_mul, Nat.zero_mul, Nat.zero_add, Nat.zero_add]
    congr 2
    push_cast
    omega
  · rw [size_split]
    congr 2
    show (if _ then _ else _) - _ = _
    rw [hexponent]
    push_cast
    omega
  · have hone : d.digits.bytes.length = 1 := by
      have := List.length_pos_iff.mpr d.digits.ne_nil
      omega
    rw [size_mk]
    show ((Decimal.value (d.digits.bytes.take 1 ++ []) : ℕ) : ℚ) * 10 ^ ((if _ then _ else _) - (0 : ℤ)) = _
    rw [hexponent, List.append_nil, List.take_of_length_le hone.le, hone]
    congr 2
    omega

/-! ## Numbers -/

theorem head?_render {c : ℕ} (h : c ≠ 0) : (Decimal.render c).head? ≠ some 48 := by
  have hne : Nat.digits 10 c ≠ [] := Nat.digits_ne_nil_iff_ne_zero.mpr h
  have hlast := Nat.getLast_digit_ne_zero 10 h
  have hlt := Nat.digits_lt_base (by decide) (List.getLast_mem hne)
  rw [Decimal.render, if_neg h, List.head?_map, List.head?_reverse, List.getLast?_eq_some_getLast hne, Option.map_some]
  intro heq
  have hbyte := congrArg UInt8.toNat (Option.some.inj heq)
  rw [Decimal.toNat_digitByte hlt] at hbyte
  exact hlast (Nat.add_left_cancel hbyte)

def isZero (b : UInt8) : Bool := b = 48

/-- The zeros at the end. -/
theorem render_eq (c : ℕ) : Decimal.render c = (Decimal.render c).rdropWhile isZero ++
    List.replicate ((Decimal.render c).rtakeWhile isZero).length 48 := by
  have hzeros : (Decimal.render c).rtakeWhile isZero =
      List.replicate ((Decimal.render c).rtakeWhile isZero).length 48 := by
    refine List.eq_replicate_iff.mpr ⟨rfl, fun b hb => ?_⟩
    have hzero : isZero b = true := List.mem_rtakeWhile_imp hb
    exact of_decide_eq_true hzero
  rw [← hzeros]
  exact List.rdropWhile_append_rtakeWhile.symm

theorem rdropWhile_ne_nil {c : ℕ} (h : c ≠ 0) : (Decimal.render c).rdropWhile isZero ≠ [] := by
  intro hnil
  have hvalue := Decimal.value_render c
  rw [render_eq, hnil, List.nil_append, Decimal.value_replicate_zero] at hvalue
  exact h hvalue.symm

/-- The digits of a number, without the zeros at the end. -/
def significand (c : ℕ) (h : c ≠ 0) : Significand where
  digits := ⟨(Decimal.render c).rdropWhile isZero, rdropWhile_ne_nil h,
    fun _ hb => Decimal.isDigit_of_mem_render ((List.rdropWhile_prefix isZero _).mem hb)⟩
  head := by
    have hhead := head?_render h
    rwa [render_eq, List.head?_append_of_ne_nil _ (rdropWhile_ne_nil h)] at hhead

theorem value_significand (c : ℕ) (h : c ≠ 0) (e : ℤ) :
    (Decimal.value (significand c h).digits.bytes : ℚ) *
      10 ^ ((Decimal.render c).length + e - (significand c h).digits.bytes.length) = c * 10 ^ e := by
  have hvalue := Decimal.value_render c
  have hlength := congrArg List.length (render_eq c)
  rw [render_eq, Decimal.value_append, Decimal.value_replicate_zero, List.length_replicate, Nat.add_zero] at hvalue
  rw [List.length_append, List.length_replicate] at hlength
  have hexponent : ((Decimal.render c).length + e - (significand c h).digits.bytes.length : ℤ) =
      ((Decimal.render c).rtakeWhile isZero).length + e := by
    show (((Decimal.render c).length : ℤ) + e - ((Decimal.render c).rdropWhile isZero).length : ℤ) = _
    omega
  rw [hexponent, zpow_add₀ (by norm_num), zpow_natCast, ← mul_assoc]
  congr 1
  exact_mod_cast hvalue

/-- `repr(x)` -/
def repr (x : ℚ) : NumLit :=
  if h : (shortest x).1 = 0 then ⟨false, .zero, some oneZero, none⟩
  else literal (x < 0) (significand _ h) ((Decimal.render (shortest x).1).length + (shortest x).2)

theorem neg_literal (neg : Bool) (d : Significand) (point : ℤ) : (literal neg d point).neg = neg := by
  unfold literal
  split_ifs <;> rfl

theorem neg_of_neg_repr {x : ℚ} (h : (repr x).neg = true) : x < 0 := by
  unfold repr at h
  split_ifs at h
  rw [neg_literal] at h
  exact of_decide_eq_true h

/-- No literal is an integer's. -/
theorem not_isInt_repr (x : ℚ) : ¬ (repr x).IsInt := by
  unfold repr literal NumLit.IsInt
  split_ifs <;> simp

/-- **What is written reads back.** -/
theorem round_repr {x : ℚ} (hx : Binary64.round x = some x) : Binary64.round (repr x).value = some x := by
  have hback := readsBack_shortest hx
  unfold ReadsBack signed at hback
  unfold repr
  split_ifs with hzero
  · rw [hzero, Nat.cast_zero, zero_mul, neg_zero, ite_self] at hback
    rw [value_eq_size, size_mk, if_neg Bool.false_ne_true]
    show Binary64.round (((Decimal.value [48, 48] : ℕ) : ℚ) * _) = some x
    rwa [show Decimal.value [48, 48] = 0 from rfl, Nat.cast_zero, zero_mul]
  · rw [value_eq_size, size_literal, value_significand, neg_literal]
    simpa using hback

end FloatRepr
