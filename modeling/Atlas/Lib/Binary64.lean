import Mathlib.Data.Int.Log
import Mathlib.Tactic

/-!
# Rounding to double precision

* `nearestEven` : the nearest integer, the even one of two;
* `round` : the nearest double-precision number, ties to even, absent when it is out of range;
* `round_intCast` : integers below 2^53 are exact; `le_round`, `round_le` : rounding does not cross them;
* `round_round` : it leaves what it has made;
* `F64` : the doubles, with NaN, the infinities and the negative zero.
-/

namespace Binary64

/-- The nearest integer, ties to even. -/
def nearestEven (x : ℚ) : ℤ :=
  if x - ⌊x⌋ < 1 / 2 then ⌊x⌋
  else if 1 / 2 < x - ⌊x⌋ then ⌊x⌋ + 1
  else if ⌊x⌋ % 2 = 0 then ⌊x⌋ else ⌊x⌋ + 1

/-- The exponent of the last place of a number: 53 significant bits, and none below 2^-1074. -/
def lastPlace (q : ℚ) : ℤ := max (Int.log 2 |q| - 52) (-1074)

/-- The nearest double, absent when its magnitude is 2^1024 or more. -/
def round (q : ℚ) : Option ℚ :=
  let r : ℚ := nearestEven (q / 2 ^ lastPlace q) * 2 ^ lastPlace q
  if |r| < 2 ^ 1024 then some r else none

theorem nearestEven_eq (x : ℚ) : nearestEven x = ⌊x⌋ ∨ (nearestEven x = ⌊x⌋ + 1 ∧ 1 / 2 ≤ x - ⌊x⌋) := by
  unfold nearestEven
  split_ifs with h1 h2 h3
  · exact Or.inl rfl
  · exact Or.inr ⟨rfl, h2.le⟩
  · exact Or.inl rfl
  · exact Or.inr ⟨rfl, not_lt.mp h1⟩

theorem le_nearestEven {x : ℚ} {m : ℤ} (h : m ≤ x) : m ≤ nearestEven x := by
  have hfloor : m ≤ ⌊x⌋ := Int.le_floor.mpr h
  rcases nearestEven_eq x with hx | ⟨hx, -⟩ <;> omega

theorem nearestEven_le {x : ℚ} {m : ℤ} (h : x ≤ m) : nearestEven x ≤ m := by
  have hfloor : ⌊x⌋ ≤ m := Int.floor_le_iff.mpr (by linarith)
  rcases nearestEven_eq x with hx | ⟨hx, hhalf⟩
  · omega
  · -- the number above is only taken when `x` is not the integer below
    have hlt : (⌊x⌋ : ℚ) < m := by linarith
    have : ⌊x⌋ < m := by exact_mod_cast hlt
    omega

theorem nearestEven_intCast (n : ℤ) : nearestEven n = n :=
  le_antisymm (nearestEven_le le_rfl) (le_nearestEven le_rfl)

/-- An integer is a multiple of the last place, if that is no more than 1. -/
theorem intCast_div {k : ℤ} {e : ℤ} (he : e ≤ 0) : ∃ m : ℤ, (k : ℚ) / 2 ^ e = m := by
  obtain ⟨j, rfl⟩ : ∃ j : ℕ, e = -j := ⟨e.natAbs, by omega⟩
  exact ⟨k * 2 ^ j, by push_cast; rw [zpow_neg, zpow_natCast, div_inv_eq_mul]⟩

theorem lastPlace_nonpos {q : ℚ} (h : |q| < 2 ^ (53 : ℤ)) : lastPlace q ≤ 0 := by
  have hlog : Int.log 2 |q| < 53 := by
    by_cases hq : q = 0
    · rw [hq, abs_zero, Int.log_of_right_le_zero _ le_rfl]
      norm_num
    · exact (Int.lt_zpow_iff_log_lt (by norm_num) (abs_pos.mpr hq)).mp (by exact_mod_cast h)
  unfold lastPlace
  omega

/-- A number whose last place is above 1 has 53 significant bits in front of the point. -/
theorem le_abs_of_lastPlace {q : ℚ} (h : 0 < lastPlace q) : (2 : ℚ) ^ 52 * 2 ^ lastPlace q ≤ |q| := by
  have hlog : Int.log 2 |q| = 52 + lastPlace q := by
    unfold lastPlace at h ⊢
    omega
  have hq : q ≠ 0 := by
    rintro rfl
    rw [abs_zero, Int.log_of_right_le_zero _ le_rfl] at hlog
    omega
  calc (2 : ℚ) ^ 52 * 2 ^ lastPlace q = 2 ^ (52 + lastPlace q) := by
        rw [zpow_add₀ (by norm_num)]
        norm_num
    _ ≤ |q| := by
        rw [← hlog]
        exact_mod_cast Int.zpow_log_le_self (b := 2) (by norm_num) (abs_pos.mpr hq)

theorem round_eq {q r : ℚ} (h : round q = some r) : r = nearestEven (q / 2 ^ lastPlace q) * 2 ^ lastPlace q := by
  unfold round at h
  simp only at h
  split_ifs at h
  exact (Option.some.inj h).symm

theorem two_zpow_pos (e : ℤ) : (0 : ℚ) < 2 ^ e := zpow_pos (by norm_num) e

theorem two_pow_le {q : ℚ} (h : 0 < lastPlace q) : (2 : ℚ) ^ 53 ≤ 2 ^ 52 * 2 ^ lastPlace q := by
  have hle : (2 : ℚ) ^ (1 : ℤ) ≤ 2 ^ lastPlace q := zpow_le_zpow_right₀ (by norm_num) h
  rw [zpow_one] at hle
  linarith

/-- Rounding does not fall below an integer of 53 bits. -/
theorem le_round {q r : ℚ} {k : ℤ} (hk : |(k : ℚ)| < 2 ^ 53) (hq : k ≤ q) (h : round q = some r) : k ≤ r := by
  have hpos := two_zpow_pos (lastPlace q)
  rw [round_eq h, ← div_le_iff₀ hpos]
  by_cases he : lastPlace q ≤ 0
  · obtain ⟨m, hm⟩ := @intCast_div k _ he
    rw [hm]
    exact_mod_cast le_nearestEven (by rw [← hm]; gcongr)
  · -- the last place is above 1, so `q` is far above `k`
    have hbig := le_abs_of_lastPlace (not_le.mp he)
    have hlarge := two_pow_le (not_le.mp he)
    obtain ⟨hlow, hhigh⟩ := abs_lt.mp hk
    have hq0 : 0 ≤ q := by
      by_contra hneg
      rw [abs_of_neg (not_le.mp hneg)] at hbig
      linarith
    rw [abs_of_nonneg hq0] at hbig
    have hfar : ((2 ^ 52 : ℤ) : ℚ) ≤ q / 2 ^ lastPlace q := by
      rw [le_div_iff₀ hpos]
      push_cast
      exact hbig
    have hnear : ((2 ^ 52 : ℤ) : ℚ) ≤ nearestEven (q / 2 ^ lastPlace q) := by exact_mod_cast le_nearestEven hfar
    rw [div_le_iff₀ hpos]
    calc (k : ℚ) ≤ 2 ^ 52 * 2 ^ lastPlace q := by linarith
      _ ≤ nearestEven (q / 2 ^ lastPlace q) * 2 ^ lastPlace q := by
        gcongr
        exact_mod_cast hnear

/-- Rounding does not rise above an integer of 53 bits. -/
theorem round_le {q r : ℚ} {k : ℤ} (hk : |(k : ℚ)| < 2 ^ 53) (hq : q ≤ k) (h : round q = some r) : r ≤ k := by
  have hpos := two_zpow_pos (lastPlace q)
  rw [round_eq h, ← le_div_iff₀ hpos]
  by_cases he : lastPlace q ≤ 0
  · obtain ⟨m, hm⟩ := @intCast_div k _ he
    rw [hm]
    exact_mod_cast nearestEven_le (by rw [← hm]; gcongr)
  · have hbig := le_abs_of_lastPlace (not_le.mp he)
    have hlarge := two_pow_le (not_le.mp he)
    obtain ⟨hlow, hhigh⟩ := abs_lt.mp hk
    have hq0 : q ≤ 0 := by
      by_contra hpos'
      rw [abs_of_pos (not_le.mp hpos')] at hbig
      linarith
    rw [abs_of_nonpos hq0] at hbig
    have hfar : q / 2 ^ lastPlace q ≤ ((-2 ^ 52 : ℤ) : ℚ) := by
      rw [div_le_iff₀ hpos]
      push_cast
      linarith
    have hnear : (nearestEven (q / 2 ^ lastPlace q) : ℚ) ≤ ((-2 ^ 52 : ℤ) : ℚ) := by exact_mod_cast nearestEven_le hfar
    rw [le_div_iff₀ hpos]
    calc (nearestEven (q / 2 ^ lastPlace q) : ℚ) * 2 ^ lastPlace q ≤ -2 ^ 52 * 2 ^ lastPlace q := by
          gcongr
          exact_mod_cast hnear
      _ ≤ k := by linarith

/-- Integers of 53 bits are exact. -/
theorem round_intCast {n : ℤ} (hn : |(n : ℚ)| < 2 ^ 53) : round n = some (n : ℚ) := by
  have he : lastPlace (n : ℚ) ≤ 0 := lastPlace_nonpos (by exact_mod_cast hn)
  obtain ⟨m, hm⟩ := @intCast_div n _ he
  have hback : (m : ℚ) * 2 ^ lastPlace (n : ℚ) = n := by
    rw [← hm, div_mul_cancel₀ _ (two_zpow_pos _).ne']
  rw [round, hm, nearestEven_intCast, hback]
  exact if_pos (lt_trans hn (pow_lt_pow_right₀ (by norm_num) (by norm_num)))

/-- Rounding leaves a number that rounding has made as it is. -/
theorem round_round {q r : ℚ} (h : round q = some r) : round r = some r := by
  have hr := round_eq h
  have hlt : |r| < 2 ^ 1024 := by
    unfold round at h
    dsimp only at h
    split_ifs at h with hsmall
    rwa [← hr] at hsmall
  set e := lastPlace q with he
  set m := nearestEven (q / 2 ^ e) with hm
  have hpos := two_zpow_pos e
  have hmin : -1074 ≤ e := le_max_right _ _
  have habs : |q / 2 ^ e| ≤ 2 ^ 53 := by
    have hlog : Int.log 2 |q| + 1 ≤ 53 + e := by
      have : Int.log 2 |q| - 52 ≤ e := le_max_left _ _
      omega
    have hq : |q| < 2 ^ (53 + e) := lt_of_lt_of_le (Int.lt_zpow_succ_log_self (by norm_num) _)
      (zpow_le_zpow_right₀ (by norm_num) hlog)
    rw [abs_div, abs_of_pos hpos, div_le_iff₀ hpos]
    rw [zpow_add₀ (by norm_num)] at hq
    exact_mod_cast hq.le
  have hsize : |m| ≤ 2 ^ 53 := by
    obtain ⟨hlow, hhigh⟩ := abs_le.mp habs
    exact abs_le.mpr ⟨le_nearestEven (by exact_mod_cast hlow), nearestEven_le (by exact_mod_cast hhigh)⟩
  -- a multiple of a place that is no lower than its own last one
  obtain ⟨k, hk⟩ : ∃ k : ℤ, r = k * 2 ^ lastPlace r := by
    by_cases hzero : r = 0
    · exact ⟨0, by rw [hzero]; simp⟩
    obtain ⟨m', e', hle, hrep⟩ : ∃ (m' e' : ℤ), lastPlace r ≤ e' ∧ r = m' * 2 ^ e' := by
      have hrabs : |r| = |m| * 2 ^ e := by rw [hr, abs_mul, abs_of_pos hpos, Int.cast_abs]
      obtain hltm | heq := lt_or_eq_of_le hsize
      · refine ⟨m, e, max_le ?_ hmin, hr⟩
        have hlog : Int.log 2 |r| < 53 + e := by
          refine (Int.lt_zpow_iff_log_lt (by norm_num) (abs_pos.mpr hzero)).mp ?_
          rw [hrabs, Nat.cast_ofNat, zpow_add₀ (by norm_num)]
          exact mul_lt_mul_of_pos_right (by exact_mod_cast hltm) hpos
        omega
      · have hlog : Int.log 2 |r| < 54 + e := by
          refine (Int.lt_zpow_iff_log_lt (by norm_num) (abs_pos.mpr hzero)).mp ?_
          rw [hrabs, heq, Nat.cast_ofNat, zpow_add₀ (by norm_num)]
          exact mul_lt_mul_of_pos_right (by norm_num) hpos
        obtain hm' | hm' := abs_eq (by norm_num : (0 : ℤ) ≤ 2 ^ 53) |>.mp heq
        · refine ⟨2 ^ 52, e + 1, max_le (by omega) (by omega), ?_⟩
          rw [hr, hm', zpow_add₀ (by norm_num)]
          push_cast
          ring
        · refine ⟨-2 ^ 52, e + 1, max_le (by omega) (by omega), ?_⟩
          rw [hr, hm', zpow_add₀ (by norm_num)]
          push_cast
          ring
    obtain ⟨j, hj⟩ := Int.eq_ofNat_of_zero_le (show 0 ≤ e' - lastPlace r by omega)
    refine ⟨m' * 2 ^ j, ?_⟩
    conv_lhs => rw [hrep, show e' = j + lastPlace r by omega, zpow_add₀ (by norm_num), zpow_natCast]
    push_cast
    ring
  have hself : (nearestEven (r / 2 ^ lastPlace r) : ℚ) * 2 ^ lastPlace r = r := by
    have hdiv : r / 2 ^ lastPlace r = k := by
      rw [div_eq_iff (two_zpow_pos _).ne']
      exact hk
    rw [hdiv, nearestEven_intCast, ← hk]
  unfold round
  dsimp only
  rw [hself, if_pos hlt]

/-! ## Doubles -/

end Binary64

/-- A double: a finite one is a number that rounding leaves as it is; zero has two signs. -/
inductive F64
  | nan
  | infinity (neg : Bool)
  | negZero
  | finite (x : ℚ) (h : Binary64.round x = some x)
  deriving DecidableEq

namespace F64

/-- The place of a double in the order, none for a NaN. -/
def place : F64 → Option (WithBot (WithTop ℚ))
  | nan => none
  | infinity true => some ⊥
  | infinity false => some ((⊤ : WithTop ℚ) : WithBot (WithTop ℚ))
  | negZero => some ((0 : ℚ) : WithTop ℚ)
  | finite x _ => some ((x : ℚ) : WithTop ℚ)

/-- `<=`, false when one side is a NaN. -/
def le (x y : F64) : Bool :=
  match x.place, y.place with
  | some a, some b => decide (a ≤ b)
  | _, _ => false

/-- `<`, false when one side is a NaN. -/
def lt (x y : F64) : Bool :=
  match x.place, y.place with
  | some a, some b => decide (a < b)
  | _, _ => false

def IsFinite : F64 → Prop
  | nan => False
  | infinity _ => False
  | _ => True

instance : DecidablePred IsFinite
  | nan => isFalse id
  | infinity _ => isFalse id
  | negZero => isTrue trivial
  | finite _ _ => isTrue trivial

def ofInt (n : ℤ) (h : |(n : ℚ)| < 2 ^ 53) : F64 := finite n (Binary64.round_intCast h)

theorem one_exact : |((1 : ℤ) : ℚ)| < 2 ^ 53 := by norm_num

theorem hundred_exact : |((100 : ℤ) : ℚ)| < 2 ^ 53 := by norm_num

/-- `0.0` -/
def zero : F64 := ofInt 0 (by norm_num)

/-- Two numbers are in order one way or the other. -/
theorem lt_iff_not_le {x y : F64} (hx : x.IsFinite) (hy : y.IsFinite) : x.lt y = true ↔ ¬ y.le x = true := by
  have hplace : ∀ z : F64, z.IsFinite → ∃ a, z.place = some a := by
    intro z hz
    cases z with
    | nan => exact hz.elim
    | infinity neg => exact hz.elim
    | negZero => exact ⟨_, rfl⟩
    | finite q h => exact ⟨_, rfl⟩
  obtain ⟨a, ha⟩ := hplace x hx
  obtain ⟨b, hb⟩ := hplace y hy
  simp [lt, le, ha, hb]

end F64
