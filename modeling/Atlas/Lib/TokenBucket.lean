import Mathlib.Algebra.Order.Field.Basic
import Mathlib.Tactic

/-!
# Token buckets

A bucket of `capacity` tokens fills up at a constant `rate`; a poll takes one token when there is one.

* `Entry` : what a poll left behind, with an account of the tokens that ran over or were used in vain and of those that
  were spent; `Rule.poll` : the next poll;
* `levelAt`, `lostAt`, `spentAt` : the account at any time, by a history of polls;
* `level_add_lost_add_spent` : no token appears or disappears; `spentAt_sub` : what is spent between two times;
* `Quota` : at most so many in every window; `Rule.Grants` : the bucket's own bound, for every interval.
-/

namespace TokenBucket

variable {K : Type} [Field K] [LinearOrder K]

structure Rule (K : Type) where
  capacity : K
  rate : K

structure Entry (K : Type) where
  time : K
  tokens : K
  /-- The tokens that ran over or were used in vain up to now. -/
  lost : K
  /-- The tokens that were spent up to now. -/
  spent : Nat
  deriving Repr

namespace Rule

/-- The tokens in the bucket at a time behind the entry. -/
def level (r : Rule K) (e : Entry K) (t : K) : K := min r.capacity (e.tokens + r.rate * (t - e.time))

/-- The tokens lost by then. -/
def lost (r : Rule K) (e : Entry K) (t : K) : K := e.lost + max 0 (e.tokens + r.rate * (t - e.time) - r.capacity)

/-- One poll; the token it may get is spent, or used in vain. -/
def poll (r : Rule K) (e : Entry K) (t : K) (used : Bool) : Entry K :=
  if 1 ≤ r.level e t then
    if used then ⟨t, r.level e t - 1, r.lost e t, e.spent + 1⟩
    else ⟨t, r.level e t - 1, r.lost e t + 1, e.spent⟩
  else ⟨t, r.level e t, r.lost e t, e.spent⟩

/-- A full bucket. -/
def origin (r : Rule K) (start : K) : Entry K := ⟨start, r.capacity, 0, 0⟩

/-- The newest entry of a history; a history has its newest entry in front. -/
def latest (r : Rule K) (start : K) (history : List (Entry K)) : Entry K := history.headD (r.origin start)

/-- The newest entry that is not behind `t`; a bucket that is older than its history had been filling up. -/
def entryAt (r : Rule K) (start : K) (history : List (Entry K)) (t : K) : Entry K :=
  (history.find? (·.time ≤ t)).getD (r.origin start)

def levelAt (r : Rule K) (start : K) (history : List (Entry K)) (t : K) : K := r.level (r.entryAt start history t) t

def lostAt (r : Rule K) (start : K) (history : List (Entry K)) (t : K) : K := r.lost (r.entryAt start history t) t

def spentAt (r : Rule K) (start : K) (history : List (Entry K)) (t : K) : Nat := (r.entryAt start history t).spent

section poll
variable (r : Rule K) (e : Entry K) (t : K) (used : Bool)

@[simp] theorem time_poll : (r.poll e t used).time = t := by
  unfold poll
  split_ifs <;> rfl

theorem tokens_poll : (r.poll e t used).tokens = if 1 ≤ r.level e t then r.level e t - 1 else r.level e t := by
  unfold poll
  split_ifs <;> rfl

theorem spent_poll : (r.poll e t used).spent = if 1 ≤ r.level e t ∧ used then e.spent + 1 else e.spent := by
  unfold poll
  by_cases h : 1 ≤ r.level e t
  · cases used <;> simp [h]
  · simp [h]

end poll

/-- The history of a bucket that was full at `start`. -/
inductive History (r : Rule K) (start : K) : List (Entry K) → Prop
  | nil : History r start []
  | poll {history : List (Entry K)} (t : K) (used : Bool) : History r start history →
      (r.latest start history).time ≤ t → History r start (r.poll (r.latest start history) t used :: history)

section entryAt
variable {r : Rule K} {start t : K} {history : List (Entry K)} {e : Entry K}

theorem entryAt_cons_of_le (h : e.time ≤ t) : r.entryAt start (e :: history) t = e := by
  rw [entryAt, List.find?_cons_of_pos (by simpa using h)]
  rfl

theorem entryAt_cons_of_lt (h : t < e.time) : r.entryAt start (e :: history) t = r.entryAt start history t := by
  rw [entryAt, List.find?_cons_of_neg (by simpa using h)]
  rfl

theorem entryAt_of_latest_le (h : (r.latest start history).time ≤ t) :
    r.entryAt start history t = r.latest start history := by
  cases history with
  | nil => rfl
  | cons e history => exact entryAt_cons_of_le h

end entryAt

/-! ## The account -/

section account
variable [IsStrictOrderedRing K] {r : Rule K} {start : K} {history : List (Entry K)}

theorem level_add_lost (r : Rule K) (e : Entry K) (t : K) :
    r.level e t + r.lost e t = e.tokens + e.lost + r.rate * (t - e.time) := by
  unfold level lost
  rcases le_total r.capacity (e.tokens + r.rate * (t - e.time)) with h | h
  · rw [min_eq_left h, max_eq_right (sub_nonneg.mpr h)]
    ring
  · rw [min_eq_right h, max_eq_left (sub_nonpos.mpr h)]
    ring

/-- What the entries of one bucket have in common. -/
def balance (r : Rule K) (e : Entry K) : K := e.tokens + e.lost + e.spent - r.rate * e.time

theorem balance_poll (r : Rule K) (e : Entry K) (t : K) (used : Bool) : r.balance (r.poll e t used) = r.balance e := by
  have haccount := r.level_add_lost e t
  unfold balance poll
  split_ifs
  · push_cast
    linear_combination haccount
  · linear_combination haccount
  · linear_combination haccount

theorem balance_origin (r : Rule K) (start : K) : r.balance (r.origin start) = r.capacity - r.rate * start := by
  simp [balance, origin]

theorem balance_latest (h : r.History start history) :
    r.balance (r.latest start history) = r.capacity - r.rate * start := by
  induction h with
  | nil => exact r.balance_origin start
  | poll t used _ _ ih => exact (r.balance_poll _ t used).trans ih

theorem balance_entryAt (h : r.History start history) (t : K) :
    r.balance (r.entryAt start history t) = r.capacity - r.rate * start := by
  induction h with
  | nil => exact r.balance_origin start
  | poll t' used hh hle ih =>
    rcases le_or_gt t' t with ht | ht
    · rw [entryAt_cons_of_le (by simpa using ht), balance_poll, balance_latest hh]
    · rw [entryAt_cons_of_lt (by simpa using ht), ih]

/-- **No token appears or disappears.** -/
theorem level_add_lost_add_spent (h : r.History start history) (t : K) :
    r.levelAt start history t + r.lostAt start history t + r.spentAt start history t =
      r.capacity + r.rate * (t - start) := by
  have hbalance := balance_entryAt h t
  have haccount := r.level_add_lost (r.entryAt start history t) t
  unfold balance at hbalance
  unfold levelAt lostAt spentAt
  linear_combination hbalance + haccount

/-- What is spent between two times: what comes in, and what had been there, less what is left or lost. -/
theorem spentAt_sub (h : r.History start history) (t u : K) :
    (r.spentAt start history u : K) - r.spentAt start history t = r.rate * (u - t) +
      (r.levelAt start history t - r.levelAt start history u) -
      (r.lostAt start history u - r.lostAt start history t) := by
  linear_combination level_add_lost_add_spent h u - level_add_lost_add_spent h t

end account

end Rule

/-! ## Quotas -/

/-- No more than `quota` of the times lie in a window of the length `width`. -/
def Quota (quota : Nat) (width : K) (times : List K) : Prop :=
  ∀ t, (times.filter fun s => t ≤ s ∧ s < t + width).length ≤ quota

omit [Field K] in
theorem length_eq_filter_le_add (times : List K) (t : K) :
    times.length = (times.filter (· ≤ t)).length + (times.filter (t < ·)).length := by
  induction times with
  | nil => rfl
  | cons s times ih =>
    rcases le_or_gt s t with h | h
    · rw [List.filter_cons_of_pos (by simpa using h), List.filter_cons_of_neg (by simpa using h), List.length_cons,
        List.length_cons, ih]
      omega
    · rw [List.filter_cons_of_neg (by simpa using h), List.filter_cons_of_pos (by simpa using h), List.length_cons,
        List.length_cons, ih]
      omega

variable [IsStrictOrderedRing K]

/-- One more time behind the others: the window that ends there decides. -/
theorem quota_cons_iff {quota : Nat} {width now : K} {times : List K} (hwidth : 0 < width)
    (h : Quota quota width times) (hle : ∀ s ∈ times, s ≤ now) :
    Quota quota width (now :: times) ↔ (times.filter (now - width < ·)).length < quota := by
  constructor
  · intro hquota
    obtain ⟨first, hfirst, hmin⟩ := ((now :: times).filter (now - width < ·)).toFinset.exists_min_image id
      ⟨now, by simpa using hwidth⟩
    simp only [List.mem_toFinset, List.mem_filter, decide_eq_true_eq, id] at hfirst hmin
    -- the window that begins at the earliest of these times has all of them
    have hcount : (now :: times).countP (now - width < ·) ≤
        (now :: times).countP fun s => first ≤ s ∧ s < first + width := by
      apply List.countP_mono_left
      intro s hs hlt
      simp only [decide_eq_true_eq] at hlt ⊢
      have hnow : s ≤ now := by
        rcases List.mem_cons.mp hs with rfl | hs
        · exact le_rfl
        · exact hle s hs
      exact ⟨hmin s ⟨hs, hlt⟩, by linarith [hfirst.2]⟩
    have hself : now - width < now := by linarith
    rw [List.countP_cons_of_pos (by simpa using hself), List.countP_eq_length_filter,
      List.countP_eq_length_filter] at hcount
    exact lt_of_lt_of_le (Nat.lt_succ_self _) (hcount.trans (hquota first))
  · intro hlt t
    rw [List.filter_cons]
    split_ifs with hin
    · simp only [decide_eq_true_eq] at hin
      have hsub : (times.filter fun s => t ≤ s ∧ s < t + width).length ≤
          (times.filter (now - width < ·)).length := by
        apply List.Sublist.length_le
        apply List.monotone_filter_right
        intro s hs
        simp only [decide_eq_true_eq] at hs ⊢
        linarith
      rw [List.length_cons]
      omega
    · exact h t

/-! ## Grants -/

/-- How many of the times lie between `s` and `t`, both included. -/
def between (times : List K) (s t : K) : Nat := times.countP fun g => s ≤ g ∧ g ≤ t

omit [Field K] [IsStrictOrderedRing K] in
theorem between_le_countP (times : List K) (s t : K) : between times s t ≤ times.countP (s ≤ ·) := by
  apply List.countP_mono_left
  intro g _ h
  simp only [decide_eq_true_eq] at h ⊢
  exact h.1

omit [Field K] [IsStrictOrderedRing K] in
theorem countP_from_eq_zero {times : List K} {s time : K} (hpast : ∀ g ∈ times, g ≤ time) (h : time < s) :
    times.countP (s ≤ ·) = 0 := by
  apply List.countP_eq_zero.mpr
  intro g hg
  simpa using lt_of_le_of_lt (hpast g hg) h

/-- A bucket that has granted tokens up to `time`: from any time on no more than a full bucket and the refill since. -/
structure Rule.Grants (r : Rule K) (tokens time : K) (granted : List K) : Prop where
  nonneg : 0 ≤ tokens
  le_capacity : tokens ≤ r.capacity
  past : ∀ g ∈ granted, g ≤ time
  since : ∀ s ≤ time, (granted.countP (s ≤ ·) : K) + tokens ≤ r.capacity + r.rate * (time - s)
  within : ∀ s t, s ≤ t → (between granted s t : K) ≤ r.capacity + r.rate * (t - s)

namespace Rule.Grants
variable {r : Rule K} {tokens time now : K} {granted : List K}

theorem full (hcapacity : 0 ≤ r.capacity) (hrate : 0 ≤ r.rate) : r.Grants r.capacity time [] where
  nonneg := hcapacity
  le_capacity := le_rfl
  past := by simp
  since s hs := by
    have := mul_nonneg hrate (sub_nonneg.mpr hs)
    simp only [List.countP_nil, Nat.cast_zero]
    linarith
  within s t hst := by
    have := mul_nonneg hrate (sub_nonneg.mpr hst)
    simp only [between, List.countP_nil, Nat.cast_zero]
    linarith

/-- Time goes by, and what does not fit the bucket runs over. -/
theorem refill (h : r.Grants tokens time granted) (hrate : 0 ≤ r.rate) (hnow : time ≤ now) :
    r.Grants (min r.capacity (tokens + r.rate * (now - time))) now granted where
  nonneg := by
    have hgain := mul_nonneg hrate (sub_nonneg.mpr hnow)
    exact le_min (h.nonneg.trans h.le_capacity) (add_nonneg h.nonneg hgain)
  le_capacity := min_le_left _ _
  past g hg := (h.past g hg).trans hnow
  since s hs := by
    rcases le_or_gt s time with hle | hlt
    · have hold := h.since s hle
      have hgain := min_le_right r.capacity (tokens + r.rate * (now - time))
      have hsplit : r.rate * (now - s) = r.rate * (time - s) + r.rate * (now - time) := by ring
      linarith
    · have hgain := mul_nonneg hrate (sub_nonneg.mpr hs)
      have hfull := min_le_left r.capacity (tokens + r.rate * (now - time))
      rw [countP_from_eq_zero h.past hlt, Nat.cast_zero]
      linarith
  within := h.within

/-- One token is granted. -/
theorem grant (h : r.Grants tokens time granted) (hrate : 0 ≤ r.rate) (hone : 1 ≤ tokens) :
    r.Grants (tokens - 1) time (time :: granted) := by
  have hpast : ∀ g ∈ time :: granted, g ≤ time := by
    intro g hg
    rcases List.mem_cons.mp hg with rfl | hg
    · exact le_rfl
    · exact h.past g hg
  have hsince : ∀ s ≤ time, ((time :: granted).countP (s ≤ ·) : K) + (tokens - 1) ≤
      r.capacity + r.rate * (time - s) := by
    intro s hs
    have hold := h.since s hs
    rw [List.countP_cons_of_pos (by simpa using hs)]
    push_cast
    linarith
  refine ⟨by linarith, by linarith [h.le_capacity], hpast, hsince, fun s t hst => ?_⟩
  have hgain := mul_nonneg hrate (sub_nonneg.mpr hst)
  rcases lt_or_ge t time with hlt | hle
  · have hout : between (time :: granted) s t = between granted s t := by
      apply List.countP_cons_of_neg
      simp [hlt]
    rw [hout]
    exact h.within s t hst
  have hcount : (between (time :: granted) s t : K) ≤ (time :: granted).countP (s ≤ ·) :=
    Nat.cast_le.mpr (between_le_countP _ s t)
  rcases le_or_gt s time with hs | hs
  · -- nothing was granted behind `time`, and the refill goes on up to `t`
    have hmono := mul_le_mul_of_nonneg_left (sub_le_sub_right hle s) hrate
    linarith [hsince s hs]
  · rw [countP_from_eq_zero hpast hs, Nat.cast_zero] at hcount
    linarith [h.nonneg, h.le_capacity]

end Rule.Grants

end TokenBucket
