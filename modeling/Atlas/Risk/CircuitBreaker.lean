import Atlas.Execution.Orders
import Atlas.Lib.Run

/-!
# The circuit breaker over whole runs

`CircuitBreaker` of the risk crate, on exact rational amounts; `recordTrade` and `reset` in any order.

* `lossRun`, `lossSum` : the losses at the end of a list of trades, and the sum of all losses;
* `TripsAt`, `Tripped` : a losing trade that reaches a threshold, and a list of trades with one;
* `recordTrade_halted`, `recordTrade_win`, `recordTrade_loss` : what a trade does; `Agrees` : the breaker against the
  trades since the last reset;
* `run_agrees`, `circuitBreaker_runs` : the two agree after every run.
-/

namespace Atlas.Risk

inductive HaltAction
  | stopNewOrders | fullHalt
  deriving DecidableEq, Repr

structure CircuitBreakerConfig where
  maxConsecutiveLosses : UInt32
  maxDailyLossPct : ℚ
  cooldownSeconds : UInt64
  haltAction : HaltAction

def CircuitBreakerConfig.validate (config : CircuitBreakerConfig) : Except String Unit :=
  if config.maxConsecutiveLosses = 0 then .error "max_consecutive_losses must be > 0"
  else if config.maxDailyLossPct < 0 then .error "max_daily_loss_pct must be >= 0"
  else .ok ()

theorem CircuitBreakerConfig.validate_ok {config : CircuitBreakerConfig} (h : config.validate = .ok ()) :
    0 < config.maxConsecutiveLosses.toNat ∧ 0 ≤ config.maxDailyLossPct := by
  unfold validate at h
  split_ifs at h with hmax hpct
  refine ⟨Nat.pos_of_ne_zero fun hzero => hmax ?_, not_lt.mp hpct⟩
  exact UInt32.toNat_inj.mp hzero

structure TradeResult where
  pnl : ℚ

structure CircuitBreaker where
  config : CircuitBreakerConfig
  consecutiveLosses : UInt32
  dailyLossAccumulator : ℚ
  halted : Bool

/-- Addition of `u32`, absent where it overflows. -/
def checkedAdd (a b : UInt32) : Option UInt32 := if a.toNat + b.toNat < 2 ^ 32 then some (a + b) else none

namespace CircuitBreaker

def new (config : CircuitBreakerConfig) : CircuitBreaker := ⟨config, 0, 0, false⟩

def isHalted (breaker : CircuitBreaker) : Bool := breaker.halted

def reset (breaker : CircuitBreaker) : CircuitBreaker :=
  { breaker with consecutiveLosses := 0, dailyLossAccumulator := 0, halted := false }

/-- `record_trade` : whether the breaker just tripped, and its state; absent where the counter overflows. -/
def recordTrade (breaker : CircuitBreaker) (result : TradeResult) : Option (Bool × CircuitBreaker) :=
  if breaker.halted then some (false, breaker)
  else if result.pnl < 0 then
    match checkedAdd breaker.consecutiveLosses 1 with
    | none => none
    | some losses =>
      let breaker := { breaker with
        consecutiveLosses := losses
        dailyLossAccumulator := breaker.dailyLossAccumulator + |result.pnl| }
      if breaker.consecutiveLosses ≥ breaker.config.maxConsecutiveLosses then
        some (true, { breaker with halted := true })
      else if breaker.dailyLossAccumulator ≥ breaker.config.maxDailyLossPct then
        some (true, { breaker with halted := true })
      else some (false, breaker)
  else some (false, { breaker with consecutiveLosses := 0 })

/-- What the order manager sees of the breaker. -/
def forAdmission (breaker : CircuitBreaker) : Execution.CircuitBreaker := ⟨breaker.isHalted⟩

end CircuitBreaker

/-! ## Runs -/

inductive Call
  | recordTrade (result : TradeResult)
  | reset

def step (breaker : CircuitBreaker) : Call → Option CircuitBreaker
  | .recordTrade result => (breaker.recordTrade result).map Prod.snd
  | .reset => some breaker.reset

/-- The amounts of the trades since the last reset. -/
def sinceReset (calls : List Call) : List ℚ :=
  calls.foldl (fun trades call =>
    match call with
    | .recordTrade result => trades ++ [result.pnl]
    | .reset => []) []

theorem sinceReset_trade (calls : List Call) (result : TradeResult) :
    sinceReset (calls ++ [.recordTrade result]) = sinceReset calls ++ [result.pnl] := by
  rw [sinceReset, List.foldl_append]
  rfl

theorem sinceReset_reset (calls : List Call) : sinceReset (calls ++ [.reset]) = [] := by
  rw [sinceReset, List.foldl_append]
  rfl

/-! ## Losses -/

/-- The number of losses at the end of the trades. -/
def lossRun (trades : List ℚ) : Nat := (trades.reverse.takeWhile (· < 0)).length

/-- The sum of the losses. -/
def lossSum (trades : List ℚ) : ℚ := ((trades.filter (· < 0)).map fun pnl => |pnl|).sum

theorem lossRun_loss (trades : List ℚ) {pnl : ℚ} (h : pnl < 0) : lossRun (trades ++ [pnl]) = lossRun trades + 1 := by
  simp [lossRun, h]

theorem lossRun_win (trades : List ℚ) {pnl : ℚ} (h : ¬ pnl < 0) : lossRun (trades ++ [pnl]) = 0 := by
  simp [lossRun, not_lt.mp h]

theorem lossSum_loss (trades : List ℚ) {pnl : ℚ} (h : pnl < 0) :
    lossSum (trades ++ [pnl]) = lossSum trades + |pnl| := by
  simp [lossSum, List.filter_append, h]

theorem lossSum_win (trades : List ℚ) {pnl : ℚ} (h : ¬ pnl < 0) : lossSum (trades ++ [pnl]) = lossSum trades := by
  simp [lossSum, List.filter_append, not_lt.mp h]

/-- The trades have reached a threshold. -/
def Reached (config : CircuitBreakerConfig) (trades : List ℚ) : Prop :=
  config.maxConsecutiveLosses.toNat ≤ lossRun trades ∨ config.maxDailyLossPct ≤ lossSum trades

/-- A losing trade behind `before` that reaches a threshold. -/
def TripsAt (config : CircuitBreakerConfig) (before : List ℚ) (pnl : ℚ) : Prop :=
  pnl < 0 ∧ Reached config (before ++ [pnl])

/-- One of the trades reached a threshold, by a loss. -/
def Tripped (config : CircuitBreakerConfig) (trades : List ℚ) : Prop :=
  ∃ before pnl after, trades = before ++ pnl :: after ∧ TripsAt config before pnl

/-- After one of the trades, losing or not, a threshold was reached. -/
def EverReached (config : CircuitBreakerConfig) (trades : List ℚ) : Prop :=
  ∃ before pnl after, trades = before ++ pnl :: after ∧ Reached config (before ++ [pnl])

theorem not_tripped_nil (config : CircuitBreakerConfig) : ¬ Tripped config [] := by
  rintro ⟨before, pnl, after, h, -⟩
  simp at h

/-- One more trade trips, or the trades before it did. -/
theorem tripped_concat_iff (config : CircuitBreakerConfig) (trades : List ℚ) (pnl : ℚ) :
    Tripped config (trades ++ [pnl]) ↔ Tripped config trades ∨ TripsAt config trades pnl := by
  constructor
  · rintro ⟨before, p, after, hsplit, htrips⟩
    rcases List.eq_nil_or_concat after with rfl | ⟨after, q, rfl⟩
    · obtain ⟨rfl, hp⟩ := List.append_inj' hsplit rfl
      obtain rfl : pnl = p := by simpa using hp
      exact Or.inr htrips
    · rw [List.concat_eq_append, ← List.cons_append, ← List.append_assoc] at hsplit
      obtain ⟨rfl, -⟩ := List.append_inj' hsplit rfl
      exact Or.inl ⟨before, p, after, rfl, htrips⟩
  · rintro (⟨before, p, after, rfl, htrips⟩ | htrips)
    · exact ⟨before, p, after ++ [pnl], by simp, htrips⟩
    · exact ⟨trades, pnl, [], rfl, htrips⟩

/-! ## A trade -/

theorem toNat_checkedAdd {a b c : UInt32} (h : checkedAdd a b = some c) : c.toNat = a.toNat + b.toNat := by
  unfold checkedAdd at h
  split_ifs at h with hlt
  obtain rfl := Option.some.inj h
  rw [UInt32.toNat_add, Nat.mod_eq_of_lt hlt]

theorem recordTrade_halted {breaker : CircuitBreaker} (h : breaker.halted = true) (result : TradeResult) :
    breaker.recordTrade result = some (false, breaker) :=
  if_pos h

theorem recordTrade_win {breaker : CircuitBreaker} (h : breaker.halted = false) {result : TradeResult}
    (hwin : ¬ result.pnl < 0) :
    breaker.recordTrade result = some (false, { breaker with consecutiveLosses := 0 }) := by
  rw [CircuitBreaker.recordTrade, h, if_neg (by decide), if_neg hwin]

/-- A loss is counted, and trips where it reaches a threshold. -/
theorem recordTrade_loss {breaker : CircuitBreaker} (h : breaker.halted = false) {result : TradeResult}
    (hloss : result.pnl < 0)
    (hroom : breaker.consecutiveLosses.toNat < breaker.config.maxConsecutiveLosses.toNat) :
    ∃ losses trips, losses.toNat = breaker.consecutiveLosses.toNat + 1 ∧
      (trips = true ↔ breaker.config.maxConsecutiveLosses.toNat ≤ losses.toNat ∨
        breaker.config.maxDailyLossPct ≤ breaker.dailyLossAccumulator + |result.pnl|) ∧
      breaker.recordTrade result = some (trips, { breaker with
        consecutiveLosses := losses
        dailyLossAccumulator := breaker.dailyLossAccumulator + |result.pnl|
        halted := trips }) := by
  have hbound := breaker.config.maxConsecutiveLosses.toNat_lt
  have hadd : checkedAdd breaker.consecutiveLosses 1 = some (breaker.consecutiveLosses + 1) :=
    if_pos (show _ + 1 < _ by omega)
  have hlosses : (breaker.consecutiveLosses + 1).toNat = breaker.consecutiveLosses.toNat + 1 := toNat_checkedAdd hadd
  rw [CircuitBreaker.recordTrade, h, if_neg (by decide), if_pos hloss, hadd]
  simp only [ge_iff_le, UInt32.le_iff_toNat_le]
  split_ifs with hrun hsum
  · exact ⟨_, true, hlosses, iff_of_true rfl (Or.inl hrun), rfl⟩
  · exact ⟨_, true, hlosses, iff_of_true rfl (Or.inr hsum), rfl⟩
  · exact ⟨_, false, hlosses, iff_of_false (by decide) (not_or.mpr ⟨hrun, hsum⟩), rfl⟩

/-! ## The breaker and the trades -/

/-- The breaker is what the trades since the last reset say. Its counters stop where it halts. -/
structure Agrees (breaker : CircuitBreaker) (trades : List ℚ) : Prop where
  halted : breaker.halted = true ↔ Tripped breaker.config trades
  losses_le : breaker.consecutiveLosses.toNat ≤ breaker.config.maxConsecutiveLosses.toNat
  losses : breaker.halted = false → breaker.consecutiveLosses.toNat = lossRun trades
  room : breaker.halted = false → breaker.consecutiveLosses.toNat < breaker.config.maxConsecutiveLosses.toNat
  sum : breaker.halted = false → breaker.dailyLossAccumulator = lossSum trades

theorem Agrees.fresh {breaker : CircuitBreaker} (hmax : 0 < breaker.config.maxConsecutiveLosses.toNat) :
    Agrees breaker.reset [] where
  halted := iff_of_false (by simp [CircuitBreaker.reset]) (not_tripped_nil _)
  losses_le := Nat.zero_le _
  losses _ := rfl
  room _ := hmax
  sum _ := rfl

/-- A trade reports a trip just when it is the first of the trades to trip. -/
def TripsFirst (config : CircuitBreakerConfig) (trades : List ℚ) (pnl : ℚ) : Prop :=
  ¬ Tripped config trades ∧ Tripped config (trades ++ [pnl])

theorem Agrees.recordTrade {breaker : CircuitBreaker} {trades : List ℚ} (h : Agrees breaker trades)
    (hmax : 0 < breaker.config.maxConsecutiveLosses.toNat) (result : TradeResult) :
    ∃ trips breaker', breaker.recordTrade result = some (trips, breaker') ∧
      (trips = true ↔ TripsFirst breaker.config trades result.pnl) ∧ breaker'.config = breaker.config ∧
      (breaker.halted = true → breaker' = breaker) ∧ Agrees breaker' (trades ++ [result.pnl]) := by
  have hconcat := tripped_concat_iff breaker.config trades result.pnl
  by_cases hhalted : breaker.halted = true
  · have htripped := h.halted.mp hhalted
    refine ⟨false, breaker, recordTrade_halted hhalted result, ?_, rfl, fun _ => rfl, ?_, h.losses_le, ?_, ?_, ?_⟩
    · exact iff_of_false (by decide) fun hfirst => hfirst.1 htripped
    · exact iff_of_true hhalted (hconcat.mpr (Or.inl htripped))
    all_goals exact fun hrunning => absurd hhalted (by rw [hrunning]; decide)
  · have hrunning : breaker.halted = false := by simpa using hhalted
    have hbefore : ¬ Tripped breaker.config trades := fun ht => hhalted (h.halted.mpr ht)
    have hfirst : TripsFirst breaker.config trades result.pnl ↔ TripsAt breaker.config trades result.pnl := by
      rw [TripsFirst, hconcat]
      tauto
    by_cases hloss : result.pnl < 0
    · obtain ⟨losses, trips, hlosses, htrips, heq⟩ := recordTrade_loss hrunning hloss (h.room hrunning)
      have hat : trips = true ↔ TripsAt breaker.config trades result.pnl := by
        rw [htrips, TripsAt, Reached, lossRun_loss _ hloss, lossSum_loss _ hloss, hlosses, h.losses hrunning,
          h.sum hrunning]
        exact (and_iff_right hloss).symm
      refine ⟨trips, _, heq, hat.trans hfirst.symm, rfl, fun hh => absurd hh hhalted, ?_, ?_, ?_, ?_, ?_⟩
      · show trips = true ↔ _
        rw [hat, hconcat]
        exact (or_iff_right hbefore).symm
      · show losses.toNat ≤ breaker.config.maxConsecutiveLosses.toNat
        have := h.room hrunning
        omega
      · intro _
        show losses.toNat = _
        rw [hlosses, h.losses hrunning, lossRun_loss _ hloss]
      · intro hstill
        have hnot : ¬ trips = true := by rw [show trips = false from hstill]; decide
        exact not_le.mp fun hle => hnot (htrips.mpr (Or.inl hle))
      · intro _
        show breaker.dailyLossAccumulator + _ = _
        rw [h.sum hrunning, lossSum_loss _ hloss]
    · have hat : ¬ TripsAt breaker.config trades result.pnl := fun ht => hloss ht.1
      refine ⟨false, _, recordTrade_win hrunning hloss, ?_, rfl, fun hh => absurd hh hhalted, ?_, ?_, ?_, ?_, ?_⟩
      · exact iff_of_false (by decide) fun hf => hat (hfirst.mp hf)
      · refine iff_of_false (by simpa using hrunning) fun ht => ?_
        exact (hconcat.mp ht).elim hbefore hat
      · exact Nat.zero_le _
      · intro _
        rw [lossRun_win _ hloss]
        rfl
      · exact fun _ => hmax
      · intro _
        rw [lossSum_win _ hloss]
        exact h.sum hrunning

/-- After any calls the breaker agrees with the trades since the last reset. -/
theorem run_agrees {config : CircuitBreakerConfig} (hconfig : config.validate = .ok ()) (calls : List Call) :
    ∃ breaker, Run.exec step (.new config) calls = some breaker ∧ breaker.config = config ∧
      Agrees breaker (sinceReset calls) := by
  have hmax := (CircuitBreakerConfig.validate_ok hconfig).1
  induction calls using List.reverseRecOn with
  | nil => exact ⟨_, rfl, rfl, @Agrees.fresh (.new config) hmax⟩
  | append_singleton calls call ih =>
    obtain ⟨breaker, hrun, rfl, hagrees⟩ := ih
    rw [Run.exec_append, hrun, Option.bind_some]
    cases call with
    | reset =>
      rw [sinceReset_reset]
      exact ⟨_, rfl, rfl, Agrees.fresh hmax⟩
    | recordTrade result =>
      obtain ⟨trips, breaker', heq, -, hsame, -, hnext⟩ := hagrees.recordTrade hmax result
      rw [sinceReset_trade]
      refine ⟨breaker', ?_, hsame, hnext⟩
      rw [Run.exec, step, heq]
      rfl

/-! ## Whole runs -/

theorem tripped_of_lossSum {config : CircuitBreakerConfig} (hpct : 0 < config.maxDailyLossPct) {trades : List ℚ}
    (h : config.maxDailyLossPct ≤ lossSum trades) : Tripped config trades := by
  induction trades using List.reverseRecOn with
  | nil => exact absurd h (not_le.mpr hpct)
  | append_singleton trades pnl ih =>
    rw [tripped_concat_iff]
    by_cases hloss : pnl < 0
    · exact Or.inr ⟨hloss, Or.inr h⟩
    · rw [lossSum_win _ hloss] at h
      exact Or.inl (ih h)

/-- Only a loss reaches a positive threshold. -/
theorem everReached_iff {config : CircuitBreakerConfig} (hmax : 0 < config.maxConsecutiveLosses.toNat)
    (hpct : 0 < config.maxDailyLossPct) (trades : List ℚ) : EverReached config trades ↔ Tripped config trades := by
  constructor
  · rintro ⟨before, pnl, after, rfl, hreached⟩
    by_cases hloss : pnl < 0
    · exact ⟨before, pnl, after, rfl, hloss, hreached⟩
    · rw [Reached, lossRun_win _ hloss, lossSum_win _ hloss] at hreached
      obtain ⟨front, p, rest, rfl, htrips⟩ := tripped_of_lossSum hpct (hreached.resolve_left (by omega))
      exact ⟨front, p, rest ++ pnl :: after, by simp, htrips⟩
  · rintro ⟨before, pnl, after, rfl, -, hreached⟩
    exact ⟨before, pnl, after, rfl, hreached⟩

theorem admitOrder_halted_iff (manager : Execution.OrderManager) (order : Execution.Order)
    (breaker : Execution.CircuitBreaker) :
    (manager.admitOrder order breaker).1 = .haltedByCircuitBreaker ↔ breaker.isHalted = true := by
  unfold Execution.OrderManager.admitOrder
  split_ifs with h
  · exact iff_of_true rfl h
  · refine iff_of_false ?_ h
    split <;> exact fun heq => nomatch heq

/-- **The breaker over whole runs.** -/
theorem circuitBreaker_runs {config : CircuitBreakerConfig} (hconfig : config.validate = .ok ()) (calls : List Call) :
    ∃ breaker, Run.exec step (.new config) calls = some breaker ∧
      (breaker.isHalted = true ↔ Tripped config (sinceReset calls)) ∧
      (0 < config.maxDailyLossPct → (breaker.isHalted = true ↔ EverReached config (sinceReset calls))) ∧
      breaker.consecutiveLosses.toNat ≤ config.maxConsecutiveLosses.toNat ∧
      (∀ result, ∃ trips next, breaker.recordTrade result = some (trips, next) ∧
        (trips = true ↔ TripsFirst config (sinceReset calls) result.pnl) ∧
        (breaker.isHalted = true → next = breaker)) ∧
      ∀ (manager : Execution.OrderManager) (order : Execution.Order),
        (manager.admitOrder order breaker.forAdmission).1 = .haltedByCircuitBreaker ↔ breaker.isHalted = true := by
  obtain ⟨breaker, hrun, rfl, hagrees⟩ := run_agrees hconfig calls
  obtain ⟨hmax, -⟩ := CircuitBreakerConfig.validate_ok hconfig
  refine ⟨breaker, hrun, hagrees.halted, fun hpct => ?_, hagrees.losses_le, fun result => ?_, fun manager order => ?_⟩
  · rw [everReached_iff hmax hpct]
    exact hagrees.halted
  · obtain ⟨trips, next, heq, htrips, -, hsame, -⟩ := hagrees.recordTrade hmax result
    exact ⟨trips, next, heq, htrips, hsame⟩
  · exact admitOrder_halted_iff manager order breaker.forAdmission

/-- No loss is allowed for. -/
def zeroTolerance : CircuitBreakerConfig := ⟨1, 0, 3600, .stopNewOrders⟩

theorem zeroTolerance_runs :
    ∃ breaker, Run.exec step (.new zeroTolerance) [.recordTrade ⟨-1⟩] = some breaker ∧
      (breaker.isHalted = true ↔ Tripped zeroTolerance (sinceReset [.recordTrade ⟨-1⟩])) := by
  have hvalid : zeroTolerance.validate = .ok () := by simp [CircuitBreakerConfig.validate, zeroTolerance]
  obtain ⟨breaker, hrun, hhalted, -⟩ := circuitBreaker_runs hvalid [.recordTrade ⟨-1⟩]
  exact ⟨breaker, hrun, hhalted⟩

/-- Behind a winning trade the losses have reached 0, and the breaker is not halted. -/
theorem win_at_zeroTolerance :
    zeroTolerance.validate = .ok () ∧ ∃ breaker,
      Run.exec step (.new zeroTolerance) [.recordTrade ⟨1⟩] = some breaker ∧
      ¬ (breaker.isHalted = true ↔ EverReached zeroTolerance (sinceReset [.recordTrade ⟨1⟩])) := by
  refine ⟨by simp [CircuitBreakerConfig.validate, zeroTolerance], CircuitBreaker.new zeroTolerance, ?_, ?_⟩
  · have hwin : ¬ (1 : ℚ) < 0 := by norm_num
    rw [Run.exec, step, recordTrade_win rfl hwin]
    rfl
  · have hreached : EverReached zeroTolerance [1] :=
      ⟨[], 1, [], rfl, Or.inr (by rw [List.nil_append, lossSum]; simp [zeroTolerance])⟩
    intro h
    exact absurd (h.mpr hreached) (by decide)

end Atlas.Risk
