import Atlas.Adapter.Exchange
import Atlas.Lib.Run

/-!
# The limits of the exchanges

* `QuotaKept` : no window has more subscribe messages than the exchange takes;
* `Inv` : the limiter is the bucket of its history, and the messages are the tokens spent;
* `Unspent` : a message takes no token that the bucket had saved before the window;
* `quotaKept_iff` : the exact condition, for both exchanges.
-/

namespace Atlas.Adapter
open TokenBucket

namespace ExchangeAdapter
variable (x : Exchange) (start : ℚ)

def QuotaKept (a : ExchangeAdapter) : Prop := Quota x.quota x.window (a.sent.map Prod.fst)

structure Inv (a : ExchangeAdapter) : Prop where
  maxTokens : a.limiter.maxTokens = x.subscribeBurst
  refillRate : a.limiter.refillRate = x.subscribeRate
  tokens : a.limiter.tokens = (x.rule.latest start a.history).tokens
  lastRefill : a.limiter.lastRefill = (x.rule.latest start a.history).time
  history : x.rule.History start a.history
  times : ∀ s ∈ a.sent.map Prod.fst, s ≤ (x.rule.latest start a.history).time
  count : ∀ t, ((a.sent.map Prod.fst).filter (· ≤ t)).length = x.rule.spentAt start a.history t

theorem inv_newAdapter : Inv x start (newAdapter x start) where
  maxTokens := rfl
  refillRate := rfl
  tokens := rfl
  lastRefill := rfl
  history := .nil
  times s hs := by simp [newAdapter] at hs
  count t := rfl

/-- A connection that comes or goes, and the symbols to subscribe again. -/
theorem Inv.of_limiter {x : Exchange} {start : ℚ} {a a' : ExchangeAdapter} (h : Inv x start a)
    (hlimiter : a'.limiter = a.limiter) (hsent : a'.sent = a.sent) (hhistory : a'.history = a.history) :
    Inv x start a' := by
  obtain ⟨h1, h2, h3, h4, h5, h6, h7⟩ := h
  rw [← hlimiter] at h1 h2 h3 h4
  rw [← hhistory] at h3 h4 h5 h6 h7
  rw [← hsent] at h6 h7
  exact ⟨h1, h2, h3, h4, h5, h6, h7⟩

variable {x : Exchange} {start : ℚ} {a : ExchangeAdapter}

/-- The messages are the tokens spent. -/
theorem Inv.length_sent (h : Inv x start a) {t : ℚ} (ht : (x.rule.latest start a.history).time ≤ t) :
    a.sent.length = x.rule.spentAt start a.history t := by
  rw [← h.count t, List.filter_eq_self.mpr fun s hs => by simpa using (h.times s hs).trans ht, List.length_map]

/-- The limiter is the bucket. -/
theorem Inv.allow_eq (h : Inv x start a) (now : ℚ) (written : Bool) : a.allow x start written now =
    ({ a with
        limiter := { a.limiter with
          tokens := (x.rule.poll (x.rule.latest start a.history) now written).tokens
          lastRefill := now }
        history := x.rule.poll (x.rule.latest start a.history) now written :: a.history },
      decide (1 ≤ x.rule.level (x.rule.latest start a.history) now)) := by
  have hlevel : (if a.limiter.tokens + (now - a.limiter.lastRefill) * a.limiter.refillRate > a.limiter.maxTokens
      then a.limiter.maxTokens else a.limiter.tokens + (now - a.limiter.lastRefill) * a.limiter.refillRate) =
      x.rule.level (x.rule.latest start a.history) now := by
    rw [h.tokens, h.lastRefill, h.maxTokens, h.refillRate, Rule.level, Exchange.rule, min_def, mul_comm]
    split_ifs <;> linarith
  rw [allow, RateLimiter.allow]
  simp only [hlevel, Rule.tokens_poll]
  split_ifs with hone
  · simp [hone]
  · simp [hone]

/-- A poll, and the message that goes out when it gets a token for one. -/
theorem Inv.poll (h : Inv x start a) {now : ℚ} (hnow : (x.rule.latest start a.history).time ≤ now) (written : Bool)
    {sent : List (ℚ × String)}
    (hsent : sent.map Prod.fst = if 1 ≤ x.rule.level (x.rule.latest start a.history) now ∧ written then
      now :: a.sent.map Prod.fst else a.sent.map Prod.fst) :
    Inv x start { (a.allow x start written now).1 with sent } := by
  have htime : ∀ s ∈ sent.map Prod.fst, s ≤ now := by
    intro s hs
    rw [hsent] at hs
    split_ifs at hs
    · rcases List.mem_cons.mp hs with rfl | hs
      · exact le_rfl
      · exact (h.times s hs).trans hnow
    · exact (h.times s hs).trans hnow
  rw [h.allow_eq]
  refine ⟨h.maxTokens, h.refillRate, rfl, (Rule.time_poll _ _ _ _).symm, .poll now written h.history hnow, ?_, ?_⟩
  · intro s hs
    exact (htime s hs).trans (Rule.time_poll _ _ _ _).ge
  · intro t
    show ((sent.map Prod.fst).filter (· ≤ t)).length = x.rule.spentAt start (x.rule.poll _ now written :: a.history) t
    rcases le_or_gt now t with ht | ht
    · have hlength := h.length_sent (le_refl _)
      rw [Rule.spentAt, Rule.entryAt_cons_of_le (by simpa using ht), Rule.spent_poll,
        List.filter_eq_self.mpr fun s hs => by simpa using (htime s hs).trans ht, hsent]
      rw [Rule.spentAt, Rule.entryAt_of_latest_le le_rfl] at hlength
      split_ifs
      · rw [List.length_cons, List.length_map, hlength]
      · rw [List.length_map, hlength]
    · rw [Rule.spentAt, Rule.entryAt_cons_of_lt (by simpa using ht), hsent]
      split_ifs
      · rw [List.filter_cons_of_neg (by simpa using ht)]
        exact h.count t
      · exact h.count t

/-- The times of the messages behind a call that was granted a token. -/
def timesWith (granted : Option ℚ) (written : Bool) (times : List ℚ) : List ℚ :=
  (if written then granted else none).toList ++ times

/-- `Allow` takes a token for the message that may follow, or none. -/
theorem Inv.allow_cases (h : Inv x start a) {now : ℚ} (hnow : (x.rule.latest start a.history).time ≤ now)
    (written : Bool) : ∃ a', a'.sent = a.sent ∧
      ((a.allow x start written now = (a', true) ∧ ∀ sent : List (ℚ × String),
          sent.map Prod.fst = timesWith (some now) written (a.sent.map Prod.fst) → Inv x start { a' with sent }) ∨
        (a.allow x start written now = (a', false) ∧ Inv x start a' ∧
          (x.rule.latest start a'.history).time = now)) := by
  have hpoll := fun sent hsent => @Inv.poll x start a h now hnow written sent hsent
  rw [h.allow_eq] at hpoll ⊢
  by_cases hone : 1 ≤ x.rule.level (x.rule.latest start a.history) now
  · refine ⟨_, ?_, Or.inl ⟨by rw [decide_eq_true hone], fun sent hsent => hpoll sent (hsent.trans ?_)⟩⟩
    · rfl
    · cases written <;> simp [timesWith, hone]
  · refine ⟨_, ?_, Or.inr ⟨by rw [decide_eq_false hone], hpoll a.sent ?_, ?_⟩⟩
    · rfl
    · simp [hone]
    · exact Rule.time_poll _ _ _ _

/-- Only the times of the messages count. -/
theorem Inv.with_sent (h : Inv x start a) {sent : List (ℚ × String)} (hsent : sent.map Prod.fst = a.sent.map Prod.fst) :
    Inv x start { a with sent } := by
  obtain ⟨h1, h2, h3, h4, h5, h6, h7⟩ := h
  rw [← hsent] at h6 h7
  exact ⟨h1, h2, h3, h4, h5, h6, h7⟩

/-- Waiting for a token takes at most one, at one of the readings. -/
theorem Inv.wait (h : Inv x start a) {written : Bool} {now : ℚ} {later : List ℚ} {a' : ExchangeAdapter}
    {granted : Option ℚ} (hsorted : ((x.rule.latest start a.history).time :: now :: later).Pairwise (· ≤ ·))
    (hwait : a.wait x start written now later = (a', granted)) :
    a'.sent = a.sent ∧ (∀ t, granted = some t → (x.rule.latest start a.history).time ≤ t) ∧
      ∀ sent : List (ℚ × String), sent.map Prod.fst = timesWith granted written (a.sent.map Prod.fst) →
        Inv x start { a' with sent } := by
  induction later generalizing a now with
  | nil =>
    have hnow := List.rel_of_pairwise_cons hsorted List.mem_cons_self
    obtain ⟨b, hsame, ⟨hallow, hinv⟩ | ⟨hallow, hinv, -⟩⟩ := h.allow_cases hnow written
    · rw [wait_nil, hallow] at hwait
      obtain ⟨rfl, rfl⟩ := Prod.mk.inj hwait
      exact ⟨hsame, fun t ht => Option.some.inj ht ▸ hnow, hinv⟩
    · rw [wait_nil, hallow] at hwait
      obtain ⟨rfl, rfl⟩ := Prod.mk.inj hwait
      refine ⟨hsame, fun t ht => (Option.some_ne_none t ht.symm).elim, fun sent hsent => hinv.with_sent ?_⟩
      rw [hsame, hsent, timesWith, ite_self]
      rfl
  | cons next later ih =>
    have hnow := List.rel_of_pairwise_cons hsorted List.mem_cons_self
    obtain ⟨b, hsame, ⟨hallow, hinv⟩ | ⟨hallow, hinv, htime⟩⟩ := h.allow_cases hnow written
    · rw [wait_cons, hallow] at hwait
      obtain ⟨rfl, rfl⟩ := Prod.mk.inj hwait
      exact ⟨hsame, fun t ht => Option.some.inj ht ▸ hnow, hinv⟩
    · rw [wait_cons, hallow] at hwait
      obtain ⟨hsent, hgranted, hrest⟩ := ih hinv (htime ▸ hsorted.of_cons) hwait
      rw [hsame] at hsent hrest
      rw [htime] at hgranted
      exact ⟨hsent, fun t ht => hnow.trans (hgranted t ht), hrest⟩

/-- The reading at which a `subscribeLocked` gets its token. -/
def tokenAt (x : Exchange) (start : ℚ) (written : Bool) (a : ExchangeAdapter) (clock : Clock) : Option ℚ :=
  (a.wait x start written clock.allow (clock.wait :: clock.later)).2

/-- The first `Allow` is one more turn of `Wait`. -/
theorem subscribeLocked_eq (a : ExchangeAdapter) (symbols : List String) (clock : Clock) (written : Bool) :
    a.subscribeLocked x start symbols clock written =
      match a.wait x start written clock.allow (clock.wait :: clock.later) with
      | (a, none) => (a, some .waitCancelled)
      | (a, some now) => a.write x now symbols written := by
  rw [subscribeLocked, wait_cons]
  rcases a.allow x start written clock.allow with ⟨b, granted⟩
  cases granted <;> rfl

theorem Inv.subscribeLocked (h : Inv x start a) (symbols : List String) {clock : Clock} (written : Bool)
    (hsorted : ((x.rule.latest start a.history).time :: clock.readings).Pairwise (· ≤ ·)) :
    Inv x start (a.subscribeLocked x start symbols clock written).1 ∧
      (a.subscribeLocked x start symbols clock written).1.sent.map Prod.fst =
        timesWith (a.tokenAt x start written clock) written (a.sent.map Prod.fst) ∧
      ∀ t, a.tokenAt x start written clock = some t → (x.rule.latest start a.history).time ≤ t := by
  rw [subscribeLocked_eq, tokenAt]
  rcases hwait : a.wait x start written clock.allow (clock.wait :: clock.later) with ⟨b, granted⟩
  obtain ⟨hsent, htime, hinv⟩ := h.wait hsorted hwait
  cases granted with
  | none =>
    have htimes : b.sent.map Prod.fst = timesWith none written (a.sent.map Prod.fst) := by
      rw [hsent, timesWith, ite_self]
      rfl
    exact ⟨hinv b.sent htimes, htimes, htime⟩
  | some now =>
    cases written with
    | true =>
      have htimes : ((now, x.message symbols) :: b.sent).map Prod.fst =
          timesWith (some now) true (a.sent.map Prod.fst) := by
        rw [List.map_cons, hsent]
        rfl
      exact ⟨hinv _ htimes, htimes, htime⟩
    | false =>
      have htimes : b.sent.map Prod.fst = timesWith (some now) false (a.sent.map Prod.fst) := by
        rw [hsent]
        rfl
      exact ⟨hinv b.sent htimes, htimes, htime⟩

/-! ## Calls -/

/-- The reading at which a call writes its message. -/
def sends (x : Exchange) (start : ℚ) (a : ExchangeAdapter) : Call → Option ℚ
  | .connect true clock true =>
    if a.lastSymbols.length > 0 then { a with dialled := true, connected := true }.tokenAt x start true clock else none
  | .subscribe symbols clock true =>
    if a.connected && a.dialled then { a with lastSymbols := symbols }.tokenAt x start true clock else none
  | _ => none

/-- A message leaves the bucket at least as full as it was one window before, but for the tokens lost in between. -/
def Unspent (x : Exchange) (start : ℚ) (a : ExchangeAdapter) (c : Call) : Prop :=
  ∀ now, a.sends x start c = some now →
    x.rule.levelAt start a.history (now - x.window) ≤ x.rule.levelAt start a.history now - 1 +
      (x.rule.lostAt start a.history now - x.rule.lostAt start a.history (now - x.window))

/-- A call that asks for no token. -/
theorem Inv.silent (h : Inv x start a) {a' : ExchangeAdapter} {c : Call} (hlimiter : a'.limiter = a.limiter)
    (hsent : a'.sent = a.sent) (hhistory : a'.history = a.history) (hsends : a.sends x start c = none) :
    Inv x start a' ∧ a'.sent.map Prod.fst = (a.sends x start c).toList ++ a.sent.map Prod.fst ∧
      ∀ t, a.sends x start c = some t → (x.rule.latest start a.history).time ≤ t := by
  refine ⟨h.of_limiter hlimiter hsent hhistory, ?_, fun t ht => ?_⟩
  · rw [hsends, hsent]
    rfl
  · rw [hsends] at ht
    cases ht

theorem Inv.step (h : Inv x start a) {a' : ExchangeAdapter} {c : Call} (hstep : a.step x start c = some a') :
    Inv x start a' ∧ a'.sent.map Prod.fst = (a.sends x start c).toList ++ a.sent.map Prod.fst ∧
      ∀ t, a.sends x start c = some t → (x.rule.latest start a.history).time ≤ t := by
  unfold ExchangeAdapter.step at hstep
  split_ifs at hstep with hclock
  rw [h.lastRefill] at hclock
  cases c with
  | connect dialled clock written =>
    obtain rfl := Option.some.inj hstep
    cases dialled with
    | false => exact h.silent rfl rfl rfl (by cases written <;> rfl)
    | true =>
      by_cases hsymbols : a.lastSymbols.length > 0
      · have hopen : Inv x start { a with dialled := true, connected := true } := h.of_limiter rfl rfl rfl
        obtain ⟨hinv, htimes, htoken⟩ := hopen.subscribeLocked a.lastSymbols written hclock
        have hconnect : (a.connect x start true clock written).1 =
            ({ a with dialled := true, connected := true }.subscribeLocked x start a.lastSymbols clock written).1 := by
          rw [connect, if_neg (by decide), if_pos hsymbols]
        rw [hconnect]
        refine ⟨hinv, ?_, fun t ht => ?_⟩
        · rw [htimes]
          cases written with
          | true => rw [sends, if_pos hsymbols, timesWith, if_pos rfl]
          | false => rfl
        · cases written with
          | true =>
            rw [sends, if_pos hsymbols] at ht
            exact htoken t ht
          | false => cases ht
      · have hconnect :
            a.connect x start true clock written = ({ a with dialled := true, connected := true }, none) := by
          rw [connect, if_neg (by decide), if_neg hsymbols]
        rw [hconnect]
        refine h.silent rfl rfl rfl ?_
        cases written with
        | true => rw [sends, if_neg hsymbols]
        | false => rfl
  | subscribe symbols clock written =>
    obtain rfl := Option.some.inj hstep
    by_cases hopen : a.connected && a.dialled
    · have hcached : Inv x start { a with lastSymbols := symbols } := h.of_limiter rfl rfl rfl
      obtain ⟨hinv, htimes, htoken⟩ := hcached.subscribeLocked symbols written hclock
      have hsubscribe : a.subscribe x start symbols clock written =
          { a with lastSymbols := symbols }.subscribeLocked x start symbols clock written := by
        rw [subscribe, if_neg (by simpa using hopen)]
      rw [hsubscribe]
      refine ⟨hinv, ?_, fun t ht => ?_⟩
      · rw [htimes]
        cases written with
        | true => rw [sends, if_pos hopen, timesWith, if_pos rfl]
        | false => rfl
      · cases written with
        | true =>
          rw [sends, if_pos hopen] at ht
          exact htoken t ht
        | false => cases ht
    · have hsubscribe : a.subscribe x start symbols clock written = (a, some (.notConnected x.name)) := by
        rw [subscribe, if_pos (by simpa [imp_iff_not_or] using hopen)]
      rw [hsubscribe]
      refine h.silent rfl rfl rfl ?_
      cases written with
      | true => rw [sends, if_neg hopen]
      | false => rfl
  | readFailed =>
    obtain rfl := Option.some.inj hstep
    unfold readFailed
    split_ifs
    · exact h.silent rfl rfl rfl rfl
    · exact h.silent rfl rfl rfl rfl
  | close =>
    obtain rfl := Option.some.inj hstep
    unfold close
    split_ifs
    · exact h.silent rfl rfl rfl rfl
    · exact h.silent rfl rfl rfl rfl

/-- One call keeps the quota just when its message takes no saved token. -/
theorem Inv.quota_step_iff (h : Inv x start a) (hwindow : 0 < x.window) (hrate : x.subscribeRate * x.window = x.quota)
    (hkept : a.QuotaKept x) {a' : ExchangeAdapter} {c : Call} (hstep : a.step x start c = some a') :
    a'.QuotaKept x ↔ a.Unspent x start c := by
  obtain ⟨-, htimes, hlater⟩ := h.step hstep
  unfold QuotaKept Unspent
  rw [htimes]
  cases hsends : a.sends x start c with
  | none => exact ⟨fun _ now hnow => (Option.some_ne_none now hnow.symm).elim, fun _ => hkept⟩
  | some now =>
    have hnow := hlater now hsends
    have hcount := length_eq_filter_le_add (a.sent.map Prod.fst) (now - x.window)
    rw [h.count, List.length_map, h.length_sent hnow] at hcount
    have hspent := Rule.spentAt_sub h.history (now - x.window) now
    rw [hcount, sub_sub_cancel, show x.rule.rate = x.subscribeRate from rfl, hrate] at hspent
    push_cast at hspent
    have hquota := quota_cons_iff hwindow hkept fun s hs => (h.times s hs).trans hnow
    rw [Option.toList_some, List.singleton_append, hquota, Nat.lt_iff_add_one_le, ← Nat.cast_le (α := ℚ)]
    push_cast
    constructor
    · intro hfits now' hnow'
      obtain rfl := Option.some.inj hnow'
      linarith
    · intro hunspent
      have hlevel := hunspent now rfl
      linarith

theorem quotaKept_iff_unspent (hwindow : 0 < x.window) (hrate : x.subscribeRate * x.window = x.quota) (start : ℚ)
    (calls : List Call) : Run.Always (step x start) (QuotaKept x) (newAdapter x start) calls ↔
      Run.Each (step x start) (Unspent x start) (newAdapter x start) calls := by
  refine Run.always_iff_each (Inv x start) (fun _ _ _ h hstep => (h.step hstep).1)
    (fun _ _ _ h hkept hstep => h.quota_step_iff hwindow hrate hkept hstep) (inv_newAdapter x start) ?_
  intro t
  exact Nat.zero_le _

/-- **When the limits of the exchanges are kept**: in a run, no window has more than its 20 or 10 messages just when no
message takes a token that the bucket had saved before its window. -/
theorem quotaKept_iff (start : ℚ) (calls : List Call) :
    (Run.Always (step okx start) (QuotaKept okx) (newAdapter okx start) calls ↔
      Run.Each (step okx start) (Unspent okx start) (newAdapter okx start) calls) ∧
    (Run.Always (step bybit start) (QuotaKept bybit) (newAdapter bybit start) calls ↔
      Run.Each (step bybit start) (Unspent bybit start) (newAdapter bybit start) calls) :=
  ⟨quotaKept_iff_unspent (by norm_num [okx]) (by norm_num [okx]) start calls,
    quotaKept_iff_unspent (by norm_num [bybit]) (by norm_num [bybit]) start calls⟩

/-- The clock of the message `k` of a burst: ten at once, then one each half second. -/
def burstClock (k : Nat) : Clock := ⟨max 0 ((k - 9) / 2), max 0 ((k - 9) / 2), []⟩

/-- A full bucket, and what flows into it within the window. -/
def burst : List Call :=
  .connect true (burstClock 0) true :: (List.range 21).map fun k => .subscribe ["BTC-USDT"] (burstClock k) true

/-- 21 messages to OKX in less than six seconds. -/
theorem burst_over_quota :
    ¬ ∀ start calls, Run.Always (step okx start) (QuotaKept okx) (newAdapter okx start) calls := by
  intro h
  have hrun : (Run.exec (step okx 0) (newAdapter okx 0) burst).map
      (fun a => ((a.sent.map Prod.fst).filter fun s => 0 ≤ s ∧ s < 0 + okx.window).length) = some 21 := by
    decide +kernel
  obtain ⟨a, ha, hlength⟩ := Option.map_eq_some_iff.mp hrun
  have hkept := (Run.always_iff _ _).mp (h 0 burst) burst [] a (List.append_nil _).symm ha 0
  rw [hlength] at hkept
  exact absurd hkept (by decide)

end ExchangeAdapter

end Atlas.Adapter
