import Atlas.Adapter.Exchange
import Atlas.Lib.Run

/-!
# The rate limiter under any schedule: `services/ingestion/internal/adapter/ratelimit.go`

* `Limited` : a limiter and the goroutines that call it; the lock sections of `Allow` follow one another in any order,
  each with its own reading of the clock, and a `Wait` polls, pauses at its `select` and polls again;
* `allowed_bounded` : the tokens stay in the bucket, and every interval sees at most a full bucket and its refill.
-/

namespace Atlas.Adapter
open TokenBucket

/-- Where a goroutine stands: outside the limiter, at the `Allow` in the loop of `Wait`, at the `select` behind it. -/
inductive Goroutine
  | idle
  | polling
  | pausing
  deriving DecidableEq, Repr

structure Limited where
  rl : RateLimiter
  goroutines : Nat → Goroutine := fun _ => .idle
  /-- The clock readings of the calls that were allowed, the newest first. -/
  allowed : List ℚ := []

inductive Action
  /-- `Allow` -/
  | allow (g : Nat) (now : ℚ)
  /-- A call of `Wait` enters its loop. -/
  | wait (g : Nat)
  /-- `rl.Allow()` in the loop -/
  | poll (g : Nat) (now : ℚ)
  /-- `<-time.After(10 * time.Millisecond)` -/
  | after (g : Nat)
  /-- `<-ctx.Done()` -/
  | done (g : Nat)
  deriving DecidableEq, Repr

namespace Limited

def move (l : Limited) (g : Nat) (place : Goroutine) : Limited :=
  { l with goroutines := Function.update l.goroutines g place }

/-- The lock section of `Allow`. -/
def allow (l : Limited) (now : ℚ) : Limited × Bool :=
  let (rl, granted) := l.rl.allow now
  ({ l with rl, allowed := if granted then now :: l.allowed else l.allowed }, granted)

/-- One step of a goroutine, absent where it stands elsewhere or the clock runs backwards. -/
def step (l : Limited) : Action → Option Limited
  | .allow g now => if l.goroutines g = .idle ∧ l.rl.lastRefill ≤ now then some (l.allow now).1 else none
  | .wait g => if l.goroutines g = .idle then some (l.move g .polling) else none
  | .poll g now =>
    if l.goroutines g = .polling ∧ l.rl.lastRefill ≤ now then
      match l.allow now with
      | (l, true) => some (l.move g .idle)
      | (l, false) => some (l.move g .pausing)
    else none
  | .after g => if l.goroutines g = .pausing then some (l.move g .polling) else none
  | .done g => if l.goroutines g = .pausing then some (l.move g .idle) else none

/-- What a step does to the limiter: nothing, or one `Allow` at a time that is not before the last one. -/
theorem step_cases {l l' : Limited} {a : Action} (h : l.step a = some l') :
    (∃ goroutines, l' = { l with goroutines }) ∨
      ∃ now goroutines, l.rl.lastRefill ≤ now ∧ l' = { (l.allow now).1 with goroutines } := by
  cases a with
  | allow g now =>
    rw [step] at h
    split_ifs at h with henabled
    exact Or.inr ⟨now, _, henabled.2, (Option.some.inj h).symm⟩
  | poll g now =>
    rw [step] at h
    split_ifs at h with henabled
    refine Or.inr ⟨now, ?_⟩
    rcases hallow : l.allow now with ⟨after, _ | _⟩ <;> rw [hallow] at h
    · exact ⟨_, henabled.2, (Option.some.inj h).symm⟩
    · exact ⟨_, henabled.2, (Option.some.inj h).symm⟩
  | wait g | after g | done g =>
    rw [step] at h
    split_ifs at h
    exact Or.inl ⟨_, (Option.some.inj h).symm⟩

/-- The settings are those of the bucket, whose account the allowed calls are. -/
structure Inv (r : Rule ℚ) (l : Limited) : Prop where
  maxTokens : l.rl.maxTokens = r.capacity
  refillRate : l.rl.refillRate = r.rate
  grants : r.Grants l.rl.tokens l.rl.lastRefill l.allowed

variable {r : Rule ℚ} {l : Limited}

theorem allow_eq (h : l.Inv r) (now : ℚ) : l.allow now =
    let tokens := min r.capacity (l.rl.tokens + r.rate * (now - l.rl.lastRefill))
    if 1 ≤ tokens then
      ({ l with rl := { l.rl with tokens := tokens - 1, lastRefill := now }, allowed := now :: l.allowed }, true)
    else ({ l with rl := { l.rl with tokens, lastRefill := now } }, false) := by
  have hclamp : (if l.rl.tokens + (now - l.rl.lastRefill) * l.rl.refillRate > l.rl.maxTokens then l.rl.maxTokens
      else l.rl.tokens + (now - l.rl.lastRefill) * l.rl.refillRate) =
      min r.capacity (l.rl.tokens + r.rate * (now - l.rl.lastRefill)) := by
    rw [h.maxTokens, h.refillRate, mul_comm, min_def_lt]
  rw [allow, RateLimiter.allow]
  simp only [hclamp, ge_iff_le]
  by_cases hone : 1 ≤ min r.capacity (l.rl.tokens + r.rate * (now - l.rl.lastRefill))
  · rw [if_pos hone, if_pos hone]
    rfl
  · rw [if_neg hone, if_neg hone]
    rfl

theorem Inv.allow (h : l.Inv r) (hrate : 0 ≤ r.rate) {now : ℚ} (hnow : l.rl.lastRefill ≤ now) :
    (l.allow now).1.Inv r := by
  have hrefilled := h.grants.refill hrate hnow
  rw [allow_eq h]
  simp only
  split_ifs with hone
  · exact ⟨h.maxTokens, h.refillRate, hrefilled.grant hrate hone⟩
  · exact ⟨h.maxTokens, h.refillRate, hrefilled⟩

theorem Inv.step (hrate : 0 ≤ r.rate) {a : Action} {l' : Limited} (h : l.Inv r) (hstep : l.step a = some l') :
    l'.Inv r := by
  obtain ⟨goroutines, rfl⟩ | ⟨now, goroutines, hnow, rfl⟩ := step_cases hstep
  · exact ⟨h.maxTokens, h.refillRate, h.grants⟩
  · have hallow := h.allow hrate hnow
    exact ⟨hallow.maxTokens, hallow.refillRate, hallow.grants⟩

end Limited

section run
variable {maxTokens refillPerSec start : ℚ} {actions : List Action} {l : Limited}

/-- **The bound of the bucket**, for every schedule of `Allow` and `Wait`. -/
theorem allowed_bounded (hmax : 0 ≤ maxTokens) (hrate : 0 ≤ refillPerSec)
    (h : Run.exec Limited.step { rl := newRateLimiter maxTokens refillPerSec start } actions = some l) :
    (0 ≤ l.rl.tokens ∧ l.rl.tokens ≤ maxTokens) ∧
      ∀ s t, s ≤ t → (between l.allowed s t : ℚ) ≤ maxTokens + refillPerSec * (t - s) := by
  have hstart : Limited.Inv ⟨maxTokens, refillPerSec⟩ { rl := newRateLimiter maxTokens refillPerSec start } :=
    ⟨rfl, rfl, Rule.Grants.full hmax hrate⟩
  have hinv := Run.exec_invariant (Limited.Inv ⟨maxTokens, refillPerSec⟩)
    (fun _ _ _ hinv hstep => hinv.step hrate hstep) hstart h
  exact ⟨⟨hinv.grants.nonneg, hinv.grants.le_capacity⟩, hinv.grants.within⟩

/-- A burst of one token, and a `Wait` that gets the next one a second later. -/
theorem allowed_bounded_wait : ∃ l, Run.exec Limited.step { rl := newRateLimiter 1 1 0 }
      [.allow 0 0, .wait 1, .poll 1 (1 / 2), .after 1, .poll 1 1] = some l ∧
    ((0 ≤ l.rl.tokens ∧ l.rl.tokens ≤ 1) ∧
      ∀ s t, s ≤ t → (between l.allowed s t : ℚ) ≤ 1 + 1 * (t - s)) := by
  obtain ⟨l, hl⟩ := Option.isSome_iff_exists.mp (by decide +kernel :
    (Run.exec Limited.step { rl := newRateLimiter 1 1 0 }
      [.allow 0 0, .wait 1, .poll 1 (1 / 2), .after 1, .poll 1 1]).isSome)
  exact ⟨l, hl, allowed_bounded (by decide +kernel) (by decide +kernel) hl⟩

end run

end Atlas.Adapter
