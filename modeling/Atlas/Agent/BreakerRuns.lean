import Atlas.Agent.LlmClient

/-!
# The circuit breaker of the client, over whole runs

`allow_request`, `record_success` and `record_failure` in any order, each behind the lock.

* `BreakerCall`, `Outcome`, `perform` : a call, and what comes of it;
* `failuresSince`, `latestFailure` : what a history says, its newest outcome in front;
* `Agrees` : the breaker against its history; `agrees_perform`, `run_agrees`;
* `refuses_iff` : when a request is refused.
-/

namespace Atlas.Agent

/-- A call, with the time that its clock shows. -/
inductive BreakerCall
  | allowRequest (now : ℚ)
  | recordSuccess
  | recordFailure (now : ℚ)

/-- `reset` : a request that is allowed because the breaker has been open for long enough. -/
inductive Outcome
  | allowed
  | reset
  | refused
  | success
  | failure (now : ℚ)

namespace CircuitBreaker

def perform (config : ResourceConfig) (breaker : CircuitBreaker) : BreakerCall → Outcome × CircuitBreaker
  | .allowRequest now =>
    let (answer, next) := breaker.allowRequest config now
    (if answer = false then .refused else if breaker.status = .circuitOpen then .reset else .allowed, next)
  | .recordSuccess => (.success, breaker.recordSuccess)
  | .recordFailure now => (.failure now, breaker.recordFailure config now)

/-- The breaker and the outcomes so far, the newest in front. -/
def next (config : ResourceConfig) (soFar : CircuitBreaker × List Outcome) (call : BreakerCall) :
    CircuitBreaker × List Outcome :=
  ((soFar.1.perform config call).2, (soFar.1.perform config call).1 :: soFar.2)

/-- A run of a new breaker. -/
def run (config : ResourceConfig) (calls : List BreakerCall) : CircuitBreaker × List Outcome :=
  calls.foldl (next config) ({}, [])

/-! ## Histories -/

/-- The failures since the latest success or reset. -/
def failuresSince : List Outcome → ℕ
  | [] => 0
  | .success :: _ => 0
  | .reset :: _ => 0
  | .failure _ :: history => failuresSince history + 1
  | _ :: history => failuresSince history

/-- The time of the latest failure. -/
def latestFailure : List Outcome → Option ℚ
  | [] => none
  | .failure now :: _ => some now
  | _ :: history => latestFailure history

/-- The breaker counts the failures since the latest success or reset, keeps the time of the latest one, and is open
when the count has reached the threshold. -/
structure Agrees (config : ResourceConfig) (breaker : CircuitBreaker) (history : List Outcome) : Prop where
  count : breaker.failureCount = failuresSince history
  time : ∀ now, latestFailure history = some now → breaker.lastFailureTime = now
  failed : 0 < failuresSince history → (latestFailure history).isSome
  status : breaker.status = .circuitOpen ↔ config.circuitBreakerThreshold ≤ breaker.failureCount

variable {config : ResourceConfig} {breaker : CircuitBreaker} {history : List Outcome}

/-! ## What a call does -/

theorem perform_closed (h : breaker.status ≠ .circuitOpen) (now : ℚ) :
    breaker.perform config (.allowRequest now) = (.allowed, breaker) := by
  simp [perform, allowRequest, h]

theorem perform_reset (h : breaker.status = .circuitOpen) {now : ℚ}
    (hlate : config.circuitBreakerResetSeconds ≤ now - breaker.lastFailureTime) :
    breaker.perform config (.allowRequest now) = (.reset, { breaker with status := .degraded, failureCount := 0 }) := by
  simp [perform, allowRequest, h, hlate]

theorem perform_refused (h : breaker.status = .circuitOpen) {now : ℚ}
    (hsoon : now - breaker.lastFailureTime < config.circuitBreakerResetSeconds) :
    breaker.perform config (.allowRequest now) = (.refused, breaker) := by
  simp [perform, allowRequest, h, not_le.mpr hsoon]

/-- A request is refused while the breaker is open and the latest failure is not long enough ago. -/
theorem allowRequest_eq_false_iff (now : ℚ) : (breaker.allowRequest config now).1 = false ↔
    breaker.status = .circuitOpen ∧ now - breaker.lastFailureTime < config.circuitBreakerResetSeconds := by
  unfold allowRequest
  split_ifs with hopen hlate
  · exact iff_of_false nofun fun h => hopen h.1
  · exact iff_of_false nofun fun h => absurd h.2 (not_lt.mpr hlate)
  · exact iff_of_true rfl ⟨not_not.mp hopen, not_le.mp hlate⟩

theorem agrees_new (hthreshold : 1 ≤ config.circuitBreakerThreshold) : Agrees config {} [] where
  count := rfl
  time := nofun
  failed := nofun
  status := iff_of_false nofun (by show ¬ _ ≤ 0; omega)

theorem agrees_perform (hthreshold : 1 ≤ config.circuitBreakerThreshold) (h : Agrees config breaker history)
    (call : BreakerCall) :
    Agrees config (breaker.perform config call).2 ((breaker.perform config call).1 :: history) := by
  cases call with
  | allowRequest now =>
    by_cases hopen : breaker.status = .circuitOpen
    · by_cases hlate : config.circuitBreakerResetSeconds ≤ now - breaker.lastFailureTime
      · rw [perform_reset hopen hlate]
        exact ⟨rfl, h.time, nofun, iff_of_false nofun (by show ¬ _ ≤ 0; omega)⟩
      · rw [perform_refused hopen (not_le.mp hlate)]
        exact ⟨h.count, h.time, h.failed, h.status⟩
    · rw [perform_closed hopen]
      exact ⟨h.count, h.time, h.failed, h.status⟩
  | recordSuccess => exact ⟨rfl, h.time, nofun, iff_of_false nofun (by show ¬ _ ≤ 0; omega)⟩
  | recordFailure now =>
    refine ⟨congrArg (· + 1) h.count, fun t ht => Option.some.inj ht, fun _ => rfl, ?_⟩
    show (if breaker.failureCount + 1 ≥ config.circuitBreakerThreshold then _ else breaker.status) = _ ↔
      config.circuitBreakerThreshold ≤ breaker.failureCount + 1
    split_ifs with hreached
    · exact iff_of_true rfl hreached
    · -- below the threshold the breaker was closed before
      rw [h.status]
      omega

theorem run_agrees (hthreshold : 1 ≤ config.circuitBreakerThreshold) (calls : List BreakerCall) :
    Agrees config (run config calls).1 (run config calls).2 := by
  unfold run
  induction calls using List.reverseRecOn with
  | nil => exact agrees_new hthreshold
  | append_singleton calls call ih =>
    rw [List.foldl_concat]
    exact agrees_perform hthreshold ih call

/-- **When a request is refused**: at least `threshold` failures since the latest success or reset, the latest failure
less than `reset_seconds` ago. -/
theorem refuses_iff (config : ResourceConfig) (hthreshold : 1 ≤ config.circuitBreakerThreshold)
    (calls : List BreakerCall) (now : ℚ) : ((run config calls).1.allowRequest config now).1 = false ↔
      config.circuitBreakerThreshold ≤ failuresSince (run config calls).2 ∧
        ∃ latest, latestFailure (run config calls).2 = some latest ∧
          now - latest < config.circuitBreakerResetSeconds := by
  have h := run_agrees hthreshold calls
  rw [allowRequest_eq_false_iff, h.status, h.count]
  refine and_congr_right fun hreached => ?_
  obtain ⟨latest, hlatest⟩ := Option.isSome_iff_exists.mp (h.failed (by omega))
  rw [h.time latest hlatest, hlatest]
  constructor
  · intro hsoon
    exact ⟨latest, rfl, hsoon⟩
  · rintro ⟨_, heq, hsoon⟩
    rwa [Option.some.inj heq]

/-- Two failures with a threshold of two. -/
theorem refuses_second : ((run { circuitBreakerThreshold := 2 } [.recordFailure 0, .recordFailure 30]).1.allowRequest
    { circuitBreakerThreshold := 2 } 40).1 = false := by
  refine (refuses_iff { circuitBreakerThreshold := 2 } (by decide) _ 40).mpr ⟨le_rfl, 30, rfl, ?_⟩
  norm_num

end CircuitBreaker

end Atlas.Agent
