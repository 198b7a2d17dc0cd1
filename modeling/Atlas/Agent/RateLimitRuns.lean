import Atlas.Agent.LlmClient
import Atlas.Lib.Run

/-!
# The rate limit of the client under threads

A call of `_check_rate_limit` reads the clock, and later enters its locked section with that reading.

* `lockedSection` : what stands behind the lock; `checkRateLimit_eq` : a call of one thread is a reading and that;
* `RateState`, `RateEvent`, `RateState.step` : any threads, in any order, under a clock that does not run backwards;
* `Limited` : no window of 60 seconds has more than `rate_limit_rpm` calls that have passed;
* `Covers` : no call of the last 60 seconds falls out of the window of the reading;
* `Counted` : every call of the last 60 seconds is among the timestamps; `counted_step`, `limited_of_each`.
-/

namespace Atlas.Agent

/-- Whether the call passes, and the timestamps behind it. -/
def lockedSection (config : ResourceConfig) (timestamps : List ℚ) (now : ℚ) : Bool × List ℚ :=
  let kept := timestamps.filter fun t => now - t < 60
  if config.rateLimitRpm ≤ kept.length then (false, kept) else (true, kept ++ [now])

theorem checkRateLimit_eq {ω : Type} (config : ResourceConfig) (provider : Provider ω) (s : Client ω) :
    (checkRateLimit config provider).run s =
      let now := provider.time s.outside
      let locked := lockedSection config s.requestTimestamps now.1
      let s' := { s with outside := now.2, requestTimestamps := locked.2 }
      if locked.1 then .ok ⟨⟩ s'
      else .error (.runtimeError ("Rate limit exceeded: " ++ toString config.rateLimitRpm ++ " RPM")) s' := by
  unfold lockedSection
  dsimp only
  by_cases hfull : config.rateLimitRpm ≤
      (s.requestTimestamps.filter fun t => (provider.time s.outside).1 - t < 60).length
  · simp [checkRateLimit, consult, hfull, EStateM.run_bind]
  · simp [checkRateLimit, consult, hfull, EStateM.run_bind]

/-- A call that has passed: its reading of the clock, and the time of its locked section. -/
structure Pass where
  reading : ℚ
  time : ℚ

structure RateState (θ : Type) where
  clock : ℚ
  /-- The reading with which a thread stands before the lock. -/
  reading : θ → Option ℚ
  timestamps : List ℚ
  passes : List Pass

inductive RateEvent (θ : Type)
  | tick (clock : ℚ)
  | read (thread : θ)
  | lock (thread : θ)

namespace RateState
variable {θ : Type} [DecidableEq θ]

def new (clock : ℚ) : RateState θ := ⟨clock, fun _ => none, [], []⟩

/-- The locked section of a thread, entered with its reading. -/
def enter (config : ResourceConfig) (s : RateState θ) (thread : θ) (now : ℚ) : RateState θ :=
  let locked := lockedSection config s.timestamps now
  { s with
    reading := Function.update s.reading thread none
    timestamps := locked.2
    passes := if locked.1 then s.passes ++ [⟨now, s.clock⟩] else s.passes }

def step (config : ResourceConfig) (s : RateState θ) : RateEvent θ → Option (RateState θ)
  | .tick clock => if s.clock ≤ clock then some { s with clock } else none
  | .read thread =>
    if s.reading thread = none then some { s with reading := Function.update s.reading thread (some s.clock) } else none
  | .lock thread => (s.reading thread).map (s.enter config thread)

/-- The calls that have passed in the 60 seconds from `start` on. -/
def window (s : RateState θ) (start : ℚ) : List Pass := s.passes.filter fun p => start ≤ p.time ∧ p.time < start + 60

def Limited (config : ResourceConfig) (s : RateState θ) : Prop := ∀ start, (s.window start).length ≤ config.rateLimitRpm

/-- Less than 60 seconds ago. -/
def recent (s : RateState θ) : List Pass := s.passes.filter fun p => s.clock - p.time < 60

/-- A call that has passed less than 60 seconds ago has read its clock less than 60 seconds before the reading of the
thread that enters. -/
def Covers (s : RateState θ) : RateEvent θ → Prop
  | .lock thread => ∀ now, s.reading thread = some now → ∀ p ∈ s.recent, now - p.reading < 60
  | _ => True

/-- Every call of the last 60 seconds is among the timestamps, and no window is over the limit. -/
structure Counted (config : ResourceConfig) (s : RateState θ) : Prop where
  times : ∀ p ∈ s.passes, p.time ≤ s.clock
  counted : (s.recent.map Pass.reading).Sublist s.timestamps
  limited : s.Limited config

variable {config : ResourceConfig} {s s' : RateState θ}

omit [DecidableEq θ] in
theorem counted_new (clock : ℚ) : Counted config (new clock : RateState θ) where
  times := List.forall_mem_nil _
  counted := List.Sublist.refl _
  limited _ := Nat.zero_le _

omit [DecidableEq θ] in
/-- Time only takes calls out of the last 60 seconds. -/
theorem counted_tick (h : Counted config s) {clock : ℚ} (hclock : s.clock ≤ clock) :
    Counted config { s with clock } where
  times p hp := (h.times p hp).trans hclock
  counted := by
    refine List.Sublist.trans (List.Sublist.map _ ?_) h.counted
    apply List.monotone_filter_right
    intro p hp
    rw [decide_eq_true_eq] at hp ⊢
    linarith
  limited := h.limited

omit [DecidableEq θ] in
/-- What covers the last 60 seconds keeps their calls among the timestamps. -/
theorem recent_sublist_kept (h : Counted config s) {now : ℚ} (hcovers : ∀ p ∈ s.recent, now - p.reading < 60) :
    (s.recent.map Pass.reading).Sublist (s.timestamps.filter fun t => now - t < 60) := by
  have hfilter : (s.recent.map Pass.reading).filter (fun t => now - t < 60) = s.recent.map Pass.reading := by
    apply List.filter_eq_self.mpr
    intro t ht
    obtain ⟨p, hp, rfl⟩ := List.mem_map.mp ht
    exact decide_eq_true (hcovers p hp)
  rw [← hfilter]
  exact h.counted.filter _

omit [DecidableEq θ] in
/-- A window that has a call of this moment has no calls in it but those of the last 60 seconds. -/
theorem window_sublist_recent {start : ℚ} (h : s.clock < start + 60) : (s.window start).Sublist s.recent := by
  apply List.monotone_filter_right
  intro p hp
  rw [decide_eq_true_eq] at hp ⊢
  linarith [hp.1]

theorem counted_enter (h : Counted config s) {thread : θ} {now : ℚ}
    (hcovers : ∀ p ∈ s.recent, now - p.reading < 60) : Counted config (s.enter config thread now) := by
  have hkept := recent_sublist_kept h hcovers
  by_cases hfull : config.rateLimitRpm ≤ (s.timestamps.filter fun t => now - t < 60).length
  · have hlocked : lockedSection config s.timestamps now = (false, s.timestamps.filter fun t => now - t < 60) :=
      if_pos hfull
    rw [enter, hlocked]
    exact ⟨h.times, hkept, h.limited⟩
  · have hlocked : lockedSection config s.timestamps now =
        (true, (s.timestamps.filter fun t => now - t < 60) ++ [now]) := if_neg hfull
    rw [enter, hlocked]
    refine ⟨fun p hp => ?_, ?_, fun start => ?_⟩
    · replace hp : p ∈ s.passes ++ [⟨now, s.clock⟩] := hp
      rcases List.mem_append.mp hp with hp | hp
      · exact h.times p hp
      · rw [List.mem_singleton.mp hp]
    · show (((s.passes ++ [(⟨now, s.clock⟩ : Pass)]).filter fun p => s.clock - p.time < 60).map Pass.reading).Sublist _
      rw [List.filter_append, List.filter_cons_of_pos (by simp), List.filter_nil, List.map_append]
      exact hkept.append (List.Sublist.refl _)
    · show ((s.passes ++ [(⟨now, s.clock⟩ : Pass)]).filter fun p => start ≤ p.time ∧ p.time < start + 60).length ≤ _
      rw [List.filter_append, List.length_append]
      by_cases hin : start ≤ s.clock ∧ s.clock < start + 60
      · -- the calls of the window are all counted, and there were fewer timestamps than the limit
        have hwindow := ((window_sublist_recent hin.2).map Pass.reading).trans hkept
        have hlength := hwindow.length_le
        rw [List.length_map] at hlength
        rw [List.filter_cons_of_pos (by simpa using hin), List.filter_nil, List.length_singleton]
        show (s.window start).length + 1 ≤ _
        omega
      · rw [List.filter_cons_of_neg (by simpa using hin), List.filter_nil, List.length_nil, Nat.add_zero]
        exact h.limited start

theorem counted_step {e : RateEvent θ} (h : Counted config s) (hcovers : s.Covers e)
    (hstep : s.step config e = some s') : Counted config s' := by
  cases e with
  | tick clock =>
    rw [step] at hstep
    split_ifs at hstep with hclock
    obtain rfl := Option.some.inj hstep
    exact counted_tick h hclock
  | read thread =>
    rw [step] at hstep
    split_ifs at hstep
    obtain rfl := Option.some.inj hstep
    exact ⟨h.times, h.counted, h.limited⟩
  | lock thread =>
    obtain ⟨now, hreading, rfl⟩ := Option.map_eq_some_iff.mp hstep
    exact counted_enter h (hcovers now hreading)

/-- **No window is over the limit** in any state of a run whose locked sections cover the last 60 seconds. -/
theorem limited_of_each (config : ResourceConfig) (clock : ℚ) (events : List (RateEvent θ))
    (hcovers : Run.Each (step config) Covers (new clock) events) :
    Run.Always (step config) (Limited config) (new clock) events := by
  have hcounted : Run.Always (step config) (Counted config) (new clock) events :=
    Run.always_of_each (Counted config) (fun s e s' h hc hstep => counted_step h hc hstep) (counted_new clock) hcovers
  exact hcounted.mono fun s h => h.limited

/-- Two threads that read and enter at the same moment, the second one a minute behind the first. -/
theorem limited_two : Run.Always (step { rateLimitRpm := 1 }) (Limited { rateLimitRpm := 1 }) (new 0)
    [.read true, .lock true, .tick 60, .read false, .lock false] := by
  apply limited_of_each
  rintro _ ⟨⟩
  refine ⟨trivial, ?_⟩
  rintro _ ⟨⟩
  refine ⟨fun now _ p hp => absurd hp List.not_mem_nil, ?_⟩
  intro s hs
  rw [step] at hs
  split_ifs at hs
  obtain rfl := Option.some.inj hs
  refine ⟨trivial, ?_⟩
  rintro _ ⟨⟩
  refine ⟨trivial, ?_⟩
  rintro _ ⟨⟩
  refine ⟨fun now _ p hp => ?_, trivial⟩
  -- the first call is a minute old
  exact absurd (List.length_pos_of_mem hp) (by decide +kernel)

/-- A thread that waits 59 seconds for the lock, and one that comes a second later: with a limit of one, both pass. -/
theorem limit_exceeded : ¬ ∀ (config : ResourceConfig) (clock : ℚ) (events : List (RateEvent Bool)),
    Run.Always (step config) (Limited config) (new clock) events := by
  intro h
  have hlimited := (Run.always_iff _ _).mp (h { rateLimitRpm := 1 } 0
    [.read true, .tick 59, .lock true, .tick 60, .read false, .lock false]) _ [] _ (List.append_nil _).symm rfl
  exact absurd (hlimited 59) (by decide +kernel)

end RateState

end Atlas.Agent
