import Atlas.Agent.RestrictionGuard
import Atlas.Lib.Dict
import Atlas.Lib.PyText
import Atlas.Lib.Raising

/-!
# The client of the language model: `atlas_agent/llm_client.py`, `atlas_agent/llm_cache.py`

* `CircuitBreaker`, `LLMCache` : the parts of the client; times are in seconds;
* `Provider` : the API, the clock, the semaphore and the file of the cache, as calls on a world `ω` outside;
* `callApi` : up to three attempts with one model; `generateCode` : the cache, the first model and the second one;
* `Admitted`, `Offers` : what a call meets, from the state before it; `returns_generateCode` : what it hands on;
* `Kept` : what the guard has promised about a call; `kept_iff`.
-/

namespace Atlas.Agent
open Raising

/-! ## Parts of the client -/

structure ResourceConfig where
  maxConcurrentRequests : Nat := 2
  requestTimeoutSeconds : Nat := 30
  maxResponseTokens : Nat := 4096
  rateLimitRpm : Nat := 20
  circuitBreakerThreshold : Nat := 5
  circuitBreakerResetSeconds : Nat := 60

inductive ProviderStatus
  | healthy
  | degraded
  | circuitOpen
  deriving DecidableEq, Repr

structure CircuitBreaker where
  failureCount : Nat := 0
  lastFailureTime : ℚ := 0
  status : ProviderStatus := .healthy

namespace CircuitBreaker
variable (breaker : CircuitBreaker)

def recordSuccess : CircuitBreaker := { breaker with failureCount := 0, status := .healthy }

def recordFailure (config : ResourceConfig) (now : ℚ) : CircuitBreaker where
  failureCount := breaker.failureCount + 1
  lastFailureTime := now
  status := if breaker.failureCount + 1 ≥ config.circuitBreakerThreshold then .circuitOpen else breaker.status

def allowRequest (config : ResourceConfig) (now : ℚ) : Bool × CircuitBreaker :=
  if breaker.status ≠ .circuitOpen then (true, breaker)
  else if now - breaker.lastFailureTime ≥ config.circuitBreakerResetSeconds then
    (true, { breaker with status := .degraded, failureCount := 0 })
  else (false, breaker)

end CircuitBreaker

structure CacheEntry where
  response : String
  ts : ℚ
  model : String
  hits : Nat
  len : Nat

structure LLMCache where
  entries : Dict String CacheEntry

namespace LLMCache
variable (cache : LLMCache)

def maxEntries : Nat := 100

def ttlSeconds : ℚ := 86400

/-- `get`, for the key of the prompt, the model and the temperature. -/
def get (key : String) (now : ℚ) : Option String × LLMCache :=
  match cache.entries.get? key with
  | none => (none, cache)
  | some entry =>
    if now - entry.ts > ttlSeconds then (none, ⟨cache.entries.erase key⟩)
    else (some entry.response, ⟨cache.entries.set key { entry with hits := entry.hits + 1 }⟩)

/-- The first of the keys with the earliest time. -/
def oldestKey (entries : List (String × CacheEntry)) : Option String :=
  (entries.argmin fun entry => entry.2.ts).map Prod.fst

/-- `put`, up to the write to the file; the oldest entry makes room for a new key. -/
def put (key model response : String) (now : ℚ) : LLMCache :=
  let entries :=
    if maxEntries ≤ cache.entries.entries.length ∧ cache.entries.get? key = none then
      match oldestKey cache.entries.entries with
      | none => cache.entries
      | some oldest => cache.entries.erase oldest
    else cache.entries
  ⟨entries.set key ⟨response, now, model, 0, response.length⟩⟩

end LLMCache

/-! ## The client -/

/-- What the API raises, by the classes that the client tells apart. -/
inductive ApiError
  | rateLimitError (text : String)
  | apiTimeoutError (text : String)
  | apiConnectionError (text : String)
  | apiError (text : String)
  | runtimeError (text : String)
  | foreign (text : String)

def ApiError.text : ApiError → String
  | .rateLimitError text => text
  | .apiTimeoutError text => text
  | .apiConnectionError text => text
  | .apiError text => text
  | .runtimeError text => text
  | .foreign text => text

inductive ClientError
  | valueError (text : String)
  | runtimeError (text : String)
  | foreign (text : String)

/-- `create` : the content of the first choice of an answer, for a model, a prompt, a temperature and a number of
tokens; `digest` : the start of the SHA-256 of a text. -/
structure Provider (ω : Type) where
  create : String → String → ℚ → Nat → EStateM ApiError ω (Option String)
  /-- `time.time()`; where the source looks at the clock in one branch only, the model has looked before. -/
  time : ω → ℚ × ω
  sleep : ℚ → ω → ω
  /-- `random.uniform(0, 1)` -/
  uniform : ω → ℚ × ω
  acquire : Nat → ω → Bool × ω
  release : ω → ω
  /-- `_save`; an `OSError` is logged. -/
  saveCache : LLMCache → ω → ω
  digest : String → String

structure Client (ω : Type) where
  outside : ω
  guard : RestrictionGuard
  circuitBreaker : CircuitBreaker
  requestTimestamps : List ℚ
  cache : LLMCache
  model : String
  fallbackModel : String

section
variable {ω : Type} (rules : Rules) (config : ResourceConfig) (provider : Provider ω)

abbrev ClientM (ω : Type) := EStateM ClientError (Client ω)

/-- Something that answers, and does not raise. -/
def consult {α : Type} (question : ω → α × ω) : ClientM ω α :=
  modifyGet fun s => ((question s.outside).1, { s with outside := (question s.outside).2 })

/-- Something that is done outside. -/
def act (change : ω → ω) : ClientM ω Unit := modify fun s => { s with outside := change s.outside }

/-- The wait behind a failed attempt, if there is another one. -/
def backoff (attempt : Nat) (limit : ℚ) : EStateM ApiError ω Unit := fun o =>
  let (jitter, o) := provider.uniform o
  .ok ⟨⟩ (provider.sleep (min (2 ^ attempt + jitter) limit) o)

/-- One attempt: an answer without text is an error. -/
def attemptApi (prompt model : String) (temperature : ℚ) : EStateM ApiError ω String := do
  match ← provider.create model prompt temperature config.maxResponseTokens with
  | none => throw (.runtimeError ("Model " ++ model ++ " returned empty content"))
  | some content =>
    if (PyText.strip PyText.isSpace content.toList).length = 0 then
      throw (.runtimeError ("Model " ++ model ++ " returned empty content"))
    else return content

/-- The attempts from `attempt` on, with `more` of them behind it. -/
def callApiFrom (prompt model : String) (temperature : ℚ) (attempt : Nat) : Nat → EStateM ApiError ω String
  | 0 => attemptApi config provider prompt model temperature
  | more + 1 =>
    tryCatch (attemptApi config provider prompt model temperature) fun e =>
      match e with
      | .rateLimitError _ => do
        backoff provider attempt 30
        callApiFrom prompt model temperature (attempt + 1) more
      | .apiTimeoutError _ | .apiConnectionError _ => do
        backoff provider attempt 15
        callApiFrom prompt model temperature (attempt + 1) more
      | e => throw e

/-- `_call_api`, with `max_attempts = 3`. -/
def callApi (prompt model : String) (temperature : ℚ) : EStateM ApiError ω String :=
  callApiFrom config provider prompt model temperature 0 2

/-! ### `generate_code` -/

/-- A call of the API, with its exception as a value. -/
def request (call : EStateM ApiError ω String) : ClientM ω (Except ApiError String) := fun s =>
  match call.run s.outside with
  | .ok content o => .ok (.ok content) { s with outside := o }
  | .error e o => .ok (.error e) { s with outside := o }

/-- `_check_restricted_content` -/
def checkRestrictedContent (requirement : String) : ClientM ω (Option String) := do
  let now ← consult provider.time
  let s ← get
  let (decision, guard) := s.guard.checkRequest rules provider.digest now requirement
  set { s with guard }
  if decision.allowed = false then return some ((decision.category.map (·.value)).getD "restricted") else return none

/-- `_check_rate_limit` -/
def checkRateLimit : ClientM ω Unit := do
  let now ← consult provider.time
  modify fun s => { s with requestTimestamps := s.requestTimestamps.filter fun t => now - t < 60 }
  if config.rateLimitRpm ≤ (← get).requestTimestamps.length then
    throw (.runtimeError ("Rate limit exceeded: " ++ toString config.rateLimitRpm ++ " RPM"))
  else modify fun s => { s with requestTimestamps := s.requestTimestamps ++ [now] }

def codePrompt (requirement language : String) : String :=
  "You are a senior software engineer.\n" ++ "Generate professional, secure " ++ language ++ " code for:\n" ++
    requirement ++ "\n" ++ "Include error handling. Production-ready only."

/-- `_make_key`, for the temperature 0.2. -/
def makeKey (prompt model : String) : String := provider.digest (model ++ ":0.2:" ++ prompt)

/-- `_cache.get` -/
def cached (prompt : String) : ClientM ω (Option String) := do
  let now ← consult provider.time
  let s ← get
  let (response, cache) := s.cache.get (makeKey provider prompt s.model) now
  set { s with cache }
  return response

/-- Steps 3 and 4: the first model, and the second one where it fails. -/
def fetch (prompt : String) : ClientM ω String := do
  let s ← get
  match ← request (callApi config provider prompt s.model (2 / 10)) with
  | .ok content => return content
  | .error (.foreign text) => throw (.foreign text)
  | .error primary =>
    match ← request (callApi config provider prompt s.fallbackModel (2 / 10)) with
    | .ok content => return content
    | .error (.foreign text) => throw (.foreign text)
    | .error fallback => do
      let now ← consult provider.time
      modify fun s => { s with circuitBreaker := s.circuitBreaker.recordFailure config now }
      throw (.runtimeError ("Both models failed. Primary: " ++ primary.text ++ ". Fallback: " ++ fallback.text))

/-- Step 5: the answer goes into the cache. -/
def keep (prompt content : String) : ClientM ω Unit := do
  let now ← consult provider.time
  modify fun s => { s with cache := s.cache.put (makeKey provider prompt s.model) s.model content now }
  let s ← get
  act (provider.saveCache s.cache)
  modify fun s => { s with circuitBreaker := s.circuitBreaker.recordSuccess }

/-- Steps 2 to 5. -/
def askModels (prompt : String) : ClientM ω String := do
  let acquired ← consult (provider.acquire config.requestTimeoutSeconds)
  if acquired = false then throw (.runtimeError "Max concurrent requests reached")
  else
    ensuring
      (do
        let content ← fetch config provider prompt
        keep provider prompt content
        return content)
      (act provider.release)

/-- `generate_code`, behind the check of the requirement. -/
def generateAllowed (requirement language : String) : ClientM ω String := do
  let now ← consult provider.time
  let s ← get
  let (allowed, circuitBreaker) := s.circuitBreaker.allowRequest config now
  set { s with circuitBreaker }
  if allowed = false then throw (.runtimeError "Circuit breaker OPEN — API temporarily unavailable")
  else
    checkRateLimit config provider
    match ← cached provider (codePrompt requirement language) with
    | some response => return response
    | none => askModels config provider (codePrompt requirement language)

def LLMClient.generateCode (requirement language : String) : ClientM ω String := do
  match ← checkRestrictedContent rules provider requirement with
  | some restricted => throw (.valueError ("Rejected: restricted category '" ++ restricted ++ "'. " ++
      "CONSTITUTION.md §17 prohibits external AI for: " ++
      "HFT core, execution logic, risk systems, trading strategies."))
  | none => generateAllowed config provider requirement language

/-! ## What the client hands on -/

/-- One of the exceptions that the `except` clauses list. -/
def ApiError.Listed : ApiError → Prop
  | .foreign _ => False
  | _ => True

/-- What `time.time()` says behind `n` other readings of the clock, and the world behind it. -/
def Provider.reading : Nat → ω → ℚ × ω
  | 0, o => provider.time o
  | n + 1, o => provider.time (Provider.reading n o).2

/-- The circuit breaker and the rate limit let a call through that starts in this state. The guard has read the clock
before them. -/
structure Admitted (s : Client ω) : Prop where
  breaker : (s.circuitBreaker.allowRequest config (provider.reading 1 s.outside).1).1 = true
  rate : (s.requestTimestamps.filter fun t => (provider.reading 2 s.outside).1 - t < 60).length < config.rateLimitRpm

/-- What the API answers to the first model's prompt, or else to that of the second one. -/
inductive Answers (prompt model fallbackModel : String) (o : ω) : String → Prop
  | primary {content : String} {o' : ω} (h : (callApi config provider prompt model (2 / 10)).run o = .ok content o') :
      Answers prompt model fallbackModel o content
  | fallback {e : ApiError} {content : String} {o' o'' : ω}
      (hprimary : (callApi config provider prompt model (2 / 10)).run o = .error e o') (hlisted : e.Listed)
      (h : (callApi config provider prompt fallbackModel (2 / 10)).run o' = .ok content o'') :
      Answers prompt model fallbackModel o content

/-- The text that there is for a prompt when a call starts in this state: that of the cache's entry, while it lives, or
else an answer of the API. -/
inductive Offers (prompt : String) (s : Client ω) : String → Prop
  | cache {entry : CacheEntry} (hentry : s.cache.entries.get? (makeKey provider prompt s.model) = some entry)
      (hlive : ¬ (provider.reading 3 s.outside).1 - entry.ts > LLMCache.ttlSeconds) : Offers prompt s entry.response
  | model {content : String} {o : ω}
      (hmiss : ∀ entry, s.cache.entries.get? (makeKey provider prompt s.model) = some entry →
        (provider.reading 3 s.outside).1 - entry.ts > LLMCache.ttlSeconds)
      (hacquired : provider.acquire config.requestTimeoutSeconds (provider.reading 3 s.outside).2 = (true, o))
      (h : Answers config provider prompt s.model s.fallbackModel o content) : Offers prompt s content

section
variable {rules config provider} {α : Type}

@[simp] theorem wp_consult (question : ω → α × ω) (Q : α → Client ω → Prop) (E : ClientError → Client ω → Prop)
    (s : Client ω) : wp (consult question) Q E s ↔
      Q (question s.outside).1 { s with outside := (question s.outside).2 } := Iff.rfl

@[simp] theorem wp_act (change : ω → ω) (Q : Unit → Client ω → Prop) (E : ClientError → Client ω → Prop)
    (s : Client ω) : wp (act change) Q E s ↔ Q ⟨⟩ { s with outside := change s.outside } := Iff.rfl

theorem wp_request (call : EStateM ApiError ω String) (Q : Except ApiError String → Client ω → Prop)
    (E : ClientError → Client ω → Prop) (s : Client ω) : wp (request call) Q E s ↔
      match call.run s.outside with
      | .ok content o => Q (.ok content) { s with outside := o }
      | .error e o => Q (.error e) { s with outside := o } := by
  have hrun : (request call).run s = match call.run s.outside with
    | .ok content o => .ok (.ok content) { s with outside := o }
    | .error e o => .ok (.error e) { s with outside := o } := rfl
  unfold wp
  rw [hrun]
  cases call.run s.outside <;> rfl

/-- Every text that the call returns is one of those in `R`. -/
abbrev OnlyReturns (R : String → Prop) (call : ClientM ω String) (s : Client ω) : Prop :=
  wp call (fun code _ => R code) (fun _ _ => True) s

variable {R : String → Prop}

theorem returns_fetch (prompt : String) (s : Client ω) : OnlyReturns R (fetch config provider prompt) s ↔
    ∀ content, Answers config provider prompt s.model s.fallbackModel s.outside content → R content := by
  rw [OnlyReturns, fetch, wp_bind, wp_get, wp_bind, wp_request]
  cases hprimary : (callApi config provider prompt s.model (2 / 10)).run s.outside with
  | ok content o =>
    refine ⟨fun h content' hanswers => ?_, fun h => h content (.primary hprimary)⟩
    cases hanswers with
    | primary h' =>
      obtain ⟨rfl, -⟩ := EStateM.Result.ok.inj (hprimary.symm.trans h')
      exact h
    | fallback h' => cases hprimary.symm.trans h'
  | error e o =>
    have hanswers (content : String) :
        Answers config provider prompt s.model s.fallbackModel s.outside content ↔ e.Listed ∧
          ∃ o', (callApi config provider prompt s.fallbackModel (2 / 10)).run o = .ok content o' := by
      constructor
      · rintro (h | ⟨h, hlisted, hfallback⟩)
        · cases hprimary.symm.trans h
        · obtain ⟨rfl, rfl⟩ := EStateM.Result.error.inj (hprimary.symm.trans h)
          exact ⟨hlisted, _, hfallback⟩
      · rintro ⟨hlisted, o', hfallback⟩
        exact .fallback hprimary hlisted hfallback
    simp only [hanswers]
    cases hfallback : (callApi config provider prompt s.fallbackModel (2 / 10)).run o with
    | ok content o' => cases e <;> simp [wp_request, hfallback, ApiError.Listed]
    | error e' o' => cases e <;> cases e' <;> simp [wp_request, hfallback, ApiError.Listed]

theorem returns_askModels (prompt : String) (s : Client ω) : OnlyReturns R (askModels config provider prompt) s ↔
    ∀ o, provider.acquire config.requestTimeoutSeconds s.outside = (true, o) →
      ∀ content, Answers config provider prompt s.model s.fallbackModel o content → R content := by
  rw [OnlyReturns, askModels, wp_bind, wp_consult, wp_ite]
  obtain ⟨acquired, o⟩ := provider.acquire config.requestTimeoutSeconds s.outside
  cases acquired with
  | false => exact iff_of_true ⟨fun _ => trivial, nofun⟩ fun _ heq => nomatch heq
  | true =>
    simp only [Bool.true_eq_false, false_implies, not_false_eq_true, true_implies, true_and, Prod.mk.injEq, forall_eq']
    rw [wp_ensuring, wp_bind]
    -- the cache and the semaphore do not change what is returned
    exact returns_fetch prompt { s with outside := o }

theorem get_response (cache : LLMCache) (key : String) (now : ℚ) :
    (cache.get key now).1 = ((cache.entries.get? key).filter fun entry => ¬ now - entry.ts > LLMCache.ttlSeconds).map
      (·.response) := by
  unfold LLMCache.get
  cases cache.entries.get? key with
  | none => rfl
  | some entry =>
    dsimp only
    split_ifs with hdead
    · simp [Option.filter, hdead]
    · simp [Option.filter, hdead]

theorem wp_cached (prompt : String) (Q : Option String → Client ω → Prop) (E : ClientError → Client ω → Prop)
    (s : Client ω) : wp (cached provider prompt) Q E s ↔
      Q (s.cache.get (makeKey provider prompt s.model) (provider.time s.outside).1).1
        { s with
          outside := (provider.time s.outside).2
          cache := (s.cache.get (makeKey provider prompt s.model) (provider.time s.outside).1).2 } := Iff.rfl

/-- The cache, and what is behind it, once the call has been let through. -/
theorem returns_offered (prompt : String) (guard : RestrictionGuard) (breaker : CircuitBreaker) (stamps : List ℚ)
    (s : Client ω) :
    OnlyReturns R (do
        match ← cached provider prompt with
        | some response => return response
        | none => askModels config provider prompt)
      ⟨(provider.reading 2 s.outside).2, guard, breaker, stamps, s.cache, s.model, s.fallbackModel⟩ ↔
    ∀ content, Offers config provider prompt s content → R content := by
  have hreading : provider.time (provider.reading 2 s.outside).2 = provider.reading 3 s.outside := rfl
  rw [OnlyReturns, wp_bind, wp_cached, get_response]
  dsimp only
  rw [hreading]
  cases hfound : (s.cache.entries.get? (makeKey provider prompt s.model)).filter fun entry =>
      ¬ (provider.reading 3 s.outside).1 - entry.ts > LLMCache.ttlSeconds with
  | none =>
    have hmiss : ∀ entry, s.cache.entries.get? (makeKey provider prompt s.model) = some entry →
        (provider.reading 3 s.outside).1 - entry.ts > LLMCache.ttlSeconds := by
      intro entry hentry
      simpa only [decide_eq_true_eq, not_not] using Option.filter_eq_none_iff.mp hfound entry hentry
    refine (returns_askModels prompt _).trans ⟨?_, fun h o hacquired content hanswers => ?_⟩
    · rintro h content (⟨hentry, hlive⟩ | ⟨-, hacquired, hanswers⟩)
      · exact (hlive (hmiss _ hentry)).elim
      · exact h _ hacquired content hanswers
    · exact h content (.model hmiss hacquired hanswers)
  | some entry =>
    obtain ⟨hentry, hlive⟩ := Option.filter_eq_some_iff.mp hfound
    refine ⟨?_, fun h => h _ (.cache hentry (of_decide_eq_true hlive))⟩
    rintro h content (⟨hentry', -⟩ | ⟨hmiss, -, -⟩)
    · obtain rfl := Option.some.inj (hentry.symm.trans hentry')
      exact h
    · exact (of_decide_eq_true hlive (hmiss entry hentry)).elim

theorem wp_checkRateLimit (Q : PUnit → Client ω → Prop) (E : ClientError → Client ω → Prop) (s : Client ω) :
    wp (checkRateLimit config provider) Q E s ↔
      let now := (provider.time s.outside).1
      let stamps := s.requestTimestamps.filter fun t => now - t < 60
      (config.rateLimitRpm ≤ stamps.length →
        E (.runtimeError ("Rate limit exceeded: " ++ toString config.rateLimitRpm ++ " RPM"))
          { s with outside := (provider.time s.outside).2, requestTimestamps := stamps }) ∧
      (¬ config.rateLimitRpm ≤ stamps.length →
        Q ⟨⟩ { s with outside := (provider.time s.outside).2, requestTimestamps := stamps ++ [now] }) := by
  rw [checkRateLimit, wp_bind, wp_consult, wp_bind, wp_modify, wp_bind, wp_get, wp_ite]
  rfl

theorem returns_generateAllowed (requirement language : String) (guard : RestrictionGuard) (s : Client ω) :
    OnlyReturns R (generateAllowed config provider requirement language)
      { s with outside := (provider.time s.outside).2, guard } ↔
    (Admitted config provider s → ∀ content, Offers config provider (codePrompt requirement language) s content →
      R content) := by
  rw [OnlyReturns, generateAllowed, wp_bind, wp_consult, wp_bind, wp_get, wp_bind, wp_set, wp_ite, wp_bind,
    wp_checkRateLimit]
  have hoffered := @returns_offered ω config provider R (codePrompt requirement language) guard
    (s.circuitBreaker.allowRequest config (provider.reading 1 s.outside).1).2
    ((s.requestTimestamps.filter fun t => (provider.reading 2 s.outside).1 - t < 60) ++
      [(provider.reading 2 s.outside).1]) s
  rw [← hoffered]
  constructor
  · exact fun h hadmitted => (h.2 (ne_false_of_eq_true hadmitted.breaker)).2 (not_le.mpr hadmitted.rate)
  · intro h
    refine ⟨fun _ => trivial, fun hbreaker => ⟨fun _ => trivial, fun hrate => h ⟨?_, not_le.mp hrate⟩⟩⟩
    exact Bool.eq_true_of_not_eq_false hbreaker

theorem returns_generateCode (requirement language : String) (s : Client ω) :
    OnlyReturns R (LLMClient.generateCode rules config provider requirement language) s ↔
    (detectCategory rules requirement = none ∨ Promised rules requirement → Admitted config provider s →
      ∀ content, Offers config provider (codePrompt requirement language) s content → R content) := by
  rw [OnlyReturns, LLMClient.generateCode, wp_bind, checkRestrictedContent, wp_bind, wp_consult, wp_bind, wp_get,
    wp_bind, wp_set, wp_ite,
    ← @allowed_checkRequest rules s.guard provider.digest (provider.time s.outside).1 requirement]
  cases hallowed : (s.guard.checkRequest rules provider.digest (provider.time s.outside).1 requirement).1.allowed with
  | false => exact iff_of_true ⟨fun _ => trivial, fun h => (h rfl).elim⟩ nofun
  | true =>
    have hbehind := @returns_generateAllowed ω config provider R requirement language
      (s.guard.checkRequest rules provider.digest (provider.time s.outside).1 requirement).2 s
    simpa using hbehind

/-- What `RestrictionGuard` has been promised of code that is returned for a requirement. -/
structure Kept (rules : Rules) (hash : String → String) (guard : RestrictionGuard) (now : ℚ)
    (requirement language code : String) : Prop where
  allowed : (guard.checkRequest rules hash now requirement).1.allowed = true
  output : detectCategory rules requirement ≠ none →
    (guard.validateOutput rules now code language (guard.checkRequest rules hash now requirement).1).1.allowed = true

theorem kept_iff_valid {hash : String → String} {guard : RestrictionGuard} {now : ℚ}
    {requirement language code : String} (h : detectCategory rules requirement = none ∨ Promised rules requirement) :
    Kept rules hash guard now requirement language code ↔
      (Promised rules requirement → (validateOutputStructure rules code language).1 = true) := by
  have hallowed := (@allowed_checkRequest rules guard hash now requirement).mpr h
  have houtput := @allowed_validateOutput rules guard now code language _ hallowed
  rw [category_checkRequest] at houtput
  constructor
  · rintro ⟨-, hkept⟩ hpromised
    exact (houtput.mp (hkept hpromised.1)).resolve_left hpromised.1
  · intro hvalid
    refine ⟨hallowed, fun hcategory => houtput.mpr (.inr (hvalid ?_))⟩
    exact h.resolve_left hcategory

end

/-- **The restriction guard of a call.** What has been promised is kept just when the text that the cache or the models
have for a scaffold of something restricted is one, unless the call does not get that far. -/
theorem kept_iff (s : Client ω) (requirement language : String) :
    (∀ code s', (LLMClient.generateCode rules config provider requirement language).run s = .ok code s' →
      ∀ guard now, Kept rules provider.digest guard now requirement language code) ↔
    (Promised rules requirement → Admitted config provider s →
      ∀ text, Offers config provider (codePrompt requirement language) s text →
        (validateOutputStructure rules text language).1 = true) := by
  refine wp_iff_of_returns.symm.trans ((returns_generateCode requirement language s).trans ?_)
  by_cases hallowed : detectCategory rules requirement = none ∨ Promised rules requirement
  · have hkept (text : String) : (∀ guard now, Kept rules provider.digest guard now requirement language text) ↔
        (Promised rules requirement → (validateOutputStructure rules text language).1 = true) :=
      ⟨fun h => (kept_iff_valid hallowed).mp (h s.guard 0), fun h guard now => (kept_iff_valid hallowed).mpr h⟩
    simp only [hkept]
    constructor
    · exact fun h hpromised hadmitted text hoffers => h hallowed hadmitted text hoffers hpromised
    · exact fun h _ hadmitted text hoffers hpromised => h hpromised hadmitted text hoffers
  · exact iff_of_true (fun h => (hallowed h).elim) fun h => (hallowed (.inr h)).elim

end

/-! ## An answer that is not checked -/

/-- `risk engine`, `scaffold` and `stub` are looked for, and `todo!()` and `.assess(`. -/
def exampleRules : Rules where
  lower text := text
  categoryPatterns := [(.riskSystems, [fun text => "risk engine".toList <:+: text.toList])]
  scaffoldIndicators :=
    [fun text => "scaffold".toList <:+: text.toList, fun text => "stub".toList <:+: text.toList]
  implementationIndicators := []
  scaffoldPatternsRust := [fun code => "todo!()".toList <:+: code.toList]
  implementationPatternsRust := [fun code => ".assess(".toList <:+: code.toList]
  scaffoldPatternsPython := []
  implementationPatternsPython := []

/-- A model that always answers with an implementation. -/
def exampleProvider : Provider Unit where
  create _ _ _ _ := pure (some "x.assess()")
  time o := (0, o)
  sleep _ o := o
  uniform o := (0, o)
  acquire _ o := (true, o)
  release o := o
  saveCache _ o := o
  digest text := text

theorem implementation_returned : ∃ code s', (LLMClient.generateCode exampleRules {} exampleProvider
      "scaffold of a risk engine, stub only" "rust").run ⟨(), ⟨[]⟩, {}, [], ⟨Dict.empty⟩, "a", "b"⟩ = .ok code s' ∧
    detectCategory exampleRules "scaffold of a risk engine, stub only" = some .riskSystems ∧
    ∀ guard now, ¬ Kept exampleRules exampleProvider.digest guard now "scaffold of a risk engine, stub only" "rust"
      code := by
  have hpromised : Promised exampleRules "scaffold of a risk engine, stub only" := by
    refine ⟨?_, ?_⟩ <;> decide +kernel
  have hinvalid : (validateOutputStructure exampleRules "x.assess()" "rust").1 = false := by decide +kernel
  have hcode : (match (LLMClient.generateCode exampleRules {} exampleProvider "scaffold of a risk engine, stub only"
      "rust").run ⟨(), ⟨[]⟩, {}, [], ⟨Dict.empty⟩, "a", "b"⟩ with
    | .ok code _ => some code
    | .error _ _ => none) = some "x.assess()" := by decide +kernel
  split at hcode
  · next code s' hrun =>
    obtain rfl := Option.some.inj hcode
    refine ⟨_, s', hrun, by decide +kernel, fun guard now hkept => ?_⟩
    have hvalid := (kept_iff_valid (.inr hpromised)).mp hkept hpromised
    rw [hinvalid] at hvalid
    cases hvalid
  · cases hcode

end Atlas.Agent
