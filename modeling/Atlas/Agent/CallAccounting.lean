import Atlas.Agent.LlmClient

/-!
# What a call of the client acquires, releases and records

* `lookUp`, `store`, `enter` : the cache under any key, and what stands before the `try` of both methods;
* `Record`, `Audited` : a client with an account of its semaphore and its circuit breaker;
* `answerCode`, `analyze` : the two `try` statements, for any outcomes of `_call_api`; `generateCode`,
  `analyzeSecurity` : the methods;
* `simulates_generateCode` : without the account, it is the method of the client;
* `Foreseen` : no exception but those that are listed; `Settled` : the account of a call; `accounted_iff`.
-/

namespace Atlas.Agent
open Raising

inductive Record
  | acquired
  | released
  | success
  | failure
  deriving DecidableEq, Repr

structure Audited (ω : Type) where
  client : Client ω
  records : List Record

namespace Audited
variable {ω α : Type}

abbrev AuditedM (ω : Type) := EStateM ClientError (Audited ω)

/-! ## Before the `try` -/

section
variable (rules : Rules) (config : ResourceConfig) (provider : Provider ω)

/-- `_cache.get` -/
def lookUp (key : String → String → String) (prompt : String) : ClientM ω (Option String) := do
  let now ← consult provider.time
  let s ← get
  let (response, cache) := s.cache.get (key prompt s.model) now
  set { s with cache }
  return response

/-- `_cache.put` -/
def store (key : String → String → String) (prompt content : String) : ClientM ω Unit := do
  let now ← consult provider.time
  modify fun s => { s with cache := s.cache.put (key prompt s.model) s.model content now }
  let s ← get
  act (provider.saveCache s.cache)

/-- The circuit breaker, the rate limit, the cache and the semaphore: an answer of the cache, or none when the semaphore
has been acquired. `closed` is what an open circuit breaker says. -/
def enter (closed : String) (key : String → String → String) (prompt : String) : ClientM ω (Option String) := do
  let now ← consult provider.time
  let s ← get
  let (allowed, circuitBreaker) := s.circuitBreaker.allowRequest config now
  set { s with circuitBreaker }
  if allowed = false then throw (.runtimeError closed)
  else
    checkRateLimit config provider
    match ← lookUp provider key prompt with
    | some response => return some response
    | none =>
      let acquired ← consult (provider.acquire config.requestTimeoutSeconds)
      if acquired = false then throw (.runtimeError "Max concurrent requests reached") else return none

def enterCode (requirement language : String) : ClientM ω (Option String) := do
  match ← checkRestrictedContent rules provider requirement with
  | some restricted => throw (.valueError ("Rejected: restricted category '" ++ restricted ++ "'. " ++
      "CONSTITUTION.md §17 prohibits external AI for: " ++
      "HFT core, execution logic, risk systems, trading strategies."))
  | none =>
    enter config provider "Circuit breaker OPEN — API temporarily unavailable" (makeKey provider)
      (codePrompt requirement language)

def analysisPrompt (code : String) : String :=
  "Review for security vulnerabilities " ++ "(SQL Injection, XSS, Hardcoded Secrets):\n" ++ code

/-- `_make_key`, for the temperature 0.1. -/
def analysisKey (prompt model : String) : String := provider.digest (model ++ ":0.1:" ++ prompt)

def enterAnalysis (code : String) : ClientM ω (Option String) :=
  enter config provider "Circuit breaker OPEN" (analysisKey provider) (analysisPrompt code)

/-! ## The methods -/

/-- A call of the client, with nothing for the account. -/
def unaudited (call : ClientM ω α) : AuditedM ω α := fun s =>
  match call.run s.client with
  | .ok a c => .ok a { s with client := c }
  | .error e c => .error e { s with client := c }

def note (record : Record) : AuditedM ω Unit := modify fun s => { s with records := s.records ++ [record] }

def recordSuccess : AuditedM ω Unit := do
  note .success
  unaudited (modify fun s => { s with circuitBreaker := s.circuitBreaker.recordSuccess })

def recordFailure : AuditedM ω Unit := do
  note .failure
  unaudited (do
    let now ← consult provider.time
    modify fun s => { s with circuitBreaker := s.circuitBreaker.recordFailure config now })

def release : AuditedM ω Unit := do
  note .released
  unaudited (act provider.release)

section
variable (api : String → String → ℚ → EStateM ApiError ω String)

/-- Step 4 of `generate_code`; `api` : `_call_api`, for a prompt, a model and a temperature. -/
def fetchFallback (prompt fallbackModel : String) (primary : ApiError) : AuditedM ω String := do
  match ← unaudited (request (api prompt fallbackModel (2 / 10))) with
  | .ok content => return content
  | .error (.foreign text) => throw (.foreign text)
  | .error fallback => do
    recordFailure config provider
    throw (.runtimeError ("Both models failed. Primary: " ++ primary.text ++ ". Fallback: " ++ fallback.text))

/-- Steps 3 and 4. -/
def fetchCode (prompt : String) : AuditedM ω String := do
  let s ← unaudited get
  match ← unaudited (request (api prompt s.model (2 / 10))) with
  | .ok content => return content
  | .error (.foreign text) => throw (.foreign text)
  | .error primary => fetchFallback config provider api prompt s.fallbackModel primary

/-- The `try` of `generate_code`. -/
def answerCode (prompt : String) : AuditedM ω String :=
  ensuring
    (do
      let content ← fetchCode config provider api prompt
      unaudited (store provider (makeKey provider) prompt content)
      recordSuccess
      return content)
    (release provider)

/-- The inner `try` of `analyze_security`, with its exception as a value. -/
def fetchAnalysis (prompt : String) : AuditedM ω (Except ApiError String) := do
  let s ← unaudited get
  match ← unaudited (request (api prompt s.model (1 / 10))) with
  | .ok content => return .ok content
  | .error (.foreign text) => return .error (.foreign text)
  | .error _ => unaudited (request (api prompt s.fallbackModel (1 / 10)))

/-- The `try` of `analyze_security`. -/
def analyze (prompt : String) : AuditedM ω String :=
  ensuring
    (do
      match ← fetchAnalysis api prompt with
      | .ok content => do
        unaudited (store provider (analysisKey provider) prompt content)
        recordSuccess
        return content
      | .error (.foreign text) => throw (.foreign text)
      | .error e => do
        recordFailure config provider
        throw (.runtimeError ("Security analysis failed: " ++ e.text)))
    (release provider)

def generateCode (requirement language : String) : AuditedM ω String := do
  match ← unaudited (enterCode rules config provider requirement language) with
  | some response => return response
  | none => do
    note .acquired
    answerCode config provider api (codePrompt requirement language)

def analyzeSecurity (code : String) : AuditedM ω String := do
  match ← unaudited (enterAnalysis config provider code) with
  | some response => return response
  | none => do
    note .acquired
    analyze config provider api (analysisPrompt code)

end

end

/-! ## Without the account -/

section
variable {rules : Rules} {config : ResourceConfig} {provider : Provider ω}

theorem run_unaudited (call : ClientM ω α) (s : Audited ω) :
    (unaudited call).run s = match call.run s.client with
      | .ok a c => .ok a { s with client := c }
      | .error e c => .error e { s with client := c } := rfl

@[simp] theorem wp_unaudited (call : ClientM ω α) (Q : α → Audited ω → Prop) (E : ClientError → Audited ω → Prop)
    (s : Audited ω) : wp (unaudited call) Q E s ↔
      wp call (fun a c => Q a { s with client := c }) (fun e c => E e { s with client := c }) s.client := by
  unfold wp
  rw [run_unaudited]
  cases call.run s.client <;> rfl

@[simp] theorem wp_note (record : Record) (Q : Unit → Audited ω → Prop) (E : ClientError → Audited ω → Prop)
    (s : Audited ω) : wp (note record) Q E s ↔ Q ⟨⟩ { s with records := s.records ++ [record] } := Iff.rfl

theorem simulates_unaudited (call : ClientM ω α) : Simulates Audited.client (unaudited call) call := by
  intro s
  rw [run_unaudited]
  cases call.run s.client <;> rfl

theorem simulates_note {next : AuditedM ω α} {next' : ClientM ω α} (record : Record)
    (h : Simulates Audited.client next next') :
    Simulates Audited.client (do note record; next) next' := fun _ => h _

theorem simulates_recordSuccess : Simulates Audited.client (recordSuccess : AuditedM ω Unit)
    (modify fun s => { s with circuitBreaker := s.circuitBreaker.recordSuccess }) :=
  simulates_note _ (simulates_unaudited _)

theorem simulates_recordFailure : Simulates Audited.client (recordFailure config provider)
    (do
      let now ← consult provider.time
      modify fun s => { s with circuitBreaker := s.circuitBreaker.recordFailure config now }) :=
  simulates_note _ (simulates_unaudited _)

theorem simulates_fetchFallback (prompt fallbackModel : String) (primary : ApiError) :
    Simulates Audited.client (fetchFallback config provider (callApi config provider) prompt fallbackModel primary)
      (do
        match ← request (callApi config provider prompt fallbackModel (2 / 10)) with
        | .ok content => return content
        | .error (.foreign text) => throw (.foreign text)
        | .error fallback => do
          let now ← consult provider.time
          modify fun s => { s with circuitBreaker := s.circuitBreaker.recordFailure config now }
          throw (.runtimeError
            ("Both models failed. Primary: " ++ primary.text ++ ". Fallback: " ++ fallback.text))) := by
  apply (simulates_unaudited _).bind
  intro second
  rcases second with e | content
  · cases e with
    | foreign text => exact Simulates.throw _
    | _ => exact simulates_recordFailure.bind fun _ => Simulates.throw _
  · exact Simulates.pure _

theorem simulates_fetchCode (prompt : String) :
    Simulates Audited.client (fetchCode config provider (callApi config provider) prompt)
      (fetch config provider prompt) := by
  apply (simulates_unaudited _).bind
  intro s
  apply (simulates_unaudited _).bind
  intro first
  rcases first with e | content
  · cases e with
    | foreign text => exact Simulates.throw _
    | _ => exact simulates_fetchFallback _ _ _
  · exact Simulates.pure _

theorem simulates_answerCode (prompt : String) :
    Simulates Audited.client (answerCode config provider (callApi config provider) prompt)
      (ensuring
        (do
          let content ← fetch config provider prompt
          keep provider prompt content
          return content)
        (act provider.release)) := by
  apply Simulates.ensuring
  · apply (simulates_fetchCode prompt).bind
    intro content
    exact (simulates_unaudited _).bind fun _ => simulates_recordSuccess.bind fun _ => Simulates.pure _
  · exact simulates_note _ (simulates_unaudited _)

/-- The method of the client, as what comes before the `try` and the `try`. -/
theorem generateCode_eq (requirement language : String) :
    LLMClient.generateCode rules config provider requirement language =
      (do
        match ← enterCode rules config provider requirement language with
        | some response => return response
        | none =>
          ensuring
            (do
              let content ← fetch config provider (codePrompt requirement language)
              keep provider (codePrompt requirement language) content
              return content)
            (act provider.release)) := by
  rw [LLMClient.generateCode, enterCode, bind_assoc]
  congr 1
  funext restricted
  cases restricted with
  | some restricted => rfl
  | none =>
    simp only [generateAllowed, enter, bind_assoc]
    congr 1
    funext now
    congr 1
    funext s
    congr 1
    funext _
    split_ifs
    · rfl
    · simp only [bind_assoc]
      congr 1
      funext _
      congr 1
      funext response
      cases response with
      | some response => rfl
      | none =>
        simp only [askModels, bind_assoc]
        congr 1
        funext acquired
        split_ifs
        · rfl
        · rfl

/-- **Without the account** `generate_code` is the method of the client. -/
theorem simulates_generateCode (requirement language : String) :
    Simulates Audited.client (generateCode rules config provider (callApi config provider) requirement language)
      (LLMClient.generateCode rules config provider requirement language) := by
  rw [generateCode_eq]
  apply (simulates_unaudited _).bind
  intro cached
  cases cached with
  | some response => exact Simulates.pure _
  | none => exact simulates_note _ (simulates_answerCode _)

/-! ## The account -/

/-- A call of the API returns, or raises a listed exception. -/
def Expected (call : EStateM ApiError ω String) (outside : ω) : Prop :=
  match call.run outside with
  | .ok _ _ => True
  | .error e _ => e.Listed

/-- The call of the first model, and that of the second one if there is one, raise no exception but those that are
listed. -/
def Foreseen (api : String → String → ℚ → EStateM ApiError ω String) (client : Client ω) (prompt : String)
    (temperature : ℚ) : Prop :=
  match (api prompt client.model temperature).run client.outside with
  | .ok _ _ => True
  | .error e o => e.Listed ∧ Expected (api prompt client.fallbackModel temperature) o

/-- The account of a call that has acquired the semaphore: one release, and one success or one failure, a success just
when it has returned. -/
def Settled (returned : Prop) (records : List Record) : Prop :=
  .acquired ∈ records → records.count .acquired = 1 ∧ records.count .released = 1 ∧
    records.count .success + records.count .failure = 1 ∧ (records.count .success = 1 ↔ returned)

/-- What a call has to do to its account, whichever way it ends. -/
def Accounted (call : AuditedM ω String) (client : Client ω) : Prop :=
  wp call (fun _ s' => Settled True s'.records) (fun _ s' => Settled False s'.records) ⟨client, []⟩

variable {api : String → String → ℚ → EStateM ApiError ω String}

/-- What a call leaves in the account: a success, a failure, or nothing when it was not foreseen. -/
def Leaves (foreseen : Prop) (before : List Record) (success failure nothing : List Record) (call : AuditedM ω α)
    (s : Audited ω) : Prop :=
  wp call (fun _ s' => foreseen ∧ s'.records = before ++ success)
    (fun _ s' => foreseen ∧ s'.records = before ++ failure ∨ ¬ foreseen ∧ s'.records = before ++ nothing) s

theorem leaves_fetchFallback (prompt fallbackModel : String) (primary : ApiError) (s : Audited ω) :
    Leaves (Expected (api prompt fallbackModel (2 / 10)) s.client.outside) s.records [] [.failure] []
      (fetchFallback config provider api prompt fallbackModel primary) s := by
  rw [Leaves, fetchFallback, wp_bind, wp_unaudited, wp_request, Expected]
  cases (api prompt fallbackModel (2 / 10)).run s.client.outside with
  | ok content o => exact ⟨trivial, (List.append_nil _).symm⟩
  | error e o =>
    cases e with
    | foreign text => exact Or.inr ⟨id, (List.append_nil _).symm⟩
    | _ => exact Or.inl ⟨trivial, rfl⟩

theorem leaves_fetchCode (prompt : String) (s : Audited ω) :
    Leaves (Foreseen api s.client prompt (2 / 10)) s.records [] [.failure] [] (fetchCode config provider api prompt)
      s := by
  rw [Leaves, fetchCode, wp_bind, wp_unaudited, wp_get, wp_bind, wp_unaudited, wp_request, Foreseen]
  cases (api prompt s.client.model (2 / 10)).run s.client.outside with
  | ok content o => exact ⟨trivial, (List.append_nil _).symm⟩
  | error e o =>
    have hlisted (primary : ApiError) :
        Leaves (True ∧ Expected (api prompt s.client.fallbackModel (2 / 10)) o) s.records [] [.failure] []
          (fetchFallback config provider api prompt s.client.fallbackModel primary)
          { s with client := { s.client with outside := o } } := by
      rw [true_and]
      exact leaves_fetchFallback _ _ _ _
    cases e with
    | foreign text => exact Or.inr ⟨fun h => h.1, (List.append_nil _).symm⟩
    | _ => exact hlisted _

/-- Every way out of the `try` of `generate_code`. -/
theorem leaves_answerCode (prompt : String) (s : Audited ω) :
    Leaves (Foreseen api s.client prompt (2 / 10)) s.records [.success, .released] [.failure, .released] [.released]
      (answerCode config provider api prompt) s := by
  rw [Leaves, answerCode, wp_ensuring, wp_bind]
  refine wp_mono (leaves_fetchCode prompt s) (fun content s₁ hs₁ => ?_) fun e s₁ hs₁ => ?_
  · show _ ∧ s₁.records ++ [.success] ++ [.released] = _
    rw [hs₁.2, List.append_nil, List.append_assoc]
    exact ⟨hs₁.1, rfl⟩
  · show _ ∧ s₁.records ++ [.released] = _ ∨ _ ∧ s₁.records ++ [.released] = _
    rcases hs₁ with ⟨hforeseen, hrecords⟩ | ⟨hforeseen, hrecords⟩
    · rw [hrecords, List.append_assoc]
      exact Or.inl ⟨hforeseen, rfl⟩
    · rw [hrecords, List.append_nil]
      exact Or.inr ⟨hforeseen, rfl⟩

theorem wp_fetchAnalysis (prompt : String) (s : Audited ω) :
    wp (fetchAnalysis api prompt)
      (fun outcome s' => s'.records = s.records ∧
        (Foreseen api s.client prompt (1 / 10) ↔ ∀ e, outcome = .error e → e.Listed)) (fun _ _ => False) s := by
  rw [fetchAnalysis, wp_bind, wp_unaudited, wp_get, wp_bind, wp_unaudited, wp_request, Foreseen]
  cases (api prompt s.client.model (1 / 10)).run s.client.outside with
  | ok content o => exact ⟨rfl, iff_of_true trivial nofun⟩
  | error e o =>
    have hlisted : wp (unaudited (request (api prompt s.client.fallbackModel (1 / 10))))
        (fun outcome s' => s'.records = s.records ∧
          (True ∧ Expected (api prompt s.client.fallbackModel (1 / 10)) o ↔ ∀ e, outcome = .error e → e.Listed))
        (fun _ _ => False) { s with client := { s.client with outside := o } } := by
      rw [wp_unaudited, wp_request, Expected]
      dsimp only
      cases (api prompt s.client.fallbackModel (1 / 10)).run o with
      | ok content o' => exact ⟨rfl, iff_of_true ⟨trivial, trivial⟩ nofun⟩
      | error e' o' => exact ⟨rfl, by simp⟩
    cases e with
    | foreign text => exact ⟨rfl, iff_of_false (fun h => h.1) fun h => h _ rfl⟩
    | _ => exact hlisted

/-- Every way out of the `try` of `analyze_security`. -/
theorem leaves_analyze (prompt : String) (s : Audited ω) :
    Leaves (Foreseen api s.client prompt (1 / 10)) s.records [.success, .released] [.failure, .released] [.released]
      (analyze config provider api prompt) s := by
  rw [Leaves, analyze, wp_ensuring, wp_bind]
  refine wp_mono (wp_fetchAnalysis prompt s) (fun outcome s₁ hs₁ => ?_) fun _ _ hfalse => hfalse.elim
  obtain ⟨hrecords, hforeseen⟩ := hs₁
  rcases outcome with e | content
  · have hfailure (hlisted : e.Listed) : Foreseen api s.client prompt (1 / 10) ∧
        s₁.records ++ [.failure] ++ [.released] = s.records ++ [.failure, .released] := by
      rw [hrecords, List.append_assoc]
      refine ⟨hforeseen.mpr fun e' he' => ?_, rfl⟩
      obtain rfl := Except.error.inj he'
      exact hlisted
    cases e with
    | foreign text =>
      refine Or.inr ⟨fun h => hforeseen.mp h _ rfl, ?_⟩
      show s₁.records ++ [.released] = _
      rw [hrecords]
    | _ => exact Or.inl (hfailure trivial)
  · show _ ∧ s₁.records ++ [.success] ++ [.released] = _
    rw [hrecords, List.append_assoc]
    exact ⟨hforeseen.mpr nofun, rfl⟩

/-- A call that has acquired the semaphore settles its account just when its exceptions are foreseen. -/
theorem settled_iff {foreseen : Prop} {call : AuditedM ω String} {s : Audited ω} (hrecords : s.records = [.acquired])
    (h : Leaves foreseen s.records [.success, .released] [.failure, .released] [.released] call s) :
    wp call (fun _ s' => Settled True s'.records) (fun _ s' => Settled False s'.records) s ↔ foreseen := by
  rw [Leaves, hrecords] at h
  unfold wp at h ⊢
  cases hrun : call.run s with
  | ok a s' =>
    rw [hrun] at h
    dsimp only at h ⊢
    rw [h.2]
    exact iff_of_true (by simp [Settled]) h.1
  | error e s' =>
    rw [hrun] at h
    dsimp only at h ⊢
    rcases h with ⟨hforeseen, h⟩ | ⟨hforeseen, h⟩
    · rw [h]
      exact iff_of_true (by simp [Settled]) hforeseen
    · rw [h]
      exact iff_of_false (by simp [Settled]) hforeseen

/-- The calls of the API behind `enter`, if it comes to them, raise no exception but those that are listed. -/
def ForeseenBehind (api : String → String → ℚ → EStateM ApiError ω String) (enter : ClientM ω (Option String))
    (prompt : String) (temperature : ℚ) (client : Client ω) : Prop :=
  wp enter (fun cached c => cached = none → Foreseen api c prompt temperature) (fun _ _ => True) client

theorem accounted_behind {enter : ClientM ω (Option String)} {attempt : AuditedM ω String} {prompt : String}
    {temperature : ℚ}
    (h : ∀ s, Leaves (Foreseen api s.client prompt temperature) s.records [.success, .released] [.failure, .released]
      [.released] attempt s) (client : Client ω) :
    Accounted (do
      match ← unaudited enter with
      | some response => return response
      | none => do
        note .acquired
        attempt) client ↔ ForeseenBehind api enter prompt temperature client := by
  have hnone (returned : Prop) : Settled returned [] := fun hmem => absurd hmem List.not_mem_nil
  rw [Accounted, wp_bind, wp_unaudited, ForeseenBehind]
  refine wp_congr (fun cached c => ?_) fun e c => iff_of_true (hnone False) trivial
  cases cached with
  | some response => exact iff_of_true (hnone True) nofun
  | none =>
    rw [wp_bind, wp_note, settled_iff rfl (h _)]
    exact (imp_iff_right rfl).symm

theorem accounted_generateCode (requirement language : String) (client : Client ω) :
    Accounted (generateCode rules config provider api requirement language) client ↔
      ForeseenBehind api (enterCode rules config provider requirement language) (codePrompt requirement language)
        (2 / 10) client :=
  accounted_behind (leaves_answerCode _) client

theorem accounted_analyzeSecurity (code : String) (client : Client ω) :
    Accounted (analyzeSecurity config provider api code) client ↔
      ForeseenBehind api (enterAnalysis config provider code) (analysisPrompt code) (1 / 10) client :=
  accounted_behind (leaves_analyze _) client

/-- **The account of both methods** is settled just when the calls of the API raise no exception but the listed ones. -/
theorem accounted_iff (rules : Rules) (config : ResourceConfig) (provider : Provider ω)
    (api : String → String → ℚ → EStateM ApiError ω String) (requirement language code : String) (client : Client ω) :
    (Accounted (generateCode rules config provider api requirement language) client ↔
      ForeseenBehind api (enterCode rules config provider requirement language) (codePrompt requirement language)
        (2 / 10) client) ∧
    (Accounted (analyzeSecurity config provider api code) client ↔
      ForeseenBehind api (enterAnalysis config provider code) (analysisPrompt code) (1 / 10) client) :=
  ⟨accounted_generateCode requirement language client, accounted_analyzeSecurity code client⟩

/-- The answer of the API has no choices: `response.choices[0]` raises an `IndexError`. -/
def noChoices : Provider Unit :=
  { exampleProvider with create := fun _ _ _ _ => throw (.foreign "list index out of range") }

/-- Nothing is recorded of such a call. -/
theorem noChoices_unrecorded : ¬ ∀ (ω : Type) (config : ResourceConfig) (provider : Provider ω) (code : String)
    (client : Client ω), Accounted (analyzeSecurity config provider (callApi config provider) code) client := by
  intro h
  let client : Client Unit := ⟨(), ⟨[]⟩, {}, [], ⟨Dict.empty⟩, "qwen/qwen3.8-27b", "openai/gpt-oss-20b"⟩
  have hforeseen := (accounted_analyzeSecurity "eval(input())" client).mp (h Unit {} noChoices _ _)
  have hacquired : (match (enterAnalysis {} noChoices "eval(input())").run client with
    | .ok cached _ => decide (cached = none)
    | .error _ _ => false) = true := by decide +kernel
  unfold ForeseenBehind wp at hforeseen
  split at hacquired
  · next cached c hrun =>
    rw [hrun] at hforeseen
    exact (hforeseen (of_decide_eq_true hacquired)).1
  · cases hacquired

end

end Audited

end Atlas.Agent
