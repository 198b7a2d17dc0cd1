import Atlas.Agent.LlmClient

/-!
# The cache of the client, over whole runs

`get` and `put` in any order, each behind the lock; `hash` is the start of the hash of a key text, `render` the text of
a temperature.

* `Query`, `keyText`, `makeKey` : what is asked, and the key that stands for it;
* `CacheCall`, `run` : the calls of a new cache; `latest` : the latest `put` with a property;
* `Faithful` : every entry is the latest `put` under its key; `faithful_perform`, `run_faithful`;
* `Sound` : what every `get` of a run may answer; `sound_of_unmixed`.
-/

namespace Atlas.Agent

structure Query (τ : Type) where
  prompt : String
  model : String
  temperature : τ
  deriving DecidableEq

inductive CacheCall (τ : Type)
  | get (query : Query τ) (now : ℚ)
  | put (query : Query τ) (response : String) (now : ℚ)

/-- What a `put` has stored. -/
structure Stored (τ : Type) where
  query : Query τ
  response : String
  time : ℚ

def CacheCall.stored {τ : Type} : CacheCall τ → Option (Stored τ)
  | .get _ _ => none
  | .put query response now => some ⟨query, response, now⟩

namespace LLMCache
variable {τ : Type}

/-- `f"{model}:{temperature}:{prompt}"` -/
def keyText (render : τ → String) (query : Query τ) : String :=
  query.model ++ ":" ++ render query.temperature ++ ":" ++ query.prompt

section
variable (hash : String → String) (render : τ → String)

/-- `_make_key` -/
def makeKey (query : Query τ) : String := hash (keyText render query)

def perform (cache : LLMCache) : CacheCall τ → LLMCache
  | .get query now => (cache.get (makeKey hash render query) now).2
  | .put query response now => cache.put (makeKey hash render query) query.model response now

/-- A run of a new cache. -/
def run (calls : List (CacheCall τ)) : LLMCache := calls.foldl (perform hash render) ⟨Dict.empty⟩

def answer (calls : List (CacheCall τ)) (query : Query τ) (now : ℚ) : Option String :=
  ((run hash render calls).get (makeKey hash render query) now).1

end

/-- The latest `put` of a query with the property. -/
def latest (p : Query τ → Prop) [DecidablePred p] (calls : List (CacheCall τ)) : Option (Stored τ) :=
  (calls.reverse.filterMap CacheCall.stored).find? fun stored => p stored.query

/-- Every answer of the run is the response of the latest `put` under the same query, no older than the time to live. -/
def Sound [DecidableEq τ] (hash : String → String) (render : τ → String) (calls : List (CacheCall τ)) : Prop :=
  ∀ front query now back, calls = front ++ .get query now :: back →
    ∀ response, answer hash render front query now = some response →
      ∃ stored, latest (· = query) front = some stored ∧ stored.response = response ∧ now - stored.time ≤ ttlSeconds

/-- Of the queries with the key text of a `get`, it is the one that was put last, if any was. -/
def Unmixed (render : τ → String) (calls : List (CacheCall τ)) : Prop :=
  ∀ front query now back, calls = front ++ .get query now :: back →
    ∀ stored, latest (fun other => keyText render other = keyText render query) front = some stored →
      stored.query = query

/-- The queries of the calls. -/
def queries (calls : List (CacheCall τ)) : Set (Query τ) :=
  {query | (∃ now, .get query now ∈ calls) ∨ ∃ response now, .put query response now ∈ calls}

/-! ## Entries and what has been put -/

theorem latest_concat_get (p : Query τ → Prop) [DecidablePred p] (calls : List (CacheCall τ)) (query : Query τ)
    (now : ℚ) : latest p (calls ++ [.get query now]) = latest p calls := by
  rw [latest, latest, List.reverse_concat, List.filterMap_cons_none rfl]

theorem latest_concat_put (p : Query τ → Prop) [DecidablePred p] (calls : List (CacheCall τ)) (query : Query τ)
    (response : String) (now : ℚ) : latest p (calls ++ [.put query response now]) =
      if p query then some ⟨query, response, now⟩ else latest p calls := by
  have hstored : CacheCall.stored (.put query response now) = some ⟨query, response, now⟩ := rfl
  rw [latest, latest, List.reverse_concat, List.filterMap_cons_some hstored, List.find?_cons]
  by_cases h : p query
  · simp [h]
  · simp [h]

theorem queries_subset (front back : List (CacheCall τ)) : queries front ⊆ queries (front ++ back) := by
  rintro query (⟨now, h⟩ | ⟨response, now, h⟩)
  · exact Or.inl ⟨now, List.mem_append_left _ h⟩
  · exact Or.inr ⟨response, now, List.mem_append_left _ h⟩

theorem latest_congr {p q : Query τ → Prop} [DecidablePred p] [DecidablePred q] {calls : List (CacheCall τ)}
    (h : ∀ query ∈ queries calls, p query ↔ q query) : latest p calls = latest q calls := by
  induction calls using List.reverseRecOn with
  | nil => rfl
  | append_singleton calls call ih =>
    replace ih := ih fun query hquery => h query (queries_subset calls [call] hquery)
    cases call with
    | get query now => rw [latest_concat_get, latest_concat_get, ih]
    | put query response now =>
      have hquery : p query ↔ q query := h query (Or.inr ⟨response, now, by simp⟩)
      rw [latest_concat_put, latest_concat_put, ih, if_congr hquery rfl rfl]

/-- What is the latest of many is the latest of fewer that it is one of. -/
theorem latest_of_imp {p q : Query τ → Prop} [DecidablePred p] [DecidablePred q] {calls : List (CacheCall τ)}
    {stored : Stored τ} (hp : latest p calls = some stored) (hq : q stored.query) (himp : ∀ query, q query → p query) :
    latest q calls = some stored := by
  induction calls using List.reverseRecOn with
  | nil => nomatch hp
  | append_singleton calls call ih =>
    cases call with
    | get query now =>
      rw [latest_concat_get] at hp ⊢
      exact ih hp
    | put query response now =>
      rw [latest_concat_put] at hp ⊢
      by_cases hquery : p query
      · rw [if_pos hquery] at hp
        obtain rfl := Option.some.inj hp
        rw [if_pos hq]
      · rw [if_neg hquery] at hp
        rw [if_neg fun h => hquery (himp query h)]
        exact ih hp

/-- Every entry is what the latest `put` under its key has stored. -/
def Faithful (hash : String → String) (render : τ → String) (cache : LLMCache) (calls : List (CacheCall τ)) : Prop :=
  ∀ key entry, cache.entries.get? key = some entry → ∃ stored,
    latest (fun query => makeKey hash render query = key) calls = some stored ∧ entry.response = stored.response ∧
      entry.ts = stored.time

section
variable {hash : String → String} {render : τ → String} {cache : LLMCache} {calls : List (CacheCall τ)}

theorem faithful_get (h : Faithful hash render cache calls) (query : Query τ) (now : ℚ) :
    Faithful hash render (cache.get (makeKey hash render query) now).2 (calls ++ [.get query now]) := by
  intro key entry hentry
  rw [latest_concat_get]
  unfold LLMCache.get at hentry
  split at hentry
  · exact h key entry hentry
  · rename_i found hfound
    split_ifs at hentry with hexpired
    · rw [Dict.get?_erase] at hentry
      split_ifs at hentry
      exact h key entry hentry
    · -- only the hits of the entry are another number
      rw [Dict.get?_set] at hentry
      split_ifs at hentry with hkey
      · obtain ⟨stored, hstored, hresponse, hts⟩ := h key found (hkey ▸ hfound)
        rw [← Option.some.inj hentry]
        exact ⟨stored, hstored, hresponse, hts⟩
      · exact h key entry hentry

theorem faithful_put (h : Faithful hash render cache calls) (query : Query τ) (response : String) (now : ℚ) :
    Faithful hash render (cache.put (makeKey hash render query) query.model response now)
      (calls ++ [.put query response now]) := by
  intro key entry hentry
  rw [latest_concat_put]
  unfold LLMCache.put at hentry
  dsimp only at hentry
  rw [Dict.get?_set] at hentry
  by_cases hkey : key = makeKey hash render query
  · rw [if_pos hkey] at hentry
    rw [if_pos hkey.symm, ← Option.some.inj hentry]
    exact ⟨_, rfl, rfl, rfl⟩
  · rw [if_neg hkey] at hentry
    rw [if_neg fun heq => hkey heq.symm]
    -- what has made room is gone, the others are as they were
    split_ifs at hentry
    · split at hentry
      · exact h key entry hentry
      · rw [Dict.get?_erase] at hentry
        split_ifs at hentry
        exact h key entry hentry
    · exact h key entry hentry

theorem run_faithful (hash : String → String) (render : τ → String) (calls : List (CacheCall τ)) :
    Faithful hash render (run hash render calls) calls := by
  induction calls using List.reverseRecOn with
  | nil => exact fun key entry hentry => nomatch hentry
  | append_singleton calls call ih =>
    rw [run, List.foldl_concat]
    cases call with
    | get query now => exact faithful_get ih query now
    | put query response now => exact faithful_put ih query response now

theorem get_eq_some {key : String} {now : ℚ} {response : String} (h : (cache.get key now).1 = some response) :
    ∃ entry, cache.entries.get? key = some entry ∧ entry.response = response ∧ now - entry.ts ≤ ttlSeconds := by
  unfold LLMCache.get at h
  split at h
  · cases h
  · rename_i entry hentry
    split_ifs at h with hexpired
    exact ⟨entry, hentry, Option.some.inj h, not_lt.mp hexpired⟩

/-- **The cache is sound** in a run whose queries do not share a key text: where a `get` finds that the latest `put`
under its text, if there is one, was of the same query. -/
theorem sound_of_unmixed [DecidableEq τ] (hash : String → String) (render : τ → String) (calls : List (CacheCall τ))
    (hhash : Set.InjOn hash (keyText render '' queries calls)) (h : Unmixed render calls) :
    Sound hash render calls := by
  intro front query now back hcalls response hanswer
  obtain ⟨entry, hentry, hresponse, hage⟩ := get_eq_some hanswer
  obtain ⟨stored, hstored, hsame, hts⟩ := run_faithful hash render front _ entry hentry
  have hquery : query ∈ queries calls := Or.inl ⟨now, by rw [hcalls]; simp⟩
  have htexts (other : Query τ) (hother : other ∈ queries front) :
      makeKey hash render other = makeKey hash render query ↔ keyText render other = keyText render query := by
    have hin : other ∈ queries calls := by
      rw [hcalls]
      exact queries_subset front _ hother
    exact hhash.eq_iff (Set.mem_image_of_mem _ hin) (Set.mem_image_of_mem _ hquery)
  rw [latest_congr htexts] at hstored
  have heq : stored.query = query := h front query now back hcalls stored hstored
  refine ⟨stored, latest_of_imp hstored heq fun other hother => by rw [hother], ?_, ?_⟩
  · rw [← hsame, hresponse]
  · rw [← hts]
    exact hage

end

/-- One query, asked again within the day. -/
theorem sound_again : Sound id (id : String → String)
    [.put ⟨"Write a parser.", "llama-3.3", "0.2"⟩ "def parse(): ..." 0,
      .get ⟨"Write a parser.", "llama-3.3", "0.2"⟩ 60] := by
  apply sound_of_unmixed id id _ (Set.injOn_id _)
  intro front query now back hcalls stored hstored
  rcases front with _ | ⟨first, _ | ⟨second, front⟩⟩
  · nomatch hstored
  · obtain ⟨rfl, hrest⟩ := List.cons.inj hcalls
    obtain ⟨rfl, rfl⟩ := CacheCall.get.inj (List.cons.inj hrest).1
    obtain rfl := Option.some.inj hstored
    rfl
  · -- there are no more than two calls
    exact absurd (congrArg List.length hcalls) (by simp)

/-- A model `a:0.2:b` with the prompt `c`, and a model `a` with the prompt `b:0.2:c`. -/
theorem mixed_answer : ¬ ∀ (τ : Type) (_ : DecidableEq τ) (hash : String → String) (render : τ → String),
    Function.Injective hash → Function.Injective render → ∀ calls : List (CacheCall τ), Sound hash render calls := by
  intro h
  have hsound := h String inferInstance id id Function.injective_id Function.injective_id
    [.put ⟨"c", "a:0.2:b", "0.2"⟩ "for c" 0, .get ⟨"b:0.2:c", "a", "0.2"⟩ 60]
  obtain ⟨stored, hstored, -⟩ := hsound [.put ⟨"c", "a:0.2:b", "0.2"⟩ "for c" 0] ⟨"b:0.2:c", "a", "0.2"⟩ 60 [] rfl
    "for c" (by decide +kernel)
  nomatch hstored

end LLMCache

end Atlas.Agent
