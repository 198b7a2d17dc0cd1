import Atlas.Agent.CacheRuns
import Atlas.Agent.MemoryFile
import Atlas.Lib.PyData
import Atlas.Lib.PyDumps

/-!
# The file of the cache

* `saved` : what `_save` writes; `load` : `_load`, at a time; `load_saved` : a new cache has the entries that are not
  old;
* `Alike` : two caches agree on what is not too old to be served; `alike_get`, `alike_put`, `alike_fresh`;
* `Fit` : what holds of a cache at any time of a run, which the operations keep;
* `Event`, `Process`, `Step`, `Steps` : a run of the cache, with restarts;
* `Close`, `Backed` : a run and the run without its restarts, and the file that a restart reads; `step_close`,
  `run_close`;
* `restarts_unseen` : no later answer tells of the restarts.
-/

namespace Atlas.Agent.LLMCache
open Json PyJson
open Memory (readText universal)

/-! ## Writing and reading -/

def entryData (entry : CacheEntry) : Data :=
  .dict [("response", .text entry.response), ("ts", .num (FloatRepr.repr entry.ts)), ("model", .text entry.model),
    ("hits", .num (Py.intLit entry.hits)), ("len", .num (Py.intLit entry.len))]

/-- `json.dump(self._cache, f)` -/
def saved (cache : LLMCache) : List UInt8 :=
  ((Data.dict (cache.entries.entries.map fun e => (e.1, entryData e.2))).write asciiLit).write .spaced

inductive LoadRaised
  | attributeError
  | overflowError
  | typeError
  | unicodeDecodeError

/-- An integer that no double is next to. -/
def isHuge : PyValue → Bool
  | .int n => (Binary64.round n).isNone
  | _ => false

/-- `now - v.get("ts", 0) < TTL_SECONDS` -/
def isFresh (now : ℚ) (v : PyValue) : Except LoadRaised Bool :=
  match v with
  | .dict items =>
    let ts := (PyJson.get items (pyStr "ts")).getD (.int 0)
    match ts.number? with
    | some x => if isHuge ts then .error .overflowError else .ok (decide (((now - ttlSeconds : ℚ) : WithTop ℚ) < x))
    | none => .error .typeError
  | _ => .error .attributeError

def freshItems (now : ℚ) : List (PyStr × PyValue) → Except LoadRaised (List (PyStr × PyValue))
  | [] => .ok []
  | e :: items => do
    let isKept ← isFresh now e.2
    let kept ← freshItems now items
    return if isKept then e :: kept else kept

/-- The entries of `_cache` behind `_load`; a file that is not JSON is an empty cache. -/
def load (now : ℚ) (file : Option (List UInt8)) : Except LoadRaised (List (PyStr × PyValue)) :=
  match file with
  | none => .ok []
  | some file =>
    match readText file with
    | .error _ => .error .unicodeDecodeError
    | .ok text =>
      match Memory.loads text with
      | .error _ => .ok []
      | .ok (.dict items) => freshItems now (Dict.ofPairs items).entries
      | .ok _ => .error .attributeError

/-- An entry of the live cache, in the terms of what is loaded. -/
def entryLoaded (entry : CacheEntry) : PyValue :=
  .dict [(pyStr "response", .str (pyStr entry.response)), (pyStr "ts", .float (entry.ts : WithTop ℚ)),
    (pyStr "model", .str (pyStr entry.model)), (pyStr "hits", .int entry.hits), (pyStr "len", .int entry.len)]

/-- The cache has the entries that have been loaded. -/
def Holds (cache : LLMCache) (items : List (PyStr × PyValue)) : Prop :=
  items = cache.entries.entries.map fun e => (pyStr e.1, entryLoaded e.2)

/-- The entries that are not old. -/
def fresh (cache : LLMCache) (now : ℚ) : LLMCache where
  entries :=
    ⟨cache.entries.entries.filter fun e => decide (now - e.2.ts < ttlSeconds),
      (cache.entries.nodup.sublist (List.filter_sublist.map Prod.fst))⟩

/-- The times of the entries are doubles. -/
def Timed (cache : LLMCache) : Prop := ∀ e ∈ cache.entries.entries, Binary64.round e.2.ts = some e.2.ts

theorem pyNumber_intLit (n : ℤ) : pyNumber (Py.intLit n) = .int n := by
  rw [pyNumber, if_pos ⟨rfl, rfl⟩]
  exact congrArg PyValue.int (Py.toInt_intLit n)

theorem pyNumber_repr {x : ℚ} (h : Binary64.round x = some x) :
    pyNumber (FloatRepr.repr x) = .float (x : WithTop ℚ) := by
  rw [pyNumber, if_neg (FloatRepr.not_isInt_repr x), pyFloat, FloatRepr.round_repr h]
  rfl

theorem loaded_entryData {entry : CacheEntry} (h : Binary64.round entry.ts = some entry.ts) :
    loaded (entryData entry) = entryLoaded entry := by
  simp only [entryData, loaded_dict, List.map_cons, List.map_nil, loaded_text, loaded_num, pyNumber_repr h,
    pyNumber_intLit]
  rfl

theorem isFresh_entryLoaded (now : ℚ) (entry : CacheEntry) :
    isFresh now (entryLoaded entry) = .ok (decide (now - entry.ts < ttlSeconds)) := by
  have hlt : (((now - ttlSeconds : ℚ) : WithTop ℚ) : WithBot (WithTop ℚ)) < ((entry.ts : ℚ) : WithTop ℚ) ↔
      now - entry.ts < ttlSeconds := by
    rw [WithBot.coe_lt_coe, WithTop.coe_lt_coe, sub_lt_comm]
  exact congrArg Except.ok (decide_eq_decide.mpr hlt)

theorem freshItems_map (now : ℚ) (entries : List (String × CacheEntry)) :
    freshItems now (entries.map fun e => (pyStr e.1, entryLoaded e.2)) =
      .ok ((entries.filter fun e => decide (now - e.2.ts < ttlSeconds)).map fun e => (pyStr e.1, entryLoaded e.2)) := by
  induction entries with
  | nil => rfl
  | cons e entries ih =>
    rw [List.map_cons, freshItems, isFresh_entryLoaded, ih, List.filter_cons]
    by_cases h : now - e.2.ts < ttlSeconds
    · rw [decide_eq_true h, if_pos rfl, List.map_cons]
      rfl
    · rw [decide_eq_false h]
      rfl

/-- **What a new cache has of the file**: the entries that are not old. -/
theorem load_saved {cache : LLMCache} (h : cache.Timed) (now : ℚ) :
    ∃ items, load now (some cache.saved) = .ok items ∧ (cache.fresh now).Holds items := by
  obtain ⟨cs, hcs, hbreak⟩ := exists_text (cache.entries.entries.map fun e => (e.1, entryData e.2))
  have htext : readText cache.saved = .ok cs := by
    have hdecode := Utf8.fromUtf8_bytes (String.ofList cs)
    rw [Utf8.bytes, String.toList_ofList, hcs] at hdecode
    have hreturn : '\r' ∉ cs := fun hmem => hbreak _ hmem (.inr rfl)
    rw [saved, readText, hdecode, Option.elim, String.toList_ofList, Memory.universal_eq_self hreturn]
  have hloads : Memory.loads cs =
      .ok (.dict (cache.entries.entries.map fun e => (pyStr e.1, entryLoaded e.2))) := by
    unfold Memory.loads
    rw [hcs]
    dsimp only
    rw [readValue_write]
    dsimp only
    rw [if_pos (by decide), ofJson_write pyText_asciiLit, loaded_dict, List.map_map, Option.elim]
    congr 2
    apply List.map_congr_left
    exact fun e he => congrArg _ (loaded_entryData (h e he))
  refine ⟨_, ?_, rfl⟩
  unfold load
  dsimp only
  rw [htext]
  dsimp only
  rw [hloads]
  dsimp only
  rw [Dict.entries_ofPairs, freshItems_map]
  · rfl
  · have hnodup := cache.entries.nodup.map (fun _ _ => pyStr_inj.mp)
    rwa [List.map_map] at hnodup ⊢

/-! ## What is still served -/

/-- The response under a key and its time, while they are not too old at the time `t`. -/
def live (t : ℚ) (cache : LLMCache) (key : String) : Option (String × ℚ) :=
  ((cache.entries.get? key).filter fun entry => decide (t - entry.ts ≤ ttlSeconds)).map fun entry =>
    (entry.response, entry.ts)

/-- The caches serve the same at the time `t`. -/
def Alike (t : ℚ) (cache other : LLMCache) : Prop := ∀ key, live t cache key = live t other key

/-- What holds of a cache before the time `n`: it is not overfull, and its entries have each a time of their own. -/
structure Fit (n : ℚ) (cache : LLMCache) : Prop where
  small : cache.entries.entries.length ≤ maxEntries
  past : ∀ key entry, cache.entries.get? key = some entry → entry.ts < n
  apart : ∀ key entry key' entry', cache.entries.get? key = some entry → cache.entries.get? key' = some entry' →
    entry.ts = entry'.ts → key = key'
  timed : cache.Timed

section
variable {t now n : ℚ} {cache other : LLMCache} {key key' : String}

theorem get?_eq_some_iff {entry : CacheEntry} :
    cache.entries.get? key = some entry ↔ (key, entry) ∈ cache.entries.entries :=
  Dict.lookup_eq_some_iff cache.entries.nodup

theorem live_eq_some {response : String} {ts : ℚ} : live t cache key = some (response, ts) ↔
    ∃ entry, cache.entries.get? key = some entry ∧ t - entry.ts ≤ ttlSeconds ∧ entry.response = response ∧
      entry.ts = ts := by
  unfold live
  simp only [Option.map_eq_some_iff, Option.filter_eq_some_iff, decide_eq_true_eq, Prod.mk.injEq, and_assoc]

theorem get_fst : (cache.get key now).1 = (live now cache key).map Prod.fst := by
  unfold LLMCache.get live
  cases hentry : cache.entries.get? key with
  | none => rfl
  | some entry =>
    dsimp only
    by_cases hold : now - entry.ts > ttlSeconds
    · rw [if_pos hold, Option.filter_some, decide_eq_false (not_le.mpr hold), if_neg nofun]
      rfl
    · rw [if_neg hold, Option.filter_some, decide_eq_true (not_lt.mp hold), if_pos rfl]
      rfl

/-- An expired entry is not served, and the hits of the others are not. -/
theorem live_get (h : now ≤ t) : live t (cache.get key now).2 key' = live t cache key' := by
  unfold LLMCache.get
  cases hentry : cache.entries.get? key with
  | none => rfl
  | some entry =>
    dsimp only
    unfold live
    by_cases hold : now - entry.ts > ttlSeconds
    · rw [if_pos hold, Dict.get?_erase]
      by_cases hkey : key' = key
      · rw [if_pos hkey, hkey, hentry, Option.filter_some, if_neg]
        · rfl
        · simp only [decide_eq_true_eq]
          linarith
      · rw [if_neg hkey]
    · rw [if_neg hold, Dict.get?_set]
      by_cases hkey : key' = key
      · rw [if_pos hkey, hkey, hentry, Option.filter_some, Option.filter_some]
        split_ifs <;> rfl
      · rw [if_neg hkey]

theorem live_fresh (h : now < t) : live t (cache.fresh now) key = live t cache key := by
  apply Option.ext
  rintro ⟨response, ts⟩
  rw [live_eq_some, live_eq_some]
  have hmem (entry : CacheEntry) : (cache.fresh now).entries.get? key = some entry ↔
      cache.entries.get? key = some entry ∧ now - entry.ts < ttlSeconds := by
    rw [get?_eq_some_iff, get?_eq_some_iff]
    simp [fresh]
  refine exists_congr fun entry => ?_
  rw [hmem]
  constructor
  · rintro ⟨⟨hentry, -⟩, hrest⟩
    exact ⟨hentry, hrest⟩
  · rintro ⟨hentry, hage, hrest⟩
    exact ⟨⟨hentry, by linarith⟩, hage, hrest⟩

/-! ### What makes room -/

/-- The cache without the oldest of its entries, where there has to be room for the key. -/
def roomFor (cache : LLMCache) (key : String) : LLMCache :=
  if maxEntries ≤ cache.entries.entries.length ∧ cache.entries.get? key = none then
    match oldestKey cache.entries.entries with
    | none => cache
    | some oldest => ⟨cache.entries.erase oldest⟩
  else cache

theorem put_eq (model response : String) : cache.put key model response now =
    ⟨(cache.roomFor key).entries.set key ⟨response, now, model, 0, response.length⟩⟩ := by
  unfold put roomFor
  split_ifs
  · cases oldestKey cache.entries.entries <;> rfl
  · rfl

theorem oldestKey_eq_some {entries : List (String × CacheEntry)} {oldest : String}
    (h : oldestKey entries = some oldest) :
    ∃ entry, (oldest, entry) ∈ entries ∧ ∀ e ∈ entries, entry.ts ≤ e.2.ts := by
  obtain ⟨⟨oldest, entry⟩, hmin, rfl⟩ := Option.map_eq_some_iff.mp h
  refine ⟨entry, List.argmin_mem hmin, fun e he => ?_⟩
  exact List.le_of_mem_argmin (f := fun e : String × CacheEntry => e.2.ts) he hmin

theorem oldestKey_ne_none {entries : List (String × CacheEntry)} (h : entries ≠ []) : oldestKey entries ≠ none := by
  unfold oldestKey
  rw [Ne, Option.map_eq_none_iff, List.argmin_eq_none]
  exact h

/-- Where a full cache is part of another one that is not overfull, they have the same keys. -/
theorem keys_eq (hfull : maxEntries ≤ cache.entries.entries.length)
    (hsmall : other.entries.entries.length ≤ maxEntries)
    (hsub : ∀ k, cache.entries.get? k ≠ none → other.entries.get? k ≠ none) :
    maxEntries ≤ other.entries.entries.length ∧ ∀ k, other.entries.get? k ≠ none → cache.entries.get? k ≠ none := by
  have hmem (d : Dict String CacheEntry) (k : String) : d.get? k ≠ none ↔ k ∈ (d.entries.map Prod.fst).toFinset := by
    rw [List.mem_toFinset, Option.ne_none_iff_exists']
    constructor
    · rintro ⟨entry, hentry⟩
      exact List.mem_map_of_mem (f := Prod.fst) (Dict.mem_of_lookup hentry)
    · intro hk
      obtain ⟨e, he, rfl⟩ := List.mem_map.mp hk
      exact ⟨e.2, Dict.get?_of_mem he⟩
  have hlen (d : Dict String CacheEntry) : (d.entries.map Prod.fst).toFinset.card = d.entries.length := by
    rw [List.toFinset_card_of_nodup d.nodup, List.length_map]
  have hsubset : (cache.entries.entries.map Prod.fst).toFinset ⊆ (other.entries.entries.map Prod.fst).toFinset := by
    intro k hk
    exact (hmem _ _).mp (hsub k ((hmem _ _).mpr hk))
  have hcard := Finset.card_le_card hsubset
  rw [hlen, hlen] at hcard
  refine ⟨hfull.trans hcard, fun k hk => ?_⟩
  have heq := Finset.eq_of_subset_of_card_le hsubset (by rw [hlen, hlen]; exact hsmall.trans hfull)
  rwa [hmem, heq, ← hmem]

/-- The key makes room, and is still served at the time `now`. -/
def Evicted (now : ℚ) (cache : LLMCache) (key oldest : String) : Prop :=
  maxEntries ≤ cache.entries.entries.length ∧ cache.entries.get? key = none ∧
    oldestKey cache.entries.entries = some oldest ∧ live now cache oldest ≠ none

/-- Caches that serve the same make room with the same key. -/
theorem evicted_of_alike (h : Alike now cache other) (hsmall : other.entries.entries.length ≤ maxEntries)
    (hapart : ∀ key entry key' entry', other.entries.get? key = some entry → other.entries.get? key' = some entry' →
      entry.ts = entry'.ts → key = key') {oldest : String} (hevicted : Evicted now cache key oldest) :
    Evicted now other key oldest := by
  obtain ⟨hfull, hnew, holdest, hlive⟩ := hevicted
  obtain ⟨entry, hentry, hmin⟩ := oldestKey_eq_some holdest
  have hage : now - entry.ts ≤ ttlSeconds := by
    obtain ⟨⟨response, ts⟩, hsome⟩ := Option.ne_none_iff_exists'.mp hlive
    obtain ⟨entry', hentry', hage, -, -⟩ := live_eq_some.mp hsome
    obtain rfl := Option.some.inj ((get?_eq_some_iff.mpr hentry).symm.trans hentry')
    exact hage
  -- the oldest is served, and so all are
  have hothers (k : String) (e : CacheEntry) (he : cache.entries.get? k = some e) :
      ∃ e', other.entries.get? k = some e' ∧ e'.ts = e.ts := by
    have hle := hmin (k, e) (get?_eq_some_iff.mp he)
    have hserved : live now cache k = some (e.response, e.ts) :=
      live_eq_some.mpr ⟨e, he, by dsimp only at hle; linarith, rfl, rfl⟩
    rw [h k] at hserved
    obtain ⟨e', he', -, -, hts⟩ := live_eq_some.mp hserved
    exact ⟨e', he', hts⟩
  have hsub (k : String) (hk : cache.entries.get? k ≠ none) : other.entries.get? k ≠ none := by
    obtain ⟨e, he⟩ := Option.ne_none_iff_exists'.mp hk
    obtain ⟨e', he', -⟩ := hothers k e he
    rw [he']
    exact nofun
  obtain ⟨hfull', hkeys⟩ := keys_eq hfull hsmall hsub
  have hnew' : other.entries.get? key = none := by
    by_contra hne
    exact hkeys key hne hnew
  refine ⟨hfull', hnew', ?_, by rwa [← h oldest]⟩
  have hne : other.entries.entries ≠ [] := by
    intro hnil
    rw [hnil] at hfull'
    exact absurd hfull' (by decide)
  obtain ⟨oldest', holdest'⟩ := Option.ne_none_iff_exists'.mp (oldestKey_ne_none hne)
  obtain ⟨entry', hentry', hmin'⟩ := oldestKey_eq_some holdest'
  have hfound' := get?_eq_some_iff.mpr hentry'
  -- both are the oldest of the same times
  obtain ⟨e, he⟩ := Option.ne_none_iff_exists'.mp (hkeys oldest' (by rw [hfound']; exact nofun))
  obtain ⟨e', he', hts⟩ := hothers oldest' e he
  obtain rfl := Option.some.inj (hfound'.symm.trans he')
  obtain ⟨e'', he'', hts''⟩ := hothers oldest entry (get?_eq_some_iff.mpr hentry)
  have hle := hmin (oldest', e) (get?_eq_some_iff.mp he)
  have hle' := hmin' (oldest, e'') (get?_eq_some_iff.mp he'')
  dsimp only at hle hle'
  rw [holdest', hapart oldest' entry' oldest e'' hfound' he'' (le_antisymm hle' (by rw [hts'', hts]; exact hle))]

theorem live_eq_none_of_le (h : now ≤ t) (hnone : live now cache key = none) : live t cache key = none := by
  by_contra hne
  obtain ⟨⟨response, ts⟩, hsome⟩ := Option.ne_none_iff_exists'.mp hne
  obtain ⟨entry, hentry, hage, hresponse, hts⟩ := live_eq_some.mp hsome
  have hlive : live now cache key = some (response, ts) :=
    live_eq_some.mpr ⟨entry, hentry, by linarith, hresponse, hts⟩
  rw [hnone] at hlive
  exact absurd hlive (Option.some_ne_none _).symm

open Classical in
theorem live_roomFor (h : now ≤ t) : live t (cache.roomFor key) key' =
    if Evicted now cache key key' then none else live t cache key' := by
  unfold roomFor
  by_cases hfull : maxEntries ≤ cache.entries.entries.length ∧ cache.entries.get? key = none
  · rw [if_pos hfull]
    cases holdest : oldestKey cache.entries.entries with
    | none =>
      rw [if_neg]
      rintro ⟨-, -, hsome, -⟩
      exact absurd (holdest.symm.trans hsome) nofun
    | some oldest =>
      dsimp only
      by_cases hkey : key' = oldest
      · have hgone : live t ⟨cache.entries.erase oldest⟩ key' = none := by
          rw [live, Dict.get?_erase, if_pos hkey]
          rfl
        rw [hgone]
        split_ifs with hevicted
        · rfl
        · -- an oldest entry that is not evicted has been too old already
          have hnone : live now cache key' = none := by
            by_contra hne
            exact hevicted ⟨hfull.1, hfull.2, by rw [holdest, hkey], hne⟩
          exact (live_eq_none_of_le h hnone).symm
      · rw [live, Dict.get?_erase, if_neg hkey, if_neg]
        · rfl
        · rintro ⟨-, -, hsome, -⟩
          exact hkey (Option.some.inj (hsome.symm.trans holdest))
  · rw [if_neg hfull, if_neg fun hevicted => hfull ⟨hevicted.1, hevicted.2.1⟩]

theorem length_put (h : cache.entries.entries.length ≤ maxEntries) (key model response : String) (now : ℚ) :
    (cache.put key model response now).entries.entries.length ≤ maxEntries := by
  rw [put_eq]
  by_cases hfull : maxEntries ≤ cache.entries.entries.length ∧ cache.entries.get? key = none
  · have hne : cache.entries.entries ≠ [] := by
      intro hnil
      rw [hnil] at hfull
      exact absurd hfull.1 (by decide)
    obtain ⟨oldest, holdest⟩ := Option.ne_none_iff_exists'.mp (oldestKey_ne_none hne)
    obtain ⟨entry, hentry, -⟩ := oldestKey_eq_some holdest
    have hless : (cache.entries.erase oldest).entries.length < cache.entries.entries.length :=
      List.length_filter_lt_length_iff_exists.mpr ⟨_, hentry, by simp⟩
    rw [roomFor, if_pos hfull, holdest]
    exact (Dict.length_put_le ..).trans (Nat.succ_le_of_lt (hless.trans_le h))
  · rw [roomFor, if_neg hfull]
    cases hentry : cache.entries.get? key with
    | none =>
      have hlt : cache.entries.entries.length < maxEntries := not_le.mp fun hle => hfull ⟨hle, hentry⟩
      exact (Dict.length_put_le ..).trans (Nat.succ_le_of_lt hlt)
    | some entry => exact (Dict.length_put_of_lookup hentry).trans_le h

/-! ### What the operations keep -/

namespace Fit

theorem mono (h : Fit now cache) (hle : now ≤ n) : Fit n cache :=
  ⟨h.small, fun key entry hentry => (h.past key entry hentry).trans_le hle, h.apart, h.timed⟩

/-- A smaller cache with the times that are there. -/
theorem of_sub (h : Fit n cache) (hsmall : other.entries.entries.length ≤ cache.entries.entries.length)
    (hsub : ∀ key entry, other.entries.get? key = some entry → ∃ entry', cache.entries.get? key = some entry' ∧
      entry'.ts = entry.ts) : Fit n other where
  small := hsmall.trans h.small
  past key entry hentry := by
    obtain ⟨entry', hentry', hts⟩ := hsub key entry hentry
    exact hts ▸ h.past key entry' hentry'
  apart key entry key' entry' hentry hentry' hts := by
    obtain ⟨e, he, hes⟩ := hsub key entry hentry
    obtain ⟨e', he', hes'⟩ := hsub key' entry' hentry'
    exact h.apart key e key' e' he he' (by rw [hes, hes', hts])
  timed e he := by
    obtain ⟨e', he', hts⟩ := hsub e.1 e.2 (Dict.get?_of_mem he)
    rw [← hts]
    exact h.timed (e.1, e') (get?_eq_some_iff.mp he')

theorem empty : Fit n ⟨Dict.empty⟩ where
  small := Nat.zero_le _
  past _ _ hentry := absurd hentry nofun
  apart _ _ _ _ hentry := absurd hentry nofun
  timed _ he := absurd he List.not_mem_nil

theorem erase (h : Fit n cache) (key : String) : Fit n ⟨cache.entries.erase key⟩ := by
  apply h.of_sub (List.length_filter_le ..)
  intro key' entry hentry
  rw [Dict.get?_erase] at hentry
  split_ifs at hentry
  exact ⟨entry, hentry, rfl⟩

theorem get (h : Fit n cache) (key : String) (now : ℚ) : Fit n (cache.get key now).2 := by
  unfold LLMCache.get
  split
  · exact h
  · rename_i entry hentry
    split_ifs
    · exact h.erase key
    · apply h.of_sub
      · exact (Dict.length_put_of_lookup hentry).le
      · intro key' entry' hentry'
        rw [Dict.get?_set] at hentry'
        split_ifs at hentry' with hkey
        · exact ⟨entry, hkey ▸ hentry, by rw [← Option.some.inj hentry']⟩
        · exact ⟨entry', hentry', rfl⟩

theorem fresh (h : Fit n cache) (now : ℚ) : Fit n (cache.fresh now) := by
  apply h.of_sub (List.length_filter_le ..)
  intro key entry hentry
  exact ⟨entry, get?_eq_some_iff.mpr (List.mem_of_mem_filter (get?_eq_some_iff.mp hentry)), rfl⟩

theorem roomFor (h : Fit n cache) (key : String) : Fit n (cache.roomFor key) := by
  unfold LLMCache.roomFor
  split_ifs
  · split
    · exact h
    · exact h.erase _
  · exact h

theorem put (h : Fit now cache) (hlt : now < n) (hnow : Binary64.round now = some now) (key model response : String) :
    Fit n (cache.put key model response now) := by
  have hroom := h.roomFor key
  have hsmall := length_put h.small key model response now
  rw [put_eq] at hsmall ⊢
  refine ⟨hsmall, ?_, ?_, ?_⟩
  · intro key' entry hentry
    rw [Dict.get?_set] at hentry
    split_ifs at hentry
    · rw [← Option.some.inj hentry]
      exact hlt
    · exact (hroom.past _ _ hentry).trans hlt
  · intro key₁ entry₁ key₂ entry₂ h₁ h₂ hts
    rw [Dict.get?_set] at h₁ h₂
    split_ifs at h₁ h₂ with hkey₁ hkey₂ hkey₂
    · rw [hkey₁, hkey₂]
    · have hlt₂ := hroom.past _ _ h₂
      rw [← hts, ← Option.some.inj h₁] at hlt₂
      exact absurd hlt₂ (lt_irrefl _)
    · have hlt₁ := hroom.past _ _ h₁
      rw [hts, ← Option.some.inj h₂] at hlt₁
      exact absurd hlt₁ (lt_irrefl _)
    · exact hroom.apart _ _ _ _ h₁ h₂ hts
  · intro e he
    rcases Dict.mem_put he with rfl | he
    · exact hnow
    · exact hroom.timed e he

end Fit

theorem alike_fresh (hlt : now < t) : Alike t cache (cache.fresh now) := fun _ => (live_fresh hlt).symm

theorem alike_get (h : Alike t cache other) (hle : now ≤ t) (key : String) :
    Alike t (cache.get key now).2 (other.get key now).2 := by
  intro key'
  rw [live_get hle, live_get hle]
  exact h key'

open Classical in
theorem live_put (hle : now ≤ t) (model response : String) : live t (cache.put key model response now) key' =
    if key' = key then (if t - now ≤ ttlSeconds then some (response, now) else none)
    else if Evicted now cache key key' then none else live t cache key' := by
  rw [put_eq]
  by_cases hkey : key' = key
  · rw [if_pos hkey, live, hkey, Dict.get?_set_self, Option.filter_some]
    by_cases hage : t - now ≤ ttlSeconds
    · rw [if_pos hage, if_pos (decide_eq_true hage)]
      rfl
    · rw [if_neg hage, if_neg (by simpa using hage)]
      rfl
  · rw [if_neg hkey, ← live_roomFor hle, live, Dict.get?_set, if_neg hkey]
    rfl

/-- Caches that serve the same from now on do so after the same `put`. -/
theorem alike_put (hnow : Alike now cache other) (h : Alike t cache other) (hle : now ≤ t) (hfit : Fit n cache)
    (hother : Fit n other) (key model response : String) :
    Alike t (cache.put key model response now) (other.put key model response now) := by
  classical
  intro key'
  have hevicted : Evicted now cache key key' ↔ Evicted now other key key' := by
    constructor
    · exact evicted_of_alike hnow hother.small hother.apart
    · exact evicted_of_alike (fun k => (hnow k).symm) hfit.small hfit.apart
  rw [live_put hle, live_put hle, h key', if_congr hevicted rfl rfl]

end

/-! ## Runs with restarts -/

variable {τ : Type}

/-- What happens to the cache: whether a `put` gets its file written, and a restart its file read. -/
inductive Event (τ : Type)
  | get (query : Query τ) (now : ℚ)
  | put (query : Query τ) (response : String) (now : ℚ) (isWritten : Bool)
  | restart (now : ℚ) (isRead : Bool)

namespace Event

def time : Event τ → ℚ
  | get _ now => now
  | put _ _ now _ => now
  | restart now _ => now

def call : Event τ → Option (CacheCall τ)
  | get query now => some (.get query now)
  | put query response now _ => some (.put query response now)
  | restart _ _ => none

def isWritten? : Event τ → Option Bool
  | put _ _ _ isWritten => some isWritten
  | _ => none

end Event

/-- The run without its restarts. -/
def calls (events : List (Event τ)) : List (CacheCall τ) := events.filterMap Event.call

/-- The live cache and its file. -/
structure Process where
  cache : LLMCache
  file : Option (List UInt8)

section
variable (hash : String → String) (render : τ → String)

/-- A `_save` that fails leaves the file anyhow; a restart that cannot read it starts with an empty cache. -/
inductive Step (process : Process) : Event τ → Process → Prop
  | get (query : Query τ) (now : ℚ) :
    Step process (.get query now) ⟨(process.cache.get (makeKey hash render query) now).2, process.file⟩
  | put (query : Query τ) (response : String) (now : ℚ) (cache : LLMCache)
    (hcache : cache = process.cache.put (makeKey hash render query) query.model response now) :
    Step process (.put query response now true) ⟨cache, some cache.saved⟩
  | putUnwritten (query : Query τ) (response : String) (now : ℚ) (left : Option (List UInt8)) :
    Step process (.put query response now false)
      ⟨process.cache.put (makeKey hash render query) query.model response now, left⟩
  | restart (now : ℚ) (cache : LLMCache) (items : List (PyStr × PyValue)) (hload : load now process.file = .ok items)
    (hcache : cache.Holds items) : Step process (.restart now true) ⟨cache, process.file⟩
  | restartUnread (now : ℚ) : Step process (.restart now false) ⟨⟨Dict.empty⟩, process.file⟩

/-- A run from the first start, where there is no file. -/
inductive Steps : List (Event τ) → Process → Prop
  | start : Steps [] ⟨⟨Dict.empty⟩, none⟩
  | step (events : List (Event τ)) (event : Event τ) (process process' : Process) (hrest : Steps events process)
    (hstep : Step hash render process event process') : Steps (events ++ [event]) process'

end

/-- The clock moves on from event to event. -/
def Clocked (events : List (Event τ)) : Prop :=
  (events.map Event.time).Pairwise (· < ·) ∧ ∀ event ∈ events, Binary64.round event.time = some event.time

/-- The latest `put`, if there has been one, got its file written. -/
def Written (events : List (Event τ)) : Prop := (events.reverse.filterMap Event.isWritten?).head? ≠ some false

/-- Every restart reads its file, and the latest `put` before it has written it. -/
def Kept (events : List (Event τ)) : Prop :=
  ∀ front now isRead back, events = front ++ .restart now isRead :: back → isRead = true ∧ Written front

/-- What the file is to the cache, from the time `n` on. -/
def Backed (n : ℚ) (process : Process) : Prop :=
  (process.file = none ∧ process.cache = ⟨Dict.empty⟩) ∨
    ∃ cache : LLMCache, process.file = some cache.saved ∧ Fit n cache ∧ ∀ t ≥ n, Alike t cache process.cache

/-- A process, and a cache that has not been restarted. -/
structure Close (n : ℚ) (process : Process) (cache : LLMCache) : Prop where
  fit : Fit n process.cache
  plain : Fit n cache
  alike : ∀ t ≥ n, Alike t process.cache cache

section
variable {hash : String → String} {render : τ → String} {n now : ℚ} {process process' : Process} {cache : LLMCache}
  {events : List (Event τ)}

theorem entryLoaded_injective : Function.Injective entryLoaded := by
  rintro ⟨response, ts, model, hits, len⟩ ⟨response', ts', model', hits', len'⟩ h
  unfold entryLoaded at h
  simp only [PyValue.dict.injEq, List.cons.injEq, Prod.mk.injEq, true_and, and_true, PyValue.str.injEq,
    PyValue.float.injEq, PyValue.int.injEq, pyStr_inj, WithBot.coe_inj, WithTop.coe_inj, Nat.cast_inj] at h
  obtain ⟨rfl, rfl, rfl, rfl, rfl⟩ := h
  rfl

/-- What is loaded tells the cache. -/
theorem Holds.unique {other : LLMCache} {items : List (PyStr × PyValue)} (h : cache.Holds items)
    (hother : other.Holds items) : cache = other := by
  have hinj : Function.Injective fun e : String × CacheEntry => (pyStr e.1, entryLoaded e.2) := by
    rintro ⟨key, entry⟩ ⟨key', entry'⟩ heq
    obtain ⟨hkey, hentry⟩ := Prod.mk.inj heq
    exact Prod.ext (pyStr_inj.mp hkey) (entryLoaded_injective hentry)
  have hentries : cache.entries.entries = other.entries.entries := List.map_injective_iff.mpr hinj (h.symm.trans hother)
  obtain ⟨⟨entries, hnodup⟩⟩ := cache
  obtain ⟨⟨entries', hnodup'⟩⟩ := other
  dsimp only at hentries
  subst hentries
  rfl

theorem Backed.mono {n' : ℚ} (h : Backed n process) (hle : n ≤ n') : Backed n' process := by
  rcases h with h | ⟨cache, hfile, hfit, halike⟩
  · exact .inl h
  · exact .inr ⟨cache, hfile, hfit.mono hle, fun t ht => halike t (hle.trans ht)⟩

theorem Backed.get (h : Backed now process) (hlt : now < n) (key : String) :
    Backed n ⟨(process.cache.get key now).2, process.file⟩ := by
  rcases h with ⟨hfile, hcache⟩ | ⟨cache, hfile, hfit, halike⟩
  · refine .inl ⟨hfile, ?_⟩
    rw [hcache]
    rfl
  · refine .inr ⟨cache, hfile, hfit.mono hlt.le, fun t ht key' => ?_⟩
    rw [live_get (hlt.le.trans ht)]
    exact halike t (hlt.le.trans ht) key'

theorem exists_load (h : Backed now process) :
    ∃ items restarted, load now process.file = .ok items ∧ Holds restarted items := by
  rcases h with ⟨hfile, -⟩ | ⟨saved, hfile, hfit, -⟩
  · exact ⟨[], ⟨Dict.empty⟩, by rw [hfile]; rfl, rfl⟩
  · obtain ⟨items, hload, hholds⟩ := load_saved hfit.timed now
    exact ⟨items, saved.fresh now, by rw [hfile, hload], hholds⟩

theorem step_get (h : Close now process cache) (hlt : now < n) (key : String) :
    Close n ⟨(process.cache.get key now).2, process.file⟩ (cache.get key now).2 where
  fit := (h.fit.get key now).mono hlt.le
  plain := (h.plain.get key now).mono hlt.le
  alike _ ht := alike_get (h.alike _ (hlt.le.trans ht)) (hlt.le.trans ht) key

theorem step_put (h : Close now process cache) (hlt : now < n) (hnow : Binary64.round now = some now)
    (key model response : String) (file : Option (List UInt8)) :
    Close n ⟨process.cache.put key model response now, file⟩ (cache.put key model response now) where
  fit := h.fit.put hlt hnow key model response
  plain := h.plain.put hlt hnow key model response
  alike t ht := alike_put (h.alike now le_rfl) (h.alike t (hlt.le.trans ht)) (hlt.le.trans ht) h.fit h.plain key model
    response

/-- **A restart** brings back what was served. -/
theorem step_restart (h : Close now process cache) (hbacked : Backed now process) (hlt : now < n)
    {restarted : LLMCache} {items : List (PyStr × PyValue)} (hload : load now process.file = .ok items)
    (hholds : restarted.Holds items) :
    Close n ⟨restarted, process.file⟩ cache ∧ Backed n ⟨restarted, process.file⟩ := by
  have hplain := h.plain.mono hlt.le
  have halike (t : ℚ) (ht : t ≥ n) := h.alike t (hlt.le.trans ht)
  rcases hbacked with ⟨hfile, hempty⟩ | ⟨saved, hfile, hfit, hsame⟩
  · rw [hfile] at hload
    have hnil : Holds ⟨Dict.empty⟩ items := (Except.ok.inj hload).symm
    obtain rfl := hholds.unique hnil
    rw [hempty] at halike
    exact ⟨⟨.empty, hplain, halike⟩, .inl ⟨hfile, rfl⟩⟩
  · obtain ⟨items', hload', hfresh⟩ := load_saved hfit.timed now
    rw [hfile, hload'] at hload
    obtain rfl := Except.ok.inj hload
    obtain rfl := hholds.unique hfresh
    have hleft (t : ℚ) (ht : t ≥ n) : Alike t saved (saved.fresh now) := alike_fresh (hlt.trans_le ht)
    refine ⟨⟨(hfit.fresh now).mono hlt.le, hplain, ?_⟩, .inr ⟨saved, hfile, hfit.mono hlt.le, hleft⟩⟩
    intro t ht key
    rw [← hleft t ht key, hsame t (hlt.le.trans ht) key, halike t ht key]

/-! ### Whole runs -/

theorem calls_concat (events : List (Event τ)) (event : Event τ) :
    calls (events ++ [event]) = calls events ++ event.call.toList := by
  cases event <;> simp [calls, Event.call]

theorem run_concat_call (calls : List (CacheCall τ)) (call : CacheCall τ) :
    run hash render (calls ++ [call]) = perform hash render (run hash render calls) call := List.foldl_concat ..

theorem Clocked.concat {event : Event τ} (h : Clocked (events ++ [event])) :
    Clocked events ∧ (∀ e ∈ events, e.time < event.time) ∧ Binary64.round event.time = some event.time := by
  obtain ⟨hpairwise, hdouble⟩ := h
  rw [List.map_append, List.map_singleton, List.pairwise_append] at hpairwise
  obtain ⟨hevents, -, hbefore⟩ := hpairwise
  refine ⟨⟨hevents, fun e he => hdouble e (List.mem_append_left _ he)⟩, fun e he => ?_, ?_⟩
  · exact hbefore _ (List.mem_map_of_mem he) _ (List.mem_singleton_self _)
  · exact hdouble _ (List.mem_append_right _ (List.mem_singleton_self _))

theorem Kept.concat {event : Event τ} (h : Kept (events ++ [event])) : Kept events := by
  intro front now isRead back hevents
  exact h front now isRead (back ++ [event]) (by rw [hevents, List.append_assoc, List.cons_append])

theorem Written.of_concat {event : Event τ} (hnone : event.isWritten? = none) (h : Written (events ++ [event])) :
    Written events := by
  rwa [Written, List.reverse_concat, List.filterMap_cons_none hnone] at h

theorem not_written_concat {query : Query τ} {response : String} :
    ¬ Written (events ++ [.put query response now false]) := by
  intro h
  have hput : Event.isWritten? (.put query response now false) = some false := rfl
  rw [Written, List.reverse_concat, List.filterMap_cons_some hput] at h
  exact h rfl

/-- A step keeps process and plain run close, and the file behind the latest `put` backs the cache. -/
theorem step_close {event : Event τ} (hstep : Step hash render process event process') (hlt : event.time < n)
    (hdouble : Binary64.round event.time = some event.time) (hkept : Kept (events ++ [event]))
    (hclose : Close event.time process (run hash render (calls events)))
    (hbacked : Written events → Backed event.time process) :
    Close n process' (run hash render (calls (events ++ [event]))) ∧
      (Written (events ++ [event]) → Backed n process') := by
  rw [calls_concat]
  cases hstep with
  | get query now =>
    rw [Event.call, Option.toList_some, run_concat_call]
    exact ⟨step_get hclose hlt _, fun hwritten => (hbacked (hwritten.of_concat rfl)).get hlt _⟩
  | put query response now cache hcache =>
    rw [Event.call, Option.toList_some, run_concat_call, hcache]
    have hnext := step_put hclose hlt hdouble (makeKey hash render query) query.model response none
    exact ⟨⟨hnext.fit, hnext.plain, hnext.alike⟩, fun _ => .inr ⟨_, rfl, hnext.fit, fun t _ key => rfl⟩⟩
  | putUnwritten query response now left =>
    rw [Event.call, Option.toList_some, run_concat_call]
    exact ⟨step_put hclose hlt hdouble _ _ _ left, fun hwritten => absurd hwritten not_written_concat⟩
  | restart now cache items hload hcache =>
    obtain ⟨-, hwritten⟩ := hkept events now true [] rfl
    obtain ⟨hnext, hnextBacked⟩ := step_restart hclose (hbacked hwritten) hlt hload hcache
    rw [Event.call, Option.toList_none, List.append_nil]
    exact ⟨hnext, fun _ => hnextBacked⟩
  | restartUnread now => exact absurd (hkept events now false [] rfl).1 nofun

theorem run_close (hsteps : Steps hash render events process) (hclock : Clocked events) (hkept : Kept events)
    (hnow : ∀ e ∈ events, e.time < n) :
    Close n process (run hash render (calls events)) ∧ (Written events → Backed n process) := by
  induction hsteps generalizing n with
  | start => exact ⟨⟨.empty, .empty, fun _ _ _ => rfl⟩, fun _ => .inl ⟨rfl, rfl⟩⟩
  | step events event process process' hrest hstep ih =>
    obtain ⟨hevents, hbefore, hdouble⟩ := hclock.concat
    obtain ⟨hclose, hbacked⟩ := ih hevents hkept.concat hbefore
    exact step_close hstep (hnow _ (by simp)) hdouble hkept hclose hbacked

theorem exists_run (hclock : Clocked events) (hkept : Kept events) : ∃ process, Steps hash render events process := by
  induction events using List.reverseRecOn with
  | nil => exact ⟨_, .start⟩
  | append_singleton events event ih =>
    obtain ⟨hevents, hbefore, -⟩ := hclock.concat
    obtain ⟨process, hsteps⟩ := ih hevents hkept.concat
    obtain ⟨-, hbacked⟩ := run_close hsteps hevents hkept.concat hbefore
    cases event with
    | get query now => exact ⟨_, .step _ _ _ _ hsteps (.get query now)⟩
    | put query response now isWritten =>
      cases isWritten with
      | true => exact ⟨_, .step _ _ _ _ hsteps (.put query response now _ rfl)⟩
      | false => exact ⟨_, .step _ _ _ _ hsteps (.putUnwritten query response now none)⟩
    | restart now isRead =>
      obtain ⟨rfl, hwritten⟩ := hkept events now isRead [] rfl
      obtain ⟨items, restarted, hload, hholds⟩ := exists_load (hbacked hwritten)
      exact ⟨_, .step _ _ _ _ hsteps (.restart now restarted items hload hholds)⟩

/-- **Restarts are unseen**: on a clock that moves on, with the files written and read, the run can go on to its end,
and every later `get` is answered as without the restarts. -/
theorem restarts_unseen (hash : String → String) (render : τ → String) (events : List (Event τ))
    (hclock : Clocked events) (hkept : Kept events) :
    (∃ process, Steps hash render events process) ∧
      ∀ process, Steps hash render events process → ∀ query now, (∀ e ∈ events, e.time < now) →
        (process.cache.get (makeKey hash render query) now).1 = answer hash render (calls events) query now := by
  refine ⟨exists_run hclock hkept, fun process hsteps query now hnow => ?_⟩
  obtain ⟨hclose, -⟩ := run_close hsteps hclock hkept hnow
  rw [answer, get_fst, get_fst, hclose.alike now le_rfl]

end

/-- A response of the minute before the restart. -/
theorem restarts_unseen_again : ∃ process, Steps id (id : String → String)
    [.put ⟨"Write a parser.", "llama-3.3", "0.2"⟩ "def parse(): ..." 0 true, .restart 60 true] process ∧
      (process.cache.get (makeKey id id ⟨"Write a parser.", "llama-3.3", "0.2"⟩) 120).1 = some "def parse(): ..." := by
  have hclock : Clocked [.put ⟨"Write a parser.", "llama-3.3", "0.2"⟩ "def parse(): ..." 0 true,
      (.restart 60 true : Event String)] := by
    refine ⟨by simp [Event.time], ?_⟩
    simp only [List.forall_mem_cons, List.not_mem_nil, false_imp_iff, implies_true, and_true, Event.time]
    decide +kernel
  have hkept : Kept [.put ⟨"Write a parser.", "llama-3.3", "0.2"⟩ "def parse(): ..." 0 true,
      (.restart 60 true : Event String)] := by
    intro front now isRead back hevents
    rcases front with _ | ⟨first, _ | ⟨second, front⟩⟩
    · exact absurd (List.cons.inj hevents).1 nofun
    · obtain ⟨rfl, hrest⟩ := List.cons.inj hevents
      obtain ⟨-, rfl⟩ := Event.restart.inj (List.cons.inj hrest).1
      exact ⟨rfl, by simp [Written, Event.isWritten?]⟩
    · exact absurd (congrArg List.length hevents) (by simp)
  obtain ⟨⟨process, hsteps⟩, hsame⟩ := restarts_unseen id (id : String → String) _ hclock hkept
  refine ⟨process, hsteps, (hsame process hsteps _ _ ?_).trans (by decide +kernel)⟩
  norm_num [Event.time]

end Atlas.Agent.LLMCache
