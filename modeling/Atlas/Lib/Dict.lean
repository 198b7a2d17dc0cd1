import Mathlib.Algebra.Order.BigOperators.Group.List
import Mathlib.Tactic

/-!
# Python's `dict`

Entries in the order of their insertion, one for each key.

* `get?`, `set`, `erase` : look a key up, put a value in its place (a new key goes to the end), take a key out;
* `get?_set`, `get?_erase` : the values after that;
* `ofPairs` : the dictionary of a list of pairs; `entries_ofPairs`, `lookup_perm` : pairs with a key each;
* `get?_ofPairs`, `lookup_reverse_filter_iff` : the last pair with a key counts, and when it is one with a property;
* `total` : the sum of a measure of the values; `total_set`, `total_erase` : what an assignment makes of it, and a
  value less.
-/

structure Dict (κ ν : Type) where
  entries : List (κ × ν)
  nodup : (entries.map Prod.fst).Nodup

namespace Dict

variable {κ ν : Type} [DecidableEq κ]

/-! ## Entries -/

/-- The entries after `d[k] = v`. -/
def put (k : κ) (v : ν) : List (κ × ν) → List (κ × ν)
  | [] => [(k, v)]
  | entry :: entries => if entry.1 = k then (k, v) :: entries else entry :: put k v entries

theorem mem_keys_put {k k' : κ} {v : ν} {entries : List (κ × ν)} :
    k' ∈ (put k v entries).map Prod.fst ↔ k' = k ∨ k' ∈ entries.map Prod.fst := by
  induction entries with
  | nil => simp [put]
  | cons entry entries ih =>
    rw [put]
    split_ifs with hkey
    · simp [hkey]
    · rw [List.map_cons, List.mem_cons, ih, List.map_cons, List.mem_cons]
      tauto

theorem mem_put {k : κ} {v : ν} {entry : κ × ν} {entries : List (κ × ν)} (h : entry ∈ put k v entries) :
    entry = (k, v) ∨ entry ∈ entries := by
  induction entries with
  | nil => exact .inl (List.mem_singleton.mp h)
  | cons other entries ih =>
    rw [put] at h
    split_ifs at h with hkey
    · exact (List.mem_cons.mp h).imp id (List.mem_cons_of_mem _)
    · rcases List.mem_cons.mp h with rfl | h
      · exact .inr (List.mem_cons_self ..)
      · exact (ih h).imp id (List.mem_cons_of_mem _)

theorem put_of_new {k : κ} {v : ν} {entries : List (κ × ν)} (h : k ∉ entries.map Prod.fst) :
    put k v entries = entries ++ [(k, v)] := by
  induction entries with
  | nil => rfl
  | cons entry entries ih =>
    obtain ⟨hne, hrest⟩ := not_or.mp (List.mem_cons.not.mp h)
    rw [put, if_neg fun hkey => hne hkey.symm, ih hrest, List.cons_append]

theorem nodup_put {k : κ} {v : ν} {entries : List (κ × ν)} (h : (entries.map Prod.fst).Nodup) :
    ((put k v entries).map Prod.fst).Nodup := by
  induction entries with
  | nil => simp [put]
  | cons entry entries ih =>
    obtain ⟨hnew, hrest⟩ := List.nodup_cons.mp h
    rw [put]
    split_ifs with hkey
    · rw [List.map_cons, ← hkey]
      exact h
    · rw [List.map_cons, List.nodup_cons, mem_keys_put, not_or]
      exact ⟨⟨hkey, hnew⟩, ih hrest⟩

theorem lookup_put (k k' : κ) (v : ν) (entries : List (κ × ν)) :
    (put k v entries).lookup k' = if k' = k then some v else entries.lookup k' := by
  induction entries with
  | nil =>
    rw [put, List.lookup_cons, List.lookup_nil]
    split_ifs with h
    · rw [beq_iff_eq.mpr h]
    · rw [beq_false_of_ne h]
  | cons entry entries ih =>
    rw [put]
    split_ifs with hkey h h
    · simp [h]
    · have hne : (k' == entry.1) = false := by simpa [hkey] using h
      rw [List.lookup_cons, List.lookup_cons, hne, beq_false_of_ne h]
    · have hne : (k' == entry.1) = false := by simpa [h] using fun he : k = entry.1 => hkey he.symm
      rw [List.lookup_cons, hne, ih, if_pos h]
    · rw [List.lookup_cons, List.lookup_cons, ih, if_neg h]

theorem length_put_le (k : κ) (v : ν) (entries : List (κ × ν)) : (put k v entries).length ≤ entries.length + 1 := by
  induction entries with
  | nil => simp [put]
  | cons entry entries ih =>
    rw [put]
    split_ifs
    · simp
    · rw [List.length_cons, List.length_cons]
      omega

theorem length_put_of_lookup {k : κ} {v w : ν} {entries : List (κ × ν)} (h : entries.lookup k = some w) :
    (put k v entries).length = entries.length := by
  induction entries with
  | nil => exact absurd h nofun
  | cons entry entries ih =>
    rw [put]
    split_ifs with hkey
    · rfl
    · rw [List.lookup_cons, beq_false_of_ne fun he => hkey he.symm] at h
      rw [List.length_cons, ih h, List.length_cons]

/-- Entries under other names, one for each key. -/
theorem put_map {κ' ν' : Type} [DecidableEq κ'] {f : κ → κ'} (hf : Function.Injective f) (g : ν → ν') (k : κ) (v : ν)
    (entries : List (κ × ν)) : put (f k) (g v) (entries.map fun entry => (f entry.1, g entry.2)) =
      (put k v entries).map fun entry => (f entry.1, g entry.2) := by
  induction entries with
  | nil => rfl
  | cons entry entries ih =>
    rw [List.map_cons, put, put]
    by_cases hkey : entry.1 = k
    · rw [if_pos (congrArg f hkey), if_pos hkey, List.map_cons]
    · rw [if_neg fun h => hkey (hf h), if_neg hkey, ih, List.map_cons]

section lookup
omit [DecidableEq κ]
variable [BEq κ] [LawfulBEq κ]

theorem mem_of_lookup {k : κ} {v : ν} {entries : List (κ × ν)} (h : entries.lookup k = some v) :
    (k, v) ∈ entries := by
  induction entries with
  | nil => cases h
  | cons entry entries ih =>
    rw [List.lookup_cons] at h
    split at h
    · rename_i hkey
      rw [eq_of_beq hkey, ← Option.some.inj h]
      exact List.mem_cons_self ..
    · exact List.mem_cons_of_mem _ (ih h)

theorem lookup_eq_some_iff {entries : List (κ × ν)} (h : (entries.map Prod.fst).Nodup) {k : κ} {v : ν} :
    entries.lookup k = some v ↔ (k, v) ∈ entries := by
  refine ⟨mem_of_lookup, fun hmem => ?_⟩
  induction entries with
  | nil => cases hmem
  | cons other entries ih =>
    obtain ⟨hnew, hrest⟩ := List.nodup_cons.mp h
    rw [List.lookup_cons]
    rcases List.mem_cons.mp hmem with rfl | hmem
    · rw [beq_self_eq_true]
    · have hne : k ≠ other.1 := fun hkey => hnew (hkey ▸ List.mem_map_of_mem (f := Prod.fst) hmem)
      rw [beq_false_of_ne hne]
      exact ih hrest hmem

/-- The order of the entries is of no account. -/
theorem lookup_perm {entries others : List (κ × ν)} (hperm : entries.Perm others)
    (h : (entries.map Prod.fst).Nodup) (k : κ) : entries.lookup k = others.lookup k := by
  apply Option.ext
  intro v
  rw [lookup_eq_some_iff h, lookup_eq_some_iff ((hperm.map _).nodup_iff.mp h), hperm.mem_iff]

end lookup

/-! ## Dictionaries -/

def empty : Dict κ ν := ⟨[], List.nodup_nil⟩

def get? (d : Dict κ ν) (k : κ) : Option ν := d.entries.lookup k

def set (d : Dict κ ν) (k : κ) (v : ν) : Dict κ ν := ⟨put k v d.entries, nodup_put d.nodup⟩

def values (d : Dict κ ν) : List ν := d.entries.map Prod.snd

@[simp] theorem get?_empty (k : κ) : (empty : Dict κ ν).get? k = none := rfl

theorem get?_set (d : Dict κ ν) (k k' : κ) (v : ν) :
    (d.set k v).get? k' = if k' = k then some v else d.get? k' :=
  lookup_put k k' v d.entries

@[simp] theorem get?_set_self (d : Dict κ ν) (k : κ) (v : ν) : (d.set k v).get? k = some v := by
  rw [get?_set, if_pos rfl]

theorem mem_values_of_get? {d : Dict κ ν} {k : κ} {v : ν} (h : d.get? k = some v) : v ∈ d.values :=
  List.mem_map_of_mem (f := Prod.snd) (mem_of_lookup h)

theorem get?_of_mem {d : Dict κ ν} {entry : κ × ν} (h : entry ∈ d.entries) : d.get? entry.1 = some entry.2 :=
  (lookup_eq_some_iff d.nodup).mpr h

/-- Every value gives way to its image. -/
def mapValues {ν' : Type} (f : ν → ν') (d : Dict κ ν) : Dict κ ν' where
  entries := d.entries.map fun e => (e.1, f e.2)
  nodup := by
    rw [List.map_map]
    exact d.nodup

omit [DecidableEq κ] in
@[simp] theorem values_mapValues {ν' : Type} (f : ν → ν') (d : Dict κ ν) :
    (d.mapValues f).values = d.values.map f := by
  unfold values mapValues
  rw [List.map_map, List.map_map]
  rfl

theorem mem_values_set {d : Dict κ ν} {k : κ} {v v' : ν} (h : v' ∈ (d.set k v).values) : v' = v ∨ v' ∈ d.values := by
  obtain ⟨entry, hmem, rfl⟩ := List.mem_map.mp h
  exact (mem_put hmem).imp (congrArg Prod.snd) (List.mem_map_of_mem (f := Prod.snd))

theorem lookup_filter (k k' : κ) (entries : List (κ × ν)) :
    (entries.filter fun entry => entry.1 ≠ k).lookup k' = if k' = k then none else entries.lookup k' := by
  induction entries with
  | nil => simp
  | cons entry entries ih =>
    by_cases hkey : entry.1 = k
    · rw [List.filter_cons_of_neg (by simpa using hkey), ih, List.lookup_cons]
      split_ifs with h
      · rfl
      · rw [beq_false_of_ne fun h' => h (h'.trans hkey)]
    · rw [List.filter_cons_of_pos (by simpa using hkey), List.lookup_cons, List.lookup_cons, ih]
      split_ifs with h
      · rw [beq_false_of_ne fun h' => hkey (h'.symm.trans h)]
      · rfl

/-- `d.pop(k, None)` -/
def erase (d : Dict κ ν) (k : κ) : Dict κ ν where
  entries := d.entries.filter fun entry => entry.1 ≠ k
  nodup := d.nodup.sublist (List.filter_sublist.map Prod.fst)

theorem get?_erase (d : Dict κ ν) (k k' : κ) : (d.erase k).get? k' = if k' = k then none else d.get? k' :=
  lookup_filter k k' d.entries

/-! ## Pairs -/

theorem mem_keys_set {d : Dict κ ν} {k k' : κ} {v : ν} :
    k' ∈ (d.set k v).entries.map Prod.fst ↔ k' = k ∨ k' ∈ d.entries.map Prod.fst := mem_keys_put

/-- `dict(pairs)` -/
def ofPairs (pairs : List (κ × ν)) : Dict κ ν := pairs.foldl (fun d pair => d.set pair.1 pair.2) empty

theorem ofPairs_concat (pairs : List (κ × ν)) (pair : κ × ν) :
    ofPairs (pairs ++ [pair]) = (ofPairs pairs).set pair.1 pair.2 := List.foldl_concat ..

theorem mem_of_mem_ofPairs {pairs : List (κ × ν)} {entry : κ × ν} (h : entry ∈ (ofPairs pairs).entries) :
    entry ∈ pairs := by
  induction pairs using List.reverseRecOn with
  | nil => exact h
  | append_singleton pairs pair ih =>
    rw [ofPairs_concat] at h
    rcases mem_put h with rfl | h
    · exact List.mem_append_right _ (List.mem_singleton_self _)
    · exact List.mem_append_left _ (ih h)

theorem mem_keys_ofPairs {pairs : List (κ × ν)} {k : κ} :
    k ∈ (ofPairs pairs).entries.map Prod.fst ↔ k ∈ pairs.map Prod.fst := by
  induction pairs using List.reverseRecOn with
  | nil => exact Iff.rfl
  | append_singleton pairs pair ih =>
    rw [ofPairs_concat, mem_keys_set, ih, List.map_append, List.mem_append, List.map_singleton, List.mem_singleton]
    exact or_comm

/-- Pairs with a key each are the entries themselves. -/
theorem entries_ofPairs {pairs : List (κ × ν)} (h : (pairs.map Prod.fst).Nodup) : (ofPairs pairs).entries = pairs := by
  induction pairs using List.reverseRecOn with
  | nil => rfl
  | append_singleton pairs pair ih =>
    rw [List.map_append, List.map_singleton, List.nodup_append] at h
    obtain ⟨hpairs, -, hapart⟩ := h
    have hnew : pair.1 ∉ (ofPairs pairs).entries.map Prod.fst := by
      rw [mem_keys_ofPairs]
      exact fun hmem => hapart _ hmem _ (List.mem_singleton_self _) rfl
    rw [ofPairs_concat]
    show put pair.1 pair.2 (ofPairs pairs).entries = _
    rw [put_of_new hnew, ih hpairs]

/-- Of the pairs with one key, the last one counts. -/
theorem get?_ofPairs (pairs : List (κ × ν)) (k : κ) : (ofPairs pairs).get? k = pairs.reverse.lookup k := by
  induction pairs using List.reverseRecOn with
  | nil => rfl
  | append_singleton pairs pair ih =>
    rw [ofPairs_concat, get?_set, ih, List.reverse_concat, List.lookup_cons]
    by_cases h : k = pair.1
    · rw [if_pos h, beq_iff_eq.mpr h]
    · rw [if_neg h, beq_false_of_ne h]

theorem lookup_reverse_cons (pair : κ × ν) (pairs : List (κ × ν)) (k : κ) :
    (pair :: pairs).reverse.lookup k = (pairs.reverse.lookup k).or (if k = pair.1 then some pair.2 else none) := by
  rw [List.reverse_cons, List.lookup_append, List.lookup_cons, List.lookup_nil]
  by_cases h : k = pair.1
  · rw [if_pos h, beq_iff_eq.mpr h]
  · rw [if_neg h, beq_false_of_ne h]

theorem lookup_reverse_ne_none_iff {pairs : List (κ × ν)} {k : κ} :
    pairs.reverse.lookup k ≠ none ↔ ∃ pair ∈ pairs, pair.1 = k := by
  induction pairs with
  | nil => simp
  | cons first pairs ih =>
    rw [lookup_reverse_cons, List.exists_mem_cons_iff, ← ih]
    by_cases h : k = first.1
    · simp [h]
    · simp [h, Ne.symm h]

/-- Every pair without the property is followed by one with its key that has it. -/
def Followed (p : κ × ν → Bool) (pairs : List (κ × ν)) : Prop :=
  ∀ front pair back, pairs = front ++ pair :: back → p pair = false → ∃ other ∈ back, p other = true ∧ other.1 = pair.1

omit [DecidableEq κ] in
theorem followed_cons {p : κ × ν → Bool} {first : κ × ν} {pairs : List (κ × ν)} : Followed p (first :: pairs) ↔
    (p first = false → ∃ other ∈ pairs, p other = true ∧ other.1 = first.1) ∧ Followed p pairs := by
  constructor
  · intro h
    refine ⟨h [] first pairs rfl, fun front pair back heq => h (first :: front) pair back ?_⟩
    rw [heq, List.cons_append]
  · rintro ⟨hfirst, hrest⟩ front pair back heq
    cases front with
    | nil =>
      obtain ⟨rfl, rfl⟩ := List.cons.inj heq
      exact hfirst
    | cons other front => exact hrest front pair back (List.cons.inj heq).2

/-- For every key, the last pair is the last one with the property, just when no pair without it is the last of its
key. -/
theorem lookup_reverse_filter_iff (p : κ × ν → Bool) (pairs : List (κ × ν)) :
    (∀ k, pairs.reverse.lookup k = (pairs.filter p).reverse.lookup k) ↔ Followed p pairs := by
  induction pairs with
  | nil => exact iff_of_true (fun k => rfl) fun front pair back h => absurd h.symm (by simp)
  | cons first pairs ih =>
    have hgood {k : κ} : (pairs.filter p).reverse.lookup k ≠ none ↔ ∃ other ∈ pairs, p other = true ∧ other.1 = k := by
      rw [lookup_reverse_ne_none_iff]
      simp only [List.mem_filter, and_assoc]
    rw [followed_cons, ← ih]
    by_cases hfirst : p first = true
    · rw [List.filter_cons_of_pos hfirst]
      simp only [lookup_reverse_cons, hfirst, Bool.true_eq_false, false_imp_iff, true_and]
      refine ⟨fun h k => ?_, fun h k => by rw [h k]⟩
      replace h := h k
      by_cases hk : k = first.1
      · cases hall : pairs.reverse.lookup k with
        | none =>
          by_contra hne
          obtain ⟨other, hother, -, hkey⟩ := hgood.mp (Ne.symm hne)
          exact lookup_reverse_ne_none_iff.mpr ⟨other, hother, hkey⟩ hall
        | some v =>
          rw [hall, if_pos hk, Option.some_or] at h
          cases hgoods : (pairs.filter p).reverse.lookup k with
          | some w => rwa [hgoods, Option.some_or] at h
          | none =>
            -- the last pair is the first one over again, so it passes
            rw [hgoods, Option.none_or] at h
            have hmem : (k, v) ∈ pairs := List.mem_reverse.mp (mem_of_lookup hall)
            have hsame : (k, v) = first := Prod.ext hk (Option.some.inj h)
            exact absurd hgoods (hgood.mpr ⟨(k, v), hmem, hsame ▸ hfirst, rfl⟩)
      · simpa [hk] using h
    · rw [List.filter_cons_of_neg hfirst]
      simp only [lookup_reverse_cons, Bool.eq_false_of_not_eq_true hfirst, true_imp_iff]
      constructor
      · intro h
        have hsome : (pairs.filter p).reverse.lookup first.1 ≠ none := by
          rw [← h first.1, if_pos rfl]
          cases pairs.reverse.lookup first.1 <;> exact nofun
        refine ⟨hgood.mp hsome, fun k => ?_⟩
        by_cases hk : k = first.1
        · obtain ⟨other, hother, -, hkey⟩ := hgood.mp hsome
          have hall := lookup_reverse_ne_none_iff.mpr ⟨other, hother, hkey⟩
          obtain ⟨v, hv⟩ := Option.ne_none_iff_exists'.mp hall
          rw [hk, ← h first.1, hv, Option.some_or]
        · simpa [hk] using h k
      · rintro ⟨hother, h⟩ k
        rw [h k]
        by_cases hk : k = first.1
        · obtain ⟨v, hv⟩ := Option.ne_none_iff_exists'.mp (hgood.mpr hother)
          rw [hk, hv, Option.some_or]
        · rw [if_neg hk, Option.or_none]

/-! ## Sums over the values -/

section total
variable {M : Type} [AddCommMonoid M]

/-- The sum of a measure of the values. -/
def total (f : ν → M) (d : Dict κ ν) : M := (d.values.map f).sum

omit [DecidableEq κ] in
@[simp] theorem total_empty (f : ν → M) : (empty : Dict κ ν).total f = 0 := rfl

/-- The new value comes in, the one it replaces goes out. -/
theorem total_set (f : ν → M) (d : Dict κ ν) (k : κ) (v : ν) :
    (d.set k v).total f + (d.get? k).elim 0 f = d.total f + f v := by
  obtain ⟨entries, hnodup⟩ := d
  unfold total values set get?
  induction entries with
  | nil => simp [put]
  | cons entry entries ih =>
    dsimp only at ih ⊢
    rw [put]
    split_ifs with hkey
    · rw [List.lookup_cons, hkey, beq_self_eq_true]
      simp only [List.map_cons, List.sum_cons, Option.elim]
      abel
    · have hne : (k == entry.1) = false := beq_false_of_ne fun h => hkey h.symm
      rw [List.lookup_cons, hne]
      simp only [List.map_cons, List.sum_cons, add_assoc]
      rw [ih (List.nodup_cons.mp hnodup).2]

/-- One value and the others. -/
theorem total_erase (f : ν → M) (d : Dict κ ν) (k : κ) : (d.erase k).total f + (d.get? k).elim 0 f = d.total f := by
  obtain ⟨entries, hnodup⟩ := d
  unfold total values erase get?
  dsimp only
  induction entries with
  | nil => simp
  | cons entry entries ih =>
    obtain ⟨hnew, hrest⟩ := List.nodup_cons.mp hnodup
    by_cases hkey : entry.1 = k
    · have hothers : entries.filter (fun entry => entry.1 ≠ k) = entries := by
        apply List.filter_eq_self.mpr
        intro other hmem
        have hne : other.1 ≠ k := fun h => hnew (hkey.trans h.symm ▸ List.mem_map_of_mem hmem)
        exact decide_eq_true hne
      rw [List.filter_cons_of_neg (by simpa using hkey), hothers, List.lookup_cons, hkey, beq_self_eq_true]
      simp only [List.map_cons, List.sum_cons, Option.elim]
      abel
    · have hne : (k == entry.1) = false := beq_false_of_ne fun h => hkey h.symm
      rw [List.filter_cons_of_pos (by simpa using hkey), List.lookup_cons, hne]
      simp only [List.map_cons, List.sum_cons, add_assoc]
      rw [ih hrest]

/-- One value is no more than the sum. -/
theorem le_total [PartialOrder M] [IsOrderedAddMonoid M] {f : ν → M} {d : Dict κ ν} {k : κ} {v : ν}
    (hf : ∀ w, 0 ≤ f w) (h : d.get? k = some v) : f v ≤ d.total f := by
  apply List.single_le_sum
  · simpa using fun w _ => hf w
  · exact List.mem_map_of_mem (List.mem_map_of_mem (mem_of_lookup h))

end total

end Dict
