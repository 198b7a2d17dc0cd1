import Mathlib.Data.List.Sort
import Mathlib.Order.Basic
import Mathlib.Tactic

/-!
# Maps kept in the order of their keys

* `SortedMap` : entries with their keys ascending;
* `insert`, `ofEntries` : later entries replace earlier ones of the same key;
* `perm_ofEntries`, `ofEntries_entries` : entries whose keys come once; entries in order.
-/

@[ext]
structure SortedMap (κ ν : Type) [LinearOrder κ] where
  entries : List (κ × ν)
  sorted : (entries.map Prod.fst).Pairwise (· < ·)

namespace SortedMap

variable {κ ν : Type} [LinearOrder κ]

def insertEntry (k : κ) (v : ν) : List (κ × ν) → List (κ × ν)
  | [] => [(k, v)]
  | e :: es =>
    if k < e.1 then (k, v) :: e :: es
    else if e.1 < k then e :: insertEntry k v es
    else (k, v) :: es

theorem mem_keys_insertEntry {k x : κ} {v : ν} {es : List (κ × ν)}
    (h : x ∈ (insertEntry k v es).map Prod.fst) : x = k ∨ x ∈ es.map Prod.fst := by
  induction es with
  | nil => exact Or.inl (List.mem_singleton.mp h)
  | cons e es ih =>
    rw [List.map_cons, List.mem_cons]
    unfold insertEntry at h
    split_ifs at h
    · exact List.mem_cons.mp h |>.imp_right List.mem_cons.mp
    · rcases List.mem_cons.mp h with hx | hx
      · exact Or.inr (Or.inl hx)
      · exact (ih hx).imp_right Or.inr
    · exact (List.mem_cons.mp h).imp_right Or.inr

theorem sorted_insertEntry (k : κ) (v : ν) {es : List (κ × ν)} (h : (es.map Prod.fst).Pairwise (· < ·)) :
    ((insertEntry k v es).map Prod.fst).Pairwise (· < ·) := by
  induction es with
  | nil => exact List.pairwise_singleton _ k
  | cons e es ih =>
    obtain ⟨hfirst, hrest⟩ := List.pairwise_cons.mp h
    unfold insertEntry
    split_ifs with hlt hgt
    · refine List.pairwise_cons.mpr ⟨fun x hx => ?_, h⟩
      rcases List.mem_cons.mp hx with rfl | hx
      · exact hlt
      · exact hlt.trans (hfirst x hx)
    · refine List.pairwise_cons.mpr ⟨fun x hx => ?_, ih hrest⟩
      rcases mem_keys_insertEntry hx with rfl | hx
      · exact hgt
      · exact hfirst x hx
    · obtain rfl : k = e.1 := le_antisymm (not_lt.mp hgt) (not_lt.mp hlt)
      exact List.pairwise_cons.mpr ⟨hfirst, hrest⟩

/-- A new key adds its entry. -/
theorem perm_insertEntry {k : κ} (v : ν) {es : List (κ × ν)} (h : k ∉ es.map Prod.fst) :
    (insertEntry k v es).Perm ((k, v) :: es) := by
  induction es with
  | nil => exact List.Perm.refl _
  | cons e es ih =>
    rw [List.map_cons, List.mem_cons, not_or] at h
    unfold insertEntry
    split_ifs with hlt hgt
    · exact List.Perm.refl _
    · exact ((ih h.2).cons e).trans (List.Perm.swap _ _ _)
    · exact absurd (le_antisymm (not_lt.mp hgt) (not_lt.mp hlt)) h.1

/-- The greatest key comes last. -/
theorem insertEntry_last {k : κ} (v : ν) {es : List (κ × ν)} (h : ∀ x ∈ es.map Prod.fst, x < k) :
    insertEntry k v es = es ++ [(k, v)] := by
  induction es with
  | nil => rfl
  | cons e es ih =>
    rw [List.map_cons, List.forall_mem_cons] at h
    rw [insertEntry, if_neg h.1.not_gt, if_pos h.1, ih h.2, List.cons_append]

def empty : SortedMap κ ν := ⟨[], List.Pairwise.nil⟩

def insert (m : SortedMap κ ν) (k : κ) (v : ν) : SortedMap κ ν :=
  ⟨insertEntry k v m.entries, sorted_insertEntry k v m.sorted⟩

def ofEntries (es : List (κ × ν)) : SortedMap κ ν := es.foldl (fun m e => m.insert e.1 e.2) empty

theorem ofEntries_concat (es : List (κ × ν)) (e : κ × ν) : ofEntries (es ++ [e]) = (ofEntries es).insert e.1 e.2 :=
  List.foldl_concat _ _ _ _

theorem nodup (m : SortedMap κ ν) : (m.entries.map Prod.fst).Nodup := m.sorted.imp fun h => h.ne

/-- Entries whose keys come once are all there. -/
theorem perm_ofEntries {es : List (κ × ν)} (h : (es.map Prod.fst).Nodup) : (ofEntries es).entries.Perm es := by
  induction es using List.reverseRecOn with
  | nil => exact List.Perm.refl _
  | append_singleton es e ih =>
    rw [List.map_append, List.map_singleton] at h
    obtain ⟨hes, -, hdisjoint⟩ := List.nodup_append.mp h
    have hperm := ih hes
    have hnew : e.1 ∉ (ofEntries es).entries.map Prod.fst := by
      rw [(hperm.map Prod.fst).mem_iff]
      exact fun hmem => hdisjoint _ hmem _ (List.mem_singleton_self _) rfl
    rw [ofEntries_concat]
    exact ((perm_insertEntry e.2 hnew).trans (hperm.cons e)).trans (List.perm_append_singleton e es).symm

/-- Entries in order stay as they are. -/
theorem ofEntries_entries (m : SortedMap κ ν) : ofEntries m.entries = m := by
  obtain ⟨es, hsorted⟩ := m
  apply SortedMap.ext
  show (ofEntries es).entries = es
  induction es using List.reverseRecOn with
  | nil => rfl
  | append_singleton es e ih =>
    rw [List.map_append, List.map_singleton, List.pairwise_append] at hsorted
    have hfront := ih hsorted.1
    rw [ofEntries_concat]
    show insertEntry e.1 e.2 (ofEntries es).entries = es ++ [e]
    rw [hfront]
    exact insertEntry_last e.2 fun x hx => hsorted.2.2 x hx e.1 (List.mem_singleton_self _)

end SortedMap
