import Mathlib.Data.List.Perm.Subperm
import Mathlib.Data.List.Sort

/-!
# Entries at places of a list

* `subperm_of_places` : entries from places of their own are no more than the list has;
* `sublist_of_places` : from ascending places, they stand in the order of the list.
-/

namespace Places

variable {α : Type} {xs : List (Nat × α)} {ys : List α}

theorem filterMap_range (ys : List α) : (List.range ys.length).filterMap (ys[·]?) = ys := by
  induction ys with
  | nil => rfl
  | cons y ys ih =>
    have htail : (fun p : Nat => (y :: ys)[p]?) ∘ Nat.succ = (ys[·]?) := by
      funext p
      exact List.getElem?_cons_succ
    rw [List.length_cons, List.range_succ_eq_map, List.filterMap_cons_some List.getElem?_cons_zero,
      List.filterMap_map, htail, ih]

theorem filterMap_places (h : ∀ x ∈ xs, ys[x.1]? = some x.2) :
    (xs.map Prod.fst).filterMap (ys[·]?) = xs.map Prod.snd := by
  induction xs with
  | nil => rfl
  | cons x xs ih =>
    obtain ⟨hx, hxs⟩ := List.forall_mem_cons.mp h
    rw [List.map_cons, List.filterMap_cons_some hx, ih hxs, List.map_cons]

theorem subperm_range (h : ∀ x ∈ xs, ys[x.1]? = some x.2) (hnodup : (xs.map Prod.fst).Nodup) :
    (xs.map Prod.fst).Subperm (List.range ys.length) := by
  apply hnodup.subperm
  intro p hp
  obtain ⟨x, hx, rfl⟩ := List.mem_map.mp hp
  exact List.mem_range.mpr (List.getElem?_eq_some_iff.mp (h x hx)).1

theorem subperm_of_places (h : ∀ x ∈ xs, ys[x.1]? = some x.2) (hnodup : (xs.map Prod.fst).Nodup) :
    (xs.map Prod.snd).Subperm ys := by
  obtain ⟨places, hperm, hsub⟩ := subperm_range h hnodup
  have hentries := hperm.filterMap (ys[·]?)
  rw [filterMap_places h] at hentries
  have hlist := hsub.filterMap (ys[·]?)
  rw [filterMap_range] at hlist
  exact ⟨_, hentries, hlist⟩

theorem sublist_of_places (h : ∀ x ∈ xs, ys[x.1]? = some x.2) (hascending : xs.Pairwise fun x y => x.1 < y.1) :
    (xs.map Prod.snd).Sublist ys := by
  have hplaces : (xs.map Prod.fst).Pairwise (· < ·) := List.pairwise_map.mpr hascending
  have hsub := List.sublist_of_subperm_of_pairwise (subperm_range h (hplaces.imp Nat.ne_of_lt)) hplaces
    List.pairwise_lt_range
  have hlist := hsub.filterMap (ys[·]?)
  rwa [filterMap_places h, filterMap_range] at hlist

end Places
