import Mathlib.Data.List.Pairwise
import Mathlib.Data.List.DropRight
import Mathlib.Tactic

/-!
# What lies inside nothing else

* `Outermost.select` : the elements of a list, one after the other, without those that lie inside one kept before;
* `exists_mem_select` : every element is kept, or lies inside a kept one;
* `select_eq_filter` : if no element lies inside a later one, just those are kept that lie inside no other at all.
-/

namespace Outermost

variable {α : Type} (inside : α → α → Prop) [DecidableRel inside]

def keep (selected : List α) (a : α) : List α := if selected.any fun b => inside a b then selected else selected ++ [a]

def select (as : List α) : List α := as.foldl (keep inside) []

theorem select_concat (as : List α) (a : α) : select inside (as ++ [a]) = keep inside (select inside as) a :=
  List.foldl_concat ..

variable {inside}

theorem mem_of_mem_keep {selected : List α} {a b : α} (h : b ∈ keep inside selected a) : b ∈ selected ∨ b = a := by
  unfold keep at h
  split_ifs at h
  · exact Or.inl h
  · rwa [List.mem_append, List.mem_singleton] at h

theorem mem_keep_of_mem {selected : List α} (a : α) {b : α} (h : b ∈ selected) : b ∈ keep inside selected a := by
  unfold keep
  split_ifs
  · exact h
  · exact List.mem_append_left _ h

theorem select_subset (as : List α) : select inside as ⊆ as := by
  induction as using List.reverseRecOn with
  | nil => exact List.Subset.refl _
  | append_singleton as a ih =>
    intro b hb
    rw [select_concat] at hb
    rcases mem_of_mem_keep hb with hb | rfl
    · exact List.mem_append_left _ (ih hb)
    · exact List.mem_append_right _ (List.mem_singleton_self _)

variable (inside) in
theorem exists_mem_select {as : List α} {a : α} (h : a ∈ as) : ∃ b ∈ select inside as, a = b ∨ inside a b := by
  induction as using List.reverseRecOn with
  | nil => exact absurd h List.not_mem_nil
  | append_singleton as c ih =>
    rw [select_concat]
    rcases List.mem_append.mp h with h | h
    · obtain ⟨b, hb, hab⟩ := ih h
      exact ⟨b, mem_keep_of_mem c hb, hab⟩
    · obtain rfl := List.mem_singleton.mp h
      by_cases hany : (select inside as).any fun b => inside a b
      · obtain ⟨b, hb, hab⟩ := List.any_eq_true.mp hany
        exact ⟨b, mem_keep_of_mem a hb, Or.inr (of_decide_eq_true hab)⟩
      · refine ⟨a, ?_, Or.inl rfl⟩
        rw [keep, if_neg hany]
        exact List.mem_append_right _ (List.mem_singleton_self _)

/-- An element lies inside a kept one as soon as it lies inside any. -/
theorem any_select (htrans : ∀ a b c, inside a b → inside b c → inside a c) (as : List α) (a : α) :
    ((select inside as).any fun b => inside a b) = as.any fun b => inside a b := by
  rw [Bool.eq_iff_iff, List.any_eq_true, List.any_eq_true]
  constructor
  · rintro ⟨b, hb, hab⟩
    exact ⟨b, select_subset as hb, hab⟩
  · rintro ⟨b, hb, hab⟩
    obtain ⟨c, hc, rfl | hbc⟩ := exists_mem_select inside hb
    · exact ⟨b, hc, hab⟩
    · exact ⟨c, hc, decide_eq_true (htrans a b c (of_decide_eq_true hab) hbc)⟩

theorem select_eq_filter (htrans : ∀ a b c, inside a b → inside b c → inside a c) (hirrefl : ∀ a, ¬ inside a a)
    {as : List α} (hsorted : as.Pairwise fun a b => ¬ inside a b) :
    select inside as = as.filter fun a => !as.any fun b => inside a b := by
  induction as using List.reverseRecOn with
  | nil => rfl
  | append_singleton as c ih =>
    obtain ⟨hsorted, -, hlast⟩ := List.pairwise_append.mp hsorted
    have hbefore (a : α) (ha : a ∈ as) :
        ((as ++ [c]).any fun b => inside a b) = as.any fun b => inside a b := by
      simp [hlast a ha c (List.mem_singleton_self c)]
    have hfront : (as.filter fun a => !(as ++ [c]).any fun b => inside a b) =
        as.filter fun a => !as.any fun b => inside a b := List.filter_congr fun a ha => by rw [hbefore a ha]
    have hself : ((as ++ [c]).any fun b => inside c b) = as.any fun b => inside c b := by simp [hirrefl c]
    rw [select_concat, keep, any_select htrans, List.filter_append, ih hsorted, hfront]
    by_cases hany : as.any fun b => inside c b
    · rw [if_pos hany, List.filter_cons_of_neg (by rw [hself, hany]; decide), List.filter_nil, List.append_nil]
    · rw [if_neg hany, List.filter_cons_of_pos (by rw [hself, Bool.eq_false_of_not_eq_true hany]; rfl), List.filter_nil]

end Outermost
