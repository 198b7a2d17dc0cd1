import Mathlib.Data.List.Infix
import Mathlib.Data.List.Perm.Basic
import Mathlib.Tactic

/-!
# Replacing patterns in a text

* `substitute` : every pattern by its value in one pass over the text; `replace` : one pattern;
* `scan_induction` : the cases of a pass;
* `Meets` : two texts can share a place; `Spares` : the places of a rule are the same before and after another one;
* `replace_substitute`, `foldl_replace` : one pass after the other comes to a pass with all the rules;
* `substitute_perm` : the order of the rules;
* `value_eq_of_replace_eq` : a rule that changes nothing; `exists_frame` : texts that meet in a place.
-/

namespace Replace

variable {α : Type*}

structure Rule (α : Type*) where
  pattern : List α
  value : List α
  pattern_ne : pattern ≠ []

/-- One text is inside the other, or an end of one is a beginning of the other. -/
def Meets (s t : List α) : Prop :=
  s <:+: t ∨ t <:+: s ∨ (∃ m ∈ s.tails, m ≠ [] ∧ m <+: t) ∨ ∃ m ∈ t.tails, m ≠ [] ∧ m <+: s

/-- What `q` takes away has no part in a place of `r`, and what it puts there makes none. -/
def Spares (q r : Rule α) : Prop :=
  ¬ Meets q.pattern r.pattern ∧ (r.value ≠ r.pattern → ¬ Meets q.value r.pattern)

theorem Meets.symm {s t : List α} (h : Meets s t) : Meets t s := by
  obtain h | h | h | h := h
  · exact .inr (.inl h)
  · exact .inl h
  · exact .inr (.inr (.inr h))
  · exact .inr (.inr (.inl h))

theorem meets_of_prefix_append {s t m rest : List α} (hm : m ≠ []) (hs : m <:+ s) (h : t <+: m ++ rest) :
    Meets s t := by
  obtain h | h := List.prefix_or_prefix_of_prefix h (List.prefix_append m rest)
  · exact .inr (.inl (h.isInfix.trans hs.isInfix))
  · exact .inr (.inr (.inl ⟨m, (List.mem_tails _ _).mpr hs, hm, h⟩))

theorem meets_of_front {s t m rest : List α} (hm : m ≠ []) (ht : m <:+ t) (h : m <+: s ++ rest) :
    Meets s t := by
  obtain h | h := List.prefix_or_prefix_of_prefix h (List.prefix_append s rest)
  · exact .inr (.inr (.inr ⟨m, (List.mem_tails _ _).mpr ht, hm, h⟩))
  · exact .inl (h.isInfix.trans ht.isInfix)

/-- Texts that meet are in a place together, between a beginning and an end of the second one. -/
theorem exists_frame {s t : List α} (h : Meets s t) (ht : 2 ≤ t.length) :
    ∃ x y, x <+: t ∧ x ≠ t ∧ y <:+ t ∧ y ≠ t ∧ t <:+: x ++ s ++ y := by
  have hne : ∀ {x : List α}, x.length < t.length → x ≠ t := fun hlt heq => by
    rw [heq] at hlt
    exact lt_irrefl _ hlt
  have hnil : ([] : List α) ≠ t := hne (by rw [List.length_nil]; omega)
  obtain ⟨x, y, hxy⟩ | h | ⟨m, hm, hmne, y, hy⟩ | ⟨m, hm, hmne, hpre⟩ := h
  · have hlen : x.length + s.length + y.length = t.length := by rw [← hxy, List.length_append, List.length_append]
    by_cases hall : x.length < t.length ∧ y.length < t.length
    · refine ⟨x, y, ?_, hne hall.1, ?_, hne hall.2, hxy ▸ List.infix_rfl⟩
      · exact ⟨s ++ y, by rw [← List.append_assoc]; exact hxy⟩
      · exact ⟨x ++ s, hxy⟩
    · obtain rfl : s = [] := List.length_eq_zero_iff.mp (by omega)
      refine ⟨t.take 1, t.drop 1, List.take_prefix .., hne ?_, List.drop_suffix .., hne ?_, ?_⟩
      · rw [List.length_take]
        omega
      · rw [List.length_drop]
        omega
      · rw [List.append_nil, List.take_append_drop]
  · exact ⟨[], [], List.nil_prefix, hnil, List.nil_suffix, hnil, by simpa using h⟩
  · obtain ⟨w, rfl⟩ := (List.mem_tails _ _).mp hm
    refine ⟨[], y, List.nil_prefix, hnil, ⟨m, hy⟩, hne ?_, ⟨w, [], ?_⟩⟩
    · have := List.length_pos_iff.mpr hmne
      rw [← hy, List.length_append]
      omega
    · rw [← hy]
      simp
  · obtain ⟨w, rfl⟩ := hpre
    obtain ⟨x, hx⟩ := (List.mem_tails _ _).mp hm
    refine ⟨x, [], ⟨m, hx⟩, hne ?_, List.nil_suffix, hnil, ⟨[], w, ?_⟩⟩
    · have := List.length_pos_iff.mpr hmne
      rw [← hx, List.length_append]
      omega
    · rw [← hx]
      simp

variable [DecidableEq α]

instance (s t : List α) : Decidable (Meets s t) := inferInstanceAs (Decidable (_ ∨ _))

instance (q r : Rule α) : Decidable (Spares q r) := inferInstanceAs (Decidable (_ ∧ _))

/-- The first rule whose pattern the text begins with. -/
def found (rules : List (Rule α)) (text : List α) : Option (Rule α) := rules.find? fun r => r.pattern <+: text

/-- The number is of characters to pass over. -/
def substituteFrom (rules : List (Rule α)) : ℕ → List α → List α
  | _, [] => []
  | skip + 1, _ :: text => substituteFrom rules skip text
  | 0, c :: text =>
    match found rules (c :: text) with
    | some r => r.value ++ substituteFrom rules (r.pattern.length - 1) text
    | none => c :: substituteFrom rules 0 text

def substitute (rules : List (Rule α)) (text : List α) : List α := substituteFrom rules 0 text

/-- All places of one pattern, from left to right. -/
def replace (r : Rule α) (text : List α) : List α := substitute [r] text

/-! ## A pass -/

theorem found_some {rules : List (Rule α)} {text : List α} {r : Rule α} (h : found rules text = some r) :
    r ∈ rules ∧ r.pattern <+: text :=
  ⟨List.mem_of_find?_eq_some h, by simpa using List.find?_some h⟩

theorem found_none {rules : List (Rule α)} {text : List α} :
    found rules text = none ↔ ∀ r ∈ rules, ¬ r.pattern <+: text := by
  simp [found]

theorem found_append (rules others : List (Rule α)) (text : List α) :
    found (rules ++ others) text = (found rules text).or (found others text) := List.find?_append

theorem substituteFrom_drop (rules : List (Rule α)) (skip : ℕ) (text : List α) :
    substituteFrom rules skip text = substitute rules (text.drop skip) := by
  induction skip generalizing text with
  | zero => rfl
  | succ skip ih =>
    cases text with
    | nil => rfl
    | cons c text => exact ih text

@[simp] theorem substitute_nil (rules : List (Rule α)) : substitute rules [] = [] := rfl

theorem substitute_cons {rules : List (Rule α)} {c : α} {text : List α} (h : found rules (c :: text) = none) :
    substitute rules (c :: text) = c :: substitute rules text := by
  rw [substitute, substituteFrom, h]
  rfl

theorem substitute_found {rules : List (Rule α)} {r : Rule α} {text : List α}
    (h : found rules (r.pattern ++ text) = some r) :
    substitute rules (r.pattern ++ text) = r.value ++ substitute rules text := by
  obtain ⟨c, rest, hpattern⟩ := List.exists_cons_of_ne_nil r.pattern_ne
  rw [hpattern, List.cons_append] at h ⊢
  rw [substitute, substituteFrom, h]
  show r.value ++ substituteFrom rules (r.pattern.length - 1) (rest ++ text) = _
  rw [substituteFrom_drop, hpattern, List.length_cons, Nat.add_sub_cancel, List.drop_left]

/-- A pass comes to the end, to a character that no pattern begins at, or to the pattern of a rule. -/
theorem scan_induction (rules : List (Rule α)) {motive : List α → Prop} (nil : motive [])
    (literal : ∀ c text, found rules (c :: text) = none → motive text → motive (c :: text))
    (pattern : ∀ r text, found rules (r.pattern ++ text) = some r → motive text → motive (r.pattern ++ text))
    (text : List α) : motive text := by
  induction hlen : text.length using Nat.strong_induction_on generalizing text with
  | _ n ih =>
    subst hlen
    cases text with
    | nil => exact nil
    | cons c text =>
      cases hfound : found rules (c :: text) with
      | none => exact literal c text hfound (ih text.length (Nat.lt_succ_self _) text rfl)
      | some r =>
        obtain ⟨-, rest, hrest⟩ := found_some hfound
        rw [← hrest] at hfound ⊢
        refine pattern r rest hfound (ih rest.length ?_ rest rfl)
        have := List.length_pos_iff.mpr r.pattern_ne
        rw [← hrest, List.length_append]
        omega

/-- A part where no place begins stays. -/
theorem substitute_append {rules : List (Rule α)} {s text : List α}
    (h : ∀ m, m ≠ [] → m <:+ s → found rules (m ++ text) = none) :
    substitute rules (s ++ text) = s ++ substitute rules text := by
  induction s with
  | nil => rfl
  | cons c s ih =>
    have hhead := h (c :: s) (List.cons_ne_nil _ _) List.suffix_rfl
    rw [List.cons_append] at hhead ⊢
    rw [substitute_cons hhead, ih fun m hm hs => h m hm (hs.trans (List.suffix_cons c s))]
    rfl

theorem substitute_eq_self {rules : List (Rule α)} {text : List α}
    (h : ∀ m, m ≠ [] → m <:+ text → found rules m = none) : substitute rules text = text := by
  have happend := @substitute_append α _ rules text [] fun m hm hs => by rw [List.append_nil]; exact h m hm hs
  simpa using happend

theorem replace_identity {r : Rule α} (h : r.value = r.pattern) (text : List α) : replace r text = text := by
  induction text using scan_induction [r] with
  | nil => rfl
  | literal c text hnone ih => rw [replace, substitute_cons hnone, ← replace, ih]
  | pattern q text hsome ih =>
    obtain rfl := List.mem_singleton.mp (found_some hsome).1
    rw [replace, substitute_found hsome, ← replace, ih, h]

/-! ## One pass after the other -/

/-- A part of the pattern `r` in front of a result was there before. -/
theorem prefix_of_prefix_substitute {rules : List (Rule α)} {r : Rule α}
    (h : ∀ q ∈ rules, ¬ Meets q.value r.pattern) {text m : List α} (hm : m <:+ r.pattern)
    (hpre : m <+: substitute rules text) : m <+: text := by
  induction text using scan_induction rules generalizing m with
  | nil => exact hpre
  | literal c text hnone ih =>
    rw [substitute_cons hnone] at hpre
    obtain rfl | ⟨rest, rfl, hrest⟩ := List.prefix_cons_iff.mp hpre
    · exact List.nil_prefix
    · exact List.prefix_cons_iff.mpr (.inr ⟨rest, rfl, ih ((List.suffix_cons c rest).trans hm) hrest⟩)
  | pattern q text hsome ih =>
    rw [substitute_found hsome] at hpre
    by_cases hnil : m = []
    · rw [hnil]
      exact List.nil_prefix
    · exact absurd (meets_of_front hnil hm hpre) (h q (found_some hsome).1)

/-- No pattern begins inside a text that meets none of them. -/
theorem found_eq_none {rules : List (Rule α)} {s m rest : List α} (h : ∀ q ∈ rules, ¬ Meets q.pattern s)
    (hm : m ≠ []) (hs : m <:+ s) : found rules (m ++ rest) = none :=
  found_none.mpr fun q hq hpre => h q hq (meets_of_prefix_append hm hs hpre).symm

/-- A reader that takes the value for the pattern does not notice the last rule. -/
theorem foldl_substitute_append {β : Type*} (f : β → α → β) {rules : List (Rule α)} {r : Rule α}
    (h : ∀ q ∈ rules, ¬ Meets q.pattern r.pattern) (hr : ∀ b, r.value.foldl f b = r.pattern.foldl f b)
    (text : List α) (b : β) : (substitute (rules ++ [r]) text).foldl f b = (substitute rules text).foldl f b := by
  induction text using scan_induction (rules ++ [r]) generalizing b with
  | nil => rfl
  | literal c text hnone ih =>
    have hrules := hnone
    rw [found_append, Option.or_eq_none_iff] at hrules
    rw [substitute_cons hnone, substitute_cons hrules.1, List.foldl_cons, List.foldl_cons, ih]
  | pattern q text hsome ih =>
    rw [substitute_found hsome, List.foldl_append, ih]
    rw [found_append, Option.or_eq_some_iff] at hsome
    obtain hrules | ⟨-, hlast⟩ := hsome
    · rw [substitute_found hrules, List.foldl_append]
    · obtain rfl := List.mem_singleton.mp (found_some hlast).1
      rw [substitute_append fun m hm hs => found_eq_none h hm hs, List.foldl_append, hr]

theorem substitute_append_identity {rules : List (Rule α)} {r : Rule α}
    (h : ∀ q ∈ rules, ¬ Meets q.pattern r.pattern) (hr : r.value = r.pattern) (text : List α) :
    substitute (rules ++ [r]) text = substitute rules text := by
  have hread := foldl_substitute_append (fun all c => c :: all) h (fun b => by rw [hr]) text []
  simpa using hread

/-- A rule after the others is one of them, when they spare it. -/
theorem replace_substitute {rules : List (Rule α)} {r : Rule α} (h : ∀ q ∈ rules, Spares q r) (text : List α) :
    replace r (substitute rules text) = substitute (rules ++ [r]) text := by
  have hpattern : ∀ q ∈ rules, ¬ Meets q.pattern r.pattern := fun q hq => (h q hq).1
  by_cases hr : r.value = r.pattern
  · rw [replace_identity hr, substitute_append_identity hpattern hr]
  have hvalue : ∀ q ∈ rules, ¬ Meets q.value r.pattern := fun q hq => (h q hq).2 hr
  induction text using scan_induction (rules ++ [r]) with
  | nil => rfl
  | literal c text hnone ih =>
    have hboth := hnone
    rw [found_append, Option.or_eq_none_iff] at hboth
    -- a place of `r` here would have been one before
    have hplace : found [r] (c :: substitute rules text) = none := by
      rw [← substitute_cons hboth.1, found_none]
      intro q hq hpre
      obtain rfl := List.mem_singleton.mp hq
      exact found_none.mp hboth.2 q hq (prefix_of_prefix_substitute hvalue List.suffix_rfl hpre)
    rw [substitute_cons hnone, substitute_cons hboth.1, replace, substitute_cons hplace, ← replace, ih]
  | pattern q text hsome ih =>
    rw [substitute_found hsome, ← ih]
    rw [found_append, Option.or_eq_some_iff] at hsome
    obtain hrules | ⟨-, hlast⟩ := hsome
    · have hq := hvalue q (found_some hrules).1
      rw [substitute_found hrules]
      refine substitute_append fun m hm hs => found_none.mpr fun q' hq' hpre => ?_
      obtain rfl := List.mem_singleton.mp hq'
      exact hq (meets_of_prefix_append hm hs hpre)
    · obtain rfl := List.mem_singleton.mp (found_some hlast).1
      rw [substitute_append fun m hm hs => found_eq_none hpattern hm hs]
      refine substitute_found ?_
      simp [found]

/-- The rules one after the other are one pass. -/
theorem foldl_replace {rules : List (Rule α)} (h : rules.Pairwise Spares) (text : List α) :
    rules.foldl (fun result r => replace r result) text = substitute rules text := by
  induction rules using List.reverseRecOn with
  | nil => exact (substitute_eq_self fun m _ _ => rfl).symm
  | append_singleton rules r ih =>
    obtain ⟨hrules, -, hlast⟩ := List.pairwise_append.mp h
    rw [List.foldl_append, ih hrules]
    exact replace_substitute (fun q hq => hlast q hq r (List.mem_singleton_self r)) text

/-- At most one pattern begins anywhere. -/
theorem found_iff {rules : List (Rule α)} (h : ∀ q ∈ rules, ∀ r ∈ rules, q ≠ r → ¬ Meets q.pattern r.pattern)
    {text : List α} {r : Rule α} : found rules text = some r ↔ r ∈ rules ∧ r.pattern <+: text := by
  refine ⟨found_some, fun ⟨hr, hpre⟩ => ?_⟩
  cases hfound : found rules text with
  | none => exact absurd hpre (found_none.mp hfound r hr)
  | some q =>
    obtain ⟨hq, hpre'⟩ := found_some hfound
    by_contra hne
    refine h q hq r hr (fun heq => hne (congrArg some heq)) ?_
    obtain hsub | hsub := List.prefix_or_prefix_of_prefix hpre' hpre
    · exact .inl hsub.isInfix
    · exact .inr (.inl hsub.isInfix)

theorem substitute_perm {rules others : List (Rule α)} (hperm : rules.Perm others)
    (h : ∀ q ∈ rules, ∀ r ∈ rules, q ≠ r → ¬ Meets q.pattern r.pattern) (text : List α) :
    substitute rules text = substitute others text := by
  have hfound : ∀ text, found rules text = found others text := fun text => by
    ext r
    rw [found_iff h, found_iff fun q hq r hr => h q (hperm.mem_iff.mpr hq) r (hperm.mem_iff.mpr hr), hperm.mem_iff]
  induction text using scan_induction rules with
  | nil => rfl
  | literal c text hnone ih => rw [substitute_cons hnone, substitute_cons (hfound _ ▸ hnone), ih]
  | pattern r text hsome ih => rw [substitute_found hsome, substitute_found (hfound _ ▸ hsome), ih]

theorem foldl_replace_self {β : Type*} (f : β → α → β) {r : Rule α}
    (hr : ∀ b, r.value.foldl f b = r.pattern.foldl f b) (text : List α) (b : β) :
    (replace r text).foldl f b = text.foldl f b := by
  have hread := @foldl_substitute_append α _ β f [] r (fun q hq => nomatch hq) hr text b
  rwa [show substitute [] text = text from substitute_eq_self fun m _ _ => rfl] at hread

/-- Nor does the reader notice it in front of another replacement. -/
theorem foldl_replace_replace {β : Type*} (f : β → α → β) {q r : Rule α} (h : Spares q r)
    (hq : ∀ b, q.value.foldl f b = q.pattern.foldl f b) (text : List α) (b : β) :
    (replace r (replace q text)).foldl f b = (replace r text).foldl f b := by
  have hpass : replace r (replace q text) = substitute [q, r] text :=
    replace_substitute (fun q' hq' => List.mem_singleton.mp hq' ▸ h) text
  have hswap : substitute [q, r] text = substitute ([r] ++ [q]) text := by
    refine substitute_perm (List.Perm.swap r q []) (fun s hs t ht hne => ?_) text
    rw [List.mem_pair] at hs ht
    obtain rfl | rfl := hs <;> obtain rfl | rfl := ht
    · exact absurd rfl hne
    · exact h.1
    · exact fun hm => h.1 hm.symm
    · exact absurd rfl hne
  rw [hpass, hswap]
  refine foldl_substitute_append f (fun s hs hm => ?_) hq text b
  rw [List.mem_singleton.mp hs] at hm
  exact h.1 hm.symm

/-- A character that no pattern has parts a text. -/
theorem substitute_split {rules : List (Rule α)} {c : α} (h : ∀ r ∈ rules, c ∉ r.pattern) (text rest : List α) :
    substitute rules (text ++ c :: rest) = substitute rules text ++ c :: substitute rules rest := by
  have hpre : ∀ {r : Rule α} {s : List α}, r ∈ rules → (r.pattern <+: s ++ c :: rest ↔ r.pattern <+: s) := by
    intro r s hr
    refine ⟨fun hp => ?_, fun hp => hp.trans (List.prefix_append ..)⟩
    obtain hs | ⟨u, hu⟩ := List.prefix_or_prefix_of_prefix hp (List.prefix_append s (c :: rest))
    · exact hs
    · rw [← hu, List.prefix_append_right_inj] at hp
      obtain rfl | ⟨v, rfl, -⟩ := List.prefix_cons_iff.mp hp
      · rw [← hu, List.append_nil]
      · refine absurd ?_ (h r hr)
        rw [← hu]
        exact List.mem_append_right _ (List.mem_cons_self ..)
  have hfound : ∀ s, found rules (s ++ c :: rest) = found rules s := by
    intro s
    refine List.find?_congr fun r hr => ?_
    rw [decide_eq_decide]
    exact hpre hr
  induction text using scan_induction rules with
  | nil =>
    have hnone : found rules (c :: rest) = none := (hfound []).trans (found_none.mpr fun r _ hp =>
      r.pattern_ne (List.prefix_nil.mp hp))
    exact substitute_cons hnone
  | literal d text hnone ih =>
    have hnone' : found rules (d :: (text ++ c :: rest)) = none := (hfound (d :: text)).trans hnone
    rw [List.cons_append, substitute_cons hnone', substitute_cons hnone, ih, List.cons_append]
  | pattern r text hsome ih =>
    have hsome' : found rules (r.pattern ++ (text ++ c :: rest)) = some r := by
      rw [← List.append_assoc, hfound, hsome]
    rw [List.append_assoc, substitute_found hsome', substitute_found hsome, ih, List.append_assoc]

/-! ## A rule that changes nothing -/

theorem length_replace_le {r : Rule α} (h : r.value.length ≤ r.pattern.length) (text : List α) :
    (replace r text).length ≤ text.length := by
  induction text using scan_induction [r] with
  | nil => exact le_refl _
  | literal c text hnone ih =>
    rw [replace, substitute_cons hnone, ← replace, List.length_cons, List.length_cons]
    omega
  | pattern q text hsome ih =>
    obtain rfl := List.mem_singleton.mp (found_some hsome).1
    rw [replace, substitute_found hsome, ← replace, List.length_append, List.length_append]
    omega

theorem le_length_replace {r : Rule α} (h : r.pattern.length ≤ r.value.length) (text : List α) :
    text.length ≤ (replace r text).length := by
  induction text using scan_induction [r] with
  | nil => exact le_refl _
  | literal c text hnone ih =>
    rw [replace, substitute_cons hnone, ← replace, List.length_cons, List.length_cons]
    omega
  | pattern q text hsome ih =>
    obtain rfl := List.mem_singleton.mp (found_some hsome).1
    rw [replace, substitute_found hsome, ← replace, List.length_append, List.length_append]
    omega

/-- Where a pattern has a place and nothing changes, its value is the pattern itself. -/
theorem value_eq_of_replace_eq {r : Rule α} {text : List α} (h : replace r text = text)
    (hin : r.pattern <:+: text) : r.value = r.pattern := by
  induction text using scan_induction [r] with
  | nil => exact absurd (List.infix_nil.mp hin) r.pattern_ne
  | literal c text hnone ih =>
    rw [replace, substitute_cons hnone, ← replace] at h
    obtain hpre | hrest := List.infix_cons_iff.mp hin
    · exact absurd hpre (found_none.mp hnone r (List.mem_singleton_self r))
    · exact ih (List.cons.inj h).2 hrest
  | pattern q text hsome ih =>
    obtain rfl := List.mem_singleton.mp (found_some hsome).1
    rw [replace, substitute_found hsome, ← replace] at h
    have hlen := congrArg List.length h
    rw [List.length_append, List.length_append] at hlen
    refine (List.append_inj h ?_).1
    -- a longer or shorter value would make all of the text longer or shorter
    obtain hlt | heq | hgt := lt_trichotomy q.value.length q.pattern.length
    · have := length_replace_le hlt.le text
      omega
    · exact heq
    · have := le_length_replace hgt.le text
      omega

end Replace
