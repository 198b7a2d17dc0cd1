import Atlas.Lib.Replace

/-!
# Templates: `tools/specgen/src/template.rs`

* `render` : the placeholders of the entries, one entry after the other, in the order of the map's iteration;
* `Vars` : a map of variables; an order of iteration is a permutation of its entries;
* `RendersAtOnce` : every order gives what one pass over the template gives;
* `Separate` : no entry takes part in a placeholder of another one; `render_separate`;
* `rendersAtOnce_iff` : the maps that render at once.
-/

namespace Atlas.Specgen
open Replace

abbrev Text := List Char

/-- `format!("{{{}}}", key)` -/
def placeholder (key : Text) : Text := '{' :: (key ++ ['}'])

theorem placeholder_ne_nil (key : Text) : placeholder key ≠ [] := List.cons_ne_nil _ _

/-- `result.replace(&placeholder, value)` -/
def rule (entry : Text × Text) : Rule Char := ⟨placeholder entry.1, entry.2, placeholder_ne_nil entry.1⟩

def render (template : Text) (vars : List (Text × Text)) : Text :=
  vars.foldl (fun result entry => replace (rule entry) result) template

/-- `HashMap<String, String>` -/
structure Vars where
  entries : List (Text × Text)
  nodup : (entries.map Prod.fst).Nodup

/-- The placeholders of the template itself, each by its value. -/
def Vars.substitute (vars : Vars) (template : Text) : Text := Replace.substitute (vars.entries.map rule) template

def RendersAtOnce (vars : Vars) : Prop :=
  ∀ template order, order.Perm vars.entries → render template order = vars.substitute template

/-- The replacement of an entry leaves the placeholders of the others as they are. -/
def Separate (vars : Vars) : Prop :=
  ∀ a ∈ vars.entries, ∀ b ∈ vars.entries, a.1 ≠ b.1 → Spares (rule a) (rule b)

instance (vars : Vars) : Decidable (Separate vars) :=
  inferInstanceAs (Decidable (∀ a ∈ vars.entries, ∀ b ∈ vars.entries, a.1 ≠ b.1 → Spares (rule a) (rule b)))

example : render "{owner}, {purpose}".toList [("owner".toList, "core".toList), ("purpose".toList, "data".toList)]
    = "core, data".toList := by decide

/-! ## Maps that are separate -/

theorem render_eq_foldl (template : Text) (vars : List (Text × Text)) :
    render template vars = (vars.map rule).foldl (fun result r => replace r result) template := by
  rw [render, List.foldl_map]

theorem render_append (template : Text) (vars others : List (Text × Text)) :
    render template (vars ++ others) = render (render template vars) others := List.foldl_append

/-- Entries with one key are one entry. -/
theorem Vars.ext_key {vars : Vars} {a b : Text × Text} (ha : a ∈ vars.entries) (hb : b ∈ vars.entries)
    (h : a.1 = b.1) : a = b := List.inj_on_of_nodup_map vars.nodup ha hb h

theorem render_separate {vars : Vars} (h : Separate vars) : RendersAtOnce vars := by
  intro template order horder
  have hnodup : (order.map Prod.fst).Nodup := (horder.map Prod.fst).nodup_iff.mpr vars.nodup
  have hpairs : (order.map rule).Pairwise Spares := by
    refine List.pairwise_map.mpr ((List.pairwise_map.mp hnodup).imp_of_mem fun ha hb hne => ?_)
    exact h _ (horder.mem_iff.mp ha) _ (horder.mem_iff.mp hb) hne
  rw [render_eq_foldl, foldl_replace hpairs]
  refine substitute_perm (horder.map rule) (fun q hq r hr hne => ?_) template
  obtain ⟨a, ha, rfl⟩ := List.mem_map.mp hq
  obtain ⟨b, hb, rfl⟩ := List.mem_map.mp hr
  have ha' := horder.mem_iff.mp ha
  have hb' := horder.mem_iff.mp hb
  have hkey : a.1 ≠ b.1 := fun heq => hne (congrArg rule (vars.ext_key ha' hb' heq))
  exact (h a ha' b hb' hkey).1

/-! ## Keys without braces -/

/-- A variable's name has no brace. -/
def Plain (key : Text) : Prop := '{' ∉ key ∧ '}' ∉ key

instance (key : Text) : Decidable (Plain key) := inferInstanceAs (Decidable (_ ∧ _))

/-- A brace behind plain text shows where that text ends. -/
theorem plain_front {a b z w : Text} {c d : Char} (ha : Plain a) (hb : Plain b) (hc : c = '{' ∨ c = '}')
    (hd : d = '{' ∨ d = '}') (h : a ++ c :: z <+: b ++ d :: w) : a = b ∧ c = d := by
  unfold Plain at ha hb
  induction a generalizing b with
  | nil =>
    cases b with
    | nil => exact ⟨rfl, (List.cons_prefix_cons.mp h).1⟩
    | cons e b =>
      obtain ⟨rfl, -⟩ := List.cons_prefix_cons.mp h
      obtain rfl | rfl := hc
      · exact absurd (List.mem_cons_self ..) hb.1
      · exact absurd (List.mem_cons_self ..) hb.2
  | cons e a ih =>
    cases b with
    | nil =>
      obtain ⟨rfl, -⟩ := List.cons_prefix_cons.mp h
      obtain rfl | rfl := hd
      · exact absurd (List.mem_cons_self ..) ha.1
      · exact absurd (List.mem_cons_self ..) ha.2
    | cons f b =>
      obtain ⟨rfl, hrest⟩ := List.cons_prefix_cons.mp h
      rw [List.mem_cons, List.mem_cons, not_or, not_or] at ha hb
      obtain ⟨rfl, hcd⟩ := ih ⟨ha.1.2, ha.2.2⟩ ⟨hb.1.2, hb.2.2⟩ hrest
      exact ⟨rfl, hcd⟩

theorem eq_of_placeholder_front {a b z : Text} (ha : Plain a) (hb : Plain b)
    (h : placeholder a <+: placeholder b ++ z) : a = b := by
  rw [placeholder, placeholder, List.cons_append, List.append_assoc] at h
  exact (plain_front ha hb (.inr rfl) (.inr rfl) (List.cons_prefix_cons.mp h).2).1

/-- An end of a placeholder with an opening brace is all of it. -/
theorem eq_of_suffix_placeholder {a m : Text} (ha : Plain a) (hm : m <:+ placeholder a) (hopen : '{' ∈ m) :
    m = placeholder a := by
  obtain h | h := List.suffix_cons_iff.mp hm
  · exact h
  · have hmem : '{' ∈ a ++ ['}'] := h.subset hopen
    rw [List.mem_append, List.mem_singleton] at hmem
    exact absurd (hmem.resolve_right (by decide)) ha.1

theorem eq_of_prefix_of_suffix {a b m : Text} (ha : Plain a) (hb : Plain b) (hpre : placeholder a <+: m)
    (hsuf : m <:+ placeholder b) : a = b := by
  have hopen : '{' ∈ m := hpre.subset (List.mem_cons_self ..)
  rw [eq_of_suffix_placeholder hb hsuf hopen, ← List.append_nil (placeholder b)] at hpre
  exact eq_of_placeholder_front ha hb hpre

theorem not_meets_placeholder {a b : Text} (ha : Plain a) (hb : Plain b) (hne : a ≠ b) :
    ¬ Meets (placeholder a) (placeholder b) := by
  have hinside : ∀ {a b : Text}, Plain a → Plain b → placeholder a <:+: placeholder b → a = b := by
    intro a b ha hb h
    obtain ⟨m, hpre, hsuf⟩ := List.infix_iff_prefix_suffix.mp h
    exact eq_of_prefix_of_suffix ha hb hpre hsuf
  have hends : ∀ {a b : Text}, Plain a → Plain b →
      (∃ m ∈ (placeholder a).tails, m ≠ [] ∧ m <+: placeholder b) → a = b := by
    rintro a b ha hb ⟨m, hm, hmne, hpre⟩
    have hopen : '{' ∈ m := by
      obtain rfl | ⟨rest, rfl, -⟩ := List.prefix_cons_iff.mp hpre
      · exact absurd rfl hmne
      · exact List.mem_cons_self ..
    rw [eq_of_suffix_placeholder ha ((List.mem_tails _ _).mp hm) hopen, ← List.append_nil (placeholder b)] at hpre
    exact eq_of_placeholder_front ha hb hpre
  rintro (h | h | h | h)
  · exact hne (hinside ha hb h)
  · exact hne (hinside hb ha h).symm
  · exact hne (hends ha hb h)
  · exact hne (hends hb ha h).symm

/-! ## A template that shows what goes wrong -/

/-- A placeholder between a beginning and an end of another one is the only place of any entry. -/
structure Framed (x y : Text) (b : Text) : Prop where
  plain : Plain b
  front : x <+: placeholder b
  front_ne : x ≠ placeholder b
  back : y <:+ placeholder b
  back_ne : y ≠ placeholder b

section
variable {entries : List (Text × Text)} (hkeys : ∀ entry ∈ entries, Plain entry.1)

theorem found_unopened {m rest : Text} (hm : m ≠ []) (hopen : '{' ∉ m) :
    found (entries.map rule) (m ++ rest) = none := by
  refine found_none.mpr fun q hq hpre => ?_
  obtain ⟨entry, -, rfl⟩ := List.mem_map.mp hq
  obtain ⟨c, m, rfl⟩ := List.exists_cons_of_ne_nil hm
  obtain rfl := (List.cons_prefix_cons.mp hpre).1
  exact hopen (List.mem_cons_self ..)

theorem Framed.found_back {x y b m : Text} (h : Framed x y b) (hm : m ≠ []) (hsuf : m <:+ y) :
    found (entries.map rule) m = none := by
  rw [← List.append_nil m]
  refine found_unopened hm fun hc => ?_
  obtain heq | hy := List.suffix_cons_iff.mp h.back
  · exact h.back_ne heq
  · have hmem := hy.subset (hsuf.subset hc)
    rw [List.mem_append, List.mem_singleton] at hmem
    exact h.plain.1 (hmem.resolve_right (by decide))

include hkeys

theorem Framed.found_front {x y a b m : Text} (h : Framed x y b) (hm : m ≠ []) (hsuf : m <:+ x) :
    found (entries.map rule) (m ++ (placeholder a ++ y)) = none := by
  obtain rfl | ⟨x', rfl, hx'⟩ := List.prefix_cons_iff.mp h.front
  · exact absurd (List.suffix_nil.mp hsuf) hm
  have hplain : x' <+: b := by
    obtain heq | hpre := List.prefix_concat_iff.mp hx'
    · exact absurd (congrArg (List.cons '{') heq) h.front_ne
    · exact hpre
  have hx : Plain x' := ⟨fun hc => h.plain.1 (hplain.subset hc), fun hc => h.plain.2 (hplain.subset hc)⟩
  obtain rfl | hrest := List.suffix_cons_iff.mp hsuf
  · refine found_none.mpr fun q hq hpre => ?_
    obtain ⟨entry, hentry, rfl⟩ := List.mem_map.mp hq
    have hpre' : entry.1 ++ '}' :: [] <+: x' ++ '{' :: (a ++ ['}'] ++ y) := (List.cons_prefix_cons.mp hpre).2
    exact absurd (plain_front (hkeys entry hentry) hx (.inr rfl) (.inl rfl) hpre').2 (by decide)
  · exact found_unopened hm fun hc => hx.1 (hrest.subset hc)

/-- The value of the entry comes in the frame. -/
theorem Framed.substitute {x y a b : Text} (h : Framed x y b) {value : Text} (ha : (a, value) ∈ entries)
    (hnodup : (entries.map Prod.fst).Nodup) :
    Replace.substitute (entries.map rule) (x ++ (placeholder a ++ y)) = x ++ (value ++ y) := by
  rw [substitute_append fun m hm hsuf => h.found_front hkeys hm hsuf]
  have hplace : found (entries.map rule) ((rule (a, value)).pattern ++ y) = some (rule (a, value)) := by
    refine (found_iff ?_).mpr ⟨List.mem_map_of_mem ha, List.prefix_append ..⟩
    rintro q hq r hr hne
    obtain ⟨c, hc, rfl⟩ := List.mem_map.mp hq
    obtain ⟨d, hd, rfl⟩ := List.mem_map.mp hr
    exact not_meets_placeholder (hkeys c hc) (hkeys d hd) fun heq =>
      hne (congrArg rule (List.inj_on_of_nodup_map hnodup hc hd heq))
  have hback : Replace.substitute (entries.map rule) y = y :=
    substitute_eq_self fun m hm hsuf => h.found_back hm hsuf
  rw [show placeholder a ++ y = (rule (a, value)).pattern ++ y from rfl, substitute_found hplace, hback]
  rfl

/-- Nothing has a place in the frame without the entry. -/
theorem Framed.substitute_eq_self {x y a b : Text} (h : Framed x y b) (ha : Plain a)
    (hnot : ∀ entry ∈ entries, entry.1 ≠ a) :
    Replace.substitute (entries.map rule) (x ++ (placeholder a ++ y)) = x ++ (placeholder a ++ y) := by
  rw [substitute_append fun m hm hsuf => h.found_front hkeys hm hsuf, substitute_append ?_,
    Replace.substitute_eq_self fun m hm hsuf => h.found_back hm hsuf]
  intro m hm hsuf
  by_cases hopen : '{' ∈ m
  · refine found_none.mpr fun q hq hpre => ?_
    obtain ⟨entry, hentry, rfl⟩ := List.mem_map.mp hq
    rw [eq_of_suffix_placeholder ha hsuf hopen] at hpre
    exact hnot entry hentry (eq_of_placeholder_front (hkeys entry hentry) ha hpre)
  · exact found_unopened hm hopen

end

theorem Framed.replace {x y a b : Text} (h : Framed x y b) (ha : Plain a) (value : Text) :
    replace (rule (a, value)) (x ++ (placeholder a ++ y)) = x ++ (value ++ y) :=
  have hkeys : ∀ entry ∈ [(a, value)], Plain entry.1 := fun entry hentry => by
    obtain rfl := List.mem_singleton.mp hentry
    exact ha
  h.substitute hkeys (List.mem_singleton_self _) (List.nodup_singleton _)

theorem Framed.render_eq_self {x y a b : Text} (h : Framed x y b) (ha : Plain a) {entries : List (Text × Text)}
    (hkeys : ∀ entry ∈ entries, Plain entry.1) (hnot : ∀ entry ∈ entries, entry.1 ≠ a) :
    render (x ++ (placeholder a ++ y)) entries = x ++ (placeholder a ++ y) := by
  induction entries with
  | nil => rfl
  | cons entry entries ih =>
    have hone : ∀ e ∈ [entry], Plain e.1 ∧ e.1 ≠ a := fun e he => by
      obtain rfl := List.mem_singleton.mp he
      exact ⟨hkeys _ (List.mem_cons_self ..), hnot _ (List.mem_cons_self ..)⟩
    have hstep : Replace.replace (rule entry) (x ++ (placeholder a ++ y)) = x ++ (placeholder a ++ y) :=
      h.substitute_eq_self (fun e he => (hone e he).1) ha fun e he => (hone e he).2
    show render (Replace.replace (rule entry) (x ++ (placeholder a ++ y))) entries = _
    rw [hstep]
    exact ih (fun e he => hkeys e (List.mem_cons_of_mem _ he)) fun e he => hnot e (List.mem_cons_of_mem _ he)

/-- A value that meets another placeholder shows in a template. -/
theorem RendersAtOnce.not_meets {vars : Vars} (h : RendersAtOnce vars) (hkeys : ∀ entry ∈ vars.entries, Plain entry.1)
    {a b : Text × Text} (ha : a ∈ vars.entries) (hb : b ∈ vars.entries) (hne : a.1 ≠ b.1)
    (hvalue : b.2 ≠ placeholder b.1) : ¬ Meets a.2 (placeholder b.1) := by
  intro hmeets
  have hlen : 2 ≤ (placeholder b.1).length := by simp [placeholder]
  obtain ⟨x, y, hx, hxne, hy, hyne, hin⟩ := exists_frame hmeets hlen
  have hframe : Framed x y b.1 := ⟨hkeys b hb, hx, hxne, hy, hyne⟩
  -- all others first, then the value, and the placeholder that it makes
  set others := (vars.entries.erase a).erase b with hothers
  have hb' : b ∈ vars.entries.erase a := (List.mem_erase_of_ne fun heq => hne (congrArg Prod.fst heq.symm)).mpr hb
  have hperm : (others ++ [a, b]).Perm vars.entries := by
    have h₁ : vars.entries.Perm (a :: vars.entries.erase a) := List.perm_cons_erase ha
    have h₂ : (vars.entries.erase a).Perm (b :: others) := List.perm_cons_erase hb'
    exact List.perm_append_comm.trans (h₁.trans (h₂.cons a)).symm
  have hnodup : vars.entries.Nodup := List.Nodup.of_map _ vars.nodup
  have hmem : ∀ entry ∈ others, entry ∈ vars.entries ∧ entry ≠ a := fun entry he => by
    have he' := List.mem_of_mem_erase he
    exact ⟨List.mem_of_mem_erase he', fun heq => (hnodup.not_mem_erase) (heq ▸ he')⟩
  have hrun : render (x ++ (placeholder a.1 ++ y)) (others ++ [a, b]) = Replace.replace (rule b) (x ++ (a.2 ++ y)) := by
    rw [render_append, hframe.render_eq_self (hkeys a ha) (fun e he => hkeys e (hmem e he).1)
      fun e he heq => (hmem e he).2 (vars.ext_key (hmem e he).1 ha heq)]
    show Replace.replace (rule b) (Replace.replace (rule a) _) = _
    rw [hframe.replace (hkeys a ha) a.2]
  have honce : vars.substitute (x ++ (placeholder a.1 ++ y)) = x ++ (a.2 ++ y) :=
    hframe.substitute hkeys ha vars.nodup
  have hsame := h (x ++ (placeholder a.1 ++ y)) _ hperm
  rw [hrun, honce] at hsame
  exact hvalue (value_eq_of_replace_eq hsame (by rwa [← List.append_assoc]))

/-- Rendering is one pass in every order when the map is separate, and, with names for keys, only then. -/
theorem rendersAtOnce_iff (vars : Vars) :
    (Separate vars → RendersAtOnce vars) ∧
      ((∀ entry ∈ vars.entries, Plain entry.1) → (RendersAtOnce vars ↔ Separate vars)) := by
  refine ⟨render_separate, fun hkeys => ⟨fun h a ha b hb hne => ⟨?_, fun hvalue => ?_⟩, render_separate⟩⟩
  · exact not_meets_placeholder (hkeys a ha) (hkeys b hb) hne
  · exact h.not_meets hkeys ha hb hne hvalue

theorem rendersAtOnce_owner :
    RendersAtOnce ⟨[("owner".toList, "Core".toList), ("purpose".toList, "Order routing".toList)], by decide⟩ ∧
      ¬ Separate ⟨[("owner".toList, "purpose".toList), ("purpose".toList, "Order routing".toList)], by decide⟩ := by
  refine ⟨(rendersAtOnce_iff _).1 (by decide), fun h => ?_⟩
  have hrenders := ((rendersAtOnce_iff _).2 (by decide)).mpr h
  exact absurd (hrenders "\x7b\x7bowner\x7d\x7d".toList _ (List.Perm.refl _)) (by decide)

/-- A value with a placeholder in it: the order decides. -/
theorem value_rewritten :
    render "{purpose}".toList [("purpose".toList, "for {owner}".toList), ("owner".toList, "Core".toList)]
        = "for Core".toList ∧
      render "{purpose}".toList [("owner".toList, "Core".toList), ("purpose".toList, "for {owner}".toList)]
        = "for {owner}".toList ∧
      ¬ ∀ vars, RendersAtOnce vars := by
  refine ⟨by decide, by decide, fun h => ?_⟩
  have hvars := h ⟨[("purpose".toList, "for {owner}".toList), ("owner".toList, "Core".toList)], by decide⟩
  exact absurd (hvars "{purpose}".toList _ (List.Perm.refl _)) (by decide)

end Atlas.Specgen
