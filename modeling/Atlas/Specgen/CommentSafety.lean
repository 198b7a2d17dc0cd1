import Atlas.Lib.Marks
import Atlas.Specgen.Generators

/-!
# Metadata in comments

* `CommentsOnly` : every line of the header, in every order of iteration, and of the contract block is a comment;
* `Inert` : every line of a field but the first begins with the comment prefix; `Harmless` : all fields are inert, also
  with one filled into the other;
* `render_records` : a template of records is rendered record by record;
* `guarded_field` : what the later entries make of a field;
* `commentsOnly_iff` : the metadata that does no harm.
-/

namespace Atlas.Specgen
open Lines Replace

/-- A carriage return ends a line of Python only. -/
def Language.isLineEnd : Language → Char → Bool
  | .python, c => c = '\n' ∨ c = '\r'
  | .rust, c => c = '\n'
  | .go, c => c = '\n'

def Language.mark (language : Language) : Text := commentPrefix language.asStr

def Commented (language : Language) (text : Text) : Prop := Marked language.isLineEnd language.mark text

def CommentsOnly (language : Language) (module : ModuleMetadata) : Prop :=
  (∀ order, order.Perm (headerVars language module).entries → Commented language (render (header language) order)) ∧
    Commented language (generateContractBlock module language.asStr)

/-- A line break in the field, or the newline behind it, has the comment prefix behind it, or nothing. -/
def Inert (language : Language) (field : Text) : Prop :=
  ∀ line ∈ (splitLines language.isLineEnd (field ++ ['\n'])).tail, language.mark <+: line

instance (language : Language) (field : Text) : Decidable (Inert language field) :=
  inferInstanceAs (Decidable (∀ line ∈ (splitLines language.isLineEnd (field ++ ['\n'])).tail, language.mark <+: line))

def specificationEntry (module : ModuleMetadata) : Text × Text := ("specification_id".toList, module.specificationId)

def ownerEntry (module : ModuleMetadata) : Text × Text := ("owner".toList, module.owner)

structure Harmless (language : Language) (module : ModuleMetadata) : Prop where
  specificationId : Inert language module.specificationId
  owner : Inert language module.owner
  filledSpecificationId : Inert language (replace (rule (ownerEntry module)) module.specificationId)
  filledOwner : Inert language (replace (rule (specificationEntry module)) module.owner)
  responsibilities : ∀ item ∈ module.responsibilities, Inert language item
  forbidden : ∀ item ∈ module.forbidden, Inert language item

theorem breaks (language : Language) : Breaks language.isLineEnd language.mark := by
  have hmark : language.isLineEnd '\n' = true ∧ language.mark ≠ [] ∧
      language.mark.all (fun c => !language.isLineEnd c) = true := by
    cases language <;> decide
  exact ⟨hmark.1, hmark.2.1, fun c hc => by simpa using List.all_eq_true.mp hmark.2.2 c hc⟩

theorem guarded_iff_inert {language : Language} {field : Text} :
    Guarded language.isLineEnd language.mark field ↔ Inert language field := guarded_iff (breaks language)

/-! ## Records of a template -/

theorem render_nil (order : List (Text × Text)) : render [] order = [] := by
  induction order with
  | nil => rfl
  | cons entry order ih => exact ih

theorem render_literal {lead : Text} (h : '{' ∉ lead) (text : Text) (order : List (Text × Text)) :
    render (lead ++ text) order = lead ++ render text order := by
  induction order generalizing text with
  | nil => rfl
  | cons entry order ih =>
    have hstep : replace (rule entry) (lead ++ text) = lead ++ replace (rule entry) text :=
      substitute_append fun m hm hs => @found_unopened [entry] m text hm fun hc => h (hs.subset hc)
    show render (replace (rule entry) (lead ++ text)) order = _
    rw [hstep, ih]
    rfl

theorem render_split {order : List (Text × Text)} (h : ∀ entry ∈ order, '\n' ∉ entry.1) (text rest : Text) :
    render (text ++ '\n' :: rest) order = render text order ++ '\n' :: render rest order := by
  induction order generalizing text rest with
  | nil => rfl
  | cons entry order ih =>
    have hfeed : ∀ r ∈ [rule entry], '\n' ∉ r.pattern := fun r hr => by
      rw [List.mem_singleton.mp hr]
      simpa [rule, placeholder] using h entry (List.mem_cons_self ..)
    show render (replace (rule entry) (text ++ '\n' :: rest)) order = _
    rw [replace, substitute_split hfeed, ih fun e he => h e (List.mem_cons_of_mem _ he)]
    rfl

theorem render_records {order : List (Text × Text)} (h : ∀ entry ∈ order, '\n' ∉ entry.1) {mark : Text}
    (hmark : '{' ∉ mark) {rs : List (Text × Text)} (hrs : ∀ r ∈ rs, '{' ∉ r.1) :
    render (rs.flatMap (record mark)) order = (rs.map fun r => (r.1, render r.2 order)).flatMap (record mark) := by
  induction rs with
  | nil => exact render_nil order
  | cons r rs ih =>
    rw [List.flatMap_cons, List.map_cons, List.flatMap_cons, ← ih fun r' hr' => hrs r' (List.mem_cons_of_mem _ hr')]
    have hr := hrs r (List.mem_cons_self ..)
    rw [record, List.append_assoc, render_literal hmark, List.append_assoc, render_literal hr, List.append_assoc,
      List.singleton_append, render_split h]
    simp [record]

/-! ## Fields in the header -/

theorem framed_nil : Framed [] [] [] :=
  ⟨by decide, List.nil_prefix, (List.cons_ne_nil _ _).symm, List.nil_suffix, (List.cons_ne_nil _ _).symm⟩

/-- A placeholder waits for its entry, and the later entries go over the value. -/
theorem render_placeholder {before after : List (Text × Text)} {entry : Text × Text}
    (hkeys : ∀ e ∈ before ++ entry :: after, Plain e.1) (hnodup : ((before ++ entry :: after).map Prod.fst).Nodup) :
    render (placeholder entry.1) (before ++ entry :: after) = render entry.2 after := by
  have hentry : Plain entry.1 := hkeys entry (List.mem_append_right _ (List.mem_cons_self ..))
  have hbefore : render (placeholder entry.1) before = placeholder entry.1 := by
    have hself := framed_nil.render_eq_self hentry (fun e he => hkeys e (List.mem_append_left _ he)) fun e he heq => ?_
    · simpa using hself
    · rw [List.map_append, List.map_cons] at hnodup
      refine (List.nodup_append.mp hnodup).2.2 e.1 (List.mem_map_of_mem he) entry.1 (List.mem_cons_self ..) heq
  have hreplace : replace (rule entry) (placeholder entry.1) = entry.2 := by
    have hone := framed_nil.replace hentry entry.2
    simpa using hone
  rw [render_append, hbefore]
  show render (replace (rule entry) (placeholder entry.1)) after = _
  rw [hreplace]

/-- What metadata has no say in: placeholders and values of the language and the profile. -/
def constants : List Text :=
  ["{language}", "{profile}", "rust", "python", "go", "production", "research", "benchmark", "legacy"].map String.toList

structure Constant (entry : Text × Text) : Prop where
  pattern : placeholder entry.1 ∈ constants
  value : entry.2 ∈ constants
  unopened : '{' ∉ entry.2

theorem neutral_constant (language : Language) :
    ∀ text ∈ constants, Neutral language.isLineEnd language.mark text := by
  have hall : ∀ text ∈ constants, text ≠ [] ∧
      text.all (fun c => !language.isLineEnd c && decide (c ∉ language.mark)) = true := by
    cases language <;> decide
  exact fun text htext => ⟨(hall text htext).1, fun c hc => by simpa using List.all_eq_true.mp (hall text htext).2 c hc⟩

theorem constant_not_meets :
    ∀ text ∈ constants, ∀ field ∈ ["{specification_id}".toList, "{owner}".toList], ¬ Meets text field := by decide

theorem Constant.read {language : Language} {entry : Text × Text} (h : Constant entry) (place : Place language.mark) :
    (rule entry).value.foldl (step language.isLineEnd language.mark) place
      = (rule entry).pattern.foldl (step language.isLineEnd language.mark) place :=
  read_neutral (breaks language) (neutral_constant language _ h.value) (neutral_constant language _ h.pattern) place

/-- A field of the header and the other one. -/
def Fields (module : ModuleMetadata) (field other : Text × Text) : Prop :=
  (field = specificationEntry module ∧ other = ownerEntry module) ∨
    (field = ownerEntry module ∧ other = specificationEntry module)

theorem Constant.spares {module : ModuleMetadata} {entry field other : Text × Text} (h : Constant entry)
    (hfields : Fields module field other) : Spares (rule entry) (rule other) := by
  have hother : placeholder other.1 ∈ ["{specification_id}".toList, "{owner}".toList] := by
    obtain ⟨-, rfl⟩ | ⟨-, rfl⟩ := hfields
    · exact List.mem_cons_of_mem _ (List.mem_cons_self ..)
    · exact List.mem_cons_self ..
  exact ⟨constant_not_meets _ h.pattern _ hother, fun _ => constant_not_meets _ h.value _ hother⟩

theorem Fields.not_constant {module : ModuleMetadata} {field other : Text × Text}
    (hfields : Fields module field other) : ¬ Constant other := by
  intro h
  obtain ⟨-, rfl⟩ | ⟨-, rfl⟩ := hfields
  · exact absurd h.pattern (by decide : "{owner}".toList ∉ constants)
  · exact absurd h.pattern (by decide : "{specification_id}".toList ∉ constants)

/-- To a reader of lines only the other field makes a difference. -/
theorem read_render {language : Language} {module : ModuleMetadata} {field other : Text × Text}
    (hfields : Fields module field other) {after : List (Text × Text)} (hnodup : after.Nodup)
    (hafter : ∀ entry ∈ after, entry = other ∨ Constant entry) (text : Text) (place : Place language.mark) :
    (render text after).foldl (step language.isLineEnd language.mark) place =
      (if other ∈ after then replace (rule other) text else text).foldl (step language.isLineEnd language.mark)
        place := by
  induction after generalizing text with
  | nil => rfl
  | cons entry after ih =>
    obtain ⟨hnot, hrest⟩ := List.nodup_cons.mp hnodup
    have ih := ih hrest (fun e he => hafter e (List.mem_cons_of_mem _ he)) (replace (rule entry) text)
    show (render (replace (rule entry) text) after).foldl _ place = _
    rw [ih]
    obtain rfl | hconstant := hafter entry (List.mem_cons_self ..)
    · rw [if_neg hnot, if_pos (List.mem_cons_self ..)]
    · have hne : other ≠ entry := fun heq => hfields.not_constant (heq ▸ hconstant)
      by_cases hmem : other ∈ after
      · rw [if_pos hmem, if_pos (List.mem_cons_of_mem _ hmem), foldl_replace_replace _ (hconstant.spares hfields)
          hconstant.read]
      · rw [if_neg hmem, if_neg fun hc => (List.mem_cons.mp hc).elim hne hmem, foldl_replace_self _ hconstant.read]

theorem constant_language (language : Language) : Constant ("language".toList, language.asStr) := by
  cases language <;> exact ⟨by decide, by decide, by decide⟩

theorem constant_profile (profile : Profile) : Constant ("profile".toList, profile.asStr) := by
  cases profile <;> exact ⟨by decide, by decide, by decide⟩

section
variable {language : Language} {module : ModuleMetadata} {order before after : List (Text × Text)}

theorem mem_order (hperm : order.Perm (headerVars language module).entries) {entry : Text × Text} :
    entry ∈ order ↔ entry = specificationEntry module ∨ entry = ownerEntry module ∨
      entry = ("language".toList, language.asStr) ∨ entry = ("profile".toList, module.profile.asStr) := by
  rw [hperm.mem_iff]
  show entry ∈ [specificationEntry module, ownerEntry module, _, _] ↔ _
  rw [List.mem_cons, List.mem_cons, List.mem_pair]

theorem plain_order (hperm : order.Perm (headerVars language module).entries) :
    ∀ entry ∈ order, Plain entry.1 ∧ '\n' ∉ entry.1 := by
  intro entry hentry
  obtain rfl | rfl | rfl | rfl := (mem_order hperm).mp hentry
  · exact (by decide : Plain "specification_id".toList ∧ '\n' ∉ "specification_id".toList)
  · exact (by decide : Plain "owner".toList ∧ '\n' ∉ "owner".toList)
  · exact (by decide : Plain "language".toList ∧ '\n' ∉ "language".toList)
  · exact (by decide : Plain "profile".toList ∧ '\n' ∉ "profile".toList)

theorem nodup_order (hperm : order.Perm (headerVars language module).entries) : (order.map Prod.fst).Nodup :=
  (hperm.map Prod.fst).nodup_iff.mpr (headerVars language module).nodup

/-- On its line a field is guarded with the other field filled in, when that comes later, or as it is. -/
theorem guarded_field {field other : Text × Text} (hfields : Fields module field other)
    (hperm : (before ++ field :: after).Perm (headerVars language module).entries) :
    Guarded language.isLineEnd language.mark (render (placeholder field.1) (before ++ field :: after)) ↔
      Inert language (if other ∈ after then replace (rule other) field.2 else field.2) := by
  have hnodup := nodup_order hperm
  have hall : (before ++ field :: after).Nodup := List.Nodup.of_map _ hnodup
  have hafter : ∀ entry ∈ after, entry = other ∨ Constant entry := by
    intro entry hentry
    have hne : entry ≠ field := fun heq =>
      (List.nodup_cons.mp (List.nodup_append.mp hall).2.1).1 (heq ▸ hentry)
    have hmem := (mem_order hperm).mp (List.mem_append_right _ (List.mem_cons_of_mem _ hentry))
    obtain rfl | rfl | rfl | rfl := hmem
    · obtain ⟨rfl, -⟩ | ⟨-, rfl⟩ := hfields
      · exact absurd rfl hne
      · exact .inl rfl
    · obtain ⟨-, rfl⟩ | ⟨rfl, -⟩ := hfields
      · exact .inl rfl
      · exact absurd rfl hne
    · exact .inr (constant_language language)
    · exact .inr (constant_profile module.profile)
  have hafterNodup : after.Nodup := (List.nodup_cons.mp (List.nodup_append.mp hall).2.1).2
  rw [render_placeholder (fun e he => (plain_order hperm e he).1) hnodup, ← guarded_iff_inert, Guarded, Guarded,
    List.foldl_append, List.foldl_append, read_render hfields hafterNodup hafter]

/-- A constant comes out as it is. -/
theorem guarded_constant {entry : Text × Text} (hconstant : Constant entry)
    (hperm : (before ++ entry :: after).Perm (headerVars language module).entries) :
    Guarded language.isLineEnd language.mark (render (placeholder entry.1) (before ++ entry :: after)) := by
  rw [render_placeholder (fun e he => (plain_order hperm e he).1) (nodup_order hperm)]
  have hvalue := render_literal hconstant.unopened [] after
  rw [List.append_nil, render_nil, List.append_nil] at hvalue
  rw [hvalue]
  exact guarded_unbroken (breaks language) fun c hc => ((neutral_constant language _ hconstant.value).neutral c hc).1

end

/-! ## The header and the block -/

/-- The lines of a header template, behind the comment prefix. -/
def headerRecords : List (Text × Text) :=
  [(" Generated by Atlas AI SpecGen".toList, []), (" Governed by: ".toList, placeholder "specification_id".toList),
    (" Owner: ".toList, placeholder "owner".toList), (" Language: ".toList, placeholder "language".toList),
    (" Profile: ".toList, placeholder "profile".toList)]

theorem header_eq (language : Language) : header language = headerRecords.flatMap (record language.mark) := by
  cases language <;> rfl

def listRecords (items : List Text) : List (Text × Text) :=
  if items.isEmpty then [("   _None_".toList, [])] else items.map fun item => ("   - ".toList, item)

theorem formatList_feed (mark : Text) (items : List Text) :
    formatList mark items ++ ['\n'] = (listRecords items).flatMap (record mark) := by
  cases items with
  | nil => simp [formatList, listRecords, record]
  | cons item items =>
    show "\n".toList.intercalate ((item :: items).map fun item => mark ++ "   - ".toList ++ item) ++ ['\n']
      = ((item :: items).map fun item => ("   - ".toList, item)).flatMap (record mark)
    induction items generalizing item with
    | nil => simp [record]
    | cons next items ih =>
      rw [List.map_cons, List.map_cons, List.intercalate_cons_cons, List.append_assoc, List.append_assoc,
        ← List.map_cons, ih, List.map_cons, List.map_cons, List.flatMap_cons]
      simp [record]

def blockRecords (module : ModuleMetadata) : List (Text × Text) :=
  [(" Contract Compliance".toList, []), (" Specification: ".toList, module.specificationId),
    (" Artifact:      ".toList, module.artifact.asStr), (" Language:      ".toList, module.language.asStr),
    (" Profile:       ".toList, module.profile.asStr), (" Owner:         ".toList, module.owner), ([], []),
    (" Responsibilities:".toList, [])] ++ listRecords module.responsibilities ++
  [([], []), (" Forbidden:".toList, [])] ++ listRecords module.forbidden

theorem block_eq (module : ModuleMetadata) (language : Language) :
    generateContractBlock module language.asStr = (blockRecords module).flatMap (record language.mark) := by
  have hcompliance : " Contract Compliance\n".toList = " Contract Compliance".toList ++ ['\n'] := by decide
  have hresponsibilities : " Responsibilities:\n".toList = " Responsibilities:".toList ++ ['\n'] := by decide
  have hforbidden : " Forbidden:\n".toList = " Forbidden:".toList ++ ['\n'] := by decide
  rw [generateContractBlock, blockRecords, hcompliance, hresponsibilities, hforbidden]
  simp only [List.flatMap_append, ← formatList_feed, List.flatMap_cons, List.flatMap_nil, record, Language.mark]
  simp only [List.flatten_cons, List.flatten_nil, List.append_assoc, List.nil_append, List.append_nil]

/-- No language ends a line in the text. -/
def OneLine (text : Text) : Prop := '\n' ∉ text ∧ '\r' ∉ text

instance (text : Text) : Decidable (OneLine text) := inferInstanceAs (Decidable (_ ∧ _))

theorem OneLine.unbroken {text : Text} (h : OneLine text) (language : Language) :
    ∀ c ∈ text, language.isLineEnd c = false := by
  intro c hc
  have hfeed : c ≠ '\n' := fun heq => h.1 (heq ▸ hc)
  have hreturn : c ≠ '\r' := fun heq => h.2 (heq ▸ hc)
  cases language <;> simp [Language.isLineEnd, hfeed, hreturn]

theorem OneLine.guarded {text : Text} (h : OneLine text) (language : Language) :
    Guarded language.isLineEnd language.mark text := guarded_unbroken (breaks language) (h.unbroken language)

theorem commented_records {language : Language} {rs : List (Text × Text)} (h : ∀ r ∈ rs, OneLine r.1) :
    Commented language (rs.flatMap (record language.mark)) ↔
      ∀ r ∈ rs, Guarded language.isLineEnd language.mark r.2 :=
  marked_records (breaks language) fun r hr => (h r hr).unbroken language

/-- The header is a comment when its two free fields, as they come out, are. -/
theorem commented_header {language : Language} {module : ModuleMetadata} {order : List (Text × Text)}
    (hperm : order.Perm (headerVars language module).entries) :
    Commented language (render (header language) order) ↔
      Guarded language.isLineEnd language.mark (render (placeholder "specification_id".toList) order) ∧
        Guarded language.isLineEnd language.mark (render (placeholder "owner".toList) order) := by
  have hmark : '{' ∉ language.mark := by cases language <;> decide
  have hconstant : ∀ entry, Constant entry → entry ∈ order →
      Guarded language.isLineEnd language.mark (render (placeholder entry.1) order) := by
    intro entry hentry hmem
    obtain ⟨before, after, rfl⟩ := List.append_of_mem hmem
    exact guarded_constant hentry hperm
  have hlanguage := hconstant _ (constant_language language) ((mem_order hperm).mpr (.inr (.inr (.inl rfl))))
  have hprofile := hconstant _ (constant_profile module.profile) ((mem_order hperm).mpr (.inr (.inr (.inr rfl))))
  have hempty : Guarded language.isLineEnd language.mark (render [] order) := by
    rw [render_nil]
    exact OneLine.guarded (by decide) language
  have hlead : ∀ r ∈ headerRecords, '{' ∉ r.1 ∧ OneLine r.1 := by decide
  rw [header_eq, render_records (fun e he => (plain_order hperm e he).2) hmark fun r hr => (hlead r hr).1,
    commented_records fun r hr => by
      obtain ⟨r', hr', rfl⟩ := List.mem_map.mp hr
      exact (hlead r' hr').2]
  simp only [headerRecords, List.map_cons, List.map_nil, List.forall_mem_cons]
  exact ⟨fun h => ⟨h.2.1, h.2.2.1⟩, fun h => ⟨hempty, h.1, h.2, hlanguage, hprofile, nofun⟩⟩

theorem commented_block {language : Language} {module : ModuleMetadata} :
    Commented language (generateContractBlock module language.asStr) ↔
      Inert language module.specificationId ∧ Inert language module.owner ∧
        (∀ item ∈ module.responsibilities, Inert language item) ∧ ∀ item ∈ module.forbidden, Inert language item := by
  have hlist : ∀ items, (∀ r ∈ listRecords items, Guarded language.isLineEnd language.mark r.2) ↔
      ∀ item ∈ items, Inert language item := by
    intro items
    cases items with
    | nil => simp [listRecords, OneLine.guarded (by decide : OneLine []) language]
    | cons item items => simp [listRecords, guarded_iff_inert]
  have hitems : ∀ items, ∀ r ∈ listRecords items, OneLine r.1 := by
    intro items
    cases items with
    | nil => exact List.forall_mem_singleton.mpr (by decide)
    | cons item items => exact List.forall_mem_map.mpr fun _ _ => (by decide : OneLine "   - ".toList)
  have hrecords : ∀ r ∈ blockRecords module, OneLine r.1 := by
    simp only [blockRecords, List.forall_mem_append, List.forall_mem_cons]
    exact ⟨⟨⟨⟨by decide, by decide, by decide, by decide, by decide, by decide, by decide, by decide, nofun⟩, hitems _⟩,
      by decide, by decide, nofun⟩, hitems _⟩
  have hempty : Guarded language.isLineEnd language.mark [] := OneLine.guarded (by decide) language
  have hartifact : OneLine module.artifact.asStr := by cases module.artifact <;> decide
  have hlanguage : OneLine module.language.asStr := by cases module.language <;> decide
  have hprofile : OneLine module.profile.asStr := by cases module.profile <;> decide
  rw [block_eq, commented_records hrecords, ← hlist, ← hlist, ← guarded_iff_inert, ← guarded_iff_inert]
  simp only [blockRecords, List.forall_mem_append, List.forall_mem_cons]
  constructor
  · rintro ⟨⟨⟨⟨-, hspecification, -, -, -, howner, -⟩, hresponsibilities⟩, -⟩, hforbidden⟩
    exact ⟨hspecification, howner, hresponsibilities, hforbidden⟩
  · rintro ⟨hspecification, howner, hresponsibilities, hforbidden⟩
    exact ⟨⟨⟨⟨hempty, hspecification, hartifact.guarded _, hlanguage.guarded _, hprofile.guarded _, howner, hempty,
      hempty, nofun⟩, hresponsibilities⟩, hempty, hempty, nofun⟩, hforbidden⟩

/-- The metadata whose text stays in comments. -/
theorem commentsOnly_iff (language : Language) (module : ModuleMetadata) :
    CommentsOnly language module ↔ Harmless language module := by
  have hspecification : Fields module (specificationEntry module) (ownerEntry module) := .inl ⟨rfl, rfl⟩
  have howner : Fields module (ownerEntry module) (specificationEntry module) := .inr ⟨rfl, rfl⟩
  constructor
  · rintro ⟨hheader, hblock⟩
    obtain ⟨hs, ho, hresponsibilities, hforbidden⟩ := commented_block.mp hblock
    -- one order for each of the fields to come first
    have hfirst := ((commented_header (List.Perm.refl _)).mp (hheader _ (List.Perm.refl _))).1
    have hswap := List.Perm.swap (specificationEntry module) (ownerEntry module)
      [("language".toList, language.asStr), ("profile".toList, module.profile.asStr)]
    have hsecond := ((commented_header hswap).mp (hheader _ hswap)).2
    refine ⟨hs, ho, ?_, ?_, hresponsibilities, hforbidden⟩
    · have hfilled := (@guarded_field language module [] _ _ _ hspecification (List.Perm.refl _)).mp hfirst
      split_ifs at hfilled with hmem
      · exact hfilled
      · exact absurd (List.mem_cons_self ..) hmem
    · have hfilled := (@guarded_field language module [] _ _ _ howner hswap).mp hsecond
      split_ifs at hfilled with hmem
      · exact hfilled
      · exact absurd (List.mem_cons_self ..) hmem
  · intro h
    refine ⟨fun order hperm => (commented_header hperm).mpr ⟨?_, ?_⟩, commented_block.mpr
      ⟨h.specificationId, h.owner, h.responsibilities, h.forbidden⟩⟩
    · obtain ⟨before, after, rfl⟩ := List.append_of_mem ((mem_order hperm).mpr (.inl rfl))
      refine (guarded_field hspecification hperm).mpr ?_
      split_ifs
      · exact h.filledSpecificationId
      · exact h.specificationId
    · obtain ⟨before, after, rfl⟩ := List.append_of_mem ((mem_order hperm).mpr (.inr (.inl rfl)))
      refine (guarded_field howner hperm).mpr ?_
      split_ifs
      · exact h.filledOwner
      · exact h.owner

/-- Accepted metadata whose owner ends the comment. -/
theorem owner_injects :
    let module : ModuleMetadata := ⟨"feed".toList, .module, .python, .production, "Core\nimport os".toList,
      "Market data".toList, "SPEC-1".toList, [], [], []⟩
    validate module = .ok () ∧ ¬ Commented .python (generateContractBlock module Language.python.asStr) ∧
      ¬ CommentsOnly .python module := by
  intro module
  have hblock : ¬ Commented .python (generateContractBlock module Language.python.asStr) := by
    rw [commented_block]
    exact fun h => absurd h.2.1 (by decide)
  exact ⟨by decide, hblock, fun h => hblock h.2⟩

end Atlas.Specgen
