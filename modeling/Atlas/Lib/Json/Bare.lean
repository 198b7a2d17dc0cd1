import Atlas.Lib.Json.Data
import Atlas.Lib.Json.Text

/-!
# JSON put together without escapes

* `Data.Says` : a value that says just the data, however its texts are written;
* `Data.bare` : the bytes of data with every text between quotes as it is;
* `length_runes_le` : a literal is no shorter than its text, and as short only without escapes;
* `bare_says_iff` : bare bytes say the data just when no text needs an escape.
-/

namespace Utf8

theorem bytes_append (s t : String) : bytes (s ++ t) = bytes s ++ bytes t := by
  rw [bytes, String.toList_append, encode_append]
  rfl

theorem bytes_intercalate (sep : String) (ss : List String) :
    bytes (String.intercalate sep ss) = (bytes sep).intercalate (ss.map bytes) := by
  rw [bytes, String.toList_intercalate, encode_intercalate, List.map_map]
  rfl

end Utf8

namespace Json

/-! ## Literals and their length -/

def Piece.IsBare : Piece → Prop
  | plain _ _ => True
  | _ => False

def contents (l : StrLit) : List UInt8 := l.flatMap Piece.bytes

@[simp] theorem contents_cons (p : Piece) (l : StrLit) : contents (p :: l) = p.bytes ++ contents l := List.flatMap_cons

theorem contents_append (l m : StrLit) : contents (l ++ m) = contents l ++ contents m := List.flatMap_append

theorem length_contents_drop (l : StrLit) (n : Nat) : (contents (l.drop n)).length ≤ (contents l).length := by
  have hsplit := congrArg List.length (contents_append (l.take n) (l.drop n))
  rw [List.take_append_drop, List.length_append] at hsplit
  omega

theorem isPlain_of_bare {l : StrLit} (h : ∀ p ∈ l, p.IsBare) : ∀ b ∈ contents l, IsPlain b := by
  intro b hb
  obtain ⟨p, hp, hmem⟩ := List.mem_flatMap.mp hb
  have hbare := h p hp
  cases p with
  | plain b' hplain =>
    rw [List.mem_singleton.mp hmem]
    exact hplain
  | esc e => exact hbare.elim
  | uni q => exact hbare.elim

/-- The bytes in front of the first escape are those of as many pieces. -/
theorem take_plainFront (l : StrLit) {n : Nat} (hn : n ≤ (plainFront l).length) :
    contents (l.take n) = (plainFront l).take n ∧ ∀ p ∈ l.take n, p.IsBare := by
  induction l generalizing n with
  | nil =>
    obtain rfl : n = 0 := Nat.le_zero.mp hn
    exact ⟨rfl, fun p hp => absurd hp List.not_mem_nil⟩
  | cons p l ih =>
    cases n with
    | zero => exact ⟨rfl, fun p hp => absurd hp List.not_mem_nil⟩
    | succ n =>
      cases p with
      | plain b hb =>
        obtain ⟨hcontents, hbare⟩ := ih (Nat.le_of_succ_le_succ hn)
        rw [List.take_succ_cons, contents_cons, hcontents, plainFront, List.take_succ_cons]
        exact ⟨rfl, List.forall_mem_cons.mpr ⟨trivial, hbare⟩⟩
      | esc e => exact absurd hn (Nat.not_succ_le_zero n)
      | uni q => exact absurd hn (Nat.not_succ_le_zero n)

theorem exists_append_of_head? {bs : List UInt8} {c : Char} (h : Utf8.head? bs = some c) :
    ∃ rest, bs = String.utf8EncodeChar c ++ rest := by
  obtain ⟨rest, hrest⟩ := ByteArray.exists_of_utf8DecodeChar?_eq_some h
  refine ⟨rest.data.toList, ?_⟩
  have hdata := congrArg (fun b : ByteArray => b.data.toList) hrest
  simpa using hdata

/-- The characters of a literal are those of its first rune and of the rest. -/
theorem exists_cons_of_map {r : Rune} {rs : List Rune} {cs : List Char} (h : r :: rs = cs.map .char) :
    ∃ c cs', cs = c :: cs' ∧ r = .char c ∧ rs = cs'.map .char := by
  cases cs with
  | nil => exact absurd h (List.cons_ne_nil r rs)
  | cons c cs =>
    obtain ⟨hr, hrs⟩ := List.cons.inj h
    exact ⟨c, cs, rfl, hr, hrs⟩

/-- A literal is no shorter than its text, and as short only without escapes. -/
theorem length_runes_le {l : StrLit} {cs : List Char} (h : runes l = cs.map .char) :
    (Utf8.encode cs).length ≤ (contents l).length ∧
      ((contents l).length ≤ (Utf8.encode cs).length → contents l = Utf8.encode cs ∧ ∀ p ∈ l, p.IsBare) := by
  induction l using runes.induct generalizing cs with
  | case1 =>
    rw [runes] at h
    obtain rfl := List.map_eq_nil_iff.mp h.symm
    exact ⟨le_rfl, fun _ => ⟨rfl, fun p hp => absurd hp List.not_mem_nil⟩⟩
  | case2 e rest ih =>
    rw [runes] at h
    obtain ⟨c, cs, rfl, hc, hrest⟩ := exists_cons_of_map h
    have hsize : (Escape.char e).utf8Size = 1 := by cases e <;> rfl
    rw [Rune.char.inj hc] at hsize
    have hlen := (ih hrest).1
    have hescape : (Piece.esc e).bytes.length = 2 := rfl
    rw [contents_cons, Utf8.encode_cons, List.length_append, List.length_append, String.length_utf8EncodeChar, hsize,
      hescape]
    exact ⟨by omega, fun hle => absurd hle (by omega)⟩
  | case3 q rest ih =>
    rw [runes] at h
    obtain ⟨c, cs, rfl, -, hrest⟩ := exists_cons_of_map h
    have hlen := (ih hrest).1.trans (length_contents_drop rest _)
    have hescape : (Piece.uni q).bytes.length = 6 := rfl
    have hsize := c.utf8Size_le_four
    rw [contents_cons, Utf8.encode_cons, List.length_append, List.length_append, String.length_utf8EncodeChar, hescape]
    exact ⟨by omega, fun hle => absurd hle (by omega)⟩
  | case4 b hb rest c hhead ih =>
    rw [runes, hhead] at h
    obtain ⟨c', cs, rfl, hc, hrest⟩ := exists_cons_of_map h
    obtain rfl := Rune.char.inj hc
    obtain ⟨more, hmore⟩ := exists_append_of_head? hhead
    have hn : c.utf8Size ≤ (plainFront (.plain b hb :: rest)).length := by
      rw [hmore, List.length_append, String.length_utf8EncodeChar]
      omega
    obtain ⟨hfront, hbare⟩ := take_plainFront _ hn
    rw [hmore, List.take_left' (String.length_utf8EncodeChar c)] at hfront
    have hsplit := contents_append (List.take c.utf8Size (.plain b hb :: rest))
      (List.drop c.utf8Size (.plain b hb :: rest))
    rw [List.take_append_drop, hfront] at hsplit
    obtain ⟨hle, heq⟩ := ih hrest
    rw [hsplit, Utf8.encode_cons, List.length_append, List.length_append]
    refine ⟨by omega, fun hshort => ?_⟩
    obtain ⟨hcontents, hrestBare⟩ := heq (by omega)
    refine ⟨by rw [hcontents], fun p hp => ?_⟩
    rw [← List.take_append_drop c.utf8Size (Piece.plain b hb :: rest)] at hp
    exact (List.mem_append.mp hp).elim (hbare p) (hrestBare p)
  | case5 b hb rest hhead ih =>
    rw [runes, hhead] at h
    obtain ⟨c, cs, -, hc, -⟩ := exists_cons_of_map h
    exact absurd hc Rune.noConfusion

/-- No byte of the text is a control character, a quote or a backslash. -/
def IsBareText (s : String) : Prop := ∀ b ∈ Utf8.bytes s, IsPlain b

instance (s : String) : Decidable (IsBareText s) := List.decidableBAll IsPlain (Utf8.bytes s)

/-- A literal that stands for a text and is as short is the text. -/
theorem isBareText_of_runes {l : StrLit} {s : String} (h : runes l = s.toList.map .char)
    (hshort : (contents l).length ≤ (Utf8.bytes s).length) : IsBareText s := by
  obtain ⟨hcontents, hbare⟩ := (length_runes_le h).2 hshort
  intro b hb
  exact isPlain_of_bare hbare b (hcontents ▸ hb)

theorem contents_lit {s : String} (h : IsBareText s) : contents (lit s) = Utf8.bytes s := by
  have hpieces (bs : List UInt8) (hbs : ∀ b ∈ bs, IsPlain b) : contents (bs.map escapeByte) = bs := by
    induction bs with
    | nil => rfl
    | cons b bs ih =>
      obtain ⟨hb, hrest⟩ := List.forall_mem_cons.mp hbs
      rw [List.map_cons, contents_cons, ih hrest, escapeByte_plain hb]
      rfl
  exact hpieces _ h

/-! ## Data and values -/

namespace Data

/-- The value says just the data: the same words and numbers, the same texts, the same parts in the same order. -/
def Says : Data → Value → Prop :=
  fold ⟨fun w v => v = .word w, fun n v => v = .num n, fun s v => ∃ l, v = .str l ∧ runes l = s.toList.map .char,
    fun ps v => ∃ vs, v = .arr vs ∧ List.Forall₂ (fun p v => p v) ps vs,
    fun es v => ∃ ms, v = .obj ms ∧
      List.Forall₂ (fun e m => runes m.1 = e.1.toList.map .char ∧ e.2 m.2) es ms⟩

/-- The text between quotes, as it is. -/
def bareText (s : String) : List UInt8 := 34 :: (Utf8.bytes s ++ [34])

/-- The bytes of data with every text between quotes as it is. -/
def bare : Data → List UInt8 :=
  fold ⟨Word.bytes, NumLit.bytes, bareText, fun ps => 91 :: ([44].intercalate ps ++ [93]),
    fun es => 123 :: ([44].intercalate (es.map fun e => bareText e.1 ++ 58 :: e.2) ++ [125])⟩

@[simp] theorem bare_text (s : String) : bare (.text s) = bareText s := rfl

theorem bare_list (items : List Data) : bare (.list items) = 91 :: ([44].intercalate (items.map bare) ++ [93]) :=
  fold_list _ items

theorem bare_dict (items : List (String × Data)) : bare (.dict items) =
    123 :: ([44].intercalate (items.map fun e => bareText e.1 ++ 58 :: bare e.2) ++ [125]) := by
  rw [bare, fold_dict]
  dsimp only
  rw [List.map_map]
  rfl

theorem says_list {items : List Data} {v : Value} :
    Says (.list items) v ↔ ∃ vs, v = .arr vs ∧ List.Forall₂ Says items vs := by
  rw [Says, fold_list]
  simp only [List.forall₂_map_left_iff]

theorem says_dict {items : List (String × Data)} {v : Value} : Says (.dict items) v ↔
    ∃ ms, v = .obj ms ∧ List.Forall₂ (fun e m => runes m.1 = e.1.toList.map .char ∧ Says e.2 m.2) items ms := by
  rw [Says, fold_dict]
  simp only [List.forall₂_map_left_iff]

/-! ### The text of a value -/

theorem render_arr (vs : List Value) :
    (Value.arr vs).render = 91 :: ([44].intercalate (vs.map Value.render) ++ [93]) := by
  rw [Value.render, Value.tokens, elementTokens_eq, List.cons_append, List.flatMap_cons, List.flatMap_append,
    flatMap_separated, List.map_map]
  rfl

theorem render_obj (ms : List (StrLit × Value)) : (Value.obj ms).render =
    123 :: ([44].intercalate (ms.map fun m => 34 :: (contents m.1 ++ [34]) ++ 58 :: m.2.render) ++ [125]) := by
  rw [Value.render, Value.tokens, memberTokens_eq, List.cons_append, List.flatMap_cons, List.flatMap_append,
    flatMap_separated, List.map_map]
  rfl

theorem render_str (l : StrLit) : (Value.str l).render = 34 :: (contents l ++ [34]) := by
  rw [Value.render, Value.tokens, List.flatMap_singleton]
  rfl

/-! ### Bare bytes and values that say the data -/

theorem length_intercalate (xs : List (List UInt8)) :
    ([44].intercalate xs).length = (xs.map List.length).sum + (xs.length - 1) := by
  induction xs with
  | nil => rfl
  | cons x xs ih =>
    cases xs with
    | nil => simp
    | cons y ys =>
      rw [List.intercalate_cons_cons, List.length_append, List.length_append, ih]
      simp only [List.map_cons, List.sum_cons, List.length_cons, List.length_nil]
      omega

/-- Parts that are each no longer, and as long only with a property, are so together. -/
theorem length_parts {α β : Type} {f : α → List UInt8} {g : β → List UInt8} {P : α → Prop} {as : List α} {bs : List β}
    (h : List.Forall₂ (fun a b => (f a).length ≤ (g b).length ∧ ((g b).length ≤ (f a).length → P a)) as bs) :
    ([44].intercalate (as.map f)).length ≤ ([44].intercalate (bs.map g)).length ∧
      (([44].intercalate (bs.map g)).length ≤ ([44].intercalate (as.map f)).length → ∀ a ∈ as, P a) := by
  have hsums : ((as.map f).map List.length).sum ≤ ((bs.map g).map List.length).sum ∧
      (((bs.map g).map List.length).sum ≤ ((as.map f).map List.length).sum → ∀ a ∈ as, P a) := by
    induction h with
    | nil => exact ⟨le_rfl, fun _ a ha => absurd ha List.not_mem_nil⟩
    | cons hab _ ih =>
      simp only [List.map_cons, List.sum_cons]
      refine ⟨by omega, fun hle => List.forall_mem_cons.mpr ⟨hab.2 (by omega), ih.2 (by omega)⟩⟩
  have hcount := h.length_eq
  rw [length_intercalate, length_intercalate, List.length_map, List.length_map, hcount]
  exact ⟨by omega, fun hle => hsums.2 (by omega)⟩

theorem forall₂_of_mem {α β : Type} {R S : α → β → Prop} {as : List α} {bs : List β} (h : List.Forall₂ R as bs)
    (himp : ∀ a ∈ as, ∀ b, R a b → S a b) : List.Forall₂ S as bs := by
  induction h with
  | nil => exact .nil
  | cons hab _ ih =>
    obtain ⟨hhead, htail⟩ := List.forall_mem_cons.mp himp
    exact .cons (hhead _ hab) (ih htail)

theorem length_bareText_le {l : StrLit} {s : String} (h : runes l = s.toList.map .char) :
    (bareText s).length ≤ (34 :: (contents l ++ [34])).length ∧
      ((34 :: (contents l ++ [34])).length ≤ (bareText s).length → IsBareText s) := by
  have hle : (Utf8.bytes s).length ≤ (contents l).length := (length_runes_le h).1
  simp only [bareText, List.length_cons, List.length_append, List.length_nil]
  exact ⟨by omega, fun hshort => isBareText_of_runes h (by omega)⟩

/-- A value that says the data is no shorter than the bare bytes, and as short only where no text needs an escape. -/
theorem length_bare_le {d : Data} {v : Value} (h : d.Says v) :
    d.bare.length ≤ v.render.length ∧ (v.render.length ≤ d.bare.length → d.All IsBareText fun _ => True) := by
  induction d generalizing v with
  | word w =>
    obtain rfl : v = .word w := h
    have hrender : (Value.word w).render = (word w).bare := List.flatMap_singleton ..
    rw [hrender]
    exact ⟨le_rfl, fun _ => trivial⟩
  | num n =>
    obtain rfl : v = .num n := h
    have hrender : (Value.num n).render = (num n).bare := List.flatMap_singleton ..
    rw [hrender]
    exact ⟨le_rfl, fun _ => trivial⟩
  | text s =>
    obtain ⟨l, rfl, hl⟩ : ∃ l, v = .str l ∧ runes l = s.toList.map .char := h
    rw [render_str]
    exact length_bareText_le hl
  | list items ih =>
    obtain ⟨vs, rfl, hvs⟩ := says_list.mp h
    have hparts : List.Forall₂ (fun (d : Data) (v : Value) => d.bare.length ≤ v.render.length ∧
        (v.render.length ≤ d.bare.length → d.All IsBareText fun _ => True)) items vs :=
      forall₂_of_mem hvs fun d hd v hv => ih d hd hv
    obtain ⟨hle, hall⟩ := length_parts hparts
    have heta : (vs.map fun v => v.render) = vs.map Value.render := rfl
    rw [bare_list, render_arr, all_list]
    rw [heta] at hle hall
    simp only [List.length_cons, List.length_append, List.length_nil]
    exact ⟨by omega, fun hshort => hall (by omega)⟩
  | dict items ih =>
    obtain ⟨ms, rfl, hms⟩ := says_dict.mp h
    have hparts : List.Forall₂ (fun (e : String × Data) (m : StrLit × Value) =>
        (bareText e.1 ++ 58 :: bare e.2).length ≤ (34 :: (contents m.1 ++ [34]) ++ 58 :: m.2.render).length ∧
          ((34 :: (contents m.1 ++ [34]) ++ 58 :: m.2.render).length ≤ (bareText e.1 ++ 58 :: bare e.2).length →
            IsBareText e.1 ∧ e.2.All IsBareText fun _ => True)) items ms := by
      refine forall₂_of_mem hms fun e he m hm => ?_
      obtain ⟨hkey, hkeyBare⟩ := length_bareText_le hm.1
      obtain ⟨hvalue, hvalueBare⟩ := ih e he hm.2
      simp only [List.length_append, List.length_cons] at hkey hkeyBare ⊢
      exact ⟨by omega, fun hshort => ⟨hkeyBare (by omega), hvalueBare (by omega)⟩⟩
    obtain ⟨hle, hall⟩ := length_parts hparts
    rw [bare_dict, render_obj, all_dict]
    simp only [List.length_cons, List.length_append, List.length_nil] at hle hall ⊢
    exact ⟨by omega, fun hshort => hall (by omega)⟩

/-- Where no text needs an escape, the data are written without any. -/
theorem render_write {d : Data} (h : d.All IsBareText fun _ => True) : (d.write lit).render = d.bare := by
  induction d with
  | word w => exact List.flatMap_singleton ..
  | num n => exact List.flatMap_singleton ..
  | text s =>
    rw [write_text, render_str, contents_lit h]
    rfl
  | list items ih =>
    rw [write_list, render_arr, bare_list, List.map_map]
    congr 3
    exact List.map_congr_left fun d hd => ih d hd (all_list.mp h d hd)
  | dict items ih =>
    rw [write_dict, render_obj, bare_dict, List.map_map]
    congr 3
    apply List.map_congr_left
    intro e he
    obtain ⟨hkey, hvalue⟩ := all_dict.mp h e he
    dsimp only [Function.comp]
    rw [contents_lit hkey, ih e he hvalue]
    rfl

theorem says_write (d : Data) : d.Says (d.write lit) := by
  induction d with
  | word w => rfl
  | num n => rfl
  | text s => exact ⟨lit s, rfl, runes_lit s⟩
  | list items ih =>
    rw [write_list, says_list]
    refine ⟨_, rfl, ?_⟩
    rw [List.forall₂_map_right_iff, List.forall₂_same]
    exact ih
  | dict items ih =>
    rw [write_dict, says_dict]
    refine ⟨_, rfl, ?_⟩
    rw [List.forall₂_map_right_iff, List.forall₂_same]
    exact fun e he => ⟨runes_lit e.1, ih e he⟩

theorem length_render_le {bs : List UInt8} {v : Value} (h : IsText bs v) : v.render.length ≤ bs.length := by
  obtain ⟨rest, hreads, -⟩ := h
  have hall (ts : List Token) :
      ∀ bs : List UInt8, Reads bs ts rest → (ts.flatMap Token.bytes).length ≤ bs.length := by
    induction ts with
    | nil => exact fun bs _ => Nat.zero_le _
    | cons t ts ih =>
      rintro bs ⟨mid, hnext, hrest⟩
      obtain ⟨ws, -, rfl, -⟩ := next_sound hnext
      have hmid := ih mid hrest
      rw [List.flatMap_cons, List.length_append, List.length_append, List.length_append]
      omega
  exact hall _ _ hreads

/-- **Bare bytes say the data** just when no text needs an escape. -/
theorem bare_says_iff (d : Data) : (∃ v, IsText d.bare v ∧ d.Says v) ↔ d.All IsBareText fun _ => True := by
  constructor
  · rintro ⟨v, htext, hsays⟩
    exact (length_bare_le hsays).2 (length_render_le htext)
  · intro hall
    refine ⟨d.write lit, ⟨[], ?_, fun b hb => absurd hb List.not_mem_nil⟩, says_write d⟩
    have hreads := reads_render (d.write lit) (notStart_nil IsNumberByte)
    rwa [List.append_nil, render_write hall] at hreads

end Data

end Json
