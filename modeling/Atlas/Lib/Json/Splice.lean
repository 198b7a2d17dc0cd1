import Atlas.Lib.Json.Value
import Atlas.Lib.Utf8

/-!
# Texts put into an array

* `arrayText` : byte strings with a comma between each two and brackets around them;
* `isText_arrayText_iff` : when each byte string starts with a value, the whole is the array of these values just
  when nothing but white space follows each of them;
* `valid_arrayText` : it is UTF-8 just when each byte string is.
-/

namespace Json

def joined : List (List UInt8) → List UInt8
  | [] => []
  | [b] => b
  | b :: c :: rest => b ++ 44 :: joined (c :: rest)

def arrayText (bs : List (List UInt8)) : List UInt8 := 91 :: (joined bs ++ [93])

theorem joined_cons (b : List UInt8) {bs : List (List UInt8)} (h : bs ≠ []) :
    joined (b :: bs) = b ++ 44 :: joined bs := by
  cases bs with
  | nil => exact absurd rfl h
  | cons c rest => rfl

/-! ## A value at the front -/

/-- The byte string starts with `v`. -/
def StartsWith (bs : List UInt8) (v : Value) : Prop := ∃ rest, Reads bs v.tokens rest

theorem Reads.rest_unique {bs r₁ r₂ : List UInt8} {ts : List Token} (h₁ : Reads bs ts r₁) (h₂ : Reads bs ts r₂) :
    r₁ = r₂ := by
  induction ts generalizing bs with
  | nil => rw [← reads_nil.mp h₁, reads_nil.mp h₂]
  | cons t ts ih =>
    obtain ⟨m₁, hm₁, h₁⟩ := h₁
    obtain ⟨m₂, hm₂, h₂⟩ := h₂
    rw [hm₁] at hm₂
    obtain ⟨-, rfl⟩ := Prod.mk.inj (Option.some.inj hm₂)
    exact ih h₁ h₂

/-- A byte string starts with one value only. -/
theorem StartsWith.unique {bs : List UInt8} {v w : Value} (hv : StartsWith bs v) (hw : StartsWith bs w) : v = w := by
  obtain ⟨r, hr⟩ := hv
  obtain ⟨r', hr'⟩ := hw
  have h₁ := readValue_complete v (le_max_left v.depth w.depth) bs r hr
  have h₂ := readValue_complete w (le_max_right v.depth w.depth) bs r' hr'
  rw [h₁] at h₂
  exact (Prod.mk.inj (Option.some.inj h₂)).1

theorem reads_render_nil (v : Value) : Reads v.render v.tokens [] := by
  have hread := reads_render v (notStart_nil IsNumberByte)
  rwa [List.append_nil] at hread

/-- A text without white space is that of one value only. -/
theorem render_injective : Function.Injective Value.render := by
  intro v w h
  have hv := reads_render_nil v
  rw [h] at hv
  exact StartsWith.unique ⟨_, hv⟩ ⟨_, reads_render_nil w⟩

theorem IsText.startsWith {bs : List UInt8} {v : Value} (h : IsText bs v) : StartsWith bs v := by
  obtain ⟨rest, hread, -⟩ := h
  exact ⟨rest, hread⟩

/-- How many bytes are not white space. -/
def weight (bs : List UInt8) : Nat := (solid bs).length

theorem weight_append (bs cs : List UInt8) : weight (bs ++ cs) = weight bs + weight cs := by
  rw [weight, solid_append, List.length_append]
  rfl

theorem weight_symbol (s : Symbol) (bs : List UInt8) : weight (s.byte :: bs) = weight bs + 1 := by
  have hsolid : ¬ IsSpace s.byte := by cases s <;> decide
  rw [weight, solid, List.filter_cons_of_pos (by simpa using hsolid), List.length_cons]
  rfl

/-- A byte string that starts with a value weighs as much as the value just when white space follows. -/
theorem StartsWith.weight_le {bs : List UInt8} {v : Value} (h : StartsWith bs v) :
    weight v.render ≤ weight bs ∧ (weight bs = weight v.render ↔ IsText bs v) := by
  obtain ⟨rest, hread⟩ := h
  have hweight : weight bs = weight v.render + weight rest := by
    rw [weight, hread.solid, List.length_append]
    rfl
  refine ⟨by omega, ?_⟩
  constructor
  · intro heq
    refine ⟨rest, hread, solid_eq_nil.mp (List.length_eq_zero_iff.mp ?_)⟩
    show weight rest = 0
    omega
  · rintro ⟨rest', hread', hblank⟩
    obtain rfl := hread.rest_unique hread'
    have hzero : weight rest = 0 := by
      rw [weight, solid_eq_nil.mpr hblank]
      rfl
    omega

/-! ## The array -/

theorem weight_joined_cons (b : List UInt8) {bs : List (List UInt8)} (h : bs ≠ []) :
    weight (joined (b :: bs)) = weight b + 1 + weight (joined bs) := by
  rw [joined_cons b h, weight_append, show (44 : UInt8) = Symbol.comma.byte from rfl, weight_symbol]
  omega

/-- The elements of an array as they are rendered. -/
theorem render_arr (vs : List Value) : (Value.arr vs).render = arrayText (vs.map Value.render) := by
  have hsep : ∀ ws : List Value,
      (separated (ws.map Value.tokens)).flatMap Token.bytes = joined (ws.map Value.render) := by
    intro ws
    induction ws with
    | nil => rfl
    | cons w ws ih =>
      by_cases hnil : ws = []
      · subst hnil
        rfl
      · rw [List.map_cons, List.map_cons, separated_cons _ (by simpa using hnil), joined_cons _ (by simpa using hnil),
          List.flatMap_append, List.flatMap_cons, ih]
        rfl
  rw [Value.render, Value.tokens, elementTokens_eq, arrayText, ← hsep]
  simp [Token.bytes, Symbol.byte]

/-- The elements weigh no more than the byte strings that start with them, and as much only if each is a text. -/
theorem weight_joined {bs : List (List UInt8)} {vs : List Value} (h : List.Forall₂ StartsWith bs vs) :
    weight (joined (vs.map Value.render)) ≤ weight (joined bs) ∧
      (weight (joined bs) = weight (joined (vs.map Value.render)) → List.Forall₂ IsText bs vs) := by
  induction h with
  | nil => exact ⟨le_rfl, fun _ => List.Forall₂.nil⟩
  | @cons b v bs vs hb hbs ih =>
    obtain ⟨hle, htext⟩ := hb.weight_le
    by_cases hnil : bs = []
    · subst hnil
      obtain rfl := List.forall₂_nil_left_iff.mp hbs
      exact ⟨hle, fun heq => List.Forall₂.cons (htext.mp heq) List.Forall₂.nil⟩
    · have hnil' : vs.map Value.render ≠ [] := by
        intro hvs
        rw [List.map_eq_nil_iff] at hvs
        subst hvs
        exact hnil (List.forall₂_nil_right_iff.mp hbs)
      rw [List.map_cons, weight_joined_cons b hnil, weight_joined_cons _ hnil']
      refine ⟨by omega, fun heq => List.Forall₂.cons (htext.mp (by omega)) (ih.2 (by omega))⟩

theorem weight_arrayText (bs : List (List UInt8)) : weight (arrayText bs) = weight (joined bs) + 2 := by
  rw [arrayText, show (91 : UInt8) = Symbol.lbrack.byte from rfl, weight_symbol, weight_append,
    show (93 : UInt8) = Symbol.rbrack.byte from rfl, weight_symbol]
  rfl

/-- A text, then a symbol. -/
theorem IsText.reads_symbol {bs : List UInt8} {v : Value} (h : IsText bs v) (s : Symbol) (more : List UInt8) :
    Reads (bs ++ s.byte :: more) (v.tokens ++ [.sym s]) more := by
  obtain ⟨rest, hread, hblank⟩ := h
  refine reads_append.mpr ⟨rest ++ s.byte :: more, hread.append (notStart_symbol s more), ?_⟩
  exact reads_singleton.mpr (@next_complete rest more (.sym s) hblank trivial)

theorem reads_joined {bs : List (List UInt8)} {vs : List Value} (h : List.Forall₂ IsText bs vs) :
    Reads (joined bs ++ [93]) (separated (vs.map Value.tokens) ++ [.sym .rbrack]) [] := by
  induction h with
  | nil => exact Json.reads_symbol .rbrack []
  | @cons b v bs vs hb hbs ih =>
    by_cases hnil : bs = []
    · subst hnil
      obtain rfl := List.forall₂_nil_left_iff.mp hbs
      exact hb.reads_symbol .rbrack []
    · have hnil' : vs.map Value.tokens ≠ [] := by
        intro hvs
        rw [List.map_eq_nil_iff] at hvs
        subst hvs
        exact hnil (List.forall₂_nil_right_iff.mp hbs)
      have hcomma := hb.reads_symbol .comma (joined bs ++ [93])
      rw [List.map_cons, separated_cons _ hnil', joined_cons b hnil, List.append_assoc]
      have hsplit : v.tokens ++ .sym .comma :: separated (vs.map Value.tokens) ++ [.sym .rbrack]
          = (v.tokens ++ [.sym .comma]) ++ (separated (vs.map Value.tokens) ++ [.sym .rbrack]) := by simp
      rw [hsplit]
      exact reads_append.mpr ⟨_, hcomma, ih⟩

/-- **The spliced array.** -/
theorem isText_arrayText_iff {bs : List (List UInt8)} {vs : List Value} (h : List.Forall₂ StartsWith bs vs) :
    IsText (arrayText bs) (.arr vs) ↔ List.Forall₂ IsText bs vs := by
  constructor
  · intro htext
    apply (weight_joined h).2
    have hweight := htext.startsWith.weight_le.2.mpr htext
    rw [render_arr, weight_arrayText, weight_arrayText] at hweight
    omega
  · intro htexts
    refine ⟨[], ?_, fun _ h => nomatch h⟩
    rw [Value.tokens, elementTokens_eq]
    exact ⟨_, reads_singleton.mp (Json.reads_symbol .lbrack _), reads_joined htexts⟩

theorem valid_joined {bs : List (List UInt8)} (h : bs ≠ []) : Utf8.Valid (joined bs) ↔ ∀ b ∈ bs, Utf8.Valid b := by
  induction bs with
  | nil => exact absurd rfl h
  | cons b bs ih =>
    by_cases hnil : bs = []
    · subst hnil
      simp [joined]
    · rw [joined_cons b hnil, Utf8.valid_append_ascii _ _ _ (by decide), ih hnil]
      simp

theorem valid_arrayText (bs : List (List UInt8)) : Utf8.Valid (arrayText bs) ↔ ∀ b ∈ bs, Utf8.Valid b := by
  have hnil : Utf8.Valid [] := (Utf8.valid_iff []).mpr ⟨[], rfl⟩
  have hfront := Utf8.valid_append_ascii [] (joined bs ++ [93]) 91 (by decide)
  have hback := Utf8.valid_append_ascii (joined bs) [] 93 (by decide)
  rw [arrayText, ← List.nil_append (91 :: _), hfront, hback]
  by_cases hbs : bs = []
  · subst hbs
    simp [joined, hnil]
  · rw [valid_joined hbs]
    simp [hnil]

end Json
