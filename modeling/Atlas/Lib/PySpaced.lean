import Atlas.Lib.Json.Line
import Atlas.Lib.PyDumps

/-!
# `json.dumps(value, ensure_ascii=False)`, read by `json.loads`

* `IsTextOf` : bytes that are a text of an object, and are read as it, whatever stands behind them;
* `isTextOf_quote`, `isTextOf_repr`, `isTextOf_arr`, `isTextOf_obj` : the values of JSON, with a space behind commas
  and colons;
* `loads_of_isTextOf` : such a text alone is read as the object.
-/

namespace Py
open PyJson (PyStr)

/-! ## Strings -/

theorem exists_ascii {bs : List UInt8} (h : ∀ b ∈ bs, b.toNat < 128) :
    ∃ cs, Utf8.encode cs = bs ∧ cs.map Char.toNat = bs.map UInt8.toNat := by
  induction bs with
  | nil => exact ⟨[], rfl, rfl⟩
  | cons b bs ih =>
    obtain ⟨hb, hbs⟩ := List.forall_mem_cons.mp h
    obtain ⟨cs, hcs, hpoints⟩ := ih hbs
    refine ⟨Char.ofNat b.toNat :: cs, ?_, ?_⟩
    · rw [Utf8.encode_cons, Utf8.encodeChar_ofNat hb, hcs, List.singleton_append]
    · rw [List.map_cons, List.map_cons, Json.toNat_ofNat_byte hb, hpoints]

/-- A byte that is escaped is read as it was. -/
theorem scanString_escapeByte {b : UInt8} (h : ¬ Json.IsPlain b) (tail : PyStr) :
    scanStringFrom 0 ((Json.escapeByte b).bytes.map UInt8.toNat ++ tail) =
      (scanStringFrom 0 tail).map fun p => (b.toNat :: p.1, p.2) := by
  unfold Json.escapeByte
  rw [dif_neg h]
  split_ifs with hquote hback
  all_goals first | (subst b; rfl) | skip
  have hlow : b.toNat < 32 := by
    by_contra hge
    exact h ⟨by omega, hquote, hback⟩
  have hhex : ∀ n < 16, (Json.hexByte n).toNat = hexChar n := by decide
  have hunit : (Json.Piece.uni ⟨48, 48, Json.hexByte (b.toNat / 16 % 16), Json.hexByte (b.toNat % 16), by decide,
      by decide, Json.isHex_hexByte (Nat.mod_lt _ (by decide)),
      Json.isHex_hexByte (Nat.mod_lt _ (by decide))⟩).bytes.map UInt8.toNat = unicodeEscape b.toNat := by
    unfold Json.Piece.bytes unicodeEscape
    simp only [List.map_cons, List.map_nil, hhex _ (Nat.mod_lt _ (by decide : 0 < 16))]
    rw [Nat.div_eq_of_lt (by omega : b.toNat < 4096), Nat.div_eq_of_lt (by omega : b.toNat < 256)]
    rfl
  rw [hunit]
  refine scanString_unicodeEscape (by omega) fun hhigh => ?_
  unfold Json.IsHighSurrogate at hhigh
  omega

theorem not_special_of_plain {c : Char} (h : ∀ b ∈ String.utf8EncodeChar c, Json.IsPlain b) :
    c.toNat ≠ 34 ∧ c.toNat ≠ 92 ∧ ¬ c.toNat < 32 := by
  by_cases hascii : c.toNat < 0x80
  · obtain ⟨b, hb, hvalue⟩ := Json.encodeChar_of_ascii hascii
    obtain ⟨hlow, hquote, hback⟩ := h b (by simp [hb])
    rw [← hvalue]
    exact ⟨fun heq => hquote (UInt8.toNat_inj.mp heq), fun heq => hback (UInt8.toNat_inj.mp heq), by omega⟩
  · omega

/-- What is written for a character is read as the character. -/
theorem exists_escaped (c : Char) :
    ∃ cs, Utf8.encode cs = ((String.utf8EncodeChar c).map Json.escapeByte).flatMap Json.Piece.bytes ∧
      ∀ tail, scanStringFrom 0 (cs.map Char.toNat ++ tail) =
        (scanStringFrom 0 tail).map fun p => (c.toNat :: p.1, p.2) := by
  rcases Json.encodeChar_cases c with hplain | ⟨b, hb, hescaped, hascii, rfl⟩
  · obtain ⟨hquote, hback, hlow⟩ := not_special_of_plain hplain
    refine ⟨[c], by rw [Json.pieces_plain hplain, Utf8.encode_cons, Utf8.encode_nil, List.append_nil], fun tail => ?_⟩
    show scanStringFrom 0 (c.toNat :: tail) = _
    conv_lhs => unfold scanStringFrom
    rw [if_neg hquote, if_neg hback, if_neg hlow]
  · obtain ⟨cs, hcs, hpoints⟩ := exists_ascii fun a ha => (Json.ascii_escape hescaped a ha).2
    refine ⟨cs, by rw [hb, List.map_singleton, List.flatMap_singleton, hcs], fun tail => ?_⟩
    rw [hpoints, Json.toNat_ofNat_byte hascii]
    exact scanString_escapeByte hescaped tail

/-- A quoted text is read as that text. -/
theorem exists_quoted (ds : List Char) :
    ∃ cs, Utf8.encode cs = (Json.Token.str (Json.quote ds)).bytes ∧
      ∀ behind, ∃ s, cs.map Char.toNat ++ behind = 34 :: s ∧ scanString s = some (ds.map Char.toNat, behind) := by
  have hbody : ∃ cs, Utf8.encode cs = (Json.quote ds).flatMap Json.Piece.bytes ∧ ∀ behind,
      scanStringFrom 0 (cs.map Char.toNat ++ 34 :: behind) = some (ds.map Char.toNat, behind) := by
    induction ds with
    | nil => exact ⟨[], rfl, fun _ => rfl⟩
    | cons d ds ih =>
      obtain ⟨cs, hcs, hscan⟩ := exists_escaped d
      obtain ⟨more, hmore, hscans⟩ := ih
      refine ⟨cs ++ more, ?_, fun behind => ?_⟩
      · rw [Utf8.encode_append, hcs, hmore, Json.quote_cons, List.flatMap_append]
      · rw [List.map_append, List.append_assoc, hscan, hscans]
        rfl
  obtain ⟨cs, hcs, hscan⟩ := hbody
  refine ⟨'"' :: (cs ++ ['"']), ?_, fun behind => ⟨cs.map Char.toNat ++ 34 :: behind, ?_, hscan behind⟩⟩
  · rw [Utf8.encode_cons, Utf8.encode_append, hcs]
    rfl
  · rw [List.map_cons, List.map_append, List.cons_append, List.append_assoc]
    rfl

/-! ## Values -/

/-- The bytes are those of a text that is read as the object, whatever stands behind it. -/
def IsTextOf (digits depth : ℕ) (v : Object) (bytes : List UInt8) : Prop :=
  ∃ cs, Utf8.encode cs = bytes ∧ Starts (cs.map Char.toNat) ∧
    ∀ behind, Ends behind → scanValue digits depth (cs.map Char.toNat ++ behind) = .ok (v, behind)

section
variable {digits depth : ℕ}

theorem isTextOf_quote (ds : List Char) :
    IsTextOf digits depth (.str (ds.map Char.toNat)) ((Json.Value.str (Json.quote ds)).write .spaced) := by
  obtain ⟨cs, hcs, hscan⟩ := exists_quoted ds
  refine ⟨cs, ?_, ?_, fun behind _ => ?_⟩
  · rw [hcs, Json.Value.write, Json.Value.tokens, List.flatMap_singleton]
    rfl
  · obtain ⟨s, hs, -⟩ := hscan []
    rw [List.append_nil] at hs
    exact ⟨34, s, hs, rfl, by decide, by decide, by decide⟩
  · obtain ⟨s, hs, hstring⟩ := hscan behind
    rw [hs]
    unfold scanValue
    dsimp only
    rw [if_pos rfl, hstring]
    rfl

theorem isTextOf_repr {x : ℚ} (h : Binary64.round x = some x) :
    IsTextOf digits depth (.float (.finite x h)) ((Json.Value.num (FloatRepr.repr x)).write .spaced) := by
  obtain ⟨cs, hcs, hpoints⟩ := exists_ascii fun b hb => (Json.ascii_num (FloatRepr.repr x) b hb).2
  refine ⟨cs, ?_, ?_, fun behind hbehind => ?_⟩
  · rw [hcs, Json.Value.write, Json.Value.tokens, List.flatMap_singleton]
    rfl
  · rw [hpoints]
    exact starts_lit _
  · rw [hpoints]
    exact scanValue_doubleText digits depth (.finite x h) hbehind

/-- The texts of items, with a comma and a space between each two, are read as the items. -/
theorem exists_items {α γ : Type} {close : ℕ} {item : PyStr → Except LoadsError (α × PyStr)}
    (hclose : close = 93 ∨ close = 125) {f : γ → List UInt8} {xs : List γ} {as : List α}
    (h : List.Forall₂ (fun x a => ∃ cs, Utf8.encode cs = f x ∧ Scans close item (cs.map Char.toNat) a) xs as) :
    ∃ cs, Utf8.encode cs = [44, 32].intercalate (xs.map f) ∧
      ∀ behind, scanContainer close item (cs.map Char.toNat ++ close :: behind) = .ok (as, behind) := by
  have htexts : ∃ texts : List (List Char), texts.map Utf8.encode = xs.map f ∧
      List.Forall₂ (Scans close item) (texts.map fun cs => cs.map Char.toNat) as := by
    induction h with
    | nil => exact ⟨[], rfl, .nil⟩
    | @cons x a xs as hfirst _ ih =>
      obtain ⟨cs, hcs, hscans⟩ := hfirst
      obtain ⟨texts, hmap, hall⟩ := ih
      exact ⟨cs :: texts, by rw [List.map_cons, List.map_cons, hcs, hmap], .cons hscans hall⟩
  obtain ⟨texts, hmap, hscans⟩ := htexts
  refine ⟨[',', ' '].intercalate texts, ?_, fun behind => ?_⟩
  · rw [Utf8.encode_intercalate, hmap]
    rfl
  · have hpoints : ([',', ' '].intercalate texts).map Char.toNat =
        (44 :: [32]).intercalate (texts.map fun cs => cs.map Char.toNat) := by
      simp only [List.map_eq_flatMap, List.flatMap_intercalate]
      rfl
    rw [hpoints]
    exact scanContainer_joined hclose (by decide) hscans behind

theorem scans_of_isTextOf {v : Object} {bytes : List UInt8} (h : IsTextOf digits depth v bytes) :
    ∃ cs, Utf8.encode cs = bytes ∧ Scans 93 (scanValue digits depth) (cs.map Char.toNat) v := by
  obtain ⟨cs, hcs, ⟨c, s, hstart, hblank, hclose, -⟩, hscan⟩ := h
  exact ⟨cs, hcs, ⟨c, s, hstart, hblank, hclose⟩, hscan⟩

theorem isTextOf_arr {values : List Json.Value} {items : List Object}
    (h : List.Forall₂ (fun value v => IsTextOf digits depth v (value.write .spaced)) values items) :
    IsTextOf digits (depth + 1) (.list items) ((Json.Value.arr values).write .spaced) := by
  obtain ⟨cs, hcs, hscan⟩ := exists_items (.inl rfl) (h.imp fun _ _ => scans_of_isTextOf)
  refine ⟨'[' :: (cs ++ [']']), ?_, ⟨91, _, rfl, rfl, by decide, by decide, by decide⟩, fun behind _ => ?_⟩
  · rw [Json.write_arr, Utf8.encode_cons, Utf8.encode_append, hcs]
    rfl
  · have hread := hscan behind
    rw [List.map_cons, List.map_append, List.cons_append, List.append_assoc]
    show (scanContainer 93 (scanValue digits depth) (cs.map Char.toNat ++ 93 :: behind)).map _ = _
    rw [hread]
    rfl

theorem scans_of_member {key : List Char} {value : Json.Value} {v : Object}
    (h : IsTextOf digits depth v (value.write .spaced)) :
    ∃ cs, Utf8.encode cs = Json.memberText .spaced (Json.quote key, value) ∧
      Scans 125 (scanMember (scanValue digits depth)) (cs.map Char.toNat) (key.map Char.toNat, v) := by
  obtain ⟨text, htext, hstarts, hscan⟩ := h
  obtain ⟨quoted, hquoted, hkey⟩ := exists_quoted key
  refine ⟨quoted ++ ':' :: ' ' :: text, ?_, ?_, fun behind hbehind => ?_⟩
  · rw [Utf8.encode_append, hquoted, Utf8.encode_cons, Utf8.encode_cons, htext]
    rfl
  · obtain ⟨s, hs, -⟩ := hkey ((':' :: ' ' :: text).map Char.toNat)
    exact ⟨34, s, by rw [List.map_append, hs], rfl, by decide⟩
  · obtain ⟨s, hs, hstring⟩ := hkey (58 :: ([32] ++ (text.map Char.toNat ++ behind)))
    have hsplit : (quoted ++ ':' :: ' ' :: text).map Char.toNat ++ behind = 34 :: s := by
      rw [← hs, List.map_append, List.append_assoc]
      rfl
    rw [hsplit]
    exact scanMember_text (by decide) hstring hstarts (hscan behind hbehind)

/-- The keys of an object are read in their order, a later one with the name of an earlier one in its place. -/
theorem isTextOf_obj {members : List (List Char × Json.Value)} {items : List (PyStr × Object)}
    (h : List.Forall₂ (fun m item => item.1 = m.1.map Char.toNat ∧ IsTextOf digits depth item.2 (m.2.write .spaced))
      members items) :
    IsTextOf digits (depth + 1) (.dict (Dict.ofPairs items).entries)
      ((Json.Value.obj (members.map fun m => (Json.quote m.1, m.2))).write .spaced) := by
  have hmembers : List.Forall₂ (fun m item => ∃ cs, Utf8.encode cs = Json.memberText .spaced (Json.quote m.1, m.2) ∧
      Scans 125 (scanMember (scanValue digits depth)) (cs.map Char.toNat) item) members items := by
    refine h.imp fun m item hitem => ?_
    obtain ⟨key, v⟩ := item
    obtain ⟨rfl, hv⟩ := hitem
    exact scans_of_member hv
  obtain ⟨cs, hcs, hscan⟩ := exists_items (.inr rfl) hmembers
  refine ⟨'{' :: (cs ++ ['}']), ?_, ⟨123, _, rfl, rfl, by decide, by decide, by decide⟩, fun behind _ => ?_⟩
  · rw [Json.write_obj, Utf8.encode_cons, Utf8.encode_append, hcs, List.map_map]
    rfl
  · have hread := hscan behind
    rw [List.map_cons, List.map_append, List.cons_append, List.append_assoc]
    show (scanContainer 125 (scanMember (scanValue digits depth)) (cs.map Char.toNat ++ 125 :: behind)).map _ = _
    rw [hread]
    rfl

end

/-- **A text of an object** is loaded as the object, when no more containers are nested than the interpreter reads. -/
theorem loads_of_isTextOf {limits : Limits} {v : Object} {line : List Char}
    (h : IsTextOf limits.digits limits.loads v (Utf8.encode line)) : loads limits (line.map Char.toNat) = .ok v := by
  obtain ⟨cs, hcs, ⟨c, s, hstart, hblank, -, -, hascii⟩, hscan⟩ := h
  obtain rfl : cs = line := by rw [← Utf8.lossy_encode cs, hcs, Utf8.lossy_encode]
  have hread := hscan [] (fun _ h => nomatch h)
  rw [List.append_nil] at hread
  unfold loads
  rw [if_neg, hstart, skipBlank_cons hblank, ← hstart, hread]
  · rfl
  · rw [hstart]
    rintro ⟨⟩
    exact absurd hascii (by decide)

end Py
