import Atlas.Market.Tick
import Atlas.Lib.Checked
import Atlas.Lib.Json.Splice

/-!
# Ticks and their contract

* `Fits` : what the code asks for beyond the contract: lengths in bytes, numbers as plain literals below `2^64`;
* `good_text_iff` ... `good_map_iff` : each property, as it is decoded and checked;
* `accepted_obj_iff`, `accepted_arr_iff` : the values that are read and pass `validate`;
* `fromValue_toValue`, `tick_contract` : a tick is read back, and written as the contract says just when it is valid.
-/

namespace Atlas.Market

open Json SerdeJson
open Checked (check_ok_iff)
open JsonSchema (Kind Scalar Property Record IsKey NamesOnce Distinct)

/-! ## Beyond the contract -/

/-- A text within its bound in bytes; a number written with digits alone, below `2^64`. -/
structure Small (c : Scalar) (v : Value) : Prop where
  text : ∀ l, v = .str l → ∃ s, text? l = some s ∧ ∀ most ∈ c.maxLength, s.utf8ByteSize ≤ most
  number : ∀ n, v = .num n → n.neg = false ∧ n.IsInt ∧ n.value < 2 ^ 64

def Fits : Property → Value → Prop
  | .scalar c, v => Small c v
  | .map _ c, v => ∀ ms, v = .obj ms → ∀ m ∈ ms, (∃ s, text? m.1 = some s) ∧ Small c m.2

/-- The contract, and what the code asks for beyond it. -/
def Meets (c : Record) (v : Value) : Prop :=
  c.Valid v ∧ ∀ ms, v = .obj ms → ∀ m ∈ ms, ∀ p ∈ c.properties, IsKey p.1 m.1 → Fits p.2 m.2

/-- The value is read as a tick that passes its checks. -/
def Accepted (v : Value) : Prop := ∃ t, TickDataV1.fromValue v = .ok t ∧ t.validate = .ok ()

/-! ## The properties one by one -/

theorem length_runes_text {l : StrLit} {s : String} (h : text? l = some s) : (runes l).length = s.length := by
  rw [text?_eq_some_iff.mp h, List.length_map, String.length_toList]

theorem length_le_utf8ByteSize (s : String) : s.length ≤ s.utf8ByteSize := by
  rw [← Utf8.length_bytes, Utf8.bytes, Utf8.length_encode, ← String.length_toList]
  induction s.toList with
  | nil => exact le_rfl
  | cons c cs ih =>
    have hpos := c.utf8Size_pos
    rw [Utf8.byteLength] at ih ⊢
    rw [List.length_cons, List.map_cons, List.sum_cons]
    omega

theorem valid_null {c : Scalar} (h : Kind.null ∈ c.types) : c.Valid (.word .null) ∧ Small c (.word .null) := by
  constructor
  · exact ⟨⟨.null, h, rfl⟩, fun n hn => (by cases hn), fun l hl => (by cases hl), fun l hl => (by cases hl)⟩
  · exact ⟨fun l hl => (by cases hl), fun n hn => (by cases hn)⟩

theorem valid_str_iff {c : Scalar} (htype : Kind.string ∈ c.types) {most : Nat} (hmost : c.maxLength = some most)
    {l : StrLit} : c.Valid (.str l) ∧ Small c (.str l) ↔
      ∃ s, text? l = some s ∧ c.minLength ≤ s.length ∧ s.utf8ByteSize ≤ most := by
  constructor
  · rintro ⟨hvalid, hsmall⟩
    obtain ⟨s, hs, hbytes⟩ := hsmall.text l rfl
    exact ⟨s, hs, length_runes_text hs ▸ hvalid.minLength l rfl, hbytes most hmost⟩
  · rintro ⟨s, hs, hleast, hbytes⟩
    have hlength := length_runes_text hs
    have hle := length_le_utf8ByteSize s
    constructor
    · refine ⟨⟨.string, htype, l, rfl⟩, fun n hn => (by cases hn), fun l' hl' => ?_, fun l' hl' m hm => ?_⟩
      · obtain rfl := Value.str.inj hl'
        omega
      · obtain rfl := Value.str.inj hl'
        obtain rfl := Option.some.inj (hmost.symm.trans hm)
        omega
    · refine ⟨fun l' hl' => ?_, fun n hn => (by cases hn)⟩
      obtain rfl := Value.str.inj hl'
      refine ⟨s, hs, fun m hm => ?_⟩
      obtain rfl := Option.some.inj (hmost.symm.trans hm)
      exact hbytes

theorem valid_num_iff {c : Scalar} (htype : Kind.integer ∈ c.types) {least : ℚ} (hleast : c.minimum = some least)
    {n : NumLit} : c.Valid (.num n) ∧ Small c (.num n) ↔ ∃ x : UInt64, u64 (.num n) = .ok x ∧ least ≤ x.toNat := by
  constructor
  · rintro ⟨hvalid, hsmall⟩
    obtain ⟨hneg, hint, hlt⟩ := hsmall.number n rfl
    have hvalue := NumLit.value_of_isInt hint
    have hpos : 0 ≤ n.toInt := by
      rw [NumLit.toInt, hneg, if_neg Bool.false_ne_true]
      exact Int.natCast_nonneg _
    have hbound : n.toInt < 2 ^ 64 := by
      rw [hvalue] at hlt
      exact_mod_cast hlt
    have hsame : n.value = ((UInt64.ofNat n.toInt.toNat).toNat : ℚ) := by
      rw [hvalue, UInt64.toNat_ofNat_of_lt' (show n.toInt.toNat < 2 ^ 64 by omega)]
      exact_mod_cast (Int.toNat_of_nonneg hpos).symm
    exact ⟨_, u64_num_iff.mpr ⟨hneg, hint, hsame⟩, hsame ▸ hvalid.minimum n rfl least hleast⟩
  · rintro ⟨x, hx, hle⟩
    obtain ⟨hneg, hint, hvalue⟩ := u64_num_iff.mp hx
    have hden : n.value.den = 1 := by rw [hvalue, Rat.den_natCast]
    constructor
    · refine ⟨⟨.integer, htype, n, rfl, hden⟩, fun n' hn' m hm => ?_, fun l hl => (by cases hl),
        fun l hl => (by cases hl)⟩
      obtain rfl := Value.num.inj hn'
      obtain rfl := Option.some.inj (hleast.symm.trans hm)
      rw [hvalue]
      exact hle
    · refine ⟨fun l hl => (by cases hl), fun n' hn' => ?_⟩
      obtain rfl := Value.num.inj hn'
      refine ⟨hneg, hint, ?_⟩
      rw [hvalue]
      exact_mod_cast x.toNat_lt

/-- A contract on one value, and what the code asks for beyond it. -/
def Good (p : Property) (v : Value) : Prop := p.Valid v ∧ Fits p v

theorem string_ok_iff {v : Value} {s : String} : string v = .ok s ↔ ∃ l, v = .str l ∧ text? l = some s := by
  constructor
  · intro h
    cases v with
    | str l =>
      cases htext : text? l with
      | none =>
        rw [string, htext] at h
        cases h
      | some s' =>
        rw [string, htext] at h
        rw [Except.ok.inj h] at htext
        exact ⟨l, rfl, htext⟩
    | _ => cases h
  · rintro ⟨l, rfl, hl⟩
    rw [string, hl]
    rfl

theorem u64_ok {v : Value} {x : UInt64} (h : u64 v = .ok x) : ∃ n, v = .num n := by
  cases v with
  | num n => exact ⟨n, rfl⟩
  | _ => cases h

theorem good_text_iff (least most : Nat) (v : Value) : Good (text least most) v ↔
    ∃ s, string v = .ok s ∧ least ≤ s.length ∧ s.utf8ByteSize ≤ most := by
  constructor
  · intro hgood
    obtain ⟨k, hk, hof⟩ := hgood.1.types
    obtain rfl := List.mem_singleton.mp hk
    obtain ⟨l, rfl⟩ := hof
    obtain ⟨s, hs, hbounds⟩ := (valid_str_iff hk rfl).mp hgood
    exact ⟨s, string_ok_iff.mpr ⟨l, rfl, hs⟩, hbounds⟩
  · rintro ⟨s, hs, hbounds⟩
    obtain ⟨l, rfl, hl⟩ := string_ok_iff.mp hs
    exact (valid_str_iff (List.mem_singleton_self _) rfl).mpr ⟨s, hl, hbounds⟩

theorem good_whole_iff (least : ℚ) (v : Value) : Good (whole least) v ↔
    ∃ x : UInt64, u64 v = .ok x ∧ least ≤ x.toNat := by
  constructor
  · intro hgood
    obtain ⟨k, hk, hof⟩ := hgood.1.types
    obtain rfl := List.mem_singleton.mp hk
    obtain ⟨n, rfl, -⟩ := hof
    exact (valid_num_iff hk rfl).mp hgood
  · rintro ⟨x, hx, hle⟩
    obtain ⟨n, rfl⟩ := u64_ok hx
    exact (valid_num_iff (List.mem_singleton_self _) rfl).mpr ⟨x, hx, hle⟩

theorem good_orNull_iff {c : Scalar} {k : Kind} (hk : c.types = [k]) (v : Value) :
    Good (.scalar { c with types := [k, .null] }) v ↔ v = .word .null ∨ Good (.scalar c) v := by
  constructor
  · rintro ⟨hvalid, hsmall⟩
    obtain ⟨k', hk', hof⟩ := hvalid.types
    rcases List.mem_cons.mp hk' with rfl | hnull
    · exact Or.inr ⟨⟨⟨k', by rw [hk]; exact List.mem_singleton_self _, hof⟩, hvalid.minimum, hvalid.minLength,
        hvalid.maxLength⟩, ⟨hsmall.text, hsmall.number⟩⟩
    · obtain rfl := List.mem_singleton.mp hnull
      exact Or.inl hof
  · rintro (rfl | ⟨hvalid, hsmall⟩)
    · exact valid_null (by simp)
    · obtain ⟨k', hk', hof⟩ := hvalid.types
      rw [hk] at hk'
      exact ⟨⟨⟨k', List.mem_cons.mpr (Or.inl (List.mem_singleton.mp hk')), hof⟩, hvalid.minimum, hvalid.minLength,
        hvalid.maxLength⟩, ⟨hsmall.text, hsmall.number⟩⟩

/-- A value or `null`, as `Option` is read. -/
theorem option_ok_iff {α : Type} {decode : Value → Except Error α} {P : α → Prop} {v : Value} :
    (∃ o, option decode v = .ok o ∧ ∀ a ∈ o, P a) ↔ v = .word .null ∨ ∃ a, decode v = .ok a ∧ P a := by
  by_cases hv : v = .word .null
  · rw [hv]
    exact iff_of_true ⟨none, rfl, fun a ha => absurd ha (Option.not_mem_none a)⟩ (Or.inl rfl)
  · have hoption : option decode v = (decode v).map some := by
      cases v with
      | word w =>
        cases w with
        | null => exact absurd rfl hv
        | _ => rfl
      | _ => rfl
    rw [hoption, or_iff_right hv]
    cases decode v with
    | error e => exact iff_of_false (fun ⟨o, ho, _⟩ => by cases ho) (fun ⟨a, ha, _⟩ => by cases ha)
    | ok a => simp [Except.map]

theorem good_textOrNull_iff (most : Nat) (v : Value) : Good (textOrNull most) v ↔
    ∃ o, option string v = .ok o ∧ ∀ s ∈ o, s.utf8ByteSize ≤ most := by
  have htext := good_text_iff 0 most v
  simp only [Nat.zero_le, true_and] at htext
  rw [option_ok_iff, ← htext]
  exact good_orNull_iff (c := { types := [.string], maxLength := some most }) rfl v

theorem good_wholeOrNull_iff (least : ℚ) (v : Value) : Good (wholeOrNull least) v ↔
    ∃ o, option u64 v = .ok o ∧ ∀ x ∈ o, least ≤ x.toNat := by
  rw [option_ok_iff, ← good_whole_iff]
  exact good_orNull_iff (c := { types := [.integer], minimum := some least }) rfl v

/-- At most so many entries, each within its bound. -/
def WithinBounds (most length : Nat) (m : SortedMap String String) : Prop :=
  m.entries.length ≤ most ∧ ∀ e ∈ m.entries, e.2.utf8ByteSize ≤ length

theorem exists_entries {P : String → Prop} {ms : List (StrLit × Value)}
    (h : ∀ m ∈ ms, (∃ s, text? m.1 = some s) ∧ ∃ s, string m.2 = .ok s ∧ P s) :
    ∃ es, Entries string ms es ∧ ∀ e ∈ es, P e.2 := by
  induction ms with
  | nil => exact ⟨[], .nil, fun e he => absurd he List.not_mem_nil⟩
  | cons m ms ih =>
    obtain ⟨⟨⟨k, hk⟩, s, hs, hP⟩, hrest⟩ := List.forall_mem_cons.mp h
    obtain ⟨es, hes, hall⟩ := ih hrest
    exact ⟨(k, s) :: es, .cons ⟨hk, hs⟩ hes, List.forall_mem_cons.mpr ⟨hP, hall⟩⟩

theorem of_entries {P : String → Prop} {ms : List (StrLit × Value)} {es : List (String × String)}
    (h : Entries string ms es) (hall : ∀ e ∈ es, P e.2) :
    ∀ m ∈ ms, (∃ s, text? m.1 = some s) ∧ ∃ s, string m.2 = .ok s ∧ P s := by
  induction h with
  | nil => exact fun m hm => absurd hm List.not_mem_nil
  | cons hm _ ih =>
    obtain ⟨hP, hrest⟩ := List.forall_mem_cons.mp hall
    exact List.forall_mem_cons.mpr ⟨⟨⟨_, hm.1⟩, _, hm.2, hP⟩, ih hrest⟩

theorem good_map_iff (most length : Nat) {v : Value} (hdistinct : NamesOnce v) :
    Good (.map most { types := [.string], maxLength := some length }) v ↔
      ∃ m, sortedMap string v = .ok m ∧ WithinBounds most length m := by
  have hvalue (v : Value) := good_text_iff 0 length v
  simp only [Nat.zero_le, true_and] at hvalue
  constructor
  · rintro ⟨⟨ms, rfl, hlength, hvalid⟩, hfits⟩
    obtain ⟨es, hes, hall⟩ := exists_entries (P := (·.utf8ByteSize ≤ length)) fun m hm =>
      ⟨(hfits ms rfl m hm).1, (hvalue m.2).mp ⟨hvalid m hm, (hfits ms rfl m hm).2⟩⟩
    have hperm := SortedMap.perm_ofEntries (hes.nodup (hdistinct ms rfl))
    refine ⟨_, (sortedMap_ok_iff (hdistinct ms rfl)).mpr ⟨es, hes, rfl⟩, ?_, fun e he => hall e (hperm.mem_iff.mp he)⟩
    rw [hperm.length_eq, ← hes.length_eq]
    exact hlength
  · rintro ⟨m, hm, hlength, hall⟩
    cases v with
    | obj ms =>
      obtain ⟨es, hes, rfl⟩ := (sortedMap_ok_iff (hdistinct ms rfl)).mp hm
      have hperm := SortedMap.perm_ofEntries (hes.nodup (hdistinct ms rfl))
      have hgood := of_entries (P := (·.utf8ByteSize ≤ length)) hes fun e he => hall e (hperm.mem_iff.mpr he)
      rw [hperm.length_eq, ← hes.length_eq] at hlength
      refine ⟨⟨ms, rfl, hlength, fun m hm => ((hvalue m.2).mpr (hgood m hm).2).1⟩, fun ms' heq m hm => ?_⟩
      obtain rfl := Value.obj.inj heq
      exact ⟨(hgood m hm).1, ((hvalue m.2).mpr (hgood m hm).2).2⟩
    | _ => cases hm

/-! ## A tick and its members -/

theorem validate_ok_iff (t : TickDataV1) : t.validate = .ok () ↔
    (1 ≤ t.symbol.length ∧ t.symbol.utf8ByteSize ≤ 32) ∧ (1 : ℚ) ≤ t.priceScaled.toNat ∧
      (0 : ℚ) ≤ t.volumeScaled.toNat ∧ (1 : ℚ) ≤ t.timestampNs.toNat ∧
      (1 ≤ t.exchangeId.length ∧ t.exchangeId.utf8ByteSize ≤ 64) ∧
      (∀ x ∈ t.bidPriceScaled, (1 : ℚ) ≤ x.toNat) ∧ (∀ x ∈ t.askPriceScaled, (1 : ℚ) ≤ x.toNat) ∧
      (∀ s ∈ t.tradeId, s.utf8ByteSize ≤ 128) ∧ WithinBounds 16 256 t.metadata := by
  have htext (s : String) : s = "" ↔ ¬ 1 ≤ s.length := by
    rw [not_le, Nat.lt_one_iff, String.length_eq_zero_iff]
  have hpos (x : UInt64) : x = 0 ↔ ¬ (1 : ℚ) ≤ x.toNat := by
    rw [Nat.one_le_cast, not_le, Nat.lt_one_iff]
    exact UInt64.toNat_inj.symm
  have hopt (o : Option UInt64) : o = some 0 ↔ ¬ ∀ x ∈ o, (1 : ℚ) ≤ x.toNat := by
    cases o with
    | none => simp
    | some x => simp only [Option.some.injEq, hpos, Option.mem_def, forall_eq']
  have htrade : (t.tradeId.filter fun tid => tid.utf8ByteSize > 128) = none ↔
      ∀ s ∈ t.tradeId, s.utf8ByteSize ≤ 128 := by
    simp [Option.filter_eq_none_iff]
  have hlong : (t.metadata.entries.find? fun e => e.2.utf8ByteSize > 256) = none ↔
      ∀ e ∈ t.metadata.entries, e.2.utf8ByteSize ≤ 256 := by
    simp [List.find?_eq_none]
  have hvolume : (0 : ℚ) ≤ t.volumeScaled.toNat := Nat.cast_nonneg _
  rw [TickDataV1.validate, check_ok_iff, check_ok_iff, check_ok_iff, check_ok_iff, check_ok_iff, check_ok_iff,
    check_ok_iff, check_ok_iff, htext, htext, hpos, hpos, hopt, hopt, WithinBounds, ← htrade, ← hlong]
  simp only [not_not, not_lt, hvolume, true_and, and_assoc]
  refine and_congr_right' <| and_congr_right' <| and_congr_right' <| and_congr_right' <| and_congr_right' <|
    and_congr_right' <| and_congr_right' <| and_congr_right' ?_
  cases t.tradeId.filter fun tid => tid.utf8ByteSize > 128 with
  | some tid => exact iff_of_false (fun h => nomatch h) fun h => nomatch h.1
  | none =>
    dsimp only
    rw [check_ok_iff, not_lt]
    cases t.metadata.entries.find? fun e => e.2.utf8ByteSize > 256 with
    | some e => exact iff_of_false (fun h => nomatch h.2) fun h => nomatch h.2.2
    | none => simp

/-! ### Where the fields are held -/

namespace TickDataV1

theorem nodup_fields : (fields.map RecordField.name).Nodup := by decide

theorem find?_fields {f : RecordField TickDataV1} (hf : f ∈ fields) : fields.find? (·.name = f.name) = some f := by
  simp only [fields, List.mem_cons, List.not_mem_nil, or_false] at hf
  rcases hf with rfl | rfl | rfl | rfl | rfl | rfl | rfl | rfl | rfl <;> rfl

/-- Each field keeps what it decodes, and no other field touches it. -/
theorem holds_fields : Holds fields "symbol" string symbol ∧ Holds fields "price_scaled" u64 priceScaled ∧
    Holds fields "volume_scaled" u64 volumeScaled ∧ Holds fields "timestamp_ns" u64 timestampNs ∧
    Holds fields "exchange_id" string exchangeId ∧ Holds fields "bid_price_scaled" (option u64) bidPriceScaled ∧
    Holds fields "ask_price_scaled" (option u64) askPriceScaled ∧ Holds fields "trade_id" (option string) tradeId ∧
    Holds fields "metadata" (sortedMap string) metadata := by
  refine ⟨⟨fun x t => { t with symbol := x }, fun _ _ => rfl, ?_⟩,
    ⟨fun x t => { t with priceScaled := x }, fun _ _ => rfl, ?_⟩,
    ⟨fun x t => { t with volumeScaled := x }, fun _ _ => rfl, ?_⟩,
    ⟨fun x t => { t with timestampNs := x }, fun _ _ => rfl, ?_⟩,
    ⟨fun x t => { t with exchangeId := x }, fun _ _ => rfl, ?_⟩,
    ⟨fun x t => { t with bidPriceScaled := x }, fun _ _ => rfl, ?_⟩,
    ⟨fun x t => { t with askPriceScaled := x }, fun _ _ => rfl, ?_⟩,
    ⟨fun x t => { t with tradeId := x }, fun _ _ => rfl, ?_⟩,
    ⟨fun x t => { t with metadata := x }, fun _ _ => rfl, ?_⟩⟩
  all_goals
    simp only [fields, List.forall_mem_cons, List.not_mem_nil, false_imp_iff, implies_true, and_true]
    refine ⟨?_, ?_, ?_, ?_, ?_, ?_, ?_, ?_, ?_⟩
    -- the field itself, or another one
    all_goals first
      | exact Or.inl ⟨rfl, fun _ _ => rfl⟩
      | exact Or.inr (beside_of (by decide) fun _ _ => rfl)

/-- A field that is within its bounds just when its member is. -/
theorem good_iff {α : Type} {name : String} {decode : Value → Except Error α} {get : TickDataV1 → α}
    (hholds : Holds fields name decode get) {P : α → Prop} {p : Property} {ms : List (StrLit × Value)} {t : TickDataV1}
    {seen : List String} (hvisit : visitMap fields ms [] blank = .ok (t, seen))
    (hthere : P (get blank) ∨ ∃ m ∈ ms, text? m.1 = some name)
    (hgood : ∀ m ∈ ms, Good p m.2 ↔ ∃ a, decode m.2 = .ok a ∧ P a) :
    P (get t) ↔ ∀ m ∈ ms, text? m.1 = some name → Good p m.2 :=
  (hholds.ok_iff hvisit hthere).trans (forall₂_congr fun m hm => imp_congr_right fun _ => (hgood m hm).symm)

/-- **A tick is valid** just when each of its members is what the contract and the code ask for. -/
theorem validate_iff_members {ms : List (StrLit × Value)} {t : TickDataV1} {seen : List String}
    (hvisit : visitMap fields ms [] blank = .ok (t, seen))
    (hrequired : ∀ name ∈ tickDataV1.required, ∃ m ∈ ms, text? m.1 = some name)
    (hdistinct : ∀ m ∈ ms, NamesOnce m.2) :
    t.validate = .ok () ↔ ∀ p ∈ tickDataV1.properties, ∀ m ∈ ms, text? m.1 = some p.1 → Good p.2 m.2 := by
  simp only [tickDataV1, List.forall_mem_cons, List.not_mem_nil, false_imp_iff, implies_true, and_true] at hrequired ⊢
  obtain ⟨r1, r2, r3, r4, r5⟩ := hrequired
  obtain ⟨h1, h2, h3, h4, h5, h6, h7, h8, h9⟩ := holds_fields
  rw [validate_ok_iff]
  refine and_congr ?_ <| and_congr ?_ <| and_congr ?_ <| and_congr ?_ <| and_congr ?_ <| and_congr ?_ <|
    and_congr ?_ <| and_congr ?_ ?_
  · exact good_iff (P := fun s => 1 ≤ s.length ∧ s.utf8ByteSize ≤ 32) h1 hvisit (Or.inr r1)
      fun m _ => good_text_iff 1 32 m.2
  · exact good_iff (P := fun x => (1 : ℚ) ≤ x.toNat) h2 hvisit (Or.inr r2)
      fun m _ => good_whole_iff 1 m.2
  · exact good_iff (P := fun x => (0 : ℚ) ≤ x.toNat) h3 hvisit (Or.inr r3)
      fun m _ => good_whole_iff 0 m.2
  · exact good_iff (P := fun x => (1 : ℚ) ≤ x.toNat) h4 hvisit (Or.inr r4)
      fun m _ => good_whole_iff 1 m.2
  · exact good_iff (P := fun s => 1 ≤ s.length ∧ s.utf8ByteSize ≤ 64) h5 hvisit (Or.inr r5)
      fun m _ => good_text_iff 1 64 m.2
  · exact good_iff (P := fun o => ∀ x ∈ o, (1 : ℚ) ≤ x.toNat) h6 hvisit
      (Or.inl fun x hx => absurd hx (Option.not_mem_none x)) fun m _ => good_wholeOrNull_iff 1 m.2
  · exact good_iff (P := fun o => ∀ x ∈ o, (1 : ℚ) ≤ x.toNat) h7 hvisit
      (Or.inl fun x hx => absurd hx (Option.not_mem_none x)) fun m _ => good_wholeOrNull_iff 1 m.2
  · exact good_iff (P := fun o => ∀ s ∈ o, s.utf8ByteSize ≤ 128) h8 hvisit
      (Or.inl fun x hx => absurd hx (Option.not_mem_none x)) fun m _ => good_textOrNull_iff 128 m.2
  · exact good_iff (P := WithinBounds 16 256) h9 hvisit
      (Or.inl ⟨Nat.zero_le _, fun e he => absurd he List.not_mem_nil⟩)
      fun m hm => good_map_iff 16 256 (hdistinct m hm)

/-- What is good is decoded, whatever the record. -/
theorem fills_of_good {p : String × Property} (hp : p ∈ tickDataV1.properties) {m : StrLit × Value}
    (hkey : text? m.1 = some p.1) (hgood : Good p.2 m.2)
    (hdistinct : NamesOnce m.2) : Fills fields m := by
  have hfills {α : Type} {decode : Value → Except Error α} (put : α → TickDataV1 → TickDataV1) {a : α}
      (ha : decode m.2 = .ok a) (hfind : fields.find? (·.name = p.1) = some (.of p.1 decode put) ∨
        fields.find? (·.name = p.1) = some (.optional p.1 decode put)) : Fills fields m := by
    have hset : ∀ s, ∃ s', (decode m.2).map (fun a => put a s) = .ok s' := fun s => ⟨put a s, by rw [ha]; rfl⟩
    rcases hfind with hfind | hfind
    · exact ⟨.of p.1 decode put, hfind, hkey, hset⟩
    · exact ⟨.optional p.1 decode put, hfind, hkey, hset⟩
  simp only [tickDataV1, List.mem_cons, List.not_mem_nil, or_false] at hp
  rcases hp with rfl | rfl | rfl | rfl | rfl | rfl | rfl | rfl | rfl
  · obtain ⟨a, ha, -⟩ := (good_text_iff 1 32 m.2).mp hgood
    exact hfills _ ha (Or.inl rfl)
  · obtain ⟨a, ha, -⟩ := (good_whole_iff 1 m.2).mp hgood
    exact hfills _ ha (Or.inl rfl)
  · obtain ⟨a, ha, -⟩ := (good_whole_iff 0 m.2).mp hgood
    exact hfills _ ha (Or.inl rfl)
  · obtain ⟨a, ha, -⟩ := (good_whole_iff 1 m.2).mp hgood
    exact hfills _ ha (Or.inl rfl)
  · obtain ⟨a, ha, -⟩ := (good_text_iff 1 64 m.2).mp hgood
    exact hfills _ ha (Or.inl rfl)
  · obtain ⟨a, ha, -⟩ := (good_wholeOrNull_iff 1 m.2).mp hgood
    exact hfills _ ha (Or.inr rfl)
  · obtain ⟨a, ha, -⟩ := (good_wholeOrNull_iff 1 m.2).mp hgood
    exact hfills _ ha (Or.inr rfl)
  · obtain ⟨a, ha, -⟩ := (good_textOrNull_iff 128 m.2).mp hgood
    exact hfills _ ha (Or.inr rfl)
  · obtain ⟨a, ha, -⟩ := (good_map_iff 16 256 hdistinct).mp hgood
    exact hfills _ ha (Or.inr rfl)

theorem required_fields : ∀ name ∈ tickDataV1.required, ∃ f ∈ fields, f.name = name ∧ f.required = true := by decide

theorem required_of_fields : ∀ f ∈ fields, f.required = true → f.name ∈ tickDataV1.required := by decide

theorem property_of_field : ∀ f ∈ fields, ∃ p ∈ tickDataV1.properties, p.1 = f.name := by decide

theorem nodup_properties : (tickDataV1.properties.map Prod.fst).Nodup := by decide

theorem accepted_obj_iff {ms : List (StrLit × Value)} (hdistinct : (ms.map fun m => runes m.1).Nodup)
    (hinner : ∀ m ∈ ms, NamesOnce m.2) : Accepted (.obj ms) ↔ Meets tickDataV1 (.obj ms) := by
  constructor
  · rintro ⟨t, hread, hvalid⟩
    obtain ⟨seen, hvisit, hall⟩ := deserialize_ok_iff.mp hread
    have hrequired : ∀ name ∈ tickDataV1.required, ∃ m ∈ ms, text? m.1 = some name := by
      intro name hname
      obtain ⟨f, hf, rfl, hreq⟩ := required_fields name hname
      exact hall f hf hreq
    have hgood := (validate_iff_members hvisit hrequired hinner).mp hvalid
    refine ⟨⟨ms, rfl, fun name hname => ?_, fun m hm => ?_⟩, fun ms' heq m hm p hp hkey => ?_⟩
    · obtain ⟨m, hm, hkey⟩ := hrequired name hname
      exact ⟨m, hm, text?_eq_some_iff.mp hkey⟩
    · obtain ⟨f, hf, hkey, -⟩ := (visitMap_members hvisit).2.1 m hm
      obtain ⟨p, hp, hname⟩ := property_of_field f hf
      rw [← hname] at hkey
      exact ⟨p, hp, text?_eq_some_iff.mp hkey, (hgood p hp m hm hkey).1⟩
    · obtain rfl := Value.obj.inj heq
      exact (hgood p hp m hm (text?_eq_some_iff.mpr hkey)).2
  · rintro ⟨⟨ms', heq, hrequired, hmembers⟩, hfits⟩
    obtain rfl := Value.obj.inj heq
    have hthere : ∀ name ∈ tickDataV1.required, ∃ m ∈ ms, text? m.1 = some name := by
      intro name hname
      obtain ⟨m, hm, hkey⟩ := hrequired name hname
      exact ⟨m, hm, text?_eq_some_iff.mpr hkey⟩
    have hfills : ∀ m ∈ ms, Fills fields m := by
      intro m hm
      obtain ⟨p, hp, hkey, hvalid⟩ := hmembers m hm
      exact fills_of_good hp (text?_eq_some_iff.mpr hkey) ⟨hvalid, hfits ms rfl m hm p hp hkey⟩ (hinner m hm)
    have hfresh : ∀ m ∈ ms, ∀ name ∈ ([] : List String), text? m.1 ≠ some name :=
      fun m _ name hname => absurd hname List.not_mem_nil
    obtain ⟨⟨t, seen⟩, hvisit⟩ := exists_visitMap hdistinct hfills hfresh blank
    refine ⟨t, deserialize_ok_iff.mpr ⟨seen, hvisit, fun f hf hreq => hthere _ (required_of_fields f hf hreq)⟩, ?_⟩
    rw [validate_iff_members hvisit hthere hinner]
    intro p hp m hm hkey
    obtain ⟨p', hp', hkey', hvalid⟩ := hmembers m hm
    have hsame : p = p' :=
      List.inj_on_of_nodup_map nodup_properties hp hp' (JsonSchema.IsKey.unique (text?_eq_some_iff.mp hkey) hkey')
    rw [hsame]
    exact ⟨hvalid, hfits ms rfl m hm p' hp' hkey'⟩

/-! ### An array in place of an object -/

theorem asMembers_keys {vs : List Value} (fs : List (RecordField TickDataV1)) :
    (asMembers fs vs).map (fun m => text? m.1) = ((fs.map RecordField.name).take vs.length).map some := by
  induction fs generalizing vs with
  | nil => simp [asMembers]
  | cons f fs ih =>
    cases vs with
    | nil => simp [asMembers]
    | cons v vs =>
      have hrest := @ih vs
      rw [asMembers] at hrest ⊢
      simp [hrest]

theorem nodup_asMembers (vs : List Value) : ((asMembers fields vs).map fun m => runes m.1).Nodup := by
  have htexts : ((asMembers fields vs).map fun m => text? m.1).Nodup := by
    rw [asMembers_keys]
    exact ((nodup_fields.sublist (List.take_sublist _ _)).map (Option.some_injective _))
  exact nodup_runes htexts

theorem namesOnce_asMembers {vs : List Value} (h : ∀ item ∈ vs, NamesOnce item) :
    ∀ m ∈ asMembers fields vs, NamesOnce m.2 := by
  intro m hm
  rw [asMembers, ← List.map_uncurry_zip_eq_zipWith] at hm
  obtain ⟨⟨f, item⟩, hzip, rfl⟩ := List.mem_map.mp hm
  exact h item (List.of_mem_zip hzip).2

theorem container_of_accepted {v : Value} (h : Accepted v) : (∃ ms, v = .obj ms) ∨ ∃ vs, v = .arr vs := by
  obtain ⟨t, hread, -⟩ := h
  cases v with
  | obj ms => exact Or.inl ⟨ms, rfl⟩
  | arr vs => exact Or.inr ⟨vs, rfl⟩
  | word _ => simp [fromValue, deserialize] at hread
  | num _ => simp [fromValue, deserialize] at hread
  | str _ => simp [fromValue, deserialize] at hread

/-- An array of eight or nine items is read as the object that has them under the names of the fields. -/
theorem accepted_arr_iff (vs : List Value) :
    Accepted (.arr vs) ↔ (vs.length = 8 ∨ vs.length = 9) ∧ Accepted (.obj (asMembers fields vs)) := by
  have hlength (n : Nat) (hn : n ≤ 9) : (∀ f ∈ fields.drop n, f.name ∈ ["metadata"]) ↔ n = 8 ∨ n = 9 := by
    have hall : ∀ n < 10, ((∀ f ∈ fields.drop n, f.name ∈ ["metadata"]) ↔ n = 8 ∨ n = 9) := by decide
    exact hall n (by omega)
  have hseq (t : TickDataV1) : fromValue (.arr vs) = .ok t ↔ vs.length ≤ 9 ∧
      (∀ f ∈ fields.drop vs.length, f.name ∈ ["metadata"]) ∧
        ∃ seen, visitMap fields (asMembers fields vs) [] blank = .ok (t, seen) :=
    visitSeq_ok_iff (fun f hf => find?_fields hf) nodup_fields fun f _ hmem => absurd hmem List.not_mem_nil
  have hrequired (h : vs.length = 8 ∨ vs.length = 9) :
      ∀ f ∈ fields, f.required = true → ∃ m ∈ asMembers fields vs, text? m.1 = some f.name := by
    intro f hf hreq
    have hname : f.name ∈ (fields.map RecordField.name).take vs.length := by
      rcases h with h | h <;> rw [h] <;> revert f <;> decide
    have hmem : some f.name ∈ (asMembers fields vs).map fun m => text? m.1 := by
      rw [asMembers_keys]
      exact List.mem_map_of_mem hname
    exact List.mem_map.mp hmem
  unfold Accepted
  constructor
  · rintro ⟨t, hread, hvalid⟩
    obtain ⟨hle, hdrop, seen, hvisit⟩ := (hseq t).mp hread
    have h := (hlength _ hle).mp hdrop
    exact ⟨h, t, deserialize_ok_iff.mpr ⟨seen, hvisit, hrequired h⟩, hvalid⟩
  · rintro ⟨h, t, hread, hvalid⟩
    obtain ⟨seen, hvisit, -⟩ := deserialize_ok_iff.mp hread
    have hle : vs.length ≤ 9 := by omega
    exact ⟨t, (hseq t).mpr ⟨hle, (hlength _ hle).mpr h, seen, hvisit⟩, hvalid⟩

/-! ### Round trip -/

theorem string_textValue (s : String) : string (textValue s) = .ok s := by
  rw [textValue, string, text?_lit]
  rfl

theorem u64_numValue (n : UInt64) : u64 (numValue n) = .ok n := u64_natLit n

theorem option_textValue (s : String) : option string (textValue s) = .ok (some s) := by
  show (string (textValue s)).map some = _
  rw [string_textValue]
  rfl

theorem option_numValue (n : UInt64) : option u64 (numValue n) = .ok (some n) := by
  show (u64 (numValue n)).map some = _
  rw [u64_numValue]
  rfl

theorem sortedMap_entries (m : SortedMap String String) :
    sortedMap string (.obj (m.entries.map fun e => (lit e.1, textValue e.2))) = .ok m := by
  have hentries : m.entries.mapM (fun e => (string (textValue e.2)).map fun s => (e.1, s)) = .ok m.entries :=
    mapM_string text?_lit m.entries
  rw [sortedMap, mapOf_write text?_lit string textValue m.nodup, hentries]
  exact congrArg Except.ok (SortedMap.ofEntries_entries m)

/-- The fields that are always written. -/
theorem visitMap_required (t : TickDataV1) (ms : List (StrLit × Value)) :
    visitMap fields ([(lit "symbol", textValue t.symbol), (lit "price_scaled", numValue t.priceScaled),
        (lit "volume_scaled", numValue t.volumeScaled), (lit "timestamp_ns", numValue t.timestampNs),
        (lit "exchange_id", textValue t.exchangeId)] ++ ms) [] blank =
      visitMap fields ms ["exchange_id", "timestamp_ns", "volume_scaled", "price_scaled", "symbol"]
        ⟨t.symbol, t.priceScaled, t.volumeScaled, t.timestampNs, t.exchangeId, none, none, none, .empty⟩ := by
  have hread {α : Type} {name : String} {decode : Value → Except Error α} {put : α → TickDataV1 → TickDataV1}
      (hfind : fields.find? (·.name = name) = some (.of name decode put)) {v : Value} {a : α}
      (hdecode : decode v = .ok a) {seen : List String} (hseen : name ∉ seen) (ms : List (StrLit × Value))
      (t : TickDataV1) : visitMap fields ((lit name, v) :: ms) seen t = visitMap fields ms (name :: seen) (put a t) :=
    visitMap_lit hfind (set_of name hdecode t) ms hseen
  have hsymbol := @hread String "symbol" string (fun x t => { t with symbol := x }) rfl
  have hprice := @hread UInt64 "price_scaled" u64 (fun x t => { t with priceScaled := x }) rfl
  have hvolume := @hread UInt64 "volume_scaled" u64 (fun x t => { t with volumeScaled := x }) rfl
  have htimestamp := @hread UInt64 "timestamp_ns" u64 (fun x t => { t with timestampNs := x }) rfl
  have hexchange := @hread String "exchange_id" string (fun x t => { t with exchangeId := x }) rfl
  simp only [List.cons_append, List.nil_append]
  rw [hsymbol (string_textValue _) List.not_mem_nil, hprice (u64_numValue _) (by decide),
    hvolume (u64_numValue _) (by decide), htimestamp (u64_numValue _) (by decide),
    hexchange (string_textValue _) (by decide)]
  rfl

theorem visitMap_metadata (m : SortedMap String String) {seen : List String} (hseen : "metadata" ∉ seen)
    {t : TickDataV1} (hblank : t.metadata = .empty) :
    ∃ seen', visitMap fields (if m.entries = [] then []
      else [(lit "metadata", .obj (m.entries.map fun e => (lit e.1, textValue e.2)))]) seen t =
        .ok ({ t with metadata := m }, seen') := by
  split_ifs with hempty
  · obtain rfl : m = .empty := SortedMap.ext hempty
    exact ⟨seen, by rw [← hblank]; rfl⟩
  · have hfind : fields.find? (·.name = "metadata") =
      some (.optional "metadata" (sortedMap string) fun x t => { t with metadata := x }) := rfl
    exact ⟨_, visitMap_lit hfind (set_optional _ (sortedMap_entries m) t) [] hseen⟩

/-- The members of a tick are read in their order. -/
theorem visitMap_members_toValue (t : TickDataV1) {ms : List (StrLit × Value)} (h : t.toValue = .obj ms) :
    ∃ seen, visitMap fields ms [] blank = .ok (t, seen) := by
  obtain ⟨symbol, price, volume, timestamp, exchange, bid, ask, trade, metadata⟩ := t
  have hbid := @visitMap_optional TickDataV1 fields UInt64 "bid_price_scaled" (option u64)
    (fun x t => { t with bidPriceScaled := x }) rfl numValue option_numValue bid
  have hask := @visitMap_optional TickDataV1 fields UInt64 "ask_price_scaled" (option u64)
    (fun x t => { t with askPriceScaled := x }) rfl numValue option_numValue ask
  have htrade := @visitMap_optional TickDataV1 fields String "trade_id" (option string)
    (fun x t => { t with tradeId := x }) rfl textValue option_textValue trade
  obtain rfl := Value.obj.inj h
  have hrequired := visitMap_required ⟨symbol, price, volume, timestamp, exchange, bid, ask, trade, metadata⟩
  simp only [List.append_assoc]
  dsimp only at hrequired
  rw [hrequired]
  obtain ⟨seen₁, hseen₁, hread₁⟩ :=
    @hbid _ ["exchange_id", "timestamp_ns", "volume_scaled", "price_scaled", "symbol"] (by decide)
      ⟨symbol, price, volume, timestamp, exchange, none, none, none, .empty⟩ rfl
  have hnot₁ : "ask_price_scaled" ∉ seen₁ := fun hmem => absurd (hseen₁ _ hmem) (by decide)
  obtain ⟨seen₂, hseen₂, hread₂⟩ :=
    @hask _ seen₁ hnot₁ ⟨symbol, price, volume, timestamp, exchange, bid, none, none, .empty⟩ rfl
  have hnot₂ : "trade_id" ∉ seen₂ := by
    intro hmem
    rcases hseen₂ _ hmem with hname | hmem
    · exact absurd hname (by decide)
    · exact absurd (hseen₁ _ hmem) (by decide)
  obtain ⟨seen₃, hseen₃, hread₃⟩ :=
    @htrade _ seen₂ hnot₂ ⟨symbol, price, volume, timestamp, exchange, bid, ask, none, .empty⟩ rfl
  have hnot₃ : "metadata" ∉ seen₃ := by
    intro hmem
    rcases hseen₃ _ hmem with hname | hmem
    · exact absurd hname (by decide)
    rcases hseen₂ _ hmem with hname | hmem
    · exact absurd hname (by decide)
    · exact absurd (hseen₁ _ hmem) (by decide)
  rw [hread₁, hread₂, hread₃]
  exact visitMap_metadata metadata hnot₃ rfl

theorem required_toValue (t : TickDataV1) {ms : List (StrLit × Value)} (h : t.toValue = .obj ms) :
    ∀ name ∈ tickDataV1.required, ∃ m ∈ ms, text? m.1 = some name := by
  obtain rfl := Value.obj.inj h
  intro name hname
  simp only [tickDataV1, List.mem_cons, List.not_mem_nil, or_false] at hname
  rcases hname with rfl | rfl | rfl | rfl | rfl
  · exact ⟨(lit "symbol", textValue t.symbol), by simp, text?_lit _⟩
  · exact ⟨(lit "price_scaled", numValue t.priceScaled), by simp, text?_lit _⟩
  · exact ⟨(lit "volume_scaled", numValue t.volumeScaled), by simp, text?_lit _⟩
  · exact ⟨(lit "timestamp_ns", numValue t.timestampNs), by simp, text?_lit _⟩
  · exact ⟨(lit "exchange_id", textValue t.exchangeId), by simp, text?_lit _⟩

/-- The values of a tick: texts, numbers and the metadata. -/
theorem values_toValue (t : TickDataV1) {ms : List (StrLit × Value)} (h : t.toValue = .obj ms) :
    ∀ m ∈ ms, (∃ s, m.2 = textValue s) ∨ (∃ n, m.2 = numValue n) ∨
      m.2 = .obj (t.metadata.entries.map fun e => (lit e.1, textValue e.2)) := by
  obtain rfl := Value.obj.inj h
  have hmeta : ∀ m ∈ (if t.metadata.entries = [] then []
      else [(lit "metadata", Value.obj (t.metadata.entries.map fun e => (lit e.1, textValue e.2)))]),
      m.2 = .obj (t.metadata.entries.map fun e => (lit e.1, textValue e.2)) := by
    intro m hm
    split_ifs at hm
    · exact absurd hm List.not_mem_nil
    · rw [List.mem_singleton.mp hm]
  intro m hm
  rcases List.mem_append.mp hm with hm | hm
  · rcases List.mem_append.mp hm with hm | hm
    · rcases List.mem_append.mp hm with hm | hm
      · rcases List.mem_append.mp hm with hm | hm
        · simp only [List.mem_cons, List.not_mem_nil, or_false] at hm
          rcases hm with rfl | rfl | rfl | rfl | rfl
          · exact Or.inl ⟨_, rfl⟩
          · exact Or.inr (Or.inl ⟨_, rfl⟩)
          · exact Or.inr (Or.inl ⟨_, rfl⟩)
          · exact Or.inr (Or.inl ⟨_, rfl⟩)
          · exact Or.inl ⟨_, rfl⟩
        · obtain ⟨n, -, rfl⟩ := List.mem_map.mp hm
          exact Or.inr (Or.inl ⟨n, rfl⟩)
      · obtain ⟨n, -, rfl⟩ := List.mem_map.mp hm
        exact Or.inr (Or.inl ⟨n, rfl⟩)
    · obtain ⟨s, -, rfl⟩ := List.mem_map.mp hm
      exact Or.inl ⟨s, rfl⟩
  · exact Or.inr (Or.inr (hmeta m hm))

/-- **A tick is read back.** -/
theorem fromValue_toValue (t : TickDataV1) : fromValue t.toValue = .ok t := by
  obtain ⟨seen, hvisit⟩ := visitMap_members_toValue t rfl
  exact deserialize_ok_iff.mpr ⟨seen, hvisit, fun f hf hreq => required_toValue t rfl _ (required_of_fields f hf hreq)⟩

theorem depth_toValue (t : TickDataV1) : t.toValue.depth ≤ 2 := by
  have hmembers : memberDepth (t.metadata.entries.map fun e => (lit e.1, textValue e.2)) ≤ 0 := by
    refine memberDepth_le.mpr fun m hm => ?_
    obtain ⟨e, -, rfl⟩ := List.mem_map.mp hm
    exact le_rfl
  have hdepth : ∀ ms, t.toValue = .obj ms → memberDepth ms ≤ 1 := by
    intro ms h
    refine memberDepth_le.mpr fun m hm => ?_
    rcases values_toValue t h m hm with ⟨s, hs⟩ | ⟨n, hn⟩ | hobj
    · rw [hs]
      exact Nat.zero_le 1
    · rw [hn]
      exact Nat.zero_le 1
    · rw [hobj, Value.depth]
      omega
  have hone := hdepth _ rfl
  rw [toValue, Value.depth]
  omega

theorem fromJson_toJson (t : TickDataV1) : fromJson t.toJson = some t := by
  have hdepth : t.toValue.depth ≤ 127 := (depth_toValue t).trans (by decide)
  have hblank : Blank [] := fun b hb => absurd hb List.not_mem_nil
  rw [fromJson, toJson, readValue_complete t.toValue hdepth _ _ (reads_render_nil _)]
  dsimp only
  rw [if_pos hblank, fromValue_toValue]
  rfl

theorem namesOnce_toValue (t : TickDataV1) {ms : List (StrLit × Value)} (h : t.toValue = .obj ms) :
    (ms.map fun m => runes m.1).Nodup ∧ ∀ m ∈ ms, NamesOnce m.2 := by
  obtain ⟨seen, hvisit⟩ := visitMap_members_toValue t h
  refine ⟨nodup_runes (visitMap_members hvisit).2.2, fun m hm inner hinner => ?_⟩
  rcases values_toValue t h m hm with ⟨s, hs⟩ | ⟨n, hn⟩ | hobj
  · rw [hs] at hinner
    cases hinner
  · rw [hn] at hinner
    cases hinner
  · rw [hobj] at hinner
    obtain rfl := Value.obj.inj hinner
    have hkeys : (t.metadata.entries.map fun e => (lit e.1, textValue e.2)).map (fun m => text? m.1) =
        (t.metadata.entries.map Prod.fst).map some := by
      rw [List.map_map, List.map_map]
      exact List.map_congr_left fun e _ => text?_lit e.1
    apply nodup_runes
    rw [hkeys]
    exact t.metadata.nodup.map (Option.some_injective _)

theorem distinct_toValue (t : TickDataV1) : Distinct t.toValue :=
  ⟨fun _ hms => (namesOnce_toValue t hms).1, fun _ hms => (namesOnce_toValue t hms).2,
    fun _ hvs => Value.noConfusion hvs⟩

end TickDataV1

/-! ## The contract -/

/-- **The ticks and their contract.** A value is accepted just when it meets the contract with its lengths counted in
bytes and its numbers written as plain literals below `2^64`, or when it is an array of eight or nine items that do so
under the names of the fields. A tick is read back from its text, and meets the contract just when it is valid. -/
theorem tick_contract {v : Value} (h : Distinct v) :
    (Accepted v ↔ Meets tickDataV1 v ∨ ∃ vs, v = .arr vs ∧ (vs.length = 8 ∨ vs.length = 9) ∧
      Meets tickDataV1 (.obj (asMembers TickDataV1.fields vs))) ∧
    ∀ t : TickDataV1, TickDataV1.fromJson t.toJson = some t ∧ (t.validate = .ok () ↔ Meets tickDataV1 t.toValue) := by
  refine ⟨?_, fun t => ⟨TickDataV1.fromJson_toJson t, ?_⟩⟩
  · constructor
    · intro haccepted
      rcases TickDataV1.container_of_accepted haccepted with ⟨ms, rfl⟩ | ⟨vs, rfl⟩
      · exact Or.inl ((TickDataV1.accepted_obj_iff (h.1 ms rfl) (h.2.1 ms rfl)).mp haccepted)
      · have hitems := TickDataV1.namesOnce_asMembers (h.2.2 vs rfl)
        obtain ⟨hlength, hobj⟩ := (TickDataV1.accepted_arr_iff vs).mp haccepted
        exact Or.inr ⟨vs, rfl, hlength,
          (TickDataV1.accepted_obj_iff (TickDataV1.nodup_asMembers vs) hitems).mp hobj⟩
    · rintro (hmeets | ⟨vs, rfl, hlength, hmeets⟩)
      · obtain ⟨ms, rfl, -⟩ := hmeets.1
        exact (TickDataV1.accepted_obj_iff (h.1 ms rfl) (h.2.1 ms rfl)).mpr hmeets
      · have hitems := TickDataV1.namesOnce_asMembers (h.2.2 vs rfl)
        exact (TickDataV1.accepted_arr_iff vs).mpr ⟨hlength,
          (TickDataV1.accepted_obj_iff (TickDataV1.nodup_asMembers vs) hitems).mpr hmeets⟩
  · have hdistinct := TickDataV1.distinct_toValue t
    refine Iff.trans ?_ (TickDataV1.accepted_obj_iff (hdistinct.1 _ rfl) (hdistinct.2.1 _ rfl))
    constructor
    · intro hvalid
      exact ⟨t, TickDataV1.fromValue_toValue t, hvalid⟩
    · rintro ⟨t', hread, hvalid⟩
      have hsame : t = t' := Except.ok.inj ((TickDataV1.fromValue_toValue t).symm.trans hread)
      rw [hsame]
      exact hvalid

/-- A tick without bid, ask, trade or metadata. -/
def sampleTick : TickDataV1 := ⟨"BTC-USD", 10000000, 5000, 1690000000000000000, "binance", none, none, none, .empty⟩

theorem tick_contract_sample : Accepted sampleTick.toValue ∧ Meets tickDataV1 sampleTick.toValue := by
  have hvalid : sampleTick.validate = .ok () := by decide
  obtain ⟨hcontract, hticks⟩ := tick_contract (TickDataV1.distinct_toValue sampleTick)
  have hmeets := (hticks sampleTick).2.mp hvalid
  exact ⟨hcontract.mpr (Or.inl hmeets), hmeets⟩

end Atlas.Market
