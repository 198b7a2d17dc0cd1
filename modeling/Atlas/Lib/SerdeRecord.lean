import Atlas.Lib.SerdeJson
import Atlas.Lib.SortedMap

/-!
# Records of serde: what an object holds, and an array in its place

* `u64`, `natLit`, `sortedMap` : unsigned integers and ordered maps;
* `visitSeq` : a record from an array, its fields in order;
* `Holds` : a field that keeps what it decodes, and that no other field touches; `Holds.ok_iff` : what is true of it;
* `deserialize_isOk_iff` : the objects that are read; `visitSeq_eq_deserialize` : an array, as the object it stands for.
-/

namespace SerdeJson

open Json

theorem text?_eq_some_iff {l : StrLit} {s : String} : text? l = some s ↔ runes l = s.toList.map .char := by
  refine ⟨fun h => ?_, text?_eq⟩
  obtain ⟨cs, hcs, rfl⟩ := Option.map_eq_some_iff.mp h
  have hrunes : ∀ (rs : List Rune) (cs : List Char), rs.mapM charOf = some cs → rs = cs.map .char := by
    intro rs
    induction rs with
    | nil =>
      intro cs hcs
      obtain rfl := Option.some.inj hcs
      rfl
    | cons r rs ih =>
      intro cs hcs
      rw [List.mapM_cons] at hcs
      obtain ⟨c, hc, hrest⟩ := Option.bind_eq_some_iff.mp hcs
      obtain ⟨cs', hcs', hcons⟩ := Option.bind_eq_some_iff.mp hrest
      obtain rfl := Option.some.inj hcons
      cases r with
      | char d =>
        obtain rfl := Option.some.inj hc
        rw [ih cs' hcs', List.map_cons]
      | surrogate u h => cases hc
      | broken b => cases hc
  rw [hrunes _ _ hcs, String.toList_ofList]

/-! ## Numbers and maps -/

/-- A literal without sign, fraction and exponent, below `2^64`. -/
def u64 : Value → Except Error UInt64
  | .num n =>
    if n.neg = false ∧ n.IsInt ∧ n.toInt < 2 ^ 64 then .ok (UInt64.ofNat n.toInt.toNat) else .error (.expected "u64")
  | _ => .error (.expected "u64")

theorem head_render {n : Nat} (h : n ≠ 0) : (Decimal.render n).head? ≠ some 48 := by
  have hne : Nat.digits 10 n ≠ [] := Nat.digits_ne_nil_iff_ne_zero.mpr h
  rw [Decimal.render, if_neg h, List.head?_map, List.head?_reverse, List.getLast?_eq_getLast_of_ne_nil hne,
    Option.map_some]
  intro heq
  have hlast := Nat.getLast_digit_ne_zero 10 h
  have hlt := Nat.digits_lt_base (by decide) (List.getLast_mem hne)
  have hbyte := congrArg UInt8.toNat (Option.some.inj heq)
  rw [Decimal.toNat_digitByte hlt] at hbyte
  exact hlast (Nat.add_left_cancel hbyte)

/-- A natural number as it is written. -/
def natLit (n : Nat) : NumLit where
  neg := false
  int :=
    if h : n = 0 then .zero
    else .pos ⟨Decimal.render n, Decimal.render_ne_nil n, fun _ => Decimal.isDigit_of_mem_render⟩ (head_render h)
  frac := none
  exp := none

theorem toInt_natLit (n : Nat) : (natLit n).toInt = n := by
  have hbytes : (natLit n).int.bytes = Decimal.render n := by
    unfold natLit
    dsimp only
    split_ifs with h
    · rw [h]
      rfl
    · rfl
  rw [NumLit.toInt, hbytes, Decimal.value_render]
  rfl

@[simp] theorem u64_natLit (n : UInt64) : u64 (.num (natLit n.toNat)) = .ok n := by
  have hlt : ((n.toNat : Nat) : ℤ) < 2 ^ 64 := by exact_mod_cast n.toNat_lt
  rw [u64, toInt_natLit, if_pos ⟨rfl, ⟨rfl, rfl⟩, hlt⟩, Int.toNat_natCast, UInt64.ofNat_toNat]

theorem u64_num_iff {n : NumLit} {x : UInt64} :
    u64 (.num n) = .ok x ↔ n.neg = false ∧ n.IsInt ∧ n.value = x.toNat := by
  unfold u64
  dsimp only
  constructor
  · intro hok
    split_ifs at hok with h
    obtain ⟨hneg, hint, hlt⟩ := h
    obtain rfl := Except.ok.inj hok
    have hpos : 0 ≤ n.toInt := by
      rw [NumLit.toInt, hneg, if_neg Bool.false_ne_true]
      exact Int.natCast_nonneg _
    have hsmall : n.toInt.toNat < 2 ^ 64 := by omega
    refine ⟨hneg, hint, ?_⟩
    rw [NumLit.value_of_isInt hint, UInt64.toNat_ofNat_of_lt' hsmall]
    exact_mod_cast (Int.toNat_of_nonneg hpos).symm
  · rintro ⟨hneg, hint, hx⟩
    rw [NumLit.value_of_isInt hint] at hx
    have hvalue : n.toInt = (x.toNat : ℤ) := by exact_mod_cast hx
    have hlt : ((x.toNat : Nat) : ℤ) < 2 ^ 64 := by exact_mod_cast x.toNat_lt
    rw [hvalue, if_pos ⟨hneg, hint, hlt⟩, Int.toNat_natCast, UInt64.ofNat_toNat]

/-- A map in the order of its keys. -/
def sortedMap {α : Type} (decode : Value → Except Error α) (v : Value) : Except Error (SortedMap String α) :=
  (mapOf decode v).map SortedMap.ofEntries

/-- What the members of an object are as entries of a map. -/
def Entries {α : Type} (decode : Value → Except Error α) : List (StrLit × Value) → List (String × α) → Prop :=
  List.Forall₂ fun m e => text? m.1 = some e.1 ∧ decode m.2 = .ok e.2

theorem Entries.keys {α : Type} {decode : Value → Except Error α} {ms : List (StrLit × Value)}
    {es : List (String × α)} (h : Entries decode ms es) :
    ms.map (fun m => runes m.1) = es.map fun e => e.1.toList.map .char := by
  induction h with
  | nil => rfl
  | cons hm _ ih => rw [List.map_cons, List.map_cons, text?_eq_some_iff.mp hm.1, ih]

theorem Entries.nodup {α : Type} {decode : Value → Except Error α} {ms : List (StrLit × Value)}
    {es : List (String × α)} (h : Entries decode ms es) (hdistinct : (ms.map fun m => runes m.1).Nodup) :
    (es.map Prod.fst).Nodup := by
  have hkeys : es.map (fun e => e.1.toList.map Rune.char) = (es.map Prod.fst).map fun s => s.toList.map .char := by
    rw [List.map_map]
    rfl
  rw [h.keys, hkeys] at hdistinct
  exact hdistinct.of_map _

theorem addEntry_ok_iff {α : Type} {decode : Value → Except Error α} {entries r : List (String × α)}
    {m : StrLit × Value} : addEntry decode entries m = .ok r ↔
      ∃ e : String × α, text? m.1 = some e.1 ∧ decode m.2 = .ok e.2 ∧ r = entries.filter (·.1 ≠ e.1) ++ [e] := by
  have hkey : string (.str m.1) = (text? m.1).elim (.error .invalidText) .ok := rfl
  unfold addEntry
  rw [hkey]
  cases text? m.1 with
  | none => cases decode m.2 <;> simp
  | some key =>
    cases decode m.2 with
    | error e => simp
    | ok a =>
      constructor
      · intro h
        obtain rfl := Except.ok.inj h
        exact ⟨(key, a), rfl, rfl, rfl⟩
      · rintro ⟨⟨k, b⟩, hk, hb, rfl⟩
        obtain rfl := Option.some.inj hk
        obtain rfl : a = b := Except.ok.inj hb
        rfl

/-- An object whose names are different is read entry by entry. -/
theorem foldlM_addEntry_ok_iff {α : Type} {decode : Value → Except Error α} {ms : List (StrLit × Value)}
    (hdistinct : (ms.map fun m => runes m.1).Nodup) {entries r : List (String × α)}
    (hnew : ∀ e ∈ entries, ∀ m ∈ ms, text? m.1 ≠ some e.1) :
    ms.foldlM (addEntry decode) entries = .ok r ↔ ∃ es, Entries decode ms es ∧ r = entries ++ es := by
  induction ms generalizing entries with
  | nil =>
    constructor
    · intro h
      exact ⟨[], .nil, by rw [List.append_nil]; exact (Except.ok.inj h).symm⟩
    · rintro ⟨es, hes, rfl⟩
      obtain rfl := List.forall₂_nil_left_iff.mp hes
      rw [List.append_nil]
      rfl
  | cons m ms ih =>
    rw [List.map_cons, List.nodup_cons] at hdistinct
    have hkept (e : String × α) (he : text? m.1 = some e.1) : entries.filter (·.1 ≠ e.1) = entries := by
      refine List.filter_eq_self.mpr fun e' he' => decide_eq_true fun hkey => ?_
      exact hnew e' he' m List.mem_cons_self (he.trans (congrArg some hkey.symm))
    have hfresh (e : String × α) (he : text? m.1 = some e.1) :
        ∀ e' ∈ entries ++ [e], ∀ m' ∈ ms, text? m'.1 ≠ some e'.1 := by
      intro e' he' m' hm'
      rcases List.mem_append.mp he' with he' | he'
      · exact hnew e' he' m' (List.mem_cons_of_mem _ hm')
      · obtain rfl := List.mem_singleton.mp he'
        intro heq
        refine hdistinct.1 (List.mem_map.mpr ⟨m', hm', ?_⟩)
        exact (text?_eq_some_iff.mp heq).trans (text?_eq_some_iff.mp he).symm
    rw [List.foldlM_cons]
    constructor
    · intro h
      cases hadd : addEntry decode entries m with
      | error e =>
        rw [hadd] at h
        cases h
      | ok entries' =>
        rw [hadd] at h
        obtain ⟨e, hkey, hdecode, rfl⟩ := addEntry_ok_iff.mp hadd
        rw [hkept e hkey] at h
        obtain ⟨es, hes, rfl⟩ := (ih hdistinct.2 (hfresh e hkey)).mp h
        exact ⟨e :: es, .cons ⟨hkey, hdecode⟩ hes, List.append_assoc entries [e] es⟩
    · rintro ⟨es, hes, rfl⟩
      cases hes with
      | @cons _ e _ es hm hrest =>
        have hadd : addEntry decode entries m = .ok (entries ++ [e]) :=
          addEntry_ok_iff.mpr ⟨e, hm.1, hm.2, by rw [hkept e hm.1]⟩
        rw [hadd]
        exact (ih hdistinct.2 (hfresh e hm.1)).mpr ⟨es, hrest, (List.append_assoc entries [e] es).symm⟩

/-- What an ordered map is read from. -/
theorem sortedMap_ok_iff {α : Type} {decode : Value → Except Error α} {ms : List (StrLit × Value)}
    (hdistinct : (ms.map fun m => runes m.1).Nodup) {m : SortedMap String α} :
    sortedMap decode (.obj ms) = .ok m ↔ ∃ es, Entries decode ms es ∧ m = SortedMap.ofEntries es := by
  have hnew : ∀ e ∈ ([] : List (String × α)), ∀ m ∈ ms, text? m.1 ≠ some e.1 :=
    fun e he => absurd he List.not_mem_nil
  rw [sortedMap, mapOf_obj]
  constructor
  · intro h
    cases hfold : ms.foldlM (addEntry decode) [] with
    | error e =>
      rw [hfold] at h
      cases h
    | ok r =>
      rw [hfold] at h
      obtain ⟨es, hes, hr⟩ := (foldlM_addEntry_ok_iff hdistinct hnew).mp hfold
      rw [hr, List.nil_append] at h
      exact ⟨es, hes, (Except.ok.inj h).symm⟩
  · rintro ⟨es, hes, rfl⟩
    rw [(foldlM_addEntry_ok_iff hdistinct hnew).mpr ⟨es, hes, rfl⟩]
    rfl

/-! ## Records -/

section Record
variable {σ : Type} {fields : List (RecordField σ)}

/-- A record from an array: its fields in order, those of `defaults` left out at the end at will. -/
def visitSeq (defaults : List String) : List (RecordField σ) → List Value → σ → Except Error σ
  | [], [], s => .ok s
  | [], _ :: _, _ => .error (.expected "fewer elements in array")
  | f :: fs, [], s => if f.name ∈ defaults then visitSeq defaults fs [] s else .error (.missingField f.name)
  | f :: fs, v :: vs, s =>
    match f.set v s with
    | .error e => .error e
    | .ok s => visitSeq defaults fs vs s

/-- Another field, which leaves `get` as it is. -/
def Beside {α : Type} (name : String) (get : σ → α) (f : RecordField σ) : Prop :=
  f.name ≠ name ∧ ∀ v s s', f.set v s = .ok s' → get s' = get s

/-- The field `name` keeps what it decodes, and no other field touches it. -/
def Holds {α : Type} (fields : List (RecordField σ)) (name : String) (decode : Value → Except Error α)
    (get : σ → α) : Prop :=
  ∃ put : α → σ → σ, (∀ a s, get (put a s) = a) ∧ ∀ f ∈ fields,
    (f.name = name ∧ ∀ v s, f.set v s = (decode v).map fun a => put a s) ∨ Beside name get f

theorem of_map_ok {α : Type} {x : Except Error α} {g : α → σ} {s' : σ} (h : x.map g = .ok s') :
    ∃ a, x = .ok a ∧ s' = g a := by
  cases x with
  | error e => cases h
  | ok a => exact ⟨a, rfl, (Except.ok.inj h).symm⟩

theorem beside_of {α β : Type} {n name : String} {get : σ → α} {decode : Value → Except Error β} {put : β → σ → σ}
    (hname : name ≠ n) (hget : ∀ b s, get (put b s) = get s) : Beside n get (.of name decode put) := by
  refine ⟨hname, fun v s s' h => ?_⟩
  obtain ⟨b, -, rfl⟩ := of_map_ok h
  exact hget b s

theorem visitMap_cons_ok {m : StrLit × Value} {ms : List (StrLit × Value)} {seen : List String} {s : σ}
    {r : σ × List String} : visitMap fields (m :: ms) seen s = .ok r ↔
      ∃ f s', text? m.1 = some f.name ∧ fields.find? (·.name = f.name) = some f ∧ f.name ∉ seen ∧
        f.set m.2 s = .ok s' ∧ visitMap fields ms (f.name :: seen) s' = .ok r := by
  rw [visitMap]
  cases htext : text? m.1 with
  | none => simp
  | some key =>
    dsimp only
    cases hfind : fields.find? (·.name = key) with
    | none =>
      refine iff_of_false (fun h => by cases h) ?_
      rintro ⟨f, s', hkey, hf, -⟩
      rw [← Option.some.inj hkey, hfind] at hf
      cases hf
    | some f =>
      have hname : f.name = key := by simpa using List.find?_some hfind
      dsimp only
      constructor
      · intro h
        split_ifs at h with hseen
        cases hset : f.set m.2 s with
        | error e =>
          rw [hset] at h
          cases h
        | ok s' =>
          rw [hset] at h
          exact ⟨f, s', by rw [hname], by rw [hname, hfind], by rw [hname]; exact hseen, hset, by rw [hname]; exact h⟩
      · rintro ⟨g, s', hkey, hg, hseen, hset, hrest⟩
        obtain rfl := Option.some.inj hkey
        obtain rfl : f = g := Option.some.inj (hfind.symm.trans hg)
        rw [if_neg hseen, hset]
        exact hrest

/-- The members that a record was read from: known names, each once. -/
theorem visitMap_members {ms : List (StrLit × Value)} {seen : List String} {s s' : σ} {seen' : List String}
    (h : visitMap fields ms seen s = .ok (s', seen')) :
    (∀ name, name ∈ seen' ↔ name ∈ seen ∨ ∃ m ∈ ms, text? m.1 = some name) ∧
      (∀ m ∈ ms, ∃ f ∈ fields, text? m.1 = some f.name ∧ f.name ∉ seen ∧ ∃ t t', f.set m.2 t = .ok t') ∧
      (ms.map fun m => text? m.1).Nodup := by
  induction ms generalizing seen s with
  | nil =>
    obtain ⟨-, rfl⟩ := Prod.mk.inj (Except.ok.inj h)
    exact ⟨fun name => by simp, fun m hm => absurd hm List.not_mem_nil, List.nodup_nil⟩
  | cons m ms ih =>
    obtain ⟨f, t, htext, hfind, hseen, hset, hrest⟩ := visitMap_cons_ok.mp h
    obtain ⟨hnames, hmembers, hnodup⟩ := ih hrest
    refine ⟨fun name => ?_, fun m' hm' => ?_, ?_⟩
    · rw [hnames, List.mem_cons, List.exists_mem_cons_iff, htext, Option.some.injEq, or_comm (a := name = f.name),
        or_assoc, eq_comm (a := name)]
    · rcases List.mem_cons.mp hm' with rfl | hm'
      · exact ⟨f, List.mem_of_find?_eq_some hfind, htext, hseen, s, t, hset⟩
      · obtain ⟨g, hg, htext', hnot, hset'⟩ := hmembers m' hm'
        exact ⟨g, hg, htext', fun hmem => hnot (List.mem_cons_of_mem _ hmem), hset'⟩
    · rw [List.map_cons, List.nodup_cons, htext]
      refine ⟨fun hmem => ?_, hnodup⟩
      obtain ⟨m', hm', hsame⟩ := List.mem_map.mp hmem
      obtain ⟨g, -, htext', hnot, -⟩ := hmembers m' hm'
      exact hnot (Option.some.inj (htext'.symm.trans hsame) ▸ List.mem_cons_self)

theorem nodup_runes {ms : List (StrLit × Value)} (h : (ms.map fun m => text? m.1).Nodup) :
    (ms.map fun m => runes m.1).Nodup := by
  have hsplit : ms.map (fun m => text? m.1) =
      (ms.map fun m => runes m.1).map fun rs => (rs.mapM charOf).map String.ofList := by
    rw [List.map_map]
    rfl
  rw [hsplit] at h
  exact h.of_map _

theorem Holds.visitMap {α : Type} {name : String} {decode : Value → Except Error α} {get : σ → α}
    (hholds : Holds fields name decode get) {ms : List (StrLit × Value)} {seen : List String} {s s' : σ}
    {seen' : List String} (h : visitMap fields ms seen s = .ok (s', seen')) :
    (∀ m ∈ ms, text? m.1 = some name → decode m.2 = .ok (get s')) ∧
      ((∀ m ∈ ms, text? m.1 ≠ some name) → get s' = get s) := by
  obtain ⟨put, hput, hall⟩ := hholds
  induction ms generalizing seen s with
  | nil =>
    obtain ⟨rfl, -⟩ := Prod.mk.inj (Except.ok.inj h)
    exact ⟨fun m hm => absurd hm List.not_mem_nil, fun _ => rfl⟩
  | cons m ms ih =>
    obtain ⟨f, t, htext, hfind, hseen, hset, hrest⟩ := visitMap_cons_ok.mp h
    obtain ⟨hlater, hkept⟩ := ih hrest
    have hfresh := (visitMap_members hrest).2.1
    rcases hall f (List.mem_of_find?_eq_some hfind) with ⟨hname, hput'⟩ | ⟨hname, hother⟩
    · have hnone : ∀ m' ∈ ms, text? m'.1 ≠ some name := by
        intro m' hm' htext'
        obtain ⟨g, -, hg, hnot, -⟩ := hfresh m' hm'
        exact hnot (Option.some.inj (hg.symm.trans htext') ▸ hname ▸ List.mem_cons_self)
      have hget : decode m.2 = .ok (get s') := by
        rw [hput'] at hset
        cases hdecode : decode m.2 with
        | error e =>
          rw [hdecode] at hset
          cases hset
        | ok a =>
          rw [hdecode] at hset
          rw [hkept hnone, ← Except.ok.inj hset, hput]
      refine ⟨fun m' hm' htext' => ?_, fun hno => absurd (htext.trans (congrArg some hname)) (hno m List.mem_cons_self)⟩
      rcases List.mem_cons.mp hm' with rfl | hm'
      · exact hget
      · exact absurd htext' (hnone m' hm')
    · refine ⟨fun m' hm' htext' => ?_, fun hno => ?_⟩
      · rcases List.mem_cons.mp hm' with rfl | hm'
        · exact absurd (Option.some.inj (htext.symm.trans htext')) hname
        · exact hlater m' hm' htext'
      · rw [hkept fun m' hm' => hno m' (List.mem_cons_of_mem _ hm'), hother _ _ _ hset]

/-- What is true of a field, from its member or by default. -/
theorem Holds.ok_iff {α : Type} {name : String} {decode : Value → Except Error α} {get : σ → α}
    (hholds : Holds fields name decode get) {P : α → Prop} {ms : List (StrLit × Value)} {blank s : σ}
    {seen : List String} (h : SerdeJson.visitMap fields ms [] blank = .ok (s, seen))
    (hthere : P (get blank) ∨ ∃ m ∈ ms, text? m.1 = some name) :
    P (get s) ↔ ∀ m ∈ ms, text? m.1 = some name → ∃ a, decode m.2 = .ok a ∧ P a := by
  obtain ⟨hread, hkept⟩ := hholds.visitMap h
  constructor
  · exact fun hP m hm htext => ⟨get s, hread m hm htext, hP⟩
  · intro hall
    by_cases hmem : ∃ m ∈ ms, text? m.1 = some name
    · obtain ⟨m, hm, htext⟩ := hmem
      obtain ⟨a, ha, hP⟩ := hall m hm htext
      rwa [Except.ok.inj ((hread m hm htext).symm.trans ha)]
    · rw [hkept fun m hm htext => hmem ⟨m, hm, htext⟩]
      exact hthere.resolve_right hmem

/-- A field that the member `m` fills, whatever the record. -/
def Fills (fields : List (RecordField σ)) (m : StrLit × Value) : Prop :=
  ∃ f, fields.find? (·.name = f.name) = some f ∧ text? m.1 = some f.name ∧ ∀ s, ∃ s', f.set m.2 s = .ok s'

theorem exists_visitMap {ms : List (StrLit × Value)} (hdistinct : (ms.map fun m => runes m.1).Nodup)
    (hfills : ∀ m ∈ ms, Fills fields m) {seen : List String} (hfresh : ∀ m ∈ ms, ∀ name ∈ seen, text? m.1 ≠ some name)
    (s : σ) : ∃ r, visitMap fields ms seen s = .ok r := by
  induction ms generalizing seen s with
  | nil => exact ⟨_, rfl⟩
  | cons m ms ih =>
    rw [List.map_cons, List.nodup_cons] at hdistinct
    obtain ⟨⟨f, hfind, htext, hset⟩, hrest⟩ := List.forall_mem_cons.mp hfills
    obtain ⟨s', hs'⟩ := hset s
    have hfresh' : ∀ m' ∈ ms, ∀ name ∈ f.name :: seen, text? m'.1 ≠ some name := by
      intro m' hm' name hname htext'
      rcases List.mem_cons.mp hname with rfl | hname
      · refine hdistinct.1 (List.mem_map.mpr ⟨m', hm', ?_⟩)
        exact (text?_eq_some_iff.mp htext').trans (text?_eq_some_iff.mp htext).symm
      · exact hfresh m' (List.mem_cons_of_mem _ hm') name hname htext'
    obtain ⟨r, hr⟩ := ih hdistinct.2 hrest hfresh' s'
    refine ⟨r, visitMap_cons_ok.mpr ⟨f, s', htext, hfind, ?_, hs', hr⟩⟩
    exact fun hseen => hfresh m List.mem_cons_self f.name hseen htext

theorem deserialize_ok_iff {blank s : σ} {ms : List (StrLit × Value)} :
    deserialize fields blank (.obj ms) = .ok s ↔ ∃ seen, visitMap fields ms [] blank = .ok (s, seen) ∧
      ∀ f ∈ fields, f.required = true → ∃ m ∈ ms, text? m.1 = some f.name := by
  rw [deserialize]
  cases hvisit : visitMap fields ms [] blank with
  | error e => simp
  | ok p =>
    obtain ⟨t, seen⟩ := p
    have hseen (f : RecordField σ) : f.name ∈ seen ↔ ∃ m ∈ ms, text? m.1 = some f.name := by
      rw [(visitMap_members hvisit).1]
      exact or_iff_right List.not_mem_nil
    simp only [← hseen]
    cases hfind : fields.find? fun f => f.required ∧ f.name ∉ seen with
    | some f =>
      obtain ⟨hrequired, hmissing⟩ : f.required = true ∧ f.name ∉ seen := by simpa using List.find?_some hfind
      refine iff_of_false (fun h => by cases h) ?_
      rintro ⟨seen', heq, hall⟩
      obtain ⟨-, rfl⟩ := Prod.mk.inj (Except.ok.inj heq)
      exact hmissing (hall f (List.mem_of_find?_eq_some hfind) hrequired)
    | none =>
      have hall : ∀ f ∈ fields, f.required = true → f.name ∈ seen := by
        intro f hf hrequired
        have hnot := List.find?_eq_none.mp hfind f hf
        simpa [hrequired] using hnot
      constructor
      · intro h
        obtain rfl := Except.ok.inj h
        exact ⟨seen, rfl, hall⟩
      · rintro ⟨seen', heq, -⟩
        rw [(Prod.mk.inj (Except.ok.inj heq)).1]

theorem visitMap_lit {name : String} {f : RecordField σ} (hfind : fields.find? (·.name = name) = some f) {v : Value}
    {s s' : σ} (hset : f.set v s = .ok s') (ms : List (StrLit × Value)) {seen : List String} (hseen : name ∉ seen) :
    visitMap fields ((lit name, v) :: ms) seen s = visitMap fields ms (name :: seen) s' := by
  rw [visitMap, text?_lit]
  dsimp only
  rw [hfind]
  dsimp only
  rw [if_neg hseen, hset]

theorem set_of {α : Type} (name : String) {decode : Value → Except Error α} {put : α → σ → σ} {v : Value} {a : α}
    (h : decode v = .ok a) (s : σ) : (RecordField.of name decode put).set v s = .ok (put a s) := by
  show (decode v).map (fun a => put a s) = _
  rw [h]
  rfl

theorem set_optional {α : Type} (name : String) {decode : Value → Except Error α} {put : α → σ → σ} {v : Value} {a : α}
    (h : decode v = .ok a) (s : σ) : (RecordField.optional name decode put).set v s = .ok (put a s) := set_of name h s

/-- A member that is written or left out. -/
theorem visitMap_optional {α : Type} {name : String} {decode : Value → Except Error (Option α)}
    {put : Option α → σ → σ} (hfind : fields.find? (·.name = name) = some (.optional name decode put))
    {write : α → Value} (hdecode : ∀ a, decode (write a) = .ok (some a)) (o : Option α) (ms : List (StrLit × Value))
    {seen : List String} (hseen : name ∉ seen) {s : σ} (hnone : put none s = s) :
    ∃ seen', (∀ n ∈ seen', n = name ∨ n ∈ seen) ∧
      visitMap fields ((o.toList.map fun a => (lit name, write a)) ++ ms) seen s =
        visitMap fields ms seen' (put o s) := by
  cases o with
  | none => exact ⟨seen, fun n hn => Or.inr hn, by rw [hnone]; rfl⟩
  | some a =>
    exact ⟨name :: seen, fun n hn => List.mem_cons.mp hn, visitMap_lit hfind (set_optional name (hdecode a) s) ms hseen⟩

/-- The members of the object that an array stands for. -/
def asMembers (fs : List (RecordField σ)) (vs : List Value) : List (StrLit × Value) :=
  List.zipWith (fun f v => (lit f.name, v)) fs vs

/-- An array is read as the object it stands for. -/
theorem visitSeq_ok_iff {defaults : List String} {fs : List (RecordField σ)}
    (hfind : ∀ f ∈ fs, fields.find? (·.name = f.name) = some f) (hnodup : (fs.map RecordField.name).Nodup)
    {seen : List String} (hseen : ∀ f ∈ fs, f.name ∉ seen) {vs : List Value} {s s' : σ} :
    visitSeq defaults fs vs s = .ok s' ↔ vs.length ≤ fs.length ∧ (∀ f ∈ fs.drop vs.length, f.name ∈ defaults) ∧
      ∃ seen', visitMap fields (asMembers fs vs) seen s = .ok (s', seen') := by
  induction fs generalizing vs seen s with
  | nil =>
    cases vs with
    | nil =>
      constructor
      · intro h
        obtain rfl : s = s' := Except.ok.inj h
        exact ⟨le_rfl, by simp, seen, rfl⟩
      · rintro ⟨-, -, seen', hvisit⟩
        exact congrArg Except.ok (Prod.mk.inj (Except.ok.inj hvisit)).1
    | cons v vs => exact iff_of_false (fun h => by cases h) fun h => absurd h.1 (by simp)
  | cons f fs ih =>
    obtain ⟨hf, hfs⟩ := List.forall_mem_cons.mp hfind
    obtain ⟨hfseen, hfsseen⟩ := List.forall_mem_cons.mp hseen
    rw [List.map_cons, List.nodup_cons] at hnodup
    cases vs with
    | nil =>
      have hrest := @ih hfs hnodup.2 seen hfsseen [] s
      rw [List.length_nil, List.drop_zero] at hrest
      have hnil : asMembers (f :: fs) [] = asMembers fs [] := by
        rw [asMembers, asMembers, List.zipWith_nil_right, List.zipWith_nil_right]
      rw [visitSeq, hnil, List.length_nil, List.drop_zero, List.forall_mem_cons]
      split_ifs with hdefault
      · rw [hrest]
        simp [hdefault]
      · exact iff_of_false (fun h => by cases h) fun h => hdefault h.2.1.1
    | cons v vs =>
      have hfresh : ∀ g ∈ fs, g.name ∉ f.name :: seen := by
        intro g hg hmem
        rcases List.mem_cons.mp hmem with heq | hmem
        · exact hnodup.1 (heq ▸ List.mem_map_of_mem hg)
        · exact hfsseen g hg hmem
      have hvisit : visitMap fields (asMembers (f :: fs) (v :: vs)) seen s =
          match f.set v s with
          | .error e => .error e
          | .ok t => visitMap fields (asMembers fs vs) (f.name :: seen) t := by
        show visitMap fields ((lit f.name, v) :: asMembers fs vs) seen s = _
        rw [visitMap, text?_lit]
        dsimp only
        rw [hf]
        dsimp only
        refine (if_neg hfseen).trans ?_
        cases f.set v s <;> rfl
      rw [visitSeq, hvisit, List.length_cons, List.length_cons, List.drop_succ_cons]
      cases f.set v s with
      | error e => simp
      | ok t =>
        dsimp only
        rw [ih hfs hnodup.2 hfresh, Nat.succ_le_succ_iff]

end Record

end SerdeJson
