import Atlas.Lib.Json.Text
import Mathlib.Data.List.Sort

/-!
# JSON data

* `Data` : data that can be written as JSON, with texts for its strings and keys; a number is held as it is written;
* `fold` : a function of data from what it does to each part;
* `write` : data as a value, its texts quoted by `q`; `sorted` : every dict in the order of its keys; `mapNum` : other
  numbers; `All`, `Distinct` : every text and every number, no key twice;
* `write_mapNum_eq_iff` : two ways to write the same data.
-/

namespace Json

inductive Data
  | word (w : Word)
  | num (n : NumLit)
  | text (s : String)
  | list (items : List Data)
  | dict (items : List (String × Data))

namespace Data

/-- Induction over data: a list from its items, a dict from its values. -/
@[elab_as_elim, induction_eliminator]
theorem induct {P : Data → Prop} (word : ∀ w, P (.word w)) (num : ∀ n, P (.num n)) (text : ∀ s, P (.text s))
    (list : ∀ items, (∀ d ∈ items, P d) → P (.list items)) (dict : ∀ items, (∀ e ∈ items, P e.2) → P (.dict items))
    (d : Data) : P d :=
  @Data.rec P (fun ds => ∀ d ∈ ds, P d) (fun es => ∀ e ∈ es, P e.2) (fun e => P e.2) word num text list dict
    (by simp) (by simp; grind) (by simp) (by simp; grind) (fun _ _ h => h) d

/-- What a function does to the parts of data. -/
structure Folding (β : Type) where
  word : Word → β
  num : NumLit → β
  text : String → β
  list : List β → β
  dict : List (String × β) → β

section fold
variable {β : Type} (f : Folding β)

mutual

def fold : Data → β
  | .word w => f.word w
  | .num n => f.num n
  | .text s => f.text s
  | .list items => f.list (foldItems items)
  | .dict items => f.dict (foldEntries items)

def foldItems : List Data → List β
  | [] => []
  | d :: ds => fold d :: foldItems ds

def foldEntries : List (String × Data) → List (String × β)
  | [] => []
  | (k, d) :: es => (k, fold d) :: foldEntries es

end

theorem fold_list (items : List Data) : fold f (.list items) = f.list (items.map (fold f)) := by
  have hitems : foldItems f items = items.map (fold f) := by
    induction items with
    | nil => rfl
    | cons d ds ih => rw [foldItems, ih, List.map_cons]
  rw [fold, hitems]

theorem fold_dict (items : List (String × Data)) :
    fold f (.dict items) = f.dict (items.map fun e => (e.1, fold f e.2)) := by
  have hentries : foldEntries f items = items.map fun e => (e.1, fold f e.2) := by
    induction items with
    | nil => rfl
    | cons e es ih => rw [foldEntries, ih, List.map_cons]
  rw [fold, hentries]

end fold

/-! ## Functions of data -/

/-- Data as a value. `q` : how a text is quoted. -/
def write (q : String → StrLit) : Data → Value :=
  fold ⟨.word, .num, fun s => .str (q s), .arr, fun es => .obj (es.map fun e => (q e.1, e.2))⟩

/-- Entries in the order of their keys. -/
def sortKeys {β : Type} (r : String → String → Prop) [DecidableRel r] (es : List (String × β)) : List (String × β) :=
  es.insertionSort fun a b => r a.1 b.1

def sorted (r : String → String → Prop) [DecidableRel r] : Data → Data :=
  fold ⟨.word, .num, .text, .list, fun es => .dict (sortKeys r es)⟩

def mapNum (f : NumLit → NumLit) : Data → Data := fold ⟨.word, fun n => .num (f n), .text, .list, .dict⟩

/-- Every text is one of `p`, every number one of `n`. -/
def All (p : String → Prop) (n : NumLit → Prop) : Data → Prop :=
  fold ⟨fun _ => True, n, p, fun ps => ∀ x ∈ ps, x, fun es => ∀ e ∈ es, p e.1 ∧ e.2⟩

/-- No dict has a key twice. -/
def Distinct : Data → Prop :=
  fold ⟨fun _ => True, fun _ => True, fun _ => True, fun ps => ∀ x ∈ ps, x,
    fun es => (es.map Prod.fst).Nodup ∧ ∀ e ∈ es, e.2⟩

section
variable (q : String → StrLit) (r : String → String → Prop) [DecidableRel r] (f : NumLit → NumLit)

@[simp] theorem write_text (s : String) : write q (.text s) = .str (q s) := rfl

@[simp] theorem write_num (n : NumLit) : write q (.num n) = .num n := rfl

theorem write_list (items : List Data) : write q (.list items) = .arr (items.map (write q)) := fold_list _ items

theorem write_dict (items : List (String × Data)) :
    write q (.dict items) = .obj (items.map fun e => (q e.1, write q e.2)) := by
  rw [write, fold_dict]
  dsimp only
  rw [List.map_map]
  rfl

@[simp] theorem sorted_text (s : String) : sorted r (.text s) = .text s := rfl

@[simp] theorem sorted_num (n : NumLit) : sorted r (.num n) = .num n := rfl

theorem sorted_list (items : List Data) : sorted r (.list items) = .list (items.map (sorted r)) := fold_list _ items

theorem sorted_dict (items : List (String × Data)) :
    sorted r (.dict items) = .dict (sortKeys r (items.map fun e => (e.1, sorted r e.2))) := fold_dict _ items

@[simp] theorem mapNum_text (s : String) : mapNum f (.text s) = .text s := rfl

theorem mapNum_list (items : List Data) : mapNum f (.list items) = .list (items.map (mapNum f)) := fold_list _ items

theorem mapNum_dict (items : List (String × Data)) :
    mapNum f (.dict items) = .dict (items.map fun e => (e.1, mapNum f e.2)) := fold_dict _ items

theorem all_list {p : String → Prop} {n : NumLit → Prop} {items : List Data} :
    All p n (.list items) ↔ ∀ d ∈ items, All p n d := by
  rw [All, fold_list]
  exact List.forall_mem_map

theorem all_dict {p : String → Prop} {n : NumLit → Prop} {items : List (String × Data)} :
    All p n (.dict items) ↔ ∀ e ∈ items, p e.1 ∧ All p n e.2 := by
  rw [All, fold_dict]
  exact List.forall_mem_map

theorem distinct_list {items : List Data} : Distinct (.list items) ↔ ∀ d ∈ items, Distinct d := by
  rw [Distinct, fold_list]
  exact List.forall_mem_map

theorem distinct_dict {items : List (String × Data)} :
    Distinct (.dict items) ↔ (items.map Prod.fst).Nodup ∧ ∀ e ∈ items, Distinct e.2 := by
  rw [Distinct, fold_dict]
  dsimp only
  rw [List.map_map]
  exact and_congr Iff.rfl List.forall_mem_map

/-! ## Sorting -/

theorem perm_sortKeys {β : Type} (es : List (String × β)) : (sortKeys r es).Perm es := List.perm_insertionSort _ es

@[simp] theorem sortKeys_nil {β : Type} : sortKeys r ([] : List (String × β)) = [] := rfl

theorem sortKeys_cons {β : Type} (e : String × β) (es : List (String × β)) :
    sortKeys r (e :: es) = List.orderedInsert (fun a b => r a.1 b.1) e (sortKeys r es) := rfl

theorem sortKeys_map {β γ : Type} (g : β → γ) (es : List (String × β)) :
    sortKeys r (es.map fun e => (e.1, g e.2)) = (sortKeys r es).map fun e => (e.1, g e.2) := by
  symm
  apply List.map_insertionSort
  exact fun _ _ _ _ => Iff.rfl

/-- The entries of a dict, however they are ordered. -/
theorem forall_sortKeys {β : Type} {es : List (String × β)} {P : String × β → Prop} :
    (∀ e ∈ sortKeys r es, P e) ↔ ∀ e ∈ es, P e := by
  simp only [(perm_sortKeys r es).mem_iff]

theorem nodup_sortKeys {β : Type} {es : List (String × β)} :
    ((sortKeys r es).map Prod.fst).Nodup ↔ (es.map Prod.fst).Nodup :=
  ((perm_sortKeys r es).map Prod.fst).nodup_iff

theorem sorted_mapNum (d : Data) : sorted r (mapNum f d) = mapNum f (sorted r d) := by
  induction d with
  | word w => rfl
  | num n => rfl
  | text s => rfl
  | list items ih =>
    rw [mapNum_list, sorted_list, sorted_list, mapNum_list, List.map_map, List.map_map]
    exact congrArg Data.list (List.map_congr_left ih)
  | dict items ih =>
    have hentries : (items.map fun e => (e.1, mapNum f e.2)).map (fun e => (e.1, sorted r e.2)) =
        (items.map fun e => (e.1, sorted r e.2)).map fun e => (e.1, mapNum f e.2) := by
      rw [List.map_map, List.map_map]
      exact List.map_congr_left fun e he => by rw [Function.comp_apply, Function.comp_apply, ih e he]
    rw [mapNum_dict, sorted_dict, hentries, sortKeys_map, sorted_dict, mapNum_dict]

theorem distinct_sorted {d : Data} : Distinct (sorted r d) ↔ Distinct d := by
  induction d with
  | word w => exact Iff.rfl
  | num n => exact Iff.rfl
  | text s => exact Iff.rfl
  | list items ih =>
    rw [sorted_list, distinct_list, distinct_list, List.forall_mem_map]
    exact forall₂_congr ih
  | dict items ih =>
    rw [sorted_dict, distinct_dict, distinct_dict, nodup_sortKeys, forall_sortKeys, List.map_map, List.forall_mem_map]
    exact and_congr Iff.rfl (forall₂_congr ih)

theorem all_sorted {p : String → Prop} {n : NumLit → Prop} {d : Data} : All p n (sorted r d) ↔ All p n d := by
  induction d with
  | word w => exact Iff.rfl
  | num n => exact Iff.rfl
  | text s => exact Iff.rfl
  | list items ih =>
    rw [sorted_list, all_list, all_list, List.forall_mem_map]
    exact forall₂_congr ih
  | dict items ih =>
    rw [sorted_dict, all_dict, all_dict, forall_sortKeys, List.forall_mem_map]
    exact forall₂_congr fun e he => and_congr Iff.rfl (ih e he)

section
variable (htotal : ∀ a b, r a b ∨ r b a) (htrans : ∀ a b c, r a b → r b c → r a c)
include htotal htrans

theorem sortKeys_sortKeys {β : Type} (es : List (String × β)) : sortKeys r (sortKeys r es) = sortKeys r es := by
  have hpairwise : (sortKeys r es).Pairwise fun a b => r a.1 b.1 := by
    have : Std.Total fun a b : String × β => r a.1 b.1 := ⟨fun a b => htotal a.1 b.1⟩
    have : IsTrans (String × β) fun a b => r a.1 b.1 := ⟨fun a b c => htrans a.1 b.1 c.1⟩
    exact List.pairwise_insertionSort _ es
  exact hpairwise.insertionSort_eq

theorem sorted_sorted (d : Data) : sorted r (sorted r d) = sorted r d := by
  induction d with
  | word w => rfl
  | num n => rfl
  | text s => rfl
  | list items ih =>
    rw [sorted_list, sorted_list, List.map_map]
    exact congrArg Data.list (List.map_congr_left ih)
  | dict items ih =>
    have hentries : (items.map fun e => (e.1, sorted r e.2)).map (fun e => (e.1, sorted r e.2)) =
        items.map fun e => (e.1, sorted r e.2) := by
      rw [List.map_map]
      exact List.map_congr_left fun e he => by rw [Function.comp_apply, ih e he]
    rw [sorted_dict, sorted_dict, ← sortKeys_map, hentries, sortKeys_sortKeys r htotal htrans]

end

/-! ## Two ways to write -/

/-- The same data are written alike just when their texts are quoted alike and their numbers stay what they are. -/
theorem write_mapNum_eq_iff (q₁ q₂ : String → StrLit) (d : Data) :
    write q₁ (mapNum f d) = write q₂ d ↔ All (fun s => q₁ s = q₂ s) (fun n => f n = n) d := by
  induction d with
  | word w => exact iff_of_true rfl trivial
  | num n => exact Value.num.injEq .. ▸ Iff.rfl
  | text s => exact Value.str.injEq .. ▸ Iff.rfl
  | list items ih =>
    rw [mapNum_list, write_list, write_list, all_list, Value.arr.injEq, List.map_map, List.map_inj_left]
    exact forall₂_congr ih
  | dict items ih =>
    rw [mapNum_dict, write_dict, write_dict, all_dict, Value.obj.injEq, List.map_map, List.map_inj_left]
    refine forall₂_congr fun e he => ?_
    rw [Function.comp_apply, Prod.mk.injEq]
    exact and_congr Iff.rfl (ih e he)

end

end Data

end Json
