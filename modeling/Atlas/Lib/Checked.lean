import Mathlib.Data.List.Basic
import Mathlib.Tactic

/-!
# Byte buffers with checked access

What a memory-safe language does at an index or slice expression: deliver the value, or stop with the
failed check. `Panic` is the failed check, a computation that can fail one lives in `Except Panic`.

* `index`, `slice`, `sliceFrom` : reads;
* `store`, `copyAt` : writes into a buffer of fixed length;
* `copyAt_zeros`, `store_zeros` : filling a zeroed buffer from the left, the way encoders do;
* `check_ok_iff` : a check of a value, and those behind it.
-/

namespace Checked

/-- The bounds check that failed, with the values it compared. -/
inductive Panic
  | indexOutOfRange (i len : Nat)
  | sliceOutOfRange (lo hi len : Nat)
  | notCharBoundary (i : Nat)
  deriving DecidableEq, Repr

variable {α : Type}

/-- `xs[i]` -/
def index (xs : List α) (i : Nat) : Except Panic α :=
  match xs[i]? with
  | some x => .ok x
  | none => .error (.indexOutOfRange i xs.length)

/-- `xs[lo..hi]` -/
def slice (xs : List α) (lo hi : Nat) : Except Panic (List α) :=
  if lo ≤ hi ∧ hi ≤ xs.length then .ok ((xs.take hi).drop lo) else .error (.sliceOutOfRange lo hi xs.length)

/-- `xs[lo..]` -/
def sliceFrom (xs : List α) (lo : Nat) : Except Panic (List α) := slice xs lo xs.length

/-- `xs[i] = x` -/
def store (xs : List α) (i : Nat) (x : α) : Except Panic (List α) :=
  if i < xs.length then .ok (xs.set i x) else .error (.indexOutOfRange i xs.length)

/-- `copy(xs[off:], src)` : as many elements of `src` as fit behind `off`, the length unchanged. -/
def copyAt (xs : List α) (off : Nat) (src : List α) : Except Panic (List α) :=
  if off ≤ xs.length then
    .ok (xs.take off ++ src.take (xs.length - off) ++ xs.drop (off + src.length))
  else .error (.sliceOutOfRange off xs.length xs.length)

/-! ## Checks -/

/-- The first check of several, in a computation that goes on when it is passed. -/
theorem check_ok_iff {ε : Type} {failed : Prop} [Decidable failed] {e : ε} {rest : Except ε α} {a : α} :
    (if failed then .error e else rest) = .ok a ↔ ¬ failed ∧ rest = .ok a := by
  by_cases hfailed : failed
  · simp [hfailed]
  · simp [hfailed]

/-! ## Reads -/

theorem slice_of_le {xs : List α} {lo hi : Nat} (h : lo ≤ hi) (h' : hi ≤ xs.length) :
    slice xs lo hi = .ok ((xs.take hi).drop lo) := if_pos ⟨h, h'⟩

theorem sliceFrom_of_le {xs : List α} {lo : Nat} (h : lo ≤ xs.length) : sliceFrom xs lo = .ok (xs.drop lo) := by
  rw [sliceFrom, slice_of_le h le_rfl, List.take_length]

/-! ## Writes -/

theorem copyAt_append (front hole back src : List α) (h : hole.length = src.length) :
    copyAt (front ++ (hole ++ back)) front.length src = .ok (front ++ (src ++ back)) := by
  have htake : src.take ((front ++ (hole ++ back)).length - front.length) = src :=
    List.take_of_length_le (by simp; omega)
  rw [copyAt, if_pos (by simp), htake, List.take_left, ← List.append_assoc front hole,
    List.drop_left' (by simp [h]), List.append_assoc]

/-- Writing `src` at the end of what a zeroed buffer already holds. -/
theorem copyAt_zeros (front src : List α) (z : α) {n off : Nat} (hoff : off = front.length) (h : src.length ≤ n) :
    copyAt (front ++ List.replicate n z) off src =
      .ok (front ++ src ++ List.replicate (n - src.length) z) := by
  have hsplit : List.replicate n z = List.replicate src.length z ++ List.replicate (n - src.length) z := by
    rw [List.replicate_append_replicate, Nat.add_sub_cancel' h]
  rw [hoff, hsplit, copyAt_append _ _ _ _ (by simp), List.append_assoc]

/-- Writing as much of `src` as the rest of a buffer has room for. -/
theorem copyAt_zeros_cut (front src : List α) (z : α) {n off : Nat} (hoff : off = front.length) (h : n ≤ src.length) :
    copyAt (front ++ List.replicate n z) off src = .ok (front ++ src.take n) := by
  have hdrop : (front ++ List.replicate n z).drop (off + src.length) = [] := by
    rw [List.drop_eq_nil_iff, List.length_append, List.length_replicate]
    omega
  rw [copyAt, if_pos (by rw [List.length_append]; omega), hdrop, hoff, List.take_left, List.append_nil,
    List.length_append, List.length_replicate, Nat.add_sub_cancel_left]

/-- Writing the last piece of a buffer that has just the room for it. -/
theorem copyAt_zeros_last (front src : List α) (z : α) {n off : Nat} (hoff : off = front.length)
    (h : n = src.length) : copyAt (front ++ List.replicate n z) off src = .ok (front ++ src) := by
  rw [copyAt_zeros_cut front src z hoff h.le, h, List.take_length]

theorem store_zeros (front : List α) (x z : α) {n off : Nat} (hoff : off = front.length) (h : 0 < n) :
    store (front ++ List.replicate n z) off x = .ok (front ++ [x] ++ List.replicate (n - 1) z) := by
  obtain ⟨m, rfl⟩ := Nat.exists_eq_add_of_lt h
  rw [store, hoff, if_pos (by simp), List.set_append_right _ _ le_rfl]
  simp [List.replicate_succ]

/-! ## Sequencing -/

@[simp] theorem ok_bind {β : Type} (a : α) (f : α → Except Panic β) : (Except.ok a >>= f) = f a := rfl

end Checked
