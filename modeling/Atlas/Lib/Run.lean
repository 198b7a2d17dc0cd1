import Mathlib.Data.List.Basic
import Mathlib.Tactic

/-!
# Runs of a state machine

A machine is a `step : σ → ι → Option σ`, absent where an event is not enabled.

* `exec` : the state after a list of events;
* `Always P` : `P` holds in every state a run passes through; `Each C` : every step of a run is taken in a state where
  `C` allows its event; `Once P` : exactly one step does `P`;
* `exec_invariant`, `exec_invariant_of_each`, `always_of_each`, `always_iff`, `always_iff_each` : from one step to whole
  runs;
* `exists_of_not_each`, `each_congr`, `always_iff_last` : a step that breaks the condition; two conditions that are the
  same; what no step restores;
* `once_of_phases` : the step between two phases is taken once;
* `count_filterMap_set`, `perm_filterMap_set` : what the parties of a machine hold, after one of them has moved.
-/

namespace Run

variable {σ ι : Type} {step : σ → ι → Option σ}

def exec (step : σ → ι → Option σ) : σ → List ι → Option σ
  | s, [] => some s
  | s, e :: es => (step s e).bind fun s' => exec step s' es

/-- `P` holds in every state that the run `es` passes through. -/
def Always (step : σ → ι → Option σ) (P : σ → Prop) : σ → List ι → Prop
  | s, [] => P s
  | s, e :: es => P s ∧ ∀ s', step s e = some s' → Always step P s' es

/-- Every step of the run `es` starts in a state where `C` holds of its event. -/
def Each (step : σ → ι → Option σ) (C : σ → ι → Prop) : σ → List ι → Prop
  | _, [] => True
  | s, e :: es => ∀ s', step s e = some s' → C s e ∧ Each step C s' es

/-- Exactly one step of the run `es` does `P`. -/
def Once (step : σ → ι → Option σ) (P : σ → σ → Prop) : σ → List ι → Prop
  | _, [] => False
  | s, e :: es => ∃ s', step s e = some s' ∧
      (P s s' ∧ Each step (fun t e => ∀ t', step t e = some t' → ¬ P t t') s' es ∨ ¬ P s s' ∧ Once step P s' es)

theorem exec_append (s : σ) (es fs : List ι) :
    exec step s (es ++ fs) = (exec step s es).bind fun s' => exec step s' fs := by
  induction es generalizing s with
  | nil => rfl
  | cons e es ih =>
    rw [List.cons_append, exec, exec, Option.bind_assoc]
    congr 1
    funext s'
    exact ih s'

/-- What every step keeps holds at the end of a run. -/
theorem exec_invariant (Inv : σ → Prop) (hstep : ∀ s e s', Inv s → step s e = some s' → Inv s')
    {s s' : σ} {es : List ι} (h0 : Inv s) (h : exec step s es = some s') : Inv s' := by
  induction es generalizing s with
  | nil => exact Option.some.inj h ▸ h0
  | cons e es ih =>
    obtain ⟨t, ht, hrest⟩ := Option.bind_eq_some_iff.mp h
    exact ih (hstep s e t h0 ht) hrest

/-- What every step that meets its condition keeps holds at the end of a run whose steps meet it. -/
theorem exec_invariant_of_each (Inv : σ → Prop) {C : σ → ι → Prop}
    (hstep : ∀ s e s', Inv s → C s e → step s e = some s' → Inv s') {s s' : σ} {es : List ι} (h0 : Inv s)
    (heach : Each step C s es) (h : exec step s es = some s') : Inv s' := by
  induction es generalizing s with
  | nil => exact Option.some.inj h ▸ h0
  | cons e es ih =>
    obtain ⟨t, ht, hrest⟩ := Option.bind_eq_some_iff.mp h
    obtain ⟨hc, heach⟩ := heach t ht
    exact ih (hstep s e t h0 hc ht) heach hrest

theorem always_iff {P : σ → Prop} (s : σ) (es : List ι) :
    Always step P s es ↔ ∀ front back s', es = front ++ back → exec step s front = some s' → P s' := by
  induction es generalizing s with
  | nil =>
    constructor
    · intro h front back s' hsplit hexec
      obtain ⟨rfl, -⟩ := List.append_eq_nil_iff.mp hsplit.symm
      exact Option.some.inj hexec ▸ h
    · intro h
      exact h [] [] s rfl rfl
  | cons e es ih =>
    constructor
    · rintro ⟨hs, hrest⟩ front back s' hsplit hexec
      cases front with
      | nil => exact Option.some.inj hexec ▸ hs
      | cons f front =>
        obtain ⟨rfl, rfl⟩ := List.cons.inj hsplit
        obtain ⟨t, ht, hexec⟩ := Option.bind_eq_some_iff.mp hexec
        exact (ih t).mp (hrest t ht) front back s' rfl hexec
    · intro h
      refine ⟨h [] _ s rfl rfl, fun t ht => (ih t).mpr fun front back s' hsplit hexec => ?_⟩
      refine h (e :: front) back s' (by rw [hsplit, List.cons_append]) ?_
      rw [exec, ht, Option.bind_some]
      exact hexec

/-- What every step that meets its condition keeps holds throughout a run whose steps meet it. -/
theorem always_of_each (Inv : σ → Prop) {C : σ → ι → Prop}
    (hstep : ∀ s e s', Inv s → C s e → step s e = some s' → Inv s') {s : σ} {es : List ι} (h0 : Inv s)
    (heach : Each step C s es) : Always step Inv s es := by
  induction es generalizing s with
  | nil => exact h0
  | cons e es ih =>
    refine ⟨h0, fun s' hs' => ?_⟩
    obtain ⟨hc, heach⟩ := heach s' hs'
    exact ih (hstep s e s' h0 hc hs') heach

theorem Always.mono {P Q : σ → Prop} (h : ∀ s, P s → Q s) {s : σ} {es : List ι} (hP : Always step P s es) :
    Always step Q s es := by
  induction es generalizing s with
  | nil => exact h s hP
  | cons e es ih => exact ⟨h s hP.1, fun s' hs' => ih (hP.2 s' hs')⟩

/-- **The exact condition.** If, in states with the invariant, a step keeps `P` just when its condition is met, then
`P` holds throughout a run just when all its steps meet it. -/
theorem always_iff_each (Inv : σ → Prop) {P : σ → Prop} {C : σ → ι → Prop}
    (hinv : ∀ s e s', Inv s → step s e = some s' → Inv s')
    (hstep : ∀ s e s', Inv s → P s → step s e = some s' → (P s' ↔ C s e)) {s : σ} {es : List ι} (h0 : Inv s)
    (hP : P s) : Always step P s es ↔ Each step C s es := by
  induction es generalizing s with
  | nil => exact ⟨fun _ => trivial, fun _ => hP⟩
  | cons e es ih =>
    constructor
    · rintro ⟨-, hrest⟩ s' hs'
      have hnext : P s' := by
        have := hrest s' hs'
        cases es with
        | nil => exact this
        | cons => exact this.1
      have hc := (hstep s e s' h0 hP hs').mp hnext
      exact ⟨hc, (ih (hinv s e s' h0 hs') hnext).mp (hrest s' hs')⟩
    · intro h
      refine ⟨hP, fun s' hs' => ?_⟩
      obtain ⟨hc, hrest⟩ := h s' hs'
      exact (ih (hinv s e s' h0 hs') ((hstep s e s' h0 hP hs').mpr hc)).mpr hrest

/-- A run that breaks its condition has a step that does. -/
theorem exists_of_not_each {C : σ → ι → Prop} {s : σ} {es : List ι} (h : ¬ Each step C s es) :
    ∃ front e back t t', es = front ++ e :: back ∧ exec step s front = some t ∧ step t e = some t' ∧ ¬ C t e := by
  induction es generalizing s with
  | nil => exact absurd trivial h
  | cons e es ih =>
    rw [Each] at h
    push Not at h
    obtain ⟨s', hs', h⟩ := h
    by_cases hc : C s e
    · obtain ⟨front, e', back, t, t', hsplit, hexec, hstep, hbad⟩ := ih (h hc)
      refine ⟨e :: front, e', back, t, t', by rw [hsplit, List.cons_append], ?_, hstep, hbad⟩
      rw [exec, hs', Option.bind_some]
      exact hexec
    · exact ⟨[], e, es, s, s', rfl, rfl, hs', hc⟩

/-- Two conditions that are the same in states with the invariant. -/
theorem each_congr (Inv : σ → Prop) {C D : σ → ι → Prop} (hinv : ∀ s e s', Inv s → step s e = some s' → Inv s')
    (h : ∀ s e, Inv s → (C s e ↔ D s e)) {s : σ} (h0 : Inv s) (es : List ι) : Each step C s es ↔ Each step D s es := by
  induction es generalizing s with
  | nil => exact Iff.rfl
  | cons e es ih =>
    refine forall_congr' fun s' => forall_congr' fun hs' => ?_
    rw [h s e h0, ih (hinv s e s' h0 hs')]

/-- What no step restores holds throughout a run just when it holds at its end. -/
theorem always_iff_last {P : σ → Prop} (hback : ∀ s e s', step s e = some s' → P s' → P s) {s s' : σ} {es : List ι}
    (h : exec step s es = some s') : Always step P s es ↔ P s' := by
  induction es generalizing s with
  | nil => exact Option.some.inj h ▸ Iff.rfl
  | cons e es ih =>
    obtain ⟨t, ht, hrest⟩ := Option.bind_eq_some_iff.mp h
    rw [← ih hrest]
    constructor
    · exact fun hall => hall.2 t ht
    · intro hall
      have ht' : P t := by
        cases es with
        | nil => exact hall
        | cons => exact hall.1
      refine ⟨hback s e t ht ht', fun u hu => ?_⟩
      obtain rfl := Option.some.inj (ht.symm.trans hu)
      exact hall

/-- A machine that is in the phase `A` until a step does `P`, and in the phase `B` from then on. A run that has left `A`
has done `P` once. -/
theorem once_of_phases {P : σ → σ → Prop} {A B : σ → Prop}
    (hA : ∀ s e s', A s → step s e = some s' → A s' ∧ ¬ P s s' ∨ B s' ∧ P s s')
    (hB : ∀ s e s', B s → step s e = some s' → B s' ∧ ¬ P s s') {s s' : σ} {es : List ι} (h0 : A s)
    (hexec : exec step s es = some s') (hleft : ¬ A s') : Once step P s es ∧ B s' := by
  induction es generalizing s with
  | nil => exact absurd (Option.some.inj hexec ▸ h0) hleft
  | cons e es ih =>
    obtain ⟨t, ht, hrest⟩ := Option.bind_eq_some_iff.mp hexec
    rcases hA s e t h0 ht with ⟨hphase, hnot⟩ | ⟨hphase, hdone⟩
    · obtain ⟨honce, hend⟩ := ih hphase hrest
      exact ⟨⟨t, ht, .inr ⟨hnot, honce⟩⟩, hend⟩
    · have hnever : ∀ t, B t → ∀ es, Each step (fun t e => ∀ t', step t e = some t' → ¬ P t t') t es := by
        intro t hphase es
        induction es generalizing t with
        | nil => trivial
        | cons e es ih => exact fun t' ht' => ⟨fun u hu => (hB t e u hphase hu).2, ih t' (hB t e t' hphase ht').1⟩
      have hend := exec_invariant B (fun s e s' h hs' => (hB s e s' h hs').1) hphase hrest
      exact ⟨⟨t, ht, .inl ⟨hdone, hnever t hphase es⟩⟩, hend⟩

/-- The parties of a machine are the entries of a list, `g` is what a party holds. -/
theorem count_filterMap_set {α β : Type} [BEq β] (g : α → Option β) {xs : List α} {i : Nat} {x : α} (x' : α)
    (h : xs[i]? = some x) (b : β) :
    ((xs.set i x').filterMap g).count b + (g x).toList.count b =
      (xs.filterMap g).count b + (g x').toList.count b := by
  induction xs generalizing i with
  | nil => simp at h
  | cons y ys ih =>
    have hcons : ∀ (z : α) (zs : List α), (z :: zs).filterMap g = (g z).toList ++ zs.filterMap g := by
      intro z zs
      cases hz : g z <;> simp [hz]
    cases i with
    | zero =>
      obtain rfl : y = x := by simpa using h
      rw [List.set_cons_zero, hcons, hcons, List.count_append, List.count_append]
      omega
    | succ i =>
      have hi := ih (by simpa using h)
      rw [List.set_cons_succ, hcons, hcons, List.count_append, List.count_append]
      omega

/-- The list version: `x` and `x'` change places. -/
theorem perm_filterMap_set {α β : Type} [BEq β] [LawfulBEq β] (g : α → Option β) {xs : List α} {i : Nat} {x : α}
    (x' : α) (h : xs[i]? = some x) :
    ((xs.set i x').filterMap g ++ (g x).toList).Perm (xs.filterMap g ++ (g x').toList) := by
  rw [List.perm_iff_count]
  intro b
  rw [List.count_append, List.count_append]
  exact count_filterMap_set g x' h b

end Run
