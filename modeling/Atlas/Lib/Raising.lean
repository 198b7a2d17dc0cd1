import Mathlib.Tactic

/-!
# Methods that raise

A method is an `EStateM ε σ α`: it changes the state of its object, and what it has changed stays when it raises.

* `wp` : what has to hold before a call for one thing to hold after its return and another after it has raised;
* `wp_bind`, `wp_throw`, `wp_tryCatch`, `wp_adaptExcept`, … : `wp` of a program from `wp` of its parts; `wp_mono` : a
  call is replaced by what is known about it;
* `ensuring` : `try` with `finally`; `wp_ensuring`;
* `Keeps` : what a call leaves alone; `Preserves` : what holds behind it as before;
* `Simulates` : a call on a state with more in it, seen through what it forgets; `Follows` : both at once; `widen` : a
  call on a state with an account beside it;
* `Composes` : a relation between calls that goes over to their sequences; `Keeps`, `Preserves`, `Simulates` and
  `Follows` are such relations;
* `after` : the state behind a call, whichever way it ends; `after_of_wp`.
-/

namespace Raising

variable {ε σ α β : Type}

/-- Before the call, for `Q` after a return and `E` after an exception. -/
def wp (call : EStateM ε σ α) (Q : α → σ → Prop) (E : ε → σ → Prop) (s : σ) : Prop :=
  match call.run s with
  | .ok a s' => Q a s'
  | .error e s' => E e s'

variable {Q : α → σ → Prop} {E : ε → σ → Prop} {s : σ}

/-! ## Parts of a program -/

@[simp] theorem wp_pure (a : α) : wp (pure a) Q E s ↔ Q a s := Iff.rfl

@[simp] theorem wp_throw (e : ε) : wp (throw e : EStateM ε σ α) Q E s ↔ E e s := Iff.rfl

@[simp] theorem wp_get (Q : σ → σ → Prop) : wp (get : EStateM ε σ σ) Q E s ↔ Q s s := Iff.rfl

@[simp] theorem wp_set (s' : σ) (Q : PUnit → σ → Prop) : wp (set s' : EStateM ε σ PUnit) Q E s ↔ Q ⟨⟩ s' := Iff.rfl

@[simp] theorem wp_modify (f : σ → σ) (Q : PUnit → σ → Prop) :
    wp (modify f : EStateM ε σ PUnit) Q E s ↔ Q ⟨⟩ (f s) := Iff.rfl

@[simp] theorem wp_bind (call : EStateM ε σ α) (f : α → EStateM ε σ β) (Q : β → σ → Prop) :
    wp (call >>= f) Q E s ↔ wp call (fun a s' => wp (f a) Q E s') E s := by
  unfold wp
  rw [EStateM.run_bind]
  cases call.run s <;> rfl

@[simp] theorem wp_ite (c : Prop) [Decidable c] (call other : EStateM ε σ α) :
    wp (if c then call else other) Q E s ↔ (c → wp call Q E s) ∧ (¬ c → wp other Q E s) := by
  split_ifs with h <;> simp [h]

@[simp] theorem wp_dite (c : Prop) [Decidable c] (call : c → EStateM ε σ α) (other : ¬ c → EStateM ε σ α) :
    wp (if h : c then call h else other h) Q E s ↔ (∀ h, wp (call h) Q E s) ∧ ∀ h, wp (other h) Q E s := by
  split_ifs with h <;> simp [h]

theorem run_tryCatch (call : EStateM ε σ α) (handler : ε → EStateM ε σ α) (s : σ) :
    (tryCatch call handler).run s = match call.run s with
      | .ok a s' => .ok a s'
      | .error e s' => (handler e).run s' := by
  show EStateM.tryCatch call handler s = _
  unfold EStateM.tryCatch EStateM.run
  cases call s <;> rfl

/-- `try: call` with `except Exception as e: handler(e)`. -/
@[simp] theorem wp_tryCatch (call : EStateM ε σ α) (handler : ε → EStateM ε σ α) :
    wp (tryCatch call handler) Q E s ↔ wp call Q (fun e s' => wp (handler e) Q E s') s := by
  unfold wp
  rw [run_tryCatch]
  cases call.run s <;> rfl

/-- What is raised is another exception. -/
@[simp] theorem wp_adaptExcept {ε' : Type} (f : ε → ε') (call : EStateM ε σ α) (E : ε' → σ → Prop) :
    wp (EStateM.adaptExcept f call) Q E s ↔ wp call Q (fun e => E (f e)) s := by
  unfold wp EStateM.adaptExcept EStateM.run
  dsimp only
  cases call s <;> rfl

/-- `try: call` with `finally: cleanup`. -/
def ensuring (call : EStateM ε σ α) (cleanup : EStateM ε σ Unit) : EStateM ε σ α := do
  let a ← tryCatch call fun e => do
    cleanup
    throw e
  cleanup
  return a

theorem wp_ensuring (call : EStateM ε σ α) (cleanup : EStateM ε σ Unit) :
    wp (ensuring call cleanup) Q E s ↔ wp call (fun a s' => wp cleanup (fun _ => Q a) E s')
      (fun e s' => wp cleanup (fun _ => E e) E s') s := by
  simp only [ensuring, wp_bind, wp_tryCatch, wp_throw, wp_pure]

theorem wp_mono {call : EStateM ε σ α} {Q' : α → σ → Prop} {E' : ε → σ → Prop} (h : wp call Q E s)
    (hQ : ∀ a s', Q a s' → Q' a s') (hE : ∀ e s', E e s' → E' e s') : wp call Q' E' s := by
  unfold wp at h ⊢
  split at h
  · exact hQ _ _ h
  · exact hE _ _ h

theorem wp_mono_both {call : EStateM ε σ α} {P P' : σ → Prop} (h : wp call (fun _ => P) (fun _ => P) s)
    (hP : ∀ s', P s' → P' s') : wp call (fun _ => P') (fun _ => P') s := wp_mono h (fun _ => hP) fun _ => hP

theorem wp_and {call : EStateM ε σ α} {Q' : α → σ → Prop} {E' : ε → σ → Prop} (h : wp call Q E s)
    (h' : wp call Q' E' s) : wp call (fun a s' => Q a s' ∧ Q' a s') (fun e s' => E e s' ∧ E' e s') s := by
  unfold wp at h h' ⊢
  cases hrun : call.run s with
  | ok a s' =>
    rw [hrun] at h h'
    exact ⟨h, h'⟩
  | error e s' =>
    rw [hrun] at h h'
    exact ⟨h, h'⟩

theorem wp_congr {call : EStateM ε σ α} {Q' : α → σ → Prop} {E' : ε → σ → Prop} (hQ : ∀ a s', Q a s' ↔ Q' a s')
    (hE : ∀ e s', E e s' ↔ E' e s') : wp call Q E s ↔ wp call Q' E' s :=
  ⟨fun h => wp_mono h (fun a s' => (hQ a s').mp) fun e s' => (hE e s').mp,
    fun h => wp_mono h (fun a s' => (hQ a s').mpr) fun e s' => (hE e s').mpr⟩

theorem wp_cases {call : EStateM ε σ α} (hreturn : ∀ a s', call.run s = .ok a s' → Q a s')
    (hraise : ∀ e s', call.run s = .error e s' → E e s') : wp call Q E s := by
  unfold wp
  cases hrun : call.run s with
  | ok a s' => exact hreturn a s' hrun
  | error e s' => exact hraise e s' hrun

/-- What holds of every value that a call returns. -/
theorem wp_iff_of_returns {call : EStateM ε σ α} {R : α → Prop} :
    wp call (fun a _ => R a) (fun _ _ => True) s ↔ ∀ a s', call.run s = .ok a s' → R a := by
  refine ⟨fun h a s' hrun => ?_, fun h => wp_cases h fun _ _ _ => trivial⟩
  unfold wp at h
  rw [hrun] at h
  exact h

theorem wp_of_run_ok {call : EStateM ε σ α} {a : α} {s' : σ} (h : call.run s = .ok a s') :
    wp call Q E s ↔ Q a s' := by
  unfold wp
  rw [h]

theorem wp_of_run_error {call : EStateM ε σ α} {e : ε} {s' : σ} (h : call.run s = .error e s') :
    wp call Q E s ↔ E e s' := by
  unfold wp
  rw [h]

theorem not_wp {call : EStateM ε σ α} (hQ : ∀ a s', ¬ Q a s') (hE : ∀ e s', ¬ E e s') : ¬ wp call Q E s := by
  unfold wp
  split
  · exact hQ _ _
  · exact hE _ _

theorem wp_run (call : EStateM ε σ α) (s : σ) :
    wp call (fun a s' => call.run s = .ok a s') (fun e s' => call.run s = .error e s') s :=
  wp_cases (fun _ _ h => h) fun _ _ h => h

/-! ## What a call leaves alone -/

/-- `f` of the state is the same behind the call, whichever way it ends. -/
def Keeps {γ : Type} (f : σ → γ) (call : EStateM ε σ α) : Prop :=
  ∀ s, wp call (fun _ s' => f s' = f s) (fun _ s' => f s' = f s) s

namespace Keeps
variable {γ : Type} {f : σ → γ}

theorem pure (a : α) : Keeps f (pure a : EStateM ε σ α) := fun _ => rfl

theorem throw (e : ε) : Keeps f (throw e : EStateM ε σ α) := fun _ => rfl

theorem bind {call : EStateM ε σ α} {next : α → EStateM ε σ β} (h : Keeps f call) (hnext : ∀ a, Keeps f (next a)) :
    Keeps f (call >>= next) := by
  intro s
  rw [wp_bind]
  refine wp_mono (h s) (fun a s' hs' => ?_) fun _ _ hs' => hs'
  rw [← hs']
  exact hnext a s'

theorem ite {c : Prop} [Decidable c] {call other : EStateM ε σ α} (h : Keeps f call) (hother : Keeps f other) :
    Keeps f (if c then call else other) := by
  split_ifs
  · exact h
  · exact hother

theorem tryCatch {call : EStateM ε σ α} {handler : ε → EStateM ε σ α} (h : Keeps f call)
    (hhandler : ∀ e, Keeps f (handler e)) : Keeps f (tryCatch call handler) := by
  intro s
  rw [wp_tryCatch]
  refine wp_mono (h s) (fun _ _ hs' => hs') fun e s' hs' => ?_
  rw [← hs']
  exact hhandler e s'

end Keeps

/-- What such a call has to be followed by. -/
theorem Keeps.wp_iff {γ : Type} {f : σ → γ} {call : EStateM ε σ α} (h : Keeps f call) {P : γ → Prop} :
    wp call (fun _ s' => P (f s')) (fun _ s' => P (f s')) s ↔ P (f s) := by
  have hs := h s
  cases hrun : call.run s with
  | ok a s' =>
    rw [wp_of_run_ok hrun] at hs ⊢
    rw [hs]
  | error e s' =>
    rw [wp_of_run_error hrun] at hs ⊢
    rw [hs]

/-! ## What a call preserves -/

/-- What holds before the call holds behind it, whichever way it ends. -/
def Preserves (I : σ → Prop) (call : EStateM ε σ α) : Prop := ∀ s, I s → wp call (fun _ => I) (fun _ => I) s

namespace Preserves
variable {I : σ → Prop}

theorem pure (a : α) : Preserves I (pure a : EStateM ε σ α) := fun _ h => h

theorem throw (e : ε) : Preserves I (throw e : EStateM ε σ α) := fun _ h => h

theorem modify {f : σ → σ} (h : ∀ s, I s → I (f s)) : Preserves I (modify f : EStateM ε σ PUnit) := h

theorem bind {call : EStateM ε σ α} {next : α → EStateM ε σ β} (h : Preserves I call)
    (hnext : ∀ a, Preserves I (next a)) : Preserves I (call >>= next) := by
  intro s hs
  rw [wp_bind]
  exact wp_mono (h s hs) (fun a s' hs' => hnext a s' hs') fun _ _ hs' => hs'

theorem get {next : σ → EStateM ε σ β} (h : ∀ s, Preserves I (next s)) : Preserves I (get >>= next) :=
  bind (fun _ hs => hs) h

theorem ite {c : Prop} [Decidable c] {call other : EStateM ε σ α} (h : Preserves I call) (hother : Preserves I other) :
    Preserves I (if c then call else other) := by
  split_ifs
  · exact h
  · exact hother

theorem tryCatch {call : EStateM ε σ α} {handler : ε → EStateM ε σ α} (h : Preserves I call)
    (hhandler : ∀ e, Preserves I (handler e)) : Preserves I (tryCatch call handler) := by
  intro s hs
  rw [wp_tryCatch]
  exact wp_mono (h s hs) (fun _ _ hs' => hs') fun e s' hs' => hhandler e s' hs'

end Preserves

/-! ## Two states -/

section
variable {τ : Type}

/-- The outcome, with `f` of its state. -/
def mapState (f : τ → σ) : EStateM.Result ε τ α → EStateM.Result ε σ α
  | .ok a t => .ok a (f t)
  | .error e t => .error e (f t)

/-- Through `f`, one call does what the other does. -/
def Simulates (f : τ → σ) (call : EStateM ε τ α) (call' : EStateM ε σ α) : Prop :=
  ∀ t, mapState f (call.run t) = call'.run (f t)

namespace Simulates
variable {f : τ → σ}

theorem pure (a : α) : Simulates f (pure a : EStateM ε τ α) (pure a) := fun _ => rfl

theorem throw (e : ε) : Simulates f (throw e : EStateM ε τ α) (throw e) := fun _ => rfl

theorem modify {g : τ → τ} {g' : σ → σ} (h : ∀ t, f (g t) = g' (f t)) :
    Simulates f (modify g : EStateM ε τ PUnit) (modify g') :=
  fun t => congrArg (EStateM.Result.ok PUnit.unit) (h t)

theorem bind {call : EStateM ε τ α} {call' : EStateM ε σ α} {next : α → EStateM ε τ β} {next' : α → EStateM ε σ β}
    (h : Simulates f call call') (hnext : ∀ a, Simulates f (next a) (next' a)) :
    Simulates f (call >>= next) (call' >>= next') := by
  intro t
  rw [EStateM.run_bind, EStateM.run_bind, ← h t]
  cases call.run t with
  | ok a t' => exact hnext a t'
  | error e t' => rfl

theorem get {next : τ → EStateM ε τ β} {next' : σ → EStateM ε σ β} (h : ∀ t, Simulates f (next t) (next' (f t))) :
    Simulates f (get >>= next) (get >>= next') := fun t => h t t

theorem ite {c : Prop} [Decidable c] {call other : EStateM ε τ α} {call' other' : EStateM ε σ α}
    (h : Simulates f call call') (hother : Simulates f other other') :
    Simulates f (if c then call else other) (if c then call' else other') := by
  split_ifs
  · exact h
  · exact hother

theorem tryCatch {call : EStateM ε τ α} {call' : EStateM ε σ α} {handler : ε → EStateM ε τ α}
    {handler' : ε → EStateM ε σ α} (h : Simulates f call call') (hhandler : ∀ e, Simulates f (handler e) (handler' e)) :
    Simulates f (tryCatch call handler) (tryCatch call' handler') := by
  intro t
  rw [run_tryCatch, run_tryCatch, ← h t]
  cases call.run t with
  | ok a t' => rfl
  | error e t' => exact hhandler e t'

theorem ensuring {call : EStateM ε τ α} {call' : EStateM ε σ α} {cleanup : EStateM ε τ Unit}
    {cleanup' : EStateM ε σ Unit} (h : Simulates f call call') (hcleanup : Simulates f cleanup cleanup') :
    Simulates f (ensuring call cleanup) (ensuring call' cleanup') :=
  (h.tryCatch fun _ => hcleanup.bind fun _ => throw _).bind fun _ => hcleanup.bind fun _ => pure _

end Simulates

/-- One call does what the other does, and preserves `I`. -/
structure Follows (f : τ → σ) (I : τ → Prop) (call : EStateM ε τ α) (call' : EStateM ε σ α) : Prop where
  simulates : Simulates f call call'
  preserves : Preserves I call

namespace Follows
variable {f : τ → σ} {I : τ → Prop}

theorem pure (a : α) : Follows f I (pure a : EStateM ε τ α) (pure a) := ⟨Simulates.pure a, Preserves.pure a⟩

theorem throw (e : ε) : Follows f I (throw e : EStateM ε τ α) (throw e) := ⟨Simulates.throw e, Preserves.throw e⟩

theorem modify {g : τ → τ} {g' : σ → σ} (h : ∀ t, f (g t) = g' (f t)) (hI : ∀ t, I t → I (g t)) :
    Follows f I (modify g : EStateM ε τ PUnit) (modify g') := ⟨Simulates.modify h, Preserves.modify hI⟩

theorem bind {call : EStateM ε τ α} {call' : EStateM ε σ α} {next : α → EStateM ε τ β} {next' : α → EStateM ε σ β}
    (h : Follows f I call call') (hnext : ∀ a, Follows f I (next a) (next' a)) :
    Follows f I (call >>= next) (call' >>= next') :=
  ⟨h.simulates.bind fun a => (hnext a).simulates, h.preserves.bind fun a => (hnext a).preserves⟩

theorem get {next : τ → EStateM ε τ β} {next' : σ → EStateM ε σ β} (h : ∀ t, Follows f I (next t) (next' (f t))) :
    Follows f I (get >>= next) (get >>= next') :=
  ⟨Simulates.get fun t => (h t).simulates, Preserves.get fun t => (h t).preserves⟩

theorem ite {c : Prop} [Decidable c] {call other : EStateM ε τ α} {call' other' : EStateM ε σ α}
    (h : Follows f I call call') (hother : Follows f I other other') :
    Follows f I (if c then call else other) (if c then call' else other') :=
  ⟨h.simulates.ite hother.simulates, h.preserves.ite hother.preserves⟩

end Follows

/-- A relation between calls that goes over to their sequences. -/
structure Composes (R : (α : Type) → EStateM ε τ α → EStateM ε σ α → Prop) : Prop where
  pure : ∀ {α : Type} (a : α), R α (Pure.pure a) (Pure.pure a)
  throw : ∀ {α : Type} (e : ε), R α (MonadExcept.throw e) (MonadExcept.throw e)
  bind : ∀ {α β : Type} {call : EStateM ε τ α} {call' : EStateM ε σ α} {next : α → EStateM ε τ β}
    {next' : α → EStateM ε σ β}, R α call call' → (∀ a, R β (next a) (next' a)) → R β (call >>= next) (call' >>= next')

namespace Composes

theorem ite {R : (α : Type) → EStateM ε τ α → EStateM ε σ α → Prop} {c : Prop} [Decidable c]
    {call other : EStateM ε τ α} {call' other' : EStateM ε σ α} (h : R α call call') (hother : R α other other') :
    R α (if c then call else other) (if c then call' else other') := by
  split_ifs
  · exact h
  · exact hother

theorem keeps {γ : Type} (f : σ → γ) : Composes fun _ (call _ : EStateM ε σ _) => Keeps f call :=
  ⟨Keeps.pure, Keeps.throw, fun h hnext => h.bind hnext⟩

theorem preserves (I : σ → Prop) : Composes fun _ (call _ : EStateM ε σ _) => Preserves I call :=
  ⟨Preserves.pure, Preserves.throw, fun h hnext => h.bind hnext⟩

theorem simulates (f : τ → σ) :
    Composes fun _ (call : EStateM ε τ _) (call' : EStateM ε σ _) => Simulates f call call' :=
  ⟨Simulates.pure, Simulates.throw, fun h hnext => h.bind hnext⟩

theorem follows (f : τ → σ) (I : τ → Prop) :
    Composes fun _ (call : EStateM ε τ _) (call' : EStateM ε σ _) => Follows f I call call' :=
  ⟨Follows.pure, Follows.throw, fun h hnext => h.bind hnext⟩

end Composes

/-- A call on a state with an account beside it. -/
def widen (call : EStateM ε σ α) : EStateM ε (σ × τ) α := fun s =>
  match call.run s.1 with
  | .ok a s' => .ok a (s', s.2)
  | .error e s' => .error e (s', s.2)

theorem run_widen (call : EStateM ε σ α) (s : σ × τ) :
    (widen call).run s = match call.run s.1 with
      | .ok a s' => .ok a (s', s.2)
      | .error e s' => .error e (s', s.2) := rfl

theorem simulates_widen (call : EStateM ε σ α) : Simulates (Prod.fst : σ × τ → σ) (widen call) call := by
  intro s
  rw [run_widen]
  cases call.run s.1 <;> rfl

theorem keeps_widen (call : EStateM ε σ α) : Keeps (Prod.snd : σ × τ → τ) (widen call) := by
  intro s
  unfold wp
  rw [run_widen]
  cases call.run s.1 <;> rfl

end

/-! ## Whole calls -/

/-- The state behind a call. -/
def after (call : EStateM ε σ α) (s : σ) : σ :=
  match call.run s with
  | .ok _ s' => s'
  | .error _ s' => s'

theorem after_of_wp {call : EStateM ε σ α} {P : σ → Prop} (h : wp call (fun _ s' => P s') (fun _ s' => P s') s) :
    P (after call s) := by
  unfold wp at h
  unfold after
  split at h <;> exact h

theorem wp_of_after {call : EStateM ε σ α} {P : σ → Prop} {s : σ} (h : P (after call s)) :
    wp call (fun _ s' => P s') (fun _ s' => P s') s := by
  unfold after at h
  unfold wp
  split at h <;> exact h

theorem after_eq_of_wp {call : EStateM ε σ α} {t : σ} (h : wp call (fun _ s' => s' = t) (fun _ s' => s' = t) s) :
    after call s = t :=
  @after_of_wp _ _ _ _ _ (· = t) h

/-- What a program returns does not matter for the state behind it. -/
theorem after_bind_pure (call : EStateM ε σ α) (f : α → β) (s : σ) :
    after (do let a ← call; return f a) s = after call s := by
  unfold after
  rw [EStateM.run_bind]
  cases call.run s <;> rfl

theorem after_bind_of_run {call : EStateM ε σ α} {a : α} {s' : σ} (h : call.run s = .ok a s')
    (next : α → EStateM ε σ β) : after (call >>= next) s = after (next a) s' := by
  unfold after
  rw [EStateM.run_bind, h]

end Raising
