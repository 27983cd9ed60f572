/-
  Methods on `&mut self` that return a `Result`.

  Such a method changes the receiver and may still fail: an error does not undo the assignments
  made before it.  `EStateM ε σ` is exactly that, a function of the receiver whose result is a
  value or an error, either one with the receiver as it is left.  `?` on a plain `Result` is the
  lift of `Except`, which leaves the receiver alone.
-/
import Mathlib.Logic.Basic

namespace Nata

instance decidableEqResult {ε σ α : Type} [DecidableEq ε] [DecidableEq σ] [DecidableEq α] :
    DecidableEq (EStateM.Result ε σ α)
  | .ok a s, .ok b t => decidable_of_iff (a = b ∧ s = t) (EStateM.Result.ok.injEq a s b t).symm.to_iff
  | .error e s, .error f t =>
    decidable_of_iff (e = f ∧ s = t) (EStateM.Result.error.injEq e s f t).symm.to_iff
  | .ok _ _, .error _ _ => isFalse fun h => by cases h
  | .error _ _, .ok _ _ => isFalse fun h => by cases h

/-- A method of `σ` that returns an `α` or fails with an `ε`. -/
abbrev Method (ε σ α : Type) := EStateM ε σ α

namespace Method

variable {ε σ α β : Type}

/-- `?` on a result that does not involve the receiver. -/
instance : MonadLift (Except ε) (EStateM ε σ) where
  monadLift x s :=
    match x with
    | .ok a => .ok a s
    | .error e => .error e s

/-- Two methods succeed when the second one does on the state that the first one has left. -/
theorem bind_eq_ok {x : Method ε σ α} {f : α → Method ε σ β} {s s' : σ} {b : β} :
    (x >>= f) s = .ok b s' ↔ ∃ a t, x s = .ok a t ∧ f a t = .ok b s' := by
  show EStateM.bind x f s = _ ↔ _
  unfold EStateM.bind
  cases x s with
  | ok a t =>
    constructor
    · intro h
      exact ⟨a, t, rfl, h⟩
    · rintro ⟨_, _, ht, h⟩
      cases ht
      exact h
  | error e t => simp

/-- The state stays. -/
theorem pure_eq_ok {a b : α} {s s' : σ} :
    (pure a : Method ε σ α) s = .ok b s' ↔ b = a ∧ s' = s := by
  show EStateM.Result.ok a s = _ ↔ _
  rw [EStateM.Result.ok.injEq, eq_comm, eq_comm (a := s)]

/-- The state is looked at, and stays. -/
theorem get_eq_ok {s s' t : σ} : (get : Method ε σ σ) s = .ok t s' ↔ t = s ∧ s' = s := by
  show EStateM.Result.ok s s = _ ↔ _
  rw [EStateM.Result.ok.injEq, eq_comm, eq_comm (a := s) (b := s')]

/-- The state is replaced. -/
theorem modify_eq_ok {f : σ → σ} {s s' : σ} {u : PUnit} :
    (modify f : Method ε σ PUnit) s = .ok u s' ↔ s' = f s := by
  show EStateM.Result.ok PUnit.unit (f s) = _ ↔ _
  rw [EStateM.Result.ok.injEq, eq_comm (a := f s)]
  exact and_iff_right rfl

/-- A result that does not depend on the state. -/
theorem lift_eq_ok {x : Except ε α} {s s' : σ} {a : α} :
    (liftM x : Method ε σ α) s = .ok a s' ↔ x = .ok a ∧ s' = s := by
  cases x with
  | ok b =>
    show EStateM.Result.ok b s = _ ↔ _
    rw [EStateM.Result.ok.injEq, Except.ok.injEq, eq_comm (a := s)]
  | error e =>
    show EStateM.Result.error e s = _ ↔ _
    simp

/-- A computation that does not involve the receiver, and an assignment of its result. -/
theorem assign_eq_ok {x : Except ε α} {f : α → σ → σ} {s s' : σ} :
    (liftM x >>= fun a => modify (f a) : Method ε σ PUnit) s = .ok () s' ↔
      ∃ a, x = .ok a ∧ s' = f a s := by
  rw [bind_eq_ok]
  constructor
  · rintro ⟨a, _, hlift, hmodify⟩
    obtain ⟨hx, rfl⟩ := lift_eq_ok.mp hlift
    exact ⟨a, hx, modify_eq_ok.mp hmodify⟩
  · rintro ⟨a, hx, rfl⟩
    exact ⟨a, s, lift_eq_ok.mpr ⟨hx, rfl⟩, modify_eq_ok.mpr rfl⟩

/-! ## Errors, and what they leave behind -/

/-- A sequence fails where its first part does, or later, with what the first part has written. -/
theorem bind_eq_error {x : Method ε σ α} {f : α → Method ε σ β} {s s' : σ} {e : ε} :
    (x >>= f) s = .error e s' ↔
      x s = .error e s' ∨ ∃ a t, x s = .ok a t ∧ f a t = .error e s' := by
  show EStateM.bind x f s = _ ↔ _
  unfold EStateM.bind
  cases x s with
  | ok a t =>
    constructor
    · intro h
      exact .inr ⟨a, t, rfl, h⟩
    · rintro (h | ⟨_, _, ht, h⟩)
      · cases h
      · cases ht
        exact h
  | error e' t => simp

theorem pure_ne_error {a : α} {s s' : σ} {e : ε} : (pure a : Method ε σ α) s ≠ .error e s' := by
  intro h
  cases h

theorem get_ne_error {s s' : σ} {e : ε} : (get : Method ε σ σ) s ≠ .error e s' := by
  intro h
  cases h

theorem modify_ne_error {f : σ → σ} {s s' : σ} {e : ε} :
    (modify f : Method ε σ PUnit) s ≠ .error e s' := by
  intro h
  cases h

/-- An error that does not involve the receiver leaves it alone. -/
theorem lift_eq_error {x : Except ε α} {s s' : σ} {e : ε} :
    (liftM x : Method ε σ α) s = .error e s' ↔ x = .error e ∧ s' = s := by
  cases x with
  | ok b =>
    show EStateM.Result.ok b s = _ ↔ _
    simp
  | error e' =>
    show EStateM.Result.error e' s = _ ↔ _
    rw [EStateM.Result.error.injEq, Except.error.injEq, eq_comm (a := s)]

/-- The receiver as it is left, whatever the outcome. -/
def left : EStateM.Result ε σ α → σ
  | .ok _ s => s
  | .error _ s => s

/-- The outcome of a method on a part, for the whole that `f` makes of the part. -/
def zoom {τ : Type} (f : σ → τ) : EStateM.Result ε σ α → EStateM.Result ε τ α
  | .ok a s => .ok a (f s)
  | .error e s => .error e (f s)

/-- What is left of the part is the part of what is left. -/
theorem left_zoom {τ : Type} {f : σ → τ} {r : EStateM.Result ε σ α} :
    left (zoom f r) = f (left r) := by
  cases r <;> rfl

/-- A method of a part succeeds as the part does. -/
theorem zoom_eq_ok {τ : Type} {f : σ → τ} {r : EStateM.Result ε σ α} {a : α} {t : τ} :
    zoom f r = .ok a t ↔ ∃ s, r = .ok a s ∧ t = f s := by
  cases r with
  | ok b s =>
    constructor
    · intro h
      cases h
      exact ⟨s, rfl, rfl⟩
    · rintro ⟨_, h, rfl⟩
      cases h
      rfl
  | error e s => simp [zoom]

theorem zoom_eq_error {τ : Type} {f : σ → τ} {r : EStateM.Result ε σ α} {e : ε} {t : τ} :
    zoom f r = .error e t ↔ ∃ s, r = .error e s ∧ t = f s := by
  cases r with
  | ok a s => simp [zoom]
  | error e' s =>
    constructor
    · intro h
      cases h
      exact ⟨s, rfl, rfl⟩
    · rintro ⟨_, h, rfl⟩
      cases h
      rfl

end Method

end Nata
