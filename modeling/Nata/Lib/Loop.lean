/-
  Loops that run until one of their steps returns.

  A `loop { .. }` whose body either goes round again or leaves with a value is a step function
  `step : σ → σ ⊕ ρ` on the loop's state.  Such a loop need not end, so there are two readings of
  it: `run step n s`, which executes at most `n` steps and is `none` when they do not suffice, and
  the relation `Returns step s r`, "started in `s` the loop ends and returns `r`".

  * `Returns.unique`, `returns_of_run` — the relation is a partial function, and `run` computes it;
  * `Returns.rule`  — the invariant rule: what holds on entry and is kept by a step holds, at the
                      exit, of the value returned;
  * `returns_of_measure` — a measure that falls with every step bounds the number of steps;
  * `Returns.congr` — two bodies that agree on the states reached return the same values;
  * `returns_map`   — a simulation: a body that commutes with a change of state commutes as a loop.
-/
import Mathlib.Logic.Relation

namespace Nata.Loop

variable {σ ρ : Type}

/-- At most `n` steps of the loop; `none` if it has not left by then. -/
def run (step : σ → σ ⊕ ρ) : Nat → σ → Option ρ
  | 0, _ => none
  | n + 1, s =>
    match step s with
    | .inl s' => run step n s'
    | .inr r => some r

/-- Started in `s` the loop ends and returns `r`. -/
inductive Returns (step : σ → σ ⊕ ρ) : σ → ρ → Prop
  | stop {s r} : step s = .inr r → Returns step s r
  | next {s s' r} : step s = .inl s' → Returns step s' r → Returns step s r

/-- The states a loop started in `s` comes by. -/
def Reaches (step : σ → σ ⊕ ρ) : σ → σ → Prop :=
  Relation.ReflTransGen fun s s' => step s = .inl s'

variable {step : σ → σ ⊕ ρ}

/-- A loop that stops at once returns what it stops with. -/
theorem returns_of_stop_iff {s : σ} {r r' : ρ} (h : step s = .inr r) :
    Returns step s r' ↔ r' = r := by
  constructor
  · intro hr
    cases hr with
    | stop h' => rw [h] at h'; exact (Sum.inr.inj h').symm
    | next h' _ => rw [h] at h'; cases h'
  · rintro rfl
    exact .stop h

/-- A loop that goes on returns what it returns from the next state. -/
theorem returns_of_next_iff {s s' : σ} {r : ρ} (h : step s = .inl s') :
    Returns step s r ↔ Returns step s' r := by
  constructor
  · intro hr
    cases hr with
    | stop h' => rw [h] at h'; cases h'
    | next h' hr' => rw [h] at h'; exact Sum.inl.inj h' ▸ hr'
  · exact .next h

/-- A loop returns one value at most. -/
theorem Returns.unique {s : σ} {r r' : ρ} (h : Returns step s r) (h' : Returns step s r') :
    r = r' := by
  induction h with
  | stop hs => exact ((returns_of_stop_iff hs).mp h').symm
  | next hs _ ih => exact ih ((returns_of_next_iff hs).mp h')

/-- What enough steps compute is what the loop returns. -/
theorem returns_iff_run {s : σ} {r : ρ} : Returns step s r ↔ ∃ n, run step n s = some r := by
  constructor
  · intro h
    induction h with
    | stop hs => exact ⟨1, by simp only [run, hs]⟩
    | next hs _ ih =>
      obtain ⟨n, hn⟩ := ih
      exact ⟨n + 1, by simp only [run, hs, hn]⟩
  · rintro ⟨n, hn⟩
    induction n generalizing s with
    | zero => cases hn
    | succ n ih =>
      cases hs : step s with
      | inl s' => exact .next hs (ih (by simpa only [run, hs] using hn))
      | inr r' =>
        have hr : r' = r := by simpa only [run, hs, Option.some.injEq] using hn
        exact .stop (hr ▸ hs)

/-- What is returned within some fuel is returned. -/
theorem returns_of_run {n : Nat} {s : σ} {r : ρ} (h : run step n s = some r) :
    Returns step s r := returns_iff_run.mpr ⟨n, h⟩

/-- A loop returns from a state that it comes by. -/
theorem returns_iff_reaches {s : σ} {r : ρ} :
    Returns step s r ↔ ∃ t, Reaches step s t ∧ step t = .inr r := by
  constructor
  · intro h
    induction h with
    | stop hs => exact ⟨_, .refl, hs⟩
    | next hs _ ih =>
      obtain ⟨t, ht, hstop⟩ := ih
      exact ⟨t, .head hs ht, hstop⟩
  · rintro ⟨t, ht, hstop⟩
    induction ht using Relation.ReflTransGen.head_induction_on with
    | refl => exact .stop hstop
    | head hs _ ih => exact .next hs ih

/-- The invariant rule. -/
theorem Returns.rule {I : σ → Prop} {P : ρ → Prop} {s : σ} {r : ρ}
    (hr : Returns step s r) (hs : I s)
    (hnext : ∀ s s', I s → step s = .inl s' → I s')
    (hstop : ∀ s r, I s → step s = .inr r → P r) : P r := by
  induction hr with
  | stop h => exact hstop _ _ hs h
  | next h _ ih => exact ih (hnext _ _ hs h)

/-- A measure that falls with every step of an invariant's states bounds the number of steps. -/
theorem run_of_measure {I : σ → Prop} {meas : σ → Nat}
    (hnext : ∀ s s', I s → step s = .inl s' → I s' ∧ meas s' < meas s) :
    ∀ {n : Nat} {s : σ}, I s → meas s < n → ∃ r, run step n s = some r := by
  intro n
  induction n with
  | zero => intro s _ h; exact absurd h (Nat.not_lt_zero _)
  | succ n ih =>
    intro s hs h
    cases hstep : step s with
    | inr r => exact ⟨r, by simp only [run, hstep]⟩
    | inl s' =>
      obtain ⟨hs', hlt⟩ := hnext s s' hs hstep
      obtain ⟨r, hr⟩ := ih hs' (by omega)
      exact ⟨r, by simp only [run, hstep, hr]⟩

/-- Two bodies that agree on every state the first one comes by return the same values. -/
theorem returns_congr {step' : σ → σ ⊕ ρ} {s : σ}
    (h : ∀ t, Reaches step s t → step t = step' t) (r : ρ) :
    Returns step s r ↔ Returns step' s r := by
  constructor
  · intro hr
    induction hr with
    | stop hs => exact .stop (h _ .refl ▸ hs)
    | next hs _ ih =>
      exact .next (h _ .refl ▸ hs) (ih fun t ht => h t (.head hs ht))
  · intro hr
    induction hr with
    | stop hs => exact .stop ((h _ .refl).trans hs)
    | next hs _ ih =>
      have hs' := (h _ .refl).trans hs
      exact .next hs' (ih fun t ht => h t (.head hs' ht))

/-- A body that commutes with a change of state and of result does so as a loop. -/
theorem returns_map {τ ρ' : Type} {step' : τ → τ ⊕ ρ'} {f : σ → τ} {g : ρ → ρ'}
    (h : ∀ s, step' (f s) = Sum.map f g (step s)) {s : σ} {r' : ρ'} :
    Returns step' (f s) r' ↔ ∃ r, Returns step s r ∧ r' = g r := by
  constructor
  · intro hr
    generalize hfs : f s = t at hr
    induction hr generalizing s with
    | stop ht =>
      rw [← hfs, h] at ht
      cases hs : step s with
      | inl s' => rw [hs] at ht; cases ht
      | inr r => rw [hs] at ht; exact ⟨r, .stop hs, (Sum.inr.inj ht).symm⟩
    | next ht _ ih =>
      rw [← hfs, h] at ht
      cases hs : step s with
      | inl s' =>
        rw [hs] at ht
        obtain ⟨r, hr, hg⟩ := ih (Sum.inl.inj ht)
        exact ⟨r, .next hs hr, hg⟩
      | inr r => rw [hs] at ht; cases ht
  · rintro ⟨r, hr, rfl⟩
    induction hr with
    | stop hs => exact .stop (by rw [h, hs]; rfl)
    | next hs _ ih => exact .next (by rw [h, hs]; rfl) ih

end Nata.Loop
