/-
  Iterators: a state and a function `next`.

  `next` returns the next element, or `None`; what it returns after a `None` is open.  A for loop
  calls it until the first `None`, and need not end.  `Yields next s as t` says that a for loop
  started in the state `s` ends, having seen the elements `as`, and that the call which returned
  `None` was made in the state `t`.

  * `Yields.unique`   — a for loop sees one list of elements, and ends in one state;
  * `Yields.map`      — the adapter `map`: every element, in order;
  * `Yields.mapWhile` — the adapter `map_while`, which ends the loop at the first element without an
                        image: either every element has one, and the images are yielded, or the loop
                        ends in front of such an element.
-/
import Mathlib.Data.List.Basic

namespace Nata.Iterator

variable {σ τ α β : Type}

/-- A for loop started in the first state yields the elements, and ends with a `None` in the last
    state. -/
inductive Yields (next : σ → Option α × σ) : σ → List α → σ → Prop
  | stop {s s'} : next s = (none, s') → Yields next s [] s
  | more {s s' t a as} : next s = (some a, s') → Yields next s' as t → Yields next s (a :: as) t

variable {next : σ → Option α × σ}

/-- An iterator yields one series. -/
theorem Yields.unique {s t u : σ} {as bs : List α} (h : Yields next s as t)
    (h' : Yields next s bs u) : as = bs ∧ t = u := by
  induction h generalizing bs with
  | stop hs =>
    cases h' with
    | stop _ => exact ⟨rfl, rfl⟩
    | more hs' _ =>
      rw [hs] at hs'
      cases hs'
  | more hs _ ih =>
    cases h' with
    | stop hs' =>
      rw [hs] at hs'
      cases hs'
    | more hs' h' =>
      rw [hs] at hs'
      cases hs'
      obtain ⟨rfl, rfl⟩ := ih h'
      exact ⟨rfl, rfl⟩

/-- The last call returned `None`. -/
theorem Yields.next_last {s t : σ} {as : List α} (h : Yields next s as t) :
    (next t).1 = none := by
  induction h with
  | stop hs => rw [hs]
  | more _ _ ih => exact ih

/-- The adapter `map`, on a state that wraps the one below. -/
theorem Yields.map {next' : τ → Option β × τ} {f : α → β} (wrap : σ → τ)
    (hnext : ∀ s, next' (wrap s) = ((next s).1.map f, wrap (next s).2)) {s t : σ} {as : List α}
    (h : Yields next s as t) : Yields next' (wrap s) (as.map f) (wrap t) := by
  induction h with
  | stop hs => exact .stop (by rw [hnext, hs]; rfl)
  | more hs _ ih => exact .more (by rw [hnext, hs]; rfl) ih

/-- The adapter `map_while`: the loop ends in front of the first element without an image, or else
    where the loop below it ends. -/
theorem Yields.mapWhile {next' : σ → Option β × σ} {f : α → Option β}
    (hnext : ∀ s, next' s = ((next s).1.bind f, (next s).2)) {s t : σ} {as : List α}
    (h : Yields next s as t) :
    ((∀ a ∈ as, (f a).isSome) ∧ Yields next' s (as.filterMap f) t) ∨
    (∃ front a back u, as = front ++ a :: back ∧ (∀ a ∈ front, (f a).isSome) ∧ f a = none ∧
      Yields next' s (front.filterMap f) u ∧ (next u).1 = some a) := by
  induction h with
  | @stop s s' hs =>
    have hn : next' s = (none, s') := by
      rw [hnext, hs]
      rfl
    exact .inl ⟨fun a ha => absurd ha List.not_mem_nil, .stop hn⟩
  | @more s s' t a as hs _ ih =>
    have hn : next' s = (f a, s') := by
      rw [hnext, hs]
      rfl
    cases ha : f a with
    | none =>
      -- The loop ends here, whatever comes behind.
      rw [ha] at hn
      exact .inr ⟨[], a, as, s, rfl, fun a ha => absurd ha List.not_mem_nil, ha, .stop hn, by rw [hs]⟩
    | some b =>
      rw [ha] at hn
      have hsome : (f a).isSome := by
        rw [ha]
        rfl
      rcases ih with ⟨hall, hy⟩ | ⟨front, a', back, u, rfl, hall, hnone, hy, hu⟩
      · refine .inl ⟨List.forall_mem_cons.mpr ⟨hsome, hall⟩, ?_⟩
        rw [List.filterMap_cons_some ha]
        exact .more hn hy
      · refine .inr ⟨a :: front, a', back, u, rfl, List.forall_mem_cons.mpr ⟨hsome, hall⟩, hnone, ?_,
          hu⟩
        rw [List.filterMap_cons_some ha]
        exact .more hn hy

end Nata.Iterator
