/-
  Passes over a list, and when they settle.

  A PASS visits the elements of a list from the front.  It computes each of them anew: from the
  element itself, from what is behind it (not visited yet), and from what the element before it
  shows of itself, its CONTEXT, which passes do not change.  The next pass finds other elements
  behind, and so may compute something else.

  An element is SHALLOW if of what is behind it only the shapes matter, and DEEP otherwise; a deep
  element may also read something that an earlier pass has left in it.  What makes passes settle:

  * shapes are the same from the first pass on, and only deep elements change them at all;
  * a shallow element computes the same again in front of the same shapes;
  * when a deep element is computed twice in front of the same shapes, the third computation does
    not tell the difference.

  So the elements settle from the back, one deep element a pass (`Runs.settles`): a list with `d` deep
  elements is at rest after `d + 1` passes.  If two passes succeed, all of them do (`Runs.forever`).
  What a list settles at is determined by the CORES of its elements, that is, by what passes do not
  overwrite (`Runs.fixed_unique`).
-/
import Mathlib.Data.List.Basic

namespace Nata

/-- A pass over lists of `α`s with contexts in `κ`, shapes in `σ` and cores in `γ`. -/
structure Pass (κ σ γ α : Type) where
  /-- The element anew, or `none` if that fails; there is no context in front of the first one. -/
  step : Option κ → List α → α → Option α
  context : α → κ
  shape : α → σ
  deep : α → Bool
  /-- What is not overwritten of an element behind this context. -/
  core : Option κ → α → γ
  context_step : ∀ {k next x y}, step k next x = some y → context y = context x
  deep_step : ∀ {k next x y}, step k next x = some y → deep y = deep x
  shape_again : ∀ {k k' next next' x y z}, step k next x = some y → step k' next' y = some z →
    shape z = shape y
  shape_shallow : ∀ {k next x y}, deep x = false → step k next x = some y → shape y = shape x
  shallow_again : ∀ {k next next' x y}, deep x = false → step k next x = some y →
    next.map shape = next'.map shape → step k next' y = some y
  /-- What the second computation changes is not read by the third. -/
  deep_again : ∀ {k next next' next'' x y z}, deep x = true → step k next x = some y →
    step k next' y = some z → next.map shape = next'.map shape → step k next'' z = step k next'' y
  isSome_again : ∀ {k next next' next'' x y z}, deep x = true → step k next x = some y →
    step k next' y = some z → next'.map shape = next''.map shape → (step k next'' z).isSome
  context_core : ∀ {k x x'}, core k x = core k x' → context x = context x'
  core_step : ∀ {k next next' x x' y y'}, core k x = core k x' → step k next x = some y →
    step k next' x' = some y' → core k y = core k y'
  /-- An element that is computed as it is, is determined by its core and by what is around it. -/
  core_fixed : ∀ {k next y y'}, core k y = core k y' → step k next y = some y →
    step k next y' = some y' → y = y'

namespace Pass

variable {κ σ γ α : Type} (P : Pass κ σ γ α)

/-- Passing over the first list, with this context in front, gives the second. -/
inductive Runs : Option κ → List α → List α → Prop
  | nil {k} : Runs k [] []
  | cons {k x next y next'} : P.step k next x = some y → Runs (some (P.context x)) next next' →
      Runs k (x :: next) (y :: next')

variable {P}

/-- A run over nothing. -/
theorem runs_nil_iff {k : Option κ} {ys : List α} : P.Runs k [] ys ↔ ys = [] := by
  constructor
  · rintro ⟨⟩
    rfl
  · rintro rfl
    exact .nil

/-- A run over a list: a step, and a run behind it. -/
theorem runs_cons_iff {k : Option κ} {x : α} {next ys : List α} :
    P.Runs k (x :: next) ys ↔
      ∃ y next', ys = y :: next' ∧ P.step k next x = some y ∧
        P.Runs (some (P.context x)) next next' := by
  constructor
  · rintro (_ | ⟨hx, hnext⟩)
    exact ⟨_, _, rfl, hx, hnext⟩
  · rintro ⟨y, next', rfl, hx, hnext⟩
    exact .cons hx hnext

/-! ## Shapes -/

/-- The second pass finds the shapes that the first one has left. -/
theorem Runs.shapes_again {k k' : Option κ} {xs ys zs : List α} (h : P.Runs k xs ys)
    (h' : P.Runs k' ys zs) : zs.map P.shape = ys.map P.shape := by
  induction h generalizing k' zs with
  | nil => rw [runs_nil_iff.mp h']
  | cons hx _ ih =>
    obtain ⟨z, next'', rfl, hz, hnext⟩ := runs_cons_iff.mp h'
    rw [List.map_cons, List.map_cons, P.shape_again hx hz, ih hnext]

/-- Without deep elements a pass keeps the shapes. -/
theorem Runs.shapes_shallow {k : Option κ} {xs ys : List α} (h : P.Runs k xs ys)
    (hdeep : xs.countP P.deep = 0) : ys.map P.shape = xs.map P.shape := by
  induction h with
  | nil => rfl
  | cons hx _ ih =>
    rw [List.countP_eq_zero, List.forall_mem_cons] at hdeep
    obtain ⟨hx', hnext⟩ := hdeep
    have hshape := P.shape_shallow (Bool.eq_false_iff.mpr hx') hx
    rw [List.map_cons, List.map_cons, hshape, ih (List.countP_eq_zero.mpr hnext)]

/-- Without deep elements a list is at rest after one pass. -/
theorem Runs.fixed_shallow {k : Option κ} {xs ys : List α} (h : P.Runs k xs ys)
    (hdeep : xs.countP P.deep = 0) : P.Runs k ys ys := by
  induction h with
  | nil => exact .nil
  | cons hx hnext ih =>
    rw [List.countP_eq_zero, List.forall_mem_cons] at hdeep
    obtain ⟨hx', hdeep'⟩ := hdeep
    have hshapes := hnext.shapes_shallow (List.countP_eq_zero.mpr hdeep')
    have hy := P.shallow_again (Bool.eq_false_iff.mpr hx') hx hshapes.symm
    refine .cons hy ?_
    rw [P.context_step hx]
    exact ih (List.countP_eq_zero.mpr hdeep')

/-! ## Passes that go on for ever -/

/-- Two passes that succeed are followed by a third one. -/
theorem Runs.forever {k : Option κ} {xs ys zs : List α} (h : P.Runs k xs ys)
    (h' : P.Runs k ys zs) : ∃ ws, P.Runs k zs ws := by
  induction h generalizing zs with
  | nil => exact ⟨[], by rw [runs_nil_iff.mp h']; exact .nil⟩
  | @cons k x next y next' hx hnext ih =>
    obtain ⟨z, next'', rfl, hz, hnext'⟩ := runs_cons_iff.mp h'
    have hy := P.context_step hx
    obtain ⟨ws, hws⟩ := ih (hy ▸ hnext')
    have hshapes : next'.map P.shape = next''.map P.shape := (hnext.shapes_again hnext').symm
    obtain ⟨w, hw⟩ : ∃ w, P.step k next'' z = some w := by
      cases hdeep : P.deep x with
      | true => exact Option.isSome_iff_exists.mp (P.isSome_again hdeep hx hz hshapes)
      | false => exact ⟨z, P.shallow_again ((P.deep_step hx).trans hdeep) hz hshapes⟩
    refine ⟨w :: ws, .cons hw ?_⟩
    rw [P.context_step hz, hy]
    exact hws

/-- **Passes settle.**  In a series of passes nothing changes any more from the pass on whose number
    is above that of the deep elements. -/
theorem Runs.settles {k : Option κ} {h : Nat → List α} (hruns : ∀ i, P.Runs k (h i) (h (i + 1)))
    {i : Nat} (hi : (h 0).countP P.deep < i) : h (i + 1) = h i := by
  induction hl : h 0 generalizing k h i with
  | nil =>
    have hnil : ∀ i, h i = [] := by
      intro i
      induction i with
      | zero => exact hl
      | succ i ih => exact runs_nil_iff.mp (ih ▸ hruns i)
    rw [hnil, hnil]
  | cons x t ih =>
    -- Every list of the series has a head and a tail, and the tails are a series of their own.
    have hcons : ∀ i, ∃ a next, h i = a :: next := by
      intro i
      induction i with
      | zero => exact ⟨x, t, hl⟩
      | succ i ih =>
        obtain ⟨a, next, ha⟩ := ih
        obtain ⟨y, next', hy, -, -⟩ := runs_cons_iff.mp (ha ▸ hruns i)
        exact ⟨y, next', hy⟩
    choose a next hsplit using hcons
    have hboth : ∀ i, P.step k (next i) (a i) = some (a (i + 1)) ∧
        P.Runs (some (P.context (a i))) (next i) (next (i + 1)) := by
      intro i
      have hrun := hruns i
      rw [hsplit i, hsplit (i + 1)] at hrun
      rcases hrun with _ | ⟨hx, hnext⟩
      exact ⟨hx, hnext⟩
    have hcontext : ∀ i, P.context (a i) = P.context (a 0) := by
      intro i
      induction i with
      | zero => rfl
      | succ i ih => exact (P.context_step (hboth i).1).trans ih
    have htails : ∀ i, P.Runs (some (P.context (a 0))) (next i) (next (i + 1)) := by
      intro i
      rw [← hcontext i]
      exact (hboth i).2
    have hdeep : ∀ i, P.deep (a i) = P.deep (a 0) := by
      intro i
      induction i with
      | zero => rfl
      | succ i ih => exact (P.deep_step (hboth i).1).trans ih
    rw [hsplit 0, List.countP_cons] at hi
    have htail : ∀ {j}, (next 0).countP P.deep < j → next (j + 1) = next j := by
      intro j hj
      have hnext : next 0 = t := (List.cons.inj ((hsplit 0).symm.trans hl)).2
      exact ih htails hj hnext
    -- The shapes behind are at rest from the first pass on; or at once, if nothing there is deep.
    have hshapes : ∀ {j}, (next 0).countP P.deep ≤ j →
        (next (j + 1)).map P.shape = (next j).map P.shape := by
      intro j hj
      cases j with
      | zero => exact (htails 0).shapes_shallow (Nat.le_zero.mp hj)
      | succ j => exact (htails j).shapes_again (htails (j + 1))
    rw [hsplit, hsplit]
    cases hkind : P.deep (a 0) with
    | false =>
      rw [hkind] at hi
      obtain ⟨j, rfl⟩ : ∃ j, i = j + 1 := ⟨i - 1, by omega⟩
      have hi' : (next 0).countP P.deep < j + 1 := by simpa using hi
      have hhead := P.shallow_again ((hdeep j).trans hkind) (hboth j).1
        (hshapes (by omega)).symm
      rw [Option.some.inj ((hboth (j + 1)).1.symm.trans hhead), htail hi']
    | true =>
      rw [hkind] at hi
      obtain ⟨j, rfl⟩ : ∃ j, i = j + 2 := ⟨i - 2, by simp at hi; omega⟩
      have hi' : (next 0).countP P.deep < j + 1 := by simpa using hi
      have hrest : next (j + 2) = next (j + 1) := htail hi'
      -- The computations number `j` and `j + 1` were made in front of the same shapes.
      have hsame : P.step k (next (j + 1)) (a (j + 2)) = P.step k (next (j + 1)) (a (j + 1)) :=
        P.deep_again ((hdeep j).trans hkind) (hboth j).1 (hboth (j + 1)).1
          (hshapes (by omega)).symm
      have hhead : P.step k (next (j + 2)) (a (j + 2)) = some (a (j + 2)) := by
        rw [hrest, hsame]
        exact (hboth (j + 1)).1
      rw [Option.some.inj ((hboth (j + 2)).1.symm.trans hhead), htail (by omega)]

/-! ## What they settle at -/

variable (P) in
/-- The cores of a list behind this context. -/
def cores : Option κ → List α → List γ
  | _, [] => []
  | k, x :: next => P.core k x :: cores (some (P.context x)) next

/-- Only nothing has no cores. -/
theorem cores_eq_nil {k : Option κ} {xs : List α} (h : P.cores k xs = []) : xs = [] := by
  cases xs with
  | nil => rfl
  | cons x next => cases h

/-- Lists with the same cores agree at the front and behind. -/
theorem cores_cons_inj {k : Option κ} {x x' : α} {next next' : List α}
    (h : P.cores k (x :: next) = P.cores k (x' :: next')) :
    P.core k x = P.core k x' ∧ P.context x = P.context x' ∧
      P.cores (some (P.context x)) next = P.cores (some (P.context x)) next' := by
  obtain ⟨hhead, htail⟩ := List.cons.inj h
  have hcontext := P.context_core hhead
  refine ⟨hhead, hcontext, ?_⟩
  rw [htail, hcontext]

/-- The cores after a pass depend on the cores before. -/
theorem Runs.cores_eq {k : Option κ} {xs xs' ys ys' : List α} (h : P.Runs k xs ys)
    (h' : P.Runs k xs' ys') (hcore : P.cores k xs = P.cores k xs') :
    P.cores k ys = P.cores k ys' := by
  induction h generalizing xs' ys' with
  | nil =>
    obtain rfl := cores_eq_nil hcore.symm
    rw [runs_nil_iff.mp h']
  | cons hx _ ih =>
    rcases h' with _ | ⟨hx', hnext'⟩
    · cases hcore
    · obtain ⟨hhead, hcontext, htail⟩ := cores_cons_inj hcore
      rw [← hcontext] at hnext'
      rw [cores, cores, P.core_step hhead hx hx', P.context_step hx, P.context_step hx',
        ← hcontext, ih hnext' htail]

/-- **Two lists at rest are the same if their cores are.** -/
theorem Runs.fixed_unique {k : Option κ} {ys ys' : List α} (h : P.Runs k ys ys)
    (h' : P.Runs k ys' ys') (hcore : P.cores k ys = P.cores k ys') : ys = ys' := by
  induction ys generalizing k ys' with
  | nil => exact (cores_eq_nil hcore.symm).symm
  | cons y next ih =>
    rcases ys' with _ | ⟨y', next'⟩
    · cases hcore
    · obtain ⟨hhead, hcontext, htail⟩ := cores_cons_inj hcore
      rcases h with _ | ⟨hy, hnext⟩
      rcases h' with _ | ⟨hy', hnext'⟩
      rw [← hcontext] at hnext'
      obtain rfl := ih hnext hnext' htail
      rw [P.core_fixed hhead hy hy']

end Pass

end Nata
