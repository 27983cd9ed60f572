/-
  Reading ends.

  The loops over elements run on fuel here.  If every element takes at least one bit the fuel does
  not matter: with more of it than there are bits left, the loop comes to its end by itself, by its
  stopping condition or with the error of an element that finds no input (`Nonempty.loopEnds`,
  `Nonempty.vecEnds`).

  A later field may be described with an expression over an earlier one.  It does not matter what
  the expression does on values that the earlier field is never read as (`read_seq_congr`).
-/
import Nata.Lib.Deku

namespace Nata.Codec

variable {α β : Type} {R : Bits → Prop}

/-- Whatever is read takes at least `k` bits of the input. -/
def Takes (k : Nat) (c : Codec R α) : Prop :=
  ∀ bs a rest, c.read.run bs = .ok (a, rest) → rest.length + k ≤ bs.length

/-- A reader takes what its values are written as. -/
theorem takes_of_write {k : Nat} {c : Codec R α} (h : ∀ a u, c.write a = .ok u → k ≤ u.length) :
    c.Takes k := by
  intro bs a rest hread
  obtain ⟨-, -, u, hu, rfl⟩ := (c.spec _ _ _).mp hread
  have hk := h a u hu
  rw [List.length_append]
  omega

/-- What is never written as nothing takes a bit at least. -/
theorem Nonempty.takes {c : Field α} (hc : c.Nonempty) : c.Takes 1 := by
  intro bs a rest hread
  obtain ⟨hval, u, hu, rfl⟩ := (read_eq_ok c).mp hread
  have hpos := hc a u hval hu
  rw [List.length_append]
  omega

/-! ## Loops -/

/-- The loop up to a limit ends by itself: it does not miss the rounds beyond those that there are
    bits for. -/
def LoopEnds (c : Field α) : Prop :=
  ∀ limit done bs fuel, bs.length < fuel →
    (Reader.untilConsumed c.read limit fuel done).run bs =
      (Reader.untilConsumed c.read limit (bs.length + 1) done).run bs

/-- So does the loop up to the end of the input. -/
def VecEnds (c : Field α) : Prop :=
  ∀ bs fuel, bs.length ≤ fuel →
    (Reader.toEnd c.read fuel).run bs = (Reader.toEnd c.read bs.length).run bs

/-- Only what the first reader returns goes to the second. -/
theorem run_bind_congr {r : Reader α} {f g : α → Reader β} {bs : Bits}
    (h : ∀ a mid, r.run bs = .ok (a, mid) → (f a).run mid = (g a).run mid) :
    (r >>= f).run bs = (r >>= g).run bs := by
  rw [StateT.run_bind, StateT.run_bind]
  cases hr : r.run bs with
  | error e => rfl
  | ok p => exact h p.1 p.2 hr

/-- The fuel of the limited loop is not what ends it. -/
theorem untilConsumed_congr {c : Field α} (hc : c.Takes 1) {limit : Nat} :
    ∀ {fuel fuel' done : Nat} {bs : Bits}, bs.length < fuel → bs.length < fuel' →
      (Reader.untilConsumed c.read limit fuel done).run bs =
        (Reader.untilConsumed c.read limit fuel' done).run bs := by
  intro fuel
  induction fuel with
  | zero => intro fuel' done bs h; exact absurd h (Nat.not_lt_zero _)
  | succ fuel ih =>
    intro fuel' done bs h h'
    cases fuel' with
    | zero => exact absurd h' (Nat.not_lt_zero _)
    | succ fuel' =>
      unfold Reader.untilConsumed
      refine run_bind_congr fun before mid hbefore => ?_
      obtain ⟨rfl, rfl⟩ := Reader.get_eq_ok.mp hbefore
      refine run_bind_congr fun val rest hval => ?_
      have htakes := hc _ _ _ hval
      refine run_bind_congr fun after rest' hafter => ?_
      obtain ⟨rfl, rfl⟩ := Reader.get_eq_ok.mp hafter
      show StateT.run (if _ then _ else _) rest' = StateT.run (if _ then _ else _) rest'
      split
      · rfl
      · -- The element has taken a bit, and there is fuel for those that are left.
        rw [StateT.run_bind, StateT.run_bind, ih (by omega) (by omega : rest'.length < fuel')]

/-- **The limited loop ends**, if every element takes a bit. -/
theorem Nonempty.loopEnds {c : Field α} (hc : c.Nonempty) : c.LoopEnds :=
  fun _ _ _ _ h => untilConsumed_congr hc.takes h (Nat.lt_succ_self _)

/-- The fuel of the loop to the end is not what ends it. -/
theorem toEnd_congr {c : Field α} (hc : c.Takes 1) :
    ∀ {fuel fuel' : Nat} {bs : Bits}, bs.length ≤ fuel → bs.length ≤ fuel' →
      (Reader.toEnd c.read fuel).run bs = (Reader.toEnd c.read fuel').run bs := by
  have hnil : ∀ fuel : Nat, (Reader.toEnd c.read fuel).run [] = .ok ([], []) := by
    intro fuel
    cases fuel <;> rfl
  intro fuel
  induction fuel with
  | zero =>
    intro fuel' bs h _
    obtain rfl := List.eq_nil_of_length_eq_zero (Nat.le_zero.mp h)
    rw [hnil, hnil]
  | succ fuel ih =>
    intro fuel' bs h h'
    cases fuel' with
    | zero =>
      obtain rfl := List.eq_nil_of_length_eq_zero (Nat.le_zero.mp h')
      rw [hnil, hnil]
    | succ fuel' =>
      unfold Reader.toEnd
      refine run_bind_congr fun before mid hbefore => ?_
      obtain ⟨rfl, rfl⟩ := Reader.get_eq_ok.mp hbefore
      split
      · rfl
      · refine run_bind_congr fun val mid' hval => ?_
        have htakes := hc _ _ _ hval
        rw [StateT.run_bind, StateT.run_bind, ih (by omega) (by omega : mid'.length ≤ fuel')]

/-- **The loop to the end of the input ends**, if every element takes a bit. -/
theorem Nonempty.vecEnds {c : Field α} (hc : c.Nonempty) : c.VecEnds :=
  fun _ _ h => toEnd_congr hc.takes h (Nat.le_refl _)

/-! ## Expressions over earlier fields -/

/-- Only the values that the first field is read as matter for the second. -/
theorem read_seq_congr {c : Field α} {d d' : α → Codec R β} {bs : Bits}
    (h : ∀ a mid, c.read.run bs = .ok (a, mid) → (d a).read.run mid = (d' a).read.run mid) :
    (c.seq d).read.run bs = (c.seq d').read.run bs := by
  refine run_bind_congr fun a mid ha => ?_
  rw [StateT.run_bind, StateT.run_bind, h a mid ha]

theorem read_iso_congr {c c' : Codec R α} {f : α → β} {g : β → α} {hgf : ∀ a, g (f a) = a}
    {hfg : ∀ b, f (g b) = b} {bs : Bits} (h : c.read.run bs = c'.read.run bs) :
    (c.iso f g hgf hfg).read.run bs = (c'.iso f g hgf hfg).read.run bs := by
  show (c.read >>= fun a => pure (f a)).run bs = (c'.read >>= fun a => pure (f a)).run bs
  rw [StateT.run_bind, StateT.run_bind, h]

end Nata.Codec
