/-
  Readers that work on line.

  The input of a reader may be the front of a longer one, of which the rest has not arrived.  A reader
  is ON LINE if more input does not change what it has decided: a value stays the value, with all of
  the new input behind it, and an error stays the error unless it is the one that asks for more.

  So such a reader can be run on what is there: if it has decided nothing, it has asked for more.

  Every format that the combinators of codecs build is on line; each lemma is the step for one of
  them.  The formats that read to the end of the input (`readAll`) are not, of course.
-/
import Nata.Lib.Cut
import Nata.Lib.Ends

namespace Nata

/-- An error that more input does not undo. -/
def DekuError.Definite (e : DekuError) : Prop := ∀ need, e ≠ .incomplete need

namespace Reader

variable {α β : Type}

/-- What has been decided in the first outcome stands in the second, with `ext` behind it. -/
def Stands (x y : Except DekuError (α × Bits)) (ext : Bits) : Prop :=
  (∀ a rest, x = .ok (a, rest) → y = .ok (a, rest ++ ext)) ∧
    ∀ e, x = .error e → e.Definite → y = .error e

/-- More input does not change what is decided. -/
def Online (r : Reader α) : Prop := ∀ bs ext, Stands (r.run bs) (r.run (bs ++ ext)) ext

/-- An outcome stands when that of each part does. -/
theorem Stands.bind {r r' : Reader α} {f f' : α → Reader β} {bs bs' ext : Bits}
    (hr : Stands (r.run bs) (r'.run bs') ext)
    (hf : ∀ a mid, r.run bs = .ok (a, mid) →
      Stands ((f a).run mid) ((f' a).run (mid ++ ext)) ext) :
    Stands ((r >>= f).run bs) ((r' >>= f').run bs') ext := by
  obtain ⟨hok, herr⟩ := hr
  constructor
  · intro b rest h
    obtain ⟨a, mid, ha, hb⟩ := bind_eq_ok.mp h
    exact bind_eq_ok.mpr ⟨a, mid ++ ext, hok a mid ha, (hf a mid ha).1 b rest hb⟩
  · intro e h hdef
    rw [StateT.run_bind] at h ⊢
    cases hread : r.run bs with
    | error e' =>
      rw [hread] at h
      obtain rfl : e' = e := Except.error.inj h
      rw [herr e' hread hdef]
      rfl
    | ok p =>
      obtain ⟨a, mid⟩ := p
      rw [hread] at h
      rw [hok a mid hread]
      exact (hf a mid hread).2 e h hdef

theorem Online.bind {r : Reader α} {f : α → Reader β} (hr : r.Online) (hf : ∀ a, (f a).Online) :
    (r >>= f).Online := fun bs ext => (hr bs ext).bind fun a mid _ => hf a mid ext

theorem online_pure {a : α} : (pure a : Reader α).Online := by
  intro bs ext
  constructor
  · intro b rest h
    obtain ⟨rfl, rfl⟩ := pure_eq_ok.mp h
    rfl
  · intro e h
    cases h

theorem online_throw {e : DekuError} : (throw e : Reader α).Online := by
  intro bs ext
  constructor
  · intro a rest h
    cases h
  · intro e' h _
    cases h
    rfl

theorem online_lift {x : Except DekuError α} : (liftM x : Reader α).Online := by
  intro bs ext
  constructor
  · intro a rest h
    obtain ⟨rfl, rfl⟩ := lift_eq_ok.mp h
    rfl
  · intro e h _
    cases x with
    | ok a => cases h
    | error e' => exact h

/-- Bits that are there stay in front. -/
theorem online_take {n : Nat} : (take n).Online := by
  intro bs ext
  constructor
  · intro u rest h
    obtain ⟨hlen, rfl⟩ := take_eq_ok.mp h
    exact take_eq_ok.mpr ⟨hlen, List.append_assoc ..⟩
  · intro e h hdef
    unfold take at h
    rw [StateT.run] at h
    split at h
    · cases h
      exact absurd rfl (hdef n)
    · cases h

theorem Online.replicate {r : Reader α} (hr : r.Online) : ∀ n, (Reader.replicate r n).Online
  | 0 => online_pure
  | n + 1 => hr.bind fun _ => (Online.replicate hr n).bind fun _ => online_pure

/-- The loop counts what it consumes, which is the same in front of more input. -/
theorem Online.untilConsumed {r : Reader α} (hr : r.Online) {limit : Nat} :
    ∀ {fuel done : Nat}, (Reader.untilConsumed r limit fuel done).Online := by
  intro fuel
  induction fuel with
  | zero => exact online_throw
  | succ fuel ih =>
    intro done bs ext
    have hround : ∀ bs : Bits, (Reader.untilConsumed r limit (fuel + 1) done).run bs =
        (r >>= fun val => get >>= fun after =>
          if done + (bs.length - after.length) = limit then pure [val]
          else Reader.untilConsumed r limit fuel (done + (bs.length - after.length)) >>=
            fun vals => pure (val :: vals)).run bs := fun _ => rfl
    rw [hround, hround]
    refine (hr bs ext).bind fun val mid _ => ?_
    have hdone : (bs ++ ext).length - (mid ++ ext).length = bs.length - mid.length := by
      rw [List.length_append, List.length_append]
      omega
    show Stands (StateT.run (if done + (bs.length - mid.length) = limit then _ else _) mid)
      (StateT.run (if done + ((bs ++ ext).length - (mid ++ ext).length) = limit then _ else _)
        (mid ++ ext)) ext
    rw [hdone]
    split
    · exact online_pure mid ext
    · exact (ih.bind fun _ => online_pure) mid ext

end Reader

namespace Codec

variable {α β ι : Type} {R : Bits → Prop}

/-- The reader of the format is on line. -/
def Online (c : Codec R α) : Prop := c.read.Online

theorem online_uint {w : Nat} : (uint : Field (BitVec w)).Online :=
  Reader.online_take.bind fun _ => Reader.online_pure

theorem online_bits [Deku] {n w : Nat} (hn : n.ble w = true) : (bits n w hn).Online :=
  Reader.online_take.bind fun _ => Reader.online_pure

theorem online_const {a : α} : (const a).Online := Reader.online_pure

theorem online_reject {e : DekuError} : (reject e : Field α).Online := Reader.online_throw

theorem Online.map {c : Codec R α} {f : α → β} {g : β → α} {hgf : ∀ a, g (f a) = a}
    (hc : c.Online) : (c.map f g hgf).Online := Reader.Online.bind hc fun _ => Reader.online_pure

theorem Online.iso {c : Codec R α} {f : α → β} {g : β → α} {hgf : ∀ a, g (f a) = a}
    {hfg : ∀ b, f (g b) = b} (hc : c.Online) : (c.iso f g hgf hfg).Online :=
  Reader.Online.bind hc fun _ => Reader.online_pure

theorem Online.seq {c : Field α} {d : α → Codec R β} (hc : c.Online) (hd : ∀ a, (d a).Online) :
    (c.seq d).Online :=
  Reader.Online.bind hc fun a => Reader.Online.bind (hd a) fun _ => Reader.online_pure

theorem Online.enum {idc : Field ι} {variant : ι → Field α} {tag : α → ι}
    {body : α → Except DekuError Bits}
    {h : ∀ i a, (variant i).Valid a → tag a = i ∧ (variant i).write a = body a}
    (hid : idc.Online) (hvariant : ∀ i, (variant i).Online) :
    (enum idc variant tag body h).Online := Reader.Online.bind hid hvariant

theorem Online.array {c : Field α} (hc : c.Online) : ∀ n : Nat, (c.array n).Online
  | 0 => online_const.iso
  | n + 1 => (hc.seq fun _ => Online.array hc n).iso

theorem Online.count {n : Except DekuError Nat} {c : Field α} (hc : c.Online) :
    (c.count n).Online := Reader.online_lift.bind fun n => Reader.Online.replicate hc n

/-- The loop is given more rounds when there is more input, but it does not miss those it has not
    got. -/
theorem Online.bytesRead {n : Except DekuError Nat} {c : Field α} {hne : c.Nonempty}
    (hc : c.Online) : (c.bytesRead n hne).Online := by
  refine Reader.online_lift.bind fun n => ?_
  intro bs ext
  split
  · exact Reader.online_pure bs ext
  · show Reader.Stands ((Reader.untilConsumed c.read (8 * n) (bs.length + 1) 0).run bs)
      ((Reader.untilConsumed c.read (8 * n) ((bs ++ ext).length + 1) 0).run (bs ++ ext)) ext
    have hfuel : bs.length < (bs ++ ext).length + 1 := by
      rw [List.length_append]
      omega
    rw [untilConsumed_congr hne.takes (Nat.lt_succ_self bs.length) hfuel]
    exact Reader.Online.untilConsumed hc bs ext

/-- A field of fixed size followed by more is short while it is, or the rest is. -/
theorem seq_short_of_lt {c : Field α} {d : α → Codec R β} {k m : Nat} (hc : c.Total k)
    (hshort : ∀ bs : Bits, bs.length < k → c.read.Short bs)
    (hd : ∀ (a : α) (bs : Bits), bs.length < m → (d a).read.Short bs) :
    ∀ bs : Bits, bs.length < k + m → (c.seq d).read.Short bs := by
  intro bs h
  by_cases hk : bs.length < k
  · exact Reader.bind_short_iff.mpr (.inl (hshort bs hk))
  · obtain ⟨a, ha⟩ := hc bs (Nat.le_of_not_lt hk)
    refine (seq_short_iff ha).mpr (hd a _ ?_)
    rw [List.length_drop]
    omega

/-- An integer is short when there are fewer bits. -/
theorem uint_short_of_lt {w : Nat} {bs : Bits} (h : bs.length < w) :
    (uint : Field (BitVec w)).read.Short bs :=
  Reader.short_map_iff.mpr (Reader.take_short_iff.mpr h)

end Codec

namespace NamedCodes

variable {w : Nat} {α : Type} {self : NamedCodes w α}

theorem online_codec : self.codec.Online := Codec.online_uint.map

/-- A code is short when there are fewer bits. -/
theorem short_of_lt {bs : Bits} (h : bs.length < w) : self.codec.read.Short bs :=
  Reader.short_map_iff.mpr (Codec.uint_short_of_lt h)

end NamedCodes

end Nata
