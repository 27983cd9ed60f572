/-
  Codecs on input that is cut short.

  The law of a codec settles which inputs its reader ACCEPTS.  Which error it returns on the others is
  not settled by the law; this file answers as far as the LENGTH of the input decides it.

  * `Reader.Short`  — the reader runs out of input, and asks for more.
  * `Codec.Cuts`    — all that is left of the encoding of a representable value, when something is
                      missing at its end, is short.  No reader of the combinators looks further ahead
                      than it must, so every codec they build has the property; each lemma is the
                      step for one combinator.
  * `Codec.Total k` — any `k` bits are accepted, so the reader can only be short on fewer.
  * `Reader.Leads`  — a reader whose first fields are read goes on as the reader of the other fields:
                      its outcome is theirs, BE IT A VALUE OR AN ERROR.

  The loop of `bytesRead` is the one place where being short is not a matter of the input's length
  alone: the loop runs on until it meets its limit exactly, and so it is short on every input that it
  reads to the end without meeting it (`untilConsumed_short_iff`).
-/
import Nata.Lib.Deku

namespace Nata

/-- A string cut in two places: the earlier cut lies in the first part, or at its end or behind. -/
theorem append_cut {τ : Type} {p s v w : List τ} (h : p ++ s = v ++ w) :
    (∃ t, t ≠ [] ∧ v = p ++ t) ∨ ∃ q, p = v ++ q ∧ w = q ++ s := by
  rcases List.append_eq_append_iff.mp h with ⟨t, rfl, rfl⟩ | ⟨q, rfl, rfl⟩
  · by_cases ht : t = []
    · subst ht
      exact .inr ⟨[], by rw [List.append_nil, List.append_nil], rfl⟩
    · exact .inl ⟨t, ht, rfl⟩
  · exact .inr ⟨q, rfl, rfl⟩

/-! ## Readers that run out of input -/

namespace Reader

variable {α β γ : Type}

/-- The reader runs out of input: it asks for more bits. -/
def Short (r : Reader α) (bs : Bits) : Prop :=
  ∃ need, r.run bs = .error (.incomplete need)

/-- What is accepted is not short. -/
theorem Short.not_ok {r : Reader α} {bs : Bits} {p : α × Bits} (h : r.Short bs) :
    r.run bs ≠ .ok p := by
  obtain ⟨need, h⟩ := h
  rw [h]
  intro hp
  cases hp

/-- One reader after the other runs out of input in the first or in the second. -/
theorem bind_short_iff {r : Reader α} {f : α → Reader β} {bs : Bits} :
    (r >>= f).Short bs ↔ r.Short bs ∨ ∃ a mid, r.run bs = .ok (a, mid) ∧ (f a).Short mid := by
  unfold Short
  rw [StateT.run_bind]
  cases r.run bs with
  | error e => simp [bind, Except.bind]
  | ok p =>
    obtain ⟨a, mid⟩ := p
    simp [bind, Except.bind]

/-- What reads nothing is never short. -/
theorem not_short_pure {a : α} {bs : Bits} : ¬(pure a : Reader α).Short bs :=
  fun h => h.not_ok (p := (a, bs)) rfl

/-- Looking at the input is never short. -/
theorem not_short_get {bs : Bits} : ¬(get : Reader Bits).Short bs :=
  fun h => h.not_ok (p := (bs, bs)) rfl

theorem not_short_lift {a : α} {bs : Bits} :
    ¬(liftM (.ok a : Except DekuError α) : Reader α).Short bs :=
  fun h => h.not_ok (p := (a, bs)) rfl

/-- `n` bits are short on fewer. -/
theorem take_short_iff {n : Nat} {bs : Bits} : (take n).Short bs ↔ bs.length < n := by
  constructor
  · rintro ⟨need, h⟩
    by_contra hn
    rw [show (take n).run bs = .ok (bs.take n, bs.drop n) from if_neg hn] at h
    cases h
  · intro hn
    exact ⟨n, if_pos hn⟩

/-- A reader followed by a computation on its value is short where it is. -/
theorem short_map_iff {r : Reader α} {f : α → β} {bs : Bits} :
    (r >>= fun a => pure (f a)).Short bs ↔ r.Short bs := by
  rw [bind_short_iff]
  constructor
  · rintro (h | ⟨a, mid, -, h⟩)
    · exact h
    · exact absurd h not_short_pure
  · exact .inl

/-! ### Readers whose first fields are read -/

/-- The outcome of `r` on `bs`, a value or an error, is that of `r'` on `bs'`, once `g` has taken from
    the value what the first fields are not responsible for. -/
def Leads (r : Reader α) (bs : Bits) (r' : Reader β) (bs' : Bits) (g : α → β) : Prop :=
  (r.run bs).map (fun p => (g p.1, p.2)) = r'.run bs'

/-- A reader leads to itself. -/
theorem Leads.refl (r : Reader α) (bs : Bits) : r.Leads bs r bs id := by
  unfold Leads
  cases r.run bs <;> rfl

variable {r : Reader α} {bs : Bits} {r' : Reader β} {bs' : Bits}

/-- What one leads to has its errors. -/
theorem Leads.error_iff {g : α → β} (h : r.Leads bs r' bs' g) {e : DekuError} :
    r.run bs = .error e ↔ r'.run bs' = .error e := by
  rw [Leads] at h
  rw [← h]
  cases r.run bs <;> simp [Except.map]

theorem Leads.ok_iff {g : α → β} (h : r.Leads bs r' bs' g) {b : β} {rest : Bits} :
    r'.run bs' = .ok (b, rest) ↔ ∃ a, r.run bs = .ok (a, rest) ∧ g a = b := by
  rw [Leads] at h
  rw [← h]
  cases r.run bs with
  | error e => simp [Except.map]
  | ok p =>
    obtain ⟨a, rest'⟩ := p
    simp only [Except.map, Except.ok.injEq, Prod.mk.injEq]
    constructor
    · rintro ⟨rfl, rfl⟩
      exact ⟨a, ⟨rfl, rfl⟩, rfl⟩
    · rintro ⟨_, ⟨rfl, rfl⟩, rfl⟩
      exact ⟨rfl, rfl⟩

theorem Leads.short_iff {g : α → β} (h : r.Leads bs r' bs' g) : r.Short bs ↔ r'.Short bs' := by
  simp only [Short, h.error_iff]

/-- A reader followed by a computation on its value. -/
theorem Leads.map {f : α → γ} {g : γ → β} (h : r.Leads bs r' bs' fun a => g (f a)) :
    (r >>= fun a => pure (f a)).Leads bs r' bs' g := by
  unfold Leads at h ⊢
  rw [StateT.run_bind, ← h]
  cases r.run bs <;> rfl

end Reader

namespace Codec

variable {α β ι : Type} {R : Bits → Prop}

open Reader (Short Leads)

/-- A field that is read is followed by the fields behind it. -/
theorem leads_seq {c : Field α} {d : α → Codec R β} {a : α} {bs mid bs' : Bits}
    {r' : Reader ι} {g : α × β → ι} (hc : c.read.run bs = .ok (a, mid))
    (hd : (d a).read.Leads mid r' bs' fun b => g (a, b)) : (c.seq d).read.Leads bs r' bs' g := by
  have hrun : (c.seq d).read.run bs = ((d a).read >>= fun b => pure (a, b)).run mid := by
    show (c.read >>= fun a => (d a).read >>= fun b => pure (a, b)).run bs = _
    rw [StateT.run_bind, hc]
    rfl
  rw [Leads, hrun]
  exact hd.map

/-- A record leads where its parts lead. -/
theorem leads_iso {c : Codec R α} {f : α → β} {g : β → α} {hgf : ∀ a, g (f a) = a}
    {hfg : ∀ b, f (g b) = b} {bs bs' : Bits} {r' : Reader ι} {k : β → ι}
    (hc : c.read.Leads bs r' bs' fun a => k (f a)) :
    (c.iso f g hgf hfg).read.Leads bs r' bs' k :=
  hc.map

/-- Behind a field that is read, being short is a matter of the fields behind it. -/
theorem seq_short_iff {c : Field α} {d : α → Codec R β} {a : α} {bs mid : Bits}
    (hc : c.read.run bs = .ok (a, mid)) : (c.seq d).read.Short bs ↔ (d a).read.Short mid :=
  (leads_seq (g := Prod.snd) hc (.refl _ _)).short_iff

/-- Behind an identifier that is read, it is a matter of the variant. -/
theorem enum_short_iff {idc : Field ι} {variant : ι → Field α} {tag : α → ι}
    {body : α → Except DekuError Bits}
    {h : ∀ i a, (variant i).Valid a → tag a = i ∧ (variant i).write a = body a} {i : ι}
    {bs mid : Bits} (hid : idc.read.run bs = .ok (i, mid)) :
    (enum idc variant tag body h).read.Short bs ↔ (variant i).read.Short mid := by
  show (idc.read >>= fun i => (variant i).read).Short bs ↔ _
  rw [Reader.bind_short_iff]
  constructor
  · rintro (hshort | ⟨j, mid', hj, hshort⟩)
    · exact absurd hid hshort.not_ok
    · obtain ⟨rfl, rfl⟩ := Prod.mk.inj (Except.ok.inj (hid.symm.trans hj))
      exact hshort
  · intro hshort
    exact .inr ⟨i, mid, hid, hshort⟩

/-- A count that is refused is refused before anything is read. -/
theorem not_short_count {c : Field α} {msg : String} {bs : Bits} :
    ¬(c.count (.error (.parse msg))).read.Short bs := by
  rintro ⟨need, h⟩
  cases h

/-! ## Formats that accept everything long enough -/

/-- Any `k` bits are accepted. -/
def Total (k : Nat) (c : Codec R α) : Prop :=
  ∀ bs : Bits, k ≤ bs.length → ∃ a, c.read.run bs = .ok (a, bs.drop k)

/-- A total reader is short only if there are too few bits. -/
theorem Total.lt_of_short {k : Nat} {c : Codec R α} (hc : c.Total k) {bs : Bits}
    (h : c.read.Short bs) : bs.length < k := by
  by_contra hk
  obtain ⟨a, ha⟩ := hc bs (Nat.le_of_not_lt hk)
  exact h.not_ok ha

/-- The integer that a field of `n` bits holds. -/
theorem read_bits [Deku] {n w : Nat} (hn : n.ble w = true) {bs : Bits} (h : n ≤ bs.length) :
    ∃ v : BitVec w, (bits n w hn).read.run bs = .ok (v, bs.drop n) ∧
      v.toNat = bitsNat (bs.take n) := by
  have hlen : (bs.take n).length = n := by rw [List.length_take]; omega
  have hlt : bitsNat (bs.take n) < 2 ^ n := by
    have := bitsNat_lt (bs.take n)
    rwa [hlen] at this
  have hval : (BitVec.ofNat w (bitsNat (bs.take n))).toNat = bitsNat (bs.take n) := by
    rw [BitVec.toNat_ofNat]
    exact Nat.mod_eq_of_lt (Nat.lt_of_lt_of_le hlt (Nat.pow_le_pow_right (by decide) (Nat.le_of_ble_eq_true hn)))
  refine ⟨BitVec.ofNat w (bitsNat (bs.take n)), (read_eq_ok _).mpr ⟨?_, bs.take n, ?_, ?_⟩, hval⟩
  · show _ < 2 ^ n
    rwa [hval]
  · rw [write_bits, writeBits_of_lt (by rwa [hval]), hval, natBits_bitsNat_of_length hlen]
  · exact (List.take_append_drop n bs).symm

/-- A number that fits the field is read from its bits. -/
theorem read_natBits [Deku] {n w v : Nat} (hn : n.ble w = true) (hv : v < 2 ^ n) (rest : Bits) :
    (bits n w hn).read.run (natBits n v ++ rest) = .ok (BitVec.ofNat w v, rest) := by
  have hval : (BitVec.ofNat w v).toNat = v := by
    rw [BitVec.toNat_ofNat]
    exact Nat.mod_eq_of_lt (Nat.lt_of_lt_of_le hv (Nat.pow_le_pow_right (by decide) (Nat.le_of_ble_eq_true hn)))
  refine (read_eq_ok _).mpr ⟨?_, natBits n v, ?_, rfl⟩
  · show _ < 2 ^ n
    rwa [hval]
  · rw [write_bits, writeBits_of_lt (by rwa [hval]), hval]

/-- Any bits are a field. -/
theorem total_bits [Deku] {n w : Nat} (hn : n.ble w = true) : (bits n w hn).Total n := by
  intro bs h
  obtain ⟨v, hv, -⟩ := read_bits hn h
  exact ⟨v, hv⟩

/-- Any bits are an integer. -/
theorem total_uint {w : Nat} : (uint : Field (BitVec w)).Total w := by
  intro bs h
  have hlen : (bs.take w).length = w := by rw [List.length_take]; omega
  have hlt : bitsNat (bs.take w) < 2 ^ w := by
    have := bitsNat_lt (bs.take w)
    rwa [hlen] at this
  refine ⟨BitVec.ofNat w (bitsNat (bs.take w)), (read_eq_ok _).mpr ⟨trivial, bs.take w, ?_, ?_⟩⟩
  · rw [write_uint, BitVec.toNat_ofNat, Nat.mod_eq_of_lt hlt, natBits_bitsNat_of_length hlen]
  · exact (List.take_append_drop w bs).symm

theorem Total.map {k : Nat} {c : Codec R α} {f : α → β} {g : β → α} {hgf : ∀ a, g (f a) = a}
    (hc : c.Total k) : (c.map f g hgf).Total k := by
  intro bs h
  obtain ⟨a, ha⟩ := hc bs h
  exact ⟨f a, Reader.bind_eq_ok.mpr ⟨a, _, ha, rfl⟩⟩

theorem Total.iso {k : Nat} {c : Codec R α} {f : α → β} {g : β → α} {hgf : ∀ a, g (f a) = a}
    {hfg : ∀ b, f (g b) = b} (hc : c.Total k) : (c.iso f g hgf hfg).Total k := by
  intro bs h
  obtain ⟨a, ha⟩ := hc bs h
  exact ⟨f a, Reader.bind_eq_ok.mpr ⟨a, _, ha, rfl⟩⟩

theorem Total.seq {k m : Nat} {c : Field α} {d : α → Codec R β} (hc : c.Total k)
    (hd : ∀ a, (d a).Total m) : (c.seq d).Total (k + m) := by
  intro bs h
  obtain ⟨a, ha⟩ := hc bs (by omega)
  obtain ⟨b, hb⟩ := hd a (bs.drop k) (by rw [List.length_drop]; omega)
  rw [List.drop_drop] at hb
  refine ⟨(a, b), Reader.bind_eq_ok.mpr ⟨a, _, ha, ?_⟩⟩
  exact Reader.bind_eq_ok.mpr ⟨b, _, hb, rfl⟩

theorem total_const {a : α} : (const a).Total 0 := fun _ _ => ⟨a, rfl⟩

theorem Total.array {k : Nat} {c : Field α} (hc : c.Total k) :
    ∀ n : Nat, (c.array n).Total (k * n)
  | 0 => total_const.iso
  | n + 1 => by
    have h : (c.array (n + 1)).Total (k + k * n) := (hc.seq fun _ => Total.array hc n).iso
    rwa [Nat.add_comm k, ← Nat.mul_succ] at h

theorem Total.count {k : Nat} {c : Field α} (hc : c.Total k) :
    ∀ n : Nat, (c.count (.ok n)).Total (k * n) := by
  have hrep : ∀ (n : Nat) (bs : Bits), k * n ≤ bs.length →
      ∃ xs, (Reader.replicate c.read n).run bs = .ok (xs, bs.drop (k * n)) := by
    intro n
    induction n with
    | zero =>
      intro bs _
      exact ⟨[], rfl⟩
    | succ n ih =>
      intro bs h
      rw [Nat.mul_succ] at h
      obtain ⟨x, hx⟩ := hc bs (by omega)
      obtain ⟨xs, hxs⟩ := ih (bs.drop k) (by rw [List.length_drop]; omega)
      rw [List.drop_drop, show k + k * n = k * (n + 1) by rw [Nat.mul_succ, Nat.add_comm]] at hxs
      refine ⟨x :: xs, Reader.bind_eq_ok.mpr ⟨x, _, hx, ?_⟩⟩
      exact Reader.bind_eq_ok.mpr ⟨xs, _, hxs, rfl⟩
  exact fun n bs h => hrep n bs h

/-! ## Encodings that are cut short -/

/-- The encoding of a representable value of which something is missing at the end is short. -/
def Cuts (c : Codec R α) : Prop :=
  ∀ a p s, c.Valid a → c.write a = .ok (p ++ s) → s ≠ [] → c.read.Short p

/-- An integer is incomplete until its last bit. -/
theorem cuts_uint {w : Nat} : (uint : Field (BitVec w)).Cuts := by
  intro v p s _ hu hs
  have hlen := sized_uint _ _ hu
  have hpos := List.length_pos_iff.mpr hs
  rw [List.length_append] at hlen
  exact Reader.short_map_iff.mpr (Reader.take_short_iff.mpr (by omega))

theorem cuts_bits [Deku] {n w : Nat} (hn : n.ble w = true) : (bits n w hn).Cuts := by
  intro v p s _ hu hs
  have hlen := sized_bits hn _ _ hu
  have hpos := List.length_pos_iff.mpr hs
  rw [List.length_append] at hlen
  exact Reader.short_map_iff.mpr (Reader.take_short_iff.mpr (by omega))

/-- There is nothing to cut. -/
theorem cuts_const {a : α} : (const a).Cuts := by
  intro b p s _ hu hs
  have hnil : p ++ s = [] := (Except.ok.inj hu).symm
  exact absurd (List.append_eq_nil_iff.mp hnil).2 hs

/-- What is never accepted is never cut. -/
theorem cuts_reject {e : DekuError} : (reject e : Field α).Cuts := fun _ _ _ h => h.elim

theorem Cuts.map {c : Codec R α} {f : α → β} {g : β → α} {hgf : ∀ a, g (f a) = a}
    (hc : c.Cuts) : (c.map f g hgf).Cuts :=
  fun b p s hb hu hs => Reader.short_map_iff.mpr (hc (g b) p s hb.1 hu hs)

theorem Cuts.iso {c : Codec R α} {f : α → β} {g : β → α} {hgf : ∀ a, g (f a) = a}
    {hfg : ∀ b, f (g b) = b} (hc : c.Cuts) : (c.iso f g hgf hfg).Cuts :=
  fun b p s hb hu hs => Reader.short_map_iff.mpr (hc (g b) p s hb hu hs)

/-- A cut lies in the first field, or the first field is read and it lies in the second. -/
theorem bind_short_of_cut {c : Field α} {f : α → Reader β} {a : α} {p s v w : Bits}
    (hc : c.Cuts) (ha : c.Valid a) (hv : c.write a = .ok v) (hp : p ++ s = v ++ w)
    (hf : ∀ q, w = q ++ s → (f a).Short q) : (c.read >>= f).Short p := by
  rw [Reader.bind_short_iff]
  rcases append_cut hp with ⟨t, ht, rfl⟩ | ⟨q, rfl, hw⟩
  · exact .inl (hc a p t ha hv ht)
  · exact .inr ⟨a, q, c.read_eq_ok.mpr ⟨ha, v, hv, rfl⟩, hf q hw⟩

theorem Cuts.seq {c : Field α} {d : α → Codec R β} (hc : c.Cuts) (hd : ∀ a, (d a).Cuts) :
    (c.seq d).Cuts := by
  intro x p s hx hu hs
  obtain ⟨v, w, hv, hw, hp⟩ := writeAll_pair_eq_ok.mp hu
  refine bind_short_of_cut hc hx.1 hv hp fun q hq => ?_
  subst hq
  exact Reader.short_map_iff.mpr (hd x.1 x.2 q s hx.2 hw hs)

theorem Cuts.enum {idc : Field ι} {variant : ι → Field α} {tag : α → ι}
    {body : α → Except DekuError Bits}
    {h : ∀ i a, (variant i).Valid a → tag a = i ∧ (variant i).write a = body a}
    (hid : idc.Cuts) (hvariant : ∀ i, (variant i).Cuts) :
    (enum idc variant tag body h).Cuts := by
  intro a p s ha hu hs
  obtain ⟨v, w, hv, hw, hp⟩ := writeAll_pair_eq_ok.mp hu
  refine bind_short_of_cut hid ha.1 hv hp fun q hq => ?_
  subst hq
  exact hvariant (tag a) a q s ha.2 ((h _ a ha.2).2.trans hw) hs

theorem Cuts.array {c : Field α} (hc : c.Cuts) : ∀ n : Nat, (c.array n).Cuts
  | 0 => cuts_const.iso
  | n + 1 => (hc.seq fun _ => Cuts.array hc n).iso

/-- A `Vec` that is cut short is cut short in one of its elements; those before it are whole. -/
theorem exists_of_writeVec_cut {c : Field α} (hc : c.Cuts) :
    ∀ {xs : List α} {p s : Bits}, (∀ x ∈ xs, c.Valid x) → c.writeVec xs = .ok (p ++ s) → s ≠ [] →
      ∃ front u tail, front <+: xs ∧ c.writeVec front = .ok u ∧ p = u ++ tail ∧
        c.read.Short tail := by
  intro xs
  induction xs with
  | nil =>
    intro p s _ hu hs
    have hnil : p ++ s = [] := (Except.ok.inj hu).symm
    exact absurd (List.append_eq_nil_iff.mp hnil).2 hs
  | cons x xs ih =>
    intro p s hval hu hs
    obtain ⟨hx, hxs⟩ := List.forall_mem_cons.mp hval
    obtain ⟨v, w, hv, hw, hp⟩ := writeVec_cons_eq_ok.mp hu
    rcases append_cut hp with ⟨t, ht, rfl⟩ | ⟨q, rfl, rfl⟩
    · exact ⟨[], [], p, List.nil_prefix, rfl, rfl, hc x p t hx hv ht⟩
    · obtain ⟨front, u, tail, hfront, hu', rfl, hshort⟩ := ih hxs hw hs
      refine ⟨x :: front, v ++ u, tail, List.cons_prefix_cons.mpr ⟨rfl, hfront⟩, ?_,
        (List.append_assoc ..).symm, hshort⟩
      exact writeVec_cons_eq_ok.mpr ⟨v, u, hv, hu', rfl⟩

theorem Cuts.count {n : Except DekuError Nat} {c : Field α} (hc : c.Cuts) : (c.count n).Cuts := by
  have hrep : ∀ {xs : List α} {p s : Bits}, (∀ x ∈ xs, c.Valid x) →
      c.writeVec xs = .ok (p ++ s) → s ≠ [] → (Reader.replicate c.read xs.length).Short p := by
    intro xs
    induction xs with
    | nil =>
      intro p s _ hu hs
      have hnil : p ++ s = [] := (Except.ok.inj hu).symm
      exact absurd (List.append_eq_nil_iff.mp hnil).2 hs
    | cons x xs ih =>
      intro p s hval hu hs
      obtain ⟨hx, hxs⟩ := List.forall_mem_cons.mp hval
      obtain ⟨v, w, hv, hw, hp⟩ := writeVec_cons_eq_ok.mp hu
      refine bind_short_of_cut hc hx hv hp fun q hq => ?_
      subst hq
      exact Reader.short_map_iff.mpr (ih hxs hw hs)
  intro xs p s hxs hu hs
  exact Reader.bind_short_iff.mpr
    (.inr ⟨xs.length, p, Reader.lift_eq_ok.mpr ⟨hxs.1, rfl⟩, hrep hxs.2 hu hs⟩)

/-- No element can be read: the loop fails as this read does. -/
theorem untilConsumed_short_of_error {r : Reader α} {limit fuel done : Nat} {bs : Bits}
    {e : DekuError} (hr : r.run bs = .error e) :
    (Reader.untilConsumed r limit (fuel + 1) done).Short bs ↔ r.Short bs := by
  simp only [Reader.untilConsumed, Reader.bind_short_iff, Reader.get_eq_ok]
  constructor
  · rintro (h | ⟨_, _, ⟨rfl, rfl⟩, h | ⟨x, mid, hx, -⟩⟩)
    · exact absurd h Reader.not_short_get
    · exact h
    · rw [hr] at hx
      cases hx
  · intro h
    exact .inr ⟨bs, bs, ⟨rfl, rfl⟩, .inl h⟩

/-- An element of the bits `v` is read: the loop stops if it ends at the limit, and else goes on
    behind it. -/
theorem untilConsumed_short_of_ok {r : Reader α} {limit fuel done : Nat} {v mid : Bits} {x : α}
    (hr : r.run (v ++ mid) = .ok (x, mid)) :
    (Reader.untilConsumed r limit (fuel + 1) done).Short (v ++ mid) ↔
      done + v.length ≠ limit ∧
        (Reader.untilConsumed r limit fuel (done + v.length)).Short mid := by
  have hshort : ¬r.Short (v ++ mid) := fun h => h.not_ok hr
  have hdone : (v ++ mid).length - mid.length = v.length := by
    rw [List.length_append]
    omega
  simp only [Reader.untilConsumed, Reader.bind_short_iff, Reader.get_eq_ok]
  constructor
  · rintro (h | ⟨_, _, ⟨rfl, rfl⟩, h | ⟨x', mid', hx', h | ⟨_, _, ⟨rfl, rfl⟩, h⟩⟩⟩)
    · exact absurd h Reader.not_short_get
    · exact absurd h hshort
    · exact absurd h Reader.not_short_get
    · obtain ⟨rfl, rfl⟩ := Prod.mk.inj (Except.ok.inj (hr.symm.trans hx'))
      rw [hdone] at h
      by_cases hlim : done + v.length = limit
      · rw [if_pos hlim] at h
        exact absurd h Reader.not_short_pure
      · rw [if_neg hlim] at h
        exact ⟨hlim, Reader.short_map_iff.mp h⟩
  · rintro ⟨hlim, h⟩
    refine .inr ⟨_, _, ⟨rfl, rfl⟩, .inr ⟨x, mid, hr, .inr ⟨_, _, ⟨rfl, rfl⟩, ?_⟩⟩⟩
    rw [hdone, if_neg hlim]
    exact Reader.short_map_iff.mpr h

/-- The loop reads the elements `xs`, none of which ends at the limit, and then runs out of input. -/
def RunsOut (c : Field α) (limit done : Nat) (bs : Bits) (xs : List α) : Prop :=
  (∀ x ∈ xs, c.Valid x) ∧ ∃ u tail, c.writeVec xs = .ok u ∧ bs = u ++ tail ∧ c.read.Short tail ∧
    ∀ front v, front <+: xs → front ≠ [] → c.writeVec front = .ok v → done + v.length ≠ limit

/-- Without elements so far: the first one is short. -/
theorem runsOut_nil {c : Field α} {limit done : Nat} {bs : Bits} :
    c.RunsOut limit done bs [] ↔ c.read.Short bs := by
  constructor
  · rintro ⟨-, u, tail, hu, rfl, hshort, -⟩
    cases hu
    exact hshort
  · intro h
    refine ⟨fun x hx => absurd hx List.not_mem_nil, [], bs, rfl, rfl, h, ?_⟩
    intro front v hfront hne
    exact absurd (List.prefix_nil.mp hfront) hne

/-- The first element is the one that is read, does not end at the limit, and is followed by the
    others. -/
theorem runsOut_cons {c : Field α} {limit done : Nat} {bs : Bits} {x : α} {xs : List α} :
    c.RunsOut limit done bs (x :: xs) ↔
      ∃ v mid, c.Valid x ∧ c.write x = .ok v ∧ bs = v ++ mid ∧ done + v.length ≠ limit ∧
        c.RunsOut limit (done + v.length) mid xs := by
  constructor
  · rintro ⟨hval, u, tail, hu, rfl, hshort, hfronts⟩
    obtain ⟨hx, hxs⟩ := List.forall_mem_cons.mp hval
    obtain ⟨v, w, hv, hw, rfl⟩ := writeVec_cons_eq_ok.mp hu
    refine ⟨v, w ++ tail, hx, hv, List.append_assoc .., ?_, hxs, w, tail, hw, rfl, hshort, ?_⟩
    · refine hfronts [x] v (List.cons_prefix_cons.mpr ⟨rfl, List.nil_prefix⟩)
        (List.cons_ne_nil _ _) ?_
      exact writeVec_cons_eq_ok.mpr ⟨v, [], hv, rfl, (List.append_nil v).symm⟩
    · intro front v' hfront _ hv'
      rw [Nat.add_assoc, ← List.length_append]
      exact hfronts (x :: front) (v ++ v') (List.cons_prefix_cons.mpr ⟨rfl, hfront⟩)
        (List.cons_ne_nil _ _) (writeVec_cons_eq_ok.mpr ⟨v, v', hv, hv', rfl⟩)
  · rintro ⟨v, _, hx, hv, rfl, hlim, hxs, w, tail, hw, rfl, hshort, hfronts⟩
    refine ⟨List.forall_mem_cons.mpr ⟨hx, hxs⟩, v ++ w, tail,
      writeVec_cons_eq_ok.mpr ⟨v, w, hv, hw, rfl⟩, (List.append_assoc ..).symm, hshort, ?_⟩
    intro front v' hfront hne hv'
    cases front with
    | nil => exact absurd rfl hne
    | cons y front =>
      obtain ⟨rfl, hfront'⟩ := List.cons_prefix_cons.mp hfront
      obtain ⟨v₁, w', hv₁, hw', rfl⟩ := writeVec_cons_eq_ok.mp hv'
      obtain rfl := Except.ok.inj (hv.symm.trans hv₁)
      rw [List.length_append, ← Nat.add_assoc]
      by_cases hnil : front = []
      · subst hnil
        cases hw'
        exact hlim
      · exact hfronts front w' hfront' hnil hw'

/-- **When the limited loop runs out of input**: it reads elements one after the other, none of which
    ends at the limit, until one is short. -/
theorem untilConsumed_short_iff {c : Field α} (hc : c.Nonempty) {limit : Nat} :
    ∀ {fuel done : Nat} {bs : Bits}, bs.length < fuel →
      ((Reader.untilConsumed c.read limit fuel done).Short bs ↔
        ∃ xs, c.RunsOut limit done bs xs) := by
  intro fuel
  induction fuel with
  | zero => intro done bs h; exact absurd h (Nat.not_lt_zero _)
  | succ fuel ih =>
    intro done bs hfuel
    cases hr : c.read.run bs with
    | error e =>
      rw [untilConsumed_short_of_error hr]
      constructor
      · intro h
        exact ⟨[], runsOut_nil.mpr h⟩
      · rintro ⟨xs, h⟩
        cases xs with
        | nil => exact runsOut_nil.mp h
        | cons x xs =>
          obtain ⟨v, mid, hx, hv, rfl, -, -⟩ := runsOut_cons.mp h
          rw [c.read_eq_ok.mpr ⟨hx, v, hv, rfl⟩] at hr
          cases hr
    | ok pair =>
      obtain ⟨x, mid⟩ := pair
      obtain ⟨hx, v, hv, rfl⟩ := c.read_eq_ok.mp hr
      have hpos := hc x v hx hv
      rw [List.length_append] at hfuel
      rw [untilConsumed_short_of_ok hr, ih (by omega)]
      constructor
      · rintro ⟨hlim, xs, h⟩
        exact ⟨x :: xs, runsOut_cons.mpr ⟨v, mid, hx, hv, rfl, hlim, h⟩⟩
      · rintro ⟨xs, h⟩
        cases xs with
        | nil => exact absurd hr (runsOut_nil.mp h).not_ok
        | cons y xs =>
          obtain ⟨v₁, mid₁, hy, hv₁, hbs, hlim, h⟩ := runsOut_cons.mp h
          -- The reader returns one value only: the first element is the one that was read.
          obtain ⟨rfl, rfl⟩ := Prod.mk.inj (Except.ok.inj
            (hr.symm.trans (c.read_eq_ok.mpr ⟨hy, v₁, hv₁, hbs⟩)))
          obtain rfl := Except.ok.inj (hv.symm.trans hv₁)
          exact ⟨hlim, xs, h⟩

/-- The limited `Vec` is short where its loop is; a limit of zero needs no input. -/
theorem bytesRead_short_iff {n : Nat} {c : Field α} {hc : c.Nonempty} {bs : Bits} :
    (c.bytesRead (.ok n) hc).read.Short bs ↔
      ∃ xs u tail, (∀ x ∈ xs, c.Valid x) ∧ c.writeVec xs = .ok u ∧ bs = u ++ tail ∧
        c.read.Short tail ∧
        ∀ front v, front <+: xs → c.writeVec front = .ok v → v.length ≠ 8 * n := by
  have hread : (c.bytesRead (.ok n) hc).read.Short bs ↔
      n ≠ 0 ∧ (Reader.untilConsumed c.read (8 * n) (bs.length + 1) 0).Short bs := by
    simp only [bytesRead, Reader.bind_short_iff, Reader.lift_eq_ok, Reader.not_short_lift, false_or]
    constructor
    · rintro ⟨_, _, ⟨hn, rfl⟩, h⟩
      cases hn
      by_cases hn : n = 0
      · rw [if_pos hn] at h
        exact absurd h Reader.not_short_pure
      · rw [if_neg hn, Reader.bind_short_iff] at h
        rcases h with h | ⟨_, _, hget, h⟩
        · exact absurd h Reader.not_short_get
        · obtain ⟨rfl, rfl⟩ := Reader.get_eq_ok.mp hget
          exact ⟨hn, h⟩
    · rintro ⟨hn, h⟩
      refine ⟨n, bs, ⟨rfl, rfl⟩, ?_⟩
      rw [if_neg hn, Reader.bind_short_iff]
      exact .inr ⟨bs, bs, rfl, h⟩
  rw [hread, untilConsumed_short_iff hc (Nat.lt_succ_self _)]
  constructor
  · rintro ⟨hn, xs, hval, u, tail, hu, hbs, hshort, hfronts⟩
    refine ⟨xs, u, tail, hval, hu, hbs, hshort, fun front v hfront hv => ?_⟩
    by_cases hnil : front = []
    · subst hnil
      cases hv
      rw [List.length_nil]
      omega
    · rw [← Nat.zero_add v.length]
      exact hfronts front v hfront hnil hv
  · rintro ⟨xs, u, tail, hval, hu, hbs, hshort, hfronts⟩
    refine ⟨?_, xs, hval, u, tail, hu, hbs, hshort, fun front v hfront _ hv => ?_⟩
    · rintro rfl
      exact hfronts [] [] List.nil_prefix rfl rfl
    · rw [Nat.zero_add]
      exact hfronts front v hfront hv

/-- Before all of a limited `Vec` is there, no element of it ends at the limit. -/
theorem Cuts.bytesRead {n : Except DekuError Nat} {c : Field α} {hne : c.Nonempty} (hc : c.Cuts) :
    (c.bytesRead n hne).Cuts := by
  intro xs p s hxs hu hs
  obtain ⟨hval, k, u, rfl, hu', hlen⟩ := hxs
  obtain rfl := Except.ok.inj (hu'.symm.trans hu)
  obtain ⟨front, u, tail, hfront, hu'', rfl, hshort⟩ := exists_of_writeVec_cut hc hval hu hs
  refine bytesRead_short_iff.mpr ⟨front, u, tail, fun x hx => hval x (hfront.subset hx), hu'', rfl,
    hshort, fun front' v hfront' hv => ?_⟩
  -- What is written of a part is no longer than what is written of the whole.
  obtain ⟨back, rfl⟩ := hfront'
  obtain ⟨v', w, hv', -, rfl⟩ := writeVec_append_eq_ok.mp hu''
  obtain rfl := Except.ok.inj (hv.symm.trans hv')
  have hpos := List.length_pos_iff.mpr hs
  simp only [List.length_append] at hlen
  omega

end Codec

/-! ## Codes -/

namespace NamedCodes

variable {w : Nat} {α : Type} {self : NamedCodes w α}

/-- Every code is accepted. -/
theorem total_codec : self.codec.Total w := Codec.total_uint.map

/-- A code is incomplete until all of its bits are there. -/
theorem cuts_codec : self.codec.Cuts := Codec.cuts_uint.map

end NamedCodes

end Nata
