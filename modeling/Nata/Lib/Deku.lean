/-
  Bit-level codecs in the manner of the deku derive macros.

  A Rust type that derives `DekuRead` and `DekuWrite` is described ONCE, by its fields in
  declaration order and the attributes on them, and the macro emits a reader and a writer from
  that description.  Here a description is a `Codec`: a reader of bits, a writer of bits, the
  values the format can represent (`Valid`; all of them are written), and the law tying the three
  together,

      `read bs = ok (a, rest)  ↔  Valid a ∧ bs = write a ++ rest`

  (`Codec.spec`).  Read from left to right the law says that decoding loses nothing, from right to
  left that encoding does not either; it is a field of the structure, so every codec built from
  the combinators below carries its own proof.  The combinators are the derive attributes:

  * `uint`, `bits n w` — an integer field, and one with `bits = n`;
  * `seq`, `iso`       — fields in declaration order (later attributes may use earlier fields), and
                         the struct they make up;
  * `map`, `NamedCodes` — a fieldless enum over its identifier, with a catch-all variant;
  * `enum`, `const`, `reject` — an enum with data, its unit variants, and an unknown identifier;
  * `array`              — an array;
  * `count`, `bytesRead`, `readAll` — the three ways a `Vec` ends.

  The writer may fail: a value wider than the field it is written to is not part of the format,
  and what becomes of it is left open by the class `Deku`.  Conversely the writer also accepts
  values that the reader never returns (a `Vec` that contradicts its `count`), and writes them
  field by field.
-/
import Mathlib.Data.List.Nodup
import Mathlib.Data.Vector.Basic
import Nata.Lib.Bits

namespace Nata

/-- What reading or writing can fail with. -/
inductive DekuError
  /-- The input ended; so many more bits were asked for. -/
  | incomplete (bits : Nat)
  | parse (msg : String)
  | invalidParam (msg : String)
  deriving DecidableEq, Repr

/-- What a format description does not settle. -/
class Deku where
  /-- The outcome of writing `v` to a field of `n` bits that it does not fit. -/
  wide : (n : Nat) → {w : Nat} → BitVec w → Except DekuError Bits
  /-- If anything is written, it fills the field. -/
  length_wide : ∀ {n w : Nat} {v : BitVec w} {u : Bits}, wide n v = .ok u → u.length = n
  /-- The text of an error. -/
  display : DekuError → String
  /-- The error of an enum that has no variant for an identifier. -/
  noVariant : (enum : String) → (id : Nat) → DekuError

/-- One way to settle it: a value that does not fit is cut down to its low bits. -/
@[reducible] def Deku.truncating : Deku where
  wide n _ v := .ok (natBits n v.toNat)
  length_wide h := by
    cases h
    exact length_natBits _ _
  display
    | .incomplete bits => s!"Not enough data, need {bits} bits"
    | .parse msg => s!"Parse error: {msg}"
    | .invalidParam msg => s!"Invalid param error: {msg}"
  noVariant enum id := .parse s!"Could not match enum variant id = {id} on enum {enum}"

/-! ## Readers -/

/-- A reader takes bits off the front of the input. -/
abbrev Reader := StateT Bits (Except DekuError)

namespace Reader

variable {α β : Type}

/-- Two readers succeed when the second one does on what the first one has left. -/
theorem bind_eq_ok {r : Reader α} {f : α → Reader β} {bs rest : Bits} {b : β} :
    (r >>= f).run bs = .ok (b, rest) ↔
      ∃ a mid, r.run bs = .ok (a, mid) ∧ (f a).run mid = .ok (b, rest) := by
  rw [StateT.run_bind]
  cases h : r.run bs with
  | error e => simp [bind, Except.bind]
  | ok p => obtain ⟨a, mid⟩ := p; simp [bind, Except.bind]

/-- Nothing is read. -/
theorem pure_eq_ok {a b : α} {bs rest : Bits} :
    (pure a : Reader α).run bs = .ok (b, rest) ↔ b = a ∧ rest = bs := by
  show Except.ok (a, bs) = _ ↔ _
  rw [Except.ok.injEq, Prod.mk.injEq, eq_comm, eq_comm (a := bs)]

/-- The input is looked at, and left. -/
theorem get_eq_ok {bs bs' rest : Bits} :
    (get : Reader Bits).run bs = .ok (bs', rest) ↔ bs' = bs ∧ rest = bs := by
  simp [pure, Except.pure, eq_comm]

/-- A result that does not depend on the input. -/
theorem lift_eq_ok {x : Except DekuError α} {bs rest : Bits} {a : α} :
    (liftM x : Reader α).run bs = .ok (a, rest) ↔ x = .ok a ∧ rest = bs := by
  cases x with
  | error e => simp [bind, Except.bind]
  | ok b => simp [bind, Except.bind, pure, Except.pure, eq_comm]

/-- The next `n` bits. -/
def take (n : Nat) : Reader Bits := fun bs =>
  if bs.length < n then .error (.incomplete n) else .ok (bs.take n, bs.drop n)

/-- The first `n` bits, if there are so many. -/
theorem take_eq_ok {n : Nat} {bs u rest : Bits} :
    (take n).run bs = .ok (u, rest) ↔ u.length = n ∧ bs = u ++ rest := by
  show (if bs.length < n then _ else _) = _ ↔ _
  split
  · rename_i h
    simp only [reduceCtorEq, false_iff, not_and]
    rintro hu rfl
    rw [List.length_append] at h
    omega
  · rename_i h
    rw [Except.ok.injEq, Prod.mk.injEq]
    constructor
    · rintro ⟨rfl, rfl⟩
      exact ⟨by rw [List.length_take]; omega, (List.take_append_drop n bs).symm⟩
    · rintro ⟨rfl, rfl⟩
      exact ⟨List.take_left, List.drop_left⟩

/-- Elements one after the other until exactly `limit` bits are consumed, `done` of them already;
    an element that oversteps the limit does not stop the loop.  Every element takes at least one
    bit, so that after as many rounds as there are bits left the next one finds no input. -/
def untilConsumed (r : Reader α) (limit : Nat) : Nat → Nat → Reader (List α)
  | 0, _ => throw (.incomplete 0)
  | fuel + 1, done => do
    let before ← get
    let val ← r
    let after ← get
    let done := done + (before.length - after.length)
    if done = limit then
      return [val]
    let vals ← untilConsumed r limit fuel done
    return val :: vals

/-- Exactly `n` elements. -/
def replicate (r : Reader α) : Nat → Reader (List α)
  | 0 => return []
  | n + 1 => do
    let val ← r
    let vals ← replicate r n
    return val :: vals

/-- Elements until the input is used up. -/
def toEnd (r : Reader α) : Nat → Reader (List α)
  | 0 => return []
  | fuel + 1 => do
    let bs ← get
    if bs.isEmpty then
      return []
    let val ← r
    let vals ← toEnd r fuel
    return val :: vals

end Reader

/-! ## Writers -/

/-- Write one thing after the other. -/
def writeAll : List (Except DekuError Bits) → Except DekuError Bits
  | [] => .ok []
  | x :: xs => do
    let u ← x
    let v ← writeAll xs
    return u ++ v

@[simp] theorem writeAll_nil : writeAll [] = .ok [] := rfl

/-- Parts are written one after the other. -/
theorem writeAll_cons_eq_ok {x : Except DekuError Bits} {xs : List (Except DekuError Bits)}
    {u : Bits} :
    writeAll (x :: xs) = .ok u ↔ ∃ v w, x = .ok v ∧ writeAll xs = .ok w ∧ u = v ++ w := by
  rw [writeAll]
  cases x with
  | error e => simp [bind, Except.bind]
  | ok v =>
    cases writeAll xs with
    | error e => simp [bind, Except.bind]
    | ok w => simp [bind, Except.bind, pure, Except.pure, eq_comm]

/-- Two series of parts. -/
theorem writeAll_append_eq_ok {xs ys : List (Except DekuError Bits)} {u : Bits} :
    writeAll (xs ++ ys) = .ok u ↔
      ∃ v w, writeAll xs = .ok v ∧ writeAll ys = .ok w ∧ u = v ++ w := by
  induction xs generalizing u with
  | nil => simp
  | cons x xs ih =>
    rw [List.cons_append, writeAll_cons_eq_ok]
    constructor
    · rintro ⟨a, b, hx, hb, rfl⟩
      obtain ⟨v, w, hv, hw, rfl⟩ := ih.mp hb
      exact ⟨a ++ v, w, writeAll_cons_eq_ok.mpr ⟨a, v, hx, hv, rfl⟩, hw,
        (List.append_assoc ..).symm⟩
    · rintro ⟨v, w, hv, hw, rfl⟩
      obtain ⟨a, b, hx, hb, rfl⟩ := writeAll_cons_eq_ok.mp hv
      exact ⟨a, b ++ w, hx, ih.mpr ⟨b, w, hb, hw, rfl⟩, List.append_assoc ..⟩

/-- Two parts. -/
theorem writeAll_pair_eq_ok {x y : Except DekuError Bits} {u : Bits} :
    writeAll [x, y] = .ok u ↔ ∃ v w, x = .ok v ∧ y = .ok w ∧ u = v ++ w := by
  rw [writeAll_cons_eq_ok]
  constructor
  · rintro ⟨v, w, hx, hw, rfl⟩
    obtain ⟨w', t, hy, ht, rfl⟩ := writeAll_cons_eq_ok.mp hw
    cases ht
    exact ⟨v, w', hx, hy, by rw [List.append_nil]⟩
  · rintro ⟨v, w, hx, hy, rfl⟩
    exact ⟨v, w, hx, writeAll_cons_eq_ok.mpr ⟨w, [], hy, rfl, (List.append_nil w).symm⟩, rfl⟩

/-! ## Codecs -/

/-- A format description.  `Rest` says in front of which remainders the reader may stop: any, for
    a format that knows its own end, and the empty one for a format that reads to the end. -/
structure Codec (Rest : Bits → Prop) (α : Type) where
  read : Reader α
  write : α → Except DekuError Bits
  /-- The values the format can represent. -/
  Valid : α → Prop
  write_ok : ∀ a, Valid a → ∃ u, write a = .ok u
  /-- Reading is the inverse of writing on the representable values, and accepts nothing else. -/
  spec : ∀ bs a rest, read.run bs = .ok (a, rest) ↔
    Valid a ∧ Rest rest ∧ ∃ u, write a = .ok u ∧ bs = u ++ rest

/-- A format that knows its own end, and so may be followed by anything. -/
abbrev Field := Codec fun _ => True

/-- A format that extends to the end of the input. -/
abbrev Last := Codec fun rest => rest = []

namespace Codec

variable {α β ι : Type} {R : Bits → Prop}

/-- **What is read is what is written**, of the values that can be read. -/
theorem read_eq_ok (c : Field α) {bs rest : Bits} {a : α} :
    c.read.run bs = .ok (a, rest) ↔ c.Valid a ∧ ∃ u, c.write a = .ok u ∧ bs = u ++ rest := by
  simpa using c.spec bs a rest

/-! ### Integers -/

/-- An integer of its full width, big-endian. -/
def uint {w : Nat} : Field (BitVec w) where
  read := do
    let u ← Reader.take w
    return BitVec.ofNat w (bitsNat u)
  write v := .ok (natBits w v.toNat)
  Valid _ := True
  write_ok v _ := ⟨natBits w v.toNat, rfl⟩
  spec bs v rest := by
    simp only [Reader.bind_eq_ok, Reader.take_eq_ok, Reader.pure_eq_ok, true_and]
    constructor
    · rintro ⟨u, mid, ⟨hlen, rfl⟩, rfl, rfl⟩
      have hlt : bitsNat u < 2 ^ w := hlen ▸ bitsNat_lt u
      rw [BitVec.toNat_ofNat, Nat.mod_eq_of_lt hlt, natBits_bitsNat_of_length hlen]
      exact ⟨u, rfl, rfl⟩
    · rintro ⟨u, hu, rfl⟩
      cases hu
      refine ⟨_, _, ⟨length_natBits _ _, rfl⟩, ?_, rfl⟩
      rw [bitsNat_natBits_of_lt v.isLt, BitVec.ofNat_toNat, BitVec.setWidth_eq]

@[simp] theorem write_uint {w : Nat} (v : BitVec w) : uint.write v = .ok (natBits w v.toNat) := rfl

/-- Write the integer `v` to a field of `n` bits. -/
def writeBits [Deku] (n : Nat) {w : Nat} (v : BitVec w) : Except DekuError Bits :=
  if v.toNat < 2 ^ n then .ok (natBits n v.toNat) else Deku.wide n v

/-- A field of `n` bits is written as `n` bits. -/
theorem length_writeBits [Deku] {n w : Nat} {v : BitVec w} {u : Bits}
    (h : writeBits n v = .ok u) : u.length = n := by
  unfold writeBits at h
  split at h
  · cases h; exact length_natBits _ _
  · exact Deku.length_wide h

/-- A value that fits its field is written as it is. -/
theorem writeBits_of_lt [Deku] {n w : Nat} {v : BitVec w} (h : v.toNat < 2 ^ n) :
    writeBits n v = .ok (natBits n v.toNat) := if_pos h

/-- An integer of `w` bits with `bits = n`, most significant bit first. -/
def bits [Deku] (n w : Nat) (hn : n.ble w = true := by exact Eq.refl true) : Field (BitVec w) where
  read := do
    let u ← Reader.take n
    return BitVec.ofNat w (bitsNat u)
  write := writeBits n
  Valid v := v.toNat < 2 ^ n
  write_ok v hv := ⟨natBits n v.toNat, writeBits_of_lt hv⟩
  spec bs v rest := by
    simp only [Reader.bind_eq_ok, Reader.take_eq_ok, Reader.pure_eq_ok, true_and]
    constructor
    · rintro ⟨u, mid, ⟨hlen, rfl⟩, rfl, rfl⟩
      have hlt : bitsNat u < 2 ^ n := hlen ▸ bitsNat_lt u
      have hval : (BitVec.ofNat w (bitsNat u)).toNat = bitsNat u := by
        rw [BitVec.toNat_ofNat]
        exact Nat.mod_eq_of_lt (Nat.lt_of_lt_of_le hlt
          (Nat.pow_le_pow_right (by decide) (Nat.le_of_ble_eq_true hn)))
      rw [hval]
      exact ⟨hlt, u, by rw [writeBits_of_lt (hval.symm ▸ hlt), hval,
        natBits_bitsNat_of_length hlen], rfl⟩
    · rintro ⟨hv, u, hu, rfl⟩
      rw [writeBits_of_lt hv] at hu
      cases hu
      refine ⟨_, _, ⟨length_natBits _ _, rfl⟩, ?_, rfl⟩
      rw [bitsNat_natBits_of_lt hv, BitVec.ofNat_toNat, BitVec.setWidth_eq]

@[simp] theorem write_bits [Deku] {n w : Nat} {hn : n.ble w = true} (v : BitVec w) :
    (bits n w hn).write v = writeBits n v := rfl

/-! ### Structs -/

/-- One field after the other; the second may depend on the value of the first. -/
def seq (c : Field α) (d : α → Codec R β) : Codec R (α × β) where
  read := do
    let a ← c.read
    let b ← (d a).read
    return (a, b)
  write p := writeAll [c.write p.1, (d p.1).write p.2]
  Valid p := c.Valid p.1 ∧ (d p.1).Valid p.2
  write_ok p hp := by
    obtain ⟨v, hv⟩ := c.write_ok p.1 hp.1
    obtain ⟨w, hw⟩ := (d p.1).write_ok p.2 hp.2
    exact ⟨v ++ w, writeAll_pair_eq_ok.mpr ⟨v, w, hv, hw, rfl⟩⟩
  spec bs p rest := by
    obtain ⟨a, b⟩ := p
    simp only [Reader.bind_eq_ok, Reader.pure_eq_ok, read_eq_ok, (d _).spec, writeAll_pair_eq_ok,
      Prod.mk.injEq]
    constructor
    · rintro ⟨a', mid, ⟨ha, u, hu, rfl⟩, b', mid', ⟨hb, hR, v, hv, rfl⟩, ⟨rfl, rfl⟩, rfl⟩
      exact ⟨⟨ha, hb⟩, hR, u ++ v, ⟨u, v, hu, hv, rfl⟩, (List.append_assoc ..).symm⟩
    · rintro ⟨⟨ha, hb⟩, hR, _, ⟨u, v, hu, hv, rfl⟩, rfl⟩
      exact ⟨a, v ++ rest, ⟨ha, u, hu, List.append_assoc ..⟩, b, rest, ⟨hb, hR, v, hv, rfl⟩,
        ⟨rfl, rfl⟩, rfl⟩

/-- One field after the other. -/
abbrev andThen (c : Field α) (d : Codec R β) : Codec R (α × β) := c.seq fun _ => d

/-- A sequence is written field by field. -/
theorem write_seq_eq_ok {c : Field α} {d : α → Codec R β} {a : α} {b : β} {u : Bits} :
    (c.seq d).write (a, b) = .ok u ↔
      ∃ v w, c.write a = .ok v ∧ (d a).write b = .ok w ∧ u = v ++ w := writeAll_pair_eq_ok

/-- The struct its fields make up. -/
def iso (c : Codec R α) (f : α → β) (g : β → α) (hgf : ∀ a, g (f a) = a) (hfg : ∀ b, f (g b) = b) :
    Codec R β where
  read := do
    let a ← c.read
    return f a
  write b := c.write (g b)
  Valid b := c.Valid (g b)
  write_ok b := c.write_ok (g b)
  spec bs b rest := by
    simp only [Reader.bind_eq_ok, Reader.pure_eq_ok, c.spec]
    constructor
    · rintro ⟨a, mid, h, rfl, rfl⟩
      rwa [hgf]
    · intro h
      exact ⟨g b, rest, h, (hfg b).symm, rfl⟩

@[simp] theorem write_iso {c : Codec R α} {f : α → β} {g : β → α} {hgf : ∀ a, g (f a) = a}
    {hfg : ∀ b, f (g b) = b} (b : β) : (c.iso f g hgf hfg).write b = c.write (g b) := rfl

/-! ### Enums -/

/-- A value computed by `f` from one that is read, and written as the value `g` gives back.  What
    `f` does not give is written, but never read: the catch-all variant of an enum with an
    identifier that has a variant of its own, or a skipped field that does not have its default. -/
def map (c : Codec R α) (f : α → β) (g : β → α) (hgf : ∀ a, g (f a) = a) : Codec R β where
  read := do
    let a ← c.read
    return f a
  write b := c.write (g b)
  Valid b := c.Valid (g b) ∧ f (g b) = b
  write_ok b hb := c.write_ok (g b) hb.1
  spec bs b rest := by
    simp only [Reader.bind_eq_ok, Reader.pure_eq_ok, c.spec]
    constructor
    · rintro ⟨a, mid, ⟨ha, hR, hu⟩, rfl, rfl⟩
      rw [hgf]
      exact ⟨⟨ha, rfl⟩, hR, hu⟩
    · rintro ⟨⟨ha, hfg⟩, hR, hu⟩
      exact ⟨g b, rest, ⟨ha, hR, hu⟩, hfg.symm, rfl⟩

@[simp] theorem write_map {c : Codec R α} {f : α → β} {g : β → α} {hgf : ∀ a, g (f a) = a}
    (b : β) : (c.map f g hgf).write b = c.write (g b) := rfl

/-- A variant without fields. -/
def const (a : α) : Field α where
  read := return a
  write _ := .ok []
  Valid b := b = a
  write_ok _ _ := ⟨[], rfl⟩
  spec bs b rest := by
    rw [Reader.pure_eq_ok]
    constructor
    · rintro ⟨rfl, rfl⟩
      exact ⟨rfl, trivial, [], rfl, rfl⟩
    · rintro ⟨rfl, -, u, hu, rfl⟩
      cases hu
      exact ⟨rfl, rfl⟩

/-- An identifier without a variant. -/
def reject (e : DekuError) : Field α where
  read := throw e
  write _ := .error e
  Valid _ := False
  write_ok _ := False.elim
  spec bs b rest := by
    simp only [false_and, iff_false]
    exact nofun

/-- An enum with data: the identifier, then the fields of the variant it selects.  `tag` is the
    identifier of a value, `body` writes the fields of its variant. -/
def enum (idc : Field ι) (variant : ι → Field α) (tag : α → ι) (body : α → Except DekuError Bits)
    (h : ∀ i a, (variant i).Valid a → tag a = i ∧ (variant i).write a = body a) : Field α where
  read := do
    let i ← idc.read
    (variant i).read
  write a := writeAll [idc.write (tag a), body a]
  Valid a := idc.Valid (tag a) ∧ (variant (tag a)).Valid a
  write_ok a ha := by
    obtain ⟨v, hv⟩ := idc.write_ok _ ha.1
    obtain ⟨w, hw⟩ := (variant (tag a)).write_ok a ha.2
    exact ⟨v ++ w, writeAll_pair_eq_ok.mpr ⟨v, w, hv, (h _ a ha.2).2 ▸ hw, rfl⟩⟩
  spec bs a rest := by
    simp only [Reader.bind_eq_ok, read_eq_ok, writeAll_pair_eq_ok, true_and]
    constructor
    · rintro ⟨i, mid, ⟨hi, u, hu, rfl⟩, ha, v, hv, rfl⟩
      obtain ⟨rfl, hbody⟩ := h i a ha
      exact ⟨⟨hi, ha⟩, u ++ v, ⟨u, v, hu, hbody ▸ hv, rfl⟩, (List.append_assoc ..).symm⟩
    · rintro ⟨⟨hi, ha⟩, _, ⟨u, v, hu, hv, rfl⟩, rfl⟩
      exact ⟨tag a, v ++ rest, ⟨hi, u, hu, List.append_assoc ..⟩, ha, v,
        (h _ a ha).2.trans hv, rfl⟩

/-! ### Vectors -/

/-- An array of `n` elements. -/
def array (c : Field α) : (n : Nat) → Field (List.Vector α n)
  | 0 => (const ()).iso (fun _ => .nil) (fun _ => ()) (fun _ => rfl) fun v => v.eq_nil.symm
  | n + 1 => (c.andThen (array c n)).iso (fun p => p.1 ::ᵥ p.2) (fun v => (v.head, v.tail))
      (fun _ => rfl) fun v => v.cons_head_tail

/-- An array of representable elements is representable. -/
theorem valid_array {c : Field α} (hc : ∀ a, c.Valid a) :
    ∀ (n : Nat) (v : List.Vector α n), (c.array n).Valid v
  | 0, _ => rfl
  | n + 1, v => ⟨hc v.head, valid_array hc n v.tail⟩

/-- A `Vec` is written element by element. -/
def writeVec (c : Field α) (xs : List α) : Except DekuError Bits := writeAll (xs.map c.write)

@[simp] theorem writeVec_nil (c : Field α) : c.writeVec [] = .ok [] := rfl

/-- A list is written element by element. -/
theorem writeVec_cons_eq_ok {c : Field α} {x : α} {xs : List α} {u : Bits} :
    c.writeVec (x :: xs) = .ok u ↔
      ∃ v w, c.write x = .ok v ∧ c.writeVec xs = .ok w ∧ u = v ++ w :=
  writeAll_cons_eq_ok

/-- Two lists are written one after the other. -/
theorem writeVec_append_eq_ok {c : Field α} {xs ys : List α} {u : Bits} :
    c.writeVec (xs ++ ys) = .ok u ↔
      ∃ v w, c.writeVec xs = .ok v ∧ c.writeVec ys = .ok w ∧ u = v ++ w := by
  rw [writeVec, List.map_append, writeAll_append_eq_ok]
  rfl

/-- A list of values that can be read can be written. -/
theorem writeVec_ok (c : Field α) : ∀ {xs : List α}, (∀ x ∈ xs, c.Valid x) →
    ∃ u, c.writeVec xs = .ok u
  | [], _ => ⟨[], rfl⟩
  | x :: xs, h => by
    rw [List.forall_mem_cons] at h
    obtain ⟨v, hv⟩ := c.write_ok x h.1
    obtain ⟨w, hw⟩ := writeVec_ok c h.2
    exact ⟨v ++ w, writeVec_cons_eq_ok.mpr ⟨v, w, hv, hw, rfl⟩⟩

/-- Bytes are written as they are. -/
theorem writeVec_uint : ∀ bytes : Bytes, uint.writeVec bytes = .ok (toBits bytes)
  | [] => rfl
  | b :: bytes =>
    writeVec_cons_eq_ok.mpr ⟨byteBits b, toBits bytes, rfl, writeVec_uint bytes, rfl⟩

/-- The elements of the format take at least one bit each. -/
def Nonempty (c : Field α) : Prop := ∀ a u, c.Valid a → c.write a = .ok u → 0 < u.length

/-- An integer takes bits. -/
theorem nonempty_uint {w : Nat} (hw : 0 < w) : (uint : Field (BitVec w)).Nonempty := by
  intro v u _ hu
  cases hu
  rwa [length_natBits]

/-- An octet does. -/
theorem nonempty_octet : (uint : Field (BitVec 8)).Nonempty := nonempty_uint (by decide)

/-- Elements that take bits: there are no more of them than bits. -/
theorem length_le_of_writeVec {c : Field α} (hc : c.Nonempty) :
    ∀ {xs : List α} {u : Bits}, (∀ x ∈ xs, c.Valid x) → c.writeVec xs = .ok u →
      xs.length ≤ u.length
  | [], _, _, _ => Nat.zero_le _
  | x :: xs, u, hx, hu => by
    obtain ⟨v, w, hv, hw, rfl⟩ := writeVec_cons_eq_ok.mp hu
    rw [List.forall_mem_cons] at hx
    have hpos := hc x v hx.1 hv
    have ih := length_le_of_writeVec hc hx.2 hw
    rw [List.length_cons, List.length_append]
    omega

theorem replicate_eq_ok (c : Field α) :
    ∀ {n : Nat} {bs rest : Bits} {xs : List α},
      (Reader.replicate c.read n).run bs = .ok (xs, rest) ↔
        (xs.length = n ∧ ∀ x ∈ xs, c.Valid x) ∧ ∃ u, c.writeVec xs = .ok u ∧ bs = u ++ rest
  | 0, bs, rest, xs => by
    rw [Reader.replicate, Reader.pure_eq_ok]
    constructor
    · rintro ⟨rfl, rfl⟩
      exact ⟨⟨rfl, nofun⟩, [], rfl, rfl⟩
    · rintro ⟨⟨hlen, -⟩, u, hu, rfl⟩
      obtain rfl := List.eq_nil_of_length_eq_zero hlen
      cases hu
      exact ⟨rfl, rfl⟩
  | n + 1, bs, rest, xs => by
    simp only [Reader.replicate, Reader.bind_eq_ok, Reader.pure_eq_ok, read_eq_ok,
      replicate_eq_ok c]
    constructor
    · rintro ⟨x, mid, ⟨hx, v, hv, rfl⟩, ys, mid', ⟨⟨hlen, hys⟩, w, hw, rfl⟩, rfl, rfl⟩
      exact ⟨⟨by rw [List.length_cons, hlen], List.forall_mem_cons.mpr ⟨hx, hys⟩⟩, v ++ w,
        writeVec_cons_eq_ok.mpr ⟨v, w, hv, hw, rfl⟩, (List.append_assoc ..).symm⟩
    · rintro ⟨⟨hlen, hxs⟩, u, hu, rfl⟩
      cases xs with
      | nil => cases hlen
      | cons x xs =>
        obtain ⟨v, w, hv, hw, rfl⟩ := writeVec_cons_eq_ok.mp hu
        obtain ⟨hx, hxs⟩ := List.forall_mem_cons.mp hxs
        exact ⟨x, w ++ rest, ⟨hx, v, hv, List.append_assoc ..⟩, xs, rest,
          ⟨⟨Nat.succ.inj hlen, hxs⟩, w, hw, rfl⟩, rfl, rfl⟩

/-- A `Vec` with `count = n`; `n` may be the failure of the attribute's expression.

    The elements are read one by one, so the size in an `Incomplete` is that of what the element at
    the end of the input lacks.  For a `Vec<u8>` deku asks for all of the missing bytes at once: there
    the two differ in this size, on which nothing depends, and agree in everything else. -/
def count (n : Except DekuError Nat) (c : Field α) : Field (List α) where
  read := do
    let n ← n
    Reader.replicate c.read n
  write := c.writeVec
  Valid xs := n = .ok xs.length ∧ ∀ x ∈ xs, c.Valid x
  write_ok _ hxs := c.writeVec_ok hxs.2
  spec bs xs rest := by
    simp only [Reader.bind_eq_ok, Reader.lift_eq_ok, replicate_eq_ok, true_and]
    constructor
    · rintro ⟨k, mid, ⟨hk, rfl⟩, ⟨rfl, hxs⟩, hu⟩
      exact ⟨⟨hk, hxs⟩, hu⟩
    · rintro ⟨⟨hk, hxs⟩, hu⟩
      exact ⟨_, bs, ⟨hk, rfl⟩, ⟨rfl, hxs⟩, hu⟩

/-- What the limited loop returns: at least one element, and all of them up to the limit. -/
theorem of_untilConsumed (c : Field α) {limit : Nat} :
    ∀ {fuel done : Nat} {bs rest : Bits} {xs : List α},
      (Reader.untilConsumed c.read limit fuel done).run bs = .ok (xs, rest) →
        xs ≠ [] ∧ (∀ x ∈ xs, c.Valid x) ∧
          ∃ u, c.writeVec xs = .ok u ∧ bs = u ++ rest ∧ done + u.length = limit := by
  intro fuel
  induction fuel with
  | zero => intro done bs rest xs h; cases h
  | succ fuel ih =>
    intro done bs rest xs h
    simp only [Reader.untilConsumed, Reader.bind_eq_ok, Reader.get_eq_ok, read_eq_ok] at h
    obtain ⟨_, _, ⟨rfl, rfl⟩, x, mid, ⟨hx, v, hv, rfl⟩, _, _, ⟨rfl, rfl⟩, h⟩ := h
    rw [List.length_append, Nat.add_sub_cancel] at h
    split at h
    · rename_i hlim
      obtain ⟨rfl, rfl⟩ := Reader.pure_eq_ok.mp h
      refine ⟨nofun, List.forall_mem_cons.mpr ⟨hx, nofun⟩, v, ?_, rfl, hlim⟩
      exact writeVec_cons_eq_ok.mpr ⟨v, [], hv, rfl, (List.append_nil v).symm⟩
    · obtain ⟨ys, mid', hys, hr⟩ := Reader.bind_eq_ok.mp h
      obtain ⟨rfl, rfl⟩ := Reader.pure_eq_ok.mp hr
      obtain ⟨-, hval, w, hw, rfl, hlim⟩ := ih hys
      refine ⟨nofun, List.forall_mem_cons.mpr ⟨hx, hval⟩, v ++ w, ?_,
        (List.append_assoc ..).symm, ?_⟩
      · exact writeVec_cons_eq_ok.mpr ⟨v, w, hv, hw, rfl⟩
      · rw [List.length_append]; omega

/-- Conversely the loop finds its way through any list that ends at the limit. -/
theorem untilConsumed_of {c : Field α} (hc : c.Nonempty) {limit : Nat} :
    ∀ {xs : List α} {fuel done : Nat} {u rest : Bits},
      xs ≠ [] → (∀ x ∈ xs, c.Valid x) → c.writeVec xs = .ok u → done + u.length = limit →
        xs.length ≤ fuel →
          (Reader.untilConsumed c.read limit fuel done).run (u ++ rest) = .ok (xs, rest) := by
  intro xs
  induction xs with
  | nil => intro _ _ _ _ h; exact absurd rfl h
  | cons x xs ih =>
    intro fuel done u rest _ hval hu hlim hfuel
    obtain ⟨v, w, hv, hw, rfl⟩ := writeVec_cons_eq_ok.mp hu
    obtain ⟨hx, hxs⟩ := List.forall_mem_cons.mp hval
    rw [List.length_append] at hlim
    rw [List.append_assoc]
    match fuel, hfuel with
    | fuel + 1, hfuel =>
      simp only [Reader.untilConsumed, Reader.bind_eq_ok, Reader.get_eq_ok, read_eq_ok]
      refine ⟨_, _, ⟨rfl, rfl⟩, x, w ++ rest, ⟨hx, v, hv, rfl⟩, _, _, ⟨rfl, rfl⟩, ?_⟩
      rw [List.length_append, Nat.add_sub_cancel]
      cases xs with
      | nil =>
        cases hw
        rw [if_pos (show done + v.length = limit from hlim)]
        rfl
      | cons y ys =>
        have hpos : 0 < w.length := by
          have := length_le_of_writeVec hc hxs hw
          rw [List.length_cons] at this
          omega
        rw [if_neg (by omega)]
        refine Reader.bind_eq_ok.mpr ⟨y :: ys, rest, ?_, Reader.pure_eq_ok.mpr ⟨rfl, rfl⟩⟩
        exact ih nofun hxs hw (by omega) (Nat.le_of_succ_le_succ hfuel)

/-- A `Vec` with `bytes_read = n`. -/
def bytesRead (n : Except DekuError Nat) (c : Field α) (hc : c.Nonempty) : Field (List α) where
  read := do
    let n ← n
    if n = 0 then
      return []
    let bs ← get
    Reader.untilConsumed c.read (8 * n) (bs.length + 1) 0
  write := c.writeVec
  Valid xs := (∀ x ∈ xs, c.Valid x) ∧ ∃ k u, n = .ok k ∧ c.writeVec xs = .ok u ∧ u.length = 8 * k
  write_ok _ hxs := c.writeVec_ok hxs.1
  spec bs xs rest := by
    simp only [Reader.bind_eq_ok, Reader.lift_eq_ok, true_and]
    constructor
    · rintro ⟨k, mid, ⟨hk, rfl⟩, h⟩
      split at h
      · rename_i hk0
        obtain ⟨rfl, rfl⟩ := Reader.pure_eq_ok.mp h
        exact ⟨⟨nofun, k, [], hk, rfl, by rw [hk0]; rfl⟩, [], rfl, rfl⟩
      · simp only [Reader.bind_eq_ok, Reader.get_eq_ok] at h
        obtain ⟨_, _, ⟨rfl, rfl⟩, h⟩ := h
        obtain ⟨-, hval, u, hu, hbs, hlim⟩ := c.of_untilConsumed h
        exact ⟨⟨hval, k, u, hk, hu, by rw [← hlim, Nat.zero_add]⟩, u, hu, hbs⟩
    · rintro ⟨⟨hval, k, u, hk, hu, hlen⟩, u', hu', rfl⟩
      rw [hu] at hu'
      cases hu'
      refine ⟨k, _, ⟨hk, rfl⟩, ?_⟩
      have hle := length_le_of_writeVec hc hval hu
      split
      · rename_i hk0
        rw [hlen, hk0] at hle
        obtain rfl := List.eq_nil_of_length_eq_zero (Nat.le_zero.mp hle)
        cases hu
        rfl
      · rename_i hk0
        simp only [Reader.bind_eq_ok, Reader.get_eq_ok]
        refine ⟨_, _, ⟨rfl, rfl⟩, untilConsumed_of hc ?_ hval hu ?_ ?_⟩
        · rintro rfl
          cases hu
          rw [List.length_nil] at hlen
          omega
        · rw [Nat.zero_add, hlen]
        · rw [List.length_append]; omega

/-- The loop to the end of the input returns what its bits are written from. -/
theorem toEnd_eq_ok {c : Field α} (hc : c.Nonempty) :
    ∀ {fuel : Nat} {bs rest : Bits} {xs : List α}, bs.length ≤ fuel →
      ((Reader.toEnd c.read fuel).run bs = .ok (xs, rest) ↔
        (∀ x ∈ xs, c.Valid x) ∧ rest = [] ∧ ∃ u, c.writeVec xs = .ok u ∧ bs = u ++ rest) := by
  intro fuel
  have hnil : ∀ {rest : Bits} {xs : List α},
      xs = [] ∧ rest = [] ↔
        (∀ x ∈ xs, c.Valid x) ∧ rest = [] ∧ ∃ u, c.writeVec xs = .ok u ∧ [] = u ++ rest := by
    intro rest xs
    constructor
    · rintro ⟨rfl, rfl⟩
      exact ⟨nofun, rfl, [], rfl, rfl⟩
    · rintro ⟨hval, rfl, u, hu, hnil⟩
      obtain rfl : u = [] := by simpa using hnil.symm
      have hle := length_le_of_writeVec hc hval hu
      exact ⟨List.eq_nil_of_length_eq_zero (Nat.le_zero.mp hle), rfl⟩
  induction fuel with
  | zero =>
    intro bs rest xs hfuel
    obtain rfl := List.eq_nil_of_length_eq_zero (Nat.le_zero.mp hfuel)
    rw [Reader.toEnd, Reader.pure_eq_ok, hnil]
  | succ fuel ih =>
    intro bs rest xs hfuel
    simp only [Reader.toEnd, Reader.bind_eq_ok, Reader.get_eq_ok]
    cases bs with
    | nil =>
      rw [← hnil]
      constructor
      · rintro ⟨_, _, ⟨rfl, rfl⟩, h⟩
        exact Reader.pure_eq_ok.mp h
      · rintro ⟨rfl, rfl⟩
        exact ⟨[], [], ⟨rfl, rfl⟩, rfl⟩
    | cons b bs =>
      constructor
      · rintro ⟨_, _, ⟨rfl, rfl⟩, h⟩
        rw [if_neg (by simp)] at h
        simp only [Reader.bind_eq_ok, read_eq_ok, Reader.pure_eq_ok] at h
        obtain ⟨x, mid, ⟨hx, v, hv, hbs⟩, ys, mid', hys, rfl, rfl⟩ := h
        have hlen := congrArg List.length hbs
        rw [List.length_append, List.length_cons] at hlen
        have hpos := hc x v hx hv
        rw [List.length_cons] at hfuel
        obtain ⟨hval, rfl, w, hw, rfl⟩ := (ih (by omega)).mp hys
        refine ⟨List.forall_mem_cons.mpr ⟨hx, hval⟩, rfl, v ++ w, ?_, ?_⟩
        · exact writeVec_cons_eq_ok.mpr ⟨v, w, hv, hw, rfl⟩
        · rw [hbs, List.append_assoc]
      · rintro ⟨hval, rfl, u, hu, hbs⟩
        refine ⟨_, _, ⟨rfl, rfl⟩, ?_⟩
        rw [if_neg (by simp)]
        cases xs with
        | nil => cases hu; cases hbs
        | cons x xs =>
          obtain ⟨v, w, hv, hw, rfl⟩ := writeVec_cons_eq_ok.mp hu
          obtain ⟨hx, hxs⟩ := List.forall_mem_cons.mp hval
          have hlen := congrArg List.length hbs
          simp only [List.length_append, List.length_cons, List.length_nil] at hlen hfuel
          have hpos := hc x v hx hv
          simp only [Reader.bind_eq_ok, read_eq_ok, Reader.pure_eq_ok]
          refine ⟨x, w, ⟨hx, v, hv, by rw [hbs, List.append_nil]⟩, xs, [], ?_, rfl, rfl⟩
          exact (ih (by omega)).mpr ⟨hxs, rfl, w, hw, (List.append_nil w).symm⟩

/-- A `Vec` with `read_all`. -/
def readAll (c : Field α) (hc : c.Nonempty) : Last (List α) where
  read := do
    let bs ← get
    Reader.toEnd c.read bs.length
  write := c.writeVec
  Valid xs := ∀ x ∈ xs, c.Valid x
  write_ok _ hxs := c.writeVec_ok hxs
  spec bs xs rest := by
    simp only [Reader.bind_eq_ok, Reader.get_eq_ok]
    constructor
    · rintro ⟨_, _, ⟨rfl, rfl⟩, h⟩
      exact (toEnd_eq_ok hc (Nat.le_refl _)).mp h
    · intro h
      exact ⟨bs, bs, ⟨rfl, rfl⟩, (toEnd_eq_ok hc (Nat.le_refl _)).mpr h⟩

/-! ### Whole bytes -/

/-- Everything the format writes, representable or not, is a multiple of `k` bits. -/
def Aligned (k : Nat) (c : Codec R α) : Prop := ∀ a u, c.write a = .ok u → k ∣ u.length

/-- Everything the format writes has `k` bits. -/
def Sized (k : Nat) (c : Codec R α) : Prop := ∀ a u, c.write a = .ok u → u.length = k

/-- A fixed size is aligned to what divides it. -/
theorem Sized.aligned {k m : Nat} {c : Codec R α} (h : c.Sized k) (hm : m ∣ k) : c.Aligned m :=
  fun a u hu => (h a u hu).symm ▸ hm

/-- An integer takes its bits. -/
theorem sized_uint {w : Nat} : (uint : Field (BitVec w)).Sized w := by
  intro v u hu
  cases hu
  exact length_natBits _ _

/-- A field takes its bits. -/
theorem sized_bits [Deku] {n w : Nat} (hn : n.ble w = true) : (bits n w hn).Sized n :=
  fun _ _ hu => length_writeBits hu

theorem Sized.map {k : Nat} {c : Codec R α} {f : α → β} {g : β → α} {hgf : ∀ a, g (f a) = a}
    (hc : c.Sized k) : (c.map f g hgf).Sized k := fun b _ hu => hc (g b) _ hu

theorem Sized.iso {k : Nat} {c : Codec R α} {f : α → β} {g : β → α} {hgf : ∀ a, g (f a) = a}
    {hfg : ∀ b, f (g b) = b} (hc : c.Sized k) : (c.iso f g hgf hfg).Sized k :=
  fun b _ hu => hc (g b) _ hu

theorem Aligned.iso {k : Nat} {c : Codec R α} {f : α → β} {g : β → α} {hgf : ∀ a, g (f a) = a}
    {hfg : ∀ b, f (g b) = b} (hc : c.Aligned k) : (c.iso f g hgf hfg).Aligned k :=
  fun b _ hu => hc (g b) _ hu

/-- Sizes of a sequence add up. -/
theorem Sized.seq {k m : Nat} {c : Field α} {d : α → Codec R β} (hc : c.Sized k)
    (hd : ∀ a, (d a).Sized m) : (c.seq d).Sized (k + m) := by
  intro p u hu
  obtain ⟨v, w, hv, hw, rfl⟩ := writeAll_pair_eq_ok.mp hu
  rw [List.length_append, hc _ _ hv, hd _ _ _ hw]

theorem sized_const {a : α} : (const a).Sized 0 := by
  intro b u hu
  cases hu
  rfl

/-- An array takes its elements. -/
theorem Sized.array {k : Nat} {c : Field α} (hc : c.Sized k) :
    ∀ n : Nat, (c.array n).Sized (k * n)
  | 0 => sized_const.iso
  | n + 1 => by
    intro v u hu
    have h := hc.seq (fun _ => Sized.array hc n) (v.head, v.tail) u hu
    rw [h, Nat.mul_succ, Nat.add_comm]

/-- An enum is aligned if its identifier is, and what stands behind it. -/
theorem Aligned.enum {k : Nat} {idc : Field ι} {variant : ι → Field α} {tag : α → ι}
    {body : α → Except DekuError Bits}
    {h : ∀ i a, (variant i).Valid a → tag a = i ∧ (variant i).write a = body a}
    (hid : idc.Aligned k) (hbody : ∀ a u, body a = .ok u → k ∣ u.length) :
    (enum idc variant tag body h).Aligned k := by
  intro a u hu
  obtain ⟨v, w, hv, hw, rfl⟩ := writeAll_pair_eq_ok.mp hu
  rw [List.length_append]
  exact Nat.dvd_add (hid _ _ hv) (hbody a w hw)

/-- A sequence is aligned if its fields are. -/
theorem Aligned.seq {k : Nat} {c : Field α} {d : α → Codec R β} (hc : c.Aligned k)
    (hd : ∀ a, (d a).Aligned k) : (c.seq d).Aligned k := by
  intro p u hu
  obtain ⟨v, w, hv, hw, rfl⟩ := writeAll_pair_eq_ok.mp hu
  rw [List.length_append]
  exact Nat.dvd_add (hc _ _ hv) (hd _ _ _ hw)

/-- A list is aligned if its elements are. -/
theorem aligned_writeVec {k : Nat} {c : Field α} (hc : c.Aligned k) :
    ∀ {xs : List α} {u : Bits}, c.writeVec xs = .ok u → k ∣ u.length
  | [], _, hu => by cases hu; exact Nat.dvd_zero k
  | x :: xs, _, hu => by
    obtain ⟨v, w, hv, hw, rfl⟩ := writeVec_cons_eq_ok.mp hu
    rw [List.length_append]
    exact Nat.dvd_add (hc _ _ hv) (aligned_writeVec hc hw)

/-- `to_bytes`: write and pack into bytes. -/
def toBytes (c : Codec R α) (a : α) : Except DekuError Bytes := (c.write a).map pack

/-- `from_bytes` on `(input, 0)`: the rest of the input, the bit offset into it, and the value. -/
def fromBytes (c : Codec R α) (input : Bytes) : Except DekuError ((Bytes × Nat) × α) :=
  match c.read.run (toBits input) with
  | .error e => .error e
  | .ok (a, rest) =>
    let bitsRead := 8 * input.length - rest.length
    .ok ((input.drop (bitsRead / 8), bitsRead % 8), a)

/-- The bytes of a value are its bits, packed. -/
theorem toBytes_eq_ok {c : Codec R α} {a : α} {bytes : Bytes} :
    c.toBytes a = .ok bytes ↔ ∃ u, c.write a = .ok u ∧ bytes = pack u := by
  rw [toBytes]
  cases c.write a with
  | error e => simp [Except.map]
  | ok u => simp [Except.map, eq_comm]

/-- The law of a codec for byte strings: on an aligned format the reader stops at a byte boundary,
    and reading is the inverse of writing. -/
theorem fromBytes_eq_ok {c : Codec R α} (hal : c.Aligned 8) {input rest : Bytes} {off : Nat}
    {a : α} :
    c.fromBytes input = .ok ((rest, off), a) ↔
      off = 0 ∧ c.Valid a ∧ R (toBits rest) ∧ ∃ u, c.toBytes a = .ok u ∧ input = u ++ rest := by
  constructor
  · intro h
    unfold fromBytes at h
    cases hr : c.read.run (toBits input) with
    | error e => rw [hr] at h; cases h
    | ok p =>
      obtain ⟨b, brest⟩ := p
      rw [hr] at h
      cases h
      obtain ⟨hval, hR, u, hu, hin⟩ := (c.spec _ _ _).mp hr
      have h8 : 8 ∣ u.length := hal _ _ hu
      have hpk := length_pack h8
      have hlen : 8 * input.length = u.length + brest.length := by
        rw [← length_toBits, hin, List.length_append]
      have hdvd : 8 ∣ brest.length := (Nat.dvd_add_right h8).mp (hlen ▸ Nat.dvd_mul_right 8 _)
      have hpack : input = pack u ++ pack brest := by
        rw [← pack_toBits input, hin, pack_append h8]
      have hidx : (8 * input.length - brest.length) / 8 = (pack u).length := by omega
      refine ⟨by omega, hval, ?_, pack u, toBytes_eq_ok.mpr ⟨u, hu, rfl⟩, ?_⟩
      · rw [hidx, hpack, List.drop_left, toBits_pack hdvd]
        exact hR
      · rw [hidx]
        conv_rhs => rw [hpack, List.drop_left]
        exact hpack
  · rintro ⟨rfl, hval, hR, bytes, hb, rfl⟩
    obtain ⟨u, hu, rfl⟩ := toBytes_eq_ok.mp hb
    have h8 : 8 ∣ u.length := hal _ _ hu
    have hpk := length_pack h8
    have hr : c.read.run (toBits (pack u ++ rest)) = .ok (a, toBits rest) :=
      (c.spec _ _ _).mpr ⟨hval, hR, u, hu, by rw [toBits_append, toBits_pack h8]⟩
    have hidx : 8 * (pack u ++ rest).length - (toBits rest).length = 8 * (pack u).length := by
      rw [List.length_append, length_toBits]; omega
    unfold fromBytes
    rw [hr]
    simp only [hidx, Nat.mul_div_cancel_left _ (show 0 < 8 by decide), List.drop_left,
      Nat.mul_mod_right]

end Codec

/-! ## Named codes -/

/-- An enum of codes: some variants are named and have a code each, and one variant holds the codes
    that have no name. -/
structure NamedCodes (w : Nat) (α : Type) where
  /-- The variants with a code of their own. -/
  named : List α
  /-- The code of a variant. -/
  id : α → BitVec w
  /-- The variant for a code without a name. -/
  unknown : BitVec w → α
  id_unknown : ∀ code, id (unknown code) = code
  nodup_named : (named.map id).Nodup
  mem_named_or_unknown : ∀ a, a ∈ named ∨ ∃ code, a = unknown code

namespace NamedCodes

variable {w : Nat} {α : Type} (self : NamedCodes w α)

/-- The match on a code: the named variant that has it, else the one for the others. -/
def ofId (code : BitVec w) : α :=
  (self.named.find? fun a => self.id a = code).getD (self.unknown code)

/-- Every code is that of the variant it is matched to. -/
theorem id_ofId (code : BitVec w) : self.id (self.ofId code) = code := by
  unfold ofId
  cases hf : self.named.find? fun a => self.id a = code with
  | none => exact self.id_unknown code
  | some a => simpa using List.find?_some hf

/-- A variant is found by its code, but for the variant of a code without a name that holds one that
    has a name. -/
theorem ofId_id {a : α}
    (h : ∀ code, a = self.unknown code → ∀ b ∈ self.named, self.id b ≠ code) :
    self.ofId (self.id a) = a := by
  unfold ofId
  rcases self.mem_named_or_unknown a with hmem | ⟨code, rfl⟩
  · cases hf : self.named.find? fun b => self.id b = self.id a with
    | none => exact absurd (List.find?_eq_none.mp hf a hmem) (by simp)
    | some b =>
      have hid : self.id b = self.id a := by simpa using List.find?_some hf
      exact List.inj_on_of_nodup_map self.nodup_named (List.mem_of_find?_eq_some hf) hmem hid
  · have hnone : ∀ b ∈ self.named, self.id b ≠ code := h code rfl
    rw [self.id_unknown, List.find?_eq_none.mpr (by simpa using hnone)]
    rfl

/-- The codec of the enum: its code. -/
def codec : Field α := Codec.uint.map self.ofId self.id self.id_ofId

/-- An enum of codes takes the bits of a code. -/
theorem sized_codec : self.codec.Sized w := Codec.sized_uint.map

end NamedCodes

end Nata
