/-
  Layers: their errors, what every layer can do, and the helpers over lists of layers.

  A layer is a value of some type `L` of boxed layers.  The code never looks inside a boxed layer
  except through the trait (`to_bytes`, `length`, `finalize`, `parse`) and through the downcasts
  `get_layer!`, so everything about lists of layers is stated for an arbitrary `L`; the layers of
  the crate are one such type, and the layers of a user of the crate are another.

  Machine integers are bit vectors.  A `usize` is a number below `2 ^ 64`; the only operations on
  one whose overflow the code looks at are the checked ones below.
-/
import Nata.Lib.Deku
import Nata.Lib.Method

namespace Nata

/-! ## Checked arithmetic -/

/-- `a.checked_add(b)` on `usize`. -/
def checkedAdd (a b : Nat) : Option Nat := if a + b < 2 ^ 64 then some (a + b) else none

/-- `a.checked_sub(b)`. -/
def checkedSub (a b : Nat) : Option Nat := if b ≤ a then some (a - b) else none

/-- `a.checked_mul(b)` on an integer of `w` bits. -/
def checkedMul (w a b : Nat) : Option Nat := if a * b < 2 ^ w then some (a * b) else none

/-- `try_from` to an unsigned integer of `w` bits. -/
def tryFrom (w n : Nat) : Option (BitVec w) := if n < 2 ^ w then some (BitVec.ofNat w n) else none

/-- The sum, if a `usize` holds it. -/
theorem checkedAdd_eq_some {a b n : Nat} :
    checkedAdd a b = some n ↔ a + b < 2 ^ 64 ∧ n = a + b := by
  unfold checkedAdd
  split <;> simp_all [eq_comm]

/-- The number, if it fits. -/
theorem tryFrom_eq_some {w n : Nat} {v : BitVec w} :
    tryFrom w n = some v ↔ n < 2 ^ w ∧ v = BitVec.ofNat w n := by
  unfold tryFrom
  split <;> simp_all [eq_comm]

/-- Adding fails when the sum is too large for a `usize`. -/
theorem checkedAdd_eq_none_iff {a b : Nat} : checkedAdd a b = none ↔ 2 ^ 64 ≤ a + b := by
  unfold checkedAdd
  split <;> simp_all

/-- Narrowing fails when the number is too large. -/
theorem tryFrom_eq_none_iff {w n : Nat} : tryFrom w n = none ↔ 2 ^ w ≤ n := by
  unfold tryFrom
  split <;> simp_all

/-! ## Errors -/

/-- Error parsing or building a layer. -/
inductive LayerError
  /-- Recoverable error when reading a layer, needs more data. -/
  | incomplete (size : Nat)
  /-- Parsing error when reading a layer. -/
  | parse (msg : String)
  /-- Error during finalization. -/
  | finalize (msg : String)
  | dekuError (msg : String)
  deriving DecidableEq, Repr

/-- `x.ok_or(e)?`. -/
def okOr {α : Type} (e : LayerError) : Option α → Except LayerError α
  | some a => .ok a
  | none => .error e

/-- `ok_or` returns what is there. -/
theorem okOr_eq_ok {α : Type} {e : LayerError} {x : Option α} {a : α} :
    okOr e x = .ok a ↔ x = some a := by
  cases x <;> simp [okOr]

/-- `ok_or` fails when there is nothing, with the error that it was given. -/
theorem okOr_eq_error {α : Type} {e e' : LayerError} {x : Option α} :
    okOr e x = .error e' ↔ x = none ∧ e' = e := by
  cases x <;> simp [okOr, eq_comm]

/-- `From<DekuError> for LayerError`; a size in bits is rounded up to bytes. -/
def LayerError.ofDeku [Deku] : DekuError → LayerError
  | .incomplete need => .incomplete ((need + 7) / 8)
  | e@(.parse _) => .parse (Deku.display e)
  | e => .dekuError (Deku.display e)

/-! ## Derived layers

  Every layer of the crate implements `parse` and `to_bytes` with the same lines around what deku
  derives.  They are written here once. -/

section Derived

variable [Deku] {α : Type} {R : Bits → Prop}

/-- `parse`: the rest of the input and the layer.  The bit offset is asserted to be zero. -/
def derivedParse (c : Codec R α) (input : Bytes) : Except LayerError (Bytes × α) :=
  match c.fromBytes input with
  | .error e => .error (.ofDeku e)
  | .ok ((rest, _), layer) => .ok (rest, layer)

/-- `to_bytes`. -/
def derivedToBytes (c : Codec R α) (layer : α) : Except LayerError Bytes :=
  match c.toBytes layer with
  | .error e => .error (.ofDeku e)
  | .ok bytes => .ok bytes

/-- The bytes of a layer are its bits, packed. -/
theorem derivedToBytes_eq_ok {c : Codec R α} {layer : α} {bytes : Bytes} :
    derivedToBytes c layer = .ok bytes ↔ ∃ u, c.write layer = .ok u ∧ bytes = pack u := by
  rw [← Codec.toBytes_eq_ok, derivedToBytes]
  cases c.toBytes layer <;> simp

/-- What a derived layer parses: its own serialisation, and then the rest. -/
theorem derivedParse_eq_ok {c : Codec R α} (hal : c.Aligned 8) {input rest : Bytes} {layer : α} :
    derivedParse c input = .ok (rest, layer) ↔
      c.Valid layer ∧ R (toBits rest) ∧
        ∃ bytes, derivedToBytes c layer = .ok bytes ∧ input = bytes ++ rest := by
  have hto : ∀ bytes, derivedToBytes c layer = .ok bytes ↔ c.toBytes layer = .ok bytes := by
    intro bytes
    rw [derivedToBytes_eq_ok, Codec.toBytes_eq_ok]
  simp only [hto]
  rw [derivedParse]
  constructor
  · intro h
    cases hf : c.fromBytes input with
    | error e => rw [hf] at h; cases h
    | ok p =>
      obtain ⟨⟨rest', off⟩, layer'⟩ := p
      rw [hf] at h
      cases h
      exact ((Codec.fromBytes_eq_ok hal).mp hf).2
  · intro h
    rw [(Codec.fromBytes_eq_ok hal).mpr ⟨rfl, h⟩]

/-- The serialised size of a layer whose format has a fixed size. -/
theorem length_derivedToBytes {c : Codec R α} {k : Nat} (hc : c.Sized (8 * k)) {layer : α}
    {bytes : Bytes} (h : derivedToBytes c layer = .ok bytes) : bytes.length = k := by
  obtain ⟨u, hu, rfl⟩ := derivedToBytes_eq_ok.mp h
  have hlen := hc layer u hu
  have := length_pack (hlen ▸ Nat.dvd_mul_right 8 k : 8 ∣ u.length)
  omega

end Derived

/-- A parser of boxed layers. -/
abbrev ParseFn (L : Type) := Bytes → Except LayerError (Bytes × L)

/-- `parse_layer`: parse a layer and box it. -/
def parseLayer {α L : Type} (box : α → L) (parse : Bytes → Except LayerError (Bytes × α)) :
    ParseFn L :=
  fun input => (parse input).map fun (rest, layer) => (rest, box layer)

/-- A boxed parse returns what the parse of the layer does, in its box. -/
theorem parseLayer_eq_ok {α L : Type} {box : α → L}
    {parse : Bytes → Except LayerError (Bytes × α)} {input rest : Bytes} {layer : L} :
    parseLayer box parse input = .ok (rest, layer) ↔
      ∃ l, parse input = .ok (rest, l) ∧ layer = box l := by
  unfold parseLayer
  cases parse input with
  | error e => simp [Except.map]
  | ok p =>
    obtain ⟨rest', l⟩ := p
    constructor
    · intro h
      cases h
      exact ⟨l, rfl, rfl⟩
    · rintro ⟨_, h, rfl⟩
      cases h
      rfl

/-- A box changes no error. -/
theorem parseLayer_eq_error {α L : Type} {box : α → L}
    {parse : Bytes → Except LayerError (Bytes × α)} {input : Bytes} {e : LayerError} :
    parseLayer box parse input = .error e ↔ parse input = .error e := by
  unfold parseLayer
  cases parse input with
  | error e' => simp only [Except.map, Except.error.injEq]
  | ok p =>
    constructor
    · intro h
      cases h
    · intro h
      cases h

/-! ## Lists of layers -/

/-- The part of the layer trait that measures and serialises. -/
class LayerBytes (L : Type) where
  /-- Serialize the layer to bytes. -/
  toBytes : L → Except LayerError Bytes
  /-- The serialized length in bytes of the layer. -/
  length : L → Except LayerError Nat := fun layer => (toBytes layer).map List.length

/-- The layer trait.  `finalize` is called with the layers before and behind. -/
class LayerExt (L : Type) extends LayerBytes L where
  finalize : (prev next : List L) → Method LayerError L Unit

section Lists

variable {L : Type} [LayerBytes L]

/-- Returns the sum of the length of each layer. -/
def lengthOfLayers (layers : List L) : Except LayerError Nat :=
  layers.foldlM (fun acc layer => do
    let len ← LayerBytes.length layer
    okOr (.finalize "Overflow occured when calculating ipv4 length field") (checkedAdd acc len)) 0

/-- Returns the data of all layers. -/
def layersToBytes (layers : List L) : Except LayerError Bytes :=
  layers.foldlM (fun acc layer => do
    let data ← LayerBytes.toBytes layer
    return acc ++ data) []

/-- Two steps succeed when each of them does. -/
theorem except_bind_eq_ok {ε α β : Type} {x : Except ε α} {f : α → Except ε β} {b : β} :
    (x >>= f) = .ok b ↔ ∃ a, x = .ok a ∧ f a = .ok b := by
  cases x <;> simp [bind, Except.bind]

/-- The first step fails, or it succeeds and the second one fails. -/
theorem except_bind_eq_error {ε α β : Type} {x : Except ε α} {f : α → Except ε β} {e : ε} :
    (x >>= f) = .error e ↔ x = .error e ∨ ∃ a, x = .ok a ∧ f a = .error e := by
  cases x <;> simp [bind, Except.bind]

/-- A result is mapped when there is one. -/
theorem except_map_eq_ok {ε α β : Type} {x : Except ε α} {f : α → β} {b : β} :
    x.map f = .ok b ↔ ∃ a, x = .ok a ∧ f a = b := by
  cases x <;> simp [Except.map]

/-- The accumulator of the fold is what has been written so far. -/
theorem foldlM_toBytes (layers : List L) (acc : Bytes) :
    layers.foldlM (fun acc layer => do
      let data ← LayerBytes.toBytes layer
      return acc ++ data) acc = (layersToBytes layers).map (acc ++ ·) := by
  induction layers generalizing acc with
  | nil =>
    show Except.ok acc = Except.ok (acc ++ [])
    rw [List.append_nil]
  | cons layer next ih =>
    rw [layersToBytes, List.foldlM_cons, List.foldlM_cons]
    cases LayerBytes.toBytes layer with
    | error e => rfl
    | ok data =>
      show List.foldlM _ (acc ++ data) next = Except.map _ (List.foldlM _ data next)
      rw [ih, ih]
      cases layersToBytes next with
      | error e => rfl
      | ok tail =>
        show Except.ok (acc ++ data ++ tail) = Except.ok (acc ++ (data ++ tail))
        rw [List.append_assoc]

@[simp] theorem layersToBytes_nil : layersToBytes ([] : List L) = .ok [] := rfl

/-- A list of layers is serialised layer by layer. -/
theorem layersToBytes_cons {layer : L} {layers : List L} :
    layersToBytes (layer :: layers) = (do
      let data ← LayerBytes.toBytes layer
      let tail ← layersToBytes layers
      return data ++ tail) := by
  rw [layersToBytes, List.foldlM_cons]
  cases LayerBytes.toBytes layer with
  | error e => rfl
  | ok data =>
    show List.foldlM _ data layers = _
    rw [foldlM_toBytes]
    cases layersToBytes layers <;> rfl

/-- The bytes of two lists are those of the first and then those of the second. -/
theorem layersToBytes_append {xs ys : List L} :
    layersToBytes (xs ++ ys) = (do
      let data ← layersToBytes xs
      let tail ← layersToBytes ys
      return data ++ tail) := by
  rw [layersToBytes, List.foldlM_append, ← layersToBytes]
  cases layersToBytes xs with
  | error e => rfl
  | ok data =>
    show List.foldlM _ data ys = _
    rw [foldlM_toBytes]
    cases layersToBytes ys <;> rfl

/-- The bytes of a list are those of its first layer and those of the others. -/
theorem layersToBytes_cons_eq_ok {layer : L} {layers : List L} {bytes : Bytes} :
    layersToBytes (layer :: layers) = .ok bytes ↔
      ∃ data tail, LayerBytes.toBytes layer = .ok data ∧ layersToBytes layers = .ok tail ∧
        bytes = data ++ tail := by
  rw [layersToBytes_cons]
  simp only [except_bind_eq_ok]
  constructor
  · rintro ⟨data, hd, tail, htail, h⟩
    exact ⟨data, tail, hd, htail, (Except.ok.inj h).symm⟩
  · rintro ⟨data, tail, hd, htail, rfl⟩
    exact ⟨data, hd, tail, htail, rfl⟩

/-- The bytes of one layer alone. -/
theorem layersToBytes_singleton {layer : L} {bytes : Bytes} :
    layersToBytes [layer] = .ok bytes ↔ LayerBytes.toBytes layer = .ok bytes := by
  rw [layersToBytes_cons_eq_ok]
  constructor
  · rintro ⟨data, _, hd, htail, rfl⟩
    cases htail
    rwa [List.append_nil]
  · intro h
    exact ⟨bytes, [], h, rfl, (List.append_nil bytes).symm⟩

/-- A list is serialised part by part. -/
theorem layersToBytes_append_eq_ok {xs ys : List L} {bytes : Bytes} :
    layersToBytes (xs ++ ys) = .ok bytes ↔
      ∃ data tail, layersToBytes xs = .ok data ∧ layersToBytes ys = .ok tail ∧
        bytes = data ++ tail := by
  rw [layersToBytes_append]
  simp only [except_bind_eq_ok]
  constructor
  · rintro ⟨data, hd, tail, htail, h⟩
    exact ⟨data, tail, hd, htail, (Except.ok.inj h).symm⟩
  · rintro ⟨data, tail, hd, htail, rfl⟩
    exact ⟨data, hd, tail, htail, rfl⟩

end Lists

end Nata
