/-
  The two ways of measuring a list of layers.

  `length_of_layers` adds up lengths and `layers_to_bytes` strings bytes together; the IP layers use
  the one and the transport layers the other.  Both are folds that stop at the first error, and a
  layer that keeps the default `length` measures itself by serialising.  So the two folds stop at
  the same layer with the same error, and otherwise one is the length of the other, as long as the
  lengths fit a `usize` (`lengthOfLayers_eq`).
-/
import Nata.Layer.Basic

namespace Nata

section

variable {L : Type} [LayerBytes L]

/-- The layer keeps the default `length`. -/
def DefaultLength (layer : L) : Prop :=
  LayerBytes.length layer = (LayerBytes.toBytes layer).map List.length

/-- The total serialised size.  What stands behind a layer that cannot be serialised does not
    count. -/
def serializedSize : List L → Nat
  | [] => 0
  | layer :: next =>
    match LayerBytes.toBytes layer with
    | .ok data => data.length + serializedSize next
    | .error _ => 0

/-- `e` is the error of the first layer that cannot be serialised. -/
def FirstError (layers : List L) (e : LayerError) : Prop :=
  ∃ before layer after data, layers = before ++ layer :: after ∧
    layersToBytes before = .ok data ∧ LayerBytes.toBytes layer = .error e

/-- The size of a list that can be serialised. -/
theorem serializedSize_eq {layers : List L} {bytes : Bytes} (h : layersToBytes layers = .ok bytes) :
    serializedSize layers = bytes.length := by
  induction layers generalizing bytes with
  | nil =>
    cases h
    rfl
  | cons layer next ih =>
    obtain ⟨data, tail, hdata, htail, rfl⟩ := layersToBytes_cons_eq_ok.mp h
    rw [serializedSize, hdata, List.length_append, ← ih htail]

/-! ## The fold over bytes -/

/-- Serialising stops at the first error, and nothing else stops it. -/
theorem layersToBytes_eq_error {layers : List L} {e : LayerError} :
    layersToBytes layers = .error e ↔ FirstError layers e := by
  constructor
  · intro h
    induction layers with
    | nil => cases h
    | cons layer next ih =>
      rw [layersToBytes_cons] at h
      rcases except_bind_eq_error.mp h with hlayer | ⟨data, hdata, hnext⟩
      · exact ⟨[], layer, next, [], rfl, rfl, hlayer⟩
      · rcases except_bind_eq_error.mp hnext with hnext | ⟨_, -, hpure⟩
        · obtain ⟨before, first, after, tail, rfl, htail, hfirst⟩ := ih hnext
          exact ⟨layer :: before, first, after, data ++ tail, rfl,
            layersToBytes_cons_eq_ok.mpr ⟨data, tail, hdata, htail, rfl⟩, hfirst⟩
        · cases hpure
  · rintro ⟨before, layer, after, data, rfl, hbefore, hlayer⟩
    rw [layersToBytes_append, hbefore, layersToBytes_cons, hlayer]
    rfl

/-! ## The fold over lengths -/

/-- The accumulator is the length of what lies before; the addition that leaves `usize` ends the
    fold, if no layer has ended it before. -/
theorem foldlM_length {layers : List L} (hlen : ∀ layer ∈ layers, DefaultLength layer) {acc : Nat}
    (hacc : acc < 2 ^ 64) :
    layers.foldlM (fun acc layer => do
      let len ← LayerBytes.length layer
      okOr (.finalize "Overflow occured when calculating ipv4 length field")
        (checkedAdd acc len)) acc =
      if acc + serializedSize layers < 2 ^ 64
        then (layersToBytes layers).map fun bytes => acc + bytes.length
        else .error (.finalize "Overflow occured when calculating ipv4 length field") := by
  induction layers generalizing acc with
  | nil =>
    rw [serializedSize, Nat.add_zero, if_pos hacc]
    rfl
  | cons layer next ih =>
    have hnext : ∀ layer ∈ next, DefaultLength layer :=
      fun layer hl => hlen layer (List.mem_cons_of_mem _ hl)
    have hlayer : DefaultLength layer := hlen layer List.mem_cons_self
    rw [List.foldlM_cons, hlayer, layersToBytes_cons]
    cases hdata : LayerBytes.toBytes layer with
    | error e =>
      have hsize : serializedSize (layer :: next) = 0 := by rw [serializedSize, hdata]
      rw [hsize, Nat.add_zero, if_pos hacc]
      rfl
    | ok data =>
      have hsize : serializedSize (layer :: next) = data.length + serializedSize next := by
        rw [serializedSize, hdata]
      rw [hsize]
      show (okOr _ (checkedAdd acc data.length) >>= _) = _
      by_cases hlt : acc + data.length < 2 ^ 64
      · rw [checkedAdd, if_pos hlt]
        show List.foldlM _ (acc + data.length) next = _
        rw [ih hnext hlt, Nat.add_assoc]
        show _ = if _ then Except.map _ ((layersToBytes next).bind _) else _
        cases layersToBytes next with
        | error e => rfl
        | ok tail =>
          show (if _ then Except.ok (acc + data.length + tail.length) else _) =
            if _ then Except.ok (acc + (data ++ tail).length) else _
          rw [List.length_append, Nat.add_assoc]
      · rw [checkedAdd, if_neg hlt, if_neg (by omega)]
        rfl

/-- **One fold is the length of the other**, or the total does not fit a `usize`. -/
theorem lengthOfLayers_eq {layers : List L} (hlen : ∀ layer ∈ layers, DefaultLength layer) :
    lengthOfLayers layers =
      if serializedSize layers < 2 ^ 64 then (layersToBytes layers).map List.length
        else .error (.finalize "Overflow occured when calculating ipv4 length field") := by
  have hfold := @foldlM_length L _ layers hlen 0 (by decide)
  simp only [Nat.zero_add] at hfold
  exact hfold

/-- Layers that measure themselves by serialising are together as long as their data, as far as a
    `usize` can tell. -/
theorem lengthOfLayers_eq_ok {layers : List L} (hlen : ∀ layer ∈ layers, DefaultLength layer)
    {n : Nat} :
    lengthOfLayers layers = .ok n ↔
      ∃ bytes, layersToBytes layers = .ok bytes ∧ n = bytes.length ∧ n < 2 ^ 64 := by
  rw [lengthOfLayers_eq hlen]
  constructor
  · intro h
    split at h
    next hsize =>
      obtain ⟨bytes, hbytes, rfl⟩ := except_map_eq_ok.mp h
      exact ⟨bytes, hbytes, rfl, serializedSize_eq hbytes ▸ hsize⟩
    next => cases h
  · rintro ⟨bytes, hbytes, rfl, hlt⟩
    rw [if_pos (serializedSize_eq hbytes ▸ hlt), hbytes]
    rfl

/-! ## Parts of a list -/

/-- A part is no larger than the whole. -/
theorem serializedSize_append_le (xs ys : List L) :
    serializedSize xs ≤ serializedSize (xs ++ ys) := by
  induction xs with
  | nil => exact Nat.zero_le _
  | cons x xs ih =>
    rw [List.cons_append, serializedSize, serializedSize]
    split
    · omega
    · exact Nat.le_refl 0

/-- Sizes add up, as long as the front can be serialised. -/
theorem serializedSize_append {xs ys : List L} {bytes : Bytes}
    (h : layersToBytes xs = .ok bytes) :
    serializedSize (xs ++ ys) = bytes.length + serializedSize ys := by
  induction xs generalizing bytes with
  | nil =>
    cases h
    rw [List.nil_append, List.length_nil, Nat.zero_add]
  | cons x xs ih =>
    obtain ⟨data, tail, hdata, htail, rfl⟩ := layersToBytes_cons_eq_ok.mp h
    rw [List.cons_append, serializedSize, hdata, List.length_append, Nat.add_assoc, ← ih htail]

/-- Within the range of a `usize` one measure is the length of the other. -/
theorem lengthOfLayers_of_lt {layers : List L} (hlen : ∀ layer ∈ layers, DefaultLength layer)
    (hsize : serializedSize layers < 2 ^ 64) :
    lengthOfLayers layers = (layersToBytes layers).map List.length := by
  rw [lengthOfLayers_eq hlen, if_pos hsize]

/-- The lengths of two parts add up. -/
theorem lengthOfLayers_append {xs ys : List L} (hlen : ∀ layer ∈ xs ++ ys, DefaultLength layer)
    (hsize : serializedSize (xs ++ ys) < 2 ^ 64) :
    lengthOfLayers (xs ++ ys) = (do
      let m ← lengthOfLayers xs
      let n ← lengthOfLayers ys
      return m + n) := by
  have hxs : ∀ layer ∈ xs, DefaultLength layer := fun l hl => hlen l (List.mem_append_left ys hl)
  have hys : ∀ layer ∈ ys, DefaultLength layer := fun l hl => hlen l (List.mem_append_right xs hl)
  have hle := serializedSize_append_le xs ys
  rw [lengthOfLayers_of_lt hlen hsize, lengthOfLayers_of_lt hxs (by omega), layersToBytes_append]
  cases hdata : layersToBytes xs with
  | error e => rfl
  | ok data =>
    have hadd : serializedSize (xs ++ ys) = _ := serializedSize_append hdata
    rw [lengthOfLayers_of_lt hys (by omega)]
    cases layersToBytes ys with
    | error e => rfl
    | ok tail =>
      show Except.ok (data ++ tail).length = Except.ok (data.length + tail.length)
      rw [List.length_append]

end

end Nata
