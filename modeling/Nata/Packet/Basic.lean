/-
  Packets: a list of layers, finalised from the outermost layer inwards.

  `Packet.finalize` visits the layers in order.  When it comes to a layer, the layers before it
  have been finalised and the layers behind it have not; the layer sees both.  `Finalized` is that
  pass as a relation between the layers before and after, and every property of `finalize` is an
  induction on it.
-/
import Nata.Layer.Basic

namespace Nata

/-- Error parsing or generating a packet -/
inductive PacketError
  /-- Recoverable error containing the amount of bytes required to continue parsing -/
  | incomplete (size : Nat)
  /-- Error parsing a layer -/
  | layerError (err : LayerError)
  deriving DecidableEq, Repr

/-- `From<LayerError> for PacketError` -/
def PacketError.ofLayerError : LayerError → PacketError
  | .incomplete size => .incomplete size
  | err => .layerError err

/-- A packet is simply a collection of layers. -/
structure Packet (L : Type) where
  layers : List L
  deriving DecidableEq

/-- The loop of `Packet::finalize`, with the layers already visited and those still to come.  An
    error leaves the packet as it is by then. -/
def finalizeFrom {L : Type} [LayerExt L] (prev : List L) :
    List L → EStateM.Result PacketError (List L) Unit
  | [] => .ok () prev
  | layer :: next =>
    match LayerExt.finalize prev next layer with
    | .ok () layer => finalizeFrom (prev ++ [layer]) next
    | .error e layer => .error (.ofLayerError e) (prev ++ layer :: next)

namespace Packet

variable {L : Type}

/-- Finalize a packet: call finalize on each layer. -/
def finalize [LayerExt L] : Method PacketError (Packet L) Unit :=
  fun self => Method.zoom Packet.mk (finalizeFrom [] self.layers)

/-- Packet to bytes -/
def toBytes [LayerBytes L] (self : Packet L) : Except PacketError Bytes :=
  match layersToBytes self.layers with
  | .ok bytes => .ok bytes
  | .error e => .error (.ofLayerError e)

theorem toBytes_eq_ok [LayerBytes L] {self : Packet L} {bytes : Bytes} :
    self.toBytes = .ok bytes ↔ layersToBytes self.layers = .ok bytes := by
  unfold toBytes
  cases layersToBytes self.layers <;> simp

end Packet

/-- What a pass has finalised is not touched any more, whatever its outcome. -/
theorem left_finalizeFrom {L : Type} [LayerExt L] (prev rest : List L) :
    ∃ rest', Method.left (finalizeFrom prev rest) = prev ++ rest' := by
  induction rest generalizing prev with
  | nil => exact ⟨[], (List.append_nil prev).symm⟩
  | cons layer next ih =>
    unfold finalizeFrom
    cases LayerExt.finalize prev next layer with
    | error e layer' => exact ⟨layer' :: next, rfl⟩
    | ok u layer' =>
      obtain ⟨next', hnext⟩ := ih (prev ++ [layer'])
      exact ⟨layer' :: next', hnext.trans (List.append_cons prev layer' next').symm⟩

/-! ## The pass as a relation -/

/-- Finalising `rest` behind the finalised layers `prev` gives `rest'`. -/
inductive Finalized {L : Type} [LayerExt L] : List L → List L → List L → Prop
  | nil {prev} : Finalized prev [] []
  | cons {prev layer next layer' next'} :
      LayerExt.finalize prev next layer = .ok () layer' →
      Finalized (prev ++ [layer']) next next' →
      Finalized prev (layer :: next) (layer' :: next')

section

variable {L : Type} [LayerExt L]

theorem finalizeFrom_eq_ok {prev rest done : List L} :
    finalizeFrom prev rest = .ok () done ↔ ∃ rest', Finalized prev rest rest' ∧
      done = prev ++ rest' := by
  induction rest generalizing prev with
  | nil =>
    constructor
    · intro h
      cases h
      exact ⟨[], .nil, (List.append_nil _).symm⟩
    · rintro ⟨_, h, rfl⟩
      cases h
      rw [List.append_nil]
      rfl
  | cons layer next ih =>
    constructor
    · intro h
      cases hl : LayerExt.finalize prev next layer with
      | error e layer' =>
        rw [finalizeFrom, hl] at h
        cases h
      | ok u layer' =>
        rw [finalizeFrom, hl] at h
        obtain ⟨next', hnext, rfl⟩ := ih.mp h
        exact ⟨layer' :: next', .cons hl hnext, (List.append_cons prev layer' next').symm⟩
    · rintro ⟨_, h, rfl⟩
      cases h with
      | cons hl hnext =>
        rw [finalizeFrom, hl]
        exact ih.mpr ⟨_, hnext, List.append_cons ..⟩

/-- **A packet is finalised by one pass over its layers.** -/
theorem Packet.finalize_eq_ok {packet packet' : Packet L} :
    packet.finalize = .ok () packet' ↔ Finalized [] packet.layers packet'.layers := by
  unfold Packet.finalize
  rw [Method.zoom_eq_ok]
  constructor
  · rintro ⟨layers, h, rfl⟩
    obtain ⟨rest', hrest, rfl⟩ := finalizeFrom_eq_ok.mp h
    exact hrest
  · intro h
    exact ⟨packet'.layers, finalizeFrom_eq_ok.mpr ⟨_, h, rfl⟩, rfl⟩

/-! ## A pass that ends early -/

/-- Finalising `xs` behind the finalised layers `prev`, with `ys` still to come, gives `xs'`. -/
inductive Passed : List L → List L → List L → List L → Prop
  | nil {prev ys} : Passed prev [] ys []
  | cons {prev layer next ys layer' next'} :
      LayerExt.finalize prev (next ++ ys) layer = .ok () layer' →
      Passed (prev ++ [layer']) next ys next' →
      Passed prev (layer :: next) ys (layer' :: next')

/-- A pass that succeeds comes by all layers. -/
theorem Finalized.passed {prev rest rest' : List L} (h : Finalized prev rest rest') :
    Passed prev rest [] rest' := by
  induction h with
  | nil => exact .nil
  | @cons prev layer next layer' next' hlayer _ ih =>
    exact .cons (by rwa [List.append_nil]) ih

/-- A pass that fails has finalised the layers before, and not come to the layers behind. -/
theorem finalizeFrom_eq_error {prev rest done : List L} {e : PacketError} :
    finalizeFrom prev rest = .error e done ↔
      ∃ before layer behind before' layer' err, rest = before ++ layer :: behind ∧
        Passed prev before (layer :: behind) before' ∧
        LayerExt.finalize (prev ++ before') behind layer = .error err layer' ∧
        e = .ofLayerError err ∧ done = prev ++ (before' ++ layer' :: behind) := by
  induction rest generalizing prev with
  | nil =>
    constructor
    · intro h
      cases h
    · rintro ⟨before, layer, behind, _, _, _, h, -⟩
      exact absurd h.symm (List.append_ne_nil_of_right_ne_nil before (List.cons_ne_nil _ _))
  | cons first rest ih =>
    cases hfirst : LayerExt.finalize prev rest first with
    | error err first' =>
      rw [finalizeFrom, hfirst]
      constructor
      · intro h
        cases h
        exact ⟨[], first, rest, [], first', err, rfl, .nil, by rwa [List.append_nil], rfl, rfl⟩
      · rintro ⟨before, layer, behind, before', layer', err', hrest, hpassed, hlayer, rfl, rfl⟩
        cases hpassed with
        | nil =>
          cases hrest
          rw [List.append_nil, hfirst] at hlayer
          cases hlayer
          rfl
        | cons hok _ =>
          cases hrest
          cases hfirst.symm.trans hok
    | ok u first' =>
      rw [finalizeFrom, hfirst]
      show finalizeFrom (prev ++ [first']) rest = _ ↔ _
      rw [ih]
      constructor
      · rintro ⟨before, layer, behind, before', layer', err, rfl, hpassed, hlayer, rfl, rfl⟩
        rw [← List.append_cons] at hlayer
        exact ⟨first :: before, layer, behind, first' :: before', layer', err, rfl,
          .cons hfirst hpassed, hlayer, rfl, (List.append_cons ..).symm⟩
      · rintro ⟨before, layer, behind, before', layer', err, hrest, hpassed, hlayer, rfl, rfl⟩
        cases hpassed with
        | nil =>
          cases hrest
          rw [List.append_nil, hfirst] at hlayer
          cases hlayer
        | cons hok hnext =>
          cases hrest
          cases hfirst.symm.trans hok
          rw [List.append_cons] at hlayer
          exact ⟨_, layer, behind, _, layer', err, rfl, hnext, hlayer, rfl, List.append_cons ..⟩

/-- **A packet whose finalize fails** is finalised up to some layer. -/
theorem Packet.finalize_eq_error {packet packet' : Packet L} {e : PacketError} :
    packet.finalize = .error e packet' ↔
      ∃ before layer behind before' layer' err, packet.layers = before ++ layer :: behind ∧
        Passed [] before (layer :: behind) before' ∧
        LayerExt.finalize before' behind layer = .error err layer' ∧
        e = .ofLayerError err ∧ packet'.layers = before' ++ layer' :: behind := by
  unfold Packet.finalize
  rw [Method.zoom_eq_error]
  simp only [finalizeFrom_eq_error, List.nil_append]
  constructor
  · rintro ⟨_, h, rfl⟩
    exact h
  · intro h
    exact ⟨packet'.layers, h, rfl⟩

/-- Positions behind a first part of the layers are positions in the second. -/
theorem getElem?_length_add {L : Type} (xs ys : List L) (i : Nat) :
    (xs ++ ys)[xs.length + i]? = ys[i]? := by
  rw [List.getElem?_append_right (Nat.le_add_right _ _), Nat.add_sub_cancel_left]

/-- The pass comes by every layer, with the layers before it finalised. -/
theorem Finalized.of_append {prev xs ys zs : List L} (h : Finalized prev (xs ++ ys) zs) :
    ∃ xs' ys', zs = xs' ++ ys' ∧ xs'.length = xs.length ∧ Finalized (prev ++ xs') ys ys' := by
  induction xs generalizing prev zs with
  | nil => exact ⟨[], zs, rfl, rfl, by rwa [List.append_nil]⟩
  | cons x xs ih =>
    cases h with
    | @cons _ _ _ x' _ hx hnext =>
      obtain ⟨xs', ys', rfl, hlen, hys⟩ := ih hnext
      refine ⟨x' :: xs', ys', rfl, by rw [List.length_cons, List.length_cons, hlen], ?_⟩
      rwa [List.append_cons]

/-- What the pass makes of one layer: the layers before it are finalised, those behind it are as they
    were. -/
theorem Packet.finalize_at {packet packet' : Packet L} {before rest : List L} {layer : L}
    (hlayers : packet.layers = before ++ layer :: rest) (hfin : packet.finalize = .ok () packet') :
    ∃ before' layer' rest', packet'.layers[before.length]? = some layer' ∧
      packet'.layers.drop (before.length + 1) = rest' ∧
      LayerExt.finalize before' rest layer = .ok () layer' ∧
      Finalized (before' ++ [layer']) rest rest' := by
  have hpass := Packet.finalize_eq_ok.mp hfin
  rw [hlayers] at hpass
  obtain ⟨before', behind', hlayers', hlen, hbehind⟩ := hpass.of_append
  cases hbehind with
  | @cons _ _ _ layer' rest' hlayer hrest =>
    rw [hlayers', ← hlen]
    exact ⟨before', layer', rest', getElem?_length_add before' _ 0,
      List.drop_length_add_append 1, hlayer, hrest⟩

/-- The pass changes nothing exactly when no layer changes between the others as they are. -/
theorem Finalized.self_iff {prev rest : List L} :
    Finalized prev rest rest ↔ ∀ xs layer ys, rest = xs ++ layer :: ys →
      LayerExt.finalize (prev ++ xs) ys layer = .ok () layer := by
  induction rest generalizing prev with
  | nil =>
    constructor
    · rintro - xs layer ys h
      exact absurd h.symm (List.append_ne_nil_of_right_ne_nil xs (List.cons_ne_nil _ _))
    · intro _
      exact .nil
  | cons first rest ih =>
    constructor
    · rintro (_ | ⟨hfirst, hrest⟩) xs layer ys h
      rcases List.cons_eq_append_iff.mp h with ⟨rfl, hl⟩ | ⟨xs', rfl, hl⟩
      · cases hl
        rwa [List.append_nil]
      · have hlayer := ih.mp hrest xs' layer ys hl
        rwa [List.append_assoc] at hlayer
    · intro h
      refine .cons ?_ (ih.mpr fun xs layer ys hl => ?_)
      · have hfirst := h [] first rest rfl
        rwa [List.append_nil] at hfirst
      · have hlayer := h (first :: xs) layer ys (by rw [hl, List.cons_append])
        rwa [List.append_cons] at hlayer

end

end Nata
