/-
  The layers of the crate among boxed layers of any kind.

  `finalize` is handed the layers before and behind as `LayerOwned`, and a user of the crate may put
  layers of his own there.  The layers of the crate do not mind: they serialise and measure what is
  behind, and ask whether what is before is an IP layer.  So each of them is finalised among any
  type of boxed layers (`Layer.finalizeAmong`), and a type of boxed layers is one that has a box for
  them (`LayerOwned`).
-/
import Nata.Layer.BuiltIn
import Nata.Packet.Basic

namespace Nata

section

variable [Deku]

/-- `finalize` of a layer of the crate between boxed layers. -/
def Layer.finalizeAmong {L : Type} [LayerBytes L] [GetIp L] (prev next : List L) :
    Method LayerError Layer Unit
  | .ether e => Method.zoom .ether (e.finalize prev next)
  | .ipv4 h => Method.zoom .ipv4 (h.finalize prev next)
  | .ipv6 h => Method.zoom .ipv6 (h.finalize prev next)
  | .tcp t => Method.zoom .tcp (t.finalize prev next)
  | .udp u => Method.zoom .udp (u.finalize prev next)
  | .icmp4 i => Method.zoom .icmp4 (i.finalize prev next)
  | .raw r => Method.zoom .raw (r.finalize prev next)

/-- Among the layers of the crate it is the `finalize` of the layer trait. -/
theorem Layer.finalizeAmong_eq (prev next : List Layer) (layer : Layer) :
    layer.finalizeAmong prev next = LayerExt.finalize prev next layer := by
  cases layer <;> rfl

/-- A boxed layer that implements the layer trait: one of the crate, or one of a user. -/
class LayerOwned (L : Type) extends LayerExt L, GetIp L where
  box : Layer → L
  toBytes_box : ∀ layer, LayerBytes.toBytes (box layer) = layer.toBytes
  length_box : ∀ layer, LayerBytes.length (box layer) = layer.toBytes.map List.length
  getIp_box : ∀ layer, GetIp.getIpv4 (box layer) = GetIp.getIpv4 layer ∧
    GetIp.getIpv6 (box layer) = GetIp.getIpv6 layer
  finalize_box : ∀ prev next layer, LayerExt.finalize prev next (box layer) =
    Method.zoom box (layer.finalizeAmong prev next)

instance : LayerOwned Layer where
  box := id
  toBytes_box _ := rfl
  length_box _ := rfl
  getIp_box _ := ⟨rfl, rfl⟩
  finalize_box prev next layer := by
    show LayerExt.finalize prev next layer = _
    rw [Layer.finalizeAmong_eq]
    cases LayerExt.finalize prev next layer <;> rfl

end

end Nata
