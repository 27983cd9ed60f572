/-
  The Ethernet layer: two addresses and the type of the payload.
-/
import Nata.Layer.Basic
import Nata.Layer.Ether.EtherType

namespace Nata

/-- Type representing an ethernet mac address -/
structure MacAddress where
  bytes : List.Vector (BitVec 8) 6
  deriving DecidableEq

/-- Ethernet Frame Header -/
structure Ether where
  /-- Destination mac address -/
  dst : MacAddress
  /-- Source mac address -/
  src : MacAddress
  /-- Protocol type of the payload -/
  etherType : EtherType
  deriving DecidableEq

/-- The format of an address: six bytes. -/
def MacAddress.codec : Field MacAddress :=
  (Codec.uint.array 6).iso mk bytes (fun _ => rfl) fun _ => rfl

/-- An address takes 48 bits. -/
theorem MacAddress.sized_codec : MacAddress.codec.Sized 48 := (Codec.sized_uint.array 6).iso

instance : Inhabited MacAddress := ⟨⟨.replicate 6 0⟩⟩

instance : Inhabited Ether := ⟨⟨default, default, default⟩⟩

namespace Ether

/-- The format of the header: the destination comes first. -/
def codec : Field Ether :=
  (MacAddress.codec.andThen (MacAddress.codec.andThen EtherType.codec)).iso
    (fun (dst, src, etherType) => ⟨dst, src, etherType⟩)
    (fun ether => (ether.dst, ether.src, ether.etherType)) (fun _ => rfl) fun _ => rfl

/-- Nothing depends on the other layers. -/
def finalize {L : Type} (_prev _next : List L) : Method LayerError Ether Unit := return ()

/-- Read a header, and return what is behind it. -/
def parse [Deku] (input : Bytes) : Except LayerError (Bytes × Ether) := derivedParse codec input

/-- The header on the wire. -/
def toBytes [Deku] (ether : Ether) : Except LayerError Bytes := derivedToBytes codec ether

/-- Nothing is finalised. -/
theorem finalize_eq_ok {L : Type} {prev next : List L} {ether ether' : Ether} :
    finalize prev next ether = .ok () ether' ↔ ether' = ether :=
  Method.pure_eq_ok.trans (and_iff_right rfl)

/-- The header takes 112 bits. -/
theorem sized_codec : codec.Sized 112 :=
  (MacAddress.sized_codec.seq fun _ =>
    MacAddress.sized_codec.seq fun _ => EtherType.codes.sized_codec).iso

/-- The header takes 14 bytes. -/
theorem length_toBytes [Deku] {ether : Ether} {bytes : Bytes} (h : ether.toBytes = .ok bytes) :
    bytes.length = 14 := length_derivedToBytes (k := 14) sized_codec h

end Ether

end Nata
