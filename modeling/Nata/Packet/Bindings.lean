/-
  The default layer bindings.

  `createPacketparser` registers them one by one.  `nextType` is the table they amount to: the type
  of the layer that may follow a layer, if any.  Nothing follows an `Icmp4` or a `Raw` layer, whose
  formats read to the end of the input.
-/
import Nata.Layer.BuiltIn
import Nata.Packet.Parser

namespace Nata

instance : TypeIds LayerType Layer where
  typeId := Layer.typeId

instance : LayerOf LayerType Layer Ether where
  id := .Ether
  box := .ether
  getLayer
    | .ether e => some e
    | _ => none
  typeId_box _ := rfl
  getLayer_box _ := rfl
  isSome_getLayer layer h := by cases layer <;> first | rfl | cases h

instance : LayerOf LayerType Layer Ipv4 where
  id := .Ipv4
  box := .ipv4
  getLayer
    | .ipv4 h => some h
    | _ => none
  typeId_box _ := rfl
  getLayer_box _ := rfl
  isSome_getLayer layer h := by cases layer <;> first | rfl | cases h

instance : LayerOf LayerType Layer Ipv6 where
  id := .Ipv6
  box := .ipv6
  getLayer
    | .ipv6 h => some h
    | _ => none
  typeId_box _ := rfl
  getLayer_box _ := rfl
  isSome_getLayer layer h := by cases layer <;> first | rfl | cases h

instance : LayerOf LayerType Layer Tcp where
  id := .Tcp
  box := .tcp
  getLayer
    | .tcp t => some t
    | _ => none
  typeId_box _ := rfl
  getLayer_box _ := rfl
  isSome_getLayer layer h := by cases layer <;> first | rfl | cases h

instance : LayerOf LayerType Layer Udp where
  id := .Udp
  box := .udp
  getLayer
    | .udp u => some u
    | _ => none
  typeId_box _ := rfl
  getLayer_box _ := rfl
  isSome_getLayer layer h := by cases layer <;> first | rfl | cases h

namespace PacketParser

variable [Deku]

/-- Create a packet parser with a set of bindings using layers defined in the crate. -/
def createPacketparser : PacketParser Layer :=
  let pb : PacketParser Layer := withoutBindings
  let pb := pb.bindLayer fun (ether : Ether) _rest =>
    match ether.etherType with
    | .IPv4 => some (Layer.parse .Ipv4)
    | .IPv6 => some (Layer.parse .Ipv6)
    | _ => some (Layer.parse .Raw)
  let pb := pb.bindLayer fun (ipv4 : Ipv4) _rest =>
    match ipv4.protocol with
    | .TCP => some (Layer.parse .Tcp)
    | .UDP => some (Layer.parse .Udp)
    | .ICMP => some (Layer.parse .Icmp4)
    | _ => some (Layer.parse .Raw)
  let pb := pb.bindLayer fun (ipv6 : Ipv6) _rest =>
    match ipv6.nextHeader with
    | .TCP => some (Layer.parse .Tcp)
    | .UDP => some (Layer.parse .Udp)
    | _ => some (Layer.parse .Raw)
  let pb := pb.bindLayer fun (_tcp : Tcp) _rest => some (Layer.parse .Raw)
  let pb := pb.bindLayer fun (_udp : Udp) _rest => some (Layer.parse .Raw)
  pb

/-- Create a packet parser with default bindings. -/
def new : PacketParser Layer := createPacketparser

end PacketParser

/-! ## The table of the default bindings -/

/-- The type that follows an Ethernet header. -/
def EtherType.nextType : EtherType → LayerType
  | .IPv4 => .Ipv4
  | .IPv6 => .Ipv6
  | _ => .Raw

/-- The type that follows an IPv4 header. -/
def IpProtocol.nextType4 : IpProtocol → LayerType
  | .TCP => .Tcp
  | .UDP => .Udp
  | .ICMP => .Icmp4
  | _ => .Raw

/-- The type that follows an IPv6 header; ICMP does not. -/
def IpProtocol.nextType6 : IpProtocol → LayerType
  | .TCP => .Tcp
  | .UDP => .Udp
  | _ => .Raw

/-- The type of the layer that the default bindings choose to follow a layer. -/
def Layer.nextType : Layer → Option LayerType
  | .ether e => some e.etherType.nextType
  | .ipv4 h => some h.protocol.nextType4
  | .ipv6 h => some h.nextHeader.nextType6
  | .tcp _ | .udp _ => some .Raw
  | .icmp4 _ | .raw _ => none

/-- The layers form a path of the binding table: each is of the type that the one before selects. -/
def IsPath : List Layer → Prop :=
  List.IsChain fun layer next => layer.nextType = some next.typeId

namespace PacketParser

variable [Deku]

/-- **The default bindings are the table.** -/
theorem nextLayerParser_new (layer : Layer) (rest : Bytes) :
    new.nextLayerParser layer rest = layer.nextType.map Layer.parse := by
  have hone : ∀ {r : Option (ParseFn Layer)} {t : LayerType}, r = some (Layer.parse t) →
      [r].findSome? id = (some t).map Layer.parse := by
    rintro _ t rfl
    rfl
  cases layer with
  | ether e =>
    refine hone (r := match e.etherType with
      | .IPv4 => some (Layer.parse .Ipv4)
      | .IPv6 => some (Layer.parse .Ipv6)
      | _ => some (Layer.parse .Raw)) ?_
    unfold EtherType.nextType
    split <;> rfl
  | ipv4 h =>
    refine hone (r := match h.protocol with
      | .TCP => some (Layer.parse .Tcp)
      | .UDP => some (Layer.parse .Udp)
      | .ICMP => some (Layer.parse .Icmp4)
      | _ => some (Layer.parse .Raw)) ?_
    unfold IpProtocol.nextType4
    split <;> rfl
  | ipv6 h =>
    refine hone (r := match h.nextHeader with
      | .TCP => some (Layer.parse .Tcp)
      | .UDP => some (Layer.parse .Udp)
      | _ => some (Layer.parse .Raw)) ?_
    unfold IpProtocol.nextType6
    split <;> rfl
  | tcp t => rfl
  | udp u => rfl
  | icmp4 i => rfl
  | raw r => rfl

/-- The default bindings consume input: every header has at least one byte, and the data of a Raw
    layer is the input it is parsed from. -/
theorem consuming_new : new.Consuming := by
  intro layer input next hne hnext rest layer' hparse
  rw [nextLayerParser_new] at hnext
  obtain ⟨t, -, rfl⟩ := Option.map_eq_some_iff.mp hnext
  obtain ⟨ht, -, hrest, bytes, hbytes, rfl⟩ := Layer.parse_eq_ok.mp hparse
  have hpos : bytes ≠ [] := by
    refine Layer.toBytes_ne_nil hbytes ?_
    rintro r rfl hdata
    -- A Raw layer without data would have been parsed from no input.
    rw [← ht] at hrest
    rw [hrest trivial, List.append_nil] at hne
    exact hne ((Except.ok.inj (hbytes.symm.trans (Raw.toBytes_eq r))).trans hdata)
  have := List.length_pos_iff.mpr hpos
  rw [List.length_append]
  omega

/-- `PacketParser::new().parse_packet::<T>(input)` for a layer type `T` of the crate. -/
def parseNew (t : LayerType) (input : Bytes) : Except PacketError (Bytes × Packet Layer) :=
  new.parsePacket consuming_new (Layer.parse t) input

theorem parses_new_iff {t : LayerType} {input : Bytes}
    {r : Except PacketError (Bytes × Packet Layer)} :
    new.Parses (Layer.parse t) input r ↔ parseNew t input = r := parses_iff consuming_new

end PacketParser

/-- A frame with a UDP datagram over IPv4, every length and checksum in place. -/
@[irreducible] def udpFrame : Bytes :=
  [0x02, 0x00, 0x00, 0x00, 0x00, 0x01, 0x02, 0x00, 0x00, 0x00, 0x00, 0x02, 0x08, 0x00,
   0x45, 0x00, 0x00, 0x20, 0x00, 0x01, 0x00, 0x00, 0x40, 0x11, 0x66, 0xca,
   0x0a, 0x00, 0x00, 0x01, 0x0a, 0x00, 0x00, 0x02,
   0x00, 0x35, 0x00, 0x36, 0x00, 0x0c, 0x0c, 0x98, 0x70, 0x69, 0x6e, 0x67]

end Nata
