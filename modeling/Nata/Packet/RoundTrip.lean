/-
  Build, finalize, serialise, parse: the same packet comes back.

  Two things can go wrong between `to_bytes` and the parser.  A field may hold a value that the
  format cannot represent, so that what is read differs from what was written; and a field that
  DELIMITS something (`ihl`, `offset`, the length byte of an option, the selector of the next layer)
  may disagree with what it delimits.  `WellFormed` excludes both for the packet that is BUILT, before
  `finalize` is called.

  `finalize` keeps what it needs to keep.  The selector fields, the widths and the options of a
  layer stay, up to `EOL`s appended to TCP options; the one delimiting field that it sets, the TCP
  offset, it sets to what the parser will need (`Tcp.valid_of_finalize`).  So the finalised layers are
  representable, and a path of representable layers is parsed back (`parseNew_of_path`): the loop
  follows the path because each selector names the layer that comes next.
-/
import Nata.Layer.Ip.Grammar
import Nata.Layer.Tcp.Grammar
import Nata.Packet.Extension
import Nata.Packet.Lossless

namespace Nata

/-! ## Well-formed layers -/

/-- An `Unknown` type is not one that has a name. -/
def EtherType.WellFormed (etherType : EtherType) : Prop :=
  ∀ code, etherType = .Unknown code → ∀ a ∈ named, a.id ≠ code

/-- An `Unknown` protocol is not one that has a name. -/
def IpProtocol.WellFormed (protocol : IpProtocol) : Prop :=
  ∀ code, protocol = .Unknown code → ∀ a ∈ named, a.id ≠ code

/-- An `Unknown` type is not one that has a name. -/
def IcmpType.WellFormed (icmpType : IcmpType) : Prop :=
  ∀ code, icmpType = .Unknown code → ∀ a ∈ named, a.id ≠ code

/-- The fields of a header fit their bits, its options are well formed, and its length is theirs. -/
structure Ipv4.WellFormed [Deku] (ipv4 : Ipv4) : Prop where
  version : ipv4.version.toNat < 2 ^ 4
  ihl : ipv4.ihl.toNat < 2 ^ 4
  dscp : ipv4.dscp.toNat < 2 ^ 6
  ecn : ipv4.ecn.toNat < 2 ^ 2
  flags : ipv4.flags.toNat < 2 ^ 3
  offset : ipv4.offset.toNat < 2 ^ 13
  protocol : ipv4.protocol.WellFormed
  options : ∀ option ∈ ipv4.options, option.WellFormed
  /-- `ihl` is the size of the header in words, and so the header is at most 60 bytes. -/
  size : ipv4.toBytes.map List.length = .ok (4 * ipv4.ihl.toNat)

/-- The fields of a header fit their bits. -/
structure Ipv6.WellFormed (ipv6 : Ipv6) : Prop where
  version : ipv6.version.toNat < 2 ^ 4
  ds : ipv6.ds.toNat < 2 ^ 6
  ecn : ipv6.ecn.toNat < 2 ^ 2
  label : ipv6.label.toNat < 2 ^ 20
  nextHeader : ipv6.nextHeader.WellFormed

/-- Each flag is one bit. -/
structure TcpFlags.WellFormed (flags : TcpFlags) : Prop where
  reserved : flags.reserved.toNat < 2 ^ 3
  nonce : flags.nonce.toNat < 2 ^ 1
  crw : flags.crw.toNat < 2 ^ 1
  ecn : flags.ecn.toNat < 2 ^ 1
  urgent : flags.urgent.toNat < 2 ^ 1
  ack : flags.ack.toNat < 2 ^ 1
  push : flags.push.toNat < 2 ^ 1
  reset : flags.reset.toNat < 2 ^ 1
  syn : flags.syn.toNat < 2 ^ 1
  fin : flags.fin.toNat < 2 ^ 1

/-- The fields of a header fit their bits, and its options are well formed and leave room for
    padding. -/
structure Tcp.WellFormed [Deku] (tcp : Tcp) : Prop where
  offset : tcp.offset.toNat < 2 ^ 4
  flags : tcp.flags.WellFormed
  options : ∀ option ∈ tcp.options, option.WellFormed
  /-- The padded header has room in fifteen words. -/
  size : ∀ header, tcp.toBytes = .ok header → header.length + padAmt header.length ≤ 60

namespace Layer

/-- The field values that a builder of packets is expected to supply. -/
def WellFormed [Deku] : Layer → Prop
  | ether e => e.etherType.WellFormed
  | ipv4 h => h.WellFormed
  | ipv6 h => h.WellFormed
  | tcp t => t.WellFormed
  | udp _ => True
  | icmp4 i => i.icmpType.WellFormed
  | raw r => r.data ≠ [] ∧ r.bitOffset = 0

end Layer

/-- A packet as a builder is expected to supply it: an Ethernet frame whose layers are named by the
    selector fields in front of them. -/
structure Packet.WellFormed [Deku] (packet : Packet Layer) : Prop where
  head : packet.layers.head?.map Layer.typeId = some .Ether
  path : IsPath packet.layers
  layers : ∀ layer ∈ packet.layers, layer.WellFormed

/-! ## Well-formed values are representable -/

theorem EtherType.WellFormed.valid {etherType : EtherType} (h : etherType.WellFormed) :
    EtherType.codec.Valid etherType := ⟨trivial, EtherType.codes.ofId_id h⟩

theorem IpProtocol.WellFormed.valid {protocol : IpProtocol} (h : protocol.WellFormed) :
    IpProtocol.codec.Valid protocol := ⟨trivial, IpProtocol.codes.ofId_id h⟩

theorem IcmpType.WellFormed.valid {icmpType : IcmpType} (h : icmpType.WellFormed) :
    IcmpType.codec.Valid icmpType := ⟨trivial, IcmpType.codes.ofId_id h⟩

/-- Every address can be read. -/
theorem MacAddress.valid (mac : MacAddress) : MacAddress.codec.Valid mac :=
  Codec.valid_array (fun _ => trivial) 6 mac.bytes

section

variable [Deku]

theorem Ipv4Option.WellFormed.valid {option : Ipv4Option} (h : option.WellFormed) :
    Ipv4Option.codec.Valid option := (Ipv4Option.valid_iff option).mpr h

theorem TcpOption.WellFormed.valid {option : TcpOption} (h : option.WellFormed) :
    TcpOption.codec.Valid option := (TcpOption.valid_iff option).mpr h

theorem TcpFlags.WellFormed.valid {flags : TcpFlags} (h : flags.WellFormed) :
    TcpFlags.codec.Valid flags :=
  ⟨h.reserved, h.nonce, h.crw, h.ecn, h.urgent, h.ack, h.push, h.reset, h.syn, h.fin⟩

theorem Ipv6.WellFormed.valid {ipv6 : Ipv6} (h : ipv6.WellFormed) : Ipv6.codec.Valid ipv6 :=
  ⟨h.version, h.ds, h.ecn, h.label, trivial, h.nextHeader.valid, trivial, trivial, trivial⟩

/-- A header of `4 * ihl` bytes has the options that `ihl` announces. -/
theorem Ipv4.WellFormed.valid {ipv4 : Ipv4} (h : ipv4.WellFormed) : Ipv4.codec.Valid ipv4 := by
  obtain ⟨header, hheader, hsize⟩ := except_map_eq_ok.mp h.size
  obtain ⟨u, hu, hlen⟩ := Ipv4.length_toBytes hheader
  refine ⟨h.version, h.ihl, h.dscp, h.ecn, trivial, trivial, h.flags, h.offset, trivial,
    h.protocol.valid, trivial, trivial, trivial, fun o ho => (h.options o ho).valid,
    _, u, rfl, hu, ?_⟩
  show u.length = 8 * ((ipv4.ihl.toNat - 5) * 4)
  omega

/-! ## finalize keeps layers representable -/

/-- The offset that `finalize` sets delimits the padded options. -/
theorem Tcp.valid_of_finalize {prev next : List Layer} {tcp : Tcp} {layer : Layer}
    (h : tcp.WellFormed) (hfin : LayerExt.finalize prev next (.tcp tcp) = .ok () layer) :
    layer.Valid := by
  obtain ⟨header, checksum, hheader, -, hlt, rfl⟩ := Layer.finalize_tcp_eq_ok.mp hfin
  obtain ⟨z, hz, hlen⟩ := Tcp.length_toBytes hheader
  have hsize := h.size header hheader
  have hwords := Tcp.four_dvd_length_cleared header
  have hcleared := Tcp.length_cleared header
  have hoffset : (BitVec.ofNat 8 ((Tcp.cleared header).length / 4)).toNat =
      (Tcp.cleared header).length / 4 := Nat.mod_eq_of_lt hlt
  have hpad := Codec.writeVec_append_eq_ok.mpr
    ⟨z, _, hz, TcpOption.writeVec_replicate_EOL (Tcp.padAmt header.length), rfl⟩
  have hoptions : ∀ o ∈ tcp.options ++ List.replicate (Tcp.padAmt header.length) TcpOption.EOL,
      TcpOption.codec.Valid o := by
    intro o ho
    rcases List.mem_append.mp ho with ho | ho
    · exact (h.options o ho).valid
    · rw [List.eq_of_mem_replicate ho]
      exact ⟨trivial, rfl⟩
  refine ⟨trivial, trivial, trivial, trivial, ?_, h.flags.valid, trivial, trivial, trivial,
    hoptions, 4 * ((Tcp.cleared header).length / 4 - 5), _, ?_, hpad, ?_⟩
  · show (BitVec.ofNat 8 _).toNat < 2 ^ 4
    rw [hoffset]
    omega
  · refine Tcp.optionsSize_eq_ok.mpr ⟨?_, ?_, ?_⟩
    · show 5 ≤ (BitVec.ofNat 8 _).toNat
      rw [hoffset]
      omega
    · show _ = 4 * ((BitVec.ofNat 8 _).toNat - 5)
      rw [hoffset]
    · omega
  · rw [List.length_append, length_toBits, List.length_replicate]
    omega

/-- **What `finalize` keeps of a well-formed layer**: its type, the type it selects to follow, and
    that the format can represent it. -/
theorem Layer.finalize_wellFormed {prev next : List Layer} {layer layer' : Layer}
    (h : layer.WellFormed) (hfin : LayerExt.finalize prev next layer = .ok () layer') :
    layer'.typeId = layer.typeId ∧ layer'.nextType = layer.nextType ∧ layer'.Valid ∧
      ∀ r, layer' = raw r → r.data ≠ [] := by
  cases layer with
  | ether e =>
    obtain rfl := finalize_ether_eq_ok.mp hfin
    exact ⟨rfl, rfl, ⟨e.dst.valid, e.src.valid, EtherType.WellFormed.valid h⟩, nofun⟩
  | ipv4 v =>
    obtain ⟨_, _, -, -, -, _, -, rfl⟩ := finalize_ipv4_eq_ok.mp hfin
    -- Neither the length nor the checksum has anything to do with being representable.
    have hvalid : Ipv4.codec.Valid v := Ipv4.WellFormed.valid h
    exact ⟨rfl, rfl, hvalid, nofun⟩
  | ipv6 v =>
    obtain ⟨_, -, -, rfl⟩ := finalize_ipv6_eq_ok.mp hfin
    have hvalid : Ipv6.codec.Valid v := Ipv6.WellFormed.valid h
    exact ⟨rfl, rfl, hvalid, nofun⟩
  | tcp t =>
    have hvalid := Tcp.valid_of_finalize h hfin
    obtain ⟨_, _, -, -, -, rfl⟩ := finalize_tcp_eq_ok.mp hfin
    exact ⟨rfl, rfl, hvalid, nofun⟩
  | udp u =>
    obtain ⟨_, -, -, rfl⟩ := finalize_udp_eq_ok.mp hfin
    exact ⟨rfl, rfl, ⟨trivial, trivial, trivial, trivial⟩, nofun⟩
  | icmp4 i =>
    obtain rfl := finalize_icmp4_eq_ok.mp hfin
    exact ⟨rfl, rfl, ⟨IcmpType.WellFormed.valid h, trivial, trivial, trivial, fun _ _ => trivial⟩,
      nofun⟩
  | raw r =>
    obtain rfl := finalize_raw_eq_ok.mp hfin
    obtain ⟨hdata, hoff⟩ : r.data ≠ [] ∧ r.bitOffset = 0 := h
    refine ⟨rfl, rfl, ⟨fun _ _ => trivial, ?_⟩, ?_⟩
    · rw [← hoff]
    · rintro _ ⟨⟩
      exact hdata

/-- The finalised layers are a path of representable layers, of the same types. -/
theorem Finalized.of_wellFormed {prev layers layers' : List Layer}
    (h : Finalized prev layers layers') (hwf : ∀ layer ∈ layers, layer.WellFormed)
    (hpath : IsPath layers) :
    layers'.map Layer.typeId = layers.map Layer.typeId ∧ IsPath layers' ∧
      ∀ layer ∈ layers', layer.Valid ∧ ∀ r, layer = .raw r → r.data ≠ [] := by
  induction h with
  | nil => exact ⟨rfl, hpath, fun layer hlayer => absurd hlayer List.not_mem_nil⟩
  | @cons prev layer next layer' next' hlayer hnext ih =>
    obtain ⟨hwf₁, hwf₂⟩ := List.forall_mem_cons.mp hwf
    obtain ⟨htype, hnextType, hvalid⟩ := Layer.finalize_wellFormed hwf₁ hlayer
    obtain ⟨hmap, hpath', hval⟩ := ih hwf₂ hpath.tail
    refine ⟨by rw [List.map_cons, List.map_cons, htype, hmap], ?_,
      List.forall_mem_cons.mpr ⟨hvalid, hval⟩⟩
    -- The layer that follows has the type that is selected, before and after.
    cases hnext with
    | nil => exact List.isChain_singleton _
    | @cons _ second _ second' _ hsecond _ =>
      have hsel := (List.isChain_cons_cons.mp hpath).1
      have htypes : second'.typeId = second.typeId := (List.cons.inj hmap).1
      exact List.isChain_cons_cons.mpr ⟨by rw [hnextType, hsel, htypes], hpath'⟩

/-! ## A path is parsed back -/

/-- Representable layers are serialised together. -/
theorem layersToBytes_ok_of_valid {layers : List Layer} (h : ∀ layer ∈ layers, layer.Valid) :
    ∃ bytes, layersToBytes layers = .ok bytes := by
  induction layers with
  | nil => exact ⟨[], rfl⟩
  | cons layer layers ih =>
    obtain ⟨hlayer, hlayers⟩ := List.forall_mem_cons.mp h
    obtain ⟨data, hdata⟩ := Layer.toBytes_ok_of_valid hlayer
    obtain ⟨tail, htail⟩ := ih hlayers
    exact ⟨data ++ tail, layersToBytes_cons_eq_ok.mpr ⟨data, tail, hdata, htail, rfl⟩⟩

/-- The loop follows a path of the table, layer by layer. -/
theorem parses_of_path {t : LayerType} {layer : Layer} {layers : List Layer} {bytes : Bytes}
    (hhead : layer.typeId = t) (hpath : IsPath (layer :: layers))
    (hvalid : ∀ l ∈ layer :: layers, l.Valid ∧ ∀ r, l = .raw r → r.data ≠ [])
    (hbytes : layersToBytes (layer :: layers) = .ok bytes) :
    PacketParser.new.Parses (Layer.parse t) bytes (.ok ([], ⟨layer :: layers⟩)) := by
  induction layers generalizing t layer bytes with
  | nil =>
    have hparse : Layer.parse t bytes = .ok ([], layer) := by
      refine Layer.parse_eq_ok.mpr ⟨hhead, (hvalid layer List.mem_cons_self).1, fun _ => rfl,
        bytes, layersToBytes_singleton.mp hbytes, (List.append_nil _).symm⟩
    unfold PacketParser.Parses
    rw [hparse]
    exact Loop.Returns.stop rfl
  | cons second layers ih =>
    obtain ⟨data, tail, hdata, htail, rfl⟩ := layersToBytes_cons_eq_ok.mp hbytes
    obtain ⟨hsel, hpath'⟩ := List.isChain_cons_cons.mp hpath
    obtain ⟨hlayer, hrest⟩ := List.forall_mem_cons.mp hvalid
    -- A layer that something follows does not read to the end.
    have hends : ¬t.ReadsAll := by
      intro hall
      cases layer with
      | icmp4 i => cases hsel
      | raw r => cases hsel
      | ether | ipv4 | ipv6 | tcp | udp => exact (hhead ▸ hall : LayerType.ReadsAll _)
    have hparse : Layer.parse t (data ++ tail) = .ok (tail, layer) :=
      Layer.parse_eq_ok.mpr ⟨hhead, hlayer.1, fun h => absurd h hends, data, hdata, rfl⟩
    have hne : tail ≠ [] := by
      obtain ⟨data', tail', hdata', -, rfl⟩ := layersToBytes_cons_eq_ok.mp htail
      have := Layer.toBytes_ne_nil hdata' (hrest second List.mem_cons_self).2
      rw [ne_eq, List.append_eq_nil_iff]
      rintro ⟨hnil, -⟩
      exact this hnil
    have hnext : PacketParser.new.nextLayerParser layer tail =
        some (Layer.parse second.typeId) := by
      rw [PacketParser.nextLayerParser_new, hsel]
      rfl
    exact (PacketParser.parses_of_next hparse hne hnext _).mpr
      ⟨_, ih rfl hpath' hrest htail, rfl⟩

/-- **Build, finalize, serialise, parse.**  A well-formed packet that is finalised is serialised, and
    the parser returns exactly the finalised layers. -/
theorem finalize_roundTrip {packet packet' : Packet Layer} (h : packet.WellFormed)
    (hfin : packet.finalize = .ok () packet') :
    ∃ bytes, packet'.toBytes = .ok bytes ∧
      PacketParser.parseNew .Ether bytes = .ok ([], packet') := by
  obtain ⟨htypes, hpath, hvalid⟩ :=
    (Packet.finalize_eq_ok.mp hfin).of_wellFormed h.layers h.path
  obtain ⟨bytes, hbytes⟩ := layersToBytes_ok_of_valid fun l hl => (hvalid l hl).1
  refine ⟨bytes, Packet.toBytes_eq_ok.mpr hbytes, PacketParser.parses_new_iff.mp ?_⟩
  obtain ⟨layers⟩ := packet'
  have hhead : (layers.map Layer.typeId).head? = some .Ether := by
    rw [htypes, List.head?_map]
    exact h.head
  cases layers with
  | nil => cases hhead
  | cons layer layers =>
    exact parses_of_path (Option.some.inj hhead) hpath hvalid hbytes

end

/-- A TCP header whose options fill three bytes of the last word. -/
def unalignedTcp : Tcp :=
  { (default : Tcp) with sport := 80, options := [.MSS 4 1460, .WScale 3 7] }

/-- A segment of two bytes behind that header. -/
def tcpPacket : Packet Layer where
  layers :=
    [.ether default, .ipv4 { (default : Ipv4) with protocol := .TCP }, .tcp unalignedTcp,
     .raw ⟨[0x68, 0x69], 0⟩]

theorem finalize_roundTrip_tcpPacket :
    letI := Deku.truncating
    ∃ packet' bytes, tcpPacket.finalize = .ok () packet' ∧ packet'.toBytes = .ok bytes ∧
      PacketParser.parseNew .Ether bytes = .ok ([], packet') := by
  let := Deku.truncating
  have hoptions : ∀ option ∈ [TcpOption.MSS 4 1460, .WScale 3 7], option.WellFormed :=
    List.forall_mem_cons.mpr ⟨nofun, List.forall_mem_cons.mpr ⟨nofun, nofun⟩⟩
  have hwf : tcpPacket.WellFormed :=
    { head := rfl
      path := by
        refine List.isChain_cons_cons.mpr ⟨rfl, List.isChain_cons_cons.mpr ⟨rfl, ?_⟩⟩
        exact List.isChain_cons_cons.mpr ⟨rfl, List.isChain_singleton _⟩
      layers := by
        refine List.forall_mem_cons.mpr ⟨nofun, List.forall_mem_cons.mpr ⟨?_,
          List.forall_mem_cons.mpr ⟨?_, List.forall_mem_singleton.mpr ⟨nofun, rfl⟩⟩⟩⟩
        · exact ⟨by decide, by decide, by decide, by decide, by decide, by decide, nofun, nofun,
            by decide⟩
        · refine ⟨by decide, ⟨by decide, by decide, by decide, by decide, by decide, by decide,
            by decide, by decide, by decide, by decide⟩, hoptions, fun header h => ?_⟩
          have hlen : unalignedTcp.toBytes.map List.length = .ok 27 := by decide +kernel
          rw [h] at hlen
          rw [Except.ok.inj hlen]
          decide }
  cases hfin : tcpPacket.finalize with
  | error e packet' =>
    have hok : (match tcpPacket.finalize with
      | .ok _ _ => true
      | .error _ _ => false) = true := by decide +kernel
    rw [hfin] at hok
    cases hok
  | ok u packet' =>
    obtain ⟨bytes, hbytes, hparse⟩ := finalize_roundTrip hwf hfin
    exact ⟨packet', bytes, rfl, hbytes, hparse⟩

end Nata
