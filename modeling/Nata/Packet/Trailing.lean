/-
  Bytes behind the datagram.

  A frame may be longer than the datagram in it (short frames are filled up).  The parsers pass on
  what a header leaves, up to the end of the input, and nobody looks at `Ipv4.length`, so trailing
  bytes come to lie in the layers behind the Ipv4 layer and the rest is empty.  Since parsing loses
  nothing, the layers behind have the size that the length says only if there are no such bytes
  (`datagramOnly_iff`); and `finalize`, which goes by the layers, then keeps the length.
-/
import Nata.Packet.Lossless
import Nata.Packet.Representable
import Nata.Packet.Settled

namespace Nata

/-- The size that a frame gives for the datagram in it: the word in bytes 16 and 17. -/
def Ipv4.totalLength (input : Bytes) : Nat :=
  (input.getD 16 0).toNat * 2 ^ 8 + (input.getD 17 0).toNat

/-- It is the integer that has been written there. -/
theorem Ipv4.totalLength_append {xs : Bytes} (v : BitVec 16) (zs : Bytes) (h : xs.length = 16) :
    totalLength (xs ++ (be v ++ zs)) = v.toNat := by
  have hv := v.isLt
  have hget : ∀ ys : Bytes, ∀ i, (xs ++ ys).getD (16 + i) 0 = ys.getD i 0 := by
    intro ys i
    rw [← h, List.getD_eq_getElem?_getD, getElem?_length_add, ← List.getD_eq_getElem?_getD]
  rw [totalLength, hget _ 0, hget _ 1, be16_eq]
  show (BitVec.ofNat 8 _).toNat * 2 ^ 8 + (BitVec.ofNat 8 _).toNat = v.toNat
  rw [BitVec.toNat_ofNat, BitVec.toNat_ofNat]
  omega

section

variable [Deku]

/-- Of the frame, the packet holds the datagram only: the layers behind the Ipv4 layer have the size
    that its length says, and bytes behind them are in the rest.  So `finalize`, if it has no Tcp
    options to pad, finds the length as it should be. -/
structure Packet.DatagramOnly (packet : Packet Layer) (input rest : Bytes) (ipv4 : Ipv4)
    (behind : List Layer) : Prop where
  payload : ∃ link header payload, ipv4.toBytes = .ok header ∧
    layersToBytes behind = .ok payload ∧ payload.length = ipv4.length.toNat - header.length ∧
    header.length ≤ ipv4.length.toNat ∧ input = link ++ header ++ payload ++ rest
  kept : (∀ t header, .tcp t ∈ behind → t.toBytes = .ok header → 4 ∣ header.length) →
    ∃ ipv4', (Method.left packet.finalize).layers[1]? = some (.ipv4 ipv4') ∧
      ipv4'.length = ipv4.length

/-- The sizes in an accepted frame. -/
theorem PacketParser.parseNew_sizes {input rest : Bytes} {packet : Packet Layer} {ether : Ether}
    {ipv4 : Ipv4} {behind : List Layer} (hparse : parseNew .Ether input = .ok (rest, packet))
    (hlayers : packet.layers = .ether ether :: .ipv4 ipv4 :: behind) :
    ∃ link header payload, ipv4.toBytes = .ok header ∧ layersToBytes behind = .ok payload ∧
      link.length = 14 ∧ input = link ++ header ++ payload ++ rest ∧ rest = [] ∧
      Ipv4.totalLength input = ipv4.length.toNat := by
  have hbytes := Packet.toBytes_eq_ok.mp (toBytes_of_parseNew hparse)
  rw [hlayers] at hbytes
  obtain ⟨link, _, hlink, hdatagram, rfl⟩ := layersToBytes_cons_eq_ok.mp hbytes
  obtain ⟨header, payload, hheader, hpayload, rfl⟩ := layersToBytes_cons_eq_ok.mp hdatagram
  have hrest := (parseNew_path hparse).1
  have h14 := Ether.length_toBytes hlink
  refine ⟨link, header, payload, hheader, hpayload, h14, ?_, hrest, ?_⟩
  · rw [hrest, List.append_nil, List.append_assoc]
  · -- The length is behind the 14 bytes of the Ether header and two of its own.
    obtain ⟨x, y, z, hx, -, -, hframe⟩ := Ipv4.toBytes_frame hheader
    obtain rfl := Except.ok.inj (hheader.symm.trans (hframe ipv4.length ipv4.checksum))
    have h16 : (link ++ x).length = 16 := by rw [List.length_append, h14, hx]
    simpa only [List.append_assoc] using
      Ipv4.totalLength_append ipv4.length (y ++ (be ipv4.checksum ++ z) ++ payload) h16

/-- A header whose length is right keeps it, whatever happens further on. -/
theorem Packet.finalize_keeps_length {packet : Packet Layer} {ether : Ether} {ipv4 : Ipv4}
    {behind : List Layer} {header payload : Bytes}
    (hlayers : packet.layers = .ether ether :: .ipv4 ipv4 :: behind)
    (hheader : ipv4.toBytes = .ok header) (hpayload : layersToBytes behind = .ok payload)
    (hlen : header.length + payload.length = ipv4.length.toNat) :
    ∃ ipv4', (Method.left packet.finalize).layers[1]? = some (.ipv4 ipv4') ∧
      ipv4'.length = ipv4.length := by
  have hlt := ipv4.length.isLt
  have hdata : (Layer.ipv4 ipv4).data = header := Layer.data_eq hheader
  have hsize : (IpHeader.v4 ipv4).headerSize = header.length := congrArg List.length hdata
  obtain ⟨ipv4', hipv4, hkept⟩ : ∃ ipv4', LayerExt.finalize [Layer.ether ether] behind
      (.ipv4 ipv4) = .ok () (.ipv4 ipv4') ∧ ipv4'.length = ipv4.length := by
    -- The total has room in the length field, since that is its size already.
    obtain ⟨layer, hfin⟩ : ∃ layer, LayerExt.finalize [Layer.ether ether] behind
        (.ipv4 ipv4) = .ok () layer :=
      (@IpHeader.finalize_layer _ _ _ (.v4 ipv4) _ _ hheader hpayload).1 (by omega)
    obtain ⟨header', payload', hheader', hpayload', -, cleared, -, rfl⟩ :=
      Layer.finalize_ipv4_eq_ok.mp hfin
    obtain rfl := Except.ok.inj (hheader.symm.trans hheader')
    obtain rfl := Except.ok.inj (hpayload.symm.trans hpayload')
    refine ⟨_, hfin, ?_⟩
    show BitVec.ofNat 16 (header.length + payload.length) = ipv4.length
    rw [hlen, BitVec.ofNat_toNat, BitVec.setWidth_eq]
  have hether : LayerExt.finalize [] (.ipv4 ipv4 :: behind) (.ether ether) =
      .ok () (Layer.ether ether) := Layer.finalize_ether_eq_ok.mpr rfl
  refine ⟨ipv4', ?_, hkept⟩
  rw [Packet.finalize, Method.left_zoom]
  show (Method.left (finalizeFrom [] packet.layers))[1]? = _
  rw [hlayers, finalizeFrom, hether]
  show (Method.left (finalizeFrom [Layer.ether ether] (.ipv4 ipv4 :: behind)))[1]? = _
  rw [finalizeFrom, hipv4]
  show (Method.left (finalizeFrom [Layer.ether ether, .ipv4 ipv4'] behind))[1]? = _
  obtain ⟨behind', hbehind⟩ := left_finalizeFrom [Layer.ether ether, .ipv4 ipv4'] behind
  rw [hbehind]
  rfl

/-- **When trailing bytes stay out of the payload**: when there are none, whatever the layers behind
    the Ipv4 layer are. -/
theorem datagramOnly_iff {input rest : Bytes} {packet : Packet Layer} {ether : Ether} {ipv4 : Ipv4}
    {behind : List Layer} (hparse : PacketParser.parseNew .Ether input = .ok (rest, packet))
    (hlayers : packet.layers = .ether ether :: .ipv4 ipv4 :: behind) :
    packet.DatagramOnly input rest ipv4 behind ↔ input.length = 14 + Ipv4.totalLength input := by
  obtain ⟨link, header, payload, hheader, hpayload, hlink, hinput, hrest, htotal⟩ :=
    PacketParser.parseNew_sizes hparse hlayers
  have hsize : input.length = 14 + (header.length + payload.length) := by
    rw [hinput, hrest, List.append_nil, List.length_append, List.length_append]
    omega
  constructor
  · intro h
    obtain ⟨-, header', payload', hheader', hpayload', hlen, hle, -⟩ := h.payload
    obtain rfl := Except.ok.inj (hheader.symm.trans hheader')
    obtain rfl := Except.ok.inj (hpayload.symm.trans hpayload')
    omega
  · intro h
    have hlen : header.length + payload.length = ipv4.length.toNat := by omega
    exact
      { payload := ⟨link, header, payload, hheader, hpayload, by omega, by omega, hinput⟩
        kept := fun _ => Packet.finalize_keeps_length hlayers hheader hpayload hlen }

end

theorem datagramOnly_udpFrame :
    letI := Deku.truncating
    PacketParser.parseNew .Ether udpFrame = .ok ([], udpPacket) ∧
      ∃ ipv4 behind, udpPacket.DatagramOnly udpFrame [] ipv4 behind := by
  let := Deku.truncating
  have hparse : PacketParser.parseNew .Ether udpFrame = .ok ([], udpPacket) := by decide +kernel
  have hlayers : udpPacket.layers = .ether _ :: .ipv4 _ :: [.udp _, .raw _] := rfl
  exact ⟨hparse, _, _, (datagramOnly_iff hparse hlayers).mpr (by decide +kernel)⟩

/-- That frame, filled up to the 60 bytes that a frame has at least. -/
def paddedFrame : Bytes := udpFrame ++ List.replicate 14 0

/-- Its layers: what fills the frame up is payload. -/
def paddedPacket : Packet Layer where
  layers := udpPacket.layers.take 3 ++ [.raw ⟨[0x70, 0x69, 0x6e, 0x67] ++ List.replicate 14 0, 0⟩]

/-- The header says 32 bytes, which is in the bounds, and `finalize` makes 46 of it. -/
theorem datagramOnly_fails_paddedFrame :
    letI := Deku.truncating
    PacketParser.parseNew .Ether paddedFrame = .ok ([], paddedPacket) ∧
      ∃ ether ipv4 udp raw header udpHeader packet' ipv4',
        paddedPacket.layers = [.ether ether, .ipv4 ipv4, .udp udp, .raw raw] ∧
        ipv4.toBytes = .ok header ∧ udp.toBytes = .ok udpHeader ∧
        header.length + udpHeader.length ≤ ipv4.length.toNat ∧
        ipv4.length.toNat ≤ paddedFrame.length - 14 ∧
        ¬paddedPacket.DatagramOnly paddedFrame [] ipv4 [.udp udp, .raw raw] ∧
        paddedPacket.finalize = .ok () packet' ∧ packet'.layers[1]? = some (.ipv4 ipv4') ∧
        ipv4'.length = 46 := by
  let := Deku.truncating
  have hparse : PacketParser.parseNew .Ether paddedFrame = .ok ([], paddedPacket) := by
    decide +kernel
  have hfin : paddedPacket.finalize = .ok () ⟨udpPacket.layers.take 1 ++
      [.ipv4 { (default : Ipv4) with
          length := 46, identification := 1, ttl := 64, protocol := .UDP, checksum := 0x66bc,
          src := 0x0a000001, dst := 0x0a000002 },
        .udp { sport := 53, dport := 54, length := 26, checksum := 0x0c8a }] ++
      paddedPacket.layers.drop 3⟩ := by decide +kernel
  refine ⟨hparse, _, _, _, _, (udpFrame.drop 14).take 20, (udpFrame.drop 34).take 8, _, _, rfl,
    by decide +kernel, by decide +kernel, by decide +kernel, by decide +kernel, fun h => ?_, hfin,
    rfl, rfl⟩
  obtain ⟨-, header, payload, hheader, hpayload, hlen, -⟩ := h.payload
  have hheader' : header = (udpFrame.drop 14).take 20 :=
    Except.ok.inj (hheader.symm.trans (by decide +kernel))
  have hpayload' : payload = paddedFrame.drop 34 :=
    Except.ok.inj (hpayload.symm.trans (by decide +kernel))
  rw [hheader', hpayload'] at hlen
  exact absurd hlen (by decide +kernel)

end Nata
