/-
  Does a finalised datagram pass the receiver's checksum test?

  The receiver puts the pseudo header with the ACTUAL length in front of the bytes that arrive,
  header and payload, and expects their checksum to be zero.  `finalize` computes the checksum of the
  header as it stands at that moment, in front of the layers as they stand at that moment:

  * Udp serialises its header before it sets the length field, so the old length is covered;
  * Tcp sets its offset after the checksum, so the old offset is covered;
  * in both cases the layers behind are covered as they were BUILT, before their own `finalize`.

  By `Finalized.sent` the sum of what arrives can be told from the layers as they were built, and the
  test passes exactly when the old and the new values agree modulo `65535`
  (`udp_accepted_iff`, `tcp_accepted_iff`).
-/
import Nata.Packet.RoundTrip
import Nata.Packet.Sent
import Nata.Packet.Settled

namespace Nata

/-- The receiver's test of a datagram behind the IP layer `ip`: its length has room in the pseudo
    header, and the checksum of both is zero. -/
def IpHeader.Accepts (ip : IpHeader) (protocol : BitVec 8) (datagram : Bytes) : Prop :=
  ip.Fits datagram.length ∧
    checksum (ip.pseudoHeader protocol datagram.length ++ datagram) = 0

instance {ip : IpHeader} {n : Nat} : Decidable (ip.Fits n) :=
  match ip with
  | .v4 _ => inferInstanceAs (Decidable (n < 2 ^ 16))
  | .v6 _ => inferInstanceAs (Decidable (n < 2 ^ 32))

instance {ip : IpHeader} {protocol : BitVec 8} {datagram : Bytes} :
    Decidable (ip.Accepts protocol datagram) := inferInstanceAs (Decidable (_ ∧ _))

section

variable [Deku]

/-- The `i`-th layer is an IP layer, and the receiver accepts what is behind it. -/
def Packet.Accepted (packet : Packet Layer) (i : Nat) (protocol : BitVec 8) : Prop :=
  ∃ ip datagram, packet.layers[i]?.bind getIp = some ip ∧
    layersToBytes (packet.layers.drop (i + 1)) = .ok datagram ∧ ip.Accepts protocol datagram

instance {packet : Packet Layer} {i : Nat} {protocol : BitVec 8} :
    Decidable (packet.Accepted i protocol) :=
  match hip : packet.layers[i]?.bind getIp, hd : layersToBytes (packet.layers.drop (i + 1)) with
  | some ip, .ok datagram => decidable_of_iff (ip.Accepts protocol datagram) (by
      unfold Packet.Accepted
      simp only [hip, hd, Option.some.injEq, Except.ok.injEq, exists_and_left, exists_eq_left'])
  | none, _ => isFalse (by
      rintro ⟨_, _, h, -⟩
      rw [hip] at h
      cases h)
  | some _, .error _ => isFalse (by
      rintro ⟨_, _, -, h, -⟩
      rw [hd] at h
      cases h)

end

/-- The test in the ring: the words of pseudo header and datagram add up to zero. -/
theorem IpHeader.accepts_iff {ip : IpHeader} {protocol : BitVec 8} {datagram : Bytes}
    (hprotocol : protocol ≠ 0) (hlen : datagram.length ≤ 131034) :
    ip.Accepts protocol datagram ↔ ip.Fits datagram.length ∧
      ip.addressSum + protocol.toNat + datagram.length + ocs datagram = 0 := by
  have hpseudo := ip.length_pseudoHeader protocol datagram.length
  have hle : (ip.pseudoHeader protocol datagram.length ++ datagram).length ≤ 131074 := by
    rw [List.length_append]
    omega
  -- The protocol keeps the words from being all zero.
  have hpos : wordSum (ip.pseudoHeader protocol datagram.length ++ datagram) ≠ 0 := by
    refine wordSum_pos (List.mem_append_left _ ?_) hprotocol
    have hmem : protocol ∈ be protocol := be8_eq protocol ▸ List.mem_cons_self
    cases ip with
    | v4 ipv4 => exact List.mem_append_left _ (List.mem_append_right _ hmem)
    | v6 ipv6 => exact List.mem_append_right _ hmem
  rw [Accepts, checksum_eq_zero_iff hle, and_iff_right hpos]
  refine and_congr_right fun hfits => ?_
  rw [ocs_append_of_even hpseudo.1, ocs_pseudoHeader hfits]

section

variable [Deku]

/-- What `finalize` keeps of an IP layer: all that a pseudo header takes from it. -/
theorem Layer.getIp_finalize {prev next : List Layer} {layer layer' : Layer} {ip : IpHeader}
    (hip : getIp layer = some ip) (hfin : LayerExt.finalize prev next layer = .ok () layer') :
    ∃ ip', getIp layer' = some ip' ∧ ip'.addressSum = ip.addressSum ∧
      (∀ n, ip'.Fits n ↔ ip.Fits n) ∧
      ∃ tail, layersToBytes next = .ok tail ∧ tail.length < 2 ^ 16 := by
  cases layer with
  | ipv4 v =>
    obtain ⟨_, tail, -, htail, hlt, _, -, rfl⟩ := finalize_ipv4_eq_ok.mp hfin
    obtain rfl := Option.some.inj hip
    exact ⟨_, rfl, rfl, fun _ => Iff.rfl, tail, htail, by omega⟩
  | ipv6 v =>
    obtain ⟨tail, htail, hlt, rfl⟩ := finalize_ipv6_eq_ok.mp hfin
    obtain rfl := Option.some.inj hip
    exact ⟨_, rfl, rfl, fun _ => Iff.rfl, tail, htail, hlt⟩
  | ether | tcp | udp | icmp4 | raw => cases hip

/-- **When the receiver accepts what is behind an IP layer**, in terms of the packet as built. -/
theorem accepted_iff {packet packet' : Packet Layer} {before rest : List Layer} {layer : Layer}
    {ip : IpHeader} {protocol : BitVec 8} (hlayers : packet.layers = before ++ layer :: rest)
    (hip : getIp layer = some ip) (hprotocol : protocol ≠ 0)
    (hfin : packet.finalize = .ok () packet') :
    packet'.Accepted before.length protocol ↔
      Sendable rest ∧ ip.Fits (sentSize rest) ∧
        ip.addressSum + protocol.toNat + sentSize rest + sentSum (some ip.pseudoSum) rest = 0 := by
  obtain ⟨before', layer', rest', hlayer', hdrop, hlayer, hrest⟩ := Packet.finalize_at hlayers hfin
  obtain ⟨ip', hip', haddress, hfits, tail, htail, hlt⟩ := Layer.getIp_finalize hip hlayer
  have hpseudo : ip'.pseudoSum = ip.pseudoSum := by
    have h := Layer.pseudoSum_finalize hlayer
    rw [hip, hip'] at h
    exact Option.some.inj h
  obtain ⟨hwrite, hsent⟩ := hrest.sent htail
  rw [lastIp_concat, hip', Option.map_some, hpseudo] at hsent
  have hget : packet'.layers[before.length]?.bind getIp = some ip' := by
    rw [hlayer', Option.bind_some, hip']
  have hsize := sentSize_le rest
  rw [dataOf_eq htail] at hsize
  constructor
  · rintro ⟨ip'', bytes, hip'', hbytes, haccepts⟩
    obtain rfl := Option.some.inj (hget.symm.trans hip'')
    rw [hdrop] at hbytes
    obtain ⟨hlength, hsum⟩ := hsent bytes hbytes
    rw [IpHeader.accepts_iff hprotocol (by omega), hlength, hsum hlt, hfits, haddress] at haccepts
    exact ⟨hwrite.mp ⟨bytes, hbytes⟩, haccepts⟩
  · rintro ⟨hsendable, hsum'⟩
    obtain ⟨bytes, hbytes⟩ := hwrite.mpr hsendable
    obtain ⟨hlength, hsum⟩ := hsent bytes hbytes
    refine ⟨ip', bytes, hget, by rw [hdrop, hbytes], ?_⟩
    rw [IpHeader.accepts_iff hprotocol (by omega), hlength, hsum hlt, hfits, haddress]
    exact hsum'

/-- **When the receiver accepts a finalised Udp datagram.**  The checksum covers the old length and
    the layers behind as they were built, so these have to add up to the new length and the layers
    as they are sent.  (And there has to be something to send: offsets that can be written, and a
    datagram whose length fits the pseudo header.) -/
theorem udp_accepted_iff {packet packet' : Packet Layer} {before next : List Layer} {layer : Layer}
    {ip : IpHeader} {u : Udp} (hlayers : packet.layers = before ++ layer :: .udp u :: next)
    (hip : getIp layer = some ip) (hprotocol : ip.protocol = .UDP)
    (hfin : packet.finalize = .ok () packet') :
    packet'.Accepted before.length 17 ↔
      Sendable next ∧ ip.Fits (8 + sentSize next) ∧
        (u.length.toNat + ocs (dataOf next) : ZMod 65535) =
          (8 + sentSize next : Nat) + sentSum none next := by
  have hudp : (Layer.udp u).sentLength = 8 := by
    have hdata : (Layer.udp u).data = _ := Layer.data_eq (Udp.toBytes_eq u)
    rw [Layer.sentLength, hdata]
    · simp only [List.length_append, length_be16]
    · intro t h
      cases h
  have hsendable : Sendable (.udp u :: next) ↔ Sendable next := by
    rw [Sendable.cons_iff, and_iff_right]
    intro t h
    cases h
  have hsize : sentSize (.udp u :: next) = 8 + sentSize next := by
    rw [← hudp]
    rfl
  have hsum : sentSum (some ip.pseudoSum) (.udp u :: next) =
      -(ip.pseudoSum + u.length.toNat + ocs (dataOf next)) + 256 ^ 8 * sentSum none next := by
    rw [← hudp]
    rfl
  have h256 : (256 : ZMod 65535) ^ 8 = 1 := by decide
  have hpseudo : ip.pseudoSum = ip.addressSum + ((17#8).toNat : ZMod 65535) := by
    rw [IpHeader.pseudoSum, hprotocol]
    rfl
  rw [accepted_iff hlayers hip (by decide) hfin, hsendable, hsize, hsum, h256, hpseudo]
  refine and_congr_right fun _ => and_congr_right fun _ => ⟨fun h => ?_, fun h => ?_⟩
  · linear_combination -h
  · linear_combination -h

end

/-- The header that Udp starts from has length zero. -/
def staleUdp : Packet Layer where
  layers :=
    [.ether default, .ipv4 { (default : Ipv4) with protocol := .UDP },
     .udp { sport := 53, dport := 54, length := 0, checksum := 0 }, .raw ⟨[0x70], 0⟩]

theorem udp_rejected_staleUdp :
    letI := Deku.truncating
    ∃ packet', staleUdp.finalize = .ok () packet' ∧ ¬packet'.Accepted 1 17 := by
  let := Deku.truncating
  refine ⟨⟨[.ether default,
    .ipv4 { (default : Ipv4) with protocol := .UDP, length := 29, checksum := 0xbcce },
    .udp { sport := 53, dport := 54, length := 9, checksum := 0x9177 }, .raw ⟨[0x70], 0⟩]⟩, ?_, ?_⟩
  · decide +kernel
  · decide +kernel

theorem udp_accepted_udpPacket :
    letI := Deku.truncating
    udpPacket.finalize = .ok () udpPacket ∧ udpPacket.Accepted 1 17 := by
  let := Deku.truncating
  have hfin : udpPacket.finalize = .ok () udpPacket := by decide +kernel
  have hlayers : udpPacket.layers = [_] ++ _ :: .udp _ :: [.raw _] := rfl
  refine ⟨hfin, (udp_accepted_iff hlayers rfl rfl hfin).mpr ⟨?_, by decide +kernel,
    by decide +kernel⟩⟩
  intro t ht
  cases List.mem_singleton.mp ht

section

variable [Deku]

/-- **When the receiver accepts a finalised Tcp segment.**  The checksum covers the old offset and the
    layers behind as they were built, and their size counts in the pseudo header. -/
theorem tcp_accepted_iff {packet packet' : Packet Layer} {before next : List Layer} {layer : Layer}
    {ip : IpHeader} {t : Tcp} (hlayers : packet.layers = before ++ layer :: .tcp t :: next)
    (hip : getIp layer = some ip) (hprotocol : ip.protocol = .TCP)
    (hheader : (Layer.tcp t).sentLength ≤ 60) (hfin : packet.finalize = .ok () packet') :
    packet'.Accepted before.length 6 ↔
      Sendable next ∧ ip.Fits ((Layer.tcp t).sentLength + sentSize next) ∧
        (4096 * Tcp.nibble t.offset + (dataOf next).length + ocs (dataOf next) : ZMod 65535) =
          4096 * ((Layer.tcp t).sentLength / 4 : Nat) + sentSize next + sentSum none next := by
  have hoffset : t.sentOffset.toNat = (Layer.tcp t).sentLength / 4 :=
    Nat.mod_eq_of_lt (by omega)
  have hnibble : Tcp.nibble t.sentOffset = (Layer.tcp t).sentLength / 4 := by
    rw [Tcp.nibble_of_lt (by omega), hoffset]
  have hsendable : Sendable (.tcp t :: next) ↔ Sendable next := by
    rw [Sendable.cons_iff, and_iff_right]
    rintro _ ⟨⟩
    exact ⟨_, Codec.writeBits_of_lt (by omega)⟩
  have hsize : sentSize (.tcp t :: next) = (Layer.tcp t).sentLength + sentSize next := rfl
  have hsum : sentSum (some ip.pseudoSum) (.tcp t :: next) =
      t.offsetGain - (ip.pseudoSum + ((Layer.tcp t).sentLength + (dataOf next).length) +
        ocs (dataOf next)) + 256 ^ (Layer.tcp t).sentLength * sentSum none next := rfl
  have heven : 2 ∣ (Layer.tcp t).sentLength := by
    rw [Layer.sentLength, Tcp.padAmt]
    omega
  have hpseudo : ip.pseudoSum = ip.addressSum + ((6#8).toNat : ZMod 65535) := by
    rw [IpHeader.pseudoSum, hprotocol]
    rfl
  rw [accepted_iff hlayers hip (by decide) hfin, hsendable, hsize, hsum, pow_256_of_even heven,
    hpseudo, Tcp.offsetGain, hnibble]
  push_cast
  refine and_congr_right fun _ => and_congr_right fun _ => ⟨fun h => ?_, fun h => ?_⟩
  · linear_combination -h
  · linear_combination -h

end

theorem tcp_rejected_tcpPacket :
    letI := Deku.truncating
    ∃ packet', tcpPacket.finalize = .ok () packet' ∧ ¬packet'.Accepted 1 6 := by
  let := Deku.truncating
  refine ⟨⟨[.ether default,
    .ipv4 { (default : Ipv4) with protocol := .TCP, length := 49, checksum := 0xbcc5 },
    .tcp { unalignedTcp with
      offset := 7, checksum := 0x3764, options := [.MSS 4 1460, .WScale 3 7, .EOL] },
    .raw ⟨[0x68, 0x69], 0⟩]⟩, ?_, ?_⟩
  · decide +kernel
  · decide +kernel

/-- The same segment, with the offset that it is going to have. -/
def readyTcp : Packet Layer where
  layers :=
    [.ether default, .ipv4 { (default : Ipv4) with protocol := .TCP },
     .tcp { unalignedTcp with offset := 7 }, .raw ⟨[0x68, 0x69], 0⟩]

theorem tcp_accepted_readyTcp :
    letI := Deku.truncating
    ∃ packet', readyTcp.finalize = .ok () packet' ∧ packet'.Accepted 1 6 := by
  let := Deku.truncating
  have hfin : readyTcp.finalize = .ok () ⟨[.ether default,
      .ipv4 { (default : Ipv4) with protocol := .TCP, length := 49, checksum := 0xbcc5 },
      .tcp { unalignedTcp with
        offset := 7, checksum := 0x1764, options := [.MSS 4 1460, .WScale 3 7, .EOL] },
      .raw ⟨[0x68, 0x69], 0⟩]⟩ := by decide +kernel
  have hlayers : readyTcp.layers = [_] ++ _ :: .tcp _ :: [.raw _] := rfl
  refine ⟨_, hfin, (tcp_accepted_iff hlayers rfl rfl (by decide +kernel) hfin).mpr ⟨?_,
    by decide +kernel, by decide +kernel⟩⟩
  intro t ht
  cases List.mem_singleton.mp ht

end Nata
