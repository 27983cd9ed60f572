/-
  `finalize` leaves alone a packet whose dependent fields are right.

  A layer is SETTLED between the layers before and behind it when its length field is the size it
  describes and its checksum is the Internet checksum of what it covers, taken with the field itself
  zeroed.  For a packet that was parsed that is enough for `finalize` to change nothing:

  * the checks of `finalize` pass, because every length is that of a datagram and so is below
    `2 ^ 16`; a Tcp or Icmp4 layer has no length, but the IP layer in front of it does
    (`length_lt_of_settled`);
  * with so few bytes the crate's checksum is the Internet checksum;
  * the options of a parsed Tcp layer fill its offset, so that there is nothing to pad and the
    offset comes out the same (`Tcp.four_mul_offset`).
-/
import Nata.Packet.Lossless

namespace Nata

section

variable [Deku]

/-- The dependent fields of a layer are right, behind `prev` and in front of `next`. -/
def Layer.Settled (prev next : List Layer) : Layer → Prop
  | .ether _ | .raw _ => True
  | .ipv4 h => ∃ header tail zeroed, h.toBytes = .ok header ∧ layersToBytes next = .ok tail ∧
      { h with checksum := 0 }.toBytes = .ok zeroed ∧
      h.length.toNat = header.length + tail.length ∧ h.checksum = internetChecksum zeroed
  | .ipv6 h => ∃ tail, layersToBytes next = .ok tail ∧ h.length.toNat = tail.length
  | .udp u => ∃ tail zeroed, layersToBytes next = .ok tail ∧
      { u with checksum := 0 }.toBytes = .ok zeroed ∧
      u.length.toNat = zeroed.length + tail.length ∧
      ∀ ip, lastIp prev = some ip → u.checksum = internetChecksum
        (ip.pseudoHeader ip.protocol.id (zeroed.length + tail.length) ++ zeroed ++ tail)
  | .tcp t => ∃ tail zeroed, layersToBytes next = .ok tail ∧
      { t with checksum := 0 }.toBytes = .ok zeroed ∧
      ∀ ip, lastIp prev = some ip → t.checksum = internetChecksum
        (ip.pseudoHeader ip.protocol.id (zeroed.length + tail.length) ++ zeroed ++ tail)
  | .icmp4 i => ∃ zeroed, { i with checksum := 0 }.toBytes = .ok zeroed ∧
      i.checksum = internetChecksum zeroed

/-- Every layer of the packet is settled. -/
def Packet.Settled (packet : Packet Layer) : Prop :=
  ∀ prev layer next, packet.layers = prev ++ layer :: next → layer.Settled prev next

end

/-- The crate's checksum of a datagram behind its pseudo header is the Internet checksum. -/
theorem checksum_datagram {ip : IpHeader} {protocol : BitVec 8} {length : Nat}
    {header payload : Bytes} (h : header.length + payload.length < 2 ^ 16) :
    checksum (ip.pseudoHeader protocol length ++ header ++ payload) =
      internetChecksum (ip.pseudoHeader protocol length ++ header ++ payload) := by
  apply checksum_eq_internetChecksum
  apply wordSum_lt_of_length
  have hpseudo := (ip.length_pseudoHeader protocol length).2
  simp only [List.length_append]
  omega

section

variable [Deku]

/-- A header that can be parsed has the size that its offset announces. -/
theorem Tcp.four_mul_offset {tcp : Tcp} {header : Bytes} (hvalid : codec.Valid tcp)
    (h : tcp.toBytes = .ok header) : header.length = 4 * tcp.offset.toNat := by
  obtain ⟨-, -, -, -, -, -, -, -, -, -, k, u, hk, hu, hlen⟩ := hvalid
  obtain ⟨z, hz, hheader⟩ := length_toBytes h
  obtain rfl := Except.ok.inj (hu.symm.trans hz)
  obtain ⟨h5, rfl, -⟩ := optionsSize_eq_ok.mp hk
  have h5' : 5 ≤ tcp.offset.toNat := h5
  have hlen' : u.length = 8 * (4 * (tcp.offset.toNat - 5)) := hlen
  omega

/-- The header of an IP layer that can be parsed has at most sixty bytes. -/
theorem Ipv4.length_le_of_valid {ipv4 : Ipv4} {header : Bytes} (hvalid : codec.Valid ipv4)
    (h : ipv4.toBytes = .ok header) : header.length ≤ 60 := by
  obtain ⟨-, hihl, -, -, -, -, -, -, -, -, -, -, -, -, k, u, hk, hu, hlen⟩ := hvalid
  obtain ⟨z, hz, hheader⟩ := length_toBytes h
  obtain rfl := Except.ok.inj (hu.symm.trans hz)
  have hihl' : ipv4.ihl.toNat < 2 ^ 4 := hihl
  have hk' : (ipv4.ihl.toNat - 5) * 4 = k := Except.ok.inj hk
  omega

/-! ## Settled layers are left alone -/

/-- **A settled layer is left as it is**, if what its checksum covers is no larger than a datagram. -/
theorem Layer.finalize_settled {prev next : List Layer} {layer : Layer} {bytes : Bytes}
    (hvalid : layer.Valid) (h : layer.Settled prev next)
    (hbytes : layersToBytes (layer :: next) = .ok bytes)
    (hsize : layer.typeId = .Tcp ∨ layer.typeId = .Icmp4 → bytes.length < 2 ^ 16) :
    LayerExt.finalize prev next layer = .ok () layer := by
  obtain ⟨data, tail, hdata, htail, rfl⟩ := layersToBytes_cons_eq_ok.mp hbytes
  rw [List.length_append] at hsize
  cases layer with
  | ether e => exact finalize_ether_eq_ok.mpr rfl
  | raw r => exact finalize_raw_eq_ok.mpr rfl
  | ipv6 v =>
    obtain ⟨tail', htail', hlength⟩ := h
    have hlt := v.length.isLt
    refine finalize_ipv6_eq_ok.mpr ⟨tail', htail', by omega, ?_⟩
    rw [← hlength, BitVec.ofNat_toNat, BitVec.setWidth_eq]
  | ipv4 v =>
    obtain ⟨header, tail', zeroed, hheader, htail', hzeroed, hlength, hchecksum⟩ := h
    have hlt := v.length.isLt
    have hlen : BitVec.ofNat 16 (header.length + tail'.length) = v.length := by
      rw [← hlength, BitVec.ofNat_toNat, BitVec.setWidth_eq]
    have hle : zeroed.length ≤ 60 :=
      @Ipv4.length_le_of_valid _ { v with checksum := 0 } zeroed hvalid hzeroed
    have hsum : checksum zeroed = v.checksum := by
      rw [hchecksum]
      exact checksum_eq_internetChecksum (wordSum_lt_of_length (by omega))
    refine finalize_ipv4_eq_ok.mpr ⟨header, tail', hheader, htail', by omega, zeroed, ?_, ?_⟩
    · rw [hlen]
      exact hzeroed
    · rw [hlen, hsum]
  | icmp4 i =>
    obtain ⟨zeroed, hzeroed, hchecksum⟩ := h
    have hcleared : zeroed = i.cleared := by
      rw [← Except.ok.inj ((Icmp4.toBytes_eq _).symm.trans hzeroed), List.append_assoc]
      rfl
    have hlen : zeroed.length = data.length := by
      rw [hcleared]
      exact (Icmp4.length_toBytes hdata).symm
    have hlt := hsize (.inr rfl)
    rw [finalize_icmp4_eq_ok, ← hcleared, checksum_eq_internetChecksum
      (wordSum_lt_of_length (by omega)), ← hchecksum]
  | udp u =>
    obtain ⟨tail', zeroed, htail', hzeroed, hlength, hchecksum⟩ := h
    have hcleared : zeroed = u.cleared :=
      (Except.ok.inj ((Udp.toBytes_eq _).symm.trans hzeroed)).symm
    have h8 := u.length_cleared
    have hlt := u.length.isLt
    rw [hcleared, h8] at hlength hchecksum
    refine finalize_udp_eq_ok.mpr ⟨tail', htail', by omega, ?_⟩
    have hlen : BitVec.ofNat 16 (8 + tail'.length) = u.length := by
      rw [← hlength, BitVec.ofNat_toNat, BitVec.setWidth_eq]
    rw [hlen]
    cases hip : lastIp prev with
    | none => rfl
    | some ip =>
      have hsum : u.newChecksum ip tail' = u.checksum := by
        rw [hchecksum ip hip]
        exact checksum_datagram (by omega)
      simp only [hsum]
  | tcp t =>
    obtain ⟨tail', zeroed, htail', hzeroed, hchecksum⟩ := h
    obtain rfl := Except.ok.inj (htail'.symm.trans htail)
    have hlt := hsize (.inl rfl)
    have hdata4 : data.length = 4 * t.offset.toNat := Tcp.four_mul_offset hvalid hdata
    -- There is nothing to pad, so the covered header is the header with its checksum zeroed.
    have hpad : Tcp.padAmt data.length = 0 := by
      rw [Tcp.padAmt]
      omega
    have hcleared : Tcp.cleared data = zeroed := by
      have h := Tcp.toBytes_cleared hdata
      rw [hpad, List.replicate_zero, List.append_nil] at h
      exact Except.ok.inj (h.symm.trans hzeroed)
    have hlen : zeroed.length = data.length := by
      rw [← hcleared, Tcp.length_cleared, hpad, Nat.add_zero]
    refine finalize_tcp_eq_ok.mpr ⟨data, t.checksum, hdata, ?_, ?_, ?_⟩
    · rw [hcleared, Tcp.NewChecksum]
      cases hlast : prev.getLast? with
      | none => rfl
      | some prevLayer =>
        refine ⟨tail', htail, by omega, ?_⟩
        cases hip : getIp prevLayer with
        | none => rfl
        | some ip =>
          have hip' : lastIp prev = some ip := by rw [lastIp, hlast, Option.bind_some, hip]
          refine ⟨IpHeader.fits_of_lt (by omega), ?_⟩
          rw [hchecksum ip hip', checksum_datagram (by omega)]
    · have := t.offset.isLt
      rw [hcleared, hlen]
      omega
    · have hoffset : (Tcp.cleared data).length / 4 = t.offset.toNat := by
        rw [hcleared, hlen]
        omega
      rw [hoffset, hpad, List.replicate_zero, List.append_nil, BitVec.ofNat_toNat,
        BitVec.setWidth_eq]

/-- What a Tcp or Icmp4 layer starts is part of a datagram of the IP layer in front of it. -/
theorem length_lt_of_settled {layers prev next : List Layer} {layer : Layer} {bytes : Bytes}
    (hhead : layers.head?.map Layer.typeId = some .Ether) (hpath : IsPath layers)
    (h : (Packet.mk layers).Settled) (hlayers : layers = prev ++ layer :: next)
    (hbytes : layersToBytes (layer :: next) = .ok bytes)
    (htype : layer.typeId = .Tcp ∨ layer.typeId = .Icmp4) : bytes.length < 2 ^ 16 := by
  rcases List.eq_nil_or_concat prev with rfl | ⟨before, last, rfl⟩
  · rw [hlayers] at hhead
    have hether : layer.typeId = .Ether := Option.some.inj hhead
    rcases htype with ht | ht <;> rw [ht] at hether <;> cases hether
  · have hsplit : layers = before ++ last :: (layer :: next) := by
      rw [hlayers, List.concat_eq_append, List.append_assoc]
      rfl
    have hsel : last.nextType = some layer.typeId := by
      rw [hsplit] at hpath
      exact (List.isChain_cons_cons.mp (List.isChain_append.mp hpath).2.1).1
    have hsettled := h before last (layer :: next) hsplit
    cases last with
    | ipv4 v =>
      obtain ⟨header, tail, _, -, htail, -, hlength, -⟩ := hsettled
      obtain rfl := Except.ok.inj (hbytes.symm.trans htail)
      have := v.length.isLt
      omega
    | ipv6 v =>
      obtain ⟨tail, htail, hlength⟩ := hsettled
      obtain rfl := Except.ok.inj (hbytes.symm.trans htail)
      have := v.length.isLt
      omega
    | ether e =>
      -- The table has neither of the two behind an Ethernet header.
      have hne : ∀ t : LayerType, some e.etherType.nextType = some t → t ≠ .Tcp ∧ t ≠ .Icmp4 := by
        rintro _ ⟨⟩
        unfold EtherType.nextType
        split <;> exact ⟨nofun, nofun⟩
      rcases htype with ht | ht
      · exact absurd ht (hne _ hsel).1
      · exact absurd ht (hne _ hsel).2
    | tcp t =>
      have hraw : LayerType.Raw = layer.typeId := Option.some.inj hsel
      rcases htype with ht | ht <;> rw [ht] at hraw <;> cases hraw
    | udp u =>
      have hraw : LayerType.Raw = layer.typeId := Option.some.inj hsel
      rcases htype with ht | ht <;> rw [ht] at hraw <;> cases hraw
    | icmp4 i => cases hsel
    | raw r => cases hsel

/-- **finalize does not disturb a packet that is already right.** -/
theorem finalize_of_settled {input rest : Bytes} {packet : Packet Layer}
    (hparse : PacketParser.parseNew .Ether input = .ok (rest, packet)) (h : packet.Settled) :
    packet.finalize = .ok () packet ∧ packet.toBytes = .ok input := by
  obtain ⟨rfl, hhead, hpath, hvalid⟩ := PacketParser.parseNew_path hparse
  obtain ⟨bytes, hbytes, hin⟩ := (PacketParser.parses_new_iff.mpr hparse).lossless
    (Layer.lossless_parse .Ether) fun _ _ _ hnext =>
      PacketParser.bindsLossless_new.lossless_next hnext
  rw [List.append_nil] at hin
  subst hin
  refine ⟨Packet.finalize_eq_ok.mpr (Finalized.self_iff.mpr fun prev layer next hl => ?_), hbytes⟩
  have hall := Packet.toBytes_eq_ok.mp hbytes
  rw [hl] at hall
  obtain ⟨-, tail, -, htail, -⟩ := layersToBytes_append_eq_ok.mp hall
  rw [List.nil_append]
  refine Layer.finalize_settled (hvalid layer ?_) (h prev layer next hl) htail fun htype =>
    length_lt_of_settled hhead hpath h hl htail htype
  rw [hl]
  exact List.mem_append_right prev List.mem_cons_self

end

/-- The layers of `udpFrame`. -/
def udpPacket : Packet Layer where
  layers :=
    [.ether { dst := ⟨⟨[2, 0, 0, 0, 0, 1], rfl⟩⟩, src := ⟨⟨[2, 0, 0, 0, 0, 2], rfl⟩⟩,
              etherType := .IPv4 },
     .ipv4 { (default : Ipv4) with
              length := 32, identification := 1, ttl := 64, protocol := .UDP, checksum := 0x66ca,
              src := 0x0a000001, dst := 0x0a000002 },
     .udp { sport := 53, dport := 54, length := 12, checksum := 0x0c98 },
     .raw ⟨[0x70, 0x69, 0x6e, 0x67], 0⟩]

theorem finalize_of_settled_udpFrame :
    letI := Deku.truncating
    PacketParser.parseNew .Ether udpFrame = .ok ([], udpPacket) ∧
      udpPacket.finalize = .ok () udpPacket ∧ udpPacket.toBytes = .ok udpFrame := by
  let := Deku.truncating
  have hparse : PacketParser.parseNew .Ether udpFrame = .ok ([], udpPacket) := by decide +kernel
  have hsettled : udpPacket.Settled := by
    intro prev layer next hl
    rcases List.cons_eq_append_iff.mp hl with ⟨rfl, hend⟩ | ⟨prev, rfl, hl₁⟩
    · cases hend
      trivial
    rcases List.cons_eq_append_iff.mp hl₁ with ⟨rfl, hend⟩ | ⟨prev, rfl, hl₂⟩
    · cases hend
      exact ⟨(udpFrame.drop 14).take 20, udpFrame.drop 34,
        clearWord ((udpFrame.drop 14).take 20) 10, by decide +kernel⟩
    rcases List.cons_eq_append_iff.mp hl₂ with ⟨rfl, hend⟩ | ⟨prev, rfl, hl₃⟩
    · cases hend
      refine ⟨udpFrame.drop 42, clearWord ((udpFrame.drop 34).take 8) 6, by decide +kernel,
        by decide +kernel, by decide +kernel, ?_⟩
      rintro ip ⟨⟩
      decide +kernel
    rcases List.cons_eq_append_iff.mp hl₃ with ⟨rfl, hend⟩ | ⟨prev, rfl, hl₄⟩
    · cases hend
      trivial
    · exact absurd hl₄.symm (List.append_ne_nil_of_right_ne_nil _ (List.cons_ne_nil _ _))
  exact ⟨hparse, finalize_of_settled hparse hsettled⟩

end Nata
