/-
  What a finalised packet puts on the wire, read off the layers as they were built.

  A checksum is computed when `finalize` comes to its layer, and the layers behind are finalised
  afterwards.  To compare what it covers with what is sent one has to know the size and the sum of
  the finalised layers, and both can be told from the layers as they were built:

  * the size, because `finalize` adds to it exactly the padding of TCP options (`sentSize`);
  * the sum modulo `65535`, because a checksum makes the sum of what it covers zero, so that of the
    layers that have one nothing is left but what the checksum does NOT cover as it is sent: the
    pseudo header, the old length of a Udp layer, the old offset of a Tcp layer, and the layers
    behind as they were built (`sentSum`).

  `Finalized.sent` proves that these are the size and the sum of the finalised layers, the latter as
  long as they were together smaller than a datagram.  Whether they can be serialised at all depends on the
  offset that `finalize` sets in Tcp layers, which may not fit its four bits (`Sendable`).
-/
import Nata.Layer.BuiltIn
import Nata.Packet.Basic

namespace Nata

/-- What the addresses and the protocol contribute to the sum of a pseudo header. -/
def IpHeader.pseudoSum (ip : IpHeader) : ZMod 65535 :=
  ip.addressSum + (ip.protocol.id.toNat : ZMod 65535)

section

variable [Deku]

namespace Layer

/-- The bytes of a layer; none if it cannot be serialised. -/
def data (layer : Layer) : Bytes := layer.toBytes.toOption.getD []

/-- The bytes of a layer that can be serialised. -/
theorem data_eq {layer : Layer} {bytes : Bytes} (h : layer.toBytes = .ok bytes) :
    layer.data = bytes := by
  rw [data, h]
  rfl

/-- The size of a layer when it is sent: TCP options are padded. -/
def sentLength : Layer → Nat
  | tcp t => (tcp t).data.length + Tcp.padAmt (tcp t).data.length
  | layer => layer.data.length

end Layer

/-- The offset that `finalize` gives to a Tcp layer. -/
def Tcp.sentOffset (tcp : Tcp) : BitVec 8 := BitVec.ofNat 8 ((Layer.tcp tcp).sentLength / 4)

theorem Tcp.sentLength_eq {tcp : Tcp} {header : Bytes} (h : tcp.toBytes = .ok header) :
    (Layer.tcp tcp).sentLength = (cleared header).length := by
  have hlayer : (Layer.tcp tcp).data = header := Layer.data_eq h
  rw [Layer.sentLength, hlayer, length_cleared]

theorem Tcp.sentOffset_eq {tcp : Tcp} {header : Bytes} (h : tcp.toBytes = .ok header) :
    tcp.sentOffset = BitVec.ofNat 8 ((cleared header).length / 4) := by
  rw [sentOffset, sentLength_eq h]

/-- How much that changes the sum of the header: the offset is the top of its word. -/
def Tcp.offsetGain (tcp : Tcp) : ZMod 65535 :=
  4096 * (nibble tcp.sentOffset : ZMod 65535) - 4096 * (nibble tcp.offset : ZMod 65535)

/-- The sum of a layer when it is sent, in front of layers that serialise to `tail`.  `pseudo` is the
    `pseudoSum` of the IP layer directly before, if there is one. -/
def Layer.sentSum (pseudo : Option (ZMod 65535)) (tail : Bytes) : Layer → ZMod 65535
  | ether e => ocs (ether e).data
  | raw r => ocs (raw r).data
  | ipv4 _ | icmp4 _ => 0
  | ipv6 h => ocs (ipv6 h).data - h.length.toNat + tail.length
  | udp u =>
    match pseudo with
    | some p => -(p + u.length.toNat + ocs tail)
    | none => ocs (udp u).data - u.length.toNat + (8 + tail.length)
  | tcp t =>
    match pseudo with
    | some p => t.offsetGain - (p + ((tcp t).sentLength + tail.length) + ocs tail)
    | none => ocs (tcp t).data + t.offsetGain

/-! ## Lists of layers -/

/-- The bytes of the layers, one after the other. -/
def dataOf (layers : List Layer) : Bytes := layers.flatMap Layer.data

/-- The size of the layers when they are sent. -/
def sentSize (layers : List Layer) : Nat := (layers.map Layer.sentLength).sum

/-- The sum of the layers when they are sent. -/
def sentSum : Option (ZMod 65535) → List Layer → ZMod 65535
  | _, [] => 0
  | pseudo, layer :: next =>
    layer.sentSum pseudo (dataOf next) +
      256 ^ layer.sentLength * sentSum ((getIp layer).map IpHeader.pseudoSum) next

/-- The offsets that `finalize` sets in the Tcp layers can be written. -/
def Sendable (layers : List Layer) : Prop :=
  ∀ t, .tcp t ∈ layers → ∃ o, Codec.writeBits 4 t.sentOffset = .ok o

/-- The bytes of layers that can be serialised. -/
theorem dataOf_eq {layers : List Layer} {bytes : Bytes} (h : layersToBytes layers = .ok bytes) :
    dataOf layers = bytes := by
  induction layers generalizing bytes with
  | nil =>
    cases h
    rfl
  | cons layer next ih =>
    obtain ⟨data, tail, hdata, htail, rfl⟩ := layersToBytes_cons_eq_ok.mp h
    have hnext : dataOf next = tail := ih htail
    have hlayer : layer.data = data := Layer.data_eq hdata
    show layer.data ++ dataOf next = data ++ tail
    rw [hlayer, hnext]

/-- Every offset in a list can be written: the one in front, and those behind. -/
theorem Sendable.cons_iff {layer : Layer} {next : List Layer} :
    Sendable (layer :: next) ↔
      (∀ t, layer = .tcp t → ∃ o, Codec.writeBits 4 t.sentOffset = .ok o) ∧ Sendable next := by
  constructor
  · intro h
    exact ⟨fun t ht => h t (ht ▸ List.mem_cons_self), fun t ht => h t (List.mem_cons_of_mem _ ht)⟩
  · rintro ⟨hlayer, hnext⟩ t ht
    rcases List.mem_cons.mp ht with ht | ht
    · exact hlayer t ht.symm
    · exact hnext t ht

/-- Padding makes a layer longer by at most three parts in twenty. -/
theorem Layer.sentLength_le (layer : Layer) : 20 * layer.sentLength ≤ 23 * layer.data.length := by
  cases layer with
  | tcp t =>
    cases h : t.toBytes with
    | error e =>
      have hdata : (tcp t).data = [] := by
        rw [data, toBytes, h]
        rfl
      rw [sentLength, hdata]
      exact Nat.le_refl 0
    | ok bytes =>
      obtain ⟨z, -, hlen⟩ := Tcp.length_toBytes h
      have hdata : (tcp t).data = bytes := data_eq h
      rw [sentLength, hdata, Tcp.padAmt]
      omega
  | ether | ipv4 | ipv6 | udp | icmp4 | raw =>
    rw [sentLength]
    · omega
    · intro t h
      cases h

/-- Padding adds at most three bytes to a header of twenty. -/
theorem sentSize_le (layers : List Layer) : 20 * sentSize layers ≤ 23 * (dataOf layers).length := by
  induction layers with
  | nil => exact Nat.le_refl 0
  | cons layer next ih =>
    have hlayer := layer.sentLength_le
    have hsize : sentSize (layer :: next) = layer.sentLength + sentSize next := rfl
    have hdata : dataOf (layer :: next) = layer.data ++ dataOf next := rfl
    rw [hsize, hdata, List.length_append]
    omega

/-! ## The finalised layers -/

/-- A finalised Tcp layer can be written if its offset can, and is padded. -/
theorem Tcp.finalize_written {prev next : List Layer} {tcp : Tcp} {layer : Layer}
    (hfin : LayerExt.finalize prev next (.tcp tcp) = .ok () layer) :
    ((∃ bytes, layer.toBytes = .ok bytes) ↔ ∃ o, Codec.writeBits 4 tcp.sentOffset = .ok o) ∧
      ∀ bytes, layer.toBytes = .ok bytes → bytes.length = (Layer.tcp tcp).sentLength := by
  obtain ⟨header, checksum, hheader, -, -, rfl⟩ := Layer.finalize_tcp_eq_ok.mp hfin
  rw [← sentOffset_eq hheader, sentLength_eq hheader, length_cleared]
  refine ⟨?_, fun bytes hbytes => (toBytes_update hheader hbytes).1⟩
  obtain ⟨a, z, f, -, -, hframe⟩ := toBytes_frame hheader
  constructor
  · rintro ⟨bytes, hbytes⟩
    obtain ⟨o, ho, -⟩ := (hframe _ checksum (padAmt header.length) bytes).mp hbytes
    exact ⟨o, ho⟩
  · rintro ⟨o, ho⟩
    exact ⟨_, (hframe _ checksum (padAmt header.length) _).mpr ⟨o, ho, rfl⟩⟩

/-- Its sum has gained the difference of the offsets and lost what the checksum covered. -/
theorem Tcp.finalize_sent {prev next : List Layer} {tcp : Tcp} {layer : Layer}
    {data tail bytes : Bytes} (hdata : tcp.toBytes = .ok data)
    (htail : layersToBytes next = .ok tail) (hlt : data.length + tail.length < 2 ^ 16)
    (hfin : LayerExt.finalize prev next (.tcp tcp) = .ok () layer)
    (hbytes : layer.toBytes = .ok bytes) :
    ocs bytes = (Layer.tcp tcp).sentSum ((lastIp prev).map IpHeader.pseudoSum) tail := by
  obtain ⟨header, checksum, hheader, hchecksum, -, rfl⟩ := Layer.finalize_tcp_eq_ok.mp hfin
  obtain rfl := Except.ok.inj (hheader.symm.trans hdata)
  rw [← sentOffset_eq hheader] at hbytes
  have hlen := length_cleared header
  have hpad : padAmt header.length ≤ 3 := by
    rw [padAmt]
    omega
  have hlayer : (Layer.tcp tcp).data = header := Layer.data_eq hheader
  have hsum := (toBytes_update hheader hbytes).2
  have hcleared := ocs_cleared hheader
  rw [newChecksum_iff htail (by omega)] at hchecksum
  cases hip : lastIp prev with
  | none =>
    rw [hip] at hchecksum
    rw [Option.map_none, Layer.sentSum, offsetGain, hlayer]
    have heq : checksum = tcp.checksum := hchecksum
    rw [heq] at hsum
    linear_combination hsum
  | some ip =>
    rw [hip] at hchecksum
    obtain ⟨hfits, heq⟩ : ip.Fits ((cleared header).length + tail.length) ∧ _ := hchecksum
    have hpseudo := ip.length_pseudoHeader ip.protocol.id ((cleared header).length + tail.length)
    have hle : (ip.pseudoHeader ip.protocol.id ((cleared header).length + tail.length) ++
        cleared header ++ tail).length ≤ 131074 := by
      simp only [List.length_append]
      omega
    have hcast := checksum_cast hle
    have heven : 2 ∣ (ip.pseudoHeader ip.protocol.id
        ((cleared header).length + tail.length) ++ cleared header).length := by
      have := four_dvd_length_cleared header
      rw [List.length_append]
      omega
    rw [← heq, ocs_append_of_even heven, ocs_append_of_even hpseudo.1,
      IpHeader.ocs_pseudoHeader hfits] at hcast
    rw [Option.map_some, Layer.sentSum, offsetGain, IpHeader.pseudoSum, sentLength_eq hheader]
    push_cast at hcast
    linear_combination hsum + hcast - hcleared

/-- A finalised Udp layer: what its checksum did not cover as it is sent is the old length. -/
theorem Udp.finalize_sent {prev next : List Layer} {udp : Udp} {layer : Layer} {tail bytes : Bytes}
    (htail : layersToBytes next = .ok tail)
    (hfin : LayerExt.finalize prev next (.udp udp) = .ok () layer)
    (hbytes : layer.toBytes = .ok bytes) :
    bytes.length = (Layer.udp udp).sentLength ∧
      ocs bytes = (Layer.udp udp).sentSum ((lastIp prev).map IpHeader.pseudoSum) tail := by
  obtain ⟨tail', htail', hlt, rfl⟩ := Layer.finalize_udp_eq_ok.mp hfin
  obtain rfl := Except.ok.inj (htail'.symm.trans htail)
  have hlength : (BitVec.ofNat 16 (8 + tail'.length)).toNat = 8 + tail'.length :=
    Nat.mod_eq_of_lt hlt
  have hdata : (Layer.udp udp).data = _ := Layer.data_eq (toBytes_eq udp)
  have hsum := ocs_toBytes hbytes
  have hold := ocs_toBytes (toBytes_eq udp)
  rw [ocs_cleared] at hsum hold
  constructor
  · rw [Layer.sentLength, hdata, ← Except.ok.inj ((toBytes_eq _).symm.trans hbytes)]
    · simp only [List.length_append, length_be16]
    · intro t h
      cases h
  · cases hip : lastIp prev with
    | none =>
      rw [hip] at hsum
      rw [Option.map_none, Layer.sentSum, hdata]
      simp only [hlength] at hsum
      push_cast at hsum
      linear_combination hsum - hold
    | some ip =>
      rw [hip] at hsum
      have hfits : ip.Fits (8 + tail'.length) := IpHeader.fits_of_lt hlt
      have hpseudo := ip.length_pseudoHeader ip.protocol.id (8 + tail'.length)
      have h8 := udp.length_cleared
      have hle : (ip.pseudoHeader ip.protocol.id (8 + tail'.length) ++ udp.cleared ++
          tail').length ≤ 131074 := by
        simp only [List.length_append]
        omega
      have hcast := checksum_cast hle
      have heven : 2 ∣ (ip.pseudoHeader ip.protocol.id (8 + tail'.length) ++
          udp.cleared).length := by
        rw [List.length_append]
        omega
      rw [ocs_append_of_even heven, ocs_append_of_even hpseudo.1, IpHeader.ocs_pseudoHeader hfits,
        ocs_cleared] at hcast
      have hnew : ((udp.newChecksum ip tail').toNat : ZMod 65535) = _ := hcast
      simp only [hlength, hnew] at hsum
      rw [Option.map_some, Layer.sentSum, IpHeader.pseudoSum]
      push_cast at hsum
      linear_combination hsum

/-- A finalised IPv4 layer has its checksum in place, and so its words add up to zero. -/
theorem Ipv4.finalize_sent {prev next : List Layer} {ipv4 : Ipv4} {layer : Layer} {data : Bytes}
    (hdata : ipv4.toBytes = .ok data)
    (hfin : LayerExt.finalize prev next (.ipv4 ipv4) = .ok () layer) :
    ∃ bytes, layer.toBytes = .ok bytes ∧ bytes.length = data.length ∧ ocs bytes = 0 := by
  obtain ⟨header, tail, hheader, -, hlt, cleared, hcleared, rfl⟩ :=
    Layer.finalize_ipv4_eq_ok.mp hfin
  obtain rfl := Except.ok.inj (hheader.symm.trans hdata)
  have hlen := length_toBytes_update hheader hcleared
  obtain ⟨x, y, z, -, -, -, hframe⟩ := toBytes_frame hheader
  have hbytes := hframe (BitVec.ofNat 16 (header.length + tail.length)) (Nata.checksum cleared)
  have hsum := @ocs_toBytes _
    { ipv4 with length := BitVec.ofNat 16 (header.length + tail.length) } cleared _ hcleared hbytes
    (by omega)
  exact ⟨_, hbytes, length_toBytes_update hheader hbytes, hsum⟩

/-- **What `finalize` makes of a layer**: whether it can be written, its size, and its sum, the last
    if it and the layers behind are together smaller than a datagram. -/
theorem Layer.finalize_sent {prev next : List Layer} {layer layer' : Layer} {data tail : Bytes}
    (hdata : layer.toBytes = .ok data) (htail : layersToBytes next = .ok tail)
    (hfin : LayerExt.finalize prev next layer = .ok () layer') :
    ((∃ bytes, layer'.toBytes = .ok bytes) ↔
        ∀ t, layer = tcp t → ∃ o, Codec.writeBits 4 t.sentOffset = .ok o) ∧
      ∀ bytes, layer'.toBytes = .ok bytes → bytes.length = layer.sentLength ∧
        (data.length + tail.length < 2 ^ 16 →
          ocs bytes = layer.sentSum ((lastIp prev).map IpHeader.pseudoSum) tail) := by
  -- Every layer but Tcp can be written when it could before.
  have hok : ∀ {bytes : Bytes}, (∀ t, layer ≠ tcp t) → layer'.toBytes = .ok bytes →
      ((∃ bytes, layer'.toBytes = .ok bytes) ↔
        ∀ t, layer = tcp t → ∃ o, Codec.writeBits 4 t.sentOffset = .ok o) :=
    fun hne hbytes => ⟨fun _ t ht => absurd ht (hne t), fun _ => ⟨_, hbytes⟩⟩
  cases layer with
  | tcp t =>
    obtain ⟨hwrite, hlen⟩ := Tcp.finalize_written hfin
    refine ⟨hwrite.trans ⟨fun h => ?_, fun h => h t rfl⟩, fun bytes hbytes =>
      ⟨hlen bytes hbytes, fun hlt => Tcp.finalize_sent hdata htail hlt hfin hbytes⟩⟩
    rintro _ ⟨⟩
    exact h
  | udp u =>
    have hsent := fun bytes (hbytes : layer'.toBytes = .ok bytes) =>
      Udp.finalize_sent htail hfin hbytes
    obtain ⟨_, -, -, rfl⟩ := finalize_udp_eq_ok.mp hfin
    exact ⟨hok nofun (Udp.toBytes_eq _), fun bytes hbytes =>
      ⟨(hsent bytes hbytes).1, fun _ => (hsent bytes hbytes).2⟩⟩
  | ipv4 v =>
    obtain ⟨bytes, hbytes, hlen, hsum⟩ := Ipv4.finalize_sent hdata hfin
    refine ⟨hok nofun hbytes, fun bytes' hbytes' => ?_⟩
    obtain rfl := Except.ok.inj (hbytes.symm.trans hbytes')
    have hsize : (ipv4 v).sentLength = data.length := congrArg List.length (data_eq hdata)
    exact ⟨hlen.trans hsize.symm, fun _ => hsum⟩
  | ipv6 v =>
    obtain ⟨tail', htail', hlt', rfl⟩ := finalize_ipv6_eq_ok.mp hfin
    obtain rfl := Except.ok.inj (htail'.symm.trans htail)
    obtain ⟨x, z, -, hframe⟩ := Ipv6.toBytes_frame hdata
    refine ⟨hok nofun (hframe _), fun bytes hbytes => ?_⟩
    have hsize : (ipv6 v).sentLength = data.length := congrArg List.length (data_eq hdata)
    have hlength : (BitVec.ofNat 16 tail'.length).toNat = tail'.length := Nat.mod_eq_of_lt hlt'
    have hsum := Ipv6.ocs_toBytes_update hdata hbytes
    rw [hlength] at hsum
    rw [hsize, Ipv6.length_toBytes hdata, Ipv6.length_toBytes hbytes, sentSum, data_eq hdata]
    exact ⟨rfl, fun _ => hsum⟩
  | icmp4 i =>
    obtain rfl := finalize_icmp4_eq_ok.mp hfin
    have hsize : (icmp4 i).sentLength = data.length := congrArg List.length (data_eq hdata)
    refine ⟨hok nofun (Icmp4.toBytes_eq _), fun bytes hbytes => ?_⟩
    have hlen : bytes.length = ({ i with checksum := _ } : Icmp4).cleared.length :=
      Icmp4.length_toBytes hbytes
    have hlen' : data.length = i.cleared.length := Icmp4.length_toBytes hdata
    refine ⟨by rw [hlen, hsize, hlen']; rfl, fun hlt => ?_⟩
    have hle : i.cleared.length ≤ 131074 := by omega
    exact @Icmp4.ocs_toBytes _ i bytes hbytes hle
  | ether e =>
    obtain rfl := finalize_ether_eq_ok.mp hfin
    refine ⟨hok nofun hdata, fun bytes hbytes => ?_⟩
    rw [sentSum, data_eq hbytes]
    exact ⟨congrArg List.length (data_eq hbytes).symm, fun _ => rfl⟩
  | raw r =>
    obtain rfl := finalize_raw_eq_ok.mp hfin
    refine ⟨hok nofun hdata, fun bytes hbytes => ?_⟩
    rw [sentSum, data_eq hbytes]
    exact ⟨congrArg List.length (data_eq hbytes).symm, fun _ => rfl⟩

/-- `finalize` keeps the addresses and the protocol of an IP layer. -/
theorem Layer.pseudoSum_finalize {prev next : List Layer} {layer layer' : Layer}
    (hfin : LayerExt.finalize prev next layer = .ok () layer') :
    (getIp layer').map IpHeader.pseudoSum = (getIp layer).map IpHeader.pseudoSum := by
  cases layer with
  | ether e => rw [finalize_ether_eq_ok.mp hfin]
  | raw r => rw [finalize_raw_eq_ok.mp hfin]
  | icmp4 i =>
    obtain rfl := finalize_icmp4_eq_ok.mp hfin
    rfl
  | ipv4 v =>
    obtain ⟨_, _, -, -, -, _, -, rfl⟩ := finalize_ipv4_eq_ok.mp hfin
    rfl
  | ipv6 v =>
    obtain ⟨_, -, -, rfl⟩ := finalize_ipv6_eq_ok.mp hfin
    rfl
  | udp u =>
    obtain ⟨_, -, -, rfl⟩ := finalize_udp_eq_ok.mp hfin
    rfl
  | tcp t =>
    obtain ⟨_, _, -, -, -, rfl⟩ := finalize_tcp_eq_ok.mp hfin
    rfl

omit [Deku] in
theorem lastIp_concat {prev : List Layer} {layer : Layer} :
    lastIp (prev ++ [layer]) = getIp layer := by
  rw [lastIp, List.getLast?_concat, Option.bind_some]

/-- **The finalised layers on the wire**: whether they can be written, their size and their sum. -/
theorem Finalized.sent {prev next next' : List Layer} (h : Finalized prev next next') {tail : Bytes}
    (htail : layersToBytes next = .ok tail) :
    ((∃ bytes, layersToBytes next' = .ok bytes) ↔ Sendable next) ∧
      ∀ bytes, layersToBytes next' = .ok bytes → bytes.length = sentSize next ∧
        (tail.length < 2 ^ 16 →
          ocs bytes = sentSum ((lastIp prev).map IpHeader.pseudoSum) next) := by
  induction h generalizing tail with
  | nil =>
    refine ⟨⟨fun _ _ ht => absurd ht List.not_mem_nil, fun _ => ⟨[], rfl⟩⟩, ?_⟩
    rintro _ ⟨⟩
    exact ⟨rfl, fun _ => rfl⟩
  | @cons prev layer next layer' next' hlayer hnext ih =>
    obtain ⟨data, tail, hdata, hrest, rfl⟩ := layersToBytes_cons_eq_ok.mp htail
    rw [List.length_append]
    obtain ⟨hwrite, hsent⟩ := Layer.finalize_sent hdata hrest hlayer
    obtain ⟨ihwrite, ihsent⟩ := ih hrest
    rw [lastIp_concat, Layer.pseudoSum_finalize hlayer] at ihsent
    constructor
    · rw [Sendable.cons_iff, ← hwrite, ← ihwrite]
      constructor
      · rintro ⟨_, h⟩
        obtain ⟨bytes, bytes', hbytes, hbytes', -⟩ := layersToBytes_cons_eq_ok.mp h
        exact ⟨⟨bytes, hbytes⟩, bytes', hbytes'⟩
      · rintro ⟨⟨bytes, hbytes⟩, bytes', hbytes'⟩
        exact ⟨_, layersToBytes_cons_eq_ok.mpr ⟨bytes, bytes', hbytes, hbytes', rfl⟩⟩
    · intro _ h
      obtain ⟨bytes, bytes', hbytes, hbytes', rfl⟩ := layersToBytes_cons_eq_ok.mp h
      obtain ⟨hlen, hsum⟩ := hsent bytes hbytes
      obtain ⟨hlen', hsum'⟩ := ihsent bytes' hbytes'
      refine ⟨?_, fun hlt => ?_⟩
      · rw [List.length_append, hlen, hlen']
        rfl
      · rw [ocs_append, hlen, hsum hlt, hsum' (by omega), sentSum, dataOf_eq hrest]

end

end Nata
