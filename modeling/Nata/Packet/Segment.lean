/-
  Tcp segments in Ethernet frames.

  A `Segment` is an Ethernet, an Ipv4 and a Tcp header that can be parsed and name each other, and a
  payload.  It is what `parse_packet` makes of a frame with a segment (`segment_of_parse`), and what
  a sender of segments builds.

  * The bytes of a segment are those of the three headers and of the payload, whose sizes are 14,
    `4 * max 5 ihl` and `4 * offset`, and they are parsed back (`Segment.parse`).
  * It can be finalised if and only if the datagram is smaller than 2 ^ 16 bytes; one call sets the
    length and the two checksums, and gets them right (`Segment.finalize`).
  * Bytes behind the segment are parsed as its payload (`Segment.padded`); the length still says how
    much of the payload was sent.
-/
import Nata.Packet.Repair

namespace Nata

section

variable [Deku]

/-- The header of an Ipv4 layer that can be parsed has the size that `ihl` announces, and 20 bytes at
    least. -/
theorem Ipv4.four_mul_ihl {ipv4 : Ipv4} {header : Bytes} (hvalid : codec.Valid ipv4)
    (h : ipv4.toBytes = .ok header) : header.length = 4 * max 5 ipv4.ihl.toNat := by
  obtain ⟨-, -, -, -, -, -, -, -, -, -, -, -, -, -, k, u, hk, hu, hlen⟩ := hvalid
  obtain ⟨z, hz, hheader⟩ := length_toBytes h
  obtain rfl := Except.ok.inj (hu.symm.trans hz)
  have hk' : (ipv4.ihl.toNat - 5) * 4 = k := Except.ok.inj hk
  omega

omit [Deku] in
/-- An Ethernet header whose type has a name can be parsed. -/
theorem Ether.valid_of_ipv4 {ether : Ether} (h : ether.etherType = .IPv4) :
    Ether.codec.Valid ether := by
  have hwell : ether.etherType.WellFormed := by
    rw [h]
    intro code hcode
    cases hcode
  exact ⟨MacAddress.valid _, MacAddress.valid _, hwell.valid⟩

/-- The layer of a payload, if there is one. -/
def payloadLayers (payload : Bytes) : List Layer :=
  if payload.isEmpty then [] else [.raw ⟨payload, 0⟩]

omit [Deku] in
theorem payloadLayers_of_ne_nil {payload : Bytes} (h : payload ≠ []) :
    payloadLayers payload = [.raw ⟨payload, 0⟩] := by
  rw [payloadLayers, if_neg (by rwa [List.isEmpty_iff])]

theorem layersToBytes_payloadLayers (payload : Bytes) :
    layersToBytes (payloadLayers payload) = .ok payload := by
  by_cases h : payload = []
  · rw [h]
    rfl
  · rw [payloadLayers_of_ne_nil h]
    exact layersToBytes_singleton.mpr (Raw.toBytes_eq _)

/-- A Tcp segment in an Ethernet frame. -/
structure Segment where
  ether : Ether
  ipv4 : Ipv4
  tcp : Tcp
  payload : Bytes
  etherType : ether.etherType = .IPv4
  protocol : ipv4.protocol = .TCP
  validIpv4 : Ipv4.codec.Valid ipv4
  validTcp : Tcp.codec.Valid tcp

namespace Segment

/-- The packet of a segment. -/
def packet (self : Segment) : Packet Layer where
  layers := .ether self.ether :: .ipv4 self.ipv4 :: .tcp self.tcp :: payloadLayers self.payload

/-- The bytes of the datagram. -/
def size (self : Segment) : Nat :=
  4 * max 5 self.ipv4.ihl.toNat + 4 * self.tcp.offset.toNat + self.payload.length

/-- The segment with other dependent fields. -/
def update (self : Segment) (length sum sum' : BitVec 16) : Segment :=
  { self with
    ipv4 := { self.ipv4 with length, checksum := sum }
    tcp := { self.tcp with checksum := sum' } }

/-- The segment with bytes behind it. -/
def padded (self : Segment) (padding : Bytes) : Segment :=
  { self with payload := self.payload ++ padding }

/-! ## Bytes -/

/-- The headers of a segment can be parsed. -/
theorem valid (self : Segment) : ∀ layer ∈ self.packet.layers, layer.Valid := by
  refine List.forall_mem_cons.mpr ⟨Ether.valid_of_ipv4 self.etherType, ?_⟩
  refine List.forall_mem_cons.mpr ⟨self.validIpv4, ?_⟩
  refine List.forall_mem_cons.mpr ⟨self.validTcp, ?_⟩
  intro layer hlayer
  by_cases h : self.payload = []
  · rw [h] at hlayer
    cases hlayer
  · rw [payloadLayers_of_ne_nil h] at hlayer
    obtain rfl := List.mem_singleton.mp hlayer
    exact ⟨fun _ _ => trivial, rfl⟩

/-- They name each other. -/
theorem isPath (self : Segment) : IsPath self.packet.layers := by
  have hether : (Layer.ether self.ether).nextType = some .Ipv4 := by
    rw [Layer.nextType, self.etherType]
    rfl
  have hipv4 : (Layer.ipv4 self.ipv4).nextType = some .Tcp := by
    rw [Layer.nextType, self.protocol]
    rfl
  refine List.isChain_cons_cons.mpr ⟨hether, List.isChain_cons_cons.mpr ⟨hipv4, ?_⟩⟩
  by_cases h : self.payload = []
  · rw [h]
    exact List.isChain_singleton _
  · rw [payloadLayers_of_ne_nil h]
    exact List.isChain_cons_cons.mpr ⟨rfl, List.isChain_singleton _⟩

/-- What is behind the Ipv4 header. -/
theorem toBytes_behind (self : Segment) {header' : Bytes} (h : self.tcp.toBytes = .ok header') :
    layersToBytes (.tcp self.tcp :: payloadLayers self.payload) = .ok (header' ++ self.payload) :=
  layersToBytes_cons_eq_ok.mpr ⟨header', _, h, layersToBytes_payloadLayers self.payload, rfl⟩

/-- The bytes of a segment, header by header. -/
theorem toBytes_eq (self : Segment) :
    ∃ link header header', self.ether.toBytes = .ok link ∧ self.ipv4.toBytes = .ok header ∧
      self.tcp.toBytes = .ok header' ∧ link.length = 14 ∧
      header.length = 4 * max 5 self.ipv4.ihl.toNat ∧
      header'.length = 4 * self.tcp.offset.toNat ∧
      self.packet.toBytes = .ok (link ++ (header ++ (header' ++ self.payload))) := by
  have hvalid := self.valid
  obtain ⟨link, hlink⟩ := Layer.toBytes_ok_of_valid (hvalid (.ether self.ether) List.mem_cons_self)
  obtain ⟨header, hheader⟩ := Layer.toBytes_ok_of_valid
    (show (Layer.ipv4 self.ipv4).Valid from self.validIpv4)
  obtain ⟨header', hheader'⟩ := Layer.toBytes_ok_of_valid
    (show (Layer.tcp self.tcp).Valid from self.validTcp)
  refine ⟨link, header, header', hlink, hheader, hheader', Ether.length_toBytes hlink,
    Ipv4.four_mul_ihl self.validIpv4 hheader, Tcp.four_mul_offset self.validTcp hheader', ?_⟩
  apply Packet.toBytes_eq_ok.mpr
  apply layersToBytes_cons_eq_ok.mpr
  exact ⟨link, _, hlink, layersToBytes_cons_eq_ok.mpr
    ⟨header, _, hheader, self.toBytes_behind hheader', rfl⟩, rfl⟩

/-- A segment takes its datagram, behind an Ethernet header. -/
theorem length_toBytes {self : Segment} {bytes : Bytes} (h : self.packet.toBytes = .ok bytes) :
    bytes.length = 14 + self.size := by
  obtain ⟨link, header, header', -, -, -, hlink, hheader, hheader', hbytes⟩ := self.toBytes_eq
  obtain rfl := Except.ok.inj (hbytes.symm.trans h)
  simp only [List.length_append]
  rw [size]
  omega

/-- A segment is parsed back from its bytes. -/
theorem parse {self : Segment} {bytes : Bytes} (h : self.packet.toBytes = .ok bytes) :
    PacketParser.parseNew .Ether bytes = .ok ([], self.packet) := by
  refine PacketParser.parses_new_iff.mp
    (parses_of_path rfl self.isPath (fun layer hlayer => ⟨self.valid layer hlayer, ?_⟩)
      (Packet.toBytes_eq_ok.mp h))
  rintro r rfl
  rcases List.mem_cons.mp hlayer with heq | hlayer
  · cases heq
  rcases List.mem_cons.mp hlayer with heq | hlayer
  · cases heq
  rcases List.mem_cons.mp hlayer with heq | hlayer
  · cases heq
  by_cases hne : self.payload = []
  · rw [hne] at hlayer
    cases hlayer
  · rw [payloadLayers_of_ne_nil hne] at hlayer
    obtain rfl := Layer.raw.inj (List.mem_singleton.mp hlayer)
    exact hne

/-- Bytes behind a segment are bytes behind its payload. -/
theorem toBytes_padded {self : Segment} {bytes : Bytes} (h : self.packet.toBytes = .ok bytes)
    (padding : Bytes) : (self.padded padding).packet.toBytes = .ok (bytes ++ padding) := by
  obtain ⟨link, header, header', hlink, hheader, hheader', -, -, -, hbytes⟩ := self.toBytes_eq
  obtain ⟨_, _, _, hlink', hheader'', hheader''', -, -, -, hpadded⟩ :=
    (self.padded padding).toBytes_eq
  obtain rfl := Except.ok.inj (hbytes.symm.trans h)
  obtain rfl := Except.ok.inj (hlink.symm.trans hlink')
  obtain rfl := Except.ok.inj (hheader.symm.trans hheader'')
  obtain rfl := Except.ok.inj (hheader'.symm.trans hheader''')
  rw [hpadded, padded, List.append_assoc, List.append_assoc, List.append_assoc]

/-! ## Finalising -/

/-- What one call makes of an Ipv4 layer a second call leaves alone, if the sizes stay. -/
theorem finalize_ipv4 (before : Option Layer) {next : List Layer} {ipv4 : Ipv4} {header tail : Bytes}
    (hheader : ipv4.toBytes = .ok header) (htail : layersToBytes next = .ok tail)
    (hlt : header.length + tail.length < 2 ^ 16) :
    ∃ length sum, LayerExt.finalize before.toList next (.ipv4 ipv4) =
        .ok () (.ipv4 { ipv4 with length, checksum := sum }) ∧
      ∀ next' tail', layersToBytes next' = .ok tail' → tail'.length = tail.length →
        LayerExt.finalize before.toList next' (.ipv4 { ipv4 with length, checksum := sum }) =
          .ok () (.ipv4 { ipv4 with length, checksum := sum }) := by
  obtain ⟨_, _, _, -, -, -, hframe⟩ := Ipv4.toBytes_frame hheader
  have hcleared := hframe (BitVec.ofNat 16 (header.length + tail.length)) 0
  generalize _ ++ be (0 : BitVec 16) ++ _ = cleared at hcleared
  refine ⟨_, checksum cleared, Layer.finalize_ipv4_eq_ok.mpr
    ⟨header, tail, hheader, htail, hlt, cleared, hcleared, rfl⟩, ?_⟩
  intro next' tail' htail' hlen
  have hheader' := hframe (BitVec.ofNat 16 (header.length + tail.length)) (checksum cleared)
  have hsize := Ipv4.length_toBytes_update hheader hheader'
  refine Layer.finalize_ipv4_eq_ok.mpr
    ⟨_, tail', hheader', htail', by omega, cleared, ?_, ?_⟩
  · rw [hsize, hlen]
    exact hcleared
  · rw [hsize, hlen]

/-- A payload is not finalised. -/
theorem runs_payloadLayers (before : Option Layer) (payload : Bytes) :
    Layer.pass.Runs before (payloadLayers payload) (payloadLayers payload) := by
  by_cases h : payload = []
  · rw [h]
    exact .nil
  · rw [payloadLayers_of_ne_nil h]
    exact Layer.runs_cons (Layer.finalize_raw_eq_ok.mpr rfl) .nil

/-- **A segment is finalised by one call**, if its datagram has fewer than 2 ^ 16 bytes. -/
theorem finalize {self : Segment} (hlt : self.size < 2 ^ 16) :
    ∃ length sum sum', self.packet.finalize = .ok () (self.update length sum sum').packet ∧
      (self.update length sum sum').packet.Settled := by
  obtain ⟨link, header, header', hlink, hheader, hheader', h14, hsize, hsize', -⟩ := self.toBytes_eq
  have hpayload := layersToBytes_payloadLayers self.payload
  rw [size] at hlt
  -- The Tcp layer, behind the Ipv4 layer, and in front of the payload.
  obtain ⟨sum', -, htcp, htcp'⟩ := Tcp.finalize_checksum (some (Layer.ipv4 self.ipv4).context)
    self.validTcp hheader' hpayload (by omega)
  obtain ⟨header'', hheader'', hsame, -⟩ := Tcp.toBytes_checksum hheader' sum'
  have htail := self.toBytes_behind hheader'
  have htail' : layersToBytes (.tcp { self.tcp with checksum := sum' } ::
      payloadLayers self.payload) = .ok (header'' ++ self.payload) :=
    layersToBytes_cons_eq_ok.mpr ⟨header'', self.payload, hheader'', hpayload, rfl⟩
  -- The Ipv4 layer.
  obtain ⟨length, sum, hipv4, hipv4'⟩ := finalize_ipv4 (some (Layer.ether self.ether).context)
    hheader htail (by rw [List.length_append]; omega)
  have hlen : (header'' ++ self.payload).length = (header' ++ self.payload).length := by
    rw [List.length_append, List.length_append, hsame]
  have hether : ∀ next, LayerExt.finalize (none : Option Layer).toList next (.ether self.ether) =
      .ok () (.ether self.ether) := fun _ => Layer.finalize_ether_eq_ok.mpr rfl
  have hfirst : self.packet.finalize = .ok () (self.update length sum sum').packet :=
    Packet.finalize_runs_iff.mpr <| Layer.runs_cons (hether _) <| Layer.runs_cons hipv4 <|
      Layer.runs_cons htcp <| runs_payloadLayers _ self.payload
  have hself : (self.update length sum sum').packet.finalize =
      .ok () (self.update length sum sum').packet :=
    Packet.finalize_runs_iff.mpr <| Layer.runs_cons (hether _) <|
      Layer.runs_cons (hipv4' _ _ htail' hlen) <| Layer.runs_cons htcp' <|
      runs_payloadLayers _ self.payload
  obtain ⟨_, _, _, -, -, -, -, -, -, hbytes⟩ := (self.update length sum sum').toBytes_eq
  have hsize : (self.update length sum sum').size = self.size := rfl
  have hbound := length_toBytes hbytes
  rw [hsize, size] at hbound
  exact ⟨length, sum, sum', hfirst, (Packet.settled_of_self hbytes (by omega) hself).1⟩

/-- What is sent of a segment: the segment with its length and checksums, which are right, and which
    is parsed back from its bytes. -/
structure Sent (s sent : Segment) : Prop where
  update : ∃ length sum sum', sent = s.update length sum sum'
  settled : sent.packet.Settled
  bytes : ∃ bytes, sent.packet.toBytes = .ok bytes ∧ bytes.length = 14 + s.size ∧
    PacketParser.parseNew .Ether bytes = .ok ([], sent.packet)

/-- What one call of `finalize` makes of a segment. -/
theorem sent_of_finalize {self : Segment} {packet' : Packet Layer}
    (h : self.packet.finalize = .ok () packet') (hlt : self.size < 2 ^ 16) :
    ∃ sent, packet' = sent.packet ∧ self.Sent sent := by
  obtain ⟨length, sum, sum', hfin, hsettled⟩ := finalize hlt
  obtain ⟨-, rfl⟩ := EStateM.Result.ok.inj (h.symm.trans hfin)
  obtain ⟨_, _, _, -, -, -, -, -, -, hbytes⟩ := (self.update length sum sum').toBytes_eq
  have hsize := length_toBytes hbytes
  exact ⟨_, rfl, ⟨length, sum, sum', rfl⟩, hsettled, _, hbytes, hsize, parse hbytes⟩

/-- A datagram that is too large for its length field is not finalised. -/
theorem size_lt_of_finalize {self : Segment} {packet' : Packet Layer}
    (h : self.packet.finalize = .ok () packet') : self.size < 2 ^ 16 := by
  obtain ⟨_, header, header', -, hheader, hheader', -, hsize, hsize', -⟩ := self.toBytes_eq
  have hruns := Packet.finalize_runs_iff.mp h
  generalize packet'.layers = layers' at hruns
  cases hruns with
  | cons hether hrest =>
    cases hrest with
    | cons hipv4 hrest =>
      obtain ⟨_, tail, hheader'', htail, hlt, -⟩ :=
        Layer.finalize_ipv4_eq_ok.mp (Layer.step_eq_some.mp hipv4)
      obtain rfl := Except.ok.inj (hheader.symm.trans hheader'')
      obtain rfl := Except.ok.inj ((self.toBytes_behind hheader').symm.trans htail)
      rw [List.length_append] at hlt
      rw [size]
      omega

/-- The length of a segment that has been finalised says how large the datagram is. -/
theorem length_of_settled {self : Segment} (h : self.packet.Settled) :
    self.ipv4.length.toNat = self.size := by
  obtain ⟨_, header, header', -, hheader, hheader', -, hsize, hsize', -⟩ := self.toBytes_eq
  obtain ⟨_, tail, _, hheader'', htail, -, hlength, -⟩ :=
    h [.ether self.ether] (.ipv4 self.ipv4) (.tcp self.tcp :: payloadLayers self.payload) rfl
  obtain rfl := Except.ok.inj (hheader.symm.trans hheader'')
  obtain rfl := Except.ok.inj ((self.toBytes_behind hheader').symm.trans htail)
  rw [List.length_append] at hlength
  rw [size]
  omega

end Segment

/-! ## Which packets are segments -/

/-- How far from the wire a layer is. -/
def LayerType.rank : LayerType → Nat
  | .Ether => 0
  | .Ipv4 | .Ipv6 => 1
  | .Tcp | .Udp | .Icmp4 => 2
  | .Raw => 3

omit [Deku] in
/-- The next layer is farther from the wire. -/
theorem Layer.rank_lt_of_next {layer : Layer} {t : LayerType} (h : layer.nextType = some t) :
    layer.typeId.rank < t.rank := by
  cases layer with
  | icmp4 | raw => cases h
  | tcp | udp =>
    obtain rfl := Option.some.inj h
    exact Nat.lt_add_one 2
  | ether e =>
    obtain rfl := Option.some.inj h
    show LayerType.Ether.rank < _
    unfold EtherType.nextType
    split <;> decide
  | ipv4 v =>
    obtain rfl := Option.some.inj h
    show LayerType.Ipv4.rank < _
    unfold IpProtocol.nextType4
    split <;> decide
  | ipv6 v =>
    obtain rfl := Option.some.inj h
    show LayerType.Ipv6.rank < _
    unfold IpProtocol.nextType6
    split <;> decide

omit [Deku] in
/-- The layers of a packet are further and further from the wire. -/
theorem IsPath.pairwise {layers : List Layer} (h : IsPath layers) :
    layers.Pairwise fun a b => a.typeId.rank < b.typeId.rank := by
  let R : Layer → Layer → Prop := fun a b => a.typeId.rank < b.typeId.rank
  have : Trans R R R := ⟨fun hab hbc => Nat.lt_trans hab hbc⟩
  have hchain : layers.IsChain R := h.imp fun _ _ hnext => Layer.rank_lt_of_next hnext
  exact hchain.pairwise

omit [Deku] in
/-- No layer is farther than a payload. -/
theorem LayerType.rank_le (t : LayerType) : t.rank ≤ 3 := by
  cases t <;> decide

omit [Deku] in
theorem Layer.eq_raw_of_rank {layer : Layer} (h : layer.typeId.rank = 3) : ∃ r, layer = .raw r := by
  cases layer with
  | raw r => exact ⟨r, rfl⟩
  | ether | ipv4 | ipv6 | tcp | udp | icmp4 => simp [Layer.typeId, LayerType.rank] at h

omit [Deku] in
theorem EtherType.eq_of_nextType {etherType : EtherType} (h : etherType.nextType = .Ipv4) :
    etherType = .IPv4 := by
  unfold nextType at h
  split at h
  · rfl
  · cases h
  · cases h

omit [Deku] in
theorem IpProtocol.eq_of_nextType4 {protocol : IpProtocol} (h : protocol.nextType4 = .Tcp) :
    protocol = .TCP := by
  unfold nextType4 at h
  split at h
  · rfl
  · cases h
  · cases h
  · cases h

omit [Deku] in
/-- If a path has a layer that is next to the first one in rank, this layer is the second one. -/
theorem eq_of_pairwise {layer : Layer} {layers : List Layer} {n : Nat}
    (hpair : layers.Pairwise fun a b => a.typeId.rank < b.typeId.rank)
    (hpos : ∀ b ∈ layers, n < b.typeId.rank) (hmem : layer ∈ layers)
    (hrank : layer.typeId.rank = n + 1) : ∃ next, layers = layer :: next := by
  cases layers with
  | nil => cases hmem
  | cons second next =>
    rcases List.mem_cons.mp hmem with rfl | hnext
    · exact ⟨next, rfl⟩
    · have hlt := (List.pairwise_cons.mp hpair).1 layer hnext
      have hsecond := hpos second List.mem_cons_self
      omega

omit [Deku] in
/-- Behind a transport layer there is a `Raw` layer, or nothing. -/
theorem raw_of_pairwise {layers : List Layer}
    (hpair : layers.Pairwise fun a b => a.typeId.rank < b.typeId.rank)
    (hpos : ∀ b ∈ layers, 2 < b.typeId.rank) : layers = [] ∨ ∃ r, layers = [.raw r] := by
  cases layers with
  | nil => exact .inl rfl
  | cons fourth next =>
    have hfourth := hpos fourth List.mem_cons_self
    have hle := fourth.typeId.rank_le
    obtain ⟨r, rfl⟩ := Layer.eq_raw_of_rank (show fourth.typeId.rank = 3 by omega)
    cases next with
    | nil => exact .inr ⟨r, rfl⟩
    | cons fifth next =>
      have hfifth := (List.pairwise_cons.mp hpair).1 fifth List.mem_cons_self
      have hle := fifth.typeId.rank_le
      exact absurd hfifth (Nat.not_lt.mpr hle)

/-- **An Ethernet frame with an Ipv4 and a Tcp layer is a segment.** -/
theorem segment_of_parse {input rest : Bytes} {packet : Packet Layer} {v : Ipv4} {t : Tcp}
    (h : PacketParser.parseNew .Ether input = .ok (rest, packet)) (hv : .ipv4 v ∈ packet.layers)
    (ht : .tcp t ∈ packet.layers) : ∃ s : Segment, packet = s.packet := by
  obtain ⟨-, hhead, hpath, hvalid⟩ := PacketParser.parseNew_path h
  have hinput := Packet.toBytes_eq_ok.mp (PacketParser.toBytes_of_parseNew h)
  have hparts := frames_of_parseNew h
  obtain ⟨layers⟩ := packet
  cases layers with
  | nil => cases hhead
  | cons first layers =>
    cases first with
    | ipv4 | ipv6 | tcp | udp | icmp4 | raw => cases hhead
    | ether e =>
      obtain ⟨hpos, hpair⟩ := List.pairwise_cons.mp hpath.pairwise
      have hv' : .ipv4 v ∈ layers := (List.mem_cons.mp hv).resolve_left nofun
      obtain ⟨next, rfl⟩ := eq_of_pairwise hpair hpos hv' rfl
      obtain ⟨hpos, hpair⟩ := List.pairwise_cons.mp hpair
      have ht' : .tcp t ∈ next :=
        (List.mem_cons.mp ((List.mem_cons.mp ht).resolve_left nofun)).resolve_left nofun
      obtain ⟨last, rfl⟩ := eq_of_pairwise hpair hpos ht' rfl
      obtain ⟨hpos, hpair⟩ := List.pairwise_cons.mp hpair
      have hether : (Layer.ether e).nextType = some .Ipv4 := (List.isChain_cons_cons.mp hpath).1
      have hipv4 : (Layer.ipv4 v).nextType = some .Tcp :=
        (List.isChain_cons_cons.mp (List.isChain_cons_cons.mp hpath).2).1
      have htyped := EtherType.eq_of_nextType (Option.some.inj hether)
      have hprotocol := IpProtocol.eq_of_nextType4 (Option.some.inj hipv4)
      have hraw : ∃ payload, last = payloadLayers payload := by
        rcases raw_of_pairwise hpair hpos with rfl | ⟨r, rfl⟩
        · exact ⟨[], rfl⟩
        · obtain ⟨link, _, hlink, -, rfl⟩ := layersToBytes_cons_eq_ok.mp hinput
          have hne := hparts.ne_nil (List.append_ne_nil_of_left_ne_nil
            (List.ne_nil_of_length_eq_add_one (Ether.length_toBytes hlink)) _)
          have hmem : .raw r ∈ [.ether e, .ipv4 v, .tcp t] ++ [Layer.raw r] :=
            List.mem_append_right _ List.mem_cons_self
          have hdata : (Layer.raw r).data = r.data := Layer.data_eq (Raw.toBytes_eq r)
          have hpayload : r.data ≠ [] := hdata ▸ hne _ (List.mem_map_of_mem hmem)
          have hzero : ⟨r.data, 0⟩ = r := (hvalid (.raw r) hmem).2
          exact ⟨r.data, by rw [payloadLayers_of_ne_nil hpayload, hzero]⟩
      obtain ⟨payload, rfl⟩ := hraw
      exact ⟨⟨e, v, t, payload, htyped, hprotocol, hvalid (.ipv4 v) hv, hvalid (.tcp t) ht⟩, rfl⟩

end

end Nata
