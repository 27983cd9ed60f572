/-
  Captured frames whose lengths and checksums are wrong.

  A capture may hold frames whose checksums were left to the network card, or whose lengths are those
  of a segment that was cut later.  `parse_packet` does not look at them.  So one can parse such a
  frame, call `finalize`, and serialise it again; this file says what comes out.

  Everything that is parsed can be finalised, as long as it fits a datagram: a parsed header is one
  that can be written, and a parsed Tcp header fills its offset, so that nothing is padded.  A frame
  has one transport layer at most, so two calls are enough (`repair_frame`).
-/
import Nata.Packet.AtRest
import Nata.Packet.Grammar

namespace Nata

section

variable [Deku]

/-! ## One layer -/

/-- What `finalize` makes of a layer that can be parsed: the same layer but for its dependent
    fields. -/
structure Layer.Kept (before : Option Layer) (layer layer' : Layer) : Prop where
  valid : layer'.Valid
  typeId : layer'.typeId = layer.typeId
  nextType : layer'.nextType = layer.nextType
  shape : layer'.shape = layer.shape
  draft : layer'.draft before = layer.draft before
  raw : ∀ r, layer' = .raw r → layer = .raw r

/-- A Tcp header that can be parsed is finalised without padding: of its fields, only the checksum is
    set, and a second call sets it to the same. -/
theorem Tcp.finalize_checksum (before : Option Layer) {next : List Layer} {tcp : Tcp}
    {header tail : Bytes} (hvalid : codec.Valid tcp) (hheader : tcp.toBytes = .ok header)
    (htail : layersToBytes next = .ok tail) (hlt : header.length + tail.length < 2 ^ 16) :
    ∃ checksum, tcp.NewChecksum before.toList next (cleared header) checksum ∧
      LayerExt.finalize before.toList next (.tcp tcp) = .ok () (.tcp { tcp with checksum }) ∧
      LayerExt.finalize before.toList next (.tcp { tcp with checksum }) =
        .ok () (.tcp { tcp with checksum }) := by
  have hsize := four_mul_offset hvalid hheader
  have hpad : padAmt header.length = 0 := by
    rw [padAmt]
    omega
  have hcleared := length_cleared header
  have hoffset : BitVec.ofNat 8 ((cleared header).length / 4) = tcp.offset := by
    have := tcp.offset.isLt
    exact ((ofNat_eq_iff (by omega)).mpr (by omega)).symm
  have hbound := tcp.offset.isLt
  obtain ⟨checksum, hchecksum⟩ : ∃ checksum,
      tcp.NewChecksum before.toList next (cleared header) checksum := by
    apply exists_newChecksum_iff.mpr
    unfold SegmentFits
    cases before.toList.getLast? with
    | none => trivial
    | some layer =>
      exact ⟨tail, htail, by omega, fun ip _ => IpHeader.fits_of_lt (by omega)⟩
  refine ⟨checksum, hchecksum, ?_, ?_⟩
  · refine Layer.finalize_tcp_eq_ok.mpr ⟨header, checksum, hheader, hchecksum, by omega, ?_⟩
    rw [hpad, List.replicate_zero, List.append_nil, hoffset]
  · obtain ⟨header', hheader', hlen, hsame⟩ := toBytes_checksum hheader checksum
    refine Layer.finalize_tcp_eq_ok.mpr ⟨header', checksum, hheader', ?_, by rw [hsame]; omega, ?_⟩
    · rw [hsame]
      unfold NewChecksum at hchecksum ⊢
      cases hlast : before.toList.getLast? with
      | none => rfl
      | some layer =>
        rw [hlast] at hchecksum
        obtain ⟨payload, hpayload, hfits, hip⟩ := hchecksum
        refine ⟨payload, hpayload, hfits, ?_⟩
        cases hget : getIp layer with
        | none => rfl
        | some ip =>
          rw [hget] at hip
          exact hip
    · rw [hsame, hlen, hpad, List.replicate_zero, List.append_nil, hoffset]

/-- A Tcp header that can be parsed can be finalised. -/
theorem Tcp.finalize_valid {before : Option Layer} {next : List Layer} {tcp : Tcp} {header tail : Bytes}
    (hvalid : codec.Valid tcp) (hheader : tcp.toBytes = .ok header)
    (htail : layersToBytes next = .ok tail) (hlt : header.length + tail.length < 2 ^ 16) :
    ∃ layer', LayerExt.finalize before.toList next (.tcp tcp) = .ok () layer' ∧
      (Layer.tcp tcp).Kept before layer' := by
  obtain ⟨checksum, hchecksum, hfin, -⟩ := finalize_checksum before hvalid hheader htail hlt
  refine ⟨_, hfin, ⟨hvalid, rfl, rfl, ?_, ?_, nofun⟩⟩
  · obtain ⟨header', hheader', hlen, -⟩ := toBytes_checksum hheader checksum
    refine Layer.shape_congr (fun bytes hbytes => ⟨header', hheader', ?_⟩) fun _ _ =>
      ⟨header, hheader⟩
    rw [hlen, Except.ok.inj (hheader.symm.trans hbytes)]
  · rw [Layer.draft, Layer.draft]
    cases hip : (before.bind getIp).isSome with
    | true => rfl
    | false =>
      obtain rfl := newChecksum_toList hip hchecksum
      rfl

/-- **A layer that can be parsed can be finalised**, and little of it changes. -/
theorem Layer.finalize_valid (before : Option Layer) {next : List Layer} {layer : Layer}
    {bytes : Bytes} (hvalid : layer.Valid) (hbytes : layersToBytes (layer :: next) = .ok bytes)
    (hlt : bytes.length < 2 ^ 16) :
    ∃ layer', LayerExt.finalize before.toList next layer = .ok () layer' ∧
      layer.Kept before layer' := by
  obtain ⟨data, tail, hdata, htail, rfl⟩ := layersToBytes_cons_eq_ok.mp hbytes
  rw [List.length_append] at hlt
  have hkept : ∀ {layer'}, LayerExt.finalize before.toList next layer = .ok () layer' →
      (∀ t, layer ≠ .tcp t) →
        layer'.typeId = layer.typeId ∧ layer'.shape = layer.shape ∧
          layer'.draft before = layer.draft before := by
    intro layer' hfin htcp
    have hstep := step_eq_some.mpr hfin
    exact ⟨(step_kind hstep).2, step_shape htcp hstep, step_draft htcp hstep⟩
  cases layer with
  | tcp t => exact Tcp.finalize_valid hvalid hdata htail hlt
  | ether e =>
    exact ⟨_, finalize_ether_eq_ok.mpr rfl, ⟨hvalid, rfl, rfl, rfl, rfl, nofun⟩⟩
  | raw r =>
    exact ⟨_, finalize_raw_eq_ok.mpr rfl, ⟨hvalid, rfl, rfl, rfl, rfl, fun _ h => h⟩⟩
  | icmp4 i =>
    have hfin : LayerExt.finalize before.toList next (.icmp4 i) = _ := finalize_icmp4_eq_ok.mpr rfl
    obtain ⟨htype, hshape, hdraft⟩ := hkept hfin nofun
    exact ⟨_, hfin, ⟨hvalid, htype, rfl, hshape, hdraft, nofun⟩⟩
  | udp u =>
    obtain rfl := Except.ok.inj ((Udp.toBytes_eq u).symm.trans hdata)
    simp only [List.length_append, length_be16] at hlt
    have hfin : LayerExt.finalize before.toList next (.udp u) = _ :=
      finalize_udp_eq_ok.mpr ⟨tail, htail, by omega, rfl⟩
    obtain ⟨htype, hshape, hdraft⟩ := hkept hfin nofun
    exact ⟨_, hfin, ⟨⟨trivial, trivial, trivial, trivial⟩, htype, rfl, hshape, hdraft, nofun⟩⟩
  | ipv6 v =>
    have hfin : LayerExt.finalize before.toList next (.ipv6 v) = _ :=
      finalize_ipv6_eq_ok.mpr ⟨tail, htail, by omega, rfl⟩
    obtain ⟨htype, hshape, hdraft⟩ := hkept hfin nofun
    exact ⟨_, hfin, ⟨hvalid, htype, rfl, hshape, hdraft, nofun⟩⟩
  | ipv4 v =>
    obtain ⟨_, _, _, -, -, -, hframe⟩ := Ipv4.toBytes_frame hdata
    have hfin : LayerExt.finalize before.toList next (.ipv4 v) = _ := finalize_ipv4_eq_ok.mpr
      ⟨data, tail, hdata, htail, hlt, _, hframe (BitVec.ofNat 16 (data.length + tail.length)) 0, rfl⟩
    obtain ⟨htype, hshape, hdraft⟩ := hkept hfin nofun
    exact ⟨_, hfin, ⟨hvalid, htype, rfl, hshape, hdraft, nofun⟩⟩

/-! ## All layers -/

/-- How a layer goes with those before and behind it. -/
def Layer.link (layer : Layer) : LayerType × Option LayerType := (layer.typeId, layer.nextType)

omit [Deku] in
/-- The bindings look at the types and at what names the next layer. -/
theorem isPath_congr {layers layers' : List Layer}
    (h : layers'.map Layer.link = layers.map Layer.link) (hpath : IsPath layers) :
    IsPath layers' := by
  have hlinks : ∀ l : List Layer, IsPath l ↔
      (l.map Layer.link).IsChain fun a b => a.2 = some b.1 := by
    intro l
    rw [List.isChain_map]
    rfl
  rwa [hlinks, h, ← hlinks]

/-- What `finalize` makes of layers that can be parsed. -/
structure LayersKept (before : Option Layer) (layers layers' : List Layer) : Prop where
  valid : ∀ layer ∈ layers', layer.Valid
  links : layers'.map Layer.link = layers.map Layer.link
  shapes : layers'.map Layer.shape = layers.map Layer.shape
  drafts : Layer.pass.cores before layers' = Layer.pass.cores before layers
  raws : ∀ r, .raw r ∈ layers' → .raw r ∈ layers

theorem Layer.runs_cons {before : Option Layer} {layer layer' : Layer} {next next' : List Layer}
    (h : LayerExt.finalize before.toList next layer = .ok () layer')
    (hnext : Layer.pass.Runs (some layer.context) next next') :
    Layer.pass.Runs before (layer :: next) (layer' :: next') :=
  .cons (Layer.step_eq_some.mpr h) hnext

/-- Layers that were parsed are finalised, and keep what was parsed. -/
theorem runs_of_valid (before : Option Layer) {layers : List Layer} {bytes : Bytes}
    (hvalid : ∀ layer ∈ layers, layer.Valid) (hbytes : layersToBytes layers = .ok bytes)
    (hlt : bytes.length < 2 ^ 16) :
    ∃ layers', Layer.pass.Runs before layers layers' ∧ LayersKept before layers layers' := by
  induction layers generalizing before bytes with
  | nil => exact ⟨[], .nil, ⟨fun _ h => absurd h List.not_mem_nil, rfl, rfl, rfl, fun _ h => h⟩⟩
  | cons layer next ih =>
    obtain ⟨hlayer, hnext⟩ := List.forall_mem_cons.mp hvalid
    obtain ⟨data, tail, hdata, htail, hsplit⟩ := layersToBytes_cons_eq_ok.mp hbytes
    obtain ⟨layer', hfin, hkept⟩ := Layer.finalize_valid before hlayer hbytes hlt
    rw [hsplit, List.length_append] at hlt
    obtain ⟨next', hrun, hrest⟩ := ih (some layer.context) hnext htail (by omega)
    have hstep := Layer.step_eq_some.mpr hfin
    refine ⟨layer' :: next', Layer.runs_cons hfin hrun, ?_⟩
    constructor
    · exact List.forall_mem_cons.mpr ⟨hkept.valid, hrest.valid⟩
    · rw [List.map_cons, List.map_cons, hrest.links, Layer.link, Layer.link, hkept.typeId,
        hkept.nextType]
    · rw [List.map_cons, List.map_cons, hrest.shapes, hkept.shape]
    · have hcontext : Layer.pass.context layer' = Layer.pass.context layer :=
        (Layer.step_kind hstep).1
      have hcore : Layer.pass.core before layer' = Layer.pass.core before layer := hkept.draft
      rw [Pass.cores, Pass.cores, hcontext, hcore]
      exact congrArg _ hrest.drafts
    · intro r hr
      rcases List.mem_cons.mp hr with hr | hr
      · rw [hkept.raw r hr.symm]
        exact List.mem_cons_self
      · exact List.mem_cons_of_mem _ (hrest.raws r hr)

/-- What two calls keep. -/
theorem LayersKept.trans {before : Option Layer} {xs ys zs : List Layer}
    (h : LayersKept before xs ys) (h' : LayersKept before ys zs) : LayersKept before xs zs where
  valid := h'.valid
  links := h'.links.trans h.links
  shapes := h'.shapes.trans h.shapes
  drafts := h'.drafts.trans h.drafts
  raws r hr := h.raws r (h'.raws r hr)

omit [Deku] in
/-- Behind a transport layer there is only data. -/
theorem countP_isTransport_le {layers : List Layer} (h : IsPath layers) :
    layers.countP Layer.isTransport ≤ 1 := by
  induction layers with
  | nil => exact Nat.zero_le 1
  | cons layer next ih =>
    have hnext := ih h.tail
    rw [List.countP_cons]
    by_cases hlayer : layer.isTransport = true
    · have hnone : next.countP Layer.isTransport = 0 := by
        cases next with
        | nil => rfl
        | cons second rest =>
          obtain ⟨hsel, hrest⟩ := List.isChain_cons_cons.mp h
          have hraw : second.typeId = .Raw := by
            cases layer with
            | tcp | udp => exact (Option.some.inj hsel).symm
            | ether | ipv4 | ipv6 | icmp4 | raw => cases hlayer
          cases second with
          | raw r =>
            cases rest with
            | nil => rfl
            | cons third rest =>
              cases (List.isChain_cons_cons.mp hrest).1
          | ether | ipv4 | ipv6 | tcp | udp | icmp4 => cases hraw
      rw [if_pos hlayer, hnone]
    · rw [if_neg hlayer]
      exact hnext

omit [Deku] in
/-- The parts of an input that is not empty are not empty. -/
theorem Frames.ne_nil {t : LayerType} {input : Bytes} {parts : List (LayerType × Bytes)}
    (h : Frames t input parts) (hne : input ≠ []) : ∀ part ∈ parts, part.2 ≠ [] := by
  induction h with
  | last _ =>
    intro part hpart
    obtain rfl := List.mem_singleton.mp hpart
    exact hne
  | @more t t' input n parts hfront hlt hsel _ ih =>
    have hdrop : input.drop n ≠ [] := by
      intro hnil
      have := List.drop_eq_nil_iff.mp hnil
      omega
    intro part hpart
    rcases List.mem_cons.mp hpart with rfl | hpart
    · intro htake
      rcases List.take_eq_nil_iff.mp htake with hzero | hnil
      · exact absurd (hfront.pos hsel) (Nat.not_lt.mpr (Nat.le_of_eq hzero))
      · exact hne hnil
    · exact ih hdrop part hpart

/-- Layers that go together are parsed back, if they have some bytes. -/
theorem PacketParser.parseNew_of_layersKept {t : LayerType} {input rest : Bytes}
    {packet packet' : Packet Layer} {bytes : Bytes}
    (h : parseNew t input = .ok (rest, packet))
    (hkept : LayersKept none packet.layers packet'.layers)
    (hbytes : layersToBytes packet'.layers = .ok bytes) :
    parseNew t bytes = .ok ([], packet') := by
  obtain ⟨-, hhead, hpath, -⟩ := parseNew_path h
  have hpath' := isPath_congr hkept.links hpath
  have htypes : packet'.layers.map Layer.typeId = packet.layers.map Layer.typeId := by
    have := congrArg (List.map Prod.fst) hkept.links
    rwa [List.map_map, List.map_map] at this
  rw [← List.head?_map, ← htypes, List.head?_map] at hhead
  obtain ⟨layers'⟩ := packet'
  cases layers' with
  | nil => cases hhead
  | cons layer' next' =>
    have htype : layer'.typeId = t := Option.some.inj hhead
    by_cases hinput : input = []
    · -- There is one layer only, since the others are behind some bytes.
      have hframes := frames_of_parseNew h
      generalize hparts : packet.layers.map Layer.part = parts at hframes
      have hone : packet.layers.length = 1 := by
        rw [← List.length_map (f := Layer.part), hparts]
        cases hframes with
        | last => rfl
        | more _ hlt _ _ =>
          rw [hinput] at hlt
          exact absurd hlt (Nat.not_lt_zero _)
      have hone' := congrArg List.length htypes
      rw [List.length_map, List.length_map, hone] at hone'
      obtain rfl := List.eq_nil_of_length_eq_zero (Nat.succ.inj hone')
      have hparse : Layer.parse t bytes = .ok ([], layer') :=
        Layer.parse_eq_ok.mpr ⟨htype, hkept.valid layer' List.mem_cons_self, fun _ => rfl, bytes,
          layersToBytes_singleton.mp hbytes, (List.append_nil bytes).symm⟩
      exact parseNew_of_end hparse (.inl rfl)
    · have hparts := (frames_of_parseNew h).ne_nil hinput
      refine parses_new_iff.mp (parses_of_path htype hpath' (fun l hl => ?_) hbytes)
      refine ⟨hkept.valid l hl, ?_⟩
      rintro r rfl hdata
      have hraw : (Layer.raw r).data = r.data := Layer.data_eq (Raw.toBytes_eq r)
      exact hparts _ (List.mem_map_of_mem (hkept.raws r hl)) (hraw.trans hdata)

/-- **A frame whose lengths and checksums are wrong can be repaired**: what is parsed from fewer than
    2 ^ 16 bytes can be finalised twice; it is then right, it differs from what was parsed in its
    lengths and checksums only, it has as many bytes, and it is parsed back from them. -/
theorem repair_frame {t : LayerType} {input rest : Bytes} {packet : Packet Layer}
    (h : PacketParser.parseNew t input = .ok (rest, packet)) (hlt : input.length < 2 ^ 16) :
    ∃ packet' bytes, packet.finalizeTimes 2 = .ok () packet' ∧ packet'.Settled ∧
      packet'.drafts = packet.drafts ∧ packet'.toBytes = .ok bytes ∧
      bytes.length = input.length ∧ PacketParser.parseNew t bytes = .ok ([], packet') := by
  have hinput := Packet.toBytes_eq_ok.mp (PacketParser.toBytes_of_parseNew h)
  obtain ⟨-, -, hpath, hvalid⟩ := PacketParser.parseNew_path h
  obtain ⟨once, hrun, hkept⟩ := runs_of_valid none hvalid hinput hlt
  obtain ⟨bytes, hbytes, hlen⟩ := layersToBytes_of_shapes hkept.shapes.symm hinput
  obtain ⟨twice, hrun', hkept'⟩ := runs_of_valid none hkept.valid hbytes (hlen ▸ hlt)
  obtain ⟨bytes', hbytes', hlen'⟩ := layersToBytes_of_shapes hkept'.shapes.symm hbytes
  have hall := hkept.trans hkept'
  have hfinal : packet.finalizeTimes 2 = .ok () ⟨twice⟩ := by
    apply Packet.finalizeTimes_succ.mpr
    refine ⟨⟨once⟩, ?_, Packet.finalize_runs_iff.mpr hrun'⟩
    apply Packet.finalizeTimes_succ.mpr
    exact ⟨packet, Packet.finalizeTimes_zero.mpr rfl, Packet.finalize_runs_iff.mpr hrun⟩
  have htransport := Nat.lt_succ_of_le (countP_isTransport_le hpath)
  have hself := Packet.self_of_finalizeTimes htransport hfinal
  have hout : (Packet.mk twice).toBytes = .ok bytes' := Packet.toBytes_eq_ok.mpr hbytes'
  refine ⟨⟨twice⟩, bytes', hfinal, (Packet.settled_of_self hout (by omega) hself).1, hall.drafts,
    hout, hlen'.trans hlen, ?_⟩
  exact PacketParser.parseNew_of_layersKept h hall hbytes'

end

/-- `udpFrame` as a sender sees it that leaves the checksums to its network card. -/
def offloadedFrame : Bytes :=
  udpFrame.take 24 ++ [0, 0] ++ (udpFrame.drop 26).take 14 ++ [0, 0] ++ udpFrame.drop 42

theorem repair_frame_offloaded :
    letI := Deku.truncating
    ∃ packet packet' bytes, PacketParser.parseNew .Ether offloadedFrame = .ok ([], packet) ∧
      packet.finalizeTimes 2 = .ok () packet' ∧ packet'.Settled ∧ packet'.toBytes = .ok bytes ∧
      bytes.length = 46 ∧ PacketParser.parseNew .Ether bytes = .ok ([], packet') := by
  let := Deku.truncating
  obtain ⟨packet, hparse⟩ :
      ∃ packet, PacketParser.parseNew .Ether offloadedFrame = .ok ([], packet) := by
    have hok : (PacketParser.parseNew .Ether offloadedFrame).map Prod.fst = .ok [] := by
      decide +kernel
    obtain ⟨⟨rest, packet⟩, hparse, rfl⟩ := except_map_eq_ok.mp hok
    exact ⟨packet, hparse⟩
  have hlen : offloadedFrame.length = 46 := by decide +kernel
  obtain ⟨packet', bytes, hfin, hsettled, -, hbytes, hsame, hback⟩ :=
    repair_frame hparse (hlen ▸ by decide)
  exact ⟨packet, packet', bytes, hparse, hfin, hsettled, hbytes, hsame.trans hlen, hback⟩

end Nata
