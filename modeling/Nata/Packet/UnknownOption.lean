/-
  Frames with TCP options that have no variant.

  Every option but `EOL` and `NOP` carries its length, so a reader can pass over one that it does not
  know; the other enums of the crate have an `Unknown` case for that.  `TcpOption` has none: one
  unknown kind makes the header, and with it the frame, unparseable (`unknownOption_iff`).

  `TcpOption.Tlv` is a well-formed option of any kind.  With a known kind it has the shape that the
  codec reads (`Tlv.shape_iff`), and since shapes are prefix free an area of such options splits into
  shapes in no other way (`splits_iff`).  The rest follows the loop of `parse_packet` up to the
  segment (`parsed_frame_iff`).
-/
import Nata.Layer.Ip.Grammar
import Nata.Layer.Tcp.Grammar
import Nata.Packet.Extension
import Nata.Packet.Lossless

namespace Nata

/-! ## Options of any kind -/

namespace TcpOption

/-- The kinds that have a variant. -/
def knownKinds : List (BitVec 8) := [0x00, 0x01, 0x02, 0x03, 0x04, 0x05, 0x08]

/-- The length octets that go with the kinds of standard length. -/
structure StandardLength (kind m : BitVec 8) : Prop where
  MSS : kind = 0x02 → m = 4
  WScale : kind = 0x03 → m = 3
  SAckOK : kind = 0x04 → m = 2
  SAck : kind = 0x05 → ∃ k, m.toNat = 2 + 8 * k
  Timestamp : kind = 0x08 → m = 10

/-- A well-formed option: alone, or with a length octet and the octets that it announces. -/
inductive Tlv : Bytes → Prop
  | EOL : Tlv [0x00]
  | NOP : Tlv [0x01]
  | announced {kind m : BitVec 8} {v : Bytes} : 2 ≤ kind.toNat → 2 ≤ m.toNat →
    v.length = m.toNat - 2 → StandardLength kind m → Tlv (kind :: m :: v)

/-- The kind of the option has a variant. -/
def HasKnownKind (chunk : Bytes) : Prop := ∃ kind ∈ knownKinds, ∃ v, chunk = kind :: v

theorem Shape.hasKnownKind {chunk : Bytes} (h : Shape chunk) : HasKnownKind chunk := by
  cases h with
  | EOL | NOP | MSS _ | WScale _ | SAckOK _ | SAck _ _ | Timestamp _ =>
    exact ⟨_, by decide, _, rfl⟩

theorem Tlv.ne_nil {chunk : Bytes} (h : Tlv chunk) : chunk ≠ [] := by
  cases h <;> exact List.cons_ne_nil _ _

/-- The known kinds are read when they are well formed. -/
theorem Tlv.shape_iff {chunk : Bytes} (h : Tlv chunk) : Shape chunk ↔ HasKnownKind chunk := by
  refine ⟨Shape.hasKnownKind, ?_⟩
  rintro ⟨kind, hkind, v, rfl⟩
  cases h with
  | EOL => exact .EOL
  | NOP => exact .NOP
  | @announced _ m v hk hm hv hstd =>
    simp only [knownKinds, List.mem_cons, List.not_mem_nil, or_false] at hkind
    rcases hkind with rfl | rfl | rfl | rfl | rfl | rfl | rfl
    · exact absurd hk (by decide)
    · exact absurd hk (by decide)
    · obtain rfl := hstd.MSS rfl
      exact .MSS (by rw [List.length_cons, hv]; rfl)
    · obtain rfl := hstd.WScale rfl
      exact .WScale (by rw [List.length_cons, hv]; rfl)
    · obtain rfl := hstd.SAckOK rfl
      exact .SAckOK (by rw [List.length_cons, hv]; rfl)
    · obtain ⟨k, hlen⟩ := hstd.SAck rfl
      exact .SAck hm (by omega)
    · obtain rfl := hstd.Timestamp rfl
      exact .Timestamp (by rw [List.length_cons, hv]; rfl)

/-- **An area of well-formed options splits into shapes** exactly when all kinds are known. -/
theorem splits_iff [Deku] {chunks : List Bytes} (h : ∀ chunk ∈ chunks, Tlv chunk) :
    (∃ shapes : List Bytes, (∀ shape ∈ shapes, Shape shape) ∧ shapes.flatten = chunks.flatten) ↔
      ∀ chunk ∈ chunks, HasKnownKind chunk := by
  constructor
  · rintro ⟨shapes, hshapes, hflat⟩
    induction chunks generalizing shapes with
    | nil => exact fun chunk hchunk => absurd hchunk List.not_mem_nil
    | cons chunk chunks ih =>
      obtain ⟨htlv, hchunks⟩ := List.forall_mem_cons.mp h
      cases shapes with
      | nil => exact absurd (List.append_eq_nil_iff.mp hflat.symm).1 htlv.ne_nil
      | cons shape shapes =>
        obtain ⟨hshape, hshapes⟩ := List.forall_mem_cons.mp hshapes
        rw [List.flatten_cons, List.flatten_cons] at hflat
        -- Both splits begin with the same kind, so the first option is of a known kind.
        have hknown : HasKnownKind chunk := by
          obtain ⟨kind, hkind, v, rfl⟩ := hshape.hasKnownKind
          cases chunk with
          | nil => exact absurd rfl htlv.ne_nil
          | cons kind' v' =>
            obtain rfl := (List.cons.inj hflat).1
            exact ⟨_, hkind, v', rfl⟩
        obtain ⟨a, ha⟩ := TcpOption.shape_iff.mp hshape
        obtain ⟨a', ha'⟩ := TcpOption.shape_iff.mp (htlv.shape_iff.mpr hknown)
        obtain ⟨-, hrest⟩ := ha.prefix_free ha' hflat
        exact List.forall_mem_cons.mpr ⟨hknown, ih hchunks shapes hshapes hrest⟩
  · intro hknown
    exact ⟨chunks, fun chunk hchunk => (h chunk hchunk).shape_iff.mpr (hknown chunk hchunk), rfl⟩

end TcpOption

/-! ## Frames -/

section

variable [Deku]

/-- `parse_packet` returns a packet. -/
def Parsed (t : LayerType) (input : Bytes) : Prop :=
  ∃ rest packet, PacketParser.parseNew t input = .ok (rest, packet)

/-- The frame carries the segment: its headers are an Ethernet and an IP header that lead to TCP. -/
def Carries (frame segment : Bytes) : Prop :=
  ∃ payload ether, Ether.parse frame = .ok (payload, ether) ∧
    ((ether.etherType = .IPv4 ∧
        ∃ ipv4, Ipv4.parse payload = .ok (segment, ipv4) ∧ ipv4.protocol = .TCP) ∨
      (ether.etherType = .IPv6 ∧
        ∃ ipv6, Ipv6.parse payload = .ok (segment, ipv6) ∧ ipv6.nextHeader = .TCP))

/-- A packet is returned when one is for the input behind the first layer. -/
theorem parsed_iff_of_next {t t' : LayerType} {input rest : Bytes} {layer : Layer}
    (hfirst : Layer.parse t input = .ok (rest, layer)) (hrest : rest ≠ [])
    (hnext : layer.nextType = some t') : Parsed t input ↔ Parsed t' rest := by
  have hbound : PacketParser.new.nextLayerParser layer rest = some (Layer.parse t') := by
    rw [PacketParser.nextLayerParser_new, hnext]
    rfl
  have hparses := PacketParser.parses_of_next hfirst hrest hbound
  unfold Parsed
  simp only [← PacketParser.parses_new_iff, hparses]
  constructor
  · rintro ⟨rest', packet, r', hr', hr⟩
    cases r' with
    | error e => cases hr
    | ok p => exact ⟨p.1, p.2, hr'⟩
  · rintro ⟨rest', packet, h⟩
    exact ⟨_, _, _, h, rfl⟩

/-- Without input behind the first layer that layer is the packet. -/
theorem parsed_of_end {t : LayerType} {input : Bytes} {layer : Layer}
    (hfirst : Layer.parse t input = .ok ([], layer)) : Parsed t input := by
  refine ⟨[], ⟨[layer]⟩, PacketParser.parses_new_iff.mp ?_⟩
  unfold PacketParser.Parses
  rw [hfirst]
  exact Loop.Returns.stop rfl

theorem not_parsed_of_error {t : LayerType} {input : Bytes} {e : LayerError}
    (hfirst : Layer.parse t input = .error e) : ¬Parsed t input := by
  rintro ⟨rest, packet, h⟩
  have hparses := PacketParser.parses_new_iff.mpr h
  unfold PacketParser.Parses at hparses
  rw [hfirst] at hparses
  cases hparses

/-- Any bytes are a Raw layer. -/
theorem parsed_raw (input : Bytes) : Parsed .Raw input := by
  have hfirst : Layer.parse .Raw input = .ok ([], .raw ⟨input, 0⟩) :=
    Layer.parse_eq_ok.mpr ⟨rfl, ⟨fun _ _ => trivial, rfl⟩, fun _ => rfl, input,
      Raw.toBytes_eq _, (List.append_nil _).symm⟩
  exact parsed_of_end hfirst

/-- A segment makes a packet when its header is accepted. -/
theorem parsed_tcp_iff {segment : Bytes} :
    Parsed .Tcp segment ↔ ∃ rest tcp, Tcp.parse segment = .ok (rest, tcp) := by
  cases hparse : Tcp.parse segment with
  | error e =>
    have hfirst : Layer.parse .Tcp segment = .error e := parseLayer_eq_error.mpr hparse
    simp only [reduceCtorEq, exists_const, iff_false]
    exact not_parsed_of_error hfirst
  | ok p =>
    obtain ⟨rest, tcp⟩ := p
    have hfirst : Layer.parse .Tcp segment = .ok (rest, .tcp tcp) :=
      parseLayer_eq_ok.mpr ⟨tcp, hparse, rfl⟩
    refine iff_of_true ?_ ⟨rest, tcp, rfl⟩
    by_cases hrest : rest = []
    · rw [hrest] at hfirst
      exact parsed_of_end hfirst
    · exact (parsed_iff_of_next hfirst hrest rfl).mpr (parsed_raw rest)

/-- The input of a parser other than that of `Raw` is not empty if it is accepted. -/
theorem ne_nil_of_parse {t : LayerType} {input rest : Bytes} {layer : Layer} (ht : t ≠ .Raw)
    (h : Layer.parse t input = .ok (rest, layer)) : input ≠ [] := by
  obtain ⟨htype, -, -, bytes, hbytes, rfl⟩ := Layer.parse_eq_ok.mp h
  have hne : bytes ≠ [] := by
    refine Layer.toBytes_ne_nil hbytes ?_
    rintro r rfl
    exact absurd htype.symm ht
  intro hnil
  exact hne (List.append_eq_nil_iff.mp hnil).1

/-- A frame makes a packet when the header of its segment is accepted. -/
theorem parsed_frame_iff {frame segment : Bytes} (hcarries : Carries frame segment)
    (hne : segment ≠ []) :
    Parsed .Ether frame ↔ ∃ rest tcp, Tcp.parse segment = .ok (rest, tcp) := by
  obtain ⟨payload, ether, hether, hip⟩ := hcarries
  have hfirst : Layer.parse .Ether frame = .ok (payload, .ether ether) :=
    parseLayer_eq_ok.mpr ⟨ether, hether, rfl⟩
  rw [← parsed_tcp_iff]
  rcases hip with ⟨htype, ipv4, hparse, hprotocol⟩ | ⟨htype, ipv6, hparse, hprotocol⟩
  · have hsecond : Layer.parse .Ipv4 payload = .ok (segment, .ipv4 ipv4) :=
      parseLayer_eq_ok.mpr ⟨ipv4, hparse, rfl⟩
    have hnext : (Layer.ether ether).nextType = some .Ipv4 := by
      rw [Layer.nextType, htype]
      rfl
    have hnext' : (Layer.ipv4 ipv4).nextType = some .Tcp := by
      rw [Layer.nextType, hprotocol]
      rfl
    rw [parsed_iff_of_next hfirst (ne_nil_of_parse (by decide) hsecond) hnext]
    exact parsed_iff_of_next hsecond hne hnext'
  · have hsecond : Layer.parse .Ipv6 payload = .ok (segment, .ipv6 ipv6) :=
      parseLayer_eq_ok.mpr ⟨ipv6, hparse, rfl⟩
    have hnext : (Layer.ether ether).nextType = some .Ipv6 := by
      rw [Layer.nextType, htype]
      rfl
    have hnext' : (Layer.ipv6 ipv6).nextType = some .Tcp := by
      rw [Layer.nextType, hprotocol]
      rfl
    rw [parsed_iff_of_next hfirst (ne_nil_of_parse (by decide) hsecond) hnext]
    exact parsed_iff_of_next hsecond hne hnext'

/-- **When a frame with well-formed options is parsed**, and serialises to itself: when all of them
    are of known kinds. -/
theorem unknownOption_iff {frame segment : Bytes} {chunks : List Bytes}
    (hcarries : Carries frame segment) (h5 : 5 ≤ Tcp.dataOffset segment)
    (hwhole : 4 * Tcp.dataOffset segment ≤ segment.length)
    (htlv : ∀ chunk ∈ chunks, TcpOption.Tlv chunk)
    (hflat : chunks.flatten = Tcp.optionArea segment) :
    (∃ rest packet, PacketParser.parseNew .Ether frame = .ok (rest, packet) ∧
        packet.toBytes = .ok frame) ↔
      ∀ chunk ∈ chunks, TcpOption.HasKnownKind chunk := by
  have hne : segment ≠ [] := by
    rintro rfl
    exact absurd h5 (by decide)
  have hbytes : (∃ rest packet, PacketParser.parseNew .Ether frame = .ok (rest, packet) ∧
      packet.toBytes = .ok frame) ↔ Parsed .Ether frame := by
    constructor
    · rintro ⟨rest, packet, h, -⟩
      exact ⟨rest, packet, h⟩
    · rintro ⟨rest, packet, h⟩
      exact ⟨rest, packet, h, PacketParser.toBytes_of_parseNew h⟩
  rw [hbytes, parsed_frame_iff hcarries hne, ← TcpOption.splits_iff htlv, hflat]
  exact Tcp.parse_ok_iff h5 hwhole

end

/-- The first segment of a connection, with one option of four bytes. -/
def synSegment (checksum option : Bytes) : Bytes :=
  [0xd4, 0x31, 0x00, 0x50, 0x00, 0x00, 0x00, 0x01, 0x00, 0x00, 0x00, 0x00, 0x60, 0x02, 0xff, 0xff] ++
    checksum ++ [0x00, 0x00] ++ option

/-- The segment in an Ethernet frame over IPv4. -/
def synFrame (checksum option : Bytes) : Bytes :=
  [0x02, 0x00, 0x00, 0x00, 0x00, 0x01, 0x02, 0x00, 0x00, 0x00, 0x00, 0x02, 0x08, 0x00,
   0x45, 0x00, 0x00, 0x2c, 0x00, 0x01, 0x00, 0x00, 0x40, 0x06, 0x66, 0xc9,
   0x0a, 0x00, 0x00, 0x01, 0x0a, 0x00, 0x00, 0x02] ++ synSegment checksum option

/-- A frame whose option has a kind that is known. -/
def mssFrame : Bytes := synFrame [0xaf, 0xa1] [0x02, 0x04, 0x05, 0xb4]

/-- A frame whose option has a kind that is not known. -/
def userTimeoutFrame : Bytes := synFrame [0x1b, 0x19] [0x1c, 0x04, 0x80, 0x3c]

/-- What `Carries` asks for, evaluated. -/
theorem carries_of_check [Deku] {frame segment : Bytes}
    (h : (do
      let (payload, ether) ← Ether.parse frame
      (Ipv4.parse payload).map fun (segment, ipv4) => (ether.etherType, ipv4.protocol, segment)) =
        Except.ok (.IPv4, .TCP, segment)) : Carries frame segment := by
  obtain ⟨⟨payload, ether⟩, hether, h⟩ := except_bind_eq_ok.mp h
  obtain ⟨⟨segment, ipv4⟩, hipv4, h⟩ := except_map_eq_ok.mp h
  simp only [Prod.mk.injEq] at h
  obtain ⟨htype, hprotocol, rfl⟩ := h
  exact ⟨payload, ether, hether, .inl ⟨htype, ipv4, hipv4, hprotocol⟩⟩

/-- The maximum segment size is an option of a known kind. -/
theorem unknownOption_mss :
    letI := Deku.truncating
    ∃ rest packet, PacketParser.parseNew .Ether mssFrame = .ok (rest, packet) ∧
      packet.toBytes = .ok mssFrame := by
  let := Deku.truncating
  have hcarries : Carries mssFrame (synSegment [0xaf, 0xa1] [0x02, 0x04, 0x05, 0xb4]) :=
    carries_of_check (by decide +kernel)
  have htlv : TcpOption.Tlv [0x02, 0x04, 0x05, 0xb4] :=
    .announced (by decide) (by decide) rfl ⟨fun _ => rfl, nofun, nofun, nofun, nofun⟩
  refine (unknownOption_iff hcarries (by decide) (by decide)
    (List.forall_mem_singleton.mpr htlv) rfl).mpr ?_
  exact List.forall_mem_singleton.mpr ⟨0x02, by decide, _, rfl⟩

/-- A user timeout is well formed as well, but its kind has no variant. -/
theorem unknownOption_userTimeout :
    letI := Deku.truncating
    ¬∀ (frame segment : Bytes) (chunks : List Bytes), Carries frame segment →
      5 ≤ Tcp.dataOffset segment → 4 * Tcp.dataOffset segment ≤ segment.length →
      (∀ chunk ∈ chunks, TcpOption.Tlv chunk) → chunks.flatten = Tcp.optionArea segment →
      ∃ rest packet, PacketParser.parseNew .Ether frame = .ok (rest, packet) ∧
        packet.toBytes = .ok frame := by
  let := Deku.truncating
  intro h
  have hcarries : Carries userTimeoutFrame (synSegment [0x1b, 0x19] [0x1c, 0x04, 0x80, 0x3c]) :=
    carries_of_check (by decide +kernel)
  have htlv : TcpOption.Tlv [0x1c, 0x04, 0x80, 0x3c] :=
    .announced (by decide) (by decide) rfl ⟨nofun, nofun, nofun, nofun, nofun⟩
  obtain ⟨rest, packet, hparse, -⟩ := h _ _ [[0x1c, 0x04, 0x80, 0x3c]] hcarries (by decide)
    (by decide) (List.forall_mem_singleton.mpr htlv) rfl
  have herror : (PacketParser.parseNew .Ether userTimeoutFrame).isOk = false := by decide +kernel
  rw [hparse] at herror
  cases herror

end Nata
