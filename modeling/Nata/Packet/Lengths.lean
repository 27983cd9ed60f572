/-
  Do the length fields of a finalised packet tell the truth?

  A length field is set when `finalize` comes to its layer, to the size that the layers behind have at
  that moment.  The only thing that changes the size of a layer is the padding of TCP options, which
  happens when the pass comes to the Tcp layer, LATER.  So a length is right exactly when no Tcp layer
  behind it is padded (`lengths_iff`); and, if a length is to describe anything at all, when the
  offsets of those Tcp layers can be written.
-/
import Nata.Packet.RoundTrip
import Nata.Packet.Sent
import Nata.Packet.Settled

namespace Nata

/-- A property of every layer and what is behind it, layer by layer. -/
theorem forall_suffix_cons {L : Type} {P : L → List L → Prop} {first : L} {rest : List L} :
    (∀ layer next, layer :: next <:+ first :: rest → P layer next) ↔
      P first rest ∧ ∀ layer next, layer :: next <:+ rest → P layer next := by
  constructor
  · intro h
    exact ⟨h _ _ (List.suffix_refl _), fun _ _ hs => h _ _ (hs.trans (List.suffix_cons _ _))⟩
  · rintro ⟨hfirst, hrest⟩ layer next hs
    rcases List.suffix_cons_iff.mp hs with hs | hs
    · cases hs
      exact hfirst
    · exact hrest _ _ hs

section

variable [Deku]

/-- The length field of a layer in front of `next` is the size it describes: of the layer and what is
    behind it for Ipv4 and Udp, of what is behind it for Ipv6. -/
def Layer.LengthTrue (next : List Layer) : Layer → Prop
  | .ipv4 h => ∃ bytes, layersToBytes (.ipv4 h :: next) = .ok bytes ∧ h.length.toNat = bytes.length
  | .ipv6 h => ∃ bytes, layersToBytes next = .ok bytes ∧ h.length.toNat = bytes.length
  | .udp u => ∃ bytes, layersToBytes next = .ok bytes ∧ u.length.toNat = 8 + bytes.length
  | _ => True

/-- Every length field of the packet is the size it describes. -/
def Packet.LengthsTrue (packet : Packet Layer) : Prop :=
  ∀ layer next, layer :: next <:+ packet.layers → layer.LengthTrue next

/-- The layers with a length field. -/
def LayerType.HasLength : LayerType → Prop
  | .Ipv4 | .Ipv6 | .Udp => True
  | _ => False

/-- The headers of the Tcp layers are whole words: `finalize` has nothing to pad. -/
def Unpadded (layers : List Layer) : Prop :=
  ∀ t, .tcp t ∈ layers → 4 ∣ (Layer.tcp t).data.length

/-- Behind every layer with a length field, the Tcp layers need no padding and have offsets that can
    be written. -/
def Packet.LengthsStable (packet : Packet Layer) : Prop :=
  ∀ layer next, layer :: next <:+ packet.layers → layer.typeId.HasLength →
    Unpadded next ∧ Sendable next

/-- Nothing in a list is padded: nothing in front, and nothing behind. -/
theorem Unpadded.cons_iff {layer : Layer} {next : List Layer} :
    Unpadded (layer :: next) ↔ layer.sentLength = layer.data.length ∧ Unpadded next := by
  have hlayer : layer.sentLength = layer.data.length ↔
      ∀ t, layer = .tcp t → 4 ∣ (Layer.tcp t).data.length := by
    cases layer with
    | tcp t =>
      rw [Layer.sentLength, Tcp.padAmt]
      constructor
      · rintro h _ ⟨⟩
        omega
      · intro h
        have := h t rfl
        omega
    | ether | ipv4 | ipv6 | udp | icmp4 | raw =>
      refine ⟨fun _ t h => ?_, fun _ => rfl⟩
      cases h
  rw [hlayer]
  constructor
  · intro h
    exact ⟨fun t ht => h t (ht ▸ List.mem_cons_self), fun t ht => h t (List.mem_cons_of_mem _ ht)⟩
  · rintro ⟨hhead, hnext⟩ t ht
    rcases List.mem_cons.mp ht with ht | ht
    · exact hhead t ht.symm
    · exact hnext t ht

/-- Padding makes no layer smaller. -/
theorem Layer.length_data_le (layer : Layer) : layer.data.length ≤ layer.sentLength := by
  cases layer with
  | tcp t => exact Nat.le_add_right _ _
  | ether | ipv4 | ipv6 | udp | icmp4 | raw => exact Nat.le_refl _

/-- Layers keep their size exactly when none of them is padded. -/
theorem sentSize_eq_iff {layers : List Layer} :
    (dataOf layers).length ≤ sentSize layers ∧
      (sentSize layers = (dataOf layers).length ↔ Unpadded layers) := by
  induction layers with
  | nil => exact ⟨Nat.le_refl 0, fun _ _ h => absurd h List.not_mem_nil, fun _ => rfl⟩
  | cons layer next ih =>
    obtain ⟨hle, hiff⟩ := ih
    have hlayer := layer.length_data_le
    have hsize : sentSize (layer :: next) = layer.sentLength + sentSize next := rfl
    have hdata : (dataOf (layer :: next)).length = layer.data.length + (dataOf next).length :=
      List.length_append
    rw [hsize, hdata, Unpadded.cons_iff, ← hiff]
    omega

/-- What is behind a layer is as long as the layer was told exactly when it is not padded. -/
theorem Finalized.length_iff {prev next next' : List Layer} (h : Finalized prev next next')
    {tail : Bytes} (htail : layersToBytes next = .ok tail) :
    (∃ bytes, layersToBytes next' = .ok bytes ∧ tail.length = bytes.length) ↔
      Unpadded next ∧ Sendable next := by
  obtain ⟨hwrite, hsent⟩ := h.sent htail
  have hdata := dataOf_eq htail
  have hunpadded := (@sentSize_eq_iff _ next).2
  rw [hdata] at hunpadded
  rw [← hwrite, ← hunpadded]
  constructor
  · rintro ⟨bytes, hbytes, hlen⟩
    exact ⟨by rw [hlen, (hsent bytes hbytes).1], bytes, hbytes⟩
  · rintro ⟨hsize, bytes, hbytes⟩
    exact ⟨bytes, hbytes, by rw [(hsent bytes hbytes).1, hsize]⟩

/-- The length that `finalize` sets in a layer is right exactly when nothing behind it is padded. -/
theorem Layer.lengthTrue_iff {prev next next' : List Layer} {layer layer' : Layer}
    (hlayer : LayerExt.finalize prev next layer = .ok () layer')
    (hnext : Finalized (prev ++ [layer']) next next') :
    layer'.LengthTrue next' ↔ (layer.typeId.HasLength → Unpadded next ∧ Sendable next) := by
  cases layer with
  | ipv4 v =>
    obtain ⟨header, tail, hheader, htail, hlt, cleared, hcleared, rfl⟩ :=
      finalize_ipv4_eq_ok.mp hlayer
    rw [← hnext.length_iff htail]
    obtain ⟨x, y, z, -, -, -, hframe⟩ := Ipv4.toBytes_frame hheader
    have hbytes := hframe (BitVec.ofNat 16 (header.length + tail.length)) (checksum cleared)
    have hlen := Ipv4.length_toBytes_update hheader hbytes
    have hlength : (BitVec.ofNat 16 (header.length + tail.length)).toNat =
        header.length + tail.length := Nat.mod_eq_of_lt hlt
    constructor
    · rintro ⟨_, h, htrue⟩ -
      obtain ⟨bytes, bytes', hb, hb', rfl⟩ := layersToBytes_cons_eq_ok.mp h
      obtain rfl := Except.ok.inj (hbytes.symm.trans hb)
      rw [hlength, List.length_append, hlen] at htrue
      exact ⟨bytes', hb', by omega⟩
    · intro h
      obtain ⟨bytes', hb', htrue⟩ := h trivial
      refine ⟨_, layersToBytes_cons_eq_ok.mpr ⟨_, bytes', hbytes, hb', rfl⟩, ?_⟩
      rw [hlength, List.length_append, hlen, htrue]
  | ipv6 v =>
    obtain ⟨tail, htail, hlt, rfl⟩ := finalize_ipv6_eq_ok.mp hlayer
    rw [← hnext.length_iff htail]
    have hlength : (BitVec.ofNat 16 tail.length).toNat = tail.length := Nat.mod_eq_of_lt hlt
    show (∃ bytes, _ ∧ (BitVec.ofNat 16 tail.length).toNat = _) ↔ _
    rw [hlength]
    exact ⟨fun h _ => h, fun h => h trivial⟩
  | udp u =>
    obtain ⟨tail, htail, hlt, rfl⟩ := finalize_udp_eq_ok.mp hlayer
    rw [← hnext.length_iff htail]
    have hlength : (BitVec.ofNat 16 (8 + tail.length)).toNat = 8 + tail.length :=
      Nat.mod_eq_of_lt hlt
    show (∃ bytes, _ ∧ (BitVec.ofNat 16 (8 + tail.length)).toNat = _) ↔ _
    rw [hlength]
    simp only [Nat.add_left_cancel_iff]
    exact ⟨fun h _ => h, fun h => h trivial⟩
  | ether e =>
    obtain rfl := finalize_ether_eq_ok.mp hlayer
    exact ⟨fun _ h => h.elim, fun _ => trivial⟩
  | raw r =>
    obtain rfl := finalize_raw_eq_ok.mp hlayer
    exact ⟨fun _ h => h.elim, fun _ => trivial⟩
  | icmp4 i =>
    obtain rfl := finalize_icmp4_eq_ok.mp hlayer
    exact ⟨fun _ h => h.elim, fun _ => trivial⟩
  | tcp t =>
    obtain ⟨_, _, -, -, -, rfl⟩ := finalize_tcp_eq_ok.mp hlayer
    exact ⟨fun _ h => h.elim, fun _ => trivial⟩

theorem Finalized.lengthsTrue_iff {prev rest rest' : List Layer} (h : Finalized prev rest rest') :
    (∀ layer next, layer :: next <:+ rest' → layer.LengthTrue next) ↔
      ∀ layer next, layer :: next <:+ rest → layer.typeId.HasLength →
        Unpadded next ∧ Sendable next := by
  induction h with
  | nil =>
    have hnil : ∀ (layer : Layer) (next : List Layer), ¬layer :: next <:+ [] :=
      fun _ _ h => absurd (List.suffix_nil.mp h) (List.cons_ne_nil _ _)
    exact ⟨fun _ layer next h => absurd h (hnil layer next),
      fun _ layer next h => absurd h (hnil layer next)⟩
  | cons hlayer hnext ih =>
    rw [forall_suffix_cons, forall_suffix_cons, ih, Layer.lengthTrue_iff hlayer hnext]

/-- **When the length fields of a finalised packet tell the truth**: exactly when no Tcp layer behind
    one of them is padded, or gets an offset that cannot be written. -/
theorem lengths_iff {packet packet' : Packet Layer} (hfin : packet.finalize = .ok () packet') :
    packet'.LengthsTrue ↔ packet.LengthsStable :=
  (Packet.finalize_eq_ok.mp hfin).lengthsTrue_iff

end

theorem lengths_wrong_tcpPacket :
    letI := Deku.truncating
    ∃ packet', tcpPacket.finalize = .ok () packet' ∧ ¬packet'.LengthsTrue := by
  let := Deku.truncating
  refine ⟨⟨[.ether default,
    .ipv4 { (default : Ipv4) with protocol := .TCP, length := 49, checksum := 0xbcc5 },
    .tcp { unalignedTcp with
      offset := 7, checksum := 0x3764, options := [.MSS 4 1460, .WScale 3 7, .EOL] },
    .raw ⟨[0x68, 0x69], 0⟩]⟩, by decide +kernel, fun htrue => ?_⟩
  -- The length says 49; the header, the padded segment and the payload have 50 bytes.
  obtain ⟨bytes, hbytes, hlength⟩ := htrue _ _ (List.suffix_cons _ _)
  have hsize := congrArg (Except.map List.length) hbytes
  have h50 : Except.ok 50 = (Except.ok bytes.length : Except LayerError Nat) := by
    refine Eq.trans ?_ hsize
    decide +kernel
  have h49 : 49 = bytes.length := hlength
  have := Except.ok.inj h50
  omega

theorem lengths_right_udpPacket :
    letI := Deku.truncating
    udpPacket.finalize = .ok () udpPacket ∧ udpPacket.LengthsTrue := by
  let := Deku.truncating
  have hfin : udpPacket.finalize = .ok () udpPacket := by decide +kernel
  refine ⟨hfin, (lengths_iff hfin).mpr fun layer next hsuffix _ => ?_⟩
  have hnone : ∀ t, .tcp t ∉ next := by
    intro t ht
    have hmem := hsuffix.subset (List.mem_cons_of_mem layer ht)
    have htypes : LayerType.Tcp ∈ udpPacket.layers.map Layer.typeId :=
      List.mem_map_of_mem hmem
    exact absurd htypes (by decide)
  exact ⟨fun t ht => absurd ht (hnone t), fun t ht => absurd ht (hnone t)⟩

end Nata
