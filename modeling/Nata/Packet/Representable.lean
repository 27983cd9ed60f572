/-
  Which UDP packets can be finalised.

  Two layers check the same sixteen bits, on different sums and at different moments: the IP layer
  the size of what is behind it, with its own header if it is Ipv4, and the Udp layer eight bytes and
  what is behind it.  The first sum is at least the second, the IP layer comes first, and only
  layers that do not fail come before.  So the packet is finalised exactly when the IP length can
  represent it, and otherwise the pass ends before anything has been written.
-/
import Nata.Packet.Sent

namespace Nata

/-- The IP layer as a layer. -/
def IpHeader.layer : IpHeader → Layer
  | v4 ipv4 => .ipv4 ipv4
  | v6 ipv6 => .ipv6 ipv6

/-- Ethernet headers, an IP header, a Udp header and the payload. -/
structure UdpStack where
  ethers : List Ether
  ip : IpHeader
  udp : Udp
  raws : List Raw

namespace UdpStack

/-- The packet of a stack. -/
def packet (self : UdpStack) : Packet Layer where
  layers := self.ethers.map .ether ++ self.ip.layer :: .udp self.udp :: self.raws.map .raw

/-- The size of the payload. -/
def payloadSize (self : UdpStack) : Nat := (self.raws.map fun raw => raw.data.length).sum

end UdpStack

section

variable [Deku]

/-- What the length field of an IP layer counts of the header itself. -/
def IpHeader.headerSize : IpHeader → Nat
  | v4 ipv4 => (Layer.ipv4 ipv4).data.length
  | v6 _ => 0

/-- What the length field of the IP layer has to represent. -/
def UdpStack.ipSize (self : UdpStack) : Nat := self.ip.headerSize + (8 + self.payloadSize)

/-- Raw layers are serialised as their data. -/
theorem Layer.length_layersToBytes_raws {raws : List Raw} :
    ∃ bytes, layersToBytes (raws.map raw) = .ok bytes ∧
      bytes.length = (raws.map fun raw => raw.data.length).sum := by
  induction raws with
  | nil => exact ⟨[], rfl, rfl⟩
  | cons r raws ih =>
    obtain ⟨bytes, hbytes, hlen⟩ := ih
    refine ⟨r.data ++ bytes, layersToBytes_cons_eq_ok.mpr ⟨_, _, Raw.toBytes_eq r, hbytes, rfl⟩, ?_⟩
    rw [List.length_append, hlen, List.map_cons, List.sum_cons]

/-- An IP layer is finalised in front of layers that it can count, and otherwise left alone. -/
theorem IpHeader.finalize_layer {prev next : List Layer} {ip : IpHeader} {header tail : Bytes}
    (hheader : ip.layer.toBytes = .ok header) (htail : layersToBytes next = .ok tail) :
    (ip.headerSize + tail.length ≤ 65535 → ∃ layer, LayerExt.finalize prev next ip.layer =
      .ok () layer) ∧
    (65535 < ip.headerSize + tail.length → ∃ msg, LayerExt.finalize prev next ip.layer =
      .error (.finalize msg) ip.layer) := by
  -- The layers behind are measured, or their size is no usize.
  have hsize : lengthOfLayers next = .ok tail.length ∨ ∃ msg, 2 ^ 64 ≤ tail.length ∧
      lengthOfLayers next = .error (.finalize msg) := by
    rw [lengthOfLayers_eq fun layer _ => Layer.length_def layer, serializedSize_eq htail, htail]
    by_cases hlt : tail.length < 2 ^ 64
    · rw [if_pos hlt]
      exact .inl rfl
    · rw [if_neg hlt]
      exact .inr ⟨_, by omega, rfl⟩
  cases ip with
  | v4 h =>
    have hdata : (Layer.ipv4 h).data = header := Layer.data_eq hheader
    rw [headerSize, hdata]
    constructor
    · intro hle
      obtain ⟨x, y, z, -, -, -, hframe⟩ := Ipv4.toBytes_frame hheader
      exact ⟨_, Layer.finalize_ipv4_eq_ok.mpr
        ⟨header, tail, hheader, htail, by omega, _, hframe _ 0, rfl⟩⟩
    · intro hlt
      rcases hsize with hsize | ⟨msg, -, hsize⟩
      · exact ⟨_, Method.zoom_eq_error.mpr ⟨h, Ipv4.finalize_eq_error.mpr
          ⟨rfl, .inr ⟨header, hheader, .inr ⟨_, hsize, by omega, rfl⟩⟩⟩, rfl⟩⟩
      · exact ⟨msg, Method.zoom_eq_error.mpr ⟨h, Ipv4.finalize_eq_error.mpr
          ⟨rfl, .inr ⟨header, hheader, .inl hsize⟩⟩, rfl⟩⟩
  | v6 h =>
    rw [headerSize, Nat.zero_add]
    constructor
    · intro hle
      exact ⟨_, Layer.finalize_ipv6_eq_ok.mpr ⟨tail, htail, by omega, rfl⟩⟩
    · intro hlt
      rcases hsize with hsize | ⟨msg, -, hsize⟩
      · exact ⟨_, Method.zoom_eq_error.mpr ⟨h, Ipv6.finalize_eq_error.mpr
          ⟨rfl, .inr ⟨_, hsize, by omega, rfl⟩⟩, rfl⟩⟩
      · exact ⟨msg, Method.zoom_eq_error.mpr ⟨h, Ipv6.finalize_eq_error.mpr
          ⟨rfl, .inl hsize⟩, rfl⟩⟩

/-- Ethernet headers and Raw layers are passed by. -/
theorem Passed.of_fixed {prev xs ys : List Layer}
    (h : ∀ layer ∈ xs, ∀ prev next, LayerExt.finalize prev next layer = .ok () layer) :
    Passed prev xs ys xs := by
  induction xs generalizing prev with
  | nil => exact .nil
  | cons x xs ih =>
    exact .cons (h x List.mem_cons_self _ _) (ih fun layer hl => h layer (List.mem_cons_of_mem _ hl))

/-- A pass goes on where a part of it ends. -/
theorem Passed.append_finalized {prev xs ys xs' ys' : List Layer} (h : Passed prev xs ys xs')
    (hys : Finalized (prev ++ xs') ys ys') : Finalized prev (xs ++ ys) (xs' ++ ys') := by
  induction h with
  | nil => rwa [List.append_nil] at hys
  | cons hlayer _ ih =>
    rw [List.append_cons] at hys
    exact .cons hlayer (ih hys)

namespace UdpStack

variable {s : UdpStack}

theorem passed_ethers {ys : List Layer} :
    Passed [] (s.ethers.map .ether) ys (s.ethers.map .ether) := by
  refine .of_fixed fun layer hl prev next => ?_
  obtain ⟨e, -, rfl⟩ := List.mem_map.mp hl
  exact Layer.finalize_ether_eq_ok.mpr rfl

/-- The header and the datagram behind it, of a stack that can be serialised. -/
theorem toBytes_parts {bytes : Bytes} (h : s.packet.toBytes = .ok bytes) :
    ∃ header payload, s.ip.layer.toBytes = .ok header ∧
      layersToBytes (s.raws.map Layer.raw) = .ok payload ∧ payload.length = s.payloadSize ∧
      ∃ datagram, layersToBytes (.udp s.udp :: s.raws.map Layer.raw) = .ok datagram ∧
        datagram.length = 8 + s.payloadSize := by
  obtain ⟨_, _, -, htail, -⟩ := layersToBytes_append_eq_ok.mp (Packet.toBytes_eq_ok.mp h)
  obtain ⟨header, _, hheader, -, -⟩ := layersToBytes_cons_eq_ok.mp htail
  obtain ⟨payload, hpayload, hlen⟩ := @Layer.length_layersToBytes_raws _ s.raws
  refine ⟨header, payload, hheader, hpayload, hlen, _,
    layersToBytes_cons_eq_ok.mpr ⟨_, payload, Udp.toBytes_eq s.udp, hpayload, rfl⟩, ?_⟩
  rw [payloadSize, ← hlen]
  simp only [List.length_append, length_be16]

/-- A stack that fits its IP length is finalised. -/
theorem finalize_of_le {bytes : Bytes} (h : s.packet.toBytes = .ok bytes) (hle : s.ipSize ≤ 65535) :
    ∃ packet', s.packet.finalize = .ok () packet' := by
  obtain ⟨header, payload, hheader, hpayload, hlen, datagram, hdatagram, hlen'⟩ := toBytes_parts h
  rw [ipSize] at hle
  obtain ⟨ip', hip⟩ : ∃ ip', LayerExt.finalize (s.ethers.map Layer.ether)
      (.udp s.udp :: s.raws.map .raw) s.ip.layer = .ok () ip' :=
    (IpHeader.finalize_layer hheader hdatagram).1 (by omega)
  obtain ⟨udp', hudp⟩ : ∃ udp', LayerExt.finalize (s.ethers.map Layer.ether ++ [ip'])
      (s.raws.map .raw) (.udp s.udp) = .ok () udp' :=
    ⟨_, Layer.finalize_udp_eq_ok.mpr ⟨payload, hpayload, by omega, rfl⟩⟩
  have hraws : ∀ prev, Finalized prev (s.raws.map Layer.raw) (s.raws.map Layer.raw) := by
    intro prev
    refine Finalized.self_iff.mpr fun xs layer ys hl => ?_
    have hmem : layer ∈ s.raws.map Layer.raw := by
      rw [hl]
      exact List.mem_append_right xs List.mem_cons_self
    obtain ⟨r, -, rfl⟩ := List.mem_map.mp hmem
    exact Layer.finalize_raw_eq_ok.mpr rfl
  exact ⟨⟨_⟩, Packet.finalize_eq_ok.mpr
    (passed_ethers.append_finalized (.cons hip (.cons hudp (hraws _))))⟩

theorem finalize_of_gt {bytes : Bytes} (h : s.packet.toBytes = .ok bytes) (hgt : 65535 < s.ipSize) :
    ∃ msg, s.packet.finalize = .error (.layerError (.finalize msg)) s.packet := by
  obtain ⟨header, _, hheader, -, -, datagram, hdatagram, hlen⟩ := toBytes_parts h
  rw [ipSize] at hgt
  obtain ⟨msg, hip⟩ : ∃ msg, LayerExt.finalize (s.ethers.map Layer.ether)
      (.udp s.udp :: s.raws.map .raw) s.ip.layer = .error (.finalize msg) s.ip.layer :=
    (IpHeader.finalize_layer hheader hdatagram).2 (by omega)
  exact ⟨msg, Packet.finalize_eq_error.mpr
    ⟨_, _, _, _, _, .finalize msg, rfl, passed_ethers, hip, rfl, rfl⟩⟩

/-- **A UDP packet is finalised exactly when its IP length can represent it**, and otherwise left
    alone. -/
theorem finalize_representable_iff {bytes : Bytes} (h : s.packet.toBytes = .ok bytes) :
    ((∃ packet', s.packet.finalize = .ok () packet') ↔ s.ipSize ≤ 65535) ∧
    ∀ e packet', s.packet.finalize = .error e packet' →
      (∃ msg, e = .layerError (.finalize msg)) ∧ packet' = s.packet := by
  by_cases hle : s.ipSize ≤ 65535
  · obtain ⟨packet', hok⟩ := finalize_of_le h hle
    refine ⟨iff_of_true ⟨packet', hok⟩ hle, fun e _ herror => ?_⟩
    exact absurd (hok.symm.trans herror) (by simp)
  · obtain ⟨msg, herror⟩ := finalize_of_gt h (by omega)
    refine ⟨iff_of_false ?_ hle, fun e packet' herror' => ?_⟩
    · rintro ⟨packet', hok⟩
      exact absurd (hok.symm.trans herror) (by simp)
    · cases herror.symm.trans herror'
      exact ⟨⟨msg, rfl⟩, rfl⟩

end UdpStack

end

/-- One byte of payload, behind an IPv4 header with an option. -/
def smallUdp : UdpStack where
  ethers := [default]
  ip := .v4 { (default : Ipv4) with protocol := .UDP, options := [⟨0, .Control, .NOP⟩] }
  udp := { sport := 53, dport := 54, length := 0, checksum := 0 }
  raws := [⟨[0x70], 0⟩]

theorem finalize_representable_smallUdp :
    letI := Deku.truncating
    (∃ packet', smallUdp.packet.finalize = .ok () packet') ∧ smallUdp.ipSize = 30 := by
  let := Deku.truncating
  have hbytes : smallUdp.packet.toBytes = .ok [0, 0, 0, 0, 0, 0, 0, 0, 0, 0, 0, 0, 8, 0,
      0x45, 0, 0, 0, 0, 0, 0, 0, 0, 17, 0, 0, 127, 0, 0, 1, 127, 0, 0, 1, 1,
      0, 53, 0, 54, 0, 0, 0, 0, 0x70] := by decide +kernel
  have hsize : smallUdp.ipSize = 30 := by decide +kernel
  exact ⟨(UdpStack.finalize_representable_iff hbytes).1.mpr (by rw [hsize]; decide), hsize⟩

end Nata
