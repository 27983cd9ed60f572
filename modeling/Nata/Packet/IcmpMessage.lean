/-
  What the checksum of an ICMP message covers.

  The message is everything behind the IP header.  `Udp` and `Tcp` put the layers behind them into
  their checksum; `Icmp4::finalize` looks at its own bytes only, and then the sum of the message is
  that of the layers behind as they are sent (`Finalized.sent`).  So the message verifies exactly
  when these add up to zero (`icmp_verified_iff`), as they do if there are none.
-/
import Nata.Layer.Ip.ChecksumLaws
import Nata.Packet.Lengths

namespace Nata

section

variable [Deku]

/-- The `i`-th layer is an Ipv4 layer, what its length counts behind the header is what is behind
    it in the packet, and the checksum of that is zero. -/
def Packet.IcmpVerified (packet : Packet Layer) (i : Nat) : Prop :=
  ∃ ipv4 message, packet.layers[i]? = some (.ipv4 ipv4) ∧
    layersToBytes (packet.layers.drop (i + 1)) = .ok message ∧
    (Layer.ipv4 ipv4).LengthTrue (packet.layers.drop (i + 1)) ∧ checksum message = 0

/-- A finalised Icmp4 layer has its checksum in place: it adds nothing to the sum of a message, and
    its bytes are not all zero. -/
theorem Icmp4.finalize_sent {prev next : List Layer} {icmp : Icmp4} {layer : Layer} {data : Bytes}
    (hdata : icmp.toBytes = .ok data) (hlen : data.length ≤ 131074)
    (hfin : LayerExt.finalize prev next (.icmp4 icmp) = .ok () layer) :
    ∃ bytes, layer.toBytes = .ok bytes ∧ bytes.length = data.length ∧ ocs bytes = 0 ∧
      ∀ tail, wordSum (bytes ++ tail) ≠ 0 := by
  obtain rfl := Layer.finalize_icmp4_eq_ok.mp hfin
  have hbytes := toBytes_eq { icmp with checksum := Nata.checksum icmp.cleared }
  rw [List.append_assoc _ (be _)] at hbytes
  have hsize := length_toBytes hdata
  refine ⟨_, hbytes, (length_toBytes hbytes).trans hsize.symm, ocs_toBytes hbytes (by omega),
    fun tail hzero => ?_⟩
  have hall := (wordSum_eq_zero_iff _).mp hzero
  exact wordSum_field_ne_zero
    ((wordSum_eq_zero_iff _).mpr fun b hb => hall b (List.mem_append_left tail hb))

/-- The message of a finalised packet: what is behind the Icmp4 layer is not covered. -/
theorem Finalized.icmp_iff {prev next next' : List Layer} {icmp : Icmp4} {layer : Layer}
    {tail : Bytes} (hlayer : LayerExt.finalize prev next (.icmp4 icmp) = .ok () layer)
    (hnext : Finalized (prev ++ [layer]) next next')
    (htail : layersToBytes (.icmp4 icmp :: next) = .ok tail) (hlt : tail.length < 2 ^ 16) :
    (∃ message, layersToBytes (layer :: next') = .ok message ∧ checksum message = 0) ↔
      Sendable next ∧ sentSum none next = 0 := by
  obtain ⟨data, rest, hdata, hrest, rfl⟩ := layersToBytes_cons_eq_ok.mp htail
  rw [List.length_append] at hlt
  obtain ⟨hwrite, hsent⟩ := hnext.sent hrest
  rw [lastIp_concat, Layer.pseudoSum_finalize hlayer] at hsent
  obtain ⟨icmpBytes, hicmp, hlen, hzero, hwords⟩ := Icmp4.finalize_sent hdata (by omega) hlayer
  have hsize := sentSize_le next
  rw [dataOf_eq hrest] at hsize
  rw [← hwrite]
  have hsum : ∀ bytes, layersToBytes next' = .ok bytes →
      (checksum (icmpBytes ++ bytes) = 0 ↔ sentSum none next = 0) := by
    intro bytes hbytes
    obtain ⟨hlength, hocs⟩ := hsent bytes hbytes
    have hle : (icmpBytes ++ bytes).length ≤ 131074 := by
      rw [List.length_append]
      omega
    -- The power of 256 in front of the rest can be divided out.
    have hunit : IsUnit ((256 : ZMod 65535) ^ icmpBytes.length) :=
      (IsUnit.of_mul_eq_one 256 (by decide)).pow _
    rw [checksum_eq_zero_iff hle, and_iff_right (hwords bytes), ocs_append, hzero, zero_add,
      hocs (by omega)]
    exact hunit.mul_right_eq_zero
  constructor
  · rintro ⟨_, hmessage, hvalid⟩
    obtain ⟨_, bytes, hb, hbytes, rfl⟩ := layersToBytes_cons_eq_ok.mp hmessage
    obtain rfl := Except.ok.inj (hicmp.symm.trans hb)
    exact ⟨⟨bytes, hbytes⟩, (hsum bytes hbytes).mp hvalid⟩
  · rintro ⟨⟨bytes, hbytes⟩, hvalid⟩
    exact ⟨_, layersToBytes_cons_eq_ok.mpr ⟨icmpBytes, bytes, hicmp, hbytes, rfl⟩,
      (hsum bytes hbytes).mpr hvalid⟩

/-- **When the ICMP checksum of a finalised packet covers the message**: when what is behind the
    Icmp4 layer adds up to zero.  (And it has to be what the length counts: nothing behind may be
    padded later.) -/
theorem icmp_verified_iff {packet packet' : Packet Layer} {before next : List Layer} {ipv4 : Ipv4}
    {icmp : Icmp4} (hlayers : packet.layers = before ++ .ipv4 ipv4 :: .icmp4 icmp :: next)
    (hfin : packet.finalize = .ok () packet') :
    packet'.IcmpVerified before.length ↔
      Unpadded next ∧ Sendable next ∧ sentSum none next = 0 := by
  obtain ⟨before', ip', rest', hget, hdrop, hip, hrest⟩ := Packet.finalize_at hlayers hfin
  obtain ⟨header, tail, -, htail, hlt, cleared, -, heq⟩ := Layer.finalize_ipv4_eq_ok.mp hip
  have hverified : packet'.IcmpVerified before.length ↔ ip'.LengthTrue rest' ∧
      ∃ message, layersToBytes rest' = .ok message ∧ checksum message = 0 := by
    rw [Packet.IcmpVerified, hget, hdrop]
    constructor
    · rintro ⟨_, message, hsome, hmessage, htrue, hvalid⟩
      rw [← Option.some.inj hsome] at htrue
      exact ⟨htrue, message, hmessage, hvalid⟩
    · rintro ⟨htrue, message, hmessage, hvalid⟩
      rw [heq] at htrue ⊢
      exact ⟨_, message, rfl, hmessage, htrue, hvalid⟩
  have hcons : Unpadded (.icmp4 icmp :: next) ∧ Sendable (.icmp4 icmp :: next) ↔
      Unpadded next ∧ Sendable next := by
    rw [Unpadded.cons_iff, Sendable.cons_iff]
    refine and_congr (and_iff_right rfl) (and_iff_right fun t h => ?_)
    cases h
  rw [hverified, Layer.lengthTrue_iff hip hrest, hcons]
  cases hrest with
  | @cons _ _ _ icmp' next' hicmp hnext =>
    rw [hnext.icmp_iff hicmp htail (by omega)]
    constructor
    · rintro ⟨h, hsum⟩
      exact ⟨(h trivial).1, hsum⟩
    · rintro ⟨hunpadded, hsendable, hsum⟩
      exact ⟨fun _ => ⟨hunpadded, hsendable⟩, hsendable, hsum⟩

end

/-- An echo request with `data` in the Icmp4 layer and `behind` it. -/
def ping (data : Bytes) (behind : List Layer) : Packet Layer where
  layers :=
    [.ether default, .ipv4 { (default : Ipv4) with protocol := .ICMP },
     .icmp4 { (default : Icmp4) with icmpType := .EchoRequest, data }] ++ behind

/-- With its payload in a Raw layer the message arrives with a wrong checksum. -/
theorem icmp_rejected_ping :
    letI := Deku.truncating
    ∃ packet' message, (ping [] [.raw ⟨[0x70, 0x69], 0⟩]).finalize = .ok () packet' ∧
      layersToBytes (packet'.layers.drop 2) = .ok message ∧ checksum message ≠ 0 := by
  let := Deku.truncating
  refine ⟨⟨[.ether default,
    .ipv4 { (default : Ipv4) with protocol := .ICMP, length := 30, checksum := 0xbcdd },
    .icmp4 { (default : Icmp4) with icmpType := .EchoRequest, checksum := 0xf7ff },
    .raw ⟨[0x70, 0x69], 0⟩]⟩, [8, 0, 0xf7, 0xff, 0, 0, 0, 0, 0x70, 0x69], ?_⟩
  decide +kernel

/-- Two bytes of `ff` behind it do no harm. -/
theorem icmp_verified_ping :
    letI := Deku.truncating
    ∃ packet', (ping [0x70, 0x69] [.raw ⟨[0xff, 0xff], 0⟩]).finalize = .ok () packet' ∧
      packet'.IcmpVerified 1 := by
  let := Deku.truncating
  have hfin : (ping [0x70, 0x69] [.raw ⟨[0xff, 0xff], 0⟩]).finalize = .ok () ⟨[.ether default,
      .ipv4 { (default : Ipv4) with protocol := .ICMP, length := 32, checksum := 0xbcdb },
      .icmp4 { (default : Icmp4) with
        icmpType := .EchoRequest, checksum := 0x8796, data := [0x70, 0x69] },
      .raw ⟨[0xff, 0xff], 0⟩]⟩ := by decide +kernel
  have hlayers : (ping [0x70, 0x69] [.raw ⟨[0xff, 0xff], 0⟩]).layers =
      [_] ++ .ipv4 _ :: .icmp4 _ :: [.raw ⟨[0xff, 0xff], 0⟩] := rfl
  have htcp : ∀ t : Tcp, .tcp t ∉ [Layer.raw ⟨[0xff, 0xff], 0⟩] := by
    intro t ht
    cases List.mem_singleton.mp ht
  exact ⟨_, hfin, (icmp_verified_iff hlayers hfin).mpr
    ⟨fun t ht => absurd ht (htcp t), fun t ht => absurd ht (htcp t), rfl⟩⟩

end Nata
