/-
  A UDP checksum of zero.

  Zero in the checksum field of a Udp header says that the sender did not compute a checksum.  A
  sender that does, and arrives at zero, is to send the other zero, `0xffff`.  `Udp::finalize`
  stores what it arrives at, and that is zero exactly when the words that the checksum covers add
  up to a multiple of `65535` (`Udp.coveredSum`).
-/
import Nata.Layer.BuiltIn

namespace Nata

namespace Udp

/-- The sum of what the checksum of a datagram with this payload covers behind `ip`: the pseudo
    header, the header as it was before, and the payload. -/
def coveredSum (udp : Udp) (ip : IpHeader) (payload : Bytes) : ZMod 65535 :=
  ip.addressSum + (ip.protocol.id.toNat : ZMod 65535) + (8 + payload.length : Nat) +
    (udp.sport.toNat + udp.dport.toNat + udp.length.toNat) + ocs payload

/-- The checksum is zero when the sum is.  The length in the pseudo header sees to it that the words
    are not all zero. -/
theorem newChecksum_eq_zero_iff {udp : Udp} {ip : IpHeader} {payload : Bytes}
    (hlt : 8 + payload.length < 2 ^ 16) :
    udp.newChecksum ip payload = 0 ↔ udp.coveredSum ip payload = 0 := by
  have hfits : ip.Fits (8 + payload.length) := IpHeader.fits_of_lt hlt
  have hpseudo := ip.length_pseudoHeader ip.protocol.id (8 + payload.length)
  have hheader := udp.length_cleared
  have hlen : (ip.pseudoHeader ip.protocol.id (8 + payload.length) ++
      (udp.cleared ++ payload)).length ≤ 131074 := by
    simp only [List.length_append]
    omega
  have hsum : ocs (ip.pseudoHeader ip.protocol.id (8 + payload.length) ++
      (udp.cleared ++ payload)) = udp.coveredSum ip payload := by
    have heven : 2 ∣ udp.cleared.length := by
      rw [hheader]
      decide
    rw [ocs_append_of_even hpseudo.1, ocs_append_of_even heven, IpHeader.ocs_pseudoHeader hfits,
      ocs_cleared, coveredSum]
    ring
  rw [newChecksum, List.append_assoc, checksum_eq_zero_iff hlen, hsum]
  exact and_iff_right (IpHeader.wordSum_pseudoHeader_ne_zero hfits (by omega) _)

/-- **When a datagram is sent with a checksum**: when what the checksum covers does not add up to
    zero, whichever layers are in front of the IP layer and behind the Udp layer. -/
theorem finalize_checksum_iff [Deku] {L : Type} [LayerBytes L] [GetIp L] {prev next : List L}
    {ip : IpHeader} (hip : lastIp prev = some ip) (udp : Udp) :
    (∀ udp', finalize prev next udp = .ok () udp' → udp'.checksum ≠ 0) ↔
      ∀ payload, layersToBytes next = .ok payload → 8 + payload.length ≤ 65535 →
        udp.coveredSum ip payload ≠ 0 := by
  constructor
  · intro h payload hpayload hle hsum
    have hlt : 8 + payload.length < 2 ^ 16 := by omega
    have hzero := h _ (finalize_eq_ok.mpr ⟨payload, hpayload, hlt, rfl⟩)
    simp only [hip] at hzero
    exact hzero ((newChecksum_eq_zero_iff hlt).mpr hsum)
  · intro h udp' hfin hzero
    obtain ⟨payload, hpayload, hlt, rfl⟩ := finalize_eq_ok.mp hfin
    simp only [hip] at hzero
    exact h payload hpayload (by omega) ((newChecksum_eq_zero_iff hlt).mp hzero)

end Udp

/-- An IPv6 header between two link-local addresses. -/
def linkLocal : Ipv6 :=
  { (default : Ipv6) with
    version := 6, nextHeader := .UDP, src := 0xfe800000000000000000000000000001,
    dst := 0xfe800000000000000000000000000002 }

/-- A datagram of two bytes is sent as one without a checksum. -/
theorem finalize_checksum_zero :
    letI := Deku.truncating
    ¬∀ (prev next : List Layer) (udp udp' : Udp), (lastIp prev).isSome →
      Udp.finalize prev next udp = .ok () udp' → udp'.checksum ≠ 0 := by
  let := Deku.truncating
  intro h
  have hfin : Udp.finalize [Layer.ipv6 linkLocal] [Layer.raw ⟨[0x02, 0x75], 0⟩]
      { sport := 53, dport := 54, length := 0, checksum := 0 } =
        .ok () { sport := 53, dport := 54, length := 10, checksum := 0 } := by decide +kernel
  exact h _ _ _ _ rfl hfin rfl

theorem finalize_checksum_linkLocal :
    letI := Deku.truncating
    ∃ udp', Udp.finalize [Layer.ipv6 linkLocal] [Layer.raw ⟨[0x02, 0x76], 0⟩]
      { sport := 53, dport := 54, length := 0, checksum := 0 } = .ok () udp' ∧
        udp'.checksum ≠ 0 := by
  let := Deku.truncating
  have hip : lastIp [Layer.ipv6 linkLocal] = some (.v6 linkLocal) := rfl
  have hfin : Udp.finalize [Layer.ipv6 linkLocal] [Layer.raw ⟨[0x02, 0x76], 0⟩]
      { sport := 53, dport := 54, length := 0, checksum := 0 } =
        .ok () { sport := 53, dport := 54, length := 10, checksum := 0xfffe } := by decide +kernel
  refine ⟨_, hfin, (Udp.finalize_checksum_iff hip _).mpr (fun payload hpayload _ => ?_) _ hfin⟩
  obtain rfl := Except.ok.inj hpayload
  decide +kernel

end Nata
