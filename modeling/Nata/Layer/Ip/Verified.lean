/-
  The header that `Ipv4::finalize` leaves behind verifies.

  The checksum is taken over a SECOND serialisation, made after the length has been written, with
  the two bytes of the checksum cleared.  That it ends up right needs three things: those two bytes
  are those of the field (`Ipv4.toBytes_frame`), so that writing the result into the field changes
  nothing else; the length check has bounded the header, so that the sum does not overflow; and the
  sum of a header with its checksum in place is zero without all of its words being zero.
-/
import Nata.Layer.Ip.ChecksumLaws
import Nata.Layer.Ip.Ipv4
import Nata.Layer.Measures

namespace Nata

namespace Ipv4

variable [Deku]

/-- `after` is `before` with the right length, that of its `bytes` and what is `behind`, and the
    right checksum. -/
structure Verified (before after : Ipv4) (bytes : Bytes) (behind : Nat) : Prop where
  written : after.toBytes = .ok bytes
  length : after.length.toNat = bytes.length + behind
  /-- What a receiver computes. -/
  valid : Nata.checksum bytes = 0
  /-- Neither the sum that was computed nor the one that verifies it overflows. -/
  sums : ∀ input ∈ [clearWord bytes 10, bytes], runningSum input = some (checksumSum input)
  frame : after = { before with length := after.length, checksum := after.checksum }

/-- The bytes around the checksum of a header with a new length. -/
theorem toBytes_around {ipv4 : Ipv4} {header : Bytes} (h : ipv4.toBytes = .ok header)
    (length : BitVec 16) :
    ∃ x z : Bytes, x.length = 10 ∧ (∀ checksum : BitVec 16,
      { ipv4 with length, checksum }.toBytes = .ok (x ++ be checksum ++ z)) ∧
      x.length + 2 + z.length = header.length := by
  obtain ⟨x, y, z, hx, hy, -, hframe⟩ := toBytes_frame h
  have hlen : (x ++ be length ++ y).length = 10 := by
    simp only [List.length_append, length_be16, hx, hy]
  refine ⟨x ++ be length ++ y, z, hlen, hframe length, ?_⟩
  rw [← length_toBytes_update h (hframe length 0)]
  simp only [List.length_append, length_be16]

/-- **finalize leaves a header that verifies**, or fails and leaves the layer alone. -/
theorem finalize_verified {L : Type} [LayerBytes L] (prev next : List L) (ipv4 : Ipv4) :
    (∀ ipv4', finalize prev next ipv4 = .ok () ipv4' →
      ∃ header bytes behind, ipv4.toBytes = .ok header ∧ lengthOfLayers next = .ok behind ∧
        Verified ipv4 ipv4' bytes behind ∧ bytes.length = header.length ∧
        ((∀ layer ∈ next, DefaultLength layer) →
          ∃ tail, layersToBytes next = .ok tail ∧ behind = tail.length)) ∧
    (∀ header behind, ipv4.toBytes = .ok header → lengthOfLayers next = .ok behind →
      65535 < header.length + behind → ∃ msg, finalize prev next ipv4 = .error (.finalize msg) ipv4) ∧
    ∀ e ipv4', finalize prev next ipv4 = .error e ipv4' → ipv4' = ipv4 := by
  refine ⟨fun ipv4' hfin => ?_, fun header behind hheader hbehind hlt => ?_, fun e ipv4' herror =>
    (finalize_eq_error.mp herror).1⟩
  · obtain ⟨header, behind, hheader, hbehind, hlt, cleared, hcleared, rfl⟩ :=
      finalize_eq_ok.mp hfin
    obtain ⟨x, z, hx, hbytes, hlen⟩ :=
      toBytes_around hheader (BitVec.ofNat 16 (header.length + behind))
    obtain rfl := Except.ok.inj ((hbytes 0).symm.trans hcleared)
    have hsize : ∀ v : BitVec 16, (x ++ be v ++ z).length = header.length := by
      intro v
      simp only [List.length_append, length_be16]
      exact hlen
    have hbound : ∀ v : BitVec 16, (x ++ be v ++ z).length ≤ 131074 := by
      intro v
      have := hsize v
      omega
    have hnew := hbytes (Nata.checksum (x ++ be 0#16 ++ z))
    refine ⟨header, _, behind, hheader, hbehind, ⟨hnew, ?_, ?_, ?_, rfl⟩, hsize _, fun hdefault => ?_⟩
    · rw [hsize]
      exact Nat.mod_eq_of_lt hlt
    · have hsum := @ocs_toBytes _
        { ipv4 with length := BitVec.ofNat 16 (header.length + behind) } _ _ hcleared hnew (hbound _)
      exact (checksum_eq_zero_iff (hbound _)).mpr ⟨wordSum_field_ne_zero, hsum⟩
    · intro input hinput
      rw [runningSum_eq_checksumSum_iff]
      apply wordSum_lt_of_length
      rw [clearWord_append _ hx] at hinput
      rcases List.mem_pair.mp hinput with rfl | rfl <;> exact hbound _
    · obtain ⟨tail, htail, rfl, -⟩ := (lengthOfLayers_eq_ok hdefault).mp hbehind
      exact ⟨tail, htail, rfl⟩
  · exact ⟨_, finalize_eq_error.mpr ⟨rfl, .inr ⟨header, hheader, .inr ⟨behind, hbehind, by omega, rfl⟩⟩⟩⟩

/-- A header with an option, and with a wrong length and checksum. -/
def optioned : Ipv4 :=
  { (default : Ipv4) with
    ihl := 6, length := 7, checksum := 9, protocol := .UDP,
    options := [⟨1, .Control, .Unknown 7 4 [1, 2]⟩] }

omit [Deku] in
theorem finalize_verified_optioned :
    letI := Deku.truncating
    letI : LayerBytes Bytes := { toBytes := .ok }
    (∃ ipv4' bytes behind, optioned.finalize ([] : List Bytes) [[0x70, 0x69], [0x6e, 0x67, 0x21]] =
      .ok () ipv4' ∧ Verified optioned ipv4' bytes behind ∧ ipv4'.length = 29) ∧
    ∃ (data : Bytes) (msg : String), data.length = 65520 ∧
      optioned.finalize [] [data] = .error (.finalize msg) optioned := by
  let := Deku.truncating
  let : LayerBytes Bytes := { toBytes := .ok }
  let payload : List Bytes := [[0x70, 0x69], [0x6e, 0x67, 0x21]]
  have hfin : optioned.finalize [] payload =
      .ok () { optioned with length := 29, checksum := 0x33c8 } := by decide +kernel
  obtain ⟨header, bytes, behind, hheader, -, hverified, -⟩ :=
    (finalize_verified [] payload optioned).1 _ hfin
  obtain ⟨data, hdata⟩ : ∃ data : Bytes, data.length = 65520 :=
    ⟨.replicate 65520 0, List.length_replicate⟩
  have hdefault : ∀ layer ∈ [data], DefaultLength layer := fun layer _ => show _ = _ from rfl
  have hbehind : lengthOfLayers [data] = .ok 65520 := (lengthOfLayers_eq_ok hdefault).mpr
    ⟨data, layersToBytes_singleton.mpr rfl, hdata.symm, by decide⟩
  obtain ⟨z, -, hlen⟩ := length_toBytes hheader
  obtain ⟨msg, herror⟩ :=
    (finalize_verified [] [data] optioned).2.1 _ _ hheader hbehind (by omega)
  exact ⟨⟨_, bytes, behind, hfin, hverified, rfl⟩, data, msg, hdata, herror⟩

end Ipv4

end Nata
