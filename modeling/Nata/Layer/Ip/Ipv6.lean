/-
  The IPv6 layer: a header of forty bytes whose length field counts what follows it.
-/
import Nata.Layer.Basic
import Nata.Layer.Ip.Checksum
import Nata.Layer.Ip.Protocols

namespace Nata

/-- IPv6 Header -/
structure Ipv6 where
  /-- Version -/
  version : BitVec 8
  /-- Differentiated Services -/
  ds : BitVec 8
  /-- Explicit Congestion Notification -/
  ecn : BitVec 8
  /-- Flow Label -/
  label : BitVec 32
  /-- Payload Length -/
  length : BitVec 16
  /-- Next Header -/
  nextHeader : IpProtocol
  /-- Hop Limit -/
  hopLimit : BitVec 8
  /-- Source IP Address -/
  src : BitVec 128
  /-- Destination IP Address -/
  dst : BitVec 128
  deriving DecidableEq

namespace Ipv6

instance : Inhabited Ipv6 where
  default :=
    { version := 0, ds := 0, ecn := 0, label := 0, length := 0, nextHeader := .IPV6NONXT,
      hopLimit := 0, src := 0xff000000000000000000000000000000,
      dst := 0xff000000000000000000000000000000 }

section Format

variable [Deku]

/-- The format of the header. -/
def codec : Field Ipv6 :=
  ((Codec.bits 4 8).andThen <| (Codec.bits 6 8).andThen <|
    (Codec.bits 2 8).andThen <| (Codec.bits 20 32).andThen <|
    Codec.uint.andThen <| IpProtocol.codec.andThen <| Codec.uint.andThen <|
    Codec.uint.andThen Codec.uint).iso
    (fun (version, ds, ecn, label, length, nextHeader, hopLimit, src, dst) =>
      { version, ds, ecn, label, length, nextHeader, hopLimit, src, dst })
    (fun h => (h.version, h.ds, h.ecn, h.label, h.length, h.nextHeader, h.hopLimit, h.src, h.dst))
    (fun _ => rfl) fun _ => rfl

/-- Read a header, and return what is behind it. -/
def parse (input : Bytes) : Except LayerError (Bytes × Ipv6) := derivedParse codec input

/-- The header on the wire. -/
def toBytes (ipv6 : Ipv6) : Except LayerError Bytes := derivedToBytes codec ipv6

/-- The header takes 320 bits. -/
theorem sized_codec : codec.Sized 320 :=
  ((Codec.sized_bits _).seq fun _ => (Codec.sized_bits _).seq fun _ =>
    (Codec.sized_bits _).seq fun _ => (Codec.sized_bits _).seq fun _ =>
    Codec.sized_uint.seq fun _ => IpProtocol.codes.sized_codec.seq fun _ =>
    Codec.sized_uint.seq fun _ => Codec.sized_uint.seq fun _ => Codec.sized_uint).iso

/-- The header takes 40 bytes. -/
theorem length_toBytes {ipv6 : Ipv6} {bytes : Bytes} (h : ipv6.toBytes = .ok bytes) :
    bytes.length = 40 := length_derivedToBytes (k := 40) sized_codec h

/-- The header on the wire: the length field is the third of its words, and nothing else depends
    on it. -/
theorem toBytes_frame {ipv6 : Ipv6} {bytes : Bytes} (h : ipv6.toBytes = .ok bytes) :
    ∃ x z : Bytes, x.length = 4 ∧
      ∀ length : BitVec 16, { ipv6 with length }.toBytes = .ok (x ++ be length ++ z) := by
  obtain ⟨u, hu, rfl⟩ := derivedToBytes_eq_ok.mp h
  simp only [codec, Codec.write_iso, Codec.write_seq_eq_ok] at hu
  obtain ⟨v, _, hv, ⟨d, _, hd, ⟨e, _, he, ⟨l, _, hl, ⟨_, t, -, ht, rfl⟩, rfl⟩, rfl⟩, rfl⟩, rfl⟩ := hu
  have h4 := Codec.length_writeBits hv
  have h6 := Codec.length_writeBits hd
  have h2 := Codec.length_writeBits he
  have h20 := Codec.length_writeBits hl
  have hx : (v ++ (d ++ (e ++ l))).length = 8 * 4 := by
    simp only [List.length_append]
    omega
  have h8 : 8 ∣ (v ++ (d ++ (e ++ l))).length := by
    rw [hx]
    exact Nat.dvd_mul_right 8 4
  refine ⟨pack (v ++ (d ++ (e ++ l))), pack t, length_pack_of_length hx, fun length => ?_⟩
  refine derivedToBytes_eq_ok.mpr ⟨v ++ (d ++ (e ++ l)) ++ (natBits 16 length.toNat ++ t), ?_, ?_⟩
  · simp only [codec, Codec.write_iso, Codec.write_seq_eq_ok]
    exact ⟨v, _, hv, ⟨d, _, hd, ⟨e, _, he, ⟨l, _, hl, ⟨_, t, rfl, ht, rfl⟩, rfl⟩, rfl⟩, rfl⟩,
      by simp only [List.append_assoc]⟩
  · rw [pack_append h8, pack_natBits_append length t (by decide), List.append_assoc]

/-- A new length counts for itself. -/
theorem ocs_toBytes_update {ipv6 : Ipv6} {bytes bytes' : Bytes} {length : BitVec 16}
    (h : ipv6.toBytes = .ok bytes) (h' : { ipv6 with length }.toBytes = .ok bytes') :
    ocs bytes' = ocs bytes - ipv6.length.toNat + length.toNat := by
  obtain ⟨x, z, hx, hframe⟩ := toBytes_frame h
  have h4 : 2 ∣ x.length := by
    rw [hx]
    decide
  rw [← Except.ok.inj ((hframe ipv6.length).symm.trans h),
    ← Except.ok.inj ((hframe length).symm.trans h'), ocs_field ipv6.length h4,
    ocs_field length h4]
  ring

end Format

section Finalize

variable {L : Type} [LayerBytes L]

/-- The length is that of all layers behind the header. -/
def finalize (_prev next : List L) : Method LayerError Ipv6 Unit := do
  let size ← lengthOfLayers next
  let length ← okOr (.finalize "Could not convert layer length to u16") (tryFrom 16 size)
  modify fun ipv6 => { ipv6 with length }

/-- `finalize` succeeds when the length fits its field, and changes nothing else. -/
theorem finalize_eq_ok {prev next : List L} {ipv6 ipv6' : Ipv6} :
    finalize prev next ipv6 = .ok () ipv6' ↔
      ∃ size, lengthOfLayers next = .ok size ∧ size < 2 ^ 16 ∧
        ipv6' = { ipv6 with length := BitVec.ofNat 16 size } := by
  simp only [finalize, Method.bind_eq_ok, Method.lift_eq_ok, Method.modify_eq_ok, okOr_eq_ok,
    tryFrom_eq_some]
  constructor
  · rintro ⟨size, _, ⟨hsize, rfl⟩, _, _, ⟨⟨hlt, rfl⟩, rfl⟩, rfl⟩
    exact ⟨size, hsize, hlt, rfl⟩
  · rintro ⟨size, hsize, hlt, rfl⟩
    exact ⟨size, _, ⟨hsize, rfl⟩, _, _, ⟨⟨hlt, rfl⟩, rfl⟩, rfl⟩

/-- An error leaves the layer as it was. -/
theorem finalize_eq_error {prev next : List L} {ipv6 ipv6' : Ipv6} {e : LayerError} :
    finalize prev next ipv6 = .error e ipv6' ↔
      ipv6' = ipv6 ∧ (lengthOfLayers next = .error e ∨ ∃ size, lengthOfLayers next = .ok size ∧
        2 ^ 16 ≤ size ∧ e = .finalize "Could not convert layer length to u16") := by
  simp only [finalize, Method.bind_eq_error, Method.lift_eq_error, Method.lift_eq_ok,
    Method.modify_ne_error, okOr_eq_error, okOr_eq_ok, tryFrom_eq_none_iff, and_false,
    exists_false, or_false]
  constructor
  · rintro (⟨herror, rfl⟩ | ⟨size, _, ⟨hsize, rfl⟩, ⟨hle, rfl⟩, rfl⟩)
    · exact ⟨rfl, .inl herror⟩
    · exact ⟨rfl, .inr ⟨size, hsize, hle, rfl⟩⟩
  · rintro ⟨rfl, herror | ⟨size, hsize, hle, rfl⟩⟩
    · exact .inl ⟨herror, rfl⟩
    · exact .inr ⟨size, _, ⟨hsize, rfl⟩, ⟨hle, rfl⟩, rfl⟩

end Finalize

end Ipv6

end Nata
