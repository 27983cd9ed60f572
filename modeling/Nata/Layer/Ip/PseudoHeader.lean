/-
  The pseudo headers that the transport layers put in front of the bytes they checksum.

  `udp` and `tcp` declare the same two structures and choose between them by the same downcasts of
  the layer before, so they are written here once; the texts of the conversion errors, the only
  difference, are parameters.
-/
import Nata.Layer.Ip.Ipv4
import Nata.Layer.Ip.Ipv6

namespace Nata

/-- What a checksum behind an Ipv6 header covers of the header. -/
structure Ipv6PseudoHeader where
  src : BitVec 128
  dst : BitVec 128
  length : BitVec 32
  zeros : List.Vector (BitVec 8) 3
  nextHeader : IpProtocol

/-- What a checksum behind an Ipv4 header covers of the header. -/
structure Ipv4PseudoHeader where
  src : BitVec 32
  dst : BitVec 32
  zeros : BitVec 8
  protocol : IpProtocol
  length : BitVec 16

namespace Ipv6PseudoHeader

/-- The pseudo header of a header, with the length of what is behind. -/
def new (ipv6 : Ipv6) (length : BitVec 32) : Ipv6PseudoHeader :=
  { src := ipv6.src, dst := ipv6.dst, length, zeros := .replicate 3 0,
    nextHeader := ipv6.nextHeader }

/-- The format of a pseudo header. -/
def codec : Field Ipv6PseudoHeader :=
  (Codec.uint.andThen <| Codec.uint.andThen <| Codec.uint.andThen <|
    (Codec.uint.array 3).andThen IpProtocol.codec).iso
    (fun (src, dst, length, zeros, nextHeader) => { src, dst, length, zeros, nextHeader })
    (fun h => (h.src, h.dst, h.length, h.zeros, h.nextHeader)) (fun _ => rfl) fun _ => rfl

/-- The bytes of a pseudo header. -/
def toBytes [Deku] (header : Ipv6PseudoHeader) : Except LayerError Bytes :=
  derivedToBytes codec header

/-- The pseudo header field by field: it can always be serialised. -/
theorem toBytes_new [Deku] (ipv6 : Ipv6) (length : BitVec 32) :
    (new ipv6 length).toBytes = .ok (be ipv6.src ++ be ipv6.dst ++ be length ++ be 0#24 ++
      be ipv6.nextHeader.id) := by
  refine derivedToBytes_eq_ok.mpr ⟨natBits 128 ipv6.src.toNat ++ (natBits 128 ipv6.dst.toNat ++
    (natBits 32 length.toNat ++ (natBits 24 0 ++ natBits 8 ipv6.nextHeader.id.toNat))), ?_, ?_⟩
  · rfl
  · rw [pack_natBits_append _ _ (by decide), pack_natBits_append _ _ (by decide),
      pack_natBits_append _ _ (by decide), pack_append (by decide)]
    simp only [List.append_assoc]
    rfl

end Ipv6PseudoHeader

namespace Ipv4PseudoHeader

/-- The pseudo header of a header, with the length of what is behind. -/
def new (ipv4 : Ipv4) (length : BitVec 16) : Ipv4PseudoHeader :=
  { src := ipv4.src, dst := ipv4.dst, zeros := 0, protocol := ipv4.protocol, length }

/-- The format of a pseudo header. -/
def codec : Field Ipv4PseudoHeader :=
  (Codec.uint.andThen <| Codec.uint.andThen <| Codec.uint.andThen <|
    IpProtocol.codec.andThen Codec.uint).iso
    (fun (src, dst, zeros, protocol, length) => { src, dst, zeros, protocol, length })
    (fun h => (h.src, h.dst, h.zeros, h.protocol, h.length)) (fun _ => rfl) fun _ => rfl

/-- The bytes of a pseudo header. -/
def toBytes [Deku] (header : Ipv4PseudoHeader) : Except LayerError Bytes :=
  derivedToBytes codec header

/-- The pseudo header field by field: it can always be serialised. -/
theorem toBytes_new [Deku] (ipv4 : Ipv4) (length : BitVec 16) :
    (new ipv4 length).toBytes = .ok (be ipv4.src ++ be ipv4.dst ++ be 0#8 ++
      be ipv4.protocol.id ++ be length) := by
  refine derivedToBytes_eq_ok.mpr ⟨natBits 32 ipv4.src.toNat ++ (natBits 32 ipv4.dst.toNat ++
    (natBits 8 0 ++ (natBits 8 ipv4.protocol.id.toNat ++ natBits 16 length.toNat))), ?_, ?_⟩
  · rfl
  · rw [pack_natBits_append _ _ (by decide), pack_natBits_append _ _ (by decide),
      pack_append (by decide), pack_natBits_append _ _ (by decide)]
    simp only [List.append_assoc]
    rfl

end Ipv4PseudoHeader

/-- The downcasts `get_layer!(layer, Ipv4)` and `get_layer!(layer, Ipv6)`. -/
class GetIp (L : Type) where
  getIpv4 : L → Option Ipv4
  getIpv6 : L → Option Ipv6

section

variable [Deku] {L : Type} [GetIp L]

/-- The pseudo header for a transport layer of `length` bytes behind `prevLayer`, if that is an IP
    layer; `toU16` and `toU32` are the texts for a length that does not fit. -/
def ipPseudoHeader (toU16 toU32 : String) (prevLayer : L) (length : Nat) :
    Except LayerError (Option Bytes) :=
  match GetIp.getIpv4 prevLayer with
  | some ipv4 => do
    let length ← okOr (.finalize toU16) (tryFrom 16 length)
    let data ← (Ipv4PseudoHeader.new ipv4 length).toBytes
    return some data
  | none =>
    match GetIp.getIpv6 prevLayer with
    | some ipv6 => do
      let length ← okOr (.finalize toU32) (tryFrom 32 length)
      let data ← (Ipv6PseudoHeader.new ipv6 length).toBytes
      return some data
    | none => return none

end

/-! ## The IP layer before a transport layer -/

/-- An IP layer of either version. -/
inductive IpHeader
  | v4 (ipv4 : Ipv4)
  | v6 (ipv6 : Ipv6)

namespace IpHeader

/-- The protocol it announces for what follows. -/
def protocol : IpHeader → IpProtocol
  | v4 ipv4 => ipv4.protocol
  | v6 ipv6 => ipv6.nextHeader

/-- Its pseudo header has room for the length of the datagram. -/
def Fits (length : Nat) : IpHeader → Prop
  | v4 _ => length < 2 ^ 16
  | v6 _ => length < 2 ^ 32

/-- A length that fits an Ipv4 pseudo header fits either. -/
theorem fits_of_lt {length : Nat} (h : length < 2 ^ 16) : ∀ {ip : IpHeader}, ip.Fits length
  | v4 _ => h
  | v6 _ => Nat.lt_trans h (by decide)

/-- The pseudo header of a datagram of `length` bytes: source, destination, protocol, length. -/
def pseudoHeader (protocol : BitVec 8) (length : Nat) : IpHeader → Bytes
  | v4 ipv4 =>
    be ipv4.src ++ be ipv4.dst ++ be 0#8 ++ be protocol ++ be (BitVec.ofNat 16 length)
  | v6 ipv6 =>
    be ipv6.src ++ be ipv6.dst ++ be (BitVec.ofNat 32 length) ++ be 0#24 ++ be protocol

/-- What the addresses contribute to the sum of the pseudo header. -/
def addressSum : IpHeader → ZMod 65535
  | v4 ipv4 => ipv4.src.toNat + ipv4.dst.toNat
  | v6 ipv6 => ipv6.src.toNat + ipv6.dst.toNat

/-- A pseudo header is whole words, and never more than 40 bytes. -/
theorem length_pseudoHeader (ip : IpHeader) (protocol : BitVec 8) (length : Nat) :
    2 ∣ (ip.pseudoHeader protocol length).length ∧
      (ip.pseudoHeader protocol length).length ≤ 40 := by
  have h24 : (be 0#24).length = 3 := length_be _ rfl
  cases ip with
  | v4 ipv4 =>
    simp only [pseudoHeader, List.length_append, length_be32, length_be8, length_be16]
    omega
  | v6 ipv6 =>
    simp only [pseudoHeader, List.length_append, length_be128, length_be32, length_be8, h24]
    omega

/-- The sum of a pseudo header: each of its parts counts for itself. -/
theorem ocs_pseudoHeader {ip : IpHeader} {protocol : BitVec 8} {length : Nat}
    (h : ip.Fits length) :
    ocs (ip.pseudoHeader protocol length) =
      ip.addressSum + (protocol.toNat : ZMod 65535) + (length : ZMod 65535) := by
  have h256 : (256 : ZMod 65535) * 256 = 1 := by decide
  have h24 : (be 0#24).length = 3 := length_be _ rfl
  have hz24 : ocs (be 0#24) = 0 := by decide
  have hz8 : ocs (be 0#8) = 0 := by decide
  have hodd : ∀ k : Nat, (256 : ZMod 65535) ^ (2 * k + 1) = 256 := by
    intro k
    rw [pow_succ, pow_256_of_even (Nat.dvd_mul_right 2 k), one_mul]
  cases ip with
  | v4 ipv4 =>
    have hlen : (BitVec.ofNat 16 length).toNat = length := Nat.mod_eq_of_lt h
    simp only [pseudoHeader, addressSum, ocs_append, List.length_append, length_be32, length_be8,
      hz8, ocs_be _ (by decide : 16 ∣ 32), ocs_be _ (by decide : 16 ∣ 16), ocs_be8, hlen]
    rw [hodd 4, pow_256_of_even (by decide), pow_256_of_even (by decide),
      pow_256_of_even (by decide)]
    linear_combination (protocol.toNat : ZMod 65535) * h256
  | v6 ipv6 =>
    have hlen : (BitVec.ofNat 32 length).toNat = length := Nat.mod_eq_of_lt h
    simp only [pseudoHeader, addressSum, ocs_append, List.length_append, length_be128, length_be32,
      h24, hz24, ocs_be _ (by decide : 16 ∣ 128), ocs_be _ (by decide : 16 ∣ 32), ocs_be8, hlen]
    rw [hodd 19, pow_256_of_even (by decide), pow_256_of_even (by decide)]
    linear_combination (protocol.toNat : ZMod 65535) * h256

/-- The length keeps the bytes of a pseudo header from being all zero. -/
theorem wordSum_pseudoHeader_ne_zero {ip : IpHeader} {protocol : BitVec 8} {length : Nat}
    (h : ip.Fits length) (hpos : 0 < length) (rest : Bytes) :
    wordSum (ip.pseudoHeader protocol length ++ rest) ≠ 0 := by
  have hne : ∀ w : Nat, length < 2 ^ w → BitVec.ofNat w length ≠ 0 := by
    intro w hlt hzero
    have hnat := congrArg BitVec.toNat hzero
    rw [BitVec.toNat_ofNat, Nat.mod_eq_of_lt hlt] at hnat
    exact absurd hnat (Nat.ne_of_gt hpos)
  have hmem : ∃ b ∈ ip.pseudoHeader protocol length, b ≠ 0 := by
    cases ip with
    | v4 ipv4 =>
      obtain ⟨b, hb, hb0⟩ := exists_mem_be_ne_zero (by decide) (hne 16 h)
      exact ⟨b, List.mem_append_right _ hb, hb0⟩
    | v6 ipv6 =>
      obtain ⟨b, hb, hb0⟩ := exists_mem_be_ne_zero (by decide) (hne 32 h)
      exact ⟨b, List.mem_append_left _ (List.mem_append_left _ (List.mem_append_right _ hb)), hb0⟩
  obtain ⟨b, hb, hb0⟩ := hmem
  exact wordSum_pos (List.mem_append_left rest hb) hb0

/-- Two datagrams of at least one byte have one checksum behind their pseudo headers exactly when
    their lengths and contents add up to the same. -/
theorem checksum_datagram_inj {ip : IpHeader} {protocol : BitVec 8} {m n : Nat}
    {header payload header' payload' : Bytes} (hm : ip.Fits m) (hn : ip.Fits n) (hm0 : 0 < m)
    (hn0 : 0 < n) (hheader : 2 ∣ header.length) (hheader' : 2 ∣ header'.length)
    (hlen : header.length + payload.length ≤ 131034)
    (hlen' : header'.length + payload'.length ≤ 131034) :
    checksum (ip.pseudoHeader protocol m ++ header ++ payload) =
        checksum (ip.pseudoHeader protocol n ++ header' ++ payload') ↔
      (m : ZMod 65535) + ocs header + ocs payload = n + ocs header' + ocs payload' := by
  have hpm := ip.length_pseudoHeader protocol m
  have hpn := ip.length_pseudoHeader protocol n
  have hle : (ip.pseudoHeader protocol m ++ (header ++ payload)).length ≤ 131074 := by
    simp only [List.length_append]
    omega
  have hle' : (ip.pseudoHeader protocol n ++ (header' ++ payload')).length ≤ 131074 := by
    simp only [List.length_append]
    omega
  rw [List.append_assoc, List.append_assoc,
    checksum_eq_internetChecksum (wordSum_lt_of_length hle),
    checksum_eq_internetChecksum (wordSum_lt_of_length hle'),
    internetChecksum_inj (wordSum_pseudoHeader_ne_zero hm hm0 _)
      (wordSum_pseudoHeader_ne_zero hn hn0 _),
    ocs_append_of_even hpm.1, ocs_append_of_even hpn.1, ocs_append_of_even hheader,
    ocs_append_of_even hheader', ocs_pseudoHeader hm, ocs_pseudoHeader hn]
  constructor
  · intro h
    linear_combination h
  · intro h
    linear_combination h

end IpHeader

section

variable {L : Type} [GetIp L]

/-- The IP layer that a layer is, if it is one. -/
def getIp (layer : L) : Option IpHeader :=
  match GetIp.getIpv4 layer with
  | some ipv4 => some (.v4 ipv4)
  | none => (GetIp.getIpv6 layer).map .v6

/-- The IP layer directly before. -/
def lastIp (prev : List L) : Option IpHeader := prev.getLast?.bind getIp

/-- There is a pseudo header behind an IP layer, if the length fits it; and none behind another
    layer. -/
theorem ipPseudoHeader_eq_ok [Deku] {toU16 toU32 : String} {prevLayer : L} {length : Nat}
    {r : Option Bytes} :
    ipPseudoHeader toU16 toU32 prevLayer length = .ok r ↔
      match getIp prevLayer with
      | some ip => ip.Fits length ∧ r = some (ip.pseudoHeader ip.protocol.id length)
      | none => r = none := by
  unfold ipPseudoHeader getIp
  cases GetIp.getIpv4 prevLayer with
  | some ipv4 =>
    simp only [except_bind_eq_ok, okOr_eq_ok, tryFrom_eq_some]
    constructor
    · rintro ⟨_, ⟨hlt, rfl⟩, data, hdata, hr⟩
      obtain rfl := Except.ok.inj ((Ipv4PseudoHeader.toBytes_new ipv4 _).symm.trans hdata)
      exact ⟨hlt, (Except.ok.inj hr).symm⟩
    · rintro ⟨hlt, rfl⟩
      exact ⟨_, ⟨hlt, rfl⟩, _, Ipv4PseudoHeader.toBytes_new ipv4 _, rfl⟩
  | none =>
    cases GetIp.getIpv6 prevLayer with
    | some ipv6 =>
      simp only [except_bind_eq_ok, okOr_eq_ok, tryFrom_eq_some]
      constructor
      · rintro ⟨_, ⟨hlt, rfl⟩, data, hdata, hr⟩
        obtain rfl := Except.ok.inj ((Ipv6PseudoHeader.toBytes_new ipv6 _).symm.trans hdata)
        exact ⟨hlt, (Except.ok.inj hr).symm⟩
      · rintro ⟨hlt, rfl⟩
        exact ⟨_, ⟨hlt, rfl⟩, _, Ipv6PseudoHeader.toBytes_new ipv6 _, rfl⟩
    | none =>
      constructor
      · intro hr
        exact (Except.ok.inj hr).symm
      · rintro rfl
        rfl

end

end Nata
