/-
  The data offset that `Tcp::finalize` stores.

  The field has four bits, and `finalize` refuses a header whose size in words does not fit a `u8`.
  Between the two lie the headers of 64 to 1020 bytes: they are finalised without an error, although
  no header on the wire can have their size.  What decides is the size of the options before they are
  padded (`finalize_offset_iff`): up to 40 bytes the offset is right.
-/
import Nata.Layer.BuiltIn
import Nata.Layer.Tcp.Grammar

namespace Nata

namespace Tcp

/-- The bytes that the options take. -/
def optionsLength (tcp : Tcp) : Nat := (tcp.options.flatMap TcpOption.bytes).length

/-- The offset fits its field and is the size of the serialised header in words; so a receiver that
    reads it finds the payload where it starts. -/
def OffsetRight [Deku] (tcp : Tcp) : Prop :=
  tcp.offset.toNat ≤ 15 ∧ ∃ bytes, tcp.toBytes = .ok bytes ∧
    4 * tcp.offset.toNat = bytes.length ∧
    ∀ payload, (bytes ++ payload).drop (4 * dataOffset (bytes ++ payload)) = payload

variable [Deku]

/-- An offset that fits and counts the words of the header is found by the receiver. -/
theorem offsetRight_of_size {tcp : Tcp} {bytes : Bytes} (h15 : tcp.offset.toNat ≤ 15)
    (h : tcp.toBytes = .ok bytes) (hsize : 4 * tcp.offset.toNat = bytes.length) :
    tcp.OffsetRight := by
  refine ⟨h15, bytes, h, hsize, fun payload => ?_⟩
  rw [dataOffset_toBytes h, nibble_of_lt (by omega), hsize, List.drop_left]

/-- **When finalize stores a right offset**: when the options take at most 40 bytes. -/
theorem finalize_offset_iff {L : Type} [LayerBytes L] [GetIp L] {prev next : List L}
    {tcp tcp' : Tcp} (h : finalize prev next tcp = .ok () tcp') :
    tcp'.OffsetRight ↔ tcp.optionsLength ≤ 40 := by
  obtain ⟨header, checksum, hheader, -, hlt, rfl⟩ := finalize_eq_ok.mp h
  have hsize : header.length = 20 + tcp.optionsLength := length_toBytes_eq hheader
  have hpadded := length_cleared header
  have hwords := four_dvd_length_cleared header
  have hpad : padAmt header.length < 4 := by
    rw [padAmt]
    omega
  have hoffset : (BitVec.ofNat 8 ((cleared header).length / 4)).toNat =
      (cleared header).length / 4 := Nat.mod_eq_of_lt hlt
  constructor
  · rintro ⟨h15, -⟩
    have h15 : (BitVec.ofNat 8 ((cleared header).length / 4)).toNat ≤ 15 := h15
    rw [hoffset] at h15
    omega
  · intro h40
    have h15 : (BitVec.ofNat 8 ((cleared header).length / 4)).toNat ≤ 15 := by
      rw [hoffset]
      omega
    -- Nothing but the offset can fail to be written of a header that has been written before.
    obtain ⟨a, z, f, -, -, hframe⟩ := toBytes_frame hheader
    have hbytes := (hframe (BitVec.ofNat 8 ((cleared header).length / 4)) checksum
      (padAmt header.length) _).mpr ⟨_, Codec.writeBits_of_lt (by omega), rfl⟩
    refine offsetRight_of_size h15 hbytes ?_
    rw [(toBytes_update hheader hbytes).1, hoffset]
    omega

end Tcp

/-- Options of forty bytes, the most that the offset can count. -/
def fullTcp : Tcp := { (default : Tcp) with options := List.replicate 40 .NOP }

theorem finalize_offset_fullTcp :
    letI := Deku.truncating
    ∃ tcp' : Tcp, Tcp.finalize ([] : List Layer) [] fullTcp = .ok () tcp' ∧ tcp'.OffsetRight := by
  let := Deku.truncating
  obtain ⟨tcp', h⟩ : ∃ tcp', Tcp.finalize ([] : List Layer) [] fullTcp = .ok () tcp' :=
    ⟨{ fullTcp with offset := 15 }, by decide +kernel⟩
  exact ⟨tcp', h, (Tcp.finalize_offset_iff h).mpr (by decide)⟩

/-- One byte more, and a header of sixteen words is finalised with an offset of sixteen. -/
def overfullTcp : Tcp := { (default : Tcp) with options := List.replicate 41 .NOP }

theorem finalize_offset_overfullTcp :
    letI := Deku.truncating
    ¬∀ (prev next : List Layer) (tcp tcp' : Tcp),
      Tcp.finalize prev next tcp = .ok () tcp' → tcp'.OffsetRight := by
  let := Deku.truncating
  intro h
  have hfin : Tcp.finalize ([] : List Layer) [] overfullTcp =
      .ok () { overfullTcp with
        offset := 16
        options := overfullTcp.options ++ [.EOL, .EOL, .EOL] } := by
    decide +kernel
  have hle : (16#8 : BitVec 8).toNat ≤ 15 := (h _ _ _ _ hfin).1
  exact absurd hle (by decide)

end Nata
