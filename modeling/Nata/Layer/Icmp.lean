/-
  The ICMP layer: a message of its own, data included.
-/
import Nata.Layer.Basic
import Nata.Layer.Icmp.IcmpType
import Nata.Layer.Ip.Checksum

namespace Nata

/-- ICMP Header -/
structure Icmp4 where
  icmpType : IcmpType
  code : BitVec 8
  checksum : BitVec 16
  message : BitVec 32
  data : Bytes
  deriving DecidableEq, Repr

namespace Icmp4

instance : Inhabited Icmp4 :=
  ⟨{ icmpType := .EchoReply, code := 0, checksum := 0, message := 0, data := [] }⟩

/-- The format of a message: what is behind the first eight bytes is its data, to the end of the
    input. -/
def codec : Last Icmp4 :=
  (IcmpType.codec.andThen <| Codec.uint.andThen <| Codec.uint.andThen <| Codec.uint.andThen <|
    Codec.uint.readAll Codec.nonempty_octet).iso
    (fun (icmpType, code, checksum, message, data) => { icmpType, code, checksum, message, data })
    (fun h => (h.icmpType, h.code, h.checksum, h.message, h.data)) (fun _ => rfl) fun _ => rfl

/-- Read a message; nothing is left behind it. -/
def parse [Deku] (input : Bytes) : Except LayerError (Bytes × Icmp4) := derivedParse codec input

/-- The message on the wire. -/
def toBytes [Deku] (icmp : Icmp4) : Except LayerError Bytes := derivedToBytes codec icmp

/-- Set the checksum: the message is serialised with the old one, which is cleared in the bytes. -/
def finalize [Deku] {L : Type} (_prev _next : List L) : Method LayerError Icmp4 Unit := do
  let data ← toBytes (← get)
  let icmpHeader := clearWord data 2
  modify fun self => { self with checksum := Nata.checksum icmpHeader }

/-- A message is whole bytes. -/
theorem aligned_codec : codec.Aligned 8 :=
  ((IcmpType.codes.sized_codec.aligned (by decide)).seq fun _ =>
    (Codec.sized_uint.aligned (by decide)).seq fun _ =>
    (Codec.sized_uint.aligned (by decide)).seq fun _ =>
    (Codec.sized_uint.aligned (by decide)).seq fun _ _ _ hu =>
    Codec.aligned_writeVec (Codec.sized_uint.aligned (by decide)) hu).iso

/-- The message on the wire. -/
theorem toBytes_eq [Deku] (icmp : Icmp4) :
    icmp.toBytes = .ok (be icmp.icmpType.id ++ be icmp.code ++ be icmp.checksum ++
      be icmp.message ++ icmp.data) := by
  refine derivedToBytes_eq_ok.mpr ⟨natBits 8 icmp.icmpType.id.toNat ++ (natBits 8 icmp.code.toNat ++
    (natBits 16 icmp.checksum.toNat ++ (natBits 32 icmp.message.toNat ++ toBits icmp.data))),
    ?_, ?_⟩
  · simp only [codec, Codec.write_iso, Codec.write_seq_eq_ok, Codec.write_uint, Except.ok.injEq]
    exact ⟨_, _, rfl, ⟨_, _, rfl, ⟨_, _, rfl, ⟨_, _, rfl, Codec.writeVec_uint icmp.data, rfl⟩, rfl⟩,
      rfl⟩, rfl⟩
  · rw [pack_natBits_append _ _ (by decide), pack_natBits_append _ _ (by decide),
      pack_natBits_append _ _ (by decide), pack_natBits_append _ _ (by decide), pack_toBits]
    simp only [List.append_assoc]

/-- The message with its checksum field cleared. -/
def cleared (icmp : Icmp4) : Bytes :=
  be icmp.icmpType.id ++ be icmp.code ++ be 0#16 ++ (be icmp.message ++ icmp.data)

/-- Clearing the checksum does not change the size. -/
theorem length_toBytes [Deku] {icmp : Icmp4} {bytes : Bytes} (h : icmp.toBytes = .ok bytes) :
    bytes.length = icmp.cleared.length := by
  rw [← Except.ok.inj ((toBytes_eq icmp).symm.trans h)]
  simp only [cleared, List.length_append, length_be16]
  omega

/-- The words of a message with its checksum in place add up to zero. -/
theorem ocs_toBytes [Deku] {icmp : Icmp4} {bytes : Bytes}
    (h : { icmp with checksum := Nata.checksum icmp.cleared }.toBytes = .ok bytes)
    (hlen : icmp.cleared.length ≤ 131074) : ocs bytes = 0 := by
  have hsum := ocs_field (x := be icmp.icmpType.id ++ be icmp.code)
    (z := be icmp.message ++ icmp.data) (Nata.checksum icmp.cleared) (by
      simp only [List.length_append, length_be8]
      decide)
  rw [← List.append_assoc, Except.ok.inj ((toBytes_eq _).symm.trans h)] at hsum
  rw [hsum, checksum_cast hlen, List.append_assoc]
  exact add_neg_cancel _

/-- Clearing the checksum bytes of the message clears its checksum field. -/
theorem clearWord_toBytes [Deku] {icmp : Icmp4} {bytes : Bytes} (h : icmp.toBytes = .ok bytes) :
    clearWord bytes 2 = icmp.cleared := by
  rw [← Except.ok.inj ((toBytes_eq icmp).symm.trans h), List.append_assoc _ (be icmp.message)]
  apply clearWord_append
  simp only [List.length_append, length_be8]

/-- `finalize` always succeeds; the message gets the checksum of itself with a cleared checksum. -/
theorem finalize_eq_ok [Deku] {L : Type} {prev next : List L} {icmp icmp' : Icmp4} :
    finalize prev next icmp = .ok () icmp' ↔
      icmp' = { icmp with checksum := Nata.checksum icmp.cleared } := by
  simp only [finalize, Method.bind_eq_ok, Method.get_eq_ok, Method.lift_eq_ok,
    Method.modify_eq_ok]
  constructor
  · rintro ⟨_, _, ⟨rfl, rfl⟩, _, _, ⟨hdata, rfl⟩, rfl⟩
    rw [clearWord_toBytes hdata]
  · rintro rfl
    have hdata := toBytes_eq icmp
    exact ⟨_, _, ⟨rfl, rfl⟩, _, _, ⟨hdata, rfl⟩, by rw [clearWord_toBytes hdata]⟩

/-- Nothing can fail: every message can be serialised. -/
theorem finalize_ne_error [Deku] {L : Type} {prev next : List L} {icmp icmp' : Icmp4}
    {e : LayerError} : finalize prev next icmp ≠ .error e icmp' := by
  intro h
  have hok : finalize prev next icmp = .ok () _ := finalize_eq_ok.mpr rfl
  exact absurd (hok.symm.trans h) (by simp)

end Icmp4

end Nata
