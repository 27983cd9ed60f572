/-
  The TCP layer.

  The header ends with a list of options; `offset` gives the length of the header in words, and with
  it the extent of the list.  `finalize` pads the options with `EOL` to a multiple of four bytes,
  sets the checksum and, LAST, the offset.  The checksum is computed on the padded header with the
  checksum field cleared and the offset as it was before (`finalize_eq_ok`).
-/
import Nata.Layer.Ip.PseudoHeader
import Nata.Layer.Tcp.Options

namespace Nata

/-- The bits between the offset and the window. -/
structure TcpFlags where
  reserved : BitVec 8
  nonce : BitVec 8
  crw : BitVec 8
  ecn : BitVec 8
  urgent : BitVec 8
  ack : BitVec 8
  push : BitVec 8
  reset : BitVec 8
  syn : BitVec 8
  fin : BitVec 8
  deriving DecidableEq, Repr

/-- TCP Header -/
structure Tcp where
  sport : BitVec 16
  dport : BitVec 16
  seq : BitVec 32
  ack : BitVec 32
  offset : BitVec 8
  flags : TcpFlags
  window : BitVec 16
  checksum : BitVec 16
  urgptr : BitVec 16
  options : List TcpOption
  deriving DecidableEq, Repr

instance : Inhabited TcpFlags where
  default :=
    { reserved := 0, nonce := 0, crw := 0, ecn := 0, urgent := 0, ack := 0, push := 0, reset := 0,
      syn := 0, fin := 0 }

instance : Inhabited Tcp where
  default :=
    { sport := 0, dport := 0, seq := 0, ack := 0, offset := 5, flags := default, window := 0,
      checksum := 0, urgptr := 0, options := [] }

namespace TcpFlags

variable [Deku]

/-- The format of the flags: three reserved bits, and one bit each. -/
def codec : Field TcpFlags :=
  ((Codec.bits 3 8).andThen <| (Codec.bits 1 8).andThen <|
    (Codec.bits 1 8).andThen <| (Codec.bits 1 8).andThen <|
    (Codec.bits 1 8).andThen <| (Codec.bits 1 8).andThen <|
    (Codec.bits 1 8).andThen <| (Codec.bits 1 8).andThen <|
    (Codec.bits 1 8).andThen (Codec.bits 1 8)).iso
    (fun (reserved, nonce, crw, ecn, urgent, ack, push, reset, syn, fin) =>
      { reserved, nonce, crw, ecn, urgent, ack, push, reset, syn, fin })
    (fun f => (f.reserved, f.nonce, f.crw, f.ecn, f.urgent, f.ack, f.push, f.reset, f.syn, f.fin))
    (fun _ => rfl) fun _ => rfl

/-- The flags take 12 bits, which with the offset are two bytes. -/
theorem sized_codec : codec.Sized 12 :=
  ((Codec.sized_bits _).seq fun _ => (Codec.sized_bits _).seq fun _ =>
    (Codec.sized_bits _).seq fun _ => (Codec.sized_bits _).seq fun _ =>
    (Codec.sized_bits _).seq fun _ => (Codec.sized_bits _).seq fun _ =>
    (Codec.sized_bits _).seq fun _ => (Codec.sized_bits _).seq fun _ =>
    (Codec.sized_bits _).seq fun _ => Codec.sized_bits _).iso

end TcpFlags

namespace Tcp

section Format

/-- `offset.checked_sub(5).and_then(|value| value.checked_mul(4))` -/
def optionsSize (offset : BitVec 8) : Except DekuError Nat :=
  match (checkedSub offset.toNat 5).bind fun value => checkedMul 8 value 4 with
  | some size => .ok size
  | none => .error (.parse "error: invalid tcp offset")

/-- An offset below five is refused. -/
theorem optionsSize_eq_ok {offset : BitVec 8} {size : Nat} :
    optionsSize offset = .ok size ↔
      5 ≤ offset.toNat ∧ size = 4 * (offset.toNat - 5) ∧ size < 2 ^ 8 := by
  unfold optionsSize checkedSub checkedMul
  by_cases h5 : 5 ≤ offset.toNat
  · rw [if_pos h5, Option.bind_some]
    by_cases hlt : (offset.toNat - 5) * 4 < 2 ^ 8
    · rw [if_pos hlt]
      simp only [Except.ok.injEq]
      omega
    · rw [if_neg hlt]
      simp only [reduceCtorEq, false_iff]
      omega
  · rw [if_neg h5]
    simp only [Option.bind_none, reduceCtorEq, false_iff]
    omega

variable [Deku]

/-- The format of the header; the offset says how many bytes of options there are. -/
def codec : Field Tcp :=
  (Codec.uint.andThen <| Codec.uint.andThen <| Codec.uint.andThen <| Codec.uint.andThen <|
    (Codec.bits 4 8).seq fun offset => TcpFlags.codec.andThen <| Codec.uint.andThen <|
    Codec.uint.andThen <| Codec.uint.andThen <|
    TcpOption.codec.bytesRead (optionsSize offset) TcpOption.nonempty_codec).iso
    (fun (sport, dport, seq, ack, offset, flags, window, checksum, urgptr, options) =>
      { sport, dport, seq, ack, offset, flags, window, checksum, urgptr, options })
    (fun h => (h.sport, h.dport, h.seq, h.ack, h.offset, h.flags, h.window, h.checksum, h.urgptr,
      h.options))
    (fun _ => rfl) fun _ => rfl

/-- Read a header, and return what is behind it. -/
def parse (input : Bytes) : Except LayerError (Bytes × Tcp) := derivedParse codec input

/-- The header on the wire. -/
def toBytes (tcp : Tcp) : Except LayerError Bytes := derivedToBytes codec tcp

/-- The header in bits.  The writer looks neither at `checksum` nor at the other fields when it
    writes one: only the offset and the flags can fail to be written. -/
theorem write_eq_ok {tcp : Tcp} {u : Bits} :
    codec.write tcp = .ok u ↔ ∃ o f z, Codec.writeBits 4 tcp.offset = .ok o ∧
      TcpFlags.codec.write tcp.flags = .ok f ∧ TcpOption.codec.writeVec tcp.options = .ok z ∧
      u = natBits 16 tcp.sport.toNat ++ (natBits 16 tcp.dport.toNat ++
        (natBits 32 tcp.seq.toNat ++ (natBits 32 tcp.ack.toNat ++ ((o ++ f) ++
        (natBits 16 tcp.window.toNat ++ (natBits 16 tcp.checksum.toNat ++
        (natBits 16 tcp.urgptr.toNat ++ z))))))) := by
  simp only [codec, Codec.write_iso]
  constructor
  · -- Field by field, and the options last.
    intro h₀
    obtain ⟨a, _, ha, h₁, rfl⟩ := Codec.write_seq_eq_ok.mp h₀
    obtain ⟨b, _, hb, h₂, rfl⟩ := Codec.write_seq_eq_ok.mp h₁
    obtain ⟨c, _, hc, h₃, rfl⟩ := Codec.write_seq_eq_ok.mp h₂
    obtain ⟨d, _, hd, h₄, rfl⟩ := Codec.write_seq_eq_ok.mp h₃
    obtain ⟨o, _, ho, h₅, rfl⟩ := Codec.write_seq_eq_ok.mp h₄
    obtain ⟨f, _, hf, h₆, rfl⟩ := Codec.write_seq_eq_ok.mp h₅
    obtain ⟨w, _, hw, h₇, rfl⟩ := Codec.write_seq_eq_ok.mp h₆
    obtain ⟨k, _, hk, h₈, rfl⟩ := Codec.write_seq_eq_ok.mp h₇
    obtain ⟨g, z, hg, hz, rfl⟩ := Codec.write_seq_eq_ok.mp h₈
    obtain rfl := Except.ok.inj ha
    obtain rfl := Except.ok.inj hb
    obtain rfl := Except.ok.inj hc
    obtain rfl := Except.ok.inj hd
    obtain rfl := Except.ok.inj hw
    obtain rfl := Except.ok.inj hk
    obtain rfl := Except.ok.inj hg
    exact ⟨o, f, z, ho, hf, hz, by simp only [List.append_assoc]⟩
  · rintro ⟨o, f, z, ho, hf, hz, rfl⟩
    simp only [Codec.write_seq_eq_ok, Codec.write_uint, Codec.write_bits, Except.ok.injEq]
    exact ⟨_, _, rfl, ⟨_, _, rfl, ⟨_, _, rfl, ⟨_, _, rfl, ⟨o, _, ho, ⟨f, _, hf, ⟨_, _, rfl,
      ⟨_, _, rfl, ⟨_, z, rfl, hz, rfl⟩, rfl⟩, rfl⟩, rfl⟩, rfl⟩, rfl⟩, rfl⟩, rfl⟩,
      by simp only [List.append_assoc]⟩

/-- The header is whole bytes. -/
theorem aligned_codec : codec.Aligned 8 := by
  intro tcp u hu
  obtain ⟨o, f, z, ho, hf, hz, hbits⟩ := write_eq_ok.mp hu
  have ho4 := Codec.length_writeBits ho
  have hf12 := TcpFlags.sized_codec _ _ hf
  have hz8 := Codec.aligned_writeVec TcpOption.aligned_codec hz
  rw [hbits]
  simp only [List.length_append, length_natBits]
  omega

/-- **The header on the wire.** -/
theorem toBytes_eq_ok {tcp : Tcp} {bytes : Bytes} :
    tcp.toBytes = .ok bytes ↔ ∃ o f z, Codec.writeBits 4 tcp.offset = .ok o ∧
      TcpFlags.codec.write tcp.flags = .ok f ∧ TcpOption.codec.writeVec tcp.options = .ok z ∧
      bytes = be tcp.sport ++ be tcp.dport ++ be tcp.seq ++ be tcp.ack ++ pack (o ++ f) ++
        be tcp.window ++ be tcp.checksum ++ (be tcp.urgptr ++ pack z) := by
  have hpack : ∀ {o f z : Bits}, o.length = 4 → f.length = 12 →
      pack (natBits 16 tcp.sport.toNat ++ (natBits 16 tcp.dport.toNat ++
        (natBits 32 tcp.seq.toNat ++ (natBits 32 tcp.ack.toNat ++ ((o ++ f) ++
        (natBits 16 tcp.window.toNat ++ (natBits 16 tcp.checksum.toNat ++
        (natBits 16 tcp.urgptr.toNat ++ z)))))))) =
      be tcp.sport ++ be tcp.dport ++ be tcp.seq ++ be tcp.ack ++ pack (o ++ f) ++
        be tcp.window ++ be tcp.checksum ++ (be tcp.urgptr ++ pack z) := by
    intro o f z ho hf
    have h16 : 8 ∣ (o ++ f).length := by
      rw [List.length_append, ho, hf]
      decide
    rw [pack_natBits_append _ _ (by decide), pack_natBits_append _ _ (by decide),
      pack_natBits_append _ _ (by decide), pack_natBits_append _ _ (by decide), pack_append h16,
      pack_natBits_append _ _ (by decide), pack_natBits_append _ _ (by decide),
      pack_natBits_append _ _ (by decide)]
    simp only [List.append_assoc]
  rw [toBytes, derivedToBytes_eq_ok]
  simp only [write_eq_ok]
  constructor
  · rintro ⟨_, ⟨o, f, z, ho, hf, hz, rfl⟩, rfl⟩
    exact ⟨o, f, z, ho, hf, hz, hpack (Codec.length_writeBits ho) (TcpFlags.sized_codec _ _ hf)⟩
  · rintro ⟨o, f, z, ho, hf, hz, rfl⟩
    exact ⟨_, ⟨o, f, z, ho, hf, hz, rfl⟩,
      (hpack (Codec.length_writeBits ho) (TcpFlags.sized_codec _ _ hf)).symm⟩

/-- Twenty bytes and the options. -/
theorem length_toBytes {tcp : Tcp} {bytes : Bytes} (h : tcp.toBytes = .ok bytes) :
    ∃ z, TcpOption.codec.writeVec tcp.options = .ok z ∧ 8 * bytes.length = 8 * 20 + z.length := by
  obtain ⟨o, f, z, ho, hf, hz, hbytes⟩ := toBytes_eq_ok.mp h
  have hof : (o ++ f).length = 8 * 2 := by
    rw [List.length_append, Codec.length_writeBits ho, TcpFlags.sized_codec _ _ hf]
  have hzlen := length_pack (Codec.aligned_writeVec TcpOption.aligned_codec hz)
  refine ⟨z, hz, ?_⟩
  rw [hbytes]
  simp only [List.length_append, length_be16, length_be32, length_pack_of_length hof]
  omega

/-- The number in the offset field on the wire; zero when it cannot be written. -/
def nibble (offset : BitVec 8) : Nat :=
  match Codec.writeBits 4 offset with
  | .ok o => bitsNat o
  | .error _ => 0

/-- An offset that fits its field is written as it is. -/
theorem nibble_of_lt {offset : BitVec 8} (h : offset.toNat < 16) :
    nibble offset = offset.toNat := by
  rw [nibble, Codec.writeBits_of_lt h]
  exact bitsNat_natBits_of_lt h

/-- The header as a frame around offset, checksum and padding: nothing else depends on them. -/
theorem toBytes_frame {tcp : Tcp} {bytes : Bytes} (h : tcp.toBytes = .ok bytes) :
    ∃ (a z : Bytes) (f : Bits), a.length = 12 ∧ f.length = 12 ∧
      ∀ (offset : BitVec 8) (checksum : BitVec 16) (k : Nat) (bytes' : Bytes),
        { tcp with
            offset, checksum,
            options := tcp.options ++ List.replicate k TcpOption.EOL }.toBytes = .ok bytes' ↔
          ∃ o, Codec.writeBits 4 offset = .ok o ∧
            bytes' = a ++ pack (o ++ f) ++ be tcp.window ++ be checksum ++
              (z ++ List.replicate k 0#8) := by
  obtain ⟨o, f, z, ho, hf, hz, -⟩ := toBytes_eq_ok.mp h
  have hz8 := Codec.aligned_writeVec TcpOption.aligned_codec hz
  refine ⟨be tcp.sport ++ be tcp.dport ++ be tcp.seq ++ be tcp.ack, be tcp.urgptr ++ pack z, f,
    ?_, TcpFlags.sized_codec _ _ hf, fun offset checksum k bytes' => ?_⟩
  · simp only [List.length_append, length_be16, length_be32]
  · rw [toBytes_eq_ok]
    have hpad : TcpOption.codec.writeVec (tcp.options ++ List.replicate k TcpOption.EOL) =
        .ok (z ++ toBits (List.replicate k 0#8)) :=
      Codec.writeVec_append_eq_ok.mpr ⟨z, _, hz, TcpOption.writeVec_replicate_EOL k, rfl⟩
    constructor
    · rintro ⟨o', f', z', ho', hf', hz', rfl⟩
      obtain rfl := Except.ok.inj (hf.symm.trans hf')
      obtain rfl := Except.ok.inj (hpad.symm.trans hz')
      refine ⟨o', ho', ?_⟩
      rw [pack_append hz8, pack_toBits]
      simp only [List.append_assoc]
    · rintro ⟨o', ho', rfl⟩
      refine ⟨o', f, _, ho', hf, hpad, ?_⟩
      rw [pack_append hz8, pack_toBits]
      simp only [List.append_assoc]

/-- Padding options are zeroes behind the header. -/
theorem toBytes_pad {tcp : Tcp} {header : Bytes} (h : tcp.toBytes = .ok header) (k : Nat) :
    { tcp with options := tcp.options ++ List.replicate k TcpOption.EOL }.toBytes =
      .ok (header ++ List.replicate k 0#8) := by
  obtain ⟨a, z, f, -, -, hframe⟩ := toBytes_frame h
  have hself := hframe tcp.offset tcp.checksum 0 header
  rw [List.replicate_zero, List.append_nil] at hself
  obtain ⟨o, ho, rfl⟩ := hself.mp h
  refine (hframe tcp.offset tcp.checksum k _).mpr ⟨o, ho, ?_⟩
  simp only [List.append_assoc, List.replicate_zero, List.nil_append]

/-- What padding and a new offset and checksum do to the serialised header: it grows by the padding,
    and its sum changes by the differences of the two fields. -/
theorem toBytes_update {tcp : Tcp} {bytes bytes' : Bytes} {offset : BitVec 8}
    {checksum : BitVec 16} {k : Nat} (h : tcp.toBytes = .ok bytes)
    (h' : { tcp with
        offset, checksum,
        options := tcp.options ++ List.replicate k TcpOption.EOL }.toBytes = .ok bytes') :
    bytes'.length = bytes.length + k ∧
      ocs bytes' + tcp.checksum.toNat + 4096 * (nibble tcp.offset : ZMod 65535) =
        ocs bytes + checksum.toNat + 4096 * (nibble offset : ZMod 65535) := by
  obtain ⟨a, z, f, ha, hf, hframe⟩ := toBytes_frame h
  have hself := hframe tcp.offset tcp.checksum 0 bytes
  rw [List.replicate_zero, List.append_nil] at hself
  obtain ⟨o, ho, rfl⟩ := hself.mp h
  obtain ⟨o', ho', rfl⟩ := (hframe offset checksum k bytes').mp h'
  have hlen := Codec.length_writeBits ho
  have hlen' := Codec.length_writeBits ho'
  have hpack : ∀ {b : Bits}, b.length = 4 → (pack (b ++ f)).length = 2 := by
    intro b hb
    exact length_pack_of_length (by rw [List.length_append, hb, hf])
  have hsum : ∀ {b : Bits}, b.length = 4 →
      ocs (pack (b ++ f)) = 4096 * (bitsNat b : ZMod 65535) + bitsNat f := by
    intro b hb
    rw [ocs_pack (by rw [List.length_append, hb, hf]; decide), bitSum_append,
      bitSum_eq half16_two, bitSum_eq half16_two, hb, hf, show half16 ^ 4 = 4096 by decide,
      show half16 ^ 12 = 16 by decide]
    have hmul : (4096 : ZMod 65535) * 16 = 1 := by decide
    linear_combination (bitsNat f : ZMod 65535) * hmul
  have hnib : nibble tcp.offset = bitsNat o := by rw [nibble, ho]
  have hnib' : nibble offset = bitsNat o' := by rw [nibble, ho']
  have hw : ∀ v : BitVec 16, ocs (be v) = (v.toNat : ZMod 65535) := fun v => ocs_be v (by decide)
  have h12 : (256 : ZMod 65535) ^ 12 = 1 := by decide
  have h14 : (256 : ZMod 65535) ^ (12 + 2) = 1 := by decide
  have h16 : (256 : ZMod 65535) ^ (12 + 2 + 2) = 1 := by decide
  have h18 : (256 : ZMod 65535) ^ (12 + 2 + 2 + 2) = 1 := by decide
  constructor
  · simp only [List.length_append, ha, hpack hlen, hpack hlen', length_be16, List.length_replicate,
      Nat.add_zero]
    omega
  · simp only [ocs_append, List.length_append, ha, hpack hlen, hpack hlen', length_be16, hsum hlen,
      hsum hlen', hw, hnib, hnib', h12, h14, h16, h18, ocs_replicate_zero, one_mul, mul_zero]
    ring

end Format

/-! ## finalize -/

/-- `4 * data.len().div_ceil(4) - data.len()` -/
def padAmt (len : Nat) : Nat := 4 * ((len + 3) / 4) - len

/-- The header that the checksum covers: padded, with the checksum field cleared. -/
def cleared (header : Bytes) : Bytes :=
  clearWord (header ++ List.replicate (padAmt header.length) 0#8) 16

/-- Clearing changes no size; padding does. -/
theorem length_cleared (header : Bytes) :
    (cleared header).length = header.length + padAmt header.length := by
  rw [cleared, clearWord, List.length_set, List.length_set, List.length_append,
    List.length_replicate]

/-- The padded header consists of whole words: the assertion of `finalize` holds. -/
theorem four_dvd_length_cleared (header : Bytes) : 4 ∣ (cleared header).length := by
  rw [length_cleared, padAmt]
  omega

/-- It is the padded header, serialised with a zero in the checksum field. -/
theorem toBytes_cleared [Deku] {tcp : Tcp} {header : Bytes} (h : tcp.toBytes = .ok header) :
    { tcp with
      checksum := 0
      options := tcp.options ++ List.replicate (padAmt header.length) TcpOption.EOL }.toBytes =
        .ok (cleared header) := by
  obtain ⟨a, z, f, ha, hf, hframe⟩ := toBytes_frame h
  have hself := hframe tcp.offset tcp.checksum 0 header
  rw [List.replicate_zero, List.append_nil] at hself
  obtain ⟨o, ho, rfl⟩ := hself.mp h
  refine (hframe tcp.offset 0 (padAmt _) _).mpr ⟨o, ho, ?_⟩
  have h16 : (a ++ pack (o ++ f) ++ be tcp.window).length = 16 := by
    have hof : (o ++ f).length = 8 * 2 := by
      rw [List.length_append, Codec.length_writeBits ho, hf]
    simp only [List.length_append, ha, length_be16, length_pack_of_length hof]
  rw [cleared, List.append_assoc _ _ (List.replicate _ _), clearWord_append _ h16,
    List.replicate_zero, List.append_nil]
  rfl

/-- The sum of the header that the checksum covers: that of the header without its checksum. -/
theorem ocs_cleared [Deku] {tcp : Tcp} {header : Bytes} (h : tcp.toBytes = .ok header) :
    ocs (cleared header) + tcp.checksum.toNat = ocs header := by
  obtain ⟨o, f, z, ho, hf, -, rfl⟩ := toBytes_eq_ok.mp h
  have h16 : (be tcp.sport ++ be tcp.dport ++ be tcp.seq ++ be tcp.ack ++ pack (o ++ f) ++
      be tcp.window).length = 16 := by
    have hof : (o ++ f).length = 8 * 2 := by
      rw [List.length_append, Codec.length_writeBits ho, TcpFlags.sized_codec _ _ hf]
    simp only [List.length_append, length_be16, length_be32, length_pack_of_length hof]
  rw [cleared, List.append_assoc _ _ (List.replicate _ _), clearWord_append _ h16,
    ← ocs_field _ (by rw [h16]; decide), ← List.append_assoc _ _ (List.replicate _ _), ocs_append,
    ocs_replicate_zero, mul_zero, add_zero]

section Finalize

variable [Deku] {L : Type} [LayerBytes L] [GetIp L]

/-- The part of `finalize` that sets the checksum, if the layer before is an IP layer. -/
def updateChecksum (prev next : List L) (tcpHeader : Bytes) : Method LayerError Tcp Unit := do
  if let some prevLayer := prev.getLast? then
    let tcpPayload ← layersToBytes next
    let tcpLength ← okOr
      (.finalize "Overflow occured when calculating length for tcp (v4) checksum")
      (checkedAdd tcpHeader.length tcpPayload.length)
    let pseudo ← ipPseudoHeader "Failed to convert tcp_length to u16"
      "Failed to convert tcp_length to u32" prevLayer tcpLength
    if let some pseudo := pseudo then
      modify fun self =>
        { self with checksum := Nata.checksum (pseudo ++ tcpHeader ++ tcpPayload) }

/-- The options are padded, the checksum is taken over the header with the OLD offset, and the new
    offset is stored after that. -/
def finalize (prev next : List L) : Method LayerError Tcp Unit := do
  let data ← toBytes (← get)
  modify fun self =>
    { self with options := self.options ++ List.replicate (padAmt data.length) TcpOption.EOL }
  let data ← toBytes (← get)
  let tcpHeader := clearWord data 16
  updateChecksum prev next tcpHeader
  let offset ← okOr (.finalize "Failed to convert tcp offset to u8")
    (tryFrom 8 (tcpHeader.length / 4))
  modify fun self => { self with offset }

/-- The checksum that `finalize` leaves behind. -/
def NewChecksum (tcp : Tcp) (prev next : List L) (header : Bytes) (checksum : BitVec 16) : Prop :=
  match prev.getLast? with
  | none => checksum = tcp.checksum
  | some prevLayer => ∃ payload, layersToBytes next = .ok payload ∧
      header.length + payload.length < 2 ^ 64 ∧
      match getIp prevLayer with
      | none => checksum = tcp.checksum
      | some ip => ip.Fits (header.length + payload.length) ∧
          checksum = Nata.checksum
            (ip.pseudoHeader ip.protocol.id (header.length + payload.length) ++ header ++ payload)

omit [Deku] in
/-- In front of layers that are serialised, only the IP layer before matters. -/
theorem newChecksum_iff {tcp : Tcp} {prev next : List L} {header payload : Bytes}
    {checksum : BitVec 16} (hpayload : layersToBytes next = .ok payload)
    (hlt : header.length + payload.length < 2 ^ 64) :
    tcp.NewChecksum prev next header checksum ↔
      match lastIp prev with
      | some ip => ip.Fits (header.length + payload.length) ∧
          checksum = Nata.checksum
            (ip.pseudoHeader ip.protocol.id (header.length + payload.length) ++ header ++ payload)
      | none => checksum = tcp.checksum := by
  unfold NewChecksum lastIp
  cases prev.getLast? with
  | none => exact Iff.rfl
  | some prevLayer =>
    rw [Option.bind_some]
    constructor
    · rintro ⟨payload', hpayload', -, h⟩
      obtain rfl := Except.ok.inj (hpayload'.symm.trans hpayload)
      cases hip : getIp prevLayer <;> rw [hip] at h <;> exact h
    · intro h
      refine ⟨payload, hpayload, hlt, ?_⟩
      cases hip : getIp prevLayer <;> rw [hip] at h <;> exact h

/-- The checksum is stored, and nothing else changes. -/
theorem updateChecksum_eq_ok {prev next : List L} {header : Bytes} {tcp tcp' : Tcp} {u : Unit} :
    updateChecksum prev next header tcp = .ok u tcp' ↔
      ∃ checksum, tcp.NewChecksum prev next header checksum ∧ tcp' = { tcp with checksum } := by
  unfold updateChecksum NewChecksum
  cases prev.getLast? with
  | none =>
    constructor
    · intro h
      exact ⟨tcp.checksum, rfl, (Method.pure_eq_ok.mp h).2⟩
    · rintro ⟨_, rfl, rfl⟩
      rfl
  | some prevLayer =>
    simp only [Method.bind_eq_ok, Method.lift_eq_ok, okOr_eq_ok, checkedAdd_eq_some,
      ipPseudoHeader_eq_ok]
    cases getIp prevLayer with
    | none =>
      constructor
      · rintro ⟨payload, _, ⟨hpayload, rfl⟩, _, _, ⟨⟨hlt, rfl⟩, rfl⟩, _, _, ⟨rfl, rfl⟩, h⟩
        exact ⟨_, ⟨payload, hpayload, hlt, rfl⟩, (Method.pure_eq_ok.mp h).2⟩
      · rintro ⟨_, ⟨payload, hpayload, hlt, rfl⟩, rfl⟩
        exact ⟨payload, _, ⟨hpayload, rfl⟩, _, _, ⟨⟨hlt, rfl⟩, rfl⟩, _, _, ⟨rfl, rfl⟩, rfl⟩
    | some ip =>
      constructor
      · rintro ⟨payload, _, ⟨hpayload, rfl⟩, _, _, ⟨⟨hlt, rfl⟩, rfl⟩, _, _, ⟨⟨hfits, rfl⟩, rfl⟩, h⟩
        exact ⟨_, ⟨payload, hpayload, hlt, hfits, rfl⟩, Method.modify_eq_ok.mp h⟩
      · rintro ⟨_, ⟨payload, hpayload, hlt, hfits, rfl⟩, rfl⟩
        exact ⟨payload, _, ⟨hpayload, rfl⟩, _, _, ⟨⟨hlt, rfl⟩, rfl⟩, _, _, ⟨⟨hfits, rfl⟩, rfl⟩, rfl⟩

/-- `finalize` pads the options and stores the number of words of the padded header; the checksum
    covers the padded header with the OLD offset. -/
theorem finalize_eq_ok {prev next : List L} {tcp tcp' : Tcp} :
    finalize prev next tcp = .ok () tcp' ↔
      ∃ header checksum, tcp.toBytes = .ok header ∧
        tcp.NewChecksum prev next (cleared header) checksum ∧
        (cleared header).length / 4 < 2 ^ 8 ∧
        tcp' = { tcp with
          offset := BitVec.ofNat 8 ((cleared header).length / 4), checksum,
          options := tcp.options ++ List.replicate (padAmt header.length) TcpOption.EOL } := by
  simp only [finalize, Method.bind_eq_ok, Method.get_eq_ok, Method.lift_eq_ok,
    Method.modify_eq_ok, okOr_eq_ok, tryFrom_eq_some, updateChecksum_eq_ok]
  constructor
  · rintro ⟨_, _, ⟨rfl, rfl⟩, header, _, ⟨hheader, rfl⟩, _, _, rfl, _, _, ⟨rfl, rfl⟩, data, _,
      ⟨hdata, rfl⟩, _, _, ⟨checksum, hchecksum, rfl⟩, _, _, ⟨⟨hlt, rfl⟩, rfl⟩, rfl⟩
    obtain rfl := Except.ok.inj ((toBytes_pad hheader _).symm.trans hdata)
    exact ⟨header, checksum, hheader, hchecksum, hlt, rfl⟩
  · rintro ⟨header, checksum, hheader, hchecksum, hlt, rfl⟩
    exact ⟨_, _, ⟨rfl, rfl⟩, header, _, ⟨hheader, rfl⟩, (), _, rfl, _, _, ⟨rfl, rfl⟩, _, _,
      ⟨toBytes_pad hheader _, rfl⟩, (), _, ⟨checksum, hchecksum, rfl⟩, _, _, ⟨⟨hlt, rfl⟩, rfl⟩, rfl⟩

/-- How the checksum step fails: a layer behind cannot be serialised, or the segment is longer than
    the pseudo header can tell. -/
def ChecksumError (prev next : List L) (header : Bytes) (e : LayerError) : Prop :=
  match prev.getLast? with
  | none => False
  | some prevLayer => layersToBytes next = .error e ∨ ∃ payload, layersToBytes next = .ok payload ∧
      (2 ^ 64 ≤ header.length + payload.length ∧
          e = .finalize "Overflow occured when calculating length for tcp (v4) checksum" ∨
        header.length + payload.length < 2 ^ 64 ∧
          ipPseudoHeader "Failed to convert tcp_length to u16" "Failed to convert tcp_length to u32"
            prevLayer (header.length + payload.length) = .error e)

/-- An error of the checksum leaves the layer as it was. -/
theorem updateChecksum_eq_error {prev next : List L} {header : Bytes} {tcp tcp' : Tcp}
    {e : LayerError} :
    updateChecksum prev next header tcp = .error e tcp' ↔
      tcp' = tcp ∧ ChecksumError prev next header e := by
  unfold updateChecksum ChecksumError
  cases prev.getLast? with
  | none =>
    constructor
    · intro h
      exact absurd h Method.pure_ne_error
    · rintro ⟨-, h⟩
      exact h.elim
  | some prevLayer =>
    simp only [Method.bind_eq_error, Method.lift_eq_error, Method.lift_eq_ok, okOr_eq_error,
      okOr_eq_ok, checkedAdd_eq_none_iff, checkedAdd_eq_some]
    constructor
    · rintro (⟨herror, rfl⟩ | ⟨payload, _, ⟨hpayload, rfl⟩, ⟨⟨hle, rfl⟩, rfl⟩ |
        ⟨_, _, ⟨⟨hlt, rfl⟩, rfl⟩, ⟨herror, rfl⟩ | ⟨pseudo, _, -, h⟩⟩⟩)
      · exact ⟨rfl, .inl herror⟩
      · exact ⟨rfl, .inr ⟨payload, hpayload, .inl ⟨hle, rfl⟩⟩⟩
      · exact ⟨rfl, .inr ⟨payload, hpayload, .inr ⟨hlt, herror⟩⟩⟩
      · -- Nothing fails once there is a pseudo header, or none is needed.
        cases pseudo with
        | none => exact absurd h Method.pure_ne_error
        | some pseudo => exact absurd h Method.modify_ne_error
    · rintro ⟨rfl, herror | ⟨payload, hpayload, ⟨hle, rfl⟩ | ⟨hlt, herror⟩⟩⟩
      · exact .inl ⟨herror, rfl⟩
      · exact .inr ⟨payload, _, ⟨hpayload, rfl⟩, .inl ⟨⟨hle, rfl⟩, rfl⟩⟩
      · exact .inr ⟨payload, _, ⟨hpayload, rfl⟩, .inr ⟨_, _, ⟨⟨hlt, rfl⟩, rfl⟩,
          .inl ⟨herror, rfl⟩⟩⟩

/-- An error in the checksum step leaves the padded options behind, and an offset that does not fit
    its field the new checksum as well. -/
theorem finalize_eq_error {prev next : List L} {tcp tcp' : Tcp} {e : LayerError} :
    finalize prev next tcp = .error e tcp' ↔
      (tcp.toBytes = .error e ∧ tcp' = tcp) ∨ ∃ header, tcp.toBytes = .ok header ∧
        ((ChecksumError prev next (cleared header) e ∧
            tcp' = { tcp with options :=
              tcp.options ++ List.replicate (padAmt header.length) TcpOption.EOL }) ∨
          ∃ checksum, tcp.NewChecksum prev next (cleared header) checksum ∧
            2 ^ 8 ≤ (cleared header).length / 4 ∧
            e = .finalize "Failed to convert tcp offset to u8" ∧
            tcp' = { tcp with checksum, options :=
              tcp.options ++ List.replicate (padAmt header.length) TcpOption.EOL }) := by
  simp only [finalize, Method.bind_eq_error, Method.get_ne_error, Method.get_eq_ok,
    Method.lift_eq_error, Method.lift_eq_ok, Method.modify_ne_error, Method.modify_eq_ok, false_or,
    okOr_eq_error, okOr_eq_ok, tryFrom_eq_none_iff, updateChecksum_eq_error, updateChecksum_eq_ok,
    and_false, exists_false, or_false]
  constructor
  · rintro ⟨_, _, ⟨rfl, rfl⟩, ⟨herror, rfl⟩ | ⟨header, _, ⟨hheader, rfl⟩, _, _, rfl, _, _,
      ⟨rfl, rfl⟩, ⟨herror, -⟩ | ⟨data, _, ⟨hdata, rfl⟩, h⟩⟩⟩
    · exact .inl ⟨herror, rfl⟩
    · exact absurd ((toBytes_pad hheader _).symm.trans herror) (by simp)
    · obtain rfl := Except.ok.inj ((toBytes_pad hheader _).symm.trans hdata)
      rcases h with ⟨rfl, herror⟩ | ⟨_, _, ⟨checksum, hchecksum, rfl⟩, ⟨hle, rfl⟩, rfl⟩
      · exact .inr ⟨header, hheader, .inl ⟨herror, rfl⟩⟩
      · exact .inr ⟨header, hheader, .inr ⟨checksum, hchecksum, hle, rfl, rfl⟩⟩
  · rintro (⟨herror, rfl⟩ | ⟨header, hheader, h⟩)
    · exact ⟨_, _, ⟨rfl, rfl⟩, .inl ⟨herror, rfl⟩⟩
    · refine ⟨_, _, ⟨rfl, rfl⟩, .inr ⟨header, _, ⟨hheader, rfl⟩, (), _, rfl, _, _, ⟨rfl, rfl⟩,
        .inr ⟨_, _, ⟨toBytes_pad hheader _, rfl⟩, ?_⟩⟩⟩
      rcases h with ⟨herror, rfl⟩ | ⟨checksum, hchecksum, hle, rfl, rfl⟩
      · exact .inl ⟨rfl, herror⟩
      · exact .inr ⟨(), _, ⟨checksum, hchecksum, rfl⟩, ⟨hle, rfl⟩, rfl⟩

end Finalize

end Tcp

end Nata
