/-
  The IPv4 layer.

  The header carries a list of options whose extent is given by `ihl`, the header length in words.
  `finalize` sets the length, of the header and everything behind it, and then the header checksum;
  `ihl` is left as it is.
-/
import Nata.Layer.Basic
import Nata.Layer.Ip.Checksum
import Nata.Layer.Ip.Protocols

namespace Nata

/-- Ipv4 option class -/
inductive Ipv4OptionClass
  | Control | Reserved1 | Debug | Reserved2
  deriving DecidableEq, Repr

/-- Ipv4 option type -/
inductive Ipv4OptionType
  /-- End of Option List -/
  | EOOL
  /-- No Operation -/
  | NOP
  | Unknown (type : BitVec 8) (length : BitVec 8) (value : List (BitVec 8))
  deriving DecidableEq, Repr

/-- Ipv4 option -/
structure Ipv4Option where
  copied : BitVec 8
  class_ : Ipv4OptionClass
  option : Ipv4OptionType
  deriving DecidableEq, Repr

/-- IPv4 Header -/
structure Ipv4 where
  /-- Version -/
  version : BitVec 8
  /-- Internet Header Length -/
  ihl : BitVec 8
  /-- Differentiated Services Code Point -/
  dscp : BitVec 8
  /-- Explicit Congestion Notification -/
  ecn : BitVec 8
  /-- Total Length -/
  length : BitVec 16
  /-- Identification -/
  identification : BitVec 16
  /-- Flags -/
  flags : BitVec 8
  /-- Fragment Offset -/
  offset : BitVec 16
  /-- Time To Live -/
  ttl : BitVec 8
  /-- Protocol -/
  protocol : IpProtocol
  /-- Header checksum -/
  checksum : BitVec 16
  /-- Source IP Address -/
  src : BitVec 32
  /-- Destination IP Address -/
  dst : BitVec 32
  /-- List of ipv4 options -/
  options : List Ipv4Option
  deriving DecidableEq

/-! ## Options -/

namespace Ipv4OptionClass

/-- The number of a class. -/
def id : Ipv4OptionClass → BitVec 8
  | .Control => 0
  | .Reserved1 => 1
  | .Debug => 2
  | .Reserved2 => 3

/-- The class with this number; a number that needs more than two bits has none. -/
def variant [Deku] (i : BitVec 8) : Field Ipv4OptionClass :=
  match i with
  | 0 => .const .Control
  | 1 => .const .Reserved1
  | 2 => .const .Debug
  | 3 => .const .Reserved2
  | _ => .reject (Deku.noVariant "Ipv4OptionClass" i.toNat)

/-- The class that is read under a number has this number, and nothing else is written of it. -/
theorem variant_spec [Deku] (i : BitVec 8) (c : Ipv4OptionClass) (h : (variant i).Valid c) :
    c.id = i ∧ (variant i).write c = .ok [] := by
  unfold variant at h ⊢
  split at h
  · obtain rfl : c = .Control := h
    exact ⟨rfl, rfl⟩
  · obtain rfl : c = .Reserved1 := h
    exact ⟨rfl, rfl⟩
  · obtain rfl : c = .Debug := h
    exact ⟨rfl, rfl⟩
  · obtain rfl : c = .Reserved2 := h
    exact ⟨rfl, rfl⟩
  · exact h.elim

/-- The format of a class: two bits. -/
def codec [Deku] : Field Ipv4OptionClass :=
  .enum (.bits 2 8) variant id (fun _ => .ok []) variant_spec

end Ipv4OptionClass

namespace Ipv4OptionType

/-- The identifier; the catch-all variant stores its own. -/
def id : Ipv4OptionType → BitVec 8
  | .EOOL => 0
  | .NOP => 1
  | .Unknown type _ _ => type

/-- `length.checked_sub(2)` -/
def valueCount (length : BitVec 8) : Except DekuError Nat :=
  match checkedSub length.toNat 2 with
  | some n => .ok n
  | none => .error (.parse "overflow when parsing ipv4 option")

/-- The fields of the catch-all variant behind the stored identifier. -/
def unknown : Field (BitVec 8 × List (BitVec 8)) :=
  Codec.uint.seq fun length => Codec.uint.count (valueCount length)

/-- What is read behind the number of an option: nothing for the two that have a name, a length and
    a value for the others. -/
def variant (i : BitVec 8) : Field Ipv4OptionType :=
  match i with
  | 0 => .const .EOOL
  | 1 => .const .NOP
  | i => unknown.map (fun (length, value) => .Unknown i length value)
      (fun
        | .Unknown _ length value => (length, value)
        | _ => (0, []))
      fun _ => rfl

/-- What is written behind the number. -/
def body : Ipv4OptionType → Except DekuError Bits
  | .EOOL | .NOP => .ok []
  | .Unknown _ length value => unknown.write (length, value)

/-- An option that is read under a number has this number, and is written as it is read. -/
theorem variant_spec (i : BitVec 8) (o : Ipv4OptionType) (h : (variant i).Valid o) :
    o.id = i ∧ (variant i).write o = body o := by
  unfold variant at h ⊢
  split at h
  · obtain rfl : o = .EOOL := h
    exact ⟨rfl, rfl⟩
  · obtain rfl : o = .NOP := h
    exact ⟨rfl, rfl⟩
  · obtain ⟨-, ho⟩ := h
    cases o with
    | Unknown type length value =>
      cases ho
      exact ⟨rfl, rfl⟩
    | EOOL | NOP => cases ho

/-- The format of an option behind its class: five bits, and what they ask for. -/
def codec [Deku] : Field Ipv4OptionType :=
  .enum (.bits 5 8) variant id body variant_spec

/-- The length that `update` gives to an unknown option.  `outOfRange` is the error of a conversion to
    `u8` that fails. -/
def updatedLength (outOfRange : DekuError) (value : List (BitVec 8)) :
    Except DekuError (BitVec 8) :=
  match checkedAdd value.length 2 with
  | some length =>
    match tryFrom 8 length with
    | some length => .ok length
    | none => .error outOfRange
  | none => .error (.parse "overflow when updating ipv4 option length")

/-- The only field that `update` sets is the length of `Unknown`. -/
def update (outOfRange : DekuError) : Method DekuError Ipv4OptionType Unit := do
  match ← get with
  | .Unknown type _ value =>
    let length ← updatedLength outOfRange value
    modify fun _ => .Unknown type length value
  | _ => return ()

/-- The new length is the size of the option, if an octet holds it. -/
theorem updatedLength_eq_ok {outOfRange : DekuError} {value : List (BitVec 8)}
    {length : BitVec 8} :
    updatedLength outOfRange value = .ok length ↔ length.toNat = 2 + value.length := by
  have hlt := length.isLt
  unfold updatedLength checkedAdd tryFrom
  by_cases h : value.length + 2 < 2 ^ 8
  · rw [if_pos (by omega)]
    simp only [if_pos h, Except.ok.injEq, BitVec.toNat_eq, BitVec.toNat_ofNat]
    omega
  · -- Both errors mean that the value is too long.
    refine iff_of_false ?_ (by omega)
    by_cases hadd : value.length + 2 < 2 ^ 64
    · simp only [if_pos hadd, if_neg h, reduceCtorEq, not_false_iff]
    · simp only [if_neg hadd, reduceCtorEq, not_false_iff]

/-- `update` replaces the length and nothing else. -/
theorem update_unknown_eq_ok {outOfRange : DekuError} {type length : BitVec 8}
    {value : List (BitVec 8)} {o : Ipv4OptionType} :
    update outOfRange (.Unknown type length value) = .ok () o ↔
      ∃ length', updatedLength outOfRange value = .ok length' ∧
        o = .Unknown type length' value := by
  show (liftM (updatedLength outOfRange value) >>= fun length => modify fun _ =>
    Unknown type length value : Method _ _ _) (.Unknown type length value) = _ ↔ _
  exact Method.assign_eq_ok

/-- Behind the first octet an option is whole bytes. -/
theorem length_body {o : Ipv4OptionType} {u : Bits} (h : body o = .ok u) : 8 ∣ u.length := by
  cases o with
  | EOOL | NOP =>
    cases h
    exact Nat.dvd_zero 8
  | Unknown type length value =>
    exact (Codec.sized_uint.aligned (Nat.dvd_refl 8)).seq
      (fun _ _ _ hu => Codec.aligned_writeVec (Codec.sized_uint.aligned (Nat.dvd_refl 8)) hu) _ _ h

end Ipv4OptionType

namespace Ipv4Option

variable [Deku]

/-- The format of an option: the copied bit, the class and the option itself, from one octet on. -/
def codec : Field Ipv4Option :=
  ((Codec.bits 1 8).andThen (Ipv4OptionClass.codec.andThen Ipv4OptionType.codec)).iso
    (fun (copied, class_, option) => { copied, class_, option })
    (fun o => (o.copied, o.class_, o.option)) (fun _ => rfl) fun _ => rfl

/-- An unknown option has five bits of type, neither of the two that are known, and announces its
    value. -/
def WellFormed (option : Ipv4Option) : Prop :=
  option.copied.toNat < 2 ^ 1 ∧
    ∀ type length value, option.option = .Unknown type length value →
      2 ≤ type.toNat ∧ type.toNat < 2 ^ 5 ∧ length.toNat = value.length + 2

/-- One bit, two bits and five bits make up the first byte; the rest comes in bytes. -/
theorem length_write {o : Ipv4Option} {u : Bits} (h : codec.write o = .ok u) :
    8 ∣ u.length ∧ 0 < u.length := by
  simp only [codec, Codec.write_iso, Codec.write_seq_eq_ok] at h
  obtain ⟨a, _, ha, ⟨b, c, hb, hc, rfl⟩, rfl⟩ := h
  obtain ⟨b₁, b₂, hb₁, hb₂, rfl⟩ := writeAll_pair_eq_ok.mp hb
  obtain ⟨c₁, c₂, hc₁, hc₂, rfl⟩ := writeAll_pair_eq_ok.mp hc
  cases hb₂
  have h1 := Codec.length_writeBits ha
  have h2 := Codec.length_writeBits hb₁
  have h5 := Codec.length_writeBits hc₁
  have h8 := Ipv4OptionType.length_body hc₂
  simp only [List.length_append, List.length_nil]
  omega

/-- An option is whole bytes. -/
theorem aligned_codec : codec.Aligned 8 := fun _ _ hu => (length_write hu).1

/-- An option takes one byte at least. -/
theorem nonempty_codec : codec.Nonempty := fun _ _ _ hu => (length_write hu).2

end Ipv4Option

/-! ## The header -/

namespace Ipv4

instance : Inhabited Ipv4 where
  default :=
    { version := 4, ihl := 5, ecn := 0, dscp := 0, length := 0, identification := 0, flags := 0,
      offset := 0, ttl := 0, protocol := default, checksum := 0x0000, src := 0x7F000001,
      dst := 0x7F000001, options := [] }

section Format

variable [Deku]

/-- `ihl.saturating_sub(5) * 4`, for the four bits that are read. -/
def optionsSize (ihl : BitVec 8) : Nat := (ihl.toNat - 5) * 4

/-- The format of the header, with `size` as the expression for the size of the options. -/
def codecWith (size : BitVec 8 → Except DekuError Nat) : Field Ipv4 :=
  ((Codec.bits 4 8).andThen <| (Codec.bits 4 8).seq fun ihl =>
    (Codec.bits 6 8).andThen <| (Codec.bits 2 8).andThen <|
    Codec.uint.andThen <| Codec.uint.andThen <| (Codec.bits 3 8).andThen <|
    (Codec.bits 13 16).andThen <| Codec.uint.andThen <| IpProtocol.codec.andThen <|
    Codec.uint.andThen <| Codec.uint.andThen <| Codec.uint.andThen <|
    Ipv4Option.codec.bytesRead (size ihl) Ipv4Option.nonempty_codec).iso
    (fun (version, ihl, dscp, ecn, length, identification, flags, offset, ttl, protocol, checksum,
        src, dst, options) =>
      { version, ihl, dscp, ecn, length, identification, flags, offset, ttl, protocol, checksum,
        src, dst, options })
    (fun h => (h.version, h.ihl, h.dscp, h.ecn, h.length, h.identification, h.flags, h.offset,
      h.ttl, h.protocol, h.checksum, h.src, h.dst, h.options))
    (fun _ => rfl) fun _ => rfl

/-- The format of the header. -/
def codec : Field Ipv4 := codecWith fun ihl => .ok (optionsSize ihl)

/-- Read a header, and return what is behind it. -/
def parse (input : Bytes) : Except LayerError (Bytes × Ipv4) := derivedParse codec input

/-- The header on the wire. -/
def toBytes (ipv4 : Ipv4) : Except LayerError Bytes := derivedToBytes codec ipv4

/-- The header in bits: the length is the second of its words and the checksum the sixth, nothing
    else depends on either, and the options are the last part. -/
theorem write_frame {ipv4 : Ipv4} {u : Bits} (hu : codec.write ipv4 = .ok u) :
    ∃ x y z : Bits, x.length = 8 * 2 ∧ y.length = 8 * 6 ∧
      Ipv4Option.codec.writeVec ipv4.options = .ok z ∧
      ∀ length checksum : BitVec 16, codec.write { ipv4 with length, checksum } =
        .ok (x ++ (natBits 16 length.toNat ++ (y ++ (natBits 16 checksum.toNat ++
          (natBits 32 ipv4.src.toNat ++ (natBits 32 ipv4.dst.toNat ++ z)))))) := by
  simp only [codec, codecWith, Codec.write_iso] at hu ⊢
  -- Field by field, and the options last.
  obtain ⟨v, _, hv, h₁, rfl⟩ := Codec.write_seq_eq_ok.mp hu
  obtain ⟨i, _, hi, h₂, rfl⟩ := Codec.write_seq_eq_ok.mp h₁
  obtain ⟨d, _, hd, h₃, rfl⟩ := Codec.write_seq_eq_ok.mp h₂
  obtain ⟨e, _, he, h₄, rfl⟩ := Codec.write_seq_eq_ok.mp h₃
  obtain ⟨_, _, -, h₅, rfl⟩ := Codec.write_seq_eq_ok.mp h₄
  obtain ⟨n, _, hn, h₆, rfl⟩ := Codec.write_seq_eq_ok.mp h₅
  obtain ⟨f, _, hf, h₇, rfl⟩ := Codec.write_seq_eq_ok.mp h₆
  obtain ⟨o, _, ho, h₈, rfl⟩ := Codec.write_seq_eq_ok.mp h₇
  obtain ⟨t, _, ht, h₉, rfl⟩ := Codec.write_seq_eq_ok.mp h₈
  obtain ⟨p, _, hp, h₁₀, rfl⟩ := Codec.write_seq_eq_ok.mp h₉
  obtain ⟨_, _, -, h₁₁, rfl⟩ := Codec.write_seq_eq_ok.mp h₁₀
  obtain ⟨s, _, hs, h₁₂, rfl⟩ := Codec.write_seq_eq_ok.mp h₁₁
  obtain ⟨g, opts, hg, hopts, rfl⟩ := Codec.write_seq_eq_ok.mp h₁₂
  have hv4 := Codec.length_writeBits hv
  have hi4 := Codec.length_writeBits hi
  have hd6 := Codec.length_writeBits hd
  have he2 := Codec.length_writeBits he
  have hf3 := Codec.length_writeBits hf
  have ho13 := Codec.length_writeBits ho
  have hp8 := IpProtocol.codes.sized_codec _ _ hp
  have hn16 := Codec.sized_uint _ _ hn
  have ht8 := Codec.sized_uint _ _ ht
  refine ⟨v ++ i ++ d ++ e, n ++ f ++ o ++ t ++ p, opts, ?_, ?_, hopts, fun length checksum => ?_⟩
  · simp only [List.length_append]
    omega
  · simp only [List.length_append]
    omega
  · obtain rfl := Except.ok.inj hs
    obtain rfl := Except.ok.inj hg
    simp only [Codec.write_seq_eq_ok]
    exact ⟨v, _, hv, ⟨i, _, hi, ⟨d, _, hd, ⟨e, _, he, ⟨_, _, rfl, ⟨n, _, hn, ⟨f, _, hf,
      ⟨o, _, ho, ⟨t, _, ht, ⟨p, _, hp, ⟨_, _, rfl, ⟨_, _, rfl, ⟨_, opts, rfl, hopts, rfl⟩, rfl⟩,
      rfl⟩, rfl⟩, rfl⟩, rfl⟩, rfl⟩, rfl⟩, rfl⟩, rfl⟩, rfl⟩, rfl⟩, by
      simp only [List.append_assoc]⟩

/-- The header as it is, in the parts that `write_frame` names. -/
theorem write_parts {ipv4 : Ipv4} {u : Bits} (hu : codec.write ipv4 = .ok u) :
    ∃ x y z : Bits, x.length = 8 * 2 ∧ y.length = 8 * 6 ∧
      Ipv4Option.codec.writeVec ipv4.options = .ok z ∧ 8 ∣ z.length ∧
      u = x ++ (natBits 16 ipv4.length.toNat ++ (y ++ (natBits 16 ipv4.checksum.toNat ++
        (natBits 32 ipv4.src.toNat ++ (natBits 32 ipv4.dst.toNat ++ z))))) := by
  obtain ⟨x, y, z, hx, hy, hz, hframe⟩ := write_frame hu
  exact ⟨x, y, z, hx, hy, hz, Codec.aligned_writeVec Ipv4Option.aligned_codec hz,
    Except.ok.inj (hu.symm.trans (hframe ipv4.length ipv4.checksum))⟩

/-- The header is whole bytes. -/
theorem aligned_codec : codec.Aligned 8 := by
  intro ipv4 u hu
  obtain ⟨x, y, z, hx, hy, -, hz, rfl⟩ := write_parts hu
  simp only [List.length_append, length_natBits]
  omega

/-- Twenty bytes and the options. -/
theorem length_toBytes {ipv4 : Ipv4} {bytes : Bytes} (h : ipv4.toBytes = .ok bytes) :
    ∃ z, Ipv4Option.codec.writeVec ipv4.options = .ok z ∧
      8 * bytes.length = 8 * 20 + z.length := by
  obtain ⟨u, hu, rfl⟩ := derivedToBytes_eq_ok.mp h
  rw [length_pack (aligned_codec _ _ hu)]
  obtain ⟨x, y, z, hx, hy, hz, -, rfl⟩ := write_parts hu
  refine ⟨z, hz, ?_⟩
  simp only [List.length_append, length_natBits]
  omega

/-- The header on the wire. -/
theorem toBytes_frame {ipv4 : Ipv4} {bytes : Bytes} (h : ipv4.toBytes = .ok bytes) :
    ∃ x y z : Bytes, x.length = 2 ∧ y.length = 6 ∧ 8 ≤ z.length ∧
      ∀ length checksum : BitVec 16, { ipv4 with length, checksum }.toBytes =
        .ok (x ++ be length ++ y ++ be checksum ++ z) := by
  obtain ⟨u, hu, -⟩ := derivedToBytes_eq_ok.mp h
  obtain ⟨x, y, z, hx, hy, hz, hframe⟩ := write_frame hu
  have hx8 : 8 ∣ x.length := hx ▸ Nat.dvd_mul_right 8 2
  have hy8 : 8 ∣ y.length := hy ▸ Nat.dvd_mul_right 8 6
  refine ⟨pack x, pack y, be ipv4.src ++ (be ipv4.dst ++ pack z), length_pack_of_length hx,
    length_pack_of_length hy, ?_,
    fun length checksum => derivedToBytes_eq_ok.mpr ⟨_, hframe length checksum, ?_⟩⟩
  · simp only [List.length_append, length_be32]
    omega
  · rw [pack_append hx8, pack_natBits_append length _ (by decide), pack_append hy8,
      pack_natBits_append checksum _ (by decide), pack_natBits_append ipv4.src _ (by decide),
      pack_natBits_append ipv4.dst _ (by decide)]
    simp only [List.append_assoc]

/-- A header with a new length and checksum is as long as before. -/
theorem length_toBytes_update {ipv4 : Ipv4} {bytes bytes' : Bytes} {length checksum : BitVec 16}
    (h : ipv4.toBytes = .ok bytes) (h' : { ipv4 with length, checksum }.toBytes = .ok bytes') :
    bytes'.length = bytes.length := by
  obtain ⟨z, hz, hlen⟩ := length_toBytes h
  obtain ⟨z', hz', hlen'⟩ := length_toBytes h'
  obtain rfl := Except.ok.inj (hz.symm.trans hz')
  omega

/-- The words of a header with its checksum in place add up to zero. -/
theorem ocs_toBytes {ipv4 : Ipv4} {cleared bytes : Bytes}
    (hcleared : { ipv4 with checksum := 0 }.toBytes = .ok cleared)
    (h : { ipv4 with checksum := Nata.checksum cleared }.toBytes = .ok bytes)
    (hlen : cleared.length ≤ 131074) : ocs bytes = 0 := by
  obtain ⟨x, y, z, hx, hy, -, hframe⟩ := toBytes_frame h
  have hzero := Except.ok.inj ((hframe ipv4.length 0).symm.trans hcleared)
  have hself := Except.ok.inj ((hframe ipv4.length (Nata.checksum cleared)).symm.trans h)
  have h10 : 2 ∣ (x ++ be ipv4.length ++ y).length := by
    simp only [List.length_append, hx, hy, length_be16]
    decide
  have hsum := ocs_field (z := z) (Nata.checksum cleared) h10
  rw [hself, show (0#16 : BitVec 16) = 0 from rfl, hzero, checksum_cast hlen] at hsum
  rw [hsum, add_neg_cancel]

end Format

section Finalize

variable [Deku] {L : Type} [LayerBytes L]

/-- Update the checksum field -/
def updateChecksum : Method LayerError Ipv4 Unit := do
  let ipv4 ← toBytes (← get)
  -- Bytes 10, 11 are the checksum.  Clear them and re-calculate.
  let ipv4 := clearWord ipv4 10
  modify fun self => { self with checksum := Nata.checksum ipv4 }

/-- The length is that of the header and of all layers behind it; the checksum is taken when it has
    been stored. -/
def finalize (_prev next : List L) : Method LayerError Ipv4 Unit := do
  let header ← toBytes (← get)
  let behind ← lengthOfLayers next
  let size ← okOr (.finalize "Overflow occured when calculating ipv4 length")
    (checkedAdd header.length behind)
  let length ← okOr (.finalize "Could not convert layer length to u16") (tryFrom 16 size)
  modify fun self => { self with length }
  updateChecksum

omit [LayerBytes L] in
/-- Once the header can be serialised with the new length, nothing fails any more. -/
theorem updateChecksum_ne_error {ipv4 ipv4' : Ipv4} {header : Bytes} {length : BitVec 16}
    {e : LayerError} (h : ipv4.toBytes = .ok header) :
    updateChecksum { ipv4 with length } ≠ .error e ipv4' := by
  obtain ⟨x, y, z, -, -, -, hframe⟩ := toBytes_frame h
  have hbytes := hframe length ipv4.checksum
  intro hupdate
  simp only [updateChecksum, Method.bind_eq_error, Method.get_ne_error, Method.get_eq_ok,
    Method.lift_eq_error, Method.modify_ne_error, false_or] at hupdate
  obtain ⟨_, _, ⟨rfl, rfl⟩, ⟨herror, -⟩ | ⟨_, _, -, hfalse⟩⟩ := hupdate
  · exact absurd (hbytes.symm.trans herror) (by simp)
  · exact hfalse

/-- `finalize` fails before it writes anything: the header or a layer behind cannot be measured, or
    the total does not fit the length field. -/
theorem finalize_eq_error {prev next : List L} {ipv4 ipv4' : Ipv4} {e : LayerError} :
    finalize prev next ipv4 = .error e ipv4' ↔
      ipv4' = ipv4 ∧ (ipv4.toBytes = .error e ∨ ∃ header, ipv4.toBytes = .ok header ∧
        (lengthOfLayers next = .error e ∨ ∃ behind, lengthOfLayers next = .ok behind ∧
          2 ^ 16 ≤ header.length + behind ∧
          e = .finalize (if header.length + behind < 2 ^ 64
            then "Could not convert layer length to u16"
            else "Overflow occured when calculating ipv4 length"))) := by
  simp only [finalize, Method.bind_eq_error, Method.get_ne_error, Method.get_eq_ok,
    Method.lift_eq_error, Method.lift_eq_ok, Method.modify_ne_error, Method.modify_eq_ok, false_or,
    okOr_eq_error, okOr_eq_ok, checkedAdd_eq_none_iff, checkedAdd_eq_some, tryFrom_eq_none_iff,
    tryFrom_eq_some]
  constructor
  · rintro ⟨_, _, ⟨rfl, rfl⟩, ⟨herror, rfl⟩ | ⟨header, _, ⟨hheader, rfl⟩, ⟨herror, rfl⟩ |
      ⟨behind, _, ⟨hbehind, rfl⟩, ⟨⟨hle, rfl⟩, rfl⟩ | ⟨_, _, ⟨⟨hlt, rfl⟩, rfl⟩,
        ⟨⟨hle, rfl⟩, rfl⟩ | ⟨_, _, ⟨-, rfl⟩, _, _, rfl, hupdate⟩⟩⟩⟩⟩
    · exact ⟨rfl, .inl herror⟩
    · exact ⟨rfl, .inr ⟨header, hheader, .inl herror⟩⟩
    · exact ⟨rfl, .inr ⟨header, hheader, .inr ⟨behind, hbehind, by omega, by
        rw [if_neg (by omega)]⟩⟩⟩
    · exact ⟨rfl, .inr ⟨header, hheader, .inr ⟨behind, hbehind, hle, by rw [if_pos hlt]⟩⟩⟩
    · exact absurd hupdate (updateChecksum_ne_error hheader)
  · rintro ⟨rfl, herror | ⟨header, hheader, herror | ⟨behind, hbehind, hle, rfl⟩⟩⟩
    · exact ⟨_, _, ⟨rfl, rfl⟩, .inl ⟨herror, rfl⟩⟩
    · exact ⟨_, _, ⟨rfl, rfl⟩, .inr ⟨header, _, ⟨hheader, rfl⟩, .inl ⟨herror, rfl⟩⟩⟩
    · refine ⟨_, _, ⟨rfl, rfl⟩, .inr ⟨header, _, ⟨hheader, rfl⟩, .inr ⟨behind, _, ⟨hbehind, rfl⟩,
        ?_⟩⟩⟩
      by_cases hlt : header.length + behind < 2 ^ 64
      · rw [if_pos hlt]
        exact .inr ⟨_, _, ⟨⟨hlt, rfl⟩, rfl⟩, .inl ⟨⟨hle, rfl⟩, rfl⟩⟩
      · rw [if_neg hlt]
        exact .inl ⟨⟨by omega, rfl⟩, rfl⟩

/-- `finalize` stores the size of the header and of what is behind it, and the checksum of the
    header with that length and its checksum field cleared. -/
theorem finalize_eq_ok {prev next : List L} {ipv4 ipv4' : Ipv4} :
    finalize prev next ipv4 = .ok () ipv4' ↔
      ∃ header behind, ipv4.toBytes = .ok header ∧ lengthOfLayers next = .ok behind ∧
        header.length + behind < 2 ^ 16 ∧
        ∃ cleared, { ipv4 with
            length := BitVec.ofNat 16 (header.length + behind), checksum := 0 }.toBytes =
              .ok cleared ∧
          ipv4' = { ipv4 with
            length := BitVec.ofNat 16 (header.length + behind),
            checksum := Nata.checksum cleared } := by
  simp only [finalize, updateChecksum, Method.bind_eq_ok, Method.get_eq_ok, Method.lift_eq_ok,
    Method.modify_eq_ok, okOr_eq_ok, tryFrom_eq_some, checkedAdd_eq_some]
  -- Clearing the two bytes of the checksum is serialising the header with a zero in the field.
  have hclear : ∀ {header bytes : Bytes} {length : BitVec 16}, ipv4.toBytes = .ok header →
      { ipv4 with length }.toBytes = .ok bytes →
      { ipv4 with length, checksum := 0 }.toBytes = .ok (clearWord bytes 10) := by
    intro header bytes length hheader hbytes
    obtain ⟨x, y, z, hx, hy, -, hframe⟩ := toBytes_frame hheader
    have hsame := (hframe length ipv4.checksum).symm.trans hbytes
    rw [Except.ok.injEq] at hsame
    have hlen : (x ++ be length ++ y).length = 10 := by
      simp only [List.length_append, length_be16]
      omega
    rw [hframe, ← hsame, clearWord_append _ hlen]
    rfl
  constructor
  · rintro ⟨_, _, ⟨rfl, rfl⟩, header, _, ⟨hheader, rfl⟩, behind, _, ⟨hbehind, rfl⟩, size, _,
      ⟨⟨-, rfl⟩, rfl⟩, length, _, ⟨⟨hlt, rfl⟩, rfl⟩, _, _, rfl, _, _, ⟨rfl, rfl⟩, bytes, _,
      ⟨hbytes, rfl⟩, rfl⟩
    exact ⟨header, behind, hheader, hbehind, hlt, _, hclear hheader hbytes, rfl⟩
  · rintro ⟨header, behind, hheader, hbehind, hlt, cleared, hcleared, rfl⟩
    obtain ⟨x, y, z, hx, hy, -, hframe⟩ := toBytes_frame hheader
    have hbytes := hframe (BitVec.ofNat 16 (header.length + behind)) ipv4.checksum
    obtain rfl := Except.ok.inj ((hclear hheader hbytes).symm.trans hcleared)
    exact ⟨_, _, ⟨rfl, rfl⟩, header, _, ⟨hheader, rfl⟩, behind, _, ⟨hbehind, rfl⟩, _, _,
      ⟨⟨by omega, rfl⟩, rfl⟩, _, _, ⟨⟨hlt, rfl⟩, rfl⟩, (), _, rfl, _, _, ⟨rfl, rfl⟩, _, _,
      ⟨hbytes, rfl⟩, rfl⟩

end Finalize

end Ipv4

end Nata
