/-
  The bytes of an IPv4 header.

  The first octet of an option is three fields of one, two and five bits; what follows comes in bytes.
  `Ipv4Option.Shape` tells the shape of an option from the low five bits of the first octet and from
  the length octet, and `Ipv4Option.Denotes` the option from the three fields; neither mentions a
  decoder, and together they are the codec (`encodes_iff`).

  The options end after `4 * ihl` bytes, or after the fixed part if `ihl` is below five
  (`Ipv4.accepts_ipv4Grammar`).
-/
import Nata.Layer.Truncated
import Nata.Lib.Chunk

namespace Nata

/-! ## Options -/

/-- The three fields of the first octet. -/
theorem byteBits_fields (b : BitVec 8) :
    byteBits b =
      natBits 1 (b.toNat / 2 ^ 7) ++ (natBits 2 (b.toNat / 2 ^ 5 % 2 ^ 2) ++
        natBits 5 (b.toNat % 2 ^ 5)) := by
  rw [natBits_mod (Nat.le_refl 2), natBits_mod (Nat.le_refl 5), ← natBits_add 2 5,
    ← natBits_add 1 7]
  rfl

/-- Three fields that fit make up an octet. -/
theorem exists_fields {c k n : Nat} (hc : c < 2 ^ 1) (hk : k < 2 ^ 2) (hn : n < 2 ^ 5) :
    ∃ b : BitVec 8, b.toNat / 2 ^ 7 = c ∧ b.toNat / 2 ^ 5 % 2 ^ 2 = k ∧ b.toNat % 2 ^ 5 = n := by
  have hval : (BitVec.ofNat 8 (c * 2 ^ 7 + k * 2 ^ 5 + n)).toNat = c * 2 ^ 7 + k * 2 ^ 5 + n := by
    rw [BitVec.toNat_ofNat]
    omega
  refine ⟨BitVec.ofNat 8 (c * 2 ^ 7 + k * 2 ^ 5 + n), ?_, ?_, ?_⟩ <;> rw [hval] <;> omega

namespace Ipv4OptionClass

/-- A class is a number of two bits. -/
theorem id_lt (c : Ipv4OptionClass) : c.id.toNat < 2 ^ 2 := by cases c <;> decide

/-- Two bits are a class. -/
theorem exists_id {k : Nat} (h : k < 2 ^ 2) : ∃ c : Ipv4OptionClass, c.id.toNat = k := by
  match k, h with
  | 0, _ => exact ⟨.Control, rfl⟩
  | 1, _ => exact ⟨.Reserved1, rfl⟩
  | 2, _ => exact ⟨.Debug, rfl⟩
  | 3, _ => exact ⟨.Reserved2, rfl⟩

variable [Deku]

/-- Every class is some number of two bits. -/
theorem valid_codec (c : Ipv4OptionClass) : codec.Valid c := by
  cases c <;> exact ⟨show (_ : Nat) < _ by decide, rfl⟩

/-- A class is written as its number. -/
theorem write_eq (c : Ipv4OptionClass) : codec.write c = .ok (natBits 2 c.id.toNat) := by
  refine writeAll_pair_eq_ok.mpr ⟨natBits 2 c.id.toNat, [], ?_, rfl, (List.append_nil _).symm⟩
  exact Codec.writeBits_of_lt c.id_lt

end Ipv4OptionClass

namespace Ipv4OptionType

/-- The bytes behind the first octet. -/
def tail : Ipv4OptionType → Bytes
  | .EOOL | .NOP => []
  | .Unknown _ length value => length :: value

/-- What is behind the number of an option: its tail. -/
theorem body_eq (o : Ipv4OptionType) : body o = .ok (toBits o.tail) := by
  cases o with
  | EOOL | NOP => rfl
  | Unknown type length value =>
    exact Codec.write_seq_eq_ok.mpr
      ⟨byteBits length, toBits value, rfl, Codec.writeVec_uint value, rfl⟩

/-- The length of an option counts its first two octets as well. -/
theorem valueCount_eq_ok {length : BitVec 8} {n : Nat} :
    valueCount length = .ok n ↔ length.toNat = n + 2 := by
  unfold valueCount checkedSub
  by_cases h : 2 ≤ length.toNat
  · rw [if_pos h]
    simp only [Except.ok.injEq]
    omega
  · rw [if_neg h]
    simp only [reduceCtorEq, false_iff]
    omega

end Ipv4OptionType

namespace Ipv4Option

/-- The bytes of an option: the first octet alone, or with a length octet and what it announces. -/
inductive Shape : Bytes → Prop
  | alone {b : BitVec 8} : b.toNat % 2 ^ 5 < 2 → Shape [b]
  | announced {b m : BitVec 8} {v : Bytes} :
    2 ≤ b.toNat % 2 ^ 5 → 2 ≤ m.toNat → v.length = m.toNat - 2 → Shape (b :: m :: v)

/-- The option has the three fields of the first octet, and the other bytes are its length and
    value. -/
def Denotes (o : Ipv4Option) (chunk : Bytes) : Prop :=
  ∃ b : BitVec 8, chunk = b :: o.option.tail ∧ o.copied.toNat = b.toNat / 2 ^ 7 ∧
    o.class_.id.toNat = b.toNat / 2 ^ 5 % 2 ^ 2 ∧ o.option.id.toNat = b.toNat % 2 ^ 5

/-- A chunk of the right shape denotes an option. -/
theorem Shape.exists_denotes {chunk : Bytes} (h : Shape chunk) :
    ∃ o : Ipv4Option, o.WellFormed ∧ o.Denotes chunk := by
  have hcopied : ∀ b : BitVec 8, ∃ copied : BitVec 8, copied.toNat = b.toNat / 2 ^ 7 ∧
      copied.toNat < 2 ^ 1 := by
    intro b
    have := b.isLt
    refine ⟨BitVec.ofNat 8 (b.toNat / 2 ^ 7), ?_, ?_⟩ <;> rw [BitVec.toNat_ofNat] <;> omega
  have hclass : ∀ b : BitVec 8, ∃ c : Ipv4OptionClass, c.id.toNat = b.toNat / 2 ^ 5 % 2 ^ 2 :=
    fun b => Ipv4OptionClass.exists_id (Nat.mod_lt _ (by decide))
  cases h with
  | @alone b hb =>
    obtain ⟨c, hc⟩ := hclass b
    obtain ⟨copied, hval, hlt⟩ := hcopied b
    by_cases h0 : b.toNat % 2 ^ 5 = 0
    · exact ⟨⟨copied, c, .EOOL⟩, ⟨hlt, nofun⟩, b, rfl, hval, hc, h0.symm⟩
    · exact ⟨⟨copied, c, .NOP⟩, ⟨hlt, nofun⟩, b, rfl, hval, hc,
        show 1 = b.toNat % 2 ^ 5 by omega⟩
  | @announced b m v hb hm hv =>
    obtain ⟨c, hc⟩ := hclass b
    obtain ⟨copied, hval, hlt⟩ := hcopied b
    have htype : (BitVec.ofNat 8 (b.toNat % 2 ^ 5)).toNat = b.toNat % 2 ^ 5 := by
      rw [BitVec.toNat_ofNat]
      omega
    refine ⟨⟨copied, c, .Unknown (BitVec.ofNat 8 (b.toNat % 2 ^ 5)) m v⟩, ⟨hlt, ?_⟩, b, rfl, hval,
      hc, htype⟩
    rintro _ _ _ ⟨⟩
    rw [htype]
    omega

/-- An option that announces its value has the right shape. -/
theorem Denotes.shape {o : Ipv4Option} {chunk : Bytes} (h : o.Denotes chunk) (hwf : o.WellFormed) :
    Shape chunk := by
  obtain ⟨b, rfl, -, -, hid⟩ := h
  obtain ⟨copied, c, option⟩ := o
  cases option with
  | EOOL => exact .alone (hid ▸ (by decide : (0 : Nat) < 2))
  | NOP => exact .alone (hid ▸ (by decide : (1 : Nat) < 2))
  | Unknown type length value =>
    obtain ⟨htwo, -, hlen⟩ := hwf.2 type length value rfl
    exact .announced (hid ▸ htwo) (by omega) (by omega)

/-- Conversely an option whose bytes have the right shape announces its value. -/
theorem Denotes.wellFormed {o : Ipv4Option} {chunk : Bytes} (h : o.Denotes chunk)
    (hshape : Shape chunk) : o.WellFormed := by
  obtain ⟨b, rfl, hcopied, -, hid⟩ := h
  obtain ⟨copied, c, option⟩ := o
  have hb := b.isLt
  refine ⟨show copied.toNat < 2 ^ 1 from ?_, ?_⟩
  · rw [show copied.toNat = b.toNat / 2 ^ 7 from hcopied]
    omega
  · rintro type length value rfl
    have htype : type.toNat = b.toNat % 2 ^ 5 := hid
    cases hshape with
    | announced h5 hm hv => omega

variable [Deku]

/-- An option is representable if it is well formed. -/
theorem valid_iff (o : Ipv4Option) : codec.Valid o ↔ o.WellFormed := by
  obtain ⟨copied, c, option⟩ := o
  constructor
  · rintro ⟨hcopied, -, hid, hvariant⟩
    refine ⟨hcopied, ?_⟩
    rintro type length value rfl
    have hvariant : (Ipv4OptionType.variant type).Valid (.Unknown type length value) := hvariant
    have hid : type.toNat < 2 ^ 5 := hid
    unfold Ipv4OptionType.variant at hvariant
    split at hvariant
    · cases hvariant
    · cases hvariant
    · rename_i h0 h1
      obtain ⟨⟨-, hcount, -⟩, -⟩ := hvariant
      refine ⟨?_, hid, Ipv4OptionType.valueCount_eq_ok.mp hcount⟩
      have hne0 : type.toNat ≠ 0 := fun h => h0 (BitVec.eq_of_toNat_eq h)
      have hne1 : type.toNat ≠ 1 := fun h => h1 (BitVec.eq_of_toNat_eq h)
      omega
  · rintro ⟨hcopied, hunknown⟩
    refine ⟨hcopied, c.valid_codec, ?_⟩
    cases option with
    | EOOL => exact ⟨show (0 : Nat) < 2 ^ 5 by decide, rfl⟩
    | NOP => exact ⟨show (1 : Nat) < 2 ^ 5 by decide, rfl⟩
    | Unknown type length value =>
      obtain ⟨htype, h32, hlength⟩ := hunknown type length value rfl
      refine ⟨h32, ?_⟩
      show (Ipv4OptionType.variant type).Valid _
      unfold Ipv4OptionType.variant
      -- The types that are known are below two.
      split
      · exact absurd htype (by decide)
      · exact absurd htype (by decide)
      · have hcount := Ipv4OptionType.valueCount_eq_ok.mpr hlength
        exact ⟨⟨trivial, hcount, fun _ _ => trivial⟩, rfl⟩

/-- The three fields of a well-formed option are written as one octet. -/
theorem write_eq {o : Ipv4Option} {b : BitVec 8} (hwf : o.WellFormed)
    (hcopied : o.copied.toNat = b.toNat / 2 ^ 7)
    (hclass : o.class_.id.toNat = b.toNat / 2 ^ 5 % 2 ^ 2)
    (hid : o.option.id.toNat = b.toNat % 2 ^ 5) :
    codec.write o = .ok (toBits (b :: o.option.tail)) := by
  have h1 : Codec.writeBits 1 o.copied = .ok (natBits 1 (b.toNat / 2 ^ 7)) := by
    rw [← hcopied]
    exact Codec.writeBits_of_lt hwf.1
  have h2 : Ipv4OptionClass.codec.write o.class_ = .ok (natBits 2 (b.toNat / 2 ^ 5 % 2 ^ 2)) := by
    rw [← hclass]
    exact o.class_.write_eq
  have h5 : Ipv4OptionType.codec.write o.option =
      .ok (natBits 5 (b.toNat % 2 ^ 5) ++ toBits o.option.tail) := by
    refine writeAll_pair_eq_ok.mpr ⟨_, _, ?_, o.option.body_eq, rfl⟩
    rw [← hid]
    exact Codec.writeBits_of_lt (by rw [hid]; exact Nat.mod_lt _ (by decide))
  rw [toBits_cons, byteBits_fields, List.append_assoc, List.append_assoc]
  simp only [codec, Codec.write_iso, Codec.write_seq_eq_ok, Codec.write_bits]
  exact ⟨_, _, h1, ⟨_, _, h2, h5, rfl⟩, rfl⟩

/-- **The grammar is that of the codec.** -/
theorem encodes_iff {o : Ipv4Option} {chunk : Bytes} :
    codec.Encodes o chunk ↔ Shape chunk ∧ o.Denotes chunk := by
  constructor
  · rintro ⟨hvalid, hwrite⟩
    have hwf := (valid_iff o).mp hvalid
    have hid : o.option.id.toNat < 2 ^ 5 := hvalid.2.2.1
    obtain ⟨b, hcopied, hclass, hnumber⟩ := exists_fields hwf.1 o.class_.id_lt hid
    have hbytes := write_eq hwf hcopied.symm hclass.symm hnumber.symm
    obtain rfl := toBits_inj (Except.ok.inj (hbytes.symm.trans hwrite))
    have hdenotes : o.Denotes (b :: o.option.tail) :=
      ⟨b, rfl, hcopied.symm, hclass.symm, hnumber.symm⟩
    exact ⟨hdenotes.shape hwf, hdenotes⟩
  · rintro ⟨hshape, hdenotes⟩
    have hwf := hdenotes.wellFormed hshape
    obtain ⟨b, rfl, hcopied, hclass, hid⟩ := hdenotes
    exact ⟨(valid_iff o).mpr hwf, write_eq hwf hcopied hclass hid⟩

/-- The bytes of the right shape are those of the options. -/
theorem shape_iff {chunk : Bytes} : Shape chunk ↔ ∃ o, codec.Encodes o chunk := by
  constructor
  · intro h
    obtain ⟨o, -, ho⟩ := h.exists_denotes
    exact ⟨o, encodes_iff.mpr ⟨h, ho⟩⟩
  · rintro ⟨o, ho⟩
    exact (encodes_iff.mp ho).1

/-- Chunks of the right shape are those of a list of options. -/
theorem forall_shape_iff {chunks : List Bytes} :
    (∀ chunk ∈ chunks, Shape chunk) ↔ ∃ options, List.Forall₂ codec.Encodes options chunks :=
  Codec.forall_shape_iff fun _ => shape_iff

omit [Deku] in
/-- The fields of an unknown option that run out of input lack the length octet or a part of the
    value. -/
theorem unknown_exists_of_short {b : BitVec 8} {v : Bytes} (hb : 2 ≤ b.toNat % 2 ^ 5)
    (h : Ipv4OptionType.unknown.read.Short (toBits v)) :
    ∃ missing, missing ≠ [] ∧ Shape (b :: (v ++ missing)) := by
  cases v with
  | nil => exact ⟨[0x02], List.cons_ne_nil _ _, .announced hb (by decide) rfl⟩
  | cons m w =>
    have hvalue := (Codec.seq_short_iff (Codec.read_octet m w)).mp h
    by_cases htwo : 2 ≤ m.toNat
    · rw [Ipv4OptionType.valueCount_eq_ok.mpr (show m.toNat = m.toNat - 2 + 2 by omega)] at hvalue
      obtain ⟨missing, hne, hlen⟩ :=
        (Codec.Total.count (c := (Codec.uint : Field (BitVec 8))) Codec.total_uint
          (m.toNat - 2)).exists_missing hvalue
      exact ⟨missing, hne, .announced hb htwo hlen⟩
    · have herror : Ipv4OptionType.valueCount m =
          .error (.parse "overflow when parsing ipv4 option") := by
        rw [Ipv4OptionType.valueCount, checkedSub, if_neg htwo]
      rw [herror] at hvalue
      exact absurd hvalue Codec.not_short_count

/-- **An option that runs out of input can be completed.** -/
theorem exists_of_short {tail : Bytes} (h : codec.read.Short (toBits tail)) :
    ∃ missing, missing ≠ [] ∧ Shape (tail ++ missing) := by
  cases tail with
  | nil => exact ⟨[0x00], List.cons_ne_nil _ _, .alone (by decide)⟩
  | cons b v =>
    have hb := b.isLt
    obtain ⟨c, hc⟩ := Ipv4OptionClass.exists_id (k := b.toNat / 2 ^ 5 % 2 ^ 2)
      (Nat.mod_lt _ (by decide))
    rw [toBits_cons, byteBits_fields, List.append_assoc, List.append_assoc] at h
    -- The three fields of the first octet are there, so it is the rest that is short.
    have hclass := (Codec.seq_short_iff
      (Codec.read_natBits (n := 1) (w := 8) rfl (by omega) _)).mp (Reader.short_map_iff.mp h)
    have htype := (Codec.seq_short_iff (Ipv4OptionClass.codec.read_eq_ok.mpr
      ⟨c.valid_codec, _, hc ▸ c.write_eq, rfl⟩)).mp hclass
    have hv := (Codec.enum_short_iff
      (Codec.read_natBits (by decide) (Nat.mod_lt _ (by decide)) _)).mp htype
    have hval : (BitVec.ofNat 8 (b.toNat % 2 ^ 5)).toNat = b.toNat % 2 ^ 5 := by
      rw [BitVec.toNat_ofNat]
      omega
    unfold Ipv4OptionType.variant at hv
    split at hv
    · exact absurd hv Reader.not_short_pure
    · exact absurd hv Reader.not_short_pure
    · rename_i h0 h1
      have hne0 : b.toNat % 2 ^ 5 ≠ 0 := fun h => h0 (by rw [h])
      have hne1 : b.toNat % 2 ^ 5 ≠ 1 := fun h => h1 (by rw [h])
      exact unknown_exists_of_short (by omega) (Reader.short_map_iff.mp hv)

end Ipv4Option

/-! ## The header -/

/-- Every octet is a protocol. -/
theorem IpProtocol.total_codec : IpProtocol.codec.Total 8 := NamedCodes.total_codec

namespace Ipv4

/-- The header length of a header in words: the low four bits of byte 0. -/
def headerWords (input : Bytes) : Nat := (input.getD 0 0).toNat % 2 ^ 4

/-- The size of a header; the fixed part is there whatever the header length says. -/
def headerSize (input : Bytes) : Nat := 4 * max (headerWords input) 5

/-- The bytes between the fixed part of the header and its end. -/
def optionArea (input : Bytes) : Bytes := (input.take (headerSize input)).drop 20

variable [Deku]

/-- Twenty bytes are the fixed part of some header, and what becomes of it is a matter of the
    options. -/
theorem read_leads {input : Bytes} (h : 20 ≤ input.length) :
    ∃ ihl : BitVec 8, ihl.toNat = headerWords input ∧
      codec.read.Leads (toBits input)
        (Ipv4Option.codec.bytesRead (.ok (optionsSize ihl)) Ipv4Option.nonempty_codec).read
        (toBits (input.drop 20)) Ipv4.options := by
  have hlen := length_toBits input
  have hdrop : ∀ n, 8 * 20 - n ≤ ((toBits input).drop n).length := by
    intro n
    rw [List.length_drop]
    omega
  obtain ⟨version, h₁⟩ := Codec.total_bits (n := 4) (w := 8) rfl (toBits input) (by omega)
  obtain ⟨ihl, h₂, hihl⟩ := Codec.read_bits (n := 4) (w := 8) rfl
    (Nat.le_trans (by decide) (hdrop 4))
  rw [List.drop_drop] at h₂
  obtain ⟨dscp, h₃⟩ := Codec.total_bits (n := 6) (w := 8) rfl _
    (Nat.le_trans (by decide) (hdrop 8))
  rw [List.drop_drop] at h₃
  obtain ⟨ecn, h₄⟩ := Codec.total_bits (n := 2) (w := 8) rfl _
    (Nat.le_trans (by decide) (hdrop 14))
  rw [List.drop_drop] at h₄
  obtain ⟨length, h₅⟩ := Codec.total_uint (w := 16) _ (Nat.le_trans (by decide) (hdrop 16))
  rw [List.drop_drop] at h₅
  obtain ⟨identification, h₆⟩ := Codec.total_uint (w := 16) _ (Nat.le_trans (by decide) (hdrop 32))
  rw [List.drop_drop] at h₆
  obtain ⟨flags, h₇⟩ := Codec.total_bits (n := 3) (w := 8) rfl _
    (Nat.le_trans (by decide) (hdrop 48))
  rw [List.drop_drop] at h₇
  obtain ⟨offset, h₈⟩ := Codec.total_bits (n := 13) (w := 16) (by decide) _
    (Nat.le_trans (by decide) (hdrop 51))
  rw [List.drop_drop] at h₈
  obtain ⟨ttl, h₉⟩ := Codec.total_uint (w := 8) _ (Nat.le_trans (by decide) (hdrop 64))
  rw [List.drop_drop] at h₉
  obtain ⟨protocol, h₁₀⟩ := IpProtocol.total_codec _ (Nat.le_trans (by decide) (hdrop 72))
  rw [List.drop_drop] at h₁₀
  obtain ⟨checksum, h₁₁⟩ := Codec.total_uint (w := 16) _ (Nat.le_trans (by decide) (hdrop 80))
  rw [List.drop_drop] at h₁₁
  obtain ⟨src, h₁₂⟩ := Codec.total_uint (w := 32) _ (Nat.le_trans (by decide) (hdrop 96))
  rw [List.drop_drop] at h₁₂
  obtain ⟨dst, h₁₃⟩ := Codec.total_uint (w := 32) _ (Nat.le_trans (by decide) (hdrop 128))
  rw [List.drop_drop, drop_toBits 20] at h₁₃
  refine ⟨ihl, ?_, ?_⟩
  · match input, h with
    | b :: bytes, _ => rw [hihl, take_drop_toBits_cons (k := 4) rfl]; rfl
  · unfold codec codecWith
    refine Codec.leads_iso ?_
    refine Codec.leads_seq h₁ (Codec.leads_seq h₂ (Codec.leads_seq h₃ (Codec.leads_seq h₄ ?_)))
    refine Codec.leads_seq h₅ (Codec.leads_seq h₆ (Codec.leads_seq h₇ (Codec.leads_seq h₈ ?_)))
    refine Codec.leads_seq h₉ (Codec.leads_seq h₁₀ (Codec.leads_seq h₁₁ (Codec.leads_seq h₁₂ ?_)))
    exact Codec.leads_seq h₁₃ (.refl _ _)

/-- What is accepted has a fixed part. -/
theorem le_of_parse {input rest : Bytes} {ipv4 : Ipv4} (h : parse input = .ok (rest, ipv4)) :
    20 ≤ input.length := by
  obtain ⟨-, -, bytes, hbytes, rfl⟩ := (derivedParse_eq_ok aligned_codec).mp h
  obtain ⟨z, -, hlen⟩ := length_toBytes hbytes
  rw [List.length_append]
  omega

/-- **What is accepted behind the fixed part**: an area that splits into the chunks of the
    options. -/
theorem parse_options_iff {input rest : Bytes} {options : List Ipv4Option}
    (h20 : 20 ≤ input.length) :
    (∃ ipv4, parse input = .ok (rest, ipv4) ∧ ipv4.options = options) ↔
      headerSize input ≤ input.length ∧ rest = input.drop (headerSize input) ∧
        ∃ chunks, List.Forall₂ Ipv4Option.codec.Encodes options chunks ∧
          chunks.flatten = optionArea input := by
  obtain ⟨ihl, hihl, hleads⟩ := read_leads h20
  have hsize : headerSize input = 20 + optionsSize ihl := by
    rw [headerSize, optionsSize, hihl]
    omega
  rw [optionArea, hsize]
  exact derivedParse_list_eq_ok aligned_codec Ipv4Option.aligned_codec h20 hleads

/-- **Ipv4::parse accepts exactly its grammar.** -/
theorem accepts_ipv4Grammar (input : Bytes) :
    ((∃ rest ipv4, parse input = .ok (rest, ipv4)) ↔
      headerSize input ≤ input.length ∧
        ∃ chunks : List Bytes, (∀ chunk ∈ chunks, Ipv4Option.Shape chunk) ∧
          chunks.flatten = optionArea input) ∧
    ∀ rest ipv4, parse input = .ok (rest, ipv4) →
      rest = input.drop (headerSize input) ∧
      ∀ chunks : List Bytes, (∀ chunk ∈ chunks, Ipv4Option.Shape chunk) →
        chunks.flatten = optionArea input → List.Forall₂ Ipv4Option.Denotes ipv4.options chunks := by
  refine ⟨⟨?_, ?_⟩, ?_⟩
  · rintro ⟨rest, ipv4, h⟩
    obtain ⟨hlen, -, chunks, hchunks, hflat⟩ :=
      (parse_options_iff (le_of_parse h)).mp ⟨ipv4, h, rfl⟩
    exact ⟨hlen, chunks, Ipv4Option.forall_shape_iff.mpr ⟨_, hchunks⟩, hflat⟩
  · rintro ⟨hlen, chunks, hshape, hflat⟩
    have h20 : 20 ≤ input.length := by
      rw [headerSize] at hlen
      omega
    obtain ⟨options, hchunks⟩ := Ipv4Option.forall_shape_iff.mp hshape
    obtain ⟨ipv4, h, -⟩ := (parse_options_iff h20).mpr ⟨hlen, rfl, chunks, hchunks, hflat⟩
    exact ⟨_, ipv4, h⟩
  · intro rest ipv4 h
    have h20 := le_of_parse h
    obtain ⟨hlen, hrest, -⟩ := (parse_options_iff h20).mp ⟨ipv4, h, rfl⟩
    refine ⟨hrest, fun chunks hshape hflat => ?_⟩
    -- Any split makes the parser return the options that its chunks denote.
    obtain ⟨options, hchunks⟩ := Ipv4Option.forall_shape_iff.mp hshape
    obtain ⟨ipv4', h', rfl⟩ := (parse_options_iff h20).mpr ⟨hlen, hrest, chunks, hchunks, hflat⟩
    obtain rfl := (Prod.mk.inj (Except.ok.inj (h.symm.trans h'))).2
    exact hchunks.imp fun _ _ ho => (Ipv4Option.encodes_iff.mp ho).2

end Ipv4

end Nata
