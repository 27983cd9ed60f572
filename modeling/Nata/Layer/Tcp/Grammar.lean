/-
  The bytes of a TCP header.

  `TcpOption.Shape` is the grammar of the option area, told by the first byte of an option and, for
  `SAck`, by its length byte; it mentions no decoder.  `TcpOption.bytes` are the bytes of an option.
  The two agree with the codec (`encodes_iff`, `shape_iff`), so a parsed header has split its option
  area into the bytes of its options, and there is no other way to split it (`Tcp.accepts_tcpGrammar`).

  Of the twenty bytes in front of the options only the data offset matters for what is accepted
  (`Tcp.read_leads`): any other bytes are some header.
-/
import Nata.Layer.Truncated
import Nata.Lib.Chunk

namespace Nata

/-! ## Options -/

/-- The eight bytes of a block. -/
def SAckData.bytes (d : SAckData) : Bytes := be d.begin_ ++ be d.end_

/-- A block takes eight bytes. -/
theorem SAckData.length_bytes (d : SAckData) : d.bytes.length = 8 := by
  rw [bytes, List.length_append, length_be32, length_be32]

/-- A block is written as its bytes. -/
theorem SAckData.write_eq (d : SAckData) : codec.write d = .ok (toBits d.bytes) := by
  rw [bytes, toBits_append, toBits_be _ (by decide), toBits_be _ (by decide)]
  rfl

/-- Every eight bytes are a block. -/
theorem SAckData.exists_bytes {v : Bytes} (h : v.length = 8) : ∃ d : SAckData, d.bytes = v := by
  obtain ⟨begin_, hbegin⟩ := exists_be (w := 32) (k := 4) (by decide) (v.take 4)
    (by rw [List.length_take]; omega)
  obtain ⟨end_, hend⟩ := exists_be (w := 32) (k := 4) (by decide) (v.drop 4)
    (by rw [List.length_drop]; omega)
  exact ⟨⟨begin_, end_⟩, by rw [bytes, hbegin, hend, List.take_append_drop]⟩

/-- The blocks of an option, one after the other. -/
def SAckData.vecBytes (value : List SAckData) : Bytes := value.flatMap SAckData.bytes

/-- Blocks take eight bytes each. -/
theorem SAckData.length_vecBytes : ∀ value : List SAckData,
    (vecBytes value).length = 8 * value.length
  | [] => rfl
  | d :: value => by
    have ih := length_vecBytes value
    show (d.bytes ++ vecBytes value).length = 8 * (value.length + 1)
    rw [List.length_append, d.length_bytes, ih]
    omega

/-- Blocks are written one after the other. -/
theorem SAckData.writeVec_eq : ∀ value : List SAckData,
    codec.writeVec value = .ok (toBits (vecBytes value))
  | [] => rfl
  | d :: value => Codec.writeVec_cons_eq_ok.mpr
      ⟨_, _, d.write_eq, writeVec_eq value, toBits_append d.bytes (vecBytes value)⟩

/-- Any eight times `n` bytes are `n` blocks. -/
theorem SAckData.exists_vecBytes : ∀ {n : Nat} {v : Bytes}, v.length = 8 * n →
    ∃ value : List SAckData, value.length = n ∧ vecBytes value = v
  | 0, v, h => ⟨[], rfl, (List.eq_nil_of_length_eq_zero h).symm⟩
  | n + 1, v, h => by
    obtain ⟨d, hd⟩ := exists_bytes (v := v.take 8) (by rw [List.length_take]; omega)
    obtain ⟨value, hlen, hvalue⟩ := exists_vecBytes (n := n) (v := v.drop 8)
      (by rw [List.length_drop]; omega)
    refine ⟨d :: value, by rw [List.length_cons, hlen], ?_⟩
    show d.bytes ++ vecBytes value = v
    rw [hd, hvalue, List.take_append_drop]

namespace TcpOption

/-- What follows the first byte of an option. -/
inductive Shape : Bytes → Prop
  | EOL : Shape [0x00]
  | NOP : Shape [0x01]
  | MSS {v : Bytes} : v.length = 3 → Shape (0x02 :: v)
  | WScale {v : Bytes} : v.length = 2 → Shape (0x03 :: v)
  | SAckOK {v : Bytes} : v.length = 1 → Shape (0x04 :: v)
  | SAck {n : BitVec 8} {v : Bytes} :
    2 ≤ n.toNat → v.length = 8 * ((n.toNat - 2) / 8) → Shape (0x05 :: n :: v)
  | Timestamp {v : Bytes} : v.length = 9 → Shape (0x08 :: v)

/-- The bytes of an option. -/
def bytes : TcpOption → Bytes
  | EOL => [0x00]
  | NOP => [0x01]
  | MSS length value => 0x02 :: length :: be value
  | WScale length value => [0x03, length, value]
  | SAckOK length => [0x04, length]
  | SAck length value => 0x05 :: length :: SAckData.vecBytes value
  | Timestamp length value => 0x08 :: length :: (be value.start ++ be value.end_)

/-- The number of blocks is what the length leaves room for, rounded down. -/
theorem sackCount_eq_ok {length : BitVec 8} {n : Nat} :
    sackCount length = .ok n ↔ 2 ≤ length.toNat ∧ (length.toNat - 2) / 8 = n := by
  unfold sackCount checkedSub
  by_cases h : 2 ≤ length.toNat
  · rw [if_pos h]
    simp only [Except.ok.injEq, h, true_and]
  · rw [if_neg h]
    simp only [reduceCtorEq, h, false_and]

variable [Deku]

/-- What is written are the bytes of the option. -/
theorem write_eq (o : TcpOption) : codec.write o = .ok (toBits o.bytes) := by
  have h16 : ∀ v : BitVec 16, toBits (be v) = natBits 16 v.toNat := fun v => toBits_be v (by decide)
  have h32 : ∀ v : BitVec 32, toBits (be v) = natBits 32 v.toNat := fun v => toBits_be v (by decide)
  have hid : ∀ w : Bits, body o = .ok w → codec.write o = .ok (byteBits o.id ++ w) := by
    intro w hw
    exact writeAll_pair_eq_ok.mpr ⟨_, w, rfl, hw, rfl⟩
  cases o with
  | EOL => exact hid [] rfl
  | NOP => exact hid [] rfl
  | MSS length value =>
    refine hid _ ?_
    show body _ = .ok (byteBits length ++ toBits (be value))
    rw [h16]
    rfl
  | WScale length value => exact hid (byteBits length ++ (byteBits value ++ [])) rfl
  | SAckOK length => exact hid (byteBits length ++ []) rfl
  | SAck length value =>
    refine hid _ (Codec.write_seq_eq_ok.mpr ⟨_, _, rfl, SAckData.writeVec_eq value, rfl⟩)
  | Timestamp length value =>
    refine hid _ ?_
    show body _ = .ok (byteBits length ++ toBits (be value.start ++ be value.end_))
    rw [toBits_append, h32, h32]
    rfl

/-- An option is representable if its length byte announces its blocks. -/
theorem valid_iff (o : TcpOption) : codec.Valid o ↔ o.WellFormed := by
  cases o with
  | SAck length value =>
    constructor
    · rintro ⟨-, ⟨-, hcount, -⟩, -⟩ _ _ ⟨⟩
      exact sackCount_eq_ok.mp hcount
    · intro h
      have hcount := sackCount_eq_ok.mpr (h length value rfl)
      exact ⟨trivial, ⟨trivial, hcount, fun _ _ => ⟨trivial, trivial⟩⟩, rfl⟩
  | EOL => exact ⟨fun _ => nofun, fun _ => ⟨trivial, rfl⟩⟩
  | NOP => exact ⟨fun _ => nofun, fun _ => ⟨trivial, rfl⟩⟩
  | MSS length value => exact ⟨fun _ => nofun, fun _ => ⟨trivial, ⟨trivial, trivial⟩, rfl⟩⟩
  | WScale length value => exact ⟨fun _ => nofun, fun _ => ⟨trivial, ⟨trivial, trivial⟩, rfl⟩⟩
  | SAckOK length => exact ⟨fun _ => nofun, fun _ => ⟨trivial, trivial, rfl⟩⟩
  | Timestamp length value =>
    exact ⟨fun _ => nofun, fun _ => ⟨trivial, ⟨trivial, trivial, trivial⟩, rfl⟩⟩

/-- What an option is encoded as: it can be read back exactly when it is well formed. -/
theorem encodes_iff {o : TcpOption} {chunk : Bytes} :
    codec.Encodes o chunk ↔ o.WellFormed ∧ chunk = o.bytes := by
  rw [Codec.Encodes, valid_iff, write_eq, Except.ok.injEq]
  constructor
  · rintro ⟨h, hbits⟩
    exact ⟨h, (toBits_inj hbits).symm⟩
  · rintro ⟨h, rfl⟩
    exact ⟨h, rfl⟩

omit [Deku] in
theorem WellFormed.shape {o : TcpOption} (h : o.WellFormed) : Shape o.bytes := by
  cases o with
  | EOL => exact .EOL
  | NOP => exact .NOP
  | MSS length value => exact .MSS (by rw [List.length_cons, length_be16])
  | WScale length value => exact .WScale rfl
  | SAckOK length => exact .SAckOK rfl
  | SAck length value =>
    obtain ⟨htwo, hlen⟩ := h length value rfl
    exact .SAck htwo (by rw [SAckData.length_vecBytes, hlen])
  | Timestamp length value =>
    exact .Timestamp (by rw [List.length_cons, List.length_append, length_be32, length_be32])

/-- **The grammar is that of the codec.** -/
theorem shape_iff {chunk : Bytes} : Shape chunk ↔ ∃ o, codec.Encodes o chunk := by
  constructor
  · intro h
    have hplain : ∀ {o : TcpOption}, (∀ length value, o ≠ SAck length value) →
        codec.Encodes o o.bytes := by
      intro o ho
      exact encodes_iff.mpr ⟨fun length value hsack => absurd hsack (ho length value), rfl⟩
    cases h with
    | EOL => exact ⟨EOL, hplain nofun⟩
    | NOP => exact ⟨NOP, hplain nofun⟩
    | @MSS v hv =>
      obtain ⟨length, x, y, rfl⟩ := List.length_eq_three.mp hv
      obtain ⟨value, hvalue⟩ := exists_be (w := 16) (k := 2) (by decide) [x, y] rfl
      rw [← hvalue]
      exact ⟨MSS length value, hplain nofun⟩
    | @WScale v hv =>
      obtain ⟨length, value, rfl⟩ := List.length_eq_two.mp hv
      exact ⟨WScale length value, hplain nofun⟩
    | @SAckOK v hv =>
      obtain ⟨length, rfl⟩ := List.length_eq_one_iff.mp hv
      exact ⟨SAckOK length, hplain nofun⟩
    | @SAck n v hn hv =>
      obtain ⟨value, hlen, rfl⟩ := SAckData.exists_vecBytes hv
      refine ⟨SAck n value, encodes_iff.mpr ⟨?_, rfl⟩⟩
      rintro _ _ ⟨⟩
      exact ⟨hn, hlen.symm⟩
    | @Timestamp v hv =>
      match v, hv with
      | length :: w, hw =>
        have hlen : w.length = 8 := Nat.succ.inj hw
        obtain ⟨d, rfl⟩ := SAckData.exists_bytes hlen
        exact ⟨Timestamp length ⟨d.begin_, d.end_⟩, hplain nofun⟩
  · rintro ⟨o, ho⟩
    obtain ⟨hwf, rfl⟩ := encodes_iff.mp ho
    exact hwf.shape

/-- Chunks of the right shape are those of a list of options. -/
theorem forall_shape_iff {chunks : List Bytes} :
    (∀ chunk ∈ chunks, Shape chunk) ↔ ∃ options, List.Forall₂ codec.Encodes options chunks :=
  Codec.forall_shape_iff fun _ => shape_iff

/-- Options are written one after the other. -/
theorem writeVec_eq : ∀ options : List TcpOption,
    codec.writeVec options = .ok (toBits (options.flatMap bytes))
  | [] => rfl
  | o :: options => Codec.writeVec_cons_eq_ok.mpr
      ⟨_, _, write_eq o, writeVec_eq options, toBits_append o.bytes (options.flatMap bytes)⟩

/-! Each variant but `SAck` accepts any bytes, as long as there are enough of them. -/

omit [Deku] in
theorem total_mss : mss.Total (8 * 3) :=
  Codec.Total.seq (k := 8) (m := 16) Codec.total_uint fun _ => Codec.total_uint

omit [Deku] in
theorem total_wscale : wscale.Total (8 * 2) :=
  Codec.Total.seq (k := 8) (m := 8) Codec.total_uint fun _ => Codec.total_uint

omit [Deku] in
theorem total_timestamp : timestamp.Total (8 * 9) :=
  Codec.Total.seq (k := 8) (m := 64) Codec.total_uint fun _ =>
    (Codec.Total.seq (k := 32) (m := 32) Codec.total_uint fun _ => Codec.total_uint).iso

omit [Deku] in
/-- Any bytes are blocks, if there are enough of them. -/
theorem total_blocks (n : Nat) : (SAckData.codec.count (.ok n)).Total (8 * (8 * n)) := by
  rw [← Nat.mul_assoc]
  exact Codec.Total.count
    (Codec.Total.seq (k := 32) (m := 32) Codec.total_uint fun _ => Codec.total_uint).iso n

omit [Deku] in
/-- A selective acknowledgement that runs out of input lacks its length byte or some blocks. -/
theorem sack_exists_of_short {v : Bytes} (h : sack.read.Short (toBits v)) :
    ∃ missing, missing ≠ [] ∧ Shape (0x05 :: (v ++ missing)) := by
  cases v with
  | nil => exact ⟨[0x02], List.cons_ne_nil _ _, .SAck (by decide) rfl⟩
  | cons n w =>
    have hblocks : (SAckData.codec.count (sackCount n)).read.Short (toBits w) :=
      (Codec.seq_short_iff (Codec.read_octet n w)).mp h
    by_cases htwo : 2 ≤ n.toNat
    · rw [sackCount_eq_ok.mpr ⟨htwo, rfl⟩] at hblocks
      obtain ⟨missing, hne, hlen⟩ := (total_blocks _).exists_missing hblocks
      exact ⟨missing, hne, .SAck htwo hlen⟩
    · have herror : sackCount n = .error (.parse "overflow when parsing SAckData vec") := by
        rw [sackCount, checkedSub, if_neg htwo]
      rw [herror] at hblocks
      exact absurd hblocks Codec.not_short_count

/-- **An option that runs out of input can be completed**, if an unknown identifier is another
    error. -/
theorem exists_of_short (hvariant : ∀ enum id need, Deku.noVariant enum id ≠ .incomplete need)
    {tail : Bytes} (h : codec.read.Short (toBits tail)) :
    ∃ missing, missing ≠ [] ∧ Shape (tail ++ missing) := by
  cases tail with
  | nil => exact ⟨[0x00], List.cons_ne_nil _ _, .EOL⟩
  | cons i v =>
    have hv := (Codec.enum_short_iff (Codec.read_octet i v)).mp h
    unfold variant at hv
    split at hv
    · exact absurd hv Reader.not_short_pure
    · exact absurd hv Reader.not_short_pure
    · obtain ⟨missing, hne, hlen⟩ := total_mss.map.exists_missing hv
      exact ⟨missing, hne, .MSS hlen⟩
    · obtain ⟨missing, hne, hlen⟩ := total_wscale.map.exists_missing hv
      exact ⟨missing, hne, .WScale hlen⟩
    · obtain ⟨missing, hne, hlen⟩ := Codec.Total.exists_missing (k := 1) Codec.total_uint.map hv
      exact ⟨missing, hne, .SAckOK hlen⟩
    · exact sack_exists_of_short (Reader.short_map_iff.mp hv)
    · obtain ⟨missing, hne, hlen⟩ := total_timestamp.map.exists_missing hv
      exact ⟨missing, hne, .Timestamp hlen⟩
    · obtain ⟨need, hneed⟩ := hv
      exact absurd (Except.error.inj hneed) (hvariant _ _ need)

end TcpOption

/-! ## The header -/

namespace Tcp

/-- The data offset of a header: the high four bits of byte 12. -/
def dataOffset (input : Bytes) : Nat := (input.getD 12 0).toNat / 2 ^ 4

/-- The bytes between the fixed part of the header and its end. -/
def optionArea (input : Bytes) : Bytes := (input.take (4 * dataOffset input)).drop 20

/-- An offset has four bits. -/
theorem dataOffset_lt (input : Bytes) : dataOffset input < 16 := by
  have := (input.getD 12 0).isLt
  rw [dataOffset]
  omega

/-- It is the number that the four bits behind the first twelve bytes denote. -/
theorem dataOffset_eq {input : Bytes} (h : 12 < input.length) :
    dataOffset input = bitsNat (((toBits input).drop (8 * 12)).take 4) := by
  rw [drop_toBits, List.drop_eq_getElem_cons h, take_toBits_cons (m := 4) rfl, dataOffset,
    List.getD_eq_getElem _ _ h]

variable [Deku]

/-- Any twelve bits are flags. -/
theorem total_flags : TcpFlags.codec.Total 12 := by
  refine Codec.Total.iso (Codec.Total.seq (k := 3) (m := 9) (Codec.total_bits _) fun _ => ?_)
  refine Codec.Total.seq (k := 1) (m := 8) (Codec.total_bits _) fun _ => ?_
  refine Codec.Total.seq (k := 1) (m := 7) (Codec.total_bits _) fun _ => ?_
  refine Codec.Total.seq (k := 1) (m := 6) (Codec.total_bits _) fun _ => ?_
  refine Codec.Total.seq (k := 1) (m := 5) (Codec.total_bits _) fun _ => ?_
  refine Codec.Total.seq (k := 1) (m := 4) (Codec.total_bits _) fun _ => ?_
  refine Codec.Total.seq (k := 1) (m := 3) (Codec.total_bits _) fun _ => ?_
  refine Codec.Total.seq (k := 1) (m := 2) (Codec.total_bits _) fun _ => ?_
  exact Codec.Total.seq (k := 1) (m := 1) (Codec.total_bits _) fun _ => Codec.total_bits _

/-- Twenty bytes are the fixed part of some header, and what becomes of it is a matter of the
    options. -/
theorem read_leads {input : Bytes} (h : 20 ≤ input.length) :
    ∃ offset : BitVec 8, offset.toNat = dataOffset input ∧
      codec.read.Leads (toBits input)
        (TcpOption.codec.bytesRead (optionsSize offset) TcpOption.nonempty_codec).read
        (toBits (input.drop 20)) Tcp.options := by
  have hlen := length_toBits input
  have hdrop : ∀ n, 8 * 20 - n ≤ ((toBits input).drop n).length := by
    intro n
    rw [List.length_drop]
    omega
  obtain ⟨sport, h₁⟩ := Codec.total_uint (w := 16) (toBits input) (by omega)
  obtain ⟨dport, h₂⟩ := Codec.total_uint (w := 16) _ (Nat.le_trans (by decide) (hdrop 16))
  rw [List.drop_drop] at h₂
  obtain ⟨seq, h₃⟩ := Codec.total_uint (w := 32) _ (Nat.le_trans (by decide) (hdrop 32))
  rw [List.drop_drop] at h₃
  obtain ⟨ack, h₄⟩ := Codec.total_uint (w := 32) _ (Nat.le_trans (by decide) (hdrop 64))
  rw [List.drop_drop] at h₄
  obtain ⟨offset, h₅, hoffset⟩ := Codec.read_bits (n := 4) (w := 8) rfl
    (Nat.le_trans (by decide) (hdrop 96))
  rw [List.drop_drop] at h₅
  obtain ⟨flags, h₆⟩ := total_flags _ (Nat.le_trans (by decide) (hdrop 100))
  rw [List.drop_drop] at h₆
  obtain ⟨window, h₇⟩ := Codec.total_uint (w := 16) _ (Nat.le_trans (by decide) (hdrop 112))
  rw [List.drop_drop] at h₇
  obtain ⟨checksum, h₈⟩ := Codec.total_uint (w := 16) _ (Nat.le_trans (by decide) (hdrop 128))
  rw [List.drop_drop] at h₈
  obtain ⟨urgptr, h₉⟩ := Codec.total_uint (w := 16) _ (Nat.le_trans (by decide) (hdrop 144))
  rw [List.drop_drop, drop_toBits 20] at h₉
  refine ⟨offset, ?_, ?_⟩
  · rw [hoffset, dataOffset_eq (by omega)]
  · refine Codec.leads_iso ?_
    refine Codec.leads_seq h₁ (Codec.leads_seq h₂ (Codec.leads_seq h₃ (Codec.leads_seq h₄ ?_)))
    refine Codec.leads_seq h₅ (Codec.leads_seq h₆ (Codec.leads_seq h₇ (Codec.leads_seq h₈ ?_)))
    exact Codec.leads_seq h₉ (.refl _ _)

omit [Deku] in
/-- The bytes of a header behind its first twenty are options. -/
theorem optionsSize_of_le {offset : BitVec 8} (h5 : 5 ≤ offset.toNat) (h16 : offset.toNat < 16) :
    optionsSize offset = .ok (4 * (offset.toNat - 5)) :=
  optionsSize_eq_ok.mpr ⟨h5, rfl, by omega⟩

omit [Deku] in
/-- A header of less than 20 bytes is refused. -/
theorem optionsSize_of_lt {offset : BitVec 8} (h : offset.toNat < 5) :
    optionsSize offset = .error (.parse "error: invalid tcp offset") := by
  rw [optionsSize, checkedSub, if_neg (by omega), Option.bind_none]

/-- Twenty bytes and those of the options. -/
theorem length_toBytes_eq {tcp : Tcp} {bytes : Bytes} (h : tcp.toBytes = .ok bytes) :
    bytes.length = 20 + (tcp.options.flatMap TcpOption.bytes).length := by
  obtain ⟨z, hz, hlen⟩ := length_toBytes h
  obtain rfl := Except.ok.inj ((TcpOption.writeVec_eq tcp.options).symm.trans hz)
  rw [length_toBits] at hlen
  omega

/-- The data offset that a receiver reads is the one that was written. -/
theorem dataOffset_toBytes {tcp : Tcp} {bytes : Bytes} (h : tcp.toBytes = .ok bytes)
    (tail : Bytes) : dataOffset (bytes ++ tail) = nibble tcp.offset := by
  have h20 : 12 < (bytes ++ tail).length := by
    have := length_toBytes_eq h
    rw [List.length_append]
    omega
  obtain ⟨u, hu, rfl⟩ := derivedToBytes_eq_ok.mp h
  have hbits : toBits (pack u ++ tail) = u ++ toBits tail := by
    rw [toBits_append, toBits_pack (aligned_codec tcp u hu)]
  obtain ⟨o, f, z, ho, -, -, rfl⟩ := write_eq_ok.mp hu
  have ho4 := Codec.length_writeBits ho
  -- The ports and the two numbers are twelve bytes, and the offset comes next.
  have hfront : (natBits 16 tcp.sport.toNat ++ natBits 16 tcp.dport.toNat ++
      natBits 32 tcp.seq.toNat ++ natBits 32 tcp.ack.toNat).length = 8 * 12 := by
    simp only [List.length_append, length_natBits]
  have hsplit : natBits 16 tcp.sport.toNat ++ (natBits 16 tcp.dport.toNat ++
      (natBits 32 tcp.seq.toNat ++ (natBits 32 tcp.ack.toNat ++ ((o ++ f) ++
      (natBits 16 tcp.window.toNat ++ (natBits 16 tcp.checksum.toNat ++
      (natBits 16 tcp.urgptr.toNat ++ z))))))) ++ toBits tail =
      (natBits 16 tcp.sport.toNat ++ natBits 16 tcp.dport.toNat ++ natBits 32 tcp.seq.toNat ++
        natBits 32 tcp.ack.toNat) ++ (o ++ (f ++ (natBits 16 tcp.window.toNat ++
        (natBits 16 tcp.checksum.toNat ++ (natBits 16 tcp.urgptr.toNat ++ (z ++ toBits tail)))))) := by
    simp only [List.append_assoc]
  rw [dataOffset_eq h20, hbits, nibble, ho, hsplit, List.drop_left' hfront, List.take_left' ho4]

/-- A data offset below five is refused as soon as the fixed part is there. -/
theorem parse_of_offset_lt {input : Bytes} (h20 : 20 ≤ input.length) (h5 : dataOffset input < 5) :
    parse input = .error (.parse (Deku.display (.parse "error: invalid tcp offset"))) := by
  obtain ⟨offset, hoffset, hleads⟩ := read_leads h20
  rw [optionsSize_of_lt (by omega)] at hleads
  exact derivedParse_eq_error.mpr ⟨_, hleads.error_iff.mpr rfl, rfl⟩

/-- What is accepted has a fixed part and an offset of at least five. -/
theorem le_of_parse {input rest : Bytes} {tcp : Tcp} (h : parse input = .ok (rest, tcp)) :
    20 ≤ input.length ∧ 5 ≤ dataOffset input := by
  have h20 : 20 ≤ input.length := by
    obtain ⟨-, -, bytes, hbytes, rfl⟩ := (derivedParse_eq_ok aligned_codec).mp h
    obtain ⟨z, -, hlen⟩ := length_toBytes hbytes
    rw [List.length_append]
    omega
  refine ⟨h20, Nat.le_of_not_lt fun h5 => ?_⟩
  rw [parse_of_offset_lt h20 h5] at h
  cases h

/-- **What is accepted behind the fixed part**: an area that splits into the chunks of the
    options. -/
theorem parse_options_iff {input rest : Bytes} {options : List TcpOption} (h20 : 20 ≤ input.length)
    (h5 : 5 ≤ dataOffset input) :
    (∃ tcp, parse input = .ok (rest, tcp) ∧ tcp.options = options) ↔
      4 * dataOffset input ≤ input.length ∧ rest = input.drop (4 * dataOffset input) ∧
        ∃ chunks, List.Forall₂ TcpOption.codec.Encodes options chunks ∧
          chunks.flatten = optionArea input := by
  obtain ⟨offset, hoffset, hleads⟩ := read_leads h20
  have h16 := dataOffset_lt input
  rw [optionsSize_of_le (by omega) (by omega), hoffset] at hleads
  have hend : 20 + 4 * (dataOffset input - 5) = 4 * dataOffset input := by omega
  rw [optionArea, ← hend]
  exact derivedParse_list_eq_ok aligned_codec TcpOption.aligned_codec h20 hleads

/-- A whole header is accepted when its option area splits into options. -/
theorem parse_ok_iff {input : Bytes} (h5 : 5 ≤ dataOffset input)
    (hlen : 4 * dataOffset input ≤ input.length) :
    (∃ rest tcp, parse input = .ok (rest, tcp)) ↔
      ∃ chunks : List Bytes, (∀ chunk ∈ chunks, TcpOption.Shape chunk) ∧
        chunks.flatten = optionArea input := by
  have h20 : 20 ≤ input.length := by omega
  constructor
  · rintro ⟨rest, tcp, h⟩
    obtain ⟨-, -, chunks, hchunks, hflat⟩ := (parse_options_iff h20 h5).mp ⟨tcp, h, rfl⟩
    exact ⟨chunks, TcpOption.forall_shape_iff.mpr ⟨_, hchunks⟩, hflat⟩
  · rintro ⟨chunks, hshape, hflat⟩
    obtain ⟨options, hchunks⟩ := TcpOption.forall_shape_iff.mp hshape
    obtain ⟨tcp, h, -⟩ := (parse_options_iff h20 h5).mpr ⟨hlen, rfl, chunks, hchunks, hflat⟩
    exact ⟨_, tcp, h⟩

/-- The chunks of options are their bytes. -/
theorem forall₂_encodes_iff {options : List TcpOption} {chunks : List Bytes} :
    List.Forall₂ TcpOption.codec.Encodes options chunks ↔
      (∀ o ∈ options, o.WellFormed) ∧ chunks = options.map TcpOption.bytes := by
  induction options generalizing chunks with
  | nil =>
    rw [List.forall₂_nil_left_iff]
    exact ⟨fun h => ⟨fun o ho => absurd ho List.not_mem_nil, h⟩, fun h => h.2⟩
  | cons o options ih =>
    rw [List.forall₂_cons_left_iff, List.forall_mem_cons, List.map_cons]
    constructor
    · rintro ⟨chunk, rest, ho, hrest, rfl⟩
      obtain ⟨hwf, rfl⟩ := TcpOption.encodes_iff.mp ho
      obtain ⟨hall, rfl⟩ := ih.mp hrest
      exact ⟨⟨hwf, hall⟩, rfl⟩
    · rintro ⟨⟨hwf, hall⟩, rfl⟩
      exact ⟨_, _, TcpOption.encodes_iff.mpr ⟨hwf, rfl⟩, ih.mpr ⟨hall, rfl⟩, rfl⟩

/-- The parsed options are well formed, and their bytes are the option area. -/
theorem area_of_parse {input rest : Bytes} {tcp : Tcp} (h : parse input = .ok (rest, tcp)) :
    (∀ o ∈ tcp.options, o.WellFormed) ∧ tcp.options.flatMap TcpOption.bytes = optionArea input := by
  obtain ⟨h20, h5⟩ := le_of_parse h
  obtain ⟨-, -, chunks, hchunks, hflat⟩ := (parse_options_iff h20 h5).mp ⟨tcp, h, rfl⟩
  obtain ⟨hwf, rfl⟩ := forall₂_encodes_iff.mp hchunks
  exact ⟨hwf, hflat⟩

/-- The option area of a parsed header splits into the bytes of its options, and in no other way. -/
theorem splits_iff_of_parse {input rest : Bytes} {tcp : Tcp} (h : parse input = .ok (rest, tcp))
    {chunks : List Bytes} :
    ((∀ chunk ∈ chunks, TcpOption.Shape chunk) ∧ chunks.flatten = optionArea input) ↔
      chunks = tcp.options.map TcpOption.bytes := by
  obtain ⟨h20, h5⟩ := le_of_parse h
  constructor
  · -- Another split would make the parser return other options.
    rintro ⟨hshape, hflat⟩
    obtain ⟨hlen, hrest, -⟩ := (parse_options_iff h20 h5).mp ⟨tcp, h, rfl⟩
    obtain ⟨options, hchunks⟩ := TcpOption.forall_shape_iff.mp hshape
    obtain ⟨tcp', h', rfl⟩ := (parse_options_iff h20 h5).mpr ⟨hlen, hrest, chunks, hchunks, hflat⟩
    obtain rfl := (Prod.mk.inj (Except.ok.inj (h.symm.trans h'))).2
    exact (forall₂_encodes_iff.mp hchunks).2
  · rintro rfl
    obtain ⟨hwf, harea⟩ := area_of_parse h
    exact ⟨TcpOption.forall_shape_iff.mpr ⟨_, forall₂_encodes_iff.mpr ⟨hwf, rfl⟩⟩, harea⟩

/-- **Tcp::parse accepts exactly its grammar.** -/
theorem accepts_tcpGrammar (input : Bytes) :
    ((∃ rest tcp, parse input = .ok (rest, tcp)) ↔
      20 ≤ input.length ∧ 5 ≤ dataOffset input ∧ 4 * dataOffset input ≤ input.length ∧
        ∃ chunks : List Bytes, (∀ chunk ∈ chunks, TcpOption.Shape chunk) ∧
          chunks.flatten = optionArea input) ∧
    (∀ rest tcp, parse input = .ok (rest, tcp) →
      rest = input.drop (4 * dataOffset input) ∧
      ∀ chunks : List Bytes,
        ((∀ chunk ∈ chunks, TcpOption.Shape chunk) ∧ chunks.flatten = optionArea input) ↔
          chunks = tcp.options.map TcpOption.bytes) ∧
    (20 ≤ input.length → dataOffset input < 5 →
      parse input = .error (.parse (Deku.display (.parse "error: invalid tcp offset")))) := by
  refine ⟨⟨?_, ?_⟩, ?_, parse_of_offset_lt⟩
  · rintro ⟨rest, tcp, h⟩
    obtain ⟨h20, h5⟩ := le_of_parse h
    obtain ⟨hlen, -⟩ := (parse_options_iff h20 h5).mp ⟨tcp, h, rfl⟩
    exact ⟨h20, h5, hlen, (parse_ok_iff h5 hlen).mp ⟨rest, tcp, h⟩⟩
  · rintro ⟨-, h5, hlen, hsplit⟩
    exact (parse_ok_iff h5 hlen).mpr hsplit
  · intro rest tcp h
    obtain ⟨h20, h5⟩ := le_of_parse h
    obtain ⟨-, hrest, -⟩ := (parse_options_iff h20 h5).mp ⟨tcp, h, rfl⟩
    exact ⟨hrest, fun chunks => splits_iff_of_parse h⟩

end Tcp

end Nata
