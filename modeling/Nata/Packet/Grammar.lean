/-
  Which inputs are packets, and how they split into layers.

  A frame is described by its bytes alone.  `Front t input n` says that the input starts with a header
  of type `t`, of `n` bytes; `selected t input` is the type that the header names for what follows,
  read from the two bytes behind the addresses, the byte of the protocol, or the byte of the next
  header.  `Frames t input parts` chains the two until the input is used up.

  `accepts_frames`: with the default bindings `parse_packet` accepts exactly these inputs, the split
  into parts is unique, and the parts are the types and the bytes of the layers of the packet.

  No header says of itself where the packet ends, and no version, length or checksum is looked at; the
  only things that can go wrong are too few bytes, a Tcp offset below five, and options that do not
  fill their area.
-/
import Nata.Layer.Ip.Grammar
import Nata.Layer.Tcp.Grammar
import Nata.Packet.Extension
import Nata.Packet.Lossless
import Nata.Packet.Sent

namespace Nata

/-! ## Formats of a fixed size -/

section Derived

variable [Deku] {α : Type}

/-- A format of `k` bytes that accepts any of them. -/
theorem derivedParse_total {c : Field α} {k : Nat} (hs : c.Sized (8 * k)) (ht : c.Total (8 * k))
    {input rest : Bytes} :
    (∃ l, derivedParse c input = .ok (rest, l)) ↔ k ≤ input.length ∧ rest = input.drop k := by
  have hal : c.Aligned 8 := hs.aligned (Nat.dvd_mul_right 8 k)
  constructor
  · rintro ⟨l, h⟩
    obtain ⟨-, -, bytes, hbytes, rfl⟩ := (derivedParse_eq_ok hal).mp h
    obtain rfl := length_derivedToBytes (k := k) hs hbytes
    rw [List.length_append, List.drop_left]
    exact ⟨Nat.le_add_right _ _, rfl⟩
  · rintro ⟨hlen, rfl⟩
    obtain ⟨l, hread⟩ := ht (toBits input) (by rw [length_toBits]; omega)
    rw [drop_toBits] at hread
    exact ⟨l, (derivedParse_eq_ok_iff_read hal).mpr hread⟩

end Derived

/-- The bytes behind the first ones. -/
theorem getD_append {xs ys : Bytes} {n : Nat} (h : xs.length = n) (i : Nat) :
    (xs ++ ys).getD (n + i) 0 = ys.getD i 0 := by
  rw [← h, List.getD_eq_getElem?_getD, getElem?_length_add, ← List.getD_eq_getElem?_getD]

/-- The byte behind `k` others, in bits. -/
theorem getD_pack {as : Bits} {k : Nat} (h : as.length = 8 * k) (x : BitVec 8) (bs : Bits)
    (rest : Bytes) :
    (pack (as ++ (natBits 8 x.toNat ++ bs)) ++ rest).getD k 0 = x := by
  rw [pack_append (h ▸ Nat.dvd_mul_right 8 k), pack_natBits_append x _ (by decide), be8_eq,
    List.append_assoc]
  exact getD_append (length_pack_of_length h) 0

/-! ## What a header is, and what it names -/

/-- The input starts with a header of this type and of `n` bytes. -/
def Front (t : LayerType) (input : Bytes) (n : Nat) : Prop :=
  match t with
  | .Ether => n = 14 ∧ n ≤ input.length
  | .Ipv4 => n = Ipv4.headerSize input ∧ n ≤ input.length ∧
      ∃ chunks : List Bytes, (∀ chunk ∈ chunks, Ipv4Option.Shape chunk) ∧
        chunks.flatten = Ipv4.optionArea input
  | .Ipv6 => n = 40 ∧ n ≤ input.length
  | .Tcp => n = 4 * Tcp.dataOffset input ∧ n ≤ input.length ∧ 5 ≤ Tcp.dataOffset input ∧
      ∃ chunks : List Bytes, (∀ chunk ∈ chunks, TcpOption.Shape chunk) ∧
        chunks.flatten = Tcp.optionArea input
  | .Udp => n = 8 ∧ n ≤ input.length
  | .Icmp4 => n = input.length ∧ 8 ≤ n
  | .Raw => n = input.length

/-- The type that the header at the front names for what follows, if it names one. -/
def selected (t : LayerType) (input : Bytes) : Option LayerType :=
  match t with
  | .Ether =>
    if input.getD 12 0 = 0x08 ∧ input.getD 13 0 = 0x00 then some .Ipv4
    else if input.getD 12 0 = 0x86 ∧ input.getD 13 0 = 0xdd then some .Ipv6
    else some .Raw
  | .Ipv4 =>
    if input.getD 9 0 = 6 then some .Tcp
    else if input.getD 9 0 = 17 then some .Udp
    else if input.getD 9 0 = 1 then some .Icmp4
    else some .Raw
  | .Ipv6 =>
    if input.getD 6 0 = 6 then some .Tcp
    else if input.getD 6 0 = 17 then some .Udp
    else some .Raw
  | .Tcp | .Udp => some .Raw
  | .Icmp4 | .Raw => none

/-- The input is one header behind the other, from this type on, and these are its parts. -/
inductive Frames : LayerType → Bytes → List (LayerType × Bytes) → Prop
  | last {t input} : Front t input input.length → Frames t input [(t, input)]
  | more {t t' input n parts} : Front t input n → n < input.length → selected t input = some t' →
      Frames t' (input.drop n) parts → Frames t input ((t, input.take n) :: parts)

/-- A header has one size. -/
theorem Front.unique {t : LayerType} {input : Bytes} {n m : Nat} (h : Front t input n)
    (h' : Front t input m) : n = m := by
  cases t with
  | Ether => exact h.1.trans h'.1.symm
  | Ipv4 => exact h.1.trans h'.1.symm
  | Ipv6 => exact h.1.trans h'.1.symm
  | Tcp => exact h.1.trans h'.1.symm
  | Udp => exact h.1.trans h'.1.symm
  | Icmp4 => exact h.1.trans h'.1.symm
  | Raw => exact h.trans h'.symm

/-- A header is no larger than the input. -/
theorem Front.le {t : LayerType} {input : Bytes} {n : Nat} (h : Front t input n) :
    n ≤ input.length := by
  cases t with
  | Ether => exact h.2
  | Ipv4 => exact h.2.1
  | Ipv6 => exact h.2
  | Tcp => exact h.2.1
  | Udp => exact h.2
  | Icmp4 => exact Nat.le_of_eq h.1
  | Raw => exact Nat.le_of_eq h

/-- A header that names what follows is not empty. -/
theorem Front.pos {t t' : LayerType} {input : Bytes} {n : Nat} (h : Front t input n)
    (hsel : selected t input = some t') : 0 < n := by
  cases t with
  | Ether =>
    have := h.1
    omega
  | Ipv4 =>
    have hsize := h.1
    rw [Ipv4.headerSize] at hsize
    omega
  | Ipv6 =>
    have := h.1
    omega
  | Tcp =>
    obtain ⟨hsize, -, h5, -⟩ := h
    omega
  | Udp =>
    have := h.1
    omega
  | Icmp4 | Raw => cases hsel

/-- A header that names nothing takes all of the input. -/
theorem Front.eq_length {t : LayerType} {input : Bytes} {n : Nat} (h : Front t input n)
    (hsel : selected t input = none) : n = input.length := by
  cases t with
  | Icmp4 => exact h.1
  | Raw => exact h
  | Tcp | Udp => cases hsel
  | Ether | Ipv4 | Ipv6 =>
    simp only [selected] at hsel
    split_ifs at hsel

/-- There is one way to split an input. -/
theorem Frames.unique {t : LayerType} {input : Bytes} {parts parts' : List (LayerType × Bytes)}
    (h : Frames t input parts) (h' : Frames t input parts') : parts = parts' := by
  induction h generalizing parts' with
  | last hfront =>
    rcases h' with _ | ⟨hfront', hlt, -, -⟩
    · rfl
    · exact absurd (hfront.unique hfront') (Nat.ne_of_gt hlt)
  | more hfront hlt hsel _ ih =>
    rcases h' with hfront' | ⟨hfront', -, hsel', hparts⟩
    · exact absurd (hfront'.unique hfront) (Nat.ne_of_gt hlt)
    · obtain rfl := hfront.unique hfront'
      obtain rfl := Option.some.inj (hsel.symm.trans hsel')
      rw [ih hparts]

/-! ## The identifiers -/

/-- The Ethernet types that lead to an IP layer are two numbers. -/
theorem EtherType.nextType_of_valid {etherType : EtherType} (h : codec.Valid etherType) :
    etherType.nextType = if etherType.id = 0x0800 then .Ipv4
      else if etherType.id = 0x86dd then .Ipv6 else .Raw := by
  have hof : EtherType.ofId etherType.id = etherType := h.2
  by_cases h4 : etherType.id = 0x0800
  · rw [if_pos h4, ← hof, h4]
    decide +kernel
  · by_cases h6 : etherType.id = 0x86dd
    · rw [if_neg h4, if_pos h6, ← hof, h6]
      decide +kernel
    · rw [if_neg h4, if_neg h6]
      unfold nextType
      split
      · exact absurd rfl h4
      · exact absurd rfl h6
      · rfl

/-- The protocols that lead from Ipv4 to a layer are three numbers. -/
theorem IpProtocol.nextType4_of_valid {protocol : IpProtocol} (h : codec.Valid protocol) :
    protocol.nextType4 = if protocol.id = 6 then .Tcp else if protocol.id = 17 then .Udp
      else if protocol.id = 1 then .Icmp4 else .Raw := by
  have hof : IpProtocol.ofId protocol.id = protocol := h.2
  by_cases h6 : protocol.id = 6
  · rw [if_pos h6, ← hof, h6]
    decide +kernel
  · by_cases h17 : protocol.id = 17
    · rw [if_neg h6, if_pos h17, ← hof, h17]
      decide +kernel
    · by_cases h1 : protocol.id = 1
      · rw [if_neg h6, if_neg h17, if_pos h1, ← hof, h1]
        decide +kernel
      · rw [if_neg h6, if_neg h17, if_neg h1]
        unfold nextType4
        split
        · exact absurd rfl h6
        · exact absurd rfl h17
        · exact absurd rfl h1
        · rfl

/-- From Ipv6 they are two. -/
theorem IpProtocol.nextType6_of_valid {protocol : IpProtocol} (h : codec.Valid protocol) :
    protocol.nextType6 = if protocol.id = 6 then .Tcp else if protocol.id = 17 then .Udp
      else .Raw := by
  have hof : IpProtocol.ofId protocol.id = protocol := h.2
  by_cases h6 : protocol.id = 6
  · rw [if_pos h6, ← hof, h6]
    decide +kernel
  · by_cases h17 : protocol.id = 17
    · rw [if_neg h6, if_pos h17, ← hof, h17]
      decide +kernel
    · rw [if_neg h6, if_neg h17]
      unfold nextType6
      split
      · exact absurd rfl h6
      · exact absurd rfl h17
      · rfl

/-- A word by its two bytes. -/
theorem word_eq_iff {v : BitVec 16} {a b : BitVec 8} :
    BitVec.ofNat 8 (v.toNat / 2 ^ 8) = a ∧ BitVec.ofNat 8 v.toNat = b ↔
      v.toNat = a.toNat * 2 ^ 8 + b.toNat := by
  have hv := v.isLt
  have ha := a.isLt
  have hb := b.isLt
  rw [BitVec.toNat_eq, BitVec.toNat_eq, BitVec.toNat_ofNat, BitVec.toNat_ofNat]
  omega

/-! ## One header -/

section

variable [Deku]

omit [Deku] in
theorem EtherType.total_codec : EtherType.codec.Total 16 := NamedCodes.total_codec

omit [Deku] in
theorem Ether.total_codec : Ether.codec.Total (8 * 14) := by
  have hmac : MacAddress.codec.Total (8 * 6) := (Codec.Total.array Codec.total_uint 6).iso
  refine Codec.Total.iso (Codec.Total.seq (k := 48) (m := 64) hmac fun _ => ?_)
  exact Codec.Total.seq (k := 48) (m := 16) hmac fun _ => EtherType.total_codec

omit [Deku] in
theorem Udp.total_codec : Udp.codec.Total (8 * 8) := by
  refine Codec.Total.iso (Codec.Total.seq (k := 16) (m := 48) Codec.total_uint fun _ => ?_)
  refine Codec.Total.seq (k := 16) (m := 32) Codec.total_uint fun _ => ?_
  exact Codec.Total.seq (k := 16) (m := 16) Codec.total_uint fun _ => Codec.total_uint

theorem Ipv6.total_codec : Ipv6.codec.Total (8 * 40) := by
  refine Codec.Total.iso (Codec.Total.seq (k := 4) (m := 316) (Codec.total_bits _) fun _ => ?_)
  refine Codec.Total.seq (k := 6) (m := 310) (Codec.total_bits _) fun _ => ?_
  refine Codec.Total.seq (k := 2) (m := 308) (Codec.total_bits _) fun _ => ?_
  refine Codec.Total.seq (k := 20) (m := 288) (Codec.total_bits _) fun _ => ?_
  refine Codec.Total.seq (k := 16) (m := 272) Codec.total_uint fun _ => ?_
  refine Codec.Total.seq (k := 8) (m := 264) IpProtocol.total_codec fun _ => ?_
  refine Codec.Total.seq (k := 8) (m := 256) Codec.total_uint fun _ => ?_
  exact Codec.Total.seq (k := 128) (m := 128) Codec.total_uint fun _ => Codec.total_uint

/-- The type field of an Ethernet header is at its end. -/
theorem Ether.nextType_of_parse {input rest : Bytes} {ether : Ether}
    (h : parse input = .ok (rest, ether)) :
    (Layer.ether ether).nextType = selected .Ether input := by
  obtain ⟨⟨-, -, hvalid⟩, -, bytes, hbytes, rfl⟩ :=
    (derivedParse_eq_ok (sized_codec.aligned (by decide))).mp h
  obtain ⟨u, hu, rfl⟩ := derivedToBytes_eq_ok.mp hbytes
  simp only [codec, Codec.write_iso] at hu
  obtain ⟨d, _, hd, h₁, rfl⟩ := Codec.write_seq_eq_ok.mp hu
  obtain ⟨s, t, hs, ht, rfl⟩ := Codec.write_seq_eq_ok.mp h₁
  obtain rfl : natBits 16 ether.etherType.id.toNat = t := Except.ok.inj ht
  have hd6 := MacAddress.sized_codec _ _ hd
  have hs6 := MacAddress.sized_codec _ _ hs
  have hbytes : pack (d ++ (s ++ natBits 16 ether.etherType.id.toNat)) ++ rest =
      pack d ++ pack s ++ (be ether.etherType.id ++ rest) := by
    rw [pack_append (hd6 ▸ by decide), pack_append (hs6 ▸ by decide), List.append_assoc,
      List.append_assoc, List.append_assoc]
    rfl
  have h12 : (pack d ++ pack s).length = 12 := by
    rw [List.length_append, length_pack_of_length (k := 6) hd6, length_pack_of_length (k := 6) hs6]
  have hword : ∀ a b : BitVec 8,
      ((pack d ++ pack s ++ (be ether.etherType.id ++ rest)).getD 12 0 = a ∧
        (pack d ++ pack s ++ (be ether.etherType.id ++ rest)).getD 13 0 = b) ↔
      ether.etherType.id.toNat = a.toNat * 2 ^ 8 + b.toNat := by
    intro a b
    rw [be16_eq, ← word_eq_iff, getD_append (i := 0) h12, getD_append (i := 1) h12]
    rfl
  have hipv4 := (hword 0x08 0x00).trans (BitVec.toNat_eq (y := 0x0800#16)).symm
  have hipv6 := (hword 0x86 0xdd).trans (BitVec.toNat_eq (y := 0x86dd#16)).symm
  rw [hbytes, selected, Layer.nextType, EtherType.nextType_of_valid hvalid]
  simp only [hipv4, hipv6, apply_ite some]
  rfl

/-- The protocol of an IPv4 header is its tenth byte. -/
theorem Ipv4.nextType_of_parse {input rest : Bytes} {ipv4 : Ipv4}
    (h : parse input = .ok (rest, ipv4)) :
    (Layer.ipv4 ipv4).nextType = selected .Ipv4 input := by
  obtain ⟨hvalid, -, bytes, hbytes, rfl⟩ := (derivedParse_eq_ok aligned_codec).mp h
  obtain ⟨-, -, -, -, -, -, -, -, -, hprotocol, -⟩ := hvalid
  obtain ⟨u, hu, rfl⟩ := derivedToBytes_eq_ok.mp hbytes
  simp only [codec, codecWith, Codec.write_iso] at hu
  obtain ⟨v, _, hv, h₁, rfl⟩ := Codec.write_seq_eq_ok.mp hu
  obtain ⟨i, _, hi, h₂, rfl⟩ := Codec.write_seq_eq_ok.mp h₁
  obtain ⟨d, _, hd, h₃, rfl⟩ := Codec.write_seq_eq_ok.mp h₂
  obtain ⟨e, _, he, h₄, rfl⟩ := Codec.write_seq_eq_ok.mp h₃
  obtain ⟨l, _, hl, h₅, rfl⟩ := Codec.write_seq_eq_ok.mp h₄
  obtain ⟨n, _, hn, h₆, rfl⟩ := Codec.write_seq_eq_ok.mp h₅
  obtain ⟨f, _, hf, h₇, rfl⟩ := Codec.write_seq_eq_ok.mp h₆
  obtain ⟨o, _, ho, h₈, rfl⟩ := Codec.write_seq_eq_ok.mp h₇
  obtain ⟨t, _, ht, h₉, rfl⟩ := Codec.write_seq_eq_ok.mp h₈
  obtain ⟨p, w, hp, -, rfl⟩ := Codec.write_seq_eq_ok.mp h₉
  obtain rfl : natBits 8 ipv4.protocol.id.toNat = p := Except.ok.inj hp
  have hlen : (v ++ i ++ d ++ e ++ l ++ n ++ f ++ o ++ t).length = 8 * 9 := by
    simp only [List.length_append, Codec.length_writeBits hv, Codec.length_writeBits hi,
      Codec.length_writeBits hd, Codec.length_writeBits he, Codec.length_writeBits hf,
      Codec.length_writeBits ho, Codec.sized_uint _ _ hl, Codec.sized_uint _ _ hn,
      Codec.sized_uint _ _ ht]
  have hbyte := getD_pack hlen ipv4.protocol.id w rest
  simp only [List.append_assoc] at hbyte
  rw [selected, hbyte, Layer.nextType, IpProtocol.nextType4_of_valid hprotocol]
  simp only [apply_ite some]

/-- The next header of an IPv6 header is its seventh byte. -/
theorem Ipv6.nextType_of_parse {input rest : Bytes} {ipv6 : Ipv6}
    (h : parse input = .ok (rest, ipv6)) :
    (Layer.ipv6 ipv6).nextType = selected .Ipv6 input := by
  obtain ⟨hvalid, -, bytes, hbytes, rfl⟩ :=
    (derivedParse_eq_ok (sized_codec.aligned (by decide))).mp h
  obtain ⟨-, -, -, -, -, hnext, -⟩ := hvalid
  obtain ⟨u, hu, rfl⟩ := derivedToBytes_eq_ok.mp hbytes
  simp only [codec, Codec.write_iso] at hu
  obtain ⟨v, _, hv, h₁, rfl⟩ := Codec.write_seq_eq_ok.mp hu
  obtain ⟨d, _, hd, h₂, rfl⟩ := Codec.write_seq_eq_ok.mp h₁
  obtain ⟨e, _, he, h₃, rfl⟩ := Codec.write_seq_eq_ok.mp h₂
  obtain ⟨f, _, hf, h₄, rfl⟩ := Codec.write_seq_eq_ok.mp h₃
  obtain ⟨l, _, hl, h₅, rfl⟩ := Codec.write_seq_eq_ok.mp h₄
  obtain ⟨p, w, hp, -, rfl⟩ := Codec.write_seq_eq_ok.mp h₅
  obtain rfl : natBits 8 ipv6.nextHeader.id.toNat = p := Except.ok.inj hp
  have hlen : (v ++ d ++ e ++ f ++ l).length = 8 * 6 := by
    simp only [List.length_append, Codec.length_writeBits hv, Codec.length_writeBits hd,
      Codec.length_writeBits he, Codec.length_writeBits hf, Codec.sized_uint _ _ hl]
  have hbyte := getD_pack hlen ipv6.nextHeader.id w rest
  simp only [List.append_assoc] at hbyte
  rw [selected, hbyte, Layer.nextType, IpProtocol.nextType6_of_valid hnext]
  simp only [apply_ite some]

/-- An Ipv4 header is accepted exactly where the grammar has one. -/
theorem Ipv4.front_iff {input rest : Bytes} :
    (∃ ipv4, parse input = .ok (rest, ipv4)) ↔ ∃ n, Front .Ipv4 input n ∧ rest = input.drop n := by
  constructor
  · rintro ⟨ipv4, h⟩
    obtain ⟨hlen, hrest, chunks, hchunks, hflat⟩ :=
      (parse_options_iff (le_of_parse h)).mp ⟨ipv4, h, rfl⟩
    exact ⟨_, ⟨rfl, hlen, chunks, Ipv4Option.forall_shape_iff.mpr ⟨_, hchunks⟩, hflat⟩, hrest⟩
  · rintro ⟨n, ⟨rfl, hlen, chunks, hshape, hflat⟩, rfl⟩
    have h20 : 20 ≤ input.length := by
      rw [headerSize] at hlen
      omega
    obtain ⟨options, hchunks⟩ := Ipv4Option.forall_shape_iff.mp hshape
    obtain ⟨ipv4, h, -⟩ := (parse_options_iff h20).mpr ⟨hlen, rfl, chunks, hchunks, hflat⟩
    exact ⟨ipv4, h⟩

theorem Tcp.front_iff {input rest : Bytes} :
    (∃ tcp, parse input = .ok (rest, tcp)) ↔ ∃ n, Front .Tcp input n ∧ rest = input.drop n := by
  constructor
  · rintro ⟨tcp, h⟩
    obtain ⟨h20, h5⟩ := le_of_parse h
    obtain ⟨hlen, hrest, -⟩ := (parse_options_iff h20 h5).mp ⟨tcp, h, rfl⟩
    exact ⟨_, ⟨rfl, hlen, h5, (parse_ok_iff h5 hlen).mp ⟨rest, tcp, h⟩⟩, hrest⟩
  · rintro ⟨n, ⟨rfl, hlen, h5, hsplit⟩, rfl⟩
    obtain ⟨rest, tcp, h⟩ := (parse_ok_iff h5 hlen).mpr hsplit
    obtain ⟨h20, -⟩ := le_of_parse h
    obtain ⟨-, rfl, -⟩ := (parse_options_iff h20 h5).mp ⟨tcp, h, rfl⟩
    exact ⟨tcp, h⟩

/-- A message is any eight bytes, and all that follows them. -/
theorem Icmp4.front_iff {input rest : Bytes} :
    (∃ icmp, parse input = .ok (rest, icmp)) ↔ ∃ n, Front .Icmp4 input n ∧ rest = input.drop n := by
  constructor
  · rintro ⟨icmp, h⟩
    obtain ⟨-, hrest, bytes, hbytes, rfl⟩ := (derivedParse_eq_ok aligned_codec).mp h
    obtain rfl := toBits_eq_nil_iff.mp hrest
    have hlen := length_toBytes hbytes
    refine ⟨_, ⟨rfl, ?_⟩, ?_⟩
    · rw [List.append_nil, hlen, cleared]
      simp only [List.length_append, length_be8, length_be16, length_be32]
      omega
    · rw [List.drop_length]
  · rintro ⟨n, ⟨rfl, h8⟩, rfl⟩
    rcases input with _ | ⟨a, _ | ⟨b, _ | ⟨c₁, _ | ⟨c₂, _ | ⟨m₁, _ | ⟨m₂, _ | ⟨m₃, _ | ⟨m₄, data⟩⟩⟩⟩⟩⟩⟩⟩
    iterate 8 exact absurd h8 (by simp)
    obtain ⟨sum, hsum⟩ := exists_be (w := 16) rfl [c₁, c₂] rfl
    obtain ⟨message, hmessage⟩ := exists_be (w := 32) rfl [m₁, m₂, m₃, m₄] rfl
    have hid : (IcmpType.ofId a).id = a := IcmpType.codes.id_ofId a
    have hvalid : IcmpType.codec.Valid (IcmpType.ofId a) :=
      ⟨trivial, congrArg IcmpType.ofId hid⟩
    refine ⟨⟨IcmpType.ofId a, b, sum, message, data⟩, (derivedParse_eq_ok aligned_codec).mpr
      ⟨⟨hvalid, trivial, trivial, trivial, fun _ _ => trivial⟩, ?_, _, toBytes_eq _, ?_⟩⟩
    · rw [List.drop_length]
      rfl
    · rw [hid, be8_eq, be8_eq, hsum, hmessage, List.drop_length, List.append_nil]
      rfl

/-- **What a header is** to the parser of its type. -/
theorem Layer.parse_front_iff {t : LayerType} {input rest : Bytes} :
    (∃ layer, Layer.parse t input = .ok (rest, layer)) ↔
      ∃ n, Front t input n ∧ rest = input.drop n := by
  have hbox : ∀ {α : Type} {box : α → Layer} {parse : Bytes → Except LayerError (Bytes × α)},
      (∃ layer, parseLayer box parse input = .ok (rest, layer)) ↔
        ∃ l, parse input = .ok (rest, l) := by
    intro α box parse
    simp only [parseLayer_eq_ok]
    constructor
    · rintro ⟨_, l, hl, -⟩
      exact ⟨l, hl⟩
    · rintro ⟨l, hl⟩
      exact ⟨_, l, hl, rfl⟩
  have hfixed : ∀ k, (k ≤ input.length ∧ rest = input.drop k) ↔
      ∃ n, (n = k ∧ n ≤ input.length) ∧ rest = input.drop n := by
    intro k
    constructor
    · rintro ⟨hk, hrest⟩
      exact ⟨k, ⟨rfl, hk⟩, hrest⟩
    · rintro ⟨n, ⟨rfl, hn⟩, hrest⟩
      exact ⟨hn, hrest⟩
  cases t with
  | Ether =>
    exact hbox.trans ((derivedParse_total (k := 14) Ether.sized_codec Ether.total_codec).trans
      (hfixed 14))
  | Ipv6 =>
    exact hbox.trans ((derivedParse_total (k := 40) Ipv6.sized_codec Ipv6.total_codec).trans
      (hfixed 40))
  | Udp =>
    exact hbox.trans ((derivedParse_total (k := 8) Udp.sized_codec Udp.total_codec).trans
      (hfixed 8))
  | Ipv4 => exact hbox.trans Ipv4.front_iff
  | Tcp => exact hbox.trans Tcp.front_iff
  | Icmp4 => exact hbox.trans Icmp4.front_iff
  | Raw =>
    constructor
    · rintro ⟨layer, h⟩
      obtain ⟨-, -, hrest, bytes, -, rfl⟩ := Layer.parse_eq_ok.mp h
      rw [hrest trivial, List.append_nil]
      exact ⟨_, rfl, List.drop_length.symm⟩
    · rintro ⟨n, rfl, rfl⟩
      rw [List.drop_length]
      exact ⟨.raw ⟨input, 0⟩, Layer.parse_eq_ok.mpr ⟨rfl, ⟨fun _ _ => trivial, rfl⟩, fun _ => rfl,
        input, Raw.toBytes_eq _, (List.append_nil _).symm⟩⟩

/-- The bindings go by the bytes of the header. -/
theorem Layer.nextType_of_parse {t : LayerType} {input rest : Bytes} {layer : Layer}
    (h : Layer.parse t input = .ok (rest, layer)) : layer.nextType = selected t input := by
  have htype : layer.typeId = t := (Layer.parse_eq_ok.mp h).1
  subst htype
  cases layer with
  | tcp | udp | icmp4 | raw => rfl
  | ether e =>
    obtain ⟨_, he, heq⟩ := parseLayer_eq_ok.mp h
    obtain rfl := Layer.ether.inj heq
    exact Ether.nextType_of_parse he
  | ipv4 v =>
    obtain ⟨_, hv, heq⟩ := parseLayer_eq_ok.mp h
    obtain rfl := Layer.ipv4.inj heq
    exact Ipv4.nextType_of_parse hv
  | ipv6 v =>
    obtain ⟨_, hv, heq⟩ := parseLayer_eq_ok.mp h
    obtain rfl := Layer.ipv6.inj heq
    exact Ipv6.nextType_of_parse hv

/-- The bytes of the header at the front are those of the layer. -/
theorem Layer.data_of_parse {t : LayerType} {input rest : Bytes} {layer : Layer}
    (h : Layer.parse t input = .ok (rest, layer)) :
    ∃ n, Front t input n ∧ layer.data = input.take n ∧ rest = input.drop n := by
  obtain ⟨n, hfront, hrest⟩ := Layer.parse_front_iff.mp ⟨layer, h⟩
  obtain ⟨-, -, -, bytes, hbytes, hin⟩ := Layer.parse_eq_ok.mp h
  refine ⟨n, hfront, ?_, hrest⟩
  have hsplit : bytes ++ rest = input.take n ++ rest := by
    rw [← hin, hrest, List.take_append_drop]
  rw [Layer.data_eq hbytes, List.append_cancel_right hsplit]

/-! ## All layers -/

namespace PacketParser

/-! `parse_packet` as a recursion over the layers. -/

/-- The first layer is refused. -/
theorem parseNew_of_error {t : LayerType} {input : Bytes} {e : LayerError}
    (h : Layer.parse t input = .error e) : parseNew t input = .error (.ofLayerError e) := by
  apply parses_new_iff.mp
  unfold Parses
  rw [h]

/-- The first layer is the last one. -/
theorem parseNew_of_end {t : LayerType} {input rest : Bytes} {layer : Layer}
    (h : Layer.parse t input = .ok (rest, layer)) (hend : rest = [] ∨ layer.nextType = none) :
    parseNew t input = .ok (rest, ⟨[layer]⟩) := by
  apply parses_new_iff.mp
  unfold Parses
  rw [h]
  apply Loop.Returns.stop
  rcases new.parseStep_cases ⟨rest, [], layer⟩ with ⟨_, _, _, hne, hnext, -⟩ |
    ⟨_, _, hne, hnext, -⟩ | ⟨-, hstep⟩
  · rw [nextLayerParser_new] at hnext
    rcases hend with hnil | hnone
    · exact absurd hnil hne
    · rw [hnone] at hnext
      cases hnext
  · rw [nextLayerParser_new] at hnext
    rcases hend with hnil | hnone
    · exact absurd hnil hne
    · rw [hnone] at hnext
      cases hnext
  · exact hstep

/-- There is another layer behind the first one. -/
theorem parseNew_of_next {t t' : LayerType} {input rest : Bytes} {layer : Layer}
    (h : Layer.parse t input = .ok (rest, layer)) (hrest : rest ≠ [])
    (hnext : layer.nextType = some t') :
    parseNew t input = prepend layer (parseNew t' rest) := by
  have hbound : new.nextLayerParser layer rest = some (Layer.parse t') := by
    rw [nextLayerParser_new, hnext]
    rfl
  exact parses_new_iff.mp ((parses_of_next h hrest hbound _).mpr
    ⟨_, parses_new_iff.mpr rfl, rfl⟩)

end PacketParser

/-- The part of the input that a layer is parsed from. -/
def Layer.part (layer : Layer) : LayerType × Bytes := (layer.typeId, layer.data)

/-- The layers of a packet split the input. -/
theorem frames_of_parseNew {t : LayerType} {input rest : Bytes} {packet : Packet Layer}
    (h : PacketParser.parseNew t input = .ok (rest, packet)) :
    Frames t input (packet.layers.map Layer.part) := by
  induction hlen : input.length using Nat.strong_induction_on generalizing t input packet with
  | _ k ih =>
    subst hlen
    cases hparse : Layer.parse t input with
    | error e =>
      rw [PacketParser.parseNew_of_error hparse] at h
      cases h
    | ok p =>
      obtain ⟨rest', layer⟩ := p
      have htype : layer.typeId = t := (Layer.parse_eq_ok.mp hparse).1
      have hsel := Layer.nextType_of_parse hparse
      obtain ⟨n, hfront, hdata, rfl⟩ := Layer.data_of_parse hparse
      have hle := hfront.le
      by_cases hend : n = input.length
      · have hnil : input.drop n = [] := List.drop_eq_nil_of_le (by omega)
        rw [PacketParser.parseNew_of_end hparse (.inl hnil)] at h
        obtain ⟨-, rfl⟩ := Prod.mk.inj (Except.ok.inj h)
        rw [List.map_singleton, Layer.part, htype, hdata, hend, List.take_length]
        exact .last (hend ▸ hfront)
      · have hrest : input.drop n ≠ [] := by
          rw [Ne, List.drop_eq_nil_iff]
          omega
        cases hnext : layer.nextType with
        | none => exact absurd (hfront.eq_length (hsel.symm.trans hnext)) hend
        | some t' =>
          have hsel' : selected t input = some t' := hsel.symm.trans hnext
          rw [PacketParser.parseNew_of_next hparse hrest hnext] at h
          obtain ⟨⟨_, packet'⟩, h', heq⟩ := except_map_eq_ok.mp h
          obtain ⟨rfl, rfl⟩ := Prod.mk.inj heq
          rw [List.map_cons, Layer.part, htype, hdata]
          refine .more hfront (by omega) hsel' (ih _ ?_ h' rfl)
          have hpos := hfront.pos hsel'
          rw [List.length_drop]
          omega

/-- An input that can be split is parsed. -/
theorem parsed_of_frames {t : LayerType} {input : Bytes} {parts : List (LayerType × Bytes)}
    (h : Frames t input parts) :
    ∃ rest packet, PacketParser.parseNew t input = .ok (rest, packet) := by
  induction h with
  | @last t input hfront =>
    obtain ⟨layer, hparse⟩ := Layer.parse_front_iff.mpr ⟨_, hfront, rfl⟩
    rw [List.drop_length] at hparse
    exact ⟨_, _, PacketParser.parseNew_of_end hparse (.inl rfl)⟩
  | @more t t' input n parts hfront hlt hsel _ ih =>
    obtain ⟨layer, hparse⟩ := Layer.parse_front_iff.mpr ⟨_, hfront, rfl⟩
    obtain ⟨rest, packet, ih⟩ := ih
    have hnext : layer.nextType = some t' := (Layer.nextType_of_parse hparse).trans hsel
    have hrest : input.drop n ≠ [] := by
      rw [Ne, List.drop_eq_nil_iff]
      omega
    refine ⟨rest, ⟨layer :: packet.layers⟩, ?_⟩
    rw [PacketParser.parseNew_of_next hparse hrest hnext, ih]
    rfl

/-- **parse_packet accepts exactly the frames**, and its layers are their parts. -/
theorem accepts_frames (t : LayerType) (input : Bytes) :
    ((∃ rest packet, PacketParser.parseNew t input = .ok (rest, packet)) ↔
      ∃ parts, Frames t input parts) ∧
    ∀ rest packet, PacketParser.parseNew t input = .ok (rest, packet) →
      ∀ parts, Frames t input parts ↔ parts = packet.layers.map Layer.part := by
  constructor
  · constructor
    · rintro ⟨rest, packet, h⟩
      exact ⟨_, frames_of_parseNew h⟩
    · rintro ⟨parts, h⟩
      exact parsed_of_frames h
  · intro rest packet h parts
    have hframes := frames_of_parseNew h
    constructor
    · intro hparts
      exact hparts.unique hframes
    · rintro rfl
      exact hframes

end

end Nata
