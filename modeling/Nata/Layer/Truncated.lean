/-
  Headers that are cut short.

  A header is parsed from the front of its input, and nothing behind it is looked at.  So it is parsed
  alike whatever follows; and while something of it is missing the parser has nothing to report but
  that, since each field is read before anything is decided by it.  `LocalParse` says both, and
  `parse_local` says it of the five headers.

  The step for each combinator is `Codec.Cuts`; what remains here is the step for each enum.
-/
import Nata.Layer.Ether
import Nata.Layer.Tcp
import Nata.Layer.Udp
import Nata.Lib.Chunk

namespace Nata

/-! ## Errors of a derived parser -/

section Derived

variable [Deku] {α : Type} {R : Bits → Prop}

/-- An error of a parse is one of its format, converted. -/
theorem derivedParse_eq_error {c : Codec R α} {input : Bytes} {e : LayerError} :
    derivedParse c input = .error e ↔
      ∃ d, c.read.run (toBits input) = .error d ∧ e = .ofDeku d := by
  unfold derivedParse Codec.fromBytes
  cases c.read.run (toBits input) with
  | error d => simp [eq_comm]
  | ok p => simp

/-- What is parsed is what the reader of the format reads. -/
theorem derivedParse_eq_ok_iff_read {c : Codec R α} (hal : c.Aligned 8) {input rest : Bytes}
    {l : α} :
    derivedParse c input = .ok (rest, l) ↔ c.read.run (toBits input) = .ok (l, toBits rest) := by
  rw [derivedParse_eq_ok hal, c.spec]
  constructor
  · rintro ⟨hvalid, hR, bytes, hbytes, rfl⟩
    obtain ⟨u, hu, rfl⟩ := derivedToBytes_eq_ok.mp hbytes
    exact ⟨hvalid, hR, u, hu, by rw [toBits_append, toBits_pack (hal l u hu)]⟩
  · rintro ⟨hvalid, hR, u, hu, hin⟩
    refine ⟨hvalid, hR, pack u, derivedToBytes_eq_ok.mpr ⟨u, hu, rfl⟩, toBits_inj ?_⟩
    rw [toBits_append, toBits_pack (hal l u hu), hin]

/-- Only running out of input is recoverable. -/
theorem LayerError.ofDeku_eq_incomplete {d : DekuError} {size : Nat} :
    LayerError.ofDeku d = .incomplete size ↔
      ∃ need, d = .incomplete need ∧ size = (need + 7) / 8 := by
  cases d <;> simp [LayerError.ofDeku, eq_comm]

/-- More input is asked for where the reader of the format runs out of it. -/
theorem derivedParse_incomplete_iff {c : Codec R α} {input : Bytes} :
    (∃ size, derivedParse c input = .error (.incomplete size)) ↔ c.read.Short (toBits input) := by
  simp only [derivedParse_eq_error]
  constructor
  · rintro ⟨size, d, hread, hd⟩
    obtain ⟨need, rfl, -⟩ := LayerError.ofDeku_eq_incomplete.mp hd.symm
    exact ⟨need, hread⟩
  · rintro ⟨need, hread⟩
    exact ⟨_, _, hread, rfl⟩

/-! A header of `k` bytes and a list of options, whose extent the header gives. -/

section List

variable {β : Type} {c : Field α} {o : Field β} {hne : o.Nonempty} {n k : Nat} {options : α → List β}
  {input : Bytes}

/-- What is accepted: options whose chunks are the bytes between the header and their end. -/
theorem derivedParse_list_eq_ok (hal : c.Aligned 8) (hal' : o.Aligned 8) (hk : k ≤ input.length)
    (hleads : c.read.Leads (toBits input) (o.bytesRead (.ok n) hne).read (toBits (input.drop k))
      options) {rest : Bytes} {os : List β} :
    (∃ l, derivedParse c input = .ok (rest, l) ∧ options l = os) ↔
      k + n ≤ input.length ∧ rest = input.drop (k + n) ∧
        ∃ chunks, List.Forall₂ o.Encodes os chunks ∧
          chunks.flatten = (input.take (k + n)).drop k := by
  have hread : (∃ l, derivedParse c input = .ok (rest, l) ∧ options l = os) ↔
      ∃ l, c.read.run (toBits input) = .ok (l, toBits rest) ∧ options l = os :=
    exists_congr fun l => and_congr_left' (derivedParse_eq_ok_iff_read hal)
  rw [hread, ← hleads.ok_iff, Codec.bytesRead_eq_ok hal', List.drop_drop, List.length_drop,
    List.drop_take, Nat.add_sub_cancel_left]
  constructor
  · rintro ⟨hlen, hrest, hchunks⟩
    exact ⟨by omega, toBits_inj hrest, hchunks⟩
  · rintro ⟨hlen, rfl, hchunks⟩
    exact ⟨by omega, rfl, hchunks⟩

/-- When more input is asked for: when the chunks of the options overrun the end of the list. -/
theorem derivedParse_list_incomplete_iff {Shape : Bytes → Prop} (hal' : o.Aligned 8) (hc : o.Cuts)
    (hshape : ∀ chunk, Shape chunk ↔ ∃ a, o.Encodes a chunk)
    (hshort : ∀ tail, o.read.Short (toBits tail) → ∃ missing, missing ≠ [] ∧ Shape (tail ++ missing))
    (hleads : c.read.Leads (toBits input) (o.bytesRead (.ok n) hne).read (toBits (input.drop k))
      options) :
    (∃ size, derivedParse c input = .error (.incomplete size)) ↔
      Overruns Shape n (input.drop k) := by
  rw [derivedParse_incomplete_iff, hleads.short_iff]
  exact Codec.bytesRead_short_iff_overruns hal' hc hshape hshort

end List

end Derived

/-- The parser looks at nothing behind what it consumes, and asks for more while a part of it is
    missing. -/
def LocalParse {α : Type} (parse : Bytes → Except LayerError (Bytes × α)) : Prop :=
  ∀ x rest l, parse x = .ok (rest, l) →
    (∀ y, parse (x ++ y) = .ok (rest ++ y, l)) ∧
    ∀ p missing, p ++ missing ++ rest = x → missing ≠ [] →
      ∃ size, parse p = .error (.incomplete size)

/-- A format of whole bytes that is short when it is cut. -/
theorem localParse_derived [Deku] {α : Type} {c : Field α} (hal : c.Aligned 8) (hc : c.Cuts) :
    LocalParse (derivedParse c) := by
  intro x rest l h
  obtain ⟨hvalid, -, bytes, hbytes, rfl⟩ := (derivedParse_eq_ok hal).mp h
  constructor
  · intro y
    exact (derivedParse_eq_ok hal).mpr ⟨hvalid, trivial, bytes, hbytes, List.append_assoc ..⟩
  · intro p missing hp hmissing
    obtain ⟨u, hu, rfl⟩ := derivedToBytes_eq_ok.mp hbytes
    have hcut : toBits p ++ toBits missing = u := by
      rw [← toBits_append, List.append_cancel_right hp, toBits_pack (hal l u hu)]
    have hne : toBits missing ≠ [] := by
      intro hnil
      exact hmissing (toBits_inj hnil)
    rw [← hcut] at hu
    exact derivedParse_incomplete_iff.mpr (hc l _ _ hvalid hu hne)

/-! ## Each format -/

theorem EtherType.cuts_codec : EtherType.codec.Cuts := NamedCodes.cuts_codec

theorem IpProtocol.cuts_codec : IpProtocol.codec.Cuts := NamedCodes.cuts_codec

theorem MacAddress.cuts_codec : MacAddress.codec.Cuts := (Codec.cuts_uint.array 6).iso

theorem Ether.cuts_codec : Ether.codec.Cuts :=
  (MacAddress.cuts_codec.seq fun _ => MacAddress.cuts_codec.seq fun _ => EtherType.cuts_codec).iso

theorem Udp.cuts_codec : Udp.codec.Cuts :=
  (Codec.cuts_uint.seq fun _ => Codec.cuts_uint.seq fun _ => Codec.cuts_uint.seq fun _ =>
    Codec.cuts_uint).iso

theorem SAckData.cuts_codec : SAckData.codec.Cuts :=
  (Codec.cuts_uint.seq fun _ => Codec.cuts_uint).iso

theorem TimestampData.cuts_codec : TimestampData.codec.Cuts :=
  (Codec.cuts_uint.seq fun _ => Codec.cuts_uint).iso

theorem Ipv4OptionType.cuts_unknown : Ipv4OptionType.unknown.Cuts :=
  Codec.cuts_uint.seq fun _ => Codec.cuts_uint.count

section

variable [Deku]

theorem Ipv6.cuts_codec : Ipv6.codec.Cuts :=
  ((Codec.cuts_bits _).seq fun _ => (Codec.cuts_bits _).seq fun _ => (Codec.cuts_bits _).seq fun _ =>
    (Codec.cuts_bits _).seq fun _ => Codec.cuts_uint.seq fun _ => IpProtocol.cuts_codec.seq fun _ =>
    Codec.cuts_uint.seq fun _ => Codec.cuts_uint.seq fun _ => Codec.cuts_uint).iso

theorem TcpFlags.cuts_codec : TcpFlags.codec.Cuts :=
  ((Codec.cuts_bits _).seq fun _ => (Codec.cuts_bits _).seq fun _ => (Codec.cuts_bits _).seq fun _ =>
    (Codec.cuts_bits _).seq fun _ => (Codec.cuts_bits _).seq fun _ => (Codec.cuts_bits _).seq fun _ =>
    (Codec.cuts_bits _).seq fun _ => (Codec.cuts_bits _).seq fun _ => (Codec.cuts_bits _).seq fun _ =>
    Codec.cuts_bits _).iso

/-- Each variant on its own: the blocks of `SAck` are cut as a list is. -/
theorem TcpOption.cuts_variant (i : BitVec 8) : (TcpOption.variant i).Cuts := by
  unfold TcpOption.variant
  split
  · exact Codec.cuts_const
  · exact Codec.cuts_const
  · exact (Codec.cuts_uint.seq fun _ => Codec.cuts_uint).map
  · exact (Codec.cuts_uint.seq fun _ => Codec.cuts_uint).map
  · exact Codec.cuts_uint.map
  · exact (Codec.cuts_uint.seq fun _ => SAckData.cuts_codec.count).map
  · exact (Codec.cuts_uint.seq fun _ => TimestampData.cuts_codec).map
  · exact Codec.cuts_reject

/-- An option is incomplete until all of it is there. -/
theorem TcpOption.cuts_codec : TcpOption.codec.Cuts :=
  Codec.Cuts.enum Codec.cuts_uint TcpOption.cuts_variant

/-- A header is incomplete until the last of its options is there. -/
theorem Tcp.cuts_codec : Tcp.codec.Cuts :=
  (Codec.cuts_uint.seq fun _ => Codec.cuts_uint.seq fun _ => Codec.cuts_uint.seq fun _ =>
    Codec.cuts_uint.seq fun _ => (Codec.cuts_bits _).seq fun _ => TcpFlags.cuts_codec.seq fun _ =>
    Codec.cuts_uint.seq fun _ => Codec.cuts_uint.seq fun _ => Codec.cuts_uint.seq fun _ =>
    TcpOption.cuts_codec.bytesRead).iso

theorem Ipv4OptionClass.cuts_codec : Ipv4OptionClass.codec.Cuts := by
  refine Codec.Cuts.enum (Codec.cuts_bits _) fun i => ?_
  unfold Ipv4OptionClass.variant
  split
  · exact Codec.cuts_const
  · exact Codec.cuts_const
  · exact Codec.cuts_const
  · exact Codec.cuts_const
  · exact Codec.cuts_reject

theorem Ipv4OptionType.cuts_codec : Ipv4OptionType.codec.Cuts := by
  refine Codec.Cuts.enum (Codec.cuts_bits _) fun i => ?_
  unfold Ipv4OptionType.variant
  split
  · exact Codec.cuts_const
  · exact Codec.cuts_const
  · exact Ipv4OptionType.cuts_unknown.map

/-- An option is incomplete until all of it is there. -/
theorem Ipv4Option.cuts_codec : Ipv4Option.codec.Cuts :=
  ((Codec.cuts_bits _).seq fun _ => Ipv4OptionClass.cuts_codec.seq fun _ =>
    Ipv4OptionType.cuts_codec).iso

/-- A header is incomplete until the last of its options is there. -/
theorem Ipv4.cuts_codec : Ipv4.codec.Cuts := by
  unfold Ipv4.codec Ipv4.codecWith
  exact ((Codec.cuts_bits _).seq fun _ => (Codec.cuts_bits _).seq fun _ =>
    (Codec.cuts_bits _).seq fun _ => (Codec.cuts_bits _).seq fun _ => Codec.cuts_uint.seq fun _ =>
    Codec.cuts_uint.seq fun _ => (Codec.cuts_bits _).seq fun _ => (Codec.cuts_bits _).seq fun _ =>
    Codec.cuts_uint.seq fun _ => IpProtocol.cuts_codec.seq fun _ => Codec.cuts_uint.seq fun _ =>
    Codec.cuts_uint.seq fun _ => Codec.cuts_uint.seq fun _ => Ipv4Option.cuts_codec.bytesRead).iso

/-- **Header parsing is local, and truncation is always recoverable.** -/
theorem parse_local :
    LocalParse Ether.parse ∧ LocalParse Ipv4.parse ∧ LocalParse Ipv6.parse ∧ LocalParse Tcp.parse ∧
      LocalParse Udp.parse :=
  ⟨localParse_derived (Ether.sized_codec.aligned (by decide)) Ether.cuts_codec,
    localParse_derived Ipv4.aligned_codec Ipv4.cuts_codec,
    localParse_derived (Ipv6.sized_codec.aligned (by decide)) Ipv6.cuts_codec,
    localParse_derived Tcp.aligned_codec Tcp.cuts_codec,
    localParse_derived (Udp.sized_codec.aligned (by decide)) Udp.cuts_codec⟩

end

/-- A Tcp header with options, and its bytes. -/
def optionedTcp : Tcp :=
  { (default : Tcp) with
    sport := 80, dport := 50000, offset := 7, options := [.MSS 4 1460, .WScale 3 7, .EOL] }

/-- `optionedTcp` on the wire. -/
def optionedTcpBytes : Bytes :=
  [0, 80, 0xc3, 0x50, 0, 0, 0, 0, 0, 0, 0, 0, 0x70, 0, 0, 0, 0, 0, 0, 0, 2, 4, 5, 0xb4, 3, 3, 7, 0]

theorem parse_local_optionedTcp :
    letI := Deku.truncating
    Tcp.parse (optionedTcpBytes ++ [0x47] ++ [0x45, 0x54]) = .ok ([0x47, 0x45, 0x54], optionedTcp) ∧
      ∃ size, Tcp.parse (optionedTcpBytes.take 21) = .error (.incomplete size) := by
  let := Deku.truncating
  have hparse : Tcp.parse (optionedTcpBytes ++ [0x47]) = .ok ([0x47], optionedTcp) := by
    decide +kernel
  obtain ⟨hextended, hcut⟩ := parse_local.2.2.2.1 _ _ _ hparse
  -- Cut between the kind and the length of the first option.
  exact ⟨hextended [0x45, 0x54], hcut (optionedTcpBytes.take 21) (optionedTcpBytes.drop 21) rfl
    (by decide)⟩

end Nata
