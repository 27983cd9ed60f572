/-
  Parsing is safe.

  In a build with assertions every `parse` asserts that its reader has stopped at a byte boundary,
  Raw also that nothing is left, and arithmetic that leaves its type panics.  `parseAsserting` is
  `parse` in such a build.  None of this ever happens (`Layer.parseAsserting_eq`): the formats are
  multiples of eight bits whatever is read, and the one unchecked expression, the size of the Ipv4
  options, is only evaluated on the four bits that `ihl` is read from.

  The loops end too: each round of `parse_packet` consumes input (`consuming_new`), and so does each
  round of the loops over options (`Codec.Nonempty.loopEnds`).
-/
import Nata.Layer.Ip.Grammar
import Nata.Layer.Tcp.Grammar
import Nata.Lib.Ends
import Nata.Packet.Bindings

namespace Nata

/-! ## Assertions -/

section Derived

variable [Deku] {α : Type} {R : Bits → Prop}

/-- `parse` with its assertion; it is `none` that an assertion leaves. -/
def derivedParseAsserting (c : Codec R α) (input : Bytes) :
    Option (Except LayerError (Bytes × α)) :=
  match c.fromBytes input with
  | .error e => some (.error (.ofDeku e))
  | .ok ((rest, bitOffset), layer) => if bitOffset = 0 then some (.ok (rest, layer)) else none

/-- The reader of an aligned format stops at a byte boundary. -/
theorem derivedParseAsserting_eq {c : Codec R α} (hal : c.Aligned 8) (input : Bytes) :
    derivedParseAsserting c input = some (derivedParse c input) := by
  unfold derivedParseAsserting derivedParse
  cases h : c.fromBytes input with
  | error e => rfl
  | ok p =>
    obtain ⟨⟨rest, bitOffset⟩, layer⟩ := p
    obtain ⟨rfl, -⟩ := (Codec.fromBytes_eq_ok hal).mp h
    rfl

/-- `parse_layer` with assertions. -/
def parseLayerAsserting {L : Type} (box : α → L)
    (parse : Bytes → Option (Except LayerError (Bytes × α))) (input : Bytes) :
    Option (Except LayerError (Bytes × L)) :=
  (parse input).map fun result => result.map fun (rest, layer) => (rest, box layer)

end Derived

/-- `parse` of a Raw layer asserts that there is no rest either. -/
def Raw.parseAsserting [Deku] (input : Bytes) : Option (Except LayerError (Bytes × Raw)) :=
  match codec.fromBytes input with
  | .error e => some (.error (.ofDeku e))
  | .ok ((rest, bitOffset), raw) =>
    if bitOffset = 0 then
      if rest.length = 0 then some (.ok (rest, raw)) else none
    else none

/-- The check that a Raw layer makes never fails. -/
theorem Raw.parseAsserting_eq [Deku] (input : Bytes) :
    parseAsserting input = some (parse input) := by
  unfold parseAsserting parse derivedParse
  cases h : codec.fromBytes input with
  | error e => rfl
  | ok p =>
    obtain ⟨⟨rest, bitOffset⟩, raw⟩ := p
    obtain ⟨rfl, -, hrest, -⟩ := (Codec.fromBytes_eq_ok aligned_codec).mp h
    have hnil : rest = [] := toBits_inj hrest
    rw [hnil]
    rfl

/-! ## Arithmetic -/

namespace Ipv4

/-- `ihl.saturating_sub(5) * 4` on `u8`, where a product that does not fit is a panic. -/
def optionsSizeU8 (panic : DekuError) (ihl : BitVec 8) : Except DekuError Nat :=
  match checkedMul 8 (ihl.toNat - 5) 4 with
  | some size => .ok size
  | none => .error panic

variable [Deku]

/-- The product fits for every `ihl` that is read, so that it does not matter what a panic is. -/
theorem read_codecWith (panic : DekuError) (bs : Bits) :
    (codecWith (optionsSizeU8 panic)).read.run bs = codec.read.run bs := by
  refine Codec.read_iso_congr (Codec.read_seq_congr fun version mid _ =>
    Codec.read_seq_congr fun ihl mid' hread => ?_)
  obtain ⟨hlt, -⟩ := (Codec.read_eq_ok _).mp hread
  have hihl : ihl.toNat < 2 ^ 4 := hlt
  have hsize : optionsSizeU8 panic ihl = .ok (optionsSize ihl) := by
    rw [optionsSizeU8, checkedMul, if_pos (by omega)]
    rfl
  rw [hsize]

theorem fromBytes_codecWith (panic : DekuError) (input : Bytes) :
    (codecWith (optionsSizeU8 panic)).fromBytes input = codec.fromBytes input := by
  unfold Codec.fromBytes
  rw [read_codecWith]

end Ipv4

/-! ## The parsers -/

section

variable [Deku]

/-- `T::parse_layer` in a build with assertions and overflow checks. -/
def Layer.parseAsserting (panic : DekuError) :
    LayerType → Bytes → Option (Except LayerError (Bytes × Layer))
  | .Ether => parseLayerAsserting ether (derivedParseAsserting Ether.codec)
  | .Ipv4 =>
    parseLayerAsserting ipv4 (derivedParseAsserting (Ipv4.codecWith (Ipv4.optionsSizeU8 panic)))
  | .Ipv6 => parseLayerAsserting ipv6 (derivedParseAsserting Ipv6.codec)
  | .Tcp => parseLayerAsserting tcp (derivedParseAsserting Tcp.codec)
  | .Udp => parseLayerAsserting udp (derivedParseAsserting Udp.codec)
  | .Icmp4 => parseLayerAsserting icmp4 (derivedParseAsserting Icmp4.codec)
  | .Raw => parseLayerAsserting raw Raw.parseAsserting

/-- **No parser panics**: with assertions it returns what it returns without. -/
theorem Layer.parseAsserting_eq (panic : DekuError) (t : LayerType) (input : Bytes) :
    Layer.parseAsserting panic t input = some (Layer.parse t input) := by
  have hbox : ∀ {α : Type} {box : α → Layer} {parse : Bytes → Except LayerError (Bytes × α)}
      {asserting : Bytes → Option (Except LayerError (Bytes × α))},
      asserting input = some (parse input) →
        parseLayerAsserting box asserting input = some (parseLayer box parse input) := by
    intro α box parse asserting h
    rw [parseLayerAsserting, h]
    rfl
  cases t with
  | Ether => exact hbox (derivedParseAsserting_eq (Ether.sized_codec.aligned (by decide)) input)
  | Ipv4 =>
    have hipv4 := derivedParseAsserting_eq Ipv4.aligned_codec input
    refine hbox (Eq.trans ?_ hipv4)
    rw [derivedParseAsserting, Ipv4.fromBytes_codecWith]
    rfl
  | Ipv6 => exact hbox (derivedParseAsserting_eq (Ipv6.sized_codec.aligned (by decide)) input)
  | Tcp => exact hbox (derivedParseAsserting_eq Tcp.aligned_codec input)
  | Udp => exact hbox (derivedParseAsserting_eq (Udp.sized_codec.aligned (by decide)) input)
  | Icmp4 => exact hbox (derivedParseAsserting_eq Icmp4.aligned_codec input)
  | Raw => exact hbox (Raw.parseAsserting_eq input)

/-- Nor does one that `parse_packet` runs: the bindings only ever return these. -/
theorem PacketParser.asserts_nextLayerParser_new (panic : DekuError) {layer : Layer} {rest : Bytes}
    {next : ParseFn Layer} (hnext : new.nextLayerParser layer rest = some next) :
    ∃ t, next = Layer.parse t ∧ Layer.parseAsserting panic t rest = some (next rest) := by
  rw [nextLayerParser_new] at hnext
  obtain ⟨t, -, rfl⟩ := Option.map_eq_some_iff.mp hnext
  exact ⟨t, rfl, Layer.parseAsserting_eq panic t rest⟩

/-- The loop of `parse_packet` leaves with a result. -/
theorem PacketParser.exists_parses_new (t : LayerType) (input : Bytes) :
    ∃ r, new.Parses (Layer.parse t) input r := ⟨_, parses_new_iff.mpr rfl⟩

end

/-! ## Options -/

/-! The checked expressions over an offset or a length: where they give a value it is the exact one. -/

theorem Tcp.optionsSize_exact {offset : BitVec 8} {size : Nat} (h : optionsSize offset = .ok size) :
    (size : ℤ) = ((offset.toNat : ℤ) - 5) * 4 := by
  obtain ⟨hle, rfl, -⟩ := optionsSize_eq_ok.mp h
  omega

theorem TcpOption.sackCount_exact {length : BitVec 8} {n : Nat} (h : sackCount length = .ok n) :
    (n : ℤ) = ((length.toNat : ℤ) - 2) / 8 := by
  obtain ⟨hle, rfl⟩ := sackCount_eq_ok.mp h
  omega

theorem Ipv4OptionType.valueCount_exact {length : BitVec 8} {n : Nat}
    (h : valueCount length = .ok n) : (n : ℤ) = (length.toNat : ℤ) - 2 := by
  have hlen := valueCount_eq_ok.mp h
  omega

section

variable [Deku]

theorem TcpOption.takes_codec : TcpOption.codec.Takes 8 := by
  refine Codec.takes_of_write fun o u hu => ?_
  obtain ⟨v, w, hv, -, rfl⟩ := writeAll_pair_eq_ok.mp hu
  have h8 := Codec.sized_uint _ _ hv
  rw [List.length_append]
  omega

theorem Ipv4Option.takes_codec : Ipv4Option.codec.Takes 8 := by
  refine Codec.takes_of_write fun o u hu => ?_
  obtain ⟨h8, hpos⟩ := Ipv4Option.length_write hu
  exact Nat.le_of_dvd hpos h8

/-- **Parsing is safe**, on every input: for every layer type the parser and `parse_packet` return,
    and no assertion fails and no arithmetic overflows on the way, in whatever round. -/
theorem parse_safe (panic : DekuError) (t : LayerType) (input : Bytes) :
    Layer.parseAsserting panic t input = some (Layer.parse t input) ∧
    (∃ r, PacketParser.new.Parses (Layer.parse t) input r) ∧
    (∀ rest layer s next, Layer.parse t input = .ok (rest, layer) →
      Loop.Reaches PacketParser.new.parseStep { rest, layers := [], currentLayer := layer } s →
      PacketParser.new.nextLayerParser s.currentLayer s.rest = some next →
        ∃ t', next = Layer.parse t' ∧ Layer.parseAsserting panic t' s.rest = some (next s.rest)) ∧
    (∀ rest layer, Layer.parse .Raw input = .ok (rest, layer) → rest = []) ∧
    (∀ offset size, Tcp.optionsSize offset = .ok size →
      (size : ℤ) = ((offset.toNat : ℤ) - 5) * 4) ∧
    (∀ length n, TcpOption.sackCount length = .ok n → (n : ℤ) = ((length.toNat : ℤ) - 2) / 8) ∧
    (∀ length n, Ipv4OptionType.valueCount length = .ok n → (n : ℤ) = (length.toNat : ℤ) - 2) ∧
    TcpOption.codec.Takes 8 ∧ Ipv4Option.codec.Takes 8 ∧
    TcpOption.codec.LoopEnds ∧ Ipv4Option.codec.LoopEnds ∧
    (Codec.uint : Field (BitVec 8)).VecEnds := by
  refine ⟨Layer.parseAsserting_eq panic t input, PacketParser.exists_parses_new t input,
    fun rest layer s next _ _ hnext => PacketParser.asserts_nextLayerParser_new panic hnext,
    fun rest layer h => (Layer.parse_eq_ok.mp h).2.2.1 trivial,
    fun _ _ => Tcp.optionsSize_exact, fun _ _ => TcpOption.sackCount_exact,
    fun _ _ => Ipv4OptionType.valueCount_exact, TcpOption.takes_codec, Ipv4Option.takes_codec,
    TcpOption.nonempty_codec.loopEnds, Ipv4Option.nonempty_codec.loopEnds,
    Codec.nonempty_octet.vecEnds⟩

end

end Nata
