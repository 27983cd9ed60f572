/-
  Whole headers that ask for more input.

  `LayerError::Incomplete` says that more data is needed, and `parse_packet` passes it on.  But the
  reader of the options does not know where the option area ends: it stops when it has consumed as
  many bytes as the area has, so an option that straddles the end takes it past that point, through
  the payload, option by option, until one does not parse or the input runs out.  In the second case
  a header that is all there asks for more.

  `Overruns` says when this happens, in terms of the bytes alone, and `neverAsks_iff` that it happens
  then only, for the parsers themselves and for every round of `parse_packet` that runs them.
-/
import Nata.Layer.Ip.Grammar
import Nata.Layer.Tcp.Grammar
import Nata.Packet.Bindings

namespace Nata

theorem PacketError.ofLayerError_eq_incomplete {e : LayerError} {size : Nat} :
    ofLayerError e = .incomplete size ↔ e = .incomplete size := by
  cases e <;> simp [ofLayerError]

/-- A round of `parse_packet` asks for more input exactly when the parser that it runs does. -/
theorem PacketParser.parseStep_incomplete_iff {ι L : Type} [TypeIds ι L] {self : PacketParser L}
    {s : ParseState L} {next : ParseFn L} (hne : s.rest ≠ [])
    (hnext : self.nextLayerParser s.currentLayer s.rest = some next) {size : Nat} :
    self.parseStep s = .inr (.error (.incomplete size)) ↔
      next s.rest = .error (.incomplete size) := by
  rcases self.parseStep_cases s with ⟨next', rest', layer', -, hnext', hparse, hstep⟩ |
    ⟨next', e, -, hnext', hparse, hstep⟩ | ⟨hend, hstep⟩
  · obtain rfl := Option.some.inj (hnext.symm.trans hnext')
    rw [hstep, hparse]
    constructor
    · intro h
      cases h
    · intro h
      cases h
  · obtain rfl := Option.some.inj (hnext.symm.trans hnext')
    rw [hstep, hparse, Sum.inr.injEq, Except.error.injEq, Except.error.injEq]
    exact PacketError.ofLayerError_eq_incomplete
  · rcases hend with hrest | hnone
    · exact absurd hrest hne
    · rw [hnext] at hnone
      cases hnone

/-- On this input the parser of a layer does not ask for more, and neither does a round of
    `parse_packet` in which the bindings, whatever they are, choose it. -/
def NeverAsks {α : Type} (box : α → Layer) (parse : Bytes → Except LayerError (Bytes × α))
    (input : Bytes) : Prop :=
  (∀ size, parse input ≠ .error (.incomplete size)) ∧
    ∀ (parser : PacketParser Layer) (s : ParseState Layer), s.rest = input →
      parser.nextLayerParser s.currentLayer input = some (parseLayer box parse) →
      ∀ size, parser.parseStep s ≠ .inr (.error (.incomplete size))

/-- It is the parser that decides. -/
theorem neverAsks_iff_parse {α : Type} {box : α → Layer}
    {parse : Bytes → Except LayerError (Bytes × α)} {input : Bytes} (hne : input ≠ []) :
    NeverAsks box parse input ↔ ¬∃ size, parse input = .error (.incomplete size) := by
  rw [not_exists]
  constructor
  · exact fun h => h.1
  · intro h
    refine ⟨h, ?_⟩
    rintro parser s rfl hnext size hstep
    rw [PacketParser.parseStep_incomplete_iff hne hnext, parseLayer_eq_error] at hstep
    exact h size hstep

/-- **When a whole header asks for no more input**: unless its options overrun the option area up to
    the end of the input.  An identifier without a variant is assumed to be another error. -/
theorem neverAsks_iff [Deku]
    (hvariant : ∀ enum id need, Deku.noVariant enum id ≠ .incomplete need) (input : Bytes)
    (h20 : 20 ≤ input.length) :
    (5 ≤ Tcp.dataOffset input → 4 * Tcp.dataOffset input ≤ input.length →
      (NeverAsks .tcp Tcp.parse input ↔
        ¬Overruns TcpOption.Shape (4 * (Tcp.dataOffset input - 5)) (input.drop 20))) ∧
    (4 * Ipv4.headerWords input ≤ input.length →
      (NeverAsks .ipv4 Ipv4.parse input ↔
        ¬Overruns Ipv4Option.Shape (4 * (Ipv4.headerWords input - 5)) (input.drop 20))) := by
  have hne : input ≠ [] := by
    rintro rfl
    exact absurd h20 (by decide)
  constructor
  · intro h5 _
    obtain ⟨offset, hoffset, hleads⟩ := Tcp.read_leads h20
    have h16 := Tcp.dataOffset_lt input
    rw [Tcp.optionsSize_of_le (by omega) (by omega), hoffset] at hleads
    rw [neverAsks_iff_parse hne]
    exact not_congr (derivedParse_list_incomplete_iff TcpOption.aligned_codec TcpOption.cuts_codec
      (fun _ => TcpOption.shape_iff) (fun _ => TcpOption.exists_of_short hvariant) hleads)
  · intro _
    obtain ⟨ihl, hihl, hleads⟩ := Ipv4.read_leads h20
    have hsize : Ipv4.optionsSize ihl = 4 * (Ipv4.headerWords input - 5) := by
      rw [Ipv4.optionsSize, hihl]
      omega
    rw [hsize] at hleads
    rw [neverAsks_iff_parse hne]
    exact not_congr (derivedParse_list_incomplete_iff Ipv4Option.aligned_codec
      Ipv4Option.cuts_codec (fun _ => Ipv4Option.shape_iff) (fun _ => Ipv4Option.exists_of_short)
      hleads)

/-- A header of six words; its option is `MSS`. -/
def mssHeader : Bytes :=
  List.replicate 12 0x00 ++ 0x60 :: List.replicate 7 0x00 ++ [0x02, 0x04, 0x05, 0xb4]

theorem noVariant_truncating (enum : String) (id need : Nat) :
    Deku.truncating.noVariant enum id ≠ .incomplete need := by
  intro h
  cases h

theorem neverAsks_mssHeader :
    letI := Deku.truncating
    NeverAsks .tcp Tcp.parse mssHeader := by
  let := Deku.truncating
  have hiff := (neverAsks_iff noVariant_truncating mssHeader (by decide)).1
  refine (hiff (by decide) (by decide)).mpr ?_
  rintro ⟨chunks, tail, missing, hchunks, hmissing, hlast, hin, hfronts⟩
  have hin : [0x02, 0x04, 0x05, 0xb4] = chunks.flatten ++ tail := hin
  cases chunks with
  | nil =>
    obtain rfl : _ = tail := hin
    cases hlast with
    | MSS hv => exact hmissing (List.eq_nil_of_length_eq_zero (by simpa using hv))
  | cons chunk chunks =>
    -- The first chunk is `MSS`, and so it ends where the area does.
    have hchunk := hchunks chunk List.mem_cons_self
    have hfront := hfronts [chunk] ⟨chunks, rfl⟩
    cases hchunk with
    | @MSS v hv =>
      refine hfront ?_
      show (0x02 :: v ++ []).length = _
      rw [List.append_nil, List.length_cons, hv]
      decide
    | EOL | NOP | WScale _ | SAckOK _ | SAck _ _ | Timestamp _ => cases hin

/-- A header of six words, with the first byte of a timestamp after three `NOP`, and no payload. -/
def straddlingHeader : Bytes :=
  List.replicate 12 0x00 ++ 0x60 :: List.replicate 7 0x00 ++ [0x01, 0x01, 0x01, 0x08]

/-- An IPv4 header of six words, with the first byte of an unknown option after three `NOP`. -/
def straddlingIpv4 : Bytes := 0x46 :: List.replicate 19 0x00 ++ [0x01, 0x01, 0x01, 0x44]

theorem neverAsks_straddling :
    letI := Deku.truncating
    (¬∀ input, 20 ≤ input.length → 5 ≤ Tcp.dataOffset input →
      4 * Tcp.dataOffset input ≤ input.length → NeverAsks .tcp Tcp.parse input) ∧
    (¬∀ input, 20 ≤ input.length → 4 * Ipv4.headerWords input ≤ input.length →
      NeverAsks .ipv4 Ipv4.parse input) := by
  let := Deku.truncating
  constructor
  · intro h
    have hask : Tcp.parse straddlingHeader = .error (.incomplete 1) := by decide +kernel
    exact (h straddlingHeader (by decide) (by decide) (by decide)).1 1 hask
  · intro h
    have hask : Ipv4.parse straddlingIpv4 = .error (.incomplete 1) := by decide +kernel
    exact (h straddlingIpv4 (by decide) (by decide)).1 1 hask

end Nata
