/-
  Parsing loses nothing.

  A parser of a layer is LOSSLESS when serialising the layer it returns, and appending the rest,
  gives the input back.  The loop of `parse_packet` keeps the equation

      serialised layers so far ++ rest = input,

  so a packet parser that only ever runs lossless parsers is lossless itself, whatever its bindings
  choose (`Parses.lossless`).  The parsers of the crate are lossless, because a format is the inverse
  of its writer (`Layer.parse_eq_ok`); with the default bindings the rest is empty as well, since a
  layer that nothing may follow has read to the end, and the layers form a path of the table.
-/
import Nata.Packet.Bindings

namespace Nata

/-- Serialising the parsed layer and appending the rest gives the input back. -/
def Lossless {L : Type} [LayerBytes L] (parse : ParseFn L) : Prop :=
  ∀ input rest layer, parse input = .ok (rest, layer) →
    ∃ bytes, LayerBytes.toBytes layer = .ok bytes ∧ bytes ++ rest = input

namespace PacketParser

/-- Every parser that a binding may return is lossless. -/
def BindsLossless {ι L : Type} [TypeIds ι L] [LayerBytes L] (self : PacketParser L) : Prop :=
  ∀ t callbacks, self.layerBindings t = some callbacks → ∀ cb ∈ callbacks,
    ∀ layer rest parse, cb layer rest = some parse → Lossless parse

/-- A packet parser that only runs lossless parsers is lossless. -/
theorem Parses.lossless {ι L : Type} [TypeIds ι L] [LayerBytes L] {self : PacketParser L}
    {first : ParseFn L} {input rest : Bytes} {packet : Packet L}
    (h : self.Parses first input (.ok (rest, packet))) (hfirst : Lossless first)
    (hnext : ∀ layer rest next, self.nextLayerParser layer rest = some next → Lossless next) :
    ∃ bytes, packet.toBytes = .ok bytes ∧ bytes ++ rest = input := by
  -- The invariant: the layers so far and the rest make up the input.
  obtain ⟨layers, layer, hlayers, ⟨bytes, hbytes, hin⟩, -⟩ := h.rule
    (I := fun rest layers layer => ∃ bytes, layersToBytes (layers ++ [layer]) = .ok bytes ∧
      bytes ++ rest = input)
    (by
      intro rest layer hf
      obtain ⟨bytes, hbytes, hin⟩ := hfirst _ _ _ hf
      exact ⟨bytes, layersToBytes_singleton.mpr hbytes, hin⟩)
    (by
      rintro rest layers layer next rest' layer' ⟨done, hdone, hin⟩ - hn hparse
      obtain ⟨bytes, hbytes, hrest⟩ := hnext _ _ _ hn _ _ _ hparse
      refine ⟨done ++ bytes, layersToBytes_append_eq_ok.mpr ⟨done, bytes, hdone,
        layersToBytes_singleton.mpr hbytes, rfl⟩, ?_⟩
      rw [List.append_assoc, hrest, hin])
  exact ⟨bytes, Packet.toBytes_eq_ok.mpr (hlayers ▸ hbytes), hin⟩

/-- What is bound next loses nothing. -/
theorem BindsLossless.lossless_next {ι L : Type} [TypeIds ι L] [LayerBytes L]
    {self : PacketParser L} (h : self.BindsLossless) {layer : L} {rest : Bytes}
    {next : ParseFn L} (hnext : self.nextLayerParser layer rest = some next) : Lossless next := by
  obtain ⟨callbacks, hcallbacks, cb, hmem, hcb⟩ := nextLayerParser_eq_some hnext
  exact h _ _ hcallbacks cb hmem _ _ _ hcb

end PacketParser

/-! ## The layers of the crate -/

section

variable [Deku]

/-- The parsers of the crate are lossless. -/
theorem Layer.lossless_parse (t : LayerType) : Lossless (Layer.parse t) := by
  intro input rest layer h
  obtain ⟨-, -, -, bytes, hbytes, hin⟩ := Layer.parse_eq_ok.mp h
  exact ⟨bytes, hbytes, hin.symm⟩

/-- What the default bindings return is the parser of a type that the table names. -/
theorem PacketParser.nextLayerParser_new_eq_some {layer : Layer} {rest : Bytes}
    {next : ParseFn Layer} :
    PacketParser.new.nextLayerParser layer rest = some next ↔
      ∃ t, layer.nextType = some t ∧ next = Layer.parse t := by
  rw [nextLayerParser_new, Option.map_eq_some_iff]
  simp only [eq_comm]

/-- The default bindings return lossless parsers. -/
theorem PacketParser.bindsLossless_new : PacketParser.new.BindsLossless := by
  have hone : ∀ t callbacks, PacketParser.new.layerBindings t = some callbacks →
      callbacks.length = 1 := by
    intro t callbacks h
    cases t <;> cases h <;> rfl
  rintro t callbacks hcallbacks cb hcb ⟨layer, rfl⟩ rest parse hparse
  obtain ⟨only, honly⟩ := List.length_eq_one_iff.mp (hone _ _ hcallbacks)
  rw [honly] at hcallbacks hcb
  obtain rfl := List.mem_singleton.mp hcb
  have hnext : PacketParser.new.nextLayerParser layer rest = some parse := by
    rw [nextLayerParser, hcallbacks]
    show [cb].findSome? (fun cb => cb ⟨layer, rfl⟩ rest) = some parse
    rw [List.findSome?_singleton, hparse]
  obtain ⟨t, -, rfl⟩ := nextLayerParser_new_eq_some.mp hnext
  exact Layer.lossless_parse t

/-- What the loop of the default parser keeps: the layers are a path of the table that starts at
    the first type, all of them representable, and a layer that reads to the end leaves no rest. -/
structure PathInv (t : LayerType) (rest : Bytes) (layers : List Layer) (layer : Layer) : Prop where
  head : (layers ++ [layer]).head?.map Layer.typeId = some t
  path : IsPath (layers ++ [layer])
  valid : ∀ l ∈ layers ++ [layer], l.Valid
  rest : layer.typeId.ReadsAll → rest = []

/-- **The layers of a parsed packet** are a path of the table, and nothing is left. -/
theorem PacketParser.parseNew_path {t : LayerType} {input rest : Bytes} {packet : Packet Layer}
    (h : parseNew t input = .ok (rest, packet)) :
    rest = [] ∧ packet.layers.head?.map Layer.typeId = some t ∧ IsPath packet.layers ∧
      ∀ l ∈ packet.layers, l.Valid := by
  obtain ⟨layers, layer, hlayers, hinv, hend⟩ := (parses_new_iff.mpr h).rule (I := PathInv t)
    (by
      intro rest layer hf
      obtain ⟨ht, hval, hrest, -⟩ := Layer.parse_eq_ok.mp hf
      exact
        { head := congrArg some ht
          path := List.isChain_singleton _
          valid := List.forall_mem_singleton.mpr hval
          rest := ht ▸ hrest })
    (by
      intro rest layers layer next rest' layer' hinv _ hnext hparse
      obtain ⟨t', ht', rfl⟩ := nextLayerParser_new_eq_some.mp hnext
      obtain ⟨htype, hval, hrest, -⟩ := Layer.parse_eq_ok.mp hparse
      refine ⟨?_, ?_, ?_, htype ▸ hrest⟩
      · rw [List.head?_append_of_ne_nil _ (by simp)]
        exact hinv.head
      · refine List.isChain_append.mpr ⟨hinv.path, List.isChain_singleton _, ?_⟩
        intro x hx y hy
        rw [List.getLast?_concat, Option.mem_some_iff] at hx
        rw [List.head?_cons, Option.mem_some_iff] at hy
        rw [← hx, ← hy, ht', htype]
      · intro l hl
        rcases List.mem_append.mp hl with hl | hl
        · exact hinv.valid l hl
        · exact List.mem_singleton.mp hl ▸ hval)
  refine ⟨?_, hlayers ▸ hinv.head, hlayers ▸ hinv.path, hlayers ▸ hinv.valid⟩
  rcases hend with hrest | hnone
  · exact hrest
  · -- Only a layer that reads to the end has no successor in the table.
    rw [nextLayerParser_new, Option.map_eq_none_iff] at hnone
    apply hinv.rest
    cases layer with
    | icmp4 i => trivial
    | raw r => trivial
    | ether | ipv4 | ipv6 | tcp | udp => cases hnone

/-- A packet that the default parser returns serialises to the whole input. -/
theorem PacketParser.toBytes_of_parseNew {t : LayerType} {input rest : Bytes}
    {packet : Packet Layer} (h : parseNew t input = .ok (rest, packet)) :
    packet.toBytes = .ok input := by
  obtain ⟨bytes, hbytes, hin⟩ := (parses_new_iff.mpr h).lossless (Layer.lossless_parse t)
    fun _ _ _ hnext => bindsLossless_new.lossless_next hnext
  rw [(parseNew_path h).1, List.append_nil] at hin
  exact hin ▸ hbytes

end

/-- **Parsing loses nothing.**  What the default parser returns serialises to the whole input, nothing
    is left, and the layers are a path of the binding table from the first type.  A parser with any
    bindings whose parsers are lossless is lossless, whatever it leaves. -/
theorem parsePacket_lossless [Deku] :
    (∀ (t : LayerType) (input rest : Bytes) (packet : Packet Layer),
      PacketParser.parseNew t input = .ok (rest, packet) →
        packet.toBytes = .ok input ∧ rest = [] ∧
          packet.layers.head?.map Layer.typeId = some t ∧ IsPath packet.layers) ∧
    (∀ (ι L : Type) [TypeIds ι L] [LayerBytes L] (parser : PacketParser L) (first : ParseFn L)
      (input rest : Bytes) (packet : Packet L), parser.BindsLossless → Lossless first →
        parser.Parses first input (.ok (rest, packet)) →
          ∃ bytes, packet.toBytes = .ok bytes ∧ bytes ++ rest = input) := by
  constructor
  · intro t input rest packet h
    obtain ⟨hrest, hhead, hpath, -⟩ := PacketParser.parseNew_path h
    exact ⟨PacketParser.toBytes_of_parseNew h, hrest, hhead, hpath⟩
  · intro ι L _ _ parser first input rest packet hbinds hfirst h
    exact h.lossless hfirst fun _ _ _ hnext => hbinds.lossless_next hnext

theorem parsePacket_lossless_udpFrame :
    letI := Deku.truncating
    ∃ packet, PacketParser.parseNew .Ether udpFrame = .ok ([], packet) ∧
      packet.toBytes = .ok udpFrame ∧ IsPath packet.layers ∧
      ∃ bytes, packet.toBytes = .ok bytes ∧ bytes ++ [] = udpFrame := by
  let := Deku.truncating
  obtain ⟨packet, hp⟩ : ∃ packet, PacketParser.parseNew .Ether udpFrame = .ok ([], packet) := by
    have hok : ((PacketParser.parseNew .Ether udpFrame).map Prod.fst) = .ok [] := by
      decide +kernel
    obtain ⟨⟨rest, packet⟩, hp, rfl⟩ := except_map_eq_ok.mp hok
    exact ⟨packet, hp⟩
  obtain ⟨hbytes, -, -, hpath⟩ := parsePacket_lossless.1 _ _ _ _ hp
  have hparses := PacketParser.parses_new_iff.mpr hp
  exact ⟨packet, hp, hbytes, hpath, parsePacket_lossless.2 LayerType Layer PacketParser.new
    (Layer.parse .Ether) udpFrame [] packet PacketParser.bindsLossless_new
    (Layer.lossless_parse .Ether) hparses⟩

end Nata
