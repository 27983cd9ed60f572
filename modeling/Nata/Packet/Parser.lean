/-
  The packet parser: a loop over user-extensible bindings.

  A binding belongs to a layer type.  Given a layer of that type and the input that is left, it may
  return the parser of the next layer.  `parse_packet` parses the first layer and then, while there
  is input left, asks the bindings of the current layer, the newest first; the first parser that one
  of them returns parses the next layer, and if none does the loop ends.

  * Bindings are arbitrary functions, so the loop need not end: a bound parser may leave its input
    as it is.  `PacketParser.Parses` is therefore a relation between an input and the result, and
    a partial function (`Parses.unique`).
  * When every bound parser consumes at least one byte (`Consuming`), the loop ends with at most
    one layer more than there are bytes, and `parsePacket` computes its result (`parses_iff`).

  `bind_layer::<T>` wraps a function on `T` into one on boxed layers that downcasts its argument; it
  is only ever called on layers of type `T`.  Here that is the type of a binding: its argument comes
  with the proof that it has the right type id, so that the downcast cannot fail.
-/
import Mathlib.Logic.Function.Basic
import Nata.Lib.Loop
import Nata.Packet.Basic

namespace Nata

/-- The type ids of a type of boxed layers. -/
class TypeIds (ι : outParam Type) (L : Type) where
  typeId : L → ι

/-- A layer type `T` among the boxed layers `L`: its id, `Box::new`, and the downcast `get_layer!`,
    which succeeds on the layers that have this id. -/
class LayerOf (ι : outParam Type) (L : Type) [TypeIds ι L] (T : Type) where
  id : ι
  box : T → L
  getLayer : L → Option T
  typeId_box : ∀ l, TypeIds.typeId (box l) = id
  getLayer_box : ∀ l, getLayer (box l) = some l
  isSome_getLayer : ∀ layer, TypeIds.typeId layer = id → (getLayer layer).isSome

/-- A binding of the layer type with id `t`. -/
abbrev LayerBinding {ι : Type} (L : Type) [TypeIds ι L] (t : ι) : Type :=
  { layer : L // TypeIds.typeId layer = t } → Bytes → Option (ParseFn L)

/-- Parse a packet given layer binding rules. -/
structure PacketParser {ι : Type} (L : Type) [TypeIds ι L] where
  layerBindings : (t : ι) → Option (List (LayerBinding L t))

/-- The variables of the loop of `parse_packet`. -/
structure ParseState (L : Type) where
  rest : Bytes
  layers : List L
  currentLayer : L

namespace PacketParser

section

variable {ι L : Type} [TypeIds ι L]

/-- Create a packet parser without any default bindings. -/
def withoutBindings : PacketParser L where
  layerBindings _ := none

/-- The callbacks registered for a type, the oldest first. -/
def callbacks (self : PacketParser L) (t : ι) : List (LayerBinding L t) :=
  (self.layerBindings t).getD []

/-- The parser with `callbacks` as the bindings of the type `t`. -/
def setCallbacks [DecidableEq ι] (self : PacketParser L) (t : ι)
    (callbacks : List (LayerBinding L t)) : PacketParser L where
  layerBindings := Function.update self.layerBindings t (some callbacks)

/-- `entry(t).or_default().push(binding)` -/
def pushBinding [DecidableEq ι] (self : PacketParser L) (t : ι) (binding : LayerBinding L t) :
    PacketParser L := self.setCallbacks t (self.callbacks t ++ [binding])

/-- Add a layer binding to the packet parser. -/
def bindLayer [DecidableEq ι] (self : PacketParser L) {T : Type} [LayerOf ι L T]
    (f : T → Bytes → Option (ParseFn L)) : PacketParser L :=
  self.pushBinding (LayerOf.id L T) fun currentLayer rest =>
    let l := (LayerOf.getLayer currentLayer.val).get
      (LayerOf.isSome_getLayer currentLayer.val currentLayer.property)
    f l rest

/-- The parser for the next layer: that of the last binding that returns one. -/
def nextLayerParser (self : PacketParser L) (currentLayer : L) (rest : Bytes) :
    Option (ParseFn L) :=
  match self.layerBindings (TypeIds.typeId currentLayer) with
  | some callbacks => callbacks.reverse.findSome? fun cb => cb ⟨currentLayer, rfl⟩ rest
  | none => none

/-- One round of the loop of `parse_packet`. -/
def parseStep (self : PacketParser L) (s : ParseState L) :
    ParseState L ⊕ Except PacketError (Bytes × Packet L) :=
  if s.rest.isEmpty then
    .inr (.ok (s.rest, ⟨s.layers ++ [s.currentLayer]⟩))
  else
    match self.nextLayerParser s.currentLayer s.rest with
    | some nextLayerParser =>
      match nextLayerParser s.rest with
      | .ok (newRest, nextLayer) => .inl
          { rest := newRest, layers := s.layers ++ [s.currentLayer], currentLayer := nextLayer }
      | .error e => .inr (.error (.ofLayerError e))
    | none => .inr (.ok (s.rest, ⟨s.layers ++ [s.currentLayer]⟩))

/-- `parse_packet`, started with the parser of the first layer, returns `r` on `input`. -/
def Parses (self : PacketParser L) (first : ParseFn L) (input : Bytes)
    (r : Except PacketError (Bytes × Packet L)) : Prop :=
  match first input with
  | .ok (rest, layer) =>
    Loop.Returns self.parseStep { rest, layers := [], currentLayer := layer } r
  | .error e => r = .error (.ofLayerError e)

/-- The parsers that the bindings return consume at least one byte. -/
def Consuming (self : PacketParser L) : Prop :=
  ∀ layer input next, input ≠ [] → self.nextLayerParser layer input = some next →
    ∀ rest layer', next input = .ok (rest, layer') → rest.length < input.length

/-- What a binding returns is one of the parsers bound to the type of the current layer. -/
theorem nextLayerParser_eq_some {self : PacketParser L} {layer : L} {rest : Bytes}
    {next : ParseFn L} (h : self.nextLayerParser layer rest = some next) :
    ∃ callbacks, self.layerBindings (TypeIds.typeId layer) = some callbacks ∧
      ∃ cb ∈ callbacks, cb ⟨layer, rfl⟩ rest = some next := by
  unfold nextLayerParser at h
  cases hcb : self.layerBindings (TypeIds.typeId layer) with
  | none =>
    rw [hcb] at h
    cases h
  | some callbacks =>
    rw [hcb] at h
    obtain ⟨cb, hmem, hnext⟩ := List.exists_of_findSome?_eq_some h
    exact ⟨callbacks, rfl, cb, List.mem_reverse.mp hmem, hnext⟩

/-- One round either parses a layer with the parser the bindings choose, or leaves the loop: with
    the error of that parser, or with the layers so far when the input is used up or no binding
    returns a parser. -/
theorem parseStep_cases (self : PacketParser L) (s : ParseState L) :
    (∃ next newRest nextLayer, s.rest ≠ [] ∧
      self.nextLayerParser s.currentLayer s.rest = some next ∧
      next s.rest = .ok (newRest, nextLayer) ∧
      self.parseStep s = .inl ⟨newRest, s.layers ++ [s.currentLayer], nextLayer⟩) ∨
    (∃ next e, s.rest ≠ [] ∧ self.nextLayerParser s.currentLayer s.rest = some next ∧
      next s.rest = .error e ∧ self.parseStep s = .inr (.error (.ofLayerError e))) ∨
    ((s.rest = [] ∨ self.nextLayerParser s.currentLayer s.rest = none) ∧
      self.parseStep s = .inr (.ok (s.rest, ⟨s.layers ++ [s.currentLayer]⟩))) := by
  unfold parseStep
  by_cases hrest : s.rest = []
  · refine .inr (.inr ⟨.inl hrest, ?_⟩)
    rw [hrest]
    rfl
  · rw [if_neg (by simpa using hrest)]
    cases hnext : self.nextLayerParser s.currentLayer s.rest with
    | none => exact .inr (.inr ⟨.inr rfl, rfl⟩)
    | some next =>
      cases hparse : next s.rest with
      | error e => exact .inr (.inl ⟨next, e, hrest, rfl, hparse, by simp only [hparse]⟩)
      | ok p =>
        exact .inl ⟨next, p.1, p.2, hrest, rfl, hparse, by simp only [hparse]⟩

/-- Parsing has one result. -/
theorem Parses.unique {self : PacketParser L} {first : ParseFn L} {input : Bytes}
    {r r' : Except PacketError (Bytes × Packet L)} (h : self.Parses first input r)
    (h' : self.Parses first input r') : r = r' := by
  unfold Parses at h h'
  cases hf : first input with
  | error e =>
    rw [hf] at h h'
    exact h.trans h'.symm
  | ok p =>
    rw [hf] at h h'
    exact h.unique h'

/-- With bindings that consume input, the loop runs at most as often as there are bytes left. -/
theorem Consuming.run_isSome {self : PacketParser L} (h : self.Consuming) (s : ParseState L) :
    (Loop.run self.parseStep (s.rest.length + 1) s).isSome := by
  have hstep : ∀ s s' : ParseState L, True → self.parseStep s = .inl s' →
      True ∧ s'.rest.length < s.rest.length := by
    intro s s' _ hs
    rcases self.parseStep_cases s with ⟨next, newRest, nextLayer, hne, hnext, hparse, hs'⟩ |
      ⟨next, e, -, -, -, hs'⟩ | ⟨-, hs'⟩
    · rw [hs'] at hs
      cases hs
      exact ⟨trivial, h _ _ _ hne hnext _ _ hparse⟩
    · rw [hs'] at hs
      cases hs
    · rw [hs'] at hs
      cases hs
  obtain ⟨r, hr⟩ := Loop.run_of_measure hstep trivial (Nat.lt_succ_self s.rest.length)
  rw [hr]
  rfl

/-- Parse a packet from bytes, returning the un-parsed data. -/
def parsePacket (self : PacketParser L) (h : self.Consuming) (first : ParseFn L)
    (input : Bytes) : Except PacketError (Bytes × Packet L) :=
  match first input with
  | .ok (rest, layer) =>
    (Loop.run self.parseStep (rest.length + 1) { rest, layers := [], currentLayer := layer }).get
      (h.run_isSome { rest, layers := [], currentLayer := layer })
  | .error e => .error (.ofLayerError e)

/-- **The loop ends and returns what `parsePacket` computes.** -/
theorem parses_iff {self : PacketParser L} (h : self.Consuming) {first : ParseFn L}
    {input : Bytes} {r : Except PacketError (Bytes × Packet L)} :
    self.Parses first input r ↔ self.parsePacket h first input = r := by
  have hpp : self.Parses first input (self.parsePacket h first input) := by
    unfold Parses parsePacket
    split
    · exact Loop.returns_of_run (Option.some_get _).symm
    · rfl
  constructor
  · intro hr
    exact hpp.unique hr
  · rintro rfl
    exact hpp

/-- The invariant rule for the loop of `parse_packet`: what holds of the first layer and its rest,
    and is kept when a bound parser parses the next layer, holds of the packet returned, whose loop
    was left because the input was used up or no binding returned a parser. -/
theorem Parses.rule {self : PacketParser L} {first : ParseFn L} {input rest : Bytes}
    {packet : Packet L} {I : Bytes → List L → L → Prop}
    (h : self.Parses first input (.ok (rest, packet)))
    (hfirst : ∀ rest layer, first input = .ok (rest, layer) → I rest [] layer)
    (hnext : ∀ rest layers layer next rest' layer', I rest layers layer → rest ≠ [] →
      self.nextLayerParser layer rest = some next → next rest = .ok (rest', layer') →
      I rest' (layers ++ [layer]) layer') :
    ∃ layers layer, packet.layers = layers ++ [layer] ∧ I rest layers layer ∧
      (rest = [] ∨ self.nextLayerParser layer rest = none) := by
  unfold Parses at h
  cases hf : first input with
  | error e =>
    rw [hf] at h
    cases h
  | ok p =>
    obtain ⟨rest₀, layer₀⟩ := p
    rw [hf] at h
    have hpost := Loop.Returns.rule (I := fun s => I s.rest s.layers s.currentLayer)
      (P := fun r => ∀ rest packet, r = .ok (rest, packet) →
        ∃ layers layer, packet.layers = layers ++ [layer] ∧ I rest layers layer ∧
          (rest = [] ∨ self.nextLayerParser layer rest = none)) h (hfirst _ _ hf)
      (by
        intro s s' hs hstep
        rcases self.parseStep_cases s with ⟨next, rest', layer', hne, hn, hp, hstep'⟩ |
          ⟨next, e, -, -, -, hstep'⟩ | ⟨-, hstep'⟩
        · rw [hstep'] at hstep
          cases hstep
          exact hnext _ _ _ _ _ _ hs hne hn hp
        · rw [hstep'] at hstep
          cases hstep
        · rw [hstep'] at hstep
          cases hstep)
      (by
        intro s r hs hstep rest packet hr
        rcases self.parseStep_cases s with ⟨next, rest', layer', -, -, -, hstep'⟩ |
          ⟨next, e, -, -, -, hstep'⟩ | ⟨hend, hstep'⟩
        · rw [hstep'] at hstep
          cases hstep
        · rw [hstep', hr] at hstep
          cases hstep
        · rw [hstep', hr] at hstep
          cases hstep
          exact ⟨s.layers, s.currentLayer, rfl, hs, hend⟩)
    exact hpost _ _ rfl

end

end PacketParser

end Nata
