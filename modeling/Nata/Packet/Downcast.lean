/-
  The downcast in `bind_layer` does not fail.

  The map of a packet parser holds callbacks on boxed layers.  `bind_layer::<T>` makes one of a
  function on `T`: it downcasts its argument to `T`, and panics if that fails.

      let l = get_layer!(current_layer, LayerType).expect("dev error: This is always Some");

  The comment there says that the callback is only called with layers of type `T`.  Nothing in its
  type says so; it is an invariant of the map, kept by `bind_layer`, that the callbacks of the entry of
  a type return on all layers of the type (`Typed`).  `parse_packet` looks up the entry of the type
  of the current layer.

  `PacketParser` has the invariant in its type.  A parser on boxed layers that is built by calling
  `bind_layer`, in any order and for any types, behaves as the one with the invariant: its
  `parse_packet` never panics (`boxed_parses_iff`).
-/
import Nata.Packet.Bindings

namespace Nata

/-- A panic, with its message. -/
structure Panic where
  message : String
  deriving DecidableEq, Repr

/-- `Option::expect` -/
def expect {α : Type} (value : Option α) (message : String) : Except Panic α :=
  match value with
  | some a => .ok a
  | none => .error ⟨message⟩

/-- A callback as the map holds it. -/
abbrev BoxedBinding (L : Type) : Type := L → Bytes → Except Panic (Option (ParseFn L))

/-- The packet parser with callbacks on boxed layers. -/
structure BoxedParser {ι : Type} (L : Type) [TypeIds ι L] where
  layerBindings : ι → Option (List (BoxedBinding L))

namespace BoxedParser

variable {ι L : Type} [TypeIds ι L]

/-- Create a packet parser without any default bindings. -/
def withoutBindings : BoxedParser L where
  layerBindings _ := none

/-- The callback that `bind_layer` makes of a function on `T`. -/
def downcast {T : Type} [LayerOf ι L T] (f : T → Bytes → Option (ParseFn L)) : BoxedBinding L :=
  fun currentLayer rest => do
    let l ← expect (LayerOf.getLayer currentLayer) "dev error: This is always Some"
    return f l rest

/-- Add a layer binding to the packet parser. -/
def bindLayer [DecidableEq ι] (self : BoxedParser L) {T : Type} [LayerOf ι L T]
    (f : T → Bytes → Option (ParseFn L)) : BoxedParser L where
  layerBindings :=
    let bindings := (self.layerBindings (LayerOf.id L T)).getD []
    Function.update self.layerBindings (LayerOf.id L T) (some (bindings ++ [downcast f]))

/-- The labelled loop over the callbacks. -/
def firstParser (currentLayer : L) (rest : Bytes) :
    List (BoxedBinding L) → Except Panic (Option (ParseFn L))
  | [] => return none
  | cb :: callbacks => do
    let parser ← cb currentLayer rest
    if parser.isSome then
      return parser
    else
      firstParser currentLayer rest callbacks

/-- The parser for the next layer: that of the last callback that returns one. -/
def nextLayerParser (self : BoxedParser L) (currentLayer : L) (rest : Bytes) :
    Except Panic (Option (ParseFn L)) :=
  match self.layerBindings (TypeIds.typeId currentLayer) with
  | some callbacks => firstParser currentLayer rest callbacks.reverse
  | none => return none

/-- One round of the loop of `parse_packet`. -/
def parseStep (self : BoxedParser L) (s : ParseState L) :
    ParseState L ⊕ Except Panic (Except PacketError (Bytes × Packet L)) :=
  if s.rest.isEmpty then
    .inr (.ok (.ok (s.rest, ⟨s.layers ++ [s.currentLayer]⟩)))
  else
    match self.nextLayerParser s.currentLayer s.rest with
    | .error panic => .inr (.error panic)
    | .ok (some nextLayerParser) =>
      match nextLayerParser s.rest with
      | .ok (newRest, nextLayer) => .inl
          { rest := newRest, layers := s.layers ++ [s.currentLayer], currentLayer := nextLayer }
      | .error e => .inr (.ok (.error (.ofLayerError e)))
    | .ok none => .inr (.ok (.ok (s.rest, ⟨s.layers ++ [s.currentLayer]⟩)))

/-- `parse_packet`, started with the parser of the first layer, returns or panics on `input`. -/
def Parses (self : BoxedParser L) (first : ParseFn L) (input : Bytes)
    (r : Except Panic (Except PacketError (Bytes × Packet L))) : Prop :=
  match first input with
  | .ok (rest, layer) =>
    Loop.Returns self.parseStep { rest, layers := [], currentLayer := layer } r
  | .error e => r = .ok (.error (.ofLayerError e))

/-! ## The invariant -/

/-- On the layers of its type the callback returns what the binding does. -/
def Agrees {t : ι} (cb : BoxedBinding L) (binding : LayerBinding L t) : Prop :=
  ∀ (layer : L) (h : TypeIds.typeId layer = t) (rest : Bytes),
    cb layer rest = .ok (binding ⟨layer, h⟩ rest)

/-- Every entry has as many callbacks as the parser has bindings, and they agree. -/
def Typed (self : BoxedParser L) (parser : PacketParser L) : Prop :=
  ∀ t, Option.Rel (List.Forall₂ Agrees) (self.layerBindings t) (parser.layerBindings t)

theorem agrees_downcast {T : Type} [LayerOf ι L T] (f : T → Bytes → Option (ParseFn L)) :
    Agrees (t := LayerOf.id L T) (downcast f) fun currentLayer rest =>
      f ((LayerOf.getLayer currentLayer.val).get
        (LayerOf.isSome_getLayer currentLayer.val currentLayer.property)) rest := by
  intro layer h rest
  obtain ⟨l, hl⟩ := Option.isSome_iff_exists.mp (LayerOf.isSome_getLayer (T := T) layer h)
  simp only [downcast, hl, Option.get_some]
  rfl

/-- Without bindings nothing can go wrong. -/
theorem typed_withoutBindings :
    (withoutBindings : BoxedParser L).Typed PacketParser.withoutBindings := fun _ => .none

omit [TypeIds ι L] in
/-- `or_default()` on both sides. -/
theorem forall₂_getD {α β : Type} {R : α → β → Prop} {xs : Option (List α)} {ys : Option (List β)}
    (h : Option.Rel (List.Forall₂ R) xs ys) : List.Forall₂ R (xs.getD []) (ys.getD []) := by
  cases h with
  | none => exact .nil
  | some hall => exact hall

/-- **`bind_layer` keeps the invariant.** -/
theorem Typed.bindLayer [DecidableEq ι] {self : BoxedParser L} {parser : PacketParser L}
    (h : self.Typed parser) {T : Type} [LayerOf ι L T] (f : T → Bytes → Option (ParseFn L)) :
    (self.bindLayer f).Typed (parser.bindLayer f) := by
  intro t
  by_cases ht : t = LayerOf.id L T
  · subst ht
    have hself : (self.bindLayer f).layerBindings (LayerOf.id L T) =
        some ((self.layerBindings (LayerOf.id L T)).getD [] ++ [downcast f]) :=
      Function.update_self ..
    have hparser : (parser.bindLayer f).layerBindings (LayerOf.id L T) =
        some ((parser.layerBindings (LayerOf.id L T)).getD [] ++ [fun currentLayer rest =>
          f ((LayerOf.getLayer currentLayer.val).get
            (LayerOf.isSome_getLayer currentLayer.val currentLayer.property)) rest]) :=
      Function.update_self ..
    rw [hself, hparser]
    have hold := forall₂_getD (h (LayerOf.id L T))
    exact .some (List.rel_append hold (.cons (agrees_downcast f) .nil))
  · have hself : (self.bindLayer f).layerBindings t = self.layerBindings t :=
      Function.update_of_ne ht ..
    have hparser : (parser.bindLayer f).layerBindings t = parser.layerBindings t :=
      Function.update_of_ne ht ..
    rw [hself, hparser]
    exact h t

/-! ## The loop -/

/-- Callbacks that agree with bindings of the type of the layer choose the same parser. -/
theorem firstParser_eq {currentLayer : L} {rest : Bytes} {callbacks : List (BoxedBinding L)}
    {bindings : List (LayerBinding L (TypeIds.typeId currentLayer))}
    (h : List.Forall₂ Agrees callbacks bindings) :
    firstParser currentLayer rest callbacks =
      .ok (bindings.findSome? fun cb => cb ⟨currentLayer, rfl⟩ rest) := by
  induction h with
  | nil => rfl
  | @cons cb binding callbacks bindings hcb _ ih =>
    rw [firstParser, hcb currentLayer rfl rest, List.findSome?_cons]
    cases binding ⟨currentLayer, rfl⟩ rest with
    | none => exact ih
    | some parser => rfl

/-- The callbacks of a typed parser find what the typed bindings find. -/
theorem Typed.nextLayerParser {self : BoxedParser L} {parser : PacketParser L}
    (h : self.Typed parser) (currentLayer : L) (rest : Bytes) :
    self.nextLayerParser currentLayer rest = .ok (parser.nextLayerParser currentLayer rest) := by
  unfold BoxedParser.nextLayerParser PacketParser.nextLayerParser
  have hentry := h (TypeIds.typeId currentLayer)
  cases hself : self.layerBindings (TypeIds.typeId currentLayer) with
  | none =>
    rw [hself] at hentry
    cases hparser : parser.layerBindings (TypeIds.typeId currentLayer) with
    | none => rfl
    | some bindings =>
      rw [hparser] at hentry
      cases hentry
  | some callbacks =>
    rw [hself] at hentry
    cases hparser : parser.layerBindings (TypeIds.typeId currentLayer) with
    | none =>
      rw [hparser] at hentry
      cases hentry
    | some bindings =>
      rw [hparser] at hentry
      cases hentry with
      | some hcallbacks => exact firstParser_eq (List.rel_reverse hcallbacks)

/-- One step of the loop is the same. -/
theorem Typed.parseStep {self : BoxedParser L} {parser : PacketParser L} (h : self.Typed parser)
    (s : ParseState L) : self.parseStep s = Sum.map id .ok (parser.parseStep s) := by
  unfold BoxedParser.parseStep PacketParser.parseStep
  rw [h.nextLayerParser]
  by_cases hrest : s.rest.isEmpty
  · rw [if_pos hrest, if_pos hrest]
    rfl
  · rw [if_neg hrest, if_neg hrest]
    cases parser.nextLayerParser s.currentLayer s.rest with
    | none => rfl
    | some next =>
      dsimp only
      cases next s.rest <;> rfl

/-- **And so is the whole run.** -/
theorem Typed.parses_iff {self : BoxedParser L} {parser : PacketParser L} (h : self.Typed parser)
    {first : ParseFn L} {input : Bytes}
    {r : Except Panic (Except PacketError (Bytes × Packet L))} :
    self.Parses first input r ↔ ∃ r', parser.Parses first input r' ∧ r = .ok r' := by
  unfold BoxedParser.Parses PacketParser.Parses
  cases first input with
  | error e => simp
  | ok p => exact Loop.returns_map (f := id) h.parseStep

end BoxedParser

/-! ## Any number of calls -/

/-- A call of `bind_layer`. -/
structure BindLayer {ι : Type} (L : Type) [TypeIds ι L] where
  LayerType : Type
  [layerOf : LayerOf ι L LayerType]
  f : LayerType → Bytes → Option (ParseFn L)

attribute [instance] BindLayer.layerOf

section

variable {ι L : Type} [TypeIds ι L] [DecidableEq ι]

/-- A series of calls of `bind_layer`. -/
def BoxedParser.bindLayers (self : BoxedParser L) (calls : List (BindLayer L)) : BoxedParser L :=
  calls.foldl (fun self call => self.bindLayer call.f) self

/-- The typed bindings that these calls stand for. -/
def PacketParser.bindLayers (self : PacketParser L) (calls : List (BindLayer L)) :
    PacketParser L :=
  calls.foldl (fun self call => self.bindLayer call.f) self

theorem BoxedParser.Typed.bindLayers {self : BoxedParser L} {parser : PacketParser L}
    (h : self.Typed parser) (calls : List (BindLayer L)) :
    (self.bindLayers calls).Typed (parser.bindLayers calls) := by
  induction calls generalizing self parser with
  | nil => exact h
  | cons call calls ih => exact ih (h.bindLayer call.f)

/-- **The downcasts in the bindings never fail.**  Whatever is bound, in whatever order, `parse_packet`
    returns what the parser does whose bindings have their type, and it does not panic. -/
theorem boxed_parses_iff (calls : List (BindLayer L)) (first : ParseFn L) (input : Bytes)
    (r : Except Panic (Except PacketError (Bytes × Packet L))) :
    (BoxedParser.withoutBindings.bindLayers calls).Parses first input r ↔
      ∃ r', (PacketParser.withoutBindings.bindLayers calls).Parses first input r' ∧ r = .ok r' :=
  (BoxedParser.typed_withoutBindings.bindLayers calls).parses_iff

end

/-- `create_packetparser`, call by call. -/
def defaultBindings [Deku] : List (BindLayer Layer) :=
  [{ LayerType := Ether
     f := fun ether _rest =>
      match ether.etherType with
      | .IPv4 => some (Layer.parse .Ipv4)
      | .IPv6 => some (Layer.parse .Ipv6)
      | _ => some (Layer.parse .Raw) },
   { LayerType := Ipv4
     f := fun ipv4 _rest =>
      match ipv4.protocol with
      | .TCP => some (Layer.parse .Tcp)
      | .UDP => some (Layer.parse .Udp)
      | .ICMP => some (Layer.parse .Icmp4)
      | _ => some (Layer.parse .Raw) },
   { LayerType := Ipv6
     f := fun ipv6 _rest =>
      match ipv6.nextHeader with
      | .TCP => some (Layer.parse .Tcp)
      | .UDP => some (Layer.parse .Udp)
      | _ => some (Layer.parse .Raw) },
   { LayerType := Tcp, f := fun _tcp _rest => some (Layer.parse .Raw) },
   { LayerType := Udp, f := fun _udp _rest => some (Layer.parse .Raw) }]

/-- `PacketParser::new()` on boxed layers returns, and what it returns is known. -/
theorem boxed_new_parses_iff [Deku] {t : LayerType} {input : Bytes}
    {r : Except Panic (Except PacketError (Bytes × Packet Layer))} :
    (BoxedParser.withoutBindings.bindLayers defaultBindings).Parses (Layer.parse t) input r ↔
      r = .ok (PacketParser.parseNew t input) := by
  have htyped := BoxedParser.typed_withoutBindings.bindLayers defaultBindings
  have hnew : PacketParser.withoutBindings.bindLayers defaultBindings = PacketParser.new := rfl
  rw [htyped.parses_iff, hnew]
  constructor
  · rintro ⟨r', hr', rfl⟩
    rw [PacketParser.parses_new_iff.mp hr']
  · rintro rfl
    exact ⟨_, PacketParser.parses_new_iff.mpr rfl, rfl⟩

end Nata
