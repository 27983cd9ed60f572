/-
  Bindings extend the packet parser conservatively, and the newest wins.

  Registering a binding changes the parser's configuration, a map from layer types to lists of
  callbacks, and the question is what it changes of the parser's RESULTS.  Two configurations give
  the same result on an input as soon as they choose the same next parser wherever the loop asks for
  one (`parses_congr`); the loop asks in the states it reaches with input left (`Asks`).  So

  * a binding that returns nothing when it is consulted changes nothing, wherever it stands among
    the bindings of its type;
  * the newest binding of a type, if it always answers, makes the older ones of that type moot;
  * bindings of different types can be registered in any order;
  * parsing a layer and then the rest is parsing the rest behind the layer: the loop does not look
    at the layers it has collected (`Loop.returns_map`).
-/
import Nata.Packet.Bindings

namespace Nata

namespace PacketParser

variable {ι L : Type} [TypeIds ι L]

/-- The loop of `parse_packet` asks the bindings for the parser that follows `layer` on `rest`. -/
def Asks (self : PacketParser L) (first : ParseFn L) (input : Bytes) (layer : L) (rest : Bytes) :
    Prop :=
  rest ≠ [] ∧ ∃ rest₀ layer₀ layers, first input = .ok (rest₀, layer₀) ∧
    Loop.Reaches self.parseStep ⟨rest₀, [], layer₀⟩ ⟨rest, layers, layer⟩

/-- The parser with `binding` registered as the `i`-th binding of the type `t`. -/
def insertBinding [DecidableEq ι] (self : PacketParser L) (t : ι) (i : Nat)
    (binding : LayerBinding L t) : PacketParser L :=
  self.setCallbacks t ((self.callbacks t).take i ++ binding :: (self.callbacks t).drop i)

/-- The parser with the bindings of the type `t` removed. -/
def withoutCallbacks [DecidableEq ι] (self : PacketParser L) (t : ι) : PacketParser L where
  layerBindings := Function.update self.layerBindings t none

theorem callbacks_setCallbacks [DecidableEq ι] (self : PacketParser L) (t : ι)
    (cbs : List (LayerBinding L t)) : (self.setCallbacks t cbs).callbacks t = cbs := by
  have h : (self.setCallbacks t cbs).layerBindings t = some cbs := Function.update_self ..
  rw [callbacks, h]
  rfl

/-- Types other than `t` keep their callbacks. -/
theorem callbacks_setCallbacks_of_ne [DecidableEq ι] (self : PacketParser L) {t t' : ι}
    (h : t' ≠ t) (cbs : List (LayerBinding L t)) :
    (self.setCallbacks t cbs).callbacks t' = self.callbacks t' := by
  have h' : (self.setCallbacks t cbs).layerBindings t' = self.layerBindings t' :=
    Function.update_of_ne h ..
  rw [callbacks, h', callbacks]

theorem setCallbacks_withoutCallbacks [DecidableEq ι] (self : PacketParser L) (t : ι)
    (cbs : List (LayerBinding L t)) :
    (self.withoutCallbacks t).setCallbacks t cbs = self.setCallbacks t cbs := by
  unfold setCallbacks withoutCallbacks
  rw [Function.update_idem]

/-- Registered behind none, a binding is the only one. -/
theorem pushBinding_withoutCallbacks [DecidableEq ι] (self : PacketParser L) (t : ι)
    (binding : LayerBinding L t) :
    (self.withoutCallbacks t).pushBinding t binding = self.setCallbacks t [binding] := by
  have hnone : (self.withoutCallbacks t).layerBindings t = none := Function.update_self ..
  have hnil : (self.withoutCallbacks t).callbacks t = [] := by
    rw [callbacks, hnone]
    rfl
  rw [pushBinding, hnil, List.nil_append, setCallbacks_withoutCallbacks]

/-- The callback that was bound last is asked first. -/
theorem nextLayerParser_eq (self : PacketParser L) (layer : L) (rest : Bytes) :
    self.nextLayerParser layer rest =
      (self.callbacks (TypeIds.typeId layer)).reverse.findSome? fun cb => cb ⟨layer, rfl⟩ rest := by
  unfold nextLayerParser callbacks
  cases self.layerBindings (TypeIds.typeId layer) with
  | none => rfl
  | some cbs => rfl

/-- **Results depend on the choices where the loop asks for one**, and on nothing else. -/
theorem parses_congr {self other : PacketParser L} {first : ParseFn L} {input : Bytes}
    (h : ∀ layer rest, self.Asks first input layer rest →
      self.nextLayerParser layer rest = other.nextLayerParser layer rest)
    (r : Except PacketError (Bytes × Packet L)) :
    self.Parses first input r ↔ other.Parses first input r := by
  unfold Parses
  cases hf : first input with
  | error e => exact Iff.rfl
  | ok p =>
    refine Loop.returns_congr (fun s hs => ?_) r
    unfold parseStep
    by_cases hrest : s.rest = []
    · rw [hrest]
      rfl
    · rw [h _ _ ⟨hrest, p.1, p.2, s.layers, hf, hs⟩]

/-- A binding that returns nothing where it is consulted can be left out. -/
theorem parses_insertBinding [DecidableEq ι] (self : PacketParser L) {t : ι} {i : Nat}
    {binding : LayerBinding L t} {first : ParseFn L} {input : Bytes}
    (h : ∀ layer rest, (self.insertBinding t i binding).Asks first input layer.val rest →
      (∀ newer ∈ (self.callbacks t).drop i, newer layer rest = none) → binding layer rest = none)
    (r : Except PacketError (Bytes × Packet L)) :
    (self.insertBinding t i binding).Parses first input r ↔ self.Parses first input r := by
  refine parses_congr (fun layer rest hasks => ?_) r
  rw [nextLayerParser_eq, nextLayerParser_eq]
  by_cases ht : TypeIds.typeId layer = t
  · subst ht
    rw [insertBinding, callbacks_setCallbacks]
    conv_rhs => rw [← List.take_append_drop i (self.callbacks _)]
    rw [List.reverse_append, List.reverse_append, List.reverse_cons, List.append_assoc,
      List.findSome?_append, List.findSome?_append, List.findSome?_append]
    cases hnewer : ((self.callbacks _).drop i).reverse.findSome?
        fun cb => cb ⟨layer, rfl⟩ rest with
    | some next => rfl
    | none =>
      have hnone : ∀ newer ∈ (self.callbacks (TypeIds.typeId layer)).drop i,
          newer ⟨layer, rfl⟩ rest = none := fun newer hmem =>
        List.findSome?_eq_none_iff.mp hnewer newer (List.mem_reverse.mpr hmem)
      rw [List.findSome?_cons, h ⟨layer, rfl⟩ rest hasks hnone]
      rfl
  · rw [insertBinding, callbacks_setCallbacks_of_ne self ht]

/-- The newest binding of a type, if it always answers, hides the older ones. -/
theorem parses_pushBinding_of_isSome [DecidableEq ι] (self : PacketParser L) {t : ι}
    {binding : LayerBinding L t} {first : ParseFn L} {input : Bytes}
    (h : ∀ layer rest, (self.pushBinding t binding).Asks first input layer.val rest →
      (binding layer rest).isSome)
    (r : Except PacketError (Bytes × Packet L)) :
    (self.pushBinding t binding).Parses first input r ↔
      ((self.withoutCallbacks t).pushBinding t binding).Parses first input r := by
  refine parses_congr (fun layer rest hasks => ?_) r
  rw [pushBinding_withoutCallbacks, nextLayerParser_eq, nextLayerParser_eq]
  by_cases ht : TypeIds.typeId layer = t
  · subst ht
    obtain ⟨next, hnext⟩ := Option.isSome_iff_exists.mp (h ⟨layer, rfl⟩ rest hasks)
    rw [callbacks_setCallbacks, pushBinding, callbacks_setCallbacks, List.reverse_append,
      List.reverse_singleton, List.findSome?_append]
    simp only [List.findSome?_cons, hnext, Option.some_or]
  · rw [callbacks_setCallbacks_of_ne self ht, pushBinding, callbacks_setCallbacks_of_ne self ht]

/-- Bindings of different types do not see each other. -/
theorem pushBinding_comm [DecidableEq ι] (self : PacketParser L) {t t' : ι} (h : t ≠ t')
    (f : LayerBinding L t) (g : LayerBinding L t') :
    (self.pushBinding t f).pushBinding t' g = (self.pushBinding t' g).pushBinding t f := by
  rw [pushBinding, pushBinding, pushBinding, pushBinding, callbacks_setCallbacks_of_ne _ h.symm,
    callbacks_setCallbacks_of_ne _ h]
  unfold setCallbacks
  rw [PacketParser.mk.injEq]
  exact Function.update_comm h ..

/-- Put a layer in front of the layers of a result. -/
def prepend (layer : L) :
    Except PacketError (Bytes × Packet L) → Except PacketError (Bytes × Packet L) :=
  Except.map fun (rest, packet) => (rest, ⟨layer :: packet.layers⟩)

/-- The loop does not look at the layers it has collected. -/
theorem parseStep_prepend (self : PacketParser L) (layer : L) (s : ParseState L) :
    self.parseStep { s with layers := layer :: s.layers } =
      Sum.map (fun s => { s with layers := layer :: s.layers }) (prepend layer)
        (self.parseStep s) := by
  unfold parseStep
  by_cases hrest : s.rest = []
  · simp only [hrest]
    rfl
  · simp only [List.isEmpty_iff, hrest, if_false]
    cases self.nextLayerParser s.currentLayer s.rest with
    | none => rfl
    | some next =>
      cases hparse : next s.rest with
      | error e =>
        simp only [hparse]
        rfl
      | ok p =>
        simp only [hparse]
        rfl

/-- Parsing goes on behind a layer as if the rest were the input. -/
theorem parses_of_next {self : PacketParser L} {first next : ParseFn L} {input rest : Bytes}
    {layer : L} (hfirst : first input = .ok (rest, layer)) (hrest : rest ≠ [])
    (hnext : self.nextLayerParser layer rest = some next)
    (r : Except PacketError (Bytes × Packet L)) :
    self.Parses first input r ↔ ∃ r', self.Parses next rest r' ∧ r = prepend layer r' := by
  have hstart : self.Parses first input r ↔
      Loop.Returns self.parseStep ⟨rest, [], layer⟩ r := by
    unfold Parses
    rw [hfirst]
  have hstep := self.parseStep_cases ⟨rest, [], layer⟩
  rw [hstart]
  unfold Parses
  rcases hstep with ⟨next', newRest, nextLayer, -, hn, hparse, hstep⟩ |
    ⟨next', e, -, hn, hparse, hstep⟩ | ⟨hend, -⟩
  · obtain rfl : next' = next := Option.some.inj (hn.symm.trans hnext)
    have hparse : next' rest = .ok (newRest, nextLayer) := hparse
    rw [hparse, Loop.returns_of_next_iff hstep]
    show Loop.Returns self.parseStep ⟨newRest, layer :: [], nextLayer⟩ r ↔ _
    exact Loop.returns_map (s := (⟨newRest, [], nextLayer⟩ : ParseState L))
      (f := fun s : ParseState L => { s with layers := layer :: s.layers })
      (self.parseStep_prepend layer)
  · obtain rfl : next' = next := Option.some.inj (hn.symm.trans hnext)
    have hparse : next' rest = .error e := hparse
    rw [hparse, Loop.returns_of_stop_iff hstep]
    constructor
    · rintro rfl
      exact ⟨_, rfl, rfl⟩
    · rintro ⟨_, rfl, rfl⟩
      rfl
  · rcases hend with hnil | hnone
    · exact absurd hnil hrest
    · exact absurd (hnone.symm.trans hnext) nofun

/-- With bindings that consume input the loop ends, with at most one layer more than bytes. -/
theorem Consuming.parses {self : PacketParser L} (h : self.Consuming) {first : ParseFn L}
    {input : Bytes}
    (hfirst : ∀ rest layer, first input = .ok (rest, layer) → rest.length ≤ input.length) :
    ∃ r, self.Parses first input r ∧
      ∀ rest packet, r = .ok (rest, packet) → packet.layers.length ≤ input.length + 1 := by
  refine ⟨_, (parses_iff h).mpr rfl, fun rest packet hr => ?_⟩
  -- The invariant: a layer collected is a byte consumed.
  obtain ⟨layers, layer, hlayers, hinv, -⟩ := ((parses_iff h).mpr hr).rule
    (I := fun rest layers _ => layers.length + rest.length ≤ input.length)
    (by
      intro rest layer hf
      rw [List.length_nil, Nat.zero_add]
      exact hfirst _ _ hf)
    (by
      intro rest layers layer next rest' layer' hinv hne hnext hparse
      have hlt := h _ _ _ hne hnext _ _ hparse
      rw [List.length_append, List.length_singleton]
      omega)
  rw [hlayers, List.length_append, List.length_singleton]
  omega

end PacketParser

/-- **Bindings extend the parser conservatively and the newest wins.** -/
theorem bindings_extend {ι L : Type} [TypeIds ι L] [DecidableEq ι] (parser : PacketParser L)
    (first : ParseFn L) (input : Bytes) :
    (∀ (t : ι) (i : Nat) (f : LayerBinding L t),
      (∀ layer rest, (parser.insertBinding t i f).Asks first input layer.val rest →
        (∀ newer ∈ (parser.callbacks t).drop i, newer layer rest = none) → f layer rest = none) →
      ∀ r, (parser.insertBinding t i f).Parses first input r ↔ parser.Parses first input r) ∧
    (∀ (t : ι) (f : LayerBinding L t),
      (∀ layer rest, (parser.pushBinding t f).Asks first input layer.val rest →
        (f layer rest).isSome) →
      ∀ r, (parser.pushBinding t f).Parses first input r ↔
        ((parser.withoutCallbacks t).pushBinding t f).Parses first input r) ∧
    (∀ (t t' : ι) (f : LayerBinding L t) (g : LayerBinding L t'), t ≠ t' →
      ∀ r, ((parser.pushBinding t f).pushBinding t' g).Parses first input r ↔
        ((parser.pushBinding t' g).pushBinding t f).Parses first input r) ∧
    (∀ (layer : L) (rest : Bytes) (next : ParseFn L), first input = .ok (rest, layer) →
      rest ≠ [] → parser.nextLayerParser layer rest = some next →
      ∀ r, parser.Parses first input r ↔
        ∃ r', parser.Parses next rest r' ∧ r = PacketParser.prepend layer r') ∧
    (parser.Consuming →
      (∀ rest layer, first input = .ok (rest, layer) → rest.length ≤ input.length) →
      ∃ r, parser.Parses first input r ∧
        ∀ rest packet, r = .ok (rest, packet) → packet.layers.length ≤ input.length + 1) := by
  refine ⟨?_, ?_, ?_, ?_, ?_⟩
  · intro t i f h r
    exact parser.parses_insertBinding h r
  · intro t f h r
    exact parser.parses_pushBinding_of_isSome h r
  · intro t t' f g hne r
    rw [parser.pushBinding_comm hne]
  · intro layer rest next hfirst hrest hnext r
    exact PacketParser.parses_of_next hfirst hrest hnext r
  · intro hconsuming hfirst
    exact hconsuming.parses hfirst

theorem bindings_extend_udpFrame :
    letI := Deku.truncating
    let r := PacketParser.parseNew .Ether udpFrame
    ((PacketParser.new.insertBinding .Udp 0 fun _ _ => none).Parses (Layer.parse .Ether) udpFrame r ↔
      PacketParser.new.Parses (Layer.parse .Ether) udpFrame r) ∧
    ((PacketParser.new.pushBinding .Udp fun _ _ => some (Layer.parse .Icmp4)).Parses
        (Layer.parse .Ether) udpFrame r ↔
      ((PacketParser.new.withoutCallbacks .Udp).pushBinding .Udp fun _ _ =>
        some (Layer.parse .Icmp4)).Parses (Layer.parse .Ether) udpFrame r) ∧
    (((PacketParser.new.pushBinding .Udp fun _ _ => none).pushBinding .Tcp fun _ _ => none).Parses
        (Layer.parse .Ether) udpFrame r ↔
      ((PacketParser.new.pushBinding .Tcp fun _ _ => none).pushBinding .Udp fun _ _ => none).Parses
        (Layer.parse .Ether) udpFrame r) ∧
    (∃ layer rest, Layer.parse .Ether udpFrame = .ok (rest, layer) ∧
      (PacketParser.new.Parses (Layer.parse .Ether) udpFrame r ↔
        ∃ r', PacketParser.new.Parses (Layer.parse .Ipv4) rest r' ∧
          r = PacketParser.prepend layer r')) ∧
    ∃ r, PacketParser.new.Parses (Layer.parse .Ether) udpFrame r ∧
      ∀ rest packet, r = .ok (rest, packet) → packet.layers.length ≤ udpFrame.length + 1 := by
  let := Deku.truncating
  obtain ⟨hnone, hnewest, hcomm, hnext, hend⟩ :=
    bindings_extend PacketParser.new (Layer.parse .Ether) udpFrame
  have hparse : ∃ layer rest, Layer.parse .Ether udpFrame = .ok (rest, layer) ∧ rest ≠ [] ∧
      layer.nextType = some .Ipv4 := by
    have hok : ((Layer.parse .Ether udpFrame).map fun p => (p.1.isEmpty, p.2.nextType)) =
        .ok (false, some .Ipv4) := by decide +kernel
    obtain ⟨⟨rest, layer⟩, hp, h⟩ := except_map_eq_ok.mp hok
    obtain ⟨hrest, hlayer⟩ := Prod.mk.inj h
    exact ⟨layer, rest, hp, by simpa using hrest, hlayer⟩
  obtain ⟨layer, rest, hp, hrest, hlayer⟩ := hparse
  refine ⟨hnone .Udp 0 _ (fun _ _ _ _ => rfl) _, hnewest .Udp _ (fun _ _ _ => rfl) _,
    hcomm .Udp .Tcp _ _ (by decide) _, ⟨layer, rest, hp, ?_⟩, ?_⟩
  · refine hnext layer rest (Layer.parse .Ipv4) hp hrest ?_ _
    rw [PacketParser.nextLayerParser_new, hlayer]
    rfl
  · refine hend PacketParser.consuming_new fun rest layer h => ?_
    obtain ⟨-, -, -, bytes, -, hin⟩ := Layer.parse_eq_ok.mp h
    rw [hin, List.length_append]
    omega

end Nata
