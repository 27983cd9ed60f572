/-
  Frames that are captured in part.

  A capture may cut a frame (a snap length), and a stream may not have delivered all of it yet.  What
  `parse_packet` makes of the front of an input says something about the whole:

  * an error other than `Incomplete` is final: whatever follows, the error is the same
    (`definite_error_final`);
  * if the whole is a packet, its front is incomplete, or it is the same packet up to some layer
    (`cut_frame`).  Only a layer that extends to the end of the input is cut itself.

  The headers are formats that are read on line; Icmp4 and Raw read to the end, but they only ever
  ask for more.
-/
import Nata.Lib.Online
import Nata.Packet.Grammar
import Nata.Packet.Settled

namespace Nata

/-! ## Each format -/

theorem EtherType.online_codec : EtherType.codec.Online := NamedCodes.online_codec

theorem IpProtocol.online_codec : IpProtocol.codec.Online := NamedCodes.online_codec

theorem MacAddress.online_codec : MacAddress.codec.Online := (Codec.online_uint.array 6).iso

theorem Ether.online_codec : Ether.codec.Online :=
  (MacAddress.online_codec.seq fun _ => MacAddress.online_codec.seq fun _ =>
    EtherType.online_codec).iso

theorem Udp.online_codec : Udp.codec.Online :=
  (Codec.online_uint.seq fun _ => Codec.online_uint.seq fun _ => Codec.online_uint.seq fun _ =>
    Codec.online_uint).iso

theorem SAckData.online_codec : SAckData.codec.Online :=
  (Codec.online_uint.seq fun _ => Codec.online_uint).iso

theorem TimestampData.online_codec : TimestampData.codec.Online :=
  (Codec.online_uint.seq fun _ => Codec.online_uint).iso

theorem Ipv4OptionType.online_unknown : Ipv4OptionType.unknown.Online :=
  Codec.online_uint.seq fun _ => Codec.online_uint.count

section

variable [Deku]

theorem Ipv6.online_codec : Ipv6.codec.Online :=
  ((Codec.online_bits _).seq fun _ => (Codec.online_bits _).seq fun _ =>
    (Codec.online_bits _).seq fun _ => (Codec.online_bits _).seq fun _ =>
    Codec.online_uint.seq fun _ => IpProtocol.online_codec.seq fun _ =>
    Codec.online_uint.seq fun _ => Codec.online_uint.seq fun _ => Codec.online_uint).iso

theorem TcpFlags.online_codec : TcpFlags.codec.Online :=
  ((Codec.online_bits _).seq fun _ => (Codec.online_bits _).seq fun _ =>
    (Codec.online_bits _).seq fun _ => (Codec.online_bits _).seq fun _ =>
    (Codec.online_bits _).seq fun _ => (Codec.online_bits _).seq fun _ =>
    (Codec.online_bits _).seq fun _ => (Codec.online_bits _).seq fun _ =>
    (Codec.online_bits _).seq fun _ => Codec.online_bits _).iso

/-- An option is read online: what its kind asks for comes behind the kind. -/
theorem TcpOption.online_codec : TcpOption.codec.Online := by
  refine Codec.Online.enum Codec.online_uint fun i => ?_
  unfold TcpOption.variant
  split
  · exact Codec.online_const
  · exact Codec.online_const
  · exact (Codec.online_uint.seq fun _ => Codec.online_uint).map
  · exact (Codec.online_uint.seq fun _ => Codec.online_uint).map
  · exact Codec.online_uint.map
  · exact (Codec.online_uint.seq fun _ => SAckData.online_codec.count).map
  · exact (Codec.online_uint.seq fun _ => TimestampData.online_codec).map
  · exact Codec.online_reject

/-- A header is: the offset comes before the options. -/
theorem Tcp.online_codec : Tcp.codec.Online :=
  (Codec.online_uint.seq fun _ => Codec.online_uint.seq fun _ => Codec.online_uint.seq fun _ =>
    Codec.online_uint.seq fun _ => (Codec.online_bits _).seq fun _ =>
    TcpFlags.online_codec.seq fun _ => Codec.online_uint.seq fun _ => Codec.online_uint.seq fun _ =>
    Codec.online_uint.seq fun _ => TcpOption.online_codec.bytesRead).iso

theorem Ipv4OptionClass.online_codec : Ipv4OptionClass.codec.Online := by
  refine Codec.Online.enum (Codec.online_bits _) fun i => ?_
  unfold Ipv4OptionClass.variant
  split
  · exact Codec.online_const
  · exact Codec.online_const
  · exact Codec.online_const
  · exact Codec.online_const
  · exact Codec.online_reject

theorem Ipv4OptionType.online_codec : Ipv4OptionType.codec.Online := by
  refine Codec.Online.enum (Codec.online_bits _) fun i => ?_
  unfold Ipv4OptionType.variant
  split
  · exact Codec.online_const
  · exact Codec.online_const
  · exact Ipv4OptionType.online_unknown.map

theorem Ipv4Option.online_codec : Ipv4Option.codec.Online :=
  ((Codec.online_bits _).seq fun _ => Ipv4OptionClass.online_codec.seq fun _ =>
    Ipv4OptionType.online_codec).iso

/-- A header is: the header length comes before the options. -/
theorem Ipv4.online_codec : Ipv4.codec.Online := by
  unfold Ipv4.codec Ipv4.codecWith
  exact ((Codec.online_bits _).seq fun _ => (Codec.online_bits _).seq fun _ =>
    (Codec.online_bits _).seq fun _ => (Codec.online_bits _).seq fun _ =>
    Codec.online_uint.seq fun _ => Codec.online_uint.seq fun _ => (Codec.online_bits _).seq fun _ =>
    (Codec.online_bits _).seq fun _ => Codec.online_uint.seq fun _ =>
    IpProtocol.online_codec.seq fun _ => Codec.online_uint.seq fun _ => Codec.online_uint.seq fun _ =>
    Codec.online_uint.seq fun _ => Ipv4Option.online_codec.bytesRead).iso

/-! ## Each layer -/

/-- An error other than that the input is incomplete. -/
def LayerError.Definite (e : LayerError) : Prop := ∀ size, e ≠ .incomplete size

/-- The same of a packet. -/
def PacketError.Definite (e : PacketError) : Prop := ∀ size, e ≠ .incomplete size

/-- A definite error of a layer stands, whatever follows. -/
theorem derivedParse_definite {α : Type} {R : Bits → Prop} {c : Codec R α} (hc : c.Online)
    {front : Bytes} {e : LayerError} (h : derivedParse c front = .error e) (hdef : e.Definite)
    (back : Bytes) : derivedParse c (front ++ back) = .error e := by
  obtain ⟨d, hread, rfl⟩ := derivedParse_eq_error.mp h
  refine derivedParse_eq_error.mpr ⟨d, ?_, rfl⟩
  rw [toBits_append]
  refine (hc (toBits front) (toBits back)).2 d hread ?_
  rintro need rfl
  exact hdef _ rfl

omit [Deku] in
/-- A message of fewer than eight bytes is short, whatever they are. -/
theorem Icmp4.short_of_lt {front : Bytes} (h : front.length < 8) :
    Icmp4.codec.read.Short (toBits front) := by
  refine Reader.short_map_iff.mpr (Codec.seq_short_of_lt (k := 8) (m := 56) NamedCodes.total_codec
    (fun bs hbs => NamedCodes.short_of_lt hbs) (fun _ => ?_) _ ?_)
  · refine Codec.seq_short_of_lt (k := 8) (m := 48) Codec.total_uint
      (fun bs hbs => Codec.uint_short_of_lt hbs) fun _ => ?_
    refine Codec.seq_short_of_lt (k := 16) (m := 32) Codec.total_uint
      (fun bs hbs => Codec.uint_short_of_lt hbs) fun _ => ?_
    intro bs hbs
    exact Reader.bind_short_iff.mpr (.inl (Codec.uint_short_of_lt hbs))
  · rw [length_toBits]
    omega

/-- The error of a header that is wrong, and not too short, stays. -/
theorem Layer.parse_definite {t : LayerType} {front : Bytes} {e : LayerError}
    (h : Layer.parse t front = .error e) (hdef : e.Definite) (back : Bytes) :
    Layer.parse t (front ++ back) = .error e := by
  cases t with
  | Ether =>
    exact parseLayer_eq_error.mpr
      (derivedParse_definite Ether.online_codec (parseLayer_eq_error.mp h) hdef back)
  | Ipv4 =>
    exact parseLayer_eq_error.mpr
      (derivedParse_definite Ipv4.online_codec (parseLayer_eq_error.mp h) hdef back)
  | Ipv6 =>
    exact parseLayer_eq_error.mpr
      (derivedParse_definite Ipv6.online_codec (parseLayer_eq_error.mp h) hdef back)
  | Tcp =>
    exact parseLayer_eq_error.mpr
      (derivedParse_definite Tcp.online_codec (parseLayer_eq_error.mp h) hdef back)
  | Udp =>
    exact parseLayer_eq_error.mpr
      (derivedParse_definite Udp.online_codec (parseLayer_eq_error.mp h) hdef back)
  | Icmp4 =>
    -- The only thing that can be wrong is that bytes are missing.
    by_cases h8 : front.length < 8
    · obtain ⟨size, hsize⟩ := derivedParse_incomplete_iff.mpr (Icmp4.short_of_lt h8)
      have he : derivedParse Icmp4.codec front = .error e := parseLayer_eq_error.mp h
      exact absurd (Except.error.inj (he.symm.trans hsize)) (hdef size)
    · have hfront : Front .Icmp4 front front.length := ⟨rfl, Nat.le_of_not_lt h8⟩
      obtain ⟨layer, hok⟩ := Layer.parse_front_iff.mpr ⟨_, hfront, rfl⟩
      cases h.symm.trans hok
  | Raw =>
    have hfront : Front .Raw front front.length := rfl
    obtain ⟨layer, hok⟩ := Layer.parse_front_iff.mpr ⟨_, hfront, rfl⟩
    cases h.symm.trans hok

/-- A header with an end is parsed from the front of its input. -/
theorem Layer.parse_append {t : LayerType} {front rest : Bytes} {layer : Layer}
    (ht : ¬t.ReadsAll) (h : Layer.parse t front = .ok (rest, layer)) (back : Bytes) :
    Layer.parse t (front ++ back) = .ok (rest ++ back, layer) := by
  obtain ⟨htype, hvalid, -, bytes, hbytes, rfl⟩ := Layer.parse_eq_ok.mp h
  exact Layer.parse_eq_ok.mpr ⟨htype, hvalid, fun hall => absurd hall ht, bytes, hbytes,
    List.append_assoc ..⟩

omit [Deku] in
/-- Only a layer with an end names another. -/
theorem Layer.not_readsAll {layer : Layer} {t : LayerType} (h : layer.nextType = some t) :
    ¬layer.typeId.ReadsAll := by
  cases layer with
  | ether | ipv4 | ipv6 | tcp | udp => exact nofun
  | icmp4 | raw => cases h

/-! ## Frames -/

omit [Deku] in
theorem PacketError.ofLayerError_definite {e : LayerError}
    (h : (PacketError.ofLayerError e).Definite) : e.Definite := by
  rintro size rfl
  exact h size rfl

/-- A header that names another is not empty. -/
theorem PacketParser.length_lt_of_next {t t' : LayerType} {input rest : Bytes} {layer : Layer}
    (h : Layer.parse t input = .ok (rest, layer)) (hnext : layer.nextType = some t') :
    rest.length < input.length := by
  obtain ⟨n, hfront, -, rfl⟩ := Layer.data_of_parse h
  have hpos := hfront.pos ((Layer.nextType_of_parse h).symm.trans hnext)
  have hle := hfront.le
  rw [List.length_drop]
  omega

/-- A definite error of a packet stands, whatever follows. -/
theorem parseNew_definite {t : LayerType} {front : Bytes} {e : PacketError}
    (h : PacketParser.parseNew t front = .error e) (hdef : e.Definite) (back : Bytes) :
    PacketParser.parseNew t (front ++ back) = .error e := by
  induction hlen : front.length using Nat.strong_induction_on generalizing t front with
  | _ k ih =>
    subst hlen
    cases hparse : Layer.parse t front with
    | error e' =>
      obtain rfl := Except.error.inj ((PacketParser.parseNew_of_error hparse).symm.trans h)
      exact PacketParser.parseNew_of_error
        (Layer.parse_definite hparse (PacketError.ofLayerError_definite hdef) back)
    | ok p =>
      obtain ⟨rest, layer⟩ := p
      by_cases hrest : rest = []
      · rw [PacketParser.parseNew_of_end hparse (.inl hrest)] at h
        cases h
      · cases hnext : layer.nextType with
        | none =>
          rw [PacketParser.parseNew_of_end hparse (.inr hnext)] at h
          cases h
        | some t' =>
          rw [PacketParser.parseNew_of_next hparse hrest hnext] at h
          have h' : PacketParser.parseNew t' rest = .error e := by
            cases hr : PacketParser.parseNew t' rest with
            | error e' =>
              rw [hr] at h
              exact h
            | ok p =>
              rw [hr] at h
              cases h
          have htype : layer.typeId = t := (Layer.parse_eq_ok.mp hparse).1
          have hall : ¬t.ReadsAll := htype ▸ Layer.not_readsAll hnext
          have hlt := PacketParser.length_lt_of_next hparse hnext
          have hback : rest ++ back ≠ [] := fun hnil => hrest (List.append_eq_nil_iff.mp hnil).1
          rw [PacketParser.parseNew_of_next (Layer.parse_append hall hparse back) hback hnext,
            ih _ hlt h' rfl]
          rfl

/-- The layers up to some layer, which is cut if it is one that extends to the end of the input. -/
inductive CutTo : List Layer → List Layer → Prop
  | last {layer layer' back} : layer'.typeId = layer.typeId → layer'.data <+: layer.data →
      (¬layer.typeId.ReadsAll → layer' = layer) → CutTo (layer :: back) [layer']
  | cons {layer layers layers'} : CutTo layers layers' → CutTo (layer :: layers) (layer :: layers')

/-- What is left of a frame when it is cut. -/
theorem parseNew_cut {t : LayerType} {front back rest : Bytes} {packet : Packet Layer}
    (h : PacketParser.parseNew t (front ++ back) = .ok (rest, packet)) :
    (∃ size, PacketParser.parseNew t front = .error (.incomplete size)) ∨
      ∃ packet', PacketParser.parseNew t front = .ok ([], packet') ∧
        CutTo packet.layers packet'.layers := by
  induction hlen : front.length using Nat.strong_induction_on generalizing t front packet with
  | _ k ih =>
    subst hlen
    cases hparse : Layer.parse t front with
    | error e =>
      by_cases hdef : e.Definite
      · have hwhole := Layer.parse_definite hparse hdef back
        rw [PacketParser.parseNew_of_error hwhole] at h
        cases h
      · unfold LayerError.Definite at hdef
        push Not at hdef
        obtain ⟨size, rfl⟩ := hdef
        exact .inl ⟨size, PacketParser.parseNew_of_error hparse⟩
    | ok p =>
      obtain ⟨rest', layer⟩ := p
      have htype : layer.typeId = t := (Layer.parse_eq_ok.mp hparse).1
      by_cases hall : t.ReadsAll
      · -- The whole input is one layer, and so is its front.
        obtain ⟨-, -, hnil, bytes, hbytes, rfl⟩ := Layer.parse_eq_ok.mp hparse
        obtain rfl := hnil hall
        refine .inr ⟨_, PacketParser.parseNew_of_end hparse (.inl rfl), ?_⟩
        cases hwhole : Layer.parse t (bytes ++ [] ++ back) with
        | error e =>
          rw [PacketParser.parseNew_of_error hwhole] at h
          cases h
        | ok p =>
          obtain ⟨rest', layer'⟩ := p
          obtain ⟨htype', -, hnil', bytes', hbytes', hin⟩ := Layer.parse_eq_ok.mp hwhole
          obtain rfl := hnil' hall
          rw [PacketParser.parseNew_of_end hwhole (.inl rfl)] at h
          obtain ⟨-, rfl⟩ := Prod.mk.inj (Except.ok.inj h)
          rw [List.append_nil, List.append_nil] at hin
          refine .last (htype.trans htype'.symm) ?_ fun hnot => absurd (htype' ▸ hall) hnot
          rw [Layer.data_eq hbytes, Layer.data_eq hbytes', ← hin]
          exact List.prefix_append bytes back
      · have hwhole := Layer.parse_append hall hparse back
        by_cases hrest : rest' = []
        · -- The cut is at the end of the layer.
          refine .inr ⟨⟨[layer]⟩, ?_, ?_⟩
          · rw [PacketParser.parseNew_of_end hparse (.inl hrest), hrest]
          · have hlayers : ∃ layers, packet.layers = layer :: layers := by
              cases hnext : layer.nextType with
              | none =>
                rw [PacketParser.parseNew_of_end hwhole (.inr hnext)] at h
                obtain ⟨-, rfl⟩ := Prod.mk.inj (Except.ok.inj h)
                exact ⟨[], rfl⟩
              | some t' =>
                by_cases hback : rest' ++ back = []
                · rw [PacketParser.parseNew_of_end hwhole (.inl hback)] at h
                  obtain ⟨-, rfl⟩ := Prod.mk.inj (Except.ok.inj h)
                  exact ⟨[], rfl⟩
                · rw [PacketParser.parseNew_of_next hwhole hback hnext] at h
                  obtain ⟨⟨_, packet'⟩, -, heq⟩ := except_map_eq_ok.mp h
                  obtain ⟨-, rfl⟩ := Prod.mk.inj heq
                  exact ⟨packet'.layers, rfl⟩
            obtain ⟨layers, hlayers⟩ := hlayers
            rw [hlayers]
            exact .last rfl (List.prefix_refl _) fun _ => rfl
        · cases hnext : layer.nextType with
          | none =>
            have hreads : layer.typeId.ReadsAll := by
              cases layer with
              | icmp4 | raw => trivial
              | ether | ipv4 | ipv6 | tcp | udp => cases hnext
            exact absurd (htype ▸ hreads) hall
          | some t' =>
            have hback : rest' ++ back ≠ [] := fun hnil => hrest (List.append_eq_nil_iff.mp hnil).1
            rw [PacketParser.parseNew_of_next hwhole hback hnext] at h
            obtain ⟨⟨_, packet'⟩, h', heq⟩ := except_map_eq_ok.mp h
            obtain ⟨rfl, rfl⟩ := Prod.mk.inj heq
            have hlt := PacketParser.length_lt_of_next hparse hnext
            rcases ih _ hlt h' rfl with ⟨size, herror⟩ | ⟨cut, hok, hcut⟩
            · refine .inl ⟨size, ?_⟩
              rw [PacketParser.parseNew_of_next hparse hrest hnext, herror]
              rfl
            · refine .inr ⟨⟨layer :: cut.layers⟩, ?_, .cons hcut⟩
              rw [PacketParser.parseNew_of_next hparse hrest hnext, hok]
              rfl

/-- **A definite error is final.** -/
theorem definite_error_final {t : LayerType} {front : Bytes} {e : PacketError}
    (h : PacketParser.parseNew t front = .error e) (hdef : e.Definite) :
    ∀ back, PacketParser.parseNew t (front ++ back) = .error e :=
  parseNew_definite h hdef

/-- **What a cut leaves of a packet**: too little, or the packet up to some layer. -/
theorem cut_frame {t : LayerType} {front back rest : Bytes} {packet : Packet Layer}
    (h : PacketParser.parseNew t (front ++ back) = .ok (rest, packet)) :
    (∃ size, PacketParser.parseNew t front = .error (.incomplete size)) ∨
      ∃ packet', PacketParser.parseNew t front = .ok ([], packet') ∧
        CutTo packet.layers packet'.layers :=
  parseNew_cut h

end

/-- A segment whose offset is zero is wrong from the twentieth byte on. -/
theorem definite_error_final_zeros :
    letI := Deku.truncating
    ∃ e : PacketError, e.Definite ∧ PacketParser.parseNew .Tcp (List.replicate 20 0) = .error e ∧
      ∀ back, PacketParser.parseNew .Tcp (List.replicate 20 0 ++ back) = .error e := by
  let := Deku.truncating
  have hparse : PacketParser.parseNew .Tcp (List.replicate 20 0) =
      .error (.layerError (.parse "Parse error: error: invalid tcp offset")) := by decide +kernel
  have hdef : (PacketError.layerError
      (.parse "Parse error: error: invalid tcp offset")).Definite := nofun
  exact ⟨_, hdef, hparse, definite_error_final hparse hdef⟩

/-- The data of `udpFrame` cut in half. -/
theorem cut_frame_udpFrame :
    letI := Deku.truncating
    ∃ packet', PacketParser.parseNew .Ether (udpFrame.take 44) = .ok ([], packet') ∧
      CutTo udpPacket.layers packet'.layers := by
  let := Deku.truncating
  have hparse : PacketParser.parseNew .Ether (udpFrame.take 44 ++ udpFrame.drop 44) =
      .ok ([], udpPacket) := by decide +kernel
  have hfront : (PacketParser.parseNew .Ether (udpFrame.take 44)).toOption.isSome := by
    decide +kernel
  rcases cut_frame hparse with ⟨size, h⟩ | h
  · rw [h] at hfront
    cases hfront
  · exact h

end Nata
