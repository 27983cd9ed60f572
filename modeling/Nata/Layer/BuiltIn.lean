/-
  The layers of the crate as one type of boxed layers.

  `Layer` is `Box<dyn LayerExt>` restricted to the seven layers of the crate, `LayerType` their type
  ids, and the instances below dispatch the layer trait.  What the seven formats have in common is
  `Layer.parse_eq_ok`: a parser returns a layer exactly when the input is the serialisation of that
  layer followed by the rest.
-/
import Nata.Layer.Ether
import Nata.Layer.Icmp
import Nata.Layer.Measures
import Nata.Layer.Raw
import Nata.Layer.Tcp
import Nata.Layer.Udp

namespace Nata

/-- A boxed layer of the crate. -/
inductive Layer
  | ether (ether : Ether)
  | ipv4 (ipv4 : Ipv4)
  | ipv6 (ipv6 : Ipv6)
  | tcp (tcp : Tcp)
  | udp (udp : Udp)
  | icmp4 (icmp4 : Icmp4)
  | raw (raw : Raw)
  deriving DecidableEq

/-- The type ids of the layers of the crate. -/
inductive LayerType
  | Ether | Ipv4 | Ipv6 | Tcp | Udp | Icmp4 | Raw
  deriving DecidableEq, Repr

namespace Layer

/-- The type of a layer. -/
def typeId : Layer → LayerType
  | ether _ => .Ether
  | ipv4 _ => .Ipv4
  | ipv6 _ => .Ipv6
  | tcp _ => .Tcp
  | udp _ => .Udp
  | icmp4 _ => .Icmp4
  | raw _ => .Raw

instance : GetIp Layer where
  getIpv4
    | ipv4 h => some h
    | _ => none
  getIpv6
    | ipv6 h => some h
    | _ => none

variable [Deku]

/-- `to_bytes` of the layer in the box. -/
def toBytes : Layer → Except LayerError Bytes
  | ether e => e.toBytes
  | ipv4 h => h.toBytes
  | ipv6 h => h.toBytes
  | tcp t => t.toBytes
  | udp u => u.toBytes
  | icmp4 i => i.toBytes
  | raw r => r.toBytes

instance : LayerBytes Layer where
  toBytes := toBytes

/-- `finalize` of the layer in the box. -/
def finalize (prev next : List Layer) : Method LayerError Layer Unit
  | ether e => Method.zoom ether (e.finalize prev next)
  | ipv4 h => Method.zoom ipv4 (h.finalize prev next)
  | ipv6 h => Method.zoom ipv6 (h.finalize prev next)
  | tcp t => Method.zoom tcp (t.finalize prev next)
  | udp u => Method.zoom udp (u.finalize prev next)
  | icmp4 i => Method.zoom icmp4 (i.finalize prev next)
  | raw r => Method.zoom raw (r.finalize prev next)

instance : LayerExt Layer where
  finalize := finalize

/-- `T::parse_layer` for the type `T`. -/
def parse : LayerType → ParseFn Layer
  | .Ether => parseLayer ether Ether.parse
  | .Ipv4 => parseLayer ipv4 Ipv4.parse
  | .Ipv6 => parseLayer ipv6 Ipv6.parse
  | .Tcp => parseLayer tcp Tcp.parse
  | .Udp => parseLayer udp Udp.parse
  | .Icmp4 => parseLayer icmp4 Icmp4.parse
  | .Raw => parseLayer raw Raw.parse

/-- The values that the format of a layer can represent. -/
def Valid : Layer → Prop
  | ether e => Ether.codec.Valid e
  | ipv4 h => Ipv4.codec.Valid h
  | ipv6 h => Ipv6.codec.Valid h
  | tcp t => Tcp.codec.Valid t
  | udp u => Udp.codec.Valid u
  | icmp4 i => Icmp4.codec.Valid i
  | raw r => Raw.codec.Valid r

end Layer

/-- The formats that read to the end of the input. -/
def LayerType.ReadsAll : LayerType → Prop
  | .Icmp4 | .Raw => True
  | _ => False

namespace Layer

variable [Deku]

/-- Layers of the crate measure themselves by serialising. -/
theorem length_def (layer : Layer) :
    LayerBytes.length layer = (LayerBytes.toBytes layer).map List.length := rfl

/-- Together they are as long as their data. -/
theorem lengthOfLayers_eq_ok {layers : List Layer} {n : Nat} (hn : n < 2 ^ 64) :
    lengthOfLayers layers = .ok n ↔ ∃ bytes, layersToBytes layers = .ok bytes ∧ n = bytes.length := by
  rw [Nata.lengthOfLayers_eq_ok fun layer _ => length_def layer]
  simp only [hn, and_true]

/-- A Raw layer is its data. -/
theorem layersToBytes_raw (r : Raw) : layersToBytes [raw r] = .ok r.data :=
  layersToBytes_singleton.mpr (Raw.toBytes_eq r)

/-! ## What finalize does to each layer -/

section Finalize

variable {prev next : List Layer} {layer : Layer}

/-- An Ether layer has no dependent fields. -/
theorem finalize_ether_eq_ok {e : Ether} :
    LayerExt.finalize prev next (ether e) = .ok () layer ↔ layer = ether e := by
  show Method.zoom ether (Ether.finalize prev next e) = .ok () layer ↔ _
  simp only [Method.zoom_eq_ok, Ether.finalize_eq_ok, exists_eq_left]

theorem finalize_raw_eq_ok {r : Raw} :
    LayerExt.finalize prev next (raw r) = .ok () layer ↔ layer = raw r := by
  show Method.zoom raw (Raw.finalize prev next r) = .ok () layer ↔ _
  simp only [Method.zoom_eq_ok, Raw.finalize_eq_ok, exists_eq_left]

/-- An Icmp4 layer gets the checksum of itself, and always does. -/
theorem finalize_icmp4_eq_ok {i : Icmp4} :
    LayerExt.finalize prev next (icmp4 i) = .ok () layer ↔
      layer = icmp4 { i with checksum := checksum i.cleared } := by
  refine (Method.zoom_eq_ok (f := icmp4)).trans ?_
  simp only [Icmp4.finalize_eq_ok, exists_eq_left]

/-- Ether, Raw and Icmp4 layers do not fail. -/
theorem finalize_ne_error {e : LayerError}
    (htype : layer.typeId = .Ether ∨ layer.typeId = .Raw ∨ layer.typeId = .Icmp4) {layer' : Layer} :
    LayerExt.finalize prev next layer ≠ .error e layer' := by
  have hok : ∃ layer', LayerExt.finalize prev next layer = .ok () layer' := by
    cases layer with
    | ether e => exact ⟨_, finalize_ether_eq_ok.mpr rfl⟩
    | raw r => exact ⟨_, finalize_raw_eq_ok.mpr rfl⟩
    | icmp4 i => exact ⟨_, finalize_icmp4_eq_ok.mpr rfl⟩
    | ipv4 | ipv6 | tcp | udp => simp [typeId] at htype
  obtain ⟨_, hok⟩ := hok
  intro h
  exact absurd (hok.symm.trans h) (by simp)

/-- An Ipv4 layer gets the length of itself and all that is behind, and then the checksum of what
    its header is with that length. -/
theorem finalize_ipv4_eq_ok {h : Ipv4} :
    LayerExt.finalize prev next (ipv4 h) = .ok () layer ↔
      ∃ header tail, h.toBytes = .ok header ∧ layersToBytes next = .ok tail ∧
        header.length + tail.length < 2 ^ 16 ∧
        ∃ cleared, { h with
            length := BitVec.ofNat 16 (header.length + tail.length), checksum := 0 }.toBytes =
              .ok cleared ∧
          layer = ipv4 { h with
            length := BitVec.ofNat 16 (header.length + tail.length),
            checksum := checksum cleared } := by
  refine (Method.zoom_eq_ok (f := ipv4)).trans ?_
  simp only [Ipv4.finalize_eq_ok]
  constructor
  · rintro ⟨_, ⟨header, size, hheader, hsize, hlt, cleared, hcleared, rfl⟩, rfl⟩
    obtain ⟨tail, htail, rfl⟩ := (lengthOfLayers_eq_ok (by omega)).mp hsize
    exact ⟨header, tail, hheader, htail, hlt, cleared, hcleared, rfl⟩
  · rintro ⟨header, tail, hheader, htail, hlt, cleared, hcleared, rfl⟩
    exact ⟨_, ⟨header, _, hheader, (lengthOfLayers_eq_ok (by omega)).mpr ⟨tail, htail, rfl⟩, hlt,
      cleared, hcleared, rfl⟩, rfl⟩

/-- An Ipv6 layer gets the length of what is behind. -/
theorem finalize_ipv6_eq_ok {h : Ipv6} :
    LayerExt.finalize prev next (ipv6 h) = .ok () layer ↔
      ∃ tail, layersToBytes next = .ok tail ∧ tail.length < 2 ^ 16 ∧
        layer = ipv6 { h with length := BitVec.ofNat 16 tail.length } := by
  refine (Method.zoom_eq_ok (f := ipv6)).trans ?_
  simp only [Ipv6.finalize_eq_ok]
  constructor
  · rintro ⟨_, ⟨size, hsize, hlt, rfl⟩, rfl⟩
    obtain ⟨tail, htail, rfl⟩ := (lengthOfLayers_eq_ok (by omega)).mp hsize
    exact ⟨tail, htail, hlt, rfl⟩
  · rintro ⟨tail, htail, hlt, rfl⟩
    exact ⟨_, ⟨_, (lengthOfLayers_eq_ok (by omega)).mpr ⟨tail, htail, rfl⟩, hlt, rfl⟩, rfl⟩

/-- A Udp layer gets its length and, directly behind an IP layer, the checksum over the header as it
    was before. -/
theorem finalize_udp_eq_ok {u : Udp} :
    LayerExt.finalize prev next (udp u) = .ok () layer ↔
      ∃ tail, layersToBytes next = .ok tail ∧ 8 + tail.length < 2 ^ 16 ∧
        layer = udp { u with
          length := BitVec.ofNat 16 (8 + tail.length)
          checksum := match lastIp prev with
            | some ip => u.newChecksum ip tail
            | none => u.checksum } := by
  refine (Method.zoom_eq_ok (f := udp)).trans ?_
  simp only [Udp.finalize_eq_ok]
  constructor
  · rintro ⟨_, ⟨tail, htail, hlt, rfl⟩, rfl⟩
    exact ⟨tail, htail, hlt, rfl⟩
  · rintro ⟨tail, htail, hlt, rfl⟩
    exact ⟨_, ⟨tail, htail, hlt, rfl⟩, rfl⟩

/-- A Tcp layer gets its padding, then the checksum, and its offset last. -/
theorem finalize_tcp_eq_ok {t : Tcp} :
    LayerExt.finalize prev next (tcp t) = .ok () layer ↔
      ∃ header checksum, t.toBytes = .ok header ∧
        t.NewChecksum prev next (Tcp.cleared header) checksum ∧
        (Tcp.cleared header).length / 4 < 2 ^ 8 ∧
        layer = tcp { t with
          offset := BitVec.ofNat 8 ((Tcp.cleared header).length / 4), checksum,
          options := t.options ++ List.replicate (Tcp.padAmt header.length) TcpOption.EOL } := by
  refine (Method.zoom_eq_ok (f := tcp)).trans ?_
  simp only [Tcp.finalize_eq_ok]
  constructor
  · rintro ⟨_, ⟨header, checksum, hheader, hchecksum, hlt, rfl⟩, rfl⟩
    exact ⟨header, checksum, hheader, hchecksum, hlt, rfl⟩
  · rintro ⟨header, checksum, hheader, hchecksum, hlt, rfl⟩
    exact ⟨_, ⟨header, checksum, hheader, hchecksum, hlt, rfl⟩, rfl⟩

end Finalize

/-! ## Parsing -/

/-- A derived layer, boxed: `t` is its type id, and a layer of that type is a box of it. -/
theorem parseLayer_derived_eq_ok {α : Type} {R : Bits → Prop} {c : Codec R α} {box : α → Layer}
    {t : LayerType} (hal : c.Aligned 8) (hR : ∀ rest, R (toBits rest) ↔ (t.ReadsAll → rest = []))
    (hbox : ∀ layer, layer.typeId = t ↔ ∃ l, layer = box l)
    (hvalid : ∀ l, (box l).Valid ↔ c.Valid l)
    (hbytes : ∀ l, (box l).toBytes = derivedToBytes c l) {input rest : Bytes} {layer : Layer} :
    parseLayer box (derivedParse c) input = .ok (rest, layer) ↔
      layer.typeId = t ∧ layer.Valid ∧ (t.ReadsAll → rest = []) ∧
        ∃ bytes, layer.toBytes = .ok bytes ∧ input = bytes ++ rest := by
  rw [parseLayer_eq_ok, hbox]
  constructor
  · rintro ⟨l, hl, rfl⟩
    obtain ⟨hval, hrest, hin⟩ := (derivedParse_eq_ok hal).mp hl
    rw [hvalid, hbytes]
    exact ⟨⟨l, rfl⟩, hval, (hR rest).mp hrest, hin⟩
  · rintro ⟨⟨l, rfl⟩, hval, hrest, hin⟩
    rw [hvalid] at hval
    rw [hbytes] at hin
    exact ⟨l, (derivedParse_eq_ok hal).mpr ⟨hval, (hR rest).mpr hrest, hin⟩, rfl⟩

/-- **What the parser of a layer accepts**: the serialisation of a representable layer, followed by
    the rest, which is empty if the format reads to the end. -/
theorem parse_eq_ok {t : LayerType} {input rest : Bytes} {layer : Layer} :
    parse t input = .ok (rest, layer) ↔
      layer.typeId = t ∧ layer.Valid ∧ (t.ReadsAll → rest = []) ∧
        ∃ bytes, layer.toBytes = .ok bytes ∧ input = bytes ++ rest := by
  have hfield : ∀ t : LayerType, ¬t.ReadsAll → ∀ rest : Bytes,
      True ↔ (t.ReadsAll → rest = []) := fun _ ht _ => ⟨fun _ h => absurd h ht, fun _ => trivial⟩
  have hlast : ∀ t : LayerType, t.ReadsAll → ∀ rest : Bytes,
      toBits rest = [] ↔ (t.ReadsAll → rest = []) := by
    intro t ht rest
    constructor
    · intro h _
      exact toBits_inj h
    · intro h
      rw [h ht]
      rfl
  cases t with
  | Ether =>
    exact parseLayer_derived_eq_ok (Ether.sized_codec.aligned (by decide)) (hfield .Ether nofun)
      (fun layer => by cases layer <;> simp [typeId]) (fun _ => Iff.rfl) (fun _ => rfl)
  | Ipv4 =>
    exact parseLayer_derived_eq_ok Ipv4.aligned_codec (hfield .Ipv4 nofun)
      (fun layer => by cases layer <;> simp [typeId]) (fun _ => Iff.rfl) (fun _ => rfl)
  | Ipv6 =>
    exact parseLayer_derived_eq_ok (Ipv6.sized_codec.aligned (by decide)) (hfield .Ipv6 nofun)
      (fun layer => by cases layer <;> simp [typeId]) (fun _ => Iff.rfl) (fun _ => rfl)
  | Tcp =>
    exact parseLayer_derived_eq_ok Tcp.aligned_codec (hfield .Tcp nofun)
      (fun layer => by cases layer <;> simp [typeId]) (fun _ => Iff.rfl) (fun _ => rfl)
  | Udp =>
    exact parseLayer_derived_eq_ok (Udp.sized_codec.aligned (by decide)) (hfield .Udp nofun)
      (fun layer => by cases layer <;> simp [typeId]) (fun _ => Iff.rfl) (fun _ => rfl)
  | Icmp4 =>
    exact parseLayer_derived_eq_ok Icmp4.aligned_codec (hlast .Icmp4 trivial)
      (fun layer => by cases layer <;> simp [typeId]) (fun _ => Iff.rfl) (fun _ => rfl)
  | Raw =>
    exact parseLayer_derived_eq_ok Raw.aligned_codec (hlast .Raw trivial)
      (fun layer => by cases layer <;> simp [typeId]) (fun _ => Iff.rfl) (fun _ => rfl)

/-- Representable layers are written. -/
theorem toBytes_ok_of_valid {layer : Layer} (h : layer.Valid) :
    ∃ bytes, layer.toBytes = .ok bytes := by
  have hcodec : ∀ {α : Type} {R : Bits → Prop} {c : Codec R α} {l : α}, c.Valid l →
      ∃ bytes, derivedToBytes c l = .ok bytes := by
    intro α R c l hl
    obtain ⟨u, hu⟩ := c.write_ok l hl
    exact ⟨pack u, derivedToBytes_eq_ok.mpr ⟨u, hu, rfl⟩⟩
  cases layer <;> exact hcodec h

/-- A header is never empty, and a Raw layer is only if its data is. -/
theorem toBytes_ne_nil {layer : Layer} {bytes : Bytes} (h : layer.toBytes = .ok bytes)
    (hraw : ∀ r, layer = raw r → r.data ≠ []) : bytes ≠ [] := by
  rintro rfl
  cases layer with
  | ether e => exact absurd (Ether.length_toBytes h) (by decide)
  | ipv4 v =>
    obtain ⟨x, y, z, hx, -, -, hframe⟩ := Ipv4.toBytes_frame h
    have hlen := congrArg List.length (Except.ok.inj (h.symm.trans (hframe v.length v.checksum)))
    simp only [List.length_nil, List.length_append] at hlen
    omega
  | ipv6 v => exact absurd (Ipv6.length_toBytes h) (by decide)
  | tcp t =>
    obtain ⟨o, f, z, -, -, -, hb⟩ := Tcp.toBytes_eq_ok.mp h
    have hlen := congrArg List.length hb
    simp only [List.length_nil, List.length_append, length_be16] at hlen
    omega
  | udp u =>
    have hlen := congrArg List.length (Except.ok.inj (h.symm.trans (Udp.toBytes_eq u)))
    simp only [List.length_nil, List.length_append, length_be16] at hlen
    omega
  | icmp4 i =>
    have hlen := congrArg List.length (Except.ok.inj (h.symm.trans (Icmp4.toBytes_eq i)))
    simp only [List.length_nil, List.length_append, length_be8] at hlen
    omega
  | raw r => exact hraw r rfl (Except.ok.inj ((Raw.toBytes_eq r).symm.trans h))

end Layer

end Nata
