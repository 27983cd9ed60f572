/-
  The IP length and the UDP length.

  An IP layer adds up the lengths of the layers behind it, and the Udp layer behind it strings the
  bytes of the layers behind that together; they do so at different moments of the pass.  On layers
  that measure themselves by serialising both ways of measuring agree (`Nata.Layer.Measures`), and
  between the two moments nothing behind the Udp layer has been touched.
-/
import Nata.Layer.Owned
import Nata.Packet.Representable

namespace Nata

section

variable [Deku]

/-- What the length field of an IP header counts is the header itself, if it is Ipv4, and `n` bytes
    behind it. -/
def IpHeader.Counts : IpHeader → Nat → Prop
  | v4 ipv4, n => ∃ header, ipv4.toBytes = .ok header ∧ ipv4.length.toNat = header.length + n
  | v6 ipv6, n => ipv6.length.toNat = n

variable {L : Type} [LayerOwned L]

/-- A built-in layer keeps the default length, in any box. -/
theorem LayerOwned.defaultLength_box (layer : Layer) :
    DefaultLength (LayerOwned.box layer : L) := by
  rw [DefaultLength, LayerOwned.length_box, LayerOwned.toBytes_box]

/-- A boxed layer is finalised as it is in its box. -/
theorem LayerOwned.finalize_box_eq_ok {prev next : List L} {layer : Layer} {layer' : L} :
    LayerExt.finalize prev next (LayerOwned.box layer) = .ok () layer' ↔
      ∃ l, layer.finalizeAmong prev next = .ok () l ∧ layer' = LayerOwned.box l := by
  rw [LayerOwned.finalize_box, Method.zoom_eq_ok]

/-- An IP layer in front of a Udp layer counts eight bytes and what is behind that. -/
theorem IpHeader.counts_of_finalize {prev after : List L} {ip : IpHeader} {udp : Udp} {layer : Layer}
    {payload : Bytes} (hafter : ∀ layer ∈ after, DefaultLength layer)
    (hpayload : layersToBytes after = .ok payload)
    (hfin : ip.layer.finalizeAmong prev (LayerOwned.box (.udp udp) :: after) = .ok () layer) :
    ∃ ip' : IpHeader, layer = ip'.layer ∧ ip'.Counts (8 + payload.length) := by
  have hall : ∀ layer ∈ LayerOwned.box (.udp udp) :: after, DefaultLength layer :=
    List.forall_mem_cons.mpr ⟨LayerOwned.defaultLength_box _, hafter⟩
  have hbehind : ∀ {n : Nat}, lengthOfLayers (LayerOwned.box (.udp udp) :: after) = .ok n →
      n = 8 + payload.length := by
    intro n hn
    obtain ⟨bytes, hbytes, rfl, -⟩ := (lengthOfLayers_eq_ok hall).mp hn
    obtain ⟨data, tail, hdata, htail, rfl⟩ := layersToBytes_cons_eq_ok.mp hbytes
    obtain rfl := Except.ok.inj (hpayload.symm.trans htail)
    rw [LayerOwned.toBytes_box] at hdata
    obtain rfl := Except.ok.inj ((Udp.toBytes_eq udp).symm.trans hdata)
    simp only [List.length_append, length_be16]
  cases ip with
  | v4 h =>
    obtain ⟨h', hfin', rfl⟩ := Method.zoom_eq_ok.mp hfin
    obtain ⟨header, size, hheader, hsize, hlt, cleared, -, rfl⟩ := Ipv4.finalize_eq_ok.mp hfin'
    obtain rfl := hbehind hsize
    obtain ⟨x, y, z, -, -, -, hframe⟩ := Ipv4.toBytes_frame hheader
    have hheader' := hframe (BitVec.ofNat 16 (header.length + (8 + payload.length)))
      (checksum cleared)
    refine ⟨.v4 _, rfl, _, hheader', ?_⟩
    rw [Ipv4.length_toBytes_update hheader hheader']
    show (BitVec.ofNat 16 _).toNat = _
    rw [BitVec.toNat_ofNat, Nat.mod_eq_of_lt hlt]
  | v6 h =>
    obtain ⟨h', hfin', rfl⟩ := Method.zoom_eq_ok.mp hfin
    obtain ⟨size, hsize, hlt, rfl⟩ := Ipv6.finalize_eq_ok.mp hfin'
    obtain rfl := hbehind hsize
    refine ⟨.v6 _, rfl, ?_⟩
    show (BitVec.ofNat 16 _).toNat = _
    rw [BitVec.toNat_ofNat, Nat.mod_eq_of_lt hlt]

/-- **The IP length and the UDP length agree** after `finalize`. -/
theorem LayerOwned.finalize_lengths {packet packet' : Packet L} {before after : List L}
    {ip : IpHeader} {udp : Udp}
    (hlayers : packet.layers =
      before ++ LayerOwned.box ip.layer :: LayerOwned.box (.udp udp) :: after)
    (hafter : ∀ layer ∈ after, DefaultLength layer) (hfin : packet.finalize = .ok () packet') :
    ∃ (ip' : IpHeader) (udp' : Udp),
      packet'.layers[before.length]? = some (LayerOwned.box ip'.layer) ∧
      packet'.layers[before.length + 1]? = some (LayerOwned.box (.udp udp')) ∧
      ip'.Counts udp'.length.toNat := by
  obtain ⟨before', _, rest', hget, hdrop, hip, hrest⟩ := Packet.finalize_at hlayers hfin
  cases hrest with
  | cons hudp _ =>
    obtain ⟨ip', hip', rfl⟩ := finalize_box_eq_ok.mp hip
    obtain ⟨layer, hudp', rfl⟩ := finalize_box_eq_ok.mp hudp
    obtain ⟨udp', hown, rfl⟩ := Method.zoom_eq_ok.mp hudp'
    obtain ⟨payload, hpayload, hlt, hlength⟩ := Udp.finalize_eq_ok.mp hown
    -- The layers behind the Udp layer are those that the IP layer has measured.
    obtain ⟨ip', rfl, hcounts⟩ := IpHeader.counts_of_finalize hafter hpayload hip'
    refine ⟨ip', udp', hget, ?_, ?_⟩
    · rw [← List.head?_drop, hdrop]
      rfl
    · rw [hlength]
      show ip'.Counts (BitVec.ofNat 16 _).toNat
      rwa [BitVec.toNat_ofNat, Nat.mod_eq_of_lt hlt]

/-- **The two ways of measuring a payload agree**, on lists of layers that measure themselves by
    serialising and have a total size that fits a `usize`; and so do the lengths of an IP layer and
    of the Udp layer behind it, once `finalize` has returned. -/
theorem measures_agree :
    (∀ layers : List L, (∀ layer ∈ layers, DefaultLength layer) → serializedSize layers < 2 ^ 64 →
      (∀ n, lengthOfLayers layers = .ok n ↔
        ∃ bytes, layersToBytes layers = .ok bytes ∧ n = bytes.length) ∧
      (∀ e, lengthOfLayers layers = .error e ↔ FirstError layers e) ∧
      (∀ e, layersToBytes layers = .error e ↔ FirstError layers e) ∧
      ∀ xs ys, layers = xs ++ ys →
        layersToBytes layers = (do
          let data ← layersToBytes xs
          let tail ← layersToBytes ys
          return data ++ tail) ∧
        lengthOfLayers layers = (do
          let m ← lengthOfLayers xs
          let n ← lengthOfLayers ys
          return m + n)) ∧
    (∀ (packet packet' : Packet L) (before after : List L) (ip : IpHeader) (udp : Udp),
      packet.layers = before ++ LayerOwned.box ip.layer :: LayerOwned.box (.udp udp) :: after →
      (∀ layer ∈ after, DefaultLength layer) → packet.finalize = .ok () packet' →
        ∃ (ip' : IpHeader) (udp' : Udp),
          packet'.layers[before.length]? = some (LayerOwned.box ip'.layer) ∧
          packet'.layers[before.length + 1]? = some (LayerOwned.box (.udp udp')) ∧
          ip'.Counts udp'.length.toNat) := by
  constructor
  · intro layers hlen hsize
    have hmap := lengthOfLayers_of_lt hlen hsize
    refine ⟨fun n => ?_, fun e => ?_, fun e => layersToBytes_eq_error, ?_⟩
    · rw [hmap, except_map_eq_ok]
      simp only [eq_comm]
    · rw [hmap, ← layersToBytes_eq_error]
      cases layersToBytes layers <;> simp [Except.map]
    · rintro xs ys rfl
      exact ⟨layersToBytes_append, lengthOfLayers_append hlen hsize⟩
  · intro packet packet' before after ip udp hlayers hafter hfin
    exact LayerOwned.finalize_lengths hlayers hafter hfin

end

theorem measures_agree_ping :
    letI := Deku.truncating
    let layers : List Layer := [.udp default, .raw ⟨[0x70, 0x69, 0x6e], 0⟩]
    lengthOfLayers layers = .ok 11 ∧
      ∃ (packet' : Packet Layer) (ip : IpHeader) (udp : Udp),
        (Packet.mk (.ipv6 { (default : Ipv6) with nextHeader := .UDP } :: layers)).finalize =
          .ok () packet' ∧
        packet'.layers[0]? = some ip.layer ∧ packet'.layers[1]? = some (.udp udp) ∧
        ip.Counts udp.length.toNat ∧ udp.length = 11 := by
  let := Deku.truncating
  intro layers
  obtain ⟨hmeasures, hlengths⟩ := measures_agree (L := Layer)
  have hdefault : ∀ layer ∈ layers, DefaultLength layer := fun layer _ =>
    LayerOwned.defaultLength_box layer
  have hbytes : layersToBytes layers = .ok [0, 0, 0, 0, 0, 0, 0, 0, 0x70, 0x69, 0x6e] := by
    decide +kernel
  have hsize : serializedSize layers < 2 ^ 64 := by
    rw [serializedSize_eq hbytes]
    decide
  have hfin : (Packet.mk (.ipv6 { (default : Ipv6) with nextHeader := .UDP } :: layers)).finalize =
      .ok () ⟨[.ipv6 { (default : Ipv6) with nextHeader := .UDP, length := 11 },
        .udp { (default : Udp) with length := 11, checksum := 0x2378 },
        .raw ⟨[0x70, 0x69, 0x6e], 0⟩]⟩ := by decide +kernel
  obtain ⟨ip, udp, hip, hudp, hcounts⟩ := hlengths _ _ [] [_] (.v6 _) default rfl
    (fun layer hlayer => hdefault layer (List.mem_cons_of_mem _ hlayer)) hfin
  obtain rfl := Layer.udp.inj (Option.some.inj hudp)
  exact ⟨((hmeasures layers hdefault hsize).1 11).mpr ⟨_, hbytes, rfl⟩, _, ip, _, hfin, hip, rfl,
    hcounts, rfl⟩

end Nata
