/-
  Does a second `finalize` change anything?

  The second pass sees the same layers before each layer as the first one did, and other layers
  behind: the finalised ones.  So it leaves a layer alone exactly when what the layer stored in the
  first pass would have come out the same with the finalised layers behind it and with its own
  dependent fields already set (`Layer.Repeatable`):

  * a length comes out the same when nothing behind is padded;
  * a Udp checksum behind an IP layer was computed with the old length and the old layers behind, a
    Tcp checksum with the old offset and the old layers behind, and the next one will be computed with
    the new ones.  Both have one checksum exactly when they agree modulo `65535`;
  * nothing is left alone behind which, or in which, an offset was set that cannot be written.

  Behind an IP layer the induction also carries what the IP layer has established: what is behind it
  was smaller than a datagram, and is not padded.
-/
import Nata.Packet.Lengths
import Nata.Packet.Receiver

namespace Nata

section

variable [Deku]

/-! ## Many calls -/

/-- Calling `finalize` so many times, as long as it succeeds. -/
def Packet.finalizeTimes : Nat → Method PacketError (Packet Layer) Unit
  | 0 => pure ()
  | n + 1 => do
    finalizeTimes n
    Packet.finalize

/-- No call changes nothing. -/
theorem Packet.finalizeTimes_zero {packet packet' : Packet Layer} :
    finalizeTimes 0 packet = .ok () packet' ↔ packet' = packet :=
  Method.pure_eq_ok.trans (and_iff_right rfl)

/-- The last call works on what the others have left. -/
theorem Packet.finalizeTimes_succ {n : Nat} {packet packet' : Packet Layer} :
    finalizeTimes (n + 1) packet = .ok () packet' ↔
      ∃ before, finalizeTimes n packet = .ok () before ∧ before.finalize = .ok () packet' := by
  refine Method.bind_eq_ok.trans ?_
  constructor
  · rintro ⟨_, before, hbefore, h⟩
    exact ⟨before, hbefore, h⟩
  · rintro ⟨before, hbefore, h⟩
    exact ⟨(), before, hbefore, h⟩

/-- After enough calls the packet is this one, and stays it. -/
structure Packet.SettlesAt (packet settled : Packet Layer) : Prop where
  reached : ∃ n, packet.finalizeTimes n = .ok () settled
  fixed : settled.finalize = .ok () settled

/-- The calls after a packet is at rest change nothing. -/
theorem Packet.finalizeTimes_settled {packet settled : Packet Layer} {n : Nat}
    (hfixed : settled.finalize = .ok () settled) (h : packet.finalizeTimes n = .ok () settled)
    (k : Nat) : packet.finalizeTimes (n + k) = .ok () settled := by
  induction k with
  | zero => exact h
  | succ k ih => exact finalizeTimes_succ.mpr ⟨settled, ih, hfixed⟩

/-! ## Two calls -/

/-- The dependent fields of a layer come out of a second pass as they came out of the first.  `prev`
    is the layer directly before, if there is one, and `next` the layers behind, all as built. -/
def Layer.Repeatable (prev : Option Layer) (next : List Layer) : Layer → Prop
  | .ether _ | .raw _ | .icmp4 _ => True
  | .ipv4 _ | .ipv6 _ => Unpadded next ∧ Sendable next
  | .udp u => Unpadded next ∧ Sendable next ∧
      ((prev.bind getIp).isSome → (u.length.toNat + ocs (dataOf next) : ZMod 65535) =
        (8 + (dataOf next).length : Nat) + Nata.sentSum none next)
  | .tcp t => (∃ o, Codec.writeBits 4 t.sentOffset = .ok o) ∧
      (prev.isSome → Sendable next ∧ (Layer.tcp t).sentLength + sentSize next < 2 ^ 64) ∧
      ((prev.bind getIp).isSome →
        (4096 * Tcp.nibble t.offset + ocs (dataOf next) : ZMod 65535) =
          4096 * Tcp.nibble t.sentOffset + Nata.sentSum none next)

/-- Every layer of a list is repeatable behind `prev`. -/
def RepeatableFrom : Option Layer → List Layer → Prop
  | _, [] => True
  | prev, layer :: next => layer.Repeatable prev next ∧ RepeatableFrom (some layer) next

/-- A second `finalize` leaves the packet as the first one did. -/
def Packet.Repeatable (packet : Packet Layer) : Prop := RepeatableFrom none packet.layers

/-! ## Transport layers -/

/-- Behind a layer that is not an IP layer the finalised layers have the sum `sentSum none`. -/
theorem Finalized.ocs_eq {prev next next' : List Layer} {layer layer' : Layer}
    (hlayer : LayerExt.finalize prev next layer = .ok () layer') (hip : getIp layer = none)
    (hnext : Finalized (prev ++ [layer']) next next') {tail tail' : Bytes}
    (htail : layersToBytes next = .ok tail) (htail' : layersToBytes next' = .ok tail')
    (hlt : tail.length < 2 ^ 16) : ocs tail' = sentSum none next := by
  have hsum := ((hnext.sent htail).2 tail' htail').2 hlt
  rw [lastIp_concat, Layer.pseudoSum_finalize hlayer, hip] at hsum
  exact hsum

omit [Deku] in
/-- The old and the new Udp header have one checksum exactly when the old length and payload agree
    with the new ones. -/
theorem Udp.newChecksum_eq_iff {udp : Udp} {ip : IpHeader} {tail tail' : Bytes}
    {checksum : BitVec 16} (hlt : 8 + tail.length < 2 ^ 16) (hlen : tail.length = tail'.length) :
    udp.newChecksum ip tail =
        { udp with length := BitVec.ofNat 16 (8 + tail.length), checksum }.newChecksum ip tail' ↔
      (udp.length.toNat + ocs tail : ZMod 65535) = (8 + tail.length : Nat) + ocs tail' := by
  have hlength : (BitVec.ofNat 16 (8 + tail.length)).toNat = 8 + tail.length :=
    Nat.mod_eq_of_lt hlt
  have heven : ∀ u : Udp, 2 ∣ u.cleared.length := by
    intro u
    rw [length_cleared]
    decide
  have hle : ∀ u : Udp, u.cleared.length + tail.length ≤ 131034 := by
    intro u
    rw [length_cleared]
    omega
  rw [newChecksum, newChecksum, IpHeader.checksum_datagram_inj (IpHeader.fits_of_lt hlt)
    (IpHeader.fits_of_lt (hlen ▸ hlt)) (by omega) (by omega) (heven _) (heven _) (hle _)
    (hlen ▸ hle _), ocs_cleared, ocs_cleared, hlength, hlen]
  constructor
  · intro h
    linear_combination h
  · intro h
    linear_combination h

/-- What a Udp layer stores comes out the same the second time. -/
theorem Udp.repeat_iff {prev next next' : List Layer} {udp : Udp} {layer : Layer}
    (hlayer : LayerExt.finalize prev next (.udp udp) = .ok () layer)
    (hnext : Finalized (prev ++ [layer]) next next') :
    LayerExt.finalize prev next' layer = .ok () layer ↔
      Unpadded next ∧ Sendable next ∧
        ((lastIp prev).isSome → (udp.length.toNat + ocs (dataOf next) : ZMod 65535) =
          (8 + (dataOf next).length : Nat) + sentSum none next) := by
  have hsum : ∀ tail tail', layersToBytes next = .ok tail → layersToBytes next' = .ok tail' →
      tail.length < 2 ^ 16 → ocs tail' = sentSum none next :=
    fun _ _ htail htail' hlt => Finalized.ocs_eq hlayer rfl hnext htail htail' hlt
  obtain ⟨tail, htail, hlt, rfl⟩ := Layer.finalize_udp_eq_ok.mp hlayer
  rw [← and_assoc, ← hnext.length_iff htail, Layer.finalize_udp_eq_ok, dataOf_eq htail]
  constructor
  · rintro ⟨tail', htail', hlt', heq⟩
    have hu := Layer.udp.inj heq
    have hlen : tail.length = tail'.length := by
      have h := congrArg (fun u : Udp => u.length.toNat) hu
      have hnew : (BitVec.ofNat 16 (8 + tail.length)).toNat =
        (BitVec.ofNat 16 (8 + tail'.length)).toNat := h
      rw [BitVec.toNat_ofNat, BitVec.toNat_ofNat, Nat.mod_eq_of_lt hlt, Nat.mod_eq_of_lt hlt']
        at hnew
      omega
    refine ⟨⟨tail', htail', hlen⟩, fun hsome => ?_⟩
    obtain ⟨ip, hip⟩ := Option.isSome_iff_exists.mp hsome
    have h := congrArg Udp.checksum hu
    simp only [hip] at h
    rw [← hsum tail tail' htail htail' (by omega)]
    exact (newChecksum_eq_iff hlt hlen).mp h
  · rintro ⟨⟨tail', htail', hlen⟩, h⟩
    refine ⟨tail', htail', hlen ▸ hlt, ?_⟩
    rw [← hsum tail tail' htail htail' (by omega)] at h
    cases hip : lastIp prev with
    | none => rw [hlen]
    | some ip =>
      have hsum' := h (by rw [hip]; rfl)
      rw [Layer.udp.injEq, Udp.mk.injEq]
      exact ⟨rfl, rfl, by rw [hlen], (newChecksum_eq_iff hlt hlen).mpr hsum'⟩

/-- The header that the second pass covers: as long as the one the first pass covered, with the new
    offset in the place of the old one. -/
theorem Tcp.cleared_repeat {prev next : List Layer} {tcp tcp' : Tcp} {header header' : Bytes}
    (hlayer : LayerExt.finalize prev next (.tcp tcp) = .ok () (.tcp tcp'))
    (hheader : tcp.toBytes = .ok header) (hheader' : tcp'.toBytes = .ok header') :
    padAmt header'.length = 0 ∧ (cleared header').length = (cleared header).length ∧
      ocs (cleared header') = ocs (cleared header) + tcp.offsetGain := by
  have hlen := (Tcp.finalize_written hlayer).2 header' hheader'
  have hwords := four_dvd_length_cleared header
  rw [sentLength_eq hheader] at hlen
  have hpad : padAmt header'.length = 0 := by
    rw [padAmt]
    omega
  obtain ⟨_, checksum, h, -, -, heq⟩ := Layer.finalize_tcp_eq_ok.mp hlayer
  obtain rfl := Except.ok.inj (hheader.symm.trans h)
  obtain rfl := Layer.tcp.inj heq
  refine ⟨hpad, by rw [length_cleared, hpad, hlen, Nat.add_zero], ?_⟩
  have hsum := (toBytes_update hheader hheader').2
  have hold := ocs_cleared hheader
  have hnew := ocs_cleared hheader'
  rw [← sentOffset_eq hheader] at hsum
  rw [offsetGain]
  linear_combination hsum + hnew - hold

/-- The second pass leaves a Tcp layer alone exactly when it can be written and its checksum comes
    out the same: there is nothing left to pad, and the offset does not change any more. -/
theorem Tcp.finalize_again_iff {prev next next' : List Layer} {tcp tcp' : Tcp}
    (hlayer : LayerExt.finalize prev next (.tcp tcp) = .ok () (.tcp tcp')) :
    LayerExt.finalize prev next' (.tcp tcp') = .ok () (.tcp tcp') ↔
      ∃ header', tcp'.toBytes = .ok header' ∧
        tcp'.NewChecksum prev next' (cleared header') tcp'.checksum := by
  obtain ⟨header, checksum, hheader, -, hlt, heq⟩ := Layer.finalize_tcp_eq_ok.mp hlayer
  have hoffset : tcp'.offset = BitVec.ofNat 8 ((cleared header).length / 4) :=
    congrArg Tcp.offset (Layer.tcp.inj heq)
  rw [Layer.finalize_tcp_eq_ok]
  constructor
  · rintro ⟨header', checksum', hheader', hchecksum', -, heq'⟩
    have hsame : tcp'.checksum = checksum' := congrArg Tcp.checksum (Layer.tcp.inj heq')
    exact ⟨header', hheader', hsame ▸ hchecksum'⟩
  · rintro ⟨header', hheader', hchecksum'⟩
    obtain ⟨hpad, hlen, -⟩ := cleared_repeat hlayer hheader hheader'
    refine ⟨header', tcp'.checksum, hheader', hchecksum', by rw [hlen]; exact hlt, ?_⟩
    rw [hlen, hpad, List.replicate_zero, List.append_nil, ← hoffset]

/-- Behind an IP layer that has seen to it that nothing is padded, the checksum that is stored is the
    one of the second pass exactly when old and new offset and payload agree. -/
theorem Tcp.checksum_again_iff {prev next : List Layer} {tcp tcp' : Tcp} {ip : IpHeader}
    {header header' payload payload' : Bytes}
    (hlayer : LayerExt.finalize prev next (.tcp tcp) = .ok () (.tcp tcp'))
    (hheader : tcp.toBytes = .ok header) (hheader' : tcp'.toBytes = .ok header')
    (hlt : (cleared header).length + payload.length < 2 ^ 16)
    (hpayload : payload'.length = payload.length) :
    Nata.checksum (ip.pseudoHeader ip.protocol.id ((cleared header).length + payload.length) ++
          cleared header ++ payload) =
        Nata.checksum (ip.pseudoHeader ip.protocol.id ((cleared header').length + payload'.length) ++
          cleared header' ++ payload') ↔
      (4096 * nibble tcp.offset + ocs payload : ZMod 65535) =
        4096 * nibble tcp.sentOffset + ocs payload' := by
  obtain ⟨-, hlen, hsum⟩ := cleared_repeat hlayer hheader hheader'
  obtain ⟨z, -, hz⟩ := length_toBytes hheader
  have hpos := length_cleared header
  have hwords := four_dvd_length_cleared header
  have hfits : ip.Fits _ := IpHeader.fits_of_lt hlt
  have heven : 2 ∣ (cleared header).length := by omega
  rw [hlen, hpayload, IpHeader.checksum_datagram_inj hfits hfits (by omega) (by omega) heven
    (hlen ▸ heven) (by omega) (by omega), hsum, offsetGain]
  constructor
  · intro h
    linear_combination h
  · intro h
    linear_combination h

/-- What a Tcp layer stores comes out the same the second time.  An IP layer before it has seen to it
    that what starts here is smaller than a datagram, and is not padded. -/
theorem Tcp.repeat_iff {prev next next' : List Layer} {tcp : Tcp} {layer : Layer}
    (hlayer : LayerExt.finalize prev next (.tcp tcp) = .ok () layer)
    (hnext : Finalized (prev ++ [layer]) next next')
    (hbehind : (lastIp prev).isSome → Unpadded (.tcp tcp :: next) ∧
      ∃ bytes, layersToBytes (.tcp tcp :: next) = .ok bytes ∧ bytes.length < 2 ^ 16) :
    LayerExt.finalize prev next' layer = .ok () layer ↔
      (∃ o, Codec.writeBits 4 tcp.sentOffset = .ok o) ∧
        (prev.getLast?.isSome → Sendable next ∧
          (Layer.tcp tcp).sentLength + sentSize next < 2 ^ 64) ∧
        ((lastIp prev).isSome → (4096 * nibble tcp.offset + ocs (dataOf next) : ZMod 65535) =
          4096 * nibble tcp.sentOffset + sentSum none next) := by
  have hwritten := (Tcp.finalize_written hlayer).1
  obtain ⟨header, checksum, hheader, hchecksum, hlt, hlayer'⟩ :=
    Layer.finalize_tcp_eq_ok.mp hlayer
  -- The layer keeps its name; what matters is that it is a Tcp layer with this checksum.
  obtain ⟨tcp', rfl, hsame⟩ : ∃ tcp', layer = .tcp tcp' ∧ tcp'.checksum = checksum :=
    ⟨_, hlayer', rfl⟩
  rw [Tcp.finalize_again_iff hlayer, ← hwritten, sentLength_eq hheader, hsame]
  cases hlast : prev.getLast? with
  | none =>
    have hip : lastIp prev = none := by rw [lastIp, hlast, Option.bind_none]
    rw [hip]
    constructor
    · rintro ⟨header', hheader', -⟩
      refine ⟨⟨header', hheader'⟩, fun h => ?_, fun h => ?_⟩
      · cases h
      · cases h
    · rintro ⟨⟨header', hheader'⟩, -⟩
      refine ⟨header', hheader', ?_⟩
      rw [NewChecksum, hlast]
      exact hsame.symm
  | some prevLayer =>
    have hip : lastIp prev = getIp prevLayer := by rw [lastIp, hlast, Option.bind_some]
    rw [NewChecksum, hlast] at hchecksum
    obtain ⟨payload, hpayload, hsize, hchecksum⟩ := hchecksum
    obtain ⟨hsendable, hsent⟩ := hnext.sent hpayload
    rw [← hsendable, dataOf_eq hpayload, hip]
    -- With the finalised layers behind, only the checksum behind an IP layer is left to compare.
    have hcompare : ∀ header' payload', tcp'.toBytes = .ok header' →
        layersToBytes next' = .ok payload' →
        (tcp'.NewChecksum prev next' (cleared header') checksum ↔
          (cleared header).length + sentSize next < 2 ^ 64 ∧
          ((getIp prevLayer).isSome → (4096 * nibble tcp.offset + ocs payload : ZMod 65535) =
            4096 * nibble tcp.sentOffset + sentSum none next)) := by
      intro header' payload' hheader' hpayload'
      obtain ⟨-, hlen, -⟩ := cleared_repeat hlayer hheader hheader'
      obtain ⟨hlen', hsum⟩ := hsent payload' hpayload'
      rw [lastIp_concat, Layer.pseudoSum_finalize hlayer] at hsum
      rw [← hlen', ← hlen]
      by_cases hfit : (cleared header').length + payload'.length < 2 ^ 64
      · rw [newChecksum_iff hpayload' hfit, hip, and_iff_right hfit]
        cases hget : getIp prevLayer with
        | none =>
          refine ⟨fun _ h => ?_, fun _ => hsame.symm⟩
          cases h
        | some ip =>
          rw [hip, hget] at hbehind
          rw [hget] at hchecksum
          obtain ⟨hunpadded, bytes, hbytes, hlt'⟩ := hbehind rfl
          obtain ⟨hkept, hnext'⟩ := Unpadded.cons_iff.mp hunpadded
          obtain ⟨data, tail, hdata, htail, rfl⟩ := layersToBytes_cons_eq_ok.mp hbytes
          obtain rfl := Except.ok.inj (htail.symm.trans hpayload)
          have hlayer' : (Layer.tcp tcp).data = data := Layer.data_eq hdata
          have hpay : payload'.length = tail.length := by
            rw [hlen', sentSize_eq_iff.2.mpr hnext', dataOf_eq htail]
          rw [sentLength_eq hheader, hlayer'] at hkept
          rw [List.length_append] at hlt'
          obtain ⟨-, heq⟩ : _ ∧ checksum = _ := hchecksum
          show ip.Fits _ ∧ checksum = _ ↔ _
          rw [and_iff_right (IpHeader.fits_of_lt (by omega)), heq,
            checksum_again_iff hlayer hheader hheader' (by omega) hpay, hsum (by omega)]
          exact ⟨fun h _ => h, fun h => h rfl⟩
      · rw [NewChecksum, hlast]
        constructor
        · rintro ⟨payload'', hpayload'', hfit', -⟩
          obtain rfl := Except.ok.inj (hpayload''.symm.trans hpayload')
          exact absurd hfit' hfit
        · rintro ⟨hfit', -⟩
          exact absurd hfit' hfit
    constructor
    · rintro ⟨header', hheader', hnew⟩
      have hnew' := hnew
      rw [NewChecksum, hlast] at hnew'
      obtain ⟨payload', hpayload', -⟩ := hnew'
      obtain ⟨hlt', hsum⟩ := (hcompare header' payload' hheader' hpayload').mp hnew
      exact ⟨⟨header', hheader'⟩, fun _ => ⟨⟨payload', hpayload'⟩, hlt'⟩, hsum⟩
    · rintro ⟨⟨header', hheader'⟩, hbytes, hsum⟩
      obtain ⟨⟨payload', hpayload'⟩, hlt'⟩ := hbytes rfl
      exact ⟨header', hheader', (hcompare header' payload' hheader' hpayload').mpr ⟨hlt', hsum⟩⟩

/-! ## All layers -/

/-- What an Ipv4 layer stores comes out the same the second time. -/
theorem Ipv4.repeat_iff {prev next next' : List Layer} {ipv4 : Ipv4} {layer : Layer}
    (hlayer : LayerExt.finalize prev next (.ipv4 ipv4) = .ok () layer)
    (hnext : Finalized (prev ++ [layer]) next next') :
    LayerExt.finalize prev next' layer = .ok () layer ↔ Unpadded next ∧ Sendable next := by
  obtain ⟨header, tail, hheader, htail, hlt, cleared, hcleared, rfl⟩ :=
    Layer.finalize_ipv4_eq_ok.mp hlayer
  obtain ⟨x, y, z, -, -, -, hframe⟩ := toBytes_frame hheader
  have hheader' := hframe (BitVec.ofNat 16 (header.length + tail.length)) (Nata.checksum cleared)
  have hlen := length_toBytes_update hheader hheader'
  rw [← hnext.length_iff htail, Layer.finalize_ipv4_eq_ok]
  constructor
  · rintro ⟨header', tail', h, htail', hlt', _, -, heq⟩
    obtain rfl := Except.ok.inj (hheader'.symm.trans h)
    have hnew := congrArg (fun i : Ipv4 => i.length.toNat) (Layer.ipv4.inj heq)
    simp only [BitVec.toNat_ofNat, Nat.mod_eq_of_lt hlt, hlen] at hnew
    exact ⟨tail', htail', by omega⟩
  · rintro ⟨tail', htail', hsize⟩
    refine ⟨_, tail', hheader', htail', by rw [hlen, ← hsize]; exact hlt, cleared, ?_, ?_⟩
    · rw [hlen, ← hsize]
      exact hcleared
    · rw [hlen, ← hsize]

/-- What an Ipv6 layer stores comes out the same the second time. -/
theorem Ipv6.repeat_iff {prev next next' : List Layer} {ipv6 : Ipv6} {layer : Layer}
    (hlayer : LayerExt.finalize prev next (.ipv6 ipv6) = .ok () layer)
    (hnext : Finalized (prev ++ [layer]) next next') :
    LayerExt.finalize prev next' layer = .ok () layer ↔ Unpadded next ∧ Sendable next := by
  obtain ⟨tail, htail, hlt, rfl⟩ := Layer.finalize_ipv6_eq_ok.mp hlayer
  rw [← hnext.length_iff htail, Layer.finalize_ipv6_eq_ok]
  constructor
  · rintro ⟨tail', htail', hlt', heq⟩
    have hnew := congrArg (fun i : Ipv6 => i.length.toNat) (Layer.ipv6.inj heq)
    simp only [BitVec.toNat_ofNat, Nat.mod_eq_of_lt hlt, Nat.mod_eq_of_lt hlt'] at hnew
    exact ⟨tail', htail', hnew⟩
  · rintro ⟨tail', htail', hsize⟩
    exact ⟨tail', htail', hsize ▸ hlt, by rw [hsize]⟩

/-- **One layer**: it is left alone by the second pass exactly when it is repeatable. -/
theorem Layer.repeat_iff {before : Option Layer} {prev next next' : List Layer}
    {layer layer' : Layer} (hlayer : LayerExt.finalize prev next layer = .ok () layer')
    (hnext : Finalized (prev ++ [layer']) next next')
    (hbefore : before.isSome = prev.getLast?.isSome)
    (hip : (before.bind getIp).isSome = (lastIp prev).isSome)
    (hbehind : (lastIp prev).isSome → Unpadded (layer :: next) ∧
      ∃ bytes, layersToBytes (layer :: next) = .ok bytes ∧ bytes.length < 2 ^ 16) :
    LayerExt.finalize prev next' layer' = .ok () layer' ↔ layer.Repeatable before next := by
  cases layer with
  | ether e =>
    obtain rfl := finalize_ether_eq_ok.mp hlayer
    exact ⟨fun _ => trivial, fun _ => finalize_ether_eq_ok.mpr rfl⟩
  | raw r =>
    obtain rfl := finalize_raw_eq_ok.mp hlayer
    exact ⟨fun _ => trivial, fun _ => finalize_raw_eq_ok.mpr rfl⟩
  | icmp4 i =>
    obtain rfl := finalize_icmp4_eq_ok.mp hlayer
    exact ⟨fun _ => trivial, fun _ => finalize_icmp4_eq_ok.mpr rfl⟩
  | ipv4 v => exact Ipv4.repeat_iff hlayer hnext
  | ipv6 v => exact Ipv6.repeat_iff hlayer hnext
  | udp u =>
    rw [Udp.repeat_iff hlayer hnext, Repeatable, hip]
  | tcp t =>
    rw [Tcp.repeat_iff hlayer hnext hbehind, Repeatable, hip, hbefore]

/-- The second pass leaves the finalised layers alone exactly when they are repeatable. -/
theorem Finalized.repeat_iff {before : Option Layer} {prev rest rest' : List Layer}
    (h : Finalized prev rest rest') (hbefore : before.isSome = prev.getLast?.isSome)
    (hip : (before.bind getIp).isSome = (lastIp prev).isSome)
    (hbehind : (lastIp prev).isSome → Unpadded rest ∧
      ∃ bytes, layersToBytes rest = .ok bytes ∧ bytes.length < 2 ^ 16) :
    Finalized prev rest' rest' ↔ RepeatableFrom before rest := by
  induction h generalizing before with
  | nil => exact ⟨fun _ => trivial, fun _ => .nil⟩
  | @cons prev layer next layer' next' hlayer hnext ih =>
    have hcons : Finalized prev (layer' :: next') (layer' :: next') ↔
        LayerExt.finalize prev next' layer' = .ok () layer' ∧
          Finalized (prev ++ [layer']) next' next' := by
      constructor
      · rintro (_ | ⟨h₁, h₂⟩)
        exact ⟨h₁, h₂⟩
      · rintro ⟨h₁, h₂⟩
        exact .cons h₁ h₂
    rw [hcons, Layer.repeat_iff hlayer hnext hbefore hip hbehind]
    have hsame : (getIp layer).isSome = (getIp layer').isSome := by
      have h := congrArg Option.isSome (Layer.pseudoSum_finalize hlayer)
      rw [Option.isSome_map, Option.isSome_map] at h
      exact h.symm
    refine and_congr_right fun hrepeatable => ih ?_ ?_ ?_
    · rw [List.getLast?_concat]
      rfl
    · rw [lastIp_concat]
      exact hsame
    · -- An IP layer that is repeatable has nothing behind it that is padded.
      rw [lastIp_concat, ← hsame]
      intro hsome
      obtain ⟨ip, hget⟩ := Option.isSome_iff_exists.mp hsome
      obtain ⟨-, -, -, -, tail, htail, hlt⟩ := Layer.getIp_finalize hget hlayer
      refine ⟨?_, tail, htail, hlt⟩
      cases layer with
      | ipv4 v => exact hrepeatable.1
      | ipv6 v => exact hrepeatable.1
      | ether | tcp | udp | icmp4 | raw => cases hget

/-- **When `finalize` is idempotent**: calling it on a finalised packet succeeds and changes nothing
    exactly when the packet as built was repeatable. -/
theorem finalize_idempotent_iff {packet packet' : Packet Layer}
    (hfin : packet.finalize = .ok () packet') :
    packet'.finalize = .ok () packet' ↔ packet.Repeatable := by
  rw [Packet.finalize_eq_ok]
  exact (Packet.finalize_eq_ok.mp hfin).repeat_iff rfl rfl nofun

end

theorem finalize_changes_staleUdp :
    letI := Deku.truncating
    ∃ packet', staleUdp.finalize = .ok () packet' ∧ packet'.finalize ≠ .ok () packet' := by
  let := Deku.truncating
  -- The second pass stores the checksum 0x916e.
  refine ⟨⟨[.ether default,
    .ipv4 { (default : Ipv4) with protocol := .UDP, length := 29, checksum := 0xbcce },
    .udp { sport := 53, dport := 54, length := 9, checksum := 0x9177 }, .raw ⟨[0x70], 0⟩]⟩, ?_, ?_⟩
  · decide +kernel
  · decide +kernel

/-- The same packet with the length that it is going to have. -/
def draftUdp : Packet Layer where
  layers :=
    [.ether default, .ipv4 { (default : Ipv4) with protocol := .UDP },
     .udp { sport := 53, dport := 54, length := 9, checksum := 0 }, .raw ⟨[0x70], 0⟩]

theorem finalize_keeps_draftUdp :
    letI := Deku.truncating
    ∃ packet', draftUdp.finalize = .ok () packet' ∧ packet'.finalize = .ok () packet' := by
  let := Deku.truncating
  have hfin : draftUdp.finalize = .ok () ⟨[.ether default,
      .ipv4 { (default : Ipv4) with protocol := .UDP, length := 29, checksum := 0xbcce },
      .udp { sport := 53, dport := 54, length := 9, checksum := 0x916e },
      .raw ⟨[0x70], 0⟩]⟩ := by decide +kernel
  refine ⟨_, hfin, (finalize_idempotent_iff hfin).mpr ⟨trivial, ⟨?_, ?_⟩, ⟨?_, ?_, fun _ => ?_⟩,
    trivial, trivial⟩⟩
  · rintro t ht
    rcases List.mem_cons.mp ht with ht | ht
    · cases ht
    · cases List.mem_singleton.mp ht
  · rintro t ht
    rcases List.mem_cons.mp ht with ht | ht
    · cases ht
    · cases List.mem_singleton.mp ht
  · rintro t ht
    cases List.mem_singleton.mp ht
  · rintro t ht
    cases List.mem_singleton.mp ht
  · decide +kernel

end Nata
