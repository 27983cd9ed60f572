/-
  What `Packet::finalize` does not touch.

  Each layer changes at most in its dependent fields, whether its `finalize` succeeds or fails
  (`Layer.Framed`), and the pass hands every layer the finalised layers before it and the layers
  behind it as they were.  So the frame of the whole pass follows from that of one layer by the two
  forms a pass can have: it comes by all layers, or it fails at one and leaves those behind alone
  (`Packet.finalize_eq_error`).

  Of the options of a Tcp layer more can be said: padding stops at the first multiple of four
  (`Tcp.PaddedTo`).
-/
import Nata.Layer.BuiltIn
import Nata.Packet.Basic

namespace Nata

/-- The fields that `finalize` may change, for each type of layer. -/
inductive Layer.Framed : Layer → Layer → Prop
  | ether {e} : Framed (.ether e) (.ether e)
  | ipv4 {h : Ipv4} {length checksum} : Framed (.ipv4 h) (.ipv4 { h with length, checksum })
  | ipv6 {h : Ipv6} {length} : Framed (.ipv6 h) (.ipv6 { h with length })
  | tcp {t : Tcp} {offset checksum options} :
      Framed (.tcp t) (.tcp { t with offset, checksum, options })
  | udp {u : Udp} {length checksum} : Framed (.udp u) (.udp { u with length, checksum })
  | icmp4 {i : Icmp4} {checksum} : Framed (.icmp4 i) (.icmp4 { i with checksum })
  | raw {r} : Framed (.raw r) (.raw r)

theorem Layer.Framed.refl : ∀ layer : Layer, layer.Framed layer
  | .ether _ => .ether
  | .ipv4 _ => .ipv4
  | .ipv6 _ => .ipv6
  | .tcp _ => .tcp
  | .udp _ => .udp
  | .icmp4 _ => .icmp4
  | .raw _ => .raw

section

variable [Deku]

/-! ## One layer -/

/-- `finalize` of a layer changes what depends on other fields. -/
theorem Layer.finalize_framed {prev next : List Layer} {layer layer' : Layer}
    (h : LayerExt.finalize prev next layer = .ok () layer') : layer.Framed layer' := by
  cases layer with
  | ether e =>
    obtain rfl := finalize_ether_eq_ok.mp h
    exact .ether
  | raw r =>
    obtain rfl := finalize_raw_eq_ok.mp h
    exact .raw
  | icmp4 i =>
    obtain rfl := finalize_icmp4_eq_ok.mp h
    exact .icmp4
  | ipv4 v =>
    obtain ⟨_, _, -, -, -, _, -, rfl⟩ := finalize_ipv4_eq_ok.mp h
    exact .ipv4
  | ipv6 v =>
    obtain ⟨_, -, -, rfl⟩ := finalize_ipv6_eq_ok.mp h
    exact .ipv6
  | udp u =>
    obtain ⟨_, -, -, rfl⟩ := finalize_udp_eq_ok.mp h
    exact .udp
  | tcp t =>
    obtain ⟨_, _, -, -, -, rfl⟩ := finalize_tcp_eq_ok.mp h
    exact .tcp

/-- An error may leave a Tcp layer changed, and no other. -/
theorem Layer.finalize_error_framed {prev next : List Layer} {layer layer' : Layer}
    {e : LayerError} (h : LayerExt.finalize prev next layer = .error e layer') :
    layer.Framed layer' := by
  cases layer with
  | ether _ => exact absurd h (finalize_ne_error (.inl rfl))
  | raw _ => exact absurd h (finalize_ne_error (.inr (.inl rfl)))
  | icmp4 _ => exact absurd h (finalize_ne_error (.inr (.inr rfl)))
  | ipv4 v =>
    obtain ⟨_, hv, rfl⟩ := Method.zoom_eq_error.mp h
    rw [(Ipv4.finalize_eq_error.mp hv).1]
    exact .refl _
  | ipv6 v =>
    obtain ⟨_, hv, rfl⟩ := Method.zoom_eq_error.mp h
    rw [(Ipv6.finalize_eq_error.mp hv).1]
    exact .refl _
  | udp u =>
    obtain ⟨_, hu, rfl⟩ := Method.zoom_eq_error.mp h
    rw [(Udp.finalize_eq_error.mp hu).1]
    exact .refl _
  | tcp t =>
    obtain ⟨_, ht, rfl⟩ := Method.zoom_eq_error.mp h
    rcases Tcp.finalize_eq_error.mp ht with ⟨-, rfl⟩ | ⟨_, -, ⟨-, rfl⟩ | ⟨_, -, -, -, rfl⟩⟩
    · exact .refl _
    · exact .tcp
    · exact .tcp

namespace Tcp

/-- `options` are those of the layer and then as few `EOL` as it takes to align the header. -/
def PaddedTo (tcp : Tcp) (options : List TcpOption) : Prop :=
  ∃ k, options = tcp.options ++ List.replicate k TcpOption.EOL ∧ k ≤ 3 ∧
    IsLeast {k | ∃ bytes, 4 ∣ bytes.length ∧
      { tcp with options := tcp.options ++ List.replicate k TcpOption.EOL }.toBytes = .ok bytes } k

/-- The condition that `finalize` asserts: `tcp_header_len % 4` is zero, for the header that comes
    out of the second serialisation. -/
def AssertionHolds (tcp : Tcp) : Prop :=
  ∀ data data', tcp.toBytes = .ok data →
    { tcp with options :=
      tcp.options ++ List.replicate (padAmt data.length) TcpOption.EOL }.toBytes = .ok data' →
    (clearWord data' 16).length % 4 = 0

/-- **The assertion holds**, whatever the options are. -/
theorem assertionHolds (tcp : Tcp) : tcp.AssertionHolds := by
  intro data data' hdata hdata'
  obtain rfl := Except.ok.inj ((toBytes_pad hdata _).symm.trans hdata')
  exact Nat.mod_eq_zero_of_dvd (four_dvd_length_cleared data)

/-- `finalize` pads the options as far as it has to. -/
theorem finalize_paddedTo {prev next : List Layer} {tcp tcp' : Tcp}
    (h : LayerExt.finalize prev next (.tcp tcp) = .ok () (.tcp tcp')) :
    tcp.PaddedTo tcp'.options := by
  obtain ⟨header, checksum, hheader, -, -, heq⟩ := Layer.finalize_tcp_eq_ok.mp h
  have hoptions := congrArg Tcp.options (Layer.tcp.inj heq)
  have hlen : ∀ k, (header ++ List.replicate k 0#8).length = header.length + k := by
    intro k
    rw [List.length_append, List.length_replicate]
  refine ⟨padAmt header.length, hoptions, by rw [padAmt]; omega,
    ⟨_, ?_, toBytes_pad hheader (padAmt header.length)⟩, ?_⟩
  · rw [hlen, padAmt]
    omega
  · rintro k ⟨bytes, hdvd, hbytes⟩
    obtain rfl := Except.ok.inj ((toBytes_pad hheader k).symm.trans hbytes)
    rw [hlen] at hdvd
    rw [padAmt]
    omega

end Tcp

/-! ## The pass -/

/-- The `i`-th layer is as its own successful `finalize` left it, between the finalised layers before
    it and the layers behind it as they were. -/
def Packet.OwnFinalize {L : Type} [LayerExt L] (packet packet' : Packet L) (i : Nat) : Prop :=
  ∃ layer layer', packet.layers[i]? = some layer ∧ packet'.layers[i]? = some layer' ∧
    LayerExt.finalize (packet'.layers.take i) (packet.layers.drop (i + 1)) layer = .ok () layer'

end

/-- What a pass has come by, layer by layer. -/
theorem Passed.own {L : Type} [LayerExt L] {prev xs ys xs' : List L} (h : Passed prev xs ys xs') :
    xs'.length = xs.length ∧ ∀ i layer, xs[i]? = some layer →
      ∃ layer', xs'[i]? = some layer' ∧
        LayerExt.finalize (prev ++ xs'.take i) (xs.drop (i + 1) ++ ys) layer = .ok () layer' := by
  induction h with
  | nil =>
    refine ⟨rfl, fun i layer hi => ?_⟩
    cases hi
  | @cons prev first next ys first' next' hfirst _ ih =>
    obtain ⟨hlen, hown⟩ := ih
    refine ⟨by rw [List.length_cons, List.length_cons, hlen], fun i layer hi => ?_⟩
    cases i with
    | zero =>
      obtain rfl := Option.some.inj hi
      exact ⟨first', rfl, by rwa [List.take_zero, List.append_nil]⟩
    | succ i =>
      obtain ⟨layer', hi', hlayer⟩ := hown i layer hi
      refine ⟨layer', hi', ?_⟩
      rwa [← List.append_cons] at hlayer

theorem Passed.framed [Deku] {prev xs ys xs' : List Layer} (h : Passed prev xs ys xs') :
    List.Forall₂ Layer.Framed xs xs' := by
  induction h with
  | nil => exact .nil
  | cons hlayer _ ih => exact .cons (Layer.finalize_framed hlayer) ih

section

variable [Deku]

/-- A pass that has come by `xs` leaves the packet as it says, whatever is behind. -/
theorem Packet.ownFinalize_of_passed {packet packet' : Packet Layer} {xs ys xs' ys' : List Layer}
    (hlayers : packet.layers = xs ++ ys) (hlayers' : packet'.layers = xs' ++ ys')
    (h : Passed [] xs ys xs') : ∀ i < xs.length, packet.OwnFinalize packet' i := by
  obtain ⟨hlen, hown⟩ := h.own
  intro i hi
  obtain ⟨layer', hi', hlayer⟩ := hown i xs[i] (List.getElem?_eq_getElem hi)
  refine ⟨xs[i], layer', ?_, ?_, ?_⟩
  · rw [hlayers, List.getElem?_append_left hi, List.getElem?_eq_getElem hi]
  · rw [hlayers', List.getElem?_append_left (hlen ▸ hi), hi']
  · rw [hlayers, hlayers', List.take_append_of_le_length (by omega),
      List.drop_append_of_le_length (by omega)]
    exact hlayer

/-- **finalize touches only the dependent fields**, whatever its outcome. -/
theorem Packet.finalize_frame (packet : Packet Layer) :
    let packet' := Method.left packet.finalize
    List.Forall₂ Layer.Framed packet.layers packet'.layers ∧
    (∀ i t t', packet.layers[i]? = some (.tcp t) → packet'.layers[i]? = some (.tcp t') →
      packet.OwnFinalize packet' i → t.PaddedTo t'.options) ∧
    (∀ t : Tcp, t.AssertionHolds) ∧
    (∀ i < packet.layers.length, packet.finalize = .ok () packet' → packet.OwnFinalize packet' i) ∧
    (∀ e, packet.finalize = .error e packet' → ∃ j layer layer' err,
      packet.layers[j]? = some layer ∧ packet'.layers[j]? = some layer' ∧
      LayerExt.finalize (packet'.layers.take j) (packet.layers.drop (j + 1)) layer =
        .error err layer' ∧
      e = .ofLayerError err ∧ (∀ i < j, packet.OwnFinalize packet' i) ∧
      packet'.layers.drop (j + 1) = packet.layers.drop (j + 1)) := by
  intro packet'
  have hpadded : ∀ i t t', packet.layers[i]? = some (.tcp t) →
      packet'.layers[i]? = some (.tcp t') → packet.OwnFinalize packet' i →
        t.PaddedTo t'.options := by
    rintro i t t' hi hi' ⟨layer, layer', hlayer, hlayer', hfin⟩
    obtain rfl := Option.some.inj (hi.symm.trans hlayer)
    obtain rfl := Option.some.inj (hi'.symm.trans hlayer')
    exact Tcp.finalize_paddedTo hfin
  cases hfin : packet.finalize with
  | ok u done =>
    have hleft : packet' = done := by
      show Method.left packet.finalize = done
      rw [hfin]
      rfl
    have hpassed := (Packet.finalize_eq_ok.mp hfin).passed
    refine ⟨hleft ▸ hpassed.framed, hpadded, Tcp.assertionHolds, fun i hi _ => ?_, ?_⟩
    · exact ownFinalize_of_passed (List.append_nil _).symm (List.append_nil _).symm
        (hleft ▸ hpassed) i hi
    · intro e h
      cases h
  | error e done =>
    have hleft : packet' = done := by
      show Method.left packet.finalize = done
      rw [hfin]
      rfl
    obtain ⟨before, layer, behind, before', layer', err, hlayers, hpassed, hlayer, rfl, hlayers'⟩ :=
      Packet.finalize_eq_error.mp hfin
    rw [← hleft] at hlayers'
    have hlen := hpassed.own.1
    have hdrop : ∀ (xs : List Layer) (x : Layer), (xs ++ x :: behind).drop (xs.length + 1) = behind :=
      fun xs x => List.drop_length_add_append 1
    have hget : ∀ (xs : List Layer) (x : Layer), (xs ++ x :: behind)[xs.length]? = some x :=
      fun xs x => getElem?_length_add xs _ 0
    refine ⟨?_, hpadded, Tcp.assertionHolds, fun i _ h => ?_, fun e' he' => ?_⟩
    · rw [hlayers, hlayers']
      exact List.rel_append hpassed.framed
        (.cons (Layer.finalize_error_framed hlayer) (List.forall₂_same.mpr fun l _ => .refl l))
    · cases h
    · cases he'
      refine ⟨before.length, layer, layer', err, ?_, ?_, ?_, rfl,
        ownFinalize_of_passed hlayers hlayers' hpassed, ?_⟩
      · rw [hlayers, hget]
      · rw [hlayers', ← hlen, hget]
      · rw [hlayers, hlayers', hdrop, ← hlen, List.take_left]
        exact hlayer
      · rw [hlayers, hlayers', hdrop, ← hlen, hdrop]

end

/-- A segment in a frame, with an option. -/
def optionedSegment (length4 checksum4 : BitVec 16) (offset : BitVec 8) (checksumTcp : BitVec 16)
    (options : List TcpOption) (data : Bytes) : Packet Layer where
  layers :=
    [.ether default,
     .ipv4 { (default : Ipv4) with protocol := .TCP, length := length4, checksum := checksum4 },
     .tcp { (default : Tcp) with offset, checksum := checksumTcp, options }, .raw ⟨data, 0⟩]

theorem Packet.finalize_frame_optionedSegment :
    letI := Deku.truncating
    (∃ packet' t', (optionedSegment 0 0 5 0 [.NOP] [0x70]).finalize = .ok () packet' ∧
      List.Forall₂ Layer.Framed (optionedSegment 0 0 5 0 [.NOP] [0x70]).layers packet'.layers ∧
      packet'.layers[2]? = some (.tcp t') ∧
      Tcp.PaddedTo { (default : Tcp) with options := [.NOP] } t'.options ∧
      ∀ i < 4, (optionedSegment 0 0 5 0 [.NOP] [0x70]).OwnFinalize packet' i) ∧
    ∃ (data : Bytes) (e : PacketError) (packet' : Packet Layer) (j : Nat), data.length = 65520 ∧
      (optionedSegment 0 0 5 0 [.NOP] data).finalize = .error e packet' ∧
      List.Forall₂ Layer.Framed (optionedSegment 0 0 5 0 [.NOP] data).layers packet'.layers ∧
      (∀ i < j, (optionedSegment 0 0 5 0 [.NOP] data).OwnFinalize packet' i) ∧
      packet'.layers.drop (j + 1) = (optionedSegment 0 0 5 0 [.NOP] data).layers.drop (j + 1) := by
  let := Deku.truncating
  constructor
  · have hfin : (optionedSegment 0 0 5 0 [.NOP] [0x70]).finalize =
        .ok () (optionedSegment 42 0xbccc 6 0x40dd [.NOP, .EOL, .EOL, .EOL] [0x70]) := by
      decide +kernel
    have hframe := Packet.finalize_frame (optionedSegment 0 0 5 0 [.NOP] [0x70])
    rw [hfin] at hframe
    obtain ⟨hframed, hpadded, -, hown, -⟩ := hframe
    have hown' := fun i (hi : i < 4) => hown i hi rfl
    exact ⟨_, _, hfin, hframed, rfl, hpadded 2 _ _ rfl rfl (hown' 2 (by decide)), hown'⟩
  · obtain ⟨data, hdata⟩ : ∃ data : Bytes, data.length = 65520 :=
      ⟨.replicate 65520 0, List.length_replicate⟩
    have hframe := Packet.finalize_frame (optionedSegment 0 0 5 0 [.NOP] data)
    cases hfin : (optionedSegment 0 0 5 0 [.NOP] data).finalize with
    | error e packet' =>
      rw [hfin] at hframe
      obtain ⟨hframed, -, -, -, hfailed⟩ := hframe
      obtain ⟨j, _, _, _, -, -, -, -, hown, hbehind⟩ := hfailed e rfl
      exact ⟨data, e, packet', j, hdata, hfin, hframed, hown, hbehind⟩
    | ok u packet' =>
      -- The datagram is too large for the length of the IP header.
      rw [hfin] at hframe
      obtain ⟨_, _, hlayer, -, hipv4⟩ := hframe.2.2.2.1 1 (Nat.one_lt_succ_succ 2) rfl
      obtain rfl := Option.some.inj hlayer
      obtain ⟨header, tail, hheader, htail, hlt, -⟩ := Layer.finalize_ipv4_eq_ok.mp hipv4
      obtain ⟨_, _, -, hraw, rfl⟩ := layersToBytes_cons_eq_ok.mp htail
      obtain rfl := Except.ok.inj ((Layer.layersToBytes_raw ⟨data, 0⟩).symm.trans hraw)
      obtain ⟨_, -, hsize⟩ := Ipv4.length_toBytes hheader
      rw [List.length_append, hdata] at hlt
      omega

end Nata
