/-
  Calling `finalize` again and again.

  One call need not leave a packet as it should be: a length counts Tcp options that are padded
  only later, a Udp checksum covers the old length, a Tcp checksum the old offset, and either of them
  the old bytes behind it.  The next call works on the outcome of the one before.  This is a `Pass`:

  * the context of a layer is the IP header in front of it, without length and checksum;
  * the shape of a layer is its serialised size, which is right from the first call on;
  * the deep layers are Tcp and Udp.

  So the packet is at rest after as many calls as it has Tcp and Udp layers, and one more
  (`settle_of_twice`): two calls for an ordinary packet.  What it is then does not depend on what
  the dependent fields were at first (`settled_eq`).
-/
import Nata.Layer.FailedFinalize
import Nata.Lib.Passes
import Nata.Packet.Idempotent

namespace Nata

/-! ## What a layer sees of the layer before it -/

/-- What a layer shows to the layer behind it: an IP layer its addresses and its protocol. -/
def Layer.context : Layer → Layer
  | .ipv4 h => .ipv4 { h with length := 0, checksum := 0 }
  | .ipv6 h => .ipv6 { h with length := 0 }
  | .ether _ | .tcp _ | .udp _ | .icmp4 _ | .raw _ => .raw default

/-- The layers whose checksum covers what is behind them. -/
def Layer.isTransport (layer : Layer) : Bool :=
  match layer.typeId with
  | .Tcp | .Udp => true
  | _ => false

/-- A layer without the fields that `finalize` overwrites behind this context. -/
def Layer.draft (before : Option Layer) : Layer → Layer
  | .ipv4 h => .ipv4 { h with length := 0, checksum := 0 }
  | .ipv6 h => .ipv6 { h with length := 0 }
  | .tcp t => .tcp { t with
      offset := 0, checksum := if (before.bind getIp).isSome then 0 else t.checksum }
  | .udp u => .udp { u with
      length := 0, checksum := if (before.bind getIp).isSome then 0 else u.checksum }
  | .icmp4 i => .icmp4 { i with checksum := 0 }
  | layer => layer

section

variable [Deku]

/-- A pseudo header has only addresses and a protocol of the IP layer. -/
theorem ipPseudoHeader_context (toU16 toU32 : String) (layer : Layer) (length : Nat) :
    ipPseudoHeader toU16 toU32 layer.context length = ipPseudoHeader toU16 toU32 layer length := by
  cases layer <;> rfl

omit [Deku] in
theorem getLast?_toList (before : Option Layer) : before.toList.getLast? = before := by
  cases before <;> rfl

omit [Deku] in
theorem lastIp_toList (before : Option Layer) : lastIp before.toList = before.bind getIp := by
  rw [lastIp, getLast?_toList]

theorem Tcp.updateChecksum_context (prev next : List Layer) :
    updateChecksum (prev.getLast?.map Layer.context).toList next = updateChecksum prev next := by
  funext header
  unfold updateChecksum
  rw [getLast?_toList]
  cases prev.getLast? with
  | none => rfl
  | some last =>
    show _ = _
    simp only [Option.map_some, ipPseudoHeader_context]

theorem Udp.updateChecksum_context (prev : List Layer) :
    updateChecksum (prev.getLast?.map Layer.context).toList = updateChecksum prev := by
  funext header payload length
  unfold updateChecksum
  rw [getLast?_toList]
  cases prev.getLast? with
  | none => rfl
  | some last =>
    show _ = _
    simp only [Option.map_some, ipPseudoHeader_context]

/-- **Only the context of the layer before matters.** -/
theorem Layer.finalize_context (prev next : List Layer) (layer : Layer) :
    LayerExt.finalize (prev.getLast?.map Layer.context).toList next layer =
      LayerExt.finalize prev next layer := by
  cases layer with
  | tcp t =>
    show Method.zoom tcp (t.finalize _ next) = Method.zoom tcp (t.finalize prev next)
    rw [Tcp.finalize, Tcp.finalize, Tcp.updateChecksum_context]
  | udp u =>
    show Method.zoom udp (u.finalize _ next) = Method.zoom udp (u.finalize prev next)
    rw [Udp.finalize, Udp.finalize, Udp.updateChecksum_context]
  | ether | ipv4 | ipv6 | icmp4 | raw => rfl

/-! ## One layer -/

/-- `finalize` of a layer behind this context. -/
def Layer.step (before : Option Layer) (next : List Layer) (layer : Layer) : Option Layer :=
  match LayerExt.finalize before.toList next layer with
  | .ok () layer => some layer
  | .error _ _ => none

variable {before : Option Layer} {next : List Layer} {x y : Layer}

/-- A step is `finalize` behind the context. -/
theorem Layer.step_eq_some :
    x.step before next = some y ↔ LayerExt.finalize before.toList next x = .ok () y := by
  unfold step
  cases LayerExt.finalize before.toList next x with
  | ok u layer => cases u; simp
  | error e layer => simp

/-- The serialised size of a layer, if it can be serialised. -/
def Layer.shape (layer : Layer) : Option Nat := (LayerBytes.length layer).toOption

/-- The shape of a layer is the size of its bytes. -/
theorem Layer.shape_eq_some {layer : Layer} {n : Nat} :
    layer.shape = some n ↔ ∃ bytes, layer.toBytes = .ok bytes ∧ bytes.length = n := by
  show (Except.map List.length layer.toBytes).toOption = some n ↔ _
  cases layer.toBytes <;> simp [Except.map, Except.toOption]

/-- Two layers have one shape if each can be serialised, and is as long as the other, when the other
    can. -/
theorem Layer.shape_congr {layer layer' : Layer}
    (h : ∀ bytes, layer.toBytes = .ok bytes →
      ∃ bytes', layer'.toBytes = .ok bytes' ∧ bytes'.length = bytes.length)
    (h' : ∀ bytes', layer'.toBytes = .ok bytes' → ∃ bytes, layer.toBytes = .ok bytes) :
    layer'.shape = layer.shape := by
  apply Option.ext
  intro n
  rw [shape_eq_some, shape_eq_some]
  constructor
  · rintro ⟨bytes', hbytes', rfl⟩
    obtain ⟨bytes, hbytes⟩ := h' bytes' hbytes'
    obtain ⟨_, hsame, hlen⟩ := h bytes hbytes
    obtain rfl := Except.ok.inj (hbytes'.symm.trans hsame)
    exact ⟨bytes, hbytes, hlen.symm⟩
  · rintro ⟨bytes, hbytes, rfl⟩
    exact h bytes hbytes

/-- Layers of the same shapes serialise to as many bytes. -/
theorem layersToBytes_of_shapes {next next' : List Layer}
    (h : next.map Layer.shape = next'.map Layer.shape) {tail : Bytes}
    (htail : layersToBytes next = .ok tail) :
    ∃ tail', layersToBytes next' = .ok tail' ∧ tail'.length = tail.length := by
  induction next generalizing next' tail with
  | nil =>
    obtain rfl := List.map_eq_nil_iff.mp h.symm
    exact ⟨tail, htail, rfl⟩
  | cons layer next ih =>
    rcases next' with _ | ⟨layer', next'⟩
    · cases h
    · obtain ⟨hhead, hrest⟩ := List.cons.inj h
      obtain ⟨data, rest, hdata, hbytes, rfl⟩ := layersToBytes_cons_eq_ok.mp htail
      obtain ⟨tail', htail', hlen⟩ := ih hrest hbytes
      rw [Layer.shape_eq_some.mpr ⟨data, hdata, rfl⟩] at hhead
      obtain ⟨data', hdata', hsize⟩ := Layer.shape_eq_some.mp hhead.symm
      refine ⟨data' ++ tail', layersToBytes_cons_eq_ok.mpr ⟨_, _, hdata', htail', rfl⟩, ?_⟩
      rw [List.length_append, List.length_append, hsize, hlen]

/-- A header with another checksum has the same size, and the same bytes without the checksum. -/
theorem Tcp.toBytes_checksum {tcp : Tcp} {header : Bytes} (h : tcp.toBytes = .ok header)
    (checksum : BitVec 16) :
    ∃ header', { tcp with checksum }.toBytes = .ok header' ∧ header'.length = header.length ∧
      cleared header' = cleared header := by
  obtain ⟨a, z, f, -, -, hframe⟩ := toBytes_frame h
  have hself := hframe tcp.offset tcp.checksum 0 header
  have hnew := fun bytes => hframe tcp.offset checksum 0 bytes
  simp only [List.replicate_zero, List.append_nil] at hself hnew
  obtain ⟨o, ho, hheader⟩ := hself.mp h
  have hheader' := (hnew _).mpr ⟨o, ho, rfl⟩
  have hlen : (a ++ pack (o ++ f) ++ be tcp.window ++ be checksum ++ z).length =
      header.length := by
    rw [hheader]
    simp only [List.length_append, length_be16]
  refine ⟨_, hheader', hlen, ?_⟩
  have hpad := toBytes_cleared h
  have hpad' := toBytes_cleared hheader'
  rw [hlen] at hpad'
  exact Except.ok.inj (hpad'.symm.trans hpad)

/-- Where there is no IP layer before it a Tcp layer keeps its checksum. -/
theorem Tcp.newChecksum_toList (hip : (before.bind getIp).isSome = false) {tcp : Tcp}
    {header : Bytes} {checksum : BitVec 16}
    (h : tcp.NewChecksum before.toList next header checksum) : checksum = tcp.checksum := by
  rw [NewChecksum, getLast?_toList] at h
  cases before with
  | none => exact h
  | some layer =>
    obtain ⟨_, -, -, h⟩ := h
    have hget : getIp layer = none := Option.isSome_eq_false_iff.mp hip |> Option.isNone_iff_eq_none.mp
    rwa [hget] at h

/-- Behind an IP layer the checksum does not depend on the Tcp layer, but on its bytes. -/
theorem Tcp.newChecksum_ip (hip : (before.bind getIp).isSome) {tcp tcp' : Tcp} {header : Bytes}
    {checksum : BitVec 16} (h : tcp.NewChecksum before.toList next header checksum) :
    tcp'.NewChecksum before.toList next header checksum := by
  obtain ⟨layer, rfl⟩ : ∃ layer, before = some layer := by
    cases before with
    | none => cases hip
    | some layer => exact ⟨layer, rfl⟩
  obtain ⟨ip, hget⟩ := Option.isSome_iff_exists.mp hip
  have hget' : getIp layer = some ip := hget
  unfold NewChecksum at h ⊢
  rw [getLast?_toList] at h ⊢
  simp only [hget'] at h ⊢
  exact h

/-- Behind an IP layer `finalize` does not read the checksum of a Tcp layer. -/
theorem Tcp.step_checksum (hip : (before.bind getIp).isSome) (tcp : Tcp) (checksum : BitVec 16) :
    (Layer.tcp { tcp with checksum }).step before next = (Layer.tcp tcp).step before next := by
  apply Option.ext
  intro layer
  rw [Layer.step_eq_some, Layer.step_eq_some, Layer.finalize_tcp_eq_ok, Layer.finalize_tcp_eq_ok]
  constructor
  · rintro ⟨header, c, hheader, hc, hlt, rfl⟩
    obtain ⟨header', hheader', hlen, hcleared⟩ := toBytes_checksum hheader tcp.checksum
    rw [← hcleared] at hc hlt ⊢
    rw [← hlen]
    exact ⟨header', c, hheader', newChecksum_ip hip hc, hlt, rfl⟩
  · rintro ⟨header, c, hheader, hc, hlt, rfl⟩
    obtain ⟨header', hheader', hlen, hcleared⟩ := toBytes_checksum hheader checksum
    rw [← hcleared] at hc hlt ⊢
    rw [← hlen]
    exact ⟨header', c, hheader', newChecksum_ip hip hc, hlt, rfl⟩

/-- Nor does the size of a header depend on its offset and its checksum. -/
theorem Tcp.length_toBytes_update {tcp : Tcp} {header header' : Bytes} {offset : BitVec 8}
    {checksum : BitVec 16} (h : tcp.toBytes = .ok header)
    (h' : { tcp with offset, checksum }.toBytes = .ok header') : header'.length = header.length := by
  have hzero : { tcp with offset, checksum,
                          options := tcp.options ++ List.replicate 0 TcpOption.EOL }.toBytes =
      .ok header' := by
    rw [List.replicate_zero, List.append_nil]
    exact h'
  exact (toBytes_update h hzero).1

/-- Whether there is a checksum to store depends on sizes only. -/
theorem Tcp.exists_newChecksum {prev next next' : List Layer} {tcp : Tcp} {header : Bytes}
    {checksum : BitVec 16} (h : tcp.NewChecksum prev next header checksum)
    (hnext : next.map Layer.shape = next'.map Layer.shape) (tcp' : Tcp) :
    ∃ checksum', tcp'.NewChecksum prev next' header checksum' := by
  apply exists_newChecksum_iff.mpr
  have hfits := exists_newChecksum_iff.mp ⟨checksum, h⟩
  unfold SegmentFits at hfits ⊢
  cases hlast : prev.getLast? with
  | none => trivial
  | some layer =>
    rw [hlast] at hfits
    obtain ⟨payload, hpayload, hlt, hip⟩ := hfits
    obtain ⟨payload', hpayload', hsize⟩ := layersToBytes_of_shapes hnext hpayload
    rw [← hsize] at hlt hip
    exact ⟨payload', hpayload', hlt, hip⟩

/-- The second time, only the checksum of a Tcp layer changes. -/
theorem Tcp.finalize_twice {prev next prev' next' : List Layer} {tcp tcp' : Tcp} {z : Layer}
    (h : LayerExt.finalize prev next (.tcp tcp) = .ok () (.tcp tcp'))
    (h' : LayerExt.finalize prev' next' (.tcp tcp') = .ok () z) :
    ∃ header checksum, tcp'.toBytes = .ok header ∧ padAmt header.length = 0 ∧
      (cleared header).length / 4 < 2 ^ 8 ∧
      tcp'.offset = BitVec.ofNat 8 ((cleared header).length / 4) ∧
      tcp'.NewChecksum prev' next' (cleared header) checksum ∧
      z = .tcp { tcp' with checksum } := by
  obtain ⟨header, checksum, hheader, -, -, heq⟩ := Layer.finalize_tcp_eq_ok.mp h
  obtain ⟨header', checksum', hheader', hchecksum', hlt, rfl⟩ := Layer.finalize_tcp_eq_ok.mp h'
  have hoffset : tcp'.offset = BitVec.ofNat 8 ((cleared header).length / 4) :=
    congrArg Tcp.offset (Layer.tcp.inj heq)
  obtain ⟨hpad, hlen, -⟩ := cleared_repeat h hheader hheader'
  rw [← hlen] at hoffset
  refine ⟨header', checksum', hheader', hpad, hlt, hoffset, hchecksum', ?_⟩
  rw [hpad, List.replicate_zero, List.append_nil, ← hoffset]

/-- Behind an IP layer `finalize` does not read the checksum of a Udp layer. -/
theorem Udp.step_checksum (hip : (before.bind getIp).isSome) (udp : Udp) (checksum : BitVec 16) :
    (Layer.udp { udp with checksum }).step before next = (Layer.udp udp).step before next := by
  obtain ⟨ip, hget⟩ := Option.isSome_iff_exists.mp hip
  apply Option.ext
  intro layer
  rw [Layer.step_eq_some, Layer.step_eq_some, Layer.finalize_udp_eq_ok, Layer.finalize_udp_eq_ok,
    lastIp_toList, hget]
  rfl

/-! ## The laws of the pass -/

/-- The type of a layer stays, and what it shows to the layer behind. -/
theorem Layer.step_kind (h : x.step before next = some y) :
    y.context = x.context ∧ y.typeId = x.typeId := by
  rw [step_eq_some] at h
  cases x with
  | ether e =>
    rw [finalize_ether_eq_ok.mp h]
    exact ⟨rfl, rfl⟩
  | raw r =>
    rw [finalize_raw_eq_ok.mp h]
    exact ⟨rfl, rfl⟩
  | icmp4 i =>
    rw [finalize_icmp4_eq_ok.mp h]
    exact ⟨rfl, rfl⟩
  | ipv4 v =>
    obtain ⟨_, _, -, -, -, _, -, rfl⟩ := finalize_ipv4_eq_ok.mp h
    exact ⟨rfl, rfl⟩
  | ipv6 v =>
    obtain ⟨_, -, -, rfl⟩ := finalize_ipv6_eq_ok.mp h
    exact ⟨rfl, rfl⟩
  | udp u =>
    obtain ⟨_, -, -, rfl⟩ := finalize_udp_eq_ok.mp h
    exact ⟨rfl, rfl⟩
  | tcp t =>
    obtain ⟨_, _, -, -, -, rfl⟩ := finalize_tcp_eq_ok.mp h
    exact ⟨rfl, rfl⟩

/-- Only Tcp layers change their size. -/
theorem Layer.step_shape (htcp : ∀ t, x ≠ .tcp t) (h : x.step before next = some y) :
    y.shape = x.shape := by
  rw [step_eq_some] at h
  cases x with
  | tcp t => exact absurd rfl (htcp t)
  | ether e => rw [finalize_ether_eq_ok.mp h]
  | raw r => rw [finalize_raw_eq_ok.mp h]
  | icmp4 i =>
    obtain rfl := finalize_icmp4_eq_ok.mp h
    apply shape_congr
    · intro bytes hbytes
      refine ⟨_, Icmp4.toBytes_eq _, ?_⟩
      rw [Icmp4.length_toBytes (Icmp4.toBytes_eq _), Icmp4.length_toBytes hbytes]
      rfl
    · intro _ _
      exact ⟨_, Icmp4.toBytes_eq i⟩
  | udp u =>
    obtain ⟨tail, -, -, rfl⟩ := finalize_udp_eq_ok.mp h
    apply shape_congr
    · intro bytes hbytes
      obtain rfl := Except.ok.inj ((Udp.toBytes_eq u).symm.trans hbytes)
      refine ⟨_, Udp.toBytes_eq _, ?_⟩
      simp only [List.length_append, length_be16]
    · intro _ _
      exact ⟨_, Udp.toBytes_eq u⟩
  | ipv4 v =>
    obtain ⟨header, tail, hheader, -, -, cleared, -, rfl⟩ := finalize_ipv4_eq_ok.mp h
    apply shape_congr
    · intro bytes hbytes
      obtain ⟨_, _, _, -, -, -, hframe⟩ := Ipv4.toBytes_frame hbytes
      have hbytes' := hframe (BitVec.ofNat 16 (header.length + tail.length)) (checksum cleared)
      exact ⟨_, hbytes', Ipv4.length_toBytes_update hbytes hbytes'⟩
    · intro _ _
      exact ⟨header, hheader⟩
  | ipv6 v =>
    obtain ⟨tail, -, -, rfl⟩ := finalize_ipv6_eq_ok.mp h
    apply shape_congr
    · intro bytes hbytes
      obtain ⟨_, _, -, hframe⟩ := Ipv6.toBytes_frame hbytes
      have hbytes' := hframe (BitVec.ofNat 16 tail.length)
      refine ⟨_, hbytes', ?_⟩
      rw [Ipv6.length_toBytes hbytes, Ipv6.length_toBytes hbytes']
    · -- The length field has no part in whether the header can be written.
      intro _ hbytes'
      obtain ⟨_, _, -, hframe⟩ := Ipv6.toBytes_frame hbytes'
      exact ⟨_, hframe v.length⟩

/-- The second time no layer changes its size. -/
theorem Layer.step_shape_again {before' : Option Layer} {next' : List Layer} {z : Layer}
    (h : x.step before next = some y) (h' : y.step before' next' = some z) : z.shape = y.shape := by
  by_cases htcp : ∃ t, x = .tcp t
  · obtain ⟨t, rfl⟩ := htcp
    rw [step_eq_some] at h h'
    obtain ⟨_, _, -, -, -, rfl⟩ := finalize_tcp_eq_ok.mp h
    obtain ⟨header, checksum, hheader, -, -, -, -, rfl⟩ := Tcp.finalize_twice h h'
    obtain ⟨header', hheader', hlen, -⟩ := Tcp.toBytes_checksum hheader checksum
    exact shape_congr (fun bytes hbytes => ⟨header', hheader', by
      rw [hlen, Except.ok.inj (hheader.symm.trans hbytes)]⟩) fun _ _ => ⟨header, hheader⟩
  · refine step_shape (fun t ht => htcp ?_) h'
    have htype : y.typeId = x.typeId := (step_kind h).2
    rw [ht] at htype
    cases x with
    | tcp t => exact ⟨t, rfl⟩
    | ether | ipv4 | ipv6 | udp | icmp4 | raw => cases htype

/-- What a layer that is no transport layer stores depends on the sizes behind it only. -/
theorem Layer.step_shallow {next' : List Layer} (hx : x.isTransport = false)
    (h : x.step before next = some y) (hnext : next.map Layer.shape = next'.map Layer.shape) :
    y.step before next' = some y := by
  rw [step_eq_some] at h ⊢
  cases x with
  | tcp t => cases hx
  | udp u => cases hx
  | ether e =>
    obtain rfl := finalize_ether_eq_ok.mp h
    exact finalize_ether_eq_ok.mpr rfl
  | raw r =>
    obtain rfl := finalize_raw_eq_ok.mp h
    exact finalize_raw_eq_ok.mpr rfl
  | icmp4 i =>
    obtain rfl := finalize_icmp4_eq_ok.mp h
    exact finalize_icmp4_eq_ok.mpr rfl
  | ipv4 v =>
    obtain ⟨header, tail, hheader, htail, hlt, cleared, hcleared, rfl⟩ :=
      finalize_ipv4_eq_ok.mp h
    obtain ⟨tail', htail', hlen⟩ := layersToBytes_of_shapes hnext htail
    obtain ⟨_, _, _, -, -, -, hframe⟩ := Ipv4.toBytes_frame hheader
    have hbytes := hframe (BitVec.ofNat 16 (header.length + tail.length)) (checksum cleared)
    have hsize := Ipv4.length_toBytes_update hheader hbytes
    refine finalize_ipv4_eq_ok.mpr ⟨_, tail', hbytes, htail', ?_, cleared, ?_, ?_⟩ <;>
      rw [hsize, hlen]
    · exact hlt
    · exact hcleared
  | ipv6 v =>
    obtain ⟨tail, htail, hlt, rfl⟩ := finalize_ipv6_eq_ok.mp h
    obtain ⟨tail', htail', hlen⟩ := layersToBytes_of_shapes hnext htail
    refine finalize_ipv6_eq_ok.mpr ⟨tail', htail', ?_, ?_⟩ <;> rw [hlen]
    exact hlt

/-- What the second call changes in a transport layer is its checksum, if the sizes behind it are what
    they were; and the third call does not read that behind an IP layer, nor was it set elsewhere. -/
theorem Layer.step_again {next' next'' : List Layer} {z : Layer} (hx : x.isTransport = true)
    (h : x.step before next = some y) (h' : y.step before next' = some z)
    (hnext : next.map Layer.shape = next'.map Layer.shape) :
    z.step before next'' = y.step before next'' := by
  rw [step_eq_some] at h h'
  cases x with
  | ether | ipv4 | ipv6 | icmp4 | raw => cases hx
  | udp u =>
    obtain ⟨tail, htail, hlt, rfl⟩ := finalize_udp_eq_ok.mp h
    obtain ⟨tail', htail', -, rfl⟩ := finalize_udp_eq_ok.mp h'
    obtain ⟨_, hsame, hlen⟩ := layersToBytes_of_shapes hnext htail
    obtain rfl := Except.ok.inj (htail'.symm.trans hsame)
    rw [lastIp_toList, hlen]
    cases hip : before.bind getIp with
    | none => rfl
    | some ip => exact Udp.step_checksum (by rw [hip]; rfl) _ _
  | tcp t =>
    obtain ⟨_, _, -, -, -, rfl⟩ := finalize_tcp_eq_ok.mp h
    obtain ⟨header, checksum, -, -, -, -, hchecksum, rfl⟩ := Tcp.finalize_twice h h'
    cases hip : before.bind getIp with
    | some ip => exact Tcp.step_checksum (by rw [hip]; rfl) _ _
    | none =>
      obtain rfl := Tcp.newChecksum_toList (by rw [hip]; rfl) hchecksum
      rfl

/-- When a transport layer has been finalised twice, it will be in front of layers of the same sizes. -/
theorem Layer.step_isSome {next' next'' : List Layer} {z : Layer} (hx : x.isTransport = true)
    (h : x.step before next = some y) (h' : y.step before next' = some z)
    (hnext : next'.map Layer.shape = next''.map Layer.shape) : (z.step before next'').isSome := by
  rw [step_eq_some] at h h'
  cases x with
  | ether | ipv4 | ipv6 | icmp4 | raw => cases hx
  | udp u =>
    obtain ⟨tail, -, -, rfl⟩ := finalize_udp_eq_ok.mp h
    obtain ⟨tail', htail', hlt, rfl⟩ := finalize_udp_eq_ok.mp h'
    obtain ⟨tail'', htail'', hlen⟩ := layersToBytes_of_shapes hnext htail'
    exact Option.isSome_iff_exists.mpr ⟨_, step_eq_some.mpr
      (finalize_udp_eq_ok.mpr ⟨tail'', htail'', by rw [hlen]; exact hlt, rfl⟩)⟩
  | tcp t =>
    obtain ⟨_, _, -, -, -, rfl⟩ := finalize_tcp_eq_ok.mp h
    obtain ⟨header, checksum, hheader, -, hlt, -, hchecksum, rfl⟩ := Tcp.finalize_twice h h'
    obtain ⟨header', hheader', -, hcleared⟩ := Tcp.toBytes_checksum hheader checksum
    rw [← hcleared] at hchecksum hlt
    obtain ⟨checksum', hchecksum'⟩ := Tcp.exists_newChecksum hchecksum hnext _
    exact Option.isSome_iff_exists.mpr ⟨_, step_eq_some.mpr
      (finalize_tcp_eq_ok.mpr ⟨header', checksum', hheader', hchecksum', hlt, rfl⟩)⟩

/-! ### What is not overwritten -/

omit [Deku] in
/-- Layers with one draft are of one type, and differ in what `finalize` overwrites only. -/
theorem Layer.draft_tcp {t : Tcp} {x' : Layer}
    (h : (Layer.tcp t).draft before = x'.draft before) :
    ∃ offset checksum, x' = .tcp { t with offset, checksum } ∧
      ((before.bind getIp).isSome = false → checksum = t.checksum) := by
  cases x' with
  | ether | ipv4 | ipv6 | udp | icmp4 | raw => cases h
  | tcp t' =>
    obtain ⟨sport, dport, seq, ack, offset, flags, window, checksum, urgptr, options⟩ := t'
    simp only [draft, Layer.tcp.injEq, Tcp.mk.injEq] at h
    obtain ⟨rfl, rfl, rfl, rfl, -, rfl, rfl, hchecksum, rfl, rfl⟩ := h
    refine ⟨offset, checksum, rfl, fun hip => ?_⟩
    rw [hip] at hchecksum
    exact hchecksum.symm

omit [Deku] in
theorem Layer.draft_udp {u : Udp} {x' : Layer}
    (h : (Layer.udp u).draft before = x'.draft before) :
    ∃ length checksum, x' = .udp { u with length, checksum } ∧
      ((before.bind getIp).isSome = false → checksum = u.checksum) := by
  cases x' with
  | ether | ipv4 | ipv6 | tcp | icmp4 | raw => cases h
  | udp u' =>
    obtain ⟨sport, dport, length, checksum⟩ := u'
    simp only [draft, Layer.udp.injEq, Udp.mk.injEq] at h
    obtain ⟨rfl, rfl, -, hchecksum⟩ := h
    refine ⟨length, checksum, rfl, fun hip => ?_⟩
    rw [hip] at hchecksum
    exact hchecksum.symm

omit [Deku] in
theorem Layer.draft_ipv4 {v : Ipv4} {x' : Layer}
    (h : (Layer.ipv4 v).draft before = x'.draft before) :
    ∃ length checksum, x' = .ipv4 { v with length, checksum } := by
  cases x' with
  | ether | ipv6 | tcp | udp | icmp4 | raw => cases h
  | ipv4 v' =>
    obtain ⟨_, _, _, _, length, _, _, _, _, _, checksum, _, _, _⟩ := v'
    simp only [draft, Layer.ipv4.injEq, Ipv4.mk.injEq] at h
    obtain ⟨rfl, rfl, rfl, rfl, -, rfl, rfl, rfl, rfl, rfl, -, rfl, rfl, rfl⟩ := h
    exact ⟨length, checksum, rfl⟩

omit [Deku] in
theorem Layer.draft_ipv6 {v : Ipv6} {x' : Layer}
    (h : (Layer.ipv6 v).draft before = x'.draft before) : ∃ length, x' = .ipv6 { v with length } := by
  cases x' with
  | ether | ipv4 | tcp | udp | icmp4 | raw => cases h
  | ipv6 v' =>
    obtain ⟨_, _, _, _, length, _, _, _, _⟩ := v'
    simp only [draft, Layer.ipv6.injEq, Ipv6.mk.injEq] at h
    obtain ⟨rfl, rfl, rfl, rfl, -, rfl, rfl, rfl, rfl⟩ := h
    exact ⟨length, rfl⟩

omit [Deku] in
theorem Layer.draft_icmp4 {i : Icmp4} {x' : Layer}
    (h : (Layer.icmp4 i).draft before = x'.draft before) :
    ∃ checksum, x' = .icmp4 { i with checksum } := by
  cases x' with
  | ether | ipv4 | ipv6 | tcp | udp | raw => cases h
  | icmp4 i' =>
    obtain ⟨_, _, checksum, _, _⟩ := i'
    simp only [draft, Layer.icmp4.injEq, Icmp4.mk.injEq] at h
    obtain ⟨rfl, rfl, -, rfl, rfl⟩ := h
    exact ⟨checksum, rfl⟩

/-- Of a layer that is not padded, `finalize` overwrites what a draft leaves out. -/
theorem Layer.step_draft (htcp : ∀ t, x ≠ .tcp t) (h : x.step before next = some y) :
    y.draft before = x.draft before := by
  rw [step_eq_some] at h
  cases x with
  | tcp t => exact absurd rfl (htcp t)
  | ether e => rw [finalize_ether_eq_ok.mp h]
  | raw r => rw [finalize_raw_eq_ok.mp h]
  | icmp4 i =>
    rw [finalize_icmp4_eq_ok.mp h]
    rfl
  | ipv4 v =>
    obtain ⟨_, _, -, -, -, _, -, rfl⟩ := finalize_ipv4_eq_ok.mp h
    rfl
  | ipv6 v =>
    obtain ⟨_, -, -, rfl⟩ := finalize_ipv6_eq_ok.mp h
    rfl
  | udp u =>
    obtain ⟨_, -, -, rfl⟩ := finalize_udp_eq_ok.mp h
    rw [draft, draft, lastIp_toList]
    cases hip : before.bind getIp with
    | none => rfl
    | some ip => rfl

/-- What is not overwritten does not depend on what is. -/
theorem Layer.step_draft_eq {next' : List Layer} {x' y' : Layer}
    (hx : x.draft before = x'.draft before) (h : x.step before next = some y)
    (h' : x'.step before next' = some y') : y.draft before = y'.draft before := by
  by_cases htcp : ∃ t, x = .tcp t
  · obtain ⟨t, rfl⟩ := htcp
    obtain ⟨offset, checksum, rfl, hchecksum⟩ := draft_tcp hx
    rw [step_eq_some] at h h'
    obtain ⟨header, c, hheader, hc, -, rfl⟩ := finalize_tcp_eq_ok.mp h
    obtain ⟨header', c', hheader', hc', -, rfl⟩ := finalize_tcp_eq_ok.mp h'
    rw [draft, draft, Tcp.length_toBytes_update hheader hheader']
    cases hip : (before.bind getIp).isSome with
    | true => rfl
    | false =>
      rw [Tcp.newChecksum_toList hip hc, Tcp.newChecksum_toList hip hc', hchecksum hip]
  · have htcp' : ∀ t, x' ≠ .tcp t := by
      rintro t rfl
      obtain ⟨_, _, rfl, -⟩ := draft_tcp hx.symm
      exact htcp ⟨_, rfl⟩
    rw [step_draft (fun t ht => htcp ⟨t, ht⟩) h, hx, step_draft htcp' h']

omit [Deku] in
/-- Layers with one draft have one context. -/
theorem Layer.context_draft {x' : Layer} (h : x.draft before = x'.draft before) :
    x.context = x'.context := by
  have hcontext : ∀ layer : Layer, (layer.draft before).context = layer.context := by
    intro layer
    cases layer <;> rfl
  rw [← hcontext x, h, hcontext x']

/-- Of a Tcp layer that is left as it is, the offset follows from the size and the checksum from the
    bytes. -/
theorem Tcp.draft_fixed {t : Tcp} {x' : Layer} (hx : (Layer.tcp t).draft before = x'.draft before)
    (h : LayerExt.finalize before.toList next (.tcp t) = .ok () (.tcp t))
    (h' : LayerExt.finalize before.toList next x' = .ok () x') : Layer.tcp t = x' := by
  obtain ⟨offset, checksum, rfl, hchecksum⟩ := Layer.draft_tcp hx
  obtain ⟨header, c, hheader, hc, -, heq⟩ := Layer.finalize_tcp_eq_ok.mp h
  obtain ⟨header', c', hheader', hc', -, heq'⟩ := Layer.finalize_tcp_eq_ok.mp h'
  have hlen : header'.length = header.length := length_toBytes_update hheader hheader'
  -- The offsets first: then the two differ in their checksums only, and these are not covered.
  have hoffset : offset = t.offset := by
    have ht := congrArg Tcp.offset (Layer.tcp.inj heq)
    have ht' := congrArg Tcp.offset (Layer.tcp.inj heq')
    show ({ t with offset, checksum } : Tcp).offset = t.offset
    rw [ht, ht']
    simp only [length_cleared, hlen]
  subst hoffset
  obtain ⟨header'', hheader'', -, hcleared⟩ := toBytes_checksum hheader checksum
  obtain rfl := Except.ok.inj (hheader''.symm.trans hheader')
  have hsum : c = t.checksum := (congrArg Tcp.checksum (Layer.tcp.inj heq)).symm
  have hsum' : c' = checksum := (congrArg Tcp.checksum (Layer.tcp.inj heq')).symm
  rw [hcleared] at hc'
  cases hip : (before.bind getIp).isSome with
  | false =>
    obtain rfl := hchecksum hip
    rfl
  | true =>
    obtain rfl : checksum = t.checksum := by
      rw [← hsum, ← hsum']
      exact (newChecksum_ip hip hc').unique hc
    rfl

/-- A layer that is left as it is, is determined by its draft and by what is around it. -/
theorem Layer.draft_fixed {x' : Layer} (hx : x.draft before = x'.draft before)
    (h : x.step before next = some x) (h' : x'.step before next = some x') : x = x' := by
  rw [step_eq_some] at h h'
  cases x with
  | tcp t => exact Tcp.draft_fixed hx h h'
  | ether e =>
    cases x' with
    | ether e' => exact hx
    | ipv4 | ipv6 | tcp | udp | icmp4 | raw => cases hx
  | raw r =>
    cases x' with
    | raw r' => exact hx
    | ether | ipv4 | ipv6 | tcp | udp | icmp4 => cases hx
  | icmp4 i =>
    obtain ⟨sum, rfl⟩ := draft_icmp4 hx
    have hi : i.checksum = checksum i.cleared :=
      congrArg Icmp4.checksum (Layer.icmp4.inj (finalize_icmp4_eq_ok.mp h))
    have hi' : sum = checksum i.cleared :=
      congrArg Icmp4.checksum (Layer.icmp4.inj (finalize_icmp4_eq_ok.mp h'))
    rw [hi', ← hi]
  | ipv6 v =>
    obtain ⟨length, rfl⟩ := draft_ipv6 hx
    obtain ⟨tail, htail, -, heq⟩ := finalize_ipv6_eq_ok.mp h
    obtain ⟨tail', htail', -, heq'⟩ := finalize_ipv6_eq_ok.mp h'
    obtain rfl := Except.ok.inj (htail.symm.trans htail')
    have hv : v.length = BitVec.ofNat 16 tail.length :=
      congrArg Ipv6.length (Layer.ipv6.inj heq)
    have hv' : length = BitVec.ofNat 16 tail.length :=
      congrArg Ipv6.length (Layer.ipv6.inj heq')
    rw [hv', ← hv]
  | ipv4 v =>
    obtain ⟨length, sum, rfl⟩ := draft_ipv4 hx
    obtain ⟨header, tail, hheader, htail, -, cleared, hcleared, heq⟩ := finalize_ipv4_eq_ok.mp h
    obtain ⟨header', tail', hheader', htail', -, cleared', hcleared', heq'⟩ :=
      finalize_ipv4_eq_ok.mp h'
    obtain rfl := Except.ok.inj (htail.symm.trans htail')
    -- The sizes agree, since the two differ in length and checksum only; and so do the bytes.
    rw [Ipv4.length_toBytes_update hheader hheader'] at hcleared' heq'
    obtain rfl := Except.ok.inj (hcleared.symm.trans hcleared')
    have hlength : v.length = length := by
      have hv := congrArg Ipv4.length (Layer.ipv4.inj heq)
      exact hv.trans (congrArg Ipv4.length (Layer.ipv4.inj heq')).symm
    have hsum : v.checksum = sum := by
      have hv := congrArg Ipv4.checksum (Layer.ipv4.inj heq)
      exact hv.trans (congrArg Ipv4.checksum (Layer.ipv4.inj heq')).symm
    rw [← hlength, ← hsum]
  | udp u =>
    obtain ⟨length, sum, rfl, hchecksum⟩ := draft_udp hx
    obtain ⟨tail, htail, -, heq⟩ := finalize_udp_eq_ok.mp h
    obtain ⟨tail', htail', -, heq'⟩ := finalize_udp_eq_ok.mp h'
    obtain rfl := Except.ok.inj (htail.symm.trans htail')
    have hlength : length = u.length := by
      have hu := congrArg Udp.length (Layer.udp.inj heq')
      exact hu.trans (congrArg Udp.length (Layer.udp.inj heq)).symm
    subst hlength
    have hu := congrArg Udp.checksum (Layer.udp.inj heq)
    have hu' : sum = _ := congrArg Udp.checksum (Layer.udp.inj heq')
    rw [lastIp_toList] at hu hu'
    cases hip : before.bind getIp with
    | none =>
      obtain rfl := hchecksum (by rw [hip]; rfl)
      rfl
    | some ip =>
      rw [hip] at hu hu'
      obtain rfl : sum = u.checksum := hu'.trans hu.symm
      rfl

/-- **`finalize` is a pass over the layers.** -/
def Layer.pass : Pass Layer (Option Nat) Layer Layer where
  step := Layer.step
  context := Layer.context
  shape := Layer.shape
  deep := Layer.isTransport
  core := Layer.draft
  context_step h := (step_kind h).1
  deep_step h := by rw [isTransport, isTransport, (step_kind h).2]
  shape_again := step_shape_again
  shape_shallow hx h := by
    refine step_shape ?_ h
    rintro t rfl
    cases hx
  shallow_again := step_shallow
  deep_again hx h h' hnext := step_again hx h h' hnext
  isSome_again := step_isSome
  context_core := context_draft
  core_step := step_draft_eq
  core_fixed := draft_fixed

/-! ## Calling it again and again -/

theorem Layer.step_behind {prev next : List Layer} {layer layer' : Layer} :
    layer.step (prev.getLast?.map Layer.context) next = some layer' ↔
      LayerExt.finalize prev next layer = .ok () layer' := by
  rw [step_eq_some, finalize_context]

/-- The layer before has been finalised by then, which changes nothing in its context. -/
theorem Layer.context_behind {prev next : List Layer} {layer layer' : Layer}
    (h : LayerExt.finalize prev next layer = .ok () layer') :
    (prev ++ [layer']).getLast?.map Layer.context = some layer.context := by
  rw [List.getLast?_concat, Option.map_some, (step_kind (step_behind.mpr h)).1]

/-- Finalising is one run of the pass. -/
theorem Finalized.runs_iff {prev rest rest' : List Layer} :
    Finalized prev rest rest' ↔ Layer.pass.Runs (prev.getLast?.map Layer.context) rest rest' := by
  constructor
  · intro h
    induction h with
    | nil => exact .nil
    | cons hlayer _ ih =>
      rw [Layer.context_behind hlayer] at ih
      exact .cons (Layer.step_behind.mpr hlayer) ih
  · intro h
    induction rest generalizing prev rest' with
    | nil =>
      obtain rfl := Pass.runs_nil_iff.mp h
      exact .nil
    | cons layer next ih =>
      obtain ⟨layer', next', rfl, hstep, hnext⟩ := Pass.runs_cons_iff.mp h
      have hlayer := Layer.step_behind.mp hstep
      refine .cons hlayer (ih ?_)
      rw [Layer.context_behind hlayer]
      exact hnext

/-- **`finalize` is a run of the pass.** -/
theorem Packet.finalize_runs_iff {packet packet' : Packet Layer} :
    packet.finalize = .ok () packet' ↔ Layer.pass.Runs none packet.layers packet'.layers :=
  finalize_eq_ok.trans Finalized.runs_iff

/-- What of a packet `finalize` does not overwrite. -/
def Packet.drafts (packet : Packet Layer) : List Layer :=
  Layer.pass.cores none packet.layers

/-- A packet that can be finalised twice can be finalised again and again. -/
theorem Packet.exists_finalizeTimes {packet packet' packet'' : Packet Layer}
    (h : packet.finalize = .ok () packet') (h' : packet'.finalize = .ok () packet'') (n : Nat) :
    ∃ now then', packet.finalizeTimes n = .ok () now ∧ now.finalize = .ok () then' ∧
      ∃ later, then'.finalize = .ok () later := by
  induction n with
  | zero => exact ⟨packet, packet', finalizeTimes_zero.mpr rfl, h, packet'', h'⟩
  | succ n ih =>
    obtain ⟨now, then', hnow, hthen, later, hlater⟩ := ih
    obtain ⟨layers, hlast⟩ :=
      (finalize_runs_iff.mp hthen).forever (finalize_runs_iff.mp hlater)
    exact ⟨then', later, finalizeTimes_succ.mpr ⟨now, hnow, hthen⟩, hlater, ⟨layers⟩,
      finalize_runs_iff.mpr hlast⟩

/-- So many calls leave of two packets with the same drafts packets with the same drafts. -/
theorem Packet.drafts_finalizeTimes {n : Nat} {p q p' q' : Packet Layer} (h : p.drafts = q.drafts)
    (hp : p.finalizeTimes n = .ok () p') (hq : q.finalizeTimes n = .ok () q') :
    p'.drafts = q'.drafts := by
  induction n generalizing p' q' with
  | zero =>
    obtain rfl := finalizeTimes_zero.mp hp
    obtain rfl := finalizeTimes_zero.mp hq
    exact h
  | succ n ih =>
    obtain ⟨before, hbefore, hp'⟩ := finalizeTimes_succ.mp hp
    obtain ⟨before', hbefore', hq'⟩ := finalizeTimes_succ.mp hq
    exact (finalize_runs_iff.mp hp').cores_eq (finalize_runs_iff.mp hq') (ih hbefore hbefore')

/-- The series of calls, and where it ends. -/
theorem Packet.exists_settled {packet packet' packet'' : Packet Layer}
    (h : packet.finalize = .ok () packet') (h' : packet'.finalize = .ok () packet'') :
    ∃ settled, settled.finalize = .ok () settled ∧
      ∀ n, packet.layers.countP Layer.isTransport < n → packet.finalizeTimes n = .ok () settled := by
  -- The series of all passes.
  choose now then' hnow hthen _ using Packet.exists_finalizeTimes h h'
  have hseries : ∀ i, now (i + 1) = then' i := by
    intro i
    have hnext := Packet.finalizeTimes_succ.mpr ⟨now i, hnow i, hthen i⟩
    rw [hnow (i + 1)] at hnext
    exact (EStateM.Result.ok.inj hnext).2
  have hruns : ∀ i, Layer.pass.Runs none (now i).layers (now (i + 1)).layers := by
    intro i
    rw [hseries i]
    exact Packet.finalize_runs_iff.mp (hthen i)
  have hzero : now 0 = packet := Packet.finalizeTimes_zero.mp (hnow 0)
  have hrest : ∀ {i}, packet.layers.countP Layer.isTransport < i → now (i + 1) = now i := by
    intro i hi
    have hlayers : (now (i + 1)).layers = (now i).layers :=
      Pass.Runs.settles (h := fun i => (now i).layers) hruns (by rw [hzero]; exact hi)
    exact congrArg Packet.mk hlayers
  -- It is at rest after the first call that there are not enough layers for.
  let first := packet.layers.countP Layer.isTransport + 1
  have hfixed : (now first).finalize = .ok () (now first) := by
    have hlast := hthen first
    rw [← hseries, hrest (Nat.lt_succ_self _)] at hlast
    exact hlast
  refine ⟨now first, hfixed, fun n hn => ?_⟩
  obtain ⟨k, rfl⟩ := Nat.exists_eq_add_of_lt hn
  rw [show packet.layers.countP Layer.isTransport + k + 1 = first + k by omega]
  exact Packet.finalizeTimes_settled hfixed (hnow first) k

/-- **Finalising settles.**  If `finalize` succeeds twice it always will, and once it has been called
    more often than the packet has Tcp and Udp layers, the packet is at rest. -/
theorem settle_of_twice {packet packet' packet'' : Packet Layer}
    (h : packet.finalize = .ok () packet') (h' : packet'.finalize = .ok () packet'') :
    ∃ settled, settled.finalize = .ok () settled ∧
      ∀ n, packet.layers.countP Layer.isTransport < n → packet.finalizeTimes n = .ok () settled :=
  Packet.exists_settled h h'

/-- **What a packet settles at does not depend on its dependent fields.** -/
theorem settled_eq {p q p' q' : Packet Layer} (h : p.drafts = q.drafts) (hp : p.SettlesAt p')
    (hq : q.SettlesAt q') : p' = q' := by
  obtain ⟨⟨n, hp⟩, hpfixed⟩ := hp
  obtain ⟨⟨m, hq⟩, hqfixed⟩ := hq
  have hp' := Packet.finalizeTimes_settled hpfixed hp m
  have hq' := Packet.finalizeTimes_settled hqfixed hq n
  rw [Nat.add_comm m n] at hq'
  have hdrafts := Packet.drafts_finalizeTimes h hp' hq'
  exact congrArg Packet.mk ((Packet.finalize_runs_iff.mp hpfixed).fixed_unique
    (Packet.finalize_runs_iff.mp hqfixed) hdrafts)

end

/-- A packet whose Tcp options are still to be padded. -/
def looseTcp : Packet Layer where
  layers :=
    [.ipv4 { (default : Ipv4) with protocol := .TCP },
     .tcp { (default : Tcp) with sport := 80, options := [TcpOption.NOP] }, .raw ⟨[0x70], 0⟩]

/-- What it settles at. -/
def tightTcp : Packet Layer where
  layers :=
    [.ipv4 { (default : Ipv4) with protocol := .TCP, length := 45, checksum := 0xbcc9 },
     .tcp { (default : Tcp) with
       sport := 80, offset := 6, checksum := 0x308d,
       options := [TcpOption.NOP, TcpOption.EOL, TcpOption.EOL, TcpOption.EOL] },
     .raw ⟨[0x70], 0⟩]

theorem settle_of_twice_looseTcp :
    letI := Deku.truncating
    ∃ settled : Packet Layer, settled.finalize = .ok () settled ∧
      ∀ n, 1 < n → looseTcp.finalizeTimes n = .ok () settled := by
  let := Deku.truncating
  -- The first call counts the options unpadded and covers the old offset.
  let once : Packet Layer := ⟨[
    .ipv4 { (default : Ipv4) with protocol := .TCP, length := 42, checksum := 0xbccc },
    .tcp { (default : Tcp) with
      sport := 80, offset := 6, checksum := 0x408d,
      options := [TcpOption.NOP, TcpOption.EOL, TcpOption.EOL, TcpOption.EOL] },
    .raw ⟨[0x70], 0⟩]⟩
  have hfirst : looseTcp.finalize = .ok () once := by decide +kernel
  have hsecond : once.finalize = .ok () tightTcp := by decide +kernel
  have htwice := settle_of_twice hfirst hsecond
  rwa [show looseTcp.layers.countP Layer.isTransport = 1 by decide] at htwice

/-- A tunnel, by all of the fields that `finalize` overwrites in it, and its Tcp options. -/
def tunnel (length4 checksum4 lengthUdp checksumUdp length6 : BitVec 16) (offset : BitVec 8)
    (checksumTcp checksumIcmp : BitVec 16) (options : List TcpOption) : Packet Layer where
  layers :=
    [.ipv4 { (default : Ipv4) with protocol := .UDP, length := length4, checksum := checksum4 },
     .udp { (default : Udp) with dport := 53, length := lengthUdp, checksum := checksumUdp },
     .ipv6 { (default : Ipv6) with nextHeader := .TCP, length := length6 },
     .tcp { (default : Tcp) with offset, checksum := checksumTcp, options },
     .icmp4 { (default : Icmp4) with checksum := checksumIcmp }]

/-- A tunnel that was just built. -/
def freshTunnel : Packet Layer := tunnel 0 0 0 0 0 5 0 0 [.NOP]

/-- A tunnel that differs from it in all of these fields. -/
def staleTunnel : Packet Layer := tunnel 7 1 9 2 4 9 3 8 [.NOP]

/-- What the two settle at, which takes three calls. -/
def settledTunnel : Packet Layer :=
  tunnel 100 0xbc87 80 0xfb1c 32 6 0xa0d7 0xffff [.NOP, .EOL, .EOL, .EOL]

theorem settled_eq_tunnel :
    letI := Deku.truncating
    freshTunnel.SettlesAt settledTunnel ∧ staleTunnel.SettlesAt settledTunnel := by
  let := Deku.truncating
  have hfresh : freshTunnel.SettlesAt settledTunnel := ⟨⟨3, by decide +kernel⟩, by decide +kernel⟩
  -- The other one settles at something, and that has to be the same.
  let once := tunnel 97 0xbc8a 77 0x6457 29 6 0x70cf 0xffff [.NOP, .EOL, .EOL, .EOL]
  let twice := tunnel 100 0xbc87 80 0x2b2b 32 6 0xa0d7 0xffff [.NOP, .EOL, .EOL, .EOL]
  have hfirst : staleTunnel.finalize = .ok () once := by decide +kernel
  have hsecond : once.finalize = .ok () twice := by decide +kernel
  obtain ⟨settled, hfixed, hreached⟩ := Packet.exists_settled hfirst hsecond
  have hstale : staleTunnel.SettlesAt settled := ⟨⟨_, hreached _ (Nat.lt_succ_self _)⟩, hfixed⟩
  obtain rfl := settled_eq (by decide) hfresh hstale
  exact ⟨hfresh, hstale⟩

end Nata
