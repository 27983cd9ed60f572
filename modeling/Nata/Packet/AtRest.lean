/-
  The packets that `finalize` leaves alone are the packets that are right.

  Up to the size for which the crate's checksum is the Internet checksum, a packet is at rest exactly
  when all its layers are settled and the offset of every Tcp layer is the size of its header
  (`finalize_self_iff`).  For a packet that was parsed the second part is for free; a packet that was
  built may have any offset.

  With what is known about repeated calls: a packet that can be finalised at all gets right, by
  calling `finalize` once more often than it has Tcp and Udp layers (`settled_of_finalizeTimes`).

  The layers behind a layer that is no transport layer are finalised as if they were a packet of their
  own, so that a tunnel does not matter to what is sent through it (`finalize_inner`).
-/
import Nata.Packet.Rounds

namespace Nata

section

variable [Deku]

/-- The offset of a Tcp layer is the size of its header. -/
def Layer.Measured (layer : Layer) : Prop :=
  ∀ t header, layer = .tcp t → t.toBytes = .ok header → header.length = 4 * t.offset.toNat

omit [Deku] in
/-- A number that its field holds comes out of it again. -/
theorem ofNat_eq_iff {n w : Nat} {x : BitVec w} (h : n < 2 ^ w) :
    x = BitVec.ofNat w n ↔ x.toNat = n := by
  rw [BitVec.toNat_eq, BitVec.toNat_ofNat, Nat.mod_eq_of_lt h]

/-! ## One layer -/

/-- An Ipv4 layer is left alone exactly when its length and its checksum are right. -/
theorem Ipv4.self_iff {prev next : List Layer} {v : Ipv4} :
    LayerExt.finalize prev next (.ipv4 v) = .ok () (.ipv4 v) ↔ (Layer.ipv4 v).Settled prev next := by
  rw [Layer.finalize_ipv4_eq_ok]
  constructor
  · rintro ⟨header, tail, hheader, htail, hlt, cleared, hcleared, heq⟩
    have hlength : v.length = BitVec.ofNat 16 (header.length + tail.length) :=
      congrArg Ipv4.length (Layer.ipv4.inj heq)
    have hsum : v.checksum = Nata.checksum cleared := congrArg Ipv4.checksum (Layer.ipv4.inj heq)
    have hsize : cleared.length = header.length := length_toBytes_update hheader hcleared
    rw [← hlength] at hcleared
    refine ⟨header, tail, cleared, hheader, htail, hcleared, (ofNat_eq_iff hlt).mp hlength, ?_⟩
    rw [hsum, checksum_eq_internetChecksum (wordSum_lt_of_length (by omega))]
  · rintro ⟨header, tail, zeroed, hheader, htail, hzeroed, hlength, hsum⟩
    have hlt := v.length.isLt
    have hlen : v.length = BitVec.ofNat 16 (header.length + tail.length) :=
      (ofNat_eq_iff (by omega)).mpr hlength
    have hsize : zeroed.length = header.length :=
      @length_toBytes_update _ v header zeroed v.length 0 hheader hzeroed
    refine ⟨header, tail, hheader, htail, by omega, zeroed, ?_, ?_⟩
    · rw [← hlen]
      exact hzeroed
    · rw [← hlen, checksum_eq_internetChecksum (wordSum_lt_of_length (by omega)), ← hsum]

/-- An Ipv6 layer, when its length is. -/
theorem Ipv6.self_iff {prev next : List Layer} {v : Ipv6} :
    LayerExt.finalize prev next (.ipv6 v) = .ok () (.ipv6 v) ↔ (Layer.ipv6 v).Settled prev next := by
  rw [Layer.finalize_ipv6_eq_ok]
  constructor
  · rintro ⟨tail, htail, hlt, heq⟩
    have hlength : v.length = BitVec.ofNat 16 tail.length :=
      congrArg Ipv6.length (Layer.ipv6.inj heq)
    exact ⟨tail, htail, (ofNat_eq_iff hlt).mp hlength⟩
  · rintro ⟨tail, htail, hlength⟩
    have hlt := v.length.isLt
    have hlen : v.length = BitVec.ofNat 16 tail.length := (ofNat_eq_iff (by omega)).mpr hlength
    exact ⟨tail, htail, by omega, by rw [← hlen]⟩

/-- A Udp layer, when its length is and, behind an IP layer, its checksum. -/
theorem Udp.self_iff {prev next : List Layer} {u : Udp} :
    LayerExt.finalize prev next (.udp u) = .ok () (.udp u) ↔ (Layer.udp u).Settled prev next := by
  have h8 := u.length_cleared
  have hzeroed : { u with checksum := 0 }.toBytes = .ok u.cleared := toBytes_eq _
  rw [Layer.finalize_udp_eq_ok]
  constructor
  · rintro ⟨tail, htail, hlt, heq⟩
    have hlength : u.length = BitVec.ofNat 16 (8 + tail.length) :=
      congrArg Udp.length (Layer.udp.inj heq)
    have hsum := congrArg Udp.checksum (Layer.udp.inj heq)
    refine ⟨tail, u.cleared, htail, hzeroed, ?_, fun ip hip => ?_⟩
    · rw [h8]
      exact (ofNat_eq_iff hlt).mp hlength
    · rw [hip] at hsum
      rw [h8, ← checksum_datagram (by omega)]
      exact hsum
  · rintro ⟨tail, zeroed, htail, hzeroed', hlength, hsum⟩
    obtain rfl := Except.ok.inj (hzeroed'.symm.trans hzeroed)
    have hlt := u.length.isLt
    rw [h8] at hlength hsum
    have hlen : u.length = BitVec.ofNat 16 (8 + tail.length) :=
      (ofNat_eq_iff (by omega)).mpr hlength
    refine ⟨tail, htail, by omega, ?_⟩
    rw [← hlen]
    cases hip : lastIp prev with
    | none => rfl
    | some ip =>
      have hnew : u.newChecksum ip tail = u.checksum := by
        rw [hsum ip hip]
        exact checksum_datagram (by omega)
      simp only [hnew]

/-- An Icmp4 layer, when its checksum is. -/
theorem Icmp4.self_iff {prev next : List Layer} {i : Icmp4}
    (hlt : i.cleared.length ≤ 131074) :
    LayerExt.finalize prev next (.icmp4 i) = .ok () (.icmp4 i) ↔
      (Layer.icmp4 i).Settled prev next := by
  have hzeroed : { i with checksum := 0 }.toBytes = .ok i.cleared := by
    rw [toBytes_eq, List.append_assoc]
    rfl
  have hsame := checksum_eq_internetChecksum (wordSum_lt_of_length hlt)
  rw [Layer.finalize_icmp4_eq_ok, hsame]
  constructor
  · intro heq
    have hsum : i.checksum = internetChecksum i.cleared :=
      congrArg Icmp4.checksum (Layer.icmp4.inj heq)
    exact ⟨i.cleared, hzeroed, hsum⟩
  · rintro ⟨zeroed, hzeroed', hsum⟩
    obtain rfl := Except.ok.inj (hzeroed'.symm.trans hzeroed)
    rw [← hsum]

/-- Of a Tcp layer that is left alone nothing is padded. -/
theorem Tcp.settled_of_self {prev next : List Layer} {t : Tcp} {header tail : Bytes}
    (hheader : t.toBytes = .ok header) (htail : layersToBytes next = .ok tail)
    (hlt : header.length + tail.length ≤ 131034)
    (h : LayerExt.finalize prev next (.tcp t) = .ok () (.tcp t)) :
    (Layer.tcp t).Settled prev next ∧ header.length = 4 * t.offset.toNat := by
  obtain ⟨header', checksum, hheader', hchecksum, hlt', heq⟩ := Layer.finalize_tcp_eq_ok.mp h
  obtain rfl := Except.ok.inj (hheader'.symm.trans hheader)
  have hsum : t.checksum = checksum := congrArg Tcp.checksum (Layer.tcp.inj heq)
  have hoffset : t.offset = BitVec.ofNat 8 ((cleared header').length / 4) :=
    congrArg Tcp.offset (Layer.tcp.inj heq)
  have hpad : padAmt header'.length = 0 := by
    have hoptions := congrArg (fun t : Tcp => t.options.length) (Layer.tcp.inj heq)
    simp only [List.length_append, List.length_replicate] at hoptions
    omega
  have hpadded := length_cleared header'
  have hfour := four_dvd_length_cleared header'
  have hoffset' := (ofNat_eq_iff hlt').mp hoffset
  have hzeroed := toBytes_cleared hheader'
  rw [hpad, List.replicate_zero, List.append_nil] at hzeroed
  refine ⟨⟨tail, cleared header', htail, hzeroed, fun ip hip => ?_⟩, by omega⟩
  rw [newChecksum_iff htail (by omega), hip] at hchecksum
  obtain ⟨-, hchecksum⟩ := hchecksum
  have hpseudo := (ip.length_pseudoHeader ip.protocol.id
    ((cleared header').length + tail.length)).2
  rw [hsum, hchecksum]
  apply checksum_eq_internetChecksum
  apply wordSum_lt_of_length
  simp only [List.length_append]
  omega

/-- A settled Tcp layer with the right offset is left alone, if an IP layer before it can describe
    it. -/
theorem Tcp.self_of_settled {prev next : List Layer} {t : Tcp} {header tail : Bytes}
    (hheader : t.toBytes = .ok header) (htail : layersToBytes next = .ok tail)
    (hlt : header.length + tail.length < 2 ^ 64)
    (hip : (lastIp prev).isSome → header.length + tail.length < 2 ^ 16)
    (h : (Layer.tcp t).Settled prev next) (hoffset : header.length = 4 * t.offset.toNat) :
    LayerExt.finalize prev next (.tcp t) = .ok () (.tcp t) := by
  obtain ⟨tail', zeroed, htail', hzeroed', hsum⟩ := h
  obtain rfl := Except.ok.inj (htail'.symm.trans htail)
  have hpad : padAmt header.length = 0 := by
    rw [padAmt]
    omega
  have hpadded := length_cleared header
  have hzeroed := toBytes_cleared hheader
  rw [hpad, List.replicate_zero, List.append_nil] at hzeroed
  obtain rfl := Except.ok.inj (hzeroed'.symm.trans hzeroed)
  have hlt' := t.offset.isLt
  have hlen : t.offset = BitVec.ofNat 8 ((cleared header).length / 4) :=
    (ofNat_eq_iff (by omega)).mpr (by omega)
  refine Layer.finalize_tcp_eq_ok.mpr ⟨header, t.checksum, hheader, ?_, by omega, ?_⟩
  · rw [newChecksum_iff htail (by omega)]
    cases hlast : lastIp prev with
    | none => rfl
    | some ip =>
      rw [hlast] at hip
      have hfits := hip rfl
      refine ⟨IpHeader.fits_of_lt (by omega), ?_⟩
      rw [hsum ip hlast, checksum_datagram (by omega)]
  · rw [← hlen, hpad, List.replicate_zero, List.append_nil]

/-! ## All layers -/

/-- What is behind a settled IP layer is smaller than a datagram. -/
theorem Layer.length_lt_of_ip {prev next : List Layer} {layer : Layer} {ip : IpHeader}
    {tail : Bytes} (hip : getIp layer = some ip) (h : layer.Settled prev next)
    (htail : layersToBytes next = .ok tail) : tail.length < 2 ^ 16 := by
  cases layer with
  | ether | tcp | udp | icmp4 | raw => cases hip
  | ipv4 v =>
    obtain ⟨header, tail', _, -, htail', -, hlength, -⟩ := h
    obtain rfl := Except.ok.inj (htail'.symm.trans htail)
    have := v.length.isLt
    omega
  | ipv6 v =>
    obtain ⟨tail', htail', hlength⟩ := h
    obtain rfl := Except.ok.inj (htail'.symm.trans htail)
    have := v.length.isLt
    omega

/-- The layer before a transport layer is in the packet, too. -/
theorem Packet.length_lt_of_lastIp {packet : Packet Layer} {prev rest : List Layer}
    (hsettled : packet.Settled) (hl : packet.layers = prev ++ rest)
    {tail : Bytes} (htail : layersToBytes rest = .ok tail) (hip : (lastIp prev).isSome) :
    tail.length < 2 ^ 16 := by
  rcases List.eq_nil_or_concat prev with rfl | ⟨before, last, rfl⟩
  · cases hip
  · rw [List.concat_eq_append] at hl hip
    rw [lastIp_concat] at hip
    obtain ⟨ip, hget⟩ := Option.isSome_iff_exists.mp hip
    rw [List.append_assoc] at hl
    exact Layer.length_lt_of_ip hget (hsettled before last rest hl) htail

/-- The layers of a packet that serialises, one by one. -/
theorem Packet.toBytes_split {packet : Packet Layer} {bytes : Bytes}
    (hbytes : packet.toBytes = .ok bytes) {prev next : List Layer} {layer : Layer}
    (hl : packet.layers = prev ++ layer :: next) :
    ∃ data tail, layer.toBytes = .ok data ∧ layersToBytes next = .ok tail ∧
      layersToBytes (layer :: next) = .ok (data ++ tail) ∧
      data.length + tail.length ≤ bytes.length := by
  have hall := Packet.toBytes_eq_ok.mp hbytes
  rw [hl] at hall
  obtain ⟨before, rest, -, hrest, rfl⟩ := layersToBytes_append_eq_ok.mp hall
  obtain ⟨data, tail, hdata, htail, rfl⟩ := layersToBytes_cons_eq_ok.mp hrest
  refine ⟨data, tail, hdata, htail, hrest, ?_⟩
  rw [List.length_append, List.length_append]
  omega

/-- A packet that is left alone is settled, and its offsets are right. -/
theorem Packet.settled_of_self {packet : Packet Layer} {bytes : Bytes}
    (hbytes : packet.toBytes = .ok bytes) (hlt : bytes.length ≤ 131034)
    (h : packet.finalize = .ok () packet) :
    packet.Settled ∧ ∀ layer ∈ packet.layers, layer.Measured := by
  have hself := Finalized.self_iff.mp (finalize_eq_ok.mp h)
  constructor
  · intro prev layer next hl
    have hlayer := hself prev layer next hl
    rw [List.nil_append] at hlayer
    obtain ⟨data, tail, hdata, htail, -, hle⟩ := toBytes_split hbytes hl
    cases layer with
    | ether e => trivial
    | raw r => trivial
    | ipv4 v => exact Ipv4.self_iff.mp hlayer
    | ipv6 v => exact Ipv6.self_iff.mp hlayer
    | udp u => exact Udp.self_iff.mp hlayer
    | icmp4 i =>
      have hlen := Icmp4.length_toBytes hdata
      exact (Icmp4.self_iff (by omega)).mp hlayer
    | tcp t => exact (Tcp.settled_of_self hdata htail (by omega) hlayer).1
  · rintro _ hmem t header rfl hheader
    obtain ⟨prev, next, hl⟩ := List.append_of_mem hmem
    have hlayer := hself prev (.tcp t) next hl
    rw [List.nil_append] at hlayer
    obtain ⟨data, tail, hdata, htail, -, hle⟩ := toBytes_split hbytes hl
    obtain rfl := Except.ok.inj (hdata.symm.trans hheader)
    exact (Tcp.settled_of_self hdata htail (by omega) hlayer).2

/-- A packet that is right and measured is left alone. -/
theorem Packet.self_of_settled {packet : Packet Layer} {bytes : Bytes}
    (hbytes : packet.toBytes = .ok bytes) (hlt : bytes.length ≤ 131034) (h : packet.Settled)
    (hmeasured : ∀ layer ∈ packet.layers, layer.Measured) : packet.finalize = .ok () packet := by
  rw [finalize_eq_ok, Finalized.self_iff]
  intro prev layer next hl
  rw [List.nil_append]
  have hsettled := h prev layer next hl
  obtain ⟨data, tail, hdata, htail, hrest, hle⟩ := toBytes_split hbytes hl
  cases layer with
  | ether e => exact Layer.finalize_ether_eq_ok.mpr rfl
  | raw r => exact Layer.finalize_raw_eq_ok.mpr rfl
  | ipv4 v => exact Ipv4.self_iff.mpr hsettled
  | ipv6 v => exact Ipv6.self_iff.mpr hsettled
  | udp u => exact Udp.self_iff.mpr hsettled
  | icmp4 i =>
    have hlen := Icmp4.length_toBytes hdata
    exact (Icmp4.self_iff (by omega)).mpr hsettled
  | tcp t =>
    have hoffset := hmeasured (.tcp t) (hl ▸ List.mem_append_right prev List.mem_cons_self) t data
      rfl hdata
    refine Tcp.self_of_settled hdata htail (by omega) (fun hip => ?_) hsettled hoffset
    have hdatagram := length_lt_of_lastIp h hl hrest hip
    rwa [List.length_append] at hdatagram

/-- **The packets that are left alone are those that are right.** -/
theorem finalize_self_iff {packet : Packet Layer} {bytes : Bytes}
    (hbytes : packet.toBytes = .ok bytes) (hlt : bytes.length ≤ 131034) :
    packet.finalize = .ok () packet ↔
      packet.Settled ∧ ∀ layer ∈ packet.layers, layer.Measured :=
  ⟨Packet.settled_of_self hbytes hlt, fun ⟨h, hmeasured⟩ =>
    Packet.self_of_settled hbytes hlt h hmeasured⟩

/-! ## After enough calls -/

/-- The calls before the last one have succeeded. -/
theorem Packet.finalizeTimes_le {m n : Nat} {packet packet' : Packet Layer} (hle : m ≤ n)
    (h : packet.finalizeTimes n = .ok () packet') :
    ∃ before, packet.finalizeTimes m = .ok () before := by
  induction n generalizing packet' with
  | zero =>
    obtain rfl := Nat.le_zero.mp hle
    exact ⟨packet', h⟩
  | succ n ih =>
    rcases Nat.le_succ_iff.mp hle with hle' | rfl
    · obtain ⟨before, hbefore, -⟩ := finalizeTimes_succ.mp h
      exact ih hle' hbefore
    · exact ⟨packet', h⟩

/-- Once `finalize` has been called more often than there are Tcp and Udp layers, the packet is at
    rest. -/
theorem Packet.self_of_finalizeTimes {n : Nat} {packet packet' : Packet Layer}
    (hn : packet.layers.countP Layer.isTransport < n)
    (h : packet.finalizeTimes n = .ok () packet') : packet'.finalize = .ok () packet' := by
  by_cases hone : n = 1
  · subst hone
    obtain ⟨_, hzero, hfirst⟩ := finalizeTimes_succ.mp h
    obtain rfl := finalizeTimes_zero.mp hzero
    exact finalize_runs_iff.mpr
      ((finalize_runs_iff.mp hfirst).fixed_shallow (Nat.lt_one_iff.mp hn))
  · -- There was a second call.
    obtain ⟨second, hsecond⟩ := finalizeTimes_le (show 2 ≤ n by omega) h
    obtain ⟨first, hfirst, htwo⟩ := finalizeTimes_succ.mp hsecond
    obtain ⟨_, hzero, hone⟩ := finalizeTimes_succ.mp hfirst
    obtain rfl := finalizeTimes_zero.mp hzero
    obtain ⟨settled, hfixed, hall⟩ := Packet.exists_settled hone htwo
    have hsame := h.symm.trans (hall n hn)
    obtain rfl : packet' = settled := (EStateM.Result.ok.inj hsame).2
    exact hfixed

/-- **Finalising gets a packet right**, when it is called once more often than the packet has Tcp and
    Udp layers. -/
theorem settled_of_finalizeTimes {n : Nat} {packet packet' : Packet Layer} {bytes : Bytes}
    (hn : packet.layers.countP Layer.isTransport < n)
    (h : packet.finalizeTimes n = .ok () packet') (hbytes : packet'.toBytes = .ok bytes)
    (hlt : bytes.length ≤ 131034) :
    packet'.Settled ∧ ∀ layer ∈ packet'.layers, layer.Measured :=
  Packet.settled_of_self hbytes hlt (Packet.self_of_finalizeTimes hn h)

/-! ## Tunnels -/

/-- The layers whose first is no transport layer do not see what is before them. -/
theorem Finalized.inner {prev prev' rest rest' : List Layer}
    (hhead : ∀ layer ∈ rest.head?, layer.isTransport = false) (h : Finalized prev rest rest') :
    Finalized prev' rest rest' := by
  cases h with
  | nil => exact .nil
  | @cons _ layer next layer' next' hlayer hnext =>
    have hlayer' : LayerExt.finalize prev' next layer = .ok () layer' := by
      rw [← hlayer]
      have hshallow := hhead layer rfl
      cases layer with
      | tcp t => cases hshallow
      | udp u => cases hshallow
      | ether | ipv4 | ipv6 | icmp4 | raw => rfl
    refine .cons hlayer' (Finalized.runs_iff.mpr ?_)
    rw [Layer.context_behind hlayer', ← Layer.context_behind hlayer]
    exact Finalized.runs_iff.mp hnext

/-- The first layer stays of its type. -/
theorem Finalized.head_shallow {prev rest rest' : List Layer}
    (hhead : ∀ layer ∈ rest.head?, layer.isTransport = false) (h : Finalized prev rest rest') :
    ∀ layer ∈ rest'.head?, layer.isTransport = false := by
  cases h with
  | nil => exact hhead
  | @cons _ layer next layer' next' hlayer hnext =>
    rintro _ ⟨⟩
    rw [Layer.isTransport, (Layer.step_kind (Layer.step_behind.mpr hlayer)).2]
    exact hhead layer rfl

/-- **What is tunnelled is finalised as if it was alone**, by however many calls. -/
theorem finalize_inner {n : Nat} {outer inner : List Layer} {packet' : Packet Layer}
    (hhead : ∀ layer ∈ inner.head?, layer.isTransport = false)
    (h : (Packet.mk (outer ++ inner)).finalizeTimes n = .ok () packet') :
    ∃ outer' inner', packet'.layers = outer' ++ inner' ∧ outer'.length = outer.length ∧
      (Packet.mk inner).finalizeTimes n = .ok () ⟨inner'⟩ := by
  suffices hall : ∃ outer' inner', packet'.layers = outer' ++ inner' ∧
      outer'.length = outer.length ∧ (Packet.mk inner).finalizeTimes n = .ok () ⟨inner'⟩ ∧
      ∀ layer ∈ inner'.head?, layer.isTransport = false by
    obtain ⟨outer', inner', hl, hlen, hinner, -⟩ := hall
    exact ⟨outer', inner', hl, hlen, hinner⟩
  induction n generalizing packet' with
  | zero =>
    obtain rfl := Packet.finalizeTimes_zero.mp h
    exact ⟨outer, inner, rfl, rfl, Packet.finalizeTimes_zero.mpr rfl, hhead⟩
  | succ n ih =>
    obtain ⟨before, hbefore, hlast⟩ := Packet.finalizeTimes_succ.mp h
    obtain ⟨outer', inner', hl, hlen, hinner, hhead'⟩ := ih hbefore
    have hfin := Packet.finalize_eq_ok.mp hlast
    rw [hl] at hfin
    obtain ⟨outer'', inner'', hl', hlen', hinner'⟩ := hfin.of_append
    rw [List.nil_append] at hinner'
    refine ⟨outer'', inner'', hl', hlen'.trans hlen, ?_, hinner'.head_shallow hhead'⟩
    exact Packet.finalizeTimes_succ.mpr
      ⟨⟨inner'⟩, hinner, Packet.finalize_eq_ok.mpr (hinner'.inner hhead')⟩

end

/-- `tightTcp` on the wire. -/
def tightTcpBytes : Bytes :=
  [0x45, 0, 0, 45, 0, 0, 0, 0, 0, 6, 0xbc, 0xc9, 127, 0, 0, 1, 127, 0, 0, 1,
   0, 80, 0, 0, 0, 0, 0, 0, 0, 0, 0, 0, 0x60, 0, 0, 0, 0x30, 0x8d, 0, 0, 1, 0, 0, 0, 0x70]

theorem finalize_self_iff_tightTcp :
    letI := Deku.truncating
    tightTcp.toBytes = .ok tightTcpBytes ∧ tightTcp.Settled ∧
      ∀ layer ∈ tightTcp.layers, layer.Measured := by
  let := Deku.truncating
  have hbytes : tightTcp.toBytes = .ok tightTcpBytes := by decide +kernel
  have hself : tightTcp.finalize = .ok () tightTcp := by decide +kernel
  exact ⟨hbytes, (finalize_self_iff hbytes (by decide)).mp hself⟩

theorem settled_of_finalizeTimes_looseTcp :
    letI := Deku.truncating
    looseTcp.finalizeTimes 2 = .ok () tightTcp ∧ tightTcp.Settled ∧
      ∀ layer ∈ tightTcp.layers, layer.Measured := by
  let := Deku.truncating
  have htwice : looseTcp.finalizeTimes 2 = .ok () tightTcp := by decide +kernel
  have hbytes : tightTcp.toBytes = .ok tightTcpBytes := by decide +kernel
  exact ⟨htwice, settled_of_finalizeTimes (by decide) htwice hbytes (by decide)⟩

/-- `tightTcp` behind the headers of a tunnel. -/
def tunnelledTcp : Packet Layer where
  layers :=
    [.ether default,
     .ipv4 { (default : Ipv4) with protocol := .IPIP, length := 65, checksum := 0xbc5d }] ++
      tightTcp.layers

theorem finalize_inner_tunnelledTcp :
    letI := Deku.truncating
    ∃ outer' inner', tunnelledTcp.layers = outer' ++ inner' ∧ outer'.length = 2 ∧
      looseTcp.finalizeTimes 2 = .ok () ⟨inner'⟩ := by
  let := Deku.truncating
  have htwice : (Packet.mk ([.ether default, .ipv4 { (default : Ipv4) with protocol := .IPIP }] ++
      looseTcp.layers)).finalizeTimes 2 = .ok () tunnelledTcp := by decide +kernel
  refine finalize_inner ?_ htwice
  rintro _ ⟨⟩
  rfl

end Nata
