/-
  The example `spoof_http_server`: an HTTP server made of captured and injected packets.

  The server has no state.  It reads packets; a segment for its address and port is answered, if it
  opens a connection, by a SYN-ACK, and if it is a GET request by the whole response:

      client                                server
        SYN, seq = x             -->
                                 <--        SYN+ACK, seq = S, ack = x + 1
        ACK, seq = x + 1, GET .. -->
                                 <--        ACK+PUSH+FIN, seq = ack, ack = x + 1 + length

  * `build_reply` panics if the reply is too large for a datagram, and else it makes a segment that is
    right in every length and checksum, and is parsed back (`buildReply_ok_iff`).  The replies of the
    server are never too large.
  * The payload is what the sender sent: bytes behind the datagram, which the parser takes for the
    payload, are cut off again by `tcp_payload` (`tcpPayload_padded`).
-/
import Nata.Packet.Downcast
import Nata.Packet.Segment

namespace Nata

instance : LayerOf LayerType Layer Raw where
  id := .Raw
  box := .raw
  getLayer
    | .raw r => some r
    | _ => none
  typeId_box _ := rfl
  getLayer_box _ := rfl
  isSome_getLayer layer h := by cases layer <;> first | rfl | cases h

/-- `packet.layers().iter().find_map(|layer| get_layer!(layer, T))` -/
def Packet.findLayer (packet : Packet Layer) (T : Type) [LayerOf LayerType Layer T] : Option T :=
  packet.layers.findSome? LayerOf.getLayer

namespace SpoofHttpServer

/-- A byte string literal. -/
def ascii (s : String) : Bytes := s.toList.map fun c => .ofNat 8 c.toNat

/-- The number of every SYN-ACK. -/
def SERVER_INITIAL_SEQUENCE : BitVec 32 := 0x48415443

/-- What every request is answered with. -/
def HTTP_RESPONSE : Bytes :=
  ascii "HTTP/1.1 200 OK\r\n" ++
  ascii "Content-Type: text/plain\r\n" ++
  ascii "Content-Length: 17\r\n" ++
  ascii "Connection: close\r\n" ++
  ascii "\r\n" ++
  ascii "Hello from Nata!\n"

/-- What a reply has of its own; the rest is copied from the request. -/
structure Reply where
  sequence : BitVec 32
  acknowledgment : BitVec 32
  flags : TcpFlags
  payload : Bytes

/-- The payload of a segment, without what is behind the datagram. -/
def tcpPayload (ipv4 : Ipv4) (tcp : Tcp) (raw : Option Raw) : Bytes :=
  let ipHeaderLength := ipv4.ihl.toNat * 4
  let tcpHeaderLength := tcp.offset.toNat * 4
  let payloadLength := ipv4.length.toNat - ipHeaderLength - tcpHeaderLength
  let captured := match raw with
    | some raw => raw.data
    | none => []
  captured.take (min payloadLength captured.length)

/-- The number behind the last one of a segment. -/
def nextClientSequence (tcp : Tcp) (payloadLength : Nat) : BitVec 32 :=
  tcp.seq + (if payloadLength < 2 ^ 32 then BitVec.ofNat 32 payloadLength else BitVec.allOnes 32) +
    tcp.flags.syn.setWidth 32 + tcp.flags.fin.setWidth 32

/-- The frame of a reply: the addresses and ports of the request, turned around. -/
def buildReply [Deku] (requestEther : Ether) (serverMac : MacAddress) (requestIpv4 : Ipv4)
    (requestTcp : Tcp) (reply : Reply) : Except Panic (Packet Layer) :=
  let layers : List Layer :=
    [.ether { dst := requestEther.src, src := serverMac, etherType := .IPv4 },
     .ipv4 { (default : Ipv4) with
       src := requestIpv4.dst, dst := requestIpv4.src, ttl := 64, protocol := .TCP,
       identification := requestIpv4.identification + 1, flags := 0b010 },
     .tcp { (default : Tcp) with
       sport := requestTcp.dport, dport := requestTcp.sport, seq := reply.sequence,
       ack := reply.acknowledgment, flags := reply.flags, window := 64240 }]
  let layers :=
    if reply.payload.isEmpty then layers
    else layers ++ [.raw { (default : Raw) with data := reply.payload }]
  match (Packet.mk layers).finalize with
  | .ok () reply => .ok reply
  | .error _ _ => .error ⟨"failed to finalize reply packet"⟩

/-- The arguments of `main`, and the address of the interface. -/
structure Server where
  mac : MacAddress
  ip : BitVec 32
  port : BitVec 16

/-- The reply to a packet, with the message of the `expect` behind its `write`: the body of the loop
    of `main`, up to the calls of `write`. -/
def Server.reply [Deku] (self : Server) (packet : Packet Layer) :
    Except Panic (Option (Packet Layer × String)) := do
  let raw := packet.findLayer Raw
  match packet.findLayer Ether, packet.findLayer Ipv4, packet.findLayer Tcp with
  | some ether, some ipv4, some tcp =>
    if ipv4.dst ≠ self.ip ∨ tcp.dport ≠ self.port then
      return none
    else
      let payload := tcpPayload ipv4 tcp raw
      if tcp.flags.syn = 1 ∧ tcp.flags.ack = 0 then
        let synAck ← buildReply ether self.mac ipv4 tcp
          { sequence := SERVER_INITIAL_SEQUENCE
            acknowledgment := nextClientSequence tcp payload.length
            flags := { (default : TcpFlags) with syn := 1, ack := 1 }
            payload := [] }
        return some (synAck, "failed to inject SYN-ACK")
      else if tcp.flags.ack = 1 ∧ (ascii "GET ").isPrefixOf payload then
        let response ← buildReply ether self.mac ipv4 tcp
          { sequence := tcp.ack
            acknowledgment := nextClientSequence tcp payload.length
            flags := { (default : TcpFlags) with ack := 1, push := 1, fin := 1 }
            payload := HTTP_RESPONSE }
        return some (response, "failed to inject HTTP response")
      else
        return none
  | _, _, _ => return none

/-- The address of a client. -/
def clientMac : MacAddress := ⟨.replicate 6 0x0a⟩

/-- A server. -/
def exampleServer : Server where
  mac := ⟨.replicate 6 0x0b⟩
  ip := 0xc6336402
  port := 8080

/-! ## Building a reply -/

section

variable [Deku]

/-- The segment of a reply, before it is finalised. -/
def Reply.segment (self : Reply) (hflags : self.flags.WellFormed) (requestEther : Ether)
    (serverMac : MacAddress) (requestIpv4 : Ipv4) (requestTcp : Tcp) : Segment where
  ether := { dst := requestEther.src, src := serverMac, etherType := .IPv4 }
  ipv4 := { (default : Ipv4) with
    src := requestIpv4.dst, dst := requestIpv4.src, ttl := 64, protocol := .TCP,
    identification := requestIpv4.identification + 1, flags := 0b010 }
  tcp := { (default : Tcp) with
    sport := requestTcp.dport, dport := requestTcp.sport, seq := self.sequence,
    ack := self.acknowledgment, flags := self.flags, window := 64240 }
  payload := self.payload
  etherType := rfl
  protocol := rfl
  validIpv4 := by
    have hprotocol : IpProtocol.WellFormed .TCP := by
      intro code hcode
      cases hcode
    have hversion : (4 : BitVec 8).toNat < 2 ^ 4 := by decide
    have hihl : (5 : BitVec 8).toNat < 2 ^ 4 := by decide
    have hdscp : (0 : BitVec 8).toNat < 2 ^ 6 := by decide
    have hecn : (0 : BitVec 8).toNat < 2 ^ 2 := by decide
    have hfragment : (0b010 : BitVec 8).toNat < 2 ^ 3 := by decide
    have hoffset : (0 : BitVec 16).toNat < 2 ^ 13 := by decide
    exact ⟨hversion, hihl, hdscp, hecn, trivial, trivial, hfragment, hoffset, trivial,
      hprotocol.valid, trivial, trivial, trivial, fun _ h => absurd h List.not_mem_nil,
      0, [], rfl, rfl, rfl⟩
  validTcp := by
    have hoffset : (5 : BitVec 8).toNat < 2 ^ 4 := by decide
    exact ⟨trivial, trivial, trivial, trivial, hoffset, hflags.valid, trivial, trivial, trivial,
      fun _ h => absurd h List.not_mem_nil, 0, [], rfl, rfl, rfl⟩

/-- `build_reply` finalises the segment of the reply. -/
theorem buildReply_eq (reply : Reply) (hflags : reply.flags.WellFormed) (requestEther : Ether)
    (serverMac : MacAddress) (requestIpv4 : Ipv4) (requestTcp : Tcp) :
    buildReply requestEther serverMac requestIpv4 requestTcp reply =
      match (reply.segment hflags requestEther serverMac requestIpv4 requestTcp).packet.finalize with
      | .ok () reply => .ok reply
      | .error _ _ => .error ⟨"failed to finalize reply packet"⟩ := by
  unfold buildReply Segment.packet payloadLayers
  cases hpayload : reply.payload with
  | nil =>
    have hnil : (reply.segment hflags requestEther serverMac requestIpv4 requestTcp).payload = [] :=
      hpayload
    rw [hnil]
    rfl
  | cons b payload =>
    have hcons : (reply.segment hflags requestEther serverMac requestIpv4 requestTcp).payload =
        b :: payload := hpayload
    rw [hcons]
    rfl

/-- The reply that `build_reply` returns is the segment, as it is sent. -/
theorem sent_of_buildReply {reply : Reply} {requestEther : Ether} {serverMac : MacAddress}
    {requestIpv4 : Ipv4} {requestTcp : Tcp} {packet : Packet Layer} (hflags : reply.flags.WellFormed)
    (h : buildReply requestEther serverMac requestIpv4 requestTcp reply = .ok packet) :
    ∃ sent, packet = sent.packet ∧
      (reply.segment hflags requestEther serverMac requestIpv4 requestTcp).Sent sent := by
  rw [buildReply_eq reply hflags] at h
  cases hfin : (reply.segment hflags requestEther serverMac requestIpv4 requestTcp).packet.finalize with
  | error e packet' =>
    rw [hfin] at h
    cases h
  | ok u packet' =>
    rw [hfin] at h
    obtain rfl := Except.ok.inj h
    exact Segment.sent_of_finalize hfin (Segment.size_lt_of_finalize hfin)

/-- A reply that is small enough is built. -/
theorem buildReply_ok {reply : Reply} (hflags : reply.flags.WellFormed)
    (hlt : 40 + reply.payload.length < 2 ^ 16) (requestEther : Ether) (serverMac : MacAddress)
    (requestIpv4 : Ipv4) (requestTcp : Tcp) :
    ∃ packet, buildReply requestEther serverMac requestIpv4 requestTcp reply = .ok packet := by
  have hsize : (reply.segment hflags requestEther serverMac requestIpv4 requestTcp).size < 2 ^ 16 :=
    hlt
  obtain ⟨length, sum, sum', hfin, -⟩ := Segment.finalize hsize
  rw [buildReply_eq reply hflags, hfin]
  exact ⟨_, rfl⟩

/-- **When `build_reply` returns, and what**: if the reply is small enough for a datagram it is sent,
    right in every field and parsed back from its bytes, and else `build_reply` panics. -/
theorem buildReply_ok_iff {reply : Reply} (hflags : reply.flags.WellFormed) (requestEther : Ether)
    (serverMac : MacAddress) (requestIpv4 : Ipv4) (requestTcp : Tcp) :
    ((∃ packet, buildReply requestEther serverMac requestIpv4 requestTcp reply = .ok packet) ↔
      40 + reply.payload.length < 2 ^ 16) ∧
    ∀ packet, buildReply requestEther serverMac requestIpv4 requestTcp reply = .ok packet →
      ∃ sent, packet = sent.packet ∧
        (reply.segment hflags requestEther serverMac requestIpv4 requestTcp).Sent sent := by
  constructor
  · constructor
    · rintro ⟨packet, h⟩
      rw [buildReply_eq reply hflags] at h
      cases hfin :
          (reply.segment hflags requestEther serverMac requestIpv4 requestTcp).packet.finalize with
      | error e packet' =>
        rw [hfin] at h
        cases h
      | ok u packet' => exact Segment.size_lt_of_finalize hfin
    · intro hlt
      exact buildReply_ok hflags hlt requestEther serverMac requestIpv4 requestTcp
  · intro packet h
    exact sent_of_buildReply hflags h

omit [Deku] in
theorem buildReply_ok_iff_response :
    letI := Deku.truncating
    ∃ packet, buildReply ⟨clientMac, clientMac, .IPv4⟩ exampleServer.mac default default
      { sequence := 0, acknowledgment := 0, flags := default, payload := HTTP_RESPONSE } =
        .ok packet := by
  let := Deku.truncating
  have hflags : (default : TcpFlags).WellFormed := by constructor <;> decide
  refine (buildReply_ok_iff hflags _ _ _ _).1.mpr ?_
  decide +kernel

/-! ## A connection -/

/-- One end of a connection. -/
structure Client where
  ip : BitVec 32
  port : BitVec 16

/-- A segment from a client to the server: the reply to what the server has sent before. -/
def Client.segment (self : Client) (reply : Reply) (hflags : reply.flags.WellFormed) : Segment :=
  reply.segment hflags { dst := clientMac, src := exampleServer.mac, etherType := .IPv4 } clientMac
    { (default : Ipv4) with src := exampleServer.ip, dst := self.ip, protocol := .TCP }
    { (default : Tcp) with sport := exampleServer.port, dport := self.port }

/-- What is sent of it. -/
theorem Client.exists_sent (self : Client) {reply : Reply} (hflags : reply.flags.WellFormed)
    (hlt : 40 + reply.payload.length < 2 ^ 16) : ∃ sent, (self.segment reply hflags).Sent sent := by
  have hsize : (self.segment reply hflags).size < 2 ^ 16 := hlt
  obtain ⟨_, _, _, hfin, -⟩ := Segment.finalize hsize
  obtain ⟨sent, -, hsent⟩ := Segment.sent_of_finalize hfin hsize
  exact ⟨sent, hsent⟩

/-- A client. -/
def exampleClient : Client := ⟨0xc0000201, 50000⟩

/-- A client at the same address, with another port. -/
def otherClient : Client := ⟨0xc0000201, 50001⟩

/-- The segment that opens a connection. -/
def synReply : Reply where
  sequence := 100
  acknowledgment := 0
  flags := { (default : TcpFlags) with syn := 1 }
  payload := []

omit [Deku] in
theorem wellFormed_synReply : synReply.flags.WellFormed := by constructor <;> decide

/-- A request on the connection. -/
def getReply : Reply where
  sequence := 101
  acknowledgment := SERVER_INITIAL_SEQUENCE + 1
  flags := { (default : TcpFlags) with ack := 1 }
  payload := ascii "GET / HTTP/1.1\r\n\r\n"

/-! ## The payload of a request -/

omit [Deku] in
/-- A layer of another type is passed over. -/
theorem findLayer_cons {layer : Layer} {layers : List Layer} {T : Type} [LayerOf LayerType Layer T]
    (h : LayerOf.getLayer (T := T) layer = none) :
    (Packet.mk (layer :: layers)).findLayer T = (Packet.mk layers).findLayer T := by
  unfold Packet.findLayer
  exact List.findSome?_cons_of_isNone (by rw [h]; rfl)

/-- The Raw layer of a segment is its payload. -/
theorem findLayer_raw (s : Segment) :
    s.packet.findLayer Raw = if s.payload.isEmpty then none else some ⟨s.payload, 0⟩ := by
  have hhead : s.packet.findLayer Raw = (Packet.mk (payloadLayers s.payload)).findLayer Raw := by
    rw [Segment.packet, findLayer_cons rfl, findLayer_cons rfl, findLayer_cons rfl]
  rw [hhead, payloadLayers]
  split <;> rfl

/-- The bytes of a segment, of those that have come, that its length says were sent. -/
def received (s : Segment) : Bytes :=
  s.payload.take (s.ipv4.length.toNat - s.ipv4.ihl.toNat * 4 - s.tcp.offset.toNat * 4)

/-- The payload is what the lengths of the headers say was sent. -/
theorem tcpPayload_segment (s : Segment) :
    tcpPayload s.ipv4 s.tcp (s.packet.findLayer Raw) = received s := by
  unfold tcpPayload received
  rw [findLayer_raw]
  by_cases h : s.payload = []
  · rw [h]
    simp
  · rw [if_neg (by rwa [List.isEmpty_iff])]
    exact List.take_eq_take_min.symm

omit [Deku] in
theorem ipv4_of_findLayer {packet : Packet Layer} {v : Ipv4} (h : packet.findLayer Ipv4 = some v) :
    .ipv4 v ∈ packet.layers := by
  obtain ⟨layer, hmem, hget⟩ := List.exists_of_findSome?_eq_some h
  cases layer with
  | ipv4 v' =>
    obtain rfl := Option.some.inj hget
    exact hmem
  | ether | ipv6 | tcp | udp | icmp4 | raw => cases hget

omit [Deku] in
theorem tcp_of_findLayer {packet : Packet Layer} {t : Tcp} (h : packet.findLayer Tcp = some t) :
    .tcp t ∈ packet.layers := by
  obtain ⟨layer, hmem, hget⟩ := List.exists_of_findSome?_eq_some h
  cases layer with
  | tcp t' =>
    obtain rfl := Option.some.inj hget
    exact hmem
  | ether | ipv4 | ipv6 | udp | icmp4 | raw => cases hget

/-- **What was sent is what is received**, whatever comes behind it. -/
theorem received_padded {s : Segment} (h : s.packet.Settled) (hihl : 5 ≤ s.ipv4.ihl.toNat)
    (padding : Bytes) : received (s.padded padding) = s.payload := by
  have hlength := Segment.length_of_settled h
  have hsize : s.ipv4.length.toNat - s.ipv4.ihl.toNat * 4 - s.tcp.offset.toNat * 4 =
      s.payload.length := by
    rw [hlength, Segment.size]
    omega
  have hreceived : received (s.padded padding) = (s.payload ++ padding).take s.payload.length :=
    congrArg (List.take · (s.payload ++ padding)) hsize
  rw [hreceived, List.take_left]

/-! ## Replies -/

namespace Server

/-- What the server answers to a segment. -/
def answer (self : Server) (s : Segment) : Option (Reply × String) :=
  if s.ipv4.dst ≠ self.ip ∨ s.tcp.dport ≠ self.port then
    none
  else if s.tcp.flags.syn = 1 ∧ s.tcp.flags.ack = 0 then
    some
      ({ sequence := SERVER_INITIAL_SEQUENCE
         acknowledgment := nextClientSequence s.tcp (received s).length
         flags := { (default : TcpFlags) with syn := 1, ack := 1 }
         payload := [] }, "failed to inject SYN-ACK")
  else if s.tcp.flags.ack = 1 ∧ (ascii "GET ").isPrefixOf (received s) then
    some
      ({ sequence := s.tcp.ack
         acknowledgment := nextClientSequence s.tcp (received s).length
         flags := { (default : TcpFlags) with ack := 1, push := 1, fin := 1 }
         payload := HTTP_RESPONSE }, "failed to inject HTTP response")
  else
    none

/-- The two answers that there are. -/
theorem answer_cases {self : Server} {s : Segment} {reply : Reply} {message : String}
    (h : self.answer s = some (reply, message)) :
    s.ipv4.dst = self.ip ∧ s.tcp.dport = self.port ∧
      reply.acknowledgment = nextClientSequence s.tcp (received s).length ∧
      ((s.tcp.flags.syn = 1 ∧ s.tcp.flags.ack = 0 ∧ reply.sequence = SERVER_INITIAL_SEQUENCE ∧
          reply.flags = { (default : TcpFlags) with syn := 1, ack := 1 } ∧ reply.payload = []) ∨
        (s.tcp.flags.ack = 1 ∧ (ascii "GET ").isPrefixOf (received s) ∧ reply.sequence = s.tcp.ack ∧
          reply.flags = { (default : TcpFlags) with ack := 1, push := 1, fin := 1 } ∧
          reply.payload = HTTP_RESPONSE)) := by
  unfold answer at h
  split_ifs at h with hto hsyn hget
  · obtain ⟨rfl, -⟩ := Prod.ext_iff.mp (Option.some.inj h)
    obtain ⟨hip, hport⟩ := not_or.mp hto
    exact ⟨not_not.mp hip, not_not.mp hport, rfl, .inl ⟨hsyn.1, hsyn.2, rfl, rfl, rfl⟩⟩
  · obtain ⟨rfl, -⟩ := Prod.ext_iff.mp (Option.some.inj h)
    obtain ⟨hip, hport⟩ := not_or.mp hto
    exact ⟨not_not.mp hip, not_not.mp hport, rfl, .inr ⟨hget.1, hget.2, rfl, rfl, rfl⟩⟩

/-- An answer can be sent. -/
theorem answer_sendable {self : Server} {s : Segment} {reply : Reply} {message : String}
    (h : self.answer s = some (reply, message)) :
    reply.flags.WellFormed ∧ 40 + reply.payload.length < 2 ^ 16 := by
  obtain ⟨-, -, -, ⟨-, -, -, hflags, hpayload⟩ | ⟨-, -, -, hflags, hpayload⟩⟩ := answer_cases h
  · rw [hflags, hpayload]
    exact ⟨by constructor <;> decide, by decide⟩
  · rw [hflags, hpayload]
    exact ⟨by constructor <;> decide, by decide +kernel⟩

omit [Deku] in
/-- A result that is converted. -/
theorem except_bind_pure {ε α β : Type} (x : Except ε α) (f : α → β) :
    (x >>= fun a => pure (f a)) = x.map f := by
  cases x <;> rfl

/-- The reply to a segment is its answer. -/
theorem reply_segment (self : Server) (s : Segment) :
    self.reply s.packet =
      match self.answer s with
      | none => .ok none
      | some (reply, message) =>
        (buildReply s.ether self.mac s.ipv4 s.tcp reply).map fun packet => some (packet, message) := by
  have hether : s.packet.findLayer Ether = some s.ether := rfl
  have hipv4 : s.packet.findLayer Ipv4 = some s.ipv4 := rfl
  have htcp : s.packet.findLayer Tcp = some s.tcp := rfl
  unfold reply answer
  rw [hether, hipv4, htcp]
  dsimp only
  rw [tcpPayload_segment]
  split_ifs with hto hsyn hget
  · rfl
  · exact except_bind_pure _ _
  · exact except_bind_pure _ _
  · rfl

/-- Only segments are answered. -/
theorem reply_eq_none {self : Server} {packet : Packet Layer}
    (h : ∀ v t, .ipv4 v ∈ packet.layers → .tcp t ∈ packet.layers → False) :
    self.reply packet = .ok none := by
  unfold reply
  cases hether : packet.findLayer Ether with
  | none => rfl
  | some e =>
    cases hipv4 : packet.findLayer Ipv4 with
    | none => rfl
    | some v =>
      cases htcp : packet.findLayer Tcp with
      | none => rfl
      | some t => exact (h v t (ipv4_of_findLayer hipv4) (tcp_of_findLayer htcp)).elim

/-- What the server makes of a frame: nothing, or a reply to the segment in it, as it is sent. -/
theorem reply_cases {self : Server} {frame rest : Bytes} {packet : Packet Layer}
    (h : PacketParser.parseNew .Ether frame = .ok (rest, packet)) :
    self.reply packet = .ok none ∨
    ∃ (s : Segment) (reply : Reply) (hflags : reply.flags.WellFormed) (message : String)
      (sent : Segment), packet = s.packet ∧ self.answer s = some (reply, message) ∧
        (reply.segment hflags s.ether self.mac s.ipv4 s.tcp).Sent sent ∧
        self.reply packet = .ok (some (sent.packet, message)) := by
  by_cases hsegment : ∃ v t, .ipv4 v ∈ packet.layers ∧ .tcp t ∈ packet.layers
  · obtain ⟨v, t, hv, ht⟩ := hsegment
    obtain ⟨s, rfl⟩ := segment_of_parse h hv ht
    cases hanswer : self.answer s with
    | none =>
      left
      rw [reply_segment, hanswer]
    | some answer =>
      obtain ⟨reply, message⟩ := answer
      obtain ⟨hflags, hlt⟩ := answer_sendable hanswer
      obtain ⟨packet, hbuild⟩ := buildReply_ok hflags hlt s.ether self.mac s.ipv4 s.tcp
      obtain ⟨sent, rfl, hsent⟩ := sent_of_buildReply hflags hbuild
      refine .inr ⟨s, reply, hflags, message, sent, rfl, hanswer, hsent, ?_⟩
      rw [reply_segment, hanswer]
      show (buildReply s.ether self.mac s.ipv4 s.tcp reply).map _ = _
      rw [hbuild]
      rfl
  · left
    exact reply_eq_none fun v t hv ht => hsegment ⟨v, t, hv, ht⟩

/-- What is sent in reply to a segment. -/
theorem sent_of_reply {self : Server} {frame rest : Bytes} {packet packet' : Packet Layer}
    {message : String} (h : PacketParser.parseNew .Ether frame = .ok (rest, packet))
    (hreply : self.reply packet = .ok (some (packet', message))) :
    ∃ (s : Segment) (reply : Reply) (hflags : reply.flags.WellFormed) (sent : Segment),
      packet = s.packet ∧ packet' = sent.packet ∧ self.answer s = some (reply, message) ∧
        (reply.segment hflags s.ether self.mac s.ipv4 s.tcp).Sent sent := by
  rcases reply_cases h with hnone | ⟨s, reply, hflags, message', sent, hs, hanswer, hsent, hsome⟩
  · cases hnone.symm.trans hreply
  · obtain ⟨rfl, rfl⟩ := Prod.ext_iff.mp (Option.some.inj (Except.ok.inj (hsome.symm.trans hreply)))
    exact ⟨s, reply, hflags, sent, hs, rfl, hanswer, hsent⟩

/-- No server answers an answer. -/
theorem answer_sent {self other : Server} {s sent : Segment} {reply : Reply} {message : String}
    {hflags : reply.flags.WellFormed} (hanswer : self.answer s = some (reply, message))
    (hsent : (reply.segment hflags s.ether self.mac s.ipv4 s.tcp).Sent sent) (padding : Bytes) :
    other.answer (sent.padded padding) = none := by
  have hihl : sent.ipv4.ihl.toNat = 5 := by
    obtain ⟨_, _, _, rfl⟩ := hsent.update
    rfl
  have hreceived := received_padded hsent.settled (Nat.le_of_eq hihl.symm) padding
  have hflags' : (sent.padded padding).tcp.flags = reply.flags := by
    obtain ⟨_, _, _, rfl⟩ := hsent.update
    rfl
  have hpayload : sent.payload = reply.payload := by
    obtain ⟨_, _, _, rfl⟩ := hsent.update
    rfl
  unfold answer
  rw [hreceived, hflags', hpayload]
  obtain ⟨-, -, -, ⟨-, -, -, hsyn, hempty⟩ | ⟨-, -, -, hack, hresponse⟩⟩ := answer_cases hanswer
  · rw [hsyn, hempty]
    split_ifs with hto h1 h2
    · rfl
    · exact absurd h1.2 (by decide)
    · exact absurd h2.2 (by decide +kernel)
    · rfl
  · rw [hack, hresponse]
    split_ifs with hto h1 h2
    · rfl
    · exact absurd h1.1 (by decide)
    · exact absurd h2.2 (by decide +kernel)
    · rfl

/-- Bytes behind a segment that was finalised do not change the answer. -/
theorem answer_padded (self : Server) {s : Segment} (hsettled : s.packet.Settled)
    (hihl : 5 ≤ s.ipv4.ihl.toNat) (padding : Bytes) :
    self.answer (s.padded padding) = self.answer s := by
  have hself : received s = s.payload := by
    have h := received_padded hsettled hihl []
    rwa [Segment.padded, List.append_nil] at h
  have hpadded : received (s.padded padding) = received s :=
    (received_padded hsettled hihl padding).trans hself.symm
  unfold answer
  rw [hpadded]
  rfl

/-- **Bytes behind a segment do not matter.**  A segment that was finalised is answered in the same
    way, whatever the link puts behind it. -/
theorem reply_padded {self : Server} {s : Segment} {bytes : Bytes} (hsettled : s.packet.Settled)
    (hihl : 5 ≤ s.ipv4.ihl.toNat) (hbytes : s.packet.toBytes = .ok bytes) (padding : Bytes) :
    ∃ packet, PacketParser.parseNew .Ether (bytes ++ padding) = .ok ([], packet) ∧
      self.reply packet = self.reply s.packet := by
  refine ⟨_, Segment.parse (Segment.toBytes_padded hbytes padding), ?_⟩
  rw [reply_segment, reply_segment, answer_padded self hsettled hihl padding]
  rfl

omit [Deku] in
theorem reply_padded_synSegment :
    letI := Deku.truncating
    ∃ (s : Segment) (bytes : Bytes) (packet : Packet Layer), s.packet.toBytes = .ok bytes ∧
      PacketParser.parseNew .Ether (bytes ++ [0, 0, 0, 0, 0, 0]) = .ok ([], packet) ∧
      exampleServer.reply packet = exampleServer.reply s.packet := by
  let := Deku.truncating
  obtain ⟨s, hsent⟩ := exampleClient.exists_sent wellFormed_synReply (by decide)
  obtain ⟨bytes, hbytes, -, -⟩ := hsent.bytes
  have hihl : s.ipv4.ihl.toNat = 5 := by
    obtain ⟨_, _, _, rfl⟩ := hsent.update
    rfl
  obtain ⟨packet, hparse, hreply⟩ :=
    reply_padded hsent.settled (Nat.le_of_eq hihl.symm) hbytes
      [0, 0, 0, 0, 0, 0]
  exact ⟨s, bytes, packet, hbytes, hparse, hreply⟩

end Server

end

end SpoofHttpServer

end Nata
