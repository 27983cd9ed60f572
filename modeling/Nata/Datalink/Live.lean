/-
  Network interfaces.

  The crate `pnet` gives access to them: a receiver returns the bytes of one frame a call, or an error,
  and a sender takes the bytes of one.  `Pcap` and `Pnet` are the same but for the way in which `pnet`
  was built; both parse what they receive as an Ethernet frame, with the packet parser they were
  opened with.

  `Receives` and `Sends` are series of calls that succeed; they are what the receiver and the sender
  of a run have in common with the outside world.
-/
import Nata.Datalink.PcapFile

namespace Nata

/-- `pnet::datalink::Channel`: an Ethernet channel, or one of another kind. -/
inductive Channel (Tx Rx : Type)
  | ethernet (tx : Tx) (rx : Rx)
  | other

/-- The module `datalink` of the crate `pnet`, as far as it is used. -/
class PnetCrate where
  NetworkInterface : Type
  DataLinkReceiver : Type
  DataLinkSender : Type
  interfaces : List NetworkInterface
  name : NetworkInterface → String
  mac : NetworkInterface → Option MacAddress
  channel : NetworkInterface → Except String (Channel DataLinkSender DataLinkReceiver)
  /-- The next frame. -/
  next : Method String DataLinkReceiver Bytes
  /-- Send a frame; `None` if it does not fit the buffer. -/
  sendTo : Bytes → DataLinkSender → Option (Except String Unit) × DataLinkSender

/-- A generic packet interface used to read and write packets -/
structure Interface (R W : Type) where
  reader : R
  writer : W
  metadata : InterfaceMetadata

namespace Interface

variable {L R W : Type}

/-- Split interface into read and write interfaces. -/
def split (self : Interface R W) : InterfaceReader R × InterfaceWriter W :=
  ({ reader := self.reader, metadata := self.metadata },
    { writer := self.writer, metadata := self.metadata })

/-- Get the mac address of the interface. -/
def macAddress (self : Interface R W) : Option MacAddress := self.metadata.macAddress

instance [PacketRead L R] : PacketRead L (Interface R W) where
  read self := Method.zoom (fun reader => { self with reader }) (PacketRead.read self.reader)

instance [PacketWrite L W] : PacketWrite L (Interface R W) where
  write now packet self :=
    Method.zoom (fun writer => { self with writer }) (PacketWrite.write now packet self.writer)

end Interface

section

variable [Deku] [PnetCrate]

/-- A reader of frames: `PcapReader` and `PnetReader`. -/
structure ChannelReader where
  packetParser : ConsumingParser
  reader : PnetCrate.DataLinkReceiver

/-- A writer of frames: `PcapWriter` and `PnetWriter`. -/
structure ChannelWriter where
  writer : PnetCrate.DataLinkSender

/-- LibPcap reader -/
abbrev PcapReader : Type := ChannelReader

/-- LibPcap writer -/
abbrev PcapWriter : Type := ChannelWriter

/-- Pnet reader -/
abbrev PnetReader : Type := ChannelReader

/-- Pnet writer -/
abbrev PnetWriter : Type := ChannelWriter

/-- `parse_packet::<Ether>` with the parser of the reader. -/
def ChannelReader.parse (self : ChannelReader) (packetBytes : Bytes) :
    Except PacketError (Bytes × Packet Layer) :=
  self.packetParser.val.parsePacket self.packetParser.property (Layer.parse .Ether) packetBytes

/-- Read packet: the next frame, parsed. -/
def ChannelReader.read : Method DataLinkError ChannelReader (Packet Layer) := fun self =>
  match PnetCrate.next self.reader with
  | .ok packetBytes reader =>
    match self.parse packetBytes with
    | .ok (_rest, packet) => .ok packet { self with reader }
    | .error e => .error (.packetError e) { self with reader }
  | .error e reader => .error (.ioError e) { self with reader }

/-- Write packet: its bytes are sent as one frame. -/
def ChannelWriter.write (packet : Packet Layer) : Method DataLinkError ChannelWriter Unit :=
  fun self =>
    match packet.toBytes with
    | .error e => .error (.packetError e) self
    | .ok bytes =>
      match PnetCrate.sendTo bytes self.writer with
      | (some (.ok ()), writer) => .ok () { self with writer }
      | (some (.error e), writer) => .error (.ioError e) { self with writer }
      | (none, writer) => .error .bufferError { self with writer }

instance : PacketRead Layer ChannelReader := ⟨ChannelReader.read⟩

instance : PacketWrite Layer ChannelWriter := ⟨fun _now => ChannelWriter.write⟩

/-- Open a network interface: `init_with_parser` of `Pcap` and `Pnet`. -/
def ChannelInterface.initWithParser (interfaceName : String) (packetParser : ConsumingParser) :
    Except DataLinkError (Interface ChannelReader ChannelWriter) :=
  match PnetCrate.interfaces.find? fun iface => PnetCrate.name iface = interfaceName with
  | none => .error .interfaceNotFound
  | some interface =>
    match PnetCrate.channel interface with
    | .ok (.ethernet tx rx) => .ok
        { reader := { packetParser, reader := rx }
          writer := { writer := tx }
          metadata := ⟨PnetCrate.mac interface⟩ }
    | .ok .other => .error .unhandledInterfaceType
    | .error e => .error (.ioError e)

/-- Open a network interface, with the default bindings. -/
def ChannelInterface.init (interfaceName : String) :
    Except DataLinkError (Interface ChannelReader ChannelWriter) :=
  initWithParser interfaceName ⟨PacketParser.new, PacketParser.consuming_new⟩

/-! ## Series of calls -/

/-- The receiver returns these frames, one after the other. -/
inductive Receives : PnetCrate.DataLinkReceiver → List Bytes → PnetCrate.DataLinkReceiver → Prop
  | nil {rx} : Receives rx [] rx
  | snoc {rx rx' rx'' frames frame} : Receives rx frames rx' →
      PnetCrate.next rx' = .ok frame rx'' → Receives rx (frames ++ [frame]) rx''

/-- The sender sends these frames, one after the other. -/
inductive Sends : PnetCrate.DataLinkSender → List Bytes → PnetCrate.DataLinkSender → Prop
  | nil {tx} : Sends tx [] tx
  | snoc {tx tx' tx'' frames frame} : Sends tx frames tx' →
      PnetCrate.sendTo frame tx' = (some (.ok ()), tx'') → Sends tx (frames ++ [frame]) tx''

omit [Deku] in
theorem sends_nil_iff {tx tx' : PnetCrate.DataLinkSender} : Sends tx [] tx' ↔ tx' = tx := by
  constructor
  · intro h
    generalize hframes : ([] : List Bytes) = frames at h
    cases h with
    | nil => rfl
    | snoc _ _ => exact absurd hframes.symm (List.append_ne_nil_of_right_ne_nil _ (List.cons_ne_nil _ _))
  · rintro rfl
    exact .nil

omit [Deku] in
theorem sends_concat_iff {tx tx'' : PnetCrate.DataLinkSender} {frames : List Bytes}
    {frame : Bytes} :
    Sends tx (frames ++ [frame]) tx'' ↔
      ∃ tx', Sends tx frames tx' ∧ PnetCrate.sendTo frame tx' = (some (.ok ()), tx'') := by
  constructor
  · intro h
    generalize hframes : frames ++ [frame] = all at h
    cases h with
    | nil => exact absurd hframes (List.append_ne_nil_of_right_ne_nil _ (List.cons_ne_nil _ _))
    | snoc h hsend =>
      obtain ⟨rfl, hframe⟩ := List.append_inj' hframes rfl
      obtain rfl := List.singleton_inj.mp hframe
      exact ⟨_, h, hsend⟩
  · rintro ⟨tx', h, hsend⟩
    exact .snoc h hsend

/-- There is an interface of this name, it can be opened, and this is its address. -/
def HasInterface (interfaceName : String) (mac : Option MacAddress) (rx : PnetCrate.DataLinkReceiver)
    (tx : PnetCrate.DataLinkSender) : Prop :=
  ∃ interface, (PnetCrate.interfaces.find? fun iface => PnetCrate.name iface = interfaceName) =
    some interface ∧ PnetCrate.channel interface = .ok (.ethernet tx rx) ∧
    PnetCrate.mac interface = mac

omit [Deku] in
/-- There is one outcome. -/
theorem HasInterface.unique {interfaceName : String} {mac mac' : Option MacAddress}
    {rx rx' : PnetCrate.DataLinkReceiver} {tx tx' : PnetCrate.DataLinkSender}
    (h : HasInterface interfaceName mac rx tx) (h' : HasInterface interfaceName mac' rx' tx') :
    mac = mac' ∧ rx = rx' ∧ tx = tx' := by
  obtain ⟨_, hfind, hchannel, rfl⟩ := h
  obtain ⟨_, hfind', hchannel', rfl⟩ := h'
  obtain rfl := Option.some.inj (hfind.symm.trans hfind')
  cases hchannel.symm.trans hchannel'
  exact ⟨rfl, rfl, rfl⟩

/-- A packet is read when there is a frame and the parser accepts it. -/
theorem ChannelReader.read_eq_ok {self self' : ChannelReader} {packet : Packet Layer} :
    read self = .ok packet self' ↔
      ∃ frame rest rx, PnetCrate.next self.reader = .ok frame rx ∧
        self.parse frame = .ok (rest, packet) ∧ self' = { self with reader := rx } := by
  unfold read
  cases hnext : PnetCrate.next self.reader with
  | error e rx => simp
  | ok frame rx =>
    dsimp only
    cases hparse : self.parse frame with
    | error e => simp [hparse]
    | ok p =>
      obtain ⟨rest, packet'⟩ := p
      constructor
      · intro h
        cases h
        exact ⟨frame, rest, rx, rfl, hparse, rfl⟩
      · rintro ⟨_, _, _, hnext', hparse', rfl⟩
        cases hnext'
        cases hparse.symm.trans hparse'
        rfl

/-- `Iterator::next` of a reader of frames: `None` if there is no frame, or none that is a packet. -/
theorem ChannelReader.next_eq (self : InterfaceReader ChannelReader) :
    self.next =
      match PnetCrate.next self.reader.reader with
      | .ok frame rx =>
        ((self.reader.parse frame).toOption.map Prod.snd, { self with reader.reader := rx })
      | .error _ rx => (none, { self with reader.reader := rx }) := by
  have hread : PacketRead.read self.reader = read self.reader := rfl
  unfold InterfaceReader.next
  rw [hread, read]
  cases PnetCrate.next self.reader.reader with
  | error e rx => rfl
  | ok frame rx =>
    dsimp only
    cases self.reader.parse frame <;> rfl

/-- A packet is written when it can be serialised and the frame is sent. -/
theorem ChannelWriter.write_eq_ok {self self' : ChannelWriter} {packet : Packet Layer} :
    write packet self = .ok () self' ↔
      ∃ bytes tx, packet.toBytes = .ok bytes ∧
        PnetCrate.sendTo bytes self.writer = (some (.ok ()), tx) ∧ self' = ⟨tx⟩ := by
  unfold write
  cases packet.toBytes with
  | error e => simp
  | ok bytes =>
    dsimp only
    rcases hsend : PnetCrate.sendTo bytes self.writer with ⟨_ | e | ⟨⟩, tx⟩
    · simp [hsend]
    · simp [hsend]
    · simp [hsend, eq_comm]

end

/-! ## A link in memory -/

/-- A link whose frames are lists: those to come, and those that have been sent. -/
@[reducible] def PnetCrate.inMemory : PnetCrate where
  NetworkInterface := List Bytes
  DataLinkReceiver := List Bytes
  DataLinkSender := List Bytes
  interfaces := []
  name _ := "memory"
  mac _ := none
  channel frames := .ok (.ethernet [] frames)
  next
    | [] => .error "no frame" []
    | frame :: frames => .ok frame frames
  sendTo frame frames := (some (.ok ()), frames ++ [frame])

/-- What has been received and what is still to come are the frames that there were. -/
theorem receives_inMemory_iff {all frames rest : List Bytes} :
    letI := PnetCrate.inMemory
    Receives (all : List Bytes) frames (rest : List Bytes) ↔ all = frames ++ rest := by
  let := PnetCrate.inMemory
  constructor
  · intro h
    induction h with
    | nil => rfl
    | @snoc rx' rx'' frames frame _ hnext ih =>
      cases rx' with
      | nil => cases hnext
      | cons frame' frames' =>
        obtain ⟨rfl, rfl⟩ := EStateM.Result.ok.inj hnext
        rw [ih, List.append_assoc]
        rfl
  · rintro rfl
    induction frames using List.reverseRecOn generalizing rest with
    | nil => exact .nil
    | append_singleton frames frame ih =>
      rw [List.append_assoc]
      exact .snoc ih rfl

/-- What is sent is put behind what was sent before. -/
theorem sends_inMemory_iff {before frames after : List Bytes} :
    letI := PnetCrate.inMemory
    Sends (before : List Bytes) frames (after : List Bytes) ↔ after = before ++ frames := by
  let := PnetCrate.inMemory
  constructor
  · intro h
    induction h with
    | nil => exact (List.append_nil _).symm
    | @snoc tx' tx'' frames frame _ hsend ih =>
      obtain rfl : (show List Bytes from tx') ++ [frame] = tx'' := congrArg Prod.snd hsend
      rw [ih, List.append_assoc]
  · rintro rfl
    induction frames using List.reverseRecOn with
    | nil =>
      rw [List.append_nil]
      exact .nil
    | append_singleton frames frame ih =>
      rw [← List.append_assoc]
      exact .snoc ih rfl

end Nata
