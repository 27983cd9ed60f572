/-
  Capture files.

  The crate `pcap_file` reads and writes the file; it is a parameter (`PcapCrate`), and what the rest
  relies on is `PcapCrate.Lawful`: a file that `PcapWriter` has written holds, under the link type
  Ethernet, the records that were written to it, in order, and it takes the records that fit the
  default header (`PcapPacket.Fits`).  `PcapCrate.Holds` is the property of a file that all
  statements are about: what `next_packet` yields from it.

  The reader looks at the link type of the file once, when it is opened, and chooses the type of the
  first layer: `Ether` for an Ethernet capture, and `Raw` for every other.  The writer has no such
  choice to make: the file it creates is an Ethernet capture.

  A parser with user-defined bindings may loop for ever.  The reader is therefore stated for a type
  `P` of packet parsers and any function of them in the place of `parse_packet`; opened by
  `init_with_parser` it has a parser whose bindings consume their input.
-/
import Nata.Datalink.Basic
import Nata.Packet.Bindings

namespace Nata

/-- `pcap_file::DataLink`: the link type of a capture, Ethernet or another one by its number. -/
inductive DataLink
  | ETHERNET
  | other (linkType : BitVec 32)
  deriving DecidableEq, Repr

/-- `pcap_file::pcap::PcapPacket` -/
structure PcapPacket where
  /-- Nanoseconds since the Unix epoch. -/
  timestamp : Nat
  origLen : BitVec 32
  data : Bytes
  deriving DecidableEq

/-- The snap length of the default header: the most bytes that a record may have. -/
def PcapPacket.snapLength : Nat := 65535

/-- What can be written under the default header: a record that is no longer than the snap length, nor
    than it is said to be, and a time whose seconds have 32 bits. -/
def PcapPacket.Fits (packet : PcapPacket) : Prop :=
  packet.timestamp / 10 ^ 9 < 2 ^ 32 ∧ packet.origLen.toNat ≤ snapLength ∧
    packet.data.length ≤ packet.origLen.toNat

instance PcapPacket.decidableFits {packet : PcapPacket} : Decidable packet.Fits :=
  inferInstanceAs (Decidable (_ ∧ _ ∧ _))

/-- The crate `pcap_file`, as far as it is used. -/
class PcapCrate where
  /-- A file on the disk. -/
  File : Type
  PcapReader : Type
  PcapWriter : Type
  /-- `PcapReader::new`, on the file opened. -/
  newReader : File → Except PcapError PcapReader
  /-- `header().datalink` -/
  datalink : PcapReader → DataLink
  nextPacket : PcapReader → Option (Except PcapError PcapPacket) × PcapReader
  /-- `PcapWriter::new`, on the file created. -/
  newWriter : Except PcapError PcapWriter
  writePacket : PcapPacket → Method PcapError PcapWriter Unit
  /-- The file that is left when the writer is dropped. -/
  file : PcapWriter → File

namespace PcapCrate

variable [PcapCrate]

/-- The file is a capture with the link type and the data of the records: `next_packet` yields the
    records in order, each once, and then `None`. -/
def Holds (file : File) (link : DataLink) (data : List Bytes) : Prop :=
  ∃ (reader stop : PcapReader) (records : List PcapPacket), newReader file = .ok reader ∧
    datalink reader = link ∧ Iterator.Yields nextPacket reader (records.map .ok) stop ∧
    records.map PcapPacket.data = data

/-- What is relied on. -/
structure Lawful : Prop where
  /-- A new file has the default header, and no record. -/
  new : ∀ {writer : PcapWriter}, newWriter = .ok writer → Holds (file writer) .ETHERNET []
  /-- A record is added at the end of the file. -/
  write : ∀ {writer writer' : PcapWriter} {link : DataLink} {data : List Bytes}
    {packet : PcapPacket}, Holds (file writer) link data →
      writePacket packet writer = .ok () writer' →
      Holds (file writer') link (data ++ [packet.data])
  /-- A record is written if and only if it fits; the disk has room for it. -/
  takes : ∀ {writer : PcapWriter} {packet : PcapPacket},
    (∃ writer', writePacket packet writer = .ok () writer') ↔ packet.Fits

end PcapCrate

/-- Captures kept in memory: a file is its link type and its records. -/
@[reducible] def PcapCrate.inMemory : PcapCrate where
  File := DataLink × List PcapPacket
  PcapReader := DataLink × List PcapPacket
  PcapWriter := DataLink × List PcapPacket
  newReader f := .ok f
  datalink := Prod.fst
  nextPacket
    | (link, []) => (none, (link, []))
    | (link, record :: records) => (some (.ok record), (link, records))
  newWriter := .ok (.ETHERNET, [])
  writePacket packet writer :=
    if packet.Fits then .ok () (writer.1, writer.2 ++ [packet])
    else .error (.other "the record does not fit") writer
  file := id

theorem PcapCrate.inMemory_yields (link : DataLink) (records : List PcapPacket) :
    letI := inMemory
    Iterator.Yields nextPacket (link, records) (records.map .ok) (link, []) := by
  induction records with
  | nil => exact .stop rfl
  | cons record records ih => exact .more rfl ih

/-- A capture in memory holds its records. -/
theorem PcapCrate.inMemory_holds_iff {f : DataLink × List PcapPacket} {link : DataLink}
    {data : List Bytes} :
    letI := inMemory
    Holds f link data ↔ f.1 = link ∧ f.2.map PcapPacket.data = data := by
  let := inMemory
  constructor
  · rintro ⟨reader, stop, records, hnew, rfl, hyields, rfl⟩
    obtain rfl : f = reader := Except.ok.inj hnew
    obtain ⟨hrecords, -⟩ := (inMemory_yields f.1 f.2).unique hyields
    have hinj : Function.Injective (Except.ok : PcapPacket → Except PcapError PcapPacket) :=
      fun _ _ => Except.ok.inj
    obtain rfl := hinj.list_map hrecords
    exact ⟨rfl, rfl⟩
  · rintro ⟨rfl, rfl⟩
    exact ⟨f, (f.1, []), f.2, rfl, rfl, inMemory_yields f.1 f.2, rfl⟩

/-- Captures in memory do what is relied on. -/
theorem PcapCrate.lawful_inMemory :
    letI := inMemory
    Lawful := by
  let := inMemory
  refine ⟨?_, ?_, ?_⟩
  · intro writer h
    cases h
    exact inMemory_holds_iff.mpr ⟨rfl, rfl⟩
  · intro writer writer' link data packet hholds hwrite
    obtain ⟨hlink, hdata⟩ := inMemory_holds_iff.mp hholds
    by_cases hfits : packet.Fits
    · cases (if_pos hfits).symm.trans hwrite
      refine inMemory_holds_iff.mpr ⟨hlink, ?_⟩
      show (writer.2 ++ [packet]).map PcapPacket.data = _
      rw [List.map_append, ← hdata]
      rfl
    · cases (if_neg hfits).symm.trans hwrite
  · intro writer packet
    constructor
    · rintro ⟨writer', hwrite⟩
      by_contra hfits
      cases (if_neg hfits).symm.trans hwrite
    · intro hfits
      exact ⟨_, if_pos hfits⟩

/-! ## The reader and the writer -/

/-- Pcap file reader -/
structure PcapFileReader [PcapCrate] (P L : Type) where
  packetParser : P
  reader : PcapCrate.PcapReader
  parserFn : P → Bytes → Except PacketError (Bytes × Packet L)

/-- Pcap file writer -/
structure PcapFileWriter [PcapCrate] where
  writer : PcapCrate.PcapWriter

/-- The packet that a parser returns; the rest is dropped. -/
def withoutRest {L : Type} : Except PacketError (Bytes × Packet L) → Except DataLinkError (Packet L)
  | .ok (_rest, packet) => .ok packet
  | .error e => .error (.packetError e)

/-- The bytes behind the packet are dropped. -/
theorem withoutRest_eq_ok {L : Type} {r : Except PacketError (Bytes × Packet L)}
    {packet : Packet L} : withoutRest r = .ok packet ↔ ∃ rest, r = .ok (rest, packet) := by
  cases r with
  | error e => simp [withoutRest]
  | ok p => simp [withoutRest, Prod.ext_iff]

/-- The packet parsers whose `parse_packet` ends. -/
abbrev ConsumingParser : Type := { parser : PacketParser Layer // parser.Consuming }

/-- `duration_since(UNIX_EPOCH)` -/
def SystemTime.durationSinceEpoch (now : SystemTime) : Except String Nat :=
  if 0 ≤ now then .ok now.toNat else .error "second time provided was later than self"

section

variable [PcapCrate]

namespace PcapFileReader

variable {P L : Type}

/-- Read packet: the next record, parsed as the link type asks for; at the end of the file `Eof`. -/
def read : Method DataLinkError (PcapFileReader P L) (Packet L) := fun self =>
  match PcapCrate.nextPacket self.reader with
  | (some (.ok packet), reader) =>
    match self.parserFn self.packetParser packet.data with
    | .ok (_rest, packet) => .ok packet { self with reader }
    | .error e => .error (.packetError e) { self with reader }
  | (some (.error e), reader) => .error (.ofPcapError e) { self with reader }
  | (none, reader) => .error .eof { self with reader }

instance : PacketRead L (PcapFileReader P L) := ⟨read⟩

/-- What the parser says of a record. -/
def parse (self : PcapFileReader P L) (data : Bytes) : Except DataLinkError (Packet L) :=
  withoutRest (self.parserFn self.packetParser data)

/-- What `read` makes of the outcome of `next_packet`. -/
def parseRecord (self : PcapFileReader P L) :
    Except PcapError PcapPacket → Except DataLinkError (Packet L)
  | .ok packet => self.parse packet.data
  | .error e => .error (.ofPcapError e)

end PcapFileReader

/-- A file is read with one call of the parser a record: reading until `Eof` yields what the parser
    says of every record, in order. -/
theorem PcapFileReader.untilEof_eq {P L : Type} (self : PcapFileReader P L)
    (metadata : InterfaceMetadata) (reader : PcapCrate.PcapReader) :
    untilEof (InterfaceReader.mk { self with reader } metadata) =
      ((PcapCrate.nextPacket reader).1.map self.parseRecord,
        InterfaceReader.mk { self with reader := (PcapCrate.nextPacket reader).2 } metadata) := by
  have hread : PacketRead.read (InterfaceReader.mk { self with reader } metadata) =
      Method.zoom (fun reader => InterfaceReader.mk reader metadata) (read { self with reader }) :=
    rfl
  unfold untilEof
  rw [hread]
  unfold read
  rcases PcapCrate.nextPacket reader with ⟨_ | e | packet, reader'⟩
  · rfl
  · cases e <;> rfl
  · rw [Option.map_some]
    unfold parseRecord parse
    dsimp only
    cases self.parserFn self.packetParser packet.data <;> rfl

/-- **A reader loses nothing.**  Reading a capture until `Eof` yields what the parser says of each
    record, in order. -/
theorem PcapFileReader.untilEof_yields {P L : Type} {self : InterfaceReader (PcapFileReader P L)}
    {records : List PcapPacket} {stop : PcapCrate.PcapReader}
    (h : Iterator.Yields PcapCrate.nextPacket self.reader.reader (records.map .ok) stop) :
    Iterator.Yields untilEof self (records.map fun record => self.reader.parse record.data)
      { self with reader.reader := stop } := by
  have hmap := h.map (fun reader => InterfaceReader.mk { self.reader with reader } self.metadata)
    (self.reader.untilEof_eq self.metadata)
  rw [List.map_map] at hmap
  exact hmap

namespace PcapFileWriter

variable {L : Type} [LayerBytes L]

/-- Write packet: a record with the time of the call, as long as the packet. -/
def write (now : SystemTime) (packet : Packet L) : Method DataLinkError PcapFileWriter Unit :=
  fun self =>
    match packet.toBytes with
    | .error e => .error (.packetError e) self
    | .ok data =>
      if 2 ^ 32 ≤ data.length then
        .error (.pcapError s!"failed to convert packet length {data.length} > {2 ^ 32 - 1}") self
      else
        match now.durationSinceEpoch with
        | .error error =>
          .error (.pcapError s!"system clock is before Unix epoch: {error}") self
        | .ok timestamp =>
          let packet := { timestamp, origLen := .ofNat 32 data.length, data }
          match PcapCrate.writePacket packet self.writer with
          | .ok _ writer => .ok () { self with writer }
          | .error e writer => .error (.ofPcapError e) { self with writer }

instance : PacketWrite L PcapFileWriter := ⟨write⟩

/-- A packet is written when its size fits 32 bits, the clock is not before the epoch and the file
    takes the record. -/
theorem write_eq_ok {now : SystemTime} {packet : Packet L} {self self' : PcapFileWriter} :
    write now packet self = .ok () self' ↔
      ∃ data, packet.toBytes = .ok data ∧ data.length < 2 ^ 32 ∧ 0 ≤ now ∧
        PcapCrate.writePacket ⟨now.toNat, .ofNat 32 data.length, data⟩ self.writer =
          .ok () self'.writer := by
  unfold write SystemTime.durationSinceEpoch
  cases packet.toBytes with
  | error e => simp
  | ok data =>
    simp only [Except.ok.injEq, exists_eq_left']
    by_cases hlen : 2 ^ 32 ≤ data.length
    · rw [if_pos hlen]
      constructor
      · exact nofun
      · rintro ⟨hlt, -⟩
        omega
    · rw [if_neg hlen]
      by_cases hnow : 0 ≤ now
      · rw [if_pos hnow]
        rw [and_iff_right (Nat.not_le.mp hlen), and_iff_right hnow]
        dsimp only
        obtain ⟨self'⟩ := self'
        cases PcapCrate.writePacket ⟨now.toNat, .ofNat 32 data.length, data⟩ self.writer <;> simp
      · rw [if_neg hnow]
        simp [hnow]

end PcapFileWriter

/-! ## Opening a file -/

namespace PcapFile

variable [Deku]

/-- Open a capture for reading. -/
def initReaderWithParser (fileIn : PcapCrate.File) (packetParser : ConsumingParser) :
    Except DataLinkError (InterfaceReader (PcapFileReader ConsumingParser Layer)) :=
  match PcapCrate.newReader fileIn with
  | .error e => .error (.ofPcapError e)
  | .ok reader =>
    -- Initialize the parser based on the pcap header
    let parserFn : ConsumingParser → Bytes → Except PacketError (Bytes × Packet Layer) :=
      match PcapCrate.datalink reader with
      | .ETHERNET => fun parser i => parser.val.parsePacket parser.property (Layer.parse .Ether) i
      | _ => fun parser i => parser.val.parsePacket parser.property (Layer.parse .Raw) i
    .ok { reader := { packetParser, reader, parserFn }, metadata := ⟨none⟩ }

/-- Open a capture for reading, with the default bindings. -/
def initReader (fileIn : PcapCrate.File) :
    Except DataLinkError (InterfaceReader (PcapFileReader ConsumingParser Layer)) :=
  initReaderWithParser fileIn ⟨PacketParser.new, PacketParser.consuming_new⟩

/-- Create a capture. -/
def initWriter : Except DataLinkError (InterfaceWriter PcapFileWriter) :=
  match PcapCrate.newWriter with
  | .error e => .error (.ofPcapError e)
  | .ok writer => .ok { writer := { writer }, metadata := ⟨none⟩ }

/-- The type of the first layer in a capture with the link type. -/
def firstLayer : DataLink → LayerType
  | .ETHERNET => .Ether
  | .other _ => .Raw

/-- A file that `pcap_file` opens is opened, and its records are parsed with the default bindings from
    the type that its link type stands for. -/
theorem initReader_eq_ok {fileIn : PcapCrate.File} {reader : PcapCrate.PcapReader} :
    PcapCrate.newReader fileIn = .ok reader ↔
      ∃ self, initReader fileIn = .ok self ∧ self.reader.reader = reader ∧
        ∀ i, self.reader.parserFn self.reader.packetParser i =
          PacketParser.parseNew (firstLayer (PcapCrate.datalink reader)) i := by
  unfold initReader initReaderWithParser
  cases PcapCrate.newReader fileIn with
  | error e => simp
  | ok reader' =>
    constructor
    · rintro h
      cases h
      refine ⟨_, rfl, rfl, fun i => ?_⟩
      dsimp only
      cases PcapCrate.datalink reader <;> rfl
    · rintro ⟨self, h, rfl, -⟩
      cases h
      rfl

omit [Deku] in
/-- A file is created if `pcap_file` creates one. -/
theorem initWriter_eq_ok {writer : InterfaceWriter PcapFileWriter} :
    initWriter = .ok writer ↔ ∃ w, PcapCrate.newWriter = .ok w ∧ writer = ⟨⟨w⟩, ⟨none⟩⟩ := by
  unfold initWriter
  cases PcapCrate.newWriter with
  | error e =>
    refine iff_of_false (fun h => ?_) ?_
    · cases h
    · rintro ⟨w, h, -⟩
      cases h
  | ok w =>
    constructor
    · intro h
      exact ⟨w, rfl, (Except.ok.inj h).symm⟩
    · rintro ⟨w', h, rfl⟩
      obtain rfl := Except.ok.inj h
      rfl

end PcapFile

end

end Nata
