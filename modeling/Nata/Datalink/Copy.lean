/-
  Does a copy of a capture hold the packets of the capture?

  The packets that were read from one file are written to another, and read back.  Parsing loses
  nothing, so the records of the copy are the records of the source, byte for byte.  What is read
  back depends on the first layer that each of the two files is parsed from:

  * the copy is an Ethernet capture, whatever the source was; its packets start with an `Ether`;
  * the packets of any other source start with a `Raw`.

  So the packets come back from the copy when the source is an Ethernet capture, and not a single one
  of them when it is not.  Beyond that a write depends on the length of the record, which the default
  header limits, and on the clock (`PcapFile.Taken`).
-/
import Nata.Datalink.PcapFile
import Nata.Packet.Lossless

namespace Nata

section

variable [Deku]

/-- What reading a record of a capture gives, with the default bindings. -/
def PcapFile.readAs (link : DataLink) (data : Bytes) : Except DataLinkError (Packet Layer) :=
  withoutRest (PacketParser.parseNew (firstLayer link) data)

/-- What is read back of a packet whose bytes have been written. -/
def PcapFile.readBack : Except PacketError Bytes → Except DataLinkError (Packet Layer)
  | .ok data => readAs .ETHERNET data
  | .error e => .error (.packetError e)

/-- A packet that was read has the bytes of its record, and its first layer is the one that the link
    type stands for. -/
theorem PcapFile.of_readAs {link : DataLink} {data : Bytes} {packet : Packet Layer}
    (h : readAs link data = .ok packet) :
    packet.toBytes = .ok data ∧
      packet.layers.head?.map Layer.typeId = some (firstLayer link) := by
  obtain ⟨rest, hparse⟩ := withoutRest_eq_ok.mp h
  exact ⟨PacketParser.toBytes_of_parseNew hparse, (PacketParser.parseNew_path hparse).2.1⟩

/-- **A packet is read back as it was read** if and only if it was read from an Ethernet capture. -/
theorem PcapFile.readBack_eq_iff {link : DataLink} {data : Bytes} {packet : Packet Layer}
    (h : readAs link data = .ok packet) :
    readBack packet.toBytes = .ok packet ↔ link = .ETHERNET := by
  obtain ⟨hbytes, hhead⟩ := of_readAs h
  rw [hbytes]
  constructor
  · intro hback
    have hether := hhead.symm.trans (of_readAs hback).2
    cases link with
    | ETHERNET => rfl
    | other n => cases hether
  · rintro rfl
    exact h

variable [PcapCrate]

/-! ## Reading a file -/

/-- Opening a capture and reading it until `Eof`. -/
theorem PcapFile.reads_of_holds {f : PcapCrate.File} {link : DataLink} {data : List Bytes}
    (h : PcapCrate.Holds f link data) :
    ∃ self stop, initReader f = .ok self ∧
      Iterator.Yields untilEof self (data.map (readAs link)) stop := by
  obtain ⟨reader, last, records, hnew, rfl, hyields, rfl⟩ := h
  obtain ⟨self, hself, rfl, hparse⟩ := initReader_eq_ok.mp hnew
  have hresults : (records.map fun record => self.reader.parse record.data) =
      (records.map PcapPacket.data).map (readAs (PcapCrate.datalink self.reader.reader)) := by
    rw [List.map_map]
    refine List.map_congr_left fun record _ => ?_
    exact congrArg withoutRest (hparse record.data)
  have hread := PcapFileReader.untilEof_yields hyields
  rw [hresults] at hread
  exact ⟨self, _, hself, hread⟩

/-- Any other way to read the capture is the same. -/
theorem PcapFile.results_of_holds {f : PcapCrate.File} {link : DataLink} {data : List Bytes}
    (h : PcapCrate.Holds f link data) {self stop : InterfaceReader (PcapFileReader ConsumingParser Layer)}
    {results : List (Except DataLinkError (Packet Layer))} (hopen : initReader f = .ok self)
    (hread : Iterator.Yields untilEof self results stop) : results = data.map (readAs link) := by
  obtain ⟨self', stop', hopen', hread'⟩ := reads_of_holds h
  obtain rfl : self = self' := Except.ok.inj (hopen.symm.trans hopen')
  exact (hread.unique hread').1

/-! ## Writing a file -/

/-- Writing one packet, through the interface. -/
theorem InterfaceWriter.write_eq_ok {now : SystemTime} {packet : Packet Layer}
    {self self' : InterfaceWriter PcapFileWriter} :
    PacketWrite.write now packet self = .ok () self' ↔
      ∃ data, packet.toBytes = .ok data ∧ data.length < 2 ^ 32 ∧ 0 ≤ now ∧
        ∃ writer, PcapCrate.writePacket ⟨now.toNat, .ofNat 32 data.length, data⟩
          self.writer.writer = .ok () writer ∧ self' = { self with writer := ⟨writer⟩ } := by
  show Method.zoom _ (PcapFileWriter.write now packet self.writer) = _ ↔ _
  rw [Method.zoom_eq_ok]
  constructor
  · rintro ⟨⟨writer⟩, h, rfl⟩
    obtain ⟨data, hbytes, hlen, hnow, hwrite⟩ := PcapFileWriter.write_eq_ok.mp h
    exact ⟨data, hbytes, hlen, hnow, writer, hwrite, rfl⟩
  · rintro ⟨data, hbytes, hlen, hnow, writer, hwrite, rfl⟩
    exact ⟨⟨writer⟩, PcapFileWriter.write_eq_ok.mpr ⟨data, hbytes, hlen, hnow, hwrite⟩, rfl⟩

/-- Writing packets adds their bytes to the file. -/
theorem PcapFileWriter.writePackets_holds (hlaw : PcapCrate.Lawful)
    {writes : List (SystemTime × Packet Layer)} {writer writer' : InterfaceWriter PcapFileWriter}
    {link : DataLink} {data : List Bytes} (h : writePackets writes writer = .ok () writer')
    (hholds : PcapCrate.Holds (PcapCrate.file writer.writer.writer) link data) :
    ∃ added, PcapCrate.Holds (PcapCrate.file writer'.writer.writer) link (data ++ added) ∧
      (writes.map fun write => write.2.toBytes) = added.map .ok := by
  induction writes generalizing writer data with
  | nil =>
    cases h
    exact ⟨[], by rwa [List.append_nil], rfl⟩
  | cons write writes ih =>
    obtain ⟨⟨⟩, mid, hwrite, hrest⟩ := Method.bind_eq_ok.mp h
    obtain ⟨d, hbytes, -, -, w, hpcap, rfl⟩ := InterfaceWriter.write_eq_ok.mp hwrite
    obtain ⟨added, hadded, hmap⟩ := ih hrest (hlaw.write hholds hpcap)
    refine ⟨d :: added, ?_, ?_⟩
    · rwa [List.append_cons]
    · rw [List.map_cons, List.map_cons, hbytes, hmap]

/-- A new file takes the record at the time: the time is no earlier than the Unix epoch and its
    seconds have 32 bits, and the record is no longer than the snap length. -/
def PcapFile.Taken (now : SystemTime) (record : Bytes) : Prop :=
  0 ≤ now ∧ now.toNat / 10 ^ 9 < 2 ^ 32 ∧ record.length ≤ PcapPacket.snapLength

/-- **What can be written**: a packet that has bytes, which the file takes at the time. -/
theorem InterfaceWriter.exists_write_iff (hlaw : PcapCrate.Lawful) {now : SystemTime}
    {packet : Packet Layer} {self : InterfaceWriter PcapFileWriter} :
    (∃ self', PacketWrite.write now packet self = .ok () self') ↔
      ∃ data, packet.toBytes = .ok data ∧ PcapFile.Taken now data := by
  have horig : ∀ {data : Bytes}, data.length < 2 ^ 32 →
      (BitVec.ofNat 32 data.length).toNat = data.length := fun hlen => by
    rw [BitVec.toNat_ofNat, Nat.mod_eq_of_lt hlen]
  constructor
  · rintro ⟨self', h⟩
    obtain ⟨data, hbytes, hlen, hnow, writer, hpcap, -⟩ := write_eq_ok.mp h
    obtain ⟨htime, hsnap, -⟩ := hlaw.takes.mp ⟨writer, hpcap⟩
    rw [horig hlen] at hsnap
    exact ⟨data, hbytes, hnow, htime, hsnap⟩
  · rintro ⟨data, hbytes, hnow, htime, hsnap⟩
    have hlen : data.length < 2 ^ 32 := by
      unfold PcapPacket.snapLength at hsnap
      omega
    obtain ⟨writer, hpcap⟩ := hlaw.takes.mpr
      (show PcapPacket.Fits ⟨now.toNat, .ofNat 32 data.length, data⟩ from
        ⟨htime, (horig hlen).symm ▸ hsnap, (horig hlen).symm ▸ Nat.le_refl _⟩)
    exact ⟨_, write_eq_ok.mpr ⟨data, hbytes, hlen, hnow, writer, hpcap, rfl⟩⟩

/-- A series of packets is written if and only if each of them can be. -/
theorem PcapFileWriter.exists_writePackets_iff (hlaw : PcapCrate.Lawful)
    {writes : List (SystemTime × Packet Layer)} {writer : InterfaceWriter PcapFileWriter} :
    (∃ writer', writePackets writes writer = .ok () writer') ↔
      ∀ write ∈ writes, ∃ data, write.2.toBytes = .ok data ∧ PcapFile.Taken write.1 data := by
  induction writes generalizing writer with
  | nil => exact iff_of_true ⟨writer, rfl⟩ fun _ hmem => absurd hmem List.not_mem_nil
  | cons write writes ih =>
    rw [List.forall_mem_cons]
    constructor
    · rintro ⟨writer', h⟩
      obtain ⟨⟨⟩, mid, hwrite, hrest⟩ := Method.bind_eq_ok.mp h
      exact ⟨(InterfaceWriter.exists_write_iff hlaw).mp ⟨mid, hwrite⟩, ih.mp ⟨writer', hrest⟩⟩
    · rintro ⟨hwrite, hrest⟩
      obtain ⟨mid, hwrite⟩ : ∃ mid, PacketWrite.write write.1 write.2 writer = .ok () mid :=
        (InterfaceWriter.exists_write_iff hlaw).mpr hwrite
      obtain ⟨writer', hrest⟩ := ih.mpr hrest
      exact ⟨writer', Method.bind_eq_ok.mpr ⟨(), mid, hwrite, hrest⟩⟩

/-! ## Copying -/

/-- The packets, each written with what the clock shows, are what a new file holds: reading it back
    yields them again, all of them and in order, and then `Eof`. -/
def CopyKeeps (writes : List (SystemTime × Packet Layer)) : Prop :=
  ∃ writer writer' copy stop, PcapFile.initWriter = .ok writer ∧
    writePackets writes writer = .ok () writer' ∧
    PcapFile.initReader (PcapCrate.file writer'.writer.writer) = .ok copy ∧
    Iterator.Yields untilEof copy (writes.map fun write => .ok write.2) stop

/-- A new file that packets were written to can be opened, and each of them is read back. -/
theorem PcapFileWriter.reads_writePackets (hlaw : PcapCrate.Lawful)
    {writes : List (SystemTime × Packet Layer)} {writer writer' : InterfaceWriter PcapFileWriter}
    (hnew : PcapFile.initWriter = .ok writer) (h : writePackets writes writer = .ok () writer') :
    ∃ copy stop, PcapFile.initReader (PcapCrate.file writer'.writer.writer) = .ok copy ∧
      Iterator.Yields untilEof copy (writes.map fun write => PcapFile.readBack write.2.toBytes)
        stop := by
  obtain ⟨w, hcrate, rfl⟩ := PcapFile.initWriter_eq_ok.mp hnew
  obtain ⟨added, hholds, hadded⟩ := writePackets_holds hlaw h (hlaw.new hcrate)
  rw [List.nil_append] at hholds
  obtain ⟨copy, stop, hopen, hread⟩ := PcapFile.reads_of_holds hholds
  have hresults : (writes.map fun write => PcapFile.readBack write.2.toBytes) =
      added.map (PcapFile.readAs .ETHERNET) := by
    calc (writes.map fun write => PcapFile.readBack write.2.toBytes)
        = (writes.map fun write => write.2.toBytes).map PcapFile.readBack := by
          rw [List.map_map]
          rfl
      _ = (added.map .ok).map PcapFile.readBack := by rw [hadded]
      _ = added.map (PcapFile.readAs .ETHERNET) := by
          rw [List.map_map]
          rfl
  exact ⟨copy, stop, hopen, hresults ▸ hread⟩

/-- What is read back from the copy. -/
theorem copyKeeps_iff_readBack (hlaw : PcapCrate.Lawful)
    {writes : List (SystemTime × Packet Layer)} :
    CopyKeeps writes ↔ (∃ writer, PcapCrate.newWriter = .ok writer) ∧
      ∀ write ∈ writes, (∃ data, write.2.toBytes = .ok data ∧ PcapFile.Taken write.1 data) ∧
        PcapFile.readBack write.2.toBytes = .ok write.2 := by
  constructor
  · rintro ⟨writer, writer', copy, stop, hinit, hrun, hopen, hread⟩
    obtain ⟨copy', stop', hopen', hread'⟩ :=
      PcapFileWriter.reads_writePackets hlaw hinit hrun
    obtain rfl : copy' = copy := Except.ok.inj (hopen'.symm.trans hopen)
    have hsame := List.map_inj_left.mp (hread'.unique hread).1
    have htaken := (PcapFileWriter.exists_writePackets_iff hlaw).mp ⟨writer', hrun⟩
    obtain ⟨w, hnew, -⟩ := PcapFile.initWriter_eq_ok.mp hinit
    exact ⟨⟨w, hnew⟩, fun write hmem => ⟨htaken write hmem, hsame write hmem⟩⟩
  · rintro ⟨⟨w, hnew⟩, h⟩
    have hinit : PcapFile.initWriter = .ok ⟨⟨w⟩, ⟨none⟩⟩ :=
      PcapFile.initWriter_eq_ok.mpr ⟨w, hnew, rfl⟩
    obtain ⟨writer', hrun⟩ : ∃ writer', writePackets writes
        (⟨⟨w⟩, ⟨none⟩⟩ : InterfaceWriter PcapFileWriter) = .ok () writer' :=
      (PcapFileWriter.exists_writePackets_iff hlaw).mpr fun write hmem => (h write hmem).1
    obtain ⟨copy, stop, hopen, hread⟩ := PcapFileWriter.reads_writePackets hlaw hinit hrun
    refine ⟨_, writer', copy, stop, hinit, hrun, hopen, ?_⟩
    rwa [List.map_congr_left fun write hmem => (h write hmem).2] at hread

end

/-- **Which captures a copy keeps.**  Packets that were read from a capture, any of them and in any
    order, are written to a new file and read back.  They come back as they were if and only if the
    file can be created and, unless there are none, the capture is an Ethernet capture and the file
    takes the record that each packet was read from, at the time of the write. -/
theorem copyKeeps_iff [Deku] [PcapCrate] (hlaw : PcapCrate.Lawful) {source : PcapCrate.File}
    {link : DataLink} {data : List Bytes} (hsource : PcapCrate.Holds source link data)
    {self stop : InterfaceReader (PcapFileReader ConsumingParser Layer)}
    {results : List (Except DataLinkError (Packet Layer))}
    (hopen : PcapFile.initReader source = .ok self)
    (hread : Iterator.Yields untilEof self results stop)
    {writes : List (SystemTime × Packet Layer)} (hwrites : ∀ write ∈ writes, .ok write.2 ∈ results) :
    CopyKeeps writes ↔ (∃ writer, PcapCrate.newWriter = .ok writer) ∧
      (writes = [] ∨ link = .ETHERNET ∧ ∀ write ∈ writes, ∃ record ∈ data,
        PcapFile.readAs link record = .ok write.2 ∧ PcapFile.Taken write.1 record) := by
  obtain rfl := PcapFile.results_of_holds hsource hopen hread
  have hrecord : ∀ write ∈ writes, ∃ d ∈ data, PcapFile.readAs link d = .ok write.2 :=
    fun write hmem => List.mem_map.mp (hwrites write hmem)
  rw [copyKeeps_iff_readBack hlaw]
  apply and_congr_right
  intro _
  constructor
  · intro h
    rcases writes with _ | ⟨first, writes⟩
    · exact .inl rfl
    · obtain ⟨d, -, hp⟩ := hrecord first List.mem_cons_self
      refine .inr ⟨(PcapFile.readBack_eq_iff hp).mp (h first List.mem_cons_self).2, ?_⟩
      intro write hmem
      obtain ⟨record, hmem', hp⟩ := hrecord write hmem
      obtain ⟨bytes, hbytes, htaken⟩ := (h write hmem).1
      obtain rfl := Except.ok.inj (hbytes.symm.trans (PcapFile.of_readAs hp).1)
      exact ⟨bytes, hmem', hp, htaken⟩
  · rintro (rfl | ⟨hlink, h⟩) write hmem
    · cases hmem
    · obtain ⟨record, -, hp, htaken⟩ := h write hmem
      exact ⟨⟨record, (PcapFile.of_readAs hp).1, htaken⟩, (PcapFile.readBack_eq_iff hp).mpr hlink⟩

/-- An Ethernet header with nothing behind it. -/
def bareEther : Bytes := List.replicate 14 0

/-- Two records of an Ethernet capture are kept. -/
theorem copyKeeps_twoRecords :
    letI := Deku.truncating
    letI := PcapCrate.inMemory
    ∃ packet packet', PcapFile.readAs .ETHERNET udpFrame = .ok packet ∧
      PcapFile.readAs .ETHERNET bareEther = .ok packet' ∧ CopyKeeps [(1, packet), (2, packet')] := by
  let := Deku.truncating
  let := PcapCrate.inMemory
  have hread : ∀ record, ((PacketParser.parseNew .Ether record).map Prod.fst) = .ok [] →
      ∃ packet, PcapFile.readAs .ETHERNET record = .ok packet := by
    intro record hok
    obtain ⟨⟨rest, packet⟩, hp, -⟩ := except_map_eq_ok.mp hok
    exact ⟨packet, withoutRest_eq_ok.mpr ⟨rest, hp⟩⟩
  obtain ⟨packet, hfirst⟩ := hread udpFrame (by decide +kernel)
  obtain ⟨packet', hsecond⟩ := hread bareEther (by decide +kernel)
  have hholds : PcapCrate.Holds
      (DataLink.ETHERNET, [PcapPacket.mk 0 46 udpFrame, PcapPacket.mk 0 14 bareEther]) .ETHERNET
      [udpFrame, bareEther] := PcapCrate.inMemory_holds_iff.mpr ⟨rfl, rfl⟩
  obtain ⟨self, stop, hopen, hyields⟩ := PcapFile.reads_of_holds hholds
  have hmem : udpFrame ∈ [udpFrame, bareEther] := List.mem_cons_self
  have hmem' : bareEther ∈ [udpFrame, bareEther] := List.mem_cons_of_mem _ (List.mem_singleton_self _)
  have htaken : PcapFile.Taken 1 udpFrame := by
    unfold PcapFile.Taken PcapPacket.snapLength
    decide +kernel
  have htaken' : PcapFile.Taken 2 bareEther := by
    unfold PcapFile.Taken PcapPacket.snapLength
    decide
  refine ⟨packet, packet', hfirst, hsecond,
    (copyKeeps_iff PcapCrate.lawful_inMemory hholds hopen hyields ?_).mpr
      ⟨⟨_, rfl⟩, .inr ⟨rfl, ?_⟩⟩⟩
  · refine List.forall_mem_cons.mpr ⟨List.mem_map.mpr ⟨udpFrame, hmem, hfirst⟩, ?_⟩
    exact List.forall_mem_singleton.mpr (List.mem_map.mpr ⟨bareEther, hmem', hsecond⟩)
  · refine List.forall_mem_cons.mpr ⟨⟨udpFrame, hmem, hfirst, htaken⟩, ?_⟩
    exact List.forall_mem_singleton.mpr ⟨bareEther, hmem', hsecond, htaken'⟩

/-- The same bytes in a capture of another link type are one `Raw` layer, and the copy does not give
    this layer back. -/
theorem copyLoses_rawFrame :
    letI := Deku.truncating
    letI := PcapCrate.inMemory
    ∃ source self stop packet, PcapCrate.Holds source (.other 101) [udpFrame] ∧
      PcapFile.initReader source = .ok self ∧ Iterator.Yields untilEof self [.ok packet] stop ∧
      packet.layers.map Layer.typeId = [.Raw] ∧ ¬ CopyKeeps [(1, packet)] := by
  let := Deku.truncating
  let := PcapCrate.inMemory
  have hholds : PcapCrate.Holds (DataLink.other 101, [PcapPacket.mk 0 46 udpFrame]) (.other 101)
      [udpFrame] := PcapCrate.inMemory_holds_iff.mpr ⟨rfl, rfl⟩
  obtain ⟨self, stop, hopen, hyields⟩ := PcapFile.reads_of_holds hholds
  have hok : ((PacketParser.parseNew .Raw udpFrame).map fun p => p.2.layers.map Layer.typeId) =
      .ok [.Raw] := by
    decide +kernel
  obtain ⟨⟨rest, packet⟩, hp, htypes⟩ := except_map_eq_ok.mp hok
  have hread : PcapFile.readAs (.other 101) udpFrame = .ok packet :=
    withoutRest_eq_ok.mpr ⟨rest, hp⟩
  rw [List.map_singleton, hread] at hyields
  refine ⟨_, self, stop, packet, hholds, hopen, hyields, htypes, fun hkeeps => ?_⟩
  have hback := ((copyKeeps_iff_readBack PcapCrate.lawful_inMemory).mp hkeeps).2 _
    (List.mem_singleton_self _)
  cases (PcapFile.readBack_eq_iff hread).mp hback.2

end Nata
