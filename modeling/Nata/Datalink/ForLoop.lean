/-
  Which packets of a capture does a for loop see?

  `read` says of each record whether the parser accepts it, and says `Eof` behind the last one.  The
  iterator makes `None` of both, a rejected record and the end of the file; so the loop

      for packet in &mut reader { .. }

  ends in front of the first rejected record, and the records behind it are lost.  It sees all
  accepted packets and comes to the end exactly for the captures all of whose records are accepted.
-/
import Nata.Datalink.PcapFile

namespace Nata

section

variable [PcapCrate] {P L : Type}

/-- The packets of the records that the parser accepts, in order. -/
def PcapFileReader.accepted (self : PcapFileReader P L) (records : List PcapPacket) :
    List (Packet L) :=
  records.filterMap fun record =>
    match self.parserFn self.packetParser record.data with
    | .ok (_rest, packet) => some packet
    | .error _ => none

/-- A for loop over the records yields all packets that the parser accepts, in order, and ends when
    there is nothing left to read. -/
def InterfaceReader.LosesNone (self : InterfaceReader (PcapFileReader P L))
    (records : List PcapPacket) : Prop :=
  ∃ stop stop', Iterator.Yields next self (self.reader.accepted records) stop ∧
    PacketRead.read stop = .error .eof stop'

theorem PcapFileReader.accepted_eq (self : PcapFileReader P L) (records : List PcapPacket) :
    self.accepted records =
      (records.map fun record => self.parse record.data).filterMap Except.toOption := by
  rw [List.filterMap_map]
  refine List.filterMap_congr fun record _ => ?_
  show _ = (self.parse record.data).toOption
  unfold parse
  cases self.parserFn self.packetParser record.data <;> rfl

end

/-- Two frames. -/
def twoFrames : DataLink × List PcapPacket :=
  (.ETHERNET, [⟨0, 46, udpFrame⟩, ⟨1, 46, udpFrame⟩])

/-- A frame of which one byte was captured, and a whole one. -/
def cutFrame : DataLink × List PcapPacket :=
  (.ETHERNET, [⟨0, 46, [0x02]⟩, ⟨1, 46, udpFrame⟩])

/-- **Which captures a for loop reads.**  It loses no packet and comes to the end of the capture if
    and only if the parser accepts every record. -/
theorem losesNone_iff [PcapCrate] {P L : Type} (self : InterfaceReader (PcapFileReader P L))
    {records : List PcapPacket} {last : PcapCrate.PcapReader}
    (h : Iterator.Yields PcapCrate.nextPacket self.reader.reader (records.map .ok) last) :
    self.LosesNone records ↔
      ∀ record ∈ records, ∃ rest packet,
        self.reader.parserFn self.reader.packetParser record.data = .ok (rest, packet) := by
  have hread := PcapFileReader.untilEof_yields h
  rcases InterfaceReader.forLoop_cases hread with ⟨hall, hloop⟩ |
    ⟨front, e, back, stop, hresults, -, hloop, hstop⟩
  · -- Every read returned a packet: the loop went on to the end.
    refine iff_of_true ?_ ?_
    · obtain ⟨stop', hstop'⟩ := untilEof_fst_eq_none.mp hread.next_last
      refine ⟨_, stop', ?_, hstop'⟩
      rw [PcapFileReader.accepted_eq]
      exact hloop
    · intro record hrecord
      obtain ⟨packet, hpacket⟩ := hall _ (List.mem_map_of_mem hrecord)
      obtain ⟨rest, hrest⟩ := withoutRest_eq_ok.mp hpacket
      exact ⟨rest, packet, hrest⟩
  · -- The loop stopped in front of a rejected record.
    refine iff_of_false ?_ ?_
    · rintro ⟨t, t', hloop', heof⟩
      obtain ⟨-, rfl⟩ := hloop.unique hloop'
      rw [untilEof_fst_eq_none.mpr ⟨t', heof⟩] at hstop
      cases hstop
    · intro haccept
      have hmem : Except.error e ∈ records.map fun record => self.reader.parse record.data := by
        rw [hresults]
        exact List.mem_append_right front List.mem_cons_self
      obtain ⟨record, hrecord, herror⟩ := List.mem_map.mp hmem
      obtain ⟨rest, packet, hok⟩ := haccept record hrecord
      rw [show self.reader.parse record.data = .ok packet from withoutRest_eq_ok.mpr ⟨rest, hok⟩]
        at herror
      cases herror

/-- The loop reads a capture of two good frames to its end. -/
theorem losesNone_twoFrames :
    letI := Deku.truncating
    letI := PcapCrate.inMemory
    ∃ self, PcapFile.initReader twoFrames = .ok self ∧ self.LosesNone twoFrames.2 := by
  let := Deku.truncating
  let := PcapCrate.inMemory
  have hdata : ∀ record ∈ twoFrames.2, record.data = udpFrame := by
    intro record hrecord
    rcases List.mem_pair.mp hrecord with rfl | rfl <;> rfl
  have hopen : PcapCrate.newReader twoFrames = .ok twoFrames := rfl
  obtain ⟨self, hself, hreader, hparse⟩ := PcapFile.initReader_eq_ok.mp hopen
  have hyields : Iterator.Yields PcapCrate.nextPacket self.reader.reader (twoFrames.2.map .ok)
      (twoFrames.1, []) := by
    rw [hreader]
    exact PcapCrate.inMemory_yields twoFrames.1 twoFrames.2
  refine ⟨self, hself, (losesNone_iff self hyields).mpr ?_⟩
  intro record hrecord
  have hok : ((PacketParser.parseNew .Ether udpFrame).map Prod.fst) = .ok [] := by
    decide +kernel
  obtain ⟨⟨rest, packet⟩, hp, -⟩ := except_map_eq_ok.mp hok
  exact ⟨rest, packet, by rw [hparse, hdata record hrecord]; exact hp⟩

/-- Behind a frame of which one byte was captured there is a whole one.  The parser accepts it, and the
    loop ends before it is read. -/
theorem losesOne_cutFrame :
    letI := Deku.truncating
    letI := PcapCrate.inMemory
    ∃ self last, PcapFile.initReader cutFrame = .ok self ∧
      Iterator.Yields PcapCrate.nextPacket self.reader.reader (cutFrame.2.map .ok) last ∧
      (∃ packet, self.reader.accepted cutFrame.2 = [packet]) ∧
      Iterator.Yields InterfaceReader.next self [] self ∧ ¬ self.LosesNone cutFrame.2 := by
  let := Deku.truncating
  let := PcapCrate.inMemory
  have hopen : PcapCrate.newReader cutFrame = .ok cutFrame := rfl
  obtain ⟨self, hself, hreader, hparse⟩ := PcapFile.initReader_eq_ok.mp hopen
  have hyields : Iterator.Yields PcapCrate.nextPacket self.reader.reader (cutFrame.2.map .ok)
      (cutFrame.1, []) := by
    rw [hreader]
    exact PcapCrate.inMemory_yields cutFrame.1 cutFrame.2
  -- The cut frame is rejected, the frame behind it is not.
  obtain ⟨e, hcut⟩ : ∃ e, self.reader.parse [0x02] = .error e := by
    have hnone : (PacketParser.parseNew .Ether [0x02]).toOption = none := by decide +kernel
    cases hp : self.reader.parse [0x02] with
    | error e => exact ⟨e, rfl⟩
    | ok packet =>
      obtain ⟨rest, hok⟩ := withoutRest_eq_ok.mp hp
      have hok : PacketParser.parseNew .Ether [0x02] = .ok (rest, packet) := (hparse _).symm.trans hok
      rw [hok] at hnone
      cases hnone
  obtain ⟨packet, hwhole⟩ : ∃ packet, self.reader.parse udpFrame = .ok packet := by
    have hok : ((PacketParser.parseNew .Ether udpFrame).map Prod.fst) = .ok [] := by
      decide +kernel
    obtain ⟨⟨rest, packet⟩, hp, -⟩ := except_map_eq_ok.mp hok
    exact ⟨packet, withoutRest_eq_ok.mpr ⟨rest, (hparse _).trans hp⟩⟩
  have hresults : cutFrame.2.map (fun record => self.reader.parse record.data) =
      [.error e, .ok packet] := by
    rw [← hcut, ← hwhole]
    rfl
  have haccepted : self.reader.accepted cutFrame.2 = [packet] := by
    rw [PcapFileReader.accepted_eq, hresults]
    rfl
  have hread := PcapFileReader.untilEof_yields hyields
  rw [hresults] at hread
  have hloop : Iterator.Yields InterfaceReader.next self [] self := by
    cases hread with
    | more hfirst _ => exact .stop (by rw [InterfaceReader.next_eq, hfirst]; rfl)
  refine ⟨self, _, hself, hyields, ⟨packet, haccepted⟩, hloop, ?_⟩
  rintro ⟨stop, stop', hall, -⟩
  rw [haccepted] at hall
  cases (hloop.unique hall).1

end Nata
