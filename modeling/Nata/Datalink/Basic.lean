/-
  Reading and writing packets over an interface.

  A reader returns one packet a call, or an error; `Eof` is the error of a reader that has nothing
  left.  An `InterfaceReader` is also an iterator, so that packets can be read by a for loop:

      fn next(&mut self) -> Option<Packet> { self.reader.read().ok() }

  Two iterators can be made of a reader.  `untilEof` ends at `Eof` and yields the other errors as
  elements; `next` is what the crate has, and ends at ANY error.  It is the adapter `map_while` of
  the other one (`next_eq`): a for loop ends at `Eof` when every read before that returned a packet,
  and otherwise in front of the first read that did not.
-/
import Nata.Layer.Ether
import Nata.Lib.Iterator
import Nata.Packet.Basic

namespace Nata

/-- `pcap_file::PcapError`, as far as the crate tells its variants apart. -/
inductive PcapError
  | ioError (e : String)
  | other (e : String)
  deriving DecidableEq, Repr

/-- Data link errors -/
inductive DataLinkError
  /-- Error during packet reading or writing -/
  | packetError (e : PacketError)
  /-- Interface not found -/
  | interfaceNotFound
  /-- Unhandled interface type -/
  | unhandledInterfaceType
  /-- IO Error -/
  | ioError (e : String)
  /-- Error writing to interface buffer -/
  | bufferError
  /-- Pcap file error -/
  | pcapError (e : String)
  /-- End of file -/
  | eof
  deriving DecidableEq, Repr

/-- `From<pcap_file::PcapError> for DataLinkError` -/
def DataLinkError.ofPcapError : PcapError → DataLinkError
  | .ioError e => .ioError e
  | .other e => .pcapError e

/-- A point in time, in nanoseconds after the Unix epoch (or before it). -/
abbrev SystemTime := Int

/-- Packet read on an interface -/
class PacketRead (L : outParam Type) (R : Type) where
  /-- Read packet -/
  read : Method DataLinkError R (Packet L)

/-- Packet write on an interface -/
class PacketWrite (L W : Type) where
  /-- Write packet; `now` is what the clock shows. -/
  write : SystemTime → Packet L → Method DataLinkError W Unit

/-- What is known of an interface besides its halves. -/
structure InterfaceMetadata where
  macAddress : Option MacAddress
  deriving DecidableEq

/-- Read-only interface -/
structure InterfaceReader (R : Type) where
  reader : R
  metadata : InterfaceMetadata

/-- Write-only interface -/
structure InterfaceWriter (W : Type) where
  writer : W
  metadata : InterfaceMetadata

section

variable {L R W : Type}

instance [PacketRead L R] : PacketRead L (InterfaceReader R) where
  read self := Method.zoom (fun reader => { self with reader }) (PacketRead.read self.reader)

instance [PacketWrite L W] : PacketWrite L (InterfaceWriter W) where
  write now packet self :=
    Method.zoom (fun writer => { self with writer }) (PacketWrite.write now packet self.writer)

/-- `Iterator::next` of an interface: `self.reader.read().ok()`. -/
def InterfaceReader.next [PacketRead L R] (self : InterfaceReader R) :
    Option (Packet L) × InterfaceReader R :=
  match PacketRead.read self.reader with
  | .ok packet reader => (some packet, { self with reader })
  | .error _ reader => (none, { self with reader })

/-- Write one packet after the other, each with what the clock shows at the time. -/
def writePackets [PacketWrite L W] : List (SystemTime × Packet L) → Method DataLinkError W Unit
  | [] => return ()
  | (now, packet) :: writes => do
    PacketWrite.write now packet
    writePackets writes

/-- Read until `Eof`: the iterator over the results of `read`. -/
def untilEof [PacketRead L R] (self : R) : Option (Except DataLinkError (Packet L)) × R :=
  match PacketRead.read self with
  | .ok packet self => (some (.ok packet), self)
  | .error .eof self => (none, self)
  | .error e self => (some (.error e), self)

/-- `untilEof` ends at `Eof` and nowhere else. -/
theorem untilEof_fst_eq_none [PacketRead L R] {self : R} :
    (untilEof self).1 = none ↔ ∃ self', PacketRead.read self = .error .eof self' := by
  unfold untilEof
  cases PacketRead.read self with
  | ok packet self' => simp
  | error e self' => cases e <;> simp

/-- **A for loop over an interface** is `map_while(Result::ok)` of reading until `Eof`. -/
theorem InterfaceReader.next_eq [PacketRead L R] (self : InterfaceReader R) :
    self.next = ((untilEof self).1.bind Except.toOption, (untilEof self).2) := by
  have hread : PacketRead.read self =
      Method.zoom (fun reader => { self with reader }) (PacketRead.read self.reader) := rfl
  unfold next untilEof
  rw [hread]
  cases PacketRead.read self.reader with
  | ok packet reader => rfl
  | error e reader => cases e <;> rfl

/-- **What a for loop over an interface yields.**  Either every read up to `Eof` returns a packet,
    and the loop yields them all and ends at `Eof`; or it ends in front of the first read that
    returns an error, with the packets before it. -/
theorem InterfaceReader.forLoop_cases [PacketRead L R] {self stop : InterfaceReader R}
    {results : List (Except DataLinkError (Packet L))}
    (h : Iterator.Yields untilEof self results stop) :
    ((∀ r ∈ results, ∃ packet, r = .ok packet) ∧
      Iterator.Yields next self (results.filterMap Except.toOption) stop) ∨
    (∃ front e back u, results = front ++ .error e :: back ∧
      (∀ r ∈ front, ∃ packet, r = .ok packet) ∧
      Iterator.Yields next self (front.filterMap Except.toOption) u ∧
      (untilEof u).1 = some (.error e)) := by
  have hok : ∀ r : Except DataLinkError (Packet L), r.toOption.isSome → ∃ packet, r = .ok packet := by
    intro r hr
    cases r with
    | ok packet => exact ⟨packet, rfl⟩
    | error e => cases hr
  rcases h.mapWhile next_eq with ⟨hall, hy⟩ | ⟨front, r, back, u, hres, hall, hr, hy, hu⟩
  · exact .inl ⟨fun r hr => hok r (hall r hr), hy⟩
  · cases r with
    | ok packet => cases hr
    | error e => exact .inr ⟨front, e, back, u, hres, fun r hr => hok r (hall r hr), hy, hu⟩

end

end Nata
