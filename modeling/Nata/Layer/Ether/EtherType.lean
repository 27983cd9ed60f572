/-
  The type field of an Ethernet frame: the numbers with a name, and `Unknown` for the others.
-/
import Nata.Lib.Deku

namespace Nata

/-- Ethernet type -/
inductive EtherType
  | IEEE8023 | PUP | NS | NSAT | DLOG1 | DLOG2 | IPv4 | X75 | NBS | ECMA | CHAOS | X25 | ARP
  | FRARP | VINES | TRAIL | DCA | VALID | RCL | NBPCC | NBPDG | PCS | IMLBL | MOPDL | MOPRC | LAT
  | SCA | AMBER | RAWFR | UBDL | UBNIU | UBNMC | UBBST | OS9 | RACAL | HP | TIGAN | DECAM | VEXP
  | VPROD | ES | VEECO | ATT | MATRA | DDE | MERIT | ATALK | PACER | SNA | RETIX | AARP | VLAN
  | BOFL | HAYES | VGLAB | IPX | MUMPS | FLIP | NCD | ALPHA | SNMP | XTP | SGITW | STP | IPv6
  | RDP | MICP | IPAS | SLOW | PPP | MPLS | AXIS | PPPOE | PAE | AOE | QINQ | LLDP | PBB | XNSSM
  | TCPSM | DEBNI | SONIX | VITAL | MAX
  | Unknown (code : BitVec 16)
  deriving DecidableEq, Repr

namespace EtherType

/-- The identifier of a variant. -/
def id : EtherType → BitVec 16
  | .IEEE8023 => 0x0004
  | .PUP => 0x0200
  | .NS => 0x0600
  | .NSAT => 0x0601
  | .DLOG1 => 0x0660
  | .DLOG2 => 0x0661
  | .IPv4 => 0x0800
  | .X75 => 0x0801
  | .NBS => 0x0802
  | .ECMA => 0x0803
  | .CHAOS => 0x0804
  | .X25 => 0x0805
  | .ARP => 0x0806
  | .FRARP => 0x0808
  | .VINES => 0x0bad
  | .TRAIL => 0x1000
  | .DCA => 0x1234
  | .VALID => 0x1600
  | .RCL => 0x1995
  | .NBPCC => 0x3c04
  | .NBPDG => 0x3c07
  | .PCS => 0x4242
  | .IMLBL => 0x4c42
  | .MOPDL => 0x6001
  | .MOPRC => 0x6002
  | .LAT => 0x6004
  | .SCA => 0x6007
  | .AMBER => 0x6008
  | .RAWFR => 0x6559
  | .UBDL => 0x7000
  | .UBNIU => 0x7001
  | .UBNMC => 0x7003
  | .UBBST => 0x7005
  | .OS9 => 0x7007
  | .RACAL => 0x7030
  | .HP => 0x8005
  | .TIGAN => 0x802f
  | .DECAM => 0x8048
  | .VEXP => 0x805b
  | .VPROD => 0x805c
  | .ES => 0x805d
  | .VEECO => 0x8067
  | .ATT => 0x8069
  | .MATRA => 0x807a
  | .DDE => 0x807b
  | .MERIT => 0x807c
  | .ATALK => 0x809b
  | .PACER => 0x80c6
  | .SNA => 0x80d5
  | .RETIX => 0x80f2
  | .AARP => 0x80f3
  | .VLAN => 0x8100
  | .BOFL => 0x8102
  | .HAYES => 0x8130
  | .VGLAB => 0x8131
  | .IPX => 0x8137
  | .MUMPS => 0x813f
  | .FLIP => 0x8146
  | .NCD => 0x8149
  | .ALPHA => 0x814a
  | .SNMP => 0x814c
  | .XTP => 0x817d
  | .SGITW => 0x817e
  | .STP => 0x8181
  | .IPv6 => 0x86dd
  | .RDP => 0x8739
  | .MICP => 0x873a
  | .IPAS => 0x876c
  | .SLOW => 0x8809
  | .PPP => 0x880b
  | .MPLS => 0x8847
  | .AXIS => 0x8856
  | .PPPOE => 0x8864
  | .PAE => 0x888e
  | .AOE => 0x88a2
  | .QINQ => 0x88a8
  | .LLDP => 0x88cc
  | .PBB => 0x88e7
  | .XNSSM => 0x9001
  | .TCPSM => 0x9002
  | .DEBNI => 0xaaaa
  | .SONIX => 0xfaf5
  | .VITAL => 0xff00
  | .MAX => 0xffff
  | .Unknown code => code

/-- The variants with an identifier of their own. -/
def named : List EtherType :=
  [.IEEE8023, .PUP, .NS, .NSAT, .DLOG1, .DLOG2, .IPv4, .X75, .NBS, .ECMA, .CHAOS, .X25, .ARP,
   .FRARP, .VINES, .TRAIL, .DCA, .VALID, .RCL, .NBPCC, .NBPDG, .PCS, .IMLBL, .MOPDL, .MOPRC, .LAT,
   .SCA, .AMBER, .RAWFR, .UBDL, .UBNIU, .UBNMC, .UBBST, .OS9, .RACAL, .HP, .TIGAN, .DECAM, .VEXP,
   .VPROD, .ES, .VEECO, .ATT, .MATRA, .DDE, .MERIT, .ATALK, .PACER, .SNA, .RETIX, .AARP, .VLAN,
   .BOFL, .HAYES, .VGLAB, .IPX, .MUMPS, .FLIP, .NCD, .ALPHA, .SNMP, .XTP, .SGITW, .STP, .IPv6,
   .RDP, .MICP, .IPAS, .SLOW, .PPP, .MPLS, .AXIS, .PPPOE, .PAE, .AOE, .QINQ, .LLDP, .PBB, .XNSSM,
   .TCPSM, .DEBNI, .SONIX, .VITAL, .MAX]

/-- The named Ethernet types, and `Unknown`. -/
def codes : NamedCodes 16 EtherType where
  named := named
  id := id
  unknown := .Unknown
  id_unknown _ := rfl
  nodup_named := by decide +kernel
  mem_named_or_unknown a := by
    cases a with
    | Unknown code => exact .inr ⟨code, rfl⟩
    | _ => exact .inl (by decide)

/-- The match on an identifier. -/
def ofId : BitVec 16 → EtherType := codes.ofId

/-- The identifier, in 16 bits. -/
def codec : Field EtherType := codes.codec

instance : Inhabited EtherType := ⟨.IPv4⟩

end EtherType

end Nata
