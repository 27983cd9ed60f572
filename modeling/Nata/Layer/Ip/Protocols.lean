/-
  The protocol numbers of the IP family: those with a name, and `Unknown` for the others.
-/
import Nata.Lib.Deku

namespace Nata

/-- Ip Protocols -/
inductive IpProtocol
  | HOPOPT | ICMP | IGMP | GGP | IPENCAP | ST | TCP | EGP | IGP | PUP | UDP | HMP | XNSIDP | RDP
  | ISOTP4 | DCCP | XTP | DDP | IDPRCMTP | IPV6 | IPV6ROUTE | IPV6FRAG | IDRP | RSVP | GRE | ESP
  | AH | SKIP | IPV6ICMP | IPV6NONXT | IPV6OPTS | RSPF | VMTP | EIGRP | OSPF | AX25 | IPIP
  | ETHERIP | ENCAP | PIM | IPCOMP | VRRP | L2TP | ISIS | SCTP | FC | MOBILITYHEADER | UDPLITE
  | MPLSINIP | MANET | HIP | SHIM6 | WESP | ROHC
  | Unknown (code : BitVec 8)
  deriving DecidableEq, Repr

namespace IpProtocol

/-- The identifier of a variant. -/
def id : IpProtocol → BitVec 8
  | .HOPOPT => 0
  | .ICMP => 1
  | .IGMP => 2
  | .GGP => 3
  | .IPENCAP => 4
  | .ST => 5
  | .TCP => 6
  | .EGP => 8
  | .IGP => 9
  | .PUP => 12
  | .UDP => 17
  | .HMP => 20
  | .XNSIDP => 22
  | .RDP => 27
  | .ISOTP4 => 29
  | .DCCP => 33
  | .XTP => 36
  | .DDP => 37
  | .IDPRCMTP => 38
  | .IPV6 => 41
  | .IPV6ROUTE => 43
  | .IPV6FRAG => 44
  | .IDRP => 45
  | .RSVP => 46
  | .GRE => 47
  | .ESP => 50
  | .AH => 51
  | .SKIP => 57
  | .IPV6ICMP => 58
  | .IPV6NONXT => 59
  | .IPV6OPTS => 60
  | .RSPF => 73
  | .VMTP => 81
  | .EIGRP => 88
  | .OSPF => 89
  | .AX25 => 93
  | .IPIP => 94
  | .ETHERIP => 97
  | .ENCAP => 98
  | .PIM => 103
  | .IPCOMP => 108
  | .VRRP => 112
  | .L2TP => 115
  | .ISIS => 124
  | .SCTP => 132
  | .FC => 133
  | .MOBILITYHEADER => 135
  | .UDPLITE => 136
  | .MPLSINIP => 137
  | .MANET => 138
  | .HIP => 139
  | .SHIM6 => 140
  | .WESP => 141
  | .ROHC => 142
  | .Unknown code => code

/-- The variants with an identifier of their own. -/
def named : List IpProtocol :=
  [.HOPOPT, .ICMP, .IGMP, .GGP, .IPENCAP, .ST, .TCP, .EGP, .IGP, .PUP, .UDP, .HMP, .XNSIDP, .RDP,
   .ISOTP4, .DCCP, .XTP, .DDP, .IDPRCMTP, .IPV6, .IPV6ROUTE, .IPV6FRAG, .IDRP, .RSVP, .GRE, .ESP,
   .AH, .SKIP, .IPV6ICMP, .IPV6NONXT, .IPV6OPTS, .RSPF, .VMTP, .EIGRP, .OSPF, .AX25, .IPIP,
   .ETHERIP, .ENCAP, .PIM, .IPCOMP, .VRRP, .L2TP, .ISIS, .SCTP, .FC, .MOBILITYHEADER, .UDPLITE,
   .MPLSINIP, .MANET, .HIP, .SHIM6, .WESP, .ROHC]

/-- The named protocol numbers, and `Unknown`. -/
def codes : NamedCodes 8 IpProtocol where
  named := named
  id := id
  unknown := .Unknown
  id_unknown _ := rfl
  nodup_named := by decide +kernel
  mem_named_or_unknown a := by
    cases a with
    | Unknown code => exact .inr ⟨code, rfl⟩
    | _ => exact .inl (by decide)

/-- The match on an identifier. -/
def ofId : BitVec 8 → IpProtocol := codes.ofId

/-- The identifier, in 8 bits. -/
def codec : Field IpProtocol := codes.codec

instance : Inhabited IpProtocol := ⟨.TCP⟩

end IpProtocol

end Nata
