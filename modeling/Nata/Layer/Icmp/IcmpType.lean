/-
  The type field of an ICMP message: the numbers with a name, and `Unknown` for the others.
-/
import Nata.Lib.Deku

namespace Nata

/-- Icmp Type -/
inductive IcmpType
  | EchoReply | DestUnreach | SourceQuench | Redirect | AlternateHostAddress | EchoRequest
  | RouterAdvertisement | RouterSolicitation | TimeExceeded | ParameterProblem | TimestampRequest
  | TimestampReply | InformationRequest | InformationReply | AddressMaskRequest
  | AddressMaskReply | Traceroute | DatagramConversionError | MobileHostRedirect
  | Ipv6WhereAreYou | Ipv6IAmHere | MobileRegistrationRequest | MobileRegistrationReply
  | DomainNameRequest | DomainNameReply | Skip | Photuris | ExtendedEchoRequest
  | ExtendedEchoReply
  | Unknown (code : BitVec 8)
  deriving DecidableEq, Repr

namespace IcmpType

/-- The identifier of a variant. -/
def id : IcmpType → BitVec 8
  | .EchoReply => 0
  | .DestUnreach => 3
  | .SourceQuench => 4
  | .Redirect => 5
  | .AlternateHostAddress => 6
  | .EchoRequest => 8
  | .RouterAdvertisement => 9
  | .RouterSolicitation => 10
  | .TimeExceeded => 11
  | .ParameterProblem => 12
  | .TimestampRequest => 13
  | .TimestampReply => 14
  | .InformationRequest => 15
  | .InformationReply => 16
  | .AddressMaskRequest => 17
  | .AddressMaskReply => 18
  | .Traceroute => 30
  | .DatagramConversionError => 31
  | .MobileHostRedirect => 32
  | .Ipv6WhereAreYou => 33
  | .Ipv6IAmHere => 34
  | .MobileRegistrationRequest => 35
  | .MobileRegistrationReply => 36
  | .DomainNameRequest => 37
  | .DomainNameReply => 38
  | .Skip => 39
  | .Photuris => 40
  | .ExtendedEchoRequest => 42
  | .ExtendedEchoReply => 43
  | .Unknown code => code

/-- The variants with an identifier of their own. -/
def named : List IcmpType :=
  [.EchoReply, .DestUnreach, .SourceQuench, .Redirect, .AlternateHostAddress, .EchoRequest,
   .RouterAdvertisement, .RouterSolicitation, .TimeExceeded, .ParameterProblem, .TimestampRequest,
   .TimestampReply, .InformationRequest, .InformationReply, .AddressMaskRequest,
   .AddressMaskReply, .Traceroute, .DatagramConversionError, .MobileHostRedirect,
   .Ipv6WhereAreYou, .Ipv6IAmHere, .MobileRegistrationRequest, .MobileRegistrationReply,
   .DomainNameRequest, .DomainNameReply, .Skip, .Photuris, .ExtendedEchoRequest,
   .ExtendedEchoReply]

/-- The named message types, and `Unknown`. -/
def codes : NamedCodes 8 IcmpType where
  named := named
  id := id
  unknown := .Unknown
  id_unknown _ := rfl
  nodup_named := by decide +kernel
  mem_named_or_unknown a := by
    cases a with
    | Unknown code => exact .inr ⟨code, rfl⟩
    | _ => exact .inl (by decide)

/-- The match on an identifier. -/
def ofId : BitVec 8 → IcmpType := codes.ofId

/-- The identifier, in 8 bits. -/
def codec : Field IcmpType := codes.codec

end IcmpType

end Nata
