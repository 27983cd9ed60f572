import Nata.Lib.Bits
import Nata.Lib.OnesComplement
import Nata.Lib.Loop
import Nata.Lib.Deku
import Nata.Lib.Cut
import Nata.Lib.Chunk
import Nata.Lib.Ends
import Nata.Lib.Method
import Nata.Lib.Passes
import Nata.Lib.Online
import Nata.Layer.Basic
import Nata.Layer.Measures
import Nata.Layer.Ether.EtherType
import Nata.Layer.Ip.Checksum
import Nata.Layer.Ip.Protocols
import Nata.Layer.Icmp.IcmpType
import Nata.Layer.Ether
import Nata.Layer.Raw
import Nata.Layer.Ip.Ipv6
import Nata.Layer.Ip.Ipv4
import Nata.Layer.Ip.PseudoHeader
import Nata.Layer.Icmp
import Nata.Layer.Udp
import Nata.Layer.Tcp
import Nata.Layer.Truncated
import Nata.Layer.Tcp.Grammar
import Nata.Layer.Ip.Grammar
import Nata.Layer.BuiltIn
import Nata.Packet.Basic
import Nata.Packet.Parser
import Nata.Packet.Bindings
import Nata.Packet.Lossless
import Nata.Packet.Extension
import Nata.Packet.RoundTrip
import Nata.Packet.Headers
import Nata.Packet.TcpOffset
import Nata.Packet.Settled
import Nata.Packet.Sent
import Nata.Packet.Receiver
import Nata.Packet.Lengths
import Nata.Packet.Idempotent
import Nata.Datalink.Basic
import Nata.Datalink.PcapFile
import Nata.Datalink.ForLoop
import Nata.Datalink.Copy
import Nata.Packet.Overrun
import Nata.Packet.UnknownOption
import Nata.Layer.Tcp.SelectiveAck
import Nata.Layer.Ip.ChecksumLaws
import Nata.Layer.FailedFinalize
import Nata.Layer.Ip.Verified
import Nata.Layer.ZeroChecksum
import Nata.Packet.IcmpMessage
import Nata.Packet.Frame
import Nata.Packet.Representable
import Nata.Packet.Trailing
import Nata.Packet.Safe
import Nata.Layer.Updates
import Nata.Packet.Measured
import Nata.Packet.Rounds
import Nata.Packet.AtRest
import Nata.Packet.Grammar
import Nata.Packet.Capture
import Nata.Packet.Repair
import Nata.Packet.Downcast
import Nata.Packet.Segment
import Nata.Datalink.Live
import Nata.Examples.SpoofHttpServer
import Nata.Examples.ServerRun
