import Mathlib

/-!
# Flows

The addresses of the two ends of a flow, and the key that identifies it.
-/

namespace Netstack2

/-- An IPv4 or IPv6 address, in network byte order. -/
inductive IpAddress
  | ipv4 (bytes : Vector UInt8 4)
  | ipv6 (bytes : Vector UInt8 16)
  deriving DecidableEq

namespace IpAddress

inductive Family
  | ipv4
  | ipv6
  deriving DecidableEq

def family : IpAddress → Family
  | ipv4 _ => .ipv4
  | ipv6 _ => .ipv6

def isIpv4 : IpAddress → Bool
  | ipv4 _ => true
  | ipv6 _ => false

end IpAddress

/-- A flow, as the sender of its packets sees it. -/
structure FlowKey where
  source : IpAddress
  destination : IpAddress
  sourcePort : UInt16
  destinationPort : UInt16
  protocol : UInt8
  deriving DecidableEq

/-- A flow of a client at `10.0.0.2` to a server at `10.0.0.1`. -/
def clientTo (sourcePort destinationPort : UInt16) (protocol : UInt8) : FlowKey where
  source := .ipv4 #v[10, 0, 0, 2]
  destination := .ipv4 #v[10, 0, 0, 1]
  sourcePort := sourcePort
  destinationPort := destinationPort
  protocol := protocol

/-- The flow of the answers. -/
def reverseFlow (flow : FlowKey) : FlowKey where
  source := flow.destination
  destination := flow.source
  sourcePort := flow.destinationPort
  destinationPort := flow.sourcePort
  protocol := flow.protocol

@[simp] theorem reverseFlow_reverseFlow (flow : FlowKey) : reverseFlow (reverseFlow flow) = flow :=
  rfl

end Netstack2
