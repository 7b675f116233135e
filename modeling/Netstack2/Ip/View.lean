import Netstack2.Ip.Ipv4
import Netstack2.Ip.Ipv6

/-!
# IP packets of both versions

The parsers of packets, the dispatcher and the handlers of fragments each look at the
version of a packet and parse its header. What they read of it is the same, and is
stated here once: `ipView`. A packet with a header as the builders write it has the view
that was meant (`ipView_ipv4Header`, `ipView_ipv6Header`).
-/

namespace Netstack2

/-- What is read of an IP packet. -/
structure IpView where
  version : UInt8
  protocol : UInt8
  src : IpAddress
  dst : IpAddress
  ecn : UInt8
  /-- The packet is a fragment. -/
  isFragment : Bool
  /-- The checksum of the header is right, or there is none. -/
  checksumOk : Bool
  payload : Bytes

def Ipv4ParseResult.view (ip : Ipv4ParseResult) : IpView where
  version := 4
  protocol := ip.header.protocol
  src := .ipv4 ip.header.srcIp
  dst := .ipv4 ip.header.dstIp
  ecn := ip.header.ecn
  isFragment := ip.header.isFragment
  checksumOk := ip.checksumOk
  payload := ip.payload

def Ipv6ParseResult.view (ip : Ipv6ParseResult) : IpView where
  version := 6
  protocol := ip.finalNextHeader
  src := .ipv6 ip.header.srcIp
  dst := .ipv6 ip.header.dstIp
  ecn := ip.header.trafficClass &&& 0x03
  isFragment := ip.fragment.isSome
  checksumOk := true
  payload := ip.payload

/-- The view of a packet, if it is well formed. -/
def ipView (packet : Bytes) : Option IpView :=
  if byteAt packet 0 >>> 4 = 4 then
    match parseIpv4 packet with
    | .error _ => none
    | .ok ip => some ip.view
  else if byteAt packet 0 >>> 4 = 6 then
    match parseIpv6 packet with
    | .error _ => none
    | .ok ip => some ip.view
  else none

/-- A view comes from one of the parsers. -/
theorem ipView_eq_some {packet : Bytes} {view : IpView} (h : ipView packet = some view) :
    (byteAt packet 0 >>> 4 = 4 ∧ ∃ ip, parseIpv4 packet = .ok ip ∧ ip.view = view) ∨
      (byteAt packet 0 >>> 4 = 6 ∧ ∃ ip, parseIpv6 packet = .ok ip ∧ ip.view = view) := by
  rw [ipView] at h
  split at h
  case isTrue hversion =>
    split at h
    case h_1 => cases h
    case h_2 ip hip => exact .inl ⟨hversion, ip, hip, Option.some.inj h⟩
  case isFalse =>
    obtain ⟨hversion, h⟩ := Option.ite_none_right_eq_some.1 h
    split at h
    case h_1 => cases h
    case h_2 ip hip => exact .inr ⟨hversion, ip, hip, Option.some.inj h⟩

theorem ne_nil_of_ipView {packet : Bytes} {view : IpView} (h : ipView packet = some view) :
    packet ≠ [] := by
  refine ne_nil_of_byteAt fun hzero => ?_
  rcases ipView_eq_some h with ⟨hversion, -⟩ | ⟨hversion, -⟩ <;>
  · rw [hzero] at hversion
    exact absurd hversion (by decide)

/-! ## Packets with a header as the builders write it -/

variable {hopLimit protocol : UInt8} {payload : Bytes}

theorem ipView_ipv4Header {tos : UInt8} {total ident frag checksum : UInt16}
    {src dst : Vector UInt8 4} (hlen : total.toNat = 20 + payload.length)
    (hflags : frag = 0 ∨ frag = 0x4000) :
    ipView (ipv4Header tos total ident frag hopLimit protocol checksum src dst ++ payload) = some {
        version := 4
        protocol := protocol
        src := .ipv4 src
        dst := .ipv4 dst
        ecn := tos &&& 0x03
        isFragment := false
        checksumOk := internetChecksum (ipv4Header tos total ident frag hopLimit
          protocol checksum src dst) == 0
        payload := payload } := by
  have hversion : byteAt (ipv4Header tos total ident frag hopLimit protocol
      checksum src dst ++ payload) 0 >>> 4 = 4 := (by decide : (0x45 : UInt8) >>> 4 = 4)
  have hoffset : frag &&& 0x1fff = 0 := by rcases hflags with rfl | rfl <;> decide
  have hmore : (frag >>> 13 &&& 0x07).toUInt8 &&& 0x01 = 0 := by
    rcases hflags with rfl | rfl <;> decide
  rw [ipView, if_pos hversion, parseIpv4_ipv4Header hlen]
  dsimp only [Ipv4ParseResult.view]
  rw [readIpv4Header_ipv4Header, Ipv4Header.isFragment_eq_false hoffset hmore]

theorem ipView_ipv6Header {b₁ b₂ b₃ : UInt8} {length : UInt16} {src dst : Vector UInt8 16}
    (hlen : length.toNat = payload.length) (hne : payload ≠ [])
    (hupper : isExtensionHeader protocol = false) (hno : protocol ≠ Ipv6ExtHeaderType.noNextHeader) :
    ipView (ipv6Header 0x60 b₁ b₂ b₃ length protocol hopLimit src dst ++ payload) = some {
      version := 6
      protocol := protocol
      src := .ipv6 src
      dst := .ipv6 dst
      ecn := b₁ >>> 4 &&& 0x03
      isFragment := false
      checksumOk := true
      payload := payload } := by
  have hversion : byteAt (ipv6Header 0x60 b₁ b₂ b₃ length protocol hopLimit src dst ++
    payload) 0 >>> 4 = 6 := (by decide : (0x60 : UInt8) >>> 4 = 6)
  have hclass : (0x60 &&& 0x0f : UInt8) <<< 4 ||| b₁ >>> 4 = b₁ >>> 4 := UInt8.zero_or
  rw [ipView, if_neg (by rw [hversion]; decide), if_pos hversion,
    parseIpv6_ipv6Header (by decide) hlen hne, walkExtensionHeaders_upper hupper hno]
  rw [readIpv6Header_ipv6Header, hclass, List.drop_left' length_ipv6Header, Nat.add_sub_cancel_left,
    List.take_length]
  rfl

end Netstack2
