import Netstack2.Ip.View
import Netstack2.Tcp.Segment

/-!
# Incoming packets

The parser of TCP segments, the parser of packets that may hold one, and the data of a
packet that is a fragment.

The parser of packets leaves what it found of the IP header in its result also if there
is no TCP segment, for the handlers of other protocols.
-/

namespace Netstack2

/-! ## Segments -/

inductive TcpParseError
  | addressFamilyMismatch
  | tooShort
  | tooLong
  | badDataOffset
  | badChecksum
  deriving DecidableEq

def parseTcpSegment (source destination : IpAddress) (data : Bytes) (ipEcn : UInt8) :
    Except TcpParseError TcpSegmentView :=
  if source.family ≠ destination.family then .error .addressFamilyMismatch
  else if data.length < 20 then .error .tooShort
  else if data.length > 0xffffffff ∨ source.isIpv4 ∧ data.length > 0xffff then .error .tooLong
  else
    let headerLength := (byteAt data 12 >>> 4).toNat * 4
    if headerLength < 20 ∨ headerLength > data.length then .error .badDataOffset
    else if internetChecksum data (pseudoHeaderSeed source destination 6 data.length) ≠ 0 then
      .error .badChecksum
    else .ok {
      flow := {
        source := source
        destination := destination
        sourcePort := read16 data
        destinationPort := read16 (data.drop 2)
        protocol := 6 }
      sequence := read32 (data.drop 4)
      acknowledgment := read32 (data.drop 8)
      flags := byteAt data 13
      window := read16 (data.drop 14)
      ipEcn := ipEcn &&& 0x03
      options := (data.drop 20).take (headerLength - 20)
      payload := data.drop headerLength }

/-! ## Packets -/

inductive TcpInputError
  | unsupportedIpVersion
  | malformedIp
  | badIpv4Checksum
  | notTcp
  | fragmentRequiresReassembly
  | malformedTcp
  deriving DecidableEq

structure TcpInputResult where
  error : Option TcpInputError := none
  tcpError : Option TcpParseError := none
  segment : Option TcpSegmentView := none
  ipVersion : UInt8 := 0
  ipProtocol : UInt8 := 0
  ipFragment : Bool := false
  ipPayload : Bytes := []
  ipSrc : IpAddress := .ipv4 (.replicate 4 0)
  ipDst : IpAddress := .ipv4 (.replicate 4 0)

/-- The result for a packet whose IP header was read, with the codepoint `ecn`. -/
def TcpInputResult.parseTcp (result : TcpInputResult) (ecn : UInt8) : TcpInputResult :=
  if result.ipProtocol ≠ 6 then { result with error := some .notTcp }
  else if result.ipFragment then { result with error := some .fragmentRequiresReassembly }
  else match parseTcpSegment result.ipSrc result.ipDst result.ipPayload ecn with
    | .error error => { result with error := some .malformedTcp, tcpError := some error }
    | .ok segment => { result with segment := some segment }

variable {packet : Bytes} {segment : TcpSegmentView}

theorem TcpInputResult.parseTcp_of_ok {result : TcpInputResult} {ecn : UInt8}
    (hprotocol : result.ipProtocol = 6) (hfragment : result.ipFragment = false)
    (h : parseTcpSegment result.ipSrc result.ipDst result.ipPayload ecn = .ok segment) :
    result.parseTcp ecn = { result with segment := some segment } := by
  rw [parseTcp, if_neg (not_not.2 hprotocol), if_neg (Bool.eq_false_iff.1 hfragment), h]

def parseIpTcpPacket (packet : Bytes) : TcpInputResult :=
  if packet = [] then { error := some .malformedIp }
  else if byteAt packet 0 >>> 4 = 4 then
    match parseIpv4 packet with
    | .error _ => { error := some .malformedIp }
    | .ok ip =>
      if ip.checksumOk = false then { error := some .badIpv4Checksum }
      else TcpInputResult.parseTcp {
        ipVersion := 4
        ipProtocol := ip.header.protocol
        ipFragment := ip.header.isFragment
        ipPayload := ip.payload
        ipSrc := .ipv4 ip.header.srcIp
        ipDst := .ipv4 ip.header.dstIp } ip.header.ecn
  else if byteAt packet 0 >>> 4 = 6 then
    match parseIpv6 packet with
    | .error _ => { error := some .malformedIp }
    | .ok ip => TcpInputResult.parseTcp {
        ipVersion := 6
        ipProtocol := ip.finalNextHeader
        ipFragment := ip.fragment.isSome
        ipPayload := ip.payload
        ipSrc := .ipv6 ip.header.srcIp
        ipDst := .ipv6 ip.header.dstIp } (ip.header.trafficClass &&& 0x03)
  else { error := some .unsupportedIpVersion }

/-- The parser of packets reads what the view says. -/
theorem parseIpTcpPacket_of_view {view : IpView} (h : ipView packet = some view) :
    parseIpTcpPacket packet = if view.checksumOk = false then { error := some .badIpv4Checksum }
      else TcpInputResult.parseTcp {
        ipVersion := view.version
        ipProtocol := view.protocol
        ipFragment := view.isFragment
        ipPayload := view.payload
        ipSrc := view.src
        ipDst := view.dst } view.ecn := by
  rw [parseIpTcpPacket, if_neg (ne_nil_of_ipView h)]
  rcases ipView_eq_some h with ⟨hversion, ip, hip, rfl⟩ | ⟨hversion, ip, hip, rfl⟩
  · rw [if_pos hversion, hip]
    rfl
  · rw [if_neg (by rw [hversion]; decide), if_pos hversion, hip]
    rfl

theorem parseIpTcpPacket_of_not_view (h : ipView packet = none) :
    (parseIpTcpPacket packet).segment = none := by
  rw [ipView] at h
  rw [parseIpTcpPacket]
  split
  · rfl
  · split
    case isTrue hversion =>
      rw [if_pos hversion] at h
      split
      case h_1 => rfl
      case h_2 hip => simp [hip] at h
    case isFalse hother =>
      rw [if_neg hother] at h
      split
      case isTrue hversion =>
        rw [if_pos hversion] at h
        split
        case h_1 => rfl
        case h_2 hip => simp [hip] at h
      case isFalse => rfl

/-- When a packet is accepted, and with which segment. -/
theorem parseIpTcpPacket_eq_some_iff :
    (parseIpTcpPacket packet).segment = some segment ↔ ∃ view, ipView packet = some view ∧
      view.checksumOk ∧ view.protocol = 6 ∧ view.isFragment = false ∧
      parseTcpSegment view.src view.dst view.payload view.ecn = .ok segment := by
  cases hview : ipView packet with
  | none =>
    rw [parseIpTcpPacket_of_not_view hview]
    exact ⟨nofun, fun ⟨_, h, _⟩ => nomatch h⟩
  | some view =>
    rw [parseIpTcpPacket_of_view hview]
    constructor
    · intro h
      split at h
      · cases h
      · rename_i hchecksum
        rw [TcpInputResult.parseTcp] at h
        split at h
        · cases h
        · rename_i hprotocol
          split at h
          · cases h
          · rename_i hfragment
            split at h
            · cases h
            · rename_i hsegment
              cases h
              exact ⟨view, rfl, Bool.not_eq_false _ ▸ hchecksum, not_not.1 hprotocol,
                Bool.not_eq_true _ ▸ hfragment, hsegment⟩
    · rintro ⟨view', hview', hchecksum, hprotocol, hfragment, hsegment⟩
      cases hview'
      rw [if_neg (by rw [hchecksum]; decide),
        TcpInputResult.parseTcp_of_ok hprotocol hfragment hsegment]

/-- An accepted packet has no error. -/
theorem error_of_segment (h : (parseIpTcpPacket packet).segment = some segment) :
    (parseIpTcpPacket packet).error = none := by
  obtain ⟨view, hview, hchecksum, hprotocol, hfragment, hsegment⟩ :=
    parseIpTcpPacket_eq_some_iff.1 h
  rw [parseIpTcpPacket_of_view hview, if_neg (by rw [hchecksum]; decide),
    TcpInputResult.parseTcp_of_ok hprotocol hfragment hsegment]

/-! ## Fragments -/

/-- What is known of a fragment: its place in a datagram, and whose it is. An IPv4
    address takes the first four bytes. -/
structure FragmentInfo where
  ipVersion : UInt8
  srcIp : Vector UInt8 16
  dstIp : Vector UInt8 16
  protocol : UInt8
  identification : UInt32
  /-- In units of 8 bytes. -/
  fragmentOffset : UInt16
  moreFragments : Bool
  payload : Bytes
  ecn : UInt8

/-- The four bytes of an address, in a field for sixteen. -/
def padAddress (address : Vector UInt8 4) : Vector UInt8 16 :=
  address ++ (Vector.replicate 12 0 : Vector UInt8 12)

/-- There is none if the packet is not well formed, or has no Fragment header. -/
def extractFragmentInfo (packet : Bytes) : Option FragmentInfo :=
  if packet = [] then none
  else if byteAt packet 0 >>> 4 = 4 then
    match parseIpv4 packet with
    | .error _ => none
    | .ok ip => some {
        ipVersion := 4
        srcIp := padAddress ip.header.srcIp
        dstIp := padAddress ip.header.dstIp
        protocol := ip.header.protocol
        identification := ip.header.identification.toUInt32
        fragmentOffset := ip.header.fragmentOffset
        moreFragments := ip.header.flags &&& 0x01 != 0
        payload := ip.payload
        ecn := ip.header.ecn }
  else if byteAt packet 0 >>> 4 = 6 then
    match parseIpv6 packet with
    | .error _ => none
    | .ok ip => ip.fragment.map fun fragment => {
        ipVersion := 6
        srcIp := ip.header.srcIp
        dstIp := ip.header.dstIp
        protocol := ip.finalNextHeader
        identification := fragment.identification
        fragmentOffset := fragment.offset
        moreFragments := fragment.more
        payload := fragment.payload
        ecn := ip.header.trafficClass &&& 0x03 }
  else none

end Netstack2
