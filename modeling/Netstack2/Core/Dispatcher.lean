import Netstack2.Core.FlowHash
import Netstack2.Ip.Fragment
import Netstack2.Tcp.Wire
import Netstack2.Udp.Packet

/-!
# The dispatcher

Packets are given to shards. The dispatcher reads as much of a packet as it needs for
that: the flow of a TCP or UDP packet, or the key of a fragment. The outgoing packets of
a shard are given to the flows of its scheduler by a hash of what is in their bytes.

The dispatcher, the parsers and the hash of outgoing packets read the headers on their
own. They agree: a packet that a parser accepts is given to the shard of the flow that
the parser found, in both directions, and the hash of a packet that was built is that of
the flow it was built for (`packet_reaches_owner`).
-/

namespace Netstack2

open List

inductive PacketClass
  | other
  | tcp
  | udp
  | fragment
  deriving DecidableEq

inductive PacketClassificationError
  | empty
  | unsupportedIpVersion
  | malformedIp
  | truncatedTransport
  deriving DecidableEq

structure PacketClassification where
  packetClass : PacketClass := .other
  error : Option PacketClassificationError := none
  flow : Option FlowKey := none
  fragment : FragmentKey := {}
  ownerShard : ℕ := 0

def fragmentHash (key : FragmentKey) : UInt64 :=
  fnv1a64 ([key.ipVersion, key.protocol] ++ bigEndian 4 key.identification.toNat ++
    key.srcIp.toList ++ key.dstIp.toList)

structure PacketDispatcher where
  shardCount : ℕ

namespace PacketDispatcher

variable (d : PacketDispatcher)

def flowShard (key : FlowKey) : ℕ := flowToShard key d.shardCount

/-- The shard that gathers the fragments of a datagram, before its flow is known. -/
def fragmentShard (key : FragmentKey) : ℕ :=
  if d.shardCount = 0 then 0 else (fragmentHash key).toNat % d.shardCount

def classifyTransport (protocol : UInt8) (source destination : IpAddress)
    (transport : Bytes) : PacketClassification :=
  if protocol ≠ 6 ∧ protocol ≠ 17 then {}
  else if transport.length < 4 then { error := some .truncatedTransport }
  else
    let flow : FlowKey := {
      source := source
      destination := destination
      sourcePort := read16 transport
      destinationPort := read16 (transport.drop 2)
      protocol := protocol }
    { packetClass := if protocol = 6 then .tcp else .udp
      flow := some flow.canonical
      ownerShard := d.flowShard flow.canonical }

/-- The class of a fragment, if it is one of a TCP or UDP packet. -/
def classifyFragment (key : FragmentKey) : PacketClassification :=
  if key.protocol ≠ 6 ∧ key.protocol ≠ 17 then {}
  else {
    packetClass := .fragment
    fragment := key
    ownerShard := d.fragmentShard key }

def classifyPacket (packet : Bytes) : PacketClassification :=
  if packet = [] then { error := some .empty }
  else if byteAt packet 0 >>> 4 = 4 then
    match parseIpv4 packet with
    | .error _ => { error := some .malformedIp }
    | .ok ip =>
      if ip.header.isFragment then d.classifyFragment {
        srcIp := ipv4Mapped ip.header.srcIp
        dstIp := ipv4Mapped ip.header.dstIp
        ipVersion := 4
        protocol := ip.header.protocol
        identification := ip.header.identification.toUInt32 }
      else d.classifyTransport ip.header.protocol (.ipv4 ip.header.srcIp)
        (.ipv4 ip.header.dstIp) ip.payload
  else if byteAt packet 0 >>> 4 = 6 then
    match parseIpv6 packet with
    | .error _ => { error := some .malformedIp }
    | .ok ip =>
      match ip.fragment with
      | some fragment => d.classifyFragment {
          srcIp := ip.header.srcIp
          dstIp := ip.header.dstIp
          ipVersion := 6
          protocol := ip.finalNextHeader
          identification := fragment.identification }
      | none => d.classifyTransport ip.finalNextHeader (.ipv6 ip.header.srcIp)
        (.ipv6 ip.header.dstIp) ip.payload
  else { error := some .unsupportedIpVersion }

end PacketDispatcher

/-! ## Outgoing packets -/

/-- The hash FNV-1a, of 32 bits. -/
def fnv1a32 (data : Bytes) : UInt32 :=
  data.foldl (fun hash byte => (hash ^^^ byte.toUInt32) * 16777619) 2166136261

/-- The upper half of the hash of a TCP flow, with its ports at an offset of the packet. -/
def hashTcpPorts (data : Bytes) (source destination : IpAddress) (offset : ℕ) : UInt32 :=
  (flowHash {
    source := source
    destination := destination
    sourcePort := read16 (data.drop offset)
    destinationPort := read16 (data.drop (offset + 2))
    protocol := 6 } >>> 32).toUInt32

/-- The hash of an outgoing packet. Options of an IPv4 header and extension headers are
    not looked for. -/
def hashTxLease (data : Bytes) : UInt32 :=
  if data.length < 20 then fnv1a32 data
  else if byteAt data 0 >>> 4 = 4 then
    hashTcpPorts data (.ipv4 (bytesAt 4 data 12)) (.ipv4 (bytesAt 4 data 16)) 20
  else if byteAt data 0 >>> 4 = 6 ∧ data.length ≥ 40 then
    hashTcpPorts data (.ipv6 (bytesAt 16 data 8)) (.ipv6 (bytesAt 16 data 24)) 40
  else fnv1a32 data

/-! ## The dispatcher and the parsers agree -/

theorem parseTcpSegment_eq_ok {source destination : IpAddress} {data : Bytes} {ipEcn : UInt8}
    {segment : TcpSegmentView} (h : parseTcpSegment source destination data ipEcn = .ok segment) :
    20 ≤ data.length ∧
      segment.flow = ⟨source, destination, read16 data, read16 (data.drop 2), 6⟩ := by
  rw [parseTcpSegment] at h
  split at h
  case isTrue => cases h
  split at h
  case isTrue => cases h
  case isFalse hlen =>
  split at h
  case isTrue => cases h
  dsimp only at h
  split at h
  case isTrue => cases h
  split at h
  case isTrue => cases h
  cases h
  exact ⟨Nat.not_lt.1 hlen, rfl⟩

theorem parseUdpDatagram_eq_ok {source destination : IpAddress} {data : Bytes}
    {validateChecksum : Bool} {datagram : UdpParseResult}
    (h : parseUdpDatagram source destination data validateChecksum = .ok datagram) :
    8 ≤ data.length ∧
      datagram.flow = ⟨source, destination, read16 data, read16 (data.drop 2), 17⟩ := by
  rw [parseUdpDatagram] at h
  split at h
  case isTrue => cases h
  split at h
  case isTrue => cases h
  case isFalse hlen =>
  dsimp only at h
  split at h
  case isTrue => cases h
  split at h
  case isTrue => cases h
  split at h
  case isTrue => cases h
  cases h
  exact ⟨Nat.not_lt.1 hlen, rfl⟩

namespace PacketDispatcher

variable (d : PacketDispatcher) {packet : Bytes}

theorem flowShard_canonical (key : FlowKey) : d.flowShard key.canonical = d.flowShard key := by
  rw [flowShard, flowShard, flowToShard, flowToShard, flowHash_canonical]

theorem flowShard_reverseFlow (key : FlowKey) :
    d.flowShard (reverseFlow key) = d.flowShard key := by
  rw [flowShard, flowShard, flowToShard, flowToShard, flowHash_reverseFlow]

/-- A whole packet is classified by what the parsers see of it, too. -/
theorem classifyPacket_of_view {view : IpView} (h : ipView packet = some view)
    (hwhole : view.isFragment = false) :
    d.classifyPacket packet =
      d.classifyTransport view.protocol view.src view.dst view.payload := by
  rw [classifyPacket, if_neg (ne_nil_of_ipView h)]
  rcases ipView_eq_some h with ⟨hversion, ip, hip, rfl⟩ | ⟨hversion, ip, hip, rfl⟩
  · rw [if_pos hversion, hip]
    exact if_neg (Bool.eq_false_iff.1 hwhole)
  · have hnone : ip.fragment = none := Option.isNone_iff_eq_none.1 (Option.isSome_eq_false_iff.1 hwhole)
    rw [if_neg (by rw [hversion]; decide), if_pos hversion, hip]
    dsimp only
    rw [hnone]
    rfl

theorem classifyPacket_tcp {segment : TcpSegmentView}
    (h : (parseIpTcpPacket packet).segment = some segment) :
    d.classifyPacket packet = {
      packetClass := .tcp
      flow := some segment.flow.canonical
      ownerShard := d.flowShard segment.flow } := by
  obtain ⟨view, hview, -, hprotocol, hwhole, hsegment⟩ := parseIpTcpPacket_eq_some_iff.1 h
  obtain ⟨hlen, hflow⟩ := parseTcpSegment_eq_ok hsegment
  rw [classifyPacket_of_view d hview hwhole, classifyTransport, hprotocol,
    if_neg (by decide), if_neg (by omega), ← flowShard_canonical, hflow]
  rfl

theorem classifyPacket_udp {datagram : UdpParseResult}
    (h : parseIpUdpPacket packet = .ok datagram) : d.classifyPacket packet = {
      packetClass := .udp
      flow := some datagram.flow.canonical
      ownerShard := d.flowShard datagram.flow } := by
  obtain ⟨view, hview, hprotocol, hwhole, validateChecksum, hdatagram⟩ := parseIpUdpPacket_eq_ok h
  obtain ⟨hlen, hflow⟩ := parseUdpDatagram_eq_ok hdatagram
  rw [classifyPacket_of_view d hview hwhole, classifyTransport, hprotocol,
    if_neg (by decide), if_neg (by omega), ← flowShard_canonical, hflow]
  rfl

/-- A fragment of a TCP or UDP packet is classified by the key of its datagram. -/
theorem classifyPacket_ipv4_fragment {ip : Ipv4ParseResult} (h : parseIpv4 packet = .ok ip)
    (hfragment : ip.header.isFragment)
    (hprotocol : ip.header.protocol = 6 ∨ ip.header.protocol = 17) :
    (d.classifyPacket packet).packetClass = .fragment ∧
      (d.classifyPacket packet).ownerShard = d.fragmentShard {
        srcIp := ipv4Mapped ip.header.srcIp
        dstIp := ipv4Mapped ip.header.dstIp
        ipVersion := 4
        protocol := ip.header.protocol
        identification := ip.header.identification.toUInt32 } := by
  have hversion := version_of_parseIpv4 h
  have hkey : ¬(ip.header.protocol ≠ 6 ∧ ip.header.protocol ≠ 17) := by
    rintro ⟨h6, h17⟩
    exact hprotocol.elim h6 h17
  rw [classifyPacket, if_neg (ne_nil_of_byteAt fun hzero => by rw [hzero] at hversion; cases hversion),
    if_pos hversion, h]
  dsimp only
  rw [if_pos hfragment, classifyFragment, if_neg hkey]
  exact ⟨rfl, rfl⟩

end PacketDispatcher

theorem hashTcpPorts_eq {data rest : Bytes} {offset : ℕ} {flow : FlowKey}
    (hprotocol : flow.protocol = 6) (hports : data.drop offset =
      bigEndian 2 flow.sourcePort.toNat ++ bigEndian 2 flow.destinationPort.toNat ++ rest) :
    hashTcpPorts data flow.source flow.destination offset = (flowHash flow >>> 32).toUInt32 := by
  have hsource : read16 (data.drop offset) = flow.sourcePort := by
    rw [hports, append_assoc, read16_bigEndian]
  have hdestination : read16 (data.drop (offset + 2)) = flow.destinationPort := by
    rw [← drop_drop, hports, append_assoc, drop_left' (length_bigEndian ..), read16_bigEndian]
  rw [hashTcpPorts, hsource, hdestination, ← hprotocol]

/-- A packet that is built has the hash of the flow it is built for. -/
theorem hashTxLease_tcpPacket {response : TcpResponse} (hprotocol : response.flow.protocol = 6)
    (hfamily : response.flow.source.family = response.flow.destination.family)
    (options : Bytes) (ipv4Id : UInt16) (hopLimit : UInt8) :
    hashTxLease (tcpPacket response options ipv4Id hopLimit) =
      (flowHash response.flow >>> 32).toUInt32 := by
  rw [tcpPacket, tcpIpHeader, write16_tcpSegment]
  generalize internetChecksum (tcpSegment response options 0) _ = checksum
  obtain ⟨rest, hrest⟩ : ∃ rest, tcpSegment response options checksum =
      bigEndian 2 response.flow.sourcePort.toNat ++ bigEndian 2 response.flow.destinationPort.toNat ++
        rest := by
    exact ⟨_, rfl⟩
  cases hsource : response.flow.source with
  | ipv4 src =>
    cases hdestination : response.flow.destination with
    | ipv6 =>
      rw [hsource, hdestination] at hfamily
      cases hfamily
    | ipv4 dst =>
      dsimp only
      rw [write16_ipv4Header]
      generalize hdata : ipv4Header _ _ ipv4Id 0 hopLimit 6 _ src dst ++
        tcpSegment response options checksum = data
      have hlength : 20 ≤ data.length := by
        rw [← hdata, length_append, length_ipv4Header]
        exact Nat.le_add_right ..
      have hversion : byteAt data 0 >>> 4 = 4 := hdata ▸ (by decide : (0x45 : UInt8) >>> 4 = 4)
      have hsrc : bytesAt 4 data 12 = src :=
        hdata ▸ congrArg Ipv4Header.srcIp (readIpv4Header_ipv4Header _)
      have hdst : bytesAt 4 data 16 = dst :=
        hdata ▸ congrArg Ipv4Header.dstIp (readIpv4Header_ipv4Header _)
      have hports : data.drop 20 = tcpSegment response options checksum := by
        rw [← hdata, drop_left' length_ipv4Header]
      rw [hashTxLease, if_neg (Nat.not_lt.2 hlength), if_pos hversion, hsrc, hdst, ← hsource,
        ← hdestination]
      exact hashTcpPorts_eq hprotocol (hports.trans hrest)
  | ipv6 src =>
    cases hdestination : response.flow.destination with
    | ipv4 =>
      rw [hsource, hdestination] at hfamily
      cases hfamily
    | ipv6 dst =>
      generalize hdata : ipv6Header 0x60 _ 0 0 _ 6 hopLimit src dst ++
        tcpSegment response options checksum = data
      have hlength : 40 ≤ data.length := by
        rw [← hdata, length_append, length_ipv6Header]
        exact Nat.le_add_right ..
      have hversion : byteAt data 0 >>> 4 = 6 := hdata ▸ (by decide : (0x60 : UInt8) >>> 4 = 6)
      have hsrc : bytesAt 16 data 8 = src :=
        hdata ▸ congrArg Ipv6Header.srcIp (readIpv6Header_ipv6Header _)
      have hdst : bytesAt 16 data 24 = dst :=
        hdata ▸ congrArg Ipv6Header.dstIp (readIpv6Header_ipv6Header _)
      have hports : data.drop 40 = tcpSegment response options checksum := by
        rw [← hdata, drop_left' length_ipv6Header]
      rw [hashTxLease, if_neg (by omega), if_neg (by rw [hversion]; decide),
        if_pos ⟨hversion, hlength⟩, hsrc, hdst, ← hsource, ← hdestination]
      exact hashTcpPorts_eq hprotocol (hports.trans hrest)

/-- Every packet reaches the shard of its flow. -/
theorem packet_reaches_owner (d : PacketDispatcher) (hcount : 1 ≤ d.shardCount) :
    (∀ packet segment, (parseIpTcpPacket packet).segment = some segment →
      (d.classifyPacket packet).packetClass = .tcp ∧
      (d.classifyPacket packet).error = none ∧
      (d.classifyPacket packet).ownerShard = d.flowShard segment.flow) ∧
    (∀ packet datagram, parseIpUdpPacket packet = .ok datagram →
      (d.classifyPacket packet).packetClass = .udp ∧
      (d.classifyPacket packet).error = none ∧
      (d.classifyPacket packet).ownerShard = d.flowShard datagram.flow) ∧
    (∀ flow, d.flowShard (reverseFlow flow) = d.flowShard flow ∧
      d.flowShard flow < d.shardCount) ∧
    (∀ packet packet' ip ip', parseIpv4 packet = .ok ip → parseIpv4 packet' = .ok ip' →
      ip.header.isFragment = true → ip'.header.isFragment = true →
      ip.header.srcIp = ip'.header.srcIp → ip.header.dstIp = ip'.header.dstIp →
      ip.header.protocol = ip'.header.protocol →
      (ip.header.protocol = 6 ∨ ip.header.protocol = 17) →
      ip.header.identification = ip'.header.identification →
      (d.classifyPacket packet).ownerShard =
        (d.classifyPacket packet').ownerShard) ∧
    ∀ response capacity ipv4Id hopLimit packet,
      tcpControlPacket response capacity ipv4Id hopLimit = .ok packet →
      hashTxLease packet = (flowHash response.flow >>> 32).toUInt32 := by
  refine ⟨fun packet segment h => ?_, fun packet datagram h => ?_, fun flow => ?_, ?_, ?_⟩
  · rw [d.classifyPacket_tcp h]
    exact ⟨rfl, rfl, rfl⟩
  · rw [d.classifyPacket_udp h]
    exact ⟨rfl, rfl, rfl⟩
  · exact ⟨d.flowShard_reverseFlow flow, flowToShard_lt flow hcount⟩
  · intro packet packet' ip ip' hip hip' hfragment hfragment' hsrc hdst hsame hprotocol hid
    rw [(d.classifyPacket_ipv4_fragment hip hfragment hprotocol).2,
      (d.classifyPacket_ipv4_fragment hip' hfragment' (hsame ▸ hprotocol)).2, hsrc, hdst,
      hsame, hid]
  · intro response capacity ipv4Id hopLimit packet h
    obtain ⟨hprotocol, hfamily, options, rfl⟩ := tcpControlPacket_eq_ok h
    exact hashTxLease_tcpPacket hprotocol hfamily options ipv4Id hopLimit

/-- With four shards, a TCP packet from the builder. -/
theorem packet_reaches_owner_four :
    ∃ packet segment, (parseIpTcpPacket packet).segment = some segment ∧
      (PacketDispatcher.classifyPacket ⟨4⟩ packet).packetClass = .tcp ∧
      (PacketDispatcher.classifyPacket ⟨4⟩ packet).ownerShard =
        PacketDispatcher.flowShard ⟨4⟩ segment.flow ∧
      PacketDispatcher.flowShard ⟨4⟩ segment.flow < 4 := by
  have haccepts : (parseIpTcpPacket
      (tcpPacket { flow := clientTo 80 1024 6 } [] 0 64)).segment.isSome := by
    decide +kernel
  obtain ⟨segment, hsegment⟩ := Option.isSome_iff_exists.1 haccepts
  obtain ⟨htcp, -, hflow, -⟩ := packet_reaches_owner ⟨4⟩ (by decide)
  obtain ⟨hclass, -, howner⟩ := htcp _ segment hsegment
  exact ⟨_, segment, hsegment, hclass, howner, (hflow _).2⟩

end Netstack2
