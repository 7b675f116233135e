import Netstack2.Ip.View

/-!
# UDP packets

The builder of UDP packets and their parser. A packet that is built is read back, with
its flow and its payload, if its length fits the header (`udpPacket_round_trip_iff`).
The builder checks the length field of UDP, but not that of IPv4: a payload of more than
65507 bytes gets a packet whose header says another length, and which is not accepted
(`udpPacket_length_wraps`).
-/

namespace Netstack2

/-! ## The builder -/

inductive UdpOutputError
  | invalidFlow
  | bufferTooSmall
  | payloadTooLarge

/-- The datagram, with what its checksum field holds. -/
def udpDatagram (flow : FlowKey) (payload : Bytes) (checksum : UInt16) : Bytes :=
  bigEndian 2 flow.sourcePort.toNat ++ bigEndian 2 flow.destinationPort.toNat ++
    bigEndian 2 (UInt16.ofNat (payload.length + 8)).toNat ++ bigEndian 2 checksum.toNat ++ payload

/-- The IP header before a datagram of `udpLength` bytes. It asks not to be fragmented. -/
def udpIpHeader (flow : FlowKey) (udpLength : ℕ) (ipv4Id : UInt16) (hopLimit : UInt8) : Bytes :=
  match flow.source, flow.destination with
  | .ipv4 src, .ipv4 dst =>
    let header := ipv4Header 0 (.ofNat (20 + udpLength)) ipv4Id 0x4000 hopLimit 17 0 src dst
    write16 header 10 (internetChecksum header)
  | .ipv6 src, .ipv6 dst => ipv6Header 0x60 0 0 0 (.ofNat udpLength) 17 hopLimit src dst
  | _, _ => []

/-- The checksum of a datagram. Zero would say that there is none. -/
def udpChecksum (flow : FlowKey) (udp : Bytes) : UInt16 :=
  let checksum := internetChecksum udp (pseudoHeaderSeed flow.source flow.destination 17 udp.length)
  if checksum = 0 then 0xffff else checksum

def udpPacket (flow : FlowKey) (payload : Bytes) (ipv4Id : UInt16) (hopLimit : UInt8) : Bytes :=
  let udp := udpDatagram flow payload 0
  udpIpHeader flow udp.length ipv4Id hopLimit ++ write16 udp 6 (udpChecksum flow udp)

/-- The packet, as it is written to a buffer of `capacity` bytes. -/
def buildUdpPacket (flow : FlowKey) (payload : Bytes) (capacity : ℕ) (ipv4Id : UInt16 := 0)
    (hopLimit : UInt8 := 64) : Except UdpOutputError Bytes :=
  if flow.protocol ≠ 17 ∨ flow.source.family ≠ flow.destination.family then .error .invalidFlow
  else if payload.length + 8 > 0xffff then .error .payloadTooLarge
  else if capacity < (if flow.source.isIpv4 then 20 else 40) + (payload.length + 8) then
    .error .bufferTooSmall
  else .ok (udpPacket flow payload ipv4Id hopLimit)

/-! ## The parsers -/

inductive UdpParseError
  | nullData
  | tooShort
  | lengthMismatch
  | badChecksum

structure UdpHeader where
  srcPort : UInt16
  dstPort : UInt16
  length : UInt16
  checksum : UInt16
  deriving DecidableEq

structure UdpParseResult where
  header : UdpHeader
  flow : FlowKey
  payload : Bytes

def parseUdpDatagram (source destination : IpAddress) (data : Bytes)
    (validateChecksum : Bool) : Except UdpParseError UdpParseResult :=
  if source.family ≠ destination.family then .error .nullData
  else if data.length < 8 then .error .tooShort
  else
    let udpLength := read16 (data.drop 4)
    let checksum := read16 (data.drop 6)
    if udpLength < 8 ∨ udpLength.toNat > data.length then .error .lengthMismatch
    -- over IPv4, there need not be a checksum
    else if validateChecksum ∧ checksum = 0 ∧ source.isIpv4 = false then .error .badChecksum
    else if validateChecksum ∧ checksum ≠ 0 ∧
        internetChecksum (data.take udpLength.toNat)
          (pseudoHeaderSeed source destination 17 udpLength.toNat) ≠ 0 then .error .badChecksum
    else .ok {
      header := {
        srcPort := read16 data
        dstPort := read16 (data.drop 2)
        length := udpLength
        checksum := checksum }
      flow := {
        source := source
        destination := destination
        sourcePort := read16 data
        destinationPort := read16 (data.drop 2)
        protocol := 17 }
      payload := (data.drop 8).take (udpLength.toNat - 8) }

inductive UdpInputError
  | malformedIp
  | notUdp
  | malformedUdp
  | badChecksum

def UdpInputError.ofParse : UdpParseError → UdpInputError
  | .badChecksum => .badChecksum
  | _ => .malformedUdp

def parseIpUdpPacket (packet : Bytes) : Except UdpInputError UdpParseResult :=
  if packet = [] then .error .malformedIp
  else if byteAt packet 0 >>> 4 = 4 then
    match parseIpv4 packet with
    | .error _ => .error .malformedIp
    | .ok ip =>
      if ip.header.protocol ≠ 17 then .error .notUdp
      else if ip.header.isFragment then .error .malformedIp
      else
        let validateChecksum := decide (ip.payload.length ≥ 8) && read16 (ip.payload.drop 6) != 0
        (parseUdpDatagram (.ipv4 ip.header.srcIp) (.ipv4 ip.header.dstIp) ip.payload
          validateChecksum).mapError .ofParse
  else if byteAt packet 0 >>> 4 = 6 then
    match parseIpv6 packet with
    | .error _ => .error .malformedIp
    | .ok ip =>
      if ip.finalNextHeader ≠ 17 then .error .notUdp
      else if ip.fragment.isSome then .error .malformedIp
      else (parseUdpDatagram (.ipv6 ip.header.srcIp) (.ipv6 ip.header.dstIp) ip.payload
        true).mapError .ofParse
  else .error .malformedIp

variable {packet : Bytes}

/-- The parser of packets reads what the view says. The checksum of an IPv4 header is not
    looked at. -/
theorem parseIpUdpPacket_of_view {view : IpView} (h : ipView packet = some view) :
    parseIpUdpPacket packet = if view.protocol ≠ 17 then .error .notUdp
      else if view.isFragment then .error .malformedIp
      else (parseUdpDatagram view.src view.dst view.payload (view.version == 6 ||
        decide (view.payload.length ≥ 8) && read16 (view.payload.drop 6) != 0)).mapError
          .ofParse := by
  rw [parseIpUdpPacket, if_neg (ne_nil_of_ipView h)]
  rcases ipView_eq_some h with ⟨hversion, ip, hip, rfl⟩ | ⟨hversion, ip, hip, rfl⟩
  · rw [if_pos hversion, hip]
    rfl
  · rw [if_neg (by rw [hversion]; decide), if_pos hversion, hip]
    rfl

theorem ipView_of_parseIpUdpPacket {datagram : UdpParseResult}
    (h : parseIpUdpPacket packet = .ok datagram) : ∃ view, ipView packet = some view := by
  rw [parseIpUdpPacket] at h
  rw [ipView]
  split at h
  case isTrue => cases h
  split at h
  case isTrue hversion =>
    rw [if_pos hversion]
    cases hip : parseIpv4 packet with
    | error => simp [hip] at h
    | ok => exact ⟨_, rfl⟩
  case isFalse hother =>
    rw [if_neg hother]
    split at h
    case isTrue hversion =>
      rw [if_pos hversion]
      cases hip : parseIpv6 packet with
      | error => simp [hip] at h
      | ok => exact ⟨_, rfl⟩
    case isFalse => cases h

/-- An accepted packet is one of UDP, is whole, and has the datagram that was found. -/
theorem parseIpUdpPacket_eq_ok {datagram : UdpParseResult}
    (h : parseIpUdpPacket packet = .ok datagram) :
    ∃ view, ipView packet = some view ∧ view.protocol = 17 ∧ view.isFragment = false ∧
      ∃ validateChecksum,
        parseUdpDatagram view.src view.dst view.payload validateChecksum = .ok datagram := by
  obtain ⟨view, hview⟩ := ipView_of_parseIpUdpPacket h
  rw [parseIpUdpPacket_of_view hview] at h
  generalize (view.version == 6 || _) = validateChecksum at h
  split at h
  case isTrue => cases h
  case isFalse hprotocol =>
    split at h
    case isTrue => cases h
    case isFalse hfragment =>
      refine ⟨view, hview, not_not.1 hprotocol, Bool.not_eq_true _ ▸ hfragment, validateChecksum, ?_⟩
      cases hparse : parseUdpDatagram view.src view.dst view.payload validateChecksum with
      | error =>
        rw [hparse] at h
        cases h
      | ok =>
        rw [hparse] at h
        rw [Except.ok.inj h]

/-! ## The round trip -/

section RoundTrip

variable {flow : FlowKey} {payload : Bytes} {checksum : UInt16}

theorem length_udpDatagram : (udpDatagram flow payload checksum).length = payload.length + 8 := by
  simp only [udpDatagram, List.length_append, length_bigEndian]
  omega

theorem write16_udpDatagram (value : UInt16) :
    write16 (udpDatagram flow payload 0) 6 value = udpDatagram flow payload value :=
  rfl

theorem read16_checksum : read16 ((udpDatagram flow payload checksum).drop 6) = checksum :=
  read16_bigEndian checksum _

/-- A datagram whose checksum is right is read back. -/
theorem parseUdpDatagram_udpDatagram (hprotocol : flow.protocol = 17)
    (hfamily : flow.source.family = flow.destination.family) (hlen : payload.length + 8 ≤ 65535)
    (hnonzero : checksum ≠ 0) (hchecksum : internetChecksum (udpDatagram flow payload checksum)
      (pseudoHeaderSeed flow.source flow.destination 17 (payload.length + 8)) = 0) :
    parseUdpDatagram flow.source flow.destination (udpDatagram flow payload checksum) true = .ok {
      header := {
        srcPort := flow.sourcePort
        dstPort := flow.destinationPort
        length := .ofNat (payload.length + 8)
        checksum := checksum }
      flow := flow
      payload := payload } := by
  have hlength : (udpDatagram flow payload checksum).length = payload.length + 8 :=
    length_udpDatagram
  have hfield : read16 ((udpDatagram flow payload checksum).drop 6) = checksum := read16_checksum
  have hdrop : (udpDatagram flow payload checksum).drop 8 = payload := rfl
  generalize hdata : udpDatagram flow payload checksum = data at *
  have hsource : read16 data = flow.sourcePort := hdata ▸ read16_bigEndian flow.sourcePort _
  have hdestination : read16 (data.drop 2) = flow.destinationPort :=
    hdata ▸ read16_bigEndian flow.destinationPort _
  have hread : read16 (data.drop 4) = UInt16.ofNat (payload.length + 8) :=
    hdata ▸ read16_bigEndian (UInt16.ofNat (payload.length + 8)) _
  have hudp : (UInt16.ofNat (payload.length + 8)).toNat = payload.length + 8 := by
    rw [UInt16.toNat_ofNat', Nat.mod_eq_of_lt (by omega)]
  have hshort : ¬UInt16.ofNat (payload.length + 8) < 8 := by
    rw [UInt16.lt_iff_toNat_lt, hudp]
    exact Nat.not_lt.2 (Nat.le_add_left ..)
  rw [parseUdpDatagram, if_neg (not_not.2 hfamily), if_neg (by omega)]
  dsimp only
  rw [hread, hfield, hudp, if_neg (not_or.2 ⟨hshort, by omega⟩), if_neg fun h => hnonzero h.2.1,
    List.take_of_length_le (by omega), if_neg fun h => h.2.2 hchecksum, hsource, hdestination, hdrop,
    Nat.add_sub_cancel, List.take_length, ← hprotocol]

theorem udpChecksum_ne_zero (flow : FlowKey) (udp : Bytes) : udpChecksum flow udp ≠ 0 := by
  rw [udpChecksum]
  split
  · decide
  · assumption

/-- The datagram of a packet, with its checksum, is read back. -/
theorem parseUdpDatagram_udpChecksum (hprotocol : flow.protocol = 17)
    (hfamily : flow.source.family = flow.destination.family) (hlen : payload.length + 8 ≤ 65535) :
    ∃ datagram, parseUdpDatagram flow.source flow.destination (udpDatagram flow payload
      (udpChecksum flow (udpDatagram flow payload 0))) true = .ok datagram ∧
        datagram.flow = flow ∧ datagram.payload = payload := by
  have hlength : (udpDatagram flow payload 0).length = payload.length + 8 := length_udpDatagram
  have hright : internetChecksum (write16 (udpDatagram flow payload 0) 6 (udpChecksum flow
      (udpDatagram flow payload 0))) (pseudoHeaderSeed flow.source flow.destination 17
        (udpDatagram flow payload 0).length) = 0 :=
    internetChecksum_write16_nonzero rfl (by omega) (write16_udpDatagram 0).symm (by omega)
      (pseudoHeaderSeed_lt ..)
  rw [write16_udpDatagram, hlength] at hright
  exact ⟨_, parseUdpDatagram_udpDatagram hprotocol hfamily hlen (udpChecksum_ne_zero flow _) hright,
    rfl, rfl⟩

end RoundTrip

section Packet

variable {flow : FlowKey} {payload : Bytes}

/-- The packet is read back if its length fits the header. -/
theorem parseIpUdpPacket_udpPacket (hprotocol : flow.protocol = 17)
    (hfamily : flow.source.family = flow.destination.family) (hlen : payload.length + 8 ≤ 65535)
    (hfits : flow.source.isIpv4 → payload.length + 28 ≤ 65535) (ipv4Id : UInt16) (hopLimit : UInt8) :
    ∃ datagram, parseIpUdpPacket (udpPacket flow payload ipv4Id hopLimit) = .ok datagram ∧
      datagram.flow = flow ∧ datagram.payload = payload := by
  have hlength : ∀ checksum, (udpDatagram flow payload checksum).length = payload.length + 8 :=
    fun _ => length_udpDatagram
  have hnonzero := udpChecksum_ne_zero flow (udpDatagram flow payload 0)
  obtain ⟨datagram, hparse, hdatagram⟩ := parseUdpDatagram_udpChecksum hprotocol hfamily hlen
  refine ⟨datagram, ?_, hdatagram⟩
  rw [udpPacket, udpIpHeader, write16_udpDatagram]
  rw [hlength]
  generalize udpChecksum flow (udpDatagram flow payload 0) = checksum at *
  cases hsource : flow.source with
  | ipv4 =>
    cases hdestination : flow.destination with
    | ipv6 =>
      rw [hsource, hdestination] at hfamily
      cases hfamily
    | ipv4 =>
      rw [hsource, hdestination] at hparse
      have hle := hfits (by rw [hsource]; rfl)
      have htotal : (UInt16.ofNat (20 + (payload.length + 8))).toNat =
          20 + (udpDatagram flow payload checksum).length := by
        rw [UInt16.toNat_ofNat', hlength, Nat.mod_eq_of_lt (by omega)]
      have hvalidate : (decide ((udpDatagram flow payload checksum).length ≥ 8) &&
          read16 ((udpDatagram flow payload checksum).drop 6) != 0) = true := by
        rw [read16_checksum, hlength, bne_iff_ne.2 hnonzero, decide_eq_true (Nat.le_add_left ..)]
        rfl
      dsimp only
      rw [write16_ipv4Header, parseIpUdpPacket_of_view (ipView_ipv4Header htotal (.inr rfl)),
        if_neg (not_not.2 rfl), if_neg Bool.false_ne_true, hvalidate, Bool.or_true, hparse]
      rfl
  | ipv6 =>
    cases hdestination : flow.destination with
    | ipv4 =>
      rw [hsource, hdestination] at hfamily
      cases hfamily
    | ipv6 =>
      rw [hsource, hdestination] at hparse
      have htotal : (UInt16.ofNat (payload.length + 8)).toNat =
          (udpDatagram flow payload checksum).length := by
        rw [UInt16.toNat_ofNat', hlength, Nat.mod_eq_of_lt (by omega)]
      have hne : udpDatagram flow payload checksum ≠ [] :=
        List.ne_nil_of_length_pos (by rw [hlength]; omega)
      rw [parseIpUdpPacket_of_view (ipView_ipv6Header htotal hne rfl (by decide)),
        if_neg (not_not.2 rfl), if_neg Bool.false_ne_true]
      rw [beq_self_eq_true, Bool.true_or, hparse]
      rfl

/-- A packet whose length does not fit the IPv4 header is not accepted. -/
theorem parseIpUdpPacket_of_wraps (hfamily : flow.source.family = flow.destination.family)
    (hlen : payload.length + 8 ≤ 65535) (hipv4 : flow.source.isIpv4)
    (hwraps : 65535 < payload.length + 28) (ipv4Id : UInt16) (hopLimit : UInt8) :
    parseIpUdpPacket (udpPacket flow payload ipv4Id hopLimit) = .error .malformedIp := by
  rw [udpPacket, udpIpHeader]
  cases hsource : flow.source with
  | ipv6 =>
    rw [hsource] at hipv4
    cases hipv4
  | ipv4 src =>
    cases hdestination : flow.destination with
    | ipv6 =>
      rw [hsource, hdestination] at hfamily
      cases hfamily
    | ipv4 dst =>
      dsimp only
      rw [write16_ipv4Header, length_udpDatagram]
      generalize internetChecksum (ipv4Header 0 (.ofNat (20 + (payload.length + 8))) ipv4Id 0x4000
        hopLimit 17 0 src dst) = checksum
      generalize write16 (udpDatagram flow payload 0) 6 _ = udp
      have hversion : byteAt (ipv4Header 0 (.ofNat (20 + (payload.length + 8))) ipv4Id 0x4000
        hopLimit 17 checksum src dst ++ udp) 0 = 0x45 := rfl
      have htotal : (UInt16.ofNat (20 + (payload.length + 8))).toNat < 20 := by
        rw [UInt16.toNat_ofNat']
        omega
      rw [parseIpUdpPacket, if_neg (ne_nil_of_byteAt (by rw [hversion]; decide)), hversion,
        if_pos (by decide), parseIpv4_of_totalLength_lt udp htotal]

theorem buildUdpPacket_eq_ok {capacity : ℕ} {ipv4Id : UInt16} {hopLimit : UInt8}
    {packet : Bytes} (h : buildUdpPacket flow payload capacity ipv4Id hopLimit = .ok packet) :
    flow.protocol = 17 ∧ flow.source.family = flow.destination.family ∧
      payload.length + 8 ≤ 65535 ∧ udpPacket flow payload ipv4Id hopLimit = packet := by
  rw [buildUdpPacket] at h
  generalize (if flow.source.isIpv4 = true then 20 else 40) = headerLength at h
  split at h
  case isTrue => cases h
  case isFalse hflow =>
    obtain ⟨hprotocol, hfamily⟩ := not_or.1 hflow
    split at h
    case isTrue => cases h
    case isFalse hlen =>
      split at h
      case isTrue => cases h
      case isFalse =>
        exact ⟨not_not.1 hprotocol, not_not.1 hfamily, Nat.not_lt.1 hlen, Except.ok.inj h⟩

/-- A packet that is built is read back if its length fits the header: over IPv6 always,
    and over IPv4 up to 65507 bytes of payload. -/
theorem udpPacket_round_trip_iff {capacity : ℕ} {ipv4Id : UInt16} {hopLimit : UInt8}
    {packet : Bytes} (h : buildUdpPacket flow payload capacity ipv4Id hopLimit = .ok packet) :
    (∃ datagram, parseIpUdpPacket packet = .ok datagram ∧ datagram.flow = flow ∧
      datagram.payload = payload) ↔ (flow.source.isIpv4 = true → payload.length + 28 ≤ 65535) := by
  obtain ⟨hprotocol, hfamily, hlen, rfl⟩ := buildUdpPacket_eq_ok h
  refine ⟨?_, fun hfits => parseIpUdpPacket_udpPacket hprotocol hfamily hlen hfits ipv4Id hopLimit⟩
  rintro ⟨_, hparse, -⟩ hipv4
  by_contra hwraps
  simp [parseIpUdpPacket_of_wraps hfamily hlen hipv4 (Nat.not_le.1 hwraps)] at hparse

/-- Four bytes over IPv4. -/
theorem udpPacket_round_trip_four : ∃ packet datagram,
    buildUdpPacket ⟨.ipv4 #v[10, 0, 0, 1], .ipv4 #v[10, 0, 0, 2], 53, 1024, 17⟩ [1, 2, 3, 4] 64 =
        .ok packet ∧
      parseIpUdpPacket packet = .ok datagram ∧ datagram.payload = [1, 2, 3, 4] := by
  have hbuilt : buildUdpPacket ⟨.ipv4 #v[10, 0, 0, 1], .ipv4 #v[10, 0, 0, 2], 53, 1024, 17⟩
    [1, 2, 3, 4] 64 = .ok _ := rfl
  obtain ⟨datagram, hparse, -, hpayload⟩ := (udpPacket_round_trip_iff hbuilt).2 (by decide)
  exact ⟨_, datagram, hbuilt, hparse, hpayload⟩

/-- With 65508 bytes over IPv4, the length in the header is zero. -/
theorem udpPacket_length_wraps : ∃ packet,
    buildUdpPacket ⟨.ipv4 #v[10, 0, 0, 1], .ipv4 #v[10, 0, 0, 2], 53, 1024, 17⟩
        (.replicate 65508 0) 65536 = .ok packet ∧
      parseIpUdpPacket packet = .error .malformedIp := by
  refine ⟨udpPacket ⟨.ipv4 #v[10, 0, 0, 1], .ipv4 #v[10, 0, 0, 2], 53, 1024, 17⟩
    (.replicate 65508 0) 0 64, ?_, parseIpUdpPacket_of_wraps rfl ?_ rfl ?_ 0 64⟩
  · rw [buildUdpPacket, List.length_replicate]
    rfl
  · rw [List.length_replicate]
    decide
  · rw [List.length_replicate]
    decide

end Packet

end Netstack2
