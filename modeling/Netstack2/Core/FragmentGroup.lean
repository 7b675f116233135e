import Netstack2.Core.Dispatcher

/-!
# The fragments of an IPv6 datagram

The fragments of a datagram have to reach one shard, and one entry of its reassembler. Both
are chosen by the addresses, the identification and the protocol that the parser finds
in each of them.

The parser does not stop at the Fragment header. If a Destination Options header stands
behind it, the parser takes the bytes of every fragment for one, though only the first
one begins with it. Then the fragments stay together only if there is just one, and its
header is within the limits of the parser (`fragments_stay_together_iff`); with two, the
second one may be refused, or given away (`fragment_given_away`).
-/

namespace Netstack2

open List hiding Vector

/-! ## Fragment packets -/

/-- What may differ in the headers of the fragments of a datagram: the traffic class and
    the flow label, the hop limit, and what is reserved in the Fragment header. -/
structure Ipv6FragmentFields where
  b₀ : UInt8 := 0x60
  b₁ : UInt8 := 0
  b₂ : UInt8 := 0
  b₃ : UInt8 := 0
  hopLimit : UInt8 := 64
  reserved : UInt8 := 0
  reservedBits : Fin 4 := 0
  version : b₀ >>> 4 = 6 := by decide

/-- The packet with the piece of a datagram that begins at `offset`. -/
def ipv6FragmentPacket (fields : Ipv6FragmentFields) (src dst : Vector UInt8 16)
    (nextHeader : UInt8) (ident : UInt32) (offset : ℕ) (more : Bool) (piece : Bytes) : Bytes :=
  ipv6Header fields.b₀ fields.b₁ fields.b₂ fields.b₃ (.ofNat (8 + piece.length))
      Ipv6ExtHeaderType.fragment fields.hopLimit src dst ++
    ([nextHeader, fields.reserved] ++
      bigEndian 2 (offset + fields.reservedBits * 2 + if more then 1 else 0) ++
      bigEndian 4 ident.toNat ++ piece)

/-- The packets with the pieces of a datagram, the first one of which begins at `offset`. -/
def ipv6FragmentPackets (fields : ℕ → Ipv6FragmentFields) (src dst : Vector UInt8 16)
    (nextHeader : UInt8) (ident : UInt32) : ℕ → List Bytes → List Bytes
  | _, [] => []
  | offset, piece :: pieces =>
    ipv6FragmentPacket (fields offset) src dst nextHeader ident offset (!pieces.isEmpty)
        piece ::
      ipv6FragmentPackets fields src dst nextHeader ident (offset + piece.length) pieces

/-- A Destination Options header with the options `body`. -/
def destinationOptionsHeader (nextHeader : UInt8) (body : Bytes) : Bytes :=
  [nextHeader, .ofNat ((body.length + 2) / 8 - 1)] ++ body

/-- The part of a datagram that is cut: a segment, perhaps after a Destination Options header. -/
def fragmentablePart (protocol : UInt8) (segment : Bytes) : Option Bytes → Bytes
  | none => segment
  | some body => destinationOptionsHeader protocol body ++ segment

/-- What the Fragment headers of the datagram announce. -/
def fragmentNextHeader (protocol : UInt8) : Option Bytes → UInt8
  | none => protocol
  | some _ => Ipv6ExtHeaderType.destinationOptions

/-- A TCP or UDP segment that its parser accepts. -/
def IsSegment (src dst : Vector UInt8 16) (protocol : UInt8) (segment : Bytes) : Prop :=
  (protocol = 6 ∧ ∃ view, parseTcpSegment (.ipv6 src) (.ipv6 dst) segment 0 = .ok view) ∨
    (protocol = 17 ∧ ∃ datagram, parseUdpDatagram (.ipv6 src) (.ipv6 dst) segment true = .ok datagram)

/-- Lengths of non-empty pieces, cut at multiples of 8 bytes. -/
structure IsCut (lengths : List ℕ) : Prop where
  pos : ∀ length ∈ lengths, 0 < length
  aligned : ∀ length ∈ lengths.dropLast, length % 8 = 0

/-! ## Groups -/

/-- What the entry of the reassembler is chosen by. -/
def fragmentGroup (packet : Bytes) : Option (Vector UInt8 16 × Vector UInt8 16 × UInt8 × UInt32) :=
  (extractFragmentInfo packet).map fun info =>
    (info.srcIp, info.dstIp, info.protocol, info.identification)

/-- All packets are valid fragments, and have one group, one class and one owner. -/
def StayTogether (d : PacketDispatcher) (packets : List Bytes) : Prop :=
  (∀ packet ∈ packets, (extractFragmentInfo packet).isSome) ∧
    ∀ packet ∈ packets, ∀ packet' ∈ packets, fragmentGroup packet = fragmentGroup packet' ∧
      (d.classifyPacket packet).packetClass =
        (d.classifyPacket packet').packetClass ∧
      (d.classifyPacket packet).ownerShard =
        (d.classifyPacket packet').ownerShard

instance (d : PacketDispatcher) (packets : List Bytes) :
    Decidable (StayTogether d packets) :=
  inferInstanceAs (Decidable (_ ∧ _))

/-- Packets with the same group and the same classification stay together. -/
theorem StayTogether.of_forall {d : PacketDispatcher} {packets : List Bytes}
    (group : Vector UInt8 16 × Vector UInt8 16 × UInt8 × UInt32)
    (classification : PacketClassification)
    (h : ∀ packet ∈ packets, fragmentGroup packet = some group ∧
      d.classifyPacket packet = classification) : StayTogether d packets := by
  refine ⟨fun packet hpacket => ?_, fun packet hpacket packet' hpacket' => ?_⟩
  · have hsome : (fragmentGroup packet).isSome := by
      rw [(h packet hpacket).1]
      rfl
    rwa [fragmentGroup, Option.isSome_map] at hsome
  · rw [(h packet hpacket).1, (h packet hpacket).2, (h packet' hpacket').1, (h packet' hpacket').2]
    exact ⟨rfl, rfl, rfl⟩

/-! ## The walk behind the Fragment header -/

section Walk

variable {data : Bytes} {packetEnd rounds offset extTotalBytes : ℕ} {visited : Bytes}
  {result result' : Ipv6ParseResult}

/-- The end of a Destination Options header at `offset`. -/
def destinationOptionsEnd (data : Bytes) (offset : ℕ) : ℕ :=
  offset + ((byteAt data (offset + 1)).toNat + 1) * 8

/-- What the walk needs of a Destination Options header to accept it. -/
structure OptionsInOrder (data : Bytes) (packetEnd extTotalBytes offset : ℕ) : Prop where
  short : extTotalBytes + (destinationOptionsEnd data offset - offset) ≤ maxIpv6ExtHeaderBytes
  inside : destinationOptionsEnd data offset ≤ packetEnd
  options : (parseIpv6Options ((data.drop (offset + 2)).take
    (destinationOptionsEnd data offset - offset - 2))).isSome

/-- The walk takes a Destination Options header that is in order for what it says. -/
theorem walkExtensionHeaders_destinationOptions
    (hlen : packetEnd = data.length) (hnew : Ipv6ExtHeaderType.destinationOptions ∉ visited)
    (hfew : visited.length < maxIpv6ExtHeaders)
    (horder : OptionsInOrder data packetEnd extTotalBytes offset)
    (hupper : isExtensionHeader (byteAt data offset) = false) :
    ∃ options payloadOffset payload, walkExtensionHeaders data packetEnd (rounds + 2)
        Ipv6ExtHeaderType.destinationOptions offset extTotalBytes visited result = .ok {
      result with
      finalNextHeader := byteAt data offset
      extHeaderCount := result.extHeaderCount + 1
      destOptions := options
      payloadOffset := payloadOffset
      payload := payload } := by
  obtain ⟨hshort, hinside, hoptions⟩ := horder
  rw [destinationOptionsEnd, Nat.add_sub_cancel_left] at hshort hoptions
  rw [destinationOptionsEnd] at hinside
  obtain ⟨options, hoptions⟩ := Option.isSome_iff_exists.1 hoptions
  have hbody : ∀ body, parseIpv6Options body = some options →
      parseExtHeaderBody Ipv6ExtHeaderType.destinationOptions body result =
        .ok { result with destOptions := options } := by
    intro body hparse
    rw [parseExtHeaderBody, if_neg (by decide), if_neg (by decide), if_pos rfl, hparse]
  rw [walkExtensionHeaders, if_neg (by decide), if_neg fun h => absurd h.1 (by decide), if_neg hnew,
    if_neg (Nat.not_le.2 hfew), if_neg (by omega)]
  dsimp only
  rw [if_neg (by decide : ¬Ipv6ExtHeaderType.destinationOptions = Ipv6ExtHeaderType.fragment),
    if_neg (Nat.not_lt.2 hshort), if_neg (by omega),
    if_neg (by decide : ¬Ipv6ExtHeaderType.destinationOptions = Ipv6ExtHeaderType.fragment),
    hbody _ hoptions]
  dsimp only
  rw [walkExtensionHeaders, if_pos hupper]
  exact ⟨_, _, _, rfl⟩

/-- If the walk succeeds, the Destination Options header was in order, and the protocol is
    what it says. -/
theorem optionsInOrder_of_walkExtensionHeaders
    (hupper : isExtensionHeader (byteAt data offset) = false)
    (h : walkExtensionHeaders data packetEnd (rounds + 2) Ipv6ExtHeaderType.destinationOptions
      offset extTotalBytes visited result = .ok result') :
    OptionsInOrder data packetEnd extTotalBytes offset ∧
      result'.finalNextHeader = byteAt data offset := by
  rw [walkExtensionHeaders, if_neg (by decide), if_neg fun h => absurd h.1 (by decide)] at h
  split at h
  case isTrue => cases h
  split at h
  case isTrue => cases h
  split at h
  case isTrue => cases h
  dsimp only at h
  rw [if_neg (by decide : ¬Ipv6ExtHeaderType.destinationOptions = Ipv6ExtHeaderType.fragment),
    if_neg (by decide : ¬Ipv6ExtHeaderType.destinationOptions = Ipv6ExtHeaderType.fragment)] at h
  split at h
  case isTrue => cases h
  case isFalse hshort =>
  split at h
  case isTrue => cases h
  case isFalse hinside =>
  rw [parseExtHeaderBody, if_neg (by decide), if_neg (by decide), if_pos rfl] at h
  cases hoptions : parseIpv6Options ((data.drop (offset + 2)).take
      (((byteAt data (offset + 1)).toNat + 1) * 8 - 2)) with
  | none => simp [hoptions] at h
  | some =>
    rw [hoptions] at h
    dsimp only at h
    rw [walkExtensionHeaders, if_pos hupper] at h
    obtain rfl := Except.ok.inj h
    refine ⟨⟨?_, ?_, ?_⟩, rfl⟩
    · rw [destinationOptionsEnd, Nat.add_sub_cancel_left]
      exact Nat.not_lt.1 hshort
    · rw [destinationOptionsEnd]
      exact Nat.not_lt.1 (not_or.1 hinside).2
    · rw [destinationOptionsEnd, Nat.add_sub_cancel_left, hoptions]
      rfl

end Walk

/-! ## One fragment packet -/

section Packet

variable {d : PacketDispatcher} {fields : Ipv6FragmentFields} {src dst : Vector UInt8 16}
  {nextHeader : UInt8} {ident : UInt32} {offset : ℕ} {more : Bool} {piece : Bytes}

theorem length_ipv6FragmentPacket :
    (ipv6FragmentPacket fields src dst nextHeader ident offset more piece).length =
      48 + piece.length := by
  simp only [ipv6FragmentPacket, length_append, length_ipv6Header, length_bigEndian,
    length_cons, length_nil]
  omega

theorem drop_ipv6FragmentPacket :
    (ipv6FragmentPacket fields src dst nextHeader ident offset more piece).drop 48 =
      piece := by
  rw [ipv6FragmentPacket, ← append_assoc]
  exact drop_left' (by simp [length_ipv6Header])

theorem byteAt_ipv6FragmentPacket (i : ℕ) :
    byteAt (ipv6FragmentPacket fields src dst nextHeader ident offset more piece) (48 + i) =
      byteAt piece i := by
  rw [← byteAt_drop, drop_ipv6FragmentPacket]

theorem readIpv6Header_ipv6FragmentPacket :
    (readIpv6Header (ipv6FragmentPacket fields src dst nextHeader ident offset more
        piece)).srcIp = src ∧
      (readIpv6Header (ipv6FragmentPacket fields src dst nextHeader ident offset more
        piece)).dstIp = dst := by
  rw [ipv6FragmentPacket, readIpv6Header_ipv6Header]
  exact ⟨rfl, rfl⟩

theorem identification_ipv6FragmentPacket (packetEnd : ℕ) :
    (readFragmentHeader (ipv6FragmentPacket fields src dst nextHeader ident offset more
      piece) packetEnd 40).identification = ident := by
  rw [readFragmentHeader, ipv6FragmentPacket]
  dsimp only
  rw [← drop_drop (i := 4) (j := 40), drop_left' length_ipv6Header, append_assoc,
    drop_left' (by simp), read32_bigEndian]

variable {packet : Bytes}

section

variable (hpacket : ipv6FragmentPacket fields src dst nextHeader ident offset more piece = packet)

include hpacket

theorem version_ipv6FragmentPacket : byteAt packet 0 >>> 4 = 6 := hpacket ▸ fields.version

/-- The walk goes on behind the Fragment header, in the piece. -/
theorem parseIpv6_ipv6FragmentPacket (hlen : 8 + piece.length ≤ 65535) :
    parseIpv6 packet = walkExtensionHeaders packet (48 + piece.length) 8 nextHeader 48 8
      [Ipv6ExtHeaderType.fragment] {
        header := readIpv6Header packet
        fragment := some (readFragmentHeader packet (48 + piece.length) 40)
        extHeaderCount := 1 } := by
  have hlength : packet.length = 48 + piece.length := hpacket ▸ length_ipv6FragmentPacket
  have hnext : byteAt packet 40 = nextHeader := by
    rw [← hpacket, ipv6FragmentPacket, byteAt_append_right (by rw [length_ipv6Header]),
      length_ipv6Header]
    rfl
  have hparse : parseIpv6 packet = walkExtensionHeaders packet (48 + piece.length)
      (maxIpv6ExtHeaders + 1) Ipv6ExtHeaderType.fragment 40 0 []
      { header := readIpv6Header packet } := by
    have hrest : ([nextHeader, fields.reserved] ++
        bigEndian 2 (offset + fields.reservedBits * 2 + if more then 1 else 0) ++
        bigEndian 4 ident.toNat ++ piece).length = 8 + piece.length := by
      simp only [length_append, length_bigEndian, length_cons, length_nil]
    rw [← hpacket, ipv6FragmentPacket, parseIpv6_ipv6Header fields.version
      (by rw [UInt16.toNat_ofNat', Nat.mod_eq_of_lt (by omega), hrest])
      (ne_nil_of_length_pos (by omega)), hrest, ← add_assoc]
  rw [hparse, walkExtensionHeaders, if_neg (by decide), if_neg (by rw [hlength]; omega),
    if_neg not_mem_nil, if_neg (by decide), if_neg (by rw [hlength]; omega)]
  dsimp only
  rw [if_pos rfl, if_pos rfl, if_neg (by decide), if_neg (by rw [hlength]; omega), parseExtHeaderBody,
    if_neg (by decide), if_neg (by decide), if_neg (by decide)]
  rw [hnext]
  rfl

/-- The group and the class of a fragment that is parsed, by the protocol that was found. -/
theorem group_of_parseIpv6 {ip : Ipv6ParseResult} (hip : parseIpv6 packet = .ok ip)
    (hheader : ip.header = readIpv6Header packet)
    (hfragment : ip.fragment = some (readFragmentHeader packet (48 + piece.length) 40)) :
    fragmentGroup packet = some (src, dst, ip.finalNextHeader, ident) ∧
      d.classifyPacket packet = d.classifyFragment {
        srcIp := src
        dstIp := dst
        ipVersion := 6
        protocol := ip.finalNextHeader
        identification := ident } := by
  have hversion := version_ipv6FragmentPacket hpacket
  have hne : packet ≠ [] := ne_nil_of_byteAt fun hzero => by
    rw [hzero] at hversion
    exact absurd hversion (by decide)
  have hid : (readFragmentHeader packet (48 + piece.length) 40).identification = ident :=
    hpacket ▸ identification_ipv6FragmentPacket _
  obtain ⟨hsrc, hdst⟩ : (readIpv6Header packet).srcIp = src ∧ (readIpv6Header packet).dstIp = dst :=
    hpacket ▸ readIpv6Header_ipv6FragmentPacket
  constructor
  · rw [fragmentGroup, extractFragmentInfo, if_neg hne, if_neg (by rw [hversion]; decide),
      if_pos hversion, hip]
    dsimp only
    rw [hfragment, hheader, hsrc, hdst, Option.map_some, Option.map_some, hid]
  · rw [PacketDispatcher.classifyPacket, if_neg hne, if_neg (by rw [hversion]; decide),
      if_pos hversion, hip]
    dsimp only
    rw [hfragment, hheader, hsrc, hdst]
    dsimp only
    rw [hid]

/-- Without an extension header behind the Fragment header, the piece is not looked at. -/
theorem group_of_upper (hlen : 8 + piece.length ≤ 65535)
    (hupper : isExtensionHeader nextHeader = false)
    (hno : nextHeader ≠ Ipv6ExtHeaderType.noNextHeader) :
    fragmentGroup packet = some (src, dst, nextHeader, ident) ∧
      d.classifyPacket packet = d.classifyFragment {
        srcIp := src
        dstIp := dst
        ipVersion := 6
        protocol := nextHeader
        identification := ident } := by
  have hip := parseIpv6_ipv6FragmentPacket hpacket hlen
  rw [walkExtensionHeaders_upper hupper hno] at hip
  exact group_of_parseIpv6 hpacket hip rfl rfl

end

section Options

variable (hpacket : ipv6FragmentPacket fields src dst Ipv6ExtHeaderType.destinationOptions
  ident offset more piece = packet)
include hpacket

/-- What is asked of the header at the begin of the piece. -/
theorem optionsInOrder_iff : OptionsInOrder packet (48 + piece.length) 8 48 ↔
    ((byteAt piece 1).toNat + 1) * 8 + 8 ≤ 1024 ∧
      ((byteAt piece 1).toNat + 1) * 8 ≤ piece.length ∧
      (parseIpv6Options ((piece.drop 2).take (((byteAt piece 1).toNat + 1) * 8 - 2))).isSome := by
  have hbyte : byteAt packet (48 + 1) = byteAt piece 1 := hpacket ▸ byteAt_ipv6FragmentPacket 1
  have hdrop : packet.drop (48 + 2) = piece.drop 2 := by
    rw [← drop_drop, ← hpacket, drop_ipv6FragmentPacket]
  have hend : destinationOptionsEnd packet 48 = 48 + ((byteAt piece 1).toNat + 1) * 8 := by
    rw [destinationOptionsEnd, hbyte]
  constructor
  · rintro ⟨hshort, hinside, hoptions⟩
    rw [hend, Nat.add_sub_cancel_left] at hshort hoptions
    rw [hend] at hinside
    rw [hdrop] at hoptions
    exact ⟨by rw [maxIpv6ExtHeaderBytes] at hshort; omega, by omega, hoptions⟩
  · rintro ⟨hshort, hinside, hoptions⟩
    refine ⟨?_, ?_, ?_⟩
    · rw [hend, Nat.add_sub_cancel_left, maxIpv6ExtHeaderBytes]
      omega
    · rw [hend]
      omega
    · rwa [hend, Nat.add_sub_cancel_left, hdrop]

/-- The begin of the piece is taken for a Destination Options header. -/
theorem group_of_options (hlen : 8 + piece.length ≤ 65535)
    (horder : OptionsInOrder packet (48 + piece.length) 8 48)
    (hupper : isExtensionHeader (byteAt piece 0) = false) :
    fragmentGroup packet = some (src, dst, byteAt piece 0, ident) := by
  have hbyte : byteAt packet 48 = byteAt piece 0 := hpacket ▸ byteAt_ipv6FragmentPacket 0
  have hlength : packet.length = 48 + piece.length := hpacket ▸ length_ipv6FragmentPacket
  have hip := parseIpv6_ipv6FragmentPacket hpacket hlen
  obtain ⟨options, _, payload, hwalk⟩ := walkExtensionHeaders_destinationOptions hlength.symm
    (by decide : Ipv6ExtHeaderType.destinationOptions ∉ [Ipv6ExtHeaderType.fragment]) (by decide)
    horder (hbyte ▸ hupper)
  rw [hwalk, hbyte] at hip
  exact (@group_of_parseIpv6 ⟨0⟩ _ _ _ _ _ _ _ _ _ hpacket _ hip rfl rfl).1

/-- If the fragment is valid, its protocol is the first byte of the piece. -/
theorem group_of_isSome (hlen : 8 + piece.length ≤ 65535)
    (hupper : isExtensionHeader (byteAt piece 0) = false) (h : (extractFragmentInfo packet).isSome) :
    OptionsInOrder packet (48 + piece.length) 8 48 ∧
      fragmentGroup packet = some (src, dst, byteAt piece 0, ident) := by
  have hbyte : byteAt packet 48 = byteAt piece 0 := hpacket ▸ byteAt_ipv6FragmentPacket 0
  have hversion := version_ipv6FragmentPacket hpacket
  have hne : packet ≠ [] := by
    rintro rfl
    cases h
  rw [extractFragmentInfo, if_neg hne, if_neg (by rw [hversion]; decide), if_pos hversion] at h
  cases hip : parseIpv6 packet with
  | error => simp [hip] at h
  | ok =>
    rw [parseIpv6_ipv6FragmentPacket hpacket hlen] at hip
    obtain ⟨horder, -⟩ := optionsInOrder_of_walkExtensionHeaders (hbyte ▸ hupper) hip
    exact ⟨horder, group_of_options hpacket hlen horder hupper⟩

end Options

end Packet

/-! ## The fragments of a datagram -/

theorem mem_ipv6FragmentPackets {fields : ℕ → Ipv6FragmentFields} {src dst : Vector UInt8 16}
    {nextHeader : UInt8} {ident : UInt32} {offset : ℕ} {pieces : List Bytes} {packet : Bytes}
    (h : packet ∈ ipv6FragmentPackets fields src dst nextHeader ident offset pieces) :
    ∃ piece ∈ pieces, ∃ offset' more, ipv6FragmentPacket (fields offset') src dst nextHeader
      ident offset' more piece = packet := by
  induction pieces generalizing offset with
  | nil => cases h
  | cons piece _ ih =>
    rcases mem_cons.1 h with rfl | hrest
    · exact ⟨piece, mem_cons_self, offset, _, rfl⟩
    · obtain ⟨piece', hpiece', hpacket⟩ := ih hrest
      exact ⟨piece', mem_cons_of_mem _ hpiece', hpacket⟩

/-- The protocol of a segment is no extension header. -/
theorem IsSegment.upper {src dst : Vector UInt8 16} {protocol : UInt8} {segment : Bytes}
    (h : IsSegment src dst protocol segment) :
    isExtensionHeader protocol = false ∧ protocol ≠ Ipv6ExtHeaderType.noNextHeader := by
  rcases h with ⟨rfl, -⟩ | ⟨rfl, -⟩ <;> decide

section Options

variable {body segment : Bytes} {protocol : UInt8}

theorem length_destinationOptionsHeader :
    (destinationOptionsHeader protocol body).length = body.length + 2 := by
  rw [destinationOptionsHeader, length_append]
  exact add_comm ..

/-- The length that a header gives is its own. -/
theorem size_destinationOptionsHeader (haligned : (body.length + 2) % 8 = 0)
    (hmax : body.length + 2 ≤ 2048) :
    ((UInt8.ofNat ((body.length + 2) / 8 - 1)).toNat + 1) * 8 = body.length + 2 := by
  rw [UInt8.toNat_ofNat', Nat.mod_eq_of_lt (by omega)]
  omega

/-- A single fragment is parsed if its header is within the limits. -/
theorem optionsInOrder_whole_iff {fields : Ipv6FragmentFields} {src dst : Vector UInt8 16}
    {ident : UInt32} {offset : ℕ} {more : Bool} {packet : Bytes}
    (haligned : (body.length + 2) % 8 = 0) (hmax : body.length + 2 ≤ 2048)
    (hpacket : ipv6FragmentPacket fields src dst Ipv6ExtHeaderType.destinationOptions
      ident offset more (destinationOptionsHeader protocol body ++ segment) = packet) :
    OptionsInOrder packet (48 + (destinationOptionsHeader protocol body ++ segment).length) 8 48 ↔
      body.length + 10 ≤ maxIpv6ExtHeaderBytes ∧ (parseIpv6Options body).isSome := by
  have hbyte : byteAt (destinationOptionsHeader protocol body ++ segment) 1 =
    UInt8.ofNat ((body.length + 2) / 8 - 1) := rfl
  have hdrop : (destinationOptionsHeader protocol body ++ segment).drop 2 = body ++ segment := rfl
  rw [optionsInOrder_iff hpacket, hbyte, size_destinationOptionsHeader haligned hmax, hdrop,
    Nat.add_sub_cancel, take_left, length_append, length_destinationOptionsHeader,
    maxIpv6ExtHeaderBytes]
  exact ⟨fun ⟨hshort, _, hoptions⟩ => ⟨by omega, hoptions⟩,
    fun ⟨hshort, hoptions⟩ => ⟨by omega, by omega, hoptions⟩⟩

end Options

/-- There is a datagram of every length whose bytes at multiples of 8 are no protocol of
    an extension header, nor of a segment. -/
theorem exists_segment (src dst : Vector UInt8 16) {n : ℕ} (hmin : 8 ≤ n) (hmax : n ≤ 65535) :
    ∃ segment, IsSegment src dst 17 segment ∧ segment.length = n ∧
      ∀ k, k % 8 = 0 → k < n → byteAt segment k = 255 := by
  let flow : FlowKey := ⟨.ipv6 src, .ipv6 dst, 0xffff, 0, 17⟩
  let payload : Bytes := .replicate (n - 8) 255
  have hpayload : payload.length = n - 8 := length_replicate
  obtain ⟨datagram, hparse, -⟩ := @parseUdpDatagram_udpChecksum flow payload rfl rfl (by omega)
  refine ⟨_, .inr ⟨rfl, datagram, hparse⟩, ?_, ?_⟩
  · rw [length_udpDatagram]
    omega
  · intro k haligned hk
    generalize udpChecksum flow _ = checksum
    rcases Nat.eq_zero_or_pos k with rfl | hpos
    · exact (by decide : UInt8.ofNat ((0xffff : UInt16).toNat / 256) = 255)
    · have hfront : (bigEndian 2 flow.sourcePort.toNat ++ bigEndian 2 flow.destinationPort.toNat ++
        bigEndian 2 (UInt16.ofNat (payload.length + 8)).toNat ++
        bigEndian 2 checksum.toNat).length = 8 := rfl
      rw [udpDatagram, byteAt_append_right (by rw [hfront]; omega), hfront, byteAt,
        getD_eq_getElem?_getD, getElem?_replicate_of_lt (by omega)]
      rfl

section Fragments

variable (d : PacketDispatcher) (fields : ℕ → Ipv6FragmentFields)
  (src dst : Vector UInt8 16) (ident : UInt32)

/-- The fragments of a datagram whose lengths are `lengths`. -/
def datagramFragments (options : Option Bytes) (lengths : List ℕ) (protocol : UInt8)
    (segment : Bytes) : List Bytes :=
  ipv6FragmentPackets fields src dst (fragmentNextHeader protocol options) ident 0
    (lengths.splitLengths (fragmentablePart protocol segment options))

variable {d fields src dst ident} {lengths : List ℕ}

/-- Without options, the fragments stay together, whatever is in them. -/
theorem stayTogether_of_none (hfits : ∀ length ∈ lengths, length ≤ 65527) {protocol : UInt8}
    (hupper : isExtensionHeader protocol = false)
    (hno : protocol ≠ Ipv6ExtHeaderType.noNextHeader) (segment : Bytes) :
    StayTogether d
      (datagramFragments fields src dst ident none lengths protocol segment) := by
  refine .of_forall (src, dst, protocol, ident)
    (d.classifyFragment ⟨src, dst, 6, protocol, ident⟩) fun packet hmem => ?_
  obtain ⟨piece, hpiece, offset, more, hpacket⟩ := mem_ipv6FragmentPackets hmem
  have hlen : piece.length ≤ 65527 := length_mem_splitLengths _ _ _ hfits piece hpiece
  exact group_of_upper hpacket (by omega) hupper hno

variable {body : Bytes} {length : ℕ} {segment : Bytes} {protocol : UInt8}

/-- A single fragment with options is a group of its own if it is parsed. -/
theorem stayTogether_whole_iff (haligned : (body.length + 2) % 8 = 0)
    (hmax : body.length + 2 ≤ 2048) (hsum : length = body.length + 2 + segment.length)
    (hfits : length ≤ 65527) (hupper : isExtensionHeader protocol = false) :
    StayTogether d
        (datagramFragments fields src dst ident (some body) [length] protocol segment) ↔
      body.length + 10 ≤ maxIpv6ExtHeaderBytes ∧ (parseIpv6Options body).isSome := by
  have hlength : (destinationOptionsHeader protocol body ++ segment).length = length := by
    rw [length_append, length_destinationOptionsHeader, hsum]
  have hpieces : [length].splitLengths (fragmentablePart protocol segment (some body)) =
      [destinationOptionsHeader protocol body ++ segment] := by
    rw [splitLengths_cons, splitLengths_nil, fragmentablePart, take_of_length_le (le_of_eq hlength)]
  have hbyte : byteAt (destinationOptionsHeader protocol body ++ segment) 0 = protocol := rfl
  rw [datagramFragments, hpieces, fragmentNextHeader, ipv6FragmentPackets, ipv6FragmentPackets]
  generalize hpacket : ipv6FragmentPacket _ src dst _ ident _ _
    (destinationOptionsHeader protocol body ++ segment) = packet
  rw [← optionsInOrder_whole_iff haligned hmax hpacket]
  constructor
  · intro h
    exact (group_of_isSome hpacket (by omega) (hbyte ▸ hupper) (h.1 packet mem_cons_self)).1
  · intro horder
    have hgroup := group_of_options hpacket (by omega) horder (hbyte ▸ hupper)
    refine .of_forall (src, dst, protocol, ident) (d.classifyPacket packet)
      fun packet' hpacket' => ?_
    obtain rfl := mem_singleton.1 hpacket'
    exact ⟨hgroup, rfl⟩

/-- With options and two fragments or more, there is a datagram whose second fragment does
    not go with the first one. -/
theorem exists_not_stayTogether {length' : ℕ} (haligned : (body.length + 2) % 8 = 0)
    (hmax : body.length + 2 ≤ 2048) (hcut : IsCut (length :: length' :: lengths)) {n : ℕ}
    (hmin : 8 ≤ n) (hn : n ≤ 65535) (hsum : (length :: length' :: lengths).sum = body.length + 2 + n)
    (hfits : ∀ l ∈ length :: length' :: lengths, l ≤ 65527) :
    ∃ segment, IsSegment src dst 17 segment ∧ segment.length = n ∧
      ¬StayTogether d (datagramFragments fields src dst ident (some body)
        (length :: length' :: lengths) 17 segment) := by
  obtain ⟨segment, hsegment, hlength, hbytes⟩ := exists_segment src dst hmin hn
  refine ⟨segment, hsegment, hlength, fun htogether => ?_⟩
  have hpos : 0 < length := hcut.pos length mem_cons_self
  have hpos' : 0 < length' := hcut.pos length' (mem_cons_of_mem _ mem_cons_self)
  have hlengthaligned : length % 8 = 0 := hcut.aligned length (by simp)
  have hle : length ≤ 65527 := hfits length mem_cons_self
  have hle' : length' ≤ 65527 := hfits length' (mem_cons_of_mem _ mem_cons_self)
  rw [sum_cons, sum_cons] at hsum
  rw [datagramFragments, splitLengths_cons, splitLengths_cons, fragmentNextHeader,
    ipv6FragmentPackets, ipv6FragmentPackets, fragmentablePart] at htogether
  generalize hcontent : destinationOptionsHeader 17 body ++ segment = content at htogether
  generalize hpacket : ipv6FragmentPacket _ src dst _ ident _ _
    (content.take length) = packet at htogether
  generalize hpacket' : ipv6FragmentPacket _ src dst _ ident _ _
    ((content.drop length).take length') = packet' at htogether
  obtain ⟨hvalid, hgroups⟩ := htogether
  -- the first fragment is taken for a header that is the one that was meant
  have hfirst : byteAt (content.take length) 0 = 17 := by
    rw [byteAt_take hpos, ← hcontent]
    rfl
  obtain ⟨horder, hgroup⟩ := group_of_isSome hpacket
    (by have := content.length_take_le length; omega) (hfirst ▸ by decide)
    (hvalid packet mem_cons_self)
  have hinside := ((optionsInOrder_iff hpacket).1 horder).2.1
  have hsize : byteAt (content.take length) 1 = UInt8.ofNat ((body.length + 2) / 8 - 1) := by
    rw [byteAt_take (by omega), ← hcontent]
    rfl
  rw [hsize, size_destinationOptionsHeader haligned hmax] at hinside
  have hheader : body.length + 2 ≤ length := le_trans hinside (content.length_take_le length)
  -- so the second one begins in the segment
  have hsecond : byteAt ((content.drop length).take length') 0 = 255 := by
    rw [byteAt_take hpos', byteAt_drop, ← hcontent, byteAt_append_right
      (by rw [length_destinationOptionsHeader]; omega), length_destinationOptionsHeader]
    exact hbytes _ (by omega) (by omega)
  obtain ⟨-, hgroup'⟩ := group_of_isSome hpacket'
    (by have := (content.drop length).length_take_le length'; omega) (hsecond ▸ by decide)
    (hvalid packet' (mem_cons_of_mem _ mem_cons_self))
  have hsame := (hgroups packet mem_cons_self packet' (mem_cons_of_mem _ mem_cons_self)).1
  rw [hgroup, hgroup', hfirst, hsecond] at hsame
  exact absurd (congrArg (fun group => group.map fun g => g.2.2.1) hsame)
    (by decide : ¬(some (17 : UInt8) = some 255))

end Fragments

/-- The fragments of the datagrams of a shape stay together, whatever is in them, if there
    are no options, or just one fragment whose options are within the limits. -/
theorem fragments_stay_together_iff (d : PacketDispatcher) (fields : ℕ → Ipv6FragmentFields)
    (src dst : Vector UInt8 16) (ident : UInt32) {options : Option Bytes}
    (hoptions : ∀ body ∈ options, (body.length + 2) % 8 = 0 ∧ body.length + 2 ≤ 2048)
    {lengths : List ℕ} (hcut : IsCut lengths) (hfits : ∀ length ∈ lengths, length ≤ 65527) {n : ℕ}
    (hmin : 8 ≤ n) (hmax : n ≤ 65535)
    (hsum : lengths.sum = (options.elim 0 fun body => body.length + 2) + n) :
    (∀ protocol segment, IsSegment src dst protocol segment → segment.length = n →
      StayTogether d
        (datagramFragments fields src dst ident options lengths protocol segment)) ↔
    ∀ body ∈ options, lengths.length = 1 ∧ body.length + 10 ≤ maxIpv6ExtHeaderBytes ∧
      (parseIpv6Options body).isSome := by
  cases options with
  | none =>
    refine ⟨fun _ body hbody => (Option.not_mem_none body hbody).elim,
      fun _ protocol segment hsegment _ => ?_⟩
    exact stayTogether_of_none hfits hsegment.upper.1 hsegment.upper.2 segment
  | some body =>
    obtain ⟨haligned, hbody⟩ := hoptions body rfl
    rw [Option.elim_some] at hsum
    match lengths, hsum with
    | [], hsum =>
      rw [sum_nil] at hsum
      omega
    | [length], hsum =>
      rw [sum_singleton] at hsum
      have hle := hfits length mem_cons_self
      constructor
      · rintro h body' ⟨⟩
        obtain ⟨segment, hsegment, hlength, -⟩ := exists_segment src dst hmin hmax
        exact ⟨rfl, (stayTogether_whole_iff haligned hbody (hlength ▸ hsum) hle
          hsegment.upper.1).1 (h 17 segment hsegment hlength)⟩
      · intro h protocol segment hsegment hlength
        exact (stayTogether_whole_iff haligned hbody (hlength ▸ hsum) hle hsegment.upper.1).2
          (h body rfl).2
    | length :: length' :: lengths, hsum =>
      constructor
      · intro h
        obtain ⟨segment, hsegment, hlength, hapart⟩ :=
          exists_not_stayTogether haligned hbody hcut hmin hmax hsum hfits
        exact absurd (h 17 segment hsegment hlength) hapart
      · intro h
        exact absurd (h body rfl).1 (by simp)

/-- A datagram of 8 bytes after an option that pads, in a single fragment. -/
theorem fragments_stay_together_single :
    StayTogether ⟨4⟩ (datagramFragments (fun _ => {}) (.replicate 16 1) (.replicate 16 2) 1
      (some [1, 4, 0, 0, 0, 0]) [16] 17 [0, 53, 4, 0, 0, 8, 227, 145]) := by
  have hsegment : IsSegment (.replicate 16 1) (.replicate 16 2) 17 [0, 53, 4, 0, 0, 8, 227, 145] :=
    .inr ⟨rfl, _, rfl⟩
  refine (fragments_stay_together_iff ⟨4⟩ (fun _ => {}) (.replicate 16 1) (.replicate 16 2) 1 ?_ ?_
    (by decide) (n := 8) (by decide) (by decide) rfl).2 ?_ 17 _ hsegment rfl
  · rintro body ⟨⟩
    decide
  · exact ⟨by decide, by decide⟩
  · rintro body ⟨⟩
    decide

/-- A datagram with an option that pads, cut behind the header of UDP. The payload looks
    like an option that pads before TCP, so the second fragment is put to another datagram. -/
theorem fragment_given_away :
    IsSegment (.replicate 16 1) (.replicate 16 2) 17
        [0, 53, 4, 0, 0, 16, 220, 125, 6, 0, 1, 4, 0, 0, 0, 0] ∧
      ¬StayTogether ⟨4⟩ (datagramFragments (fun _ => {}) (.replicate 16 1) (.replicate 16 2) 1
        (some [1, 4, 0, 0, 0, 0]) [16, 8] 17
        [0, 53, 4, 0, 0, 16, 220, 125, 6, 0, 1, 4, 0, 0, 0, 0]) :=
  ⟨.inr ⟨rfl, _, rfl⟩, by decide +kernel⟩

end Netstack2
