import Netstack2.Ip.Checksum

/-!
# IPv6 headers

The parser of IPv6 packets. It reads the fixed header and goes through the extension
headers that follow (`walkExtensionHeaders`), until a header comes that is none of
those: the upper-layer protocol. A Fragment header is one of them, and the parser goes
on behind it, into the fragment.

The header that the builders of packets write is read back
(`parseIpv6_ipv6Header`, `walkExtensionHeaders_upper`).
-/

namespace Netstack2

/-! ## Extension headers -/

/-- An option of a Hop-by-Hop or Destination Options header. -/
structure Ipv6Option where
  type : UInt8
  data : Bytes
  deriving DecidableEq

structure Ipv6RoutingHeader where
  routingType : UInt8 := 0
  segmentsLeft : UInt8 := 0
  typeSpecificData : Bytes := []
  deriving DecidableEq

namespace Ipv6OptionType

def pad1 : UInt8 := 0
def jumboPayload : UInt8 := 0xc2

end Ipv6OptionType

def maxIpv6Options : ℕ := 64

/-- The options of `data`, of which there may be at most `limit`. -/
def parseIpv6OptionsFrom : ℕ → Bytes → Option (List Ipv6Option)
  | _, [] => some []
  | 0, _ :: _ => none
  | limit + 1, type :: rest =>
    if type = Ipv6OptionType.pad1 then
      -- a single byte, without a length
      (parseIpv6OptionsFrom limit rest).map ({ type := type, data := [] } :: ·)
    else match rest with
      | [] => none
      | length :: body =>
        if body.length < length.toNat then none
        else (parseIpv6OptionsFrom limit (body.drop length.toNat)).map
          ({ type := type, data := body.take length.toNat } :: ·)

def parseIpv6Options (data : Bytes) : Option (List Ipv6Option) :=
  parseIpv6OptionsFrom maxIpv6Options data

def parseIpv6RoutingHeader : Bytes → Ipv6RoutingHeader
  | routingType :: segmentsLeft :: rest =>
    { routingType := routingType, segmentsLeft := segmentsLeft, typeSpecificData := rest }
  | _ => {}

/-- The length that a Jumbo Payload option gives; the first one counts. -/
def findJumboPayload : List Ipv6Option → Option UInt32
  | [] => none
  | option :: options =>
    if option.type = Ipv6OptionType.jumboPayload then
      if option.data.length ≠ 4 then none else some (read32 option.data)
    else findJumboPayload options

/-! ## The parser -/

namespace Ipv6ExtHeaderType

def hopByHop : UInt8 := 0
def routing : UInt8 := 43
def fragment : UInt8 := 44
def noNextHeader : UInt8 := 59
def destinationOptions : UInt8 := 60

end Ipv6ExtHeaderType

def isExtensionHeader (nh : UInt8) : Bool :=
  nh == Ipv6ExtHeaderType.hopByHop || nh == Ipv6ExtHeaderType.routing ||
    nh == Ipv6ExtHeaderType.fragment || nh == Ipv6ExtHeaderType.destinationOptions

structure Ipv6Header where
  trafficClass : UInt8
  flowLabel : UInt32
  payloadLength : UInt16
  nextHeader : UInt8
  hopLimit : UInt8
  srcIp : Vector UInt8 16
  dstIp : Vector UInt8 16
  deriving DecidableEq

/-- A Fragment header, and what follows it. -/
structure Ipv6Fragment where
  /-- In units of 8 bytes. -/
  offset : UInt16
  more : Bool
  identification : UInt32
  payload : Bytes
  deriving DecidableEq

inductive Ipv6ParseError
  | tooShort
  | badVersion
  | truncatedPayload
  | truncatedExtHeader
  | extHeaderLoop
  | extHeaderTooMany
  | extHeaderTooLong
  | badExtHeaderOption
  | badJumboPayload

structure Ipv6ParseResult where
  header : Ipv6Header
  /-- The upper-layer protocol. -/
  finalNextHeader : UInt8 := 0
  extHeaderCount : ℕ := 0
  fragment : Option Ipv6Fragment := none
  payloadOffset : ℕ := 0
  payload : Bytes := []
  hopbyhopOptions : List Ipv6Option := []
  destOptions : List Ipv6Option := []
  routingHeader : Option Ipv6RoutingHeader := none
  jumboPayloadLength : Option UInt32 := none

def maxIpv6ExtHeaders : ℕ := 8

def maxIpv6ExtHeaderBytes : ℕ := 1024

def readIpv6Header (data : Bytes) : Ipv6Header where
  trafficClass := (byteAt data 0 &&& 0x0f) <<< 4 ||| byteAt data 1 >>> 4
  flowLabel := (byteAt data 1 &&& 0x0f).toUInt32 <<< 16 ||| (byteAt data 2).toUInt32 <<< 8 |||
    (byteAt data 3).toUInt32
  payloadLength := read16 (data.drop 4)
  nextHeader := byteAt data 6
  hopLimit := byteAt data 7
  srcIp := bytesAt 16 data 8
  dstIp := bytesAt 16 data 24

/-- The Fragment header at `offset`, in a packet that ends at `packetEnd`. -/
def readFragmentHeader (data : Bytes) (packetEnd offset : ℕ) : Ipv6Fragment :=
  let ff := read16 (data.drop (offset + 2))
  { offset := ff >>> 3
    more := ff &&& 0x01 != 0
    identification := read32 (data.drop (offset + 4))
    payload := (data.drop (offset + 8)).take (packetEnd - (offset + 8)) }

/-- Parse the body of an extension header other than a Fragment header. -/
def parseExtHeaderBody (nh : UInt8) (body : Bytes) (result : Ipv6ParseResult) :
    Except Ipv6ParseError Ipv6ParseResult :=
  if nh = Ipv6ExtHeaderType.hopByHop then
    match parseIpv6Options body with
    | none => .error .badExtHeaderOption
    | some options => match findJumboPayload options with
      | none => .ok { result with hopbyhopOptions := options }
      | some length =>
        if result.header.payloadLength ≠ 0 then .error .badJumboPayload
        else .ok { result with hopbyhopOptions := options, jumboPayloadLength := some length }
  else if nh = Ipv6ExtHeaderType.routing then
    .ok { result with routingHeader := some (parseIpv6RoutingHeader body) }
  else if nh = Ipv6ExtHeaderType.destinationOptions then
    match parseIpv6Options body with
    | none => .error .badExtHeaderOption
    | some options => .ok { result with destOptions := options }
  else .ok result

/-- Go through the extension headers from `offset` on, of which the first one is `nh`, in a packet
    that ends at `packetEnd`. The walk fails after eight headers, so nine rounds are enough. -/
def walkExtensionHeaders (data : Bytes) (packetEnd : ℕ) :
    ℕ → UInt8 → ℕ → ℕ → Bytes → Ipv6ParseResult → Except Ipv6ParseError Ipv6ParseResult
  | 0, _, _, _, _, _ => .error .extHeaderTooMany
  | rounds + 1, nh, offset, extTotalBytes, visited, result =>
    if isExtensionHeader nh = false then
      .ok { result with
        finalNextHeader := nh
        payloadOffset := offset
        payload := if nh = Ipv6ExtHeaderType.noNextHeader then []
          else (data.drop offset).take (packetEnd - offset) }
    else if nh = Ipv6ExtHeaderType.fragment ∧ offset + 8 > data.length then
      .error .truncatedExtHeader
    else if nh ∈ visited then .error .extHeaderLoop
    else if visited.length ≥ maxIpv6ExtHeaders then .error .extHeaderTooMany
    else if offset + 2 > data.length then .error .truncatedExtHeader
    else
      let extSize := if nh = Ipv6ExtHeaderType.fragment then 8
        else ((byteAt data (offset + 1)).toNat + 1) * 8
      let extEnd := offset + extSize
      if extTotalBytes + extSize > maxIpv6ExtHeaderBytes then .error .extHeaderTooLong
      else if extEnd > data.length ∨ extEnd > packetEnd then .error .truncatedExtHeader
      else
        let result := if nh = Ipv6ExtHeaderType.fragment then
            { result with fragment := some (readFragmentHeader data packetEnd offset) }
          else result
        match parseExtHeaderBody nh ((data.drop (offset + 2)).take (extSize - 2)) result with
        | .error error => .error error
        | .ok result => walkExtensionHeaders data packetEnd rounds (byteAt data offset) extEnd
            (extTotalBytes + extSize) (visited ++ [nh])
            { result with extHeaderCount := result.extHeaderCount + 1 }

/-- The length of a jumbogram, from the Hop-by-Hop header that comes first. -/
def peekJumboPayload (data : Bytes) (nextHeader : UInt8) : Option UInt32 :=
  let hbhSize := ((byteAt data 41).toNat + 1) * 8
  if nextHeader = Ipv6ExtHeaderType.hopByHop ∧ data.length - 40 ≥ 2 ∧ hbhSize ≤ data.length - 40 then
    (parseIpv6Options ((data.drop 42).take (hbhSize - 2))).bind findJumboPayload
  else none

def parseIpv6 (data : Bytes) : Except Ipv6ParseError Ipv6ParseResult :=
  if data.length < 40 then .error .tooShort
  else if byteAt data 0 >>> 4 ≠ 6 then .error .badVersion
  else
    let header := readIpv6Header data
    let jumbo := if header.payloadLength = 0 then peekJumboPayload data header.nextHeader else none
    let totalAfterFixed := if header.payloadLength = 0 then
        match jumbo with
        | some length => length.toNat
        -- without a length, what there is
        | none => data.length - 40
      else header.payloadLength.toNat
    if data.length - 40 < totalAfterFixed then .error .truncatedPayload
    else walkExtensionHeaders data (40 + totalAfterFixed) (maxIpv6ExtHeaders + 1) header.nextHeader
      40 0 [] { header := header, jumboPayloadLength := jumbo }

/-- The length of a jumbogram: the option counts only where the fixed header has no length. -/
def jumboLength (data : Bytes) : Option UInt32 :=
  if (readIpv6Header data).payloadLength = 0 then
    peekJumboPayload data (readIpv6Header data).nextHeader
  else none

/-- How much follows the fixed header. -/
def totalAfterFixed (data : Bytes) : ℕ :=
  if (readIpv6Header data).payloadLength = 0 then
    match jumboLength data with
    | some length => length.toNat
    | none => data.length - 40
  else (readIpv6Header data).payloadLength.toNat

theorem parseIpv6_eq_ok {data : Bytes} {ip : Ipv6ParseResult} :
    parseIpv6 data = .ok ip ↔ (40 ≤ data.length ∧ byteAt data 0 >>> 4 = 6 ∧
      totalAfterFixed data ≤ data.length - 40) ∧
      walkExtensionHeaders data (40 + totalAfterFixed data) (maxIpv6ExtHeaders + 1)
        (readIpv6Header data).nextHeader 40 0 []
        { header := readIpv6Header data, jumboPayloadLength := jumboLength data } = .ok ip := by
  have heq : parseIpv6 data = if data.length < 40 then .error .tooShort
      else if byteAt data 0 >>> 4 ≠ 6 then .error .badVersion
      else if data.length - 40 < totalAfterFixed data then .error .truncatedPayload
      else walkExtensionHeaders data (40 + totalAfterFixed data) (maxIpv6ExtHeaders + 1)
        (readIpv6Header data).nextHeader 40 0 []
        { header := readIpv6Header data, jumboPayloadLength := jumboLength data } := rfl
  rw [heq]
  split_ifs with hshort hversion hlong
  · simp [hshort]
  · simp [hversion]
  · simp [hlong]
  · simp_all

/-! ## The header of a packet -/

/-- The fixed header that begins with the bytes `b₀`, …, `b₃`: the version, the traffic
    class and the flow label. -/
def ipv6Header (b₀ b₁ b₂ b₃ : UInt8) (payloadLength : UInt16) (nextHeader hopLimit : UInt8)
    (src dst : Vector UInt8 16) : Bytes :=
  [b₀, b₁, b₂, b₃] ++ bigEndian 2 payloadLength.toNat ++ [nextHeader, hopLimit] ++ src.toList ++
    dst.toList

section Header

variable {b₀ b₁ b₂ b₃ : UInt8} {length : UInt16} {next hop : UInt8}
  {src dst : Vector UInt8 16}

theorem length_ipv6Header :
    (ipv6Header b₀ b₁ b₂ b₃ length next hop src dst).length = 40 := by
  simp [ipv6Header]

theorem readIpv6Header_ipv6Header (payload : Bytes) :
    readIpv6Header (ipv6Header b₀ b₁ b₂ b₃ length next hop src dst ++ payload) =
      { trafficClass := (b₀ &&& 0x0f) <<< 4 ||| b₁ >>> 4
        flowLabel := (b₁ &&& 0x0f).toUInt32 <<< 16 ||| b₂.toUInt32 <<< 8 ||| b₃.toUInt32
        payloadLength := length
        nextHeader := next
        hopLimit := hop
        srcIp := src
        dstIp := dst } := by
  generalize hdata : ipv6Header b₀ b₁ b₂ b₃ length next hop src dst ++ payload =
    data
  have hsrc : bytesAt 16 data 8 = src := by
    rw [← hdata, ipv6Header, List.append_assoc, List.append_assoc]
    exact bytesAt_append rfl src _
  have hdst : bytesAt 16 data 24 = dst := by
    rw [← hdata, ipv6Header, List.append_assoc]
    exact bytesAt_append (by simp) dst _
  have hlength : read16 (data.drop 4) = length := hdata ▸ read16_bigEndian length _
  have hbytes : byteAt data 0 = b₀ ∧ byteAt data 1 = b₁ ∧ byteAt data 2 = b₂ ∧ byteAt data 3 = b₃ ∧
      byteAt data 6 = next ∧ byteAt data 7 = hop :=
    hdata ▸ ⟨rfl, rfl, rfl, rfl, rfl, rfl⟩
  obtain ⟨h₀, h₁, h₂, h₃, h₆, h₇⟩ := hbytes
  rw [readIpv6Header, hsrc, hdst, hlength, h₀, h₁, h₂, h₃, h₆, h₇]

/-- The fixed header is read back, and the walk begins behind it. -/
theorem parseIpv6_ipv6Header (hversion : b₀ >>> 4 = 6) {payload : Bytes}
    (hlen : length.toNat = payload.length) (hne : payload ≠ []) :
    parseIpv6 (ipv6Header b₀ b₁ b₂ b₃ length next hop src dst ++ payload) =
      walkExtensionHeaders
        (ipv6Header b₀ b₁ b₂ b₃ length next hop src dst ++ payload)
        (40 + payload.length) (maxIpv6ExtHeaders + 1) next 40 0 []
        { header := readIpv6Header
            (ipv6Header b₀ b₁ b₂ b₃ length next hop src dst ++ payload) } := by
  have hlength : (ipv6Header b₀ b₁ b₂ b₃ length next hop src dst ++
      payload).length = 40 + payload.length := by
    rw [List.length_append, length_ipv6Header]
  have hpos : length ≠ 0 := by
    rintro rfl
    exact hne (List.length_eq_zero_iff.1 hlen.symm)
  have hbyte : byteAt (ipv6Header b₀ b₁ b₂ b₃ length next hop src dst ++
      payload) 0 >>> 4 = 6 := hversion
  rw [parseIpv6, if_neg (by omega), if_neg (not_not.2 hbyte), readIpv6Header_ipv6Header]
  dsimp only
  rw [if_neg hpos, if_neg hpos, if_neg (by omega), hlen]

end Header

/-- At an upper-layer protocol, the walk ends. -/
theorem walkExtensionHeaders_upper {data : Bytes} {packetEnd rounds offset extTotalBytes : ℕ}
    {nh : UInt8} {visited : Bytes} {result : Ipv6ParseResult}
    (hnh : isExtensionHeader nh = false) (hno : nh ≠ Ipv6ExtHeaderType.noNextHeader) :
    walkExtensionHeaders data packetEnd (rounds + 1) nh offset extTotalBytes visited result =
      .ok { result with
        finalNextHeader := nh
        payloadOffset := offset
        payload := (data.drop offset).take (packetEnd - offset) } := by
  rw [walkExtensionHeaders, if_pos hnh, if_neg hno]

end Netstack2
