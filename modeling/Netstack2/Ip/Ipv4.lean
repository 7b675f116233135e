import Netstack2.Ip.Checksum

/-!
# IPv4 headers

The parser of IPv4 packets, and the header that the builders of packets write. The
parser reads that header back (`parseIpv4_ipv4Header`).
-/

namespace Netstack2

structure Ipv4Header where
  ihl : UInt8
  dscp : UInt8
  ecn : UInt8
  totalLength : UInt16
  identification : UInt16
  /-- Reserved, DF and MF. -/
  flags : UInt8
  /-- In units of 8 bytes. -/
  fragmentOffset : UInt16
  ttl : UInt8
  protocol : UInt8
  headerChecksum : UInt16
  srcIp : Vector UInt8 4
  dstIp : Vector UInt8 4
  headerLength : ℕ
  deriving DecidableEq

/-- The packet is one of several fragments. -/
def Ipv4Header.isFragment (header : Ipv4Header) : Bool :=
  header.fragmentOffset != 0 || header.flags &&& 0x01 != 0

theorem Ipv4Header.isFragment_eq_false {header : Ipv4Header} (hoffset : header.fragmentOffset = 0)
    (hmore : header.flags &&& 0x01 = 0) : header.isFragment = false := by
  rw [isFragment, hoffset, hmore]
  rfl

inductive Ipv4ParseError
  | tooShort
  | badVersion
  | badIhl
  | truncatedHeader
  | truncatedTotal

structure Ipv4ParseResult where
  header : Ipv4Header
  checksumOk : Bool
  payload : Bytes

/-- The fields of a header that is there as a whole. -/
def readIpv4Header (data : Bytes) : Ipv4Header :=
  let flagsFrag := read16 (data.drop 6)
  { ihl := byteAt data 0 &&& 0x0f
    dscp := byteAt data 1 >>> 2
    ecn := byteAt data 1 &&& 0x03
    totalLength := read16 (data.drop 2)
    identification := read16 (data.drop 4)
    flags := (flagsFrag >>> 13 &&& 0x07).toUInt8
    fragmentOffset := flagsFrag &&& 0x1fff
    ttl := byteAt data 8
    protocol := byteAt data 9
    headerChecksum := read16 (data.drop 10)
    srcIp := bytesAt 4 data 12
    dstIp := bytesAt 4 data 16
    headerLength := (byteAt data 0 &&& 0x0f).toNat * 4 }

def parseIpv4 (data : Bytes) : Except Ipv4ParseError Ipv4ParseResult :=
  if data.length < 20 then .error .tooShort
  else if byteAt data 0 >>> 4 ≠ 4 then .error .badVersion
  else
    let header := readIpv4Header data
    if header.ihl < 5 then .error .badIhl
    else if data.length < header.headerLength then .error .truncatedHeader
    else if header.totalLength.toNat < header.headerLength then .error .truncatedTotal
    else if data.length < header.totalLength.toNat then .error .truncatedTotal
    else .ok {
      header := header
      checksumOk := internetChecksum (data.take header.headerLength) == 0
      payload := (data.drop header.headerLength).take
        (header.totalLength.toNat - header.headerLength) }

theorem version_of_parseIpv4 {data : Bytes} {ip : Ipv4ParseResult}
    (h : parseIpv4 data = .ok ip) : byteAt data 0 >>> 4 = 4 := by
  rw [parseIpv4] at h
  split at h
  case isTrue => cases h
  split at h
  case isTrue => cases h
  case isFalse hversion => exact not_not.1 hversion

/-! ## The header of a packet -/

/-- The header that the builders write, without options. -/
def ipv4Header (tos : UInt8) (totalLength identification flagsFrag : UInt16)
    (ttl protocol : UInt8) (checksum : UInt16) (src dst : Vector UInt8 4) : Bytes :=
  [0x45, tos] ++ bigEndian 2 totalLength.toNat ++ bigEndian 2 identification.toNat ++
    bigEndian 2 flagsFrag.toNat ++ [ttl, protocol] ++ bigEndian 2 checksum.toNat ++
    src.toList ++ dst.toList

section Header

variable {tos : UInt8} {total ident frag : UInt16} {ttl protocol : UInt8}
  {checksum : UInt16} {src dst : Vector UInt8 4} (payload : Bytes)

theorem length_ipv4Header : (ipv4Header tos total ident frag ttl protocol
    checksum src dst).length = 20 := by
  simp [ipv4Header]

theorem write16_ipv4Header (value : UInt16) :
    write16 (ipv4Header tos total ident frag ttl protocol 0 src dst) 10 value =
      ipv4Header tos total ident frag ttl protocol value src dst :=
  rfl

/-- The checksum of the header, written to its field, is found right. -/
theorem internetChecksum_ipv4Header :
    internetChecksum (ipv4Header tos total ident frag ttl protocol
      (internetChecksum (ipv4Header tos total ident frag ttl protocol 0 src dst)) src dst) = 0 := by
  rw [← write16_ipv4Header]
  exact internetChecksum_write16 rfl (by rw [length_ipv4Header]; decide)
    (write16_ipv4Header 0).symm (by rw [length_ipv4Header]; decide) (by decide)

theorem readIpv4Header_ipv4Header :
    readIpv4Header (ipv4Header tos total ident frag ttl protocol checksum src dst ++ payload) =
      { ihl := 5
        dscp := tos >>> 2
        ecn := tos &&& 0x03
        totalLength := total
        identification := ident
        flags := (frag >>> 13 &&& 0x07).toUInt8
        fragmentOffset := frag &&& 0x1fff
        ttl := ttl
        protocol := protocol
        headerChecksum := checksum
        srcIp := src
        dstIp := dst
        headerLength := 20 } := by
  generalize hdata : ipv4Header tos total ident frag ttl protocol checksum src
    dst ++ payload = data
  have hsrc : bytesAt 4 data 12 = src := by
    rw [← hdata, ipv4Header, List.append_assoc, List.append_assoc]
    exact bytesAt_append rfl src _
  have hdst : bytesAt 4 data 16 = dst := by
    rw [← hdata, ipv4Header, List.append_assoc]
    exact bytesAt_append (by simp) dst _
  have htotal : read16 (data.drop 2) = total := hdata ▸ read16_bigEndian total _
  have hident : read16 (data.drop 4) = ident := hdata ▸ read16_bigEndian ident _
  have hflags : read16 (data.drop 6) = frag := hdata ▸ read16_bigEndian frag _
  have hchecksum : read16 (data.drop 10) = checksum := hdata ▸ read16_bigEndian checksum _
  have hversion : byteAt data 0 = 0x45 := hdata ▸ rfl
  have htos : byteAt data 1 = tos := hdata ▸ rfl
  have httl : byteAt data 8 = ttl := hdata ▸ rfl
  have hprotocol : byteAt data 9 = protocol := hdata ▸ rfl
  rw [readIpv4Header, hsrc, hdst, htotal, hident, hflags, hchecksum, hversion, htos, httl,
    hprotocol]
  rfl

/-- What the parser makes of the header and what follows it: only the total length is left to
    check. -/
theorem parseIpv4_ipv4Header_append :
    parseIpv4 (ipv4Header tos total ident frag ttl protocol checksum src dst ++ payload) =
        if total.toNat < 20 then .error .truncatedTotal
        else if 20 + payload.length < total.toNat then .error .truncatedTotal
        else .ok {
          header := readIpv4Header (ipv4Header tos total ident frag ttl protocol
            checksum src dst ++ payload)
          checksumOk := internetChecksum (ipv4Header tos total ident frag ttl
            protocol checksum src dst) == 0
          payload := payload.take (total.toNat - 20) } := by
  have hlength : (ipv4Header tos total ident frag ttl protocol checksum src dst
      ++ payload).length = 20 + payload.length := by
    rw [List.length_append, length_ipv4Header]
  have hversion : byteAt (ipv4Header tos total ident frag ttl protocol checksum
      src dst ++ payload) 0 >>> 4 = 4 := (by decide : (0x45 : UInt8) >>> 4 = 4)
  rw [parseIpv4, if_neg (by omega), if_neg (not_not.2 hversion)]
  rw [readIpv4Header_ipv4Header]
  dsimp only
  rw [if_neg (by decide), if_neg (by omega), hlength, List.take_left' length_ipv4Header,
    List.drop_left' length_ipv4Header]

/-- The header is read back, and the payload that follows. -/
theorem parseIpv4_ipv4Header {payload : Bytes} (hlen : total.toNat = 20 + payload.length) :
    parseIpv4 (ipv4Header tos total ident frag ttl protocol checksum src dst ++ payload) = .ok {
        header := readIpv4Header (ipv4Header tos total ident frag ttl protocol
          checksum src dst ++ payload)
        checksumOk := internetChecksum (ipv4Header tos total ident frag ttl
          protocol checksum src dst) == 0
        payload := payload } := by
  rw [parseIpv4_ipv4Header_append, if_neg (by omega), if_neg (by omega),
    List.take_of_length_le (by omega)]

/-- A total length below that of the header is not accepted. -/
theorem parseIpv4_of_totalLength_lt (hlen : total.toNat < 20) :
    parseIpv4 (ipv4Header tos total ident frag ttl protocol checksum src dst ++
      payload) = .error .truncatedTotal := by
  rw [parseIpv4_ipv4Header_append, if_pos hlen]

end Header

end Netstack2
