import Netstack2.Ip.Ipv4
import Netstack2.Ip.Ipv6
import Netstack2.Tcp.Segment

/-!
# Outgoing segments

What the engine answers or sends (`TcpResponse`), its options as bytes, its packet and
the length of the packet. A packet is not built if it does not fit the buffer.
-/

namespace Netstack2

open List

/-- An outgoing segment. -/
structure TcpResponse where
  flow : FlowKey
  sequence : UInt32 := 0
  acknowledgment : UInt32 := 0
  flags : UInt8 := 0
  window : UInt16 := 0
  synOptions : TcpSynOptions := {}
  timestampPresent : Bool := false
  timestampValue : UInt32 := 0
  timestampEcho : UInt32 := 0
  sackBlocks : List TcpSackBlock := []
  /-- The ECN codepoint of the IP header; `2` is ECN-capable. -/
  ipEcn : UInt8 := 0
  payload : Bytes := []
  deriving DecidableEq

inductive TcpOutputError
  | invalidResponse
  | addressFamilyMismatch
  | bufferTooSmall
  | optionsTooLong

def timestampBytes (value echo : UInt32) : Bytes :=
  [1, 1, 8, 10] ++ bigEndian 4 value.toNat ++ bigEndian 4 echo.toNat

/-- Options are padded to words, and there is room for 40 bytes of them. -/
def padOptions (options : Bytes) : Option Bytes :=
  let padded := options ++ .replicate ((4 - options.length % 4) % 4) 0
  if padded.length > 40 then none else some padded

def serializeSynOptions (source : TcpSynOptions) : Option Bytes :=
  padOptions <|
    (if source.mssPresent then [2, 4] ++ bigEndian 2 source.mss.toNat else []) ++
    (if source.sackPermitted then [4, 2] else []) ++
    (if source.timestampPresent then timestampBytes source.timestampValue source.timestampEcho
      else []) ++
    (if source.windowScalePresent then
      [1, 3, 3, if source.windowScale > 14 then 14 else source.windowScale]
      else [])

/-- The timestamp, and as many blocks as there is room for. -/
def serializeAckOptions (response : TcpResponse) : Option Bytes :=
  let blocks := response.sackBlocks.take (if response.timestampPresent then 3 else 4)
  padOptions <|
    (if response.timestampPresent then
      timestampBytes response.timestampValue response.timestampEcho
      else []) ++
    (if blocks ≠ [] then
      [5, UInt8.ofNat (2 + blocks.length * 8)] ++ blocks.flatMap fun block =>
        bigEndian 4 block.leftEdge.toNat ++ bigEndian 4 block.rightEdge.toNat
      else [])

/-- The options of a segment: those of a SYN, or those of an acknowledgment. -/
def serializeOptions (response : TcpResponse) : Option Bytes :=
  if response.flags &&& TcpFlag.syn ≠ 0 then serializeSynOptions response.synOptions
  else if response.flags &&& TcpFlag.ack ≠ 0 then serializeAckOptions response
  else some []

/-! ## The length of the options -/

@[simp] theorem length_timestampBytes (value echo : UInt32) :
    (timestampBytes value echo).length = 12 := by
  simp [timestampBytes]

theorem padOptions_eq_some {options padded : Bytes} (h : padOptions options = some padded) :
    padded = options ++ .replicate ((4 - options.length % 4) % 4) 0 ∧ padded.length ≤ 40 := by
  rw [padOptions] at h
  obtain ⟨hle, h⟩ := Option.ite_none_left_eq_some.1 h
  cases h
  exact ⟨rfl, Nat.not_lt.1 hle⟩

theorem length_padOptions {options padded : Bytes} (h : padOptions options = some padded) :
    padded.length = (options.length + 3) / 4 * 4 := by
  rw [(padOptions_eq_some h).1, length_append, length_replicate]
  omega

/-- The bytes that the options of an acknowledgment take at most. -/
def ackOptionRoom (timestamps sackPermitted : Bool) : ℕ :=
  if sackPermitted then if timestamps then 40 else 36
  else if timestamps then 12 else 0

theorem length_sackBlockBytes (blocks : List TcpSackBlock) :
    (blocks.flatMap fun block => bigEndian 4 block.leftEdge.toNat ++
      bigEndian 4 block.rightEdge.toNat).length = blocks.length * 8 := by
  induction blocks with
  | nil => rfl
  | cons _ _ ih =>
    rw [flatMap_cons, length_append, ih, length_append, length_bigEndian,
      length_bigEndian, length_cons, Nat.succ_mul, add_comm]

theorem length_serializeAckOptions_le {response : TcpResponse} {options : Bytes}
    (h : serializeAckOptions response = some options) {sackPermitted : Bool}
    (hsack : sackPermitted = false → response.sackBlocks = []) :
    options.length ≤ ackOptionRoom response.timestampPresent sackPermitted := by
  rw [serializeAckOptions] at h
  have hlen := length_padOptions h
  have htake := length_take_le (if response.timestampPresent then 3 else 4)
    response.sackBlocks
  have hnone : sackPermitted = false →
      response.sackBlocks.take (if response.timestampPresent then 3 else 4) = [] := fun hno => by
    rw [hsack hno, take_nil]
  generalize response.sackBlocks.take (if response.timestampPresent then 3 else 4) = blocks at *
  rw [hlen, ackOptionRoom, length_append]
  by_cases hempty : blocks = []
  · -- no blocks: the timestamp alone
    rw [if_neg (not_not.2 hempty), length_nil]
    cases response.timestampPresent <;> cases sackPermitted <;> simp
  · rw [if_pos hempty, length_append, length_sackBlockBytes]
    cases sackPermitted with
    | false => exact absurd (hnone rfl) hempty
    | true =>
      cases hts : response.timestampPresent with
      | false | true =>
        rw [hts] at htake
        simp at htake ⊢
        omega

/-- The length of the packet, if it can be built into `capacity` bytes. -/
def buildTcpControlPacket (response : TcpResponse) (capacity : ℕ) : Except TcpOutputError ℕ :=
  if response.flow.protocol ≠ 6 then .error .invalidResponse
  else if response.flow.source.family ≠ response.flow.destination.family then
    .error .addressFamilyMismatch
  else match serializeOptions response with
    | none => .error .optionsTooLong
    | some options =>
      let ipHeaderLength := if response.flow.source.isIpv4 then 20 else 40
      let packetLength := ipHeaderLength + (20 + options.length + response.payload.length)
      if capacity < packetLength then .error .bufferTooSmall else .ok packetLength

/-! ## The bytes of the packet -/

/-- The segment, with what its checksum field holds. -/
def tcpSegment (response : TcpResponse) (options : Bytes) (checksum : UInt16) : Bytes :=
  bigEndian 2 response.flow.sourcePort.toNat ++ bigEndian 2 response.flow.destinationPort.toNat ++
    bigEndian 4 response.sequence.toNat ++ bigEndian 4 response.acknowledgment.toNat ++
    [UInt8.ofNat ((20 + options.length) / 4 * 16), response.flags] ++
    bigEndian 2 response.window.toNat ++ bigEndian 2 checksum.toNat ++ [0, 0] ++ options ++
    response.payload

/-- The IP header before a segment of `tcpTotal` bytes. -/
def tcpIpHeader (response : TcpResponse) (tcpTotal : ℕ) (ipv4Id : UInt16) (hopLimit : UInt8) :
    Bytes :=
  match response.flow.source, response.flow.destination with
  | .ipv4 src, .ipv4 dst =>
    let header := ipv4Header (response.ipEcn &&& 0x03) (.ofNat (20 + tcpTotal)) ipv4Id 0 hopLimit 6
      0 src dst
    write16 header 10 (internetChecksum header)
  | .ipv6 src, .ipv6 dst =>
    ipv6Header 0x60 ((response.ipEcn &&& 0x03) <<< 4) 0 0 (.ofNat tcpTotal) 6 hopLimit src dst
  | _, _ => []

/-- The packet with these options. -/
def tcpPacket (response : TcpResponse) (options : Bytes) (ipv4Id : UInt16)
    (hopLimit : UInt8) : Bytes :=
  let tcp := tcpSegment response options 0
  let seed := pseudoHeaderSeed response.flow.source response.flow.destination 6 tcp.length
  tcpIpHeader response tcp.length ipv4Id hopLimit ++ write16 tcp 16 (internetChecksum tcp seed)

/-- What `buildTcpControlPacket` writes to its buffer, where it succeeds. -/
def tcpControlPacket (response : TcpResponse) (capacity : ℕ) (ipv4Id : UInt16 := 0)
    (hopLimit : UInt8 := 64) : Except TcpOutputError Bytes :=
  (buildTcpControlPacket response capacity).map fun _ =>
    tcpPacket response ((serializeOptions response).getD []) ipv4Id hopLimit

theorem tcpControlPacket_eq_ok {response : TcpResponse} {capacity : ℕ} {ipv4Id : UInt16}
    {hopLimit : UInt8} {packet : Bytes}
    (h : tcpControlPacket response capacity ipv4Id hopLimit = .ok packet) :
    response.flow.protocol = 6 ∧
      response.flow.source.family = response.flow.destination.family ∧
      ∃ options, tcpPacket response options ipv4Id hopLimit = packet := by
  rw [tcpControlPacket, buildTcpControlPacket] at h
  split at h
  case isTrue => cases h
  case isFalse hprotocol =>
    split at h
    case isTrue => cases h
    case isFalse hfamily =>
      split at h
      case h_1 => cases h
      case h_2 options hoptions =>
        dsimp only at h
        generalize (if response.flow.source.isIpv4 = true then 20 else 40) = headerLength at h
        split at h
        case isTrue => cases h
        case isFalse => exact ⟨not_not.1 hprotocol, not_not.1 hfamily, _, Except.ok.inj h⟩

end Netstack2
