import Netstack2.Tcp.Delivery
import Netstack2.Tcp.Output
import Netstack2.Tcp.Send
import Netstack2.Timer

/-!
# Connections

A connection of the engine (`Pcb`): its state, its two buffers, its session and
what was negotiated for it; and what the handlers of the engine do to the one
connection they are called for. What they do to the table of connections and to
the timers is in `Netstack2.Tcp.Engine`.

What can be observed of a connection, apart from its fields, is recorded as a list
of `Observed` items: the calls of its session, the segments built for it, and the
points at which the engine takes over the peer's window or asks for a segment to
send. Each function here that does something of the kind returns the items.
-/

namespace Netstack2

inductive TcpState
  | synReceived
  | established
  | finWait1
  | finWait2
  | closeWait
  | closing
  | lastAck
  | timeWait
  deriving DecidableEq

/-- The parameters of an engine. -/
structure TcpHandshakeConfig where
  backlogLimit : ℕ := 128
  halfOpenLimit : ℕ := 256
  pcbLimit : ℕ := 4096
  pendingResponseLimit : ℕ := 256
  localMss : UInt16 := 1460
  pathMtu : UInt16 := 1500
  /-- The largest payload a packet buffer has room for; `0` is unknown. -/
  txPayloadLimit : UInt16 := 0
  receiveWindow : UInt32 := 65536
  enableWindowScale : Bool := true
  enableSack : Bool := true
  enableTimestamps : Bool := true
  enableEcn : Bool := true
  receiveMemoryBudget : ℕ := 16 * 1024 * 1024
  deliveryCallBudget : ℕ := 16
  delayedAckMs : ℕ := 40
  synAckRetryIntervalsMs : Vector ℕ 4 := #v[1000, 2000, 4000, 8000]
  sendQueueLimit : ℕ := 256 * 1024
  retransmitQueueLimit : ℕ := 256 * 1024
  initialRtoMs : ℕ := 1000
  minRtoMs : ℕ := 200
  maxRtoMs : ℕ := 120000
  persistTimerBaseMs : ℕ := 500
  persistTimerMaxMs : ℕ := 60000
  maxRetransmissions : ℕ := 15
  maxPersistProbes : ℕ := 15
  maxTimewaitEntries : ℕ := 4096
  timewaitMs : ℕ := 120000
  keepaliveMs : ℕ := 7200000

namespace TcpHandshakeConfig

/-- The configuration is one an engine can be built with. -/
def validate (c : TcpHandshakeConfig) : Bool :=
  if c.backlogLimit = 0 ∨ c.halfOpenLimit = 0 ∨ c.pcbLimit = 0 ∨ c.pendingResponseLimit = 0 ∨
      c.receiveMemoryBudget = 0 ∨ c.deliveryCallBudget = 0 ∨ c.delayedAckMs = 0 then false
  else if c.backlogLimit > c.pcbLimit ∨ c.halfOpenLimit > c.pcbLimit then false
  else if c.localMss = 0 ∨ c.pathMtu < 1280 ∨ c.receiveWindow = 0 ∨
      c.receiveWindow > (65535 : UInt32) <<< 14 then false
  else if c.synAckRetryIntervalsMs.any (· == 0) then false
  else if c.sendQueueLimit = 0 ∨ c.retransmitQueueLimit = 0 ∨ c.minRtoMs = 0 ∨ c.maxRtoMs = 0 ∨
      c.minRtoMs > c.initialRtoMs ∨ c.initialRtoMs > c.maxRtoMs ∨ c.persistTimerBaseMs = 0 ∨
      c.persistTimerBaseMs > c.persistTimerMaxMs ∨ c.maxRetransmissions = 0 ∨
      c.maxPersistProbes = 0 then false
  else if c.maxTimewaitEntries = 0 ∨ c.timewaitMs = 0 ∨ c.keepaliveMs = 0 then false
  else true

/-- The largest payload this end sends, `fixedHeaderBytes` being the length of the
    IP and TCP headers. -/
def localSendCap (c : TcpHandshakeConfig) (fixedHeaderBytes : UInt16) : UInt16 :=
  let cap := c.localMss
  let cap := if c.pathMtu > fixedHeaderBytes ∧ c.pathMtu - fixedHeaderBytes < cap then
      c.pathMtu - fixedHeaderBytes
    else cap
  if c.txPayloadLimit ≠ 0 ∧ c.txPayloadLimit < cap then c.txPayloadLimit else cap

/-- The parameters of a send buffer. -/
def sendConfig (c : TcpHandshakeConfig) (mss : UInt16) : TcpSendConfig where
  initialMss := mss
  sendQueueLimit := c.sendQueueLimit
  retransmitQueueLimit := c.retransmitQueueLimit
  minRtoMs := c.minRtoMs
  maxRtoMs := c.maxRtoMs
  initialRtoMs := c.initialRtoMs
  persistTimerBaseMs := c.persistTimerBaseMs
  persistTimerMaxMs := c.persistTimerMaxMs
  maxRetransmissions := c.maxRetransmissions
  maxPersistProbes := c.maxPersistProbes

end TcpHandshakeConfig

/-! ## Windows and sequence numbers -/

/-- The smallest scale with which `window` fits 16 bits, from `scale` on and at
    most `fuel` larger. -/
def receiveWindowScaleFrom : ℕ → UInt32 → UInt8 → UInt8
  | 0, _, scale => scale
  | fuel + 1, window, scale =>
    if window > 65535 then receiveWindowScaleFrom fuel (window >>> 1) (scale + 1) else scale

def receiveWindowScale (window : UInt32) : UInt8 := receiveWindowScaleFrom 14 window 0

/-- The window field for `window` under a scale. -/
def wireWindow (window : UInt32) (scale : UInt8) : UInt16 :=
  let scaled := window >>> scale.toUInt32
  if scaled > 65535 then 65535 else scaled.toUInt16

/-- The segment is in the window of a connection that has no receive buffer yet. -/
def sequenceAcceptable (segment : TcpSegmentView) (rcvNxt receiveWindow : UInt32) : Bool :=
  let length := UInt32.ofNat segment.payload.length +
    (if segment.hasFlag TcpFlag.syn then 1 else 0) + (if segment.hasFlag TcpFlag.fin then 1 else 0)
  if receiveWindow = 0 then length == 0 && segment.sequence == rcvNxt
  else
    let first := segment.sequence - rcvNxt
    if length = 0 then first < receiveWindow
    else
      let last := segment.sequence + length - 1 - rcvNxt
      first < receiveWindow || last < receiveWindow

def timestampBefore (left right : UInt32) : Bool := left != right && SignedNeg (left - right)

/-! ## The connection -/

/-- What the SYN and its answer agreed on. -/
structure TcpNegotiatedOptions where
  peerMss : UInt16 := 536
  sendWindowScale : UInt8 := 0
  receiveWindowScale : UInt8 := 0
  windowScale : Bool := false
  sackPermitted : Bool := false
  timestamps : Bool := false
  peerTimestamp : UInt32 := 0
  ecn : Bool := false
  deriving DecidableEq

/-- The identifier of a flow. The source counts flows in 64 bits; here the count is not wrapped,
    so that no identifier is given twice. `table_books` and `follows_diagram` rest on this. -/
abbrev FlowId := ℕ

/-- A session, as a handle. -/
abbrev SessionId := ℕ

/-- What is observed of a connection. -/
inductive Observed
  /-- A SYN opened the connection; its window field. -/
  | opened (window : UInt16)
  /-- A segment passed the checks of its acknowledgment, timestamp and sequence
      numbers; its window field. -/
  | accepted (window : UInt16)
  /-- A segment was built, to be returned, queued or transmitted. -/
  | built (response : TcpResponse)
  /-- `NextSegment` was called with this peer window. -/
  | nextSegment (peerWindow : UInt32)
  /-- So many more bytes of the peer's stream are in order. -/
  | received (bytes : ℕ)
  /-- The peer's FIN was consumed. -/
  | finConsumed
  | trySend (call : TrySendCall)
  | shutdownWrite
  deriving DecidableEq

/-- A connection with a congestion controller `κ`. -/
structure Pcb (κ : Type) where
  incomingFlow : FlowKey
  state : TcpState := .synReceived
  iss : UInt32
  irs : UInt32
  sndUna : UInt32
  sndNxt : UInt32
  rcvNxt : UInt32
  peerWindow : UInt16
  responseWindow : UInt16
  receiveWindow : UInt32
  options : TcpNegotiatedOptions
  responseOptions : TcpSynOptions
  receive : Option TcpReceiveBuffer := none
  send : Option (TcpSendBuffer κ) := none
  session : Option SessionId := none
  sessionBound : Bool := false
  flowId : FlowId
  generation : ℕ
  retryIndex : ℕ := 0
  retryTimer : TimerId := 0
  delayedAckTimer : TimerId := 0
  deliveryPending : Bool := false
  pendingAck : Option TcpResponse := none
  timewaitTimer : TimerId := 0
  timewaitDeadlineMs : ℕ := 0
  finReceived : Bool := false
  closeNotified : Bool := false
  ecnEcePending : Bool := false
  deriving DecidableEq

namespace Pcb

variable {κ : Type} (p : Pcb κ)

/-- The send window: what the peer's window field stands for. -/
def scaledPeerWindow (window : UInt16) : UInt32 :=
  if p.options.windowScale then window.toUInt32 <<< p.options.sendWindowScale.toUInt32
  else window.toUInt32

/-- The scale of the windows this end advertises. -/
def receiveScale : UInt8 := if p.options.windowScale then p.options.receiveWindowScale else 0

/-- The window field that advertises what the receive buffer has room for. -/
def windowField (r : TcpReceiveBuffer) : UInt16 :=
  wireWindow (UInt32.ofNat (min r.advertisedWindow maxUint32)) p.receiveScale

/-- What a window field stands for, on this end. -/
def representedWindow (window : UInt16) : ℕ := window.toNat <<< p.receiveScale.toNat

def currentSndNxt : UInt32 :=
  match p.send with
  | some send => send.sndNxt
  | none => p.sndNxt

def currentRcvNxt : UInt32 :=
  match p.receive with
  | some receive => receive.rcvNxt
  | none => p.rcvNxt

def sackBlocks (r : TcpReceiveBuffer) : List TcpSackBlock :=
  if p.options.sackPermitted then r.sackBlocks (if p.options.timestamps then 3 else 4) else []

/-! ## Opening -/

/-- The connection a SYN with the options `offered` opens. -/
def ofSyn (config : TcpHandshakeConfig) (segment : TcpSegmentView) (offered : TcpSynOptions)
    (iss : UInt32) (flowId : FlowId) (generation : ℕ) : Pcb κ :=
  let isIpv4 := segment.flow.source.isIpv4
  let sendCap := config.localSendCap (if isIpv4 then 40 else 60)
  let offeredMss := if offered.mssPresent then offered.mss else if isIpv4 then 536 else 1220
  let scales := config.enableWindowScale && offered.windowScalePresent
  let options : TcpNegotiatedOptions :=
    { peerMss := if sendCap < offeredMss then sendCap else offeredMss
      windowScale := scales
      sendWindowScale := if scales then offered.windowScale else 0
      receiveWindowScale := if scales then Netstack2.receiveWindowScale config.receiveWindow else 0
      sackPermitted := config.enableSack && offered.sackPermitted
      timestamps := config.enableTimestamps && offered.timestampPresent
      peerTimestamp := offered.timestampValue
      ecn := config.enableEcn && segment.hasFlag TcpFlag.ece && segment.hasFlag TcpFlag.cwr }
  { incomingFlow := segment.flow
    iss := iss
    irs := segment.sequence
    sndUna := iss
    sndNxt := iss + 1
    rcvNxt := segment.sequence + 1
    peerWindow := segment.window
    responseWindow := wireWindow config.receiveWindow 0
    receiveWindow := config.receiveWindow
    options := options
    responseOptions :=
      { mssPresent := true
        mss := sendCap
        windowScalePresent := options.windowScale
        windowScale := options.receiveWindowScale
        sackPermitted := options.sackPermitted
        timestampPresent := options.timestamps
        timestampEcho := offered.timestampValue }
    flowId := flowId
    generation := generation }

/-- The answer to a SYN, and what it notes of its timestamp. -/
def buildSynAck (nowMs : ℕ) : Pcb κ × TcpResponse :=
  let options := if p.responseOptions.timestampPresent then
      { p.responseOptions with timestampValue := UInt32.ofNat nowMs }
    else p.responseOptions
  ({ p with responseOptions := options },
    { flow := reverseFlow p.incomingFlow
      sequence := p.iss
      acknowledgment := p.rcvNxt
      flags := if p.options.ecn then TcpFlag.syn ||| TcpFlag.ack ||| TcpFlag.ece ||| TcpFlag.cwr
        else TcpFlag.syn ||| TcpFlag.ack
      window := p.responseWindow
      synOptions := options })

/-- The options after the ACK that completes the handshake; there are none if it does
    not echo the timestamp of our SYN. -/
def handshakeOptions (segment : TcpSegmentView) : Option TcpNegotiatedOptions :=
  if p.options.timestamps then
    match parseTcpSynOptions segment.options with
    | .error _ => none
    | .ok options =>
      if options.timestampPresent = false ∨
          options.timestampEcho ≠ p.responseOptions.timestampValue then none
      else some { p.options with peerTimestamp := options.timestampValue }
  else some p.options

/-- The handshake is complete. -/
def establish (options : TcpNegotiatedOptions) (acknowledgment : UInt32)
    (receive : TcpReceiveBuffer) (send : TcpSendBuffer κ) : Pcb κ :=
  { p with
    options := options
    receive := some receive
    retryTimer := 0
    sndUna := acknowledgment
    state := .established
    send := some send }

/-- A session was opened for the connection. -/
def bindSession (session : SessionId) : Pcb κ :=
  { p with
    session := some session
    sessionBound := true
    receive := p.receive.map (·.setBlocked false) }

/-! ## Acknowledgments -/

/-- An acknowledgment of what is in order. It advertises the window, and the
    buffer notes what was advertised. -/
def buildAck (r : TcpReceiveBuffer) (nowMs : ℕ) : Pcb κ × TcpResponse :=
  let window := p.windowField r
  let r := r.recordAdvertisedWindow (p.representedWindow window)
  ({ p with delayedAckTimer := 0, receive := some r.ackSent },
    { flow := reverseFlow p.incomingFlow
      sequence := p.currentSndNxt
      acknowledgment := r.rcvNxt
      flags := if p.options.ecn && p.ecnEcePending then TcpFlag.ack ||| TcpFlag.ece
        else TcpFlag.ack
      window := window
      timestampPresent := p.options.timestamps
      timestampValue := UInt32.ofNat nowMs
      timestampEcho := p.options.peerTimestamp
      sackBlocks := p.sackBlocks r })

/-- How the timestamp of a segment compares with the peer's last one. -/
inductive TimestampCheck
  | invalid
  | old
  /-- It is not older; there is none if timestamps were not negotiated. -/
  | fresh (timestamp : Option UInt32)
  deriving DecidableEq

def checkTimestamp (segment : TcpSegmentView) : TimestampCheck :=
  if p.options.timestamps then
    match parseTcpSynOptions segment.options with
    | .error _ => .invalid
    | .ok options =>
      if options.timestampPresent = false then .invalid
      else if timestampBefore options.timestampValue p.options.peerTimestamp then .old
      else .fresh (some options.timestampValue)
  else .fresh none

variable [CongestionController κ]

/-- The send buffer after the acknowledgment of a segment, and its selective
    acknowledgments if it is a duplicate. -/
def ackSend (send : TcpSendBuffer κ) (segment : TcpSegmentView) (nowMs : ℕ) : TcpSendBuffer κ :=
  let (send, result) := send.onAck segment.acknowledgment (p.scaledPeerWindow segment.window) nowMs
    segment.payload.isEmpty (p.options.ecn && segment.hasFlag TcpFlag.ece)
  if result.duplicate && p.options.sackPermitted then
    let blocks := parseTcpSackBlocks segment.options
    if blocks.length > 0 then (send.onSack blocks).1 else send
  else send

/-- Take over the window and the acknowledgment of a segment. -/
def onAck (segment : TcpSegmentView) (nowMs : ℕ) : Pcb κ :=
  { p with
    peerWindow := segment.window
    send := p.send.map (p.ackSend · segment nowMs) }

/-- The peer has acknowledged our FIN. -/
def finAcked : Bool :=
  match p.send with
  | some send => send.finAcked
  | none => false

/-! ## Data -/

/-- The connection after a delivery to its session. A session that failed is let go. -/
def afterDelivery (d : Delivery) : Pcb κ :=
  let p := { p with
    receive := some d.buffer
    deliveryPending := d.result.status = .budgetExhausted }
  if d.result.fails then { p with session := none, sessionBound := false, deliveryPending := false }
  else p

/-- Deliver what is in order; `trySend` tells how the session answers. -/
def drainSession (r : TcpReceiveBuffer) (trySend : TrySend) (callBudget : ℕ) : Pcb κ × Delivery :=
  if p.session = none ∨ r.readyBytes = 0 then ({ p with receive := some r }, { buffer := r })
  else if r.blocked then
    ({ p with receive := some r }, { buffer := r, result := { status := .wouldBlock } })
  else
    let d := drainTcpReceiveBuffer r trySend callBudget
    (p.afterDelivery d, d)

/-- What became of the payload of a segment. -/
structure PayloadResult (κ : Type) where
  pcb : Pcb κ
  received : TcpReceiveResult
  delivery : Delivery
  /-- How many more bytes are in order. -/
  inOrder : ℕ

/-- Note the congestion mark of a payload of which `acceptedBytes` are new, and the
    timestamp if the payload moved the left edge of the window. -/
def markPayload (segment : TcpSegmentView) (timestamp : Option UInt32) (acceptedBytes : ℕ)
    (moved : Bool) : Pcb κ :=
  let echo := p.ecnEcePending && !segment.hasFlag TcpFlag.cwr ||
    acceptedBytes != 0 && segment.ipEcn == 3
  { p with
    ecnEcePending := if p.options.ecn then echo else p.ecnEcePending
    options := { p.options with
      peerTimestamp := match timestamp with
        | some value => if moved then value else p.options.peerTimestamp
        | none => p.options.peerTimestamp } }

/-- Store the payload of a segment and deliver what is in order. -/
def takePayload (r : TcpReceiveBuffer) (segment : TcpSegmentView) (timestamp : Option UInt32)
    (trySend : TrySend) (callBudget : ℕ) : PayloadResult κ :=
  let (r', received) := r.onSegment segment.sequence segment.payload (segment.hasFlag TcpFlag.psh)
  let p := p.markPayload segment timestamp received.acceptedBytes (r'.rcvNxt ≠ r.rcvNxt)
  let (p, delivery) := p.drainSession r' trySend callBudget
  { pcb := p, received := received, delivery := delivery, inOrder := r'.readyBytes - r.readyBytes }

/-- A segment without payload: a CWR stops the echo of congestion marks, and a
    timestamp at the left edge of the window is the peer's last. -/
def takeEmpty (r : TcpReceiveBuffer) (segment : TcpSegmentView) (timestamp : Option UInt32) :
    Pcb κ :=
  { p with
    ecnEcePending := if p.options.ecn && segment.hasFlag TcpFlag.cwr then false
      else p.ecnEcePending
    options := { p.options with
      peerTimestamp := match timestamp with
        | some value => if segment.sequence = r.rcvNxt then value else p.options.peerTimestamp
        | none => p.options.peerTimestamp } }

/-! ## Closing -/

/-- The state after the peer's FIN, where no timer is needed for it. -/
def stateAfterFin : TcpState → TcpState
  | .established => .closeWait
  | .finWait1 => .closing
  | state => state

/-- Consume the peer's FIN. -/
def takeFin (r : TcpReceiveBuffer) : Pcb κ :=
  { p with
    receive := some r.consumeFin
    finReceived := true
    closeNotified := true
    state := stateAfterFin p.state }

/-- The session learns of the FIN, once. -/
def finObserved : List Observed :=
  if p.session.isSome && !p.closeNotified then [.finConsumed, .shutdownWrite] else [.finConsumed]

/-- Close this end: a FIN follows the data. -/
def requestClose : Pcb κ :=
  match p.state with
  | .established => { p with state := .finWait1, send := p.send.map fun send => send.requestFin.1 }
  | .closeWait => { p with state := .lastAck, send := p.send.map fun send => send.requestFin.1 }
  | _ => p

/-- The connection waits for segments that are still under way. -/
def enterTimeWait (deadlineMs : ℕ) (timer : TimerId) : Pcb κ :=
  { p with state := .timeWait, timewaitDeadlineMs := deadlineMs, timewaitTimer := timer }

/-! ## Sending -/

/-- The segment for what the send buffer wants to transmit next. -/
def dataSegment (next : TcpSendNextResult) (nowMs : ℕ) : TcpResponse :=
  let flags := if next.isFin then TcpFlag.ack ||| TcpFlag.fin else TcpFlag.ack
  { flow := reverseFlow p.incomingFlow
    sequence := next.sequence
    acknowledgment := p.currentRcvNxt
    flags := if p.options.ecn && next.setCwr then flags ||| TcpFlag.cwr else flags
    ipEcn := if p.options.ecn && (!next.payload.isEmpty || next.isFin) then 2 else 0
    timestampPresent := p.options.timestamps
    timestampValue := UInt32.ofNat nowMs
    timestampEcho := p.options.peerTimestamp
    payload := next.payload
    sackBlocks := match p.receive with
      | some r => p.sackBlocks r
      | none => []
    window := match p.receive with
      | some r => p.windowField r
      | none => wireWindow 0 p.receiveScale }

/-- The segment size after the path to the peer shrank to `pmtuMss` bytes of payload. -/
def loweredMss (config : TcpHandshakeConfig) (pmtuMss : UInt16) : UInt16 :=
  let mss := p.options.peerMss
  let mss := if mss > pmtuMss then pmtuMss else mss
  let mss := if mss > config.localMss then config.localMss else mss
  if config.txPayloadLimit ≠ 0 ∧ mss > config.txPayloadLimit then config.txPayloadLimit else mss

end Pcb

end Netstack2
