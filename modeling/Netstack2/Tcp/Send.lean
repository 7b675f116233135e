import Netstack2.Tcp.Congestion
import Netstack2.Tcp.Receive

/-!
# The TCP send buffer

The send path of one connection: unsent application data, the retransmission
queue, the persist probe, the retransmission and persist timers and the
sender's side of ECN, as `TcpSendBuffer` keeps them.

A segment is sent in two steps. `nextSegment` decides what to send and notes it
as *pending*; after the caller has queued the segment, `onSent` commits it (or
`resetPending` gives it up). What the peer acknowledges comes back through
`onAck` and `onSack`.

The fields are grouped by what they are for (`SendQueues`, `SendTimers`,
`PendingSegment`). The bytes a record retains are kept as a list: the slice it
holds of its owner buffer, which nobody changes while the record lives. Sizes
are unbounded naturals; the 32-bit counters of the source wrap here, too.
-/

namespace Netstack2

open CongestionController

/-- `SequenceBefore` of the source: the signed difference is negative. -/
def sequenceBefore (left right : UInt32) : Bool := SignedNeg (left - right)

/-- `SequenceAfter` of the source: the signed difference is positive. -/
def sequenceAfter (left right : UInt32) : Bool := SignedPos (left - right)

/-- The parameters of a send buffer. -/
structure TcpSendConfig where
  initialMss : UInt16 := 1460
  sendQueueLimit : ℕ := 256 * 1024
  retransmitQueueLimit : ℕ := 256 * 1024
  minRtoMs : ℕ := 200
  maxRtoMs : ℕ := 120000
  initialRtoMs : ℕ := 1000
  persistTimerBaseMs : ℕ := 500
  persistTimerMaxMs : ℕ := 60000
  maxRetransmissions : ℕ := 15
  maxPersistProbes : ℕ := 15

/-- The check of the parameters. The window scale is checked with them, but the buffer
    does not use it. -/
def TcpSendConfig.validate (c : TcpSendConfig) (windowScale : UInt8) : Bool :=
  c.initialMss ≠ 0 ∧ windowScale ≤ 14 ∧ c.sendQueueLimit ≠ 0 ∧ c.retransmitQueueLimit ≠ 0 ∧
    c.minRtoMs ≠ 0 ∧ c.minRtoMs ≤ c.initialRtoMs ∧ c.initialRtoMs ≤ c.maxRtoMs ∧
    c.persistTimerBaseMs ≠ 0 ∧ c.persistTimerBaseMs ≤ c.persistTimerMaxMs ∧
    c.maxRetransmissions ≠ 0 ∧ c.maxPersistProbes ≠ 0

/-- An in-flight segment awaiting its acknowledgment. -/
structure SendRecord where
  seq : UInt32
  /-- The sequence numbers it takes: its bytes, and its FIN if it has one. -/
  logicalLength : ℕ
  data : Bytes
  sentTimeMs : ℕ
  rtoAttempts : ℕ := 0
  retransmitted : Bool := false
  sacked : Bool := false
  delivery : PacketDeliveryState := {}
  deriving DecidableEq

/-- The queues and the sequence numbers of a send buffer. -/
structure SendQueues where
  sendQueue : Bytes := []
  sendQueueLimit : ℕ
  retransmitQueue : List SendRecord := []
  retransmitLimit : ℕ
  retransmitBytes : ℕ := 0
  inFlightBytes : ℕ := 0
  inFlightSequence : ℕ := 0
  persistProbe : Option SendRecord := none
  sackedBytes : ℕ := 0
  sackedSequence : ℕ := 0
  sndUna : UInt32
  sndNxt : UInt32
  sndMax : UInt32
  finRequested : Bool := false
  finSent : Bool := false
  finAcked : Bool := false
  closed : Bool := false
  deriving DecidableEq

/-- The timers of a send buffer, and what it tracks to run them. -/
structure SendTimers where
  rtoMs : ℕ
  rtoDeadlineMs : ℕ := 0
  minRtoMs : ℕ
  maxRtoMs : ℕ
  rtoRunning : Bool := false
  srttValid : Bool := false
  srttMs : ℕ := 0
  rttvarMs : ℕ := 0
  dupAckCount : ℕ := 0
  lastPeerWindow : UInt32 := 0
  peerWindowValid : Bool := false
  fastRetransmitPending : Bool := false
  retransmissionCount : ℕ := 0
  maxRetransmissions : ℕ
  persistDeadlineMs : ℕ := 0
  persistBaseMs : ℕ
  persistMaxMs : ℕ
  persistCurrentMs : ℕ
  persistProbeCount : ℕ := 0
  maxPersistProbes : ℕ
  nextSendTimeMs : ℕ := 0
  ecnCwrQueued : Bool := false
  deliveredCe : ℕ := 0
  deriving DecidableEq

/-- Why the pending segment is sent. -/
inductive PendingKind
  | none
  | newData
  | rtoRetransmit
  | fastRetransmit
  | persistNew
  | persistRetry
  | persistExisting
  | persistPromote
  deriving DecidableEq

/-- The segment between `nextSegment` and `onSent`. -/
structure PendingSegment where
  pendingKind : PendingKind := .none
  pendingIsFin : Bool := false
  pendingSetCwr : Bool := false
  pendingSeq : UInt32 := 0
  pendingLen : ℕ := 0
  deriving DecidableEq

/-- The send buffer of a connection with a congestion controller `κ`. -/
structure TcpSendBuffer (κ : Type) extends SendQueues, SendTimers, PendingSegment where
  controller : κ
  sampler : DeliveryRateSampler := {}
  mss : UInt16
  deriving DecidableEq

/-- What to transmit next. -/
structure TcpSendNextResult where
  hasSegment : Bool := false
  isRetransmission : Bool := false
  isZeroWindowProbe : Bool := false
  isFin : Bool := false
  setCwr : Bool := false
  payload : Bytes := []
  sequence : UInt32 := 0

/-- What an incoming acknowledgment did. -/
structure TcpSendAckResult where
  newlyAcked : ℕ := 0
  duplicate : Bool := false
  fastRetransmit : Bool := false
  fullyAcked : Bool := false
  unacceptable : Bool := false
  retransmitQueueBytes : ℕ := 0

/-- The record carries a FIN after its bytes. -/
def SendRecord.carriesFin (r : SendRecord) : Bool := r.data.length < r.logicalLength

namespace TcpSendBuffer

variable {κ : Type} [CongestionController κ] (b : TcpSendBuffer κ)

/-- A new send buffer, whose first byte gets the sequence number `initialSequence` and whose
    controller `makeController` creates for the initial maximum segment size. -/
def new (initialSequence : UInt32) (config : TcpSendConfig) (makeController : UInt16 → κ) :
    TcpSendBuffer κ where
  sendQueueLimit := config.sendQueueLimit
  retransmitLimit := config.retransmitQueueLimit
  sndUna := initialSequence
  sndNxt := initialSequence
  sndMax := initialSequence
  controller := makeController config.initialMss
  mss := config.initialMss
  rtoMs := config.initialRtoMs
  minRtoMs := config.minRtoMs
  maxRtoMs := config.maxRtoMs
  maxRetransmissions := config.maxRetransmissions
  persistBaseMs := config.persistTimerBaseMs
  persistMaxMs := config.persistTimerMaxMs
  persistCurrentMs := config.persistTimerBaseMs
  maxPersistProbes := config.maxPersistProbes

/-! ## Application data -/

/-- The bytes of `data` that `enqueue` takes. -/
def accepted (data : Bytes) : Bytes :=
  if data = [] ∨ b.finRequested ∨ b.closed ∨ b.sendQueue.length ≥ b.sendQueueLimit then []
  else data.take (b.sendQueueLimit - b.sendQueue.length)

/-- Enqueue application data: as much of it as the queue has room for. -/
def enqueue (data : Bytes) : TcpSendBuffer κ × ℕ :=
  let taken := b.accepted data
  if taken = [] then (b, 0)
  else ({ b with
    sendQueue := b.sendQueue ++ taken
    sampler := b.sampler.clearAppLimited }, taken.length)

/-- Request a FIN after all queued data. -/
def requestFin : TcpSendBuffer κ × Bool :=
  if b.finRequested ∨ b.closed then (b, false) else ({ b with finRequested := true }, true)

/-! ## Timers -/

/-- There is something to send, or something sent and not acknowledged. -/
def hasWork : Bool :=
  !b.sendQueue.isEmpty || !b.retransmitQueue.isEmpty || b.persistProbe.isSome ||
    (b.finRequested && !b.finSent)

def armPersistTimer (nowMs : ℕ) : TcpSendBuffer κ :=
  if b.closed ∨ b.hasWork = false ∨ b.persistDeadlineMs ≠ 0 then b
  else { b with
    persistCurrentMs := b.persistBaseMs
    persistDeadlineMs := saturatingAdd nowMs b.persistBaseMs }

def persistExpired (nowMs : ℕ) : Bool :=
  !b.closed && b.persistDeadlineMs != 0 && b.persistDeadlineMs ≤ nowMs

def cancelPersist : TcpSendBuffer κ :=
  { b with persistDeadlineMs := 0, persistCurrentMs := b.persistBaseMs, persistProbeCount := 0 }

/-- The next probe waits twice as long, up to the largest interval. -/
def scheduleNextPersist (nowMs : ℕ) : TcpSendBuffer κ :=
  let current :=
    if b.persistCurrentMs ≥ b.persistMaxMs ∨ b.persistCurrentMs > b.persistMaxMs / 2 then
      b.persistMaxMs
    else wrapUint64 (b.persistCurrentMs * 2)
  { b with persistCurrentMs := current, persistDeadlineMs := saturatingAdd nowMs current }

def armRto (nowMs : ℕ) : TcpSendBuffer κ :=
  if b.retransmitQueue.isEmpty then { b with rtoRunning := false, rtoDeadlineMs := 0 }
  else { b with rtoRunning := true, rtoDeadlineMs := saturatingAdd nowMs b.rtoMs }

def retransmitExpired (nowMs : ℕ) : Bool :=
  !b.closed && b.rtoRunning && b.rtoDeadlineMs != 0 && b.rtoDeadlineMs ≤ nowMs

/-- Double the retransmission timeout, up to its largest value. -/
def backoffRto : TcpSendBuffer κ :=
  if b.rtoMs ≥ b.maxRtoMs ∨ b.rtoMs > b.maxRtoMs / 2 then { b with rtoMs := b.maxRtoMs }
  else { b with rtoMs := wrapUint64 (b.rtoMs * 2) }

/-- The retransmission timeout after a round-trip time of `rttMs` (RFC 6298). -/
def recomputeRto (rttMs : ℕ) : TcpSendBuffer κ :=
  let difference := if b.srttMs > rttMs then b.srttMs - rttMs else rttMs - b.srttMs
  let rttvar :=
    if b.srttValid then wrapUint64 (wrapUint64 (3 * b.rttvarMs) + difference) / 4 else rttMs / 2
  let srtt := if b.srttValid then wrapUint64 (wrapUint64 (7 * b.srttMs) + rttMs) / 8 else rttMs
  let variation := if rttvar > maxUint64 / 4 then maxUint64 else max 1 (rttvar * 4)
  let computed := saturatingAdd srtt variation
  { b with
    srttMs := srtt
    rttvarMs := rttvar
    srttValid := true
    rtoMs := if computed < b.minRtoMs then b.minRtoMs
      else if b.maxRtoMs < computed then b.maxRtoMs else computed }

def cancelTimers : TcpSendBuffer κ :=
  { b with rtoRunning := false, rtoDeadlineMs := 0, persistDeadlineMs := 0, nextSendTimeMs := 0 }

/-- Give up the connection: drop all data and stop the timers. -/
def close : TcpSendBuffer κ :=
  let b := { b with closed := true }.cancelTimers
  { b with
    sendQueue := []
    retransmitQueue := []
    persistProbe := none
    retransmitBytes := 0
    inFlightBytes := 0
    inFlightSequence := 0
    sackedBytes := 0
    sackedSequence := 0
    fastRetransmitPending := false
    pendingKind := .none
    nextSendTimeMs := 0
    ecnCwrQueued := false
    pendingSetCwr := false
    sampler := {}
    controller := reset b.controller }

/-! ## The next segment -/

/-- What the peer window and the congestion window leave to be sent. The
    sequence numbers in flight count without those selectively acknowledged. -/
def usableWindow (peerWindow : UInt32) : ℕ :=
  let allowed := min peerWindow.toNat (congestionWindow b.controller).toNat
  let pipe :=
    if b.inFlightSequence > b.sackedSequence then b.inFlightSequence - b.sackedSequence else 0
  if allowed > pipe then allowed - pipe else 0

def canSendNew (peerWindow : UInt32) : Bool :=
  if peerWindow = 0 ∨ b.usableWindow peerWindow = 0 ∨ b.retransmitBytes ≥ b.retransmitLimit then
    false
  else !b.sendQueue.isEmpty || (b.finRequested && !b.finSent)

/-- The probe of a closed window: the probe sent before, or else one byte (or the FIN) of the first
    record in flight, or else the next byte (or the FIN) to be sent. -/
def probeSegment : TcpSendBuffer κ × TcpSendNextResult :=
  let result : TcpSendNextResult := { setCwr := b.pendingSetCwr }
  match b.persistProbe with
  | some probe =>
    ({ b with
        pendingKind := .persistRetry
        pendingSeq := probe.seq
        pendingLen := probe.logicalLength
        pendingIsFin := probe.carriesFin }, { result with
        hasSegment := true
        isRetransmission := true
        isZeroWindowProbe := true
        isFin := probe.carriesFin
        payload := probe.data
        sequence := probe.seq })
  | none => match b.retransmitQueue with
    | record :: _ =>
      let payload := record.data.take 1
      let isFin := payload.isEmpty && record.carriesFin
      ({ b with
          pendingKind := .persistExisting
          pendingSeq := record.seq
          pendingLen := payload.length + (if isFin then 1 else 0)
          pendingIsFin := isFin }, { result with
          hasSegment := true
          isRetransmission := true
          isZeroWindowProbe := true
          isFin := isFin
          payload := payload
          sequence := record.seq })
    | [] =>
      if b.retransmitBytes ≥ b.retransmitLimit then (b, result)
      else if b.sendQueue ≠ [] then
        ({ b with pendingKind := .persistNew, pendingSeq := b.sndNxt, pendingLen := 1 },
          { result with
            hasSegment := true
            isZeroWindowProbe := true
            payload := b.sendQueue.take 1
            sequence := b.sndNxt })
      else if b.finRequested && !b.finSent then
        ({ b with
            pendingKind := .persistNew
            pendingIsFin := true
            pendingSeq := b.sndNxt
            pendingLen := 1 }, { result with
            hasSegment := true
            isZeroWindowProbe := true
            isFin := true
            sequence := b.sndNxt })
      else (b, result)

/-- The segment to send at a closed window: a probe, once the persist timer has
    expired; after too many probes, the buffer closes. -/
def persistSegment (nowMs : ℕ) : TcpSendBuffer κ × TcpSendNextResult :=
  let b := { b with rtoRunning := false, rtoDeadlineMs := 0 }.armPersistTimer nowMs
  let result : TcpSendNextResult := { setCwr := b.pendingSetCwr }
  if b.persistExpired nowMs = false then (b, result)
  else if b.persistProbeCount ≥ b.maxPersistProbes then (b.close, result)
  else b.probeSegment

/-- Send the probe again as an ordinary segment, now that the window is open. -/
def promoteSegment (probe : SendRecord) (peerWindow : UInt32) :
    TcpSendBuffer κ × TcpSendNextResult :=
  let result : TcpSendNextResult := { setCwr := b.pendingSetCwr }
  if b.usableWindow peerWindow < probe.logicalLength then (b, result)
  else
    ({ b with
        pendingKind := .persistPromote
        pendingSeq := probe.seq
        pendingLen := probe.logicalLength
        pendingIsFin := probe.carriesFin }, { result with
        hasSegment := true
        isRetransmission := true
        isFin := probe.carriesFin
        payload := probe.data
        sequence := probe.seq })

/-- Retransmit as much of `record` as fits a segment and the peer window. -/
def prepareRetransmission (record : SendRecord) (kind : PendingKind) (peerWindow : UInt32) :
    TcpSendBuffer κ × TcpSendNextResult :=
  let result : TcpSendNextResult := { setCwr := b.pendingSetCwr }
  let payloadLength := min record.data.length (min b.mss.toNat peerWindow.toNat)
  let includeFin := record.carriesFin && payloadLength == record.data.length &&
    payloadLength < peerWindow.toNat
  if payloadLength = 0 ∧ includeFin = false then (b, result)
  else
    ({ b with
        pendingKind := kind
        pendingSeq := record.seq
        pendingLen := payloadLength + (if includeFin then 1 else 0)
        pendingIsFin := includeFin }, { result with
        hasSegment := true
        isRetransmission := true
        isFin := includeFin
        payload := record.data.take payloadLength
        sequence := record.seq })

/-- The bytes of a segment of new data. -/
def newPayloadLength (peerWindow : UInt32) : ℕ :=
  min b.sendQueue.length
    (min b.mss.toNat (min (b.usableWindow peerWindow) (b.retransmitLimit - b.retransmitBytes)))

/-- The FIN goes with the last byte, if the windows have room for both, or after it. -/
def newIncludesFin (peerWindow : UInt32) : Bool :=
  let usable := b.usableWindow peerWindow
  let available := b.retransmitLimit - b.retransmitBytes
  let payloadLength := b.newPayloadLength peerWindow
  b.finRequested && !b.finSent &&
    if payloadLength ≠ 0 then
      payloadLength == b.sendQueue.length && payloadLength < usable && payloadLength < available
    else usable != 0 && available != 0

/-- Send new data, and the FIN once all data is sent. -/
def newSegment (peerWindow : UInt32) (nowMs : ℕ) : TcpSendBuffer κ × TcpSendNextResult :=
  let result : TcpSendNextResult := { setCwr := b.pendingSetCwr }
  if b.canSendNew peerWindow = false then (b, result)
  -- the pacing gate
  else if b.nextSendTimeMs ≠ 0 ∧ nowMs < b.nextSendTimeMs then (b, result)
  else
    let payloadLength := b.newPayloadLength peerWindow
    let includeFin := b.newIncludesFin peerWindow
    if payloadLength = 0 ∧ includeFin = false then (b, result)
    else
      ({ b with
          pendingKind := .newData
          pendingIsFin := includeFin
          pendingSeq := b.sndNxt
          pendingLen := payloadLength + (if includeFin then 1 else 0) }, { result with
          hasSegment := true
          isFin := includeFin
          payload := b.sendQueue.take payloadLength
          sequence := b.sndNxt })

/-- The segment to send at an open window. -/
def openSegment (peerWindow : UInt32) (nowMs : ℕ) : TcpSendBuffer κ × TcpSendNextResult :=
  let b := b.cancelPersist
  match b.persistProbe with
  | some probe => b.promoteSegment probe peerWindow
  | none =>
    let b := if !b.retransmitQueue.isEmpty && !b.rtoRunning then b.armRto nowMs else b
    match b.retransmitQueue with
    | record :: _ =>
      if b.fastRetransmitPending then b.prepareRetransmission record .fastRetransmit peerWindow
      else if b.retransmitExpired nowMs then
        b.prepareRetransmission record .rtoRetransmit peerWindow
      else b.newSegment peerWindow nowMs
    | [] => b.newSegment peerWindow nowMs

/-- Determine the next segment to transmit at the peer window `peerWindow`. -/
def nextSegment (peerWindow : UInt32) (nowMs : ℕ) : TcpSendBuffer κ × TcpSendNextResult :=
  if b.closed ∨ b.pendingKind ≠ .none then (b, {})
  else
    let b := if b.peerWindowValid then b
      else { b with lastPeerWindow := peerWindow, peerWindowValid := true }
    -- the next segment, of whatever kind, carries a CWR that is owed
    let b := { b with pendingSetCwr := b.ecnCwrQueued }
    if peerWindow = 0 then b.persistSegment nowMs else b.openSegment peerWindow nowMs

/-! ## Committing the segment -/

/-- Forget the pending segment. -/
def resetPending : TcpSendBuffer κ :=
  { b with
    pendingKind := .none
    pendingIsFin := false
    pendingSetCwr := false
    pendingSeq := 0
    pendingLen := 0 }

/-- The bytes of the pending segment. -/
def pendingPayloadLength : ℕ := b.pendingLen - (if b.pendingIsFin then 1 else 0)

/-- The slice of `owner` the pending segment is retained in, if there is room
    for it in the queues and in the owner. -/
def retained (owner : Option Bytes) (payloadOffset : ℕ) : Option Bytes :=
  let payloadLength := b.pendingPayloadLength
  if payloadLength > b.sendQueue.length ∨ b.pendingLen > b.retransmitLimit - b.retransmitBytes then
    none
  else if payloadLength = 0 then some []
  else match owner with
    | none => none
    | some bytes =>
      if payloadOffset > bytes.length ∨ payloadLength > bytes.length - payloadOffset then none
      else some ((bytes.drop payloadOffset).take payloadLength)

/-- The pending segment takes its sequence numbers, and its bytes leave the send queue. -/
def takePending : TcpSendBuffer κ :=
  let sndNxt := b.sndNxt + UInt32.ofNat b.pendingLen
  { b with
    sendQueue := b.sendQueue.drop b.pendingPayloadLength
    retransmitBytes := b.retransmitBytes + b.pendingLen
    sndNxt := sndNxt
    sndMax := if sequenceAfter sndNxt b.sndMax then sndNxt else b.sndMax
    finSent := b.finSent || b.pendingIsFin }

/-- The record of the pending segment, retained as `data`. -/
def pendingRecord (data : Bytes) (nowMs : ℕ) : SendRecord where
  seq := b.pendingSeq
  logicalLength := saturatingUint32 b.pendingLen
  data := data
  sentTimeMs := nowMs
  delivery := b.sampler.onPacketSent {} nowMs

/-- The record of new data is marked app-limited when it drains the send queue
    and does not fill the pipe. -/
def newRecord (data : Bytes) (nowMs : ℕ) : SendRecord :=
  let drainsQueue := !b.pendingIsFin && b.pendingPayloadLength == b.sendQueue.length
  let pipeNotFull := b.inFlightSequence + b.pendingLen < (congestionWindow b.controller).toNat
  let record := b.pendingRecord data nowMs
  { record with delivery := { record.delivery with appLimited := drainsQueue && pipeNotFull } }

/-- The new segment is in flight: the retransmission timer runs, the sampler notes a drained queue,
    and the pacing gate waits for the segment's time at the pacing rate. -/
def afterNewRecord (nowMs : ℕ) : TcpSendBuffer κ :=
  let b := if b.rtoRunning then b else b.armRto nowMs
  let b :=
    if !b.pendingIsFin && b.sendQueue.isEmpty && b.inFlightSequence != 0 then
      { b with sampler := b.sampler.markAppLimited }
    else b
  let rate := (pacingRate b.controller).toNat
  if rate > 0 ∧ b.pendingLen > 0 then
    let intervalMs := wrapUint64 (b.pendingLen * 1000) / rate
    { b with nextSendTimeMs := saturatingAdd nowMs intervalMs }
  else b

/-- Put the new segment on the retransmission queue; `false` if it cannot be retained. -/
def storeNewRecord (owner : Option Bytes) (payloadOffset nowMs : ℕ) : TcpSendBuffer κ × Bool :=
  match b.retained owner payloadOffset with
  | none => (b, false)
  | some data =>
    let b := { b with
      retransmitQueue := b.retransmitQueue ++ [b.newRecord data nowMs]
      inFlightBytes := b.inFlightBytes + b.pendingPayloadLength
      inFlightSequence := b.inFlightSequence + b.pendingLen }.takePending
    (b.afterNewRecord nowMs, true)

/-- Keep the probe apart from the retransmission queue. -/
def storeProbe (owner : Option Bytes) (payloadOffset nowMs : ℕ) : TcpSendBuffer κ × Bool :=
  match b.retained owner payloadOffset with
  | none => (b, false)
  | some data =>
    let probe := { b.pendingRecord data nowMs with retransmitted := true }
    ({ b with persistProbe := some probe }.takePending, true)

/-- The promoted probe joins the retransmission queue. -/
def promoteProbe (nowMs : ℕ) : TcpSendBuffer κ × Bool :=
  match b.persistProbe with
  | none => (b, false)
  | some probe =>
    let record := { probe with sentTimeMs := nowMs, retransmitted := true }
    ({ b with
      persistProbe := none
      inFlightBytes := b.inFlightBytes + record.data.length
      inFlightSequence := b.inFlightSequence + record.logicalLength
      retransmitQueue := b.retransmitQueue ++ [record] }.armRto nowMs, true)

/-- Enter recovery on the first timeout of a record, where the algorithm does. -/
def rtoEntry (firstTimeout : Bool) : κ :=
  if firstTimeout ∧ (algorithm b.controller = .aimd ∨ algorithm b.controller = .hybridBdpAimd) then
    onFastRecoveryEntry b.controller (UInt32.ofNat (saturatingUint32 b.inFlightSequence))
  else b.controller

/-- The first record was retransmitted on a timeout; after too many of them, the buffer closes. -/
def commitRto (nowMs : ℕ) : TcpSendBuffer κ × Bool :=
  match b.retransmitQueue with
  | [] => (b, false)
  | record :: records =>
    let attempts := record.rtoAttempts + 1
    let controller := b.rtoEntry (record.rtoAttempts == 0)
    let record := { record with
      retransmitted := true, sentTimeMs := nowMs, rtoAttempts := attempts }
    let b := { b with
      retransmitQueue := record :: records
      retransmissionCount := b.retransmissionCount + 1
      controller := onRto controller
      fastRetransmitPending := false }
    let b := b.backoffRto.armRto nowMs
    (if attempts ≥ b.maxRetransmissions then b.close else b, true)

/-- The first record was retransmitted on duplicate acknowledgments. -/
def commitFast (nowMs : ℕ) : TcpSendBuffer κ × Bool :=
  match b.retransmitQueue with
  | [] => (b, false)
  | record :: records =>
    let record := { record with
      retransmitted := true
      sentTimeMs := nowMs
      delivery := { record.delivery with retransmitted := true } }
    ({ b with
      retransmitQueue := record :: records
      retransmissionCount := b.retransmissionCount + 1
      fastRetransmitPending := false }.armRto nowMs, true)

/-- What `onSent` does to the queues for the pending segment; `false` if the
    segment cannot be accounted for. -/
def commit (owner : Option Bytes) (payloadOffset nowMs : ℕ) : TcpSendBuffer κ × Bool :=
  match b.pendingKind with
  | .none => (b, true)
  | .newData => b.storeNewRecord owner payloadOffset nowMs
  | .persistNew => b.storeProbe owner payloadOffset nowMs
  | .persistPromote => b.promoteProbe nowMs
  | .rtoRetransmit => b.commitRto nowMs
  | .fastRetransmit => b.commitFast nowMs
  | .persistRetry =>
    ({ b with persistProbe := b.persistProbe.map ({ · with retransmitted := true }) },
      b.persistProbe.isSome)
  | .persistExisting => match b.retransmitQueue with
    | [] => (b, false)
    | record :: records =>
      ({ b with retransmitQueue := { record with retransmitted := true } :: records }, true)

/-- The pending segment was queued for transmission, its payload retained in
    `owner` at `payloadOffset`. -/
def onSent (owner : Option Bytes) (payloadOffset nowMs : ℕ) : TcpSendBuffer κ :=
  if b.pendingKind = .none then b
  else
    let kind := b.pendingKind
    let (b, accepted) := b.commit owner payloadOffset nowMs
    let b :=
      if accepted ∧ (kind = .persistNew ∨ kind = .persistRetry ∨ kind = .persistExisting) then
        { b with persistProbeCount := b.persistProbeCount + 1 }.scheduleNextPersist nowMs
      else b
    let b := if accepted && b.pendingSetCwr then { b with ecnCwrQueued := false } else b
    b.resetPending

/-! ## Acknowledgments -/

/-- What the walk over the acknowledged records accumulates. -/
structure AckWalk where
  remaining : ℕ
  acknowledgedPayload : ℕ := 0
  rttSample : Option ℕ := none
  ackCoversRetransmission : Bool := false
  partialRtoRecovery : Bool := false
  ackedRecordDelivery : Option PacketDeliveryState := none
  retransmitBytes : ℕ
  inFlightSequence : ℕ
  inFlightBytes : ℕ
  sackedBytes : ℕ
  sackedSequence : ℕ
  finAcked : Bool

/-- One record, of which `take` sequence numbers are acknowledged. -/
def AckWalk.visit (w : AckWalk) (r : SendRecord) (take : ℕ) : AckWalk :=
  let payloadTake := min take r.data.length
  { w with
    ackedRecordDelivery :=
      if w.ackedRecordDelivery.isNone ∧ take = r.logicalLength then some r.delivery
      else w.ackedRecordDelivery
    retransmitBytes := w.retransmitBytes - take
    inFlightSequence := w.inFlightSequence - take
    inFlightBytes := w.inFlightBytes - payloadTake
    acknowledgedPayload := w.acknowledgedPayload + payloadTake
    remaining := w.remaining - take
    ackCoversRetransmission := w.ackCoversRetransmission || r.retransmitted }

/-- A record acknowledged as a whole leaves the queue. -/
def AckWalk.finish (w : AckWalk) (r : SendRecord) (nowMs : ℕ) : AckWalk :=
  { w with
    rttSample :=
      if w.rttSample.isNone ∧ r.retransmitted = false ∧ r.sentTimeMs ≤ nowMs then
        some (nowMs - r.sentTimeMs)
      else w.rttSample
    finAcked := w.finAcked || r.carriesFin
    sackedBytes := if r.sacked then w.sackedBytes - r.data.length else w.sackedBytes
    sackedSequence := if r.sacked then w.sackedSequence - r.logicalLength else w.sackedSequence }

/-- A record acknowledged in part stays, and loses its selective acknowledgment. -/
def AckWalk.trim (w : AckWalk) (r : SendRecord) (take : ℕ) : AckWalk :=
  { w with
    sackedBytes := if r.sacked then w.sackedBytes - min take r.data.length else w.sackedBytes
    sackedSequence := if r.sacked then w.sackedSequence - take else w.sackedSequence
    partialRtoRecovery := r.rtoAttempts != 0 }

/-- What is left of a record after its first `take` sequence numbers. -/
def trimRecord (r : SendRecord) (take : ℕ) : SendRecord :=
  { r with
    seq := r.seq + UInt32.ofNat take
    logicalLength := r.logicalLength - take
    data := r.data.drop (min take r.data.length)
    sacked := false }

/-- Remove the acknowledged records, and trim the one the acknowledgment ends inside of. -/
def ackRecords (nowMs : ℕ) : AckWalk → List SendRecord → AckWalk × List SendRecord
  | w, [] => (w, [])
  | w, r :: rs =>
    if w.remaining = 0 then (w, r :: rs)
    else
      let take := min w.remaining r.logicalLength
      let w := w.visit r take
      if take = r.logicalLength then ackRecords nowMs (w.finish r nowMs) rs
      else (w.trim r take, trimRecord r take :: rs)

/-- The part of an acknowledgment that covers the persist probe. -/
def ackProbe (w : AckWalk) : Option SendRecord → AckWalk × Option SendRecord
  | none => (w, none)
  | some probe =>
    if w.remaining = 0 then (w, some probe)
    else
      let take := min w.remaining probe.logicalLength
      let payloadTake := min take probe.data.length
      let w := { w with
        retransmitBytes := w.retransmitBytes - take
        acknowledgedPayload := w.acknowledgedPayload + payloadTake
        remaining := w.remaining - take }
      if take = probe.logicalLength then
        ({ w with finAcked := w.finAcked || probe.carriesFin }, none)
      else
        (w, some { probe with
          seq := probe.seq + UInt32.ofNat take
          logicalLength := probe.logicalLength - take
          data := probe.data.drop payloadTake })

/-- The peer window is closed: the persist timer takes over. -/
def restartPersist : TcpSendBuffer κ :=
  { b with
    rtoRunning := false
    rtoDeadlineMs := 0
    persistProbeCount := 0
    persistCurrentMs := b.persistBaseMs
    persistDeadlineMs := 0 }

/-- The algorithm has fast recovery: all but BBR. -/
def hasFastRecovery (a : CongestionAlgorithm) : Bool :=
  a == .aimd || a == .hybridBdpAimd || a == .kcc

/-- The controller after an acknowledgment that moves nothing: one that qualifies as a duplicate
    inflates the window in recovery, and the third `triggers` recovery. -/
def duplicateAckController (qualifying triggers : Bool) : κ :=
  let recovers := hasFastRecovery (algorithm b.controller)
  let controller :=
    if qualifying && inFastRecovery b.controller && recovers then onDupAck b.controller
    else b.controller
  if triggers && recovers then
    onFastRecoveryEntry controller (UInt32.ofNat (saturatingUint32 b.inFlightSequence))
  else controller

/-- The timers after an acknowledgment that moves nothing. -/
def rearmDuplicate (peerWindow : UInt32) (nowMs : ℕ) : TcpSendBuffer κ :=
  if peerWindow = 0 then b.restartPersist.armPersistTimer nowMs
  else
    let b := b.cancelPersist
    if !b.retransmitQueue.isEmpty && !b.rtoRunning then b.armRto nowMs else b

/-- An acknowledgment that moves nothing: a duplicate, or a window update. -/
def onDuplicateAck (peerWindow : UInt32) (nowMs : ℕ) (ackOnly : Bool) :
    TcpSendBuffer κ × TcpSendAckResult :=
  let hasOutstanding := !b.retransmitQueue.isEmpty || b.persistProbe.isSome
  let qualifying := ackOnly && hasOutstanding && peerWindow != 0 && b.peerWindowValid &&
    peerWindow == b.lastPeerWindow
  let count := if qualifying then b.dupAckCount + 1 else 0
  let triggers := qualifying && count == 3 && !b.retransmitQueue.isEmpty &&
    !inFastRecovery b.controller
  let b := { b with
    dupAckCount := count
    controller := b.duplicateAckController qualifying triggers
    fastRetransmitPending := b.fastRetransmitPending || triggers
    lastPeerWindow := peerWindow
    peerWindowValid := true }.rearmDuplicate peerWindow nowMs
  (b, { duplicate := true
        fastRetransmit := triggers
        fullyAcked := b.retransmitQueue.isEmpty && b.persistProbe.isNone
        retransmitQueueBytes := b.inFlightBytes })

/-- The sampler after an acknowledgment that moved `sndUna`, and its sample. -/
def rateSample (w : AckWalk) (nowMs : ℕ) : DeliveryRateSampler × RateSample :=
  let (sampler, rs) := match w.ackedRecordDelivery with
    | some delivery => b.sampler.onAck delivery w.acknowledgedPayload nowMs b.inFlightBytes
    | none =>
      (b.sampler, { nowMs := nowMs, ackedBytes := w.acknowledgedPayload,
                    inflightBytes := b.inFlightBytes })
  (sampler, { rs with deliveredCe := b.deliveredCe })

/-- Feed the controller with an acknowledgment that moved `sndUna`. -/
def feedController (w : AckWalk) (nowMs : ℕ) : TcpSendBuffer κ :=
  let (sampler, rs) := b.rateSample w nowMs
  if inFastRecovery b.controller then
    { b with
      sampler := sampler
      controller := if hasFastRecovery (algorithm b.controller) then
          onFastRecoveryExit b.controller
        else b.controller
      fastRetransmitPending := false }
  else { b with sampler := sampler, controller := onAck b.controller rs }

/-- Set the timers after an acknowledgment that moved `sndUna`. -/
def rearm (w : AckWalk) (peerWindow : UInt32) (nowMs : ℕ) : TcpSendBuffer κ :=
  let b :=
    if b.retransmitQueue.isEmpty then { b with rtoRunning := false, rtoDeadlineMs := 0 }
    else if peerWindow ≠ 0 then b.armRto nowMs
    else b
  let b :=
    if w.partialRtoRecovery && peerWindow != 0 && !b.retransmitQueue.isEmpty then
      { b with fastRetransmitPending := true, rtoRunning := true, rtoDeadlineMs := nowMs }
    else b
  if peerWindow = 0 then
    let b := b.restartPersist
    if b.hasWork then b.armPersistTimer nowMs else b.cancelPersist
  else b.cancelPersist

/-- The walk of an acknowledgment, before its first record. -/
def startWalk (acknowledgment : UInt32) : AckWalk where
  remaining := (acknowledgment - b.sndUna).toNat
  retransmitBytes := b.retransmitBytes
  inFlightSequence := b.inFlightSequence
  inFlightBytes := b.inFlightBytes
  sackedBytes := b.sackedBytes
  sackedSequence := b.sackedSequence
  finAcked := b.finAcked

/-- The acknowledgment walks over the queue and the probe, from `sndUna` on. -/
def walk (acknowledgment : UInt32) (nowMs : ℕ) : AckWalk × List SendRecord × Option SendRecord :=
  let (w, records) := ackRecords nowMs (b.startWalk acknowledgment) b.retransmitQueue
  let (w, probe) := ackProbe w b.persistProbe
  (w, records, probe)

/-- The queues after the walk of an acknowledgment. -/
def acknowledge (acknowledgment peerWindow : UInt32) (nowMs : ℕ) : TcpSendBuffer κ :=
  let (w, records, probe) := b.walk acknowledgment nowMs
  { b with
    retransmitQueue := records
    persistProbe := probe
    retransmitBytes := w.retransmitBytes
    inFlightSequence := w.inFlightSequence
    inFlightBytes := w.inFlightBytes
    sackedBytes := w.sackedBytes
    sackedSequence := w.sackedSequence
    finAcked := w.finAcked
    sndUna := acknowledgment
    dupAckCount := 0
    lastPeerWindow := peerWindow
    peerWindowValid := true }

/-- Only an acknowledgment that covers no retransmission measures the round-trip
    time (Karn's rule). -/
def sampleRtt (w : AckWalk) : TcpSendBuffer κ :=
  match w.rttSample with
  | some rtt => if w.ackCoversRetransmission then b else b.recomputeRto rtt
  | none => b

/-- An acknowledgment of data not acknowledged before. -/
def onNewAck (acknowledgment peerWindow : UInt32) (nowMs : ℕ) :
    TcpSendBuffer κ × TcpSendAckResult :=
  let w := (b.walk acknowledgment nowMs).1
  let b := (b.acknowledge acknowledgment peerWindow nowMs).sampleRtt w
  let b := (b.feedController w nowMs).rearm w peerWindow nowMs
  (b, { newlyAcked := w.acknowledgedPayload
        fullyAcked := b.retransmitQueue.isEmpty && b.persistProbe.isNone
        retransmitQueueBytes := b.inFlightBytes })

/-- An ECN echo is a congestion signal, once per CWR sent. -/
def onEce (ece : Bool) : TcpSendBuffer κ :=
  if ece && !b.ecnCwrQueued then
    { b with
      ecnCwrQueued := true
      deliveredCe := b.deliveredCe + 1
      controller := onEcnCe b.controller }
  else b

/-- Process an incoming acknowledgment. -/
def onAck (acknowledgment peerWindow : UInt32) (nowMs : ℕ) (ackOnly ece : Bool) :
    TcpSendBuffer κ × TcpSendAckResult :=
  if sequenceAfter acknowledgment b.sndMax then
    (b, { unacceptable := true, retransmitQueueBytes := b.inFlightBytes })
  else if sequenceBefore acknowledgment b.sndUna then
    (b, { retransmitQueueBytes := b.inFlightBytes })
  else
    let b := b.onEce ece
    if acknowledgment = b.sndUna then b.onDuplicateAck peerWindow nowMs ackOnly
    else b.onNewAck acknowledgment peerWindow nowMs

/-! ## Selective acknowledgments -/

/-- A single block covers the whole record. -/
def coveredBy (r : SendRecord) (block : TcpSackBlock) : Bool :=
  block.leftEdge != block.rightEdge && !sequenceBefore r.seq block.leftEdge &&
    !sequenceAfter (r.seq + UInt32.ofNat r.logicalLength) block.rightEdge

/-- What the walk over the retransmission queue accumulates. -/
structure SackWalk where
  sackedBytes : ℕ
  sackedSequence : ℕ
  newlySacked : ℕ := 0
  sackedCount : ℕ := 0

/-- Mark the records covered by a block. -/
def sackRecords (blocks : List TcpSackBlock) :
    SackWalk → List SendRecord → SackWalk × List SendRecord
  | w, [] => (w, [])
  | w, r :: rs =>
    if r.sacked then
      let (w, rs) := sackRecords blocks { w with sackedCount := w.sackedCount + 1 } rs
      (w, r :: rs)
    else if blocks.any (coveredBy r) then
      let (w, rs) := sackRecords blocks
        { sackedBytes := w.sackedBytes + r.data.length
          sackedSequence := (w.sackedSequence + r.logicalLength) % 2 ^ 32
          newlySacked := w.newlySacked + r.data.length
          sackedCount := w.sackedCount + 1 } rs
      (w, { r with sacked := true } :: rs)
    else
      let (w, rs) := sackRecords blocks w rs
      (w, r :: rs)

/-- Process incoming selective acknowledgments: three records marked trigger a
    fast retransmission. -/
def onSack (blocks : List TcpSackBlock) : TcpSendBuffer κ × ℕ :=
  if blocks = [] ∨ b.retransmitQueue.isEmpty ∨ b.closed then (b, 0)
  else
    let (w, records) := sackRecords blocks
      { sackedBytes := b.sackedBytes, sackedSequence := b.sackedSequence } b.retransmitQueue
    let b := { b with
      retransmitQueue := records
      sackedBytes := w.sackedBytes
      sackedSequence := w.sackedSequence }
    let b :=
      if w.sackedCount ≥ 3 ∧ inFastRecovery b.controller = false ∧ records ≠ [] then
        { b with
          controller := if hasFastRecovery (algorithm b.controller) then
              onFastRecoveryEntry b.controller
                (UInt32.ofNat (saturatingUint32 b.inFlightSequence))
            else b.controller
          fastRetransmitPending := true }
      else b
    (b, w.newlySacked)

/-! ## Path MTU and queries -/

/-- A new maximum segment size. -/
def updateMss (mss : UInt16) : TcpSendBuffer κ :=
  if mss = 0 ∨ mss = b.mss then b
  else
    let pristine := b.sndUna == b.sndMax && b.retransmitQueue.isEmpty && b.persistProbe.isNone
    { b with
      mss := mss
      controller := if hasFastRecovery (algorithm b.controller) then
          CongestionController.updateMss b.controller mss pristine
        else b.controller }

end TcpSendBuffer

end Netstack2
