import Netstack2.Lib.Table
import Netstack2.Tcp.Pcb

/-!
# The TCP engine

The engine of a shard: the table of its connections, the timers it has set and the
responses it has queued, as `TcpHandshakeEngine` keeps them, with every operation
that the shard calls.

A handler of the source keeps a reference to the connection it works on. Here the
reference is the connection's index in the table. The removal of a connection moves
the last one of the table to its place, so a reference that is used after a removal
may stand for another connection, or for none: then the behaviour of the source is
undefined, and the handler here returns `none`.

What the surroundings answer during a call (timers, memory, sessions and packet
buffers) is a parameter, `Env`. The `history` of the engine records what is observed
of its connections, and `events` what is reported to the event sink; no operation
reads them.
-/

namespace Netstack2

/-- What is to be done when a timer fires. -/
inductive TimerAction
  | retry (flow : FlowKey) (generation : ℕ)
  | delayedAck (flow : FlowKey) (generation : ℕ)
  | timeWait (flow : FlowKey) (generation : ℕ)

/-- How the surroundings of the engine answer during a call. -/
structure Env where
  /-- The timer cannot be set. -/
  timerFails : TimerAction → Bool := fun _ => false
  receiveFails : Bool := false
  sendFails : Bool := false
  /-- The session the factory opens. -/
  openTcp : Option SessionId := none
  /-- How the session of a flow answers the calls of `TrySend`, by their number. -/
  trySend : FlowId → TrySend := fun _ _ data => .sent data.length .accepted
  /-- The pool has a buffer for the packet of a flow, and one for its payload. -/
  allocatesPacket : FlowId → Bool := fun _ => true
  allocatesOwner : FlowId → Bool := fun _ => true
  slotCapacity : ℕ := 2048
  /-- The packet of a flow can be put on the list of packets. -/
  queuesPacket : FlowId → Bool := fun _ => true

inductive FlowEventType
  | established
  | closed
  | reset

inductive TcpHandshakeError
  | invalidFlags
  | invalidOptions
  | backlogFull
  | halfOpenLimit
  | pcbLimit
  | timerFailure
  | receiveBudget
  | invalidSession
  | shutdown
  deriving DecidableEq

structure TcpHandshakeResult where
  error : Option TcpHandshakeError := none
  stateChanged : Bool := false
  response : Option TcpResponse := none

/-- The engine of a shard. -/
structure TcpHandshakeEngine (κ : Type) where
  config : TcpHandshakeConfig
  /-- The generator of initial sequence numbers. -/
  isn : FlowKey → ℕ → UInt32
  /-- The congestion controller the configuration asks for. -/
  makeController : UInt16 → κ
  hasSessionFactory : Bool
  generationEpoch : ℕ
  timers : TimerWheel TimerAction
  pcbs : List (Pcb κ) := []
  pendingResponses : List TcpResponse := []
  halfOpenCount : ℕ := 0
  droppedResponses : ℕ := 0
  receiveMemoryBytes : ℕ := 0
  nextFlowId : FlowId := 1
  isShutdown : Bool := false
  history : List (FlowId × Observed) := []
  events : List (FlowId × FlowEventType) := []

namespace TcpHandshakeEngine

variable {κ : Type} (env : Env) (e : TcpHandshakeEngine κ)

/-- A new engine; there is none for a configuration that is not valid. -/
def new (config : TcpHandshakeConfig) (isn : FlowKey → ℕ → UInt32) (makeController : UInt16 → κ)
    (hasSessionFactory : Bool) (generationEpoch slotCount : ℕ) : Option (TcpHandshakeEngine κ) :=
  if config.validate then some {
    config := config
    isn := isn
    makeController := makeController
    hasSessionFactory := hasSessionFactory
    generationEpoch := if generationEpoch = 0 then 1 else generationEpoch
    timers := .new slotCount }
  else none

/-! ## The table -/

/-- The connection at `i` becomes `p`, and `seen` is observed of it. -/
def update (i : ℕ) (p : Pcb κ) (seen : List Observed := []) : TcpHandshakeEngine κ :=
  { e with
    pcbs := e.pcbs.set i p
    history := e.history ++ seen.map (p.flowId, ·) }

/-- The connection of a flow, and its index. -/
def findIndex (flow : FlowKey) : Option (ℕ × Pcb κ) := findSlot e.pcbs (·.incomingFlow = flow)

def emitFlowEvent (id : FlowId) (type : FlowEventType) : TcpHandshakeEngine κ :=
  { e with events := e.events ++ [(id, type)] }

def cancelTimer (id : TimerId) : TcpHandshakeEngine κ :=
  if id ≠ 0 then { e with timers := e.timers.cancel id } else e

/-- The engine after the resources of a connection were released. -/
def release (p : Pcb κ) : TcpHandshakeEngine κ :=
  let e := ((e.cancelTimer p.retryTimer).cancelTimer p.delayedAckTimer).cancelTimer p.timewaitTimer
  { e with
    receiveMemoryBytes := match p.receive with
      | some r => e.receiveMemoryBytes - r.memoryBytes
      | none => e.receiveMemoryBytes
    halfOpenCount := if p.state = .synReceived then e.halfOpenCount - 1 else e.halfOpenCount }

/-- The engine after a connection got its receive buffer; our answer to its SYN is
    not repeated any more. -/
def acquire (p : Pcb κ) (r : TcpReceiveBuffer) : TcpHandshakeEngine κ :=
  { e.cancelTimer p.retryTimer with
    receiveMemoryBytes := e.receiveMemoryBytes + r.memoryBytes }

/-- Add the connection that a SYN with this window opens. -/
def addPcb (p : Pcb κ) (window : UInt16) : TcpHandshakeEngine κ :=
  { e with
    pcbs := e.pcbs ++ [p]
    nextFlowId := e.nextFlowId + 1
    halfOpenCount := e.halfOpenCount + 1
    history := e.history ++ [(p.flowId, .opened window)] }

/-- Remove the connection at `i`; the last one moves to its place. -/
def removeAt (i : ℕ) : TcpHandshakeEngine κ :=
  match e.pcbs[i]? with
  | none => e
  | some p => { e.release p with pcbs := swapPop e.pcbs i }

/-- The half-open connections with the local end of `flow`. -/
def listenerHalfOpenCount (flow : FlowKey) : ℕ :=
  e.pcbs.countP fun p => p.state = .synReceived &&
    p.incomingFlow.destination = flow.destination &&
    p.incomingFlow.destinationPort = flow.destinationPort

/-! ## Responses -/

/-- Queue a response. A plain ACK waits at its connection, where it replaces the one
    before; without a connection it replaces the one in the queue. -/
def queueResponse (response : TcpResponse) : TcpHandshakeEngine κ :=
  let replaceable := response.flags == TcpFlag.ack
  match if replaceable then findSlot e.pcbs (reverseFlow ·.incomingFlow = response.flow)
    else none with
  | some (i, p) => e.update i { p with pendingAck := some response }
  | none =>
    match if replaceable then findSlot e.pendingResponses fun r =>
        r.flags = TcpFlag.ack && r.flow = response.flow
      else none with
    | some (j, _) => { e with pendingResponses := e.pendingResponses.set j response }
    | none =>
      if e.pendingResponses.length ≥ e.config.pendingResponseLimit then
        { e with droppedResponses := e.droppedResponses + 1 }
      else { e with pendingResponses := e.pendingResponses ++ [response] }

/-- The next response to transmit: an ACK that waits at a connection, or the first of the queue. -/
def popPendingResponse : TcpHandshakeEngine κ × Option TcpResponse :=
  match findSlot e.pcbs (·.pendingAck.isSome) with
  | some (i, p) => (e.update i { p with pendingAck := none }, p.pendingAck)
  | none => match e.pendingResponses with
    | [] => (e, none)
    | response :: rest => ({ e with pendingResponses := rest }, some response)

def buildSynAck (i : ℕ) (p : Pcb κ) (nowMs : ℕ) : TcpHandshakeEngine κ × TcpResponse :=
  let (p, response) := p.buildSynAck nowMs
  (e.update i p [.built response], response)

def buildAck (i : ℕ) (p : Pcb κ) (nowMs : ℕ) : TcpHandshakeEngine κ × Option TcpResponse :=
  match p.receive with
  | none => (e, none)
  | some r =>
    let e := e.cancelTimer p.delayedAckTimer
    let (p, response) := p.buildAck r nowMs
    (e.update i p [.built response], some response)

/-- The answer to a segment without a connection, or that the handshake refuses. -/
def buildReset (segment : TcpSegmentView) : TcpResponse :=
  if segment.hasFlag TcpFlag.ack then
    { flow := reverseFlow segment.flow
      sequence := segment.acknowledgment
      flags := TcpFlag.rst }
  else
    { flow := reverseFlow segment.flow
      acknowledgment := segment.sequence + UInt32.ofNat segment.payload.length +
        (if segment.hasFlag TcpFlag.syn then 1 else 0) +
        (if segment.hasFlag TcpFlag.fin then 1 else 0)
      flags := TcpFlag.rst ||| TcpFlag.ack }

/-- Answer with an ACK of the connection at `i`. -/
def answer (i nowMs : ℕ) (result : TcpHandshakeResult) :
    Option (TcpHandshakeEngine κ × TcpHandshakeResult) :=
  match e.pcbs[i]? with
  | none => none
  | some p =>
    let (e, response) := e.buildAck i p nowMs
    some (e, { result with response := response })

/-! ## Timers -/

def schedule (deadlineMs : ℕ) (action : TimerAction) : TcpHandshakeEngine κ × Option TimerId :=
  if env.timerFails action then (e, none)
  else match e.timers.schedule deadlineMs action with
    | some (timers, id) => ({ e with timers := timers }, some id)
    | none => (e, none)

def scheduleRetry (i : ℕ) (p : Pcb κ) (deadlineMs : ℕ) : TcpHandshakeEngine κ × Bool :=
  let (e, timer) := e.schedule env deadlineMs (.retry p.incomingFlow p.generation)
  (e.update i { p with retryTimer := timer.getD 0 }, timer.isSome)

def scheduleDelayedAck (i : ℕ) (p : Pcb κ) (nowMs : ℕ) : TcpHandshakeEngine κ × Bool :=
  if p.delayedAckTimer ≠ 0 then (e, true)
  else
    let (e, timer) := e.schedule env (saturatingAdd nowMs e.config.delayedAckMs)
      (.delayedAck p.incomingFlow p.generation)
    (e.update i { p with delayedAckTimer := timer.getD 0 }, timer.isSome)

/-- The first connection in TIME-WAIT with the least deadline below `deadline`, among
    `pcbs` with the indices from `i` on, or else `oldest`. -/
def oldestTimeWaitFrom : List (Pcb κ) → ℕ → ℕ → Option ℕ → Option ℕ
  | [], _, _, oldest => oldest
  | p :: pcbs, i, deadline, oldest =>
    if p.state = .timeWait ∧ p.timewaitDeadlineMs < deadline then
      oldestTimeWaitFrom pcbs (i + 1) p.timewaitDeadlineMs (some i)
    else oldestTimeWaitFrom pcbs (i + 1) deadline oldest

def oldestTimeWait : Option ℕ := oldestTimeWaitFrom e.pcbs 0 maxUint64 none

/-- There are as many connections in TIME-WAIT as there may be. -/
def timeWaitFull : Bool := e.config.maxTimewaitEntries ≤ e.pcbs.countP (·.state = .timeWait)

/-- Make room for one more connection in TIME-WAIT, `target` at `i`: if there is
    none, the oldest one is removed, and `target` looked up again. -/
def evictTimeWait (i : ℕ) (target : Pcb κ) : TcpHandshakeEngine κ × Option (ℕ × Pcb κ) :=
  match if e.timeWaitFull then e.oldestTimeWait else none with
  | none => (e, some (i, target))
  | some oldest =>
    let e := match e.pcbs[oldest]? with
      | some p => (e.removeAt oldest).emitFlowEvent p.flowId .closed
      | none => e
    match e.findIndex target.incomingFlow with
    | none => (e, none)
    | some (j, p) => (e, if p.generation = target.generation then some (j, p) else none)

/-- Move the connection at `i` to TIME-WAIT, and set the timer that ends it. -/
def scheduleTimeWait (i nowMs : ℕ) : TcpHandshakeEngine κ × Bool :=
  match e.pcbs[i]? with
  | none => (e, false)
  | some target => match e.evictTimeWait i target with
    | (e, none) => (e, false)
    | (e, some (j, p)) =>
      let deadlineMs := saturatingAdd nowMs e.config.timewaitMs
      let (e, timer) := e.schedule env deadlineMs (.timeWait p.incomingFlow p.generation)
      (e.update j (p.enterTimeWait deadlineMs (timer.getD 0)), timer.isSome)

/-! ## Segments of a connection -/

variable [CongestionController κ]

/-- What became of the peer's FIN. -/
structure FinOutcome where
  /-- The connection was removed. -/
  removed : Bool := false
  stateChanged : Bool := false

/-- Consume the FIN that follows the last byte in order. -/
def handleFin (i : ℕ) (p : Pcb κ) (r : TcpReceiveBuffer) (nowMs : ℕ) :
    TcpHandshakeEngine κ × FinOutcome :=
  let e := e.update i (p.takeFin r) p.finObserved
  match p.state with
  | .established | .finWait1 => (e, { stateChanged := true })
  | .finWait2 | .closing =>
    let (e, scheduled) := e.scheduleTimeWait env i nowMs
    if scheduled then (e, { stateChanged := true }) else (e.removeAt i, { removed := true })
  | _ => (e, {})

/-- A segment without payload, after its acknowledgment was processed. -/
def processEmpty (i : ℕ) (p : Pcb κ) (r : TcpReceiveBuffer) (segment : TcpSegmentView)
    (timestamp : Option UInt32) (nowMs : ℕ) (result : TcpHandshakeResult) :
    Option (TcpHandshakeEngine κ × TcpHandshakeResult) :=
  let p := p.takeEmpty r segment timestamp
  let e := e.update i p
  if segment.hasFlag TcpFlag.fin = false then some (e, result)
  else if segment.sequence = r.rcvNxt then
    let (e, fin) := e.handleFin env i p r nowMs
    let result := { result with stateChanged := result.stateChanged || fin.stateChanged }
    if fin.removed then some (e, result) else e.answer i nowMs result
  -- a FIN that is not next is acknowledged, but not consumed
  else e.answer i nowMs result

/-- The ACK a payload asks for: at once, or delayed. -/
def acknowledgePayload (i : ℕ) (p : Pcb κ) (decision : AckDecision) (becameBlocked : Bool)
    (nowMs : ℕ) : TcpHandshakeEngine κ × Option TcpResponse :=
  if decision = .immediate ∨ becameBlocked then e.buildAck i p nowMs
  else if decision = .delayed then
    let (e, scheduled) := e.scheduleDelayedAck env i p nowMs
    if scheduled then (e, none) else e.buildAck i p nowMs
  else (e, none)

/-- The FIN of a segment with payload: it is consumed if the payload was new, and
    nothing is missing before the FIN. -/
def processPayloadFin (i : ℕ) (segment : TcpSegmentView) (disposition : ReceiveDisposition)
    (nowMs : ℕ) (result : TcpHandshakeResult) :
    Option (TcpHandshakeEngine κ × TcpHandshakeResult) :=
  if segment.hasFlag TcpFlag.fin = false then some (e, result)
  else match e.pcbs[i]? with
  | none => none
  | some p => match p.receive with
    | none => none
    | some r =>
      if segment.sequence + UInt32.ofNat segment.payload.length = r.rcvNxt ∧
          disposition ≠ .duplicate ∧ disposition ≠ .outOfWindow then
        let (e, fin) := e.handleFin env i p r nowMs
        let result := { result with stateChanged := true }
        if fin.removed then some (e, result) else e.answer i nowMs result
      else if result.response = none then e.answer i nowMs result
      else some (e, result)

/-- A segment with payload, after its acknowledgment was processed. After the peer's
    FIN there is no payload. -/
def processPayload (i : ℕ) (p : Pcb κ) (r : TcpReceiveBuffer) (segment : TcpSegmentView)
    (timestamp : Option UInt32) (nowMs : ℕ) (result : TcpHandshakeResult) :
    Option (TcpHandshakeEngine κ × TcpHandshakeResult) :=
  if p.state = .closeWait ∨ p.state = .closing ∨ p.state = .lastAck ∨ p.state = .timeWait then
    e.answer i nowMs result
  else
    let t := p.takePayload r segment timestamp (env.trySend p.flowId) e.config.deliveryCallBudget
    if t.received.disposition = .invalid then
      some (e, { result with error := some .invalidFlags })
    else
      let e := e.update i t.pcb (.received t.inOrder :: t.delivery.calls.map .trySend)
      let result := if t.delivery.result.fails then
          { result with error := some .invalidSession }
        else result
      let becameBlocked := !r.blocked && t.delivery.buffer.blocked
      let (e, response) :=
        e.acknowledgePayload env i t.pcb t.received.ackDecision becameBlocked nowMs
      e.processPayloadFin env i segment t.received.disposition nowMs
        { result with response := response }

/-- The rest of a segment, after its acknowledgment was processed. -/
def processBody (i : ℕ) (segment : TcpSegmentView) (timestamp : Option UInt32) (nowMs : ℕ)
    (result : TcpHandshakeResult) : Option (TcpHandshakeEngine κ × TcpHandshakeResult) :=
  match e.pcbs[i]? with
  | none => none
  | some p => match p.receive with
    | none => none
    | some r =>
      if segment.payload = [] then e.processEmpty env i p r segment timestamp nowMs result
      else e.processPayload env i p r segment timestamp nowMs result

/-- A segment that passed the checks: first its window and acknowledgment, which may
    be that of our FIN. -/
def processAccepted (i : ℕ) (p : Pcb κ) (segment : TcpSegmentView) (timestamp : Option UInt32)
    (nowMs : ℕ) : Option (TcpHandshakeEngine κ × TcpHandshakeResult) :=
  let p := p.onAck segment nowMs
  let seen := [.accepted segment.window]
  if p.finAcked then
    match p.state with
    | .finWait1 =>
      (e.update i { p with state := .finWait2 } seen).processBody env i segment timestamp nowMs
        { stateChanged := true }
    | .closing =>
      let (e, scheduled) := (e.update i p seen).scheduleTimeWait env i nowMs
      if scheduled then e.processBody env i segment timestamp nowMs { stateChanged := true }
      else some (e.removeAt i, {})
    | .lastAck =>
      some (((e.update i p seen).removeAt i).emitFlowEvent p.flowId .closed,
        { stateChanged := true })
    | _ => (e.update i p seen).processBody env i segment timestamp nowMs {}
  else (e.update i p seen).processBody env i segment timestamp nowMs {}

/-- A segment in TIME-WAIT is acknowledged; a FIN restarts the timer. -/
def processTimeWait (i : ℕ) (p : Pcb κ) (segment : TcpSegmentView) (nowMs : ℕ) :
    Option (TcpHandshakeEngine κ × TcpHandshakeResult) :=
  let e :=
    if segment.hasFlag TcpFlag.fin then
      let e := (e.cancelTimer p.timewaitTimer).update i { p with timewaitTimer := 0 }
      (e.scheduleTimeWait env i nowMs).1
    else e
  e.answer i nowMs {}

/-- A segment of a connection past the handshake. -/
def processEstablished (i : ℕ) (p : Pcb κ) (segment : TcpSegmentView) (nowMs : ℕ) :
    Option (TcpHandshakeEngine κ × TcpHandshakeResult) :=
  if p.state = .timeWait then e.processTimeWait env i p segment nowMs
  else match p.receive with
  | none => some (e, { error := some .receiveBudget })
  | some r =>
    if segment.hasFlag TcpFlag.syn then e.answer i nowMs {}
    else if segment.hasFlag TcpFlag.ack = false then some (e, { error := some .invalidFlags })
    else if sequenceAfter segment.acknowledgment p.currentSndNxt then e.answer i nowMs {}
    else match p.checkTimestamp segment with
      | .invalid => some (e, { error := some .invalidOptions })
      | .old => e.answer i nowMs {}
      | .fresh timestamp =>
        let length := segment.payload.length + (if segment.hasFlag TcpFlag.fin then 1 else 0)
        if r.isSequenceAcceptable segment.sequence length = false then e.answer i nowMs {}
        else e.processAccepted env i p segment timestamp nowMs

/-! ## The handshake -/

/-- The factory is asked for a session; without one, the connection is reset. Then
    what the ACK of the handshake carries is processed. -/
def openSession (i : ℕ) (p : Pcb κ) (r : TcpReceiveBuffer) (segment : TcpSegmentView) (nowMs : ℕ) :
    Option (TcpHandshakeEngine κ × TcpHandshakeResult) :=
  let proceed (e : TcpHandshakeEngine κ) (p : Pcb κ) :=
    if segment.payload ≠ [] ∨ segment.hasFlag TcpFlag.fin then
      (e.processEstablished env i p segment nowMs).map fun (e, result) =>
        (e, { result with stateChanged := true })
    else some (e, { stateChanged := true })
  if e.hasSessionFactory then
    match env.openTcp with
    | some session =>
      let (p, delivery) := (p.bindSession session).drainSession (r.setBlocked false)
        (env.trySend p.flowId) e.config.deliveryCallBudget
      proceed (e.update i p (delivery.calls.map .trySend)) p
    | none => some (e.removeAt i, { response := some (buildReset segment) })
  else proceed e p

/-- The ACK that completes the handshake. -/
def completeHandshake (i : ℕ) (p : Pcb κ) (segment : TcpSegmentView) (nowMs : ℕ) :
    Option (TcpHandshakeEngine κ × TcpHandshakeResult) :=
  match p.handshakeOptions segment with
  | none => some (e, { error := some .invalidOptions })
  | some options =>
    let refused : TcpHandshakeResult :=
      { error := some .receiveBudget, response := some (buildReset segment) }
    let capacity := p.receiveWindow.toNat
    let memory := capacity + (capacity + 63) / 64 * 8
    if memory > e.config.receiveMemoryBudget ∨
        e.receiveMemoryBytes > e.config.receiveMemoryBudget - memory then
      some (e.removeAt i, refused)
    else match if env.receiveFails then none
        else TcpReceiveBuffer.new capacity p.rcvNxt p.responseWindow.toNat with
      | none => some (e.removeAt i, refused)
      | some r =>
        let e := e.acquire p r
        let send := TcpSendBuffer.new p.sndNxt (e.config.sendConfig p.options.peerMss)
          e.makeController
        let established := p.establish options segment.acknowledgment r send
        if env.sendFails then
          -- the connection counts as established already
          some ((e.update i { established with send := none }).removeAt i, refused)
        else
          let e := (e.update i established [.accepted segment.window]).emitFlowEvent
            p.flowId .established
          { e with halfOpenCount := e.halfOpenCount - 1 }.openSession env i established r segment
            nowMs

/-- A segment of a connection in the handshake. -/
def onSynReceived (i : ℕ) (p : Pcb κ) (segment : TcpSegmentView) (nowMs : ℕ) :
    Option (TcpHandshakeEngine κ × TcpHandshakeResult) :=
  let synAck (p : Pcb κ) : Option (TcpHandshakeEngine κ × TcpHandshakeResult) :=
    let (e, response) := e.buildSynAck i p nowMs
    some (e, { response := some response })
  if segment.hasFlag TcpFlag.rst then
    if segment.sequence = p.rcvNxt then
      some ((e.removeAt i).emitFlowEvent p.flowId .reset, { stateChanged := true })
    else some (e, {})
  else if segment.hasFlag TcpFlag.syn then
    if segment.hasFlag TcpFlag.ack = false ∧ segment.hasFlag TcpFlag.fin = false ∧
        segment.sequence = p.irs then
      -- the SYN again: answer it again
      synAck <| match parseTcpSynOptions segment.options with
        | .ok options =>
          if p.options.timestamps ∧ options.timestampPresent then
            { p with responseOptions :=
              { p.responseOptions with timestampEcho := options.timestampValue } }
          else p
        | .error _ => p
    else some (e, { error := some .invalidFlags })
  else if sequenceAcceptable segment p.rcvNxt p.responseWindow.toUInt32 = false then synAck p
  else if segment.hasFlag TcpFlag.ack then
    if segment.acknowledgment = p.sndNxt then e.completeHandshake env i p segment nowMs
    else some (e, { response := some (buildReset segment) })
  else some (e, {})

/-- A segment without a connection: a SYN opens one. -/
def onListen (segment : TcpSegmentView) (nowMs : ℕ) : TcpHandshakeEngine κ × TcpHandshakeResult :=
  if segment.hasFlag TcpFlag.rst then (e, {})
  else if segment.hasFlag TcpFlag.ack then (e, { response := some (buildReset segment) })
  else if segment.hasFlag TcpFlag.syn = false then (e, {})
  else if segment.hasFlag TcpFlag.fin then (e, { error := some .invalidFlags })
  else if e.halfOpenCount ≥ e.config.halfOpenLimit then (e, { error := some .halfOpenLimit })
  else if e.listenerHalfOpenCount segment.flow ≥ e.config.backlogLimit then
    (e, { error := some .backlogFull })
  else if e.pcbs.length ≥ e.config.pcbLimit then (e, { error := some .pcbLimit })
  else match parseTcpSynOptions segment.options with
    | .error _ => (e, { error := some .invalidOptions })
    | .ok offered =>
      let iss := e.isn (reverseFlow segment.flow) nowMs
      let p : Pcb κ := .ofSyn e.config segment offered iss e.nextFlowId e.generationEpoch
      let i := e.pcbs.length
      let e := e.addPcb p segment.window
      let deadlineMs := saturatingAdd nowMs e.config.synAckRetryIntervalsMs[0]
      match e.scheduleRetry env i p deadlineMs with
      | (e, false) => (e.removeAt i, { error := some .timerFailure })
      | (e, true) => match e.pcbs[i]? with
        | none => (e, {})
        | some p =>
          let (e, response) := e.buildSynAck i p nowMs
          (e, { stateChanged := true, response := some response })

/-- Process an incoming segment. -/
def onSegment (segment : TcpSegmentView) (nowMs : ℕ) :
    Option (TcpHandshakeEngine κ × TcpHandshakeResult) :=
  if e.isShutdown then some (e, { error := some .shutdown })
  else match e.findIndex segment.flow with
    | none => some (e.onListen env segment nowMs)
    | some (i, p) =>
      if p.state = .synReceived then e.onSynReceived env i p segment nowMs
      else if segment.hasFlag TcpFlag.rst then
        if segment.sequence = p.currentRcvNxt then
          some ((e.removeAt i).emitFlowEvent p.flowId .reset, { stateChanged := true })
        else e.answer i nowMs {}
      else e.processEstablished env i p segment nowMs

/-! ## Timers that fire -/

/-- The SYN was not answered: repeat our answer, a number of times. -/
def onRetry (flow : FlowKey) (generation : ℕ) : TcpHandshakeEngine κ :=
  match e.findIndex flow with
  | none => e
  | some (i, p) =>
    if p.generation ≠ generation ∨ p.state ≠ .synReceived then e
    else if p.retryIndex ≥ 4 then e.removeAt i
    else
      let now := e.timers.cursorMs
      let (p, response) := p.buildSynAck now
      let e := (e.update i p [.built response]).queueResponse response
      let p := { p with retryIndex := p.retryIndex + 1 }
      let interval := (e.config.synAckRetryIntervalsMs[p.retryIndex]?).getD
        e.config.synAckRetryIntervalsMs[3]
      match e.scheduleRetry env i p (saturatingAdd now interval) with
      | (e, true) => e
      | (e, false) => e.removeAt i

def onDelayedAck (flow : FlowKey) (generation : ℕ) : TcpHandshakeEngine κ :=
  match e.findIndex flow with
  | none => e
  | some (i, p) =>
    if p.generation ≠ generation ∨ p.state = .synReceived ∨ p.state = .timeWait then e
    else match e.buildAck i { p with delayedAckTimer := 0 } e.timers.cursorMs with
      | (e, some response) => e.queueResponse response
      | (e, none) => e

def onTimeWaitExpired (flow : FlowKey) (generation : ℕ) : TcpHandshakeEngine κ :=
  match e.findIndex flow with
  | none => e
  | some (i, p) =>
    if p.generation ≠ generation ∨ p.state ≠ .timeWait then e
    else (e.removeAt i).emitFlowEvent p.flowId .closed

/-- Do what a timer was set for. -/
def fire (action : TimerAction) : TcpHandshakeEngine κ :=
  if e.isShutdown then e
  else match action with
    | .retry flow generation => e.onRetry env flow generation
    | .delayedAck flow generation => e.onDelayedAck flow generation
    | .timeWait flow generation => e.onTimeWaitExpired flow generation

/-- Advance the time; the timers that are due fire. -/
def advanceTimers (nowMs : ℕ) : TcpHandshakeEngine κ :=
  let (timers, due) := e.timers.advanceTo nowMs
  due.foldl (fun e entry => e.fire env entry.callback) { e with timers := timers }

/-! ## Sessions -/

/-- Deliver to the session of the connection at `i`, and tell whether it failed. -/
def deliver (i : ℕ) (p : Pcb κ) (r : TcpReceiveBuffer) :
    TcpHandshakeEngine κ × Pcb κ × TcpDeliveryResult :=
  let (p, delivery) := p.drainSession r (env.trySend p.flowId) e.config.deliveryCallBudget
  (e.update i p (delivery.calls.map .trySend), p, delivery.result)

def sessionResult (delivered : TcpDeliveryResult) (response : Option TcpResponse) :
    TcpHandshakeResult :=
  { error := if delivered.fails then some .invalidSession else none
    response := response }

/-- Attach a session to an established connection that has none. -/
def attachSession (flow : FlowKey) (session : SessionId) (nowMs : ℕ) :
    TcpHandshakeEngine κ × TcpHandshakeResult :=
  match e.findIndex flow with
  | none => (e, { error := some .invalidSession })
  | some (i, p) => match p.receive with
    | none => (e, { error := some .invalidSession })
    | some r =>
      if p.state ≠ .established ∨ p.sessionBound then (e, { error := some .invalidSession })
      else
        let (e, p, delivered) := e.deliver env i (p.bindSession session) (r.setBlocked false)
        let (e, response) := e.buildAck i p nowMs
        (e, sessionResult delivered response)

/-- The session of a flow can take data again. -/
def onSessionWritable (id : FlowId) (generation nowMs : ℕ) :
    TcpHandshakeEngine κ × TcpHandshakeResult :=
  match findSlot e.pcbs fun p => p.flowId = id && p.generation = generation &&
      p.state ≠ .synReceived && p.state ≠ .timeWait && p.receive.isSome && p.session.isSome with
  | none => (e, { error := some .invalidSession })
  | some (i, p) => match p.receive with
    | none => (e, { error := some .invalidSession })
    | some r =>
      let (e, p, delivered) := e.deliver env i p (r.setBlocked false)
      let (e, response) := e.buildAck i p nowMs
      (e, sessionResult delivered response)

/-- Go on with the deliveries whose budget was used up, from the connection at `i`
    on; `visited` connections have been served. -/
def pumpDeliveriesFrom (env : Env) (nowMs pcbBudget : ℕ) :
    ℕ → ℕ → ℕ → TcpHandshakeEngine κ → TcpHandshakeEngine κ
  | 0, _, _, e => e
  | fuel + 1, i, visited, e =>
    match e.pcbs[i]? with
    | none => e
    | some p =>
      if visited ≥ pcbBudget then e
      else match p.receive with
        | none => pumpDeliveriesFrom env nowMs pcbBudget fuel (i + 1) visited e
        | some r =>
          if p.deliveryPending = false ∨ p.state = .synReceived ∨ p.state = .timeWait ∨
              p.session = none ∨ r.blocked then
            pumpDeliveriesFrom env nowMs pcbBudget fuel (i + 1) visited e
          else
            let (e, p, delivered) := e.deliver env i p r
            let e :=
              if delivered.acceptedBytes ≠ 0 then
                match e.buildAck i p nowMs with
                | (e, some response) => e.queueResponse response
                | (e, none) => e
              else e
            pumpDeliveriesFrom env nowMs pcbBudget fuel (i + 1) (visited + 1) e

def pumpSessionDeliveries (nowMs pcbBudget : ℕ) : TcpHandshakeEngine κ :=
  pumpDeliveriesFrom env nowMs pcbBudget e.pcbs.length 0 0 e

/-- The flows whose sessions may go on reading from the other end. -/
def resumeSessionReceives (remoteBacklog remoteLowWatermark : ℕ) : List FlowId :=
  if remoteLowWatermark = 0 ∨ remoteBacklog ≥ remoteLowWatermark then []
  else (e.pcbs.filter fun p => p.session.isSome && match p.send with
      | some send => send.sendQueue.length < max 1 (e.config.sendQueueLimit / 2)
      | none => false).map (·.flowId)

/-! ## Closing -/

/-- The connection with an identifier and a generation, and its index. -/
def findFlow (id : FlowId) (generation : ℕ) : Option (ℕ × Pcb κ) :=
  findSlot e.pcbs fun p => p.flowId = id && p.generation = generation

def closeFlow (id : FlowId) (generation : ℕ) : TcpHandshakeEngine κ :=
  match e.findFlow id generation with
  | none => e
  | some (i, p) => e.update i p.requestClose

def abortFlow (id : FlowId) (generation : ℕ) : TcpHandshakeEngine κ :=
  match e.findFlow id generation with
  | none => e
  | some (i, p) =>
    let e := e.queueResponse
      { flow := reverseFlow p.incomingFlow
        sequence := p.currentSndNxt
        acknowledgment := p.currentRcvNxt
        flags := TcpFlag.rst ||| TcpFlag.ack }
    (e.removeAt i).emitFlowEvent p.flowId .reset

inductive SessionError
  | none
  | remoteClosed
  | reset
  | timeout
  | wouldBlock
  | internal
  deriving DecidableEq

/-- The session of a flow is closed. A connection that is closing anyway only loses its session. -/
def onSessionClosed (id : FlowId) (generation : ℕ) (error : SessionError) : TcpHandshakeEngine κ :=
  match e.findFlow id generation with
  | none => e
  | some (i, p) =>
    let e := e.update i { p with session := none, sessionBound := false }
    match p.state with
    | .timeWait | .finWait1 | .finWait2 | .closing | .lastAck => e
    | _ =>
      if error = .none ∨ error = .remoteClosed then e.closeFlow id generation
      else e.abortFlow id generation

/-- Remove the last connection, again and again. -/
def removeAll : ℕ → TcpHandshakeEngine κ → TcpHandshakeEngine κ
  | 0, e => e
  | fuel + 1, e => removeAll fuel (e.removeAt (e.pcbs.length - 1))

/-- Stop the engine: all connections are closed, those in TIME-WAIT silently. -/
def shutdown : TcpHandshakeEngine κ :=
  if e.isShutdown then e
  else
    let alive := e.pcbs.filter (·.state ≠ .timeWait)
    let e := { e with
      isShutdown := true
      events := e.events ++ alive.map (·.flowId, .closed) }
    { removeAll e.pcbs.length e with pendingResponses := [] }

/-! ## Sending -/

/-- Enqueue data for an open connection; how much of it was taken. -/
def enqueueSendData (id : FlowId) (data : Bytes) : TcpHandshakeEngine κ × ℕ :=
  match findSlot e.pcbs fun p => p.flowId = id &&
      (p.state = .established || p.state = .closeWait) && p.send.isSome with
  | none => (e, 0)
  | some (i, p) => match p.send with
    | none => (e, 0)
    | some send =>
      let (send, taken) := send.enqueue data
      (e.update i { p with send := some send }, taken)

/-- Enqueue data from a session; what is left of it, if it is to be offered again. -/
def enqueueRemoteData (id : FlowId) (generation : ℕ) (data : Bytes) :
    TcpHandshakeEngine κ × Option Bytes :=
  match e.findFlow id generation with
  | none => (e, none)
  | some (i, p) => match p.send with
    | none => (e, none)
    | some send =>
      if p.state ≠ .established ∧ p.state ≠ .closeWait then (e, none)
      else
        let (send, taken) := send.enqueue data
        (e.update i { p with send := some send },
          if taken = data.length then none else some (data.drop taken))

/-- The path to `peer` shrank: its connections use smaller segments. -/
def onPathMtuLowered (peer : IpAddress) (pmtu : ℕ) : TcpHandshakeEngine κ :=
  let fixedHeaderBytes := if peer.isIpv4 then 40 else 60
  if pmtu ≤ fixedHeaderBytes then e
  else
    let pmtuMss := UInt16.ofNat (min (pmtu - fixedHeaderBytes) 65535)
    { e with pcbs := e.pcbs.map fun p =>
      if p.incomingFlow.source = peer then
        { p with send := p.send.map (·.updateMss (p.loweredMss e.config pmtuMss)) }
      else p }

/-- What one visit of the pump does: the connection at `i` is asked for a segment,
    which is built into a packet. `none` if there is none, or no packet for it. -/
def pumpOne (i : ℕ) (p : Pcb κ) (send : TcpSendBuffer κ) (nowMs : ℕ) :
    TcpHandshakeEngine κ × Option TcpResponse :=
  let peerWindow := p.scaledPeerWindow p.peerWindow
  let asked := Observed.nextSegment peerWindow
  let (send, next) := send.nextSegment peerWindow nowMs
  let segment := p.dataSegment next nowMs
  if next.hasSegment = false then (e.update i { p with send := some send } [asked], none)
  else if env.allocatesPacket p.flowId = false ∨
      (buildTcpControlPacket segment env.slotCapacity).isOk = false ∨
      (next.isRetransmission = false ∧ next.payload ≠ [] ∧ env.allocatesOwner p.flowId = false) then
    (e.update i { p with send := some send.resetPending } [asked], none)
  else
    -- a copy of the payload outlives the send queue
    let owner := if next.isRetransmission = false ∧ next.payload ≠ [] then some next.payload
      else none
    (e.update i { p with send := some (send.onSent owner 0 nowMs) } [asked, .built segment],
      some segment)

/-- Serve the connections from `i` on, as long as fewer than `pcbBudget` were visited
    and fewer than `maxSegments` packets built; `packets` are those built so far. -/
def pumpFrom (env : Env) (nowMs pcbBudget maxSegments : ℕ) :
    ℕ → ℕ → ℕ → List TcpResponse → TcpHandshakeEngine κ →
      TcpHandshakeEngine κ × List TcpResponse
  | 0, _, _, packets, e => (e, packets)
  | fuel + 1, i, visited, packets, e =>
    if visited ≥ pcbBudget ∨ packets.length ≥ maxSegments then (e, packets)
    else match e.pcbs[i]? with
      | none => (e, packets)
      | some p => match p.send with
        | none => pumpFrom env nowMs pcbBudget maxSegments fuel (i + 1) visited packets e
        | some send =>
          if p.state = .synReceived ∨ p.state = .timeWait then
            pumpFrom env nowMs pcbBudget maxSegments fuel (i + 1) visited packets e
          else if send.closed then
            -- given up: a connection that is closing is removed
            if p.state = .finWait1 ∨ p.state = .finWait2 ∨ p.state = .closing ∨
                p.state = .lastAck then
              pumpFrom env nowMs pcbBudget maxSegments fuel i visited packets
                ((e.removeAt i).emitFlowEvent p.flowId .closed)
            else pumpFrom env nowMs pcbBudget maxSegments fuel (i + 1) visited packets e
          else match e.pumpOne env i p send nowMs with
            | (e, none) =>
              pumpFrom env nowMs pcbBudget maxSegments fuel (i + 1) (visited + 1) packets e
            | (e, some packet) =>
              if env.queuesPacket p.flowId then
                pumpFrom env nowMs pcbBudget maxSegments fuel (i + 1) (visited + 1)
                  (packets ++ [packet]) e
              else (e, packets)

/-- Transmit what the connections have to send: new data, retransmissions and probes. -/
def pumpSendPaths (nowMs pcbBudget maxSegments : ℕ) : TcpHandshakeEngine κ × List TcpResponse :=
  pumpFrom env nowMs pcbBudget maxSegments e.pcbs.length 0 0 [] e

end TcpHandshakeEngine

/-! ## Operations -/

/-- An operation on an engine. -/
inductive EngineOp
  | onSegment (segment : TcpSegmentView) (nowMs : ℕ)
  | attachSession (flow : FlowKey) (session : SessionId) (nowMs : ℕ)
  | onSessionWritable (id : FlowId) (generation nowMs : ℕ)
  | onSessionClosed (id : FlowId) (generation : ℕ) (error : TcpHandshakeEngine.SessionError)
  | pumpSessionDeliveries (nowMs pcbBudget : ℕ)
  | enqueueSendData (id : FlowId) (data : Bytes)
  | enqueueRemoteData (id : FlowId) (generation : ℕ) (data : Bytes)
  | pumpSendPaths (nowMs pcbBudget maxSegments : ℕ)
  | closeFlow (id : FlowId) (generation : ℕ)
  | abortFlow (id : FlowId) (generation : ℕ)
  | onPathMtuLowered (peer : IpAddress) (pmtu : ℕ)
  | advanceTimers (nowMs : ℕ)
  | deferResponse (response : TcpResponse)
  | popPendingResponse
  | shutdown

/-- The engine after an operation; there is none if its behaviour is undefined. -/
def EngineOp.apply {κ : Type} [CongestionController κ] (env : Env) (e : TcpHandshakeEngine κ) :
    EngineOp → Option (TcpHandshakeEngine κ)
  | onSegment segment nowMs => (e.onSegment env segment nowMs).map (·.1)
  | attachSession flow session nowMs => some (e.attachSession env flow session nowMs).1
  | onSessionWritable id generation nowMs => some (e.onSessionWritable env id generation nowMs).1
  | onSessionClosed id generation error => some (e.onSessionClosed id generation error)
  | pumpSessionDeliveries nowMs pcbBudget => some (e.pumpSessionDeliveries env nowMs pcbBudget)
  | enqueueSendData id data => some (e.enqueueSendData id data).1
  | enqueueRemoteData id generation data => some (e.enqueueRemoteData id generation data).1
  | pumpSendPaths nowMs pcbBudget maxSegments =>
    some (e.pumpSendPaths env nowMs pcbBudget maxSegments).1
  | closeFlow id generation => some (e.closeFlow id generation)
  | abortFlow id generation => some (e.abortFlow id generation)
  | onPathMtuLowered peer pmtu => some (e.onPathMtuLowered peer pmtu)
  | advanceTimers nowMs => some (e.advanceTimers env nowMs)
  | deferResponse response => some (e.queueResponse response)
  | popPendingResponse => some e.popPendingResponse.1
  | shutdown => some e.shutdown

end Netstack2
