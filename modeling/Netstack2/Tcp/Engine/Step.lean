import Netstack2.Tcp.Engine.Table
import Netstack2.Tcp.Send.Run

/-!
# What an operation does to a connection

An operation of the engine changes the connections of its table one after another,
and each of them in steps that are the same whatever the operation: a segment is
built, an acknowledgment taken over, a payload stored, and so on. `Pcb.Step` lists
them, each with what the engine has checked before it, and what is observed of it.

`Pcb.Kept` says of a property of a connection, with what was observed of it, that
these steps preserve it. The operations of the engine then preserve it for every
connection of the table, see `Netstack2.Tcp.Engine.Apply`.
-/

namespace Netstack2

variable {κ : Type}

/-- The states after the peer's FIN. -/
def TcpState.pastFin : TcpState → Bool
  | .closeWait | .closing | .lastAck | .timeWait => true
  | _ => false

/-- A segment has passed the checks of a connection past the handshake. -/
structure Pcb.Accepts (p : Pcb κ) (r : TcpReceiveBuffer) (segment : TcpSegmentView) : Prop where
  flow : p.incomingFlow = segment.flow
  receive : p.receive = some r
  state : p.state ≠ .timeWait
  acceptable : r.isSequenceAcceptable segment.sequence
    (segment.payload.length + (if segment.hasFlag TcpFlag.fin then 1 else 0)) = true

/-- The FIN of a segment is the next thing to be received. After the peer's FIN, it
    comes without payload. -/
structure Pcb.NextFin (p : Pcb κ) (r : TcpReceiveBuffer) (segment : TcpSegmentView) : Prop where
  flow : p.incomingFlow = segment.flow
  receive : p.receive = some r
  hasFin : segment.hasFlag TcpFlag.fin = true
  next : segment.sequence + UInt32.ofNat segment.payload.length = r.rcvNxt
  empty : p.state.pastFin = true → segment.payload = []

/-- The operation attaches a session to a connection with the receive buffer `r`. -/
def EngineOp.Attaches (r : TcpReceiveBuffer) : EngineOp → Prop
  | attachSession .. => True
  | onSegment .. => r.readyBytes = 0
  | _ => False

/-- The operation delivers to sessions that are attached. -/
def EngineOp.delivers : EngineOp → Bool
  | onSessionWritable .. | pumpSessionDeliveries .. => true
  | _ => false

namespace Pcb

variable (p : Pcb κ) (r : TcpReceiveBuffer)

theorem buildSynAck_syn (nowMs : ℕ) : (p.buildSynAck nowMs).2.flags &&& TcpFlag.syn ≠ 0 := by
  unfold buildSynAck
  dsimp only
  split <;> decide

/-- The ACK that completes the handshake brings at most a timestamp. -/
theorem handshakeOptions_eq {p : Pcb κ} {segment : TcpSegmentView} {options : TcpNegotiatedOptions}
    (h : p.handshakeOptions segment = some options) :
    ∃ peerTimestamp, options = { p.options with peerTimestamp := peerTimestamp } := by
  rw [handshakeOptions] at h
  split at h
  · split at h
    · cases h
    · split at h
      · cases h
      · exact ⟨_, (Option.some.inj h).symm⟩
  · exact ⟨p.options.peerTimestamp, (Option.some.inj h).symm⟩

/-- A request to close changes the state and the send buffer. -/
theorem requestClose_eq [CongestionController κ] :
    ∃ state send, p.requestClose = { p with state := state, send := send } := by
  rw [requestClose]
  split <;> exact ⟨_, _, rfl⟩

/-- What the SYN of a connection has settled is the same. -/
structure SameConnection (p' p : Pcb κ) : Prop where
  flowId : p'.flowId = p.flowId
  incomingFlow : p'.incomingFlow = p.incomingFlow
  irs : p'.irs = p.irs
  sndNxt : p'.sndNxt = p.sndNxt
  windowScale : p'.options.windowScale = p.options.windowScale
  sendWindowScale : p'.options.sendWindowScale = p.options.sendWindowScale
  receiveWindowScale : p'.options.receiveWindowScale = p.options.receiveWindowScale
  peerMss : p'.options.peerMss = p.options.peerMss
  timestamps : p'.options.timestamps = p.options.timestamps
  sackPermitted : p'.options.sackPermitted = p.options.sackPermitted

theorem SameConnection.trans {p p' p'' : Pcb κ} (h' : SameConnection p'' p')
    (h : SameConnection p' p) : SameConnection p'' p :=
  ⟨h'.flowId.trans h.flowId, h'.incomingFlow.trans h.incomingFlow, h'.irs.trans h.irs,
    h'.sndNxt.trans h.sndNxt, h'.windowScale.trans h.windowScale,
    h'.sendWindowScale.trans h.sendWindowScale, h'.receiveWindowScale.trans h.receiveWindowScale,
    h'.peerMss.trans h.peerMss, h'.timestamps.trans h.timestamps,
    h'.sackPermitted.trans h.sackPermitted⟩

/-! ## Deliveries -/

/-- A delivery changes the receive buffer, and may let the session go. -/
theorem drainSession_eq (f : TrySend) (n : ℕ) :
    ∃ session bound pending, (session = p.session ∨ session = none) ∧
      (p.drainSession r f n).1 = { p with
        receive := some (p.drainSession r f n).2.buffer
        session := session
        sessionBound := bound
        deliveryPending := pending } := by
  unfold drainSession
  split
  · exact ⟨_, _, _, .inl rfl, rfl⟩
  · split
    · exact ⟨_, _, _, .inl rfl, rfl⟩
    · unfold afterDelivery
      dsimp only
      split
      · exact ⟨_, _, _, .inr rfl, rfl⟩
      · exact ⟨_, _, _, .inl rfl, rfl⟩

/-- A payload changes the receive buffer, congestion marks and the timestamp, and
    its delivery may let the session go. -/
theorem takePayload_eq (segment : TcpSegmentView) (timestamp : Option UInt32) (f : TrySend) (n : ℕ) :
    ∃ session bound pending ece peerTimestamp, (session = p.session ∨ session = none) ∧
      (p.takePayload r segment timestamp f n).pcb = { p with
        receive := some (p.takePayload r segment timestamp f n).delivery.buffer
        session := session
        sessionBound := bound
        deliveryPending := pending
        ecnEcePending := ece
        options := { p.options with peerTimestamp := peerTimestamp } } := by
  let s := r.onSegment segment.sequence segment.payload (segment.hasFlag TcpFlag.psh)
  obtain ⟨session, bound, pending, hsession, heq⟩ := drainSession_eq
    (p.markPayload segment timestamp s.2.acceptedBytes (s.1.rcvNxt ≠ r.rcvNxt)) s.1 f n
  exact ⟨session, bound, pending, _, _, hsession, heq⟩

/-- Only the receive buffer, the session, congestion marks and the timestamp of the
    connection differ. -/
structure OnlyReceives (p' p : Pcb κ) : Prop where
  connection : SameConnection p' p
  generation : p'.generation = p.generation
  state : p'.state = p.state
  send : p'.send = p.send
  peerWindow : p'.peerWindow = p.peerWindow

@[simp] theorem onlyReceives_drainSession (f : TrySend) (n : ℕ) :
    OnlyReceives (p.drainSession r f n).1 p := by
  obtain ⟨_, _, _, -, heq⟩ := drainSession_eq p r f n
  rw [heq]
  exact ⟨⟨rfl, rfl, rfl, rfl, rfl, rfl, rfl, rfl, rfl, rfl⟩, rfl, rfl, rfl, rfl⟩

@[simp] theorem onlyReceives_bindSession (session : SessionId) (r : TcpReceiveBuffer) (f : TrySend)
    (n : ℕ) : OnlyReceives ((p.bindSession session).drainSession r f n).1 p := by
  obtain ⟨_, _, _, -, heq⟩ := drainSession_eq (p.bindSession session) r f n
  rw [heq]
  exact ⟨⟨rfl, rfl, rfl, rfl, rfl, rfl, rfl, rfl, rfl, rfl⟩, rfl, rfl, rfl, rfl⟩

@[simp] theorem onlyReceives_takePayload (segment : TcpSegmentView) (timestamp : Option UInt32)
    (f : TrySend) (n : ℕ) : OnlyReceives (p.takePayload r segment timestamp f n).pcb p := by
  obtain ⟨_, _, _, _, _, -, heq⟩ := takePayload_eq p r segment timestamp f n
  rw [heq]
  exact ⟨⟨rfl, rfl, rfl, rfl, rfl, rfl, rfl, rfl, rfl, rfl⟩, rfl, rfl, rfl, rfl⟩

end Pcb

variable [CongestionController κ]

/-- A step that an operation takes on one connection, and what is observed of it. -/
inductive Pcb.Step (c : EngineCall κ) : Pcb κ → List Observed → Pcb κ → Prop
  /-- Timers, queued responses, timestamps and congestion marks. -/
  | quiet {p : Pcb κ} (responseOptions : TcpSynOptions) (peerTimestamp : UInt32)
      (retryIndex : ℕ) (retryTimer delayedAckTimer timewaitTimer : TimerId)
      (pendingAck : Option TcpResponse) (ecnEcePending : Bool) :
      Step c p []
        { p with
          responseOptions := responseOptions
          options := { p.options with peerTimestamp := peerTimestamp }
          retryIndex := retryIndex
          retryTimer := retryTimer
          delayedAckTimer := delayedAckTimer
          timewaitTimer := timewaitTimer
          pendingAck := pendingAck
          ecnEcePending := ecnEcePending }
  | synAck {p : Pcb κ} (nowMs : ℕ) (hstate : p.state = .synReceived) :
      Step c p [.built (p.buildSynAck nowMs).2] (p.buildSynAck nowMs).1
  | ack {p : Pcb κ} {r : TcpReceiveBuffer} (nowMs : ℕ) (hr : p.receive = some r) :
      Step c p [.built (p.buildAck r nowMs).2] (p.buildAck r nowMs).1
  | establish {p : Pcb κ} {r : TcpReceiveBuffer} {segment : TcpSegmentView} {nowMs : ℕ}
      {options : TcpNegotiatedOptions} (hop : c.op = .onSegment segment nowMs)
      (hflow : p.incomingFlow = segment.flow) (hstate : p.state = .synReceived)
      (hack : segment.hasFlag TcpFlag.ack = true ∧ segment.acknowledgment = p.sndNxt)
      (hoptions : p.handshakeOptions segment = some options)
      (hr : TcpReceiveBuffer.new p.receiveWindow.toNat p.rcvNxt p.responseWindow.toNat = some r) :
      Step c p [.accepted segment.window]
        (p.establish options segment.acknowledgment r
          (.new p.sndNxt (c.config.sendConfig p.options.peerMss) c.makeController))
  /-- A session is attached, and gets what is in order; at the end of a handshake, nothing is. -/
  | attach {p : Pcb κ} {r : TcpReceiveBuffer} (session : SessionId) (hr : p.receive = some r)
      (hstate : p.state = .established) (hop : c.op.Attaches r) :
      Step c p
        (((p.bindSession session).drainSession (r.setBlocked false) (c.env.trySend p.flowId)
          c.config.deliveryCallBudget).2.calls.map .trySend)
        ((p.bindSession session).drainSession (r.setBlocked false) (c.env.trySend p.flowId)
          c.config.deliveryCallBudget).1
  /-- The session gets what is in order. -/
  | deliver {p : Pcb κ} {r b : TcpReceiveBuffer} (hr : p.receive = some r)
      (hb : b = r ∨ b = r.setBlocked false) (hop : c.op.delivers = true) :
      Step c p
        ((p.drainSession b (c.env.trySend p.flowId) c.config.deliveryCallBudget).2.calls.map .trySend)
        (p.drainSession b (c.env.trySend p.flowId) c.config.deliveryCallBudget).1
  | loseSession {p : Pcb κ} :
      Step c p [] { p with session := none, sessionBound := false }
  /-- A segment's window and acknowledgment are taken over; our FIN was acknowledged
      before, or is not. -/
  | accept {p : Pcb κ} {r : TcpReceiveBuffer} {segment : TcpSegmentView} {nowMs : ℕ}
      (hop : c.op = .onSegment segment nowMs) (ha : p.Accepts r segment)
      (hstate : (p.onAck segment nowMs).finAcked = true →
        p.state ≠ .finWait1 ∧ p.state ≠ .closing ∧ p.state ≠ .lastAck) :
      Step c p [.accepted segment.window] (p.onAck segment nowMs)
  | acceptFinWait2 {p : Pcb κ} {r : TcpReceiveBuffer} {segment : TcpSegmentView} {nowMs : ℕ}
      (hop : c.op = .onSegment segment nowMs) (ha : p.Accepts r segment)
      (hfin : (p.onAck segment nowMs).finAcked = true) (hstate : p.state = .finWait1) :
      Step c p [.accepted segment.window]
        { p.onAck segment nowMs with state := .finWait2 }
  /-- Both FINs are acknowledged: the connection waits for segments under way, or is removed. -/
  | acceptTimeWait {p : Pcb κ} {r : TcpReceiveBuffer} {segment : TcpSegmentView} {nowMs : ℕ}
      (deadlineMs : ℕ) (timer : TimerId) (hop : c.op = .onSegment segment nowMs)
      (ha : p.Accepts r segment) (hfin : (p.onAck segment nowMs).finAcked = true)
      (hstate : p.state = .closing ∨ p.state = .lastAck) :
      Step c p [.accepted segment.window]
        ((p.onAck segment nowMs).enterTimeWait deadlineMs timer)
  /-- The payload of a segment is stored, and the session gets what is in order. -/
  | payload {p : Pcb κ} {r : TcpReceiveBuffer} {segment : TcpSegmentView} {nowMs : ℕ}
      (timestamp : Option UInt32) (hop : c.op = .onSegment segment nowMs)
      (hflow : p.incomingFlow = segment.flow) (hr : p.receive = some r)
      (hstate : p.state.pastFin = false) (hpayload : segment.payload ≠ []) :
      Step c p
        (.received (p.takePayload r segment timestamp (c.env.trySend p.flowId)
            c.config.deliveryCallBudget).inOrder ::
          (p.takePayload r segment timestamp (c.env.trySend p.flowId)
            c.config.deliveryCallBudget).delivery.calls.map .trySend)
        (p.takePayload r segment timestamp (c.env.trySend p.flowId) c.config.deliveryCallBudget).pcb
  | fin {p : Pcb κ} {r : TcpReceiveBuffer} {segment : TcpSegmentView} {nowMs : ℕ}
      (hop : c.op = .onSegment segment nowMs) (hn : p.NextFin r segment)
      (hstate : p.state ≠ .finWait2 ∧ p.state ≠ .closing) :
      Step c p p.finObserved (p.takeFin r)
  | finTimeWait {p : Pcb κ} {r : TcpReceiveBuffer} {segment : TcpSegmentView} {nowMs : ℕ}
      (deadlineMs : ℕ) (timer : TimerId) (hop : c.op = .onSegment segment nowMs)
      (hn : p.NextFin r segment) (hstate : p.state = .finWait2 ∨ p.state = .closing) :
      Step c p p.finObserved
        ((p.takeFin r).enterTimeWait deadlineMs timer)
  | restartTimeWait {p : Pcb κ} (deadlineMs : ℕ) (timer : TimerId) (hstate : p.state = .timeWait) :
      Step c p [] (p.enterTimeWait deadlineMs timer)
  | enqueue {p : Pcb κ} {send : TcpSendBuffer κ} (data : Bytes) (hs : p.send = some send)
      (hstate : p.state = .established ∨ p.state = .closeWait) :
      Step c p [] { p with send := some (send.enqueue data).1 }
  | updateMss {p : Pcb κ} {pmtu : ℕ} (mss : UInt16)
      (hop : c.op = .onPathMtuLowered p.incomingFlow.source pmtu) :
      Step c p [] { p with send := p.send.map (·.updateMss mss) }
  | requestClose {p : Pcb κ} : Step c p [] p.requestClose
  /-- The connection, as it was before the call, is asked for a segment, and there is
      none, or no packet for it. -/
  | ask {p : Pcb κ} {send asked send' : TcpSendBuffer κ} (nowMs : ℕ) (hserved : p ∈ c.pcbs)
      (hs : p.send = some send)
      (hstate : p.state ≠ .synReceived ∧ p.state ≠ .timeWait)
      {next : TcpSendNextResult}
      (hnext : send.nextSegment (p.scaledPeerWindow p.peerWindow) nowMs = (asked, next))
      (hsend : (next.hasSegment = false ∧ send' = asked) ∨ send' = asked.resetPending) :
      Step c p [.nextSegment (p.scaledPeerWindow p.peerWindow)]
        { p with send := some send' }
  /-- A segment is transmitted, with a copy of its payload kept. -/
  | transmit {p : Pcb κ} {send asked : TcpSendBuffer κ} {next : TcpSendNextResult}
      {nowMs pcbBudget maxSegments : ℕ} (hop : c.op = .pumpSendPaths nowMs pcbBudget maxSegments)
      (hserved : p ∈ c.pcbs) (hs : p.send = some send)
      (hstate : p.state ≠ .synReceived ∧ p.state ≠ .timeWait)
      (hnext : send.nextSegment (p.scaledPeerWindow p.peerWindow) nowMs = (asked, next))
      (hsegment : next.hasSegment = true) :
      Step c p
        [.nextSegment (p.scaledPeerWindow p.peerWindow), .built (p.dataSegment next nowMs)]
        { p with send := some (asked.onSent
          (if next.isRetransmission = false ∧ next.payload ≠ [] then some next.payload else none)
          0 nowMs) }

namespace Pcb

variable {c : EngineCall κ} {p p' p'' : Pcb κ} {seen seen' : List Observed}

/-- No step changes the identity of a connection, and what its SYN has settled. -/
theorem Step.sameConnection (h : Step c p seen p') : SameConnection p' p := by
  cases h with
  | attach | deliver | payload => exact OnlyReceives.connection (by simp)
  | establish _ _ _ _ hoptions =>
    obtain ⟨_, rfl⟩ := handshakeOptions_eq hoptions
    exact ⟨rfl, rfl, rfl, rfl, rfl, rfl, rfl, rfl, rfl, rfl⟩
  | requestClose =>
    obtain ⟨_, _, heq⟩ := p.requestClose_eq
    rw [heq]
    exact ⟨rfl, rfl, rfl, rfl, rfl, rfl, rfl, rfl, rfl, rfl⟩
  | _ => exact ⟨rfl, rfl, rfl, rfl, rfl, rfl, rfl, rfl, rfl, rfl⟩

/-- Steps that are taken one after another. -/
inductive Steps (c : EngineCall κ) : Pcb κ → List Observed → Pcb κ → Prop
  | refl (p : Pcb κ) : Steps c p [] p
  | tail {p p' p'' : Pcb κ} {seen seen' : List Observed} :
      Steps c p seen p' → Step c p' seen' p'' → Steps c p (seen ++ seen') p''

theorem Step.steps (h : Step c p seen p') : Steps c p seen p' := .tail (.refl p) h

theorem Steps.trans (h : Steps c p seen p') (h' : Steps c p' seen' p'') :
    Steps c p (seen ++ seen') p'' := by
  induction h' with
  | refl => rwa [List.append_nil]
  | tail _ hstep ih =>
    rw [← List.append_assoc]
    exact .tail ih hstep

theorem Steps.sameConnection (h : Steps c p seen p') : SameConnection p' p := by
  induction h with
  | refl => exact ⟨rfl, rfl, rfl, rfl, rfl, rfl, rfl, rfl, rfl, rfl⟩
  | tail _ hstep ih => exact hstep.sameConnection.trans ih

/-- A property that a connection has which the call opens. -/
abbrev OnOpen (c : EngineCall κ) (J : Pcb κ → List Observed → Prop) : Prop :=
  ∀ {segment : TcpSegmentView} {nowMs : ℕ} {offered : TcpSynOptions}
    (iss : UInt32) (generation : ℕ),
    c.op = .onSegment segment nowMs → segment.hasFlag TcpFlag.fin = false →
    parseTcpSynOptions segment.options = .ok offered →
    J (.ofSyn c.config segment offered iss c.nextFlowId generation) [.opened segment.window]

/-- A property of a connection and what was observed of it that the steps of a call
    preserve, and that a connection has which the call opens. -/
structure Kept (c : EngineCall κ) (J : Pcb κ → List Observed → Prop) : Prop where
  step : ∀ {p p' : Pcb κ} {hist seen : List Observed},
    Step c p seen p' → J p hist → J p' (hist ++ seen)
  opens : OnOpen c J

/-- Moreover, it implies the property `D` of what was observed. -/
structure KeptWith (c : EngineCall κ) (J : Pcb κ → List Observed → Prop)
    (D : List Observed → Prop) : Prop extends Kept c J where
  past : ∀ {p : Pcb κ} (hist : List Observed), J p hist → D hist

theorem Kept.steps {J : Pcb κ → List Observed → Prop} (hJ : Kept c J) (h : Steps c p seen p')
    {hist : List Observed} (hp : J p hist) : J p' (hist ++ seen) := by
  induction h with
  | refl => rwa [List.append_nil]
  | tail _ hstep ih =>
    rw [← List.append_assoc]
    exact hJ.step hstep ih

end Pcb

end Netstack2
