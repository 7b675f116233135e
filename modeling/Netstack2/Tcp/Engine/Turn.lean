import Netstack2.Tcp.Engine.Step

/-!
# Turns of a connection

The books of an engine hold an *entry* for each connection: whether it is half open, when
its TIME-WAIT ends, and what its receive buffer takes (`Pcb.entry`). Most of what an
operation does to a connection leaves its entry as it is: a `Pcb.Turn`. Beside them there
are the moves into ESTABLISHED and into TIME-WAIT; whatever is a turn or one of these is a
`Pcb.Move`.

A turn also accounts for the timestamp that a connection in its handshake expects back: it
is that of the SYN-ACK built last (`Pcb.Expects`).
-/

namespace Netstack2

variable {κ : Type}

/-! ## Entries -/

/-- What the books of an engine hold of a connection. -/
@[ext]
structure Entry where
  halfOpen : Bool
  /-- When its TIME-WAIT ends, if it is there. -/
  deadline : Option ℕ
  memory : ℕ

/-- What the receive buffer of a connection takes. -/
def Pcb.receiveMemory (p : Pcb κ) : ℕ := (p.receive.map (·.memoryBytes)).getD 0

def Pcb.entry (p : Pcb κ) : Entry where
  halfOpen := p.state = .synReceived
  deadline := if p.state = .timeWait then some p.timewaitDeadlineMs else none
  memory := p.receiveMemory

/-! ## SYN-ACKs -/

/-- The timestamp of a SYN-ACK that carries one. -/
def Observed.synAckTimestamp : Observed → Option UInt32
  | .built response =>
    if response.flags &&& TcpFlag.syn ≠ 0 ∧ response.synOptions.timestampPresent = true then
      some response.synOptions.timestampValue
    else none
  | _ => none

/-- The timestamps of the SYN-ACKs that were built. -/
def synAckTimestamps (seen : List Observed) : List UInt32 := seen.filterMap Observed.synAckTimestamp

theorem synAckTimestamps_append (seen seen' : List Observed) :
    synAckTimestamps (seen ++ seen') = synAckTimestamps seen ++ synAckTimestamps seen' :=
  List.filterMap_append

@[simp] theorem synAckTimestamps_trySend (calls : List TrySendCall) :
    synAckTimestamps (calls.map .trySend) = [] := by
  rw [synAckTimestamps, List.filterMap_map]
  exact List.filterMap_eq_nil_iff.2 fun _ _ => rfl

/-- `p'` expects back the timestamp of the last SYN-ACK since `p`. -/
structure Pcb.Expects (p : Pcb κ) (seen : List Observed) (p' : Pcb κ) : Prop where
  present : p'.responseOptions.timestampPresent = p.responseOptions.timestampPresent
  value : p'.responseOptions.timestampValue =
    (synAckTimestamps seen).getLast?.getD p.responseOptions.timestampValue

namespace Pcb

variable {p p' p'' : Pcb κ} {seen seen' : List Observed}

/-- No SYN-ACK was built. -/
theorem Expects.of_same (hoptions : p'.responseOptions = p.responseOptions)
    (hseen : synAckTimestamps seen = []) : p.Expects seen p' :=
  ⟨by rw [hoptions], by rw [hoptions, hseen]; rfl⟩

theorem Expects.trans (h : p.Expects seen p') (h' : p'.Expects seen' p'') :
    p.Expects (seen ++ seen') p'' where
  present := h'.present.trans h.present
  value := by
    rw [h'.value, h.value, synAckTimestamps_append, List.getLast?_append]
    cases (synAckTimestamps seen').getLast? <;> rfl

theorem synAckTimestamps_built (response : TcpResponse) : synAckTimestamps [.built response] =
    if response.flags &&& TcpFlag.syn ≠ 0 ∧ response.synOptions.timestampPresent then
      [response.synOptions.timestampValue] else [] := by
  rw [synAckTimestamps, List.filterMap_cons, Observed.synAckTimestamp]
  split_ifs <;> rfl

theorem expects_buildSynAck (p : Pcb κ) (nowMs : ℕ) :
    p.Expects [.built (p.buildSynAck nowMs).2] (p.buildSynAck nowMs).1 := by
  have hsyn := buildSynAck_syn p nowMs
  have hoptions : (p.buildSynAck nowMs).2.synOptions = (p.buildSynAck nowMs).1.responseOptions :=
    rfl
  by_cases hpresent : p.responseOptions.timestampPresent = true
  · have hbuilt : (p.buildSynAck nowMs).1.responseOptions.timestampPresent := by
      simp [buildSynAck, hpresent]
    refine ⟨hbuilt.trans hpresent.symm, ?_⟩
    rw [synAckTimestamps_built, hoptions, if_pos ⟨hsyn, hbuilt⟩]
    rfl
  · have hbuilt : (p.buildSynAck nowMs).1.responseOptions = p.responseOptions := by
      simp [buildSynAck, hpresent]
    refine .of_same hbuilt ?_
    rw [synAckTimestamps_built, hoptions, hbuilt, if_neg fun h => hpresent h.2]

/-- A segment without the SYN flag is no SYN-ACK. -/
theorem synAckTimestamps_of_flags {response : TcpResponse}
    (h : response.flags &&& TcpFlag.syn = 0) : synAckTimestamps [.built response] = [] := by
  rw [synAckTimestamps_built, if_neg fun hsyn => hsyn.1 h]

theorem synAckTimestamps_buildAck (p : Pcb κ) (r : TcpReceiveBuffer) (nowMs : ℕ) :
    synAckTimestamps [.built (p.buildAck r nowMs).2] = [] := by
  refine synAckTimestamps_of_flags ?_
  rw [buildAck]
  dsimp only
  split <;> decide

theorem synAckTimestamps_dataSegment (p : Pcb κ) (next : TcpSendNextResult) (nowMs : ℕ)
    (window : UInt32) :
    synAckTimestamps [.nextSegment window, .built (p.dataSegment next nowMs)] = [] := by
  refine synAckTimestamps_of_flags ?_
  rw [dataSegment]
  dsimp only
  split_ifs <;> decide

/-! ## Turns -/

theorem entry_eq (hopen : p'.state = .synReceived ↔ p.state = .synReceived)
    (hwait : p'.state = .timeWait ↔ p.state = .timeWait)
    (hmemory : p'.receiveMemory = p.receiveMemory)
    (hdeadline : p'.timewaitDeadlineMs = p.timewaitDeadlineMs) : p'.entry = p.entry := by
  simp only [entry, hopen, hwait, hmemory, hdeadline]

/-- The peer's FIN changes nothing in the books; a connection that is to enter TIME-WAIT
    does so later. -/
theorem entry_takeFin {r : TcpReceiveBuffer} (hr : p.receive = some r) :
    (p.takeFin r).entry = p.entry := by
  refine entry_eq ?_ ?_ (by simp [receiveMemory, takeFin, hr]) rfl
  · show stateAfterFin p.state = _ ↔ _
    cases p.state <;> simp [stateAfterFin]
  · show stateAfterFin p.state = _ ↔ _
    cases p.state <;> simp [stateAfterFin]

theorem synAckTimestamps_finObserved (p : Pcb κ) : synAckTimestamps p.finObserved = [] := by
  rw [finObserved]
  split <;> rfl

/-- The receive buffer of a connection after a delivery takes what it took before. -/
theorem memoryBytes_drainSession (p : Pcb κ) (r : TcpReceiveBuffer) (f : TrySend)
    (n : ℕ) : (p.drainSession r f n).2.buffer.memoryBytes = r.memoryBytes := by
  unfold drainSession
  split
  · rfl
  · split
    · rfl
    · exact memoryBytes_drain r f n

variable [CongestionController κ]

/-- What a call does to a connection while it changes nothing in the books, and holds the
    same timer of TIME-WAIT. -/
structure Turn (c : EngineCall κ) (p : Pcb κ) (seen : List Observed) (p' : Pcb κ) : Prop where
  steps : Steps c p seen p'
  entry : p'.entry = p.entry
  expects : p.Expects seen p'
  timewaitTimer : p'.timewaitTimer = p.timewaitTimer

namespace Turn

variable {c : EngineCall κ} {r : TcpReceiveBuffer} {send asked send' : TcpSendBuffer κ}
  {next : TcpSendNextResult} {segment : TcpSegmentView} {nowMs : ℕ}

theorem refl (p : Pcb κ) : Turn c p [] p := ⟨.refl p, rfl, .of_same rfl rfl, rfl⟩

theorem trans (h : Turn c p seen p') (h' : Turn c p' seen' p'') : Turn c p (seen ++ seen') p'' :=
  ⟨h.steps.trans h'.steps, h'.entry.trans h.entry, h.expects.trans h'.expects,
    h'.timewaitTimer.trans h.timewaitTimer⟩

/-- A step that leaves the state, the receive buffer's size and TIME-WAIT alone. -/
theorem of_step (hs : Step c p seen p') (hstate : p'.state = p.state)
    (hmemory : p'.receiveMemory = p.receiveMemory)
    (hdeadline : p'.timewaitDeadlineMs = p.timewaitDeadlineMs)
    (htimer : p'.timewaitTimer = p.timewaitTimer) (hexpects : p.Expects seen p') :
    Turn c p seen p' where
  steps := hs.steps
  entry := entry_eq (by rw [hstate]) (by rw [hstate]) hmemory hdeadline
  expects := hexpects
  timewaitTimer := htimer

/-- Timers, queued responses, timestamps of the peer and congestion marks. -/
theorem quiet (echo peerTimestamp : UInt32) (retryIndex : ℕ) (retryTimer delayedAckTimer : TimerId)
    (pendingAck : Option TcpResponse) (ecnEcePending : Bool) :
    Turn c p [] { p with
      responseOptions := { p.responseOptions with timestampEcho := echo }
      options := { p.options with peerTimestamp := peerTimestamp }
      retryIndex := retryIndex
      retryTimer := retryTimer
      delayedAckTimer := delayedAckTimer
      pendingAck := pendingAck
      ecnEcePending := ecnEcePending } :=
  .of_step (.quiet ..) rfl rfl rfl rfl ⟨rfl, rfl⟩

theorem synAck (nowMs : ℕ) (hstate : p.state = .synReceived) :
    Turn c p [.built (p.buildSynAck nowMs).2] (p.buildSynAck nowMs).1 :=
  .of_step (.synAck nowMs hstate) rfl rfl rfl rfl (p.expects_buildSynAck nowMs)

theorem ack (nowMs : ℕ) (hr : p.receive = some r) :
    Turn c p [.built (p.buildAck r nowMs).2] (p.buildAck r nowMs).1 := by
  refine .of_step (.ack nowMs hr) rfl ?_ rfl rfl
    (.of_same rfl (p.synAckTimestamps_buildAck r nowMs))
  rw [receiveMemory, receiveMemory, hr]
  simp [buildAck]

section

variable (hop : c.op = .onSegment segment nowMs)

include hop

theorem accept (ha : p.Accepts r segment)
    (hstate : (p.onAck segment nowMs).finAcked →
      p.state ≠ .finWait1 ∧ p.state ≠ .closing ∧ p.state ≠ .lastAck) :
    Turn c p [.accepted segment.window] (p.onAck segment nowMs) :=
  .of_step (.accept hop ha hstate) rfl rfl rfl rfl (.of_same rfl rfl)

theorem acceptFinWait2 (ha : p.Accepts r segment) (hfin : (p.onAck segment nowMs).finAcked)
    (hstate : p.state = .finWait1) :
    Turn c p [.accepted segment.window] { p.onAck segment nowMs with state := .finWait2 } where
  steps := (Step.acceptFinWait2 hop ha hfin hstate).steps
  entry := entry_eq (by simp [hstate]) (by simp [hstate]) rfl rfl
  expects := .of_same rfl rfl
  timewaitTimer := rfl

theorem fin (hn : p.NextFin r segment) (hstate : p.state ≠ .finWait2 ∧ p.state ≠ .closing) :
    Turn c p p.finObserved (p.takeFin r) where
  steps := (Step.fin hop hn hstate).steps
  entry := entry_takeFin hn.receive
  expects := .of_same rfl p.synAckTimestamps_finObserved
  timewaitTimer := rfl

end

/-- A step that ends in a delivery; the receive buffer takes what it took before. -/
theorem of_delivery {b : TcpReceiveBuffer} {n : ℕ} {seen : List Observed}
    {f : TrySend} {q : Pcb κ} (hs : Step c p seen (q.drainSession b f n).1)
    (hq : q.state = p.state ∧ q.timewaitDeadlineMs = p.timewaitDeadlineMs ∧
      q.timewaitTimer = p.timewaitTimer ∧ q.responseOptions = p.responseOptions)
    (hr : p.receive = some r) (hb : b.memoryBytes = r.memoryBytes)
    (hseen : synAckTimestamps seen = []) : Turn c p seen (q.drainSession b f n).1 := by
  have hmemory := (q.memoryBytes_drainSession b f n).trans hb
  obtain ⟨_, _, _, -, heq⟩ := drainSession_eq q b f n
  rw [heq] at hs ⊢
  refine .of_step hs hq.1 ?_ hq.2.1 hq.2.2.1 (.of_same hq.2.2.2 hseen)
  rw [receiveMemory, receiveMemory, hr]
  exact hmemory

theorem attach (session : SessionId) (hr : p.receive = some r) (hstate : p.state = .established)
    (hop : c.op.Attaches r) :
    Turn c p
      (((p.bindSession session).drainSession (r.setBlocked false) (c.env.trySend p.flowId)
        c.config.deliveryCallBudget).2.calls.map .trySend)
      ((p.bindSession session).drainSession (r.setBlocked false) (c.env.trySend p.flowId)
        c.config.deliveryCallBudget).1 :=
  .of_delivery (.attach session hr hstate hop) ⟨rfl, rfl, rfl, rfl⟩ hr rfl
    (synAckTimestamps_trySend _)

theorem deliver {b : TcpReceiveBuffer} (hr : p.receive = some r)
    (hb : b = r ∨ b = r.setBlocked false) (hop : c.op.delivers) :
    Turn c p
      ((p.drainSession b (c.env.trySend p.flowId) c.config.deliveryCallBudget).2.calls.map .trySend)
      (p.drainSession b (c.env.trySend p.flowId) c.config.deliveryCallBudget).1 :=
  .of_delivery (.deliver hr hb hop) ⟨rfl, rfl, rfl, rfl⟩ hr (by rcases hb with rfl | rfl <;> rfl)
    (synAckTimestamps_trySend _)

theorem payload (timestamp : Option UInt32) (hop : c.op = .onSegment segment nowMs)
    (hflow : p.incomingFlow = segment.flow) (hr : p.receive = some r)
    (hstate : p.state.pastFin = false) (hpayload : segment.payload ≠ []) :
    Turn c p
      (.received (p.takePayload r segment timestamp (c.env.trySend p.flowId)
          c.config.deliveryCallBudget).inOrder ::
        (p.takePayload r segment timestamp (c.env.trySend p.flowId)
          c.config.deliveryCallBudget).delivery.calls.map .trySend)
      (p.takePayload r segment timestamp (c.env.trySend p.flowId)
        c.config.deliveryCallBudget).pcb :=
  .of_delivery (.payload timestamp hop hflow hr hstate hpayload) ⟨rfl, rfl, rfl, rfl⟩ hr
    (TcpReceiveBuffer.memoryBytes_onSegment ..) (synAckTimestamps_trySend _)

theorem loseSession : Turn c p [] { p with session := none, sessionBound := false } :=
  .of_step .loseSession rfl rfl rfl rfl (.of_same rfl rfl)

theorem requestClose : Turn c p [] p.requestClose := by
  have hs : Step c p _ _ := .requestClose
  have hentry : p.requestClose.entry = p.entry := by
    rw [Pcb.requestClose]
    split
    case h_1 hstate | h_2 hstate => exact entry_eq (by simp [hstate]) (by simp [hstate]) rfl rfl
    case h_3 => rfl
  obtain ⟨_, _, heq⟩ := p.requestClose_eq
  rw [heq] at hs hentry ⊢
  exact ⟨hs.steps, hentry, .of_same rfl rfl, rfl⟩

theorem enqueue (data : Bytes) (hs : p.send = some send)
    (hstate : p.state = .established ∨ p.state = .closeWait) :
    Turn c p [] { p with send := some (send.enqueue data).1 } :=
  .of_step (.enqueue data hs hstate) rfl rfl rfl rfl (.of_same rfl rfl)

theorem updateMss {pmtu : ℕ} (mss : UInt16)
    (hop : c.op = .onPathMtuLowered p.incomingFlow.source pmtu) :
    Turn c p [] { p with send := p.send.map (·.updateMss mss) } :=
  .of_step (.updateMss mss hop) rfl rfl rfl rfl (.of_same rfl rfl)

theorem ask (nowMs : ℕ) (hserved : p ∈ c.pcbs) (hs : p.send = some send)
    (hstate : p.state ≠ .synReceived ∧ p.state ≠ .timeWait)
    (hnext : send.nextSegment (p.scaledPeerWindow p.peerWindow) nowMs = (asked, next))
    (hsend : (next.hasSegment = false ∧ send' = asked) ∨ send' = asked.resetPending) :
    Turn c p [.nextSegment (p.scaledPeerWindow p.peerWindow)] { p with send := some send' } :=
  .of_step (.ask nowMs hserved hs hstate hnext hsend) rfl rfl rfl rfl (.of_same rfl rfl)

theorem transmit {pcbBudget maxSegments : ℕ}
    (hop : c.op = .pumpSendPaths nowMs pcbBudget maxSegments) (hserved : p ∈ c.pcbs)
    (hs : p.send = some send) (hstate : p.state ≠ .synReceived ∧ p.state ≠ .timeWait)
    (hnext : send.nextSegment (p.scaledPeerWindow p.peerWindow) nowMs = (asked, next))
    (hsegment : next.hasSegment) :
    Turn c p [.nextSegment (p.scaledPeerWindow p.peerWindow), .built (p.dataSegment next nowMs)]
      { p with send := some (asked.onSent
        (if next.isRetransmission = false ∧ next.payload ≠ [] then some next.payload else none)
        0 nowMs) } :=
  .of_step (.transmit hop hserved hs hstate hnext hsegment) rfl rfl rfl rfl
    (.of_same rfl (p.synAckTimestamps_dataSegment next nowMs _))

end Turn

/-- What a call does to a connection. While it stays half open, the timestamp it expects
    back is accounted for. -/
structure Move (c : EngineCall κ) (p : Pcb κ) (seen : List Observed) (p' : Pcb κ) : Prop where
  steps : Steps c p seen p'
  expects : p'.state = .synReceived → p.state = .synReceived ∧ p.Expects seen p'

/-- A step out of the handshake, or after it. -/
theorem Step.move {c : EngineCall κ} (h : Step c p seen p') (hstate : p'.state ≠ .synReceived) :
    Move c p seen p' :=
  ⟨h.steps, fun hopen => absurd hopen hstate⟩

theorem Turn.move {c : EngineCall κ} (h : Turn c p seen p') : Move c p seen p' where
  steps := h.steps
  expects hstate := by
    have hopen := congrArg Entry.halfOpen h.entry
    simp only [Pcb.entry, hstate] at hopen
    exact ⟨of_decide_eq_true hopen.symm, h.expects⟩

end Pcb

end Netstack2
