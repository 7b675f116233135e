import Netstack2.Tcp.Engine.Turn

/-!
# The changes a call makes

A call makes changes of a few kinds to the table of the engine
(`TcpHandshakeEngine.Change`), one after another (`Evolves`, see
`Netstack2.Tcp.Engine.Calls`), and whatever is to hold of the table in every run is a case
analysis over them. A change

* touches only timers, responses and events (`Quiet`),
* takes a connection a turn further, which leaves its entry in the books as it is,
* adds a connection, or removes one,
* moves a connection from the handshake to ESTABLISHED, or fails to, or
* moves it to TIME-WAIT, which may remove another one.

Only the last sets a timer that is to end a TIME-WAIT; a connection that is there already has
had its timer cancelled.
-/

namespace Netstack2

variable {κ : Type}

/-- What is done when the timer fires is the end of TIME-WAIT. -/
def TimerAction.endsTimeWait : TimerAction → Bool
  | timeWait .. => true
  | _ => false

namespace TcpHandshakeEngine

/-! ## Timers -/

section Timers

variable {e e' : TcpHandshakeEngine κ} {t : TimerEntry TimerAction} {id : TimerId}

theorem mem_entries_cancelTimer (h : t ∈ (e.cancelTimer id).timers.entries) :
    t ∈ e.timers.entries ∧ (id ≠ 0 → t.id ≠ id) := by
  rw [cancelTimer] at h
  split at h
  case isTrue =>
    obtain ⟨hmem, hne⟩ := TimerWheel.mem_entries_cancel.1 h
    exact ⟨hmem, fun _ => hne⟩
  case isFalse hzero => exact ⟨h, fun hne => absurd hne hzero⟩

theorem isReady_cancelTimer (h : e.timers.IsReady) (id : TimerId) :
    (e.cancelTimer id).timers.IsReady := by
  rw [cancelTimer]
  split
  · exact h.cancel id
  · exact h

/-- Setting a timer, if that is possible, adds it to those that are pending. -/
theorem schedule_entries (h : e.timers.IsReady) (env : Env) (deadlineMs : ℕ) (action : TimerAction) :
    (e.schedule env deadlineMs action).1.timers.IsReady ∧
      ((e.schedule env deadlineMs action).2 = none ∧
          (e.schedule env deadlineMs action).1.timers = e.timers ∨
        ∃ id deadline, (e.schedule env deadlineMs action).2 = some id ∧ id ≠ 0 ∧
          (e.schedule env deadlineMs action).1.timers.entries.Perm
            (⟨id, deadline, action⟩ :: e.timers.entries)) := by
  rw [schedule]
  split
  case isTrue => exact ⟨h, .inl ⟨rfl, rfl⟩⟩
  case isFalse =>
    split
    case h_1 timers id hset =>
      obtain ⟨hready, hid, hperm⟩ := h.schedule hset
      exact ⟨hready, .inr ⟨id, _, rfl, hid, hperm⟩⟩
    case h_2 => exact ⟨h, .inl ⟨rfl, rfl⟩⟩

/-- Only timers, responses and events change, and no timer is set that ends a TIME-WAIT. -/
structure Quiet (e' e : TcpHandshakeEngine κ) : Prop extends SameBooks e' e where
  ends : e.timers.IsReady → e'.timers.IsReady ∧
    ∀ t ∈ e'.timers.entries, t.callback.endsTimeWait = true → t ∈ e.timers.entries

theorem SameBooks.quiet (h : SameBooks e' e) (htimers : e'.timers = e.timers) : Quiet e' e :=
  ⟨h, fun hready => ⟨htimers ▸ hready, fun _ ht _ => htimers ▸ ht⟩⟩

theorem cancelTimer_quiet (e : TcpHandshakeEngine κ) (id : TimerId) : Quiet (e.cancelTimer id) e :=
  ⟨cancelTimer_sameBooks e id, fun hready =>
    ⟨isReady_cancelTimer hready id, fun _ ht _ => (mem_entries_cancelTimer ht).1⟩⟩

theorem schedule_quiet (env : Env) (e : TcpHandshakeEngine κ) (deadlineMs : ℕ)
    (action : TimerAction) (haction : action.endsTimeWait = false) :
    Quiet (e.schedule env deadlineMs action).1 e := by
  refine ⟨schedule_sameBooks env e deadlineMs action, fun hready => ?_⟩
  obtain ⟨hready', hset⟩ := schedule_entries hready env deadlineMs action
  refine ⟨hready', fun t ht hends => ?_⟩
  rcases hset with ⟨-, htimers⟩ | ⟨id, deadline, -, -, hperm⟩
  · exact htimers ▸ ht
  · rcases List.mem_cons.1 (hperm.mem_iff.1 ht) with rfl | ht
    · simp [haction] at hends
    · exact ht

end Timers

/-! ## Changes -/

variable [CongestionController κ]

/-- A change that a call makes. -/
inductive Change (c : EngineCall κ) (e : TcpHandshakeEngine κ) : TcpHandshakeEngine κ → Prop
  | quiet {e' : TcpHandshakeEngine κ} (hsame : Quiet e' e) : Change c e e'
  | turn {i : ℕ} {p p' : Pcb κ} {seen : List Observed} (hp : e.pcbs[i]? = some p)
      (hturn : Pcb.Turn c p seen p') : Change c e (e.update i p' seen)
  | remove (i : ℕ) : Change c e (e.removeAt i)
  /-- The peer acknowledges our FIN after its own. -/
  | close {i : ℕ} {p : Pcb κ} {r : TcpReceiveBuffer} {segment : TcpSegmentView} {nowMs : ℕ}
      (hop : c.op = .onSegment segment nowMs) (hp : e.pcbs[i]? = some p)
      (ha : p.Accepts r segment) (hfin : (p.onAck segment nowMs).finAcked = true)
      (hstate : p.state = .lastAck) :
      Change c e
        ((e.update i (p.onAck segment nowMs) [.accepted segment.window]).removeAt i)
  /-- A connection is written back, and moved to TIME-WAIT. -/
  | enterTimeWait {i : ℕ} {p : Pcb κ} {seen : List Observed} {segment : TcpSegmentView} {nowMs : ℕ}
      (p' : Pcb κ) (env : Env) (hop : c.op = .onSegment segment nowMs) (hp : e.pcbs[i]? = some p)
      (hstate : p.state ≠ .synReceived) (hid : p'.flowId = p.flowId)
      (hflow : p'.incomingFlow = p.incomingFlow)
      (hentry : p'.entry = p.entry)
      (hfree : p.state = .timeWait → p.timewaitTimer ≠ 0 →
        ∀ t ∈ e.timers.entries, t.id ≠ p.timewaitTimer)
      (hs : ∀ deadlineMs timer, Pcb.Step c p seen (p'.enterTimeWait deadlineMs timer)) :
      Change c e ((e.update i p' seen).scheduleTimeWait env i nowMs).1
  /-- A SYN opens a connection. -/
  | opens {segment : TcpSegmentView} {nowMs : ℕ} {offered : TcpSynOptions} (iss : UInt32)
      (generation : ℕ) (hop : c.op = .onSegment segment nowMs) (hopen : e.isShutdown = false)
      (hfin : segment.hasFlag TcpFlag.fin = false)
      (hoffered : parseTcpSynOptions segment.options = .ok offered)
      (hfree : ∀ q ∈ e.pcbs, q.incomingFlow ≠ segment.flow)
      (hnext : e.nextFlowId = c.nextFlowId) (hroom : e.pcbs.length < e.config.pcbLimit) :
      Change c e (e.addPcb (.ofSyn c.config segment offered iss c.nextFlowId generation)
        segment.window)
  | establish {i : ℕ} {p : Pcb κ} {r : TcpReceiveBuffer} {segment : TcpSegmentView} {nowMs : ℕ}
      {options : TcpNegotiatedOptions} (hop : c.op = .onSegment segment nowMs)
      (hp : e.pcbs[i]? = some p) (hflow : p.incomingFlow = segment.flow)
      (hstate : p.state = .synReceived)
      (hack : segment.hasFlag TcpFlag.ack = true ∧ segment.acknowledgment = p.sndNxt)
      (hoptions : p.handshakeOptions segment = some options)
      (hr : TcpReceiveBuffer.new p.receiveWindow.toNat p.rcvNxt p.responseWindow.toNat = some r)
      (hbudget : e.receiveMemoryBytes + r.memoryBytes ≤ e.config.receiveMemoryBudget) :
      Change c e
        { ((e.acquire p r).update i (p.establish options segment.acknowledgment r
            (.new p.sndNxt (c.config.sendConfig p.options.peerMss) c.makeController))
            [.accepted segment.window]).emitFlowEvent p.flowId .established with
          halfOpenCount := (e.acquire p r).halfOpenCount - 1 }
  /-- There is no memory for the send buffer of a connection that is established already. -/
  | sendFails {i : ℕ} {p : Pcb κ} {r : TcpReceiveBuffer} (options : TcpNegotiatedOptions)
      (acknowledgment : UInt32) (send : TcpSendBuffer κ) (hfails : c.env.sendFails = true)
      (hp : e.pcbs[i]? = some p) (hstate : p.state = .synReceived) :
      Change c e (((e.acquire p r).update i
        { p.establish options acknowledgment r send with send := none }).removeAt i)
  | lowerMtu {peer : IpAddress} {pmtu : ℕ} (hop : c.op = .onPathMtuLowered peer pmtu) :
      Change c e (e.onPathMtuLowered peer pmtu)
  | shutDown (events : List (FlowId × FlowEventType)) (hop : c.op = .shutdown) :
      Change c e { e with isShutdown := true, events := events }

variable {c : EngineCall κ} {e e' : TcpHandshakeEngine κ}

omit [CongestionController κ] in
theorem scheduleTimeWait_parameters {i : ℕ} {p : Pcb κ} (hp : e.pcbs[i]? = some p) (env : Env)
    (nowMs : ℕ) : SameParameters (e.scheduleTimeWait env i nowMs).1 e := by
  obtain ⟨e₁, hroom, ⟨heq, -⟩ | ⟨j, a, -, -, heq⟩⟩ := scheduleTimeWait_spec hp env nowMs
  · rw [heq]
    exact hroom.parameters
  · obtain ⟨_, _, hsame, hentered⟩ := enters_moveToTimeWait env e₁ j a nowMs
    rw [heq, hentered]
    exact SameParameters.trans ⟨hsame.config, hsame.makeController, hsame.isShutdown⟩
      hroom.parameters

omit [CongestionController κ] in
theorem acquire_parameters (e : TcpHandshakeEngine κ) (p : Pcb κ) (r : TcpReceiveBuffer) :
    SameParameters (e.acquire p r) e := by
  have h := (cancelTimer_sameBooks e p.retryTimer).parameters
  exact ⟨h.config, h.makeController, h.isShutdown⟩

/-- A lower path MTU changes what the connections with the peer send, and nothing else. -/
theorem onPathMtuLowered_eq (e : TcpHandshakeEngine κ) (peer : IpAddress) (pmtu : ℕ) :
    ∃ f : Pcb κ → Pcb κ, (∀ p, f p = p ∨ p.incomingFlow.source = peer ∧
        ∃ mss, f p = { p with send := p.send.map (·.updateMss mss) }) ∧
      e.onPathMtuLowered peer pmtu = { e with pcbs := e.pcbs.map f } := by
  rw [onPathMtuLowered]
  generalize (if peer.isIpv4 then 40 else 60) = fixedHeaderBytes
  split
  case isTrue => exact ⟨id, fun _ => .inl rfl, by rw [List.map_id]⟩
  case isFalse =>
    refine ⟨_, fun p => ?_, rfl⟩
    split
    case isTrue hpeer => exact .inr ⟨hpeer, _, rfl⟩
    case isFalse => exact .inl rfl

/-- Only a shutdown changes what the engine was made with, or whether it is open. -/
theorem Change.parameters (h : Change c e e') :
    SameParameters e' e ∨ c.op = .shutdown ∧ e'.config = e.config ∧
      e'.makeController = e.makeController := by
  cases h with
  | quiet hsame => exact .inl hsame.parameters
  | turn | opens => exact .inl ⟨rfl, rfl, rfl⟩
  | remove i => exact .inl (removeAt_parameters e i)
  | @close i p _ segment nowMs =>
    have h := removeAt_parameters
      (e.update i (p.onAck segment nowMs) [.accepted segment.window]) i
    exact .inl ⟨h.config, h.makeController, h.isShutdown⟩
  | @enterTimeWait i p seen _ nowMs p' env _ hp =>
    have h := scheduleTimeWait_parameters (update_getElem hp p' seen) env nowMs
    exact .inl ⟨h.config, h.makeController, h.isShutdown⟩
  | @establish _ p r =>
    have h := acquire_parameters e p r
    exact .inl ⟨h.config, h.makeController, h.isShutdown⟩
  | @sendFails i p r options acknowledgment send =>
    have hremoved := removeAt_parameters ((e.acquire p r).update i
      { p.establish options acknowledgment r send with send := none }) i
    have h := acquire_parameters e p r
    exact .inl (hremoved.trans ⟨h.config, h.makeController, h.isShutdown⟩)
  | @lowerMtu peer pmtu =>
    obtain ⟨_, -, heq⟩ := onPathMtuLowered_eq e peer pmtu
    exact .inl (heq ▸ ⟨rfl, rfl, rfl⟩)
  | shutDown _ hop => exact .inr ⟨hop, rfl, rfl⟩

theorem Change.config (h : Change c e e') :
    e'.config = e.config := h.parameters.elim (·.config) (·.2.1)

theorem Change.makeController (h : Change c e e') : e'.makeController = e.makeController :=
  h.parameters.elim (·.makeController) (·.2.2)

/-- `e` comes up in the call `c` on `e₀`. -/
structure Evolves (c : EngineCall κ) (e₀ e : TcpHandshakeEngine κ) : Prop where
  config : e.config = c.config
  makeController : e.makeController = c.makeController
  changes : Relation.ReflTransGen (Change c) e₀ e

variable {c : EngineCall κ} {e₀ e e' : TcpHandshakeEngine κ} {i : ℕ} {p p' : Pcb κ}
  {seen : List Observed}

theorem Evolves.tail (h : Evolves c e₀ e) (hc : Change c e e') : Evolves c e₀ e' :=
  ⟨hc.config.trans h.config, hc.makeController.trans h.makeController, h.changes.tail hc⟩

end TcpHandshakeEngine

end Netstack2
