import Netstack2.Tcp.Engine.Change
import Netstack2.Tcp.Engine.Walk

/-!
# A call is made of changes

The operations of the engine are taken apart once, here: an operation makes changes of the
table, one after another (`Evolves.apply`). Whatever is to hold in every run is a case analysis
over the changes.
-/

namespace Netstack2

open TcpHandshakeEngine

variable {κ : Type} [CongestionController κ]

namespace TcpHandshakeEngine

variable {c : EngineCall κ} {e₀ e e' : TcpHandshakeEngine κ} {i : ℕ} {p p' : Pcb κ}
  {seen : List Observed} {r : TcpReceiveBuffer}

namespace Evolves

section

variable (h : Evolves c e₀ e)

include h

theorem quiet (hsame : Quiet e' e) : Evolves c e₀ e' := h.tail (.quiet hsame)

theorem removeAt (i : ℕ) : Evolves c e₀ (e.removeAt i) := h.tail (.remove i)

theorem emitFlowEvent (id : FlowId) (type : FlowEventType) :
    Evolves c e₀ (e.emitFlowEvent id type) :=
  h.quiet (SameBooks.quiet ⟨⟨rfl, rfl, rfl, rfl, rfl⟩, rfl, rfl, rfl⟩ rfl)

/-! ## One connection -/

section

variable (hp : e.pcbs[i]? = some p)

include hp

theorem update (hturn : Pcb.Turn c p seen p') : Evolves c e₀ (e.update i p' seen) :=
  h.tail (.turn hp hturn)

/-- An ACK is built for a connection, maybe after steps that observe nothing. -/
theorem buildAck (hs : Pcb.Turn c p [] p') (nowMs : ℕ) :
    Evolves c e₀ (e.buildAck i p' nowMs).1 := by
  rw [TcpHandshakeEngine.buildAck]
  split
  case h_1 => exact h
  case h_2 r hr =>
    have hsame := cancelTimer_quiet e p'.delayedAckTimer
    exact (h.quiet hsame).update (hsame.toSameTable.getElem hp) (hs.trans (.ack nowMs hr))

theorem buildSynAck (hs : Pcb.Turn c p [] p') (hstate : p'.state = .synReceived) (nowMs : ℕ) :
    Evolves c e₀ (e.buildSynAck i p' nowMs).1 :=
  h.update hp (hs.trans (.synAck nowMs hstate))

theorem scheduleRetry (hs : Pcb.Turn c p [] p') (env : Env) (deadlineMs : ℕ) :
    Evolves c e₀ (e.scheduleRetry env i p' deadlineMs).1 := by
  have hsame := schedule_quiet env e deadlineMs (.retry p'.incomingFlow p'.generation) rfl
  exact (h.quiet hsame).update (hsame.toSameTable.getElem hp) (hs.trans (.quiet ..))

theorem scheduleDelayedAck (env : Env) (nowMs : ℕ) :
    Evolves c e₀ (e.scheduleDelayedAck env i p nowMs).1 := by
  rw [TcpHandshakeEngine.scheduleDelayedAck]
  split
  · exact h
  · have hsame := schedule_quiet env e (saturatingAdd nowMs e.config.delayedAckMs)
      (.delayedAck p.incomingFlow p.generation) rfl
    exact (h.quiet hsame).update (hsame.toSameTable.getElem hp) (.quiet ..)

theorem acknowledgePayload (env : Env) (decision : AckDecision) (becameBlocked : Bool)
    (nowMs : ℕ) : Evolves c e₀ (e.acknowledgePayload env i p decision becameBlocked nowMs).1 := by
  have hdelayed := h.scheduleDelayedAck hp env nowMs
  obtain ⟨timer, hslot⟩ := scheduleDelayedAck_slot hp env nowMs
  rw [TcpHandshakeEngine.acknowledgePayload]
  split
  · exact h.buildAck hp (.refl p) nowMs
  · split
    · dsimp only
      split
      · exact hdelayed
      · -- the timer could not be set: the ACK is built at once
        exact hdelayed.buildAck hslot (.quiet ..) nowMs
    · exact h

theorem deliver {b : TcpReceiveBuffer} (hr : p.receive = some r)
    (hb : b = r ∨ b = r.setBlocked false) (hop : c.op.delivers) :
    Evolves c e₀ (e.deliver c.env i p b).1 ∧
      (e.deliver c.env i p b).1.pcbs[i]? = some (e.deliver c.env i p b).2.1 := by
  rw [TcpHandshakeEngine.deliver, h.config]
  exact ⟨h.update hp (.deliver hr hb hop), update_getElem hp _ _⟩

end

theorem answer {nowMs : ℕ} {result result' : TcpHandshakeResult}
    (ha : e.answer i nowMs result = some (e', result')) : Evolves c e₀ e' := by
  rw [TcpHandshakeEngine.answer] at ha
  split at ha
  case h_1 => cases ha
  case h_2 p hp =>
    cases ha
    exact h.buildAck hp (.refl p) nowMs

/-! ## Responses -/

theorem queueResponse (response : TcpResponse) : Evolves c e₀ (e.queueResponse response) := by
  rw [TcpHandshakeEngine.queueResponse]
  split
  case h_1 i p hfind =>
    obtain ⟨-, hfind⟩ := Option.ite_none_right_eq_some.1 hfind
    exact h.update (findSlot_eq_some hfind).1 (.quiet ..)
  case h_2 =>
    have hquiet {responses : List TcpResponse} {dropped : ℕ} : Evolves c e₀
        { e with pendingResponses := responses, droppedResponses := dropped } :=
      h.quiet (SameBooks.quiet ⟨⟨rfl, rfl, rfl, rfl, rfl⟩, rfl, rfl, rfl⟩ rfl)
    split
    · exact hquiet
    · split <;> exact hquiet

theorem queueAck {response : Option TcpResponse} :
    Evolves c e₀ (match (e, response) with
      | (e, some response) => e.queueResponse response
      | (e, none) => e) := by
  cases response with
  | some response => exact h.queueResponse response
  | none => exact h

theorem popPendingResponse : Evolves c e₀ e.popPendingResponse.1 := by
  rw [TcpHandshakeEngine.popPendingResponse]
  split
  case h_1 i p hfind => exact h.update (findSlot_eq_some hfind).1 (.quiet ..)
  case h_2 =>
    split
    · exact h
    · exact h.quiet (SameBooks.quiet ⟨⟨rfl, rfl, rfl, rfl, rfl⟩, rfl, rfl, rfl⟩ rfl)

end

/-! ## Segments of a connection -/

section Segment

variable {segment : TcpSegmentView} {nowMs : ℕ} {result result' : TcpHandshakeResult}
  {timestamp : Option UInt32} (h : Evolves c e₀ e) (hop : c.op = .onSegment segment nowMs)

include h hop

theorem handleFin (hp : e.pcbs[i]? = some p) (hn : p.NextFin r segment) (env : Env) :
    Evolves c e₀ (e.handleFin env i p r nowMs).1 := by
  have henter (hstate : p.state = .finWait2 ∨ p.state = .closing) := h.tail
    (.enterTimeWait (p.takeFin r) env hop hp (by rcases hstate with h | h <;> simp [h]) rfl rfl
      (Pcb.entry_takeFin hn.receive) (by rcases hstate with h | h <;> simp [h])
      fun d t => .finTimeWait d t hop hn hstate)
  have hfin (hstate : p.state ≠ .finWait2 ∧ p.state ≠ .closing) := h.update hp
    (.fin hop hn hstate)
  rw [TcpHandshakeEngine.handleFin]
  dsimp only
  split
  case h_1 hs | h_2 hs => exact hfin (by simp [hs])
  case h_3 hs | h_4 hs =>
    split
    · exact henter (by simp [hs])
    · exact (henter (by simp [hs])).removeAt i
  case h_5 h₁ h₂ h₃ h₄ => exact hfin ⟨h₃, h₄⟩

theorem processEmpty (hp : e.pcbs[i]? = some p) (hflow : p.incomingFlow = segment.flow)
    (hr : p.receive = some r) (hempty : segment.payload = []) {env : Env}
    (he : e.processEmpty env i p r segment timestamp nowMs result = some (e', result')) :
    Evolves c e₀ e' := by
  have hquiet : Evolves c e₀ (e.update i (p.takeEmpty r segment timestamp)) :=
    h.update hp (.quiet ..)
  rw [TcpHandshakeEngine.processEmpty] at he
  dsimp only at he
  split at he
  case isTrue =>
    cases he
    exact hquiet
  case isFalse hfin =>
    split at he
    case isFalse => exact hquiet.answer he
    case isTrue hseq =>
      have hn : (p.takeEmpty r segment timestamp).NextFin r segment :=
        { flow := hflow
          receive := hr
          hasFin := Bool.not_eq_false _ ▸ hfin
          next := by rw [hempty]; simpa using hseq
          empty := fun _ => hempty }
      have hdone := hquiet.handleFin hop (update_getElem hp _ _) hn env
      split at he
      · cases he
        exact hdone
      · exact hdone.answer he

theorem processPayloadFin
    (hslot : ∀ q, e.pcbs[i]? = some q → q.incomingFlow = segment.flow ∧ q.state.pastFin = false)
    {env : Env} {disposition : ReceiveDisposition}
    (he : e.processPayloadFin env i segment disposition nowMs result = some (e', result')) :
    Evolves c e₀ e' := by
  rw [processPayloadFin.eq_def] at he
  split at he
  case isTrue =>
    cases he
    exact h
  case isFalse hfin =>
    split at he
    case h_1 => cases he
    case h_2 p hp =>
      split at he
      case h_1 => cases he
      case h_2 r hr =>
        obtain ⟨hflow, hpast⟩ := hslot p hp
        split at he
        case isTrue hnext =>
          have hn : p.NextFin r segment :=
            { flow := hflow
              receive := hr
              hasFin := by simpa using hfin
              next := hnext.1
              empty := fun hp => absurd hp (by simp [hpast]) }
          have hdone := h.handleFin hop hp hn env
          dsimp only at he
          split at he
          · cases he
            exact hdone
          · exact hdone.answer he
        case isFalse =>
          split at he
          · exact h.answer he
          · cases he
            exact h

theorem processPayload (hp : e.pcbs[i]? = some p) (hflow : p.incomingFlow = segment.flow)
    (hr : p.receive = some r) (hpayload : segment.payload ≠ [])
    (he : e.processPayload c.env i p r segment timestamp nowMs result = some (e', result')) :
    Evolves c e₀ e' := by
  rw [TcpHandshakeEngine.processPayload] at he
  split at he
  case isTrue => exact h.answer he
  case isFalse hstate =>
    have hpast : p.state.pastFin = false := by cases hs : p.state <;> simp_all [TcpState.pastFin]
    rw [h.config] at he
    dsimp only at he
    split at he
    case isTrue =>
      cases he
      exact h
    case isFalse =>
      have htaken := h.update hp (.payload timestamp hop hflow hr hpast hpayload)
      refine (htaken.acknowledgePayload (update_getElem hp _ _) ..).processPayloadFin hop
        (fun q hq => ?_) he
      obtain ⟨hqflow, hqstate⟩ := acknowledgePayload_slot (update_getElem hp _ _) _ _ _ _ hq
      obtain ⟨_, _, _, _, _, -, heq⟩ := Pcb.takePayload_eq p r segment timestamp
        (c.env.trySend p.flowId) c.config.deliveryCallBudget
      rw [hqflow, hqstate, heq]
      exact ⟨hflow, hpast⟩

theorem processBody (hslot : ∀ q, e.pcbs[i]? = some q → q.incomingFlow = segment.flow)
    (he : e.processBody c.env i segment timestamp nowMs result = some (e', result')) :
    Evolves c e₀ e' := by
  rw [TcpHandshakeEngine.processBody] at he
  split at he
  case h_1 => cases he
  case h_2 p hp =>
    split at he
    case h_1 => cases he
    case h_2 r hr =>
      split at he
      case isTrue hempty => exact h.processEmpty hop hp (hslot p hp) hr hempty he
      case isFalse hpayload => exact h.processPayload hop hp (hslot p hp) hr hpayload he

section

variable (hp : e.pcbs[i]? = some p)

include hp

theorem processAccepted (ha : p.Accepts r segment)
    (he : e.processAccepted c.env i p segment timestamp nowMs = some (e', result')) :
    Evolves c e₀ e' := by
  have hslot : ∀ {p' : Pcb κ}, p'.incomingFlow = p.incomingFlow →
      ∀ q, (e.update i p' [.accepted segment.window]).pcbs[i]? = some q →
        q.incomingFlow = segment.flow := by
    intro p' hflow q hq
    rw [update_getElem hp] at hq
    rw [← Option.some.inj hq, hflow, ha.flow]
  -- the state is that before the segment
  have hkeep : ((p.onAck segment nowMs).finAcked = true →
        p.state ≠ .finWait1 ∧ p.state ≠ .closing ∧ p.state ≠ .lastAck) →
      (e.update i (p.onAck segment nowMs) [.accepted segment.window]).processBody c.env i segment
        timestamp nowMs {} = some (e', result') → Evolves c e₀ e' := fun hstate he =>
    (h.update hp (.accept hop ha hstate)).processBody hop (hslot rfl) he
  rw [TcpHandshakeEngine.processAccepted] at he
  dsimp only at he
  split at he
  case isTrue hfin =>
    split at he
    case h_1 hstate =>
      exact (h.update hp (.acceptFinWait2 hop ha hfin hstate)).processBody hop (hslot rfl) he
    case h_2 hstate =>
      have henter := h.tail (.enterTimeWait (p.onAck segment nowMs) c.env hop hp
        (fun hopen => nomatch hstate.symm.trans hopen) rfl rfl rfl
        (fun hwait => nomatch hstate.symm.trans hwait)
        fun d t => .acceptTimeWait d t hop ha hfin (.inl hstate))
      split at he
      case isTrue =>
        refine henter.processBody hop (fun q hq => ?_) he
        rcases scheduleTimeWait_slot (update_getElem hp (p.onAck segment nowMs) _)
          (fun hwait => nomatch hstate.symm.trans hwait) hq with rfl | ⟨d, t, rfl⟩
        · exact ha.flow
        · exact ha.flow
      case isFalse =>
        cases he
        exact henter.removeAt i
    case h_3 hstate =>
      cases he
      exact (h.tail (.close hop hp ha hfin hstate)).emitFlowEvent _ _
    case h_4 h₁ h₂ h₃ => exact hkeep (fun _ => ⟨h₁, h₂, h₃⟩) he
  case isFalse hfin => exact hkeep (fun h => absurd h hfin) he

theorem processTimeWait (hstate : p.state = .timeWait) {env : Env}
    (he : e.processTimeWait env i p segment nowMs = some (e', result')) : Evolves c e₀ e' := by
  rw [TcpHandshakeEngine.processTimeWait] at he
  refine answer ?_ he
  split
  · have hsame := cancelTimer_quiet e p.timewaitTimer
    exact (h.quiet hsame).tail (.enterTimeWait { p with timewaitTimer := 0 } env hop
      (hsame.toSameTable.getElem hp) (by simp [hstate]) rfl rfl rfl
      (fun _ hid _ ht => (mem_entries_cancelTimer ht).2 hid) fun d t => .restartTimeWait d t hstate)
  · exact h

section

variable (hflow : p.incomingFlow = segment.flow)

include hflow

theorem processEstablished
    (he : e.processEstablished c.env i p segment nowMs = some (e', result')) : Evolves c e₀ e' := by
  have hsame {result : TcpHandshakeResult} (heq : some (e, result) = some (e', result')) :
      Evolves c e₀ e' := by
    cases heq
    exact h
  rw [processEstablished.eq_def] at he
  split at he
  case isTrue hstate => exact h.processTimeWait hop hp hstate he
  case isFalse hstate =>
    split at he
    case h_1 => exact hsame he
    case h_2 r hr =>
      split at he
      · exact h.answer he
      · split at he
        · exact hsame he
        · split at he
          · exact h.answer he
          · split at he
            · exact hsame he
            · exact h.answer he
            · by_cases hacc : r.isSequenceAcceptable segment.sequence (segment.payload.length +
                  (if segment.hasFlag TcpFlag.fin then 1 else 0)) = false
              · rw [if_pos hacc] at he
                exact h.answer he
              · rw [if_neg hacc] at he
                rw [Bool.not_eq_false] at hacc
                exact h.processAccepted hop hp ⟨hflow, hr, hstate, hacc⟩ he

/-! ## The handshake -/

theorem openSession (hr : p.receive = some r) (hstate : p.state = .established)
    (hready : r.readyBytes = 0)
    (he : e.openSession c.env i p r segment nowMs = some (e', result')) : Evolves c e₀ e' := by
  -- the rest of the segment
  have hproceed : ∀ {e₁ : TcpHandshakeEngine κ} {p₁ : Pcb κ}, Evolves c e₀ e₁ →
      e₁.pcbs[i]? = some p₁ → p₁.incomingFlow = segment.flow →
      (if segment.payload ≠ [] ∨ segment.hasFlag TcpFlag.fin then
        (e₁.processEstablished c.env i p₁ segment nowMs).map fun r =>
          (r.1, { r.2 with stateChanged := true })
      else some (e₁, { stateChanged := true })) = some (e', result') → Evolves c e₀ e' := by
    intro e₁ p₁ h₁ hp₁ hflow₁ he
    split at he
    · obtain ⟨⟨_, _⟩, hdone, heq⟩ := Option.map_eq_some_iff.1 he
      cases heq
      exact h₁.processEstablished hop hp₁ hflow₁ hdone
    · cases he
      exact h₁
  rw [TcpHandshakeEngine.openSession, h.config] at he
  split at he
  · split at he
    case h_1 session _ =>
      refine hproceed (h.update hp (.attach session hr hstate (by rwa [hop])))
        (update_getElem hp _ _) ?_ he
      obtain ⟨_, _, _, -, heq⟩ := Pcb.drainSession_eq (p.bindSession session) (r.setBlocked false)
        (c.env.trySend p.flowId) c.config.deliveryCallBudget
      rw [heq]
      exact hflow
    case h_2 =>
      cases he
      exact h.removeAt i
  · exact hproceed h hp hflow he

theorem completeHandshake (hstate : p.state = .synReceived)
    (hack : segment.hasFlag TcpFlag.ack ∧ segment.acknowledgment = p.sndNxt)
    (he : e.completeHandshake c.env i p segment nowMs = some (e', result')) : Evolves c e₀ e' := by
  rw [TcpHandshakeEngine.completeHandshake] at he
  split at he
  case h_1 =>
    cases he
    exact h
  case h_2 options hoptions =>
    dsimp only at he
    split at he
    case isTrue =>
      cases he
      exact h.removeAt i
    case isFalse hmemory =>
      split at he
      case h_1 =>
        cases he
        exact h.removeAt i
      case h_2 r hnew =>
        obtain ⟨-, hnew⟩ := Option.ite_none_left_eq_some.1 hnew
        have hsame := acquire_sameTable e p r
        rw [hsame.config, hsame.makeController, h.config, h.makeController] at he
        split at he
        case isTrue hfails =>
          cases he
          exact h.tail (.sendFails options segment.acknowledgment _ hfails hp hstate)
        case isFalse =>
          have hbudget : e.receiveMemoryBytes + r.memoryBytes ≤ e.config.receiveMemoryBudget := by
            rw [TcpReceiveBuffer.memoryBytes_new hnew]
            omega
          exact (h.tail (.establish hop hp hflow hstate hack hoptions hnew hbudget)).openSession
            hop (update_getElem (hsame.getElem hp) _ [.accepted segment.window]) hflow rfl rfl
            (TcpReceiveBuffer.readyBytes_new hnew) he

theorem onSynReceived (hstate : p.state = .synReceived)
    (he : e.onSynReceived c.env i p segment nowMs = some (e', result')) : Evolves c e₀ e' := by
  have hsame {result : TcpHandshakeResult} (heq : some (e, result) = some (e', result')) :
      Evolves c e₀ e' := by
    cases heq
    exact h
  rw [TcpHandshakeEngine.onSynReceived] at he
  split at he
  · split at he
    · cases he
      exact (h.removeAt i).emitFlowEvent _ _
    · exact hsame he
  · split at he
    · split at he
      · cases he
        refine h.buildSynAck hp ?_ ?_ nowMs
        · split
          · split
            · exact .quiet ..
            · exact .refl p
          · exact .refl p
        · split
          · split <;> exact hstate
          · exact hstate
      · exact hsame he
    · split at he
      · cases he
        exact h.buildSynAck hp (.refl p) hstate nowMs
      · split at he
        case isTrue hack =>
          split at he
          case isTrue hseq => exact h.completeHandshake hop hp hflow hstate ⟨hack, hseq⟩ he
          case isFalse => exact hsame he
        case isFalse => exact hsame he

end

end

theorem onListen (hopen : e.isShutdown = false) (hnext : e.nextFlowId = c.nextFlowId)
    (hfree : e.findIndex segment.flow = none) (env : Env) :
    Evolves c e₀ (e.onListen env segment nowMs).1 := by
  rw [onListen.eq_def]
  split_ifs with _ _ _ hfin _ _ hroom <;> try exact h
  rw [Bool.not_eq_true] at hfin
  split
  case h_1 => exact h
  case h_2 offered hoffered =>
    have hflow : ∀ q ∈ e.pcbs, q.incomingFlow ≠ segment.flow := fun q hq =>
      of_decide_eq_false (findSlot_eq_none hfree q hq)
    have hadded := h.tail (.opens (e.isn (reverseFlow segment.flow) nowMs) e.generationEpoch hop
      hopen hfin hoffered hflow hnext (Nat.lt_of_not_le hroom))
    rw [← h.config, ← hnext] at hadded
    dsimp only
    have hstate : (Pcb.ofSyn e.config segment offered (e.isn (reverseFlow segment.flow) nowMs)
      e.nextFlowId e.generationEpoch : Pcb κ).state = .synReceived := rfl
    generalize (Pcb.ofSyn e.config segment offered (e.isn (reverseFlow segment.flow) nowMs)
      e.nextFlowId e.generationEpoch : Pcb κ) = p at hadded hstate
    have hslot := addPcb_slot e p segment.window
    have hretry := hadded.scheduleRetry hslot (.refl p) env
    split
    case h_1 e₁ hscheduled =>
      rw [show e₁ = _ from congrArg Prod.fst hscheduled.symm]
      exact (hretry _).removeAt _
    case h_2 e₁ hscheduled =>
      rw [show e₁ = _ from congrArg Prod.fst hscheduled.symm]
      split
      case h_1 => exact hretry _
      case h_2 q hq =>
        obtain ⟨_, htimer⟩ := scheduleRetry_slot hslot env _
        obtain rfl := Option.some.inj (hq.symm.trans htimer)
        exact (hretry _).buildSynAck hq (.refl _) hstate nowMs

theorem onSegment (hnext : e.nextFlowId = c.nextFlowId)
    (he : e.onSegment c.env segment nowMs = some (e', result')) : Evolves c e₀ e' := by
  rw [TcpHandshakeEngine.onSegment] at he
  split at he
  case isTrue =>
    cases he
    exact h
  case isFalse hopen =>
    split at he
    case h_1 hfree =>
      have hlisten := h.onListen hop (Bool.not_eq_true _ ▸ hopen) hnext hfree c.env
      rwa [Option.some.inj he] at hlisten
    case h_2 i p hfind =>
      obtain ⟨hp, hflow⟩ := findSlot_eq_some hfind
      split at he
      case isTrue hstate => exact h.onSynReceived hop hp (of_decide_eq_true hflow) hstate he
      case isFalse =>
        split at he
        · split at he
          · cases he
            exact (h.removeAt i).emitFlowEvent _ _
          · exact h.answer he
        · exact h.processEstablished hop hp (of_decide_eq_true hflow) he

end Segment

section

variable (h : Evolves c e₀ e) (id : FlowId) (generation : ℕ)

include h

/-! ## Timers that fire -/

theorem onRetry (env : Env) (flow : FlowKey) (generation : ℕ) :
    Evolves c e₀ (e.onRetry env flow generation) := by
  rw [TcpHandshakeEngine.onRetry]
  split
  case h_1 => exact h
  case h_2 i p hfind =>
    obtain ⟨hp, -⟩ := findSlot_eq_some hfind
    split
    case isTrue => exact h
    case isFalse hstate =>
      rw [not_or, not_not, not_not] at hstate
      split
      · exact h.removeAt i
      · let now := e.timers.cursorMs
        have hqueued := (h.buildSynAck hp (.refl p) hstate.2 now).queueResponse
          (p.buildSynAck now).2
        have hflags : (p.buildSynAck now).2.flags ≠ TcpFlag.ack := fun hack =>
          p.buildSynAck_syn now (by rw [hack]; decide)
        have hsame := queueResponse_sameBooks (e.buildSynAck i p now).1 hflags
        have hslot : ((e.buildSynAck i p now).1.queueResponse (p.buildSynAck now).2).pcbs[i]? =
          some (p.buildSynAck now).1 := hsame.toSameTable.getElem (update_getElem hp _ _)
        have hcount : Pcb.Turn c (p.buildSynAck now).1 []
          { (p.buildSynAck now).1 with retryIndex := p.retryIndex + 1 } := .quiet ..
        have hretry := hqueued.scheduleRetry hslot hcount env
        dsimp only
        split
        case h_1 e₁ hscheduled =>
          rw [show e₁ = _ from congrArg Prod.fst hscheduled.symm]
          exact hretry _
        case h_2 e₁ hscheduled =>
          rw [show e₁ = _ from congrArg Prod.fst hscheduled.symm]
          exact (hretry _).removeAt i

theorem onDelayedAck (flow : FlowKey) (generation : ℕ) :
    Evolves c e₀ (e.onDelayedAck flow generation) := by
  rw [TcpHandshakeEngine.onDelayedAck]
  split
  case h_1 => exact h
  case h_2 i p hfind =>
    split
    · exact h
    · exact (h.buildAck (findSlot_eq_some hfind).1 (.quiet ..) e.timers.cursorMs).queueAck

theorem onTimeWaitExpired (flow : FlowKey) (generation : ℕ) :
    Evolves c e₀ (e.onTimeWaitExpired flow generation) := by
  rw [TcpHandshakeEngine.onTimeWaitExpired]
  split
  · exact h
  · split
    · exact h
    · exact (h.removeAt _).emitFlowEvent _ _

theorem fire (env : Env) (action : TimerAction) : Evolves c e₀ (e.fire env action) := by
  rw [fire.eq_def]
  split
  · exact h
  · cases action with
    | retry flow generation => exact h.onRetry env flow generation
    | delayedAck flow generation => exact h.onDelayedAck flow generation
    | timeWait flow generation => exact h.onTimeWaitExpired flow generation

theorem advanceTimers (env : Env) (nowMs : ℕ) : Evolves c e₀ (e.advanceTimers env nowMs) := by
  -- by induction on the timers that are due
  have hfold : ∀ (due : List (TimerEntry TimerAction)) {e : TcpHandshakeEngine κ}, Evolves c e₀ e →
      Evolves c e₀ (due.foldl (fun e entry => e.fire env entry.callback) e) := by
    intro due
    induction due with
    | nil => exact id
    | cons entry _ ih => exact fun h => ih (h.fire env entry.callback)
  refine hfold _ (h.quiet ⟨⟨⟨rfl, rfl, rfl, rfl, rfl⟩, rfl, rfl, rfl⟩, fun hready => ?_⟩)
  exact ⟨hready.advanceTo nowMs, fun _ ht _ => TimerWheel.mem_entries_of_advanceTo ht⟩

/-! ## Sessions -/

theorem attachSession {flow : FlowKey} {session : SessionId} {nowMs : ℕ}
    (hop : c.op = .attachSession flow session nowMs) :
    Evolves c e₀ (e.attachSession c.env flow session nowMs).1 := by
  rw [TcpHandshakeEngine.attachSession]
  split
  case h_1 => exact h
  case h_2 i p hfind =>
    obtain ⟨hp, -⟩ := findSlot_eq_some hfind
    split
    case h_1 => exact h
    case h_2 r hr =>
      split
      case isTrue => exact h
      case isFalse hstate =>
        rw [not_or, not_not] at hstate
        rw [TcpHandshakeEngine.deliver, h.config]
        have hattached := h.update hp (.attach session hr hstate.1 (by rw [hop]; trivial))
        exact hattached.buildAck (update_getElem hp _ _) (.refl _) nowMs

theorem onSessionWritable (hop : c.op.delivers) (id : FlowId) (generation nowMs : ℕ) :
    Evolves c e₀ (e.onSessionWritable c.env id generation nowMs).1 := by
  rw [TcpHandshakeEngine.onSessionWritable]
  split
  case h_1 => exact h
  case h_2 i p hfind =>
    obtain ⟨hp, -⟩ := findSlot_eq_some hfind
    split
    case h_1 => exact h
    case h_2 r hr =>
      obtain ⟨hdelivered, hslot⟩ := h.deliver hp hr (.inr rfl) hop
      exact hdelivered.buildAck hslot (.refl _) nowMs

omit h in
theorem pumpDeliveriesFrom (hop : c.op.delivers) (nowMs pcbBudget fuel : ℕ) :
    ∀ {i visited : ℕ} {e : TcpHandshakeEngine κ}, Evolves c e₀ e →
      Evolves c e₀ (pumpDeliveriesFrom c.env nowMs pcbBudget fuel i visited e) := by
  induction fuel with
  | zero => exact fun h => h
  | succ _ ih =>
    intro i visited e h
    rw [TcpHandshakeEngine.pumpDeliveriesFrom]
    split
    case h_1 => exact h
    case h_2 p hp =>
      split
      · exact h
      · split
        case h_1 => exact ih h
        case h_2 r hr =>
          split
          · exact ih h
          · obtain ⟨hdelivered, hslot⟩ := h.deliver hp hr (.inl rfl) hop
            generalize e.deliver c.env i p r = d at hdelivered hslot
            refine ih ?_
            split
            · exact (hdelivered.buildAck hslot (.refl _) nowMs).queueAck
            · exact hdelivered

/-! ## Closing -/

theorem closeFlow : Evolves c e₀ (e.closeFlow id generation) := by
  rw [TcpHandshakeEngine.closeFlow]
  split
  case h_1 => exact h
  case h_2 hfind => exact h.update (findSlot_eq_some hfind).1 .requestClose

theorem abortFlow : Evolves c e₀ (e.abortFlow id generation) := by
  rw [TcpHandshakeEngine.abortFlow]
  split
  · exact h
  · exact ((h.queueResponse _).removeAt _).emitFlowEvent _ _

theorem onSessionClosed (error : SessionError) :
    Evolves c e₀ (e.onSessionClosed id generation error) := by
  rw [TcpHandshakeEngine.onSessionClosed]
  split
  case h_1 => exact h
  case h_2 i p hfind =>
    have hlost := h.update (findSlot_eq_some hfind).1 .loseSession
    split
    case h_6 =>
      split
      · exact hlost.closeFlow id generation
      · exact hlost.abortFlow id generation
    all_goals exact hlost

theorem removeAll (n : ℕ) : Evolves c e₀ (removeAll n e) := by
  induction n generalizing e with
  | zero => exact h
  | succ _ ih => exact ih (h.removeAt _)

theorem shutdown (hop : c.op = .shutdown) : Evolves c e₀ e.shutdown := by
  rw [TcpHandshakeEngine.shutdown]
  split
  · exact h
  · exact ((h.tail (.shutDown _ hop)).removeAll e.pcbs.length).quiet
      (SameBooks.quiet ⟨⟨rfl, rfl, rfl, rfl, rfl⟩, rfl, rfl, rfl⟩ rfl)

/-! ## Sending -/

theorem enqueueSendData (data : Bytes) : Evolves c e₀ (e.enqueueSendData id data).1 := by
  rw [TcpHandshakeEngine.enqueueSendData]
  split
  case h_1 => exact h
  case h_2 i p hfind =>
    obtain ⟨hp, hopen⟩ := findSlot_eq_some hfind
    split
    case h_1 => exact h
    case h_2 send hs => exact h.update hp (.enqueue data hs (by simp_all))

theorem enqueueRemoteData (data : Bytes) :
    Evolves c e₀ (e.enqueueRemoteData id generation data).1 := by
  rw [TcpHandshakeEngine.enqueueRemoteData]
  split
  case h_1 => exact h
  case h_2 i p hfind =>
    split
    case h_1 => exact h
    case h_2 send hs =>
      split
      · exact h
      case isFalse hopen =>
        exact h.update (findSlot_eq_some hfind).1
          (.enqueue data hs (by rwa [not_and_or, not_not, not_not] at hopen))

variable {nowMs pcbBudget maxSegments : ℕ}
  (hop : c.op = .pumpSendPaths nowMs pcbBudget maxSegments)

include hop

theorem pumpOne (hp : e.pcbs[i]? = some p) (hserved : p ∈ c.pcbs) {send : TcpSendBuffer κ}
    (hs : p.send = some send) (hstate : p.state ≠ .synReceived ∧ p.state ≠ .timeWait) (env : Env) :
    Evolves c e₀ (e.pumpOne env i p send nowMs).1 := by
  rw [TcpHandshakeEngine.pumpOne]
  dsimp only
  split
  case isTrue hnone => exact h.update hp (.ask nowMs hserved hs hstate rfl (.inl ⟨hnone, rfl⟩))
  case isFalse hsegment =>
    rw [Bool.not_eq_false] at hsegment
    split
    · exact h.update hp (.ask nowMs hserved hs hstate rfl (.inr rfl))
    · exact h.update hp (.transmit hop hserved hs hstate rfl hsegment)

/-- The pump goes its way; what it has not reached yet is as it was before the call. -/
theorem walk {env : Env} {visited built : ℕ} {l : List (Pcb κ)}
    (hw : Walks env nowMs pcbBudget maxSegments visited built l e e') (hl : l ⊆ c.pcbs) :
    Evolves c e₀ e' := by
  induction hw with
  | done | stop => exact h
  | skip _ _ _ ih => exact ih h (List.subset_of_cons_subset hl)
  | reap _ _ _ _ ih =>
    exact ih ((h.removeAt _).emitFlowEvent _ _)
      (List.Subset.trans (perm_lastFirst _).subset (List.subset_of_cons_subset hl))
  | serve hp hs hstate _ _ _ ih =>
    exact ih (h.pumpOne hop hp (hl List.mem_cons_self) hs hstate env)
      (List.subset_of_cons_subset hl)

end

/-! ## Operations -/

/-- An operation makes changes of the table one after another. -/
theorem apply (h : Evolves c e₀ e) (hpcbs : e.pcbs = c.pcbs) (hnext : e.nextFlowId = c.nextFlowId)
    (he : c.op.apply c.env e = some e') : Evolves c e₀ e' := by
  rcases hop : c.op with ⟨segment, nowMs⟩ | _ | _ | _ | _ | _ | _ | _ | _ | _ | _ | _ | _ | _ | _
  all_goals rw [hop, EngineOp.apply] at he
  case onSegment =>
    obtain ⟨⟨_, _⟩, hdone, rfl⟩ := Option.map_eq_some_iff.1 he
    exact h.onSegment hop hnext hdone
  all_goals cases he
  case attachSession => exact h.attachSession hop
  case onSessionWritable => exact h.onSessionWritable (by rw [hop]; rfl) ..
  case onSessionClosed => exact h.onSessionClosed ..
  case pumpSessionDeliveries => exact h.pumpDeliveriesFrom (by rw [hop]; rfl) ..
  case enqueueSendData => exact h.enqueueSendData ..
  case enqueueRemoteData => exact h.enqueueRemoteData ..
  case pumpSendPaths => exact h.walk hop (pumpSendPaths_walks ..) (hpcbs ▸ List.Subset.refl _)
  case closeFlow => exact h.closeFlow ..
  case abortFlow => exact h.abortFlow ..
  case onPathMtuLowered => exact h.tail (.lowerMtu hop)
  case advanceTimers => exact h.advanceTimers ..
  case deferResponse => exact h.queueResponse ..
  case popPendingResponse => exact h.popPendingResponse
  case shutdown => exact h.shutdown hop

end Evolves

end TcpHandshakeEngine

end Netstack2
