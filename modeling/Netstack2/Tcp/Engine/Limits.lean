import Netstack2.Tcp.Engine.Close
import Netstack2.Tcp.Engine.Pump
import Netstack2.Tcp.Send.Size

/-!
# Send queues within their limits

What a step does to the send buffer of a connection (`Pcb.SendStep`): it is opened,
drained, filled, asked to close, or gets another segment size. So its queue keeps the
limit of the configuration, and until this end closes, no FIN is requested
(`Pcb.Within`).

Data from a session is refused where it does not fit the queue. The session is to offer
it again, which helps only if the queue is full for a time. This is so unless the send
buffer has closed itself (`remote_data_refused_when_full`): then nothing is ever taken
again, while the connection counts as open (`remote_data_refused_forever`).
-/

namespace Netstack2

open TcpSendBuffer

variable {κ : Type} [CongestionController κ]

namespace Pcb

/-! ## The send buffer of a connection -/

/-- How a step from `p` to `p'` comes by the send buffer `send'`. -/
inductive SendStep (c : EngineCall κ) (p p' : Pcb κ) (send' : TcpSendBuffer κ) : Prop
  /-- The handshake is complete. -/
  | opens (hstate : p.state = .synReceived)
      (h : send' = .new p.sndNxt (c.config.sendConfig p.options.peerMss) c.makeController)
  /-- Nothing is added to it. -/
  | settles {send : TcpSendBuffer κ} (hs : p.send = some send)
      (hstate : p'.state.beforeClose = p.state.beforeClose) (h : Settles send' send)
  | enqueues {send : TcpSendBuffer κ} (hs : p.send = some send)
      (hstate : p'.state.beforeClose = p.state.beforeClose) (data : Bytes)
      (h : send' = (send.enqueue data).1)
  | closes {send : TcpSendBuffer κ} (hs : p.send = some send)
      (hstate : p'.state.beforeClose = false) (h : send' = send.requestFin.1)
  | resizes {send : TcpSendBuffer κ} (hs : p.send = some send)
      (hstate : p'.state.beforeClose = p.state.beforeClose) {pmtu : ℕ} (mss : UInt16)
      (hop : c.op = .onPathMtuLowered p.incomingFlow.source pmtu) (h : send' = send.updateMss mss)

variable {c : EngineCall κ} {p p' : Pcb κ} {hist seen : List Observed} {send' : TcpSendBuffer κ}

theorem ackSend_settles (p : Pcb κ) (send : TcpSendBuffer κ) (segment : TcpSegmentView)
    (nowMs : ℕ) : Settles (p.ackSend send segment nowMs) send := by
  rw [ackSend]
  dsimp only
  split
  · split
    · exact (onSack_settles ..).trans (onAck_settles ..)
    · exact onAck_settles ..
  · exact onAck_settles ..

theorem SendStep.of_onAck {segment : TcpSegmentView} {nowMs : ℕ}
    (hsend : (p.onAck segment nowMs).send = some send')
    (hstate : p'.state.beforeClose = p.state.beforeClose) : SendStep c p p' send' := by
  obtain ⟨_, hs, rfl⟩ := Option.map_eq_some_iff.1 hsend
  exact .settles hs hstate (ackSend_settles ..)

/-- The buffer stays as it is. -/
theorem SendStep.same (hsend : p'.send = p.send) (h : p'.send = some send')
    (hstate : p'.state.beforeClose = p.state.beforeClose) : SendStep c p p' send' :=
  .settles (hsend ▸ h) hstate .refl

theorem Step.sendStep (hs : Step c p seen p')
    (hprobes : ∀ send, p.send = some send → ProbesByte send) (hsend : p'.send = some send') :
    SendStep c p p' send' := by
  cases hs with
  | quiet | synAck | ack | loseSession => exact .same rfl hsend rfl
  | establish _ _ hstate =>
    cases hsend
    exact .opens hstate rfl
  | attach | deliver | payload =>
    exact .same (OnlyReceives.send (by simp)) hsend (congrArg _ (OnlyReceives.state (by simp)))
  | accept => exact .of_onAck hsend rfl
  | acceptFinWait2 _ _ _ hstate => exact .of_onAck hsend (by rw [hstate]; rfl)
  | acceptTimeWait _ _ _ _ _ hstate =>
    exact .of_onAck hsend (by rcases hstate with hstate | hstate <;> rw [hstate] <;> rfl)
  | fin => exact .same rfl hsend (stateAfterFin_close p.state).1
  | finTimeWait _ _ _ _ hstate =>
    exact .same rfl hsend (by rcases hstate with hstate | hstate <;> rw [hstate] <;> rfl)
  | restartTimeWait _ _ hstate => exact .same rfl hsend (by rw [hstate]; rfl)
  | enqueue data hs => exact .enqueues hs rfl data (Option.some.inj hsend).symm
  | updateMss mss hop =>
    obtain ⟨_, hs, rfl⟩ := Option.map_eq_some_iff.1 hsend
    exact .resizes hs rfl mss hop rfl
  | requestClose =>
    rw [Pcb.requestClose] at hsend ⊢
    split at hsend
    case h_1 | h_2 =>
      obtain ⟨_, hs, rfl⟩ := Option.map_eq_some_iff.1 hsend
      exact .closes hs rfl rfl
    case h_3 => exact .same rfl hsend rfl
  | ask _ _ hs _ hnext hasked =>
    have hnext := nextSegment_settles (hprobes _ hs) hnext
    cases hsend
    rcases hasked with ⟨-, rfl⟩ | rfl
    · exact .settles hs rfl hnext
    · exact .settles hs rfl ((resetPending_settles _).trans hnext)
  | transmit _ _ hs _ hnext =>
    have hnext := nextSegment_settles (hprobes _ hs) hnext
    cases hsend
    exact .settles hs rfl ((onSent_settles ..).trans hnext)

/-- The queue of a send buffer keeps its limit, and until this end closes, no FIN is requested. -/
structure Within (config : TcpHandshakeConfig) (beforeClose : Bool) (send : TcpSendBuffer κ) :
    Prop where
  probes : ProbesByte send
  limit : send.sendQueueLimit = config.sendQueueLimit
  queue : send.sendQueue.length ≤ send.sendQueueLimit
  requested : beforeClose = true → send.finRequested = false

theorem Within.step (hs : SendStep c p p' send')
    (h : ∀ send, p.send = some send → Within c.config p.state.beforeClose send) :
    Within c.config p'.state.beforeClose send' := by
  cases hs with
  | opens _ heq =>
    subst heq
    exact ⟨⟨by rintro _ ⟨⟩, by rintro ⟨⟩⟩, rfl, Nat.zero_le _, fun _ => rfl⟩
  | settles hs hstate hsettles =>
    obtain ⟨hprobes, hlimit, hqueue, hrequested⟩ := h _ hs
    refine ⟨hsettles.probes hprobes, hsettles.drains.limit.trans hlimit, ?_, fun hbefore => ?_⟩
    · rw [hsettles.drains.limit]
      exact Nat.le_trans hsettles.drains.queue hqueue
    · exact hsettles.drains.requested.trans (hrequested (hstate ▸ hbefore))
  | @enqueues _ hs hstate data heq =>
    obtain ⟨hprobes, hlimit, hqueue, hrequested⟩ := h _ hs
    have hroom := (enqueue_room hqueue data).1
    subst heq
    rw [hstate]
    rw [TcpSendBuffer.enqueue] at hroom ⊢
    split at hroom
    case isTrue hnone =>
      rw [if_pos hnone]
      exact ⟨hprobes, hlimit, hqueue, hrequested⟩
    case isFalse hsome =>
      rw [if_neg hsome]
      exact ⟨⟨hprobes.probe, hprobes.pending⟩, hlimit, hroom, hrequested⟩
  | closes hs hstate heq =>
    obtain ⟨hprobes, hlimit, hqueue, -⟩ := h _ hs
    subst heq
    rw [hstate, TcpSendBuffer.requestFin]
    split
    · exact ⟨hprobes, hlimit, hqueue, by simp⟩
    · exact ⟨⟨hprobes.probe, hprobes.pending⟩, hlimit, hqueue, by simp⟩
  | resizes hs hstate _ _ heq =>
    obtain ⟨hprobes, hlimit, hqueue, hrequested⟩ := h _ hs
    subst heq
    rw [hstate, TcpSendBuffer.updateMss]
    split
    · exact ⟨hprobes, hlimit, hqueue, hrequested⟩
    · exact ⟨⟨hprobes.probe, hprobes.pending⟩, hlimit, hqueue, hrequested⟩

theorem kept_within (c : EngineCall κ) : Kept c fun p _ =>
    (∀ send, p.send = some send → Within c.config p.state.beforeClose send) ∧ True where
  step hs h := ⟨fun _ hsend =>
    Within.step (hs.sendStep (fun send hs => (h.1 send hs).probes) hsend) h.1, trivial⟩
  opens _ _ _ _ _ := ⟨fun _ hsend => by simp [ofSyn] at hsend, trivial⟩

end Pcb

namespace TcpHandshakeEngine

theorem Reachable.within {A : EngineCall κ → Pcb κ → Prop} {e : TcpHandshakeEngine κ} {p : Pcb κ}
    {send : TcpSendBuffer κ} (h : e.Reachable A) (hp : p ∈ e.pcbs) (hs : p.send = some send) :
    Pcb.Within e.config p.state.beforeClose send :=
  (h.knows (I := fun config p _ => ∀ send, p.send = some send →
    Pcb.Within config p.state.beforeClose send) (K := fun _ _ => True) (fun _ _ _ _ => trivial)
    Pcb.kept_within).each p hp send hs

end TcpHandshakeEngine

section

variable {e : TcpHandshakeEngine κ}

/-- Data from a session is refused only if the queue of its open connection is full
    then, unless the send buffer of the connection has closed itself. -/
theorem remote_data_refused_when_full (h : e.Reachable fun _ _ => True) (id : FlowId)
    (generation : ℕ) {data : Bytes} (hdata : data ≠ []) :
    (∀ e' rest, e.enqueueRemoteData id generation data = (e', some rest) →
      ∃ i p send, e'.findFlow id generation = some (i, p) ∧ p.send = some send ∧
        send.closed = false ∧ send.sendQueue.length = e.config.sendQueueLimit) ↔
    ∀ i p send, e.findFlow id generation = some (i, p) →
      p.state = .established ∨ p.state = .closeWait → p.send = some send →
      send.closed = false := by
  constructor
  · intro hrefused i p send hfind hstate hs
    by_contra hclosed
    rw [Bool.not_eq_false] at hclosed
    -- a closed buffer takes nothing
    have hnothing : send.enqueue data = (send, 0) := by
      rw [enqueue, if_pos]
      rw [accepted, if_pos (.inr (.inr (.inl hclosed)))]
    have hset : (e.update i { p with send := some send }).findFlow id generation =
        some (i, { p with send := some send }) :=
      findSlot_set hfind (findSlot_eq_some hfind).2
    have hnot : ¬(p.state ≠ .established ∧ p.state ≠ .closeWait) := by
      rwa [not_and_or, not_not, not_not]
    obtain ⟨_, _, _, hfind', hs', hclosed', -⟩ := hrefused _ _ (by
      rw [TcpHandshakeEngine.enqueueRemoteData, hfind]
      dsimp only
      rw [hs]
      dsimp only
      rw [if_neg hnot, hnothing]
      rw [if_neg fun hlen => hdata (List.length_eq_zero_iff.1 hlen.symm)])
    rw [hset] at hfind'
    obtain ⟨-, rfl⟩ := Prod.mk.inj (Option.some.inj hfind')
    cases hs'
    simp [hclosed] at hclosed'
  · intro hopen e' rest hrefused
    rw [TcpHandshakeEngine.enqueueRemoteData] at hrefused
    split at hrefused
    case h_1 => cases (Prod.mk.inj hrefused).2
    case h_2 i p hfind =>
      split at hrefused
      case h_1 => cases (Prod.mk.inj hrefused).2
      case h_2 send hs =>
        split at hrefused
        case isTrue => cases (Prod.mk.inj hrefused).2
        case isFalse hnot =>
          have hstate : p.state = .established ∨ p.state = .closeWait := by
            rwa [not_and_or, not_not, not_not] at hnot
          have hclosed := hopen i p send hfind hstate hs
          have hslot := findSlot_eq_some hfind
          obtain ⟨-, hlimit, hqueue, hrequested⟩ := h.within (List.mem_of_getElem? hslot.1) hs
          have hfin := hrequested (by rcases hstate with hstate | hstate <;> rw [hstate] <;> rfl)
          dsimp only at hrefused
          obtain ⟨rfl, hrest⟩ := Prod.mk.inj hrefused
          have hpart : (send.enqueue data).2 ≠ data.length := by
            intro hall
            simp [if_pos hall] at hrest
          refine ⟨i, _, _, findSlot_set hfind hslot.2, rfl, ?_, ?_⟩
          · rw [enqueue]
            split <;> exact hclosed
          · rw [(enqueue_room hqueue data).2 hclosed hfin hpart, hlimit]

end

/-- A queue of one byte, and data of two. -/
theorem remote_data_refused_when_full_one :
    ∃ (e : TcpHandshakeEngine AimdController) (e' : TcpHandshakeEngine AimdController),
      e.Reachable (fun _ _ => True) ∧ e.enqueueRemoteData 1 1 [7, 8] = (e', some [8]) ∧
      ∃ i p send, e'.findFlow 1 1 = some (i, p) ∧ p.send = some send ∧
        send.closed = false ∧ send.sendQueue.length = e.config.sendQueueLimit := by
  obtain ⟨e, hreach, p, -, hfind, hopen, hrest⟩ := exists_reached (P := fun e p => e.findFlow 1 1 = some (0, p) ∧ (∀ send ∈ p.send, send.closed = false) ∧
      (e.enqueueRemoteData 1 1 [7, 8]).2 = some [8])
    { receiveWindow := 16, sendQueueLimit := 1 } (peerOpens 1)
    (by decide +kernel)
  have heq : e.enqueueRemoteData 1 1 [7, 8] = ((e.enqueueRemoteData 1 1 [7, 8]).1, some [8]) :=
    Prod.ext rfl hrest
  refine ⟨e, _, hreach, heq, (remote_data_refused_when_full hreach 1 1 (by simp)).2 ?_ _ _ heq⟩
  intro i q send hq _ hs
  rw [hfind] at hq
  cases hq
  exact hopen send hs

/-- The peer does not answer, and the send buffer closes itself; the connection is
    established still. Its data is refused, and the queue is empty. -/
theorem remote_data_refused_forever :
    ∃ e : TcpHandshakeEngine AimdController, e.Reachable (fun _ _ => True) ∧
      ∃ e' i p send, e.enqueueRemoteData 1 1 [8] = (e', some [8]) ∧
        e'.findFlow 1 1 = some (i, p) ∧ p.state = .established ∧ p.send = some send ∧
        send.closed = true ∧ send.sendQueue = [] := by
  obtain ⟨e, hreach, p, -, hrest, hfind, hstate, send, hs, hclosed⟩ :=
    exists_reached (P := fun e p => (e.enqueueRemoteData 1 1 [8]).2 = some [8] ∧
      (e.enqueueRemoteData 1 1 [8]).1.findFlow 1 1 = some (0, p) ∧ p.state = .established ∧
      ∃ send ∈ p.send, send.closed = true ∧ send.sendQueue = [])
    { receiveWindow := 16, maxRetransmissions := 1 } (peerOpens 1 ++ [(({} : Env), .enqueueSendData 1 [7]), ({}, .pumpSendPaths 0 8 8),
      ({}, .pumpSendPaths 5000 8 8)]) (by decide +kernel)
  exact ⟨e, hreach, _, 0, p, send, Prod.ext rfl hrest, hfind, hstate, hs, hclosed⟩

end Netstack2
