import Netstack2.Tcp.Engine.Fin
import Netstack2.Tcp.Send.Fin

/-!
# Closing a connection

Both ends send a FIN, and each acknowledges the other's. The states say how far this
is: past the peer's FIN (`TcpState.pastFin`), before this end closes
(`TcpState.beforeClose`), and after the peer has acknowledged our FIN
(`TcpState.afterClose`). `Pcb.Closes` relates the latter to the send buffer. There
is one step that breaks it: a second FIN of the peer takes a connection from CLOSING
to TIME-WAIT, whether or not our FIN was acknowledged.

Main results, for every congestion controller and every run:

* `close_complete_before_time_wait`: the states tell which FINs were sent, consumed
  and acknowledged, if no second FIN comes in CLOSING;
* `time_wait_before_close_complete`: with a second FIN, a connection may be in
  TIME-WAIT without having sent its own.
-/

namespace Netstack2

open TcpSendBuffer

/-- The states before this end closes. -/
def TcpState.beforeClose : TcpState → Bool
  | .synReceived | .established | .closeWait => true
  | _ => false

/-- The states after our FIN was acknowledged. -/
def TcpState.afterClose : TcpState → Bool
  | .finWait2 | .timeWait => true
  | _ => false

/-- A segment with our FIN was built. -/
def FinTransmitted (hist : List Observed) : Prop :=
  ∃ response, .built response ∈ hist ∧ response.flags &&& TcpFlag.fin ≠ 0

theorem FinTransmitted.append {hist : List Observed} (h : FinTransmitted hist)
    (seen : List Observed) : FinTransmitted (hist ++ seen) := by
  obtain ⟨response, hmem, hfin⟩ := h
  exact ⟨response, List.mem_append_left _ hmem, hfin⟩

namespace Pcb

variable {κ : Type}

/-- How far this end has closed. -/
structure Closes (p : Pcb κ) (hist : List Observed) : Prop where
  order : ∀ send, p.send = some send → send.FinInOrder
  before : p.state.beforeClose = true → ∀ send, p.send = some send → send.finRequested = false
  acked : p.finAcked = p.state.afterClose
  sent : ∀ send, p.send = some send → send.finSent = true → FinTransmitted hist

theorem stateAfterFin_close (state : TcpState) :
    (stateAfterFin state).beforeClose = state.beforeClose ∧
      (stateAfterFin state).afterClose = state.afterClose := by
  cases state <;> exact ⟨rfl, rfl⟩

theorem finAcked_eq {p : Pcb κ} {send : TcpSendBuffer κ} (h : p.send = some send) :
    p.finAcked = send.finAcked := by
  rw [finAcked, h]

theorem dataSegment_fin (p : Pcb κ) {next : TcpSendNextResult} (h : next.isFin) (nowMs : ℕ) :
    (p.dataSegment next nowMs).flags &&& TcpFlag.fin ≠ 0 := by
  rw [dataSegment]
  dsimp only
  rw [if_pos h]
  split <;> decide

/-- The send buffer stays, and the state as far as this end is concerned. -/
structure SameClose (p' p : Pcb κ) : Prop where
  send : p'.send = p.send
  before : p'.state.beforeClose = p.state.beforeClose
  after : p'.state.afterClose = p.state.afterClose

theorem SameClose.of_onlyReceives {p p' : Pcb κ} (h : OnlyReceives p' p) : SameClose p' p :=
  ⟨h.send, congrArg _ h.state, congrArg _ h.state⟩

namespace Closes

variable {p p' : Pcb κ} {hist seen : List Observed} {send send' : TcpSendBuffer κ}

theorem frame (h : Closes p hist) (hp : SameClose p' p) : Closes p' (hist ++ seen) where
  order send hs := h.order send (hp.send ▸ hs)
  before hb send hs := h.before (hp.before ▸ hb) send (hp.send ▸ hs)
  acked := by rw [finAcked, hp.send, ← finAcked, h.acked, hp.after]
  sent send hs hsent := (h.sent send (hp.send ▸ hs) hsent).append seen

/-- The send buffer changes. -/
theorem update (hsend : p'.send = some send') (horder : send'.FinInOrder)
    (hbefore : p'.state.beforeClose → send'.finRequested = false)
    (hacked : send'.finAcked = p'.state.afterClose)
    (hsent : send'.finSent → FinTransmitted hist) : Closes p' hist where
  order send hs := by rwa [← Option.some.inj (hsend.symm.trans hs)]
  before hb send hs := by
    rw [← Option.some.inj (hsend.symm.trans hs)]
    exact hbefore hb
  acked := by rw [finAcked_eq hsend, hacked]
  sent send hs := by rwa [← Option.some.inj (hsend.symm.trans hs)]

/-- The send buffer changes; if our FIN is sent, it shows. -/
theorem moves {sends : Prop} (h : Closes p hist) (hs : p.send = some send)
    (hsend : p'.send = some send') (hstate : p'.state = p.state) (horder : send'.FinInOrder)
    (hmoves : FinMoves sends False send' send) (hsends : sends → FinTransmitted (hist ++ seen)) :
    Closes p' (hist ++ seen) := by
  refine .update hsend horder (fun hb => ?_) ?_ fun hsent => ?_
  · exact hmoves.requested.trans (h.before (hstate ▸ hb) send hs)
  · have hacked : send'.finAcked = send.finAcked :=
      Bool.eq_iff_iff.2 ⟨fun h => (hmoves.isAcked h).resolve_right id, hmoves.acked⟩
    rw [hacked, ← finAcked_eq hs, h.acked, hstate]
  · exact (hmoves.isSent hsent).elim (fun hsent => (h.sent send hs hsent).append seen) hsends

end Closes

variable [CongestionController κ]

/-- The send buffer after an acknowledgment. -/
theorem ackSend_fin (p : Pcb κ) {send : TcpSendBuffer κ} (h : send.FinInOrder)
    (segment : TcpSegmentView) (nowMs : ℕ) :
    (p.ackSend send segment nowMs).FinInOrder ∧
      FinMoves False send.FinOutstanding (p.ackSend send segment nowMs) send := by
  have hack : FinMoves False _ _ send := onAck_finMoves send segment.acknowledgment
    (p.scaledPeerWindow segment.window) nowMs segment.payload.isEmpty
    (p.options.ecn && segment.hasFlag TcpFlag.ece)
  have horder := h.onAck segment.acknowledgment (p.scaledPeerWindow segment.window) nowMs
    segment.payload.isEmpty (p.options.ecn && segment.hasFlag TcpFlag.ece)
  rw [ackSend]
  dsimp only
  split
  · split
    · exact ⟨horder.onSack _, (onSack_finMoves ..).trans hack⟩
    · exact ⟨horder, hack⟩
  · exact ⟨horder, hack⟩

variable {c : EngineCall κ} {p p' : Pcb κ} {hist seen : List Observed}

/-- What an acknowledgment that is taken over says about our FIN. -/
theorem Closes.onAck (h : Closes p hist) {segment : TcpSegmentView} {nowMs : ℕ}
    (hp : p'.send = (p.onAck segment nowMs).send)
    (hbefore : p'.state.beforeClose → p.state.beforeClose)
    (hacked : p'.finAcked = p'.state.afterClose) : Closes p' (hist ++ seen) := by
  rcases hs : p.send with _ | send
  · have hnone : p'.send = none := by rw [hp, Pcb.onAck, hs]; rfl
    exact ⟨by simp [hnone], by simp [hnone], hacked, by simp [hnone]⟩
  · obtain ⟨horder, hacks⟩ := p.ackSend_fin (h.order send hs) segment nowMs
    have hsome : p'.send = some (p.ackSend send segment nowMs) := by rw [hp, Pcb.onAck, hs]; rfl
    refine .update hsome horder (fun hb => ?_) (finAcked_eq hsome ▸ hacked) fun hsent => ?_
    · exact hacks.requested.trans (h.before (hbefore hb) send hs)
    · exact (h.sent send hs ((hacks.isSent hsent).resolve_right id)).append seen

/-- Our FIN is not acknowledged before this end closes, and stays acknowledged. -/
theorem Closes.finAcked_onAck (h : Closes p hist) {segment : TcpSegmentView} {nowMs : ℕ}
    (hstate : (p.onAck segment nowMs).finAcked →
      p.state ≠ .finWait1 ∧ p.state ≠ .closing ∧ p.state ≠ .lastAck) :
    (p.onAck segment nowMs).finAcked = p.state.afterClose := by
  rcases hs : p.send with _ | send
  · have hacked := h.acked
    rw [finAcked, hs] at hacked
    rw [← hacked, finAcked, Pcb.onAck, hs]
    rfl
  · obtain ⟨horder, hacks⟩ := p.ackSend_fin (h.order send hs) segment nowMs
    have hsome : (p.onAck segment nowMs).send = some (p.ackSend send segment nowMs) := by
      rw [Pcb.onAck, hs]
      rfl
    rw [finAcked_eq hsome] at hstate ⊢
    rcases hfin : (p.ackSend send segment nowMs).finAcked with _ | _
    · rw [← h.acked, finAcked_eq hs]
      by_contra hbefore
      simp [hacks.acked (by simpa using hbefore)] at hfin
    · -- it was requested, so this end has closed
      have hrequested := horder.requested (horder.acked hfin)
      rw [hacks.requested] at hrequested
      have hclosed : p.state.beforeClose ≠ true := fun hb => by
        simp [h.before hb send hs] at hrequested
      cases hstate : p.state <;> simp_all [TcpState.beforeClose, TcpState.afterClose]

section

variable (hs : Step c p seen p')

include hs

/-- Every step keeps the invariant, except a second FIN in CLOSING. -/
theorem Closes.step_or (hr : Receives p hist) (h : Closes p hist) :
    Closes p' (hist ++ seen) ∨
      p'.state = .timeWait ∧ p.state = .closing ∧ c.op.repeatsFin p := by
  by_cases hsecond : p'.state = .timeWait ∧ p.state = .closing ∧ c.op.repeatsFin p = true
  · exact .inr hsecond
  refine .inl ?_
  cases hs with
  | quiet | synAck | ack | loseSession => exact h.frame ⟨rfl, rfl, rfl⟩
  | attach | deliver | payload => exact h.frame (.of_onlyReceives (by simp))
  | establish => exact .update rfl (.new ..) (fun _ => rfl) rfl (by rintro ⟨⟩)
  | accept _ _ hstate => exact h.onAck rfl id (h.finAcked_onAck hstate)
  | acceptFinWait2 _ _ hfin | acceptTimeWait _ _ _ _ hfin => exact h.onAck rfl (by rintro ⟨⟩) hfin
  | fin =>
    obtain ⟨hbefore, hafter⟩ := stateAfterFin_close p.state
    exact h.frame ⟨rfl, hbefore, hafter⟩
  | finTimeWait _ _ hsegment hn hstate =>
    rcases hstate with hstate | hstate
    · exact h.frame ⟨rfl, by rw [hstate]; rfl, by rw [hstate]; rfl⟩
    · -- in CLOSING, the FIN is a second one
      have hfin : p.finReceived := by rw [hr.pastFin, hstate]; rfl
      exact absurd ⟨rfl, hstate, hn.repeatsFin hr hsegment hfin⟩ hsecond
  | restartTimeWait _ _ hstate => exact h.frame ⟨rfl, by rw [hstate]; rfl, by rw [hstate]; rfl⟩
  | enqueue data hsend =>
    exact h.moves hsend rfl rfl ((h.order _ hsend).enqueue data) (enqueue_finMoves _ data) False.elim
  | updateMss mss =>
    rcases hsend : p.send with _ | send
    · exact h.frame ⟨by simp [hsend], rfl, rfl⟩
    · exact h.moves hsend rfl rfl ((h.order _ hsend).updateMss mss)
        (.of_queues (updateMss_toSendQueues _ mss)) False.elim
  | requestClose =>
    rw [Pcb.requestClose]
    split
    case h_1 hstate | h_2 hstate =>
      rcases hsend : p.send with _ | send
      · exact ⟨by simp, by simp, rfl, by simp⟩
      · have hacked := h.acked
        rw [finAcked_eq hsend, hstate] at hacked
        have hsame : send.requestFin.1.finAcked = send.finAcked ∧
            send.requestFin.1.finSent = send.finSent := by
          rw [TcpSendBuffer.requestFin]
          split <;> exact ⟨rfl, rfl⟩
        refine .update rfl (h.order _ hsend).requestFin (by rintro ⟨⟩) (hsame.1.trans hacked)
          fun hsent => ?_
        exact (h.sent send hsend (hsame.2 ▸ hsent)).append _
    case h_3 => exact h.frame ⟨rfl, rfl, rfl⟩
  | @ask _ asked _ nowMs _ hsend _ _ hnext hsend' =>
    have horder := h.order _ hsend
    have hasks := nextSegment_asksFin horder.pending (p.scaledPeerWindow p.peerWindow) nowMs
    rcases hsend' with ⟨hnone, rfl⟩ | rfl
    · have hask := horder.ask (w := p.scaledPeerWindow p.peerWindow) (n := nowMs)
        (by rw [hnext]; exact hnone)
      rw [hnext] at hask hasks
      exact h.moves hsend rfl rfl hask hasks.moves False.elim
    · have habandon := horder.abandon (p.scaledPeerWindow p.peerWindow) nowMs
      have hreset : FinMoves False False asked.resetPending asked := .of_queues rfl
      rw [hnext] at habandon hasks
      exact h.moves hsend rfl rfl habandon (hreset.trans hasks.moves) False.elim
  | @transmit send _ next nowMs _ _ _ _ hsend _ hnext =>
    have horder := h.order send hsend
    have htransmit := horder.transmit (p.scaledPeerWindow p.peerWindow) nowMs
      (if next.isRetransmission = false ∧ next.payload ≠ [] then some next.payload else none) 0 nowMs
    have hmoves := horder.transmit_moves (p.scaledPeerWindow p.peerWindow) nowMs
      (if next.isRetransmission = false ∧ next.payload ≠ [] then some next.payload else none) 0 nowMs
    rw [hnext] at htransmit hmoves
    exact h.moves hsend rfl rfl htransmit hmoves fun hfin =>
      ⟨_, List.mem_append_right _ (by simp), p.dataSegment_fin hfin nowMs⟩

theorem Closes.step (hr : Receives p hist) (h : Closes p hist)
    (hop : c.op.repeatsFin p → p.state ≠ .closing) : Closes p' (hist ++ seen) :=
  (h.step_or hs hr).resolve_right fun ⟨_, hstate, hrepeats⟩ => hop hrepeats hstate

/-- No step leaves TIME-WAIT. -/
theorem Step.timeWait (h : p.state = .timeWait) : p'.state = .timeWait := by
  cases hs with
  | establish _ _ hstate => rw [h] at hstate; cases hstate
  | attach | deliver | payload => exact (OnlyReceives.state (by simp)).trans h
  | acceptFinWait2 _ _ _ hstate => rw [h] at hstate; cases hstate
  | acceptTimeWait | finTimeWait | restartTimeWait => rfl
  | fin =>
    show stateAfterFin p.state = .timeWait
    rw [h]
    rfl
  | requestClose =>
    rw [Pcb.requestClose, h]
    exact h
  | _ => exact h

/-- A connection enters CLOSING with the peer's FIN. -/
theorem Step.closing (h : p'.state = .closing) : p.state = .closing ∨ p.state = .finWait1 := by
  cases hs with
  | establish | acceptFinWait2 | acceptTimeWait | finTimeWait | restartTimeWait => cases h
  | attach | deliver | payload => exact .inl ((OnlyReceives.state (by simp)).symm.trans h)
  | fin =>
    change stateAfterFin p.state = .closing at h
    cases hstate : p.state <;> simp_all [stateAfterFin]
  | requestClose =>
    rw [Pcb.requestClose] at h
    split at h
    · cases h
    · cases h
    · exact .inl h
  | _ => exact .inl h

/-- A segment that is no second FIN in CLOSING does not become one. -/
theorem Step.repeatsFin_closing (hr : Receives p hist)
    (hop : c.op.repeatsFin p → p.state ≠ .closing) (hrepeats : c.op.repeatsFin p') :
    p'.state ≠ .closing := by
  intro hclosing
  rcases hs.repeatsFin hr with hsame | hnot
  · rw [hsame] at hrepeats
    rcases hs.closing hclosing with hstate | hstate
    · exact hop hrepeats hstate
    · -- before the first FIN there is no second one
      have hfin : p.finReceived = false := by rw [hr.pastFin, hstate]; rfl
      rw [EngineOp.repeatsFin.eq_def] at hrepeats
      split at hrepeats <;> simp [hfin] at hrepeats
  · simp [hnot] at hrepeats

end

theorem kept_closes (c : EngineCall κ) :
    Kept c fun p hist => (Receives p hist ∧ Closes p hist) ∧
      (c.op.repeatsFin p → p.state ≠ .closing) :=
  (kept_receives c).under (fun hs hr _ h hop => ⟨h.step hs hr hop, hs.repeatsFin_closing hr hop⟩)
    fun iss generation hop _ _ =>
      ⟨⟨by simp [ofSyn], by simp [ofSyn], rfl, by simp [ofSyn]⟩, by simp [ofSyn]⟩

/-- Until TIME-WAIT, the invariant holds in all runs. -/
theorem kept_closesUntilTimeWait (c : EngineCall κ) :
    Kept c fun p hist =>
      (Receives p hist ∧ (p.state = .timeWait ∨ Closes p hist)) ∧ (fun _ => True) p :=
  (kept_receives c).under
    (fun hs hr _ h _ => ⟨h.elim (fun hwait => .inl (hs.timeWait hwait)) fun h =>
      (h.step_or hs hr).symm.imp And.left id, trivial⟩)
    fun iss generation hop _ _ =>
      ⟨.inr ⟨by simp [ofSyn], by simp [ofSyn], rfl, by simp [ofSyn]⟩, trivial⟩

end Pcb

section

variable {κ : Type} [CongestionController κ] {e : TcpHandshakeEngine κ} {p : Pcb κ}

theorem TcpHandshakeEngine.Reachable.closesUntilTimeWait (h : e.Reachable fun _ _ => True)
    (hp : p ∈ e.pcbs) : p.Receives (e.observed p) ∧
      (p.state = .timeWait ∨ p.Closes (e.observed p)) :=
  h.invariant Pcb.kept_closesUntilTimeWait hp

/-- In a run in which no second FIN comes in CLOSING: in FIN-WAIT-2, our FIN was sent
    and acknowledged, and no FIN was consumed; in TIME-WAIT, our FIN was sent and
    acknowledged, and the peer's consumed; in CLOSING and LAST-ACK, the peer's FIN was
    consumed, and ours is not acknowledged yet. -/
theorem close_complete_before_time_wait
    (h : e.Reachable fun c p => c.op.repeatsFin p = true → p.state ≠ .closing) (hp : p ∈ e.pcbs) :
    (p.state = .finWait2 →
      FinTransmitted (e.observed p) ∧ p.finAcked = true ∧ .finConsumed ∉ e.observed p) ∧
    (p.state = .timeWait →
      FinTransmitted (e.observed p) ∧ p.finAcked = true ∧ .finConsumed ∈ e.observed p) ∧
    (p.state = .closing ∨ p.state = .lastAck →
      .finConsumed ∈ e.observed p ∧ p.finAcked = false) := by
  obtain ⟨hreceives, hcloses⟩ := h.invariant Pcb.kept_closes hp
  have hsent : p.finAcked = true → FinTransmitted (e.observed p) := fun hacked => by
    rcases hsend : p.send with _ | send
    · simp [Pcb.finAcked, hsend] at hacked
    · rw [Pcb.finAcked_eq hsend] at hacked
      exact hcloses.sent send hsend ((hcloses.order send hsend).acked hacked)
  have hconsumed : .finConsumed ∈ e.observed p ↔ p.state.pastFin := by
    rw [← hreceives.consumed, hreceives.pastFin]
  have hacked := hcloses.acked
  rw [hconsumed]
  refine ⟨fun hstate => ?_, fun hstate => ?_, fun hstate => ?_⟩
  · rw [hstate] at hacked ⊢
    exact ⟨hsent hacked, hacked, by simp [TcpState.pastFin]⟩
  · rw [hstate] at hacked ⊢
    exact ⟨hsent hacked, hacked, rfl⟩
  · rcases hstate with hstate | hstate
    · rw [hstate] at hacked ⊢
      exact ⟨rfl, hacked⟩
    · rw [hstate] at hacked ⊢
      exact ⟨rfl, hacked⟩

end

/-- This end closes first, and the peer acknowledges its FIN before it closes. -/
theorem close_complete_before_time_wait_active :
    ∃ (e : TcpHandshakeEngine AimdController) (p : Pcb AimdController),
      e.Reachable (fun c p => c.op.repeatsFin p = true → p.state ≠ .closing) ∧ p ∈ e.pcbs ∧
      p.state = .timeWait ∧ FinTransmitted (e.observed p) ∧ p.finAcked = true ∧
      .finConsumed ∈ e.observed p := by
  obtain ⟨e, hreach, p, hp, hstate⟩ := exists_reachable
    (A := fun c p => c.op.repeatsFin p = true → p.state ≠ .closing)
    (P := fun _ p => p.state = .timeWait) { receiveWindow := 16 } (peerOpens 1 ++ [({}, .closeFlow 1 1), ({}, .pumpSendPaths 0 8 8),
      peerSends 1 TcpFlag.ack 101 2, peerSends 1 (TcpFlag.ack ||| TcpFlag.fin) 101 2])
    (by decide +kernel)
  exact ⟨e, p, hreach, hp, hstate, (close_complete_before_time_wait hreach hp).2.1 hstate⟩

/-- This end closes, but has not sent its FIN; the peer sends a FIN, and another. -/
theorem time_wait_before_close_complete :
    ∃ (e : TcpHandshakeEngine AimdController) (p : Pcb AimdController),
      e.Reachable (fun _ _ => True) ∧ p ∈ e.pcbs ∧ p.state = .timeWait ∧
      ¬FinTransmitted (e.observed p) ∧ p.finAcked = false := by
  obtain ⟨e, hreach, p, hp, hstate, hacked, hbuilt⟩ := exists_reached (P := fun e p => p.state = .timeWait ∧ p.finAcked = false ∧ ∀ x ∈ e.observed p,
      x.response.all (·.flags &&& TcpFlag.fin = 0))
    { receiveWindow := 16 } (peerOpens 1 ++ [({}, .closeFlow 1 1), peerSends 1 (TcpFlag.ack ||| TcpFlag.fin) 101 1,
      peerSends 1 (TcpFlag.ack ||| TcpFlag.fin) 102 1]) (by decide +kernel)
  refine ⟨e, p, hreach, hp, hstate, ?_, hacked⟩
  rintro ⟨_, hmem, hfin⟩
  exact hfin (of_decide_eq_true (hbuilt _ hmem))

end Netstack2
