import Netstack2.Tcp.Engine.Receives

/-!
# The peer's FIN

A FIN is consumed where it is the next thing to be received. The engine does not ask
whether one was consumed before, so a second FIN, one past the first, is consumed
again; and the session learns of the FIN at once, whatever is left to deliver.

Main results, for every congestion controller and every run:

* `fin_counted_once`: without a second FIN, `rcvNxt` and every acknowledgment count
  the bytes in order and the FIN, once;
* `fin_counted_twice`: with a second FIN they do not;
* `half_close_after_data`: the session is told of the FIN after it has taken all
  bytes, if nothing is left to deliver when the FIN comes;
* `half_close_before_data`: otherwise it may be told before.
-/

namespace Netstack2

open TcpReceiveBuffer

variable {κ : Type}

/-! ## How the left edge moves -/

/-- The sequence numbers received: the bytes in order, and the FIN. -/
def advanced (hist : List Observed) : ℕ := inOrder hist + if .finConsumed ∈ hist then 1 else 0

theorem advanced_append_aside {hist seen : List Observed} (hin : inOrder seen = 0)
    (hfin : .finConsumed ∉ seen) : advanced (hist ++ seen) = advanced hist := by
  simp [advanced, hin, hfin]

namespace Pcb

variable {p : Pcb κ}

theorem mem_finObserved {x : Observed} (hx : x ∈ p.finObserved) :
    x = .finConsumed ∨ x = .shutdownWrite := by
  rw [finObserved] at hx
  split at hx <;> simp_all

/-- The FIN counts once, and no bytes come with it. -/
theorem advanced_finObserved {hist : List Observed} (h : .finConsumed ∉ hist) :
    advanced (hist ++ p.finObserved) = advanced hist + 1 := by
  have hin : inOrder p.finObserved = 0 := by
    rw [finObserved]
    split <;> rfl
  have hmem : .finConsumed ∈ p.finObserved := by
    rw [finObserved]
    split <;> exact List.mem_cons_self
  simp [advanced, h, hin, hmem]

theorem currentRcvNxt_eq {r : TcpReceiveBuffer} (hr : p.receive = some r) :
    p.currentRcvNxt = r.rcvNxt := by
  rw [currentRcvNxt, hr]

/-- As long as the FIN was not consumed, the left edge is after the bytes in order. -/
theorem Receives.currentRcvNxt {hist : List Observed} (h : Receives p hist)
    (hfin : p.finReceived = false) : p.currentRcvNxt = seqAt (p.irs + 1) (advanced hist) := by
  have hnot : .finConsumed ∉ hist := fun hmem => by simp [h.consumed.2 hmem] at hfin
  have hadvanced : advanced hist = inOrder hist := by simp [advanced, hnot]
  rcases hr : p.receive with _ | r
  · obtain ⟨-, hin, -⟩ := h.opening hr
    rw [Pcb.currentRcvNxt, hr, hadvanced, hin, seqAt_zero]
    exact h.rcvNxt
  · obtain ⟨held, hheld, hsum⟩ := h.stream r hr hfin
    rw [currentRcvNxt_eq hr, hheld.nxt, hsum, hadvanced]

variable [CongestionController κ]

/-- What a step does to the left edge. -/
inductive Edge (c : EngineCall κ) (p : Pcb κ) (seen : List Observed) (p' : Pcb κ) : Prop
  | stays (hnxt : p'.currentRcvNxt = p.currentRcvNxt) (hfin : p'.finReceived = p.finReceived)
      (hin : inOrder seen = 0) (hseen : .finConsumed ∉ seen)
  | payload (segment : TcpSegmentView) (nowMs : ℕ) (hop : c.op = .onSegment segment nowMs)
      (hopen : p.finReceived = false) (hfin : p'.finReceived = false)
  | fin (segment : TcpSegmentView) (nowMs : ℕ) (r : TcpReceiveBuffer)
      (hop : c.op = .onSegment segment nowMs) (hn : p.NextFin r segment)
      (hnxt : p'.currentRcvNxt = p.currentRcvNxt + 1) (hfin : p'.finReceived = true)
      (hseen : seen = p.finObserved)

theorem Step.edge {c : EngineCall κ} {p p' : Pcb κ} {hist seen : List Observed}
    (hs : Step c p seen p') (h : Receives p hist) : Edge c p seen p' := by
  cases hs with
  | quiet | synAck | loseSession | accept | acceptFinWait2 | acceptTimeWait | restartTimeWait
  | enqueue | updateMss | ask | transmit => exact .stays rfl rfl rfl (by simp)
  | requestClose =>
    obtain ⟨_, _, heq⟩ := p.requestClose_eq
    rw [heq]
    exact .stays rfl rfl rfl (by simp)
  | @establish r segment _ options _ _ hstate _ _ hr =>
    refine .stays ?_ rfl rfl (by simp)
    rw [currentRcvNxt_eq (p := p.establish options segment.acknowledgment r _) rfl,
      Pcb.currentRcvNxt, h.receive_eq_none hstate, (Reassembles.new hr).nxt, readyBytes_new hr]
    exact seqAt_zero _
  | @ack r nowMs hr =>
    refine .stays ?_ rfl rfl (by simp)
    rw [currentRcvNxt_eq hr, currentRcvNxt_eq (p := (p.buildAck r nowMs).1) rfl]
    obtain ⟨_, heq⟩ := r.recordAdvertisedWindow_eq (p.representedWindow (p.windowField r))
    rw [heq]
    rfl
  | @attach r session hr =>
    obtain ⟨_, _, _, -, heq⟩ := drainSession_eq (p.bindSession session) (r.setBlocked false)
      (c.env.trySend p.flowId) c.config.deliveryCallBudget
    refine .stays ?_ (by rw [heq]; rfl) (by simp) (by simp)
    rw [currentRcvNxt_eq hr, currentRcvNxt_eq (by rw [heq]), rcvNxt_drainSession]
    rfl
  | @deliver _ b hr hb =>
    obtain ⟨_, _, _, -, heq⟩ := drainSession_eq p b (c.env.trySend p.flowId)
      c.config.deliveryCallBudget
    refine .stays ?_ (by rw [heq]) (by simp) (by simp)
    rw [currentRcvNxt_eq hr, currentRcvNxt_eq (by rw [heq]), rcvNxt_drainSession]
    rcases hb with rfl | rfl <;> rfl
  | @payload r segment _ timestamp hop _ _ hstate =>
    obtain ⟨_, _, _, _, _, -, heq⟩ := takePayload_eq p r segment timestamp
      (c.env.trySend p.flowId) c.config.deliveryCallBudget
    have hopen : p.finReceived = false := by rw [h.pastFin, hstate]
    exact .payload _ _ hop hopen (by rw [heq, hopen])
  | fin hop hn | finTimeWait _ _ hop hn =>
    exact .fin _ _ _ hop hn (by rw [currentRcvNxt_eq hn.receive]; rfl) rfl rfl

/-- A FIN that was consumed stays so. -/
theorem Step.finReceived {c : EngineCall κ} {p p' : Pcb κ} {hist seen : List Observed}
    (hs : Step c p seen p') (h : Receives p hist) (hfin : p.finReceived) : p'.finReceived := by
  rcases hs.edge h with ⟨-, hsame, -, -⟩ | ⟨_, _, _, hopen, -⟩ | ⟨_, _, _, _, _, _, hnow, _⟩
  · rw [hsame, hfin]
  · simp [hopen] at hfin
  · exact hnow

end Pcb

/-! ## The FIN is counted once -/

/-- The operation is a segment with a FIN and no payload, right after a FIN of the
    connection that was consumed. -/
def EngineOp.repeatsFin (p : Pcb κ) : EngineOp → Bool
  | onSegment segment _ => p.incomingFlow = segment.flow && p.finReceived &&
      segment.hasFlag TcpFlag.fin && segment.payload.isEmpty && segment.sequence = p.currentRcvNxt
  | _ => false

namespace Pcb

/-- The left edge counts what was received, and each segment acknowledges what was
    received before it. -/
def Acknowledges (p : Pcb κ) (hist : List Observed) : Prop :=
  p.currentRcvNxt = seqAt (p.irs + 1) (advanced hist) ∧
    Along (fun before x => ∀ response, x = .built response →
      response.acknowledgment = seqAt (p.irs + 1) (advanced before)) hist

variable [CongestionController κ] {c : EngineCall κ} {p p' : Pcb κ} {hist seen : List Observed}

/-- A segment acknowledges the left edge. -/
theorem Step.acknowledgment (hs : Step c p seen p') (h : Receives p hist) :
    Along (fun before x => ∀ response, x = .built response →
      response.acknowledgment = p.currentRcvNxt ∧ inOrder before = 0 ∧ .finConsumed ∉ before)
      seen := by
  cases hs with
  | synAck _ hstate =>
    refine along_singleton ?_
    rintro response ⟨⟩
    exact ⟨by rw [Pcb.currentRcvNxt, h.receive_eq_none hstate]; rfl, rfl, by simp⟩
  | @ack r _ hr =>
    refine along_singleton ?_
    rintro response ⟨⟩
    obtain ⟨_, heq⟩ := r.recordAdvertisedWindow_eq (p.representedWindow (p.windowField r))
    exact ⟨by rw [currentRcvNxt_eq hr, buildAck, heq], rfl, by simp⟩
  | transmit =>
    refine along_pair (by simp) ?_
    rintro response ⟨⟩
    exact ⟨rfl, rfl, by simp⟩
  | fin | finTimeWait =>
    refine along_of_mem fun x hx before response hbuilt => ?_
    rcases mem_finObserved hx with rfl | rfl <;> cases hbuilt
  | _ => exact along_of_mem (by simp)

omit [CongestionController κ] in
/-- A FIN that is next and not the first is a second one. -/
theorem NextFin.repeatsFin {r : TcpReceiveBuffer} {segment : TcpSegmentView} {nowMs : ℕ}
    (hn : p.NextFin r segment) (hr : Receives p hist) (hop : c.op = .onSegment segment nowMs)
    (hfin : p.finReceived) : c.op.repeatsFin p := by
  have hempty := hn.empty (hr.pastFin ▸ hfin)
  have hnext := hn.next
  rw [hempty, ← currentRcvNxt_eq hn.receive] at hnext
  simp [EngineOp.repeatsFin, hop, hn.flow, hfin, hn.hasFin, hempty, ← hnext]

/-- A segment that is no second FIN does not become one. -/
theorem Step.repeatsFin (hs : Step c p seen p') (hr : Receives p hist) :
    c.op.repeatsFin p' = c.op.repeatsFin p ∨ c.op.repeatsFin p' = false := by
  have hflow := hs.sameConnection.incomingFlow
  rcases hs.edge hr with ⟨hnxt, hfin, -, -⟩ | ⟨segment, nowMs, hsegment, -, hfin⟩ |
    ⟨segment, nowMs, r, hsegment, hn, hnxt, hfin, -⟩
  · exact .inl (by simp only [EngineOp.repeatsFin.eq_def, hflow, hfin, hnxt])
  · exact .inr (by simp [EngineOp.repeatsFin, hsegment, hfin])
  · -- the edge has moved past it
    have hnext := hn.next
    rw [← currentRcvNxt_eq hn.receive] at hnext
    rw [hsegment, EngineOp.repeatsFin, hnxt, ← hnext]
    rcases hpayload : segment.payload with _ | ⟨x, xs⟩ <;> simp

theorem Acknowledges.step (hs : Step c p seen p') (hr : Receives p hist)
    (hr' : Receives p' (hist ++ seen)) (h : Acknowledges p hist) (hop : c.op.repeatsFin p = false) :
    Acknowledges p' (hist ++ seen) ∧ c.op.repeatsFin p' = false := by
  have hirs := hs.sameConnection.irs
  have hbuilt : Along (fun before x => ∀ response, x = .built response →
      response.acknowledgment = seqAt (p'.irs + 1) (advanced before)) (hist ++ seen) := by
    rw [hirs]
    refine h.2.append fun before x after heq response hx => ?_
    obtain ⟨hack, hin, hfin⟩ := hs.acknowledgment hr before x after heq response hx
    rw [hack, h.1, advanced_append_aside hin hfin]
  refine ⟨⟨?_, hbuilt⟩, (hs.repeatsFin hr).elim (·.trans hop) id⟩
  rw [hirs]
  rcases hs.edge hr with ⟨hnxt, -, hin, hseen⟩ | ⟨_, _, _, -, hfin⟩ |
    ⟨segment, nowMs, r, hsegment, hn, hnxt, -, rfl⟩
  · rw [hnxt, h.1, advanced_append_aside hin hseen]
  · rw [hr'.currentRcvNxt hfin, hirs]
  · -- the FIN is next, so it is the first one
    have hfirst : p.finReceived = false := by
      by_contra hsecond
      rw [Bool.not_eq_false] at hsecond
      simp [hn.repeatsFin hr hsegment hsecond] at hop
    have hnot : .finConsumed ∉ hist := fun hmem => by simp [hr.consumed.2 hmem] at hfirst
    rw [hnxt, h.1, advanced_finObserved hnot, seqAt_add]
    rfl

theorem kept_acknowledges (c : EngineCall κ) :
    Kept c fun p hist => (Receives p hist ∧ Acknowledges p hist) ∧ c.op.repeatsFin p = false :=
  (kept_receives c).under (fun hs hr hr' h hop => h.step hs hr hr' hop) fun iss generation hop _ _ =>
    ⟨⟨(seqAt_zero _).symm, along_of_mem (by simp)⟩, by simp [hop, EngineOp.repeatsFin, ofSyn]⟩

end Pcb

section

variable [CongestionController κ] {e : TcpHandshakeEngine κ} {p : Pcb κ} {r : TcpReceiveBuffer}

/-- In a run without a second FIN, the left edge of the receive window has moved by the bytes in
    order and the FIN, and each acknowledgment was for what had been received then. -/
theorem fin_counted_once (h : e.Reachable fun c p => c.op.repeatsFin p = false)
    (hp : p ∈ e.pcbs) (hr : p.receive = some r) :
    r.rcvNxt - (p.irs + 1) = UInt32.ofNat (advanced (e.observed p)) ∧
      Along (fun before x => ∀ response, x = .built response →
        response.acknowledgment - (p.irs + 1) = UInt32.ofNat (advanced before))
        (e.observed p) := by
  obtain ⟨-, hnxt, hbuilt⟩ := h.invariant Pcb.kept_acknowledges hp
  rw [Pcb.currentRcvNxt_eq hr] at hnxt
  refine ⟨by rw [hnxt, seqAt_sub_self], hbuilt.mono fun before x hx response heq => ?_⟩
  rw [hx response heq, seqAt_sub_self]

end

/-- Five bytes and a FIN, sent twice. -/
theorem fin_counted_once_resent :
    ∃ (e : TcpHandshakeEngine AimdController) (p : Pcb AimdController) (r : TcpReceiveBuffer),
      e.Reachable (fun c p => c.op.repeatsFin p = false) ∧ p ∈ e.pcbs ∧ p.receive = some r ∧
      advanced (e.observed p) = 6 ∧ r.rcvNxt - (p.irs + 1) = UInt32.ofNat 6 := by
  obtain ⟨e, hreach, p, hp, hsome, hcount⟩ := exists_reachable
    (A := fun c p => c.op.repeatsFin p = false)
    (P := fun e p => p.receive.isSome = true ∧ advanced (e.observed p) = 6)
    { receiveWindow := 16 } (peerOpens 1 ++ [peerSends 1 (TcpFlag.ack ||| TcpFlag.fin) 101 1 [1, 2, 3, 4, 5],
      peerSends 1 (TcpFlag.ack ||| TcpFlag.fin) 101 1 [1, 2, 3, 4, 5]]) (by decide +kernel)
  obtain ⟨r, hr⟩ := Option.isSome_iff_exists.1 hsome
  exact ⟨e, p, r, hreach, hp, hr, hcount, hcount ▸ (fin_counted_once hreach hp hr).1⟩

/-- A FIN and a second one, a sequence number later: both are counted. -/
theorem fin_counted_twice :
    ∃ (e : TcpHandshakeEngine AimdController) (p : Pcb AimdController) (r : TcpReceiveBuffer),
      e.Reachable (fun _ _ => True) ∧ p ∈ e.pcbs ∧ p.receive = some r ∧
      inOrder (e.observed p) = 0 ∧ r.rcvNxt - (p.irs + 1) = 2 := by
  obtain ⟨e, hreach, p, hp, r, hr, hobs⟩ := exists_reached (P := fun e p => ∃ r ∈ p.receive, inOrder (e.observed p) = 0 ∧ r.rcvNxt - (p.irs + 1) = 2)
    { receiveWindow := 16 } (peerOpens 1 ++ [peerSends 1 (TcpFlag.ack ||| TcpFlag.fin) 101 1,
      peerSends 1 (TcpFlag.ack ||| TcpFlag.fin) 102 1]) (by decide +kernel)
  exact ⟨e, p, r, hreach, hp, hr, hobs⟩

/-! ## The session learns of the FIN -/

/-- Where the operation is a segment with a FIN of the connection: its session takes
    the payload that comes with it, and when it comes nothing is left to deliver to
    the session, which then may not be blocked if there is a payload. -/
def EngineCall.FinAfterData (c : EngineCall κ) (p : Pcb κ) : Prop :=
  ∀ segment nowMs, c.op = .onSegment segment nowMs → p.incomingFlow = segment.flow →
    segment.hasFlag TcpFlag.fin = true →
    (segment.payload ≠ [] → TakesAll (c.env.trySend p.flowId) ∧ 2 ≤ c.config.deliveryCallBudget) ∧
    ∀ r, p.receive = some r → p.session.isSome = true → p.closeNotified = false →
      r.readyBytes = 0 ∧ (segment.payload ≠ [] → r.blocked = false)

namespace Pcb

theorem drainSession_of_ready_zero (p : Pcb κ) {r : TcpReceiveBuffer} (h : r.readyBytes = 0)
    (f : TrySend) (n : ℕ) : (p.drainSession r f n).2.buffer = r := by
  rw [drainSession, if_pos (.inr h)]

theorem drainSession_takesAll (p : Pcb κ) (hsession : p.session.isSome) {isn : UInt32}
    {held : ℕ → Option UInt8} {d : ℕ} {r : TcpReceiveBuffer} (h : Reassembles isn held d r)
    {f : TrySend} (hf : TakesAll f) (hblocked : r.blocked = false) {n : ℕ} (hn : 2 ≤ n) :
    (p.drainSession r f n).2.buffer.readyBytes = 0 ∧
      (p.drainSession r f n).2.buffer.blocked = false := by
  rw [drainSession]
  split
  case isTrue hzero =>
    refine ⟨hzero.resolve_left fun hnone => ?_, hblocked⟩
    simp [hnone] at hsession
  case isFalse =>
    rw [if_neg (by simp [hblocked])]
    exact h.drain_takesAll hf hblocked hn

variable [CongestionController κ] {c : EngineCall κ} {p p' : Pcb κ} {hist seen : List Observed}

theorem finAfterData_step (hs : Step c p seen p') (hr : Receives p hist)
    (h : c.FinAfterData p) : c.FinAfterData p' := by
  intro segment nowMs hop hflow hfin
  rw [hs.sameConnection.incomingFlow] at hflow
  obtain ⟨htakes, hleft⟩ := h segment nowMs hop hflow hfin
  rw [hs.sameConnection.flowId]
  refine ⟨htakes, fun b hb hsession hnotified => ?_⟩
  cases hs with
  | quiet | synAck | accept | acceptFinWait2 | acceptTimeWait | restartTimeWait
  | enqueue | updateMss | ask | transmit => exact hleft b hb hsession hnotified
  | loseSession => cases hsession
  | requestClose =>
    obtain ⟨_, _, heq⟩ := p.requestClose_eq
    rw [heq] at hb hsession hnotified
    exact hleft b hb hsession hnotified
  | establish _ _ _ _ _ hnew =>
    cases hb
    exact ⟨readyBytes_new hnew, fun _ => blocked_new hnew⟩
  | @ack r _ hr =>
    obtain ⟨_, heq⟩ := r.recordAdvertisedWindow_eq (p.representedWindow (p.windowField r))
    cases hb
    rw [heq]
    exact hleft r hr hsession hnotified
  | @attach r session _ _ hattach =>
    rw [hop] at hattach
    obtain ⟨_, _, _, -, heq⟩ := drainSession_eq (p.bindSession session) (r.setBlocked false)
      (c.env.trySend p.flowId) c.config.deliveryCallBudget
    rw [heq, drainSession_of_ready_zero (r := r.setBlocked false) _ hattach] at hb
    cases hb
    exact ⟨hattach, fun _ => rfl⟩
  | deliver _ _ hdelivers =>
    rw [hop] at hdelivers
    cases hdelivers
  | @payload r _ _ timestamp hop' _ hreceive hstate hpayload =>
    obtain ⟨rfl, -⟩ := EngineOp.onSegment.inj (hop.symm.trans hop')
    obtain ⟨htakesAll, hbudget⟩ := htakes hpayload
    obtain ⟨session, _, _, _, _, hlost, heq⟩ := takePayload_eq p r segment timestamp
      (c.env.trySend p.flowId) c.config.deliveryCallBudget
    rw [heq] at hb hsession hnotified
    cases hb
    have hbound : p.session.isSome := by
      rcases hlost with rfl | rfl
      · exact hsession
      · cases hsession
    obtain ⟨held, hheld, -⟩ := hr.stream r hreceive (by rw [hr.pastFin, hstate])
    obtain ⟨held', hheld'⟩ := hheld.onSegment_some segment.sequence segment.payload
      (segment.hasFlag TcpFlag.psh)
    have hopen := (onSegment_extends r segment.sequence segment.payload
      (segment.hasFlag TcpFlag.psh)).blocked.trans
      ((hleft r hreceive hbound hnotified).2 hpayload)
    obtain ⟨hready, hblocked⟩ := drainSession_takesAll (p.markPayload segment timestamp _ _) hbound
      hheld' htakesAll hopen hbudget
    exact ⟨hready, fun _ => hblocked⟩
  | fin | finTimeWait => cases hnotified

/-- Each time the session learns of the FIN, it has taken all bytes. -/
def HalfCloses (hist : List Observed) : Prop :=
  Along (fun before x => x = .shutdownWrite → inOrder before = taken before) hist

theorem HalfCloses.step (hs : Step c p seen p') (hr : Receives p hist) (h : HalfCloses hist)
    (hop : c.FinAfterData p) : HalfCloses (hist ++ seen) := by
  have hfin : ∀ {r segment nowMs}, c.op = .onSegment segment nowMs → p.NextFin r segment →
      HalfCloses (hist ++ p.finObserved) := by
    intro r segment nowMs hsegment hn
    rw [finObserved]
    split
    case isTrue htold =>
      rw [Bool.and_eq_true, Bool.not_eq_true'] at htold
      refine h.append (along_pair (by simp) fun _ => ?_)
      have hfirst : p.finReceived = false := by
        by_contra hsecond
        rw [Bool.not_eq_false] at hsecond
        simp [hr.notified hsecond] at htold
      obtain ⟨_, -, hsum⟩ := hr.stream r hn.receive hfirst
      obtain ⟨hready, -⟩ := (hop segment nowMs hsegment hn.flow hn.hasFin).2 r hn.receive htold.1
        htold.2
      simp [Observed.inOrderBytes, Observed.takenBytes, ← hsum, hready]
    case isFalse => exact h.append_of_mem (by simp)
  cases hs with
  | fin hsegment hn | finTimeWait _ _ hsegment hn => exact hfin hsegment hn
  | _ => exact h.append_of_mem (by simp)

theorem kept_halfCloses (c : EngineCall κ) :
    Kept c fun p hist => (Receives p hist ∧ HalfCloses hist) ∧ c.FinAfterData p :=
  (kept_receives c).under
    (fun hs hr _ h hop => ⟨h.step hs hr hop, finAfterData_step hs hr hop⟩)
    fun iss generation hop hnot _ => ⟨along_of_mem (by simp), by
      rintro segment nowMs hsegment - hfin
      obtain ⟨rfl, -⟩ := EngineOp.onSegment.inj (hop.symm.trans hsegment)
      simp [hnot] at hfin⟩

end Pcb

/-- In a run in which nothing is left to deliver when a FIN comes, whenever a session
    learns of the FIN of a flow, the bytes that came in order before it are taken. -/
theorem half_close_after_data [CongestionController κ] {e : TcpHandshakeEngine κ}
    (h : e.Reachable EngineCall.FinAfterData) (id : FlowId) :
    Along (fun before x => x = .shutdownWrite → inOrder before = taken before)
      (seen e.history id) := by
  rcases (h.tracked (fun _ hA => hA) Pcb.kept_halfCloses).past id with hnone | ⟨p, -, hclose⟩
  · rw [hnone]
    exact along_of_mem (by simp)
  · exact hclose

/-- A FIN after five bytes that the session has taken. -/
theorem half_close_after_data_taken :
    ∃ (e : TcpHandshakeEngine AimdController) (before after : List Observed),
      e.Reachable EngineCall.FinAfterData ∧ seen e.history 1 = before ++ .shutdownWrite :: after ∧
      inOrder before = taken before := by
  obtain ⟨e, hreach, hobs⟩ := exists_reachableBy
    (B := fun c => ∀ p ∈ c.pcbs, c.FinAfterData p)
    (b := fun c => c.pcbs.all fun p => match c.op with
      | .onSegment segment _ => !segment.hasFlag TcpFlag.fin ||
          segment.payload.isEmpty && p.receive.all (·.readyBytes = 0)
      | _ => true)
    (P := fun e => .shutdownWrite ∈ seen e.history 1)
    { receiveWindow := 16 } (peerOpens 1 ++ [peerSends 1 TcpFlag.ack 101 1 [1, 2, 3, 4, 5],
      peerSends 1 (TcpFlag.ack ||| TcpFlag.fin) 106 1])
    (fun c h p hp segment nowMs hop _ hfin => by
      have h := List.all_eq_true.1 h p hp
      rw [hop] at h
      simp only [hfin, Bool.not_true, Bool.false_or, Bool.and_eq_true, List.isEmpty_iff] at h
      exact ⟨fun hne => absurd h.1 hne, fun r hr _ _ => ⟨by simpa [hr] using h.2,
        fun hne => absurd h.1 hne⟩⟩)
    (by decide +kernel)
  obtain ⟨before, after, heq⟩ := List.append_of_mem hobs
  exact ⟨e, before, after, hreach, heq, half_close_after_data hreach 1 before _ after heq rfl⟩

/-- A FIN after five bytes that the session would not take yet: it learns of the FIN
    before the bytes. -/
theorem half_close_before_data :
    ∃ (e : TcpHandshakeEngine AimdController) (before after : List Observed),
      e.Reachable (fun _ _ => True) ∧ seen e.history 1 = before ++ .shutdownWrite :: after ∧
      inOrder before = 5 ∧ taken before = 0 := by
  obtain ⟨e, hreach, p, -, hobs⟩ := exists_reached (P := fun e _ => seen e.history 1 = (seen e.history 1).take 9 ++ .shutdownWrite ::
        (seen e.history 1).drop 10 ∧
      inOrder ((seen e.history 1).take 9) = 5 ∧ taken ((seen e.history 1).take 9) = 0)
    { receiveWindow := 16 } (peerOpens 1 ++ [({ trySend := fun _ _ _ => .sent 0 .wouldBlock },
        (peerSends 1 TcpFlag.ack 101 1 [1, 2, 3, 4, 5]).2),
      peerSends 1 (TcpFlag.ack ||| TcpFlag.fin) 106 1]) (by decide +kernel)
  exact ⟨e, _, _, hreach, hobs⟩

end Netstack2
