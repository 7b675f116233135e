import Netstack2.Tcp.Engine.Fin

/-!
# Windows

The two windows of a connection: the one this end advertises, and the one it takes
over from the peer.

A receive buffer accepts what was advertised, up to its right edge. An ACK moves the
edge before it promises space, but a data segment promises space without moving the
edge. The peer's window is kept as its field and scaled when it is used; but the ACK
that completes the handshake does not replace the field of the SYN, which is not to
be scaled.

Main results, for every congestion controller and every run:

* `promised_window_honoured`: a byte in a window that was advertised is acceptable,
  if no data segment promises more than the buffer accepts;
* `promised_window_refused`: otherwise it may not be;
* `peer_window_as_advertised`: the pump asks for a segment within the window the peer
  advertised last, if no ACK completes a handshake with a smaller field than the SYN;
* `peer_window_beyond_advertised`: otherwise it may ask for more.
-/

namespace Netstack2

open TcpReceiveBuffer

variable {κ : Type}

/-! ## The window field -/

theorem receiveWindowScaleFrom_le (fuel : ℕ) (window : UInt32) (scale : UInt8) :
    (receiveWindowScaleFrom fuel window scale).toNat ≤ scale.toNat + fuel := by
  induction fuel generalizing window scale with
  | zero => exact le_refl _
  | succ _ ih =>
    rw [receiveWindowScaleFrom]
    split
    · have hnext : (scale + 1).toNat ≤ scale.toNat + 1 := by
        rw [UInt8.toNat_add]
        exact Nat.mod_le _ _
      exact le_trans (ih _ _) (by omega)
    · omega

theorem toNat_wireWindow_le (window : UInt32) {scale : UInt8} (hscale : scale.toNat < 32) :
    (wireWindow window scale).toNat * 2 ^ scale.toNat ≤ window.toNat := by
  have hshift : (window >>> scale.toUInt32).toNat = window.toNat / 2 ^ scale.toNat := by
    rw [UInt32.toNat_shiftRight, UInt8.toNat_toUInt32, Nat.mod_eq_of_lt hscale,
      Nat.shiftRight_eq_div_pow]
  have hle : (wireWindow window scale).toNat ≤ window.toNat / 2 ^ scale.toNat := by
    rw [wireWindow, ← hshift]
    split
    case isTrue hgt => exact le_of_lt (UInt32.lt_iff_toNat_lt.1 hgt)
    case isFalse =>
      rw [UInt32.toNat_toUInt16]
      exact Nat.mod_le _ _
  calc (wireWindow window scale).toNat * 2 ^ scale.toNat
    _ ≤ window.toNat / 2 ^ scale.toNat * 2 ^ scale.toNat := Nat.mul_le_mul_right _ hle
    _ ≤ window.toNat := Nat.div_mul_le_self _ _

namespace Pcb

/-- The field stands for no more than the buffer has room for. -/
theorem representedWindow_le (p : Pcb κ) (r : TcpReceiveBuffer) (hscale : p.receiveScale.toNat < 32) :
    p.representedWindow (p.windowField r) ≤ r.advertisedWindow := by
  rw [representedWindow, Nat.shiftLeft_eq, windowField]
  refine le_trans (toNat_wireWindow_le _ hscale) ?_
  rw [UInt32.toNat_ofNat']
  exact le_trans (Nat.mod_le _ _) (min_le_left _ _)

theorem rcvAdv_drainSession (p : Pcb κ) (r : TcpReceiveBuffer) (f : TrySend)
    (n : ℕ) : (p.drainSession r f n).2.buffer.rcvAdv = r.rcvAdv := by
  refine drainSession_induction (P := fun b _ => b.rcvAdv = r.rcvAdv) ?_ ?_ p f n rfl
  · intro b calls outcome _ hb
    rw [afterCall]
    split <;> exact hb
  · exact fun b calls v hb => hb

variable {r : TcpReceiveBuffer}

/-- A delivery leaves the edges of the window where they are. -/
theorem acceptableWindow_drainSession {isn : UInt32} {held : ℕ → Option UInt8} {d : ℕ}
    (h : Reassembles isn held d r) (p : Pcb κ) (f : TrySend) (n : ℕ) :
    (p.drainSession r f n).2.buffer.acceptableWindow = r.acceptableWindow := by
  obtain ⟨hdrained, hready⟩ := reassembles_drainSession h p f n
  have hedge := h.edge_eq hdrained (p.rcvAdv_drainSession r f n) (Nat.le_add_right ..) (by omega)
  omega

/-- A payload moves the left edge, and leaves the right one where it is. -/
theorem acceptableWindow_takePayload {isn : UInt32} {held : ℕ → Option UInt8} {d : ℕ}
    (h : Reassembles isn held d r) (p : Pcb κ) (segment : TcpSegmentView)
    (timestamp : Option UInt32) (f : TrySend) (n : ℕ) :
    (p.takePayload r segment timestamp f n).inOrder +
      (p.takePayload r segment timestamp f n).delivery.buffer.acceptableWindow =
        r.acceptableWindow := by
  let s := r.onSegment segment.sequence segment.payload (segment.hasFlag TcpFlag.psh)
  have hextends : Extends s.1 r := onSegment_extends ..
  obtain ⟨held', hheld'⟩ := h.onSegment_some segment.sequence segment.payload
    (segment.hasFlag TcpFlag.psh)
  have hedge := h.edge_eq hheld' hextends.rcvAdv (le_refl d) (Nat.le_add_right ..)
  have hdrained := acceptableWindow_drainSession hheld'
    (p.markPayload segment timestamp s.2.acceptedBytes (s.1.rcvNxt ≠ r.rcvNxt)) f n
  have hle := hextends.ready_le
  change d + s.1.readyBytes + s.1.acceptableWindow = _ at hedge
  show s.1.readyBytes - r.readyBytes + _ = _
  refine (congrArg _ hdrained).trans ?_
  change s.1.readyBytes - r.readyBytes + s.1.acceptableWindow = _
  omega

/-! ## The window this end advertises -/

/-- The right edge of the window, as a position in the peer's stream. -/
def rightEdge (p : Pcb κ) (hist : List Observed) : ℕ :=
  inOrder hist + p.receive.elim 0 acceptableWindow

theorem rightEdge_eq {p : Pcb κ} (hr : p.receive = some r) (hist : List Observed) :
    p.rightEdge hist = inOrder hist + r.acceptableWindow := by
  rw [rightEdge, hr]
  rfl

variable [CongestionController κ] {c : EngineCall κ} {p p' : Pcb κ} {hist seen : List Observed}

/-- The right edge does not move back. -/
theorem Step.rightEdge_le (hs : Step c p seen p') (h : Receives p hist)
    (hfin : p'.finReceived = false) : p.rightEdge hist ≤ p'.rightEdge (hist ++ seen) := by
  cases hs with
  | quiet | synAck | loseSession | accept | acceptFinWait2 | acceptTimeWait | restartTimeWait
  | enqueue | updateMss | ask | transmit =>
    exact le_of_eq (by simp [rightEdge, onAck, enterTimeWait, buildSynAck, Observed.inOrderBytes])
  | requestClose =>
    obtain ⟨_, _, heq⟩ := p.requestClose_eq
    simp [rightEdge, heq]
  | establish _ _ hstate =>
    rw [rightEdge, h.receive_eq_none hstate, rightEdge, inOrder_append, add_assoc]
    exact Nat.le_add_right ..
  | @ack r nowMs hr =>
    obtain ⟨held, hheld, -⟩ := h.stream r hr hfin
    have hle := hheld.le_acceptableWindow (p.representedWindow (p.windowField r))
    rw [rightEdge_eq hr, rightEdge_eq (p := (p.buildAck r nowMs).1) rfl, inOrder_append]
    exact add_le_add (Nat.le_add_right ..) (le_trans (le_max_left ..) hle)
  | @attach r session hr =>
    obtain ⟨_, _, _, -, heq⟩ := drainSession_eq (p.bindSession session) (r.setBlocked false)
      (c.env.trySend p.flowId) c.config.deliveryCallBudget
    obtain ⟨held, hheld, -⟩ := h.stream r hr (by rw [heq] at hfin; exact hfin)
    rw [rightEdge_eq hr, rightEdge_eq (by rw [heq]),
      acceptableWindow_drainSession (hheld.setBlocked false), inOrder_append, inOrder_map_trySend]
    exact le_refl _
  | @deliver r b hr hb =>
    obtain ⟨_, _, _, -, heq⟩ := drainSession_eq p b (c.env.trySend p.flowId)
      c.config.deliveryCallBudget
    obtain ⟨held, hheld, -⟩ := h.stream r hr (by rw [heq] at hfin; exact hfin)
    have hbuffer : Reassembles (p.irs + 1) held (taken hist) b ∧
        b.acceptableWindow = r.acceptableWindow := by
      rcases hb with rfl | rfl
      · exact ⟨hheld, rfl⟩
      · exact ⟨hheld.setBlocked false, rfl⟩
    rw [rightEdge_eq hr, rightEdge_eq (by rw [heq]), acceptableWindow_drainSession hbuffer.1,
      inOrder_append, inOrder_map_trySend, hbuffer.2]
    exact le_refl _
  | @payload r segment _ timestamp _ _ hr hstate =>
    obtain ⟨_, _, _, _, _, -, heq⟩ := takePayload_eq p r segment timestamp
      (c.env.trySend p.flowId) c.config.deliveryCallBudget
    obtain ⟨held, hheld, -⟩ := h.stream r hr (by rw [h.pastFin, hstate])
    have hsum := acceptableWindow_takePayload hheld p segment timestamp
      (c.env.trySend p.flowId) c.config.deliveryCallBudget
    rw [rightEdge_eq hr, rightEdge_eq (by rw [heq]), inOrder_append, inOrder_cons,
      inOrder_map_trySend, Observed.inOrderBytes]
    omega
  | fin | finTimeWait => cases hfin

end Pcb

/-- The operation is the pump, which has a segment to send for the connection, and
    its window field stands for more than the connection accepts. -/
def EngineOp.overpromises [CongestionController κ] (p : Pcb κ) : EngineOp → Bool
  | pumpSendPaths nowMs _ _ => match p.receive, p.send with
    | some r, some send => !p.finReceived &&
        (send.nextSegment (p.scaledPeerWindow p.peerWindow) nowMs).2.hasSegment &&
        r.acceptableWindow < p.representedWindow (p.windowField r)
    | _, _ => false
  | _ => false

namespace Pcb

/-- Each segment other than a SYN has acknowledged what was in order then, and its
    window has not promised more than the right edge. -/
structure Promises (p : Pcb κ) (hist : List Observed) : Prop where
  scale : p.receiveScale.toNat < 32
  within : p.finReceived = false → Along (fun before x => ∀ response, x = .built response →
    response.flags &&& TcpFlag.syn = 0 →
    response.acknowledgment = seqAt (p.irs + 1) (inOrder before) ∧
      inOrder before + p.representedWindow response.window ≤ p.rightEdge hist) hist

variable [CongestionController κ] {c : EngineCall κ} {p p' : Pcb κ} {hist seen : List Observed}

/-- A segment that a step builds promises no more than the right edge after it. -/
theorem Step.promises (hs : Step c p seen p') (h : Receives p hist)
    (hscale : p.receiveScale.toNat < 32) (hfin : p.finReceived = false)
    (hop : ∀ q ∈ c.pcbs, c.op.overpromises q = false) :
    ∀ response, .built response ∈ seen → response.flags &&& TcpFlag.syn = 0 →
      inOrder hist + p.representedWindow response.window ≤ p'.rightEdge (hist ++ seen) := by
  cases hs with
  | synAck nowMs =>
    intro response hmem hsyn
    obtain rfl : response = _ := by simpa using hmem
    exact absurd hsyn (p.buildSynAck_syn nowMs)
  | @ack r nowMs hr =>
    intro response hmem _
    obtain rfl : response = _ := by simpa using hmem
    obtain ⟨held, hheld, -⟩ := h.stream r hr hfin
    have hle := hheld.le_acceptableWindow (p.representedWindow (p.windowField r))
    have hroom : p.representedWindow (p.windowField r) ≤ r.capacity - r.readyBytes := by
      refine Nat.le_trans (p.representedWindow_le r hscale) ?_
      rw [advertisedWindow]
      split
      · exact Nat.zero_le _
      · exact Nat.sub_le_sub_left hheld.readyBytes_le_bytesHeld _
    rw [Nat.min_eq_left hroom] at hle
    rw [rightEdge_eq (p := (p.buildAck r nowMs).1) rfl, inOrder_append]
    exact Nat.add_le_add (Nat.le_add_right ..) (Nat.le_trans (Nat.le_max_right ..) hle)
  | @transmit _ _ next nowMs _ _ hpump hserved hs hstate hnext hsegment =>
    intro response hmem _
    obtain rfl : response = _ := by simpa using hmem
    obtain ⟨r, hr⟩ : ∃ r, p.receive = some r := by
      rw [← Option.ne_none_iff_exists']
      exact fun hnone => hstate.1 (h.opening hnone).1
    have hpromise := hop p hserved
    rw [hpump] at hpromise
    simp only [EngineOp.overpromises, hr, hs, hfin, hnext, hsegment, Bool.not_false, Bool.true_and,
      decide_eq_false_iff_not, Nat.not_lt] at hpromise
    have hwindow : (p.dataSegment next nowMs).window = p.windowField r := by
      simp only [dataSegment, hr]
    rw [hwindow]
    refine Nat.le_trans (Nat.add_le_add ?_ hpromise) (Nat.le_of_eq (rightEdge_eq hr _).symm)
    rw [inOrder_append]
    exact Nat.le_add_right ..
  | fin | finTimeWait =>
    intro response hmem
    rcases mem_finObserved hmem with hmem | hmem <;> cases hmem
  | _ => simp

theorem Promises.step (hs : Step c p seen p') (hr : Receives p hist) (h : Promises p hist)
    (hop : ∀ q ∈ c.pcbs, c.op.overpromises q = false) : Promises p' (hist ++ seen) := by
  have hirs := hs.sameConnection.irs
  have hsame : p'.receiveScale = p.receiveScale := by
    rw [receiveScale, receiveScale, hs.sameConnection.windowScale,
      hs.sameConnection.receiveWindowScale]
  refine ⟨hsame ▸ h.scale, fun hfin' => ?_⟩
  have hfin : p.finReceived = false := by
    by_contra hfin
    rw [Bool.not_eq_false] at hfin
    simp [hs.finReceived hr hfin] at hfin'
  have hrepresented : p'.representedWindow = p.representedWindow := by
    funext window
    rw [representedWindow, representedWindow, hsame]
  rw [hirs, hrepresented]
  have hedge := hs.rightEdge_le hr hfin'
  refine Along.append ?_ fun before x after heq response hx hsyn => ?_
  · exact (h.within hfin).mono fun before x hx response hbuilt hsyn =>
      ⟨(hx response hbuilt hsyn).1, le_trans (hx response hbuilt hsyn).2 hedge⟩
  · obtain ⟨hack, hin, -⟩ := hs.acknowledgment hr before x after heq response hx
    have hnot : .finConsumed ∉ hist := fun hmem => by simp [hr.consumed.2 hmem] at hfin
    rw [inOrder_append, hin, hack, hr.currentRcvNxt hfin, advanced, if_neg hnot]
    refine ⟨rfl, hs.promises hr h.scale hfin hop response ?_ hsyn⟩
    rw [heq, ← hx]
    simp

theorem kept_promises (c : EngineCall κ) :
    Kept c fun p hist => (Receives p hist ∧ Promises p hist) ∧
      ∀ q ∈ c.pcbs, c.op.overpromises q = false := by
  refine (kept_receives c).under (A := fun _ => ∀ q ∈ c.pcbs, c.op.overpromises q = false)
    (fun hs hr _ h hop => ⟨h.step hs hr hop, hop⟩) fun iss generation hop _ _ =>
    ⟨⟨?_, fun _ => along_of_mem (by simp)⟩, by simp [hop, EngineOp.overpromises]⟩
  rw [receiveScale]
  split
  · rw [ofSyn]
    dsimp only
    split
    · exact lt_of_le_of_lt (receiveWindowScaleFrom_le 14 _ 0) (by decide)
    · decide
  · decide

end Pcb

section

variable [CongestionController κ] {e : TcpHandshakeEngine κ} {p : Pcb κ} {r : TcpReceiveBuffer}

/-- In a run in which the pump sends no window larger than what is accepted: until
    the FIN is consumed, each byte in the window of a segment that was built for a
    connection is acceptable, unless it came in order since. -/
theorem promised_window_honoured (h : e.Reachable fun c p => c.op.overpromises p = false)
    (hp : p ∈ e.pcbs) (hr : p.receive = some r) (hfin : .finConsumed ∉ e.observed p) :
    Along (fun before x => ∀ response, x = .built response → response.flags &&& TcpFlag.syn = 0 →
      ∀ k < response.window.toNat <<< p.receiveScale.toNat,
        inOrder (e.observed p) ≤ inOrder before + k →
        r.isSequenceAcceptable (response.acknowledgment + UInt32.ofNat k) 1 = true)
      (e.observed p) := by
  obtain ⟨hreceives, hpromises⟩ := h.invariant_of (fun _ hA _ _ => hA) Pcb.kept_promises hp
  have hopen : p.finReceived = false := by
    by_contra hfinReceived
    exact hfin (hreceives.consumed.1 (Bool.not_eq_false _ ▸ hfinReceived))
  obtain ⟨held, hheld, hsum⟩ := hreceives.stream r hr hopen
  refine (hpromises.within hopen).mono fun before x hx response hbuilt hsyn k hk hle => ?_
  obtain ⟨hack, hwindow⟩ := hx response hbuilt hsyn
  rw [Pcb.representedWindow, Pcb.rightEdge_eq hr] at hwindow
  rw [hack, ← seqAt_add]
  exact hheld.isSequenceAcceptable_of_lt (q := inOrder before + k) (by omega) (by omega)

end

/-- A segment with data promises sixteen bytes, two bytes arrive, and the last byte
    promised is still acceptable. -/
theorem promised_window_honoured_later :
    ∃ (e : TcpHandshakeEngine AimdController) (p : Pcb AimdController) (r : TcpReceiveBuffer)
      (response : TcpResponse),
      e.Reachable (fun c p => c.op.overpromises p = false) ∧ p ∈ e.pcbs ∧ p.receive = some r ∧
      inOrder (e.observed p) = 2 ∧ .built response ∈ e.observed p ∧
      response.payload = [7] ∧ r.isSequenceAcceptable (response.acknowledgment + 15) 1 = true := by
  obtain ⟨e, hreach, p, hp, hsome, hfin, hin, x, hx, hbuilt⟩ := exists_reachable
    (A := fun c p => c.op.overpromises p = false)
    (P := fun e p => p.receive.isSome = true ∧ .finConsumed ∉ e.observed p ∧
      inOrder (e.observed p) = 2 ∧ ∃ x ∈ e.observed p, ∃ response ∈ x.response,
        response.payload = [7] ∧ response.flags &&& TcpFlag.syn = 0 ∧
          response.window.toNat <<< p.receiveScale.toNat = 16)
    { receiveWindow := 16 } (peerOpens 1 ++ [({}, .enqueueSendData 1 [7]), ({}, .pumpSendPaths 0 8 8),
      peerSends 1 TcpFlag.ack 101 2 [1, 2]]) (by decide +kernel)
  obtain ⟨r, hr⟩ := Option.isSome_iff_exists.1 hsome
  obtain ⟨before, after, hsplit⟩ := List.append_of_mem hx
  have hhonoured := promised_window_honoured hreach hp hr hfin before x after hsplit
  cases x with
  | built response =>
    obtain ⟨_, ⟨⟩, hpayload, hsyn, hwindow⟩ := hbuilt
    exact ⟨e, p, r, response, hreach, hp, hr, hin, hx, hpayload,
      hhonoured response rfl hsyn 15 (by omega) (by omega)⟩
  | _ => cases hbuilt.choose_spec.1

/-- The session takes two bytes, which makes room, and a segment with data promises
    the room: the right edge has not moved, and the last byte is refused. -/
theorem promised_window_refused :
    ∃ (e : TcpHandshakeEngine AimdController) (p : Pcb AimdController) (r : TcpReceiveBuffer)
      (response : TcpResponse),
      e.Reachable (fun _ _ => True) ∧ p ∈ e.pcbs ∧ p.receive = some r ∧
      .finConsumed ∉ e.observed p ∧ .built response ∈ e.observed p ∧
      response.flags = TcpFlag.ack ∧ response.acknowledgment = r.rcvNxt ∧
      response.window.toNat <<< p.receiveScale.toNat = 4 ∧
      r.isSequenceAcceptable (response.acknowledgment + 3) 1 = false := by
  obtain ⟨e, hreach, p, hp, hfin, r, hr, x, hx, response, hresponse, hbuilt⟩ :=
    exists_reached (P := fun e p => .finConsumed ∉ e.observed p ∧ ∃ r ∈ p.receive, ∃ x ∈ e.observed p,
      ∃ response ∈ x.response, response.flags = TcpFlag.ack ∧ response.acknowledgment = r.rcvNxt ∧
        response.window.toNat <<< p.receiveScale.toNat = 4 ∧
        r.isSequenceAcceptable (response.acknowledgment + 3) 1 = false)
    { receiveWindow := 4 } (peerOpens 1 ++ [peerSends 1 TcpFlag.ack 101 1 [1, 2], ({}, .enqueueSendData 1 [7]),
      ({}, .pumpSendPaths 0 8 8)]) (by decide +kernel)
  cases x with
  | built =>
    cases hresponse
    exact ⟨e, p, r, response, hreach, hp, hr, hfin, hx, hbuilt⟩
  | _ => cases hresponse

/-! ## The window the peer advertises -/

def Observed.acceptedWindow : Observed → Option UInt16
  | accepted window => some window
  | _ => none

/-- The window field of the last segment that was accepted, after the SYN. -/
def lastAccepted (hist : List Observed) : Option UInt16 :=
  (hist.filterMap Observed.acceptedWindow).getLast?

/-- The window field of the SYN. -/
def synWindow : List Observed → ℕ
  | .opened window :: _ => window.toNat
  | _ => 0

theorem lastAccepted_concat (hist : List Observed) (window : UInt16) :
    lastAccepted (hist ++ [.accepted window]) = some window := by
  simp [lastAccepted, Observed.acceptedWindow]

theorem lastAccepted_append {hist seen : List Observed}
    (h : ∀ x ∈ seen, x.acceptedWindow = none) : lastAccepted (hist ++ seen) = lastAccepted hist := by
  rw [lastAccepted, List.filterMap_append, List.filterMap_eq_nil_iff.2 h, List.append_nil,
    lastAccepted]

namespace Pcb

/-- The window the peer has advertised last. The field of a SYN is not scaled. -/
def advertised (p : Pcb κ) (hist : List Observed) : ℕ :=
  match lastAccepted hist with
  | some window =>
    if p.options.windowScale then window.toNat <<< p.options.sendWindowScale.toNat
    else window.toNat
  | none => synWindow hist

theorem scaledPeerWindow_le (p : Pcb κ) {window window' : UInt16} (hle : window ≤ window') :
    (p.scaledPeerWindow window).toNat ≤ if p.options.windowScale
      then window'.toNat <<< p.options.sendWindowScale.toNat else window'.toNat := by
  rw [UInt16.le_iff_toNat_le] at hle
  rw [scaledPeerWindow]
  split
  · rw [UInt32.toNat_shiftLeft, UInt16.toNat_toUInt32, UInt8.toNat_toUInt32, Nat.shiftLeft_eq,
      Nat.shiftLeft_eq]
    exact le_trans (Nat.mod_le _ _) (Nat.mul_le_mul hle
      (Nat.pow_le_pow_right (by decide) (Nat.mod_le _ _)))
  · rwa [UInt16.toNat_toUInt32]

end Pcb

/-- The operation is the ACK that completes the handshake of the connection, with a
    smaller window field than the SYN. -/
def EngineOp.narrowsWindow (p : Pcb κ) : EngineOp → Bool
  | onSegment segment _ => p.incomingFlow = segment.flow && p.state = .synReceived &&
      segment.hasFlag TcpFlag.ack && segment.acknowledgment = p.sndNxt &&
      segment.window < p.peerWindow
  | _ => false

namespace Pcb

/-- The window that is kept is not larger than the one that was accepted last, and
    each segment was asked for within what was advertised. -/
structure TakesWindow (p : Pcb κ) (hist : List Observed) : Prop where
  kept : p.state ≠ .synReceived → ∃ window, lastAccepted hist = some window ∧ p.peerWindow ≤ window
  asked : Along (fun before x => ∀ window, x = .nextSegment window →
    window.toNat ≤ p.advertised before) hist

variable [CongestionController κ] {c : EngineCall κ} {p p' : Pcb κ} {hist seen : List Observed}

/-- What a step does to the window of the peer. -/
inductive TakesOver (c : EngineCall κ) (p : Pcb κ) (seen : List Observed) (p' : Pcb κ) : Prop
  | stays (hwindow : p'.peerWindow = p.peerWindow)
      (hstate : p'.state = .synReceived ↔ p.state = .synReceived)
      (hseen : ∀ x ∈ seen, x.acceptedWindow = none)
  | establishes (segment : TcpSegmentView) (nowMs : ℕ) (hop : c.op = .onSegment segment nowMs)
      (hflow : p.incomingFlow = segment.flow) (hopening : p.state = .synReceived)
      (hack : segment.hasFlag TcpFlag.ack = true ∧ segment.acknowledgment = p.sndNxt)
      (hwindow : p'.peerWindow = p.peerWindow) (hstate : p'.state ≠ .synReceived)
      (hseen : seen = [.accepted segment.window])
  | accepts (window : UInt16) (hwindow : p'.peerWindow = window) (hstate : p'.state ≠ .synReceived)
      (hseen : seen = [.accepted window])

theorem Step.takesOver (hs : Step c p seen p') (h : Receives p hist) : TakesOver c p seen p' := by
  cases hs with
  | establish hop hflow hstate hack =>
    exact .establishes _ _ hop hflow hstate hack rfl (by rintro ⟨⟩) rfl
  | accept _ ha => exact .accepts _ rfl (h.opened (by simp [ha.receive])) rfl
  | acceptFinWait2 | acceptTimeWait => exact .accepts _ rfl (by rintro ⟨⟩) rfl
  | attach | deliver | payload =>
    exact .stays (OnlyReceives.peerWindow (by simp)) (Eq.congr_left (OnlyReceives.state (by simp)))
      (by simp [Observed.acceptedWindow])
  | fin hop hn | finTimeWait _ _ hop hn =>
    have hseen : ∀ x ∈ p.finObserved, x.acceptedWindow = none := fun x hx => by
      rcases mem_finObserved hx with rfl | rfl <;> rfl
    have hopened := h.opened (by simp [hn.receive])
    refine .stays rfl (iff_of_false ?_ hopened) hseen
    cases hs : p.state <;> simp_all [takeFin, enterTimeWait, stateAfterFin]
  | restartTimeWait _ _ hstate =>
    exact .stays rfl (iff_of_false (by rintro ⟨⟩) (by simp [hstate])) (by simp)
  | requestClose =>
    refine .stays ?_ ?_ (by simp)
    · obtain ⟨_, _, heq⟩ := p.requestClose_eq
      rw [heq]
    · rw [Pcb.requestClose]
      split
      case h_1 hstate | h_2 hstate => exact iff_of_false (by simp) (by simp [hstate])
      case h_3 => exact .rfl
  | _ => exact .stays rfl .rfl (by simp [Observed.acceptedWindow])

/-- A segment is asked for within the window that is kept. -/
theorem Step.asked (hs : Step c p seen p') :
    Along (fun before x => ∀ window, x = .nextSegment window →
      before = [] ∧ window = p.scaledPeerWindow p.peerWindow ∧ p.state ≠ .synReceived) seen := by
  cases hs with
  | ask _ _ _ hstate =>
    refine along_singleton ?_
    rintro window ⟨⟩
    exact ⟨rfl, rfl, hstate.1⟩
  | transmit _ _ _ hstate =>
    refine along_pair ?_ (by simp)
    rintro window ⟨⟩
    exact ⟨rfl, rfl, hstate.1⟩
  | fin | finTimeWait =>
    refine along_of_mem fun x hx before window hnext => ?_
    rcases mem_finObserved hx with rfl | rfl <;> cases hnext
  | _ => exact along_of_mem (by simp)

theorem TakesWindow.step (hs : Step c p seen p') (hr : Receives p hist) (h : TakesWindow p hist)
    (hop : c.op.narrowsWindow p = false) :
    TakesWindow p' (hist ++ seen) ∧ c.op.narrowsWindow p' = false := by
  have hsame := hs.sameConnection
  have hasked : Along (fun before x => ∀ window, x = .nextSegment window →
      window.toNat ≤ p'.advertised before) (hist ++ seen) := by
    have hadvertised : p'.advertised = p.advertised := by
      funext before
      rw [advertised, advertised, hsame.windowScale, hsame.sendWindowScale]
    rw [hadvertised]
    refine h.asked.append fun before x after heq window hx => ?_
    obtain ⟨rfl, rfl, hstate⟩ := hs.asked before x after heq window hx
    obtain ⟨_, hlast, hle⟩ := h.kept hstate
    rw [List.append_nil, advertised, hlast]
    exact p.scaledPeerWindow_le hle
  -- past the handshake, the condition is about nothing
  have hpast : p'.state ≠ .synReceived → c.op.narrowsWindow p' = false := fun hstate => by
    rw [EngineOp.narrowsWindow.eq_def]
    split <;> simp [hstate]
  rcases hs.takesOver hr with ⟨hwindow, hstate, hseen⟩ |
    ⟨segment, nowMs, hsegment, hflow, hopening, hack, hwindow, hstate, rfl⟩ |
    ⟨window, hwindow, hstate, rfl⟩
  · refine ⟨⟨fun hne => ?_, hasked⟩, ?_⟩
    · rw [lastAccepted_append hseen, hwindow]
      exact h.kept (hstate.not.1 hne)
    · simpa only [EngineOp.narrowsWindow.eq_def, hsame.incomingFlow, hstate, hsame.sndNxt, hwindow]
        using hop
  · refine ⟨⟨fun _ => ⟨segment.window, lastAccepted_concat .., ?_⟩, hasked⟩, hpast hstate⟩
    simpa [hsegment, EngineOp.narrowsWindow, hflow, hopening, hack, hwindow] using hop
  · exact ⟨⟨fun _ => ⟨window, lastAccepted_concat .., UInt16.le_of_eq hwindow⟩, hasked⟩,
      hpast hstate⟩

theorem kept_takesWindow (c : EngineCall κ) :
    Kept c fun p hist => (Receives p hist ∧ TakesWindow p hist) ∧ c.op.narrowsWindow p = false :=
  (kept_receives c).under (fun hs hr _ h hop => h.step hs hr hop)
    fun iss generation hop _ _ => ⟨⟨fun hstate => absurd rfl hstate, along_of_mem (by simp)⟩, by
      simp [hop, EngineOp.narrowsWindow, ofSyn, UInt16.lt_irrefl]⟩

end Pcb

section

variable [CongestionController κ] {e : TcpHandshakeEngine κ} {p : Pcb κ}

/-- In a run in which no ACK completes a handshake with a smaller window field than
    the SYN: whenever a segment is asked for, the window is at most the one that the
    peer has advertised last. -/
theorem peer_window_as_advertised (h : e.Reachable fun c p => c.op.narrowsWindow p = false)
    (hp : p ∈ e.pcbs) :
    Along (fun before x => ∀ window, x = .nextSegment window →
      window.toNat ≤ p.advertised before) (e.observed p) :=
  (h.invariant Pcb.kept_takesWindow hp).2.asked

end

/-- The window scale is 7, and the ACK that completes the handshake widens the window. -/
theorem peer_window_as_advertised_scaled :
    ∃ (e : TcpHandshakeEngine AimdController) (p : Pcb AimdController) (window : UInt32)
      (before after : List Observed),
      e.Reachable (fun c p => c.op.narrowsWindow p = false) ∧ p ∈ e.pcbs ∧
      e.observed p = before ++ .nextSegment window :: after ∧
      p.advertised before = 256000 ∧ window.toNat ≤ 256000 := by
  obtain ⟨e, hreach, p, hp, hsplit, hadvertised⟩ := exists_reachable
    (A := fun c p => c.op.narrowsWindow p = false)
    (P := fun e p => e.observed p = (e.observed p).take 3 ++ .nextSegment 128000 ::
      (e.observed p).drop 4 ∧ p.advertised ((e.observed p).take 3) = 256000)
    { receiveWindow := 16 } [peerSends 1 TcpFlag.syn 100 0 [] 1000 [1, 3, 3, 7], peerSends 1 TcpFlag.ack 101 1 [] 2000,
      ({}, .enqueueSendData 1 [7]), ({}, .pumpSendPaths 0 8 8)] (by decide +kernel)
  exact ⟨e, p, _, _, _, hreach, hp, hsplit, hadvertised,
    hadvertised ▸ peer_window_as_advertised hreach hp _ _ _ hsplit _ rfl⟩

/-- The field of the SYN is 1000, and that of the ACK which completes the handshake
    is 5, under the scale 7: the pump takes the field of the SYN, and scales it. -/
theorem peer_window_beyond_advertised :
    ∃ (e : TcpHandshakeEngine AimdController) (p : Pcb AimdController)
      (before after : List Observed),
      e.Reachable (fun _ _ => True) ∧ p ∈ e.pcbs ∧
      e.observed p = before ++ .nextSegment 128000 :: after ∧ p.advertised before = 640 := by
  obtain ⟨e, hreach, p, hp, hobs⟩ := exists_reached (P := fun e p => e.observed p = (e.observed p).take 3 ++ .nextSegment 128000 ::
      (e.observed p).drop 4 ∧ p.advertised ((e.observed p).take 3) = 640)
    { receiveWindow := 16 } [peerSends 1 TcpFlag.syn 100 0 [] 1000 [1, 3, 3, 7], peerSends 1 TcpFlag.ack 101 1 [] 5,
      ({}, .enqueueSendData 1 [7]), ({}, .pumpSendPaths 0 8 8)] (by decide +kernel)
  exact ⟨e, p, _, _, hreach, hp, hobs⟩

end Netstack2
