import Netstack2.Tcp.Engine.Close
import Netstack2.Tcp.Engine.Handshake

/-!
# Segments that bring nothing

A segment without payload, SYN, FIN or RST brings an acknowledgment and a window, and
otherwise little (`Pcb.takeEmpty`). Two things are expected of it: an acknowledgment
that is out of date changes nothing about what is sent, and one that is up to date is
not answered.

Both fail. The window of a segment is taken over before its acknowledgment is looked
at, so a segment that was overtaken brings back an old window; and in TIME-WAIT every
segment is answered.

Main results, for every congestion controller and every reachable state:

* `stale_ack_changes_nothing_iff`: an acknowledgment before `sndUna` leaves the send
  buffer as it is, and the peer window just if the segment's is the same;
* `pure_ack_unanswered_iff`: an ACK that is up to date is not answered just if the
  connection is not in TIME-WAIT, and does not lose its slot on the way there.
-/

namespace Netstack2

open TcpHandshakeEngine

variable {κ : Type}

/-- The segment carries the ACK flag, and none of payload, SYN, FIN and RST. -/
structure TcpSegmentView.IsPure (segment : TcpSegmentView) : Prop where
  payload : segment.payload = []
  syn : segment.hasFlag TcpFlag.syn = false
  fin : segment.hasFlag TcpFlag.fin = false
  rst : segment.hasFlag TcpFlag.rst = false
  ack : segment.hasFlag TcpFlag.ack = true

theorem TcpSegmentView.IsPure.of_flags {segment : TcpSegmentView}
    (hflags : segment.flags = TcpFlag.ack) (hpayload : segment.payload = []) : segment.IsPure where
  payload := hpayload
  syn := by rw [hasFlag, hflags]; decide
  fin := by rw [hasFlag, hflags]; decide
  rst := by rw [hasFlag, hflags]; decide
  ack := by rw [hasFlag, hflags]; decide

theorem Pcb.checkTimestamp_fresh (p : Pcb κ) {segment : TcpSegmentView}
    (h : p.checkTimestamp segment ≠ .invalid ∧ p.checkTimestamp segment ≠ .old) :
    ∃ timestamp, p.checkTimestamp segment = .fresh timestamp := by
  cases hcheck : p.checkTimestamp segment with
  | invalid => exact absurd hcheck h.1
  | old => exact absurd hcheck h.2
  | fresh timestamp => exact ⟨timestamp, rfl⟩

namespace TcpHandshakeEngine

variable {e : TcpHandshakeEngine κ} {flow : FlowKey} {i : ℕ} {p : Pcb κ} {r : TcpReceiveBuffer}
  {env : Env} {segment : TcpSegmentView} {nowMs : ℕ} {timestamp : Option UInt32}
  {result : TcpHandshakeResult}

/-- The rest of a segment that brings nothing. -/
theorem At.processBody_pure (h : At e flow i p) (hr : p.receive = some r) (hpure : segment.IsPure)
    (env : Env) (timestamp : Option UInt32) (nowMs : ℕ) (result : TcpHandshakeResult) :
    e.processBody env i segment timestamp nowMs result =
      some (e.update i (p.takeEmpty r segment timestamp), result) := by
  rw [TcpHandshakeEngine.processBody, h.slot]
  dsimp only
  rw [hr]
  dsimp only
  rw [if_pos hpure.payload, TcpHandshakeEngine.processEmpty]
  rw [if_pos hpure.fin]

variable [CongestionController κ]

/-- The window and the acknowledgment of a segment are taken over, and the state of the
    connection stays. -/
theorem processAccepted_eq (hstate : (p.onAck segment nowMs).finAcked →
      p.state ≠ .finWait1 ∧ p.state ≠ .closing ∧ p.state ≠ .lastAck) :
    e.processAccepted env i p segment timestamp nowMs =
      (e.update i (p.onAck segment nowMs) [.accepted segment.window]).processBody env i segment
        timestamp nowMs {} := by
  rw [processAccepted]
  split
  case isTrue hfin =>
    obtain ⟨hwait, hclosing, hlast⟩ := hstate hfin
    split
    case h_1 hs => exact absurd hs hwait
    case h_2 hs => exact absurd hs hclosing
    case h_3 hs => exact absurd hs hlast
    case h_4 => rfl
  case isFalse => rfl

/-- A segment that passes the checks is accepted. -/
theorem At.onSegment_pure (h : At e segment.flow i p) (hopen : e.isShutdown = false)
    (hstate : p.state ≠ .synReceived ∧ p.state ≠ .timeWait) (hr : p.receive = some r)
    (hpure : segment.IsPure) (htimestamp : p.checkTimestamp segment = .fresh timestamp)
    (hsequence : r.isSequenceAcceptable segment.sequence 0) :
    e.onSegment env segment nowMs =
      if sequenceAfter segment.acknowledgment p.currentSndNxt then e.answer i nowMs {}
      else e.processAccepted env i p segment timestamp nowMs := by
  rw [TcpHandshakeEngine.onSegment, if_neg (by rw [hopen]; exact Bool.false_ne_true), h.findIndex]
  dsimp only
  rw [if_neg hstate.1, if_neg (by rw [hpure.rst]; exact Bool.false_ne_true),
    TcpHandshakeEngine.processEstablished, if_neg hstate.2, hr]
  dsimp only
  rw [if_neg (by rw [hpure.syn]; exact Bool.false_ne_true),
    if_neg (by rw [hpure.ack]; exact Bool.noConfusion), htimestamp]
  have hlength : segment.payload.length + (if segment.hasFlag TcpFlag.fin then 1 else 0) = 0 := by
    rw [hpure.payload, hpure.fin]
    rfl
  dsimp only
  split
  · rfl
  · rw [hlength, if_neg (by rw [hsequence]; exact Bool.noConfusion)]

end TcpHandshakeEngine

namespace Pcb

variable {p : Pcb κ} {segment : TcpSegmentView}

/-- The acknowledgment is before all that the send buffer has not acknowledged. -/
def IsStale (p : Pcb κ) (acknowledgment : UInt32) : Prop :=
  ∀ send, p.send = some send → sequenceBefore acknowledgment send.sndUna = true

variable [CongestionController κ]

/-- Of a segment with a stale acknowledgment, the window is taken over. -/
theorem IsStale.onAck (h : p.IsStale segment.acknowledgment) (nowMs : ℕ) :
    p.onAck segment nowMs = { p with peerWindow := segment.window } := by
  rcases hsend : p.send with _ | send
  · rw [Pcb.onAck, hsend]
    rfl
  · have hnothing : ∀ w ackOnly ece, ∃ result : TcpSendAckResult, result.duplicate = false ∧
        send.onAck segment.acknowledgment w nowMs ackOnly ece = (send, result) := by
      intro w ackOnly ece
      rw [TcpSendBuffer.onAck, if_pos (h send hsend)]
      split <;> exact ⟨_, rfl, rfl⟩
    have hsame : p.ackSend send segment nowMs = send := by
      obtain ⟨_, hduplicate, heq⟩ := hnothing (p.scaledPeerWindow segment.window)
        segment.payload.isEmpty (p.options.ecn && segment.hasFlag TcpFlag.ece)
      rw [ackSend, heq]
      dsimp only
      rw [hduplicate]
      rfl
    rw [Pcb.onAck, hsend]
    dsimp only [Option.map_some]
    rw [hsame]

end Pcb

section

variable [CongestionController κ] {e : TcpHandshakeEngine κ} {i : ℕ} {p : Pcb κ}
  {segment : TcpSegmentView}

/-- In every reachable state, a segment that brings nothing, passes the timestamp and
    sequence checks and has an acknowledgment before `sndUna` leaves the send buffer and
    the window that is passed to `nextSegment` as they are, just if its acknowledgment is
    after `sndNxt` as well, for which it is refused, or its window stands for the same. -/
theorem stale_ack_changes_nothing_iff (h : e.Reachable fun _ _ => True)
    (hfind : e.findIndex segment.flow = some (i, p))
    (hstate : p.state ≠ .synReceived ∧ p.state ≠ .timeWait) (hpure : segment.IsPure)
    (htimestamp : p.checkTimestamp segment ≠ .invalid ∧ p.checkTimestamp segment ≠ .old)
    (hsequence : ∀ r, p.receive = some r → r.isSequenceAcceptable segment.sequence 0 = true)
    (hstale : p.IsStale segment.acknowledgment) (env : Env) (nowMs : ℕ) :
    ∃ e' result p', e.onSegment env segment nowMs = some (e', result) ∧
      e'.findIndex segment.flow = some (i, p') ∧
      (p'.send = p.send ∧ p'.scaledPeerWindow p'.peerWindow = p.scaledPeerWindow p.peerWindow ↔
        sequenceAfter segment.acknowledgment p.currentSndNxt = true ∨
          p.scaledPeerWindow segment.window = p.scaledPeerWindow p.peerWindow) := by
  have hat := TcpHandshakeEngine.At.of_findIndex h hfind
  obtain ⟨hreceives, hcloses⟩ := h.closesUntilTimeWait (List.mem_of_getElem? hat.slot)
  obtain ⟨r, hr⟩ := Option.ne_none_iff_exists'.1 fun hnone => hstate.1 (hreceives.opening hnone).1
  obtain ⟨timestamp, hfresh⟩ := p.checkTimestamp_fresh htimestamp
  rw [hat.onSegment_pure (hat.isShutdown h) hstate hr hpure hfresh (hsequence r hr)]
  by_cases hafter : sequenceAfter segment.acknowledgment p.currentSndNxt = true
  · -- refused: the answer changes the receive buffer only
    rw [if_pos hafter, answer, hat.slot]
    dsimp only
    rw [buildAck, hr]
    refine ⟨_, _, (p.buildAck r nowMs).1, rfl, ?_, ?_⟩
    · refine (hat.replace (q := (p.buildAck r nowMs).1) ?_ hat.flow).findIndex
      exact cancelTimer_replaces ..
    · exact ⟨fun _ => .inl hafter, fun _ => ⟨rfl, rfl⟩⟩
  · -- taken over: what is observed of the send side is the window
    have hacked : (p.onAck segment nowMs).finAcked = true →
        p.state ≠ .finWait1 ∧ p.state ≠ .closing ∧ p.state ≠ .lastAck := by
      intro hfin
      rw [hstale.onAck nowMs] at hfin
      have hclose := (hcloses.resolve_left hstate.2).acked
      rw [show p.finAcked = true from hfin] at hclose
      refine ⟨?_, ?_, ?_⟩
      all_goals
        intro hs
        rw [hs] at hclose
        cases hclose
    have hat' := hat.replace (update_replaces e i
      { p with peerWindow := segment.window } [.accepted segment.window]) hat.flow
    have hat'' := hat'.replace (update_replaces _ i
      (Pcb.takeEmpty { p with peerWindow := segment.window } r segment timestamp) []) hat.flow
    rw [if_neg hafter, processAccepted_eq hacked, hstale.onAck nowMs,
      hat'.processBody_pure hr hpure]
    refine ⟨_, _, _, rfl, hat''.findIndex, ?_⟩
    constructor
    · rintro ⟨-, hwindow⟩
      exact .inr hwindow
    · rintro (hrefused | hwindow)
      · exact absurd hrefused hafter
      · exact ⟨rfl, hwindow⟩

end

/-- An ACK of the peer with a port. -/
def peerAck (port : UInt16) (sequence acknowledgment : UInt32) (window : UInt16) :
    TcpSegmentView where
  flow := clientTo port 80 6
  sequence := sequence
  acknowledgment := acknowledgment
  flags := TcpFlag.ack
  window := window
  options := []
  payload := []

theorem peerAck_isPure (port : UInt16) (sequence acknowledgment : UInt32) (window : UInt16) :
    (peerAck port sequence acknowledgment window).IsPure := .of_flags rfl rfl

/-- Three bytes were sent and acknowledged; the ACK of the handshake comes again, with a
    smaller window. -/
theorem exists_stale_ack :
    ∃ e : TcpHandshakeEngine AimdController, e.Reachable (fun _ _ => True) ∧ ∃ p ∈ e.pcbs,
      e.findIndex (peerAck 1 101 1 500).flow = some (0, p) ∧
      p.state = .established ∧ p.checkTimestamp (peerAck 1 101 1 500) = .fresh none ∧
      (∀ r ∈ p.receive, r.isSequenceAcceptable 101 0) ∧
      (∀ send ∈ p.send, sequenceBefore 1 send.sndUna) ∧
      p.scaledPeerWindow p.peerWindow = 1000 ∧
      ∃ x ∈ e.onSegment {} (peerAck 1 101 1 500) 0,
        ∃ y ∈ x.1.findIndex (peerAck 1 101 1 500).flow,
          y.1 = 0 ∧ y.2.scaledPeerWindow y.2.peerWindow = 500 :=
  exists_reachable { receiveWindow := 16 } (peerOpens 1 ++ [({}, .enqueueSendData 1 [7, 8, 9]), ({}, .pumpSendPaths 0 8 8),
      peerSends 1 TcpFlag.ack 101 4]) (by decide +kernel)

/-- An ACK that was overtaken brings back its window. -/
theorem stale_ack_changes_window :
    ∃ (e : TcpHandshakeEngine AimdController) (p : Pcb AimdController) (segment : TcpSegmentView),
      e.Reachable (fun _ _ => True) ∧ e.findIndex segment.flow = some (0, p) ∧
      p.state = .established ∧ segment.IsPure ∧ p.checkTimestamp segment = .fresh none ∧
      (∀ r, p.receive = some r → r.isSequenceAcceptable segment.sequence 0 = true) ∧
      p.IsStale segment.acknowledgment ∧
      ∃ e' result p', e.onSegment {} segment 0 = some (e', result) ∧
        e'.findIndex segment.flow = some (0, p') ∧
        p'.scaledPeerWindow p'.peerWindow ≠ p.scaledPeerWindow p.peerWindow := by
  obtain ⟨e, hreach, p, -, hfind, hstate, htimestamp, hsequence, hstale, hwindow, ⟨e', result⟩, heq,
    ⟨_, p'⟩, hfind', rfl, hwindow'⟩ := exists_stale_ack
  refine ⟨e, p, _, hreach, hfind, hstate, peerAck_isPure .., htimestamp, hsequence, hstale, e',
    result, p', heq, hfind', ?_⟩
  rw [hwindow, hwindow']
  decide

/-- What the theorem says of the ACK that was overtaken. -/
theorem stale_ack_changes_nothing_iff_overtaken :
    ∃ (e : TcpHandshakeEngine AimdController) (p : Pcb AimdController),
      e.Reachable (fun _ _ => True) ∧ p.IsStale 1 ∧
      ∃ e' result p', e.onSegment {} (peerAck 1 101 1 500) 0 = some (e', result) ∧
        e'.findIndex (peerAck 1 101 1 500).flow = some (0, p') ∧
        (p'.send = p.send ∧ p'.scaledPeerWindow p'.peerWindow = p.scaledPeerWindow p.peerWindow ↔
          sequenceAfter 1 p.currentSndNxt = true ∨
            p.scaledPeerWindow 500 = p.scaledPeerWindow p.peerWindow) := by
  obtain ⟨e, hreach, p, -, hfind, hstate, htimestamp, hsequence, hstale, -⟩ := exists_stale_ack
  refine ⟨e, p, hreach, hstale, stale_ack_changes_nothing_iff hreach hfind ?_ (peerAck_isPure ..) ?_
    hsequence hstale {} 0⟩
  · rw [hstate]
    exact ⟨nofun, nofun⟩
  · rw [htimestamp]
    exact ⟨nofun, nofun⟩

/-! ## Answers -/

namespace TcpHandshakeEngine

variable [CongestionController κ] {e : TcpHandshakeEngine κ} {flow : FlowKey} {i : ℕ} {p : Pcb κ}
  {segment : TcpSegmentView} {r : TcpReceiveBuffer}

/-- An accepted segment that brings nothing is not answered. -/
theorem At.processAccepted_pure (h : At e flow i p) (hr : p.receive = some r)
    (hpure : segment.IsPure) (env : Env) (timestamp : Option UInt32) (nowMs : ℕ) :
    (∃ e' result, e.processAccepted env i p segment timestamp nowMs = some (e', result) ∧
      result.response = none) ↔
        (p.entersTimeWait segment → e.mayMove env i p nowMs) := by
  have hreplaces := update_replaces e i (p.onAck segment nowMs) [.accepted segment.window]
  have hacked := h.replace hreplaces h.flow
  have hsilent : ∀ {e₁ : TcpHandshakeEngine κ} {q : Pcb κ} {result : TcpHandshakeResult},
      At e₁ flow i q → q.receive = some r → result.response = none →
      ∃ e' result', e₁.processBody env i segment timestamp nowMs result = some (e', result') ∧
        result'.response = none := by
    intro e₁ q result hq hqr hnone
    exact ⟨_, _, hq.processBody_pure hqr hpure env timestamp nowMs result, hnone⟩
  by_cases hok : p.entersTimeWait segment = true → e.mayMove env i p nowMs = true
  · refine iff_of_true ?_ hok
    rw [TcpHandshakeEngine.processAccepted]
    split
    case isTrue hfin =>
      rw [Pcb.finAcked_onAck] at hfin
      split
      case h_1 =>
        exact hsilent (h.replace (update_replaces e i _ [.accepted segment.window]) h.flow) hr rfl
      case h_2 hs =>
        -- our FIN is acknowledged in CLOSING, and the connection may be moved
        have hs : p.state = .closing := hs
        have hmay := hok (by rw [Pcb.entersTimeWait, hs]; simp [hfin])
        obtain ⟨-, -, hslot⟩ := (hacked.waits env nowMs (by simp [Pcb.onAck, hs])).1
          ((h.mayMove hreplaces rfl h.flow).trans hmay)
        dsimp only
        split
        case isTrue hset =>
          obtain ⟨_, _, hwaiting⟩ := hslot hset
          exact hsilent hwaiting hr rfl
        case isFalse => exact ⟨_, _, rfl, rfl⟩
      case h_3 => exact ⟨_, _, rfl, rfl⟩
      case h_4 => exact hsilent hacked hr rfl
    case isFalse => exact hsilent hacked hr rfl
  · refine iff_of_false ?_ hok
    rintro ⟨_, _, heq, -⟩
    simp [(h.processAccepted hr).2 hok] at heq

end TcpHandshakeEngine

section

variable [CongestionController κ] {e : TcpHandshakeEngine κ} {i : ℕ} {p : Pcb κ}
  {segment : TcpSegmentView}

theorem TcpReceiveBuffer.isSequenceAcceptable_rcvNxt (r : TcpReceiveBuffer) :
    r.isSequenceAcceptable r.rcvNxt 0 := by
  have hoffset : sequenceOffset r.rcvNxt r.rcvNxt = some 0 := by
    rw [sequenceOffset, UInt32.sub_self]
    rfl
  rw [isSequenceAcceptable, if_neg (by decide), hoffset]
  dsimp only
  split
  · rfl
  · rename_i hwindow
    simp
    omega

/-- In every reachable state, an ACK that is up to date is not answered just if its
    connection is not in TIME-WAIT, nor loses its slot on the way there. -/
theorem pure_ack_unanswered_iff (h : e.Reachable fun _ _ => True)
    (hfind : e.findIndex segment.flow = some (i, p)) (hstate : p.state ≠ .synReceived)
    (hflags : segment.flags = TcpFlag.ack) (hpayload : segment.payload = [])
    (hsequence : segment.sequence = p.currentRcvNxt)
    (hacknowledgment : segment.acknowledgment = p.currentSndNxt)
    (htimestamp : p.checkTimestamp segment ≠ .invalid ∧ p.checkTimestamp segment ≠ .old)
    (env : Env) (nowMs : ℕ) :
    (∃ e' result, e.onSegment env segment nowMs = some (e', result) ∧ result.response = none) ↔
      p.state ≠ .timeWait ∧ e.losesSlot env i p segment nowMs = false := by
  have hat := TcpHandshakeEngine.At.of_findIndex h hfind
  obtain ⟨hreceives, -⟩ := h.closesUntilTimeWait (List.mem_of_getElem? hat.slot)
  obtain ⟨r, hr⟩ := Option.ne_none_iff_exists'.1 fun hnone => hstate (hreceives.opening hnone).1
  have hpure : segment.IsPure := .of_flags hflags hpayload
  obtain ⟨timestamp, hfresh⟩ := p.checkTimestamp_fresh htimestamp
  by_cases hwait : p.state = .timeWait
  · -- every segment is answered
    refine ⟨fun hreturns => ?_, fun hstays => absurd hwait hstays.1⟩
    obtain ⟨_, _, heq, hnone⟩ := hreturns
    rw [onSegment, hat.isShutdown h, if_neg Bool.false_ne_true, hfind] at heq
    dsimp only at heq
    rw [if_neg hstate, hpure.rst, if_neg Bool.false_ne_true, processEstablished,
      if_pos hwait, processTimeWait, hpure.fin, if_neg Bool.false_ne_true, answer, hat.slot] at heq
    dsimp only at heq
    rw [buildAck, hr] at heq
    obtain ⟨-, rfl⟩ := Prod.mk.inj (Option.some.inj heq)
    cases hnone
  · have hnxt : segment.sequence = r.rcvNxt := by rw [hsequence, Pcb.currentRcvNxt, hr]
    have hafter : sequenceAfter segment.acknowledgment p.currentSndNxt = false := by
      rw [hacknowledgment, sequenceAfter, UInt32.sub_self]
      decide
    rw [hat.onSegment_pure (hat.isShutdown h) ⟨hstate, hwait⟩ hr hpure hfresh
      (by rw [hnxt]; exact r.isSequenceAcceptable_rcvNxt), hafter,
      if_neg Bool.false_ne_true, hat.processAccepted_pure hr hpure]
    have haccepts : p.accepts segment := by
      rw [Pcb.accepts, hr, Option.any_some, hpure.syn, hpure.ack, hpure.fin, hpure.payload, hafter,
        hfresh, hnxt]
      exact r.isSequenceAcceptable_rcvNxt
    rw [losesSlot, leavesSlot, hpure.rst, if_neg hwait, haccepts]
    simp [hwait]

end

/-- Both ends have closed, and the connection is in TIME-WAIT. -/
theorem exists_timeWait :
    ∃ e : TcpHandshakeEngine AimdController, e.Reachable (fun _ _ => True) ∧ ∃ p ∈ e.pcbs,
      e.findIndex (peerAck 1 102 2 1000).flow = some (0, p) ∧
      p.state = .timeWait ∧ p.currentRcvNxt = 102 ∧ p.currentSndNxt = 2 ∧
      p.checkTimestamp (peerAck 1 102 2 1000) = .fresh none ∧
      ∃ x ∈ e.onSegment {} (peerAck 1 102 2 1000) 0, x.2.response.isSome :=
  exists_reachable { receiveWindow := 16 } (peerOpens 1 ++ [({}, .closeFlow 1 1), ({}, .pumpSendPaths 0 8 8),
      peerSends 1 TcpFlag.ack 101 2, peerSends 1 (TcpFlag.ack ||| TcpFlag.fin) 101 2])
    (by decide +kernel)

/-- In TIME-WAIT, an ACK that is up to date is answered. -/
theorem pure_ack_answered_in_timeWait :
    ∃ (e : TcpHandshakeEngine AimdController) (p : Pcb AimdController) (segment : TcpSegmentView),
      e.Reachable (fun _ _ => True) ∧ e.findIndex segment.flow = some (0, p) ∧
      p.state = .timeWait ∧ segment.flags = TcpFlag.ack ∧ segment.payload = [] ∧
      segment.sequence = p.currentRcvNxt ∧ segment.acknowledgment = p.currentSndNxt ∧
      p.checkTimestamp segment = .fresh none ∧
      ∃ e' result response, e.onSegment {} segment 0 = some (e', result) ∧
        result.response = some response := by
  obtain ⟨e, hreach, p, -, hfind, hstate, hrcv, hsnd, htimestamp, ⟨e', result⟩, heq, hsome⟩ :=
    exists_timeWait
  obtain ⟨response, hresponse⟩ := Option.isSome_iff_exists.1 hsome
  exact ⟨e, p, _, hreach, hfind, hstate, rfl, rfl, hrcv.symm, hsnd.symm, htimestamp, e', result,
    response, heq, hresponse⟩

/-- What the theorem says in TIME-WAIT. -/
theorem pure_ack_unanswered_iff_timeWait :
    ∃ (e : TcpHandshakeEngine AimdController) (p : Pcb AimdController),
      e.Reachable (fun _ _ => True) ∧ p.state = .timeWait ∧
      ((∃ e' result, e.onSegment {} (peerAck 1 102 2 1000) 0 = some (e', result) ∧
          result.response = none) ↔
        p.state ≠ .timeWait ∧ e.losesSlot {} 0 p (peerAck 1 102 2 1000) 0 = false) := by
  obtain ⟨e, hreach, p, -, hfind, hstate, hrcv, hsnd, htimestamp, -⟩ := exists_timeWait
  refine ⟨e, p, hreach, hstate, pure_ack_unanswered_iff hreach hfind ?_ rfl rfl hrcv.symm hsnd.symm
    ?_ {} 0⟩
  · rw [hstate]
    nofun
  · rw [htimestamp]
    exact ⟨nofun, nofun⟩

end Netstack2
