import Netstack2.Tcp.Engine.Books

/-!
# Completing a handshake

A SYN-ACK may be built any number of times: for the SYN, for a copy of it, for a segment out of the
window, or by the retry timer. With timestamps, each has its own, and the connection expects back
that of the last one (`Pcb.Awaits`). So an acknowledgment of an earlier SYN-ACK, on its way while
the SYN-ACK is repeated, is refused:

* where memory and the session factory accept a connection, an ACK that echoes one of its SYN-ACKs
  establishes it if and only if it echoes the last one (`handshake_completes_iff`);
* a copy of the SYN makes the ACK of the first answer invalid
  (`handshake_refused_after_retransmission`).
-/

namespace Netstack2

variable {κ : Type} [CongestionController κ]

/-! ## What a half-open connection expects -/

namespace Pcb

variable {c : EngineCall κ} {p p' : Pcb κ} {hist seen : List Observed}

theorem Step.receiveWindow (h : Step c p seen p') : p'.receiveWindow = p.receiveWindow := by
  cases h with
  | attach session =>
    obtain ⟨_, _, _, -, heq⟩ := drainSession_eq (p.bindSession session) _ _ _
    rw [heq]
    rfl
  | deliver =>
    obtain ⟨_, _, _, -, heq⟩ := drainSession_eq p _ _ _
    rw [heq]
  | payload =>
    obtain ⟨_, _, _, _, _, -, heq⟩ := takePayload_eq p _ _ _ _ _
    rw [heq]
  | requestClose =>
    obtain ⟨_, _, heq⟩ := p.requestClose_eq
    rw [heq]
  | _ => rfl

theorem Steps.receiveWindow (h : Steps c p seen p') : p'.receiveWindow = p.receiveWindow := by
  induction h with
  | refl => rfl
  | tail _ hstep ih => exact hstep.receiveWindow.trans ih

/-- A half-open connection with timestamps expects back that of its last SYN-ACK. -/
structure Awaits (config : TcpHandshakeConfig) (p : Pcb κ) (hist : List Observed) : Prop where
  window : p.receiveWindow = config.receiveWindow
  present : p.state = .synReceived → p.responseOptions.timestampPresent = p.options.timestamps
  last : p.state = .synReceived → ∀ timestamp ∈ (synAckTimestamps hist).getLast?,
    p.responseOptions.timestampValue = timestamp

theorem Awaits.move (h : Awaits c.config p hist) (hm : Move c p seen p') :
    Awaits c.config p' (hist ++ seen) where
  window := hm.steps.receiveWindow.trans h.window
  present hstate := by
    obtain ⟨hopen, hexpects⟩ := hm.expects hstate
    rw [hexpects.present, hm.steps.sameConnection.timestamps]
    exact h.present hopen
  last hstate timestamp hlast := by
    obtain ⟨hopen, hexpects⟩ := hm.expects hstate
    rw [synAckTimestamps_append, List.getLast?_append] at hlast
    rw [hexpects.value]
    rcases hseen : (synAckTimestamps seen).getLast? with _ | t
    · rw [hseen] at hlast
      exact h.last hopen timestamp hlast
    · rw [hseen] at hlast
      exact Option.some.inj hlast

theorem awaits_kept (c : EngineCall κ) :
    KeptByMoves c (Awaits c.config) fun hist => ∃ p : Pcb κ, Awaits c.config p hist where
  move hm h := h.move hm
  opens _ _ _ _ _ := ⟨rfl, fun _ => rfl, nofun⟩
  past _ h := ⟨_, h⟩

end Pcb

namespace TcpHandshakeEngine

variable {e e' : TcpHandshakeEngine κ} {B : EngineCall κ → Prop} {i : ℕ} {p : Pcb κ}
  {segment : TcpSegmentView} {r : TcpReceiveBuffer}

/-! ## Connections that are accepted -/

/-- Memory and the session factory accept the connection. -/
@[mk_iff]
structure Accommodates (env : Env) (e : TcpHandshakeEngine κ) (p : Pcb κ) : Prop where
  budget : e.receiveMemoryBytes +
    (p.receiveWindow.toNat + (p.receiveWindow.toNat + 63) / 64 * 8) ≤ e.config.receiveMemoryBudget
  receive : env.receiveFails = false
  send : env.sendFails = false
  session : e.hasSessionFactory = true → env.openTcp.isSome = true

instance (env : Env) (e : TcpHandshakeEngine κ) (p : Pcb κ) : Decidable (Accommodates env e p) :=
  decidable_of_iff _ (accommodates_iff env e p).symm

omit [CongestionController κ] in
theorem cancelTimer_hasSessionFactory (e : TcpHandshakeEngine κ) (timer : TimerId) :
    (e.cancelTimer timer).hasSessionFactory = e.hasSessionFactory := by
  rw [cancelTimer]
  split <;> rfl

theorem At.completeHandshake_opens {env : Env} {options : TcpNegotiatedOptions}
    (hp : At e segment.flow i p) (hoptions : p.handshakeOptions segment = some options)
    (hnew : TcpReceiveBuffer.new p.receiveWindow.toNat p.rcvNxt p.responseWindow.toNat = some r)
    (h : Accommodates env e p) (nowMs : ℕ) :
    ∃ e' result q, e.completeHandshake env i p segment nowMs = some (e', result) ∧
      e'.pcbs[i]? = some q ∧ q.flowId = p.flowId ∧ q.StandsOpen (segment.hasFlag TcpFlag.fin) := by
  have hbudget := h.budget
  rw [TcpHandshakeEngine.completeHandshake, hoptions]
  dsimp only
  rw [if_neg (by omega), h.receive, hnew, if_neg Bool.false_ne_true]
  dsimp only
  rw [h.send, if_neg Bool.false_ne_true]
  generalize hestablished : p.establish options segment.acknowledgment r _ = q
  have hopen : q.state = .established := by rw [← hestablished]; rfl
  have hopens : ∀ e' : TcpHandshakeEngine κ, Replaces e i q e' →
      e'.hasSessionFactory = e.hasSessionFactory → ∃ e'' result q',
        e'.openSession env i q r segment nowMs = some (e'', result) ∧ e''.pcbs[i]? = some q' ∧
        q'.flowId = p.flowId ∧ q'.StandsOpen (segment.hasFlag TcpFlag.fin) := by
    intro e' hr hfactory
    have hq := hp.replace hr (by rw [← hestablished]; exact hp.flow)
    obtain ⟨e'', result, heq, -, -, hstays⟩ : Confined _ _ _ _
      (e'.openSession env i q r segment nowMs) := hq.openSession hopen rfl
    obtain ⟨q', hslot, hid, hopen'⟩ := hstays (hfactory ▸ h.session) (.inl hopen)
    exact ⟨e'', result, q', heq, hslot, hid.trans (by rw [← hestablished]; rfl), hopen'⟩
  exact hopens _
    ⟨(acquire_sameTable e p r).config, congrArg (·.set i q) (acquire_sameTable e p r).pcbs,
      cursorMs_cancelTimer ..⟩
    (cancelTimer_hasSessionFactory e p.retryTimer)

end TcpHandshakeEngine

/-! ## The ACK of a SYN-ACK -/

/-- A segment that acknowledges our SYN, in the window of the connection. -/
@[mk_iff]
structure Pcb.CompletedBy (p : Pcb κ) (segment : TcpSegmentView) : Prop where
  flow : segment.flow = p.incomingFlow
  rst : segment.hasFlag TcpFlag.rst = false
  syn : segment.hasFlag TcpFlag.syn = false
  ack : segment.hasFlag TcpFlag.ack = true
  sequence : sequenceAcceptable segment p.rcvNxt p.responseWindow.toUInt32 = true
  acknowledgment : segment.acknowledgment = p.sndNxt

instance (p : Pcb κ) (segment : TcpSegmentView) : Decidable (p.CompletedBy segment) :=
  decidable_of_iff _ (p.completedBy_iff segment).symm

omit [CongestionController κ] in
theorem Pcb.handshakeOptions_timestamps {p : Pcb κ} {segment : TcpSegmentView}
    {options : TcpSynOptions} (htimestamps : p.options.timestamps)
    (hoptions : parseTcpSynOptions segment.options = .ok options)
    (hpresent : options.timestampPresent) : p.handshakeOptions segment =
      if options.timestampEcho = p.responseOptions.timestampValue then
        some { p.options with peerTimestamp := options.timestampValue }
      else none := by
  rw [handshakeOptions, if_pos htimestamps, hoptions]
  dsimp only
  rw [hpresent]
  by_cases hecho : options.timestampEcho = p.responseOptions.timestampValue
  · rw [if_pos hecho, if_neg (by simp [hecho])]
  · rw [if_neg hecho, if_pos (.inr hecho)]

theorem TcpHandshakeConfig.receiveWindow_bounds {config : TcpHandshakeConfig} (h : config.validate) :
    config.receiveWindow.toNat ≠ 0 ∧ config.receiveWindow.toNat ≤ maximumCapacity := by
  rw [validate] at h
  split_ifs at h with _ _ hwindow
  simp only [not_or] at hwindow
  obtain ⟨-, -, hzero, hlarge⟩ := hwindow
  refine ⟨fun h => hzero (UInt32.toNat_inj.1 h),
    (UInt32.le_iff_toNat_le.1 (UInt32.not_lt.1 hlarge)).trans ?_⟩
  decide

namespace TcpHandshakeEngine

variable {e : TcpHandshakeEngine κ} {p : Pcb κ} {segment : TcpSegmentView} {i : ℕ}

/-- An acknowledgment of our SYN completes the handshake. -/
theorem onSegment_completes (hat : At e segment.flow i p) (hopen : e.isShutdown = false)
    (hstate : p.state = .synReceived) (h : p.CompletedBy segment) (env : Env) (nowMs : ℕ) :
    e.onSegment env segment nowMs = e.completeHandshake env i p segment nowMs := by
  rw [onSegment, hopen, hat.findIndex]
  simp [hstate, onSynReceived, h.rst, h.syn, h.sequence, h.ack, h.acknowledgment]

end TcpHandshakeEngine

/-- Where memory and the session factory accept a half-open connection with timestamps, an
    acceptable ACK that echoes one of its SYN-ACKs establishes it if and only if it echoes
    the last of them. If the ACK carries a FIN, the peer has closed it at once. -/
theorem handshake_completes_iff {e : TcpHandshakeEngine κ} {p : Pcb κ} {env : Env}
    {segment : TcpSegmentView} {options : TcpSynOptions} (h : e.ReachableBy fun _ => True)
    (hp : p ∈ e.pcbs) (hstate : p.state = .synReceived) (htimestamps : p.options.timestamps = true)
    (hack : p.CompletedBy segment) (hoptions : parseTcpSynOptions segment.options = .ok options)
    (hpresent : options.timestampPresent = true)
    (hecho : options.timestampEcho ∈ synAckTimestamps (e.observed p))
    (haccept : e.Accommodates env p) (nowMs : ℕ) :
    (∃ e' result p', e.onSegment env segment nowMs = some (e', result) ∧ p' ∈ e'.pcbs ∧
      p'.flowId = p.flowId ∧ (p'.state = .established ∨
        segment.hasFlag TcpFlag.fin = true ∧ p'.state = .closeWait)) ↔
      (synAckTimestamps (e.observed p)).getLast? = some options.timestampEcho := by
  have hawaits := (h.knows Pcb.awaits_kept).each p hp
  obtain ⟨i, hslot⟩ := List.mem_iff_getElem?.1 hp
  have hopen : e.isShutdown = false := by
    by_contra hshutdown
    rw [h.emptyIfShutdown (by simpa using hshutdown)] at hp
    exact absurd hp List.not_mem_nil
  have hlast : (synAckTimestamps (e.observed p)).getLast? =
      some p.responseOptions.timestampValue := by
    obtain ⟨last, hlast⟩ := List.getLast?_isSome.2 (List.ne_nil_of_mem hecho) |>
      Option.isSome_iff_exists.1
    rw [hlast, hawaits.last hstate last hlast]
  have hat : e.At segment.flow i p := ⟨hslot, hack.flow.symm, h.tracked.names⟩
  rw [hlast, Option.some_inj, TcpHandshakeEngine.onSegment_completes hat hopen hstate hack]
  have hnegotiated := Pcb.handshakeOptions_timestamps htimestamps hoptions hpresent
  constructor
  · rintro ⟨_, _, _, hcomplete, hp', hid, hstate'⟩
    by_contra hother
    -- another SYN-ACK was echoed, and the segment is refused
    rw [TcpHandshakeEngine.completeHandshake, hnegotiated, if_neg (Ne.symm hother)] at hcomplete
    obtain ⟨rfl, -⟩ := Prod.mk.inj (Option.some.inj hcomplete)
    rw [h.tracked.eq_of_ident hp' hp hid, hstate] at hstate'
    simp at hstate'
  · intro hechoed
    rw [if_pos hechoed.symm] at hnegotiated
    have hbounds := TcpHandshakeConfig.receiveWindow_bounds h.validConfig
    rw [← hawaits.window] at hbounds
    obtain ⟨e', result, p', heq, hp', hid, hstate'⟩ := hat.completeHandshake_opens hnegotiated
      (by rw [TcpReceiveBuffer.new, if_neg (by omega)]) haccept nowMs
    exact ⟨e', result, p', heq, List.mem_of_getElem? hp', hid, hstate'⟩

/-- A segment of a peer with timestamps, whose own is 1. -/
def stampedSegment (flags : UInt8) (sequence acknowledgment : UInt32) (echo : UInt8) :
    TcpSegmentView where
  flow := clientTo 1 80 6
  sequence := sequence
  acknowledgment := acknowledgment
  flags := flags
  window := 1000
  options := [1, 1, 8, 10, 0, 0, 0, 1, 0, 0, 0, echo]
  payload := []

/-- A SYN at time 0, and a copy of it at time 5. -/
def synTwice : List (Env × EngineOp) :=
  [({}, .onSegment (stampedSegment TcpFlag.syn 100 0 0) 0),
    ({}, .onSegment (stampedSegment TcpFlag.syn 100 0 0) 5)]

/-- The factory opens a session. -/
def opening : Env := { openTcp := some 1 }

/-- The ACK of the second answer to a SYN that was repeated. -/
theorem handshake_completes_iff_last : ∃ e : TcpHandshakeEngine AimdController,
    e.ReachableBy (fun _ => True) ∧ ∃ p ∈ e.pcbs, synAckTimestamps (e.observed p) = [0, 5] ∧
      ((∃ e' result p', e.onSegment opening (stampedSegment TcpFlag.ack 101 1 5) 6 =
          some (e', result) ∧ p' ∈ e'.pcbs ∧ p'.flowId = p.flowId ∧ (p'.state = .established ∨
            (stampedSegment TcpFlag.ack 101 1 5).hasFlag TcpFlag.fin = true ∧
              p'.state = .closeWait)) ↔ [(0 : UInt32), 5].getLast? = some 5) := by
  obtain ⟨e, hreach, p, hp, hstate, htimestamps, hseen, hack, haccept⟩ :=
    exists_reachableBy (B := fun _ => True) (b := fun _ => true)
    (P := fun e => ∃ p ∈ e.pcbs, p.state = .synReceived ∧ p.options.timestamps = true ∧
      synAckTimestamps (e.observed p) = [0, 5] ∧
      p.CompletedBy (stampedSegment TcpFlag.ack 101 1 5) ∧ e.Accommodates opening p)
    { receiveWindow := 16 } synTwice (fun _ _ => trivial) (by decide +kernel)
  refine ⟨e, hreach, p, hp, hseen, ?_⟩
  have hoptions : parseTcpSynOptions (stampedSegment TcpFlag.ack 101 1 5).options =
      .ok { timestampPresent := true, timestampValue := 1, timestampEcho := 5 } := by
    decide +kernel
  have hiff := handshake_completes_iff hreach hp hstate htimestamps hack hoptions rfl
    (by rw [hseen]; decide) haccept 6
  rwa [hseen] at hiff

/-- The SYN is repeated, and so is the answer. Then the ACK of the first answer does not
    complete the handshake any more. -/
theorem handshake_refused_after_retransmission : ∃ e : TcpHandshakeEngine AimdController,
    e.ReachableBy (fun _ => True) ∧ ∃ p ∈ e.pcbs, p.state = .synReceived ∧
      p.options.timestamps = true ∧ synAckTimestamps (e.observed p) = [0, 5] ∧
      p.CompletedBy (stampedSegment TcpFlag.ack 101 1 0) ∧ e.Accommodates opening p ∧
      (parseTcpSynOptions (stampedSegment TcpFlag.ack 101 1 0).options).toOption.any
        (fun options => options.timestampPresent && options.timestampEcho == 0) = true ∧
      (e.onSegment opening (stampedSegment TcpFlag.ack 101 1 0) 6).any (fun outcome =>
        outcome.2.error = some .invalidOptions &&
          outcome.1.pcbs.all (·.state = .synReceived)) = true :=
  exists_reachableBy (b := fun _ => true) { receiveWindow := 16 }
    synTwice (fun _ _ => trivial) (by decide +kernel)

end Netstack2
