import Netstack2.Tcp.Congestion.Signals
import Netstack2.Tcp.Send.Account
import Netstack2.Tcp.Send.Timers

/-!
# The sender does not stall

While something is in flight, a timer runs (`Netstack2.Tcp.Send.Timers`). A buffer with
nothing outstanding has no timer: it must be able to send what is queued. For that the
window of its controller must not be shut; the buffer gives its controller nothing but
signals (`Driven`), and none of them shuts it.

Main result, `never_stalls`: in every run of a buffer with a valid configuration and one of
the controllers AIMD, BBR and hybrid, at times that do not go back, as long as the buffer
is open, the timer that watches what is in flight expires within the longest interval of
the two timers; the retransmission timeout stays within its bounds; and with nothing
outstanding, new data is sent as soon as the peer window and the pacing gate are open.
-/

namespace Netstack2

open List

open CongestionController TcpSendBuffer

/-! ## The controller -/

section

variable {κ : Type} [CongestionController κ] {b b' b'' : TcpSendBuffer κ}

/-- The controller of `b'` is that of `b` after some signals, and the segment size is the same. -/
structure Driven (b' b : TcpSendBuffer κ) : Prop where
  controller : ∃ signals, b'.controller = Signal.run signals b.controller
  mss : b'.mss = b.mss

theorem Driven.of_same (hcontroller : b'.controller = b.controller) (hmss : b'.mss = b.mss) :
    Driven b' b := ⟨⟨[], hcontroller⟩, hmss⟩

theorem Driven.of_signal (s : Signal) (hcontroller : b'.controller = s.apply b.controller)
    (hmss : b'.mss = b.mss) : Driven b' b := ⟨⟨[s], hcontroller⟩, hmss⟩

theorem Driven.trans (h : Driven b'' b') (h' : Driven b' b) : Driven b'' b := by
  obtain ⟨⟨signals, hsignals⟩, hmss⟩ := h
  obtain ⟨⟨signals', hsignals'⟩, hmss'⟩ := h'
  refine ⟨⟨signals' ++ signals, ?_⟩, hmss.trans hmss'⟩
  rw [hsignals, hsignals', Signal.run, Signal.run, Signal.run, foldl_append]

theorem TcpSendBuffer.SameStream.driven (h : SameStream b' b) : Driven b' b :=
  .of_same h.controller h.mss

/-- Only a timeout is a signal. -/
theorem TcpSendBuffer.Stores.driven {owner : Option Bytes} {offset m : ℕ}
    {kind : PendingKind} (h : Stores b owner offset m kind b') : Driven b' b := by
  cases h with
  | rtoRetransmit =>
    refine ⟨?_, rfl⟩
    rw [rtoEntry]
    split
    · exact ⟨[.fastRecoveryEntry _, .rto], rfl⟩
    · exact ⟨[.rto], rfl⟩
  | _ => exact .of_same rfl rfl

theorem driven_commit (b : TcpSendBuffer κ) (owner : Option Bytes) (offset n : ℕ) :
    (b.commit owner offset n).1.closed ∨ Driven (b.commit owner offset n).1 b := by
  obtain ⟨b', hstores, ⟨htimers, -⟩ | ⟨-, b'', -, hclose⟩⟩ := commit_stored b owner offset n
  · exact .inr (htimers.driven.trans hstores.driven)
  · rw [hclose]
    exact .inl rfl

theorem driven_onEce (b : TcpSendBuffer κ) (ece : Bool) : Driven (b.onEce ece) b := by
  rw [onEce]
  split
  · exact .of_signal .ecnCe rfl rfl
  · exact .of_same rfl rfl

theorem driven_onDuplicateAck (b : TcpSendBuffer κ) (w : UInt32) (n : ℕ) (ackOnly : Bool) :
    Driven (b.onDuplicateAck w n ackOnly).1 b := by
  have hdup (qualifying triggers : Bool) : ∃ signals,
      b.duplicateAckController qualifying triggers = Signal.run signals b.controller := by
    rw [duplicateAckController]
    split_ifs
    · exact ⟨[.dupAck, .fastRecoveryEntry _], rfl⟩
    · exact ⟨[.fastRecoveryEntry _], rfl⟩
    · exact ⟨[.dupAck], rfl⟩
    · exact ⟨[], rfl⟩
  refine (rearmDuplicate_timersOnly _ w n).driven.trans ⟨hdup _ _, rfl⟩

theorem driven_feedController (b : TcpSendBuffer κ) (walk : AckWalk) (n : ℕ) :
    Driven (b.feedController walk n) b := by
  rw [feedController]
  dsimp only
  split
  · refine ⟨?_, rfl⟩
    split
    · exact ⟨[.fastRecoveryExit], rfl⟩
    · exact ⟨[], rfl⟩
  · exact .of_signal (.ack _) rfl rfl

theorem driven_onAck (b : TcpSendBuffer κ) (a w : UInt32) (n : ℕ) (ackOnly ece : Bool) :
    Driven (b.onAck a w n ackOnly ece).1 b := by
  rw [TcpSendBuffer.onAck]
  split
  · exact .of_same rfl rfl
  split
  · exact .of_same rfl rfl
  · dsimp only
    have hece := driven_onEce b ece
    split
    · exact (driven_onDuplicateAck _ w n ackOnly).trans hece
    · refine .trans ?_ hece
      refine (rearm_sameStream ..).driven.trans ((driven_feedController ..).trans ?_)
      exact (sampleRtt_timersOnly ..).driven.trans (.of_same rfl rfl)

theorem driven_onSack (b : TcpSendBuffer κ) (blocks : List TcpSackBlock) :
    Driven (b.onSack blocks).1 b := by
  rw [onSack]
  split
  · exact .of_same rfl rfl
  · dsimp only
    split
    · refine ⟨?_, rfl⟩
      split
      · exact ⟨[.fastRecoveryEntry _], rfl⟩
      · exact ⟨[], rfl⟩
    · exact .of_same rfl rfl

variable [FlooredController κ]

open FlooredController

/-- Segments are not empty, and the window is not shut. -/
structure Alive (b : TcpSendBuffer κ) : Prop where
  mss : b.mss ≠ 0
  window : AtLeast 1 b.controller

theorem Alive.of_driven (h : Alive b) (hd : Driven b' b) : Alive b' := by
  obtain ⟨⟨signals, hsignals⟩, hmss⟩ := hd
  refine ⟨hmss ▸ h.mss, ?_⟩
  rw [hsignals]
  exact atLeast_run h.window signals

theorem Alive.updateMss (h : Alive b) (mss : UInt16) : Alive (b.updateMss mss) := by
  rw [TcpSendBuffer.updateMss]
  split
  case isTrue => exact h
  case isFalse hnot =>
    rw [not_or] at hnot
    refine ⟨hnot.1, ?_⟩
    split
    · refine atLeast_updateMss _ _ h.window (Nat.pos_of_ne_zero fun hzero => hnot.1 ?_)
      exact UInt16.toNat_inj.1 hzero
    · exact h.window

end

/-! ## Runs -/

section

variable {κ : Type} [CongestionController κ] [FlooredController κ] {config : TcpSendConfig}
  {b : TcpSendBuffer κ} {now n m : ℕ}

/-- What an open buffer keeps up to the time `now`. -/
structure Timely (config : TcpSendConfig) (now : ℕ) (b : TcpSendBuffer κ) : Prop
    extends Alive b where
  bounds : InBounds config now b.clock
  watched : Watched b

theorem timely_new (hc : config.Usable) (isn : UInt32) {make : UInt16 → κ}
    (hmake : FlooredController.AtLeast 1 (make config.initialMss)) :
    Timely config 0 (.new isn config make) where
  mss := hc.mss
  window := hmake
  bounds :=
    { minRto := rfl
      maxRto := rfl
      base := rfl
      max := rfl
      rto_ge := hc.minRto
      rto_le := hc.maxRto
      current_pos := hc.base_pos
      current_le := hc.base_le
      rtoDeadline := fun hr => by cases hr
      persistDeadline := Nat.zero_le _ }
  watched hq := absurd rfl hq

theorem Timely.mono (h : Timely config n b) (hle : n ≤ m) : Timely config m b :=
  { h with bounds := h.bounds.mono hle }

/-- An operation that sets no timer, and puts nothing in flight. -/
theorem Timely.of_clock {b' : TcpSendBuffer κ} (h : Timely config n b) (halive : Alive b')
    (hclock : b'.clock = b.clock) (hq : b'.retransmitQueue ≠ [] → b.retransmitQueue ≠ []) :
    Timely config n b' := by
  refine ⟨halive, hclock ▸ h.bounds, fun hq' => ?_⟩
  have hrunning : b'.rtoRunning = b.rtoRunning := congrArg Clock.rtoRunning hclock
  have hdeadline : b'.persistDeadlineMs = b.persistDeadlineMs :=
    congrArg Clock.persistDeadlineMs hclock
  rw [hrunning, hdeadline]
  exact h.watched (hq hq')

/-- `nextSegment` closes the buffer, or leaves it timely. -/
theorem Timely.nextSegment (hc : config.Usable) (h : Timely config n b) (hopen : b.closed = false)
    (hidle : b.pendingKind = .none) (halone : b.persistProbe = none ∨ b.retransmitQueue = [])
    (w : UInt32) :
    (b.nextSegment w n).1.closed ∧ (b.nextSegment w n).1.pendingKind = .none ∨
      Timely config n (b.nextSegment w n).1 := by
  obtain ⟨hbounds, hwatched⟩ := watched_polled hc h.bounds hopen halone w
  have hsame := (polled_keeps b w n).1
  rcases nextSegment_pick hopen hidle w n with ⟨-, -, hclose⟩ | ⟨p, r, -, hnext⟩
  · rw [hclose]
    exact .inl ⟨rfl, rfl⟩
  · rw [hnext]
    exact .inr
      { toAlive := h.toAlive.of_driven (.of_same hsame.controller hsame.mss)
        bounds := hbounds
        watched := hwatched }

/-- So does `onSent`. -/
theorem Timely.onSent (hc : config.Usable) (h : Timely config n b) (owner : Option Bytes)
    (offset : ℕ) :
    (b.onSent owner offset n).closed ∨ Timely config n (b.onSent owner offset n) := by
  by_cases hk : b.pendingKind = .none
  · rw [TcpSendBuffer.onSent, if_pos hk]
    exact .inr h
  rw [onSent_eq owner offset n hk]
  generalize hx : b.commit owner offset n = x
  have hsame := (finishSent_keeps b.pendingKind n x).1
  have hprobed : (probed b.pendingKind n x).toSendQueues = x.1.toSendQueues := by
    rw [probed]
    split <;> rfl
  have hclock : (finishSent b.pendingKind n x).clock = (probed b.pendingKind n x).clock := by
    rw [finishSent_toSendTimers]
    rfl
  have hclosed : (finishSent b.pendingKind n x).closed = x.1.closed :=
    congrArg SendQueues.closed hsame.queues
  rcases driven_commit b owner offset n with hc' | hdriven
  · exact .inl (hclosed.trans (hx ▸ hc'))
  rcases watched_commit hc h.bounds h.watched owner offset with hc' | hwatched
  · refine .inl (hclosed.trans ?_)
    rw [hx] at hc'
    exact (congrArg SendQueues.closed hprobed).symm.trans hc'
  rw [hx] at hdriven hwatched
  refine .inr ⟨h.toAlive.of_driven (hsame.driven.trans hdriven), ?_, fun hq => ?_⟩
  · rw [hclock]
    exact (hx ▸ h.bounds.commit hc owner offset).probed hc b.pendingKind
  · have hq' : (probed b.pendingKind n x).retransmitQueue ≠ [] := by
      rw [congrArg SendQueues.retransmitQueue hprobed,
        ← congrArg SendQueues.retransmitQueue hsame.queues]
      exact hq
    have hrunning : (finishSent b.pendingKind n x).rtoRunning =
        (probed b.pendingKind n x).rtoRunning := congrArg Clock.rtoRunning hclock
    have hdeadline : (finishSent b.pendingKind n x).persistDeadlineMs =
        (probed b.pendingKind n x).persistDeadlineMs := congrArg Clock.persistDeadlineMs hclock
    rw [hrunning, hdeadline]
    exact hwatched hq'

theorem Timely.onAck (hc : config.Usable) (h : Timely config n b) (hopen : b.closed = false)
    (a w : UInt32) (ackOnly ece : Bool) : Timely config n (b.onAck a w n ackOnly ece).1 := by
  suffices hboth : InBounds config n (b.onAck a w n ackOnly ece).1.clock ∧
      Watched (b.onAck a w n ackOnly ece).1 from
    ⟨h.toAlive.of_driven (driven_onAck b a w n ackOnly ece), hboth.1, hboth.2⟩
  have hece : InBounds config n (b.onEce ece).clock := by
    rw [onEce]
    split <;> exact h.bounds
  have hopen' : (b.onEce ece).closed = false :=
    (congrArg SendQueues.closed (onEce_toSendQueues b ece)).trans hopen
  rw [TcpSendBuffer.onAck]
  split
  case isTrue => exact ⟨h.bounds, h.watched⟩
  split
  case isTrue => exact ⟨h.bounds, h.watched⟩
  dsimp only
  split
  case isTrue =>
    refine ⟨InBounds.rearmDuplicate ?_ hc w, watched_rearmDuplicate hc ?_ ?_ w⟩
    · exact hece
    · exact hece
    · exact hopen'
  case isFalse =>
    have hsampled (walk : AckWalk) :
        InBounds config n (((b.onEce ece).acknowledge a w n).sampleRtt walk).clock := by
      refine InBounds.sampleRtt ?_ hc walk
      exact hece
    refine ⟨((hsampled _).feedController _).rearm hc _ w,
      watched_rearm hc ((hsampled _).feedController _) ?_ _ w⟩
    rw [congrArg SendQueues.closed (feedController_toSendQueues ..),
      congrArg SendQueues.closed (sampleRtt_timersOnly ..).queues]
    exact hopen'

/-- One operation: the buffer closes, or is timely at the time of the last call. -/
theorem Timely.apply (hc : config.Usable) (h : Timely config now b) (hopen : b.closed = false)
    (hidle : b.pendingKind = .none) (halone : b.persistProbe = none ∨ b.retransmitQueue = [])
    (op : SendOp) (htimes : (now :: op.times).Pairwise (· ≤ ·)) :
    (op.apply b).closed ∨ Timely config (op.times.getLastD now) (op.apply b) := by
  cases op with
  | enqueue =>
    rw [SendOp.apply, TcpSendBuffer.enqueue]
    split
    · exact .inr h
    · exact .inr (h.of_clock ⟨h.mss, h.window⟩ rfl id)
  | requestFin =>
    rw [SendOp.apply, TcpSendBuffer.requestFin]
    split
    · exact .inr h
    · exact .inr (h.of_clock ⟨h.mss, h.window⟩ rfl id)
  | transmit w _ owner offset =>
    simp only [SendOp.times, pairwise_cons, mem_cons, not_mem_nil, or_false,
      forall_eq_or_imp, forall_eq] at htimes
    obtain ⟨⟨hn, -⟩, hm, -⟩ := htimes
    rcases (h.mono hn).nextSegment hc hopen hidle halone w with ⟨hclosed, hk⟩ | hnext
    · refine .inl ?_
      rw [SendOp.apply, TcpSendBuffer.onSent, if_pos hk]
      exact hclosed
    · exact (hnext.mono hm).onSent hc owner offset
  | abandon w =>
    simp only [SendOp.times, pairwise_cons, mem_cons, not_mem_nil, or_false, forall_eq] at htimes
    rcases (h.mono htimes.1).nextSegment hc hopen hidle halone w with ⟨hclosed, -⟩ | hnext
    · exact .inl hclosed
    · exact .inr (hnext.of_clock ⟨hnext.mss, hnext.window⟩ rfl id)
  | ack a w _ ackOnly ece =>
    simp only [SendOp.times, pairwise_cons, mem_cons, not_mem_nil, or_false, forall_eq] at htimes
    exact .inr ((h.mono htimes.1).onAck hc hopen a w ackOnly ece)
  | sack blocks =>
    refine .inr (h.of_clock (h.toAlive.of_driven (driven_onSack b blocks)) ?_ ?_)
    all_goals
      rw [SendOp.apply, TcpSendBuffer.onSack]
      split
    · rfl
    · dsimp only
      split <;> rfl
    · exact id
    case isFalse hnot => exact fun _ hq => hnot (.inr (.inl (isEmpty_iff.2 hq)))
  | updateMss mss =>
    refine .inr (h.of_clock (h.toAlive.updateMss mss) ?_ ?_)
    · rw [SendOp.apply, TcpSendBuffer.updateMss]
      split <;> rfl
    · rw [SendOp.apply, congrArg SendQueues.retransmitQueue (updateMss_toSendQueues b mss)]
      exact id

variable {w : UInt32}

/-- With nothing in flight, the window is as large as the peer and the controller allow. -/
theorem Alive.usableWindow_pos (h : Alive b) (hflight : b.inFlightSequence = 0) (hw : w ≠ 0) :
    0 < b.usableWindow w := by
  have hcwnd : 1 ≤ (congestionWindow b.controller).toNat :=
    FlooredController.le_congestionWindow h.window
  have hw' : 0 < w.toNat := Nat.pos_of_ne_zero fun hzero => hw (UInt32.toNat_inj.1 hzero)
  rw [usableWindow, hflight, if_neg (Nat.not_lt_zero _)]
  split <;> omega

theorem Alive.newSegment_hasSegment (h : Alive b) (hflight : b.inFlightSequence = 0)
    (hroom : b.retransmitBytes < b.retransmitLimit)
    (hunsent : b.sendQueue ≠ [] ∨ b.finRequested ∧ b.finSent = false) (hw : w ≠ 0)
    (hgate : b.nextSendTimeMs ≤ n) : (b.newSegment w n).2.hasSegment := by
  have husable := h.usableWindow_pos hflight hw
  have hmss : b.mss.toNat ≠ 0 := fun hzero => h.mss (UInt16.toNat_inj.1 hzero)
  have hcan : b.canSendNew w := by
    rw [canSendNew, if_neg]
    · rcases hunsent with hqueue | ⟨hreq, hsent⟩
      · rw [isEmpty_eq_false_iff.2 hqueue]
        rfl
      · rw [hreq, hsent, Bool.not_false, Bool.true_and, Bool.or_true]
    · rintro (hzero | hzero | hfull)
      · exact hw hzero
      · omega
      · omega
  have hsome : ¬(b.newPayloadLength w = 0 ∧ b.newIncludesFin w = false) := by
    rintro ⟨hpayload, hfin⟩
    -- without a payload the queue is empty, so it is the FIN that is due
    have hqueue : b.sendQueue = [] := by
      rw [newPayloadLength] at hpayload
      exact eq_nil_of_length_eq_zero (by omega)
    obtain ⟨hreq, hsent⟩ := hunsent.resolve_left fun hne => hne hqueue
    have havailable : b.retransmitLimit - b.retransmitBytes ≠ 0 := by omega
    rw [newIncludesFin] at hfin
    simp [hreq, hsent, hpayload, husable.ne', havailable] at hfin
  rw [newSegment]
  rw [if_neg (by rw [hcan]; decide), if_neg (by omega), if_neg hsome]

/-- A buffer with nothing outstanding sends new data through an open window, once the
    pacing gate is open. -/
theorem Alive.nextSegment_hasSegment (h : Alive b) (hopen : b.closed = false)
    (hidle : b.pendingKind = .none) (hp : b.persistProbe = none) (hq : b.retransmitQueue = [])
    (hflight : b.inFlightSequence = 0) (hroom : b.retransmitBytes < b.retransmitLimit)
    (hunsent : b.sendQueue ≠ [] ∨ b.finRequested ∧ b.finSent = false) (hw : w ≠ 0)
    (hgate : b.nextSendTimeMs ≤ n) : (b.nextSegment w n).2.hasSegment := by
  have hnoted : SameStream (b.noted w) b ∧ (b.noted w).nextSendTimeMs = b.nextSendTimeMs := by
    rw [noted]
    split <;> exact ⟨⟨rfl, rfl, rfl⟩, rfl⟩
  obtain ⟨hsame, htime⟩ := hnoted
  have hp' : (b.noted w).cancelPersist.persistProbe = none :=
    (congrArg SendQueues.persistProbe hsame.queues).trans hp
  have hq' : (b.noted w).cancelPersist.retransmitQueue = [] :=
    (congrArg SendQueues.retransmitQueue hsame.queues).trans hq
  have hnext : b.nextSegment w n = (b.noted w).cancelPersist.newSegment w n := by
    have hnot : ¬(b.closed = true ∨ b.pendingKind ≠ .none) := by
      rw [hopen, hidle]
      decide
    have hopened : b.nextSegment w n = (b.noted w).openSegment w n := by
      rw [TcpSendBuffer.nextSegment, if_neg hnot]
      exact if_neg hw
    rw [hopened, TcpSendBuffer.openSegment]
    rw [hp']
    dsimp only
    rw [hq', isEmpty_nil, Bool.not_true, Bool.false_and, if_neg Bool.false_ne_true, hq']
  have halive : Alive (b.noted w).cancelPersist := h.of_driven (.of_same hsame.controller hsame.mss)
  rw [hnext]
  refine halive.newSegment_hasSegment ?_ ?_ ?_ hw ?_
  · exact (congrArg SendQueues.inFlightSequence hsame.queues).trans hflight
  · show (b.noted w).retransmitBytes < (b.noted w).retransmitLimit
    rwa [hsame.queues]
  · show (b.noted w).sendQueue ≠ [] ∨ (b.noted w).finRequested = true ∧ (b.noted w).finSent = false
    rwa [hsame.queues]
  · exact htime.trans_le hgate

/-- A buffer that is open does not stall: what is in flight is watched by a timer with a
    near deadline, the retransmission timeout is within its bounds, and with nothing
    outstanding, what is not sent yet is sent as soon as it may be. -/
structure NeverStalls (config : TcpSendConfig) (now : ℕ) (b : TcpSendBuffer κ) : Prop where
  watched : b.retransmitQueue ≠ [] → b.rtoRunning = true ∨ b.persistDeadlineMs ≠ 0
  rtoDeadline : b.retransmitQueue ≠ [] → b.rtoRunning = true →
    b.rtoDeadlineMs ≤ now + max config.maxRtoMs config.persistTimerMaxMs
  persistDeadline : b.retransmitQueue ≠ [] → b.persistDeadlineMs ≠ 0 →
    b.persistDeadlineMs ≤ now + max config.maxRtoMs config.persistTimerMaxMs
  timeout : config.minRtoMs ≤ b.rtoMs ∧ b.rtoMs ≤ config.maxRtoMs
  sends : b.retransmitQueue = [] → b.persistProbe = none →
    (b.sendQueue ≠ [] ∨ b.finRequested = true ∧ b.finSent = false) →
    ∀ w : UInt32, w ≠ 0 → ∀ n ≥ b.nextSendTimeMs, (b.nextSegment w n).2.hasSegment = true

theorem Timely.neverStalls (hc : config.Usable) (h : Timely config now b) {isn : UInt32}
    {fin : Bool} {stream : Bytes} {u : ℕ} (hopen : b.closed = false) (hidle : b.pendingKind = .none)
    (hcarries : Carries False isn config.retransmitQueueLimit fin stream u b.toSendQueues) :
    NeverStalls config now b where
  watched := h.watched
  rtoDeadline _ hr := (h.bounds.rtoDeadline hr).trans
    (Nat.add_le_add_left (le_max_left ..) now)
  persistDeadline _ _ := h.bounds.persistDeadline.trans
    (Nat.add_le_add_left (le_max_right ..) now)
  timeout := ⟨h.bounds.rto_ge, h.bounds.rto_le⟩
  sends hq hp hunsent w hw n hgate := by
    have hflight : b.inFlightSequence = 0 := by
      rw [hcarries.inFlight, hq]
      rfl
    have hbytes : b.retransmitBytes = 0 := by
      have hflight' := hcarries.inFlight_eq hp
      omega
    refine h.toAlive.nextSegment_hasSegment hopen hidle hp hq hflight ?_ hunsent hw hgate
    rw [hbytes, hcarries.capacity]
    exact hc.limit

variable [LawfulController κ] {isn : UInt32}

theorem SendRun.timely_foldl (hc : config.Usable) {s : SendRun κ}
    (hinv : s.Inv False isn config.retransmitQueueLimit)
    (h : s.buffer.closed ∨ Timely config now s.buffer) (ops : List SendOp)
    (htimes : (now :: ops.flatMap SendOp.times).Pairwise (· ≤ ·)) :
    (ops.foldl step s).Inv False isn config.retransmitQueueLimit ∧
      ((ops.foldl step s).buffer.closed ∨
        Timely config ((ops.flatMap SendOp.times).getLastD now) (ops.foldl step s).buffer) := by
  induction ops generalizing s now with
  | nil => exact ⟨hinv, h⟩
  | cons op _ ih =>
    obtain ⟨hfirst, hrest, hlast⟩ := pairwise_times htimes
    rw [hlast]
    refine ih (inv_step hinv op False.elim) ?_ hrest
    rcases h with hclosed | h
    · exact .inl (SendOp.apply_closed hclosed hinv.idle op)
    · rcases hinv.carries with hclosed | ⟨hcarries, -, -⟩
      · exact .inl (SendOp.apply_closed hclosed hinv.idle op)
      · cases hopen : s.buffer.closed with
        | true => exact .inl (SendOp.apply_closed hopen hinv.idle op)
        | false => exact h.apply hc hopen hinv.idle hcarries.alone op hfirst

/-- For any controller that keeps its window open. -/
theorem SendRun.neverStalls_foldl (hc : config.Usable) {make : UInt16 → κ}
    (hshut : LawfulController.Shut (make 0))
    (hopens : FlooredController.AtLeast 1 (make config.initialMss)) (ops : List SendOp)
    (htimes : (ops.flatMap SendOp.times).Pairwise (· ≤ ·))
    (hopen : (ops.foldl step (.start isn config make)).buffer.closed = false) :
    NeverStalls config ((ops.flatMap SendOp.times).getLastD 0)
      (ops.foldl step (.start isn config make)).buffer := by
  have htimes' : (0 :: ops.flatMap SendOp.times).Pairwise (· ≤ ·) :=
    pairwise_cons.2 ⟨fun n _ => Nat.zero_le n, htimes⟩
  have hstart : (start isn config make).Inv False isn config.retransmitQueueLimit :=
    sound_new config make hshut
  obtain ⟨hinv, hclosed | htimely⟩ :=
    timely_foldl hc hstart (.inr (timely_new hc isn hopens)) ops htimes'
  · simp [hopen] at hclosed
  · rcases hinv.carries with hclosed | ⟨hcarries, -, -⟩
    · simp [hopen] at hclosed
    · exact htimely.neverStalls hc hopen hinv.idle hcarries

end

/-- In every run of a buffer with a valid configuration and one of the controllers AIMD, BBR and
    hybrid, at times that do not go back: as long as the buffer is open, it does not stall. -/
theorem never_stalls (isn : UInt32) (config : TcpSendConfig) (windowScale : UInt8)
    (hvalid : config.validate windowScale = true) (hrto : config.maxRtoMs ≤ maxUint64)
    (hpersist : config.persistTimerMaxMs ≤ maxUint64) (ops : List SendOp)
    (htimes : (ops.flatMap SendOp.times).Pairwise (· ≤ ·)) :
    let now := (ops.flatMap SendOp.times).getLastD 0
    let aimd := (ops.foldl SendRun.step (.start isn config AimdController.new)).buffer
    let bbr := (ops.foldl SendRun.step (.start isn config BbrController.new)).buffer
    let hybrid := (ops.foldl SendRun.step (.start isn config HybridBdpAimdController.new)).buffer
    (aimd.closed = false → NeverStalls config now aimd) ∧
      (bbr.closed = false → NeverStalls config now bbr) ∧
      (hybrid.closed = false → NeverStalls config now hybrid) := by
  intro now aimd bbr hybrid
  have hc := TcpSendConfig.usable hvalid hrto hpersist
  have hone : 1 ≤ config.initialMss.toNat :=
    Nat.pos_of_ne_zero fun hzero => hc.mss (UInt16.toNat_inj.1 hzero)
  refine ⟨fun hopen => ?_, fun hopen => ?_, fun hopen => ?_⟩
  · refine SendRun.neverStalls_foldl hc AimdController.shut_new ?_ ops htimes hopen
    exact (AimdController.floored_new config.initialMss).mono hone
  · refine SendRun.neverStalls_foldl hc BbrController.shut_new ?_ ops htimes hopen
    obtain ⟨hmss, hcwnd⟩ := BbrController.floored_new config.initialMss
    exact ⟨hone.trans hmss, hone.trans hcwnd⟩
  · refine SendRun.neverStalls_foldl hc HybridBdpAimdController.shut_new ?_ ops htimes hopen
    exact (HybridBdpAimdController.floored_new config.initialMss).mono hone

/-- Three bytes are sent, and the peer then closes its window. -/
theorem never_stalls_closed_window :
    let ops := [SendOp.enqueue [1, 2, 3], .transmit 1000 5 (some [1, 2, 3]) 0 5,
      .ack 0 0 7 true false]
    let aimd := (ops.foldl SendRun.step (.start 0 {} AimdController.new)).buffer
    aimd.closed = false ∧ aimd.retransmitQueue ≠ [] ∧ aimd.persistDeadlineMs = 507 ∧
      NeverStalls {} 7 aimd := by
  intro ops aimd
  exact ⟨by decide, by decide, by decide,
    (never_stalls 0 {} 0 (by decide) (by decide) (by decide) ops (by decide)).1 (by decide)⟩

end Netstack2
