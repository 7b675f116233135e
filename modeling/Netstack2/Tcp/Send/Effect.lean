import Netstack2.Tcp.Send.Account

/-!
# What an operation does to the records

The results on retransmissions and samples need two views of a send buffer:

* its `marks`: what is asked for (a fast retransmission, a CWR), what is counted and
  the limits of the retries. The timers do not touch them;
* the `origins` of its outstanding records, oldest first: the timeouts of a record,
  and what was noted when it was first sent. An acknowledgment drops origins from the
  front, new data adds one at the end, and a retransmission changes the first one.

For every operation there is one lemma on each. What `nextSegment` and `onSent` do
depends on the kind of the segment that is sent (`SendOp.sends`).
-/

namespace Netstack2

open CongestionController TcpSendBuffer SendRecord

/-! ## Marks -/

/-- A segment of this kind serves the request for a fast retransmission. -/
def PendingKind.servesFast : PendingKind → Bool
  | .rtoRetransmit | .fastRetransmit => true
  | _ => false

/-- A segment of this kind is new: what it carries was not sent before. -/
def PendingKind.isNew : PendingKind → Bool
  | .newData | .persistNew => true
  | _ => false

/-- The marks after a segment of some kind was sent: it carries the CWR that is owed, and a
    retransmission is the one asked for. -/
def Marks.sent (t : Marks) (kind : PendingKind) : Marks :=
  { t with
    fastRetransmitPending := t.fastRetransmitPending && !kind.servesFast
    ecnCwrQueued := t.ecnCwrQueued && kind == .none }

/-! ## Origins -/

/-- The timeouts of a record, and what was noted when it was first sent. -/
def SendRecord.origin (r : SendRecord) : ℕ × PacketDeliveryState := (r.rtoAttempts, r.delivery)

/-- The origins of the outstanding records. -/
def SendQueues.origins (q : SendQueues) : List (ℕ × PacketDeliveryState) :=
  (q.retransmitQueue ++ q.persistProbe.toList).map SendRecord.origin

/-- The origins after a segment of some kind was sent; `d` is noted for a new one. -/
def PendingKind.origins (d : PacketDeliveryState) (os : List (ℕ × PacketDeliveryState)) :
    PendingKind → List (ℕ × PacketDeliveryState)
  | .newData | .persistNew => os ++ [(0, d)]
  | .rtoRetransmit => os.modifyHead fun o => (o.1 + 1, o.2)
  | .fastRetransmit => os.modifyHead fun o => (o.1, { o.2 with retransmitted := true })
  | _ => os

/-- What is noted for a segment that is sent for the first time at the time `m`. -/
def TcpSendBuffer.stamp {κ : Type} (b : TcpSendBuffer κ) (m : ℕ) (limited : Bool) :
    PacketDeliveryState :=
  { b.sampler.onPacketSent {} m with appLimited := limited }

namespace TcpSendBuffer

section Timers

variable {κ : Type} (b : TcpSendBuffer κ) (n : ℕ)

theorem probed_marks (kind : PendingKind) (x : TcpSendBuffer κ × Bool) :
    (probed kind n x).marks = x.1.marks := by
  rw [probed]
  split <;> rfl

theorem finishSent_marks (kind : PendingKind) (x : TcpSendBuffer κ × Bool) :
    (finishSent kind n x).marks =
      { x.1.marks with ecnCwrQueued := x.1.ecnCwrQueued && !(x.2 && x.1.pendingSetCwr) } := by
  rw [finishSent_toSendTimers, ← probed_marks n kind x]
  rfl

end Timers

variable {κ : Type} {b : TcpSendBuffer κ} {m : ℕ} {p : PendingSegment} {r : TcpSendNextResult}

/-! ## Sending -/

/-- The buffer has closed, and nothing is asked for any more. -/
structure GaveUp (b : TcpSendBuffer κ) : Prop where
  closed : b.closed = true
  fastRetransmitPending : b.fastRetransmitPending = false
  ecnCwrQueued : b.ecnCwrQueued = false
  origins : b.origins = []

theorem gaveUp_close [CongestionController κ] (b : TcpSendBuffer κ) : GaveUp b.close :=
  ⟨rfl, rfl, rfl, rfl⟩

/-- What committing a segment of some kind does, unless it closes the buffer. -/
structure Commits (b : TcpSendBuffer κ) (m : ℕ) (kind : PendingKind) (b' : TcpSendBuffer κ) :
    Prop where
  marks : b'.marks =
    { b.marks with fastRetransmitPending := b.fastRetransmitPending && !kind.servesFast }
  pending : b'.toPendingSegment = b.toPendingSegment
  origins : (kind.isNew = true → b.persistProbe = none) →
    ∃ limited, b'.origins = kind.origins (b.stamp m limited) b.origins
  retries : kind = .rtoRetransmit → ∀ o ∈ b.origins.head?, o.1 + 1 < b.maxRetransmissions
  probe : b'.persistProbe.isSome = true → b.persistProbe.isSome = true ∨ kind = .persistNew
  closed : b'.closed = b.closed

/-- The segment was refused, or there was none. -/
theorem Commits.nothing : Commits b m .none b where
  marks := by simp [SendTimers.marks, PendingKind.servesFast]
  pending := rfl
  origins _ := ⟨false, rfl⟩
  retries := nofun
  probe := .inl
  closed := rfl

theorem Commits.of_timersOnly {b' x : TcpSendBuffer κ} {kind : PendingKind}
    (h : Commits b m kind b') (hx : TimersOnly x b') : Commits b m kind x where
  marks := hx.marks.trans h.marks
  pending := hx.pending.trans h.pending
  origins hnew := by
    rw [congrArg SendQueues.origins hx.queues]
    exact h.origins hnew
  retries := h.retries
  probe hsome := by
    rw [congrArg SendQueues.persistProbe hx.queues] at hsome
    exact h.probe hsome
  closed := (congrArg SendQueues.closed hx.queues).trans h.closed

variable [CongestionController κ]

theorem Stores.commits {b' : TcpSendBuffer κ} {owner : Option Bytes} {offset : ℕ}
    {kind : PendingKind} (h : Stores b owner offset m kind b')
    (hretry : kind = .rtoRetransmit → ∀ r ∈ b.retransmitQueue.head?,
      r.rtoAttempts + 1 < b.maxRetransmissions) : Commits b m kind b' := by
  cases h with
  | refused => exact .nothing
  | @newData data =>
    refine ⟨?_, rfl, fun hprobe => ⟨(b.newRecord data m).delivery.appLimited, ?_⟩, by simp, .inl,
      rfl⟩
    · simp [PendingKind.servesFast, SendTimers.marks, takePending]
    · simp [SendQueues.origins, takePending, hprobe rfl, PendingKind.origins, origin,
        newRecord, pendingRecord, stamp]
  | persistNew =>
    refine ⟨?_, rfl, fun hprobe => ⟨b.sampler.appLimited, ?_⟩, by simp, fun _ => .inr rfl, rfl⟩
    · simp [PendingKind.servesFast, SendTimers.marks, takePending]
    · simp [SendQueues.origins, takePending, hprobe rfl, PendingKind.origins, origin,
        pendingRecord, stamp, DeliveryRateSampler.onPacketSent]
  | persistPromote _ hp =>
    refine ⟨?_, rfl, fun _ => ⟨false, ?_⟩, by simp, by simp, rfl⟩
    · simp [PendingKind.servesFast, SendTimers.marks]
    · -- the probe moves to the end of the queue, which is its place already
      simp [SendQueues.origins, hp, PendingKind.origins, origin]
  | persistRetry _ hp =>
    refine ⟨?_, rfl, fun _ => ⟨false, ?_⟩, by simp, fun _ => .inl (by simp [hp]), rfl⟩
    · simp [PendingKind.servesFast, SendTimers.marks]
    · simp [SendQueues.origins, hp, PendingKind.origins, origin]
  | persistExisting _ hq | fastRetransmit _ hq =>
    refine ⟨?_, rfl, fun _ => ⟨false, ?_⟩, by simp, .inl, rfl⟩
    · simp [PendingKind.servesFast, SendTimers.marks]
    · simp [SendQueues.origins, hq, PendingKind.origins, origin]
  | rtoRetransmit _ hq =>
    refine ⟨?_, rfl, fun _ => ⟨false, ?_⟩, fun _ => ?_, .inl, rfl⟩
    · simp [PendingKind.servesFast, SendTimers.marks]
    · simp [SendQueues.origins, hq, PendingKind.origins, origin]
    · simpa [SendQueues.origins, hq, origin] using hretry rfl

/-- Committing a segment closes the buffer, or changes it as its kind says. -/
theorem commit_commits (b : TcpSendBuffer κ) (owner : Option Bytes) (offset m : ℕ) :
    GaveUp (b.commit owner offset m).1 ∨
      Commits b m (b.committed owner offset m) (b.commit owner offset m).1 := by
  obtain ⟨b', hstores, ⟨htimers, hretry⟩ | ⟨-, b'', -, hclose⟩⟩ := commit_stored b owner offset m
  · exact .inr ((hstores.commits hretry).of_timersOnly htimers)
  · rw [hclose]
    exact .inl (gaveUp_close b'')

theorem Pick.pendingSetCwr {w : UInt32} {n : ℕ} (h : Pick b w n p r) :
    p.pendingSetCwr = b.pendingSetCwr := by
  cases h <;> rfl

/-- Something new is sent only without a probe. -/
theorem Pick.persistProbe_of_isNew {w : UInt32} {n : ℕ} (h : Pick b w n p r)
    (hidle : b.pendingKind = .none) (hnew : p.pendingKind.isNew) : b.persistProbe = none := by
  cases h with
  | idle => simp [hidle, PendingKind.isNew] at hnew
  | persistData _ hp | persistFin _ hp | newData _ hp => exact hp
  | persistRetry | persistExisting | persistPromote => cases hnew
  | retransmit _ _ _ hkind => rcases hkind with ⟨rfl, -⟩ | ⟨rfl, -⟩ <;> cases hnew

/-- A probe is sent only if probes are allowed. -/
theorem Pick.maxPersistProbes_pos {w : UInt32} {n : ℕ} (h : Pick b w n p r)
    (hidle : b.pendingKind = .none) (hprobe : p.pendingKind = .persistNew) :
    0 < b.maxPersistProbes := by
  cases h with
  | idle => simp [hidle] at hprobe
  | persistData _ _ _ hcount | persistFin _ _ _ hcount => exact Nat.zero_lt_of_lt hcount
  | persistRetry | persistExisting | persistPromote | newData => cases hprobe
  | retransmit _ _ _ hkind => rcases hkind with ⟨rfl, -⟩ | ⟨rfl, -⟩ <;> cases hprobe

/-- A fast retransmission is picked only if it was asked for. -/
theorem Pick.fastRetransmitPending {w : UInt32} {n : ℕ} (h : Pick b w n p r)
    (hidle : b.pendingKind = .none) (hfast : p.pendingKind = .fastRetransmit) :
    b.fastRetransmitPending := by
  cases h with
  | idle => simp [hidle] at hfast
  | persistRetry | persistExisting | persistData | persistFin | persistPromote | newData =>
    cases hfast
  | retransmit _ _ _ hkind =>
    rcases hkind with ⟨-, hpending⟩ | ⟨rfl, -⟩
    · exact hpending
    · cases hfast

/-- What sending a segment of some kind does, unless it closes the buffer. -/
structure Sends (b : TcpSendBuffer κ) (m : ℕ) (kind : PendingKind) (b' : TcpSendBuffer κ) :
    Prop where
  marks : b'.marks = b.marks.sent kind
  origins : ∃ limited, b'.origins = kind.origins (b.stamp m limited) b.origins
  retries : kind = .rtoRetransmit → ∀ o ∈ b.origins.head?, o.1 + 1 < b.maxRetransmissions
  probe : b'.persistProbe.isSome = true → b.persistProbe.isSome = true ∨ kind = .persistNew
  closed : b'.closed = b.closed

omit [CongestionController κ] in
theorem Sends.nothing : Sends b m .none b where
  marks := by simp [SendTimers.marks, Marks.sent, PendingKind.servesFast]
  origins := ⟨false, rfl⟩
  retries := nofun
  probe := .inl
  closed := rfl

theorem committed_of_ne {owner : Option Bytes} {offset : ℕ}
    (h : b.committed owner offset m ≠ .none) : b.committed owner offset m = b.pendingKind := by
  rw [committed] at h ⊢
  split at h
  case isTrue haccepted => rw [if_pos haccepted]
  case isFalse => exact absurd rfl h

omit [CongestionController κ] in
theorem GaveUp.finishSent {x : TcpSendBuffer κ × Bool} (h : GaveUp x.1) (kind : PendingKind)
    (m : ℕ) : GaveUp (finishSent kind m x) := by
  have hmarks := finishSent_marks m kind x
  have hqueues := (finishSent_keeps kind m x).1.queues
  refine ⟨(congrArg SendQueues.closed hqueues).trans h.closed,
    (congrArg Marks.fastRetransmitPending hmarks).trans h.fastRetransmitPending,
    (congrArg Marks.ecnCwrQueued hmarks).trans ?_,
    (congrArg SendQueues.origins hqueues).trans h.origins⟩
  rw [h.ecnCwrQueued, Bool.false_and]

theorem onSent_sends (hcwr : b.pendingSetCwr = b.ecnCwrQueued)
    (hprobe : b.pendingKind.isNew → b.persistProbe = none) (owner : Option Bytes) (offset m : ℕ) :
    GaveUp (b.onSent owner offset m) ∨
      Sends b m (b.committed owner offset m) (b.onSent owner offset m) := by
  by_cases hk : b.pendingKind = .none
  · have hsent : b.onSent owner offset m = b := if_pos hk
    rw [hsent, committed, hk, ite_self]
    exact .inr .nothing
  rw [onSent_eq owner offset m hk]
  have hkeeps := (finishSent_keeps b.pendingKind m (b.commit owner offset m)).1.queues
  rcases b.commit_commits owner offset m with hgaveUp | h
  · exact .inl (hgaveUp.finishSent b.pendingKind m)
  have hnew (hnew : (b.committed owner offset m).isNew = true) : b.persistProbe = none := by
    have hne : b.committed owner offset m ≠ .none := by
      intro hnone
      rw [hnone] at hnew
      cases hnew
    exact hprobe (committed_of_ne hne ▸ hnew)
  obtain ⟨limited, horigins⟩ := h.origins hnew
  refine .inr ⟨?_, ⟨limited, (congrArg SendQueues.origins hkeeps).trans horigins⟩, h.retries,
    fun hsome => h.probe ?_, (congrArg SendQueues.closed hkeeps).trans h.closed⟩
  · have hpending := (congrArg PendingSegment.pendingSetCwr h.pending).trans hcwr
    have hecn : (b.commit owner offset m).1.ecnCwrQueued = b.ecnCwrQueued :=
      congrArg Marks.ecnCwrQueued h.marks
    rw [finishSent_marks, hpending, hecn, h.marks, committed]
    cases (b.commit owner offset m).2
    · simp [SendTimers.marks, Marks.sent]
    · simp [SendTimers.marks, Marks.sent, hk]
  · rwa [congrArg SendQueues.persistProbe hkeeps] at hsome

end TcpSendBuffer

/-- The kind of the segment that the operation sends; none, if there is nothing to send
    or the buffer cannot account for it. -/
def SendOp.sends {κ : Type} [CongestionController κ] (b : TcpSendBuffer κ) : SendOp → PendingKind
  | transmit w n owner offset m => (b.nextSegment w n).1.committed owner offset m
  | _ => .none

namespace TcpSendBuffer

variable {κ : Type} [CongestionController κ] {b : TcpSendBuffer κ}

section

variable (hidle : b.pendingKind = .none)

include hidle

/-- Sending closes the buffer, or changes it as the kind of the segment says. -/
theorem transmit_sends (w : UInt32) (n : ℕ) (owner : Option Bytes) (offset m : ℕ) :
    b.closed = false ∧ GaveUp ((b.nextSegment w n).1.onSent owner offset m) ∨
      Sends b m ((SendOp.transmit w n owner offset m).sends b)
        ((b.nextSegment w n).1.onSent owner offset m) := by
  cases hopen : b.closed with
  | true =>
    have hsent : b.onSent owner offset m = b := if_pos hidle
    rw [SendOp.sends, nextSegment_closed hopen, hsent, committed, hidle, ite_self]
    exact .inr .nothing
  | false =>
    obtain ⟨hpolled, hsampler⟩ := polled_keeps b w n
    have hmarks := polled_marks b n w
    rcases nextSegment_pick hopen hidle w n with ⟨-, -, hclose⟩ | ⟨p, r, hpick, hnext⟩
    · have hsent : (b.polled w n).close.onSent owner offset m = (b.polled w n).close := if_pos rfl
      rw [hclose, hsent]
      exact .inl ⟨rfl, gaveUp_close _⟩
    rw [SendOp.sends, hnext]
    have hpending := polled_pending b n w
    have hkind : (b.polled w n).pendingKind = .none :=
      (congrArg PendingSegment.pendingKind hpending).trans hidle
    have hcwr : p.pendingSetCwr = (b.polled w n).ecnCwrQueued := by
      rw [hpick.pendingSetCwr, show (b.polled w n).ecnCwrQueued = b.ecnCwrQueued from
        congrArg Marks.ecnCwrQueued hmarks]
      exact congrArg PendingSegment.pendingSetCwr hpending
    rcases onSent_sends (b := { b.polled w n with toPendingSegment := p }) hcwr
      (hpick.persistProbe_of_isNew hkind) owner offset m with hgaveUp | h
    · exact .inl ⟨rfl, hgaveUp⟩
    -- what `nextSegment` does before it picks the segment does not matter
    obtain ⟨limited, horigins⟩ := h.origins
    have hstamp : (b.polled w n).stamp m limited = b.stamp m limited := by
      rw [stamp, hsampler, stamp]
    have hsame := congrArg SendQueues.origins hpolled.queues
    have hmax := congrArg Marks.maxRetransmissions hmarks
    refine .inr ⟨h.marks.trans (congrArg (Marks.sent · _) hmarks), ⟨limited, horigins.trans ?_⟩,
      fun hrto o ho => ?_, fun hsome => ?_,
      h.closed.trans (congrArg SendQueues.closed hpolled.queues)⟩
    · exact congrArg₂ (fun d os => PendingKind.origins d os _) hstamp hsame
    · rw [← hsame] at ho
      exact (h.retries hrto o ho).trans_eq hmax
    · have hprobe := h.probe hsome
      rwa [show _ = b.persistProbe from congrArg SendQueues.persistProbe hpolled.queues] at hprobe

/-- A segment that is sent was picked. -/
theorem pick_of_sends (op : SendOp) (h : op.sends b ≠ .none) :
    ∃ w n p r, Pick (b.polled w n) w n p r ∧ p.pendingKind = op.sends b := by
  cases op with
  | transmit w n =>
    rw [SendOp.sends] at h ⊢
    rw [committed_of_ne h]
    cases hopen : b.closed with
    | true =>
      rw [nextSegment_closed hopen] at h
      rw [committed, hidle, ite_self] at h
      exact absurd rfl h
    | false =>
      rcases nextSegment_pick hopen hidle w n with ⟨-, -, hclose⟩ | ⟨p, r, hpick, hnext⟩
      · rw [hclose, committed, show (b.polled w n).close.pendingKind = .none from rfl,
          ite_self] at h
        exact absurd rfl h
      · rw [hnext]
        exact ⟨w, n, p, r, hpick, rfl⟩
  | _ => exact absurd rfl h

omit [CongestionController κ] in
theorem polled_pendingKind (w : UInt32) (n : ℕ) : (b.polled w n).pendingKind = .none :=
  (congrArg PendingSegment.pendingKind (polled_pending b n w)).trans hidle

/-- A probe is sent only if probes are allowed. -/
theorem maxPersistProbes_pos_of_sends {op : SendOp} (h : op.sends b = .persistNew) :
    0 < b.maxPersistProbes := by
  obtain ⟨w, n, p, r, hpick, hkind⟩ := pick_of_sends hidle op (by rw [h]; nofun)
  exact (hpick.maxPersistProbes_pos (polled_pendingKind hidle w n) (hkind.trans h)).trans_eq
    (congrArg Marks.maxPersistProbes (polled_marks b n w))

/-- A fast retransmission is sent only if it was asked for. -/
theorem fastRetransmitPending_of_sends {op : SendOp} (h : op.sends b = .fastRetransmit) :
    b.fastRetransmitPending := by
  obtain ⟨w, n, p, r, hpick, hkind⟩ := pick_of_sends hidle op (by rw [h]; nofun)
  exact (congrArg Marks.fastRetransmitPending (polled_marks b n w)).symm.trans
    (hpick.fastRetransmitPending (polled_pendingKind hidle w n) (hkind.trans h))

end

/-! ## Acknowledgments -/

/-- The acknowledgment is neither old nor of something not sent. -/
def acceptable (b : TcpSendBuffer κ) (a : UInt32) : Bool :=
  !sequenceAfter a b.sndMax && !sequenceBefore a b.sndUna

/-- The duplicate acknowledgment counts. -/
def qualifies (b : TcpSendBuffer κ) (w : UInt32) (ackOnly : Bool) : Bool :=
  ackOnly && (!b.retransmitQueue.isEmpty || b.persistProbe.isSome) && w != 0 &&
    b.peerWindowValid && w == b.lastPeerWindow

/-- The duplicate acknowledgment is the third, and no recovery is on. -/
def thirdDuplicate (b : TcpSendBuffer κ) (w : UInt32) (ackOnly : Bool) : Bool :=
  b.qualifies w ackOnly && b.dupAckCount == 2 && !b.retransmitQueue.isEmpty &&
    !inFastRecovery b.controller

/-- The blocks leave three records selectively acknowledged, and no recovery is on. -/
def sacksThree (b : TcpSendBuffer κ) (blocks : List TcpSackBlock) : Bool :=
  !(blocks.isEmpty || b.retransmitQueue.isEmpty || b.closed) &&
    decide (3 ≤ (sackRecords blocks
      { sackedBytes := b.sackedBytes, sackedSequence := b.sackedSequence }
      b.retransmitQueue).1.sackedCount) && !inFastRecovery b.controller

section Acks

variable (b : TcpSendBuffer κ) (a w : UInt32) (n : ℕ) (ackOnly ece : Bool)

theorem onAck_of_not_acceptable (h : b.acceptable a = false) :
    (b.onAck a w n ackOnly ece).1 = b := by
  rw [acceptable, Bool.and_eq_false_iff, Bool.not_eq_false', Bool.not_eq_false'] at h
  rw [onAck]
  split
  · rfl
  · rw [if_pos (h.resolve_left ‹_›)]

theorem onAck_of_acceptable (h : b.acceptable a) :
    b.onAck a w n ackOnly ece =
      if a = b.sndUna then (b.onEce ece).onDuplicateAck w n ackOnly
      else (b.onEce ece).onNewAck a w n := by
  rw [acceptable, Bool.and_eq_true, Bool.not_eq_true', Bool.not_eq_true'] at h
  have hune : (b.onEce ece).sndUna = b.sndUna :=
    congrArg SendQueues.sndUna (onEce_toSendQueues b ece)
  rw [onAck, if_neg (by simp [h.1]), if_neg (by simp [h.2])]
  dsimp only
  rw [hune]

theorem onEce_marks :
    (b.onEce ece).marks = { b.marks with ecnCwrQueued := b.ecnCwrQueued || ece } := by
  rw [onEce]
  split
  case isTrue h =>
    rw [Bool.and_eq_true] at h
    simp [SendTimers.marks, h.1]
  case isFalse h => cases ece <;> simp_all [SendTimers.marks]

theorem onDuplicateAck_marks :
    (b.onDuplicateAck w n ackOnly).1.marks = { b.marks with
      dupAckCount := if b.qualifies w ackOnly then b.dupAckCount + 1 else 0
      fastRetransmitPending := b.fastRetransmitPending || b.thirdDuplicate w ackOnly } := by
  have hthird (q : Bool) (d : ℕ) : (q && (if q then d + 1 else 0) == 3) = (q && d == 2) := by
    cases q <;> simp
  rw [thirdDuplicate, ← hthird]
  exact (rearmDuplicate_timersOnly _ w n).marks

theorem feedController_marks (walk : AckWalk) : ∃ fast,
    (b.feedController walk n).marks = { b.marks with fastRetransmitPending := fast } := by
  rw [feedController]
  dsimp only
  split
  · exact ⟨false, rfl⟩
  · exact ⟨b.fastRetransmitPending, rfl⟩

theorem onNewAck_marks : ∃ fast,
    (b.onNewAck a w n).1.marks =
      { b.marks with dupAckCount := 0, fastRetransmitPending := fast } := by
  rw [onNewAck]
  obtain ⟨fast, hrearm⟩ := rearm_timersOnly
    ((((b.acknowledge a w n).sampleRtt (b.walk a n).1)).feedController (b.walk a n).1 n)
    (b.walk a n).1 w n
  obtain ⟨_, hfeed⟩ := feedController_marks ((b.acknowledge a w n).sampleRtt (b.walk a n).1) n
    (b.walk a n).1
  rw [(sampleRtt_timersOnly ..).marks] at hfeed
  exact ⟨fast, hrearm.marks.trans
    (congrArg (fun m : Marks => { m with fastRetransmitPending := fast }) hfeed)⟩

/-- An acknowledgment in range changes what is asked for, and counts an ECN echo. -/
theorem onAck_marks (h : b.acceptable a) : ∃ count fast,
    (b.onAck a w n ackOnly ece).1.marks =
      { b.marks with
        dupAckCount := count
        fastRetransmitPending := fast
        ecnCwrQueued := b.ecnCwrQueued || ece } := by
  rw [onAck_of_acceptable b a w n ackOnly ece h]
  split
  · exact ⟨_, _, by rw [onDuplicateAck_marks, onEce_marks]⟩
  · obtain ⟨fast, hmarks⟩ := onNewAck_marks (b.onEce ece) a w n
    exact ⟨0, fast, by rw [hmarks, onEce_marks]⟩

theorem onAck_closed : (b.onAck a w n ackOnly ece).1.closed = b.closed := by
  rcases onAck_cases b a w n ackOnly ece with ⟨-, hsame⟩ | ⟨-, -, hq⟩
  · exact congrArg SendQueues.closed hsame
  · exact (congrArg SendQueues.closed hq).trans rfl

theorem onSack_closed (blocks : List TcpSackBlock) : (b.onSack blocks).1.closed = b.closed := by
  rw [onSack]
  split
  · rfl
  · dsimp only
    split <;> rfl

theorem onSack_marks (blocks : List TcpSackBlock) :
    (b.onSack blocks).1.marks =
      { b.marks with
        fastRetransmitPending := b.fastRetransmitPending || b.sacksThree blocks } := by
  rw [onSack, sacksThree]
  split
  case isTrue h => rcases h with h | h | h <;> simp [h, SendTimers.marks]
  case isFalse h =>
    simp only [not_or, Bool.not_eq_true] at h
    obtain ⟨hblocks, hq, hopen⟩ := h
    -- the queue is as long as before
    have hmap := sackRecords_map (fun _ => ()) (fun _ => rfl) blocks
      { sackedBytes := b.sackedBytes, sackedSequence := b.sackedSequence } b.retransmitQueue
    generalize sackRecords blocks
      { sackedBytes := b.sackedBytes, sackedSequence := b.sackedSequence } b.retransmitQueue = x
      at hmap ⊢
    have hne : x.2 ≠ [] := by
      intro hnil
      rw [hnil] at hmap
      simp [List.map_eq_nil_iff.1 hmap.symm] at hq
    dsimp only
    split
    case isTrue h => simp [SendTimers.marks, hblocks, hq, hopen, h.1, h.2.1]
    case isFalse h =>
      have hno (hthree : 3 ≤ x.1.sackedCount) : inFastRecovery b.controller = true :=
        Bool.of_not_eq_false fun hout => h ⟨hthree, hout, hne⟩
      have hfalse : (decide (3 ≤ x.1.sackedCount) && !inFastRecovery b.controller) = false := by
        rw [Bool.and_eq_false_iff, decide_eq_false_iff_not, Bool.not_eq_false']
        exact Decidable.not_or_of_imp hno
      simp only [SendTimers.marks, Bool.and_assoc, hfalse, Bool.and_false, Bool.or_false]

end Acks

omit [CongestionController κ] in
/-- The records an acknowledgment leaves are the last ones; the one it ends inside of is
    trimmed, and has the origin it had. -/
theorem ackRecords_origins (n : ℕ) (w : AckWalk) (rs : List SendRecord) :
    (∃ k ≤ rs.length, (ackRecords n w rs).2.map origin = (rs.map origin).drop k) ∧
      ((ackRecords n w rs).1.remaining ≠ 0 → (ackRecords n w rs).2 = []) := by
  induction rs generalizing w with
  | nil => exact ⟨⟨0, Nat.le_refl 0, rfl⟩, fun _ => rfl⟩
  | cons _ _ ih =>
    rw [ackRecords]
    split
    case isTrue hzero => exact ⟨⟨0, Nat.zero_le _, rfl⟩, fun h => absurd hzero h⟩
    case isFalse =>
      dsimp only
      split
      case isTrue =>
        obtain ⟨⟨k, hle, hk⟩, hrest⟩ := ih _
        exact ⟨⟨k + 1, Nat.succ_le_succ hle, hk⟩, hrest⟩
      case isFalse hpart =>
        refine ⟨⟨0, Nat.zero_le _, rfl⟩, fun h => absurd ?_ h⟩
        -- the acknowledgment ends here
        simp only [AckWalk.trim, AckWalk.visit]
        omega

omit [CongestionController κ] in
theorem walk_origins (b : TcpSendBuffer κ) (a : UInt32) (n : ℕ) :
    ∃ k, ((b.walk a n).2.1 ++ (b.walk a n).2.2.toList).map origin =
      b.origins.drop k := by
  obtain ⟨⟨k, hle, hk⟩, hrest⟩ := ackRecords_origins n (b.startWalk a) b.retransmitQueue
  rw [walk_eq, SendQueues.origins]
  generalize ackRecords n (b.startWalk a) b.retransmitQueue = x at *
  rw [List.map_append, List.map_append]
  by_cases hzero : x.1.remaining = 0
  · refine ⟨k, ?_⟩
    have hprobe : (ackProbe x.1 b.persistProbe).2 = b.persistProbe := by
      cases b.persistProbe with
      | none => rfl
      | some => rw [ackProbe, if_pos hzero]
    rw [hprobe, hk, List.drop_append_of_le_length (by rwa [List.length_map])]
  · -- the queue is acknowledged, and perhaps the probe with it
    rw [hrest hzero]
    cases b.persistProbe with
    | none => exact ⟨b.retransmitQueue.length, by simp [ackProbe]⟩
    | some =>
      rw [ackProbe, if_neg hzero]
      dsimp only
      split
      case isTrue => exact ⟨b.retransmitQueue.length + 1, by simp⟩
      case isFalse => exact ⟨b.retransmitQueue.length, by simp [origin]⟩

/-- An acknowledgment drops origins from the front. -/
theorem onAck_origins (b : TcpSendBuffer κ) (a w : UInt32) (n : ℕ) (ackOnly ece : Bool) :
    ∃ k, (b.onAck a w n ackOnly ece).1.origins = b.origins.drop k := by
  rcases onAck_cases b a w n ackOnly ece with ⟨-, hsame⟩ | ⟨-, -, hq⟩
  · exact ⟨0, congrArg SendQueues.origins hsame⟩
  · rw [congrArg SendQueues.origins hq]
    exact walk_origins b a n

theorem onSack_origins (b : TcpSendBuffer κ) (blocks : List TcpSackBlock) :
    (b.onSack blocks).1.origins = b.origins := by
  have hmap (w : SackWalk) := sackRecords_map origin (fun _ => rfl) blocks w
    b.retransmitQueue
  rw [onSack]
  split
  · rfl
  · dsimp only
    split <;> simp [SendQueues.origins, hmap]

end TcpSendBuffer

/-! ## The other operations -/

namespace SendOp

variable {κ : Type} [CongestionController κ] {b : TcpSendBuffer κ}

/-- The operation neither sends nor receives anything. -/
def isQuiet : SendOp → Bool
  | transmit .. | ack .. | sack _ => false
  | _ => true

/-- An operation that is quiet closes the buffer, or leaves its records alone. -/
theorem apply_of_isQuiet (hidle : b.pendingKind = .none) {op : SendOp} (h : op.isQuiet) :
    b.closed = false ∧ GaveUp (op.apply b) ∨
      (op.apply b).marks = b.marks ∧ (op.apply b).origins = b.origins ∧
        (op.apply b).persistProbe = b.persistProbe ∧ (op.apply b).closed = b.closed := by
  cases op with
  | enqueue =>
    rw [apply, TcpSendBuffer.enqueue]
    split <;> exact .inr ⟨rfl, rfl, rfl, rfl⟩
  | requestFin =>
    rw [apply, TcpSendBuffer.requestFin]
    split <;> exact .inr ⟨rfl, rfl, rfl, rfl⟩
  | abandon w n =>
    rw [apply]
    cases hopen : b.closed with
    | true =>
      rw [nextSegment_closed hopen]
      exact .inr ⟨rfl, rfl, rfl, hopen⟩
    | false =>
      rcases nextSegment_pick hopen hidle w n with ⟨-, -, hclose⟩ | ⟨p, r, -, hnext⟩
      · rw [hclose]
        exact .inl ⟨rfl, rfl, rfl, rfl, rfl⟩
      · have hqueues := (polled_keeps b w n).1.queues
        rw [hnext]
        exact .inr ⟨polled_marks b n w, congrArg SendQueues.origins hqueues,
          congrArg SendQueues.persistProbe hqueues,
          (congrArg SendQueues.closed hqueues).trans hopen⟩
  | updateMss =>
    rw [apply, TcpSendBuffer.updateMss]
    split <;> exact .inr ⟨rfl, rfl, rfl, rfl⟩
  | transmit | ack | sack => cases h

/-- The buffer closes. -/
def closes (b : TcpSendBuffer κ) (op : SendOp) : Bool := !b.closed && (op.apply b).closed

theorem closes_of_gaveUp (op : SendOp) (h : b.closed = false ∧ GaveUp (op.apply b)) :
    op.closes b := by
  simp [closes, h.1, h.2.closed]

theorem closes_of_eq (op : SendOp) (h : (op.apply b).closed = b.closed) : op.closes b = false := by
  simp [closes, h]

theorem ack_closes (a w : UInt32) (n : ℕ) (ackOnly ece : Bool) :
    (ack a w n ackOnly ece).closes b = false :=
  closes_of_eq _ (onAck_closed b a w n ackOnly ece)

/-- No segment is pending between the operations. -/
theorem apply_pendingKind (hidle : b.pendingKind = .none) (op : SendOp) :
    (op.apply b).pendingKind = .none := by
  cases op with
  | enqueue =>
    rw [apply, TcpSendBuffer.enqueue]
    split <;> exact hidle
  | requestFin =>
    rw [apply, TcpSendBuffer.requestFin]
    split <;> exact hidle
  | transmit _ _ owner offset m => exact onSent_pendingKind _ owner offset m
  | abandon => rfl
  | ack a w n ackOnly ece =>
    exact (congrArg PendingSegment.pendingKind (b.onAck_pending a w n ackOnly ece)).trans hidle
  | sack =>
    rw [apply, onSack]
    split
    · exact hidle
    · dsimp only
      split <;> exact hidle
  | updateMss =>
    rw [apply, TcpSendBuffer.updateMss]
    split <;> exact hidle

end SendOp

end Netstack2
