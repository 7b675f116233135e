import Netstack2.Tcp.Send

/-!
# What the send buffer's operations leave alone

Most operations of the send buffer only set timers, or feed the controller:
they keep its queues (`toSendQueues`). So does `nextSegment`, unless it closes the
buffer; its `Choice` is to send nothing, to send the first outstanding record again,
or to send what comes next in the send queue.
-/

namespace Netstack2

open CongestionController

/-- What is asked for, what is counted, and the limits of the retries. -/
structure Marks where
  dupAckCount : ℕ
  fastRetransmitPending : Bool
  maxRetransmissions : ℕ
  maxPersistProbes : ℕ
  ecnCwrQueued : Bool

def SendTimers.marks (t : SendTimers) : Marks where
  dupAckCount := t.dupAckCount
  fastRetransmitPending := t.fastRetransmitPending
  maxRetransmissions := t.maxRetransmissions
  maxPersistProbes := t.maxPersistProbes
  ecnCwrQueued := t.ecnCwrQueued

namespace TcpSendBuffer

variable {κ : Type} (b : TcpSendBuffer κ) {b' : TcpSendBuffer κ} (n : ℕ)

/-! ## Timers -/

/-- Two buffers differ in their timers and the pending segment only. -/
structure SameStream (b' b : TcpSendBuffer κ) : Prop where
  queues : b'.toSendQueues = b.toSendQueues
  controller : b'.controller = b.controller
  mss : b'.mss = b.mss

/-- Two buffers differ in their timers only, and not in their marks. -/
structure TimersOnly (b' b : TcpSendBuffer κ) : Prop extends SameStream b' b where
  pending : b'.toPendingSegment = b.toPendingSegment
  marks : b'.marks = b.marks

theorem SameStream.trans {b'' b : TcpSendBuffer κ} (h : SameStream b'' b') (h' : SameStream b' b) :
    SameStream b'' b :=
  ⟨h.queues.trans h'.queues, h.controller.trans h'.controller, h.mss.trans h'.mss⟩

theorem TimersOnly.trans {b'' b : TcpSendBuffer κ} (h : TimersOnly b'' b') (h' : TimersOnly b' b) :
    TimersOnly b'' b :=
  ⟨h.toSameStream.trans h'.toSameStream, h.pending.trans h'.pending, h.marks.trans h'.marks⟩

theorem TimersOnly.pendingKind {b : TcpSendBuffer κ} (h : TimersOnly b' b) :
    b'.pendingKind = b.pendingKind := congrArg PendingSegment.pendingKind h.pending

/-- For an operation that sets timers, by computation. -/
theorem timersOnly_of_marks {t : SendTimers} {s : DeliveryRateSampler} (h : t.marks = b.marks) :
    TimersOnly { b with toSendTimers := t, sampler := s } b := ⟨⟨rfl, rfl, rfl⟩, rfl, h⟩

theorem armPersistTimer_timersOnly : TimersOnly (b.armPersistTimer n) b := by
  unfold armPersistTimer; split <;> exact b.timersOnly_of_marks rfl

theorem armRto_timersOnly : TimersOnly (b.armRto n) b := by
  unfold armRto; split <;> exact b.timersOnly_of_marks rfl

theorem cancelPersist_timersOnly : TimersOnly b.cancelPersist b := b.timersOnly_of_marks rfl

theorem restartPersist_timersOnly : TimersOnly b.restartPersist b := b.timersOnly_of_marks rfl

theorem backoffRto_timersOnly : TimersOnly b.backoffRto b := by
  unfold backoffRto; split <;> exact b.timersOnly_of_marks rfl

/-- A fast retransmission may be asked for. -/
theorem rearm_timersOnly (w : AckWalk) (p : UInt32) (n : ℕ) :
    ∃ fast, TimersOnly (b.rearm w p n) { b with fastRetransmitPending := fast } := by
  -- the first two stages set the retransmission timer, the last the persist timer
  have hpersist : ∀ c : TcpSendBuffer κ, TimersOnly
      (if p = 0 then
        if c.restartPersist.hasWork then c.restartPersist.armPersistTimer n
        else c.restartPersist.cancelPersist
      else c.cancelPersist) c := by
    intro c
    split_ifs
    · exact (armPersistTimer_timersOnly _ n).trans (restartPersist_timersOnly c)
    · exact (cancelPersist_timersOnly _).trans (restartPersist_timersOnly c)
    · exact cancelPersist_timersOnly c
  have hrto : TimersOnly (if b.retransmitQueue.isEmpty then
      { b with rtoRunning := false, rtoDeadlineMs := 0 }
      else if p ≠ 0 then b.armRto n else b) b := by
    split_ifs
    · exact b.timersOnly_of_marks rfl
    · exact armRto_timersOnly b n
    · exact b.timersOnly_of_marks rfl
  rw [rearm]
  dsimp only
  generalize (if b.retransmitQueue.isEmpty then { b with rtoRunning := false, rtoDeadlineMs := 0 }
    else if p ≠ 0 then b.armRto n else b) = c at hrto ⊢
  refine ⟨if w.partialRtoRecovery && p != 0 && !c.retransmitQueue.isEmpty then true
    else b.fastRetransmitPending, (hpersist _).trans ?_⟩
  split
  · exact ⟨⟨hrto.queues, hrto.controller, hrto.mss⟩, hrto.pending,
      congrArg (fun m : Marks => { m with fastRetransmitPending := true }) hrto.marks⟩
  · exact hrto

theorem rearm_sameStream (w : AckWalk) (p : UInt32) (n : ℕ) : SameStream (b.rearm w p n) b := by
  obtain ⟨_, h⟩ := rearm_timersOnly b w p n
  exact ⟨h.queues, h.controller, h.mss⟩

theorem sampleRtt_timersOnly (w : AckWalk) : TimersOnly (b.sampleRtt w) b := by
  unfold sampleRtt
  split
  · split <;> exact b.timersOnly_of_marks rfl
  · exact b.timersOnly_of_marks rfl

theorem rearmDuplicate_timersOnly (p : UInt32) (n : ℕ) : TimersOnly (b.rearmDuplicate p n) b := by
  unfold rearmDuplicate
  dsimp only
  split_ifs
  · exact (armPersistTimer_timersOnly _ n).trans (restartPersist_timersOnly b)
  · exact (armRto_timersOnly _ n).trans (cancelPersist_timersOnly b)
  · exact cancelPersist_timersOnly b

/-! ## The choice of the next segment -/

/-- The first outstanding record: the first in flight, or else the probe. -/
def FirstRecord (q : SendQueues) (r : SendRecord) : Prop :=
  q.retransmitQueue.head? = some r ∨ q.persistProbe = some r

/-- The pending segment `p` is the next part of the send queue of `q`, with a FIN
    only if it is due and no byte is left. -/
structure TakesNext (q : SendQueues) (p : PendingSegment) (r : TcpSendNextResult) : Prop where
  noProbe : q.persistProbe = none
  fresh : r.isRetransmission = false
  sequence : r.sequence = q.sndNxt
  pendingSeq : p.pendingSeq = q.sndNxt
  pendingIsFin : p.pendingIsFin = r.isFin
  pendingLen : p.pendingLen = r.payload.length + (if r.isFin then 1 else 0)
  pos : 0 < p.pendingLen
  lt : p.pendingLen ≤ 2 ^ 16
  room : p.pendingLen ≤ q.retransmitLimit - q.retransmitBytes
  payload : r.payload <+: q.sendQueue
  fin : r.isFin = true → q.finRequested = true ∧ q.finSent = false ∧ r.payload = q.sendQueue

/-- What `nextSegment` may choose at the queues `q` and a peer window `w` that
    leaves `usable`: the pending segment and the result it returns. -/
inductive Choice (q : SendQueues) (w : UInt32) (usable : ℕ) :
    PendingSegment → TcpSendNextResult → Prop
  /-- Nothing is sent. -/
  | idle {p : PendingSegment} {r : TcpSendNextResult} :
    p.pendingKind = .none → p.pendingIsFin = false → r.hasSegment = false → Choice q w usable p r
  /-- A prefix of the first outstanding record is sent again, with its FIN only if all its bytes
      are; a probe joins the queue only if the window has room for it. -/
  | again {p : PendingSegment} {r : TcpSendNextResult} {record : SendRecord} :
    FirstRecord q record →
    p.pendingKind ∉ [.none, .newData, .persistNew] →
    (p.pendingKind = .persistPromote → record.logicalLength ≤ usable) →
    r.isRetransmission = true → r.sequence = record.seq → r.payload <+: record.data →
    (r.isFin = true → record.carriesFin = true ∧ r.payload = record.data) → Choice q w usable p r
  /-- New data is sent within the window. -/
  | newData {p : PendingSegment} {r : TcpSendNextResult} :
    p.pendingKind = .newData → p.pendingLen ≤ usable → TakesNext q p r → Choice q w usable p r
  /-- New data is sent as a probe of a closed window. -/
  | probe {p : PendingSegment} {r : TcpSendNextResult} :
    w = 0 → p.pendingKind = .persistNew → q.retransmitQueue = [] → TakesNext q p r →
    Choice q w usable p r

theorem Choice.takesNext {q : SendQueues} {w : UInt32} {usable : ℕ} {p : PendingSegment}
    {r : TcpSendNextResult} (h : Choice q w usable p r)
    (hk : p.pendingKind = .newData ∨ p.pendingKind = .persistNew) : TakesNext q p r := by
  cases h with
  | idle hkind => simp [hkind] at hk
  | again _ hkind => rcases hk with hk | hk <;> simp [hk] at hkind
  | newData _ _ hnext | probe _ _ _ hnext => exact hnext

theorem Choice.retransmitQueue_eq_nil {q : SendQueues} {w : UInt32} {usable : ℕ}
    {p : PendingSegment} {r : TcpSendNextResult} (h : Choice q w usable p r)
    (hk : p.pendingKind = .persistNew) : q.retransmitQueue = [] := by
  cases h with
  | idle hkind => simp [hkind] at hk
  | again _ hkind => simp [hk] at hkind
  | newData hkind => simp [hkind] at hk
  | probe _ _ hempty => exact hempty

/-- The buffer closes, or keeps its queues and its controller and makes a choice. -/
def Chooses (b : TcpSendBuffer κ) (w : UInt32) (usable : ℕ)
    (x : TcpSendBuffer κ × TcpSendNextResult) : Prop :=
  (x.1.closed = true ∧ x.2.hasSegment = false ∧ x.1.pendingKind = .none) ∨
    (SameStream x.1 b ∧ Choice b.toSendQueues w usable x.1.toPendingSegment x.2)

section

variable {b}

theorem Chooses.of_sameStream {b' : TcpSendBuffer κ} {w : UInt32} {u : ℕ}
    {x : TcpSendBuffer κ × TcpSendNextResult} (h : SameStream b' b) (hx : Chooses b' w u x) :
    Chooses b w u x := by
  rcases hx with hc | ⟨hs, hx⟩
  · exact .inl hc
  · rw [h.queues] at hx
    exact .inr ⟨hs.trans h, hx⟩

end

variable [CongestionController κ]

/-! ## The controller -/

theorem afterNewRecord_timersOnly : TimersOnly (b.afterNewRecord n) b := by
  have hrto : TimersOnly (if b.rtoRunning then b else b.armRto n) b := by
    split
    · exact b.timersOnly_of_marks rfl
    · exact armRto_timersOnly b n
  unfold afterNewRecord
  generalize (if b.rtoRunning then b else b.armRto n) = c at hrto ⊢
  dsimp only
  split_ifs <;> exact ⟨⟨hrto.queues, hrto.controller, hrto.mss⟩, hrto.pending, hrto.marks⟩

@[simp] theorem onEce_toSendQueues (e : Bool) : (b.onEce e).toSendQueues = b.toSendQueues := by
  unfold onEce; split <;> rfl

@[simp] theorem updateMss_toSendQueues (m : UInt16) :
    (b.updateMss m).toSendQueues = b.toSendQueues := by
  unfold updateMss; split <;> rfl

@[simp] theorem feedController_toSendQueues (w : AckWalk) (n : ℕ) :
    (b.feedController w n).toSendQueues = b.toSendQueues := by
  unfold feedController
  dsimp only
  split <;> rfl

theorem feedController_keeps (w : AckWalk) (n : ℕ) :
    (b.feedController w n).toPendingSegment = b.toPendingSegment ∧
      (b.feedController w n).mss = b.mss := by
  rw [feedController]
  dsimp only
  split <;> exact ⟨rfl, rfl⟩

/-- An acknowledgment leaves the pending segment and the segment size alone. -/
theorem onAck_keeps (a w : UInt32) (n : ℕ) (ackOnly ece : Bool) :
    (b.onAck a w n ackOnly ece).1.toPendingSegment = b.toPendingSegment ∧
      (b.onAck a w n ackOnly ece).1.mss = b.mss := by
  have hece : (b.onEce ece).toPendingSegment = b.toPendingSegment ∧
      (b.onEce ece).mss = b.mss := by
    rw [onEce]
    split <;> exact ⟨rfl, rfl⟩
  rw [onAck]
  split
  case isTrue => exact ⟨rfl, rfl⟩
  split
  case isTrue => exact ⟨rfl, rfl⟩
  case isFalse =>
    dsimp only
    split
    case isTrue =>
      exact ⟨(rearmDuplicate_timersOnly _ w n).pending.trans hece.1,
        (rearmDuplicate_timersOnly _ w n).mss.trans hece.2⟩
    case isFalse =>
      obtain ⟨_, hrearm⟩ := rearm_timersOnly (((b.onEce ece).acknowledge a w n).sampleRtt
        ((b.onEce ece).walk a n).1 |>.feedController ((b.onEce ece).walk a n).1 n)
        ((b.onEce ece).walk a n).1 w n
      exact ⟨hrearm.pending.trans ((feedController_keeps ..).1.trans
          ((sampleRtt_timersOnly ..).pending.trans hece.1)),
        hrearm.mss.trans ((feedController_keeps ..).2.trans
          ((sampleRtt_timersOnly ..).mss.trans hece.2))⟩

theorem onAck_pending (a w : UInt32) (n : ℕ) (ackOnly ece : Bool) :
    (b.onAck a w n ackOnly ece).1.toPendingSegment = b.toPendingSegment :=
  (b.onAck_keeps a w n ackOnly ece).1

@[simp] theorem onDuplicateAck_toSendQueues (p : UInt32) (n : ℕ) (a : Bool) :
    (b.onDuplicateAck p n a).1.toSendQueues = b.toSendQueues :=
  (rearmDuplicate_timersOnly _ p n).queues

variable {b}

/-! ## The usable window -/

/-- A buffer without a segment size has no window. -/
def ShutsWindow (b : TcpSendBuffer κ) : Prop := b.mss = 0 → congestionWindow b.controller = 0

variable {w : UInt32}

/-- Where an open window ends, in sequence numbers from `sndUna` on: what is
    selectively acknowledged comes on top of the smaller of the two windows. -/
theorem inFlight_add_usableWindow (h : 0 < b.usableWindow w) :
    b.inFlightSequence + b.usableWindow w =
      min w.toNat (congestionWindow b.controller).toNat +
        min b.inFlightSequence b.sackedSequence := by
  unfold usableWindow at h ⊢
  dsimp only at h ⊢
  split_ifs at h ⊢ <;> omega

theorem usableWindow_eq_zero (h : congestionWindow b.controller = 0) : b.usableWindow w = 0 := by
  simp [usableWindow, h]

theorem newIncludesFin_spec (hs : b.ShutsWindow) (h : b.newIncludesFin w) :
    b.finRequested ∧ b.finSent = false ∧ b.newPayloadLength w < b.usableWindow w ∧
      b.newPayloadLength w < b.retransmitLimit - b.retransmitBytes ∧
      b.newPayloadLength w = b.sendQueue.length := by
  unfold newIncludesFin at h
  simp only [Bool.and_eq_true, Bool.not_eq_true'] at h
  obtain ⟨⟨hreq, hsent⟩, h⟩ := h
  refine ⟨hreq, hsent, ?_⟩
  split_ifs at h with hn
  · simp only [Bool.and_eq_true, beq_iff_eq, decide_eq_true_eq] at h
    exact ⟨h.1.2, h.2, h.1.1⟩
  · -- without a payload the queue is empty, since the segment size is not zero
    simp only [Bool.and_eq_true, bne_iff_ne, ne_eq] at h
    have hmss : b.mss.toNat ≠ 0 := fun hm => h.1 (usableWindow_eq_zero (hs (UInt16.toNat_inj.1 hm)))
    unfold newPayloadLength at hn ⊢
    omega

/-- The sequence numbers of a segment of new data fit everywhere. -/
theorem newLength_le (hs : b.ShutsWindow) :
    b.newPayloadLength w + (if b.newIncludesFin w then 1 else 0) ≤ b.usableWindow w ∧
      b.newPayloadLength w + (if b.newIncludesFin w then 1 else 0) ≤
        b.retransmitLimit - b.retransmitBytes ∧
      b.newPayloadLength w ≤ b.sendQueue.length ∧ b.newPayloadLength w ≤ b.mss.toNat := by
  have hlen : b.newPayloadLength w ≤ b.sendQueue.length ∧ b.newPayloadLength w ≤ b.mss.toNat ∧
      b.newPayloadLength w ≤ b.usableWindow w ∧
      b.newPayloadLength w ≤ b.retransmitLimit - b.retransmitBytes := by
    unfold newPayloadLength
    omega
  split
  case isTrue h =>
    have := newIncludesFin_spec hs h
    omega
  case isFalse => omega

theorem SameStream.usableWindow (h : SameStream b' b) (w : UInt32) :
    b'.usableWindow w = b.usableWindow w := by
  have hi := congrArg SendQueues.inFlightSequence h.queues
  have hs := congrArg SendQueues.sackedSequence h.queues
  unfold TcpSendBuffer.usableWindow
  rw [hi, hs, h.controller]

theorem SameStream.shutsWindow (h : SameStream b' b) (hs : b.ShutsWindow) : b'.ShutsWindow := by
  unfold ShutsWindow
  rw [h.mss, h.controller]
  exact hs

theorem nextSegment_closed (hc : b.closed) (w : UInt32) (n : ℕ) :
    b.nextSegment w n = (b, {}) := if_pos (.inl hc)

theorem onSent_pendingKind (b : TcpSendBuffer κ) (owner : Option Bytes) (offset n : ℕ) :
    (b.onSent owner offset n).pendingKind = .none := by
  unfold onSent
  split
  case isTrue hk => exact hk
  case isFalse => rfl

end TcpSendBuffer

end Netstack2
