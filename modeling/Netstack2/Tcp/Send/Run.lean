import Netstack2.Tcp.Send.Stream

/-!
# Runs of a send buffer

A run of a send buffer is any interleaving of its operations, where every
`nextSegment` is followed by `onSent` or given up with `resetPending`. The state
of a run (`SendRun`) is the buffer and what has happened so far: the bytes
`enqueue` has accepted, how far the acknowledgments have moved `sndUna`, and
whether `requestFin` was called.

Main results, for every congestion controller and every run:

* `segment_carries_stream`: every segment carries the bytes of the accepted
  stream at its sequence number, and a FIN only after the last of them;
* `new_segment_within_window`: new data ends within the peer window, as long as
  the window leaves room for the sequence numbers selectively acknowledged;
* `new_segment_beyond_window`: without that room it does not.
-/

namespace Netstack2

open List

open CongestionController LawfulController TcpSendBuffer

variable {κ : Type} [CongestionController κ]

/-- An operation on a send buffer. -/
inductive SendOp
  | enqueue (data : Bytes)
  | requestFin
  /-- `nextSegment`, then `onSent`. -/
  | transmit (peerWindow : UInt32) (nextMs : ℕ) (owner : Option Bytes) (offset sentMs : ℕ)
  /-- `nextSegment`, then `resetPending`. -/
  | abandon (peerWindow : UInt32) (nextMs : ℕ)
  | ack (acknowledgment peerWindow : UInt32) (nowMs : ℕ) (ackOnly ece : Bool)
  | sack (blocks : List TcpSackBlock)
  | updateMss (mss : UInt16)

namespace SendOp

/-- The buffer after the operation. -/
def apply (b : TcpSendBuffer κ) : SendOp → TcpSendBuffer κ
  | enqueue data => (b.enqueue data).1
  | requestFin => b.requestFin.1
  | transmit w n owner offset m => (b.nextSegment w n).1.onSent owner offset m
  | abandon w n => (b.nextSegment w n).1.resetPending
  | ack a w n ackOnly ece => (b.onAck a w n ackOnly ece).1
  | sack blocks => (b.onSack blocks).1
  | updateMss mss => b.updateMss mss

/-- The bytes the operation adds to the stream. -/
def takes (b : TcpSendBuffer κ) : SendOp → Bytes
  | enqueue data => b.accepted data
  | _ => []

/-- How far the operation moves `sndUna`. -/
def acks (b : TcpSendBuffer κ) : SendOp → ℕ
  | ack a w n ackOnly ece => ((b.onAck a w n ackOnly ece).1.sndUna - b.sndUna).toNat
  | _ => 0

/-- The operation asks for a FIN. -/
def asksFin : SendOp → Bool
  | requestFin => true
  | _ => false

/-- The payload of new data is retained in a buffer that holds a copy of it. -/
def Copies (b : TcpSendBuffer κ) : SendOp → Prop
  | transmit w n owner offset _ => Owns owner offset (b.nextSegment w n).2
  | _ => True

/-- The times of the calls of an operation. -/
def times : SendOp → List ℕ
  | .transmit _ nextMs _ _ sentMs => [nextMs, sentMs]
  | .abandon _ nextMs => [nextMs]
  | .ack _ _ nowMs _ _ => [nowMs]
  | _ => []

end SendOp

/-- Times that do not go back, split after the first operation. -/
theorem pairwise_times {now : ℕ} {op : SendOp} {ops : List SendOp}
    (h : (now :: (op :: ops).flatMap SendOp.times).Pairwise (· ≤ ·)) :
    (now :: op.times).Pairwise (· ≤ ·) ∧
      (op.times.getLastD now :: ops.flatMap SendOp.times).Pairwise (· ≤ ·) ∧
      ((op :: ops).flatMap SendOp.times).getLastD now =
        (ops.flatMap SendOp.times).getLastD (op.times.getLastD now) := by
  rw [flatMap_cons, ← cons_append] at h
  obtain ⟨hfirst, hrest, hacross⟩ := pairwise_append.1 h
  rw [flatMap_cons]
  refine ⟨hfirst, pairwise_cons.2 ⟨fun n hn => ?_, hrest⟩, ?_⟩
  · exact hacross _ getLastD_mem_cons n hn
  · simp only [getLastD_eq_getLast?, getLast?_append]
    cases (ops.flatMap SendOp.times).getLast? <;> rfl

/-- A send buffer, and what has happened to it. -/
structure SendRun (κ : Type) where
  buffer : TcpSendBuffer κ
  accepted : Bytes := []
  acked : ℕ := 0
  finCalled : Bool := false

namespace SendRun

/-- A run before its first operation. -/
def start (isn : UInt32) (config : TcpSendConfig) (make : UInt16 → κ) : SendRun κ :=
  { buffer := .new isn config make }

/-- One operation of a run. -/
def step (s : SendRun κ) (op : SendOp) : SendRun κ where
  buffer := op.apply s.buffer
  accepted := s.accepted ++ op.takes s.buffer
  acked := s.acked + op.acks s.buffer
  finCalled := s.finCalled || op.asksFin

/-- `s'` is reached from `s` by any operations; if `copied`, with owners that hold
    copies of the payloads. -/
def Reaches (copied : Prop) : SendRun κ → SendRun κ → Prop :=
  Runs fun s op s' => (copied → op.Copies s.buffer) ∧ s' = s.step op

/-- Without a condition on the owners, every list of operations is a run. -/
theorem reaches_foldl (s : SendRun κ) (ops : List SendOp) : Reaches False s (ops.foldl step s) := by
  induction ops generalizing s with
  | nil => exact .refl
  | cons op _ ih => exact .head ⟨op, False.elim, rfl⟩ (ih _)

end SendRun

/-! ## A buffer without a segment size -/

namespace TcpSendBuffer

variable {b : TcpSendBuffer κ}

omit [CongestionController κ] in
theorem walk_of_empty (a : UInt32) (n : ℕ) (hq : b.retransmitQueue = []) :
    (b.walk a n).2.1 = [] ∧ (b.walk a n).1.ackedRecordDelivery = none := by
  rw [walk_eq, hq, ackRecords]
  refine ⟨rfl, ?_⟩
  unfold ackProbe
  dsimp only
  split
  · rfl
  · split
    · rfl
    · split <;> rfl

/-- With nothing in flight, `commit` puts something there only for new data and a promoted probe. -/
theorem Stores.of_empty {owner : Option Bytes} {offset m : ℕ} {kind : PendingKind}
    {b' : TcpSendBuffer κ} (h : Stores b owner offset m kind b') (hq : b.retransmitQueue = [])
    (hk : b.pendingKind ∉ [.newData, .persistPromote]) :
    b'.controller = b.controller ∧ b'.retransmitQueue = [] := by
  cases h with
  | refused | persistNew | persistRetry => exact ⟨rfl, hq⟩
  | newData hkind | persistPromote hkind => simp [hkind] at hk
  | persistExisting _ hcons | rtoRetransmit _ hcons | fastRetransmit _ hcons => simp [hq] at hcons

theorem commit_of_empty (owner : Option Bytes) (offset n : ℕ) (hq : b.retransmitQueue = [])
    (hk : b.pendingKind ∉ [.newData, .persistPromote]) :
    (b.commit owner offset n).1.controller = b.controller ∧
      (b.commit owner offset n).1.retransmitQueue = [] := by
  obtain ⟨_, hstores, hb⟩ := commit_stored b owner offset n
  obtain ⟨hcontroller, hempty⟩ := hstores.of_empty hq hk
  obtain ⟨htimers, -⟩ | ⟨hne, -⟩ := hb
  · exact ⟨htimers.controller.trans hcontroller,
      (congrArg SendQueues.retransmitQueue htimers.queues).trans hempty⟩
  · exact absurd hq hne

theorem Stores.mss {owner : Option Bytes} {offset m : ℕ} {kind : PendingKind}
    {b' : TcpSendBuffer κ} (h : Stores b owner offset m kind b') : b'.mss = b.mss := by
  cases h <;> rfl

theorem commit_mss (b : TcpSendBuffer κ) (owner : Option Bytes) (offset n : ℕ) :
    (b.commit owner offset n).1.mss = b.mss := by
  obtain ⟨b', hstores, ⟨htimers, -⟩ | ⟨-, b'', htimers, hclose⟩⟩ := commit_stored b owner offset n
  · exact htimers.mss.trans hstores.mss
  · rw [hclose]
    exact htimers.mss.trans hstores.mss

variable [LawfulController κ]

/-- A buffer without a segment size has nothing in flight, and a shut controller. -/
def Unsized (b : TcpSendBuffer κ) : Prop := b.mss = 0 → Shut b.controller ∧ b.retransmitQueue = []

section

variable (h : Unsized b)

include h

theorem Unsized.shutsWindow : b.ShutsWindow := fun hm => congestionWindow_eq_zero (h hm).1

theorem Unsized.of_sameStream {b' : TcpSendBuffer κ} (hs : SameStream b' b) : Unsized b' := by
  intro hm
  obtain ⟨hc, hq⟩ := h (hs.mss ▸ hm)
  exact ⟨hs.controller ▸ hc, (congrArg SendQueues.retransmitQueue hs.queues).trans hq⟩

/-- Nothing gets in flight through a shut window. -/
theorem onSent_unsized {copied : Prop} {isn : UInt32} {limit u : ℕ} {fin : Bool}
    {stream : Bytes} {w : UInt32} {r : TcpSendNextResult} {owner : Option Bytes}
    {offset n : ℕ} (hc : Carries copied isn limit fin stream u b.toSendQueues)
    (hchoice : Choice b.toSendQueues w (b.usableWindow w) b.toPendingSegment r) :
    Unsized (b.onSent owner offset n) := by
  have hsame := onSent_sameStream b owner offset n
  refine .of_sameStream (fun hm => ?_) hsame
  rw [commit_mss] at hm
  obtain ⟨hshut, hq⟩ := h hm
  have hzero : b.usableWindow w = 0 := usableWindow_eq_zero (congestionWindow_eq_zero hshut)
  have hk : b.pendingKind ∉ [.newData, .persistPromote] := by
    rw [hzero] at hchoice
    cases hchoice with
    | idle hk => simp [hk]
    | again hfirst hk hpromote =>
      have hpos := (hc.firstRecord hfirst).1.pos
      simp only [mem_cons, not_mem_nil, or_false, not_or] at hk ⊢
      exact ⟨hk.2.1, fun hp => Nat.not_lt_of_le (hpromote hp) hpos⟩
    | newData _ hle hnext => exact absurd hnext.pos (Nat.not_lt_of_le hle)
    | probe _ hk => simp [hk]
  obtain ⟨hcontroller, hempty⟩ := commit_of_empty owner offset n hq hk
  exact ⟨hcontroller ▸ hshut, hempty⟩

theorem onEce_unsized (ece : Bool) : Unsized (b.onEce ece) := by
  unfold onEce
  split
  · exact fun hm => ⟨shut_onEcnCe (h hm).1, (h hm).2⟩
  · exact h

theorem onDuplicateAck_unsized (w : UInt32) (n : ℕ) (ackOnly : Bool) :
    Unsized (b.onDuplicateAck w n ackOnly).1 := by
  refine .of_sameStream (fun hm => ?_) (rearmDuplicate_timersOnly _ w n).toSameStream
  obtain ⟨hshut, hq⟩ := h hm
  refine ⟨?_, hq⟩
  -- with nothing in flight, no recovery is triggered
  rw [hq, isEmpty_nil, Bool.not_true, Bool.and_false, Bool.false_and]
  unfold duplicateAckController
  dsimp only
  rw [Bool.false_and, if_neg Bool.false_ne_true]
  split
  case isTrue hcond =>
    simp only [Bool.and_eq_true] at hcond
    exact shut_onDupAck hshut hcond.1.2
  case isFalse => exact hshut

/-- Without a record acknowledged as a whole, no rate is measured. -/
theorem feedController_unsized {walk : AckWalk} (n : ℕ)
    (hw : b.mss = 0 → walk.ackedRecordDelivery = none) : Unsized (b.feedController walk n) := by
  intro hm
  have hmss : b.mss = 0 := by
    rw [← hm]
    unfold feedController
    dsimp only
    split <;> rfl
  obtain ⟨hshut, hq⟩ := h hmss
  unfold feedController rateSample
  dsimp only
  rw [hw hmss]
  split
  case isTrue hrec =>
    refine ⟨?_, hq⟩
    split
    · exact shut_onFastRecoveryExit hshut hrec
    · exact hshut
  case isFalse => exact ⟨shut_onAck hshut rfl rfl, hq⟩

theorem onNewAck_unsized (a w : UInt32) (n : ℕ) : Unsized (b.onNewAck a w n).1 := by
  have hwalk := fun hm => walk_of_empty a n (h hm).2
  have hsample := (sampleRtt_timersOnly (b.acknowledge a w n) (b.walk a n).1).toSameStream
  have hacked : Unsized (b.acknowledge a w n) := fun hm => ⟨(h hm).1, (hwalk hm).1⟩
  refine .of_sameStream ?_ (rearm_sameStream ..)
  exact feedController_unsized (hacked.of_sameStream hsample) n fun hm =>
    (hwalk (hsample.mss.symm.trans hm)).2

/-- An acknowledgment of a buffer without a segment size leaves the controller shut. -/
theorem onAck_unsized (a w : UInt32) (n : ℕ) (ackOnly ece : Bool) :
    Unsized (b.onAck a w n ackOnly ece).1 := by
  unfold onAck
  split
  case isTrue => exact h
  split
  case isTrue => exact h
  case isFalse =>
    dsimp only
    split
    case isTrue => exact onDuplicateAck_unsized (onEce_unsized h ece) w n ackOnly
    case isFalse => exact onNewAck_unsized (onEce_unsized h ece) a w n

theorem onSack_unsized (blocks : List TcpSackBlock) : Unsized (b.onSack blocks).1 := by
  intro hm
  have hmss : b.mss = 0 := by
    rw [← hm]
    unfold onSack
    dsimp only
    split
    · rfl
    · split <;> rfl
  have hsame : (b.onSack blocks).1 = b := by
    rw [onSack, if_pos]
    exact .inr (.inl (by rw [(h hmss).2]; rfl))
  rw [hsame]
  exact h hmss

theorem updateMss_unsized (mss : UInt16) : Unsized (b.updateMss mss) := by
  unfold updateMss
  split
  case isTrue => exact h
  case isFalse hne => exact fun hm => absurd (.inl hm) hne

end

end TcpSendBuffer

/-! ## The invariant of a run -/

namespace TcpSendBuffer

variable [LawfulController κ] {copied : Prop} {isn : UInt32} {limit : ℕ} {fin : Bool}
  {stream : Bytes} {u : ℕ} {b : TcpSendBuffer κ}

/-- No segment is pending between operations, and as long as the buffer is open
    it carries the stream. -/
structure Sound (copied : Prop) (isn : UInt32) (limit : ℕ) (fin : Bool) (stream : Bytes)
    (u : ℕ) (b : TcpSendBuffer κ) : Prop where
  idle : b.pendingKind = .none
  carries : b.closed = true ∨
    Carries copied isn limit fin stream u b.toSendQueues ∧ Unsized b ∧ b.pendingIsFin = false

theorem sound_new (config : TcpSendConfig) (make : UInt16 → κ) (hmake : Shut (make 0)) :
    Sound copied isn config.retransmitQueueLimit false [] 0 (new isn config make) where
  idle := rfl
  carries := by
    refine .inr ⟨?_, fun hm => ⟨?_, rfl⟩, rfl⟩
    · exact
        { una := (seqAt_zero isn).symm
          nxt := (seqAt_zero isn).symm
          max := rfl
          capacity := rfl
          room := Nat.zero_le _
          requested := rfl
          tiles := .nil 0
          alone := .inl rfl
          inFlight := rfl
          unsent := fun _ => ⟨rfl, Nat.le_refl 0⟩
          ended := fun h => by cases h
          finAcked := by simp [TcpSendBuffer.new] }
    · have hmss : config.initialMss = 0 := hm
      show Shut (make config.initialMss)
      rw [hmss]
      exact hmake

namespace Sound

section

variable (h : Sound copied isn limit fin stream u b)

include h

theorem enqueue (data : Bytes) :
    Sound copied isn limit fin (stream ++ b.accepted data) u (b.enqueue data).1 := by
  unfold TcpSendBuffer.enqueue
  dsimp only
  split
  case isTrue hnil =>
    rw [hnil, append_nil]
    exact h
  case isFalse hne =>
    have hreq : b.finRequested = false := by
      unfold TcpSendBuffer.accepted at hne
      split at hne
      case isTrue => exact absurd rfl hne
      case isFalse hcond =>
        simp only [not_or, Bool.not_eq_true] at hcond
        exact hcond.2.1
    exact ⟨h.idle, h.carries.imp_right fun ⟨hc, hu, hf⟩ => ⟨hc.enqueue _ hreq, hu, hf⟩⟩

theorem requestFin : Sound copied isn limit true stream u b.requestFin.1 := by
  unfold TcpSendBuffer.requestFin
  split
  case isTrue hcond =>
    refine ⟨h.idle, ?_⟩
    rcases hcond with hreq | hclosed
    · refine h.carries.imp_right fun ⟨hc, hrest⟩ => ⟨?_, hrest⟩
      rw [← hreq, hc.requested]
      exact hc
    · exact .inl hclosed
  case isFalse => exact ⟨h.idle, h.carries.imp_right fun ⟨hc, hrest⟩ => ⟨hc.requestFin, hrest⟩⟩

/-- What `nextSegment` does to a sound buffer that is open. -/
theorem chooses (w : UInt32) (n : ℕ) (hu : Unsized b) (hf : b.pendingIsFin = false) :
    Chooses b w (b.usableWindow w) (b.nextSegment w n) :=
  nextSegment_choice w n hu.shutsWindow h.idle hf

theorem transmit {w : UInt32} {n m offset : ℕ} {owner : Option Bytes}
    (hown : copied → Owns owner offset (b.nextSegment w n).2) :
    Sound copied isn limit fin stream u ((b.nextSegment w n).1.onSent owner offset m) := by
  refine ⟨onSent_pendingKind .., ?_⟩
  rcases h.carries with hc | ⟨hc, hu, hf⟩
  · rw [nextSegment_closed hc, onSent, if_pos h.idle]
    exact .inl hc
  · rcases h.chooses w n hu hf with ⟨hclosed, -, hk⟩ | ⟨hs, hchoice⟩
    · rw [onSent, if_pos hk]
      exact .inl hclosed
    · have hwindow := hs.usableWindow w
      rw [← hs.queues, ← hwindow] at hchoice
      rw [← hs.queues] at hc
      refine (onSent_carries hc hchoice hown).imp_right fun hc' => ⟨hc', ?_, ?_⟩
      · exact onSent_unsized (hu.of_sameStream hs) hc hchoice
      · unfold onSent
        split
        case isTrue hk =>
          cases hchoice with
          | idle _ hfin => exact hfin
          | again _ hne => simp [hk] at hne
          | newData hnew | probe _ hnew => rw [hk] at hnew; cases hnew
        case isFalse => rfl

theorem abandon (w : UInt32) (n : ℕ) :
    Sound copied isn limit fin stream u (b.nextSegment w n).1.resetPending := by
  refine ⟨rfl, ?_⟩
  rcases h.carries with hc | ⟨hc, hu, hf⟩
  · rw [nextSegment_closed hc]
    exact .inl hc
  · rcases h.chooses w n hu hf with ⟨hclosed, -, -⟩ | ⟨hs, -⟩
    · exact .inl hclosed
    · refine .inr ⟨?_, hu.of_sameStream ⟨hs.queues, hs.controller, hs.mss⟩, rfl⟩
      exact (congrArg (Carries copied isn limit fin stream u) hs.queues).mpr hc

theorem ack (a w : UInt32) (n : ℕ) (ackOnly ece : Bool) :
    Sound copied isn limit fin stream
      (u + ((b.onAck a w n ackOnly ece).1.sndUna - b.sndUna).toNat)
      (b.onAck a w n ackOnly ece).1 := by
  have hp := onAck_pending b a w n ackOnly ece
  refine ⟨(congrArg PendingSegment.pendingKind hp).trans h.idle, ?_⟩
  rcases h.carries with hc | ⟨hc, hu, hf⟩
  · refine .inl ?_
    rcases onAck_cases b a w n ackOnly ece with ⟨-, hsame⟩ | ⟨-, -, hqueues⟩
    · exact (congrArg SendQueues.closed hsame).trans hc
    · exact (congrArg SendQueues.closed hqueues).trans hc
  · exact .inr ⟨onAck_carries hc a w ackOnly ece, onAck_unsized hu a w n ackOnly ece,
      (congrArg PendingSegment.pendingIsFin hp).trans hf⟩

theorem sack (blocks : List TcpSackBlock) :
    Sound copied isn limit fin stream u (b.onSack blocks).1 := by
  have hp : (b.onSack blocks).1.toPendingSegment = b.toPendingSegment ∧
      (b.onSack blocks).1.closed = b.closed := by
    unfold onSack
    dsimp only
    split
    · exact ⟨rfl, rfl⟩
    · split <;> exact ⟨rfl, rfl⟩
  refine ⟨(congrArg PendingSegment.pendingKind hp.1).trans h.idle, ?_⟩
  rw [hp.2]
  exact h.carries.imp_right fun ⟨hc, hu, hf⟩ =>
    ⟨onSack_carries hc blocks, onSack_unsized hu blocks,
      (congrArg PendingSegment.pendingIsFin hp.1).trans hf⟩

theorem updateMss (mss : UInt16) : Sound copied isn limit fin stream u (b.updateMss mss) := by
  have hp : (b.updateMss mss).toPendingSegment = b.toPendingSegment := by
    unfold TcpSendBuffer.updateMss
    split <;> rfl
  have hq := updateMss_toSendQueues b mss
  refine ⟨(congrArg PendingSegment.pendingKind hp).trans h.idle, ?_⟩
  rw [hq]
  exact h.carries.imp_right fun ⟨hc, hu, hf⟩ =>
    ⟨hc, updateMss_unsized hu mss, (congrArg PendingSegment.pendingIsFin hp).trans hf⟩

end

end Sound

end TcpSendBuffer

namespace SendRun

variable [LawfulController κ] {copied : Prop} {isn : UInt32} {limit : ℕ}

/-- The invariant of a run. -/
def Inv (copied : Prop) (isn : UInt32) (limit : ℕ) (s : SendRun κ) : Prop :=
  Sound copied isn limit s.finCalled s.accepted s.acked s.buffer

theorem inv_step {s : SendRun κ} (h : Inv copied isn limit s) (op : SendOp)
    (hop : copied → op.Copies s.buffer) : Inv copied isn limit (s.step op) := by
  unfold Inv step
  cases op <;> simp only [SendOp.apply, SendOp.takes, SendOp.acks, SendOp.asksFin,
    append_nil, add_zero, Bool.or_false, Bool.or_true]
  case enqueue data => exact Sound.enqueue h data
  case requestFin => exact Sound.requestFin h
  case transmit => exact Sound.transmit h hop
  case abandon w n => exact Sound.abandon h w n
  case ack a w n ackOnly ece => exact Sound.ack h a w n ackOnly ece
  case sack blocks => exact Sound.sack h blocks
  case updateMss mss => exact Sound.updateMss h mss

/-- The invariant holds after every run. -/
theorem Reaches.inv {config : TcpSendConfig} {make : UInt16 → κ} {s : SendRun κ}
    (hmake : Shut (make 0)) (h : Reaches copied (start isn config make) s) :
    Inv copied isn config.retransmitQueueLimit s := by
  refine Runs.invariant h (sound_new config make hmake) ?_
  rintro s op s' hs ⟨hop, rfl⟩
  exact inv_step hs op hop

end SendRun

/-! ## Stream integrity -/

section

variable [LawfulController κ] {isn : UInt32}

/-- In every run, every segment carries the bytes of the accepted stream at its
    sequence number, and a FIN only after the last of them. The position of a
    sequence number is the one less than `2 ^ 32` places after that of `sndUna`. -/
theorem segment_carries_stream (config : TcpSendConfig) (make : UInt16 → κ) (hmake : Shut (make 0))
    (hlimit : config.retransmitQueueLimit < 2 ^ 31) {s : SendRun κ}
    (hs : SendRun.Reaches True (.start isn config make) s) (peerWindow : UInt32) (nowMs : ℕ)
    (hr : (s.buffer.nextSegment peerWindow nowMs).2.hasSegment = true) :
    let r := (s.buffer.nextSegment peerWindow nowMs).2
    let position := s.acked + (r.sequence - s.buffer.sndUna).toNat
    r.sequence = seqAt isn position ∧ CarriesAt s.finCalled s.accepted position r := by
  intro r position
  have hinv := hs.inv hmake
  rcases hinv.carries with hclosed | ⟨hc, hu, hf⟩
  · simp [nextSegment_closed hclosed] at hr
  · have hposition : r.sequence = seqAt isn position := by
      have := seqAt_unwrap isn s.acked r.sequence
      rw [← hc.una] at this
      exact this.symm
    refine ⟨hposition, ?_⟩
    rcases Sound.chooses hinv peerWindow nowMs hu hf with ⟨-, hnone, -⟩ | ⟨-, hchoice⟩
    · simp [hnone] at hr
    · cases hchoice with
      | idle _ _ hnone => rw [hnone] at hr; cases hr
      | again hfirst _ _ _ hseq hpay hfin =>
        have hzero : position = s.acked := by
          have hrseq : r.sequence = s.buffer.sndUna :=
            hseq.trans ((hc.firstRecord hfirst).1.seq.trans hc.una.symm)
          simp only [position, hrseq]
          simp
        rw [hzero]
        exact hc.again hfirst hpay hfin
      | newData _ _ hnext | probe _ _ _ hnext =>
        have hnxt : position = s.acked + s.buffer.retransmitBytes := by
          have hroom := hc.room
          have hrseq : r.sequence = s.buffer.sndNxt := hnext.sequence
          simp only [position, hrseq]
          rw [hc.nxt, hc.una, toNat_seqAt_sub _ (by omega)]
          omega
        rw [hnxt]
        exact hc.next hnext

theorem segment_carries_stream_hello :
    let s := (SendRun.start 4294967295 {} AimdController.new).step (.enqueue [104, 101, 108])
    let r := (s.buffer.nextSegment 1000 0).2
    r.hasSegment = true ∧ r.sequence = 4294967295 ∧
      CarriesAt s.finCalled s.accepted (s.acked + (r.sequence - s.buffer.sndUna).toNat) r := by
  intro s r
  have hs : SendRun.Reaches True (.start 4294967295 {} AimdController.new) s :=
    .single ⟨.enqueue [104, 101, 108], fun _ => trivial, rfl⟩
  have hr : r.hasSegment := by decide
  exact ⟨hr, by decide, (segment_carries_stream {} _ AimdController.shut_new (by decide) hs
    1000 0 hr).2⟩

/-! ## The peer window -/

/-- In every run, new data ends within the peer window, counted from `sndUna`, as
    long as the window leaves room for what is selectively acknowledged: the
    congestion window does not count it as in flight, but the peer's does. -/
theorem new_segment_within_window (config : TcpSendConfig) (make : UInt16 → κ)
    (hmake : Shut (make 0)) {s : SendRun κ} (hs : SendRun.Reaches False (.start isn config make) s)
    (peerWindow : UInt32) (nowMs : ℕ) (hw : peerWindow ≠ 0)
    (hr : (s.buffer.nextSegment peerWindow nowMs).2.hasSegment = true)
    (hnew : (s.buffer.nextSegment peerWindow nowMs).2.isRetransmission = false)
    (hsack : min peerWindow.toNat (congestionWindow s.buffer.controller).toNat +
      min s.buffer.inFlightSequence s.buffer.sackedSequence ≤ peerWindow.toNat) :
    let r := (s.buffer.nextSegment peerWindow nowMs).2
    (r.sequence - s.buffer.sndUna).toNat + r.payload.length + (if r.isFin then 1 else 0) ≤
      peerWindow.toNat := by
  intro r
  have hinv := hs.inv hmake
  rcases hinv.carries with hclosed | ⟨hc, hu, hf⟩
  · simp [nextSegment_closed hclosed] at hr
  · rcases Sound.chooses hinv peerWindow nowMs hu hf with ⟨-, hnone, -⟩ | ⟨-, hchoice⟩
    · simp [hnone] at hr
    · cases hchoice with
      | idle _ _ hnone => rw [hnone] at hr; cases hr
      | again _ _ _ hagain => rw [hagain] at hnew; cases hnew
      | probe hzero => exact absurd hzero hw
      | newData _ hle hnext =>
        have hflight := hc.inFlight_eq hnext.noProbe
        have hend := inFlight_add_usableWindow (lt_of_lt_of_le hnext.pos hle)
        have hlen : _ = r.payload.length + (if r.isFin then 1 else 0) := hnext.pendingLen
        have hoffset : (r.sequence - s.buffer.sndUna).toNat ≤ s.buffer.retransmitBytes := by
          have hseq : r.sequence = s.buffer.sndNxt := hnext.sequence
          rw [hseq, hc.nxt, hc.una, toNat_seqAt_sub _ (Nat.le_add_right ..), Nat.add_sub_cancel_left]
          exact Nat.mod_le ..
        omega

theorem new_segment_within_window_sacked :
    let ops := [SendOp.enqueue (List.replicate 60 0),
      .transmit 20 0 (some (List.replicate 10 0)) 0 0,
      .transmit 20 0 (some (List.replicate 10 0)) 0 0, .sack [⟨10, 20⟩]]
    let s := ops.foldl SendRun.step (.start 0 { initialMss := 10 } AimdController.new)
    let r := (s.buffer.nextSegment 30 0).2
    s.buffer.sackedSequence = 10 ∧
      (r.sequence - s.buffer.sndUna).toNat + r.payload.length + (if r.isFin then 1 else 0) ≤ 30 :=
  ⟨by decide, new_segment_within_window { initialMss := 10 } _ AimdController.shut_new
    (SendRun.reaches_foldl _ _) 30 0 (by decide) (by decide) (by decide) (by decide)⟩

/-- Two segments of ten bytes fill a peer window of twenty; with the second
    selectively acknowledged, a third is sent, and ends at thirty. -/
theorem new_segment_beyond_window :
    let ops := [SendOp.enqueue (List.replicate 60 0),
      .transmit 20 0 (some (List.replicate 10 0)) 0 0,
      .transmit 20 0 (some (List.replicate 10 0)) 0 0, .sack [⟨10, 20⟩]]
    let s := ops.foldl SendRun.step (.start 0 { initialMss := 10 } AimdController.new)
    let r := (s.buffer.nextSegment 20 0).2
    SendRun.Reaches False (.start 0 { initialMss := 10 } AimdController.new) s ∧
      r.hasSegment = true ∧ r.isRetransmission = false ∧
      ¬(r.sequence - s.buffer.sndUna).toNat + r.payload.length + (if r.isFin then 1 else 0) ≤
        20 :=
  ⟨SendRun.reaches_foldl _ _, by decide, by decide, by decide⟩

end

end Netstack2
