import Netstack2.Tcp.Send.Fin

/-!
# How much a send buffer holds and sends

Apart from `enqueue` and `updateMss`, no operation of the send buffer lets its queue
grow, or changes its parameters (`Drains`). A probe of a closed window is a single
byte, or a FIN (`ProbesByte`); so what `nextSegment` asks for is never longer than a
segment (`nextSegment_sized`).
-/

namespace Netstack2

open List

namespace TcpSendBuffer

variable {κ : Type} {b b' b'' : TcpSendBuffer κ} {r : TcpSendNextResult}

/-- The queue has not grown, and the parameters are the same. -/
structure Drains (b' b : TcpSendBuffer κ) : Prop where
  limit : b'.sendQueueLimit = b.sendQueueLimit
  queue : b'.sendQueue.length ≤ b.sendQueue.length
  requested : b'.finRequested = b.finRequested
  mss : b'.mss = b.mss

theorem Drains.refl : Drains b b := ⟨rfl, le_refl _, rfl, rfl⟩

theorem Drains.trans (h : Drains b'' b') (h' : Drains b' b) : Drains b'' b :=
  ⟨h.limit.trans h'.limit, le_trans h.queue h'.queue, h.requested.trans h'.requested,
    h.mss.trans h'.mss⟩

theorem SameStream.drains (h : SameStream b' b) : Drains b' b where
  limit := congrArg SendQueues.sendQueueLimit h.queues
  queue := le_of_eq (congrArg (·.sendQueue.length) h.queues)
  requested := congrArg SendQueues.finRequested h.queues
  mss := h.mss

/-- A probe has at most one byte. -/
structure ProbesByte (b : TcpSendBuffer κ) : Prop where
  probe : ∀ probe, b.persistProbe = some probe → probe.data.length ≤ 1
  pending : b.pendingKind = .persistNew → b.pendingLen ≤ 1

theorem ProbesByte.of_timersOnly (h : ProbesByte b) (hb : TimersOnly b' b) : ProbesByte b' where
  probe probe hprobe := h.probe probe (congrArg SendQueues.persistProbe hb.queues ▸ hprobe)
  pending hkind :=
    congrArg PendingSegment.pendingLen hb.pending ▸ h.pending (hb.pendingKind ▸ hkind)

/-! ## The next segment -/

/-- What is asked for fits a segment. -/
structure Sized (b : TcpSendBuffer κ) (x : TcpSendBuffer κ × TcpSendNextResult) : Prop where
  drains : Drains x.1 b
  probes : ProbesByte x.1
  payload : x.2.payload.length ≤ max 1 b.mss.toNat

theorem Sized.of_drains {x : TcpSendBuffer κ × TcpSendNextResult} (h : Sized b' x)
    (hb : Drains b' b) : Sized b x :=
  ⟨h.drains.trans hb, h.probes, hb.mss ▸ h.payload⟩

theorem Sized.nothing (h : ProbesByte b) (hr : r.payload = []) : Sized b (b, r) :=
  ⟨.refl, h, by simp [hr]⟩

/-- A pending segment is set up. -/
theorem Sized.pend (h : ProbesByte b) {p : PendingSegment}
    (hp : p.pendingKind = .persistNew → p.pendingLen ≤ 1)
    (hr : r.payload.length ≤ max 1 b.mss.toNat) : Sized b ({ b with toPendingSegment := p }, r) :=
  ⟨⟨rfl, le_refl _, rfl, rfl⟩, ⟨h.probe, hp⟩, hr⟩

variable [CongestionController κ] {n : ℕ}

theorem close_drains (b : TcpSendBuffer κ) : Drains b.close b := ⟨rfl, Nat.zero_le _, rfl, rfl⟩

theorem close_probesByte (b : TcpSendBuffer κ) : ProbesByte b.close := ⟨nofun, nofun⟩

theorem Pick.sized {w : UInt32} {p : PendingSegment} (hpick : Pick b w n p r) (h : ProbesByte b) :
    Sized b ({ b with toPendingSegment := p }, r) := by
  have hone : ∀ {n : ℕ}, n ≤ 1 → n ≤ max 1 b.mss.toNat := fun hn =>
    Nat.le_trans hn (Nat.le_max_left ..)
  have hmss : ∀ {n : ℕ}, n ≤ b.mss.toNat → n ≤ max 1 b.mss.toNat := fun hn =>
    Nat.le_trans hn (Nat.le_max_right ..)
  cases hpick with
  | idle => exact .nothing h rfl
  | persistRetry _ hp => exact .pend h nofun (hone (h.probe _ hp))
  | persistExisting => exact .pend h nofun (hone (length_take_le ..))
  | persistData => exact .pend h (fun _ => Nat.le_refl 1) (hone (length_take_le ..))
  | persistFin => exact .pend h (fun _ => Nat.le_refl 1) (hone (Nat.zero_le 1))
  | persistPromote _ hp => exact .pend h nofun (hone (h.probe _ hp))
  | retransmit _ _ _ hkind hlength =>
    refine .pend h ?_ (hmss (Nat.le_trans (length_take_le ..) ?_))
    · rcases hkind with ⟨rfl, -⟩ | ⟨rfl, -⟩ <;> exact nofun
    · rw [hlength]
      exact Nat.le_trans (Nat.min_le_right ..) (Nat.min_le_left ..)
  | newData =>
    refine .pend h nofun (hmss (Nat.le_trans (length_take_le ..) ?_))
    exact Nat.le_trans (Nat.min_le_right ..) (Nat.min_le_left ..)

/-- What `nextSegment` asks for has at most the bytes of a segment, or one. -/
theorem nextSegment_sized (h : ProbesByte b) (w : UInt32) (n : ℕ) :
    Sized b (b.nextSegment w n) := by
  have hsame := (polled_keeps b w n).1
  have hpending := polled_pending b n w
  have h' : ProbesByte (b.polled w n) := by
    refine ⟨fun probe hp => h.probe probe (hsame.queues ▸ hp), fun hkind => ?_⟩
    rw [hpending] at hkind ⊢
    exact h.pending hkind
  rcases nextSegment_cases b w n with hnext | hnext | ⟨p, r, hpick, hnext⟩
  · rw [hnext]
    exact .nothing h rfl
  · rw [hnext]
    exact .of_drains ⟨close_drains _, close_probesByte _, Nat.zero_le _⟩ hsame.drains
  · rw [hnext]
    exact .of_drains (hpick.sized h') hsame.drains

/-! ## The other operations -/

/-- An operation without new data: the queue does not grow, and probes have one byte. -/
structure Settles (b' b : TcpSendBuffer κ) : Prop where
  drains : Drains b' b
  probes : ProbesByte b → ProbesByte b'

section

omit [CongestionController κ]

theorem Settles.of_sameStream (hs : SameStream b' b)
    (hp : b'.pendingKind = .persistNew → b.pendingKind = .persistNew ∧ b'.pendingLen = b.pendingLen) :
    Settles b' b where
  drains := hs.drains
  probes h :=
    { probe := fun probe hprobe => h.probe probe
        (congrArg SendQueues.persistProbe hs.queues ▸ hprobe)
      pending := fun hkind => (hp hkind).2 ▸ h.pending (hp hkind).1 }

theorem resetPending_settles (b : TcpSendBuffer κ) : Settles b.resetPending b :=
  .of_sameStream ⟨rfl, rfl, rfl⟩ nofun

theorem takePending_queue (b : TcpSendBuffer κ) :
    b.takePending.sendQueue.length ≤ b.sendQueue.length := by
  rw [takePending]
  exact le_trans (le_of_eq length_drop) (Nat.sub_le ..)

theorem Settles.trans (h : Settles b'' b') (h' : Settles b' b) : Settles b'' b :=
  ⟨h.drains.trans h'.drains, fun hb => h.probes (h'.probes hb)⟩

theorem TimersOnly.settles (h : TimersOnly b' b) : Settles b' b :=
  ⟨h.toSameStream.drains, fun hb => hb.of_timersOnly h⟩

theorem Settles.refl : Settles b b := ⟨.refl, id⟩

end

theorem Stores.settles {owner : Option Bytes} {offset m : ℕ}
    {kind : PendingKind} (h : Stores b owner offset m kind b') : Settles b' b := by
  cases h with
  | refused => exact .refl
  | newData => exact ⟨⟨rfl, takePending_queue _, rfl, rfl⟩, fun h => ⟨h.probe, h.pending⟩⟩
  | @persistNew data hk hdata =>
    refine ⟨⟨rfl, takePending_queue _, rfl, rfl⟩, fun h => ⟨?_, h.pending⟩⟩
    -- the probe is the pending segment
    rintro _ ⟨⟩
    have hlen : data.length ≤ b.pendingLen := by
      rw [length_retained hdata]
      exact Nat.sub_le ..
    exact le_trans hlen (h.pending hk)
  | persistPromote => exact ⟨⟨rfl, le_refl _, rfl, rfl⟩, fun h => ⟨nofun, h.pending⟩⟩
  | @persistRetry probe _ hp =>
    refine ⟨⟨rfl, le_refl _, rfl, rfl⟩, fun h => ⟨?_, h.pending⟩⟩
    rintro _ ⟨⟩
    exact h.probe probe hp
  | persistExisting | rtoRetransmit | fastRetransmit =>
    exact ⟨⟨rfl, le_refl _, rfl, rfl⟩, fun h => ⟨h.probe, h.pending⟩⟩

/-- Committing the pending segment. -/
theorem commit_settles (b : TcpSendBuffer κ) (owner : Option Bytes) (offset n : ℕ) :
    Settles (b.commit owner offset n).1 b := by
  obtain ⟨b', hstores, ⟨htimers, -⟩ | ⟨-, b'', htimers, hclose⟩⟩ := commit_stored b owner offset n
  · exact htimers.settles.trans hstores.settles
  · rw [hclose]
    have hdrains := htimers.settles.trans hstores.settles
    exact ⟨(close_drains b'').trans hdrains.drains, fun _ => close_probesByte b''⟩

theorem onSent_settles (b : TcpSendBuffer κ) (owner : Option Bytes) (offset n : ℕ) :
    Settles (b.onSent owner offset n) b := by
  refine .trans (.of_sameStream (onSent_sameStream b owner offset n) ?_)
    (commit_settles b owner offset n)
  rw [onSent]
  split
  case isTrue hkind =>
    intro h
    simp [hkind] at h
  case isFalse =>
    intro h
    cases h

omit [CongestionController κ] in
theorem ackProbe_length (w : AckWalk) {probe : Option SendRecord}
    (h : ∀ r, probe = some r → r.data.length ≤ n) :
    ∀ r, (ackProbe w probe).2 = some r → r.data.length ≤ n := by
  intro r hr
  rcases probe with _ | probe
  · cases hr
  rw [ackProbe] at hr
  split at hr
  · exact h r hr
  · dsimp only at hr
    split at hr
    · cases hr
    · rw [← Option.some.inj hr]
      exact le_trans (le_trans (le_of_eq length_drop) (Nat.sub_le ..))
        (h probe rfl)

theorem onAck_settles (b : TcpSendBuffer κ) (a w : UInt32) (n : ℕ) (ackOnly ece : Bool) :
    Settles (b.onAck a w n ackOnly ece).1 b := by
  obtain ⟨hpending, hmss⟩ := b.onAck_keeps a w n ackOnly ece
  have hpend : ProbesByte b → (b.onAck a w n ackOnly ece).1.pendingKind = .persistNew →
      (b.onAck a w n ackOnly ece).1.pendingLen ≤ 1 := fun h hkind => by
    rw [show (b.onAck a w n ackOnly ece).1.pendingLen = b.pendingLen from
      congrArg PendingSegment.pendingLen hpending]
    exact h.pending (congrArg PendingSegment.pendingKind hpending ▸ hkind)
  rcases onAck_cases b a w n ackOnly ece with ⟨-, hsame⟩ | ⟨-, -, hqueues⟩
  · refine ⟨⟨congrArg SendQueues.sendQueueLimit hsame,
      le_of_eq (congrArg (·.sendQueue.length) hsame),
      congrArg SendQueues.finRequested hsame, hmss⟩, fun h => ⟨fun probe hprobe => ?_, hpend h⟩⟩
    exact h.probe probe (congrArg SendQueues.persistProbe hsame ▸ hprobe)
  · refine ⟨⟨(congrArg SendQueues.sendQueueLimit hqueues).trans rfl,
      le_of_eq (congrArg (·.sendQueue.length) hqueues),
      (congrArg SendQueues.finRequested hqueues).trans rfl, hmss⟩,
      fun h => ⟨fun probe hprobe => ?_, hpend h⟩⟩
    exact ackProbe_length _ h.probe probe (congrArg SendQueues.persistProbe hqueues ▸ hprobe)

theorem onSack_settles (b : TcpSendBuffer κ) (blocks : List TcpSackBlock) :
    Settles (b.onSack blocks).1 b := by
  rw [onSack]
  split
  · exact .refl
  · dsimp only
    split <;> exact ⟨⟨rfl, le_refl _, rfl, rfl⟩, fun h => ⟨h.probe, h.pending⟩⟩

theorem nextSegment_settles (h : ProbesByte b) {w : UInt32} {next : TcpSendNextResult}
    (hnext : b.nextSegment w n = (b', next)) : Settles b' b := by
  have hsized := nextSegment_sized h w n
  rw [hnext] at hsized
  exact ⟨hsized.drains, fun _ => hsized.probes⟩

/-! ## New data -/

omit [CongestionController κ] in
/-- What is taken of new data makes the queue no longer than its limit, and is all of it
    unless the queue is full then. -/
theorem enqueue_room (h : b.sendQueue.length ≤ b.sendQueueLimit) (data : Bytes) :
    (b.enqueue data).1.sendQueue.length ≤ b.sendQueueLimit ∧
      (b.closed = false → b.finRequested = false → (b.enqueue data).2 ≠ data.length →
        (b.enqueue data).1.sendQueue.length = b.sendQueueLimit) := by
  rw [enqueue]
  split
  case isTrue hnone =>
    refine ⟨h, fun hclosed hfin hne => ?_⟩
    rw [accepted] at hnone
    split at hnone
    case isTrue hstop =>
      rcases hstop with rfl | hstop | hstop | hfull
      · exact absurd rfl hne
      · simp [hfin] at hstop
      · simp [hclosed] at hstop
      · exact le_antisymm h hfull
    case isFalse hgo =>
      simp only [not_or, not_le] at hgo
      rw [take_eq_nil_iff] at hnone
      exact absurd hnone (by simp only [hgo.1, or_false]; omega)
  case isFalse hsome =>
    rw [accepted] at hsome ⊢
    split at hsome
    case isTrue => exact absurd rfl hsome
    case isFalse hgo =>
      rw [if_neg hgo]
      simp only [length_append, length_take]
      refine ⟨?_, fun _ _ hne => ?_⟩ <;> omega

/-! ## Runs -/

theorem ProbesByte.apply (h : ProbesByte b) (op : SendOp) : ProbesByte (op.apply b) := by
  cases op with
  | enqueue | requestFin | updateMss =>
    simp only [SendOp.apply, enqueue, requestFin, updateMss]
    split <;> exact ⟨h.probe, h.pending⟩
  | transmit w n owner offset m =>
    exact (onSent_settles _ owner offset m).probes (nextSegment_sized h w n).probes
  | abandon w n => exact ⟨(nextSegment_sized h w n).probes.probe, by rintro ⟨⟩⟩
  | ack a w n ackOnly ece => exact (onAck_settles b a w n ackOnly ece).probes h
  | sack blocks => exact (onSack_settles b blocks).probes h

/-- After any operations, the next segment has at most the bytes of a segment of the current
    size, or one; also if it is sent again, and was larger before. -/
theorem next_segment_within_mss (isn : UInt32) (config : TcpSendConfig)
    (make : UInt16 → κ) (ops : List SendOp) (w : UInt32) (n : ℕ) :
    let b := ops.foldl SendOp.apply (.new isn config make)
    (b.nextSegment w n).2.payload.length ≤ max 1 b.mss.toNat := by
  intro b
  have hprobes : ProbesByte b := foldlRecOn ops _ ⟨nofun, nofun⟩ fun _ h op _ => h.apply op
  exact (nextSegment_sized hprobes w n).payload

end TcpSendBuffer

end Netstack2
