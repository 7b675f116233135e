import Netstack2.Tcp.Send.Run

/-!
# The FIN of a send buffer

A FIN is requested, then sent, then acknowledged. `FinInOrder` says that the flags of
a send buffer follow this order, and that a FIN among the outstanding records was
sent. Every operation keeps it, for every congestion controller, and also once the
buffer has closed.

* `FinInOrder.transmit`, `FinInOrder.onAck`: the operations that send the FIN and
  take its acknowledgment keep the order;
* `FinInOrder.transmit_moves`: a FIN that counts as sent was in a segment;
* `finAcked_onAck`: an acknowledgment is that of the FIN just if it covers the FIN,
  which is outstanding.
-/

namespace Netstack2

open List SendRecord

/-- A FIN is among the outstanding records. -/
def SendQueues.FinOutstanding (q : SendQueues) : Prop :=
  ∃ r ∈ q.retransmitQueue ++ q.persistProbe.toList, r.carriesFin = true

/-- The FIN is among the first `n` sequence numbers of the records. -/
def finWithin (n : ℕ) : List SendRecord → Bool
  | [] => false
  | r :: rs => r.logicalLength ≤ n && (r.carriesFin || finWithin (n - r.logicalLength) rs)

namespace TcpSendBuffer

variable {κ : Type} {b b' b'' : TcpSendBuffer κ} {r : TcpSendNextResult}

/-- The acknowledgment is in what was sent, and reaches the FIN. -/
def coversFin (b : TcpSendBuffer κ) (acknowledgment : UInt32) : Bool :=
  !sequenceAfter acknowledgment b.sndMax && !sequenceBefore acknowledgment b.sndUna &&
    finWithin (acknowledgment - b.sndUna).toNat (b.retransmitQueue ++ b.persistProbe.toList)

/-- The flags follow the order, and no FIN is pending. -/
structure FinInOrder (b : TcpSendBuffer κ) : Prop where
  requested : b.finSent = true → b.finRequested = true
  acked : b.finAcked = true → b.finSent = true
  outstanding : b.FinOutstanding → b.finSent = true
  pending : b.pendingIsFin = false

/-- What happens to a FIN: it is sent only if `sends`, acknowledged only if `acks`, and among
    the outstanding records only once it is sent. -/
structure FinMoves (sends acks : Prop) (b' b : TcpSendBuffer κ) : Prop where
  requested : b'.finRequested = b.finRequested
  sent : b.finSent = true → b'.finSent = true
  isSent : b'.finSent = true → b.finSent = true ∨ sends
  acked : b.finAcked = true → b'.finAcked = true
  isAcked : b'.finAcked = true → b.finAcked = true ∨ acks
  outstanding : b'.FinOutstanding → b.FinOutstanding ∨ b'.finSent = true

variable {sends acks : Prop}

theorem FinMoves.trans (h : FinMoves sends acks b'' b') (h' : FinMoves sends acks b' b) :
    FinMoves sends acks b'' b where
  requested := h.requested.trans h'.requested
  sent hsent := h.sent (h'.sent hsent)
  isSent hsent := (h.isSent hsent).elim h'.isSent .inr
  acked hacked := h.acked (h'.acked hacked)
  isAcked hacked := (h.isAcked hacked).elim h'.isAcked .inr
  outstanding hout := (h.outstanding hout).elim (fun hout => (h'.outstanding hout).imp_right h.sent)
    .inr

theorem FinMoves.mono (h : FinMoves False acks b' b) : FinMoves sends acks b' b :=
  { h with isSent := fun hsent => (h.isSent hsent).imp_right False.elim }

/-- The flags stay. -/
theorem FinMoves.of_outstanding
    (hb : b'.finRequested = b.finRequested ∧ b'.finSent = b.finSent ∧ b'.finAcked = b.finAcked)
    (hout : b'.FinOutstanding → b.FinOutstanding) : FinMoves sends acks b' b where
  requested := hb.1
  sent hsent := hb.2.1.trans hsent
  isSent hsent := .inl (hb.2.1 ▸ hsent)
  acked hacked := hb.2.2.trans hacked
  isAcked hacked := .inl (hb.2.2 ▸ hacked)
  outstanding h := .inl (hout h)

theorem FinMoves.of_queues (h : b'.toSendQueues = b.toSendQueues) : FinMoves sends acks b' b :=
  .of_outstanding ⟨congrArg SendQueues.finRequested h, congrArg SendQueues.finSent h,
    congrArg SendQueues.finAcked h⟩ fun hout => h ▸ hout

theorem FinInOrder.of_moves (h : FinInOrder b) (hb : FinMoves sends acks b' b)
    (hsends : sends → b.finRequested ∨ b.FinOutstanding) (hacks : acks → b.FinOutstanding)
    (hpending : b'.pendingIsFin = false) : FinInOrder b' where
  requested hsent := by
    rw [hb.requested]
    rcases hb.isSent hsent with hsent | hsends'
    · exact h.requested hsent
    · -- a FIN that is sent again was requested before
      exact (hsends hsends').elim id fun hout => h.requested (h.outstanding hout)
  acked hacked :=
    hb.sent ((hb.isAcked hacked).elim h.acked fun hacks' => h.outstanding (hacks hacks'))
  outstanding hout := (hb.outstanding hout).elim (fun hout => hb.sent (h.outstanding hout)) id
  pending := hpending

theorem enqueue_finMoves (b : TcpSendBuffer κ) (data : Bytes) :
    FinMoves sends acks (b.enqueue data).1 b := by
  rw [enqueue]
  split <;> exact .of_outstanding ⟨rfl, rfl, rfl⟩ id

/-! ## The next segment -/

/-- What is asked for has a FIN only if one is due: the flags stay, and the pending
    segment is as the result says. -/
structure AsksFin (b : TcpSendBuffer κ) (x : TcpSendBuffer κ × TcpSendNextResult) : Prop where
  moves : FinMoves False False x.1 b
  pending : x.1.pendingIsFin = x.2.isFin
  segment : x.2.isFin = true → x.2.hasSegment = true ∧ x.1.pendingKind ≠ .none
  due : x.2.isFin = true → b.finRequested = true ∨ b.FinOutstanding

theorem AsksFin.of_sameStream {x : TcpSendBuffer κ × TcpSendNextResult} (h : AsksFin b' x)
    (hb : SameStream b' b) : AsksFin b x where
  moves := h.moves.trans (.of_queues hb.queues)
  pending := h.pending
  segment := h.segment
  due hfin := (h.due hfin).imp (fun hreq => congrArg SendQueues.finRequested hb.queues ▸ hreq)
    fun hout => hb.queues ▸ hout

/-- Nothing is asked for. -/
theorem AsksFin.nothing (h : b.pendingIsFin = false) (hr : r.isFin = false) : AsksFin b (b, r) :=
  ⟨.of_queues rfl, h.trans hr.symm, fun hfin => by simp [hr] at hfin,
    fun hfin => by simp [hr] at hfin⟩

/-- A pending segment is set up. -/
theorem AsksFin.pend {p : PendingSegment} (hp : p.pendingIsFin = r.isFin) (hr : r.hasSegment)
    (hk : p.pendingKind ≠ .none) (hdue : r.isFin → b.finRequested ∨ b.FinOutstanding) :
    AsksFin b ({ b with toPendingSegment := p }, r) :=
  ⟨.of_queues rfl, hp, fun _ => ⟨hr, hk⟩, hdue⟩

theorem finOutstanding_head {record : SendRecord} {records : List SendRecord}
    (hq : b.retransmitQueue = record :: records) (hfin : record.carriesFin) : b.FinOutstanding :=
  ⟨record, by simp [hq], hfin⟩

theorem finOutstanding_probe {probe : SendRecord} (hp : b.persistProbe = some probe)
    (hfin : probe.carriesFin) : b.FinOutstanding :=
  ⟨probe, by simp [hp], hfin⟩

variable [CongestionController κ]

theorem close_finMoves (b : TcpSendBuffer κ) : FinMoves sends acks b.close b :=
  .of_outstanding ⟨rfl, rfl, rfl⟩ fun ⟨_, hmem, _⟩ => by simp [close] at hmem

theorem Pick.asksFin {w : UInt32} {n : ℕ} {p : PendingSegment} (hpick : Pick b w n p r)
    (h : b.pendingIsFin = false) : AsksFin b ({ b with toPendingSegment := p }, r) := by
  cases hpick with
  | idle => exact .nothing h rfl
  | persistRetry _ hp => exact .pend rfl rfl nofun fun hfin => .inr (finOutstanding_probe hp hfin)
  | persistExisting _ _ hq _ hisFin =>
    refine .pend rfl rfl nofun fun hfin => .inr (finOutstanding_head hq ?_)
    exact (Bool.and_eq_true_iff.1 (hisFin ▸ hfin)).2
  | persistData => exact .pend h rfl nofun nofun
  | persistFin _ _ _ _ _ _ hreq => exact .pend rfl rfl nofun fun _ => .inl hreq
  | persistPromote _ hp => exact .pend rfl rfl nofun fun hfin => .inr (finOutstanding_probe hp hfin)
  | retransmit _ _ hq hkind _ hisFin =>
    refine .pend rfl rfl ?_ fun hfin => .inr (finOutstanding_head hq ?_)
    · rcases hkind with ⟨rfl, -⟩ | ⟨rfl, -⟩ <;> exact nofun
    · simp only [hisFin, Bool.and_eq_true] at hfin
      exact hfin.1.1
  | newData =>
    refine .pend rfl rfl nofun fun hfin => .inl ?_
    simp only [newIncludesFin, Bool.and_eq_true] at hfin
    exact hfin.1.1

/-- What `nextSegment` asks for. -/
theorem nextSegment_asksFin (h : b.pendingIsFin = false) (w : UInt32) (n : ℕ) :
    AsksFin b (b.nextSegment w n) := by
  have hsame := (polled_keeps b w n).1
  have h' : (b.polled w n).pendingIsFin = false :=
    (congrArg PendingSegment.pendingIsFin (polled_pending b n w)).trans h
  rcases nextSegment_cases b w n with hnext | hnext | ⟨p, r, hpick, hnext⟩
  · rw [hnext]
    exact .nothing h rfl
  · rw [hnext]
    exact .of_sameStream ⟨close_finMoves _, h', nofun, nofun⟩ hsame
  · rw [hnext]
    exact .of_sameStream (hpick.asksFin h') hsame

/-! ## Committing a segment -/

section

omit [CongestionController κ]

/-- A record of the pending segment has a FIN only if the segment has. -/
theorem pendingIsFin_of_carriesFin {r : SendRecord} (hdata : r.data.length = b.pendingPayloadLength)
    (hlen : r.logicalLength = saturatingUint32 b.pendingLen) (h : r.carriesFin) :
    b.pendingIsFin := by
  rw [carriesFin, decide_eq_true_eq, hdata, hlen, pendingPayloadLength] at h
  by_contra hfin
  rw [if_neg hfin, saturatingUint32] at h
  split at h <;> omega

/-- The pending segment takes its place after the outstanding records. -/
theorem takePending_finMoves {r : SendRecord} (hr : r.carriesFin → b.pendingIsFin)
    (hb : b'.finRequested = b.finRequested ∧ b'.finSent = b.finSent ∧ b'.finAcked = b.finAcked)
    (hp : b'.pendingIsFin = b.pendingIsFin)
    (hout : b'.FinOutstanding → b.FinOutstanding ∨ r.carriesFin) :
    FinMoves (b.pendingIsFin) acks b'.takePending b where
  requested := hb.1
  sent hsent := by simp [takePending, hb.2.1, hsent]
  isSent hsent := by
    rw [takePending, Bool.or_eq_true, hb.2.1, hp] at hsent
    exact hsent
  acked hacked := hb.2.2.trans hacked
  isAcked hacked := .inl (hb.2.2 ▸ hacked)
  outstanding h := (hout h).imp_right fun hfin => by simp [takePending, hp, hr hfin]

/-- What is outstanding carries a FIN as before, whatever else has changed. -/
theorem finOutstanding_of_map
    (h : (b'.retransmitQueue ++ b'.persistProbe.toList).map carriesFin =
      (b.retransmitQueue ++ b.persistProbe.toList).map carriesFin) :
    b'.FinOutstanding → b.FinOutstanding := by
  rintro ⟨r, hr, hfin⟩
  have hmem : true ∈ (b'.retransmitQueue ++ b'.persistProbe.toList).map carriesFin :=
    mem_map.2 ⟨r, hr, hfin⟩
  rw [h] at hmem
  exact mem_map.1 hmem

end

theorem Stores.finMoves {owner : Option Bytes} {offset m : ℕ} {kind : PendingKind}
    (h : Stores b owner offset m kind b') : FinMoves (b.pendingIsFin) acks b' b := by
  cases h with
  | refused => exact .of_queues rfl
  | @newData data _ hdata =>
    have hrecord := pendingIsFin_of_carriesFin (r := b.newRecord data m) (length_retained hdata) rfl
    refine takePending_finMoves hrecord ⟨rfl, rfl, rfl⟩ rfl ?_
    rintro ⟨r, hr, hfin⟩
    simp only [mem_append, mem_singleton] at hr
    rcases hr with (hr | rfl) | hr
    · exact .inl ⟨r, mem_append_left _ hr, hfin⟩
    · exact .inr hfin
    · exact .inl ⟨r, mem_append_right _ hr, hfin⟩
  | @persistNew data _ hdata =>
    have hrecord := pendingIsFin_of_carriesFin
      (r := { b.pendingRecord data m with retransmitted := true }) (length_retained hdata) rfl
    refine takePending_finMoves hrecord ⟨rfl, rfl, rfl⟩ rfl ?_
    rintro ⟨r, hr, hfin⟩
    simp only [mem_append, Option.toList_some, mem_singleton] at hr
    rcases hr with hr | rfl
    · exact .inl ⟨r, mem_append_left _ hr, hfin⟩
    · exact .inr hfin
  | persistPromote _ hp | persistRetry _ hp =>
    refine .of_outstanding ⟨rfl, rfl, rfl⟩ (finOutstanding_of_map ?_)
    simp [hp, carriesFin]
  | persistExisting _ hq | rtoRetransmit _ hq | fastRetransmit _ hq =>
    exact .of_outstanding ⟨rfl, rfl, rfl⟩ (finOutstanding_of_map (by rw [hq]; rfl))

/-- Committing the pending segment. -/
theorem commit_finMoves (b : TcpSendBuffer κ) (owner : Option Bytes) (offset n : ℕ) :
    FinMoves (b.pendingIsFin) acks (b.commit owner offset n).1 b := by
  obtain ⟨b', hstores, ⟨htimers, -⟩ | ⟨-, b'', htimers, hclose⟩⟩ := commit_stored b owner offset n
  · exact .trans (.of_queues htimers.queues) hstores.finMoves
  · rw [hclose]
    exact (close_finMoves b'').trans (.trans (.of_queues htimers.queues) hstores.finMoves)

theorem onSent_finMoves (b : TcpSendBuffer κ) (owner : Option Bytes) (offset n : ℕ) :
    FinMoves (b.pendingIsFin) acks (b.onSent owner offset n) b :=
  .trans (.of_queues (onSent_sameStream ..).queues) (commit_finMoves b owner offset n)

/-! ## Acknowledgments -/

/-- What is left of a record has a FIN only if the record has. -/
theorem carriesFin_of_trim {r r' : SendRecord} {take : ℕ}
    (hlen : r'.logicalLength = r.logicalLength - take)
    (hdata : r'.data = r.data.drop (min take r.data.length)) (h : r'.carriesFin) :
    r.carriesFin := by
  rw [carriesFin, decide_eq_true_eq] at h ⊢
  rw [hlen, hdata, length_drop] at h
  omega

/-- What the acknowledgment leaves of the queue has a FIN only if the queue has. -/
theorem exists_fin_of_ackRecords (n : ℕ) (w : AckWalk) (rs : List SendRecord)
    (h : ∃ r ∈ (ackRecords n w rs).2, r.carriesFin) : ∃ r ∈ rs, r.carriesFin := by
  induction rs generalizing w with
  | nil => exact h
  | cons r _ ih =>
    rw [ackRecords] at h
    split at h
    · exact h
    · dsimp only at h
      split at h
      · obtain ⟨r', hr', hfin⟩ := ih _ h
        exact ⟨r', mem_cons_of_mem _ hr', hfin⟩
      · obtain ⟨r', hr', hfin⟩ := h
        rcases mem_cons.1 hr' with rfl | hr'
        · exact ⟨r, mem_cons_self, carriesFin_of_trim rfl rfl hfin⟩
        · exact ⟨r', mem_cons_of_mem _ hr', hfin⟩

theorem exists_fin_of_ackProbe (w : AckWalk) (probe : Option SendRecord)
    (h : ∃ r ∈ (ackProbe w probe).2.toList, r.carriesFin) : ∃ r ∈ probe.toList, r.carriesFin := by
  cases probe with
  | none => exact h
  | some probe =>
    rw [ackProbe] at h
    split at h
    · exact h
    · dsimp only at h
      split at h
      · simp at h
      · obtain ⟨_, hr', hfin⟩ := h
        obtain rfl := mem_singleton.1 hr'
        exact ⟨probe, by simp, carriesFin_of_trim rfl rfl hfin⟩

theorem exists_fin_of_finWithin {n : ℕ} {rs : List SendRecord} (h : finWithin n rs) :
    0 < n ∧ ∃ r ∈ rs, r.carriesFin := by
  induction rs generalizing n with
  | nil => cases h
  | cons r _ ih =>
    rw [finWithin, Bool.and_eq_true, Bool.or_eq_true, decide_eq_true_eq] at h
    rcases h.2 with hfin | hrest
    · have hpos : r.data.length < r.logicalLength := of_decide_eq_true hfin
      exact ⟨by omega, r, mem_cons_self, hfin⟩
    · obtain ⟨hpos, r', hr', hfin⟩ := ih hrest
      exact ⟨by omega, r', mem_cons_of_mem _ hr', hfin⟩

theorem finWithin_zero (rs : List SendRecord) : finWithin 0 rs = false :=
  Bool.eq_false_iff.2 fun h => absurd (exists_fin_of_finWithin h).1 (lt_irrefl 0)

theorem ackProbe_of_remaining_zero {w : AckWalk} (h : w.remaining = 0)
    (probe : Option SendRecord) : ackProbe w probe = (w, probe) := by
  cases probe with
  | none => rfl
  | some => rw [ackProbe, if_pos h]

/-- The walk takes the FIN just if the acknowledgment reaches it. -/
theorem walk_finAcked (n : ℕ) (w : AckWalk) (rs : List SendRecord) (probe : Option SendRecord) :
    (ackProbe (ackRecords n w rs).1 probe).1.finAcked =
      (w.finAcked || finWithin w.remaining (rs ++ probe.toList)) := by
  induction rs generalizing w with
  | nil =>
    cases probe with
    | none => exact (Bool.or_false _).symm
    | some r =>
      rw [ackRecords, nil_append, ackProbe]
      split
      case isTrue hzero => rw [hzero, finWithin_zero, Bool.or_false]
      case isFalse =>
        dsimp only
        split
        case isTrue htake => simp [finWithin, min_eq_right_iff.1 htake]
        case isFalse htake => simp [finWithin, show ¬r.logicalLength ≤ w.remaining by omega]
  | cons r _ ih =>
    rw [ackRecords, cons_append]
    split
    case isTrue hzero => rw [ackProbe_of_remaining_zero hzero, hzero, finWithin_zero, Bool.or_false]
    case isFalse =>
      dsimp only
      rw [finWithin]
      split
      case isTrue htake =>
        -- what is left of the acknowledgment goes on behind the record
        rw [ih]
        simp [AckWalk.visit, AckWalk.finish, min_eq_right_iff.1 htake, Bool.or_assoc]
      case isFalse htake =>
        have hlong : ¬r.logicalLength ≤ w.remaining := by omega
        rw [ackProbe_of_remaining_zero (by simp [AckWalk.visit, AckWalk.trim]; omega)]
        simp [AckWalk.visit, AckWalk.trim, hlong]

omit [CongestionController κ] in
theorem finAcked_acknowledge (b : TcpSendBuffer κ) (a w : UInt32) (n : ℕ) :
    (b.acknowledge a w n).finAcked = (b.finAcked ||
      finWithin (a - b.sndUna).toNat (b.retransmitQueue ++ b.persistProbe.toList)) :=
  walk_finAcked n (b.startWalk a) b.retransmitQueue b.persistProbe

omit [CongestionController κ] in
/-- The FIN may be acknowledged, if it was outstanding. -/
theorem acknowledge_finMoves (b : TcpSendBuffer κ) (a w : UInt32) (n : ℕ) :
    FinMoves sends b.FinOutstanding (b.acknowledge a w n) b := by
  have hacked := finAcked_acknowledge b a w n
  refine ⟨rfl, id, .inl, fun h => by rw [hacked, h, Bool.true_or], fun h => ?_, fun h => .inl ?_⟩
  · rw [hacked, Bool.or_eq_true] at h
    exact h.imp_right fun hwithin => (exists_fin_of_finWithin hwithin).2
  · obtain ⟨r, hr, hfin⟩ := h
    rcases mem_append.1 hr with hr | hr
    · obtain ⟨r, hr, hfin⟩ := exists_fin_of_ackRecords _ _ _ ⟨r, hr, hfin⟩
      exact ⟨r, mem_append_left _ hr, hfin⟩
    · obtain ⟨r, hr, hfin⟩ := exists_fin_of_ackProbe _ _ ⟨r, hr, hfin⟩
      exact ⟨r, mem_append_right _ hr, hfin⟩

theorem onAck_finMoves (b : TcpSendBuffer κ) (a w : UInt32) (n : ℕ) (ackOnly ece : Bool) :
    FinMoves sends b.FinOutstanding (b.onAck a w n ackOnly ece).1 b := by
  rcases onAck_cases b a w n ackOnly ece with ⟨-, hsame⟩ | ⟨-, -, hqueues⟩
  · exact .of_queues hsame
  · exact .trans (.of_queues hqueues) (acknowledge_finMoves b a w n)

/-- After an acknowledgment, the FIN is acknowledged if it was before, or is covered. -/
theorem finAcked_onAck (b : TcpSendBuffer κ) (a w : UInt32) (n : ℕ) (ackOnly ece : Bool) :
    (b.onAck a w n ackOnly ece).1.finAcked = (b.finAcked || b.coversFin a) := by
  rcases onAck_cases b a w n ackOnly ece with ⟨hold, hsame⟩ | ⟨hafter, hbefore, hqueues⟩
  · rw [congrArg SendQueues.finAcked hsame, coversFin]
    rcases hold with hafter | hbefore | rfl
    · rw [hafter, Bool.not_true, Bool.false_and, Bool.false_and, Bool.or_false]
    · rw [hbefore, Bool.not_true, Bool.and_false, Bool.false_and, Bool.or_false]
    · rw [UInt32.sub_self, UInt32.toNat_zero, finWithin_zero, Bool.and_false, Bool.or_false]
  · rw [congrArg SendQueues.finAcked hqueues, finAcked_acknowledge, coversFin, hafter, hbefore]
    rfl

theorem onSack_finMoves (b : TcpSendBuffer κ) (blocks : List TcpSackBlock) :
    FinMoves sends acks (b.onSack blocks).1 b := by
  rw [onSack]
  split
  · exact .of_queues rfl
  · have hmarked : ((sackRecords blocks ⟨b.sackedBytes, b.sackedSequence, 0, 0⟩
        b.retransmitQueue).2 ++ b.persistProbe.toList).map carriesFin =
        (b.retransmitQueue ++ b.persistProbe.toList).map carriesFin := by
      rw [map_append, sackRecords_map carriesFin (fun _ => rfl), ← map_append]
    dsimp only
    split <;> exact .of_outstanding ⟨rfl, rfl, rfl⟩ (finOutstanding_of_map hmarked)

/-! ## The invariant -/

namespace FinInOrder

section

omit [CongestionController κ]

theorem new (isn : UInt32) (config : TcpSendConfig) (make : UInt16 → κ) :
    FinInOrder (.new isn config make) :=
  ⟨nofun, nofun, fun ⟨_, hmem, _⟩ => by simp [TcpSendBuffer.new] at hmem, rfl⟩

theorem of_same (h : FinInOrder b) (hb : FinMoves False False b' b)
    (hpending : b'.pendingIsFin = false) : FinInOrder b' :=
  h.of_moves hb False.elim False.elim hpending

theorem enqueue (h : FinInOrder b) (data : Bytes) : FinInOrder (b.enqueue data).1 := by
  refine h.of_same (enqueue_finMoves b data) ?_
  rw [TcpSendBuffer.enqueue]
  split <;> exact h.pending

theorem requestFin (h : FinInOrder b) : FinInOrder b.requestFin.1 := by
  rw [TcpSendBuffer.requestFin]
  split
  · exact h
  · exact ⟨fun _ => rfl, h.acked, h.outstanding, h.pending⟩

end

theorem updateMss (h : FinInOrder b) (mss : UInt16) : FinInOrder (b.updateMss mss) := by
  refine h.of_same (.of_queues (updateMss_toSendQueues b mss)) ?_
  rw [TcpSendBuffer.updateMss]
  split <;> exact h.pending

theorem onAck (h : FinInOrder b) (a w : UInt32) (n : ℕ) (ackOnly ece : Bool) :
    FinInOrder (b.onAck a w n ackOnly ece).1 :=
  h.of_moves (onAck_finMoves b a w n ackOnly ece) False.elim id
    ((congrArg PendingSegment.pendingIsFin (onAck_pending ..)).trans h.pending)

theorem onSack (h : FinInOrder b) (blocks : List TcpSackBlock) :
    FinInOrder (b.onSack blocks).1 := by
  refine h.of_same (onSack_finMoves b blocks) ?_
  rw [TcpSendBuffer.onSack]
  split
  · exact h.pending
  · dsimp only
    split <;> exact h.pending

variable {w : UInt32} {n : ℕ}

/-- There is no segment to send. -/
theorem ask (h : FinInOrder b) (hnone : (b.nextSegment w n).2.hasSegment = false) :
    FinInOrder (b.nextSegment w n).1 := by
  have hasks := nextSegment_asksFin h.pending w n
  refine h.of_same hasks.moves (hasks.pending.trans ?_)
  by_contra hfin
  rw [Bool.not_eq_false] at hfin
  exact absurd (hasks.segment hfin).1 (by simp [hnone])

/-- The segment is given up. -/
theorem abandon (h : FinInOrder b) (w : UInt32) (n : ℕ) :
    FinInOrder (b.nextSegment w n).1.resetPending := by
  have hreset : FinMoves False False (b.nextSegment w n).1.resetPending (b.nextSegment w n).1 :=
    .of_queues rfl
  exact h.of_same (hreset.trans (nextSegment_asksFin h.pending w n).moves) rfl

/-- A FIN that counts as sent was in the segment, or sent before. -/
theorem transmit_moves (h : FinInOrder b) (w : UInt32) (n : ℕ) (owner : Option Bytes) (offset m : ℕ) :
    FinMoves ((b.nextSegment w n).2.isFin) False
      ((b.nextSegment w n).1.onSent owner offset m) b := by
  have hasks := nextSegment_asksFin h.pending w n
  rw [← hasks.pending]
  exact (onSent_finMoves ..).trans hasks.moves.mono

/-- The segment is sent. -/
theorem transmit (h : FinInOrder b) (w : UInt32) (n : ℕ) (owner : Option Bytes)
    (offset m : ℕ) : FinInOrder ((b.nextSegment w n).1.onSent owner offset m) := by
  have hasks := nextSegment_asksFin h.pending w n
  refine h.of_moves (h.transmit_moves w n owner offset m) hasks.due False.elim ?_
  rw [TcpSendBuffer.onSent]
  split
  case isTrue hkind =>
    rw [hasks.pending]
    by_contra hfin
    exact (hasks.segment (Bool.not_eq_false _ ▸ hfin)).2 hkind
  case isFalse => rfl

end FinInOrder

end TcpSendBuffer

end Netstack2
