import Netstack2.Lib.Table
import Netstack2.Tcp.Congestion.Bbr
import Netstack2.Tcp.Send.Effect

/-!
# The samples of a run

An acknowledgment that covers the first outstanding record takes a sample from it: the
round-trip time, and the rate of delivery since the record was sent. `SampleRun` keeps
the history of every outstanding record next to the buffer: when it was first sent, what
was outstanding and delivered then, and the segments in which it was sent again.
`SampleRun.Told` is what a record itself has of its history: the two times, and whether
it was *fast* retransmitted.

* Of a record that was sent again, one cannot know which segment was acknowledged, so it
  should give no sample. But it does if it was sent again only after a timeout or as a
  probe (`sample_after_timeout`); `karn_of_allowed` says that this is the only way, and
  `karn_iff_of_late` that it always happens then.
* The interval of a sample starts with the last delivery before the record was sent, and
  not with the record. After an idle time, it covers the idle time, too
  (`sample_over_idle_time`); `interval_iff` says when it does not.
-/

namespace Netstack2

open List

open CongestionController TcpSendBuffer

variable {κ : Type} [CongestionController κ]

/-! ## Samples -/

namespace TcpSendBuffer

/-- The first record, if an acknowledgment covers it. -/
def covered (b : TcpSendBuffer κ) (a : UInt32) : Option SendRecord :=
  b.retransmitQueue.head?.filter fun r => r.logicalLength ≤ (a - b.sndUna).toNat

theorem onEce_walk (b : TcpSendBuffer κ) (ece : Bool) (a : UInt32) (n : ℕ) :
    (b.onEce ece).walk a n = b.walk a n := by
  rw [onEce]
  split <;> rfl

end TcpSendBuffer

namespace SendOp

/-- The sample that the operation takes: an acknowledgment that moves `sndUna` takes one. -/
def sample (b : TcpSendBuffer κ) : SendOp → Option RateSample
  | ack a w n _ ece =>
    if b.acceptable a && a != b.sndUna then
      let b := b.onEce ece
      let walk := (b.walk a n).1
      some (((b.acknowledge a w n).sampleRtt walk).rateSample walk n).2
    else none
  | _ => none

/-- The controller is given the sample: in fast recovery, it is not. -/
def hands (b : TcpSendBuffer κ) : SendOp → Bool
  | ack _ _ _ _ ece => !inFastRecovery (b.onEce ece).controller
  | _ => false

/-- The sample that the operation hands to the controller. -/
def handed (b : TcpSendBuffer κ) (op : SendOp) : Option RateSample :=
  if op.hands b then op.sample b else none

theorem sample_ack (b : TcpSendBuffer κ) {a : UInt32} (w : UInt32) (n : ℕ) (ackOnly ece : Bool)
    (hnew : b.acceptable a ∧ a ≠ b.sndUna) :
    (ack a w n ackOnly ece).sample b =
      some ((((b.onEce ece).acknowledge a w n).sampleRtt (b.walk a n).1).rateSample
        (b.walk a n).1 n).2 := by
  rw [sample, if_pos (by simpa using hnew)]
  dsimp only
  rw [onEce_walk]

theorem acceptable_of_sample {b : TcpSendBuffer κ} {a w : UInt32} {n : ℕ} {ackOnly ece : Bool}
    {rs : RateSample} (h : (ack a w n ackOnly ece).sample b = some rs) :
    b.acceptable a ∧ a ≠ b.sndUna := by
  by_contra hnot
  rw [sample, if_neg (by simpa using hnot)] at h
  cases h

end SendOp

/-! ## Histories -/

/-- What happened to an outstanding record. -/
structure History where
  sentMs : ℕ
  /-- Nothing was outstanding when it was sent. -/
  alone : Bool
  /-- The time of the last delivery before it was sent, as the sampler has it. -/
  deliveredMs : ℕ
  /-- The segments in which it was sent again. -/
  resent : List PendingKind := []

/-- The place of the record that a segment comes from, among the outstanding ones: the probe
    is the last, and all others come from the first. -/
def PendingKind.place (q : SendQueues) : PendingKind → ℕ
  | .persistRetry | .persistPromote => q.retransmitQueue.length
  | _ => 0

/-- The histories after a segment of some kind was sent at the time `m`. -/
def PendingKind.histories (b : TcpSendBuffer κ) (m : ℕ) (hs : List History) :
    PendingKind → List History
  | .none => hs
  | .newData | .persistNew =>
    hs ++ [{ sentMs := m
             alone := b.retransmitQueue.isEmpty && b.persistProbe.isNone
             deliveredMs := b.sampler.deliveredTimeMs }]
  | kind => hs.modify (kind.place b.toSendQueues) fun h => { h with resent := h.resent ++ [kind] }

/-- The histories after an operation that does not close the buffer. -/
def SendOp.histories (b : TcpSendBuffer κ) (hs : List History) : SendOp → List History
  | transmit w n owner offset m => ((transmit w n owner offset m).sends b).histories b m hs
  | ack a w n ackOnly ece =>
    hs.drop (b.origins.length - ((ack a w n ackOnly ece).apply b).origins.length)
  | _ => hs

/-- A send buffer, and the histories of its outstanding records. -/
structure SampleRun (κ : Type) where
  buffer : TcpSendBuffer κ
  histories : List History := []

namespace SampleRun

/-- A run before its first operation. -/
def start (isn : UInt32) (config : TcpSendConfig) (make : UInt16 → κ) : SampleRun κ :=
  { buffer := .new isn config make }

/-- One operation of a run. -/
def step (s : SampleRun κ) (op : SendOp) : SampleRun κ where
  buffer := op.apply s.buffer
  histories := if op.closes s.buffer then [] else op.histories s.buffer s.histories

/-- The history of the record that the operation takes a sample from: the first one, if an
    acknowledgment covers it. -/
def sampled (s : SampleRun κ) : SendOp → Option History
  | .ack a _ _ _ _ =>
    if s.buffer.acceptable a && a != s.buffer.sndUna && (s.buffer.covered a).isSome then
      s.histories.head?
    else none
  | _ => none

/-- A round-trip time or a rate is handed to the controller only from a record that was sent
    once (Karn's rule). -/
def Karn (s : SampleRun κ) (op : SendOp) : Prop :=
  ∀ rs ∈ op.handed s.buffer, rs.rttMs ≠ 0 ∨ rs.deliveryRateBytesPerSec ≠ 0 →
    ∃ h ∈ s.sampled op, h.resent = []

/-- The record that a sample is taken from was not sent again, or it was fast retransmitted. -/
def FastOnly (s : SampleRun κ) (op : SendOp) : Prop :=
  op.hands s.buffer = true →
    ∀ h ∈ s.sampled op, h.resent = [] ∨ .fastRetransmit ∈ h.resent

/-- The interval of a sample from a record that was sent when nothing was outstanding does not
    start before the record was sent. -/
def WithinSending (s : SampleRun κ) (op : SendOp) : Prop :=
  ∀ rs ∈ op.sample s.buffer, ∀ h ∈ s.sampled op, h.alone = true →
    ∀ n ∈ op.times, rs.intervalMs ≤ n - h.sentMs

/-- The last delivery was not before the record was sent, or the record was fast retransmitted. -/
def DeliveredAtSending (s : SampleRun κ) (op : SendOp) : Prop :=
  ∀ h ∈ s.sampled op, h.alone = true →
    h.sentMs ≤ h.deliveredMs ∨ .fastRetransmit ∈ h.resent

instance (s : SampleRun κ) (op : SendOp) : Decidable (Karn s op) :=
  inferInstanceAs (Decidable (∀ rs ∈ _, _ → ∃ h ∈ _, _))

instance (s : SampleRun κ) (op : SendOp) : Decidable (FastOnly s op) :=
  inferInstanceAs (Decidable (_ → ∀ h ∈ _, _))

instance (s : SampleRun κ) (op : SendOp) : Decidable (WithinSending s op) :=
  inferInstanceAs (Decidable (∀ rs ∈ _, ∀ h ∈ _, _ → ∀ n ∈ _, _))

instance (s : SampleRun κ) (op : SendOp) : Decidable (DeliveredAtSending s op) :=
  inferInstanceAs (Decidable (∀ h ∈ _, _ → _))

end SampleRun

/-! ## What a sample is taken from -/

namespace TcpSendBuffer

theorem ackRecords_keeps_delivery (n : ℕ) {w : AckWalk} {d : PacketDeliveryState}
    (h : w.ackedRecordDelivery = some d) (rs : List SendRecord) :
    (ackRecords n w rs).1.ackedRecordDelivery = some d := by
  induction rs generalizing w with
  | nil => exact h
  | cons r _ ih =>
    have hvisit (take : ℕ) : (w.visit r take).ackedRecordDelivery = some d := by
      simp [AckWalk.visit, h]
    rw [ackRecords]
    split
    · exact h
    · dsimp only
      split
      · exact ih (hvisit _)
      · exact hvisit _

omit [CongestionController κ] in
/-- An acknowledgment that moves `sndUna` takes its sample from the first record, if it covers
    it, and from none otherwise. -/
theorem walk_delivery (b : TcpSendBuffer κ) {a : UInt32} (n : ℕ) (ha : a ≠ b.sndUna) :
    (b.walk a n).1.ackedRecordDelivery = (b.covered a).map SendRecord.delivery := by
  have hprobe (w : AckWalk) (probe : Option SendRecord) :
      (ackProbe w probe).1.ackedRecordDelivery = w.ackedRecordDelivery := by
    cases probe with
    | none => rfl
    | some =>
      rw [ackProbe]
      split
      · rfl
      · dsimp only
        split <;> rfl
  have hremaining : (b.startWalk a).remaining ≠ 0 := by
    intro hzero
    have hunwrap := seqAt_unwrap (b := b.sndUna) 0 a
    rw [seqAt_zero, show (a - b.sndUna).toNat = 0 from hzero, seqAt_zero] at hunwrap
    exact ha hunwrap.symm
  rw [walk_eq, hprobe, covered]
  cases b.retransmitQueue with
  | nil => rfl
  | cons r rs =>
    rw [ackRecords, if_neg hremaining, head?_cons]
    dsimp only
    have hstart : (b.startWalk a).ackedRecordDelivery = none := rfl
    have hvisit (take : ℕ) : ((b.startWalk a).visit r take).ackedRecordDelivery =
        if take = r.logicalLength then some r.delivery else none := by
      simp [AckWalk.visit, hstart]
    have hmin : min (b.startWalk a).remaining r.logicalLength = r.logicalLength ↔
        r.logicalLength ≤ (a - b.sndUna).toNat := by
      show min (a - b.sndUna).toNat r.logicalLength = r.logicalLength ↔ _
      omega
    split
    case isTrue hall =>
      rw [Option.filter_some_pos (by simpa using hmin.1 hall)]
      refine ackRecords_keeps_delivery n ?_ rs
      exact (hvisit _).trans (if_pos hall)
    case isFalse hpart =>
      rw [Option.filter_some_neg (by simpa using fun h => hpart (hmin.2 h))]
      exact (hvisit _).trans (if_neg hpart)

end TcpSendBuffer

namespace DeliveryRateSampler

variable (sampler : DeliveryRateSampler) {d : PacketDeliveryState} (acked n inflight : ℕ)

/-- A record that counts as retransmitted gives no sample. -/
theorem onAck_of_retransmitted (h : d.retransmitted) :
    (sampler.onAck d acked n inflight).2.rttMs = 0 ∧
      (sampler.onAck d acked n inflight).2.deliveryRateBytesPerSec = 0 ∧
      (sampler.onAck d acked n inflight).2.intervalMs = 0 := by
  simp [onAck, h]

/-- The interval starts with the last delivery before the record was sent. -/
theorem onAck_of_not_retransmitted (h : d.retransmitted = false) (hn : d.firstSentTimeMs ≤ n) :
    (sampler.onAck d acked n inflight).2.rttMs = n - d.firstSentTimeMs ∧
      (sampler.onAck d acked n inflight).2.intervalMs = n - d.deliveredTimeMs := by
  rw [onAck]
  dsimp only
  rw [if_pos ⟨h, hn⟩]
  split
  case isTrue => exact ⟨rfl, rfl⟩
  case isFalse hzero => exact ⟨rfl, (Nat.eq_zero_of_not_pos hzero).symm⟩

end DeliveryRateSampler

/-! ## What a record has of its history -/

namespace SampleRun

variable {s : SampleRun κ}

/-- The record has the times of its history, and counts as retransmitted if it was *fast*
    retransmitted. -/
structure Tells (h : History) (o : ℕ × PacketDeliveryState) : Prop where
  sent : o.2.firstSentTimeMs = h.sentMs
  delivered : o.2.deliveredTimeMs = h.deliveredMs
  retransmitted : o.2.retransmitted = true ↔ .fastRetransmit ∈ h.resent

/-- The outstanding records tell of their histories, one by one. -/
structure Told (s : SampleRun κ) : Prop where
  idle : s.buffer.pendingKind = .none
  tells : List.Forall₂ Tells s.histories s.buffer.origins

omit [CongestionController κ] in
theorem tells_stamp (b : TcpSendBuffer κ) (m : ℕ) (limited alone : Bool) :
    Tells { sentMs := m, alone := alone, deliveredMs := b.sampler.deliveredTimeMs }
      (0, b.stamp m limited) where
  sent := rfl
  delivered := rfl
  retransmitted := by simp [stamp, DeliveryRateSampler.onPacketSent]

/-- A segment that is not a fast retransmission leaves no trace. -/
theorem Tells.resent {h : History} {o : ℕ × PacketDeliveryState} (ho : Tells h o)
    (kind : PendingKind) (hkind : kind ≠ .fastRetransmit) (attempts : ℕ) :
    Tells { h with resent := h.resent ++ [kind] } (attempts, o.2) where
  sent := ho.sent
  delivered := ho.delivered
  retransmitted := by simp [ho.retransmitted, hkind.symm]

theorem Tells.fast {h : History} {o : ℕ × PacketDeliveryState} (ho : Tells h o) :
    Tells { h with resent := h.resent ++ [.fastRetransmit] }
      (o.1, { o.2 with retransmitted := true }) where
  sent := ho.sent
  delivered := ho.delivered
  retransmitted := by simp

variable {ackOnly ece : Bool} {hist : History} {hs : List History} {op : SendOp} {a w : UInt32}
  {n now : ℕ}

omit [CongestionController κ] in
/-- Sending a segment changes the records as it changes their histories. -/
theorem forall₂_tells_sent {b : TcpSendBuffer κ} {os : List (ℕ × PacketDeliveryState)}
    (h : List.Forall₂ Tells hs os) (m : ℕ) (limited : Bool) (kind : PendingKind) :
    List.Forall₂ Tells (kind.histories b m hs) (kind.origins (b.stamp m limited) os) := by
  have hprobe (kind : PendingKind) (hkind : kind ≠ .fastRetransmit) (i : ℕ) :
      List.Forall₂ Tells (hs.modify i fun h => { h with resent := h.resent ++ [kind] }) os := by
    have hmodify := forall₂_modify h (g := id) (fun _ o ho => ho.resent kind hkind o.1) i
    rwa [modify_id] at hmodify
  cases kind with
  | none => exact h
  | newData | persistNew => exact rel_append h (.cons (tells_stamp ..) .nil)
  | rtoRetransmit =>
    rw [PendingKind.origins, modifyHead_eq_modify_zero]
    exact forall₂_modify h (fun _ o ho => ho.resent .rtoRetransmit (by simp) (o.1 + 1)) 0
  | fastRetransmit =>
    rw [PendingKind.origins, modifyHead_eq_modify_zero]
    exact forall₂_modify h (fun _ o ho => ho.fast) 0
  | persistRetry => exact hprobe .persistRetry (by simp) _
  | persistExisting => exact hprobe .persistExisting (by simp) _
  | persistPromote => exact hprobe .persistPromote (by simp) _

theorem forall₂_tells_drop {os : List (ℕ × PacketDeliveryState)} (h : List.Forall₂ Tells hs os)
    (k : ℕ) : List.Forall₂ Tells (hs.drop (os.length - (os.drop k).length)) (os.drop k) := by
  rw [length_drop]
  rcases Nat.le_total k os.length with hk | hk
  · rw [Nat.sub_sub_self hk]
    exact forall₂_drop k h
  · have hlength := h.length_eq
    rw [drop_of_length_le hk, drop_of_length_le (by omega)]
    exact .nil

/-- A buffer that closes drops its records. -/
theorem tells_of_gaveUp (h : s.buffer.closed = false ∧ GaveUp (op.apply s.buffer)) :
    List.Forall₂ Tells (s.step op).histories (s.step op).buffer.origins := by
  rw [step]
  rw [if_pos (op.closes_of_gaveUp h), h.2.origins]
  exact .nil

theorem tells_of_closed_eq (hclosed : (op.apply s.buffer).closed = s.buffer.closed)
    (h : List.Forall₂ Tells (op.histories s.buffer s.histories) (op.apply s.buffer).origins) :
    List.Forall₂ Tells (s.step op).histories (s.step op).buffer.origins := by
  rw [step]
  rwa [if_neg (by simp [op.closes_of_eq hclosed])]

theorem Told.step (h : Told s) (op : SendOp) : Told (s.step op) where
  idle := op.apply_pendingKind h.idle
  tells := by
    have hquiet (hq : op.isQuiet = true) (hsame : op.histories s.buffer s.histories = s.histories) :
        List.Forall₂ Tells (s.step op).histories (s.step op).buffer.origins := by
      rcases SendOp.apply_of_isQuiet h.idle hq with hgave | ⟨-, horigins, -, hclosed⟩
      · exact tells_of_gaveUp hgave
      · refine tells_of_closed_eq hclosed ?_
        rw [hsame, horigins]
        exact h.tells
    cases op with
    | enqueue | requestFin | abandon | updateMss => exact hquiet rfl rfl
    | transmit w n owner offset m =>
      rcases transmit_sends h.idle w n owner offset m with hgave | hsends
      · exact tells_of_gaveUp hgave
      · obtain ⟨limited, horigins⟩ := hsends.origins
        refine tells_of_closed_eq hsends.closed ?_
        rw [SendOp.apply, horigins]
        exact forall₂_tells_sent h.tells m limited _
    | ack a w n ackOnly ece =>
      obtain ⟨k, horigins⟩ := onAck_origins s.buffer a w n ackOnly ece
      refine tells_of_closed_eq (onAck_closed s.buffer a w n ackOnly ece) ?_
      rw [SendOp.histories, SendOp.apply, horigins]
      exact forall₂_tells_drop h.tells k
    | sack blocks =>
      refine tells_of_closed_eq (onSack_closed s.buffer blocks) ?_
      rw [SendOp.apply, onSack_origins]
      exact h.tells

section

omit [CongestionController κ]

theorem told_start (isn : UInt32) (config : TcpSendConfig) (make : UInt16 → κ) :
    Told (start isn config make) where
  idle := rfl
  tells := .nil

/-- The covered record has its history. -/
theorem Told.head (h : Told s) {r : SendRecord} (hr : s.buffer.covered a = some r) :
    ∃ hist, s.histories.head? = some hist ∧ Tells hist r.origin := by
  have htells := h.tells
  rw [covered, Option.filter_eq_some_iff, head?_eq_some_iff] at hr
  obtain ⟨⟨_, hqueue⟩, -⟩ := hr
  rw [SendQueues.origins, hqueue] at htells
  cases hhist : s.histories with
  | nil => simp [hhist] at htells
  | cons hist =>
    rw [hhist] at htells
    cases htells with
    | cons hhead => exact ⟨hist, rfl, hhead⟩

theorem sampled_eq_some (h : s.sampled (.ack a w n ackOnly ece) = some hist) :
    (s.buffer.acceptable a ∧ a ≠ s.buffer.sndUna) ∧
      (∃ r, s.buffer.covered a = some r) ∧ s.histories.head? = some hist := by
  rw [sampled] at h
  obtain ⟨hall, h⟩ := Option.ite_none_right_eq_some.1 h
  simp only [Bool.and_eq_true, bne_iff_ne, Option.isSome_iff_exists] at hall
  exact ⟨hall.1, hall.2, h⟩

end

theorem Told.sample_of_sampled_eq_none (h : Told s) {rs : RateSample}
    (hnone : s.sampled (.ack a w n ackOnly ece) = none)
    (hrs : (SendOp.ack a w n ackOnly ece).sample s.buffer = some rs) :
    rs.rttMs = 0 ∧ rs.deliveryRateBytesPerSec = 0 := by
  have hnew : s.buffer.acceptable a = true ∧ a ≠ s.buffer.sndUna := SendOp.acceptable_of_sample hrs
  have hcovered : s.buffer.covered a = none := by
    rw [Option.eq_none_iff_forall_ne_some]
    intro r hr
    obtain ⟨hist, hhead, -⟩ := h.head hr
    rw [sampled, if_pos (by simp [hnew, hr]), hhead] at hnone
    cases hnone
  have hdelivery := walk_delivery s.buffer n hnew.2
  rw [hcovered] at hdelivery
  rw [SendOp.sample_ack s.buffer w n ackOnly ece hnew, rateSample.eq_def, hdelivery] at hrs
  cases hrs
  exact ⟨rfl, rfl⟩

/-- The sample from a record: nothing, if the record was fast retransmitted, and otherwise the
    times since its first sending, and since the last delivery before that. -/
theorem Told.sample (h : Told s) (hsampled : s.sampled (.ack a w n ackOnly ece) = some hist) :
    ∃ rs, (SendOp.ack a w n ackOnly ece).sample s.buffer = some rs ∧
      (.fastRetransmit ∈ hist.resent →
        rs.rttMs = 0 ∧ rs.deliveryRateBytesPerSec = 0 ∧ rs.intervalMs = 0) ∧
      (.fastRetransmit ∉ hist.resent → hist.sentMs ≤ n →
        rs.rttMs = n - hist.sentMs ∧ rs.intervalMs = n - hist.deliveredMs) := by
  obtain ⟨hnew, ⟨r, hr⟩, hhead⟩ := sampled_eq_some hsampled
  obtain ⟨_, hhead', htells⟩ := h.head hr
  obtain rfl : hist = _ := Option.some_inj.1 (hhead.symm.trans hhead')
  have hdelivery := walk_delivery s.buffer n hnew.2
  rw [hr] at hdelivery
  refine ⟨_, SendOp.sample_ack s.buffer w n ackOnly ece hnew, fun hfast => ?_, fun hfast hn => ?_⟩
  · rw [rateSample.eq_def, hdelivery]
    exact DeliveryRateSampler.onAck_of_retransmitted _ _ _ _ (htells.retransmitted.2 hfast)
  · rw [rateSample.eq_def, hdelivery]
    have honce : r.delivery.retransmitted = false :=
      Bool.eq_false_iff.2 fun hre => hfast (htells.retransmitted.1 hre)
    rw [← htells.sent] at hn ⊢
    rw [← htells.delivered]
    exact DeliveryRateSampler.onAck_of_not_retransmitted _ _ _ _ honce hn

/-! ## Karn's rule -/

theorem Told.karn (h : Told s) (hfast : FastOnly s op) : Karn s op := by
  intro rs hrs hsome
  rw [SendOp.handed] at hrs
  split at hrs
  case isFalse => cases hrs
  case isTrue hhands =>
    cases op with
    | ack a w n ackOnly ece =>
      cases hsampled : s.sampled (.ack a w n ackOnly ece) with
      | none =>
        -- no record is covered, and the sample is empty
        obtain ⟨hrtt, hrate⟩ := h.sample_of_sampled_eq_none hsampled hrs
        exact absurd hsome (by simp [hrtt, hrate])
      | some hist =>
        refine ⟨hist, rfl, (hfast hhands hist hsampled).resolve_right fun hresent => ?_⟩
        obtain ⟨rs', hrs', hempty, -⟩ := h.sample hsampled
        obtain rfl : rs = rs' := Option.some_inj.1 (hrs.symm.trans hrs')
        obtain ⟨hrtt, hrate, -⟩ := hempty hresent
        exact absurd hsome (by simp [hrtt, hrate])
    | _ => cases hhands

/-- The acknowledgment comes after the millisecond of the first sending of what it samples. -/
def Late (s : SampleRun κ) (op : SendOp) : Prop :=
  ∀ hist ∈ s.sampled op, ∀ n ∈ op.times, hist.sentMs < n

/-- Then nothing else keeps the rule. -/
theorem Told.karn_iff (h : Told s) (hlate : Late s op) : Karn s op ↔ FastOnly s op := by
  refine ⟨fun hkarn hhands hist hsampled => ?_, h.karn⟩
  cases op with
  | ack a w n ackOnly ece =>
    obtain ⟨rs, hrs, -, htimes⟩ := h.sample hsampled
    have hhanded : (SendOp.ack a w n ackOnly ece).handed s.buffer = some rs := by
      rw [SendOp.handed, if_pos hhands, hrs]
    rw [or_iff_not_imp_right]
    intro hfast
    have hlt : hist.sentMs < n := hlate hist hsampled n (mem_singleton.2 rfl)
    have hrtt : rs.rttMs ≠ 0 := by
      rw [(htimes hfast hlt.le).1]
      omega
    obtain ⟨_, hsampled', honce⟩ := hkarn rs hhanded (.inl hrtt)
    obtain rfl : hist = _ := Option.some_inj.1 (hsampled.symm.trans hsampled')
    exact honce
  | _ => cases hhands

theorem Told.allowed_karn_iff (h : Told s) {ops : List SendOp}
    (hlate : Allowed SampleRun.step Late s ops) :
    Allowed SampleRun.step Karn s ops ↔ Allowed SampleRun.step FastOnly s ops := by
  induction ops generalizing s with
  | nil => exact Iff.rfl
  | cons op _ ih => exact and_congr (h.karn_iff hlate.1) (ih (h.step op) hlate.2)

/-! ## Intervals -/

/-- The outstanding records were sent by the time `now`. -/
def SentBy (now : ℕ) (s : SampleRun κ) : Prop := ∀ h ∈ s.histories, h.sentMs ≤ now

omit [CongestionController κ] in
theorem SentBy.of_sampled (h : SentBy now s)
    (hsampled : s.sampled (.ack a w n ackOnly ece) = some hist) : hist.sentMs ≤ now :=
  h hist (mem_of_mem_head? (sampled_eq_some hsampled).2.2)

omit [CongestionController κ] in
theorem sentBy_histories {m : ℕ} (h : ∀ h ∈ hs, h.sentMs ≤ now) (hm : now ≤ m) (b : TcpSendBuffer κ)
    (kind : PendingKind) : ∀ h ∈ kind.histories b m hs, h.sentMs ≤ m := by
  have hle : ∀ h ∈ hs, h.sentMs ≤ m := fun hist hmem => (h hist hmem).trans hm
  have hnew (hist : History) (hsent : hist.sentMs = m) : ∀ h ∈ hs ++ [hist], h.sentMs ≤ m := by
    simp only [mem_append, mem_singleton]
    rintro h (hmem | rfl)
    · exact hle h hmem
    · exact hsent.le
  have hagain (kind : PendingKind) (i : ℕ) :
      ∀ h ∈ hs.modify i (fun h => { h with resent := h.resent ++ [kind] }), h.sentMs ≤ m := by
    refine forall_mem_modify hle ?_ i
    exact fun _ hsent => hsent
  cases kind with
  | none => exact hle
  | newData | persistNew => exact hnew _ rfl
  | rtoRetransmit => exact hagain .rtoRetransmit _
  | fastRetransmit => exact hagain .fastRetransmit _
  | persistRetry => exact hagain .persistRetry _
  | persistExisting => exact hagain .persistExisting _
  | persistPromote => exact hagain .persistPromote _

theorem SentBy.step (h : SentBy now s) (op : SendOp) (htimes : (now :: op.times).Pairwise (· ≤ ·)) :
    SentBy (op.times.getLastD now) (s.step op) := by
  rw [SentBy, SampleRun.step]
  split
  · exact nofun
  · cases op with
    | enqueue | requestFin | updateMss | sack => exact h
    | abandon => exact fun hist hmem => (h hist hmem).trans (by simpa [SendOp.times] using htimes)
    | transmit =>
      simp only [SendOp.times, pairwise_cons, mem_cons, not_mem_nil, or_false,
        forall_eq_or_imp, forall_eq] at htimes
      exact sentBy_histories h htimes.1.2 s.buffer _
    | ack =>
      simp only [SendOp.times, pairwise_cons, mem_cons, not_mem_nil, or_false, forall_eq] at htimes
      exact fun hist hmem => (h hist (mem_of_mem_drop hmem)).trans htimes.1

theorem Told.withinSending_iff (h : Told s) (hsent : SentBy now s)
    (htimes : (now :: op.times).Pairwise (· ≤ ·)) :
    WithinSending s op ↔ DeliveredAtSending s op := by
  cases op with
  | ack _ _ n =>
    simp only [SendOp.times, pairwise_cons, mem_cons, not_mem_nil, or_false, forall_eq] at htimes
    constructor
    · intro hwithin hist hsampled halone
      obtain ⟨rs, hrs, -, hinterval⟩ := h.sample hsampled
      rw [or_iff_not_imp_right]
      intro honce
      have hn : hist.sentMs ≤ n := (hsent.of_sampled hsampled).trans htimes.1
      have hle := hwithin rs hrs hist hsampled halone n (mem_singleton.2 rfl)
      rw [(hinterval honce hn).2] at hle
      omega
    · intro hdelivered rs hrs hist hsampled halone n hmem
      obtain rfl := mem_singleton.1 hmem
      obtain ⟨rs', hrs', hempty, hinterval⟩ := h.sample hsampled
      obtain rfl : rs = rs' := Option.some_inj.1 (hrs.symm.trans hrs')
      by_cases hfast : .fastRetransmit ∈ hist.resent
      · rw [(hempty hfast).2.2]
        exact Nat.zero_le _
      · have hn : hist.sentMs ≤ n := (hsent.of_sampled hsampled).trans htimes.1
        rw [(hinterval hfast hn).2]
        exact Nat.sub_le_sub_left ((hdelivered hist hsampled halone).resolve_right hfast) n
  | _ => exact ⟨fun _ _ hsampled => (nomatch hsampled), fun _ _ hrs => (nomatch hrs)⟩

theorem Told.allowed_iff (h : Told s) (hsent : SentBy now s) {ops : List SendOp}
    (htimes : (now :: ops.flatMap SendOp.times).Pairwise (· ≤ ·)) :
    Allowed SampleRun.step WithinSending s ops ↔
      Allowed SampleRun.step DeliveredAtSending s ops := by
  induction ops generalizing s now with
  | nil => exact Iff.rfl
  | cons op _ ih =>
    obtain ⟨hfirst, hrest, -⟩ := pairwise_times htimes
    exact and_congr (h.withinSending_iff hsent hfirst) (ih (h.step op) (hsent.step op hfirst) hrest)

end SampleRun

/-! ## Main results -/

open SampleRun

/-- For every congestion controller and every run in which no sample is taken from a record that
    was sent again only after timeouts or by the persist timer: a round-trip time or a rate is
    handed to the controller only from a record that was sent once. -/
theorem karn_of_allowed (isn : UInt32) (config : TcpSendConfig) (make : UInt16 → κ)
    {ops : List SendOp} (h : Allowed step FastOnly (start isn config make) ops) :
    Allowed step Karn (start isn config make) ops :=
  h.imp (told_start ..) fun _ op htold hfast => ⟨htold.karn hfast, htold.step op⟩

/-- Where each acknowledgment comes later than the first sending of what it samples, a run that
    takes a sample from a record sent again after a timeout or as a probe breaks the rule. -/
theorem karn_iff_of_late (isn : UInt32) (config : TcpSendConfig) (make : UInt16 → κ)
    {ops : List SendOp} (h : Allowed SampleRun.step Late (start isn config make) ops) :
    Allowed SampleRun.step Karn (start isn config make) ops ↔
      Allowed SampleRun.step FastOnly (start isn config make) ops :=
  (told_start ..).allowed_karn_iff h

/-- A fast retransmission: the acknowledgment after it samples nothing. -/
theorem karn_of_fast_retransmission :
    let ops := [SendOp.enqueue [1, 2], .transmit 1000 0 (some [1, 2]) 0 0,
      .enqueue [3, 4], .transmit 1000 1 (some [3, 4]) 0 1,
      .enqueue [5, 6], .transmit 1000 2 (some [5, 6]) 0 2,
      .enqueue [7, 8], .transmit 1000 3 (some [7, 8]) 0 3,
      .sack [⟨2, 8⟩], .transmit 1000 10 none 0 10, .ack 8 1000 20 true false]
    Allowed step FastOnly (start 0 { initialMss := 4 } BbrController.new) ops ∧
      Allowed step Karn (start 0 { initialMss := 4 } BbrController.new) ops := by
  intro ops
  have hfast : Allowed step FastOnly (start 0 { initialMss := 4 } BbrController.new)
      ops := by decide +kernel
  exact ⟨hfast, karn_of_allowed 0 { initialMss := 4 } BbrController.new hfast⟩

/-- A segment is sent, retransmitted after a timeout of 1000 ms, and acknowledged 10 ms later.
    The controller is told of a round-trip time of 1010 ms. -/
theorem sample_after_timeout :
    let s := [SendOp.enqueue [1, 2, 3, 4], .transmit 1000 0 (some [1, 2, 3, 4]) 0 0,
      .transmit 1000 1000 none 0 1000].foldl step
      (start 0 { initialMss := 4 } BbrController.new)
    let op := SendOp.ack 4 1000 1010 true false
    (s.sampled op).map History.resent = some [.rtoRetransmit] ∧
      (op.handed s.buffer).map RateSample.rttMs = some 1010 ∧ ¬Karn s op := by
  decide +kernel

/-- For every congestion controller and every run with nondecreasing times: the interval of each
    sample from a record that was sent when nothing was outstanding lies within the time from the
    sending to the acknowledgment, if and only if each of these records was sent at the time of
    the last delivery, or fast retransmitted. -/
theorem interval_iff (isn : UInt32) (config : TcpSendConfig) (make : UInt16 → κ)
    {ops : List SendOp} (htimes : (ops.flatMap SendOp.times).Pairwise (· ≤ ·)) :
    Allowed SampleRun.step WithinSending (start isn config make) ops ↔
      Allowed SampleRun.step DeliveredAtSending (start isn config make) ops := by
  have htimes' : (0 :: ops.flatMap SendOp.times).Pairwise (· ≤ ·) :=
    pairwise_cons.2 ⟨fun n _ => Nat.zero_le n, htimes⟩
  exact (told_start ..).allowed_iff nofun htimes'

/-- The first segment of a connection, sent at its start and acknowledged 10 ms later. -/
theorem interval_iff_at_start :
    let ops := [SendOp.enqueue [1, 2, 3, 4], .transmit 1000 0 (some [1, 2, 3, 4]) 0 0,
      .ack 4 1000 10 true false]
    (ops.flatMap SendOp.times).Pairwise (· ≤ ·) ∧
      Allowed step WithinSending (start 0 { initialMss := 4 } BbrController.new) ops := by
  intro ops
  have htimes : (ops.flatMap SendOp.times).Pairwise (· ≤ ·) := by decide
  refine ⟨htimes, (interval_iff 0 { initialMss := 4 } BbrController.new htimes).2 ?_⟩
  decide +kernel

/-- The first segment of a connection is sent after 1000 ms and acknowledged 10 ms later. The
    interval of its sample is 1010 ms. -/
theorem sample_over_idle_time :
    let ops := [SendOp.enqueue [1, 2, 3, 4], .transmit 1000 1000 (some [1, 2, 3, 4]) 0 1000]
    let op := SendOp.ack 4 1000 1010 true false
    let s := ops.foldl step (start 0 { initialMss := 4 } BbrController.new)
    ((ops ++ [op]).flatMap SendOp.times).Pairwise (· ≤ ·) ∧
      (s.sampled op).map History.alone = some true ∧
      (s.sampled op).map History.sentMs = some 1000 ∧
      (op.sample s.buffer).map RateSample.intervalMs = some 1010 ∧ ¬WithinSending s op := by
  decide +kernel

end Netstack2
