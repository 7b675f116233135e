import Netstack2.Tcp.Congestion.Bbr
import Netstack2.Tcp.Send.Effect

/-!
# One fast retransmission for each loss

A third duplicate acknowledgment, or a list of blocks that leaves three records
selectively acknowledged, asks for a fast retransmission (`SendOp.asksFast`). `FastRun`
counts those that are sent until `sndUna` moves or a timeout retransmits.

The requests are one flag, which a retransmission clears. What keeps further signs of
the same loss from setting it again is the fast recovery of the controller. A controller
without one is asked again with every list of blocks (`bbr_retransmits_twice`).
`fastSent_le_one` says that nothing else goes wrong: as long as no request comes after
the retransmission, there is one only.
-/

namespace Netstack2

open CongestionController TcpSendBuffer

variable {κ : Type} [CongestionController κ]

/-- The operation asks for a fast retransmission. -/
def SendOp.asksFast (b : TcpSendBuffer κ) : SendOp → Bool
  | ack a w _ ackOnly ece =>
    b.acceptable a && a == b.sndUna && (b.onEce ece).thirdDuplicate w ackOnly
  | sack blocks => b.sacksThree blocks
  | _ => false

/-- A send buffer, and the fast retransmissions since `sndUna` last moved or a timeout last
    retransmitted. -/
structure FastRun (κ : Type) where
  buffer : TcpSendBuffer κ
  fastSent : ℕ := 0

namespace FastRun

/-- A run before its first operation. -/
def start (isn : UInt32) (config : TcpSendConfig) (make : UInt16 → κ) : FastRun κ :=
  { buffer := .new isn config make }

/-- One operation of a run. -/
def step (s : FastRun κ) (op : SendOp) : FastRun κ where
  buffer := op.apply s.buffer
  fastSent :=
    if (op.apply s.buffer).sndUna ≠ s.buffer.sndUna ∨ op.sends s.buffer = .rtoRetransmit then 0
    else if op.sends s.buffer = .fastRetransmit then s.fastSent + 1
    else s.fastSent

/-- After a fast retransmission, no other is asked for. -/
def AsksOnce (s : FastRun κ) (op : SendOp) : Prop := 0 < s.fastSent → op.asksFast s.buffer = false

instance (s : FastRun κ) (op : SendOp) : Decidable (AsksOnce s op) :=
  inferInstanceAs (Decidable (_ → _))

end FastRun

/-! ## Requests -/

namespace SendOp

variable {b : TcpSendBuffer κ}

/-- What sends does not ask. -/
theorem asksFast_of_sends {op : SendOp} (h : op.sends b ≠ .none) : op.asksFast b = false := by
  cases op with
  | transmit => rfl
  | _ => exact absurd rfl h

theorem ack_fastRetransmitPending (a w : UInt32) (n : ℕ) (ackOnly ece : Bool)
    (huna : ((ack a w n ackOnly ece).apply b).sndUna = b.sndUna)
    (h : ((ack a w n ackOnly ece).apply b).fastRetransmitPending) :
    (b.fastRetransmitPending ∧ ((ack a w n ackOnly ece).sends b).servesFast = false) ∨
      (ack a w n ackOnly ece).asksFast b := by
  rw [apply] at h huna
  cases hacceptable : b.acceptable a with
  | false =>
    rw [onAck_of_not_acceptable b a w n ackOnly ece hacceptable] at h
    exact .inl ⟨h, rfl⟩
  | true =>
    rw [onAck_of_acceptable b a w n ackOnly ece hacceptable] at h huna
    by_cases ha : a = b.sndUna
    · rw [if_pos ha] at h
      have hdup := (congrArg Marks.fastRetransmitPending
        (onDuplicateAck_marks (b.onEce ece) w n ackOnly)).symm.trans h
      have hece : (b.onEce ece).fastRetransmitPending = b.fastRetransmitPending :=
        congrArg Marks.fastRetransmitPending (onEce_marks b ece)
      rw [Bool.or_eq_true, hece] at hdup
      refine hdup.imp (fun hfast => ⟨hfast, rfl⟩) fun hthird => ?_
      rw [asksFast, hacceptable, hthird, beq_iff_eq.2 ha]
      rfl
    · -- the acknowledgment moves `sndUna`
      rw [if_neg ha, onNewAck_toSendQueues] at huna
      exact absurd huna ha

/-- As long as `sndUna` stays, a fast retransmission is pending only if it was before, and
    is not served, or is asked for. -/
theorem apply_fastRetransmitPending (hidle : b.pendingKind = .none) (op : SendOp)
    (huna : (op.apply b).sndUna = b.sndUna) (h : (op.apply b).fastRetransmitPending) :
    (b.fastRetransmitPending ∧ (op.sends b).servesFast = false) ∨
      op.asksFast b := by
  cases hquiet : op.isQuiet with
  | true =>
    have hsends : op.sends b = .none := by cases op <;> first | rfl | cases hquiet
    rcases apply_of_isQuiet hidle hquiet with ⟨-, hgaveUp⟩ | ⟨hmarks, -⟩
    · simp [hgaveUp.fastRetransmitPending] at h
    · rw [hsends]
      exact .inl ⟨(congrArg Marks.fastRetransmitPending hmarks).symm.trans h, rfl⟩
  | false =>
    cases op with
    | transmit w n owner offset m =>
      rcases transmit_sends hidle w n owner offset m with ⟨-, hgaveUp⟩ | hsends
      · simp [apply, hgaveUp.fastRetransmitPending] at h
      · have hfast := (congrArg Marks.fastRetransmitPending hsends.marks).symm.trans h
        exact .inl (by simpa [Marks.sent, SendTimers.marks] using hfast)
    | ack a w n ackOnly ece => exact ack_fastRetransmitPending a w n ackOnly ece huna h
    | sack blocks =>
      have hfast := (congrArg Marks.fastRetransmitPending (onSack_marks b blocks)).symm.trans h
      rw [Bool.or_eq_true] at hfast
      exact hfast.imp_left fun hfast => ⟨hfast, rfl⟩
    | enqueue | requestFin | abandon | updateMss => cases hquiet

end SendOp

/-! ## Whole runs -/

namespace FastRun

/-- A fast retransmission that was sent has served all requests. -/
structure Served (s : FastRun κ) : Prop where
  idle : s.buffer.pendingKind = .none
  once : s.fastSent ≤ 1
  served : 0 < s.fastSent → s.buffer.fastRetransmitPending = false

theorem Served.step {s : FastRun κ} (h : Served s) {op : SendOp} (hop : AsksOnce s op) :
    Served (s.step op) := by
  have hidle := op.apply_pendingKind h.idle
  by_cases hreset : (op.apply s.buffer).sndUna ≠ s.buffer.sndUna ∨
      op.sends s.buffer = .rtoRetransmit
  · have hzero : (s.step op).fastSent = 0 := if_pos hreset
    exact ⟨hidle, by omega, fun hpos => absurd hzero (ne_of_gt hpos)⟩
  have hsame := not_or.1 hreset
  rw [not_not] at hsame
  have hpending := op.apply_fastRetransmitPending h.idle hsame.1
  by_cases hfast : op.sends s.buffer = .fastRetransmit
  · -- it was asked for, so it is the first, and it serves the request
    have hasked := fastRetransmitPending_of_sends h.idle hfast
    have hfirst : s.fastSent = 0 := by
      by_contra hne
      rw [h.served (Nat.pos_of_ne_zero hne)] at hasked
      cases hasked
    have hone : (s.step op).fastSent = 1 := by
      rw [FastRun.step, if_neg hreset, if_pos hfast, hfirst]
    refine ⟨hidle, hone.le, fun _ => Bool.eq_false_iff.2 fun hset => ?_⟩
    rcases hpending hset with ⟨-, hunserved⟩ | hasks
    · rw [hfast] at hunserved
      cases hunserved
    · rw [SendOp.asksFast_of_sends (hfast ▸ nofun)] at hasks
      cases hasks
  · have hcount : (s.step op).fastSent = s.fastSent := by
      rw [FastRun.step, if_neg hreset, if_neg hfast]
    refine ⟨hidle, hcount ▸ h.once, fun hpos => Bool.eq_false_iff.2 fun hset => ?_⟩
    rw [hcount] at hpos
    rcases hpending hset with ⟨hbefore, -⟩ | hasks
    · rw [h.served hpos] at hbefore
      cases hbefore
    · rw [hop hpos] at hasks
      cases hasks

end FastRun

/-- For every congestion controller and every run in which no fast retransmission is asked for after
    one was sent, until `sndUna` moves or a timeout retransmits: at most one is sent until then. -/
theorem fastSent_le_one (isn : UInt32) (config : TcpSendConfig) (make : UInt16 → κ) {s : FastRun κ}
    (h : Runs (fun s op s' => FastRun.AsksOnce s op ∧ s' = s.step op) (.start isn config make) s) :
    s.fastSent ≤ 1 := by
  have hserved : s.Served := by
    refine Runs.invariant h ⟨rfl, Nat.zero_le 1, nofun⟩ ?_
    rintro s op s' hs ⟨hop, rfl⟩
    exact hs.step hop
  exact hserved.once

/-- Three duplicate acknowledgments, the fast retransmission, and three more of them. -/
theorem fastSent_le_one_of_duplicates :
    let s := [SendOp.enqueue [1, 2, 3, 4, 5, 6, 7, 8], .transmit 1000 0 (some [1, 2, 3, 4]) 0 0,
      .transmit 1000 0 (some [5, 6, 7, 8]) 0 0, .ack 0 1000 1 true false, .ack 0 1000 2 true false,
      .ack 0 1000 3 true false, .transmit 1000 4 none 0 4, .ack 0 1000 5 true false,
      .ack 0 1000 6 true false, .ack 0 1000 7 true false].foldl FastRun.step
      (.start 0 { initialMss := 4 } AimdController.new)
    s.fastSent = 1 ∧ s.fastSent ≤ 1 := by
  intro s
  exact ⟨by decide +kernel, fastSent_le_one 0 { initialMss := 4 } AimdController.new
    (Allowed.runs (by decide +kernel))⟩

/-- Three of four segments are selectively acknowledged. The first is retransmitted, and then
    retransmitted again when the blocks are repeated. -/
theorem bbr_retransmits_twice :
    let s := [SendOp.enqueue [1, 2], .transmit 1000 0 (some [1, 2]) 0 0,
      .enqueue [3, 4], .transmit 1000 1 (some [3, 4]) 0 1,
      .enqueue [5, 6], .transmit 1000 2 (some [5, 6]) 0 2,
      .enqueue [7, 8], .transmit 1000 3 (some [7, 8]) 0 3,
      .sack [⟨2, 8⟩], .transmit 1000 10 none 0 10,
      .sack [⟨2, 8⟩], .transmit 1000 11 none 0 11].foldl FastRun.step
      (.start 0 { initialMss := 4 } BbrController.new)
    s.buffer.closed = false ∧ s.buffer.sndUna = 0 ∧ ¬s.fastSent ≤ 1 := by
  decide +kernel

end Netstack2
