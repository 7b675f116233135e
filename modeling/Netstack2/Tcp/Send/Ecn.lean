import Netstack2.Tcp.Send.Effect

/-!
# One reduction for each window of data

An acknowledgment that echoes a congestion mark makes the controller reduce its window
(`SendOp.reduces`), and the next segment carries a CWR in answer. A reduction is for a
window of data: what was sent and not acknowledged at that moment. `EcnRun` tracks how
much of the window of the last reduction is outstanding, and whether the reduction was
answered.

The buffer remembers only that the answer is owed. While it is owed, there is no further
reduction; after the CWR is sent, the echoes still on their way cause another one in
the same window (`echo_reduces_twice`). `once_per_window_iff` says that this is the only
way: the reductions of a run are one for each window if and only if no echo for a window
comes after the answer.
-/

namespace Netstack2

open CongestionController TcpSendBuffer

variable {κ : Type} [CongestionController κ]

namespace SendOp

/-- The controller is told of a congestion mark. -/
def reduces (b : TcpSendBuffer κ) : SendOp → Bool
  | ack a _ _ _ ece => b.acceptable a && (ece && !b.ecnCwrQueued)
  | _ => false

/-- A segment with a CWR is sent. -/
def answers (b : TcpSendBuffer κ) : SendOp → Bool
  | transmit w n owner offset m =>
    (b.nextSegment w n).2.setCwr && (transmit w n owner offset m).sends b != .none
  | _ => false

/-- An acknowledgment arrives. -/
def isAck : SendOp → Bool
  | ack .. => true
  | _ => false

end SendOp

/-- A send buffer, and the window of its last reduction. -/
structure EcnRun (κ : Type) where
  buffer : TcpSendBuffer κ
  /-- The sequence numbers of the window that are not acknowledged. -/
  window : ℕ := 0
  /-- A CWR was sent since the reduction, or the buffer has closed. -/
  answered : Bool := false

namespace EcnRun

/-- A run before its first operation. -/
def start (isn : UInt32) (config : TcpSendConfig) (make : UInt16 → κ) : EcnRun κ :=
  { buffer := .new isn config make }

/-- One operation of a run. A reduction is for all that is outstanding after the acknowledgment. -/
def step (s : EcnRun κ) (op : SendOp) : EcnRun κ where
  buffer := op.apply s.buffer
  window :=
    if op.reduces s.buffer then (s.buffer.sndMax - (op.apply s.buffer).sndUna).toNat
    else s.window - op.acks s.buffer
  answered := !op.reduces s.buffer && (s.answered || op.answers s.buffer || op.closes s.buffer)

/-- The acknowledgment covers the rest of the window. -/
def covers (s : EcnRun κ) (a : UInt32) : Bool := s.window ≤ (a - s.buffer.sndUna).toNat

/-- A reduction comes only with an acknowledgment that covers the window of the last one. -/
def OncePerWindow (s : EcnRun κ) : SendOp → Prop
  | .ack a w n ackOnly ece =>
    (SendOp.ack a w n ackOnly ece).reduces s.buffer = true → s.covers a = true
  | _ => True

instance (s : EcnRun κ) : (op : SendOp) → Decidable (OncePerWindow s op)
  | .ack a w n ackOnly ece => inferInstanceAs (Decidable
      ((SendOp.ack a w n ackOnly ece).reduces s.buffer = true → s.covers a = true))
  | .enqueue _ | .requestFin | .transmit .. | .abandon .. | .sack _ | .updateMss _ =>
    .isTrue trivial

/-- An acknowledgment that echoes a mark, and does not cover the window of the last
    reduction, comes only before the answer. -/
def EchoBeforeAnswer (s : EcnRun κ) : SendOp → Prop
  | .ack a _ _ _ ece =>
    s.buffer.acceptable a = true → ece = true → s.covers a = false → s.answered = false
  | _ => True

end EcnRun

/-! ## The answer that is owed -/

namespace TcpSendBuffer

variable {b : TcpSendBuffer κ}

theorem Pick.setCwr {w : UInt32} {n : ℕ} {p : PendingSegment} {r : TcpSendNextResult}
    (h : Pick b w n p r) : r.setCwr = b.pendingSetCwr := by
  cases h <;> rfl

/-- The next segment carries the CWR that is owed. -/
theorem nextSegment_setCwr (hopen : b.closed = false) (hidle : b.pendingKind = .none) (w : UInt32)
    (n : ℕ) : (b.nextSegment w n).2.setCwr = b.ecnCwrQueued := by
  have hpending := congrArg PendingSegment.pendingSetCwr (polled_pending b n w)
  rcases nextSegment_pick hopen hidle w n with ⟨-, -, hclose⟩ | ⟨p, r, hpick, hnext⟩
  · rw [hclose]
    exact hpending
  · rw [hnext]
    exact hpick.setCwr.trans hpending

end TcpSendBuffer

namespace SendOp

variable {b : TcpSendBuffer κ}

theorem transmit_ecnCwrQueued (hidle : b.pendingKind = .none) (w : UInt32) (n : ℕ)
    (owner : Option Bytes) (offset m : ℕ) :
    ((transmit w n owner offset m).apply b).ecnCwrQueued =
      (b.ecnCwrQueued && !((transmit w n owner offset m).answers b ||
        (transmit w n owner offset m).closes b)) := by
  rcases transmit_sends hidle w n owner offset m with hgaveUp | hsends
  · rw [closes_of_gaveUp _ hgaveUp, Bool.or_true, Bool.not_true, Bool.and_false]
    exact hgaveUp.2.ecnCwrQueued
  · have hecn : ((transmit w n owner offset m).apply b).ecnCwrQueued =
        (b.ecnCwrQueued && (transmit w n owner offset m).sends b == .none) :=
      congrArg Marks.ecnCwrQueued hsends.marks
    rw [hecn, closes_of_eq (transmit w n owner offset m) hsends.closed, answers, Bool.or_false]
    cases hclosed : b.closed with
    | true =>
      -- a closed buffer sends nothing
      have hnone : (transmit w n owner offset m).sends b = .none := by
        rw [sends, nextSegment_closed hclosed, committed, hidle, ite_self]
      simp [hnone]
    | false =>
      rw [nextSegment_setCwr hclosed hidle]
      cases b.ecnCwrQueued <;> simp [bne]

/-- Between the acknowledgments, an answer stays owed until it is sent or the buffer closes. -/
theorem apply_ecnCwrQueued (hidle : b.pendingKind = .none) {op : SendOp} (hack : op.isAck = false) :
    (op.apply b).ecnCwrQueued = (b.ecnCwrQueued && !(op.answers b || op.closes b)) := by
  cases hquiet : op.isQuiet with
  | true =>
    have hanswers : op.answers b = false := by cases op <;> first | rfl | cases hquiet
    rcases apply_of_isQuiet hidle hquiet with hgaveUp | ⟨hmarks, -, -, hclosed⟩
    · rw [closes_of_gaveUp _ hgaveUp, Bool.or_true, Bool.not_true, Bool.and_false]
      exact hgaveUp.2.ecnCwrQueued
    · rw [closes_of_eq _ hclosed, hanswers, Bool.or_false, Bool.not_false, Bool.and_true]
      exact congrArg Marks.ecnCwrQueued hmarks
  | false =>
    cases op with
    | transmit w n owner offset m => exact transmit_ecnCwrQueued hidle w n owner offset m
    | ack => cases hack
    | sack blocks =>
      have hanswers : (sack blocks).answers b = false := rfl
      rw [closes_of_eq (sack blocks) (onSack_closed b blocks), hanswers, Bool.or_false,
        Bool.not_false, Bool.and_true]
      exact congrArg Marks.ecnCwrQueued (onSack_marks b blocks)
    | enqueue | requestFin | abandon | updateMss => cases hquiet

/-- An acknowledgment in range that echoes a mark leaves the answer owed. -/
theorem ack_ecnCwrQueued (a w : UInt32) (n : ℕ) (ackOnly ece : Bool) :
    ((ack a w n ackOnly ece).apply b).ecnCwrQueued =
      (b.ecnCwrQueued || (ack a w n ackOnly ece).reduces b) := by
  rw [apply, reduces]
  cases hacceptable : b.acceptable a with
  | false =>
    rw [onAck_of_not_acceptable b a w n ackOnly ece hacceptable, Bool.false_and, Bool.or_false]
  | true =>
    obtain ⟨_, _, hmarks⟩ := onAck_marks b a w n ackOnly ece hacceptable
    refine (congrArg Marks.ecnCwrQueued hmarks).trans ?_
    cases b.ecnCwrQueued <;> simp

end SendOp

/-! ## Whole runs -/

namespace EcnRun

variable {s : EcnRun κ}

/-- The answer is owed from a reduction on, until it is given. -/
structure Owes (s : EcnRun κ) : Prop where
  idle : s.buffer.pendingKind = .none
  answered : s.answered = true → s.buffer.ecnCwrQueued = false
  owed : 0 < s.window → s.answered = false → s.buffer.ecnCwrQueued = true

theorem Owes.step (h : Owes s) (op : SendOp) : Owes (s.step op) := by
  cases hack : op.isAck with
  | false =>
    have hreduces : op.reduces s.buffer = false := by cases op <;> first | rfl | cases hack
    have hflag := SendOp.apply_ecnCwrQueued h.idle hack
    have hanswered : (s.step op).answered =
        (s.answered || (op.answers s.buffer || op.closes s.buffer)) := by
      simp [EcnRun.step, hreduces, Bool.or_assoc]
    have hwindow : (s.step op).window ≤ s.window := by simp [EcnRun.step, hreduces]
    refine ⟨op.apply_pendingKind h.idle, fun hgiven => hflag.trans ?_,
      fun hpos hgiven => hflag.trans ?_⟩
    · rw [hanswered, Bool.or_eq_true] at hgiven
      rcases hgiven with hgiven | hgiven
      · rw [h.answered hgiven, Bool.false_and]
      · rw [hgiven, Bool.not_true, Bool.and_false]
    · rw [hanswered, Bool.or_eq_false_iff] at hgiven
      rw [h.owed (lt_of_lt_of_le hpos hwindow) hgiven.1, hgiven.2]
      rfl
  | true =>
    cases op with
    | ack a w n ackOnly ece =>
      have hflag := SendOp.ack_ecnCwrQueued (b := s.buffer) a w n ackOnly ece
      have hcloses := SendOp.ack_closes (b := s.buffer) a w n ackOnly ece
      refine ⟨SendOp.apply_pendingKind h.idle _, fun hgiven => hflag.trans ?_,
        fun hpos hgiven => hflag.trans ?_⟩
      · simp only [EcnRun.step, hcloses, SendOp.answers, Bool.and_eq_true, Bool.not_eq_true',
          Bool.or_false] at hgiven
        rw [h.answered hgiven.2, hgiven.1, Bool.or_false]
      · cases hreduces : (SendOp.ack a w n ackOnly ece).reduces s.buffer with
        | true => exact Bool.or_true _
        | false =>
          simp only [EcnRun.step, hreduces, hcloses, SendOp.answers, Bool.not_false, Bool.true_and,
            Bool.or_false] at hgiven hpos
          rw [h.owed (lt_of_lt_of_le hpos (Nat.sub_le ..)) hgiven, Bool.true_or]
    | _ => cases hack

omit [CongestionController κ] in
/-- An echo causes a reduction in the window of the last one exactly if that was answered. -/
theorem Owes.oncePerWindow_iff (h : Owes s) (op : SendOp) :
    OncePerWindow s op ↔ EchoBeforeAnswer s op := by
  cases op with
  | ack a =>
    have hflag (hcovers : s.covers a = false) : s.buffer.ecnCwrQueued = !s.answered := by
      have hpos : 0 < s.window := by
        simp only [covers, decide_eq_false_iff_not] at hcovers
        omega
      cases hanswered : s.answered with
      | false => exact h.owed hpos hanswered
      | true => exact h.answered hanswered
    simp only [OncePerWindow, EchoBeforeAnswer, SendOp.reduces, Bool.and_eq_true, Bool.not_eq_true']
    constructor
    · intro honce hacceptable hece hcovers
      cases hanswered : s.answered with
      | false => rfl
      | true =>
        have hquiet := honce ⟨hacceptable, hece, h.answered hanswered⟩
        simp [hcovers] at hquiet
    · rintro hbefore ⟨hacceptable, hece, hqueued⟩
      cases hcovers : s.covers a with
      | true => rfl
      | false =>
        have howed := hflag hcovers
        simp [hbefore hacceptable hece hcovers, hqueued] at howed
  | _ => exact Iff.rfl

end EcnRun

/-- For every congestion controller and every run: each reduction but the first comes with an
    acknowledgment that covers the window of the one before, if and only if no echo for a
    window comes after its reduction was answered. -/
theorem once_per_window_iff (isn : UInt32) (config : TcpSendConfig) (make : UInt16 → κ)
    (ops : List SendOp) :
    Allowed EcnRun.step EcnRun.OncePerWindow (.start isn config make) ops ↔
      Allowed EcnRun.step EcnRun.EchoBeforeAnswer (.start isn config make) ops :=
  allowed_congr (P := EcnRun.Owes) ⟨rfl, nofun, nofun⟩ (fun _ op h => h.step op)
    fun _ op h => h.oncePerWindow_iff op

/-- Four bytes are in flight when the first echo arrives. The next segment carries the CWR,
    and the second echo, still for the first four bytes, causes another reduction. -/
theorem echo_reduces_twice :
    ¬Allowed EcnRun.step EcnRun.OncePerWindow
      (.start 0 { initialMss := 4 } AimdController.new)
      [.enqueue [1, 2, 3, 4, 5, 6, 7, 8], .transmit 1000 0 (some [1, 2, 3, 4]) 0 0,
        .ack 0 1000 10 true true, .transmit 1000 11 (some [5, 6, 7, 8]) 0 11,
        .ack 0 1000 12 true true] := by
  decide

end Netstack2
