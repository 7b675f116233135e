import Netstack2.Tcp.Receive

/-!
# Delivery to a session

What is in order in the receive buffer is offered to the session, view by view,
until nothing is left, the session refuses, or the budget of calls is used up
(`drainTcpReceiveBuffer`). What the session answers is a parameter: it may take any
number of bytes, claim more than it was offered, or throw.

The calls made are part of the result (`Delivery.calls`), for the histories of
runs. `drain_induction` is the rule for what a delivery preserves.
-/

namespace Netstack2

inductive SendStatus
  | accepted
  | wouldBlock
  | closed
  | error
  deriving DecidableEq

/-- How a call of `TrySend` ends. -/
inductive TrySendOutcome
  | threw
  | sent (acceptedBytes : ℕ) (status : SendStatus)
  deriving DecidableEq

/-- What `TrySend` answers, by the number of the call and what is offered. -/
abbrev TrySend := ℕ → Bytes → TrySendOutcome

/-- A call of `TrySend`: what was offered, and how it ended. -/
structure TrySendCall where
  data : Bytes
  outcome : TrySendOutcome
  deriving DecidableEq

/-- The bytes the session took: none, if it claims more than it was offered. -/
def TrySendCall.taken (call : TrySendCall) : ℕ :=
  match call.outcome with
  | .threw => 0
  | .sent n _ => if n > call.data.length then 0 else n

theorem TrySendCall.taken_le (call : TrySendCall) : call.taken ≤ call.data.length := by
  rw [taken]
  split
  · exact Nat.zero_le _
  · split <;> omega

inductive TcpDeliveryStatus
  | idle
  | drained
  | wouldBlock
  | noProgress
  | closed
  | error
  | invalidResult
  | budgetExhausted
  deriving DecidableEq

structure TcpDeliveryResult where
  status : TcpDeliveryStatus := .idle
  acceptedBytes : ℕ := 0
  /-- The calls that returned. -/
  calls : ℕ := 0
  deriving DecidableEq

/-- The session cannot go on after this result. -/
def TcpDeliveryResult.fails (result : TcpDeliveryResult) : Bool :=
  result.status = .closed || result.status = .error || result.status = .invalidResult ||
    result.status = .noProgress

/-- A buffer after a delivery, and what the delivery did. -/
structure Delivery where
  buffer : TcpReceiveBuffer
  result : TcpDeliveryResult := {}
  calls : List TrySendCall := []

/-- The delivery ends with `status`, and the buffer is blocked. -/
def Delivery.stop (d : Delivery) (status : TcpDeliveryStatus) : Delivery :=
  { d with buffer := d.buffer.setBlocked true, result := { d.result with status := status } }

/-- The buffer after a call that offered its view. -/
def TcpReceiveBuffer.afterCall (b : TcpReceiveBuffer) (call : TrySendCall) : TcpReceiveBuffer :=
  if call.taken ≠ 0 then (b.consumeReady call.taken).1 else b

/-- The delivery with one more call. -/
def Delivery.call (d : Delivery) (call : TrySendCall) : Delivery where
  buffer := d.buffer.afterCall call
  result := { d.result with
    acceptedBytes := d.result.acceptedBytes + call.taken
    calls := if call.outcome = .threw then d.result.calls else d.result.calls + 1 }
  calls := d.calls ++ [call]

/-- Deliver with at most `budget` more calls. -/
def deliverFrom (deliver : TrySend) : ℕ → Delivery → Delivery
  | 0, d =>
    if d.buffer.readyBytes = 0 then
      { d with buffer := d.buffer.setBlocked false, result := { d.result with status := .drained } }
    else { d with result := { d.result with status := .budgetExhausted } }
  | budget + 1, d =>
    if d.buffer.readyBytes = 0 then
      { d with buffer := d.buffer.setBlocked false, result := { d.result with status := .drained } }
    else
      let view := d.buffer.readyView
      if view = [] then d.stop .invalidResult
      else
        let call : TrySendCall := ⟨view, deliver d.calls.length view⟩
        match call.outcome with
        | .threw => (d.call call).stop .error
        | .sent n status =>
          if n > view.length then (d.call call).stop .invalidResult
          else match status with
            | .accepted =>
              if n = 0 then (d.call call).stop .noProgress
              else deliverFrom deliver budget (d.call call)
            | .wouldBlock => (d.call call).stop .wouldBlock
            | .closed => (d.call call).stop .closed
            | .error => (d.call call).stop .error

/-- Offer what is in order to the session, in at most `callBudget` calls; `deliver`
    tells how the session answers each of them. -/
def drainTcpReceiveBuffer (b : TcpReceiveBuffer) (deliver : TrySend) (callBudget : ℕ) : Delivery :=
  if b.readyBytes = 0 then { buffer := b }
  else if callBudget = 0 then { buffer := b, result := { status := .budgetExhausted } }
  else deliverFrom deliver callBudget { buffer := b }

/-! ## What a delivery preserves -/

section

variable {P : TcpReceiveBuffer → List TrySendCall → Prop}
  (hcall : ∀ b calls outcome, b.readyBytes ≠ 0 → P b calls →
    P (b.afterCall ⟨b.readyView, outcome⟩) (calls ++ [⟨b.readyView, outcome⟩]))
  (hblock : ∀ b calls v, P b calls → P (b.setBlocked v) calls)
  (deliver : TrySend)

include hcall hblock

/-- What holds of the buffer and the calls before a delivery, and is kept by each
    call and by blocking the buffer, holds after it. -/
theorem deliverFrom_induction (budget : ℕ) (d : Delivery) (h : P d.buffer d.calls) :
    P (deliverFrom deliver budget d).buffer (deliverFrom deliver budget d).calls := by
  induction budget generalizing d with
  | zero =>
    unfold deliverFrom
    split
    · exact hblock _ _ _ h
    · exact h
  | succ _ ih =>
    unfold deliverFrom
    split
    case isTrue => exact hblock _ _ _ h
    case isFalse hready =>
      dsimp only
      have hnext := hcall _ _ (deliver d.calls.length d.buffer.readyView) hready h
      split
      · exact hblock _ _ _ h
      · split
        · exact hblock _ _ _ hnext
        · split
          · exact hblock _ _ _ hnext
          · split
            · split
              · exact hblock _ _ _ hnext
              · exact ih _ hnext
            all_goals exact hblock _ _ _ hnext

/-- The rule for `drainTcpReceiveBuffer`. -/
theorem drain_induction {b : TcpReceiveBuffer} (callBudget : ℕ) (h : P b []) :
    P (drainTcpReceiveBuffer b deliver callBudget).buffer
      (drainTcpReceiveBuffer b deliver callBudget).calls := by
  unfold drainTcpReceiveBuffer
  split
  · exact h
  · split
    · exact h
    · exact deliverFrom_induction hcall hblock deliver callBudget _ h

end

@[simp] theorem memoryBytes_drain (b : TcpReceiveBuffer) (deliver : TrySend) (callBudget : ℕ) :
    (drainTcpReceiveBuffer b deliver callBudget).buffer.memoryBytes = b.memoryBytes := by
  refine drain_induction (P := fun b' _ => b'.memoryBytes = b.memoryBytes)
    (fun b' calls outcome _ h => ?_) (fun _ _ _ h => h) deliver callBudget rfl
  rw [← h, TcpReceiveBuffer.afterCall]
  split
  · exact TcpReceiveBuffer.memoryBytes_consumeReady ..
  · rfl

end Netstack2
