import Netstack2.Tcp.Delivery
import Netstack2.Tcp.Receive.Reassembly

/-!
# What a session is given

A delivery is exact, whatever the session does: the calls are within the budget,
each of them offers the bytes that come next, and the buffer afterwards is the one
before with as many bytes consumed as were taken.

* `InOrder` is what a receive buffer keeps under all of its methods, also once the
  FIN is consumed: the cells that are ready are occupied;
* `consumeReady_add`: bytes consumed in pieces are consumed like in one go, so that
  between two calls the buffer is the first one after one `consumeReady` (`Progress`);
* `Ends` says what each way to end adds to that, and `drain_exact` what follows for
  a user of the buffer.
-/

namespace Netstack2

open List TcpReceiveBuffer

namespace Ring

variable {α : Type*} {r : Ring α}

theorem physicalIndex_dropFront (h : r.WF) {m l : ℕ} (hl : m + l < r.capacity) :
    (r.dropFront m).physicalIndex l = r.physicalIndex (m + l) := by
  have hfirst := h.firstIndex
  simp only [dropFront, physicalIndex, clearFront_capacity, clearFront_firstIndex]
  split_ifs <;> omega

theorem clearFront_dropFront (h : r.WF) {m n : ℕ} (hn : m + n ≤ r.capacity) :
    (r.dropFront m).clearFront n =
      { r.clearFront (m + n) with firstIndex := (r.dropFront m).firstIndex } := by
  induction n with
  | zero => rfl
  | succ n ih =>
    rw [clearFront, ih (by omega), physicalIndex_dropFront h (by omega), Nat.add_succ, clearFront]
    rfl

/-- Cells freed in two pieces are freed like in one. -/
theorem dropFront_add (h : r.WF) {m n : ℕ} (hn : m + n ≤ r.capacity) :
    r.dropFront (m + n) = (r.dropFront m).dropFront n := by
  have hindex : (r.clearFront (m + n)).physicalIndex (m + n) =
      ((r.dropFront m).clearFront n).physicalIndex n := by
    have hfirst := h.firstIndex
    simp only [dropFront, physicalIndex, clearFront_capacity, clearFront_firstIndex]
    split_ifs <;> omega
  rw [dropFront.eq_1 r, dropFront.eq_1 (r.dropFront m), hindex, clearFront_dropFront h hn]

theorem dropFront_zero (h : r.WF) : r.dropFront 0 = r := by
  have hindex : r.physicalIndex 0 = r.firstIndex := by
    have hfirst := h.firstIndex
    rw [physicalIndex]
    exact if_pos (by omega)
  rw [dropFront, clearFront, hindex]

end Ring

namespace TcpReceiveBuffer

/-! ## The receive buffers there are -/

/-- A new buffer, and what the methods make of one. -/
inductive Reachable : TcpReceiveBuffer → Prop
  | new {capacity isn window b} : new capacity isn window = some b → Reachable b
  | onSegment {b} sequence data psh : Reachable b → Reachable (b.onSegment sequence data psh).1
  | consumeReady {b} length : Reachable b → Reachable (b.consumeReady length).1
  | recordAdvertisedWindow {b} window : Reachable b → Reachable (b.recordAdvertisedWindow window)
  | setBlocked {b} v : Reachable b → Reachable (b.setBlocked v)
  | ackSent {b} : Reachable b → Reachable b.ackSent
  | consumeFin {b} : Reachable b → Reachable b.consumeFin

namespace InOrder

variable {b : TcpReceiveBuffer}

theorem recordAdvertisedWindow (h : b.InOrder) (window : ℕ) :
    (b.recordAdvertisedWindow window).InOrder := by
  rw [TcpReceiveBuffer.recordAdvertisedWindow]
  split
  · split
    · exact h.of_eq rfl rfl rfl
    · exact h
  · exact h

theorem onSegment (h : b.InOrder) (sequence : UInt32) (data : Bytes) (psh : Bool) :
    (b.onSegment sequence data psh).1.InOrder := by
  refine onSegment_induction (fun _ => h.of_eq rfl rfl rfl) ?_ psh
  intro sequence first data leftTrimmed rightTrimmed psh hfit
  have hready := h.ready_le
  have hstart : HoldsCells b.capacity b.cell { ring := b.toRing, bytesHeld := b.bytesHeld } :=
    ⟨h.wf, rfl, fun _ _ => rfl, h.count⟩
  have hs := insertBytes_spec sequence (b.readyBytes + first) data hstart (by omega)
  obtain ⟨_, _, _, heq⟩ := b.acceptBytes_eq sequence first data leftTrimmed rightTrimmed psh
  rw [heq]
  refine (h.afterInsert hs fun l hl => ?_).of_eq rfl rfl rfl
  rw [Option.isSome_or, h.ready l hl]
  rfl

theorem new {capacity window : ℕ} {isn : UInt32}
    (hb : new capacity isn window = some b) : b.InOrder :=
  (Reassembles.new hb).inOrder

end InOrder

theorem Reachable.inOrder {b : TcpReceiveBuffer} (h : b.Reachable) : b.InOrder := by
  induction h with
  | new hb => exact .new hb
  | onSegment sequence data psh _ ih => exact ih.onSegment sequence data psh
  | consumeReady length _ ih => exact ih.consumeReady length
  | recordAdvertisedWindow window _ ih => exact ih.recordAdvertisedWindow window
  | setBlocked _ _ ih | ackSent _ ih | consumeFin _ ih => exact ih.of_eq rfl rfl rfl

/-! ## The bytes that are in order -/

/-- The bytes that wait for delivery. -/
def inOrder (b : TcpReceiveBuffer) : Bytes := (List.range b.readyBytes).filterMap b.cell

section

variable {b : TcpReceiveBuffer}

section

variable (h : b.InOrder)

include h

theorem InOrder.map_some_inOrder : b.inOrder.map some = (List.range b.readyBytes).map b.cell := by
  have hall : ∀ n ≤ b.readyBytes,
      ((List.range n).filterMap b.cell).map some = (List.range n).map b.cell := by
    intro n hn
    induction n with
    | zero => rfl
    | succ n ih =>
      obtain ⟨x, hx⟩ := Option.isSome_iff_exists.1 (h.ready n hn)
      rw [range_succ, filterMap_append, map_append, ih (by omega), map_append]
      simp [hx]
  exact hall _ (le_refl _)

theorem InOrder.length_inOrder : b.inOrder.length = b.readyBytes := by
  rw [← length_map (f := some), h.map_some_inOrder, length_map, length_range]

theorem InOrder.inOrder_eq {bytes : Bytes} (hlen : bytes.length = b.readyBytes)
    (hbytes : ∀ l < b.readyBytes, b.cell l = bytes[l]?) : b.inOrder = bytes := by
  have hsome : b.inOrder.map some = bytes.map some := by
    rw [h.map_some_inOrder]
    refine ext_getElem (by simp [hlen]) fun l hl hl' => ?_
    rw [length_map, length_range] at hl
    rw [getElem_map, getElem_range, hbytes l hl, getElem_map, getElem?_eq_getElem (by omega)]
  exact map_injective_iff.2 (Option.some_injective _) hsome

theorem InOrder.getElem?_inOrder {l : ℕ} (hl : l < b.readyBytes) : b.inOrder[l]? = b.cell l := by
  have hget : (b.inOrder.map some)[l]? = some (b.cell l) := by
    rw [h.map_some_inOrder, getElem?_map, getElem?_range hl]
    rfl
  rw [getElem?_map, Option.map_eq_some_iff] at hget
  obtain ⟨_, hx, hcell⟩ := hget
  rw [hx, hcell]

/-- The view shows the bytes that come next, up to the end of the ring. -/
theorem InOrder.readyView_isPrefix : b.readyView <+: b.inOrder := by
  rw [prefix_iff_getElem?]
  intro l hl
  obtain ⟨hlt, hview⟩ := h.getElem?_readyView hl
  rw [h.getElem?_inOrder hlt, ← hview, getElem?_eq_getElem hl]

/-- What is left after `n` bytes are consumed. -/
theorem InOrder.inOrder_consumeReady {n : ℕ} (hn : n ≤ b.readyBytes) :
    (b.consumeReady n).1.inOrder = b.inOrder.drop n := by
  have hready := h.ready_le
  have hmin : min n b.readyBytes = n := min_eq_left hn
  have hleft : (b.consumeReady n).1.readyBytes = b.readyBytes - n := by
    rw [TcpReceiveBuffer.consumeReady, hmin]
  refine (h.consumeReady n).inOrder_eq ?_ fun l hl => ?_
  · rw [length_drop, h.length_inOrder, hleft]
  · rw [hleft] at hl
    show (b.toRing.dropFront (min n b.readyBytes)).cell l = _
    rw [hmin, Ring.cell_dropFront h.wf (by omega) (by omega), if_pos (by omega),
      getElem?_drop, h.getElem?_inOrder (by omega)]

/-- Bytes consumed in two pieces are consumed like in one. -/
theorem InOrder.consumeReady_add {m n : ℕ} (hn : m + n ≤ b.readyBytes) :
    (b.consumeReady (m + n)).1 = ((b.consumeReady m).1.consumeReady n).1 := by
  have hready := h.ready_le
  have hm : min m b.readyBytes = m := min_eq_left (by omega)
  have hn' : min n (b.readyBytes - m) = n := min_eq_left (by omega)
  have hsum : min (m + n) b.readyBytes = m + n := min_eq_left hn
  simp only [TcpReceiveBuffer.consumeReady, hm, hn', hsum, Ring.dropFront_add h.wf (le_trans hn hready),
    UInt32.ofNat_add, UInt32.add_assoc, Nat.sub_add_eq]

theorem InOrder.consumeReady_zero : (b.consumeReady 0).1 = b := by
  have hfirst : b.firstUndelivered + UInt32.ofNat 0 = b.firstUndelivered := UInt32.add_zero _
  simp only [TcpReceiveBuffer.consumeReady, Nat.zero_min, Ring.dropFront_zero h.wf, hfirst,
    Nat.sub_zero]

end

end

end TcpReceiveBuffer

/-! ## The calls -/

/-- The bytes that were taken by `calls`. -/
def takenBytes (calls : List TrySendCall) : ℕ := (calls.map TrySendCall.taken).sum

theorem takenBytes_append (calls calls' : List TrySendCall) :
    takenBytes (calls ++ calls') = takenBytes calls + takenBytes calls' := by
  rw [takenBytes, map_append, sum_append, takenBytes, takenBytes]

/-- The session was offered the bytes after those taken by the calls before. -/
def OffersNext (bytes : Bytes) (deliver : TrySend) (calls : List TrySendCall) : Prop :=
  ∀ before call after, calls = before ++ call :: after →
    call.data ≠ [] ∧ call.data <+: bytes.drop (takenBytes before) ∧
      call.outcome = deliver before.length call.data

theorem OffersNext.append {bytes : Bytes} {deliver : TrySend}
    {calls : List TrySendCall} (h : OffersNext bytes deliver calls) {data : Bytes}
    (hne : data ≠ []) (hnext : data <+: bytes.drop (takenBytes calls)) :
    OffersNext bytes deliver (calls ++ [⟨data, deliver calls.length data⟩]) := by
  intro before call after hsplit
  rcases eq_nil_or_concat after with rfl | ⟨after, last, rfl⟩
  · obtain ⟨rfl, hcall⟩ := append_inj' hsplit rfl
    obtain rfl := head_eq_of_cons_eq hcall
    exact ⟨hne, hnext, rfl⟩
  · rw [concat_eq_append, ← cons_append, ← append_assoc] at hsplit
    exact h before call after (append_inj_left' hsplit rfl)

/-- Taking what is offered next, the calls take the first bytes. -/
theorem OffersNext.flatMap_take {bytes : Bytes} {deliver : TrySend}
    {calls : List TrySendCall} (h : OffersNext bytes deliver calls) :
    calls.flatMap (fun call => call.data.take call.taken) = bytes.take (takenBytes calls) := by
  induction calls using reverseRecOn with
  | nil => rfl
  | append_singleton calls call ih =>
    have hbefore : OffersNext bytes deliver calls := fun before call' after hsplit =>
      h before call' (after ++ [call]) (by rw [hsplit, append_assoc]; rfl)
    obtain ⟨-, hnext, -⟩ := h calls call [] rfl
    have htake : call.data.take call.taken = (bytes.drop (takenBytes calls)).take call.taken := by
      obtain ⟨_, hrest⟩ := hnext
      rw [← hrest, take_append_of_le_length call.taken_le]
    rw [flatMap_append, ih hbefore, takenBytes_append, take_add]
    simp [htake, takenBytes]

/-- The delivery of the bytes of `b` between two calls. -/
structure Progress (b : TcpReceiveBuffer) (deliver : TrySend) (d : Delivery) : Prop where
  buffer : d.buffer = (b.consumeReady (takenBytes d.calls)).1
  le : takenBytes d.calls ≤ b.readyBytes
  accepted : d.result.acceptedBytes = takenBytes d.calls
  offers : OffersNext b.inOrder deliver d.calls

/-- How a delivery ends after the calls of `d`: blocked, unless everything was
    delivered or the budget is used up. -/
inductive Ends (d : Delivery) : Delivery → Prop
  | drained : d.buffer.readyBytes = 0 → Ends d { d with
      buffer := d.buffer.setBlocked false
      result := { d.result with status := .drained } }
  | budgetExhausted : Ends d { d with result := { d.result with status := .budgetExhausted } }
  | stop {status} : status ≠ .idle → status ≠ .drained → status ≠ .budgetExhausted →
      Ends d (d.stop status)

section

variable {b : TcpReceiveBuffer} {deliver : TrySend} {d d' : Delivery}

theorem Ends.calls (h : Ends d d') : d'.calls = d.calls := by cases h <;> rfl

theorem Ends.acceptedBytes (h : Ends d d') :
    d'.result.acceptedBytes = d.result.acceptedBytes := by cases h <;> rfl

theorem Ends.buffer (h : Ends d d') : ∃ v, d'.buffer = d.buffer.setBlocked v := by
  cases h with
  | drained => exact ⟨false, rfl⟩
  | budgetExhausted => exact ⟨d.buffer.blocked, rfl⟩
  | stop => exact ⟨true, rfl⟩

theorem Ends.blocked (h : Ends d d') :
    match d'.result.status with
    | .idle => False
    | .drained => d'.buffer.blocked = false ∧ d'.buffer.readyBytes = 0
    | .budgetExhausted => d'.buffer.blocked = d.buffer.blocked
    | _ => d'.buffer.blocked := by
  cases h with
  | drained hzero => exact ⟨rfl, hzero⟩
  | budgetExhausted => rfl
  | @stop status hidle hdrained hbudget =>
    cases status with
    | idle => exact hidle rfl
    | drained => exact absurd rfl hdrained
    | budgetExhausted => exact absurd rfl hbudget
    | wouldBlock | noProgress | closed | error | invalidResult => rfl

theorem Progress.readyBytes (h : Progress b deliver d) :
    d.buffer.readyBytes = b.readyBytes - takenBytes d.calls := by
  rw [h.buffer, consumeReady, min_eq_left h.le]

theorem Progress.inOrder (h : Progress b deliver d) (hb : b.InOrder) : d.buffer.InOrder := by
  rw [h.buffer]
  exact hb.consumeReady _

/-- One call offers the view, and consumes what the session took of it. -/
theorem Progress.call (h : Progress b deliver d) (hb : b.InOrder) (hready : d.buffer.readyBytes ≠ 0) :
    Progress b deliver
      (d.call ⟨d.buffer.readyView, deliver d.calls.length d.buffer.readyView⟩) := by
  have hview := (h.inOrder hb).readyView_isPrefix
  have hrest : d.buffer.inOrder = b.inOrder.drop (takenBytes d.calls) := by
    rw [h.buffer, hb.inOrder_consumeReady h.le]
  have hlen : d.buffer.readyView.length ≤ b.readyBytes - takenBytes d.calls := by
    rw [← h.readyBytes, ← (h.inOrder hb).length_inOrder]
    exact hview.length_le
  generalize hcall : (⟨d.buffer.readyView, deliver d.calls.length d.buffer.readyView⟩ :
    TrySendCall) = call
  have hle : call.taken ≤ b.readyBytes - takenBytes d.calls := by
    refine le_trans call.taken_le ?_
    rw [← hcall]
    exact hlen
  have hsum : takenBytes (d.calls ++ [call]) = takenBytes d.calls + call.taken := by
    simp [takenBytes]
  have hfits : takenBytes d.calls + call.taken ≤ b.readyBytes := by
    have := h.le
    omega
  refine ⟨?_, hsum ▸ hfits, ?_, ?_⟩
  · show d.buffer.afterCall call = (b.consumeReady (takenBytes (d.calls ++ [call]))).1
    rw [hsum, afterCall]
    split
    case isTrue => rw [h.buffer, hb.consumeReady_add hfits]
    case isFalse hzero =>
      rw [not_not] at hzero
      rw [hzero, add_zero, h.buffer]
  · show d.result.acceptedBytes + call.taken = takenBytes (d.calls ++ [call])
    rw [hsum, h.accepted]
  · rw [← hcall]
    exact h.offers.append ((h.inOrder hb).readyView_ne_nil hready) (hrest ▸ hview)

/-- A delivery makes some calls, within the budget, and ends. -/
theorem Progress.deliverFrom (hb : b.InOrder) (budget : ℕ) {d : Delivery} (h : Progress b deliver d) :
    ∃ e, Progress b deliver e ∧ e.calls.length ≤ d.calls.length + budget ∧
      Ends e (deliverFrom deliver budget d) := by
  induction budget generalizing d with
  | zero =>
    rw [Netstack2.deliverFrom]
    refine ⟨d, h, le_refl _, ?_⟩
    split
    case isTrue hzero => exact .drained hzero
    case isFalse => exact .budgetExhausted
  | succ budget ih =>
    rw [Netstack2.deliverFrom]
    split
    case isTrue hzero => exact ⟨d, h, Nat.le_add_right .., .drained hzero⟩
    case isFalse hready =>
      dsimp only
      rw [if_neg ((h.inOrder hb).readyView_ne_nil hready)]
      have hnext := h.call hb hready
      have hlen : (d.call ⟨d.buffer.readyView,
          deliver d.calls.length d.buffer.readyView⟩).calls.length = d.calls.length + 1 :=
        length_append
      have hstop : ∀ status, status ≠ .idle → status ≠ .drained → status ≠ .budgetExhausted →
          ∃ e, Progress b deliver e ∧ e.calls.length ≤ d.calls.length + (budget + 1) ∧
            Ends e ((d.call ⟨d.buffer.readyView,
              deliver d.calls.length d.buffer.readyView⟩).stop status) :=
        fun status hidle hdrained hbudget => ⟨_, hnext, by omega, .stop hidle hdrained hbudget⟩
      split
      · exact hstop .error (by simp) (by simp) (by simp)
      · split
        · exact hstop .invalidResult (by simp) (by simp) (by simp)
        · split
          · split
            · exact hstop .noProgress (by simp) (by simp) (by simp)
            · -- all went well, and the session is called again
              obtain ⟨e, he, hcalls, hends⟩ := ih hnext
              exact ⟨e, he, by omega, hends⟩
          · exact hstop .wouldBlock (by simp) (by simp) (by simp)
          · exact hstop .closed (by simp) (by simp) (by simp)
          · exact hstop .error (by simp) (by simp) (by simp)

end

/-- Delivery is exact for any session. No more calls are made than the budget has, each offers the
    bytes in order after those taken so far, and the bytes taken are those reported and the first of
    those in order. Just those are consumed: the others that are in order are left, the bytes held
    out of order stay where they are, and `rcvNxt` does not move. The buffer ends blocked, unless
    everything was delivered, or the budget was used up. -/
theorem drain_exact {b : TcpReceiveBuffer} (hb : b.Reachable) (hready : b.readyBytes ≠ 0)
    (deliver : TrySend) {callBudget : ℕ} (hbudget : 1 ≤ callBudget) :
    let d := drainTcpReceiveBuffer b deliver callBudget
    let n := d.result.acceptedBytes
    d.calls.length ≤ callBudget ∧
      (∀ before call after, d.calls = before ++ call :: after →
        call.data ≠ [] ∧ call.data <+: b.inOrder.drop (takenBytes before) ∧
          call.outcome = deliver before.length call.data) ∧
      n = takenBytes d.calls ∧
      d.calls.flatMap (fun call => call.data.take call.taken) = b.inOrder.take n ∧
      n ≤ b.readyBytes ∧
      d.buffer.inOrder = b.inOrder.drop n ∧
      d.buffer.readyBytes = b.readyBytes - n ∧
      d.buffer.bytesHeld = b.bytesHeld - n ∧
      d.buffer.firstUndelivered = b.firstUndelivered + UInt32.ofNat n ∧
      (∀ l < b.capacity, d.buffer.cell l = if n + l < b.capacity then b.cell (n + l) else none) ∧
      d.buffer.rcvNxt = b.rcvNxt ∧
      match d.result.status with
      | .idle => False
      | .drained => d.buffer.blocked = false ∧ d.buffer.readyBytes = 0
      | .budgetExhausted => d.buffer.blocked = b.blocked
      | _ => d.buffer.blocked = true := by
  have hord := hb.inOrder
  have hstart : Progress b deliver { buffer := b } :=
    ⟨hord.consumeReady_zero.symm, Nat.zero_le _, rfl,
      fun before _ _ hnil => by cases before <;> cases hnil⟩
  obtain ⟨e, he, hcalls, hends⟩ := hstart.deliverFrom hord callBudget
  have hdrain : drainTcpReceiveBuffer b deliver callBudget =
      deliverFrom deliver callBudget { buffer := b } := by
    rw [drainTcpReceiveBuffer, if_neg hready, if_neg (by omega)]
  rw [hdrain]
  intro d n
  have hn : n = takenBytes e.calls := hends.acceptedBytes.trans he.accepted
  have hle : n ≤ b.readyBytes := hn ▸ he.le
  have hmin : min n b.readyBytes = n := Nat.min_eq_left hle
  have hcap := Nat.le_trans hle hord.ready_le
  obtain ⟨v, hv⟩ := hends.buffer
  have hbuffer : d.buffer = (b.consumeReady n).1.setBlocked v := by rw [hn, ← he.buffer, ← hv]
  refine ⟨?_, hends.calls ▸ he.offers, hends.calls ▸ hn, ?_, hle, ?_, ?_, ?_, ?_, ?_, ?_, ?_⟩
  · rw [hends.calls]
    exact Nat.le_trans hcalls (Nat.le_of_eq (Nat.zero_add _))
  · rw [hends.calls, he.offers.flatMap_take, hn]
  · rw [hbuffer]
    exact hord.inOrder_consumeReady hle
  · rw [hbuffer, consumeReady, hmin]
    rfl
  · rw [hbuffer, consumeReady, hmin]
    rfl
  · rw [hbuffer, consumeReady, hmin]
    rfl
  · intro l hl
    rw [hbuffer, consumeReady, hmin]
    exact Ring.cell_dropFront hord.wf hcap hl
  · rw [hbuffer]
    rfl
  · have hblocked := hends.blocked
    rw [he.buffer] at hblocked
    exact hblocked

/-- Three bytes wait across the end of a ring of four cells. The session takes the
    one before it, then claims more than the two it is offered. -/
theorem drain_exact_wrap :
    ∃ b : TcpReceiveBuffer, b.Reachable ∧ b.inOrder = [14, 15, 16] ∧
      let d := drainTcpReceiveBuffer b
        (fun k _ => if k = 0 then .sent 1 .accepted else .sent 9 .accepted) 5
      d.result = { status := .invalidResult, acceptedBytes := 1, calls := 2 } ∧
        d.calls.map TrySendCall.data = [[14], [15, 16]] ∧
        d.buffer.inOrder = b.inOrder.drop 1 ∧ d.buffer.rcvNxt = b.rcvNxt ∧
        d.buffer.blocked = true := by
  obtain ⟨b, hb⟩ : ∃ b, new 4 100 0 = some b := ⟨_, rfl⟩
  have hreach : (((b.onSegment 100 [11, 12, 13] false).1.consumeReady 3).1.recordAdvertisedWindow
      4).Reachable := .recordAdvertisedWindow 4 (.consumeReady 3 (.onSegment 100 _ false (.new hb)))
  refine ⟨_, .onSegment 103 [14, 15, 16] false hreach, ?_⟩
  have hexact := drain_exact (.onSegment 103 [14, 15, 16] false hreach)
    (by obtain rfl := Option.some.inj hb; decide)
    (fun k _ => if k = 0 then .sent 1 .accepted else .sent 9 .accepted) (show 1 ≤ 5 by decide)
  obtain ⟨-, -, -, -, -, hrest, -, -, -, -, hnxt, -⟩ := hexact
  cases hb
  exact ⟨by decide, by decide, by decide, hrest, hnxt, by decide⟩

end Netstack2
