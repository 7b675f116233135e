import Netstack2.Tcp.Engine.Run
import Netstack2.Tcp.Receive.Reassembly

/-!
# What a connection has received

The stream of the peer, as what was observed of a connection tells of it: the bytes
that came in order (`inOrder`), those that the sessions have taken (`taken`), and the
FIN. `Pcb.Receives` relates them to the connection. Up to the FIN, its receive buffer
holds the stream from the first byte on that was not taken; the FIN is noted, and the
state is one after the FIN, exactly if it was consumed. All steps of the engine keep
it, whatever the peer sends.

* `Pcb.kept_receives`: every step keeps it.
-/

namespace Netstack2

open List

open TcpReceiveBuffer

/-! ## Histories -/

/-- The item tells of the peer's stream. -/
def Observed.isStream : Observed → Bool
  | received _ | finConsumed | trySend _ => true
  | _ => false

def Observed.inOrderBytes : Observed → ℕ
  | received bytes => bytes
  | _ => 0

def Observed.takenBytes : Observed → ℕ
  | trySend call => call.taken
  | _ => 0

/-- The bytes of the peer's stream that came in order. -/
def inOrder (hist : List Observed) : ℕ := (hist.map Observed.inOrderBytes).sum

/-- The bytes that the sessions have taken. -/
def taken (hist : List Observed) : ℕ := (hist.map Observed.takenBytes).sum

section

variable {hist seen : List Observed}

@[simp] theorem inOrder_nil : inOrder [] = 0 := rfl

@[simp] theorem inOrder_cons (x : Observed) (hist : List Observed) :
    inOrder (x :: hist) = x.inOrderBytes + inOrder hist := by
  simp [inOrder]

@[simp] theorem inOrder_append (hist seen : List Observed) :
    inOrder (hist ++ seen) = inOrder hist + inOrder seen := by
  simp [inOrder]

@[simp] theorem taken_nil : taken [] = 0 := rfl

@[simp] theorem taken_cons (x : Observed) (hist : List Observed) :
    taken (x :: hist) = x.takenBytes + taken hist := by
  simp [taken]

@[simp] theorem taken_append (hist seen : List Observed) :
    taken (hist ++ seen) = taken hist + taken seen := by
  simp [taken]

@[simp] theorem inOrder_map_trySend (calls : List TrySendCall) :
    inOrder (calls.map .trySend) = 0 := by
  induction calls with
  | nil => rfl
  | cons _ _ ih => simpa [Observed.inOrderBytes] using ih

/-- Items that do not tell of the stream change nothing about it. -/
theorem inOrder_aside (h : ∀ x ∈ seen, x.isStream = false) :
    inOrder seen = 0 ∧ taken seen = 0 ∧ .finConsumed ∉ seen := by
  induction seen with
  | nil => exact ⟨rfl, rfl, not_mem_nil⟩
  | cons x =>
    cases x <;>
      simp_all [Observed.isStream, Observed.inOrderBytes, Observed.takenBytes]

end

/-! ## Deliveries -/

theorem TcpReceiveBuffer.length_readyView_le (b : TcpReceiveBuffer) :
    b.readyView.length ≤ b.readyBytes := by
  rw [readyView]
  split
  · exact Nat.zero_le _
  · rw [length_take]
    omega

theorem TcpReceiveBuffer.recordAdvertisedWindow_eq (b : TcpReceiveBuffer) (window : ℕ) :
    ∃ rcvAdv, b.recordAdvertisedWindow window = { b with rcvAdv := rcvAdv } := by
  simp only [recordAdvertisedWindow]
  split
  · split
    · exact ⟨_, rfl⟩
    · exact ⟨b.rcvAdv, rfl⟩
  · exact ⟨b.rcvAdv, rfl⟩

/-- The buffer moves on by what a call took. -/
theorem TcpReceiveBuffer.Reassembles.afterCall {isn : UInt32} {held : ℕ → Option UInt8} {d : ℕ}
    {b : TcpReceiveBuffer} (h : Reassembles isn held d b) (outcome : TrySendOutcome) :
    Reassembles isn held (d + (⟨b.readyView, outcome⟩ : TrySendCall).taken)
        (b.afterCall ⟨b.readyView, outcome⟩) ∧
      (⟨b.readyView, outcome⟩ : TrySendCall).taken +
        (b.afterCall ⟨b.readyView, outcome⟩).readyBytes = b.readyBytes := by
  have hle := le_trans (TrySendCall.taken_le ⟨b.readyView, outcome⟩) b.length_readyView_le
  rw [TcpReceiveBuffer.afterCall]
  generalize (⟨b.readyView, outcome⟩ : TrySendCall).taken = n at *
  split
  · have hconsume := h.consumeReady n
    have hn : (b.consumeReady n).2 = n := min_eq_left hle
    rw [hn] at hconsume
    refine ⟨hconsume, ?_⟩
    show n + (b.readyBytes - min n b.readyBytes) = b.readyBytes
    omega
  · rw [show n = 0 by omega]
    exact ⟨h, zero_add _⟩

/-! ### A session that takes everything -/

/-- The session takes all that it is offered. -/
def TakesAll (f : TrySend) : Prop := ∀ n data, f n data = .sent data.length .accepted

section

variable {f : TrySend} {d : Delivery}

theorem deliverFrom_of_ready_zero (hready : d.buffer.readyBytes = 0) (budget : ℕ) :
    (deliverFrom f budget d).buffer = d.buffer.setBlocked false := by
  cases budget <;> simp [deliverFrom, hready]

theorem deliverFrom_takesAll (hf : TakesAll f) (hready : d.buffer.readyBytes ≠ 0)
    (hview : d.buffer.readyView ≠ []) (budget : ℕ) :
    deliverFrom f (budget + 1) d = deliverFrom f budget (d.call
      ⟨d.buffer.readyView, .sent d.buffer.readyView.length .accepted⟩) := by
  rw [deliverFrom, if_neg hready]
  rw [if_neg hview, hf]
  dsimp only
  rw [if_neg (lt_irrefl _), if_neg (by simpa using hview)]

variable {isn : UInt32} {held : ℕ → Option UInt8} {n : ℕ} {b : TcpReceiveBuffer}

theorem TcpReceiveBuffer.Reassembles.length_readyView (h : Reassembles isn held n b) :
    b.readyView.length = min b.readyBytes (b.capacity - b.firstIndex) := by
  have hstorage := h.wf.storage
  rw [TcpReceiveBuffer.readyView]
  split
  case isTrue hzero => simp [hzero]
  case isFalse =>
    rw [length_take, length_drop]
    omega

/-- A call takes the whole view. What is left then starts the ring, and where the
    ring starts with what is ready, nothing is left. -/
theorem deliverFrom_step (hf : TakesAll f) (h : Reassembles isn held n d.buffer)
    (hready : d.buffer.readyBytes ≠ 0) (budget : ℕ) :
    ∃ d' n', deliverFrom f (budget + 1) d = deliverFrom f budget d' ∧
      Reassembles isn held n' d'.buffer ∧
      (d'.buffer.readyBytes = 0 ∨ d'.buffer.firstIndex = 0) ∧
      (d.buffer.firstIndex = 0 → d'.buffer.readyBytes = 0) := by
  let call : TrySendCall := ⟨d.buffer.readyView, .sent d.buffer.readyView.length .accepted⟩
  have hfirst := h.wf.firstIndex
  have hle := h.ready_le
  have hlength := h.length_readyView
  have hview : d.buffer.readyView ≠ [] := by
    intro hnil
    rw [hnil, length_nil] at hlength
    omega
  have htaken : call.taken = d.buffer.readyView.length := if_neg (lt_irrefl _)
  obtain ⟨hafter, hsum⟩ := h.afterCall (.sent d.buffer.readyView.length .accepted)
  change call.taken + (d.buffer.afterCall call).readyBytes = _ at hsum
  refine ⟨d.call call, _, deliverFrom_takesAll hf hready hview budget, hafter, ?_, fun hzero => ?_⟩
  · rw [or_iff_not_imp_left]
    intro hrest
    change (d.buffer.afterCall call).readyBytes ≠ 0 at hrest
    show (d.buffer.afterCall call).firstIndex = 0
    rw [TcpReceiveBuffer.afterCall, if_pos (by omega), TcpReceiveBuffer.consumeReady]
    rw [min_eq_left (by omega), Ring.dropFront]
    dsimp only
    rw [Ring.clearFront_physicalIndex, Ring.physicalIndex, if_neg (by omega)]
    omega
  · show (d.buffer.afterCall call).readyBytes = 0
    omega

/-- A session that takes everything empties the buffer in two calls. -/
theorem TcpReceiveBuffer.Reassembles.drain_takesAll (h : Reassembles isn held n b)
    (hf : TakesAll f) (hblocked : b.blocked = false) {budget : ℕ} (hbudget : 2 ≤ budget) :
    (drainTcpReceiveBuffer b f budget).buffer.readyBytes = 0 ∧
      (drainTcpReceiveBuffer b f budget).buffer.blocked = false := by
  obtain ⟨budget, rfl⟩ := Nat.exists_eq_add_of_le' hbudget
  have hdone : ∀ {d : Delivery} (budget : ℕ), d.buffer.readyBytes = 0 →
      (deliverFrom f budget d).buffer.readyBytes = 0 ∧
        (deliverFrom f budget d).buffer.blocked = false := fun budget hready => by
    rw [deliverFrom_of_ready_zero hready]
    exact ⟨hready, rfl⟩
  rw [drainTcpReceiveBuffer]
  split
  case isTrue hready => exact ⟨hready, hblocked⟩
  case isFalse hready =>
    rw [if_neg (by omega)]
    obtain ⟨d₁, _, heq, h₁, hrest, -⟩ := deliverFrom_step (d := { buffer := b }) hf h hready _
    rw [heq]
    rcases eq_or_ne d₁.buffer.readyBytes 0 with hready₁ | hready₁
    · exact hdone _ hready₁
    · obtain ⟨_, _, heq, -, -, hready₂⟩ := deliverFrom_step hf h₁ hready₁ budget
      rw [heq]
      exact hdone _ (hready₂ (hrest.resolve_left hready₁))

end

namespace Pcb

variable {κ : Type} {r : TcpReceiveBuffer}

/-- The rule for deliveries: what holds before, and is kept by each call of the
    session and by blocking the buffer, holds after. -/
theorem drainSession_induction {P : TcpReceiveBuffer → List TrySendCall → Prop}
    (hcall : ∀ b calls outcome, b.readyBytes ≠ 0 → P b calls →
      P (b.afterCall ⟨b.readyView, outcome⟩) (calls ++ [⟨b.readyView, outcome⟩]))
    (hblock : ∀ b calls v, P b calls → P (b.setBlocked v) calls) (p : Pcb κ) (f : TrySend) (n : ℕ)
    (h : P r []) : P (p.drainSession r f n).2.buffer (p.drainSession r f n).2.calls := by
  rw [drainSession]
  split
  · exact h
  · split
    · exact h
    · exact drain_induction hcall hblock f n h

theorem rcvNxt_drainSession (p : Pcb κ) (r : TcpReceiveBuffer) (f : TrySend)
    (n : ℕ) : (p.drainSession r f n).2.buffer.rcvNxt = r.rcvNxt := by
  refine drainSession_induction (P := fun b _ => b.rcvNxt = r.rcvNxt) ?_ ?_ p f n rfl
  · intro b calls outcome _ hb
    rw [TcpReceiveBuffer.afterCall]
    split <;> exact hb
  · exact fun b calls v hb => hb

/-- A delivery moves the buffer on by what the session took. -/
theorem reassembles_drainSession {isn : UInt32} {held : ℕ → Option UInt8} {d : ℕ}
    (h : Reassembles isn held d r) (p : Pcb κ) (f : TrySend) (n : ℕ) :
    Reassembles isn held (d + taken ((p.drainSession r f n).2.calls.map .trySend))
        (p.drainSession r f n).2.buffer ∧
      taken ((p.drainSession r f n).2.calls.map .trySend) +
        (p.drainSession r f n).2.buffer.readyBytes = r.readyBytes := by
  refine drainSession_induction (P := fun b calls =>
    Reassembles isn held (d + taken (calls.map .trySend)) b ∧
      taken (calls.map .trySend) + b.readyBytes = r.readyBytes) ?_ ?_ p f n ?_
  · rintro b calls outcome - ⟨hb, hsum⟩
    obtain ⟨hb', hsum'⟩ := hb.afterCall outcome
    have htaken : taken (List.map .trySend (calls ++ [⟨b.readyView, outcome⟩])) =
        taken (calls.map .trySend) + (⟨b.readyView, outcome⟩ : TrySendCall).taken := by
      simp [Observed.takenBytes]
    rw [htaken, ← add_assoc]
    exact ⟨hb', by omega⟩
  · rintro b calls v ⟨hb, hsum⟩
    exact ⟨hb.setBlocked v, hsum⟩
  · exact ⟨h, zero_add _⟩

/-- A payload adds to the stream what comes in order with it, and then the session takes a part. -/
theorem reassembles_takePayload {isn : UInt32} {held : ℕ → Option UInt8} {d : ℕ}
    (h : Reassembles isn held d r) (p : Pcb κ) (segment : TcpSegmentView)
    (timestamp : Option UInt32) (f : TrySend) (n : ℕ) :
    let t := p.takePayload r segment timestamp f n
    ∃ held', Reassembles isn held' (d + taken (t.delivery.calls.map .trySend)) t.delivery.buffer ∧
      taken (t.delivery.calls.map .trySend) + t.delivery.buffer.readyBytes =
        r.readyBytes + t.inOrder := by
  let s := r.onSegment segment.sequence segment.payload (segment.hasFlag TcpFlag.psh)
  obtain ⟨held', hheld'⟩ := h.onSegment_some segment.sequence segment.payload
    (segment.hasFlag TcpFlag.psh)
  have hle : r.readyBytes ≤ s.1.readyBytes := (onSegment_extends ..).ready_le
  obtain ⟨hdrained, hready⟩ := reassembles_drainSession hheld'
    (p.markPayload segment timestamp s.2.acceptedBytes (s.1.rcvNxt ≠ r.rcvNxt)) f n
  exact ⟨held', hdrained, hready.trans (Nat.add_sub_cancel' hle).symm⟩

/-! ## The invariant -/

/-- What was observed of a connection, and what it has received. -/
structure Receives (p : Pcb κ) (hist : List Observed) : Prop where
  rcvNxt : p.rcvNxt = p.irs + 1
  /-- In the handshake there is no receive buffer, and nothing is received. -/
  opening : p.receive = none → p.state = .synReceived ∧ inOrder hist = 0 ∧ taken hist = 0
  opened : p.receive ≠ none → p.state ≠ .synReceived
  pastFin : p.finReceived = p.state.pastFin
  consumed : p.finReceived = true ↔ .finConsumed ∈ hist
  notified : p.finReceived = true → p.closeNotified = true
  stream : ∀ r, p.receive = some r → p.finReceived = false →
    ∃ held, Reassembles (p.irs + 1) held (taken hist) r ∧
      taken hist + r.readyBytes = inOrder hist

theorem Receives.receive_eq_none {p : Pcb κ} {hist : List Observed} (h : Receives p hist)
    (hstate : p.state = .synReceived) : p.receive = none := by
  by_contra hsome
  exact h.opened hsome hstate

/-- What the invariant is about is the same. -/
structure SameReceive (p' p : Pcb κ) : Prop where
  receive : p'.receive = p.receive
  irs : p'.irs = p.irs
  rcvNxt : p'.rcvNxt = p.rcvNxt
  finReceived : p'.finReceived = p.finReceived
  closeNotified : p'.closeNotified = p.closeNotified
  pastFin : p'.state.pastFin = p.state.pastFin
  opening : p'.state = .synReceived ↔ p.state = .synReceived

namespace Receives

variable {p p' : Pcb κ} {hist seen : List Observed} {r b : TcpReceiveBuffer}

theorem frame (h : Receives p hist) (hp : SameReceive p' p)
    (hseen : ∀ x ∈ seen, x.isStream = false) : Receives p' (hist ++ seen) := by
  obtain ⟨hin, htaken, hfin⟩ := inOrder_aside hseen
  exact
    { rcvNxt := by rw [hp.rcvNxt, hp.irs, h.rcvNxt]
      opening := fun hnone => by
        have := h.opening (hp.receive ▸ hnone)
        simpa [hin, htaken, hp.opening] using this
      opened := fun hsome => hp.opening.not.2 (h.opened (hp.receive ▸ hsome))
      pastFin := by rw [hp.finReceived, hp.pastFin, h.pastFin]
      consumed := by simp [hp.finReceived, h.consumed, hfin]
      notified := by simpa [hp.finReceived, hp.closeNotified] using h.notified
      stream := fun r hr hf => by
        have := h.stream r (hp.receive ▸ hr) (hp.finReceived ▸ hf)
        simpa [hin, htaken, hp.irs] using this }

/-- The receive buffer changes, and so does what is known of it. -/
theorem receive (h : Receives p hist) (hr : p.receive = some r)
    (hp : SameReceive p' { p with receive := some b }) (hseen : .finConsumed ∉ seen)
    (hb : p.finReceived = false → ∀ held, Reassembles (p.irs + 1) held (taken hist) r →
      taken hist + r.readyBytes = inOrder hist →
      ∃ held', Reassembles (p.irs + 1) held' (taken hist + taken seen) b ∧
        taken hist + taken seen + b.readyBytes = inOrder hist + inOrder seen) :
    Receives p' (hist ++ seen) where
  rcvNxt := by rw [hp.rcvNxt, hp.irs, h.rcvNxt]
  opening hnone := by simp [hp.receive] at hnone
  opened _ := hp.opening.not.2 (h.opened (by simp [hr]))
  pastFin := by rw [hp.finReceived, hp.pastFin, h.pastFin]
  consumed := by simp [hp.finReceived, h.consumed, hseen]
  notified := by simpa [hp.finReceived, hp.closeNotified] using h.notified
  stream r' hr' hf := by
    obtain rfl : b = r' := by simpa [hp.receive] using hr'
    have hopen : p.finReceived = false := hp.finReceived ▸ hf
    obtain ⟨held, hheld, hsum⟩ := h.stream r hr hopen
    simpa [hp.irs] using hb hopen held hheld hsum

/-- A delivery. -/
theorem drains (h : Receives p hist) (hr : p.receive = some r) {q : Pcb κ}
    (hb : b = r ∨ b = r.setBlocked false) (f : TrySend) (n : ℕ)
    (hp : SameReceive p' { p with receive := some (q.drainSession b f n).2.buffer }) :
    Receives p' (hist ++ (q.drainSession b f n).2.calls.map .trySend) := by
  refine h.receive hr hp (by simp) fun _ held hheld hsum => ?_
  have hbuffer : Reassembles (p.irs + 1) held (taken hist) b ∧ b.readyBytes = r.readyBytes := by
    rcases hb with rfl | rfl
    · exact ⟨hheld, rfl⟩
    · exact ⟨hheld.setBlocked false, rfl⟩
  obtain ⟨hdrained, hready⟩ := reassembles_drainSession hbuffer.1 q f n
  refine ⟨held, hdrained, ?_⟩
  rw [inOrder_map_trySend]
  omega

/-- The FIN is consumed. -/
theorem consumeFin (h : Receives p hist)
    (hp : SameReceive p' { p.takeFin r with state := .timeWait }) :
    Receives p' (hist ++ p.finObserved) where
  rcvNxt := by
    rw [hp.rcvNxt, hp.irs]
    exact h.rcvNxt
  opening hnone := by simp [hp.receive, takeFin] at hnone
  opened _ := hp.opening.not.2 (by simp)
  pastFin := by
    rw [hp.finReceived, hp.pastFin]
    rfl
  consumed := by
    have hmem : .finConsumed ∈ p.finObserved := by
      rw [finObserved]
      split <;> exact mem_cons_self
    simp [hp.finReceived, takeFin, hmem]
  notified := by simp [hp.closeNotified, takeFin]
  stream _ _ hf := by simp [hp.finReceived, takeFin] at hf

end Receives

variable [CongestionController κ]

theorem Receives.step {c : EngineCall κ} {p p' : Pcb κ} {hist seen : List Observed}
    (hs : Step c p seen p') (h : Receives p hist) : Receives p' (hist ++ seen) := by
  cases hs with
  | quiet | synAck | loseSession | accept | enqueue | updateMss | ask | transmit =>
    exact h.frame ⟨rfl, rfl, rfl, rfl, rfl, rfl, .rfl⟩ (by simp [Observed.isStream])
  | acceptFinWait2 _ _ _ hstate | restartTimeWait _ _ hstate =>
    exact h.frame ⟨rfl, rfl, rfl, rfl, rfl, by rw [hstate]; rfl,
      iff_of_false (by rintro ⟨⟩) (by simp [hstate])⟩
      (by simp [Observed.isStream])
  | acceptTimeWait _ _ _ _ _ hstate =>
    have hpast : p.state.pastFin = true ∧ p.state ≠ .synReceived := by
      rcases hstate with hstate | hstate <;> simp [hstate, TcpState.pastFin]
    exact h.frame ⟨rfl, rfl, rfl, rfl, rfl, hpast.1.symm, iff_of_false (by rintro ⟨⟩) hpast.2⟩
      (by simp [Observed.isStream])
  | requestClose =>
    have hsame : SameReceive p.requestClose p := by
      rw [Pcb.requestClose]
      split
      case h_1 hstate | h_2 hstate => exact ⟨rfl, rfl, rfl, rfl, rfl, by rw [hstate]; rfl,
      iff_of_false (by simp) (by simp [hstate])⟩
      case h_3 => exact ⟨rfl, rfl, rfl, rfl, rfl, rfl, .rfl⟩
    exact h.frame hsame (by simp)
  | @establish r _ _ _ _ _ hstate _ _ hr =>
    obtain ⟨-, hin, htaken⟩ := h.opening (h.receive_eq_none hstate)
    have hfin : p.finReceived = false := by rw [h.pastFin, hstate]; rfl
    exact
      { rcvNxt := h.rcvNxt
        opening := fun hnone => by cases hnone
        opened := fun _ hsyn => by cases hsyn
        pastFin := hfin
        consumed := by simpa [establish] using h.consumed
        notified := h.notified
        stream := fun b hb _ => by
          obtain rfl : r = b := Option.some.inj hb
          have hnew := Reassembles.new hr
          rw [h.rcvNxt] at hnew
          refine ⟨fun _ => none, ?_, ?_⟩
          · simpa [htaken, Observed.takenBytes, establish] using hnew
          · simp [htaken, hin, Observed.takenBytes, Observed.inOrderBytes, readyBytes_new hr] }
  | @ack r _ hr =>
    refine h.receive hr ⟨rfl, rfl, rfl, rfl, rfl, rfl, .rfl⟩ (by simp) fun _ held hheld hsum => ?_
    refine ⟨held, (hheld.recordAdvertisedWindow _).ackSent, ?_⟩
    obtain ⟨_, heq⟩ := r.recordAdvertisedWindow_eq (p.representedWindow (p.windowField r))
    simpa [heq, TcpReceiveBuffer.ackSent, Observed.takenBytes, Observed.inOrderBytes] using hsum
  | attach session hr =>
    refine h.drains hr (.inr rfl) _ _ ?_
    obtain ⟨_, _, _, -, heq⟩ := drainSession_eq (p.bindSession session) _ (c.env.trySend p.flowId)
      c.config.deliveryCallBudget
    rw [heq]
    exact ⟨rfl, rfl, rfl, rfl, rfl, rfl, .rfl⟩
  | deliver hr hb =>
    refine h.drains hr hb _ _ ?_
    obtain ⟨_, _, _, -, heq⟩ := drainSession_eq p _ (c.env.trySend p.flowId)
      c.config.deliveryCallBudget
    rw [heq]
    exact ⟨rfl, rfl, rfl, rfl, rfl, rfl, .rfl⟩
  | @payload r segment _ timestamp _ _ hr =>
    obtain ⟨_, _, _, _, _, -, heq⟩ := takePayload_eq p r segment timestamp
      (c.env.trySend p.flowId) c.config.deliveryCallBudget
    rw [heq]
    refine h.receive hr ⟨rfl, rfl, rfl, rfl, rfl, rfl, .rfl⟩ (by simp) fun _ held hheld hsum => ?_
    obtain ⟨held', htaken, hready⟩ := reassembles_takePayload hheld p segment timestamp
      (c.env.trySend p.flowId) c.config.deliveryCallBudget
    simp only [taken_cons, inOrder_cons, inOrder_map_trySend, Observed.takenBytes,
      Observed.inOrderBytes, zero_add]
    exact ⟨held', htaken, by omega⟩
  | @fin _ _ _ _ hn =>
    have hopened := h.opened (by simp [hn.receive])
    have hpast : (stateAfterFin p.state).pastFin = true ∧ stateAfterFin p.state ≠ .synReceived := by
      cases hs : p.state <;> simp_all [stateAfterFin, TcpState.pastFin]
    exact h.consumeFin ⟨rfl, rfl, rfl, rfl, rfl, hpast.1, iff_of_false hpast.2 (by simp)⟩
  | finTimeWait => exact h.consumeFin ⟨rfl, rfl, rfl, rfl, rfl, rfl, .rfl⟩

/-- Every step keeps the invariant. -/
theorem kept_receives (c : EngineCall κ) : Kept c Receives where
  step hs h := h.step hs
  opens iss generation hop hfin hoffered :=
    { rcvNxt := rfl
      opening := fun _ => ⟨rfl, rfl, rfl⟩
      opened := fun h => absurd rfl h
      pastFin := rfl
      consumed := by simp [ofSyn]
      notified := by simp [ofSyn]
      stream := by simp [ofSyn] }

end Pcb

end Netstack2
