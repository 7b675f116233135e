import Netstack2.Core.Shard.RemoteData

/-!
# Stopping a shard

A shard is stopped by a message in its control inbox. The control loop takes the messages in their
order, but it does not always get to the stop: while remote data is deferred it takes no message at
all, and it ends as soon as the send buffer of a flow has no room for the data of a message.

`controlStep` is the whole of the control loop in one iteration of the event loop. Other threads may
post between its rounds, at the tail of the inbox, which changes nothing for the messages ahead of
the stop.

* `stop_seen_iff`: a stop within the budget of the loop is seen if and only if the deferred data and
  the data of the messages ahead of it find room when their turn comes (`Clears`);
* `stop_not_seen`: a flow whose send buffer is full keeps its shard running.
-/

namespace Netstack2

open List StackShard

variable {κ : Type}

/-! ## Room for remote data -/

/-- The send queue has room for all of `data`. -/
def TcpSendBuffer.HasRoom (b : TcpSendBuffer κ) (data : Bytes) : Prop :=
  data = [] ∨ b.finRequested = false ∧ b.closed = false ∧
    b.sendQueue.length + data.length ≤ b.sendQueueLimit

theorem TcpSendBuffer.enqueue_all_iff (b : TcpSendBuffer κ) (data : Bytes) :
    (b.enqueue data).2 = data.length ↔ b.HasRoom data := by
  have hsnd : (b.enqueue data).2 = (b.accepted data).length := by
    rw [enqueue]
    split
    · next hnil => rw [hnil, length_nil]
    · rfl
  rw [hsnd, accepted, HasRoom]
  split
  case isTrue hnone =>
    rw [length_nil, eq_comm, length_eq_zero_iff]
    refine ⟨.inl, ?_⟩
    rintro (hdata | ⟨hfin, hclosed, hroom⟩)
    · exact hdata
    · rcases hnone with hdata | hfin' | hclosed' | hfull
      · exact hdata
      · exact absurd (hfin.symm.trans hfin') Bool.false_ne_true
      · exact absurd (hclosed.symm.trans hclosed') Bool.false_ne_true
      · exact length_eq_zero_iff.1 (by omega)
  case isFalse hsome =>
    simp only [not_or, Bool.not_eq_true] at hsome
    obtain ⟨hdata, hfin, hclosed, hfull⟩ := hsome
    rw [length_take, or_iff_right hdata, and_iff_right hfin, and_iff_right hclosed]
    omega

/-- The data of a message finds room: its flow is gone or not open, or the send buffer
    takes all of it. -/
def TcpHandshakeEngine.MakesRoom (e : TcpHandshakeEngine κ) (msg : ShardMessage) : Prop :=
  ∀ data i p send, msg.data = some data → e.findFlow msg.flowId msg.generation = some (i, p) →
    p.send = some send → p.state = .established ∨ p.state = .closeWait → send.HasRoom data

namespace StackShard

variable {s : StackShard κ}

theorem offer_of_some {msg : ShardMessage} {data : Bytes} (hdata : msg.data = some data) :
    (s.offer msg).2 = (s.tcp.enqueueRemoteData msg.flowId msg.generation data).2 := by
  rw [offer, hdata]

/-- Nothing is left of a message if and only if its data finds room. -/
theorem offer_eq_none_iff (s : StackShard κ) (msg : ShardMessage) :
    (s.offer msg).2 = none ↔ s.tcp.MakesRoom msg := by
  rw [TcpHandshakeEngine.MakesRoom]
  cases hdata : msg.data with
  | none =>
    rw [offer, hdata]
    exact iff_of_true rfl fun _ _ _ _ h => by cases h
  | some data =>
    rw [offer_of_some hdata, TcpHandshakeEngine.enqueueRemoteData]
    cases hfind : s.tcp.findFlow msg.flowId msg.generation with
    | none => exact iff_of_true rfl fun _ _ _ _ _ h => by cases h
    | some found =>
      obtain ⟨i, p⟩ := found
      dsimp only
      cases hsend : p.send with
      | none =>
        refine iff_of_true rfl fun _ _ p' _ _ hp hsend' => ?_
        obtain ⟨-, rfl⟩ := Prod.ext_iff.1 (Option.some.inj hp)
        cases hsend.symm.trans hsend'
      | some send =>
        dsimp only
        by_cases hopen : p.state = .established ∨ p.state = .closeWait
        · rw [if_neg fun h => hopen.elim h.1 h.2]
          have hall : (if (send.enqueue data).2 = data.length then none
              else some (data.drop (send.enqueue data).2)) = none ↔ send.HasRoom data := by
            rw [← send.enqueue_all_iff]
            simp
          refine hall.trans ⟨fun h data' _ p' send' hdata' hp hsend' _ => ?_, fun h => ?_⟩
          · cases hdata'
            obtain ⟨-, rfl⟩ := Prod.ext_iff.1 (Option.some.inj hp)
            obtain rfl := Option.some.inj (hsend.symm.trans hsend')
            exact h
          · exact h data i p send rfl rfl hsend hopen
        · rw [if_pos (not_or.1 hopen)]
          refine iff_of_true rfl fun _ _ p' _ _ hp _ hopen' => ?_
          obtain ⟨-, rfl⟩ := Prod.ext_iff.1 (Option.some.inj hp)
          exact absurd hopen' hopen

/-! ## The control loop of one iteration -/

variable [CongestionController κ]

/-- What others decide in a round of the control loop: the environment of the engine, whether
    a response is queued for transmission, and what is posted after the round. -/
structure ControlRound where
  env : Env := {}
  queued : Bool := true
  posts : List ShardEvent := []

/-- Another thread posts a message, or finds the inbox full. -/
def post (s : StackShard κ) : ShardEvent → StackShard κ
  | .dataCallback id generation lease => (s.step (.dataCallback id generation lease)).getD s
  | .post msg => (s.step (.post msg)).getD s
  | _ => s

/-- A round, and the posts after it. -/
def roundThenPosts (rounds : ℕ → ControlRound) (nowMs budget : ℕ) (s : StackShard κ) :
    StackShard κ :=
  (rounds budget).posts.foldl post
    (s.controlRound (rounds budget).env (rounds budget).queued nowMs budget)

/-- The rounds of the control loop, of which at most `fuel` are left. -/
def controlRounds (rounds : ℕ → ControlRound) (nowMs : ℕ) : ℕ → StackShard κ → StackShard κ
  | 0, s => s
  | fuel + 1, s =>
    match s.controlBudget with
    | none => s
    | some budget => controlRounds rounds nowMs fuel (roundThenPosts rounds nowMs budget s)

/-- The control loop of one iteration of the event loop. -/
def controlStep (rounds : ℕ → ControlRound) (nowMs : ℕ) (s : StackShard κ) : StackShard κ :=
  controlRounds rounds nowMs (kControlInboxBudget + 1) s.beginControl

/-- The engine after the shard has processed a message. -/
def handled (round : ControlRound) (nowMs : ℕ) (e : TcpHandshakeEngine κ) (msg : ShardMessage) :
    TcpHandshakeEngine κ :=
  (process round.env round.queued nowMs { tcp := e, controlInbox := { capacity := 0 } } msg).tcp

/-- The data of every message, up to the first stop, finds room when its turn comes. -/
def Clears (rounds : ℕ → ControlRound) (nowMs : ℕ) :
    ℕ → TcpHandshakeEngine κ → List ShardMessage → Prop
  | _, _, [] => True
  | budget, e, msg :: ahead => msg.type = .stop ∨
      (msg.type = .sessionData → e.MakesRoom msg) ∧
        Clears rounds nowMs (budget - 1) (handled (rounds budget) nowMs e msg) ahead

/-- What the posts of other threads leave alone. -/
structure Posted (s s' : StackShard κ) : Prop where
  tcp : s'.tcp = s.tcp
  stopRequested : s'.stopRequested = s.stopRequested
  controlBudget : s'.controlBudget = s.controlBudget
  queue : ∃ more, s'.controlInbox.queue = s.controlInbox.queue ++ more

section

omit [CongestionController κ]

theorem Posted.refl (s : StackShard κ) : Posted s s := ⟨rfl, rfl, rfl, [], (append_nil _).symm⟩

theorem Posted.trans {s s' s'' : StackShard κ} (h : Posted s s') (h' : Posted s' s'') :
    Posted s s'' := by
  obtain ⟨more, hmore⟩ := h.queue
  obtain ⟨more', hmore'⟩ := h'.queue
  refine ⟨h'.tcp.trans h.tcp, h'.stopRequested.trans h.stopRequested,
    h'.controlBudget.trans h.controlBudget, more ++ more', ?_⟩
  rw [hmore', hmore, append_assoc]

theorem posted_push {msg : ShardMessage} {inbox : InboxMpsc}
    (h : s.controlInbox.push msg = some inbox) (accepted : List ((FlowId × ℕ) × Bytes)) :
    Posted s { s with controlInbox := inbox, accepted := accepted } := by
  rw [InboxMpsc.push] at h
  split at h
  · cases h
  · cases h
    exact ⟨rfl, rfl, rfl, [msg], rfl⟩

theorem posted_dataCallback (s : StackShard κ) (id : FlowId) (generation : ℕ)
    (lease : Option Bytes) : Posted s (s.dataCallback id generation lease).1 := by
  cases lease with
  | none => exact .refl s
  | some =>
    rw [dataCallback]
    split
    · exact .refl s
    · split
      · next hpush => exact posted_push hpush _
      · exact .refl s

end

theorem posted_post (s : StackShard κ) (event : ShardEvent) : Posted s (s.post event) := by
  cases event with
  | dataCallback id generation lease =>
    rw [post, step]
    split
    · exact posted_dataCallback s id generation lease
    · exact .refl s
  | post msg =>
    rw [post, step]
    split
    · cases hpush : s.controlInbox.push msg with
      | none => exact .refl s
      | some => exact posted_push hpush _
    · exact .refl s
  | engine | beginControl | controlRound | requestStop | finish => exact .refl s

theorem posted_foldl (events : List ShardEvent) (s : StackShard κ) :
    Posted s (events.foldl post s) := by
  induction events generalizing s with
  | nil => exact .refl s
  | cons event _ ih => exact (posted_post s event).trans (ih _)

/-- What the shard does with a message: it stops, it defers its data and leaves the loop, or
    it goes on. -/
theorem process_cases (s : StackShard κ) (msg : ShardMessage) (env : Env) (queued : Bool)
    (nowMs : ℕ) :
    (msg.type = .stop ∧ (process env queued nowMs s msg).stopRequested ∧
      (process env queued nowMs s msg).controlBudget = none) ∨
    (msg.type = .sessionData ∧ ¬s.tcp.MakesRoom msg ∧
      (process env queued nowMs s msg).stopRequested = s.stopRequested ∧
      (process env queued nowMs s msg).controlBudget = none) ∨
    (msg.type ≠ .stop ∧ (msg.type = .sessionData → s.tcp.MakesRoom msg) ∧
      (process env queued nowMs s msg).stopRequested = s.stopRequested ∧
      (process env queued nowMs s msg).controlBudget = s.controlBudget ∧
      (process env queued nowMs s msg).controlInbox = s.controlInbox) := by
  rw [process]
  cases htype : msg.type with
  | stop => exact .inl ⟨rfl, rfl, rfl⟩
  | sessionData =>
    have hroom := s.offer_eq_none_iff msg
    have hstop : (s.offer msg).1.stopRequested = s.stopRequested := by
      rw [offer]
      split <;> rfl
    obtain ⟨hinbox, -, hbudget⟩ := s.offer_frame msg
    generalize s.offer msg = offered at hroom hinbox hbudget hstop
    obtain ⟨_, left⟩ := offered
    cases left with
    | none => exact .inr (.inr ⟨by simp, fun _ => hroom.1 rfl, hstop, hbudget, hinbox⟩)
    | some => exact .inr (.inl ⟨rfl, fun h => (by cases hroom.2 h), hstop, rfl⟩)
  | packetIn | sessionWritable | control | sessionClosed | flowClose | flowAbort
  | udpSessionData | udpSessionClosed => exact .inr (.inr ⟨by simp, by simp, rfl, rfl, rfl⟩)

/-- What becomes of the engine does not depend on the rest of the shard. -/
theorem process_tcp (s : StackShard κ) (msg : ShardMessage) (round : ControlRound) (nowMs : ℕ) :
    (process round.env round.queued nowMs s msg).tcp = handled round nowMs s.tcp msg := by
  rw [handled, process, process]
  cases msg.type with
  | sessionData =>
    rw [offer, offer]
    cases msg.data with
    | none => rfl
    | some data =>
      dsimp only
      cases (s.tcp.enqueueRemoteData msg.flowId msg.generation data).2 <;> rfl
  | stop | packetIn | sessionWritable | control | sessionClosed | flowClose | flowAbort
  | udpSessionData | udpSessionClosed => rfl

theorem controlRounds_of_none (rounds : ℕ → ControlRound) (nowMs fuel : ℕ)
    (h : s.controlBudget = none) : controlRounds rounds nowMs fuel s = s := by
  cases fuel with
  | zero => rfl
  | succ => rw [controlRounds, h]

theorem controlRounds_of_some (rounds : ℕ → ControlRound) (nowMs fuel : ℕ) {budget : ℕ}
    (h : s.controlBudget = some budget) :
    controlRounds rounds nowMs (fuel + 1) s =
      controlRounds rounds nowMs fuel (roundThenPosts rounds nowMs budget s) := by
  rw [controlRounds, h]

/-- A round takes the first message of the inbox: it stops, leaves the loop, or goes on. -/
theorem round_cases {msg : ShardMessage} {queue : List ShardMessage}
    (h : s.controlInbox.queue = msg :: queue) (rounds : ℕ → ControlRound) (nowMs budget : ℕ) :
    let s' := roundThenPosts rounds nowMs (budget + 1) s
    (msg.type = .stop ∧ s'.stopRequested = true ∧ s'.controlBudget = none) ∨
    (msg.type = .sessionData ∧ ¬s.tcp.MakesRoom msg ∧ s'.stopRequested = s.stopRequested ∧
      s'.controlBudget = none) ∨
    (msg.type ≠ .stop ∧ (msg.type = .sessionData → s.tcp.MakesRoom msg) ∧
      s'.tcp = handled (rounds (budget + 1)) nowMs s.tcp msg ∧
      s'.stopRequested = s.stopRequested ∧ s'.controlBudget = some budget ∧
      ∃ more, s'.controlInbox.queue = queue ++ more) := by
  intro s'
  let round := rounds (budget + 1)
  let popped := { s with
    controlInbox := { s.controlInbox with queue := queue }
    controlBudget := some budget }
  have hround : s.controlRound round.env round.queued nowMs (budget + 1) =
      process round.env round.queued nowMs popped msg := by
    rw [controlRound, InboxMpsc.pop, h]
  have hposted : Posted (process round.env round.queued nowMs popped msg) s' := by
    rw [← hround]
    exact posted_foldl round.posts _
  have htcp := hposted.tcp.trans (process_tcp popped msg round nowMs)
  rw [hposted.stopRequested, hposted.controlBudget]
  rcases process_cases popped msg round.env round.queued nowMs with
    hstop | hblocked | ⟨hne, hroom, hstop, hbudget, hinbox⟩
  · exact .inl hstop
  · exact .inr (.inl hblocked)
  · refine .inr (.inr ⟨hne, hroom, htcp, hstop, hbudget, ?_⟩)
    obtain ⟨more, hmore⟩ := hposted.queue
    rw [hinbox] at hmore
    exact ⟨more, hmore⟩

/-- The loop sees a stop within its budget if and only if the data ahead of it finds room. -/
theorem controlRounds_stop {rounds : ℕ → ControlRound} {nowMs budget fuel : ℕ}
    {ahead rest : List ShardMessage} {stop : ShardMessage} (hstop : stop.type = .stop)
    (hqueue : s.controlInbox.queue = ahead ++ stop :: rest) (hcontrol : s.controlBudget = some budget)
    (hbudget : ahead.length < budget) (hfuel : budget < fuel) :
    (controlRounds rounds nowMs fuel s).stopRequested ↔
      s.stopRequested ∨ Clears rounds nowMs budget s.tcp ahead := by
  induction ahead generalizing s budget fuel rest with
  | nil =>
    obtain ⟨budget, rfl⟩ := Nat.exists_eq_succ_of_ne_zero (Nat.ne_zero_of_lt hbudget)
    obtain ⟨fuel, rfl⟩ := Nat.exists_eq_succ_of_ne_zero (Nat.ne_zero_of_lt hfuel)
    rw [controlRounds_of_some rounds nowMs fuel hcontrol]
    rcases round_cases hqueue rounds nowMs budget with ⟨-, hseen, hout⟩ | ⟨hdata, -⟩ | ⟨hne, -⟩
    · rw [controlRounds_of_none rounds nowMs fuel hout]
      exact iff_of_true hseen (.inr trivial)
    · exact nomatch hstop.symm.trans hdata
    · exact absurd hstop hne
  | cons _ _ ih =>
    obtain ⟨budget, rfl⟩ := Nat.exists_eq_succ_of_ne_zero (Nat.ne_zero_of_lt hbudget)
    obtain ⟨fuel, rfl⟩ := Nat.exists_eq_succ_of_ne_zero (Nat.ne_zero_of_lt hfuel)
    rw [cons_append] at hqueue
    rw [controlRounds_of_some rounds nowMs fuel hcontrol, Clears]
    rcases round_cases hqueue rounds nowMs budget with
      ⟨htype, hseen, hout⟩ | ⟨hdata, hfull, hkept, hout⟩ | ⟨hne, hroom, htcp, hkept, hnext, hmore⟩
    · rw [controlRounds_of_none rounds nowMs fuel hout]
      exact iff_of_true hseen (.inr (.inl htype))
    · -- the data of the message is deferred, and the loop ends before the stop
      rw [controlRounds_of_none rounds nowMs fuel hout, hkept]
      refine (or_iff_left ?_).symm
      rintro (htype | ⟨hroom, -⟩)
      · exact nomatch hdata.symm.trans htype
      · exact hfull (hroom hdata)
    · obtain ⟨_, hmore⟩ := hmore
      rw [append_assoc] at hmore
      rw [ih hmore hnext (Nat.lt_of_succ_lt_succ hbudget) (Nat.lt_of_succ_lt_succ hfuel), hkept,
        htcp, or_iff_right hne, and_iff_right hroom]
      rfl

end StackShard

/-- Whatever is deferred and whatever is ahead of it, a stop in the inbox that the budget of
    the control loop reaches is seen in this iteration if and only if the deferred data finds
    room, and then the data of each message ahead of it does, when its turn comes. -/
theorem stop_seen_iff [CongestionController κ] (s : StackShard κ)
    (rounds : ℕ → StackShard.ControlRound) (nowMs : ℕ) {ahead rest : List ShardMessage}
    {stop : ShardMessage} (hstop : stop.type = .stop)
    (hqueue : s.controlInbox.queue = ahead ++ stop :: rest)
    (hbudget : ahead.length < kControlInboxBudget) :
    (s.controlStep rounds nowMs).stopRequested = true ↔
      s.stopRequested = true ∨ s.tcp.MakesRoom s.deferredSessionData ∧
        StackShard.Clears rounds nowMs kControlInboxBudget
          (s.offer s.deferredSessionData).1.tcp ahead := by
  have hroom := s.offer_eq_none_iff s.deferredSessionData
  rw [controlStep, beginControl]
  split
  case isTrue hsome =>
    have hkept : (s.offer s.deferredSessionData).1.stopRequested = s.stopRequested := by
      rw [offer]
      split <;> rfl
    obtain ⟨hinbox, -⟩ := s.offer_frame s.deferredSessionData
    generalize s.offer s.deferredSessionData = offered at hroom hkept hinbox
    obtain ⟨_, left⟩ := offered
    cases left with
    | none =>
      rw [controlRounds_stop hstop (hinbox ▸ hqueue) rfl hbudget (Nat.lt_succ_self _),
        and_iff_right (hroom.1 rfl)]
      exact or_congr_left (by rw [← hkept])
    | some =>
      -- while data is deferred, no message is taken
      rw [controlRounds_of_none _ _ _ rfl]
      refine Iff.trans (by rw [← hkept]; rfl) (or_iff_left fun h => ?_).symm
      cases hroom.2 h.1
  case isFalse hnone =>
    have hdata : s.deferredSessionData.data = none := Option.not_isSome_iff_eq_none.1 hnone
    have hsame : s.offer s.deferredSessionData = (s, none) := by rw [offer, hdata]
    rw [hsame] at hroom ⊢
    rw [and_iff_right (hroom.1 rfl)]
    exact controlRounds_stop (s := { s with controlBudget := some kControlInboxBudget })
      hstop hqueue rfl hbudget (Nat.lt_succ_self _)

/-- One byte is deferred and one is ahead of the stop. The send buffer has room for both, as what
    it held was sent. -/
theorem stop_seen_iff_deferred :
    ∃ s : StackShard AimdController, s.Reachable ∧ s.deferredSessionData.data = some [3] ∧
      s.controlInbox.queue.map (·.type) = [.sessionData, .stop] ∧
      (s.controlStep (fun _ => {}) 0).stopRequested = true := by
  let data : ShardMessage :=
    { type := .sessionData, flowId := 1, generation := 1, data := some [4] }
  obtain ⟨s, hreach, hdeferred, hqueue, hroom, hahead⟩ := exists_small_shard
    (P := fun s => s.deferredSessionData.data = some [3] ∧
      s.controlInbox.queue = [data] ++ { type := .stop } :: [] ∧
      (s.offer s.deferredSessionData).2 = none ∧
      ((s.offer s.deferredSessionData).1.offer data).2 = none)
    (crowd.take 5 ++ [.engine {} (.pumpSendPaths 0 8 8), .dataCallback 1 1 (some [4]),
      .post { type := .stop }]) (by decide +kernel)
  refine ⟨s, hreach, hdeferred, congrArg (map ShardMessage.type) hqueue,
    (stop_seen_iff s (fun _ => {}) 0 (by rfl) hqueue (by decide)).2 (.inr ⟨?_, .inr ⟨?_, trivial⟩⟩)⟩
  · exact (s.offer_eq_none_iff _).1 hroom
  · exact fun _ => (offer_eq_none_iff _ data).1 hahead

/-- The send buffer of a flow is full and one byte is deferred; a stop is posted. The
    iteration ends without having seen it. -/
theorem stop_not_seen :
    ∃ s : StackShard AimdController, s.Reachable ∧ s.controlInbox.queue = [{ type := .stop }] ∧
      (s.controlStep (fun _ => {}) 0).stopRequested = false :=
  exists_small_shard (crowd.take 5 ++ [.post { type := .stop }]) (by decide +kernel)

end Netstack2
