import Netstack2.Core.Shard
import Netstack2.Lib.Queues
import Netstack2.Tcp.Engine.Open

/-!
# Remote data

The remote data of a flow enters its send buffer in the order in which the data callback
has accepted it, without loss or repetition: what was accepted is what the send buffer has
taken, then the rest of a deferred message, then what is in the inbox (`Books`), as long as
the connection is open. A connection that is not open takes no data; it is dropped.

The books of a flow are empty until its handshake is over, as its callback cannot be called
before. From there on, a connection that was once not open is never open again
(`TcpHandshakeEngine.Follows`), so what was dropped is never missed.
-/

namespace Netstack2

open List

variable {κ : Type}

/-- The remote data in an inbox, with its flows. -/
def InboxMpsc.sessionData (inbox : InboxMpsc) : List (NamedQueue (FlowId × ℕ) UInt8) :=
  inbox.queue.filterMap fun msg =>
    if msg.type = .sessionData then msg.data.map (msg.flow, ·) else none

/-- The remote data that was deferred. -/
def StackShard.deferredData (s : StackShard κ) : List (NamedQueue (FlowId × ℕ) UInt8) :=
  (s.deferredSessionData.data.map (s.deferredSessionData.flow, ·)).toList

/-- The flow of a connection. -/
def Pcb.flow (p : Pcb κ) : FlowId × ℕ := (p.flowId, p.generation)

namespace TcpHandshakeEngine

variable {e e' : TcpHandshakeEngine κ}

/-- No data was ever accepted for the flows that are yet to come, or are in their handshake; for the
    open connections, what was accepted is what was taken and what is on its way. -/
structure Books (e : TcpHandshakeEngine κ)
    (accepted taken pending : List (NamedQueue (FlowId × ℕ) UInt8)) : Prop where
  knows : Knows (fun _ _ => True) e
  fresh : ∀ x ∈ accepted ++ (taken ++ pending), x.1.1 < e.nextFlowId ∧
    ∀ p ∈ e.pcbs, p.flowId = x.1.1 → p.state ≠ .synReceived
  stream : ∀ p ∈ e.pcbs, p.IsOpen →
    under accepted p.flow = under taken p.flow ++ under pending p.flow

namespace Books

variable {accepted taken pending : List (NamedQueue (FlowId × ℕ) UInt8)} {flow : FlowId × ℕ}

/-- The books of a flow without data. -/
theorem stream_of_unseen (h : ∀ x ∈ accepted ++ (taken ++ pending), x.1 ≠ flow) :
    under accepted flow = under taken flow ++ under pending flow := by
  have hnil : ∀ {log : List (NamedQueue (FlowId × ℕ) UInt8)},
      (∀ x ∈ log, x ∈ accepted ++ (taken ++ pending)) → under log flow = [] :=
    fun hlog => under_eq_nil fun x hx hflow => absurd hflow (h x (hlog x hx))
  rw [hnil fun x hx => mem_append_left _ hx,
    hnil fun x hx => mem_append_right _ (mem_append_left _ hx),
    hnil fun x hx => mem_append_right _ (mem_append_right _ hx)]
  rfl

section

variable (h : Books e accepted taken pending)

include h

/-- The books are kept while the connections go on. -/
theorem follow (hfollows : Follows e e') (hknows : Knows (fun _ _ => True) e') :
    Books e' accepted taken pending := by
  have hfresh : ∀ x ∈ accepted ++ (taken ++ pending), ∀ p' ∈ e'.pcbs, p'.flowId = x.1.1 →
      ∃ p ∈ e.pcbs, p.After p' ∧ p.state ≠ .synReceived := by
    intro x hx p' hp' hid
    obtain ⟨hlt, hstate⟩ := h.fresh x hx
    rcases hfollows.after p' hp' with hadded | ⟨p, hp, hafter⟩
    · rw [hid] at hadded
      exact absurd hlt (Nat.not_lt.2 hadded)
    · exact ⟨p, hp, hafter, hstate p hp (hafter.flowId.symm.trans hid)⟩
  refine ⟨hknows, fun x hx => ⟨?_, fun p' hp' hid hstate => ?_⟩, fun p' hp' hopen => ?_⟩
  · exact lt_of_lt_of_le (h.fresh x hx).1 hfollows.next
  · obtain ⟨_, -, hafter, hne⟩ := hfresh x hx p' hp' hid
    exact hne (hafter.handshake hstate)
  · by_cases hseen : ∃ x ∈ accepted ++ (taken ++ pending), x.1 = p'.flow
    · -- a flow with data is past its handshake, so the connection was open before
      obtain ⟨x, hx, hflow⟩ := hseen
      obtain ⟨p, hp, hafter, hne⟩ := hfresh x hx p' hp' (congrArg Prod.fst hflow.symm)
      have hsame : p'.flow = p.flow := Prod.ext hafter.flowId hafter.generation
      rw [hsame]
      exact h.stream p hp ((hafter.isOpen hopen).resolve_right hne)
    · exact stream_of_unseen fun x hx hflow => hseen ⟨x, hx, hflow⟩

/-- Data is accepted. -/
theorem accept (flow : FlowId × ℕ) (data : Bytes) (hlt : flow.1 < e.nextFlowId)
    (hstate : ∀ p ∈ e.pcbs, p.flowId = flow.1 → p.state ≠ .synReceived) :
    Books e (accepted ++ [(flow, data)]) taken (pending ++ [(flow, data)]) := by
  refine ⟨h.knows, fun x hx => ?_, fun p hp hopen => ?_⟩
  · by_cases hnew : x = (flow, data)
    · subst hnew
      exact ⟨hlt, hstate⟩
    · refine h.fresh x ?_
      simp only [mem_append, mem_singleton, hnew, or_false] at hx ⊢
      exact hx
  · rw [under_append, under_append, h.stream p hp hopen, append_assoc]

/-- An open connection is found by its flow. -/
theorem findFlow {p : Pcb κ} (hp : p ∈ e.pcbs) :
    ∃ i, e.findFlow p.flowId p.generation = some (i, p) := by
  cases hfind : e.findFlow p.flowId p.generation with
  | none =>
    have hnot := findSlot_eq_none hfind p hp
    simp at hnot
  | some found =>
    obtain ⟨i, _⟩ := found
    obtain ⟨hq, hmatch⟩ := findSlot_eq_some hfind
    simp only [Bool.and_eq_true, decide_eq_true_eq] at hmatch
    obtain rfl := h.knows.eq_of_ident (mem_of_getElem? hq) hp hmatch.1
    exact ⟨i, rfl⟩

/-- What an open connection takes, and what is left. -/
theorem offered {p : Pcb κ} (hp : p ∈ e.pcbs) (hopen : p.IsOpen) (data : Bytes) :
    e.remoteDataTaken p.flowId p.generation data ++
      ((e.enqueueRemoteData p.flowId p.generation data).2.getD []) = data := by
  obtain ⟨_, hfind⟩ := h.findFlow hp
  obtain ⟨hstate, hsome⟩ := hopen
  obtain ⟨_, hsend⟩ := Option.isSome_iff_exists.1 hsome
  have hnot : ¬(p.state ≠ .established ∧ p.state ≠ .closeWait) := fun hne => hstate.elim hne.1 hne.2
  rw [remoteDataTaken, enqueueRemoteData, hfind]
  dsimp only
  rw [hsend]
  dsimp only
  rw [if_neg hnot, if_neg hnot]
  split
  · next hall => rw [hall, take_length, Option.getD_none, append_nil]
  · rw [Option.getD_some, take_append_drop]

end

/-- The data that is left of a message, as it is kept for its flow. -/
theorem under_left (left : Option Bytes) (flow : FlowId × ℕ) :
    under (left.map (flow, ·)).toList flow = left.getD [] := by
  cases left with
  | none => rfl
  | some left => exact (under_singleton flow left flow).trans (if_pos rfl)

theorem under_other (left : Option Bytes) {flow' : FlowId × ℕ} (h : flow ≠ flow') :
    under (left.map (flow, ·)).toList flow' = [] := by
  cases left with
  | none => rfl
  | some left => exact (under_singleton flow left flow').trans (if_neg h)

/-- Data is offered to its connection: it takes some of it, and the rest stays first. -/
theorem offer [CongestionController κ] {data : Bytes}
    (h : Books e accepted taken ((flow, data) :: pending)) :
    Books (e.enqueueRemoteData flow.1 flow.2 data).1 accepted
      (taken ++ [(flow, e.remoteDataTaken flow.1 flow.2 data)])
      (((e.enqueueRemoteData flow.1 flow.2 data).2.map (flow, ·)).toList ++ pending) := by
  have hbefore : Books e accepted (taken ++ [(flow, e.remoteDataTaken flow.1 flow.2 data)])
      (((e.enqueueRemoteData flow.1 flow.2 data).2.map (flow, ·)).toList ++ pending) := by
    refine ⟨h.knows, fun x hx => ?_, fun p hp hopen => ?_⟩
    · by_cases hflow : x.1 = flow
      · rw [hflow]
        exact h.fresh (flow, data) (by simp)
      · refine h.fresh x ?_
        simp only [mem_append, mem_cons, not_mem_nil, or_false, Option.mem_toList,
          Option.map_eq_some_iff] at hx ⊢
        rcases hx with hx | (hx | rfl) | (⟨left, -, rfl⟩ | hx)
        · exact .inl hx
        · exact .inr (.inl hx)
        · exact absurd rfl hflow
        · exact absurd rfl hflow
        · exact .inr (.inr (.inr hx))
    · have hstream := h.stream p hp hopen
      rw [under_cons] at hstream
      rw [under_append, under_append, under_singleton, hstream]
      by_cases hflow : flow = p.flow
      · subst hflow
        have hall : e.remoteDataTaken p.flow.1 p.flow.2 data ++
            (e.enqueueRemoteData p.flow.1 p.flow.2 data).2.getD [] = data :=
          h.offered hp hopen data
        rw [if_pos rfl, if_pos rfl, under_left, append_assoc,
          ← append_assoc (e.remoteDataTaken p.flow.1 p.flow.2 data), hall]
      · rw [if_neg hflow, if_neg hflow, under_other _ hflow, append_nil]
  obtain ⟨hfollows, hknows⟩ := follows_apply h.knows {} (.enqueueRemoteData flow.1 flow.2 data) rfl
  exact hbefore.follow hfollows hknows

end Books

end TcpHandshakeEngine

namespace StackShard

open TcpHandshakeEngine

variable {s s' : StackShard κ} {msg : ShardMessage}

/-- The books of a shard. While it is in the control loop, nothing is deferred. -/
structure InOrder (s : StackShard κ) : Prop where
  books : Books s.tcp s.accepted s.taken (s.deferredData ++ s.controlInbox.sessionData)
  control : s.controlBudget ≠ none → s.deferredSessionData.data = none

theorem deferredData_eq_nil (h : s.deferredSessionData.data = none) : s.deferredData = [] := by
  rw [deferredData, h]
  rfl

/-- What is left of a message is deferred. -/
theorem inOrder_defer {rest : Bytes}
    (h : Books s.tcp s.accepted s.taken ((msg.flow, rest) :: s.controlInbox.sessionData)) :
    (s.defer msg rest).InOrder :=
  ⟨h, fun hne => absurd rfl hne⟩

/-- Offering data changes the engine and the log only. -/
theorem offer_frame (s : StackShard κ) (msg : ShardMessage) :
    (s.offer msg).1.controlInbox = s.controlInbox ∧
      (s.offer msg).1.deferredSessionData = s.deferredSessionData ∧
      (s.offer msg).1.controlBudget = s.controlBudget := by
  rw [StackShard.offer]
  split <;> exact ⟨rfl, rfl, rfl⟩

/-- The engine goes on. -/
theorem InOrder.follow (h : s.InOrder) {tcp : TcpHandshakeEngine κ}
    (hfollows : Follows s.tcp tcp ∧ Knows (fun _ _ => True) tcp) : InOrder { s with tcp := tcp } :=
  ⟨h.books.follow hfollows.1 hfollows.2, h.control⟩

variable [CongestionController κ]

/-- The data of the message that is offered is the first of what is on its way. -/
theorem books_offer {pending : List (NamedQueue (FlowId × ℕ) UInt8)}
    (h : Books s.tcp s.accepted s.taken ((msg.data.map (msg.flow, ·)).toList ++ pending)) :
    Books (s.offer msg).1.tcp (s.offer msg).1.accepted (s.offer msg).1.taken
      (((s.offer msg).2.map (msg.flow, ·)).toList ++ pending) := by
  rw [StackShard.offer]
  cases hdata : msg.data with
  | none =>
    rw [hdata] at h
    exact h
  | some =>
    rw [hdata] at h
    exact Books.offer h

theorem InOrder.beginControl (h : s.InOrder) : s.beginControl.InOrder := by
  rw [StackShard.beginControl]
  split
  · have hbooks := books_offer h.books
    obtain ⟨hinbox, hdeferred, -⟩ := s.offer_frame s.deferredSessionData
    generalize s.offer s.deferredSessionData = offered at hbooks hinbox hdeferred
    obtain ⟨_, left⟩ := offered
    rw [← hinbox, ← hdeferred] at hbooks
    cases left with
    | some => exact inOrder_defer hbooks
    | none => exact ⟨hbooks, fun _ => rfl⟩
  · next hnone => exact ⟨h.books, fun _ => Option.not_isSome_iff_eq_none.1 hnone⟩

theorem follows_sessionWritable {e : TcpHandshakeEngine κ} (h : Knows (fun _ _ => True) e)
    (env : Env) (queued : Bool) (nowMs : ℕ) (msg : ShardMessage) :
    Follows e (sessionWritable env queued nowMs e msg) ∧
      Knows (fun _ _ => True) (sessionWritable env queued nowMs e msg) := by
  obtain ⟨hfollows, hknows⟩ :=
    follows_apply h env (.onSessionWritable msg.flowId msg.generation nowMs) rfl
  rw [sessionWritable]
  split
  · next response _ =>
    split
    · exact ⟨hfollows, hknows⟩
    · obtain ⟨hfollows', hknows'⟩ := follows_apply hknows env (.deferResponse response) rfl
      exact ⟨hfollows.trans hfollows', hknows'⟩
  · exact ⟨hfollows, hknows⟩

/-- A message that was taken from the inbox: if it is remote data, it is the first of what
    is on its way. -/
theorem inOrder_process (hdeferred : s.deferredSessionData.data = none)
    (h : Books s.tcp s.accepted s.taken
      (({ s.controlInbox with queue := msg :: s.controlInbox.queue } : InboxMpsc).sessionData))
    (env : Env) (queued : Bool) (nowMs : ℕ) : (process env queued nowMs s msg).InOrder := by
  by_cases hdata : msg.type = .sessionData
  · have hpending : (({ s.controlInbox with queue := msg :: s.controlInbox.queue } :
        InboxMpsc).sessionData) =
        (msg.data.map (msg.flow, ·)).toList ++ s.controlInbox.sessionData := by
      rw [InboxMpsc.sessionData, filterMap_cons, if_pos hdata]
      cases msg.data <;> rfl
    rw [hpending] at h
    have hbooks := books_offer h
    obtain ⟨hinbox, hsame, -⟩ := s.offer_frame msg
    rw [process, hdata]
    generalize s.offer msg = offered at hbooks hinbox hsame
    obtain ⟨_, left⟩ := offered
    rw [← hinbox] at hbooks
    cases left with
    | some => exact inOrder_defer hbooks
    | none =>
      refine ⟨?_, fun _ => hsame ▸ hdeferred⟩
      rw [deferredData_eq_nil (hsame ▸ hdeferred)]
      exact hbooks
  · have hpending : (({ s.controlInbox with queue := msg :: s.controlInbox.queue } :
        InboxMpsc).sessionData) = s.controlInbox.sessionData := by
      rw [InboxMpsc.sessionData, filterMap_cons, if_neg hdata]
      rfl
    rw [hpending] at h
    have hs : s.InOrder := by
      refine ⟨?_, fun _ => hdeferred⟩
      rw [deferredData_eq_nil hdeferred]
      exact h
    rw [process]
    split
    · exact ⟨hs.books, fun _ => hdeferred⟩
    · next htype => exact absurd htype hdata
    · exact hs.follow (follows_sessionWritable h.knows env queued nowMs msg)
    · exact hs.follow (follows_apply h.knows env
        (.onSessionClosed msg.flowId msg.generation msg.error) rfl)
    · exact hs.follow (follows_apply h.knows env (.closeFlow msg.flowId msg.generation) rfl)
    · exact hs.follow (follows_apply h.knows env (.abortFlow msg.flowId msg.generation) rfl)
    all_goals exact hs

theorem InOrder.controlRound (h : s.InOrder) {budget : ℕ} (hcontrol : s.controlBudget = some budget)
    (env : Env) (queued : Bool) (nowMs : ℕ) : (s.controlRound env queued nowMs budget).InOrder := by
  have hdeferred : s.deferredSessionData.data = none :=
    h.control (by rw [hcontrol]; exact Option.some_ne_none _)
  cases budget with
  | zero => exact ⟨h.books, fun _ => hdeferred⟩
  | succ budget =>
    rw [StackShard.controlRound, InboxMpsc.pop]
    cases hqueue : s.controlInbox.queue with
    | nil => exact ⟨h.books, fun _ => hdeferred⟩
    | cons msg queue =>
      have hbooks := h.books
      rw [deferredData_eq_nil hdeferred, nil_append] at hbooks
      have hfirst : Books s.tcp s.accepted s.taken
          (({ s.controlInbox with queue := msg :: queue } : InboxMpsc).sessionData) := by
        rw [← hqueue]
        exact hbooks
      exact inOrder_process (s := { s with
        controlInbox := { s.controlInbox with queue := queue }
        controlBudget := some budget }) hdeferred hfirst env queued nowMs

omit [CongestionController κ] in
theorem InOrder.dataCallback (h : s.InOrder) {id : FlowId} (hcall : s.CanCall id) (generation : ℕ)
    (lease : Option Bytes) : (s.dataCallback id generation lease).1.InOrder := by
  cases lease with
  | none => exact h
  | some data =>
    rw [StackShard.dataCallback, InboxMpsc.push]
    split
    · exact h
    · by_cases hfull : s.controlInbox.queue.length ≥ s.controlInbox.capacity
      · rw [if_pos hfull]
        exact h
      · rw [if_neg hfull]
        refine ⟨?_, h.control⟩
        have hbooks := h.books.accept (id, generation) data hcall.1 hcall.2
        rw [append_assoc] at hbooks
        have hpending : ({ s.controlInbox with queue := s.controlInbox.queue ++ [{
              type := .sessionData, flowId := id, generation := generation,
              data := some data }] } : InboxMpsc).sessionData =
            s.controlInbox.sessionData ++ [((id, generation), data)] :=
          filterMap_append
        rw [← hpending] at hbooks
        exact hbooks

omit [CongestionController κ] in
/-- Another message leaves the remote data alone. -/
theorem InOrder.post (h : s.InOrder) (hmsg : msg.type ≠ .sessionData) {inbox : InboxMpsc}
    (hpush : s.controlInbox.push msg = some inbox) : InOrder { s with controlInbox := inbox } := by
  rw [InboxMpsc.push] at hpush
  split at hpush
  · nomatch hpush
  · cases hpush
    have hpending : ({ s.controlInbox with queue := s.controlInbox.queue ++ [msg] } :
        InboxMpsc).sessionData = s.controlInbox.sessionData := by
      rw [InboxMpsc.sessionData, filterMap_append, filterMap_cons, if_neg hmsg]
      exact append_nil _
    have hbooks := h.books
    rw [← hpending] at hbooks
    exact ⟨hbooks, h.control⟩

/-- Every step keeps the books in order. -/
theorem InOrder.step (h : s.InOrder) {event : ShardEvent} (hstep : s.step event = some s') :
    s'.InOrder := by
  cases event with
  | engine env op =>
    rw [StackShard.step] at hstep
    split at hstep
    · obtain ⟨_, hop, rfl⟩ := Option.map_eq_some_iff.1 hstep
      exact h.follow (follows_apply h.books.knows env op hop)
    · nomatch hstep
  | beginControl =>
    rw [StackShard.step] at hstep
    split at hstep
    · cases hstep
      exact h.beginControl
    · nomatch hstep
  | controlRound env queued nowMs =>
    rw [StackShard.step] at hstep
    split at hstep
    · next budget hcontrol =>
      cases hstep
      exact h.controlRound hcontrol env queued nowMs
    · nomatch hstep
  | dataCallback _ generation lease =>
    rw [StackShard.step] at hstep
    split at hstep
    · next hcall =>
      cases hstep
      exact h.dataCallback hcall generation lease
    · nomatch hstep
  | post =>
    rw [StackShard.step] at hstep
    split at hstep
    · next hmsg =>
      obtain ⟨_, hpush, rfl⟩ := Option.map_eq_some_iff.1 hstep
      exact h.post hmsg hpush
    · nomatch hstep
  | requestStop =>
    cases hstep
    exact ⟨h.books, h.control⟩
  | finish =>
    rw [StackShard.step] at hstep
    split at hstep
    · next hguard =>
      cases hstep
      obtain ⟨hfollows, hknows⟩ := follows_apply h.books.knows {} .shutdown rfl
      have hbooks := h.books.follow hfollows hknows
      refine ⟨⟨hknows, fun x hx => hbooks.fresh x ?_, fun p hp => ?_⟩, fun _ => rfl⟩
      · -- what was on its way is dropped
        have hx : x ∈ s.accepted ++ (s.taken ++ []) := hx
        rw [append_nil] at hx
        exact mem_append.2 ((mem_append.1 hx).imp_right (mem_append_left _))
      · have hnone : s.finish.tcp.pcbs = [] := shutdown_pcbs hguard.2.2.2
        rw [hnone] at hp
        exact absurd hp not_mem_nil
    · nomatch hstep

omit [CongestionController κ] in
theorem Started.inOrder (h : s.Started) : s.InOrder := by
  obtain ⟨config, isn, makeController, hasSessionFactory, generationEpoch, slotCount, hnew⟩ := h.tcp
  have hpending : s.deferredData ++ s.controlInbox.sessionData = [] := by
    rw [deferredData_eq_nil (by rw [h.deferred]), nil_append, InboxMpsc.sessionData,
      filterMap_eq_nil_iff]
    exact fun msg hmsg => if_neg (h.inbox msg hmsg)
  refine ⟨?_, fun hne => absurd h.control hne⟩
  rw [h.accepted, h.taken, hpending]
  exact ⟨tracked_new hnew, fun x hx => absurd hx not_mem_nil, fun _ _ _ => rfl⟩

/-- A run that is replayed. -/
theorem Reachable.of_run {start : StackShard κ} (hstart : start.Started) (events : List ShardEvent)
    (h : events.foldlM step start = some s) : s.Reachable :=
  ⟨start, hstart, runs_of_foldlM h⟩

theorem Reachable.inOrder (h : s.Reachable) : s.InOrder := by
  obtain ⟨_, hstart, hruns⟩ := h
  exact hruns.invariant hstart.inOrder fun _ _ _ hs hstep => hs.step hstep

end StackShard

/-- A send buffer of two bytes, and an inbox for two messages. -/
def smallShard : Option (StackShard AimdController) :=
  (TcpHandshakeEngine.new { receiveWindow := 16, sendQueueLimit := 2 } (fun _ _ => 0)
    AimdController.new true 1 1).map fun tcp => { tcp := tcp, controlInbox := { capacity := 2 } }

theorem started_of_smallShard {start : StackShard AimdController} (h : smallShard = some start) :
    start.Started := by
  obtain ⟨_, hnew, rfl⟩ := Option.map_eq_some_iff.1 h
  exact ⟨⟨_, _, _, _, _, _, hnew⟩, fun _ h => absurd h not_mem_nil, rfl, rfl, rfl, rfl, rfl, rfl⟩

/-- What a run of the small shard shows. -/
theorem exists_small_shard {P : StackShard AimdController → Prop} [DecidablePred P]
    (events : List ShardEvent) (h : (smallShard.bind (events.foldlM StackShard.step ·)).any (P ·)) :
    ∃ s : StackShard AimdController, s.Reachable ∧ P s := by
  obtain ⟨s, hs, hP⟩ := (Option.any_eq_true ..).1 h
  obtain ⟨_, hstart, hfold⟩ := Option.bind_eq_some_iff.1 hs
  exact ⟨s, .of_run (started_of_smallShard hstart) events hfold, of_decide_eq_true hP⟩

/-- Of three bytes one does not fit, and two messages fill the inbox. -/
def crowd : List ShardEvent :=
  let syn := peerSends 1 TcpFlag.syn 100 0
  let ack := peerSends 1 TcpFlag.ack 101 1
  [.engine syn.1 syn.2, .engine ack.1 ack.2, .dataCallback 1 1 (some [1, 2, 3]), .beginControl,
    .controlRound {} true 0, .dataCallback 1 1 (some [4]), .dataCallback 1 1 (some [5])]

end Netstack2
