import Netstack2.Core.Shard.Stop
import Netstack2.Tcp.Engine.Limits

/-!
# Notifications of the sessions

A session tells the shard of its flow that it can take data again, and that it was closed, by
callbacks that post a message to the control inbox. The callbacks answer nothing, and the shard does
not look whether the inbox has taken the message: a notification that finds the inbox full is gone.

`Notified` is the shard with a log of the messages that it has processed. A notification is *kept*
if from then on the log or the inbox has a message of its kind for its flow.

* `notification_kept_iff`: as long as the callback gate is open, a notification is kept in every run
  if and only if the inbox has room for it or has such a message already;
* `notification_lost`: a full inbox of remote data, and a notification that is lost.
-/

namespace Netstack2

open List StackShard

variable {κ : Type}

namespace StackShard

variable {s s' : StackShard κ}

/-- What a session may tell its shard. -/
inductive Notification
  | writable (id : FlowId) (generation : ℕ)
  | closed (id : FlowId) (generation : ℕ) (error : TcpHandshakeEngine.SessionError)

/-- The message that is posted for a notification. -/
def Notification.message : Notification → ShardMessage
  | writable id generation => { type := .sessionWritable, flowId := id, generation := generation }
  | closed id generation error =>
    { type := .sessionClosed, flowId := id, generation := generation, error := error }

/-- Post a message through the callback gate, which is closed when the engine is shut down. -/
def tryPost (s : StackShard κ) (msg : ShardMessage) : StackShard κ × Bool :=
  if s.tcp.isShutdown then (s, false)
  else match s.controlInbox.push msg with
    | some inbox => ({ s with controlInbox := inbox }, true)
    | none => (s, false)

/-- The writable and the closed callback of a flow. -/
def notify (s : StackShard κ) (n : Notification) : StackShard κ := (s.tryPost n.message).1

/-- A message of the kind of the notification, for its flow. -/
def Notification.Matches (n : Notification) (msg : ShardMessage) : Prop :=
  msg.type = n.message.type ∧ msg.flow = n.message.flow

instance (n : Notification) (msg : ShardMessage) : Decidable (n.Matches msg) :=
  inferInstanceAs (Decidable (_ ∧ _))

/-- A notification leaves everything but the inbox alone. -/
theorem notify_posted (s : StackShard κ) (n : Notification) : Posted s (s.notify n) := by
  rw [notify, tryPost]
  split
  · exact .refl s
  · cases hpush : s.controlInbox.push n.message with
    | none => exact .refl s
    | some => exact posted_push hpush s.accepted

/-! ## The shard, and what it has processed -/

/-- A shard with the messages that it has processed. -/
structure Notified (κ : Type) where
  shard : StackShard κ
  processed : List ShardMessage := []

/-- The message that a step of the shard takes from the inbox. -/
def processes (s : StackShard κ) : ShardEvent → List ShardMessage
  | .controlRound .. => match s.controlBudget with
    | some (_ + 1) => s.controlInbox.queue.head?.toList
    | _ => []
  | _ => []

variable [CongestionController κ]

/-- A step of the shard, or a notification. -/
def Notified.step (x : Notified κ) : ShardEvent ⊕ Notification → Option (Notified κ)
  | .inl event => (x.shard.step event).map fun shard =>
      { shard := shard, processed := x.processed ++ x.shard.processes event }
  | .inr n => some { x with shard := x.shard.notify n }

/-- The messages that were processed since, and those in the inbox. -/
def Notified.held (x : Notified κ) : List ShardMessage := x.processed ++ x.shard.controlInbox.queue

/-- The thread of the shard has ended. -/
structure Ended (s : StackShard κ) : Prop where
  shutdown : s.tcp.isShutdown = true
  running : s.running = false
  control : s.controlBudget = none

/-- Processing a message leaves the inbox alone. -/
theorem process_controlInbox (s : StackShard κ) (msg : ShardMessage) (env : Env) (queued : Bool)
    (nowMs : ℕ) : (process env queued nowMs s msg).controlInbox = s.controlInbox := by
  rw [process]
  cases msg.type with
  | sessionData =>
    obtain ⟨hinbox, -⟩ := s.offer_frame msg
    generalize s.offer msg = offered at hinbox
    obtain ⟨_, left⟩ := offered
    cases left <;> exact hinbox
  | stop | packetIn | sessionWritable | control | sessionClosed | flowClose | flowAbort
  | udpSessionData | udpSessionClosed => rfl

omit [CongestionController κ] in
theorem beginControl_controlInbox (s : StackShard κ) :
    s.beginControl.controlInbox = s.controlInbox := by
  rw [beginControl]
  split
  · obtain ⟨hinbox, -⟩ := s.offer_frame s.deferredSessionData
    generalize s.offer s.deferredSessionData = offered at hinbox
    obtain ⟨_, left⟩ := offered
    cases left <;> exact hinbox
  · rfl

/-- A round moves the first message of the inbox to those processed. -/
theorem controlRound_held (s : StackShard κ) (env : Env) (queued : Bool) (nowMs : ℕ) {budget : ℕ}
    (hcontrol : s.controlBudget = some budget) :
    s.processes (.controlRound env queued nowMs) ++
      (s.controlRound env queued nowMs budget).controlInbox.queue = s.controlInbox.queue := by
  rw [processes, hcontrol]
  cases budget with
  | zero => rfl
  | succ =>
    rw [controlRound, InboxMpsc.pop]
    cases hqueue : s.controlInbox.queue with
    | nil => exact hqueue
    | cons =>
      rw [process_controlInbox]
      rfl

section

omit [CongestionController κ]

theorem release_isShutdown (e : TcpHandshakeEngine κ) (p : Pcb κ) :
    (e.release p).isShutdown = e.isShutdown := by
  have hcancel : ∀ (e : TcpHandshakeEngine κ) (id : TimerId),
      (e.cancelTimer id).isShutdown = e.isShutdown := by
    intro e id
    rw [TcpHandshakeEngine.cancelTimer]
    split <;> rfl
  exact (hcancel _ _).trans ((hcancel _ _).trans (hcancel _ _))

theorem removeAll_isShutdown (fuel : ℕ) (e : TcpHandshakeEngine κ) :
    (TcpHandshakeEngine.removeAll fuel e).isShutdown = e.isShutdown := by
  induction fuel generalizing e with
  | zero => rfl
  | succ _ ih =>
    rw [TcpHandshakeEngine.removeAll, ih, TcpHandshakeEngine.removeAt]
    split
    · rfl
    · exact release_isShutdown e _

theorem shutdown_isShutdown (e : TcpHandshakeEngine κ) : e.shutdown.isShutdown := by
  rw [TcpHandshakeEngine.shutdown]
  split
  · assumption
  · exact removeAll_isShutdown _ _

end

variable {x : Notified κ} {event : ShardEvent}

omit [CongestionController κ] in
/-- A step that only adds to the inbox keeps what is held. -/
theorem held_of_append (hnone : x.shard.processes event = [])
    (hqueue : ∃ more, s'.controlInbox.queue = x.shard.controlInbox.queue ++ more) :
    ∃ more, x.processed ++ x.shard.processes event ++ s'.controlInbox.queue = x.held ++ more := by
  obtain ⟨more, hmore⟩ := hqueue
  exact ⟨more, by rw [hnone, hmore, append_nil, Notified.held, append_assoc]⟩

/-- A step of the shard keeps what is held, unless it is its end. -/
theorem step_held (hstep : x.shard.step event = some s') :
    (∃ more, x.processed ++ x.shard.processes event ++ s'.controlInbox.queue = x.held ++ more) ∨
      s'.Ended := by
  cases event with
  | engine =>
    rw [step] at hstep
    split at hstep
    · obtain ⟨_, -, rfl⟩ := Option.map_eq_some_iff.1 hstep
      exact .inl (held_of_append rfl ⟨[], (append_nil _).symm⟩)
    · cases hstep
  | beginControl =>
    rw [step] at hstep
    split at hstep
    · cases hstep
      refine .inl (held_of_append rfl ⟨[], ?_⟩)
      rw [beginControl_controlInbox, append_nil]
    · cases hstep
  | controlRound env queued nowMs =>
    rw [step] at hstep
    split at hstep
    · next budget hcontrol =>
      cases hstep
      refine .inl ⟨[], ?_⟩
      rw [append_assoc, controlRound_held x.shard env queued nowMs hcontrol, append_nil,
        Notified.held]
    · cases hstep
  | dataCallback id generation lease =>
    rw [step] at hstep
    split at hstep
    · cases hstep
      exact .inl (held_of_append rfl (posted_dataCallback x.shard id generation lease).queue)
    · cases hstep
  | post =>
    rw [step] at hstep
    split at hstep
    · obtain ⟨_, hpush, rfl⟩ := Option.map_eq_some_iff.1 hstep
      exact .inl (held_of_append rfl (posted_push hpush x.shard.accepted).queue)
    · cases hstep
  | requestStop =>
    cases hstep
    exact .inl (held_of_append rfl ⟨[], (append_nil _).symm⟩)
  | finish =>
    rw [step] at hstep
    split at hstep
    · next hguard =>
      cases hstep
      exact .inr ⟨shutdown_isShutdown _, rfl, hguard.2.1⟩
    · cases hstep

/-- A shard that has ended does nothing any more; others may post. -/
theorem Ended.step (h : s.Ended) (hstep : s.step event = some s') : s'.Ended := by
  have hrunning : ¬s.running := by rw [h.running]; exact Bool.false_ne_true
  cases event with
  | engine | beginControl | finish =>
    rw [step, if_neg fun hguard => hrunning hguard.1] at hstep
    cases hstep
  | controlRound =>
    rw [step, h.control] at hstep
    cases hstep
  | dataCallback id generation lease =>
    have hsame : (s.dataCallback id generation lease).1 = s := by
      cases lease with
      | none => rfl
      | some => rw [dataCallback, if_pos h.shutdown]
    rw [step, hsame] at hstep
    split at hstep
    · exact Option.some.inj hstep ▸ h
    · cases hstep
  | post =>
    rw [step] at hstep
    split at hstep
    · obtain ⟨_, -, rfl⟩ := Option.map_eq_some_iff.1 hstep
      exact ⟨h.shutdown, h.running, h.control⟩
    · cases hstep
  | requestStop =>
    cases hstep
    exact ⟨h.shutdown, h.running, h.control⟩

/-- A notification that is held stays so until the shard ends. -/
theorem held_of_runs {n : Notification} {x' : Notified κ}
    (h : Runs (fun x ev x' => x.step ev = some x') x x') (hheld : ∃ msg ∈ x.held, n.Matches msg) :
    (∃ msg ∈ x'.held, n.Matches msg) ∨ x'.shard.Ended := by
  refine Runs.invariant
    (P := fun x => (∃ msg ∈ x.held, n.Matches msg) ∨ x.shard.Ended) h (.inl hheld) ?_
  rintro x (event | m) x' hx hstep
  · obtain ⟨_, hs', rfl⟩ := Option.map_eq_some_iff.1 hstep
    rcases hx with ⟨msg, hmsg, hmatch⟩ | hended
    · refine (step_held hs').imp_left ?_
      rintro ⟨_, hmore⟩
      refine ⟨msg, ?_, hmatch⟩
      rw [Notified.held, hmore]
      exact mem_append_left _ hmsg
    · exact .inr (hended.step hs')
  · cases hstep
    have hposted := x.shard.notify_posted m
    rcases hx with ⟨msg, hmsg, hmatch⟩ | hended
    · obtain ⟨_, hmore⟩ := hposted.queue
      refine .inl ⟨msg, ?_, hmatch⟩
      rw [Notified.held, hmore, ← append_assoc]
      exact mem_append_left _ hmsg
    · have hsame : x.shard.notify m = x.shard := by rw [notify, tryPost, if_pos hended.shutdown]
      exact .inr (hsame.symm ▸ hended)

end StackShard

/-- As long as the callback gate is open, a notification is processed or held in every run from
    there on if and only if the inbox had room for it or a message of its kind for its flow. -/
theorem notification_kept_iff [CongestionController κ] (s : StackShard κ)
    (n : StackShard.Notification) (hgate : s.tcp.isShutdown = false) :
    (∀ x : StackShard.Notified κ,
      Runs (fun x ev x' => x.step ev = some x') { shard := s.notify n } x →
      x.shard.tcp.isShutdown = false → ∃ msg ∈ x.held, n.Matches msg) ↔
    s.controlInbox.queue.length < s.controlInbox.capacity ∨
      ∃ msg ∈ s.controlInbox.queue, n.Matches msg := by
  have hposted := s.notify_posted n
  have hnotify : s.notify n = (match s.controlInbox.push n.message with
      | some inbox => ({ s with controlInbox := inbox }, true)
      | none => (s, false)).1 := by
    rw [notify, tryPost, hgate, if_neg Bool.false_ne_true]
  constructor
  · intro h
    by_cases hroom : s.controlInbox.queue.length < s.controlInbox.capacity
    · exact .inl hroom
    · have hsame : s.notify n = s := by
        rw [hnotify, InboxMpsc.push, if_pos (Nat.le_of_not_lt hroom)]
      have hheld := h { shard := s.notify n } .refl (by rw [hsame]; exact hgate)
      rw [StackShard.Notified.held, hsame] at hheld
      exact .inr hheld
  · intro h x hruns hopen
    refine (held_of_runs hruns ?_).resolve_right fun hended => ?_
    · show ∃ msg ∈ [] ++ (s.notify n).controlInbox.queue, n.Matches msg
      rw [nil_append]
      by_cases hroom : s.controlInbox.queue.length < s.controlInbox.capacity
      · rw [hnotify, InboxMpsc.push, if_neg (Nat.not_le_of_lt hroom)]
        exact ⟨n.message, mem_append_right _ (mem_singleton_self _), rfl, rfl⟩
      · obtain ⟨msg, hmsg, hmatch⟩ := h.resolve_left hroom
        obtain ⟨_, hmore⟩ := hposted.queue
        exact ⟨msg, hmore ▸ mem_append_left _ hmsg, hmatch⟩
    · exact absurd (hopen.symm.trans hended.shutdown) Bool.false_ne_true

/-- There is room in the inbox, behind the data of an open flow. -/
theorem notification_kept_iff_room :
    ∃ s : StackShard AimdController, s.Reachable ∧ s.tcp.isShutdown = false ∧
      (∃ p ∈ s.tcp.pcbs, p.flowId = 1 ∧ p.IsOpen) ∧
      s.controlInbox.queue.map (·.type) = [.sessionData] ∧
      ∀ x : StackShard.Notified AimdController,
        Runs (fun x ev x' => x.step ev = some x') { shard := s.notify (.writable 1 1) } x →
        x.shard.tcp.isShutdown = false →
        ∃ msg ∈ x.held, (StackShard.Notification.writable 1 1).Matches msg := by
  obtain ⟨s, hreach, hgate, hopen, hqueue, hroom⟩ := exists_small_shard
    (P := fun s => s.tcp.isShutdown = false ∧ (∃ p ∈ s.tcp.pcbs, p.flowId = 1 ∧ p.IsOpen) ∧
      s.controlInbox.queue.map (·.type) = [.sessionData] ∧
      s.controlInbox.queue.length < s.controlInbox.capacity) crowd.dropLast (by decide +kernel)
  exact ⟨s, hreach, hgate, hopen, hqueue,
    (notification_kept_iff s (.writable 1 1) hgate).2 (.inl hroom)⟩

/-- Remote data fills the inbox, and the session tells that it can take data again: nothing
    has changed, and nobody will know. -/
theorem notification_lost :
    ∃ s : StackShard AimdController, s.Reachable ∧ s.tcp.isShutdown = false ∧
      s.controlInbox.queue.length = s.controlInbox.capacity ∧
      (s.notify (.writable 1 1)).controlInbox = s.controlInbox ∧
      ∀ msg ∈ ({ shard := s.notify (.writable 1 1) } : StackShard.Notified AimdController).held,
        ¬(StackShard.Notification.writable 1 1).Matches msg :=
  exists_small_shard crowd (by decide +kernel)

/-- A session that is told to go on: until its connection closes, half of what the queue may
    hold is taken whole. -/
theorem resumed_takes_half [CongestionController κ] {e : TcpHandshakeEngine κ}
    (h : e.Reachable fun _ _ => True) {backlog low : ℕ} {id : FlowId}
    (hid : id ∈ e.resumeSessionReceives backlog low) :
    ∃ p ∈ e.pcbs, p.flowId = id ∧ ∃ send ∈ p.send,
      (p.state.beforeClose = true → send.closed = false → ∀ data : Bytes,
        2 * data.length ≤ e.config.sendQueueLimit + 1 → (send.enqueue data).2 = data.length) := by
  rw [TcpHandshakeEngine.resumeSessionReceives] at hid
  split at hid
  · cases hid
  obtain ⟨p, hp, rfl⟩ := mem_map.1 hid
  obtain ⟨hmem, hlow⟩ := mem_filter.1 hp
  cases hsend : p.send with
  | none => simp [hsend] at hlow
  | some send =>
    simp only [hsend, Bool.and_eq_true, decide_eq_true_eq] at hlow
    have hwithin := h.within hmem hsend
    refine ⟨p, hmem, rfl, send, hsend, fun hstate hclosed data hdata => ?_⟩
    simp only [send.enqueue_all_iff, TcpSendBuffer.HasRoom, hwithin.limit, hclosed,
      hwithin.requested hstate, true_and, ← length_eq_zero_iff]
    omega

theorem resumed_takes_half_open : ∃ e : TcpHandshakeEngine AimdController,
    1 ∈ e.resumeSessionReceives 0 1 ∧ ∃ p ∈ e.pcbs, p.flowId = 1 ∧ ∃ send ∈ p.send,
      ∀ data : Bytes, 2 * data.length ≤ e.config.sendQueueLimit + 1 →
        (send.enqueue data).2 = data.length := by
  obtain ⟨e, hreach, -, -, hid, hopen⟩ := exists_reached (P := fun e _ => 1 ∈ e.resumeSessionReceives 0 1 ∧ ∀ p ∈ e.pcbs,
      p.state.beforeClose = true ∧ ∀ send ∈ p.send, send.closed = false)
    { receiveWindow := 16 } (peerOpens 1) (by decide +kernel)
  obtain ⟨p, hp, hflow, send, hsend, htakes⟩ := resumed_takes_half hreach hid
  obtain ⟨hstate, hclosed⟩ := hopen p hp
  exact ⟨e, hid, p, hp, hflow, send, hsend, htakes hstate (hclosed send hsend)⟩

end Netstack2
