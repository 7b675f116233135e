import Netstack2.Lib.Tiling
import Netstack2.Qos.FqCodel.Order

/-!
# Egress

The packets of a shard wait in its scheduler. `FlushTcpTx` takes them out one after another
and hands each to the transmit queue of its flow, or to the lane of the shard that owns the
queue. A queue that would block and a lane that is full refuse the packet; then it is handed
in to the scheduler again, as any other packet, and the flush ends.

* What a queue or a lane answers comes with each round of a flush (`EgressEnv`). It may
  depend on the flow of the packet, which determines the queue.
* A packet of the scheduler has a buffer, so that it is not empty.
* `enqueued` and `left` record the packets that were handed in, the first time, and those
  that were handed to a queue or a lane, with their flows; no step reads them.

A packet that was refused is the last of its flow, behind those that were handed in after
it, which overtake it (`refused_packet_overtaken`). The packets of each flow leave in their
order as long as no packet of its flow is left in the scheduler when one is handed in again
(`egress_in_order`).
-/

namespace Netstack2

open List FqCoDelScheduler

variable {τ : Type}

/-- How a round of a flush is answered. -/
structure EgressEnv where
  nowMs : UInt64 := 0
  /-- How many packets of a flow the transmit queue takes, offered one. -/
  sendBatch : UInt32 → ℕ := fun _ => 1
  /-- The lane has room for a packet of the flow. -/
  push : UInt32 → Bool := fun _ => true

/-- What a shard has for its egress; a pointer is represented by whether it is not null. -/
structure EgressShard (τ : Type) where
  fqCodel : FqCoDelScheduler τ
  shardId : ℕ := 0
  hasQueue : Bool := true
  txQueues : List Bool := []
  /-- The shard that owns a queue; `none` if there is no dispatcher. -/
  queueShard : Option (ℕ → ℕ) := none
  outboundEgressLanes : List Bool := []
  redirectTargets : List Bool := []
  enqueued : List (UInt32 × τ) := []
  left : List (UInt32 × τ) := []

inductive Routed
  | left
  /-- There is no queue, or no lane. -/
  | dropped
  | refused
  deriving DecidableEq

def kTcpTxBudget : ℕ := 64

namespace EgressShard

/-- Offer a packet of a flow to a transmit queue. -/
def submit (env : EgressEnv) (queue : Bool) (flowHash : UInt32) : Routed :=
  if queue = false then .dropped else if env.sendBatch flowHash = 0 then .refused else .left

/-- What becomes of a packet of a flow. -/
def routeEgressPacket (env : EgressEnv) (s : EgressShard τ) (flowHash : UInt32) : Routed :=
  if s.txQueues = [] then submit env s.hasQueue flowHash
  else match s.queueShard with
    | none => .refused
    | some queueShard =>
      let queueId := flowHash.toNat % s.txQueues.length
      let targetShard := queueShard queueId
      if targetShard = s.shardId then submit env (s.txQueues.getD queueId false) flowHash
      else if s.outboundEgressLanes.getD targetShard false = false ∨
          s.redirectTargets.getD targetShard false = false then .dropped
      else if env.push flowHash then .left else .refused

/-- A round of the loop of a flush, and whether the loop goes on; `none` if it does not return. -/
def flushRound (env : EgressEnv) (s : EgressShard τ) : Option (EgressShard τ × Bool) :=
  (s.fqCodel.dequeue env.nowMs).map fun d =>
    match d.packet with
    | none => ({ s with fqCodel := d.scheduler }, false)
    | some pkt => match s.routeEgressPacket env pkt.flowHash with
      | .left =>
        ({ s with
          fqCodel := d.scheduler
          left := s.left ++ [(pkt.flowHash, pkt.lease.tag)] }, true)
      | .dropped => ({ s with fqCodel := d.scheduler }, true)
      -- it is handed in again, with the time of its first arrival
      | .refused =>
        ({ s with
          fqCodel := (d.scheduler.enqueue (some pkt.lease) pkt.flowHash pkt.enqueueTimeMs).1 },
          false)

/-- So many rounds of a flush, from the round `i` on. -/
def flushRounds (env : ℕ → EgressEnv) : ℕ → ℕ → EgressShard τ → Option (EgressShard τ)
  | 0, _, s => some s
  | fuel + 1, i, s => (s.flushRound (env i)).bind fun (s, again) =>
    if again then flushRounds env fuel (i + 1) s else some s

def flushTcpTx (env : ℕ → EgressEnv) (s : EgressShard τ) : Option (EgressShard τ) :=
  if s.fqCodel.queueLength = 0 then some s else flushRounds env kTcpTxBudget 0 s

/-- A packet of the shard is handed in to the scheduler. -/
def enqueue (s : EgressShard τ) (lease : Option (BufferLease τ)) (flowHash : UInt32)
    (nowMs : UInt64) : EgressShard τ :=
  let result := s.fqCodel.enqueue lease flowHash nowMs
  { s with
    fqCodel := result.1
    enqueued := if result.2 then s.enqueued ++ lease.toList.map fun lease => (flowHash, lease.tag)
      else s.enqueued }

end EgressShard

inductive EgressEvent (τ : Type)
  | enqueue (lease : Option (BufferLease τ)) (flowHash : UInt32) (nowMs : UInt64)
  | flush (env : ℕ → EgressEnv)

namespace EgressShard

def step (s : EgressShard τ) : EgressEvent τ → Option (EgressShard τ)
  | .enqueue lease flowHash nowMs => some (s.enqueue lease flowHash nowMs)
  | .flush env => s.flushTcpTx env

/-- The packets of a flow that were handed in, by their tags. -/
def enqueuedOf (s : EgressShard τ) (flowHash : UInt32) : List τ :=
  (s.enqueued.filter (·.1 = flowHash)).map (·.2)

/-- The packets of a flow that left, by their tags. -/
def leftOf (s : EgressShard τ) (flowHash : UInt32) : List τ :=
  (s.left.filter (·.1 = flowHash)).map (·.2)

/-- Where the packet of a round is refused and handed in again, none of its flow is queued. -/
def RefusesLast (env : EgressEnv) (s : EgressShard τ) : Prop :=
  ∀ d ∈ s.fqCodel.dequeue env.nowMs, ∀ pkt ∈ d.packet,
    s.routeEgressPacket env pkt.flowHash = .refused →
    (d.scheduler.enqueue (some pkt.lease) pkt.flowHash pkt.enqueueTimeMs).2 →
    d.scheduler.queuedTags pkt.flowHash = []

instance (env : EgressEnv) (s : EgressShard τ) : Decidable (s.RefusesLast env) :=
  inferInstanceAs (Decidable (∀ d ∈ s.fqCodel.dequeue env.nowMs, _))

/-- What every round of a flush hands in again was the last of its flow. -/
def RoundsRefuseLast (env : ℕ → EgressEnv) : ℕ → ℕ → EgressShard τ → Prop
  | 0, _, _ => True
  | fuel + 1, i, s => s.RefusesLast (env i) ∧
    match s.flushRound (env i) with
    | some (s, true) => RoundsRefuseLast env fuel (i + 1) s
    | _ => True

instance decidableRoundsRefuseLast (env : ℕ → EgressEnv) : ∀ (fuel i : ℕ) (s : EgressShard τ),
    Decidable (RoundsRefuseLast env fuel i s)
  | 0, _, _ => .isTrue trivial
  | fuel + 1, i, s =>
    haveI : Decidable (match s.flushRound (env i) with
        | some (s, true) => RoundsRefuseLast env fuel (i + 1) s
        | _ => True) :=
      match s.flushRound (env i) with
      | some (s, true) => decidableRoundsRefuseLast env fuel (i + 1) s
      | some (_, false) | none => .isTrue trivial
    inferInstanceAs (Decidable (_ ∧ _))

/-! ## Order -/

variable {s s' : EgressShard τ} {env : EgressEnv}

/-- Of every flow, what has left and what is queued was handed in, in this order. -/
structure InOrder (s : EgressShard τ) : Prop where
  sound : s.fqCodel.Sound
  sublist : ∀ flowHash,
    (s.leftOf flowHash ++ s.fqCodel.queuedTags flowHash).Sublist (s.enqueuedOf flowHash)

theorem leftOf_append (s : EgressShard τ) (fqCodel : FqCoDelScheduler τ) (flowHash : UInt32)
    (tag : τ) (m : UInt32) :
    leftOf { s with fqCodel := fqCodel, left := s.left ++ [(flowHash, tag)] } m =
      s.leftOf m ++ if flowHash = m then [tag] else [] := by
  rw [leftOf, filter_append, map_append]
  by_cases hm : flowHash = m <;> simp [leftOf, hm]

/-- Nothing leaves, and of no flow anything is queued that was not, or in another order. -/
theorem InOrder.requeue (h : s.InOrder) {fqCodel : FqCoDelScheduler τ} (hsound : fqCodel.Sound)
    (htags : ∀ flowHash, (fqCodel.queuedTags flowHash).Sublist (s.fqCodel.queuedTags flowHash)) :
    InOrder { s with fqCodel := fqCodel } :=
  ⟨hsound, fun flowHash => ((htags flowHash).append_left _).trans (h.sublist flowHash)⟩

theorem InOrder.enqueue (h : s.InOrder) {lease : Option (BufferLease τ)} {flowHash : UInt32}
    {nowMs : UInt64}
    (hreach : (s.fqCodel.enqueue lease flowHash nowMs).2 → s.fqCodel.InReach flowHash) :
    (s.enqueue lease flowHash nowMs).InOrder := by
  obtain ⟨hsound, hrefused, htags⟩ | ⟨hsound, haccepted, l, rfl, htags⟩ :=
    and_or_left.1 (enqueue_tags h.sound hreach)
  · rw [EgressShard.enqueue, hrefused]
    exact h.requeue hsound htags
  · rw [EgressShard.enqueue, haccepted]
    refine ⟨hsound, fun m => ?_⟩
    show (s.leftOf m ++ queuedTags _ m).Sublist _
    rw [htags m, ← append_assoc, enqueuedOf, if_pos rfl, filter_append, map_append]
    refine (h.sublist m).append ?_
    by_cases hm : flowHash = m <;> simp [hm]

/-- A packet that was the only one of its flow is so again. -/
theorem readmit_tags {fqCodel : FqCoDelScheduler τ} (hsound : fqCodel.Sound)
    {pkt : FqCoDelPacket τ} {tags : UInt32 → List τ}
    (htags : ∀ flowHash, ((if pkt.flowHash = flowHash then [pkt.lease.tag] else []) ++
      fqCodel.queuedTags flowHash).Sublist (tags flowHash))
    {nowMs : UInt64} (hlast : (fqCodel.enqueue (some pkt.lease) pkt.flowHash nowMs).2 →
      fqCodel.queuedTags pkt.flowHash = []) :
    (fqCodel.enqueue (some pkt.lease) pkt.flowHash nowMs).1.Sound ∧ ∀ flowHash,
      ((fqCodel.enqueue (some pkt.lease) pkt.flowHash nowMs).1.queuedTags flowHash).Sublist
        (tags flowHash) := by
  have hrest : ∀ m, (fqCodel.queuedTags m).Sublist (tags m) := fun m =>
    (sublist_append_right _ _).trans (htags m)
  obtain ⟨hsound', -, htags'⟩ | ⟨hsound', haccepted, l, hl, htags'⟩ :=
    and_or_left.1 (enqueue_tags hsound fun haccepted =>
      inReach_of_under (map_eq_nil_iff.1 (hlast haccepted)))
  · exact ⟨hsound', fun m => (htags' m).trans (hrest m)⟩
  · cases hl
    refine ⟨hsound', fun m => ?_⟩
    rw [htags']
    by_cases hm : pkt.flowHash = m
    · subst hm
      have hfirst := htags pkt.flowHash
      rw [hlast haccepted, append_nil] at hfirst
      rwa [hlast haccepted, nil_append]
    · rw [if_neg hm, append_nil]
      exact hrest m

theorem InOrder.flushRound (h : s.InOrder) (hlast : s.RefusesLast env) {again : Bool}
    (hround : s.flushRound env = some (s', again)) : s'.InOrder := by
  obtain ⟨d, hd, heq⟩ := Option.map_eq_some_iff.1 hround
  have hvisiting := (visiting_dequeue h.sound.wellFormed.listed hd).1
  obtain ⟨_, hsettles⟩ := hvisiting.settles h.sound.wellFormed
  obtain ⟨hsound, htags⟩ := hsettles.tags h.sound
  rcases hpkt : d.packet with _ | pkt
  · rw [hpkt] at heq htags
    obtain rfl := (Prod.mk.inj heq).1
    exact h.requeue hsound htags
  · rw [hpkt] at heq htags
    have htags' : ∀ flowHash, ((if pkt.flowHash = flowHash then [pkt.lease.tag] else []) ++
        d.scheduler.queuedTags flowHash).Sublist (s.fqCodel.queuedTags flowHash) := by
      intro flowHash
      have hpacket := htags flowHash
      by_cases hflow : pkt.flowHash = flowHash <;> simpa [hflow] using hpacket
    dsimp only at heq
    split at heq
    case h_1 =>
      -- the first of the queued packets is the next that leaves
      obtain rfl := (Prod.mk.inj heq).1
      refine ⟨hsound, fun m => List.Sublist.trans ?_ (h.sublist m)⟩
      rw [leftOf_append, append_assoc]
      exact (htags' m).append_left _
    case h_2 =>
      obtain rfl := (Prod.mk.inj heq).1
      exact h.requeue hsound fun m => (sublist_append_right _ _).trans (htags' m)
    case h_3 hrefused =>
      -- it goes to the end of its flow, where it is the first again if it was the only one
      obtain rfl := (Prod.mk.inj heq).1
      obtain ⟨hsound', hrest⟩ := readmit_tags hsound htags' (hlast d hd pkt hpkt hrefused)
      exact h.requeue hsound' hrest

theorem InOrder.flushRounds {env : ℕ → EgressEnv} {fuel i : ℕ} (h : s.InOrder)
    (hlast : RoundsRefuseLast env fuel i s) (hrounds : flushRounds env fuel i s = some s') :
    s'.InOrder := by
  induction fuel generalizing i s with
  | zero =>
    cases hrounds
    exact h
  | succ _ ih =>
    obtain ⟨⟨_, again⟩, hround, hrest⟩ := Option.bind_eq_some_iff.1 hrounds
    obtain ⟨hfirst, hlast⟩ := hlast
    have h₁ := h.flushRound hfirst hround
    rw [hround] at hlast
    cases again with
    | false =>
      cases hrest
      exact h₁
    | true => exact ih h₁ hlast hrest

/-- The flow of a packet that is accepted has one slot. -/
def Reaches (s : EgressShard τ) : EgressEvent τ → Prop
  | .enqueue lease flowHash nowMs =>
    (s.fqCodel.enqueue lease flowHash nowMs).2 → s.fqCodel.InReach flowHash
  | .flush _ => True

/-- What a flush hands in again was the last of its flow. -/
def Orderly (s : EgressShard τ) : EgressEvent τ → Prop
  | .enqueue _ _ _ => True
  | .flush env => s.fqCodel.queueLength = 0 ∨ RoundsRefuseLast env kTcpTxBudget 0 s

instance decidableReaches (s : EgressShard τ) : ∀ ev, Decidable (s.Reaches ev)
  | .enqueue _ _ _ => inferInstanceAs (Decidable (_ → _))
  | .flush _ => .isTrue trivial

instance decidableOrderly (s : EgressShard τ) : ∀ ev, Decidable (s.Orderly ev)
  | .enqueue _ _ _ => .isTrue trivial
  | .flush _ => inferInstanceAs (Decidable (_ ∨ _))

theorem InOrder.step (h : s.InOrder) {ev : EgressEvent τ} (hreach : s.Reaches ev)
    (horderly : s.Orderly ev) (hstep : s.step ev = some s') : s'.InOrder := by
  cases ev with
  | enqueue =>
    cases hstep
    exact h.enqueue hreach
  | flush =>
    rw [EgressShard.step, flushTcpTx] at hstep
    split at hstep
    case isTrue =>
      cases hstep
      exact h
    case isFalse hqueued => exact h.flushRounds (horderly.resolve_left hqueued) hstep

/-- A shard with an empty scheduler of which nothing has left yet. -/
structure Initial (s : EgressShard τ) : Prop where
  fqCodel : ∃ config, s.fqCodel = .new config
  enqueued : s.enqueued = []
  left : s.left = []

theorem Initial.inOrder (h : s.Initial) : s.InOrder := by
  obtain ⟨config, hnew⟩ := h.fqCodel
  have hwf : (new config : FqCoDelScheduler τ).WellFormed := wellFormed_new config
  have hnil := hwf.contents_eq_nil rfl rfl
  refine ⟨hnew ▸ ⟨hwf, separate_of_contents hnil⟩, fun m => ?_⟩
  rw [leftOf, h.left, queuedTags, hnew, under_of_contents hnil]
  exact nil_sublist _

end EgressShard

/-- In every run in which the flow of each packet that is accepted has one slot and what a
    flush hands in again was the last of its flow, the packets of each flow leave in the
    order in which they were handed in. -/
theorem egress_in_order {start s : EgressShard τ} (hstart : start.Initial)
    (h : Runs (fun s ev s' => (s.Reaches ev ∧ s.Orderly ev) ∧ s.step ev = some s') start s)
    (flowHash : UInt32) : (s.leftOf flowHash).Sublist (s.enqueuedOf flowHash) := by
  have horder := h.invariant (P := EgressShard.InOrder) hstart.inOrder
    fun _ _ _ h ⟨⟨hreach, horderly⟩, hstep⟩ => h.step hreach horderly hstep
  exact (sublist_append_left _ _).trans (horder.sublist flowHash)

/-- A shard with one queue, whose scheduler has one slot. -/
def oneSlot : EgressShard ℕ := { fqCodel := .new { maxFlows := 1 } }

/-- A packet of the flow 7 is handed in. -/
def handIn (tag : ℕ) : EgressEvent ℕ := .enqueue (some ⟨tag, [0, 0]⟩) 7 0

/-- A flush for which the queue has room, or not. -/
def flushes (room : Bool) : EgressEvent ℕ := .flush fun _ => { sendBatch := fun _ => room.toNat }

theorem oneSlot_initial : oneSlot.Initial := ⟨⟨_, rfl⟩, rfl, rfl⟩

/-- A packet is refused, and the next one of its flow is handed in after that. -/
theorem egress_in_order_readmitted : ∃ s : EgressShard ℕ,
    Runs (fun s ev s' => (s.Reaches ev ∧ s.Orderly ev) ∧ s.step ev = some s') oneSlot s ∧
      s.leftOf 7 = [1, 2] ∧ (s.leftOf 7).Sublist (s.enqueuedOf 7) := by
  obtain ⟨s, hrun, hleft⟩ := (Option.any_eq_true ..).1 (show
    ([handIn 1, flushes false, handIn 2, flushes true].foldlM
      (guarded EgressShard.step fun s ev => s.Reaches ev ∧ s.Orderly ev) oneSlot).any
        (fun s => s.leftOf 7 = [1, 2]) = true by decide +kernel)
  exact ⟨s, runs_of_guarded hrun, of_decide_eq_true hleft,
    egress_in_order oneSlot_initial (runs_of_guarded hrun) 7⟩

/-- A packet is refused while another one of its flow is queued, which overtakes it. -/
theorem refused_packet_overtaken : ∃ s : EgressShard ℕ,
    Runs (fun s ev s' => s.Reaches ev ∧ s.step ev = some s') oneSlot s ∧
      s.enqueuedOf 7 = [1, 2] ∧ s.leftOf 7 = [2, 1] ∧
      ¬(s.leftOf 7).Sublist (s.enqueuedOf 7) := by
  obtain ⟨s, hrun, hobs⟩ := (Option.any_eq_true ..).1 (show
    ([handIn 1, handIn 2, flushes false, flushes true].foldlM
      (guarded EgressShard.step EgressShard.Reaches) oneSlot).any
        (fun s => s.enqueuedOf 7 = [1, 2] && s.leftOf 7 = [2, 1]) = true by decide +kernel)
  simp only [Bool.and_eq_true, decide_eq_true_eq] at hobs
  refine ⟨s, runs_of_guarded hrun, hobs.1, hobs.2, ?_⟩
  rw [hobs.1, hobs.2]
  decide

end Netstack2
