import Netstack2.Lib.Queues
import Netstack2.Qos.FqCodel.Mark

/-!
# What the scheduler does to its queues

A call of `dequeue` goes from slot to slot. At each it does one of five things
(`Visited`):

* it gives back a slot with an empty queue;
* it moves a new flow whose credit does not cover its next packet to the old flows;
* it gives an old flow credit and puts it last;
* it serves a flow, which keeps its place;
* it serves a flow and gives back its slot.

A call is a sequence of visits, of which at most the last gives a packet (`Visiting`,
`visiting_dequeue`). Each takes packets off the front of one queue, and gives at most the
last of them (`Takes`, `Visited.takes`); and `enqueue` pushes one packet on the slot that
the probing finds, or on none (`Enqueued`, `enqueued`).

The two lists name the slots that say that they are on them, each once (`Listed`). Every
visit and every call keeps this.
-/

namespace Netstack2

open List FlowSlot

variable {τ : Type}

/-- The bytes of packets. -/
def sizes (packets : List (QueuedPacket τ)) : ℕ := (packets.map (·.lease.size)).sum

@[simp] theorem sizes_nil : sizes ([] : List (QueuedPacket τ)) = 0 := rfl

@[simp] theorem sizes_cons (pkt : QueuedPacket τ) (packets : List (QueuedPacket τ)) :
    sizes (pkt :: packets) = pkt.lease.size + sizes packets := by
  rw [sizes, map_cons, sum_cons, sizes]

@[simp] theorem sizes_append (packets packets' : List (QueuedPacket τ)) :
    sizes (packets ++ packets') = sizes packets + sizes packets' := by
  rw [sizes, map_append, sum_append, sizes, sizes]

/-! ## Serving a flow -/

/-- How the packet `pkt.2` of the flow `pkt.1` is handed out: as it was handed in, or with
    the congestion mark. -/
structure Delivers (pkt : UInt32 × QueuedPacket τ) (out : FqCoDelPacket τ) : Prop where
  flowHash : out.flowHash = pkt.1
  tag : out.lease.tag = pkt.2.lease.tag
  data : (out.ceMarked = false ∧ out.lease.data = pkt.2.lease.data) ∨
    (out.ceMarked = true ∧ markCe pkt.2.lease.data = some out.lease.data)

namespace FlowSlot

/-- CoDel keeps its own state only. -/
theorem codelShouldDrop_frame (flow : FlowSlot τ) (config : FqCoDelConfig)
    (sojournMs nowMs : UInt64) :
    (flow.codelShouldDrop config sojournMs nowMs).2.queue = flow.queue ∧
      (flow.codelShouldDrop config sojournMs nowMs).2.queueBytes = flow.queueBytes ∧
      (flow.codelShouldDrop config sojournMs nowMs).2.flowHash = flow.flowHash ∧
      (flow.codelShouldDrop config sojournMs nowMs).2.list = flow.list := by
  rw [codelShouldDrop]
  dsimp only
  split_ifs <;> exact ⟨rfl, rfl, rfl, rfl⟩

/-- A flow after it was served: packets have left its queue at the front, the last of them
    as the one that is `given`, the others dropped. -/
structure Served (config : FqCoDelConfig) (flow : FlowSlot τ) (r : FlowService τ)
    (given : Option (QueuedPacket τ)) : Prop where
  queue : flow.queue = r.dropped ++ given.toList ++ r.flow.queue
  flowHash : r.flow.flowHash = flow.flowHash
  list : r.flow.list = flow.list
  packets : r.packets = (r.dropped ++ given.toList).length
  bytes : r.bytes = sizes (r.dropped ++ given.toList)
  queueBytes : flow.queueBytes = sizes flow.queue → r.flow.queueBytes = sizes r.flow.queue
  packet : Option.Rel (fun pkt out => Delivers (flow.flowHash, pkt) out) given r.packet
  drained : r.packet = none → r.flow.queue = []
  dropped : config.ecnCeMarking = true → ∀ pkt ∈ r.dropped, ¬EcnCapable pkt.lease.data

/-- Serving a flow, by the packets of its queue. -/
theorem exists_served (config : FqCoDelConfig) (nowMs : UInt64) (queue : List (QueuedPacket τ)) :
    ∀ flow : FlowSlot τ, flow.queue = queue →
      ∃ given, Served config flow (serve config nowMs queue flow) given := by
  induction queue with
  | nil =>
    intro flow hqueue
    refine ⟨none, ⟨?_, rfl, rfl, rfl, rfl, id, .none, fun _ => hqueue, ?_⟩⟩
    · simp [serve]
    · simp [serve]
  | cons pkt queue ih =>
    intro flow hqueue
    rw [serve]
    generalize hpopped : ({ flow with
      queue := queue, queueBytes := flow.queueBytes - pkt.lease.size,
      deficit := flow.deficit - pkt.lease.size } : FlowSlot τ) = popped
    generalize (if pkt.enqueueTimeMs ≤ nowMs then nowMs - pkt.enqueueTimeMs else 0) = sojourn
    obtain ⟨hq, hb, hh, hl⟩ := popped.codelShouldDrop_frame config sojourn nowMs
    generalize popped.codelShouldDrop config sojourn nowMs = verdict at hq hb hh hl ⊢
    subst hpopped
    -- what leaves the queue leaves its bytes
    have hbytes : flow.queueBytes = sizes flow.queue →
        verdict.2.queueBytes = sizes verdict.2.queue := by
      intro hsum
      rw [hb, hq, hsum, hqueue, sizes_cons, Nat.add_sub_cancel_left]
    have hgives (out : FqCoDelPacket τ) (hout : Delivers (flow.flowHash, pkt) out) :
        ∃ given, Served config flow ⟨verdict.2, some out, [], 1, pkt.lease.size⟩ given := by
      refine ⟨some pkt, ⟨?_, hh, hl, rfl, by simp, hbytes, .some hout, nofun, by simp⟩⟩
      rw [hqueue]
      exact congrArg (pkt :: ·) hq.symm
    split
    · exact hgives _ ⟨rfl, rfl, .inl ⟨rfl, rfl⟩⟩
    · cases hmark : (if config.ecnCeMarking then markCe pkt.lease.data else none) with
      | some =>
        refine hgives _ ⟨rfl, rfl, .inr ⟨rfl, ?_⟩⟩
        split at hmark
        · exact hmark
        · nomatch hmark
      | none =>
        obtain ⟨given, hs⟩ := ih verdict.2 hq
        refine ⟨given, ⟨?_, hs.flowHash.trans hh, hs.list.trans hl, ?_, ?_,
          fun hsum => hs.queueBytes (hbytes hsum), ?_, hs.drained, ?_⟩⟩
        · rw [hqueue]
          exact congrArg (pkt :: ·) (hq.symm.trans hs.queue)
        · simp only [hs.packets, cons_append, length_cons]
        · simp only [hs.bytes, cons_append, sizes_cons, add_comm]
        · have hpacket := hs.packet
          rw [hh] at hpacket
          exact hpacket
        · intro hecn other hother
          rcases mem_cons.1 hother with rfl | hother
          · rw [if_pos hecn] at hmark
            exact not_ecnCapable_of_markCe hmark
          · exact hs.dropped hecn other hother

/-- The flow as it is served: a new flow without credit gets some first. -/
def entitled (flow : FlowSlot τ) (list : FlowList) (config : FqCoDelConfig) : FlowSlot τ :=
  if list = .new ∧ flow.deficit ≤ 0 then flow.credit config else flow

/-- The credit is all that may change. -/
theorem entitled_frame (flow : FlowSlot τ) (list : FlowList) (config : FqCoDelConfig) :
    (flow.entitled list config).queue = flow.queue ∧
      (flow.entitled list config).list = flow.list ∧
      (flow.entitled list config).flowHash = flow.flowHash ∧
      (flow.entitled list config).queueBytes = flow.queueBytes := by
  rw [entitled]
  split <;> exact ⟨rfl, rfl, rfl, rfl⟩

/-- What is left of a flow that was served after it got credit. -/
theorem serve_entitled {list : FlowList} {flow : FlowSlot τ} {front : QueuedPacket τ}
    {tail : List (QueuedPacket τ)} {config : FqCoDelConfig} {nowMs : UInt64} {r : FlowService τ}
    (hqueue : flow.queue = front :: tail)
    (hserve : (flow.entitled list config).serve config nowMs (front :: tail) = r) :
    ∃ given, Served config flow r given := by
  obtain ⟨hq, hl, hh, hb⟩ := flow.entitled_frame list config
  rw [← hqueue, ← hq] at hserve
  obtain ⟨given, hs⟩ := exists_served config nowMs _ (flow.entitled list config) rfl
  rw [hserve] at hs
  refine ⟨given, hq ▸ hs.queue, hs.flowHash.trans hh, hs.list.trans hl, hs.packets, hs.bytes, ?_,
    hh ▸ hs.packet, hs.drained, hs.dropped⟩
  rw [← hb, ← hq]
  exact hs.queueBytes

/-- A flow that got credit lacks less. -/
theorem lacks_credit {config : FqCoDelConfig} (hquantum : 0 < config.quantum.toNat)
    {flow : FlowSlot τ} {front : QueuedPacket τ} {queue : List (QueuedPacket τ)}
    (hqueue : flow.queue = front :: queue) (hlacks : flow.deficit < front.lease.size) :
    (flow.credit config).lacks < flow.lacks := by
  have hcredit : (flow.credit config).queue = front :: queue := hqueue
  rw [lacks, lacks, hcredit, hqueue]
  dsimp only [credit]
  omega

end FlowSlot

/-! ## The lists -/

/-- The lists hold the slots that say that they are on them, each once. -/
structure Listed (listing : ℕ → FlowList) (newFlows oldFlows : List ℕ) : Prop where
  nodup : (newFlows ++ oldFlows).Nodup
  new : ∀ i, i ∈ newFlows ↔ listing i = .new
  old : ∀ i, i ∈ oldFlows ↔ listing i = .old

namespace Listed

variable {listing : ℕ → FlowList} {newFlows oldFlows rest : List ℕ} {idx : ℕ}

theorem same (h : Listed listing newFlows oldFlows) (idx : ℕ) :
    Listed (Function.update listing idx (listing idx)) newFlows oldFlows := by
  rw [Function.update_eq_self]
  exact h

theorem releaseNew (h : Listed listing (idx :: rest) oldFlows) :
    Listed (Function.update listing idx .none) rest oldFlows := by
  obtain ⟨hnodup, hnew, hold⟩ := h
  rw [cons_append, nodup_cons, mem_append] at hnodup
  refine ⟨hnodup.2, fun i => ?_, fun i => ?_⟩
  · grind [Function.update_apply]
  · grind [Function.update_apply]

theorem releaseOld (h : Listed listing newFlows (idx :: rest)) :
    Listed (Function.update listing idx .none) newFlows rest := by
  obtain ⟨hnodup, hnew, hold⟩ := h
  have hmiddle := perm_middle.nodup_iff.1 hnodup
  rw [nodup_cons, mem_append] at hmiddle
  refine ⟨hmiddle.2, fun i => ?_, fun i => ?_⟩
  · grind [Function.update_apply]
  · grind [Function.update_apply]

theorem mature (h : Listed listing (idx :: rest) oldFlows) :
    Listed (Function.update listing idx .old) rest (oldFlows ++ [idx]) := by
  obtain ⟨hnodup, hnew, hold⟩ := h
  have hperm : (rest ++ (oldFlows ++ [idx])).Perm (idx :: rest ++ oldFlows) := by
    rw [← append_assoc]
    exact perm_append_comm
  refine ⟨hperm.nodup_iff.2 hnodup, fun i => ?_, fun i => ?_⟩
  · rw [cons_append, nodup_cons, mem_append] at hnodup
    grind [Function.update_apply]
  · grind [Function.update_apply]

theorem rotate (h : Listed listing newFlows (idx :: rest)) :
    Listed listing newFlows (rest ++ [idx]) := by
  have hperm : (rest ++ [idx]).Perm (idx :: rest) := perm_append_comm
  exact ⟨(hperm.append_left _).nodup_iff.2 h.nodup, h.new, fun i => hperm.mem_iff.trans (h.old i)⟩

theorem activate (h : Listed listing newFlows oldFlows) (hidx : listing idx = .none) :
    Listed (Function.update listing idx .new) (newFlows ++ [idx]) oldFlows := by
  obtain ⟨hnodup, hnew, hold⟩ := h
  have hfresh : idx ∉ newFlows ++ oldFlows := by
    rw [mem_append, hnew, hold, hidx]
    exact nofun
  have hperm : (newFlows ++ [idx] ++ oldFlows).Perm (idx :: (newFlows ++ oldFlows)) := by
    rw [append_assoc]
    exact perm_middle
  refine ⟨hperm.nodup_iff.2 (nodup_cons.2 ⟨hfresh, hnodup⟩), fun i => ?_, fun i => ?_⟩
  · grind [Function.update_apply]
  · grind [Function.update_apply]

end Listed

/-! ## Visits -/

/-- A visit of `dequeue` to a slot, which was on `list`: the packet that it gave, if it
    did, and those that were dropped before it. -/
structure FlowVisit (τ : Type) where
  slot : ℕ
  list : FlowList
  packet : Option (FqCoDelPacket τ) := none
  dropped : List (UInt32 × QueuedPacket τ) := []

namespace FqCoDelScheduler

variable {s s' : FqCoDelScheduler τ} {idx : ℕ} {flow flow' : FlowSlot τ}

theorem flow_eq_of_set (h : s'.flows = s.flows.set idx flow) (hidx : idx < s.flows.length)
    (j : ℕ) : s'.flow j = if j = idx then flow else s.flow j := by
  rw [FqCoDelScheduler.flow, h, FqCoDelScheduler.flow, getD_eq_getElem?_getD,
    getD_eq_getElem?_getD, getElem?_set]
  by_cases hj : idx = j
  · subst hj
    rw [if_pos rfl, if_pos rfl, if_pos hidx, Option.getD_some]
  · rw [if_neg hj, if_neg (Ne.symm hj)]

theorem flow_setFlow (hidx : idx < s.flows.length) : (s.setFlow idx flow).flow idx = flow := by
  rw [flow_eq_of_set rfl hidx, if_pos rfl]

/-- The list that each slot says it is on. -/
def listing (s : FqCoDelScheduler τ) (i : ℕ) : FlowList := (s.flow i).list

/-- The two lists name the slots that say that they are on them. -/
abbrev IsListed (s : FqCoDelScheduler τ) : Prop := Listed s.listing s.newFlows s.oldFlows

theorem listing_eq_of_set (h : s'.flows = s.flows.set idx flow) (hidx : idx < s.flows.length) :
    s'.listing = Function.update s.listing idx flow.list := by
  funext j
  rw [listing, flow_eq_of_set h hidx, Function.update_apply]
  split <;> rfl

theorem lt_length_of_listing (h : s.listing idx ≠ .none) : idx < s.flows.length := by
  by_contra hidx
  refine h ?_
  rw [listing, FqCoDelScheduler.flow, getD_eq_getElem?_getD, getElem?_eq_none (Nat.not_lt.1 hidx)]
  rfl

theorem getElem?_flows (hidx : idx < s.flows.length) : s.flows[idx]? = some (s.flow idx) := by
  rw [FqCoDelScheduler.flow, getD_eq_getElem?_getD, getElem?_eq_getElem hidx]
  rfl

/-- The visits of the loop over the new flows. -/
def newVisits (nowMs : UInt64) : List ℕ → FqCoDelScheduler τ → List (FlowVisit τ)
  | [], _ => []
  | idx :: rest, s =>
    let round := s.newRound idx rest nowMs
    { slot := idx, list := .new, packet := round.packet, dropped := round.dropped } ::
      if round.packet.isSome then [] else newVisits nowMs rest round.scheduler

/-- The visits of the loop over the old flows. -/
def oldVisits (nowMs : UInt64) : ℕ → FqCoDelScheduler τ → List (FlowVisit τ)
  | 0, _ => []
  | fuel + 1, s =>
    match s.oldFlows with
    | [] => []
    | idx :: rest =>
      let round := s.oldRound idx rest nowMs
      { slot := idx, list := .old, packet := round.packet, dropped := round.dropped } ::
        if round.packet.isSome then [] else oldVisits nowMs fuel round.scheduler

/-- The visits of a call. -/
def visits (s : FqCoDelScheduler τ) (nowMs : UInt64) : List (FlowVisit τ) :=
  let first := dequeueNew nowMs s.newFlows s
  newVisits nowMs s.newFlows s ++
    if first.packet.isSome then []
    else oldVisits nowMs (first.scheduler.oldRounds + 1) first.scheduler

/-- The slot `idx` is now `flow`; the other slots are as they were. -/
structure Sets (s : FqCoDelScheduler τ) (idx : ℕ) (flow : FlowSlot τ)
    (s' : FqCoDelScheduler τ) : Prop where
  lt_length : idx < s.flows.length
  config : s'.config = s.config
  flows : s'.flows = s.flows.set idx flow

/-- So many packets and bytes left the queues. -/
structure Totals (s : FqCoDelScheduler τ) (packets bytes : ℕ) (s' : FqCoDelScheduler τ) : Prop where
  packets : s'.totalPackets = s.totalPackets - packets
  bytes : s'.totalBytes = s.totalBytes - bytes

theorem Sets.self (h : Sets s idx flow s') : s'.flow idx = flow := by
  rw [flow_eq_of_set h.flows h.lt_length, if_pos rfl]

theorem Sets.other (h : Sets s idx flow s') {j : ℕ} (hj : j ≠ idx) : s'.flow j = s.flow j := by
  rw [flow_eq_of_set h.flows h.lt_length, if_neg hj]

theorem Sets.listing (h : Sets s idx flow s') :
    s'.listing = Function.update s.listing idx flow.list :=
  listing_eq_of_set h.flows h.lt_length

/-- The slot `idx`, the first on its list, is on it no longer. -/
inductive Leaves (s : FqCoDelScheduler τ) (idx : ℕ) (s' : FqCoDelScheduler τ) :
    FlowList → Prop
  | new (hnew : s.newFlows = idx :: s'.newFlows) (hold : s'.oldFlows = s.oldFlows) :
      Leaves s idx s' .new
  | old (hnew : s'.newFlows = s.newFlows) (hold : s.oldFlows = idx :: s'.oldFlows) :
      Leaves s idx s' .old

/-- The slot `idx` is the first on the list that is served. -/
inductive Heads (s : FqCoDelScheduler τ) (idx : ℕ) : FlowList → Prop
  | new {rest : List ℕ} (hnew : s.newFlows = idx :: rest) : Heads s idx .new
  | old {rest : List ℕ} (hold : s.oldFlows = idx :: rest) : Heads s idx .old

/-- What a visit does. -/
inductive Visited (nowMs : UInt64) (s : FqCoDelScheduler τ) :
    FlowVisit τ → FqCoDelScheduler τ → Prop
  /-- The slot of an empty queue is given back. -/
  | release {idx : ℕ} {list : FlowList} {s' : FqCoDelScheduler τ}
      (hempty : (s.flow idx).queue = []) (hleaves : Leaves s idx s' list)
      (hsets : Sets s idx {} s') (htotals : Totals s 0 0 s') :
      Visited nowMs s { slot := idx, list := list } s'
  /-- A new flow lacks credit for its next packet. -/
  | mature {idx : ℕ} {front : QueuedPacket τ} {tail : List (QueuedPacket τ)}
      {s' : FqCoDelScheduler τ} (hqueue : (s.flow idx).queue = front :: tail)
      (hlacks : ((s.flow idx).entitled .new s.config).deficit < front.lease.size)
      (hnew : s.newFlows = idx :: s'.newFlows) (hold : s'.oldFlows = s.oldFlows ++ [idx])
      (hsets : Sets s idx { (s.flow idx).entitled .new s.config with list := .old } s')
      (htotals : Totals s 0 0 s') :
      Visited nowMs s { slot := idx, list := .new } s'
  /-- An old flow lacks credit for its next packet. -/
  | rotate {idx : ℕ} {front : QueuedPacket τ} {tail : List (QueuedPacket τ)} {rest : List ℕ}
      {s' : FqCoDelScheduler τ} (hqueue : (s.flow idx).queue = front :: tail)
      (hlacks : (s.flow idx).deficit < front.lease.size)
      (hnew : s'.newFlows = s.newFlows) (hold : s.oldFlows = idx :: rest)
      (hold' : s'.oldFlows = rest ++ [idx]) (hsets : Sets s idx ((s.flow idx).credit s.config) s')
      (htotals : Totals s 0 0 s') :
      Visited nowMs s { slot := idx, list := .old } s'
  /-- A flow is served and keeps its place. -/
  | serve {idx : ℕ} {list : FlowList} {front : QueuedPacket τ} {tail : List (QueuedPacket τ)}
      {r : FlowService τ} {s' : FqCoDelScheduler τ} (hqueue : (s.flow idx).queue = front :: tail)
      (hcovers : (front.lease.size : ℤ) ≤ ((s.flow idx).entitled list s.config).deficit)
      (hserve : ((s.flow idx).entitled list s.config).serve s.config nowMs (front :: tail) = r)
      (hgives : r.packet.isSome) (hleft : list = .new → r.flow.queue ≠ [])
      (hheads : Heads s idx list) (hnew : s'.newFlows = s.newFlows)
      (hold : s'.oldFlows = s.oldFlows) (hsets : Sets s idx r.flow s')
      (htotals : Totals s r.packets r.bytes s') :
      Visited nowMs s
        { slot := idx
          list := list
          packet := r.packet
          dropped := r.dropped.map ((s.flow idx).flowHash, ·) } s'
  /-- A flow is served, and its slot given back. -/
  | drain {idx : ℕ} {list : FlowList} {front : QueuedPacket τ} {tail : List (QueuedPacket τ)}
      {r : FlowService τ} {s' : FqCoDelScheduler τ} (hqueue : (s.flow idx).queue = front :: tail)
      (hcovers : (front.lease.size : ℤ) ≤ ((s.flow idx).entitled list s.config).deficit)
      (hserve : ((s.flow idx).entitled list s.config).serve s.config nowMs (front :: tail) = r)
      (hempty : r.flow.queue = []) (hleaves : Leaves s idx s' list)
      (hsets : Sets s idx {} s') (htotals : Totals s r.packets r.bytes s') :
      Visited nowMs s
        { slot := idx
          list := list
          packet := r.packet
          dropped := r.dropped.map ((s.flow idx).flowHash, ·) } s'

variable {rest : List ℕ} {nowMs : UInt64} {v : FlowVisit τ}

/-- Serving a slot, after it was set. -/
theorem serveFlow_setFlow (hidx : idx < s.flows.length) (flow : FlowSlot τ) (nowMs : UInt64) :
    (s.setFlow idx flow).serveFlow idx nowMs =
      { scheduler := { s.setFlow idx (flow.serve s.config nowMs flow.queue).flow with
          totalPackets := s.totalPackets - (flow.serve s.config nowMs flow.queue).packets
          totalBytes := s.totalBytes - (flow.serve s.config nowMs flow.queue).bytes }
        packet := (flow.serve s.config nowMs flow.queue).packet
        dropped := (flow.serve s.config nowMs flow.queue).dropped.map (flow.flowHash, ·) } := by
  rw [serveFlow, flow_setFlow hidx]
  dsimp only [setFlow]
  rw [set_set]

/-- A round of the loop over the new flows is a visit. -/
theorem visited_newRound (hlisted : s.IsListed) (hnew : s.newFlows = idx :: rest) (nowMs : UInt64) :
    Visited nowMs s
      { slot := idx
        list := .new
        packet := (s.newRound idx rest nowMs).packet
        dropped := (s.newRound idx rest nowMs).dropped }
      (s.newRound idx rest nowMs).scheduler := by
  have hlist : s.listing idx = .new := (hlisted.new idx).1 (hnew ▸ mem_cons_self)
  have hidx : idx < s.flows.length := lt_length_of_listing (by rw [hlist]; exact nofun)
  rw [newRound]
  cases hqueue : (s.flow idx).queue with
  | nil => exact .release hqueue (.new hnew rfl) ⟨hidx, rfl, rfl⟩ ⟨rfl, rfl⟩
  | cons =>
    dsimp only
    have hentitled : (if (s.flow idx).deficit ≤ 0 then (s.flow idx).credit s.config
        else s.flow idx) = (s.flow idx).entitled .new s.config := by
      simp [entitled]
    rw [hentitled]
    obtain ⟨hq, -, hh, -⟩ := (s.flow idx).entitled_frame .new s.config
    split
    case isTrue hlacks => exact .mature hqueue hlacks hnew rfl ⟨hidx, rfl, rfl⟩ ⟨rfl, rfl⟩
    case isFalse hcovers =>
      rw [serveFlow_setFlow hidx]
      generalize hserve : serve s.config nowMs _ ((s.flow idx).entitled .new s.config) = r
      rw [hq, hqueue] at hserve
      obtain ⟨_, hserved⟩ := serve_entitled hqueue hserve
      rw [hh]
      dsimp only
      rw [flow_eq_of_set rfl hidx, if_pos rfl]
      split
      case isTrue hgave =>
        exact .serve hqueue (Int.not_lt.1 hcovers) hserve hgave.1 (fun _ => hgave.2) (.new hnew)
          rfl rfl ⟨hidx, rfl, rfl⟩ ⟨rfl, rfl⟩
      case isFalse hgave =>
        have hempty : r.flow.queue = [] := by
          by_contra hne
          refine hgave ⟨?_, hne⟩
          exact Option.isSome_iff_ne_none.2 fun hnone => hne (hserved.drained hnone)
        exact .drain hqueue (Int.not_lt.1 hcovers) hserve hempty (.new hnew rfl)
          ⟨hidx, rfl, set_set ..⟩ ⟨rfl, rfl⟩

/-- A round of the loop over the old flows is a visit. -/
theorem visited_oldRound (hlisted : s.IsListed) (hold : s.oldFlows = idx :: rest) (nowMs : UInt64) :
    Visited nowMs s
      { slot := idx
        list := .old
        packet := (s.oldRound idx rest nowMs).packet
        dropped := (s.oldRound idx rest nowMs).dropped }
      (s.oldRound idx rest nowMs).scheduler := by
  have hlist : s.listing idx = .old := (hlisted.old idx).1 (hold ▸ mem_cons_self)
  have hidx : idx < s.flows.length := lt_length_of_listing (by rw [hlist]; exact nofun)
  have hentitled : (s.flow idx).entitled .old s.config = s.flow idx := if_neg (nomatch ·.1)
  rw [oldRound]
  cases hqueue : (s.flow idx).queue with
  | nil => exact .release hqueue (.old rfl hold) ⟨hidx, rfl, rfl⟩ ⟨rfl, rfl⟩
  | cons =>
    dsimp only
    split
    case isTrue hlacks => exact .rotate hqueue hlacks rfl hold rfl ⟨hidx, rfl, rfl⟩ ⟨rfl, rfl⟩
    case isFalse hcovers =>
      rw [serveFlow]
      generalize hserve : serve s.config nowMs _ (s.flow idx) = r
      rw [hqueue, ← hentitled] at hserve
      obtain ⟨_, hserved⟩ := serve_entitled hqueue hserve
      rw [← hentitled] at hcovers
      split
      case isTrue hgave =>
        exact .serve hqueue (Int.not_lt.1 hcovers) hserve hgave nofun (.old hold) rfl rfl
          ⟨hidx, rfl, rfl⟩ ⟨rfl, rfl⟩
      case isFalse hgave =>
        have hempty : r.flow.queue = [] := hserved.drained (Option.not_isSome_iff_eq_none.1 hgave)
        exact .drain hqueue (Int.not_lt.1 hcovers) hserve hempty (.old rfl hold)
          ⟨hidx, rfl, set_set ..⟩ ⟨rfl, rfl⟩

/-- A slot that leaves its list is given back. -/
theorem Leaves.listed {list : FlowList} (h : Leaves s idx s' list) (hsets : Sets s idx {} s')
    (hlisted : s.IsListed) : s'.IsListed := by
  rw [IsListed, hsets.listing]
  cases h with
  | new hnew hold =>
    rw [IsListed, hnew] at hlisted
    rw [hold]
    exact hlisted.releaseNew
  | old hnew hold =>
    rw [IsListed, hold] at hlisted
    rw [hnew]
    exact hlisted.releaseOld

namespace Visited

section

variable (h : Visited nowMs s v s')

include h

/-- Visits keep the lists. -/
theorem listed (hlisted : s.IsListed) : s'.IsListed := by
  cases h with
  | release _ hleaves hsets => exact hleaves.listed hsets hlisted
  | mature _ _ hnew hold hsets =>
    rw [IsListed, hnew] at hlisted
    rw [IsListed, hsets.listing, hold]
    exact hlisted.mature
  | @rotate idx _ _ _ _ _ _ hnew hold hold' hsets =>
    rw [IsListed, hold] at hlisted
    rw [IsListed, hsets.listing, hnew, hold']
    exact hlisted.rotate.same idx
  | @serve idx _ _ _ _ _ hqueue _ hserve _ _ _ hnew hold hsets =>
    obtain ⟨_, hserved⟩ := serve_entitled hqueue hserve
    rw [IsListed, hsets.listing, hnew, hold, hserved.list]
    exact hlisted.same idx
  | drain _ _ _ _ hleaves hsets => exact hleaves.listed hsets hlisted

/-- The slot that is visited is the only one that changes. -/
theorem sets : ∃ flow, Sets s v.slot flow s' := by
  cases h with
  | release _ _ hsets | mature _ _ _ _ hsets | rotate _ _ _ _ _ hsets
  | serve _ _ _ _ _ _ _ _ hsets | drain _ _ _ _ _ hsets => exact ⟨_, hsets⟩

/-- A new flow leaves the list, unless it gives a packet. -/
theorem newFlows (hlist : v.list = .new) (hnone : v.packet = none) :
    s.newFlows = v.slot :: s'.newFlows := by
  cases h with
  | release _ hleaves | drain _ _ _ _ hleaves =>
    cases hleaves with
    | new hnew => exact hnew
    | old => nomatch hlist
  | mature _ _ hnew => exact hnew
  | rotate => nomatch hlist
  | serve _ _ _ hgives => exact absurd hgives (Option.not_isSome_iff_eq_none.2 hnone)

/-- An old flow that gives no packet leaves the list, or gets credit and is put last. The new
    flows are left alone. -/
theorem oldFlows (hlist : v.list = .old) (hnone : v.packet = none) :
    s'.newFlows = s.newFlows ∧ (s.oldFlows = v.slot :: s'.oldFlows ∨
      ∃ front tail rest, (s.flow v.slot).queue = front :: tail ∧
        (s.flow v.slot).deficit < front.lease.size ∧ s.oldFlows = v.slot :: rest ∧
        s'.oldFlows = rest ++ [v.slot] ∧ s'.flow v.slot = (s.flow v.slot).credit s.config) := by
  cases h with
  | release _ hleaves | drain _ _ _ _ hleaves =>
    cases hleaves with
    | new => nomatch hlist
    | old hnew hold => exact ⟨hnew, .inl hold⟩
  | mature => nomatch hlist
  | rotate hqueue hlacks hnew hold hold' hsets =>
    exact ⟨hnew, .inr ⟨_, _, _, hqueue, hlacks, hold, hold', hsets.self⟩⟩
  | serve _ _ _ hgives => exact absurd hgives (Option.not_isSome_iff_eq_none.2 hnone)

end

end Visited

/-- The visits of a call, of which at most the last gives a packet. -/
inductive Visiting (nowMs : UInt64) :
    FqCoDelScheduler τ → List (FlowVisit τ) → Dequeued τ → Prop
  | nil (s : FqCoDelScheduler τ) : Visiting nowMs s [] { scheduler := s }
  | last {s s' : FqCoDelScheduler τ} {v : FlowVisit τ} (hvisited : Visited nowMs s v s')
      (hgives : v.packet.isSome) :
      Visiting nowMs s [v] { scheduler := s', packet := v.packet, dropped := v.dropped }
  | cons {s s' : FqCoDelScheduler τ} {v : FlowVisit τ} {vs : List (FlowVisit τ)}
      {d : Dequeued τ} (hvisited : Visited nowMs s v s') (hnone : v.packet = none)
      (hrest : Visiting nowMs s' vs d) : Visiting nowMs s (v :: vs) (d.after v.dropped)

namespace Visiting

variable {d d' : Dequeued τ} {vs vs' : List (FlowVisit τ)}

theorem trans (h : Visiting nowMs s vs d) (hnone : d.packet = none)
    (h' : Visiting nowMs d.scheduler vs' d') : Visiting nowMs s (vs ++ vs') (d'.after d.dropped) := by
  induction h with
  | nil => exact h'
  | last _ hgives => exact absurd hgives (Option.not_isSome_iff_eq_none.2 hnone)
  | @cons _ _ v _ d hvisited hnone' _ ih =>
    have hafter : d'.after (d.after v.dropped).dropped = (d'.after d.dropped).after v.dropped := by
      simp only [Dequeued.after, append_assoc]
    rw [hafter]
    exact .cons hvisited hnone' (ih hnone h')

theorem listed (h : Visiting nowMs s vs d) : s.IsListed →
    d.scheduler.IsListed := by
  induction h with
  | nil => exact id
  | last hvisited => exact hvisited.listed
  | cons hvisited _ _ ih => exact fun hlisted => ih (hvisited.listed hlisted)

theorem config (h : Visiting nowMs s vs d) : d.scheduler.config = s.config := by
  induction h with
  | nil => rfl
  | last hvisited =>
    obtain ⟨_, hsets⟩ := hvisited.sets
    exact hsets.config
  | cons hvisited _ _ ih =>
    obtain ⟨_, hsets⟩ := hvisited.sets
    exact ih.trans hsets.config

end Visiting

/-- The loop over the new flows is a sequence of visits, which ends with a packet or with no
    new flow. -/
theorem visiting_dequeueNew (nowMs : UInt64) (flows : List ℕ) :
    ∀ s : FqCoDelScheduler τ, s.newFlows = flows → s.IsListed →
      Visiting nowMs s (newVisits nowMs flows s) (dequeueNew nowMs flows s) ∧
        ((dequeueNew nowMs flows s).packet = none →
          (dequeueNew nowMs flows s).scheduler.newFlows = []) := by
  induction flows with
  | nil => exact fun s hnew _ => ⟨.nil s, fun _ => hnew⟩
  | cons _ _ ih =>
    intro s hnew hlisted
    have hvisited := visited_newRound hlisted hnew nowMs
    rw [newVisits, dequeueNew]
    split
    case isTrue hgives =>
      exact ⟨.last hvisited hgives, fun hnone => absurd hgives (Option.not_isSome_iff_eq_none.2 hnone)⟩
    case isFalse hgives =>
      have hnone := Option.not_isSome_iff_eq_none.1 hgives
      have hrest := (List.cons.inj (hnew.symm.trans (hvisited.newFlows rfl hnone))).2.symm
      obtain ⟨hvisiting, hempty⟩ := ih _ hrest (hvisited.listed hlisted)
      exact ⟨.cons hvisited hnone hvisiting, hempty⟩

/-- The loop over the old flows is a sequence of visits, which ends with a packet or with no
    old flow. -/
theorem visiting_dequeueOld (fuel : ℕ) :
    ∀ (s : FqCoDelScheduler τ) (d : Dequeued τ), s.IsListed →
      dequeueOld nowMs fuel s = some d → Visiting nowMs s (oldVisits nowMs fuel s) d ∧
        (d.packet = none → d.scheduler.oldFlows = [] ∧ d.scheduler.newFlows = s.newFlows) := by
  induction fuel with
  | zero => exact fun _ _ _ h => nomatch h
  | succ _ ih =>
    intro s d hlisted h
    rw [dequeueOld] at h
    rw [oldVisits]
    cases hold : s.oldFlows with
    | nil =>
      rw [hold] at h
      cases h
      exact ⟨.nil s, fun _ => ⟨hold, rfl⟩⟩
    | cons =>
      have hvisited := visited_oldRound hlisted hold nowMs
      rw [hold] at h
      dsimp only at h ⊢
      split at h
      case isTrue hgives =>
        cases h
        rw [if_pos hgives]
        exact ⟨.last hvisited hgives,
          fun hnone => absurd hgives (Option.not_isSome_iff_eq_none.2 hnone)⟩
      case isFalse hgives =>
        have hnone := Option.not_isSome_iff_eq_none.1 hgives
        obtain ⟨_, hd', rfl⟩ := Option.map_eq_some_iff.1 h
        obtain ⟨hvisiting, hempty⟩ := ih _ _ (hvisited.listed hlisted) hd'
        rw [(hvisited.oldFlows rfl hnone).1] at hempty
        rw [if_neg hgives]
        exact ⟨.cons hvisited hnone hvisiting, hempty⟩

/-- A call of `dequeue` is a sequence of visits. It returns without a packet only when no flow
    is left on a list. -/
theorem visiting_dequeue {d : Dequeued τ} (hlisted : s.IsListed)
    (h : s.dequeue nowMs = some d) : Visiting nowMs s (s.visits nowMs) d ∧
      (d.packet = none → d.scheduler.newFlows = [] ∧ d.scheduler.oldFlows = []) := by
  obtain ⟨hnew, hempty⟩ := visiting_dequeueNew nowMs s.newFlows s rfl hlisted
  rw [dequeue] at h
  rw [visits]
  split at h
  case isTrue hgives =>
    cases h
    rw [if_pos hgives, append_nil]
    exact ⟨hnew, fun hnone => absurd hgives (Option.not_isSome_iff_eq_none.2 hnone)⟩
  case isFalse hgives =>
    have hnone := Option.not_isSome_iff_eq_none.1 hgives
    obtain ⟨_, hd', rfl⟩ := Option.map_eq_some_iff.1 h
    obtain ⟨hold, hempty'⟩ := visiting_dequeueOld _ _ _ (hnew.listed hlisted) hd'
    rw [if_neg hgives]
    exact ⟨hnew.trans hnone hold, fun hnone' =>
      ⟨(hempty' hnone').2.trans (hempty hnone), (hempty' hnone').1⟩⟩

/-! ## The loops end -/

section Ends

/-- Fewer rounds are left after the first flow changed, if it left the list or if it is
    now the last and lacks less. -/
theorem oldRounds_lt (hrest : idx ∉ rest) (hold : s.oldFlows = idx :: rest)
    (hsets : Sets s idx flow s')
    (hold' : s'.oldFlows = rest ∨ (s'.oldFlows = rest ++ [idx] ∧ flow.lacks < (s.flow idx).lacks)) :
    s'.oldRounds < s.oldRounds := by
  have hsame : (rest.map fun i => 1 + (s'.flow i).lacks) =
      rest.map fun i => 1 + (s.flow i).lacks := by
    refine map_congr_left fun i hi => ?_
    rw [hsets.other fun h : i = idx => hrest (h ▸ hi)]
  rw [oldRounds, oldRounds, hold, map_cons, sum_cons]
  rcases hold' with h | ⟨h, hless⟩
  · rw [h, hsame]
    omega
  · rw [h, map_append, sum_append, hsame, map_singleton, sum_singleton, hsets.self]
    omega

/-- Every round of the loop over the old flows that gives no packet leaves fewer. -/
theorem Visited.oldRounds_lt (h : Visited nowMs s v s')
    (hlisted : s.IsListed) (hquantum : 0 < s.config.quantum.toNat)
    (hlist : v.list = .old) (hnone : v.packet = none) : s'.oldRounds < s.oldRounds := by
  obtain ⟨_, hsets⟩ := h.sets
  have hnodup := (nodup_append.1 hlisted.nodup).2.1
  obtain ⟨-, hold | ⟨front, tail, rest, hqueue, hlacks, hold, hold', hflow⟩⟩ :=
    h.oldFlows hlist hnone
  · rw [hold] at hnodup
    exact FqCoDelScheduler.oldRounds_lt (nodup_cons.1 hnodup).1 hold hsets (.inl rfl)
  · rw [hold] at hnodup
    rw [hsets.self] at hflow
    refine FqCoDelScheduler.oldRounds_lt (nodup_cons.1 hnodup).1 hold hsets (.inr ⟨hold', ?_⟩)
    rw [hflow]
    exact lacks_credit hquantum hqueue hlacks

/-- The loop over the old flows ends, if its rounds give credit. -/
theorem dequeueOld_isSome (fuel : ℕ) :
    ∀ s : FqCoDelScheduler τ, s.IsListed →
      0 < s.config.quantum.toNat → s.oldRounds < fuel → (dequeueOld nowMs fuel s).isSome := by
  induction fuel with
  | zero => exact fun _ _ _ h => absurd h (Nat.not_lt_zero _)
  | succ _ ih =>
    intro s hlisted hquantum hfuel
    rw [dequeueOld]
    cases hold : s.oldFlows with
    | nil => rfl
    | cons =>
      have hvisited := visited_oldRound hlisted hold nowMs
      dsimp only
      split
      · rfl
      · next hnone =>
        have hless := hvisited.oldRounds_lt hlisted hquantum rfl
          (Option.not_isSome_iff_eq_none.1 hnone)
        obtain ⟨flow, hsets⟩ := hvisited.sets
        rw [Option.isSome_map]
        refine ih _ (hvisited.listed hlisted) ?_ (by omega)
        rw [hsets.config]
        exact hquantum

theorem length_newVisits (nowMs : UInt64) (flows : List ℕ) (s : FqCoDelScheduler τ) :
    (newVisits nowMs flows s).length ≤ flows.length := by
  induction flows generalizing s with
  | nil => exact le_refl 0
  | cons _ _ ih =>
    rw [newVisits]
    split
    · simp
    · exact Nat.succ_le_succ (ih _)

theorem length_oldVisits (nowMs : UInt64) (fuel : ℕ) (s : FqCoDelScheduler τ) :
    (oldVisits nowMs fuel s).length ≤ fuel := by
  induction fuel generalizing s with
  | zero => exact Nat.le_refl 0
  | succ _ ih =>
    rw [oldVisits]
    split
    · exact Nat.zero_le _
    · dsimp only
      split
      · simp
      · exact Nat.succ_le_succ (ih _)

/-- `dequeue` returns, if the quantum is not zero. -/
theorem dequeue_isSome (hlisted : s.IsListed)
    (hquantum : 0 < s.config.quantum.toNat) (nowMs : UInt64) : (s.dequeue nowMs).isSome := by
  obtain ⟨hvisiting, -⟩ := visiting_dequeueNew nowMs s.newFlows s rfl hlisted
  rw [dequeue]
  split
  · rfl
  · rw [Option.isSome_map]
    refine dequeueOld_isSome _ _ (hvisiting.listed hlisted) ?_ (Nat.lt_succ_self _)
    rw [hvisiting.config]
    exact hquantum

end Ends

/-! ## What a visit takes -/

/-- What was `lost` and `given` comes from the front of the queue of the slot `idx`, which
    is now `flow'`. -/
structure Takes (s : FqCoDelScheduler τ) (d : Dequeued τ) (idx : ℕ) (flow' : FlowSlot τ)
    (lost : List (QueuedPacket τ)) (given : Option (QueuedPacket τ)) : Prop
    extends Sets s idx flow' d.scheduler where
  totalPackets : d.scheduler.totalPackets = s.totalPackets - (lost ++ given.toList).length
  totalBytes : d.scheduler.totalBytes = s.totalBytes - sizes (lost ++ given.toList)
  queue : (s.flow idx).queue = lost ++ given.toList ++ flow'.queue
  flowHash : flow'.queue ≠ [] → flow'.flowHash = (s.flow idx).flowHash
  list : flow'.queue ≠ [] → (s.flow idx).list ≠ .none → flow'.list ≠ .none
  queueBytes : (s.flow idx).queueBytes = sizes (s.flow idx).queue →
    flow'.queueBytes = sizes flow'.queue
  packet : Option.Rel (fun pkt out => Delivers ((s.flow idx).flowHash, pkt) out) given d.packet
  dropped : d.dropped = lost.map ((s.flow idx).flowHash, ·)
  not_ecnCapable : s.config.ecnCeMarking = true → ∀ pkt ∈ lost, ¬EcnCapable pkt.lease.data

/-- A visit that moves a flow, gives it credit or gives back its slot takes nothing. -/
theorem Sets.takes (hsets : Sets s idx flow s') (htotals : Totals s 0 0 s')
    (hqueue : flow.queue = (s.flow idx).queue)
    (hhash : flow.queue ≠ [] → flow.flowHash = (s.flow idx).flowHash)
    (hlist : flow.queue ≠ [] → (s.flow idx).list ≠ .none → flow.list ≠ .none)
    (hbytes : (s.flow idx).queueBytes = sizes (s.flow idx).queue →
      flow.queueBytes = sizes flow.queue) : Takes s { scheduler := s' } idx flow [] none where
  toSets := hsets
  totalPackets := htotals.packets
  totalBytes := htotals.bytes
  queue := hqueue.symm
  flowHash := hhash
  list := hlist
  queueBytes := hbytes
  packet := .none
  dropped := rfl
  not_ecnCapable := fun _ _ hpkt => absurd hpkt not_mem_nil

/-- A flow is served; a slot with nothing left in it may be given back. -/
theorem Sets.takes_served {r : FlowService τ} {given : Option (QueuedPacket τ)}
    (hsets : Sets s idx flow s') (htotals : Totals s r.packets r.bytes s')
    (hserved : FlowSlot.Served s.config (s.flow idx) r given)
    (hflow : flow = r.flow ∨ r.flow.queue = [] ∧ flow = {}) :
    Takes s { scheduler := s'
              packet := r.packet
              dropped := r.dropped.map ((s.flow idx).flowHash, ·) } idx flow r.dropped given := by
  refine ⟨hsets, hserved.packets ▸ htotals.packets, hserved.bytes ▸ htotals.bytes, ?_, ?_, ?_, ?_,
    hserved.packet, rfl, hserved.dropped⟩
  all_goals rcases hflow with rfl | ⟨hempty, rfl⟩
  · exact hserved.queue
  · rw [hserved.queue, hempty]
  · exact fun _ => hserved.flowHash
  · exact fun hne => absurd rfl hne
  · intro _ hlist
    rwa [hserved.list]
  · exact fun hne => absurd rfl hne
  · exact hserved.queueBytes
  · exact fun _ => rfl

theorem Visited.takes (h : Visited nowMs s v s') : ∃ flow' lost given,
    Takes s { scheduler := s', packet := v.packet, dropped := v.dropped } v.slot flow' lost
      given := by
  cases h with
  | release hempty _ hsets htotals =>
    exact ⟨_, _, _, hsets.takes htotals hempty.symm (fun hne => absurd rfl hne)
      (fun hne => absurd rfl hne) fun _ => rfl⟩
  | @mature idx _ _ _ _ _ _ _ hsets htotals =>
    obtain ⟨hq, -, hh, hb⟩ := (s.flow idx).entitled_frame .new s.config
    refine ⟨_, _, _, hsets.takes htotals hq (fun _ => hh) (fun _ _ => nofun) fun hbytes => ?_⟩
    exact hb.trans (hbytes.trans (congrArg sizes hq.symm))
  | rotate _ _ _ _ _ hsets htotals =>
    exact ⟨_, _, _, hsets.takes htotals rfl (fun _ => rfl) (fun _ => id) id⟩
  | serve hqueue _ hserve _ _ _ _ _ hsets htotals =>
    obtain ⟨_, hserved⟩ := serve_entitled hqueue hserve
    exact ⟨_, _, _, hsets.takes_served htotals hserved (.inl rfl)⟩
  | drain hqueue _ hserve hempty _ hsets htotals =>
    obtain ⟨_, hserved⟩ := serve_entitled hqueue hserve
    exact ⟨_, _, _, hsets.takes_served htotals hserved (.inr ⟨hempty, rfl⟩)⟩

/-! ## Handing in a packet -/

/-- The probing ends at a slot that is unused or belongs to the flow. -/
theorem probe_eq_some {flowHash : UInt32} {rounds slot : ℕ}
    (h : s.probe flowHash rounds slot = some idx) (hslot : slot < s.flows.length) :
    idx < s.flows.length ∧ ((s.flow idx).queue ≠ [] → flowHash = (s.flow idx).flowHash) := by
  induction rounds generalizing slot with
  | zero => nomatch h
  | succ _ ih =>
    rw [probe] at h
    split at h
    · next hunused =>
      cases h
      rw [unused, Bool.and_eq_true, List.isEmpty_iff] at hunused
      exact ⟨hslot, fun hne => absurd hunused.1 hne⟩
    · split at h
      · next hhash =>
        cases h
        exact ⟨hslot, fun _ => hhash.symm⟩
      · exact ih h (Nat.mod_lt _ (Nat.zero_lt_of_lt hslot))

/-- Where the probing for a flow ends. -/
def lookup (s : FqCoDelScheduler τ) (flowHash : UInt32) : Option ℕ :=
  s.probe flowHash s.flows.length (flowHash.toNat % s.flows.length)

theorem lookup_eq_some {flowHash : UInt32} (h : s.lookup flowHash = some idx) :
    idx < s.flows.length ∧ ((s.flow idx).queue ≠ [] → flowHash = (s.flow idx).flowHash) := by
  refine probe_eq_some h (Nat.mod_lt _ (Nat.pos_of_ne_zero fun hzero => ?_))
  rw [lookup, hzero] at h
  nomatch h

/-- The slot that a packet is pushed on. -/
def pushed (flow : FlowSlot τ) (lease : BufferLease τ) (flowHash : UInt32) (nowMs : UInt64) :
    FlowSlot τ :=
  { flow with
    queue := flow.queue ++ [{ lease := lease, enqueueTimeMs := nowMs }]
    queueBytes := flow.queueBytes + lease.size
    flowHash := flowHash
    deficit := if flow.list = .none then 0 else flow.deficit
    list := if flow.list = .none then .new else flow.list }

theorem pushed_list (flow : FlowSlot τ) (lease : BufferLease τ) (flowHash : UInt32)
    (nowMs : UInt64) : (pushed flow lease flowHash nowMs).list ≠ .none := by
  rw [pushed]
  split
  case isTrue => exact nofun
  case isFalse hlist => exact hlist

theorem flows_push (hidx : idx < s.flows.length) (lease : BufferLease τ) (flowHash : UInt32)
    (nowMs : UInt64) :
    ((s.setFlow idx { s.flow idx with flowHash := flowHash }).push idx lease nowMs).flows =
      s.flows.set idx (pushed (s.flow idx) lease flowHash nowMs) := by
  rw [push, flow_setFlow hidx]
  dsimp only [setFlow]
  rw [set_set, pushed]
  split <;> rfl

/-- The packet `lease` is last in the queue of the slot `idx`, and within the limits. -/
structure Pushes (s : FqCoDelScheduler τ) (idx : ℕ) (lease : BufferLease τ) (flowHash : UInt32)
    (nowMs : UInt64) (s' : FqCoDelScheduler τ) : Prop where
  lookup : s.lookup flowHash = some idx
  sets : Sets s idx (pushed (s.flow idx) lease flowHash nowMs) s'
  newFlows : s'.newFlows = if (s.flow idx).list = .none then s.newFlows ++ [idx] else s.newFlows
  oldFlows : s'.oldFlows = s.oldFlows
  totalPackets : s'.totalPackets = s.totalPackets + 1
  totalBytes : s'.totalBytes = s.totalBytes + lease.size
  packets_le : s.totalPackets + 1 ≤ s.config.maxTotalPackets
  bytes_le : s.totalBytes + lease.size ≤ s.config.maxTotalBytes

/-- The slot that `enqueue` finds unused and claims. -/
def claimed (s : FqCoDelScheduler τ) (lease : Option (BufferLease τ)) (flowHash : UInt32) :
    Option ℕ :=
  match lease with
  | none => none
  | some lease =>
    if s.config.maxTotalPackets < s.totalPackets + 1 ∨
        s.config.maxTotalBytes < s.totalBytes + lease.size then none
    else (s.lookup flowHash).filter fun idx => (s.flow idx).unused

/-- What `enqueue` does, and whether it accepts the packet. -/
inductive Enqueued (s : FqCoDelScheduler τ) (flowHash : UInt32) (nowMs : UInt64) :
    Option (BufferLease τ) → Option ℕ → FqCoDelScheduler τ → Bool → Prop
  /-- The packet is refused before a slot is looked for, or there is none. -/
  | refuse {lease : Option (BufferLease τ)} : Enqueued s flowHash nowMs lease none s false
  /-- The packet is refused by the flow, whose slot may have been claimed for it. -/
  | full {lease : Option (BufferLease τ)} {idx : ℕ} {s' : FqCoDelScheduler τ}
      (hlookup : s.lookup flowHash = some idx) (hnew : s'.newFlows = s.newFlows)
      (hold : s'.oldFlows = s.oldFlows)
      (hsets : Sets s idx { s.flow idx with flowHash := flowHash } s')
      (htotals : Totals s 0 0 s') :
      Enqueued s flowHash nowMs lease (if (s.flow idx).unused then some idx else none) s' false
  /-- The packet is queued. -/
  | push {lease : BufferLease τ} {idx : ℕ} {s' : FqCoDelScheduler τ}
      (hpushes : Pushes s idx lease flowHash nowMs s') :
      Enqueued s flowHash nowMs (some lease) (if (s.flow idx).unused then some idx else none) s'
        true

theorem enqueued (s : FqCoDelScheduler τ) (lease : Option (BufferLease τ)) (flowHash : UInt32)
    (nowMs : UInt64) :
    Enqueued s flowHash nowMs lease (s.claimed lease flowHash)
      (s.enqueue lease flowHash nowMs).1 (s.enqueue lease flowHash nowMs).2 := by
  cases lease with
  | none => exact .refuse
  | some lease =>
    rw [enqueue, claimed]
    split
    case isTrue => exact .refuse
    case isFalse hroom =>
      rw [not_or, not_lt, not_lt] at hroom
      rw [findOrCreateFlow, ← lookup]
      cases hlookup : s.lookup flowHash with
      | none => exact .refuse
      | some =>
        obtain ⟨hidx, -⟩ := lookup_eq_some hlookup
        dsimp only
        rw [flow_setFlow hidx]
        split
        · exact .full hlookup rfl rfl ⟨hidx, rfl, rfl⟩ ⟨rfl, rfl⟩
        · refine .push ⟨hlookup, ⟨hidx, rfl, flows_push hidx lease flowHash nowMs⟩, ?_, rfl, rfl,
            rfl, hroom.1, hroom.2⟩
          rw [push, flow_setFlow hidx]
          rfl

section

variable {lease : Option (BufferLease τ)} {claim : Option ℕ} {flowHash : UInt32}
  {accepted : Bool} (h : Enqueued s flowHash nowMs lease claim s' accepted)

include h

theorem Enqueued.config : s'.config = s.config := by
  cases h with
  | refuse => rfl
  | full _ _ _ hsets => exact hsets.config
  | push hpushes => exact hpushes.sets.config

theorem Enqueued.oldFlows : s'.oldFlows = s.oldFlows := by
  cases h with
  | refuse => rfl
  | full _ _ hold => exact hold
  | push hpushes => exact hpushes.oldFlows

/-- `enqueue` keeps the lists. -/
theorem Enqueued.listed (hlisted : s.IsListed) : s'.IsListed := by
  cases h with
  | refuse => exact hlisted
  | @full _ idx _ _ hnew hold hsets =>
    rw [IsListed, hsets.listing, hnew, hold]
    exact hlisted.same idx
  | @push _ idx _ hpushes =>
    rw [IsListed, hpushes.sets.listing, hpushes.newFlows, hpushes.oldFlows, pushed]
    split
    case isTrue hlist => exact hlisted.activate hlist
    case isFalse => exact hlisted.same idx

end

end FqCoDelScheduler

end Netstack2
