import Netstack2.Qos.FqCodel.Step

/-!
# The books of the scheduler

The calls to a scheduler, with a log of what was accepted, handed out, dropped and cleared
(`FqCoDelLog`). Over every sequence of calls:

* the counters are what is in the queues, and within the limits, and the slots in use are
  on the lists, each once (`WellFormed`);
* what was accepted is what was handed out, dropped, cleared or is still queued, each packet
  once (`Balanced`).

Both are kept by the visits that `dequeue` is made of, and by pushing a packet, so by every
call; `fqCoDel_loses_nothing` puts them together.
-/

namespace Netstack2

open List FqCoDelScheduler

variable {τ : Type} (config : FqCoDelConfig)

namespace FqCoDelScheduler

variable {s s' : FqCoDelScheduler τ} (flowHash : UInt32)

/-- The queues of the table, under the hashes of their flows. -/
def slots (s : FqCoDelScheduler τ) : List (NamedQueue UInt32 (QueuedPacket τ)) :=
  s.flows.map fun flow => (flow.flowHash, flow.queue)

theorem getElem?_slots {idx : ℕ} (hidx : idx < s.flows.length) :
    s.slots[idx]? = some ((s.flow idx).flowHash, (s.flow idx).queue) := by
  rw [slots, getElem?_map, getElem?_flows hidx]
  rfl

theorem slots_of_set {idx : ℕ} {flow : FlowSlot τ} (h : s'.flows = s.flows.set idx flow) :
    s'.slots = s.slots.set idx (flow.flowHash, flow.queue) := by
  rw [slots, h, map_set, slots]

/-! ## The invariant -/

/-- The counters are what is in the queues, and within the limits; the lists hold the slots
    that say so, and every slot in use does. -/
structure WellFormed (s : FqCoDelScheduler τ) : Prop where
  packets : s.totalPackets = (contents s.slots).length
  bytes : s.totalBytes = sizes ((contents s.slots).map Prod.snd)
  packets_le : s.totalPackets ≤ s.config.maxTotalPackets
  bytes_le : s.totalBytes ≤ s.config.maxTotalBytes
  queueBytes : ∀ i, (s.flow i).queueBytes = sizes (s.flow i).queue
  active : ∀ i, (s.flow i).queue ≠ [] → s.listing i ≠ .none
  listed : s.IsListed

theorem sizes_perm {packets packets' : List (UInt32 × QueuedPacket τ)} (h : packets.Perm packets') :
    sizes (packets.map Prod.snd) = sizes (packets'.map Prod.snd) :=
  ((h.map _).map _).sum_nat

/-- Names do not weigh. -/
theorem sizes_named (packets : List (QueuedPacket τ)) :
    sizes ((packets.map (flowHash, ·)).map Prod.snd) = sizes packets := by
  rw [map_map]
  exact congrArg sizes (map_id _)

section Takes

variable {d : Dequeued τ} {idx : ℕ} {flow' : FlowSlot τ} {lost : List (QueuedPacket τ)}
  {given : Option (QueuedPacket τ)}

/-- What a visit takes is no longer queued. -/
theorem Takes.perm (h : Takes s d idx flow' lost given) :
    (contents s.slots).Perm ((lost ++ given.toList).map ((s.flow idx).flowHash, ·) ++
      contents d.scheduler.slots) := by
  rw [slots_of_set h.flows]
  refine perm_contents_take ?_ h.flowHash
  rw [getElem?_slots h.lt_length, h.queue]

theorem Takes.wellFormed (h : Takes s d idx flow' lost given) (hs : s.WellFormed)
    (hlisted : d.scheduler.IsListed) : d.scheduler.WellFormed := by
  have hlength := h.perm.length_eq
  have hsizes := sizes_perm h.perm
  rw [length_append, length_map] at hlength
  rw [map_append, sizes_append, sizes_named] at hsizes
  have hpackets := hs.packets
  have hbytes := hs.bytes
  refine ⟨?_, ?_, ?_, ?_, fun i => ?_, fun i => ?_, hlisted⟩
  · rw [h.totalPackets]
    omega
  · rw [h.totalBytes]
    omega
  · rw [h.totalPackets, h.config]
    exact (Nat.sub_le _ _).trans hs.packets_le
  · rw [h.totalBytes, h.config]
    exact (Nat.sub_le _ _).trans hs.bytes_le
  · rw [flow_eq_of_set h.flows h.lt_length]
    split
    · exact h.queueBytes (hs.queueBytes idx)
    · exact hs.queueBytes i
  · rw [listing, flow_eq_of_set h.flows h.lt_length]
    split
    · -- packets that are left were queued before, so the slot was on a list
      intro hne
      refine h.list hne (hs.active idx ?_)
      rw [h.queue]
      exact append_ne_nil_of_right_ne_nil _ hne
    · exact hs.active i

end Takes

/-- The packets of one flow. -/
def ofFlow (flowHash : UInt32) (packets : List (UInt32 × QueuedPacket τ)) : List (QueuedPacket τ) :=
  packets.filterMap fun pkt => if pkt.1 = flowHash then some pkt.2 else none

theorem ofFlow_append (packets packets' : List (UInt32 × QueuedPacket τ)) :
    ofFlow flowHash (packets ++ packets') = ofFlow flowHash packets ++ ofFlow flowHash packets' :=
  filterMap_append

theorem ofFlow_named (k : UInt32) (packets : List (QueuedPacket τ)) :
    ofFlow flowHash (packets.map (k, ·)) = if k = flowHash then packets else [] := by
  rw [ofFlow, filterMap_map]
  split
  · next h => simp [h]
  · next h => simp [h]

/-- What a sequence of visits does: the packets that were dropped, and the one that was
    given, are no longer queued; and where no two queues in use have the same hash, they
    were the first of their flows. -/
structure Settles (s : FqCoDelScheduler τ) (d : Dequeued τ)
    (given : Option (UInt32 × QueuedPacket τ)) : Prop where
  config : d.scheduler.config = s.config
  wellFormed : d.scheduler.WellFormed
  perm : (contents s.slots).Perm (d.dropped ++ given.toList ++ contents d.scheduler.slots)
  separate : Separate s.slots → Separate d.scheduler.slots
  first : Separate s.slots → ∀ flowHash, under s.slots flowHash =
    ofFlow flowHash (d.dropped ++ given.toList) ++ under d.scheduler.slots flowHash
  packet : Option.Rel Delivers given d.packet
  not_ecnCapable : s.config.ecnCeMarking = true →
    ∀ pkt ∈ d.dropped, ¬EcnCapable pkt.2.lease.data

theorem WellFormed.settles (hs : s.WellFormed) : Settles s { scheduler := s } none :=
  ⟨rfl, hs, .refl _, id, fun _ _ => rfl, .none, fun _ _ h => absurd h not_mem_nil⟩

theorem Takes.settles {d : Dequeued τ} {idx : ℕ} {flow' : FlowSlot τ} {lost : List (QueuedPacket τ)}
    {given : Option (QueuedPacket τ)} (h : Takes s d idx flow' lost given) (hs : s.WellFormed)
    (hlisted : d.scheduler.IsListed) : Settles s d (given.map ((s.flow idx).flowHash, ·)) := by
  have htaken : d.dropped ++ (given.map ((s.flow idx).flowHash, ·)).toList =
      (lost ++ given.toList).map ((s.flow idx).flowHash, ·) := by
    rw [map_append, ← h.dropped, ← Option.toList_map]
  have hslot : s.slots[idx]? =
      some ((s.flow idx).flowHash, lost ++ given.toList ++ flow'.queue) := by
    rw [getElem?_slots h.lt_length, h.queue]
  refine ⟨h.config, h.wellFormed hs hlisted, ?_, fun hsep => ?_, fun hsep flowHash => ?_, ?_,
    fun hecn pkt hpkt => ?_⟩
  · rw [htaken]
    exact h.perm
  · rw [slots_of_set h.flows]
    exact hsep.take hslot h.flowHash
  · rw [htaken, ofFlow_named, slots_of_set h.flows]
    exact under_take hsep hslot h.flowHash flowHash
  · have hpacket := h.packet
    generalize d.packet = out at hpacket
    cases hpacket with
    | none => exact .none
    | some hout => exact .some hout
  · rw [h.dropped] at hpkt
    obtain ⟨pkt', hpkt', rfl⟩ := mem_map.1 hpkt
    exact h.not_ecnCapable hecn pkt' hpkt'

/-- Visits keep the invariant, and settle what they take. -/
theorem Visiting.settles {nowMs : UInt64} {vs : List (FlowVisit τ)} {d : Dequeued τ}
    (h : Visiting nowMs s vs d) : s.WellFormed → ∃ given, Settles s d given := by
  induction h with
  | nil => exact fun hs => ⟨none, hs.settles⟩
  | last hvisited =>
    intro hs
    obtain ⟨_, _, _, htakes⟩ := hvisited.takes
    exact ⟨_, htakes.settles hs (hvisited.listed hs.listed)⟩
  | @cons s _ v _ _ hvisited again _ ih =>
    intro hs
    obtain ⟨_, _, given, htakes⟩ := hvisited.takes
    have hfirst := htakes.settles hs (hvisited.listed hs.listed)
    obtain ⟨given', hsettles⟩ := ih hfirst.wellFormed
    -- the first visit gave nothing, so it only dropped
    have hnone : given.map ((s.flow v.slot).flowHash, ·) = none := by
      have hpacket := hfirst.packet
      rw [again] at hpacket
      cases hgiven : given.map ((s.flow v.slot).flowHash, ·) with
      | none => rfl
      | some =>
        rw [hgiven] at hpacket
        nomatch hpacket
    rw [hnone] at hfirst
    refine ⟨given', ⟨hsettles.config.trans htakes.config, hsettles.wellFormed, ?_,
      fun hsep => hsettles.separate (hfirst.separate hsep), fun hsep flowHash => ?_,
      hsettles.packet, fun hecn pkt hpkt => ?_⟩⟩
    · have hperm := hfirst.perm
      rw [Option.toList_none, append_nil] at hperm
      refine hperm.trans ?_
      simp only [Dequeued.after, append_assoc]
      refine List.Perm.append_left _ ?_
      rw [← append_assoc]
      exact hsettles.perm
    · rw [hfirst.first hsep, hsettles.first (hfirst.separate hsep), Option.toList_none, append_nil]
      simp only [Dequeued.after, ofFlow_append, append_assoc]
    · rcases mem_append.1 hpkt with hpkt | hpkt
      · exact hfirst.not_ecnCapable hecn pkt hpkt
      · refine hsettles.not_ecnCapable ?_ pkt hpkt
        rw [htakes.config]
        exact hecn

section Push

variable {idx : ℕ} {lease : BufferLease τ} {flowHash : UInt32} {nowMs : UInt64}

/-- A packet that is pushed is queued. -/
theorem Pushes.perm (h : Pushes s idx lease flowHash nowMs s') :
    (contents s'.slots).Perm
      ((flowHash, { lease := lease, enqueueTimeMs := nowMs }) :: contents s.slots) := by
  obtain ⟨hidx, hhash⟩ := lookup_eq_some h.lookup
  rw [slots_of_set h.sets.flows]
  exact perm_contents_push (getElem?_slots hidx) hhash _

theorem Pushes.wellFormed (h : Pushes s idx lease flowHash nowMs s') (hs : s.WellFormed) :
    s'.WellFormed := by
  have hlength := h.perm.length_eq
  have hsizes := sizes_perm h.perm
  rw [length_cons] at hlength
  rw [map_cons, sizes_cons] at hsizes
  refine ⟨?_, ?_, ?_, ?_, fun i => ?_, fun i => ?_, (Enqueued.push h).listed hs.listed⟩
  · rw [h.totalPackets, hs.packets, hlength]
  · rw [h.totalBytes, hs.bytes, hsizes, add_comm]
  · rw [h.totalPackets, h.sets.config]
    exact h.packets_le
  · rw [h.totalBytes, h.sets.config]
    exact h.bytes_le
  · rw [flow_eq_of_set h.sets.flows h.sets.lt_length]
    split
    · rw [pushed, sizes_append, sizes_cons, sizes_nil, hs.queueBytes idx, add_zero]
    · exact hs.queueBytes i
  · rw [listing, flow_eq_of_set h.sets.flows h.sets.lt_length]
    split
    · exact fun _ => pushed_list _ _ _ _
    · exact hs.active i

/-- A packet that is refused leaves the queues alone. -/
theorem Enqueued.settles {lease : Option (BufferLease τ)} {claim : Option ℕ}
    (h : Enqueued s flowHash nowMs lease claim s' false) (hs : s.WellFormed) :
    Settles s { scheduler := s' } none := by
  have hlisted := h.listed hs.listed
  cases h with
  | refuse => exact hs.settles
  | full hlookup _ _ hsets htotals =>
    have htakes := hsets.takes htotals rfl (lookup_eq_some hlookup).2 (fun _ => id) id
    exact htakes.settles hs hlisted

/-- A packet that is accepted is pushed. -/
theorem Enqueued.pushes {lease : Option (BufferLease τ)} {claim : Option ℕ}
    (h : Enqueued s flowHash nowMs lease claim s' true) :
    ∃ l idx, lease = some l ∧ Pushes s idx l flowHash nowMs s' := by
  cases h with
  | push hpushes => exact ⟨_, _, rfl, hpushes⟩

end Push

theorem flow_of_unused (hflows : ∀ flow ∈ s.flows, flow = {}) (i : ℕ) : s.flow i = {} := by
  rw [flow, getD_eq_getElem?_getD]
  cases h : s.flows[i]? with
  | none => rfl
  | some flow => exact hflows flow (mem_of_getElem? h)

/-- A table of unused slots. -/
theorem wellFormed_of_unused (hflows : ∀ flow ∈ s.flows, flow = {}) (hnew : s.newFlows = [])
    (hold : s.oldFlows = []) (hpackets : s.totalPackets = 0) (hbytes : s.totalBytes = 0) :
    s.WellFormed := by
  have hflow := flow_of_unused hflows
  have hcontents : contents s.slots = [] := by
    refine contents_eq_nil fun slot hslot => ?_
    obtain ⟨flow, hflow, rfl⟩ := mem_map.1 hslot
    rw [hflows flow hflow]
  refine ⟨?_, ?_, ?_, ?_, fun i => ?_, fun i => ?_, ?_, fun i => ?_, fun i => ?_⟩
  · rw [hpackets, hcontents, length_nil]
  · rw [hbytes, hcontents, map_nil, sizes_nil]
  · rw [hpackets]
    exact Nat.zero_le _
  · rw [hbytes]
    exact Nat.zero_le _
  · rw [hflow, sizes_nil]
  · rw [hflow]
    exact fun hne => absurd rfl hne
  · rw [hnew, hold]
    exact nodup_nil
  · rw [hnew, listing, hflow]
    exact ⟨by simp, by simp⟩
  · rw [hold, listing, hflow]
    exact ⟨by simp, by simp⟩

theorem wellFormed_new (config : FqCoDelConfig) : (new config : FqCoDelScheduler τ).WellFormed :=
  wellFormed_of_unused (fun _ h => eq_of_mem_replicate h) rfl rfl rfl rfl

theorem eq_of_mem_reset (s : FqCoDelScheduler τ) : ∀ flow ∈ s.reset.flows, flow = {} := by
  intro flow h
  obtain ⟨_, -, rfl⟩ := mem_map.1 h
  rfl

theorem wellFormed_reset (s : FqCoDelScheduler τ) : s.reset.WellFormed :=
  wellFormed_of_unused s.eq_of_mem_reset rfl rfl rfl rfl

theorem contents_reset (s : FqCoDelScheduler τ) : contents s.reset.slots = [] :=
  length_eq_zero_iff.1 s.wellFormed_reset.packets.symm

/-- With no flow on a list, nothing is queued. -/
theorem WellFormed.contents_eq_nil (hs : s.WellFormed) (hnew : s.newFlows = [])
    (hold : s.oldFlows = []) : contents s.slots = [] := by
  refine Netstack2.contents_eq_nil fun slot hslot => ?_
  obtain ⟨flow, hflow, rfl⟩ := mem_map.1 hslot
  obtain ⟨i, hi⟩ := mem_iff_getElem?.1 hflow
  by_contra hne
  have hat : s.flow i = flow := by
    rw [FqCoDelScheduler.flow, getD_eq_getElem?_getD, hi, Option.getD_some]
  have hlisted := hs.active i (by rw [hat]; exact hne)
  have hnot : ∀ i, s.listing i ≠ .new ∧ s.listing i ≠ .old := by
    intro i
    rw [ne_eq, ← hs.listed.new, ne_eq, ← hs.listed.old, hnew, hold]
    exact ⟨not_mem_nil, not_mem_nil⟩
  cases hlist : s.listing i with
  | none => exact hlisted hlist
  | new => exact (hnot i).1 hlist
  | old => exact (hnot i).2 hlist

theorem length_contents (s : FqCoDelScheduler τ) :
    (contents s.slots).length = (s.flows.map (·.queue.length)).sum := by
  rw [slots]
  induction s.flows with
  | nil => rfl
  | cons _ _ ih => rw [map_cons, contents_cons, length_append, ih, length_map, map_cons, sum_cons]

theorem sizes_contents (s : FqCoDelScheduler τ) :
    sizes ((contents s.slots).map Prod.snd) = (s.flows.map (sizes ·.queue)).sum := by
  rw [slots]
  induction s.flows with
  | nil => rfl
  | cons _ _ ih =>
    rw [map_cons, contents_cons, map_append, sizes_append, ih, sizes_named, map_cons, sum_cons]

/-- A slot in use is on one list, once. -/
theorem WellFormed.count_eq_one (hs : s.WellFormed) {idx : ℕ} {flow : FlowSlot τ}
    (hflow : s.flows[idx]? = some flow) (hqueue : flow.queue ≠ []) :
    (s.newFlows ++ s.oldFlows).count idx = 1 := by
  have hat : s.flow idx = flow := by
    rw [FqCoDelScheduler.flow, getD_eq_getElem?_getD, hflow, Option.getD_some]
  have hlisted := hs.active idx (by rw [hat]; exact hqueue)
  refine count_eq_one_of_mem hs.listed.nodup (mem_append.2 ?_)
  rw [hs.listed.new, hs.listed.old]
  cases hlist : s.listing idx with
  | none => exact absurd hlist hlisted
  | new => exact .inl rfl
  | old => exact .inr rfl

/-- `dequeue` returns without a packet only when nothing is queued. -/
theorem WellFormed.dequeue_none (hs : s.WellFormed) {nowMs : UInt64} {d : Dequeued τ}
    (h : s.dequeue nowMs = some d) (hnone : d.packet = none) : d.scheduler.queueLength = 0 := by
  obtain ⟨hvisiting, hempty⟩ := visiting_dequeue hs.listed h
  obtain ⟨_, hsettles⟩ := hvisiting.settles hs
  obtain ⟨hnew, hold⟩ := hempty hnone
  rw [queueLength, hsettles.wellFormed.packets, hsettles.wellFormed.contents_eq_nil hnew hold,
    length_nil]

end FqCoDelScheduler

/-! ## Runs -/

inductive FqCoDelCall (τ : Type)
  | enqueue (lease : Option (BufferLease τ)) (flowHash : UInt32) (nowMs : UInt64)
  | dequeue (nowMs : UInt64)
  | reset

/-- A scheduler, and what became of the packets that were handed in, with their flows, in the
    order of the calls. -/
structure FqCoDelLog (τ : Type) where
  scheduler : FqCoDelScheduler τ
  accepted : List (UInt32 × QueuedPacket τ) := []
  returned : List (FqCoDelPacket τ) := []
  dropped : List (UInt32 × QueuedPacket τ) := []
  cleared : List (UInt32 × QueuedPacket τ) := []

namespace FqCoDelLog

variable {log log' : FqCoDelLog τ}

def new (config : FqCoDelConfig) : FqCoDelLog τ := { scheduler := .new config }

/-- One call; `none` if it does not return. -/
def step (log : FqCoDelLog τ) : FqCoDelCall τ → Option (FqCoDelLog τ)
  | .enqueue lease flowHash nowMs =>
    let result := log.scheduler.enqueue lease flowHash nowMs
    let packets := if result.2 then lease.toList else []
    some { log with
      scheduler := result.1
      accepted := log.accepted ++
        packets.map fun lease => (flowHash, { lease := lease, enqueueTimeMs := nowMs }) }
  | .dequeue nowMs =>
    (log.scheduler.dequeue nowMs).map fun d => { log with
      scheduler := d.scheduler
      returned := log.returned ++ d.packet.toList
      dropped := log.dropped ++ d.dropped }
  | .reset =>
    some { log with
      scheduler := log.scheduler.reset
      cleared := log.cleared ++ contents log.scheduler.slots }

def run (log : FqCoDelLog τ) (calls : List (FqCoDelCall τ)) : Option (FqCoDelLog τ) :=
  calls.foldlM step log

/-- The books balance: what was accepted was handed out, dropped or cleared, or is still
    queued, each packet once; and nothing was dropped that could be marked. -/
structure Balanced (log : FqCoDelLog τ) : Prop where
  wellFormed : log.scheduler.WellFormed
  accounts : ∃ given, List.Forall₂ Delivers given log.returned ∧
    log.accepted.Perm (given ++ log.dropped ++ log.cleared ++ contents log.scheduler.slots)
  not_ecnCapable : log.scheduler.config.ecnCeMarking = true →
    ∀ pkt ∈ log.dropped, ¬EcnCapable pkt.2.lease.data

theorem balanced_new (config : FqCoDelConfig) : (new config : FqCoDelLog τ).Balanced := by
  have hnew : (FqCoDelScheduler.new config : FqCoDelScheduler τ).WellFormed :=
    FqCoDelScheduler.wellFormed_new config
  refine ⟨hnew, ⟨[], .nil, ?_⟩, fun _ _ h => absurd h not_mem_nil⟩
  exact perm_nil.2 (hnew.contents_eq_nil rfl rfl) |>.symm

/-- Visits move packets within the books. -/
theorem Balanced.settle (h : log.Balanced) {d : Dequeued τ}
    {given : Option (UInt32 × QueuedPacket τ)}
    (hsettles : FqCoDelScheduler.Settles log.scheduler d given) :
    Balanced { log with
      scheduler := d.scheduler
      returned := log.returned ++ d.packet.toList
      dropped := log.dropped ++ d.dropped } := by
  obtain ⟨before, hbefore, hperm⟩ := h.accounts
  refine ⟨hsettles.wellFormed, ⟨before ++ given.toList, ?_, ?_⟩, fun hecn pkt hpkt => ?_⟩
  · refine rel_append hbefore ?_
    have hpacket := hsettles.packet
    generalize d.packet = out at hpacket
    cases hpacket with
    | none => exact .nil
    | some hout => exact .cons hout .nil
  · refine hperm.trans ((hsettles.perm.append_left _).trans ?_)
    classical
    refine perm_iff_count.2 fun pkt => ?_
    simp only [count_append]
    omega
  · rw [hsettles.config] at hecn
    rcases mem_append.1 hpkt with hpkt | hpkt
    · exact h.not_ecnCapable hecn pkt hpkt
    · exact hsettles.not_ecnCapable hecn pkt hpkt

/-- One call keeps the books balanced. -/
theorem Balanced.step (h : log.Balanced) {call : FqCoDelCall τ} (hstep : log.step call = some log') :
    log'.Balanced ∧ log'.scheduler.config = log.scheduler.config := by
  cases call with
  | enqueue lease flowHash nowMs =>
    cases hstep
    have henqueued := log.scheduler.enqueued lease flowHash nowMs
    refine ⟨?_, henqueued.config⟩
    cases haccepted : (log.scheduler.enqueue lease flowHash nowMs).2 with
    | false =>
      rw [haccepted] at henqueued
      have hsettled := h.settle (henqueued.settles h.wellFormed)
      simpa using hsettled
    | true =>
      rw [haccepted] at henqueued
      obtain ⟨_, _, rfl, hpushes⟩ := henqueued.pushes
      obtain ⟨given, hgiven, hperm⟩ := h.accounts
      refine ⟨hpushes.wellFormed h.wellFormed, ⟨given, hgiven, ?_⟩, ?_⟩
      · refine (hperm.append_right _).trans (.trans ?_ (hpushes.perm.symm.append_left _))
        rw [append_assoc]
        exact (perm_append_singleton _ _).append_left _
      · intro hecn
        rw [hpushes.sets.config] at hecn
        exact h.not_ecnCapable hecn
  | dequeue =>
    obtain ⟨_, hd, rfl⟩ := Option.map_eq_some_iff.1 hstep
    have hvisiting := (visiting_dequeue h.wellFormed.listed hd).1
    obtain ⟨_, hsettles⟩ := hvisiting.settles h.wellFormed
    exact ⟨h.settle hsettles, hsettles.config⟩
  | reset =>
    cases hstep
    obtain ⟨given, hgiven, hperm⟩ := h.accounts
    refine ⟨⟨log.scheduler.wellFormed_reset, ⟨given, hgiven, ?_⟩, h.not_ecnCapable⟩, rfl⟩
    rw [contents_reset, append_nil, ← append_assoc]
    exact hperm

/-- Every call returns, if the quantum is not zero. -/
theorem Balanced.step_isSome (h : log.Balanced) (hquantum : 0 < log.scheduler.config.quantum.toNat)
    (call : FqCoDelCall τ) : ∃ log', log.step call = some log' := by
  cases call with
  | enqueue => exact ⟨_, rfl⟩
  | dequeue nowMs =>
    obtain ⟨_, hd⟩ := Option.isSome_iff_exists.1
      (dequeue_isSome h.wellFormed.listed hquantum nowMs)
    exact ⟨_, congrArg (Option.map _) hd⟩
  | reset => exact ⟨_, rfl⟩

/-- So every sequence of calls returns, with its books balanced. -/
theorem Balanced.run (calls : List (FqCoDelCall τ)) :
    ∀ log : FqCoDelLog τ, log.Balanced → 0 < log.scheduler.config.quantum.toNat →
      ∃ log', log.run calls = some log' ∧ log'.Balanced ∧
        log'.scheduler.config = log.scheduler.config := by
  induction calls with
  | nil => exact fun log h _ => ⟨log, rfl, h, rfl⟩
  | cons call _ ih =>
    intro log h hquantum
    obtain ⟨next, hnext⟩ := h.step_isSome hquantum call
    obtain ⟨hbalanced, hconfig⟩ := h.step hnext
    obtain ⟨log', hrun, hlog', hconfig'⟩ := ih next hbalanced (by rw [hconfig]; exact hquantum)
    refine ⟨log', ?_, hlog', hconfig'.trans hconfig⟩
    rw [FqCoDelLog.run, foldlM_cons, hnext]
    exact hrun

theorem Balanced.of_run (h : log.Balanced) {calls : List (FqCoDelCall τ)}
    (hrun : log.run calls = some log') : log'.Balanced := by
  induction calls generalizing log with
  | nil =>
    cases hrun
    exact h
  | cons _ _ ih =>
    rw [FqCoDelLog.run, foldlM_cons] at hrun
    obtain ⟨_, hnext, hrest⟩ := Option.bind_eq_some_iff.1 hrun
    exact ih (h.step hnext).1 hrest

end FqCoDelLog

/-- Over every sequence of calls to a scheduler that gives credit, every call returns. The counters
    are the number and the size of the packets in the queues, within the limits; a slot in use is on
    one of the lists, once; what was accepted was handed out (as it was, or marked), dropped or
    cleared, or is still queued, each packet once; nothing that could be marked was dropped while
    marking is on; and `dequeue` returns without a packet only when it leaves nothing queued. -/
theorem fqCoDel_loses_nothing (hquantum : 0 < config.quantum) (calls : List (FqCoDelCall τ)) :
    ∃ log : FqCoDelLog τ, (FqCoDelLog.new config).run calls = some log ∧
      (log.scheduler.queueLength = (log.scheduler.flows.map (·.queue.length)).sum ∧
        log.scheduler.queueLength ≤ config.maxTotalPackets) ∧
      (log.scheduler.queueBytes = (log.scheduler.flows.map (sizes ·.queue)).sum ∧
        log.scheduler.queueBytes ≤ config.maxTotalBytes) ∧
      (∀ idx flow, log.scheduler.flows[idx]? = some flow → flow.queue ≠ [] →
        (log.scheduler.newFlows ++ log.scheduler.oldFlows).count idx = 1) ∧
      (∃ given, List.Forall₂ Delivers given log.returned ∧ log.accepted.Perm
          (given ++ log.dropped ++ log.cleared ++ contents log.scheduler.slots)) ∧
      (config.ecnCeMarking = true → ∀ pkt ∈ log.dropped, ¬EcnCapable pkt.2.lease.data) ∧
      (∀ nowMs d, log.scheduler.dequeue nowMs = some d → d.packet = none →
        d.scheduler.queueLength = 0) := by
  have hpos : 0 < config.quantum.toNat := hquantum
  obtain ⟨log, hrun, hlog, hconfig⟩ :=
    FqCoDelLog.Balanced.run calls (.new config) (FqCoDelLog.balanced_new config) hpos
  have hs := hlog.wellFormed
  have hpackets := hs.packets_le
  have hbytes := hs.bytes_le
  have hecn := hlog.not_ecnCapable
  rw [hconfig] at hpackets hbytes hecn
  refine ⟨log, hrun, ⟨?_, hpackets⟩, ⟨?_, hbytes⟩, fun idx flow => hs.count_eq_one, hlog.accounts,
    hecn, fun nowMs d => hs.dequeue_none⟩
  · rw [← log.scheduler.length_contents]
    exact hs.packets
  · rw [← log.scheduler.sizes_contents]
    exact hs.bytes

/-- In every state that calls lead to, `dequeue` returns after finitely many rounds of its loops:
    each new flow takes at most one round, and each old flow at most one more than the bytes
    that it lacks for its next packet, however far its credit was driven below zero. -/
theorem dequeue_terminates (hquantum : 0 < config.quantum) (calls : List (FqCoDelCall τ)) :
    ∃ log : FqCoDelLog τ, (FqCoDelLog.new config).run calls = some log ∧ ∀ nowMs,
      ∃ d, log.scheduler.dequeue nowMs = some d ∧
        FqCoDelScheduler.Visiting nowMs log.scheduler (log.scheduler.visits nowMs) d ∧
        (log.scheduler.visits nowMs).length ≤ log.scheduler.newFlows.length +
          (dequeueNew nowMs log.scheduler.newFlows log.scheduler).scheduler.oldRounds + 1 := by
  have hpos : 0 < config.quantum.toNat := hquantum
  obtain ⟨log, hrun, hlog, hconfig⟩ :=
    FqCoDelLog.Balanced.run calls (.new config) (FqCoDelLog.balanced_new config) hpos
  refine ⟨log, hrun, fun nowMs => ?_⟩
  have hlisted := hlog.wellFormed.listed
  obtain ⟨d, hd⟩ := Option.isSome_iff_exists.1
    (dequeue_isSome hlisted (hconfig ▸ hpos) nowMs)
  refine ⟨d, hd, (visiting_dequeue hlisted hd).1, ?_⟩
  have hnew := length_newVisits nowMs log.scheduler.newFlows log.scheduler
  have hold := length_oldVisits nowMs
    ((dequeueNew nowMs log.scheduler.newFlows log.scheduler).scheduler.oldRounds + 1)
    (dequeueNew nowMs log.scheduler.newFlows log.scheduler).scheduler
  rw [visits, length_append]
  split
  · rw [length_nil]
    omega
  · omega

/-- After any calls: what was handed out are packets that were accepted, each once, and one
    that has the mark could carry it, and is changed in nothing but the mark and the checksum. -/
theorem ce_mark_changes_ecn_only (calls : List (FqCoDelCall τ)) {log : FqCoDelLog τ}
    (hrun : (FqCoDelLog.new config).run calls = some log) :
    ∃ given others, log.accepted.Perm (given ++ others) ∧
      List.Forall₂ (fun pkt out => out.flowHash = pkt.1 ∧ out.lease.tag = pkt.2.lease.tag ∧
        (out.ceMarked = true → Marked pkt.2.lease.data out.lease.data)) given log.returned := by
  have hbalanced := (FqCoDelLog.balanced_new config).of_run hrun
  obtain ⟨given, hgiven, hperm⟩ := hbalanced.accounts
  refine ⟨given, _, by rwa [append_assoc, append_assoc] at hperm, hgiven.imp fun pkt out h => ?_⟩
  refine ⟨h.flowHash, h.tag, fun hmarked => ?_⟩
  rcases h.data with ⟨hplain, -⟩ | ⟨-, hmark⟩
  · simp [hmarked] at hplain
  · exact markCe_marked hmark

/-- A scheduler that drops early. -/
def eager : FqCoDelConfig := { intervalMs := 1, targetMs := 0, quantum := 100 }

/-- A flow above the target: when its second packet leaves the queue it is dropped. -/
def overload : List (FqCoDelCall ℕ) :=
  [.enqueue (some ⟨1, [0]⟩) 7 1, .enqueue (some ⟨2, [0]⟩) 7 1, .enqueue (some ⟨3, [0]⟩) 7 1,
    .dequeue 3, .dequeue 5, .enqueue (some ⟨4, [0]⟩) 7 6, .reset]

theorem fqCoDel_loses_nothing_overload :
    ∃ log : FqCoDelLog ℕ, (FqCoDelLog.new eager).run overload = some log ∧
      log.scheduler.queueLength = (log.scheduler.flows.map (·.queue.length)).sum ∧
      (∃ given, List.Forall₂ Delivers given log.returned ∧ log.accepted.Perm
          (given ++ log.dropped ++ log.cleared ++ contents log.scheduler.slots)) ∧
      log.returned.map (·.lease.tag) = [1, 3] ∧ log.dropped.map (·.2.lease.tag) = [2] ∧
      log.cleared.map (·.2.lease.tag) = [4] := by
  obtain ⟨log, hrun, ⟨hlength, -⟩, -, -, haccounts, -, -⟩ :=
    fqCoDel_loses_nothing eager (by decide) overload
  have htags : ((FqCoDelLog.new eager).run overload).map (fun log =>
      (log.returned.map (·.lease.tag), log.dropped.map (·.2.lease.tag),
        log.cleared.map (·.2.lease.tag))) = some ([1, 3], [2], [4]) := by
    decide +kernel
  rw [hrun] at htags
  obtain ⟨hreturned, hrest⟩ := Prod.mk.inj (Option.some.inj htags)
  obtain ⟨hdropped, hcleared⟩ := Prod.mk.inj hrest
  exact ⟨log, hrun, hlength, haccounts, hreturned, hdropped, hcleared⟩

/-- A flow of packets that can carry the mark, above the target. -/
def markable : List (FqCoDelCall ℕ) :=
  let packet := ipv4Header 0x02 20 1 0 64 17 0 (.replicate 4 10) (.replicate 4 11)
  [.enqueue (some ⟨1, packet⟩) 7 1, .enqueue (some ⟨2, packet⟩) 7 1, .dequeue 3, .dequeue 5]

theorem ce_mark_changes_ecn_only_markable :
    ∃ log : FqCoDelLog ℕ, (FqCoDelLog.new eager).run markable = some log ∧
      ∃ pkt ∈ log.accepted, ∃ out ∈ log.returned, out.ceMarked = true ∧
        Marked pkt.2.lease.data out.lease.data := by
  have hmarks : ((FqCoDelLog.new eager).run markable).map (·.returned.map (·.ceMarked)) =
      some [false, true] := by
    decide +kernel
  obtain ⟨log, hrun, hmarks⟩ := Option.map_eq_some_iff.1 hmarks
  obtain ⟨_, _, hperm, hgiven⟩ := ce_mark_changes_ecn_only eager markable hrun
  refine ⟨log, hrun, ?_⟩
  generalize log.returned = returned at hgiven hmarks
  cases hgiven with
  | nil => cases hmarks
  | cons _ hgiven =>
    cases hgiven with
    | nil => simp at hmarks
    | @cons pkt out _ _ hout =>
      have hmarked : out.ceMarked := by
        simp only [map_cons, cons.injEq] at hmarks
        exact hmarks.2.1
      exact ⟨pkt, hperm.mem_iff.2 (by simp), out, by simp, hmarked, hout.2.2 hmarked⟩

theorem dequeue_terminates_overload :
    ∃ log : FqCoDelLog ℕ, (FqCoDelLog.new eager).run overload = some log ∧ ∀ nowMs,
      (log.scheduler.dequeue nowMs).isSome := by
  obtain ⟨log, hrun, hreturns⟩ := dequeue_terminates eager (by decide) overload
  refine ⟨log, hrun, fun nowMs => ?_⟩
  obtain ⟨_, hd, -⟩ := hreturns nowMs
  rw [hd]
  rfl

end Netstack2
