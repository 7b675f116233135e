import Netstack2.Qos.FqCodel.Ledger

/-!
# The order of a flow's packets

Packets of a flow are handed out in the order in which they were handed in as long as they
are all in one queue. The table does not see to that. A slot is given back when its queue
drains, and a flow whose packets are further along the probe sequence then finds that slot
first: its next packets go to a second queue, which may be served before the first
(`flow_overtakes_itself`).

What is needed is that whenever a packet of a flow is accepted, the probing gets to the
slot with the packets of that flow (`InReach`): no slot before it in the probe sequence is
unused, or has its hash. Over every run in which this holds, the packets of each flow come
out in order (`flow_in_order`).
-/

namespace Netstack2

open List

variable {τ : Type}

namespace FqCoDelScheduler

variable {s s' : FqCoDelScheduler τ} {flowHash : UInt32}

/-- The slot that the probing for a flow looks at after `i` others. -/
def probed (s : FqCoDelScheduler τ) (flowHash : UInt32) (i : ℕ) : FlowSlot τ :=
  s.flow ((flowHash.toNat % s.flows.length + i) % s.flows.length)

/-- No slot before one with packets of the flow is unused, or has the hash of the flow, in
    the probe sequence. -/
def InReach (s : FqCoDelScheduler τ) (flowHash : UInt32) : Prop :=
  ∀ i < s.flows.length, (s.probed flowHash i).queue ≠ [] →
    (s.probed flowHash i).flowHash = flowHash →
      ∀ j < i, (s.probed flowHash j).unused = false ∧ (s.probed flowHash j).flowHash ≠ flowHash

instance (s : FqCoDelScheduler τ) (flowHash : UInt32) :
    Decidable (s.InReach flowHash) :=
  inferInstanceAs (Decidable (∀ i < s.flows.length, _))

/-- Where the probing ends, given what it passes. -/
theorem probe_eq (i : ℕ) : ∀ {slot rounds : ℕ}, slot < s.flows.length → i < rounds →
    (∀ j < i, (s.flow ((slot + j) % s.flows.length)).unused = false ∧
      (s.flow ((slot + j) % s.flows.length)).flowHash ≠ flowHash) →
    (s.flow ((slot + i) % s.flows.length)).flowHash = flowHash →
    s.probe flowHash rounds slot = some ((slot + i) % s.flows.length) := by
  induction i with
  | zero =>
    intro slot rounds hslot hrounds hpassed hfound
    obtain ⟨_, rfl⟩ := Nat.exists_eq_succ_of_ne_zero (ne_of_gt hrounds)
    rw [add_zero, Nat.mod_eq_of_lt hslot] at hfound ⊢
    rw [probe, if_pos hfound]
    exact ite_self _
  | succ i ih =>
    intro slot rounds hslot hrounds hpassed hfound
    obtain ⟨_, rfl⟩ := Nat.exists_eq_succ_of_ne_zero (Nat.ne_zero_of_lt hrounds)
    have hshift : ∀ j, ((slot + 1) % s.flows.length + j) % s.flows.length =
        (slot + (j + 1)) % s.flows.length := by
      intro j
      rw [Nat.mod_add_mod, Nat.add_right_comm, add_assoc]
    obtain ⟨hunused, hhash⟩ := hpassed 0 (Nat.succ_pos i)
    rw [add_zero, Nat.mod_eq_of_lt hslot] at hunused hhash
    rw [probe, if_neg (ne_true_of_eq_false hunused), if_neg hhash, ← hshift i]
    refine ih (Nat.mod_lt _ (Nat.zero_lt_of_lt hslot)) (Nat.lt_of_succ_lt_succ hrounds) ?_ ?_
    · intro j hj
      rw [hshift]
      exact hpassed (j + 1) (Nat.succ_lt_succ hj)
    · rw [hshift]
      exact hfound

/-- Every slot is somewhere in the probe sequence. -/
theorem exists_probed {idx : ℕ} (hidx : idx < s.flows.length) (flowHash : UInt32) :
    ∃ i < s.flows.length, (flowHash.toNat % s.flows.length + i) % s.flows.length = idx := by
  have hstart : flowHash.toNat % s.flows.length < s.flows.length :=
    Nat.mod_lt _ (Nat.zero_lt_of_lt hidx)
  generalize flowHash.toNat % s.flows.length = start at hstart ⊢
  by_cases h : start ≤ idx
  · refine ⟨idx - start, by omega, ?_⟩
    rw [Nat.add_sub_cancel' h, Nat.mod_eq_of_lt hidx]
  · refine ⟨s.flows.length - start + idx, by omega, ?_⟩
    rw [← add_assoc, Nat.add_sub_cancel' hstart.le, Nat.add_mod_left, Nat.mod_eq_of_lt hidx]

/-- A flow in reach is found. -/
theorem InReach.lookup (h : s.InReach flowHash) {idx : ℕ} (hidx : idx < s.flows.length)
    (hqueue : (s.flow idx).queue ≠ []) (hhash : (s.flow idx).flowHash = flowHash) :
    s.lookup flowHash = some idx := by
  obtain ⟨i, hi, rfl⟩ := exists_probed hidx flowHash
  refine probe_eq i (Nat.mod_lt _ (Nat.zero_lt_of_lt hidx)) hi ?_ hhash
  exact h i hi hqueue hhash

/-- A flow without packets is in reach. -/
theorem inReach_of_under (h : under s.slots flowHash = []) : s.InReach flowHash := by
  intro i hi hqueue hhash
  have hpos : 0 < s.flows.length := Nat.zero_lt_of_lt hi
  refine absurd (eq_nil_of_under h _ (mem_of_getElem? (getElem?_slots ?_)) hhash) hqueue
  exact Nat.mod_lt _ hpos

section Push

variable {idx : ℕ} {lease : BufferLease τ} {nowMs : UInt64}

/-- An empty slot is found for a flow in reach only if the flow has no packets. -/
theorem InReach.fresh (h : s.InReach flowHash) (hlookup : s.lookup flowHash = some idx)
    (hqueue : (s.flow idx).queue = []) : ∀ slot ∈ s.slots, slot.1 = flowHash → slot.2 = [] := by
  intro slot hslot hname
  obtain ⟨i, hi⟩ := mem_iff_getElem?.1 hslot
  have hlt : i < s.flows.length := by
    have := (List.getElem?_eq_some_iff.1 hi).1
    rwa [slots, length_map] at this
  rw [getElem?_slots hlt] at hi
  cases hi
  by_contra hne
  -- the probing would have ended there
  have hfound := h.lookup hlt hne hname
  obtain rfl : i = idx := Option.some.inj (hfound.symm.trans hlookup)
  exact hne hqueue

/-- A packet of a flow in reach is the last of its flow. -/
theorem Pushes.last (h : Pushes s idx lease flowHash nowMs s') (hreach : s.InReach flowHash)
    (hsep : Separate s.slots) :
    Separate s'.slots ∧ ∀ m, under s'.slots m =
      under s.slots m ++ if flowHash = m then [{ lease := lease, enqueueTimeMs := nowMs }] else [] := by
  obtain ⟨hidx, hhash⟩ := lookup_eq_some h.lookup
  have hfresh := hreach.fresh h.lookup
  rw [slots_of_set h.sets.flows]
  exact ⟨hsep.push (getElem?_slots hidx) hhash hfresh _,
    under_push hsep (getElem?_slots hidx) hhash hfresh _⟩

end Push

/-- A packet that is handed out has the tag and the hash that it was handed in with. -/
theorem tags_packet {given : Option (UInt32 × QueuedPacket τ)} {packet : Option (FqCoDelPacket τ)}
    (h : Option.Rel Delivers given packet) (flowHash : UInt32) :
    (packet.toList.filter (·.flowHash = flowHash)).map (·.lease.tag) =
      (ofFlow flowHash given.toList).map (·.lease.tag) := by
  cases h with
  | none => rfl
  | @some pkt _ hout =>
    by_cases hhash : pkt.1 = flowHash
    · simp [ofFlow, hout.flowHash, hhash, hout.tag]
    · simp [ofFlow, hout.flowHash, hhash]

/-- The tags of the packets of a flow that are queued. -/
def queuedTags (s : FqCoDelScheduler τ) (flowHash : UInt32) : List τ :=
  (under s.slots flowHash).map (·.lease.tag)

/-- The scheduler is well formed, and no flow is queued in two slots. -/
structure Sound (s : FqCoDelScheduler τ) : Prop where
  wellFormed : s.WellFormed
  separate : Separate s.slots

/-- Visits take the first packets of their flows. -/
theorem Settles.tags {d : Dequeued τ} {given : Option (UInt32 × QueuedPacket τ)}
    (hsettles : Settles s d given) (h : s.Sound) :
    d.scheduler.Sound ∧ ∀ flowHash,
      ((d.packet.toList.filter (·.flowHash = flowHash)).map (·.lease.tag) ++
        d.scheduler.queuedTags flowHash).Sublist (s.queuedTags flowHash) := by
  refine ⟨⟨hsettles.wellFormed, hsettles.separate h.separate⟩, fun flowHash => ?_⟩
  rw [queuedTags, queuedTags, hsettles.first h.separate, ofFlow_append, map_append,
    map_append, tags_packet hsettles.packet, append_assoc]
  -- the packets that were dropped are left out
  exact sublist_append_right _ _

/-- A packet is refused, or the last of its flow if that is in reach. -/
theorem enqueue_tags (h : s.Sound) {lease : Option (BufferLease τ)} {nowMs : UInt64}
    (hreach : (s.enqueue lease flowHash nowMs).2 → s.InReach flowHash) :
    (s.enqueue lease flowHash nowMs).1.Sound ∧
      ((s.enqueue lease flowHash nowMs).2 = false ∧
        (∀ m, ((s.enqueue lease flowHash nowMs).1.queuedTags m).Sublist (s.queuedTags m)) ∨
      (s.enqueue lease flowHash nowMs).2 ∧ ∃ l, lease = some l ∧
        ∀ m, (s.enqueue lease flowHash nowMs).1.queuedTags m =
          s.queuedTags m ++ if flowHash = m then [l.tag] else []) := by
  have henqueued := s.enqueued lease flowHash nowMs
  cases haccepted : (s.enqueue lease flowHash nowMs).2 with
  | false =>
    rw [haccepted] at henqueued
    obtain ⟨hsound, htags⟩ := (henqueued.settles h.wellFormed).tags h
    exact ⟨hsound, .inl ⟨rfl, htags⟩⟩
  | true =>
    rw [haccepted] at henqueued
    obtain ⟨l, _, rfl, hpushes⟩ := henqueued.pushes
    obtain ⟨hsep, hunder⟩ := hpushes.last (hreach haccepted) h.separate
    refine ⟨⟨hpushes.wellFormed h.wellFormed, hsep⟩, .inr ⟨rfl, l, rfl, fun m => ?_⟩⟩
    rw [queuedTags, hunder, map_append, queuedTags]
    split <;> rfl

end FqCoDelScheduler

namespace FqCoDelLog

open FqCoDelScheduler

variable {log log' : FqCoDelLog τ}

/-- The packets that were handed in under a hash, by their tags. -/
def handedIn (log : FqCoDelLog τ) (flowHash : UInt32) : List τ :=
  (ofFlow flowHash log.accepted).map (·.lease.tag)

/-- The packets that were handed out under a hash, by their tags. -/
def handedOut (log : FqCoDelLog τ) (flowHash : UInt32) : List τ :=
  (log.returned.filter (·.flowHash = flowHash)).map (·.lease.tag)

/-- Of every flow, what was handed out and what is queued were handed in, in this order. -/
structure InOrder (log : FqCoDelLog τ) : Prop where
  wellFormed : log.scheduler.WellFormed
  separate : Separate log.scheduler.slots
  sublist : ∀ flowHash, (log.handedOut flowHash ++
    (under log.scheduler.slots flowHash).map (·.lease.tag)).Sublist (log.handedIn flowHash)

theorem InOrder.sound (h : log.InOrder) : log.scheduler.Sound := ⟨h.wellFormed, h.separate⟩

/-- What is queued of a flow comes after what was handed out. -/
theorem InOrder.settle (h : log.InOrder) {d : Dequeued τ} {given : Option (UInt32 × QueuedPacket τ)}
    (hsettles : Settles log.scheduler d given) (dropped cleared : List (UInt32 × QueuedPacket τ)) :
    InOrder { log with
      scheduler := d.scheduler
      returned := log.returned ++ d.packet.toList
      dropped := dropped
      cleared := cleared } := by
  obtain ⟨hsound, htags⟩ := hsettles.tags h.sound
  refine ⟨hsound.wellFormed, hsound.separate, fun flowHash => ?_⟩
  refine List.Sublist.trans ?_ (h.sublist flowHash)
  rw [handedOut, filter_append, map_append, append_assoc]
  exact (htags flowHash).append_left _

/-- What a call asks for: that the flow of a packet that is accepted is in reach. -/
def Reaches (log : FqCoDelLog τ) : FqCoDelCall τ → Prop
  | .enqueue lease flowHash nowMs =>
    (log.scheduler.enqueue lease flowHash nowMs).2 → log.scheduler.InReach flowHash
  | .dequeue _ => True
  | .reset => True

theorem InOrder.step (h : log.InOrder) {call : FqCoDelCall τ} (hreach : log.Reaches call)
    (hstep : log.step call = some log') : log'.InOrder := by
  cases call with
  | enqueue _ flowHash =>
    cases hstep
    obtain ⟨hsound, hrefused, htags⟩ | ⟨hsound, haccepted, l, rfl, htags⟩ :=
      and_or_left.1 (enqueue_tags h.sound hreach)
    · rw [hrefused]
      refine ⟨hsound.wellFormed, hsound.separate, fun m => ?_⟩
      rw [handedIn, ofFlow_append, map_append]
      exact ((htags m).append_left _).trans ((h.sublist m).trans (sublist_append_left _ _))
    · rw [haccepted]
      refine ⟨hsound.wellFormed, hsound.separate, fun m => ?_⟩
      have htags' := htags m
      rw [queuedTags] at htags'
      rw [handedIn, ofFlow_append, map_append, htags', ← append_assoc]
      refine (h.sublist m).append ?_
      by_cases hm : flowHash = m <;> simp [ofFlow, hm]
  | dequeue =>
    obtain ⟨_, hd, rfl⟩ := Option.map_eq_some_iff.1 hstep
    obtain ⟨_, hsettles⟩ := (visiting_dequeue h.wellFormed.listed hd).1.settles h.wellFormed
    exact h.settle hsettles _ _
  | reset =>
    cases hstep
    have hnil := log.scheduler.contents_reset
    refine ⟨log.scheduler.wellFormed_reset, separate_of_contents hnil, fun m => ?_⟩
    rw [under_of_contents hnil, map_nil, append_nil]
    exact (sublist_append_left _ _).trans (h.sublist m)

/-- Every packet of the calls that is accepted is one of a flow in reach. -/
def AllReach : FqCoDelLog τ → List (FqCoDelCall τ) → Prop
  | _, [] => True
  | log, call :: calls => log.Reaches call ∧
    match log.step call with
    | some next => AllReach next calls
    | none => True

instance decidableReaches (log : FqCoDelLog τ) : (call : FqCoDelCall τ) →
    Decidable (log.Reaches call)
  | .enqueue _ _ _ => inferInstanceAs (Decidable (_ → _))
  | .dequeue _ | .reset => isTrue trivial

instance decidableAllReach : (log : FqCoDelLog τ) → (calls : List (FqCoDelCall τ)) →
    Decidable (log.AllReach calls)
  | _, [] => isTrue trivial
  | log, call :: calls =>
    haveI : Decidable (match log.step call with
        | some next => AllReach next calls
        | none => True) :=
      match log.step call with
      | some next => decidableAllReach next calls
      | none => isTrue trivial
    inferInstanceAs (Decidable (_ ∧ _))

theorem InOrder.run (calls : List (FqCoDelCall τ)) :
    ∀ log : FqCoDelLog τ, log.InOrder → log.AllReach calls → log.run calls = some log' →
      log'.InOrder := by
  induction calls with
  | nil =>
    intro log h _ hrun
    cases hrun
    exact h
  | cons _ _ ih =>
    intro log h hreach hrun
    rw [FqCoDelLog.run, foldlM_cons] at hrun
    obtain ⟨next, hnext, hrun⟩ := Option.bind_eq_some_iff.1 hrun
    rw [AllReach, hnext] at hreach
    exact ih next (h.step hreach.1 hnext) hreach.2 hrun

theorem inOrder_new (config : FqCoDelConfig) : (new config : FqCoDelLog τ).InOrder := by
  have hnew : (FqCoDelScheduler.new config : FqCoDelScheduler τ).WellFormed := wellFormed_new config
  have hnil := hnew.contents_eq_nil rfl rfl
  refine ⟨hnew, separate_of_contents hnil, fun m => ?_⟩
  show List.Sublist ([] ++ (under (FqCoDelScheduler.new config : FqCoDelScheduler τ).slots m).map
    (·.lease.tag)) []
  rw [under_of_contents hnil]
  exact .refl _

end FqCoDelLog

/-- Over every run in which the flow of every packet that is accepted is in reach, the packets of
    each flow that are handed out are so in the order in which they were handed in. -/
theorem flow_in_order (config : FqCoDelConfig) (calls : List (FqCoDelCall τ))
    (hreach : (FqCoDelLog.new config).AllReach calls) (log : FqCoDelLog τ)
    (hrun : (FqCoDelLog.new config).run calls = some log) (flowHash : UInt32) :
    (log.handedOut flowHash).Sublist (log.handedIn flowHash) := by
  have horder := FqCoDelLog.InOrder.run calls _ (FqCoDelLog.inOrder_new config) hreach hrun
  exact (sublist_append_left _ _).trans (horder.sublist flowHash)

/-- Two slots, and credit for one packet of two bytes in a round. -/
def twoSlots : FqCoDelConfig := { maxFlows := 2, quantum := 3 }

/-- Two packets of the flow 2 are queued in the second slot, as the flow 4 has the first one
    until its packet is handed out. -/
def behind : List (FqCoDelCall ℕ) :=
  [.enqueue (some ⟨0, [0, 0]⟩) 4 0, .enqueue (some ⟨1, [0, 0]⟩) 2 0,
    .enqueue (some ⟨2, [0, 0]⟩) 2 0, .dequeue 0]

theorem flow_in_order_behind :
    ∃ log, (FqCoDelLog.new twoSlots).run (behind ++ [.dequeue 0, .dequeue 0]) = some log ∧
      log.handedOut 2 = [1, 2] ∧ (log.handedOut 2).Sublist (log.handedIn 2) := by
  refine ⟨_, rfl, by decide +kernel, ?_⟩
  exact flow_in_order twoSlots (behind ++ [.dequeue 0, .dequeue 0]) (by decide +kernel) _ rfl 2

/-- The next packet of the flow 2 is queued in the slot that was given back, and overtakes
    the second. -/
theorem flow_overtakes_itself :
    ∃ log, (FqCoDelLog.new twoSlots).run (behind ++ [.enqueue (some ⟨3, [0, 0]⟩) 2 0,
        .dequeue 0, .dequeue 0, .dequeue 0]) = some log ∧
      log.handedIn 2 = [1, 2, 3] ∧ log.handedOut 2 = [1, 3, 2] ∧
      ¬(log.handedOut 2).Sublist (log.handedIn 2) :=
  ⟨_, rfl, by decide +kernel, by decide +kernel, by decide +kernel⟩

end Netstack2
