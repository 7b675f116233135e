import Netstack2.Qos.FqCodel.Visit

/-!
# The priority of new flows

A flow starts on the list of new flows, which are served before all others. Its credit
there is one quantum, and when the credit does not cover its next packet it moves to the
old flows. But a credit that is used up to the last byte is taken for that of a flow that
has not been served yet, and is renewed.

* `newFlow_priority_bounded`: in every run in which no new flow is served with a renewed
  credit or loses its next packet to CoDel, a flow is given at most a quantum while it is new;
* `newFlow_priority_renewed`: packets of a whole quantum keep the priority.
-/

namespace Netstack2

variable {τ : Type}

/-- The credit of a new flow covers its next packet. -/
def FlowSlot.covered (config : FqCoDelConfig) (flow : FlowSlot τ) : Bool :=
  flow.queue.head?.any (·.lease.size ≤ (flow.entitled .new config).deficit)

namespace FqCoDelScheduler

/-- The new flow that is served next. -/
def nextNew (s : FqCoDelScheduler τ) : Option ℕ :=
  s.newFlows.find? fun idx => (s.flow idx).covered s.config

/-- The new flow that is served next has not used its quantum up to the last byte, and CoDel
    would not drop its next packet. -/
def Spares (nowMs : UInt64) (s : FqCoDelScheduler τ) (slots : ℕ → SlotAccount) : Prop :=
  ∀ idx ∈ s.nextNew, (s.flow idx).dropsNext s.config nowMs = false ∧
    (slots idx).stay ≠ s.config.quantum.toNat

/-- The credit of a new flow is what is left of its quantum, once it got it. -/
structure Bounded (s : FqCoDelScheduler τ) (slots : ℕ → SlotAccount) : Prop where
  stay : ∀ idx, (slots idx).stay ≤ s.config.quantum.toNat
  queue : ∀ idx, s.listing idx = .new → (s.flow idx).queue ≠ []
  credit : ∀ idx, s.listing idx = .new →
    ((slots idx).stay = 0 ∧ (s.flow idx).deficit = 0) ∨
      (s.flow idx).deficit + (slots idx).stay = s.config.quantum.toNat

variable {s s' : FqCoDelScheduler τ} {idx : ℕ} {slots slots' : ℕ → SlotAccount} {nowMs : UInt64}
  {v : FlowVisit τ}

/-- It is enough to look at the slot that changed. -/
theorem Bounded.of_sets {flow : FlowSlot τ} (h : Bounded s slots) (hsets : Sets s idx flow s')
    (hslots : ∀ j ≠ idx, (slots' j).stay = (slots j).stay)
    (hstay : (slots' idx).stay ≤ s.config.quantum.toNat)
    (hqueue : flow.list = .new → flow.queue ≠ [])
    (hcredit : flow.list = .new → ((slots' idx).stay = 0 ∧ flow.deficit = 0) ∨
      flow.deficit + (slots' idx).stay = s.config.quantum.toNat) : Bounded s' slots' := by
  refine ⟨fun j => ?_, fun j => ?_, fun j => ?_⟩
  all_goals by_cases hj : j = idx
  · rw [hsets.config, hj]
    exact hstay
  · rw [hsets.config, hslots j hj]
    exact h.stay j
  · rw [listing, hj, hsets.self]
    exact hqueue
  · rw [listing, hsets.other hj]
    exact h.queue j
  · rw [listing, hj, hsets.self, hsets.config]
    exact hcredit
  · rw [listing, hsets.other hj, hsets.config, hslots j hj]
    exact h.credit j

section Serve

variable {front : QueuedPacket τ} {tail : List (QueuedPacket τ)} {r : FlowService τ}
  (hqueue : (s.flow idx).queue = front :: tail)
  (hserve : ((s.flow idx).entitled .new s.config).serve s.config nowMs (front :: tail) = r)

include hqueue

/-- The first of the new flows, if it is covered, is served next. -/
theorem nextNew_eq {rest : List ℕ} (hnew : s.newFlows = idx :: rest)
    (hcovers : (front.lease.size : ℤ) ≤ ((s.flow idx).entitled .new s.config).deficit) :
    s.nextNew = some idx := by
  rw [nextNew, hnew]
  exact List.find?_cons_of_pos (by simpa [FlowSlot.covered, hqueue] using hcovers)

include hserve

/-- A packet that CoDel does not drop is given, and paid for. -/
theorem gives_next (hdrops : (s.flow idx).dropsNext s.config nowMs = false) :
    (∃ out, r.packet = some out ∧ out.lease.size = front.lease.size) ∧
      r.flow.deficit = ((s.flow idx).entitled .new s.config).deficit - front.lease.size := by
  have hq : ((s.flow idx).entitled .new s.config).queue = front :: tail :=
    ((s.flow idx).entitled_frame .new s.config).1.trans hqueue
  rw [← FlowSlot.dropsNext_entitled _ .new, ← FlowSlot.serve_dropped_iff hq] at hdrops
  obtain ⟨hout, hdeficit, -⟩ := FlowSlot.serve_of_dropped hdrops
  rw [hserve] at hout hdeficit
  exact ⟨hout, hdeficit⟩

/-- A new flow that is served pays out of its quantum. -/
theorem Bounded.served (h : Bounded s slots) (hlisted : s.IsListed)
    (hspares : Spares nowMs s slots) {rest : List ℕ} (hnew : s.newFlows = idx :: rest)
    (hcovers : (front.lease.size : ℤ) ≤ ((s.flow idx).entitled .new s.config).deficit)
    (dropped : List (UInt32 × QueuedPacket τ)) :
    let v : FlowVisit τ := { slot := idx, list := .new, packet := r.packet, dropped := dropped }
    r.flow.deficit + (v.record slots idx).stay = s.config.quantum.toNat ∧
      (v.record slots idx).stay ≤ s.config.quantum.toNat := by
  obtain ⟨hdrops, hspare⟩ := hspares idx (nextNew_eq hqueue hnew hcovers)
  obtain ⟨⟨out, hout, hsize⟩, hdeficit⟩ := gives_next hqueue hserve hdrops
  intro v
  have hpacket : v.packet = some out := hout
  have hrecord : (v.record slots idx).stay = (slots idx).stay + front.lease.size := by
    rw [v.record_self]
    dsimp only [FlowVisit.bytes]
    rw [if_pos rfl, hpacket, Option.map_some, Option.getD_some, hsize]
  rw [hrecord, hdeficit]
  have hstay := h.stay idx
  have hcredit := h.credit idx ((hlisted.new idx).1 (hnew ▸ List.mem_cons_self))
  rw [FlowSlot.entitled] at hcovers ⊢
  split at hcovers
  case isTrue hnone =>
    -- the credit is given for the first time: a second time is spared
    rw [if_pos hnone]
    dsimp only [FlowSlot.credit] at hcovers ⊢
    omega
  case isFalse hsome =>
    rw [if_neg hsome]
    have hpos : 0 < (s.flow idx).deficit := Int.not_le.1 fun hle => hsome ⟨rfl, hle⟩
    omega

end Serve

theorem Bounded.of_nil (hlisted : s.IsListed) (hnew : s.newFlows = [])
    (hstay : ∀ idx, (slots idx).stay ≤ s.config.quantum.toNat) : Bounded s slots := by
  have hnot : ∀ idx, s.listing idx ≠ .new := fun idx hlist => by
    have hmem := (hlisted.new idx).2 hlist
    simp [hnew] at hmem
  exact ⟨hstay, fun idx hlist => absurd hlist (hnot idx), fun idx hlist => absurd hlist (hnot idx)⟩

/-- A visit to a slot that is not new leaves its stay alone. -/
theorem Bounded.visit_idle {flow : FlowSlot τ} (h : Bounded s slots)
    (hsets : Sets s v.slot flow s') (hbytes : v.list = .new → v.bytes = 0)
    (hlist : flow.list ≠ .new) : Bounded s' (v.record slots) := by
  refine h.of_sets hsets (fun j hj => by rw [v.record_of_ne slots hj]) ?_
    (fun hnew => absurd hnew hlist) (fun hnew => absurd hnew hlist)
  rw [v.record_self]
  have hstay := h.stay v.slot
  split
  case isTrue hnew => rwa [hbytes hnew]
  case isFalse => exact hstay

/-- Visits keep the bound. -/
theorem Bounded.visit (h : Bounded s slots) (hlisted : s.IsListed) (hspares : Spares nowMs s slots)
    (hvisited : Visited nowMs s v s') : Bounded s' (v.record slots) := by
  cases hvisited with
  | release _ _ hsets | mature _ _ _ _ hsets => exact h.visit_idle hsets (fun _ => rfl) nofun
  | @rotate idx _ _ _ _ _ _ hnew hold _ hsets =>
    have hlist : s.listing idx = .old := (hlisted.old idx).1 (hold ▸ List.mem_cons_self)
    exact h.visit_idle hsets nofun (fun hnew => nomatch hlist.symm.trans hnew)
  | @serve idx _ _ _ _ _ hqueue hcovers hserve _ hleft hheads hnew hold hsets =>
    obtain ⟨_, hserved⟩ := FlowSlot.serve_entitled hqueue hserve
    have hlist := hserved.list
    cases hheads with
    | new hheads =>
      obtain ⟨hpaid, hstay⟩ := h.served hqueue hserve hlisted hspares hheads hcovers _
      exact h.of_sets hsets (fun j hj => by rw [FlowVisit.record_of_ne _ slots hj]) hstay
        (fun _ => hleft rfl) (fun _ => .inr hpaid)
    | old hheads =>
      have hold : s.listing idx = .old := (hlisted.old idx).1 (hheads ▸ List.mem_cons_self)
      exact h.visit_idle hsets nofun (fun hnew => nomatch hold.symm.trans (hlist.symm.trans hnew))
  | @drain idx _ _ _ _ _ hqueue hcovers hserve _ hleaves hsets =>
    cases hleaves with
    | new hheads =>
      obtain ⟨-, hstay⟩ := h.served hqueue hserve hlisted hspares hheads hcovers _
      exact h.of_sets hsets (fun j hj => by rw [FlowVisit.record_of_ne _ slots hj]) hstay nofun nofun
    | old => exact h.visit_idle hsets nofun nofun

/-- A visit that gives no packet passes an old flow, or a new one that is not covered. -/
theorem Visited.passes (h : Visited nowMs s v s') (hspares : Spares nowMs s slots)
    (hnone : v.packet = none) :
    (s.newFlows = s'.newFlows ∧ v.slot ∈ s.oldFlows) ∨
      s.newFlows = v.slot :: s'.newFlows ∧ (s.flow v.slot).covered s.config = false := by
  cases h with
  | release hempty hleaves =>
    cases hleaves with
    | new hnew => exact .inr ⟨hnew, by simp [FlowSlot.covered, hempty]⟩
    | old hnew hold => exact .inl ⟨hnew.symm, hold ▸ List.mem_cons_self⟩
  | mature hqueue hlacks hnew =>
    exact .inr ⟨hnew, by simpa [FlowSlot.covered, hqueue] using hlacks⟩
  | rotate _ _ hnew hold => exact .inl ⟨hnew.symm, hold ▸ List.mem_cons_self⟩
  | serve _ _ _ hgives => exact absurd hgives (Option.not_isSome_iff_eq_none.2 hnone)
  | drain hqueue hcovers hserve _ hleaves =>
    cases hleaves with
    | new hnew =>
      have hdrops := (hspares _ (nextNew_eq hqueue hnew hcovers)).1
      obtain ⟨⟨_, hout, -⟩, -⟩ := gives_next hqueue hserve hdrops
      cases hout.symm.trans hnone
    | old hnew hold => exact .inl ⟨hnew.symm, hold ▸ List.mem_cons_self⟩

/-- The new flow that is served next is the same when the loop goes on. -/
theorem Spares.visit (h : Spares nowMs s slots) (hlisted : s.IsListed)
    (hvisited : Visited nowMs s v s') (hnone : v.packet = none) :
    Spares nowMs s' (v.record slots) := by
  obtain ⟨hnodup, -, hdisjoint⟩ := List.nodup_append.1 hlisted.nodup
  obtain ⟨hfirst, hslot⟩ : s.nextNew = s'.newFlows.find? (fun j => (s.flow j).covered s.config) ∧
      ∀ j ∈ s'.newFlows, j ≠ v.slot := by
    rw [nextNew]
    rcases hvisited.passes h hnone with ⟨hnew, hold⟩ | ⟨hnew, hpassed⟩
    · exact ⟨by rw [hnew], fun j hj => hdisjoint j (hnew ▸ hj) _ hold⟩
    · rw [hnew] at hnodup ⊢
      exact ⟨List.find?_cons_of_neg (ne_true_of_eq_false hpassed),
        fun j hj heq => (List.nodup_cons.1 hnodup).1 (heq ▸ hj)⟩
  obtain ⟨_, hsets⟩ := hvisited.sets
  have hnext : s'.nextNew = s.nextNew := hfirst ▸
    List.find?_congr fun j hj => by rw [hsets.other (hslot j hj), hsets.config]
  intro j hj
  have hne := hslot j (List.mem_of_find?_eq_some hj)
  rw [hsets.other hne, hsets.config, v.record_of_ne slots hne]
  exact h j (hnext ▸ hj)

/-- A flow that is put on the list has its whole quantum before it. -/
theorem Bounded.enqueue {a : FqCoDelAccount τ} {lease : Option (BufferLease τ)}
    {claim : Option ℕ} {flowHash : UInt32} {accepted : Bool} (h : Bounded a.scheduler a.slots)
    (henqueued : a.scheduler.Enqueued flowHash nowMs lease claim s' accepted) :
    Bounded s' (a.opened claim s') := by
  have hstay : ∀ j, (a.opened claim s' j).stay ≤ a.scheduler.config.quantum.toNat := by
    intro j
    rw [FqCoDelAccount.opened]
    split
    · exact Nat.zero_le _
    · exact h.stay j
  -- the stay of a slot whose list is the same goes on
  have hsame : ∀ j, s'.listing j = a.scheduler.listing j →
      (a.opened claim s' j).stay = (a.slots j).stay :=
    fun j hj => if_neg fun hnew => hnew.2 (hj.symm.trans hnew.1)
  cases henqueued with
  | refuse => exact ⟨hstay, h.queue, fun j hj => (hsame j rfl).symm ▸ h.credit j hj⟩
  | @full _ idx _ _ _ _ hsets =>
    have hidx : s'.listing idx = a.scheduler.listing idx := by rw [listing, hsets.self]; rfl
    refine h.of_sets hsets (fun j hj => hsame j ?_) (hstay idx) (h.queue idx) fun hlist => ?_
    · rw [listing, hsets.other hj]
      rfl
    · rw [hsame idx hidx]
      exact h.credit idx hlist
  | @push _ idx _ hpushes =>
    have hsets := hpushes.sets
    refine h.of_sets hsets (fun j hj => hsame j ?_) (hstay idx)
      (fun _ => List.append_ne_nil_of_right_ne_nil _ (List.cons_ne_nil _ _)) fun hlist => ?_
    · rw [listing, hsets.other hj]
      rfl
    · have hlist' : s'.listing idx = .new := by rw [listing, hsets.self, hlist]
      rw [pushed] at hlist ⊢
      dsimp only at hlist ⊢
      by_cases hnone : (a.scheduler.flow idx).list = .none
      · exact .inl ⟨if_pos ⟨hlist', fun heq => by cases hnone.symm.trans heq⟩, if_pos hnone⟩
      · rw [if_neg hnone] at hlist ⊢
        rw [hsame idx (hlist'.trans hlist.symm)]
        exact h.credit idx hlist

end FqCoDelScheduler

namespace FqCoDelAccount

/-- The call renews no priority. -/
def Spares (a : FqCoDelAccount τ) : FqCoDelCall τ → Prop
  | .dequeue nowMs => a.scheduler.Spares nowMs a.slots
  | _ => True

instance (a : FqCoDelAccount τ) : (call : FqCoDelCall τ) → Decidable (a.Spares call)
  | .dequeue _ => inferInstanceAs (Decidable (∀ idx ∈ a.scheduler.nextNew, _ ∧ _))
  | .enqueue .. | .reset => .isTrue trivial

end FqCoDelAccount

/-- In every run in which no new flow is served from a second quantum or loses its next packet to
    CoDel, what is given from a slot while it is on the list of new flows is at most a quantum. -/
theorem newFlow_priority_bounded {config : FqCoDelConfig} {a : FqCoDelAccount τ}
    (h : a.Reachable config FqCoDelAccount.Spares) (idx : ℕ) :
    (a.slots idx).stay ≤ config.quantum.toNat := by
  have hbounded : a.scheduler.Bounded a.slots := by
    refine h.invariant (J := fun nowMs s slots => s.Bounded slots ∧ s.Spares nowMs slots)
      ?_ (fun _ _ hbounded _ henqueued => hbounded.enqueue henqueued)
      (fun _ hbounded hspares => ⟨hbounded, hspares⟩)
      (fun hlisted hJ hvisited hnone =>
        ⟨hJ.1.visit hlisted hJ.2 hvisited, hJ.2.visit hlisted hvisited hnone⟩)
      (fun hlisted hJ hvisited => hJ.1.visit hlisted hJ.2 hvisited) (fun hJ => hJ.1) ?_
    · exact .of_nil (FqCoDelScheduler.wellFormed_new config).listed rfl fun _ => Nat.zero_le _
    · exact fun hbounded => .of_nil (FqCoDelScheduler.wellFormed_reset _).listed rfl hbounded.stay
  exact h.listed.2 ▸ hbounded.stay idx

/-- A flow whose second packet has to wait: it is given one packet while it is new. -/
theorem newFlow_priority_bounded_matures :
    ∃ a : FqCoDelAccount ℕ, a.Reachable { quantum := 3 } FqCoDelAccount.Spares ∧
      a.scheduler.listing 7 = .old ∧ (a.slots 7).given = 4 ∧ (a.slots 7).stay ≤ 3 := by
  have hrun : ((FqCoDelAccount.new { quantum := 3 }).replay (fun a call => a.Spares call)
      [.enqueue (some ⟨1, [0, 0]⟩) 7 0, .enqueue (some ⟨2, [0, 0]⟩) 7 0,
        .enqueue (some ⟨3, [0]⟩) 7 0, .dequeue 0, .dequeue 0]).map
      (fun a => (a.scheduler.listing 7, (a.slots 7).given)) = some (.old, 4) := by
    decide +kernel
  obtain ⟨a, hreplay, hobs⟩ := Option.map_eq_some_iff.1 hrun
  obtain ⟨hlist, hgiven⟩ := Prod.mk.inj hobs
  have hreach := FqCoDelAccount.Reachable.new.replay (fun a call => of_decide_eq_true) hreplay
  exact ⟨a, hreach, hlist, hgiven, newFlow_priority_bounded hreach 7⟩

/-- A flow with packets of a whole quantum stays new. -/
theorem newFlow_priority_renewed :
    ∃ a : FqCoDelAccount ℕ, a.Reachable { quantum := 1 } (fun _ _ => True) ∧
      a.scheduler.listing 7 = .new ∧ (a.slots 7).stay = 2 := by
  have hrun : ((FqCoDelAccount.new { quantum := 1 }).replay (fun _ _ => true)
      [.enqueue (some ⟨1, [0]⟩) 7 0, .enqueue (some ⟨2, [0]⟩) 7 0, .enqueue (some ⟨3, [0]⟩) 7 0,
        .dequeue 0, .dequeue 0]).map
      (fun a => (a.scheduler.listing 7, (a.slots 7).stay)) = some (.new, 2) := by
    decide +kernel
  obtain ⟨a, hreplay, hobs⟩ := Option.map_eq_some_iff.1 hrun
  obtain ⟨hlist, hstay⟩ := Prod.mk.inj hobs
  exact ⟨a, FqCoDelAccount.Reachable.new.replay (fun _ _ _ => trivial) hreplay, hlist, hstay⟩

end Netstack2
