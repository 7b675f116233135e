import Netstack2.Lib.RoundRobin
import Netstack2.Qos.FqCodel.Visit

/-!
# Fairness among the old flows

The old flows are served by deficit round robin: a flow whose credit does not cover its
next packet gets a quantum and is put last. While two flows are on the list with packets
queued they get their quanta alternately, so what they are given differs by a quantum and
by what they had in hand at the start and at the end. A flow from which CoDel dropped
nothing has between nothing and a quantum and a packet in hand.

* `drr_fair`: in every run in which no slot is claimed that is still on a list, two such
  flows are given the same up to three quanta and two packets;
* `drr_unfair`: a flow that inherits the debt of a slot is given less.
-/

namespace Netstack2

open List FqCoDelScheduler

variable {τ : Type}

namespace FqCoDelScheduler

variable {s s' : FqCoDelScheduler τ} {idx : ℕ} {slots : ℕ → SlotAccount} {nowMs : UInt64}
  {v : FlowVisit τ} {lease : Option (BufferLease τ)} {claim : Option ℕ} {flowHash : UInt32}
  {M : ℕ}

/-- The slot is on the list of old flows, and its queue is not empty. -/
def Resident (s : FqCoDelScheduler τ) (idx : ℕ) : Prop :=
  s.listing idx = .old ∧ (s.flow idx).queue ≠ []

instance (s : FqCoDelScheduler τ) (idx : ℕ) : Decidable (s.Resident idx) :=
  inferInstanceAs (Decidable (_ ∧ _))

/-- The queue of the slot is empty, or CoDel dropped a packet from it. -/
def Lost (s : FqCoDelScheduler τ) (slots : ℕ → SlotAccount) (idx : ℕ) : Prop :=
  (s.flow idx).queue = [] ∨ (slots idx).clean = false

/-- What the slot was given, and has in hand. -/
def balance (s : FqCoDelScheduler τ) (slots : ℕ → SlotAccount) (idx : ℕ) : ℤ :=
  (slots idx).given + (s.flow idx).deficit

theorem Heads.listing {list : FlowList} (h : Heads s idx list)
    (hlisted : s.IsListed) : s.listing idx = list := by
  cases h with
  | new hnew => exact (hlisted.new idx).1 (hnew ▸ mem_cons_self)
  | old hold => exact (hlisted.old idx).1 (hold ▸ mem_cons_self)

/-! ## Visits -/

/-- What is lost stays so. -/
theorem Lost.visit (h : s.Lost slots idx) (hvisited : Visited nowMs s v s') :
    s'.Lost (v.record slots) idx := by
  by_cases hidx : idx = v.slot
  · subst hidx
    rcases h with hempty | hclean
    · left
      cases hvisited with
      | release _ _ hsets => rw [hsets.self]
      | mature hqueue | rotate hqueue | serve hqueue =>
        exact absurd (hempty.symm.trans hqueue) nofun
      | drain _ _ _ _ _ hsets => rw [hsets.self]
    · right
      rw [v.record_self, hclean, Bool.false_and]
  · obtain ⟨_, hsets⟩ := hvisited.sets
    rw [Lost, hsets.other hidx, v.record_of_ne slots hidx]
    exact h

/-- The slot loses its packets, or a packet to CoDel; or it stays, and pays for what it
    gives, out of the quantum that it gets at its turn. -/
def Pays (s : FqCoDelScheduler τ) (slots : ℕ → SlotAccount) (turn : Option ℕ)
    (s' : FqCoDelScheduler τ) (slots' : ℕ → SlotAccount) (idx : ℕ) : Prop :=
  s'.Lost slots' idx ∨ (s'.Resident idx ∧ s'.balance slots' idx = s.balance slots idx +
    if turn = some idx then (s.config.quantum.toNat : ℤ) else 0)

/-- A slot that is not visited is as it was. -/
theorem Sets.pays {flow : FlowSlot τ} {turn : Option ℕ} (h : Sets s v.slot flow s')
    (hturn : ∀ idx, turn = some idx → idx = v.slot)
    (hslot : s.Resident v.slot → Pays s slots turn s' (v.record slots) v.slot) (idx : ℕ)
    (hresident : s.Resident idx) : Pays s slots turn s' (v.record slots) idx := by
  by_cases hidx : idx = v.slot
  · subst hidx
    exact hslot hresident
  · right
    rw [Resident, balance, FqCoDelScheduler.listing, h.other hidx, v.record_of_ne slots hidx,
      if_neg fun heq => hidx (hturn idx heq), Int.add_zero]
    exact ⟨hresident, rfl⟩

theorem Leaves.move {list : FlowList} (h : Leaves s idx s' list) :
    RoundRobin.Move s.oldFlows none s'.oldFlows := by
  cases h with
  | new _ hold =>
    rw [hold]
    exact .stay _
  | old _ hold =>
    rw [hold]
    exact .leave _ _

/-- A visit moves the list of old flows, and a slot on it pays. -/
theorem Visited.turn (h : Visited nowMs s v s') (hlisted : s.IsListed) (slots : ℕ → SlotAccount) :
    ∃ turn, RoundRobin.Move s.oldFlows turn s'.oldFlows ∧
      ∀ idx, s.Resident idx → Pays s slots turn s' (v.record slots) idx := by
  cases h with
  | release hempty hleaves hsets =>
    exact ⟨none, hleaves.move, hsets.pays (by simp) fun hresident => absurd hempty hresident.2⟩
  | @mature idx _ _ _ _ _ hnew hold hsets =>
    refine ⟨none, hold ▸ .join _ _, hsets.pays (by simp) fun hresident => ?_⟩
    have hlist : s.listing idx = .new := (Heads.new hnew).listing hlisted
    cases hresident.1.symm.trans hlist
  | @rotate idx _ _ _ _ _ _ _ hold hold' hsets =>
    refine ⟨some idx, hold ▸ hold' ▸ .turn _ _, hsets.pays (fun _ heq => (Option.some.inj heq).symm)
      fun hresident => .inr ?_⟩
    rw [Resident, balance, listing, hsets.self, FlowVisit.record_self, if_pos rfl]
    refine ⟨hresident, ?_⟩
    simp only [FlowVisit.bytes, FlowSlot.credit, Option.map_none, Option.getD_none, balance]
    omega
  | @serve idx list _ tail r _ hqueue _ hserve _ _ hheads _ hold hsets =>
    refine ⟨none, hold ▸ .stay _, hsets.pays (by simp) fun hresident => ?_⟩
    have hlist : list = .old := (hheads.listing hlisted).symm.trans hresident.1
    have hentitled : (s.flow idx).entitled list s.config = s.flow idx := by
      rw [hlist]
      exact if_neg (by simp)
    obtain ⟨_, hserved⟩ := FlowSlot.serve_entitled hqueue hserve
    have hkept := hserved.list
    rw [hentitled] at hserve
    by_cases hdropped : r.dropped = []
    · obtain ⟨⟨out, hout, hsize⟩, hdeficit, htail⟩ := FlowSlot.serve_of_dropped (hserve ▸ hdropped)
      rw [hserve] at hout hdeficit htail
      by_cases hempty : tail = []
      · exact .inl (.inl (by rw [hsets.self, htail, hempty]))
      · right
        rw [Resident, balance, listing, hsets.self, FlowVisit.record_self, hkept, htail, hdeficit]
        refine ⟨⟨hresident.1, hempty⟩, ?_⟩
        simp only [FlowVisit.bytes, hout, Option.map_some, Option.getD_some, hsize, balance]
        rw [if_neg (by simp)]
        omega
    · refine .inl (.inr ?_)
      rw [FlowVisit.record_self]
      simp [hdropped]
  | drain _ _ _ _ hleaves hsets =>
    refine ⟨none, hleaves.move, hsets.pays (by simp) fun _ => .inl (.inl ?_)⟩
    rw [hsets.self]

/-- Since a moment at which `i` was before `j`, and the two had the balances `base`: one of
    them was lost; or they stayed, and got their quanta alternately. -/
def Shares (base : ℕ → ℤ) (i j : ℕ) (s : FqCoDelScheduler τ) (slots : ℕ → SlotAccount) : Prop :=
  s.Lost slots i ∨ s.Lost slots j ∨ (s.Resident i ∧ s.Resident j ∧
    ∃ m n : ℕ, RoundRobin.Alternates i j m n s.oldFlows ∧
      s.balance slots i = base i + m * s.config.quantum.toNat ∧
      s.balance slots j = base j + n * s.config.quantum.toNat)

theorem turns_mul {idx m : ℕ} {turn : Option ℕ} {quantum base balance balance' : ℤ}
    (h : balance = base + m * quantum)
    (h' : balance' = balance + if turn = some idx then quantum else 0) :
    balance' = base + RoundRobin.turns idx m turn * quantum := by
  rw [h', h, RoundRobin.turns]
  split
  · push_cast
    ring
  · rw [Int.add_zero]

/-- Visits keep the shares. -/
theorem Shares.visit {base : ℕ → ℤ} {i j : ℕ} (h : Shares base i j s slots) (hlisted : s.IsListed)
    (hvisited : Visited nowMs s v s') : Shares base i j s' (v.record slots) := by
  rcases h with hlost | hlost | ⟨hi, hj, m, n, halternates, hm, hn⟩
  · exact .inl (hlost.visit hvisited)
  · exact .inr (.inl (hlost.visit hvisited))
  · obtain ⟨_, hmove, hpays⟩ := hvisited.turn hlisted slots
    rcases hpays i hi with hlost | ⟨hi', hi''⟩
    · exact .inl hlost
    · rcases hpays j hj with hlost | ⟨hj', hj''⟩
      · exact .inr (.inl hlost)
      · have hold := (hvisited.listed hlisted).old
        have hnodup := (nodup_append.1 hlisted.nodup).2.1
        obtain ⟨_, hsets⟩ := hvisited.sets
        refine .inr (.inr ⟨hi', hj', _, _, halternates.move hmove hnodup ((hold i).2 hi'.1)
          ((hold j).2 hj'.1), ?_, ?_⟩)
        · rw [hsets.config]
          exact turns_mul hm hi''
        · rw [hsets.config]
          exact turns_mul hn hj''

/-! ## Handing in a packet -/

/-- A slot with packets is not claimed. -/
theorem not_claimed {j : ℕ} (hqueue : (s.flow idx).queue ≠ []) :
    (if (s.flow j).unused then some j else none) ≠ some idx := by
  intro hclaim
  split at hclaim
  case isTrue hunused =>
    cases hclaim
    rw [FlowSlot.unused, Bool.and_eq_true, List.isEmpty_iff] at hunused
    exact hqueue hunused.1
  case isFalse => cases hclaim

/-- A packet that is handed in is queued behind the others, and costs nothing. -/
theorem Enqueued.resident {accepted : Bool} (h : s.Enqueued flowHash nowMs lease claim s' accepted)
    (hidx : s.Resident idx) :
    claim ≠ some idx ∧ s'.Resident idx ∧ (s'.flow idx).deficit = (s.flow idx).deficit := by
  cases h with
  | refuse => exact ⟨by simp, hidx, rfl⟩
  | @full _ j _ _ _ _ hsets =>
    refine ⟨not_claimed hidx.2, ?_⟩
    rw [Resident, listing]
    by_cases hj : idx = j
    · subst hj
      rw [hsets.self]
      exact ⟨hidx, rfl⟩
    · rw [hsets.other hj]
      exact ⟨hidx, rfl⟩
  | @push _ j _ hpushes =>
    have hsets := hpushes.sets
    refine ⟨not_claimed hidx.2, ?_⟩
    rw [Resident, listing]
    by_cases hj : idx = j
    · subst hj
      have hlist : (s.flow idx).list ≠ .none := fun hnone => by cases hidx.1.symm.trans hnone
      rw [hsets.self, pushed, if_neg hlist, if_neg hlist]
      exact ⟨⟨hidx.1, append_ne_nil_of_left_ne_nil hidx.2 _⟩, rfl⟩
    · rw [hsets.other hj]
      exact ⟨hidx, rfl⟩

/-- A packet that is handed in keeps the shares. -/
theorem Shares.enqueue {a : FqCoDelAccount τ} {accepted : Bool} {base : ℕ → ℤ} {i j : ℕ}
    (h : Shares base i j a.scheduler a.slots) (hi : a.scheduler.Resident i)
    (hj : a.scheduler.Resident j)
    (henqueued : a.scheduler.Enqueued flowHash nowMs lease claim s' accepted) :
    Shares base i j s' (a.opened claim s') := by
  -- a slot that was not claimed is as clean as before
  have hlost : ∀ idx, a.scheduler.Resident idx → a.scheduler.Lost a.slots idx →
      s'.Lost (a.opened claim s') idx := by
    intro idx hidx hlost
    right
    have hclean : (a.slots idx).clean = false := hlost.resolve_left hidx.2
    have hclaim := (henqueued.resident hidx).1
    simp [FqCoDelAccount.opened, hclean, hclaim]
  have hbalance : ∀ idx, a.scheduler.Resident idx →
      s'.balance (a.opened claim s') idx = a.scheduler.balance a.slots idx := by
    intro idx hidx
    rw [balance, (henqueued.resident hidx).2.2]
    rfl
  rcases h with hi' | hj' | ⟨-, -, m, n, halternates, hm, hn⟩
  · exact .inl (hlost i hi hi')
  · exact .inr (.inl (hlost j hj hj'))
  · refine .inr (.inr ⟨(henqueued.resident hi).2.1, (henqueued.resident hj).2.1, m, n, ?_, ?_, ?_⟩)
    · rw [henqueued.oldFlows]
      exact halternates
    · rw [hbalance i hi, henqueued.config]
      exact hm
    · rw [hbalance j hj, henqueued.config]
      exact hn

/-! ## What a flow has in hand -/

/-- Packets are of at most `M` bytes, and a flow on a list, of which CoDel dropped nothing,
    has at most a packet and a quantum in hand. -/
structure Solvent (M : ℕ) (s : FqCoDelScheduler τ) (slots : ℕ → SlotAccount) : Prop where
  sizes : ∀ idx, ∀ pkt ∈ (s.flow idx).queue, pkt.lease.size ≤ M
  credit : ∀ idx, (slots idx).clean = true → s.listing idx ≠ .none →
    0 ≤ (s.flow idx).deficit ∧ (s.flow idx).deficit ≤ M + s.config.quantum.toNat

/-- It is enough to look at the slot that changed. -/
theorem Solvent.of_sets {flow : FlowSlot τ} {slots' : ℕ → SlotAccount} (h : Solvent M s slots)
    (hsets : Sets s idx flow s') (hslots : ∀ j ≠ idx, (slots' j).clean = (slots j).clean)
    (hsizes : ∀ pkt ∈ flow.queue, pkt.lease.size ≤ M)
    (hcredit : (slots' idx).clean → flow.list ≠ .none →
      0 ≤ flow.deficit ∧ flow.deficit ≤ M + s.config.quantum.toNat) : Solvent M s' slots' := by
  refine ⟨fun j => ?_, fun j => ?_⟩
  all_goals by_cases hj : j = idx
  · rw [hj, hsets.self]
    exact hsizes
  · rw [hsets.other hj]
    exact h.sizes j
  · rw [listing, hj, hsets.self, hsets.config]
    exact hcredit
  · rw [listing, hsets.other hj, hsets.config, hslots j hj]
    exact h.credit j

/-- A new flow that gets credit had none. -/
theorem Solvent.entitled (h : Solvent M s slots) (hclean : (slots idx).clean)
    (hlist : s.listing idx ≠ .none) (list : FlowList) :
    0 ≤ ((s.flow idx).entitled list s.config).deficit ∧
      ((s.flow idx).entitled list s.config).deficit ≤ M + s.config.quantum.toNat := by
  obtain ⟨hnonneg, hle⟩ := h.credit idx hclean hlist
  rw [FlowSlot.entitled]
  split
  case isTrue hnone =>
    dsimp only [FlowSlot.credit]
    omega
  case isFalse => exact ⟨hnonneg, hle⟩

/-- Visits keep the flows solvent. -/
theorem Solvent.visit (h : Solvent M s slots) (hlisted : s.IsListed)
    (hvisited : Visited nowMs s v s') : Solvent M s' (v.record slots) := by
  have hother : ∀ j ≠ v.slot, (v.record slots j).clean = (slots j).clean :=
    fun j hj => by rw [v.record_of_ne slots hj]
  cases hvisited with
  | release _ _ hsets =>
    exact h.of_sets hsets hother (fun _ hpkt => nomatch hpkt) fun _ hlist => absurd rfl hlist
  | @mature idx _ _ _ _ _ hnew _ hsets =>
    have hsizes := h.sizes idx
    obtain ⟨hq, -⟩ := (s.flow idx).entitled_frame .new s.config
    have hlist : s.listing idx = .new := (Heads.new hnew).listing hlisted
    refine h.of_sets hsets hother ?_ fun hclean _ => ?_
    · exact hq ▸ hsizes
    · rw [FlowVisit.record_self] at hclean
      have hclean : (slots idx).clean = true := (Bool.and_eq_true_iff.1 hclean).1
      exact h.entitled hclean (hlist ▸ nofun) .new
  | @rotate idx front _ _ _ hqueue _ _ _ _ hsets =>
    have hsizes := h.sizes idx
    refine h.of_sets hsets hother hsizes fun hclean hlist => ?_
    rw [FlowVisit.record_self] at hclean
    have hclean : (slots idx).clean = true := (Bool.and_eq_true_iff.1 hclean).1
    have hfront := hsizes front (hqueue ▸ mem_cons_self)
    have hcredit := h.credit idx hclean hlist
    dsimp only [FlowSlot.credit]
    omega
  | @serve idx list _ _ _ _ hqueue _ hserve _ _ _ _ _ hsets =>
    obtain ⟨_, hserved⟩ := FlowSlot.serve_entitled hqueue hserve
    refine h.of_sets hsets hother (fun pkt hpkt => h.sizes idx pkt ?_) fun hclean hlisted' => ?_
    · rw [hserved.queue]
      exact mem_append_right _ hpkt
    · rw [FlowVisit.record_self] at hclean
      obtain ⟨hbefore, hdropped⟩ := Bool.and_eq_true_iff.1 hclean
      have hclean : (slots idx).clean = true := hbefore
      rw [List.isEmpty_iff, List.map_eq_nil_iff] at hdropped
      have hdeficit := (FlowSlot.serve_of_dropped (hserve ▸ hdropped)).2.1
      rw [hserve] at hdeficit
      rw [hserved.list] at hlisted'
      have hentitled := h.entitled hclean hlisted' list
      omega
  | drain _ _ _ _ _ hsets =>
    exact h.of_sets hsets hother (fun _ hpkt => nomatch hpkt) fun _ hlist => absurd rfl hlist

/-- A packet of at most `M` bytes keeps the flows solvent, if no slot is claimed for it that
    is still on a list. -/
theorem Solvent.enqueue {a : FqCoDelAccount τ} {accepted : Bool} (h : Solvent M a.scheduler a.slots)
    (hsize : ∀ l ∈ lease, l.size ≤ M) (hclaim : ∀ idx ∈ claim, a.scheduler.listing idx = .none)
    (henqueued : a.scheduler.Enqueued flowHash nowMs lease claim s' accepted) :
    Solvent M s' (a.opened claim s') := by
  have hclean : ∀ idx, claim ≠ some idx → (a.opened claim s' idx).clean = (a.slots idx).clean :=
    fun idx hidx => by simp [FqCoDelAccount.opened, hidx]
  -- a slot on a list was not claimed
  have hlisted : ∀ idx, a.scheduler.listing idx ≠ .none →
      (a.opened claim s' idx).clean = (a.slots idx).clean :=
    fun idx hlist => hclean idx fun heq => hlist (hclaim idx heq)
  have hcredit : ∀ idx, (a.opened claim s' idx).clean = true →
      a.scheduler.listing idx ≠ .none → 0 ≤ (a.scheduler.flow idx).deficit ∧
        (a.scheduler.flow idx).deficit ≤ M + a.scheduler.config.quantum.toNat :=
    fun idx hidx hlist => h.credit idx (hlisted idx hlist ▸ hidx) hlist
  have hother : ∀ {idx j : ℕ}, j ≠ idx →
      (if (a.scheduler.flow idx).unused then some idx else none) ≠ some j := by
    intro idx j hj heq
    split at heq
    · exact hj (Option.some.inj heq).symm
    · nomatch heq
  cases henqueued with
  | refuse => exact ⟨h.sizes, hcredit⟩
  | @full _ idx _ _ _ _ hsets =>
    exact h.of_sets hsets (fun j hj => hclean j (hother hj)) (h.sizes idx) (hcredit idx)
  | @push lease idx _ hpushes =>
    refine h.of_sets hpushes.sets (fun j hj => hclean j (hother hj)) (fun pkt hpkt => ?_)
      fun hidx _ => ?_
    · rcases mem_append.1 hpkt with hpkt | hpkt
      · exact h.sizes idx pkt hpkt
      · rw [mem_singleton.1 hpkt]
        exact hsize lease rfl
    · rw [pushed]
      dsimp only
      split
      case isTrue => exact ⟨Int.le_refl _, by omega⟩
      case isFalse hlist => exact hcredit idx hidx hlist

theorem solvent_of_unused (hs : ∀ idx, s.flow idx = {}) (slots : ℕ → SlotAccount) :
    Solvent M s slots := by
  refine ⟨fun idx pkt hpkt => ?_, fun idx _ hlist => absurd ?_ hlist⟩
  · rw [hs] at hpkt
    nomatch hpkt
  · rw [listing, hs]

end FqCoDelScheduler

namespace FqCoDelAccount

variable {a₀ a a' : FqCoDelAccount τ} {i j M : ℕ}

/-- The packets that are handed in have at most `M` bytes. -/
def AtMost (M : ℕ) (_ : FqCoDelAccount τ) : FqCoDelCall τ → Prop
  | .enqueue lease _ _ => ∀ l ∈ lease, l.size ≤ M
  | _ => True

instance (a : FqCoDelAccount τ) : (call : FqCoDelCall τ) → Decidable (a.AtMost M call)
  | .enqueue lease _ _ => inferInstanceAs (Decidable (∀ l ∈ lease, l.size ≤ M))
  | .dequeue _ | .reset => .isTrue trivial

/-- No slot is claimed that is still on a list. -/
def ClaimsFree (a : FqCoDelAccount τ) : FqCoDelCall τ → Prop
  | .enqueue lease flowHash _ =>
    ∀ idx ∈ a.scheduler.claimed lease flowHash, a.scheduler.listing idx = .none
  | _ => True

instance (a : FqCoDelAccount τ) : (call : FqCoDelCall τ) → Decidable (a.ClaimsFree call)
  | .enqueue lease flowHash _ => inferInstanceAs (Decidable
      (∀ idx ∈ a.scheduler.claimed lease flowHash, a.scheduler.listing idx = .none))
  | .dequeue _ | .reset => .isTrue trivial

/-- What the calls of a fair run are. -/
def Orderly (M : ℕ) (a : FqCoDelAccount τ) (call : FqCoDelCall τ) : Prop :=
  a.AtMost M call ∧ a.ClaimsFree call

instance (a : FqCoDelAccount τ) (call : FqCoDelCall τ) : Decidable (a.Orderly M call) :=
  inferInstanceAs (Decidable (_ ∧ _))

/-- A sequence of calls that meet `P`, during which the slots `i` and `j` stay on the list of
    old flows with packets queued. -/
inductive Interval (P : FqCoDelAccount τ → FqCoDelCall τ → Prop) (i j : ℕ)
    (a₀ : FqCoDelAccount τ) : FqCoDelAccount τ → Prop
  | start (hi : a₀.scheduler.Resident i) (hj : a₀.scheduler.Resident j) : Interval P i j a₀ a₀
  | step {a a' : FqCoDelAccount τ} {call : FqCoDelCall τ} (h : Interval P i j a₀ a)
      (hcall : P a call) (hstep : a.step call = some a') (hi : a'.scheduler.Resident i)
      (hj : a'.scheduler.Resident j) : Interval P i j a₀ a'

namespace Interval

variable {P : FqCoDelAccount τ → FqCoDelCall τ → Prop} {config : FqCoDelConfig}

theorem resident (h : Interval P i j a₀ a) : a.scheduler.Resident i ∧ a.scheduler.Resident j := by
  cases h with
  | start hi hj | step _ _ _ hi hj => exact ⟨hi, hj⟩

theorem resident_start (h : Interval P i j a₀ a) :
    a₀.scheduler.Resident i ∧ a₀.scheduler.Resident j := by
  induction h with
  | start hi hj => exact ⟨hi, hj⟩
  | step _ _ _ _ _ ih => exact ih

theorem symm (h : Interval P i j a₀ a) : Interval P j i a₀ a := by
  induction h with
  | start hi hj => exact .start hj hi
  | step _ hcall hstep hi hj ih => exact .step ih hcall hstep hj hi

theorem replay {p : FqCoDelAccount τ → FqCoDelCall τ → Bool}
    (hp : ∀ a call, p a call → P a call ∧ ∀ a' ∈ a.step call,
      a'.scheduler.Resident i ∧ a'.scheduler.Resident j) {calls : List (FqCoDelCall τ)}
    (h : Interval P i j a₀ a) (hreplay : replay p calls a = some a') : Interval P i j a₀ a' := by
  induction calls generalizing a with
  | nil =>
    cases hreplay
    exact h
  | cons _ _ ih =>
    rw [FqCoDelAccount.replay, foldlM_cons] at hreplay
    obtain ⟨_, hnext, hrest⟩ := Option.bind_eq_some_iff.1 hreplay
    split at hnext
    case isTrue hcall =>
      obtain ⟨hmeets, hresident⟩ := hp _ _ hcall
      exact ih (.step h hmeets hnext (hresident _ hnext).1 (hresident _ hnext).2) hrest
    case isFalse => cases hnext

theorem reachable (h₀ : a₀.Reachable config P) (h : Interval P i j a₀ a) :
    a.Reachable config P := by
  induction h with
  | start => exact h₀
  | step _ hcall hstep _ _ ih => exact .step ih hcall hstep

/-- A slot from which CoDel dropped nothing was clean at the start. -/
theorem clean (h₀ : a₀.Reachable config P) (h : Interval P i j a₀ a) :
    (a.slots i).clean → (a₀.slots i).clean := by
  induction h with
  | start => exact id
  | @step a _ call h _ hstep hi _ ih =>
    cases call with
    | enqueue lease flowHash nowMs =>
      cases hstep
      have hclaim := ((a.scheduler.enqueued lease flowHash nowMs).resident h.resident.1).1
      simpa [FqCoDelAccount.opened, hclaim] using ih
    | dequeue nowMs =>
      obtain ⟨_, hd, rfl⟩ := Option.map_eq_some_iff.1 hstep
      have hlisted := (h.reachable h₀).listed.1
      have hvisit : ∀ {s s' : FqCoDelScheduler τ} {v : FlowVisit τ} {slots : ℕ → SlotAccount},
          ((slots i).clean = true → (a₀.slots i).clean = true) → s.Visited nowMs v s' →
          (v.record slots i).clean = true → (a₀.slots i).clean = true := by
        intro s s' v slots hclean _ hrecord
        by_cases hi : i = v.slot
        · subst hi
          rw [v.record_self] at hrecord
          exact hclean (Bool.and_eq_true_iff.1 hrecord).1
        · rw [v.record_of_ne slots hi] at hrecord
          exact hclean hrecord
      exact (visiting_dequeue hlisted hd).1.post
        (J := fun _ slots => (slots i).clean = true → (a₀.slots i).clean = true)
        (I := fun _ slots => (slots i).clean = true → (a₀.slots i).clean = true)
        (fun _ hclean hvisited _ => hvisit hclean hvisited)
        (fun _ hclean hvisited => hvisit hclean hvisited) id hlisted ih
    | reset =>
      cases hstep
      exact ih

/-- Two slots share, from a moment at which the first of them is before the other. -/
theorem shares (h₀ : a₀.Reachable config P) (h : Interval P i j a₀ a)
    (horder : RoundRobin.Alternates i j 0 0 a₀.scheduler.oldFlows) :
    a.scheduler.Shares (a₀.scheduler.balance a₀.slots) i j a.slots := by
  induction h with
  | start hi hj => exact .inr (.inr ⟨hi, hj, 0, 0, horder, by simp, by simp⟩)
  | @step a _ call h _ hstep hi _ ih =>
    have hlisted := (h.reachable h₀).listed.1
    cases call with
    | enqueue lease flowHash nowMs =>
      cases hstep
      exact ih.enqueue h.resident.1 h.resident.2 (a.scheduler.enqueued lease flowHash nowMs)
    | dequeue =>
      obtain ⟨_, hd, rfl⟩ := Option.map_eq_some_iff.1 hstep
      exact (visiting_dequeue hlisted hd).1.post
        (fun hlisted hshares hvisited _ => hshares.visit hlisted hvisited)
        (fun hlisted hshares hvisited => hshares.visit hlisted hvisited) id hlisted ih
    | reset =>
      cases hstep
      rw [FqCoDelScheduler.Resident, flow_of_unused a.scheduler.eq_of_mem_reset] at hi
      exact absurd rfl hi.2

end Interval

theorem Reachable.solvent {config : FqCoDelConfig} (h : a.Reachable config (Orderly M)) :
    a.scheduler.Solvent M a.slots :=
  h.invariant (J := fun _ s slots => s.Solvent M slots)
    (solvent_of_unused (flow_of_unused fun _ => eq_of_mem_replicate) _)
    (fun _ _ hsolvent hcall henqueued => hsolvent.enqueue hcall.1 hcall.2 henqueued)
    (fun _ hsolvent _ => hsolvent)
    (fun hlisted hsolvent hvisited _ => hsolvent.visit hlisted hvisited)
    (fun hlisted hsolvent hvisited => hsolvent.visit hlisted hvisited) id
    (fun _ => solvent_of_unused (flow_of_unused (eq_of_mem_reset _)) _)

end FqCoDelAccount

section

variable {config : FqCoDelConfig} {a₀ a : FqCoDelAccount τ} {i j M : ℕ}

/-- What was returned from a slot since. -/
def FqCoDelAccount.since (a₀ a : FqCoDelAccount τ) (idx : ℕ) : ℤ :=
  (a.slots idx).given - (a₀.slots idx).given

/-- Two slots of which the first was before the other. -/
theorem FqCoDelAccount.Interval.spread (h₀ : a₀.Reachable config (Orderly M))
    (h : a₀.Interval (Orderly M) i j a) (hi : (a.slots i).clean) (hj : (a.slots j).clean)
    (horder : RoundRobin.Alternates i j 0 0 a₀.scheduler.oldFlows) :
    (a₀.since a i - a₀.since a j).natAbs ≤ 3 * config.quantum.toNat + 2 * M := by
  have hreach := h.reachable h₀
  have hconfig : a₀.scheduler.config = config := h₀.listed.2
  have hconfig' : a.scheduler.config = config := hreach.listed.2
  have hresident := h.resident_start
  rcases h.shares h₀ horder with hlost | hlost | ⟨hi', hj', m, n, halternates, hm, hn⟩
  · exact absurd hlost (not_or.2 ⟨h.resident.1.2, by rw [hi]; exact nofun⟩)
  · exact absurd hlost (not_or.2 ⟨h.resident.2.2, by rw [hj]; exact nofun⟩)
  · have hlisted : ∀ {a : FqCoDelAccount τ} {idx : ℕ}, a.scheduler.Resident idx →
        a.scheduler.listing idx ≠ .none := fun hidx hnone => nomatch hidx.1.symm.trans hnone
    -- what the two have in hand at the start and at the end
    have hi₀ := h₀.solvent.credit i (h.clean h₀ hi) (hlisted hresident.1)
    have hj₀ := h₀.solvent.credit j (h.symm.clean h₀ hj) (hlisted hresident.2)
    have hi₁ := hreach.solvent.credit i hi (hlisted hi')
    have hj₁ := hreach.solvent.credit j hj (hlisted hj')
    rw [hconfig] at hi₀ hj₀
    rw [hconfig'] at hi₁ hj₁ hm hn
    -- the quanta that they got differ by one at most
    have hquanta : (m : ℤ) * config.quantum.toNat = n * config.quantum.toNat ∨
        (m : ℤ) * config.quantum.toNat = n * config.quantum.toNat + config.quantum.toNat := by
      rcases halternates.ahead with rfl | rfl
      · exact .inl rfl
      · right
        push_cast
        ring
    rw [balance, balance] at hm hn
    rw [FqCoDelAccount.since, FqCoDelAccount.since]
    omega

/-- In every run of packets of at most `M` bytes, in which no slot is claimed that is still on
    a list: two slots that stay on the list of old flows with packets queued, and from which
    CoDel has dropped nothing since they were claimed, are given the same, up to three quanta
    and two packets. -/
theorem drr_fair (h₀ : a₀.Reachable config (FqCoDelAccount.Orderly M))
    (h : a₀.Interval (FqCoDelAccount.Orderly M) i j a) (hi : (a.slots i).clean = true)
    (hj : (a.slots j).clean = true) :
    (a₀.since a i - a₀.since a j).natAbs ≤ 3 * config.quantum.toNat + 2 * M := by
  by_cases hij : i = j
  · rw [hij, Int.sub_self]
    exact Nat.zero_le _
  · have hold := h₀.listed.1.old
    obtain ⟨hi₀, hj₀⟩ := h.resident_start
    rcases RoundRobin.alternates_or ((hold i).2 hi₀.1) ((hold j).2 hj₀.1) hij with horder | horder
    · exact h.spread h₀ hi hj horder
    · rw [← Int.natAbs_neg, Int.neg_sub]
      exact h.symm.spread h₀ hj hi horder

end

namespace FqCoDelAccount

variable {p : FqCoDelAccount τ → FqCoDelCall τ → Bool}
  {P : FqCoDelAccount τ → FqCoDelCall τ → Prop} {i j : ℕ}

/-- A call after which both slots stay on the list. -/
def stays (p : FqCoDelAccount τ → FqCoDelCall τ → Bool) (i j : ℕ) (a : FqCoDelAccount τ)
    (call : FqCoDelCall τ) : Bool :=
  p a call && (a.step call).all fun a' => a'.scheduler.Resident i && a'.scheduler.Resident j

theorem stays_spec (hp : ∀ a call, p a call → P a call) (a : FqCoDelAccount τ)
    (call : FqCoDelCall τ) (h : stays p i j a call) :
    P a call ∧ ∀ a' ∈ a.step call, a'.scheduler.Resident i ∧ a'.scheduler.Resident j := by
  obtain ⟨hcall, hall⟩ := Bool.and_eq_true_iff.1 h
  refine ⟨hp a call hcall, fun a' ha' => ?_⟩
  rw [Option.mem_def.1 ha', Option.all_some] at hall
  simpa using hall

/-- What a replay shows of an interval. -/
theorem exists_interval (config : FqCoDelConfig) (before during : List (FqCoDelCall τ))
    (shows : FqCoDelAccount τ → FqCoDelAccount τ → Bool) (hp : ∀ a call, p a call → P a call)
    (h : ((new config).replay p before).any (fun a₀ =>
      a₀.scheduler.Resident i && a₀.scheduler.Resident j &&
        (a₀.replay (stays p i j) during).any (shows a₀))) :
    ∃ a₀ a, a₀.Reachable config P ∧ a₀.Interval P i j a ∧ shows a₀ a := by
  obtain ⟨a₀, hbefore, hrun⟩ := (Option.any_eq_true ..).1 h
  obtain ⟨hresident, hrun⟩ := Bool.and_eq_true_iff.1 hrun
  obtain ⟨a, hduring, hshows⟩ := (Option.any_eq_true ..).1 hrun
  simp only [Bool.and_eq_true, decide_eq_true_eq] at hresident
  exact ⟨a₀, a, Reachable.new.replay hp hbefore,
    (Interval.start hresident.1 hresident.2).replay (stays_spec hp) hduring, hshows⟩

end FqCoDelAccount

/-- A packet of so many bytes. -/
def packetOf (bytes : ℕ) : Option (BufferLease ℕ) := some ⟨bytes, List.replicate bytes 0⟩

/-- Two flows with three packets each. -/
def twoFlows : List (FqCoDelCall ℕ) :=
  List.replicate 3 (.enqueue (packetOf 5) 1 0) ++ List.replicate 3 (.enqueue (packetOf 5) 7 0) ++
    [.dequeue 0]

theorem drr_fair_twoFlows :
    ∃ a₀ a : FqCoDelAccount ℕ, a₀.Reachable { quantum := 3 } (FqCoDelAccount.Orderly 5) ∧
      a₀.Interval (FqCoDelAccount.Orderly 5) 1 7 a ∧ a₀.since a 1 = 5 ∧ a₀.since a 7 = 10 ∧
      (a₀.since a 1 - a₀.since a 7).natAbs ≤ 3 * 3 + 2 * 5 := by
  obtain ⟨a₀, a, hreach, hinterval, hshows⟩ := FqCoDelAccount.exists_interval
    (p := fun a call => a.Orderly 5 call) (P := FqCoDelAccount.Orderly 5) (i := 1) (j := 7)
    { quantum := 3 } twoFlows (List.replicate 3 (.dequeue 0))
    (fun a₀ a => (a.slots 1).clean && (a.slots 7).clean && a₀.since a 1 = 5 && a₀.since a 7 = 10)
    (fun a call => of_decide_eq_true) (by decide +kernel)
  simp only [Bool.and_eq_true, decide_eq_true_eq] at hshows
  obtain ⟨⟨⟨hclean, hclean'⟩, hone⟩, hseven⟩ := hshows
  exact ⟨a₀, a, hreach, hinterval, hone, hseven, drr_fair hreach hinterval hclean hclean'⟩

/-- A scheduler that drops early, with a small quantum. -/
def miserly : FqCoDelConfig := { intervalMs := 1, targetMs := 0, quantum := 1 }

/-- The flow with the hash 0 loses a packet and gives its last one, in debt; its slot, which
    looks unused, is claimed for another flow. -/
def inherited : List (FqCoDelCall ℕ) :=
  [.enqueue (packetOf 5) 0 0, .enqueue (packetOf 4) 0 0, .enqueue (packetOf 5) 0 0, .dequeue 1,
    .enqueue (packetOf 5) 7 2] ++ List.replicate 10 (.enqueue (packetOf 1) 7 2) ++
  [.dequeue 2, .enqueue (packetOf 5) 64 3]

/-- The flow that inherits the debt waits until it is paid. -/
theorem drr_unfair :
    ∃ a₀ a : FqCoDelAccount ℕ, a₀.Reachable miserly (FqCoDelAccount.AtMost 5) ∧
      a₀.Interval (FqCoDelAccount.AtMost 5) 0 7 a ∧ (a.slots 0).clean = true ∧
      (a.slots 7).clean = true ∧
      3 * miserly.quantum.toNat + 2 * 5 < (a₀.since a 0 - a₀.since a 7).natAbs := by
  obtain ⟨a₀, a, hreach, hinterval, hshows⟩ := FqCoDelAccount.exists_interval
    (p := fun a call => a.AtMost 5 call) (P := FqCoDelAccount.AtMost 5) (i := 0) (j := 7)
    miserly inherited (List.replicate 10 (.dequeue 3))
    (fun a₀ a => (a.slots 0).clean && (a.slots 7).clean &&
      3 * miserly.quantum.toNat + 2 * 5 < (a₀.since a 0 - a₀.since a 7).natAbs)
    (fun a call => of_decide_eq_true) (by decide +kernel)
  simp only [Bool.and_eq_true, decide_eq_true_eq] at hshows
  exact ⟨a₀, a, hreach, hinterval, hshows.1.1, hshows.1.2, hshows.2⟩

end Netstack2
