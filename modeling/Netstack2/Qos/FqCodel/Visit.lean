import Netstack2.Qos.FqCodel.Ledger

/-!
# The account of a run

For each slot, what the visits of `dequeue` gave and dropped (`FqCoDelAccount`), and what
holds of it in every run (`FqCoDelAccount.Reachable.invariant`).
-/

namespace Netstack2

variable {τ : Type}

namespace FlowSlot

variable {flow : FlowSlot τ} {front : QueuedPacket τ} {tail : List (QueuedPacket τ)}
  {config : FqCoDelConfig} {nowMs : UInt64}

/-- CoDel would drop the packet at the head of the queue. -/
def dropsNext (flow : FlowSlot τ) (config : FqCoDelConfig) (nowMs : UInt64) : Bool :=
  match flow.queue with
  | [] => false
  | pkt :: _ =>
    let sojourn := if pkt.enqueueTimeMs ≤ nowMs then nowMs - pkt.enqueueTimeMs else 0
    (flow.codelShouldDrop config sojourn nowMs).1 &&
      (if config.ecnCeMarking then markCe pkt.lease.data else none).isNone

/-- CoDel does not look at the queue or the credit. -/
theorem codelShouldDrop_popped (flow : FlowSlot τ) (queue : List (QueuedPacket τ)) (bytes : ℕ)
    (deficit : ℤ) (sojourn : UInt64) :
    (codelShouldDrop { flow with queue := queue, queueBytes := bytes, deficit := deficit } config
      sojourn nowMs).1 = (flow.codelShouldDrop config sojourn nowMs).1 := by
  rw [codelShouldDrop, codelShouldDrop]
  dsimp only
  split_ifs
  all_goals rfl

theorem dropsNext_entitled (flow : FlowSlot τ) (list : FlowList) :
    (flow.entitled list config).dropsNext config nowMs = flow.dropsNext config nowMs := by
  rw [entitled]
  split
  · rw [dropsNext, dropsNext, credit]
    cases hqueue : flow.queue with
    | nil => rfl
    | cons =>
      dsimp only
      rw [codelShouldDrop_popped]
  · rfl

theorem codelShouldDrop_deficit (flow : FlowSlot τ) (sojourn : UInt64) :
    (flow.codelShouldDrop config sojourn nowMs).2.deficit = flow.deficit := by
  rw [codelShouldDrop]
  dsimp only
  split_ifs
  all_goals rfl

/-- Serving a flow drops a packet just if CoDel would drop the one at the head. -/
theorem serve_dropped_iff (hqueue : flow.queue = front :: tail) :
    (serve config nowMs (front :: tail) flow).dropped = [] ↔
      flow.dropsNext config nowMs = false := by
  rw [serve, dropsNext, hqueue]
  dsimp only
  rw [codelShouldDrop_popped]
  generalize (if front.enqueueTimeMs ≤ nowMs then nowMs - front.enqueueTimeMs else 0) = sojourn
  split
  case isTrue hkeep => simp [hkeep]
  case isFalse hdrop =>
    rw [Bool.not_eq_false] at hdrop
    rw [hdrop, Bool.true_and]
    cases (if config.ecnCeMarking then markCe front.lease.data else none) with
    | none | some => simp

/-- Where nothing is dropped, the packet at the head is given and paid for. -/
theorem serve_of_dropped (hdropped : (serve config nowMs (front :: tail) flow).dropped = []) :
    (∃ out, (serve config nowMs (front :: tail) flow).packet = some out ∧
        out.lease.size = front.lease.size) ∧
      (serve config nowMs (front :: tail) flow).flow.deficit =
        flow.deficit - front.lease.size ∧
      (serve config nowMs (front :: tail) flow).flow.queue = tail := by
  rw [serve] at hdropped ⊢
  generalize (if front.enqueueTimeMs ≤ nowMs then nowMs - front.enqueueTimeMs else 0) = sojourn
    at hdropped ⊢
  split
  case isTrue hkeep =>
    exact ⟨⟨_, rfl, rfl⟩, codelShouldDrop_deficit .., (codelShouldDrop_frame ..).1⟩
  case isFalse hdrop =>
    rw [if_neg hdrop] at hdropped
    cases hmark : (if config.ecnCeMarking then markCe front.lease.data else none) with
    | none => simp [hmark] at hdropped
    | some data =>
      have hce : markCe front.lease.data = some data := by
        split at hmark
        · exact hmark
        · cases hmark
      exact ⟨⟨_, rfl, (markCe_marked hce).length⟩, codelShouldDrop_deficit ..,
        (codelShouldDrop_frame ..).1⟩

end FlowSlot

/-- The bytes that the visit gave. -/
def FlowVisit.bytes (v : FlowVisit τ) : ℕ := (v.packet.map (·.lease.size)).getD 0

/-! ## The account of a run -/

/-- What is known of a slot: the bytes given while it was last on the list of new flows,
    the bytes given in all, and whether CoDel dropped no packet since it was claimed. -/
structure SlotAccount where
  stay : ℕ := 0
  given : ℕ := 0
  clean : Bool := true

/-- The accounts after a visit. -/
def FlowVisit.record (accounts : ℕ → SlotAccount) (v : FlowVisit τ) : ℕ → SlotAccount :=
  Function.update accounts v.slot
    { stay := (accounts v.slot).stay + if v.list = .new then v.bytes else 0
      given := (accounts v.slot).given + v.bytes
      clean := (accounts v.slot).clean && v.dropped.isEmpty }

theorem FlowVisit.record_self (v : FlowVisit τ) (accounts : ℕ → SlotAccount) :
    v.record accounts v.slot =
      { stay := (accounts v.slot).stay + if v.list = .new then v.bytes else 0
        given := (accounts v.slot).given + v.bytes
        clean := (accounts v.slot).clean && v.dropped.isEmpty } :=
  Function.update_self ..

theorem FlowVisit.record_of_ne (v : FlowVisit τ) (accounts : ℕ → SlotAccount) {idx : ℕ}
    (h : idx ≠ v.slot) : v.record accounts idx = accounts idx :=
  Function.update_of_ne h ..

/-- The loops of `dequeue`: `J` holds before every visit, and `I` at the end. -/
theorem FqCoDelScheduler.Visiting.post {nowMs : UInt64}
    {J I : FqCoDelScheduler τ → (ℕ → SlotAccount) → Prop}
    (hagain : ∀ {s s' : FqCoDelScheduler τ} {v : FlowVisit τ} {slots : ℕ → SlotAccount},
      s.IsListed → J s slots → Visited nowMs s v s' → v.packet = none → J s' (v.record slots))
    (hlast : ∀ {s s' : FqCoDelScheduler τ} {v : FlowVisit τ} {slots : ℕ → SlotAccount},
      s.IsListed → J s slots → Visited nowMs s v s' → I s' (v.record slots))
    (hend : ∀ {s : FqCoDelScheduler τ} {slots : ℕ → SlotAccount}, J s slots → I s slots)
    {s : FqCoDelScheduler τ} {vs : List (FlowVisit τ)} {d : Dequeued τ} (h : Visiting nowMs s vs d) :
    ∀ {slots : ℕ → SlotAccount}, s.IsListed → J s slots →
      I d.scheduler (vs.foldl FlowVisit.record slots) := by
  induction h with
  | nil => exact fun _ hJ => hend hJ
  | last hvisited => exact fun hlisted hJ => hlast hlisted hJ hvisited
  | cons hvisited hnone _ ih =>
    exact fun hlisted hJ => ih (hvisited.listed hlisted) (hagain hlisted hJ hvisited hnone)

/-- A scheduler with the accounts of its slots. -/
structure FqCoDelAccount (τ : Type) where
  scheduler : FqCoDelScheduler τ
  slots : ℕ → SlotAccount := fun _ => {}

namespace FqCoDelAccount

variable {a a' : FqCoDelAccount τ}

def new (config : FqCoDelConfig) : FqCoDelAccount τ := { scheduler := .new config }

/-- The accounts after `enqueue`: a slot that was claimed is clean, and the stay of one that
    is put on the list of new flows begins. -/
def opened (a : FqCoDelAccount τ) (claim : Option ℕ) (s' : FqCoDelScheduler τ) (idx : ℕ) :
    SlotAccount :=
  { stay := if s'.listing idx = .new ∧ a.scheduler.listing idx ≠ .new then 0
      else (a.slots idx).stay
    given := (a.slots idx).given
    clean := (a.slots idx).clean || claim = some idx }

/-- One call; `none` if it does not return. -/
def step (a : FqCoDelAccount τ) : FqCoDelCall τ → Option (FqCoDelAccount τ)
  | .enqueue lease flowHash nowMs =>
    let s' := (a.scheduler.enqueue lease flowHash nowMs).1
    some { scheduler := s', slots := a.opened (a.scheduler.claimed lease flowHash) s' }
  | .dequeue nowMs =>
    (a.scheduler.dequeue nowMs).map fun d =>
      { scheduler := d.scheduler
        slots := (a.scheduler.visits nowMs).foldl FlowVisit.record a.slots }
  | .reset => some { a with scheduler := a.scheduler.reset }

/-- The states of a scheduler whose calls all meet `P`. -/
inductive Reachable (config : FqCoDelConfig) (P : FqCoDelAccount τ → FqCoDelCall τ → Prop) :
    FqCoDelAccount τ → Prop
  | new : Reachable config P (new config)
  | step {a a' : FqCoDelAccount τ} {call : FqCoDelCall τ} (h : Reachable config P a)
      (hcall : P a call) (hstep : a.step call = some a') : Reachable config P a'

/-- Calls one after another, as long as they meet `p`. -/
def replay (p : FqCoDelAccount τ → FqCoDelCall τ → Bool) (calls : List (FqCoDelCall τ))
    (a : FqCoDelAccount τ) : Option (FqCoDelAccount τ) :=
  calls.foldlM (fun a call => if p a call then a.step call else none) a

section

variable {config : FqCoDelConfig} {P : FqCoDelAccount τ → FqCoDelCall τ → Prop}

theorem Reachable.replay {p : FqCoDelAccount τ → FqCoDelCall τ → Bool}
    (hp : ∀ a call, p a call → P a call) {calls : List (FqCoDelCall τ)}
    (h : Reachable config P a) (hreplay : replay p calls a = some a') : Reachable config P a' := by
  induction calls generalizing a with
  | nil =>
    cases hreplay
    exact h
  | cons _ _ ih =>
    rw [FqCoDelAccount.replay, List.foldlM_cons] at hreplay
    obtain ⟨_, hnext, hrest⟩ := Option.bind_eq_some_iff.1 hreplay
    split at hnext
    case isTrue hcall => exact ih (.step h (hp _ _ hcall) hnext) hrest
    case isFalse => nomatch hnext

/-- The lists are in order, and the configuration is never changed. -/
theorem Reachable.listed (h : Reachable config P a) :
    a.scheduler.IsListed ∧
      a.scheduler.config = config := by
  induction h with
  | new => exact ⟨(FqCoDelScheduler.wellFormed_new config).listed, rfl⟩
  | @step a _ call _ _ hstep ih =>
    obtain ⟨hlisted, hconfig⟩ := ih
    cases call with
    | enqueue lease flowHash nowMs =>
      cases hstep
      have henqueued := a.scheduler.enqueued lease flowHash nowMs
      exact ⟨henqueued.listed hlisted, henqueued.config.trans hconfig⟩
    | dequeue =>
      obtain ⟨_, hd, rfl⟩ := Option.map_eq_some_iff.1 hstep
      obtain ⟨hvisiting, -⟩ := FqCoDelScheduler.visiting_dequeue hlisted hd
      exact ⟨hvisiting.listed hlisted, hvisiting.config.trans hconfig⟩
    | reset =>
      cases hstep
      exact ⟨a.scheduler.wellFormed_reset.listed, hconfig⟩

/-- What holds at the start, and is kept by every call, holds in every state reached. The
    loops of `dequeue` keep `J` until they give a packet. -/
theorem Reachable.invariant {I : FqCoDelScheduler τ → (ℕ → SlotAccount) → Prop}
    {J : UInt64 → FqCoDelScheduler τ → (ℕ → SlotAccount) → Prop}
    (hnew : I (.new config) fun _ => {})
    (henqueue : ∀ {a : FqCoDelAccount τ} {lease : Option (BufferLease τ)} {flowHash : UInt32}
      {nowMs : UInt64} {s' : FqCoDelScheduler τ} {accepted : Bool}, a.scheduler.IsListed →
      a.scheduler.config = config → I a.scheduler a.slots → P a (.enqueue lease flowHash nowMs) →
      a.scheduler.Enqueued flowHash nowMs lease (a.scheduler.claimed lease flowHash) s' accepted →
      I s' (a.opened (a.scheduler.claimed lease flowHash) s'))
    (hstart : ∀ {a : FqCoDelAccount τ} {nowMs : UInt64}, a.scheduler.config = config →
      I a.scheduler a.slots → P a (.dequeue nowMs) → J nowMs a.scheduler a.slots)
    (hagain : ∀ {nowMs : UInt64} {s s' : FqCoDelScheduler τ} {v : FlowVisit τ}
      {slots : ℕ → SlotAccount}, s.IsListed → J nowMs s slots → s.Visited nowMs v s' →
      v.packet = none → J nowMs s' (v.record slots))
    (hlast : ∀ {nowMs : UInt64} {s s' : FqCoDelScheduler τ} {v : FlowVisit τ}
      {slots : ℕ → SlotAccount}, s.IsListed → J nowMs s slots → s.Visited nowMs v s' →
      I s' (v.record slots))
    (hend : ∀ {nowMs : UInt64} {s : FqCoDelScheduler τ} {slots : ℕ → SlotAccount},
      J nowMs s slots → I s slots)
    (hreset : ∀ {a : FqCoDelAccount τ}, I a.scheduler a.slots → I a.scheduler.reset a.slots)
    (h : Reachable config P a) : I a.scheduler a.slots := by
  induction h with
  | new => exact hnew
  | @step a _ call h hcall hstep ih =>
    obtain ⟨hlisted, hconfig⟩ := h.listed
    cases call with
    | enqueue lease flowHash nowMs =>
      cases hstep
      exact henqueue hlisted hconfig ih hcall (a.scheduler.enqueued lease flowHash nowMs)
    | dequeue =>
      obtain ⟨_, hd, rfl⟩ := Option.map_eq_some_iff.1 hstep
      exact (FqCoDelScheduler.visiting_dequeue hlisted hd).1.post hagain hlast hend hlisted
        (hstart hconfig ih hcall)
    | reset =>
      cases hstep
      exact hreset ih

end

end FqCoDelAccount

end Netstack2
