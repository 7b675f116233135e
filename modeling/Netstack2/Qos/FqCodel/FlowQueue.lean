import Netstack2.Lib.Fifo

/-!
# The queue of a flow

The packets of a flow wait in a ring that grows when it is full and keeps its slots
when it drains. It *refines* the list of its packets (`FlowQueue.Holds`), which is all
that the scheduler knows of it: whatever is done to it, as long as nothing is taken from
an empty queue, the packets come out as they do from the list (`flowQueue_refines_list`).
-/

namespace Netstack2

open List

/-- `FqCoDelScheduler::FlowQueue`. -/
structure FlowQueue (α : Type) where
  slots : List α := []
  head : ℕ := 0
  count : ℕ := 0

variable {α : Type}

namespace FlowQueue

section

variable (q : FlowQueue α)

def empty : Bool := q.count = 0

def size : ℕ := q.count

/-- There is no slot to read in a queue that was never filled. -/
def front : Option α := q.slots[q.head]?

variable [Inhabited α]

/-- `Grow`: the packets move to the first slots of a larger ring. -/
def grow : FlowQueue α :=
  let newCap := if q.slots.isEmpty then 8 else q.slots.length * 2
  { q with
    slots := (range q.count).map (fun i => q.slots.getD ((q.head + i) % q.slots.length) default) ++
      replicate (newCap - q.count) default
    head := 0 }

def pushBack (pkt : α) : FlowQueue α :=
  let q := if q.count = q.slots.length then q.grow else q
  { q with
    slots := q.slots.set ((q.head + q.count) % q.slots.length) pkt
    count := q.count + 1 }

/-- The first slot is emptied, and the next one is the first. -/
def release : FlowQueue α where
  slots := q.slots.set q.head default
  head := (q.head + 1) % q.slots.length
  count := q.count - 1

def popFront : Option (α × FlowQueue α) := q.front.map fun out => (out, q.release)

def releaseAll : ℕ → FlowQueue α → FlowQueue α
  | 0, q => q
  | n + 1, q => releaseAll n q.release

def clear : FlowQueue α := { releaseAll q.count q with head := 0 }

end

/-! ## The list it holds -/

/-- The packets in the ring, from the head on. -/
structure Holds (q : FlowQueue α) (l : List α) : Prop where
  rings : Rings q.slots q.head l
  head : q.head % q.slots.length = q.head
  count : q.count = l.length

variable {q : FlowQueue α} {l : List α} {pkt : α}

namespace Holds

theorem new : Holds ({} : FlowQueue α) [] := ⟨.nil .., rfl, rfl⟩

theorem front (h : q.Holds (pkt :: l)) : q.front = some pkt := by
  rw [FlowQueue.front, ← h.head]
  exact h.rings.head

variable [Inhabited α]

section

variable (h : q.Holds l)

include h

theorem grow (hfull : q.count = q.slots.length) :
    q.grow.Holds l ∧ l.length < q.grow.slots.length := by
  have hcount := h.count
  have hcap : q.count < if q.slots.isEmpty then 8 else q.slots.length * 2 := by
    split
    case isTrue hempty =>
      rw [hfull, List.isEmpty_iff.1 hempty]
      exact Nat.succ_pos 7
    case isFalse hne =>
      have := length_pos_iff.2 fun hnil => hne (List.isEmpty_iff.2 hnil)
      omega
  have hlength : q.grow.slots.length = if q.slots.isEmpty then 8 else q.slots.length * 2 := by
    simp only [FlowQueue.grow, length_append, length_map, length_range, length_replicate]
    omega
  refine ⟨⟨⟨by omega, fun {i a} hi => ?_⟩, Nat.zero_mod _, hcount⟩, by omega⟩
  obtain ⟨hlt, -⟩ := List.getElem?_eq_some_iff.1 hi
  rw [show q.grow.head = 0 from rfl, Nat.zero_add, Nat.mod_eq_of_lt (by omega), FlowQueue.grow,
    getElem?_append_left (by simpa [hcount]), getElem?_map,
    List.getElem?_range (by omega)]
  simp [h.rings.slot hi]

theorem pushBack (pkt : α) : (q.pushBack pkt).Holds (l ++ [pkt]) := by
  -- the ring has room, at once or after it has grown
  have hpush : ∀ {q : FlowQueue α}, q.Holds l → l.length < q.slots.length →
      Holds { q with
        slots := q.slots.set ((q.head + q.count) % q.slots.length) pkt
        count := q.count + 1 } (l ++ [pkt]) := by
    intro q h hroom
    refine ⟨?_, by rw [length_set]; exact h.head, by rw [length_append, h.count]; rfl⟩
    rw [h.count]
    exact h.rings.push hroom
  rw [FlowQueue.pushBack]
  split
  case isTrue hfull =>
    obtain ⟨hgrow, hroom⟩ := h.grow hfull
    exact hpush hgrow hroom
  case isFalse hroom =>
    have hfits := h.rings.fits
    have hcount := h.count
    exact hpush h (by omega)

end

theorem release (h : q.Holds (pkt :: l)) : q.release.Holds l := by
  refine ⟨?_, by simp [FlowQueue.release], by simp [FlowQueue.release, h.count]⟩
  have hpop := h.rings.pop default
  rw [h.head] at hpop
  exact hpop.congr (by simp [FlowQueue.release])

theorem clear (h : q.Holds l) : q.clear.Holds [] := by
  suffices hall : (releaseAll q.count q).count = 0 from ⟨.nil .., Nat.zero_mod _, hall⟩
  rw [h.count]
  induction l generalizing q with
  | nil => exact h.count
  | cons pkt l ih => exact ih h.release

end Holds

end FlowQueue

/-! ## Runs -/

variable [Inhabited α]

/-- A call of the queue. -/
inductive FlowOp (α : Type)
  | pushBack (pkt : α)
  | front
  | popFront
  | clear

namespace FlowOp

/-- What a call does to the queue, and the packet it returns. -/
def onQueue (q : FlowQueue α) : FlowOp α → Option (FlowQueue α × Option α)
  | pushBack pkt => some (q.pushBack pkt, none)
  | front => q.front.map fun pkt => (q, some pkt)
  | popFront => q.popFront.map fun (pkt, q) => (q, some pkt)
  | clear => some (q.clear, none)

/-- The same on a list. A packet is taken from a list that is not empty. -/
def onList (l : List α) : FlowOp α → Option (List α × Option α)
  | pushBack pkt => some (l ++ [pkt], none)
  | front => l.head?.map fun pkt => (l, some pkt)
  | popFront => l.head?.map fun pkt => (l.tail, some pkt)
  | clear => some ([], none)

/-- The packets that a list of calls returns, and the state it ends in. -/
def run {σ : Type} (step : σ → FlowOp α → Option (σ × Option α)) :
    List (FlowOp α) → σ → Option (σ × List (Option α))
  | [], s => some (s, [])
  | op :: ops, s => (step s op).bind fun (s, r) => (run step ops s).map fun (s, rs) => (s, r :: rs)

/-- Each call of the queue does what the call of the list does. -/
theorem onQueue_eq {q : FlowQueue α} {l l' : List α} {r : Option α} {op : FlowOp α} (h : q.Holds l)
    (hl : op.onList l = some (l', r)) : ∃ q', op.onQueue q = some (q', r) ∧ q'.Holds l' := by
  cases op with
  | pushBack pkt =>
    cases hl
    exact ⟨_, rfl, h.pushBack pkt⟩
  | clear =>
    cases hl
    exact ⟨_, rfl, h.clear⟩
  | front =>
    cases l with
    | nil => cases hl
    | cons pkt l =>
      cases hl
      exact ⟨q, by rw [onQueue, h.front]; rfl, h⟩
  | popFront =>
    cases l with
    | nil => cases hl
    | cons pkt l =>
      cases hl
      exact ⟨_, by rw [onQueue, FlowQueue.popFront, h.front]; rfl, h.release⟩

theorem run_eq {ops : List (FlowOp α)} {q : FlowQueue α} {l l' : List α} {rs : List (Option α)}
    (h : q.Holds l) (hl : run onList ops l = some (l', rs)) :
    ∃ q', run onQueue ops q = some (q', rs) ∧ q'.Holds l' := by
  induction ops generalizing q l rs with
  | nil =>
    cases hl
    exact ⟨q, rfl, h⟩
  | cons op ops ih =>
    rw [run, Option.bind_eq_some_iff] at hl
    obtain ⟨⟨l₁, r⟩, hop, hl⟩ := hl
    obtain ⟨⟨l₂, rs'⟩, hrest, heq⟩ := Option.map_eq_some_iff.1 hl
    cases heq
    obtain ⟨q₁, hq₁, h₁⟩ := onQueue_eq h hop
    obtain ⟨q', hq', h'⟩ := ih h₁ hrest
    exact ⟨q', by simp only [run, hq₁, Option.bind_some, hq', Option.map_some], h'⟩

end FlowOp

/-- A queue that is never read when it is empty behaves like the list of its packets: it returns
    the same packets, and its size is the length of the list. -/
theorem flowQueue_refines_list {ops : List (FlowOp α)} {l : List α} {rs : List (Option α)}
    (h : FlowOp.run FlowOp.onList ops [] = some (l, rs)) :
    ∃ q, FlowOp.run FlowOp.onQueue ops ({} : FlowQueue α) = some (q, rs) ∧ q.size = l.length ∧
      (q.empty = true ↔ l = []) ∧ q.Holds l := by
  obtain ⟨q, hq, hold⟩ := FlowOp.run_eq .new h
  refine ⟨q, hq, hold.count, ?_, hold⟩
  rw [FlowQueue.empty, decide_eq_true_eq, hold.count, length_eq_zero_iff]

/-- The ring grows while the oldest packet is not in the first slot. -/
theorem flowQueue_refines_list_wrapped :
    let ops := (range 8).map FlowOp.pushBack ++ [.popFront, .popFront] ++
      (range 4).map FlowOp.pushBack ++ [.front, .popFront, .front]
    ∃ q : FlowQueue ℕ, ∃ rs, FlowOp.run FlowOp.onQueue ops {} = some (q, rs) ∧ q.size = 9 ∧
      rs.filterMap id = [0, 1, 2, 2, 3] := by
  intro ops
  have hlist : FlowOp.run FlowOp.onList ops [] = some ([3, 4, 5, 6, 7, 0, 1, 2, 3], _) := rfl
  obtain ⟨q, hq, hsize, -⟩ := flowQueue_refines_list hlist
  exact ⟨q, _, hq, hsize, rfl⟩

end Netstack2
