import Mathlib

/-!
# The timer wheel

Timers with absolute deadlines, as `TimerWheel` keeps them: a deadline falls into
the slot of its remainder by the number of slots, and `AdvanceTo` collects all due
timers, slot by slot, before the first callback runs. A callback is a value of a
type `α`, which says what is to be done; whoever advances the wheel does it.

The table by which the source finds a timer's slot is not kept: it has an
identifier exactly if some slot has a timer with it.
-/

namespace Netstack2

open List

/-- The identifier of a timer; `0` is that of none. -/
abbrev TimerId := ℕ

structure TimerEntry (α : Type) where
  id : TimerId
  deadlineMs : ℕ
  callback : α
  deriving DecidableEq

structure TimerWheel (α : Type) where
  slots : List (List (TimerEntry α))
  nextId : TimerId := 1
  cursorMs : ℕ := 0
  deriving DecidableEq

namespace TimerWheel

variable {α : Type}

/-- A wheel with `slotCount` slots, but at least one. -/
def new (slotCount : ℕ) : TimerWheel α := { slots := .replicate (max 1 slotCount) [] }

/-- The timers of the wheel, in the order in which they would fire together. -/
def entries (w : TimerWheel α) : List (TimerEntry α) := w.slots.flatten

def pendingCount (w : TimerWheel α) : ℕ := w.entries.length

/-- The identifier after `id`; `0` is passed over. -/
def nextIdAfter (id : TimerId) : TimerId := if id + 1 = 2 ^ 64 then 1 else id + 1

/-- The first identifier from `id` on that is free, among the next `fuel` ones, and
    the one after it. -/
def freeId (w : TimerWheel α) : ℕ → TimerId → TimerId × TimerId
  | 0, id => (id, nextIdAfter id)
  | fuel + 1, id =>
    if id = 0 ∨ w.entries.any (·.id = id) then freeId w fuel (nextIdAfter id)
    else (id, nextIdAfter id)

/-- Schedule a callback. A deadline that has passed is moved to the next
    millisecond; at the end of time there is none. -/
def schedule (w : TimerWheel α) (deadlineMs : ℕ) (callback : α) : Option (TimerWheel α × TimerId) :=
  if deadlineMs ≤ w.cursorMs ∧ w.cursorMs = 2 ^ 64 - 1 then none
  else
    let deadline := if deadlineMs ≤ w.cursorMs then w.cursorMs + 1 else deadlineMs
    let (id, next) := w.freeId (w.pendingCount + 1) w.nextId
    let entry := { id := id, deadlineMs := deadline, callback := callback }
    some ({ w with
      slots := w.slots.modify (deadline % w.slots.length) (· ++ [entry])
      nextId := next }, id)

/-- Cancel a timer, if it is pending. -/
def cancel (w : TimerWheel α) (id : TimerId) : TimerWheel α :=
  { w with slots := w.slots.map (·.filter (·.id ≠ id)) }

/-- Move the time on: the timers that are due leave the wheel. -/
def advanceTo (w : TimerWheel α) (nowMs : ℕ) : TimerWheel α × List (TimerEntry α) :=
  if nowMs ≤ w.cursorMs then (w, [])
  else
    ({ w with
      slots := w.slots.map (·.filter (nowMs < ·.deadlineMs))
      cursorMs := nowMs }, w.entries.filter (·.deadlineMs ≤ nowMs))

/-! ## The timers that are pending -/

/-- There is a slot, and the identifiers go on from one that a timer may have. -/
structure IsReady (w : TimerWheel α) : Prop where
  slots : w.slots ≠ []
  nextId : w.nextId ≠ 0

variable {w w' : TimerWheel α} {id deadlineMs nowMs : ℕ} {callback : α} {t : TimerEntry α}

theorem isReady_new (slotCount : ℕ) : (new slotCount : TimerWheel α).IsReady where
  slots h := by
    have hlength := congrArg List.length h
    rw [new, length_replicate, length_nil] at hlength
    omega
  nextId := one_ne_zero

theorem entries_cancel (w : TimerWheel α) (id : TimerId) :
    (w.cancel id).entries = w.entries.filter (·.id ≠ id) := by
  rw [entries, cancel, ← filter_flatten]
  rfl

theorem mem_entries_cancel : t ∈ (w.cancel id).entries ↔ t ∈ w.entries ∧ t.id ≠ id := by
  rw [entries_cancel, mem_filter, decide_eq_true_eq]

theorem IsReady.cancel (h : w.IsReady) (id : TimerId) : (w.cancel id).IsReady :=
  ⟨fun hnil => h.slots (map_eq_nil_iff.1 hnil), h.nextId⟩

theorem mem_entries_of_advanceTo (h : t ∈ (w.advanceTo nowMs).1.entries) : t ∈ w.entries := by
  rw [advanceTo] at h
  split at h
  · exact h
  · rw [entries, ← filter_flatten] at h
    exact (mem_filter.1 h).1

theorem IsReady.advanceTo (h : w.IsReady) (nowMs : ℕ) : (w.advanceTo nowMs).1.IsReady := by
  rw [TimerWheel.advanceTo]
  split
  · exact h
  · exact ⟨fun hnil => h.slots (map_eq_nil_iff.1 hnil), h.nextId⟩

theorem nextIdAfter_ne_zero (id : TimerId) : nextIdAfter id ≠ 0 := by
  rw [nextIdAfter]
  split
  · exact one_ne_zero
  · exact Nat.succ_ne_zero id

theorem freeId_ne_zero (w : TimerWheel α) (fuel : ℕ) (hid : id ≠ 0) :
    (w.freeId fuel id).1 ≠ 0 ∧ (w.freeId fuel id).2 ≠ 0 := by
  induction fuel generalizing id with
  | zero => exact ⟨hid, nextIdAfter_ne_zero id⟩
  | succ _ ih =>
    rw [freeId]
    split
    · exact ih (nextIdAfter_ne_zero id)
    · exact ⟨hid, nextIdAfter_ne_zero id⟩

/-- An entry is added to one of the slots. -/
theorem perm_flatten_modify {β : Type} (x : β) {l : List (List β)} {k : ℕ} (hk : k < l.length) :
    (l.modify k (· ++ [x])).flatten.Perm (x :: l.flatten) := by
  induction l generalizing k with
  | nil => exact absurd hk (Nat.not_lt_zero k)
  | cons a l ih =>
    rw [flatten_cons]
    cases k with
    | zero =>
      rw [modify_zero_cons, flatten_cons]
      exact (perm_append_singleton x a).append_right l.flatten
    | succ =>
      rw [modify_succ_cons, flatten_cons]
      exact ((ih (Nat.lt_of_succ_lt_succ hk)).append_left a).trans perm_middle

theorem schedule_eq_some (hset : w.schedule deadlineMs callback = some (w', id)) :
    let deadline := if deadlineMs ≤ w.cursorMs then w.cursorMs + 1 else deadlineMs
    ∃ next, w' = { w with
      slots := w.slots.modify (deadline % w.slots.length) (· ++ [⟨id, deadline, callback⟩])
      nextId := next } := by
  rw [schedule] at hset
  split at hset
  · cases hset
  · cases hset
    exact ⟨_, rfl⟩

/-- A timer that was set is pending, for its deadline or, if that has passed, for the next
    millisecond; and no other timer has changed. -/
theorem IsReady.schedule (h : w.IsReady) (hset : w.schedule deadlineMs callback = some (w', id)) :
    w'.IsReady ∧ id ≠ 0 ∧ w'.entries.Perm ({
      id := id
      deadlineMs := if deadlineMs ≤ w.cursorMs then w.cursorMs + 1 else deadlineMs
      callback := callback } :: w.entries) := by
  rw [TimerWheel.schedule] at hset
  split at hset
  case isTrue => cases hset
  case isFalse =>
    cases hset
    obtain ⟨hid, hnext⟩ := w.freeId_ne_zero (w.pendingCount + 1) h.nextId
    refine ⟨⟨fun hnil => h.slots ?_, hnext⟩, hid, ?_⟩
    · have hlength := congrArg List.length hnil
      rw [length_modify] at hlength
      exact length_eq_zero_iff.1 hlength
    · exact perm_flatten_modify _ (Nat.mod_lt _ (length_pos_iff.2 h.slots))

end TimerWheel

end Netstack2
