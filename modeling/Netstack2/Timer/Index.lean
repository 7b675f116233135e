import Netstack2.Timer

/-!
# The timer wheel with its index

Beside the slots, `TimerWheel` keeps a table from identifiers to slots, by which a timer is
found, and a counter of the pending timers (`IndexedWheel`). Every operation changes all
three. They stay in step (`Indexed`), so that an indexed wheel does what the plain one does:

* `Indexed.schedule_eq`, `Indexed.cancel_eq` and `Indexed.advanceTo_eq`: the operations are those
  of `TimerWheel`;
* `Indexed.schedule_isSome`: the search for an identifier ends while one is free.
-/

namespace Netstack2

open List

/-- A wheel, where each timer is found by its identifier, and the number of its timers. -/
structure IndexedWheel (α : Type) extends TimerWheel α where
  byId : List (TimerId × ℕ) := []
  pending : ℕ := 0
  deriving DecidableEq

namespace IndexedWheel

open TimerWheel (nextIdAfter)

variable {α : Type}

def new (slotCount : ℕ) : IndexedWheel α := { TimerWheel.new slotCount with }

/-- The first identifier from `id` on that the table does not have, among the next `fuel`
    ones, and the one after it. -/
def freeId (w : IndexedWheel α) : ℕ → TimerId → Option (TimerId × TimerId)
  | 0, _ => none
  | fuel + 1, id =>
    if id = 0 ∨ w.byId.any (·.1 = id) then freeId w fuel (nextIdAfter id)
    else some (id, nextIdAfter id)

/-- Schedule a callback. There is no identifier if the call throws, because the time has come
    to its end; `none` if it does not return, because no identifier is free. -/
def schedule (w : IndexedWheel α) (deadlineMs : ℕ) (callback : α) :
    Option (IndexedWheel α × Option TimerId) :=
  if deadlineMs ≤ w.cursorMs ∧ w.cursorMs = 2 ^ 64 - 1 then some (w, none)
  else
    let deadline := if deadlineMs ≤ w.cursorMs then w.cursorMs + 1 else deadlineMs
    (w.freeId (w.byId.length + 1) w.nextId).map fun (id, next) =>
      let slot := deadline % w.slots.length
      let entry := { id := id, deadlineMs := deadline, callback := callback }
      ({ w with
        slots := w.slots.modify slot (· ++ [entry])
        nextId := next
        byId := (id, slot) :: w.byId
        pending := w.pending + 1 }, some id)

/-- Cancel a timer that the table has. -/
def cancel (w : IndexedWheel α) (id : TimerId) : IndexedWheel α × Bool :=
  match w.byId.find? (·.1 = id) with
  | none => (w, false)
  | some (_, slot) =>
    ({ w with
      slots := w.slots.modify slot (·.filter (·.id ≠ id))
      byId := w.byId.filter (·.1 ≠ id)
      pending := w.pending - 1 }, true)

/-- Move the time on, and collect the timers that are due. -/
def advanceTo (w : IndexedWheel α) (nowMs : ℕ) : IndexedWheel α × List (TimerEntry α) :=
  if nowMs ≤ w.cursorMs then (w, [])
  else if w.pending = 0 then ({ w with cursorMs := nowMs }, [])
  else
    let due := w.entries.filter (·.deadlineMs ≤ nowMs)
    ({ w with
      slots := w.slots.map (·.filter (nowMs < ·.deadlineMs))
      cursorMs := nowMs
      byId := w.byId.filter fun pos => due.all (·.id ≠ pos.1)
      pending := w.pending - due.length }, due)

/-- The slots, the table and the counter are in step. -/
structure Indexed (w : IndexedWheel α) : Prop where
  slots : w.slots ≠ []
  nextId : 0 < w.nextId ∧ w.nextId < 2 ^ 64
  index : w.byId.Perm (w.entries.map fun t => (t.id, t.deadlineMs % w.slots.length))
  pending : w.pending = w.entries.length
  placed : ∀ i l, w.slots[i]? = some l → ∀ t ∈ l, t.deadlineMs % w.slots.length = i
  nodup : (w.entries.map (·.id)).Nodup
  nonzero : ∀ t ∈ w.entries, t.id ≠ 0
  later : ∀ t ∈ w.entries, w.cursorMs < t.deadlineMs

variable {w w' : IndexedWheel α} {id next deadlineMs : ℕ} {callback : α}

theorem indexed_new (slotCount : ℕ) : (new slotCount : IndexedWheel α).Indexed := by
  have hnone : (new slotCount : IndexedWheel α).entries = [] := by
    simp [new, TimerWheel.new, TimerWheel.entries]
  refine ⟨(TimerWheel.isReady_new slotCount).slots, ⟨one_pos, Nat.one_lt_two_pow (by decide)⟩, ?_, ?_, ?_, ?_, ?_,
    ?_⟩
  case refine_3 =>
    intro i l hl t ht
    simp [eq_of_mem_replicate (mem_of_getElem? hl)] at ht
  all_goals rw [hnone]
  · exact .nil
  · rfl
  · exact nodup_nil
  · exact fun _ ht => by cases ht
  · exact fun _ ht => by cases ht

/-! ## Identifiers -/

theorem nextIdAfter_eq (hid : 0 < id ∧ id < 2 ^ 64) : nextIdAfter id = id % (2 ^ 64 - 1) + 1 := by
  show (if id + 1 = 2 ^ 64 then 1 else id + 1 : ℕ) = _
  split_ifs <;> omega

theorem nextIdAfter_bounds (hid : 0 < id ∧ id < 2 ^ 64) :
    0 < nextIdAfter id ∧ nextIdAfter id < 2 ^ 64 := by
  rw [nextIdAfter_eq hid]
  have hlt : id % (2 ^ 64 - 1) + 1 < 2 ^ 64 := by omega
  exact ⟨Nat.succ_pos _, hlt⟩

theorem freeId_eq_some {fuel free : ℕ} (hid : 0 < id ∧ id < 2 ^ 64)
    (h : w.freeId fuel id = some (free, next)) :
    free ≠ 0 ∧ free ∉ w.byId.map (·.1) ∧ 0 < next ∧ next < 2 ^ 64 := by
  induction fuel generalizing id with
  | zero => nomatch h
  | succ _ ih =>
    rw [freeId] at h
    split at h
    case isTrue => exact ih (nextIdAfter_bounds hid) h
    case isFalse hfree =>
      cases h
      rw [not_or] at hfree
      refine ⟨hfree.1, fun hmem => hfree.2 ?_, nextIdAfter_bounds hid⟩
      obtain ⟨pos, hpos, rfl⟩ := mem_map.1 hmem
      exact any_eq_true.2 ⟨pos, hpos, decide_eq_true rfl⟩

/-- The `i`-th identifier from `id` on. -/
def candidate (id i : ℕ) : ℕ := (id - 1 + i) % (2 ^ 64 - 1) + 1

theorem freeId_eq_none {fuel : ℕ} (hid : 0 < id ∧ id < 2 ^ 64) (h : w.freeId fuel id = none) :
    ∀ i < fuel, candidate id i ∈ w.byId.map (·.1) := by
  induction fuel generalizing id with
  | zero => exact fun i hi => absurd hi (Nat.not_lt_zero i)
  | succ _ ih =>
    rw [freeId] at h
    split at h
    case isFalse => cases h
    case isTrue htaken =>
      intro i hi
      cases i with
      | zero =>
        have hself : candidate id 0 = id := by
          rw [candidate]
          omega
        obtain ⟨pos, hpos, heq⟩ := any_eq_true.1 (htaken.resolve_left (Nat.pos_iff_ne_zero.1 hid.1))
        rw [hself]
        exact mem_map.2 ⟨pos, hpos, of_decide_eq_true heq⟩
      | succ i =>
        have hshift : candidate id (i + 1) = candidate (nextIdAfter id) i := by
          rw [candidate, candidate, nextIdAfter_eq hid]
          omega
        rw [hshift]
        exact ih (nextIdAfter_bounds hid) h i (Nat.lt_of_succ_lt_succ hi)

namespace Indexed

section

variable (h : w.Indexed)

include h

theorem byId_fst : (w.byId.map (·.1)).Perm (w.entries.map (·.id)) := by
  have hmap := h.index.map Prod.fst
  rwa [map_map] at hmap

theorem any_byId (id : TimerId) : w.byId.any (·.1 = id) = w.entries.any (·.id = id) := by
  have hmem := h.byId_fst.mem_iff (a := id)
  rw [mem_map, mem_map] at hmem
  rw [Bool.eq_iff_iff, any_eq_true, any_eq_true]
  simpa using hmem

theorem length_byId : w.byId.length = w.pending := by rw [h.index.length_eq, length_map, h.pending]

/-- The search for an identifier ends while one is free. -/
theorem schedule_isSome (hroom : w.pending + 1 < 2 ^ 64) (deadlineMs : ℕ) (callback : α) :
    (w.schedule deadlineMs callback).isSome := by
  rw [schedule]
  split
  · rfl
  · rw [Option.isSome_map]
    by_contra hnone
    have htaken := freeId_eq_none h.nextId (Option.not_isSome_iff_eq_none.1 hnone)
    -- more identifiers would be taken than timers are pending
    have hnodup : ((List.range (w.byId.length + 1)).map (candidate w.nextId)).Nodup := by
      rw [h.length_byId]
      refine List.Nodup.map_on (fun i hi j hj heq => ?_) nodup_range
      rw [mem_range] at hi hj
      rw [candidate, candidate] at heq
      omega
    have hsub : (List.range (w.byId.length + 1)).map (candidate w.nextId) ⊆ w.byId.map (·.1) := by
      intro c hc
      obtain ⟨i, hi, rfl⟩ := mem_map.1 hc
      exact htaken i (mem_range.1 hi)
    have hle := (hnodup.subperm hsub).length_le
    rw [length_map, length_map, length_range] at hle
    omega

theorem freeId_eq {fuel : ℕ} {r : TimerId × TimerId} (hfree : w.freeId fuel id = some r) :
    w.toTimerWheel.freeId fuel id = r := by
  induction fuel generalizing id with
  | zero => nomatch hfree
  | succ _ ih =>
    rw [freeId, h.any_byId] at hfree
    rw [TimerWheel.freeId]
    split at hfree
    case isTrue htaken =>
      rw [if_pos htaken]
      exact ih hfree
    case isFalse hnot =>
      rw [if_neg hnot]
      exact Option.some.inj hfree

/-! ## The operations -/

/-- A timer that was set is that of the plain wheel, and has an identifier of its own. -/
theorem schedule_eq (hset : w.schedule deadlineMs callback = some (w', some id)) :
    w.toTimerWheel.schedule deadlineMs callback = some (w'.toTimerWheel, id) ∧ w'.Indexed := by
  rw [schedule] at hset
  split at hset
  case isTrue => cases hset
  case isFalse htime =>
    obtain ⟨⟨free, next⟩, hfree, heq⟩ := Option.map_eq_some_iff.1 hset
    obtain ⟨hzero, hfresh, hnext⟩ := freeId_eq_some h.nextId hfree
    have hplain : w.toTimerWheel.schedule deadlineMs callback = some (w'.toTimerWheel, id) := by
      rw [TimerWheel.schedule, if_neg htime, TimerWheel.pendingCount, ← h.pending, ← h.length_byId,
        h.freeId_eq hfree]
      cases heq
      rfl
    refine ⟨hplain, ?_⟩
    obtain ⟨hready, -, hperm⟩ := TimerWheel.IsReady.schedule
      ⟨h.slots, Nat.pos_iff_ne_zero.1 h.nextId.1⟩ hplain
    have hlength : w'.slots.length = w.slots.length := by
      cases heq
      exact length_modify ..
    refine ⟨hready.slots, ?_, ?_, ?_, ?_, ?_, ?_, ?_⟩
    · cases heq
      exact hnext
    · refine .trans ?_ (hperm.map _).symm
      rw [hlength]
      cases heq
      exact h.index.cons _
    · rw [hperm.length_eq, length_cons, ← h.pending]
      cases heq
      rfl
    · intro i l hl t ht
      rw [hlength]
      cases heq
      rw [getElem?_modify] at hl
      generalize (if deadlineMs ≤ w.cursorMs then w.cursorMs + 1 else deadlineMs) = deadline at hl
      obtain ⟨l', hl', rfl⟩ := Option.map_eq_some_iff.1 hl
      split at ht
      case isTrue hi =>
        rcases mem_append.1 ht with ht | ht
        · exact h.placed i l' hl' t ht
        · rw [mem_singleton.1 ht]
          exact hi
      case isFalse => exact h.placed i l' hl' t ht
    · rw [(hperm.map _).nodup_iff]
      refine nodup_cons.2 ⟨fun hmem => hfresh ?_, h.nodup⟩
      cases heq
      exact h.byId_fst.mem_iff.2 hmem
    · intro t ht
      rcases mem_cons.1 (hperm.mem_iff.1 ht) with rfl | ht
      · cases heq
        exact hzero
      · exact h.nonzero t ht
    · intro t ht
      have hcursor : w'.cursorMs = w.cursorMs := by
        cases heq
        rfl
      rw [hcursor]
      rcases mem_cons.1 (hperm.mem_iff.1 ht) with rfl | ht
      · dsimp only
        split_ifs <;> omega
      · exact h.later t ht

end

/-- Every timer passes a test. -/
theorem slots_filter {p : TimerEntry α → Bool} (hp : ∀ t ∈ w.entries, p t) :
    w.slots.map (·.filter p) = w.slots := by
  refine (map_congr_left fun l hl => ?_).trans (map_id' w.slots)
  exact filter_eq_self.2 fun t ht => hp t (mem_flatten.2 ⟨l, hl, ht⟩)

/-- The timers that stay are those that pass a test, and so are those of the table. -/
theorem filter (h : w.Indexed) {p : TimerEntry α → Bool} (q : TimerId → Bool)
    (hq : ∀ t ∈ w.entries, q t.id = p t) (hnext : w'.nextId = w.nextId)
    (hcursor : ∀ t ∈ w.entries, p t → w'.cursorMs < t.deadlineMs)
    (hslots : w'.slots = w.slots.map (·.filter p)) (hbyId : w'.byId = w.byId.filter (q ·.1))
    (hpending : w'.pending = (w.entries.filter p).length) : w'.Indexed := by
  have hentries : w'.entries = w.entries.filter p := by
    rw [TimerWheel.entries, hslots, ← filter_flatten]
    rfl
  have hlength : w'.slots.length = w.slots.length := by rw [hslots, length_map]
  have hsub : w'.entries.Sublist w.entries := hentries ▸ filter_sublist
  refine ⟨fun hnil => h.slots ?_, hnext ▸ h.nextId, ?_, ?_, ?_, ?_, ?_, ?_⟩
  · rw [hslots] at hnil
    exact map_eq_nil_iff.1 hnil
  · rw [hentries, hlength, hbyId]
    refine (h.index.filter _).trans (.of_eq ?_)
    rw [filter_map]
    exact congrArg _ (filter_congr hq)
  · rw [hentries, hpending]
  · intro i l hl t ht
    rw [hslots, getElem?_map] at hl
    obtain ⟨l', hl', rfl⟩ := Option.map_eq_some_iff.1 hl
    rw [hlength]
    exact h.placed i l' hl' t (mem_filter.1 ht).1
  · exact h.nodup.sublist (hsub.map _)
  · exact fun t ht => h.nonzero t (hsub.subset ht)
  · intro t ht
    rw [hentries] at ht
    exact hcursor t (mem_filter.1 ht).1 (mem_filter.1 ht).2

/-- A timer is cancelled as in the plain wheel, and the answer is whether it was pending. -/
theorem cancel_eq (h : w.Indexed) (id : TimerId) :
    (w.cancel id).1.toTimerWheel = w.toTimerWheel.cancel id ∧
      (w.cancel id).2 = w.entries.any (·.id = id) ∧ (w.cancel id).1.Indexed := by
  rw [← h.any_byId, cancel]
  split
  case h_1 hnone =>
    have hnot : w.byId.any (·.1 = id) = false := by
      rw [any_eq_false]
      exact fun pos hpos => find?_eq_none.1 hnone pos hpos
    refine ⟨?_, hnot.symm, h⟩
    rw [h.any_byId, any_eq_false] at hnot
    rw [TimerWheel.cancel, slots_filter fun t ht => by simpa using hnot t ht]
  case h_2 slot hfind =>
    have hid := find?_some hfind
    rw [decide_eq_true_eq] at hid
    have hpos := mem_of_find?_eq_some hfind
    obtain ⟨t, ht, heq⟩ := mem_map.1 (h.index.mem_iff.1 hpos)
    obtain ⟨rfl, rfl⟩ := Prod.mk.inj heq
    have hany : w.byId.any (·.1 = id) = true := any_eq_true.2 ⟨_, hpos, decide_eq_true hid⟩
    have hslots : w.slots.modify (t.deadlineMs % w.slots.length) (·.filter (·.id ≠ id)) =
        w.slots.map (·.filter (·.id ≠ id)) := by
      refine ext_getElem? fun i => ?_
      rw [getElem?_modify, getElem?_map]
      rcases hl : w.slots[i]? with _ | l
      · rfl
      · refine congrArg some ?_
        split
        case isTrue => rfl
        case isFalse hi =>
          -- the timer is in its own slot only
          refine (filter_eq_self.2 fun t' ht' => ?_).symm
          refine decide_eq_true (p := t'.id ≠ id) fun hsame => hi ?_
          have hmem : t' ∈ w.entries := mem_flatten.2 ⟨l, mem_of_getElem? hl, ht'⟩
          rw [← inj_on_of_nodup_map h.nodup hmem ht (hsame.trans hid.symm)]
          exact h.placed i l hl t' ht'
    refine ⟨?_, hany.symm, h.filter (· ≠ id) (fun _ _ => rfl) rfl (fun t ht _ => h.later t ht)
      hslots rfl ?_⟩
    · rw [TimerWheel.cancel, ← hslots]
    · have hcount := count_eq_one_of_mem h.nodup (mem_map.2 ⟨t, ht, hid⟩)
      rw [count_eq_countP, countP_map, countP_eq_length_filter] at hcount
      have hsplit := length_eq_length_filter_add (l := w.entries) (·.id == id)
      have hrest : w.entries.filter (!·.id == id) = w.entries.filter (·.id ≠ id) :=
        filter_congr fun t _ => Bool.eq_iff_iff.2 (by simp)
      rw [hrest] at hsplit
      rw [h.pending, hsplit]
      exact Nat.sub_eq_of_eq_add (by rw [add_comm]; exact congrArg _ hcount)

/-- The time moves on as in the plain wheel. -/
theorem advanceTo_eq (h : w.Indexed) (nowMs : ℕ) :
    w.toTimerWheel.advanceTo nowMs =
        ((w.advanceTo nowMs).1.toTimerWheel, (w.advanceTo nowMs).2) ∧
      (w.advanceTo nowMs).1.Indexed := by
  rw [TimerWheel.advanceTo, advanceTo]
  split
  case isTrue => exact ⟨rfl, h⟩
  case isFalse =>
    have hcollected (w' : IndexedWheel α)
        (hslots : w'.slots = w.slots.map (·.filter (nowMs < ·.deadlineMs)))
        (hnext : w'.nextId = w.nextId) (hcursor : w'.cursorMs = nowMs)
        (hbyId : w'.byId = w.byId.filter fun pos =>
          (w.entries.filter (·.deadlineMs ≤ nowMs)).all (·.id ≠ pos.1))
        (hpending : w'.pending = w.pending - (w.entries.filter (·.deadlineMs ≤ nowMs)).length) :
        w'.Indexed := by
      refine h.filter (fun id => (w.entries.filter (·.deadlineMs ≤ nowMs)).all (·.id ≠ id))
        (fun t ht => ?_) hnext (fun t _ ht => ?_) hslots hbyId ?_
      · rw [Bool.eq_iff_iff, all_eq_true, decide_eq_true_eq]
        constructor
        · intro hall
          by_contra hdue
          have hmem : t ∈ w.entries.filter (·.deadlineMs ≤ nowMs) :=
            mem_filter.2 ⟨ht, decide_eq_true (Nat.not_lt.1 hdue)⟩
          exact absurd rfl (of_decide_eq_true (hall t hmem))
        · intro hlate t' ht'
          obtain ⟨hmem, hdue⟩ := mem_filter.1 ht'
          refine decide_eq_true fun hsame => ?_
          rw [inj_on_of_nodup_map h.nodup hmem ht hsame, decide_eq_true_eq] at hdue
          omega
      · rw [hcursor]
        exact of_decide_eq_true ht
      · rw [hpending, h.pending, length_eq_length_filter_add (·.deadlineMs ≤ nowMs),
          Nat.add_sub_cancel_left]
        refine congrArg _ (filter_congr fun t _ => ?_)
        simp only [← decide_not, not_le]
    split
    case isTrue hnone =>
      rw [h.pending, length_eq_zero_iff] at hnone
      have hbyId : w.byId = [] := by
        have hperm := h.index
        rw [hnone] at hperm
        exact hperm.eq_nil
      have hslots : w.slots.map (·.filter (nowMs < ·.deadlineMs)) = w.slots :=
        slots_filter (by simp [hnone])
      refine ⟨?_, hcollected _ hslots.symm rfl rfl ?_ ?_⟩
      · rw [hslots, hnone]
        rfl
      · simp [hbyId]
      · simp [h.pending, hnone]
    case isFalse => exact ⟨rfl, hcollected _ rfl rfl rfl rfl rfl⟩

/-- The timers whose deadlines the time reaches are collected; in a wheel whose time does not
    move on there are none. -/
theorem advanceTo_spec (h : w.Indexed) (nowMs : ℕ) :
    (w.advanceTo nowMs).1.slots = w.slots.map (·.filter (nowMs < ·.deadlineMs)) ∧
      (w.advanceTo nowMs).2 = w.entries.filter (·.deadlineMs ≤ nowMs) ∧
      (w.advanceTo nowMs).1.cursorMs = max w.cursorMs nowMs := by
  have heq := (h.advanceTo_eq nowMs).1
  rw [TimerWheel.advanceTo] at heq
  split at heq
  case isTrue hpast =>
    obtain ⟨hwheel, hdue⟩ := Prod.mk.inj heq
    rw [← hwheel, ← hdue, max_eq_left hpast]
    refine ⟨(slots_filter fun t ht => ?_).symm, ?_, rfl⟩
    · exact decide_eq_true (lt_of_le_of_lt hpast (h.later t ht))
    · refine (filter_eq_nil_iff.2 fun t ht hdue => ?_).symm
      have hlater := h.later t ht
      rw [decide_eq_true_eq] at hdue
      omega
  case isFalse hlate =>
    obtain ⟨hwheel, hdue⟩ := Prod.mk.inj heq
    rw [← hwheel, ← hdue, max_eq_right (Nat.le_of_not_le hlate)]
    exact ⟨rfl, rfl, rfl⟩

end Indexed

end IndexedWheel

end Netstack2
