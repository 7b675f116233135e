import Netstack2.Lib.Tiling
import Netstack2.Timer.Index

/-!
# Timers fire once, on time

A run of the timer wheel, with what is known of each timer that was set (`TimerRecord`). The
callbacks of the timers that one call of `AdvanceTo` has collected are started one after another,
and each may set and cancel timers: so calls of `Schedule` and `Cancel` come between the starts
of two callbacks as they come between two calls of `AdvanceTo`.

When a timer is to fire is said by its record alone: in the first call of `AdvanceTo` whose time
reaches the deadline. What the wheel does is in the list of the callbacks that it started. In
every run (`TimerRun.Tracks`)

* `timers_fire_once`: a timer that was not cancelled is started in that call, once; timers with
  the same deadline are started in the order in which they were set;
* `cancel_heeded_iff`: a timer that is cancelled before its callback starts never fires, unless it
  was collected already: then it cannot be cancelled any more.
-/

namespace Netstack2

open List

/-- What is known of a timer. -/
structure TimerRecord where
  id : TimerId
  deadlineMs : ℕ
  /-- How many calls of `AdvanceTo` had been made when it was set. -/
  born : ℕ
  /-- The first call of `AdvanceTo` since then whose time reached the deadline. -/
  reached : Option ℕ := none
  /-- A call of `Cancel` for it returned true. -/
  cancelled : Bool := false
  deriving DecidableEq

/-- A wheel in use. The callback of a timer is its number, in the order in which they are set. -/
structure TimerRun where
  wheel : IndexedWheel ℕ
  records : List TimerRecord := []
  /-- The calls of `AdvanceTo` so far. -/
  advances : ℕ := 0
  /-- The timers that were collected, and whose callbacks have not started yet. -/
  waiting : List (TimerEntry ℕ) := []
  /-- The callbacks that were started, each with the call of `AdvanceTo` that did it. -/
  starts : List (ℕ × TimerEntry ℕ) := []
  deriving DecidableEq

inductive TimerCall
  | schedule (deadlineMs : ℕ)
  | cancel (id : TimerId)
  | advanceTo (nowMs : ℕ)
  /-- The callback that runs returns, and the next one is started. -/
  | next

namespace TimerRun

def new (slotCount : ℕ) : TimerRun := { wheel := .new slotCount }

/-- The calls of `AdvanceTo` that started the callback of the timer `k`. -/
def fires (r : TimerRun) (k : ℕ) : List ℕ := (r.starts.filter (·.2.callback = k)).map (·.1)

/-- Start the first of the callbacks that are due. -/
def start (r : TimerRun) : List (TimerEntry ℕ) → TimerRun
  | [] => { r with waiting := [] }
  | t :: rest => { r with waiting := rest, starts := r.starts ++ [(r.advances, t)] }

/-- The deadlines that the time `nowMs` reaches, in the call `n`. -/
def reach (records : List TimerRecord) (nowMs n : ℕ) : List TimerRecord :=
  records.map fun rec =>
    if rec.reached = none ∧ rec.deadlineMs ≤ nowMs then { rec with reached := some n } else rec

/-- If `Cancel` returned true, it was for the pending timer with the identifier. -/
def markCancelled (r : TimerRun) (id : TimerId) (answer : Bool) : List TimerRecord :=
  r.records.mapIdx fun k rec =>
    if answer && r.wheel.entries.any (fun t => t.id = id && t.callback = k) then
      { rec with cancelled := true }
    else rec

/-- One call; `none` if it does not return, or is not made: callbacks do not call `AdvanceTo`. -/
def step (r : TimerRun) : TimerCall → Option TimerRun
  | .schedule deadlineMs =>
    (r.wheel.schedule deadlineMs r.records.length).map fun (wheel, id) =>
      match id with
      | none => r
      | some id => { r with
        wheel := wheel
        records := r.records ++ [{
          id := id
          deadlineMs := if deadlineMs ≤ r.wheel.cursorMs then r.wheel.cursorMs + 1 else deadlineMs
          born := r.advances }] }
  | .cancel id =>
    let (wheel, answer) := r.wheel.cancel id
    some { r with wheel := wheel, records := r.markCancelled id answer }
  | .advanceTo nowMs =>
    if r.waiting = [] then
      let (wheel, due) := r.wheel.advanceTo nowMs
      some (start { r with
        wheel := wheel
        records := reach r.records nowMs (r.advances + 1)
        advances := r.advances + 1 } due)
    else none
  | .next => if r.waiting = [] then none else some (r.start r.waiting)

def run (r : TimerRun) (calls : List TimerCall) : Option TimerRun := calls.foldlM step r

/-- The timers that have not come to an end, by their numbers. -/
def live (r : TimerRun) : List ℕ := (r.wheel.entries ++ r.waiting).map (·.callback)

/-- The order in which timers fire. -/
def Before (s t : TimerEntry ℕ) : Prop := s.deadlineMs = t.deadlineMs → s.callback < t.callback

/-- How the timer `k` stands. -/
inductive Stands (r : TimerRun) (k : ℕ) (rec : TimerRecord) : Prop
  | pending {t : TimerEntry ℕ} (ht : t ∈ r.wheel.entries) (hk : t.callback = k)
      (hid : t.id = rec.id) (hdeadline : t.deadlineMs = rec.deadlineMs)
      (hreached : rec.reached = none) (hcancelled : rec.cancelled = false) (hfires : r.fires k = [])
  | waiting {t : TimerEntry ℕ} (ht : t ∈ r.waiting) (hk : t.callback = k)
      (hid : t.id = rec.id) (hreached : rec.reached = some r.advances)
      (hcancelled : rec.cancelled = false) (hfires : r.fires k = [])
  | started {n : ℕ} (hend : k ∉ r.live) (hreached : rec.reached = some n)
      (hcancelled : rec.cancelled = false) (hfires : r.fires k = [n])
  | cancelled (hend : k ∉ r.live) (hcancelled : rec.cancelled = true) (hfires : r.fires k = [])

/-- The wheel and the records are in step. -/
structure Tracks (r : TimerRun) : Prop where
  indexed : r.wheel.Indexed
  stands : ∀ k rec, r.records[k]? = some rec → r.Stands k rec
  nodup : r.live.Nodup
  born : ∀ rec ∈ r.records, rec.born ≤ r.advances ∧ ∀ n ∈ rec.reached, rec.born < n
  known : ∀ t ∈ r.wheel.entries ++ (r.starts.map (·.2) ++ r.waiting), t.callback < r.records.length
  sorted : ∀ slot ∈ r.wheel.slots, slot.Pairwise (·.callback < ·.callback)
  order : (r.starts.map (·.2) ++ r.waiting).Pairwise Before
  past : ∀ t ∈ r.starts.map (·.2) ++ r.waiting, t.deadlineMs ≤ r.wheel.cursorMs

variable {r r' : TimerRun} {k id : ℕ} {rec : TimerRecord} {t : TimerEntry ℕ}

theorem tracks_new (slotCount : ℕ) : (new slotCount).Tracks where
  indexed := IndexedWheel.indexed_new slotCount
  stands k rec h := nomatch h
  nodup := by simp [live, new, IndexedWheel.new, TimerWheel.new, TimerWheel.entries]
  born rec h := nomatch h
  known := by simp [new, IndexedWheel.new, TimerWheel.new, TimerWheel.entries]
  sorted slot h := by
    rw [eq_of_mem_replicate h]
    exact .nil
  order := .nil
  past t h := nomatch h

theorem fires_eq_nil (h : ∀ t ∈ r.starts.map (·.2), t.callback ≠ k) : r.fires k = [] := by
  rw [fires, map_eq_nil_iff, filter_eq_nil_iff]
  exact fun s hs => by simpa using h s.2 (mem_map_of_mem hs)

/-- A timer stands as it did, if nothing has happened to it. -/
theorem Stands.keep (h : r.Stands k rec)
    (hentries : ∀ t ∈ r.wheel.entries, t.callback = k → t ∈ r'.wheel.entries)
    (hwaiting : ∀ t ∈ r.waiting, t.callback = k → t ∈ r'.waiting) (hlive : k ∈ r'.live → k ∈ r.live)
    (hadvances : r'.advances = r.advances) (hfires : r'.fires k = r.fires k) : r'.Stands k rec := by
  cases h with
  | pending ht hk hid hdeadline hreached hcancelled hf =>
    exact .pending (hentries _ ht hk) hk hid hdeadline hreached hcancelled (hfires.trans hf)
  | waiting ht hk hid hreached hcancelled hf =>
    exact .waiting (hwaiting _ ht hk) hk hid (hadvances ▸ hreached) hcancelled (hfires.trans hf)
  | started hend hreached hcancelled hf =>
    exact .started (mt hlive hend) hreached hcancelled (hfires.trans hf)
  | cancelled hend hcancelled hf => exact .cancelled (mt hlive hend) hcancelled (hfires.trans hf)

/-! ## Steps -/

section

variable (h : r.Tracks)

include h

/-- Starting the first callback that is due brings one timer to its end. -/
theorem Tracks.start : (r.start r.waiting).Tracks := by
  rcases hwaiting : r.waiting with _ | ⟨t, rest⟩
  · rw [TimerRun.start, ← hwaiting]
    exact h
  · have hmove : (r.start (t :: rest)).starts.map (·.2) ++ rest =
        r.starts.map (·.2) ++ r.waiting := by
      rw [TimerRun.start, map_append, append_assoc, hwaiting]
      rfl
    have hlive : r.live.Perm (t.callback :: (r.start (t :: rest)).live) := by
      rw [live, hwaiting, live]
      exact perm_middle.map TimerEntry.callback
    have hnodup := nodup_cons.1 (hlive.nodup_iff.1 h.nodup)
    have hfires (k : ℕ) : (r.start (t :: rest)).fires k =
        r.fires k ++ if t.callback = k then [r.advances] else [] := by
      rw [fires, TimerRun.start, filter_append, map_append, fires]
      by_cases hk : t.callback = k <;> simp [hk]
    refine ⟨h.indexed, fun k rec hrec => ?_, hnodup.2, h.born, ?_, h.sorted, hmove ▸ h.order,
      hmove ▸ h.past⟩
    case refine_2 =>
      show ∀ t' ∈ r.wheel.entries ++ ((r.start (t :: rest)).starts.map (·.2) ++ rest), _
      rw [hmove]
      exact h.known
    case refine_1 =>
    by_cases hk : t.callback = k
    · -- this is the timer that fires
      subst hk
      cases h.stands _ rec hrec with
      | pending ht hk => exact absurd (mem_map.2 ⟨_, mem_append_left _ ht, hk⟩) hnodup.1
      | waiting _ _ _ hreached hcancelled hf =>
        refine .started hnodup.1 hreached hcancelled ?_
        rw [hfires, hf, if_pos rfl]
        rfl
      | started hend | cancelled hend => exact absurd (hlive.mem_iff.2 mem_cons_self) hend
    · refine (h.stands k rec hrec).keep (fun _ ht _ => ht) (fun t' ht' hk' => ?_)
        (fun hmem => hlive.mem_iff.2 (mem_cons_of_mem _ hmem)) rfl ?_
      · rw [hwaiting] at ht'
        exact (mem_cons.1 ht').resolve_left fun heq => hk (heq ▸ hk')
      · rw [hfires, if_neg hk, append_nil]

/-- A timer that is set is pending. -/
theorem Tracks.schedule {deadlineMs : ℕ} {w : IndexedWheel ℕ}
    (hset : r.wheel.schedule deadlineMs r.records.length = some (w, some id)) :
    Tracks { r with
      wheel := w
      records := r.records ++ [{
        id := id
        deadlineMs := if deadlineMs ≤ r.wheel.cursorMs then r.wheel.cursorMs + 1 else deadlineMs
        born := r.advances }] } := by
  obtain ⟨hplain, hindexed⟩ := h.indexed.schedule_eq hset
  obtain ⟨-, -, hperm⟩ := TimerWheel.IsReady.schedule
    ⟨h.indexed.slots, Nat.pos_iff_ne_zero.1 h.indexed.nextId.1⟩ hplain
  obtain ⟨next, hw⟩ := TimerWheel.schedule_eq_some hplain
  have hcursor : w.cursorMs = r.wheel.cursorMs := by rw [hw]
  have hslots := congrArg TimerWheel.slots hw
  generalize (if deadlineMs ≤ r.wheel.cursorMs then r.wheel.cursorMs + 1 else deadlineMs) = deadline
    at hperm hslots
  have hlive : ((w.entries ++ r.waiting).map (·.callback)).Perm (r.records.length :: r.live) :=
    (hperm.append_right r.waiting).map TimerEntry.callback
  have hfresh : r.records.length ∉ r.live := by
    intro hmem
    obtain ⟨t, ht, heq⟩ := mem_map.1 hmem
    refine absurd (h.known t ?_) (Nat.not_lt.2 (Nat.le_of_eq heq.symm))
    rcases mem_append.1 ht with ht | ht
    · exact mem_append_left _ ht
    · exact mem_append_right _ (mem_append_right _ ht)
  refine ⟨hindexed, fun k rec hrec => ?_, ?_, ?_, ?_, ?_, h.order, fun t ht => hcursor ▸ h.past t ht⟩
  · rcases Nat.lt_or_ge k r.records.length with hlt | hge
    · rw [List.getElem?_append_left hlt] at hrec
      refine (h.stands k rec hrec).keep (fun _ ht _ => hperm.mem_iff.2 (mem_cons_of_mem _ ht))
        (fun _ ht _ => ht) (fun hmem => ?_) rfl rfl
      exact (mem_cons.1 (hlive.mem_iff.1 hmem)).resolve_left (Nat.ne_of_lt hlt)
    · have hlt := (List.getElem?_eq_some_iff.1 hrec).1
      rw [length_append, length_singleton] at hlt
      obtain rfl : k = r.records.length := by omega
      rw [List.getElem?_concat_length] at hrec
      cases hrec
      refine .pending (hperm.mem_iff.2 mem_cons_self) rfl rfl rfl rfl rfl ?_
      refine fires_eq_nil fun t ht => Nat.ne_of_lt (h.known t ?_)
      exact mem_append_right _ (mem_append_left _ ht)
  · exact hlive.nodup_iff.2 (nodup_cons.2 ⟨hfresh, h.nodup⟩)
  · intro rec hrec
    rcases mem_append.1 hrec with hrec | hrec
    · exact h.born rec hrec
    · rw [mem_singleton.1 hrec]
      exact ⟨Nat.le_refl _, fun n hn => nomatch hn⟩
  · intro t ht
    rw [length_append]
    rcases mem_cons.1 (((hperm.append_right _).mem_iff).1 ht) with rfl | ht
    · exact Nat.lt_succ_self _
    · exact Nat.lt_succ_of_lt (h.known t ht)
  · intro slot hslot
    rw [hslots] at hslot
    obtain ⟨i, hi⟩ := List.getElem?_of_mem hslot
    rw [List.getElem?_modify] at hi
    obtain ⟨l, hl, rfl⟩ := Option.map_eq_some_iff.1 hi
    have hl := mem_of_getElem? hl
    split
    · refine pairwise_append.2 ⟨h.sorted l hl, pairwise_singleton .., fun s hs t ht => ?_⟩
      rw [mem_singleton.1 ht]
      exact h.known s (mem_append_left _ (mem_flatten.2 ⟨l, hl, hs⟩))
    · exact h.sorted l hl

/-- A pending timer is not waiting. -/
theorem Tracks.not_mem_waiting (ht : t ∈ r.wheel.entries) :
    t.callback ∉ r.waiting.map (·.callback) := by
  have hnodup := h.nodup
  rw [live, map_append, nodup_append] at hnodup
  exact fun hmem => hnodup.2.2 _ (mem_map_of_mem ht) _ hmem rfl

/-- The records change just where a pending timer has the identifier. -/
theorem Tracks.getElem?_markCancelled {rec' : TimerRecord}
    (hrec : (r.markCancelled id (r.wheel.cancel id).2)[k]? = some rec') :
    ∃ rec, r.records[k]? = some rec ∧
      ((∃ t ∈ r.wheel.entries, t.id = id ∧ t.callback = k) ∧ rec' = { rec with cancelled := true } ∨
        (∀ t ∈ r.wheel.entries, t.callback = k → t.id ≠ id) ∧ rec' = rec) := by
  rw [markCancelled, getElem?_mapIdx, (h.indexed.cancel_eq id).2.1] at hrec
  obtain ⟨rec, hbefore, rfl⟩ := Option.map_eq_some_iff.1 hrec
  refine ⟨rec, hbefore, ?_⟩
  split
  case isTrue hany =>
    obtain ⟨t, ht, heq⟩ := any_eq_true.1 (Bool.and_eq_true_iff.1 hany).2
    exact .inl ⟨⟨t, ht, by simpa using heq⟩, rfl⟩
  case isFalse hnone =>
    refine .inr ⟨fun t ht hk hid => hnone (Bool.and_eq_true_iff.2 ⟨?_, ?_⟩), rfl⟩
    · exact any_eq_true.2 ⟨t, ht, decide_eq_true hid⟩
    · exact any_eq_true.2 ⟨t, ht, by simp [hk, hid]⟩

/-- The pending timer with the identifier comes to its end, if there is one. -/
theorem Tracks.cancel (id : TimerId) :
    Tracks { r with
      wheel := (r.wheel.cancel id).1
      records := r.markCancelled id (r.wheel.cancel id).2 } := by
  obtain ⟨hplain, -, hindexed⟩ := h.indexed.cancel_eq id
  have hentries : (r.wheel.cancel id).1.entries = r.wheel.entries.filter (·.id ≠ id) := by
    rw [hplain, TimerWheel.entries_cancel]
  have hslots : (r.wheel.cancel id).1.slots = r.wheel.slots.map (·.filter (·.id ≠ id)) := by
    rw [hplain, TimerWheel.cancel]
  have hsub : (r.wheel.cancel id).1.entries.Sublist r.wheel.entries := hentries ▸ filter_sublist
  have hlive : (((r.wheel.cancel id).1.entries ++ r.waiting).map (·.callback)).Sublist r.live :=
    (hsub.append_right _).map _
  have hlength : (r.markCancelled id (r.wheel.cancel id).2).length = r.records.length :=
    length_mapIdx
  refine ⟨hindexed, fun k rec' hrec' => ?_, h.nodup.sublist hlive, fun rec' hrec' => ?_, ?_, ?_,
    h.order, ?_⟩
  · obtain ⟨rec, hrec, ⟨⟨t, ht, hid, rfl⟩, rfl⟩ | ⟨hother, rfl⟩⟩ := h.getElem?_markCancelled hrec'
    · -- this is the timer that is cancelled
      have hfires : r.fires t.callback = [] := by
        cases h.stands _ rec hrec with
        | pending _ _ _ _ _ _ hf | waiting _ _ _ _ _ hf | cancelled _ _ hf => exact hf
        | started hend => exact absurd (mem_map_of_mem (mem_append_left _ ht)) hend
      refine .cancelled (fun hmem => ?_) rfl hfires
      obtain ⟨t', ht', hk'⟩ := mem_map.1 hmem
      rcases mem_append.1 ht' with ht' | ht'
      · rw [hentries] at ht'
        obtain ⟨ht', hne⟩ := mem_filter.1 ht'
        obtain rfl := inj_on_of_nodup_map h.nodup (mem_append_left _ ht') (mem_append_left _ ht) hk'
        exact of_decide_eq_true hne hid
      · exact h.not_mem_waiting ht (mem_map.2 ⟨t', ht', hk'⟩)
    · exact (h.stands k _ hrec).keep
        (fun t ht hk => hentries ▸ mem_filter.2 ⟨ht, decide_eq_true (hother t ht hk)⟩)
        (fun _ ht _ => ht) (fun hmem => hlive.subset hmem) rfl rfl
  · obtain ⟨k, hk⟩ := getElem?_of_mem hrec'
    obtain ⟨rec, hrec, ⟨-, rfl⟩ | ⟨-, rfl⟩⟩ := h.getElem?_markCancelled hk
    · exact h.born rec (mem_of_getElem? hrec)
    · exact h.born _ (mem_of_getElem? hrec)
  · intro t ht
    rw [hlength]
    exact h.known t ((hsub.append_right _).subset ht)
  · intro slot hslot
    rw [hslots] at hslot
    obtain ⟨l, hl, rfl⟩ := mem_map.1 hslot
    exact (h.sorted l hl).sublist filter_sublist
  · intro t ht
    rw [hplain]
    exact h.past t ht

/-- Timers with the same deadline are in the same slot, in the order in which they were set. -/
theorem Tracks.entries_before : r.wheel.entries.Pairwise Before := by
  refine pairwise_flatten.2 ⟨fun l hl => (h.sorted l hl).imp (S := Before) fun hlt _ => hlt, ?_⟩
  refine pairwise_iff_getElem.2 fun i j hi hj hij s hs t ht hsame => ?_
  have hslot := h.indexed.placed i _ (getElem?_eq_getElem hi) s hs
  rw [hsame, h.indexed.placed j _ (getElem?_eq_getElem hj) t ht] at hslot
  omega

/-- The timers whose deadlines the time reaches are collected. -/
theorem Tracks.advance (hnone : r.waiting = []) (nowMs : ℕ) :
    Tracks { r with
      wheel := (r.wheel.advanceTo nowMs).1
      records := reach r.records nowMs (r.advances + 1)
      advances := r.advances + 1
      waiting := (r.wheel.advanceTo nowMs).2 } := by
  obtain ⟨hslots, hdue, hcursor⟩ := h.indexed.advanceTo_spec nowMs
  have hentries : (r.wheel.advanceTo nowMs).1.entries =
      r.wheel.entries.filter (nowMs < ·.deadlineMs) := by
    rw [TimerWheel.entries, hslots, ← filter_flatten]
    rfl
  have hsplit : ((r.wheel.advanceTo nowMs).1.entries ++ (r.wheel.advanceTo nowMs).2).Perm
      r.wheel.entries := by
    rw [hentries, hdue]
    refine .trans (.of_eq (congrArg _ (filter_congr fun t _ => ?_)))
      (filter_append_perm (nowMs < ·.deadlineMs) r.wheel.entries)
    rw [← decide_not, decide_eq_decide, not_lt]
  have hlive : (((r.wheel.advanceTo nowMs).1.entries ++ (r.wheel.advanceTo nowMs).2).map
      (·.callback)).Perm r.live := by
    rw [live, hnone, append_nil]
    exact hsplit.map _
  have horder := h.order
  have hpast := h.past
  rw [hnone, append_nil] at horder hpast
  refine ⟨(h.indexed.advanceTo_eq nowMs).2, fun k rec' hrec' => ?_, hlive.nodup_iff.2 h.nodup,
    fun rec' hrec' => ?_, fun t ht => ?_, fun slot hslot => ?_, ?_, fun t ht => ?_⟩
  · rw [reach, getElem?_map] at hrec'
    obtain ⟨rec, hrec, rfl⟩ := Option.map_eq_some_iff.1 hrec'
    cases h.stands k rec hrec with
    | @pending t ht hk hid hdeadline hreached hcancelled hfires =>
      by_cases hreach : t.deadlineMs ≤ nowMs
      · rw [if_pos ⟨hreached, hdeadline ▸ hreach⟩]
        refine .waiting (hdue ▸ mem_filter.2 ⟨ht, ?_⟩) hk hid rfl hcancelled hfires
        exact decide_eq_true hreach
      · rw [if_neg fun hboth => hreach (hdeadline ▸ hboth.2)]
        refine .pending (hentries ▸ mem_filter.2 ⟨ht, ?_⟩) hk hid hdeadline hreached hcancelled
          hfires
        exact decide_eq_true (Nat.not_le.1 hreach)
    | waiting ht => exact absurd (hnone ▸ ht) not_mem_nil
    | started hend hreached hcancelled hfires =>
      rw [if_neg fun hboth => by rw [hreached] at hboth; cases hboth.1]
      exact .started (fun hmem => hend (hlive.mem_iff.1 hmem)) hreached hcancelled hfires
    | cancelled hend hcancelled hfires =>
      refine .cancelled (fun hmem => hend (hlive.mem_iff.1 hmem)) ?_ hfires
      split <;> exact hcancelled
  · obtain ⟨rec, hrec, rfl⟩ := mem_map.1 hrec'
    obtain ⟨hborn, hreached⟩ := h.born rec hrec
    split
    · exact ⟨Nat.le_succ_of_le hborn, fun n hn => Option.some.inj hn ▸ Nat.lt_succ_of_le hborn⟩
    · exact ⟨Nat.le_succ_of_le hborn, hreached⟩
  · rw [reach, length_map]
    refine h.known t ?_
    rcases mem_append.1 ht with ht | ht
    · exact mem_append_left _ (hsplit.subset (mem_append_left _ ht))
    · rcases mem_append.1 ht with ht | ht
      · exact mem_append_right _ (mem_append_left _ ht)
      · exact mem_append_left _ (hsplit.subset (mem_append_right _ ht))
  · rw [hslots] at hslot
    obtain ⟨l, hl, rfl⟩ := mem_map.1 hslot
    exact (h.sorted l hl).sublist filter_sublist
  · refine pairwise_append.2 ⟨horder, ?_, fun s hs t ht hsame => ?_⟩
    · rw [hdue]
      exact h.entries_before.sublist filter_sublist
    · -- what was started was due before, what is collected now was not
      rw [hdue] at ht
      have hlater := h.indexed.later t (mem_filter.1 ht).1
      have hearlier := hpast s hs
      omega
  · rw [hcursor]
    rcases mem_append.1 ht with ht | ht
    · exact le_trans (hpast t ht) (le_max_left ..)
    · rw [hdue] at ht
      exact le_trans (of_decide_eq_true (mem_filter.1 ht).2) (le_max_right ..)

/-! ## Runs -/

theorem Tracks.step {call : TimerCall} (hstep : r.step call = some r') : r'.Tracks := by
  cases call with
  | schedule =>
    obtain ⟨⟨w, id⟩, hset, rfl⟩ := Option.map_eq_some_iff.1 hstep
    cases id with
    | none => exact h
    | some => exact h.schedule hset
  | cancel id =>
    cases hstep
    exact h.cancel id
  | advanceTo nowMs =>
    rw [TimerRun.step] at hstep
    split at hstep
    case isTrue hnone =>
      cases hstep
      exact (h.advance hnone nowMs).start
    case isFalse => cases hstep
  | next =>
    rw [TimerRun.step] at hstep
    split at hstep
    · cases hstep
    · cases hstep
      exact h.start

theorem Tracks.run {calls : List TimerCall} (hrun : r.run calls = some r') : r'.Tracks :=
  (runs_of_foldlM hrun).invariant h fun _ _ _ h hstep => h.step hstep

end

/-- The timers that were neither started nor cancelled nor collected. -/
def unsettled (r : TimerRun) : List ℕ :=
  (List.range r.records.length).filter fun k =>
    r.fires k = [] && r.records[k]?.all (!·.cancelled) && k ∉ r.waiting.map (·.callback)

/-- These are the timers that the wheel holds. -/
theorem Tracks.perm_unsettled (h : r.Tracks) :
    (r.wheel.entries.map (·.callback)).Perm r.unsettled := by
  have hnodup := h.nodup
  rw [live, map_append] at hnodup
  refine (perm_ext_iff_of_nodup hnodup.of_append_left (nodup_range.filter _)).2 fun k => ?_
  rw [mem_filter, mem_range]
  constructor
  · intro hmem
    obtain ⟨t, ht, rfl⟩ := mem_map.1 hmem
    have hlt := h.known t (mem_append_left _ ht)
    have hrec := getElem?_eq_getElem hlt
    have hwaiting := h.not_mem_waiting ht
    refine ⟨hlt, ?_⟩
    cases h.stands _ _ hrec with
    | pending _ _ _ _ _ hcancelled hfires => simp [hrec, hcancelled, hfires, hwaiting]
    | waiting ht' hk => exact absurd (mem_map.2 ⟨_, ht', hk⟩) hwaiting
    | started hend | cancelled hend => exact absurd (mem_map.2 ⟨t, mem_append_left _ ht, rfl⟩) hend
  · rintro ⟨hlt, hopen⟩
    have hrec := getElem?_eq_getElem hlt
    simp only [Bool.and_eq_true, decide_eq_true_eq, hrec, Option.all_some] at hopen
    cases h.stands _ _ hrec with
    | pending ht hk => exact mem_map.2 ⟨_, ht, hk⟩
    | waiting ht hk => exact absurd (mem_map.2 ⟨_, ht, hk⟩) hopen.2
    | started _ _ _ hfires => nomatch hfires.symm.trans hopen.1.1
    | cancelled _ hcancelled => simp [hcancelled] at hopen

end TimerRun

/-- In every run: a timer that no call of `Cancel` returned true for fires in the first call of
    `AdvanceTo` whose time reaches its deadline, once, as soon as that call has returned, and never
    before; and not in the call in which it was set. Timers with the same deadline fire in the order
    in which they were set. The pending timers have identifiers of their own, none zero, and
    `PendingCount` is their number; and `Schedule` returns while an identifier is free. -/
theorem timers_fire_once (slotCount : ℕ) (calls : List TimerCall) (r : TimerRun)
    (h : (TimerRun.new slotCount).run calls = some r) :
    (∀ k rec, r.records[k]? = some rec → rec.cancelled = false →
      r.fires k <+: rec.reached.toList ∧ (r.waiting = [] → r.fires k = rec.reached.toList) ∧
        ∀ n ∈ r.fires k, rec.born < n) ∧
    (r.starts.map (·.2)).Pairwise TimerRun.Before ∧
    (r.wheel.entries.map (·.id)).Nodup ∧ (∀ t ∈ r.wheel.entries, t.id ≠ 0) ∧
    r.wheel.pending = r.unsettled.length ∧
    (r.wheel.pending + 1 < 2 ^ 64 → ∀ deadlineMs, (r.step (.schedule deadlineMs)).isSome) := by
  have htracks := (TimerRun.tracks_new slotCount).run h
  refine ⟨fun k rec hrec hcancelled => ?_, (pairwise_append.1 htracks.order).1,
    htracks.indexed.nodup, htracks.indexed.nonzero, ?_, fun hroom deadlineMs => ?_⟩
  · have hborn := (htracks.born rec (mem_of_getElem? hrec)).2
    cases htracks.stands k rec hrec with
    | pending _ _ _ _ hreached _ hfires =>
      rw [hfires, hreached]
      exact ⟨ nil_prefix, fun _ => rfl, fun n hn => absurd hn not_mem_nil⟩
    | waiting ht _ _ _ _ hfires =>
      rw [hfires]
      refine ⟨ nil_prefix, fun hnone => ?_, fun n hn => absurd hn not_mem_nil⟩
      exact absurd (hnone ▸ ht) not_mem_nil
    | started _ hreached _ hfires =>
      rw [hfires, hreached]
      refine ⟨prefix_rfl, fun _ => rfl, fun n hn => hborn n ?_⟩
      rw [mem_singleton.1 hn]
      exact hreached
    | cancelled _ htrue => nomatch hcancelled.symm.trans htrue
  · rw [htracks.indexed.pending, ← htracks.perm_unsettled.length_eq, length_map]
  · rw [TimerRun.step, Option.isSome_map]
    exact htracks.indexed.schedule_isSome hroom deadlineMs _

theorem timers_fire_once_together :
    ∃ r, (TimerRun.new 4).run [.schedule 9, .schedule 5, .schedule 9, .advanceTo 9, .next, .next] =
      some r ∧ (r.starts.map (·.2)).Pairwise TimerRun.Before ∧ r.fires 1 = [1] := by
  obtain ⟨r, hr⟩ := Option.isSome_iff_exists.1 (show ((TimerRun.new 4).run [.schedule 9,
    .schedule 5, .schedule 9, .advanceTo 9, .next, .next]).isSome by decide)
  have hfires : ((TimerRun.new 4).run [.schedule 9, .schedule 5, .schedule 9, .advanceTo 9, .next,
    .next]).map (·.fires 1) = some [1] := by decide
  rw [hr] at hfires
  exact ⟨r, hr, (timers_fire_once 4 _ r hr).2.1, Option.some.inj hfires⟩

/-! ## Cancelling -/

namespace TimerRun

variable {r r' : TimerRun} {k : ℕ} {t : TimerEntry ℕ}

/-- A call of `Cancel` is heeded: it returns true for a timer whose callback has not started
    and that was not cancelled, and that callback never runs. -/
def Heeded (r : TimerRun) (id : TimerId) : Prop :=
  ∀ k rec, r.records[k]? = some rec → rec.id = id → rec.cancelled = false → r.fires k = [] →
    (r.wheel.cancel id).2 = true ∧
      ∀ calls r', (r.step (.cancel id)).bind (·.run calls) = some r' → r'.fires k = []

@[simp] theorem records_start (r : TimerRun) (due : List (TimerEntry ℕ)) :
    (r.start due).records = r.records := by
  cases due <;> rfl

/-- A timer stays cancelled. -/
theorem cancelled_step {call : TimerCall} (hstep : r.step call = some r')
    (h : ∃ rec, r.records[k]? = some rec ∧ rec.cancelled = true) :
    ∃ rec, r'.records[k]? = some rec ∧ rec.cancelled = true := by
  obtain ⟨rec, hrec, hcancelled⟩ := h
  cases call with
  | schedule =>
    obtain ⟨⟨w, id⟩, -, rfl⟩ := Option.map_eq_some_iff.1 hstep
    cases id with
    | none => exact ⟨rec, hrec, hcancelled⟩
    | some =>
      refine ⟨rec, ?_, hcancelled⟩
      exact (List.getElem?_append_left (List.getElem?_eq_some_iff.1 hrec).1).trans hrec
  | cancel =>
    cases hstep
    refine ⟨_, List.getElem?_mapIdx.trans (congrArg _ hrec), ?_⟩
    simp only [apply_ite TimerRecord.cancelled, hcancelled, ite_self]
  | advanceTo =>
    rw [step] at hstep
    split at hstep
    · cases hstep
      rw [records_start]
      refine ⟨_, List.getElem?_map.trans (congrArg _ hrec), ?_⟩
      simp only [apply_ite TimerRecord.cancelled, hcancelled, ite_self]
    · cases hstep
  | next =>
    rw [step] at hstep
    split at hstep
    · cases hstep
    · cases hstep
      rw [records_start]
      exact ⟨rec, hrec, hcancelled⟩

/-- Every collected timer fires, whatever is cancelled, if the callbacks return. -/
theorem exists_fires (ht : t ∈ r.waiting) :
    ∃ calls r', r.run calls = some r' ∧ r'.fires t.callback ≠ [] := by
  induction hwaiting : r.waiting generalizing r with
  | nil => exact absurd (hwaiting ▸ ht) not_mem_nil
  | cons first rest ih =>
    have hnext : r.step .next = some (r.start (first :: rest)) := by
      rw [step, hwaiting, if_neg (cons_ne_nil first rest)]
    rw [hwaiting] at ht
    rcases mem_cons.1 ht with rfl | ht
    · refine ⟨[.next], _, by rw [run, foldlM_cons, hnext]; rfl, fun hnil => ?_⟩
      simp [fires, start] at hnil
    · obtain ⟨calls, r', hrun, hfires⟩ := ih (r := r.start (first :: rest)) ht rfl
      exact ⟨.next :: calls, r', by rw [run, foldlM_cons, hnext]; exact hrun, hfires⟩

end TimerRun

open TimerRun in
/-- In every run, a call of `Cancel` is heeded just if no timer with the identifier has been
    collected whose callback has not started. -/
theorem cancel_heeded_iff (slotCount : ℕ) (calls : List TimerCall) (r : TimerRun)
    (h : (TimerRun.new slotCount).run calls = some r) (id : TimerId) :
    r.Heeded id ↔ ∀ t ∈ r.waiting, t.id ≠ id := by
  have htracks := (tracks_new slotCount).run h
  have hcancel := htracks.cancel id
  constructor
  · rintro hheeded t ht rfl
    have hlt := htracks.known t (mem_append_right _ (mem_append_right _ ht))
    have hrec := getElem?_eq_getElem hlt
    cases htracks.stands _ _ hrec with
    | pending ht' hk => exact htracks.not_mem_waiting ht' (mem_map.2 ⟨t, ht, hk.symm⟩)
    | waiting ht' hk hid _ hcancelled hfires =>
      obtain rfl := inj_on_of_nodup_map htracks.nodup (mem_append_right _ ht)
        (mem_append_right _ ht') hk.symm
      -- the callback starts when those before it have returned
      obtain ⟨calls, r', hrun, hstarted⟩ := exists_fires
        (r := { r with
          wheel := (r.wheel.cancel t.id).1
          records := r.markCancelled t.id (r.wheel.cancel t.id).2 }) ht
      exact hstarted ((hheeded _ _ hrec hid.symm hcancelled hfires).2 calls r' hrun)
    | started hend | cancelled hend => exact hend (mem_map.2 ⟨t, mem_append_right _ ht, rfl⟩)
  · intro hnone k rec hrec hid hcancelled hfires
    cases htracks.stands k rec hrec with
    | @pending t ht hk hid' =>
      have hanswer : (r.wheel.cancel id).2 := by
        rw [(htracks.indexed.cancel_eq id).2.1]
        exact any_eq_true.2 ⟨t, ht, decide_eq_true (hid'.trans hid)⟩
      refine ⟨hanswer, fun calls r' hrun => ?_⟩
      have hmarked : ∃ rec', (r.markCancelled id (r.wheel.cancel id).2)[k]? = some rec' ∧
          rec'.cancelled = true := by
        rw [markCancelled, getElem?_mapIdx, hrec, hanswer]
        refine ⟨_, rfl, ?_⟩
        dsimp only
        rw [if_pos]
        exact Bool.and_eq_true_iff.2 ⟨rfl, any_eq_true.2 ⟨t, ht, by simp [hk, hid', hid]⟩⟩
      obtain ⟨rec', hrec', htrue⟩ := (runs_of_foldlM hrun).invariant
        (P := fun r => ∃ rec, r.records[k]? = some rec ∧ rec.cancelled = true) hmarked
        fun _ _ _ hcancelled hstep => cancelled_step hstep hcancelled
      cases (hcancel.run hrun).stands k rec' hrec' with
      | cancelled _ _ hfires => exact hfires
      | pending _ _ _ _ _ hfalse | waiting _ _ _ _ hfalse | started _ _ hfalse =>
        nomatch htrue.symm.trans hfalse
    | waiting ht _ hid' => exact absurd (hid'.trans hid) (hnone _ ht)
    | started _ _ _ hstarted => nomatch hfires.symm.trans hstarted
    | cancelled _ htrue => nomatch hcancelled.symm.trans htrue

theorem cancel_heeded_iff_pending :
    ∃ r, (TimerRun.new 4).run [.schedule 5] = some r ∧ r.Heeded 1 := by
  obtain ⟨r, hr⟩ := Option.isSome_iff_exists.1
    (show ((TimerRun.new 4).run [.schedule 5]).isSome by decide)
  have hnone : ((TimerRun.new 4).run [.schedule 5]).map (·.waiting) = some [] := by decide
  rw [hr] at hnone
  refine ⟨r, hr, (cancel_heeded_iff 4 _ r hr 1).2 fun t ht => ?_⟩
  have hnil : r.waiting = [] := Option.some.inj hnone
  exact absurd (hnil ▸ ht) not_mem_nil

/-- The callback of the first of two timers with the same deadline runs; the second was
    collected with it. -/
def TimerRun.batch : TimerRun :=
  ((TimerRun.new 4).run [.schedule 5, .schedule 5, .advanceTo 5]).getD (.new 4)

/-- Calls of `Cancel` are not always heeded: that callback cannot cancel the second timer. -/
theorem cancel_unheeded :
    ¬∀ slotCount calls r, (TimerRun.new slotCount).run calls = some r → ∀ id, r.Heeded id := by
  intro hall
  have hheeded := hall 4 [.schedule 5, .schedule 5, .advanceTo 5] TimerRun.batch (by decide) 2
  have hfalse : (TimerRun.batch.wheel.cancel 2).2 = false := by decide
  have hanswer := (hheeded 1 { id := 2, deadlineMs := 5, born := 0, reached := some 1 } (by decide)
    rfl rfl (by decide)).1
  rw [hfalse] at hanswer
  nomatch hanswer

end Netstack2
