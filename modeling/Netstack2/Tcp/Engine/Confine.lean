import Netstack2.Tcp.Engine.Receives
import Netstack2.Tcp.Send.Fin

/-!
# A segment concerns its own flow

A segment is to be answered on its own flow, and to leave the connections of other flows
as they are, except that one of them may be removed from TIME-WAIT to make room for the
connection of the segment.

The handlers keep a reference to a slot of the table while a connection is moved to
TIME-WAIT. Where the removal of another one makes room, the last connection of the
table moves to its slot, and the reference may be to a slot that is not there any more,
or stands for the connection of another flow (`segment_answered_for_other_flow`).
`segment_confined_to_flow_iff` says for which segments this is so
(`TcpHandshakeEngine.losesSlot`): they move their connection to TIME-WAIT, where it is
the last of the table or the one that makes room.
-/

namespace Netstack2

open List

variable {κ : Type}

namespace Pcb

/-- The FIN of the segment is the next to come. Payload before it is new, and the
    connection still takes payload. -/
def takesFin (p : Pcb κ) (segment : TcpSegmentView) : Bool :=
  segment.hasFlag TcpFlag.fin && p.receive.any fun r =>
    if segment.payload = [] then segment.sequence = r.rcvNxt
    else
      let (r', received) :=
        r.onSegment segment.sequence segment.payload (segment.hasFlag TcpFlag.psh)
      !p.state.pastFin && received.disposition ∉ [.invalid, .duplicate, .outOfWindow] &&
        segment.sequence + UInt32.ofNat segment.payload.length = r'.rcvNxt

/-- Our FIN is acknowledged, by the segment at the latest. -/
def acksFin (p : Pcb κ) (segment : TcpSegmentView) : Bool :=
  p.send.any fun send => send.finAcked || send.coversFin segment.acknowledgment

/-- The segment passes the checks, so that its window and its acknowledgment count. -/
def accepts (p : Pcb κ) (segment : TcpSegmentView) : Bool :=
  p.receive.any fun r =>
    !segment.hasFlag TcpFlag.syn && segment.hasFlag TcpFlag.ack &&
      !sequenceAfter segment.acknowledgment p.currentSndNxt &&
      p.checkTimestamp segment ∉ [.invalid, .old] &&
      r.isSequenceAcceptable segment.sequence
        (segment.payload.length + if segment.hasFlag TcpFlag.fin then 1 else 0)

/-- The segment moves the connection to TIME-WAIT, once it is accepted. -/
def entersTimeWait (p : Pcb κ) (segment : TcpSegmentView) : Bool :=
  match p.state with
  | .finWait1 => p.acksFin segment && p.takesFin segment
  | .finWait2 => p.takesFin segment
  | .closing => p.acksFin segment || p.takesFin segment
  | _ => false

/-- The connection is open; the peer has closed it only if `fin`. -/
def StandsOpen (fin : Bool) (p : Pcb κ) : Prop :=
  p.state = .established ∨ fin = true ∧ p.state = .closeWait

/-- What a move to TIME-WAIT reads of a connection, its flow apart. -/
def timeWaitKey (p : Pcb κ) : Bool × ℕ × ℕ :=
  (p.state = .timeWait, p.timewaitDeadlineMs, p.generation)

end Pcb

theorem TimerWheel.isSome_schedule {α : Type} (w : TimerWheel α) (deadlineMs : ℕ) (callback : α) :
    (w.schedule deadlineMs callback).isSome =
      !decide (deadlineMs ≤ w.cursorMs ∧ w.cursorMs = 2 ^ 64 - 1) := by
  rw [TimerWheel.schedule]
  split
  case isTrue hend => rw [decide_eq_true hend]; rfl
  case isFalse hend => rw [decide_eq_false hend]; rfl

namespace TcpHandshakeEngine

/-- Moving the connection at `i` to TIME-WAIT leaves it in its slot: nothing has to make room, or
    what does is another connection, and the one at `i` is not the last, which moves then. -/
def keepsSlot (e : TcpHandshakeEngine κ) (i : ℕ) : Bool :=
  match if e.timeWaitFull then e.oldestTimeWait else none with
  | none => true
  | some oldest => oldest ≠ i && i + 1 ≠ e.pcbs.length

/-- The timer that ends TIME-WAIT can be set: the surroundings allow it, and the wheel has
    not come to the end of its time. -/
def timeWaitSettable (env : Env) (e : TcpHandshakeEngine κ) (p : Pcb κ) (nowMs : ℕ) : Bool :=
  !env.timerFails (.timeWait p.incomingFlow p.generation) &&
    !decide (saturatingAdd nowMs e.config.timewaitMs ≤ e.timers.cursorMs ∧
      e.timers.cursorMs = 2 ^ 64 - 1)

/-- The connection may be moved to TIME-WAIT while its slot is referred to: it stays there,
    or is given up for want of a timer. -/
def mayMove (env : Env) (e : TcpHandshakeEngine κ) (i : ℕ) (p : Pcb κ) (nowMs : ℕ) : Bool :=
  e.keepsSlot i || !e.timeWaitSettable env p nowMs

/-- The segment moves the connection to TIME-WAIT, and its slot is not its own any more when
    it is answered. In TIME-WAIT a FIN moves the connection there again; if it makes room
    itself, the last connection of the table is answered for, unless it is half-open. -/
def leavesSlot (env : Env) (e : TcpHandshakeEngine κ) (i : ℕ) (p : Pcb κ)
    (segment : TcpSegmentView) (nowMs : ℕ) : Bool :=
  if p.state = .timeWait then
    segment.hasFlag TcpFlag.fin && !e.keepsSlot i &&
      (i + 1 = e.pcbs.length || e.pcbs.getLast?.any (·.receive.isSome))
  else p.accepts segment && p.entersTimeWait segment && !e.mayMove env i p nowMs

/-- As `leavesSlot`, for any segment: a reset moves no connection to TIME-WAIT. -/
def losesSlot (env : Env) (e : TcpHandshakeEngine κ) (i : ℕ) (p : Pcb κ)
    (segment : TcpSegmentView) (nowMs : ℕ) : Bool :=
  !segment.hasFlag TcpFlag.rst && e.leavesSlot env i p segment nowMs

/-- The connections of other flows. -/
def others (e : TcpHandshakeEngine κ) (flow : FlowKey) : List (Pcb κ) :=
  e.pcbs.filter (·.incomingFlow ≠ flow)

variable {e e' e'' : TcpHandshakeEngine κ} {flow : FlowKey} {i m n : ℕ} {p q : Pcb κ}
  {env : Env} {nowMs : ℕ} {segment : TcpSegmentView} {result : TcpHandshakeResult} {fin : Bool}
  {P Q : TcpHandshakeEngine κ → Prop} {ok ok' : Prop}
  {outcome : Option (TcpHandshakeEngine κ × TcpHandshakeResult)}

/-! ## What becomes of other flows -/

/-- From `e` to `e'`, the connections of other flows are left as they are, except for
    at most `n` in TIME-WAIT, which are removed. -/
def Spares (flow : FlowKey) (n : ℕ) (e e' : TcpHandshakeEngine κ) : Prop :=
  ∃ gone : List (Pcb κ), gone.length ≤ n ∧ (∀ q ∈ gone, q.state = .timeWait) ∧
    (gone ++ e'.others flow).Perm (e.others flow)

theorem Spares.of_perm (h : (e'.others flow).Perm (e.others flow)) : Spares flow n e e' :=
  ⟨[], Nat.zero_le n, by simp, h⟩

theorem Spares.refl : Spares flow n e e := .of_perm (.refl _)

theorem Spares.trans (h : Spares flow m e e') (h' : Spares flow n e' e'') :
    Spares flow (m + n) e e'' := by
  obtain ⟨gone, hlen, hgone, hperm⟩ := h
  obtain ⟨gone', hlen', hgone', hperm'⟩ := h'
  refine ⟨gone ++ gone', ?_, fun q hq => ?_, ?_⟩
  · rw [length_append]
    exact add_le_add hlen hlen'
  · exact (mem_append.1 hq).elim (hgone q) (hgone' q)
  · rw [append_assoc]
    exact (hperm'.append_left gone).trans hperm

theorem Spares.mono (h : Spares flow m e e') (hmn : m ≤ n) : Spares flow n e e' := by
  obtain ⟨gone, hlen, hgone, hperm⟩ := h
  exact ⟨gone, le_trans hlen hmn, hgone, hperm⟩

theorem Spares.after (h : Spares flow 0 e e') (h' : Spares flow n e' e'') : Spares flow n e e'' :=
  (h.trans h').mono (le_of_eq (zero_add n))

theorem spares_one_iff : Spares flow 1 e e' ↔ (e'.others flow).Perm (e.others flow) ∨
    ∃ q, q.state = .timeWait ∧ (q :: e'.others flow).Perm (e.others flow) := by
  constructor
  · rintro ⟨gone, hlen, hgone, hperm⟩
    rcases gone with _ | ⟨q, _ | ⟨q', gone⟩⟩
    · exact .inl hperm
    · exact .inr ⟨q, hgone q (mem_singleton_self q), hperm⟩
    · simp at hlen
  · rintro (hperm | ⟨q, hstate, hperm⟩)
    · exact .of_perm hperm
    · exact ⟨[q], le_refl 1, by simpa using hstate, hperm⟩

/-! ## The slot of a connection -/

/-- The connection `p` of `flow` stands at `i`, and no two connections have one flow. -/
structure At (e : TcpHandshakeEngine κ) (flow : FlowKey) (i : ℕ) (p : Pcb κ) : Prop where
  slot : e.pcbs[i]? = some p
  flow : p.incomingFlow = flow
  names : (e.pcbs.map Pcb.incomingFlow).Nodup

/-- `e'` is `e` with the connection `q` at `i`; its timers and counters may differ. -/
structure Replaces (e : TcpHandshakeEngine κ) (i : ℕ) (q : Pcb κ) (e' : TcpHandshakeEngine κ) :
    Prop where
  config : e'.config = e.config
  pcbs : e'.pcbs = e.pcbs.set i q
  cursorMs : e'.timers.cursorMs = e.timers.cursorMs

theorem update_replaces (e : TcpHandshakeEngine κ) (i : ℕ) (q : Pcb κ) (seen : List Observed) :
    Replaces e i q (e.update i q seen) := ⟨rfl, rfl, rfl⟩

theorem Replaces.of_sameTable (h : Replaces e' i q e'') (hs : SameTable e' e)
    (hcursor : e'.timers.cursorMs = e.timers.cursorMs) : Replaces e i q e'' :=
  ⟨h.config.trans hs.config, h.pcbs.trans (by rw [hs.pcbs]), h.cursorMs.trans hcursor⟩

theorem cursorMs_cancelTimer (e : TcpHandshakeEngine κ) (id : TimerId) :
    (e.cancelTimer id).timers.cursorMs = e.timers.cursorMs := by
  rw [cancelTimer]
  split <;> rfl

theorem cursorMs_removeAt (e : TcpHandshakeEngine κ) (i : ℕ) :
    (e.removeAt i).timers.cursorMs = e.timers.cursorMs := by
  rw [removeAt]
  split
  · rfl
  · exact (cursorMs_cancelTimer ..).trans
      ((cursorMs_cancelTimer ..).trans (cursorMs_cancelTimer ..))

theorem cancelTimer_replaces (e : TcpHandshakeEngine κ) (id : TimerId) (i : ℕ) (q : Pcb κ)
    (seen : List Observed) : Replaces e i q ((e.cancelTimer id).update i q seen) :=
  (update_replaces ..).of_sameTable (cancelTimer_sameBooks ..).toSameTable
    (cursorMs_cancelTimer ..)

theorem schedule_replaces (e : TcpHandshakeEngine κ) (env : Env) (deadlineMs : ℕ)
    (action : TimerAction) (i : ℕ) (q : Pcb κ) (seen : List Observed) :
    Replaces e i q ((e.schedule env deadlineMs action).1.update i q seen) := by
  refine (update_replaces ..).of_sameTable (schedule_sameBooks ..).toSameTable ?_
  rw [schedule]
  split
  · rfl
  · split
    case h_1 hset =>
      obtain ⟨_, rfl⟩ := TimerWheel.schedule_eq_some hset
      rfl
    case h_2 => rfl

theorem Replaces.trans (h : Replaces e i p e') (h' : Replaces e' i q e'') : Replaces e i q e'' :=
  ⟨h'.config.trans h.config, by rw [h'.pcbs, h.pcbs, set_set], h'.cursorMs.trans h.cursorMs⟩

section

variable (h : At e flow i p)

include h

theorem At.lt : i < e.pcbs.length := (List.getElem?_eq_some_iff.1 h.slot).1

theorem At.replaces_self : Replaces e i p e := by
  obtain ⟨hlt, rfl⟩ := List.getElem?_eq_some_iff.1 h.slot
  exact ⟨rfl, (set_getElem_self hlt).symm, rfl⟩

theorem At.replace (hr : Replaces e i q e') (hq : q.incomingFlow = flow) : At e' flow i q where
  slot := by rw [hr.pcbs, getElem?_set_self h.lt]
  flow := hq
  names := by
    rw [hr.pcbs, map_set_of_eq h.slot (hq.trans h.flow.symm)]
    exact h.names

theorem At.spares (hr : Replaces e i q e') (hq : q.incomingFlow = flow) : Spares flow n e e' := by
  refine .of_perm (.of_eq ?_)
  rw [others, hr.pcbs]
  exact filter_set_of_neg h.slot (by simp [h.flow]) (by simp [hq])

/-- The connection of the flow is removed. -/
theorem At.removeAt : Spares flow n e (e.removeAt i) := by
  refine .of_perm ?_
  have hperm := (perm_swapPop h.slot).filter (·.incomingFlow ≠ flow)
  rwa [filter_cons_of_neg (by simp [h.flow]), ← removeAt_pcbs] at hperm

theorem At.unique {j : ℕ} (hj : e.pcbs[j]? = some q) (hq : q.incomingFlow = flow) : j = i := by
  refine (getElem?_inj (by simpa using h.lt) h.names).1 ?_ |>.symm
  rw [getElem?_map, getElem?_map, h.slot, hj, Option.map_some, Option.map_some, h.flow, hq]

theorem At.findIndex : e.findIndex flow = some (i, p) := by
  rcases hfind : e.findIndex flow with _ | ⟨j, q⟩
  · have := findSlot_eq_none hfind p (mem_of_getElem? h.slot)
    simp [h.flow] at this
  · obtain ⟨hj, hq⟩ := findSlot_eq_some hfind
    obtain rfl := h.unique hj (of_decide_eq_true hq)
    rw [h.slot] at hj
    rw [Option.some.inj hj]

end

/-! ## Moving to TIME-WAIT -/

theorem oldestTimeWaitFrom_congr {pcbs pcbs' : List (Pcb κ)}
    (h : pcbs'.map Pcb.timeWaitKey = pcbs.map Pcb.timeWaitKey) (k deadline : ℕ) (oldest : Option ℕ) :
    oldestTimeWaitFrom pcbs' k deadline oldest = oldestTimeWaitFrom pcbs k deadline oldest := by
  induction pcbs generalizing pcbs' k deadline oldest with
  | nil => rw [map_eq_nil_iff.1 h]
  | cons _ _ ih =>
    obtain ⟨_, _, rfl, hkey, hrest⟩ := map_eq_cons_iff.1 h
    obtain ⟨hstate, hrest'⟩ := Prod.mk.inj hkey
    have hdeadline := (Prod.mk.inj hrest').1
    rw [decide_eq_decide] at hstate
    rw [oldestTimeWaitFrom, oldestTimeWaitFrom, ih hrest, ih hrest]
    simp only [hstate, hdeadline]

/-- If the connection at `i` does not keep its slot, one is removed: this one, or another,
    and then it is the last. -/
theorem Evicts.moves (h : Evicts e e') (hmoves : e.keepsSlot i = false) :
    ∃ o q, e.pcbs[o]? = some q ∧ q.state = .timeWait ∧ e'.pcbs = swapPop e.pcbs o ∧
      e'.timers.cursorMs = e.timers.cursorMs ∧ (o = i ∨ i + 1 = e.pcbs.length) := by
  rw [keepsSlot] at hmoves
  cases h with
  | nothing hnone =>
    have hroom : (if e.timeWaitFull then e.oldestTimeWait else none) = none := by
      split
      · exact hnone ‹_›
      · rfl
    simp [hroom] at hmoves
  | @oldest o q _ hfull hold hq hwaits hpcbs hremoved =>
    rw [if_pos hfull, hold] at hmoves
    refine ⟨o, q, hq, hwaits, hpcbs, ?_, ?_⟩
    · rw [hremoved]
      exact cursorMs_removeAt e o
    · by_contra hother
      simp only [not_or] at hother
      simp [hother] at hmoves

theorem isSome_schedule (env : Env) (e : TcpHandshakeEngine κ) (deadlineMs : ℕ)
    (action : TimerAction) : (e.schedule env deadlineMs action).2.isSome =
      (!env.timerFails action &&
        !decide (deadlineMs ≤ e.timers.cursorMs ∧ e.timers.cursorMs = 2 ^ 64 - 1)) := by
  rw [← TimerWheel.isSome_schedule e.timers deadlineMs action, schedule]
  split
  case isTrue hfails => rw [hfails]; rfl
  case isFalse hfails =>
    rw [Bool.not_eq_true] at hfails
    rw [hfails]
    split
    case h_1 hsome => rw [hsome]; rfl
    case h_2 hnone => rw [hnone]; rfl

theorem moveToTimeWait_replaces (e : TcpHandshakeEngine κ) (env : Env) (j : ℕ) (a : Pcb κ)
    (nowMs : ℕ) : ∃ deadlineMs timer,
      Replaces e j (a.enterTimeWait deadlineMs timer) (e.moveToTimeWait env j a nowMs).1 :=
  ⟨_, _, schedule_replaces ..⟩

section

variable (h : At e flow i p)

include h

section

variable (hr : Replaces e i q e') (hkey : q.timeWaitKey = p.timeWaitKey)

include hr hkey

theorem At.room :
    e'.timeWaitFull = e.timeWaitFull ∧ e'.oldestTimeWait = e.oldestTimeWait := by
  have hkeys : e'.pcbs.map Pcb.timeWaitKey = e.pcbs.map Pcb.timeWaitKey := by
    rw [hr.pcbs, map_set_of_eq h.slot hkey]
  have hcount : ∀ l : List (Pcb κ), l.countP (·.state = .timeWait) =
      (l.map Pcb.timeWaitKey).countP Prod.fst := fun l => by
    rw [countP_map]
    rfl
  rw [timeWaitFull, timeWaitFull, hcount, hcount, hkeys, hr.config]
  exact ⟨rfl, oldestTimeWaitFrom_congr hkeys ..⟩

theorem At.keepsSlot : e'.keepsSlot i = e.keepsSlot i := by
  obtain ⟨hfull, holdest⟩ := h.room hr hkey
  rw [TcpHandshakeEngine.keepsSlot, TcpHandshakeEngine.keepsSlot, hfull, holdest, hr.pcbs,
    length_set]

theorem At.mayMove (hq : q.incomingFlow = flow) :
    e'.mayMove env i q nowMs = e.mayMove env i p nowMs := by
  have hgeneration : q.generation = p.generation := (Prod.mk.inj (Prod.mk.inj hkey).2).2
  rw [TcpHandshakeEngine.mayMove, TcpHandshakeEngine.mayMove, h.keepsSlot hr hkey,
    timeWaitSettable, timeWaitSettable, hr.config, hr.cursorMs, hq, h.flow, hgeneration]

end

variable (env nowMs)

/-- A connection enters TIME-WAIT where it is once there is room. -/
theorem At.scheduleTimeWait_eq :
    ∃ e₁, Evicts e e₁ ∧ ∀ {j}, At e₁ flow j p →
      e.scheduleTimeWait env i nowMs = e₁.moveToTimeWait env j p nowMs := by
  obtain ⟨e₁, hroom, hcases⟩ := scheduleTimeWait_spec h.slot env nowMs
  refine ⟨e₁, hroom, fun {j} hj => ?_⟩
  rcases hcases with ⟨-, hlost⟩ | ⟨k, a, ha, hflow, heq⟩
  · exact absurd rfl (hlost j p (h.flow ▸ hj.findIndex))
  · obtain rfl := hj.unique ha (hflow.trans h.flow)
    obtain rfl := Option.some.inj (ha.symm.trans hj.slot)
    exact heq

/-- Another connection is removed from TIME-WAIT. -/
theorem At.evicts {o : ℕ} (hne : o ≠ i) (hq : e.pcbs[o]? = some q) (hstate : q.state = .timeWait)
    (hpcbs : e'.pcbs = swapPop e.pcbs o) :
    (e'.pcbs.map Pcb.incomingFlow).Nodup ∧ Spares flow 1 e e' := by
  have hperm := perm_swapPop hq
  rw [← hpcbs] at hperm
  refine ⟨(nodup_cons.1 ((hperm.map Pcb.incomingFlow).nodup_iff.2 h.names)).2, [q], le_refl 1,
    by simpa using hstate, ?_⟩
  have hother : q.incomingFlow ≠ flow := fun hflow => hne (h.unique hq hflow)
  have hfilter := hperm.filter (·.incomingFlow ≠ flow)
  rwa [filter_cons_of_pos (by simpa using hother)] at hfilter

/-- A connection that keeps its slot is moved to TIME-WAIT there. At most one other
    connection is removed. -/
theorem At.scheduleTimeWait (hkeeps : e.keepsSlot i) :
    ∃ deadlineMs timer,
      At (e.scheduleTimeWait env i nowMs).1 flow i (p.enterTimeWait deadlineMs timer) ∧
        Spares flow 1 e (e.scheduleTimeWait env i nowMs).1 := by
  obtain ⟨e₁, hroom, heq⟩ := h.scheduleTimeWait_eq env nowMs
  obtain ⟨h₁, hspares⟩ : At e₁ flow i p ∧ Spares flow 1 e e₁ := by
    cases hroom with
    | nothing => exact ⟨h, .refl⟩
    | @oldest _ _ _ hfull hold hq hstate hpcbs =>
      rw [TcpHandshakeEngine.keepsSlot, if_pos hfull, hold] at hkeeps
      obtain ⟨hne, hlast⟩ := Bool.and_eq_true_iff.1 hkeeps
      replace hne := of_decide_eq_true hne
      replace hlast := of_decide_eq_true hlast
      have hlt := h.lt
      obtain ⟨hnames, hspares⟩ := h.evicts hne hq hstate hpcbs
      refine ⟨⟨?_, h.flow, hnames⟩, hspares⟩
      rw [hpcbs, getElem?_swapPop hne.symm (by omega), h.slot]
  obtain ⟨deadlineMs, timer, hr⟩ := moveToTimeWait_replaces e₁ env i p nowMs
  rw [heq h₁]
  exact ⟨deadlineMs, timer, h₁.replace hr h.flow, hspares.trans (h₁.spares (n := 0) hr h.flow)⟩

/-- A connection that does not keep its slot is moved to TIME-WAIT in the slot of the one
    that makes room, and its own is not there any more. -/
theorem At.scheduleTimeWait_moves (hstate : p.state ≠ .timeWait) (hmoves : e.keepsSlot i = false) :
    (e.scheduleTimeWait env i nowMs).1.pcbs[i]? = none ∧
      (e.scheduleTimeWait env i nowMs).2 = e.timeWaitSettable env p nowMs ∧
      Spares flow 1 e (e.scheduleTimeWait env i nowMs).1 := by
  obtain ⟨e₁, hroom, heq⟩ := h.scheduleTimeWait_eq env nowMs
  obtain ⟨o, q, hq, hwaits, hpcbs, hcursor, hlast⟩ := hroom.moves hmoves
  have hqp : q ≠ p := by
    rintro rfl
    exact hstate hwaits
  have hne : o ≠ i := by
    rintro rfl
    exact hqp (Option.some.inj (hq.symm.trans h.slot))
  have hlen := length_swapPop (List.getElem?_eq_some_iff.1 hq).1
  obtain ⟨hnames, hspares⟩ := h.evicts hne hq hwaits hpcbs
  -- the connection is found again
  obtain ⟨j, hj⟩ := List.getElem?_of_mem ((List.mem_cons.1
    ((perm_swapPop hq).mem_iff.2 (List.mem_of_getElem? h.slot))).resolve_left hqp.symm)
  rw [← hpcbs] at hj hlen
  have hat : At e₁ flow j p := ⟨hj, h.flow, hnames⟩
  obtain ⟨_, _, hr⟩ := moveToTimeWait_replaces e₁ env j p nowMs
  rw [heq hat]
  refine ⟨?_, ?_, hspares.trans (hat.spares (n := 0) hr h.flow)⟩
  · rw [hr.pcbs, List.getElem?_eq_none_iff, List.length_set]
    have := hlast.resolve_left hne
    omega
  · rw [moveToTimeWait, isSome_schedule, timeWaitSettable, hcursor, hroom.parameters.config]

/-- A connection that does not keep its slot, in TIME-WAIT already: the slot is not there any
    more, or has the connection that was the last. -/
theorem At.scheduleTimeWait_loses (hmoves : e.keepsSlot i = false) :
    (i + 1 = e.pcbs.length ∧ (e.scheduleTimeWait env i nowMs).1.pcbs[i]? = none) ∨
      i + 1 ≠ e.pcbs.length ∧ Spares flow 0 e (e.scheduleTimeWait env i nowMs).1 ∧
        ∃ b, e.pcbs.getLast? = some b ∧ (e.scheduleTimeWait env i nowMs).1.pcbs[i]? = some b ∧
          b.incomingFlow ≠ flow := by
  obtain ⟨e₁, hroom, hcases⟩ := scheduleTimeWait_spec h.slot env nowMs
  obtain ⟨o, q, hq, -, hpcbs, -, hlast⟩ := hroom.moves hmoves
  have hlen := length_swapPop (List.getElem?_eq_some_iff.1 hq).1
  rw [← hpcbs] at hlen
  by_cases hend : i + 1 = e.pcbs.length
  · refine .inl ⟨hend, List.getElem?_eq_none_iff.2 ?_⟩
    rcases hcases with ⟨heq, -⟩ | ⟨j, a, -, -, heq⟩
    · rw [heq]
      show e₁.pcbs.length ≤ i
      omega
    · obtain ⟨_, _, hr⟩ := moveToTimeWait_replaces e₁ env j a nowMs
      rw [heq, hr.pcbs, length_set]
      omega
  · -- the connection makes room itself, and is not found again
    obtain rfl := hlast.resolve_right hend
    have hlt := h.lt
    have hperm := perm_swapPop h.slot
    rw [← hpcbs] at hperm
    have hgone : ∀ a ∈ e₁.pcbs, a.incomingFlow ≠ flow := by
      intro a ha hflow
      have hnames := (hperm.map Pcb.incomingFlow).nodup_iff.2 h.names
      exact (nodup_cons.1 hnames).1 (mem_map.2 ⟨a, ha, hflow.trans h.flow.symm⟩)
    rcases hcases with ⟨heq, -⟩ | ⟨j, a, ha, hflow, -⟩
    · have hslot : e₁.pcbs[o]? = e.pcbs.getLast? := by rw [hpcbs, getElem?_swapPop_self (by omega)]
      obtain ⟨b, hb⟩ : ∃ b, e₁.pcbs[o]? = some b := ⟨_, List.getElem?_eq_getElem (by omega)⟩
      rw [heq]
      refine .inr ⟨hend, .of_perm ?_, b, hslot.symm.trans hb, hb, hgone b (mem_of_getElem? hb)⟩
      have hfilter := hperm.filter (·.incomingFlow ≠ flow)
      rwa [filter_cons_of_neg (by simp [h.flow])] at hfilter
    · exact absurd (hflow.trans h.flow) (hgone a (mem_of_getElem? ha))

/-- The connection is moved to TIME-WAIT, where it may be. If not, its slot is not there any
    more. -/
theorem At.waits (hstate : p.state ≠ .timeWait) :
    (e.mayMove env i p nowMs → Spares flow 1 e (e.scheduleTimeWait env i nowMs).1 ∧
      Spares flow 1 e ((e.scheduleTimeWait env i nowMs).1.removeAt i) ∧
      ((e.scheduleTimeWait env i nowMs).2 → ∃ deadlineMs timer,
        At (e.scheduleTimeWait env i nowMs).1 flow i (p.enterTimeWait deadlineMs timer))) ∧
    (¬e.mayMove env i p nowMs → (e.scheduleTimeWait env i nowMs).2 ∧
      (e.scheduleTimeWait env i nowMs).1.pcbs[i]? = none) := by
  rw [TcpHandshakeEngine.mayMove]
  rcases hkeeps : e.keepsSlot i with _ | _
  · obtain ⟨hnone, hset, hspares⟩ := h.scheduleTimeWait_moves env nowMs hstate hkeeps
    rw [hset, Bool.false_or, Bool.not_eq_true', Bool.not_eq_false]
    refine ⟨fun hfails => ⟨hspares, ?_, fun hsome => ?_⟩, fun hsome => ⟨hsome, hnone⟩⟩
    · -- there is nothing to remove
      rw [TcpHandshakeEngine.removeAt, hnone]
      exact hspares
    · simp [hsome] at hfails
  · obtain ⟨deadlineMs, timer, hwaiting, hspares⟩ := h.scheduleTimeWait env nowMs hkeeps
    exact ⟨fun _ => ⟨hspares, hspares.trans (n := 0) hwaiting.removeAt,
      fun _ => ⟨deadlineMs, timer, hwaiting⟩⟩, fun hnot => absurd rfl hnot⟩

end

/-- What follows a FIN: in two states the connection is moved to TIME-WAIT. -/
theorem handleFin_answer (r : TcpReceiveBuffer) :
    (if (e.handleFin env i p r nowMs).2.removed then
        some ((e.handleFin env i p r nowMs).1, result)
      else (e.handleFin env i p r nowMs).1.answer i nowMs result) =
    let taken := e.update i (p.takeFin r) p.finObserved
    if p.state = .finWait2 ∨ p.state = .closing then
      if (taken.scheduleTimeWait env i nowMs).2 = true then
        (taken.scheduleTimeWait env i nowMs).1.answer i nowMs result
      else some ((taken.scheduleTimeWait env i nowMs).1.removeAt i, result)
    else taken.answer i nowMs result := by
  rw [handleFin]
  dsimp only
  generalize (e.update i (p.takeFin r) p.finObserved).scheduleTimeWait env i nowMs = out
  obtain ⟨e', _ | _⟩ := out <;> cases p.state <;> rfl

/-! ## Answers -/

/-- What is answered goes back on the flow. -/
def Answers (flow : FlowKey) (response : Option TcpResponse) : Prop :=
  ∀ r, response = some r → r.flow = reverseFlow flow

theorem answers_none : Answers flow none := fun _ h => by cases h

theorem answers_buildReset (segment : TcpSegmentView) :
    Answers segment.flow (some (buildReset segment)) := by
  rintro _ ⟨⟩
  rw [buildReset]
  split <;> rfl

/-- If the connection `p` was open, it is at `i` still, and open. -/
def Stays (i : ℕ) (fin : Bool) (p : Pcb κ) (e : TcpHandshakeEngine κ) : Prop :=
  p.StandsOpen fin → ∃ q, e.pcbs[i]? = some q ∧ q.flowId = p.flowId ∧ q.StandsOpen fin

theorem At.stays (h : At e flow i p) : Stays i fin p e := fun hopen => ⟨p, h.slot, rfl, hopen⟩

theorem Stays.imp (h : Stays i fin q e) (hid : q.flowId = p.flowId)
    (hopen : p.StandsOpen fin → q.StandsOpen fin) : Stays i fin p e := fun hp => by
  obtain ⟨q', hslot, hid', hopen'⟩ := h (hopen hp)
  exact ⟨q', hslot, hid'.trans hid, hopen'⟩

/-- A call for a segment of `flow` returns, and concerns this flow only; at most `n`
    other connections are removed, from TIME-WAIT. Afterwards `P` holds. -/
def Confined (flow : FlowKey) (n : ℕ) (e : TcpHandshakeEngine κ) (P : TcpHandshakeEngine κ → Prop)
    (outcome : Option (TcpHandshakeEngine κ × TcpHandshakeResult)) : Prop :=
  ∃ e' result, outcome = some (e', result) ∧ Spares flow n e e' ∧
    Answers flow result.response ∧ P e'

theorem Confined.return (h : Spares flow n e e') (hr : Answers flow result.response) (hP : P e') :
    Confined flow n e P (some (e', result)) := ⟨e', result, rfl, h, hr, hP⟩

theorem Confined.after (h : Confined flow n e' P outcome) (hs : Spares flow m e e')
    (hP : ∀ {e''}, P e'' → Q e'') : Confined flow (m + n) e Q outcome := by
  obtain ⟨e'', result, heq, hspares, hr, hdone⟩ := h
  exact ⟨e'', result, heq, hs.trans hspares, hr, hP hdone⟩

theorem Confined.forget (h : Confined flow n e P outcome) :
    Confined flow n e (fun _ => True) outcome := by
  obtain ⟨e', result, heq, hspares, hr, -⟩ := h
  exact ⟨e', result, heq, hspares, hr, trivial⟩

/-- The call is confined to its flow if `ok`, and otherwise reads a slot that is not there. -/
def ConfinedIf (ok : Prop) (flow : FlowKey) (n : ℕ) (e : TcpHandshakeEngine κ)
    (P : TcpHandshakeEngine κ → Prop)
    (outcome : Option (TcpHandshakeEngine κ × TcpHandshakeResult)) : Prop :=
  (ok → Confined flow n e P outcome) ∧ (¬ok → outcome = none)

theorem Confined.anyway (h : Confined flow n e P outcome) (hok : ok) :
    ConfinedIf ok flow n e P outcome := ⟨fun _ => h, fun hno => absurd hok hno⟩

theorem ConfinedIf.imp (h : ConfinedIf ok flow m e' Q outcome)
    (himp : Confined flow m e' Q outcome → Confined flow n e P outcome) (hiff : ok' ↔ ok) :
    ConfinedIf ok' flow n e P outcome := by
  rw [ConfinedIf, hiff]
  exact ⟨fun hok => himp (h.1 hok), h.2⟩

theorem not_confined_none : ¬Confined flow n e P none := fun ⟨_, _, heq, _⟩ => by cases heq

/-- The call goes on with `q` in the slot of `p`. -/
theorem At.continue (h : At e flow i p) (hr : Replaces e i q e') (hq : q.incomingFlow = flow)
    (hid : q.flowId = p.flowId) (hopen : p.StandsOpen fin → q.StandsOpen fin)
    (hrest : Confined flow n e' (Stays i fin q) outcome) :
    Confined flow n e (Stays i fin p) outcome :=
  zero_add n ▸ hrest.after (h.spares (n := 0) hr hq) (·.imp hid hopen)

/-- The connection after an acknowledgment: it is in its state, and has its receive buffer,
    with the left edge where it was. -/
structure Acked (p q : Pcb κ) (response : Option TcpResponse) : Prop where
  incomingFlow : q.incomingFlow = p.incomingFlow
  flowId : q.flowId = p.flowId
  timeWaitKey : q.timeWaitKey = p.timeWaitKey
  state : q.state = p.state
  receive : ∀ r, p.receive = some r → ∃ r', q.receive = some r' ∧ r'.rcvNxt = r.rcvNxt
  answers : Answers p.incomingFlow response

theorem Acked.nothing (p : Pcb κ) (timer : TimerId) :
    Acked p { p with delayedAckTimer := timer } none :=
  ⟨rfl, rfl, rfl, rfl, fun r hr => ⟨r, hr, rfl⟩, answers_none⟩

theorem Acked.buildAck {r : TcpReceiveBuffer} (hr : p.receive = some r) (nowMs : ℕ) :
    Acked p (p.buildAck r nowMs).1 (some (p.buildAck r nowMs).2) where
  incomingFlow := rfl
  flowId := rfl
  timeWaitKey := rfl
  state := rfl
  receive r' hr' := by
    obtain rfl := Option.some.inj (hr'.symm.trans hr)
    obtain ⟨_, heq⟩ := r'.recordAdvertisedWindow_eq (p.representedWindow (p.windowField r'))
    refine ⟨_, rfl, ?_⟩
    rw [heq]
    rfl
  answers := by
    rintro _ ⟨⟩
    rfl

/-- The connection at `i` is acknowledged for. -/
def Acknowledges (e : TcpHandshakeEngine κ) (i : ℕ) (p : Pcb κ)
    (outcome : TcpHandshakeEngine κ × Option TcpResponse) : Prop :=
  ∃ q, Replaces e i q outcome.1 ∧ Acked p q outcome.2

section

variable (h : At e flow i p)

include h

theorem At.acknowledges_nothing : Acknowledges e i p (e, none) :=
  ⟨p, h.replaces_self, .nothing p p.delayedAckTimer⟩

theorem At.buildAck (nowMs : ℕ) : Acknowledges e i p (e.buildAck i p nowMs) := by
  rw [TcpHandshakeEngine.buildAck]
  split
  case h_1 => exact h.acknowledges_nothing
  case h_2 r hr => exact ⟨_, cancelTimer_replaces .., .buildAck hr nowMs⟩

theorem At.acknowledgePayload (env : Env) (decision : AckDecision) (becameBlocked : Bool)
    (nowMs : ℕ) :
    Acknowledges e i p (e.acknowledgePayload env i p decision becameBlocked nowMs) := by
  rw [TcpHandshakeEngine.acknowledgePayload]
  split
  · exact h.buildAck nowMs
  · split
    · -- the ACK is delayed, or sent if there is no timer for it
      rw [scheduleDelayedAck]
      by_cases htimer : p.delayedAckTimer ≠ 0
      · rw [if_pos htimer]
        exact h.acknowledges_nothing
      · rw [if_neg htimer]
        dsimp only
        have hr : ∀ timer, Replaces e i { p with delayedAckTimer := timer }
            ((e.schedule env (saturatingAdd nowMs e.config.delayedAckMs)
              (.delayedAck p.incomingFlow p.generation)).1.update i
                { p with delayedAckTimer := timer }) := fun timer => schedule_replaces ..
        split
        · exact ⟨_, hr _, .nothing p _⟩
        · rw [TcpHandshakeEngine.buildAck]
          split
          case h_1 => exact ⟨_, hr _, .nothing p _⟩
          case h_2 r hreceive =>
            exact ⟨_, (hr _).trans (cancelTimer_replaces ..), .buildAck hreceive nowMs⟩
    · exact h.acknowledges_nothing

theorem At.answer : Confined flow n e (Stays i fin p) (e.answer i nowMs result) := by
  rw [TcpHandshakeEngine.answer, h.slot]
  obtain ⟨_, hr, hacked⟩ := h.buildAck nowMs
  have hq := hacked.incomingFlow.trans h.flow
  refine .return (h.spares hr hq) (h.flow ▸ hacked.answers)
    ((h.replace hr hq).stays.imp hacked.flowId ?_)
  rw [Pcb.StandsOpen, Pcb.StandsOpen, hacked.state]
  exact id

/-! ## Segments of a connection -/

/-- The connection, which is not open, is moved to TIME-WAIT, and `rest` is done. It is given
    up if its timer cannot be set. -/
theorem At.waits_then (hstate : p.state ≠ .timeWait) (hclosed : ¬p.StandsOpen fin) (hn : 0 < n)
    (rest : TcpHandshakeEngine κ → Option (TcpHandshakeEngine κ × TcpHandshakeResult))
    (hresult : Answers flow result.response)
    (hrest : ∀ {e' deadlineMs timer}, At e' flow i (p.enterTimeWait deadlineMs timer) →
      Confined flow 0 e' (fun _ => True) (rest e'))
    (hlost : ∀ {e' : TcpHandshakeEngine κ}, e'.pcbs[i]? = none → rest e' = none) :
    ConfinedIf (e.mayMove env i p nowMs) flow n e (Stays i fin p)
      (if (e.scheduleTimeWait env i nowMs).2 then rest (e.scheduleTimeWait env i nowMs).1
      else some ((e.scheduleTimeWait env i nowMs).1.removeAt i, result)) := by
  obtain ⟨hmay, hmust⟩ := h.waits env nowMs hstate
  split
  case isTrue hset =>
    refine ⟨fun hok => ?_, fun hno => hlost (hmust hno).2⟩
    obtain ⟨hspares, -, hslot⟩ := hmay hok
    obtain ⟨_, _, hwaiting⟩ := hslot hset
    exact (hrest hwaiting).after (hspares.mono hn) fun _ hopen => absurd hopen hclosed
  case isFalse hset =>
    refine ⟨fun hok => ?_, fun hno => absurd (hmust hno).1 hset⟩
    exact .return ((hmay hok).2.1.mono hn) hresult fun hopen => absurd hopen hclosed

/-- The FIN of the peer. In two states it moves the connection to TIME-WAIT. -/
theorem At.answerFin (hn : p.state = .finWait2 ∨ p.state = .closing → 0 < n)
    (r : TcpReceiveBuffer) (hresult : Answers flow result.response) :
    ConfinedIf (p.state = .finWait2 ∨ p.state = .closing → e.mayMove env i p nowMs) flow n e
      (Stays i true p) (if (e.handleFin env i p r nowMs).2.removed then
        some ((e.handleFin env i p r nowMs).1, result)
      else (e.handleFin env i p r nowMs).1.answer i nowMs result) := by
  have hr := update_replaces e i (p.takeFin r) p.finObserved
  have htaken := h.replace hr h.flow
  have hopen : p.StandsOpen true → (p.takeFin r).StandsOpen true := fun hopen => by
    rcases hopen with hstate | ⟨-, hstate⟩ <;> exact .inr ⟨rfl, congrArg Pcb.stateAfterFin hstate⟩
  rw [handleFin_answer]
  split
  case isTrue hstate =>
    have hsame : (p.takeFin r).state = p.state := by
      rcases hstate with hstate | hstate <;> simp [Pcb.takeFin, hstate, Pcb.stateAfterFin]
    have hkey : (p.takeFin r).timeWaitKey = p.timeWaitKey := by
      rw [Pcb.timeWaitKey, hsame]
      rfl
    obtain ⟨hnot, hclosed⟩ : (p.takeFin r).state ≠ .timeWait ∧ ¬(p.takeFin r).StandsOpen true := by
      rw [Pcb.StandsOpen, hsame]
      rcases hstate with hstate | hstate <;> simp [hstate]
    rw [imp_iff_right hstate, ← h.mayMove hr hkey h.flow]
    refine ConfinedIf.imp (htaken.waits_then hnot hclosed (hn hstate) (·.answer i nowMs result)
      hresult (fun hat => ?_) fun hlost => ?_) (h.continue hr h.flow rfl hopen) .rfl
    · exact (show Confined flow 0 _ (Stays i true _) _ from hat.answer).forget
    · rw [TcpHandshakeEngine.answer, hlost]
  case isFalse hstate =>
    exact (h.continue hr h.flow rfl hopen htaken.answer).anyway fun hwaits => absurd hwaits hstate

end

/-- The FIN of the segment, if the connection takes it now, may move it to TIME-WAIT. -/
def FinFits (env : Env) (e : TcpHandshakeEngine κ) (i : ℕ) (p : Pcb κ) (segment : TcpSegmentView)
    (nowMs : ℕ) : Prop :=
  p.state = .finWait2 ∨ p.state = .closing → p.takesFin segment = true →
    e.mayMove env i p nowMs = true

theorem FinFits.of_not (h : p.takesFin segment = false) : FinFits env e i p segment nowMs :=
  fun _ htakes => absurd htakes (by rw [h]; exact Bool.false_ne_true)

variable {r : TcpReceiveBuffer} {timestamp : Option UInt32}

section

variable (h : At e flow i p) (hp : p.receive = some r)
  (hn : p.state = .finWait2 ∨ p.state = .closing → 0 < n)

include h hp hn

theorem At.processEmpty (hempty : segment.payload = []) (hresult : Answers flow result.response) :
    ConfinedIf (FinFits env e i p segment nowMs) flow n e (Stays i (segment.hasFlag TcpFlag.fin) p)
      (e.processEmpty env i p r segment timestamp nowMs result) := by
  have hr := update_replaces e i (p.takeEmpty r segment timestamp) []
  have htaken := h.replace hr h.flow
  have htakes : p.takesFin segment =
      (segment.hasFlag TcpFlag.fin && segment.sequence = r.rcvNxt) := by
    rw [Pcb.takesFin, hp, Option.any_some, if_pos hempty]
  rw [TcpHandshakeEngine.processEmpty]
  split
  case isTrue hfin =>
    exact (h.continue hr h.flow rfl id (.return .refl hresult htaken.stays)).anyway
      (.of_not (by rw [htakes, hfin, Bool.false_and]))
  case isFalse hfin =>
    rw [Bool.not_eq_false] at hfin
    rw [hfin]
    split
    case isTrue hnext =>
      refine ConfinedIf.imp (htaken.answerFin hn r hresult)
        (h.continue hr h.flow rfl id) ?_
      rw [FinFits, htakes, hfin, decide_eq_true hnext, h.mayMove hr rfl h.flow]
      exact forall_congr' fun _ => imp_iff_right rfl
    case isFalse hnext =>
      exact (h.continue hr h.flow rfl id (htaken.answer)).anyway
        (.of_not (by rw [htakes, decide_eq_false hnext, Bool.and_false]))

theorem At.processPayloadFin (disposition : ReceiveDisposition)
    (hresult : Answers flow result.response) :
    ConfinedIf (p.state = .finWait2 ∨ p.state = .closing → segment.hasFlag TcpFlag.fin →
        segment.sequence + UInt32.ofNat segment.payload.length = r.rcvNxt ∧
          disposition ≠ .duplicate ∧ disposition ≠ .outOfWindow →
        e.mayMove env i p nowMs) flow n e (Stays i (segment.hasFlag TcpFlag.fin) p)
      (e.processPayloadFin env i segment disposition nowMs result) := by
  rw [TcpHandshakeEngine.processPayloadFin]
  split
  case isTrue hfin =>
    exact (Confined.return .refl hresult h.stays).anyway fun _ hfin' => by simp [hfin] at hfin'
  case isFalse hfin =>
    rw [Bool.not_eq_false] at hfin
    simp only [h.slot, hp, hfin]
    split
    case isTrue hnext =>
      refine ConfinedIf.imp (h.answerFin hn r hresult) id ?_
      simp only [hnext, true_imp_iff, not_false_eq_true, ne_eq, and_self]
    case isFalse hnext =>
      refine Confined.anyway ?_ fun _ _ hnext' => absurd hnext' hnext
      split
      · exact h.answer
      · exact .return .refl hresult h.stays

theorem At.processPayload (hpayload : segment.payload ≠ []) (hresult : Answers flow result.response) :
    ConfinedIf (FinFits env e i p segment nowMs) flow n e (Stays i (segment.hasFlag TcpFlag.fin) p)
      (e.processPayload env i p r segment timestamp nowMs result) := by
  have htakes : p.takesFin segment = (segment.hasFlag TcpFlag.fin && (!p.state.pastFin &&
      (r.onSegment segment.sequence segment.payload (segment.hasFlag TcpFlag.psh)).2.disposition ∉
        [.invalid, .duplicate, .outOfWindow] &&
      segment.sequence + UInt32.ofNat segment.payload.length =
        (r.onSegment segment.sequence segment.payload (segment.hasFlag TcpFlag.psh)).1.rcvNxt)) := by
    rw [Pcb.takesFin, hp, Option.any_some, if_neg hpayload]
  rw [TcpHandshakeEngine.processPayload]
  split
  case isTrue hpast =>
    have hpast : p.state.pastFin := by rcases hpast with hs | hs | hs | hs <;> rw [hs] <;> rfl
    exact Confined.anyway (h.answer) (FinFits.of_not (by simp [htakes, hpast]))
  case isFalse hpast =>
    have hpast : p.state.pastFin = false := by cases hs : p.state <;> simp_all [TcpState.pastFin]
    dsimp only
    split
    case isTrue hinvalid =>
      refine Confined.anyway (.return .refl hresult h.stays) (FinFits.of_not ?_)
      have hinvalid : (r.onSegment segment.sequence segment.payload
        (segment.hasFlag TcpFlag.psh)).2.disposition = .invalid := hinvalid
      simp [htakes, hinvalid]
    case isFalse hvalid =>
      obtain ⟨_, _, _, _, _, -, heq⟩ := p.takePayload_eq r segment timestamp
        (env.trySend p.flowId) e.config.deliveryCallBudget
      have hnxt : (p.takePayload r segment timestamp (env.trySend p.flowId)
          e.config.deliveryCallBudget).delivery.buffer.rcvNxt = (r.onSegment segment.sequence
            segment.payload (segment.hasFlag TcpFlag.psh)).1.rcvNxt := Pcb.rcvNxt_drainSession ..
      have hreceived : (p.takePayload r segment timestamp (env.trySend p.flowId)
          e.config.deliveryCallBudget).received = (r.onSegment segment.sequence segment.payload
            (segment.hasFlag TcpFlag.psh)).2 := rfl
      rw [← hnxt, ← hreceived] at htakes
      generalize p.takePayload r segment timestamp (env.trySend p.flowId)
        e.config.deliveryCallBudget = t at heq hvalid htakes
      have hflow : t.pcb.incomingFlow = flow := by rw [heq]; exact h.flow
      have hr := update_replaces e i t.pcb (.received t.inOrder :: t.delivery.calls.map .trySend)
      have htaken := h.replace hr hflow
      obtain ⟨q, hr', hacked⟩ := htaken.acknowledgePayload env t.received.ackDecision
        (!r.blocked && t.delivery.buffer.blocked) nowMs
      have hq := htaken.replace hr' (hacked.incomingFlow.trans hflow)
      have hsame : q.state = p.state := hacked.state.trans (by rw [heq])
      have hkey : q.timeWaitKey = p.timeWaitKey := hacked.timeWaitKey.trans (by rw [heq]; rfl)
      obtain ⟨_, hreceive, hedge⟩ := hacked.receive t.delivery.buffer (by rw [heq])
      refine (hq.processPayloadFin hreceive (by rwa [hsame]) t.received.disposition
        (hflow ▸ hacked.answers)).imp (h.continue (hr.trans hr') hq.flow
          (hacked.flowId.trans (by rw [heq])) ?_) ?_
      · rw [Pcb.StandsOpen, Pcb.StandsOpen, hsame]
        exact id
      · rw [FinFits, htakes, hpast, hedge, hsame, h.mayMove (hr.trans hr') hkey hq.flow]
        simp [hvalid]
        exact ⟨fun hok hs hf hnext hd ho => hok hs hf hd ho hnext,
          fun hok hs hf hd ho hnext => hok hs hf hnext hd ho⟩

theorem At.processBody (hresult : Answers flow result.response) :
    ConfinedIf (FinFits env e i p segment nowMs) flow n e (Stays i (segment.hasFlag TcpFlag.fin) p)
      (e.processBody env i segment timestamp nowMs result) := by
  rw [TcpHandshakeEngine.processBody]
  simp only [h.slot, hp]
  split
  case isTrue hempty => exact h.processEmpty hp hn hempty hresult
  case isFalse hpayload => exact h.processPayload hp hn hpayload hresult

end

/-- A segment in TIME-WAIT is answered for the connection, unless this loses its slot. -/
theorem At.processTimeWait (h : At e flow i p) (hstate : p.state = .timeWait) :
    (e.leavesSlot env i p segment nowMs = false ∧
        Confined flow 1 e (Stays i fin p) (e.processTimeWait env i p segment nowMs)) ∨
      e.leavesSlot env i p segment nowMs = true ∧
        ¬Confined flow 1 e (fun _ => True) (e.processTimeWait env i p segment nowMs) := by
  have hclosed : ¬p.StandsOpen fin := by simp [Pcb.StandsOpen, hstate]
  rw [leavesSlot, if_pos hstate, TcpHandshakeEngine.processTimeWait]
  split
  case isFalse hfin =>
    rw [Bool.not_eq_true] at hfin
    exact .inl ⟨by simp [hfin], h.answer⟩
  case isTrue hfin =>
    have hr := cancelTimer_replaces e p.timewaitTimer i { p with timewaitTimer := 0 } []
    have hat := h.replace hr h.flow
    have hkept := h.keepsSlot hr rfl
    generalize (e.cancelTimer p.timewaitTimer).update i { p with timewaitTimer := 0 } = e₀
      at hr hat hkept
    have hspares : Spares flow 0 e e₀ := h.spares hr h.flow
    rcases hkeeps : e.keepsSlot i with _ | _
    case true =>
      obtain ⟨_, _, hwaiting, hevicts⟩ := hat.scheduleTimeWait env nowMs (hkept.trans hkeeps)
      exact .inl ⟨by simp, hwaiting.answer.after (n := 0) (hspares.after hevicts)
        (·.imp rfl fun hopen => absurd hopen hclosed)⟩
    case false =>
      have hlast : i + 1 ≠ e.pcbs.length → e₀.pcbs.getLast? = e.pcbs.getLast? := fun hne => by
        have hlt := h.lt
        rw [hr.pcbs, getLast?_eq_getElem?, getLast?_eq_getElem?, length_set,
          List.getElem?_set_ne (show i ≠ e.pcbs.length - 1 by omega)]
      have hloses := hat.scheduleTimeWait_loses env nowMs (hkept.trans hkeeps)
      have hlen : e₀.pcbs.length = e.pcbs.length := by rw [hr.pcbs, length_set]
      rw [hlen] at hloses
      rcases hloses with ⟨hend, hnone⟩ | ⟨hend, hspares', b, hb, hslot, hother⟩
      · rw [TcpHandshakeEngine.answer, hnone]
        exact .inr ⟨by simp [hfin, hend], not_confined_none⟩
      · rw [hlast hend] at hb
        have hcond : (segment.hasFlag TcpFlag.fin && !false && (i + 1 = e.pcbs.length ||
            e.pcbs.getLast?.any (·.receive.isSome))) = b.receive.isSome := by
          simp [hfin, hend, hb]
        rw [hcond, TcpHandshakeEngine.answer, hslot]
        dsimp only
        rw [TcpHandshakeEngine.buildAck]
        rcases hreceive : b.receive with _ | r
        · exact .inl ⟨rfl, .return (hspares.after (hspares'.mono (Nat.zero_le 1))) answers_none
            fun hopen => absurd hopen hclosed⟩
        · -- the answer goes to another flow
          refine .inr ⟨rfl, fun hconfined => ?_⟩
          obtain ⟨_, _, heq, -, hanswers, -⟩ := hconfined
          cases heq
          have hflow : reverseFlow b.incomingFlow = reverseFlow flow := hanswers _ rfl
          exact hother (by rw [← reverseFlow_reverseFlow b.incomingFlow, hflow,
            reverseFlow_reverseFlow])

variable [CongestionController κ]

omit [CongestionController κ] in
/-- Where no acknowledgment of our FIN changes the state, a FIN that is taken may move the
    connection to TIME-WAIT. -/
theorem Pcb.entersTimeWait_iff
    (hacks : p.acksFin segment → p.state ≠ .finWait1 ∧ p.state ≠ .closing) :
    p.entersTimeWait segment ↔
      (p.state = .finWait2 ∨ p.state = .closing) ∧ p.takesFin segment := by
  rw [Pcb.entersTimeWait]
  cases hs : p.state <;> cases ha : p.acksFin segment <;> simp_all

theorem Pcb.finAcked_onAck (p : Pcb κ) (segment : TcpSegmentView) (nowMs : ℕ) :
    (p.onAck segment nowMs).finAcked = p.acksFin segment := by
  rw [Pcb.finAcked, Pcb.onAck, Pcb.acksFin]
  rcases p.send with _ | send
  · rfl
  · dsimp only [Option.map_some, Option.any_some]
    rw [← send.finAcked_onAck segment.acknowledgment (p.scaledPeerWindow segment.window) nowMs
      segment.payload.isEmpty (p.options.ecn && segment.hasFlag TcpFlag.ece), Pcb.ackSend]
    dsimp only
    split
    · split
      · -- selective acknowledgments leave the FIN alone
        have hmoves : TcpSendBuffer.FinMoves False False _ _ := (send.onAck segment.acknowledgment
          (p.scaledPeerWindow segment.window) nowMs segment.payload.isEmpty
          (p.options.ecn && segment.hasFlag TcpFlag.ece)).1.onSack_finMoves
            (parseTcpSackBlocks segment.options)
        exact Bool.eq_iff_iff.2 ⟨fun h => (hmoves.isAcked h).resolve_right id, hmoves.acked⟩
      · rfl
    · rfl

section

variable (h : At e flow i p)

include h

/-- An accepted segment that does not move the connection for our FIN. -/
theorem At.processAccepted_body (hp : p.receive = some r)
    (hacks : p.acksFin segment → p.state ≠ .finWait1 ∧ p.state ≠ .closing) :
    ConfinedIf (p.entersTimeWait segment → e.mayMove env i p nowMs) flow 1 e
      (Stays i (segment.hasFlag TcpFlag.fin) p)
      ((e.update i (p.onAck segment nowMs) [.accepted segment.window]).processBody env i segment
        timestamp nowMs {}) := by
  have hr := update_replaces e i (p.onAck segment nowMs) [.accepted segment.window]
  refine ConfinedIf.imp ((h.replace hr h.flow).processBody (r := r) hp (fun _ => one_pos)
    answers_none) (h.continue hr h.flow rfl id) ?_
  rw [Pcb.entersTimeWait_iff hacks, FinFits, h.mayMove hr rfl h.flow, and_imp]
  rfl

theorem At.processAccepted (hp : p.receive = some r) :
    ConfinedIf (p.entersTimeWait segment → e.mayMove env i p nowMs) flow 1 e
      (Stays i (segment.hasFlag TcpFlag.fin) p)
      (e.processAccepted env i p segment timestamp nowMs) := by
  have hr := update_replaces e i (p.onAck segment nowMs) [.accepted segment.window]
  have hacked := h.replace hr h.flow
  have hspares : Spares flow 0 e (e.update i (p.onAck segment nowMs) [.accepted segment.window]) :=
    h.spares hr h.flow
  -- in the states of a close from this end, the connection is not open
  have hclosed : ∀ {state}, p.state = state → state ≠ .established → state ≠ .closeWait →
      ¬p.StandsOpen (segment.hasFlag TcpFlag.fin) := by
    rintro _ rfl hne hne' (hopen | ⟨-, hopen⟩)
    · exact hne hopen
    · exact hne' hopen
  rw [TcpHandshakeEngine.processAccepted]
  dsimp only
  rw [Pcb.finAcked_onAck]
  split
  case isTrue hacks =>
    split
    case h_1 hstate =>
      -- from FIN-WAIT-1 to FIN-WAIT-2
      have hstate : p.state = .finWait1 := hstate
      have hr' := update_replaces e i { p.onAck segment nowMs with state := .finWait2 }
        [.accepted segment.window]
      have hkey : ({ p.onAck segment nowMs with state := .finWait2 } : Pcb κ).timeWaitKey =
          p.timeWaitKey := by
        simp [Pcb.timeWaitKey, Pcb.onAck, hstate]
      have htakes : ({ p.onAck segment nowMs with state := .finWait2 } : Pcb κ).takesFin segment =
          p.takesFin segment := by
        simp [Pcb.takesFin, Pcb.onAck, hstate, TcpState.pastFin]
      refine ConfinedIf.imp ((h.replace hr' h.flow).processBody (r := r) hp (fun _ => one_pos)
        answers_none) (h.continue hr' h.flow rfl
          fun hopen => absurd hopen (hclosed hstate (by simp) (by simp))) ?_
      rw [FinFits, h.mayMove hr' hkey h.flow, htakes, Pcb.entersTimeWait, hstate]
      simp [hacks]
    case h_2 hstate =>
      have hstate : p.state = .closing := hstate
      have henters : p.entersTimeWait segment := by
        rw [Pcb.entersTimeWait, hstate]
        simp [hacks]
      rw [imp_iff_right henters, ← h.mayMove hr rfl h.flow]
      refine ConfinedIf.imp (hacked.waits_then (by simp [Pcb.onAck, hstate])
        (hclosed hstate (by simp) (by simp)) one_pos
        (·.processBody env i segment timestamp nowMs { stateChanged := true }) answers_none
        (fun hat => ?_) fun hlost => ?_) (h.continue hr h.flow rfl id) .rfl
      · -- in TIME-WAIT, a FIN does not schedule again
        exact ((hat.processBody (r := r) hp (by rintro (hs | hs) <;> cases hs) answers_none).1
          (by rintro (hs | hs) <;> cases hs)).forget
      · rw [TcpHandshakeEngine.processBody, hlost]
    case h_3 hstate =>
      have hstate : p.state = .lastAck := hstate
      refine Confined.anyway (.return (hspares.after hacked.removeAt) answers_none
        fun hopen => absurd hopen (hclosed hstate (by simp) (by simp))) fun henters => ?_
      simp [Pcb.entersTimeWait, hstate] at henters
    case h_4 hwait hclosing _ => exact h.processAccepted_body hp fun _ => ⟨hwait, hclosing⟩
  case isFalse hacks => exact h.processAccepted_body hp fun hacks' => absurd hacks' hacks

theorem At.processEstablished (segment : TcpSegmentView) (env : Env) (nowMs : ℕ) :
    (e.leavesSlot env i p segment nowMs = false ∧
        Confined flow 1 e (Stays i (segment.hasFlag TcpFlag.fin) p)
          (e.processEstablished env i p segment nowMs)) ∨
      e.leavesSlot env i p segment nowMs ∧
        ¬Confined flow 1 e (fun _ => True) (e.processEstablished env i p segment nowMs) := by
  rw [TcpHandshakeEngine.processEstablished]
  split
  case isTrue hstate => exact h.processTimeWait hstate
  case isFalse hstate =>
    rw [leavesSlot, if_neg hstate]
    split
    case h_1 hp => exact .inl ⟨by rw [Pcb.accepts, hp]; rfl, .return .refl answers_none h.stays⟩
    case h_2 r hp =>
      rw [Pcb.accepts, hp, Option.any_some]
      dsimp only
      generalize (segment.payload.length + if segment.hasFlag TcpFlag.fin then 1 else 0) = length
      -- the checks, in their order; what fails one does not move the connection
      split
      case isTrue hsyn => exact .inl ⟨by simp [hsyn], h.answer⟩
      split
      case isTrue hack => exact .inl ⟨by simp [hack], .return .refl answers_none h.stays⟩
      split
      case isTrue hafter => exact .inl ⟨by simp [hafter], h.answer⟩
      split
      case h_1 htime => exact .inl ⟨by simp [htime], .return .refl answers_none h.stays⟩
      case h_2 htime => exact .inl ⟨by simp [htime], h.answer⟩
      case h_3 hsyn hack hafter _ timestamp htime =>
        split
        case isTrue hseq => exact .inl ⟨by simp [hseq], h.answer⟩
        case isFalse hseq =>
          rw [Bool.not_eq_true] at hsyn hafter
          rw [Bool.not_eq_false] at hack hseq
          obtain ⟨hconfined, hnone⟩ : ConfinedIf _ _ _ _ _
            (e.processAccepted env i p segment timestamp nowMs) := h.processAccepted hp
          rcases henters : p.entersTimeWait segment with _ | _
          · exact .inl ⟨by simp, hconfined (by simp [henters])⟩
          · rcases hmay : e.mayMove env i p nowMs with _ | _
            · refine .inr ⟨by simp [hsyn, hack, hafter, htime, hseq], ?_⟩
              rw [hnone (by simp [henters, hmay])]
              exact not_confined_none
            · exact .inl ⟨by simp, hconfined fun _ => hmay⟩

/-! ## The handshake -/

/-- The connection stays if its session is opened. -/
theorem At.openSession (hstate : p.state = .established) (hflow : segment.flow = flow) :
    Confined flow 1 e (fun e' => (e.hasSessionFactory → env.openTcp.isSome) →
      Stays i (segment.hasFlag TcpFlag.fin) p e') (e.openSession env i p r segment nowMs) := by
  -- what the ACK of the handshake carries
  have hproceed : ∀ {e' : TcpHandshakeEngine κ} {q : Pcb κ}, At e' flow i q →
      q.state = .established → Confined flow 1 e' (Stays i (segment.hasFlag TcpFlag.fin) q)
        (if segment.payload ≠ [] ∨ segment.hasFlag TcpFlag.fin = true then
          (e'.processEstablished env i q segment nowMs).map fun r =>
            (r.1, { r.2 with stateChanged := true })
        else some (e', { stateChanged := true })) := by
    intro e' q hq hstate
    split
    · have hkeeps : e'.leavesSlot env i q segment nowMs = false := by
        simp [leavesSlot, Pcb.entersTimeWait, hstate]
      obtain ⟨-, _, _, heq, hspares, hresult, hstays⟩ :=
        (hq.processEstablished segment env nowMs).resolve_right fun hleaves =>
          absurd hleaves.1 (by simp [hkeeps])
      rw [heq]
      exact .return hspares hresult hstays
    · exact .return .refl answers_none hq.stays
  rw [TcpHandshakeEngine.openSession]
  split
  case isTrue hfactory =>
    split
    case h_1 session _ =>
      obtain ⟨_, _, _, -, heq⟩ := (p.bindSession session).drainSession_eq (r.setBlocked false)
        (env.trySend p.flowId) e.config.deliveryCallBudget
      generalize (p.bindSession session).drainSession (r.setBlocked false) (env.trySend p.flowId)
        e.config.deliveryCallBudget = drained at heq
      have hq : drained.1.incomingFlow = flow := by rw [heq]; exact h.flow
      have hopen : drained.1.state = .established := by rw [heq]; exact hstate
      have hr := update_replaces e i drained.1 (drained.2.calls.map .trySend)
      refine (hproceed (h.replace hr hq) hopen).after (h.spares (n := 0) hr hq) fun hstays _ => ?_
      exact hstays.imp (by rw [heq]; rfl) fun _ => .inl hopen
    case h_2 hnone =>
      exact .return h.removeAt (hflow ▸ answers_buildReset segment)
        fun hopens => absurd (hopens hfactory) (by simp [hnone])
  case isFalse => exact (hproceed h hstate).after (m := 0) .refl fun hstays _ => hstays

theorem At.completeHandshake (hflow : segment.flow = flow) :
    Confined flow 1 e (fun _ => True) (e.completeHandshake env i p segment nowMs) := by
  have hreset : Answers flow (some (buildReset segment)) := hflow ▸ answers_buildReset segment
  rw [TcpHandshakeEngine.completeHandshake]
  split
  · exact .return .refl answers_none trivial
  · dsimp only
    split
    · exact .return h.removeAt hreset trivial
    · split
      · exact .return h.removeAt hreset trivial
      · rename_i options _ _ _ r _
        have hr : ∀ {q : Pcb κ} {seen : List Observed},
            Replaces e i q ((e.acquire p r).update i q seen) :=
          (update_replaces ..).of_sameTable (acquire_sameTable ..) (cursorMs_cancelTimer ..)
        have hfailed : ∀ {q : Pcb κ}, q.incomingFlow = flow →
            Spares flow 1 e (((e.acquire p r).update i q).removeAt i) := fun hq =>
          (h.spares hr hq).after (h.replace hr hq).removeAt
        split
        · exact .return (hfailed h.flow) hreset trivial
        · generalize hestablished : p.establish options segment.acknowledgment r _ = q
          have hq : q.incomingFlow = flow := hestablished ▸ h.flow
          have hstate : q.state = .established := by rw [← hestablished]; rfl
          have hopens : ∀ e' : TcpHandshakeEngine κ, Replaces e i q e' →
              Confined flow 1 e (fun _ => True) (e'.openSession env i q r segment nowMs) :=
            fun e' hr' => ((h.replace hr' hq).openSession hstate hflow).after
              (h.spares (n := 0) hr' hq) fun _ => trivial
          exact hopens _ ⟨(acquire_sameTable e p r).config,
            congrArg (·.set i q) (acquire_sameTable e p r).pcbs, cursorMs_cancelTimer ..⟩

omit [CongestionController κ] in
theorem At.buildSynAck (hq : q.incomingFlow = flow) (nowMs : ℕ) :
    Spares flow n e (e.buildSynAck i q nowMs).1 ∧
      Answers flow (some (e.buildSynAck i q nowMs).2) := by
  refine ⟨h.spares (update_replaces ..) hq, ?_⟩
  rintro _ ⟨⟩
  exact congrArg reverseFlow hq

theorem At.onSynReceived (hflow : segment.flow = flow) :
    Confined flow 1 e (fun _ => True) (e.onSynReceived env i p segment nowMs) := by
  have hsynAck : ∀ {q : Pcb κ}, q.incomingFlow = flow → Confined flow 1 e (fun _ => True)
      (some ((e.buildSynAck i q nowMs).1,
        ({ response := some (e.buildSynAck i q nowMs).2 } : TcpHandshakeResult))) := by
    intro q hq
    obtain ⟨hspares, hresponse⟩ := h.buildSynAck hq nowMs
    exact .return hspares hresponse trivial
  rw [TcpHandshakeEngine.onSynReceived]
  split
  · split
    · exact .return h.removeAt answers_none trivial
    · exact .return .refl answers_none trivial
  split
  · split
    · refine hsynAck ?_
      split
      · split <;> exact h.flow
      · exact h.flow
    · exact .return .refl answers_none trivial
  split
  · exact hsynAck h.flow
  split
  · split
    · exact h.completeHandshake hflow
    · exact .return .refl (hflow ▸ answers_buildReset segment) trivial
  · exact .return .refl answers_none trivial

omit [CongestionController κ] in
theorem At.scheduleRetry (env : Env) (deadlineMs : ℕ) :
    ∃ q, Replaces e i q (e.scheduleRetry env i p deadlineMs).1 ∧ q.incomingFlow = flow :=
  ⟨_, schedule_replaces .., h.flow⟩

end

omit [CongestionController κ] in
/-- The connection that a SYN opens is of the flow of the segment. -/
theorem onListen_confined (hnames : (e.pcbs.map Pcb.incomingFlow).Nodup)
    (hnone : e.findIndex segment.flow = none) (env : Env) (nowMs : ℕ) :
    Confined segment.flow 1 e (fun _ => True) (some (e.onListen env segment nowMs)) := by
  rw [onListen]
  split
  · exact .return .refl answers_none trivial
  split
  · exact .return .refl (answers_buildReset segment) trivial
  iterate 6
    split
    · exact .return .refl answers_none trivial
  · rename_i offered _
    dsimp only
    generalize hp : Pcb.ofSyn e.config segment offered (e.isn (reverseFlow segment.flow) nowMs)
      e.nextFlowId e.generationEpoch = p
    have hflow : p.incomingFlow = segment.flow := by rw [← hp, Pcb.ofSyn]
    have hadded : At (e.addPcb p segment.window) segment.flow e.pcbs.length p := by
      refine ⟨addPcb_slot e p segment.window, hflow, nodup_map_concat hnames fun q hq hqflow => ?_⟩
      have := findSlot_eq_none hnone q hq
      simp [hqflow, hflow] at this
    have hspares : Spares segment.flow 0 e (e.addPcb p segment.window) := by
      refine .of_perm (.of_eq ?_)
      rw [others, addPcb, filter_append, filter_cons_of_neg (by simp [hflow])]
      exact append_nil _
    generalize saturatingAdd nowMs _ = deadlineMs
    obtain ⟨q, hr, hq⟩ := hadded.scheduleRetry env deadlineMs
    have hslot := hadded.replace hr hq
    have hspares' := hspares.after (hadded.spares (n := 0) hr hq)
    generalize (e.addPcb p segment.window).scheduleRetry env e.pcbs.length p deadlineMs = scheduled
      at hslot hspares'
    rcases scheduled with ⟨e', _ | _⟩
    · exact .return (hspares'.after hslot.removeAt) answers_none trivial
    · dsimp only at hslot hspares' ⊢
      rw [hslot.slot]
      obtain ⟨hbuilt, hresponse⟩ := hslot.buildSynAck (n := 1) hq nowMs
      exact .return (hspares'.after hbuilt) hresponse trivial

theorem Reachable.names {A : EngineCall κ → Pcb κ → Prop} (h : Reachable A e) :
    (e.pcbs.map Pcb.incomingFlow).Nodup :=
  (reachable_iff.1 h).tracked.names

theorem At.of_findIndex {A : EngineCall κ → Pcb κ → Prop} (h : Reachable A e)
    (hfind : e.findIndex flow = some (i, p)) : At e flow i p := by
  obtain ⟨hslot, hflow⟩ := findSlot_eq_some hfind
  exact ⟨hslot, of_decide_eq_true hflow, h.names⟩

/-- There is a connection, so the engine was not shut down. -/
theorem At.isShutdown {A : EngineCall κ → Pcb κ → Prop} (h : Reachable A e)
    (hat : At e flow i p) : e.isShutdown = false := by
  by_contra hshut
  have hempty := (reachable_iff.1 h).emptyIfShutdown (by simpa using hshut)
  have hslot := hat.slot
  simp [hempty] at hslot

theorem onSegment_confined {A : EngineCall κ → Pcb κ → Prop} (h : Reachable A e) (env : Env)
    (segment : TcpSegmentView) (nowMs : ℕ) :
    Confined segment.flow 1 e (fun _ => True) (e.onSegment env segment nowMs) ↔
      ∀ i p, e.findIndex segment.flow = some (i, p) →
        e.losesSlot env i p segment nowMs = false := by
  rcases hfind : e.findIndex segment.flow with _ | ⟨i, p⟩
  · refine iff_of_true ?_ (fun i p hsome => by cases hsome)
    rw [onSegment]
    split
    · exact .return .refl answers_none trivial
    · rw [hfind]
      exact onListen_confined h.names hfind env nowMs
  · have hat := At.of_findIndex h hfind
    have hforall : (∀ j q, some (i, p) = some (j, q) → e.losesSlot env j q segment nowMs = false) ↔
        e.losesSlot env i p segment nowMs = false := by
      refine ⟨fun hall => hall i p rfl, ?_⟩
      rintro hkeeps _ _ ⟨⟩
      exact hkeeps
    rw [hforall, onSegment, hat.isShutdown h, if_neg Bool.false_ne_true, hfind, losesSlot]
    dsimp only
    split
    case isTrue hstate =>
      refine iff_of_true (hat.onSynReceived rfl) ?_
      simp [leavesSlot, Pcb.entersTimeWait, hstate]
    case isFalse =>
      split
      case isTrue hrst =>
        rw [hrst]
        refine iff_of_true ?_ rfl
        split
        · exact .return hat.removeAt answers_none trivial
        · exact (show Confined segment.flow 1 e (Stays i false p) _ from hat.answer).forget
      case isFalse hrst =>
        rw [Bool.not_eq_true] at hrst
        rw [hrst, Bool.not_false, Bool.true_and]
        rcases hat.processEstablished segment env nowMs with ⟨hkeeps, hconfined⟩ | ⟨hleaves, hnot⟩
        · exact iff_of_true hconfined.forget hkeeps
        · exact iff_of_false hnot (by simp [hleaves])

end TcpHandshakeEngine

section

variable [CongestionController κ] {e : TcpHandshakeEngine κ}

/-- In every reachable state, a segment is answered on its own flow, and leaves the
    connections of other flows as they are, except that one may be removed from
    TIME-WAIT, just if its connection does not lose its slot. -/
theorem segment_confined_to_flow_iff (h : e.Reachable fun _ _ => True) (env : Env)
    (segment : TcpSegmentView) (nowMs : ℕ) :
    (∃ e' result, e.onSegment env segment nowMs = some (e', result) ∧
      (∀ response, result.response = some response → response.flow = reverseFlow segment.flow) ∧
      ((e'.others segment.flow).Perm (e.others segment.flow) ∨ ∃ q, q.state = .timeWait ∧
          (q :: e'.others segment.flow).Perm (e.others segment.flow))) ↔
      ∀ i p, e.findIndex segment.flow = some (i, p) →
        e.losesSlot env i p segment nowMs = false := by
  rw [← TcpHandshakeEngine.onSegment_confined h]
  constructor
  · rintro ⟨e', result, heq, hanswers, hspares⟩
    exact ⟨e', result, heq, TcpHandshakeEngine.spares_one_iff.2 hspares, hanswers, trivial⟩
  · rintro ⟨e', result, heq, hspares, hanswers, -⟩
    exact ⟨e', result, heq, hanswers, TcpHandshakeEngine.spares_one_iff.1 hspares⟩

end

/-- A FIN of the peer with a port. -/
def peerFin (port : UInt16) (sequence acknowledgment : UInt32) : TcpSegmentView where
  flow := clientTo port 80 6
  sequence := sequence
  acknowledgment := acknowledgment
  flags := TcpFlag.ack ||| TcpFlag.fin
  window := 1000
  options := []
  payload := []

/-- One connection may be in TIME-WAIT, and one is; the FIN for the second of three
    connections takes its place. -/
theorem segment_confined_to_flow_iff_evicting :
    ∃ (e : TcpHandshakeEngine AimdController) (p : Pcb AimdController),
      e.Reachable (fun _ _ => True) ∧ e.findIndex (peerFin 2 101 2).flow = some (1, p) ∧
      p.accepts (peerFin 2 101 2) = true ∧ p.entersTimeWait (peerFin 2 101 2) = true ∧
      e.timeWaitFull = true ∧
      ∃ e' result, e.onSegment {} (peerFin 2 101 2) 0 = some (e', result) ∧
        (∀ response, result.response = some response →
          response.flow = reverseFlow (peerFin 2 101 2).flow) ∧
        ((e'.others (peerFin 2 101 2).flow).Perm (e.others (peerFin 2 101 2).flow) ∨
          ∃ q, q.state = .timeWait ∧
            (q :: e'.others (peerFin 2 101 2).flow).Perm (e.others (peerFin 2 101 2).flow)) := by
  obtain ⟨e, hreach, p, -, hfind, haccepts, henters, hfull, hkeeps⟩ :=
    exists_reached (P := fun e p => e.findIndex (peerFin 2 101 2).flow = some (1, p) ∧
      p.accepts (peerFin 2 101 2) = true ∧ p.entersTimeWait (peerFin 2 101 2) = true ∧
      e.timeWaitFull = true ∧ e.losesSlot {} 1 p (peerFin 2 101 2) 0 = false)
    { receiveWindow := 16, maxTimewaitEntries := 1 } (peerOpens 1 ++ peerOpens 2 ++ peerOpens 3 ++
      [({}, .closeFlow 1 1), ({}, .closeFlow 2 1), ({}, .pumpSendPaths 0 8 8),
      peerSends 1 TcpFlag.ack 101 2, peerSends 2 TcpFlag.ack 101 2,
      peerSends 1 (TcpFlag.ack ||| TcpFlag.fin) 101 2]) (by decide +kernel)
  refine ⟨e, p, hreach, hfind, haccepts, henters, hfull,
    (segment_confined_to_flow_iff hreach {} _ 0).2 ?_⟩
  intro i q hq
  rw [hfind] at hq
  cases hq
  exact hkeeps

/-- One connection may be in TIME-WAIT, and one is. A FIN for it removes it to make room
    for itself, and is answered for the connection that takes its slot. -/
theorem segment_answered_for_other_flow :
    ∃ e : TcpHandshakeEngine AimdController, e.Reachable (fun _ _ => True) ∧
      ∃ e' result response, e.onSegment {} (peerFin 1 101 2) 0 = some (e', result) ∧
        result.response = some response ∧
        response.flow ≠ reverseFlow (peerFin 1 101 2).flow := by
  obtain ⟨e, hreach, -, -, ⟨e', result⟩, heq, response, hresponse, hflow⟩ :=
    exists_reached (P := fun e _ => ∃ x ∈ e.onSegment {} (peerFin 1 101 2) 0, ∃ response ∈ x.2.response,
      response.flow ≠ reverseFlow (peerFin 1 101 2).flow)
    { receiveWindow := 16, maxTimewaitEntries := 1 } (peerOpens 1 ++ peerOpens 2 ++ [({}, .closeFlow 1 1), ({}, .pumpSendPaths 0 8 8),
      peerSends 1 TcpFlag.ack 101 2, peerSends 1 (TcpFlag.ack ||| TcpFlag.fin) 101 2])
    (by decide +kernel)
  exact ⟨e, hreach, e', result, response, heq, hresponse, hflow⟩

end Netstack2
