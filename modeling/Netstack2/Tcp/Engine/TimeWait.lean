import Netstack2.Tcp.Engine.Pure

/-!
# The timer of TIME-WAIT

A connection in TIME-WAIT is removed by a timer, and a FIN that the peer repeats starts that
timer again. What is expected of the repeated FIN is that it does no more: no connection is
removed, and the one it is for stays in TIME-WAIT, with one timer for it.

The restart takes the way on which a connection enters TIME-WAIT (`scheduleTimeWait`), and
this makes room first: it counts the connection itself, and removes the oldest one.

The engine does not look for the timers of a connection; it cancels the one whose identifier
the connection holds. That this is enough is an invariant of every run
(`ReachableBy.timeWaitBacked`): each pending timer that is to end a TIME-WAIT is held by a
connection in TIME-WAIT.

Main result, for every reachable state: `repeated_fin_restarts_iff`, a repeated FIN only
restarts the timer just if nothing has to make room, the wheel has not passed the new deadline
yet, and the new timer does not get the identifier under which the connection still holds a
delayed ACK.
-/

namespace Netstack2

open List TcpHandshakeEngine

variable {κ : Type}

/-- What is done when the timer fires is the end of the TIME-WAIT of `flow`. -/
def TimerAction.endsTimeWaitOf (flow : FlowKey) : TimerAction → Bool
  | timeWait flow' _ => flow' = flow
  | _ => false

theorem TimerAction.endsTimeWait_of_endsTimeWaitOf {flow : FlowKey} {action : TimerAction}
    (h : action.endsTimeWaitOf flow) : action.endsTimeWait := by
  cases action with
  | timeWait => rfl
  | _ => cases h

theorem Pcb.timeWait_iff_of_entry {p p' : Pcb κ} (h : p'.entry = p.entry) :
    p'.state = .timeWait ↔ p.state = .timeWait := by
  have hdeadline := congrArg (·.deadline.isSome) h
  simp only [Pcb.entry, apply_ite Option.isSome, Option.isSome_some, Option.isSome_none] at hdeadline
  split_ifs at hdeadline <;> simp_all

namespace TcpHandshakeEngine

/-- The pending timers that are to end the TIME-WAIT of a flow. -/
def timeWaitTimers (e : TcpHandshakeEngine κ) (flow : FlowKey) : List (TimerEntry TimerAction) :=
  e.timers.entries.filter (·.callback.endsTimeWaitOf flow)

/-- The identifier that the timer of TIME-WAIT gets when it is started again: the first one,
    from the wheel's next on, that no timer has but that of the connection itself. -/
def restartTimer (e : TcpHandshakeEngine κ) (p : Pcb κ) : TimerId :=
  let others := (e.cancelTimer p.timewaitTimer).timers
  (others.freeId (others.pendingCount + 1) others.nextId).1

/-- The timer of TIME-WAIT can be started again with nothing else changed. -/
def restartsInPlace (e : TcpHandshakeEngine κ) (p : Pcb κ) (nowMs : ℕ) : Bool :=
  (!e.timeWaitFull || e.oldestTimeWait.isNone) &&
    e.timers.cursorMs < nowMs + e.config.timewaitMs &&
    e.restartTimer p ≠ p.delayedAckTimer

/-! ## Who holds the timers -/

/-- Each timer that is to end a TIME-WAIT is held by a connection in TIME-WAIT. -/
structure TimeWaitBacked (e : TcpHandshakeEngine κ) : Prop where
  ready : e.timers.IsReady
  held : ∀ t ∈ e.timers.entries, ∀ flow, t.callback.endsTimeWaitOf flow = true →
    t.id ≠ 0 ∧ ∃ p ∈ e.pcbs, p.incomingFlow = flow ∧ p.state = .timeWait ∧ p.timewaitTimer = t.id

variable {e e' : TcpHandshakeEngine κ} {flow : FlowKey} {i j deadlineMs nowMs : ℕ}
  {p p' : Pcb κ} {seen : List Observed} {t : TimerEntry TimerAction} {id : TimerId} {env : Env}

/-- A connection forgets its timer of TIME-WAIT, which is cancelled. -/
theorem forget_replaces (e : TcpHandshakeEngine κ) (i : ℕ) (p : Pcb κ) :
    Replaces e i { p with timewaitTimer := 0 }
      ((e.cancelTimer p.timewaitTimer).update i { p with timewaitTimer := 0 }) :=
  cancelTimer_replaces ..

theorem At.forget (h : At e flow i p) :
    At ((e.cancelTimer p.timewaitTimer).update i { p with timewaitTimer := 0 }) flow i
      { p with timewaitTimer := 0 } :=
  h.replace (forget_replaces e i p) h.flow

namespace TimeWaitBacked

section

variable (h : TimeWaitBacked e)

include h

/-- No timer of TIME-WAIT is added, and the connections that hold one are there still. -/
theorem mono (hready : e'.timers.IsReady)
    (hsub : ∀ t ∈ e'.timers.entries, t.callback.endsTimeWait → t ∈ e.timers.entries)
    (hkeep : ∀ q ∈ e.pcbs, q.state = .timeWait →
      ∀ t ∈ e'.timers.entries, q.timewaitTimer = t.id → t.id ≠ 0 →
        t.callback.endsTimeWaitOf q.incomingFlow →
      ∃ q' ∈ e'.pcbs, q'.incomingFlow = q.incomingFlow ∧ q'.state = .timeWait ∧
        q'.timewaitTimer = q.timewaitTimer) : TimeWaitBacked e' := by
  refine ⟨hready, fun t ht flow hends => ?_⟩
  obtain ⟨hid, q, hq, rfl, hstate, htimer⟩ :=
    h.held t (hsub t ht (TimerAction.endsTimeWait_of_endsTimeWaitOf hends)) flow hends
  obtain ⟨q', hq', hflow, hstate', htimer'⟩ := hkeep q hq hstate t ht htimer hid hends
  exact ⟨hid, q', hq', hflow, hstate', htimer'.trans htimer⟩

/-- Timers change, but none of TIME-WAIT is added. -/
theorem timers (hpcbs : e'.pcbs = e.pcbs) (hready : e'.timers.IsReady)
    (hsub : ∀ t ∈ e'.timers.entries, t.callback.endsTimeWait → t ∈ e.timers.entries) :
    TimeWaitBacked e' :=
  h.mono hready hsub fun q hq hstate _ _ _ _ _ => ⟨q, hpcbs ▸ hq, rfl, hstate, rfl⟩

theorem cancelTimer (id : TimerId) : TimeWaitBacked (e.cancelTimer id) :=
  h.timers (cancelTimer_sameBooks e id).pcbs (isReady_cancelTimer h.ready id)
    fun _ ht _ => (mem_entries_cancelTimer ht).1

/-- A connection is written back; in TIME-WAIT, it holds its timer still. -/
theorem update (hp : e.pcbs[i]? = some p)
    (hkeep : p.state = .timeWait → p'.incomingFlow = p.incomingFlow ∧ p'.state = .timeWait ∧
      p'.timewaitTimer = p.timewaitTimer) (seen : List Observed) :
    TimeWaitBacked (e.update i p' seen) := by
  refine h.mono h.ready (fun t ht _ => ht) fun q hq hstate _ _ _ _ _ => ?_
  rcases eq_or_mem_set hp hq p' with rfl | hq'
  · obtain ⟨hlt, -⟩ := List.getElem?_eq_some_iff.1 hp
    exact ⟨p', mem_set hlt p', hkeep hstate⟩
  · exact ⟨q, hq', rfl, hstate, rfl⟩

/-- A connection is removed; the timer it holds is cancelled. -/
theorem removeAt (i : ℕ) : TimeWaitBacked (e.removeAt i) := by
  rcases hp : e.pcbs[i]? with _ | p
  · rw [TcpHandshakeEngine.removeAt, hp]
    exact h
  · have hmem : ∀ t ∈ (e.removeAt i).timers.entries, t ∈ e.timers.entries ∧
        (p.timewaitTimer ≠ 0 → t.id ≠ p.timewaitTimer) := by
      intro t ht
      rw [TcpHandshakeEngine.removeAt, hp] at ht
      obtain ⟨ht₁, hne⟩ := mem_entries_cancelTimer ht
      exact ⟨(mem_entries_cancelTimer (mem_entries_cancelTimer ht₁).1).1, hne⟩
    have hready : (e.removeAt i).timers.IsReady := by
      rw [TcpHandshakeEngine.removeAt, hp]
      exact isReady_cancelTimer (isReady_cancelTimer (isReady_cancelTimer h.ready _) _) _
    refine h.mono hready (fun t ht _ => (hmem t ht).1) fun q hq hstate t ht htimer hid _ => ?_
    rw [removeAt_pcbs]
    rcases mem_cons.1 ((perm_swapPop hp).mem_iff.2 hq) with rfl | hq'
    · -- the timer of the removed connection is not pending any more
      exact absurd htimer.symm ((hmem t ht).2 (htimer ▸ hid))
    · exact ⟨q, hq', rfl, hstate, rfl⟩

/-- A connection for which no timer is pending enters TIME-WAIT. -/
theorem enter (hj : e.pcbs[j]? = some p)
    (hfree : ∀ t ∈ e.timers.entries, t.callback.endsTimeWaitOf p.incomingFlow = false) (env : Env)
    (deadlineMs : ℕ) : let set := e.schedule env deadlineMs (.timeWait p.incomingFlow p.generation)
    TimeWaitBacked (set.1.update j (p.enterTimeWait deadlineMs (set.2.getD 0))) := by
  have hpcbs := (schedule_sameBooks env e deadlineMs (.timeWait p.incomingFlow p.generation)).pcbs
  obtain ⟨hready, hset⟩ := schedule_entries h.ready env deadlineMs
    (.timeWait p.incomingFlow p.generation)
  generalize e.schedule env deadlineMs (.timeWait p.incomingFlow p.generation) = set at *
  obtain ⟨hlt, -⟩ := List.getElem?_eq_some_iff.1 (hpcbs ▸ hj)
  refine ⟨hready, fun t ht flow hends => ?_⟩
  -- the timers from before are held by other connections
  have hold : t ∈ e.timers.entries → t.id ≠ 0 ∧
      ∃ q ∈ set.1.pcbs.set j (p.enterTimeWait deadlineMs (set.2.getD 0)),
        q.incomingFlow = flow ∧ q.state = .timeWait ∧ q.timewaitTimer = t.id := by
    intro hmem
    obtain ⟨hid, q, hq, rfl, hstate, htimer⟩ := h.held t hmem flow hends
    rcases eq_or_mem_set hj hq (p.enterTimeWait deadlineMs (set.2.getD 0)) with rfl | hq'
    · simp [hfree t hmem] at hends
    · exact ⟨hid, q, hpcbs ▸ hq', rfl, hstate, htimer⟩
  rcases hset with ⟨-, htimers⟩ | ⟨id, deadline, hsome, hid, hperm⟩
  · exact hold (htimers ▸ ht)
  · rcases mem_cons.1 (hperm.mem_iff.1 ht) with rfl | ht
    · refine ⟨hid, _, mem_set hlt _, of_decide_eq_true hends, rfl, ?_⟩
      rw [hsome]
      rfl
    · exact hold ht

/-- A connection for which no timer is pending is moved to TIME-WAIT. -/
theorem scheduleTimeWait (hp : e.pcbs[i]? = some p)
    (hfree : ∀ t ∈ e.timers.entries, t.callback.endsTimeWaitOf p.incomingFlow = false) (env : Env)
    (nowMs : ℕ) : TimeWaitBacked (e.scheduleTimeWait env i nowMs).1 := by
  obtain ⟨e₁, hroom, hcases⟩ := scheduleTimeWait_spec hp env nowMs
  obtain ⟨hevicted, hsub⟩ : TimeWaitBacked e₁ ∧ ∀ t ∈ e₁.timers.entries,
      t ∈ e.timers.entries := by
    cases hroom with
    | nothing => exact ⟨h, fun _ ht => ht⟩
    | @oldest o _ _ _ _ hq _ _ heq =>
      rw [heq]
      refine ⟨(h.removeAt o).timers rfl (h.removeAt o).ready fun _ ht _ => ht, fun t ht => ?_⟩
      replace ht : t ∈ (e.removeAt o).timers.entries := ht
      rw [TcpHandshakeEngine.removeAt, hq] at ht
      exact (mem_entries_cancelTimer (mem_entries_cancelTimer (mem_entries_cancelTimer ht).1).1).1
  rcases hcases with ⟨heq, -⟩ | ⟨j, a, ha, hflow, heq⟩
  · rw [heq]
    exact hevicted
  · rw [heq]
    exact hevicted.enter ha (fun t ht => hflow ▸ hfree t (hsub t ht)) env _

/-- A timer for a flow is held by the connection of that flow. -/
theorem holder (hat : At e flow i p) (ht : t ∈ e.timers.entries)
    (hends : t.callback.endsTimeWaitOf flow) :
    t.id ≠ 0 ∧ p.state = .timeWait ∧ p.timewaitTimer = t.id := by
  obtain ⟨hid, _, hq, hflow, hstate, htimer⟩ := h.held t ht flow hends
  obtain ⟨_, hj⟩ := getElem?_of_mem hq
  obtain rfl := hat.unique hj hflow
  obtain rfl := Option.some.inj (hat.slot.symm.trans hj)
  exact ⟨hid, hstate, htimer⟩

/-- The timer of a connection is cancelled, and no other one is pending for it. -/
theorem cancelled (hat : At e flow i p) :
    ∀ t ∈ (e.cancelTimer p.timewaitTimer).timers.entries,
      t.callback.endsTimeWaitOf flow = false := by
  intro t ht
  obtain ⟨hmem, hne⟩ := mem_entries_cancelTimer ht
  by_contra hends
  obtain ⟨hid, -, htimer⟩ := h.holder hat hmem (Bool.eq_true_of_not_eq_false hends)
  exact hne (htimer ▸ hid) htimer.symm

end

variable [CongestionController κ] {c : EngineCall κ}

/-- Every change keeps the timers of TIME-WAIT with those who hold them. -/
theorem change (h : TimeWaitBacked e) (hapart : Apart c e) (hc : Change c e e') :
    TimeWaitBacked e' := by
  -- what is written back to a connection that is not in TIME-WAIT does not matter
  have hother {e₁ : TcpHandshakeEngine κ} {i : ℕ} {p : Pcb κ} (h₁ : TimeWaitBacked e₁)
      (hp : e₁.pcbs[i]? = some p) (hstate : p.state ≠ .timeWait) (p' : Pcb κ)
      (seen : List Observed) : TimeWaitBacked (e₁.update i p' seen) :=
    h₁.update hp (fun hwait => absurd hwait hstate) seen
  have hacquire (p : Pcb κ) (r : TcpReceiveBuffer) : TimeWaitBacked (e.acquire p r) :=
    (h.cancelTimer p.retryTimer).timers rfl (isReady_cancelTimer h.ready _) fun _ ht _ => ht
  cases hc with
  | quiet hsame => exact h.timers hsame.pcbs (hsame.ends h.ready).1 (hsame.ends h.ready).2
  | turn hp hturn =>
    refine h.update hp (fun hstate => ⟨hturn.steps.sameConnection.incomingFlow, ?_,
      hturn.timewaitTimer⟩) _
    exact (Pcb.timeWait_iff_of_entry hturn.entry).2 hstate
  | remove i => exact h.removeAt i
  | close _ hp _ _ hstate =>
    refine (hother h hp ?_ _ _).removeAt _
    rw [hstate]
    nofun
  | @enterTimeWait i p seen _ nowMs p' env _ hp _ _ hflow _ hfree =>
    obtain ⟨hlt, -⟩ := List.getElem?_eq_some_iff.1 hp
    -- a timer for its flow would be held by the connection, which is not in TIME-WAIT or has
    -- had its timer cancelled
    have hnone : ∀ t ∈ e.timers.entries, t.callback.endsTimeWaitOf p.incomingFlow = false := by
      intro t ht
      by_contra hends
      have hat : At e p.incomingFlow i p := ⟨hp, rfl, hapart.tracked.names⟩
      obtain ⟨hid, hstate, htimer⟩ := h.holder hat ht (Bool.eq_true_of_not_eq_false hends)
      exact hfree hstate (htimer ▸ hid) t ht htimer.symm
    have hwritten : TimeWaitBacked (e.update i p' seen) := by
      refine h.mono h.ready (fun t ht _ => ht) fun q hq hstate t ht _ _ hends => ?_
      rcases eq_or_mem_set hp hq p' with rfl | hq'
      · simp [hnone t ht] at hends
      · exact ⟨q, hq', rfl, hstate, rfl⟩
    exact hwritten.scheduleTimeWait (List.getElem?_set_self hlt)
      (fun t ht => hflow ▸ hnone t ht) env nowMs
  | opens =>
    refine h.mono h.ready (fun _ ht _ => ht) fun q hq hstate _ _ _ _ _ => ?_
    exact ⟨q, mem_append_left _ hq, rfl, hstate, rfl⟩
  | @establish _ p r _ _ _ _ hp _ hstate =>
    have hp' : (e.acquire p r).pcbs[_]? = some p := (acquire_sameTable e p r).pcbs.symm ▸ hp
    exact ⟨(hacquire p r).ready, (hother (hacquire p r) hp' (by rw [hstate]; nofun) _ []).held⟩
  | @sendFails _ p r _ _ _ _ hp hstate =>
    have hp' : (e.acquire p r).pcbs[_]? = some p := (acquire_sameTable e p r).pcbs.symm ▸ hp
    exact (hother (hacquire p r) hp' (by rw [hstate]; nofun) _ _).removeAt _
  | @lowerMtu peer pmtu =>
    obtain ⟨f, hf, heq⟩ := onPathMtuLowered_eq e peer pmtu
    rw [heq]
    refine h.mono h.ready (fun _ ht _ => ht) fun q hq hstate _ _ _ _ _ =>
      ⟨f q, mem_map_of_mem hq, ?_⟩
    rcases hf q with hf | ⟨-, mss, hf⟩ <;> rw [hf] <;> exact ⟨rfl, hstate, rfl⟩
  | shutDown => exact ⟨h.ready, h.held⟩

end TimeWaitBacked

theorem timeWaitBacked_new {config isn make factory epoch slots}
    (h : new config isn make factory epoch slots = some e) : TimeWaitBacked e := by
  rw [new] at h
  split at h
  case isTrue =>
    obtain rfl := Option.some.inj h
    refine ⟨TimerWheel.isReady_new slots, fun t ht => ?_⟩
    simp [TimerWheel.entries, TimerWheel.new] at ht
  case isFalse => cases h

theorem ReachableBy.timeWaitBacked [CongestionController κ] {B : EngineCall κ → Prop}
    (h : ReachableBy B e) : TimeWaitBacked e :=
  h.invariant timeWaitBacked_new fun _ hapart hc hbacked => hbacked.change hapart hc

/-! ## The FIN that is repeated -/

theorem timeWaitTimers_cancelTimer (e : TcpHandshakeEngine κ) (id : TimerId) (flow : FlowKey) :
    (e.cancelTimer id).timeWaitTimers flow =
      (e.timeWaitTimers flow).filter fun t => id = 0 ∨ t.id ≠ id := by
  rw [timeWaitTimers, timeWaitTimers, filter_filter, cancelTimer]
  split
  case isTrue hne =>
    rw [TimerWheel.entries_cancel, filter_filter]
    refine filter_congr fun t _ => ?_
    simp only [hne, false_or, Bool.and_comm]
  case isFalse hzero =>
    refine filter_congr fun t _ => ?_
    simp [Decidable.not_not.1 hzero]

/-- Where nothing but a removal makes room, a move to TIME-WAIT removes a connection. -/
theorem length_scheduleTimeWait (hp : e.pcbs[i]? = some p)
    (hfull : ¬(e.timeWaitFull = true → e.oldestTimeWait = none)) (env : Env) (nowMs : ℕ) :
    (e.scheduleTimeWait env i nowMs).1.pcbs.length + 1 = e.pcbs.length := by
  obtain ⟨e₁, hroom, hcases⟩ := scheduleTimeWait_spec hp env nowMs
  have hlength : e₁.pcbs.length + 1 = e.pcbs.length := by
    cases hroom with
    | nothing hroom => exact absurd hroom hfull
    | oldest _ _ hq _ hpcbs =>
      rw [hpcbs]
      exact length_swapPop (List.getElem?_eq_some_iff.1 hq).1
  rcases hcases with ⟨heq, -⟩ | ⟨j, a, -, -, heq⟩
  · rw [heq]
    exact hlength
  · obtain ⟨_, _, hsame, hentered⟩ := enters_moveToTimeWait env e₁ j a nowMs
    rw [heq, hentered, update_pcbs, length_set, hsame.pcbs]
    exact hlength

theorem length_answer {result result' : TcpHandshakeResult}
    (h : e.answer i nowMs result = some (e', result')) : e'.pcbs.length = e.pcbs.length := by
  rw [answer] at h
  split at h
  case h_1 => cases h
  case h_2 p hp =>
    cases h
    split
    case h_1 => rfl
    case h_2 =>
      rw [update_pcbs, length_set]
      exact congrArg List.length (cancelTimer_sameBooks e p.delayedAckTimer).pcbs

/-- A connection for which no timer is pending gets one when it is moved to TIME-WAIT. -/
theorem moveToTimeWait_restarts {timers : TimerWheel TimerAction} (h : e.timers.IsReady)
    (hfree : ∀ t ∈ e.timers.entries, t.callback.endsTimeWaitOf p.incomingFlow = false)
    (henv : env.timerFails (.timeWait p.incomingFlow p.generation) = false)
    (hset : e.timers.schedule (saturatingAdd nowMs e.config.timewaitMs)
      (.timeWait p.incomingFlow p.generation) = some (timers, id)) :
    Replaces e i (p.enterTimeWait (saturatingAdd nowMs e.config.timewaitMs) id)
        (e.moveToTimeWait env i p nowMs).1 ∧
      (e.moveToTimeWait env i p nowMs).1.timeWaitTimers p.incomingFlow =
        [⟨id, if saturatingAdd nowMs e.config.timewaitMs ≤ e.timers.cursorMs
          then e.timers.cursorMs + 1 else saturatingAdd nowMs e.config.timewaitMs,
          .timeWait p.incomingFlow p.generation⟩] := by
  obtain ⟨-, -, hperm⟩ := h.schedule hset
  obtain ⟨_, hwheel⟩ := TimerWheel.schedule_eq_some hset
  have hcursor : timers.cursorMs = e.timers.cursorMs := by rw [hwheel]
  rw [moveToTimeWait]
  rw [schedule, if_neg (by simp [henv]), hset]
  refine ⟨⟨rfl, rfl, hcursor⟩, perm_singleton.1 ((hperm.filter _).trans (.of_eq ?_))⟩
  rw [filter_cons_of_pos (by simp [TimerAction.endsTimeWaitOf]), filter_eq_nil_iff.2]
  intro t ht
  rw [hfree t ht]
  simp

theorem restartTimer_eq {timers : TimerWheel TimerAction} {action : TimerAction}
    (hset : (e.cancelTimer p.timewaitTimer).timers.schedule deadlineMs action = some (timers, id)) :
    e.restartTimer p = id := by
  rw [TimerWheel.schedule] at hset
  split at hset
  · cases hset
  · exact (Prod.mk.inj (Option.some.inj hset)).2

/-- Where there is room, the connection stays where it is, in TIME-WAIT. Its timer is started
    again; but the delayed ACK is cancelled after that, by the identifier that is kept of it. -/
theorem At.processTimeWait_restarts {segment : TcpSegmentView} {r : TcpReceiveBuffer}
    (hat : At e flow i p) (h : TimeWaitBacked e) (hr : p.receive = some r)
    (hroom : e.timeWaitFull → e.oldestTimeWait = none)
    (hset : e.timeWaitSettable env p nowMs) (hfin : segment.hasFlag TcpFlag.fin) :
    ∃ e' result q id, e.processTimeWait env i p segment nowMs = some (e', result) ∧
      Replaces e i q e' ∧ q.flowId = p.flowId ∧ q.state = .timeWait ∧
      q.generation = p.generation ∧ e.restartTimer p = id ∧
      e'.timeWaitTimers flow = if id = p.delayedAckTimer then [] else
        [⟨id, if saturatingAdd nowMs e.config.timewaitMs ≤ e.timers.cursorMs
          then e.timers.cursorMs + 1 else saturatingAdd nowMs e.config.timewaitMs,
          .timeWait flow p.generation⟩] := by
  have hcursor := cursorMs_cancelTimer e p.timewaitTimer
  have hready := isReady_cancelTimer h.ready p.timewaitTimer
  have hforgets := forget_replaces e i p
  -- the wheel takes the timer also after the old one was cancelled
  obtain ⟨hallowed, htakes⟩ := Bool.and_eq_true_iff.1 hset
  have htakes' : ((e.cancelTimer p.timewaitTimer).timers.schedule
      (saturatingAdd nowMs e.config.timewaitMs)
      (.timeWait p.incomingFlow p.generation)).isSome = true := by
    rwa [TimerWheel.isSome_schedule, hcursor]
  obtain ⟨⟨timers, id⟩, hscheduled⟩ := Option.isSome_iff_exists.1 htakes'
  obtain ⟨-, hid, -⟩ := hready.schedule hscheduled
  obtain ⟨e₁, hevicts, hmoves⟩ := hat.forget.scheduleTimeWait_eq env nowMs
  cases hevicts with
  | oldest hfull hold =>
    -- nothing makes room
    obtain ⟨hsame, holdest⟩ := hat.room hforgets rfl
    rw [hsame] at hfull
    simp [holdest, hroom hfull] at hold
  | nothing =>
    have hmoved := congrArg Prod.fst (hmoves hat.forget)
    rw [← hforgets.config] at hscheduled
    obtain ⟨hwaits, htimers⟩ := moveToTimeWait_restarts (i := i)
      (e := (e.cancelTimer p.timewaitTimer).update i { p with timewaitTimer := 0 })
      (p := { p with timewaitTimer := 0 }) hready (hat.flow ▸ h.cancelled hat)
      (by simpa using hallowed) hscheduled
    rw [← hmoved, hforgets.config] at hwaits htimers
    have hslot := (hat.forget.replace hwaits hat.flow).slot
    rw [TcpHandshakeEngine.processTimeWait, hfin, if_pos rfl]
    generalize (TcpHandshakeEngine.scheduleTimeWait env ((e.cancelTimer p.timewaitTimer).update i
      { p with timewaitTimer := 0 }) i nowMs).1 = e₂ at hwaits htimers hslot
    rw [TcpHandshakeEngine.answer, hslot]
    dsimp only
    rw [TcpHandshakeEngine.buildAck, show Pcb.receive _ = some r from hr]
    refine ⟨_, _, _, id, rfl, hforgets.trans (hwaits.trans (cancelTimer_replaces ..)), rfl, rfl,
      rfl, restartTimer_eq hscheduled, ?_⟩
    · replace htimers : e₂.timeWaitTimers p.incomingFlow = [⟨id,
        if _ ≤ (e.cancelTimer p.timewaitTimer).timers.cursorMs
        then (e.cancelTimer p.timewaitTimer).timers.cursorMs + 1 else _, _⟩] := htimers
      show (e₂.cancelTimer p.delayedAckTimer).timeWaitTimers flow = _
      rw [timeWaitTimers_cancelTimer, ← hat.flow, htimers, hcursor]
      by_cases hsame : id = p.delayedAckTimer
      · simp [← hsame, hid]
      · simp [hsame]

/-- Where there is no room, the restart removes a connection. -/
theorem At.length_processTimeWait {segment : TcpSegmentView} {result : TcpHandshakeResult}
    (hat : At e flow i p) (hfull : ¬(e.timeWaitFull → e.oldestTimeWait = none))
    (hfin : segment.hasFlag TcpFlag.fin)
    (heq : e.processTimeWait env i p segment nowMs = some (e', result)) :
    e'.pcbs.length + 1 = e.pcbs.length := by
  have hforgets := forget_replaces e i p
  rw [TcpHandshakeEngine.processTimeWait, hfin, if_pos rfl] at heq
  rw [length_answer heq, length_scheduleTimeWait hat.forget.slot, hforgets.pcbs, length_set]
  obtain ⟨hsame, holdest⟩ := hat.room hforgets rfl
  rwa [hsame, holdest]

end TcpHandshakeEngine

section

variable [CongestionController κ] {e : TcpHandshakeEngine κ} {i : ℕ} {p : Pcb κ}
  {segment : TcpSegmentView}

/-- In every reachable state, a FIN that is repeated in TIME-WAIT removes no connection and
    leaves its own there, with one timer, for the time after a whole TIME-WAIT, just if nothing
    has to make room, the wheel has not passed that time, and the timer does not get the
    identifier under which the connection holds a delayed ACK. -/
theorem repeated_fin_restarts_iff (h : e.Reachable fun _ _ => True)
    (hfind : e.findIndex segment.flow = some (i, p)) (hstate : p.state = .timeWait)
    (hfin : segment.hasFlag TcpFlag.fin = true) (hrst : segment.hasFlag TcpFlag.rst = false)
    {env : Env} {nowMs : ℕ} (hnow : nowMs + e.config.timewaitMs < 2 ^ 64 - 1)
    (hset : e.timeWaitSettable env p nowMs = true) :
    (∃ e' result q id, e.onSegment env segment nowMs = some (e', result) ∧
      (∀ a ∈ e.pcbs, ∃ b ∈ e'.pcbs, b.flowId = a.flowId) ∧
      q ∈ e'.pcbs ∧ q.flowId = p.flowId ∧ q.state = .timeWait ∧ e'.timeWaitTimers segment.flow =
        [⟨id, nowMs + e.config.timewaitMs, .timeWait segment.flow q.generation⟩]) ↔
      e.restartsInPlace p nowMs = true := by
  have hat := TcpHandshakeEngine.At.of_findIndex h hfind
  obtain ⟨hreceives, -⟩ := h.closesUntilTimeWait (mem_of_getElem? hat.slot)
  have hopen : p.state ≠ .synReceived := by rw [hstate]; simp
  obtain ⟨r, hr⟩ := Option.ne_none_iff_exists'.1 fun hnone => hopen (hreceives.opening hnone).1
  have hsum : saturatingAdd nowMs e.config.timewaitMs = nowMs + e.config.timewaitMs := by
    rw [saturatingAdd, if_neg (by rw [maxUint64]; omega)]
  have hsegment : e.onSegment env segment nowMs = e.processTimeWait env i p segment nowMs := by
    rw [onSegment, hat.isShutdown h, if_neg Bool.false_ne_true, hfind]
    dsimp only
    rw [if_neg hopen, hrst, if_neg Bool.false_ne_true, processEstablished, if_pos hstate]
  rw [hsegment]
  by_cases hroom : e.timeWaitFull = true → e.oldestTimeWait = none
  · obtain ⟨e', result, q, id, heq, hr, hid, hwaits, hgeneration, hrestart, htimers⟩ :=
      hat.processTimeWait_restarts (reachable_iff.1 h).timeWaitBacked hr hroom
        hset hfin
    have hiff : e.restartsInPlace p nowMs = true ↔
        id ≠ p.delayedAckTimer ∧ e.timers.cursorMs < nowMs + e.config.timewaitMs := by
      have hplace : (!e.timeWaitFull || e.oldestTimeWait.isNone) = true := by
        cases hfull : e.timeWaitFull with
        | false => rfl
        | true => rw [hroom hfull]; rfl
      simp [restartsInPlace, hplace, hrestart, and_comm]
    rw [hiff, heq]
    rw [hsum] at htimers
    refine ⟨fun hrestarts => ?_, fun hplace => ?_⟩
    · obtain ⟨_, _, q', id', heq', -, -, -, -, hone⟩ := hrestarts
      cases heq'
      rw [htimers] at hone
      split at hone
      case isTrue => cases hone
      case isFalse hne =>
        refine ⟨hne, Nat.lt_of_not_le fun hpassed => ?_⟩
        rw [if_pos hpassed] at hone
        injection hone with hentry
        injection hentry with _ hdeadline
        omega
    · rw [if_neg hplace.1, if_neg (Nat.not_le.2 hplace.2)] at htimers
      obtain ⟨hlt, -⟩ := List.getElem?_eq_some_iff.1 hat.slot
      refine ⟨e', result, q, id, rfl, fun a ha => ?_, ?_, hid, hwaits, hgeneration ▸ htimers⟩
      · rw [hr.pcbs]
        rcases eq_or_mem_set hat.slot ha q with rfl | hb
        · exact ⟨q, mem_set hlt q, hid⟩
        · exact ⟨a, hb, rfl⟩
      · rw [hr.pcbs]
        exact mem_set hlt q
  · have hnot : e.restartsInPlace p nowMs = false := by
      obtain ⟨hfull, hold⟩ := Classical.not_imp.1 hroom
      simp [restartsInPlace, hfull, hold]
    rw [hnot]
    refine ⟨fun hrestarts => ?_, by simp⟩
    obtain ⟨e', result, -, -, heq, hall, -⟩ := hrestarts
    -- the table is shorter, and the identifiers in it are different
    have hlength := hat.length_processTimeWait hroom hfin heq
    have hsubset : e.pcbs.map Pcb.flowId ⊆ e'.pcbs.map Pcb.flowId := by
      intro id hid
      obtain ⟨a, ha, rfl⟩ := mem_map.1 hid
      exact mem_map.2 (hall a ha)
    have hle := ((reachable_iff.1 h).tracked.idents.length_le_of_subset hsubset)
    rw [length_map, length_map] at hle
    omega

end

/-- Both ends have closed two connections and none has made room for the other: both are in
    TIME-WAIT, and a third one is open. -/
def twoInTimeWait : List (Env × EngineOp) :=
  peerOpens 1 ++ peerOpens 2 ++ peerOpens 3 ++
    [({}, .closeFlow 1 1), ({}, .closeFlow 2 1), ({}, .pumpSendPaths 0 8 8),
      peerSends 1 TcpFlag.ack 101 2, peerSends 2 TcpFlag.ack 101 2,
      peerSends 1 (TcpFlag.ack ||| TcpFlag.fin) 101 2,
      peerSends 2 (TcpFlag.ack ||| TcpFlag.fin) 101 2]

/-- With room for three connections in TIME-WAIT, a repeated FIN restarts the timer. -/
theorem repeated_fin_restarts_iff_room :
    ∃ (e : TcpHandshakeEngine AimdController) (p : Pcb AimdController),
      e.Reachable (fun _ _ => True) ∧ e.findIndex (peerFin 2 101 2).flow = some (1, p) ∧
      p.state = .timeWait ∧ e.restartsInPlace p 5 = true ∧
      ((∃ e' result q id, e.onSegment {} (peerFin 2 101 2) 5 = some (e', result) ∧
        (∀ a ∈ e.pcbs, ∃ b ∈ e'.pcbs, b.flowId = a.flowId) ∧
        q ∈ e'.pcbs ∧ q.flowId = p.flowId ∧ q.state = .timeWait ∧
        e'.timeWaitTimers (peerFin 2 101 2).flow = [⟨id, 5 + e.config.timewaitMs,
          .timeWait (peerFin 2 101 2).flow q.generation⟩]) ↔ e.restartsInPlace p 5 = true) := by
  obtain ⟨e, hreach, p, -, hfind, hstate, hnow, hset, hplace⟩ :=
    exists_reached (P := fun e p => e.findIndex (peerFin 2 101 2).flow = some (1, p) ∧ p.state = .timeWait ∧
      5 + e.config.timewaitMs < 2 ^ 64 - 1 ∧ e.timeWaitSettable {} p 5 = true ∧
      e.restartsInPlace p 5 = true)
    { receiveWindow := 16, maxTimewaitEntries := 3 } twoInTimeWait
    (by decide +kernel)
  exact ⟨e, p, hreach, hfind, hstate, hplace,
    repeated_fin_restarts_iff hreach hfind hstate (by decide) (by decide) hnow hset⟩

/-- With room for two, a repeated FIN removes the other connection that is in TIME-WAIT. -/
theorem repeated_fin_removes_other :
    ∃ (e : TcpHandshakeEngine AimdController) (p a : Pcb AimdController),
      e.Reachable (fun _ _ => True) ∧ e.findIndex (peerFin 2 101 2).flow = some (1, p) ∧
      p.state = .timeWait ∧ (peerFin 2 101 2).hasFlag TcpFlag.fin = true ∧
      (peerFin 2 101 2).hasFlag TcpFlag.rst = false ∧ 5 + e.config.timewaitMs < 2 ^ 64 - 1 ∧
      e.timeWaitSettable {} p 5 = true ∧ a ∈ e.pcbs ∧
      ∃ e' result, e.onSegment {} (peerFin 2 101 2) 5 = some (e', result) ∧
        ∀ b ∈ e'.pcbs, b.flowId ≠ a.flowId := by
  obtain ⟨e, hreach, p, -, hfind, hstate, hnow, hset, a, ha, ⟨e', result⟩, heq, hgone⟩ :=
    exists_reached (P := fun e p => e.findIndex (peerFin 2 101 2).flow = some (1, p) ∧ p.state = .timeWait ∧
      5 + e.config.timewaitMs < 2 ^ 64 - 1 ∧ e.timeWaitSettable {} p 5 = true ∧
      ∃ a ∈ e.pcbs, ∃ x ∈ e.onSegment {} (peerFin 2 101 2) 5, a.flowId ∉ x.1.pcbs.map Pcb.flowId)
    { receiveWindow := 16, maxTimewaitEntries := 2 } twoInTimeWait
    (by decide +kernel)
  exact ⟨e, p, a, hreach, hfind, hstate, by decide, by decide, hnow, hset, ha, e', result, heq,
    fun b hb hid => hgone (hid ▸ mem_map_of_mem hb)⟩

end Netstack2
