import Netstack2.Tcp.Engine

/-!
# The table of connections

What is known of the connections of an engine, each with what was observed of it
(`TcpHandshakeEngine.Holds`): an instance of `Tracked`, with the identifier of a
connection as its identifier and its flow as its name. Here is what becomes of it
under the changes of the table that the operations are made of: a connection is
updated (`Holds.set`), removed (`Holds.removeAt`), or moved to TIME-WAIT, which may
remove another one (`Holds.scheduleTimeWait`).
-/

namespace Netstack2

open List

variable {κ : Type}

/-- A call of an operation: the parameters of the engine, its connections and its next
    identifier before the call, and how its surroundings answer. -/
structure EngineCall (κ : Type) where
  config : TcpHandshakeConfig
  makeController : UInt16 → κ
  pcbs : List (Pcb κ)
  nextFlowId : FlowId
  env : Env
  op : EngineOp

namespace TcpHandshakeEngine

/-! ## The table -/

/-- The connections of the engine have the property `J`, and what was observed of
    any connection so far has the property `D`. -/
structure Holds (c : EngineCall κ) (J : Pcb κ → List Observed → Prop) (D : List Observed → Prop)
    (e : TcpHandshakeEngine κ) : Prop where
  config : e.config = c.config
  makeController : e.makeController = c.makeController
  next : c.nextFlowId ≤ e.nextFlowId
  tracked : Tracked Pcb.flowId Pcb.incomingFlow J D e.nextFlowId e.pcbs e.history

/-- The table, its history and the parameters are the same. -/
structure SameTable (e' e : TcpHandshakeEngine κ) : Prop where
  config : e'.config = e.config
  makeController : e'.makeController = e.makeController
  nextFlowId : e'.nextFlowId = e.nextFlowId
  pcbs : e'.pcbs = e.pcbs
  history : e'.history = e.history

/-- Only timers, responses and events differ. -/
structure SameBooks (e' e : TcpHandshakeEngine κ) : Prop extends SameTable e' e where
  halfOpenCount : e'.halfOpenCount = e.halfOpenCount
  receiveMemoryBytes : e'.receiveMemoryBytes = e.receiveMemoryBytes
  isShutdown : e'.isShutdown = e.isShutdown

theorem SameTable.trans {e e' e'' : TcpHandshakeEngine κ} (h : SameTable e'' e')
    (h' : SameTable e' e) : SameTable e'' e :=
  ⟨h.config.trans h'.config, h.makeController.trans h'.makeController,
    h.nextFlowId.trans h'.nextFlowId, h.pcbs.trans h'.pcbs, h.history.trans h'.history⟩

theorem SameBooks.trans {e e' e'' : TcpHandshakeEngine κ} (h : SameBooks e'' e')
    (h' : SameBooks e' e) : SameBooks e'' e :=
  ⟨h.toSameTable.trans h'.toSameTable, h.halfOpenCount.trans h'.halfOpenCount,
    h.receiveMemoryBytes.trans h'.receiveMemoryBytes, h.isShutdown.trans h'.isShutdown⟩

theorem cancelTimer_sameBooks (e : TcpHandshakeEngine κ) (id : TimerId) :
    SameBooks (e.cancelTimer id) e := by
  unfold cancelTimer
  split <;> exact ⟨⟨rfl, rfl, rfl, rfl, rfl⟩, rfl, rfl, rfl⟩

theorem acquire_sameTable (e : TcpHandshakeEngine κ) (p : Pcb κ) (r : TcpReceiveBuffer) :
    SameTable (e.acquire p r) e :=
  have h := cancelTimer_sameBooks e p.retryTimer
  ⟨h.config, h.makeController, h.nextFlowId, h.pcbs, h.history⟩

theorem schedule_sameBooks (env : Env) (e : TcpHandshakeEngine κ) (deadlineMs : ℕ)
    (action : TimerAction) : SameBooks (e.schedule env deadlineMs action).1 e := by
  unfold schedule
  split
  · exact ⟨⟨rfl, rfl, rfl, rfl, rfl⟩, rfl, rfl, rfl⟩
  · split <;> exact ⟨⟨rfl, rfl, rfl, rfl, rfl⟩, rfl, rfl, rfl⟩

variable {c : EngineCall κ} {J : Pcb κ → List Observed → Prop} {D : List Observed → Prop}
  {e e' : TcpHandshakeEngine κ} {i : ℕ} {p p' : Pcb κ} {seen : List Observed}

theorem Holds.of_sameTable (h : Holds c J D e) (hs : SameTable e' e) : Holds c J D e' where
  config := hs.config.trans h.config
  makeController := hs.makeController.trans h.makeController
  next := hs.nextFlowId ▸ h.next
  tracked := by
    rw [hs.nextFlowId, hs.pcbs, hs.history]
    exact h.tracked

theorem SameTable.getElem (h : SameTable e' e) (hp : e.pcbs[i]? = some p) :
    e'.pcbs[i]? = some p := by
  rw [h.pcbs, hp]

@[simp] theorem update_pcbs (e : TcpHandshakeEngine κ) (i : ℕ) (p : Pcb κ) (seen : List Observed) :
    (e.update i p seen).pcbs = e.pcbs.set i p := rfl

theorem update_getElem (hp : e.pcbs[i]? = some p) (p' : Pcb κ) (seen : List Observed) :
    (e.update i p' seen).pcbs[i]? = some p' := by
  obtain ⟨hlt, -⟩ := List.getElem?_eq_some_iff.1 hp
  rw [update_pcbs, List.getElem?_set_self hlt]

/-- Only a plain ACK waits at its connection. -/
theorem queueResponse_sameBooks (e : TcpHandshakeEngine κ) {response : TcpResponse}
    (h : response.flags ≠ TcpFlag.ack) : SameBooks (e.queueResponse response) e := by
  unfold queueResponse
  rw [beq_false_of_ne h]
  dsimp only [Bool.false_eq_true]
  rw [if_neg Bool.false_ne_true, if_neg Bool.false_ne_true]
  dsimp only
  split <;> exact ⟨⟨rfl, rfl, rfl, rfl, rfl⟩, rfl, rfl, rfl⟩

section

variable (hp : e.pcbs[i]? = some p)

include hp

theorem scheduleRetry_slot (env : Env) (deadlineMs : ℕ) :
    ∃ timer, (e.scheduleRetry env i p deadlineMs).1.pcbs[i]? =
      some { p with retryTimer := timer } :=
  ⟨_, update_getElem ((schedule_sameBooks ..).toSameTable.getElem hp) _ _⟩

theorem scheduleDelayedAck_slot (env : Env) (nowMs : ℕ) :
    ∃ timer, (e.scheduleDelayedAck env i p nowMs).1.pcbs[i]? =
      some { p with delayedAckTimer := timer } := by
  unfold scheduleDelayedAck
  split
  · exact ⟨p.delayedAckTimer, hp⟩
  · exact ⟨_, update_getElem ((schedule_sameBooks ..).toSameTable.getElem hp) _ _⟩

theorem buildAck_slot (nowMs : ℕ) {q : Pcb κ} (hq : (e.buildAck i p' nowMs).1.pcbs[i]? = some q) :
    q = p ∨ ∃ r, q = (p'.buildAck r nowMs).1 := by
  unfold buildAck at hq
  split at hq
  case h_1 =>
    rw [hp] at hq
    exact .inl (Option.some.inj hq).symm
  case h_2 =>
    rw [update_getElem ((cancelTimer_sameBooks ..).toSameTable.getElem hp)] at hq
    exact .inr ⟨_, (Option.some.inj hq).symm⟩

/-- The ACK of a payload changes neither the flow of the connection nor its state. -/
theorem acknowledgePayload_slot (env : Env) (decision : AckDecision) (becameBlocked : Bool)
    (nowMs : ℕ) {q : Pcb κ}
    (hq : (e.acknowledgePayload env i p decision becameBlocked nowMs).1.pcbs[i]? = some q) :
    q.incomingFlow = p.incomingFlow ∧ q.state = p.state := by
  obtain ⟨_, hslot⟩ := scheduleDelayedAck_slot hp env nowMs
  unfold acknowledgePayload at hq
  split at hq
  · rcases buildAck_slot hp nowMs hq with rfl | ⟨r, rfl⟩ <;> exact ⟨rfl, rfl⟩
  · split at hq
    · dsimp only at hq
      split at hq
      · rw [hslot] at hq
        cases hq
        exact ⟨rfl, rfl⟩
      · rcases buildAck_slot hslot nowMs hq with rfl | ⟨r, rfl⟩ <;> exact ⟨rfl, rfl⟩
    · rw [hp] at hq
      cases hq
      exact ⟨rfl, rfl⟩

end

/-- A connection is updated; what is known of it may be something else afterwards. -/
theorem Holds.set {J' : Pcb κ → List Observed → Prop} (h : Holds c J D e) (hp : e.pcbs[i]? = some p)
    (hid : p'.flowId = p.flowId) (hflow : p'.incomingFlow = p.incomingFlow)
    (hJ : ∀ hist, J p hist → J' p' (hist ++ seen)) (hD : ∀ hist, J p hist → D (hist ++ seen))
    (hother : ∀ q hist, q.flowId ≠ p.flowId → J q hist → J' q hist) :
    Holds c J' D (e.update i p' seen) where
  config := h.config
  makeController := h.makeController
  next := h.next
  tracked := by
    have := h.tracked.set hp hid hflow (hJ _) (hD _) hother
    rwa [← hid] at this

/-- The timers of a connection are cancelled. -/
theorem cancelTimers_sameBooks (e : TcpHandshakeEngine κ) (p : Pcb κ) :
    SameBooks (((e.cancelTimer p.retryTimer).cancelTimer p.delayedAckTimer).cancelTimer
      p.timewaitTimer) e :=
  (cancelTimer_sameBooks ..).trans ((cancelTimer_sameBooks ..).trans (cancelTimer_sameBooks ..))

theorem release_sameTable (e : TcpHandshakeEngine κ) (p : Pcb κ) : SameTable (e.release p) e :=
  have h := cancelTimers_sameBooks e p
  ⟨h.config, h.makeController, h.nextFlowId, h.pcbs, h.history⟩

theorem removeAt_pcbs (e : TcpHandshakeEngine κ) (i : ℕ) :
    (e.removeAt i).pcbs = swapPop e.pcbs i := by
  unfold removeAt
  split
  case h_1 hnone => rw [swapPop_of_le (getElem?_eq_none_iff.1 hnone)]
  case h_2 => rfl

/-- A connection is removed. -/
theorem Holds.removeAt (h : Holds c J D e) (i : ℕ) : Holds c J D (e.removeAt i) := by
  have hpop := h.tracked.swapPop i
  unfold TcpHandshakeEngine.removeAt
  split
  case h_1 => exact h
  case h_2 p _ =>
    have hsame := release_sameTable e p
    refine ⟨hsame.config.trans h.config, hsame.makeController.trans h.makeController,
      hsame.nextFlowId ▸ h.next, ?_⟩
    show Tracked _ _ _ _ (e.release p).nextFlowId (swapPop e.pcbs i) (e.release p).history
    rw [hsame.nextFlowId, hsame.history]
    exact hpop

theorem Holds.emitFlowEvent (h : Holds c J D e) (id : FlowId) (type : FlowEventType) :
    Holds c J D (e.emitFlowEvent id type) :=
  ⟨h.config, h.makeController, h.next, h.tracked⟩

/-- A connection is added. -/
theorem Holds.addPcb (h : Holds c J D e) (hid : p.flowId = e.nextFlowId)
    (hflow : ∀ q ∈ e.pcbs, q.incomingFlow ≠ p.incomingFlow) {window : UInt16}
    (hj : J p [.opened window]) (hd : D [.opened window]) : Holds c J D (e.addPcb p window) where
  config := h.config
  makeController := h.makeController
  next := Nat.le_succ_of_le h.next
  tracked := h.tracked.push hid hflow hj hd

theorem addPcb_slot (e : TcpHandshakeEngine κ) (p : Pcb κ) (window : UInt16) :
    (e.addPcb p window).pcbs[e.pcbs.length]? = some p := by
  simp [TcpHandshakeEngine.addPcb]

theorem removeAll_pcbs (fuel : ℕ) :
    ∀ e : TcpHandshakeEngine κ, e.pcbs.length ≤ fuel → (removeAll fuel e).pcbs = [] := by
  induction fuel with
  | zero => exact fun e h => length_eq_zero_iff.1 (Nat.le_zero.1 h)
  | succ fuel ih =>
    intro e h
    refine ih _ ?_
    rw [removeAt]
    split
    · next hlast =>
      have := List.getElem?_eq_none_iff.1 hlast
      omega
    · next p hlast =>
      have := length_swapPop (List.getElem?_eq_some_iff.1 hlast).1
      show (swapPop e.pcbs (e.pcbs.length - 1)).length ≤ fuel
      omega

/-- No connection outlives the engine. -/
theorem shutdown_pcbs (h : e.isShutdown = false) : e.shutdown.pcbs = [] := by
  rw [shutdown, h, if_neg Bool.false_ne_true]
  exact removeAll_pcbs _ _ (le_refl _)

/-! ## One connection apart -/

/-- `J` for all connections but the one with the identifier `id`, of which only something about its
    history is known: it is about to be removed, or to enter TIME-WAIT. -/
def ExceptFor (id : FlowId) (M : List Observed → Prop) (J : Pcb κ → List Observed → Prop)
    (q : Pcb κ) (hist : List Observed) : Prop :=
  if q.flowId = id then M hist else J q hist

/-- A connection is updated, and set apart. -/
theorem Holds.setApart (h : Holds c J D e) (hp : e.pcbs[i]? = some p) (p' : Pcb κ)
    (hid : p'.flowId = p.flowId) (hflow : p'.incomingFlow = p.incomingFlow)
    (hD : ∀ hist, J p hist → D (hist ++ seen)) :
    Holds c (ExceptFor p'.flowId (fun hist => ∃ before, J p before ∧ hist = before ++ seen) J) D
      (e.update i p' seen) := by
  refine h.set hp hid hflow (fun hist hj => ?_) hD fun q hist hne hj => ?_
  · rw [ExceptFor, if_pos rfl]
    exact ⟨hist, hj, rfl⟩
  · rwa [ExceptFor, if_neg (hid ▸ hne)]

variable {M : List Observed → Prop}

/-- Where the connection that is set apart is missing, `J` is known of all. -/
theorem Holds.of_exceptFor {id : FlowId} (h : Holds c (ExceptFor id M J) D e)
    (hne : ∀ q ∈ e.pcbs, q.flowId ≠ id) : Holds c J D e where
  config := h.config
  makeController := h.makeController
  next := h.next
  tracked :=
    { h.tracked with
      each := fun q hq => by
        have := h.tracked.each q hq
        rwa [ExceptFor, if_neg (hne q hq)] at this }

/-- The connection that is set apart is removed. -/
theorem Holds.removeApart (h : Holds c (ExceptFor p.flowId M J) D e) (hp : e.pcbs[i]? = some p) :
    Holds c J D (e.removeAt i) := by
  refine (h.removeAt i).of_exceptFor fun q hq hid => ?_
  rw [removeAt_pcbs] at hq
  have hnodup := ((perm_swapPop hp).map Pcb.flowId).nodup_iff.2 h.tracked.idents
  exact (nodup_cons.1 hnodup).1 (mem_map.2 ⟨q, hq, hid⟩)

/-! ## Eviction from TIME-WAIT -/

theorem oldestTimeWaitFrom_spec {pcbs : List (Pcb κ)} {k deadline o : ℕ} {oldest : Option ℕ}
    (h : oldestTimeWaitFrom pcbs k deadline oldest = some o) :
    oldest = some o ∨ ∃ j p, o = k + j ∧ pcbs[j]? = some p ∧ p.state = .timeWait := by
  induction pcbs generalizing k deadline oldest with
  | nil => exact .inl h
  | cons q _ ih =>
    rw [oldestTimeWaitFrom] at h
    split at h
    case isTrue hq =>
      rcases ih h with hk | ⟨j, p, rfl, hp, hstate⟩
      · cases hk
        exact .inr ⟨0, q, rfl, rfl, hq.1⟩
      · exact .inr ⟨j + 1, p, by omega, hp, hstate⟩
    case isFalse =>
      rcases ih h with hold | ⟨j, p, rfl, hp, hstate⟩
      · exact .inl hold
      · exact .inr ⟨j + 1, p, by omega, hp, hstate⟩

/-- The oldest connection in TIME-WAIT is one. -/
theorem oldestTimeWait_spec {o : ℕ} (h : e.oldestTimeWait = some o) :
    ∃ q, e.pcbs[o]? = some q ∧ q.state = .timeWait := by
  rcases oldestTimeWaitFrom_spec h with hnone | ⟨j, q, rfl, hq, hstate⟩
  · cases hnone
  · rw [zero_add]
    exact ⟨q, hq, hstate⟩

/-- What makes room in TIME-WAIT: nothing has to, or can, or the oldest connection there
    is removed, and the target looked up again. -/
theorem evictTimeWait_cases (e : TcpHandshakeEngine κ) (i : ℕ) (target : Pcb κ) :
    ((e.timeWaitFull → e.oldestTimeWait = none) ∧
        e.evictTimeWait i target = (e, some (i, target))) ∨
      ∃ o q, e.timeWaitFull ∧ e.oldestTimeWait = some o ∧ e.pcbs[o]? = some q ∧
        q.state = .timeWait ∧
        let e' := (e.removeAt o).emitFlowEvent q.flowId .closed
        e.evictTimeWait i target = (e', (e'.findIndex target.incomingFlow).bind fun (j, p) =>
          if p.generation = target.generation then some (j, p) else none) := by
  unfold evictTimeWait
  split
  case h_1 hnone =>
    refine .inl ⟨fun hfull => ?_, rfl⟩
    rwa [if_pos hfull] at hnone
  case h_2 o ho =>
    split at ho
    case isFalse => cases ho
    case isTrue hfull =>
      obtain ⟨q, hq, hstate⟩ := oldestTimeWait_spec ho
      refine .inr ⟨o, q, hfull, ho, hq, hstate, ?_⟩
      rw [hq]
      dsimp only
      split
      case h_1 hnone => rw [hnone]; rfl
      case h_2 hsome => rw [hsome]; rfl

/-- What the engine was made with is the same, and it is as open. -/
structure SameParameters (e' e : TcpHandshakeEngine κ) : Prop where
  config : e'.config = e.config
  makeController : e'.makeController = e.makeController
  isShutdown : e'.isShutdown = e.isShutdown

theorem SameParameters.trans {e e' e'' : TcpHandshakeEngine κ} (h : SameParameters e'' e')
    (h' : SameParameters e' e) : SameParameters e'' e :=
  ⟨h.config.trans h'.config, h.makeController.trans h'.makeController,
    h.isShutdown.trans h'.isShutdown⟩

theorem SameBooks.parameters (h : SameBooks e' e) : SameParameters e' e :=
  ⟨h.config, h.makeController, h.isShutdown⟩

theorem removeAt_parameters (e : TcpHandshakeEngine κ) (i : ℕ) :
    SameParameters (e.removeAt i) e := by
  unfold removeAt
  split
  case h_1 => exact ⟨rfl, rfl, rfl⟩
  case h_2 p _ =>
    have h := cancelTimers_sameBooks e p
    exact ⟨h.config, h.makeController, h.isShutdown⟩

/-- `e'` is `e` with the connection `a` at `j` moved to TIME-WAIT. -/
def Enters (e : TcpHandshakeEngine κ) (j : ℕ) (a : Pcb κ) (deadlineMs : ℕ)
    (e' : TcpHandshakeEngine κ) : Prop :=
  ∃ e₁ timer, SameBooks e₁ e ∧ e' = e₁.update j (a.enterTimeWait deadlineMs timer)

/-- What makes room in TIME-WAIT: nothing has to, or can, or the oldest connection there
    is removed. -/
inductive Evicts (e : TcpHandshakeEngine κ) : TcpHandshakeEngine κ → Prop
  | nothing (h : e.timeWaitFull = true → e.oldestTimeWait = none) : Evicts e e
  | oldest {o : ℕ} {q : Pcb κ} {e' : TcpHandshakeEngine κ} (hfull : e.timeWaitFull = true)
      (hold : e.oldestTimeWait = some o) (hq : e.pcbs[o]? = some q)
      (hstate : q.state = .timeWait) (hpcbs : e'.pcbs = swapPop e.pcbs o)
      (heq : e' = (e.removeAt o).emitFlowEvent q.flowId .closed) : Evicts e e'

theorem Evicts.parameters (h : Evicts e e') : SameParameters e' e := by
  cases h with
  | nothing => exact ⟨rfl, rfl, rfl⟩
  | @oldest o _ _ _ _ _ _ _ heq =>
    obtain ⟨hconfig, hmake, hshutdown⟩ := removeAt_parameters e o
    exact heq ▸ ⟨hconfig, hmake, hshutdown⟩

theorem Evicts.subset (h : Evicts e e') : ∀ a ∈ e'.pcbs, a ∈ e.pcbs := by
  cases h with
  | nothing => exact fun _ ha => ha
  | oldest _ _ hq _ hpcbs =>
    intro a ha
    rw [hpcbs] at ha
    exact (perm_swapPop hq).subset (mem_cons_of_mem _ ha)

/-- The connection `a` at `j` enters TIME-WAIT, with its timer set. -/
def moveToTimeWait (env : Env) (e : TcpHandshakeEngine κ) (j : ℕ) (a : Pcb κ) (nowMs : ℕ) :
    TcpHandshakeEngine κ × Bool :=
  let deadlineMs := saturatingAdd nowMs e.config.timewaitMs
  let set := e.schedule env deadlineMs (.timeWait a.incomingFlow a.generation)
  (set.1.update j (a.enterTimeWait deadlineMs (set.2.getD 0)), set.2.isSome)

theorem enters_moveToTimeWait (env : Env) (e : TcpHandshakeEngine κ) (j : ℕ) (a : Pcb κ)
    (nowMs : ℕ) : Enters e j a (saturatingAdd nowMs e.config.timewaitMs)
      (e.moveToTimeWait env j a nowMs).1 :=
  ⟨_, _, schedule_sameBooks .., rfl⟩

/-- What a move to TIME-WAIT comes to: the connection enters where it is found once there
    is room, if it is found. -/
theorem scheduleTimeWait_spec (hp : e.pcbs[i]? = some p) (env : Env) (nowMs : ℕ) :
    ∃ e₁, Evicts e e₁ ∧
      (e.scheduleTimeWait env i nowMs = (e₁, false) ∧
          (∀ j a, e₁.findIndex p.incomingFlow = some (j, a) → a.generation ≠ p.generation) ∨
        ∃ j a, e₁.pcbs[j]? = some a ∧ a.incomingFlow = p.incomingFlow ∧
          e.scheduleTimeWait env i nowMs = e₁.moveToTimeWait env j a nowMs) := by
  rw [scheduleTimeWait, hp]
  dsimp only
  rcases evictTimeWait_cases e i p with ⟨hnone, heq⟩ | ⟨o, q, hfull, hold, hq, hstate, heq⟩
  · rw [heq]
    exact ⟨e, .nothing hnone, .inr ⟨i, p, hp, rfl, rfl⟩⟩
  · refine ⟨(e.removeAt o).emitFlowEvent q.flowId .closed,
      .oldest hfull hold hq hstate (removeAt_pcbs e o) rfl, ?_⟩
    generalize (e.removeAt o).emitFlowEvent q.flowId .closed = e₁ at heq
    rw [heq]
    rcases hfind : e₁.findIndex p.incomingFlow with _ | ⟨j, a⟩
    · rw [Option.bind_none]
      exact .inl ⟨rfl, fun j a hfound => by cases hfound⟩
    · obtain ⟨ha, hflow⟩ := findSlot_eq_some hfind
      rw [Option.bind_some]
      dsimp only
      by_cases hgeneration : a.generation = p.generation
      · rw [if_pos hgeneration]
        exact .inr ⟨j, a, ha, of_decide_eq_true hflow, rfl⟩
      · rw [if_neg hgeneration]
        refine .inl ⟨rfl, ?_⟩
        rintro _ _ ⟨⟩
        exact hgeneration

/-- The connection that is set apart enters TIME-WAIT. If another one has to make room for it, it is
    found again; and it is removed if it is the one that makes room itself. -/
theorem Holds.scheduleTimeWait {env : Env} {nowMs : ℕ} (h : Holds c (ExceptFor p.flowId M J) D e)
    (hp : e.pcbs[i]? = some p)
    (hM : ∀ deadlineMs timer hist, M hist → J (p.enterTimeWait deadlineMs timer) hist)
    (hD : ∀ {q : Pcb κ} hist, J q hist → D hist) :
    Holds c J D (e.scheduleTimeWait env i nowMs).1 := by
  obtain ⟨e₁, hroom, hcases⟩ := scheduleTimeWait_spec hp env nowMs
  have h₁ : Holds c (ExceptFor p.flowId M J) D e₁ := by
    cases hroom with
    | nothing => exact h
    | oldest _ _ _ _ _ heq => exact heq ▸ (h.removeAt _).emitFlowEvent _ _
  -- what is found on the flow of the target is the target
  have hfound : ∀ {j a}, e₁.pcbs[j]? = some a → a.incomingFlow = p.incomingFlow → a = p :=
    fun hj hflow => h.tracked.eq_of_name (hroom.subset _ (mem_of_getElem? hj))
      (mem_of_getElem? hp) hflow
  rcases hcases with ⟨heq, hlost⟩ | ⟨j, a, hj, hflow, heq⟩
  · rw [heq]
    refine h₁.of_exceptFor fun a ha hid => ?_
    obtain rfl : a = p := h.tracked.eq_of_ident (hroom.subset a ha) (mem_of_getElem? hp) hid
    rcases hfind : e₁.findIndex a.incomingFlow with _ | ⟨j, b⟩
    · have := findSlot_eq_none hfind a ha
      simp at this
    · obtain ⟨hj, hflow⟩ := findSlot_eq_some hfind
      exact hlost j b hfind (congrArg Pcb.generation (hfound hj (of_decide_eq_true hflow)))
  · obtain rfl := hfound hj hflow
    obtain ⟨_, _, hsame, hentered⟩ := enters_moveToTimeWait env e₁ j a nowMs
    rw [heq, hentered]
    refine (h₁.of_sameTable hsame.toSameTable).set (hsame.toSameTable.getElem hj) rfl rfl
      (fun hist hm => ?_) (fun hist hm => ?_) fun q hist hne hq => ?_
    · rw [ExceptFor, if_pos rfl] at hm
      rw [append_nil]
      exact hM _ _ hist hm
    · rw [ExceptFor, if_pos rfl] at hm
      rw [append_nil]
      exact hD _ (hM 0 0 hist hm)
    · rwa [ExceptFor, if_neg hne] at hq

/-- A reference to a connection that enters TIME-WAIT stands for it afterwards, or for none. -/
theorem scheduleTimeWait_slot {env : Env} {nowMs : ℕ} {q : Pcb κ} (hp : e.pcbs[i]? = some p)
    (hstate : p.state ≠ .timeWait) (hq : (e.scheduleTimeWait env i nowMs).1.pcbs[i]? = some q) :
    q = p ∨ ∃ deadlineMs timer, q = p.enterTimeWait deadlineMs timer := by
  obtain ⟨e₁, hroom, hcases⟩ := scheduleTimeWait_spec hp env nowMs
  -- the slot `i` keeps the target, or is not in the table any more
  have hslot : ∀ b, e₁.pcbs[i]? = some b → b = p := by
    intro b hb
    cases hroom with
    | nothing => exact (Option.some.inj (hp.symm.trans hb)).symm
    | @oldest o _ _ _ _ ha hwaits hpcbs =>
      have hne : i ≠ o := by
        rintro rfl
        rw [hp] at ha
        exact hstate (Option.some.inj ha ▸ hwaits)
      rw [hpcbs] at hb
      obtain ⟨hlt, -⟩ := List.getElem?_eq_some_iff.1 hb
      have hlen := length_swapPop (List.getElem?_eq_some_iff.1 ha).1
      rw [getElem?_swapPop hne (by omega), hp] at hb
      exact (Option.some.inj hb).symm
  rcases hcases with ⟨heq, -⟩ | ⟨j, a, ha, -, heq⟩
  · rw [heq] at hq
    exact .inl (hslot q hq)
  · obtain ⟨_, timer, hsame, hentered⟩ := enters_moveToTimeWait env e₁ j a nowMs
    rw [heq, hentered, update_pcbs, hsame.pcbs] at hq
    by_cases hji : j = i
    · subst hji
      obtain ⟨hlt, -⟩ := List.getElem?_eq_some_iff.1 ha
      rw [List.getElem?_set_self hlt, hslot a ha] at hq
      exact .inr ⟨_, timer, (Option.some.inj hq).symm⟩
    · rw [List.getElem?_set_ne hji] at hq
      exact .inl (hslot q hq)

end TcpHandshakeEngine

end Netstack2
