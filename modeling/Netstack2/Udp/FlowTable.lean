import Netstack2.Core.Shard

/-!
# The UDP flow table

A shard keeps its UDP flows in a table. A datagram of a client opens a flow, if there is none, and
goes to the session of the flow; datagrams from the session come as messages of the control inbox. A
flow is evicted when it was idle for long: by `PurgeExpired`, once in every iteration of the event
loop, and to make room for a new one (`FindOrCreate`).

How long a flow was idle is an unsigned difference of two readings of the clock. One is that from
the start of the iteration. The other one is that of the last activity, which for remote data is
read when its message is processed, later in the same iteration. If the clock has moved on in
between, the difference is a huge number.

* `UdpLoop` is what an iteration has of the table: the calls, in their order, and the readings of
  the clock, which does not go back. It records the datagrams of the clients and of the sessions
  with their times; no step reads them.
* What is evicted was idle, as long as no flow was active after the start of the iteration that
  purges, and no client sends on a flow without a session (`evicted_flow_was_idle`).
* A remote datagram that comes a millisecond after the start of an iteration gets its flow evicted
  at once (`active_flow_evicted`).
-/

namespace Netstack2

open List

structure UdpFlowConfig where
  maxFlows : ℕ := 256
  idleTimeoutMs : UInt64 := 60000
  deriving DecidableEq

structure UdpFlow where
  flow : FlowKey
  flowId : FlowId
  session : Option SessionId := none
  sessionBound : Bool := false
  lastActivityMs : UInt64
  clientDatagrams : ℕ := 0
  remoteDatagrams : ℕ := 0
  deriving DecidableEq

/-- What became of the datagram of a client. -/
inductive UdpDispatch
  | accepted
  | wouldBlock
  | rejected
  | noCapacity
  | ignored

/-- What the table asks for, and how it is answered. -/
structure UdpEnv where
  /-- The session that the factory opens; there is none if it refuses, or throws. -/
  openUdp : Option SessionId := none
  /-- How the session answers a datagram. -/
  send : TrySendOutcome := .threw
  /-- The remote datagram goes out; there is no emitter if it is `none`. -/
  emitter : Option Bool := none
  deriving DecidableEq

structure UdpFlowTable where
  config : UdpFlowConfig
  hasSessionFactory : Bool
  flows : List UdpFlow := []
  nextFlowId : FlowId := 1
  isShutdown : Bool := false
  deriving DecidableEq

/-- The flow is one of UDP, between addresses of one family. -/
def isUdp (flow : FlowKey) : Bool :=
  flow.protocol == 17 && flow.source.family == flow.destination.family

namespace UdpFlowTable

variable (t : UdpFlowTable)

/-- The flow was idle for too long. The difference is one of machine integers. -/
def expired (nowMs : UInt64) (f : UdpFlow) : Bool :=
  nowMs - f.lastActivityMs ≥ t.config.idleTimeoutMs

def evict (i : ℕ) : UdpFlowTable := { t with flows := t.flows.eraseIdx i }

/-- In a full table, make room for a flow, if one has expired. -/
def makeRoom (nowMs : UInt64) : UdpFlowTable :=
  if t.flows.length ≥ t.config.maxFlows then
    match findSlot t.flows (t.expired nowMs) with
    | some (i, _) => t.evict i
    | none => t
  else t

/-- The flow that a datagram opens. -/
def newFlow (env : UdpEnv) (flow : FlowKey) (nowMs : UInt64) : UdpFlow :=
  let session := if t.isShutdown = false ∧ t.hasSessionFactory = true then env.openUdp else none
  { flow := flow
    flowId := t.nextFlowId
    lastActivityMs := nowMs
    session := session
    sessionBound := session.isSome }

/-- The flow of a datagram and its index; there is none if there is no room for it. -/
def findOrCreate (env : UdpEnv) (flow : FlowKey) (nowMs : UInt64) :
    UdpFlowTable × Option (ℕ × UdpFlow) :=
  match findSlot t.flows (·.flow = flow) with
  | some (i, f) => (t, some (i, f))
  | none =>
    let t := t.makeRoom nowMs
    if t.flows.length ≥ t.config.maxFlows then (t, none)
    else
      let f := t.newFlow env flow nowMs
      ({ t with flows := t.flows ++ [f], nextFlowId := t.nextFlowId + 1 }, some (t.flows.length, f))

/-- Handle the datagram of a client. -/
def onClientDatagram (env : UdpEnv) (flow : FlowKey) (payloadLength : ℕ) (nowMs : UInt64) :
    UdpFlowTable × UdpDispatch :=
  if isUdp flow = false then (t, .ignored)
  else match t.findOrCreate env flow nowMs with
    | (t, none) => (t, .noCapacity)
    | (t, some (i, f)) =>
      if f.sessionBound = false ∨ f.session = none then (t, .rejected)
      else
        let t := { t with flows := t.flows.set i { f with
          lastActivityMs := nowMs
          clientDatagrams := f.clientDatagrams + 1 } }
        match env.send with
        | .threw => (t, .rejected)
        | .sent acceptedBytes .accepted =>
          (t, if acceptedBytes = payloadLength then .accepted else .rejected)
        | .sent _ .wouldBlock => (t, .wouldBlock)
        -- the remote channel is gone
        | .sent _ .closed | .sent _ .error => (t.evict i, .rejected)

/-- Handle a datagram from the session of a flow; `nowMs` is read from the clock. -/
def onRemoteData (env : UdpEnv) (flowId : FlowId) (hasLease : Bool) (nowMs : UInt64) : UdpFlowTable
    × ReceiveStatus :=
  match findSlot t.flows (·.flowId = flowId) with
  | none => (t, .closed)
  | some (i, f) =>
    ({ t with flows := t.flows.set i { f with
        lastActivityMs := nowMs
        remoteDatagrams := f.remoteDatagrams + 1 } },
      if hasLease = true ∧ env.emitter = some false then .wouldBlock else .accepted)

def onFlowClosed (flowId : FlowId) : UdpFlowTable :=
  match findSlot t.flows (·.flowId = flowId) with
  | some (i, _) => t.evict i
  | none => t

/-- Evict what has expired, from index `i` on; each round evicts a flow or goes on to the
    next one. -/
def purgeFrom (nowMs : UInt64) : ℕ → ℕ → UdpFlowTable → UdpFlowTable
  | 0, _, t => t
  | fuel + 1, i, t => match t.flows[i]? with
    | none => t
    | some f =>
      if t.expired nowMs f then purgeFrom nowMs fuel i (t.evict i)
      else purgeFrom nowMs fuel (i + 1) t

def purgeExpired (nowMs : UInt64) : UdpFlowTable := purgeFrom nowMs t.flows.length 0 t

def shutdown : UdpFlowTable := { t with flows := [], isShutdown := true }

/-! ## What is evicted -/

variable {t : UdpFlowTable} {nowMs : UInt64} {flow : FlowKey} {env : UdpEnv} {f : UdpFlow}

/-- What the rounds from `i` on leave, if there are enough of them. -/
theorem purgeFrom_flows {fuel i : ℕ} (h : t.flows.length ≤ i + fuel) :
    (purgeFrom nowMs fuel i t).flows =
      t.flows.take i ++ (t.flows.drop i).filter (fun f => !t.expired nowMs f) := by
  induction fuel generalizing i t with
  | zero =>
    rw [Nat.add_zero] at h
    rw [purgeFrom, take_of_length_le h, drop_of_length_le h]
    simp
  | succ _ ih =>
    rw [purgeFrom]
    rcases hf : t.flows[i]? with _ | f
    · have hle := List.getElem?_eq_none_iff.1 hf
      rw [take_of_length_le hle, drop_of_length_le hle]
      simp
    · obtain ⟨hlt, rfl⟩ := List.getElem?_eq_some_iff.1 hf
      dsimp only
      rw [drop_eq_getElem_cons hlt]
      split
      case isTrue hexpired =>
        have hdrop : (t.flows.eraseIdx i).drop i = t.flows.drop (i + 1) := by
          rw [eraseIdx_eq_take_drop_succ, drop_left' (by simp; omega)]
        have htake : (t.flows.eraseIdx i).take i = t.flows.take i := by
          rw [eraseIdx_eq_take_drop_succ, take_left' (by simp; omega)]
        rw [ih (by rw [evict, length_eraseIdx_of_lt hlt]; omega)]
        show (t.flows.eraseIdx i).take i ++ ((t.flows.eraseIdx i).drop i).filter _ = _
        rw [htake, hdrop, filter_cons_of_neg (by simp [hexpired])]
        rfl
      case isFalse hexpired =>
        rw [ih (by omega), filter_cons_of_pos (by simp [hexpired]),
          take_succ_eq_append_getElem hlt, append_assoc]
        rfl

theorem purgeExpired_flows (t : UdpFlowTable) (nowMs : UInt64) :
    (t.purgeExpired nowMs).flows = t.flows.filter (fun f => !t.expired nowMs f) := by
  rw [purgeExpired, purgeFrom_flows (by omega)]
  simp

theorem makeRoom_cases (t : UdpFlowTable) (nowMs : UInt64) :
    t.makeRoom nowMs = t ∨ ∃ i f, t.flows[i]? = some f ∧ t.expired nowMs f ∧
      t.makeRoom nowMs = t.evict i := by
  rw [makeRoom]
  split
  · split
    case h_1 i f hfind =>
      obtain ⟨hi, hexpired⟩ := findSlot_eq_some hfind
      exact .inr ⟨i, f, hi, hexpired, rfl⟩
    case h_2 => exact .inl rfl
  · exact .inl rfl

/-- The flow is found, or it is opened if there is room. -/
theorem findOrCreate_cases (env : UdpEnv) (t : UdpFlowTable) (flow : FlowKey) (nowMs : UInt64) :
    (∃ i f, t.flows[i]? = some f ∧ f.flow = flow ∧
      t.findOrCreate env flow nowMs = (t, some (i, f))) ∨
    (∀ f ∈ t.flows, f.flow ≠ flow) ∧
      (t.findOrCreate env flow nowMs = (t.makeRoom nowMs, none) ∨ t.findOrCreate env flow nowMs =
          ({ t.makeRoom nowMs with
            flows := (t.makeRoom nowMs).flows ++ [(t.makeRoom nowMs).newFlow env flow nowMs]
            nextFlowId := (t.makeRoom nowMs).nextFlowId + 1 },
          some ((t.makeRoom nowMs).flows.length, (t.makeRoom nowMs).newFlow env flow nowMs))) := by
  rw [findOrCreate]
  split
  case h_1 i f hfind =>
    obtain ⟨hi, hflow⟩ := findSlot_eq_some hfind
    exact .inl ⟨i, f, hi, of_decide_eq_true hflow, rfl⟩
  case h_2 hnone =>
    refine .inr ⟨fun f hf => by simpa using findSlot_eq_none hnone f hf, ?_⟩
    dsimp only
    split
    · exact .inl rfl
    · exact .inr rfl

/-- What making room evicts has expired. -/
theorem expired_of_makeRoom (hf : f ∈ t.flows) (hgone : f ∉ (t.makeRoom nowMs).flows) :
    t.expired nowMs f := by
  rcases makeRoom_cases t nowMs with heq | ⟨i, f', hi, hexpired, heq⟩
  · exact absurd hf (heq ▸ hgone)
  · rw [heq] at hgone
    obtain ⟨j, hj⟩ := mem_iff_getElem?.1 hf
    -- any other flow is still there
    obtain rfl : j = i := by
      by_contra hne
      exact hgone (mem_eraseIdx_iff_getElem?.2 ⟨j, hne, hj⟩)
    rw [Option.some.inj (hj.symm.trans hi)]
    exact hexpired

theorem expired_of_findOrCreate (hf : f ∈ t.flows)
    (hgone : f ∉ (t.findOrCreate env flow nowMs).1.flows) : t.expired nowMs f := by
  rcases findOrCreate_cases env t flow nowMs with ⟨_, _, _, _, heq⟩ | ⟨-, heq | heq⟩ <;>
    rw [heq] at hgone
  · exact absurd hf hgone
  · exact expired_of_makeRoom hf hgone
  · exact expired_of_makeRoom hf fun hkept => hgone (mem_append_left _ hkept)

theorem expired_of_purgeExpired (hf : f ∈ t.flows) (hgone : f ∉ (t.purgeExpired nowMs).flows) :
    t.expired nowMs f := by
  rw [purgeExpired_flows, mem_filter] at hgone
  by_contra hkept
  exact hgone ⟨hf, by simpa using hkept⟩

end UdpFlowTable

/-! ## The event loop -/

/-- The table in the event loop of its shard. -/
structure UdpLoop where
  table : UdpFlowTable
  /-- The time read at the start of the iteration. -/
  nowMs : UInt64 := 0
  /-- The last reading of the clock. -/
  clockMs : UInt64 := 0
  /-- The iteration receives packets; it has not come to the control inbox. -/
  receiving : Bool := false
  /-- The datagrams of each flow, with their times. -/
  datagrams : List (FlowKey × UInt64) := []

inductive UdpEvent
  /-- An iteration starts. -/
  | iteration (nowMs : UInt64)
  /-- The clock is read elsewhere. -/
  | readClock (nowMs : UInt64)
  | clientDatagram (env : UdpEnv) (flow : FlowKey) (payloadLength : ℕ)
  | remoteData (env : UdpEnv) (flowId : FlowId) (hasLease : Bool) (nowMs : UInt64)
  | flowClosed (flowId : FlowId)
  | purgeExpired
  | shutdown

namespace UdpLoop

/-- The clock does not go back, and packets are received before the control inbox is drained. -/
def Possible (s : UdpLoop) : UdpEvent → Prop
  | .iteration nowMs | .readClock nowMs | .remoteData _ _ _ nowMs => s.clockMs ≤ nowMs
  | .clientDatagram _ _ _ => s.receiving = true
  | .flowClosed _ | .purgeExpired | .shutdown => True

def step (s : UdpLoop) : UdpEvent → UdpLoop
  | .iteration nowMs => { s with nowMs := nowMs, clockMs := nowMs, receiving := true }
  | .readClock nowMs => { s with clockMs := nowMs }
  | .clientDatagram env flow payloadLength =>
    { s with
      table := (s.table.onClientDatagram env flow payloadLength s.nowMs).1
      datagrams := if isUdp flow then s.datagrams ++ [(flow, s.nowMs)] else s.datagrams }
  | .remoteData env flowId hasLease nowMs =>
    let table := (s.table.onRemoteData env flowId hasLease nowMs).1
    -- the clock is read for a flow of the table only
    match findSlot s.table.flows (·.flowId = flowId) with
    | some (_, f) =>
      { s with
        table := table
        clockMs := nowMs
        receiving := false
        datagrams := s.datagrams ++ [(f.flow, nowMs)] }
    | none => { s with table := table, receiving := false }
  | .flowClosed flowId => { s with table := s.table.onFlowClosed flowId, receiving := false }
  | .purgeExpired => { s with table := s.table.purgeExpired s.nowMs, receiving := false }
  | .shutdown => { s with table := s.table.shutdown, receiving := false }

/-- The flows that an event evicts because they have expired. -/
def evicted (s : UdpLoop) : UdpEvent → List UdpFlow
  | .clientDatagram env flow _ =>
    if isUdp flow then
      s.table.flows.filter (· ∉ (s.table.findOrCreate env flow s.nowMs).1.flows)
    else []
  | .purgeExpired => s.table.flows.filter (· ∉ (s.table.purgeExpired s.nowMs).flows)
  | _ => []

/-- The flow had no datagram during the idle timeout before the last reading of the clock. -/
def Idle (s : UdpLoop) (f : UdpFlow) : Prop :=
  ∀ d ∈ s.datagrams, d.1 = f.flow →
    d.2.toNat + s.table.config.idleTimeoutMs.toNat ≤ s.clockMs.toNat

/-- No flow was active after the start of the iteration that purges, and no client sends on
    a flow without a session. -/
def Orderly (s : UdpLoop) : UdpEvent → Prop
  | .clientDatagram _ flow _ => ∀ f ∈ s.table.flows, f.flow = flow →
    f.sessionBound = true ∧ f.session.isSome = true
  | .purgeExpired => ∀ f ∈ s.table.flows, f.lastActivityMs ≤ s.nowMs
  | _ => True

/-- `s` is reached from an empty table by possible events that meet the condition `A`. -/
def Reachable (A : UdpLoop → UdpEvent → Prop) (s : UdpLoop) : Prop :=
  ∃ config hasSessionFactory, Runs (fun s ev s' => (s.Possible ev ∧ A s ev) ∧ s' = s.step ev)
    { table := { config := config, hasSessionFactory := hasSessionFactory } } s

instance (s : UdpLoop) : ∀ ev, Decidable (s.Possible ev)
  | .iteration nowMs | .readClock nowMs | .remoteData _ _ _ nowMs =>
    inferInstanceAs (Decidable (s.clockMs ≤ nowMs))
  | .clientDatagram _ _ _ => inferInstanceAs (Decidable (s.receiving = true))
  | .flowClosed _ | .purgeExpired | .shutdown => .isTrue trivial

instance (s : UdpLoop) : ∀ ev, Decidable (s.Orderly ev)
  | .clientDatagram _ flow _ => inferInstanceAs (Decidable (∀ f ∈ s.table.flows, f.flow = flow →
      f.sessionBound = true ∧ f.session.isSome = true))
  | .purgeExpired => inferInstanceAs (Decidable (∀ f ∈ s.table.flows, f.lastActivityMs ≤ s.nowMs))
  | .iteration _ | .readClock _ | .remoteData _ _ _ _ | .flowClosed _ | .shutdown => .isTrue trivial

end UdpLoop

/-! ## What the table knows of its flows -/

/-- No flow has had a datagram since its last activity, and all of this was up to the
    time `nowMs`. -/
structure Stamped (flows : List UdpFlow) (datagrams : List (FlowKey × UInt64)) (nowMs : UInt64) :
    Prop where
  keys : (flows.map UdpFlow.flow).Nodup
  each : ∀ f ∈ flows, ∀ d ∈ datagrams, d.1 = f.flow → d.2 ≤ f.lastActivityMs
  past : ∀ d ∈ datagrams, d.2 ≤ nowMs
  active : ∀ f ∈ flows, f.lastActivityMs ≤ nowMs

namespace Stamped

variable {flows flows' : List UdpFlow} {datagrams : List (FlowKey × UInt64)}
  {nowMs nowMs' : UInt64} {f f' : UdpFlow} {i : ℕ} {flow : FlowKey}

section

variable (h : Stamped flows datagrams nowMs)

include h

theorem mono (hle : nowMs ≤ nowMs') : Stamped flows datagrams nowMs' where
  keys := h.keys
  each := h.each
  past d hd := UInt64.le_trans (h.past d hd) hle
  active f hf := UInt64.le_trans (h.active f hf) hle

theorem of_sublist (hsub : flows'.Sublist flows) : Stamped flows' datagrams nowMs where
  keys := h.keys.sublist (hsub.map _)
  each f hf := h.each f (hsub.subset hf)
  past := h.past
  active f hf := h.active f (hsub.subset hf)

theorem past_append (flow : FlowKey) : ∀ d ∈ datagrams ++ [(flow, nowMs)], d.2 ≤ nowMs := by
  intro d hd
  rcases mem_append.1 hd with hd | hd
  · exact h.past d hd
  · rw [mem_singleton.1 hd]
    exact UInt64.le_refl nowMs

/-- A datagram for which there is no flow. -/
theorem log (hnone : ∀ f ∈ flows, f.flow ≠ flow) :
    Stamped flows (datagrams ++ [(flow, nowMs)]) nowMs where
  keys := h.keys
  each f hf d hd hflow := by
    rcases mem_append.1 hd with hd | hd
    · exact h.each f hf d hd hflow
    · rw [mem_singleton.1 hd] at hflow
      exact absurd hflow.symm (hnone f hf)
  past := h.past_append flow
  active := h.active

/-- A new flow, active now. -/
theorem push (hnew : ∀ g ∈ flows, g.flow ≠ f.flow) (hactive : f.lastActivityMs = nowMs) :
    Stamped (flows ++ [f]) datagrams nowMs where
  keys := by
    rw [map_append, map_singleton]
    refine nodup_append.2 ⟨h.keys, nodup_singleton _, fun a ha b hb hab => ?_⟩
    obtain ⟨g, hg, rfl⟩ := mem_map.1 ha
    exact hnew g hg (hab.trans (mem_singleton.1 hb))
  each g hg d hd hflow := by
    rcases mem_append.1 hg with hg | hg
    · exact h.each g hg d hd hflow
    · rw [mem_singleton.1 hg, hactive]
      exact h.past d hd
  past := h.past
  active g hg := by
    rcases mem_append.1 hg with hg | hg
    · exact h.active g hg
    · rw [mem_singleton.1 hg, hactive]
      exact UInt64.le_refl nowMs

/-- A datagram of a flow, which is active now. -/
theorem touch (hf : flows[i]? = some f) (hflow : f'.flow = f.flow)
    (hactive : f'.lastActivityMs = nowMs) :
    Stamped (flows.set i f') (datagrams ++ [(f.flow, nowMs)]) nowMs := by
  have hkeys : ((flows.set i f').map UdpFlow.flow).Nodup := by
    rw [map_set_of_eq hf hflow]
    exact h.keys
  have hmem : f' ∈ flows.set i f' := by
    obtain ⟨hlt, -⟩ := List.getElem?_eq_some_iff.1 hf
    exact mem_set hlt f'
  refine ⟨hkeys, fun g hg d hd hgflow => ?_, h.past_append f.flow, fun g hg => ?_⟩
  · rcases mem_append.1 hd with hd | hd
    · rcases mem_or_eq_of_mem_set hg with hg | rfl
      · exact h.each g hg d hd hgflow
      · rw [hactive]
        exact h.past d hd
    · -- its flow is in the table once
      obtain rfl := mem_singleton.1 hd
      rw [inj_on_of_nodup_map hkeys hg hmem (hgflow.symm.trans hflow.symm), hactive]
      exact UInt64.le_refl nowMs
  · rcases mem_or_eq_of_mem_set hg with hg | rfl
    · exact h.active g hg
    · rw [hactive]
      exact UInt64.le_refl nowMs

end

end Stamped

namespace UdpFlowTable

variable {t : UdpFlowTable} {datagrams : List (FlowKey × UInt64)} {nowMs : UInt64}
  {flow : FlowKey} {f : UdpFlow}

theorem evict_sublist (t : UdpFlowTable) (i : ℕ) : (t.evict i).flows.Sublist t.flows :=
  eraseIdx_sublist t.flows i

theorem makeRoom_sublist (t : UdpFlowTable) (nowMs : UInt64) :
    (t.makeRoom nowMs).flows.Sublist t.flows := by
  rcases makeRoom_cases t nowMs with heq | ⟨i, _, -, -, heq⟩ <;> rw [heq]
  exact t.evict_sublist i

/-- The flow that a datagram finds or opens has a session, or is active now. -/
theorem Stamped.findOrCreate (h : Stamped t.flows datagrams nowMs) (env : UdpEnv)
    (hbound : ∀ f ∈ t.flows, f.flow = flow → f.sessionBound ∧ f.session.isSome) :
    match t.findOrCreate env flow nowMs with
    | (t', none) => Stamped t'.flows (datagrams ++ [(flow, nowMs)]) nowMs
    | (t', some (i, f)) => Stamped t'.flows datagrams nowMs ∧ t'.flows[i]? = some f ∧
      f.flow = flow ∧
        (f.sessionBound ∧ f.session.isSome ∨ f.lastActivityMs = nowMs) := by
  rcases findOrCreate_cases env t flow nowMs with ⟨i, f, hi, hflow, heq⟩ | ⟨hnone, heq | heq⟩ <;>
    rw [heq]
  · exact ⟨h, hi, hflow, .inl (hbound f (mem_of_getElem? hi) hflow)⟩
  · exact (h.of_sublist (makeRoom_sublist t nowMs)).log fun f hf =>
      hnone f ((makeRoom_sublist t nowMs).subset hf)
  · refine ⟨(h.of_sublist (makeRoom_sublist t nowMs)).push (fun g hg => ?_) rfl,
      getElem?_concat_length, rfl, .inr rfl⟩
    exact hnone g ((makeRoom_sublist t nowMs).subset hg)

theorem Stamped.onClientDatagram (h : Stamped t.flows datagrams nowMs) (env : UdpEnv)
    (hbound : ∀ f ∈ t.flows, f.flow = flow → f.sessionBound ∧ f.session.isSome)
    (payloadLength : ℕ) : Stamped (t.onClientDatagram env flow payloadLength nowMs).1.flows
      (if isUdp flow then datagrams ++ [(flow, nowMs)] else datagrams) nowMs := by
  have hfound := Stamped.findOrCreate h env hbound
  rw [UdpFlowTable.onClientDatagram]
  rcases hudp : isUdp flow
  · exact h
  · rw [if_neg Bool.noConfusion, if_pos rfl]
    split
    case h_1 heq =>
      rw [heq] at hfound
      exact hfound
    case h_2 t' i f heq =>
      rw [heq] at hfound
      obtain ⟨hstamped, hi, rfl, hsession⟩ := hfound
      split
      case isTrue hnone =>
        -- the flow is new, and the factory has refused it
        have hactive := hsession.resolve_left (by rcases hnone with hnone | hnone <;> simp [hnone])
        exact set_of_getElem? hi ▸ hstamped.touch hi rfl hactive
      case isFalse =>
        have htouched : Stamped (t'.flows.set i { f with
            lastActivityMs := nowMs, clientDatagrams := f.clientDatagrams + 1 })
            (datagrams ++ [(f.flow, nowMs)]) nowMs := hstamped.touch hi rfl rfl
        split
        · exact htouched
        · exact htouched
        · exact htouched
        -- the session has closed or failed, and the flow goes
        · exact htouched.of_sublist (evict_sublist _ i)
        · exact htouched.of_sublist (evict_sublist _ i)

/-- Where the clock has not gone back, what has expired was idle. -/
theorem le_of_expired (h : t.expired nowMs f) (hle : f.lastActivityMs ≤ nowMs) :
    f.lastActivityMs.toNat + t.config.idleTimeoutMs.toNat ≤ nowMs.toNat := by
  have hidle := UInt64.le_iff_toNat_le.1 (of_decide_eq_true h)
  rw [UInt64.toNat_sub_of_le _ _ hle] at hidle
  have := UInt64.le_iff_toNat_le.1 hle
  omega

end UdpFlowTable

namespace UdpLoop

variable {s : UdpLoop} {ev : UdpEvent} {f : UdpFlow}

/-- While packets are received, nothing was stamped later than the iteration. -/
structure Timed (s : UdpLoop) : Prop where
  clock : s.nowMs ≤ s.clockMs
  stamped : Stamped s.table.flows s.datagrams (if s.receiving then s.nowMs else s.clockMs)

theorem Timed.stamped_clock (h : s.Timed) : Stamped s.table.flows s.datagrams s.clockMs := by
  refine h.stamped.mono ?_
  split
  · exact h.clock
  · exact UInt64.le_refl _

/-- Flows are only removed. -/
theorem Timed.of_sublist (h : s.Timed) {table : UdpFlowTable}
    (hsub : table.flows.Sublist s.table.flows) :
    Timed { s with table := table, receiving := false } :=
  ⟨h.clock, h.stamped_clock.of_sublist hsub⟩

theorem Timed.step (h : s.Timed) (hpossible : s.Possible ev) (horderly : s.Orderly ev) :
    (s.step ev).Timed := by
  cases ev with
  | iteration nowMs => exact ⟨UInt64.le_refl nowMs, h.stamped_clock.mono hpossible⟩
  | readClock nowMs =>
    refine ⟨UInt64.le_trans h.clock hpossible, h.stamped.mono ?_⟩
    show (if s.receiving then s.nowMs else s.clockMs) ≤ if s.receiving then s.nowMs else nowMs
    split
    · exact UInt64.le_refl _
    · exact hpossible
  | clientDatagram env _ payloadLength =>
    -- packets are stamped with the time of the iteration, not with the clock
    have hreceiving : s.receiving := hpossible
    have hstamped := h.stamped
    rw [hreceiving, if_pos rfl] at hstamped
    refine ⟨h.clock, ?_⟩
    show Stamped _ _ (if s.receiving then s.nowMs else s.clockMs)
    rw [hreceiving, if_pos rfl]
    exact UdpFlowTable.Stamped.onClientDatagram hstamped env horderly payloadLength
  | remoteData _ flowId =>
    rcases hfind : findSlot s.table.flows (·.flowId = flowId) with _ | ⟨i, f⟩
    · simp only [UdpLoop.step, UdpFlowTable.onRemoteData, hfind]
      exact ⟨h.clock, h.stamped_clock⟩
    · obtain ⟨hi, -⟩ := findSlot_eq_some hfind
      simp only [UdpLoop.step, UdpFlowTable.onRemoteData, hfind]
      exact ⟨UInt64.le_trans h.clock hpossible, (h.stamped_clock.mono hpossible).touch hi rfl rfl⟩
  | flowClosed =>
    refine h.of_sublist ?_
    rw [UdpFlowTable.onFlowClosed]
    split
    · exact UdpFlowTable.evict_sublist _ _
    · exact .refl _
  | purgeExpired =>
    refine h.of_sublist ?_
    rw [UdpFlowTable.purgeExpired_flows]
    exact filter_sublist
  | shutdown => exact h.of_sublist (nil_sublist _)

theorem Reachable.timed (h : s.Reachable Orderly) : s.Timed := by
  obtain ⟨config, hasSessionFactory, hruns⟩ := h
  refine hruns.invariant (P := Timed) ?_ ?_
  · exact ⟨UInt64.le_refl 0, nodup_nil, nofun, nofun, nofun⟩
  · rintro s ev _ htimed ⟨⟨hpossible, horderly⟩, rfl⟩
    exact htimed.step hpossible horderly

end UdpLoop

/-- In every run in which no flow was active after the start of an iteration when it
    purges, and no client sends on a flow without a session: a flow that is evicted had no
    datagram during the idle timeout. -/
theorem evicted_flow_was_idle {s : UdpLoop} {ev : UdpEvent} {f : UdpFlow}
    (h : s.Reachable UdpLoop.Orderly) (hpossible : s.Possible ev) (horderly : s.Orderly ev)
    (hf : f ∈ s.evicted ev) : s.Idle f := by
  have htimed := h.timed
  -- the flow has expired, and was not active later
  obtain ⟨hmem, hexpired, hle⟩ : f ∈ s.table.flows ∧ s.table.expired s.nowMs f = true ∧
      f.lastActivityMs ≤ s.nowMs := by
    cases ev with
    | clientDatagram =>
      rw [UdpLoop.evicted] at hf
      split at hf
      · obtain ⟨hmem, hgone⟩ := mem_filter.1 hf
        have hstamped := htimed.stamped
        rw [show s.receiving = true from hpossible, if_pos rfl] at hstamped
        exact ⟨hmem, UdpFlowTable.expired_of_findOrCreate hmem (of_decide_eq_true hgone),
          hstamped.active f hmem⟩
      · exact absurd hf not_mem_nil
    | purgeExpired =>
      obtain ⟨hmem, hgone⟩ := mem_filter.1 hf
      exact ⟨hmem, UdpFlowTable.expired_of_purgeExpired hmem (of_decide_eq_true hgone),
        horderly f hmem⟩
    | _ => exact absurd hf not_mem_nil
  intro d hd hflow
  have hidle := UdpFlowTable.le_of_expired hexpired hle
  have hlast := UInt64.le_iff_toNat_le.1 (htimed.stamped.each f hmem d hd hflow)
  have hclock := UInt64.le_iff_toNat_le.1 htimed.clock
  omega

/-- The flow of a client. -/
def clientFlow : FlowKey := clientTo 1 53 17

/-- The client sends two bytes; the factory opens a session that takes them. -/
def clientSends : UdpEvent :=
  .clientDatagram { openUdp := some 1, send := .sent 2 .accepted } clientFlow 2

/-- The loop after some events, with the default configuration. -/
def loopAfter (events : List UdpEvent) : UdpLoop :=
  events.foldl UdpLoop.step { table := { config := {}, hasSessionFactory := true } }

theorem reachable_loopAfter {A : UdpLoop → UdpEvent → Prop} {events : List UdpEvent}
    (h : Allowed UdpLoop.step (fun s ev => s.Possible ev ∧ A s ev)
      { table := { config := {}, hasSessionFactory := true } } events) :
    (loopAfter events).Reachable A := ⟨_, _, h.runs⟩

/-- A flow that was active at time 0 is evicted at time 60000. -/
theorem evicted_flow_was_idle_purged :
    let s := loopAfter [.iteration 0, clientSends, .purgeExpired, .iteration 60000]
    s.Reachable UdpLoop.Orderly ∧ s.datagrams = [(clientFlow, 0)] ∧
      (s.evicted .purgeExpired).length = 1 ∧ ∀ f ∈ s.evicted .purgeExpired, s.Idle f := by
  have hreach : (loopAfter [.iteration 0, clientSends, .purgeExpired, .iteration 60000]).Reachable
      UdpLoop.Orderly := reachable_loopAfter (by decide)
  have horderly : (loopAfter [.iteration 0, clientSends, .purgeExpired, .iteration 60000]).Orderly
      .purgeExpired := by decide
  refine ⟨hreach, by decide, by decide, fun f hf => ?_⟩
  exact evicted_flow_was_idle hreach (by trivial) horderly hf

/-- The session of a flow sends a datagram a millisecond after the start of an iteration,
    and the flow is evicted in the same iteration. -/
theorem active_flow_evicted :
    let s := loopAfter [.iteration 0, clientSends, .remoteData {} 1 true 1]
    s.Reachable (fun _ _ => True) ∧ s.Possible .purgeExpired ∧
      s.datagrams = [(clientFlow, 0), (clientFlow, 1)] ∧ s.clockMs = 1 ∧
      s.table.config.idleTimeoutMs = 60000 ∧
      ∃ f ∈ s.evicted .purgeExpired, f.flow = clientFlow ∧ ¬ s.Idle f := by
  refine ⟨reachable_loopAfter (by decide), trivial, by decide, by decide, by decide, ?_⟩
  refine ⟨⟨clientFlow, 1, some 1, true, 1, 1, 1⟩, by decide, rfl, fun hidle => ?_⟩
  exact absurd (hidle (clientFlow, 1) (by decide) rfl) (by decide)

-- a flow that the factory has refused is evicted, though its client goes on to send
example : let s := loopAfter [.iteration 0, .clientDatagram {} clientFlow 2,
      .iteration 59999, .clientDatagram {} clientFlow 2, .iteration 60000]
    s.datagrams = [(clientFlow, 0), (clientFlow, 59999)] ∧
      (s.evicted .purgeExpired).map UdpFlow.flow = [clientFlow] := by decide

end Netstack2
