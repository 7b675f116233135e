import Netstack2.Tcp.Engine.Handshake
import Netstack2.Tcp.Engine.Pump

/-!
# What the pump removes

A send buffer that gave up is closed. The pump, on its way through the table, removes such a
connection if it is closing: its FIN will never be acknowledged. A connection that is not closing
stays in the table, with a send buffer that takes and sends nothing any more.

* `Walks.reaps`: a pump with budgets for the whole table removes the dead connections and no others,
  each with its event;
* `dead_flow_removed_iff`: of the connections that gave up, those are removed that are closing.
-/

namespace Netstack2

open List

variable {κ : Type}

namespace TcpHandshakeEngine

/-- Of the connections `l` of `e`, those that are dead are gone in `e'`, and an event
    was emitted for each; all other connections are there. -/
structure Reaps (e : TcpHandshakeEngine κ) (l : List (Pcb κ)) (e' : TcpHandshakeEngine κ) :
    Prop where
  table : (e'.pcbs.map Pcb.flowId ++ (l.filter Pcb.isDead).map Pcb.flowId).Perm
    (e.pcbs.map Pcb.flowId)
  events : ∃ added, e'.events = e.events ++ added ∧
    added.Perm ((l.filter Pcb.isDead).map fun p => (p.flowId, .closed))

namespace Reaps

variable {e e₁ e' : TcpHandshakeEngine κ} {l l₁ : List (Pcb κ)} {p : Pcb κ}

theorem refl (h : ∀ p ∈ l, p.isDead = false) : Reaps e l e := by
  have hnone : l.filter Pcb.isDead = [] := filter_eq_nil_iff.2 fun p hp => by simp [h p hp]
  refine ⟨?_, [], (append_nil _).symm, ?_⟩
  · rw [hnone, map_nil, append_nil]
  · rw [hnone, map_nil]

/-- A connection that lives is kept, whatever is done to it. -/
theorem keep (h : Reaps e₁ l e') (hnames : e₁.pcbs.map Pcb.flowId = e.pcbs.map Pcb.flowId)
    (hevents : e₁.events = e.events) (hp : p.isDead = false) : Reaps e (p :: l) e' := by
  have hfilter : (p :: l).filter Pcb.isDead = l.filter Pcb.isDead :=
    filter_cons_of_neg (by simp [hp])
  refine ⟨?_, ?_⟩
  · rw [hfilter, ← hnames]
    exact h.table
  · rw [hfilter, ← hevents]
    exact h.events

/-- A dead connection is removed, which may reorder the others. -/
theorem remove (h : Reaps e₁ l₁ e') (hl : l₁.Perm l)
    (hnames : (p.flowId :: e₁.pcbs.map Pcb.flowId).Perm (e.pcbs.map Pcb.flowId))
    (hevents : e₁.events = e.events ++ [(p.flowId, .closed)]) (hp : p.isDead) :
    Reaps e (p :: l) e' := by
  obtain ⟨htable, added, hadded, hperm⟩ := h
  have hfilter : (p :: l).filter Pcb.isDead = p :: l.filter Pcb.isDead := filter_cons_of_pos hp
  have hdead : (l₁.filter Pcb.isDead).Perm (l.filter Pcb.isDead) := hl.filter _
  refine ⟨?_, (p.flowId, .closed) :: added, ?_, ?_⟩
  · rw [hfilter, map_cons]
    refine (perm_middle.trans (.cons _ ?_)).trans hnames
    exact ((hdead.map _).symm.append_left _).trans htable
  · rw [hadded, hevents, append_assoc]
    rfl
  · rw [hfilter, map_cons]
    exact .cons _ (hperm.trans (hdead.map _))

/-- A dead connection is not in the table any more. -/
theorem removed (h : Reaps e l e') (hnames : (e.pcbs.map Pcb.flowId).Nodup) (hp : p ∈ l)
    (hdead : p.isDead) :
    (∀ q ∈ e'.pcbs, q.flowId ≠ p.flowId) ∧
      (p.flowId, .closed) ∈ e'.events.drop e.events.length := by
  have hmem : p ∈ l.filter Pcb.isDead := mem_filter.2 ⟨hp, hdead⟩
  refine ⟨fun q hq heq => ?_, ?_⟩
  · have hdisjoint := (nodup_append.1 (h.table.nodup_iff.2 hnames)).2.2
    exact hdisjoint _ (mem_map_of_mem hq) _ (mem_map_of_mem hmem) heq
  · obtain ⟨_, hadded, hperm⟩ := h.events
    rw [hadded, drop_left]
    exact hperm.mem_iff.2 (mem_map.2 ⟨p, hmem, rfl⟩)

/-- A connection that lives is in the table. -/
theorem kept (h : Reaps e e.pcbs e') (hnames : (e.pcbs.map Pcb.flowId).Nodup) (hp : p ∈ e.pcbs)
    (hlives : p.isDead = false) : ∃ q ∈ e'.pcbs, q.flowId = p.flowId := by
  have hmem := h.table.mem_iff.2 (mem_map_of_mem hp)
  rcases mem_append.1 hmem with hthere | hdead
  · exact mem_map.1 hthere
  · -- a dead connection has another identifier
    obtain ⟨_, hq, hid⟩ := mem_map.1 hdead
    obtain ⟨hq, hdead⟩ := mem_filter.1 hq
    simp [inj_on_of_nodup_map hnames hq hp hid, hlives] at hdead

end Reaps

theorem cancelTimer_events (e : TcpHandshakeEngine κ) (id : TimerId) :
    (e.cancelTimer id).events = e.events := by
  rw [cancelTimer]
  split <;> rfl

theorem removeAt_events (e : TcpHandshakeEngine κ) (i : ℕ) : (e.removeAt i).events = e.events := by
  rw [removeAt]
  split
  · rfl
  · rw [release, cancelTimer_events, cancelTimer_events, cancelTimer_events]

variable [CongestionController κ] {env : Env} {nowMs pcbBudget maxSegments : ℕ} {e e' : TcpHandshakeEngine κ} {p : Pcb κ}

/-- The pump removes the dead connections on its way and no others, if the budgets are
    enough for all connections. -/
theorem Walks.reaps {visited built : ℕ} {l : List (Pcb κ)}
    (hw : Walks env nowMs pcbBudget maxSegments visited built l e e')
    (hqueues : ∀ id, env.queuesPacket id) (hvisited : visited + l.length < pcbBudget)
    (hbuilt : built + l.length < maxSegments) : Reaps e l e' := by
  induction hw with
  | done => exact .refl fun p hp => absurd hp not_mem_nil
  | stop hstop =>
    rcases hstop with hstop | hstop | ⟨id, hfull⟩
    · omega
    · omega
    · simp [hqueues id] at hfull
  | skip _ hlives _ ih =>
    rw [length_cons] at hvisited hbuilt
    exact (ih (by omega) (by omega)).keep rfl rfl hlives
  | @reap _ _ i p l e _ hp _ hdead _ ih =>
    rw [length_cons, ← (perm_lastFirst l).length_eq] at hvisited hbuilt
    have hnames : (p.flowId :: (e.removeAt i).pcbs.map Pcb.flowId).Perm
        (e.pcbs.map Pcb.flowId) := by
      rw [removeAt_pcbs]
      exact (perm_swapPop hp).map Pcb.flowId
    exact (ih (by omega) (by omega)).remove (perm_lastFirst l) hnames
      (congrArg (· ++ _) (removeAt_events e i)) hdead
  | @serve _ _ i p send _ e _ hp hs _ hopen _ _ ih =>
    rw [length_cons] at hvisited hbuilt
    obtain ⟨send', seen, hasked⟩ := pumpOne_spec e env i p send nowMs
    refine (ih (by omega) (by split <;> omega)).keep ?_ ?_ (by simp [Pcb.isDead, Pcb.hasGivenUp, hs, hopen])
    · rw [hasked]
      exact map_set_of_eq hp rfl
    · rw [hasked]
      rfl

end TcpHandshakeEngine

section

variable [CongestionController κ] {e : TcpHandshakeEngine κ} {p : Pcb κ}

/-- In every reachable state, a pump with budgets for more than the whole table removes a
    connection whose send buffer has given up, emits its event, and removes none whose send
    buffer is open, just if the connection is closing. -/
theorem dead_flow_removed_iff (h : e.Reachable fun _ _ => True) (hp : p ∈ e.pcbs)
    (hgone : p.hasGivenUp = true) (env : Env) (hqueues : ∀ id, env.queuesPacket id = true)
    (nowMs : ℕ) {pcbBudget maxSegments : ℕ} (hbudget : e.pcbs.length < pcbBudget)
    (hsegments : e.pcbs.length < maxSegments) :
    let e' := (e.pumpSendPaths env nowMs pcbBudget maxSegments).1
    ((∀ q ∈ e'.pcbs, q.flowId ≠ p.flowId) ∧ (p.flowId, .closed) ∈ e'.events.drop e.events.length ∧
        ∀ q ∈ e.pcbs, q.hasGivenUp = false → ∃ q' ∈ e'.pcbs, q'.flowId = q.flowId) ↔
      p.state.isClosing = true := by
  have hnames : (e.pcbs.map Pcb.flowId).Nodup :=
    (TcpHandshakeEngine.reachable_iff.1 h).tracked.idents
  have hreaps : TcpHandshakeEngine.Reaps e e.pcbs
      (e.pumpSendPaths env nowMs pcbBudget maxSegments).1 :=
    (TcpHandshakeEngine.pumpSendPaths_walks env e nowMs pcbBudget maxSegments).reaps hqueues
      (by omega) (by omega)
  have hdead : p.isDead = p.state.isClosing := by rw [Pcb.isDead, hgone, Bool.true_and]
  refine ⟨fun hremoved => ?_, fun hclosing => ?_⟩
  · by_contra hnot
    obtain ⟨q, hq, hid⟩ := hreaps.kept hnames hp (hdead.trans (Bool.not_eq_true _ ▸ hnot))
    exact hremoved.1 q hq hid
  · obtain ⟨hgoes, hevent⟩ := hreaps.removed hnames hp (hdead.trans hclosing)
    refine ⟨hgoes, hevent, fun q hq hopen => hreaps.kept hnames hq ?_⟩
    rw [Pcb.isDead, hopen, Bool.false_and]

end

/-- A byte is sent, sent again, and never acknowledged. -/
def unanswered : List (Env × EngineOp) :=
  [peerSends 1 TcpFlag.syn 100 0, peerSends 1 TcpFlag.ack 101 1, ({}, .enqueueSendData 1 [7]),
    ({}, .pumpSendPaths 0 8 8), ({}, .pumpSendPaths 1000 8 8)]

/-- A connection that is not closing stays when its send buffer has given up. -/
theorem dead_flow_stays :
    ∃ (e : TcpHandshakeEngine AimdController) (p : Pcb AimdController),
      e.Reachable (fun _ _ => True) ∧ p ∈ e.pcbs ∧ p.state = .established ∧
      p.hasGivenUp = true ∧ e.pcbs.length < 8 ∧
      ∃ q ∈ (e.pumpSendPaths {} 2000 8 8).1.pcbs, q.flowId = p.flowId := by
  obtain ⟨e, hreach, p, hp, hstate, hgone, hlength, hstays⟩ :=
    exists_reached (P := fun e p => p.state = .established ∧ p.hasGivenUp = true ∧ e.pcbs.length < 8 ∧
      p.flowId ∈ (e.pumpSendPaths {} 2000 8 8).1.pcbs.map Pcb.flowId)
    { receiveWindow := 16, maxRetransmissions := 1 } unanswered
    (by decide +kernel)
  exact ⟨e, p, hreach, hp, hstate, hgone, hlength, mem_map.1 hstays⟩

/-- The same connection, closed after its send buffer gave up. -/
theorem dead_flow_removed_iff_finWait1 :
    ∃ (e : TcpHandshakeEngine AimdController) (p : Pcb AimdController),
      e.Reachable (fun _ _ => True) ∧ p ∈ e.pcbs ∧ p.state = .finWait1 ∧
      p.hasGivenUp = true ∧ e.pcbs.length < 8 ∧
      (∀ q ∈ (e.pumpSendPaths {} 2000 8 8).1.pcbs, q.flowId ≠ p.flowId) ∧
      (p.flowId, .closed) ∈ (e.pumpSendPaths {} 2000 8 8).1.events.drop e.events.length := by
  obtain ⟨e, hreach, p, hp, hstate, hgone, hlength⟩ := exists_reached (P := fun e p => p.state = .finWait1 ∧ p.hasGivenUp = true ∧ e.pcbs.length < 8)
    { receiveWindow := 16, maxRetransmissions := 1 } (unanswered ++ [(({} : Env), .closeFlow 1 1)]) (by decide +kernel)
  have hiff := dead_flow_removed_iff hreach hp hgone {} (fun _ => rfl) 2000 hlength hlength
  obtain ⟨hgoes, hevent, -⟩ := hiff.2 (by rw [hstate]; rfl)
  exact ⟨e, p, hreach, hp, hstate, hgone, hlength, hgoes, hevent⟩

end Netstack2
