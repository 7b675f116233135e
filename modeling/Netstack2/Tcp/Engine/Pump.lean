import Netstack2.Tcp.Engine.Run

/-!
# The send pump

The pump goes through the table from its start, and stops when it has visited or
built as much as it was allowed to. The next call starts from the beginning again, so it
gets further only if those it has served have less to send, or have given up.

Main results, for every congestion controller:

* `TcpHandshakeEngine.pumpSendPaths_asks_iff`: a call asks a connection just if its budgets
  last for those ahead of it, and otherwise leaves it as it is;
* `pump_asks_flow_iff`: the connections that any number of calls ask;
* `pump_starves_flow`: a connection may never be asked.
-/

namespace Netstack2

open List

variable {κ : Type}

theorem Pcb.servable_iff {p : Pcb κ} :
    p.servable ↔ (p.state ≠ .synReceived ∧ p.state ≠ .timeWait) ∧
      ∃ send, p.send = some send ∧ send.closed = false := by
  rcases hs : p.send with _ | send <;> simp [servable, hs]

/-- The item tells of a call of `NextSegment`. -/
def Observed.isAsked : Observed → Bool
  | nextSegment _ => true
  | _ => false

namespace TcpHandshakeEngine

variable [CongestionController κ]

/-- Calls of the pump, with nothing in between. -/
def pumps (env : Env) (nowMs pcbBudget maxSegments : ℕ) (e : TcpHandshakeEngine κ) (n : ℕ) :
    TcpHandshakeEngine κ :=
  (fun e => (e.pumpSendPaths env nowMs pcbBudget maxSegments).1)^[n] e

theorem pumps_succ (env : Env) (nowMs pcbBudget maxSegments : ℕ) (e : TcpHandshakeEngine κ)
    (n : ℕ) : e.pumps env nowMs pcbBudget maxSegments (n + 1) =
      ((e.pumps env nowMs pcbBudget maxSegments n).pumpSendPaths env nowMs pcbBudget
        maxSegments).1 := Function.iterate_succ_apply' ..

/-- The connections that the pump comes to before it asks the one with the identifier `id`. The
    last one takes the place of one that is removed. -/
def ahead (id : FlowId) : ℕ → List (Pcb κ) → List (Pcb κ)
  | fuel + 1, p :: l =>
    if p.isDead then ahead id fuel (lastFirst l)
    else if p.servable ∧ p.flowId = id then []
    else p :: ahead id fuel l
  | _, _ => []

/-- The budgets last until the pump comes to the connection with the identifier `id`: of those
    ahead of it, fewer than `pcbBudget` are asked, and fewer than `maxSegments` of these have a
    segment to send. -/
def inReach (env : Env) (nowMs pcbBudget maxSegments : ℕ) (e : TcpHandshakeEngine κ)
    (id : FlowId) : Bool :=
  let l := ahead id e.pcbs.length e.pcbs
  l.countP Pcb.servable < pcbBudget &&
    l.countP (fun p => p.servable && p.builds env nowMs) < maxSegments

/-- From `e` to `e'`, `NextSegment` is called on the send buffer of the connection. -/
def Asks (p : Pcb κ) (e e' : TcpHandshakeEngine κ) : Prop :=
  ∃ window, .nextSegment window ∈ (e'.observed p).drop (e.observed p).length

/-- The way from `e` to `e'` asks the connection with the identifier `id` just if `asked`, and
    otherwise leaves it as it is. -/
structure Turns (id : FlowId) (asked : Prop) (e e' : TcpHandshakeEngine κ) : Prop where
  asks : ∃ xs, seen e'.history id = seen e.history id ++ xs ∧
    ((∃ window, Observed.nextSegment window ∈ xs) ↔ asked)
  keeps : ¬asked → ∀ p ∈ e.pcbs, p.flowId = id → p.servable = true → p ∈ e'.pcbs

variable {e e₁ e' : TcpHandshakeEngine κ} {env : Env} {nowMs pcbBudget maxSegments : ℕ}
  {l : List (Pcb κ)} {p : Pcb κ} {id : FlowId} {asked asked' : Prop}

section

omit [CongestionController κ]

theorem Turns.none (h : ¬asked) : Turns id asked e e :=
  ⟨⟨[], (append_nil _).symm, by simp [h]⟩, fun _ _ hp _ _ => hp⟩

theorem Turns.after (h : Turns id asked e₁ e') (hseen : seen e₁.history id = seen e.history id)
    (hkeeps : ∀ p ∈ e.pcbs, p.flowId = id → p.servable → p ∈ e₁.pcbs)
    (hiff : asked ↔ asked') : Turns id asked' e e' := by
  rw [← propext hiff]
  exact ⟨hseen ▸ h.asks, fun hnot p hp hid hs => h.keeps hnot p (hkeeps p hp hid hs) hid hs⟩

theorem Turns.ask {window : UInt32} {xs : List Observed} (h : Turns id asked e₁ e')
    (hseen : seen e₁.history id = seen e.history id ++ .nextSegment window :: xs)
    (hasked : asked') : Turns id asked' e e' := by
  obtain ⟨xs', heq, -⟩ := h.asks
  refine ⟨⟨.nextSegment window :: xs ++ xs', ?_, fun _ => hasked, fun _ => ⟨window, ?_⟩⟩,
    fun hnot => absurd hasked hnot⟩
  · rw [heq, hseen, append_assoc]
  · exact mem_append_left _ mem_cons_self

theorem removeAt_history (e : TcpHandshakeEngine κ) (i : ℕ) :
    (e.removeAt i).history = e.history := by
  rw [removeAt]
  split
  · rfl
  case h_2 p _ => exact (release_sameTable e p).history

end

/-- The pump asks a connection on its way that it may serve, just if its budgets last. -/
theorem Walks.turns {visited built : ℕ}
    (hw : Walks env nowMs pcbBudget maxSegments visited built l e e')
    (hqueues : ∀ id, env.queuesPacket id) (id : FlowId) :
    Turns id ((∃ p ∈ l, p.flowId = id ∧ p.servable) ∧
      visited + (ahead id l.length l).countP Pcb.servable < pcbBudget ∧
      built + (ahead id l.length l).countP (fun p => p.servable && p.builds env nowMs) <
        maxSegments) e e' := by
  induction hw with
  | done => exact .none (by simp)
  | stop hstop =>
    refine .none ?_
    rintro ⟨-, hvisited, hbuilt⟩
    rcases hstop with hstop | hstop | ⟨id, hfull⟩
    · omega
    · omega
    · simp [hqueues id] at hfull
  | skip hidle hlives _ ih =>
    refine ih.after rfl (fun _ hp _ _ => hp) ?_
    simp [ahead, hidle, hlives]
  | @reap _ _ i q l e _ hq hidle hdead _ ih =>
    refine ih.after (congrArg (seen · id) (removeAt_history e i)) (fun p hp _ hs => ?_) ?_
    · have hne : p ≠ q := fun heq => by simp [heq, hidle] at hs
      refine (mem_cons.1 ((perm_swapPop hq).mem_iff.2 hp)).resolve_left hne |> fun h => ?_
      rwa [← removeAt_pcbs] at h
    · simp [ahead, hidle, hdead, (perm_lastFirst l).mem_iff, (perm_lastFirst l).length_eq]
  | @serve _ _ i q send l e _ hq hsend hstate hopen hgoes _ ih =>
    have hservable : q.servable := Pcb.servable_iff.2 ⟨hstate, send, hsend, hopen⟩
    have hlives : q.isDead = false := by simp [Pcb.isDead, Pcb.hasGivenUp, hsend, hopen]
    obtain ⟨_, _, hone⟩ := pumpOne_spec e env i q send nowMs
    have hseen := congrArg (seen ·.history id) hone
    dsimp only [update] at hseen
    rw [seen_append] at hseen
    by_cases hid : q.flowId = id
    · subst hid
      rw [seen_self] at hseen
      refine ih.ask hseen ?_
      simpa [ahead, hservable, hlives] using hgoes
    · rw [seen_of_ne hid, append_nil] at hseen
      refine ih.after hseen (fun p hp hpid _ => ?_) ?_
      · have hne : p ≠ q := fun heq => hid (heq ▸ hpid)
        rw [hone]
        exact (eq_or_mem_set hq hp _).resolve_left hne
      · simp [ahead, hlives, hservable, hid, countP_cons, add_assoc, add_comm 1,
          add_comm (if _ then _ else _)]

variable (hqueues : ∀ id, env.queuesPacket id = true) (hs : p.servable = true)

include hqueues hs

/-- A call asks a connection that the pump may serve just if it is in reach, and otherwise
    leaves it as it is. -/
theorem pumpSendPaths_asks_iff (hp : p ∈ e.pcbs) :
    (Asks p e (e.pumpSendPaths env nowMs pcbBudget maxSegments).1 ↔
      e.inReach env nowMs pcbBudget maxSegments p.flowId) ∧
    (¬Asks p e (e.pumpSendPaths env nowMs pcbBudget maxSegments).1 →
      p ∈ (e.pumpSendPaths env nowMs pcbBudget maxSegments).1.pcbs) := by
  obtain ⟨⟨_, hseen, hiff⟩, hkeeps⟩ :=
    (pumpSendPaths_walks env e nowMs pcbBudget maxSegments).turns hqueues p.flowId
  rw [Asks, observed, observed, hseen, drop_left, hiff]
  refine ⟨?_, fun hnot => hkeeps hnot p hp rfl hs⟩
  rw [and_iff_right ⟨p, hp, rfl, hs⟩]
  simp [inReach]

theorem mem_pumps_of_unasked {k : ℕ} (hp : p ∈ e.pcbs)
    (h : ∀ j < k, ¬Asks p (e.pumps env nowMs pcbBudget maxSegments j)
      (e.pumps env nowMs pcbBudget maxSegments (j + 1))) :
    p ∈ (e.pumps env nowMs pcbBudget maxSegments k).pcbs := by
  induction k with
  | zero => exact hp
  | succ k ih =>
    have hmem := ih fun j hj => h j (Nat.lt_succ_of_lt hj)
    have hlast := h k (Nat.lt_succ_self k)
    rw [pumps_succ] at hlast ⊢
    exact (pumpSendPaths_asks_iff hqueues hs hmem).2 hlast

end TcpHandshakeEngine

section

open TcpHandshakeEngine

variable [CongestionController κ] {e : TcpHandshakeEngine κ} {p : Pcb κ}

/-- A connection that the pump may serve is asked for a segment in one of `n` calls, with nothing in
    between, just if it is in reach before one of them: of the connections ahead of it, fewer than
    `pcbBudget` are served, and fewer than `maxSegments` of these have a segment to send. -/
theorem pump_asks_flow_iff (env : Env) (hqueues : ∀ id, env.queuesPacket id = true)
    (nowMs pcbBudget maxSegments n : ℕ) (hp : p ∈ e.pcbs) (hs : p.servable = true) :
    (∃ k < n, Asks p (e.pumps env nowMs pcbBudget maxSegments k)
      (e.pumps env nowMs pcbBudget maxSegments (k + 1))) ↔
    ∃ k < n, (e.pumps env nowMs pcbBudget maxSegments k).inReach env nowMs pcbBudget maxSegments
      p.flowId = true := by
  -- as long as it was not asked, what was in reach is decided by the call
  have hcall : ∀ {k}, (∀ j < k, ¬Asks p (e.pumps env nowMs pcbBudget maxSegments j)
      (e.pumps env nowMs pcbBudget maxSegments (j + 1))) →
      (Asks p (e.pumps env nowMs pcbBudget maxSegments k)
        (e.pumps env nowMs pcbBudget maxSegments (k + 1)) ↔
      (e.pumps env nowMs pcbBudget maxSegments k).inReach env nowMs pcbBudget maxSegments
        p.flowId = true) := fun {k} hunasked => by
    rw [pumps_succ]
    exact (pumpSendPaths_asks_iff hqueues hs (mem_pumps_of_unasked hqueues hs hp hunasked)).1
  constructor
  · -- the first call that asks it
    classical
    intro hasked
    obtain ⟨hlt, hfirst⟩ := Nat.find_spec hasked
    refine ⟨_, hlt, (hcall fun j hj hbefore => ?_).1 hfirst⟩
    exact Nat.find_min hasked hj ⟨hj.trans hlt, hbefore⟩
  · rintro ⟨k, hlt, hreach⟩
    by_contra hnone
    have hunasked : ∀ j < n, ¬Asks p (e.pumps env nowMs pcbBudget maxSegments j)
        (e.pumps env nowMs pcbBudget maxSegments (j + 1)) := fun j hj hasks => hnone ⟨j, hj, hasks⟩
    exact hunasked k hlt ((hcall fun j hj => hunasked j (hj.trans hlt)).2 hreach)

/-- Two connections without data: the second one is asked as well, whatever may be built. -/
theorem pump_asks_flow_iff_idle :
    ∃ (e : TcpHandshakeEngine AimdController) (p : Pcb AimdController),
      e.Reachable (fun _ _ => True) ∧ p ∈ e.pcbs ∧ p.flowId = 2 ∧ p.servable = true ∧
      e.pcbs.countP Pcb.servable = 2 ∧
      ∃ k < 2, Asks p (e.pumps {} 0 2 1 k) (e.pumps {} 0 2 1 (k + 1)) := by
  obtain ⟨e, hreach, p, hp, hs, hid, hcount, hin⟩ := exists_reached (P := fun e p => p.servable = true ∧ p.flowId = 2 ∧ e.pcbs.countP Pcb.servable = 2 ∧
      e.inReach {} 0 2 1 p.flowId = true)
    { receiveWindow := 16 } (peerOpens 1 ++ peerOpens 2) (by decide +kernel)
  exact ⟨e, p, hreach, hp, hid, hs, hcount,
    (pump_asks_flow_iff {} (fun _ => rfl) 0 2 1 2 hp hs).2 ⟨0, by decide, hin⟩⟩

end

/-- Two connections, and a budget of one: the second is not asked in two calls. -/
theorem pump_starves_flow :
    ∃ (e : TcpHandshakeEngine AimdController) (p : Pcb AimdController),
      e.Reachable (fun _ _ => True) ∧ p ∈ e.pcbs ∧ p.servable = true ∧
      e.pcbs.countP Pcb.servable = 2 ∧
      ∀ k < 2, ∀ window, .nextSegment window ∉
        ((e.pumps {} 0 1 1 (k + 1)).observed p).drop ((e.pumps {} 0 1 1 k).observed p).length := by
  obtain ⟨e, hreach, p, hp, hs, hcount, hnone⟩ := exists_reached (P := fun e p => p.servable = true ∧ e.pcbs.countP Pcb.servable = 2 ∧
      ∀ k < 2, ∀ x ∈ ((e.pumps {} 0 1 1 (k + 1)).observed p).drop
        ((e.pumps {} 0 1 1 k).observed p).length, x.isAsked = false)
    { receiveWindow := 16 } (peerOpens 1 ++ peerOpens 2) (by decide +kernel)
  refine ⟨e, p, hreach, hp, hs, hcount, fun k hk window hmem => ?_⟩
  cases hnone k hk _ hmem

end Netstack2
