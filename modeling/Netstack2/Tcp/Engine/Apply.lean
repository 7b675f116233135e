import Netstack2.Tcp.Engine.Calls

/-!
# Operations take steps

What the steps of a call preserve for a connection (`Pcb.Kept`), the call preserves for
every connection of the table, whatever it does to the table in between: `Holds.apply`.
It is read off the changes of a call (`Holds.change`), for what their moves preserve.

Where a change moves a connection to TIME-WAIT, it writes it back first, in a state that
no step leads to; there the connection is set apart until it has entered TIME-WAIT, or is
removed.
-/

namespace Netstack2

variable {κ : Type} [CongestionController κ]

/-- A property of a connection and what was observed of it that the moves of a call preserve, that a
    connection has which the call opens, and that implies the property `D` of what was observed. -/
structure Pcb.KeptByMoves (c : EngineCall κ) (J : Pcb κ → List Observed → Prop)
    (D : List Observed → Prop) : Prop where
  move : ∀ {p p' : Pcb κ} {hist seen : List Observed},
    Move c p seen p' → J p hist → J p' (hist ++ seen)
  opens : OnOpen c J
  past : ∀ {p : Pcb κ} (hist : List Observed), J p hist → D hist

namespace TcpHandshakeEngine

variable {c : EngineCall κ} {J : Pcb κ → List Observed → Prop} {D : List Observed → Prop}
  {e e' : TcpHandshakeEngine κ} {i : ℕ} {p p' : Pcb κ} {seen : List Observed}

section

variable (hJ : Pcb.KeptByMoves c J D)

include hJ

section

variable (h : Holds c J D e)

include h

theorem Holds.update (hp : e.pcbs[i]? = some p) (hm : Pcb.Move c p seen p') :
    Holds c J D (e.update i p' seen) :=
  h.set hp hm.steps.sameConnection.flowId hm.steps.sameConnection.incomingFlow
    (fun _ hj => hJ.move hm hj) (fun _ hj => hJ.past _ (hJ.move hm hj)) fun _ _ _ hj => hj

/-- Where a connection enters TIME-WAIT because of a step, the step and the entry are one. -/
theorem Holds.enterTimeWait (hp : e.pcbs[i]? = some p) (p' : Pcb κ) (hid : p'.flowId = p.flowId)
    (hflow : p'.incomingFlow = p.incomingFlow)
    (hs : ∀ deadlineMs timer, Pcb.Step c p seen (p'.enterTimeWait deadlineMs timer)) (env : Env)
    (nowMs : ℕ) : Holds c J D ((e.update i p' seen).scheduleTimeWait env i nowMs).1 := by
  have hentered := fun deadlineMs timer before (hj : J p before) =>
    hJ.move ((hs deadlineMs timer).move nofun) hj
  refine (h.setApart hp p' hid hflow fun before hj =>
    hJ.past _ (hentered 0 0 before hj)).scheduleTimeWait (update_getElem hp p' seen) ?_ hJ.past
  rintro deadlineMs timer hist ⟨before, hj, rfl⟩
  exact hentered deadlineMs timer before hj

theorem Holds.onPathMtuLowered {peer : IpAddress} {pmtu : ℕ}
    (hop : c.op = .onPathMtuLowered peer pmtu) : Holds c J D (e.onPathMtuLowered peer pmtu) := by
  obtain ⟨f, hf, heq⟩ := onPathMtuLowered_eq e peer pmtu
  rw [heq]
  refine ⟨h.config, h.makeController, h.next, h.tracked.map (fun p => ?_) (fun p => ?_) ?_⟩
  · rcases hf p with hp | ⟨-, mss, hp⟩ <;> rw [hp]
  · rcases hf p with hp | ⟨-, mss, hp⟩ <;> rw [hp]
  · intro p hist hj
    rcases hf p with hp | ⟨hpeer, mss, hp⟩
    · rwa [hp]
    · rw [hp]
      simpa using hJ.move (Pcb.Turn.updateMss _ (hpeer ▸ hop)).move hj

theorem Holds.change (hc : Change c e e') : Holds c J D e' := by
  cases hc with
  | quiet hsame => exact h.of_sameTable hsame.toSameTable
  | turn hp hturn => exact h.update hJ hp hturn.move
  | remove i => exact h.removeAt i
  | @close _ p _ segment nowMs hop hp ha hfin hstate =>
    have hclosed : Pcb.Step c p _ _ := .acceptTimeWait 0 0 hop ha hfin (.inr hstate)
    exact (h.setApart hp (p.onAck segment nowMs) rfl rfl fun before hj =>
      hJ.past _ (hJ.move (hclosed.move nofun) hj)).removeApart (update_getElem hp _ _)
  | enterTimeWait p' env _ hp _ hid hflow _ _ hs =>
    exact h.enterTimeWait hJ hp p' hid hflow hs env _
  | opens iss generation hop _ hfin hoffered hfree hnext =>
    have hopens := hJ.opens iss generation hop hfin hoffered
    exact h.addPcb hnext.symm hfree hopens (hJ.past _ hopens)
  | @establish i p r _ _ _ hop hp hflow hstate hack hoptions hr =>
    have hsame := acquire_sameTable e p r
    have hestablish : Pcb.Step c p _ _ := .establish hop hflow hstate hack hoptions hr
    exact ((h.of_sameTable hsame).update hJ (hsame.getElem hp)
      (hestablish.move nofun)).of_sameTable ⟨rfl, rfl, rfl, rfl, rfl⟩
  | @sendFails i p r options acknowledgment send _ hp =>
    have hsame := acquire_sameTable e p r
    exact ((h.of_sameTable hsame).setApart (hsame.getElem hp)
      { p.establish options acknowledgment r send with send := none } rfl rfl fun before hj =>
      hJ.past _ (by rwa [List.append_nil])).removeApart (update_getElem (hsame.getElem hp) _ _)
  | lowerMtu hop => exact h.onPathMtuLowered hJ hop
  | shutDown => exact h.of_sameTable ⟨rfl, rfl, rfl, rfl, rfl⟩

/-- An operation preserves what its moves preserve. -/
theorem Holds.applyMoves (hpcbs : e.pcbs = c.pcbs) (hnext : e.nextFlowId = c.nextFlowId)
    (he : c.op.apply c.env e = some e') : Holds c J D e' := by
  have hevolves : Evolves c e e := ⟨h.config, h.makeController, .refl⟩
  have hchanges := (hevolves.apply hpcbs hnext he).changes
  clear he
  induction hchanges with
  | refl => exact h
  | tail _ hc ih => exact ih.change hJ hc

end

end

/-- An operation preserves what its steps preserve. -/
theorem Holds.apply (hJ : Pcb.KeptWith c J D) (h : Holds c J D e) (hpcbs : e.pcbs = c.pcbs)
    (hnext : e.nextFlowId = c.nextFlowId) (he : c.op.apply c.env e = some e') : Holds c J D e' :=
  h.applyMoves ⟨fun hm hj => hJ.steps hm.steps hj, hJ.opens, hJ.past⟩ hpcbs hnext he

end TcpHandshakeEngine

end Netstack2
