import Netstack2.Tcp.Engine.Run

/-!
# Open connections

A connection takes data to send while it is open: established, or closed by the peer only,
with its send buffer. It is opened by its handshake, and once it was closed it stays so:
a connection that is open after a call was open before, or in its handshake, or is one that
the call has added (`Follows`).
-/

namespace Netstack2

variable {κ : Type}

/-- The connection takes data to send. -/
def Pcb.IsOpen (p : Pcb κ) : Prop :=
  (p.state = .established ∨ p.state = .closeWait) ∧ p.send.isSome = true

instance (p : Pcb κ) : Decidable p.IsOpen := inferInstanceAs (Decidable (_ ∧ _))

namespace Pcb

/-- What `p'` is after `p`: the same connection, which was not opened again, and is not
    back in its handshake. -/
structure After (p p' : Pcb κ) : Prop where
  flowId : p'.flowId = p.flowId
  generation : p'.generation = p.generation
  isOpen : p'.IsOpen → p.IsOpen ∨ p.state = .synReceived
  handshake : p'.state = .synReceived → p.state = .synReceived

theorem After.refl (p : Pcb κ) : After p p := ⟨rfl, rfl, .inl, id⟩

variable {p p' : Pcb κ}

theorem After.trans {p'' : Pcb κ} (h : After p p') (h' : After p' p'') : After p p'' where
  flowId := h'.flowId.trans h.flowId
  generation := h'.generation.trans h.generation
  isOpen hopen := (h'.isOpen hopen).elim h.isOpen fun hstate => .inr (h.handshake hstate)
  handshake hstate := h.handshake (h'.handshake hstate)

/-- A change that keeps the state, and whether there is a send buffer. -/
theorem After.of_same (hid : p'.flowId = p.flowId) (hgeneration : p'.generation = p.generation)
    (hstate : p'.state = p.state) (hsend : p'.send.isSome = p.send.isSome) : After p p' where
  flowId := hid
  generation := hgeneration
  isOpen hopen := .inl ⟨hstate ▸ hopen.1, hsend ▸ hopen.2⟩
  handshake h := hstate ▸ h

theorem After.of_onlyReceives (h : OnlyReceives p' p) : After p p' :=
  .of_same h.connection.flowId h.generation h.state (by rw [h.send])

/-- A connection that is closed from this end, or waits, is not open. -/
theorem After.of_closed (hid : p'.flowId = p.flowId) (hgeneration : p'.generation = p.generation)
    (hstate : p'.state ≠ .established ∧ p'.state ≠ .closeWait ∧ p'.state ≠ .synReceived) :
    After p p' where
  flowId := hid
  generation := hgeneration
  isOpen hopen := (hopen.1.elim hstate.1 hstate.2.1).elim
  handshake h := absurd h hstate.2.2

variable [CongestionController κ] {c : EngineCall κ} {seen : List Observed}

theorem Step.after (h : Step c p seen p') : After p p' := by
  cases h with
  | attach | deliver | payload => exact .of_onlyReceives (by simp)
  | establish _ _ hstate => exact ⟨rfl, rfl, fun _ => .inr hstate, fun _ => hstate⟩
  | accept => exact .of_same rfl rfl rfl Option.isSome_map
  | acceptFinWait2 | acceptTimeWait | finTimeWait | restartTimeWait =>
    refine .of_closed rfl rfl ⟨?_, ?_, ?_⟩
    all_goals rintro ⟨⟩
  | fin =>
    refine ⟨rfl, rfl, fun hopen => .inl ⟨?_, hopen.2⟩, fun hstate => ?_⟩
    · have hafter : stateAfterFin p.state = .established ∨ stateAfterFin p.state = .closeWait :=
        hopen.1
      revert hafter
      cases p.state <;> simp [stateAfterFin]
    · have hafter : stateAfterFin p.state = .synReceived := hstate
      revert hafter
      cases p.state <;> simp [stateAfterFin]
  | updateMss => exact .of_same rfl rfl rfl Option.isSome_map
  | requestClose =>
    rw [Pcb.requestClose]
    split
    · exact .of_closed rfl rfl ⟨by simp, by simp, by simp⟩
    · exact .of_closed rfl rfl ⟨by simp, by simp, by simp⟩
    · exact .refl p
  | enqueue _ hs | ask _ _ hs | transmit _ _ hs => exact .of_same rfl rfl rfl (by rw [hs]; rfl)
  | _ => exact .of_same rfl rfl rfl rfl

end Pcb

namespace TcpHandshakeEngine

/-- The connections of `e'` are those of `e`, later, or have been added since. -/
structure Follows (e e' : TcpHandshakeEngine κ) : Prop where
  next : e.nextFlowId ≤ e'.nextFlowId
  after : ∀ p' ∈ e'.pcbs, e.nextFlowId ≤ p'.flowId ∨ ∃ p ∈ e.pcbs, p.After p'

variable {e e' e'' : TcpHandshakeEngine κ}

theorem Follows.trans (h : Follows e e') (h' : Follows e' e'') : Follows e e'' := by
  refine ⟨h.next.trans h'.next, fun p'' hp'' => ?_⟩
  rcases h'.after p'' hp'' with hadded | ⟨p', hp', hafter'⟩
  · exact .inl (h.next.trans hadded)
  · rcases h.after p' hp' with hadded | ⟨p, hp, hafter⟩
    · exact .inl (hafter'.flowId ▸ hadded)
    · exact .inr ⟨p, hp, hafter.trans hafter'⟩

variable [CongestionController κ]

/-- Every operation takes the connections on, and keeps their identifiers apart. -/
theorem follows_apply (h : Knows (fun _ _ => True) e) (env : Env) (op : EngineOp)
    (hop : op.apply env e = some e') : Follows e e' ∧ Knows (fun _ _ => True) e' := by
  have hkept : Pcb.KeptWith (e.call env op) (fun p' _ => e.nextFlowId ≤ p'.flowId ∨
      ∃ p ∈ e.pcbs, p.After p') (fun _ => True) :=
    { step := fun hstep hp => by
        rcases hp with hadded | ⟨p, hp, hafter⟩
        · exact .inl (hstep.after.flowId ▸ hadded)
        · exact .inr ⟨p, hp, hafter.trans hstep.after⟩
      opens := fun _ _ _ _ _ => .inl (le_refl _)
      past := fun _ _ => trivial }
  have hbefore : Holds (e.call env op) (fun p' _ => e.nextFlowId ≤ p'.flowId ∨
      ∃ p ∈ e.pcbs, p.After p') (fun _ => True) e :=
    { config := rfl
      makeController := rfl
      next := le_refl _
      tracked := { h with
        each := fun p hp => .inr ⟨p, hp, .refl p⟩
        past := fun _ => .inr trivial } }
  have hafter := hbefore.apply hkept rfl rfl hop
  exact ⟨⟨hafter.next, hafter.tracked.each⟩, (h.call_apart hop).1⟩

end TcpHandshakeEngine

end Netstack2
