import Netstack2.Tcp.Engine.Run

/-!
# The connection diagram

Whatever is called, a connection only moves forward along the diagram of the protocol, and
what its SYN has settled stays (`follows_diagram`).
-/

namespace Netstack2

open Relation

variable {κ : Type} [CongestionController κ] {c : EngineCall κ} {p p' : Pcb κ}
  {seen : List Observed}

/-- The edges of the diagram. -/
inductive TcpState.Next : TcpState → TcpState → Prop
  | handshake : Next .synReceived .established
  | close : Next .established .finWait1
  | peerCloses : Next .established .closeWait
  | closeLast : Next .closeWait .lastAck
  | finAcked : Next .finWait1 .finWait2
  | bothClose : Next .finWait1 .closing
  /-- Both ends are done: from LAST-ACK, the connection is removed at once. -/
  | done {state : TcpState} (h : state = .finWait2 ∨ state = .closing ∨ state = .lastAck) :
      Next state .timeWait

theorem Pcb.Step.next (h : Step c p seen p') : ReflTransGen TcpState.Next p.state p'.state := by
  cases h with
  | establish _ _ hstate => exact hstate ▸ .single .handshake
  | attach | deliver | payload =>
    exact reflTransGen_iff_eq_or_transGen.2 (.inl (OnlyReceives.state (by simp)))
  | acceptFinWait2 _ _ _ hstate => exact hstate ▸ .single .finAcked
  | acceptTimeWait _ _ _ _ _ hstate => exact .single (.done (.inr hstate))
  | fin =>
    show ReflTransGen _ _ (stateAfterFin p.state)
    cases p.state
    case established => exact .single .peerCloses
    case finWait1 => exact .single .bothClose
    all_goals exact .refl
  | finTimeWait _ _ _ _ hstate => exact .single (.done (hstate.imp_right .inl))
  | restartTimeWait _ _ hstate => exact hstate ▸ .refl
  | requestClose =>
    -- in any other state, closing does nothing
    rw [Pcb.requestClose]
    split
    case h_1 hstate => exact hstate ▸ .single .close
    case h_2 hstate => exact hstate ▸ .single .closeLast
    case h_3 => exact .refl
  | _ => exact .refl

namespace TcpHandshakeEngine

variable {e e' : TcpHandshakeEngine κ}

/-- A connection of the engine has moved along the diagram; one that was not there has a new
    identifier, and has started with a SYN. -/
def Moved (e : TcpHandshakeEngine κ) (p : Pcb κ) : Prop :=
  (∃ q ∈ e.pcbs, p.SameConnection q ∧ ReflTransGen TcpState.Next q.state p.state) ∨
    e.nextFlowId ≤ p.flowId ∧ ReflTransGen TcpState.Next .synReceived p.state

theorem Moved.step (h : e.Moved p) (hs : p.Step c seen p') : e.Moved p' := by
  have hsame := hs.sameConnection
  rcases h with ⟨q, hq, hconn, hmoves⟩ | ⟨hid, hmoves⟩
  · exact .inl ⟨q, hq, hsame.trans hconn, hmoves.trans hs.next⟩
  · exact .inr ⟨hsame.flowId ▸ hid, hmoves.trans hs.next⟩

/-- Along every run, every connection follows the diagram, from any moment on. -/
theorem follows_diagram (h : e.Reachable fun _ _ => True)
    (hruns : Runs (fun e (c : Env × EngineOp) e' => c.2.apply c.1 e = some e') e e')
    (hp : p ∈ e'.pcbs) : e.Moved p := by
  have hinv := hruns.invariant (P := fun e₁ => e.nextFlowId ≤ e₁.nextFlowId ∧
    Tracked Pcb.flowId Pcb.incomingFlow (fun p _ => e.Moved p) (fun _ => True) e₁.nextFlowId
      e₁.pcbs e₁.history)
    ⟨le_rfl, { (reachable_iff.1 h).tracked with
      each := fun p hp => .inl ⟨p, hp, by constructor <;> rfl, .refl⟩
      past := fun _ => .inr trivial }⟩ ?_
  · exact hinv.2.each p hp
  · -- a call gives identifiers from its own `nextFlowId` on, so none that `e` has given
    rintro e₁ ⟨env, op⟩ e₂ ⟨hnext, htracked⟩ hop
    have hkept : Pcb.KeptWith (e₁.call env op) (fun p _ => e.Moved p) fun _ => True :=
      ⟨⟨fun hs hI => hI.step hs, fun _ _ _ _ _ => .inr ⟨hnext, .refl⟩⟩, fun _ _ => trivial⟩
    have hafter := Holds.apply (e := e₁) hkept ⟨rfl, rfl, le_rfl, htracked⟩ rfl rfl hop
    exact ⟨hnext.trans hafter.next, hafter.tracked⟩

/-- From a new engine to an open connection. -/
theorem follows_diagram_open :
    ∃ (e : TcpHandshakeEngine AimdController) (p : Pcb AimdController),
      e.Reachable (fun _ _ => True) ∧ p.state = .established ∧ e.Moved p := by
  obtain ⟨_, ⟨_, _, _, _, _, _, e, hnew, hruns⟩, p, hp, hstate⟩ :=
    exists_reached (P := fun _ p => p.state = .established)
    { receiveWindow := 16 } (peerOpens 1) (by decide +kernel)
  have h : e.Reachable fun _ _ => True := ⟨_, _, _, _, _, _, e, hnew, .refl⟩
  exact ⟨e, p, h, hstate, follows_diagram h
    (.mono (fun _ _ => Exists.imp fun _ => And.right) _ _ hruns) hp⟩

end TcpHandshakeEngine

end Netstack2
