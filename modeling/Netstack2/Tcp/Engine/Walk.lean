import Netstack2.Tcp.Engine.Table

/-!
# The way of the pump

The pump goes through the table from its start. At each connection it passes on, asks it for
a segment, or removes it. `Walks` says this of the list of the connections that it has not
come to yet, without slots and fuel, with what it counts against its budgets; what the pump
does to the table is proved by induction over its way (`pumpSendPaths_walks`).
-/

namespace Netstack2

variable {κ : Type}

/-- The pump may serve the connection. -/
def Pcb.servable (p : Pcb κ) : Bool :=
  p.state ≠ .synReceived && p.state ≠ .timeWait && p.send.any (!·.closed)

/-- This end has closed the connection, which is not in TIME-WAIT yet. -/
def TcpState.isClosing (state : TcpState) : Bool :=
  state = .finWait1 || state = .finWait2 || state = .closing || state = .lastAck

/-- The send buffer has given up. -/
def Pcb.hasGivenUp (p : Pcb κ) : Bool := p.send.any (·.closed)

/-- The connection gave up while it was closing. -/
def Pcb.isDead (p : Pcb κ) : Bool := p.hasGivenUp && p.state.isClosing

variable [CongestionController κ]

/-- The connection has a segment to send, and there are buffers for it. -/
def Pcb.builds (env : Env) (nowMs : ℕ) (p : Pcb κ) : Bool :=
  p.send.any fun send =>
    let next := (send.nextSegment (p.scaledPeerWindow p.peerWindow) nowMs).2
    next.hasSegment && env.allocatesPacket p.flowId &&
      (buildTcpControlPacket (p.dataSegment next nowMs) env.slotCapacity).isOk &&
      (next.isRetransmission || next.payload = [] || env.allocatesOwner p.flowId)

namespace TcpHandshakeEngine

/-- The way of the pump through the connections `l`, from `e` to `e'`, where `visited`
    connections were asked before it, and `built` packets built. -/
inductive Walks (env : Env) (nowMs pcbBudget maxSegments : ℕ) :
    ℕ → ℕ → List (Pcb κ) → TcpHandshakeEngine κ → TcpHandshakeEngine κ → Prop
  | done {visited built : ℕ} {e : TcpHandshakeEngine κ} :
      Walks env nowMs pcbBudget maxSegments visited built [] e e
  | stop {visited built : ℕ} {l : List (Pcb κ)} {e : TcpHandshakeEngine κ}
      (h : pcbBudget ≤ visited ∨ maxSegments ≤ built ∨ ∃ id, env.queuesPacket id = false) :
      Walks env nowMs pcbBudget maxSegments visited built l e e
  | skip {visited built : ℕ} {p : Pcb κ} {l : List (Pcb κ)} {e e' : TcpHandshakeEngine κ}
      (hidle : p.servable = false) (hlives : p.isDead = false)
      (h : Walks env nowMs pcbBudget maxSegments visited built l e e') :
      Walks env nowMs pcbBudget maxSegments visited built (p :: l) e e'
  /-- The last connection of the table takes the place of the removed one, and is next. -/
  | reap {visited built i : ℕ} {p : Pcb κ} {l : List (Pcb κ)} {e e' : TcpHandshakeEngine κ}
      (hp : e.pcbs[i]? = some p) (hidle : p.servable = false) (hdead : p.isDead = true)
      (h : Walks env nowMs pcbBudget maxSegments visited built (lastFirst l)
        ((e.removeAt i).emitFlowEvent p.flowId .closed) e') :
      Walks env nowMs pcbBudget maxSegments visited built (p :: l) e e'
  | serve {visited built i : ℕ} {p : Pcb κ} {send : TcpSendBuffer κ} {l : List (Pcb κ)}
      {e e' : TcpHandshakeEngine κ} (hp : e.pcbs[i]? = some p) (hs : p.send = some send)
      (hstate : p.state ≠ .synReceived ∧ p.state ≠ .timeWait) (hopen : send.closed = false)
      (hgoes : visited < pcbBudget ∧ built < maxSegments)
      (h : Walks env nowMs pcbBudget maxSegments (visited + 1)
        (built + if p.builds env nowMs then 1 else 0) l (e.pumpOne env i p send nowMs).1 e') :
      Walks env nowMs pcbBudget maxSegments visited built (p :: l) e e'

/-- A visit asks the connection, and changes no other one. -/
theorem pumpOne_spec (e : TcpHandshakeEngine κ) (env : Env) (i : ℕ) (p : Pcb κ)
    (send : TcpSendBuffer κ) (nowMs : ℕ) :
    ∃ send' seen, (e.pumpOne env i p send nowMs).1 = e.update i { p with send := some send' }
      (.nextSegment (p.scaledPeerWindow p.peerWindow) :: seen) := by
  rw [pumpOne]
  dsimp only
  split
  · exact ⟨_, [], rfl⟩
  · split
    · exact ⟨_, [], rfl⟩
    · exact ⟨_, _, rfl⟩

theorem isSome_pumpOne (e : TcpHandshakeEngine κ) (env : Env) (i : ℕ) {p : Pcb κ}
    {send : TcpSendBuffer κ} (hs : p.send = some send) (nowMs : ℕ) :
    (e.pumpOne env i p send nowMs).2.isSome = p.builds env nowMs := by
  rw [pumpOne, Pcb.builds, hs, Option.any_some]
  dsimp only
  split
  case isTrue hnone => rw [hnone]; rfl
  case isFalse hsegment =>
    split
    case isTrue hfails =>
      rcases hfails with hfails | hfails | ⟨hnew, hdata, hfails⟩
      · simp [hfails]
      · simp [hfails]
      · simp [hnew, hdata, hfails]
    case isFalse hbuffers =>
      simp only [not_or, not_and, Bool.not_eq_false] at hbuffers hsegment
      simp only [hsegment, hbuffers.1, hbuffers.2.1]
      simpa [or_iff_not_imp_left] using hbuffers.2.2

variable {env : Env} {nowMs pcbBudget maxSegments : ℕ}

theorem pumpFrom_walks (fuel : ℕ) :
    ∀ (i visited : ℕ) (packets : List TcpResponse) (e : TcpHandshakeEngine κ),
      e.pcbs.length ≤ i + fuel →
      Walks env nowMs pcbBudget maxSegments visited packets.length (e.pcbs.drop i) e
        (pumpFrom env nowMs pcbBudget maxSegments fuel i visited packets e).1 := by
  have hend : ∀ {i visited built : ℕ} {e : TcpHandshakeEngine κ}, e.pcbs.length ≤ i →
      Walks env nowMs pcbBudget maxSegments visited built (e.pcbs.drop i) e e := fun hi => by
    rw [List.drop_of_length_le hi]
    exact .done
  induction fuel with
  | zero => exact fun _ _ _ _ hfuel => hend hfuel
  | succ fuel ih =>
    intro i visited packets e hfuel
    rw [pumpFrom]
    split
    case isTrue hstop => exact .stop (or_assoc.1 (.inl hstop))
    case isFalse hgoes =>
      simp only [not_or, not_le] at hgoes
      split
      case h_1 hnone => exact hend (List.getElem?_eq_none_iff.1 hnone)
      case h_2 p hp =>
        obtain ⟨hlt, hget⟩ := List.getElem?_eq_some_iff.1 hp
        rw [List.drop_eq_getElem_cons hlt, hget]
        have hskip (hidle : p.servable = false) (hlives : p.isDead = false) :
            Walks env nowMs pcbBudget maxSegments visited packets.length
              (p :: e.pcbs.drop (i + 1)) e
              (pumpFrom env nowMs pcbBudget maxSegments fuel (i + 1) visited packets e).1 :=
          .skip hidle hlives (ih _ _ _ _ (by omega))
        split
        case h_1 hsend =>
          exact hskip (by simp [Pcb.servable, hsend]) (by simp [Pcb.isDead, Pcb.hasGivenUp, hsend])
        case h_2 send hsend =>
          split
          case isTrue hstate =>
            rcases hstate with hstate | hstate
            · exact hskip (by simp [Pcb.servable, hstate])
                (by simp [Pcb.isDead, TcpState.isClosing, hstate])
            · exact hskip (by simp [Pcb.servable, hstate])
                (by simp [Pcb.isDead, TcpState.isClosing, hstate])
          case isFalse hstate =>
            split
            case isTrue hclosed =>
              have hidle : p.servable = false := by simp [Pcb.servable, hsend, hclosed]
              split
              case isTrue hclosing =>
                have hpcbs : ((e.removeAt i).emitFlowEvent p.flowId .closed).pcbs =
                  swapPop e.pcbs i := removeAt_pcbs e i
                have hlength := length_swapPop hlt
                refine .reap hp hidle ?_ ?_
                · simpa [Pcb.isDead, Pcb.hasGivenUp, hsend, hclosed, TcpState.isClosing, or_assoc]
                    using hclosing
                · rw [← drop_swapPop hlt, ← hpcbs]
                  exact ih _ _ _ _ (by rw [hpcbs]; omega)
              case isFalse hnot =>
                simp only [not_or] at hnot
                exact hskip hidle (by simp [Pcb.isDead, TcpState.isClosing, hnot])
            case isFalse hopen =>
              rw [Bool.not_eq_true] at hopen
              obtain ⟨send', seen, hone⟩ := pumpOne_spec e env i p send nowMs
              have hrest : (e.pumpOne env i p send nowMs).1.pcbs.drop (i + 1) =
                  e.pcbs.drop (i + 1) := by
                rw [hone]
                exact List.drop_set_of_lt (Nat.lt_succ_self i)
              have hlength : (e.pumpOne env i p send nowMs).1.pcbs.length = e.pcbs.length := by
                rw [hone]
                exact List.length_set
              have hbuilds := isSome_pumpOne e env i hsend nowMs
              split
              case h_1 heq =>
                refine .serve hp hsend (not_or.1 hstate) hopen hgoes ?_
                rw [heq] at hrest hlength hbuilds ⊢
                rw [← hbuilds]
                exact hrest ▸ ih _ _ _ _ (by omega)
              case h_2 packet heq =>
                refine .serve hp hsend (not_or.1 hstate) hopen hgoes ?_
                rw [heq] at hrest hlength hbuilds ⊢
                rw [← hbuilds, Option.isSome_some, if_pos rfl]
                split
                case isTrue =>
                  have hbuilt : (packets ++ [packet]).length = packets.length + 1 :=
                    List.length_append
                  exact hbuilt ▸ hrest ▸ ih _ _ _ _ (by omega)
                case isFalse hfull => exact .stop (.inr (.inr ⟨p.flowId, by simpa using hfull⟩))

theorem pumpSendPaths_walks (env : Env) (e : TcpHandshakeEngine κ) (nowMs pcbBudget maxSegments : ℕ) :
    Walks env nowMs pcbBudget maxSegments 0 0 e.pcbs e
      (e.pumpSendPaths env nowMs pcbBudget maxSegments).1 :=
  pumpFrom_walks e.pcbs.length 0 0 [] e (le_of_eq (zero_add _).symm)

end TcpHandshakeEngine

end Netstack2
