import Netstack2.Tcp.Engine.Apply

/-!
# Runs of the engine

A run starts with a new engine and makes calls, any operations with any answers of
the surroundings (`Reachable`). A condition on the calls may be part of it: it has
to hold for every connection of the table when a call is made.

`Reachable.invariant` is the rule for what holds of every connection in every run,
with what was observed of it. Where runs are replayed from a list of calls
(`replay`), they are runs in this sense.
-/

namespace Netstack2

variable {κ : Type} [CongestionController κ]

namespace TcpHandshakeEngine

variable {I : Pcb κ → List Observed → Prop} {B : EngineCall κ → Prop}

/-- The call of an operation on an engine. -/
def call (e : TcpHandshakeEngine κ) (env : Env) (op : EngineOp) : EngineCall κ :=
  ⟨e.config, e.makeController, e.pcbs, e.nextFlowId, env, op⟩

/-- `e` is reached from a new engine by calls that meet the condition `A`, each for
    every connection of the table it is made on. -/
def Reachable (A : EngineCall κ → Pcb κ → Prop) (e : TcpHandshakeEngine κ) : Prop :=
  ∃ config isn makeController hasSessionFactory generationEpoch slotCount start,
    new config isn makeController hasSessionFactory generationEpoch slotCount = some start ∧
      Runs (fun e (c : Env × EngineOp) e' =>
        (∀ p ∈ e.pcbs, A (e.call c.1 c.2) p) ∧ c.2.apply c.1 e = some e') start e

/-- What was observed of a connection. -/
def observed (e : TcpHandshakeEngine κ) (p : Pcb κ) : List Observed := seen e.history p.flowId

variable {A : EngineCall κ → Pcb κ → Prop} {e e' : TcpHandshakeEngine κ}

omit [CongestionController κ] in
theorem tracked_new {D : List Observed → Prop} {config isn make factory epoch slots}
    (h : new config isn make factory epoch slots = some e) :
    Tracked Pcb.flowId Pcb.incomingFlow I D e.nextFlowId e.pcbs e.history := by
  rw [new] at h
  split at h
  · cases h
    exact .empty
  · cases h

/-- What is known of the connections with what was observed of them, also of those that
    were removed. -/
def Knows (I : Pcb κ → List Observed → Prop) (e : TcpHandshakeEngine κ) : Prop :=
  Tracked Pcb.flowId Pcb.incomingFlow I (fun hist => ∃ p, I p hist) e.nextFlowId e.pcbs e.history

/-- A call keeps what its steps keep, under a condition `K` on the connections. -/
theorem Knows.call {K : Pcb κ → Prop} {env : Env} {op : EngineOp} (h : Knows I e)
    (hK : ∀ p ∈ e.pcbs, K p) (hI : Pcb.Kept (e.call env op) fun p hist => I p hist ∧ K p)
    (hop : op.apply env e = some e') :
    Knows I e' ∧ e'.config = e.config ∧ e.nextFlowId ≤ e'.nextFlowId := by
  have hbefore : Holds (e.call env op) (fun p hist => I p hist ∧ K p)
      (fun hist => ∃ p, I p hist) e :=
    { config := rfl
      makeController := rfl
      next := le_refl _
      tracked := { h with each := fun p hp => ⟨h.each p hp, hK p hp⟩ } }
  have hafter := hbefore.apply ⟨hI, fun hist hp => ⟨_, hp.1⟩⟩ rfl rfl hop
  exact ⟨{ hafter.tracked with each := fun p hp => (hafter.tracked.each p hp).1 }, hafter.config,
    hafter.next⟩

/-- Every call keeps the identifiers and the flows of the connections apart. -/
theorem Knows.call_apart {env : Env} {op : EngineOp} (h : Knows (fun _ _ => True) e)
    (hop : op.apply env e = some e') :
    Knows (fun _ _ => True) e' ∧ e'.config = e.config ∧ e.nextFlowId ≤ e'.nextFlowId :=
  h.call (K := fun _ => True) (fun _ _ => trivial)
    ⟨fun _ _ => ⟨trivial, trivial⟩, fun _ _ _ _ _ => ⟨trivial, trivial⟩⟩ hop

section

variable {K : EngineCall κ → Pcb κ → Prop} {I : Pcb κ → List Observed → Prop}
  (hK : ∀ c, (∀ p ∈ c.pcbs, A c p) → ∀ p ∈ c.pcbs, K c p)

include hK

/-- In every run, the connections have a property that is kept by the steps of all
    calls which meet the condition. It may depend on the configuration of the engine, and
    the steps may keep a condition `K` that follows from that on the call. -/
theorem Reachable.knows {I : TcpHandshakeConfig → Pcb κ → List Observed → Prop}
    (hI : ∀ c, Pcb.Kept c fun p hist => I c.config p hist ∧ K c p) (h : Reachable A e) : Knows (I e.config) e := by
  obtain ⟨_, _, _, _, _, _, start, hnew, hruns⟩ := h
  have hinv := hruns.invariant (P := fun e => Knows (I start.config) e ∧ e.config = start.config)
    ⟨tracked_new hnew, rfl⟩ ?_
  · rw [hinv.2]
    exact hinv.1
  · rintro e ⟨env, op⟩ e' ⟨hknows, hconfig⟩ ⟨hA, hop⟩
    have hkept := hI (e.call env op)
    rw [show (e.call env op).config = start.config from hconfig] at hkept
    obtain ⟨hknows', hconfig', -⟩ := hknows.call (hK (e.call env op) hA) hkept hop
    exact ⟨hknows', hconfig'.trans hconfig⟩

theorem Reachable.tracked (hI : ∀ c, Pcb.Kept c fun p hist => I p hist ∧ K c p)
    (h : Reachable A e) : Knows I e :=
  h.knows (I := fun _ => I) hK hI

theorem Reachable.invariant_of (hI : ∀ c, Pcb.Kept c fun p hist => I p hist ∧ K c p)
    (h : Reachable A e) {p : Pcb κ} (hp : p ∈ e.pcbs) : I p (e.observed p) :=
  (h.tracked hK hI).each p hp

end

theorem Reachable.invariant (hI : ∀ c, Pcb.Kept c fun p hist => I p hist ∧ A c p)
    (h : Reachable A e) {p : Pcb κ} (hp : p ∈ e.pcbs) : I p (e.observed p) :=
  h.invariant_of (fun _ hA => hA) hI hp

/-! ## Conditions on the calls -/

/-- `e` is reached from a new engine by calls that meet the condition `B`. -/
def ReachableBy (B : EngineCall κ → Prop) (e : TcpHandshakeEngine κ) : Prop :=
  ∃ config isn makeController hasSessionFactory generationEpoch slotCount start,
    new config isn makeController hasSessionFactory generationEpoch slotCount = some start ∧
      Runs (fun e (c : Env × EngineOp) e' => B (e.call c.1 c.2) ∧ c.2.apply c.1 e = some e') start e

/-- The condition of `Reachable`, as one on the calls. -/
theorem reachable_iff : Reachable A e ↔ ReachableBy (fun c => ∀ p ∈ c.pcbs, A c p) e := Iff.rfl

theorem ReachableBy.tracked (h : ReachableBy B e) : Knows (fun _ _ => True) e := by
  obtain ⟨_, _, _, _, _, _, _, hnew, hruns⟩ := h
  refine hruns.invariant (P := Knows fun _ _ => True) (tracked_new hnew) ?_
  rintro e ⟨_, _⟩ e' hknows ⟨-, hop⟩
  exact (hknows.call_apart hop).1

theorem ReachableBy.validConfig (h : ReachableBy B e) : e.config.validate := by
  obtain ⟨_, _, _, _, _, _, start, hnew, hruns⟩ := h
  have hstart : start.config.validate := by
    rw [new] at hnew
    split at hnew
    case isTrue hvalid =>
      cases hnew
      exact hvalid
    case isFalse => cases hnew
  have hinv := hruns.invariant (P := fun e => Knows (fun _ _ => True) e ∧ e.config.validate = true)
    ⟨tracked_new hnew, hstart⟩ ?_
  · exact hinv.2
  · rintro e ⟨_, _⟩ e' ⟨hknows, hvalid⟩ ⟨-, hop⟩
    obtain ⟨hknows', hconfig, -⟩ := hknows.call_apart hop
    exact ⟨hknows', hconfig ▸ hvalid⟩

/-! ## Engines that were shut down -/

/-- An engine that was shut down has no connections. -/
def EmptyIfShutdown (e : TcpHandshakeEngine κ) : Prop := e.isShutdown = true → e.pcbs = []

/-- Nothing is added to the table of an engine that was shut down. -/
theorem EmptyIfShutdown.change {c : EngineCall κ} (hop : c.op ≠ .shutdown) (hc : Change c e e')
    (h : EmptyIfShutdown e) : EmptyIfShutdown e' := by
  intro hshutdown
  have hsame := hc.parameters.resolve_right fun hshut => hop hshut.1
  rw [hsame.isShutdown] at hshutdown
  have hempty := h hshutdown
  have hnone : ∀ {i : ℕ} {p : Pcb κ}, e.pcbs[i]? ≠ some p := fun {i p} hp => by simp [hempty] at hp
  cases hc with
  | quiet hsame => rw [hsame.pcbs, hempty]
  | turn hp | close _ hp | enterTimeWait _ _ _ hp | establish _ hp | sendFails _ _ _ _ hp =>
    exact absurd hp hnone
  | remove =>
    rw [removeAt_pcbs, hempty]
    rfl
  | opens _ _ _ hopen => exact absurd (hopen.symm.trans hshutdown) Bool.false_ne_true
  | @lowerMtu peer pmtu =>
    obtain ⟨f, -, heq⟩ := onPathMtuLowered_eq e peer pmtu
    exact heq ▸ congrArg (List.map f) hempty
  | shutDown _ hshut => exact absurd hshut hop

theorem ReachableBy.emptyIfShutdown (h : ReachableBy B e) : EmptyIfShutdown e := by
  obtain ⟨_, _, _, _, _, _, _, hstart, hruns⟩ := h
  refine hruns.invariant (P := EmptyIfShutdown) ?_ ?_
  · rw [new] at hstart
    split at hstart
    · cases hstart
      intro hshutdown
      cases hshutdown
    · cases hstart
  · rintro e ⟨env, op⟩ e' hempty ⟨-, hop⟩
    by_cases hshut : op = .shutdown
    · subst hshut
      cases hop
      intro _
      rcases hopen : e.isShutdown with _ | _
      · exact shutdown_pcbs hopen
      · rw [shutdown, if_pos hopen]
        exact hempty hopen
    · have hevolves : Evolves (e.call env op) e e := ⟨rfl, rfl, .refl⟩
      have hchanges := (hevolves.apply rfl rfl hop).changes
      clear hop
      induction hchanges with
      | refl => exact hempty
      | tail _ hc ih => exact ih.change hshut hc

/-! ## The rule for runs -/

/-- Nothing but what keeps the connections of the table apart is known of them. -/
abbrev Apart (c : EngineCall κ) (e : TcpHandshakeEngine κ) : Prop :=
  Holds c (fun _ _ => True) (fun _ => True) e

/-- The rule for what every change keeps: it holds in every run. -/
theorem ReachableBy.invariant {P : TcpHandshakeEngine κ → Prop}
    (hnew : ∀ {config isn make factory epoch slots e},
      new config isn make factory epoch slots = some e → P e)
    (hchange : ∀ {c : EngineCall κ} {e e' : TcpHandshakeEngine κ}, B c → Apart c e →
      Change c e e' → P e → P e') (h : ReachableBy B e) : P e := by
  obtain ⟨_, _, _, _, _, _, start, hstart, hruns⟩ := h
  refine (hruns.invariant (P := fun e => Tracked Pcb.flowId Pcb.incomingFlow (fun _ _ => True)
    (fun _ => True) e.nextFlowId e.pcbs e.history ∧ P e) ⟨tracked_new hstart, hnew hstart⟩ ?_).2
  rintro e ⟨env, op⟩ e' ⟨htracked, hP⟩ ⟨hB, hop⟩
  have hevolves : Evolves (e.call env op) e e := ⟨rfl, rfl, .refl⟩
  have hchanges := (hevolves.apply rfl rfl hop).changes
  -- along the changes of the call, the connections are kept apart
  suffices hsuff : Apart (e.call env op) e' ∧ P e' from ⟨hsuff.1.tracked, hsuff.2⟩
  clear hop
  induction hchanges with
  | refl => exact ⟨⟨rfl, rfl, le_refl _, htracked⟩, hP⟩
  | tail _ hc ih =>
    refine ⟨ih.1.change ?_ hc, hchange hB ih.1 hc ih.2⟩
    exact ⟨fun _ _ => trivial, fun _ _ _ _ _ => trivial, fun _ _ => trivial⟩

/-- The rule for what the moves of every call keep. -/
theorem ReachableBy.knows {I : TcpHandshakeConfig → Pcb κ → List Observed → Prop}
    (hI : ∀ c, Pcb.KeptByMoves c (I c.config) fun hist => ∃ p, I c.config p hist)
    (h : ReachableBy B e) : Knows (I e.config) e := by
  obtain ⟨_, _, _, _, _, _, _, hstart, hruns⟩ := h
  refine hruns.invariant (P := fun e => Knows (I e.config) e) (tracked_new hstart) ?_
  rintro e ⟨env, op⟩ e' hknows ⟨-, hop⟩
  have hbefore : Holds (e.call env op) (I e.config) (fun hist => ∃ p, I e.config p hist) e :=
    ⟨rfl, rfl, le_refl _, hknows⟩
  have hafter := hbefore.applyMoves (hI (e.call env op)) rfl rfl hop
  rw [show e'.config = e.config from hafter.config]
  exact hafter.tracked

/-! ## Replays -/

/-- Make calls one after another, each if it passes the check `b`. -/
def replay (b : EngineCall κ → Bool) :
    List (Env × EngineOp) → TcpHandshakeEngine κ → Option (TcpHandshakeEngine κ)
  | [], e => some e
  | (env, op) :: calls, e =>
    if b (e.call env op) then (op.apply env e).bind (replay b calls) else none

theorem replay_runs {b : EngineCall κ → Bool} (hb : ∀ c, b c → B c)
    {calls : List (Env × EngineOp)} (h : replay b calls e = some e') :
    Runs (fun e (c : Env × EngineOp) e' => B (e.call c.1 c.2) ∧ c.2.apply c.1 e = some e') e e' := by
  induction calls generalizing e with
  | nil =>
    cases h
    exact .refl
  | cons c _ ih =>
    obtain ⟨env, op⟩ := c
    rw [replay] at h
    split at h
    case isTrue hcall =>
      obtain ⟨_, hop, hrest⟩ := Option.bind_eq_some_iff.1 h
      exact .head ⟨(env, op), hb _ hcall, hop⟩ (ih hrest)
    case isFalse => cases h

/-- A replay from a new engine, whose controllers are the plain ones. -/
def start (config : TcpHandshakeConfig) (b : EngineCall AimdController → Bool)
    (calls : List (Env × EngineOp)) : Option (TcpHandshakeEngine AimdController) :=
  (new config (fun _ _ => 0) AimdController.new true 1 1).bind (replay b calls)

end TcpHandshakeEngine

section

variable {P : TcpHandshakeEngine AimdController → Pcb AimdController → Prop}
  [∀ e p, Decidable (P e p)] (config : TcpHandshakeConfig) (calls : List (Env × EngineOp))

/-- What a replay with a check of the calls shows. -/
theorem exists_reachableBy {b : EngineCall AimdController → Bool}
    {B : EngineCall AimdController → Prop} {P : TcpHandshakeEngine AimdController → Prop}
    [DecidablePred P] (hb : ∀ c, b c → B c)
    (h : (TcpHandshakeEngine.start config b calls).any (P ·)) : ∃ e, e.ReachableBy B ∧ P e := by
  obtain ⟨e, hstart, hP⟩ := (Option.any_eq_true ..).1 h
  obtain ⟨e₀, hnew, hreplay⟩ := Option.bind_eq_some_iff.1 hstart
  exact ⟨e, ⟨_, _, _, _, _, _, e₀, hnew, TcpHandshakeEngine.replay_runs hb hreplay⟩,
    of_decide_eq_true hP⟩

/-- What a replay of calls that meet the condition shows of a connection. -/
theorem exists_reachable {A : EngineCall AimdController → Pcb AimdController → Prop}
    [∀ c p, Decidable (A c p)]
    (h : (TcpHandshakeEngine.start config (fun c => ∀ p ∈ c.pcbs, A c p) calls).any
      (fun e => ∃ p ∈ e.pcbs, P e p)) : ∃ e, e.Reachable A ∧ ∃ p ∈ e.pcbs, P e p :=
  exists_reachableBy config calls (fun _ => of_decide_eq_true) h

theorem exists_reached
    (h : (TcpHandshakeEngine.start config (fun _ => true) calls).any fun e => ∃ p ∈ e.pcbs, P e p) :
    ∃ e, e.Reachable (fun _ _ => True) ∧ ∃ p ∈ e.pcbs, P e p :=
  exists_reachableBy (B := fun c => ∀ p ∈ c.pcbs, True) config calls (fun _ _ _ _ => trivial) h

end

def Observed.response : Observed → Option TcpResponse
  | built response => some response
  | _ => none

/-- The peer with a port sends a segment; the factory opens sessions. -/
def peerSends (port : UInt16) (flags : UInt8) (sequence acknowledgment : UInt32)
    (payload : Bytes := []) (window : UInt16 := 1000) (options : Bytes := []) : Env × EngineOp :=
  ({ openTcp := some 1 }, .onSegment
    { flow := clientTo port 80 6
      sequence := sequence
      acknowledgment := acknowledgment
      flags := flags
      window := window
      options := options
      payload := payload } 0)

/-- The peer with a port opens a connection. -/
def peerOpens (port : UInt16) : List (Env × EngineOp) :=
  [peerSends port TcpFlag.syn 100 0, peerSends port TcpFlag.ack 101 1]

/-- What is kept helps to keep something more, under a condition on the calls that
    is kept as well. -/
theorem Pcb.Kept.under {c : EngineCall κ} {B X : Pcb κ → List Observed → Prop}
    {A : Pcb κ → Prop} (hB : Kept c B)
    (hstep : ∀ {p p' : Pcb κ} {hist seen : List Observed}, Step c p seen p' → B p hist →
      B p' (hist ++ seen) → X p hist → A p → X p' (hist ++ seen) ∧ A p')
    (hopens : OnOpen c fun p hist => X p hist ∧ A p) :
    Kept c fun p hist => (B p hist ∧ X p hist) ∧ A p where
  step := by
    rintro p p' hist seen hs ⟨⟨hb, hx⟩, ha⟩
    have hb' := hB.step hs hb
    obtain ⟨hx', ha'⟩ := hstep hs hb hb' hx ha
    exact ⟨⟨hb', hx'⟩, ha'⟩
  opens iss generation hop hfin hoffered := by
    obtain ⟨hx, ha⟩ := hopens iss generation hop hfin hoffered
    exact ⟨⟨hB.opens iss generation hop hfin hoffered, hx⟩, ha⟩

end Netstack2
