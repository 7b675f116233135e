import Netstack2.Lib.Tiling
import Netstack2.Tcp.Engine

/-!
# The shard

A shard runs the TCP engine in its own thread. The sessions, in other threads, hand it
messages through its control inbox, which is bounded: a message is refused if the inbox is
full. What a session has received from the other end (*remote data*) comes as such messages,
and is put into the send buffer of its flow. If there is not enough room for it, the rest
is kept in the one place for deferred data, and no message is taken from the inbox until
all of it was taken.

The event loop is cut into steps between which other threads may post (`ShardEvent`): the
calls of the engine outside of the control loop, the retry of the deferred data with which
the control loop begins, and its rounds, one for each message. Within a step the other
threads can post only, and it makes no difference if they do so after it.

* The steps of the loop that only move packets are not modelled, nor is UDP: they do not
  touch the inbox, except that UDP messages pass through it.
* The data callback of a flow is bound when its handshake is over. Here it may be called
  whenever the flow has been opened and is not in its handshake, also when its session or
  its connection is gone.
* `accepted` and `taken` record the remote data that the callbacks have accepted and that
  the send buffers have taken, with their flows; no step reads them.
-/

namespace Netstack2

inductive ShardMessageType
  | packetIn
  | sessionData
  | sessionWritable
  | control
  | sessionClosed
  | flowClose
  | flowAbort
  | udpSessionData
  | udpSessionClosed
  | stop
  deriving DecidableEq

/-- A message to a shard; an empty lease is `none`. -/
structure ShardMessage where
  type : ShardMessageType := .control
  flowId : FlowId := 0
  generation : ℕ := 0
  data : Option Bytes := none
  error : TcpHandshakeEngine.SessionError := .none
  deriving DecidableEq

/-- The flow of a message. -/
def ShardMessage.flow (msg : ShardMessage) : FlowId × ℕ := (msg.flowId, msg.generation)

structure InboxMpsc where
  capacity : ℕ
  queue : List ShardMessage := []
  deriving DecidableEq

namespace InboxMpsc

/-- Post a message; `none` if it is refused. -/
def push (inbox : InboxMpsc) (msg : ShardMessage) : Option InboxMpsc :=
  if inbox.queue.length ≥ inbox.capacity then none
  else some { inbox with queue := inbox.queue ++ [msg] }

def pop (inbox : InboxMpsc) : Option (ShardMessage × InboxMpsc) :=
  match inbox.queue with
  | [] => none
  | msg :: queue => some (msg, { inbox with queue := queue })

end InboxMpsc

inductive ReceiveStatus
  | accepted
  | wouldBlock
  | closed
  deriving DecidableEq

structure StackShard (κ : Type) where
  tcp : TcpHandshakeEngine κ
  controlInbox : InboxMpsc
  deferredSessionData : ShardMessage := {}
  stopRequested : Bool := false
  running : Bool := true
  /-- How many messages the control loop may still take, if the shard is in it. -/
  controlBudget : Option ℕ := none
  accepted : List ((FlowId × ℕ) × Bytes) := []
  taken : List ((FlowId × ℕ) × Bytes) := []

def kControlInboxBudget : ℕ := 256

/-- What the send buffer of a flow takes of remote data. -/
def TcpHandshakeEngine.remoteDataTaken {κ : Type} (e : TcpHandshakeEngine κ) (id : FlowId)
    (generation : ℕ) (data : Bytes) : Bytes :=
  match e.findFlow id generation with
  | none => []
  | some (_, p) => match p.send with
    | none => []
    | some send =>
      if p.state ≠ .established ∧ p.state ≠ .closeWait then []
      else data.take (send.enqueue data).2

namespace StackShard

variable {κ : Type}

/-! ## Callbacks -/

/-- The data callback of a flow: the shard, the lease and the answer after it. -/
def dataCallback (s : StackShard κ) (id : FlowId) (generation : ℕ) (lease : Option Bytes) :
    StackShard κ × Option Bytes × ReceiveStatus :=
  match lease with
  | none => (s, none, .accepted)
  | some data =>
    -- the gate is closed when the engine is shut down
    if s.tcp.isShutdown then (s, some data, .closed)
    else
      match s.controlInbox.push
          { type := .sessionData, flowId := id, generation := generation, data := some data } with
      | some inbox =>
        ({ s with
            controlInbox := inbox
            accepted := s.accepted ++ [((id, generation), data)] }, none, .accepted)
      | none => (s, some data, .wouldBlock)

/-- The flow was opened, and is not in its handshake. -/
def CanCall (s : StackShard κ) (id : FlowId) : Prop :=
  id < s.tcp.nextFlowId ∧ ∀ p ∈ s.tcp.pcbs, p.flowId = id → p.state ≠ .synReceived

instance (s : StackShard κ) (id : FlowId) : Decidable (s.CanCall id) :=
  inferInstanceAs (Decidable (_ ∧ _))

/-! ## The control loop -/

/-- Offer the data of a message to the send buffer of its flow; what is left of it, if it
    is to be offered again. -/
def offer (s : StackShard κ) (msg : ShardMessage) : StackShard κ × Option Bytes :=
  match msg.data with
  | none => (s, none)
  | some data =>
    let result := s.tcp.enqueueRemoteData msg.flowId msg.generation data
    ({ s with
        tcp := result.1
        taken := s.taken ++
          [(msg.flow, s.tcp.remoteDataTaken msg.flowId msg.generation data)] }, result.2)

/-- Defer what is left of a message, and leave the control loop. -/
def defer (s : StackShard κ) (msg : ShardMessage) (rest : Bytes) : StackShard κ :=
  { s with
    deferredSessionData := { msg with data := some rest }
    controlBudget := none }

/-- The control loop begins with the data that was deferred. -/
def beginControl (s : StackShard κ) : StackShard κ :=
  if s.deferredSessionData.data.isSome then
    match s.offer s.deferredSessionData with
    | (s, some rest) => s.defer s.deferredSessionData rest
    | (s, none) => { s with deferredSessionData := {}, controlBudget := some kControlInboxBudget }
  else { s with controlBudget := some kControlInboxBudget }

/-- The session of a flow can take data; `queued` tells whether the response is queued for
    transmission, otherwise it is deferred. -/
def sessionWritable [CongestionController κ] (env : Env) (queued : Bool) (nowMs : ℕ)
    (e : TcpHandshakeEngine κ) (msg : ShardMessage) : TcpHandshakeEngine κ :=
  let writable := e.onSessionWritable env msg.flowId msg.generation nowMs
  match writable.2.response with
  | some response => if queued then writable.1 else writable.1.queueResponse response
  | none => writable.1

/-- What the shard does with a message that it has taken from the inbox. -/
def process [CongestionController κ] (env : Env) (queued : Bool) (nowMs : ℕ) (s : StackShard κ)
    (msg : ShardMessage) : StackShard κ :=
  match msg.type with
  | .stop => { s with stopRequested := true, controlBudget := none }
  | .sessionData =>
    match s.offer msg with
    | (s, some rest) => s.defer msg rest
    | (s, none) => s
  | .sessionWritable => { s with tcp := sessionWritable env queued nowMs s.tcp msg }
  | .sessionClosed => { s with tcp := s.tcp.onSessionClosed msg.flowId msg.generation msg.error }
  | .flowClose => { s with tcp := s.tcp.closeFlow msg.flowId msg.generation }
  | .flowAbort => { s with tcp := s.tcp.abortFlow msg.flowId msg.generation }
  | .packetIn | .control | .udpSessionData | .udpSessionClosed => s

/-- A round of the control loop, with `budget` messages left after it. -/
def controlRound [CongestionController κ] (env : Env) (queued : Bool) (nowMs : ℕ)
    (s : StackShard κ) : ℕ → StackShard κ
  | 0 => { s with controlBudget := none }
  | budget + 1 =>
    match s.controlInbox.pop with
    | none => { s with controlBudget := none }
    | some (msg, inbox) =>
      process env queued nowMs { s with controlInbox := inbox, controlBudget := some budget } msg

/-- The end of the thread. -/
def finish (s : StackShard κ) : StackShard κ :=
  { s with
    tcp := s.tcp.shutdown
    deferredSessionData := {}
    controlInbox := { s.controlInbox with queue := [] }
    running := false }

end StackShard

/-! ## Runs -/

/-- The operations that the shard calls outside of the control loop and before its end. -/
def EngineOp.isOutside : EngineOp → Bool
  | enqueueRemoteData .. | shutdown => false
  | _ => true

inductive ShardEvent
  /-- An operation of the engine, outside of the control loop. -/
  | engine (env : Env) (op : EngineOp)
  | beginControl
  | controlRound (env : Env) (queued : Bool) (nowMs : ℕ)
  /-- A session calls the data callback of its flow. -/
  | dataCallback (id : FlowId) (generation : ℕ) (lease : Option Bytes)
  /-- Another message is posted. -/
  | post (msg : ShardMessage)
  | requestStop
  | finish

namespace StackShard

variable {κ : Type} [CongestionController κ]

/-- One step of the shard or of the threads around it; `none` if it is not possible. -/
def step (s : StackShard κ) : ShardEvent → Option (StackShard κ)
  | .engine env op =>
    if s.running ∧ s.controlBudget = none ∧ op.isOutside then
      (op.apply env s.tcp).map fun tcp => { s with tcp := tcp }
    else none
  | .beginControl => if s.running ∧ s.controlBudget = none then some s.beginControl else none
  | .controlRound env queued nowMs =>
    match s.controlBudget with
    | some budget => some (s.controlRound env queued nowMs budget)
    | none => none
  | .dataCallback id generation lease =>
    if s.CanCall id then some (s.dataCallback id generation lease).1 else none
  | .post msg =>
    if msg.type ≠ .sessionData then
      (s.controlInbox.push msg).map fun inbox => { s with controlInbox := inbox }
    else none
  | .requestStop => some { s with stopRequested := true }
  | .finish =>
    -- nothing else shuts the engine down
    if s.running ∧ s.controlBudget = none ∧ s.stopRequested ∧ s.tcp.isShutdown = false then
      some s.finish
    else none

/-- A shard that is started, with a new engine; messages other than remote data may have been
    left in its inbox by the run before. -/
structure Started (s : StackShard κ) : Prop where
  tcp : ∃ config isn makeController hasSessionFactory generationEpoch slotCount,
    TcpHandshakeEngine.new config isn makeController hasSessionFactory generationEpoch slotCount =
      some s.tcp
  inbox : ∀ msg ∈ s.controlInbox.queue, msg.type ≠ .sessionData
  deferred : s.deferredSessionData = {}
  running : s.running = true
  stopRequested : s.stopRequested = false
  control : s.controlBudget = none
  accepted : s.accepted = []
  taken : s.taken = []

/-- `s` is reached in a run of a shard. -/
def Reachable (s : StackShard κ) : Prop :=
  ∃ start : StackShard κ, start.Started ∧ Runs (fun s ev s' => s.step ev = some s') start s

end StackShard

end Netstack2
