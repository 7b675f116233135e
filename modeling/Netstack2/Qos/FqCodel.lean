import Netstack2.Ip.Checksum

/-!
# The FQ-CoDel scheduler

The outgoing packets of a shard wait in the queues of their flows. A flow has a slot of
a fixed table, found by linear probing from its hash; a slot that was drained is given
back. Flows that start are served first, from the list of new flows; one whose credit
does not cover its next packet moves to the list of old flows, which are served by
deficit round robin. CoDel decides for each packet that leaves its queue whether it is
dropped; a packet that can carry a congestion mark is marked instead.

* The queue of a flow is a ring that grows and keeps its storage; here it is the list
  of what is in it, which the ring refines (`flowQueue_refines_list`).
* A buffer has a `tag`, by which a packet is followed from the call that hands it in to
  the one that hands it out. The scheduler never looks at it.
* The loop over the old flows ends only if its rounds give credit, so it has fuel, which
  is enough if the quantum is not zero (`dequeue_isSome`).
-/

namespace Netstack2

structure FqCoDelConfig where
  intervalMs : UInt32 := 100
  targetMs : UInt32 := 5
  quantum : UInt32 := 1514
  maxFlows : ℕ := 64
  maxQueueLength : ℕ := 1024
  maxFlowQueueBytes : ℕ := 256 * 1024
  maxTotalBytes : ℕ := 4 * 1024 * 1024
  maxTotalPackets : ℕ := 8 * 1024
  ecnCeMarking : Bool := true
  deriving DecidableEq

/-- A buffer with a packet in it. -/
structure BufferLease (τ : Type) where
  tag : τ
  data : Bytes
  deriving DecidableEq

def BufferLease.size {τ : Type} (lease : BufferLease τ) : ℕ := lease.data.length

structure FqCoDelPacket (τ : Type) where
  lease : BufferLease τ
  enqueueTimeMs : UInt64 := 0
  flowHash : UInt32 := 0
  ceMarked : Bool := false
  deriving DecidableEq

structure QueuedPacket (τ : Type) where
  lease : BufferLease τ
  enqueueTimeMs : UInt64 := 0
  deriving DecidableEq

/-- The list that a flow is on. -/
inductive FlowList
  | none
  | new
  | old
  deriving DecidableEq

/-- A slot of the table. It is unused if its queue is empty and its hash is 0. -/
structure FlowSlot (τ : Type) where
  queue : List (QueuedPacket τ) := []
  queueBytes : ℕ := 0
  deficit : ℤ := 0
  list : FlowList := .none
  flowHash : UInt32 := 0
  firstAboveTime : UInt64 := 0
  dropNext : UInt64 := 0
  lastDropTime : UInt64 := 0
  inDropping : Bool := false
  dropCount : UInt32 := 0
  deriving DecidableEq

def FlowSlot.unused {τ : Type} (flow : FlowSlot τ) : Bool :=
  flow.queue.isEmpty && flow.flowHash == 0

structure FqCoDelScheduler (τ : Type) where
  config : FqCoDelConfig
  flows : List (FlowSlot τ)
  newFlows : List ℕ := []
  oldFlows : List ℕ := []
  totalPackets : ℕ := 0
  totalBytes : ℕ := 0
  deriving DecidableEq

/-! ## CoDel -/

/-- The loop of the square root, from `r`. -/
def isqrtLoop (x : UInt32) : ℕ → UInt32 → UInt32
  | 0, r => r
  | fuel + 1, r => if r + 1 ≤ x / (r + 1) then isqrtLoop x fuel (r + 1) else r

def isqrt32 (x : UInt32) : UInt32 := if x = 0 then 0 else isqrtLoop x 65536 1

def nextDropDelay (interval count : UInt32) : UInt64 :=
  let r := isqrt32 count
  let inc := (interval / (if r = 0 then 1 else r)).toUInt64
  if inc = 0 then 1 else inc

/-- The count at which the control law, replayed from the last drop, has its next drop in
    the future. -/
def phaseShift (interval : UInt32) (nowMs : UInt64) : ℕ → UInt32 → UInt64 → UInt32
  | 0, count, _ => count
  | fuel + 1, count, next =>
    if 1 < count then
      let step := nextDropDelay interval count
      if nowMs < next + step then count
      else phaseShift interval nowMs fuel (count - 1) (next + step)
    else count

namespace FlowSlot

variable {τ : Type} (flow : FlowSlot τ)

/-- Enter the dropping state: resume the count of a cycle that ended less than an interval
    ago, or start at 1. -/
def enterDropping (interval : UInt32) (nowMs : UInt64) : FlowSlot τ :=
  let resumed := flow.lastDropTime ≠ 0 ∧ 1 < flow.dropCount ∧
    nowMs - flow.lastDropTime < interval.toUInt64
  let count := if resumed then
    phaseShift interval nowMs flow.dropCount.toNat flow.dropCount flow.lastDropTime else 1
  { flow with
    inDropping := true
    dropCount := count
    dropNext := nowMs + nextDropDelay interval count
    lastDropTime := nowMs }

/-- The verdict on the packet at the head of the queue: whether to drop it, and the slot
    with the state of CoDel after it. -/
def codelShouldDrop (config : FqCoDelConfig) (sojournMs nowMs : UInt64) : Bool × FlowSlot τ :=
  if sojournMs ≤ config.targetMs.toUInt64 then
    (false, { flow with firstAboveTime := 0, inDropping := false })
  else
    let above := if flow.firstAboveTime = 0 then nowMs else flow.firstAboveTime
    let flow := { flow with firstAboveTime := above }
    -- the difference of two times wraps around, as theirs does
    if nowMs - flow.firstAboveTime < config.intervalMs.toUInt64 then (false, flow)
    else if flow.inDropping then
      if flow.dropNext ≤ nowMs then
        (true, { flow with
          lastDropTime := nowMs
          dropCount := flow.dropCount + 1
          dropNext := nowMs + nextDropDelay config.intervalMs (flow.dropCount + 1) })
      else (false, flow)
    else (true, flow.enterDropping config.intervalMs nowMs)

end FlowSlot

/-- Put the congestion mark on a packet that can carry it, and refresh the checksum of an
    IPv4 header; `none` if the packet cannot. -/
def markCe (data : Bytes) : Option Bytes :=
  if data.length < 20 then none
  else if byteAt data 0 >>> 4 = 4 then
    let ecn := byteAt data 1 &&& 0x03
    if ecn ≠ 1 ∧ ecn ≠ 2 then none
    else
      let data := data.set 1 ((byteAt data 1 &&& 0xFC) ||| 0x03)
      let headerLength := (byteAt data 0 &&& 0x0F).toNat * 4
      if 20 ≤ headerLength ∧ headerLength ≤ data.length then
        let cleared := write16 data 10 0
        some (write16 cleared 10 (internetChecksum (cleared.take headerLength)))
      else some data
  else if byteAt data 0 >>> 4 = 6 then
    if data.length < 40 then none
    else
      let ecn := (byteAt data 1 >>> 4) &&& 0x03
      if ecn ≠ 1 ∧ ecn ≠ 2 then none
      else some (data.set 1 ((byteAt data 1 &&& 0xCF) ||| 0x30))
  else none

/-! ## Serving a flow -/

/-- What is left of a flow that was served, the packet that it gave, those that were
    dropped before it, and how much left the queue. -/
structure FlowService (τ : Type) where
  flow : FlowSlot τ
  packet : Option (FqCoDelPacket τ) := none
  dropped : List (QueuedPacket τ) := []
  packets : ℕ := 0
  bytes : ℕ := 0

namespace FlowSlot

variable {τ : Type}

/-- Take packets off the queue of a flow until one survives. The first argument is the
    queue that is left. -/
def serve (config : FqCoDelConfig) (nowMs : UInt64) :
    List (QueuedPacket τ) → FlowSlot τ → FlowService τ
  | [], flow => { flow := flow }
  | pkt :: queue, flow =>
    let size := pkt.lease.size
    let popped := { flow with
      queue := queue, queueBytes := flow.queueBytes - size, deficit := flow.deficit - size }
    let sojourn := if pkt.enqueueTimeMs ≤ nowMs then nowMs - pkt.enqueueTimeMs else 0
    let verdict := popped.codelShouldDrop config sojourn nowMs
    let out : FqCoDelPacket τ :=
      { lease := pkt.lease, enqueueTimeMs := pkt.enqueueTimeMs, flowHash := flow.flowHash }
    if verdict.1 = false then
      { flow := verdict.2, packet := some out, packets := 1, bytes := size }
    else
      match if config.ecnCeMarking then markCe pkt.lease.data else none with
      | some data =>
        { flow := verdict.2
          packet := some { out with lease := { pkt.lease with data := data }, ceMarked := true }
          packets := 1
          bytes := size }
      | none =>
        let rest := serve config nowMs queue verdict.2
        { rest with
          dropped := pkt :: rest.dropped, packets := rest.packets + 1, bytes := rest.bytes + size }

def credit (flow : FlowSlot τ) (config : FqCoDelConfig) : FlowSlot τ :=
  { flow with deficit := flow.deficit + config.quantum.toNat }

/-- The credit that the flow lacks for its next packet. -/
def lacks (flow : FlowSlot τ) : ℕ :=
  match flow.queue with
  | [] => 0
  | front :: _ => (front.lease.size - flow.deficit).toNat

end FlowSlot

/-! ## The scheduler -/

/-- What a call of `dequeue`, or one round of its loops, comes to: the packet that it
    returns, if it does, and those that were dropped, with their flows. -/
structure Dequeued (τ : Type) where
  scheduler : FqCoDelScheduler τ
  packet : Option (FqCoDelPacket τ) := none
  dropped : List (UInt32 × QueuedPacket τ) := []

/-- The rounds before dropped packets too. -/
def Dequeued.after {τ : Type} (dropped : List (UInt32 × QueuedPacket τ)) (rest : Dequeued τ) :
    Dequeued τ :=
  { rest with dropped := dropped ++ rest.dropped }

namespace FqCoDelScheduler

variable {τ : Type} (s : FqCoDelScheduler τ)

def new (config : FqCoDelConfig) : FqCoDelScheduler τ :=
  { config := config, flows := List.replicate config.maxFlows {} }

/-- The slot `idx` of the table. -/
def flow (idx : ℕ) : FlowSlot τ := s.flows.getD idx {}

def setFlow (idx : ℕ) (flow : FlowSlot τ) : FqCoDelScheduler τ :=
  { s with flows := s.flows.set idx flow }

/-- Probe `rounds` slots from `slot` for the flow or a slot that is unused. -/
def probe (flowHash : UInt32) : ℕ → ℕ → Option ℕ
  | 0, _ => none
  | rounds + 1, slot =>
    if (s.flow slot).unused then some slot
    else if (s.flow slot).flowHash = flowHash then some slot
    else probe flowHash rounds ((slot + 1) % s.flows.length)

/-- The slot of the flow, which is claimed for it if it was unused. -/
def findOrCreateFlow (flowHash : UInt32) : Option (FqCoDelScheduler τ × ℕ) :=
  match s.probe flowHash s.flows.length (flowHash.toNat % s.flows.length) with
  | some idx => some (s.setFlow idx { s.flow idx with flowHash := flowHash }, idx)
  | none => none

def releaseFlowSlot (idx : ℕ) : FqCoDelScheduler τ := s.setFlow idx {}

/-- Queue a packet of the flow in the slot `idx`. -/
def push (idx : ℕ) (lease : BufferLease τ) (nowMs : UInt64) : FqCoDelScheduler τ :=
  let flow := s.flow idx
  let wasInactive := flow.list = .none
  let flow := { flow with
    queue := flow.queue ++ [{ lease := lease, enqueueTimeMs := nowMs }]
    queueBytes := flow.queueBytes + lease.size }
  let flow := if wasInactive then { flow with deficit := 0, list := .new } else flow
  { s.setFlow idx flow with
    totalPackets := s.totalPackets + 1
    totalBytes := s.totalBytes + lease.size
    newFlows := if wasInactive then s.newFlows ++ [idx] else s.newFlows }

/-- Hand in a packet; an empty lease is `none`. A packet that the flow has no room for is
    refused after its slot was claimed. -/
def enqueue (lease : Option (BufferLease τ)) (flowHash : UInt32) (nowMs : UInt64) :
    FqCoDelScheduler τ × Bool :=
  match lease with
  | none => (s, false)
  | some lease =>
    if s.config.maxTotalPackets < s.totalPackets + 1 ∨
        s.config.maxTotalBytes < s.totalBytes + lease.size then (s, false)
    else
      match s.findOrCreateFlow flowHash with
      | none => (s, false)
      | some (s, idx) =>
        if s.config.maxQueueLength ≤ (s.flow idx).queue.length ∨
            s.config.maxFlowQueueBytes < (s.flow idx).queueBytes + lease.size then (s, false)
        else (s.push idx lease nowMs, true)

def serveFlow (idx : ℕ) (nowMs : UInt64) : Dequeued τ :=
  let served := (s.flow idx).serve s.config nowMs (s.flow idx).queue
  { scheduler := { s.setFlow idx served.flow with
      totalPackets := s.totalPackets - served.packets
      totalBytes := s.totalBytes - served.bytes }
    packet := served.packet
    dropped := served.dropped.map ((s.flow idx).flowHash, ·) }

/-- A round of the loop over the new flows, `idx` the first of them. The loop goes on
    if the round gives no packet. -/
def newRound (idx : ℕ) (rest : List ℕ) (nowMs : UInt64) : Dequeued τ :=
  let flow := s.flow idx
  match flow.queue with
  | [] => { scheduler := ({ s with newFlows := rest } : FqCoDelScheduler τ).releaseFlowSlot idx }
  | front :: _ =>
    let flow := if flow.deficit ≤ 0 then flow.credit s.config else flow
    if flow.deficit < front.lease.size then
      { scheduler := ({ s with newFlows := rest, oldFlows := s.oldFlows ++ [idx] } :
          FqCoDelScheduler τ).setFlow idx { flow with list := .old } }
    else
      let served := (s.setFlow idx flow).serveFlow idx nowMs
      if served.packet.isSome ∧ (served.scheduler.flow idx).queue ≠ [] then served
      else
        { served with scheduler := ({ served.scheduler with newFlows := rest } :
            FqCoDelScheduler τ).releaseFlowSlot idx }

/-- The loop over the new flows; its first argument is those that are left. -/
def dequeueNew (nowMs : UInt64) : List ℕ → FqCoDelScheduler τ → Dequeued τ
  | [], s => { scheduler := s }
  | idx :: rest, s =>
    let round := s.newRound idx rest nowMs
    if round.packet.isSome then round
    else (dequeueNew nowMs rest round.scheduler).after round.dropped

/-- A round of the loop over the old flows. A flow that gave a packet keeps its place. -/
def oldRound (idx : ℕ) (rest : List ℕ) (nowMs : UInt64) : Dequeued τ :=
  let flow := s.flow idx
  match flow.queue with
  | [] => { scheduler := ({ s with oldFlows := rest } : FqCoDelScheduler τ).releaseFlowSlot idx }
  | front :: _ =>
    if flow.deficit < front.lease.size then
      { scheduler := ({ s with oldFlows := rest ++ [idx] } : FqCoDelScheduler τ).setFlow idx
          (flow.credit s.config) }
    else
      let served := s.serveFlow idx nowMs
      if served.packet.isSome then served
      else
        { served with scheduler := ({ served.scheduler with oldFlows := rest } :
            FqCoDelScheduler τ).releaseFlowSlot idx }

/-- The loop over the old flows; `none` if it does not end. -/
def dequeueOld (nowMs : UInt64) : ℕ → FqCoDelScheduler τ → Option (Dequeued τ)
  | 0, _ => none
  | fuel + 1, s =>
    match s.oldFlows with
    | [] => some { scheduler := s }
    | idx :: rest =>
      let round := s.oldRound idx rest nowMs
      if round.packet.isSome then some round
      else (dequeueOld nowMs fuel round.scheduler).map (·.after round.dropped)

/-- A bound on the rounds of the loop over the old flows: each round gives a flow at least
    one of the bytes that it lacks, or takes it off the list, or returns. -/
def oldRounds : ℕ := (s.oldFlows.map fun idx => 1 + (s.flow idx).lacks).sum

/-- Hand out a packet; the result has none if nothing is queued. `none` if the call does
    not return. -/
def dequeue (nowMs : UInt64) : Option (Dequeued τ) :=
  let first := dequeueNew nowMs s.newFlows s
  if first.packet.isSome then some first
  else
    (dequeueOld nowMs (first.scheduler.oldRounds + 1) first.scheduler).map (·.after first.dropped)

def queueLength : ℕ := s.totalPackets

def queueBytes : ℕ := s.totalBytes

def reset : FqCoDelScheduler τ := { config := s.config, flows := s.flows.map fun _ => {} }

end FqCoDelScheduler

end Netstack2
