import Netstack2.Lib.Bytes
import Netstack2.Lib.Ring
import Netstack2.Lib.Seq

/-!
# The TCP receive buffer

The receive side of one connection: a ring of fixed capacity into which segments
are written in whatever order they arrive, as `TcpReceiveBuffer` keeps it. The
first `readyBytes` cells are in order and wait for delivery; `rcvNxt` is the
sequence number of the cell after them, and `rcvAdv` the right edge of the
window the peer was promised.

Sizes are naturals: none of them reaches the limits of the source's types, as
the capacity and the length of a segment are less than `2 ^ 31`.
-/

namespace Netstack2

inductive ReceiveDisposition
  | accepted
  | duplicate
  | outOfWindow
  | invalid
  deriving DecidableEq

inductive AckDecision
  | none
  | delayed
  | immediate
  deriving DecidableEq

/-- What became of a segment. -/
structure TcpReceiveResult where
  disposition : ReceiveDisposition := .invalid
  ackDecision : AckDecision := .none
  acceptedBytes : ℕ := 0
  leftTrimmed : ℕ := 0
  rightTrimmed : ℕ := 0
  duplicateBytes : ℕ := 0

/-- A range of selectively acknowledged sequence numbers. -/
structure TcpSackBlock where
  leftEdge : UInt32 := 0
  rightEdge : UInt32 := 0
  deriving DecidableEq

/-- The largest capacity of a buffer, and length of a segment. -/
def maximumCapacity : ℕ := 0x7fffffff

def halfSequenceSpace : UInt32 := 0x80000000

/-- The signed distance of `sequence` from `base`; half the space away it is
    ambiguous, and there is none. -/
def sequenceOffset (sequence base : UInt32) : Option ℤ :=
  let forward := sequence - base
  if forward = halfSequenceSpace then none
  else if forward < halfSequenceSpace then some forward.toNat
  else some (-((base - sequence).toNat : ℤ))

/-- The receive buffer of a connection. -/
structure TcpReceiveBuffer extends Ring UInt8 where
  firstUndelivered : UInt32
  rcvNxt : UInt32
  rcvAdv : UInt32
  bytesHeld : ℕ := 0
  readyBytes : ℕ := 0
  blocked : Bool := false
  delayedAckPending : Bool := false
  recentSack : TcpSackBlock := {}
  recentSackValid : Bool := false
  finReceived : Bool := false
  deriving DecidableEq

namespace TcpReceiveBuffer

variable (b : TcpReceiveBuffer)

/-- A new receive buffer; there is none of a capacity out of range. -/
def new (capacity : ℕ) (initialSequence : UInt32) (initialAdvertisedWindow : ℕ) :
    Option TcpReceiveBuffer :=
  if capacity = 0 ∨ capacity > maximumCapacity then none
  else some {
    toRing := .empty capacity
    firstUndelivered := initialSequence
    rcvNxt := initialSequence
    rcvAdv := initialSequence + UInt32.ofNat
      (if initialAdvertisedWindow = 0 then capacity else min initialAdvertisedWindow capacity) }

section

variable {capacity : ℕ} {initialSequence : UInt32} {initialAdvertisedWindow : ℕ}
  {b : TcpReceiveBuffer}

theorem readyBytes_new (h : new capacity initialSequence initialAdvertisedWindow = some b) :
    b.readyBytes = 0 := by
  rw [new] at h
  split at h
  · cases h
  · cases h
    rfl

theorem blocked_new (h : new capacity initialSequence initialAdvertisedWindow = some b) :
    b.blocked = false := by
  rw [new] at h
  split at h
  · cases h
  · cases h
    rfl

end

/-! ## Windows -/

/-- The window to advertise next. -/
def advertisedWindow : ℕ := if b.blocked then 0 else b.capacity - b.bytesHeld

/-- The window in which data is accepted: what was advertised. -/
def acceptableWindow : ℕ :=
  let forward := b.rcvAdv - b.rcvNxt
  if forward < halfSequenceSpace then min forward.toNat (b.capacity - b.readyBytes) else 0

/-- A window was advertised; its right edge never moves back. -/
def recordAdvertisedWindow (window : ℕ) : TcpReceiveBuffer :=
  let bounded := min window (b.capacity - b.readyBytes)
  let candidate := b.rcvNxt + UInt32.ofNat bounded
  match sequenceOffset candidate b.rcvAdv with
  | some advance => if 0 < advance then { b with rcvAdv := candidate } else b
  | none => b

/-- A segment is acceptable if its first or its last sequence number is in the
    window; at a closed window, only an empty one at `rcvNxt` is. -/
def isSequenceAcceptable (sequence : UInt32) (segmentLength : ℕ) : Bool :=
  if segmentLength > maximumCapacity then false
  else match sequenceOffset sequence b.rcvNxt with
  | none => false
  | some first =>
    let window := b.acceptableWindow
    if window = 0 then segmentLength == 0 && first == 0
    else if segmentLength = 0 then 0 ≤ first && first < window
    else
      let last := first + segmentLength - 1
      (0 ≤ first && first < window) || (0 ≤ last && last < window)

/-! ## Segments -/

/-- A segment that brings nothing is acknowledged at once. -/
def reject (result : TcpReceiveResult) : TcpReceiveBuffer × TcpReceiveResult :=
  ({ b with delayedAckPending := false }, { result with ackDecision := .immediate })

/-- What writing the bytes of a segment accumulates. -/
structure InsertState where
  ring : Ring UInt8
  bytesHeld : ℕ
  duplicateBytes : ℕ := 0
  acceptedBytes : ℕ := 0
  firstNewSequence : Option UInt32 := none

/-- Write `data` into the cells from `logical` on, its first byte having the number
    `sequence`. A cell that is occupied keeps its byte. -/
def insertBytes : UInt32 → ℕ → Bytes → InsertState → InsertState
  | _, _, [], s => s
  | sequence, logical, x :: data, s =>
    let s :=
      if s.ring.occupied (s.ring.physicalIndex logical) then
        { s with duplicateBytes := s.duplicateBytes + 1 }
      else
        { s with
          ring := s.ring.put logical x
          bytesHeld := s.bytesHeld + 1
          acceptedBytes := s.acceptedBytes + 1
          firstNewSequence := s.firstNewSequence.or (some sequence) }
    insertBytes (sequence + 1) (logical + 1) data s

/-- The first free cell from `logical` on, among the next `fuel` cells. -/
def nextFree (r : Ring UInt8) : ℕ → ℕ → ℕ
  | 0, logical => logical
  | fuel + 1, logical =>
    if r.occupied (r.physicalIndex logical) then nextFree r fuel (logical + 1) else logical

/-- The first of the occupied cells right before `lower + offset`, not below `lower`. -/
def blockBegin (r : Ring UInt8) (lower : ℕ) : ℕ → ℕ
  | 0 => lower
  | offset + 1 =>
    if r.occupied (r.physicalIndex (lower + offset)) then blockBegin r lower offset
    else lower + (offset + 1)

/-- Note the block that holds the sequence number `trigger`, to report it first. -/
def updateRecentSack (trigger : UInt32) : TcpReceiveBuffer :=
  let offset := trigger - b.rcvNxt
  if offset ≠ 0 ∧ offset < halfSequenceSpace then
    let first := blockBegin b.toRing b.readyBytes offset.toNat
    let next := b.readyBytes + offset.toNat + 1
    let last := nextFree b.toRing (b.capacity - next) next
    { b with
      recentSack :=
        { leftEdge := b.rcvNxt + UInt32.ofNat (first - b.readyBytes)
          rightEdge := b.rcvNxt + UInt32.ofNat (last - b.readyBytes) }
      recentSackValid := true }
  else b

/-- Acknowledge at once, or with the next segment. -/
def decideAck (immediate : Bool) : TcpReceiveBuffer × AckDecision :=
  if immediate || b.delayedAckPending then ({ b with delayedAckPending := false }, .immediate)
  else ({ b with delayedAckPending := true }, .delayed)

/-- Write the part of a segment that is in the window, `first` places after
    `rcvNxt`, and move `rcvNxt` over what is now in order. -/
def acceptBytes (sequence : UInt32) (first : ℕ) (data : Bytes) (leftTrimmed rightTrimmed : ℕ)
    (psh : Bool) : TcpReceiveBuffer × TcpReceiveResult :=
  let s := insertBytes sequence (b.readyBytes + first) data
    { ring := b.toRing, bytesHeld := b.bytesHeld }
  let ready := nextFree s.ring (b.capacity - b.readyBytes) b.readyBytes
  let advanced := ready - b.readyBytes
  let b := { b with
    toRing := s.ring
    bytesHeld := s.bytesHeld
    readyBytes := ready
    rcvNxt := b.rcvNxt + UInt32.ofNat advanced }
  let outOfOrder := decide (first > 0)
  let b := if outOfOrder then b.updateRecentSack (s.firstNewSequence.getD sequence) else b
  let overlap := leftTrimmed != 0 || s.duplicateBytes != 0
  let gapFill := decide (advanced > s.acceptedBytes)
  let immediate := b.blocked || outOfOrder || overlap || rightTrimmed != 0 || gapFill || psh ||
    s.acceptedBytes == 0
  let (b, decision) := b.decideAck immediate
  (b, { disposition := if s.acceptedBytes = 0 then .duplicate else .accepted
        ackDecision := decision
        acceptedBytes := s.acceptedBytes
        leftTrimmed := leftTrimmed
        rightTrimmed := rightTrimmed
        duplicateBytes := s.duplicateBytes })

/-- Process a segment with the bytes `data`. -/
def onSegment (sequence : UInt32) (data : Bytes) (psh : Bool) :
    TcpReceiveBuffer × TcpReceiveResult :=
  if data = [] ∨ data.length > maximumCapacity then (b, {})
  else match sequenceOffset sequence b.rcvNxt with
  | none => b.reject { disposition := .outOfWindow, rightTrimmed := data.length }
  | some segmentBegin =>
    let segmentEnd := segmentBegin + data.length
    if b.isSequenceAcceptable sequence data.length = false then
      if segmentEnd ≤ 0 then b.reject { disposition := .duplicate, leftTrimmed := data.length }
      else b.reject { disposition := .outOfWindow, rightTrimmed := data.length }
    else
      let leftTrimmed := if segmentBegin < 0 then min data.length (-segmentBegin).toNat else 0
      let acceptedBegin := max 0 segmentBegin
      let acceptedEnd := min segmentEnd b.acceptableWindow
      let candidateBytes :=
        if acceptedEnd > acceptedBegin then (acceptedEnd - acceptedBegin).toNat else 0
      let rightTrimmed := data.length - leftTrimmed - candidateBytes
      if candidateBytes = 0 then
        b.reject { disposition := if segmentEnd ≤ 0 then .duplicate else .outOfWindow
                   leftTrimmed := leftTrimmed, rightTrimmed := rightTrimmed }
      else
        b.acceptBytes (sequence + UInt32.ofNat leftTrimmed) acceptedBegin.toNat
          ((data.drop leftTrimmed).take candidateBytes) leftTrimmed rightTrimmed psh

/-- The buffer after bytes are written: `rcvNxt` moves over what is in order now. -/
def afterInsert (s : InsertState) : TcpReceiveBuffer :=
  let ready := nextFree s.ring (b.capacity - b.readyBytes) b.readyBytes
  { b with
    toRing := s.ring
    bytesHeld := s.bytesHeld
    readyBytes := ready
    rcvNxt := b.rcvNxt + UInt32.ofNat (ready - b.readyBytes) }

/-- What else changes when bytes are accepted are notes for the acknowledgments. -/
theorem acceptBytes_eq (sequence : UInt32) (first : ℕ) (data : Bytes)
    (leftTrimmed rightTrimmed : ℕ) (psh : Bool) : ∃ sack valid pending,
    (b.acceptBytes sequence first data leftTrimmed rightTrimmed psh).1 =
    { b.afterInsert (insertBytes sequence (b.readyBytes + first) data { ring := b.toRing, bytesHeld
      := b.bytesHeld }) with recentSack := sack, recentSackValid := valid, delayedAckPending :=
      pending } := by
  simp only [acceptBytes, decideAck, updateRecentSack]
  split_ifs <;> exact ⟨_, _, _, rfl⟩

section

variable {b : TcpReceiveBuffer} {sequence : UInt32} {data : Bytes}

/-- What a segment makes of the buffer: nothing, or bytes of it are accepted that fit in the
    ring. -/
theorem onSegment_induction {P : TcpReceiveBuffer → Prop}
    (hsame : ∀ pending, P { b with delayedAckPending := pending })
    (haccept : ∀ sequence first data leftTrimmed rightTrimmed psh,
      first + data.length ≤ b.capacity - b.readyBytes →
      P (b.acceptBytes sequence first data leftTrimmed rightTrimmed psh).1) (psh : Bool) :
    P (b.onSegment sequence data psh).1 := by
  have hwindow : b.acceptableWindow ≤ b.capacity - b.readyBytes := by
    rw [acceptableWindow]
    split <;> omega
  rw [onSegment]
  split
  case isTrue => exact hsame b.delayedAckPending
  case isFalse =>
    split
    case h_1 => exact hsame false
    case h_2 z _ =>
      dsimp only
      split
      case isTrue => split <;> exact hsame false
      case isFalse =>
        generalize hcand : (if min (z + data.length) b.acceptableWindow > max 0 z then
          (min (z + data.length) b.acceptableWindow - max 0 z).toNat else 0) = candidateBytes
        split
        case isTrue => exact hsame false
        case isFalse hne =>
          -- the part that is written lies in the window
          refine haccept _ _ _ _ _ _ ?_
          rw [List.length_take]
          split at hcand
          · omega
          · exact absurd hcand.symm hne

/-- A segment of which nothing is accepted. -/
theorem onSegment_of_not (psh : Bool)
    (h : ¬(data ≠ [] ∧ b.isSequenceAcceptable sequence data.length)) :
    ∃ pending, (b.onSegment sequence data psh).1 = { b with delayedAckPending := pending } := by
  rw [onSegment]
  split
  case isTrue => exact ⟨_, rfl⟩
  case isFalse hlength =>
    have hacc : b.isSequenceAcceptable sequence data.length = false := by
      by_contra hacc
      exact h ⟨fun hnil => hlength (.inl hnil), by simpa using hacc⟩
    split
    case h_1 => exact ⟨_, rfl⟩
    case h_2 =>
      rw [if_pos hacc]
      split <;> exact ⟨_, rfl⟩

end

/-! ## Delivery -/

/-- The bytes that are in order, up to the end of the ring. -/
def readyView : Bytes :=
  if b.readyBytes = 0 then []
  else (b.storage.drop b.firstIndex).take (min b.readyBytes (b.capacity - b.firstIndex))

/-- Free up to `length` bytes that are in order; how many were freed. -/
def consumeReady (length : ℕ) : TcpReceiveBuffer × ℕ :=
  let consumed := min length b.readyBytes
  ({ b with
    toRing := b.toRing.dropFront consumed
    firstUndelivered := b.firstUndelivered + UInt32.ofNat consumed
    bytesHeld := b.bytesHeld - consumed
    readyBytes := b.readyBytes - consumed }, consumed)

def setBlocked (blocked : Bool) : TcpReceiveBuffer := { b with blocked := blocked }

def ackSent : TcpReceiveBuffer := { b with delayedAckPending := false }

/-- The FIN takes a sequence number. -/
def consumeFin : TcpReceiveBuffer := { b with rcvNxt := b.rcvNxt + 1, finReceived := true }

/-! ## Selective acknowledgments -/

/-- The first occupied cell from `logical` on, among the next `fuel` cells. -/
def nextOccupied (r : Ring UInt8) : ℕ → ℕ → ℕ
  | 0, logical => logical
  | fuel + 1, logical =>
    if r.occupied (r.physicalIndex logical) then logical else nextOccupied r fuel (logical + 1)

/-- The block reported last is reported first again, while all of it is held. -/
def recentSackBlock : List TcpSackBlock :=
  let width := b.recentSack.rightEdge - b.recentSack.leftEdge
  let offset := b.recentSack.leftEdge - b.rcvNxt
  let first := b.readyBytes + offset.toNat
  if b.recentSackValid ∧ offset < halfSequenceSpace ∧ width ≠ 0 ∧
      (List.range width.toNat).all fun i =>
        first + i < b.capacity && b.occupied (b.physicalIndex (first + i)) then
    [b.recentSack]
  else []

/-- The other blocks, in order; `remaining` bytes are still to be covered. -/
def collectSackBlocks (b : TcpReceiveBuffer) (limit : ℕ) :
    ℕ → ℕ → ℕ → List TcpSackBlock → List TcpSackBlock
  | 0, _, _, blocks => blocks
  | fuel + 1, logical, remaining, blocks =>
    if logical < b.capacity ∧ blocks.length < limit ∧ remaining ≠ 0 then
      let first := nextOccupied b.toRing (b.capacity - logical) logical
      if first = b.capacity then blocks
      else
        let last := nextFree b.toRing (b.capacity - first) first
        let block : TcpSackBlock :=
          { leftEdge := b.rcvNxt + UInt32.ofNat (first - b.readyBytes)
            rightEdge := b.rcvNxt + UInt32.ofNat (last - b.readyBytes) }
        let blocks := if blocks.head? = some block then blocks else blocks ++ [block]
        collectSackBlocks b limit fuel last (remaining - (last - first)) blocks
    else blocks

/-- Up to four blocks of bytes held beyond `rcvNxt`. -/
def sackBlocks (maxBlocks : ℕ) : List TcpSackBlock :=
  let limit := min maxBlocks 4
  if limit = 0 then []
  else collectSackBlocks b limit b.capacity b.readyBytes (b.bytesHeld - b.readyBytes)
    b.recentSackBlock

/-! ## Memory -/

def memoryBytes : ℕ := b.storage.length + b.occupancy.length * 8

theorem memoryBytes_new {capacity : ℕ} {initialSequence : UInt32} {initialAdvertisedWindow : ℕ}
    {b : TcpReceiveBuffer} (h : new capacity initialSequence initialAdvertisedWindow = some b) :
    b.memoryBytes = capacity + (capacity + 63) / 64 * 8 := by
  rw [new] at h
  split at h
  · cases h
  · cases h
    simp [memoryBytes, Ring.empty]

@[simp] theorem memoryBytes_setBlocked (v : Bool) :
    (b.setBlocked v).memoryBytes = b.memoryBytes := rfl

@[simp] theorem memoryBytes_ackSent : b.ackSent.memoryBytes = b.memoryBytes := rfl

@[simp] theorem memoryBytes_consumeFin : b.consumeFin.memoryBytes = b.memoryBytes := rfl

@[simp] theorem memoryBytes_recordAdvertisedWindow (window : ℕ) :
    (b.recordAdvertisedWindow window).memoryBytes = b.memoryBytes := by
  unfold recordAdvertisedWindow
  dsimp only
  split
  · split <;> rfl
  · rfl

@[simp] theorem memoryBytes_consumeReady (length : ℕ) : (b.consumeReady length).1.memoryBytes =
    b.memoryBytes := by
  simp [consumeReady, memoryBytes, Ring.dropFront]

theorem length_insertBytes (data : Bytes) (sequence : UInt32) (logical : ℕ) (s : InsertState) :
    (insertBytes sequence logical data s).ring.storage.length = s.ring.storage.length ∧
      (insertBytes sequence logical data s).ring.occupancy.length = s.ring.occupancy.length := by
  induction data generalizing sequence logical s with
  | nil => exact ⟨rfl, rfl⟩
  | cons _ _ ih =>
    rw [insertBytes]
    obtain ⟨hstorage, hoccupancy⟩ := ih (sequence + 1) (logical + 1) _
    rw [hstorage, hoccupancy]
    split
    · exact ⟨rfl, rfl⟩
    · exact ⟨Ring.length_storage_put .., Ring.length_occupancy_put ..⟩

@[simp] theorem memoryBytes_onSegment (sequence : UInt32) (data : Bytes) (psh : Bool) :
    (b.onSegment sequence data psh).1.memoryBytes = b.memoryBytes := by
  refine onSegment_induction (P := fun b' => b'.memoryBytes = b.memoryBytes) (fun _ => rfl) ?_ psh
  intro sequence first data leftTrimmed rightTrimmed psh _
  obtain ⟨hstorage, hoccupancy⟩ := length_insertBytes data sequence (b.readyBytes + first)
    { ring := b.toRing, bytesHeld := b.bytesHeld }
  obtain ⟨_, _, _, heq⟩ := b.acceptBytes_eq sequence first data leftTrimmed rightTrimmed psh
  rw [heq, memoryBytes, afterInsert, hstorage, hoccupancy]
  rfl

end TcpReceiveBuffer

end Netstack2
