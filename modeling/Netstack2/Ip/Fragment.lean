import Netstack2.Flow
import Netstack2.Lib.Bytes
import Netstack2.Lib.Sort

/-!
# Reassembly of fragments

A datagram that is too long for a link arrives in fragments. They are gathered in the
entry of a table, one entry for each datagram, until they cover the whole of it.

An entry holds the places of the fragments in the order they came, and their bytes in
one buffer, each where it belongs. A fragment that overlaps another one is refused, and
over IPv6 the whole datagram is given up with it. Entries are dropped after a while.
-/

namespace Netstack2

/-- At most this many fragments are gathered in one entry. -/
def maxFragmentsPerEntry : ℕ := 64

def fragmentDefaultTtlMs : ℕ := 60000

def maxReassemblyEntries : ℕ := 256

def maxFragmentPayloadBytes : ℕ := 65535

def maxIpv4FragmentPayloadBytes : ℕ := 65515

def defaultMaxTotalBytes : ℕ := 16 * 1024 * 1024

/-- What the fragments of a datagram have in common. -/
structure FragmentKey where
  srcIp : Vector UInt8 16 := .replicate 16 0
  dstIp : Vector UInt8 16 := .replicate 16 0
  ipVersion : UInt8 := 0
  protocol : UInt8 := 0
  identification : UInt32 := 0
  deriving DecidableEq

/-- An IPv4 address in a field for sixteen bytes. -/
def ipv4Mapped (address : Vector UInt8 4) : Vector UInt8 16 :=
  (#v[0, 0, 0, 0, 0, 0, 0, 0, 0, 0, 0xff, 0xff] : Vector UInt8 12) ++ address

inductive FragmentError
  | tooManyFragments
  | overlapDetected
  | payloadTooLarge
  | invalidOffset
  | invalidFragment
  | tooManyEntries
  | nullData
  | duplicateTerminal
  | terminalOverflow
  | byteBudgetExceeded
  deriving DecidableEq

structure FragmentAddResult where
  error : Option FragmentError := none
  complete : Bool := false
  totalLength : ℕ := 0
  ecn : UInt8 := 0
  payload : Bytes := []
  deriving DecidableEq

/-! ## Entries -/

/-- The place of a fragment in its datagram. -/
structure FragmentPiece where
  offset : ℕ
  length : ℕ
  deriving DecidableEq

/-- The position after the fragment. -/
def FragmentPiece.stop (piece : FragmentPiece) : ℕ := piece.offset + piece.length

structure ReassemblyEntry where
  key : FragmentKey := {}
  pieces : List FragmentPiece := []
  lastReceived : Bool := false
  totalPayloadLength : ℕ := 0
  deadlineMs : ℕ := 0
  discarded : Bool := false
  ecnOr : UInt8 := 0
  dataBuffer : Bytes := []
  deriving DecidableEq

namespace ReassemblyEntry

variable (entry : ReassemblyEntry)

def inUse : Bool := !entry.pieces.isEmpty

def isExpired (nowMs : ℕ) : Bool := nowMs ≥ entry.deadlineMs

def bytesHeld : ℕ := entry.dataBuffer.length

def hasOverlap (offset length : ℕ) : Bool :=
  entry.pieces.any fun piece => offset < piece.stop && piece.offset < offset + length

def sortPieces (pieces : List FragmentPiece) : List FragmentPiece :=
  sortByKey FragmentPiece.offset pieces

/-- Where pieces that follow each other from `expectedEnd` on stop. -/
def contiguousEnd (expectedEnd : ℕ) : List FragmentPiece → Option ℕ
  | [] => some expectedEnd
  | piece :: rest => if piece.offset ≠ expectedEnd then none else contiguousEnd piece.stop rest

/-- The fragments cover the datagram. -/
def isComplete : Bool :=
  entry.lastReceived && match sortPieces entry.pieces with
    | [] => false
    | first :: rest =>
      first.offset == 0 && contiguousEnd first.stop rest == some entry.totalPayloadLength

/-- The end of the time to wait, which starts with the first fragment. -/
def deadline (nowMs expiresMs : ℕ) : ℕ :=
  min (nowMs + if expiresMs = 0 then fragmentDefaultTtlMs else expiresMs) (2 ^ 64 - 1)

/-- Keep a fragment that was found to be in order. -/
def store (offset : ℕ) (data : Bytes) (moreFragments : Bool) (nowMs expiresMs : ℕ)
    (ecn : UInt8) : ReassemblyEntry :=
  { entry with
    deadlineMs := if entry.pieces = [] then deadline nowMs expiresMs else entry.deadlineMs
    dataBuffer := writeAt (growTo entry.dataBuffer (offset + data.length)) offset data
    pieces := entry.pieces ++ [⟨offset, data.length⟩]
    ecnOr := entry.ecnOr ||| ecn &&& 0x03
    lastReceived := entry.lastReceived || !moreFragments
    totalPayloadLength := if moreFragments then entry.totalPayloadLength else offset + data.length }

/-- Hand out the datagram, if it is complete. -/
def finish : ReassemblyEntry × FragmentAddResult :=
  if entry.isComplete then
    ({ entry with dataBuffer := [] }, {
      complete := true
      totalLength := entry.totalPayloadLength
      ecn := entry.ecnOr
      payload := entry.dataBuffer.take entry.totalPayloadLength })
  else (entry, {})

def addFragment (offset : ℕ) (data : Bytes) (moreFragments : Bool)
    (nowMs expiresMs maxPayloadBytes additionalByteBudget : ℕ) (ecn : UInt8) :
    ReassemblyEntry × FragmentAddResult :=
  if data = [] then (entry, { error := some .invalidFragment })
  else if entry.pieces.length ≥ maxFragmentsPerEntry then
    (entry, { error := some .tooManyFragments })
  else if offset ≠ 0 ∧ offset % 8 ≠ 0 then (entry, { error := some .invalidOffset })
  else if moreFragments ∧ data.length % 8 ≠ 0 then (entry, { error := some .invalidFragment })
  -- the sum is computed with 32 bits, and checked
  else if offset + data.length > 0xffffffff then (entry, { error := some .payloadTooLarge })
  else if maxPayloadBytes > 0 ∧ offset + data.length > maxPayloadBytes then
    (entry, { error := some .payloadTooLarge })
  else if entry.lastReceived ∧ offset + data.length > entry.totalPayloadLength then
    (entry, { error := some .terminalOverflow })
  else if ¬moreFragments ∧ entry.lastReceived ∧
      offset + data.length ≠ entry.totalPayloadLength then
    (entry, { error := some .duplicateTerminal })
  else if entry.hasOverlap offset data.length then
    if entry.key.ipVersion = 6 then
      ({ entry with discarded := true }, { error := some .overlapDetected })
    else (entry, { error := some .overlapDetected })
  else if entry.discarded then (entry, { error := some .overlapDetected })
  else if offset + data.length > entry.bytesHeld ∧
      offset + data.length - entry.bytesHeld > additionalByteBudget then
    (entry, { error := some .byteBudgetExceeded })
  else (entry.store offset data moreFragments nowMs expiresMs ecn).finish

end ReassemblyEntry

/-! ## The table -/

structure FragmentReassembler where
  entries : List ReassemblyEntry
  maxEntries : ℕ
  maxTotalBytes : ℕ
  currentBytes : ℕ

namespace FragmentReassembler

def new (maxEntries : ℕ := maxReassemblyEntries) (maxTotalBytes : ℕ := 0) :
    FragmentReassembler where
  entries := []
  maxEntries := min (if maxEntries = 0 then 1 else maxEntries) maxReassemblyEntries
  maxTotalBytes := if maxTotalBytes = 0 then defaultMaxTotalBytes else maxTotalBytes
  currentBytes := 0

variable (r : FragmentReassembler)

/-- Drop what the entry at `i` holds, and give it to `key`. -/
def reclaim (i : ℕ) (key : FragmentKey) : FragmentReassembler :=
  { r with
    entries := r.entries.set i { key := key }
    currentBytes := r.currentBytes - (r.entries.getD i {}).bytesHeld }

/-- The entry of a datagram, by its index. -/
def findOrCreate (key : FragmentKey) (nowMs : ℕ) : Option (FragmentReassembler × ℕ) :=
  match r.entries.findIdx? fun entry => entry.inUse && entry.key == key with
  | some i =>
    if (r.entries.getD i {}).isExpired nowMs then some (r.reclaim i key, i)
    else some (r, i)
  | none =>
    match r.entries.findIdx? fun entry => !entry.inUse || entry.isExpired nowMs with
    | some i =>
      let entry := r.entries.getD i {}
      if entry.inUse then some (r.reclaim i key, i)
      else some ({ r with
        entries := r.entries.set i { entry with key := key } }, i)
    | none =>
      if r.entries.length < r.maxEntries then
        some ({ r with entries := r.entries ++ [{ key := key }] },
          r.entries.length)
      else none

/-- Add a fragment to the datagram of `key`, with the limit of its protocol. -/
def addFragment (hardPayloadLimit : ℕ) (key : FragmentKey) (fragmentOffset : UInt16)
    (moreFragments : Bool) (payload : Bytes) (nowMs expiresMs maxPayloadBytes : ℕ)
    (ecn : UInt8) : FragmentReassembler × FragmentAddResult :=
  if payload = [] then (r, { error := some .invalidFragment })
  else if payload.length > 0xffffffff then (r, { error := some .payloadTooLarge })
  else
    let limit := if maxPayloadBytes = 0 ∨ maxPayloadBytes > hardPayloadLimit then hardPayloadLimit
      else maxPayloadBytes
    match r.findOrCreate key nowMs with
    | none => (r, { error := some .tooManyEntries })
    | some (r, i) =>
      let entry := r.entries.getD i {}
      let budget := r.maxTotalBytes - r.currentBytes
      let (entry', result) := entry.addFragment (fragmentOffset.toNat * 8) payload moreFragments
        nowMs expiresMs limit budget ecn
      if result.complete then
        ({ r with
            entries := r.entries.set i {}
            currentBytes := r.currentBytes - entry.bytesHeld }, result)
      else if result.error = none then
        ({ r with
            entries := r.entries.set i entry'
            currentBytes := r.currentBytes + (entry'.bytesHeld - entry.bytesHeld) },
          result)
      else ({ r with entries := r.entries.set i entry' }, result)

def addIpv4Fragment (srcIp dstIp : Vector UInt8 4) (protocol : UInt8)
    (identification fragmentOffset : UInt16) (moreFragments : Bool) (payload : Bytes)
    (nowMs : ℕ) (expiresMs maxPayloadBytes : ℕ := 0) (ecn : UInt8 := 0) :
    FragmentReassembler × FragmentAddResult :=
  r.addFragment maxIpv4FragmentPayloadBytes {
      srcIp := ipv4Mapped srcIp
      dstIp := ipv4Mapped dstIp
      ipVersion := 4
      protocol := protocol
      identification := identification.toUInt32 }
    fragmentOffset moreFragments payload nowMs expiresMs maxPayloadBytes ecn

def addIpv6Fragment (srcIp dstIp : Vector UInt8 16) (identification : UInt32)
    (fragmentOffset : UInt16) (moreFragments : Bool) (payload : Bytes) (nowMs : ℕ)
    (expiresMs maxPayloadBytes : ℕ := 0) (protocol : UInt8 := 0) (ecn : UInt8 := 0) :
    FragmentReassembler × FragmentAddResult :=
  r.addFragment maxFragmentPayloadBytes {
      srcIp := srcIp
      dstIp := dstIp
      ipVersion := 6
      protocol := protocol
      identification := identification }
    fragmentOffset moreFragments payload nowMs expiresMs maxPayloadBytes ecn

/-- Drop the entries whose time has passed. -/
def purge (nowMs : ℕ) : FragmentReassembler × ℕ :=
  let expired := fun entry : ReassemblyEntry => entry.inUse && entry.isExpired nowMs
  ({ r with
      entries := r.entries.map fun entry => if expired entry then {} else entry
      currentBytes := r.currentBytes -
        ((r.entries.filter expired).map ReassemblyEntry.bytesHeld).sum },
    (r.entries.filter expired).length)

end FragmentReassembler

end Netstack2
