import Netstack2.Lib.Tiling
import Netstack2.Tcp.Send.Poll

/-!
# The send stream

The bytes `enqueue` has accepted form one stream, and every byte of it is in one
place: acknowledged, retained by a record in flight or by the persist probe, or
in the send queue. `Carries` is the invariant that says so, for a stream of any
length over sequence numbers that wrap: from the position of `sndUna` on, the
outstanding records tile the stream up to the position of `sndNxt`, and the send
queue is the rest of it.

Main results:

* `Carries.enqueue`, `Carries.requestFin`, `onSent_carries`, `onAck_carries` and
  `onSack_carries`: the operations of the buffer keep the invariant;
* `Carries.again`, `Carries.next`: a segment sent again, and one of new data,
  carry the bytes of the stream at their sequence numbers.
-/

namespace Netstack2

open List SendRecord

open CongestionController

/-! ## Records in the stream -/

/-- What a record holds of the stream. -/
structure Span where
  seq : UInt32
  length : ℕ
  data : Bytes

def SendRecord.span (r : SendRecord) : Span := ⟨r.seq, r.logicalLength, r.data⟩

/-- The records sent and not acknowledged: those in flight, then the probe. -/
def SendQueues.spans (q : SendQueues) : List Span :=
  (q.retransmitQueue ++ q.persistProbe.toList).map SendRecord.span

/-- The record holds the bytes of `stream` at position `p` (if the buffers it was retained in hold
    copies of what was sent), and possibly the FIN after the last of them. -/
structure Span.At (copied : Prop) (isn : UInt32) (stream : Bytes) (p : ℕ) (s : Span) : Prop where
  seq : s.seq = seqAt isn p
  data : copied → s.data <+: stream.drop p
  pos : 0 < s.length
  length : s.length = s.data.length ∧ p + s.length ≤ stream.length ∨
    s.length = s.data.length + 1 ∧ p + s.length = stream.length + 1

namespace Span.At

variable {copied : Prop} {isn : UInt32} {stream : Bytes} {p : ℕ} {s : Span}

theorem append (more : Bytes) (h : s.At copied isn stream p) (hp : p + s.length ≤ stream.length) :
    s.At copied isn (stream ++ more) p where
  seq := h.seq
  data hc := by
    rw [drop_append_of_le_length (by omega)]
    exact (h.data hc).trans (prefix_append _ _)
  pos := h.pos
  length := by
    have := h.length
    rw [length_append]
    omega

/-- Only the last record of a stream that has ended carries a FIN. -/
theorem carriesFin_iff {r : SendRecord} (h : r.span.At copied isn stream p) :
    r.carriesFin ↔ p + r.logicalLength = stream.length + 1 := by
  have hl := h.length
  have hp := h.pos
  simp only [SendRecord.span] at hl hp
  rw [SendRecord.carriesFin, decide_eq_true_eq]
  omega

theorem carriesFin_or_iff {r : SendRecord} (h : r.span.At copied isn stream p) (acked : Bool) :
    (acked || r.carriesFin) ↔
      acked ∨ 0 < r.logicalLength ∧ p + r.logicalLength = stream.length + 1 := by
  have hpos : 0 < r.logicalLength := h.pos
  rw [Bool.or_eq_true, h.carriesFin_iff, and_iff_right hpos]

/-- The FIN is not inside a record. -/
theorem lt_fin {n : ℕ} (h : s.At copied isn stream p) (hn : n < s.length) : p + n ≤ stream.length := by
  have := h.length
  omega

/-- What is left of a record after its first `n` sequence numbers. -/
theorem drop {n : ℕ} (h : s.At copied isn stream p) (hn : n < s.length) :
    Span.At copied isn stream (p + n)
      ⟨s.seq + UInt32.ofNat n, s.length - n, s.data.drop (min n s.data.length)⟩ where
  seq := by rw [h.seq, seqAt_add]
  data hc := by
    have hl := h.length
    have hmin : min n s.data.length = n := by omega
    obtain ⟨rest, hrest⟩ := h.data hc
    rw [hmin, ← drop_drop, ← hrest, drop_append_of_le_length (by omega)]
    exact prefix_append _ _
  pos := by
    show 0 < s.length - n
    omega
  length := by
    have hl := h.length
    have hmin : min n s.data.length = n := by omega
    simp only [length_drop, hmin]
    omega

end Span.At

/-! ## The invariant -/

/-- The queues, of the given limit, carry `stream` from position `u` on, the one
    acknowledged next, and a FIN after it if `fin`. -/
structure Carries (copied : Prop) (isn : UInt32) (limit : ℕ) (fin : Bool) (stream : Bytes)
    (u : ℕ) (q : SendQueues) : Prop where
  una : q.sndUna = seqAt isn u
  nxt : q.sndNxt = seqAt isn (u + q.retransmitBytes)
  max : q.sndMax = q.sndNxt
  capacity : q.retransmitLimit = limit
  room : q.retransmitBytes ≤ limit
  requested : q.finRequested = fin
  tiles : Tiles (Span.At copied isn stream) Span.length u q.spans (u + q.retransmitBytes)
  alone : q.persistProbe = none ∨ q.retransmitQueue = []
  inFlight : q.inFlightSequence = (q.retransmitQueue.map SendRecord.logicalLength).sum
  unsent : q.finSent = false →
    q.sendQueue = stream.drop (u + q.retransmitBytes) ∧ u + q.retransmitBytes ≤ stream.length
  ended : q.finSent = true →
    q.sendQueue = [] ∧ q.finRequested = true ∧ u + q.retransmitBytes = stream.length + 1
  finAcked : q.finAcked = true ↔ u = stream.length + 1

namespace Carries

variable {copied : Prop} {isn : UInt32} {limit : ℕ} {fin : Bool} {stream : Bytes}
  {u : ℕ} {q : SendQueues}

section

variable (h : Carries copied isn limit fin stream u q)

include h

/-- What has been sent ends at most one place, the FIN's, after the stream. -/
theorem sent_le : u + q.retransmitBytes ≤ stream.length + 1 := by
  cases hf : q.finSent with
  | false => exact Nat.le_succ_of_le (h.unsent hf).2
  | true => exact le_of_eq (h.ended hf).2.2

/-- The first outstanding record stands at the position of `sndUna`, before that of `sndNxt`. -/
theorem firstRecord {r : SendRecord} (hr : TcpSendBuffer.FirstRecord q r) :
    r.span.At copied isn stream u ∧ u + r.logicalLength ≤ u + q.retransmitBytes := by
  have ht := h.tiles
  have hhead : ∃ rs, q.spans = r.span :: rs := by
    rcases hr with hr | hr
    · obtain ⟨_, hrs⟩ := List.head?_eq_some_iff.1 hr
      exact ⟨_, by rw [SendQueues.spans, hrs]; rfl⟩
    · have hq : q.retransmitQueue = [] := by
        rcases h.alone with hp | hq
        · simp [hp] at hr
        · exact hq
      exact ⟨[], by rw [SendQueues.spans, hq, hr]; rfl⟩
  obtain ⟨_, hrs⟩ := hhead
  rw [hrs] at ht
  cases ht with
  | cons hat htail => exact ⟨hat, htail.le⟩

/-- After the FIN there is nothing left to send. -/
theorem not_finSent {p : PendingSegment} {r : TcpSendNextResult}
    (hnext : TcpSendBuffer.TakesNext q p r) : q.finSent = false := by
  cases hs : q.finSent with
  | false => rfl
  | true =>
    have hqueue := (h.ended hs).1
    have hpay : r.payload = [] := prefix_nil.1 (hqueue ▸ hnext.payload)
    have hpos := hnext.pos
    rw [hnext.pendingLen, hpay] at hpos
    cases hfin : r.isFin with
    | false => simp [hfin] at hpos
    | true => rw [(hnext.fin hfin).2.1] at hs; cases hs

/-- Without a probe, everything outstanding is in flight. -/
theorem inFlight_eq (hp : q.persistProbe = none) : q.inFlightSequence = q.retransmitBytes := by
  have hsum := h.tiles.eq_add_sum
  rw [SendQueues.spans, hp, Option.toList_none, append_nil, map_map] at hsum
  have : Span.length ∘ span = logicalLength := rfl
  rw [this] at hsum
  rw [h.inFlight]
  omega

/-- The records keep what they hold of the stream, and the probe may join those in flight. -/
theorem of_spans {records : List SendRecord} {probe : Option SendRecord} (bytes : ℕ) {sequence : ℕ}
    (hspans : (records ++ probe.toList).map SendRecord.span = q.spans)
    (halone : probe = none ∨ records = [])
    (hflight : sequence = (records.map SendRecord.logicalLength).sum) :
    Carries copied isn limit fin stream u { q with
      retransmitQueue := records
      persistProbe := probe
      inFlightBytes := bytes
      inFlightSequence := sequence } :=
  { h with
    tiles := by
      show Tiles _ _ u ((records ++ probe.toList).map SendRecord.span) _
      rw [hspans]
      exact h.tiles
    alone := halone
    inFlight := hflight }

end

/-! ## What a segment carries -/

end Carries

/-- The segment `r` carries the bytes of `stream` from position `n` on, and a FIN
    only at its end and if `fin`. -/
structure CarriesAt (fin : Bool) (stream : Bytes) (n : ℕ) (r : TcpSendNextResult) : Prop where
  payload : ∀ (i : ℕ) (hi : i < r.payload.length), stream[n + i]? = some r.payload[i]
  fin : r.isFin = true → fin = true ∧ n + r.payload.length = stream.length

theorem getElem?_of_drop {stream data : Bytes} {n : ℕ} (h : data <+: stream.drop n) (i : ℕ)
    (hi : i < data.length) : stream[n + i]? = some data[i] := by
  obtain ⟨_, hrest⟩ := h
  rw [← getElem?_drop, ← hrest, getElem?_append_left hi, getElem?_eq_getElem hi]

namespace Carries

variable {copied : Prop} {isn : UInt32} {limit : ℕ} {fin : Bool} {stream : Bytes}
  {u : ℕ} {q : SendQueues}

/-- A segment that sends a part of the first outstanding record again carries the
    stream at the position of `sndUna`. -/
theorem again (h : Carries True isn limit fin stream u q) {r : TcpSendNextResult}
    {record : SendRecord} (hfirst : TcpSendBuffer.FirstRecord q record)
    (hpay : r.payload <+: record.data)
    (hfin : r.isFin → record.carriesFin ∧ r.payload = record.data) : CarriesAt fin stream u r := by
  obtain ⟨hat, hle⟩ := h.firstRecord hfirst
  have hdata : record.data <+: stream.drop u := hat.data trivial
  refine ⟨getElem?_of_drop (hpay.trans hdata), fun hf => ?_⟩
  obtain ⟨hcarries, hall⟩ := hfin hf
  have hend := hat.carriesFin_iff.1 hcarries
  have hlength : record.logicalLength = record.data.length ∧
      u + record.logicalLength ≤ stream.length ∨
      record.logicalLength = record.data.length + 1 ∧ _ := hat.length
  rw [hall]
  refine ⟨?_, by omega⟩
  -- the FIN is outstanding, so it was sent, and it was requested before
  cases hs : q.finSent with
  | false =>
    have := (h.unsent hs).2
    omega
  | true => exact h.requested.symm.trans (h.ended hs).2.1

/-- A segment that sends what comes next carries the stream at the position of `sndNxt`. -/
theorem next (h : Carries True isn limit fin stream u q) {p : PendingSegment}
    {r : TcpSendNextResult} (hnext : TcpSendBuffer.TakesNext q p r) :
    CarriesAt fin stream (u + q.retransmitBytes) r := by
  have hsent := h.not_finSent hnext
  obtain ⟨hqueue, hle⟩ := h.unsent hsent
  refine ⟨getElem?_of_drop (hqueue ▸ hnext.payload), fun hf => ?_⟩
  obtain ⟨hreq, -, hall⟩ := hnext.fin hf
  refine ⟨h.requested.symm.trans hreq, ?_⟩
  rw [hall, hqueue, length_drop]
  omega

/-! ## Application data -/

section

variable (h : Carries copied isn limit fin stream u q)

include h

theorem enqueue (taken : Bytes) (hfin : q.finRequested = false) :
    Carries copied isn limit fin (stream ++ taken) u { q with sendQueue := q.sendQueue ++ taken } := by
  have hsent : q.finSent = false := by
    cases hs : q.finSent with
    | false => rfl
    | true => rw [(h.ended hs).2.1] at hfin; cases hfin
  obtain ⟨hqueue, hle⟩ := h.unsent hsent
  refine { h with tiles := ?_, unsent := fun _ => ⟨?_, ?_⟩, ended := ?_, finAcked := ?_ }
  · exact h.tiles.imp fun p s hp hat => hat.append taken (hp.trans hle)
  · rw [hqueue, drop_append_of_le_length hle]
  · rw [length_append]
    exact hle.trans (Nat.le_add_right ..)
  · intro hs
    simp [hsent] at hs
  · rw [h.finAcked, length_append]
    omega

theorem requestFin : Carries copied isn limit true stream u { q with finRequested := true } :=
  { h with
    requested := rfl
    ended := fun hs => ⟨(h.ended hs).1, rfl, (h.ended hs).2.2⟩ }

/-! ## Sending -/

/-- The next part of the send queue becomes a record at the end of those
    outstanding: in flight, or as the probe. -/
theorem take {p : PendingSegment} {r : TcpSendNextResult} (hnext : TcpSendBuffer.TakesNext q p r)
    {data : Bytes} (hdata : data.length = r.payload.length ∧ (copied → data = r.payload))
    {record : SendRecord} {records : List SendRecord} {probe : Option SendRecord} (bytes : ℕ)
    {sequence : ℕ} {sndMax : UInt32} (hrecord : record.span = ⟨q.sndNxt, p.pendingLen, data⟩)
    (hspans : records ++ probe.toList = q.retransmitQueue ++ [record])
    (halone : probe = none ∨ records = [])
    (hflight : sequence = (records.map SendRecord.logicalLength).sum)
    (hmax : sndMax = q.sndNxt + UInt32.ofNat p.pendingLen) :
    Carries copied isn limit fin stream u { q with
      sendQueue := q.sendQueue.drop r.payload.length
      retransmitQueue := records
      persistProbe := probe
      inFlightBytes := bytes
      inFlightSequence := sequence
      retransmitBytes := q.retransmitBytes + p.pendingLen
      sndNxt := q.sndNxt + UInt32.ofNat p.pendingLen
      sndMax := sndMax
      finSent := q.finSent || r.isFin } := by
  have hsent := h.not_finSent hnext
  obtain ⟨hqueue, hle⟩ := h.unsent hsent
  have hlen := hnext.pendingLen
  have hpay : r.payload <+: stream.drop (u + q.retransmitBytes) := hqueue ▸ hnext.payload
  have hpl : r.payload.length ≤ stream.length - (u + q.retransmitBytes) := by
    rw [← length_drop]
    exact hpay.length_le
  have hfin : r.isFin = true → u + q.retransmitBytes + r.payload.length = stream.length := by
    intro hf
    rw [(hnext.fin hf).2.2, hqueue, length_drop]
    omega
  have hat : record.span.At copied isn stream (u + q.retransmitBytes) := by
    rw [hrecord]
    refine ⟨h.nxt, fun hc => (hdata.2 hc).symm ▸ hpay, hnext.pos, ?_⟩
    dsimp only
    rw [hdata.1]
    cases hf : r.isFin with
    | false =>
      simp only [hf, Bool.false_eq_true, if_false] at hlen
      omega
    | true =>
      have := hfin hf
      simp only [hf, if_true] at hlen
      omega
  refine
    { una := h.una
      nxt := by rw [h.nxt, ← seqAt_add, add_assoc]
      max := hmax
      capacity := h.capacity
      requested := h.requested
      room := ?room
      tiles := ?tiles
      alone := halone
      inFlight := hflight
      unsent := ?unsent
      ended := ?ended
      finAcked := h.finAcked }
  case room =>
    have hroom := hnext.room
    have hle := h.room
    rw [h.capacity] at hroom
    dsimp only
    omega
  case tiles =>
    have hlength : record.span.length = p.pendingLen := by rw [hrecord]
    have htiles := h.tiles
    rw [SendQueues.spans, hnext.noProbe, Option.toList_none, append_nil] at htiles
    show Tiles _ _ u ((records ++ probe.toList).map SendRecord.span) _
    rw [hspans, map_append, ← add_assoc, ← hlength]
    exact htiles.concat hat
  case unsent =>
    intro hf
    simp only [Bool.or_eq_false_iff] at hf
    simp only [hf.2, Bool.false_eq_true, if_false, add_zero] at hlen
    dsimp only
    rw [hqueue, drop_drop, hlen, add_assoc]
    exact ⟨rfl, by omega⟩
  case ended =>
    intro hf
    simp only [hsent, Bool.false_or] at hf
    have := hfin hf
    simp only [hf, if_true] at hlen
    refine ⟨?_, (hnext.fin hf).1, ?_⟩
    · rw [(hnext.fin hf).2.2, drop_length]
    · dsimp only
      omega

end

end Carries

/-! ## Committing a segment -/

namespace TcpSendBuffer

variable {κ : Type} {b : TcpSendBuffer κ} {copied : Prop} {isn : UInt32} {limit : ℕ}
  {fin : Bool} {stream : Bytes} {u usable : ℕ} {r : TcpSendNextResult}
  {owner : Option Bytes} {offset n : ℕ}

/-- The owner holds the bytes of a segment of new data at the given offset. -/
def Owns (owner : Option Bytes) (offset : ℕ) (r : TcpSendNextResult) : Prop :=
  r.isRetransmission = true ∨ r.payload = [] ∨
    ∃ bytes, owner = some bytes ∧ r.payload <+: bytes.drop offset

theorem pendingPayloadLength_eq (hnext : TakesNext b.toSendQueues b.toPendingSegment r) :
    b.pendingPayloadLength = r.payload.length := by
  rw [pendingPayloadLength, hnext.pendingLen, hnext.pendingIsFin, Nat.add_sub_cancel]

variable {data : Bytes}

/-- What is retained of a pending segment is as long as its payload. -/
theorem length_retained (h : b.retained owner offset = some data) :
    data.length = b.pendingPayloadLength := by
  unfold retained at h
  dsimp only at h
  split at h
  case isTrue => cases h
  split at h
  case isTrue hzero =>
    rw [← Option.some.inj h, hzero]
    rfl
  case isFalse =>
    cases owner with
    | none => cases h
    | some =>
      dsimp only at h
      obtain ⟨hfits, h⟩ := Option.ite_none_left_eq_some.1 h
      rw [← Option.some.inj h, length_take, length_drop]
      omega

/-- What is retained of new data is its payload, if the owner holds a copy of it. -/
theorem retained_spec (hnext : TakesNext b.toSendQueues b.toPendingSegment r)
    (hown : copied → Owns owner offset r) (h : b.retained owner offset = some data) :
    data.length = r.payload.length ∧ (copied → data = r.payload) := by
  have hlength := (length_retained h).trans (pendingPayloadLength_eq hnext)
  refine ⟨hlength, fun hc => ?_⟩
  rcases hown hc with hr | hp | ⟨bytes, rfl, hpre⟩
  · simp [hnext.fresh] at hr
  · rw [hp, length_nil] at hlength
    rw [hp, length_eq_zero_iff.1 hlength]
  · rw [retained, pendingPayloadLength_eq hnext] at h
    split at h
    case isTrue => cases h
    split at h
    case isTrue hzero => rw [← Option.some.inj h, length_eq_zero_iff.1 hzero]
    case isFalse =>
      obtain ⟨-, h⟩ := Option.ite_none_left_eq_some.1 h
      rw [← Option.some.inj h]
      exact (prefix_iff_eq_take.1 hpre).symm

/-- The record of new data stands at `sndNxt`. -/
theorem pendingRecord_span (hnext : TakesNext b.toSendQueues b.toPendingSegment r)
    (data : Bytes) : (b.pendingRecord data n).span = ⟨b.sndNxt, b.pendingLen, data⟩ := by
  have hlt := hnext.lt
  rw [SendRecord.span, pendingRecord, saturatingUint32_of_le (by unfold maxUint32; omega),
    hnext.pendingSeq]

/-- `sndMax` follows `sndNxt`. -/
theorem takePending_toSendQueues (hmax : b.sndMax = b.sndNxt) (hpos : 0 < b.pendingLen)
    (hlt : b.pendingLen ≤ 2 ^ 16) :
    b.takePending.toSendQueues = { b.toSendQueues with
      sendQueue := b.sendQueue.drop b.pendingPayloadLength
      retransmitBytes := b.retransmitBytes + b.pendingLen
      sndNxt := b.sndNxt + UInt32.ofNat b.pendingLen
      sndMax := b.sndNxt + UInt32.ofNat b.pendingLen
      finSent := b.finSent || b.pendingIsFin } := by
  have hafter : sequenceAfter (b.sndNxt + UInt32.ofNat b.pendingLen) b.sndMax := by
    have := (signedPos_seqAt b.sndNxt (m := b.pendingLen) (n := 0) (by omega) (by omega)).2 hpos
    rw [seqAt_zero, seqAt] at this
    rw [sequenceAfter, hmax, decide_eq_true_eq]
    exact this
  rw [takePending, hafter]
  rfl

/-- A pending segment of new data joins those outstanding, as `record`: in
    flight, or as the probe. -/
theorem takePending_carries (h : Carries copied isn limit fin stream u b.toSendQueues)
    (hnext : TakesNext b.toSendQueues b.toPendingSegment r)
    (hdata : data.length = r.payload.length ∧ (copied → data = r.payload)) (record : SendRecord)
    {records : List SendRecord} {probe : Option SendRecord} {bytes sequence : ℕ}
    (hrecord : record.span = ⟨b.sndNxt, b.pendingLen, data⟩)
    (hspans : records ++ probe.toList = b.retransmitQueue ++ [record])
    (halone : probe = none ∨ records = []) (hflight : sequence = (records.map logicalLength).sum) :
    Carries copied isn limit fin stream u (takePending { b with
      retransmitQueue := records
      persistProbe := probe
      inFlightBytes := bytes
      inFlightSequence := sequence }).toSendQueues := by
  have htake := h.take hnext hdata bytes hrecord hspans halone hflight rfl
  rw [← hnext.pendingIsFin, ← pendingPayloadLength_eq hnext] at htake
  refine (congrArg (Carries copied isn limit fin stream u)
    (takePending_toSendQueues ?_ ?_ ?_)).mpr htake
  · exact h.max
  · exact hnext.pos
  · exact hnext.lt

/-- The first record in flight may change, as long as it holds the same part of the stream. -/
theorem head_carries (h : Carries copied isn limit fin stream u b.toSendQueues)
    {record : SendRecord} {records : List SendRecord} (hq : b.retransmitQueue = record :: records)
    (record' : SendRecord) (hspan : record'.span = record.span) :
    Carries copied isn limit fin stream u
      { b.toSendQueues with retransmitQueue := record' :: records } := by
  have hlength : record'.logicalLength = record.logicalLength := congrArg Span.length hspan
  refine h.of_spans b.inFlightBytes ?_ ?_ ?_
  · simp [SendQueues.spans, hq, hspan]
  · exact h.alone.imp_right fun hnil => by rw [hq] at hnil; cases hnil
  · rw [h.inFlight, hq, map_cons, map_cons, hlength]

variable [CongestionController κ]

/-- What is stored for the segment that `nextSegment` chose keeps the stream. -/
theorem Stores.carries {b' : TcpSendBuffer κ} {w : UInt32} {kind : PendingKind}
    (hstores : Stores b owner offset n kind b')
    (h : Carries copied isn limit fin stream u b.toSendQueues)
    (hc : Choice b.toSendQueues w usable b.toPendingSegment r) (hown : copied → Owns owner offset r) :
    Carries copied isn limit fin stream u b'.toSendQueues := by
  cases hstores with
  | refused => exact h
  | @newData data hk hdata =>
    have hnext := hc.takesNext (.inl hk)
    have hspan : (b.newRecord data n).span = ⟨b.sndNxt, b.pendingLen, data⟩ :=
      pendingRecord_span (n := n) hnext data
    have hlength : (b.newRecord data n).logicalLength = b.pendingLen := congrArg Span.length hspan
    refine takePending_carries h hnext (retained_spec hnext hown hdata) _ hspan ?_
      (.inl hnext.noProbe) ?_
    · rw [hnext.noProbe, Option.toList_none, append_nil]
    · rw [map_append, sum_append, ← h.inFlight]
      simp [hlength]
  | @persistNew data hk hdata =>
    have hnext := hc.takesNext (.inr hk)
    have hempty := hc.retransmitQueue_eq_nil hk
    have hspan := pendingRecord_span (n := n) hnext data
    refine takePending_carries h hnext (retained_spec hnext hown hdata)
      { b.pendingRecord data n with retransmitted := true }
      hspan ?_ (.inr hempty) h.inFlight
    rw [hempty]
    rfl
  | persistPromote _ hp =>
    refine h.of_spans _ ?_ (.inl rfl) ?_
    · simp [SendQueues.spans, hp, SendRecord.span]
    · rw [map_append, sum_append, ← h.inFlight]
      simp
  | persistRetry _ hp =>
    refine h.of_spans b.inFlightBytes ?_ ?_ h.inFlight
    · simp [SendQueues.spans, hp, SendRecord.span]
    · exact h.alone.imp_left fun hnone => by rw [hp] at hnone; cases hnone
  | persistExisting _ hq | rtoRetransmit _ hq | fastRetransmit _ hq => exact head_carries h hq _ rfl

/-- After `commit`, `onSent` touches timers only. -/
theorem onSent_sameStream (b : TcpSendBuffer κ) (owner : Option Bytes) (offset n : ℕ) :
    SameStream (b.onSent owner offset n) (b.commit owner offset n).1 := by
  by_cases hk : b.pendingKind = .none
  · have hsent : b.onSent owner offset n = b := if_pos hk
    rw [hsent, commit, hk]
    exact ⟨rfl, rfl, rfl⟩
  · rw [onSent_eq owner offset n hk]
    exact (finishSent_keeps ..).1

/-- Committing the segment `nextSegment` chose keeps the stream. -/
theorem onSent_carries {w : UInt32} (h : Carries copied isn limit fin stream u b.toSendQueues)
    (hc : Choice b.toSendQueues w usable b.toPendingSegment r) (hown : copied → Owns owner offset r) :
    (b.onSent owner offset n).closed ∨
      Carries copied isn limit fin stream u (b.onSent owner offset n).toSendQueues := by
  have hsame := (onSent_sameStream b owner offset n).queues
  have hclosed : (b.onSent owner offset n).closed = (b.commit owner offset n).1.closed :=
    congrArg SendQueues.closed hsame
  rw [hclosed, hsame]
  obtain ⟨b', hstores, ⟨htimers, -⟩ | ⟨-, b'', -, hclose⟩⟩ := commit_stored b owner offset n
  · rw [htimers.queues]
    exact .inr (hstores.carries h hc hown)
  · rw [hclose]
    exact .inl rfl

/-! ## Acknowledgments -/

/-- Between `w` and `w'`, the walk has acknowledged `x` sequence numbers from position `p` on. -/
structure Walked (stream : Bytes) (p x : ℕ) (w w' : AckWalk) : Prop where
  remaining : w'.remaining = w.remaining - x
  retransmitBytes : w'.retransmitBytes = w.retransmitBytes - x
  finAcked : w'.finAcked = true ↔ w.finAcked = true ∨ 0 < x ∧ p + x = stream.length + 1

variable {w : AckWalk} {p : ℕ}

theorem Walked.refl (w : AckWalk) : Walked stream p 0 w w := ⟨rfl, rfl, by simp⟩

theorem Walked.trans {x y : ℕ} {w' w'' : AckWalk} (h : Walked stream p x w w')
    (h' : Walked stream (p + x) y w' w'') (hle : p + (x + y) ≤ stream.length + 1) :
    Walked stream p (x + y) w w'' where
  remaining := by rw [h'.remaining, h.remaining, Nat.sub_sub]
  retransmitBytes := by rw [h'.retransmitBytes, h.retransmitBytes, Nat.sub_sub]
  finAcked := by
    rw [h'.finAcked, h.finAcked, or_assoc]
    refine or_congr_right ?_
    omega

/-- One record, acknowledged as a whole. -/
theorem walked_finish {r : SendRecord} (w : AckWalk) (hat : r.span.At copied isn stream p) :
    Walked stream p r.logicalLength w ((w.visit r r.logicalLength).finish r n) where
  remaining := rfl
  retransmitBytes := rfl
  finAcked := hat.carriesFin_or_iff w.finAcked

/-- One record, acknowledged in part. -/
theorem walked_trim {x : ℕ} {r : SendRecord} (w : AckWalk) (hat : r.span.At copied isn stream p)
    (hx : x < r.logicalLength) : Walked stream p x w ((w.visit r x).trim r x) where
  remaining := rfl
  retransmitBytes := rfl
  finAcked := by
    have hle : p + x ≤ stream.length := hat.lt_fin hx
    show w.finAcked = true ↔ _
    rw [iff_self_or]
    omega

/-- An acknowledgment of `w.remaining` places, no more than there are records
    for, leaves the records from its end on. -/
theorem ackRecords_spec {q : ℕ} {rs : List SendRecord}
    (h : Tiles (Span.At copied isn stream) Span.length p (rs.map span) q)
    (hle : p + w.remaining ≤ q) (hq : q ≤ stream.length + 1) :
    Walked stream p w.remaining w (ackRecords n w rs).1 ∧
      (ackRecords n w rs).1.inFlightSequence = w.inFlightSequence - w.remaining ∧
      Tiles (Span.At copied isn stream) Span.length (p + w.remaining)
        ((ackRecords n w rs).2.map span) q := by
  induction rs generalizing p w with
  | nil =>
    have hpq : p = q := h.eq_of_nil
    have hzero : w.remaining = 0 := by omega
    rw [ackRecords, hzero]
    exact ⟨.refl w, rfl, h⟩
  | cons r rs ih =>
    rw [ackRecords]
    split
    case isTrue hzero =>
      rw [hzero]
      exact ⟨.refl w, rfl, h⟩
    case isFalse hzero =>
      obtain ⟨hat, htail⟩ : r.span.At copied isn stream p ∧
          Tiles (Span.At copied isn stream) Span.length (p + r.logicalLength)
            (rs.map span) q := by
        cases h with
        | cons hat htail => exact ⟨hat, htail⟩
      dsimp only
      split
      case isTrue htake =>
        -- the record is acknowledged as a whole; the rest by induction
        rw [htake]
        let w' := (w.visit r r.logicalLength).finish r n
        have hrem : w'.remaining = w.remaining - r.logicalLength := rfl
        have hsum : r.logicalLength + w'.remaining = w.remaining := by omega
        obtain ⟨hw, hflight, htiles⟩ := ih (w := w') htail (by omega)
        refine ⟨?_, ?_, ?_⟩
        · have := (walked_finish w hat).trans hw (by omega)
          rwa [hsum] at this
        · rw [hflight, show w'.inFlightSequence = w.inFlightSequence - r.logicalLength from rfl,
            Nat.sub_sub, hsum]
        · rwa [add_assoc, hsum] at htiles
      case isFalse htake =>
        have hlt : w.remaining < r.logicalLength := by omega
        rw [min_eq_left hlt.le]
        refine ⟨walked_trim w hat hlt, rfl, ?_⟩
        refine .cons (hat.drop hlt) ?_
        have : p + w.remaining + (r.logicalLength - w.remaining) = p + r.logicalLength := by omega
        exact this ▸ htail

/-- The same for the probe, which is not counted as in flight. -/
theorem ackProbe_spec {q : ℕ} {probe : Option SendRecord}
    (h : Tiles (Span.At copied isn stream) Span.length p (probe.toList.map span) q)
    (hle : p + w.remaining ≤ q) :
    Walked stream p w.remaining w (ackProbe w probe).1 ∧
      (ackProbe w probe).1.inFlightSequence = w.inFlightSequence ∧
      Tiles (Span.At copied isn stream) Span.length (p + w.remaining)
        ((ackProbe w probe).2.toList.map span) q := by
  cases probe with
  | none =>
    have hpq : p = q := h.eq_of_nil
    have hzero : w.remaining = 0 := by omega
    rw [ackProbe, hzero]
    exact ⟨.refl w, rfl, h⟩
  | some r =>
    rw [ackProbe]
    split
    case isTrue hzero =>
      rw [hzero]
      exact ⟨.refl w, rfl, h⟩
    case isFalse hzero =>
      obtain ⟨hat, rfl⟩ : r.span.At copied isn stream p ∧ p + r.logicalLength = q := by
        cases h with
        | cons hat htail => exact ⟨hat, htail.eq_of_nil⟩
      have hlen : w.remaining ≤ r.logicalLength := by omega
      have hmin : min w.remaining r.logicalLength = w.remaining := min_eq_left hlen
      dsimp only
      rw [hmin]
      split
      case isTrue hall =>
        refine ⟨⟨rfl, rfl, ?_⟩, rfl, ?_⟩
        · rw [hall]
          exact hat.carriesFin_or_iff w.finAcked
        · rw [hall]
          exact .nil _
      case isFalse hpart =>
        have hlt : w.remaining < r.logicalLength := by omega
        refine ⟨⟨rfl, rfl, ?_⟩, rfl, ?_⟩
        · have hle : p + w.remaining ≤ stream.length := hat.lt_fin hlt
          show w.finAcked = true ↔ _
          rw [iff_self_or]
          omega
        · refine .cons (hat.drop hlt) ?_
          show Tiles _ _ (p + w.remaining + (r.logicalLength - w.remaining)) [] _
          rw [show p + w.remaining + (r.logicalLength - w.remaining) = p + r.logicalLength by omega]
          exact .nil _

theorem onNewAck_toSendQueues (b : TcpSendBuffer κ) (a w : UInt32) (n : ℕ) :
    (b.onNewAck a w n).1.toSendQueues = (b.acknowledge a w n).toSendQueues :=
  (rearm_sameStream ..).queues.trans
    ((feedController_toSendQueues ..).trans (sampleRtt_timersOnly ..).queues)

/-- An acknowledgment keeps the queues, or moves `sndUna` within what is outstanding. -/
theorem onAck_cases (b : TcpSendBuffer κ) (a w : UInt32) (n : ℕ) (ackOnly ece : Bool) :
    ((sequenceAfter a b.sndMax ∨ sequenceBefore a b.sndUna ∨ a = b.sndUna) ∧
        (b.onAck a w n ackOnly ece).1.toSendQueues = b.toSendQueues) ∨
      sequenceAfter a b.sndMax = false ∧ sequenceBefore a b.sndUna = false ∧
        (b.onAck a w n ackOnly ece).1.toSendQueues = (b.acknowledge a w n).toSendQueues := by
  unfold onAck
  split
  case isTrue hafter => exact .inl ⟨.inl hafter, rfl⟩
  case isFalse hafter =>
    split
    case isTrue hbefore => exact .inl ⟨.inr (.inl hbefore), rfl⟩
    case isFalse hbefore =>
      dsimp only
      split
      case isTrue hsame =>
        refine .inl ⟨.inr (.inr (hsame.trans ?_)), ?_⟩
        · exact congrArg SendQueues.sndUna (onEce_toSendQueues b ece)
        · rw [onDuplicateAck_toSendQueues, onEce_toSendQueues]
      case isFalse =>
        refine .inr ⟨by simpa using hafter, by simpa using hbefore, ?_⟩
        rw [onNewAck_toSendQueues]
        unfold onEce
        split <;> rfl

omit [CongestionController κ] in
theorem walk_eq (b : TcpSendBuffer κ) (a : UInt32) (n : ℕ) :
    b.walk a n =
      ((ackProbe (ackRecords n (b.startWalk a) b.retransmitQueue).1 b.persistProbe).1,
        (ackRecords n (b.startWalk a) b.retransmitQueue).2,
        (ackProbe (ackRecords n (b.startWalk a) b.retransmitQueue).1 b.persistProbe).2) := rfl

section

variable (h : Carries copied isn limit fin stream u b.toSendQueues)

include h

omit [CongestionController κ] in
/-- What an acknowledgment within what is outstanding leaves of the records. -/
theorem walk_spec {a : UInt32} (hle : (a - b.sndUna).toNat ≤ b.retransmitBytes) :
    Walked stream u (a - b.sndUna).toNat (b.startWalk a) (b.walk a n).1 ∧
      Tiles (Span.At copied isn stream) Span.length (u + (a - b.sndUna).toNat)
        (((b.walk a n).2.1 ++ (b.walk a n).2.2.toList).map span)
        (u + b.retransmitBytes) ∧
      ((b.walk a n).2.2 = none ∨ (b.walk a n).2.1 = []) ∧
      (b.walk a n).1.inFlightSequence =
        ((b.walk a n).2.1.map logicalLength).sum := by
  have htiles := h.tiles
  have hflight := h.inFlight
  have hrem : (b.startWalk a).remaining = (a - b.sndUna).toNat := rfl
  rw [SendQueues.spans] at htiles
  rw [walk_eq]
  rcases h.alone with hp | hq
  · -- everything outstanding is in flight
    have hall := h.inFlight_eq hp
    rw [hp, Option.toList_none, append_nil] at htiles
    rw [hp, ackProbe]
    obtain ⟨hw, hseq, ht⟩ := ackRecords_spec (w := b.startWalk a) (n := n) htiles
      (Nat.add_le_add_left hle u) h.sent_le
    rw [hrem] at hw hseq ht
    have hsum := ht.eq_add_sum
    rw [map_map] at hsum
    change _ = _ + (List.map logicalLength _).sum at hsum
    dsimp only
    rw [Option.toList_none, append_nil]
    refine ⟨hw, ht, .inl rfl, ?_⟩
    rw [hseq, show (b.startWalk a).inFlightSequence = b.inFlightSequence from rfl, hall]
    omega
  · -- only the probe is outstanding
    rw [hq, nil_append] at htiles
    rw [hq, ackRecords]
    obtain ⟨hw, hseq, ht⟩ := ackProbe_spec (w := b.startWalk a) htiles (Nat.add_le_add_left hle u)
    refine ⟨hw, ht, .inr rfl, ?_⟩
    rw [hseq]
    rw [hq] at hflight
    exact hflight

omit [CongestionController κ] in
/-- An acknowledgment within what is outstanding moves the stream on. -/
theorem acknowledge_carries {a w : UInt32} (hle : (a - b.sndUna).toNat ≤ b.retransmitBytes) :
    Carries copied isn limit fin stream (u + (a - b.sndUna).toNat)
      (b.acknowledge a w n).toSendQueues := by
  obtain ⟨hw, htiles, halone, hflight⟩ := walk_spec (n := n) h hle
  have hsent := h.sent_le
  have hbytes : (b.walk a n).1.retransmitBytes = b.retransmitBytes - (a - b.sndUna).toNat :=
    hw.retransmitBytes
  have hend : u + (a - b.sndUna).toNat + (b.walk a n).1.retransmitBytes =
      u + b.retransmitBytes := by omega
  exact
    { una := by
        have := seqAt_unwrap isn u a
        rw [← h.una] at this
        exact this.symm
      nxt := h.nxt.trans (congrArg (seqAt isn) hend.symm)
      max := h.max
      capacity := h.capacity
      requested := h.requested
      room := le_trans (by show (b.walk a n).1.retransmitBytes ≤ _; omega) h.room
      tiles := hend ▸ htiles
      alone := halone
      inFlight := hflight
      unsent := fun hf => hend ▸ h.unsent hf
      ended := fun hf => hend ▸ h.ended hf
      finAcked := by
        have hfin := h.finAcked
        show (b.walk a n).1.finAcked = true ↔ _
        rw [hw.finAcked, show (b.startWalk a).finAcked = b.finAcked from rfl, hfin]
        omega }

/-- Every acknowledgment keeps the stream, from where `sndUna` then is. -/
theorem onAck_carries (a w : UInt32) (ackOnly ece : Bool) :
    Carries copied isn limit fin stream (u + ((b.onAck a w n ackOnly ece).1.sndUna - b.sndUna).toNat)
      (b.onAck a w n ackOnly ece).1.toSendQueues := by
  rcases onAck_cases b a w n ackOnly ece with ⟨-, hsame⟩ | ⟨hafter, hbefore, hqueues⟩
  · rw [hsame]
    simpa using h
  · rw [hqueues]
    refine acknowledge_carries h ?_
    rw [sequenceAfter, decide_eq_false_iff_not, h.max, h.nxt] at hafter
    rw [sequenceBefore, decide_eq_false_iff_not, h.una] at hbefore
    rw [h.una]
    exact le_of_not_signed isn hbefore hafter

end

/-! ## Selective acknowledgments -/

/-- Marking records as selectively acknowledged keeps what they hold. -/
theorem sackRecords_map {β : Type*} (f : SendRecord → β)
    (hf : ∀ r : SendRecord, f { r with sacked := true } = f r) (blocks : List TcpSackBlock)
    (w : SackWalk) (rs : List SendRecord) : (sackRecords blocks w rs).2.map f = rs.map f := by
  induction rs generalizing w with
  | nil => rfl
  | cons _ _ ih =>
    rw [sackRecords]
    split
    · simp [ih]
    · split
      · simp [ih, hf]
      · simp [ih]

theorem onSack_carries (h : Carries copied isn limit fin stream u b.toSendQueues)
    (blocks : List TcpSackBlock) :
    Carries copied isn limit fin stream u (b.onSack blocks).1.toSendQueues := by
  unfold onSack
  split
  case isTrue => exact h
  case isFalse =>
    let w := sackRecords blocks
      { sackedBytes := b.sackedBytes, sackedSequence := b.sackedSequence } b.retransmitQueue
    have hmarked : Carries copied isn limit fin stream u { b.toSendQueues with
        retransmitQueue := w.2
        sackedBytes := w.1.sackedBytes
        sackedSequence := w.1.sackedSequence } := by
      refine { h with tiles := ?_, alone := ?_, inFlight := ?_ }
      · show Tiles _ _ u ((w.2 ++ b.persistProbe.toList).map SendRecord.span) _
        rw [map_append, sackRecords_map SendRecord.span (fun _ => rfl), ← map_append]
        exact h.tiles
      · refine h.alone.imp_right fun hq => ?_
        show w.2 = []
        simp only [w, hq, sackRecords]
      · rw [sackRecords_map SendRecord.logicalLength (fun _ => rfl)]
        exact h.inFlight
    dsimp only
    split <;> exact hmarked

end TcpSendBuffer

end Netstack2
