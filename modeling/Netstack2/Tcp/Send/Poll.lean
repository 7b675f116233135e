import Netstack2.Tcp.Send.Frame

/-!
# One transmission, case by case

What `nextSegment` and `onSent` do, said once for all the results on the stream, the accounts, the
timers, the retransmissions and the samples:

* `nextSegment` first brings the timers up to date (`polled`), and then closes the buffer or picks a
  segment: `Pick` lists the eight kinds of segment, each with what must be the case for it to be
  picked (`nextSegment_pick`). The `Choice` between what is sent again and what comes next follows
  from it (`nextSegment_choice`);
* `onSent` commits the segment to the queues, by its kind: `Stores` lists what becomes of them
  (`commit_stored`). Then it schedules the next probe and counts a CWR as sent (`onSent_eq`).
-/

namespace Netstack2

open List

open CongestionController

namespace TcpSendBuffer

variable {κ : Type} [CongestionController κ]

/-! ## The segment to send -/

/-- The buffer with the peer window noted, and with the CWR that the next segment carries. -/
def noted (b : TcpSendBuffer κ) (w : UInt32) : TcpSendBuffer κ :=
  let b := if b.peerWindowValid then b else { b with lastPeerWindow := w, peerWindowValid := true }
  { b with pendingSetCwr := b.ecnCwrQueued }

/-- The timers as `nextSegment` leaves them: the persist timer runs at a closed window,
    and the retransmission timer at an open one. -/
def polled (b : TcpSendBuffer κ) (w : UInt32) (n : ℕ) : TcpSendBuffer κ :=
  if w = 0 then { b.noted w with rtoRunning := false, rtoDeadlineMs := 0 }.armPersistTimer n
  else
    let b := (b.noted w).cancelPersist
    if b.persistProbe.isNone && !b.retransmitQueue.isEmpty && !b.rtoRunning then b.armRto n else b

/-- The segments `nextSegment` may pick at the peer window `w` and the time `n`, when the timers of
    `b` are up to date: what becomes pending, and the result that is returned. -/
inductive Pick (b : TcpSendBuffer κ) (w : UInt32) (n : ℕ) :
    PendingSegment → TcpSendNextResult → Prop
  | idle : Pick b w n b.toPendingSegment { setCwr := b.pendingSetCwr }
  | persistRetry {probe : SendRecord} :
    w = 0 → b.persistProbe = some probe → b.persistProbeCount < b.maxPersistProbes →
    Pick b w n
      { b.toPendingSegment with
        pendingKind := .persistRetry
        pendingSeq := probe.seq
        pendingLen := probe.logicalLength
        pendingIsFin := probe.carriesFin }
      { setCwr := b.pendingSetCwr
        hasSegment := true
        isRetransmission := true
        isZeroWindowProbe := true
        isFin := probe.carriesFin
        payload := probe.data
        sequence := probe.seq }
  | persistExisting {record : SendRecord} {records : List SendRecord} {isFin : Bool} :
    w = 0 → b.persistProbe = none → b.retransmitQueue = record :: records →
    b.persistProbeCount < b.maxPersistProbes →
    isFin = ((record.data.take 1).isEmpty && record.carriesFin) →
    Pick b w n
      { b.toPendingSegment with
        pendingKind := .persistExisting
        pendingSeq := record.seq
        pendingLen := (record.data.take 1).length + (if isFin then 1 else 0)
        pendingIsFin := isFin }
      { setCwr := b.pendingSetCwr
        hasSegment := true
        isRetransmission := true
        isZeroWindowProbe := true
        isFin := isFin
        payload := record.data.take 1
        sequence := record.seq }
  | persistData :
    w = 0 → b.persistProbe = none → b.retransmitQueue = [] →
    b.persistProbeCount < b.maxPersistProbes → b.retransmitBytes < b.retransmitLimit →
    b.sendQueue ≠ [] →
    Pick b w n
      { b.toPendingSegment with
        pendingKind := .persistNew, pendingSeq := b.sndNxt, pendingLen := 1 }
      { setCwr := b.pendingSetCwr
        hasSegment := true
        isZeroWindowProbe := true
        payload := b.sendQueue.take 1
        sequence := b.sndNxt }
  | persistFin :
    w = 0 → b.persistProbe = none → b.retransmitQueue = [] →
    b.persistProbeCount < b.maxPersistProbes → b.retransmitBytes < b.retransmitLimit →
    b.sendQueue = [] → b.finRequested = true → b.finSent = false →
    Pick b w n
      { b.toPendingSegment with
        pendingKind := .persistNew, pendingIsFin := true, pendingSeq := b.sndNxt, pendingLen := 1 }
      { setCwr := b.pendingSetCwr
        hasSegment := true
        isZeroWindowProbe := true
        isFin := true
        sequence := b.sndNxt }
  | persistPromote {probe : SendRecord} :
    w ≠ 0 → b.persistProbe = some probe → probe.logicalLength ≤ b.usableWindow w →
    Pick b w n
      { b.toPendingSegment with
        pendingKind := .persistPromote
        pendingSeq := probe.seq
        pendingLen := probe.logicalLength
        pendingIsFin := probe.carriesFin }
      { setCwr := b.pendingSetCwr
        hasSegment := true
        isRetransmission := true
        isFin := probe.carriesFin
        payload := probe.data
        sequence := probe.seq }
  | retransmit {record : SendRecord} {records : List SendRecord} {kind : PendingKind}
      {length : ℕ} {isFin : Bool} :
    w ≠ 0 → b.persistProbe = none → b.retransmitQueue = record :: records →
    (kind = .fastRetransmit ∧ b.fastRetransmitPending = true ∨
      kind = .rtoRetransmit ∧ b.fastRetransmitPending = false ∧ b.retransmitExpired n = true) →
    length = min record.data.length (min b.mss.toNat w.toNat) →
    isFin = (record.carriesFin && length == record.data.length && decide (length < w.toNat)) →
    Pick b w n
      { b.toPendingSegment with
        pendingKind := kind
        pendingSeq := record.seq
        pendingLen := length + (if isFin then 1 else 0)
        pendingIsFin := isFin }
      { setCwr := b.pendingSetCwr
        hasSegment := true
        isRetransmission := true
        isFin := isFin
        payload := record.data.take length
        sequence := record.seq }
  | newData :
    w ≠ 0 → b.persistProbe = none → b.canSendNew w = true →
    ¬(b.nextSendTimeMs ≠ 0 ∧ n < b.nextSendTimeMs) →
    ¬(b.newPayloadLength w = 0 ∧ b.newIncludesFin w = false) →
    Pick b w n
      { b.toPendingSegment with
        pendingKind := .newData
        pendingIsFin := b.newIncludesFin w
        pendingSeq := b.sndNxt
        pendingLen := b.newPayloadLength w + (if b.newIncludesFin w then 1 else 0) }
      { setCwr := b.pendingSetCwr
        hasSegment := true
        isFin := b.newIncludesFin w
        payload := b.sendQueue.take (b.newPayloadLength w)
        sequence := b.sndNxt }

/-- The buffer with the picked segment pending. -/
def Picks (b : TcpSendBuffer κ) (w : UInt32) (n : ℕ) (x : TcpSendBuffer κ × TcpSendNextResult) :
    Prop :=
  ∃ p r, Pick b w n p r ∧ x = ({ b with toPendingSegment := p }, r)

variable {b : TcpSendBuffer κ} {w : UInt32} {n : ℕ}

theorem picks_idle : Picks b w n (b, { setCwr := b.pendingSetCwr }) := ⟨_, _, .idle, rfl⟩

theorem probeSegment_picks (hw : w = 0) (hcount : b.persistProbeCount < b.maxPersistProbes) :
    Picks b w n b.probeSegment := by
  rw [probeSegment]
  split
  case h_1 probe hp => exact ⟨_, _, .persistRetry hw hp hcount, rfl⟩
  case h_2 hp =>
    split
    case h_1 record records hq => exact ⟨_, _, .persistExisting hw hp hq hcount rfl, rfl⟩
    case h_2 hq =>
      split
      case isTrue => exact picks_idle
      case isFalse hroom =>
        rw [ge_iff_le, not_le] at hroom
        split
        case isTrue hne => exact ⟨_, _, .persistData hw hp hq hcount hroom hne, rfl⟩
        case isFalse hempty =>
          rw [ne_eq, not_not] at hempty
          split
          case isTrue hdue =>
            rw [Bool.and_eq_true, Bool.not_eq_true'] at hdue
            exact ⟨_, _, .persistFin hw hp hq hcount hroom hempty hdue.1 hdue.2, rfl⟩
          case isFalse => exact picks_idle

theorem prepareRetransmission_picks {record : SendRecord} {records : List SendRecord}
    {kind : PendingKind} (hw : w ≠ 0) (hp : b.persistProbe = none)
    (hq : b.retransmitQueue = record :: records)
    (hkind : kind = .fastRetransmit ∧ b.fastRetransmitPending ∨
      kind = .rtoRetransmit ∧ b.fastRetransmitPending = false ∧ b.retransmitExpired n) :
    Picks b w n (b.prepareRetransmission record kind w) := by
  rw [prepareRetransmission]
  split
  case isTrue => exact picks_idle
  case isFalse => exact ⟨_, _, .retransmit hw hp hq hkind rfl rfl, rfl⟩

theorem newSegment_picks (hw : w ≠ 0) (hp : b.persistProbe = none) :
    Picks b w n (b.newSegment w n) := by
  rw [newSegment]
  dsimp only
  split
  case isTrue => exact picks_idle
  case isFalse hcan =>
    rw [Bool.not_eq_false] at hcan
    split
    case isTrue => exact picks_idle
    case isFalse hgate =>
      split
      case isTrue => exact picks_idle
      case isFalse hsome => exact ⟨_, _, .newData hw hp hcan hgate hsome, rfl⟩

/-- At a closed window, the buffer closes after too many probes. -/
theorem persistSegment_picks {polled : TcpSendBuffer κ} (hw : w = 0)
    (hpolled : { b with rtoRunning := false, rtoDeadlineMs := 0 }.armPersistTimer n = polled) :
    (polled.maxPersistProbes ≤ polled.persistProbeCount ∧
        b.persistSegment n = (polled.close, { setCwr := polled.pendingSetCwr })) ∨
      Picks polled w n (b.persistSegment n) := by
  rw [persistSegment, hpolled]
  split
  case isTrue => exact .inr picks_idle
  case isFalse =>
    split
    case isTrue hcount => exact .inl ⟨hcount, rfl⟩
    case isFalse hcount => exact .inr (probeSegment_picks hw (Nat.lt_of_not_le hcount))

theorem openSegment_picks {polled : TcpSendBuffer κ} (hw : w ≠ 0)
    (hpolled : (if b.cancelPersist.persistProbe.isNone &&
      !b.cancelPersist.retransmitQueue.isEmpty && !b.cancelPersist.rtoRunning then
      b.cancelPersist.armRto n else b.cancelPersist) = polled) :
    Picks polled w n (b.openSegment w n) := by
  rw [openSegment]
  dsimp only
  split
  case h_1 probe hp =>
    rw [hp, Option.isNone_some, Bool.false_and, Bool.false_and,
      if_neg Bool.false_ne_true] at hpolled
    rw [hpolled] at hp ⊢
    rw [promoteSegment]
    split
    case isTrue => exact picks_idle
    case isFalse hfits => exact ⟨_, _, .persistPromote hw hp (Nat.le_of_not_lt hfits), rfl⟩
  case h_2 hp =>
    rw [hp, Option.isNone_none, Bool.true_and] at hpolled
    have hsame : polled.toSendQueues = b.cancelPersist.toSendQueues := by
      rw [← hpolled]
      split
      · exact (armRto_timersOnly _ n).queues
      · rfl
    have hp' : polled.persistProbe = none := (congrArg SendQueues.persistProbe hsame).trans hp
    rw [hpolled]
    split
    case h_1 record records hq =>
      split
      case isTrue hfast => exact prepareRetransmission_picks hw hp' hq (.inl ⟨rfl, hfast⟩)
      case isFalse hfast =>
        rw [Bool.not_eq_true] at hfast
        split
        case isTrue hexpired =>
          exact prepareRetransmission_picks hw hp' hq (.inr ⟨rfl, hfast, hexpired⟩)
        case isFalse => exact newSegment_picks hw hp'
    case h_2 => exact newSegment_picks hw hp'

/-- An open buffer without a pending segment closes at a closed window, after too many
    probes, or picks a segment. -/
theorem nextSegment_pick (hopen : b.closed = false) (hidle : b.pendingKind = .none) (w : UInt32)
    (n : ℕ) :
    (w = 0 ∧ (b.polled w n).maxPersistProbes ≤ (b.polled w n).persistProbeCount ∧
        b.nextSegment w n = ((b.polled w n).close, { setCwr := (b.polled w n).pendingSetCwr })) ∨
      Picks (b.polled w n) w n (b.nextSegment w n) := by
  have hnot : ¬(b.closed = true ∨ b.pendingKind ≠ .none) := by
    rw [hopen, hidle]
    decide
  have hnext : b.nextSegment w n =
      if w = 0 then (b.noted w).persistSegment n else (b.noted w).openSegment w n := by
    rw [nextSegment, if_neg hnot]
    rfl
  rw [hnext, polled]
  split
  case isTrue hw => exact (persistSegment_picks hw rfl).imp_left fun hclose => ⟨hw, hclose⟩
  case isFalse hw => exact .inr (openSegment_picks hw rfl)

omit [CongestionController κ] in
/-- Before the segment is committed, only the timers change, and the next segment carries the
    CWR that is owed. -/
theorem polled_eq (b : TcpSendBuffer κ) (w : UInt32) (n : ℕ) : ∃ t : SendTimers,
    t.marks = b.marks ∧
      b.polled w n = { b with toSendTimers := t, pendingSetCwr := b.ecnCwrQueued } := by
  have hnoted : ∃ t : SendTimers, t.marks = b.marks ∧
      b.noted w = { b with toSendTimers := t, pendingSetCwr := b.ecnCwrQueued } := by
    rw [noted]
    split <;> exact ⟨_, by rfl, rfl⟩
  obtain ⟨t, ht, hnoted⟩ := hnoted
  simp only [polled, armPersistTimer, armRto, hnoted]
  split_ifs <;> exact ⟨_, by exact ht, rfl⟩

section

omit [CongestionController κ]

variable (b : TcpSendBuffer κ) (n : ℕ) (w : UInt32)

theorem polled_keeps (w : UInt32) (n : ℕ) :
    SameStream (b.polled w n) b ∧ (b.polled w n).sampler = b.sampler := by
  obtain ⟨t, -, heq⟩ := polled_eq b w n
  rw [heq]
  exact ⟨⟨rfl, rfl, rfl⟩, rfl⟩

theorem polled_pending : (b.polled w n).toPendingSegment =
    { b.toPendingSegment with pendingSetCwr := b.ecnCwrQueued } := by
  obtain ⟨t, -, heq⟩ := polled_eq b w n
  rw [heq]

theorem polled_marks : (b.polled w n).marks = b.marks := by
  obtain ⟨t, ht, heq⟩ := polled_eq b w n
  rw [heq]
  exact ht

end

/-- With nothing to send, or a segment pending already, nothing happens. Otherwise the buffer
    closes, or a segment is picked. -/
theorem nextSegment_cases (b : TcpSendBuffer κ) (w : UInt32) (n : ℕ) :
    b.nextSegment w n = (b, {}) ∨
      b.nextSegment w n = ((b.polled w n).close, { setCwr := (b.polled w n).pendingSetCwr }) ∨
      Picks (b.polled w n) w n (b.nextSegment w n) := by
  by_cases hnot : b.closed = true ∨ b.pendingKind ≠ .none
  · exact .inl (if_pos hnot)
  · rw [not_or, Bool.not_eq_true, not_ne_iff] at hnot
    rcases nextSegment_pick hnot.1 hnot.2 w n with ⟨-, -, hclose⟩ | hpicks
    · exact .inr (.inl hclose)
    · exact .inr (.inr hpicks)

/-! ## The choice -/

theorem takesNext_newData (hs : b.ShutsWindow) (hp : b.persistProbe = none)
    (hsome : ¬(b.newPayloadLength w = 0 ∧ b.newIncludesFin w = false)) :
    TakesNext b.toSendQueues
      { b.toPendingSegment with
        pendingKind := .newData
        pendingIsFin := b.newIncludesFin w
        pendingSeq := b.sndNxt
        pendingLen := b.newPayloadLength w + (if b.newIncludesFin w then 1 else 0) }
      { setCwr := b.pendingSetCwr
        hasSegment := true
        isFin := b.newIncludesFin w
        payload := b.sendQueue.take (b.newPayloadLength w)
        sequence := b.sndNxt } := by
  obtain ⟨-, hroom, hqueue, hmss⟩ := newLength_le (w := w) hs
  constructor
  case noProbe => exact hp
  case fresh | sequence | pendingSeq | pendingIsFin => rfl
  case pendingLen => rw [length_take, min_eq_left hqueue]
  case pos =>
    dsimp only
    cases hfin : b.newIncludesFin w
    · simp only [hfin, and_true] at hsome
      omega
    · simp
  case lt =>
    have := b.mss.toNat_lt
    dsimp only
    split <;> omega
  case room => exact hroom
  case payload => exact take_prefix _ _
  case fin =>
    intro hfin
    obtain ⟨hreq, hsent, -, -, hall⟩ := newIncludesFin_spec hs hfin
    exact ⟨hreq, hsent, take_of_length_le (le_of_eq hall.symm)⟩

theorem Pick.choice {p : PendingSegment} {r : TcpSendNextResult} (h : Pick b w n p r)
    (hs : b.ShutsWindow) (hk : b.pendingKind = .none) (hf : b.pendingIsFin = false) :
    Choice b.toSendQueues w (b.usableWindow w) p r := by
  cases h with
  | idle => exact .idle hk hf rfl
  | persistRetry _ hp =>
    exact .again (.inr hp) (by simp) nofun rfl rfl (prefix_refl _) fun hfin => ⟨hfin, rfl⟩
  | persistExisting _ _ hq _ hisFin =>
    refine .again (.inl (congrArg List.head? hq)) (by simp) nofun rfl rfl
      ( take_prefix _ _) fun hfin => ?_
    -- the FIN is probed for only when no byte of the record is left
    simp only [hisFin, Bool.and_eq_true, List.isEmpty_iff, List.take_eq_nil_iff, Nat.one_ne_zero,
      false_or] at hfin
    rw [hfin.1]
    exact ⟨hfin.2, rfl⟩
  | persistData hw hp hq _ _ hne =>
    have hlen : (b.sendQueue.take 1).length = 1 := by
      rw [length_take, Nat.min_eq_left (length_pos_iff.2 hne)]
    exact .probe hw rfl hq
      { noProbe := hp, fresh := rfl, sequence := rfl, pendingSeq := rfl, pendingIsFin := hf
        pendingLen := by simp [hlen]
        pos := Nat.one_pos
        lt := Nat.one_le_two_pow
        room := by dsimp only; omega
        payload := take_prefix _ _
        fin := fun h => nomatch h }
  | persistFin hw hp hq _ _ hempty hreq hsent =>
    exact .probe hw rfl hq
      { noProbe := hp, fresh := rfl, sequence := rfl, pendingSeq := rfl, pendingIsFin := rfl
        pendingLen := rfl
        pos := Nat.one_pos
        lt := Nat.one_le_two_pow
        room := by dsimp only; omega
        payload := nil_prefix
        fin := fun _ => ⟨hreq, hsent, hempty.symm⟩ }
  | persistPromote _ hp hfits =>
    exact .again (.inr hp) (by simp) (fun _ => hfits) rfl rfl (prefix_refl _)
      fun hfin => ⟨hfin, rfl⟩
  | retransmit _ _ hq hkind _ hisFin =>
    refine .again (.inl (congrArg List.head? hq)) ?_ ?_ rfl rfl ( take_prefix _ _)
      fun hfin => ?_
    · rcases hkind with ⟨rfl, -⟩ | ⟨rfl, -⟩ <;> simp
    · rcases hkind with ⟨rfl, -⟩ | ⟨rfl, -⟩ <;> exact nofun
    · simp only [hisFin, Bool.and_eq_true, beq_iff_eq] at hfin
      exact ⟨hfin.1.1, take_of_length_le (Nat.le_of_eq hfin.1.2.symm)⟩
  | newData _ hp _ _ hsome => exact .newData rfl (newLength_le hs).1 (takesNext_newData hs hp hsome)

/-- With no segment pending, `nextSegment` closes the buffer or keeps its queues
    and makes a choice within the usable window. -/
theorem nextSegment_choice (w : UInt32) (n : ℕ) (hs : b.ShutsWindow) (hk : b.pendingKind = .none)
    (hf : b.pendingIsFin = false) : Chooses b w (b.usableWindow w) (b.nextSegment w n) := by
  have hsame := (polled_keeps b w n).1
  have hpending := polled_pending b n w
  rcases nextSegment_cases b w n with hnext | hnext | ⟨p, r, hpick, hnext⟩
  · rw [hnext]
    exact .inr ⟨⟨rfl, rfl, rfl⟩, .idle hk hf rfl⟩
  · rw [hnext]
    exact .inl ⟨rfl, rfl, rfl⟩
  · rw [hnext, ← hsame.usableWindow]
    refine .of_sameStream hsame (.inr ⟨⟨rfl, rfl, rfl⟩, hpick.choice (hsame.shutsWindow hs) ?_ ?_⟩)
    · exact (congrArg PendingSegment.pendingKind hpending).trans hk
    · exact (congrArg PendingSegment.pendingIsFin hpending).trans hf

/-! ## Committing the segment -/

/-- The kind of the pending segment, if the buffer can account for it. -/
def committed (b : TcpSendBuffer κ) (owner : Option Bytes) (offset m : ℕ) : PendingKind :=
  if (b.commit owner offset m).2 then b.pendingKind else .none

/-- What committing the pending segment stores, timers apart. -/
inductive Stores (b : TcpSendBuffer κ) (owner : Option Bytes) (offset m : ℕ) :
    PendingKind → TcpSendBuffer κ → Prop
  /-- There is no segment, or it cannot be accounted for. -/
  | refused : Stores b owner offset m .none b
  | newData {data : Bytes} :
    b.pendingKind = .newData → b.retained owner offset = some data →
    Stores b owner offset m .newData (takePending { b with
      retransmitQueue := b.retransmitQueue ++ [b.newRecord data m]
      inFlightBytes := b.inFlightBytes + b.pendingPayloadLength
      inFlightSequence := b.inFlightSequence + b.pendingLen })
  | persistNew {data : Bytes} :
    b.pendingKind = .persistNew → b.retained owner offset = some data →
    Stores b owner offset m .persistNew (takePending { b with
      persistProbe := some { b.pendingRecord data m with retransmitted := true } })
  | persistPromote {probe : SendRecord} :
    b.pendingKind = .persistPromote → b.persistProbe = some probe →
    Stores b owner offset m .persistPromote { b with
      persistProbe := none
      inFlightBytes := b.inFlightBytes + probe.data.length
      inFlightSequence := b.inFlightSequence + probe.logicalLength
      retransmitQueue :=
        b.retransmitQueue ++ [{ probe with sentTimeMs := m, retransmitted := true }] }
  | persistRetry {probe : SendRecord} :
    b.pendingKind = .persistRetry → b.persistProbe = some probe →
    Stores b owner offset m .persistRetry { b with persistProbe := some { probe with retransmitted := true } }
  | persistExisting {record : SendRecord} {records : List SendRecord} :
    b.pendingKind = .persistExisting → b.retransmitQueue = record :: records →
    Stores b owner offset m .persistExisting
      { b with retransmitQueue := { record with retransmitted := true } :: records }
  | rtoRetransmit {record : SendRecord} {records : List SendRecord} :
    b.pendingKind = .rtoRetransmit → b.retransmitQueue = record :: records →
    Stores b owner offset m .rtoRetransmit { b with
      retransmitQueue :=
        { record with
          retransmitted := true, sentTimeMs := m, rtoAttempts := record.rtoAttempts + 1 } :: records
      controller := onRto (b.rtoEntry (record.rtoAttempts == 0))
      fastRetransmitPending := false }
  | fastRetransmit {record : SendRecord} {records : List SendRecord} :
    b.pendingKind = .fastRetransmit → b.retransmitQueue = record :: records →
    Stores b owner offset m .fastRetransmit { b with
      retransmitQueue :=
        { record with
          retransmitted := true
          sentTimeMs := m
          delivery := { record.delivery with retransmitted := true } } :: records
      fastRetransmitPending := false }

/-- The outcome of a commit: the segment is stored, and timers are set. After too many
    timeouts, the buffer closes then. -/
def Stored (b : TcpSendBuffer κ) (owner : Option Bytes) (offset m : ℕ)
    (kind : PendingKind) (x : TcpSendBuffer κ) : Prop :=
  ∃ b', Stores b owner offset m kind b' ∧
    (TimersOnly x b' ∧ (kind = .rtoRetransmit →
        ∀ r ∈ b.retransmitQueue.head?, r.rtoAttempts + 1 < b.maxRetransmissions) ∨
      b.retransmitQueue ≠ [] ∧ ∃ b'', TimersOnly b'' b' ∧ x = b''.close)

section

variable {owner : Option Bytes} {offset m : ℕ}

theorem stored_refused : Stored b owner offset m .none b :=
  ⟨b, .refused, .inl ⟨b.timersOnly_of_marks rfl, nofun⟩⟩

theorem Stores.stored {b' x : TcpSendBuffer κ} {kind : PendingKind}
    (h : Stores b owner offset m kind b') (hkind : kind ≠ .rtoRetransmit) (hx : TimersOnly x b') :
    Stored b owner offset m kind x :=
  ⟨b', h, .inl ⟨hx, fun heq => absurd heq hkind⟩⟩

theorem storeNewRecord_stored (hk : b.pendingKind = .newData) :
    Stored b owner offset m (if (b.storeNewRecord owner offset m).2 then .newData else .none)
      (b.storeNewRecord owner offset m).1 := by
  rw [storeNewRecord]
  split
  case h_1 => exact stored_refused
  case h_2 hdata => exact Stores.stored (.newData hk hdata) nofun (afterNewRecord_timersOnly _ m)

theorem storeProbe_stored (hk : b.pendingKind = .persistNew) :
    Stored b owner offset m (if (b.storeProbe owner offset m).2 then .persistNew else .none)
      (b.storeProbe owner offset m).1 := by
  rw [storeProbe]
  split
  case h_1 => exact stored_refused
  case h_2 hdata => exact Stores.stored (.persistNew hk hdata) nofun ⟨⟨rfl, rfl, rfl⟩, rfl, rfl⟩

theorem promoteProbe_stored (hk : b.pendingKind = .persistPromote) :
    Stored b owner offset m (if (b.promoteProbe m).2 then .persistPromote else .none)
      (b.promoteProbe m).1 := by
  rw [promoteProbe]
  split
  case h_1 => exact stored_refused
  case h_2 hp => exact Stores.stored (.persistPromote hk hp) nofun (armRto_timersOnly _ m)

theorem commitRto_stored (hk : b.pendingKind = .rtoRetransmit) :
    Stored b owner offset m (if (b.commitRto m).2 then .rtoRetransmit else .none)
      (b.commitRto m).1 := by
  rw [commitRto]
  split
  case h_1 => exact stored_refused
  case h_2 record records hq =>
    have htimers (x : TcpSendBuffer κ) : TimersOnly (x.backoffRto.armRto m) x :=
      (armRto_timersOnly _ m).trans (backoffRto_timersOnly x)
    refine ⟨_, .rtoRetransmit hk hq, ?_⟩
    dsimp only
    split
    case isTrue =>
      refine .inr ⟨by simp [hq], _, ?_, rfl⟩
      exact (htimers _).trans ⟨⟨rfl, rfl, rfl⟩, rfl, rfl⟩
    case isFalse hretry =>
      refine .inl ⟨(htimers _).trans ⟨⟨rfl, rfl, rfl⟩, rfl, rfl⟩, fun _ => ?_⟩
      have hlt := (Nat.lt_of_not_le hretry).trans_eq
        (congrArg Marks.maxRetransmissions (htimers _).marks)
      simpa [hq, SendTimers.marks] using hlt

theorem commitFast_stored (hk : b.pendingKind = .fastRetransmit) :
    Stored b owner offset m (if (b.commitFast m).2 then .fastRetransmit else .none)
      (b.commitFast m).1 := by
  rw [commitFast]
  split
  case h_1 => exact stored_refused
  case h_2 hq =>
    refine Stores.stored (.fastRetransmit hk hq) nofun ?_
    dsimp only
    exact (armRto_timersOnly _ m).trans ⟨⟨rfl, rfl, rfl⟩, rfl, rfl⟩

theorem commit_stored (b : TcpSendBuffer κ) (owner : Option Bytes) (offset m : ℕ) :
    Stored b owner offset m (b.committed owner offset m) (b.commit owner offset m).1 := by
  rw [committed, commit]
  cases hk : b.pendingKind with
  | none => exact stored_refused
  | newData => exact storeNewRecord_stored hk
  | persistNew => exact storeProbe_stored hk
  | persistPromote => exact promoteProbe_stored hk
  | rtoRetransmit => exact commitRto_stored hk
  | fastRetransmit => exact commitFast_stored hk
  | persistRetry =>
    cases hp : b.persistProbe with
    | none =>
      have hsame : { b with persistProbe := none } = b := by rw [← hp]
      rw [Option.map_none, hsame]
      exact stored_refused
    | some => exact Stores.stored (.persistRetry hk hp) nofun ⟨⟨rfl, rfl, rfl⟩, rfl, rfl⟩
  | persistExisting =>
    dsimp only
    split
    case h_1 => exact stored_refused
    case h_2 hq => exact Stores.stored (.persistExisting hk hq) nofun ⟨⟨rfl, rfl, rfl⟩, rfl, rfl⟩

end

/-- After a probe, the next one is scheduled; `x` is the outcome of the commit of a segment
    of the kind `kind`. -/
def probed (kind : PendingKind) (m : ℕ) (x : TcpSendBuffer κ × Bool) : TcpSendBuffer κ :=
  if x.2 ∧ (kind = .persistNew ∨ kind = .persistRetry ∨ kind = .persistExisting) then
    { x.1 with persistProbeCount := x.1.persistProbeCount + 1 }.scheduleNextPersist m
  else x.1

/-- What follows the commit: the next probe is scheduled, and a CWR counts as sent. -/
def finishSent (kind : PendingKind) (m : ℕ) (x : TcpSendBuffer κ × Bool) : TcpSendBuffer κ :=
  let b := probed kind m x
  let b := if x.2 && b.pendingSetCwr then { b with ecnCwrQueued := false } else b
  b.resetPending

theorem onSent_eq (owner : Option Bytes) (offset m : ℕ) (hk : b.pendingKind ≠ .none) :
    b.onSent owner offset m = finishSent b.pendingKind m (b.commit owner offset m) := if_neg hk

section

variable (kind : PendingKind) (m : ℕ) (x : TcpSendBuffer κ × Bool)

omit [CongestionController κ]

theorem finishSent_keeps :
    SameStream (finishSent kind m x) x.1 ∧ (finishSent kind m x).sampler = x.1.sampler := by
  rw [finishSent, probed]
  split_ifs <;> exact ⟨⟨rfl, rfl, rfl⟩, rfl⟩

/-- The timers: those of the probes, and the CWR. -/
theorem finishSent_toSendTimers :
    (finishSent kind m x).toSendTimers =
      { (probed kind m x).toSendTimers with
        ecnCwrQueued := x.1.ecnCwrQueued && !(x.2 && x.1.pendingSetCwr) } := by
  have hprobed : (probed kind m x).pendingSetCwr = x.1.pendingSetCwr ∧
      (probed kind m x).ecnCwrQueued = x.1.ecnCwrQueued := by
    rw [probed]
    split <;> exact ⟨rfl, rfl⟩
  rw [finishSent]
  rw [hprobed.1, ← hprobed.2]
  cases x.2 && x.1.pendingSetCwr
  · rw [if_neg Bool.false_ne_true, Bool.not_false, Bool.and_true]
    rfl
  · rw [if_pos rfl, Bool.not_true, Bool.and_false]
    rfl

end

end TcpSendBuffer

end Netstack2
