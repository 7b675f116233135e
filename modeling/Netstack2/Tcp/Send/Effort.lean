import Netstack2.Tcp.Send.Effect
import Netstack2.Tcp.Send.Fin

/-!
# Bounded effort against a silent peer

A peer that has stopped to answer is sent only so many segments. The buffer is polled
again and again at one peer window, and every segment it returns is sent (`poll`).
Each of them lowers the `effort` that is left:

* at a closed window, the probes up to the limit of probes;
* at an open window, the bytes and the FIN that are unsent, the fast retransmission and
  the promotion of the probe that may be due, and the timeouts of the first record up
  to the limit of retransmissions, after which the buffer closes.

The main result is `segments_le`: from every state of every run, the number of segments
is bounded, and once it is reached no poll returns one.
-/

namespace Netstack2

open List

open CongestionController TcpSendBuffer

variable {κ : Type} [CongestionController κ]

/-- The times of a poll, and where the payload is retained. -/
structure Poll where
  nextMs : ℕ
  owner : Option Bytes
  offset : ℕ
  sentMs : ℕ

namespace TcpSendBuffer

/-- The buffer is asked for a segment at the peer window `w`, and what it returns is sent. -/
def poll (w : UInt32) (b : TcpSendBuffer κ) (p : Poll) : TcpSendBuffer κ :=
  let next := b.nextSegment w p.nextMs
  if next.2.hasSegment then next.1.onSent p.owner p.offset p.sentMs else next.1

/-- The owner has room for the payload of a segment of new data at the given offset. -/
def ValidOwner (owner : Option Bytes) (offset : ℕ) (r : TcpSendNextResult) : Prop :=
  r.isRetransmission = true ∨ r.payload = [] ∨
    ∃ bytes, owner = some bytes ∧ offset + r.payload.length ≤ bytes.length

/-- What a poll at the peer window `w` returns is retained by a valid owner. -/
def OwnerValid (w : UInt32) (b : TcpSendBuffer κ) (p : Poll) : Prop :=
  ValidOwner p.owner p.offset (b.nextSegment w p.nextMs).2

/-- The number of segments that the polls return. -/
def segments (w : UInt32) : TcpSendBuffer κ → List Poll → ℕ
  | _, [] => 0
  | b, p :: ps => (b.nextSegment w p.nextMs).2.hasSegment.toNat + segments w (b.poll w p) ps

/-! ## The effort that is left -/

omit [CongestionController κ] in
/-- The timeouts of the first record, up to the limit. -/
def retriesLeft (b : TcpSendBuffer κ) : ℕ :=
  max b.maxRetransmissions 1 - (b.retransmitQueue.head?.map (·.rtoAttempts)).getD 0

/-- How many more segments the buffer sends to a silent peer, at most. -/
def effort (w : UInt32) (b : TcpSendBuffer κ) : ℕ :=
  if b.closed then 0
  else if w = 0 then b.maxPersistProbes - b.persistProbeCount
  else b.sendQueue.length + (b.finRequested && !b.finSent).toNat + b.fastRetransmitPending.toNat +
    b.persistProbe.isSome.toNat + b.retriesLeft

/-- The limits of the retries are the configured ones, and have not been exceeded. -/
structure Limited (config : TcpSendConfig) (b : TcpSendBuffer κ) : Prop where
  retransmissions : b.maxRetransmissions = config.maxRetransmissions
  probes : b.maxPersistProbes = config.maxPersistProbes
  attempts : ∀ o ∈ b.origins, o.1 < max config.maxRetransmissions 1
  probe : b.persistProbe.isSome = true → 0 < config.maxPersistProbes

omit [CongestionController κ] in
/-- What keeps the limits and adds no record keeps within them. -/
theorem Limited.of_marks {config : TcpSendConfig} {b b' : TcpSendBuffer κ} (h : Limited config b)
    (hmax : b'.maxRetransmissions = b.maxRetransmissions)
    (hprobes : b'.maxPersistProbes = b.maxPersistProbes)
    (horigins : ∀ o ∈ b'.origins, o ∈ b.origins)
    (hprobe : b'.persistProbe.isSome → b.persistProbe.isSome) : Limited config b' where
  retransmissions := hmax.trans h.retransmissions
  probes := hprobes.trans h.probes
  attempts o ho := h.attempts o (horigins o ho)
  probe hsome := h.probe (hprobe hsome)

section Effort

variable {w : UInt32} {b b' : TcpSendBuffer κ}

omit [CongestionController κ]

theorem effort_of_closed (h : b.closed) : effort w b = 0 := if_pos h

/-- At an open window, the timers do not matter. -/
theorem effort_congr (hw : w ≠ 0) (hqueues : b'.toSendQueues = b.toSendQueues)
    (hfast : b'.fastRetransmitPending = b.fastRetransmitPending)
    (hmax : b'.maxRetransmissions = b.maxRetransmissions) : effort w b' = effort w b := by
  rw [effort, effort, retriesLeft, retriesLeft, hqueues, hfast, hmax, if_neg hw, if_neg hw]

theorem effort_of_timersOnly (hw : w ≠ 0) (h : TimersOnly b' b) : effort w b' = effort w b :=
  effort_congr hw h.queues (congrArg Marks.fastRetransmitPending h.marks)
    (congrArg Marks.maxRetransmissions h.marks)

/-- At a closed window, only the count of the probes does. -/
theorem effort_closed_window (hw : w = 0) (hopen : b.closed = false) :
    effort w b = b.maxPersistProbes - b.persistProbeCount := by
  rw [effort, hopen, if_neg Bool.false_ne_true, if_pos hw]

theorem effort_open_window (hw : w ≠ 0) (hopen : b.closed = false) :
    effort w b = b.sendQueue.length + (b.finRequested && !b.finSent).toNat +
      b.fastRetransmitPending.toNat + b.persistProbe.isSome.toNat + b.retriesLeft := by
  rw [effort, hopen, if_neg Bool.false_ne_true, if_neg hw]

/-! ### Each segment lowers it -/

theorem effort_promoteProbe (hw : w ≠ 0) (hopen : b.closed = false) {probe : SendRecord}
    (hp : b.persistProbe = some probe) (m : ℕ) : effort w (b.promoteProbe m).1 < effort w b := by
  rw [promoteProbe, hp]
  rw [effort_of_timersOnly hw (armRto_timersOnly _ m)]
  simp only [effort, retriesLeft, hopen, hw, hp, Bool.false_eq_true, if_false]
  -- an empty queue starts with the probe
  cases b.retransmitQueue with
  | nil =>
    simp
    omega
  | cons => simp

theorem effort_commitFast (hw : w ≠ 0) (hopen : b.closed = false) {record : SendRecord}
    {records : List SendRecord} (hq : b.retransmitQueue = record :: records)
    (hfast : b.fastRetransmitPending) (m : ℕ) : effort w (b.commitFast m).1 < effort w b := by
  rw [commitFast, hq]
  rw [effort_of_timersOnly hw (armRto_timersOnly _ m)]
  simp [effort, retriesLeft, hopen, hw, hq, hfast]

/-- The last timeout closes the buffer. -/
theorem effort_commitRto [CongestionController κ] (hw : w ≠ 0) (hopen : b.closed = false)
    {record : SendRecord} {records : List SendRecord} (hq : b.retransmitQueue = record :: records)
    (hlimit : record.rtoAttempts < max b.maxRetransmissions 1) (m : ℕ) :
    effort w (b.commitRto m).1 < effort w b := by
  have hpos : 0 < effort w b := by
    rw [effort_open_window hw hopen, retriesLeft, hq]
    simp only [head?_cons, Option.map_some, Option.getD_some]
    omega
  rw [commitRto, hq]
  dsimp only
  split
  case isTrue => exact (effort_of_closed rfl).trans_lt hpos
  case isFalse =>
    rw [effort_of_timersOnly hw (armRto_timersOnly _ m),
      effort_of_timersOnly hw (backoffRto_timersOnly _)]
    simp only [effort, retriesLeft, hopen, hw, hq, Bool.false_eq_true, if_false, head?_cons,
      Option.map_some, Option.getD_some, Bool.toNat_false]
    omega

theorem effort_storeNewRecord [CongestionController κ] (hw : w ≠ 0) (hopen : b.closed = false)
    {owner : Option Bytes} {offset m : ℕ} {data : Bytes}
    (hdata : b.retained owner offset = some data)
    (hle : b.pendingPayloadLength ≤ b.sendQueue.length)
    (hfin : b.pendingIsFin → b.finRequested ∧ b.finSent = false)
    (hpos : 0 < b.pendingPayloadLength + b.pendingIsFin.toNat) :
    effort w (b.storeNewRecord owner offset m).1 < effort w b := by
  rw [storeNewRecord, hdata]
  rw [effort_of_timersOnly hw (afterNewRecord_timersOnly _ m)]
  rw [pendingPayloadLength] at hle hpos
  simp only [effort, retriesLeft, takePending, pendingPayloadLength, hopen, hw, Bool.false_eq_true,
    if_false, length_drop]
  have hdue : (b.finRequested && !(b.finSent || b.pendingIsFin)).toNat + b.pendingIsFin.toNat ≤
      (b.finRequested && !b.finSent).toNat := by
    cases hpending : b.pendingIsFin with
    | false => simp
    | true => simp [hfin hpending]
  -- a new record is the first only in an empty queue
  have hhead : ((b.retransmitQueue ++ [b.newRecord data m]).head?.map (·.rtoAttempts)).getD 0 =
      (b.retransmitQueue.head?.map (·.rtoAttempts)).getD 0 := by
    cases b.retransmitQueue <;> rfl
  omega

/-- At an open window, what follows the commit does not matter either. -/
theorem effort_onSent [CongestionController κ] (hw : w ≠ 0) (hk : b.pendingKind ≠ .none)
    (owner : Option Bytes) (offset m : ℕ) :
    effort w (b.onSent owner offset m) = effort w (b.commit owner offset m).1 := by
  rw [onSent_eq owner offset m hk]
  have hmarks := finishSent_marks m b.pendingKind (b.commit owner offset m)
  exact effort_congr hw (finishSent_keeps _ m _).1.queues
    (congrArg Marks.fastRetransmitPending hmarks) (congrArg Marks.maxRetransmissions hmarks)

/-- A probe that was sent is counted. -/
theorem effort_onSent_probe [CongestionController κ] (hw : w = 0) (hopen : b.closed = false)
    (hk : b.pendingKind = .persistNew ∨ b.pendingKind = .persistRetry ∨
      b.pendingKind = .persistExisting) (hcount : b.persistProbeCount < b.maxPersistProbes)
    {owner : Option Bytes} {offset m : ℕ} (haccepted : (b.commit owner offset m).2) :
    effort w (b.onSent owner offset m) < effort w b := by
  have hkeeps : (b.commit owner offset m).1.toSendTimers = b.toSendTimers ∧
      (b.commit owner offset m).1.closed = b.closed := by
    rw [commit]
    rcases hk with hk | hk | hk
    · rw [hk]
      dsimp only
      rw [storeProbe]
      split <;> exact ⟨rfl, rfl⟩
    · rw [hk]
      exact ⟨rfl, rfl⟩
    · rw [hk]
      dsimp only
      split <;> exact ⟨rfl, rfl⟩
  have hne : b.pendingKind ≠ .none := by rcases hk with hk | hk | hk <;> rw [hk] <;> simp
  rw [onSent_eq owner offset m hne]
  generalize b.commit owner offset m = x at *
  have hclosed : (finishSent b.pendingKind m x).closed = false := by
    rw [congrArg SendQueues.closed (finishSent_keeps b.pendingKind m x).1.queues, hkeeps.2, hopen]
  rw [effort_closed_window hw hclosed, effort_closed_window hw hopen, finishSent_toSendTimers,
    probed, if_pos ⟨haccepted, hk⟩]
  have hsame : x.1.maxPersistProbes = b.maxPersistProbes ∧
      x.1.persistProbeCount = b.persistProbeCount := by
    rw [hkeeps.1]
    exact ⟨rfl, rfl⟩
  simp only [scheduleNextPersist, hsame]
  omega

end Effort

/-! ### The segment is accepted -/

section Accepted

variable {b : TcpSendBuffer κ} {w : UInt32} {owner : Option Bytes} {offset : ℕ}

omit [CongestionController κ] in
/-- A valid owner of a segment that is new is retained. -/
theorem ValidOwner.exists_retained {r : TcpSendNextResult} (h : ValidOwner owner offset r)
    (hnew : r.isRetransmission = false) (hlength : b.pendingPayloadLength = r.payload.length)
    (hle : b.pendingPayloadLength ≤ b.sendQueue.length)
    (hroom : b.pendingLen ≤ b.retransmitLimit - b.retransmitBytes) :
    ∃ data, b.retained owner offset = some data := by
  rw [retained.eq_def]
  rw [if_neg (by omega)]
  split
  case isTrue => exact ⟨[], rfl⟩
  case isFalse hpos =>
    obtain hretransmission | hempty | ⟨bytes, rfl, hbytes⟩ := h
    · simp [hnew] at hretransmission
    · rw [hempty] at hlength
      exact absurd hlength hpos
    · exact ⟨_, if_neg (by omega)⟩

omit [CongestionController κ] in
theorem storeProbe_accepted (h : ∃ data, b.retained owner offset = some data) (m : ℕ) :
    (b.storeProbe owner offset m).2 := by
  obtain ⟨_, hdata⟩ := h
  rw [storeProbe, hdata]

theorem newPayloadLength_le : b.newPayloadLength w ≤ b.sendQueue.length := min_le_left ..

theorem newIncludesFin_due (h : b.newIncludesFin w) : b.finRequested ∧ b.finSent = false := by
  simp only [newIncludesFin, Bool.and_eq_true, Bool.not_eq_true'] at h
  exact h.1

/-- New data, with or without the FIN, fits the retransmission queue. -/
theorem newSegment_fits :
    b.newPayloadLength w + (b.newIncludesFin w).toNat ≤ b.retransmitLimit - b.retransmitBytes := by
  have hle : b.newPayloadLength w ≤ b.retransmitLimit - b.retransmitBytes := by
    rw [newPayloadLength]
    omega
  cases hfin : b.newIncludesFin w with
  | false => exact hle
  | true =>
    simp only [newIncludesFin, Bool.and_eq_true] at hfin
    obtain ⟨-, hfin⟩ := hfin
    rw [Bool.toNat_true]
    split at hfin
    case isTrue =>
      simp only [Bool.and_eq_true, decide_eq_true_eq] at hfin
      exact hfin.2
    case isFalse hzero =>
      simp only [Bool.and_eq_true, bne_iff_ne, ne_eq] at hfin
      omega

end Accepted

/-! ### One poll -/

omit [CongestionController κ] in
theorem effort_polled (b : TcpSendBuffer κ) (w : UInt32) (n : ℕ) :
    effort w (b.polled w n) = effort w b := by
  have hqueues := (polled_keeps b w n).1.queues
  have hmarks := polled_marks b n w
  by_cases hw : w = 0
  · have hcount : (b.polled w n).persistProbeCount = b.persistProbeCount := by
      rw [polled, if_pos hw, armPersistTimer, noted]
      split_ifs <;> rfl
    have hmax : (b.polled w n).maxPersistProbes = b.maxPersistProbes :=
      congrArg Marks.maxPersistProbes hmarks
    rw [effort, effort, hqueues, if_pos hw, if_pos hw, hcount, hmax]
  · exact effort_congr hw hqueues (congrArg Marks.fastRetransmitPending hmarks)
      (congrArg Marks.maxRetransmissions hmarks)

variable {config : TcpSendConfig} {b : TcpSendBuffer κ}

section

variable {w : UInt32} {owner : Option Bytes} {offset : ℕ} {r : TcpSendNextResult}
  (hopen : b.closed = false) (howner : ValidOwner owner offset r)

include hopen howner

/-- A probe of new data, or of the FIN. -/
theorem effort_onSent_persistNew (hw : w = 0) (hkind : b.pendingKind = .persistNew)
    (hcount : b.persistProbeCount < b.maxPersistProbes) (hnew : r.isRetransmission = false)
    (hlength : b.pendingPayloadLength = r.payload.length)
    (hle : b.pendingPayloadLength ≤ b.sendQueue.length) (hone : b.pendingLen = 1)
    (hroom : b.retransmitBytes < b.retransmitLimit) (m : ℕ) :
    effort w (b.onSent owner offset m) < effort w b := by
  refine effort_onSent_probe hw hopen (.inl hkind) hcount ?_
  rw [commit, hkind]
  exact storeProbe_accepted (howner.exists_retained hnew hlength hle (by omega)) m

theorem effort_onSent_newData (hw : w ≠ 0) (hkind : b.pendingKind = .newData)
    (hnew : r.isRetransmission = false) (hlength : b.pendingPayloadLength = r.payload.length)
    (hle : b.pendingPayloadLength ≤ b.sendQueue.length)
    (hroom : b.pendingLen ≤ b.retransmitLimit - b.retransmitBytes)
    (hfin : b.pendingIsFin → b.finRequested ∧ b.finSent = false)
    (hpos : 0 < b.pendingPayloadLength + b.pendingIsFin.toNat) (m : ℕ) :
    effort w (b.onSent owner offset m) < effort w b := by
  obtain ⟨_, hdata⟩ := howner.exists_retained hnew hlength hle hroom
  rw [effort_onSent hw (by simp [hkind]), commit, hkind]
  exact effort_storeNewRecord hw hopen hdata hle hfin hpos

/-- Whatever segment is picked, sending it lowers the effort that is left. -/
theorem Pick.effort_lt {n : ℕ} {p : PendingSegment} (h : Pick b w n p r)
    (hsegment : r.hasSegment = true) (hnofin : b.pendingIsFin = false) (hlimited : Limited config b)
    (m : ℕ) : effort w ({ b with toPendingSegment := p }.onSent owner offset m) < effort w b := by
  -- what is pending does not count
  have hopen' : { b with toPendingSegment := p }.closed = false := hopen
  show _ < effort w { b with toPendingSegment := p }
  cases h with
  | idle => cases hsegment
  | persistRetry hw hp hcount =>
    exact effort_onSent_probe hw hopen' (.inr (.inl rfl)) hcount (by simp [commit, hp])
  | persistExisting hw _ hq hcount =>
    exact effort_onSent_probe hw hopen' (.inr (.inr rfl)) hcount (by simp [commit, hq])
  | persistData hw _ _ hcount hroom hne =>
    have hpos : 1 ≤ b.sendQueue.length := length_pos_iff.2 hne
    refine effort_onSent_persistNew hopen' howner hw rfl hcount rfl ?_ ?_ rfl hroom m
    · simp [pendingPayloadLength, hnofin, hpos]
    · simp [pendingPayloadLength, hnofin, hpos]
  | persistFin hw _ _ hcount hroom =>
    exact effort_onSent_persistNew hopen' howner hw rfl hcount rfl rfl (Nat.zero_le _) rfl hroom m
  | persistPromote hw hp =>
    rw [effort_onSent hw (by simp), commit]
    exact effort_promoteProbe hw hopen' hp m
  | @retransmit record _ _ _ _ hw _ hq hreason =>
    rcases hreason with ⟨rfl, hfast⟩ | ⟨rfl, -, -⟩
    · rw [effort_onSent hw (by simp), commit]
      exact effort_commitFast hw hopen' hq hfast m
    · rw [effort_onSent hw (by simp), commit]
      refine effort_commitRto hw hopen' hq ?_ m
      rw [hlimited.retransmissions]
      exact hlimited.attempts record.origin (by simp [SendQueues.origins, hq])
  | newData hw _ _ _ hsome =>
    have hlength : pendingPayloadLength { b with
        pendingIsFin := b.newIncludesFin w
        pendingLen := b.newPayloadLength w + if b.newIncludesFin w then 1 else 0 } =
        b.newPayloadLength w := Nat.add_sub_cancel ..
    have hle := newPayloadLength_le (b := b) (w := w)
    refine effort_onSent_newData hopen' howner hw rfl rfl (hlength.trans ?_) (hlength.trans_le hle)
      ?_ newIncludesFin_due ?_ m
    · rw [length_take, Nat.min_eq_left hle]
    · refine le_trans (le_of_eq ?_) (newSegment_fits (b := b) (w := w))
      cases b.newIncludesFin w <;> rfl
    · refine lt_of_lt_of_eq ?_ (congrArg (· + (b.newIncludesFin w).toNat) hlength.symm)
      by_contra hzero
      refine hsome ⟨by omega, ?_⟩
      cases h : b.newIncludesFin w with
      | false => rfl
      | true => simp [h] at hzero

end

/-- A poll that returns a segment lowers the effort that is left. -/
theorem poll_effort (hopen : b.closed = false) (hidle : b.pendingKind = .none)
    (hnofin : b.pendingIsFin = false) (hlimited : Limited config b) (w : UInt32) (p : Poll)
    (howner : OwnerValid w b p) :
    effort w (b.poll w p) + (b.nextSegment w p.nextMs).2.hasSegment.toNat ≤ effort w b := by
  rcases nextSegment_pick hopen hidle w p.nextMs with ⟨-, -, hclose⟩ | ⟨pending, r, hpick, hnext⟩
  · have hpoll : b.poll w p = (b.polled w p.nextMs).close := by
      rw [poll, hclose]
      rfl
    rw [hpoll, hclose, effort_of_closed rfl]
    exact Nat.zero_le _
  have hqueues := (polled_keeps b w p.nextMs).1.queues
  have hmarks := polled_marks b p.nextMs w
  rw [← effort_polled b w p.nextMs, poll, hnext]
  rw [OwnerValid, hnext] at howner
  cases hsegment : r.hasSegment with
  | false => exact Nat.le_refl _
  | true =>
    refine Pick.effort_lt ?_ howner hpick hsegment ?_ (hlimited.of_marks
      (congrArg Marks.maxRetransmissions hmarks) (congrArg Marks.maxPersistProbes hmarks) ?_ ?_)
      p.sentMs
    · exact (congrArg SendQueues.closed hqueues).trans hopen
    · exact (congrArg PendingSegment.pendingIsFin (polled_pending b p.nextMs w)).trans hnofin
    · rw [congrArg SendQueues.origins hqueues]
      exact fun o ho => ho
    · rw [congrArg SendQueues.persistProbe hqueues]
      exact id

end TcpSendBuffer

/-! ## The limits are kept -/

namespace PendingKind

/-- A segment that is sent keeps the retries below their limit. -/
theorem origins_limited {limit : ℕ} {d : PacketDeliveryState} {os : List (ℕ × PacketDeliveryState)}
    {kind : PendingKind} (hos : ∀ o ∈ os, o.1 < max limit 1)
    (hretry : kind = .rtoRetransmit → ∀ o ∈ os.head?, o.1 + 1 < limit) :
    ∀ o ∈ kind.origins d os, o.1 < max limit 1 := by
  cases kind with
  | newData | persistNew => simpa [origins, or_imp, forall_and] using hos
  | rtoRetransmit =>
    cases os with
    | nil => exact hos
    | cons o =>
      have hhead := hretry rfl o rfl
      simp only [mem_cons, forall_eq_or_imp] at hos
      have hlt : o.1 + 1 < max limit 1 := lt_of_lt_of_le hhead (le_max_left ..)
      simp only [origins, modifyHead_cons, mem_cons, forall_eq_or_imp]
      exact ⟨hlt, hos.2⟩
  | fastRetransmit =>
    cases os with
    | nil => exact hos
    | cons => simpa [origins] using hos
  | none | persistRetry | persistExisting | persistPromote => exact hos

end PendingKind

namespace TcpSendBuffer

variable {config : TcpSendConfig} {b : TcpSendBuffer κ}

theorem Limited.onAck (h : Limited config b) (a w : UInt32) (n : ℕ) (ackOnly ece : Bool) :
    Limited config (b.onAck a w n ackOnly ece).1 := by
  cases hacceptable : b.acceptable a with
  | false =>
    rw [onAck_of_not_acceptable b a w n ackOnly ece hacceptable]
    exact h
  | true =>
    obtain ⟨_, _, hmarks⟩ := onAck_marks b a w n ackOnly ece hacceptable
    obtain ⟨_, horigins⟩ := b.onAck_origins a w n ackOnly ece
    refine h.of_marks (congrArg Marks.maxRetransmissions hmarks)
      (congrArg Marks.maxPersistProbes hmarks) (fun o ho => ?_) fun hsome => ?_
    · rw [horigins] at ho
      exact mem_of_mem_drop ho
    · rcases onAck_cases b a w n ackOnly ece with ⟨-, hsame⟩ | ⟨-, -, hq⟩
      · rwa [congrArg SendQueues.persistProbe hsame] at hsome
      · -- an acknowledgment makes no probe
        rw [congrArg SendQueues.persistProbe hq] at hsome
        cases hp : b.persistProbe with
        | some => rfl
        | none =>
          rw [show (b.acknowledge a w n).persistProbe = (ackProbe _ b.persistProbe).2 from rfl, hp]
            at hsome
          cases hsome

theorem Limited.onSack (h : Limited config b) (blocks : List TcpSackBlock) :
    Limited config (b.onSack blocks).1 := by
  have hmarks := onSack_marks b blocks
  have hprobe : (b.onSack blocks).1.persistProbe = b.persistProbe := by
    rw [TcpSendBuffer.onSack]
    split
    · rfl
    · dsimp only
      split <;> rfl
  refine h.of_marks (congrArg Marks.maxRetransmissions hmarks)
    (congrArg Marks.maxPersistProbes hmarks) (fun o ho => ?_) (hprobe ▸ id)
  rwa [onSack_origins] at ho

theorem Limited.transmit (h : Limited config b) (hidle : b.pendingKind = .none) (w : UInt32)
    (n : ℕ) (owner : Option Bytes) (offset m : ℕ) :
    ((b.nextSegment w n).1.onSent owner offset m).closed ∨
      Limited config ((b.nextSegment w n).1.onSent owner offset m) := by
  rcases transmit_sends hidle w n owner offset m with ⟨-, hgaveUp⟩ | hsends
  · exact .inl hgaveUp.closed
  obtain ⟨_, horigins⟩ := hsends.origins
  have hmax : ((b.nextSegment w n).1.onSent owner offset m).maxRetransmissions =
      b.maxRetransmissions := congrArg Marks.maxRetransmissions hsends.marks
  have hprobes : ((b.nextSegment w n).1.onSent owner offset m).maxPersistProbes =
      b.maxPersistProbes := congrArg Marks.maxPersistProbes hsends.marks
  refine .inr ⟨hmax.trans h.retransmissions, hprobes.trans h.probes, ?_, fun hsome => ?_⟩
  · rw [horigins]
    exact PendingKind.origins_limited h.attempts (h.retransmissions ▸ hsends.retries)
  · refine (hsends.probe hsome).elim h.probe fun hkind => ?_
    rw [← h.probes]
    exact maxPersistProbes_pos_of_sends hidle hkind

/-- No segment is pending, the FIN is in order, and the retries are within their limits
    unless the buffer has closed. -/
structure Ready (config : TcpSendConfig) (b : TcpSendBuffer κ) : Prop where
  idle : b.pendingKind = .none
  order : FinInOrder b
  limited : b.closed = true ∨ Limited config b

omit [CongestionController κ] in
theorem ready_new (isn : UInt32) (config : TcpSendConfig) (make : UInt16 → κ) :
    Ready config (.new isn config make) where
  idle := rfl
  order := .new isn config make
  limited := .inr ⟨rfl, rfl, nofun, nofun⟩

theorem Ready.apply (h : Ready config b) (op : SendOp) : Ready config (op.apply b) where
  idle := op.apply_pendingKind h.idle
  order := by
    cases op with
    | enqueue data => exact h.order.enqueue data
    | requestFin => exact h.order.requestFin
    | transmit w n owner offset m => exact h.order.transmit w n owner offset m
    | abandon w n => exact h.order.abandon w n
    | ack a w n ackOnly ece => exact h.order.onAck a w n ackOnly ece
    | sack blocks => exact h.order.onSack blocks
    | updateMss mss => exact h.order.updateMss mss
  limited := by
    cases hclosed : b.closed with
    | true => exact .inl (op.apply_closed hclosed h.idle)
    | false =>
      have hlimited := h.limited.resolve_left (by simp [hclosed])
      cases hquiet : op.isQuiet with
      | true =>
        refine (SendOp.apply_of_isQuiet h.idle hquiet).imp (fun hgaveUp => hgaveUp.2.closed) ?_
        rintro ⟨hmarks, horigins, hprobe, -⟩
        exact hlimited.of_marks (congrArg Marks.maxRetransmissions hmarks)
          (congrArg Marks.maxPersistProbes hmarks) (fun o ho => horigins ▸ ho) (hprobe ▸ id)
      | false =>
        cases op with
        | transmit w n owner offset m => exact hlimited.transmit h.idle w n owner offset m
        | ack a w n ackOnly ece => exact .inr (hlimited.onAck a w n ackOnly ece)
        | sack blocks => exact .inr (hlimited.onSack blocks)
        | enqueue | requestFin | abandon | updateMss => cases hquiet

/-! ## Whole runs -/

/-- Between `nextSegment` and `onSent`, there is nothing to poll for. -/
theorem nextSegment_of_pending (hk : b.pendingKind ≠ .none) (w : UInt32) (n : ℕ) :
    b.nextSegment w n = (b, {}) := if_pos (.inr hk)

theorem Ready.nextSegment (h : Ready config b) (w : UInt32) (n : ℕ)
    (hk : (b.nextSegment w n).1.pendingKind = .none) : Ready config (b.nextSegment w n).1 := by
  have hsent : (SendOp.transmit w n none 0 0).apply b = (b.nextSegment w n).1 := if_pos hk
  exact hsent ▸ h.apply _

/-- A poll is the operation that asks for a segment and sends it. -/
theorem Ready.poll (h : Ready config b) (w : UInt32) (p : Poll) : Ready config (b.poll w p) := by
  rw [TcpSendBuffer.poll]
  split
  case isTrue => exact h.apply (.transmit w p.nextMs p.owner p.offset p.sentMs)
  case isFalse hnone =>
    refine h.nextSegment w p.nextMs ?_
    cases hclosed : b.closed with
    | true =>
      rw [nextSegment_closed hclosed]
      exact h.idle
    | false =>
      rcases nextSegment_pick hclosed h.idle w p.nextMs with ⟨-, -, hclose⟩ | ⟨_, r, hpick, hnext⟩
      · rw [hclose]
        rfl
      · rw [hnext] at hnone ⊢
        cases hpick with
        | idle =>
          exact (congrArg PendingSegment.pendingKind (polled_pending b p.nextMs w)).trans h.idle
        | persistRetry | persistExisting | persistData | persistFin | persistPromote | retransmit
        | newData => exact absurd rfl hnone

theorem Ready.poll_effort (h : Ready config b) (w : UInt32) (p : Poll) (howner : OwnerValid w b p) :
    effort w (b.poll w p) + (b.nextSegment w p.nextMs).2.hasSegment.toNat ≤ effort w b := by
  cases hclosed : b.closed with
  | true =>
    have hpoll : b.poll w p = b := by
      rw [TcpSendBuffer.poll, nextSegment_closed hclosed]
      rfl
    rw [hpoll, nextSegment_closed hclosed]
    exact le_refl _
  | false =>
    exact TcpSendBuffer.poll_effort hclosed h.idle h.order.pending
      (h.limited.resolve_left (by simp [hclosed])) w p howner

/-- The polls of a run together lower the effort by the segments they return. -/
theorem Ready.segments_le (h : Ready config b) (w : UInt32) {polls : List Poll}
    (howners : Allowed (TcpSendBuffer.poll w) (OwnerValid w) b polls) :
    Ready config (polls.foldl (TcpSendBuffer.poll w) b) ∧
      effort w (polls.foldl (TcpSendBuffer.poll w) b) + segments w b polls ≤ effort w b := by
  induction polls generalizing b with
  | nil => exact ⟨h, le_refl _⟩
  | cons p _ ih =>
    obtain ⟨howner, hrest⟩ := howners
    obtain ⟨hready, hle⟩ := ih (h.poll w p) hrest
    refine ⟨hready, ?_⟩
    have hstep := h.poll_effort w p howner
    rw [segments, foldl_cons]
    omega

omit [CongestionController κ] in
/-- The effort that is left is bounded by what is unsent, and the limits. -/
theorem Limited.effort_le (h : Limited config b) (w : UInt32) :
    effort w b ≤
      b.sendQueue.length + 3 + config.maxRetransmissions + config.maxPersistProbes := by
  have hbit (x : Bool) : x.toNat ≤ 1 := Bool.toNat_le x
  have hprobe : b.persistProbe.isSome.toNat ≤ config.maxPersistProbes := by
    cases hp : b.persistProbe.isSome with
    | false => exact Nat.zero_le _
    | true => exact h.probe hp
  rw [effort, retriesLeft, h.probes, h.retransmissions]
  have hfin := hbit (b.finRequested && !b.finSent)
  have hfast := hbit b.fastRetransmitPending
  split_ifs <;> omega

theorem segments_of_pending (hk : b.pendingKind ≠ .none) (w : UInt32) (polls : List Poll) :
    polls.foldl (TcpSendBuffer.poll w) b = b ∧ segments w b polls = 0 := by
  have hpoll (p : Poll) : b.poll w p = b := by
    rw [TcpSendBuffer.poll, nextSegment_of_pending hk]
    rfl
  induction polls with
  | nil => exact ⟨rfl, rfl⟩
  | cons _ _ ih =>
    rw [foldl_cons, segments, hpoll, ih.2, nextSegment_of_pending hk]
    exact ⟨ih.1, rfl⟩

end TcpSendBuffer

theorem ready_of_reaches {isn : UInt32} {config : TcpSendConfig} {make : UInt16 → κ} {s : SendRun κ}
    (hs : SendRun.Reaches False (.start isn config make) s) : Ready config s.buffer := by
  refine Runs.invariant (P := fun s => Ready config s.buffer) hs
    (ready_new isn config make) ?_
  rintro s op s' h ⟨-, rfl⟩
  exact h.apply op

/-- From every state of every run, between the operations and between `nextSegment` and
    `onSent`, in which the buffer is open: polled at any peer window, with valid owners,
    it returns at most so many segments, and none once it has returned that many. -/
theorem bounded_effort (isn : UInt32) (config : TcpSendConfig) (make : UInt16 → κ) {s : SendRun κ}
    (hs : SendRun.Reaches False (.start isn config make) s) {b : TcpSendBuffer κ}
    (hb : b = s.buffer ∨ ∃ w n, b = (s.buffer.nextSegment w n).1) (hopen : b.closed = false)
    (w : UInt32) {polls : List Poll} (howners : Allowed (poll w) (OwnerValid w) b polls) :
    segments w b polls ≤
        b.sendQueue.length + 3 + config.maxRetransmissions + config.maxPersistProbes ∧
      (segments w b polls =
          b.sendQueue.length + 3 + config.maxRetransmissions + config.maxPersistProbes →
        ∀ n, ((polls.foldl (poll w) b).nextSegment w n).2.hasSegment = false) := by
  by_cases hk : b.pendingKind = .none
  · have hready : Ready config b := by
      rcases hb with rfl | ⟨w', n, rfl⟩
      · exact ready_of_reaches hs
      · exact (ready_of_reaches hs).nextSegment w' n hk
    obtain ⟨hlast, hle⟩ := hready.segments_le w howners
    have hbound := (hready.limited.resolve_left (by simp [hopen])).effort_le w
    refine ⟨by omega, fun heq n => ?_⟩
    -- one more segment would take effort that is not left
    generalize polls.foldl (poll w) b = last at hlast hle ⊢
    have howner : OwnerValid w last ⟨n, some (last.nextSegment w n).2.payload, 0, 0⟩ :=
      .inr (.inr ⟨_, rfl, (zero_add _).le⟩)
    have hstep := hlast.poll_effort w _ howner
    refine Bool.eq_false_iff.2 fun hsegment => ?_
    rw [hsegment, Bool.toNat_true] at hstep
    omega
  · obtain ⟨hlast, hzero⟩ := segments_of_pending hk w polls
    refine ⟨by omega, fun _ n => ?_⟩
    rw [hlast, nextSegment_of_pending hk]

/-- Three bytes are sent, and sent again twice; then the buffer gives up. -/
theorem bounded_effort_three_bytes :
    let s : SendRun AimdController := [SendOp.enqueue [1, 2, 3]].foldl SendRun.step
      (.start 7 { maxRetransmissions := 2 } AimdController.new)
    let polls : List Poll := [⟨0, some [1, 2, 3], 0, 0⟩, ⟨1, none, 0, 1⟩, ⟨1000, none, 0, 1000⟩,
      ⟨3000, none, 0, 3000⟩, ⟨9000, none, 0, 9000⟩]
    segments 1000 s.buffer polls = 3 ∧ segments 1000 s.buffer polls ≤ 3 + 3 + 2 + 15 := by
  refine ⟨by decide, (bounded_effort 7 { maxRetransmissions := 2 } AimdController.new
    (SendRun.reaches_foldl _ _) (.inl rfl) rfl 1000 ?_).1⟩
  exact ⟨.inr (.inr ⟨_, rfl, by decide⟩), .inr (.inl (by decide)), .inl (by decide),
    .inl (by decide), .inr (.inl (by decide)), trivial⟩

end Netstack2
