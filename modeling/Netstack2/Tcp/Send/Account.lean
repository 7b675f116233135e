import Netstack2.Tcp.Send.Run

/-!
# The books of a send buffer

The send buffer keeps sums over the records in flight (their sequence numbers, their bytes, and both
again for those selectively acknowledged) and updates them one by one. What an operation can do to
the records and to the sums is said once (`Accounts`): it keeps them, takes in one more record,
walks over them with an acknowledgment, marks some of them, or drops everything.

Main results, over every run:

* `accounted_of_reaches`: the records, the probe, the sums and the sequence numbers of an open
  buffer agree, and no subtraction of an acknowledgment goes below zero;
* `scoreboard_of_runs`: the sums over the selectively acknowledged records are exact, as long as no
  acknowledgment ends inside such a record;
* `scoreboard_after_partial_ack`: an acknowledgment that does leaves the rest of the record in the
  sums for ever.
-/

namespace Netstack2

open List SendRecord

open CongestionController LawfulController TcpSendBuffer

/-- The sum of `f` over the records selectively acknowledged. -/
def sackedSum (f : SendRecord → ℕ) (rs : List SendRecord) : ℕ :=
  ((rs.filter SendRecord.sacked).map f).sum

namespace sackedSum

variable (f : SendRecord → ℕ) (r : SendRecord) (rs rs' : List SendRecord)

@[simp] theorem nil : sackedSum f [] = 0 := rfl

@[simp] theorem cons :
    sackedSum f (r :: rs) = (if r.sacked then f r else 0) + sackedSum f rs := by
  cases h : r.sacked <;> simp [sackedSum, h]

@[simp] theorem append : sackedSum f (rs ++ rs') = sackedSum f rs + sackedSum f rs' := by
  simp [sackedSum]

theorem le_sum : sackedSum f rs ≤ (rs.map f).sum := by
  induction rs with
  | nil => exact le_refl 0
  | cons =>
    rw [cons, map_cons, sum_cons]
    split <;> omega

end sackedSum

/-- What the sums read of a record. -/
def SendRecord.tally (r : SendRecord) : ℕ × ℕ × Bool := (r.logicalLength, r.data.length, r.sacked)

theorem sackedSum_congr {f : SendRecord → ℕ} (g : ℕ × ℕ × Bool → ℕ) (hf : ∀ r, f r = g r.tally)
    {rs rs' : List SendRecord} (h : rs'.map tally = rs.map tally) :
    sackedSum f rs' = sackedSum f rs := by
  have hread : ∀ l : List SendRecord, sackedSum f l =
      (((l.map tally).filter (·.2.2)).map g).sum := by
    intro l
    rw [sackedSum, filter_map, map_map]
    have : g ∘ tally = f := funext fun r => (hf r).symm
    rw [this]
    rfl
  rw [hread, hread, h]

/-- The probe is not selectively acknowledged. -/
def SendQueues.ProbeUnsacked (q : SendQueues) : Prop :=
  ∀ r, q.persistProbe = some r → r.sacked = false

/-- The sums over the records in flight. -/
def SendQueues.sums (q : SendQueues) : ℕ × ℕ × ℕ :=
  (q.inFlightBytes, q.sackedBytes, q.sackedSequence)

variable {κ : Type}

/-- What the operation `op` may do to the records in flight of `b` and to the sums over them. -/
inductive Accounts (b : TcpSendBuffer κ) : SendOp → SendQueues → Prop
  /-- The records change in nothing the sums read. -/
  | keep {op : SendOp} {q : SendQueues} :
    q.retransmitQueue.map SendRecord.tally = b.retransmitQueue.map SendRecord.tally →
    q.sums = b.sums → (b.ProbeUnsacked → q.ProbeUnsacked) → Accounts b op q
  /-- One more record, of new data or the promoted probe. -/
  | push {op : SendOp} {q : SendQueues} {r : SendRecord} :
    q.retransmitQueue = b.retransmitQueue ++ [r] →
    q.sums = (b.inFlightBytes + r.data.length, b.sackedBytes, b.sackedSequence) →
    (b.ProbeUnsacked → r.sacked = false) → (b.ProbeUnsacked → q.ProbeUnsacked) → Accounts b op q
  /-- The buffer closes. -/
  | close {op : SendOp} {q : SendQueues} :
    q.closed = true → q.retransmitQueue = [] → q.sums = (0, 0, 0) → q.persistProbe = none →
    Accounts b op q
  /-- An acknowledgment walks over the records. -/
  | ack {a w : UInt32} {n : ℕ} {ackOnly ece : Bool} :
    sequenceAfter a b.sndMax = false → sequenceBefore a b.sndUna = false →
    Accounts b (.ack a w n ackOnly ece) (b.acknowledge a w n).toSendQueues
  /-- Selective acknowledgments mark records. -/
  | sack {blocks : List TcpSackBlock} {w : SackWalk} {rs : List SendRecord} {q : SendQueues} :
    sackRecords blocks { sackedBytes := b.sackedBytes, sackedSequence := b.sackedSequence }
      b.retransmitQueue = (w, rs) →
    q.retransmitQueue = rs → q.sums = (b.inFlightBytes, w.sackedBytes, w.sackedSequence) →
    q.persistProbe = b.persistProbe → Accounts b (.sack blocks) q

namespace Accounts

variable {b b' : TcpSendBuffer κ} {op : SendOp} {q : SendQueues}

theorem of_same (h : q = b.toSendQueues) : Accounts b op q := by
  subst h
  exact .keep rfl rfl id

theorem of_close [CongestionController κ] (b' : TcpSendBuffer κ) :
    Accounts b op b'.close.toSendQueues := .close rfl rfl rfl rfl

/-- The first record may change in what the sums do not read. -/
theorem of_head {r r' : SendRecord} {rs : List SendRecord} (hb : b.retransmitQueue = r :: rs)
    (hq : q.retransmitQueue = r' :: rs) (hr : r'.tally = r.tally) (hsums : q.sums = b.sums)
    (hprobe : q.persistProbe = b.persistProbe) : Accounts b op q := by
  refine .keep ?_ hsums fun h r hr => h r (hprobe ▸ hr)
  rw [hb, hq, map_cons, map_cons, hr]

/-- Committing a segment reads the queues only. -/
theorem of_transmit {w : UInt32} {n offset m : ℕ} {owner : Option Bytes}
    (hb : b'.toSendQueues = b.toSendQueues) (h : Accounts b' (.transmit w n owner offset m) q) :
    Accounts b (.transmit w n owner offset m) q := by
  cases h with
  | keep hrecords hsums hprobe =>
    rw [hb] at hrecords hsums hprobe
    exact .keep hrecords hsums hprobe
  | push hrecords hsums hsacked hprobe =>
    rw [hb] at hrecords hsums hsacked hprobe
    exact .push hrecords hsums hsacked hprobe
  | close hclosed hrecords hsums hprobe => exact .close hclosed hrecords hsums hprobe

end Accounts

/-! ## The operations -/

namespace TcpSendBuffer

variable [CongestionController κ]

/-- `nextSegment` closes the buffer or leaves its queues alone. -/
theorem nextSegment_queues (b : TcpSendBuffer κ) (w : UInt32) (n : ℕ) :
    (∃ b' : TcpSendBuffer κ, (b.nextSegment w n).1 = b'.close) ∨
      (b.nextSegment w n).1.toSendQueues = b.toSendQueues := by
  rcases nextSegment_cases b w n with hnext | hnext | ⟨p, r, -, hnext⟩
  · exact .inr (by rw [hnext])
  · exact .inl ⟨_, by rw [hnext]⟩
  · rw [hnext]
    exact .inr (polled_keeps b w n).1.queues

theorem Stores.accounts {b b' : TcpSendBuffer κ} {owner : Option Bytes} {offset m : ℕ}
    {kind : PendingKind} (op : SendOp) (h : Stores b owner offset m kind b') :
    Accounts b op b'.toSendQueues := by
  cases h with
  | refused => exact .of_same rfl
  | @newData data _ hdata =>
    refine .push (r := b.newRecord data m) rfl ?_ (fun _ => rfl) id
    show (b.inFlightBytes + b.pendingPayloadLength, _) = (b.inFlightBytes + data.length, _)
    rw [length_retained hdata]
    rfl
  | persistNew => exact .keep rfl rfl fun _ r hr => by cases hr; rfl
  | @persistPromote probe _ hp =>
    exact .push rfl rfl (fun h => h probe hp) fun _ r hr => by cases hr
  | @persistRetry probe _ hp => exact .keep rfl rfl fun h r hr => by cases hr; exact h probe hp
  | persistExisting _ hq | rtoRetransmit _ hq | fastRetransmit _ hq =>
    exact .of_head hq rfl rfl rfl rfl

theorem commit_accounts (b : TcpSendBuffer κ) (op : SendOp) (owner : Option Bytes)
    (offset n : ℕ) : Accounts b op (b.commit owner offset n).1.toSendQueues := by
  obtain ⟨b', hstores, ⟨htimers, -⟩ | ⟨-, b'', -, hclose⟩⟩ := commit_stored b owner offset n
  · rw [htimers.queues]
    exact hstores.accounts op
  · rw [hclose]
    exact .of_close _

end TcpSendBuffer

variable [CongestionController κ]

/-- The one account of what the operations do. -/
theorem SendOp.accounts (b : TcpSendBuffer κ) (op : SendOp) :
    Accounts b op (op.apply b).toSendQueues := by
  cases op with
  | enqueue =>
    rw [apply, TcpSendBuffer.enqueue]
    split
    · exact .of_same rfl
    · exact .keep rfl rfl id
  | requestFin =>
    rw [apply, TcpSendBuffer.requestFin]
    split
    · exact .of_same rfl
    · exact .keep rfl rfl id
  | transmit w n =>
    rw [apply, (onSent_sameStream ..).queues]
    rcases nextSegment_queues b w n with ⟨b', hclose⟩ | hq
    · rw [hclose]
      exact .of_close b'
    · exact .of_transmit hq (commit_accounts ..)
  | abandon w n =>
    rcases nextSegment_queues b w n with ⟨b', hclose⟩ | hq
    · rw [apply, hclose]
      exact .of_close b'
    · exact .of_same hq
  | ack a w n ackOnly ece =>
    rcases onAck_cases b a w n ackOnly ece with ⟨-, hsame⟩ | ⟨hafter, hbefore, hq⟩
    · exact .of_same hsame
    · rw [apply, hq]
      exact .ack hafter hbefore
  | sack =>
    rw [apply, onSack]
    split
    case isTrue => exact .of_same rfl
    case isFalse =>
      dsimp only
      split <;> exact .sack rfl rfl rfl rfl
  | updateMss mss => exact .of_same (updateMss_toSendQueues b mss)

/-! ## The scoreboard -/

/-- The sums over the selectively acknowledged records are exact. -/
structure Scoreboard (q : SendQueues) : Prop where
  bytes : q.sackedBytes = sackedSum (·.data.length) q.retransmitQueue
  sequence : q.sackedSequence = sackedSum SendRecord.logicalLength q.retransmitQueue

/-- An acknowledgment of the first `n` sequence numbers ends inside a record that
    is selectively acknowledged. -/
def endsInsideSacked : ℕ → List SendRecord → Bool
  | _, [] => false
  | n, r :: rs =>
    if n < r.logicalLength then n != 0 && r.sacked else endsInsideSacked (n - r.logicalLength) rs

/-- The operation keeps the scoreboard exact: an acceptable acknowledgment does
    not end inside a selectively acknowledged record, and what may be selectively
    acknowledged fits the 32 bits of `sackedSequence`. -/
def SendOp.KeepsScore (b : TcpSendBuffer κ) : SendOp → Prop
  | .ack a _ _ _ _ => sequenceAfter a b.sndMax = true ∨ sequenceBefore a b.sndUna = true ∨
      endsInsideSacked (a - b.sndUna).toNat b.retransmitQueue = false
  | .sack _ => (b.retransmitQueue.map SendRecord.logicalLength).sum < 2 ^ 32
  | _ => True

instance (b : TcpSendBuffer κ) : (op : SendOp) → Decidable (op.KeepsScore b)
  | .ack a _ _ _ _ => inferInstanceAs (Decidable (sequenceAfter a b.sndMax = true ∨
      sequenceBefore a b.sndUna = true ∨
      endsInsideSacked (a - b.sndUna).toNat b.retransmitQueue = false))
  | .sack _ => inferInstanceAs (Decidable ((b.retransmitQueue.map logicalLength).sum < 2 ^ 32))
  | .enqueue _ | .requestFin | .transmit .. | .abandon .. | .updateMss _ => .isTrue trivial

theorem ackRecords_sackedSum {w : AckWalk} {rs : List SendRecord} (n : ℕ)
    (hbytes : w.sackedBytes = sackedSum (·.data.length) rs)
    (hseq : w.sackedSequence = sackedSum logicalLength rs)
    (hend : endsInsideSacked w.remaining rs = false) :
    (ackRecords n w rs).1.sackedBytes = sackedSum (·.data.length) (ackRecords n w rs).2 ∧
      (ackRecords n w rs).1.sackedSequence =
        sackedSum logicalLength (ackRecords n w rs).2 := by
  induction rs generalizing w with
  | nil => exact ⟨hbytes, hseq⟩
  | cons r rs ih =>
    rw [ackRecords]
    split
    case isTrue => exact ⟨hbytes, hseq⟩
    case isFalse hne =>
      rw [sackedSum.cons] at hbytes hseq
      rw [endsInsideSacked] at hend
      dsimp only
      split
      case isTrue htake =>
        rw [if_neg (by omega)] at hend
        refine ih ?_ ?_ ?_
        · show (if r.sacked then w.sackedBytes - r.data.length else w.sackedBytes) = _
          split <;> simp_all
        · show (if r.sacked then w.sackedSequence - r.logicalLength else w.sackedSequence) = _
          split <;> simp_all
        · show endsInsideSacked (w.remaining - min w.remaining r.logicalLength) rs = false
          rwa [htake]
      case isFalse htake =>
        -- the record that is cut was not selectively acknowledged
        rw [if_pos (by omega)] at hend
        have hr : r.sacked = false := by simpa [hne] using hend
        refine ⟨?_, ?_⟩
        · simpa [AckWalk.trim, AckWalk.visit, hr, trimRecord] using hbytes
        · simpa [AckWalk.trim, AckWalk.visit, hr, trimRecord] using hseq

theorem ackProbe_sacked (w : AckWalk) (probe : Option SendRecord) :
    (ackProbe w probe).1.sackedBytes = w.sackedBytes ∧
      (ackProbe w probe).1.sackedSequence = w.sackedSequence ∧
      (ackProbe w probe).1.inFlightBytes = w.inFlightBytes ∧
      ∀ r, (ackProbe w probe).2 = some r → ∃ r', probe = some r' ∧ r.sacked = r'.sacked := by
  cases probe with
  | none => exact ⟨rfl, rfl, rfl, fun r hr => by cases hr⟩
  | some probe =>
    rw [ackProbe]
    dsimp only
    split_ifs
    · exact ⟨rfl, rfl, rfl, fun r hr => ⟨r, hr, rfl⟩⟩
    · exact ⟨rfl, rfl, rfl, fun r hr => by cases hr⟩
    · exact ⟨rfl, rfl, rfl, fun r hr => ⟨probe, rfl, by cases hr; rfl⟩⟩

/-- Marking records adds them to the sums; `c` and `d` are the sums over the
    records the walk has passed. -/
theorem sackRecords_sackedSum (blocks : List TcpSackBlock) {w : SackWalk} {rs : List SendRecord}
    {c d : ℕ} (hbytes : w.sackedBytes = c + sackedSum (·.data.length) rs)
    (hseq : w.sackedSequence = d + sackedSum logicalLength rs)
    (hfits : d + (rs.map logicalLength).sum < 2 ^ 32) :
    (sackRecords blocks w rs).1.sackedBytes =
        c + sackedSum (·.data.length) (sackRecords blocks w rs).2 ∧
      (sackRecords blocks w rs).1.sackedSequence =
        d + sackedSum logicalLength (sackRecords blocks w rs).2 := by
  induction rs generalizing w c d with
  | nil => exact ⟨hbytes, hseq⟩
  | cons r rs ih =>
    rw [sackedSum.cons] at hbytes hseq
    rw [map_cons, sum_cons] at hfits
    rw [sackRecords]
    split
    case isTrue hr =>
      rw [if_pos hr] at hbytes hseq
      have := ih (w := { w with sackedCount := w.sackedCount + 1 }) (c := c + r.data.length)
        (d := d + r.logicalLength) (by dsimp only; omega) (by dsimp only; omega) (by omega)
      simp only [sackedSum.cons, hr, if_true]
      omega
    case isFalse hr =>
      rw [if_neg hr] at hbytes hseq
      split
      case isTrue =>
        have hle := sackedSum.le_sum logicalLength rs
        have := ih (w := ⟨w.sackedBytes + r.data.length,
            (w.sackedSequence + r.logicalLength) % 2 ^ 32, w.newlySacked + r.data.length,
            w.sackedCount + 1⟩) (c := c + r.data.length) (d := d + r.logicalLength)
          (by dsimp only; omega) (by dsimp only; rw [Nat.mod_eq_of_lt] <;> omega) (by omega)
        simp only [sackedSum.cons, if_true]
        omega
      case isFalse =>
        have := ih (w := w) (c := c) (d := d) (by omega) (by omega) (by omega)
        simp only [sackedSum.cons, if_neg hr]
        omega

omit [CongestionController κ] in
/-- One operation. -/
theorem Scoreboard.step {b : TcpSendBuffer κ} {op : SendOp} {q : SendQueues}
    (h : Scoreboard b.toSendQueues) (hp : b.ProbeUnsacked) (hop : op.KeepsScore b)
    (ha : Accounts b op q) : Scoreboard q ∧ q.ProbeUnsacked := by
  cases ha with
  | keep hrecords hsums hprobe =>
    obtain ⟨-, hbytes, hseq⟩ : _ ∧ _ ∧ _ := by simpa [SendQueues.sums] using hsums
    refine ⟨⟨?_, ?_⟩, hprobe hp⟩
    · rw [hbytes, h.bytes]
      exact (sackedSum_congr (fun t => t.2.1) (fun _ => rfl) hrecords).symm
    · rw [hseq, h.sequence]
      exact (sackedSum_congr (fun t => t.1) (fun _ => rfl) hrecords).symm
  | push hrecords hsums hsacked hprobe =>
    obtain ⟨-, hbytes, hseq⟩ : _ ∧ _ ∧ _ := by simpa [SendQueues.sums] using hsums
    refine ⟨⟨?_, ?_⟩, hprobe hp⟩
    · simp [hbytes, h.bytes, hrecords, hsacked hp]
    · simp [hseq, h.sequence, hrecords, hsacked hp]
  | close _ hrecords hsums hprobe =>
    obtain ⟨-, hbytes, hseq⟩ : _ ∧ _ ∧ _ := by simpa [SendQueues.sums] using hsums
    refine ⟨⟨by simp [hbytes, hrecords], by simp [hseq, hrecords]⟩, fun r hr => ?_⟩
    simp [hprobe] at hr
  | @ack a w n _ _ hafter hbefore =>
    have hend : endsInsideSacked (a - b.sndUna).toNat b.retransmitQueue = false := by
      rcases hop with hop | hop | hop
      · simp [hafter] at hop
      · simp [hbefore] at hop
      · exact hop
    obtain ⟨hbytes, hseq⟩ := ackRecords_sackedSum (w := b.startWalk a) n h.bytes h.sequence hend
    obtain ⟨hpb, hps, -, hprobe⟩ :=
      ackProbe_sacked (ackRecords n (b.startWalk a) b.retransmitQueue).1 b.persistProbe
    refine ⟨⟨hpb.trans hbytes, hps.trans hseq⟩, fun r hr => ?_⟩
    obtain ⟨r', hr', hsame⟩ := hprobe r hr
    exact hsame.trans (hp r' hr')
  | @sack blocks w _ _ hwalk hrecords hsums hprobe =>
    obtain ⟨-, hbytes, hseq⟩ : _ ∧ _ ∧ _ := by simpa [SendQueues.sums] using hsums
    have hmarked := sackRecords_sackedSum blocks (c := 0) (d := 0)
      (w := { sackedBytes := b.sackedBytes, sackedSequence := b.sackedSequence })
      (h.bytes.trans (zero_add _).symm) (h.sequence.trans (zero_add _).symm)
      ((zero_add _).trans_lt hop)
    rw [hwalk, zero_add, zero_add] at hmarked
    refine ⟨⟨?_, ?_⟩, fun r hr => hp r (hprobe ▸ hr)⟩
    · rw [hbytes, hrecords]
      exact hmarked.1
    · rw [hseq, hrecords]
      exact hmarked.2

theorem scoreboard_nextSegment {b : TcpSendBuffer κ} (h : Scoreboard b.toSendQueues) (w : UInt32)
    (n : ℕ) : Scoreboard (b.nextSegment w n).1.toSendQueues := by
  rcases nextSegment_queues b w n with ⟨b', hclose⟩ | hq
  · rw [hclose]
    exact ⟨rfl, rfl⟩
  · rw [hq]
    exact h

/-- In every run whose acknowledgments do not end inside a selectively acknowledged record, the
    scoreboard is exact, between the operations and between `nextSegment` and `onSent`. -/
theorem scoreboard_of_runs (isn : UInt32) (config : TcpSendConfig) (make : UInt16 → κ)
    {s : SendRun κ}
    (h : Runs (fun s op s' => SendOp.KeepsScore s.buffer op ∧ s' = s.step op)
      (.start isn config make) s) :
    Scoreboard s.buffer.toSendQueues ∧
      ∀ w n, Scoreboard (s.buffer.nextSegment w n).1.toSendQueues := by
  have hinv : Scoreboard s.buffer.toSendQueues ∧ s.buffer.ProbeUnsacked := by
    refine Runs.invariant
      (P := fun s => Scoreboard s.buffer.toSendQueues ∧ s.buffer.ProbeUnsacked) h ?_ ?_
    · exact ⟨⟨rfl, rfl⟩, fun r hr => by cases hr⟩
    · rintro s op s' ⟨hs, hp⟩ ⟨hop, rfl⟩
      exact hs.step hp hop (op.accounts s.buffer)
  exact ⟨hinv.1, scoreboard_nextSegment hinv.1⟩

theorem scoreboard_of_runs_acked :
    let s := [SendOp.enqueue (List.replicate 20 0), .transmit 20 0 (some (List.replicate 10 0)) 0 0,
      .transmit 20 0 (some (List.replicate 10 0)) 0 0, .sack [⟨10, 20⟩], .ack 5 20 0 true false].foldl
      SendRun.step (.start 0 { initialMss := 10 } AimdController.new)
    s.buffer.sackedBytes = 10 ∧ Scoreboard s.buffer.toSendQueues := by
  intro s
  exact ⟨by decide, (scoreboard_of_runs 0 { initialMss := 10 } AimdController.new
    (Allowed.runs (by decide))).1⟩

/-- Bytes 10 to 19 are selectively acknowledged, and then byte 15 is the next one expected: no
    record in flight is marked any more, but five bytes stay in the sums. -/
theorem scoreboard_after_partial_ack :
    let s := [SendOp.enqueue (List.replicate 20 0), .transmit 20 0 (some (List.replicate 10 0)) 0 0,
      .transmit 20 0 (some (List.replicate 10 0)) 0 0, .sack [⟨10, 20⟩], .ack 15 20 0 true false].foldl
      SendRun.step (.start 0 { initialMss := 10 } AimdController.new)
    SendRun.Reaches False (.start 0 { initialMss := 10 } AimdController.new) s ∧
      s.buffer.closed = false ∧ s.buffer.sackedBytes = 5 ∧
      sackedSum (·.data.length) s.buffer.retransmitQueue = 0 ∧
      ¬Scoreboard s.buffer.toSendQueues := by
  intro s
  exact ⟨SendRun.reaches_foldl _ _, by decide, by decide, by decide,
    fun h => absurd h.bytes (by decide)⟩

/-! ## The records, the sums and the sequence numbers -/

/-- The records stand one after the other, the first at `seq`. -/
def Consecutive : UInt32 → List SendRecord → Prop
  | _, [] => True
  | seq, r :: rs => r.seq = seq ∧ Consecutive (seq + UInt32.ofNat r.logicalLength) rs

/-- The books of an open send buffer of the given limit. -/
structure Accounted (limit : ℕ) (q : SendQueues) : Prop where
  consecutive : Consecutive q.sndUna q.retransmitQueue
  probe : ∀ r, q.persistProbe = some r → q.retransmitQueue = [] ∧ r.seq = q.sndUna
  inFlightSequence : q.inFlightSequence = (q.retransmitQueue.map SendRecord.logicalLength).sum
  inFlightBytes : q.inFlightBytes = (q.retransmitQueue.map (·.data.length)).sum
  retransmitBytes : q.retransmitBytes =
    q.inFlightSequence + (q.persistProbe.map SendRecord.logicalLength).getD 0
  room : q.retransmitBytes ≤ limit
  nxt : q.sndNxt = q.sndUna + UInt32.ofNat q.retransmitBytes
  max : q.sndMax = q.sndNxt

/-- What an acknowledgment of `take` sequence numbers of the record subtracts is there. -/
structure TcpSendBuffer.AckWalk.Covers (w : AckWalk) (r : SendRecord) (take : ℕ) : Prop where
  retransmitBytes : take ≤ w.retransmitBytes
  inFlightSequence : take ≤ w.inFlightSequence
  inFlightBytes : min take r.data.length ≤ w.inFlightBytes
  remaining : take ≤ w.remaining
  logicalLength : take ≤ r.logicalLength
  data : min take r.data.length ≤ r.data.length

/-- No subtraction of the walk over the records goes below zero. -/
def Covered (n : ℕ) : AckWalk → List SendRecord → Prop
  | _, [] => True
  | w, r :: rs => w.remaining = 0 ∨
      w.Covers r (min w.remaining r.logicalLength) ∧
        (min w.remaining r.logicalLength = r.logicalLength →
          Covered n ((w.visit r (min w.remaining r.logicalLength)).finish r n) rs)

/-- Nor does one for the probe. -/
def ProbeCovered (w : AckWalk) (probe : Option SendRecord) : Prop :=
  ∀ r, probe = some r → w.remaining = 0 ∨ min w.remaining r.logicalLength ≤ w.retransmitBytes

section Walk

variable {w : AckWalk} {rs : List SendRecord} {n : ℕ}

theorem covered_of_sums (hfits : ∀ r ∈ rs, r.data.length ≤ r.logicalLength)
    (hseq : w.inFlightSequence = (rs.map logicalLength).sum)
    (hbytes : w.inFlightBytes = (rs.map (·.data.length)).sum)
    (hroom : (rs.map logicalLength).sum ≤ w.retransmitBytes) : Covered n w rs := by
  induction rs generalizing w with
  | nil => trivial
  | cons r _ ih =>
    have hr := hfits r mem_cons_self
    rw [map_cons, sum_cons] at hseq hbytes hroom
    -- what is subtracted for the first record is one summand
    have hcovers : w.Covers r (min w.remaining r.logicalLength) := by constructor <;> omega
    refine .inr ⟨hcovers, fun htake => ih ?_ ?_ ?_ ?_⟩
    · exact fun r hr => hfits r (mem_cons_of_mem _ hr)
    · show w.inFlightSequence - min w.remaining r.logicalLength = _
      omega
    · show w.inFlightBytes - min (min w.remaining r.logicalLength) r.data.length = _
      omega
    · show _ ≤ w.retransmitBytes - min w.remaining r.logicalLength
      omega

theorem ackRecords_inFlightBytes (hfits : ∀ r ∈ rs, r.data.length ≤ r.logicalLength)
    (hbytes : w.inFlightBytes = (rs.map (·.data.length)).sum) :
    (ackRecords n w rs).1.inFlightBytes = ((ackRecords n w rs).2.map (·.data.length)).sum := by
  induction rs generalizing w with
  | nil => exact hbytes
  | cons r _ ih =>
    have hr := hfits r mem_cons_self
    rw [ackRecords]
    split
    case isTrue => exact hbytes
    case isFalse =>
      rw [map_cons, sum_cons] at hbytes
      dsimp only
      split
      case isTrue htake =>
        refine ih (fun r hr => hfits r (mem_cons_of_mem _ hr)) ?_
        show w.inFlightBytes - min (min w.remaining r.logicalLength) r.data.length = _
        omega
      case isFalse =>
        rw [map_cons, sum_cons]
        show w.inFlightBytes - min (min w.remaining r.logicalLength) r.data.length =
          (r.data.drop (min (min w.remaining r.logicalLength) r.data.length)).length + _
        rw [length_drop]
        omega

end Walk

section Carried

variable {copied : Prop} {isn : UInt32} {limit : ℕ} {fin : Bool} {stream : Bytes} {u : ℕ}
  {q : SendQueues}

theorem consecutive_of_tiles {p p' : ℕ} {rs : List SendRecord}
    (h : Tiles (Span.At copied isn stream) Span.length p (rs.map span) p') :
    Consecutive (seqAt isn p) rs := by
  induction rs generalizing p with
  | nil => trivial
  | cons _ _ ih =>
    cases h with
    | cons hat htail =>
      refine ⟨hat.seq, ?_⟩
      rw [← seqAt_add]
      exact ih htail

theorem Carries.fits (h : Carries copied isn limit fin stream u q) :
    ∀ r ∈ q.retransmitQueue, r.data.length ≤ r.logicalLength := by
  intro r hr
  have hmem : r.span ∈ q.spans := mem_map_of_mem (mem_append_left _ hr)
  obtain ⟨p, hat⟩ := h.tiles.exists_at hmem
  have hlength : r.logicalLength = r.data.length ∧ _ ∨ r.logicalLength = r.data.length + 1 ∧ _ :=
    hat.length
  omega

/-- The stream is carried by records that stand as they should. -/
theorem Carries.accounted (h : Carries copied isn limit fin stream u q)
    (hbytes : q.inFlightBytes = (q.retransmitQueue.map (·.data.length)).sum) :
    Accounted limit q := by
  have htiles := h.tiles
  rw [SendQueues.spans, map_append] at htiles
  have hsum := htiles.eq_add_sum
  have hcomp : Span.length ∘ span = logicalLength := rfl
  rw [map_append, map_map, map_map, hcomp, sum_append, ← h.inFlight] at hsum
  refine ⟨?_, fun r hr => ⟨?_, ?_⟩, h.inFlight, hbytes, ?_, h.room, ?_, h.max⟩
  · rw [h.una]
    obtain ⟨p, hfirst, -⟩ := htiles.split
    exact consecutive_of_tiles hfirst
  · exact h.alone.resolve_left fun hnone => by rw [hnone] at hr; cases hr
  · rw [h.una]
    exact (h.firstRecord (.inr hr)).1.seq
  · cases hp : q.persistProbe with
    | none | some =>
      rw [hp] at hsum
      simpa using hsum
  · rw [h.nxt, h.una, seqAt_add]

end Carried

/-- A closed buffer stays closed. -/
theorem SendOp.apply_closed {b : TcpSendBuffer κ} (h : b.closed)
    (hidle : b.pendingKind = .none) (op : SendOp) : (op.apply b).closed := by
  cases op with
  | enqueue data =>
    have : b.accepted data = [] := if_pos (.inr (.inr (.inl h)))
    rw [apply, TcpSendBuffer.enqueue, this, if_pos rfl]
    exact h
  | requestFin =>
    rw [apply, TcpSendBuffer.requestFin, if_pos (.inr h)]
    exact h
  | transmit =>
    rw [apply, nextSegment_closed h, onSent, if_pos hidle]
    exact h
  | abandon =>
    rw [apply, nextSegment_closed h]
    exact h
  | ack a w n ackOnly ece =>
    rcases onAck_cases b a w n ackOnly ece with ⟨-, hsame⟩ | ⟨-, -, hq⟩
    · exact (congrArg SendQueues.closed hsame).trans h
    · exact (congrArg SendQueues.closed hq).trans h
  | sack =>
    rw [apply, onSack, if_pos (.inr (.inr h))]
    exact h
  | updateMss mss => exact (congrArg SendQueues.closed (updateMss_toSendQueues b mss)).trans h

/-- The bytes in flight are counted. -/
def Weighed (q : SendQueues) : Prop := q.inFlightBytes = (q.retransmitQueue.map (·.data.length)).sum

omit [CongestionController κ] in
theorem Weighed.step {b : TcpSendBuffer κ} {op : SendOp} {q : SendQueues}
    (h : Weighed b.toSendQueues) (hfits : ∀ r ∈ b.retransmitQueue, r.data.length ≤ r.logicalLength)
    (ha : Accounts b op q) : Weighed q := by
  cases ha with
  | keep hrecords hsums =>
    have hbytes : q.inFlightBytes = b.inFlightBytes := congrArg Prod.fst hsums
    have hlengths := congrArg (List.map fun t => t.2.1) hrecords
    rw [map_map, map_map] at hlengths
    rw [Weighed, hbytes, h]
    exact congrArg List.sum hlengths.symm
  | @push _ _ r hrecords hsums =>
    have hbytes : q.inFlightBytes = b.inFlightBytes + r.data.length := congrArg Prod.fst hsums
    rw [Weighed, hbytes, h, hrecords]
    simp
  | close _ hrecords hsums =>
    have hbytes : q.inFlightBytes = 0 := congrArg Prod.fst hsums
    rw [Weighed, hbytes, hrecords]
    rfl
  | @ack a w n =>
    have hwalk := ackRecords_inFlightBytes (w := b.startWalk a) (n := n) hfits h
    exact (ackProbe_sacked _ b.persistProbe).2.2.1.trans hwalk
  | @sack blocks _ _ _ hwalk hrecords hsums =>
    have hbytes : q.inFlightBytes = b.inFlightBytes := congrArg Prod.fst hsums
    have hmap := sackRecords_map (fun r : SendRecord => r.data.length) (fun _ => rfl) blocks
      { sackedBytes := b.sackedBytes, sackedSequence := b.sackedSequence } b.retransmitQueue
    rw [hwalk] at hmap
    rw [Weighed, hbytes, h, hrecords, hmap]

section Runs

variable [LawfulController κ] {isn : UInt32}

theorem weighed_of_reaches {config : TcpSendConfig} {make : UInt16 → κ} (hmake : Shut (make 0))
    {s : SendRun κ} (hs : SendRun.Reaches False (.start isn config make) s) :
    s.buffer.closed ∨ Weighed s.buffer.toSendQueues := by
  have hinv : SendRun.Inv False isn config.retransmitQueueLimit s ∧
      (s.buffer.closed = true ∨ Weighed s.buffer.toSendQueues) := by
    refine Runs.invariant
      (P := fun s => SendRun.Inv False isn config.retransmitQueueLimit s ∧
        (s.buffer.closed = true ∨ Weighed s.buffer.toSendQueues)) hs ?_ ?_
    · exact ⟨sound_new config make hmake, .inr rfl⟩
    · rintro s op s' ⟨hinv, hw⟩ ⟨hop, rfl⟩
      refine ⟨SendRun.inv_step hinv op hop, ?_⟩
      rcases hinv.carries with hclosed | ⟨hc, -, -⟩
      · exact .inl (op.apply_closed hclosed hinv.idle)
      · rcases hw with hclosed | hw
        · exact .inl (op.apply_closed hclosed hinv.idle)
        · exact .inr (hw.step hc.fits (op.accounts s.buffer))
  exact hinv.2

/-- In every state of every run in which the buffer is open, between the
    operations and between `nextSegment` and `onSent`, its books agree, and no
    subtraction of an acknowledgment goes below zero. -/
theorem accounted_of_reaches (config : TcpSendConfig) (make : UInt16 → κ) (hmake : Shut (make 0))
    {s : SendRun κ} (hs : SendRun.Reaches False (.start isn config make) s) {b : TcpSendBuffer κ}
    (hb : b = s.buffer ∨ ∃ w n, b = (s.buffer.nextSegment w n).1) (hopen : b.closed = false) :
    Accounted config.retransmitQueueLimit b.toSendQueues ∧
      ∀ a n, sequenceAfter a b.sndMax = false → sequenceBefore a b.sndUna = false →
        Covered n (b.startWalk a) b.retransmitQueue ∧
          ProbeCovered (ackRecords n (b.startWalk a) b.retransmitQueue).1 b.persistProbe := by
  have hq : b.toSendQueues = s.buffer.toSendQueues := by
    rcases hb with rfl | ⟨w, n, rfl⟩
    · rfl
    · rcases nextSegment_queues s.buffer w n with ⟨b', hclose⟩ | hq
      · rw [hclose] at hopen
        cases hopen
      · exact hq
  have hclosed : s.buffer.closed = false := (congrArg SendQueues.closed hq).symm.trans hopen
  have hinv := hs.inv hmake
  have hc := (hinv.carries.resolve_left (by simp [hclosed])).1
  have hw := (weighed_of_reaches hmake hs).resolve_left (by simp [hclosed])
  have hbooks := hc.accounted hw
  have hfits := hc.fits
  rw [← hq] at hbooks hfits
  refine ⟨hbooks, fun a n _ _ => ⟨?_, fun r hr => .inr ?_⟩⟩
  · refine covered_of_sums hfits hbooks.inFlightSequence hbooks.inFlightBytes ?_
    rw [← hbooks.inFlightSequence]
    exact (Nat.le_add_right _ _).trans_eq hbooks.retransmitBytes.symm
  · -- the probe is alone, and all that is outstanding
    rw [(hbooks.probe r hr).1, ackRecords]
    have hall := hbooks.retransmitBytes
    rw [hr] at hall
    exact ((min_le_right _ _).trans (Nat.le_add_left _ _)).trans_eq hall.symm

/-- A probe of a closed window, and its acknowledgment. -/
theorem accounted_of_reaches_probe :
    let s := [SendOp.enqueue [104, 105], .transmit 0 0 none 0 0,
      .transmit 0 500 (some [104]) 0 500].foldl SendRun.step
      (.start 4294967295 {} AimdController.new)
    s.buffer.persistProbe.isSome = true ∧ s.buffer.retransmitBytes = 1 ∧
      Accounted (256 * 1024) s.buffer.toSendQueues ∧
      ProbeCovered (s.buffer.startWalk 0) s.buffer.persistProbe := by
  intro s
  have hall := accounted_of_reaches {} AimdController.new AimdController.shut_new
    (SendRun.reaches_foldl (.start 4294967295 {} AimdController.new) _)
    (.inl (rfl : s.buffer = s.buffer)) (by decide)
  exact ⟨by decide, by decide, hall.1, (hall.2 0 0 (by decide) (by decide)).2⟩

end Runs

end Netstack2
