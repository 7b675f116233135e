import Netstack2.Tcp.Send.Poll

/-!
# The timers of a send buffer

What is in flight is watched by one of two timers: the retransmission timer while the
peer window is open, and the persist timer while it is closed.

* `InBounds` is what the timers keep, whatever is in flight: their intervals are those of
  the configuration, and their deadlines are not further away than that;
* `Watched` says that one of them runs while something is in flight. Each way to set the
  timers anew establishes it.
-/

namespace Netstack2

open TcpSendBuffer

/-- What the timers of a buffer run on. -/
structure Clock where
  rtoMs : ℕ
  rtoDeadlineMs : ℕ
  minRtoMs : ℕ
  maxRtoMs : ℕ
  rtoRunning : Bool
  persistDeadlineMs : ℕ
  persistBaseMs : ℕ
  persistMaxMs : ℕ
  persistCurrentMs : ℕ

def SendTimers.clock (t : SendTimers) : Clock :=
  { rtoMs := t.rtoMs
    rtoDeadlineMs := t.rtoDeadlineMs
    minRtoMs := t.minRtoMs
    maxRtoMs := t.maxRtoMs
    rtoRunning := t.rtoRunning
    persistDeadlineMs := t.persistDeadlineMs
    persistBaseMs := t.persistBaseMs
    persistMaxMs := t.persistMaxMs
    persistCurrentMs := t.persistCurrentMs }

/-- The intervals of the timers are those of the configuration, and no deadline is further
    than the longest of them after `now`. -/
structure InBounds (config : TcpSendConfig) (now : ℕ) (c : Clock) : Prop where
  minRto : c.minRtoMs = config.minRtoMs
  maxRto : c.maxRtoMs = config.maxRtoMs
  base : c.persistBaseMs = config.persistTimerBaseMs
  max : c.persistMaxMs = config.persistTimerMaxMs
  rto_ge : config.minRtoMs ≤ c.rtoMs
  rto_le : c.rtoMs ≤ config.maxRtoMs
  current_pos : 0 < c.persistCurrentMs
  current_le : c.persistCurrentMs ≤ config.persistTimerMaxMs
  rtoDeadline : c.rtoRunning = true → c.rtoDeadlineMs ≤ now + config.maxRtoMs
  persistDeadline : c.persistDeadlineMs ≤ now + config.persistTimerMaxMs

/-- What the proofs use of a valid configuration, whose intervals are 64-bit numbers. -/
structure TcpSendConfig.Usable (config : TcpSendConfig) : Prop where
  mss : config.initialMss ≠ 0
  limit : 0 < config.retransmitQueueLimit
  minRto : config.minRtoMs ≤ config.initialRtoMs
  maxRto : config.initialRtoMs ≤ config.maxRtoMs
  base_pos : 0 < config.persistTimerBaseMs
  base_le : config.persistTimerBaseMs ≤ config.persistTimerMaxMs
  maxRto_fits : config.maxRtoMs ≤ maxUint64
  persistMax_fits : config.persistTimerMaxMs ≤ maxUint64

theorem TcpSendConfig.usable {config : TcpSendConfig} {scale : UInt8}
    (h : config.validate scale) (hrto : config.maxRtoMs ≤ maxUint64)
    (hpersist : config.persistTimerMaxMs ≤ maxUint64) : config.Usable := by
  obtain ⟨hmss, -, -, hlimit, -, hmin, hmax, hbase, hle, -⟩ := of_decide_eq_true h
  exact ⟨hmss, Nat.pos_of_ne_zero hlimit, hmin, hmax, Nat.pos_of_ne_zero hbase, hle, hrto, hpersist⟩

theorem saturatingAdd_le (a b : ℕ) : saturatingAdd a b ≤ a + b := by
  rw [saturatingAdd]
  split <;> omega

theorem saturatingAdd_ne_zero (a : ℕ) {b : ℕ} (hb : 0 < b) : saturatingAdd a b ≠ 0 := by
  rw [saturatingAdd, maxUint64]
  split <;> omega

/-! ## The intervals -/

namespace InBounds

variable {κ : Type} {config : TcpSendConfig} {b : TcpSendBuffer κ} {n : ℕ}

theorem mono {c : Clock} {m : ℕ} (h : InBounds config n c) (hle : n ≤ m) : InBounds config m c :=
  { h with
    rtoDeadline := fun hr => (h.rtoDeadline hr).trans (Nat.add_le_add_right hle _)
    persistDeadline := h.persistDeadline.trans (Nat.add_le_add_right hle _) }

theorem base_bounds {c : Clock} (h : InBounds config n c) (hc : config.Usable) :
    0 < c.persistBaseMs ∧ c.persistBaseMs ≤ config.persistTimerMaxMs := by
  rw [h.base]
  exact ⟨hc.base_pos, hc.base_le⟩

section

variable (h : InBounds config n b.clock)

include h

theorem stopRto : InBounds config n { b with rtoRunning := false, rtoDeadlineMs := 0 }.clock :=
  { h with rtoDeadline := fun hr => by cases hr }

theorem armRto : InBounds config n (b.armRto n).clock := by
  rw [TcpSendBuffer.armRto]
  split
  case isTrue => exact h.stopRto
  case isFalse =>
    refine { h with rtoDeadline := fun _ => ?_ }
    exact (saturatingAdd_le n b.rtoMs).trans (Nat.add_le_add_left h.rto_le n)

section

variable (hc : config.Usable)

include hc

theorem armPersistTimer : InBounds config n (b.armPersistTimer n).clock := by
  obtain ⟨hpos, hle⟩ := h.base_bounds hc
  rw [TcpSendBuffer.armPersistTimer]
  split
  case isTrue => exact h
  case isFalse =>
    refine { h with current_pos := hpos, current_le := hle, persistDeadline := ?_ }
    exact (saturatingAdd_le n _).trans (Nat.add_le_add_left hle n)

theorem cancelPersist : InBounds config n b.cancelPersist.clock := by
  obtain ⟨hpos, hle⟩ := h.base_bounds hc
  exact { h with current_pos := hpos, current_le := hle, persistDeadline := Nat.zero_le _ }

theorem restartPersist : InBounds config n b.restartPersist.clock :=
  { h.cancelPersist hc with rtoDeadline := fun hr => by cases hr }

theorem scheduleNextPersist : InBounds config n (b.scheduleNextPersist n).clock := by
  have hmax : b.persistMaxMs = config.persistTimerMaxMs := h.max
  have hpos : 0 < b.persistCurrentMs := h.current_pos
  have hbase := hc.base_pos
  have hle := hc.base_le
  have hfits := hc.persistMax_fits
  rw [maxUint64] at hfits
  let current := if b.persistCurrentMs ≥ b.persistMaxMs ∨
      b.persistCurrentMs > b.persistMaxMs / 2 then b.persistMaxMs
    else wrapUint64 (b.persistCurrentMs * 2)
  have hnext : 0 < current ∧ current ≤ config.persistTimerMaxMs := by
    dsimp only [current]
    rw [hmax, wrapUint64]
    split <;> omega
  exact
    { h with
      current_pos := hnext.1
      current_le := hnext.2
      persistDeadline := (saturatingAdd_le n current).trans (Nat.add_le_add_left hnext.2 n) }

theorem backoffRto : InBounds config n b.backoffRto.clock := by
  have hmax : b.maxRtoMs = config.maxRtoMs := h.maxRto
  have hge : config.minRtoMs ≤ b.rtoMs := h.rto_ge
  have hle : b.rtoMs ≤ config.maxRtoMs := h.rto_le
  have hfits := hc.maxRto_fits
  rw [maxUint64] at hfits
  rw [TcpSendBuffer.backoffRto]
  split
  case isTrue =>
    refine { h with rto_ge := ?_, rto_le := le_of_eq hmax }
    show config.minRtoMs ≤ b.maxRtoMs
    omega
  case isFalse =>
    have htwice : wrapUint64 (b.rtoMs * 2) = b.rtoMs * 2 := by
      rw [wrapUint64, Nat.mod_eq_of_lt (by omega)]
    refine { h with rto_ge := ?_, rto_le := ?_ }
    · show config.minRtoMs ≤ wrapUint64 (b.rtoMs * 2)
      omega
    · show wrapUint64 (b.rtoMs * 2) ≤ config.maxRtoMs
      omega

/-- A measured timeout is clamped. -/
theorem sampleRtt (w : AckWalk) : InBounds config n (b.sampleRtt w).clock := by
  have hmin : b.minRtoMs = config.minRtoMs := h.minRto
  have hmax : b.maxRtoMs = config.maxRtoMs := h.maxRto
  have hle := hc.minRto.trans hc.maxRto
  rw [TcpSendBuffer.sampleRtt]
  split
  case h_1 rtt hrtt =>
    split
    case isTrue => exact h
    case isFalse =>
      refine { h with rto_ge := ?_, rto_le := ?_ }
      all_goals
        dsimp only [SendTimers.clock, recomputeRto]
        split_ifs <;> omega
  case h_2 => exact h

theorem rearmDuplicate (w : UInt32) : InBounds config n (b.rearmDuplicate w n).clock := by
  rw [TcpSendBuffer.rearmDuplicate]
  dsimp only
  split_ifs
  · exact (h.restartPersist hc).armPersistTimer hc
  · exact (h.cancelPersist hc).armRto
  · exact h.cancelPersist hc

theorem rearm (walk : AckWalk) (w : UInt32) : InBounds config n (b.rearm walk w n).clock := by
  -- the three stages of `rearm`, one after the other
  have hfirst : InBounds config n
      (if b.retransmitQueue.isEmpty then { b with rtoRunning := false, rtoDeadlineMs := 0 }
        else if w ≠ 0 then b.armRto n else b).clock := by
    split_ifs
    · exact h.stopRto
    · exact h.armRto
    · exact h
  have hsecond (b : TcpSendBuffer κ) (h : InBounds config n b.clock) : InBounds config n
      (if walk.partialRtoRecovery && w != 0 && !b.retransmitQueue.isEmpty then
        { b with fastRetransmitPending := true, rtoRunning := true, rtoDeadlineMs := n }
        else b).clock := by
    split
    · exact { h with rtoDeadline := fun _ => Nat.le_add_right n _ }
    · exact h
  have hthird (b : TcpSendBuffer κ) (h : InBounds config n b.clock) : InBounds config n
      (if w = 0 then
        if b.restartPersist.hasWork then b.restartPersist.armPersistTimer n
        else b.restartPersist.cancelPersist
      else b.cancelPersist).clock := by
    split_ifs
    · exact (h.restartPersist hc).armPersistTimer hc
    · exact (h.restartPersist hc).cancelPersist hc
    · exact h.cancelPersist hc
  exact hthird _ (hsecond _ hfirst)

end

theorem feedController [CongestionController κ] (walk : AckWalk) :
    InBounds config n (b.feedController walk n).clock := by
  rw [TcpSendBuffer.feedController]
  dsimp only
  split <;> exact h

theorem afterNewRecord [CongestionController κ] : InBounds config n (b.afterNewRecord n).clock := by
  have hrto : InBounds config n (if b.rtoRunning then b else b.armRto n).clock := by
    split
    · exact h
    · exact h.armRto
  rw [TcpSendBuffer.afterNewRecord]
  generalize (if b.rtoRunning then b else b.armRto n) = armed at hrto
  split_ifs <;> exact hrto

theorem commit [CongestionController κ] (hc : config.Usable) (owner : Option Bytes)
    (offset : ℕ) : InBounds config n (b.commit owner offset n).1.clock := by
  rw [TcpSendBuffer.commit]
  split
  · exact h
  · rw [storeNewRecord]
    split
    · exact h
    · refine afterNewRecord ?_
      exact h
  · rw [storeProbe]
    split <;> exact h
  · rw [promoteProbe]
    split
    · exact h
    · refine armRto ?_
      exact h
  · rw [commitRto]
    split
    · exact h
    · dsimp only
      generalize hb' : TcpSendBuffer.backoffRto _ = b'
      have hbackoff : InBounds config n b'.clock := by
        rw [← hb']
        refine InBounds.backoffRto ?_ hc
        exact h
      split
      · exact
          { hbackoff.armRto with
            rtoDeadline := fun hr => by cases hr
            persistDeadline := Nat.zero_le _ }
      · exact hbackoff.armRto
  · rw [commitFast]
    split
    · exact h
    · refine armRto ?_
      exact h
  · exact h
  · split <;> exact h

end

theorem probed {x : TcpSendBuffer κ × Bool} (h : InBounds config n x.1.clock) (hc : config.Usable)
    (kind : PendingKind) : InBounds config n (probed kind n x).clock := by
  rw [TcpSendBuffer.probed]
  split
  · refine scheduleNextPersist ?_ hc
    exact h
  · exact h

end InBounds

/-! ## The watch on what is in flight -/

section

variable {κ : Type} {config : TcpSendConfig} {b : TcpSendBuffer κ} {n : ℕ}

/-- One of the timers runs while something is in flight. -/
def Watched (b : TcpSendBuffer κ) : Prop :=
  b.retransmitQueue ≠ [] → b.rtoRunning = true ∨ b.persistDeadlineMs ≠ 0

theorem watched_armRto : Watched (b.armRto n) := by
  intro hq
  rw [armRto] at hq ⊢
  split at hq
  case isTrue hempty => exact absurd (List.isEmpty_iff.1 hempty) hq
  case isFalse hne => exact .inl (by rw [if_neg hne])

theorem watched_armPersistTimer (hc : config.Usable) (h : InBounds config n b.clock)
    (hopen : b.closed = false) : Watched (b.armPersistTimer n) := by
  intro hq
  rw [(congrArg SendQueues.retransmitQueue (armPersistTimer_timersOnly b n).queues)] at hq
  have hwork : b.hasWork := by
    rw [hasWork, List.isEmpty_eq_false_iff.2 hq]
    simp
  rw [armPersistTimer]
  split
  case isTrue hset =>
    refine .inr ?_
    rcases hset with hset | hset | hset
    · simp [hopen] at hset
    · simp [hwork] at hset
    · exact hset
  case isFalse => exact .inr (saturatingAdd_ne_zero n (h.base_bounds hc).1)

theorem watched_rearmDuplicate (hc : config.Usable) (h : InBounds config n b.clock)
    (hopen : b.closed = false) (w : UInt32) : Watched (b.rearmDuplicate w n) := by
  rw [rearmDuplicate]
  split
  case isTrue => exact watched_armPersistTimer hc (h.restartPersist hc) hopen
  case isFalse =>
    dsimp only
    split
    case isTrue => exact watched_armRto
    case isFalse hnot =>
      intro hq
      rw [List.isEmpty_eq_false_iff.2 hq, Bool.not_false, Bool.true_and] at hnot
      exact .inl (by simpa using hnot)

theorem watched_rearm (hc : config.Usable) (h : InBounds config n b.clock)
    (hopen : b.closed = false) (walk : AckWalk) (w : UInt32) : Watched (b.rearm walk w n) := by
  intro hq
  have hsame := congrArg SendQueues.retransmitQueue (rearm_sameStream b walk w n).queues
  have hne : b.retransmitQueue.isEmpty = false := List.isEmpty_eq_false_iff.2 (hsame ▸ hq)
  by_cases hw : w = 0
  · have hrearm : b.rearm walk w n =
        if b.restartPersist.hasWork then b.restartPersist.armPersistTimer n
        else b.restartPersist.cancelPersist := by
      simp [rearm, hw, hne]
    rw [hrearm] at hq ⊢
    have hwork : b.restartPersist.hasWork := by simp [hasWork, restartPersist, hne]
    rw [if_pos hwork] at hq ⊢
    exact watched_armPersistTimer hc (h.restartPersist hc) hopen hq
  · -- the retransmission timer is armed, and only its deadline may change then
    have harmed : (b.armRto n).rtoRunning := by rw [armRto, hne, if_neg Bool.false_ne_true]
    refine .inl ?_
    simp only [rearm, hne, Bool.false_eq_true, if_false, ne_eq, hw, not_false_eq_true, if_true]
    split
    · rfl
    · exact harmed

theorem watched_polled [CongestionController κ] (hc : config.Usable) (h : InBounds config n b.clock)
    (hopen : b.closed = false) (halone : b.persistProbe = none ∨ b.retransmitQueue = [])
    (w : UInt32) : InBounds config n (b.polled w n).clock ∧ Watched (b.polled w n) := by
  have hnoted : InBounds config n (b.noted w).clock := by
    rw [noted]
    split <;> exact h
  have hqueues : (b.noted w).toSendQueues = b.toSendQueues := by
    rw [noted]
    split <;> rfl
  have hopen' : (b.noted w).closed = false := (congrArg SendQueues.closed hqueues).trans hopen
  rw [polled]
  split
  case isTrue =>
    exact ⟨hnoted.stopRto.armPersistTimer hc, watched_armPersistTimer hc hnoted.stopRto hopen'⟩
  case isFalse =>
    dsimp only
    split
    case isTrue => exact ⟨(hnoted.cancelPersist hc).armRto, watched_armRto⟩
    case isFalse hnot =>
      refine ⟨hnoted.cancelPersist hc, fun hq => .inl ?_⟩
      -- a probe is alone, so that the queue is not watched for nothing
      have hq' : b.retransmitQueue ≠ [] := (congrArg SendQueues.retransmitQueue hqueues) ▸ hq
      have hp : (b.noted w).persistProbe = none :=
        (congrArg SendQueues.persistProbe hqueues).trans (halone.resolve_right hq')
      rw [List.isEmpty_eq_false_iff.2 hq] at hnot
      simpa [cancelPersist, hp] using hnot

theorem watched_afterNewRecord [CongestionController κ] : Watched (b.afterNewRecord n) := by
  have hrto : Watched (if b.rtoRunning then b else b.armRto n) := by
    split
    case isTrue hr => exact fun _ => .inl hr
    case isFalse => exact watched_armRto
  rw [afterNewRecord]
  generalize (if b.rtoRunning then b else b.armRto n) = armed at hrto
  split_ifs <;> exact hrto

/-- A probe schedules the next one. -/
theorem watched_probed (hc : config.Usable) {x : TcpSendBuffer κ × Bool} {kind : PendingKind}
    (h : InBounds config n x.1.clock)
    (hkind : kind = .persistNew ∨ kind = .persistRetry ∨ kind = .persistExisting)
    (hx : x.2 = false → Watched x.1) : Watched (probed kind n x) := by
  rw [probed]
  split
  case isTrue =>
    refine fun _ => .inr (saturatingAdd_ne_zero n ?_)
    have hnext := InBounds.scheduleNextPersist
      (b := { x.1 with persistProbeCount := x.1.persistProbeCount + 1 }) h hc
    exact hnext.current_pos
  case isFalse hnot => exact hx (by simpa [hkind] using hnot)

theorem probed_of_other {x : TcpSendBuffer κ × Bool} {kind : PendingKind}
    (hkind : ¬(kind = .persistNew ∨ kind = .persistRetry ∨ kind = .persistExisting)) :
    probed kind n x = x.1 := if_neg fun h => hkind h.2

/-- The segment is committed, and the buffer closes or what is in flight is watched. -/
theorem watched_commit [CongestionController κ] (hc : config.Usable)
    (h : InBounds config n b.clock) (hw : Watched b) (owner : Option Bytes) (offset : ℕ) :
    (probed b.pendingKind n (b.commit owner offset n)).closed ∨
      Watched (probed b.pendingKind n (b.commit owner offset n)) := by
  have hbounds := h.commit hc owner offset
  cases hk : b.pendingKind with
  | none =>
    rw [probed_of_other (by decide), commit, hk]
    exact .inr hw
  | newData =>
    rw [probed_of_other (by decide), commit, hk]
    dsimp only
    rw [storeNewRecord]
    split
    case h_1 => exact .inr hw
    case h_2 => exact .inr watched_afterNewRecord
  | persistPromote =>
    rw [probed_of_other (by decide), commit, hk]
    dsimp only
    rw [promoteProbe]
    split
    case h_1 => exact .inr hw
    case h_2 => exact .inr watched_armRto
  | rtoRetransmit =>
    rw [probed_of_other (by decide), commit, hk]
    dsimp only
    rw [commitRto]
    split
    case h_1 => exact .inr hw
    case h_2 =>
      dsimp only
      split
      · exact .inl rfl
      · exact .inr watched_armRto
  | fastRetransmit =>
    rw [probed_of_other (by decide), commit, hk]
    dsimp only
    rw [commitFast]
    split
    case h_1 => exact .inr hw
    case h_2 => exact .inr watched_armRto
  | persistNew =>
    refine .inr (watched_probed hc hbounds (by decide) ?_)
    rw [commit, hk]
    dsimp only
    rw [storeProbe]
    split <;> exact fun _ => hw
  | persistRetry =>
    refine .inr (watched_probed hc hbounds (by decide) ?_)
    rw [commit, hk]
    exact fun _ => hw
  | persistExisting =>
    refine .inr (watched_probed hc hbounds (by decide) ?_)
    rw [commit, hk]
    dsimp only
    split
    · exact fun _ => hw
    · exact fun hx => by cases hx

end

end Netstack2
