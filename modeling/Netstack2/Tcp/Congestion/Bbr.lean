import Netstack2.Tcp.Congestion
import Netstack2.Tcp.Congestion.Rtprop

/-!
# The BBR controller

BBR paces a flow by its estimates of the bandwidth of the bottleneck (`btlbw`) and
of the propagation time (`rtprop`), and bounds what is in flight by their product.
It goes through four states:

* *startup*: the rate more than doubles in every round, until the bandwidth has not
  grown by a quarter in three rounds;
* *drain*: the queue that startup has built is drained, until the window is at the
  bandwidth-delay product;
* *probe bandwidth*: the rate goes around the estimate in a cycle of eight phases;
* *probe round-trip time*: from time to time, for 200 milliseconds.

A round ends with the first acknowledgment after as many bytes were sent as had been
at its start. The send buffer does not report what it sends, so that each
acknowledgment ends a round.

Main results, for an unbounded sequence of acknowledgments that all measure the same
bandwidth and round-trip time:

* `reaches_steady_state_iff`: the controller leaves startup and drain for ever, if and
  only if the bandwidth is below `2 ^ 62` and the product is at least four segments;
* `stuck_in_drain`: with a product of one kilobyte it stays in drain.
-/

namespace Netstack2

open DeliveryRateSampler (saturatingMulDiv)

/-- The states of BBR. -/
inductive BbrState
  | startup
  | drain
  | probeBw
  | probeRtt
  deriving DecidableEq

/-- The BBR controller. -/
structure BbrController extends RtpropFilter where
  mss : UInt16
  btlbw : ℕ := 0
  state : BbrState := .startup
  startupPrevRoundMaxBw : ℕ := 0
  startupRoundMaxBw : ℕ := 0
  startupRoundsNoGrowth : ℕ := 0
  cycleIndex : ℕ := 0
  cycleStartMs : ℕ := 0
  probeRttEnterMs : ℕ := 0
  pacingRate : ℕ := 0
  cwnd : ℕ
  bytesSent : ℕ := 0
  roundStartBytes : ℕ := 0
  roundStarted : Bool := false

namespace BbrController

variable (c : BbrController)

def kStartupGainQ8 : ℕ := 738

def kDrainGainQ8 : ℕ := 89

/-- The gains of the phases of probing for bandwidth. -/
def kProbeBwGainsQ8 : List ℕ := [320, 192, 256, 256, 256, 256, 256, 256]

def kCycleLen : ℕ := 8

def kProbeRttIntervalMs : ℕ := 10000

def kProbeRttDurationMs : ℕ := 200

/-- The controller of a new flow. -/
def new (mss : UInt16) : BbrController := { mss := mss, cwnd := mss.toNat * 2 }

def onPacketSent (bytes : ℕ) : BbrController :=
  { c with bytesSent := wrapUint64 (c.bytesSent + bytes) }

/-- The first acknowledgment of a round. -/
def beginRound (rs : RateSample) : BbrController :=
  if c.roundStarted = false ∧ rs.ackedBytes > 0 then
    { c with roundStarted := true, roundStartBytes := c.bytesSent }
  else c

/-- The bandwidth is the largest one measured while there was enough to send. -/
def updateBtlBw (rs : RateSample) : BbrController :=
  if rs.deliveryRateBytesPerSec = 0 then c
  else if rs.appLimited then c
  else { c with
    btlbw := if rs.deliveryRateBytesPerSec > c.btlbw then rs.deliveryRateBytesPerSec else c.btlbw
    startupRoundMaxBw :=
      if rs.deliveryRateBytesPerSec > c.startupRoundMaxBw then rs.deliveryRateBytesPerSec
      else c.startupRoundMaxBw }

def updateRTprop (rs : RateSample) : BbrController :=
  { c with toRtpropFilter := c.toRtpropFilter.updateRTprop rs.rttMs rs.nowMs }

/-- The bandwidth-delay product, in bytes. -/
def bdp : ℕ := if c.btlbw = 0 ∨ c.rtprop = 0 then 0 else saturatingMulDiv c.btlbw c.rtprop 1000

/-- The rounds in a row in which the bandwidth did not grow by a quarter. -/
def noGrowthRounds : ℕ :=
  let current := c.startupRoundMaxBw
  let previous := c.startupPrevRoundMaxBw
  if previous > 0 ∧ current > 0 then
    if current ≤ saturatingMulDiv previous 5 4 then c.startupRoundsNoGrowth + 1 else 0
  else c.startupRoundsNoGrowth

/-- Leave startup after three such rounds. -/
def checkStartupDone : BbrController :=
  let rounds := c.noGrowthRounds
  let c := { c with startupPrevRoundMaxBw := c.startupRoundMaxBw, startupRoundMaxBw := 0 }
  if rounds ≥ 3 then { c with state := .drain, startupRoundsNoGrowth := 0 }
  else { c with startupRoundsNoGrowth := rounds }

/-- Leave drain once the window is at the bandwidth-delay product. -/
def checkDrainDone : BbrController :=
  if c.bdp > 0 ∧ c.cwnd ≤ c.bdp then
    { c with state := .probeBw, cycleIndex := 0, cycleStartMs := 0 }
  else c

def enterProbeRtt (nowMs : ℕ) : BbrController :=
  { c with state := .probeRtt, probeRttEnterMs := nowMs }

def exitProbeRtt (nowMs : ℕ) : BbrController :=
  { c with rtpropStampMs := nowMs, state := .probeBw, cycleIndex := 0, cycleStartMs := nowMs }

/-- Each phase of the cycle lasts one round-trip time. -/
def advanceCycle (nowMs : ℕ) : BbrController :=
  if c.cycleStartMs = 0 then { c with cycleStartMs := nowMs }
  else
    let phaseDuration := if c.rtprop > 0 then c.rtprop else 1
    if subUint64 nowMs c.cycleStartMs ≥ phaseDuration then
      { c with cycleStartMs := nowMs, cycleIndex := (c.cycleIndex + 1) % kCycleLen }
    else c

/-- The transitions that time brings about. -/
def advanceState (nowMs : ℕ) : BbrController :=
  match c.state with
  | .startup => c
  | .drain => c
  | .probeBw =>
    let c := c.advanceCycle nowMs
    if subUint64 nowMs c.rtpropStampMs ≥ kProbeRttIntervalMs then c.enterProbeRtt nowMs else c
  | .probeRtt =>
    if subUint64 nowMs c.probeRttEnterMs ≥ kProbeRttDurationMs then c.exitProbeRtt nowMs else c

/-- The gain of the state, for the rate and for the window. -/
def gain : ℕ :=
  match c.state with
  | .startup => kStartupGainQ8
  | .drain => kDrainGainQ8
  | .probeRtt => 256
  | .probeBw => kProbeBwGainsQ8.getD c.cycleIndex 0

/-- The rate and the window follow the estimates; the window is at least four segments. -/
def recompute : BbrController :=
  { c with
    pacingRate := if c.btlbw > 0 then saturatingMulDiv c.btlbw c.gain 256 else c.pacingRate
    cwnd := max (saturatingMulDiv c.bdp c.gain 256) (c.mss.toNat * 4) }

/-- The round ends once enough was sent since it began. -/
def endRound : BbrController :=
  if c.roundStarted ∧ subUint64 c.bytesSent c.roundStartBytes ≥ c.roundStartBytes then
    let c := { c with roundStarted := false }
    if c.state = .startup then c.checkStartupDone else c
  else c

def onAck (rs : RateSample) : BbrController :=
  let c := ((c.beginRound rs).updateBtlBw rs).updateRTprop rs
  let c := (c.advanceState rs.nowMs).recompute
  let c := if c.state = .drain then c.checkDrainDone else c
  c.endRound

/-- A retransmission timeout: back to one segment. -/
def onRto : BbrController := { c with cwnd := c.mss.toNat, pacingRate := 0 }

/-- An ECN echo halves the window, down to two segments. -/
def onEcnCe : BbrController := { c with cwnd := max (c.cwnd / 2) (c.mss.toNat * 2) }

/-- Back to the state of a new flow. -/
def reset : BbrController := new c.mss

/-- BBR has no fast recovery, and does not follow a change of the segment size: the
    send buffer does not call these. -/
instance : CongestionController BbrController where
  algorithm _ := .bbr
  congestionWindow c := UInt32.ofNat (min c.cwnd maxUint32)
  pacingRate c := UInt32.ofNat (min c.pacingRate maxUint32)
  inFastRecovery _ := false
  onAck := onAck
  onRto := onRto
  onEcnCe := onEcnCe
  onFastRecoveryEntry c _ := c
  onDupAck c := c
  onFastRecoveryExit c := c
  updateMss c _ _ := c
  reset := reset

/-! ## The window -/

section

variable (c : BbrController) (rs : RateSample)

/-- What the window is computed from. -/
def path : UInt16 × ℕ × ℕ := (c.mss, c.btlbw, c.rtprop)

theorem beginRound_path : (c.beginRound rs).path = c.path := by
  rw [beginRound]
  split <;> rfl

theorem advanceState_path (nowMs : ℕ) : (c.advanceState nowMs).path = c.path := by
  have hcycle : (c.advanceCycle nowMs).path = c.path := by
    rw [advanceCycle]
    dsimp only
    split_ifs <;> rfl
  rw [advanceState]
  split
  · rfl
  · rfl
  · dsimp only
    split <;> exact hcycle
  · split <;> rfl

theorem checkDrainDone_keeps :
    c.checkDrainDone.path = c.path ∧ c.checkDrainDone.cwnd = c.cwnd := by
  rw [checkDrainDone]
  split <;> exact ⟨rfl, rfl⟩

theorem checkStartupDone_keeps :
    c.checkStartupDone.path = c.path ∧ c.checkStartupDone.cwnd = c.cwnd := by
  rw [checkStartupDone]
  split <;> exact ⟨rfl, rfl⟩

theorem endRound_keeps : c.endRound.path = c.path ∧ c.endRound.cwnd = c.cwnd := by
  rw [endRound]
  split
  case isTrue =>
    dsimp only
    split
    · exact checkStartupDone_keeps _
    · exact ⟨rfl, rfl⟩
  case isFalse => exact ⟨rfl, rfl⟩

/-- The window after an acknowledgment is computed from the estimates it has updated. -/
theorem onAck_window :
    (c.onAck rs).path = (((c.beginRound rs).updateBtlBw rs).updateRTprop rs).path ∧
      ∃ gain, (c.onAck rs).cwnd =
        max (saturatingMulDiv (c.onAck rs).bdp gain 256) ((c.onAck rs).mss.toNat * 4) := by
  let measured := ((c.beginRound rs).updateBtlBw rs).updateRTprop rs
  let computed := (measured.advanceState rs.nowMs).recompute
  let drained := if computed.state = .drain then computed.checkDrainDone else computed
  have hdrained : drained.path = computed.path ∧ drained.cwnd = computed.cwnd := by
    dsimp only [drained]
    split
    · exact checkDrainDone_keeps _
    · exact ⟨rfl, rfl⟩
  have hend := endRound_keeps drained
  have hpath : (c.onAck rs).path = (measured.advanceState rs.nowMs).path := hend.1.trans hdrained.1
  refine ⟨hpath.trans (advanceState_path _ _), (measured.advanceState rs.nowMs).gain, ?_⟩
  have hcwnd : (c.onAck rs).cwnd = computed.cwnd := hend.2.trans hdrained.2
  have hmss : (c.onAck rs).mss = (measured.advanceState rs.nowMs).mss := congrArg Prod.fst hpath
  have hbdp : (c.onAck rs).bdp = (measured.advanceState rs.nowMs).bdp := by
    have hrest := congrArg Prod.snd hpath
    rw [bdp, bdp, show (c.onAck rs).btlbw = _ from congrArg Prod.fst hrest,
      show (c.onAck rs).rtprop = _ from congrArg Prod.snd hrest]
    rfl
  rw [hcwnd, hmss, hbdp]
  rfl

@[simp] theorem onAck_mss : (c.onAck rs).mss = c.mss := by
  have hbtlbw : ((c.beginRound rs).updateBtlBw rs).mss = (c.beginRound rs).mss := by
    rw [updateBtlBw]
    split_ifs <;> rfl
  exact (congrArg Prod.fst (onAck_window c rs).1).trans
    (hbtlbw.trans (congrArg Prod.fst (beginRound_path c rs)))

/-- After an acknowledgment the window is at least four segments. -/
theorem four_mul_mss_le_onAck : c.mss.toNat * 4 ≤ (c.onAck rs).cwnd := by
  obtain ⟨-, _, hcwnd⟩ := onAck_window c rs
  rw [hcwnd, onAck_mss]
  exact le_max_right ..

end

/-- Without a segment size and without estimates there is no window. -/
instance : LawfulController BbrController where
  Shut c := c.mss = 0 ∧ c.cwnd = 0 ∧ (c.btlbw = 0 ∨ c.rtprop = 0)
  congestionWindow_eq_zero {c} h := by
    show UInt32.ofNat (min c.cwnd maxUint32) = 0
    rw [h.2.1]
    rfl
  shut_onAck {c rs} h hrate hrtt := by
    obtain ⟨hmss, -, hpath⟩ := h
    obtain ⟨hkept, gain, hcwnd⟩ := onAck_window c rs
    -- nothing is measured, so the estimates are what they were
    have hsame : (c.onAck rs).path = c.path := by
      rw [hkept, ← beginRound_path c rs, updateBtlBw, if_pos hrate, updateRTprop,
        RtpropFilter.updateRTprop, if_pos hrtt]
    have hmss' : (c.onAck rs).mss = 0 := (congrArg Prod.fst hsame).trans hmss
    have hpath' : (c.onAck rs).btlbw = 0 ∨ (c.onAck rs).rtprop = 0 := by
      have hrest := congrArg Prod.snd hsame
      rwa [show (c.onAck rs).btlbw = _ from congrArg Prod.fst hrest,
        show (c.onAck rs).rtprop = _ from congrArg Prod.snd hrest]
    refine ⟨hmss', ?_, hpath'⟩
    show (c.onAck rs).cwnd = 0
    rw [hcwnd, hmss', bdp, if_pos hpath']
    rfl
  shut_onEcnCe {c} h := by
    refine ⟨h.1, ?_, h.2.2⟩
    show max (c.cwnd / 2) (c.mss.toNat * 2) = 0
    rw [h.1, h.2.1]
    rfl
  shut_onDupAck h hr := by cases hr
  shut_onFastRecoveryExit h hr := by cases hr

theorem shut_new : LawfulController.Shut (BbrController.new 0) := ⟨rfl, rfl, .inl rfl⟩

/-! ## A steady path -/

/-- The acknowledgment measures the bandwidth `B` and the round-trip time `R`. -/
structure Steady (B R : ℕ) (rs : RateSample) : Prop where
  rate : rs.deliveryRateBytesPerSec = B
  rtt : rs.rttMs = R
  acked : 0 < rs.ackedBytes
  busy : rs.appLimited = false

/-- The controller after the first `n` acknowledgments. -/
def afterAcks (mss : UInt16) (samples : ℕ → RateSample) : ℕ → BbrController
  | 0 => new mss
  | n + 1 => (afterAcks mss samples n).onAck (samples n)

/-- The controller has left startup and drain. -/
def Cruising (c : BbrController) : Prop := c.state = .probeBw ∨ c.state = .probeRtt

/-- It does not go back. -/
theorem Cruising.onAck {c : BbrController} (h : c.Cruising) (rs : RateSample) :
    (c.onAck rs).Cruising := by
  let measured := ((c.beginRound rs).updateBtlBw rs).updateRTprop rs
  let computed := (measured.advanceState rs.nowMs).recompute
  have hmeasured : measured.state = c.state := by
    have hbegin : (c.beginRound rs).state = c.state := by
      rw [beginRound]
      split <;> rfl
    have hbtlbw : ((c.beginRound rs).updateBtlBw rs).state = (c.beginRound rs).state := by
      rw [updateBtlBw]
      split_ifs <;> rfl
    exact hbtlbw.trans hbegin
  have hcomputed : computed.Cruising := by
    show (measured.advanceState rs.nowMs).Cruising
    rcases h with h | h
    · rw [advanceState, hmeasured, h]
      dsimp only
      split
      · exact .inr rfl
      · left
        have hcycle : (measured.advanceCycle rs.nowMs).state = measured.state := by
          rw [advanceCycle]
          dsimp only
          split_ifs <;> rfl
        rw [hcycle, hmeasured, h]
    · rw [advanceState, hmeasured, h]
      dsimp only
      split
      · exact .inl rfl
      · exact .inr (hmeasured.trans h)
  have hdrain : computed.state ≠ .drain := by rcases hcomputed with h | h <;> rw [h] <;> decide
  have hstartup : computed.state ≠ .startup := by rcases hcomputed with h | h <;> rw [h] <;> decide
  have honAck : c.onAck rs = computed.endRound := congrArg endRound (if_neg hdrain)
  rw [honAck, endRound]
  split
  case isTrue =>
    rw [if_neg hstartup]
    exact hcomputed
  case isFalse => exact hcomputed

/-- The controller has seen nothing but acknowledgments of a path with the bandwidth
    `B` and the round-trip time `R`. -/
structure OnPath (mss : UInt16) (B R : ℕ) (c : BbrController) : Prop where
  mss : c.mss = mss
  btlbw : c.btlbw ≤ B
  filter : c.toRtpropFilter.Constant R
  sent : c.bytesSent = 0
  between : c.roundStarted = false

theorem onPath_new (mss : UInt16) (B R : ℕ) : OnPath mss B R (new mss) where
  mss := rfl
  btlbw := Nat.zero_le B
  filter := RtpropFilter.constant_new R
  sent := rfl
  between := rfl

section

variable {mss : UInt16} {B R : ℕ} {c : BbrController} {rs : RateSample}

/-- The controller after the estimates are updated. -/
def OnPath.measured (B R : ℕ) (c : BbrController) (nowMs : ℕ) : BbrController :=
  { c with
    toRtpropFilter := c.toRtpropFilter.updateRTprop R nowMs
    btlbw := B
    startupRoundMaxBw := max c.startupRoundMaxBw B
    roundStartBytes := c.bytesSent
    roundStarted := true }

theorem OnPath.measured_eq (h : OnPath mss B R c) (hs : Steady B R rs) (hB : B ≠ 0) :
    ((c.beginRound rs).updateBtlBw rs).updateRTprop rs = measured B R c rs.nowMs := by
  have hbtlbw : (if B > c.btlbw then B else c.btlbw) = B := by
    have := h.btlbw
    split <;> omega
  have hmax : (if B > c.startupRoundMaxBw then B else c.startupRoundMaxBw) =
      max c.startupRoundMaxBw B := by
    split <;> omega
  rw [beginRound, if_pos ⟨h.between, hs.acked⟩, updateBtlBw, hs.rate, if_neg hB, hs.busy,
    if_neg Bool.false_ne_true, updateRTprop, hs.rtt, measured]
  rw [hbtlbw, hmax]

/-- Before the cycle of probing, time brings no transition. -/
theorem OnPath.onAck_eq (h : OnPath mss B R c) (hs : Steady B R rs) (hB : B ≠ 0)
    (hstate : c.state = .startup ∨ c.state = .drain) :
    c.onAck rs =
      (if c.state = .drain then (measured B R c rs.nowMs).recompute.checkDrainDone
      else (measured B R c rs.nowMs).recompute).endRound := by
  have hstay : (measured B R c rs.nowMs).advanceState rs.nowMs = measured B R c rs.nowMs := by
    rw [advanceState, show (measured B R c rs.nowMs).state = c.state from rfl]
    rcases hstate with hstate | hstate <;> rw [hstate]
  simp only [onAck, h.measured_eq hs hB, hstay]
  rfl

/-- The round that the acknowledgment began ends with it. -/
theorem endRound_of_started (hstarted : c.roundStarted = true) (hbytes : c.roundStartBytes = 0) :
    c.endRound =
      if c.state = .startup then { c with roundStarted := false }.checkStartupDone
      else { c with roundStarted := false } := by
  rw [endRound, hbytes, if_pos ⟨hstarted, Nat.zero_le _⟩]

/-- In startup, every acknowledgment ends a round with the bandwidth `B`. -/
theorem OnPath.onAck_startup (h : OnPath mss B R c) (hs : Steady B R rs) (hB : B ≠ 0) (hR : R ≠ 0)
    (hstate : c.state = .startup) (hmax : c.startupRoundMaxBw = 0) {rounds : ℕ}
    (hrounds : { c with startupRoundMaxBw := B }.noGrowthRounds = rounds) :
    OnPath mss B R (c.onAck rs) ∧ (c.onAck rs).startupPrevRoundMaxBw = B ∧
      (c.onAck rs).startupRoundMaxBw = 0 ∧
      (c.onAck rs).state = (if rounds ≥ 3 then .drain else .startup) ∧
      (c.onAck rs).startupRoundsNoGrowth = if rounds ≥ 3 then 0 else rounds := by
  have hfilter := (h.filter.updateRTprop hR rs.nowMs).1
  let m := measured B R c rs.nowMs
  have honAck : c.onAck rs = { m.recompute with roundStarted := false }.checkStartupDone := by
    rw [h.onAck_eq hs hB (.inl hstate), if_neg (by rw [hstate]; decide)]
    exact (endRound_of_started (c := m.recompute) rfl h.sent).trans (if_pos hstate)
  have hcurrent : m.startupRoundMaxBw = B := by
    show max c.startupRoundMaxBw B = B
    rw [hmax, Nat.zero_max]
  have hcount : { m.recompute with roundStarted := false }.noGrowthRounds = rounds := by
    rw [← hrounds, noGrowthRounds, noGrowthRounds]
    rw [show m.recompute.startupRoundMaxBw = B from hcurrent]
    rfl
  rw [honAck, checkStartupDone]
  rw [hcount]
  by_cases hdone : rounds ≥ 3
  · rw [if_pos hdone, if_pos hdone, if_pos hdone]
    exact ⟨⟨h.mss, le_refl B, hfilter, h.sent, rfl⟩, hcurrent, rfl, rfl, rfl⟩
  · rw [if_neg hdone, if_neg hdone, if_neg hdone]
    exact ⟨⟨h.mss, le_refl B, hfilter, h.sent, rfl⟩, hcurrent, rfl, hstate, rfl⟩

/-- In drain, an acknowledgment ends it if the window it leaves is within the
    bandwidth-delay product. -/
theorem OnPath.onAck_drain (h : OnPath mss B R c) (hs : Steady B R rs) (hB : B ≠ 0) (hR : R ≠ 0)
    (hstate : c.state = .drain) :
    if 0 < saturatingMulDiv B R 1000 ∧
        max (saturatingMulDiv (saturatingMulDiv B R 1000) kDrainGainQ8 256) (mss.toNat * 4) ≤
          saturatingMulDiv B R 1000
    then (c.onAck rs).Cruising
    else OnPath mss B R (c.onAck rs) ∧ (c.onAck rs).state = .drain := by
  obtain ⟨hfilter, hrtprop⟩ := h.filter.updateRTprop hR rs.nowMs
  let m := measured B R c rs.nowMs
  have honAck : c.onAck rs = m.recompute.checkDrainDone.endRound := by
    rw [h.onAck_eq hs hB (.inr hstate), if_pos hstate]
  have hbdp : m.bdp = saturatingMulDiv B R 1000 := by
    rw [bdp, show m.rtprop = R from hrtprop, show m.btlbw = B from rfl,
      if_neg fun hzero => hzero.elim hB hR]
  have hcwnd : m.recompute.cwnd =
      max (saturatingMulDiv (saturatingMulDiv B R 1000) kDrainGainQ8 256) (mss.toNat * 4) := by
    rw [← hbdp, ← h.mss]
    show max (saturatingMulDiv m.bdp m.gain 256) _ = _
    rw [gain, show m.state = .drain from hstate]
    rfl
  rw [honAck, checkDrainDone, show m.recompute.bdp = m.bdp from rfl, hbdp, hcwnd]
  split
  case isTrue hdone =>
    rw [endRound_of_started (by rfl) (by exact h.sent), if_neg (by exact BbrState.noConfusion)]
    exact .inl rfl
  case isFalse hnot =>
    have hkeep : m.recompute.state ≠ .startup := by
      rw [show m.recompute.state = .drain from hstate]
      decide
    rw [endRound_of_started (by rfl) (by exact h.sent), if_neg hkeep]
    exact ⟨⟨h.mss, le_refl B, hfilter, h.sent, rfl⟩, hstate⟩

/-! ## Leaving startup and drain -/

/-- Startup, with `rounds` rounds without growth since the first one. -/
structure Starting (mss : UInt16) (B R rounds : ℕ) (c : BbrController) : Prop
    extends OnPath mss B R c where
  state : c.state = .startup
  prev : c.startupPrevRoundMaxBw = B
  current : c.startupRoundMaxBw = 0
  rounds : c.startupRoundsNoGrowth = rounds

/-- Drain. -/
structure Draining (mss : UInt16) (B R : ℕ) (c : BbrController) : Prop
    extends OnPath mss B R c where
  state : c.state = .drain

/-- A bandwidth has not grown by a quarter over itself, unless the computation of the
    quarter saturates. -/
theorem le_threshold_iff : B ≤ saturatingMulDiv B 5 4 ↔ B < 2 ^ 62 := by
  rw [saturatingMulDiv, if_neg (by decide), maxUint64]
  split
  case isTrue => omega
  case isFalse => split <;> omega

theorem onAck_new (hs : Steady B R rs) (hB : B ≠ 0) (hR : R ≠ 0) :
    Starting mss B R 0 ((new mss).onAck rs) := by
  have hcount : { new mss with startupRoundMaxBw := B }.noGrowthRounds = 0 := rfl
  obtain ⟨hpath, hprev, hcurrent, hstate, hrounds⟩ :=
    (onPath_new mss B R).onAck_startup hs hB hR rfl rfl hcount
  exact ⟨hpath, hstate, hprev, hcurrent, hrounds⟩

theorem Starting.onAck {k : ℕ} (h : Starting mss B R k c) (hs : Steady B R rs) (hB : B ≠ 0)
    (hR : R ≠ 0) : let rounds := if B < 2 ^ 62 then k + 1 else 0
    if rounds ≥ 3 then Draining mss B R (c.onAck rs) else Starting mss B R rounds (c.onAck rs) := by
  intro rounds
  have hcount : { c with startupRoundMaxBw := B }.noGrowthRounds = rounds := by
    rw [noGrowthRounds]
    rw [h.prev, h.rounds, if_pos ⟨Nat.pos_of_ne_zero hB, Nat.pos_of_ne_zero hB⟩]
    exact if_congr le_threshold_iff rfl rfl
  obtain ⟨hpath, hprev, hcurrent, hstate, hrounds⟩ :=
    h.toOnPath.onAck_startup hs hB hR h.state h.current hcount
  split
  case isTrue hdone =>
    rw [if_pos hdone] at hstate
    exact ⟨hpath, hstate⟩
  case isFalse hnot =>
    rw [if_neg hnot] at hstate hrounds
    exact ⟨hpath, hstate, hprev, hcurrent, hrounds⟩

theorem ne_zero_of_product (hBR : 1 ≤ B * R / 1000) : B ≠ 0 ∧ R ≠ 0 := by
  constructor <;> rintro rfl <;> simp at hBR

/-- The drain gain makes no window larger. -/
theorem saturatingMulDiv_drain_le (n : ℕ) : saturatingMulDiv n kDrainGainQ8 256 ≤ n := by
  rw [saturatingMulDiv, if_neg (by decide), kDrainGainQ8, maxUint64]
  split
  case isTrue => exact Nat.zero_le n
  case isFalse => split <;> omega

/-- Drain can end if and only if the bandwidth-delay product is at least the smallest window. -/
theorem drained_iff (hBR : 1 ≤ B * R / 1000) :
    (0 < saturatingMulDiv B R 1000 ∧
        max (saturatingMulDiv (saturatingMulDiv B R 1000) kDrainGainQ8 256) (mss.toNat * 4) ≤
          saturatingMulDiv B R 1000) ↔
      4 * mss.toNat ≤ B * R / 1000 := by
  have hgain := saturatingMulDiv_drain_le (saturatingMulDiv B R 1000)
  have hmss := mss.toNat_lt
  obtain ⟨hB, hR⟩ := ne_zero_of_product hBR
  have hbdp : saturatingMulDiv B R 1000 =
      if B > maxUint64 / R then maxUint64 / 1000 else B * R / 1000 := by
    rw [saturatingMulDiv, if_neg (by decide), if_neg fun hzero => hzero.elim hB hR]
  rw [Nat.max_le]
  split at hbdp
  case isTrue hover =>
    -- a product that does not fit is far above four segments
    have hmul : maxUint64 < B * R := (Nat.div_lt_iff_lt_mul (Nat.pos_of_ne_zero hR)).1 hover
    rw [maxUint64] at hbdp hmul
    omega
  case isFalse => omega

theorem Draining.onAck (h : Draining mss B R c) (hs : Steady B R rs) (hBR : 1 ≤ B * R / 1000) :
    if 4 * mss.toNat ≤ B * R / 1000 then (c.onAck rs).Cruising
    else Draining mss B R (c.onAck rs) := by
  obtain ⟨hB, hR⟩ := ne_zero_of_product hBR
  have hstep := h.toOnPath.onAck_drain hs hB hR h.state
  split
  case isTrue hfits => rwa [if_pos ((drained_iff hBR).2 hfits)] at hstep
  case isFalse hnot =>
    rw [if_neg fun hdone => hnot ((drained_iff hBR).1 hdone)] at hstep
    exact ⟨hstep.1, hstep.2⟩

end

section

variable {mss : UInt16} {B R : ℕ} {samples : ℕ → RateSample}

theorem cruising_of_le {n : ℕ} (h : (afterAcks mss samples n).Cruising) {m : ℕ} (hm : n ≤ m) :
    (afterAcks mss samples m).Cruising := by
  induction hm with
  | refl => exact h
  | step _ ih => exact ih.onAck (samples _)

/-- Growing by a quarter over itself, the bandwidth keeps the controller in startup. -/
theorem starting_of_saturated (mss : UInt16) (hs : ∀ n, Steady B R (samples n)) (hB : 2 ^ 62 ≤ B)
    (hR : R ≠ 0) (n : ℕ) : Starting mss B R 0 (afterAcks mss samples (n + 1)) := by
  have hB0 : B ≠ 0 := by omega
  induction n with
  | zero => exact onAck_new (hs 0) hB0 hR
  | succ n ih =>
    have hstep := ih.onAck (hs (n + 1)) hB0 hR
    rwa [if_neg (show ¬ B < 2 ^ 62 by omega), if_neg (by decide)] at hstep

/-- Otherwise it is in drain after four acknowledgments. -/
theorem draining_four (mss : UInt16) (hs : ∀ n, Steady B R (samples n)) (hB : B ≠ 0)
    (hsmall : B < 2 ^ 62) (hR : R ≠ 0) : Draining mss B R (afterAcks mss samples 4) := by
  have hone : Starting mss B R 0 (afterAcks mss samples 1) := onAck_new (hs 0) hB hR
  have htwo : Starting mss B R 1 (afterAcks mss samples 2) := by
    have hstep := hone.onAck (hs 1) hB hR
    rwa [if_pos hsmall, if_neg (by decide)] at hstep
  have hthree : Starting mss B R 2 (afterAcks mss samples 3) := by
    have hstep := htwo.onAck (hs 2) hB hR
    rwa [if_pos hsmall, if_neg (by decide)] at hstep
  have hstep := hthree.onAck (hs 3) hB hR
  rwa [if_pos hsmall, if_pos (by decide)] at hstep

/-- Below four segments, the product keeps the controller in drain. -/
theorem draining_of_small (mss : UInt16) (hs : ∀ n, Steady B R (samples n)) (hsmall : B < 2 ^ 62)
    (hBR : 1 ≤ B * R / 1000) (hmss : ¬ 4 * mss.toNat ≤ B * R / 1000) (n : ℕ) :
    Draining mss B R (afterAcks mss samples (n + 4)) := by
  induction n with
  | zero =>
    obtain ⟨hB, hR⟩ := ne_zero_of_product hBR
    exact draining_four mss hs hB hsmall hR
  | succ n ih =>
    have hstep := ih.onAck (hs (n + 4)) hBR
    rwa [if_neg hmss] at hstep

theorem not_cruising_of_startup {c : BbrController} (h : c.state = .startup) : ¬ c.Cruising := by
  rintro (hc | hc) <;> rw [h] at hc <;> cases hc

theorem not_cruising_of_drain {c : BbrController} (h : c.state = .drain) : ¬ c.Cruising := by
  rintro (hc | hc) <;> rw [h] at hc <;> cases hc

/-- On a path of constant bandwidth and round-trip time, whatever the times of the acknowledgments,
    the controller leaves startup and drain for ever, if and only if the bandwidth is below `2 ^ 62`
    bytes per second and the bandwidth-delay product is at least four segments. -/
theorem reaches_steady_state_iff (mss : UInt16) (B R : ℕ) (samples : ℕ → RateSample)
    (hs : ∀ n, Steady B R (samples n)) (hBR : 1 ≤ B * R / 1000) :
    (∃ N, ∀ n ≥ N, (afterAcks mss samples n).Cruising) ↔
      B < 2 ^ 62 ∧ 4 * mss.toNat ≤ B * R / 1000 := by
  obtain ⟨hB, hR⟩ := ne_zero_of_product hBR
  constructor
  · rintro ⟨N, hN⟩
    have hbelow : B < 2 ^ 62 := by
      by_contra hlarge
      have hstart := starting_of_saturated mss hs (Nat.le_of_not_lt hlarge) hR N
      exact not_cruising_of_startup hstart.state (hN (N + 1) (Nat.le_succ N))
    refine ⟨hbelow, ?_⟩
    by_contra hmss
    have hdrain := draining_of_small mss hs hbelow hBR hmss N
    exact not_cruising_of_drain hdrain.state (hN (N + 4) (Nat.le_add_right N 4))
  · rintro ⟨hsmall, hmss⟩
    have hfive : (afterAcks mss samples 5).Cruising := by
      have hstep := (draining_four mss hs hB hsmall hR).onAck (hs 4) hBR
      rwa [if_pos hmss] at hstep
    exact ⟨5, fun n hn => cruising_of_le hfive hn⟩

theorem reaches_steady_state_megabyte :
    (∀ _ : ℕ, Steady 1000000 100
        { deliveryRateBytesPerSec := 1000000, rttMs := 100, ackedBytes := 1460 }) ∧
      1 ≤ 1000000 * 100 / 1000 ∧
      ∃ N, ∀ n ≥ N, (afterAcks 1460 (fun _ =>
        { deliveryRateBytesPerSec := 1000000, rttMs := 100, ackedBytes := 1460 }) n).Cruising :=
  ⟨fun _ => ⟨rfl, rfl, by decide, rfl⟩, by decide,
    (reaches_steady_state_iff 1460 1000000 100 _ (fun _ => ⟨rfl, rfl, by decide, rfl⟩)
      (by decide)).2 ⟨by decide, by decide⟩⟩

/-- One kilobyte per second and one second of round-trip time: the product is one kilobyte,
    below four segments of 1460 bytes, and drain never ends. -/
theorem stuck_in_drain :
    ¬ ∀ (mss : UInt16) (B R : ℕ) (samples : ℕ → RateSample), 1 ≤ mss.toNat → 1 ≤ B → 1 ≤ R →
      1 ≤ B * R / 1000 → (∀ n, Steady B R (samples n)) →
      (∀ n, (samples n).nowMs < (samples (n + 1)).nowMs) →
      ∃ N, (afterAcks mss samples N).Cruising := by
  intro hall
  let samples : ℕ → RateSample := fun n =>
    { nowMs := n, deliveryRateBytesPerSec := 1000, rttMs := 1000, ackedBytes := 1 }
  have hs : ∀ n, Steady 1000 1000 (samples n) := fun _ => ⟨rfl, rfl, one_pos, rfl⟩
  obtain ⟨N, hN⟩ := hall 1460 1000 1000 samples (by decide) (by decide) (by decide) (by decide) hs
    fun n => Nat.lt_succ_self n
  have hdrain := draining_of_small 1460 hs (by decide) (by decide) (by decide) N
  exact not_cruising_of_drain hdrain.state (cruising_of_le hN (Nat.le_add_right N 4))

end

end BbrController

end Netstack2
