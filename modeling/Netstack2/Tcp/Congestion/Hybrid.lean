import Netstack2.Tcp.Congestion
import Netstack2.Tcp.Congestion.Rtprop

/-!
# The hybrid controller

The hybrid controller bounds what is in flight by the product of its estimates of
the bandwidth and of the propagation time, as BBR does, and answers losses as AIMD
does. The bandwidth is the largest one measured in the last ten rounds; a round
ends when a window of bytes was acknowledged since it began. Until both estimates
are known the window grows as in slow start.

A timeout forgets the estimates, so that the path is measured anew.
-/

namespace Netstack2

def kBtlBwWindowRounds : ℕ := 10

/-- The hybrid controller. -/
structure HybridBdpAimdController extends RtpropFilter where
  mss : UInt16
  btlbw : ℕ := 0
  roundBtlbwWindow : List ℕ := List.replicate kBtlBwWindowRounds 0
  roundBtlbwPos : ℕ := 0
  roundBtlbwCount : ℕ := 0
  roundBtlbwCurrent : ℕ := 0
  delivered : ℕ := 0
  roundStartDelivered : ℕ := 0
  roundTargetBytes : ℕ
  roundStarted : Bool := false
  cwnd : UInt32
  ssthresh : UInt32
  fastRecovery : Bool := false
  pacingRate : ℕ := 0

namespace HybridBdpAimdController

variable (c : HybridBdpAimdController)

/-- The controller of a new flow: two segments, and no slow-start threshold. -/
def new (mss : UInt16) : HybridBdpAimdController :=
  { mss := mss
    roundTargetBytes := mss.toNat * 2
    cwnd := mss.toUInt32 * 2
    ssthresh := UInt32.ofNat maxUint32 }

/-- The first acknowledgment of a flow begins a round. -/
def beginRound : HybridBdpAimdController :=
  if c.roundStarted then c
  else { c with
    roundStarted := true
    roundStartDelivered := c.delivered
    roundTargetBytes := c.cwnd.toNat }

/-- The largest bandwidth of the round, measured while there was enough to send. -/
def updateBtlBw (rs : RateSample) : HybridBdpAimdController :=
  if rs.deliveryRateBytesPerSec = 0 then c
  else if rs.appLimited then c
  else if rs.deliveryRateBytesPerSec > c.roundBtlbwCurrent then
    { c with roundBtlbwCurrent := rs.deliveryRateBytesPerSec }
  else c

def updateRTprop (rs : RateSample) : HybridBdpAimdController :=
  { c with toRtpropFilter := c.toRtpropFilter.updateRTprop rs.rttMs rs.nowMs }

/-- The bandwidth of the round enters the window of the last ten, and the next round begins. -/
def endRound : HybridBdpAimdController :=
  let window := c.roundBtlbwWindow.set c.roundBtlbwPos c.roundBtlbwCurrent
  let count :=
    if c.roundBtlbwCount < kBtlBwWindowRounds then c.roundBtlbwCount + 1 else c.roundBtlbwCount
  { c with
    roundBtlbwWindow := window
    roundBtlbwPos := (c.roundBtlbwPos + 1) % kBtlBwWindowRounds
    roundBtlbwCount := count
    roundBtlbwCurrent := 0
    btlbw := (window.take count).foldl max 0
    roundStartDelivered := c.delivered
    roundTargetBytes := c.cwnd.toNat }

/-- Count the acknowledged bytes, and end the round if they fill it. -/
def deliver (rs : RateSample) : HybridBdpAimdController :=
  let c := { c with delivered := wrapUint64 (c.delivered + rs.ackedBytes) }
  if subUint64 c.delivered c.roundStartDelivered ≥ c.roundTargetBytes then c.endRound else c

/-- The bandwidth-delay product, in bytes. -/
def bdp : ℕ :=
  if c.btlbw = 0 ∨ c.rtprop = 0 then 0
  else if c.btlbw > maxUint64 / c.rtprop then maxUint64 / 1000
  else c.btlbw * c.rtprop / 1000

/-- The window is the product, and at least four segments. -/
def recomputeCwnd : HybridBdpAimdController :=
  { c with cwnd := UInt32.ofNat (saturatingUint32 (max c.bdp (c.mss.toNat * 4))) }

/-- Slow start until the product is known. -/
def openWindow (rs : RateSample) : HybridBdpAimdController :=
  if c.btlbw = 0 ∨ c.rtprop = 0 then
    if rs.ackedBytes > 0 then
      let increase := UInt32.ofNat (min rs.ackedBytes c.mss.toNat)
      { c with cwnd := AimdController.grow c.cwnd increase }
    else c
  else c.recomputeCwnd

def onAck (rs : RateSample) : HybridBdpAimdController :=
  if c.fastRecovery then c
  else
    let c := ((c.beginRound.updateBtlBw rs).updateRTprop rs).deliver rs
    { c with pacingRate := c.btlbw }.openWindow rs

/-- Enter fast recovery with `flight` sequence numbers outstanding. -/
def onFastRecoveryEntry (flight : UInt32) : HybridBdpAimdController :=
  let ssthresh := max (flight / 2) (c.mss.toUInt32 * 2)
  { c with
    ssthresh := ssthresh
    cwnd := UInt32.ofNat (saturatingUint32 (ssthresh.toNat + c.mss.toNat * 3))
    fastRecovery := true }

/-- A duplicate acknowledgment inflates the window during recovery. -/
def onDupAck : HybridBdpAimdController :=
  if c.fastRecovery then
    { c with cwnd := UInt32.ofNat (saturatingUint32 (c.cwnd.toNat + c.mss.toNat)) }
  else c

/-- Leave fast recovery. -/
def onFastRecoveryExit : HybridBdpAimdController :=
  { c with cwnd := c.ssthresh, fastRecovery := false }

/-- A retransmission timeout: back to one segment, and the estimates are forgotten. -/
def onRto : HybridBdpAimdController :=
  { new c.mss with cwnd := c.mss.toUInt32, ssthresh := c.ssthresh }

/-- An ECN echo is answered like a loss. -/
def onEcnCe : HybridBdpAimdController :=
  let ssthresh := max (c.cwnd / 2) (c.mss.toUInt32 * 2)
  { c with ssthresh := ssthresh, cwnd := ssthresh }

/-- A new maximum segment size; a smaller one scales the window down. -/
def updateMss (mss : UInt16) (pristine : Bool) : HybridBdpAimdController :=
  if mss = 0 ∨ mss = c.mss then c
  else
    let cwnd :=
      if pristine then mss.toUInt32 * 2
      else if mss < c.mss then
        max mss.toUInt32 (UInt32.ofNat (c.cwnd.toNat * mss.toNat / c.mss.toNat))
      else c.cwnd
    { c with mss := mss, cwnd := cwnd, roundTargetBytes := cwnd.toNat }

/-- Back to the state of a new flow. -/
def reset : HybridBdpAimdController := new c.mss

instance : CongestionController HybridBdpAimdController where
  algorithm _ := .hybridBdpAimd
  congestionWindow := cwnd
  pacingRate c := UInt32.ofNat (min c.pacingRate maxUint32)
  inFastRecovery := fastRecovery
  onAck := onAck
  onRto := onRto
  onEcnCe := onEcnCe
  onFastRecoveryEntry := onFastRecoveryEntry
  onDupAck := onDupAck
  onFastRecoveryExit := onFastRecoveryExit
  updateMss := updateMss
  reset := reset

/-! ## What an acknowledgment leaves -/

section

variable (c : HybridBdpAimdController) (rs : RateSample)

/-- What the controller has of AIMD. -/
def aimd : AimdController := ⟨c.cwnd, c.ssthresh, c.mss, c.fastRecovery⟩

/-- The controller after an acknowledgment was counted, before the window is opened. -/
def counted : HybridBdpAimdController :=
  let c := ((c.beginRound.updateBtlBw rs).updateRTprop rs).deliver rs
  { c with pacingRate := c.btlbw }

theorem onAck_eq : c.onAck rs = if c.fastRecovery then c else (c.counted rs).openWindow rs := rfl

theorem counted_aimd : (c.counted rs).aimd = c.aimd := by
  have hbegin : c.beginRound.aimd = c.aimd := by
    rw [beginRound]
    split <;> rfl
  have hbtlbw : (c.beginRound.updateBtlBw rs).aimd = c.beginRound.aimd := by
    rw [updateBtlBw]
    split_ifs <;> rfl
  have hdeliver (c : HybridBdpAimdController) : (c.deliver rs).aimd = c.aimd := by
    rw [deliver]
    split <;> rfl
  exact (hdeliver _).trans (hbtlbw.trans hbegin)

/-- With no round-trip time measured, the filter is as before. -/
theorem counted_rtprop (hrtt : rs.rttMs = 0) : (c.counted rs).rtprop = c.rtprop := by
  have hbegin : c.beginRound.rtprop = c.rtprop := by
    rw [beginRound]
    split <;> rfl
  have hbtlbw : (c.beginRound.updateBtlBw rs).rtprop = c.beginRound.rtprop := by
    rw [updateBtlBw]
    split_ifs <;> rfl
  have hmeasure (c : HybridBdpAimdController) : (c.updateRTprop rs).rtprop = c.rtprop := by
    rw [updateRTprop, RtpropFilter.updateRTprop, if_pos hrtt]
  have hdeliver (c : HybridBdpAimdController) : (c.deliver rs).rtprop = c.rtprop := by
    rw [deliver]
    split <;> rfl
  exact (hdeliver _).trans ((hmeasure _).trans (hbtlbw.trans hbegin))

end

/-- Without a segment size and a round-trip time there is no window. -/
instance : LawfulController HybridBdpAimdController where
  Shut c := c.mss = 0 ∧ c.cwnd = 0 ∧ c.fastRecovery = false ∧ c.rtprop = 0
  congestionWindow_eq_zero h := h.2.1
  shut_onAck {c rs} h _ hrtt := by
    obtain ⟨hmss, hcwnd, hrec, hrtprop⟩ := h
    obtain ⟨hcwnd', -, hmss', hrec'⟩ := AimdController.mk.inj (counted_aimd c rs)
    rw [hcwnd] at hcwnd'
    rw [hmss] at hmss'
    rw [hrec] at hrec'
    have hrtprop' : (c.counted rs).rtprop = 0 := (counted_rtprop c rs hrtt).trans hrtprop
    have hzero : AimdController.grow (c.counted rs).cwnd
        (UInt32.ofNat (min rs.ackedBytes (c.counted rs).mss.toNat)) = 0 := by
      rw [hcwnd', hmss']
      simp [AimdController.grow]
    simp only [CongestionController.onAck, onAck_eq, hrec, openWindow, hrtprop', or_true, if_true,
      if_false, Bool.false_eq_true, hzero]
    split
    · exact ⟨hmss', rfl, hrec', hrtprop'⟩
    · exact ⟨hmss', hcwnd', hrec', hrtprop'⟩
  shut_onEcnCe {c} h := by
    refine ⟨h.1, ?_, h.2.2⟩
    show max (c.cwnd / 2) (c.mss.toUInt32 * 2) = 0
    rw [h.1, h.2.1]
    rfl
  shut_onDupAck h hr := Bool.noConfusion (hr.symm.trans h.2.2.1)
  shut_onFastRecoveryExit h hr := Bool.noConfusion (hr.symm.trans h.2.2.1)

theorem shut_new : LawfulController.Shut (HybridBdpAimdController.new 0) := ⟨rfl, rfl, rfl, rfl⟩

end HybridBdpAimdController

end Netstack2
