import Netstack2.Tcp.RateSampler

/-!
# Congestion controllers

The send buffer delegates congestion control to a controller chosen when the
flow is created. In the source it is a `std::variant` of the controllers, which
the buffer visits; here it is a type `κ` with the operations the buffer calls on
it (`CongestionController`), so that what is proved about the buffer holds for
every controller. Which of the operations are called can depend on the
algorithm, so a controller also tells its algorithm.

`AimdController` is the baseline controller (RFC 5681).

A controller may be created for a maximum segment size of `0`, and is given a
real one later. `LawfulController` says what the buffer relies on until then: the
window stays shut.
-/

namespace Netstack2

/-- The algorithm of a flow, fixed at its creation. -/
inductive CongestionAlgorithm
  | aimd
  | bbr
  | hybridBdpAimd
  | kcc
  deriving DecidableEq

/-- The operations the send buffer calls on its controller. -/
class CongestionController (κ : Type) where
  algorithm : κ → CongestionAlgorithm
  congestionWindow : κ → UInt32
  pacingRate : κ → UInt32
  /-- Whether the controller is in fast recovery (never so for BBR). -/
  inFastRecovery : κ → Bool
  onAck : κ → RateSample → κ
  onRto : κ → κ
  onEcnCe : κ → κ
  onFastRecoveryEntry : κ → UInt32 → κ
  onDupAck : κ → κ
  onFastRecoveryExit : κ → κ
  updateMss : κ → UInt16 → Bool → κ
  reset : κ → κ

/-- A controller with no segment size yet (`Shut`) has no window, and neither the
    acknowledgment of a probe, of which no rate and no round-trip time is
    measured, nor an ECN echo nor the end of a recovery opens it. -/
class LawfulController (κ : Type) [CongestionController κ] where
  Shut : κ → Prop
  congestionWindow_eq_zero : ∀ {c : κ}, Shut c → CongestionController.congestionWindow c = 0
  shut_onAck : ∀ {c : κ} {rs : RateSample}, Shut c → rs.deliveryRateBytesPerSec = 0 →
    rs.rttMs = 0 → Shut (CongestionController.onAck c rs)
  shut_onEcnCe : ∀ {c : κ}, Shut c → Shut (CongestionController.onEcnCe c)
  shut_onDupAck : ∀ {c : κ}, Shut c → CongestionController.inFastRecovery c = true →
    Shut (CongestionController.onDupAck c)
  shut_onFastRecoveryExit : ∀ {c : κ}, Shut c → CongestionController.inFastRecovery c = true →
    Shut (CongestionController.onFastRecoveryExit c)

/-- The AIMD controller. -/
structure AimdController where
  cwnd : UInt32
  ssthresh : UInt32
  mss : UInt16
  fastRecovery : Bool := false
  deriving DecidableEq

namespace AimdController

variable (c : AimdController)

/-- The controller of a new flow: two segments, and no slow-start threshold. -/
def new (mss : UInt16) : AimdController :=
  { cwnd := mss.toUInt32 * 2, ssthresh := UInt32.ofNat maxUint32, mss := mss }

/-- `cwnd` grown by `increase`, stopping at the largest window. -/
def grow (cwnd increase : UInt32) : UInt32 :=
  if UInt32.ofNat maxUint32 - cwnd < increase then UInt32.ofNat maxUint32 else cwnd + increase

/-- Slow start below the threshold, congestion avoidance from it on. -/
def onAck (rs : RateSample) : AimdController :=
  if rs.ackedBytes = 0 then c
  else if c.fastRecovery then c
  else if c.cwnd < c.ssthresh then
    { c with cwnd := grow c.cwnd (UInt32.ofNat (min rs.ackedBytes c.mss.toNat)) }
  else if c.cwnd ≠ 0 then
    let increase := max 1 (UInt32.ofNat (c.mss.toNat * c.mss.toNat / c.cwnd.toNat))
    { c with cwnd := grow c.cwnd increase }
  else c

/-- Enter fast recovery with `flight` sequence numbers outstanding. -/
def onFastRecoveryEntry (flight : UInt32) : AimdController :=
  let ssthresh := max (flight / 2) (c.mss.toUInt32 * 2)
  { c with
    ssthresh := ssthresh
    cwnd := UInt32.ofNat (saturatingUint32 (ssthresh.toNat + c.mss.toNat * 3))
    fastRecovery := true }

/-- A duplicate acknowledgment inflates the window during recovery. -/
def onDupAck : AimdController :=
  if c.fastRecovery then
    { c with cwnd := UInt32.ofNat (saturatingUint32 (c.cwnd.toNat + c.mss.toNat)) }
  else c

/-- Leave fast recovery. -/
def onFastRecoveryExit : AimdController := { c with cwnd := c.ssthresh, fastRecovery := false }

/-- A retransmission timeout: back to one segment. -/
def onRto : AimdController := { c with cwnd := c.mss.toUInt32, fastRecovery := false }

/-- An ECN echo is answered like a loss. -/
def onEcnCe : AimdController :=
  let ssthresh := max (c.cwnd / 2) (c.mss.toUInt32 * 2)
  { c with ssthresh := ssthresh, cwnd := ssthresh }

/-- A new maximum segment size; a smaller one scales the window down. -/
def updateMss (mss : UInt16) (pristine : Bool) : AimdController :=
  if mss = 0 ∨ mss = c.mss then c
  else if pristine then { c with mss := mss, cwnd := mss.toUInt32 * 2 }
  else if mss < c.mss then
    { c with
      mss := mss
      cwnd := max mss.toUInt32 (UInt32.ofNat (c.cwnd.toNat * mss.toNat / c.mss.toNat)) }
  else { c with mss := mss }

/-- Back to the state of a new flow. -/
def reset : AimdController := new c.mss

instance : CongestionController AimdController where
  algorithm _ := .aimd
  congestionWindow := cwnd
  pacingRate _ := 0
  inFastRecovery := fastRecovery
  onAck := onAck
  onRto := onRto
  onEcnCe := onEcnCe
  onFastRecoveryEntry := onFastRecoveryEntry
  onDupAck := onDupAck
  onFastRecoveryExit := onFastRecoveryExit
  updateMss := updateMss
  reset := reset

/-- The window of a controller without a segment size has no room to grow. -/
instance : LawfulController AimdController where
  Shut c := c.mss = 0 ∧ c.cwnd = 0 ∧ c.fastRecovery = false
  congestionWindow_eq_zero h := h.2.1
  shut_onAck {c rs} h _ _ := by
    obtain ⟨hm, hc, hf⟩ := h
    simp only [CongestionController.onAck, onAck, hm, hc, hf]
    split_ifs <;> simp_all [grow]
  shut_onEcnCe {c} h := by
    obtain ⟨hm, hc, hf⟩ := h
    refine ⟨hm, ?_, hf⟩
    show max (c.cwnd / 2) (c.mss.toUInt32 * 2) = 0
    rw [hm, hc]
    rfl
  shut_onDupAck h hr := Bool.noConfusion (hr.symm.trans h.2.2)
  shut_onFastRecoveryExit h hr := Bool.noConfusion (hr.symm.trans h.2.2)

theorem shut_new : LawfulController.Shut (AimdController.new 0) := ⟨rfl, rfl, rfl⟩

end AimdController

end Netstack2
