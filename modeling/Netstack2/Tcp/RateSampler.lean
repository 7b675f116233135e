import Netstack2.Lib.Seq

/-!
# The delivery-rate sampler

Every segment is stamped, when it is first sent, with the bytes delivered so
far and the time they were delivered at (`onPacketSent`); when a cumulative
acknowledgment covers it, the difference to the counters of that moment gives
a `RateSample` for the congestion controller (`onAck`).

Times are in milliseconds and byte counters unbounded naturals; where the
source can wrap around `2 ^ 64`, or saturates there, so does the model.
-/

namespace Netstack2

/-- The largest value of a 64-bit unsigned integer. -/
def maxUint64 : ℕ := 2 ^ 64 - 1

/-- The largest value of a 32-bit unsigned integer. -/
def maxUint32 : ℕ := 2 ^ 32 - 1

/-- The value a 64-bit unsigned integer keeps of `n`. -/
def wrapUint64 (n : ℕ) : ℕ := n % 2 ^ 64

/-- Addition of 64-bit unsigned integers, stopping at the largest one. -/
def saturatingAdd (left right : ℕ) : ℕ :=
  if right > maxUint64 - left then maxUint64 else left + right

/-- `value`, or the largest 32-bit unsigned integer if it does not fit. -/
def saturatingUint32 (value : ℕ) : ℕ := if value > maxUint32 then maxUint32 else value

theorem saturatingUint32_of_le {n : ℕ} (h : n ≤ maxUint32) : saturatingUint32 n = n := by
  rw [saturatingUint32, if_neg (by omega)]

/-- What the congestion controller learns from an acknowledgment. -/
structure RateSample where
  nowMs : ℕ := 0
  nowUs : ℕ := 0
  deliveryRateBytesPerSec : ℕ := 0
  intervalMs : ℕ := 0
  intervalUs : ℕ := 0
  rttMs : ℕ := 0
  rttUs : ℕ := 0
  ackedBytes : ℕ := 0
  inflightBytes : ℕ := 0
  deliveredBytes : ℕ := 0
  priorDeliveredBytes : ℕ := 0
  appLimited : Bool := false
  deliveredCe : ℕ := 0
  deriving DecidableEq

/-- What is recorded about a segment when it is sent. -/
structure PacketDeliveryState where
  deliveredBytes : ℕ := 0
  deliveredTimeMs : ℕ := 0
  firstSentTimeMs : ℕ := 0
  deliveredTimeUs : ℕ := 0
  firstSentTimeUs : ℕ := 0
  appLimited : Bool := false
  retransmitted : Bool := false
  deriving DecidableEq

/-- The delivery counters of a connection. -/
structure DeliveryRateSampler where
  deliveredBytes : ℕ := 0
  deliveredTimeMs : ℕ := 0
  appLimited : Bool := false
  lastSample : RateSample := {}
  deriving DecidableEq

namespace DeliveryRateSampler

/-- `bytes * multiplier / divisor`, saturating where the product overflows. -/
def saturatingMulDiv (bytes multiplier divisor : ℕ) : ℕ :=
  if divisor = 0 then 0
  else if bytes = 0 ∨ multiplier = 0 then 0
  else if bytes > maxUint64 / multiplier then maxUint64 / divisor
  else bytes * multiplier / divisor

/-- Stamp the delivery state of a newly sent segment. -/
def onPacketSent (s : DeliveryRateSampler) (pkt : PacketDeliveryState) (nowMs : ℕ) :
    PacketDeliveryState :=
  { deliveredBytes := s.deliveredBytes
    deliveredTimeMs := s.deliveredTimeMs
    deliveredTimeUs := wrapUint64 (s.deliveredTimeMs * 1000)
    firstSentTimeMs := if pkt.firstSentTimeMs = 0 then nowMs else pkt.firstSentTimeMs
    firstSentTimeUs :=
      if pkt.firstSentTimeMs = 0 then wrapUint64 (nowMs * 1000) else pkt.firstSentTimeUs
    appLimited := s.appLimited
    retransmitted := false }

/-- The sample of an acknowledgment of `ackedBytes`, taken from the segment
    `pkt` it covers. A retransmitted segment gives no round-trip time and no
    rate: one cannot know which transmission was acknowledged. -/
def onAck (s : DeliveryRateSampler) (pkt : PacketDeliveryState)
    (ackedBytes nowMs inflightBytes : ℕ) : DeliveryRateSampler × RateSample :=
  let delivered := wrapUint64 (s.deliveredBytes + ackedBytes)
  let sample : RateSample :=
    { nowMs := nowMs
      nowUs := wrapUint64 (nowMs * 1000)
      ackedBytes := ackedBytes
      inflightBytes := inflightBytes
      appLimited := pkt.appLimited
      priorDeliveredBytes := s.deliveredBytes
      deliveredBytes := delivered }
  let sample :=
    if pkt.retransmitted = false ∧ pkt.firstSentTimeMs ≤ nowMs then
      let rttMs := nowMs - pkt.firstSentTimeMs
      let sample := { sample with rttMs := rttMs, rttUs := wrapUint64 (rttMs * 1000) }
      let intervalMs := nowMs - pkt.deliveredTimeMs
      if intervalMs > 0 then
        { sample with
          intervalMs := intervalMs
          intervalUs := wrapUint64 (intervalMs * 1000)
          deliveryRateBytesPerSec :=
            saturatingMulDiv (delivered - pkt.deliveredBytes) 1000 intervalMs }
      else sample
    else sample
  ({ s with deliveredBytes := delivered, deliveredTimeMs := nowMs, lastSample := sample }, sample)

/-- The application had nothing more to send. -/
def markAppLimited (s : DeliveryRateSampler) : DeliveryRateSampler := { s with appLimited := true }

/-- The application has more data to send. -/
def clearAppLimited (s : DeliveryRateSampler) : DeliveryRateSampler :=
  { s with appLimited := false }

end DeliveryRateSampler

end Netstack2
