import Netstack2.Tcp.RateSampler

/-!
# The round-trip time filter

BBR and the hybrid controller estimate the propagation time of a path as the
minimum of the last sixteen round-trip times that are not older than ten seconds.
The two controllers of the source have the same filter, each in its own fields;
here it is one structure (`RtpropFilter`).

What the controllers' proofs use: as long as every sample is `R`, so is the
estimate (`Constant.updateRTprop`), since the sample that was just taken has not
expired.
-/

namespace Netstack2

open List

/-- Subtraction of 64-bit unsigned integers, which wraps. -/
def subUint64 (left right : ℕ) : ℕ := wrapUint64 (left + 2 ^ 64 - right)

theorem subUint64_self (n : ℕ) : subUint64 n n = 0 := by
  rw [subUint64, Nat.add_sub_cancel_left, wrapUint64, Nat.mod_self]

structure RtpropSample where
  rttMs : ℕ := 0
  timeMs : ℕ := 0
  deriving DecidableEq

/-- Samples older than this expire. -/
def kRtpropWindowMs : ℕ := 10000

def kRtpropSampleCount : ℕ := 16

/-- The filter: a ring of samples, and the minimum of those that have not expired
    (`0` if there is none) with its time. -/
structure RtpropFilter where
  rtprop : ℕ := 0
  rtpropStampMs : ℕ := 0
  rtpropSamples : List RtpropSample := List.replicate kRtpropSampleCount {}
  rtpropCount : ℕ := 0
  rtpropPos : ℕ := 0
  deriving DecidableEq

namespace RtpropFilter

/-- One sample of the walk for the minimum `best`: expired samples are passed over. -/
def visit (now : ℕ) (best sample : RtpropSample) : RtpropSample :=
  if subUint64 now sample.timeMs > kRtpropWindowMs then best
  else if best.rttMs = 0 ∨ sample.rttMs < best.rttMs then sample
  else best

/-- Take the round-trip time `rttMs`, measured at `now`. -/
def updateRTprop (f : RtpropFilter) (rttMs now : ℕ) : RtpropFilter :=
  if rttMs = 0 then f
  else
    let count := if f.rtpropCount < kRtpropSampleCount then f.rtpropCount + 1 else f.rtpropCount
    let samples := f.rtpropSamples.set f.rtpropPos ⟨rttMs, now⟩
    let best := (samples.take count).foldl (visit now) {}
    { rtprop := best.rttMs
      rtpropStampMs := best.timeMs
      rtpropSamples := samples
      rtpropCount := count
      rtpropPos := (f.rtpropPos + 1) % kRtpropSampleCount }

/-! ## A constant round-trip time -/

variable {R now : ℕ} {samples : List RtpropSample}

theorem foldl_visit_of_found (hall : ∀ s ∈ samples, s.rttMs = R) {best : RtpropSample}
    (hbest : best.rttMs = R) : (samples.foldl (visit now) best).rttMs = R := by
  induction samples generalizing best with
  | nil => exact hbest
  | cons s _ ih =>
    refine ih (fun s hs => hall s (mem_cons_of_mem _ hs)) ?_
    rw [visit]
    split_ifs
    · exact hbest
    · exact hall s mem_cons_self
    · exact hbest

theorem foldl_visit (hall : ∀ s ∈ samples, s.rttMs = R)
    (hnow : ∃ s ∈ samples, s.timeMs = now) (best : RtpropSample)
    (hbest : best.rttMs = 0 ∨ best.rttMs = R) : (samples.foldl (visit now) best).rttMs = R := by
  induction samples generalizing best with
  | nil =>
    obtain ⟨s, hs, -⟩ := hnow
    cases hs
  | cons s samples ih =>
    have hs := hall s mem_cons_self
    have hrest : ∀ s ∈ samples, s.rttMs = R := fun s hs => hall s (mem_cons_of_mem _ hs)
    rw [foldl_cons]
    by_cases hfresh : subUint64 now s.timeMs > kRtpropWindowMs
    · -- an expired sample is not the one just taken
      rw [visit, if_pos hfresh]
      refine ih hrest ?_ best hbest
      obtain ⟨s', hs', htime⟩ := hnow
      rcases mem_cons.1 hs' with rfl | hs'
      · rw [htime, subUint64_self] at hfresh
        exact absurd hfresh (Nat.not_lt_zero _)
      · exact ⟨s', hs', htime⟩
    · refine foldl_visit_of_found hrest ?_
      rw [visit, if_neg hfresh]
      split
      case isTrue => exact hs
      case isFalse hnot => exact hbest.resolve_left fun hzero => hnot (.inl hzero)

/-- The ring is filled up to `rtpropCount`, always with the round-trip time `R`. -/
structure Constant (R : ℕ) (f : RtpropFilter) : Prop where
  length : f.rtpropSamples.length = kRtpropSampleCount
  count : f.rtpropCount ≤ kRtpropSampleCount
  pos : f.rtpropPos < kRtpropSampleCount
  next : f.rtpropCount < kRtpropSampleCount → f.rtpropPos = f.rtpropCount
  filled : ∀ s ∈ f.rtpropSamples.take f.rtpropCount, s.rttMs = R

theorem constant_new (R : ℕ) : Constant R {} where
  length := rfl
  count := Nat.zero_le _
  pos := by decide
  next _ := rfl
  filled s hs := by simp at hs

/-- One more sample of `R`. -/
theorem Constant.updateRTprop {f : RtpropFilter} (h : Constant R f) (hR : R ≠ 0) (now : ℕ) :
    Constant R (f.updateRTprop R now) ∧ (f.updateRTprop R now).rtprop = R := by
  have hlength := h.length
  have hcount := h.count
  have hpos := h.pos
  have hnext := h.next
  have hsize : 0 < kRtpropSampleCount := by decide
  rw [RtpropFilter.updateRTprop, if_neg hR]
  generalize hc : (if f.rtpropCount < kRtpropSampleCount then f.rtpropCount + 1
    else f.rtpropCount) = count
  -- the sample goes where the next one belongs, within the part that counts
  have hcount' : count ≤ kRtpropSampleCount ∧ f.rtpropPos < count ∧
      (count < kRtpropSampleCount → count = f.rtpropPos + 1) := by
    rw [← hc]
    split <;> omega
  obtain ⟨hle, hin, hfull⟩ := hcount'
  have hold : ∀ i < count, i ≠ f.rtpropPos → i < f.rtpropCount := by
    intro i hi hne
    rw [← hc] at hi
    split at hi <;> omega
  have hfilled : ∀ s ∈ (f.rtpropSamples.set f.rtpropPos ⟨R, now⟩).take count, s.rttMs = R := by
    intro s hs
    obtain ⟨i, hi, rfl⟩ := mem_iff_getElem.1 hs
    rw [length_take, length_set] at hi
    rw [getElem_take, getElem_set]
    split
    case isTrue => rfl
    case isFalse hne =>
      have hi' : i < f.rtpropCount := hold i (by omega) (Ne.symm hne)
      refine h.filled _ (mem_iff_getElem.2 ⟨i, ?_, getElem_take⟩)
      rw [length_take]
      omega
  refine ⟨⟨?_, hle, Nat.mod_lt _ hsize, fun hlt => ?_, hfilled⟩, ?_⟩
  · rw [length_set, hlength]
  · dsimp only at hlt ⊢
    rw [Nat.mod_eq_of_lt (by omega)]
    exact (hfull hlt).symm
  · refine foldl_visit hfilled ⟨⟨R, now⟩, ?_, rfl⟩ {} (.inl rfl)
    refine mem_iff_getElem.2 ⟨f.rtpropPos, ?_, ?_⟩
    · rw [length_take, length_set]
      omega
    · rw [getElem_take, getElem_set_self]

end RtpropFilter

end Netstack2
