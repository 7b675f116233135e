import Netstack2.Tcp.Congestion.Bbr
import Netstack2.Tcp.Congestion.Hybrid

/-!
# Answers to congestion signals

A timeout takes the window of a controller back to one segment, and an ECN echo halves
it, but not below two segments. `FlooredController` is what AIMD, BBR and the hybrid
controller have in common in this: no call takes the window below one segment, so that a
timeout never opens it.

An echo does: the window can be one segment, after a timeout, and an echo then makes it
two (`neverOpens_iff`, `echo_opens_window`).
-/

namespace Netstack2

open CongestionController (congestionWindow)

/-- The calls that the send buffer makes on a controller while the segment size is fixed. -/
inductive Signal
  | ack (rs : RateSample)
  | fastRecoveryEntry (flight : UInt32)
  | dupAck
  | fastRecoveryExit
  | rto
  | ecnCe

/-- The controller after a call. -/
def Signal.apply {κ : Type} [CongestionController κ] (c : κ) : Signal → κ
  | .ack rs => CongestionController.onAck c rs
  | .fastRecoveryEntry flight => CongestionController.onFastRecoveryEntry c flight
  | .dupAck => CongestionController.onDupAck c
  | .fastRecoveryExit => CongestionController.onFastRecoveryExit c
  | .rto => CongestionController.onRto c
  | .ecnCe => CongestionController.onEcnCe c

/-- The controller after the calls `signals`. -/
def Signal.run {κ : Type} [CongestionController κ] (signals : List Signal) (c : κ) : κ :=
  signals.foldl Signal.apply c

/-- Neither a timeout nor an ECN echo makes the window larger than it is. -/
structure NeverOpens {κ : Type} [CongestionController κ] (c : κ) : Prop where
  rto : congestionWindow (CongestionController.onRto c) ≤ congestionWindow c
  ecnCe : congestionWindow (CongestionController.onEcnCe c) ≤ congestionWindow c

/-- A controller that keeps its window (and what it can set the window to) at least at
    the bound `k`, if its segments are at least that (`AtLeast`); a timeout leaves one
    segment, and an echo half of the window, and at least two segments. -/
class FlooredController (κ : Type) [CongestionController κ] where
  segmentSize : κ → UInt16
  AtLeast : ℕ → κ → Prop
  le_congestionWindow : ∀ {k : ℕ} {c : κ}, AtLeast k c → k ≤ (congestionWindow c).toNat
  segmentSize_apply : ∀ (c : κ) (s : Signal), segmentSize (s.apply c) = segmentSize c
  atLeast_apply : ∀ {k : ℕ} {c : κ} (s : Signal), AtLeast k c → AtLeast k (s.apply c)
  atLeast_updateMss : ∀ {k : ℕ} {c : κ} (mss : UInt16) (pristine : Bool), AtLeast k c →
    k ≤ mss.toNat → AtLeast k (CongestionController.updateMss c mss pristine)
  congestionWindow_onRto : ∀ c : κ,
    (congestionWindow (CongestionController.onRto c)).toNat = (segmentSize c).toNat
  onEcnCe_le_iff : ∀ c : κ,
    congestionWindow (CongestionController.onEcnCe c) ≤ congestionWindow c ↔
      2 * (segmentSize c).toNat ≤ (congestionWindow c).toNat

section

variable {κ : Type} [CongestionController κ] [FlooredController κ]

open FlooredController

theorem atLeast_run {k : ℕ} {c : κ} (h : AtLeast k c) (signals : List Signal) :
    AtLeast k (Signal.run signals c) := by
  induction signals generalizing c with
  | nil => exact h
  | cons s _ ih => exact ih (atLeast_apply s h)

theorem segmentSize_run (c : κ) (signals : List Signal) :
    segmentSize (Signal.run signals c) = segmentSize c := by
  induction signals generalizing c with
  | nil => rfl
  | cons s _ ih => exact (ih _).trans (segmentSize_apply c s)

/-- After any calls on a controller with a window of at least one segment. -/
theorem neverOpens_run_iff {c : κ} (h : AtLeast (segmentSize c).toNat c) (signals : List Signal) :
    NeverOpens (Signal.run signals c) ↔
      2 * (segmentSize c).toNat ≤ (congestionWindow (Signal.run signals c)).toNat := by
  have hsize := segmentSize_run c signals
  have hecn := onEcnCe_le_iff (Signal.run signals c)
  rw [hsize] at hecn
  refine ⟨fun hnever => hecn.1 hnever.ecnCe, fun htwo => ⟨?_, hecn.2 htwo⟩⟩
  rw [UInt32.le_iff_toNat_le, congestionWindow_onRto, hsize]
  exact le_congestionWindow (atLeast_run h signals)

end

/-! ## The arithmetic of windows -/

theorem toNat_two_segments (mss : UInt16) : (mss.toUInt32 * 2).toNat = mss.toNat * 2 := by
  have hmss := mss.toNat_lt
  rw [UInt32.toNat_mul, UInt16.toNat_toUInt32]
  exact Nat.mod_eq_of_lt (show mss.toNat * 2 < 2 ^ 32 by omega)

theorem toNat_max_uint32 (a b : UInt32) : (max a b).toNat = max a.toNat b.toNat := by
  show (if a ≤ b then b else a).toNat = _
  split
  case isTrue h =>
    rw [UInt32.le_iff_toNat_le] at h
    exact (max_eq_right h).symm
  case isFalse h =>
    rw [UInt32.le_iff_toNat_le] at h
    omega

theorem toNat_saturated (n : ℕ) : (UInt32.ofNat (saturatingUint32 n)).toNat = min n maxUint32 := by
  rw [UInt32.toNat_ofNat', saturatingUint32, maxUint32]
  split <;> omega

theorem le_toNat_grow (cwnd increase : UInt32) :
    cwnd.toNat ≤ (AimdController.grow cwnd increase).toNat := by
  have hcwnd := cwnd.toNat_lt
  have hmax : (UInt32.ofNat maxUint32).toNat = 2 ^ 32 - 1 := rfl
  have hle : cwnd ≤ UInt32.ofNat maxUint32 := by
    rw [UInt32.le_iff_toNat_le]
    omega
  rw [AimdController.grow]
  split
  case isTrue => omega
  case isFalse h =>
    -- the sum does not wrap
    rw [UInt32.lt_iff_toNat_lt, UInt32.toNat_sub_of_le _ _ hle, hmax] at h
    rw [UInt32.toNat_add, Nat.mod_eq_of_lt (by omega)]
    exact Nat.le_add_right ..

/-- Half of a window, and at least two segments. -/
theorem toNat_halved (cwnd : UInt32) (mss : UInt16) :
    (max (cwnd / 2) (mss.toUInt32 * 2)).toNat = max (cwnd.toNat / 2) (mss.toNat * 2) := by
  rw [toNat_max_uint32, toNat_two_segments, UInt32.toNat_div]
  rfl

theorem halved_le_iff (cwnd : UInt32) (mss : UInt16) :
    max (cwnd / 2) (mss.toUInt32 * 2) ≤ cwnd ↔ 2 * mss.toNat ≤ cwnd.toNat := by
  rw [UInt32.le_iff_toNat_le, toNat_halved]
  omega

/-- The segment size, the window and the threshold are at least `k`. -/
structure Floored (k : ℕ) (mss : UInt16) (cwnd ssthresh : UInt32) : Prop where
  mss : k ≤ mss.toNat
  cwnd : k ≤ cwnd.toNat
  ssthresh : k ≤ ssthresh.toNat

namespace Floored

variable {k : ℕ} {mss : UInt16} {cwnd ssthresh : UInt32}

section

variable (h : Floored k mss cwnd ssthresh)

include h

theorem mono {j : ℕ} (hj : j ≤ k) : Floored j mss cwnd ssthresh :=
  ⟨le_trans hj h.mss, le_trans hj h.cwnd, le_trans hj h.ssthresh⟩

theorem grow (increase : UInt32) : Floored k mss (AimdController.grow cwnd increase) ssthresh :=
  ⟨h.mss, le_trans h.cwnd (le_toNat_grow ..), h.ssthresh⟩

/-- Any window of at least one segment, up to the largest one. -/
theorem saturated {n : ℕ} (hn : mss.toNat ≤ n) :
    Floored k mss (UInt32.ofNat (saturatingUint32 n)) ssthresh := by
  refine ⟨h.mss, ?_, h.ssthresh⟩
  have hmss := h.mss
  have hlt := mss.toNat_lt
  rw [toNat_saturated, maxUint32]
  omega

/-- A threshold of half of some amount, and at least two segments. -/
theorem halved (amount : UInt32) : Floored k mss cwnd (max (amount / 2) (mss.toUInt32 * 2)) := by
  refine ⟨h.mss, h.cwnd, ?_⟩
  have hmss := h.mss
  rw [toNat_halved]
  omega

theorem toThreshold : Floored k mss ssthresh ssthresh := ⟨h.mss, h.ssthresh, h.ssthresh⟩

theorem oneSegment : Floored k mss mss.toUInt32 ssthresh :=
  ⟨h.mss, by rw [UInt16.toNat_toUInt32]; exact h.mss, h.ssthresh⟩

/-- A new segment size of at least `k` bytes: two segments, or the window scaled down, or
    as it is. -/
theorem resized {size : UInt16} (hk : k ≤ size.toNat) :
    Floored k size (size.toUInt32 * 2) ssthresh ∧
      Floored k size
        (max size.toUInt32 (UInt32.ofNat (cwnd.toNat * size.toNat / mss.toNat))) ssthresh ∧
      Floored k size cwnd ssthresh := by
  have htwo := toNat_two_segments size
  refine ⟨⟨hk, by omega, h.ssthresh⟩, ⟨hk, ?_, h.ssthresh⟩, hk, h.cwnd, h.ssthresh⟩
  rw [toNat_max_uint32, UInt16.toNat_toUInt32]
  omega

end

end Floored

/-! ## The controllers -/

namespace AimdController

theorem floored_new (mss : UInt16) :
    Floored mss.toNat (new mss).mss (new mss).cwnd (new mss).ssthresh := by
  have hlt := mss.toNat_lt
  refine ⟨le_refl _, ?_, ?_⟩
  · show mss.toNat ≤ (mss.toUInt32 * 2).toNat
    rw [toNat_two_segments]
    omega
  · show mss.toNat ≤ 2 ^ 32 - 1
    omega

/-- The window and the threshold are never below one segment. -/
instance : FlooredController AimdController where
  segmentSize := mss
  AtLeast k c := Floored k c.mss c.cwnd c.ssthresh
  le_congestionWindow h := h.cwnd
  segmentSize_apply c s := by
    cases s with
    | ack rs =>
      show (c.onAck rs).mss = c.mss
      rw [onAck]
      split_ifs <;> rfl
    | dupAck =>
      show c.onDupAck.mss = c.mss
      rw [onDupAck]
      split <;> rfl
    | fastRecoveryEntry | fastRecoveryExit | rto | ecnCe => rfl
  atLeast_apply {k c} s h := by
    cases s with
    | ack rs =>
      show Floored k (c.onAck rs).mss (c.onAck rs).cwnd (c.onAck rs).ssthresh
      rw [onAck]
      split_ifs
      · exact h
      · exact h
      · exact h.grow _
      · exact h.grow _
      · exact h
    | fastRecoveryEntry flight =>
      refine (h.halved flight).saturated ?_
      rw [toNat_halved]
      omega
    | dupAck =>
      show Floored k c.onDupAck.mss c.onDupAck.cwnd c.onDupAck.ssthresh
      rw [onDupAck]
      split
      · exact h.saturated (Nat.le_add_left ..)
      · exact h
    | fastRecoveryExit => exact h.toThreshold
    | rto => exact h.oneSegment
    | ecnCe => exact (h.halved c.cwnd).toThreshold
  atLeast_updateMss {k c} mss pristine h hk := by
    obtain ⟨htwo, hscaled, hsame⟩ := h.resized hk
    show Floored k (c.updateMss mss pristine).mss (c.updateMss mss pristine).cwnd
      (c.updateMss mss pristine).ssthresh
    rw [updateMss]
    split_ifs
    · exact h
    · exact htwo
    · exact hscaled
    · exact hsame
  congestionWindow_onRto c := UInt16.toNat_toUInt32 c.mss
  onEcnCe_le_iff c := halved_le_iff c.cwnd c.mss

end AimdController

namespace HybridBdpAimdController

theorem floored_new (mss : UInt16) :
    Floored mss.toNat (new mss).mss (new mss).cwnd (new mss).ssthresh :=
  AimdController.floored_new mss

/-- All calls but an acknowledgment are answered as by AIMD. -/
theorem aimd_apply (c : HybridBdpAimdController) (s : Signal) :
    (s.apply c).aimd = s.apply c.aimd ∨ ∃ rs, s = .ack rs := by
  cases s with
  | ack rs => exact .inr ⟨rs, rfl⟩
  | dupAck => exact .inl (apply_ite aimd (c.fastRecovery = true) ..)
  | fastRecoveryEntry | fastRecoveryExit | rto | ecnCe => exact .inl rfl

/-- The window and the threshold are never below one segment. -/
instance : FlooredController HybridBdpAimdController where
  segmentSize := mss
  AtLeast k c := Floored k c.mss c.cwnd c.ssthresh
  le_congestionWindow h := h.cwnd
  segmentSize_apply c s := by
    rcases aimd_apply c s with hsame | ⟨rs, rfl⟩
    · exact (congrArg AimdController.mss hsame).trans (FlooredController.segmentSize_apply c.aimd s)
    · have hcounted : (c.counted rs).mss = c.mss := congrArg AimdController.mss (counted_aimd c rs)
      show (c.onAck rs).mss = c.mss
      rw [onAck_eq, openWindow]
      split_ifs
      · rfl
      · exact hcounted
      · exact hcounted
      · exact hcounted
  atLeast_apply {k c} s h := by
    rcases aimd_apply c s with hsame | ⟨rs, rfl⟩
    · show FlooredController.AtLeast k (s.apply c).aimd
      rw [hsame]
      exact FlooredController.atLeast_apply s h
    · have hcounted : Floored k (c.counted rs).mss (c.counted rs).cwnd (c.counted rs).ssthresh := by
        show FlooredController.AtLeast k (c.counted rs).aimd
        rw [counted_aimd]
        exact h
      show Floored k (c.onAck rs).mss (c.onAck rs).cwnd (c.onAck rs).ssthresh
      rw [onAck_eq, openWindow]
      split_ifs
      · exact h
      · exact hcounted.grow _
      · exact hcounted
      · exact hcounted.saturated (by omega)
  atLeast_updateMss {k c} mss pristine h hk := by
    obtain ⟨htwo, hscaled, hsame⟩ := h.resized hk
    show Floored k (c.updateMss mss pristine).mss (c.updateMss mss pristine).cwnd
      (c.updateMss mss pristine).ssthresh
    rw [updateMss]
    split_ifs
    · exact h
    · exact htwo
    · exact hscaled
    · exact hsame
  congestionWindow_onRto c := UInt16.toNat_toUInt32 c.mss
  onEcnCe_le_iff c := halved_le_iff c.cwnd c.mss

end HybridBdpAimdController

namespace BbrController

theorem floored_new (mss : UInt16) : mss.toNat ≤ (new mss).mss.toNat ∧ mss.toNat ≤ (new mss).cwnd :=
  ⟨le_refl _, Nat.le_mul_of_pos_right mss.toNat (by decide)⟩

/-- The window that is used. -/
theorem toNat_congestionWindow (c : BbrController) :
    (congestionWindow c).toNat = min c.cwnd maxUint32 := by
  show (UInt32.ofNat (min c.cwnd maxUint32)).toNat = _
  rw [UInt32.toNat_ofNat', maxUint32]
  exact Nat.mod_eq_of_lt (by omega)

/-- The window is never below one segment; the calls of a fast recovery do nothing. -/
instance : FlooredController BbrController where
  segmentSize := mss
  AtLeast k c := k ≤ c.mss.toNat ∧ k ≤ c.cwnd
  le_congestionWindow {k c} h := by
    have hlt := c.mss.toNat_lt
    rw [toNat_congestionWindow, maxUint32]
    omega
  segmentSize_apply c s := by
    cases s with
    | ack rs => exact onAck_mss c rs
    | fastRecoveryEntry | dupAck | fastRecoveryExit | rto | ecnCe => rfl
  atLeast_apply {k c} s h := by
    obtain ⟨hmss, hcwnd⟩ := h
    cases s with
    | ack rs =>
      have hfour := four_mul_mss_le_onAck c rs
      refine ⟨?_, ?_⟩
      · show k ≤ (c.onAck rs).mss.toNat
        rwa [onAck_mss]
      · show k ≤ (c.onAck rs).cwnd
        omega
    | rto => exact ⟨hmss, hmss⟩
    | ecnCe =>
      refine ⟨hmss, ?_⟩
      show k ≤ max (c.cwnd / 2) (c.mss.toNat * 2)
      omega
    | fastRecoveryEntry | dupAck | fastRecoveryExit => exact ⟨hmss, hcwnd⟩
  atLeast_updateMss _ _ h _ := h
  congestionWindow_onRto c := by
    have hlt := c.mss.toNat_lt
    rw [toNat_congestionWindow]
    show min c.mss.toNat (2 ^ 32 - 1) = c.mss.toNat
    omega
  onEcnCe_le_iff c := by
    have hlt := c.mss.toNat_lt
    rw [UInt32.le_iff_toNat_le, toNat_congestionWindow, toNat_congestionWindow, maxUint32]
    show min (max (c.cwnd / 2) (c.mss.toNat * 2)) _ ≤ _ ↔ 2 * c.mss.toNat ≤ _
    omega

end BbrController

/-- For each of the three controllers, in the state after any calls: a timeout and an echo
    leave a window that is not larger, if and only if the window is at least two segments.
    Only the echo needs that. -/
theorem neverOpens_iff (mss : UInt16) (signals : List Signal) :
    (NeverOpens (Signal.run signals (AimdController.new mss)) ↔ 2 * mss.toNat ≤
        (congestionWindow (Signal.run signals (AimdController.new mss))).toNat) ∧
    (NeverOpens (Signal.run signals (BbrController.new mss)) ↔ 2 * mss.toNat ≤
        (congestionWindow (Signal.run signals (BbrController.new mss))).toNat) ∧
    (NeverOpens (Signal.run signals (HybridBdpAimdController.new mss)) ↔ 2 * mss.toNat ≤
        (congestionWindow (Signal.run signals (HybridBdpAimdController.new mss))).toNat) := by
  refine ⟨?_, ?_, ?_⟩
  · have hnew := AimdController.floored_new mss
    exact neverOpens_run_iff (c := AimdController.new mss) hnew signals
  · have hnew := BbrController.floored_new mss
    exact neverOpens_run_iff (c := BbrController.new mss) hnew signals
  · have hnew := HybridBdpAimdController.floored_new mss
    exact neverOpens_run_iff (c := HybridBdpAimdController.new mss) hnew signals

/-- After a timeout the window is one segment of 1460 bytes, and an echo makes it two. -/
theorem echo_opens_window :
    ¬ NeverOpens (Signal.run [.rto] (AimdController.new 1460)) ∧
      ¬ NeverOpens (Signal.run [.rto] (BbrController.new 1460)) ∧
      ¬ NeverOpens (Signal.run [.rto] (HybridBdpAimdController.new 1460)) := by
  refine ⟨fun h => ?_, fun h => ?_, fun h => ?_⟩
  · exact absurd h.ecnCe (by decide)
  · exact absurd h.ecnCe (by decide)
  · exact absurd h.ecnCe (by decide)

end Netstack2
