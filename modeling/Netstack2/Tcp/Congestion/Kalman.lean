import Netstack2.Lib.Tiling
import Netstack2.Tcp.RateSampler

/-!
# The Kalman filter of a shard

The connections of a shard share an estimate of the bandwidth of their path, kept
by a scalar Kalman filter (`KccKalmanFilter`): an estimate `x` with its covariance
`p`. A sample `z` with the noise `R` moves the estimate to the mean of the two,
weighted by the noise and the covariance.

All quantities are 64-bit unsigned integers, and noise and covariance are squares
of 32-bit numbers. So that the products fit, both are halved until their sum is
below a guard (`scaleDown`). The sum itself may wrap before that.

Main results:

* `estimate_between`: in every run in which no sum of covariance and noise wraps to
  below the guard, the estimate is at most the larger of the estimate before and
  the sample, and no division is by zero;
* `estimate_beyond`: two samples whose sum does make the estimate hundreds of times
  larger than either.
-/

namespace Netstack2

/-- The value of a 64-bit integer read as a signed one. -/
def asInt64 (n : ℕ) : ℤ := if n < 2 ^ 63 then n else (n : ℤ) - 2 ^ 64

/-- The filter of a shard. What is derived from the estimate for a new connection
    (`GetInitBw`) is not modelled, nor are its parameters. -/
structure KccKalmanFilter where
  enabled : Bool := false
  steadyMode : Bool := false
  /-- The estimate. -/
  x : ℕ := 0
  /-- Its covariance. -/
  p : ℕ := 0
  peak : ℕ := 0
  active : Bool := false

namespace KccKalmanFilter

def kfChi2Num : ℕ := 384

def kfChi2Den : ℕ := 100

def kfQShift : ℕ := 20

def kfInnovShift : ℕ := 10

def kfVarShift : ℕ := 20

def kfInnovSqCap : ℕ := 3000000000

def kfOverflowGuard : ℕ := 2 ^ 31

/-- The noise of a sample: the square of a percentage of it. -/
def kfComputeR (z pct : ℕ) : ℕ :=
  let r := saturatingUint32 (wrapUint64 (z * pct) / 100)
  wrapUint64 (r * r)

/-- The covariance of the prediction. -/
def predict (f : KccKalmanFilter) : ℕ := wrapUint64 (f.p + 2 ^ kfQShift)

/-- The innovation gate: the sample is too far from the estimate. -/
def rejects (f : KccKalmanFilter) (P R z : ℕ) : Bool :=
  let nu := min (asInt64 z - asInt64 f.x).natAbs kfInnovSqCap
  let nu2 := wrapUint64 ((nu >>> kfInnovShift) * (nu >>> kfInnovShift))
  let S := wrapUint64 (P + R) >>> kfVarShift
  0 < S && wrapUint64 (kfChi2Num * S) < wrapUint64 (nu2 * kfChi2Den)

/-- Halve `P` and `R` until their sum, given as `maxV`, is below the guard. The last
    component counts how often. -/
def scaleDown (P R maxV : ℕ) : ℕ × ℕ × ℕ :=
  if maxV < kfOverflowGuard then (P, R, 0)
  else
    let (P, R, shift) := scaleDown (P / 2) (R / 2) (maxV / 2)
    (P, R, shift + 1)
  termination_by maxV
  decreasing_by
    have : 0 < kfOverflowGuard := by decide
    omega

/-- What the update divides by. -/
def divisor (P R : ℕ) : ℕ :=
  let (P, R, _) := scaleDown P R (wrapUint64 (P + R))
  wrapUint64 (P + R)

/-- The new estimate and its covariance, from the estimate `x` and the sample `z`. -/
def blend (x z P R : ℕ) : ℕ × ℕ :=
  let (Pcopy, Rcopy, shift) := scaleDown P R (wrapUint64 (P + R))
  let x := wrapUint64 (wrapUint64 ((x >>> shift) * Rcopy) + wrapUint64 ((z >>> shift) * Pcopy)) /
    divisor P R
  let P := wrapUint64 (Pcopy * Rcopy) / divisor P R
  (wrapUint64 (x <<< shift), max (wrapUint64 (P <<< shift)) (2 ^ kfQShift))

def store (f : KccKalmanFilter) (x p : ℕ) : KccKalmanFilter :=
  { f with
    x := x
    p := p
    active := true
    peak := if f.steadyMode && f.peak < x then x else f.peak }

/-- Feed the sample `z`, with a noise of `rPct` percent; `check` enables the
    innovation gate. What the source returns is the estimate `x` of the result. -/
def update (f : KccKalmanFilter) (z rPct : ℕ) (check : Bool) : KccKalmanFilter :=
  if f.enabled = false ∨ z = 0 then f
  else
    let R := kfComputeR z rPct
    let P := f.predict
    if f.active = false then f.store z (max R 1)
    else if check && f.rejects P R z then f
    else
      let blended := blend f.x z P R
      if 0 < blended.1 then f.store blended.1 blended.2 else f

@[simp] theorem store_x (f : KccKalmanFilter) (x p : ℕ) : (f.store x p).x = x := rfl

@[simp] theorem store_p (f : KccKalmanFilter) (x p : ℕ) : (f.store x p).p = p := rfl

/-! ## The weighted mean -/

theorem wrapUint64_le (n : ℕ) : wrapUint64 n ≤ n := Nat.mod_le ..

theorem wrapUint64_of_lt {n : ℕ} (h : n < 2 ^ 64) : wrapUint64 n = n := Nat.mod_eq_of_lt h

/-- A weighted mean is at most the larger of the two. -/
theorem mean_le_max (a b p r : ℕ) : (a * r + b * p) / (p + r) ≤ max a b := by
  refine Nat.div_le_of_le_mul ?_
  have ha : a * r ≤ max a b * r := Nat.mul_le_mul_right r (le_max_left a b)
  have hb : b * p ≤ max a b * p := Nat.mul_le_mul_right p (le_max_right a b)
  calc a * r + b * p ≤ max a b * r + max a b * p := add_le_add ha hb
    _ = (p + r) * max a b := by ring

variable {f : KccKalmanFilter} {P R : ℕ}

theorem scaleDown_of_lt {maxV : ℕ} (h : maxV < kfOverflowGuard) :
    scaleDown P R maxV = (P, R, 0) := by
  rw [scaleDown, if_pos h]

theorem scaleDown_eq (P R maxV : ℕ) : ∃ s, scaleDown P R maxV = (P / 2 ^ s, R / 2 ^ s, s) ∧
    (s = 0 ∧ maxV < kfOverflowGuard ∨ 0 < s ∧ kfOverflowGuard / 2 ≤ maxV / 2 ^ s) := by
  induction maxV using Nat.strongRecOn generalizing P R with
  | ind maxV ih =>
    rcases lt_or_ge maxV kfOverflowGuard with hlt | hge
    · exact ⟨0, by rw [scaleDown_of_lt hlt]; simp, .inl ⟨rfl, hlt⟩⟩
    · have hguard : 0 < kfOverflowGuard := by decide
      obtain ⟨s, heq, hs⟩ := ih (maxV / 2) (by omega) (P / 2) (R / 2)
      refine ⟨s + 1, ?_, .inr ⟨Nat.succ_pos s, ?_⟩⟩
      · rw [scaleDown, if_neg (Nat.not_lt.2 hge), heq]
        simp [Nat.div_div_eq_div_mul, Nat.pow_succ, mul_comm]
      · rw [Nat.pow_succ, mul_comm, ← Nat.div_div_eq_div_mul]
        rcases hs with ⟨rfl, -⟩ | ⟨-, hs⟩
        · rw [Nat.pow_zero, Nat.div_one]
          omega
        · exact hs

/-- The sum of the covariance and the noise does not wrap, or wraps to something
    that is scaled down. -/
def SumFits (P R : ℕ) : Prop := P + R < 2 ^ 64 ∨ 2 ^ 64 + kfOverflowGuard ≤ P + R

instance (P R : ℕ) : Decidable (SumFits P R) := inferInstanceAs (Decidable (_ ∨ _))

/-- Where the sum fits, the divisor is what the weights add up to. -/
theorem divisor_eq (hP : P < 2 ^ 64) (hR : R < 2 ^ 64) (hpos : 0 < P) (hfits : SumFits P R) :
    ∃ s, scaleDown P R (wrapUint64 (P + R)) = (P / 2 ^ s, R / 2 ^ s, s) ∧
      divisor P R = P / 2 ^ s + R / 2 ^ s ∧ 0 < P / 2 ^ s + R / 2 ^ s := by
  obtain ⟨s, heq, hs⟩ := scaleDown_eq P R (wrapUint64 (P + R))
  have hguard : kfOverflowGuard = 2 ^ 31 := rfl
  have hdivisor : divisor P R = wrapUint64 (P / 2 ^ s + R / 2 ^ s) := by rw [divisor, heq]
  refine ⟨s, heq, ?_⟩
  rcases hs with ⟨rfl, hlt⟩ | ⟨hspos, hge⟩
  · -- nothing is halved, so nothing has wrapped
    have hsum : P + R < 2 ^ 64 := by
      rcases hfits with hfits | hfits
      · exact hfits
      · rw [wrapUint64] at hlt
        omega
    simp only [Nat.pow_zero, Nat.div_one] at hdivisor ⊢
    rw [hdivisor, wrapUint64_of_lt hsum]
    omega
  · -- both weights are less than half the range
    have htwo : 2 ≤ 2 ^ s := Nat.le_self_pow (ne_of_gt hspos) 2
    have hPs : P / 2 ^ s ≤ P / 2 := Nat.div_le_div_left htwo Nat.two_pos
    have hRs : R / 2 ^ s ≤ R / 2 := Nat.div_le_div_left htwo Nat.two_pos
    have hle : wrapUint64 (P + R) / 2 ^ s ≤ (P + R) / 2 ^ s :=
      Nat.div_le_div_right (wrapUint64_le _)
    have hsum : (P + R) / 2 ^ s ≤ P / 2 ^ s + R / 2 ^ s + 1 := by
      rw [Nat.add_div (Nat.two_pow_pos s)]
      split <;> omega
    rw [hdivisor, wrapUint64_of_lt (by omega)]
    omega

theorem wrap_shiftLeft_le {x y s : ℕ} (h : x ≤ y / 2 ^ s) : wrapUint64 (x <<< s) ≤ y := by
  rw [Nat.shiftLeft_eq]
  exact (wrapUint64_le _).trans ((Nat.mul_le_mul_right _ h).trans (Nat.div_mul_le_self y _))

/-- Wrapping the weighted sum only makes the mean smaller. -/
theorem blend_le {x z : ℕ} (hP : P < 2 ^ 64) (hR : R < 2 ^ 64) (hpos : 0 < P) (hfits : SumFits P R) :
    (blend x z P R).1 ≤ max x z ∧ (blend x z P R).2 ≤ max R (2 ^ kfQShift) := by
  obtain ⟨s, heq, hdivisor, hsum⟩ := divisor_eq hP hR hpos hfits
  rw [blend, heq, hdivisor]
  dsimp only
  rw [Nat.shiftRight_eq_div_pow, Nat.shiftRight_eq_div_pow]
  constructor
  · refine wrap_shiftLeft_le ?_
    calc _ ≤ (x / 2 ^ s * (R / 2 ^ s) + z / 2 ^ s * (P / 2 ^ s)) / (P / 2 ^ s + R / 2 ^ s) :=
          Nat.div_le_div_right ((wrapUint64_le _).trans
            (add_le_add (wrapUint64_le _) (wrapUint64_le _)))
      _ ≤ max (x / 2 ^ s) (z / 2 ^ s) := mean_le_max _ _ _ _
      _ ≤ max x z / 2 ^ s := Nat.max_le.2
          ⟨Nat.div_le_div_right (le_max_left x z), Nat.div_le_div_right (le_max_right x z)⟩
  · refine Nat.max_le.2 ⟨le_trans ?_ (le_max_left ..), le_max_right ..⟩
    refine wrap_shiftLeft_le ?_
    calc _ ≤ P / 2 ^ s * (R / 2 ^ s) / (P / 2 ^ s + R / 2 ^ s) :=
          Nat.div_le_div_right (wrapUint64_le _)
      _ ≤ R / 2 ^ s := by
          refine Nat.div_le_of_le_mul ?_
          exact Nat.mul_le_mul_right _ (Nat.le_add_right ..)

/-- The estimate after a sample that is neither the first nor rejected. -/
theorem update_x {z rPct : ℕ} {check : Bool} (henabled : f.enabled) (hz : z ≠ 0)
    (hactive : f.active) (hopen : (check && f.rejects f.predict (kfComputeR z rPct) z) = false) :
    (f.update z rPct check).x =
      if 0 < (blend f.x z f.predict (kfComputeR z rPct)).1 then
        (blend f.x z f.predict (kfComputeR z rPct)).1
      else f.x := by
  rw [update, if_neg (by simp [henabled, hz])]
  dsimp only
  rw [if_neg (by simp [hactive]), hopen, if_neg Bool.false_ne_true]
  rw [apply_ite KccKalmanFilter.x, store_x]

/-! ## Runs of the filter -/

/-- One call of `update`: the sample, its noise in percent, and the gate. -/
structure Update where
  z : ℕ
  rPct : ℕ
  check : Bool

def step (f : KccKalmanFilter) (u : Update) : KccKalmanFilter := f.update u.z u.rPct u.check

/-- The sum that the update scales down fits. -/
def Fits (f : KccKalmanFilter) (u : Update) : Prop := SumFits f.predict (kfComputeR u.z u.rPct)

/-- After the first sample, the estimate stays below the larger of the estimate
    before and the sample, and the division is not by zero. -/
def Between (f : KccKalmanFilter) (u : Update) : Prop :=
  f.active = true → (f.step u).x ≤ max f.x u.z ∧ divisor f.predict (kfComputeR u.z u.rPct) ≠ 0

instance (f : KccKalmanFilter) (u : Update) : Decidable (f.Fits u) :=
  inferInstanceAs (Decidable (SumFits ..))

theorem kfComputeR_le (z pct : ℕ) : kfComputeR z pct ≤ maxUint32 * maxUint32 := by
  have hr : saturatingUint32 (wrapUint64 (z * pct) / 100) ≤ maxUint32 := by
    rw [saturatingUint32]
    split <;> omega
  exact (wrapUint64_le _).trans (Nat.mul_le_mul hr hr)

/-- The covariance of every state is at most a square. -/
def Bounded (f : KccKalmanFilter) : Prop := f.p ≤ maxUint32 * maxUint32

theorem Bounded.predict (h : f.Bounded) : 0 < f.predict ∧ f.predict < 2 ^ 64 := by
  have hp : f.p ≤ maxUint32 * maxUint32 := h
  have hmax : maxUint32 * maxUint32 + 2 ^ kfQShift < 2 ^ 64 := by decide
  have hq : 0 < 2 ^ kfQShift := by decide
  rw [KccKalmanFilter.predict, wrapUint64_of_lt (by omega)]
  omega

/-- One update. -/
theorem Bounded.step {u : Update} (h : f.Bounded) (hfits : f.Fits u) :
    f.Between u ∧ (f.step u).Bounded := by
  obtain ⟨hpos, hP⟩ := h.predict
  have hnoise := kfComputeR_le u.z u.rPct
  have hsquare : maxUint32 * maxUint32 < 2 ^ 64 := by decide
  have hfloor : 2 ^ kfQShift ≤ maxUint32 * maxUint32 := by decide
  have hR : kfComputeR u.z u.rPct < 2 ^ 64 := by omega
  obtain ⟨s, -, hdivisor, hsum⟩ := divisor_eq hP hR hpos hfits
  obtain ⟨hx, hp⟩ := blend_le (x := f.x) (z := u.z) hP hR hpos hfits
  have hkeep : f.x ≤ max f.x u.z := le_max_left ..
  have hstep : (f.active = true → (f.step u).x ≤ max f.x u.z) ∧ (f.step u).Bounded := by
    rw [KccKalmanFilter.step, update]
    split
    case isTrue => exact ⟨fun _ => hkeep, h⟩
    dsimp only
    split
    case isTrue hinactive =>
      refine ⟨fun hactive => absurd hactive (by rw [hinactive]; exact Bool.false_ne_true), ?_⟩
      rw [Bounded, store_p]
      exact Nat.max_le.2 ⟨hnoise, by decide⟩
    split
    case isTrue => exact ⟨fun _ => hkeep, h⟩
    split
    case isTrue =>
      rw [Bounded, store_x, store_p]
      exact ⟨fun _ => hx, hp.trans (Nat.max_le.2 ⟨hnoise, hfloor⟩)⟩
    case isFalse => exact ⟨fun _ => hkeep, h⟩
  exact ⟨fun hactive => ⟨hstep.1 hactive, by omega⟩, hstep.2⟩

theorem between_of_bounded {updates : List Update} (h : f.Bounded)
    (hfits : Allowed KccKalmanFilter.step Fits f updates) :
    Allowed KccKalmanFilter.step Between f updates := by
  induction updates generalizing f with
  | nil => trivial
  | cons _ _ ih =>
    obtain ⟨hbetween, hbounded⟩ := h.step hfits.1
    exact ⟨hbetween, ih hbounded hfits.2⟩

/-- In every run of a filter in which no sum of covariance and noise wraps to below
    the guard, every update after the first sample leaves the estimate below the
    larger of the estimate before and the sample, and does not divide by zero. -/
theorem estimate_between (steady : Bool) (updates : List Update)
    (hfits : Allowed KccKalmanFilter.step Fits { enabled := true, steadyMode := steady } updates) :
    Allowed KccKalmanFilter.step Between { enabled := true, steadyMode := steady } updates :=
  between_of_bounded (Nat.zero_le _) hfits

/-- Two samples of a path of about a thousand segments a second. -/
theorem estimate_between_thousand :
    Allowed KccKalmanFilter.step Between { enabled := true }
      [⟨16777, 15, false⟩, ⟨18000, 5, true⟩] :=
  estimate_between false _ (by decide)

/-- The largest sample that a 32-bit counter of segments and an interval of a millisecond give. -/
def maxSample : ℕ := maxUint32 * 2 ^ 24 / 1000

/-- The first sample leaves a covariance that, with the noise of the second, is just above `2 ^ 64`:
    nothing is scaled down, the gate is open, and the division is by what is left of the sum. -/
theorem estimate_beyond :
    let f : KccKalmanFilter := ({ enabled := true } : KccKalmanFilter).update 14714553507 15 false
    let u : Update := ⟨73688770280, 5, true⟩
    u.z ≤ maxSample ∧ f.x = 14714553507 ∧ (f.step u).x = 26743825742033 ∧ ¬f.Between u := by
  intro f u
  have hsum : wrapUint64 (f.predict + kfComputeR u.z u.rPct) < kfOverflowGuard := by decide
  have hopen : f.rejects f.predict (kfComputeR u.z u.rPct) u.z = false := by decide
  have hblend : (blend f.x u.z f.predict (kfComputeR u.z u.rPct)).1 = 26743825742033 := by
    rw [blend, divisor, scaleDown_of_lt hsum]
    decide
  have hx : (f.step u).x = 26743825742033 := by
    rw [KccKalmanFilter.step, update_x (by decide) (by decide) (by decide) (by rw [hopen]; rfl),
      hblend, if_pos (by decide)]
  refine ⟨by decide, by decide, hx, fun hbetween => ?_⟩
  have hle := (hbetween (by decide)).1
  rw [hx] at hle
  exact absurd hle (by decide)

end KccKalmanFilter

end Netstack2
