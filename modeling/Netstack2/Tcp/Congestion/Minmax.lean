import Netstack2.Lib.Seq
import Netstack2.Lib.Tiling

/-!
# The bandwidth filter of KCC

KCC estimates the bandwidth of a path as the maximum of the measurements of the
last rounds. The filter (`Minmax`) keeps three of them with their times, and the
third is the estimate. Times are 32-bit counters that wrap; here a measurement
has a time that does not wrap, and the filter sees its serial number.

An estimate is a *windowed maximum* if it is at most the largest measurement
within the window (`Windowed`). What the filter tests to forget an old estimate
is not the time of the estimate but that of the second sample, which it sets to
the present as long as the estimate is not exceeded.

Main results:

* `windowed_iff_forgets`: after every call of a run the estimate is a windowed
  maximum, if and only if at every call the filter `Forgets` what it holds or may keep it;
* `peak_kept`: a first measurement of `100` is still the estimate after eleven
  measurements of `1`, with a window of ten.
-/

namespace Netstack2

open List

namespace KccController

/-- A measurement and its time. -/
structure MinmaxSample where
  t : UInt32 := 0
  v : UInt32 := 0
  deriving DecidableEq

/-- The three samples of the filter (`s[0]`, `s[1]` and `s[2]` of the source). -/
structure Minmax where
  s0 : MinmaxSample := {}
  s1 : MinmaxSample := {}
  s2 : MinmaxSample := {}

/-- `Before` of the source: the signed difference is negative. -/
def before (a b : UInt32) : Bool := SignedNeg (a - b)

namespace Minmax

/-- Forget everything but one measurement. -/
def reset (t meas : UInt32) : Minmax := ⟨⟨t, meas⟩, ⟨t, meas⟩, ⟨t, meas⟩⟩

/-- The estimate. -/
def get (f : Minmax) : UInt32 := f.s2.v

/-- Forget the first sample, and take the measurement as the last one. -/
def shift (f : Minmax) (t meas : UInt32) : Minmax := ⟨f.s1, f.s2, ⟨t, meas⟩⟩

/-- Take a measurement `meas` made at time `t`, for a window of length `win`. -/
def runningMax (f : Minmax) (win t meas : UInt32) : Minmax :=
  let s0 :=
    if f.s0.t = f.s1.t then (if meas > f.s0.v then { f.s0 with v := meas } else f.s0) else f.s1
  let s1 := if s0.v ≥ f.s1.v ∧ s0.v ≥ f.s2.v then ⟨t, s0.v⟩ else f.s1
  let s2 := if meas ≥ f.s2.v then ⟨t, meas⟩ else f.s2
  let f : Minmax := ⟨s0, s1, s2⟩
  let f := if before t f.s0.t then f.shift t meas else f
  if before f.s0.t (t - win) then f.shift t meas else f

/-- The filter gives up its estimate for the measurement: it is reached, or the
    time of the second sample is outside of the window. -/
def Replaces (f : Minmax) (win t meas : UInt32) : Prop :=
  f.get ≤ meas ∨ before t f.s1.t = true ∨ before f.s1.t (t - win) = true

instance (f : Minmax) (win t meas : UInt32) : Decidable (f.Replaces win t meas) :=
  inferInstanceAs (Decidable (_ ∨ _))

/-- The sample that holds the estimate. Whether the first sample is raised, or
    replaced by the second, its time is then that of the second. -/
theorem runningMax_s2 (f : Minmax) (win t meas : UInt32) :
    (f.runningMax win t meas).s2 = if f.Replaces win t meas then ⟨t, meas⟩ else f.s2 := by
  rw [runningMax]
  generalize hs0 : (if f.s0.t = f.s1.t then (if meas > f.s0.v then { f.s0 with v := meas }
    else f.s0) else f.s1) = s0
  have htime : s0.t = f.s1.t := by
    rw [← hs0]
    split
    · split <;> assumption
    · rfl
  rw [htime]
  by_cases hafter : before t f.s1.t = true
  · have hreplace : f.Replaces win t meas := .inr (.inl hafter)
    rw [if_pos hafter, if_pos hreplace]
    exact (apply_ite Minmax.s2 _ _ _).trans (ite_self _)
  · rw [if_neg hafter, htime]
    by_cases hold : before f.s1.t (t - win) = true
    · have hreplace : f.Replaces win t meas := .inr (.inr hold)
      rw [if_pos hold, if_pos hreplace]
      rfl
    · rw [if_neg hold]
      simp only [Replaces, get, hafter, hold, Bool.false_eq_true, or_false, ge_iff_le]

end Minmax

/-! ## Runs of the filter -/

/-- A filter, and the measurements it was given, with their times. -/
structure FilterRun where
  filter : Minmax
  now : ℕ
  log : List (ℕ × UInt32)

namespace FilterRun

/-- A filter that was just reset. -/
def start (t : ℕ) (meas : UInt32) : FilterRun where
  filter := .reset (UInt32.ofNat t) meas
  now := t
  log := [(t, meas)]

/-- One call of `runningMax`. -/
def step (win : UInt32) (s : FilterRun) (call : ℕ × UInt32) : FilterRun where
  filter := s.filter.runningMax win (UInt32.ofNat call.1) call.2
  now := call.1
  log := call :: s.log

/-- The measurements of the window that ends now. -/
def window (win : UInt32) (s : FilterRun) : List (ℕ × UInt32) :=
  s.log.filter fun p => s.now ≤ p.1 + win.toNat ∧ p.1 ≤ s.now

/-- The largest measurement of the window. -/
def windowMax (win : UInt32) (s : FilterRun) : ℕ :=
  ((s.window win).map fun p => p.2.toNat).foldr max 0

/-- The estimate is at most the largest measurement of the window. -/
def Windowed (win : UInt32) (s : FilterRun) : Prop := s.filter.get.toNat ≤ s.windowMax win

/-- Time does not go back, and less than half of the serial numbers pass between two calls. -/
def InTime (s : FilterRun) (call : ℕ × UInt32) : Prop := s.now ≤ call.1 ∧ call.1 < s.now + 2 ^ 31

/-- The sample of the estimate is still in the window, or the filter replaces it. -/
def Forgets (win : UInt32) (s : FilterRun) (call : ℕ × UInt32) : Prop :=
  before s.filter.s2.t (UInt32.ofNat call.1 - win) = false ∨
    s.filter.Replaces win (UInt32.ofNat call.1) call.2

instance (win : UInt32) (s : FilterRun) : Decidable (s.Windowed win) :=
  inferInstanceAs (Decidable (_ ≤ _))

instance (s : FilterRun) (call : ℕ × UInt32) : Decidable (s.InTime call) :=
  inferInstanceAs (Decidable (_ ∧ _))

instance (win : UInt32) (s : FilterRun) (call : ℕ × UInt32) : Decidable (s.Forgets win call) :=
  inferInstanceAs (Decidable (_ ∨ _))

theorem le_foldr_max {x : ℕ} {l : List ℕ} : x ≤ l.foldr max 0 ↔ x = 0 ∨ ∃ y ∈ l, x ≤ y := by
  induction l with
  | nil => simp
  | cons y l ih =>
    have hmax : x ≤ max y (l.foldr max 0) ↔ x ≤ y ∨ x ≤ l.foldr max 0 := by omega
    rw [foldr_cons, hmax, ih]
    simp only [mem_cons, exists_eq_or_imp]
    tauto

variable {s : FilterRun} {win : UInt32}

/-- The window is never empty: the last measurement is in it. -/
theorem windowed_step_iff {call : ℕ × UInt32} :
    Windowed win (s.step win call) ↔ ∃ p ∈ call :: s.log,
      call.1 ≤ p.1 + win.toNat ∧ p.1 ≤ call.1 ∧
        (s.step win call).filter.get.toNat ≤ p.2.toNat := by
  rw [Windowed, windowMax, le_foldr_max]
  constructor
  · rintro (hzero | ⟨y, hy, hle⟩)
    · refine ⟨call, mem_cons_self, Nat.le_add_right .., Nat.le_refl _, ?_⟩
      rw [hzero]
      exact Nat.zero_le _
    · obtain ⟨p, hp, rfl⟩ := mem_map.1 hy
      obtain ⟨hp, hwindow⟩ := mem_filter.1 hp
      obtain ⟨hfrom, hto⟩ := of_decide_eq_true hwindow
      exact ⟨p, hp, hfrom, hto, hle⟩
  · rintro ⟨_, hp, hfrom, hto, hle⟩
    exact .inr ⟨_, mem_map_of_mem (mem_filter.2 ⟨hp, decide_eq_true ⟨hfrom, hto⟩⟩), hle⟩

/-- As long as the differences are small, the window is what `Before` tests. -/
theorem before_window {t u : ℕ} (hwin : win.toNat < 2 ^ 31) (hle : u ≤ t)
    (hlt : t < u + win.toNat + 2 ^ 31) :
    before (UInt32.ofNat u) (UInt32.ofNat t - win) ↔ u + win.toNat < t := by
  rw [before, decide_eq_true_iff, signedNeg_iff, UInt32.toNat_sub, UInt32.toNat_sub,
    UInt32.toNat_ofNat', UInt32.toNat_ofNat']
  omega

/-- The filter holds a measurement made at time `held`, which is in the window; all
    later ones are smaller. -/
structure Holds (win : UInt32) (held : ℕ) (s : FilterRun) : Prop where
  time : s.filter.s2.t = UInt32.ofNat held
  mem : (held, s.filter.get) ∈ s.log
  past : held ≤ s.now
  recent : s.now ≤ held + win.toNat
  later : ∀ p ∈ s.log, held < p.1 → p.2.toNat < s.filter.get.toNat

theorem holds_start (win : UInt32) (t : ℕ) (meas : UInt32) : Holds win t (start t meas) where
  time := rfl
  mem := mem_singleton.2 rfl
  past := le_refl t
  recent := Nat.le_add_right ..
  later p hp hlt := by
    rw [mem_singleton.1 hp] at hlt
    exact absurd hlt (lt_irrefl t)

/-- One call: the estimate is a windowed maximum again if the filter can forget
    what it held, and only then. -/
theorem Holds.step {held : ℕ} {call : ℕ × UInt32} (hwin : win.toNat < 2 ^ 31) (h : Holds win held s)
    (htime : s.InTime call) (hpast : ∀ p ∈ s.log, p.1 ≤ s.now) :
    (Windowed win (s.step win call) ↔ s.Forgets win call) ∧
      (s.Forgets win call → ∃ held', Holds win held' (s.step win call)) := by
  obtain ⟨hle, hlt⟩ := htime
  have hrecent := h.recent
  have hpast' := h.past
  have hs2 := s.filter.runningMax_s2 win (UInt32.ofNat call.1) call.2
  rw [windowed_step_iff]
  by_cases hreplace : s.filter.Replaces win (UInt32.ofNat call.1) call.2
  · -- the measurement itself becomes the estimate
    rw [if_pos hreplace] at hs2
    have hget : (s.step win call).filter.get = call.2 := congrArg MinmaxSample.v hs2
    refine ⟨iff_of_true ?_ (.inr hreplace), fun _ => ⟨call.1, ?_⟩⟩
    · exact ⟨call, mem_cons_self, Nat.le_add_right .., le_refl _, (congrArg UInt32.toNat hget).le⟩
    · refine ⟨congrArg MinmaxSample.t hs2, ?_, le_refl _, Nat.le_add_right .., ?_⟩
      · rw [hget]
        exact mem_cons_self
      · intro p hp hafter
        rcases mem_cons.1 hp with rfl | hp
        · exact absurd hafter (lt_irrefl _)
        · have := hpast p hp
          omega
  · -- the estimate stays, and the measurement is smaller
    rw [if_neg hreplace] at hs2
    have hget : (s.step win call).filter.get = s.filter.get := congrArg MinmaxSample.v hs2
    have hsmall : call.2.toNat < s.filter.get.toNat := by
      by_contra hge
      exact hreplace (.inl (UInt32.le_iff_toNat_le.2 (Nat.not_lt.1 hge)))
    have hbefore : before s.filter.s2.t (UInt32.ofNat call.1 - win) = true ↔
        held + win.toNat < call.1 := by
      rw [h.time]
      exact before_window hwin (by omega) (by omega)
    have hforgets : s.Forgets win call ↔ call.1 ≤ held + win.toNat := by
      rw [Forgets, or_iff_left hreplace, ← Bool.not_eq_true, hbefore, not_lt]
    rw [hforgets, hget]
    refine ⟨⟨?_, fun hin => ?_⟩, fun hin => ⟨held, ?_⟩⟩
    · rintro ⟨p, hp, hfrom, -, hreach⟩
      rcases mem_cons.1 hp with rfl | hp
      · exact absurd hsmall (Nat.not_lt.2 hreach)
      · -- a measurement that reaches the estimate is not later than it
        by_contra hout
        exact absurd (h.later p hp (by omega)) (Nat.not_lt.2 hreach)
    · exact ⟨_, mem_cons_of_mem _ h.mem, hin, by omega, le_refl _⟩
    · refine ⟨(congrArg MinmaxSample.t hs2).trans h.time, ?_, h.past.trans hle, hin, ?_⟩
      · rw [hget]
        exact mem_cons_of_mem _ h.mem
      · intro p hp hafter
        rw [hget]
        rcases mem_cons.1 hp with rfl | hp
        · exact hsmall
        · exact h.later p hp hafter

theorem windowed_iff_of_holds {held : ℕ} {calls : List (ℕ × UInt32)} (hwin : win.toNat < 2 ^ 31)
    (h : Holds win held s) (hpast : ∀ p ∈ s.log, p.1 ≤ s.now)
    (htime : Allowed (step win) InTime s calls) :
    Allowed (step win) (fun s call => Windowed win (s.step win call)) s calls ↔
      Allowed (step win) (Forgets win) s calls := by
  induction calls generalizing s held with
  | nil => exact Iff.rfl
  | cons call calls ih =>
    obtain ⟨hnow, hrest⟩ := htime
    obtain ⟨hiff, hholds⟩ := h.step hwin hnow hpast
    have hpast' : ∀ p ∈ (s.step win call).log, p.1 ≤ (s.step win call).now := by
      intro p hp
      rcases mem_cons.1 hp with rfl | hp
      · exact le_refl _
      · exact (hpast p hp).trans hnow.1
    have hrest : s.Forgets win call →
        (Allowed (step win) (fun s call => Windowed win (s.step win call)) (s.step win call) calls ↔
          Allowed (step win) (Forgets win) (s.step win call) calls) := by
      intro hforgets
      obtain ⟨held', hheld⟩ := hholds hforgets
      exact ih hheld hpast' hrest
    exact ⟨fun ⟨hw, hws⟩ => ⟨hiff.1 hw, (hrest (hiff.1 hw)).1 hws⟩,
      fun ⟨hf, hfs⟩ => ⟨hiff.2 hf, (hrest hf).2 hfs⟩⟩

/-- After every call of a run the estimate is a windowed maximum, if and only if at every call the
    filter can forget what it holds: the sample of the estimate is in the window, the measurement
    reaches the estimate, or the time of the second sample is outside of the window. -/
theorem windowed_iff_forgets (win : UInt32) (hwin : win.toNat < 2 ^ 31) (t₀ : ℕ) (m₀ : UInt32)
    (calls : List (ℕ × UInt32)) (htime : Allowed (step win) InTime (start t₀ m₀) calls) :
    Allowed (step win) (fun s call => Windowed win (s.step win call)) (start t₀ m₀) calls ↔
      Allowed (step win) (Forgets win) (start t₀ m₀) calls := by
  refine windowed_iff_of_holds hwin (holds_start win t₀ m₀) (fun p hp => ?_) htime
  rw [mem_singleton.1 hp]
  exact le_refl t₀

/-- A smaller measurement follows after a pause that is longer than the window, and
    replaces the estimate. -/
theorem windowed_iff_forgets_pause :
    let calls := [(5, 70), (40, 3), (41, 2)]
    Allowed (step 10) (Forgets 10) (start 0 100) calls ∧
      Allowed (step 10) (fun s call => Windowed 10 (s.step 10 call)) (start 0 100) calls := by
  intro calls
  have hforgets : Allowed (step 10) (Forgets 10) (start 0 100) calls := by decide
  exact ⟨hforgets, (windowed_iff_forgets 10 (by decide) 0 100 calls (by decide)).2 hforgets⟩

/-- The first measurement is `100`, and one of `1` follows in each of eleven rounds:
    with a window of ten rounds, the estimate is still `100`. -/
theorem peak_kept :
    let calls := (range' 1 11).map fun t => (t, (1 : UInt32))
    let s := calls.foldl (step 10) (start 0 100)
    Allowed (step 10) InTime (start 0 100) calls ∧
      s.now = 11 ∧ s.filter.get = 100 ∧ s.windowMax 10 = 1 ∧
      ¬Allowed (step 10) (fun s call => Windowed 10 (s.step 10 call)) (start 0 100) calls := by
  decide +kernel

end FilterRun

end KccController

end Netstack2
