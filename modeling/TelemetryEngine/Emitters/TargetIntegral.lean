import Mathlib.Analysis.SpecialFunctions.Integrals.Basic
import TelemetryEngine.Emitters.Load
import TelemetryEngine.Foundation.LeftSums

/-! `_integrate_target` of `emitters/load.py`: the spans a worker should have produced, by
one-second steps. Exact for rates that change on whole seconds only. -/
namespace TelemetryEngine.Emitters
open MeasureTheory Foundation.LeftSums

section
variable {K : Type} [Field K] [LinearOrder K] [IsStrictOrderedRing K] [FloorRing K]

theorem ceil_second {elapsedS t : K} (before : t < elapsedS) :
    ⌈elapsedS - (t + 1)⌉₊ < ⌈elapsedS - t⌉₊ := by
  rw [Nat.lt_ceil]
  rcases le_or_gt (elapsedS - (t + 1)) 0 with past | more
  · rw [Nat.ceil_eq_zero.mpr past, Nat.cast_zero]
    exact sub_pos.mpr before
  · have near := Nat.ceil_lt_add_one more.le
    linarith

/-- `while t < elapsed_s` -/
def integrateFrom {K : Type} [Field K] [LinearOrder K] [IsStrictOrderedRing K] [FloorRing K]
    (load : LoadProfile) (elapsedS rateShare t total : K) : K :=
  if t < elapsedS then
    integrateFrom load elapsedS rateShare (t + 1)
      (total + load.targetRate t * rateShare * min 1 (elapsedS - t))
  else total
termination_by ⌈elapsedS - t⌉₊
decreasing_by exact ceil_second ‹_›

/-- Approximate the spans a worker should have produced after some time. -/
def integrateTarget (load : LoadProfile) (elapsedS rateShare : K) : K :=
  integrateFrom load elapsedS rateShare 0 0

variable {load : LoadProfile} {elapsedS rateShare : K}

/-- From a whole second on, the loop adds up the steps that are left. -/
theorem integrateFrom_eq {left n : ℕ} (steps : n + left = ⌈elapsedS⌉₊) (total : K) :
    integrateFrom load elapsedS rateShare n total = total +
      ((List.range left).map fun k : ℕ => load.targetRate ((n + k : ℕ) : K) * rateShare *
        min 1 (elapsedS - (n + k : ℕ))).sum := by
  induction left generalizing n total with
  | zero =>
    have past : ¬ (n : K) < elapsedS := by
      rw [← Nat.lt_ceil]
      omega
    rw [integrateFrom, if_neg past]
    simp
  | succ left ih =>
    have more : (n : K) < elapsedS := by
      rw [← Nat.lt_ceil]
      omega
    rw [integrateFrom, if_pos more, ← Nat.cast_succ, ih (by omega), List.range_succ_eq_map,
      List.map_cons, List.sum_cons, List.map_map, add_assoc]
    simp only [Function.comp_def, Nat.add_zero, Nat.succ_eq_add_one, Nat.add_right_comm n 1,
      Nat.add_assoc]

theorem integrateTarget_eq : integrateTarget load elapsedS rateShare =
    leftSum (fun t => load.targetRate t * rateShare) elapsedS := by
  have looped := @integrateFrom_eq _ _ _ _ _ load _ rateShare _ _ (Nat.zero_add ⌈elapsedS⌉₊) 0
  simpa [integrateTarget, leftSum] using looped

theorem floatMod_second {period k : ℕ} (periodic : 0 < period) {t : K} (after : k ≤ t)
    (before : t < k + 1) : floatMod t (period : K) = (k % period : ℕ) + (t - k) := by
  have seconds : (0 : K) < period := by exact_mod_cast periodic
  have whole : (period : K) * (k / period : ℕ) + (k % period : ℕ) = k := by
    exact_mod_cast Nat.div_add_mod k period
  have floor : ⌊t / period⌋ = (k / period : ℕ) := by
    have inside : ((k % period : ℕ) : K) + 1 ≤ period := by
      exact_mod_cast Nat.mod_lt k periodic
    have nonneg : (0 : K) ≤ (k % period : ℕ) := Nat.cast_nonneg _
    rw [Int.floor_eq_iff, Int.cast_natCast, le_div_iff₀ seconds, div_lt_iff₀ seconds]
    constructor <;> linarith
  rw [floatMod, floor, Int.cast_natCast]
  linarith

end

/-! ### The three shapes -/

section
variable {sustained burst : Int} {rateShare : ℝ}

/-- The default shape parameters: a period of 30 seconds, bursts of 8, a ramp of 120. -/
def shaped (profile : Profile) (sustained burst : Int) : LoadProfile where
  profile
  sustainedSpansPerSec := sustained
  burstSpansPerSec := burst

theorem burst_constant (k : ℕ) (t : ℝ) (after : k ≤ t) (before : t < k + 1) :
    (shaped .burst sustained burst).targetRate t = (shaped .burst sustained burst).targetRate (k : ℝ) := by
  have here : floatMod t ((30 : ℕ) : ℝ) = (k % 30 : ℕ) + (t - k) :=
    floatMod_second (by decide) after before
  have start : floatMod (k : ℝ) ((30 : ℕ) : ℝ) = (k % 30 : ℕ) + ((k : ℝ) - k) :=
    floatMod_second (by decide) le_rfl (by linarith)
  have same : floatMod t 30 < 8 ↔ floatMod (k : ℝ) 30 < 8 := by
    push_cast at here start
    rw [here, start, sub_self, add_zero]
    constructor
    · intro inside
      linarith
    · intro inside
      have earlier : k % 30 < 8 := by exact_mod_cast inside
      have whole : ((k % 30 : ℕ) : ℝ) + 1 ≤ 8 := by exact_mod_cast earlier
      linarith
  simp only [shaped, LoadProfile.targetRate]
  norm_num [same]

theorem ramp_rate (t : ℝ) : (shaped .ramp sustained burst).targetRate t =
    sustained * (1 / 10) + climb sustained burst * min 1 (t / 120) := by
  simp [shaped, LoadProfile.targetRate, climb]

/-- In a second the ramp climbs at most a 120th of its height, and after two minutes not at
all. -/
theorem ramp_nearLeft : NearLeft (fun t => (shaped .ramp sustained burst).targetRate t * rateShare)
    fun k => if k < 120 then |climb sustained burst * rateShare| / 120 else 0 := by
  constructor
  · intro k
    refine Continuous.intervalIntegrable ?_ _ _
    simp only [ramp_rate]
    fun_prop
  · intro k t after before
    have difference : (shaped .ramp sustained burst).targetRate t * rateShare -
        (shaped .ramp sustained burst).targetRate (k : ℝ) * rateShare =
          climb sustained burst * rateShare * (min 1 (t / 120) - min 1 ((k : ℝ) / 120)) := by
      rw [ramp_rate, ramp_rate]
      ring
    rw [difference, abs_mul]
    split
    case isTrue climbing =>
      have low : (k : ℝ) / 120 ≤ 1 := by
        rw [div_le_one (by norm_num)]
        exact_mod_cast climbing.le
      have rises : (k : ℝ) / 120 ≤ min 1 (t / 120) := le_min low (by linarith)
      have little : min 1 (t / 120) ≤ (k : ℝ) / 120 + 1 / 120 := (min_le_right _ _).trans (by linarith)
      have step : |min 1 (t / 120) - min 1 ((k : ℝ) / 120)| ≤ 1 / 120 := by
        rw [min_eq_right low, abs_of_nonneg (by linarith)]
        linarith
      exact (mul_le_mul_of_nonneg_left step (abs_nonneg _)).trans_eq (mul_one_div _ _)
    case isFalse top =>
      have high : 1 ≤ (k : ℝ) / 120 := by
        rw [le_div_iff₀ (by norm_num), one_mul]
        exact_mod_cast not_lt.mp top
      rw [min_eq_left high, min_eq_left (by linarith), sub_self, abs_zero, mul_zero]

/-- However long the ramp is followed, its seconds are off by no more than its height. -/
theorem ramp_bound {height : ℝ} (nonneg : 0 ≤ height) (seconds : ℕ) :
    ((List.range seconds).map fun k => if k < 120 then height / 120 else 0).sum ≤ height := by
  have total : ((List.range seconds).map fun k => if k < 120 then height / 120 else 0).sum =
      (min seconds 120 : ℕ) * (height / 120) := by
    induction seconds with
    | zero => simp
    | succ seconds ih =>
      rw [List.range_succ, List.map_append, List.sum_append, ih, List.map_singleton,
        List.sum_singleton]
      split
      case isTrue climbing =>
        rw [min_eq_left climbing.le, min_eq_left (Nat.succ_le_of_lt climbing)]
        push_cast
        ring
      case isFalse top =>
        rw [min_eq_right (not_lt.mp top), min_eq_right (by omega), add_zero]
  have most : ((min seconds 120 : ℕ) : ℝ) ≤ 120 := by exact_mod_cast min_le_right seconds 120
  rw [total]
  calc ((min seconds 120 : ℕ) : ℝ) * (height / 120)
      ≤ 120 * (height / 120) := mul_le_mul_of_nonneg_right most (by positivity)
    _ = height := by ring

end

/-- For every time, share and pair of rates, with the default shape parameters. -/
theorem target_integral (profile : Profile) (sustained burst : Int) (rateShare : ℝ) {elapsedS : ℝ}
    (nonneg : 0 ≤ elapsedS) :
    let load := shaped profile sustained burst
    (profile ≠ .ramp → integrateTarget load elapsedS rateShare =
      ∫ t in (0 : ℝ)..elapsedS, load.targetRate t * rateShare) ∧
    (profile = .ramp → |integrateTarget load elapsedS rateShare -
      ∫ t in (0 : ℝ)..elapsedS, load.targetRate t * rateShare| ≤
        |(burst : ℝ) - sustained * (1 / 10)| * |rateShare|) := by
  intro load
  rw [integrateTarget_eq]
  cases profile with
  | steady => exact ⟨fun _ => leftSum_of_steps (fun _ _ _ _ => rfl) nonneg, by simp⟩
  | burst =>
    refine ⟨fun _ => leftSum_of_steps (fun k t after before => ?_) nonneg, by simp⟩
    exact congrArg (· * rateShare) (burst_constant k t after before)
  | ramp =>
    refine ⟨by simp, fun _ => (ramp_nearLeft.leftSum nonneg).trans ?_⟩
    rw [← abs_mul]
    exact ramp_bound (abs_nonneg _) _

/-- A ramp followed for two and a half minutes. -/
theorem target_integral_ramp : |integrateTarget (shaped .ramp 100 200) 150 1 -
    ∫ t in (0 : ℝ)..150, (shaped .ramp 100 200).targetRate t * 1| ≤ 190 := by
  have bound := (@target_integral .ramp 100 200 1 150 (by norm_num)).2 rfl
  norm_num at bound ⊢
  exact bound

end TelemetryEngine.Emitters
