import Mathlib.MeasureTheory.Integral.IntervalIntegral.Basic
import Mathlib.Tactic.Linarith

/-! Sums over unit steps from zero, each with the value at its left end and the last one
clipped, against the integral of the function. -/
namespace Foundation.LeftSums
open MeasureTheory

def leftSum {K : Type} [Field K] [LinearOrder K] [FloorRing K] (f : K → K) (stop : K) : K :=
  ((List.range ⌈stop⌉₊).map fun k : ℕ => f k * min 1 (stop - k)).sum

variable {f : ℝ → ℝ} {bound : ℕ → ℝ}

/-- On each step the function stays near its value at the left end. -/
structure NearLeft (f : ℝ → ℝ) (bound : ℕ → ℝ) : Prop where
  integrable : ∀ k : ℕ, IntervalIntegrable f volume k (k + 1)
  near : ∀ k : ℕ, ∀ t : ℝ, k ≤ t → t < k + 1 → |f t - f k| ≤ bound k

theorem NearLeft.bound_nonneg (near : NearLeft f bound) (k : ℕ) : 0 ≤ bound k := by
  have here := near.near k k le_rfl (by linarith)
  rwa [sub_self, abs_zero] at here

theorem NearLeft.part (near : NearLeft f bound) (k : ℕ) {stop : ℝ} (after : k ≤ stop)
    (until_ : stop ≤ k + 1) :
    IntervalIntegrable f volume k stop ∧
      |(∫ t in (k : ℝ)..stop, f t) - f k * (stop - k)| ≤ bound k := by
  have inside : IntervalIntegrable f volume k stop := (near.integrable k).mono_set (by
    rw [Set.uIcc_of_le after, Set.uIcc_of_le (after.trans until_)]
    exact Set.Icc_subset_Icc_right until_)
  refine ⟨inside, ?_⟩
  have difference : (∫ t in (k : ℝ)..stop, f t) - f k * (stop - k) =
      ∫ t in (k : ℝ)..stop, (f t - f k) := by
    rw [intervalIntegral.integral_sub inside intervalIntegrable_const,
      intervalIntegral.integral_const, smul_eq_mul, mul_comm]
  -- the right end of the step is one point
  have off : ∀ᵐ t ∂volume, t ≠ (k : ℝ) + 1 := by
    simp [ae_iff]
  have small : ‖∫ t in (k : ℝ)..stop, (f t - f k)‖ ≤ bound k * |stop - k| := by
    refine intervalIntegral.norm_integral_le_of_norm_le_const_ae ?_
    filter_upwards [off] with t apart member
    rw [Set.uIoc_of_le after] at member
    exact near.near k t member.1.le (lt_of_le_of_ne (member.2.trans until_) apart)
  have short : |stop - k| ≤ 1 := by
    rw [abs_of_nonneg (by linarith)]
    linarith
  rw [difference]
  exact small.trans (mul_le_of_le_one_right (near.bound_nonneg k) short)

theorem NearLeft.whole (near : NearLeft f bound) (n : ℕ) :
    IntervalIntegrable f volume 0 n ∧
      |(∫ t in (0 : ℝ)..n, f t) - ((List.range n).map fun k : ℕ => f k).sum| ≤
        ((List.range n).map bound).sum := by
  induction n with
  | zero => simp
  | succ n ih =>
    obtain ⟨before, least⟩ := ih
    obtain ⟨here, step⟩ := @NearLeft.part _ _ near n (n + 1) (by linarith) le_rfl
    rw [add_sub_cancel_left, mul_one] at step
    push_cast
    refine ⟨before.trans here, ?_⟩
    rw [← intervalIntegral.integral_add_adjacent_intervals before here, List.range_succ,
      List.map_append, List.map_append, List.sum_append, List.sum_append, List.map_singleton,
      List.map_singleton, List.sum_singleton, List.sum_singleton, add_sub_add_comm]
    exact (abs_add_le _ _).trans (add_le_add least step)

/-- Steps that end before are not clipped. -/
theorem leftSum_succ {n : ℕ} {stop : ℝ} (after : n < stop) (until_ : stop ≤ n + 1) :
    leftSum f stop = ((List.range n).map fun k : ℕ => f k).sum + f n * (stop - n) := by
  have steps : ⌈stop⌉₊ = n + 1 := (Nat.ceil_eq_iff n.succ_ne_zero).mpr ⟨by simpa using after, by
    push_cast
    exact until_⟩
  rw [leftSum, steps, List.range_succ, List.map_append, List.sum_append, List.map_singleton,
    List.sum_singleton, min_eq_right (by linarith)]
  refine congrArg (· + f n * (stop - n)) (congrArg List.sum (List.map_congr_left fun k member => ?_))
  have before : (k : ℝ) + 1 ≤ n := by exact_mod_cast List.mem_range.mp member
  rw [min_eq_left (by linarith), mul_one]

/-- The sum is as far from the integral as the bounds of its steps allow. -/
theorem NearLeft.leftSum (near : NearLeft f bound) {stop : ℝ} (nonneg : 0 ≤ stop) :
    |leftSum f stop - ∫ t in (0 : ℝ)..stop, f t| ≤ ((List.range ⌈stop⌉₊).map bound).sum := by
  rcases nonneg.eq_or_lt with rfl | positive
  · simp [LeftSums.leftSum]
  · obtain ⟨n, steps⟩ := Nat.exists_eq_succ_of_ne_zero (Nat.ceil_pos.mpr positive).ne'
    obtain ⟨after, until_⟩ := (Nat.ceil_eq_iff n.succ_ne_zero).mp steps
    push_cast at after until_
    obtain ⟨before, least⟩ := near.whole n
    obtain ⟨here, step⟩ := near.part n after.le until_
    rw [steps, leftSum_succ after until_, abs_sub_comm,
      ← intervalIntegral.integral_add_adjacent_intervals before here, List.range_succ,
      List.map_append, List.sum_append, List.map_singleton, List.sum_singleton, add_sub_add_comm]
    exact (abs_add_le _ _).trans (add_le_add least step)

theorem leftSum_of_steps (constant : ∀ k : ℕ, ∀ t : ℝ, k ≤ t → t < k + 1 → f t = f k) {stop : ℝ}
    (nonneg : 0 ≤ stop) : leftSum f stop = ∫ t in (0 : ℝ)..stop, f t := by
  have near : NearLeft f fun _ => 0 := by
    refine ⟨fun k => ?_, fun k t after before => by rw [constant k t after before, sub_self, abs_zero]⟩
    refine (intervalIntegrable_const (c := f k)).congr_uIoo fun t inside => ?_
    rw [Set.uIoo_of_le (by linarith)] at inside
    exact (constant k t inside.1.le inside.2).symm
  have close := near.leftSum nonneg
  rw [List.map_const', List.sum_replicate, smul_zero, abs_nonpos_iff, sub_eq_zero] at close
  exact close

section
variable {K : Type} [Field K] [LinearOrder K] [IsStrictOrderedRing K] [FloorRing K] {f : K → K}

/-- A sum of values that are not negative grows with the time. -/
theorem leftSum_mono (nonneg : ∀ k : ℕ, 0 ≤ f k) {early late : K} (ordered : early ≤ late) :
    leftSum f early ≤ leftSum f late := by
  have steps : Finset.range ⌈early⌉₊ ⊆ Finset.range ⌈late⌉₊ :=
    Finset.range_subset_range.mpr (Nat.ceil_mono ordered)
  change ∑ k ∈ Finset.range ⌈early⌉₊, f k * min 1 (early - k) ≤
    ∑ k ∈ Finset.range ⌈late⌉₊, f k * min 1 (late - k)
  calc ∑ k ∈ Finset.range ⌈early⌉₊, f k * min 1 (early - k)
      ≤ ∑ k ∈ Finset.range ⌈early⌉₊, f k * min 1 (late - k) :=
        Finset.sum_le_sum fun k _ => mul_le_mul_of_nonneg_left
          (min_le_min le_rfl (sub_le_sub_right ordered _)) (nonneg k)
    _ ≤ ∑ k ∈ Finset.range ⌈late⌉₊, f k * min 1 (late - k) := by
        refine Finset.sum_le_sum_of_subset_of_nonneg steps fun k inside _ => ?_
        have before : (k : K) < late := Nat.lt_ceil.mp (Finset.mem_range.mp inside)
        exact mul_nonneg (nonneg k) (le_min zero_le_one (sub_nonneg.mpr before.le))

omit [IsStrictOrderedRing K] in
theorem leftSum_mul (share stop : K) :
    leftSum (fun t => f t * share) stop = leftSum f stop * share := by
  simp only [leftSum, ← List.sum_map_mul_right]
  refine congrArg List.sum (List.map_congr_left fun k _ => ?_)
  ring

end

end Foundation.LeftSums
