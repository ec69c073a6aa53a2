import Mathlib.Algebra.Order.Field.Power
import Mathlib.Data.Int.Log
import Mathlib.Tactic.Ring
import TelemetryEngine.Foundation.Rounding

/-! Numbers rounded to binary formats, to the nearest and ties to even. The formats have no largest
number here; a rounding that reaches `overflow` is no number of theirs. -/
namespace Foundation.BinaryFloat
open Foundation.Rounding

structure Format where
  /-- The bits of a significand. -/
  precision : ℕ
  /-- The exponent of the least positive number. -/
  least : ℤ
  /-- The exponent of the first power of two that is too large. -/
  range : ℤ
  precision_pos : 0 < precision
  least_nonpos : least ≤ 0

/-- `Float32` -/
def binary32 : Format := ⟨24, -149, 128, by decide, by decide⟩

/-- `Float64`, and Python's floats. -/
def binary64 : Format := ⟨53, -1074, 1024, by decide, by decide⟩

namespace Format
variable (format : Format)

def place (x : ℚ) : ℤ := max (Int.log 2 |x| - (format.precision - 1)) format.least

def round (x : ℚ) : ℚ := roundHalfEven (x / 2 ^ format.place x) * 2 ^ format.place x

def overflow : ℚ := 2 ^ format.range

variable {format}

theorem round_near (x : ℚ) : |format.round x - x| ≤ 2 ^ format.place x / 2 := by
  have positive : (0 : ℚ) < 2 ^ format.place x := by positivity
  have near := roundHalfEven_near (x / 2 ^ format.place x)
  have scaled : format.round x - x =
      (roundHalfEven (x / 2 ^ format.place x) - x / 2 ^ format.place x) * 2 ^ format.place x := by
    rw [sub_mul, div_mul_cancel₀ _ positive.ne', round]
  rw [scaled, abs_mul, abs_of_pos positive]
  calc _ ≤ 1 / 2 * 2 ^ format.place x := mul_le_mul_of_nonneg_right near positive.le
    _ = _ := by ring

theorem round_zero : format.round 0 = 0 := by
  have nothing : roundHalfEven 0 = 0 := by decide +kernel
  rw [round, zero_div, nothing, Int.cast_zero, zero_mul]

/-- The error of a number that has all its digits is relative: half of the last of them. -/
theorem round_normal {x : ℚ} (normal : 2 ^ (format.least + (format.precision - 1)) ≤ |x|) :
    |format.round x - x| ≤ |x| / 2 ^ format.precision := by
  have positive : 0 < |x| := lt_of_lt_of_le (by positivity) normal
  have digits : format.least + (format.precision - 1) ≤ Int.log 2 |x| :=
    (Int.zpow_le_iff_le_log one_lt_two positive).mp (by exact_mod_cast normal)
  have place : format.place x = Int.log 2 |x| - (format.precision - 1) := max_eq_left (by omega)
  have leading : (2 : ℚ) ^ (Int.log 2 |x|) ≤ |x| := by
    exact_mod_cast Int.zpow_log_le_self (by norm_num) positive
  calc |format.round x - x| ≤ 2 ^ format.place x / 2 := round_near x
    _ = 2 ^ Int.log 2 |x| / 2 ^ format.precision := by
      rw [place, zpow_sub₀ two_ne_zero, zpow_sub_one₀ two_ne_zero, zpow_natCast]
      ring
    _ ≤ |x| / 2 ^ format.precision := by gcongr

theorem abs_round_bounds {x : ℚ} (normal : 2 ^ (format.least + (format.precision - 1)) ≤ |x|) :
    |x| - |x| / 2 ^ format.precision ≤ |format.round x| ∧
      |format.round x| ≤ |x| + |x| / 2 ^ format.precision := by
  have near := round_normal normal
  have above := abs_sub_abs_le_abs_sub (format.round x) x
  have below := abs_sub_abs_le_abs_sub x (format.round x)
  rw [abs_sub_comm] at below
  constructor <;> linarith

/-- Numbers of so many digits are kept. -/
theorem round_of_multiple {x : ℚ} {n : ℤ} (whole : x / 2 ^ format.place x = n) :
    format.round x = x := by
  have kept : roundHalfEven (n : ℚ) = n := by
    simp [roundHalfEven]
  rw [round, whole, kept, ← whole, div_mul_cancel₀ _ (by positivity)]

/-- Of the integers that the significand can hold only the largest has a last place beyond the
units. -/
theorem coarse_eq {n : ℤ} (small : |n| ≤ 2 ^ format.precision) (coarse : 0 < format.place n) :
    |n| = 2 ^ format.precision ∧ format.place n = 1 := by
  have positive := format.precision_pos
  have least := format.least_nonpos
  have place : format.place n = Int.log 2 |(n : ℚ)| - (format.precision - 1) := by
    rcases max_cases (Int.log 2 |(n : ℚ)| - ((format.precision : ℤ) - 1)) format.least with
      ⟨same, -⟩ | ⟨same, -⟩
    · exact same
    · exact absurd coarse (by rw [Format.place, same]; omega)
  have nonzero : (n : ℚ) ≠ 0 := by
    intro zero
    rw [place, zero, abs_zero, Int.log_zero_right] at coarse
    omega
  have leading : (2 : ℚ) ^ Int.log 2 |(n : ℚ)| ≤ |(n : ℚ)| := by
    exact_mod_cast Int.zpow_log_le_self (by norm_num) (abs_pos.mpr nonzero)
  have bounded : |(n : ℚ)| ≤ 2 ^ (format.precision : ℤ) := by
    rw [zpow_natCast]
    exact_mod_cast small
  have top : Int.log 2 |(n : ℚ)| = format.precision := by
    have below := (zpow_le_zpow_iff_right₀ (one_lt_two (α := ℚ))).mp (leading.trans bounded)
    omega
  rw [top, zpow_natCast] at leading
  refine ⟨le_antisymm small (by exact_mod_cast leading), ?_⟩
  rw [place, top]
  omega

theorem round_intCast {n : ℤ} (small : |n| ≤ 2 ^ format.precision) : format.round n = n := by
  rcases le_or_gt (format.place n) 0 with fine | coarse
  · obtain ⟨k, same⟩ := Int.exists_eq_neg_ofNat fine
    refine round_of_multiple (n := n * 2 ^ k) ?_
    rw [same, zpow_neg, zpow_natCast, div_inv_eq_mul]
    push_cast
    rfl
  · obtain ⟨largest, place⟩ := coarse_eq small coarse
    have even : 2 ∣ n := by
      rw [← dvd_abs, largest]
      exact dvd_pow_self 2 format.precision_pos.ne'
    obtain ⟨m, rfl⟩ := even
    refine round_of_multiple (n := m) ?_
    rw [place, zpow_one]
    push_cast
    ring

end Format
end Foundation.BinaryFloat
