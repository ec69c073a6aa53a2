import Mathlib.Algebra.Order.Round
import Mathlib.Data.Rat.Floor
import Mathlib.Tactic.Linarith

/-! The roundings of exact numbers that the modelled engines differ in. -/
namespace Foundation.Rounding

def truncate (x : ℚ) : Int := if 0 ≤ x then ⌊x⌋ else -⌊-x⌋

def roundHalfEven (x : ℚ) : Int :=
  if x - ⌊x⌋ < 1 / 2 then ⌊x⌋
  else if 1 / 2 < x - ⌊x⌋ then ⌊x⌋ + 1
  else if ⌊x⌋ % 2 = 0 then ⌊x⌋ else ⌊x⌋ + 1

def roundHalfAway (x : ℚ) : Int := if 0 ≤ x then ⌊x + 1 / 2⌋ else -⌊-x + 1 / 2⌋

/-- A rounding to integers, made a rounding to decimal digits. -/
def roundTo (nearest : ℚ → Int) (digits : Nat) (x : ℚ) : ℚ := nearest (x * 10 ^ digits) / 10 ^ digits

theorem truncate_nonneg {x : ℚ} (nonneg : 0 ≤ x) : 0 ≤ truncate x := by
  rw [truncate, if_pos nonneg]
  exact Int.floor_nonneg.mpr nonneg

theorem truncate_neg (x : ℚ) : truncate (-x) = -truncate x := by
  unfold truncate
  rcases lt_trichotomy x 0 with below | rfl | above
  · rw [if_pos (by linarith), if_neg (by linarith), neg_neg]
  · simp
  · rw [if_neg (by linarith), if_pos above.le, neg_neg]

theorem truncate_add_of_nonneg {n : ℤ} {e : ℚ} (nonneg : 0 ≤ n + e) :
    truncate (n + e) = n ↔ |e| < 1 ∧ (0 < n → 0 ≤ e) ∧ (n < 0 → e ≤ 0) := by
  rw [truncate, if_pos nonneg, Int.floor_intCast_add, add_eq_left, Int.floor_eq_zero_iff,
    Set.mem_Ico, abs_lt]
  have below (negative : n < 0) : (n : ℚ) ≤ -1 := by exact_mod_cast Int.le_sub_one_of_lt negative
  constructor
  · rintro ⟨part, small⟩
    exact ⟨⟨by linarith, small⟩, fun _ => part, fun negative => by linarith [below negative]⟩
  · rintro ⟨⟨_, small⟩, positive, negative⟩
    refine ⟨?_, small⟩
    rcases lt_trichotomy n 0 with less | rfl | more
    · linarith [below less, negative less]
    · simpa using nonneg
    · exact positive more

/-- A truncation gives a whole number back from what is less than one beyond it. -/
theorem truncate_add_eq_iff (n : ℤ) (e : ℚ) :
    truncate (n + e) = n ↔ |e| < 1 ∧ (0 < n → 0 ≤ e) ∧ (n < 0 → e ≤ 0) := by
  rcases le_total 0 (n + e) with nonneg | nonpos
  · exact truncate_add_of_nonneg nonneg
  · have mirrored : ((-n : ℤ) : ℚ) + -e = -(n + e) := by
      push_cast
      ring
    have flipped := truncate_add_of_nonneg (n := -n) (e := -e) (by rw [mirrored]; linarith)
    rw [mirrored, truncate_neg, neg_inj, abs_neg] at flipped
    rw [flipped]
    simp only [Left.neg_pos_iff, Left.neg_neg_iff, Left.nonneg_neg_iff, Left.neg_nonpos_iff]
    exact and_congr_right fun _ => and_comm

theorem roundHalfEven_near (x : ℚ) : |(roundHalfEven x : ℚ) - x| ≤ 1 / 2 := by
  have lower := Int.floor_le x
  have upper := Int.lt_floor_add_one x
  rw [abs_le]
  unfold roundHalfEven
  split_ifs <;> push_cast <;> constructor <;> linarith

theorem roundHalfAway_near (x : ℚ) : |(roundHalfAway x : ℚ) - x| ≤ 1 / 2 := by
  rw [abs_le]
  unfold roundHalfAway
  split_ifs
  · have lower := Int.floor_le (x + 1 / 2)
    have upper := Int.lt_floor_add_one (x + 1 / 2)
    constructor <;> linarith
  · have lower := Int.floor_le (-x + 1 / 2)
    have upper := Int.lt_floor_add_one (-x + 1 / 2)
    push_cast
    constructor <;> linarith

end Foundation.Rounding
