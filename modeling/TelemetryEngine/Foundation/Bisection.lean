import Mathlib.Data.List.TakeWhile
import Mathlib.Order.Lattice
import Mathlib.Order.Monotone.Basic

/-! Bisection of a sorted list to the right of equal entries, and of the rungs of a ladder,
where it inverts the step function. -/
namespace Foundation.Bisection
variable {K : Type} [LinearOrder K] {xs : List K} {x y : K} {i : ℕ}

/-- `bisect_right` on a sorted list. -/
def bisectRight (xs : List K) (x : K) : ℕ := (xs.takeWhile (· ≤ x)).length

theorem bisectRight_lt (member : y ∈ xs) (above : x < y) : bisectRight xs x < xs.length := by
  have front := List.takeWhile_prefix (l := xs) fun z => decide (z ≤ x)
  refine lt_of_le_of_ne front.length_le ?_
  intro same
  have all := List.takeWhile_eq_self_iff.mp (front.eq_of_length same) y member
  exact absurd above (of_decide_eq_true all).not_gt

/-- Entries before the place are not above, and those from it on are. -/
theorem bisectRight_spec (sorted : xs.Pairwise (· ≤ ·)) {j : ℕ} (inside : j < xs.length) :
    xs[j] ≤ x ↔ j < bisectRight xs x := by
  induction xs generalizing j with
  | nil => simp at inside
  | cons first rest ih =>
    obtain ⟨least, ordered⟩ := List.pairwise_cons.mp sorted
    by_cases below : first ≤ x
    · have longer : bisectRight (first :: rest) x = bisectRight rest x + 1 := by
        simp [bisectRight, below]
      rw [longer]
      cases j with
      | zero => simp [below]
      | succ j => simpa using ih ordered (by simpa using inside)
    · have none : bisectRight (first :: rest) x = 0 := by simp [bisectRight, below]
      rw [none]
      refine iff_of_false ?_ (by omega)
      cases j with
      | zero => exact below
      | succ j =>
        have later := least _ (List.getElem_mem (by simpa using inside : j < rest.length))
        exact fun small => below (later.trans small)

def rungs (ladder : ℕ → K) (n : ℕ) : List K := (List.range n).map fun k => ladder (k + 1)

omit [LinearOrder K] in
@[simp] theorem rungs_length (ladder : ℕ → K) (n : ℕ) : (rungs ladder n).length = n := by
  simp [rungs]

omit [LinearOrder K] in
theorem rungs_succ (ladder : ℕ → K) (n : ℕ) :
    rungs ladder (n + 1) = rungs ladder n ++ [ladder (n + 1)] := by
  simp [rungs, List.range_succ]

theorem rungs_sorted {ladder : ℕ → K} (rising : Monotone ladder) (n : ℕ) :
    (rungs ladder n).Pairwise (· ≤ ·) := by
  rw [rungs, List.pairwise_map]
  exact List.pairwise_lt_range.imp fun before => rising (by omega)

/-- A height is found between its two rungs. -/
theorem bisectRight_rungs {ladder : ℕ → K} (rising : Monotone ladder) {n : ℕ} (inside : i < n)
    (ground : ladder 0 ≤ x) :
    bisectRight (rungs ladder n) x = i ↔ ladder i ≤ x ∧ x < ladder (i + 1) := by
  have rung {j : ℕ} (inside : j < n) : ladder (j + 1) ≤ x ↔ j < bisectRight (rungs ladder n) x := by
    rw [← bisectRight_spec (rungs_sorted rising n) (by simpa using inside)]
    simp [rungs]
  constructor
  · rintro rfl
    refine ⟨?_, not_le.mp fun small => ((rung inside).mp small).false⟩
    cases place : bisectRight (rungs ladder n) x with
    | zero => exact ground
    | succ j => exact (rung (by omega)).mpr (by omega)
  · rintro ⟨below, above⟩
    have most : ¬ i < bisectRight (rungs ladder n) x :=
      fun later => ((rung inside).mpr later).not_gt above
    cases i with
    | zero => omega
    | succ j =>
      have least := (rung (by omega)).mp below
      omega

end Foundation.Bisection
