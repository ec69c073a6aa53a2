import Mathlib.Data.List.Sort
import Mathlib.Data.Rat.Floor
import Mathlib.Tactic.Linarith

/-! Values read off a sorted list by rank. -/
namespace Foundation.OrderStatistics
variable {β : Type} [LinearOrder β] {values : List β} {i : ℕ} {x : β}

theorem getElem_mono (sorted : values.Pairwise (· ≤ ·)) {j : ℕ} (inside : j < values.length)
    (ordered : i ≤ j) : values[i] ≤ values[j] := by
  rcases Nat.lt_or_eq_of_le ordered with earlier | rfl
  · exact List.pairwise_iff_getElem.mp sorted i j _ inside earlier
  · exact le_rfl

theorem lt_count_below (sorted : values.Pairwise (· ≤ ·)) (found : values[i]? = some x) :
    i < values.countP (· ≤ x) := by
  obtain ⟨inside, rfl⟩ := List.getElem?_eq_some_iff.mp found
  have below : ∀ y ∈ values.take (i + 1), y ≤ values[i] := by
    intro y member
    obtain ⟨j, before, rfl⟩ := List.mem_take_iff_getElem.mp member
    exact getElem_mono sorted inside (by omega)
  have all : (values.take (i + 1)).countP (· ≤ values[i]) = i + 1 := by
    rw [List.countP_eq_length.mpr (by simpa using below), List.length_take]
    omega
  have part := (List.take_sublist (i + 1) values).countP_le (p := (· ≤ values[i]))
  omega

theorem count_above (sorted : values.Pairwise (· ≤ ·)) (found : values[i]? = some x) :
    values.length - i ≤ values.countP (x ≤ ·) := by
  obtain ⟨inside, rfl⟩ := List.getElem?_eq_some_iff.mp found
  have above : ∀ y ∈ values.drop i, values[i] ≤ y := by
    intro y member
    obtain ⟨j, after, rfl⟩ := List.mem_drop_iff_getElem.mp member
    exact getElem_mono sorted (by omega) (by omega)
  have all : (values.drop i).countP (values[i] ≤ ·) = values.length - i := by
    rw [List.countP_eq_length.mpr (by simpa using above), List.length_drop]
  have part := (List.drop_sublist i values).countP_le (p := (values[i] ≤ ·))
  omega

theorem getElem?_mono (sorted : values.Pairwise (· ≤ ·)) {j : ℕ} {y : β}
    (first : values[i]? = some x) (second : values[j]? = some y) (ordered : i ≤ j) : x ≤ y := by
  obtain ⟨_, rfl⟩ := List.getElem?_eq_some_iff.mp first
  obtain ⟨inside, rfl⟩ := List.getElem?_eq_some_iff.mp second
  exact getElem_mono sorted inside ordered

/-- More than a share of the values is not above it, and at least the rest is not below. -/
structure IsQuantile (values : List β) (share : ℚ) (x : β) : Prop where
  mem : x ∈ values
  below : share * values.length < values.countP (· ≤ x)
  above : (1 - share) * values.length ≤ values.countP (x ≤ ·)

def rank (n : ℕ) (share : ℚ) : ℕ := ⌊n * share⌋.toNat

theorem rank_cast {share : ℚ} (nonneg : 0 ≤ share) (n : ℕ) :
    (rank n share : ℚ) ≤ n * share ∧ n * share < rank n share + 1 := by
  have floor : (rank n share : ℤ) = ⌊n * share⌋ :=
    Int.toNat_of_nonneg (Int.floor_nonneg.mpr (mul_nonneg n.cast_nonneg nonneg))
  have same : (rank n share : ℚ) = ⌊n * share⌋ := by exact_mod_cast floor
  rw [same]
  exact ⟨Int.floor_le _, Int.lt_floor_add_one _⟩

theorem rank_lt {share : ℚ} (nonneg : 0 ≤ share) (below : share < 1) {n : ℕ} (positive : 0 < n) :
    rank n share < n := by
  have counts : (0 : ℚ) < n := by exact_mod_cast positive
  have least := (rank_cast nonneg n).1
  have short : (rank n share : ℚ) < n := least.trans_lt (mul_lt_of_lt_one_right counts below)
  exact_mod_cast short

theorem rank_mono {share other : ℚ} (nonneg : 0 ≤ share) (ordered : share ≤ other) (n : ℕ) :
    rank n share ≤ rank n other := by
  have least := (rank_cast nonneg n).1
  have most := (rank_cast (nonneg.trans ordered) n).2
  have larger : (n : ℚ) * share ≤ n * other := mul_le_mul_of_nonneg_left ordered n.cast_nonneg
  have short : (rank n share : ℚ) < rank n other + 1 := by linarith
  exact Nat.lt_succ_iff.mp (by exact_mod_cast short)

/-- The value of that rank is a quantile. -/
theorem isQuantile_of_rank {share : ℚ} (nonneg : 0 ≤ share)
    (sorted : values.Pairwise (· ≤ ·)) (found : values[rank values.length share]? = some x) :
    IsQuantile values share x := by
  obtain ⟨least, most⟩ := rank_cast nonneg values.length
  have inside := (List.getElem?_eq_some_iff.mp found).1
  refine ⟨List.mem_of_getElem? found, ?_, ?_⟩
  · have below : ((rank values.length share + 1 : ℕ) : ℚ) ≤ values.countP (· ≤ x) := by
      exact_mod_cast lt_count_below sorted found
    push_cast at below
    linarith
  · have above : ((values.length - rank values.length share : ℕ) : ℚ) ≤ values.countP (x ≤ ·) := by
      exact_mod_cast count_above sorted found
    rw [Nat.cast_sub inside.le] at above
    linarith

/-! ### Between two ranks -/

/-- The value at a share of the way from the least to the largest: between two values, in
proportion. -/
def interpolated (share : ℚ) (values : List ℚ) : ℚ :=
  let sorted := values.insertionSort (· ≤ ·)
  let place := (values.length - 1 : ℕ) * share
  let below := sorted[⌊place⌋.toNat]?.getD 0
  let above := sorted[⌈place⌉.toNat]?.getD 0
  below + (above - below) * (place - ⌊place⌋)

theorem insertionSort_congr {xs ys : List β} (perm : xs.Perm ys) :
    xs.insertionSort (· ≤ ·) = ys.insertionSort (· ≤ ·) :=
  List.Perm.eq_of_pairwise' (List.pairwise_insertionSort _ _) (List.pairwise_insertionSort _ _)
    ((List.perm_insertionSort _ _).trans (perm.trans (List.perm_insertionSort _ _).symm))

theorem interpolated_perm {share : ℚ} {xs ys : List ℚ} (perm : xs.Perm ys) :
    interpolated share xs = interpolated share ys := by
  rw [interpolated, interpolated, perm.length_eq, insertionSort_congr perm]

end Foundation.OrderStatistics
