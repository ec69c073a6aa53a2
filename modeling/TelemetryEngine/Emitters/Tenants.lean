import Mathlib.MeasureTheory.Measure.Lebesgue.Basic
import TelemetryEngine.Emitters.Workload
import TelemetryEngine.Foundation.Decimal

/-! `TenantPool`: sampling by bisection of the cumulative shares. The draws that select a
tenant are those between its share and the share before. -/
namespace TelemetryEngine.Emitters
open Foundation.Bisection Foundation.Decimal

/-! ### Names and tiers -/

def tiers : List String := ["enterprise", "pro", "free"]

def tierRank (tier : String) : ℕ := tiers.idxOf tier

theorem tierRank_tierOf (count rank : ℕ) : tierRank (tierOf count rank) =
    if rank < max 1 (count / 20) then 0 else if rank < max 2 (count / 4) then 1 else 2 := by
  unfold tierOf
  split_ifs <;> decide

theorem tierRank_mono (count : ℕ) {i j : ℕ} (ordered : i ≤ j) :
    tierRank (tierOf count i) ≤ tierRank (tierOf count j) := by
  rw [tierRank_tierOf, tierRank_tierOf]
  split_ifs <;> omega

theorem tenantOf_injective {count i j : ℕ} (same : tenantOf count i = tenantOf count j) : i = j := by
  have ids := congrArg (fun tenant => tenant.id.toList) same
  simp only [tenantOf, String.toList_append, String.toList_ofList, Nat.toString_eq_repr,
    Nat.toList_repr, List.append_assoc] at ids
  have numbers := congrArg (Nat.ofDigitChars 10 · 0) (List.append_cancel_left ids)
  simpa only [ofDigitChars_padded] using numbers

/-! ### Shares -/

section
variable {K : Type} [Field K] {weight : ℕ → K} {count : ℕ}

def cumulativeWeight (weight : ℕ → K) (count i : ℕ) : K :=
  ((List.range i).map weight).sum / ((List.range count).map weight).sum

theorem sum_range_succ (weight : ℕ → K) (i : ℕ) :
    ((List.range (i + 1)).map weight).sum = ((List.range i).map weight).sum + weight i := by
  rw [List.range_succ, List.map_append, List.sum_append, List.map_singleton, List.sum_singleton]

theorem cumulativeWeight_zero : cumulativeWeight weight count 0 = 0 := by simp [cumulativeWeight]

variable [LinearOrder K] [IsStrictOrderedRing K]

theorem total_pos (positive : ∀ rank, 0 < weight rank) (populated : 0 < count) :
    0 < ((List.range count).map weight).sum := by
  obtain ⟨last, rfl⟩ := Nat.exists_eq_succ_of_ne_zero populated.ne'
  rw [sum_range_succ]
  refine add_pos_of_nonneg_of_pos (List.sum_nonneg ?_) (positive last)
  simpa using fun rank _ => (positive rank).le

theorem cumulativeWeight_mono (positive : ∀ rank, 0 < weight rank) (populated : 0 < count) :
    Monotone (cumulativeWeight weight count) := by
  refine monotone_nat_of_le_succ fun i => ?_
  rw [cumulativeWeight, cumulativeWeight, sum_range_succ]
  exact div_le_div_of_nonneg_right (by linarith [positive i]) (total_pos positive populated).le

theorem cumulativeWeight_count (positive : ∀ rank, 0 < weight rank) (populated : 0 < count) :
    cumulativeWeight weight count count = 1 :=
  div_self (total_pos positive populated).ne'

/-- The table is the ladder of the cumulative weights, and its forced last entry is one of
them. -/
theorem cumulativeShares_eq (positive : ∀ rank, 0 < weight rank) (populated : 0 < count) :
    cumulativeShares ((List.range count).map weight) =
      rungs (cumulativeWeight weight count) count := by
  obtain ⟨last, rfl⟩ := Nat.exists_eq_succ_of_ne_zero populated.ne'
  have full : cumulativeWeight weight (last + 1) (last + 1) = 1 :=
    cumulativeWeight_count positive populated
  have share : ∀ k < last, ((((List.range (last + 1)).map weight).map
      (· / ((List.range (last + 1)).map weight).sum)).take (k + 1)).sum =
      cumulativeWeight weight (last + 1) (k + 1) := by
    intro k before
    rw [← List.map_take, ← List.map_take, List.take_range, min_eq_left (by omega), cumulativeWeight,
      div_eq_mul_inv, ← List.sum_map_mul_right, List.map_map]
    simp only [Function.comp_def, div_eq_mul_inv]
  rw [Nat.succ_eq_add_one, rungs_succ, full, cumulativeShares, List.length_map, List.length_range,
    Nat.add_sub_cancel]
  exact congrArg (· ++ [1])
    (List.map_congr_left fun k member => share k (List.mem_range.mp member))

/-- Fraction of traffic the top tenants receive. -/
def TenantPool.shareOfTop (pool : TenantPool K) (n : Int) : K :=
  if none_ : n ≤ 0 then 0
  else pool.cumulative.get ⟨(min n pool.tenants.length - 1).toNat, by
    have populated := List.length_pos_of_mem pool.full
    have lengths := pool.length_eq
    omega⟩

/-- The pool of so many tenants with these weights. -/
structure TenantPool.Weighted (pool : TenantPool K) (count : ℕ) (weight : ℕ → K) : Prop where
  tenants : pool.tenants = (List.range count).map (tenantOf count)
  cumulative : pool.cumulative = rungs (cumulativeWeight weight count) count

theorem new_weighted {count : Int} {alpha : K} (populated : 1 ≤ count) (skewed : 0 < alpha)
    (positive : ∀ rank, 0 < weight rank) :
    ∃ pool, TenantPool.new count alpha weight = .ok pool ∧ pool.Weighted count.toNat weight := by
  have some_ : 0 < count.toNat := by omega
  exact ⟨_, (dif_pos populated).trans (if_neg skewed.not_ge), rfl,
    cumulativeShares_eq positive some_⟩

variable {pool : TenantPool K}

omit [IsStrictOrderedRing K] in
theorem sample_eq (weighted : pool.Weighted count weight) (r : {x : K // 0 ≤ x ∧ x < 1}) :
    pool.sample r = tenantOf count (bisectRight (rungs (cumulativeWeight weight count) count) r) := by
  rw [TenantPool.sample, List.get_eq_getElem, List.getElem_of_eq weighted.tenants, List.getElem_map,
    List.getElem_range]
  exact congrArg (fun table => tenantOf count (bisectRight table r.val)) weighted.cumulative

omit [LinearOrder K] [IsStrictOrderedRing K] in
theorem populated_of (weighted : pool.Weighted count weight) : 0 < count := by
  have some_ := List.length_pos_of_mem pool.full
  rwa [weighted.cumulative, rungs_length] at some_

theorem sample_eq_iff (weighted : pool.Weighted count weight) (positive : ∀ rank, 0 < weight rank)
    (r : {x : K // 0 ≤ x ∧ x < 1}) {i : ℕ} (inside : i < count) :
    pool.sample r = tenantOf count i ↔
      cumulativeWeight weight count i ≤ r ∧ r < cumulativeWeight weight count (i + 1) := by
  have rising := cumulativeWeight_mono positive (populated_of weighted)
  rw [sample_eq weighted, ← bisectRight_rungs rising inside (cumulativeWeight_zero.trans_le r.2.1)]
  exact ⟨tenantOf_injective, fun place => place ▸ rfl⟩

omit [IsStrictOrderedRing K] in
theorem sample_inside (weighted : pool.Weighted count weight) (r : {x : K // 0 ≤ x ∧ x < 1}) :
    ∃ i < count, pool.sample r = tenantOf count i := by
  refine ⟨_, ?_, sample_eq weighted r⟩
  have below := bisectRight_lt (weighted.cumulative ▸ pool.full) r.2.2
  rwa [rungs_length] at below

theorem selects_top_iff (weighted : pool.Weighted count weight)
    (positive : ∀ rank, 0 < weight rank) (r : {x : K // 0 ≤ x ∧ x < 1}) (n : ℕ) :
    (∃ i < count, i < n ∧ pool.sample r = tenantOf count i) ↔
      r < cumulativeWeight weight count (min n count) := by
  have rising := cumulativeWeight_mono positive (populated_of weighted)
  constructor
  · rintro ⟨i, inside, top, selected⟩
    obtain ⟨_, above⟩ := (sample_eq_iff weighted positive r inside).mp selected
    exact above.trans_le (rising (by omega))
  · intro below
    obtain ⟨i, inside, selected⟩ := sample_inside weighted r
    refine ⟨i, inside, ?_, selected⟩
    obtain ⟨above, _⟩ := (sample_eq_iff weighted positive r inside).mp selected
    by_contra beyond
    exact (above.trans_lt below).not_ge (rising (by omega))

omit [LinearOrder K] [IsStrictOrderedRing K] in
theorem shareOfTop_eq (weighted : pool.Weighted count weight) (n : Int) :
    pool.shareOfTop n = cumulativeWeight weight count (min n.toNat count) := by
  have some_ := populated_of weighted
  have lengths : pool.tenants.length = count := by simp [weighted.tenants]
  unfold TenantPool.shareOfTop
  split
  case isTrue none_ =>
    rw [show min n.toNat count = 0 by omega, cumulativeWeight_zero]
  case isFalse top =>
    rw [List.get_eq_getElem, List.getElem_of_eq weighted.cumulative]
    simp only [rungs, List.getElem_map, List.getElem_range, lengths]
    congr 1
    omega

theorem shareOfTop_mono (weighted : pool.Weighted count weight)
    (positive : ∀ rank, 0 < weight rank) : Monotone pool.shareOfTop := by
  intro m n ordered
  rw [shareOfTop_eq weighted, shareOfTop_eq weighted]
  exact cumulativeWeight_mono positive (populated_of weighted) (by omega)

theorem shareOfTop_nonneg (weighted : pool.Weighted count weight)
    (positive : ∀ rank, 0 < weight rank) (n : Int) : 0 ≤ pool.shareOfTop n := by
  rw [shareOfTop_eq weighted, ← @cumulativeWeight_zero K _ weight count]
  exact cumulativeWeight_mono positive (populated_of weighted) (Nat.zero_le _)

end

/-! ### Sampling -/

open MeasureTheory in
/-- Sampling inverts the cumulative shares `C`: a draw in `[C (i - 1), C i)` selects the tenant
of that rank, the first tenants have their share of the draws, and no tenant has a better tier
than one that ranks before it. -/
structure TenantPool.Inverts (pool : TenantPool ℝ) (count : ℕ) (weight : ℕ → ℝ) : Prop where
  tenants : pool.tenants = (List.range count).map (tenantOf count)
  selects_one : ∀ r, ∃! i, i < count ∧ pool.sample r = tenantOf count i
  selects_iff : ∀ r, ∀ i < count, pool.sample r = tenantOf count i ↔
    cumulativeWeight weight count i ≤ r ∧ r < cumulativeWeight weight count (i + 1)
  share : ∀ n : Int, 0 ≤ pool.shareOfTop n ∧
    volume (Subtype.val '' {r : {x : ℝ // 0 ≤ x ∧ x < 1} |
      ∃ i < count, (i : Int) < n ∧ pool.sample r = tenantOf count i}) =
        ENNReal.ofReal (pool.shareOfTop n)
  share_mono : Monotone pool.shareOfTop
  tiers : ∀ i j, i ≤ j → j < count →
    tierRank (tenantOf count i).tier ≤ tierRank (tenantOf count j).tier

open MeasureTheory in
/-- The draws that select one of the first tenants are an interval of the length of their
share. -/
theorem volume_top {pool : TenantPool ℝ} {count : ℕ} {weight : ℕ → ℝ}
    (weighted : pool.Weighted count weight) (positive : ∀ rank, 0 < weight rank) (n : Int) :
    volume (Subtype.val '' {r : {x : ℝ // 0 ≤ x ∧ x < 1} |
      ∃ i < count, (i : Int) < n ∧ pool.sample r = tenantOf count i}) =
        ENNReal.ofReal (pool.shareOfTop n) := by
  have rising := cumulativeWeight_mono positive (populated_of weighted)
  have whole : cumulativeWeight weight count (min n.toNat count) ≤ 1 := by
    rw [← cumulativeWeight_count positive (populated_of weighted)]
    exact rising (min_le_right _ _)
  have interval : Subtype.val '' {r : {x : ℝ // 0 ≤ x ∧ x < 1} |
      ∃ i < count, (i : Int) < n ∧ pool.sample r = tenantOf count i} =
        Set.Ico 0 (cumulativeWeight weight count (min n.toNat count)) := by
    ext x
    constructor
    · rintro ⟨r, ⟨i, inside, top, selected⟩, rfl⟩
      exact ⟨r.2.1, (selects_top_iff weighted positive r n.toNat).mp
        ⟨i, inside, by omega, selected⟩⟩
    · rintro ⟨nonneg, below⟩
      obtain ⟨i, inside, top, selected⟩ := (selects_top_iff weighted positive
        ⟨x, nonneg, below.trans_le whole⟩ n.toNat).mpr below
      exact ⟨_, ⟨i, inside, by omega, selected⟩, rfl⟩
  rw [interval, Real.volume_Ico, sub_zero, shareOfTop_eq weighted]

/-- For every number of tenants, every exponent and every sequence of positive weights. -/
theorem sampling_inverts_shares (count : Int) (alpha : ℝ) (weight : ℕ → ℝ) (populated : 1 ≤ count)
    (skewed : 0 < alpha) (positive : ∀ rank, 0 < weight rank) :
    ∃ pool, TenantPool.new count alpha weight = .ok pool ∧
      pool.Inverts count.toNat weight := by
  obtain ⟨pool, made, weighted⟩ := new_weighted populated skewed positive
  exact ⟨pool, made, {
    tenants := weighted.tenants
    selects_one := fun r => by
      obtain ⟨i, inside, selected⟩ := sample_inside weighted r
      exact ⟨i, ⟨inside, selected⟩, fun j other => tenantOf_injective (other.2.symm.trans selected)⟩
    selects_iff := fun r i inside => sample_eq_iff weighted positive r inside
    share := fun n => ⟨shareOfTop_nonneg weighted positive n, volume_top weighted positive n⟩
    share_mono := shareOfTop_mono weighted positive
    tiers := fun i j ordered _ => tierRank_mono count.toNat ordered }⟩

/-- Three tenants with weights 1, 1/2 and 1/3. -/
theorem sampling_inverts_three : ∃ pool,
    TenantPool.new 3 1 (fun rank => 1 / ((rank : ℝ) + 1)) = .ok pool ∧
      pool.Inverts 3 fun rank => 1 / ((rank : ℝ) + 1) :=
  sampling_inverts_shares 3 1 _ (by norm_num) one_pos fun rank => by positivity

end TelemetryEngine.Emitters
