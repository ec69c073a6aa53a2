import Mathlib.Algebra.Order.BigOperators.Group.List
import TelemetryEngine.Foundation.OrderStatistics

/-! Means, maxima and quantiles grow with the values they are taken of, and move when all
values move alike. Whatever does is no further from the truth than each value is. -/
namespace Foundation.Location
open OrderStatistics

section
variable {α : Type} [AddCommGroup α] [LinearOrder α] [IsOrderedAddMonoid α]

/-- A statistic of location, which no values have none of. -/
structure Statistic (α : Type) [AddCommGroup α] [LinearOrder α] where
  of : List α → Option α
  isSome_of : ∀ values, (of values).isSome ↔ values ≠ []
  mono : ∀ {xs ys x y}, List.Forall₂ (· ≤ ·) xs ys → of xs = some x → of ys = some y → x ≤ y
  shift : ∀ xs c, of (xs.map (· + c)) = (of xs).map (· + c)

/-- Read too low by no more than the first slack, and too high by no more than the second. -/
def Within (below above truth read : α) : Prop := truth ≤ read + below ∧ read ≤ truth + above

omit [IsOrderedAddMonoid α] in
theorem Statistic.within (location : Statistic α) {below above : α} {truths reads : List α}
    (close : List.Forall₂ (Within below above) truths reads) :
    Option.Rel (Within below above) (location.of truths) (location.of reads) := by
  have nonempty : truths ≠ [] ↔ reads ≠ [] := by
    rw [← List.length_pos_iff, ← List.length_pos_iff, close.length_eq]
  rw [← location.isSome_of, ← location.isSome_of] at nonempty
  cases truth : location.of truths with
  | none =>
    cases read : location.of reads with
    | none => exact .none
    | some _ => simp [truth, read] at nonempty
  | some t =>
    cases read : location.of reads with
    | none => simp [truth, read] at nonempty
    | some r =>
      have moved {values : List α} {x : α} (slack : α) (here : location.of values = some x) :
          location.of (values.map (· + slack)) = some (x + slack) := by
        rw [location.shift, here, Option.map_some]
      refine .some ⟨location.mono ?_ truth (moved below read),
        location.mono ?_ read (moved above truth)⟩
      · rw [List.forall₂_map_right_iff]
        exact close.imp fun _ _ both => both.1
      · rw [List.forall₂_map_right_iff]
        exact close.flip.imp fun _ _ both => both.2

/-! ### Ranks -/

omit [AddCommGroup α] [IsOrderedAddMonoid α] in
/-- As many values are not above a bound as of larger ones, or more. -/
theorem countP_le_of_forall₂ {xs ys : List α} (below : List.Forall₂ (· ≤ ·) xs ys) (bound : α) :
    ys.countP (· ≤ bound) ≤ xs.countP (· ≤ bound) := by
  induction below with
  | nil => rfl
  | @cons x y _ _ first _ ih =>
    rw [List.countP_cons, List.countP_cons]
    by_cases fits : y ≤ bound
    · simp [fits, first.trans fits, ih]
    · simp only [fits, decide_false, Bool.false_eq_true, if_false]
      omega

/-- The value of some rank that depends on their number only. -/
def ranked (position : ℕ → ℕ) (inside : ∀ n, 0 < n → position n < n) : Statistic α where
  of xs := (xs.insertionSort (· ≤ ·))[position xs.length]?
  isSome_of xs := by
    rw [Option.isSome_iff_ne_none, ne_eq, List.getElem?_eq_none_iff, not_le,
      List.length_insertionSort, ← List.length_pos_iff]
    exact ⟨fun found => (Nat.zero_le _).trans_lt found, inside _⟩
  mono {xs ys x y} below here there := by
    rw [← below.length_eq] at there
    have some_below := lt_count_below (List.pairwise_insertionSort _ _) there
    have rest_above := count_above (List.pairwise_insertionSort _ _) here
    rw [((List.perm_insertionSort _ _).countP_eq _)] at some_below rest_above
    rw [List.length_insertionSort] at rest_above
    by_contra above
    have apart : xs.countP (· ≤ y) + xs.countP (x ≤ ·) ≤ xs.length := by
      rw [List.length_eq_countP_add_countP (x ≤ ·), Nat.add_comm]
      refine Nat.add_le_add_left (List.countP_mono_left fun z _ under => ?_) _
      simp only [decide_eq_true_eq, not_le] at above under ⊢
      exact under.trans_lt above
    have more := countP_le_of_forall₂ below y
    omega
  shift xs c := by
    have sorted := List.map_insertionSort (r := (· ≤ ·)) (s := (· ≤ ·)) (· + c) xs
      fun _ _ _ _ => (add_le_add_iff_right c).symm
    rw [← sorted, List.length_map, List.getElem?_map]

/-! ### Means and maxima -/

def largest : Statistic α where
  of xs := xs.max?
  isSome_of xs := by rw [Option.isSome_iff_ne_none, ne_eq, ne_eq, List.max?_eq_none_iff]
  mono {xs ys x y} below here there := by
    obtain ⟨i, inside, rfl⟩ := List.mem_iff_getElem.mp (List.max?_mem here)
    have within : i < ys.length := below.length_eq ▸ inside
    have above := (List.max?_eq_some_iff.mp there).2 _ (List.getElem_mem within)
    exact (below.get inside within).trans above
  shift xs c := by
    cases top : xs.max? with
    | none =>
      obtain rfl := List.max?_eq_none_iff.mp top
      rfl
    | some x =>
      obtain ⟨member, most⟩ := List.max?_eq_some_iff.mp top
      refine List.max?_eq_some_iff.mpr ⟨List.mem_map_of_mem member, fun y moved => ?_⟩
      obtain ⟨z, among, rfl⟩ := List.mem_map.mp moved
      exact add_le_add_left (most z among) c

end

def mean : Statistic ℚ where
  of xs := if xs = [] then none else some (xs.sum / xs.length)
  isSome_of xs := by by_cases empty : xs = [] <;> simp [empty]
  mono {xs ys x y} below here there := by
    have nonempty : xs ≠ [] := fun empty => by simp [empty] at here
    have others : ys ≠ [] := fun empty => by simp [empty] at there
    rw [if_neg nonempty, Option.some.injEq] at here
    rw [if_neg others, Option.some.injEq, ← below.length_eq] at there
    rw [← here, ← there]
    exact div_le_div_of_nonneg_right below.sum_le_sum (Nat.cast_nonneg _)
  shift xs c := by
    by_cases empty : xs = []
    · simp [empty]
    · have count : (xs.length : ℚ) ≠ 0 := by simpa using empty
      have total : (xs.map (· + c)).sum = xs.sum + xs.length * c := by
        rw [List.sum_map_add, List.map_id', List.map_const', List.sum_replicate, nsmul_eq_mul]
      rw [if_neg (by simpa using empty), if_neg empty, Option.map_some, total, List.length_map,
        add_div, mul_div_cancel_left₀ _ count]

/-! ### Selections -/

section
variable {A B : Type} {R : A → B → Prop} {xs : List A} {ys : List B}

/-- What the selected ones of some values stand for. -/
def counterparts (selected : A → Bool) (xs : List A) (ys : List B) : List B :=
  ((xs.zip ys).filter fun pair => selected pair.1).map Prod.snd

theorem counterparts_related (related : List.Forall₂ R xs ys) (selected : A → Bool) :
    List.Forall₂ R (xs.filter selected) (counterparts selected xs ys) := by
  induction related with
  | nil => exact .nil
  | @cons x y xs ys first _ ih =>
    rw [counterparts, List.zip_cons_cons, List.filter_cons, List.filter_cons]
    cases selected x with
    | false => exact ih
    | true => exact .cons first ih

end

end Foundation.Location
