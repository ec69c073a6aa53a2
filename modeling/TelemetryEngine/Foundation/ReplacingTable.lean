import Mathlib.Order.MinMax
import Mathlib.Data.List.Induction

/-! A table whose rows replace each other: what is read of it is the row of the
greatest version, and of several such rows the one inserted last. -/
namespace Foundation.ReplacingTable
variable {R V : Type} [LinearOrder V] {version : R → V} {rows : List R}

def newer (version : R → V) (best : Option R) (row : R) : Option R :=
  match best with
  | none => some row
  | some b => if version b ≤ version row then some row else some b

/-- `FINAL`, of the rows of one key in the order of their inserts. -/
def newest (version : R → V) (rows : List R) : Option R := rows.foldl (newer version) none

theorem newest_append (rows : List R) (row : R) :
    newest version (rows ++ [row]) = newer version (newest version rows) row := by
  rw [newest, List.foldl_append]
  rfl

theorem newest_spec (version : R → V) (rows : List R) :
    (rows = [] ∧ newest version rows = none) ∨
      ∃ row ∈ rows, newest version rows = some row ∧ ∀ r ∈ rows, version r ≤ version row := by
  induction rows using List.reverseRecOn with
  | nil => exact .inl ⟨rfl, rfl⟩
  | append_singleton rows row ih =>
    right
    rw [newest_append]
    rcases ih with ⟨rfl, none⟩ | ⟨best, member, found, bound⟩
    · exact ⟨row, by simp, by rw [none]; rfl, by simp⟩
    · by_cases later : version best ≤ version row
      · refine ⟨row, by simp, by rw [found, newer, if_pos later], ?_⟩
        simpa [or_imp, forall_and] using fun r inside => (bound r inside).trans later
      · refine ⟨best, by simp [member], by rw [found, newer, if_neg later], ?_⟩
        simpa [or_imp, forall_and] using ⟨bound, (not_le.mp later).le⟩

theorem newest_eq_none : newest version rows = none ↔ rows = [] := by
  rcases newest_spec version rows with ⟨rfl, none⟩ | ⟨row, member, found, _⟩
  · exact iff_of_true none rfl
  · refine iff_of_false (by simp [found]) (List.ne_nil_of_mem member)

theorem newest_mem {row : R} (found : newest version rows = some row) : row ∈ rows := by
  rcases newest_spec version rows with ⟨rfl, none⟩ | ⟨best, member, same, _⟩
  · rw [none] at found
    contradiction
  · rw [same] at found
    exact Option.some.inj found ▸ member

theorem newest_bound {row : R} (found : newest version rows = some row) {r : R} (member : r ∈ rows) :
    version r ≤ version row := by
  rcases newest_spec version rows with ⟨rfl, none⟩ | ⟨best, _, same, bound⟩
  · exact absurd member List.not_mem_nil
  · rw [same] at found
    exact Option.some.inj found ▸ bound r member

/-- A value that is not the one read comes to be read with the row that is inserted
for it exactly when no row has a later version. -/
theorem newest_append_value {f : R → A} (rows : List R) (row : R)
    (stale : (newest version rows).map f ≠ some (f row)) :
    (newest version (rows ++ [row])).map f = some (f row) ↔
      ∀ r ∈ rows, version r ≤ version row := by
  rw [newest_append]
  cases found : newest version rows with
  | none => simp [newer, newest_eq_none.mp found]
  | some best =>
    by_cases later : version best ≤ version row
    · simp only [newer, if_pos later, Option.map_some, true_iff]
      exact fun r member => (newest_bound found member).trans later
    · rw [found] at stale
      simp only [newer, if_neg later, stale, false_iff]
      exact fun bound => later (bound best (newest_mem found))

/-- What is read of rows that carry their version as the value is the maximum. -/
theorem newest_map_version : (newest version rows).map version = (rows.map version).max? := by
  rcases newest_spec version rows with ⟨rfl, none⟩ | ⟨row, member, found, bound⟩
  · rw [none]
    rfl
  · rw [found, Option.map_some, eq_comm, List.max?_eq_some_iff]
    refine ⟨List.mem_map_of_mem member, ?_⟩
    simpa using bound

end Foundation.ReplacingTable
