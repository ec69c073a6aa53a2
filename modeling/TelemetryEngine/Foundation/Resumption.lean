import Mathlib.Data.List.Basic

/-! A batch worked through in order, with a checkpoint that may lag behind by one item. An
attempt that starts at the checkpoint does such an item a second time. Where doing an item
twice in a row is doing it once, attempts add up to one. -/
namespace Foundation.Resumption
variable {S W : Type} {f : S → W → S}

/-- From a state and its open items, some were done and all of these but perhaps the last
recorded. -/
def Attempt (f : S → W → S) (items : List W) (s t : S) (left : List W) : Prop :=
  ∃ recorded done, recorded ≤ done ∧ done ≤ recorded + 1 ∧ done ≤ items.length ∧
    t = (items.take done).foldl f s ∧ left = items.drop recorded

theorem Attempt.none (items : List W) (s : S) : Attempt f items s s items :=
  ⟨0, 0, by simp⟩

theorem Attempt.all (items : List W) (s : S) : Attempt f items s (items.foldl f s) [] :=
  ⟨items.length, items.length, by simp⟩

theorem Attempt.trans {items left later : List W} {s t u : S} (again : ∀ s w, f (f s w) w = f s w)
    (first : Attempt f items s t left) (second : Attempt f left t u later) :
    Attempt f items s u later := by
  obtain ⟨recorded, done, behind, close, inside, rfl, rfl⟩ := first
  obtain ⟨recorded', done', behind', close', inside', rfl, rfl⟩ := second
  rw [List.length_drop] at inside'
  obtain rfl | rfl : done = recorded ∨ done = recorded + 1 := by omega
  · refine ⟨done + recorded', done + done', by omega, by omega, by omega, ?_, ?_⟩
    · rw [List.take_add, List.foldl_append]
    · rw [List.drop_drop]
  · cases done' with
    | zero =>
      obtain rfl : recorded' = 0 := by omega
      exact ⟨recorded, recorded + 1, by omega, Nat.le_refl _, inside, by simp, by simp⟩
    | succ more =>
      -- The item that was not recorded is the first of the second attempt.
      refine ⟨recorded + recorded', recorded + (more + 1), by omega, by omega, by omega, ?_, ?_⟩
      · obtain ⟨w, rest, here⟩ : ∃ w rest, items.drop recorded = w :: rest :=
          List.exists_cons_of_length_pos (by rw [List.length_drop]; omega)
        simp only [List.take_add, here, List.foldl_append, List.take_succ_cons, List.foldl_cons,
          List.take_zero, List.foldl_nil, again]
      · rw [List.drop_drop]

/-- An attempt that gets through what is left has done the batch. -/
theorem Attempt.finish {items left : List W} {s t : S} (again : ∀ s w, f (f s w) w = f s w)
    (attempt : Attempt f items s t left) : left.foldl f t = items.foldl f s := by
  obtain ⟨recorded, done, behind, _, _, same, finished⟩ := attempt.trans again (.all left t)
  have all : items.length ≤ recorded := List.drop_eq_nil_iff.mp finished.symm
  rw [same, List.take_of_length_le (Nat.le_trans all behind)]

end Foundation.Resumption
