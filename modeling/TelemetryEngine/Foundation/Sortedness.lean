import Mathlib.Data.List.Pairwise
import Mathlib.Data.Prod.Lex

/-! Lists in order, seen from neighbours and from groups of equal keys. -/
namespace Foundation.Sortedness
variable {α β γ : Type} [LinearOrder β] [LinearOrder γ]

/-- Each value with the one before it: `lag`. -/
def lagged (values : List β) : List (β × Option β) := values.zip (none :: values.map some)

def descents (values : List β) : ℕ := (lagged values).countP fun pair => pair.2.any (pair.1 < ·)

theorem descents_from (before : Option β) (values : List β) :
    (values.zip (before :: values.map some)).countP (fun pair => pair.2.any (pair.1 < ·)) = 0 ↔
      (∀ previous ∈ before, ∀ value ∈ values, previous ≤ value) ∧ values.Pairwise (· ≤ ·) := by
  induction values generalizing before with
  | nil => simp
  | cons value rest ih =>
    rw [List.map_cons, List.zip_cons_cons, List.countP_cons, Nat.add_eq_zero_iff, ih,
      List.pairwise_cons]
    have here : ((if (before.any (value < ·)) = true then 1 else 0) = 0) ↔
        ∀ previous ∈ before, previous ≤ value := by
      cases before <;> simp
    simp only [here, Option.mem_some_iff, forall_eq', List.forall_mem_cons]
    constructor
    · rintro ⟨⟨least, sorted⟩, above⟩
      exact ⟨fun previous member => ⟨above previous member, fun later inside =>
        (above previous member).trans (least later inside)⟩, least, sorted⟩
    · rintro ⟨above, least, sorted⟩
      exact ⟨⟨least, sorted⟩, fun previous member => (above previous member).1⟩

theorem descents_eq_zero (values : List β) : descents values = 0 ↔ values.Pairwise (· ≤ ·) := by
  rw [descents, lagged, descents_from]
  simp

/-- A list is in the order of a composite key when its first keys are in order and every
group of one first key is in the order of the second. -/
theorem pairwise_lex_iff (first : α → β) (second : α → γ) (values : List α) :
    values.Pairwise (fun x y => toLex (first x, second x) ≤ toLex (first y, second y)) ↔
      (values.map first).Pairwise (· ≤ ·) ∧
        ∀ key, (values.filter (first · = key)).Pairwise (second · ≤ second ·) := by
  simp only [List.pairwise_map, List.pairwise_filter, decide_eq_true_eq, Prod.Lex.toLex_le_toLex]
  constructor
  · intro ordered
    refine ⟨ordered.imp fun below => below.elim le_of_lt (·.1.le), fun key => ?_⟩
    refine ordered.imp fun {x y} below here there => ?_
    exact (below.resolve_left (here.trans there.symm).not_lt).2
  · rintro ⟨keys, groups⟩
    rw [List.pairwise_iff_getElem] at keys ⊢
    intro i j hi hj before
    obtain below | same := (keys i j hi hj before).lt_or_eq
    · exact .inl below
    · have group := List.pairwise_iff_getElem.mp (groups (first values[j])) i j hi hj before
      exact .inr ⟨same, group same rfl⟩

/-- A list in the order of a key is in a relation that holds among equal keys when the
relation holds of every two of its members, taken in the order of their keys. -/
theorem pairwise_iff_of_sorted {key : α → β} {R : α → α → Prop} {values : List α}
    (sorted : values.Pairwise (key · ≤ key ·)) (equal : ∀ x y, key x = key y → R x y) :
    values.Pairwise R ↔ ∀ x ∈ values, ∀ y ∈ values, key x < key y → R x y := by
  constructor
  · intro related
    have both : values.Pairwise fun x y => (key x < key y → R x y) ∧ (key y < key x → R y x) :=
      sorted.imp₂ (fun _ _ below here => ⟨fun _ => here, fun above => absurd above below.not_gt⟩) related
    have symmetric : Std.Symm fun x y => (key x < key y → R x y) ∧ (key y < key x → R y x) :=
      ⟨fun _ _ => And.symm⟩
    have everywhere := both.forall_of_forall fun x _ => ⟨fun below => absurd below (lt_irrefl _),
      fun below => absurd below (lt_irrefl _)⟩
    exact fun x hx y hy => (everywhere hx hy).1
  · intro related
    refine sorted.imp_of_mem fun hx hy below => ?_
    rcases below.lt_or_eq with earlier | same
    · exact related _ hx _ hy earlier
    · exact equal _ _ same

end Foundation.Sortedness
