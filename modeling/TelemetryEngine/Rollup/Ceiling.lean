import Mathlib.Algebra.Order.BigOperators.GroupWithZero.List
import Mathlib.Algebra.BigOperators.Group.List.Lemmas
import Mathlib.Algebra.BigOperators.Ring.Finset
import Mathlib.Data.Finset.NAry
import Mathlib.Tactic.Positivity
import TelemetryEngine.Rollup.Budget

/-! The registry's bound on the rows of a minute. Each guarded dimension has its
budget and two sentinels to range over, and a row is determined by its values. -/
namespace TelemetryEngine.Rollup
open Cardinality Foundation Foundation.MergingTable

def tuples (minute : Int) (table : Spans1m) : Finset RollupKey :=
  ((table.filter (·.1.tsMinute = minute)).map Prod.fst).toFinset

/-- An allowlist for a registry that has a dimension for each column the view groups
by, under the column's own name, and that holds each of them to its budget. -/
structure Conforms (registry : Registry) (dictionary : Allowlist) : Prop where
  columns : ∀ column : KeyColumn, ∃ d ∈ registry.dimensions,
    d.name = column.name ∧ d.column = column.name
  budgets : ∀ d ∈ registry.dimensions, (dictionary.values d.name).card ≤ d.budget

theorem card_tuples_le {α γ ν : Type} [DecidableEq ν] (keys : Finset α) (coordinate : α → γ → ν)
    (range : γ → Finset ν) (within : ∀ key ∈ keys, ∀ c, coordinate key c ∈ range c)
    (columns : List γ) :
    (keys.image fun key => columns.map (coordinate key)).card ≤
      (columns.map fun c => (range c).card).prod := by
  induction columns with
  | nil =>
    refine Finset.card_le_one.mpr fun first inside second inside' => ?_
    obtain ⟨_, _, rfl⟩ := Finset.mem_image.mp inside
    obtain ⟨_, _, rfl⟩ := Finset.mem_image.mp inside'
    rfl
  | cons c rest ih =>
    have product : (keys.image fun key => (c :: rest).map (coordinate key)) ⊆
        Finset.image₂ List.cons (range c) (keys.image fun key => rest.map (coordinate key)) := by
      intro tuple inside
      obtain ⟨key, member, rfl⟩ := Finset.mem_image.mp inside
      exact Finset.mem_image₂_of_mem (within key member c) (Finset.mem_image_of_mem _ member)
    calc (keys.image fun key => (c :: rest).map (coordinate key)).card
        ≤ (range c).card * (keys.image fun key => rest.map (coordinate key)).card :=
          (Finset.card_le_card product).trans (Finset.card_image₂_le ..)
      _ ≤ (range c).card * (rest.map fun c => (range c).card).prod := Nat.mul_le_mul_left _ ih

theorem maxRowsPerBucket_eq (registry : Registry) :
    registry.maxRowsPerBucket = (registry.dimensions.map Dimension.maxDistinct).prod := by
  rw [Registry.maxRowsPerBucket, List.prod_eq_foldl, List.foldl_map]

theorem maxDistinct_pos (d : Dimension) : 0 < d.maxDistinct := by
  have positive := d.budget_pos
  rw [Dimension.maxDistinct]
  omega

/-- Some of the dimensions bound no more rows than all of them. -/
theorem prod_maxDistinct_le {registry : Registry} {some : List Dimension} (distinct : some.Nodup)
    (registered : some ⊆ registry.dimensions) :
    (some.map Dimension.maxDistinct).prod ≤ registry.maxRowsPerBucket := by
  rw [maxRowsPerBucket_eq]
  obtain ⟨front, order, part⟩ := distinct.subperm registered
  rw [← (order.map Dimension.maxDistinct).prod_eq]
  refine Int.le_of_dvd (List.prod_pos fun n member => ?_) (part.map _).prod_dvd_prod
  obtain ⟨d, _, rfl⟩ := List.mem_map.mp member
  exact maxDistinct_pos d

theorem KeyColumn.name_injective : Function.Injective KeyColumn.name := by
  intro first second same
  cases first <;> cases second <;> first | rfl | exact absurd same (by decide)

theorem RollupKey.eq_of_dimensions {first second : RollupKey} (minute : first.tsMinute = second.tsMinute)
    (same : KeyColumn.all.map first.dimension = KeyColumn.all.map second.dimension) :
    first = second := by
  obtain ⟨m, t, tier, model, operation, route, region, status⟩ := first
  simp only [KeyColumn.all, List.map_cons, RollupKey.dimension, List.cons.injEq] at same minute
  simp [same, minute]

variable {registry : Registry} {dictionary : Allowlist}

theorem Conforms.dimensions (conforms : Conforms registry dictionary) :
    ∃ pick : KeyColumn → Dimension, (KeyColumn.all.map pick).Nodup ∧
      KeyColumn.all.map pick ⊆ registry.dimensions ∧
      ∀ column, ((dictionary.values column.name).card : Int) + 2 ≤ (pick column).maxDistinct := by
  choose pick registered named _ using conforms.columns
  refine ⟨pick, List.Nodup.map ?_ (by decide), fun d member => ?_, fun column => ?_⟩
  · intro first second same
    exact KeyColumn.name_injective (by rw [← named, ← named, same])
  · obtain ⟨column, _, rfl⟩ := List.mem_map.mp member
    exact registered column
  · have within := conforms.budgets (pick column) (registered column)
    rw [named] at within
    rw [Dimension.maxDistinct]
    omega

/-- Whatever the rows say, a minute holds at most `max_rows_per_bucket` tuples. -/
theorem tuples_within_ceiling (conforms : Conforms registry dictionary)
    {blocks : List (List SpanRow)} {table : Spans1m}
    (held : Holds (mvSpans1m dictionary) blocks table) (minute : Int) :
    ((tuples minute table).card : Int) ≤ registry.maxRowsPerBucket := by
  obtain ⟨pick, distinct, registered, bounds⟩ := conforms.dimensions
  have values : ∀ key ∈ tuples minute table, ∀ column,
      key.dimension column ∈ distinctValues column minute table := by
    intro key member column
    obtain ⟨entry, inside, rfl⟩ := List.mem_map.mp (List.mem_toFinset.mp member)
    exact List.mem_toFinset.mpr
      (List.mem_map_of_mem (f := fun entry => entry.1.dimension column) inside)
  have minutes : ∀ key ∈ tuples minute table, key.tsMinute = minute := by
    intro key member
    obtain ⟨entry, inside, rfl⟩ := List.mem_map.mp (List.mem_toFinset.mp member)
    simpa using (List.mem_filter.mp inside).2
  have injective : Set.InjOn (fun key : RollupKey => KeyColumn.all.map key.dimension)
      (tuples minute table) := fun first inside second inside' same =>
    RollupKey.eq_of_dimensions ((minutes _ inside).trans (minutes _ inside').symm) same
  have product := card_tuples_le (tuples minute table) RollupKey.dimension
    (fun column => distinctValues column minute table) values KeyColumn.all
  rw [Finset.card_image_of_injOn injective] at product
  calc ((tuples minute table).card : Int)
      ≤ (KeyColumn.all.map fun column => ((distinctValues column minute table).card : Int)).prod := by
        refine (Int.ofNat_le.mpr product).trans_eq ?_
        rw [Nat.cast_list_prod, List.map_map]
        rfl
    _ ≤ (KeyColumn.all.map fun column => (pick column).maxDistinct).prod := by
        refine List.prod_map_le_prod_map₀ _ _ (fun _ _ => by positivity) fun column _ => ?_
        have card := distinctValues_card held column minute
        have bound := bounds column
        omega
    _ = ((KeyColumn.all.map pick).map Dimension.maxDistinct).prod := by
        rw [List.map_map]
        rfl
    _ ≤ registry.maxRowsPerBucket := prod_maxDistinct_le distinct registered

/-- A registry with the seven columns, each holding a single value. -/
def plainDimension (column : KeyColumn) : Dimension where
  name := column.name
  column := column.name
  attribute_ := column.name
  source := .static
  budget := 1
  values := ["ok"]
  topKWindowHours := 24
  budget_pos := tenantDimension.budget_pos
  values_within := by decide
  values_static := by simp

def plainRegistry : Registry where
  version := 1
  otherBucket := "__other__"
  noneBucket := "__none__"
  dimensions := KeyColumn.all.map plainDimension
  forbidden := ∅
  declared := by decide
  names_nodup := by decide
  permitted := by simp

theorem plain_conforms : Conforms plainRegistry {("status_class", "ok")} :=
  ⟨fun column => ⟨plainDimension column, List.mem_map_of_mem column.mem_all, rfl, rfl⟩,
    by decide +kernel⟩

def plainRows : List SpanRow := [{ ts := 0, statusClass := "ok" }, { ts := 1, tenantId := "a" }]

theorem tuples_within_ceiling_plain :
    ((tuples 0 (mvSpans1m {("status_class", "ok")} plainRows)).card : Int) ≤
      plainRegistry.maxRowsPerBucket :=
  tuples_within_ceiling plain_conforms (@Holds.insert _ _ _ _ _ _ plainRows _ .empty) 0

end TelemetryEngine.Rollup
