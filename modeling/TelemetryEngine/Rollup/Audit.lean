import TelemetryEngine.Foundation.Grouping
import TelemetryEngine.Rollup.Budget
import TelemetryEngine.Rollup.Ceiling
import TelemetryEngine.Rollup.Totals

/-! `status` of `cardinality/guard.py`, the audit of the bound: for every dimension what the
rollup holds against what the allowlist and the budget permit. Rows are those of the rollup, which
merges change; what occurs at all does not change. -/
namespace TelemetryEngine.Rollup
open Cardinality Foundation Foundation.Grouping Foundation.MergingTable

/-- The dimensions and the columns their queries name. -/
def dimensionColumns (registry : Registry) : Except Failure (List (Dimension × KeyColumn)) :=
  registry.dimensions.mapM fun dimension =>
    match KeyColumn.all.find? (·.name = dimension.column) with
    | some column => .ok (dimension, column)
    | none => .error .database

theorem dimensionColumns_ok {registry : Registry}
    (columns : ∀ d ∈ registry.dimensions, ∃ column : KeyColumn, column.name = d.column) :
    ∃ dimensions, dimensionColumns registry = .ok dimensions ∧
      dimensions.map Prod.fst = registry.dimensions ∧
      ∀ entry ∈ dimensions, entry.2.name = entry.1.column := by
  unfold dimensionColumns
  generalize registry.dimensions = declared at columns
  induction declared with
  | nil => exact ⟨[], rfl, rfl, fun entry member => absurd member List.not_mem_nil⟩
  | cons d rest ih =>
    obtain ⟨dimensions, mapped, firsts, named⟩ := ih fun d member =>
      columns d (List.mem_cons_of_mem _ member)
    obtain ⟨column, same⟩ := columns d List.mem_cons_self
    cases found : KeyColumn.all.find? (·.name = d.column) with
    | none => exact absurd same (by simpa using List.find?_eq_none.mp found column column.mem_all)
    | some first =>
      refine ⟨(d, first) :: dimensions, ?_, by rw [List.map_cons, firsts], ?_⟩
      · rw [List.mapM_cons, found, mapped]
        rfl
      · intro entry member
        rcases List.mem_cons.mp member with rfl | member
        · simpa using List.find?_some found
        · exact named entry member

/-- Observed cardinality of one dimension against its budget. -/
structure DimensionStatus where
  name : String
  allowlisted : ℕ
  budget : Int
  observedDistinct : ℕ
  otherBucketRows : ℕ
  noneBucketRows : ℕ
  totalRows : ℕ
  deriving DecidableEq, Repr

namespace DimensionStatus

def headroom (line : DimensionStatus) : Int := line.budget - line.allowlisted

def withinBudget (line : DimensionStatus) : Prop := line.observedDistinct ≤ line.budget + 2

end DimensionStatus

def statusOf (registry : Registry) (table : Spans1m) (allowlist : Allowlist)
    (dimension : Dimension) (column : KeyColumn) : DimensionStatus where
  name := dimension.name
  allowlisted := (allowlist.values dimension.name).card
  budget := dimension.budget
  observedDistinct := (table.map (·.1.dimension column)).dedup.length
  otherBucketRows := table.countP (·.1.dimension column = registry.otherBucket)
  noneBucketRows := table.countP (·.1.dimension column = registry.noneBucket)
  totalRows := table.length

/-- Report observed cardinality against budget for every dimension. -/
def status (registry : Registry) (table : Spans1m) (allowlist : Allowlist) :
    Except Failure (List DimensionStatus) := do
  let dimensions ← dimensionColumns registry
  return dimensions.map fun entry => statusOf registry table allowlist entry.1 entry.2

/-! ### Over a whole history -/

/-- The blocks of a history, each with the dictionary that the view met it with. -/
def written (registry : Registry) (guard : Guard) : List GuardEvent → List Block
  | [] => []
  | .ingest rows :: rest =>
    ⟨guard.dictionary, rows⟩ :: written registry (guard.step registry (.ingest rows)) rest
  | event :: rest => written registry (guard.step registry event) rest

variable {registry : Registry} {guard : Guard}

/-- Nothing leaves the allowlist, and the dictionary is never ahead of it. -/
theorem step_allowlist (loaded : guard.dictionary ⊆ guard.allowlist) (event : GuardEvent) :
    guard.allowlist ⊆ (guard.step registry event).allowlist ∧
      (guard.step registry event).dictionary ⊆ (guard.step registry event).allowlist := by
  cases event with
  | ingest | expire => exact ⟨Finset.Subset.refl _, loaded⟩
  | refresh => exact ⟨Finset.Subset.refl _, Finset.Subset.refl _⟩
  | sync call =>
    refine foldl_invariant (P := fun later : Guard => guard.allowlist ⊆ later.allowlist ∧
      later.dictionary ⊆ later.allowlist) ?_ ⟨Finset.Subset.refl _, loaded⟩
    rintro later effect _ ⟨grown, loaded⟩
    cases effect with
    | insert rows =>
      exact ⟨grown.trans Finset.subset_union_left, loaded.trans Finset.subset_union_left⟩
    | reload => exact ⟨grown, Finset.Subset.refl _⟩

theorem written_allowed (loaded : guard.dictionary ⊆ guard.allowlist) (events : List GuardEvent) :
    guard.allowlist ⊆ (guard.run registry events).allowlist ∧
      ∀ block ∈ written registry guard events,
        block.dictionary ⊆ (guard.run registry events).allowlist := by
  induction events generalizing guard with
  | nil => exact ⟨Finset.Subset.refl _, fun block member => absurd member List.not_mem_nil⟩
  | cons event rest ih =>
    obtain ⟨grown, loadedThen⟩ := @step_allowlist registry guard loaded event
    obtain ⟨later, blocks⟩ := ih loadedThen
    refine ⟨grown.trans later, ?_⟩
    cases event with
    | ingest rows =>
      intro block member
      rcases List.mem_cons.mp member with rfl | member
      · exact loaded.trans later
      · exact blocks block member
    | expire | refresh | sync => exact blocks

theorem rollup_value {blocks : List Block} {table : Spans1m} (held : Holds Block.write blocks table)
    {key : RollupKey} (member : key ∈ table.map Prod.fst) (column : KeyColumn) :
    key.dimension column = "__none__" ∨ key.dimension column = "__other__" ∨
      ∃ block ∈ blocks, key.dimension column ∈ block.dictionary.values column.name := by
  obtain ⟨block, among, inside⟩ := (holds_keys held key).mp member
  obtain ⟨row, _, same⟩ := List.mem_map.mp ((keys_group _ _ block.rows key).mp inside)
  rw [← same, rollupKey_dimension]
  rcases guarded_cases block.dictionary column.name (row.dimension column) with none | other | allowed
  · exact .inl none
  · exact .inr (.inl other)
  · exact .inr (.inr ⟨block, among, allowed⟩)

theorem distinct_le {values : List String} {allowed : Finset String}
    (within : ∀ value ∈ values, value = "__none__" ∨ value = "__other__" ∨ value ∈ allowed) :
    values.dedup.length ≤ allowed.card + 2 := by
  have inside : values.toFinset ⊆ {"__none__", "__other__"} ∪ allowed := by
    intro value member
    rcases within value (List.mem_toFinset.mp member) with rfl | rfl | allowed
    · simp
    · simp
    · exact Finset.mem_union_right _ allowed
  have cards := Finset.card_le_card inside
  have union := Finset.card_union_le {"__none__", "__other__"} allowed
  have sentinels : ({"__none__", "__other__"} : Finset String).card = 2 := rfl
  rw [← List.card_toFinset]
  omega

theorem sentinel_rows_le (registry : Registry) (table : Spans1m) (column : KeyColumn)
    (distinct : registry.otherBucket ≠ registry.noneBucket) :
    table.countP (·.1.dimension column = registry.otherBucket) +
      table.countP (·.1.dimension column = registry.noneBucket) ≤ table.length := by
  rw [← countP_cases (fun _ _ => rfl) fun entry _ other => decide_eq_false ?_]
  · exact List.countP_le_length
  · exact (of_decide_eq_true other : entry.1.dimension column = registry.otherBucket) ▸ distinct

/-- At any time in any history of inserts, syncs and merges, whatever part of the rollup is
left, the audit finds no more values of a dimension than are allowlisted and the two
sentinels: where there is headroom, the dimension is within its budget. Rows of the sentinels are
counted apart. -/
theorem observed_within_allowlisted
    (columns : ∀ d ∈ registry.dimensions, ∃ column : KeyColumn, column.name = d.column)
    (aligned : ∀ d ∈ registry.dimensions, d.column = d.name)
    (distinct : registry.otherBucket ≠ registry.noneBucket) (events : List GuardEvent)
    {table remaining : Spans1m} (held : Holds Block.write (written registry .initial events) table)
    (left : ∀ entry ∈ remaining, entry.1 ∈ table.map Prod.fst) :
    ∃ lines, status registry remaining (Guard.initial.run registry events).allowlist = .ok lines ∧
      lines.map DimensionStatus.name = registry.dimensions.map Dimension.name ∧
      ∀ line ∈ lines, line.observedDistinct ≤ line.allowlisted + 2 ∧
        (0 ≤ line.headroom → line.withinBudget) ∧
          line.otherBucketRows + line.noneBucketRows ≤ line.totalRows := by
  obtain ⟨dimensions, mapped, firsts, named⟩ := dimensionColumns_ok columns
  refine ⟨_, by rw [status, mapped]; rfl, ?_, ?_⟩
  · rw [← firsts, List.map_map, List.map_map]
    rfl
  rintro line member
  obtain ⟨entry, among, rfl⟩ := List.mem_map.mp member
  have name : entry.2.name = entry.1.name :=
    (named entry among).trans (aligned entry.1 (firsts ▸ List.mem_map_of_mem among))
  have observed : (statusOf registry remaining (Guard.initial.run registry events).allowlist entry.1
      entry.2).observedDistinct ≤
        ((Guard.initial.run registry events).allowlist.values entry.1.name).card + 2 := by
    refine distinct_le fun value seen => ?_
    obtain ⟨row, inside, rfl⟩ := List.mem_map.mp seen
    rcases rollup_value held (left row inside) entry.2 with none | other | ⟨block, wrote, allowed⟩
    · exact .inl none
    · exact .inr (.inl other)
    · refine .inr (.inr ?_)
      have grown := (written_allowed (Finset.Subset.refl _) events).2 block wrote
      exact Allowlist.values_mono grown _ (name ▸ allowed)
  refine ⟨observed, fun room => ?_, sentinel_rows_le registry remaining _ distinct⟩
  unfold DimensionStatus.headroom at room
  have permitted : (((Guard.initial.run registry events).allowlist.values entry.1.name).card : Int) ≤
    entry.1.budget := by
    exact Int.sub_nonneg.mp room
  unfold DimensionStatus.withinBudget
  change _ ≤ entry.1.budget + 2
  omega

/-- Two tenants, of which the sync between them allows the first. -/
def auditedTraffic : List GuardEvent :=
  [.ingest [{ ts := 0, tenantId := "a" }], .sync (plainSync 0),
    .ingest [{ ts := 1, tenantId := "b" }]]

theorem observed_within_allowlisted_audited :
    ∃ lines, status tenantRegistry
        ((written tenantRegistry .initial auditedTraffic).flatMap Block.write)
        (Guard.initial.run tenantRegistry auditedTraffic).allowlist = .ok lines ∧
      lines.map DimensionStatus.name = tenantRegistry.dimensions.map Dimension.name ∧
      ∀ line ∈ lines, line.observedDistinct ≤ line.allowlisted + 2 ∧
        (0 ≤ line.headroom → line.withinBudget) ∧
          line.otherBucketRows + line.noneBucketRows ≤ line.totalRows :=
  observed_within_allowlisted
    (by simp only [tenantRegistry, List.mem_singleton, forall_eq]; exact ⟨.tenantId, rfl⟩)
    (by simp [tenantRegistry, tenantDimension]) (by simp [tenantRegistry]) auditedTraffic
    (holds_append .empty _) fun entry member => List.mem_map_of_mem member

end TelemetryEngine.Rollup
