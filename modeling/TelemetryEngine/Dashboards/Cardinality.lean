import TelemetryEngine.Dashboards.Overview
import TelemetryEngine.Rollup.Audit

/-! The cardinality dashboard of `dashboards.py`. The buckets of a dimension are counted from
the rollup, where the guard has replaced the values; the unregistered values themselves are
listed from the raw rows. -/
namespace TelemetryEngine.Dashboards
open Cardinality Rollup Foundation.Calendar Foundation.Grouping Foundation.MergingTable

structure BucketLine where
  dimension : String
  registered : ℕ
  unregistered : ℕ
  absent : ℕ
  distinctValues : ℕ
  budget : Int
  deriving DecidableEq

section
-- the minutes, or the times of raw rows, that the time filter shows
variable (shown : Int → Bool)

/-- `countMergeIf(spans, condition)` -/
def countIf (source : Source) (condition : RollupKey → Bool) : ℕ :=
  (source.whole fun key => shown key.tsMinute && condition key).spans

def bucketLine (source : Source) (dimension : Dimension) (column : KeyColumn) : BucketLine where
  dimension := dimension.name
  registered := countIf shown source fun key => key.dimension column ∉ sentinels
  unregistered := countIf shown source fun key => key.dimension column = "__other__"
  absent := countIf shown source fun key => key.dimension column = "__none__"
  distinctValues := (source.by_
    (fun key => shown key.tsMinute && key.dimension column ∉ sentinels) (·.dimension column)
    fun _ => ()).length
  budget := dimension.budget

/-- `_bucket_breakdown_sql` -/
def bucketBreakdown (registry : Registry) (source : Source) : Except Failure (List BucketLine) := do
  let dimensions ← dimensionColumns registry
  return (dimensions.map fun entry => bucketLine shown source entry.1 entry.2).insertionSort
    fun first second => second.unregistered ≤ first.unregistered

def unregisteredSpans (registry : Registry) (source : Source) : Except Failure ℕ := do
  let dimensions ← dimensionColumns registry
  return (dimensions.map fun entry =>
    countIf shown source fun key => key.dimension entry.2 = "__other__").sum

/-- `_unregistered_values_sql`: dimensions, values and their spans. -/
def unregisteredValues (registry : Registry) (dictionary : Allowlist) (rows : List SpanRow) :
    Except Failure (List (String × String × ℕ)) := do
  let dimensions ← dimensionColumns registry
  let lines := dimensions.flatMap fun entry =>
    (grouped (·.dimension entry.2) List.length (rows.filter fun row => shown row.time &&
      row.dimension entry.2 ≠ "" && (entry.1.name, row.dimension entry.2) ∉ dictionary)).map
      fun line => (entry.1.name, line)
  return (lines.insertionSort fun first second => second.2.2 ≤ first.2.2).take 50

end

/-! ### What the buckets count -/

namespace Seen

def value (seen : Seen) (column : KeyColumn) : String := seen.row.dimension column

/-- The value was registered when the row came in. -/
def Allowed (seen : Seen) (column : KeyColumn) : Prop :=
  (column.name, seen.value column) ∈ seen.dictionary

instance (seen : Seen) (column : KeyColumn) : Decidable (seen.Allowed column) :=
  inferInstanceAs (Decidable (_ ∈ _))

end Seen

def shownRows (shown : Int → Bool) (rows : List Seen) : List Seen :=
  rows.filter fun seen => shown (floorMinute seen.row.time)

/-- A line counts rows by how their value stood to the dictionary they met. A text that is
itself a sentinel counts as one. -/
structure Counts (shown : Int → Bool) (rows : List Seen) (column : KeyColumn) (line : BucketLine) :
    Prop where
  registered : line.registered = (shownRows shown rows).countP fun seen =>
    seen.value column ≠ "" ∧ seen.Allowed column ∧ seen.value column ∉ sentinels
  unregistered : line.unregistered = (shownRows shown rows).countP fun seen =>
    seen.value column ≠ "" ∧ (¬ seen.Allowed column ∨ seen.value column = "__other__")
  absent : line.absent = (shownRows shown rows).countP fun seen =>
    seen.value column = "" ∨ seen.Allowed column ∧ seen.value column = "__none__"
  whole : line.registered + line.unregistered + line.absent = (shownRows shown rows).length
  distinct : line.distinctValues = (((shownRows shown rows).filter fun seen =>
    seen.value column ≠ "" ∧ seen.Allowed column ∧ seen.value column ∉ sentinels).map
      (·.value column)).dedup.length

theorem key_dimension (seen : Seen) (column : KeyColumn) :
    seen.key.dimension column = guarded seen.dictionary column.name (seen.value column) :=
  rollupKey_dimension seen.dictionary seen.row column

theorem guarded_other_iff {dictionary : Allowlist} {name value : String} :
    guarded dictionary name value = "__other__" ↔
      value ≠ "" ∧ ((name, value) ∉ dictionary ∨ value = "__other__") := by
  unfold guarded
  split_ifs with empty allowed <;> simp [*]

theorem guarded_none_iff {dictionary : Allowlist} {name value : String} :
    guarded dictionary name value = "__none__" ↔
      value = "" ∨ (name, value) ∈ dictionary ∧ value = "__none__" := by
  unfold guarded
  split_ifs with empty allowed <;> simp [*]

theorem guarded_free_iff {dictionary : Allowlist} {name value : String} :
    guarded dictionary name value ∉ sentinels ↔
      value ≠ "" ∧ (name, value) ∈ dictionary ∧ value ∉ sentinels := by
  unfold guarded sentinels
  split_ifs with empty allowed <;> simp [*]

theorem countIf_raw (shown : Int → Bool) (rows : List Seen) (condition : RollupKey → Bool) :
    countIf shown (.raw rows) condition =
      (shownRows shown rows).countP fun seen => condition seen.key := by
  simp only [countIf, Source.raw, rawState, shownRows, List.countP_eq_length_filter,
    List.filter_filter, Bool.and_comm]
  rfl

theorem countIf_other (shown : Int → Bool) (rows : List Seen) (column : KeyColumn) :
    (countIf shown (.raw rows) fun key => key.dimension column = "__other__") =
      (shownRows shown rows).countP fun seen =>
        seen.value column ≠ "" ∧ (¬ seen.Allowed column ∨ seen.value column = "__other__") := by
  rw [countIf_raw]
  refine List.countP_congr fun seen _ => ?_
  rw [decide_eq_true_iff, decide_eq_true_iff, key_dimension]
  exact guarded_other_iff

theorem countP_partition (rows : List Seen) (column : KeyColumn) :
    (rows.countP fun seen => seen.key.dimension column ∉ sentinels) +
      (rows.countP fun seen => seen.key.dimension column = "__other__") +
      (rows.countP fun seen => seen.key.dimension column = "__none__") = rows.length := by
  have present : rows.countP (fun seen => seen.key.dimension column ≠ "__none__") =
      (rows.countP fun seen => seen.key.dimension column ∉ sentinels) +
        rows.countP fun seen => seen.key.dimension column = "__other__" := by
    refine countP_cases (fun seen _ => ?_) fun seen _ free => ?_
    · by_cases other : seen.key.dimension column = "__other__" <;> simp [sentinels, other]
    · simp only [sentinels, List.mem_cons, not_or, decide_eq_true_eq] at free
      exact decide_eq_false free.1
  rw [← present, ← congrFun List.countP_true rows]
  refine (countP_cases (fun seen _ => ?_) fun seen _ some => ?_).symm
  · by_cases absent : seen.key.dimension column = "__none__" <;> simp [absent]
  · exact decide_eq_false (of_decide_eq_true some)

theorem bucketLine_counts (shown : Int → Bool) (rows : List Seen) (dimension : Dimension)
    (column : KeyColumn) :
    Counts shown rows column (bucketLine shown (.raw rows) dimension column) where
  registered := by
    rw [bucketLine, countIf_raw]
    refine List.countP_congr fun seen _ => ?_
    rw [decide_eq_true_iff, decide_eq_true_iff, key_dimension]
    exact guarded_free_iff
  unregistered := countIf_other shown rows column
  absent := by
    change countIf shown _ _ = _
    rw [countIf_raw]
    refine List.countP_congr fun seen _ => ?_
    rw [decide_eq_true_iff, decide_eq_true_iff, key_dimension]
    exact guarded_none_iff
  whole := by
    simp only [bucketLine, countIf_raw]
    exact countP_partition _ _
  distinct := by
    have same : ((shownRows shown rows).filter fun seen =>
          seen.key.dimension column ∉ sentinels).map (·.key.dimension column) =
        ((shownRows shown rows).filter fun seen => seen.value column ≠ "" ∧ seen.Allowed column ∧
          seen.value column ∉ sentinels).map (·.value column) := by
      have met (seen : Seen) : seen.key.dimension column ∉ sentinels ↔
          seen.value column ≠ "" ∧ seen.Allowed column ∧ seen.value column ∉ sentinels := by
        rw [key_dimension]
        exact guarded_free_iff
      simp only [met]
      refine List.map_congr_left fun seen member => ?_
      obtain ⟨present, allowed, -⟩ := of_decide_eq_true (List.mem_filter.mp member).2
      unfold Seen.Allowed at allowed
      rw [key_dimension, guarded, if_neg present, if_pos allowed]
    rw [← same]
    simp only [bucketLine, Source.raw, grouped_length, shownRows, List.filter_filter, Bool.and_comm]
    rfl

/-- Over any inserts and merges, the breakdown has the worst dimension first, each registered
dimension once, and on its line the rows shown, split in three without loss. -/
theorem buckets_exact {registry : Registry}
    (columns : ∀ d ∈ registry.dimensions, ∃ column : KeyColumn, column.name = d.column)
    {blocks : List Block} {table : Spans1m} (held : Holds Block.write blocks table)
    (shown : Int → Bool) :
    ∃ lines, bucketBreakdown shown registry (.rollup table) = .ok lines ∧
      lines.Pairwise (fun first second => second.unregistered ≤ first.unregistered) ∧
      (lines.map BucketLine.dimension).Perm (registry.dimensions.map Dimension.name) ∧
      ∀ d ∈ registry.dimensions, ∃ line ∈ lines, ∃ column : KeyColumn,
        line.dimension = d.name ∧ line.budget = d.budget ∧ column.name = d.column ∧
          Counts shown (blocks.flatMap seenRows) column line := by
  obtain ⟨dimensions, mapped, firsts, named⟩ := dimensionColumns_ok columns
  rw [rollup_eq_raw held]
  have sorted := List.perm_insertionSort
    (fun first second : BucketLine => second.unregistered ≤ first.unregistered)
    (dimensions.map fun entry => bucketLine shown (.raw (blocks.flatMap seenRows)) entry.1 entry.2)
  refine ⟨_, by rw [bucketBreakdown, mapped]; rfl, sorted_desc _ _, ?_, fun d member => ?_⟩
  · refine (sorted.map _).trans (List.Perm.of_eq ?_)
    rw [← firsts, List.map_map, List.map_map]
    rfl
  · rw [← firsts] at member
    obtain ⟨entry, among, rfl⟩ := List.mem_map.mp member
    exact ⟨_, sorted.mem_iff.mpr (List.mem_map_of_mem among), entry.2, rfl, rfl, named _ among,
      bucketLine_counts shown _ _ _⟩

/-- A tenant that was never registered, next to one that was. -/
def strayBlocks : List Block :=
  [⟨{("tenant_id", "a")}, [{ ts := 0, tenantId := "a" }, { ts := 1, tenantId := "b" }]⟩]

theorem buckets_exact_stray :
    ∃ lines, bucketBreakdown (fun _ => true) plainRegistry
        (.rollup (strayBlocks.flatMap Block.write)) = .ok lines ∧
      lines.Pairwise (fun first second => second.unregistered ≤ first.unregistered) ∧
      (lines.map BucketLine.dimension).Perm (plainRegistry.dimensions.map Dimension.name) ∧
      ∀ d ∈ plainRegistry.dimensions, ∃ line ∈ lines, ∃ column : KeyColumn,
        line.dimension = d.name ∧ line.budget = d.budget ∧ column.name = d.column ∧
          Counts (fun _ => true) (strayBlocks.flatMap seenRows) column line :=
  buckets_exact (by simp [plainRegistry, plainDimension]) (holds_append .empty strayBlocks) _

/-! ### The count and the list of unregistered values -/

/-- The rows shown whose value is the text of the sentinel, while the allowlist has it. -/
def disguised (shown : Int → Bool) (dictionary : Allowlist) (rows : List SpanRow)
    (entry : Dimension × KeyColumn) : ℕ :=
  rows.countP fun row => shown row.time ∧ row.dimension entry.2 = "__other__" ∧
    (entry.1.name, "__other__") ∈ dictionary

def strays (shown : Int → Bool) (dictionary : Allowlist) (rows : List SpanRow)
    (entry : Dimension × KeyColumn) : List SpanRow :=
  rows.filter fun row => shown row.time &&
    row.dimension entry.2 ≠ "" && (entry.1.name, row.dimension entry.2) ∉ dictionary

theorem seenRows_steady {dictionary : Allowlist} {blocks : List Block}
    (steady : ∀ block ∈ blocks, block.dictionary = dictionary) :
    blocks.flatMap seenRows = (blocks.flatMap Block.rows).map (Seen.mk dictionary) := by
  rw [List.map_flatMap]
  refine List.flatMap_congr fun block member => ?_
  rw [seenRows, steady block member]

/-- The rows shown that the guard replaces by the sentinel. -/
def marked (shown : Int → Bool) (dictionary : Allowlist) (rows : List SpanRow)
    (entry : Dimension × KeyColumn) : ℕ :=
  rows.countP fun row => shown row.time ∧ row.dimension entry.2 ≠ "" ∧
    ((entry.1.name, row.dimension entry.2) ∉ dictionary ∨ row.dimension entry.2 = "__other__")

theorem marked_eq (shown : Int → Bool) (dictionary : Allowlist) (rows : List SpanRow)
    (entry : Dimension × KeyColumn) : marked shown dictionary rows entry =
      (strays shown dictionary rows entry).length + disguised shown dictionary rows entry := by
  rw [marked, strays, disguised, ← List.countP_eq_length_filter]
  refine countP_cases (fun row _ => ?_) fun row _ stray => ?_
  · by_cases empty : row.dimension entry.2 = ""
    · simp [empty]
    · by_cases other : row.dimension entry.2 = "__other__"
      · by_cases allowed : (entry.1.name, "__other__") ∈ dictionary <;> simp [other, allowed]
      · simp [empty, other]
  · simp only [Bool.and_eq_true, decide_eq_true_eq] at stray
    refine decide_eq_false fun ⟨_, other, allowed⟩ => ?_
    rw [other] at stray
    exact stray.2 allowed

section
variable {shown : Int → Bool} {dictionary : Allowlist} {rows : List SpanRow}
  {entry : Dimension × KeyColumn}

theorem other_counted (named : entry.2.name = entry.1.name) :
    (countIf shown (.raw (rows.map (Seen.mk dictionary))) fun key =>
        key.dimension entry.2 = "__other__") =
      rows.countP fun row => shown (floorMinute row.time) ∧ row.dimension entry.2 ≠ "" ∧
        ((entry.1.name, row.dimension entry.2) ∉ dictionary ∨
          row.dimension entry.2 = "__other__") := by
  rw [countIf_other, shownRows, List.filter_map, List.countP_map, List.countP_filter]
  refine List.countP_congr fun row _ => ?_
  simp only [Function.comp_apply, Seen.Allowed, Seen.value, named, Bool.and_eq_true,
    decide_eq_true_eq]
  tauto

/-- What is red of a dimension is shown in the raw rows, where these are shown by the minute. -/
theorem other_le_marked (named : entry.2.name = entry.1.name)
    (covers : ∀ row ∈ rows, shown (floorMinute row.time) = true → shown row.time = true) :
    (countIf shown (.raw (rows.map (Seen.mk dictionary))) fun key =>
      key.dimension entry.2 = "__other__") ≤ marked shown dictionary rows entry := by
  rw [other_counted named]
  refine List.countP_mono_left fun row member counted => ?_
  rw [decide_eq_true_eq] at counted ⊢
  exact ⟨covers row member counted.1, counted.2⟩

theorem marked_le_other (named : entry.2.name = entry.1.name)
    (minutes : ∀ row ∈ rows, shown row.time = true → shown (floorMinute row.time) = true) :
    marked shown dictionary rows entry ≤
      countIf shown (.raw (rows.map (Seen.mk dictionary))) fun key =>
        key.dimension entry.2 = "__other__" := by
  rw [other_counted named]
  refine List.countP_mono_left fun row member counted => ?_
  rw [decide_eq_true_eq] at counted ⊢
  exact ⟨minutes row member counted.1, counted.2⟩

end

theorem sum_flatMap_groups {A B R : Type} (xs : List A) (label : A → B) (key : A → R → String)
    (rows : A → List R) :
    ((xs.flatMap fun x => (grouped (key x) List.length (rows x)).map fun line =>
      (label x, line)).map (·.2.2)).sum = (xs.map fun x => (rows x).length).sum := by
  induction xs with
  | nil => rfl
  | cons x rest ih =>
    rw [List.flatMap_cons, List.map_append, List.sum_append, ih, List.map_map, List.map_cons,
      List.sum_cons, ← grouped_length_sum (key x)]
    rfl

/-- The lines of `_unregistered_values_sql` for all dimensions, as they come. -/
def strayLines (shown : Int → Bool) (dictionary : Allowlist) (rows : List SpanRow)
    (dimensions : List (Dimension × KeyColumn)) : List (String × String × ℕ) :=
  dimensions.flatMap fun entry => (grouped (·.dimension entry.2) List.length
    (strays shown dictionary rows entry)).map fun line => (entry.1.name, line)

theorem mem_strayLines {shown : Int → Bool} {dictionary : Allowlist} {rows : List SpanRow}
    {dimensions : List (Dimension × KeyColumn)} {name value : String} {count : ℕ}
    (member : (name, value, count) ∈ strayLines shown dictionary rows dimensions) :
    (name, value) ∉ dictionary ∧ 0 < count := by
  rw [strayLines, List.mem_flatMap] at member
  obtain ⟨entry, _, member⟩ := member
  obtain ⟨line, member, same⟩ := List.mem_map.mp member
  obtain ⟨rfl, rfl⟩ := Prod.mk.inj same
  obtain ⟨occurs, size⟩ := mem_grouped.mp member
  obtain ⟨row, among, rfl⟩ := List.mem_map.mp occurs
  refine ⟨?_, ?_⟩
  · have met := (List.mem_filter.mp among).2
    simp only [Bool.and_eq_true, decide_eq_true_eq] at met
    exact met.2
  · rw [← size]
    exact List.length_pos_of_mem (List.mem_filter.mpr ⟨among, decide_eq_true rfl⟩)

/-- The lines and the disguised rows add up to what the guard replaces. -/
theorem strayLines_sum (shown : Int → Bool) (dictionary : Allowlist) (rows : List SpanRow)
    (dimensions : List (Dimension × KeyColumn)) :
    ((strayLines shown dictionary rows dimensions).map (·.2.2)).sum +
        (dimensions.map (disguised shown dictionary rows)).sum =
      (dimensions.map (marked shown dictionary rows)).sum := by
  rw [strayLines, sum_flatMap_groups dimensions (fun entry => entry.1.name)
    (fun entry => (·.dimension entry.2)) (strays shown dictionary rows), ← List.sum_map_add]
  exact congrArg List.sum (List.map_congr_left fun entry _ => (marked_eq _ _ _ entry).symm)

end TelemetryEngine.Dashboards
