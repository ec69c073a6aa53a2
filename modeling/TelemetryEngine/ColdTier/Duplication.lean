import TelemetryEngine.Foundation.RowNumber
import TelemetryEngine.ColdTier.Query
import TelemetryEngine.ColdTier.Sorting

/-! The views `spans` and `spans_deduped` of `coldtier/query.py`, and the report of how far
they differ. What identifies a span for both is its `span_id`. -/
namespace TelemetryEngine.ColdTier
open Foundation.RowNumber

/-- The view `spans`. Over a lake without files it is a view of the column `ts` only, and
here `none`. -/
def spansView (files : AList fun _ : Path => LakeFile) : Except LakeError (Option (List SpanRow)) := do
  let read ← (lakeTree files).openLake true
  return if read.isEmpty then none else some (read.flatMap (rowsOf files))

/-- The view `spans_deduped`. DuckDB orders each partition by `ts`. -/
def spansDeduped (engine : PartitionOrder SpanRow.ts) (spans : List SpanRow) : List SpanRow :=
  firsts engine SpanRow.spanId spans

structure DuplicationReport where
  rows : ℕ
  distinctSpans : ℕ
  deriving DecidableEq, Repr

def DuplicationReport.duplicates (report : DuplicationReport) : Int :=
  report.rows - report.distinctSpans

inductive DuplicationError where
  | lake (error : LakeError)
  /-- The empty view has no column `span_id`. -/
  | binder
  deriving DecidableEq, Repr

/-- Measure at-least-once redelivery in the lake. -/
def duplication (files : AList fun _ : Path => LakeFile) :
    Except DuplicationError DuplicationReport := do
  match ← (spansView files).mapError .lake with
  | none => throw .binder
  | some rows => return ⟨rows.length, (rows.map SpanRow.spanId).dedup.length⟩

/-- One row for each `span_id`, of the earliest, and the others counted. -/
structure Deduplicates (rows deduped : List SpanRow) (report : DuplicationReport) : Prop where
  one : ∀ spanId, deduped.countP (·.spanId = spanId) =
    if spanId ∈ rows.map SpanRow.spanId then 1 else 0
  occurs : deduped ⊆ rows
  earliest : ∀ row ∈ deduped, ∀ other ∈ rows, other.spanId = row.spanId → row.ts ≤ other.ts
  counted : deduped.length = report.distinctSpans
  /-- The duplicates are the rows beyond the first of each `span_id`. -/
  redelivered : report.duplicates = ((rows.map SpanRow.spanId).dedup.map fun spanId =>
    (rows.map SpanRow.spanId).count spanId - 1).sum

def OnePerPair (rows deduped : List SpanRow) : Prop :=
  ∀ traceId spanId, deduped.countP (fun row => row.traceId = traceId ∧ row.spanId = spanId) =
    if ∃ row ∈ rows, row.traceId = traceId ∧ row.spanId = spanId then 1 else 0

variable {files : AList fun _ : Path => LakeFile} {rows : List SpanRow}

theorem duplication_eq (opened : spansView files = .ok (some rows)) :
    duplication files = .ok ⟨rows.length, (rows.map SpanRow.spanId).dedup.length⟩ := by
  rw [duplication, opened]
  rfl

theorem spansDeduped_deduplicates (engine : PartitionOrder SpanRow.ts) (rows : List SpanRow) :
    Deduplicates rows (spansDeduped engine rows)
      ⟨rows.length, (rows.map SpanRow.spanId).dedup.length⟩ where
  one spanId := firsts_count engine SpanRow.spanId rows spanId
  occurs row member := (mem_firsts.mp member).1
  earliest row member := firsts_least member
  counted := by
    rw [← firsts_keys engine SpanRow.spanId rows, List.length_map]
    rfl
  redelivered := by
    have fewer := (rows.map SpanRow.spanId).dedup_sublist.length_le
    rw [← length_sub_distinct, DuplicationReport.duplicates, Nat.cast_sub fewer, List.length_map]

theorem spansDeduped_inj {engine : PartitionOrder SpanRow.ts} {r s : SpanRow}
    (first : r ∈ spansDeduped engine rows) (second : s ∈ spansDeduped engine rows)
    (same : r.spanId = s.spanId) : r = s := by
  have distinct : ((spansDeduped engine rows).map SpanRow.spanId).Nodup :=
    (firsts_keys engine SpanRow.spanId rows).symm ▸ List.nodup_dedup _
  exact List.inj_on_of_nodup_map distinct first second same

theorem onePerPair_iff (engine : PartitionOrder SpanRow.ts) (rows : List SpanRow) :
    OnePerPair rows (spansDeduped engine rows) ↔
      ∀ r ∈ rows, ∀ s ∈ rows, r.spanId = s.spanId → r.traceId = s.traceId := by
  constructor
  · intro pairs r first s second same
    have kept (row : SpanRow) (member : row ∈ rows) :
        ∃ copy ∈ spansDeduped engine rows, copy.traceId = row.traceId ∧ copy.spanId = row.spanId := by
      have one := pairs row.traceId row.spanId
      rw [if_pos ⟨row, member, rfl, rfl⟩] at one
      obtain ⟨copy, inside, matching⟩ := List.countP_pos_iff.mp (one.symm ▸ Nat.one_pos)
      exact ⟨copy, inside, of_decide_eq_true matching⟩
    obtain ⟨r', inside, trace, span⟩ := kept r first
    obtain ⟨s', inside', trace', span'⟩ := kept s second
    obtain rfl := spansDeduped_inj inside inside' (span.trans (same.trans span'.symm))
    exact trace.symm.trans trace'
  · intro determined traceId spanId
    split
    case isTrue occurs =>
      obtain ⟨row, member, rfl, rfl⟩ := occurs
      have one := firsts_count engine SpanRow.spanId rows row.spanId
      rw [if_pos (List.mem_map_of_mem member)] at one
      rw [← one]
      refine List.countP_congr fun other inside => ?_
      have from_rows := (mem_firsts.mp inside).1
      simpa using determined other from_rows row member
    case isFalse absent =>
      rw [List.countP_eq_zero]
      intro row inside matching
      exact absent ⟨row, (mem_firsts.mp inside).1, by simpa using matching⟩

/-- Whatever order DuckDB gives the rows of one `ts`, the deduplicated view of a lake with
files has one row for each `span_id`. For each pair with a `trace_id` it has one exactly
where no `span_id` is in two traces. -/
theorem deduped_once (files : AList fun _ : Path => LakeFile) (engine : PartitionOrder SpanRow.ts)
    (opened : spansView files = .ok (some rows)) :
    ∃ report, duplication files = .ok report ∧
      Deduplicates rows (spansDeduped engine rows) report ∧
      (OnePerPair rows (spansDeduped engine rows) ↔
        ∀ r ∈ rows, ∀ s ∈ rows, r.spanId = s.spanId → r.traceId = s.traceId) :=
  ⟨_, duplication_eq opened, spansDeduped_deduplicates engine rows, onePerPair_iff engine rows⟩

/-- A span and its redelivery. -/
theorem deduped_once_redelivered :
    let rows : List SpanRow :=
      [{ ts := 0, traceId := "t", spanId := "s" }, { ts := 0, traceId := "t", spanId := "s" }]
    let engine := PartitionOrder.stable SpanRow.ts
    ∃ report, duplication (oneFile rows) = .ok report ∧
      Deduplicates rows (spansDeduped engine rows) report ∧
      (OnePerPair rows (spansDeduped engine rows) ↔
        ∀ r ∈ rows, ∀ s ∈ rows, r.spanId = s.spanId → r.traceId = s.traceId) :=
  deduped_once _ _ (by decide +kernel)

/-- Two malformed spans of two traces, both without a `span_id`: one of them is dropped, and
counted as a redelivery. -/
theorem deduped_drops_span :
    let rows : List SpanRow := [{ ts := 0, traceId := "t" }, { ts := 1, traceId := "u" }]
    let engine := PartitionOrder.stable SpanRow.ts
    spansView (oneFile rows) = .ok (some rows) ∧
      spansDeduped engine rows = [{ ts := 0, traceId := "t" }] ∧
      duplication (oneFile rows) = .ok ⟨2, 1⟩ ∧
      ¬ OnePerPair rows (spansDeduped engine rows) := by
  intro rows engine
  have kept : spansDeduped engine rows = [{ ts := 0, traceId := "t" }] := by decide +kernel
  refine ⟨by decide +kernel, kept, by decide +kernel, fun pairs => ?_⟩
  have dropped := pairs "u" ""
  rw [kept] at dropped
  revert dropped
  decide

end TelemetryEngine.ColdTier
