import TelemetryEngine.Rollup.Completion

/-! The backfill's aggregation against the view's. The two queries are written out
twice and are the same; the rows they meet are the same when the ends of the
window survive their way to the server. -/
namespace TelemetryEngine.Rollup
open Cardinality Foundation Foundation.MergingTable Foundation.Tiling

def backfillKey (dictionary : Allowlist) (row : SpanRow) : RollupKey where
  tsMinute := Calendar.floorMinute row.time
  tenantId := guarded dictionary "tenant_id" row.tenantId
  tenantTier := guarded dictionary "tenant_tier" row.tenantTier
  model := guarded dictionary "model" row.model
  operation := guarded dictionary "operation" row.operation
  route := guarded dictionary "route" row.route
  region := guarded dictionary "region" row.region
  statusClass := guarded dictionary "status_class" row.statusClass

def backfillState (dictionary : Allowlist) (row : SpanRow) : RollupState where
  spans := 1
  traces := {row.traceId}
  inputTokens := row.inputTokens.toUInt64
  outputTokens := row.outputTokens.toUInt64
  cachedTokens := row.cachedPromptTokens.toUInt64
  ttft := if 0 < row.ttftMs then {row.ttftMs} else 0
  duration := if 0 < row.durationMs then {row.durationMs} else 0
  itlAvg := meanIfPositive row.itlMs
  queueTimeAvg := meanIfPositive row.queueTimeMs
  kvCacheAvg := meanIfPositive row.kvCacheUtilization
  kvCacheMax := row.kvCacheUtilization
  errors := if (backfillKey dictionary row).statusClass ≠ "ok" then 1 else 0

/-- `_BACKFILL_SQL` for one chunk. -/
def backfillSql (server : Server) (dictionary : Allowlist) (raw : List SpanRow) (chunk : Chunk) :
    Spans1m :=
  group (backfillKey dictionary) (backfillState dictionary)
    (raw.filter (server.between chunk.start chunk.stop))

/-- `start <= ts < end`. -/
def inWindow (start stop : Int) (row : SpanRow) : Bool := start ≤ row.time && row.time < stop

theorem inWindow_iff {start stop : Int} {row : SpanRow} :
    inWindow start stop row = true ↔ start ≤ row.time ∧ row.time < stop := by
  simp only [inWindow, Bool.and_eq_true, decide_eq_true_eq]

/-- The backfill of `[start, stop)` leaves what the view leaves when it meets the rows
of the window, in any blocks; `before` is what was inserted earlier. -/
structure BackfillAgrees (server : Server) (dictionary : Allowlist) (raw : List SpanRow)
    (start stop : Int) : Prop where
  tiles : Tiles Chunk.start Chunk.stop (backfill server raw start stop).trace start stop
  returned : (backfill server raw start stop).outcome = .ok (raw.countP (inWindow start stop))
  merged : ∀ (before : List Spans1m) (blocks : List (List SpanRow)),
    blocks.flatten.Perm (raw.filter (inWindow start stop)) → ∀ backfilled viewed,
      Holds id (before ++ (backfill server raw start stop).trace.map
        (backfillSql server dictionary raw)) backfilled →
      Holds id (before ++ blocks.map (mvSpans1m dictionary)) viewed →
      ∀ key, total (· = key) backfilled = total (· = key) viewed

variable {server : Server} {start stop : Int}

theorem backfillSql_eq (server : Server) (dictionary : Allowlist) (raw : List SpanRow)
    (chunk : Chunk) : backfillSql server dictionary raw chunk =
      mvSpans1m dictionary (raw.filter (server.between chunk.start chunk.stop)) := rfl

theorem backfill_trace (server : Server) (raw : List SpanRow) (proper : start < stop) :
    Tiles Chunk.start Chunk.stop (backfill server raw start stop).trace start stop := by
  rw [backfill, if_neg proper.not_ge]
  exact chunkLoop_tiles le_rfl proper.le

theorem backfill_outcome (server : Server) (raw : List SpanRow) (proper : start < stop) :
    (backfill server raw start stop).outcome = .ok (raw.countP (server.between start stop)) := by
  rw [backfill, if_neg proper.not_ge]

theorem backfill_total (server : Server) (dictionary : Allowlist) (raw : List SpanRow)
    (proper : start < stop) (selected : RollupKey → Bool) :
    ((backfill server raw start stop).trace.map fun chunk =>
        total selected (backfillSql server dictionary raw chunk)).sum =
      (((raw.filter (server.between start stop)).filter
        fun row => selected (rollupKey dictionary row)).map (rollupState dictionary)).sum := by
  have blocks (rows : Chunk → List SpanRow) (chunks : List Chunk) :
      (chunks.map fun chunk => total selected (mvSpans1m dictionary (rows chunk))).sum =
        (((chunks.map rows).flatten.filter fun row => selected (rollupKey dictionary row)).map
          (rollupState dictionary)).sum := by
    rw [← total_groups, List.map_map]
    rfl
  simp only [backfillSql_eq]
  refine (blocks _ _).trans (((List.Perm.filter _ ?_).map _).sum_eq)
  rw [← List.flatMap_def]
  exact chunks_select (backfill_trace server raw proper)

/-- A backfill agrees with the view on every content of the tables exactly when its
bounds, as they are compared, select the milliseconds of its window. -/
theorem backfill_agrees_iff (server : Server) {start stop : Int} (proper : start < stop) :
    (∀ dictionary raw, BackfillAgrees server dictionary raw start stop) ↔
      ∀ ts : Nat, server.bind start ≤ ts * 1000 ∧ ts * 1000 < server.bind stop ↔
        start ≤ ts * 1000 ∧ ts * 1000 < stop := by
  constructor
  · intro agrees ts
    have returned := (agrees ∅ [{ ts }]).returned
    rw [backfill_outcome server _ proper] at returned
    have same := Except.ok.inj returned
    simp only [List.countP_singleton, Server.between_iff, inWindow_iff, SpanRow.time] at same
    split_ifs at same with bound window window
    · exact iff_of_true bound window
    · exact iff_of_false bound window
  · intro exact_ dictionary raw
    have selects : server.between start stop = inWindow start stop := by
      funext row
      rw [Bool.eq_iff_iff, Server.between_iff, inWindow_iff]
      exact exact_ row.ts
    refine ⟨backfill_trace server raw proper, ?_, ?_⟩
    · rw [backfill_outcome server raw proper, selects]
    · intro before blocks parts backfilled viewed inserted viewed' key
      rw [holds_total inserted, holds_total viewed', List.map_append, List.map_append,
        List.sum_append, List.sum_append, List.map_map, List.map_map]
      have chunks := backfill_total server dictionary raw proper (· = key)
      have inserts : (blocks.map fun block => total (· = key) (mvSpans1m dictionary block)).sum = _ :=
        total_groups (rollupKey dictionary) (rollupState dictionary) blocks
      rw [selects, ← ((parts.filter _).map _).sum_eq] at chunks
      exact congrArg _ (chunks.trans inserts.symm)

/-- An hour on the hour. -/
theorem backfill_agrees_hour :
    BackfillAgrees .deployed ∅ [{ ts := 200 }, { ts := 3600000 }] 3600000000 7200000000 :=
  (backfill_agrees_iff .deployed (by decide)).mpr (fun _ => Iff.rfl) ∅ _

/-- From half a second past the epoch on: a span of the first half is aggregated. -/
theorem backfill_disagrees :
    ¬ BackfillAgrees .deployed ∅ [{ ts := 200 }] 500000 3600000000 := fun agrees =>
  absurd agrees.returned (by decide +kernel)

end TelemetryEngine.Rollup
