import Mathlib.Data.List.MinMax
import TelemetryEngine.Foundation.Grouping
import TelemetryEngine.Rollup.Totals

/-! What the panels over `spans_1m` read: merged states of the keys a condition selects, all
at once or by a column. The same can be asked of the raw rows; a panel cannot tell them
apart. -/
namespace TelemetryEngine.Dashboards
open Cardinality Rollup Foundation.Grouping Foundation.MergingTable

/-- The queries of `dashboards.py` over `spans_1m`. -/
structure Source where
  /-- `SELECT f(-Merge) WHERE selected` -/
  whole : (selected : RollupKey → Bool) → RollupState
  /-- `SELECT column, f(-Merge) WHERE selected GROUP BY column ORDER BY column` -/
  by_ : {K A : Type} → [LinearOrder K] → (selected : RollupKey → Bool) → (column : RollupKey → K) →
    (read : RollupState → A) → List (K × A)

def Source.rollup (table : Spans1m) : Source where
  whole selected := total selected table
  by_ selected column read := panel selected column read table

/-- A row of `spans_raw`, with the dictionary that its insert met. -/
structure Seen where
  dictionary : Allowlist
  row : SpanRow

def Seen.key (seen : Seen) : RollupKey := rollupKey seen.dictionary seen.row

def seenRows (block : Block) : List Seen := block.rows.map fun row => ⟨block.dictionary, row⟩

theorem seenRows_row (blocks : List Block) :
    (blocks.flatMap seenRows).map Seen.row = blocks.flatMap Block.rows := by
  simp only [List.map_flatMap, seenRows, List.map_map, Function.comp_def, List.map_id']

/-- The values above zero, as their sum and count. -/
def meanOf (values : List ℚ) : ℚ × ℕ := ((values.filter (0 < ·)).sum, (values.filter (0 < ·)).length)

/-- The aggregates of `spans_1m`, computed from raw rows. -/
def rawState (rows : List Seen) : RollupState where
  spans := rows.length
  traces := (rows.map (·.row.traceId)).toFinset
  inputTokens := (rows.map (·.row.inputTokens.toUInt64)).sum
  outputTokens := (rows.map (·.row.outputTokens.toUInt64)).sum
  cachedTokens := (rows.map (·.row.cachedPromptTokens.toUInt64)).sum
  ttft := ((rows.map (·.row.ttftMs)).filter (0 < ·) : List ℚ)
  duration := ((rows.map (·.row.durationMs)).filter (0 < ·) : List ℚ)
  itlAvg := meanOf (rows.map (·.row.itlMs))
  queueTimeAvg := meanOf (rows.map (·.row.queueTimeMs))
  kvCacheAvg := meanOf (rows.map (·.row.kvCacheUtilization))
  kvCacheMax := (rows.map (·.row.kvCacheUtilization)).maximum
  errors := rows.countP fun seen => seen.key.statusClass ≠ "ok"

def Source.raw (rows : List Seen) : Source where
  whole selected := rawState (rows.filter fun seen => selected seen.key)
  by_ selected column read := grouped (fun seen => column seen.key)
    (fun group => read (rawState group)) (rows.filter fun seen => selected seen.key)

theorem meanOf_cons (x : ℚ) (rest : List ℚ) :
    meanOf (x :: rest) = meanIfPositive x + meanOf rest := by
  by_cases positive : 0 < x
  · simp [meanOf, meanIfPositive, positive, Nat.add_comm]
  · simp [meanOf, meanIfPositive, positive]

theorem filter_cons_multiset (x : ℚ) (rest : List ℚ) :
    (((x :: rest).filter (0 < ·) : List ℚ) : Multiset ℚ) =
      (if 0 < x then {x} else 0) + ((rest.filter (0 < ·) : List ℚ) : Multiset ℚ) := by
  by_cases positive : 0 < x
  · simp [positive]
  · simp [positive]

theorem sum_states (rows : List Seen) :
    (rows.map fun seen => rollupState seen.dictionary seen.row).sum = rawState rows := by
  induction rows with
  | nil => rfl
  | cons seen rest ih =>
    rw [List.map_cons, List.sum_cons, ih]
    ext1
    · exact Nat.add_comm _ _
    · change {seen.row.traceId} ∪ (rawState rest).traces = (rawState (seen :: rest)).traces
      simp [rawState]
    · rfl
    · rfl
    · rfl
    · exact (filter_cons_multiset _ _).symm
    · exact (filter_cons_multiset _ _).symm
    · exact (meanOf_cons _ _).symm
    · exact (meanOf_cons _ _).symm
    · exact (meanOf_cons _ _).symm
    · exact (List.maximum_cons _ _).symm
    · change (if seen.key.statusClass ≠ "ok" then 1 else 0) + (rawState rest).errors =
        (rawState (seen :: rest)).errors
      simp only [rawState, List.countP_cons, decide_eq_true_eq, Nat.add_comm]

theorem seenRows_entries (blocks : List Block) :
    blocks.flatMap (entries (fun block => rollupKey block.dictionary)
      (fun block => rollupState block.dictionary) Block.rows) =
    (blocks.flatMap seenRows).map fun seen => (seen.key, rollupState seen.dictionary seen.row) := by
  rw [List.map_flatMap]
  refine List.flatMap_congr fun block _ => ?_
  rw [entries, seenRows, List.map_map]
  rfl

/-- Whatever the blocks and the merges were, the rollup answers as the raw rows do. -/
theorem rollup_eq_raw {blocks : List Block} {table : Spans1m}
    (held : Holds Block.write blocks table) :
    Source.rollup table = Source.raw (blocks.flatMap seenRows) := by
  have held : Holds (fun block : Block => group (rollupKey block.dictionary)
    (rollupState block.dictionary) block.rows) blocks table := held
  have whole (selected : RollupKey → Bool) : total selected table =
      rawState ((blocks.flatMap seenRows).filter fun seen => selected seen.key) := by
    rw [holds_entries held, seenRows_entries, total, List.filter_map, List.map_map, ← sum_states]
    rfl
  rw [Source.rollup, Source.raw]
  congr
  · exact funext whole
  · funext K A _ selected column read
    rw [holds_panel held, seenRows_entries, panel, List.filter_map, grouped_map]
    refine grouped_congr (fun _ => Iff.rfl) fun k _ => ?_
    rw [List.map_map, ← sum_states]
    rfl

end TelemetryEngine.Dashboards
