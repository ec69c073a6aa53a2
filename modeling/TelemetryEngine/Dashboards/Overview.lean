import Mathlib.Data.Rat.Floor
import TelemetryEngine.Dashboards.Source

/-! The overview dashboard of `dashboards.py`. It reads `spans_1m` throughout, and shows what
the same queries over `spans_raw` would show. A quantile of a t-digest depends on the order in
which it took its values in and was merged: the panels of such quantiles have the values here. -/
namespace TelemetryEngine.Dashboards
open Cardinality Rollup Foundation.Calendar Foundation.Grouping Foundation.MergingTable

/-- Functions of ClickHouse whose results approximate or round. -/
structure Sketches where
  uniq : Finset String → ℕ
  round : ℕ → ℚ → ℚ

/-- What they approximate. -/
def exactSketches : Sketches where
  uniq := Finset.card
  round digits x := round (x * 10 ^ digits) / 10 ^ digits

def sentinels : List String := ["__other__", "__none__"]

/-- `countIfMerge(errors) / nullIf(countMerge(spans), 0)` -/
def errorRate (state : RollupState) : Option ℚ :=
  if state.spans = 0 then none else some (state.errors / state.spans)

def average (state : ℚ × ℕ) : Option ℚ := if state.2 = 0 then none else some (state.1 / state.2)

def maximum (state : WithBot ℚ) : ℚ := state.unbotD 0

structure TenantLine where
  /-- `any(tenant_tier)` shows one of them. -/
  tiers : List String
  spanCount : ℕ
  traceCount : ℕ
  outputTokens : UInt64
  /-- The values that the digest of `ttft p95` took in. -/
  ttft : Multiset ℚ
  errorRate : Option ℚ
  deriving DecidableEq

/-- The panels that read `spans_1m`, by their queries. -/
structure Overview where
  spansPerSec : ℚ
  traces : ℕ
  outputTokensPerSec : ℚ
  errorRate : Option ℚ
  kvCacheMax : ℚ
  activeTenants : ℕ
  tokenThroughput : List (Int × UInt64 × UInt64)
  timeToFirstToken : List (Int × Multiset ℚ)
  ttftByModel : List ((Int ×ₗ String) × Multiset ℚ)
  kvCache : List (Int × Option ℚ × ℚ)
  topTenants : List (String × TenantLine)
  errorsByClass : List ((Int ×ₗ String) × ℕ)

section
variable (sketches : Sketches)

def tenantLine (tiers : List String) (state : RollupState) : TenantLine where
  tiers
  spanCount := state.spans
  traceCount := sketches.uniq state.traces
  outputTokens := state.outputTokens
  ttft := state.ttft
  errorRate := (errorRate state).map (sketches.round 4)

/-- `build_overview`, over the minutes the time filter shows. Rows that `ORDER BY` leaves in
any order are here in the order of their keys. -/
def overview (shown : Int → Bool) (source : Source) : Overview :=
  let window := fun key : RollupKey => shown key.tsMinute
  let all := source.whole window
  let tiers := fun tenantId => (source.by_ (fun key => window key && key.tenantId = tenantId)
    RollupKey.tenantTier fun _ => ()).map Prod.fst
  { spansPerSec := all.spans / 60
    traces := sketches.uniq all.traces
    outputTokensPerSec := all.outputTokens.toNat / 60
    errorRate := errorRate all
    kvCacheMax := maximum all.kvCacheMax
    activeTenants := (source.by_ (fun key => window key && key.tenantId ∉ sentinels)
      RollupKey.tenantId fun _ => ()).length
    tokenThroughput := source.by_ window RollupKey.tsMinute fun state =>
      (state.inputTokens, state.outputTokens)
    timeToFirstToken := source.by_ window RollupKey.tsMinute RollupState.ttft
    ttftByModel := source.by_ (fun key => window key && key.model ≠ "__none__")
      (fun key => toLex (key.tsMinute, key.model)) RollupState.ttft
    kvCache := source.by_ window RollupKey.tsMinute fun state =>
      (average state.kvCacheAvg, maximum state.kvCacheMax)
    topTenants := (((source.by_ window RollupKey.tenantId id).map fun (tenantId, state) =>
      (tenantId, tenantLine sketches (tiers tenantId) state)).insertionSort
        fun first second => second.2.spanCount ≤ first.2.spanCount).take 20
    errorsByClass := source.by_ (fun key => window key && key.statusClass ≠ "ok")
      (fun key => toLex (key.tsMinute, key.statusClass)) RollupState.spans }

end

/-- Two spans of one minute, of a tenant that the second insert finds registered. -/
def twoInserts : List Block :=
  [⟨∅, [{ ts := 0, tenantId := "a", statusClass := "ok" }]⟩,
    ⟨{("tenant_id", "a")}, [{ ts := 1, tenantId := "a", statusClass := "ok" }]⟩]

/-- A state but for its errors, the only aggregate that depends on a guarded column. -/
def plain (state : RollupState) : RollupState := { state with errors := 0 }

/-- What rows add up to, whatever the dictionary was. -/
def plainState (rows : List SpanRow) : RollupState := plain (rawState (rows.map (Seen.mk ∅)))

theorem plain_rawState (rows : List Seen) :
    plain (rawState rows) = plainState (rows.map Seen.row) := by
  simp only [plainState, plain, rawState, List.map_map, Function.comp_def, List.length_map]

section
variable (rows : List SpanRow)

@[simp] theorem plainState_spans : (plainState rows).spans = rows.length := List.length_map _

@[simp] theorem plainState_traces :
    (plainState rows).traces = (rows.map SpanRow.traceId).toFinset := by
  simp only [plainState, plain, rawState, List.map_map, Function.comp_def]

@[simp] theorem plainState_inputTokens :
    (plainState rows).inputTokens = (rows.map (·.inputTokens.toUInt64)).sum := by
  simp only [plainState, plain, rawState, List.map_map, Function.comp_def]

@[simp] theorem plainState_outputTokens :
    (plainState rows).outputTokens = (rows.map (·.outputTokens.toUInt64)).sum := by
  simp only [plainState, plain, rawState, List.map_map, Function.comp_def]

end

theorem plainState_perm {rows others : List SpanRow} (perm : rows.Perm others) :
    plainState rows = plainState others := by
  rw [plainState, plainState, ← sum_states, ← sum_states, ((perm.map _).map _).sum_eq]

variable {rows others : List Seen} {shown : Int → Bool}

theorem filter_shown (rows : List Seen) :
    (rows.filter fun seen => shown seen.key.tsMinute).map Seen.row =
      (rows.map Seen.row).filter fun row => shown (floorMinute row.time) := by
  rw [List.filter_map]
  rfl

/-- What a panel over all of the window reads, but for errors. -/
theorem whole_rows (rows : List Seen) :
    plain ((Source.raw rows).whole fun key => shown key.tsMinute) =
      plainState ((rows.map Seen.row).filter fun row => shown (floorMinute row.time)) := by
  rw [Source.raw, plain_rawState, filter_shown]

/-- What a panel by the minute reads, but for errors. -/
theorem by_rows {A : Type} {read : RollupState → A}
    (blind : ∀ state, read state = read (plain state)) (rows : List Seen) :
    (Source.raw rows).by_ (fun key => shown key.tsMinute) RollupKey.tsMinute read =
      grouped (fun row => floorMinute row.time) (fun group => read (plainState group))
        ((rows.map Seen.row).filter fun row => shown (floorMinute row.time)) := by
  have same : (fun group : List Seen => read (rawState group)) =
      fun group => read (plainState (group.map Seen.row)) :=
    funext fun group => by rw [blind, plain_rawState]
  rw [← filter_shown, grouped_map, ← same]
  rfl

theorem whole_plain (perm : (rows.map Seen.row).Perm (others.map Seen.row)) :
    plain ((Source.raw rows).whole fun key => shown key.tsMinute) =
      plain ((Source.raw others).whole fun key => shown key.tsMinute) := by
  rw [whole_rows, whole_rows, plainState_perm (perm.filter _)]

theorem by_plain {A : Type} (read : RollupState → A)
    (blind : ∀ state, read state = read (plain state))
    (perm : (rows.map Seen.row).Perm (others.map Seen.row)) :
    (Source.raw rows).by_ (fun key => shown key.tsMinute) RollupKey.tsMinute read =
      (Source.raw others).by_ (fun key => shown key.tsMinute) RollupKey.tsMinute read := by
  rw [by_rows blind, by_rows blind]
  refine grouped_perm (fun xs ys same => ?_) (perm.filter _)
  rw [plainState_perm same]

/-- Two overviews that show the same of everything but the dimensions. -/
structure SameUndimensioned (first second : Overview) : Prop where
  spansPerSec : first.spansPerSec = second.spansPerSec
  traces : first.traces = second.traces
  outputTokensPerSec : first.outputTokensPerSec = second.outputTokensPerSec
  kvCacheMax : first.kvCacheMax = second.kvCacheMax
  tokenThroughput : first.tokenThroughput = second.tokenThroughput
  timeToFirstToken : first.timeToFirstToken = second.timeToFirstToken
  kvCache : first.kvCache = second.kvCache

/-- The same two spans in one insert, before the first sync. -/
def atOnce : List Block := [⟨∅, (twoInserts.flatMap Block.rows).reverse⟩]

end TelemetryEngine.Dashboards
