import Mathlib.Algebra.Order.Monoid.Unbundled.WithTop
import Mathlib.Algebra.BigOperators.Group.Multiset.Defs
import Mathlib.Algebra.Group.Prod
import TelemetryEngine.Cardinality.Guard
import TelemetryEngine.Foundation.MergingTable

/-! The view `mv_spans_1m` and the table `spans_1m` it writes. Aggregate states
are held exactly: `uniq` as the set it counts, a t-digest as the values it
sketches, an average as its sum and count. The sum of an average is that of the
rationals, where the engine adds doubles. -/
namespace TelemetryEngine.Rollup
open Cardinality Foundation Foundation.Calendar Foundation.MergingTable

structure RollupKey where
  tsMinute : Int
  tenantId : String
  tenantTier : String
  model : String
  operation : String
  route : String
  region : String
  statusClass : String
  deriving DecidableEq, Repr

def RollupKey.dimension (key : RollupKey) : KeyColumn → String
  | .tenantId => key.tenantId
  | .tenantTier => key.tenantTier
  | .model => key.model
  | .operation => key.operation
  | .route => key.route
  | .region => key.region
  | .statusClass => key.statusClass

@[ext] structure RollupState where
  spans : Nat
  traces : Finset String
  inputTokens : UInt64
  outputTokens : UInt64
  cachedTokens : UInt64
  ttft : Multiset ℚ
  duration : Multiset ℚ
  itlAvg : ℚ × Nat
  queueTimeAvg : ℚ × Nat
  kvCacheAvg : ℚ × Nat
  kvCacheMax : WithBot ℚ
  errors : Nat

namespace RollupState

instance : Zero RollupState := ⟨⟨0, ∅, 0, 0, 0, 0, 0, 0, 0, 0, ⊥, 0⟩⟩

/-- `-Merge`. -/
instance : Add RollupState where
  add a b := {
    spans := a.spans + b.spans
    traces := a.traces ∪ b.traces
    inputTokens := a.inputTokens + b.inputTokens
    outputTokens := a.outputTokens + b.outputTokens
    cachedTokens := a.cachedTokens + b.cachedTokens
    ttft := a.ttft + b.ttft
    duration := a.duration + b.duration
    itlAvg := a.itlAvg + b.itlAvg
    queueTimeAvg := a.queueTimeAvg + b.queueTimeAvg
    kvCacheAvg := a.kvCacheAvg + b.kvCacheAvg
    kvCacheMax := max a.kvCacheMax b.kvCacheMax
    errors := a.errors + b.errors }

theorem merge_assoc (a b c : RollupState) : a + b + c = a + (b + c) := by
  ext1
  · exact Nat.add_assoc _ _ _
  · exact Finset.union_assoc _ _ _
  · exact UInt64.add_assoc _ _ _
  · exact UInt64.add_assoc _ _ _
  · exact UInt64.add_assoc _ _ _
  · exact add_assoc a.ttft b.ttft c.ttft
  · exact add_assoc a.duration b.duration c.duration
  · exact add_assoc a.itlAvg b.itlAvg c.itlAvg
  · exact add_assoc a.queueTimeAvg b.queueTimeAvg c.queueTimeAvg
  · exact add_assoc a.kvCacheAvg b.kvCacheAvg c.kvCacheAvg
  · exact max_assoc _ _ _
  · exact Nat.add_assoc _ _ _

theorem merge_comm (a b : RollupState) : a + b = b + a := by
  ext1
  · exact Nat.add_comm _ _
  · exact Finset.union_comm _ _
  · exact UInt64.add_comm _ _
  · exact UInt64.add_comm _ _
  · exact UInt64.add_comm _ _
  · exact add_comm a.ttft b.ttft
  · exact add_comm a.duration b.duration
  · exact add_comm a.itlAvg b.itlAvg
  · exact add_comm a.queueTimeAvg b.queueTimeAvg
  · exact add_comm a.kvCacheAvg b.kvCacheAvg
  · exact max_comm _ _
  · exact Nat.add_comm _ _

theorem zero_merge (a : RollupState) : 0 + a = a := by
  ext1
  · exact Nat.zero_add _
  · exact Finset.empty_union _
  · exact UInt64.zero_add _
  · exact UInt64.zero_add _
  · exact UInt64.zero_add _
  · exact zero_add a.ttft
  · exact zero_add a.duration
  · exact zero_add a.itlAvg
  · exact zero_add a.queueTimeAvg
  · exact zero_add a.kvCacheAvg
  · exact max_eq_right bot_le
  · exact Nat.zero_add _

instance : AddCommMonoid RollupState where
  add_assoc := merge_assoc
  add_comm := merge_comm
  zero_add := zero_merge
  add_zero a := (merge_comm a 0).trans (zero_merge a)
  nsmul := nsmulRec

end RollupState

/-- The guard: `multiIf(v = '', '__none__', dictHas(.., (name, v)), v, '__other__')`. -/
def guarded (dictionary : Allowlist) (name value : String) : String :=
  if value = "" then "__none__"
  else if (name, value) ∈ dictionary then value
  else "__other__"

/-- What the view groups a row by. -/
def rollupKey (dictionary : Allowlist) (row : SpanRow) : RollupKey where
  tsMinute := floorMinute row.time
  tenantId := guarded dictionary "tenant_id" row.tenantId
  tenantTier := guarded dictionary "tenant_tier" row.tenantTier
  model := guarded dictionary "model" row.model
  operation := guarded dictionary "operation" row.operation
  route := guarded dictionary "route" row.route
  region := guarded dictionary "region" row.region
  statusClass := guarded dictionary "status_class" row.statusClass

/-- `-StateIf` of an average. -/
def meanIfPositive (x : ℚ) : ℚ × Nat := if 0 < x then (x, 1) else 0

/-- What a row adds to the state of its key. A name that is both a column of
`spans_raw` and an alias of the view denotes the alias outside the alias's own
definition: `status_class` is here the guarded one. -/
def rollupState (dictionary : Allowlist) (row : SpanRow) : RollupState where
  spans := 1
  traces := {row.traceId}
  inputTokens := row.inputTokens.toUInt64
  outputTokens := row.outputTokens.toUInt64
  cachedTokens := row.cachedPromptTokens.toUInt64
  ttft := if 0 < row.ttftMs then {row.ttftMs} else 0
  duration := if 0 < row.durationMs then {row.durationMs} else 0
  itlAvg := meanIfPositive row.itlMs
  queueTimeAvg := meanIfPositive row.queueTimeMs
  kvCacheAvg := meanIfPositive row.kvCacheUtilization
  kvCacheMax := row.kvCacheUtilization
  errors := if (rollupKey dictionary row).statusClass ≠ "ok" then 1 else 0

abbrev Spans1m := Table RollupKey RollupState

/-- The rows the view writes for a block of `spans_raw`. -/
def mvSpans1m (dictionary : Allowlist) (block : List SpanRow) : Spans1m :=
  group (rollupKey dictionary) (rollupState dictionary) block

theorem rollupKey_dimension (dictionary : Allowlist) (row : SpanRow) (column : KeyColumn) :
    (rollupKey dictionary row).dimension column =
      guarded dictionary column.name (row.dimension column) := by
  cases column <;> rfl

theorem guarded_cases (dictionary : Allowlist) (name value : String) :
    guarded dictionary name value = "__none__" ∨ guarded dictionary name value = "__other__" ∨
      guarded dictionary name value ∈ dictionary.values name := by
  unfold guarded
  split
  · exact .inl rfl
  · split
    case isTrue allowed => exact .inr (.inr (Allowlist.mem_values.mpr allowed))
    case isFalse => exact .inr (.inl rfl)

end TelemetryEngine.Rollup
