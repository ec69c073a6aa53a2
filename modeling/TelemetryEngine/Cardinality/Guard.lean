import TelemetryEngine.Cardinality.Registry
import TelemetryEngine.Foundation.Traced
import TelemetryEngine.HotTier.SpansRaw

/-! Enforcement of the registry: the allowlist table, the dictionary loaded from
it, and the sync that fills both. `dim_allowlist` keeps one row for each
dimension and value, and nothing deletes from it. -/
namespace TelemetryEngine

/-- The columns of `spans_1m` that are rollup dimensions. -/
inductive KeyColumn where
  | tenantId | tenantTier | model | operation | route | region | statusClass
  deriving DecidableEq, Repr

def KeyColumn.all : List KeyColumn :=
  [.tenantId, .tenantTier, .model, .operation, .route, .region, .statusClass]

def KeyColumn.name : KeyColumn → String
  | tenantId => "tenant_id"
  | tenantTier => "tenant_tier"
  | model => "model"
  | operation => "operation"
  | route => "route"
  | region => "region"
  | statusClass => "status_class"

theorem KeyColumn.mem_all (column : KeyColumn) : column ∈ KeyColumn.all := by
  cases column <;> simp [KeyColumn.all]

/-- The column of a raw row under its name. -/
def SpanRow.dimension (row : SpanRow) : KeyColumn → String
  | .tenantId => row.tenantId
  | .tenantTier => row.tenantTier
  | .model => row.model
  | .operation => row.operation
  | .route => row.route
  | .region => row.region
  | .statusClass => row.statusClass

/-- The columns of `spans_1m`, in the order of its schema. -/
def spans1mColumns : List String :=
  ["ts_minute"] ++ KeyColumn.all.map KeyColumn.name ++
    ["spans", "traces", "input_tokens", "output_tokens", "cached_tokens", "ttft", "duration",
      "itl_avg", "queue_time_avg", "kv_cache_avg", "kv_cache_max", "errors"]

namespace Cardinality
open Foundation Foundation.Calendar

/-- The rows `(dimension, value)` of `dim_allowlist`. -/
abbrev Allowlist := Finset (String × String)

def Allowlist.values (allowlist : Allowlist) (dimension : String) : Finset String :=
  (allowlist.filter (·.1 = dimension)).image Prod.snd

theorem Allowlist.mem_values {allowlist : Allowlist} {dimension value : String} :
    value ∈ allowlist.values dimension ↔ (dimension, value) ∈ allowlist := by
  simp [Allowlist.values]

theorem Allowlist.values_mono {first second : Allowlist} (within : first ⊆ second)
    (dimension : String) : first.values dimension ⊆ second.values dimension :=
  fun _ member => mem_values.mpr (within (mem_values.mp member))

/-- The hot tier as the guard acts on it. -/
structure Guard where
  spansRaw : List SpanRow
  allowlist : Allowlist
  dictionary : Allowlist

inductive GuardEffect where
  | insert (rows : List (String × String))
  | reload

namespace Guard

def initial : Guard := ⟨[], ∅, ∅⟩

def apply (guard : Guard) : GuardEffect → Guard
  | .insert rows => { guard with allowlist := guard.allowlist ∪ rows.toFinset }
  | .reload => { guard with dictionary := guard.allowlist }

end Guard

abbrev Job (α : Type) := Traced GuardEffect Failure α

/-- Every static value of the registry, and its dimension. -/
def syncStatic (registry : Registry) : Job Nat := do
  let rows := registry.staticDimensions.flatMap fun d => d.values.map fun value => (d.name, value)
  if rows ≠ [] then .perform (.insert rows)
  return rows.length

/-- One sync: its instant, the orders in which the server finds the groups of a
query, and after how many effects it is killed, if it is. -/
structure SyncCall where
  now : Int
  groups : List String → List String
  groups_perm : ∀ values, (groups values).Perm values.dedup
  cut : Option Nat := none

/-- The present values of a column inside a dimension's window. -/
def SyncCall.traffic (call : SyncCall) (dimension : Dimension) (column : KeyColumn)
    (rows : List SpanRow) : List String :=
  ((rows.filter fun row => floorSecond call.now - dimension.topKWindowHours * hour < row.time).map
    (·.dimension column)).filter (· ≠ "")

/-- The top values of a dimension by recent span volume. Only a column of text can
be compared with `''`. -/
def computeTopK (call : SyncCall) (rows : List SpanRow) (dimension : Dimension) :
    Except Failure (List String) :=
  match KeyColumn.all.find? (·.name = dimension.column) with
  | none => .error .database
  | some column =>
    let values := call.traffic dimension column rows
    .ok (((call.groups values).insertionSort fun u v => values.count v ≤ values.count u).take
      dimension.budget.toNat)

/-- Recompute and store every top-K allowlist. -/
def syncTopK (call : SyncCall) (rows : List SpanRow) :
    List Dimension → List (String × Nat) → Job (List (String × Nat))
  | [], counts => return counts
  | dimension :: rest, counts => do
    let values ← .ask (computeTopK call rows dimension)
    if values ≠ [] then .perform (.insert (values.map fun value => (dimension.name, value)))
    syncTopK call rows rest (counts ++ [(dimension.name, values.length)])

structure SyncResult where
  staticValues : Nat
  topKValues : List (String × Nat)

/-- Sync the whole registry and reload the dictionary. -/
def sync (registry : Registry) (call : SyncCall) (rows : List SpanRow) : Job SyncResult := do
  .ask (registry.validateColumns spans1mColumns)
  let staticValues ← syncStatic registry
  let topKValues ← syncTopK call rows registry.topKDimensions []
  .perform .reload
  return { staticValues, topKValues }

/-- The effects of a sync that is perhaps killed. -/
def SyncCall.executed (call : SyncCall) (registry : Registry) (rows : List SpanRow) :
    List GuardEffect :=
  match call.cut with
  | none => (sync registry call rows).trace
  | some n => (sync registry call rows).trace.take n

/-- Blocks arrive, old rows expire, the dictionary's lifetime runs out, and the
registry is synced. -/
inductive GuardEvent where
  | ingest (block : List SpanRow)
  | expire (kept : SpanRow → Bool)
  | refresh
  | sync (call : SyncCall)

namespace Guard

def step (registry : Registry) (guard : Guard) : GuardEvent → Guard
  | .ingest block => { guard with spansRaw := guard.spansRaw ++ block }
  | .expire kept => { guard with spansRaw := guard.spansRaw.filter kept }
  | .refresh => guard.apply .reload
  | .sync call => (call.executed registry guard.spansRaw).foldl apply guard

def run (registry : Registry) (guard : Guard) (events : List GuardEvent) : Guard :=
  events.foldl (step registry) guard

end Guard

/-! ### What a sync brings in -/

/-- The values a dimension is allowed by a sync. -/
def SyncCall.offered (call : SyncCall) (rows : List SpanRow) (dimension : Dimension) :
    List String :=
  match dimension.source with
  | .static => dimension.values
  | .topK => (computeTopK call rows dimension).toOption.getD []

/-- The values a sync allows under a key. -/
def SyncCall.brings (call : SyncCall) (registry : Registry) (rows : List SpanRow) (key : String) :
    Finset String :=
  ((registry.dimensions.filter (·.name = key)).flatMap (call.offered rows)).toFinset

/-- An effect that allows nothing but what is offered. -/
def GuardEffect.Offers (registry : Registry) (call : SyncCall) (rows : List SpanRow) :
    GuardEffect → Prop
  | .insert added => ∀ entry ∈ added, entry.2 ∈ call.brings registry rows entry.1
  | .reload => True

theorem SyncCall.mem_brings {call : SyncCall} {registry : Registry} {rows : List SpanRow}
    {key value : String} : value ∈ call.brings registry rows key ↔
      ∃ d ∈ registry.dimensions, d.name = key ∧ value ∈ call.offered rows d := by
  simp only [brings, List.mem_toFinset, List.mem_flatMap, List.mem_filter, decide_eq_true_eq,
    and_assoc]

theorem SyncCall.brings_name (call : SyncCall) {registry : Registry} (rows : List SpanRow)
    {d : Dimension} (member : d ∈ registry.dimensions) :
    call.brings registry rows d.name = (call.offered rows d).toFinset := by
  ext value
  rw [mem_brings, List.mem_toFinset]
  constructor
  · rintro ⟨e, registered, same, offered⟩
    rwa [registry.eq_of_name registered member same] at offered
  · exact fun offered => ⟨d, member, rfl, offered⟩

theorem computeTopK_length {call : SyncCall} {rows : List SpanRow} {d : Dimension}
    (computed : computeTopK call rows d = .ok values) : values.length ≤ d.budget := by
  have nonneg := d.budget_nonneg
  unfold computeTopK at computed
  split at computed
  · contradiction
  · obtain rfl := Except.ok.inj computed
    rw [List.length_take]
    omega

/-- No sync by itself offers a dimension more than its budget. -/
theorem SyncCall.offered_length (call : SyncCall) (rows : List SpanRow) (d : Dimension) :
    (call.offered rows d).length ≤ d.budget := by
  unfold offered
  split
  · exact d.values_within
  · cases computed : computeTopK call rows d with
    | error failure =>
      exact d.budget_nonneg
    | ok values => exact computeTopK_length computed

theorem syncStatic_trace (registry : Registry) (call : SyncCall) (rows : List SpanRow) :
    (∀ effect ∈ (syncStatic registry).trace, effect.Offers registry call rows) ∧
      ∃ n, (syncStatic registry).outcome = .ok n := by
  unfold syncStatic
  dsimp only
  split
  · refine ⟨?_, _, rfl⟩
    intro effect member
    obtain rfl : effect = _ := List.mem_singleton.mp member
    intro entry added
    obtain ⟨d, static, inside⟩ := List.mem_flatMap.mp added
    obtain ⟨value, declared, rfl⟩ := List.mem_map.mp inside
    obtain ⟨registered, source⟩ := List.mem_filter.mp static
    refine SyncCall.mem_brings.mpr ⟨d, registered, rfl, ?_⟩
    rw [SyncCall.offered, of_decide_eq_true source]
    exact declared
  · exact ⟨fun effect member => absurd member List.not_mem_nil, _, rfl⟩

theorem syncTopK_trace (registry : Registry) (call : SyncCall) (rows : List SpanRow)
    {dimensions : List Dimension} (within : dimensions ⊆ registry.topKDimensions)
    (counts : List (String × Nat)) : ∀ effect ∈ (syncTopK call rows dimensions counts).trace,
      effect.Offers registry call rows := by
  induction dimensions generalizing counts with
  | nil => exact fun effect member => absurd member List.not_mem_nil
  | cons d rest ih =>
    obtain ⟨here, later⟩ := List.cons_subset.mp within
    have later := ih later
    unfold syncTopK
    cases computed : computeTopK call rows d with
    | error failure => exact fun effect member => absurd member List.not_mem_nil
    | ok values =>
      rw [Traced.ask_ok_bind]
      split
      · rw [Traced.perform_bind]
        refine List.forall_mem_cons.mpr ⟨?_, later _⟩
        intro entry added
        obtain ⟨value, chosen, rfl⟩ := List.mem_map.mp added
        obtain ⟨registered, source⟩ := List.mem_filter.mp here
        refine SyncCall.mem_brings.mpr ⟨d, registered, rfl, ?_⟩
        rw [SyncCall.offered, of_decide_eq_true source]
        simpa [computed, Except.toOption] using chosen
      · exact later _

theorem sync_trace (registry : Registry) (call : SyncCall) (rows : List SpanRow) :
    ∀ effect ∈ (sync registry call rows).trace, effect.Offers registry call rows := by
  unfold sync
  cases registry.validateColumns spans1mColumns with
  | error failure => exact fun effect member => absurd member List.not_mem_nil
  | ok valid =>
    obtain ⟨static, n, counted⟩ := syncStatic_trace registry call rows
    have topK := syncTopK_trace registry call rows (List.Subset.refl registry.topKDimensions) []
    rw [Traced.ask_ok_bind, Traced.bind_ok counted]
    refine List.forall_mem_append.mpr ⟨static, ?_⟩
    cases chosen : (syncTopK call rows registry.topKDimensions []).outcome with
    | error failure =>
      rw [Traced.bind_error chosen]
      exact topK
    | ok counts =>
      rw [Traced.bind_ok chosen]
      refine List.forall_mem_append.mpr ⟨topK, ?_⟩
      intro effect member
      obtain rfl : effect = .reload := by simpa using member
      trivial

theorem SyncCall.executed_offers (call : SyncCall) (registry : Registry) (rows : List SpanRow) :
    ∀ effect ∈ call.executed registry rows, effect.Offers registry call rows := by
  intro effect member
  unfold executed at member
  split at member
  · exact sync_trace registry call rows effect member
  · exact sync_trace registry call rows effect (List.mem_of_mem_take member)

end Cardinality
end TelemetryEngine
