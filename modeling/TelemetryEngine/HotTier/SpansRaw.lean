import Mathlib.Algebra.Order.Field.Rat
import Mathlib.Data.List.Sort
import Mathlib.Data.Prod.Lex
import Mathlib.Data.String.Basic
import TelemetryEngine.Foundation.Calendar

/-! The landing table `telemetry.spans_raw` and the parts of ClickHouse and its
Python client that the repository relies on without controlling them. Event
times start at the epoch, as the `DateTime` columns derived from them do.
Float columns hold their exact values. -/
namespace TelemetryEngine
open Foundation.Calendar

/-- A row of `telemetry.spans_raw`. Column defaults are ClickHouse's. -/
structure SpanRow where
  /-- `DateTime64(3)`: milliseconds since the epoch. -/
  ts : Nat
  traceId : String := ""
  spanId : String := ""
  parentSpanId : String := ""
  spanName : String := ""
  spanKind : String := ""
  durationMs : ℚ := 0
  tenantId : String := ""
  tenantTier : String := ""
  model : String := ""
  operation : String := ""
  route : String := ""
  region : String := ""
  statusClass : String := ""
  serviceName : String := ""
  inputTokens : UInt32 := 0
  outputTokens : UInt32 := 0
  cachedPromptTokens : UInt32 := 0
  kvCacheUtilization : ℚ := 0
  ttftMs : ℚ := 0
  itlMs : ℚ := 0
  queueTimeMs : ℚ := 0
  batchSize : UInt16 := 0
  requestId : String := ""
  errorType : String := ""
  deriving DecidableEq, Repr

namespace SpanRow

/-- The event time as an instant. -/
def time (row : SpanRow) : Int := row.ts * 1000

theorem time_nonneg (row : SpanRow) : 0 ≤ row.time := by
  simp only [time]
  omega

def sortKey (row : SpanRow) : String ×ₗ Nat := toLex (row.tenantId, row.ts)

end SpanRow

/-- What the source leaves to ClickHouse and to its client. -/
structure Server where
  /-- The instant a bound `datetime` parameter is compared as. The client may
  send whole seconds only. -/
  bind : Int → Int
  bind_le : ∀ t, bind t ≤ t
  floorSecond_le_bind : ∀ t, floorSecond t ≤ bind t
  bind_mono : ∀ s t, s ≤ t → bind s ≤ bind t
  /-- The batches in which the rows of an ordered result arrive. -/
  batches : List SpanRow → List (List SpanRow)
  batches_perm : ∀ rows, (batches rows).flatten.Perm rows
  batches_sorted : ∀ rows, (batches rows).flatten.Pairwise (fun r s => r.sortKey ≤ s.sortKey)
  /-- `min` and `max` over no rows: NULL, or the zero of a column that cannot
  hold one. -/
  minOfEmpty : Option Int
  minOfEmpty_cases : minOfEmpty = none ∨ minOfEmpty = some 0

namespace Server

theorem bind_whole (server : Server) {t : Int} (whole : t % second = 0) : server.bind t = t := by
  have lower := server.floorSecond_le_bind t
  rw [floorSecond_of_whole whole] at lower
  exact le_antisymm (server.bind_le t) lower

/-- `ts >= start AND ts < stop`, with both ends bound as parameters. -/
def between (server : Server) (start stop : Int) (row : SpanRow) : Bool :=
  server.bind start ≤ row.time && row.time < server.bind stop

theorem between_iff {server : Server} {start stop : Int} {row : SpanRow} :
    server.between start stop row = true ↔
      server.bind start ≤ row.time ∧ row.time < server.bind stop := by
  simp only [between, Bool.and_eq_true, decide_eq_true_eq]

theorem between_eq_false_iff {server : Server} {start stop : Int} {row : SpanRow} :
    server.between start stop row = false ↔
      row.time < server.bind start ∨ server.bind stop ≤ row.time := by
  rw [Bool.eq_false_iff, Ne, between_iff]
  omega

/-- `SELECT min(ts)`. -/
def minTs (server : Server) (rows : List SpanRow) : Option Int :=
  (rows.map SpanRow.time).min?.or server.minOfEmpty

/-- `SELECT max(ts)`. -/
def maxTs (server : Server) (rows : List SpanRow) : Option Int :=
  (rows.map SpanRow.time).max?.or server.minOfEmpty

theorem minTs_eq {server : Server} {rows : List SpanRow} {row : SpanRow} (member : row ∈ rows) :
    ∃ first ∈ rows, server.minTs rows = some first.time ∧ ∀ r ∈ rows, first.time ≤ r.time := by
  cases least : (rows.map SpanRow.time).min? with
  | none =>
    rw [List.min?_eq_none_iff, List.map_eq_nil_iff] at least
    simp [least] at member
  | some m =>
    obtain ⟨found, bound⟩ := List.min?_eq_some_iff.mp least
    obtain ⟨first, inside, rfl⟩ := List.mem_map.mp found
    exact ⟨first, inside, by rw [minTs, least]; rfl,
      fun r hr => bound _ (List.mem_map_of_mem hr)⟩

theorem maxTs_eq {server : Server} {rows : List SpanRow} {row : SpanRow} (member : row ∈ rows) :
    ∃ last ∈ rows, server.maxTs rows = some last.time ∧ ∀ r ∈ rows, r.time ≤ last.time := by
  cases most : (rows.map SpanRow.time).max? with
  | none =>
    rw [List.max?_eq_none_iff, List.map_eq_nil_iff] at most
    simp [most] at member
  | some m =>
    obtain ⟨found, bound⟩ := List.max?_eq_some_iff.mp most
    obtain ⟨last, inside, rfl⟩ := List.mem_map.mp found
    exact ⟨last, inside, by rw [maxTs, most]; rfl,
      fun r hr => bound _ (List.mem_map_of_mem hr)⟩

/-- The deployed server and client: parameters are cut to whole seconds, an
empty `min` is the epoch, and a small result arrives in one batch. -/
def deployed : Server where
  bind := floorSecond
  bind_le := floorSecond_le
  floorSecond_le_bind _ := le_rfl
  bind_mono _ _ := floorTo_mono (by decide)
  batches rows := [rows.insertionSort (fun r s => r.sortKey ≤ s.sortKey)]
  batches_perm rows := by
    rw [List.flatten_singleton]
    exact List.perm_insertionSort _ rows
  batches_sorted rows := by
    rw [List.flatten_singleton]
    have : Std.Total (fun r s : SpanRow => r.sortKey ≤ s.sortKey) := ⟨fun _ _ => le_total _ _⟩
    have : IsTrans SpanRow (fun r s => r.sortKey ≤ s.sortKey) := ⟨fun _ _ _ => le_trans⟩
    exact List.pairwise_insertionSort _ rows
  minOfEmpty := some 0
  minOfEmpty_cases := .inr rfl

end Server
end TelemetryEngine
