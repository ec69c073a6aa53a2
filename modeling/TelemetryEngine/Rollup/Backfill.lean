import TelemetryEngine.Foundation.Rounding
import TelemetryEngine.Foundation.Tiling
import TelemetryEngine.Foundation.Traced
import TelemetryEngine.Rollup.Totals

/-! `rollup-backfill`: the plan read off the two tables, the window that ends where
the rollup begins, and the hourly chunks in which it is aggregated. Ingestion is
quiet, so `spans_raw` is fixed. -/
namespace TelemetryEngine.Rollup
open Cardinality Foundation Foundation.Calendar Foundation.MergingTable Foundation.Rounding
  Foundation.Tiling

/-- `spans_1m` and the blocks it aggregates. The table does not keep the blocks; the
counts of its rows are theirs. -/
structure Coverage where
  blocks : List Block
  table : Spans1m
  held : Holds Block.write blocks table

/-- The rows the rollup counts, each as often as it counts them. -/
def Coverage.counted (coverage : Coverage) : List SpanRow := coverage.blocks.flatMap Block.rows

def firstMinute (table : Spans1m) : Option Int := (table.map (·.1.tsMinute)).min?

/-- The gap between what raw holds and what the rollup covers. -/
structure BackfillPlan where
  rawMin : Option Int
  rawMax : Option Int
  rollupMin : Option Int
  rollupMax : Option Int
  rawRows : Nat
  rollupSpans : Nat

namespace BackfillPlan

def missingSpans (plan : BackfillPlan) : Nat := plan.rawRows - plan.rollupSpans

def needsBackfill (plan : BackfillPlan) : Bool := 0 < plan.missingSpans

def stop (plan : BackfillPlan) : Option Int := plan.rollupMin.or plan.rawMax

end BackfillPlan

/-- Compare raw coverage against rollup coverage. -/
def plan (server : Server) (raw : List SpanRow) (table : Spans1m) : BackfillPlan where
  rawMin := server.minTs raw
  rawMax := server.maxTs raw
  rawRows := raw.length
  rollupMin := (firstMinute table).or server.minOfEmpty
  rollupMax := ((table.map (·.1.tsMinute)).max?).or server.minOfEmpty
  rollupSpans := (total (fun _ => true) table).spans

inductive BackfillError where
  | overflow
  | aborted
  | emptyWindow (start stop : Int)
  deriving DecidableEq, Repr

/-- `datetime.min` and `datetime.max`, and the longest `timedelta`. -/
def datetimeMin : Int := -719162 * day
def datetimeMax : Int := 2932897 * day - 1
def timedeltaMax : Int := 1000000000 * day - 1

/-- `stop - timedelta(hours=hours)`. -/
def computedStart (stop : Int) (hours : ℚ) : Except BackfillError Int :=
  let delta := roundHalfEven (hours * hour)
  let start := stop - delta
  if timedeltaMax < |delta| ∨ start < datetimeMin ∨ datetimeMax < start then .error .overflow
  else .ok start

/-- `start = current.raw_min` if it is before that. -/
def clamped (rawMin : Option Int) (start : Int) : Int :=
  match rawMin with
  | some first => if start < first then first else start
  | none => start

structure Chunk where
  start : Int
  stop : Int
  deriving DecidableEq, Repr

/-- `while cursor < end`, fuelled by the length of the window. -/
def chunkLoop (stop : Int) : Nat → Int → List Chunk
  | 0, _ => []
  | fuel + 1, cursor =>
    if cursor < stop then
      let chunkEnd := min (cursor + hour) stop
      ⟨cursor, chunkEnd⟩ :: chunkLoop stop fuel chunkEnd
    else []

/-- Backfill `[start, stop)`, one hour at a time: the chunks inserted, and the number
of rows they select. -/
def backfill (server : Server) (raw : List SpanRow) (start stop : Int) :
    Traced Chunk BackfillError Nat :=
  if stop ≤ start then .ask (.error (.emptyWindow start stop))
  else ⟨chunkLoop stop (stop - start).toNat start, .ok (raw.countP (server.between start stop))⟩

/-- One invocation, the dictionary it meets, and what was merged before it. -/
structure Invocation where
  hours : ℚ
  confirmed : Bool := true
  dictionary : Allowlist
  merging : Merging RollupKey RollupState := fun table => ⟨table, .refl⟩

inductive BackfillOutcome where
  | covered
  | noData
  | aggregated (rows : Nat)
  deriving DecidableEq, Repr

/-- Aggregate historical raw spans into `spans_1m`. -/
def rollupBackfill (server : Server) (raw : List SpanRow) (table : Spans1m) (call : Invocation) :
    Traced Chunk BackfillError BackfillOutcome :=
  let current := plan server raw table
  if current.needsBackfill = false then return .covered
  else match current.stop with
    | none => return .noData
    | some stop => do
      let computed ← .ask (computedStart stop call.hours)
      let start := clamped current.rawMin computed
      if call.confirmed = false then .ask (.error .aborted)
      else do
        let rows ← backfill server raw start stop
        return .aggregated rows

/-- `_BACKFILL_SQL`: the view's aggregation over the rows of a chunk. -/
def Invocation.block (call : Invocation) (server : Server) (raw : List SpanRow) (chunk : Chunk) :
    Block :=
  ⟨call.dictionary, raw.filter (server.between chunk.start chunk.stop)⟩

namespace Coverage

def invoke (server : Server) (raw : List SpanRow) (coverage : Coverage) (call : Invocation) :
    Coverage :=
  let merged := call.merging coverage.table
  let written := (rollupBackfill server raw merged.1 call).trace.map (call.block server raw)
  { blocks := coverage.blocks ++ written
    table := merged.1 ++ written.flatMap Block.write
    held := holds_append (holds_merging coverage.held merged.2) written }

def run (server : Server) (raw : List SpanRow) (coverage : Coverage) (calls : List Invocation) :
    Coverage :=
  calls.foldl (invoke server raw) coverage

end Coverage

theorem chunkLoop_tiles {stop cursor : Int} {fuel : Nat} (enough : (stop - cursor).toNat ≤ fuel)
    (before : cursor ≤ stop) :
    Tiles Chunk.start Chunk.stop (chunkLoop stop fuel cursor) cursor stop := by
  induction fuel generalizing cursor with
  | zero => exact show cursor = stop by omega
  | succ fuel ih =>
    unfold chunkLoop
    split
    case isTrue open_ =>
      have later : cursor < min (cursor + hour) stop := by
        simp only [hour]
        omega
      exact ⟨rfl, later, ih (by omega) (min_le_right _ _)⟩
    case isFalse closed => exact show cursor = stop by omega

/-- The plan leaves an invocation the window `[start, stop)`. -/
structure Invocation.Opens (call : Invocation) (current : BackfillPlan) (start stop : Int) : Prop where
  needed : current.needsBackfill = true
  stops : current.stop = some stop
  starts : ∃ computed, computedStart stop call.hours = .ok computed ∧
    clamped current.rawMin computed = start
  confirmed : call.confirmed = true
  proper : start < stop

theorem rollupBackfill_cases (server : Server) (raw : List SpanRow) (table : Spans1m)
    (call : Invocation) :
    (∃ start stop, call.Opens (plan server raw table) start stop ∧ Tiles Chunk.start Chunk.stop
      (rollupBackfill server raw table call).trace start stop) ∨
    (∀ start stop, ¬ call.Opens (plan server raw table) start stop) ∧
      (rollupBackfill server raw table call).trace = [] := by
  unfold rollupBackfill
  generalize plan server raw table = current
  dsimp only
  split
  case isTrue idle =>
    exact .inr ⟨fun _ _ opens => by simpa [idle] using opens.needed, rfl⟩
  case isFalse missing =>
    have needed : current.needsBackfill = true := by simpa using missing
    split
    case h_1 nowhere => exact .inr ⟨fun _ _ opens => by simpa [nowhere] using opens.stops, rfl⟩
    case h_2 stop stops =>
      have here {start stop' : Int} (opens : call.Opens current start stop') : stop' = stop :=
        Option.some.inj (opens.stops.symm.trans stops)
      cases computed : computedStart stop call.hours with
      | error failure =>
        refine .inr ⟨?_, rfl⟩
        intro start stop' opens
        obtain ⟨_, made, _⟩ := opens.starts
        rw [here opens, computed] at made
        contradiction
      | ok first =>
        rw [Traced.ask_ok_bind]
        split
        case isTrue refused => exact .inr ⟨fun _ _ opens => by simpa [refused] using opens.confirmed, rfl⟩
        case isFalse accepted =>
          have confirmed : call.confirmed = true := by simpa using accepted
          unfold backfill
          split
          case isTrue empty =>
            refine .inr ⟨?_, rfl⟩
            intro start stop' opens
            obtain ⟨_, made, begins⟩ := opens.starts
            rw [here opens, computed] at made
            obtain rfl := Except.ok.inj made
            have proper := opens.proper
            rw [← begins, here opens] at proper
            exact absurd proper empty.not_gt
          case isFalse proper =>
            have proper := not_le.mp proper
            refine .inl ⟨_, stop, ⟨needed, stops, ⟨first, computed, rfl⟩, confirmed, proper⟩, ?_⟩
            rw [Traced.bind_ok rfl]
            simpa using chunkLoop_tiles le_rfl proper.le

end TelemetryEngine.Rollup
