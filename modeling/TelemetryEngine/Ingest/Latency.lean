import TelemetryEngine.Foundation.Grouping
import TelemetryEngine.Foundation.Location
import TelemetryEngine.Ingest.Agreement

/-! `ingest/latency.py`: how long after its end a span can be queried. Rows are stamped with
the start of their span, so the duration is taken off again, as the table holds it. The insert is
at the whole second that its rows are stamped with, and what the query makes of their columns is
exact. -/
namespace TelemetryEngine.Ingest
open Emitters Foundation.Calendar Foundation.Grouping Foundation.Location
open Foundation.OrderStatistics

def drainedLagThreshold : Int := 500

inductive MeasureError
  /-- `ValueError` -/
  | ingestTimeFilter
  | backlogNotDrained (totalLag threshold : Int)
  deriving DecidableEq, Repr

/-- `none` is NaN, of no rows. -/
structure LatencyStats where
  rows : ℕ
  avgS : Option ℚ
  p50S : Option ℚ
  p95S : Option ℚ
  p99S : Option ℚ
  maxS : ℚ

/-- `LATENCY_EXPR` -/
def latencyExpr (row : DecodedRow) : ℚ :=
  ((row.ingestedAt * 1000 : ℕ) - row.columns.ts - storedDurationMs row.columns) / 1000

structure Condition where
  expr : String
  holds : SpanRow → Bool

/-- `"ingested_at" in since_expr` -/
def Condition.OnIngestTime (since : Condition) : Prop := "ingested_at".toList <:+: since.expr.toList

instance (since : Condition) : Decidable since.OnIngestTime :=
  inferInstanceAs (Decidable (_ <:+: _))

def assertDrained (totalLag threshold : Int) : Except MeasureError Unit :=
  if threshold < totalLag then .error (.backlogNotDrained totalLag threshold) else .ok ()

section
variable (quantile : ℚ → Statistic ℚ)

/-- The query that `latency_sql` builds. -/
def latencyQuery (since : Condition) (table : List DecodedRow) : LatencyStats :=
  let values := (table.filter fun row => since.holds row.columns).map latencyExpr
  { rows := values.length
    avgS := mean.of values
    p50S := (quantile (50 / 100)).of values
    p95S := (quantile (95 / 100)).of values
    p99S := (quantile (99 / 100)).of values
    maxS := (largest.of values).getD 0 }

def latencySql (since : Condition) : Except MeasureError (List DecodedRow → LatencyStats) :=
  if since.OnIngestTime then .error .ingestTimeFilter
  else .ok (latencyQuery quantile since)

def measure (since : Condition) (totalLag : Int) (requireDrained : Bool)
    (table : List DecodedRow) : Except MeasureError LatencyStats := do
  if requireDrained then
    assertDrained totalLag drainedLagThreshold
  let query ← latencySql quantile since
  return query table

/-- The panel of `dashboards.py` over the same expression. -/
def ingestLatency (shown : Int → Bool) (table : List DecodedRow) :
    List (Int × Option ℚ × Option ℚ) :=
  grouped (fun row => floorMinute row.columns.time)
    (fun rows => ((quantile (1 / 2)).of (rows.map latencyExpr),
      (quantile (95 / 100)).of (rows.map latencyExpr)))
    (table.filter fun row => shown row.columns.time)

/-! ### What is measured -/

/-- A block of messages at the time of its arrival. -/
structure Arrival where
  functions : Functions
  block : List String
  messages : List (TraceIds × Message)
  encodes : List.Forall₂ (fun raw sent => ∃ json, functions.parse raw = some json ∧
    EncodesMessage sent.1 json sent.2) block messages
  emittable : ∀ sent ∈ messages, ∀ placed ∈ spansOf sent.2, Emittable placed.2.1

def Arrival.rows (arrival : Arrival) : List DecodedRow := mvSpansRaw arrival.functions arrival.block

/-- From the end of each span to the insert, in seconds. -/
def Arrival.delays (arrival : Arrival) : List ℚ :=
  arrival.messages.flatMap fun sent => (spansOf sent.2).map fun placed =>
    arrival.functions.now - placed.2.1.endNs / 1000000000

/-- The milliseconds from its start to its end. -/
def lasts (span : EmittedSpan) : ℚ := (span.endNs - span.startNs : Int) / 1000000

/-- No span lasts longer, in milliseconds. -/
def Arrival.Bounded (longest : ℚ) (arrival : Arrival) : Prop :=
  ∀ sent ∈ arrival.messages, ∀ placed ∈ spansOf sent.2, |lasts placed.2.1| ≤ longest

/-- A time cut to a millisecond is read as up to one more. -/
def cut : ℚ := 1 / 1000

/-- What the storage of a duration of so many milliseconds loses or adds, in seconds. -/
def stored (longest : ℚ) : ℚ := longest / 2 ^ 23 / 1000

end

section
variable {longest : ℚ}

/-- Close to the delay, as a row is that measures it. -/
abbrev Close (longest : ℚ) : ℚ → ℚ → Prop := Within (stored longest) (cut + stored longest)

/-- A row measures the delay of its span. -/
def Measures (longest : ℚ) (row : DecodedRow) (delay : ℚ) : Prop :=
  Close longest delay (latencyExpr row)

theorem Agrees.measures {ids : TraceIds} {row : DecodedRow} {placed : Resource × Positioned}
    (agrees : Agrees ids row placed) (short : |lasts placed.2.1| ≤ longest) :
    Measures longest row (row.ingestedAt - placed.2.1.endNs / 1000000000) := by
  have near := storedDurationMs_close agrees.durationMs
  rw [agrees.durationMs] at near
  change |_| ≤ |lasts placed.2.1| / 2 ^ 23 at near
  have near := abs_le.mp (near.trans (div_le_div_of_nonneg_right short (by norm_num)))
  have start : (row.columns.ts : Int) = placed.2.1.startNs / 1000000 := agrees.ts.2.trans agrees.ts.1
  have least : (row.columns.ts : Int) * 1000000 ≤ placed.2.1.startNs := by omega
  have most : placed.2.1.startNs ≤ row.columns.ts * 1000000 + 1000000 := by omega
  have least : (row.columns.ts : ℚ) * 1000000 ≤ placed.2.1.startNs := by exact_mod_cast least
  have most : (placed.2.1.startNs : ℚ) ≤ row.columns.ts * 1000000 + 1000000 := by exact_mod_cast most
  rw [Measures, Close, Within, latencyExpr, cut, stored]
  push_cast at near ⊢
  constructor
  · linarith
  · linarith

theorem decodeMessage_ingestedAt (functions : Functions) (raw : Option Json) :
    ∀ row ∈ decodeMessage functions raw, row.ingestedAt = functions.now := by
  intro row member
  obtain ⟨resourceSpan, _, inside⟩ := List.mem_flatMap.mp member
  obtain ⟨scope, _, decoded⟩ := List.mem_flatMap.mp inside
  obtain ⟨span, _, rfl⟩ := List.mem_map.mp decoded
  rfl

theorem Arrival.measures (arrival : Arrival) (bounded : arrival.Bounded longest) :
    List.Forall₂ (Measures longest) arrival.rows arrival.delays := by
  rw [rows, mvSpansRaw, delays]
  refine List.rel_flatMap (forall₂_and arrival.encodes fun sent member =>
    And.intro (arrival.emittable sent member) (bounded sent member)) fun raw sent encoded => ?_
  obtain ⟨⟨json, parsed, encodesMessage⟩, emittable, short⟩ := encoded
  rw [parsed, List.forall₂_map_right_iff]
  have stamped := (List.forall₂_and_left _ _).mpr
    ⟨decodeMessage_ingestedAt arrival.functions (some json),
      forall₂_and (decodeMessage_agrees encodesMessage emittable) short⟩
  exact stamped.imp fun row placed both => both.1 ▸ both.2.1.measures both.2.2

/-- Statistics of delays, none too low by more than the storage of the durations makes
them, and none too high by more than that and the cut. -/
structure LatencyStats.Of (quantile : ℚ → Statistic ℚ) (longest : ℚ) (stats : LatencyStats)
    (delays : List ℚ) : Prop where
  rows : stats.rows = delays.length
  avg : Option.Rel (Close longest) (mean.of delays) stats.avgS
  p50 : Option.Rel (Close longest) ((quantile (50 / 100)).of delays) stats.p50S
  p95 : Option.Rel (Close longest) ((quantile (95 / 100)).of delays) stats.p95S
  p99 : Option.Rel (Close longest) ((quantile (99 / 100)).of delays) stats.p99S
  max : Close longest ((largest.of delays).getD 0) stats.maxS

theorem within_getD {truth read : Option ℚ} (nonneg : 0 ≤ longest)
    (close : Option.Rel (Close longest) truth read) :
    Close longest (truth.getD 0) (read.getD 0) := by
  cases close with
  | none =>
    have slack : 0 ≤ stored longest := div_nonneg (div_nonneg nonneg (by norm_num)) (by norm_num)
    rw [Option.getD_none, Close, Within, cut]
    constructor <;> linarith
  | some within => exact within

theorem latencyQuery_of (quantile : ℚ → Statistic ℚ) (since : Condition) {table : List DecodedRow}
    {delays : List ℚ} (nonneg : 0 ≤ longest)
    (measured : List.Forall₂ (Measures longest) table delays) :
    (latencyQuery quantile since table).Of quantile longest
      (counterparts (fun row => since.holds row.columns) table delays) := by
  have close : List.Forall₂ (Close longest)
      (counterparts (fun row => since.holds row.columns) table delays)
      ((table.filter fun row => since.holds row.columns).map latencyExpr) := by
    rw [List.forall₂_map_right_iff]
    exact (counterparts_related measured _).flip
  refine ⟨close.length_eq.symm, mean.within close, (quantile _).within close,
    (quantile _).within close, (quantile _).within close, within_getD nonneg ?_⟩
  exact largest.within close

/-- A measurement is refused while a backlog drains, and over a condition that could select it. -/
theorem measure_eq (quantile : ℚ → Statistic ℚ) (since : Condition) (totalLag : Int)
    (requireDrained : Bool) (table : List DecodedRow) :
    measure quantile since totalLag requireDrained table =
      if requireDrained = true ∧ drainedLagThreshold < totalLag then
        .error (.backlogNotDrained totalLag drainedLagThreshold)
      else if since.OnIngestTime then .error .ingestTimeFilter
      else .ok (latencyQuery quantile since table) := by
  have query : (do let query ← latencySql quantile since; return query table) =
      if since.OnIngestTime then .error .ingestTimeFilter
      else .ok (latencyQuery quantile since table) := by
    rw [latencySql]
    split
    · rfl
    · rfl
  cases requireDrained with
  | false =>
    rw [if_neg (by simp), ← query]
    rfl
  | true =>
    by_cases draining : drainedLagThreshold < totalLag
    · rw [if_pos ⟨rfl, draining⟩, measure, if_pos rfl, assertDrained, if_pos draining]
      rfl
    · rw [if_neg (by simp [draining]), ← query, measure, if_pos rfl, assertDrained, if_neg draining]
      rfl

theorem ingestLatency_of (quantile : ℚ → Statistic ℚ) (shown : Int → Bool)
    {table : List DecodedRow} {delays : List ℚ} (measured : List.Forall₂ (Measures longest) table delays) :
    ∀ line ∈ ingestLatency quantile shown table,
      let minute := counterparts (fun row => decide (floorMinute row.columns.time = line.1) &&
        shown row.columns.time) table delays
      Option.Rel (Close longest) ((quantile (1 / 2)).of minute) line.2.1 ∧
        Option.Rel (Close longest) ((quantile (95 / 100)).of minute) line.2.2 := by
  rintro ⟨minute, line⟩ member
  obtain ⟨_, rfl⟩ := mem_grouped.mp member
  rw [List.filter_filter]
  have close := (counterparts_related measured fun row =>
    decide (floorMinute row.columns.time = minute) && shown row.columns.time).flip
  rw [← List.forall₂_map_right_iff] at close
  exact ⟨(quantile _).within close, (quantile _).within close⟩

/-- Whatever was inserted, a measurement is refused exactly while a backlog drains or over a
condition on the insert time, and else tells how long the spans it selects took from their
end to the second of their insert, to the millisecond and what a `Float32` makes of the
longest duration. So does the panel, minute by minute. -/
theorem latency_from_end (quantile : ℚ → Statistic ℚ) (since : Condition) {arrivals : List Arrival}
    (nonneg : 0 ≤ longest) (bounded : ∀ arrival ∈ arrivals, arrival.Bounded longest)
    (totalLag : Int) (requireDrained : Bool) (shown : Int → Bool) :
    let table := arrivals.flatMap Arrival.rows
    let delays := arrivals.flatMap Arrival.delays
    let measured := measure quantile since totalLag requireDrained table
    ((∃ stats, measured = .ok stats) ↔
      (requireDrained → totalLag ≤ drainedLagThreshold) ∧ ¬since.OnIngestTime) ∧
    (∀ stats, measured = .ok stats →
      stats.Of quantile longest (counterparts (fun row => since.holds row.columns) table delays)) ∧
    ∀ line ∈ ingestLatency quantile shown table,
      let minute := counterparts (fun row => decide (floorMinute row.columns.time = line.1) &&
        shown row.columns.time) table delays
      Option.Rel (Close longest) ((quantile (1 / 2)).of minute) line.2.1 ∧
        Option.Rel (Close longest) ((quantile (95 / 100)).of minute) line.2.2 := by
  intro table delays measured
  have same : List.Forall₂ (fun first second : Arrival => first = second ∧ second.Bounded longest)
      arrivals arrivals := List.forall₂_same.mpr fun arrival member => ⟨rfl, bounded arrival member⟩
  have related : List.Forall₂ (Measures longest) table delays :=
    List.rel_flatMap same fun _ arrival both => both.1 ▸ arrival.measures both.2
  have decided : measured = _ := measure_eq quantile since totalLag requireDrained table
  refine ⟨?_, fun stats returned => ?_, ingestLatency_of quantile shown related⟩
  · rw [decided]
    split
    case isTrue refused => simp [refused]
    case isFalse accepted =>
      split
      case isTrue spelled => simp [spelled]
      case isFalse unspelled => simpa [unspelled] using accepted
  · rw [decided] at returned
    split at returned
    case isTrue => contradiction
    case isFalse =>
      split at returned
      case isTrue => contradiction
      case isFalse =>
        obtain rfl := Except.ok.inj returned
        exact latencyQuery_of quantile since nonneg related

end

/-- The value of the rank, as `quantileExact` has it. -/
def exactQuantile (level : ℚ) : Statistic ℚ :=
  ranked (fun n => min (n - 1) (rank n level)) fun n positive => by omega

def agentFunctions : Functions :=
  { readingFunctions [encodeMessage agentIds agentMessage] with now := 1700000003 }

theorem agentFunctions_parse :
    agentFunctions.parse = (readingFunctions [encodeMessage agentIds agentMessage]).parse := rfl

def agentArrival : Arrival where
  functions := agentFunctions
  block := [(encodeMessage agentIds agentMessage).text fun _ => ""]
  messages := [(agentIds, agentMessage)]
  encodes := by
    refine .cons ⟨encodeMessage agentIds agentMessage, ?_, encodeMessage_encodes _ _⟩ .nil
    rw [agentFunctions_parse]
    apply readingFunctions_parse
  emittable := by
    intro sent member placed inside
    obtain rfl := List.mem_singleton.mp member
    have among : ∀ placed ∈ spansOf agentMessage, placed.2.1 ∈ agentSpans := by decide +kernel
    exact agentSpans_emittable _ (among placed inside)

def recent : Condition := ⟨"ts > now() - 60", fun _ => true⟩

/-- A trace of 12 ms, inserted three seconds after its start. -/
theorem latency_from_end_agent :
    ∃ stats, measure exactQuantile recent 0 true ([agentArrival].flatMap Arrival.rows) = .ok stats ∧
      stats.rows = 3 ∧ Close 12 (29955 / 10000) stats.maxS := by
  have bounded : ∀ arrival ∈ [agentArrival], arrival.Bounded 12 := by
    intro arrival member sent inside
    obtain rfl := List.mem_singleton.mp member
    obtain rfl := List.mem_singleton.mp inside
    decide +kernel
  obtain ⟨accepted, reported, -⟩ :=
    latency_from_end exactQuantile recent (by norm_num) bounded 0 true fun _ => true
  have counted : counterparts (fun row => recent.holds row.columns)
      ([agentArrival].flatMap Arrival.rows) ([agentArrival].flatMap Arrival.delays) =
      [2993 / 1000, 2988 / 1000, 29955 / 10000] := by decide +kernel
  have drained : (0 : Int) ≤ drainedLagThreshold := by decide
  have eventTime : ¬recent.OnIngestTime := by decide +kernel
  obtain ⟨stats, measured⟩ := accepted.mpr ⟨fun _ => drained, eventTime⟩
  have of := reported stats measured
  rw [counted] at of
  have largest_of : largest.of [2993 / 1000, 2988 / 1000, (29955 / 10000 : ℚ)] =
      some (29955 / 10000) := by decide +kernel
  have top := of.max
  rw [largest_of] at top
  exact ⟨stats, measured, of.rows, top⟩

end TelemetryEngine.Ingest
