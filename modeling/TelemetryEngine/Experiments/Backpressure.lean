import Mathlib.Algebra.Order.Field.Rat
import Mathlib.Data.List.Sort
import Mathlib.Data.Rat.Floor

/-! `experiments/backpressure.py`: what a run records and the checks that invalidate
it. Ratios and settings are exact. -/
namespace TelemetryEngine.Experiments

def minGeneratorAchievement : ℚ := 90 / 100
def minDeliveryEfficiency : ℚ := 95 / 100
def minPeakLagToBeMeaningful : Int := 5000
def maxUnaccountedSpanFraction : ℚ := 2 / 100
def minEndpointProbesPerPhase : Nat := 10

structure Check where
  name : String
  passed : Bool
  wouldHide : String

structure Sample where
  t : ℚ
  totalLag : Int
  accepted : Int
  sent : Int
  dropped : Int

structure ProbeResult where
  t : ℚ
  latencyMs : ℚ
  ok : Bool
  spansEmitted : Nat := 0

/-- Collector counters at a point in time, cumulative. -/
structure CollectorSnapshot where
  acceptedSpans : Int := 0
  refusedSpans : Int := 0
  sentSpans : Int := 0
  sendFailedSpans : Int := 0
  enqueueFailedSpans : Int := 0
  queueSize : Int := 0
  queueCapacity : Int := 0
  deriving DecidableEq, Repr

def CollectorSnapshot.droppedSpans (snapshot : CollectorSnapshot) : Int :=
  snapshot.sendFailedSpans + snapshot.enqueueFailedSpans

structure LoadResult where
  spans : Nat
  targetSpans : Int

structure BackpressureResult where
  baselineS : ℚ
  burstS : ℚ
  sampleIntervalS : ℚ
  generatorSpans : Nat := 0
  generatorTargetSpans : Int := 0
  samples : List Sample := []
  probes : List ProbeResult := []
  endpointSpans : Nat := 0
  collectorAccepted : Int := 0
  collectorRefused : Int := 0
  collectorSent : Int := 0
  collectorDropped : Int := 0
  clickhouseRows : Int := 0
  rebalancesBefore : Int := 0
  rebalancesAfterBaseline : Int := 0
  baselineStartedAt : ℚ := 0
  baselineEndedAt : ℚ := 0
  burstStartedAt : ℚ := 0
  burstEndedAt : ℚ := 0

/-- `probe_latency`. -/
structure LatencySummary where
  n : Nat := 0
  p50 : ℚ := 0
  p95 : ℚ := 0
  p99 : ℚ := 0
  max : ℚ := 0

namespace BackpressureResult

def peakLag (result : BackpressureResult) : Int := (result.samples.map Sample.totalLag).max?.getD 0

/-- Spans the generator and the probed endpoint together produced. -/
def emittedTotal (result : BackpressureResult) : Int := result.generatorSpans + result.endpointSpans

/-- Spans that never reached the collector and were not refused by it. -/
def sdkLost (result : BackpressureResult) : Int :=
  max 0 (result.emittedTotal - result.collectorAccepted - result.collectorRefused)

/-- Spans that vanished without a stage claiming them. -/
def unaccounted (result : BackpressureResult) : Int :=
  max 0 (result.collectorSent - result.clickhouseRows)

/-- The observed burst window, or the nominal one. -/
def burstWindow (result : BackpressureResult) : ℚ × ℚ :=
  if result.burstStartedAt < result.burstEndedAt then (result.burstStartedAt, result.burstEndedAt)
  else (result.baselineS, result.baselineS + result.burstS)

def baselineWindow (result : BackpressureResult) : ℚ × ℚ :=
  if result.baselineStartedAt < result.baselineEndedAt then
    (result.baselineStartedAt, result.baselineEndedAt)
  else (0, result.baselineS)

/-- Endpoint latency percentiles within a time window. -/
def probeLatency (result : BackpressureResult) (window : ℚ × ℚ) : LatencySummary :=
  let inside := result.probes.filter fun p => window.1 ≤ p.t ∧ p.t < window.2 ∧ p.ok
  let values := (inside.map ProbeResult.latencyMs).insertionSort (· ≤ ·)
  let n := values.length
  let percentile (share : ℚ) : ℚ := values.getD (min (n - 1) ⌊n * share⌋.toNat) 0
  if n = 0 then {}
  else
    { n
      p50 := values.getD ⌊n * (50 / 100 : ℚ)⌋.toNat 0
      p95 := percentile (95 / 100)
      p99 := percentile (99 / 100)
      max := values.getD (n - 1) 0 }

/-- `a / b if b else 0.0`. -/
def ratio (a b : Int) : ℚ := if b = 0 then 0 else a / b

theorem ratio_self {a : Int} (some : a ≠ 0) : ratio a a = 1 := by
  rw [ratio, if_neg some, div_self (by exact_mod_cast some)]

def decreases (result : BackpressureResult) : List (Sample × Sample) :=
  (result.samples.zip result.samples.tail).filter fun (a, b) =>
    b.accepted < a.accepted ∨ b.sent < a.sent ∨ b.dropped < a.dropped

end BackpressureResult

open BackpressureResult

/-- Run every pre-registered check. -/
def validate (result : BackpressureResult) : List Check :=
  let achieved := ratio result.generatorSpans result.generatorTargetSpans
  let delivered := result.collectorAccepted + result.collectorRefused
  let deliveryEfficiency := ratio delivered result.emittedTotal
  let unaccountedFraction := ratio result.unaccounted result.emittedTotal
  let baselineProbes := (result.probeLatency result.baselineWindow).n
  let burstProbes := (result.probeLatency result.burstWindow).n
  [ { name := "generator_hit_target"
      passed := minGeneratorAchievement ≤ achieved
      wouldHide := "A generator that fell short would leave lag flat, and the " ++
        "pipeline would look like it absorbed a burst it never received." },
    { name := "load_actually_delivered"
      passed := minDeliveryEfficiency ≤ deliveryEfficiency
      wouldHide := "generator_hit_target counts spans CREATED. A run passed it at " ++
        "94.8% while the SDK queue discarded most of them, so the pipeline " ++
        "was loaded at a fraction of the claimed rate and the experiment was " ++
        "measuring the generator, not the pipeline." },
    { name := "no_counter_reset"
      passed := result.decreases.isEmpty
      wouldHide := "Collector counters are cumulative. A restart zeroes them, so a " ++
        "run that dropped heavily would report zero drops." },
    { name := "sampling_resolution"
      passed := result.sampleIntervalS ≤ result.burstS / 4
      wouldHide := "A sampling interval close to the burst length can step over the " ++
        "peak entirely and report that no lag ever occurred." },
    { name := "burst_actually_stressed"
      passed := minPeakLagToBeMeaningful ≤ result.peakLag
      wouldHide := "If the burst never built meaningful lag, there is no backpressure " ++
        "behaviour to report and 'recovered instantly' is vacuous." },
    { name := "spans_accounted"
      passed := unaccountedFraction ≤ maxUnaccountedSpanFraction
      wouldHide := "Loss upstream of Redpanda leaves nothing to lag on, so lag reads " ++
        "zero while data is being discarded -- the pipeline looks healthy " ++
        "precisely because it is failing." },
    { name := "endpoint_probed_under_load"
      passed := minEndpointProbesPerPhase ≤ baselineProbes ∧ minEndpointProbesPerPhase ≤ burstProbes
      wouldHide := "The load generator never makes an HTTP request. Without probing a " ++
        "real endpoint during the burst, 'endpoints are unaffected' would be " ++
        "a claim about something the experiment never exercised." },
    { name := "lag_reader_is_noninvasive"
      passed := result.rebalancesAfterBaseline = result.rebalancesBefore
      wouldHide := "The lag reader joins the same consumer group. If it triggered a " ++
        "rebalance it would be measuring lag it caused itself." } ]

structure Passing (result : BackpressureResult) : Prop where
  generated : minGeneratorAchievement ≤ ratio result.generatorSpans result.generatorTargetSpans
  delivered : minDeliveryEfficiency ≤
    ratio (result.collectorAccepted + result.collectorRefused) result.emittedTotal
  undecreased : result.decreases = []
  resolved : result.sampleIntervalS ≤ result.burstS / 4
  stressed : minPeakLagToBeMeaningful ≤ result.peakLag
  accounted : ratio result.unaccounted result.emittedTotal ≤ maxUnaccountedSpanFraction
  probed : minEndpointProbesPerPhase ≤ (result.probeLatency result.baselineWindow).n ∧
    minEndpointProbesPerPhase ≤ (result.probeLatency result.burstWindow).n
  undisturbed : result.rebalancesAfterBaseline = result.rebalancesBefore

theorem passes_iff (result : BackpressureResult) :
    (∀ check ∈ validate result, check.passed = true) ↔ Passing result := by
  simp only [validate, List.forall_mem_cons, decide_eq_true_eq, List.isEmpty_iff]
  constructor
  · rintro ⟨generated, delivered, undecreased, resolved, stressed, accounted, probed, undisturbed, -⟩
    exact ⟨generated, delivered, undecreased, resolved, stressed, accounted, probed, undisturbed⟩
  · rintro ⟨generated, delivered, undecreased, resolved, stressed, accounted, probed, undisturbed⟩
    exact ⟨generated, delivered, undecreased, resolved, stressed, accounted, probed, undisturbed,
      by simp⟩

theorem probeLatency_n {result : BackpressureResult} {window : ℚ × ℚ}
    (inside : ∀ p ∈ result.probes, window.1 ≤ p.t ∧ p.t < window.2 ∧ p.ok = true) :
    (result.probeLatency window).n = result.probes.length := by
  have all : (result.probes.filter fun p => window.1 ≤ p.t ∧ p.t < window.2 ∧ p.ok) =
      result.probes := by
    rw [List.filter_eq_self]
    exact fun p member => decide_eq_true (inside p member)
  unfold probeLatency
  simp only [all, List.length_insertionSort, List.length_map]
  split
  case isTrue none => exact none.symm
  case isFalse => rfl

/-- What `run_experiment` reads off the stack. -/
structure Readings where
  baselineS : ℚ
  burstS : ℚ
  sampleIntervalS : ℚ
  baseline : LoadResult
  burst : LoadResult
  samples : List Sample
  probes : List ProbeResult
  before : CollectorSnapshot
  after : CollectorSnapshot
  rowsBefore : Int
  rowsAfter : Int
  rebalancesBefore : Int
  rebalancesAfterBaseline : Int
  baselineStartedAt : ℚ
  baselineEndedAt : ℚ
  burstStartedAt : ℚ
  burstEndedAt : ℚ

/-- The accounting of `run_experiment`: every stage is a difference of counters. -/
def Readings.result (readings : Readings) : BackpressureResult where
  baselineS := readings.baselineS
  burstS := readings.burstS
  sampleIntervalS := readings.sampleIntervalS
  generatorSpans := readings.baseline.spans + readings.burst.spans
  generatorTargetSpans := readings.baseline.targetSpans + readings.burst.targetSpans
  samples := readings.samples
  probes := readings.probes
  endpointSpans := (readings.probes.map ProbeResult.spansEmitted).sum
  collectorAccepted := readings.after.acceptedSpans - readings.before.acceptedSpans
  collectorRefused := readings.after.refusedSpans - readings.before.refusedSpans
  collectorSent := readings.after.sentSpans - readings.before.sentSpans
  collectorDropped := readings.after.droppedSpans - readings.before.droppedSpans
  clickhouseRows := readings.rowsAfter - readings.rowsBefore
  rebalancesBefore := readings.rebalancesBefore
  rebalancesAfterBaseline := readings.rebalancesAfterBaseline
  baselineStartedAt := readings.baselineStartedAt
  baselineEndedAt := readings.baselineEndedAt
  burstStartedAt := readings.burstStartedAt
  burstEndedAt := readings.burstEndedAt

end TelemetryEngine.Experiments
