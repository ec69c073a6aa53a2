import Mathlib.Tactic.Linarith
import TelemetryEngine.Experiments.Backpressure

/-! Span accounting. Of the stages of the flow the checks compare the first two with
each other and the last two; what is lost between the collector's receiver and
its exporter, and what a repeated row stands in for, they do not see. -/
namespace TelemetryEngine.Experiments
open BackpressureResult

/-- The counters of a run, and the number of its spans that have a row, fit the
flow from the emitters to `spans_raw`. -/
structure Flow (result : BackpressureResult) (stored : Int) : Prop where
  received : result.collectorAccepted + result.collectorRefused ≤ result.emittedTotal
  forwarded : result.collectorSent + result.collectorDropped ≤ result.collectorAccepted
  stored_sent : stored ≤ result.collectorSent
  stored_rows : stored ≤ result.clickhouseRows

/-- Emitted spans that are neither lost in the SDK, nor refused, nor dropped, nor in
`spans_raw`. -/
def unexplained (result : BackpressureResult) (stored : Int) : Int :=
  result.emittedTotal - result.sdkLost - result.collectorRefused - result.collectorDropped - stored

/-- Spans the collector took in and neither sent nor dropped. -/
def leaked (result : BackpressureResult) : Int :=
  result.collectorAccepted - result.collectorSent - result.collectorDropped

def repeated (result : BackpressureResult) (stored : Int) : Int := result.clickhouseRows - stored

variable {result : BackpressureResult} {stored : Int}

/-- The identity behind the accounting: the loss is the leak, the deficit that is
checked, and what repeated rows hide of it. -/
theorem unexplained_eq (flow : Flow result stored) : unexplained result stored =
    leaked result + repeated result stored + (result.collectorSent - result.clickhouseRows) := by
  have received := flow.received
  have lost : result.sdkLost =
      result.emittedTotal - result.collectorAccepted - result.collectorRefused := by
    rw [sdkLost]
    omega
  simp only [unexplained, lost, leaked, repeated]
  omega

theorem Passing.emitted_pos (passing : Passing result) : 0 < result.emittedTotal := by
  have some : result.emittedTotal ≠ 0 := by
    intro none
    have delivered := passing.delivered
    rw [ratio, if_pos none] at delivered
    exact absurd delivered (by decide +kernel)
  have counted : 0 ≤ result.emittedTotal := by
    rw [emittedTotal]
    omega
  omega

theorem Passing.deficit_le (passing : Passing result) :
    ((result.collectorSent - result.clickhouseRows : Int) : ℚ) ≤
      maxUnaccountedSpanFraction * result.emittedTotal := by
  have positive := passing.emitted_pos
  have accounted := passing.accounted
  rw [ratio, if_neg positive.ne', div_le_iff₀ (by exact_mod_cast positive)] at accounted
  refine le_trans ?_ accounted
  exact_mod_cast le_max_right _ _

def Bounded (result : BackpressureResult) (stored : Int) : Prop :=
  (unexplained result stored : ℚ) ≤ maxUnaccountedSpanFraction * result.emittedTotal

/-- With neither leak nor repeated row the deficit is the whole loss. -/
theorem Passing.bounded (passing : Passing result) (flow : Flow result stored)
    (tight : leaked result = 0) (once : repeated result stored = 0) : Bounded result stored := by
  rw [Bounded, unexplained_eq flow, tight, once, zero_add, zero_add]
  exact passing.deficit_le

/-- A run of 600000 spans, all accepted by the collector, under a stalled burst. -/
def stalledRun (sent rows : Int) : Readings where
  baselineS := 45
  burstS := 60
  sampleIntervalS := 1
  baseline := ⟨300000, 300000⟩
  burst := ⟨300000, 300000⟩
  samples := [⟨0, 0, 0, 0, 0⟩, ⟨90, 50000, 600000, sent, 0⟩]
  probes := List.replicate 10 ⟨1, 8, true, 0⟩ ++ List.replicate 10 ⟨50, 8, true, 0⟩
  before := {}
  after := { acceptedSpans := 600000, sentSpans := sent }
  rowsBefore := 0
  rowsAfter := rows
  rebalancesBefore := 5
  rebalancesAfterBaseline := 5
  baselineStartedAt := 0
  baselineEndedAt := 45
  burstStartedAt := 45
  burstEndedAt := 105

/-- A run that uses up what the check allows, with so many leaked spans and repeated rows. -/
def leakyRun (emitted leak repeats : ℕ) : Readings :=
  { stalledRun 0 0 with
    baseline := ⟨emitted, emitted⟩
    burst := ⟨0, 0⟩
    samples := [⟨90, 50000, 0, 0, 0⟩]
    after := { acceptedSpans := emitted, sentSpans := (emitted - leak : ℕ) }
    rowsAfter := (emitted - leak - emitted / 50 - repeats + repeats : ℕ) }

section
variable {emitted leak repeats : ℕ}

theorem leakyRun_emitted : (leakyRun emitted leak repeats).result.emittedTotal = emitted := by
  simp [leakyRun, Readings.result, emittedTotal, stalledRun]

theorem leakyRun_passing (some : 0 < emitted) : Passing (leakyRun emitted leak repeats).result := by
  have positive : (emitted : Int) ≠ 0 := by omega
  have accepted : (leakyRun emitted leak repeats).result.collectorAccepted = emitted := by
    simp [leakyRun, Readings.result, stalledRun]
  have lost : (leakyRun emitted leak repeats).result.unaccounted ≤ emitted / 50 := by
    simp only [leakyRun, Readings.result, unaccounted, stalledRun]
    omega
  constructor
  case generated =>
    have same : ratio emitted emitted = 1 := ratio_self positive
    simp only [leakyRun, Readings.result, add_zero, same]
    decide +kernel
  case delivered =>
    have refused : (leakyRun emitted leak repeats).result.collectorRefused = 0 := rfl
    rw [leakyRun_emitted, accepted, refused, add_zero, ratio_self positive]
    decide +kernel
  case undecreased => rfl
  case resolved =>
    change (1 : ℚ) ≤ 60 / 4
    norm_num
  case stressed =>
    change minPeakLagToBeMeaningful ≤ ([50000].max?.getD 0 : Int)
    decide
  case accounted =>
    have few : 50 * (leakyRun emitted leak repeats).result.unaccounted ≤ emitted := by omega
    rw [leakyRun_emitted, ratio, if_neg positive, maxUnaccountedSpanFraction,
      div_le_iff₀ (by exact_mod_cast some)]
    have small : (50 * (leakyRun emitted leak repeats).result.unaccounted : ℚ) ≤ emitted := by
      exact_mod_cast few
    push_cast
    linarith
  case probed =>
    -- the probes and the windows are those of the other run
    have probed : minEndpointProbesPerPhase ≤
        ((stalledRun 0 0).result.probeLatency (stalledRun 0 0).result.baselineWindow).n ∧
        minEndpointProbesPerPhase ≤
          ((stalledRun 0 0).result.probeLatency (stalledRun 0 0).result.burstWindow).n := by
      decide +kernel
    exact probed
  case undisturbed => rfl

theorem leakyRun_flow (repeats : ℕ) (within : leak ≤ emitted) :
    Flow (leakyRun emitted leak repeats).result (emitted - leak - emitted / 50 - repeats : ℕ) ∧
      leaked (leakyRun emitted leak repeats).result = leak ∧
      repeated (leakyRun emitted leak repeats).result
        (emitted - leak - emitted / 50 - repeats : ℕ) = repeats := by
  refine ⟨⟨?_, ?_, ?_, ?_⟩, ?_, ?_⟩
  · rw [leakyRun_emitted]
    simp only [leakyRun, Readings.result, stalledRun]
    omega
  all_goals
    simp only [leakyRun, Readings.result, stalledRun, leaked, repeated, CollectorSnapshot.droppedSpans]
    omega

theorem leakyRun_loss (some : 0 < emitted) (within : leak ≤ emitted)
    (bounded : Bounded (leakyRun emitted leak repeats).result
      (emitted - leak - emitted / 50 - repeats : ℕ)) : leak = 0 ∧ repeats = 0 := by
  have loss : unexplained (leakyRun emitted leak repeats).result
      (emitted - leak - emitted / 50 - repeats : ℕ) =
      emitted - (emitted - leak - emitted / 50 - repeats : ℕ) := by
    obtain ⟨flow, leaks, repeated⟩ := leakyRun_flow repeats within
    rw [unexplained_eq flow, leaks, repeated]
    simp only [leakyRun, Readings.result, stalledRun]
    omega
  rw [Bounded, loss, leakyRun_emitted, maxUnaccountedSpanFraction] at bounded
  have few : 50 * ((emitted : Int) - (emitted - leak - emitted / 50 - repeats : ℕ)) ≤ emitted := by
    have scaled : (50 * ((emitted : Int) - (emitted - leak - emitted / 50 - repeats : ℕ) : Int) : ℚ) ≤
        (emitted : Int) := by linarith
    exact_mod_cast scaled
  omega

/-- The checks bound the loss of all runs that pass, with so many emitted and leaked spans and
so many repeated rows, exactly when nothing leaks and no row is repeated. -/
theorem accounting_bounds_loss_iff (some : 0 < emitted) (within : leak ≤ emitted) :
    (∀ (readings : Readings) (stored : ℕ), Flow readings.result stored →
      readings.result.emittedTotal = emitted → leaked readings.result = leak →
      repeated readings.result stored = repeats →
      (∀ check ∈ validate readings.result, check.passed = true) →
      Bounded readings.result stored) ↔
    leak = 0 ∧ repeats = 0 := by
  constructor
  · intro bounded
    obtain ⟨flow, leaks, repeated⟩ := leakyRun_flow repeats within
    exact leakyRun_loss some within (bounded _ _ flow leakyRun_emitted leaks repeated
      ((passes_iff _).mpr (leakyRun_passing some)))
  · rintro ⟨rfl, rfl⟩ readings stored flow _ tight once passes
    exact Passing.bounded ((passes_iff _).mp passes) flow tight once

end

/-- All spans that were sent are stored once, but for one in fifty. -/
theorem accounting_bounds_loss_complete :
    Bounded (stalledRun 600000 588000).result (588000 : ℕ) :=
  (@accounting_bounds_loss_iff 600000 0 0 (by decide) (by decide)).mpr ⟨rfl, rfl⟩
    (stalledRun 600000 588000) 588000
    ⟨by decide +kernel, by decide +kernel, by decide +kernel, by decide +kernel⟩
    (by decide +kernel) (by decide +kernel) (by decide +kernel) (by decide +kernel)

/-- Half the spans leak in the collector, or half the rows are repeated: every check
passes, and half the spans are unexplained. -/
theorem accounting_misses_loss :
    (Flow (stalledRun 300000 300000).result 300000 ∧
      (∀ check ∈ validate (stalledRun 300000 300000).result, check.passed = true) ∧
      ¬ Bounded (stalledRun 300000 300000).result 300000) ∧
    Flow (stalledRun 600000 600000).result 300000 ∧
      (∀ check ∈ validate (stalledRun 600000 600000).result, check.passed = true) ∧
      ¬ Bounded (stalledRun 600000 600000).result 300000 := by
  unfold Bounded
  exact ⟨⟨⟨by decide +kernel, by decide +kernel, by decide +kernel, by decide +kernel⟩,
      by decide +kernel, by decide +kernel⟩,
    ⟨by decide +kernel, by decide +kernel, by decide +kernel, by decide +kernel⟩,
    by decide +kernel, by decide +kernel⟩

end TelemetryEngine.Experiments
