import Mathlib.Algebra.Group.Pi.Lemmas
import TelemetryEngine.Experiments.Accounting
import TelemetryEngine.Foundation.Counters

/-! Restarts of the collector between the two readings of a run. The check compares
neighbouring samples only. A restart before the first sample, after the last one, or
one whose counters have grown back by the next sample passes it, and takes what had
been counted out of the reported numbers. -/
namespace TelemetryEngine.Experiments
open Foundation.Counters

/-- The cumulative counters of the collector, of `_COLLECTOR_COUNTERS`. -/
inductive Counter where
  | accepted | refused | sent | sendFailed | enqueueFailed
  deriving DecidableEq

abbrev Counters := Counter → ℕ

def accepted : Counters →+ ℕ := Pi.evalAddMonoidHom _ .accepted
def sent : Counters →+ ℕ := Pi.evalAddMonoidHom _ .sent
def dropped : Counters →+ ℕ :=
  Pi.evalAddMonoidHom (fun _ => ℕ) Counter.sendFailed + Pi.evalAddMonoidHom _ .enqueueFailed

/-- `read_collector`, of a collector that answers. -/
def readCollector (counters : Counters) : CollectorSnapshot where
  acceptedSpans := counters .accepted
  refusedSpans := counters .refused
  sentSpans := counters .sent
  sendFailedSpans := counters .sendFailed
  enqueueFailedSpans := counters .enqueueFailed

/-- A sample notes when it was begun and the lag beside the counters. -/
abbrev Timeline := List (Event Counters (ℚ × Int))

def sampleOf (reading : (ℚ × Int) × Counters) : Sample where
  t := reading.1.1
  totalLag := reading.1.2
  accepted := (readCollector reading.2).acceptedSpans
  sent := (readCollector reading.2).sentSpans
  dropped := (readCollector reading.2).droppedSpans

/-- What `run_experiment` reads over a timeline that begins with its first reading of
the collector and ends with its last. -/
def observed (rest : Readings) (before : Counters) (timeline : Timeline) : Readings :=
  { rest with
    before := readCollector before
    after := readCollector (value before timeline)
    samples := (readings before timeline).map sampleOf }

/-- The reported numbers are what the collector counted. -/
structure Reports (result : BackpressureResult) (counted : Counters) : Prop where
  accepted : result.collectorAccepted = accepted counted
  sent : result.collectorSent = sent counted
  dropped : result.collectorDropped = dropped counted

variable {rest : Readings} {before : Counters} {timeline : Timeline}

theorem collectorAccepted_eq : (observed rest before timeline).result.collectorAccepted =
    (accepted (value before timeline) : Int) - accepted before := rfl

theorem collectorSent_eq : (observed rest before timeline).result.collectorSent =
    (sent (value before timeline) : Int) - sent before := rfl

theorem collectorDropped_eq : (observed rest before timeline).result.collectorDropped =
    (dropped (value before timeline) : Int) - dropped before := by
  simp only [dropped, AddMonoidHom.add_apply, Nat.cast_add]
  rfl

theorem samples_increase {result : BackpressureResult}
    (passes : ∀ check ∈ validate result, check.passed = true) :
    ∀ pair ∈ result.samples.zip result.samples.tail, pair.1.accepted ≤ pair.2.accepted ∧
      pair.1.sent ≤ pair.2.sent ∧ pair.1.dropped ≤ pair.2.dropped := by
  have none : result.decreases.isEmpty = true :=
    passes _ (by simp only [validate]; exact .tail _ (.tail _ (.head _)))
  intro pair member
  have steady := List.filter_eq_nil_iff.mp (List.isEmpty_iff.mp none) pair member
  simpa only [decide_eq_true_eq, not_or, not_lt] using steady

/-- A run that passes has samples that never decrease, and reports what the collector
counted exactly when every restart found its counters at zero. -/
theorem restarts_harmless_iff
    (passes : ∀ check ∈ validate (observed rest before timeline).result, check.passed = true) :
    (∀ pair ∈ (observed rest before timeline).samples.zip (observed rest before timeline).samples.tail,
      pair.1.accepted ≤ pair.2.accepted ∧ pair.1.sent ≤ pair.2.sent ∧
        pair.1.dropped ≤ pair.2.dropped) ∧
    (Reports (observed rest before timeline).result (added timeline) ↔
      ∀ gone ∈ lost before timeline, accepted gone = 0 ∧ sent gone = 0 ∧ dropped gone = 0) := by
  refine ⟨samples_increase passes, ?_⟩
  have accepts := difference_eq_iff accepted before timeline
  have sends := difference_eq_iff sent before timeline
  have drops := difference_eq_iff dropped before timeline
  rw [← @collectorAccepted_eq rest] at accepts
  rw [← @collectorSent_eq rest] at sends
  rw [← @collectorDropped_eq rest] at drops
  constructor
  · intro reports gone member
    exact ⟨accepts.mp reports.accepted gone member, sends.mp reports.sent gone member,
      drops.mp reports.dropped gone member⟩
  · intro zero
    exact ⟨accepts.mpr fun gone member => (zero gone member).1,
      sends.mpr fun gone member => (zero gone member).2.1,
      drops.mpr fun gone member => (zero gone member).2.2⟩

/-- A collector that stands at some drops, restarts right after the first reading, and
then drops as many again. -/
def restartedTimeline (spans drops : ℕ) : Timeline :=
  [.reset, .read (0, 0),
    .add fun
      | .accepted => spans
      | .sent => spans - drops
      | .sendFailed => drops
      | _ => 0,
    .read (90, 50000)]

def standing (drops : ℕ) : Counters := Pi.single .sendFailed drops

theorem restarts_harmless_fresh :
    Reports (observed (stalledRun 600000 597000) (standing 0) (restartedTimeline 600000 3000)).result
      (added (restartedTimeline 600000 3000)) :=
  (@restarts_harmless_iff (stalledRun 600000 597000) (standing 0) (restartedTimeline 600000 3000)
    (by decide +kernel)).2.mpr (by decide +kernel)

/-- Every check passes, the collector has dropped 3000 spans, and none is reported. -/
theorem restart_hides_drops :
    (∀ check ∈ validate
        (observed (stalledRun 600000 597000) (standing 3000) (restartedTimeline 600000 3000)).result,
      check.passed = true) ∧
    dropped (added (restartedTimeline 600000 3000)) = 3000 ∧
    (observed (stalledRun 600000 597000) (standing 3000)
      (restartedTimeline 600000 3000)).result.collectorDropped = 0 ∧
    ¬ Reports (observed (stalledRun 600000 597000) (standing 3000)
        (restartedTimeline 600000 3000)).result (added (restartedTimeline 600000 3000)) := by
  refine ⟨by decide +kernel, by decide +kernel, by decide +kernel, fun reports => ?_⟩
  exact absurd reports.dropped (by decide +kernel)

end TelemetryEngine.Experiments
