import TelemetryEngine.Experiments.Quiescence
import TelemetryEngine.Experiments.Sampling

/-! `recovery_seconds`, the headline number of a run, beside the time in which the consumer
has really caught up. A sample carries the instant its scrape was begun; the lag in it was
read some time later. -/
namespace TelemetryEngine.Experiments
open Foundation.Polling BackpressureResult HealthSampler

/-- Time until the lag is caught up after the pressure is removed. -/
def BackpressureResult.recoverySeconds (result : BackpressureResult)
    (stallReleasedAt : Option ℚ) : Option ℚ :=
  let origin := max result.burstWindow.2 (stallReleasedAt.getD 0)
  (result.samples.find? fun sample =>
    origin ≤ sample.t ∧ sample.totalLag ≤ recoveredLag).map fun sample => sample.t - origin

/-- What a scrape reads is the lag at an instant while it goes on. -/
def Sees (lag : ℚ → Int) (scrape : ℚ × Scrape) : Prop :=
  ∀ totalLag collector, scrape.2.outcome = .read totalLag collector →
    ∃ instant, scrape.1 ≤ instant ∧ instant ≤ scrape.1 + scrape.2.seconds ∧ totalLag = lag instant

/-- From an instant on the lag is caught up, and from the origin until then it is not. -/
structure RecoversAt (lag : ℚ → Int) (origin recovered : ℚ) : Prop where
  later : origin ≤ recovered
  caughtUp : ∀ instant, origin ≤ instant → (lag instant ≤ recoveredLag ↔ recovered ≤ instant)

theorem run_sorted (interval started : ℚ) (scrapes : List Scrape) :
    (HealthSampler.run interval started scrapes).Pairwise fun first next => first.t ≤ next.t := by
  refine List.Pairwise.filterMap _ (fun first next before a kept b kept' => ?_)
    (begun_sorted (period_nonneg interval) started scrapes).1
  rw [sample_t kept, sample_t kept']
  exact before

section
variable {lag : ℚ → Int} {origin recovered : ℚ}

/-- A sample that counts as caught up was, at the latest, when its scrape was over. -/
theorem RecoversAt.seen (recovers : RecoversAt lag origin recovered) {scrape : ℚ × Scrape}
    (sees : Sees lag scrape) {s : Sample} (kept : sample scrape = some s) (after : origin ≤ s.t)
    (low : s.totalLag ≤ recoveredLag) : recovered ≤ s.t + scrape.2.seconds := by
  obtain ⟨totalLag, collector, outcome, rfl⟩ := sample_some kept
  obtain ⟨instant, begins, ends, rfl⟩ := sees totalLag collector outcome
  exact ((recovers.caughtUp instant (after.trans begins)).mp low).trans ends

/-- A sample whose scrape is begun when the lag is caught up says so. -/
theorem RecoversAt.shown (recovers : RecoversAt lag origin recovered) {scrape : ℚ × Scrape}
    (sees : Sees lag scrape) {s : Sample} (kept : sample scrape = some s)
    (after : recovered ≤ s.t) : origin ≤ s.t ∧ s.totalLag ≤ recoveredLag := by
  obtain ⟨totalLag, collector, outcome, rfl⟩ := sample_some kept
  obtain ⟨instant, begins, -, rfl⟩ := sees totalLag collector outcome
  exact ⟨recovers.later.trans after,
    (recovers.caughtUp instant ((recovers.later.trans after).trans begins)).mpr
      (after.trans begins)⟩

end

section
variable {lag : ℚ → Int} {rest : Readings} {started recovered : ℚ} {scrapes : List Scrape}
  {released : Option ℚ}

theorem found_scrape {measured : ℚ}
    (found : (sampled rest started scrapes).result.recoverySeconds released = some measured) :
    ∃ scrape ∈ begun (period rest.sampleIntervalS) started scrapes, ∃ s, sample scrape = some s ∧
      s.t = (stressWindow rest.result released).2 + measured ∧
      (stressWindow rest.result released).2 ≤ s.t ∧ s.totalLag ≤ recoveredLag := by
  obtain ⟨s, finds, rfl⟩ := Option.map_eq_some_iff.mp found
  obtain ⟨scrape, begins, kept⟩ := List.mem_filterMap.mp (List.mem_of_find?_eq_some finds)
  have caught := List.find?_some finds
  rw [decide_eq_true_iff] at caught
  obtain ⟨after, low⟩ := caught
  exact ⟨scrape, begins, s, kept, (add_sub_cancel _ _).symm, after, low⟩

theorem found_by
    (sees : ∀ scrape ∈ begun (period rest.sampleIntervalS) started scrapes, Sees lag scrape)
    (recovers : RecoversAt lag (stressWindow rest.result released).2 recovered) {s : Sample}
    (member : s ∈ (sampled rest started scrapes).result.samples) (after : recovered ≤ s.t) :
    ∃ measured, (sampled rest started scrapes).result.recoverySeconds released = some measured ∧
      (stressWindow rest.result released).2 + measured ≤ s.t := by
  obtain ⟨scrape, begins, kept⟩ := List.mem_filterMap.mp member
  have holds := decide_eq_true (recovers.shown (sees scrape begins) kept after)
  cases finds : (sampled rest started scrapes).result.samples.find? fun sample =>
      (stressWindow rest.result released).2 ≤ sample.t ∧ sample.totalLag ≤ recoveredLag with
  | none => exact absurd holds (by simpa using List.find?_eq_none.mp finds s member)
  | some first =>
    refine ⟨first.t - (stressWindow rest.result released).2,
      Option.map_eq_some_iff.mpr ⟨first, finds, rfl⟩, ?_⟩
    rw [add_sub_cancel]
    exact find_le (run_sorted _ _ _) finds member holds

end

theorem sees_scrapeOf {lag : ℚ → Int} {started : ℚ} {seconds : ℕ} {totalLag : Int} {spans : ℕ}
    (instant : ℚ) (begins : started ≤ instant) (ends : instant ≤ started + seconds)
    (reads : lag instant = totalLag) : Sees lag (started, scrapeOf seconds totalLag spans) := by
  intro _ _ outcome
  obtain ⟨rfl, -⟩ := ScrapeOutcome.read.inj outcome
  exact ⟨instant, begins, ends, reads.symm⟩

/-- A lag that drains at once, in the middle of a scrape. -/
def stalledLag (instant : ℚ) : Int := if instant < 115 then 50000 else 0

end TelemetryEngine.Experiments
