import TelemetryEngine.Experiments.Restarts
import TelemetryEngine.Foundation.Polling

/-! `HealthSampler`, and what its samples say about the burst. The checks compare the
configured interval with the configured burst and look for a peak anywhere in the
run. How far apart samples really are depends on how long the scrapes take and which
of them fail, and the peak may be of another phase. -/
namespace TelemetryEngine.Experiments
open Foundation.Polling BackpressureResult

inductive ScrapeOutcome where
  | read (totalLag : Int) (collector : CollectorSnapshot)
  /-- The collector did not answer. -/
  | skipped
  /-- An exception. -/
  | failed

structure Scrape where
  outcome : ScrapeOutcome
  /-- How long the two reads take. -/
  seconds : ℚ
  /-- How much later than asked the wait returns. -/
  late : ℚ
  seconds_nonneg : 0 ≤ seconds
  late_nonneg : 0 ≤ late

namespace HealthSampler

/-- The wait after a scrape. What the scrape took is deducted, unless it was skipped. -/
def wait (interval : ℚ) (scrape : Scrape) : ℚ :=
  match scrape.outcome with
  | .skipped => max 0 interval
  | .read _ _ | .failed => max 0 (interval - scrape.seconds)

/-- From the begin of a scrape to the begin of the next. -/
def period (interval : ℚ) (scrape : Scrape) : ℚ := scrape.seconds + wait interval scrape + scrape.late

theorem period_nonneg (interval : ℚ) (scrape : Scrape) : 0 ≤ period interval scrape := by
  have waits : 0 ≤ wait interval scrape := by
    unfold wait
    split <;> exact le_max_left _ _
  exact add_nonneg (add_nonneg scrape.seconds_nonneg waits) scrape.late_nonneg

def recorded (started : ℚ) (totalLag : Int) (collector : CollectorSnapshot) : Sample where
  t := started
  totalLag
  accepted := collector.acceptedSpans
  sent := collector.sentSpans
  dropped := collector.droppedSpans

def sample (scrape : ℚ × Scrape) : Option Sample :=
  match scrape.2.outcome with
  | .read totalLag collector => some (recorded scrape.1 totalLag collector)
  | .skipped | .failed => none

/-- `_run`, from its first scrape until it is stopped. -/
def run (interval started : ℚ) (scrapes : List Scrape) : List Sample :=
  (begun (period interval) started scrapes).filterMap sample

theorem sample_some {scrape : ℚ × Scrape} {s : Sample} (kept : sample scrape = some s) :
    ∃ totalLag collector, scrape.2.outcome = .read totalLag collector ∧
      s = recorded scrape.1 totalLag collector := by
  cases outcome : scrape.2.outcome with
  | read totalLag collector =>
    simp only [sample, outcome, Option.some.injEq] at kept
    exact ⟨totalLag, collector, rfl, kept.symm⟩
  | skipped | failed => simp [sample, outcome] at kept

theorem sample_t {scrape : ℚ × Scrape} {s : Sample} (kept : sample scrape = some s) :
    s.t = scrape.1 := by
  obtain ⟨_, _, _, rfl⟩ := sample_some kept
  rfl

end HealthSampler

open HealthSampler

/-- The readings of a run whose sampler made these scrapes. -/
def sampled (rest : Readings) (started : ℚ) (scrapes : List Scrape) : Readings :=
  { rest with samples := HealthSampler.run rest.sampleIntervalS started scrapes }

/-- From the burst's begin to its end or the release of the stall, whichever is later. -/
def stressWindow (result : BackpressureResult) (stallReleasedAt : Option ℚ) : ℚ × ℚ :=
  (result.burstWindow.1, max result.burstWindow.2 (stallReleasedAt.getD 0))

/-- A sample of the burst shows the lag, and samples that cover it are close together. -/
def BurstObserved (result : BackpressureResult) (stallReleasedAt : Option ℚ) : Prop :=
  (∃ sample ∈ result.samples, (stressWindow result stallReleasedAt).1 ≤ sample.t ∧
    sample.t ≤ (stressWindow result stallReleasedAt).2 ∧ minPeakLagToBeMeaningful ≤ sample.totalLag) ∧
  ∀ pair ∈ result.samples.zip result.samples.tail, pair.1.t < result.burstWindow.2 →
    result.burstWindow.1 < pair.2.t → pair.2.t - pair.1.t ≤ result.burstS / 4

instance : Decidable (BurstObserved result stallReleasedAt) := inferInstanceAs (Decidable (_ ∧ _))

/-- What is known of the scrapes of a run. -/
structure Pace where
  /-- The longest time from the begin of a scrape to the begin of the next. -/
  cycleS : ℚ
  /-- So many in a row may record nothing. -/
  failing : ℕ
  /-- The largest lag they record before the burst or after burst and stall. -/
  calmLag : Int

structure Keeps (pace : Pace) (rest : Readings) (started : ℚ) (scrapes : List Scrape)
    (stallReleasedAt : Option ℚ) : Prop where
  cycle : ∀ scrape ∈ scrapes, period rest.sampleIntervalS scrape ≤ pace.cycleS
  failing : ∀ first idle next, Follows sample (begun (period rest.sampleIntervalS) started scrapes)
    first idle next → idle.length ≤ pace.failing
  calm : ∀ s ∈ (sampled rest started scrapes).samples,
    s.t < (stressWindow rest.result stallReleasedAt).1 ∨
      (stressWindow rest.result stallReleasedAt).2 < s.t → s.totalLag ≤ pace.calmLag

section
variable {pace : Pace} {rest : Readings} {started : ℚ} {scrapes : List Scrape}
  {stallReleasedAt : Option ℚ}

theorem Keeps.stressed (keeps : Keeps pace rest started scrapes stallReleasedAt)
    (calm : pace.calmLag < minPeakLagToBeMeaningful)
    (passing : Passing (sampled rest started scrapes).result) :
    ∃ s ∈ (sampled rest started scrapes).result.samples,
      (stressWindow rest.result stallReleasedAt).1 ≤ s.t ∧
      s.t ≤ (stressWindow rest.result stallReleasedAt).2 ∧
      minPeakLagToBeMeaningful ≤ s.totalLag := by
  have stressed := passing.stressed
  rw [peakLag] at stressed
  cases peak : ((sampled rest started scrapes).result.samples.map Sample.totalLag).max? with
  | none =>
    rw [peak] at stressed
    exact absurd stressed (by decide)
  | some lag =>
    rw [peak] at stressed
    obtain ⟨s, member, rfl⟩ := List.mem_map.mp (List.max?_mem peak)
    refine ⟨s, member, ?_, ?_, stressed⟩
    · by_contra before
      exact absurd (keeps.calm s member (.inl (not_le.mp before))) (not_le.mpr (calm.trans_le stressed))
    · by_contra after
      exact absurd (keeps.calm s member (.inr (not_le.mp after))) (not_le.mpr (calm.trans_le stressed))

theorem Keeps.resolved (keeps : Keeps pace rest started scrapes stallReleasedAt)
    (pair : Sample × Sample)
    (member : pair ∈ (sampled rest started scrapes).samples.zip
      (sampled rest started scrapes).samples.tail) :
    pair.2.t - pair.1.t ≤ (pace.failing + 1) * pace.cycleS := by
  obtain ⟨first, idle, next, follows, here, there⟩ := neighbours_iff.mp member
  obtain ⟨⟨front, back, split⟩, -⟩ := id follows
  have few := keeps.failing _ _ _ follows
  rw [sample_t here, sample_t there, begun_apart split, add_sub_cancel_left]
  have each : ∀ scrape ∈ first :: idle, period rest.sampleIntervalS scrape.2 ≤ pace.cycleS := by
    intro scrape inside
    have made : scrape ∈ begun (period rest.sampleIntervalS) started scrapes := by
      rw [split]
      refine List.mem_append_right _ ?_
      rw [← List.cons_append]
      exact List.mem_append_left _ inside
    exact keeps.cycle _ (begun_made made)
  have nonneg : 0 ≤ pace.cycleS :=
    (period_nonneg rest.sampleIntervalS first.2).trans (each first List.mem_cons_self)
  have all := List.sum_le_card_nsmul ((first :: idle).map fun scrape =>
    period rest.sampleIntervalS scrape.2) pace.cycleS (List.forall_mem_map.mpr each)
  rw [List.length_map, List.length_cons, nsmul_eq_mul] at all
  refine all.trans (mul_le_mul_of_nonneg_right ?_ nonneg)
  exact_mod_cast Nat.succ_le_succ few

theorem Keeps.observed (keeps : Keeps pace rest started scrapes stallReleasedAt)
    (prompt : (pace.failing + 1) * pace.cycleS ≤ rest.burstS / 4)
    (calm : pace.calmLag < minPeakLagToBeMeaningful)
    (passing : Passing (sampled rest started scrapes).result) :
    BurstObserved (sampled rest started scrapes).result stallReleasedAt :=
  ⟨keeps.stressed calm passing, fun pair member _ _ => (keeps.resolved pair member).trans prompt⟩

end

/-! ### Runs that fall short -/

def slowScrape (cycleS : ℚ) (nonneg : 0 ≤ cycleS) (outcome : ScrapeOutcome) : Scrape :=
  ⟨outcome, cycleS, 0, nonneg, le_rfl⟩

theorem period_slowScrape {interval cycleS : ℚ} (nonneg : 0 ≤ cycleS) (feasible : interval ≤ cycleS)
    (totalLag : Int) (collector : CollectorSnapshot) :
    period interval (slowScrape cycleS nonneg (.read totalLag collector)) = cycleS ∧
      period interval (slowScrape cycleS nonneg .failed) = cycleS := by
  have none : max 0 (interval - cycleS) = 0 := max_eq_left (by linarith)
  simp [period, wait, slowScrape, none]

/-- A run of one span. Ten probes are made in one window, the baseline's and the burst's. -/
def pacedRun (interval burstS burstStart burstEnd : ℚ) : Readings :=
  { stalledRun 0 0 with
    burstS
    sampleIntervalS := interval
    baseline := ⟨1, 1⟩
    burst := ⟨0, 0⟩
    probes := List.replicate 10 ⟨burstStart, 8, true, 0⟩
    after := { acceptedSpans := 1 }
    baselineStartedAt := burstStart
    baselineEndedAt := burstEnd
    burstStartedAt := burstStart
    burstEndedAt := burstEnd }

section
variable {interval burstS burstStart burstEnd started : ℚ} {scrapes : List Scrape}

theorem pacedRun_burst (later : burstStart < burstEnd) :
    (pacedRun interval burstS burstStart burstEnd).result.burstWindow = (burstStart, burstEnd) :=
  if_pos later

theorem pacedRun_window (later : burstStart < burstEnd) (nonneg : 0 ≤ burstEnd) :
    stressWindow (pacedRun interval burstS burstStart burstEnd).result none =
      (burstStart, burstEnd) := by
  rw [stressWindow, pacedRun_burst later]
  exact congrArg _ (max_eq_left nonneg)

/-- Every check passes when all scrapes that read something read the same, and one does. -/
theorem pacedRun_passing (allowed : interval ≤ burstS / 4) (later : burstStart < burstEnd)
    (same : ∀ s ∈ (sampled (pacedRun interval burstS burstStart burstEnd) started scrapes).samples,
      ∃ t, s = recorded t minPeakLagToBeMeaningful {})
    (some : (sampled (pacedRun interval burstS burstStart burstEnd) started scrapes).samples ≠ []) :
    Passing (sampled (pacedRun interval burstS burstStart burstEnd) started scrapes).result := by
  generalize made : sampled (pacedRun interval burstS burstStart burstEnd) started scrapes = run
    at same some ⊢
  have burst : run.result.burstWindow = (burstStart, burstEnd) := made ▸ if_pos later
  have baseline : run.result.baselineWindow = (burstStart, burstEnd) := made ▸ if_pos later
  have probes : run.result.probes = List.replicate 10 ⟨burstStart, 8, true, 0⟩ := made ▸ rfl
  have inside : ∀ p ∈ run.result.probes, burstStart ≤ p.t ∧ p.t < burstEnd ∧ p.ok = true := by
    intro p member
    rw [probes] at member
    obtain rfl := List.eq_of_mem_replicate member
    exact ⟨le_rfl, later, rfl⟩
  constructor
  case generated => exact made ▸ (by decide +kernel : minGeneratorAchievement ≤ ratio 1 1)
  case delivered => exact made ▸ (by decide +kernel : minDeliveryEfficiency ≤ ratio 1 1)
  case undecreased =>
    rw [decreases, List.filter_eq_nil_iff]
    intro pair member
    obtain ⟨before, after⟩ := List.of_mem_zip member
    obtain ⟨_, here⟩ := same _ before
    obtain ⟨_, there⟩ := same _ (List.mem_of_mem_tail after)
    simp [here, there, recorded]
  case resolved => exact made ▸ allowed
  case stressed =>
    obtain ⟨first, rest, samples⟩ := List.exists_cons_of_ne_nil some
    have lags : run.samples.map Sample.totalLag =
        List.replicate run.samples.length minPeakLagToBeMeaningful := by
      rw [List.eq_replicate_iff]
      refine ⟨List.length_map .., fun lag member => ?_⟩
      obtain ⟨s, inside, rfl⟩ := List.mem_map.mp member
      obtain ⟨_, rfl⟩ := same s inside
      rfl
    change minPeakLagToBeMeaningful ≤ (run.samples.map Sample.totalLag).max?.getD 0
    rw [lags, samples]
    simp
  case accounted => exact made ▸ (by decide +kernel : ratio 0 1 ≤ maxUnaccountedSpanFraction)
  case probed =>
    rw [burst, baseline, probeLatency_n inside, probes, List.length_replicate]
    decide
  case undisturbed => exact made ▸ rfl

end

/-- Two scrapes that read the lag, and between them as many failing ones as a pace allows, all as
slow as it allows. -/
def gappedScrapes (pace : Pace) (slower : 0 ≤ pace.cycleS) : List Scrape :=
  slowScrape pace.cycleS slower (.read minPeakLagToBeMeaningful {}) ::
    (List.replicate pace.failing (slowScrape pace.cycleS slower .failed) ++
      [slowScrape pace.cycleS slower (.read minPeakLagToBeMeaningful {})])

section
variable {pace : Pace} {interval burstS ended : ℚ} (slower : 0 ≤ pace.cycleS)

theorem mem_gappedScrapes {scrape : Scrape} (member : scrape ∈ gappedScrapes pace slower) :
    scrape = slowScrape pace.cycleS slower (.read minPeakLagToBeMeaningful {}) ∨
      scrape = slowScrape pace.cycleS slower .failed := by
  rcases List.mem_cons.mp member with first | later
  · exact .inl first
  · rcases List.mem_append.mp later with failed | last
    · exact .inr (List.eq_of_mem_replicate failed)
    · exact .inl (List.mem_singleton.mp last)

theorem gapped_run (feasible : interval ≤ pace.cycleS) :
    HealthSampler.run interval 0 (gappedScrapes pace slower) = [recorded 0 minPeakLagToBeMeaningful {},
      recorded ((pace.failing + 1) * pace.cycleS) minPeakLagToBeMeaningful {}] := by
  obtain ⟨readCycle, failCycle⟩ :=
    period_slowScrape slower feasible minPeakLagToBeMeaningful {}
  have kept (t : ℚ) : sample (t, slowScrape pace.cycleS slower (.read minPeakLagToBeMeaningful {})) =
      some (recorded t minPeakLagToBeMeaningful {}) := rfl
  have idle : ∀ poll ∈ begun (period interval) pace.cycleS
      (List.replicate pace.failing (slowScrape pace.cycleS slower .failed)), sample poll = none := by
    intro poll member
    have failed := List.eq_of_mem_replicate (begun_made member)
    simp [sample, failed, slowScrape]
  have waited : pace.cycleS + ((List.replicate pace.failing
      (slowScrape pace.cycleS slower .failed)).map (period interval)).sum =
      (pace.failing + 1) * pace.cycleS := by
    rw [List.map_replicate, List.sum_replicate, nsmul_eq_mul, failCycle]
    ring
  rw [HealthSampler.run, gappedScrapes, begun, List.filterMap_cons_some (kept 0), readCycle, zero_add,
    begun_append, waited, begun, filterMap_head idle (kept _)]
  rfl

/-- The burst lasts until after the last of them. -/
theorem gapped_keeps (feasible : interval ≤ pace.cycleS)
    (lasts : (pace.failing + 1) * pace.cycleS < ended) :
    Keeps pace (pacedRun interval burstS 0 ended) 0 (gappedScrapes pace slower) none := by
  obtain ⟨readCycle, failCycle⟩ :=
    period_slowScrape slower feasible minPeakLagToBeMeaningful {}
  have waited : 0 ≤ (pace.failing + 1) * pace.cycleS := by positivity
  have later : 0 < ended := waited.trans_lt lasts
  refine ⟨?_, ?_, ?_⟩
  · intro scrape member
    rcases mem_gappedScrapes slower member with rfl | rfl
    · exact readCycle.le
    · exact failCycle.le
  · intro first idle next between
    have few := between.length_le
    rw [length_begun] at few
    simp only [gappedScrapes, List.length_cons, List.length_append, List.length_replicate,
      List.length_nil] at few
    omega
  · intro s member outside
    change s ∈ HealthSampler.run interval 0 (gappedScrapes pace slower) at member
    rw [gapped_run slower feasible] at member
    rw [pacedRun_window later later.le] at outside
    rcases List.mem_pair.mp member with rfl | rfl
    · exact absurd outside (by simp [recorded, later.le])
    · exact absurd outside (by simp [recorded, waited, lasts.le])

end

/-- So many scrapes fail between two that read the lag, all as slow as they may be. -/
theorem exists_unresolved {pace : Pace} {interval burstS : ℚ} (nonneg : 0 ≤ interval)
    (allowed : interval ≤ burstS / 4) (feasible : interval ≤ pace.cycleS)
    (slow : burstS / 4 < (pace.failing + 1) * pace.cycleS) :
    ∃ rest started scrapes, rest.sampleIntervalS = interval ∧ rest.burstS = burstS ∧
      Passing (sampled rest started scrapes).result ∧ Keeps pace rest started scrapes none ∧
      ¬ BurstObserved (sampled rest started scrapes).result none := by
  have slower : 0 ≤ pace.cycleS := nonneg.trans feasible
  have apart : 0 < (pace.failing + 1) * pace.cycleS := (nonneg.trans allowed).trans_lt slow
  let ended : ℚ := (pace.failing + 1) * pace.cycleS + 1
  have lasts : (pace.failing + 1) * pace.cycleS < ended := lt_add_one _
  have later : 0 < ended := apart.trans lasts
  have samples : (sampled (pacedRun interval burstS 0 ended) 0 (gappedScrapes pace slower)).samples =
      [recorded 0 minPeakLagToBeMeaningful {},
        recorded ((pace.failing + 1) * pace.cycleS) minPeakLagToBeMeaningful {}] :=
    gapped_run slower feasible
  refine ⟨pacedRun interval burstS 0 ended, 0, gappedScrapes pace slower, rfl, rfl, ?_,
    gapped_keeps slower feasible lasts, fun observed => ?_⟩
  · refine pacedRun_passing allowed later (fun s member => ?_) ?_
    · rw [samples] at member
      rcases List.mem_pair.mp member with rfl | rfl <;> exact ⟨_, rfl⟩
    · rw [samples]
      exact List.cons_ne_nil _ _
  · have close := observed.2 (recorded 0 minPeakLagToBeMeaningful {},
      recorded ((pace.failing + 1) * pace.cycleS) minPeakLagToBeMeaningful {}) (by
        change _ ∈ (sampled _ 0 (gappedScrapes pace slower)).samples.zip
          (sampled _ 0 (gappedScrapes pace slower)).samples.tail
        rw [samples]
        exact List.mem_singleton_self _)
    change 0 < (pacedRun interval burstS 0 ended).result.burstWindow.2 →
      (pacedRun interval burstS 0 ended).result.burstWindow.1 < (pace.failing + 1) * pace.cycleS →
      (pace.failing + 1) * pace.cycleS - 0 ≤ burstS / 4 at close
    rw [pacedRun_burst later, sub_zero] at close
    exact absurd (close later apart) (not_le.mpr slow)

theorem exists_uncalm {pace : Pace} {interval burstS : ℚ} (nonneg : 0 ≤ interval)
    (allowed : interval ≤ burstS / 4) (feasible : interval ≤ pace.cycleS)
    (lagging : minPeakLagToBeMeaningful ≤ pace.calmLag) :
    ∃ rest started scrapes, rest.sampleIntervalS = interval ∧ rest.burstS = burstS ∧
      Passing (sampled rest started scrapes).result ∧ Keeps pace rest started scrapes none ∧
      ¬ BurstObserved (sampled rest started scrapes).result none := by
  have slower : 0 ≤ pace.cycleS := nonneg.trans feasible
  let read := slowScrape pace.cycleS slower (.read minPeakLagToBeMeaningful {})
  have readCycle := (period_slowScrape slower feasible minPeakLagToBeMeaningful {}).1
  let rest := pacedRun interval burstS 1 2
  have later : (1 : ℚ) < 2 := by norm_num
  have burst : (sampled rest 0 [read]).result.burstWindow = (1, 2) := if_pos later
  have samples : (sampled rest 0 [read]).samples = [recorded 0 minPeakLagToBeMeaningful {}] := rfl
  refine ⟨rest, 0, [read], rfl, rfl, ?_, ⟨?_, ?_, ?_⟩, fun observed => ?_⟩
  · refine pacedRun_passing allowed later (fun s member => ?_) (List.cons_ne_nil _ _)
    exact ⟨0, List.mem_singleton.mp (samples ▸ member)⟩
  · intro scrape member
    obtain rfl := List.mem_singleton.mp member
    exact readCycle.le
  · intro first idle next between
    have few := between.length_le
    rw [length_begun, List.length_singleton] at few
    omega
  · intro s member _
    obtain rfl := List.mem_singleton.mp (samples ▸ member)
    exact lagging
  · obtain ⟨s, member, inside, -⟩ := observed.1
    change s ∈ (sampled rest 0 [read]).samples at member
    obtain rfl := List.mem_singleton.mp (samples ▸ member)
    change (sampled rest 0 [read]).result.burstWindow.1 ≤ 0 at inside
    rw [burst] at inside
    exact absurd inside (by norm_num)

/-- Runs that pass and keep a pace have all observed their burst exactly when a cycle for each
scrape that may fail in a row, and one more, fits into a quarter of the burst, and what
they read outside of burst and stall is no meaningful lag. -/
theorem burst_observed_iff {pace : Pace} {interval burstS : ℚ} (nonneg : 0 ≤ interval)
    (allowed : interval ≤ burstS / 4) (feasible : interval ≤ pace.cycleS) :
    (∀ (rest : Readings) (started : ℚ) (scrapes : List Scrape) (stallReleasedAt : Option ℚ),
      rest.sampleIntervalS = interval → rest.burstS = burstS →
      (∀ check ∈ validate (sampled rest started scrapes).result, check.passed = true) →
      Keeps pace rest started scrapes stallReleasedAt →
      BurstObserved (sampled rest started scrapes).result stallReleasedAt) ↔
    (pace.failing + 1) * pace.cycleS ≤ burstS / 4 ∧ pace.calmLag < minPeakLagToBeMeaningful := by
  constructor
  · intro observed
    constructor
    · by_contra slow
      obtain ⟨rest, started, scrapes, rfl, rfl, passing, keeps, unobserved⟩ :=
        exists_unresolved nonneg allowed feasible (not_le.mp slow)
      exact unobserved (observed _ _ _ _ rfl rfl ((passes_iff _).mpr passing) keeps)
    · by_contra lagging
      obtain ⟨rest, started, scrapes, rfl, rfl, passing, keeps, unobserved⟩ :=
        exists_uncalm nonneg allowed feasible (not_lt.mp lagging)
      exact unobserved (observed _ _ _ _ rfl rfl ((passes_iff _).mpr passing) keeps)
  · rintro ⟨prompt, calm⟩ rest started scrapes released rfl rfl passes keeps
    exact keeps.observed prompt calm ((passes_iff _).mp passes)

/-- A scrape that takes a given time and reads a lag, after so many spans. -/
def scrapeOf (seconds : ℕ) (totalLag : Int) (spans : ℕ) : Scrape where
  outcome := .read totalLag { acceptedSpans := spans, sentSpans := spans }
  seconds := seconds
  late := 0
  seconds_nonneg := Nat.cast_nonneg _
  late_nonneg := le_rfl

/-- Scrapes of five seconds, of which one fails during the burst. -/
def steadyScrapes : List Scrape :=
  List.replicate 9 (scrapeOf 5 100 0) ++ List.replicate 6 (scrapeOf 5 50000 0) ++
    { scrapeOf 5 0 0 with outcome := .failed } :: List.replicate 6 (scrapeOf 5 50000 0)

/-- They keep a pace that leaves room for two failures, and resolve a burst of a minute. -/
theorem burst_observed_steady :
    BurstObserved (sampled (stalledRun 600000 600000) 0 steadyScrapes).result (some 106) := by
  refine (@burst_observed_iff ⟨5, 2, 4999⟩ 1 60 (by norm_num) (by norm_num) (by norm_num)).mpr
    ⟨by norm_num, by decide⟩ (stalledRun 600000 600000) 0 steadyScrapes (some 106) rfl rfl
    (by decide +kernel) ⟨by decide +kernel, ?_, by decide +kernel⟩
  intro first idle next between
  exact between.idle_le.trans (by decide +kernel)

/-- A lag of the baseline, and then one scrape that takes the whole burst: every check
passes, and the burst was not looked at. -/
theorem burst_unobserved :
    let run := sampled (stalledRun 600000 600000) 0
      [scrapeOf 44 17454 0, scrapeOf 70 100 300000, scrapeOf 1 100 600000]
    (∀ check ∈ validate run.result, check.passed = true) ∧
      (∀ sample ∈ run.samples, sample.t < 45 ∨ 110 < sample.t) ∧
      ¬ BurstObserved run.result (some 106) := by
  refine ⟨by decide +kernel, by decide +kernel, by decide +kernel⟩

end TelemetryEngine.Experiments
