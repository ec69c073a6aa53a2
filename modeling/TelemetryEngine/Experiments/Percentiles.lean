import TelemetryEngine.Experiments.Backpressure
import TelemetryEngine.Foundation.OrderStatistics

/-! `probe_latency`: percentiles by truncated rank in the sorted latencies of a window. The
products that give the ranks are exact. -/
namespace TelemetryEngine.Experiments
open Foundation.OrderStatistics

namespace BackpressureResult

def latencies (result : BackpressureResult) (window : ℚ × ℚ) : List ℚ :=
  ((result.probes.filter fun p => window.1 ≤ p.t ∧ p.t < window.2 ∧ p.ok).map
    ProbeResult.latencyMs).insertionSort (· ≤ ·)

variable {result : BackpressureResult} {window : ℚ × ℚ}

theorem mem_latencies {x : ℚ} : x ∈ result.latencies window ↔
    ∃ p ∈ result.probes, window.1 ≤ p.t ∧ p.t < window.2 ∧ p.ok ∧ p.latencyMs = x := by
  simp only [latencies, List.mem_insertionSort, List.mem_map, List.mem_filter, decide_eq_true_eq,
    and_assoc]

theorem latencies_sorted : (result.latencies window).Pairwise (· ≤ ·) :=
  List.pairwise_insertionSort _ _

theorem latencies_perm {probes : List ProbeResult} (same : probes.Perm result.probes) :
    latencies { result with probes } window = result.latencies window := by
  refine List.Perm.eq_of_pairwise' (r := (· ≤ ·)) latencies_sorted latencies_sorted ?_
  simp only [latencies]
  exact ((List.perm_insertionSort _ _).trans ((same.filter _).map _)).trans
    (List.perm_insertionSort _ _).symm

theorem probeLatency_eq : result.probeLatency window =
    if (result.latencies window).length = 0 then {}
    else
      let values := result.latencies window
      let n := values.length
      { n
        p50 := values.getD (rank n (50 / 100)) 0
        p95 := values.getD (min (n - 1) (rank n (95 / 100))) 0
        p99 := values.getD (min (n - 1) (rank n (99 / 100))) 0
        max := values.getD (n - 1) 0 } := rfl

end BackpressureResult

/-- A summary of a window of at least one successful probe: every place that is looked up
exists, the percentiles are in order, and each is a quantile of the latencies. -/
structure LatencySummary.Of (summary : LatencySummary) (values : List ℚ) : Prop where
  n_eq : summary.n = values.length
  p50_at : values[rank values.length (50 / 100)]? = some summary.p50
  p95_at : values[min (values.length - 1) (rank values.length (95 / 100))]? = some summary.p95
  p99_at : values[min (values.length - 1) (rank values.length (99 / 100))]? = some summary.p99
  max_at : values[values.length - 1]? = some summary.max
  ordered : summary.p50 ≤ summary.p95 ∧ summary.p95 ≤ summary.p99 ∧ summary.p99 ≤ summary.max
  max_mem : summary.max ∈ values
  p50 : IsQuantile values (50 / 100) summary.p50
  p95 : IsQuantile values (95 / 100) summary.p95
  p99 : IsQuantile values (99 / 100) summary.p99

namespace BackpressureResult
variable {result : BackpressureResult} {window : ℚ × ℚ}

theorem getElem?_getD {values : List ℚ} {i : ℕ} (inside : i < values.length) :
    values[i]? = some (values.getD i 0) := by
  rw [List.getD_eq_getElem?_getD, List.getElem?_eq_getElem inside, Option.getD_some]

theorem probeLatency_of (probed : result.latencies window ≠ []) :
    (result.probeLatency window).Of (result.latencies window) := by
  have positive := List.length_pos_iff.mpr probed
  have sorted := @latencies_sorted result window
  rw [probeLatency_eq, if_neg positive.ne']
  generalize result.latencies window = values at positive sorted
  have first : rank values.length (50 / 100) < values.length :=
    rank_lt (by norm_num) (by norm_num) positive
  have second : rank values.length (95 / 100) < values.length :=
    rank_lt (by norm_num) (by norm_num) positive
  have third : rank values.length (99 / 100) < values.length :=
    rank_lt (by norm_num) (by norm_num) positive
  -- no rank reaches the length, so neither clamp does anything
  have clamp95 : min (values.length - 1) (rank values.length (95 / 100)) =
      rank values.length (95 / 100) := by omega
  have clamp99 : min (values.length - 1) (rank values.length (99 / 100)) =
      rank values.length (99 / 100) := by omega
  have p50 := getElem?_getD first
  have p95 := getElem?_getD second
  have p99 := getElem?_getD third
  have last : values[values.length - 1]? = some (values.getD (values.length - 1) 0) :=
    getElem?_getD (by omega)
  have early : rank values.length (50 / 100) ≤ rank values.length (95 / 100) :=
    rank_mono (by norm_num) (by norm_num) _
  have late : rank values.length (95 / 100) ≤ rank values.length (99 / 100) :=
    rank_mono (by norm_num) (by norm_num) _
  simp only [clamp95, clamp99]
  exact {
    n_eq := rfl
    p50_at := p50
    p95_at := by rw [clamp95]; exact p95
    p99_at := by rw [clamp99]; exact p99
    max_at := last
    ordered := ⟨getElem?_mono sorted p50 p95 early, getElem?_mono sorted p95 p99 late,
      getElem?_mono sorted p99 last (by omega)⟩
    max_mem := List.mem_of_getElem? last
    p50 := isQuantile_of_rank (by norm_num) sorted p50
    p95 := isQuantile_of_rank (by norm_num) sorted p95
    p99 := isQuantile_of_rank (by norm_num) sorted p99 }

theorem probeLatency_perm {probes : List ProbeResult} (same : probes.Perm result.probes) :
    probeLatency { result with probes } window = result.probeLatency window := by
  rw [probeLatency_eq, probeLatency_eq, latencies_perm same]

end BackpressureResult

open BackpressureResult

/-- For every list of probes and window that a successful probe falls into. -/
theorem percentiles_are_quantiles (result : BackpressureResult) (window : ℚ × ℚ)
    (probed : ∃ p ∈ result.probes, window.1 ≤ p.t ∧ p.t < window.2 ∧ p.ok) :
    (result.probeLatency window).Of (result.latencies window) ∧
      (∀ x ∈ result.latencies window,
        ∃ p ∈ result.probes, window.1 ≤ p.t ∧ p.t < window.2 ∧ p.ok ∧ p.latencyMs = x) ∧
      ∀ probes, probes.Perm result.probes →
        probeLatency { result with probes } window = result.probeLatency window := by
  obtain ⟨p, member, after, before, ok⟩ := probed
  have inside := mem_latencies.mpr ⟨p, member, after, before, ok, rfl⟩
  exact ⟨probeLatency_of (List.ne_nil_of_mem inside), fun _ => mem_latencies.mp,
    fun _ same => probeLatency_perm same⟩

/-- In no order, with a tie, beside a probe that failed and one after the window. -/
theorem percentiles_unordered :
    let result : BackpressureResult :=
      { baselineS := 45, burstS := 60, sampleIntervalS := 1
        probes := [{ t := 3, latencyMs := 9, ok := true }, { t := 1, latencyMs := 7, ok := true },
          { t := 2, latencyMs := 80, ok := false }, { t := 5, latencyMs := 30, ok := true },
          { t := 4, latencyMs := 7, ok := true }, { t := 50, latencyMs := 4, ok := true }] }
    (result.probeLatency (0, 45)).Of [7, 7, 9, 30] := by
  intro result
  have sorted : result.latencies (0, 45) = [7, 7, 9, 30] := by decide +kernel
  exact sorted ▸ (percentiles_are_quantiles result (0, 45)
    ⟨{ t := 1, latencyMs := 7, ok := true }, by simp [result]⟩).1

end TelemetryEngine.Experiments
