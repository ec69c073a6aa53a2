import TelemetryEngine.Dashboards.Source
import TelemetryEngine.Experiments.Backpressure
import TelemetryEngine.Foundation.Rounding
import TelemetryEngine.Ingest.Lag

/-! `summary` of `webdash/app.py`: the numbers of the live page and its bars of tenants. The
ten largest tenants have a bar each, and one bar has all the other spans. -/
namespace TelemetryEngine.Dashboards
open Cardinality Experiments Rollup Foundation.Calendar Foundation.Grouping
open Foundation.MergingTable Foundation.Rounding Ingest

def rateWindowS : Int := 60
def rateLagS : Int := 10

structure Summary where
  totalSpans : ℕ
  spansPerSec : Int
  consumerLag : Option Int
  droppedSpans : Option Int
  rollupRows : ℕ
  perMinute : List (Int × ℕ)
  tenants : List (String × ℕ)

/-- `SELECT tenant_id, countMerge(spans) AS n GROUP BY tenant_id ORDER BY n DESC` -/
def tenantSpans (source : Source) : List (String × ℕ) :=
  (source.by_ (fun _ => true) RollupKey.tenantId RollupState.spans).insertionSort
    fun first second => second.2 ≤ first.2

/-- Top ten by name, everything else folded into one. -/
def tenantBars (tenants : List (String × ℕ)) : List (String × ℕ) :=
  let top := (tenants.filter fun entry => entry.1 ≠ "__other__").take 10
  let shown := top.map Prod.fst
  let other := ((tenants.filter fun entry => entry.1 ∉ shown).map Prod.snd).sum
  top ++ [("__other__", other)]

/-- Everything the page shows. A lag that cannot be read is a gap. -/
def summary (now : Int) (rows : List SpanRow) (table : Spans1m)
    (collector : Option CollectorSnapshot) (lag : Except KafkaError LagSnapshot) : Summary where
  totalSpans := rows.length
  spansPerSec :=
    let recent := rows.countP fun row =>
      floorSecond now - (rateWindowS + rateLagS) * second ≤ row.time ∧
        row.time < floorSecond now - rateLagS * second
    roundHalfEven (recent / rateWindowS)
  consumerLag := lag.toOption.map LagSnapshot.totalLag
  droppedSpans := collector.map CollectorSnapshot.droppedSpans
  rollupRows := table.length
  perMinute := (Source.rollup table).by_
    (fun key => floorSecond now - 15 * minute ≤ key.tsMinute) RollupKey.tsMinute RollupState.spans
  tenants := tenantBars (tenantSpans (.rollup table))

/-! ### The bars -/

section
variable {tenants : List (String × ℕ)}

/-- The entries that no bar names are those beyond the first ten, and the sentinel's. -/
theorem filter_top (distinct : (tenants.map Prod.fst).Nodup) :
    let top := (tenants.filter fun entry => entry.1 ≠ "__other__").take 10
    tenants.filter (fun entry => entry.1 ∈ top.map Prod.fst) = top := by
  intro top
  have named : (tenants.filter fun entry => entry.1 ≠ "__other__") = top ++
      (tenants.filter fun entry => entry.1 ≠ "__other__").drop 10 :=
    (List.take_append_drop _ _).symm
  have proper : ∀ entry ∈ top, entry.1 ≠ "__other__" := fun entry member =>
    of_decide_eq_true (List.mem_filter.mp (List.mem_of_mem_take member)).2
  have apart : ((top ++ (tenants.filter fun entry => entry.1 ≠ "__other__").drop 10).map
      Prod.fst).Nodup := by
    rw [← named]
    exact distinct.sublist (List.filter_sublist.map _)
  have twice : tenants.filter (fun entry => entry.1 ∈ top.map Prod.fst) =
      (tenants.filter fun entry => entry.1 ≠ "__other__").filter
        fun entry => entry.1 ∈ top.map Prod.fst := by
    rw [List.filter_filter]
    refine List.filter_congr fun entry _ => ?_
    by_cases shown : entry.1 ∈ top.map Prod.fst
    · obtain ⟨bar, member, same⟩ := List.mem_map.mp shown
      simp [← same, proper bar member]
    · simp [shown]
  rw [twice, named, List.filter_append]
  rw [List.map_append, List.nodup_append] at apart
  have all : top.filter (fun entry => entry.1 ∈ top.map Prod.fst) = top :=
    List.filter_eq_self.mpr fun entry member => decide_eq_true (List.mem_map_of_mem member)
  have none : ((tenants.filter fun entry => entry.1 ≠ "__other__").drop 10).filter
      (fun entry => entry.1 ∈ top.map Prod.fst) = [] :=
    List.filter_eq_nil_iff.mpr fun entry member shown =>
      apart.2.2 _ (of_decide_eq_true shown) _ (List.mem_map_of_mem member) rfl
  rw [all, none, List.append_nil]

theorem tenantBars_sum (distinct : (tenants.map Prod.fst).Nodup) :
    ((tenantBars tenants).map Prod.snd).sum = (tenants.map Prod.snd).sum := by
  have top := filter_top distinct
  have parted := List.filter_append_perm (fun entry : String × ℕ => decide (entry.1 ∈
    ((tenants.filter fun entry => entry.1 ≠ "__other__").take 10).map Prod.fst)) tenants
  rw [← (parted.map Prod.snd).sum_eq, List.map_append, List.sum_append, top]
  simp [tenantBars]

theorem tenantBars_distinct (distinct : (tenants.map Prod.fst).Nodup) :
    ((tenantBars tenants).map Prod.fst).Nodup := by
  rw [tenantBars, List.map_append, List.nodup_append]
  refine ⟨?_, List.nodup_singleton _, ?_⟩
  · exact distinct.sublist (((List.take_sublist _ _).trans List.filter_sublist).map _)
  · rintro name shown _ member rfl
    obtain ⟨entry, member', rfl⟩ := List.mem_map.mp shown
    have proper := (List.mem_filter.mp (List.mem_of_mem_take member')).2
    simp only [List.map_cons, List.map_nil, List.mem_singleton] at member
    exact of_decide_eq_true proper member

/-- A bar that is not the last is an entry, and none larger is folded away. -/
theorem tenantBars_named (sorted : tenants.Pairwise fun first second => second.2 ≤ first.2)
    {bar : String × ℕ} (member : bar ∈ tenantBars tenants) (proper : bar.1 ≠ "__other__") :
    bar ∈ tenants ∧ ∀ entry ∈ tenants, entry.1 ∉ (tenantBars tenants).map Prod.fst →
      entry.2 ≤ bar.2 := by
  rw [tenantBars, List.mem_append, List.mem_singleton] at member
  rcases member with top | rfl
  · refine ⟨(List.mem_filter.mp (List.mem_of_mem_take top)).1, fun entry among folded => ?_⟩
    rw [tenantBars, List.map_append, List.mem_append, not_or] at folded
    have other : entry.1 ≠ "__other__" := by simpa using folded.2
    have kept : entry ∈ tenants.filter fun entry => entry.1 ≠ "__other__" :=
      List.mem_filter.mpr ⟨among, decide_eq_true other⟩
    rcases mem_take_or (sorted.filter fun entry => decide (entry.1 ≠ "__other__")) kept 10 with
      shown | ⟨_, behind⟩
    · exact absurd (List.mem_map_of_mem shown) folded.1
    · exact behind bar top
  · exact absurd rfl proper

end

/-- One span of a tenant that is registered, and two of others. -/
def threeTenants : List Block :=
  [⟨{("tenant_id", "a")}, [{ ts := 0, tenantId := "a" }, { ts := 1, tenantId := "b" }, { ts := 2 }]⟩]

end TelemetryEngine.Dashboards
