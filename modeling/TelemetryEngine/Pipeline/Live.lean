import TelemetryEngine.Dashboards.Overview
import TelemetryEngine.Pipeline.EndToEnd

/-! From the emitter to the dashboard. The messages that the exports follow into the lake
make the rollup too, and there nothing drops a second copy. -/
namespace TelemetryEngine.Pipeline
open Cardinality Dashboards Emitters Foundation.Calendar Foundation.Grouping Foundation.MergingTable
open Ingest Rollup

abbrev Sent := SentTrace × Positioned

namespace Sent

def spanId (sent : Sent) : String := sent.1.ids.spanId sent.2.2

def minute (sent : Sent) : Int := floorMinute (startTime sent.2)

def count (key : AttributeKey) (sent : Sent) : ℕ := (countOf sent.2.1.attributes key).toNat

def failures (sent : Sent) : ℕ := if textOf sent.2.1.attributes .statusClass = "ok" then 0 else 1

end Sent

def sentSpans (traces : List SentTrace) : List Sent :=
  traces.flatMap fun trace => trace.spans.map (Prod.mk trace)

/-- A sum over the sent spans of some minutes, each as often as the rows hold it. -/
def delivered (traces : List SentTrace) (rows : List SpanRow) (shown : Int → Bool)
    (value : Sent → ℕ) : ℕ :=
  (((sentSpans traces).filter fun sent => shown sent.minute).map fun sent =>
    copies rows sent.1 sent.2 * value sent).sum

section
variable {functions : Functions} {traces : List SentTrace} {blocks : List Block}
  {rows : List SpanRow} {shown : Int → Bool}

theorem mem_sentSpans {sent : Sent} :
    sent ∈ sentSpans traces ↔ sent.1 ∈ traces ∧ sent.2 ∈ sent.1.spans := by
  obtain ⟨trace, span⟩ := sent
  simp only [sentSpans, List.mem_flatMap, List.mem_map, Prod.mk.injEq]
  constructor
  · rintro ⟨_, sent, _, emitted, rfl, rfl⟩
    exact ⟨sent, emitted⟩
  · rintro ⟨sent, emitted⟩
    exact ⟨trace, sent, span, emitted, rfl, rfl⟩

theorem toNat_sum (column : SpanRow → UInt32) (rows : List SpanRow) :
    ((rows.map fun row => (column row).toUInt64).sum).toNat =
      (rows.map fun row => (column row).toNat).sum % 2 ^ 64 := by
  induction rows with
  | nil => rfl
  | cons row rest ih =>
    rw [List.map_cons, List.map_cons, List.sum_cons, List.sum_cons, UInt64.toNat_add, ih,
      Nat.add_mod_mod, UInt32.toNat_toUInt64]

theorem errors_allowed {seen : List Seen}
    (allowed : ∀ each ∈ seen, ("status_class", "ok") ∈ each.dictionary) :
    (rawState seen).errors =
      ((seen.map Seen.row).map fun row => if row.statusClass = "ok" then 0 else 1).sum := by
  change seen.countP (fun each => each.key.statusClass ≠ "ok") = _
  induction seen with
  | nil => rfl
  | cons first rest ih =>
    obtain ⟨here, later⟩ := List.forall_mem_cons.mp allowed
    have same : first.key.statusClass = "ok" ↔ first.row.statusClass = "ok" := by
      rw [Seen.key, rollupKey, guarded_ok, and_iff_left here]
    rw [List.countP_cons, ih later, List.map_cons, List.map_cons, List.sum_cons, Nat.add_comm]
    simp only [ne_eq, same, decide_not, Bool.not_eq_true', decide_eq_false_iff_not, ite_not]

theorem blocks_record (delivers : ∀ block ∈ blocks, Delivers functions traces block.rows) :
    ∀ row ∈ blocks.flatMap Block.rows, ∃ sent ∈ sentSpans traces, Records sent.1 sent.2 row := by
  intro row member
  obtain ⟨block, made, inside⟩ := List.mem_flatMap.mp member
  obtain ⟨trace, sent, span, emitted, records⟩ := (delivers block made).records row inside
  exact ⟨(trace, span), mem_sentSpans.mpr ⟨sent, emitted⟩, records⟩

variable (distinct : ((sentSpans traces).map Sent.spanId).Nodup)
  (recorded : ∀ row ∈ rows, ∃ sent ∈ sentSpans traces, Records sent.1 sent.2 row)

include distinct recorded

/-- What rows are worth, where it can be read off the span. -/
theorem sum_sent {selected : SpanRow → Bool} {chosen : Sent → Bool}
    (picks : ∀ sent row, Records sent.1 sent.2 row → selected row = chosen sent)
    {worth : SpanRow → ℕ} {value : Sent → ℕ}
    (reads : ∀ sent row, Records sent.1 sent.2 row → worth row = value sent) :
    ((rows.filter selected).map worth).sum =
      (((sentSpans traces).filter chosen).map fun sent =>
        copies rows sent.1 sent.2 * value sent).sum := by
  have known : ∀ row ∈ rows, ∃ sent ∈ sentSpans traces, row.spanId = sent.spanId ∧
      selected row = chosen sent ∧ worth row = value sent := by
    intro row member
    obtain ⟨sent, among, records⟩ := recorded row member
    exact ⟨sent, among, records.spanId, picks sent row records, reads sent row records⟩
  exact sum_by_label distinct known

theorem sum_delivered {worth : SpanRow → ℕ} {value : Sent → ℕ}
    (reads : ∀ sent row, Records sent.1 sent.2 row → worth row = value sent) :
    ((rows.filter fun row => shown (floorMinute row.time)).map worth).sum =
      delivered traces rows shown value :=
  sum_sent distinct recorded (fun sent row records => by rw [records.time, Sent.minute]) reads

theorem length_delivered : (rows.filter fun row => shown (floorMinute row.time)).length =
    delivered traces rows shown fun _ => 1 := by
  rw [← sum_delivered distinct recorded fun _ _ _ => rfl, List.map_const', List.sum_replicate_nat,
    mul_one]

/-- The integer columns that are sums of the dashboard. -/
theorem tokens_delivered {key : AttributeKey} {column : SpanRow → UInt32}
    (reads : ∀ (sent : Sent) row, Records sent.1 sent.2 row →
      ((column row).toNat : Int) = countOf sent.2.1.attributes key) :
    (((rows.filter fun row => shown (floorMinute row.time)).map fun row =>
        (column row).toUInt64).sum).toNat =
      delivered traces rows shown (Sent.count key) % 2 ^ 64 := by
  rw [toNat_sum, sum_delivered distinct recorded fun sent row records => ?_]
  rw [Sent.count, ← reads sent row records, Int.toNat_natCast]

theorem minute_delivered {minute : Int} : minute ∈ rows.map (fun row => floorMinute row.time) ↔
    0 < delivered traces rows (· = minute) fun _ => 1 := by
  rw [← length_delivered distinct recorded, List.length_pos_iff_exists_mem]
  simp only [List.mem_map, List.mem_filter, decide_eq_true_eq]

theorem traces_delivered :
    ((rows.filter fun row => shown (floorMinute row.time)).map SpanRow.traceId).toFinset =
      (((sentSpans traces).filter fun sent => shown sent.minute && 0 < copies rows sent.1 sent.2).map
        fun sent => sent.1.ids.traceId).toFinset := by
  ext traceId
  simp only [List.mem_toFinset, List.mem_map, List.mem_filter, Bool.and_eq_true,
    decide_eq_true_eq, copies, List.countP_pos_iff]
  constructor
  · rintro ⟨row, ⟨member, inView⟩, rfl⟩
    obtain ⟨sent, among, records⟩ := recorded row member
    rw [records.time] at inView
    exact ⟨sent, ⟨among, inView, row, member, records.spanId⟩, records.traceId.symm⟩
  · rintro ⟨sent, ⟨among, inView, row, member, same⟩, rfl⟩
    obtain ⟨other, otherAmong, records⟩ := recorded row member
    obtain rfl : other = sent := List.inj_on_of_nodup_map distinct otherAmong among
      (records.spanId.symm.trans same)
    exact ⟨row, ⟨member, by rw [records.time]; exact inView⟩, records.traceId⟩

end

/-! ### What the queries read -/

section
variable {traces : List SentTrace} {blocks : List Block} {shown : Int → Bool}
  (distinct : ((sentSpans traces).map Sent.spanId).Nodup)
  (recorded : ∀ row ∈ blocks.flatMap Block.rows, ∃ sent ∈ sentSpans traces,
    Records sent.1 sent.2 row)

include distinct recorded

theorem whole_delivered :
    let all := (Source.raw (blocks.flatMap seenRows)).whole fun key => shown key.tsMinute
    all.spans = delivered traces (blocks.flatMap Block.rows) shown (fun _ => 1) ∧
      all.outputTokens.toNat = delivered traces (blocks.flatMap Block.rows) shown
        (Sent.count .genAiUsageOutputTokens) % 2 ^ 64 ∧
      all.traces = (((sentSpans traces).filter fun sent => shown sent.minute &&
        0 < copies (blocks.flatMap Block.rows) sent.1 sent.2).map fun sent =>
          sent.1.ids.traceId).toFinset := by
  intro all
  have whole : plain all = _ := whole_rows (blocks.flatMap seenRows)
  rw [seenRows_row] at whole
  refine ⟨?_, ?_, ?_⟩
  · rw [← length_delivered distinct recorded, ← plainState_spans, ← whole]
    rfl
  · rw [← tokens_delivered distinct recorded fun _ _ records => records.outputTokens,
      ← plainState_outputTokens, ← whole]
    rfl
  · rw [← traces_delivered distinct recorded, ← plainState_traces, ← whole]
    rfl

theorem tokens_by_minute :
    let lines := (Source.raw (blocks.flatMap seenRows)).by_ (fun key => shown key.tsMinute)
      RollupKey.tsMinute fun state => (state.inputTokens, state.outputTokens)
    let total := delivered traces (blocks.flatMap Block.rows)
    (lines.map Prod.fst).Pairwise (· < ·) ∧ ∀ minute input output,
      (minute, input, output) ∈ lines ↔ shown minute ∧ 0 < total (· = minute) (fun _ => 1) ∧
        total (· = minute) (Sent.count .genAiUsageInputTokens) % 2 ^ 64 = input.toNat ∧
        total (· = minute) (Sent.count .genAiUsageOutputTokens) % 2 ^ 64 = output.toNat := by
  intro lines total
  have grouped_lines : lines = _ := by_rows (fun _ => rfl) (blocks.flatMap seenRows)
  rw [grouped_lines, seenRows_row]
  refine ⟨grouped_keys.1, fun minute input output => ?_⟩
  rw [mem_grouped_filter, minute_delivered distinct recorded]
  refine and_congr_right fun _ => and_congr_right fun _ => ?_
  rw [← tokens_delivered distinct recorded fun _ _ records => records.inputTokens,
    ← tokens_delivered distinct recorded fun _ _ records => records.outputTokens]
  simp only [plainState_inputTokens, plainState_outputTokens, Prod.mk.injEq, UInt64.toNat_inj]

theorem errors_delivered
    (allowed : ∀ block ∈ blocks, ("status_class", "ok") ∈ block.dictionary) :
    ((Source.raw (blocks.flatMap seenRows)).whole fun key => shown key.tsMinute).errors =
      delivered traces (blocks.flatMap Block.rows) shown Sent.failures := by
  have loaded : ∀ each ∈ (blocks.flatMap seenRows).filter fun each => shown each.key.tsMinute,
      ("status_class", "ok") ∈ each.dictionary := by
    intro each member
    obtain ⟨block, made, inside⟩ := List.mem_flatMap.mp (List.mem_of_mem_filter member)
    obtain ⟨row, _, rfl⟩ := List.mem_map.mp inside
    exact allowed block made
  rw [Source.raw, errors_allowed loaded, filter_shown, seenRows_row]
  exact sum_delivered distinct recorded fun sent row records => by
    rw [Sent.failures, records.statusClass]

end

/-- The agent's message, delivered twice. -/
def agentBlocks : List Block :=
  [⟨{("status_class", "ok")}, agentRows⟩, ⟨{("status_class", "ok")}, agentRows⟩]

end TelemetryEngine.Pipeline
