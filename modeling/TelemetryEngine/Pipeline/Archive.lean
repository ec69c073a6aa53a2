import TelemetryEngine.ColdTier.History
import TelemetryEngine.ColdTier.TopTenants
import TelemetryEngine.Pipeline.Live

/-! From the emitter to the canned queries of the lake. They read the view `spans`, in which
a span is as often as its message was delivered and exported. -/
namespace TelemetryEngine.Pipeline
open ColdTier Emitters Foundation Foundation.Calendar Foundation.Grouping Ingest

namespace Sent

def tenantId (sent : Sent) : String := textOf sent.2.1.attributes .tenantId

def day (sent : Sent) : String := String.ofList (dateOf (startTime sent.2)).isoFormat

end Sent

/-- A sum over some of the sent spans, each as often as the rows hold it. -/
def totalOf (traces : List SentTrace) (rows : List SpanRow) (chosen : Sent → Bool)
    (value : Sent → ℕ) : ℕ :=
  (((sentSpans traces).filter chosen).map fun sent => copies rows sent.1 sent.2 * value sent).sum

section
variable {traces : List SentTrace} {rows : List SpanRow}
  (distinct : ((sentSpans traces).map Sent.spanId).Nodup)
  (recorded : ∀ row ∈ rows, ∃ sent ∈ sentSpans traces, Records sent.1 sent.2 row)

include distinct recorded

theorem rows_total {selected : SpanRow → Bool} {chosen : Sent → Bool}
    (picks : ∀ (sent : Sent) row, Records sent.1 sent.2 row → selected row = chosen sent) :
    (rows.filter selected).length = totalOf traces rows chosen (fun _ => 1) ∧
      outputTokensOf (rows.filter selected) =
        totalOf traces rows chosen (Sent.count .genAiUsageOutputTokens) := by
  constructor
  · rw [totalOf, ← sum_sent distinct recorded picks fun _ _ _ => rfl, List.map_const',
      List.sum_replicate_nat, mul_one]
  · refine sum_sent distinct recorded picks fun sent row records => ?_
    rw [Sent.count, ← records.outputTokens, Int.toNat_natCast]

theorem volumes_total (millions : ℕ → ℚ) {dt : String} {volume : DailyVolume} :
    (dt, volume) ∈ grouped SpanRow.day (DailyVolume.of millions) rows ↔
      0 < totalOf traces rows (·.day = dt) (fun _ => 1) ∧
        volume = ⟨totalOf traces rows (·.day = dt) fun _ => 1,
          millions (totalOf traces rows (·.day = dt) (Sent.count .genAiUsageOutputTokens))⟩ := by
  have day (sent : Sent) (row : SpanRow) (records : Records sent.1 sent.2 row) :
      decide (SpanRow.day row = dt) = decide (sent.day = dt) := by
    rw [SpanRow.day, records.time, Sent.day]
  obtain ⟨spans, tokens⟩ := rows_total distinct recorded day
  have occurs : dt ∈ rows.map SpanRow.day ↔
      0 < (rows.filter fun row => SpanRow.day row = dt).length := by
    simp [List.length_pos_iff, List.filter_eq_nil_iff]
  rw [mem_grouped, occurs, ← spans, ← tokens, eq_comm, DailyVolume.of, outputTokensOf]

end

/-- After any history of deliveries and exports, each copy of a sent span is in the lake, waits
or was missed, and the canned queries add up the copies in the lake: a tenant has the spans
and tokens of its sent spans, a day those that started on it, each times its copies. -/
theorem archive_counts_copies (millions : ℕ → ℚ) (tenths : ℚ → ℚ) (functions : Functions)
    (server : Server) {traces : List SentTrace} {events : List Event}
    (admitted : Meets World.step (fun world event => event.Admitted server world) .initial events)
    (delivers : ∀ rows, .append rows ∈ events → Delivers functions traces rows)
    (distinct : ((sentSpans traces).map Sent.spanId).Nodup) :
    let world := World.initial.steps events
    let rows := world.tier.lakeRows
    let total := totalOf traces rows
    (∀ sent ∈ sentSpans traces, copies rows sent.1 sent.2 + (copies world.pending sent.1 sent.2 +
      copies (World.initial.missedBy events) sent.1 sent.2) =
        copies (events.flatMap Event.appended) sent.1 sent.2) ∧
      (∃ top, Leaders rows top ∧ topTenantsByTokens tenths world.tier.files =
        if rows = [] then .error .binder else .ok top) ∧
      (∀ tenantId, (ofTenant tenantId rows).length = total (·.tenantId = tenantId) (fun _ => 1) ∧
        outputTokensOf (ofTenant tenantId rows) =
          total (·.tenantId = tenantId) (Sent.count .genAiUsageOutputTokens)) ∧
      ∀ dt volume, Answers (dailyVolume millions world.tier.files) (dt, volume) ↔
        0 < total (·.day = dt) (fun _ => 1) ∧
          volume = ⟨total (·.day = dt) fun _ => 1,
            millions (total (·.day = dt) (Sent.count .genAiUsageOutputTokens))⟩ := by
  intro world rows total
  obtain ⟨accounted, balance⟩ := accounted_run admitted
  have full := World.full events
  have dated : DatedRows world.tier.view.lake := DatedRows.run admitted
  have placed : (rows ++ (world.pending ++ World.initial.missedBy events)).Perm
      (events.flatMap Event.appended) :=
    ((accounted.openLake full).2.append_right _).trans balance
  have recorded : ∀ row ∈ rows, ∃ sent ∈ sentSpans traces, Records sent.1 sent.2 row := by
    intro row member
    obtain ⟨trace, sent, span, emitted, records⟩ :=
      appended_record delivers row (placed.mem_iff.mp (List.mem_append_left _ member))
    exact ⟨(trace, span), mem_sentSpans.mpr ⟨sent, emitted⟩, records⟩
  refine ⟨fun sent _ => ?_, accounted.topTenants full dated tenths, fun tenantId => ?_,
    fun dt volume => ?_⟩
  · simp only [copies, ← placed.countP_eq, List.countP_append]
  · refine rows_total distinct recorded fun sent row records => ?_
    rw [records.tenantId, Sent.tenantId]
  · have lines := grouped_map Prod.fst
      (fun rows => DailyVolume.of millions (rows.map Prod.snd))
      (fun row : SpanRow => (SpanRow.day row, row)) rows
    simp only [List.map_map, Function.comp_def, List.map_id'] at lines
    rw [dailyVolume_eq, accounted.answers full dated rfl, lines]
    exact volumes_total distinct recorded millions

/-- The three spans of the agent's trace, delivered twice, are six of their day. -/
theorem archive_counts_copies_redelivered :
    Answers (dailyVolume (fun tokens => tokens / 1000000) (World.initial.steps agentEvents).tier.files)
      ("2023-11-14", ⟨6, 0⟩) := by
  have distinct : ((sentSpans [agentSent]).map Sent.spanId).Nodup := by decide +kernel
  obtain ⟨-, -, -, days⟩ := archive_counts_copies (fun tokens => tokens / 1000000) id _ .deployed
    agentEvents_admitted agentEvents_delivered distinct
  exact (days _ _).mpr (by decide +kernel)

end TelemetryEngine.Pipeline
