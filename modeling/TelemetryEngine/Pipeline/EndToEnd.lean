import TelemetryEngine.ColdTier.Conservation
import TelemetryEngine.Ingest.Agreement

/-! From the emitter to the deduplicated lake. A trace goes out in messages, which may
arrive in any blocks, any number of times; each block adds its rows to the hot tier, and
the exports move them on. -/
namespace TelemetryEngine.Pipeline
open Foundation Foundation.Calendar Foundation.RowNumber Emitters Ingest ColdTier

/-- A trace as the SDK sends it, with spans such as OTLP holds. -/
structure SentTrace where
  ids : TraceIds
  root : SpanData
  startNs : Int
  emittable : ∀ span ∈ emitSpan startNs none 0 root, Emittable span

def SentTrace.spans (trace : SentTrace) : List Positioned :=
  (emitSpan trace.startNs none 0 trace.root).zipIdx

/-- The collector keys messages by trace: one message holds spans of one trace. -/
def SentTrace.CarriedBy (trace : SentTrace) (functions : Functions) (raw : String) : Prop :=
  ∃ json message, functions.parse raw = some json ∧ EncodesMessage trace.ids json message ∧
    ∀ placed ∈ spansOf message, placed.2 ∈ trace.spans

/-- What the view writes for a block of such messages. -/
def Delivers (functions : Functions) (traces : List SentTrace) (rows : List SpanRow) : Prop :=
  ∃ block, (∀ raw ∈ block, ∃ trace ∈ traces, trace.CarriedBy functions raw) ∧
    rows = (mvSpansRaw functions block).map DecodedRow.columns

/-- No two spans have one id. -/
def IdsDistinct (traces : List SentTrace) : Prop :=
  ∀ trace ∈ traces, ∀ span ∈ trace.spans, ∀ other ∈ traces, ∀ otherSpan ∈ other.spans,
    trace.ids.spanId span.2 = other.ids.spanId otherSpan.2 → span = otherSpan

/-- The row holds the span. -/
def Records (trace : SentTrace) (span : Positioned) (row : SpanRow) : Prop :=
  ∃ resource decoded, Agrees trace.ids decoded (resource, span) ∧ decoded.columns = row

/-- The start of a span, to the millisecond that its rows keep. -/
def startTime (span : Positioned) : Int := span.1.startNs / 1000000 * 1000

theorem idsDistinct_singleton {sent : SentTrace} (distinct : sent.ids.Distinct sent.spans.length) :
    IdsDistinct [sent] := by
  intro trace member span emitted other otherMember otherSpan otherEmitted same
  rw [List.mem_singleton.mp member] at emitted same
  rw [List.mem_singleton.mp otherMember] at otherEmitted same
  have inside {placed : Positioned} (here : placed ∈ sent.spans) : placed.2 < sent.spans.length := by
    simpa [SentTrace.spans] using List.snd_lt_of_mem_zipIdx here
  have position := distinct.injective _ (inside emitted) _ (inside otherEmitted) same
  have first := List.mem_zipIdx_iff_getElem?.mp emitted
  have second := List.mem_zipIdx_iff_getElem?.mp otherEmitted
  rw [position, second, Option.some.injEq] at first
  exact Prod.ext first.symm position

section
variable {functions : Functions} {traces : List SentTrace} {trace : SentTrace} {span : Positioned}
  {rows : List SpanRow} {row : SpanRow}

theorem Records.spanId (records : Records trace span row) :
    row.spanId = trace.ids.spanId span.2 := by
  obtain ⟨_, _, agrees, rfl⟩ := records
  exact agrees.spanId

theorem Records.traceId (records : Records trace span row) : row.traceId = trace.ids.traceId := by
  obtain ⟨_, _, agrees, rfl⟩ := records
  exact agrees.traceId

theorem Records.time (records : Records trace span row) : row.time = startTime span := by
  obtain ⟨_, _, agrees, rfl⟩ := records
  rw [SpanRow.time, agrees.ts.2, agrees.ts.1, startTime]

theorem Records.tenantId (records : Records trace span row) :
    row.tenantId = textOf span.1.attributes .tenantId := by
  obtain ⟨_, _, agrees, rfl⟩ := records
  exact agrees.tenantId

theorem Records.model (records : Records trace span row) :
    row.model = textOf span.1.attributes .genAiRequestModel := by
  obtain ⟨_, _, agrees, rfl⟩ := records
  exact agrees.model

theorem Records.durationMs (records : Records trace span row) :
    row.durationMs = (span.1.endNs - span.1.startNs : Int) / 1000000 := by
  obtain ⟨_, _, agrees, rfl⟩ := records
  exact agrees.durationMs

theorem Records.statusClass (records : Records trace span row) :
    row.statusClass = textOf span.1.attributes .statusClass := by
  obtain ⟨_, _, agrees, rfl⟩ := records
  exact agrees.statusClass

theorem Records.inputTokens (records : Records trace span row) :
    (row.inputTokens.toNat : Int) = countOf span.1.attributes .genAiUsageInputTokens := by
  obtain ⟨_, _, agrees, rfl⟩ := records
  exact agrees.inputTokens

theorem Records.outputTokens (records : Records trace span row) :
    (row.outputTokens.toNat : Int) = countOf span.1.attributes .genAiUsageOutputTokens := by
  obtain ⟨_, _, agrees, rfl⟩ := records
  exact agrees.outputTokens

theorem forall₂_left {R : A → B → Prop} {xs : List A} {ys : List B}
    (related : List.Forall₂ R xs ys) :
    ∀ x ∈ xs, ∃ y ∈ ys, R x y := by
  induction related with
  | nil => simp
  | cons first _ ih =>
    refine List.forall_mem_cons.mpr ⟨⟨_, by simp, first⟩, fun x member => ?_⟩
    obtain ⟨y, inside, holds⟩ := ih x member
    exact ⟨y, by simp [inside], holds⟩

/-- Every delivered row holds a span that was sent. -/
theorem Delivers.records (delivers : Delivers functions traces rows) :
    ∀ row ∈ rows, ∃ trace ∈ traces, ∃ span ∈ trace.spans, Records trace span row := by
  obtain ⟨block, carried, rfl⟩ := delivers
  intro row member
  obtain ⟨decoded, written, rfl⟩ := List.mem_map.mp member
  obtain ⟨raw, inside, from_raw⟩ := List.mem_flatMap.mp written
  obtain ⟨trace, sent, json, message, parsed, encodes, spans⟩ := carried raw inside
  have emittable : ∀ placed ∈ spansOf message, Emittable placed.2.1 := fun placed member =>
    trace.emittable _ (List.fst_mem_of_mem_zipIdx (spans placed member))
  rw [parsed] at from_raw
  obtain ⟨placed, placedIn, agrees⟩ :=
    forall₂_left (decodeMessage_agrees encodes emittable) decoded from_raw
  exact ⟨trace, sent, placed.2, spans placed placedIn, placed.1, decoded, agrees, rfl⟩

theorem appended_record {events : List Event}
    (delivers : ∀ rows, .append rows ∈ events → Delivers functions traces rows) :
    ∀ row ∈ events.flatMap Event.appended,
      ∃ trace ∈ traces, ∃ span ∈ trace.spans, Records trace span row := by
  intro row member
  obtain ⟨event, made, inside⟩ := List.mem_flatMap.mp member
  cases event with
  | append rows => exact (delivers rows made).records row inside
  | expire | call => simp [Event.appended] at inside

theorem exists_records (distinct : IdsDistinct traces)
    (delivered : ∀ row ∈ rows, ∃ trace ∈ traces, ∃ span ∈ trace.spans, Records trace span row)
    (sent : trace ∈ traces) (emitted : span ∈ trace.spans) (member : row ∈ rows)
    (id : row.spanId = trace.ids.spanId span.2) : ∃ other, Records other span row := by
  obtain ⟨other, otherSent, otherSpan, otherEmitted, records⟩ := delivered row member
  have same := distinct trace sent span emitted other otherSent otherSpan otherEmitted
    (id.symm.trans records.spanId)
  exact ⟨other, same ▸ records⟩

theorem records_of_id (distinct : IdsDistinct traces)
    (delivered : ∀ row ∈ rows, ∃ trace ∈ traces, ∃ span ∈ trace.spans, Records trace span row)
    (sent : trace ∈ traces) (emitted : span ∈ trace.spans) (member : row ∈ rows)
    (id : row.spanId = trace.ids.spanId span.2) : row.time = startTime span := by
  obtain ⟨other, records⟩ := exists_records distinct delivered sent emitted member id
  exact records.time

end

def Passed (world : World) (instant : Int) : Prop :=
  ∃ watermark, world.tier.readWatermark = some watermark ∧ instant < watermark

instance (world : World) (instant : Int) : Decidable (Passed world instant) :=
  match found : world.tier.readWatermark with
  | none => .isFalse fun ⟨_, reads, _⟩ => by simp [found] at reads
  | some watermark => decidable_of_iff (instant < watermark) (by simp [Passed, found])

theorem behind_iff {world : World} {row : SpanRow} :
    world.behind row = true ↔ Passed world row.time := by
  unfold World.behind Passed
  cases world.tier.readWatermark <;> simp

def copies (rows : List SpanRow) (trace : SentTrace) (span : Positioned) : ℕ :=
  rows.countP (·.spanId = trace.ids.spanId span.2)

/-- No copy waits that the watermark has passed. -/
theorem copies_pending {world : World} {trace : SentTrace} {span : Positioned}
    (times : ∀ row ∈ world.pending, row.spanId = trace.ids.spanId span.2 →
      row.time = startTime span) (passed : Passed world (startTime span)) :
    copies world.pending trace span = 0 := by
  refine List.countP_eq_zero.mpr fun row member id => ?_
  have time := times row member (of_decide_eq_true id)
  have ahead := (List.mem_filter.mp member).2
  rw [behind_iff.mpr (time ▸ passed)] at ahead
  contradiction

/-- However often and in whatever blocks the messages arrive, and however the exports fall
between them, the deduplicated view holds sent spans only, and a span once exactly when
the watermark has passed its start and not all its copies were missed. -/
theorem spans_exactly_once (functions : Functions) (server : Server) {traces : List SentTrace}
    {events : List Event} (engine : PartitionOrder SpanRow.ts)
    (admitted : Meets World.step (fun world event => event.Admitted server world) .initial events)
    (delivers : ∀ rows, .append rows ∈ events → Delivers functions traces rows)
    (distinct : IdsDistinct traces) :
    let world := World.initial.steps events
    ∃ spans, spansView world.tier.files = .ok spans ∧
      let deduped := spansDeduped engine (spans.getD [])
      (∀ row ∈ deduped, ∃ trace ∈ traces, ∃ span ∈ trace.spans, Records trace span row) ∧
      ∀ trace ∈ traces, ∀ span ∈ trace.spans, copies deduped trace span =
        if Passed world (startTime span) ∧
          copies (World.initial.missedBy events) trace span <
            copies (events.flatMap Event.appended) trace span then 1 else 0 := by
  intro world
  obtain ⟨accounted, balance⟩ := accounted_run admitted
  obtain ⟨spans, opened, read⟩ := accounted.opens (World.full events)
  have total : (spans.getD [] ++ (world.pending ++ World.initial.missedBy events)).Perm
      (events.flatMap Event.appended) := (read.append_right _).trans balance
  have delivered := appended_record delivers
  have dedup := spansDeduped_deduplicates engine (spans.getD [])
  refine ⟨spans, opened, fun row member => ?_, fun trace sent span emitted => ?_⟩
  · exact delivered row (total.mem_iff.mp (List.mem_append_left _ (dedup.occurs member)))
  have times (row : SpanRow) (member : row ∈ events.flatMap Event.appended)
      (id : row.spanId = trace.ids.spanId span.2) : row.time = startTime span :=
    records_of_id distinct delivered sent emitted member id
  have counted := total.countP_eq (·.spanId = trace.ids.spanId span.2)
  rw [List.countP_append, List.countP_append] at counted
  have occurs : trace.ids.spanId span.2 ∈ (spans.getD []).map SpanRow.spanId ↔
      0 < copies (spans.getD []) trace span := by
    simp [copies, List.countP_pos_iff]
  refine (dedup.one (trace.ids.spanId span.2)).trans (if_congr (occurs.trans ?_) rfl rfl)
  by_cases passed : Passed world (startTime span)
  · have waiting := copies_pending (fun row member => times row (total.mem_iff.mp (by simp [member])))
      passed
    simp only [copies] at waiting ⊢
    rw [waiting] at counted
    simp only [passed, true_and]
    omega
  · simp only [passed, false_and, iff_false, not_lt, Nat.le_zero]
    refine List.countP_eq_zero.mpr fun row member id => passed ?_
    have time := times row (total.mem_iff.mp (by simp [member])) (of_decide_eq_true id)
    exact time ▸ behind_iff.mp (accounted.behind row (read.mem_iff.mp member))

def agentSent : SentTrace where
  ids := agentIds
  root := agentTrace
  startNs := 1700000000000000000
  emittable := agentSpans_emittable

/-- What the view reads of a message. -/
def rowsOf (ids : TraceIds) (message : Message) : List SpanRow :=
  let json := encodeMessage ids message
  (decodeMessage (readingFunctions [json]) json).map DecodedRow.columns

theorem rowsOf_delivered (sent : SentTrace) {message : Message}
    (own : ∀ placed ∈ spansOf message, placed.2 ∈ sent.spans) :
    Delivers (readingFunctions [encodeMessage sent.ids message]) [sent] (rowsOf sent.ids message) := by
  refine ⟨[(encodeMessage sent.ids message).text fun _ => ""], fun raw member => ?_, ?_⟩
  · obtain rfl := List.mem_singleton.mp member
    exact ⟨sent, by simp, _, message, readingFunctions_parse _, encodeMessage_encodes _ _, own⟩
  · rw [mvSpansRaw, List.flatMap_singleton, readingFunctions_parse]
    rfl

def agentRows : List SpanRow := rowsOf agentIds agentMessage

theorem agentRows_delivered :
    Delivers (readingFunctions [encodeMessage agentIds agentMessage]) [agentSent] agentRows :=
  rowsOf_delivered agentSent (by decide +kernel)

/-- An export ten minutes after the trace, its message delivered twice. -/
def agentExport : ExportCall where
  now := 1700000600 * second
  oldest := .ok (Server.deployed.minTs (agentRows ++ agentRows))
  answers := Server.deployed.answers (agentRows ++ agentRows)

def agentEvents : List Event := [.append agentRows, .append agentRows, .call agentExport]

theorem agentExport_admitted : Exporting .deployed
    ((World.initial.step (.append agentRows)).step (.append agentRows)) agentExport := by
  have hot : ((World.initial.step (.append agentRows)).step (.append agentRows)).hot =
      agentRows ++ agentRows := by
    simp only [World.step, World.initial, List.nil_append]
  refine ⟨⟨rfl, by decide, by decide⟩, by decide +kernel, by decide, by decide +kernel, ?_, ?_⟩
  · exact fun window => hot ▸ answers_truthful .deployed (agentRows ++ agentRows) window
  · intro oldest found
    exact hot ▸ (Except.ok.inj found).symm

theorem agentEvents_admitted :
    Meets World.step (fun world event => event.Admitted .deployed world) .initial agentEvents :=
  ⟨trivial, trivial, agentExport_admitted, trivial⟩

theorem agentEvents_delivered : ∀ rows, .append rows ∈ agentEvents →
    Delivers (readingFunctions [encodeMessage agentIds agentMessage]) [agentSent] rows := by
  intro rows member
  simp only [agentEvents, List.mem_cons, Event.append.injEq, reduceCtorEq, List.not_mem_nil,
    or_false, or_self] at member
  exact member ▸ agentRows_delivered

/-- Each of its spans is in the deduplicated lake once. -/
theorem spans_exactly_once_redelivered :
    ∃ spans, spansView (World.initial.steps agentEvents).tier.files = .ok spans ∧
      ∀ span ∈ agentSent.spans,
        copies (spansDeduped (PartitionOrder.stable SpanRow.ts) (spans.getD [])) agentSent
          span = 1 := by
  have distinct : IdsDistinct [agentSent] := by unfold IdsDistinct; decide +kernel
  obtain ⟨spans, opened, -, once⟩ := spans_exactly_once _ .deployed
    (PartitionOrder.stable SpanRow.ts) agentEvents_admitted agentEvents_delivered distinct
  refine ⟨spans, opened, fun span emitted => (once agentSent (by simp) span emitted).trans ?_⟩
  revert span emitted
  decide +kernel

end TelemetryEngine.Pipeline
