import TelemetryEngine.ColdTier.LateArrival
import TelemetryEngine.Emitters.Endpoint
import TelemetryEngine.Pipeline.EndToEnd

/-! What the mock endpoint tells a client, beside what the pipeline stores of the request. -/
namespace TelemetryEngine.Pipeline
open ColdTier Emitters Foundation.Rounding Ingest

/-- A row that says what a client was told. A span keeps durations in whole nanoseconds, and the
table in a `Float32`. -/
structure Confirms (response : InferenceResponse) (row : SpanRow) : Prop where
  model : row.model = response.model
  tenantId : row.tenantId = response.tenantId
  inputTokens : (row.inputTokens.toNat : Int) = response.inputTokens
  outputTokens : (row.outputTokens.toNat : Int) = response.outputTokens
  durationMs : |storedDurationMs row - response.durationMs| <
    1 / 1000000 + response.durationMs / 2 ^ 23

/-- Milliseconds lose less than a nanosecond. -/
theorem msToNs_close {ms : ℚ} (nonneg : 0 ≤ ms) :
    (msToNs ms : ℚ) / 1000000 ≤ ms ∧ ms < (msToNs ms : ℚ) / 1000000 + 1 / 1000000 := by
  have positive : 0 ≤ ms * 1000000 := mul_nonneg nonneg (by norm_num)
  have below := Int.floor_le (ms * 1000000)
  have above := Int.lt_floor_add_one (ms * 1000000)
  rw [msToNs, truncate, if_pos positive]
  constructor
  · rw [div_le_iff₀ (by norm_num)]
    exact below
  · rw [← add_div, lt_div_iff₀ (by norm_num)]
    exact above

theorem Records.confirms {floatRepr : ℚ → String} {tenant : Tenant} {model : Model}
    {trace : TraceData} {child : SpanData} {others : List SpanData} {call : LlmCall}
    (named : trace.tenantId = tenant.id) (children : trace.root.children = child :: others)
    (called : IsCall tenant model child call) {sent : SentTrace} {startNs : Int} {row : SpanRow}
    (records : Records sent (emitOne startNs (some 0) child, 1) row) (spans : ℕ) :
    Confirms (respond floatRepr trace spans) row := by
  have first := llmChild_first children called
  have lasts : (emitOne startNs (some 0) child).endNs - (emitOne startNs (some 0) child).startNs =
      msToNs child.durationMs := by
    simp only [emitOne]
    omega
  refine ⟨?_, ?_, ?_, ?_, ?_⟩
  · rw [records.model, respond, first, called.model, emitOne, textOf, called.model]
    rfl
  · rw [records.tenantId, respond, named, emitOne, textOf, called.tenantId]
    rfl
  · rw [records.inputTokens, respond, first, called.inputTokens, emitOne, countOf,
      called.inputTokens]
    rfl
  · rw [records.outputTokens, respond, first, called.outputTokens, emitOne, countOf,
      called.outputTokens]
    rfl
  · have told : (respond floatRepr trace spans).durationMs = child.durationMs := by
      rw [respond, first]
    have whole : row.durationMs = (msToNs child.durationMs : ℚ) / 1000000 := by
      rw [records.durationMs, lasts]
    have stored := storedDurationMs_close whole
    obtain ⟨below, above⟩ := msToNs_close called.durationMs
    have nonneg : (0 : ℚ) ≤ msToNs child.durationMs / 1000000 :=
      div_nonneg (by exact_mod_cast msToNs_nonneg called.durationMs) (by norm_num)
    rw [whole, abs_of_nonneg nonneg] at stored
    obtain ⟨low, high⟩ := abs_le.mp stored
    rw [told, abs_lt]
    constructor <;> linarith

/-- Whatever the order in which the handlers go on, each request is answered once or asleep, for
two seconds at most, and the counter counts the answers. An answer is about the trace that
its own request drew and that was emitted with it, and any row of that trace's first call
says what the client was told. -/
theorem clients_told (floatRepr : ℚ → String) (generator : WorkloadGenerator)
    (events : List EndpointEvent) :
    let endpoint := Endpoint.steps floatRepr { generator } events
    let traces := generated generator events
    endpoint.served = endpoint.answered.length ∧
      (endpoint.answered.map Answer.number ++ endpoint.asleep.map Sleeper.number).Perm
        (List.range traces.length) ∧
      (∀ sleeper ∈ endpoint.asleep, traces[sleeper.number]? = some sleeper.trace ∧
        0 ≤ sleeper.waitS ∧ sleeper.waitS ≤ 2) ∧
      List.Forall₂ (fun answer emission => traces[answer.number]? = some emission.trace ∧
        answer.response.spansEmitted = emission.spans.length ∧
        ∀ functions sents rows, IdsDistinct sents → Delivers functions sents rows →
          ∀ sent ∈ sents, sent.spans = emission.spans.zipIdx →
            ∀ row ∈ rows, row.spanId = sent.ids.spanId 1 → Confirms answer.response row)
        endpoint.answered endpoint.emitted := by
  intro endpoint traces
  have serving : Serving floatRepr traces endpoint := by
    simpa using (Serving.initial floatRepr generator).steps events
  refine ⟨serving.served, serving.once, fun sleeper member => ?_, ?_⟩
  · obtain ⟨own, waits⟩ := serving.sleeping sleeper member
    obtain ⟨_, draws, made⟩ := mem_generated (List.mem_of_getElem? own)
    have lasts : 0 ≤ sleeper.trace.root.durationMs := made ▸ (generateTrace_times _ draws).2.1
    rw [waits, TraceData.sleepS]
    refine ⟨own, div_nonneg (le_min lasts (by norm_num)) (by norm_num), ?_⟩
    rw [div_le_iff₀ (by norm_num)]
    exact (min_le_right _ _).trans (by norm_num)
  · refine serving.answers.imp fun answer emission both => ?_
    obtain ⟨own, told⟩ := both
    obtain ⟨trace, nowNs⟩ := emission
    obtain ⟨maker, draws, rfl⟩ := mem_generated (List.mem_of_getElem? own)
    obtain ⟨tenant, child, others, call, named, children, called⟩ := generateTrace_call maker draws
    obtain ⟨emitted, -, -⟩ := emitTrace_nested maker draws nowNs
    refine ⟨own, by rw [told]; rfl, fun functions sents rows distinct delivers sent among spans row
      member id => ?_⟩
    have placed : (emitOne (traceStart (generateTrace maker draws).1 nowNs) (some 0) child, 1) ∈
        sent.spans := by
      rw [spans, List.mk_mem_zipIdx_iff_getElem?, Emission.spans, emitted, children]
      rfl
    obtain ⟨other, records⟩ := exists_records distinct delivers.records among placed member id
    rw [told]
    exact Records.confirms named children called records _

/-- A request whose handler sleeps, and goes on at a thousand seconds. -/
def slowRequest : List EndpointEvent :=
  [.request { simulateLatency := true } shortDraws 0, .wake 0 1000000000000]

def slowSent : SentTrace where
  ids := agentIds
  root := (generateTrace soleTenant shortDraws).1.root
  startNs := traceStart (generateTrace soleTenant shortDraws).1 1000000000000
  emittable := emitTrace_emittable soleTenant shortDraws 1000000000000 (by decide +kernel) (by decide)

def slowMessage : Message := [⟨[("service.name", .str "mock-inference-endpoint")], [slowSent.spans]⟩]

theorem clients_told_slow :
    ∃ answer, (Endpoint.steps (fun _ => "") { generator := soleTenant } slowRequest).answered =
        [answer] ∧
      (∃ row ∈ rowsOf agentIds slowMessage, row.spanId = agentIds.spanId 1) ∧
      ∀ row ∈ rowsOf agentIds slowMessage, row.spanId = agentIds.spanId 1 →
        Confirms answer.response row := by
  obtain ⟨-, -, -, told⟩ := clients_told (fun _ => "") soleTenant slowRequest
  have own : ∀ placed ∈ spansOf slowMessage, placed.2 ∈ slowSent.spans := by
    intro placed member
    simp only [spansOf, slowMessage, List.flatMap_singleton, List.mem_map] at member
    obtain ⟨span, inside, rfl⟩ := member
    exact inside
  have two : slowSent.spans.length = 2 := rfl
  have distinct : IdsDistinct [slowSent] := by
    refine idsDistinct_singleton ⟨?_, ?_⟩
    · rw [two]
      decide
    · rw [two]
      decide
  obtain ⟨⟨_, _, confirms⟩, _⟩ := List.forall₂_cons.mp told
  refine ⟨_, rfl, ?_, confirms _ _ _ distinct (rowsOf_delivered slowSent own) slowSent (by simp) rfl⟩
  have emittable : ∀ placed ∈ spansOf slowMessage, Emittable placed.2.1 := fun placed member =>
    slowSent.emittable _ (List.fst_mem_of_mem_zipIdx (own placed member))
  have agrees := @decodeMessage_agrees (readingFunctions [encodeMessage agentIds slowMessage])
    _ _ _ (encodeMessage_encodes agentIds slowMessage) emittable
  have call : slowSent.spans[1] ∈ slowSent.spans := List.getElem_mem _
  obtain ⟨decoded, member, row⟩ := forall₂_left agrees.flip
    ([("service.name", .str "mock-inference-endpoint")], slowSent.spans[1])
    (List.mem_flatMap.mpr ⟨_, List.mem_singleton_self _, List.mem_flatMap.mpr
      ⟨_, List.mem_singleton_self _, List.mem_map_of_mem call⟩⟩)
  exact ⟨decoded.columns, List.mem_map_of_mem member, row.spanId⟩

end TelemetryEngine.Pipeline
