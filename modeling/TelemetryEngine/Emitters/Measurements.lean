import TelemetryEngine.Foundation.Traced
import TelemetryEngine.Emitters.Emittable

/-! What the measurements of one LLM call say together. A call that fails keeps the time to
its first token, and ends before it. -/
namespace TelemetryEngine.Emitters
open Foundation Foundation.Rounding

/-! ### Ranges -/

theorem advanceKvCache_range (kvUtilization drift : ℚ) :
    5 / 100 ≤ advanceKvCache kvUtilization drift ∧
      advanceKvCache kvUtilization drift ≤ 99 / 100 :=
  ⟨le_min (by norm_num) (le_max_left _ _), min_le_left _ _⟩

section
variable (errorRate kvUtilization : ℚ) (model : Model) (operation : Operation) (draws : LlmDraws)

theorem llmRequest_cached :
    let call := llmRequest errorRate kvUtilization model.profile operation draws
    0 ≤ call.cachedPromptTokens ∧ call.cachedPromptTokens ≤ call.inputTokens := by
  intro call
  have input := (llmRequest_counted errorRate kvUtilization model.profile operation draws).input.1
  obtain ⟨least, most⟩ := draws.cachedShare.property
  obtain ⟨nonneg, below⟩ := truncate_share input least most le_rfl
  exact ⟨nonneg, by exact_mod_cast below⟩

theorem llmRequest_queue (high : kvUtilization ≤ 99 / 100) :
    0 ≤ (llmRequest errorRate kvUtilization model.profile operation draws).queueTimeMs ∧
      (llmRequest errorRate kvUtilization model.profile operation draws).queueTimeMs ≤ 855 := by
  obtain ⟨least, most⟩ := draws.queueing.property
  simp only [llmRequest]
  split
  case isTrue full =>
    have share : 0 ≤ (kvUtilization - 8 / 10) / (2 / 10) :=
      div_nonneg (by linarith) (by norm_num)
    have below : (kvUtilization - 8 / 10) / (2 / 10) ≤ 95 / 100 := by linarith
    refine ⟨mul_nonneg share (by linarith), ?_⟩
    calc (kvUtilization - 8 / 10) / (2 / 10) * draws.queueing.val
        ≤ 95 / 100 * 900 := mul_le_mul below most (by linarith) (by norm_num)
      _ = 855 := by norm_num
  case isFalse => norm_num

theorem llmRequest_firstToken (high : kvUtilization ≤ 99 / 100) :
    let call := llmRequest errorRate kvUtilization model.profile operation draws
    call.queueTimeMs ≤ call.ttftMs ∧ 0 < call.ttftMs ∧ call.ttftMs ≤ 30000 := by
  intro call
  obtain ⟨queue, queueLe⟩ := llmRequest_queue errorRate kvUtilization model operation draws high
  have input := (llmRequest_counted errorRate kvUtilization model.profile operation draws).input.2
  have cached := (llmRequest_cached errorRate kvUtilization model operation draws).1
  obtain ⟨slow, fast⟩ := draws.prefill.property
  have base : 80 ≤ model.profile.baseTtftMs ∧ model.profile.baseTtftMs ≤ 240 := by
    cases model <;> norm_num [Model.profile]
  let uncached : Int := max 0 (call.inputTokens - call.cachedPromptTokens)
  have prompt : call.inputTokens ≤ 32000 := by exact_mod_cast input
  have some_ : 0 ≤ uncached ∧ uncached ≤ 32000 := by
    simp only [uncached, call] at prompt ⊢
    omega
  have nonneg : (0 : ℚ) ≤ uncached := by exact_mod_cast some_.1
  have atMost : (uncached : ℚ) ≤ 32000 := by exact_mod_cast some_.2
  have ttft : call.ttftMs = model.profile.baseTtftMs +
      uncached * (5 / 100) * draws.prefill.val + call.queueTimeMs := rfl
  have prefill : 0 ≤ uncached * (5 / 100) * draws.prefill.val := by
    have : 0 ≤ draws.prefill.val := by linarith
    positivity
  have prefillLe : uncached * (5 / 100) * draws.prefill.val ≤ 2080 := by
    calc uncached * (5 / 100) * draws.prefill.val
        ≤ 32000 * (5 / 100) * (13 / 10) := by gcongr
      _ = 2080 := by norm_num
  rw [ttft]
  refine ⟨by linarith [base.1], by linarith [base.1], by linarith [base.2]⟩

end

/-! ### Failures -/

/-- The factor by which cache pressure raises the error rate. -/
def pressure (kvUtilization : ℚ) : ℚ := 1 + 6 * max 0 (kvUtilization - 85 / 100) / (15 / 100)

/-- The draws decide on no error, or on a timeout. -/
def Finishes (errorRate kvUtilization : ℚ) (draws : LlmDraws) : Prop :=
  errorRate * pressure (advanceKvCache kvUtilization draws.drift) ≤ draws.errorRoll.val ∨
    55 / 100 ≤ draws.causeRoll.val ∧ draws.causeRoll.val < 85 / 100

/-- The call failed before it could decode. -/
def StatusClass.Broken (status : StatusClass) : Prop := status = .clientError ∨ status = .serverError

theorem broken_iff (errorRate kvUtilization : ℚ) (draws : LlmDraws) :
    (statusFor errorRate (advanceKvCache kvUtilization draws.drift) draws.errorRoll
      draws.causeRoll).Broken ↔ ¬ Finishes errorRate kvUtilization draws := by
  rw [Finishes, pressure, statusFor, StatusClass.Broken]
  split_ifs with fine early late
  · simp [fine]
  · simp [not_le.mp fine, early]
  · simp [not_lt.mp early, late]
  · simp [not_le.mp fine, not_lt.mp late]

section
variable {draws : LlmDraws} {call : LlmCall}

/-- A failure changes the duration and the output only. -/
theorem fail_keeps : (call.fail draws).inputTokens = call.inputTokens ∧
    (call.fail draws).cachedPromptTokens = call.cachedPromptTokens ∧
    (call.fail draws).queueTimeMs = call.queueTimeMs ∧ (call.fail draws).ttftMs = call.ttftMs ∧
    (call.fail draws).status = call.status := by
  unfold LlmCall.fail
  split <;> simp

theorem fail_firstToken (positive : 0 < call.ttftMs) (prompt : call.ttftMs ≤ 30000)
    (decoded : call.ttftMs ≤ call.durationMs) :
    call.ttftMs ≤ (call.fail draws).durationMs ↔ ¬ call.status.Broken := by
  have shortened : call.ttftMs * draws.failureShare.val < call.ttftMs :=
    mul_lt_of_lt_one_right positive (draws.failureShare.property.2.trans_lt (by norm_num))
  unfold LlmCall.fail StatusClass.Broken
  cases call.status with
  | ok => simpa using decoded
  | timeout => simpa using ⟨decoded, prompt⟩
  | clientError => simpa using shortened
  | serverError => simpa using shortened

theorem rate_absent {tenant : Tenant} {route region : String} {operation : Operation} {model : Model}
    {kvUtilization : ℚ} (none_ : call.outputTokens = 0) (value : AttributeValue) :
    (.llmTokensPerSecond, value) ∉
      call.attributes tenant model route region operation kvUtilization draws := by
  cases error : call.status.errorType <;> simp [LlmCall.attributes, none_, error]

theorem error_present {tenant : Tenant} {route region : String} {operation : Operation}
    {model : Model} {kvUtilization : ℚ} :
    (∃ value, (.errorType, value) ∈
      call.attributes tenant model route region operation kvUtilization draws) ↔
      call.status ≠ .ok := by
  by_cases rate : call.outputTokens ≠ 0 ∧ 0 < call.durationMs <;>
    cases status : call.status <;> simp [LlmCall.attributes, StatusClass.errorType, status, rate]

end

/-! ### Spans -/

/-- An LLM span, and the values it was built from. -/
structure Measured where
  kvUtilization : ℚ
  call : LlmCall
  span : SpanData

/-- The measurements of one call agree with each other, before they are rounded. -/
structure Measured.Consistent (measured : Measured) : Prop where
  kvCache : 5 / 100 ≤ measured.kvUtilization ∧ measured.kvUtilization ≤ 99 / 100
  input : measured.call.inputTokens ≤ 32000
  cached : 0 ≤ measured.call.cachedPromptTokens ∧
    measured.call.cachedPromptTokens ≤ measured.call.inputTokens
  output : 0 ≤ measured.call.outputTokens ∧ measured.call.outputTokens ≤ 4096
  queue : measured.call.queueTimeMs ≤ measured.call.ttftMs
  firstToken : measured.call.ttftMs ≤ measured.span.durationMs
  rate : measured.call.outputTokens = 0 →
    ∀ value, (.llmTokensPerSecond, value) ∉ measured.span.attributes
  error : (∃ value, (.errorType, value) ∈ measured.span.attributes) ↔ measured.span.status ≠ .ok

section
variable (errorRate : ℚ) (tenant : Tenant) (model : Model) (region : String)

def StepDraws.operation (draws : StepDraws) : Operation :=
  if draws.embeddingsRoll.val < 12 / 100 then .embeddings else .chat

def measuredCall (draws : StepDraws) (kvUtilization cursorMs : ℚ) : Measured :=
  let called := stepCall errorRate tenant model region draws kvUtilization cursorMs
  { kvUtilization := called.2
    call := llmCall errorRate called.2 model.profile draws.operation draws.llm
    span := called.1 }

/-- The calls of the steps of a trace. -/
def measuredCalls : Nat → List StepDraws → ℚ → ℚ → List Measured
  | _, [], _, _ => []
  | step, draws :: rest, kvUtilization, cursorMs =>
    let measured := measuredCall errorRate tenant model region draws kvUtilization cursorMs
    let cursorMs := cursorMs + measured.span.durationMs
    if rest ≠ [] ∧ draws.toolRoll.val < 7 / 10 then
      let tool := toolSpan tenant cursorMs step draws.tool
      measured :: measuredCalls (step + 1) rest measured.kvUtilization (cursorMs + tool.durationMs)
    else measured :: measuredCalls (step + 1) rest measured.kvUtilization cursorMs

theorem measuredCalls_spans (step : Nat) (draws : List StepDraws) (kvUtilization cursorMs : ℚ) :
    (measuredCalls errorRate tenant model region step draws kvUtilization cursorMs).map
        Measured.span =
      (stepSpans errorRate tenant model region step draws kvUtilization cursorMs).1.filter
        (·.kind = .client) := by
  induction draws generalizing step kvUtilization cursorMs with
  | nil => rfl
  | cons draws rest ih =>
    simp only [measuredCalls, stepSpans]
    split
    case isTrue =>
      rw [List.map_cons, ih]
      rfl
    case isFalse =>
      rw [List.map_cons, ih]
      rfl

theorem measuredCall_consistent_iff (draws : StepDraws) (kvUtilization cursorMs : ℚ) :
    (measuredCall errorRate tenant model region draws kvUtilization cursorMs).Consistent ↔
      Finishes errorRate kvUtilization draws.llm := by
  let kv := advanceKvCache kvUtilization draws.llm.drift
  let request := llmRequest errorRate kv model.profile draws.operation draws.llm
  have range : 5 / 100 ≤ kv ∧ kv ≤ 99 / 100 := advanceKvCache_range _ _
  have cached := llmRequest_cached errorRate kv model draws.operation draws.llm
  have counted : Counted (request.fail draws.llm) :=
    LlmCall.fail_counted (llmRequest_counted errorRate kv model.profile draws.operation draws.llm) _
  obtain ⟨queue, positive, prompt⟩ :=
    llmRequest_firstToken errorRate kv model draws.operation draws.llm range.2
  have decoded := (llmRequest_times errorRate kv model draws.operation draws.llm).2
  obtain ⟨sameInput, sameCached, sameQueue, sameTtft, -⟩ := @fail_keeps draws.llm request
  have firstToken : (request.fail draws.llm).ttftMs ≤ (request.fail draws.llm).durationMs ↔
      Finishes errorRate kvUtilization draws.llm := by
    rw [sameTtft, fail_firstToken positive prompt decoded, ← not_iff_comm]
    exact (broken_iff errorRate kvUtilization draws.llm).symm
  constructor
  · exact fun consistent => firstToken.mp consistent.firstToken
  · intro finishes
    exact
      { kvCache := range
        input := by exact_mod_cast counted.input.2
        cached := ⟨cached.1.trans_eq sameCached.symm, by
          change (request.fail draws.llm).cachedPromptTokens ≤ (request.fail draws.llm).inputTokens
          rw [sameCached, sameInput]
          exact cached.2⟩
        output := by exact_mod_cast counted.output
        queue := by
          change (request.fail draws.llm).queueTimeMs ≤ (request.fail draws.llm).ttftMs
          rw [sameQueue, sameTtft]
          exact queue
        firstToken := firstToken.mpr finishes
        rate := rate_absent
        error := error_present }

/-- The calls of a trace are consistent exactly where none is broken off. -/
theorem measuredCalls_consistent_iff (step : Nat) (draws : List StepDraws)
    (kvUtilization cursorMs : ℚ) :
    (∀ measured ∈ measuredCalls errorRate tenant model region step draws kvUtilization cursorMs,
      measured.Consistent) ↔
    Meets (fun kv (draws : StepDraws) => advanceKvCache kv draws.llm.drift)
      (fun kv draws => Finishes errorRate kv draws.llm) kvUtilization draws := by
  induction draws generalizing step kvUtilization cursorMs with
  | nil => simp [measuredCalls, Meets]
  | cons draws rest ih =>
    have here := measuredCall_consistent_iff errorRate tenant model region draws kvUtilization cursorMs
    simp only [measuredCalls]
    split
    case isTrue =>
      rw [List.forall_mem_cons, here, ih]
      rfl
    case isFalse =>
      rw [List.forall_mem_cons, here, ih]
      rfl

end

/-! ### Traces -/

/-- The LLM calls of a trace. -/
def WorkloadGenerator.measured (generator : WorkloadGenerator) (draws : TraceDraws) : List Measured :=
  measuredCalls generator.errorRate (generator.tenants.sample draws.tenant) draws.model
    (regions.get draws.region) 0 draws.steps generator.kvUtilization draws.cursor.val

theorem measured_spans (generator : WorkloadGenerator) (draws : TraceDraws) :
    (generator.measured draws).map Measured.span =
      (generateTrace generator draws).1.root.children.filter (·.kind = .client) :=
  measuredCalls_spans ..

theorem worstStatus_eq_ok {children : List SpanData} :
    worstStatus children = .ok ↔ ∀ child ∈ children, child.status = .ok := by
  rw [worstStatus]
  cases first : (children.map SpanData.status).find? (· ≠ .ok) with
  | none => simpa using List.find?_eq_none.mp first
  | some status =>
    have failed : status ≠ .ok := by simpa using List.find?_some first
    obtain ⟨child, member, rfl⟩ := List.mem_map.mp (List.mem_of_find?_eq_some first)
    exact iff_of_false failed fun all => failed (all child member)

/-- All LLM calls of a trace are consistent, and its root fails where a child does. -/
structure ConsistentTrace (generator : WorkloadGenerator) (draws : TraceDraws) : Prop where
  calls : ∀ measured ∈ generator.measured draws, measured.Consistent
  root : (generateTrace generator draws).1.root.status = .ok ↔
    ∀ child ∈ (generateTrace generator draws).1.root.children, child.status = .ok

/-- No LLM call of a trace fails but by a timeout. -/
def FinishesAll (generator : WorkloadGenerator) (draws : TraceDraws) : Prop :=
  Meets (fun kv (draws : StepDraws) => advanceKvCache kv draws.llm.drift)
    (fun kv draws => Finishes generator.errorRate kv draws.llm) generator.kvUtilization draws.steps

theorem consistentTrace_iff (generator : WorkloadGenerator) (draws : TraceDraws) :
    ConsistentTrace generator draws ↔ FinishesAll generator draws := by
  have calls := measuredCalls_consistent_iff generator.errorRate
    (generator.tenants.sample draws.tenant) draws.model (regions.get draws.region) 0 draws.steps
    generator.kvUtilization draws.cursor.val
  refine ⟨fun consistent => calls.mp consistent.calls, fun finishes => ⟨calls.mpr finishes, ?_⟩⟩
  exact worstStatus_eq_ok

/-- In every run of a generator, the measurements of all traces are consistent exactly where
no call ends in an error of the client or the server. -/
theorem measurements_consistent_iff (generator : WorkloadGenerator) (traces : List TraceDraws) :
    Meets (fun generator draws => (generateTrace generator draws).2) ConsistentTrace generator traces ↔
      Meets (fun generator draws => (generateTrace generator draws).2) FinishesAll generator traces :=
  meets_congr consistentTrace_iff

def freshGenerator : WorkloadGenerator where
  tenants := ⟨[tenantOf 2 0, tenantOf 2 1], [2 / 3, 1], rfl, by simp⟩
  errorRate := 1 / 100
  errorRate_range := by norm_num

/-- A single call, which the draws make a server error. -/
def overloaded : TraceDraws where
  tenant := ⟨1 / 10, by norm_num⟩
  model := .llama8b
  region := ⟨1, by norm_num⟩
  agent := ⟨1, by norm_num⟩
  cursor := ⟨1, by norm_num⟩
  steps := [{
    embeddingsRoll := ⟨1 / 3, by norm_num⟩
    route := ⟨1, by norm_num⟩
    llm := {
      drift := 0, inputLength := ⟨400, by norm_num⟩, outputLength := ⟨180, by norm_num⟩
      cachedShare := ⟨1 / 4, by norm_num⟩, queueing := ⟨60, by norm_num⟩
      prefill := ⟨6 / 5, by norm_num⟩, pacing := ⟨1, by norm_num⟩
      errorRoll := ⟨1 / 1000, by norm_num⟩, causeRoll := ⟨1 / 100, by norm_num⟩
      timeoutShare := ⟨1 / 5, by norm_num⟩, failureShare := ⟨1 / 4, by norm_num⟩
      temperature := ⟨7 / 10, by norm_num⟩, batchSize := ⟨7, by norm_num⟩, requestId := 0
      promptHash := 0 }
    toolRoll := ⟨3 / 4, by norm_num⟩
    tool := ⟨⟨1, by norm_num⟩, ⟨60, by norm_num⟩⟩ }]
  steps_pos := by simp
  steps_le := by simp
  tail := ⟨1, by norm_num⟩
  requestId := 0

/-- The first token came after 108 ms, and the call ended after 27 ms. -/
theorem first_token_after_end :
    ((freshGenerator.measured overloaded).map fun measured =>
      (measured.call.ttftMs, measured.span.durationMs)) = [(108, 27)] ∧
    ¬ Meets (fun generator draws => (generateTrace generator draws).2) ConsistentTrace
      freshGenerator [overloaded] := by
  have times : ((freshGenerator.measured overloaded).map fun measured =>
      (measured.call.ttftMs, measured.span.durationMs)) = [(108, 27)] := by
    decide +kernel
  refine ⟨times, fun consistent => ?_⟩
  have ordered : ∀ pair ∈ ((freshGenerator.measured overloaded).map fun measured =>
      (measured.call.ttftMs, measured.span.durationMs)), pair.1 ≤ pair.2 :=
    List.forall_mem_map.mpr fun measured member => (consistent.1.calls measured member).firstToken
  rw [times] at ordered
  norm_num at ordered

end TelemetryEngine.Emitters
