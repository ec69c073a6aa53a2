import Mathlib.Algebra.Order.Field.Rat
import Mathlib.Tactic.Positivity
import TelemetryEngine.Foundation.Bisection
import TelemetryEngine.Foundation.Rounding

/-! `emitters/workload.py`: synthetic traces, as plain data. Arithmetic is exact.
Every random draw is an argument that ranges over all outcomes of its draw, so a
statement about all draws is one about every trace the generator can return. -/
namespace TelemetryEngine.Emitters
open Foundation.Bisection Foundation.Rounding

/-! ### Vocabulary -/

inductive Model where
  | llama8b | llama70b | mistral7b | qwen14b | haikuProxy
  deriving DecidableEq, Repr

structure ModelProfile where
  name : String
  msPerOutputToken : ℚ
  baseTtftMs : ℚ
  kvBlocksPer1kTokens : ℚ

def Model.profile : Model → ModelProfile
  | .llama8b => ⟨"llama-3.1-8b-instruct", 8, 90, 3⟩
  | .llama70b => ⟨"llama-3.1-70b-instruct", 28, 240, 9⟩
  | .mistral7b => ⟨"mistral-7b-instruct", 7, 80, 26 / 10⟩
  | .qwen14b => ⟨"qwen2.5-14b-instruct", 12, 130, 45 / 10⟩
  | .haikuProxy => ⟨"claude-haiku-proxy", 5, 160, 2⟩

def Model.name (model : Model) : String := model.profile.name

def routes : List String := ["/v1/chat/completions", "/v1/completions", "/v1/embeddings"]
def regions : List String := ["us-east-1", "us-west-2", "eu-central-1"]
def agentNames : List String := ["research-agent", "support-agent", "codegen-agent"]
def toolNames : List String := ["web_search", "sql_query", "vector_lookup", "code_exec"]

inductive Operation where
  | chat | embeddings | agentInvoke | tool
  deriving DecidableEq, Repr

def Operation.value : Operation → String
  | .chat => "chat"
  | .embeddings => "embeddings"
  | .agentInvoke => "invoke_agent"
  | .tool => "execute_tool"

inductive StatusClass where
  | ok | clientError | serverError | timeout
  deriving DecidableEq, Repr

def StatusClass.value : StatusClass → String
  | .ok => "ok"
  | .clientError => "client_error"
  | .serverError => "server_error"
  | .timeout => "timeout"

/-- `error.type` of a span that failed. -/
def StatusClass.errorType : StatusClass → Option String
  | .ok => none
  | .serverError => some "engine_overloaded"
  | .timeout => some "deadline_exceeded"
  | .clientError => some "invalid_request"

inductive AttributeValue where
  | str (value : String)
  | int (value : Int)
  | float (value : ℚ)
  | bool (value : Bool)
  deriving DecidableEq, Repr

/-- `emitters/attributes.py`, and the two keys the generator spells out. -/
inductive AttributeKey where
  | genAiSystem | genAiOperation | genAiRequestModel | genAiResponseModel
  | genAiRequestMaxTokens | genAiRequestTemperature
  | genAiUsageInputTokens | genAiUsageOutputTokens
  | llmKvCacheUtilization | llmKvCacheBlocks | llmTtftMs | llmItlMs | llmQueueTimeMs
  | llmTokensPerSecond | llmCachedPromptTokens | llmBatchSize | llmStreaming
  | tenantId | tenantTier | route | endpointRegion
  | agentName | agentStep | toolName
  | statusClass | errorType
  | requestId | promptHash
  deriving DecidableEq, Repr

def AttributeKey.name : AttributeKey → String
  | .genAiSystem => "gen_ai.system"
  | .genAiOperation => "gen_ai.operation.name"
  | .genAiRequestModel => "gen_ai.request.model"
  | .genAiResponseModel => "gen_ai.response.model"
  | .genAiRequestMaxTokens => "gen_ai.request.max_tokens"
  | .genAiRequestTemperature => "gen_ai.request.temperature"
  | .genAiUsageInputTokens => "gen_ai.usage.input_tokens"
  | .genAiUsageOutputTokens => "gen_ai.usage.output_tokens"
  | .llmKvCacheUtilization => "llm.kv_cache.utilization"
  | .llmKvCacheBlocks => "llm.kv_cache.blocks"
  | .llmTtftMs => "llm.time_to_first_token_ms"
  | .llmItlMs => "llm.inter_token_latency_ms"
  | .llmQueueTimeMs => "llm.queue_time_ms"
  | .llmTokensPerSecond => "llm.output_tokens_per_second"
  | .llmCachedPromptTokens => "llm.cached_prompt_tokens"
  | .llmBatchSize => "llm.batch_size"
  | .llmStreaming => "llm.streaming"
  | .tenantId => "tenant.id"
  | .tenantTier => "tenant.tier"
  | .route => "http.route"
  | .endpointRegion => "cloud.region"
  | .agentName => "agent.name"
  | .agentStep => "agent.step"
  | .toolName => "tool.name"
  | .statusClass => "status.class"
  | .errorType => "error.type"
  | .requestId => "request.id"
  | .promptHash => "prompt.hash"

abbrev Attributes := List (AttributeKey × AttributeValue)

inductive SpanKind where
  | server | client | internal
  deriving DecidableEq, Repr

def SpanKind.value : SpanKind → String
  | .server => "server"
  | .client => "client"
  | .internal => "internal"

structure SpanData where
  name : String
  kind : SpanKind
  startOffsetMs : ℚ
  durationMs : ℚ
  attributes : Attributes
  status : StatusClass
  children : List SpanData

mutual

/-- This span and every descendant, parents first. -/
def SpanData.walk : SpanData → List SpanData
  | ⟨name, kind, startOffsetMs, durationMs, attributes, status, children⟩ =>
    ⟨name, kind, startOffsetMs, durationMs, attributes, status, children⟩ :: walkAll children

def walkAll : List SpanData → List SpanData
  | [] => []
  | span :: rest => span.walk ++ walkAll rest

end

def SpanData.spanCount (span : SpanData) : Nat := span.walk.length

structure TraceData where
  root : SpanData
  tenantId : String

def TraceData.spanCount (trace : TraceData) : Nat := trace.root.spanCount

/-! ### Random draws -/

/-- `random()`. -/
abbrev Roll := {x : ℚ // 0 ≤ x ∧ x < 1}

/-- `uniform(lo, hi)`; a beta variate is one between 0 and 1. -/
abbrev Between (lo hi : ℚ) := {x : ℚ // lo ≤ x ∧ x ≤ hi}

/-- `lognormvariate`. -/
abbrev Positive := {x : ℚ // 0 < x}

structure LlmDraws where
  drift : ℚ
  inputLength : Positive
  outputLength : Positive
  cachedShare : Between 0 1
  queueing : Between 50 900
  prefill : Between (8 / 10) (13 / 10)
  pacing : Between (85 / 100) (14 / 10)
  errorRoll : Roll
  causeRoll : Roll
  timeoutShare : Between 0 (1 / 2)
  failureShare : Between (1 / 5) (4 / 5)
  temperature : Between 0 1
  batchSize : Fin 48
  requestId : BitVec 128
  promptHash : BitVec 64

structure ToolDraws where
  tool : Fin 4
  duration : Positive

structure StepDraws where
  embeddingsRoll : Roll
  route : Fin 2
  llm : LlmDraws
  toolRoll : Roll
  tool : ToolDraws

structure TraceDraws where
  tenant : Roll
  model : Model
  region : Fin 3
  agent : Fin 3
  cursor : Between (1 / 2) 3
  /-- One entry for each step that `choices([1, 2, 3, 4])` asks for. -/
  steps : List StepDraws
  steps_pos : steps ≠ []
  steps_le : steps.length ≤ 4
  tail : Between (1 / 2) 4
  requestId : BitVec 128

/-! ### Tenant population -/

structure Tenant where
  id : String
  tier : String
  deriving DecidableEq, Repr

structure TenantPool (K : Type) [One K] where
  tenants : List Tenant
  cumulative : List K
  length_eq : cumulative.length = tenants.length
  full : 1 ∈ cumulative

inductive PoolError (K : Type) where
  | count (count : Int)
  | alpha (alpha : K)
  deriving DecidableEq, Repr

/-- Bigger tenants get better tiers. -/
def tierOf (count rank : Nat) : String :=
  if rank < max 1 (count / 20) then "enterprise"
  else if rank < max 2 (count / 4) then "pro"
  else "free"

def tenantOf (count rank : Nat) : Tenant :=
  let digits := toString rank
  ⟨"tenant-" ++ String.ofList (List.replicate (4 - digits.length) '0') ++ digits, tierOf count rank⟩

section
variable {K : Type} [Field K]

/-- Running sums of the shares. The last one is set to 1 against float drift. -/
def cumulativeShares (weights : List K) : List K :=
  let shares := weights.map (· / weights.sum)
  ((List.range (weights.length - 1)).map fun k => (shares.take (k + 1)).sum) ++ [1]

variable [LinearOrder K]

/-- The pool's constructor. `weight rank` is `1.0 / (rank + 1) ** alpha`. -/
def TenantPool.new (count : Int) (alpha : K) (weight : Nat → K) :
    Except (PoolError K) (TenantPool K) :=
  if positive : 1 ≤ count then
    if alpha ≤ 0 then .error (.alpha alpha) else
      .ok {
        tenants := (List.range count.toNat).map (tenantOf count.toNat)
        cumulative := cumulativeShares ((List.range count.toNat).map weight)
        length_eq := by simp [cumulativeShares]; omega
        full := by simp [cumulativeShares] }
  else .error (.count count)

/-- Draw one tenant. -/
def TenantPool.sample (pool : TenantPool K) (r : {x : K // 0 ≤ x ∧ x < 1}) : Tenant :=
  pool.tenants.get ⟨bisectRight pool.cumulative r,
    pool.length_eq ▸ bisectRight_lt pool.full r.property.2⟩

end

/-! ### The generator -/

/-- The generator's state: the pool, the error rate and the occupancy of the KV
cache, which drifts from call to call. -/
structure WorkloadGenerator where
  tenants : TenantPool ℚ
  errorRate : ℚ
  errorRate_range : 0 ≤ errorRate ∧ errorRate < 1
  kvUtilization : ℚ := 45 / 100

/-- Draw a long-tailed positive integer: the log-normal draw, between 1 and a cap. -/
def sampleLongTail (draw : Positive) (cap : ℚ) : Int := truncate (max 1 (min draw cap))

/-- Random-walk the occupancy within [0.05, 0.99], pulled back towards 0.55. -/
def advanceKvCache (kvUtilization drift : ℚ) : ℚ :=
  min (99 / 100) (max (5 / 100) (kvUtilization + (drift + (55 / 100 - kvUtilization) * (2 / 100))))

/-- Errors cluster under cache pressure. -/
def statusFor (errorRate kvUtilization : ℚ) (errorRoll causeRoll : Roll) : StatusClass :=
  let pressureMultiplier := 1 + 6 * max 0 (kvUtilization - 85 / 100) / (15 / 100)
  if errorRate * pressureMultiplier ≤ errorRoll.val then .ok
  else if causeRoll.val < 55 / 100 then .serverError
  else if causeRoll.val < 85 / 100 then .timeout
  else .clientError

/-- What `_llm_call_span` works out before it builds the span. -/
structure LlmCall where
  inputTokens : Int
  outputTokens : Int
  cachedPromptTokens : Int
  queueTimeMs : ℚ
  ttftMs : ℚ
  itlMs : ℚ
  durationMs : ℚ
  status : StatusClass

/-- The call as it goes if nothing fails. -/
def llmRequest (errorRate kvUtilization : ℚ) (profile : ModelProfile) (operation : Operation)
    (draws : LlmDraws) : LlmCall :=
  let inputTokens := sampleLongTail draws.inputLength 32000
  let outputTokens :=
    if operation = .embeddings then 0 else sampleLongTail draws.outputLength 4096
  let cachedPromptTokens := truncate (inputTokens * draws.cachedShare.val)
  let queueTimeMs :=
    if 8 / 10 < kvUtilization then (kvUtilization - 8 / 10) / (2 / 10) * draws.queueing.val else 0
  let uncached : Int := max 0 (inputTokens - cachedPromptTokens)
  let ttftMs := profile.baseTtftMs + uncached * (5 / 100) * draws.prefill.val + queueTimeMs
  let itlMs := profile.msPerOutputToken * draws.pacing.val
  let decodeMs := outputTokens * itlMs
  { inputTokens, outputTokens, cachedPromptTokens, queueTimeMs, ttftMs, itlMs
    durationMs := ttftMs + decodeMs
    status := statusFor errorRate kvUtilization draws.errorRoll draws.causeRoll }

/-- What the status does to the call: a timeout truncates the response, and a
failed request does no useful decoding. -/
def LlmCall.fail (call : LlmCall) (draws : LlmDraws) : LlmCall :=
  match call.status with
  | .ok => call
  | .timeout =>
    { call with
      durationMs := min call.durationMs 30000
      outputTokens := truncate (call.outputTokens * draws.timeoutShare.val) }
  | .clientError | .serverError =>
    { call with durationMs := call.ttftMs * draws.failureShare.val, outputTokens := 0 }

def llmCall (errorRate kvUtilization : ℚ) (profile : ModelProfile) (operation : Operation)
    (draws : LlmDraws) : LlmCall :=
  (llmRequest errorRate kvUtilization profile operation draws).fail draws

def LlmCall.attributes (call : LlmCall) (tenant : Tenant) (model : Model) (route region : String)
    (operation : Operation) (kvUtilization : ℚ) (draws : LlmDraws) : Attributes :=
  let round := roundTo roundHalfEven
  let attrs : Attributes := [
    (.tenantId, .str tenant.id),
    (.tenantTier, .str tenant.tier),
    (.route, .str route),
    (.endpointRegion, .str region),
    (.statusClass, .str call.status.value),
    (.genAiSystem, .str "vllm"),
    (.genAiOperation, .str operation.value),
    (.genAiRequestModel, .str model.name),
    (.genAiResponseModel, .str model.name),
    (.genAiRequestMaxTokens, .int 4096),
    (.genAiRequestTemperature, .float (round 2 draws.temperature.val)),
    (.genAiUsageInputTokens, .int call.inputTokens),
    (.genAiUsageOutputTokens, .int call.outputTokens),
    (.llmKvCacheUtilization, .float (round 4 kvUtilization)),
    (.llmKvCacheBlocks, .int (truncate
      ((call.inputTokens + call.outputTokens : ℚ) / 1000 * model.profile.kvBlocksPer1kTokens))),
    (.llmTtftMs, .float (round 2 call.ttftMs)),
    (.llmItlMs, .float (round 3 call.itlMs)),
    (.llmQueueTimeMs, .float (round 2 call.queueTimeMs)),
    (.llmCachedPromptTokens, .int call.cachedPromptTokens),
    (.llmBatchSize, .int (draws.batchSize + 1)),
    (.llmStreaming, .bool (operation = .chat)),
    (.requestId, .str draws.requestId.toHex),
    (.promptHash, .str draws.promptHash.toHex)]
  let rate : Attributes :=
    if call.outputTokens ≠ 0 ∧ 0 < call.durationMs then
      [(.llmTokensPerSecond, .float (round 2 (call.outputTokens / (call.durationMs / 1000))))]
    else []
  let error : Attributes :=
    match call.status.errorType with
    | some error => [(.errorType, .str error)]
    | none => []
  attrs ++ rate ++ error

/-- One LLM call, and the occupancy it leaves behind. -/
def llmCallSpan (errorRate kvUtilization : ℚ) (tenant : Tenant) (model : Model)
    (route region : String) (operation : Operation) (startOffsetMs : ℚ) (draws : LlmDraws) :
    SpanData × ℚ :=
  let kvUtilization := advanceKvCache kvUtilization draws.drift
  let call := llmCall errorRate kvUtilization model.profile operation draws
  ({ name := operation.value ++ " " ++ model.name
     kind := .client
     startOffsetMs
     durationMs := call.durationMs
     attributes := call.attributes tenant model route region operation kvUtilization draws
     status := call.status
     children := [] }, kvUtilization)

def toolSpan (tenant : Tenant) (startOffsetMs : ℚ) (step : Nat) (draws : ToolDraws) : SpanData :=
  let tool := toolNames.get draws.tool
  { name := "execute_tool " ++ tool
    kind := .internal
    startOffsetMs
    durationMs := draws.duration.val
    attributes :=
      [(.tenantId, .str tenant.id),
        (.genAiOperation, .str Operation.tool.value),
        (.toolName, .str tool),
        (.agentStep, .int step),
        (.statusClass, .str StatusClass.ok.value)]
    status := .ok
    children := [] }

/-- The LLM call of one step: an embedding, or a chat on one of two routes. -/
def stepCall (errorRate : ℚ) (tenant : Tenant) (model : Model) (region : String)
    (draws : StepDraws) (kvUtilization cursorMs : ℚ) : SpanData × ℚ :=
  let operation := if draws.embeddingsRoll.val < 12 / 100 then Operation.embeddings else .chat
  let route :=
    if operation = .embeddings then "/v1/embeddings" else (routes.take 2).get draws.route
  llmCallSpan errorRate kvUtilization tenant model route region operation cursorMs draws.llm

/-- The loop of `generate_trace`: the children from a step on, and where the
occupancy and the cursor end. A tool call may follow a step that is not the last. -/
def stepSpans (errorRate : ℚ) (tenant : Tenant) (model : Model) (region : String) :
    Nat → List StepDraws → ℚ → ℚ → List SpanData × ℚ × ℚ
  | _, [], kvUtilization, cursorMs => ([], kvUtilization, cursorMs)
  | step, draws :: rest, kvUtilization, cursorMs =>
    let called := stepCall errorRate tenant model region draws kvUtilization cursorMs
    let cursorMs := cursorMs + called.1.durationMs
    if rest ≠ [] ∧ draws.toolRoll.val < 7 / 10 then
      let tool := toolSpan tenant cursorMs step draws.tool
      let later := stepSpans errorRate tenant model region (step + 1) rest called.2
        (cursorMs + tool.durationMs)
      (called.1 :: tool :: later.1, later.2)
    else
      let later := stepSpans errorRate tenant model region (step + 1) rest called.2 cursorMs
      (called.1 :: later.1, later.2)

/-- The first failure among the children, or none. -/
def worstStatus (children : List SpanData) : StatusClass :=
  ((children.map SpanData.status).find? (· ≠ .ok)).getD .ok

/-- Build one agent invocation: LLM calls and tool calls under a root span. -/
def generateTrace (generator : WorkloadGenerator) (draws : TraceDraws) :
    TraceData × WorkloadGenerator :=
  let tenant := generator.tenants.sample draws.tenant
  let region := regions.get draws.region
  let (children, kvUtilization, cursorMs) := stepSpans generator.errorRate tenant draws.model region
    0 draws.steps generator.kvUtilization draws.cursor.val
  let worst := worstStatus children
  let root : SpanData :=
    { name := "invoke_agent " ++ agentNames.get draws.agent
      kind := .server
      startOffsetMs := 0
      durationMs := cursorMs + draws.tail.val
      attributes :=
        [(.tenantId, .str tenant.id),
          (.tenantTier, .str tenant.tier),
          (.endpointRegion, .str region),
          (.route, .str "/v1/agents/invoke"),
          (.statusClass, .str worst.value),
          (.genAiOperation, .str Operation.agentInvoke.value),
          (.agentName, .str (agentNames.get draws.agent)),
          (.genAiRequestModel, .str draws.model.name),
          (.requestId, .str draws.requestId.toHex)]
      status := worst
      children }
  (⟨root, tenant.id⟩, { generator with kvUtilization })

/-! ### Times -/

theorem sampleLongTail_pos (draw : Positive) {cap : ℚ} (cap_pos : 1 ≤ cap) :
    1 ≤ sampleLongTail draw cap ∧ (sampleLongTail draw cap : ℚ) ≤ cap := by
  have upper : max 1 (min draw.val cap) ≤ cap := max_le cap_pos (min_le_right _ _)
  rw [sampleLongTail, truncate, if_pos (by positivity)]
  exact ⟨Int.le_floor.mpr (by simp), (Int.floor_le _).trans upper⟩

theorem llmRequest_times (errorRate kvUtilization : ℚ) (model : Model) (operation : Operation)
    (draws : LlmDraws) :
    let call := llmRequest errorRate kvUtilization model.profile operation draws
    0 ≤ call.ttftMs ∧ call.ttftMs ≤ call.durationMs := by
  intro call
  have base : 0 ≤ model.profile.baseTtftMs := by cases model <;> simp [Model.profile]
  have pace : 0 ≤ model.profile.msPerOutputToken := by cases model <;> simp [Model.profile]
  have prefill : 0 ≤ draws.prefill.val := le_trans (by norm_num) draws.prefill.property.1
  have pacing : 0 ≤ draws.pacing.val := le_trans (by norm_num) draws.pacing.property.1
  have queueing : 0 ≤ draws.queueing.val := le_trans (by norm_num) draws.queueing.property.1
  have uncached : (0 : ℚ) ≤ (max 0 (call.inputTokens - call.cachedPromptTokens) : Int) := by
    exact_mod_cast le_max_left _ _
  have queued : 0 ≤ call.queueTimeMs := by
    simp only [call, llmRequest]
    split
    case isTrue full =>
      have above : 0 ≤ kvUtilization - 8 / 10 := by linarith
      positivity
    case isFalse => exact le_rfl
  have decoded : (0 : ℚ) ≤ call.outputTokens := by
    simp only [call, llmRequest]
    split
    · simp
    · exact_mod_cast (le_trans (by norm_num) (sampleLongTail_pos draws.outputLength (by norm_num)).1)
  constructor
  · change 0 ≤ model.profile.baseTtftMs + _ * (5 / 100) * draws.prefill.val + call.queueTimeMs
    positivity
  · change call.ttftMs ≤ call.ttftMs + call.outputTokens *
      (model.profile.msPerOutputToken * draws.pacing.val)
    exact le_add_of_nonneg_right (by positivity)

theorem llmCall_duration_nonneg (errorRate kvUtilization : ℚ) (model : Model)
    (operation : Operation) (draws : LlmDraws) :
    0 ≤ (llmCall errorRate kvUtilization model.profile operation draws).durationMs := by
  obtain ⟨first, longer⟩ := llmRequest_times errorRate kvUtilization model operation draws
  have whole := first.trans longer
  have share : 0 ≤ draws.failureShare.val := le_trans (by norm_num) draws.failureShare.property.1
  unfold llmCall LlmCall.fail
  split
  · exact whole
  · exact le_min whole (by norm_num)
  · exact mul_nonneg first share
  · exact mul_nonneg first share

theorem stepCall_times (errorRate : ℚ) (tenant : Tenant) (model : Model) (region : String)
    (draws : StepDraws) (kvUtilization cursorMs : ℚ) :
    let called := stepCall errorRate tenant model region draws kvUtilization cursorMs
    called.1.startOffsetMs = cursorMs ∧ 0 ≤ called.1.durationMs ∧ called.1.children = [] := by
  simp only [stepCall, llmCallSpan, true_and, and_true]
  exact llmCall_duration_nonneg errorRate _ model _ draws.llm

/-- No child starts before the cursor did or has children of its own, and the cursor
never moves back. -/
theorem stepSpans_times (errorRate : ℚ) (tenant : Tenant) (model : Model) (region : String)
    (step : Nat) (draws : List StepDraws) (kvUtilization cursorMs : ℚ) :
    let spans := stepSpans errorRate tenant model region step draws kvUtilization cursorMs
    cursorMs ≤ spans.2.2 ∧
      ∀ child ∈ spans.1, cursorMs ≤ child.startOffsetMs ∧ child.children = [] := by
  induction draws generalizing step kvUtilization cursorMs with
  | nil => simp [stepSpans]
  | cons draws rest ih =>
    obtain ⟨start, duration, leaf⟩ :=
      stepCall_times errorRate tenant model region draws kvUtilization cursorMs
    have waits := draws.tool.duration.property.le
    simp only [stepSpans]
    generalize stepCall errorRate tenant model region draws kvUtilization cursorMs = called at *
    split
    case isTrue =>
      obtain ⟨onward, later⟩ := ih (step + 1) called.2
        (cursorMs + called.1.durationMs + draws.tool.duration.val)
      refine ⟨le_trans (by linarith) onward, ?_⟩
      have tool : cursorMs ≤ (toolSpan tenant (cursorMs + called.1.durationMs) step
          draws.tool).startOffsetMs := le_add_of_nonneg_right duration
      refine List.forall_mem_cons.mpr ⟨⟨start.ge, leaf⟩, List.forall_mem_cons.mpr ⟨⟨tool, rfl⟩, ?_⟩⟩
      exact fun child member => (later child member).imp_left (le_trans (by linarith))
    case isFalse =>
      obtain ⟨onward, later⟩ := ih (step + 1) called.2 (cursorMs + called.1.durationMs)
      refine ⟨le_trans (by linarith) onward, ?_⟩
      refine List.forall_mem_cons.mpr ⟨⟨start.ge, leaf⟩, ?_⟩
      exact fun child member => (later child member).imp_left (le_trans (by linarith))

theorem walkAll_leaves {spans : List SpanData} (leaves : ∀ span ∈ spans, span.children = []) :
    walkAll spans = spans := by
  induction spans with
  | nil => rfl
  | cons span rest ih =>
    obtain ⟨leaf, others⟩ := List.forall_mem_cons.mp leaves
    obtain ⟨name, kind, start, duration, attributes, status, children⟩ := span
    obtain rfl : children = [] := leaf
    rw [walkAll, SpanData.walk, walkAll, ih others, List.singleton_append]

theorem generateTrace_times (generator : WorkloadGenerator) (draws : TraceDraws) :
    let root := (generateTrace generator draws).1.root
    root.startOffsetMs = 0 ∧ 0 ≤ root.durationMs ∧ ∀ span ∈ root.walk, 0 ≤ span.startOffsetMs := by
  have first : (0 : ℚ) ≤ draws.cursor.val := le_trans (by norm_num) draws.cursor.property.1
  have tail : (0 : ℚ) ≤ draws.tail.val := le_trans (by norm_num) draws.tail.property.1
  obtain ⟨onward, later⟩ := stepSpans_times generator.errorRate
    (generator.tenants.sample draws.tenant) draws.model (regions.get draws.region) 0 draws.steps
    generator.kvUtilization draws.cursor.val
  refine ⟨rfl, add_nonneg (first.trans onward) tail, ?_⟩
  rw [generateTrace, SpanData.walk, walkAll_leaves fun child member => (later child member).2]
  refine List.forall_mem_cons.mpr ⟨le_rfl, fun child member => ?_⟩
  exact first.trans (later child member).1

end TelemetryEngine.Emitters
