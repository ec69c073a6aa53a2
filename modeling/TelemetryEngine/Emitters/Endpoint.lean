import TelemetryEngine.Emitters.Nesting
import TelemetryEngine.Foundation.PythonFloat

/-! `emitters/endpoint.py`: the mock inference endpoint. All handlers share one generator and
one counter. A handler that simulates the latency sleeps once, between its trace and its
response; the others, and what comes before and after a sleep, run without a break. -/
namespace TelemetryEngine.Emitters
open Foundation.FloatText Foundation.PythonFloat Foundation.Rounding

/-- Narrow an attribute value to int, or fall back. -/
def asInt : Option AttributeValue → Int
  | some (.int value) => value
  | some (.float value) => truncate value
  | some (.str text) => (pyInt text.toList).getD 0
  | some (.bool _) | none => 0

def asFloat : Option AttributeValue → FloatValue
  | some (.int value) => (FloatValue.finite value).double
  | some (.float value) => .finite value
  | some (.str text) => (pyFloat text.toList).getD (.finite 0)
  | some (.bool _) | none => .finite 0

/-- Minimal chat-completions-shaped request body. The handler reads `simulate_latency` only. -/
structure InferenceRequest where
  model : Option String := none
  tenantId : Option String := none
  simulateLatency : Bool := false
  maxTokens : Int := 512
  maxTokens_range : 1 ≤ maxTokens ∧ maxTokens ≤ 32000 := by decide

structure InferenceResponse where
  model : String
  tenantId : String
  spansEmitted : ℕ
  inputTokens : Int
  outputTokens : Int
  ttftMs : FloatValue
  durationMs : ℚ

/-- A trace handed to the tracer, which backdates it to end at an instant. -/
structure Emission where
  trace : TraceData
  nowNs : Int

def Emission.spans (emission : Emission) : List EmittedSpan :=
  emitTrace emission.trace emission.nowNs

/-- The first child with token counts, or the root. -/
def llmChild (root : SpanData) : SpanData :=
  (root.children.find? fun child =>
    (child.attributes.lookup .genAiUsageInputTokens).isSome).getD root

/-- `min(duration_ms, 2_000) / 1000` -/
def TraceData.sleepS (trace : TraceData) : ℚ := min trace.root.durationMs 2000 / 1000

/-- The request with a number, asleep. -/
structure Sleeper where
  number : ℕ
  trace : TraceData
  waitS : ℚ

structure Answer where
  number : ℕ
  response : InferenceResponse

/-- Requests are numbered as they come. -/
structure Endpoint where
  generator : WorkloadGenerator
  arrived : ℕ := 0
  served : ℕ := 0
  asleep : List Sleeper := []
  emitted : List Emission := []
  answered : List Answer := []

inductive EndpointEvent where
  | request (request : InferenceRequest) (draws : TraceDraws) (nowNs : Int)
  /-- The handler in this place of the sleepers goes on. -/
  | wake (place : ℕ) (nowNs : Int)

section
variable (floatRepr : ℚ → String)

/-- `str`. `floatRepr` stands for what it writes of a float. -/
def pyStr : AttributeValue → String
  | .str text => text
  | .int value => toString value
  | .bool value => if value then "True" else "False"
  | .float value => floatRepr value

/-- What the handler returns. -/
def respond (trace : TraceData) (spans : ℕ) : InferenceResponse :=
  let child := llmChild trace.root
  { model := ((child.attributes.lookup .genAiRequestModel).map (pyStr floatRepr)).getD "unknown"
    tenantId := trace.tenantId
    spansEmitted := spans
    inputTokens := asInt (child.attributes.lookup .genAiUsageInputTokens)
    outputTokens := asInt (child.attributes.lookup .genAiUsageOutputTokens)
    ttftMs := asFloat (child.attributes.lookup .llmTtftMs)
    durationMs := child.durationMs }

namespace Endpoint

/-- `chat_completions` after its sleep, if it has one. -/
def finish (endpoint : Endpoint) (number : ℕ) (trace : TraceData) (nowNs : Int) : Endpoint :=
  let emission : Emission := ⟨trace, nowNs⟩
  { endpoint with
    served := endpoint.served + 1
    emitted := endpoint.emitted ++ [emission]
    answered := endpoint.answered ++ [⟨number, respond floatRepr trace emission.spans.length⟩] }

def step (endpoint : Endpoint) : EndpointEvent → Endpoint
  | .request request draws nowNs =>
    let made := generateTrace endpoint.generator draws
    let number := endpoint.arrived
    let endpoint := { endpoint with generator := made.2, arrived := number + 1 }
    if request.simulateLatency then
      { endpoint with asleep := endpoint.asleep ++ [⟨number, made.1, made.1.sleepS⟩] }
    else endpoint.finish floatRepr number made.1 nowNs
  | .wake place nowNs =>
    match endpoint.asleep[place]? with
    | some sleeper =>
      { endpoint with asleep := endpoint.asleep.eraseIdx place }.finish floatRepr sleeper.number
        sleeper.trace nowNs
    | none => endpoint

def steps (endpoint : Endpoint) (events : List EndpointEvent) : Endpoint :=
  events.foldl (step floatRepr) endpoint

end Endpoint

end

/-- The traces that the requests of a run have drawn, in the order of the requests. -/
def generated (generator : WorkloadGenerator) : List EndpointEvent → List TraceData
  | [] => []
  | .request _ draws _ :: rest =>
    let made := generateTrace generator draws
    made.1 :: generated made.2 rest
  | .wake _ _ :: rest => generated generator rest

/-! ### The call a response is about -/

/-- A child that is an LLM call, as a response reads it. -/
structure IsCall (tenant : Tenant) (model : Model) (child : SpanData) (call : LlmCall) : Prop where
  kind : child.kind = .client
  durationMs : 0 ≤ child.durationMs
  tenantId : child.attributes.lookup .tenantId = some (.str tenant.id)
  model : child.attributes.lookup .genAiRequestModel = some (.str model.name)
  inputTokens : child.attributes.lookup .genAiUsageInputTokens = some (.int call.inputTokens)
  outputTokens : child.attributes.lookup .genAiUsageOutputTokens = some (.int call.outputTokens)

theorem stepCall_isCall (errorRate : ℚ) (tenant : Tenant) (model : Model) (region : String)
    (draws : StepDraws) (kvUtilization cursorMs : ℚ) :
    ∃ call, IsCall tenant model
      (stepCall errorRate tenant model region draws kvUtilization cursorMs).1 call :=
  ⟨_, rfl, (stepCall_times errorRate tenant model region draws kvUtilization cursorMs).2.1,
    rfl, rfl, rfl, rfl⟩

theorem generateTrace_call (generator : WorkloadGenerator) (draws : TraceDraws) :
    let trace := (generateTrace generator draws).1
    ∃ tenant child others call, trace.tenantId = tenant.id ∧
      trace.root.children = child :: others ∧ IsCall tenant draws.model child call := by
  intro trace
  obtain ⟨first, rest, steps⟩ := List.exists_cons_of_ne_nil draws.steps_pos
  obtain ⟨call, called⟩ := stepCall_isCall generator.errorRate
    (generator.tenants.sample draws.tenant) draws.model (regions.get draws.region) first
    generator.kvUtilization draws.cursor.val
  have children : trace.root.children = (stepSpans generator.errorRate
      (generator.tenants.sample draws.tenant) draws.model (regions.get draws.region) 0 draws.steps
      generator.kvUtilization draws.cursor.val).1 := rfl
  rw [steps, stepSpans] at children
  dsimp only at children
  -- A tool call may follow, but the first child is the call either way.
  split at children
  · exact ⟨_, _, _, call, rfl, children, called⟩
  · exact ⟨_, _, _, call, rfl, children, called⟩

theorem llmChild_first {tenant : Tenant} {model : Model} {root child : SpanData}
    {others : List SpanData} {call : LlmCall} (children : root.children = child :: others)
    (called : IsCall tenant model child call) : llmChild root = child := by
  rw [llmChild, children, List.find?_cons_of_pos (by rw [called.inputTokens]; rfl),
    Option.getD_some]

theorem mem_generated {generator : WorkloadGenerator} {events : List EndpointEvent}
    {trace : TraceData} (member : trace ∈ generated generator events) :
    ∃ generator draws, trace = (generateTrace generator draws).1 := by
  induction events generalizing generator with
  | nil => contradiction
  | cons event rest ih =>
    cases event with
    | request request draws nowNs =>
      rcases List.mem_cons.mp member with rfl | later
      · exact ⟨generator, draws, rfl⟩
      · exact ih later
    | wake => exact ih member

/-! ### Any interleaving -/

/-- It waits for the trace of its own request. -/
def Sleeper.Waits (traces : List TraceData) (sleeper : Sleeper) : Prop :=
  traces[sleeper.number]? = some sleeper.trace ∧ sleeper.waitS = sleeper.trace.sleepS

/-- An answer, and what was emitted with it. -/
def Answer.Tells (floatRepr : ℚ → String) (traces : List TraceData) (answer : Answer)
    (emission : Emission) : Prop :=
  traces[answer.number]? = some emission.trace ∧
    answer.response = respond floatRepr emission.trace emission.spans.length

/-- Each request is answered once, or asleep, and has its own trace. -/
structure Serving (floatRepr : ℚ → String) (traces : List TraceData) (endpoint : Endpoint) :
    Prop where
  arrived : endpoint.arrived = traces.length
  served : endpoint.served = endpoint.answered.length
  once : (endpoint.answered.map Answer.number ++ endpoint.asleep.map Sleeper.number).Perm
    (List.range traces.length)
  sleeping : ∀ sleeper ∈ endpoint.asleep, sleeper.Waits traces
  answers : List.Forall₂ (Answer.Tells floatRepr traces) endpoint.answered endpoint.emitted

section
variable {floatRepr : ℚ → String} {traces : List TraceData} {endpoint : Endpoint}

theorem Serving.initial (floatRepr : ℚ → String) (generator : WorkloadGenerator) :
    Serving floatRepr [] { generator } :=
  ⟨rfl, rfl, .refl _, by simp, .nil⟩

theorem Serving.finish {waiting : Endpoint} {number : ℕ} {trace : TraceData} (nowNs : Int)
    (arrived : waiting.arrived = traces.length) (served : waiting.served = waiting.answered.length)
    (once : (waiting.answered.map Answer.number ++ number :: waiting.asleep.map Sleeper.number).Perm
      (List.range traces.length))
    (own : traces[number]? = some trace)
    (sleeping : ∀ sleeper ∈ waiting.asleep, sleeper.Waits traces)
    (answers : List.Forall₂ (Answer.Tells floatRepr traces) waiting.answered waiting.emitted) :
    Serving floatRepr traces (waiting.finish floatRepr number trace nowNs) where
  arrived := arrived
  served := by simp [Endpoint.finish, served]
  once := by simpa [Endpoint.finish] using once
  sleeping := sleeping
  answers := List.rel_append answers (.cons ⟨own, rfl⟩ .nil)

theorem getElem?_snoc {number : ℕ} {trace other : TraceData} (own : traces[number]? = some trace) :
    (traces ++ [other])[number]? = some trace := by
  rw [List.getElem?_append_left (List.getElem?_eq_some_iff.mp own).1, own]

theorem Serving.request (serving : Serving floatRepr traces endpoint) (request : InferenceRequest)
    (draws : TraceDraws) (nowNs : Int) :
    Serving floatRepr (traces ++ [(generateTrace endpoint.generator draws).1])
      (endpoint.step floatRepr (.request request draws nowNs)) := by
  have own : (traces ++ [(generateTrace endpoint.generator draws).1])[endpoint.arrived]? =
      some (generateTrace endpoint.generator draws).1 := by
    rw [serving.arrived, List.getElem?_concat_length]
  have arrived : endpoint.arrived + 1 =
      (traces ++ [(generateTrace endpoint.generator draws).1]).length := by
    simp [serving.arrived]
  have sleeping : ∀ sleeper ∈ endpoint.asleep,
      sleeper.Waits (traces ++ [(generateTrace endpoint.generator draws).1]) :=
    fun sleeper member => (serving.sleeping sleeper member).imp_left getElem?_snoc
  have answers : List.Forall₂ (Answer.Tells floatRepr
      (traces ++ [(generateTrace endpoint.generator draws).1])) endpoint.answered
      endpoint.emitted :=
    serving.answers.imp fun _ _ tells => tells.imp_left getElem?_snoc
  have once : (endpoint.answered.map Answer.number ++
      endpoint.arrived :: endpoint.asleep.map Sleeper.number).Perm
      (List.range (traces ++ [(generateTrace endpoint.generator draws).1]).length) := by
    rw [List.length_append, List.length_singleton, List.range_succ, ← serving.arrived]
    refine List.perm_middle.trans (.trans (.cons _ ?_) (List.perm_append_singleton _ _).symm)
    exact serving.arrived ▸ serving.once
  unfold Endpoint.step
  dsimp only
  split
  case isTrue =>
    refine ⟨arrived, serving.served, ?_, ?_, answers⟩
    · rw [List.map_append, ← List.append_assoc]
      exact (List.perm_append_singleton _ _).trans (List.perm_middle.symm.trans once)
    · refine List.forall_mem_append.mpr ⟨sleeping, fun sleeper member => ?_⟩
      cases List.mem_singleton.mp member
      exact ⟨own, rfl⟩
  case isFalse => exact Serving.finish nowNs arrived serving.served once own sleeping answers

theorem Serving.wake (serving : Serving floatRepr traces endpoint) (place : ℕ) (nowNs : Int) :
    Serving floatRepr traces (endpoint.step floatRepr (.wake place nowNs)) := by
  unfold Endpoint.step
  dsimp only
  cases found : endpoint.asleep[place]? with
  | none => exact serving
  | some sleeper =>
    obtain ⟨inside, rfl⟩ := List.getElem?_eq_some_iff.mp found
    have taken := List.getElem_cons_eraseIdx_perm inside
    refine Serving.finish nowNs serving.arrived serving.served ?_
      (serving.sleeping _ (List.getElem_mem inside)).1
      (fun sleeper member => serving.sleeping sleeper (List.mem_of_mem_eraseIdx member))
      serving.answers
    exact ((taken.map Sleeper.number).append_left _).trans serving.once

theorem Serving.steps (serving : Serving floatRepr traces endpoint) (events : List EndpointEvent) :
    Serving floatRepr (traces ++ generated endpoint.generator events)
      (endpoint.steps floatRepr events) := by
  induction events generalizing traces endpoint with
  | nil =>
    rw [generated, List.append_nil]
    exact serving
  | cons event rest ih =>
    cases event with
    | request request draws nowNs =>
      have later := ih (serving.request request draws nowNs)
      have made : (endpoint.step floatRepr (.request request draws nowNs)).generator =
          (generateTrace endpoint.generator draws).2 := by
        unfold Endpoint.step
        dsimp only
        split <;> rfl
      rw [made, List.append_assoc, List.singleton_append] at later
      exact later
    | wake place nowNs =>
      have later := ih (serving.wake place nowNs)
      have same : (endpoint.step floatRepr (.wake place nowNs)).generator = endpoint.generator := by
        unfold Endpoint.step
        dsimp only
        split <;> rfl
      rwa [same] at later

end

end TelemetryEngine.Emitters
