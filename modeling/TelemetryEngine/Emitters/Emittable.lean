import TelemetryEngine.Emitters.Otlp

/-! What OTLP and the columns of the hot tier can hold, and that the generator's
traces stay within it. -/
namespace TelemetryEngine.Emitters
open Foundation.Rounding

/-! ### Attributes -/

def attributeKeys : List AttributeKey := [
  .genAiSystem, .genAiOperation, .genAiRequestModel, .genAiResponseModel, .genAiRequestMaxTokens,
  .genAiRequestTemperature, .genAiUsageInputTokens, .genAiUsageOutputTokens,
  .llmKvCacheUtilization, .llmKvCacheBlocks, .llmTtftMs, .llmItlMs, .llmQueueTimeMs,
  .llmTokensPerSecond, .llmCachedPromptTokens, .llmBatchSize, .llmStreaming,
  .tenantId, .tenantTier, .route, .endpointRegion, .agentName, .agentStep, .toolName,
  .statusClass, .errorType, .requestId, .promptHash]

theorem mem_attributeKeys (key : AttributeKey) : key ∈ attributeKeys := by
  cases key <;> decide

theorem AttributeKey.name_injective : Function.Injective AttributeKey.name := by
  have apart : (attributeKeys.map AttributeKey.name).Nodup := by decide +kernel
  intro key other same
  exact List.inj_on_of_nodup_map apart (mem_attributeKeys key) (mem_attributeKeys other) same

/-- The values a reader of an attribute expects: texts, counts that fit a column of
32 or 16 bits, or anything. -/
def AttributeKey.Admits : AttributeKey → AttributeValue → Prop
  | .tenantId, value | .tenantTier, value | .genAiRequestModel, value | .genAiOperation, value
  | .route, value | .endpointRegion, value | .statusClass, value | .requestId, value
  | .errorType, value => ∃ text, value = .str text
  | .genAiUsageInputTokens, value | .genAiUsageOutputTokens, value
  | .llmCachedPromptTokens, value => ∃ count : Nat, value = .int count ∧ count < 2 ^ 32
  | .llmBatchSize, value => ∃ count : Nat, value = .int count ∧ count < 2 ^ 16
  | _, _ => True

def Typed (attributes : Attributes) : Prop := ∀ entry ∈ attributes, entry.1.Admits entry.2

@[simp] theorem typed_nil : Typed [] := List.forall_mem_nil _

@[simp] theorem typed_cons {key : AttributeKey} {value : AttributeValue} {rest : Attributes} :
    Typed ((key, value) :: rest) ↔ key.Admits value ∧ Typed rest :=
  List.forall_mem_cons

/-- Times are nanoseconds since the epoch, which OTLP does not sign and
`time.time_ns` counts in 63 bits. -/
structure Emittable (span : EmittedSpan) : Prop where
  typed : Typed span.attributes
  startNs : 0 ≤ span.startNs ∧ span.startNs < 2 ^ 63
  endNs : 0 ≤ span.endNs ∧ span.endNs < 2 ^ 63

/-! ### Parents -/

/-- The parents of the spans emitted from `next` on. -/
def ParentsBefore (outer : Option Nat) (next : Nat) (emitted : List EmittedSpan) : Prop :=
  ∀ entry ∈ emitted.zipIdx next, entry.1.parent = outer ∨ ∃ p < entry.2, entry.1.parent = some p

mutual

theorem emitSpan_parents (traceStartNs : Int) (parent : Option Nat) (next : Nat) (span : SpanData) :
    ParentsBefore parent next (emitSpan traceStartNs parent next span) := by
  cases span
  rw [emitSpan, ParentsBefore, List.zipIdx_cons]
  refine List.forall_mem_cons.mpr ⟨.inl rfl, fun entry member => .inr ?_⟩
  have onward := List.le_snd_of_mem_zipIdx member
  obtain same | before := emitAll_parents traceStartNs next (next + 1) _ entry member
  · exact ⟨next, by omega, same⟩
  · exact before

theorem emitAll_parents (traceStartNs : Int) (parent next : Nat) (spans : List SpanData) :
    ParentsBefore (some parent) next (emitAll traceStartNs parent next spans) := by
  cases spans with
  | nil => exact fun entry member => nomatch member
  | cons child rest =>
    rw [emitAll, ParentsBefore, List.zipIdx_append]
    intro entry member
    obtain first | later := List.mem_append.mp member
    · exact emitSpan_parents traceStartNs (some parent) next child entry first
    · exact emitAll_parents traceStartNs parent _ rest entry later

end

theorem emitSpan_parent_lt {traceStartNs : Int} {root : SpanData} {span : EmittedSpan}
    {position p : Nat} (member : (span, position) ∈ (emitSpan traceStartNs none 0 root).zipIdx)
    (parent : span.parent = some p) : p < position := by
  obtain none | ⟨q, before, same⟩ := emitSpan_parents traceStartNs none 0 root _ member
  · exact absurd (none.symm.trans parent) (by simp)
  · obtain rfl : q = p := Option.some.inj (same.symm.trans parent)
    exact before

/-! ### The generator's attributes -/

theorem truncate_share {x : Int} {share bound : ℚ} (nonneg : 0 ≤ x) (low : 0 ≤ share)
    (high : share ≤ 1) (within : (x : ℚ) ≤ bound) :
    0 ≤ truncate (x * share) ∧ (truncate (x * share) : ℚ) ≤ bound := by
  have whole : (0 : ℚ) ≤ x := Int.cast_nonneg nonneg
  have scaled : 0 ≤ x * share := mul_nonneg whole low
  refine ⟨truncate_nonneg scaled, ?_⟩
  rw [truncate, if_pos scaled]
  exact ((Int.floor_le _).trans (mul_le_of_le_one_right whole high)).trans within

/-- Token counts of a call, whatever becomes of it. -/
structure Counted (call : LlmCall) : Prop where
  input : 0 ≤ call.inputTokens ∧ (call.inputTokens : ℚ) ≤ 32000
  output : 0 ≤ call.outputTokens ∧ (call.outputTokens : ℚ) ≤ 4096
  cached : 0 ≤ call.cachedPromptTokens ∧ (call.cachedPromptTokens : ℚ) ≤ 32000

theorem llmRequest_counted (errorRate kvUtilization : ℚ) (profile : ModelProfile)
    (operation : Operation) (draws : LlmDraws) :
    Counted (llmRequest errorRate kvUtilization profile operation draws) := by
  obtain ⟨inputLow, inputHigh⟩ :=
    sampleLongTail_pos draws.inputLength (show (1 : ℚ) ≤ 32000 by norm_num)
  obtain ⟨outputLow, outputHigh⟩ :=
    sampleLongTail_pos draws.outputLength (show (1 : ℚ) ≤ 4096 by norm_num)
  obtain ⟨shareLow, shareHigh⟩ := draws.cachedShare.property
  have input : 0 ≤ sampleLongTail draws.inputLength 32000 := by omega
  refine ⟨⟨input, inputHigh⟩, ?_, truncate_share input shareLow shareHigh inputHigh⟩
  simp only [llmRequest]
  split
  · norm_num
  · exact ⟨by omega, outputHigh⟩

theorem LlmCall.fail_counted {call : LlmCall} (counted : Counted call) (draws : LlmDraws) :
    Counted (call.fail draws) := by
  obtain ⟨shareLow, shareHigh⟩ := draws.timeoutShare.property
  unfold LlmCall.fail
  split
  · exact counted
  · refine ⟨counted.input, ?_, counted.cached⟩
    exact truncate_share counted.output.1 shareLow (shareHigh.trans (by norm_num)) counted.output.2
  · exact ⟨counted.input, by norm_num, counted.cached⟩
  · exact ⟨counted.input, by norm_num, counted.cached⟩

theorem admits_count {count : Int} {limit : Nat} (bound : Nat)
    (range : 0 ≤ count ∧ (count : ℚ) ≤ bound) (small : bound < limit) :
    ∃ n : Nat, AttributeValue.int count = .int n ∧ n < limit := by
  obtain ⟨n, rfl⟩ := Int.eq_ofNat_of_zero_le range.1
  have high : n ≤ bound := by exact_mod_cast range.2
  exact ⟨n, rfl, high.trans_lt small⟩

theorem Typed.append {xs ys : Attributes} (front : Typed xs) (back : Typed ys) :
    Typed (xs ++ ys) :=
  fun entry member => (List.mem_append.mp member).elim (front entry) (back entry)

theorem llmCall_typed {call : LlmCall} (counted : Counted call) (tenant : Tenant) (model : Model)
    (route region : String) (operation : Operation) (kvUtilization : ℚ) (draws : LlmDraws) :
    Typed (call.attributes tenant model route region operation kvUtilization draws) := by
  have batch := draws.batchSize.isLt
  unfold LlmCall.attributes
  refine .append (.append ?_ ?_) ?_
  · simp only [typed_cons, AttributeKey.Admits, AttributeValue.str.injEq, exists_eq', true_and]
    refine ⟨admits_count 32000 counted.input (by norm_num),
      admits_count 4096 counted.output (by norm_num),
      admits_count 32000 counted.cached (by norm_num), ⟨draws.batchSize + 1, ?_, by omega⟩,
      typed_nil⟩
    push_cast
    rfl
  · split <;> simp [AttributeKey.Admits]
  · split <;> simp [AttributeKey.Admits]

theorem stepCall_typed (errorRate : ℚ) (tenant : Tenant) (model : Model) (region : String)
    (draws : StepDraws) (kvUtilization cursorMs : ℚ) :
    Typed (stepCall errorRate tenant model region draws kvUtilization cursorMs).1.attributes :=
  llmCall_typed (LlmCall.fail_counted (llmRequest_counted _ _ _ _ _) _) _ _ _ _ _ _ _

theorem toolSpan_typed (tenant : Tenant) (startOffsetMs : ℚ) (step : Nat) (draws : ToolDraws) :
    Typed (toolSpan tenant startOffsetMs step draws).attributes := by
  simp [toolSpan, AttributeKey.Admits]

/-- A child of a generated trace: well typed, and over when the cursor stands at `endMs`. -/
structure ChildBy (endMs : ℚ) (child : SpanData) : Prop where
  typed : Typed child.attributes
  duration : 0 ≤ child.durationMs
  ended : child.startOffsetMs + child.durationMs ≤ endMs

theorem stepSpans_children (errorRate : ℚ) (tenant : Tenant) (model : Model) (region : String)
    (step : Nat) (draws : List StepDraws) (kvUtilization cursorMs : ℚ) :
    let spans := stepSpans errorRate tenant model region step draws kvUtilization cursorMs
    ∀ child ∈ spans.1, ChildBy spans.2.2 child := by
  induction draws generalizing step kvUtilization cursorMs with
  | nil => exact fun child member => nomatch member
  | cons draws rest ih =>
    obtain ⟨start, duration, _⟩ :=
      stepCall_times errorRate tenant model region draws kvUtilization cursorMs
    have typed := stepCall_typed errorRate tenant model region draws kvUtilization cursorMs
    have waits := draws.tool.duration.property.le
    simp only [stepSpans]
    generalize stepCall errorRate tenant model region draws kvUtilization cursorMs = called at *
    split
    case isTrue =>
      obtain ⟨onward, _⟩ := stepSpans_times errorRate tenant model region (step + 1) rest called.2
        (cursorMs + called.1.durationMs + draws.tool.duration.val)
      refine List.forall_mem_cons.mpr ⟨⟨typed, duration, ?_⟩, List.forall_mem_cons.mpr
        ⟨⟨toolSpan_typed _ _ _ _, waits, onward⟩, ih _ _ _⟩⟩
      rw [start]
      exact le_trans (by linarith) onward
    case isFalse =>
      obtain ⟨onward, _⟩ := stepSpans_times errorRate tenant model region (step + 1) rest called.2
        (cursorMs + called.1.durationMs)
      refine List.forall_mem_cons.mpr ⟨⟨typed, duration, ?_⟩, ih _ _ _⟩
      rwa [start]

theorem msToNs_add_le {x y z : ℚ} (left : 0 ≤ x) (right : 0 ≤ y) (within : x + y ≤ z) :
    msToNs x + msToNs y ≤ msToNs z := by
  simp only [msToNs, truncate]
  rw [if_pos (by positivity), if_pos (by positivity), if_pos (by linarith)]
  refine (Int.le_floor_add _ _).trans (Int.floor_le_floor ?_)
  linarith

theorem generateTrace_within (generator : WorkloadGenerator) (draws : TraceDraws) :
    let root := (generateTrace generator draws).1.root
    ∀ data ∈ root.walk, Typed data.attributes ∧ 0 ≤ data.startOffsetMs ∧ 0 ≤ data.durationMs ∧
      data.startOffsetMs + data.durationMs ≤ root.durationMs := by
  intro root data member
  obtain ⟨start, whole, later⟩ := generateTrace_times generator draws
  have early := later data member
  have tail : (0 : ℚ) ≤ draws.tail.val := le_trans (by norm_num) draws.tail.property.1
  obtain ⟨_, leaves⟩ := stepSpans_times generator.errorRate
    (generator.tenants.sample draws.tenant) draws.model (regions.get draws.region) 0 draws.steps
    generator.kvUtilization draws.cursor.val
  have children := stepSpans_children generator.errorRate
    (generator.tenants.sample draws.tenant) draws.model (regions.get draws.region) 0 draws.steps
    generator.kvUtilization draws.cursor.val
  have walked : root.walk = root :: walkAll root.children := rfl
  have leaf : ∀ child ∈ root.children, child.children = [] :=
    fun child inside => (leaves child inside).2
  rw [walked, walkAll_leaves leaf] at member
  obtain rfl | inside := List.mem_cons.mp member
  · refine ⟨?_, early, whole, by rw [start, zero_add]⟩
    simp [root, generateTrace, AttributeKey.Admits]
  · obtain ⟨typed, duration, ended⟩ := children data inside
    exact ⟨typed, early, duration, ended.trans (le_add_of_nonneg_right tail)⟩

/-- A trace that starts after the epoch and ends by now is emittable. -/
theorem emitTrace_emittable (generator : WorkloadGenerator) (draws : TraceDraws) (nowNs : Int)
    (started : 0 ≤ traceStart (generateTrace generator draws).1 nowNs) (now : nowNs < 2 ^ 63) :
    ∀ span ∈ emitTrace (generateTrace generator draws).1 nowNs, Emittable span := by
  intro span member
  have fields := List.mem_map_of_mem (f := EmittedSpan.fields) member
  rw [emitTrace, Option.getD_none, emitSpan_fields] at fields
  obtain ⟨data, walked, same⟩ := List.mem_map.mp fields
  obtain ⟨typed, early, duration, ended⟩ := generateTrace_within generator draws data walked
  have first := msToNs_nonneg early
  have lasts := msToNs_nonneg duration
  have within := msToNs_add_le early duration ended
  have last : traceStart (generateTrace generator draws).1 nowNs +
    msToNs (generateTrace generator draws).1.root.durationMs = nowNs := sub_add_cancel _ _
  simp only [emittedFields, EmittedSpan.fields, Prod.mk.injEq] at same
  obtain ⟨starts, ends, attributes⟩ := same
  refine ⟨attributes ▸ typed, ?_, ?_⟩
  · omega
  · omega

end TelemetryEngine.Emitters
