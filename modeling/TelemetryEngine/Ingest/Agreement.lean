import TelemetryEngine.Ingest.OtlpJson

/-! The view reads back what the emitter wrote: a row for each span, with the span's
ids, times and attributes, whatever the nesting of the messages that carried them. -/
namespace TelemetryEngine.Ingest
open Foundation Emitters

def stringOf : AttributeValue → String
  | .str text => text
  | .int _ | .float _ | .bool _ => ""

def textOf [BEq K] (attributes : List (K × AttributeValue)) (key : K) : String :=
  ((attributes.lookup key).map stringOf).getD ""

def countOf (attributes : Attributes) (key : AttributeKey) : Int :=
  match attributes.lookup key with
  | some (.int count) => count
  | _ => 0

/-- A row that holds what was emitted. -/
structure Agrees (ids : TraceIds) (row : DecodedRow) (placed : Resource × Positioned) : Prop where
  traceId : row.columns.traceId = ids.traceId
  spanId : row.columns.spanId = ids.spanId placed.2.2
  parentSpanId : row.columns.parentSpanId = ids.parentSpanId placed.2.1
  spanName : row.columns.spanName = placed.2.1.name
  spanKind : row.columns.spanKind = placed.2.1.kind.value
  ts : row.ts = placed.2.1.startNs / 1000000 ∧ (row.columns.ts : Int) = row.ts
  durationMs : row.columns.durationMs = (placed.2.1.endNs - placed.2.1.startNs : Int) / 1000000
  serviceName : row.columns.serviceName = textOf placed.1 "service.name"
  tenantId : row.columns.tenantId = textOf placed.2.1.attributes .tenantId
  tenantTier : row.columns.tenantTier = textOf placed.2.1.attributes .tenantTier
  model : row.columns.model = textOf placed.2.1.attributes .genAiRequestModel
  operation : row.columns.operation = textOf placed.2.1.attributes .genAiOperation
  route : row.columns.route = textOf placed.2.1.attributes .route
  region : row.columns.region = textOf placed.2.1.attributes .endpointRegion
  statusClass : row.columns.statusClass = textOf placed.2.1.attributes .statusClass
  requestId : row.columns.requestId = textOf placed.2.1.attributes .requestId
  errorType : row.columns.errorType = textOf placed.2.1.attributes .errorType
  inputTokens :
    (row.columns.inputTokens.toNat : Int) = countOf placed.2.1.attributes .genAiUsageInputTokens
  outputTokens :
    (row.columns.outputTokens.toNat : Int) = countOf placed.2.1.attributes .genAiUsageOutputTokens
  cachedPromptTokens : (row.columns.cachedPromptTokens.toNat : Int) =
    countOf placed.2.1.attributes .llmCachedPromptTokens
  batchSize : (row.columns.batchSize.toNat : Int) = countOf placed.2.1.attributes .llmBatchSize

/-! ### Fields -/

theorem get_cons (json : Json) (key : String) (path : List String) :
    json.get (key :: path) = (json.get [key]).bind (·.get path) := by
  cases json with
  | obj fields =>
    simp only [Json.get]
    cases fields.lookup key with
    | none => rfl
    | some value => simp
  | null | bool | int | float | str | arr => rfl

variable {functions : Functions} {json : Json} {path : List String}

theorem extractString_found {text : String} (found : json.get path = some (.str text)) :
    extractString functions json path = text := by
  rw [extractString, Option.bind_some, found]

theorem extractString_missing (missing : json.get path = none) :
    extractString functions json path = "" := by
  rw [extractString, Option.bind_some, missing]

theorem extractString_field {text : String} (field : Field json path (.str text) (.str "")) :
    extractString functions json path = text := by
  obtain found | ⟨missing, same⟩ := field
  · exact extractString_found found
  · rw [extractString_missing missing]
    exact (Json.str.inj same).symm

theorem extractArrayRaw_field {items : List Json} (field : Field json path (.arr items) (.arr [])) :
    extractArrayRaw json path = items := by
  obtain found | ⟨missing, same⟩ := field
  · rw [extractArrayRaw, Option.bind_some, found]
  · rw [extractArrayRaw, Option.bind_some, missing]
    exact (Json.arr.inj same).symm

theorem toString_natCast (n : Nat) : toString (n : Int) = toString n := rfl

/-- A time comes through, also one that is left out. -/
theorem toInt64OrZero_field {ns : Int} (range : 0 ≤ ns ∧ ns < 2 ^ 63)
    (field : Field json path (.str (toString ns)) (.str "0")) :
    toInt64OrZero (extractString functions json path) = ns := by
  obtain ⟨n, rfl⟩ := Int.eq_ofNat_of_zero_le range.1
  obtain found | ⟨missing, same⟩ := field
  · rw [extractString_found found, toString_natCast]
    exact toInt64OrZero_toString (by omega)
  · rw [extractString_missing missing]
    have zero : toString n = toString 0 := Json.str.inj same
    have parsed := Decimal.parseUnsigned_toString n
    rw [zero, Decimal.parseUnsigned_toString] at parsed
    rw [← Option.some.inj parsed]
    rfl

/-! ### Attributes -/

/-- The text of an attribute whose text a column holds or is read from. -/
def Reads (text : String) : AttributeValue → Prop
  | .str value => text = value
  | .int value => text = toString value
  | .float _ | .bool _ => True

theorem attributeText_reads {key : String} {value : AttributeValue}
    (encodes : EncodesAttribute json key value) : Reads (attributeText functions json) value := by
  obtain ⟨_, encoded, found, value_eq⟩ := encodes
  have at_value : ∀ field, json.get ["value", field] = encoded.get [field] := by
    intro field
    rw [get_cons, found, Option.bind_some]
  simp only [attributeText, hasPath, extractString, Option.bind_some, at_value]
  cases value with
  | str text =>
    obtain rfl := value_eq
    rfl
  | int count =>
    obtain rfl := value_eq
    rfl
  | float | bool => trivial

theorem stringValue_read {key : String} {value : AttributeValue}
    (encodes : EncodesAttribute json key value) :
    extractString functions json ["value", "stringValue"] = stringOf value := by
  obtain ⟨_, encoded, found, value_eq⟩ := encodes
  have at_value : json.get ["value", "stringValue"] = encoded.get ["stringValue"] := by
    rw [get_cons, found, Option.bind_some]
  rw [extractString, Option.bind_some, at_value]
  cases value with
  | str | int | bool =>
    obtain rfl := value_eq
    rfl
  | float =>
    obtain ⟨number, rfl⟩ := value_eq
    rfl

/-- Related values are found under the same keys. -/
theorem lookup_related [BEq K] [LawfulBEq K] {name : K → String} {R : String → V → Prop}
    {entries : List (String × String)} {attributes : List (K × V)}
    (injective : Function.Injective name)
    (related : List.Forall₂ (fun entry a => entry.1 = name a.1 ∧ R entry.2 a.2) entries attributes)
    (key : K) : Option.Rel R (entries.lookup (name key)) (attributes.lookup key) := by
  induction related with
  | nil => exact .none
  | @cons entry a entries attributes same rest ih =>
    obtain ⟨entryName, text⟩ := entry
    obtain ⟨other, value⟩ := a
    obtain ⟨rfl, reads⟩ := same
    rw [List.lookup_cons, List.lookup_cons]
    by_cases equal : key = other
    · subst equal
      simpa using reads
    · have apart : (name key == name other) = false := by simpa using fun same => equal (injective same)
      have different : (key == other) = false := by simpa using equal
      rw [apart, different]
      exact ih

theorem spanAttributes_related {positioned : Positioned} {ids : TraceIds}
    (encodes : EncodesSpan ids json positioned) :
    List.Forall₂ (fun entry (a : AttributeKey × AttributeValue) =>
      entry.1 = a.1.name ∧ Reads entry.2 a.2) (spanAttributes functions json)
      positioned.1.attributes := by
  obtain ⟨items, field, each⟩ := encodes.attributes
  rw [spanAttributes, extractArrayRaw_field field, List.forall₂_map_left_iff]
  exact each.imp fun item a encoded => ⟨extractString_field encoded.1, attributeText_reads encoded⟩

variable {attributes : Attributes} {entries : List (String × String)}

theorem mapGet_text {key : AttributeKey}
    (related : Option.Rel Reads (entries.lookup key.name) (attributes.lookup key))
    (typed : ∀ value, attributes.lookup key = some value → ∃ text, value = .str text) :
    mapGet entries key.name = textOf attributes key := by
  rw [mapGet, textOf]
  generalize entries.lookup key.name = read at related
  generalize attributes.lookup key = emitted at related typed
  cases related with
  | none => rfl
  | some reads =>
    obtain ⟨text, rfl⟩ := typed _ rfl
    exact reads

theorem mapGet_count {key : AttributeKey} {width : Nat} (positive : 0 < width)
    (related : Option.Rel Reads (entries.lookup key.name) (attributes.lookup key))
    (typed : ∀ value, attributes.lookup key = some value →
      ∃ count : Nat, value = .int count ∧ count < width) :
    ∃ count : Nat, (count : Int) = countOf attributes key ∧ count < width ∧
      (Decimal.parseUnsigned (mapGet entries key.name).toList).getD 0 = count := by
  rw [mapGet, countOf]
  generalize entries.lookup key.name = read at related
  generalize attributes.lookup key = emitted at related typed
  cases related with
  | none => exact ⟨0, rfl, positive, rfl⟩
  | some reads =>
    obtain ⟨count, rfl, small⟩ := typed _ rfl
    obtain rfl := reads
    refine ⟨count, rfl, small, ?_⟩
    rw [Option.getD_some, toString_natCast, Decimal.parseUnsigned_toString, Option.getD_some]

theorem toUInt32OrZero_count {key : AttributeKey}
    (related : Option.Rel Reads (entries.lookup key.name) (attributes.lookup key))
    (typed : ∀ value, attributes.lookup key = some value →
      ∃ count : Nat, value = .int count ∧ count < 2 ^ 32) :
    ((toUInt32OrZero (mapGet entries key.name)).toNat : Int) = countOf attributes key := by
  obtain ⟨count, same, small, parsed⟩ := mapGet_count (by decide) related typed
  rw [toUInt32OrZero, parsed, if_pos small, UInt32.toNat_ofNat_of_lt' small, same]

theorem toUInt16OrZero_count {key : AttributeKey}
    (related : Option.Rel Reads (entries.lookup key.name) (attributes.lookup key))
    (typed : ∀ value, attributes.lookup key = some value →
      ∃ count : Nat, value = .int count ∧ count < 2 ^ 16) :
    ((toUInt16OrZero (mapGet entries key.name)).toNat : Int) = countOf attributes key := by
  obtain ⟨count, same, small, parsed⟩ := mapGet_count (by decide) related typed
  rw [toUInt16OrZero, parsed, if_pos small, UInt16.toNat_ofNat_of_lt' small, same]

theorem typed_lookup (typed : Typed attributes) (key : AttributeKey) :
    ∀ value, attributes.lookup key = some value → key.Admits value := by
  intro value found
  obtain ⟨before, after, rfl, _⟩ := List.lookup_eq_some_iff.mp found
  exact typed (key, value) (by simp)

/-! ### Spans -/

theorem kindName_ordinal {kind : SpanKind} (found : json.get path = some (.int (kindOrdinal kind))) :
    kindName (extractUInt functions json path) = kind.value := by
  rw [extractUInt, Option.bind_some, found]
  cases kind <;> rfl

theorem decodeSpan_agrees {ids : TraceIds} {positioned : Positioned}
    {resource : List (String × String)} {group : Resource}
    (encodes : EncodesSpan ids json positioned) (emittable : Emittable positioned.1)
    (service : mapGet resource "service.name" = textOf group "service.name") :
    Agrees ids (decodeSpan functions resource json) (group, positioned) := by
  have starts : toInt64OrZero (extractString functions json ["startTimeUnixNano"]) =
    positioned.1.startNs := toInt64OrZero_field emittable.startNs encodes.startTime
  have ends : toInt64OrZero (extractString functions json ["endTimeUnixNano"]) =
    positioned.1.endNs := toInt64OrZero_field emittable.endNs encodes.endTime
  have found : ∀ key : AttributeKey, Option.Rel Reads
      ((spanAttributes functions json).lookup key.name) (positioned.1.attributes.lookup key) :=
    lookup_related AttributeKey.name_injective (spanAttributes_related encodes)
  have typed := typed_lookup emittable.typed
  have input := toUInt32OrZero_count (found .genAiUsageInputTokens) (typed .genAiUsageInputTokens)
  have output :=
    toUInt32OrZero_count (found .genAiUsageOutputTokens) (typed .genAiUsageOutputTokens)
  have cached := toUInt32OrZero_count (found .llmCachedPromptTokens) (typed .llmCachedPromptTokens)
  have batch := toUInt16OrZero_count (found .llmBatchSize) (typed .llmBatchSize)
  obtain ⟨early, _⟩ := emittable.startNs
  exact {
    traceId := extractString_field encodes.traceId
    spanId := extractString_field encodes.spanId
    parentSpanId := extractString_field encodes.parentSpanId
    spanName := extractString_field encodes.name
    spanKind := kindName_ordinal encodes.kind
    ts := by
      simp only [decodeSpan, starts, Int.tdiv_eq_ediv_of_nonneg early, true_and]
      exact Int.toNat_of_nonneg (Int.ediv_nonneg early (by norm_num))
    durationMs := by
      have small : (positioned.1.endNs - positioned.1.startNs).bmod (2 ^ 64) =
          positioned.1.endNs - positioned.1.startNs := by
        have first := emittable.startNs
        have last := emittable.endNs
        exact Int.bmod_eq_of_le (by omega) (by omega)
      simp only [decodeSpan, starts, ends, small]
    serviceName := service
    tenantId := mapGet_text (found .tenantId) (typed .tenantId)
    tenantTier := mapGet_text (found .tenantTier) (typed .tenantTier)
    model := mapGet_text (found .genAiRequestModel) (typed .genAiRequestModel)
    operation := mapGet_text (found .genAiOperation) (typed .genAiOperation)
    route := mapGet_text (found .route) (typed .route)
    region := mapGet_text (found .endpointRegion) (typed .endpointRegion)
    statusClass := mapGet_text (found .statusClass) (typed .statusClass)
    requestId := mapGet_text (found .requestId) (typed .requestId)
    errorType := mapGet_text (found .errorType) (typed .errorType)
    inputTokens := input
    outputTokens := output
    cachedPromptTokens := cached
    batchSize := batch }

/-! ### Messages -/

/-- Only texts are read of a resource. -/
theorem resourceAttributes_service {ids : TraceIds} {group : ResourceSpans}
    (encodes : EncodesResourceSpans ids json group) :
    mapGet (resourceAttributes functions json) "service.name" =
      textOf group.resource "service.name" := by
  obtain ⟨items, field, each⟩ := encodes.resource
  have read : extractArrayRaw (extractRaw json ["resource"]) ["attributes"] = items := by
    rw [Field, get_cons] at field
    rw [extractArrayRaw, extractRaw, Option.bind_some]
    obtain found | ⟨missing, same⟩ := field
    · rw [found]
    · rw [missing]
      exact (Json.arr.inj same).symm
  have related : List.Forall₂ (fun entry (a : String × AttributeValue) =>
      entry.1 = id a.1 ∧ entry.2 = stringOf a.2)
      (resourceAttributes functions json) group.resource := by
    rw [resourceAttributes, read, List.forall₂_map_left_iff]
    exact each.imp fun item a encoded => ⟨extractString_field encoded.1, stringValue_read encoded⟩
  have looked := lookup_related (R := fun text value => text = stringOf value)
    Function.injective_id related "service.name"
  rw [id] at looked
  rw [mapGet, textOf]
  generalize (resourceAttributes functions json).lookup "service.name" = read at looked
  generalize group.resource.lookup "service.name" = emitted at looked
  cases looked with
  | none => rfl
  | some same => exact same

theorem forall₂_and {R : A → B → Prop} {Q : B → Prop} {xs : List A} {ys : List B}
    (related : List.Forall₂ R xs ys) (all : ∀ y ∈ ys, Q y) :
    List.Forall₂ (fun x y => R x y ∧ Q y) xs ys := by
  induction related with
  | nil => exact .nil
  | cons first _ ih =>
    obtain ⟨head, tail⟩ := List.forall_mem_cons.mp all
    exact .cons ⟨first, head⟩ (ih tail)

theorem decodeResource_agrees {ids : TraceIds} {group : ResourceSpans}
    (encodes : EncodesResourceSpans ids json group)
    (emittable : ∀ spans ∈ group.scopeSpans, ∀ positioned ∈ spans, Emittable positioned.1) :
    List.Forall₂ (Agrees ids) (decodeResource functions json)
      (group.scopeSpans.flatMap fun spans => spans.map (group.resource, ·)) := by
  obtain ⟨scopes, field, each⟩ := encodes.scopeSpans
  rw [decodeResource, extractArrayRaw_field field]
  refine List.rel_flatMap (forall₂_and each emittable) fun scope spans encoded => ?_
  obtain ⟨⟨items, spanField, eachSpan⟩, spansEmittable⟩ := encoded
  rw [extractArrayRaw_field spanField, List.forall₂_map_left_iff, List.forall₂_map_right_iff]
  refine (forall₂_and eachSpan spansEmittable).imp fun item positioned span => ?_
  exact decodeSpan_agrees span.1 span.2 (resourceAttributes_service encodes)

theorem decodeMessage_agrees {ids : TraceIds} {message : Message}
    (encodes : EncodesMessage ids json message)
    (emittable : ∀ placed ∈ spansOf message, Emittable placed.2.1) :
    List.Forall₂ (Agrees ids) (decodeMessage functions json) (spansOf message) := by
  obtain ⟨groups, field, each⟩ := encodes
  rw [decodeMessage, extractArrayRaw_field field, spansOf]
  have inside : ∀ group ∈ message, ∀ spans ∈ group.scopeSpans, ∀ positioned ∈ spans,
      Emittable positioned.1 := by
    intro group listed spans inScope positioned member
    refine emittable (group.resource, positioned) (List.mem_flatMap.mpr ⟨group, listed, ?_⟩)
    exact List.mem_flatMap.mpr ⟨spans, inScope, List.mem_map_of_mem member⟩
  exact List.rel_flatMap (forall₂_and each inside) fun item group encoded =>
    decodeResource_agrees encoded.1 encoded.2

/-! ### Traces -/

/-- The rows are the emitted spans, one each, and their ids form the emitted tree. -/
structure Reproduces (ids : TraceIds) (emitted : List EmittedSpan) (rows : List DecodedRow)
    (placed : List (Resource × Positioned)) : Prop where
  once : rows.length = emitted.length
  agrees : List.Forall₂ (Agrees ids) rows placed
  root : ∀ one ∈ rows.zip placed,
    one.1.columns.parentSpanId = "" ↔ one.2.2.1.parent = none
  parent : ∀ one ∈ rows.zip placed, ∀ other ∈ rows.zip placed,
    one.1.columns.parentSpanId = other.1.columns.spanId ↔ one.2.2.1.parent = some other.2.2.2

theorem mvSpansRaw_agrees {ids : TraceIds} {messages : List Message} {block : List String}
    (emittable : ∀ placed ∈ messages.flatMap spansOf, Emittable placed.2.1)
    (encodes : List.Forall₂ (fun raw message =>
      ∃ json, functions.parse raw = some json ∧ EncodesMessage ids json message) block messages) :
    List.Forall₂ (Agrees ids) (mvSpansRaw functions block) (messages.flatMap spansOf) := by
  have inside : ∀ message ∈ messages, ∀ placed ∈ spansOf message, Emittable placed.2.1 :=
    fun message listed placed member =>
      emittable placed (List.mem_flatMap.mpr ⟨message, listed, member⟩)
  rw [mvSpansRaw]
  refine List.rel_flatMap (forall₂_and encodes inside) fun raw message encoded => ?_
  obtain ⟨⟨json, parsed, encodesMessage⟩, messageEmittable⟩ := encoded
  rw [parsed]
  exact decodeMessage_agrees encodesMessage messageEmittable

section
variable {ids : TraceIds} {row : DecodedRow} {placed : Resource × Positioned} {count : Nat}
  (agrees : Agrees ids row placed) (distinct : ids.Distinct count)
  (known : ∀ p, placed.2.1.parent = some p → p < count)
include agrees distinct known

theorem Agrees.root : row.columns.parentSpanId = "" ↔ placed.2.1.parent = none := by
  rw [agrees.parentSpanId, TraceIds.parentSpanId]
  cases parent : placed.2.1.parent with
  | none => simp
  | some p => simpa using distinct.nonempty p (known p parent)

/-- Ids name the parent, as each is the id of one span. -/
theorem Agrees.parent {otherRow : DecodedRow} {otherPlaced : Resource × Positioned}
    (other : Agrees ids otherRow otherPlaced) (emitted : otherPlaced.2.2 < count) :
    row.columns.parentSpanId = otherRow.columns.spanId ↔
      placed.2.1.parent = some otherPlaced.2.2 := by
  rw [agrees.parentSpanId, other.spanId, TraceIds.parentSpanId]
  cases parent : placed.2.1.parent with
  | none => simpa using (distinct.nonempty _ emitted).symm
  | some p =>
    constructor
    · exact fun same => congrArg some (distinct.injective p (known p parent) _ emitted same)
    · exact fun same => congrArg ids.spanId (Option.some.inj same)

end

/-- The view reads every trace back, however its spans were grouped into messages. Times
and attributes must be such as OTLP and the columns hold; those of a generated trace are. -/
theorem decoder_agrees (functions : Functions) (ids : TraceIds) :
    (∀ (generator : WorkloadGenerator) (draws : TraceDraws) (nowNs : Int),
      0 ≤ traceStart (generateTrace generator draws).1 nowNs → nowNs < 2 ^ 63 →
      ∀ span ∈ emitTrace (generateTrace generator draws).1 nowNs, Emittable span) ∧
    ∀ (root : SpanData) (traceStartNs : Int) (messages : List Message) (block : List String),
      (∀ span ∈ emitSpan traceStartNs none 0 root, Emittable span) →
      ids.Distinct (emitSpan traceStartNs none 0 root).length →
      ((messages.flatMap spansOf).map Prod.snd).Perm (emitSpan traceStartNs none 0 root).zipIdx →
      List.Forall₂ (fun raw message =>
        ∃ json, functions.parse raw = some json ∧ EncodesMessage ids json message) block messages →
      Reproduces ids (emitSpan traceStartNs none 0 root) (mvSpansRaw functions block)
        (messages.flatMap spansOf) := by
  refine ⟨emitTrace_emittable, ?_⟩
  intro root traceStartNs messages block emittable distinct grouped encodes
  have positioned : ∀ placed ∈ messages.flatMap spansOf,
      placed.2 ∈ (emitSpan traceStartNs none 0 root).zipIdx :=
    fun placed member => grouped.mem_iff.mp (List.mem_map_of_mem member)
  have bound : ∀ placed ∈ messages.flatMap spansOf,
      placed.2.2 < (emitSpan traceStartNs none 0 root).length :=
    fun placed member => by simpa using List.snd_lt_of_mem_zipIdx (positioned placed member)
  have known : ∀ placed ∈ messages.flatMap spansOf, ∀ p, placed.2.1.parent = some p →
      p < (emitSpan traceStartNs none 0 root).length :=
    fun placed member p parent =>
      (emitSpan_parent_lt (positioned placed member) parent).trans (bound placed member)
  have agrees := mvSpansRaw_agrees (fun placed member =>
    emittable _ (List.fst_mem_of_mem_zipIdx (positioned placed member))) encodes
  obtain ⟨_, rowAgrees⟩ := List.forall₂_iff_zip.mp agrees
  refine ⟨?_, agrees, ?_, ?_⟩
  · rw [agrees.length_eq, ← List.length_map Prod.snd, grouped.length_eq, List.length_zipIdx]
  · intro one member
    have inside := (List.of_mem_zip member).2
    exact (rowAgrees member).root distinct (known _ inside)
  · intro one member other otherMember
    have inside := (List.of_mem_zip member).2
    have otherInside := (List.of_mem_zip otherMember).2
    exact (rowAgrees member).parent distinct (known _ inside) (rowAgrees otherMember)
      (bound _ otherInside)

/-- An agent that calls a model and a tool. -/
def agentTrace : SpanData where
  name := "invoke_agent research-agent"
  kind := .server
  startOffsetMs := 0
  durationMs := 12
  attributes := [(.tenantId, .str "tenant-0001"), (.requestId, .str "5f")]
  status := .ok
  children := [
    ⟨"chat qwen2.5-14b-instruct", .client, 1, 7 / 2,
      [(.genAiUsageInputTokens, .int 420), (.llmStreaming, .bool true)], .ok, []⟩,
    ⟨"execute_tool sql_query", .internal, 5, 2, [(.agentStep, .int 0)], .timeout, []⟩]

def agentSpans : List EmittedSpan := emitSpan 1700000000000000000 none 0 agentTrace

def agentIds : TraceIds where
  traceId := "0af7651916cd43dd8448eb211c80319c"
  spanId position := ["b7ad6b7169203331", "00f067aa0ba902b7", "d75597dee50b0cac"].getD position ""

/-- The tool call comes first, and the model call from another resource. -/
def agentMessage : Message := [
  ⟨[("service.name", .str "agent")], [agentSpans.zipIdx.drop 2, agentSpans.zipIdx.take 1]⟩,
  ⟨[("service.name", .str "mock-inference-endpoint")], [(agentSpans.zipIdx.drop 1).take 1]⟩]

theorem agentSpans_emittable : ∀ span ∈ agentSpans, Emittable span := by
  have times : ∀ span ∈ agentSpans, (0 ≤ span.startNs ∧ span.startNs < 2 ^ 63) ∧
      0 ≤ span.endNs ∧ span.endNs < 2 ^ 63 := by
    decide +kernel
  have typed : ∀ span ∈ agentSpans, Typed span.attributes := by
    have tokens : ∃ count : Nat, AttributeValue.int 420 = .int count ∧ count < 2 ^ 32 :=
      ⟨420, rfl, by norm_num⟩
    simpa [agentSpans, agentTrace, emitSpan, emitAll, AttributeKey.Admits] using tokens
  exact fun span member => ⟨typed span member, (times span member).1, (times span member).2⟩

theorem decoder_agrees_regrouped :
    let message := encodeMessage agentIds agentMessage
    Reproduces agentIds agentSpans
      (mvSpansRaw (readingFunctions [message]) [message.text fun _ => ""])
      ([agentMessage].flatMap spansOf) :=
  (decoder_agrees _ agentIds).2 agentTrace 1700000000000000000 [agentMessage] _
    agentSpans_emittable ⟨by decide +kernel, by decide +kernel⟩ (by decide +kernel)
    (.cons ⟨_, readingFunctions_parse _, encodeMessage_encodes _ _⟩ .nil)

end TelemetryEngine.Ingest
