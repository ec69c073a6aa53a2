import TelemetryEngine.Emitters.Emittable
import TelemetryEngine.Ingest.MvSpansRaw

/-! OTLP in its JSON encoding, as far as the view reads it. A message holds groups of
spans by resource and scope. What encodes one is a relation: a field that holds its
type's default may be left out, and there may be others in any order. -/
namespace TelemetryEngine.Ingest
open Emitters

/-! ### Messages -/

/-- The ids the SDK gives to a trace and to its spans, by the order of emission. -/
structure TraceIds where
  traceId : String
  spanId : Nat → String

/-- Ids tell spans apart, and none is the empty one of a span without a parent. -/
structure TraceIds.Distinct (ids : TraceIds) (count : Nat) : Prop where
  injective : ∀ i < count, ∀ j < count, ids.spanId i = ids.spanId j → i = j
  nonempty : ∀ i < count, ids.spanId i ≠ ""

def TraceIds.parentSpanId (ids : TraceIds) (span : EmittedSpan) : String :=
  match span.parent with
  | some position => ids.spanId position
  | none => ""

abbrev Resource := List (String × AttributeValue)

abbrev Positioned := EmittedSpan × Nat

structure ResourceSpans where
  resource : Resource
  scopeSpans : List (List Positioned)

abbrev Message := List ResourceSpans

/-- The spans of a message in order, each with the resource that encloses it. -/
def spansOf (message : Message) : List (Resource × Positioned) :=
  message.flatMap fun group => group.scopeSpans.flatMap fun spans => spans.map (group.resource, ·)

/-! ### Encoding -/

/-- A field at a path. It may be left out when it holds the default. -/
def Field (json : Json) (path : List String) (value default : Json) : Prop :=
  json.get path = some value ∨ json.get path = none ∧ value = default

/-- A value has one field, named by its type. Integers are decimal strings; the number
of a float is the encoder's. -/
def EncodesValue (json : Json) : AttributeValue → Prop
  | .str text => json = .obj [("stringValue", .str text)]
  | .int value => json = .obj [("intValue", .str (toString value))]
  | .float _ => ∃ number, json = .obj [("doubleValue", number)]
  | .bool value => json = .obj [("boolValue", .bool value)]

def EncodesAttribute (json : Json) (key : String) (value : AttributeValue) : Prop :=
  Field json ["key"] (.str key) (.str "") ∧
    ∃ encoded, json.get ["value"] = some encoded ∧ EncodesValue encoded value

def EncodesList (Encodes : Json → A → Prop) (json : Json) (path : List String) (items : List A) :
    Prop :=
  ∃ encoded, Field json path (.arr encoded) (.arr []) ∧ List.Forall₂ Encodes encoded items

/-- The enum `SpanKind`. -/
def kindOrdinal : SpanKind → Int
  | .internal => 1
  | .server => 2
  | .client => 3

structure EncodesSpan (ids : TraceIds) (json : Json) (positioned : Positioned) : Prop where
  traceId : Field json ["traceId"] (.str ids.traceId) (.str "")
  spanId : Field json ["spanId"] (.str (ids.spanId positioned.2)) (.str "")
  parentSpanId : Field json ["parentSpanId"] (.str (ids.parentSpanId positioned.1)) (.str "")
  name : Field json ["name"] (.str positioned.1.name) (.str "")
  kind : json.get ["kind"] = some (.int (kindOrdinal positioned.1.kind))
  startTime : Field json ["startTimeUnixNano"] (.str (toString positioned.1.startNs)) (.str "0")
  endTime : Field json ["endTimeUnixNano"] (.str (toString positioned.1.endNs)) (.str "0")
  attributes : EncodesList (fun json entry => EncodesAttribute json entry.1.name entry.2)
    json ["attributes"] positioned.1.attributes

def EncodesScope (ids : TraceIds) (json : Json) (spans : List Positioned) : Prop :=
  EncodesList (EncodesSpan ids) json ["spans"] spans

structure EncodesResourceSpans (ids : TraceIds) (json : Json) (group : ResourceSpans) : Prop where
  resource : EncodesList (fun json entry => EncodesAttribute json entry.1 entry.2)
    json ["resource", "attributes"] group.resource
  scopeSpans : EncodesList (EncodesScope ids) json ["scopeSpans"] group.scopeSpans

def EncodesMessage (ids : TraceIds) (json : Json) (message : Message) : Prop :=
  EncodesList (EncodesResourceSpans ids) json ["resourceSpans"] message

/-! ### An encoder -/

def encodeValue : AttributeValue → Json
  | .str text => .obj [("stringValue", .str text)]
  | .int value => .obj [("intValue", .str (toString value))]
  | .float value => .obj [("doubleValue", .float value)]
  | .bool value => .obj [("boolValue", .bool value)]

def encodeAttribute (key : String) (value : AttributeValue) : Json :=
  .obj [("key", .str key), ("value", encodeValue value)]

def encodeSpan (ids : TraceIds) (positioned : Positioned) : Json :=
  .obj [
    ("traceId", .str ids.traceId),
    ("spanId", .str (ids.spanId positioned.2)),
    ("parentSpanId", .str (ids.parentSpanId positioned.1)),
    ("name", .str positioned.1.name),
    ("kind", .int (kindOrdinal positioned.1.kind)),
    ("startTimeUnixNano", .str (toString positioned.1.startNs)),
    ("endTimeUnixNano", .str (toString positioned.1.endNs)),
    ("attributes", .arr (positioned.1.attributes.map fun entry =>
      encodeAttribute entry.1.name entry.2)),
    ("status", match positioned.1.error with
      | none => .obj [("code", .int 1)]
      | some text => .obj [("message", .str text), ("code", .int 2)])]

def encodeResourceSpans (ids : TraceIds) (group : ResourceSpans) : Json :=
  .obj [
    ("resource", .obj [("attributes", .arr (group.resource.map fun entry =>
      encodeAttribute entry.1 entry.2))]),
    ("scopeSpans", .arr (group.scopeSpans.map fun spans =>
      .obj [("scope", .obj []), ("spans", .arr (spans.map (encodeSpan ids)))]))]

def encodeMessage (ids : TraceIds) (message : Message) : Json :=
  .obj [("resourceSpans", .arr (message.map (encodeResourceSpans ids)))]

theorem encodesList_map {Encodes : Json → A → Prop} {encode : A → Json} {json : Json}
    {path : List String} {items : List A} (found : json.get path = some (.arr (items.map encode)))
    (each : ∀ item, Encodes (encode item) item) : EncodesList Encodes json path items :=
  ⟨_, .inl found, List.forall₂_map_left_iff.mpr (List.forall₂_same.mpr fun item _ => each item)⟩

theorem encodeAttribute_encodes (key : String) (value : AttributeValue) :
    EncodesAttribute (encodeAttribute key value) key value := by
  refine ⟨.inl rfl, _, rfl, ?_⟩
  cases value with
  | str | int | bool => rfl
  | float => exact ⟨_, rfl⟩

theorem encodeSpan_encodes (ids : TraceIds) (positioned : Positioned) :
    EncodesSpan ids (encodeSpan ids positioned) positioned where
  traceId := .inl rfl
  spanId := .inl rfl
  parentSpanId := .inl rfl
  name := .inl rfl
  kind := rfl
  startTime := .inl rfl
  endTime := .inl rfl
  attributes := encodesList_map rfl fun _ => encodeAttribute_encodes _ _

theorem encodeMessage_encodes (ids : TraceIds) (message : Message) :
    EncodesMessage ids (encodeMessage ids message) message := by
  refine encodesList_map rfl fun group => ⟨?_, ?_⟩
  · exact encodesList_map rfl fun _ => encodeAttribute_encodes _ _
  · exact encodesList_map rfl fun _ => encodesList_map rfl fun _ => encodeSpan_encodes ids _

/-! ### Text -/

def escaped (c : Char) : List Char :=
  if c.toNat = 34 ∨ c.toNat = 92 then [Char.ofNat 92, c]
  else if c.toNat < 32 then
    "\\u00".toList ++ [Nat.digitChar (c.toNat / 16), Nat.digitChar (c.toNat % 16)]
  else [c]

def quoted (text : String) : String := "\"" ++ String.ofList (text.toList.flatMap escaped) ++ "\""

section
variable (number : ℚ → String)

mutual

/-- A value as text, without spaces. -/
def Json.text : Json → String
  | .null => "null"
  | .bool value => if value then "true" else "false"
  | .int value => toString value
  | .float value => number value
  | .str value => quoted value
  | .arr items => "[" ++ ",".intercalate (itemTexts items) ++ "]"
  | .obj fields => "\x7b" ++ ",".intercalate (fieldTexts fields) ++ "\x7d"

def itemTexts : List Json → List String
  | [] => []
  | item :: rest => item.text :: itemTexts rest

def fieldTexts : List (String × Json) → List String
  | [] => []
  | (name, value) :: rest => (quoted name ++ ":" ++ value.text) :: fieldTexts rest

end

end

/-- ClickHouse's functions where the only JSON read is the text of a few values without
floats, and no extraction meets another type than its own. -/
def readingFunctions (documents : List Json) : Functions where
  parse text := documents.find? fun document => document.text (fun _ => "") = text
  stringOfOther _ := ""
  uintOfOther _ := 0
  floatOfOther _ := 0
  boolOfOther _ := false
  floatText _ := ""
  toFloat32OrZero _ := 0
  now := 0

theorem readingFunctions_parse (document : Json) :
    (readingFunctions [document]).parse (document.text fun _ => "") = some document := by
  simp [readingFunctions]

example : (Json.obj [("kind", .int 2), ("spans", .arr [.str "a\nb", .null])]).text (fun _ => "") =
    "\x7b\"kind\":2,\"spans\":[\"a\\u000ab\",null]\x7d" := by
  decide +kernel

end TelemetryEngine.Ingest
