import TelemetryEngine.Foundation.BinaryFloat
import TelemetryEngine.Foundation.Decimal
import TelemetryEngine.HotTier.SpansRaw

/-! The view `mv_spans_raw`, which flattens OTLP JSON messages into rows. A JSON
text that `JSONExtractRaw` or `JSONExtractArrayRaw` cuts out of a message stands
here for the value that it is read as again. Durations are exact here; the table keeps
`storedDurationMs` of them. -/
namespace TelemetryEngine.Ingest
open Foundation

/-! ### JSON -/

inductive Json
  | null
  | bool (value : Bool)
  | int (value : Int)
  | float (value : ℚ)
  | str (value : String)
  | arr (items : List Json)
  | obj (fields : List (String × Json))

/-- The value at a path of keys; of equal keys the first counts. -/
def Json.get : Json → List String → Option Json
  | json, [] => some json
  | .obj fields, key :: path => (fields.lookup key).bind (Json.get · path)
  | _, _ :: _ => none

/-- The functions of ClickHouse that the view calls and the source leaves to it:
the JSON parser, what an extraction returns for a value of another type, and floats
as text. All of them are total. -/
structure Functions where
  /-- `none` for a text that is not JSON. -/
  parse : String → Option Json
  stringOfOther : Json → String
  uintOfOther : Json → UInt64
  floatOfOther : Json → ℚ
  boolOfOther : Json → Bool
  floatText : ℚ → String
  toFloat32OrZero : String → ℚ
  now : Nat

section
variable (functions : Functions)

def extractString (json : Option Json) (path : List String) : String :=
  match json.bind (·.get path) with
  | none => ""
  | some (.str value) => value
  | some other => functions.stringOfOther other

def extractUInt (json : Option Json) (path : List String) : UInt64 :=
  match json.bind (·.get path) with
  | none => 0
  | some (.int value) =>
    if 0 ≤ value ∧ value < 2 ^ 64 then UInt64.ofNat value.toNat
    else functions.uintOfOther (.int value)
  | some other => functions.uintOfOther other

def extractFloat (json : Option Json) (path : List String) : ℚ :=
  match json.bind (·.get path) with
  | none => 0
  | some (.float value) => value
  | some (.int value) => value
  | some other => functions.floatOfOther other

def extractBool (json : Option Json) (path : List String) : Bool :=
  match json.bind (·.get path) with
  | none => false
  | some (.bool value) => value
  | some other => functions.boolOfOther other

def extractArrayRaw (json : Option Json) (path : List String) : List Json :=
  match json.bind (·.get path) with
  | some (.arr items) => items
  | _ => []

def extractRaw (json : Option Json) (path : List String) : Option Json := json.bind (·.get path)

def hasPath (json : Option Json) (path : List String) : Bool := (json.bind (·.get path)).isSome

/-! ### Conversions -/

/-- Zero also for a number that the type does not hold. -/
def toInt64OrZero (text : String) : Int :=
  let number := (Decimal.parseInt text.toList).getD 0
  if -2 ^ 63 ≤ number ∧ number < 2 ^ 63 then number else 0

theorem toInt64OrZero_toString {n : Nat} (small : n < 2 ^ 63) : toInt64OrZero (toString n) = n := by
  rw [toInt64OrZero, Decimal.parseInt_toString, Option.getD_some]
  exact if_pos ⟨by omega, by omega⟩

def toUInt32OrZero (text : String) : UInt32 :=
  let number := (Decimal.parseUnsigned text.toList).getD 0
  if number < 2 ^ 32 then UInt32.ofNat number else 0

def toUInt16OrZero (text : String) : UInt16 :=
  let number := (Decimal.parseUnsigned text.toList).getD 0
  if number < 2 ^ 16 then UInt16.ofNat number else 0

/-- `m[key]`, of equal keys the first. -/
def mapGet (entries : List (String × String)) (key : String) : String :=
  (entries.lookup key).getD ""

/-! ### The view -/

/-- A row of `spans_raw` as the view writes it. Its time may lie before the epoch;
the other columns are those of `columns`. -/
structure DecodedRow where
  /-- `DateTime64(3)`: milliseconds. -/
  ts : Int
  columns : SpanRow
  attributes : List (String × String)
  ingestedAt : Nat

/-- The text of an attribute, whatever its type. -/
def attributeText (entry : Json) : String :=
  if hasPath entry ["value", "stringValue"] then
    extractString functions entry ["value", "stringValue"]
  else if hasPath entry ["value", "intValue"] then
    extractString functions entry ["value", "intValue"]
  else if hasPath entry ["value", "doubleValue"] then
    functions.floatText (extractFloat functions entry ["value", "doubleValue"])
  else if hasPath entry ["value", "boolValue"] then
    if extractBool functions entry ["value", "boolValue"] then "true" else "false"
  else ""

def spanAttributes (span : Json) : List (String × String) :=
  (extractArrayRaw span ["attributes"]).map fun (a : Json) =>
    (extractString functions a ["key"], attributeText functions a)

def resourceAttributes (resourceSpan : Json) : List (String × String) :=
  (extractArrayRaw (extractRaw resourceSpan ["resource"]) ["attributes"]).map fun (a : Json) =>
    (extractString functions a ["key"], extractString functions a ["value", "stringValue"])

def kindName (ordinal : UInt64) : String :=
  if ordinal = 1 then "internal"
  else if ordinal = 2 then "server"
  else if ordinal = 3 then "client"
  else if ordinal = 4 then "producer"
  else if ordinal = 5 then "consumer"
  else "unspecified"

def decodeSpan (resource : List (String × String)) (span : Json) : DecodedRow :=
  let startNs := toInt64OrZero (extractString functions span ["startTimeUnixNano"])
  let endNs := toInt64OrZero (extractString functions span ["endTimeUnixNano"])
  let attrs := spanAttributes functions span
  -- `fromUnixTimestamp64Nano`, cut to three digits towards zero.
  let ts := startNs.tdiv 1000000
  { ts
    columns := {
      ts := ts.toNat
      traceId := extractString functions span ["traceId"]
      spanId := extractString functions span ["spanId"]
      parentSpanId := extractString functions span ["parentSpanId"]
      spanName := extractString functions span ["name"]
      spanKind := kindName (extractUInt functions span ["kind"])
      durationMs := ((endNs - startNs).bmod (2 ^ 64) : Int) / 1000000
      tenantId := mapGet attrs "tenant.id"
      tenantTier := mapGet attrs "tenant.tier"
      model := mapGet attrs "gen_ai.request.model"
      operation := mapGet attrs "gen_ai.operation.name"
      route := mapGet attrs "http.route"
      region := mapGet attrs "cloud.region"
      statusClass := mapGet attrs "status.class"
      serviceName := mapGet resource "service.name"
      inputTokens := toUInt32OrZero (mapGet attrs "gen_ai.usage.input_tokens")
      outputTokens := toUInt32OrZero (mapGet attrs "gen_ai.usage.output_tokens")
      cachedPromptTokens := toUInt32OrZero (mapGet attrs "llm.cached_prompt_tokens")
      kvCacheUtilization := functions.toFloat32OrZero (mapGet attrs "llm.kv_cache.utilization")
      ttftMs := functions.toFloat32OrZero (mapGet attrs "llm.time_to_first_token_ms")
      itlMs := functions.toFloat32OrZero (mapGet attrs "llm.inter_token_latency_ms")
      queueTimeMs := functions.toFloat32OrZero (mapGet attrs "llm.queue_time_ms")
      batchSize := toUInt16OrZero (mapGet attrs "llm.batch_size")
      requestId := mapGet attrs "request.id"
      errorType := mapGet attrs "error.type" }
    attributes := attrs
    ingestedAt := functions.now }

/-- The rows of one resource: three nested `arrayJoin`s over the message. -/
def decodeResource (resourceSpan : Json) : List DecodedRow :=
  (extractArrayRaw resourceSpan ["scopeSpans"]).flatMap fun (scope : Json) =>
    (extractArrayRaw scope ["spans"]).map
      (decodeSpan functions (resourceAttributes functions resourceSpan))

def decodeMessage (raw : Option Json) : List DecodedRow :=
  (extractArrayRaw raw ["resourceSpans"]).flatMap (decodeResource functions)

/-- The rows the view writes for a block of messages without an `_error`. -/
def mvSpansRaw (block : List String) : List DecodedRow :=
  block.flatMap fun raw => decodeMessage functions (functions.parse raw)

end

/-! ### Durations as they are stored -/

open BinaryFloat BinaryFloat.Format

/-- `duration_ms` in the table: nanoseconds divided as `Float64`, in a `Float32`. -/
def storedDurationMs (row : SpanRow) : ℚ :=
  binary32.round (binary64.round (binary64.round (row.durationMs * 1000000) / 1000000))

/-- Of whole nanoseconds the error is relative. -/
theorem storedDurationMs_close {row : SpanRow} {ns : ℤ} (whole : row.durationMs = ns / 1000000) :
    |storedDurationMs row - row.durationMs| ≤ |row.durationMs| / 2 ^ 23 := by
  have scaled : row.durationMs * 1000000 = ns := by
    rw [whole]
    ring
  rw [storedDurationMs, scaled, whole]
  rcases eq_or_ne ns 0 with rfl | nonzero
  · simp [round_zero]
  have one : (1 : ℚ) ≤ |(ns : ℚ)| := by exact_mod_cast Int.one_le_abs nonzero
  have exponent : 2 ^ (binary64.least + (binary64.precision - 1)) ≤ |(ns : ℚ)| :=
    one.trans' (by decide +kernel)
  have first : |binary64.round ns - ns| ≤ |(ns : ℚ)| / 2 ^ 53 := round_normal exponent
  obtain ⟨counts, more⟩ : |(ns : ℚ)| - |(ns : ℚ)| / 2 ^ 53 ≤ |binary64.round ns| ∧
      |binary64.round ns| ≤ |(ns : ℚ)| + |(ns : ℚ)| / 2 ^ 53 := abs_round_bounds exponent
  generalize binary64.round (ns : ℚ) = counted at first counts more ⊢
  have milliseconds : |counted / 1000000| = |counted| / 1000000 := by
    rw [abs_div, abs_of_pos (by norm_num : (0 : ℚ) < 1000000)]
  have exponent : 2 ^ (binary64.least + (binary64.precision - 1)) ≤ |counted / 1000000| := by
    refine le_trans (b := 1 / 2 / 1000000) (by decide +kernel) ?_
    rw [milliseconds]
    linarith
  have second : |binary64.round (counted / 1000000) - counted / 1000000| ≤
      |counted / 1000000| / 2 ^ 53 := round_normal exponent
  obtain ⟨divides, most⟩ : |counted / 1000000| - |counted / 1000000| / 2 ^ 53 ≤
      |binary64.round (counted / 1000000)| ∧ |binary64.round (counted / 1000000)| ≤
        |counted / 1000000| + |counted / 1000000| / 2 ^ 53 := abs_round_bounds exponent
  rw [milliseconds] at second divides most
  generalize binary64.round (counted / 1000000) = divided at second divides most ⊢
  have third : |binary32.round divided - divided| ≤ |divided| / 2 ^ 24 :=
    round_normal (le_trans (b := 1 / 2 / 1000000 / 2) (by decide +kernel) (by linarith))
  have moved : |counted / 1000000 - ns / 1000000| ≤ |(ns : ℚ)| / 1000000 / 2 ^ 53 := by
    rw [← sub_div, abs_div, abs_of_pos (by norm_num : (0 : ℚ) < 1000000)]
    linarith
  rw [abs_div, abs_of_pos (by norm_num : (0 : ℚ) < 1000000)]
  calc |binary32.round divided - ns / 1000000|
      ≤ |binary32.round divided - divided| + |divided - counted / 1000000| +
          |counted / 1000000 - ns / 1000000| := by
        have first := abs_sub_le (binary32.round divided) divided (ns / 1000000 : ℚ)
        have second := abs_sub_le divided (counted / 1000000) (ns / 1000000 : ℚ)
        linarith
    _ ≤ |(ns : ℚ)| / 1000000 / 2 ^ 23 := by linarith

end TelemetryEngine.Ingest
