import TelemetryEngine.Ingest.OtlpJson
import TelemetryEngine.Rollup.HourView

/-! What becomes of a block of Kafka messages: the rows of `mv_spans_raw` go into
`spans_raw`, and through the chained views into `spans_1m` and `spans_1h`. The views
raise on no message, but an insert is rejected when its rows fall into too many
partitions, and an aggregation when it has too many groups. -/
namespace TelemetryEngine.Ingest
open Foundation Foundation.Calendar Foundation.MergingTable Cardinality Rollup

/-! ### Dates -/

/-- The first instant that a `DateTime` cannot hold. -/
def dateTimeEnd : Int := 4294967296 * second

def InDateTime (t : Int) : Prop := 0 ≤ t ∧ t < dateTimeEnd

instance (t : Int) : Decidable (InDateTime t) := inferInstanceAs (Decidable (_ ∧ _))

def yyyymmdd (t : Int) : Int := (dateOf t).year * 10000 + (dateOf t).month * 100 + (dateOf t).day

def yyyymm (t : Int) : Int := (dateOf t).year * 100 + (dateOf t).month

/-- The date functions of ClickHouse on a `DateTime64`, whose results are documented
for the times that a `DateTime` can hold. -/
structure DateFunctions where
  /-- The result is a `DateTime`. -/
  toStartOfMinute : Int → Int
  minute_range : ∀ t, InDateTime (toStartOfMinute t)
  minute_eq : ∀ t, InDateTime t → toStartOfMinute t = floorMinute t
  toYYYYMMDD : Int → Int
  date_eq : ∀ t, InDateTime t → toYYYYMMDD t = yyyymmdd t

/-! ### Inserts -/

inductive IngestFailure
  | tooManyPartitions
  | tooManyGroups
  deriving DecidableEq

/-- ClickHouse's default. -/
def maxPartitionsPerInsertBlock : Nat := 100

/-- deploy/clickhouse/users.d/profiles.xml, where `group_by_overflow_mode` is `throw`. -/
def maxRowsToGroupBy : Nat := 5000000

def distinct [DecidableEq A] (values : List A) : Nat := values.dedup.length

def insertBlock (partition : R → Int) (rows : List R) : Except IngestFailure (List R) :=
  if distinct (rows.map partition) ≤ maxPartitionsPerInsertBlock then .ok rows
  else .error .tooManyPartitions

def groupBlock [DecidableEq K] [AddCommMonoid S] (key : R → K) (state : R → S) (rows : List R) :
    Except IngestFailure (Table K S) :=
  if distinct (rows.map key) ≤ maxRowsToGroupBy then .ok (group key state rows)
  else .error .tooManyGroups

/-- The event time of a row as an instant. -/
def DecodedRow.time (row : DecodedRow) : Int := row.ts * 1000

structure Ingested where
  spansRaw : List DecodedRow
  spans1m : Spans1m
  spans1h : Spans1h

section
variable (functions : Functions) (dates : DateFunctions) (dictionary : Allowlist)

/-- What `mv_spans_1m` groups by, for any event time. -/
def minuteKey (row : DecodedRow) : RollupKey :=
  { rollupKey dictionary row.columns with tsMinute := dates.toStartOfMinute row.time }

/-- A block of messages without an `_error`. -/
def ingest (block : List String) : Except IngestFailure Ingested := do
  let spansRaw ← insertBlock (fun row => dates.toYYYYMMDD row.time) (mvSpansRaw functions block)
  let minutes ← groupBlock (minuteKey dates dictionary)
    (fun row => rollupState dictionary row.columns) spansRaw
  let spans1m ← insertBlock (fun entry => dates.toYYYYMMDD entry.1.tsMinute) minutes
  let hours ← groupBlock (fun entry => hourKey entry.1) (fun entry => hourState entry.2) spans1m
  let spans1h ← insertBlock (fun entry => yyyymm entry.1.tsHour) hours
  return ⟨spansRaw, spans1m, spans1h⟩

end

/-! ### What a block holds -/

section
variable (functions : Functions) (dates : DateFunctions) (dictionary : Allowlist)

def messageSpans (raw : Option Json) : List (Json × Json) :=
  (extractArrayRaw raw ["resourceSpans"]).flatMap fun (resource : Json) =>
    (extractArrayRaw resource ["scopeSpans"]).flatMap fun (scope : Json) =>
      (extractArrayRaw scope ["spans"]).map (resource, ·)

def spansIn (block : List String) : List (Json × Json) :=
  block.flatMap fun raw => messageSpans (functions.parse raw)

/-- The instant a span gives as its start, to the millisecond. -/
def startOf (span : Json) : Int :=
  (toInt64OrZero (extractString functions span ["startTimeUnixNano"])).tdiv 1000000 * 1000

/-- The minute of a span, and its attributes as the guard lets them pass. -/
def groupOf (span : Json) : RollupKey :=
  let passed name column := guarded dictionary column (mapGet (spanAttributes functions span) name)
  { tsMinute := dates.toStartOfMinute (startOf functions span)
    tenantId := passed "tenant.id" "tenant_id"
    tenantTier := passed "tenant.tier" "tenant_tier"
    model := passed "gen_ai.request.model" "model"
    operation := passed "gen_ai.operation.name" "operation"
    route := passed "http.route" "route"
    region := passed "cloud.region" "region"
    statusClass := passed "status.class" "status_class" }

/-- The start times that the block gives, and the minutes ClickHouse gives them, fall on no
more days than an insert may have partitions, and the groups are not too many. -/
structure Fits (block : List String) : Prop where
  days : distinct ((spansIn functions block).map fun span =>
    dates.toYYYYMMDD (startOf functions span.2)) ≤ 100
  minuteDays : distinct ((spansIn functions block).map fun span =>
    dates.toYYYYMMDD (dates.toStartOfMinute (startOf functions span.2))) ≤ 100
  groups : distinct ((spansIn functions block).map fun span =>
    groupOf functions dates dictionary span.2) ≤ 5000000

theorem mvSpansRaw_eq (block : List String) : mvSpansRaw functions block =
    (spansIn functions block).map fun span =>
      decodeSpan functions (resourceAttributes functions span.1) span.2 := by
  simp only [mvSpansRaw, decodeMessage, spansIn, messageSpans, List.map_flatMap, List.map_map]
  rfl

/-- What the rows show of a span is what the message says of it. -/
theorem map_mvSpansRaw {A : Type} (ofRow : DecodedRow → A) (ofSpan : Json → A)
    (same : ∀ resource span, ofRow (decodeSpan functions resource span) = ofSpan span)
    (block : List String) : (mvSpansRaw functions block).map ofRow =
      (spansIn functions block).map fun span => ofSpan span.2 := by
  rw [mvSpansRaw_eq, List.map_map]
  exact List.map_congr_left fun span _ => same _ _

end

/-! ### Counting -/

theorem distinct_card [DecidableEq A] (values : List A) : distinct values = values.toFinset.card :=
  (List.card_toFinset values).symm

theorem distinct_le [DecidableEq A] [DecidableEq B] {f : A → B} {xs : List A} {ys : List B}
    (determined : ∀ y ∈ ys, ∃ x ∈ xs, f x = y) : distinct ys ≤ distinct xs := by
  rw [distinct_card, distinct_card]
  have covered : ys.toFinset ⊆ xs.toFinset.image f := by
    intro y member
    obtain ⟨x, inside, same⟩ := determined y (List.mem_toFinset.mp member)
    exact Finset.mem_image.mpr ⟨x, List.mem_toFinset.mpr inside, same⟩
  exact (Finset.card_le_card covered).trans Finset.card_image_le

theorem dayNumber_floorMinute (t : Int) : dayNumber (floorMinute t) = dayNumber t := by
  simp only [dayNumber, floorMinute, floorTo, day, minute]
  omega

theorem dayNumber_floorHour (t : Int) : dayNumber (floorHour t) = dayNumber t := by
  simp only [dayNumber, floorHour, floorTo, day, hour]
  omega

/-- A month is determined by any day of it. -/
theorem yyyymm_floorHour (t : Int) : yyyymm (floorHour t) = yyyymmdd t / 100 := by
  have bounds : (dateOf t).month ≤ 12 ∧ (dateOf t).day ≤ 31 := ofOrdinal_bounds _
  rw [yyyymm, yyyymmdd, dateOf_eq_iff.mpr (dayNumber_floorHour t)]
  omega

theorem yyyymmdd_floorMinute (t : Int) : yyyymmdd (floorMinute t) = yyyymmdd t := by
  simp only [yyyymmdd, dateOf_eq_iff.mpr (dayNumber_floorMinute t)]

theorem floorMinute_range {t : Int} (inside : InDateTime t) : InDateTime (floorMinute t) := by
  obtain ⟨early, late⟩ := inside
  refine ⟨?_, (floorMinute_le t).trans_lt late⟩
  simp only [floorMinute, floorTo, minute]
  omega

/-! ### The insert -/

theorem insertBlock_bind {partition : R → Int} {rows : List R}
    {next : List R → Except IngestFailure B} :
    (∃ written, (insertBlock partition rows >>= next) = .ok written) ↔
      distinct (rows.map partition) ≤ 100 ∧ ∃ written, next rows = .ok written := by
  by_cases few : distinct (rows.map partition) ≤ maxPartitionsPerInsertBlock
  · rw [insertBlock, if_pos few]
    exact (and_iff_right few).symm
  · rw [insertBlock, if_neg few]
    exact iff_of_false (fun ⟨_, done⟩ => nomatch done) fun both => few both.1

theorem groupBlock_bind [DecidableEq K] [AddCommMonoid S] {key : R → K} {state : R → S}
    {rows : List R} {next : Table K S → Except IngestFailure B} :
    (∃ written, (groupBlock key state rows >>= next) = .ok written) ↔
      distinct (rows.map key) ≤ 5000000 ∧ ∃ written, next (group key state rows) = .ok written := by
  by_cases few : distinct (rows.map key) ≤ maxRowsToGroupBy
  · rw [groupBlock, if_pos few]
    exact (and_iff_right few).symm
  · rw [groupBlock, if_neg few]
    exact iff_of_false (fun ⟨_, done⟩ => nomatch done) fun both => few both.1

def minuteRows (functions : Functions) (dates : DateFunctions) (dictionary : Allowlist)
    (block : List String) : Spans1m :=
  group (minuteKey dates dictionary) (fun row => rollupState dictionary row.columns)
    (mvSpansRaw functions block)

variable {functions : Functions} {dates : DateFunctions} {dictionary : Allowlist}
  {block : List String}

theorem minuteRows_key (entry : RollupKey × RollupState)
    (member : entry ∈ minuteRows functions dates dictionary block) :
    ∃ row ∈ mvSpansRaw functions block, minuteKey dates dictionary row = entry.1 :=
  List.mem_map.mp ((keys_group _ _ _ _).mp (List.mem_map_of_mem member))

theorem minuteKey_listed (row : DecodedRow) (member : row ∈ mvSpansRaw functions block) :
    ∃ entry ∈ minuteRows functions dates dictionary block,
      entry.1 = minuteKey dates dictionary row :=
  List.mem_map.mp ((keys_group _ _ _ _).mpr (List.mem_map_of_mem member))

theorem minuteRows_days :
    distinct ((minuteRows functions dates dictionary block).map
        fun entry => dates.toYYYYMMDD entry.1.tsMinute) =
      distinct ((mvSpansRaw functions block).map
        fun row => dates.toYYYYMMDD (dates.toStartOfMinute row.time)) := by
  apply Nat.le_antisymm
  · refine distinct_le (f := id) fun date member => ?_
    obtain ⟨entry, inside, rfl⟩ := List.mem_map.mp member
    obtain ⟨row, decoded, key⟩ := minuteRows_key entry inside
    exact ⟨_, List.mem_map_of_mem decoded, by rw [← key]; rfl⟩
  · refine distinct_le (f := id) fun date member => ?_
    obtain ⟨row, decoded, rfl⟩ := List.mem_map.mp member
    obtain ⟨entry, inside, key⟩ := minuteKey_listed row decoded
    exact ⟨_, List.mem_map_of_mem inside, by rw [key]; rfl⟩

/-- There are no more hours than minutes, with any dimensions. -/
theorem minuteRows_groups :
    distinct ((minuteRows functions dates dictionary block).map fun entry => hourKey entry.1) ≤
      distinct ((mvSpansRaw functions block).map (minuteKey dates dictionary)) := by
  refine distinct_le (f := hourKey) fun key member => ?_
  obtain ⟨entry, inside, rfl⟩ := List.mem_map.mp member
  obtain ⟨row, decoded, same⟩ := minuteRows_key entry inside
  exact ⟨_, List.mem_map_of_mem decoded, by rw [same]⟩

/-- There are no more months than days. -/
theorem hourRows_months :
    distinct ((mvSpans1h (minuteRows functions dates dictionary block)).map
        fun entry => yyyymm entry.1.tsHour) ≤
      distinct ((minuteRows functions dates dictionary block).map
        fun entry => dates.toYYYYMMDD entry.1.tsMinute) := by
  refine distinct_le (f := (· / 100)) fun month member => ?_
  obtain ⟨entry, inside, rfl⟩ := List.mem_map.mp member
  obtain ⟨minuteEntry, listed, same⟩ := List.mem_map.mp
    ((keys_group _ _ _ _).mp (List.mem_map_of_mem inside))
  obtain ⟨row, _, key⟩ := minuteRows_key minuteEntry listed
  have range : InDateTime minuteEntry.1.tsMinute := key ▸ dates.minute_range row.time
  refine ⟨_, List.mem_map_of_mem listed, ?_⟩
  rw [dates.date_eq _ range, ← same, hourKey, yyyymm_floorHour]

theorem completes_iff_fits :
    (∃ written, ingest functions dates dictionary block = .ok written) ↔
      Fits functions dates dictionary block := by
  have days := map_mvSpansRaw functions (fun row => dates.toYYYYMMDD row.time)
    (fun span => dates.toYYYYMMDD (startOf functions span)) (fun _ _ => rfl) block
  have minuteDays := map_mvSpansRaw functions
    (fun row => dates.toYYYYMMDD (dates.toStartOfMinute row.time))
    (fun span => dates.toYYYYMMDD (dates.toStartOfMinute (startOf functions span)))
    (fun _ _ => rfl) block
  have groups := map_mvSpansRaw functions (minuteKey dates dictionary)
    (groupOf functions dates dictionary) (fun _ _ => rfl) block
  rw [ingest, insertBlock_bind, groupBlock_bind, insertBlock_bind, groupBlock_bind,
    insertBlock_bind]
  change _ ∧ _ ∧ distinct ((minuteRows functions dates dictionary block).map _) ≤ 100 ∧
    distinct ((minuteRows functions dates dictionary block).map _) ≤ 5000000 ∧
    distinct ((mvSpans1h (minuteRows functions dates dictionary block)).map _) ≤ 100 ∧ _ ↔ _
  rw [minuteRows_days, days, minuteDays, groups]
  constructor
  · rintro ⟨days, groups, minuteDays, _⟩
    exact ⟨days, minuteDays, groups⟩
  · rintro ⟨few, fewGroups, fewMinutes⟩
    refine ⟨few, fewMinutes, fewGroups, minuteRows_groups.trans (groups ▸ fewMinutes), ?_, _, rfl⟩
    exact hourRows_months.trans (minuteRows_days.trans_le (minuteDays ▸ fewGroups))

/-- Minutes that a `DateTime` holds are of the day of their times. -/
theorem fits_iff_days (range : ∀ span ∈ spansIn functions block,
    InDateTime (startOf functions span.2)) : Fits functions dates dictionary block ↔
      distinct ((spansIn functions block).map fun span => yyyymmdd (startOf functions span.2)) ≤ 100 ∧
      distinct ((spansIn functions block).map fun span =>
        groupOf functions dates dictionary span.2) ≤ 5000000 := by
  have days : ((spansIn functions block).map fun span =>
      dates.toYYYYMMDD (startOf functions span.2)) =
      (spansIn functions block).map fun span => yyyymmdd (startOf functions span.2) :=
    List.map_congr_left fun span member => dates.date_eq _ (range span member)
  have minuteDays : ((spansIn functions block).map fun span =>
      dates.toYYYYMMDD (dates.toStartOfMinute (startOf functions span.2))) =
      (spansIn functions block).map fun span => yyyymmdd (startOf functions span.2) := by
    refine List.map_congr_left fun span member => ?_
    rw [dates.minute_eq _ (range span member),
      dates.date_eq _ (floorMinute_range (range span member)), yyyymmdd_floorMinute]
  constructor
  · exact fun fits => ⟨days ▸ fits.days, fits.groups⟩
  · rintro ⟨few, groups⟩
    exact ⟨days ▸ few, minuteDays ▸ few, groups⟩

/-- A block of messages is ingested exactly when it fits. For start times that a
`DateTime` holds, it fits when they fall on at most 100 days and form at most five
million groups. -/
theorem ingest_completes_iff (functions : Functions) (dates : DateFunctions)
    (dictionary : Allowlist) (block : List String) :
    ((∃ written, ingest functions dates dictionary block = .ok written) ↔
        Fits functions dates dictionary block) ∧
      ((∀ span ∈ spansIn functions block, InDateTime (startOf functions span.2)) →
        (Fits functions dates dictionary block ↔
          distinct ((spansIn functions block).map fun span =>
            yyyymmdd (startOf functions span.2)) ≤ 100 ∧
          distinct ((spansIn functions block).map fun span =>
            groupOf functions dates dictionary span.2) ≤ 5000000)) :=
  ⟨completes_iff_fits, fits_iff_days⟩

/-- Times outside a `DateTime` wrap around. -/
def wrappingDates : DateFunctions where
  toStartOfMinute t := floorMinute (t % dateTimeEnd)
  minute_range t := floorMinute_range
    ⟨Int.emod_nonneg t (by decide), Int.emod_lt_of_pos t (by decide)⟩
  minute_eq t inside := by rw [Int.emod_eq_of_lt inside.1 inside.2]
  toYYYYMMDD := yyyymmdd
  date_eq _ _ := rfl

def bareMessage (spans : List Json) : Json :=
  .obj [("resourceSpans", .arr [.obj [("scopeSpans", .arr [.obj [("spans", .arr spans)]])]])]

theorem decodeMessage_bare (spans : List Json) :
    decodeMessage functions (bareMessage spans) = spans.map (decodeSpan functions []) := by
  change (spans.map (decodeSpan functions []) ++ []) ++ [] = _
  rw [List.append_nil, List.append_nil]

def bareSpan (startNs : Nat) : Json := .obj [("startTimeUnixNano", .str (toString startNs))]

theorem decodeSpan_bare {startNs : Nat} (small : startNs < 2 ^ 63) :
    (decodeSpan functions [] (bareSpan startNs)).time = (startNs / 1000000 : Nat) * 1000 := by
  have start : extractString functions (bareSpan startNs) ["startTimeUnixNano"] =
      toString startNs := rfl
  rw [DecodedRow.time, decodeSpan, start, toInt64OrZero_toString small]
  rfl

def dailySpans (days : Nat) : Json :=
  bareMessage ((List.range days).map fun k => bareSpan (1700000000000000000 + k * 86400000000000))

theorem dailySpans_times {days : Nat} (few : days ≤ 1000) :
    (decodeMessage functions (dailySpans days)).map DecodedRow.time =
      (List.range days).map fun (k : Nat) => 1700000000000000 + (k : Int) * day := by
  rw [dailySpans, decodeMessage_bare, List.map_map, List.map_map]
  refine List.map_congr_left fun k member => ?_
  have early := List.mem_range.mp member
  rw [Function.comp_apply, Function.comp_apply, decodeSpan_bare (by omega)]
  simp only [day]
  push_cast
  omega

theorem mvSpansRaw_reading (document : Json) :
    mvSpansRaw (readingFunctions [document]) [document.text fun _ => ""] =
      decodeMessage (readingFunctions [document]) document := by
  rw [mvSpansRaw, List.flatMap_cons, List.flatMap_nil, List.append_nil, readingFunctions_parse]

theorem spansIn_reading (document : Json) :
    spansIn (readingFunctions [document]) [document.text fun _ => ""] = messageSpans document := by
  rw [spansIn, List.flatMap_cons, List.flatMap_nil, List.append_nil, readingFunctions_parse]

theorem ingest_completes_week :
    ∃ written, ingest (readingFunctions [dailySpans 7]) wrappingDates ∅
      [(dailySpans 7).text fun _ => ""] = .ok written := by
  obtain ⟨completes, fits⟩ := ingest_completes_iff (readingFunctions [dailySpans 7]) wrappingDates ∅
    [(dailySpans 7).text fun _ => ""]
  rw [spansIn_reading] at fits
  exact completes.mpr ((fits (by decide +kernel)).mpr ⟨by decide +kernel, by decide +kernel⟩)

/-- One message of 101 spans, each a day after the one before. -/
theorem ingest_halts :
    ¬ ∃ written, ingest (readingFunctions [dailySpans 101]) wrappingDates ∅
      [(dailySpans 101).text fun _ => ""] = .ok written := by
  intro completes
  rw [ingest, insertBlock_bind, mvSpansRaw_reading] at completes
  have days : (decodeMessage (readingFunctions [dailySpans 101]) (dailySpans 101)).map
      (fun row => wrappingDates.toYYYYMMDD row.time) =
      (List.range 101).map fun (k : Nat) => yyyymmdd (1700000000000000 + (k : Int) * day) := by
    change List.map (yyyymmdd ∘ DecodedRow.time) _ = _
    rw [← List.map_map, dailySpans_times (by decide), List.map_map]
    rfl
  rw [days] at completes
  exact absurd completes.1 (by decide +kernel)

end TelemetryEngine.Ingest
