import TelemetryEngine.Foundation.OrderStatistics
import TelemetryEngine.Foundation.StampOrder
import TelemetryEngine.ColdTier.DailyVolume

/-! What the lake says of the past. Calls that move the watermark onwards add files beside
those that are there, all for later times; so a canned query of `coldtier/query.py` answers
the same for a day that the watermark has left, whatever comes in, expires or is exported
afterwards. -/
namespace TelemetryEngine.ColdTier
open Foundation Foundation.Calendar Foundation.Grouping Foundation.OrderStatistics

structure ModelLatency where
  dt : String
  hour : ℕ
  model : String
  spans : ℕ
  ttftP95 : ℚ
  deriving DecidableEq

/-- `toHour(ts)` -/
def SpanRow.hourOfDay (row : SpanRow) : ℕ := secondOfDay row.time / 3600

abbrev LatencyKey := String ×ₗ ℕ ×ₗ String

def latencyKey (entry : String × SpanRow) : LatencyKey :=
  toLex (entry.1, toLex (SpanRow.hourOfDay entry.2, entry.2.model))

/-- `ORDER BY dt, hour, ttft_p95 DESC` -/
def ModelLatency.Precedes (first second : ModelLatency) : Prop :=
  first.dt < second.dt ∨ first.dt = second.dt ∧ (first.hour < second.hour ∨
    first.hour = second.hour ∧ second.ttftP95 ≤ first.ttftP95)

instance : DecidableRel ModelLatency.Precedes := fun first second =>
  inferInstanceAs (Decidable (first.dt < second.dt ∨ first.dt = second.dt ∧
    (first.hour < second.hour ∨ first.hour = second.hour ∧ second.ttftP95 ≤ first.ttftP95)))

section
variable (tenths : ℚ → ℚ)

/-- `tenths` stands for `round(value, 1)` in doubles. -/
def latencyOf (entries : List (String × SpanRow)) : ℕ × ℚ :=
  (entries.length, tenths (interpolated (95 / 100) (entries.map (·.2.ttftMs))))

def ModelLatency.of (entry : LatencyKey × (ℕ × ℚ)) : ModelLatency :=
  ⟨(ofLex entry.1).1, (ofLex (ofLex entry.1).2).1, (ofLex (ofLex entry.1).2).2, entry.2.1,
    entry.2.2⟩

def latencyLines (hive : List (String × SpanRow)) : List ModelLatency :=
  ((grouped latencyKey (latencyOf tenths) (hive.filter (·.2.operation = "chat"))).map
    ModelLatency.of).insertionSort ModelLatency.Precedes

/-- `MODEL_LATENCY_BY_HOUR`. Models of one hour that are equally slow come in any order. -/
def modelLatencyByHour (files : AList fun _ : Path => LakeFile) :
    Except QueryError (List ModelLatency) :=
  overHive (latencyLines tenths) files

end

/-- A line of an answer. -/
def Answers (answer : Except QueryError (List A)) (line : A) : Prop :=
  ∃ lines, answer = .ok lines ∧ line ∈ lines

/-! ### Files stay -/

/-- Every file of the first lake is in the second. -/
def Keeps (before after : Path → Option LakeFile) : Prop :=
  ∀ path file, before path = some file → after path = some file

theorem Keeps.update {lake : Path → Option LakeFile} {path : Path} (absent : lake path = none)
    (file : LakeFile) : Keeps lake (Function.update lake path (some file)) := by
  intro other held found
  have elsewhere : other ≠ path := by
    rintro rfl
    rw [absent] at found
    contradiction
  rwa [Function.update_of_ne elsewhere]

theorem Settled.loop_keeps {view : View} {start upTo stop : Int}
    (settled : Settled view start upTo) (point : LoopPoint answers quiet windows moves)
    (tiles : Tiling.Tiles ExportWindow.start ExportWindow.end_ windows upTo stop)
    (whole : ∀ window ∈ windows, window.end_ % second = 0)
    (today : ∀ window ∈ windows, window.WithinDay) :
    Keeps view.lake (view.run moves).lake := by
  induction point generalizing view upTo with
  | stop => exact fun _ _ held => held
  | @unsettled window _ _ commits =>
    exact .update (settled.covers.absent tiles.1 (whole window (by simp))) _
  | @cons window first _ rest moves moved _ ih =>
    obtain ⟨next, _, tiles⟩ := tiles
    have wholeEnd := whole window (by simp)
    have own : Keeps view.lake (view.run first).lake := by
      rcases moved.lake view with ⟨_, same⟩ | ⟨_, published⟩
      · rw [same]
        exact fun _ _ held => held
      · rw [published]
        exact .update (settled.covers.absent next wholeEnd) _
    rw [View.run_append]
    intro path file held
    exact ih (settled.pass moved next wholeEnd (today window (by simp))) tiles
      (fun window member => whole window (by simp [member]))
      (fun window member => today window (by simp [member])) path file (own path file held)

/-! ### Rows stay -/

/-- What is behind one watermark is behind the other. -/
def Behind (early late : World) : Prop := ∀ row, early.behind row = true → late.behind row = true

theorem Accounted.behind_call {server : Server} {world : World} {call : ExportCall}
    (accounted : Accounted world.tier.view) (exporting : Exporting server world call) :
    Behind world (world.step (.call call)) := by
  intro row passed
  rcases accounted.loops exporting with same | ⟨_, _, _, moves, _, _, _, point, seen⟩
  · have read : (world.tier.step call).readWatermark = world.tier.readWatermark :=
      congrArg (·.watermarks.max?) same
    rwa [World.behind, World.step, read]
  · obtain ⟨fresh, added, _⟩ := point.watermarks world.tier.view
    rw [← seen] at added
    obtain ⟨watermark, newest, below⟩ : ∃ watermark, world.tier.readWatermark = some watermark ∧
        row.time < watermark := by
      unfold World.behind at passed
      cases read : world.tier.readWatermark with
      | none => simp [read] at passed
      | some watermark => exact ⟨watermark, rfl, by simpa [read] using passed⟩
    have marked : watermark ∈ (world.tier.step call).view.watermarks :=
      added ▸ List.mem_append_right _ (List.max?_mem newest)
    obtain ⟨later, read⟩ : ∃ later, (world.tier.step call).view.watermarks.max? = some later :=
      Option.isSome_iff_exists.mp (List.isSome_max?_of_mem marked)
    have above := (List.max?_eq_some_iff.mp read).2 watermark marked
    have found : (world.tier.step call).readWatermark = some later := read
    simp only [World.behind, World.step, found, decide_eq_true_eq]
    omega

/-- Of the rows behind an earlier watermark the lake has the same as before. -/
theorem Accounted.settled_step {server : Server} {early world : World} {event : Event}
    (accounted : Accounted world.tier.view) (admitted : event.Admitted server world)
    (past : Behind early world) :
    Keeps world.lake (world.step event).lake ∧ Behind early (world.step event) ∧
      ((world.step event).tier.view.rows.filter early.behind).Perm
        (world.tier.view.rows.filter early.behind) := by
  cases event with
  | append | expire => exact ⟨fun _ _ held => held, past, .refl _⟩
  | call made =>
    have onward : Behind early (world.step (.call made)) := fun row passed =>
      accounted.behind_call admitted row (past row passed)
    have none_waits {later : World} (past : Behind early later) :
        later.pending.filter early.behind = [] := by
      refine List.filter_eq_nil_iff.mpr fun row member passed => ?_
      have ahead := (List.mem_filter.mp member).2
      rw [past row passed] at ahead
      contradiction
    refine ⟨?_, onward, ?_⟩
    · rcases accounted.loops admitted with same | ⟨_, _, _, _, begins, _, plan, point, seen⟩
      · exact fun _ _ held => (congrFun (congrArg View.lake same) _).trans held
      · rw [World.lake, World.lake, World.step, seen]
        exact begins.settled.loop_keeps point plan.tiles (admitted.onward.planned_whole plan)
          plan.within_day
    · have balance := (accounted.call admitted).2.filter early.behind
      rw [List.filter_append, List.filter_append, none_waits onward, none_waits past,
        List.append_nil, List.append_nil] at balance
      exact balance

theorem Accounted.settled_steps {server : Server} {early world : World} {events : List Event}
    (accounted : Accounted world.tier.view)
    (admitted : Meets World.step (fun world event => event.Admitted server world) world events)
    (past : Behind early world) :
    Keeps world.lake (world.steps events).lake ∧
      ((world.steps events).tier.view.rows.filter early.behind).Perm
        (world.tier.view.rows.filter early.behind) := by
  induction events generalizing world with
  | nil => exact ⟨fun _ _ held => held, .refl _⟩
  | cons event rest ih =>
    obtain ⟨own, later⟩ := admitted
    obtain ⟨kept, past, same⟩ := accounted.settled_step own past
    obtain ⟨keeps, settled⟩ := ih (accounted.step own).1 later past
    exact ⟨fun path file held => keeps path file (kept path file held), settled.trans same⟩

theorem Accounted.inRange {view : View} (accounted : Accounted view) :
    (∀ row ∈ view.rows, InRange row.time) ∧
      ∀ watermark, view.watermarks.max? = some watermark → InRange watermark := by
  rcases accounted with rfl | ⟨start, watermark, covered⟩
  · simp [View.initial, View.rows]
  · refine ⟨fun row member => ?_, fun newest read => ?_⟩
    · have below := covered.behind row member
      have epoch := row.time_nonneg
      have last := covered.datetime
      simp only [InRange, dayNumber, minOrdinal, maxOrdinal, epochOrdinal, day] at *
      omega
    · rw [covered.newest] at read
      exact Option.some.inj read ▸ covered.datetime

theorem time_lt_of_day_lt {row : SpanRow} {t : Int} (inside : InRange row.time) (last : InRange t)
    (earlier : SpanRow.day row < String.ofList (dateOf t).isoFormat) : row.time < t := by
  rw [String.lt_iff_toList_lt, SpanRow.day, String.toList_ofList, String.toList_ofList,
    Date.isoFormat_lt_iff (dateOf_valid inside) (dateOf_valid last), toOrdinal_dateOf,
    toOrdinal_dateOf] at earlier
  simp only [dayNumber, day] at earlier
  omega

/-- Nothing that follows a history changes a file, or a row behind its watermark. -/
theorem lake_stays {server : Server} {past future : List Event}
    (admitted : Meets World.step (fun world event => event.Admitted server world) .initial
      (past ++ future)) :
    let before := World.initial.steps past
    let after := World.initial.steps (past ++ future)
    Keeps before.lake after.lake ∧
      (after.tier.lakeRows.filter before.behind).Perm before.tier.lakeRows := by
  intro before after
  obtain ⟨early, later⟩ := meets_append.mp admitted
  have accounted := (accounted_run early).1
  have read := (accounted.openLake (World.full past)).2
  have read' := ((accounted_run admitted).1.openLake (World.full (past ++ future))).2
  have steps : after = before.steps future := List.foldl_append
  obtain ⟨keeps, settled⟩ : Keeps before.lake after.lake ∧
      (after.tier.view.rows.filter before.behind).Perm (before.tier.view.rows.filter before.behind) :=
    steps ▸ accounted.settled_steps later fun _ passed => passed
  rw [List.filter_eq_self.mpr accounted.behind] at settled
  exact ⟨keeps, (read'.filter _).trans (settled.trans read.symm)⟩

theorem day_stays {server : Server} {past future : List Event} {watermark : Int} {dt : String}
    (admitted : Meets World.step (fun world event => event.Admitted server world) .initial
      (past ++ future))
    (newest : (World.initial.steps past).tier.readWatermark = some watermark)
    (earlier : dt < String.ofList (dateOf watermark).isoFormat) :
    ((World.initial.steps (past ++ future)).tier.lakeRows.filter fun row => SpanRow.day row = dt).Perm
      ((World.initial.steps past).tier.lakeRows.filter fun row => SpanRow.day row = dt) := by
  have accounted := (accounted_run (meets_append.mp admitted).1).1
  have accounted' := (accounted_run admitted).1
  have read' := (accounted'.openLake (World.full (past ++ future))).2
  have closed : ∀ row ∈ (World.initial.steps (past ++ future)).tier.lakeRows,
      decide (SpanRow.day row = dt) = true → (World.initial.steps past).behind row = true := by
    intro row member today
    have here : SpanRow.day row = dt := of_decide_eq_true today
    have time := time_lt_of_day_lt (accounted'.inRange.1 row (read'.mem_iff.mp member))
      (accounted.inRange.2 watermark newest) (here ▸ earlier)
    simpa [World.behind, newest] using time
  rw [filter_among closed]
  exact (lake_stays admitted).2.filter _

/-! ### Answers stay -/

/-- A query that finds nothing in no rows answers from the rows alone. -/
theorem Accounted.answers {tier : Tier} (accounted : Accounted tier.view)
    (full : ∀ path file, tier.view.lake path = some file → file.rows ≠ [])
    (dated : DatedRows tier.view.lake) {answer : List (String × SpanRow) → List A}
    (nothing : answer [] = []) (line : A) : Answers (ColdTier.overHive answer tier.files) line ↔
      line ∈ answer (tier.lakeRows.map fun row => (SpanRow.day row, row)) := by
  rw [Answers, accounted.overHive full dated]
  split
  case isTrue none => simp [none, nothing]
  case isFalse => simp

section
variable {hive more : List (String × SpanRow)} {dt : String}

theorem volumes_congr (millions : ℕ → ℚ)
    (same : (hive.filter (·.1 = dt)).Perm (more.filter (·.1 = dt))) (volume : DailyVolume) :
    let volumes := grouped Prod.fst fun rows => DailyVolume.of millions (rows.map Prod.snd)
    (dt, volume) ∈ volumes hive ↔ (dt, volume) ∈ volumes more := by
  refine mem_grouped_congr (fun xs ys perm => ?_) same fun entry here => decide_eq_true here
  have rows := perm.map Prod.snd
  rw [DailyVolume.of, DailyVolume.of, rows.length_eq, (rows.map _).sum_eq]

theorem mem_latencyLines {tenths : ℚ → ℚ} {line : ModelLatency} :
    line ∈ latencyLines tenths hive ↔
      ((toLex (line.dt, toLex (line.hour, line.model)) : LatencyKey), line.spans, line.ttftP95) ∈
        grouped latencyKey (latencyOf tenths) (hive.filter (·.2.operation = "chat")) := by
  rw [latencyLines, List.mem_insertionSort, List.mem_map]
  constructor
  · rintro ⟨entry, member, rfl⟩
    exact member
  · exact fun member => ⟨_, member, rfl⟩

theorem latencyLines_congr (tenths : ℚ → ℚ)
    (same : (hive.filter (·.1 = dt)).Perm (more.filter (·.1 = dt))) {line : ModelLatency}
    (today : line.dt = dt) : line ∈ latencyLines tenths hive ↔ line ∈ latencyLines tenths more := by
  rw [mem_latencyLines, mem_latencyLines]
  have chats : ((hive.filter (·.2.operation = "chat")).filter (·.1 = dt)).Perm
      ((more.filter (·.2.operation = "chat")).filter (·.1 = dt)) := by
    rw [List.filter_comm _ _ hive, List.filter_comm _ _ more]
    exact same.filter _
  refine mem_grouped_congr (fun xs ys perm => ?_) chats fun entry here => ?_
  · rw [latencyOf, latencyOf, perm.length_eq, interpolated_perm (perm.map _)]
  · have dated : entry.1 = line.dt := congrArg (fun key => (ofLex key).1) here
    exact decide_eq_true (dated.trans today)

end

/-- After any history, nothing that follows changes a file of the lake or takes a row out of
it, and each row that is added is one the watermark had not passed. Of the days before the
watermark's, a query reads the same rows, and the canned queries give the same lines. -/
theorem past_is_final (millions : ℕ → ℚ) (tenths : ℚ → ℚ) (server : Server)
    {past future : List Event}
    (admitted : Meets World.step (fun world event => event.Admitted server world) .initial
      (past ++ future)) :
    let before := World.initial.steps past
    let after := World.initial.steps (past ++ future)
    Keeps before.lake after.lake ∧
      (∃ fresh, after.tier.lakeRows.Perm (before.tier.lakeRows ++ fresh) ∧
        ∀ row ∈ fresh, before.behind row = false) ∧
      ∀ watermark, before.tier.readWatermark = some watermark →
        ∀ dt < String.ofList (dateOf watermark).isoFormat,
          (prunedRows after.tier.files (· = dt)).Perm (prunedRows before.tier.files (· = dt)) ∧
          (∀ volume, Answers (dailyVolume millions after.tier.files) (dt, volume) ↔
            Answers (dailyVolume millions before.tier.files) (dt, volume)) ∧
          ∀ line : ModelLatency, line.dt = dt →
            (Answers (modelLatencyByHour tenths after.tier.files) line ↔
              Answers (modelLatencyByHour tenths before.tier.files) line) := by
  intro before after
  obtain ⟨keeps, stays⟩ := lake_stays admitted
  have early := (meets_append.mp admitted).1
  have accounted := (accounted_run early).1
  have accounted' := (accounted_run admitted).1
  have dated : DatedRows before.tier.view.lake := DatedRows.run early
  have dated' : DatedRows after.tier.view.lake := DatedRows.run admitted
  refine ⟨keeps, ⟨after.tier.lakeRows.filter fun row => !before.behind row, ?_, ?_⟩, ?_⟩
  · exact (List.filter_append_perm before.behind _).symm.trans (stays.append_right _)
  · intro row member
    simpa using (List.mem_filter.mp member).2
  intro watermark newest dt earlier
  have same := day_stays admitted newest earlier
  have hive : ((after.tier.lakeRows.map fun row => (SpanRow.day row, row)).filter (·.1 = dt)).Perm
      ((before.tier.lakeRows.map fun row => (SpanRow.day row, row)).filter (·.1 = dt)) := by
    simp only [List.filter_map, Function.comp_def]
    exact same.map fun row => (SpanRow.day row, row)
  refine ⟨?_, fun volume => ?_, fun line today => ?_⟩
  · rw [dated'.pruned, dated.pruned]
    exact same
  · rw [dailyVolume_eq, dailyVolume_eq, accounted'.answers (World.full _) dated' rfl,
      accounted.answers (World.full _) dated rfl]
    exact volumes_congr millions hive volume
  · rw [modelLatencyByHour, modelLatencyByHour, accounted'.answers (World.full _) dated' rfl,
      accounted.answers (World.full _) dated rfl]
    exact latencyLines_congr tenths hive today

/-- A row of the last minute of a day, exported ten minutes later. -/
def eveningRow : SpanRow := { ts := 86340000, operation := "chat", model := "m", ttftMs := 30 }

def eveningPast : List Event :=
  [.append [eveningRow],
    .call { now := day + 15 * minute, oldest := .ok (Server.deployed.minTs [eveningRow]),
            answers := Server.deployed.answers [eveningRow] }]

/-- Another row of that minute comes too late, and one of the next day is exported. -/
def eveningFuture : List Event :=
  let hot := [eveningRow, { eveningRow with ttftMs := 90 }, { ts := 87600000, operation := "chat" }]
  [.append hot.tail,
    .call { now := day + hour, oldest := .ok (Server.deployed.minTs hot),
            answers := Server.deployed.answers hot }]

theorem evening_admitted :
    Meets World.step (fun world event => event.Admitted .deployed world) .initial
      (eveningPast ++ eveningFuture) :=
  ⟨trivial,
    { onward := ⟨rfl, by decide, by decide⟩
      clock := by decide
      margin := by decide
      unbroken := by decide +kernel
      truthful := fun window => answers_truthful _ _ window
      oldest := by rintro _ ⟨⟩; rfl },
    trivial,
    { onward := ⟨rfl, by decide, by decide⟩
      clock := by decide
      margin := by decide
      unbroken := by decide +kernel
      truthful := fun window => answers_truthful _ _ window
      oldest := by rintro _ ⟨⟩; rfl }, trivial⟩

/-- What the lake said of the first day it says afterwards. -/
theorem past_is_final_evening :
    Answers (modelLatencyByHour id (World.initial.steps (eveningPast ++ eveningFuture)).tier.files)
      ⟨"1970-01-01", 23, "m", 1, 30⟩ := by
  have newest : (World.initial.steps eveningPast).tier.readWatermark = some (day + 10 * minute) := by
    decide +kernel
  have said : Answers (modelLatencyByHour id (World.initial.steps eveningPast).tier.files)
      ⟨"1970-01-01", 23, "m", 1, 30⟩ :=
    ⟨[⟨"1970-01-01", 23, "m", 1, 30⟩], by decide +kernel, by simp⟩
  exact (((past_is_final (fun tokens => tokens / 1000000) id .deployed evening_admitted).2.2
    _ newest "1970-01-01" (by decide +kernel)).2.2 _ rfl).mpr said

end TelemetryEngine.ColdTier
