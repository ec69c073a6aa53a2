import TelemetryEngine.Foundation.Grouping
import TelemetryEngine.ColdTier.Conservation

/-! The hive column `dt` of the view `spans`, and the query `DAILY_VOLUME` over it. The
column is read from the directory; in every file of the lake it is the date of the rows. -/
namespace TelemetryEngine.ColdTier
open Foundation Foundation.Calendar Foundation.Grouping

/-- `hive_partitioning = 1`: what follows `dt=` in the name of the directory. DuckDB reads
the texts as dates, whose order is theirs. -/
def dtOf (path : Path) : String := String.ofList (path.dir.toList.drop partitionKey.length)

def hiveRows (files : AList fun _ : Path => LakeFile) (read : List Path) : List (String × SpanRow) :=
  read.flatMap fun path => (rowsOf files path).map (dtOf path, ·)

abbrev QueryError := DuplicationError

structure DailyVolume where
  spans : ℕ
  mOutputTokens : ℚ
  deriving DecidableEq

section
variable (millions : ℕ → ℚ)

/-- `millions` stands for `round(tokens / 1e6, 2)` in doubles. -/
def DailyVolume.of (rows : List SpanRow) : DailyVolume :=
  ⟨rows.length, millions (rows.map (·.outputTokens.toNat)).sum⟩

/-- `DAILY_VOLUME`. -/
def dailyVolume (files : AList fun _ : Path => LakeFile) :
    Except QueryError (List (String × DailyVolume)) := do
  let read ← ((lakeTree files).openLake true).mapError .lake
  if read.isEmpty then throw .binder
  else return grouped Prod.fst (fun rows => .of millions (rows.map Prod.snd)) (hiveRows files read)

end

/-- A query over the view `spans` that reads the column `dt` or another the empty view lacks. -/
def overHive (answer : List (String × SpanRow) → A) (files : AList fun _ : Path => LakeFile) :
    Except QueryError A := do
  let read ← ((lakeTree files).openLake true).mapError .lake
  if read.isEmpty then throw .binder
  else return answer (hiveRows files read)

theorem dailyVolume_eq (millions : ℕ → ℚ) (files : AList fun _ : Path => LakeFile) :
    dailyVolume millions files =
      overHive (grouped Prod.fst fun rows => .of millions (rows.map Prod.snd)) files :=
  rfl

/-- A query with a condition on `dt` opens only the directories that meet it. -/
def prunedRows (files : AList fun _ : Path => LakeFile) (condition : String → Bool) :
    List SpanRow :=
  ((lakeTree files).globbed.filter fun path => condition (dtOf path)).flatMap (rowsOf files)

def SpanRow.day (row : SpanRow) : String := String.ofList (dateOf row.time).isoFormat

/-- Each file is in the directory of its rows' date. -/
def DatedRows (lake : Path → Option LakeFile) : Prop :=
  ∀ path file, lake path = some file → ∀ row ∈ file.rows, dtOf path = SpanRow.day row

theorem dtOf_filePath (window : ExportWindow) :
    dtOf (filePath window) = String.ofList (dateOf window.start).isoFormat := by
  simp [dtOf, filePath, partitionDir, ExportWindow.partitionDate]

theorem DatedRows.step {server : Server} {hot : List SpanRow} {tier : Tier} {call : ExportCall}
    (dated : DatedRows tier.view.lake)
    (truthful : ∀ window, Truthful server hot window (call.answers window)) :
    DatedRows (tier.step call).view.lake := by
  refine Tier.lake_invariant (fun lake window planned verifies dated path file held row member => ?_)
    dated
  rw [Function.update_apply] at held
  split at held
  case isTrue here =>
    obtain rfl := Option.some.inj held
    obtain ⟨_, after, before⟩ :=
      mem_select.mp (((truthful window).verifies verifies).mem_iff.mp member)
    have today : window.WithinDay := by
      rcases call.planned_plan tier.view with none | ⟨_, _, _, plan⟩
      · simp [none] at planned
      · exact plan.within_day window planned
    have start := server.floorSecond_le_bind window.start
    have end_ := server.bind_le window.end_
    rw [here, dtOf_filePath, SpanRow.day]
    refine congrArg (fun date : Date => String.ofList date.isoFormat) (dateOf_eq_iff.mpr ?_)
    simp only [ExportWindow.WithinDay, dayNumber, startOfDay, floorSecond, floorTo, day, second] at *
    omega
  case isFalse => exact dated path file held row member

theorem DatedRows.steps {server : Server} (world : World) {events : List Event}
    (dated : DatedRows world.lake)
    (admitted : Meets World.step (fun world event => event.Admitted server world) world events) :
    DatedRows (world.steps events).lake := by
  induction events generalizing world with
  | nil => exact dated
  | cons event rest ih =>
    obtain ⟨own, later⟩ := admitted
    refine ih _ ?_ later
    cases event with
    | append | expire => exact dated
    | call made => exact DatedRows.step dated own.truthful

theorem DatedRows.hive {tier : Tier} (dated : DatedRows tier.view.lake) :
    ∀ path ∈ (lakeTree tier.files).globbed, ∀ row ∈ rowsOf tier.files path,
      dtOf path = SpanRow.day row := by
  intro path listed row member
  have visible := (List.mem_filter.mp listed).2
  cases held : tier.files.lookup path with
  | none => simp [rowsOf, held] at member
  | some file =>
    have seen : tier.view.lake path = some file := (if_pos visible).trans held
    exact dated path file seen row (by simpa [rowsOf, held] using member)

def Tier.lakeRows (tier : Tier) : List SpanRow :=
  (lakeTree tier.files).globbed.flatMap (rowsOf tier.files)

/-- The directories that are not opened hold no row that meets the condition. -/
theorem DatedRows.pruned {tier : Tier} (dated : DatedRows tier.view.lake)
    (condition : String → Bool) : prunedRows tier.files condition =
      tier.lakeRows.filter fun row => condition (SpanRow.day row) := by
  have closed : ∀ path ∈ (lakeTree tier.files).globbed, condition (dtOf path) = false →
      (rowsOf tier.files path).filter (fun row => condition (SpanRow.day row)) = [] := by
    intro path listed unmet
    refine List.filter_eq_nil_iff.mpr fun row inside => ?_
    rw [← dated.hive path listed row inside, unmet]
    simp
  rw [Tier.lakeRows, List.filter_flatMap, ← flatMap_filter_of_nil closed, prunedRows]
  refine List.flatMap_congr fun path member => (List.filter_eq_self.mpr fun row inside => ?_).symm
  obtain ⟨listed, met⟩ := List.mem_filter.mp member
  exact dated.hive path listed row inside ▸ met

theorem DatedRows.hiveRows {tier : Tier} (dated : DatedRows tier.view.lake) :
    hiveRows tier.files (lakeTree tier.files).globbed =
      tier.lakeRows.map fun row => (SpanRow.day row, row) := by
  rw [ColdTier.hiveRows, Tier.lakeRows, List.map_flatMap]
  refine List.flatMap_congr fun path listed => List.map_congr_left fun row member => ?_
  rw [dated.hive path listed row member]

theorem lakeRows_eq_nil {tier : Tier}
    (full : ∀ path file, tier.view.lake path = some file → file.rows ≠ []) :
    tier.lakeRows = [] ↔ (lakeTree tier.files).globbed = [] := by
  refine ⟨fun none => ?_, fun none => by rw [Tier.lakeRows, none]; rfl⟩
  refine List.eq_nil_iff_forall_not_mem.mpr fun path listed => ?_
  obtain ⟨file, found, seen⟩ := exists_file listed
  have bare := List.flatMap_eq_nil_iff.mp none path listed
  exact full path file seen (by simpa [rowsOf, found] using bare)

theorem Accounted.overHive {tier : Tier} (accounted : Accounted tier.view)
    (full : ∀ path file, tier.view.lake path = some file → file.rows ≠ [])
    (dated : DatedRows tier.view.lake) (answer : List (String × SpanRow) → A) :
    overHive answer tier.files = if tier.lakeRows = [] then .error .binder
      else .ok (answer (tier.lakeRows.map fun row => (SpanRow.day row, row))) := by
  rw [ColdTier.overHive, (accounted.openLake full).1]
  by_cases none : (lakeTree tier.files).globbed = []
  · rw [if_pos ((lakeRows_eq_nil full).mpr none)]
    simp [none, Except.mapError, bind, Except.bind, throw, throwThe, MonadExceptOf.throw]
  · rw [if_neg ((lakeRows_eq_nil full).not.mpr none), ← dated.hiveRows]
    simp [none, Except.mapError, bind, Except.bind, pure, Except.pure]

theorem DatedRows.run {server : Server} {events : List Event}
    (admitted : Meets World.step (fun world event => event.Admitted server world) .initial events) :
    DatedRows (World.initial.steps events).lake :=
  DatedRows.steps .initial (by simp [DatedRows, World.lake, World.initial, Tier.initial_view,
    View.initial]) admitted

/-- After any history of exports, a query over some dates reads exactly the rows of those
dates without opening another directory, and the daily volume counts every exported row
on the day of its event, whatever was missed. -/
theorem daily_volume_exported (millions : ℕ → ℚ) (server : Server) {events : List Event}
    (admitted : Meets World.step (fun world event => event.Admitted server world) .initial events) :
    let world := World.initial.steps events
    ∃ exported, (exported ++ (world.pending ++ World.initial.missedBy events)).Perm
        (events.flatMap Event.appended) ∧
      (∀ condition, prunedRows world.tier.files condition =
        exported.filter fun row => condition (SpanRow.day row)) ∧
      dailyVolume millions world.tier.files =
        if exported = [] then .error .binder
        else .ok (grouped SpanRow.day (DailyVolume.of millions) exported) := by
  intro world
  obtain ⟨accounted, balance⟩ := accounted_run admitted
  have full := World.full events
  have dated : DatedRows world.tier.view.lake := DatedRows.run admitted
  have read := (accounted.openLake full).2
  have volumes := grouped_map Prod.fst (fun rows => DailyVolume.of millions (rows.map Prod.snd))
    (fun row : SpanRow => (SpanRow.day row, row)) world.tier.lakeRows
  simp only [List.map_map, Function.comp_def, List.map_id'] at volumes
  refine ⟨world.tier.lakeRows, (read.append_right _).trans balance, dated.pruned, ?_⟩
  rw [dailyVolume_eq, accounted.overHive full dated, volumes]

/-- Of three rows the one that was exported is counted. -/
theorem daily_volume_exported_mixed :
    let world := World.initial.steps mixedEvents
    ∃ exported, (exported ++ (world.pending ++ World.initial.missedBy mixedEvents)).Perm
        (mixedEvents.flatMap Event.appended) ∧
      (∀ condition, prunedRows world.tier.files condition =
        exported.filter fun row => condition (SpanRow.day row)) ∧
      dailyVolume (fun tokens => tokens / 1000000) world.tier.files =
        if exported = [] then .error .binder
        else .ok (grouped SpanRow.day (DailyVolume.of fun tokens => tokens / 1000000) exported) :=
  daily_volume_exported _ .deployed mixedEvents_admitted

example : dailyVolume (fun tokens => tokens / 1000000) (World.initial.steps mixedEvents).tier.files =
    .ok [("1970-01-01", ⟨1, 0⟩)] := by
  decide +kernel

end TelemetryEngine.ColdTier
