import TelemetryEngine.ColdTier.ExactlyOnce

/-! Calls cut off anywhere and repeated. A retry overwrites what the killed call
committed only if it plans the same window again, and the end of the last window
of a plan moves with the clock. -/
namespace TelemetryEngine.ColdTier
open Foundation.Calendar

def NoDuplicates (lake : Path → Option LakeFile) : Prop :=
  ∀ p q f g row, lake p = some f → lake q = some g → row ∈ f.rows → row ∈ g.rows → p = q

/-- Every file that holds a row of one of the windows is that window's own file. -/
def Overwrites (server : Server) (lake : Path → Option LakeFile) (windows : List ExportWindow) :
    Prop :=
  ∀ window ∈ windows, ∀ path file row, lake path = some file → row ∈ file.rows →
    server.between window.start window.end_ row = true → path = filePath window

def SelectOnce (server : Server) (windows : List ExportWindow) : Prop :=
  windows.Pairwise fun v w => ∀ row : SpanRow,
    server.between v.start v.end_ row = true → server.between w.start w.end_ row = false

/-- Every call meets files of rows it plans to export only at their own paths. -/
def OverwritesRun (server : Server) : Tier → List ExportCall → Prop
  | _, [] => True
  | tier, call :: rest => Overwrites server tier.view.lake (call.planned tier.view) ∧
      OverwritesRun server (tier.step call) rest

/-- The answers of the call come from a hot tier that rests during the call. -/
def AtRest (server : Server) (call : ExportCall) : Prop :=
  ∃ rows, ∀ window, Truthful server rows window (call.answers window)

section
variable {server : Server} {lake : Path → Option LakeFile} {window : ExportWindow}
  {rest : List ExportWindow} {rows : List SpanRow}

theorem NoDuplicates.publish (unique : NoDuplicates lake)
    (overwrites : Overwrites server lake (window :: rest))
    (within : ∀ row ∈ rows, server.between window.start window.end_ row = true) :
    NoDuplicates (Function.update lake (filePath window) (some ⟨window, rows⟩)) := by
  have own {path : Path} {file : LakeFile} {row : SpanRow} (held : lake path = some file)
      (old : row ∈ file.rows) (new : row ∈ rows) : path = filePath window :=
    overwrites window (by simp) path file row held old (within row new)
  intro p q f g row first second inFirst inSecond
  rw [Function.update_apply] at first second
  split at first <;> split at second
  case isTrue.isTrue here there => rw [here, there]
  case isTrue.isFalse here _ =>
    obtain rfl := Option.some.inj first
    rw [here, own second inSecond inFirst]
  case isFalse.isTrue _ there =>
    obtain rfl := Option.some.inj second
    rw [there, own first inFirst inSecond]
  case isFalse.isFalse => exact unique p q f g row first second inFirst inSecond

theorem Overwrites.publish (overwrites : Overwrites server lake (window :: rest))
    (once : SelectOnce server (window :: rest))
    (within : ∀ row ∈ rows, server.between window.start window.end_ row = true) :
    Overwrites server (Function.update lake (filePath window) (some ⟨window, rows⟩)) rest := by
  intro later member path file row held inside selected
  rw [Function.update_apply] at held
  split at held
  case isTrue =>
    obtain rfl := Option.some.inj held
    rw [List.rel_of_pairwise_cons once member row (within row inside)] at selected
    contradiction
  case isFalse => exact overwrites later (by simp [member]) path file row held inside selected

end

theorem Truthful.within {server : Server} (truthful : Truthful server rows window answers)
    (verifies : Verifies answers) :
    ∀ row ∈ answers.file, server.between window.start window.end_ row = true := by
  intro row member
  have selected := (truthful.verifies verifies).mem_iff.mp member
  exact (List.mem_filter.mp selected).2

theorem NoDuplicates.loop {server : Server} {view : View} (unique : NoDuplicates view.lake)
    (overwrites : Overwrites server view.lake windows) (once : SelectOnce server windows)
    (truthful : ∀ window, Truthful server rows window (answers window))
    (point : LoopPoint answers settled windows moves) : NoDuplicates (view.run moves).lake := by
  induction point generalizing view with
  | stop => exact unique
  | unsettled commits =>
    simp only [View.run_cons, View.run_nil, View.move]
    exact unique.publish overwrites ((truthful _).within commits.verifies)
  | @cons window first _ rest _ moved _ ih =>
    obtain ⟨_, once'⟩ := List.pairwise_cons.mp once
    rw [View.run_append]
    rcases moved.lake view with ⟨_, lake⟩ | ⟨verifies, lake⟩
    · have later : Overwrites server view.lake rest :=
        fun window member => overwrites window (by simp [member])
      exact ih (lake ▸ unique) (lake ▸ later) once'
    · have within := (truthful window).within verifies
      exact ih (lake ▸ unique.publish overwrites within) (lake ▸ overwrites.publish once within) once'

theorem NoDuplicates.step {server : Server} {tier : Tier} {call : ExportCall}
    (unique : NoDuplicates tier.view.lake) (atRest : AtRest server call)
    (overwrites : Overwrites server tier.view.lake (call.planned tier.view)) :
    NoDuplicates (tier.step call).view.lake := by
  obtain ⟨rows, truthful⟩ := atRest
  obtain ⟨_, moves, point, seen, _⟩ := tier.step_point call
  rw [seen]
  cases point with
  | early begun => rwa [ExportCall.rewinds_lake _ begun]
  | loop point =>
    have once : SelectOnce server (call.planned tier.view) := by
      rcases call.planned_plan tier.view with nothing | ⟨start, stop, _, plan⟩
      · exact nothing ▸ .nil
      · exact plan.select_once server
    have lake := ExportCall.rewinds_lake tier.view (List.prefix_refl call.rewinds)
    rw [View.run_append]
    exact NoDuplicates.loop (lake ▸ unique) (lake ▸ overwrites) once truthful point

theorem NoDuplicates.steps {server : Server} {tier : Tier} {calls : List ExportCall}
    (unique : NoDuplicates tier.view.lake) (atRest : ∀ call ∈ calls, AtRest server call)
    (overwrites : OverwritesRun server tier calls) : NoDuplicates (tier.steps calls).view.lake := by
  induction calls generalizing tier with
  | nil => exact unique
  | cons call rest ih =>
    exact ih (unique.step (atRest call (by simp)) overwrites.1)
      (fun call member => atRest call (by simp [member])) overwrites.2

/-- Calls may be killed anywhere, rewind, and run at any time: while each meets
the rows it plans to export only in the files it will overwrite, no row is ever
in two files. -/
theorem retries_never_duplicate (server : Server) {calls : List ExportCall}
    (atRest : ∀ call ∈ calls, AtRest server call)
    (overwrites : OverwritesRun server .initial calls) :
    NoDuplicates (Tier.initial.steps calls).view.lake := by
  have empty : NoDuplicates Tier.initial.view.lake := by
    rw [Tier.initial_view]
    intro p q f g row first
    cases first
  exact empty.steps atRest overwrites

/-- Killed after the rename of its only window, before the watermark. -/
def killedCall : ExportCall := { tenPast (20 * minute) with cut := some 3 }

theorem tenPast_atRest (now : Int) : AtRest .deployed (tenPast now) :=
  ⟨_, fun window => answers_truthful _ _ window⟩

/-- Repeated at the same time, the killed call overwrites its file. -/
theorem retries_never_duplicate_same_clock :
    NoDuplicates (Tier.initial.steps [killedCall, tenPast (20 * minute)]).view.lake := by
  have file : (Tier.initial.step killedCall).files.keys =
      ((tenPast (20 * minute)).planned (Tier.initial.step killedCall).view).map filePath := by
    decide +kernel
  have single : ((tenPast (20 * minute)).planned (Tier.initial.step killedCall).view).length = 1 := by
    decide +kernel
  refine @retries_never_duplicate .deployed [killedCall, tenPast (20 * minute)] ?_ ⟨?_, ?_, trivial⟩
  · simp only [List.mem_cons, List.not_mem_nil, or_false]
    rintro call (rfl | rfl)
    · exact tenPast_atRest (20 * minute)
    · exact tenPast_atRest (20 * minute)
  · intro window member path file row held
    rw [Tier.initial_view] at held
    cases held
  · intro window member path held row found
    have key := Tier.view_lake_mem found
    obtain ⟨only, planned⟩ := List.length_eq_one_iff.mp single
    rw [planned, List.mem_singleton] at member
    rw [file, planned] at key
    intro _ _
    rw [member]
    simpa using key

/-- The window of the killed call, and the first window of a later one. -/
def shortWindow : ExportWindow := ⟨10 * minute, 15 * minute, by decide, by decide⟩
def longWindow : ExportWindow := ⟨10 * minute, hour, by decide, by decide⟩

/-- Repeated later, it plans a longer window and leaves the row in two files. -/
theorem retry_duplicates :
    ¬ NoDuplicates (Tier.initial.steps [killedCall, tenPast (2 * hour)]).view.lake := by
  intro unique
  have same := unique (filePath shortWindow) (filePath longWindow)
    ⟨shortWindow, [{ ts := 600000 }]⟩ ⟨longWindow, [{ ts := 600000 }]⟩ { ts := 600000 }
    (by decide +kernel) (by decide +kernel) (by simp) (by simp)
  exact absurd same (by decide +kernel)

end TelemetryEngine.ColdTier
