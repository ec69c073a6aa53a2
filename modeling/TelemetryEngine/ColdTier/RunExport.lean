import TelemetryEngine.ColdTier.Export

/-! `run_export` over the directory tree and the watermark table, call after
call. A call may be killed after any of its effects; an exception between two
effects is such a cut. What other code can see of a call is proved to be a
sequence of moves: files published and watermarks passed, in the order of the
plan. -/
namespace TelemetryEngine.ColdTier
open Foundation Foundation.Calendar

/-- The files under the lake root and the table `cold_export_watermark`.
`passed` records, since the last rewind, the results the watermark was moved
over; the code keeps no such list. -/
structure Tier where
  files : AList (fun _ : Path => LakeFile)
  watermarks : List Int
  passed : List WindowResult

namespace Tier

def initial : Tier := ⟨∅, [], []⟩

/-- The table stores a `DateTime`: whole seconds. -/
def apply (tier : Tier) : Step → Tier
  | .write path file => { tier with files := tier.files.insert path file }
  | .unlink path => { tier with files := tier.files.erase path }
  | .replace source target =>
    match tier.files.lookup source with
    | some file => { tier with files := (tier.files.erase source).insert target file }
    | none => tier
  | .deleteWatermark => { tier with watermarks := [], passed := [] }
  | .insertWatermark value passed =>
    { tier with
      watermarks := floorSecond value :: tier.watermarks
      passed := tier.passed ++ passed.toList }

def after (tier : Tier) (steps : List Step) : Tier := steps.foldl apply tier

/-- `FINAL` of a ReplacingMergeTree versioned by the watermark itself. -/
def readWatermark (tier : Tier) : Option Int := tier.watermarks.max?

@[simp] theorem after_nil (tier : Tier) : tier.after [] = tier := rfl

@[simp] theorem after_cons (tier : Tier) (step : Step) (rest : List Step) :
    tier.after (step :: rest) = (tier.apply step).after rest := rfl

@[simp] theorem after_append (tier : Tier) (first second : List Step) :
    tier.after (first ++ second) = (tier.after first).after second :=
  List.foldl_append

end Tier

structure ExportResult where
  windows : List WindowResult := []
  watermarkBefore : Option Int := none
  watermarkAfter : Option Int := none
  deriving Repr

/-- One call: its arguments, what it is answered, and after how many effects it
is killed, if it is. -/
structure ExportCall where
  now : Int
  lagMargin : Int := defaultLagMargin
  maxWindows : Option Int := none
  since : Option Int := none
  /-- `default_start`: the least event time of the hot tier. -/
  oldest : Except ExportError (Option Int)
  answers : ExportWindow → WindowAnswers
  cut : Option Nat := none

namespace ExportCall

def horizon (call : ExportCall) : Int := call.now - call.lagMargin

/-- `result.watermark_before or default_start(conn)`. -/
def start (call : ExportCall) (watermark : Option Int) : Except ExportError (Option Int) :=
  match watermark with
  | some value => .ok (some value)
  | none => call.oldest

end ExportCall

/-- `windows[:max_windows]`, unless `max_windows` is missing or zero. -/
def truncateWindows (maxWindows : Option Int) (windows : List ExportWindow) : List ExportWindow :=
  match maxWindows with
  | none => windows
  | some n =>
    if n = 0 then windows
    else if 0 < n then windows.take n.toNat
    else windows.take (windows.length - n.natAbs)

def rewindWatermark (to_ : Int) : Job Unit := do
  .perform .deleteWatermark
  .perform (.insertWatermark to_ none)

/-- What a call does before its first query. -/
def ExportCall.rewound (call : ExportCall) : Job Unit :=
  match call.since with
  | some since => rewindWatermark since
  | none => return ()

/-- `run_export` from its loop on. -/
def exportLoop (answers : ExportWindow → WindowAnswers) :
    List ExportWindow → ExportResult → Job ExportResult
  | [], result => return result
  | window :: rest, result => do
    let windowResult ← exportWindow window (answers window)
    let result := { result with windows := result.windows ++ [windowResult] }
    if windowResult.ok then
      .perform (.insertWatermark window.end_ (some windowResult))
      exportLoop answers rest { result with watermarkAfter := some window.end_ }
    else return result

/-- Export every complete window since the watermark. -/
def runExport (tier : Tier) (call : ExportCall) : Job ExportResult := do
  call.rewound
  let watermark := (tier.after call.rewound.trace).readWatermark
  let start ← .ask (call.start watermark)
  let result : ExportResult := { watermarkBefore := watermark }
  match start with
  | none => return result
  | some start =>
    let windows ← .ask ((planWindows start call.now defaultWindow call.lagMargin).mapError .window)
    exportLoop call.answers (truncateWindows call.maxWindows windows) result

/-- The effects of a call that is perhaps killed. -/
def Tier.executed (tier : Tier) (call : ExportCall) : List Step :=
  match call.cut with
  | none => (runExport tier call).trace
  | some n => (runExport tier call).trace.take n

def Tier.step (tier : Tier) (call : ExportCall) : Tier := tier.after (tier.executed call)

theorem Tier.executed_prefix (tier : Tier) (call : ExportCall) :
    tier.executed call <+: (runExport tier call).trace := by
  unfold Tier.executed
  split
  · exact List.prefix_rfl
  · exact List.take_prefix _ _

theorem truncateWindows_front (maxWindows : Option Int) (windows : List ExportWindow) :
    truncateWindows maxWindows windows <+: windows := by
  unfold truncateWindows
  split
  · exact List.prefix_rfl
  · split
    · exact List.prefix_rfl
    · split <;> exact List.take_prefix _ _

/-! ### What the rest of the world can see -/

/-- What a reader of the lake and of the watermark sees. -/
@[ext] structure View where
  lake : Path → Option LakeFile
  watermarks : List Int
  passed : List WindowResult

inductive Move where
  | publish (file : LakeFile)
  | pass (result : WindowResult)
  | clear
  | rewind (to_ : Int)

namespace View

def initial : View := ⟨fun _ => none, [], []⟩

def move (view : View) : Move → View
  | .publish file => { view with lake := Function.update view.lake (filePath file.window) (some file) }
  | .pass result =>
    { view with
      watermarks := floorSecond result.window.end_ :: view.watermarks
      passed := view.passed ++ [result] }
  | .clear => { view with watermarks := [], passed := [] }
  | .rewind to_ => { view with watermarks := floorSecond to_ :: view.watermarks }

def run (view : View) (moves : List Move) : View := moves.foldl move view

@[simp] theorem run_nil (view : View) : view.run [] = view := rfl

@[simp] theorem run_cons (view : View) (move : Move) (rest : List Move) :
    view.run (move :: rest) = (view.move move).run rest := rfl

theorem run_append (view : View) (first second : List Move) :
    view.run (first ++ second) = (view.run first).run second :=
  List.foldl_append

end View

/-- Readers match `dt=*/*.parquet` only. -/
def Tier.view (tier : Tier) : View where
  lake path := if path.committed then tier.files.lookup path else none
  watermarks := tier.watermarks
  passed := tier.passed

theorem Tier.initial_view : Tier.initial.view = .initial :=
  View.ext (funext fun path => by simp [Tier.view, Tier.initial, View.initial]) rfl rfl

theorem Tier.view_lake_mem {tier : Tier} (held : tier.view.lake path = some file) :
    path ∈ tier.files.keys := by
  simp only [Tier.view] at held
  split at held
  case isTrue =>
    have found : (tier.files.lookup path).isSome = true := by rw [held]; rfl
    exact AList.mem_keys.mp (AList.lookup_isSome.mp found)
  case isFalse => contradiction

theorem Tier.apply_staging {step : Step} (tier : Tier) (staging : step.Staging window) :
    (tier.apply step).view = tier.view := by
  have hidden := tempPath_committed (filePath window)
  cases step with
  | write path file =>
    obtain rfl : path = tempPath (filePath window) := staging
    ext path : 2
    · simp only [Tier.view, Tier.apply]
      split
      case isTrue visible =>
        rw [AList.lookup_insert_ne (by rintro rfl; simp [hidden] at visible)]
      case isFalse => rfl
    all_goals rfl
  | unlink path =>
    obtain rfl : path = tempPath (filePath window) := staging
    ext path : 2
    · simp only [Tier.view, Tier.apply]
      split
      case isTrue visible =>
        rw [AList.lookup_erase_ne (by rintro rfl; simp [hidden] at visible)]
      case isFalse => rfl
    all_goals rfl
  | replace | deleteWatermark | insertWatermark => exact staging.elim

theorem Tier.after_staging {steps : List Step} (tier : Tier)
    (staging : ∀ step ∈ steps, step.Staging window) : (tier.after steps).view = tier.view :=
  foldl_invariant (P := fun later : Tier => later.view = tier.view)
    (fun later step member same => (later.apply_staging (staging step member)).trans same) rfl

theorem Tier.after_commit (tier : Tier) (window : ExportWindow) (rows : List SpanRow) :
    (tier.after [.write (tempPath (filePath window)) ⟨window, rows⟩,
      .replace (tempPath (filePath window)) (filePath window)]).view =
    tier.view.move (.publish ⟨window, rows⟩) := by
  have hidden := tempPath_committed (filePath window)
  simp only [Tier.after_cons, Tier.after_nil, Tier.apply, AList.lookup_insert]
  ext path : 2
  · simp only [Tier.view, View.move, Function.update_apply]
    split
    case isTrue visible =>
      split
      case isTrue here => rw [here, AList.lookup_insert]
      case isFalse elsewhere =>
        have other : path ≠ tempPath (filePath window) := by
          rintro rfl
          simp [hidden] at visible
        rw [AList.lookup_insert_ne elsewhere, AList.lookup_erase_ne other,
          AList.lookup_insert_ne other]
    case isFalse unseen =>
      rw [if_neg]
      rintro rfl
      simp at unseen
  all_goals rfl

/-! ### Runs and points of the loop -/

inductive WindowMoves (window : ExportWindow) (answers : WindowAnswers) : List Move → Prop where
  | skip : Skips window answers result → WindowMoves window answers [.pass result]
  | commit : Commits window answers result →
      WindowMoves window answers [.publish ⟨window, answers.file⟩, .pass result]

inductive LoopRun (answers : ExportWindow → WindowAnswers) :
    List ExportWindow → List Move → Prop where
  | nil : LoopRun answers [] []
  | cons : WindowMoves window (answers window) first → LoopRun answers rest moves →
      LoopRun answers (window :: rest) (first ++ moves)

/-- The moves of a loop that was stopped somewhere: by an exception, a refused
window, a kill or its end. It is not settled when it was stopped between a
rename and the watermark that follows it. -/
inductive LoopPoint (answers : ExportWindow → WindowAnswers) :
    Bool → List ExportWindow → List Move → Prop where
  | stop : LoopPoint answers true windows []
  | unsettled : Commits window (answers window) result →
      LoopPoint answers false (window :: rest) [.publish ⟨window, (answers window).file⟩]
  | cons : WindowMoves window (answers window) first → LoopPoint answers settled rest moves →
      LoopPoint answers settled (window :: rest) (first ++ moves)

theorem WindowMoves.watermarks (view : View) (moved : WindowMoves window answers moves) :
    (view.run moves).watermarks = floorSecond window.end_ :: view.watermarks := by
  cases moved with
  | skip skips => simp [View.move, skips.window_eq]
  | commit commits => simp [View.move, commits.window_eq]

theorem WindowMoves.lake (view : View) (moved : WindowMoves window answers moves) :
    (∃ result, Skips window answers result) ∧ (view.run moves).lake = view.lake ∨
      Verifies answers ∧ (view.run moves).lake =
        Function.update view.lake (filePath window) (some ⟨window, answers.file⟩) := by
  cases moved with
  | skip skips => exact .inl ⟨⟨_, skips⟩, by simp only [View.run_cons, View.run_nil, View.move]⟩
  | commit commits =>
    exact .inr ⟨commits.verifies, by simp only [View.run_cons, View.run_nil, View.move]⟩

/-- The loop only adds watermarks, each at the end of a window of the plan. -/
theorem LoopPoint.watermarks (view : View) (point : LoopPoint answers settled windows moves) :
    ∃ fresh, (view.run moves).watermarks = fresh ++ view.watermarks ∧
      ∀ watermark ∈ fresh, ∃ window ∈ windows, watermark = floorSecond window.end_ := by
  induction point generalizing view with
  | stop => exact ⟨[], rfl, by simp⟩
  | unsettled => exact ⟨[], rfl, by simp⟩
  | @cons window first _ _ _ moved _ ih =>
    obtain ⟨fresh, marks, ends⟩ := ih (view.run first)
    refine ⟨fresh ++ [floorSecond window.end_], ?_, ?_⟩
    · rw [View.run_append, marks, moved.watermarks view, List.append_cons]
    · intro watermark member
      cases List.mem_append.mp member with
      | inl later =>
        obtain ⟨v, inside, same⟩ := ends watermark later
        exact ⟨v, by simp [inside], same⟩
      | inr here => exact ⟨window, by simp, List.mem_singleton.mp here⟩

/-- The steps stop between a rename and the watermark that follows it. -/
def endsWithRename (steps : List Step) : Bool :=
  match steps.getLast? with
  | some (.replace _ _) => true
  | _ => false

theorem endsWithRename_append {second : List Step} (first : List Step)
    (ends : endsWithRename second = true) : endsWithRename (first ++ second) = true := by
  cases last : second.getLast? with
  | none => simp [endsWithRename, last] at ends
  | some step => simpa [endsWithRename, List.getLast?_append, last] using ends

theorem exportLoop_pass (rest : List ExportWindow) {windowResult : WindowResult}
    (done : (exportWindow window (answers window)).outcome = .ok windowResult)
    (ok : windowResult.ok = true) (result : ExportResult) :
    ∃ next, (exportLoop answers (window :: rest) result).trace =
        (exportWindow window (answers window)).trace ++
          .insertWatermark window.end_ (some windowResult) :: (exportLoop answers rest next).trace ∧
      (exportLoop answers (window :: rest) result).outcome =
        (exportLoop answers rest next).outcome := by
  refine ⟨{ result with
    windows := result.windows ++ [windowResult], watermarkAfter := some window.end_ }, ?_⟩
  simp only [exportLoop, Traced.bind_ok done, if_pos ok, Traced.perform_bind, and_self]

theorem exportLoop_halt {rest : List ExportWindow}
    (halts : ¬ Passes window (answers window)) (result : ExportResult) :
    (exportLoop answers (window :: rest) result).trace =
      (exportWindow window (answers window)).trace := by
  cases outcome : (exportWindow window (answers window)).outcome with
  | error e => simp only [exportLoop, Traced.bind_error outcome]
  | ok windowResult =>
    have failed : ¬ windowResult.ok = true := fun ok => halts ⟨windowResult, outcome, ok⟩
    simp only [exportLoop, Traced.bind_ok outcome, if_neg failed, Traced.pure_trace,
      List.append_nil]

theorem Tier.after_committed {staged : List Step} (tier : Tier) (rows : List SpanRow)
    (staging : ∀ step ∈ staged, step.Staging window) :
    (tier.after (staged ++ [.write (tempPath (filePath window)) ⟨window, rows⟩,
      .replace (tempPath (filePath window)) (filePath window)])).view =
    tier.view.move (.publish ⟨window, rows⟩) := by
  rw [Tier.after_append, Tier.after_commit, tier.after_staging staging]

/-- A window the loop passes is skipped unseen or published, and then passed. -/
theorem exportWindow_passes (tier : Tier)
    (done : (exportWindow window answers).outcome = .ok result) (ok : result.ok = true) :
    ∃ moves, WindowMoves window answers moves ∧
      (tier.after ((exportWindow window answers).trace ++
        [.insertWatermark window.end_ (some result)])).view = tier.view.run moves := by
  have spec := exportWindow_case window answers
  generalize exportWindow window answers = job at done spec ⊢
  have pass (same : result.window = window) (earlier : Tier) :
      (earlier.after [.insertWatermark window.end_ (some result)]).view =
        earlier.view.move (.pass result) := by
    subst same
    rfl
  cases spec with
  | raised => cases done
  | skipped staging skips =>
    cases done
    refine ⟨_, .skip skips, ?_⟩
    rw [Tier.after_append, pass skips.window_eq, tier.after_staging staging]
    rfl
  | refused _ _ failed =>
    cases done
    exact absurd ok (by simp [failed])
  | committed staging commits =>
    cases done
    refine ⟨_, .commit commits, ?_⟩
    rw [Tier.after_append, pass commits.window_eq, tier.after_committed _ staging]
    rfl

/-- Wherever the export of a window stops, a reader sees nothing of it or the
whole verified file. -/
theorem exportWindow_points {steps : List Step} (tier : Tier)
    (cut : steps <+: (exportWindow window answers).trace) :
    (tier.after steps).view = tier.view ∨
      ∃ result, Commits window answers result ∧ endsWithRename steps = true ∧
        (tier.after steps).view = tier.view.move (.publish ⟨window, answers.file⟩) := by
  have unseen {trace : List Step} (staging : ∀ step ∈ trace, step.Staging window)
      (inside : steps <+: trace) : (tier.after steps).view = tier.view :=
    tier.after_staging (fun step member => staging step (inside.subset member))
  have spec := exportWindow_case window answers
  generalize exportWindow window answers = job at cut spec
  cases spec with
  | raised staging => exact .inl (unseen staging cut)
  | skipped staging => exact .inl (unseen staging cut)
  | refused staging => exact .inl (unseen staging cut)
  | @committed staged result staging commits =>
    rw [List.append_cons] at cut
    rcases List.prefix_concat_iff.mp cut with rfl | inside
    · rw [← List.append_cons]
      exact .inr ⟨result, commits, endsWithRename_append staged rfl, tier.after_committed _ staging⟩
    · refine .inl (@unseen (staged ++ [_]) ?_ inside)
      intro step member
      cases List.mem_append.mp member with
      | inl early => exact staging step early
      | inr last =>
        obtain rfl := List.mem_singleton.mp last
        rfl

/-- A loop that is stopped anywhere has made the moves of a point. -/
theorem exportLoop_points {windows : List ExportWindow} {steps : List Step} (tier : Tier)
    (result : ExportResult) (cut : steps <+: (exportLoop answers windows result).trace) :
    ∃ settled moves, LoopPoint answers settled windows moves ∧
      (tier.after steps).view = tier.view.run moves ∧
      (settled = false → endsWithRename steps = true) := by
  induction windows generalizing tier steps result with
  | nil =>
    obtain rfl : steps = [] := by simpa [exportLoop] using cut
    exact ⟨true, [], .stop, rfl, by simp⟩
  | cons window rest ih =>
    have alone (inside : steps <+: (exportWindow window (answers window)).trace) :
        ∃ settled moves, LoopPoint answers settled (window :: rest) moves ∧
          (tier.after steps).view = tier.view.run moves ∧
          (settled = false → endsWithRename steps = true) := by
      rcases exportWindow_points tier inside with same | ⟨_, commits, ends, seen⟩
      · exact ⟨true, [], .stop, same, by simp⟩
      · exact ⟨false, _, .unsettled commits, seen, fun _ => ends⟩
    by_cases passes : Passes window (answers window)
    · obtain ⟨windowResult, done, ok⟩ := passes
      obtain ⟨next, trace, _⟩ := exportLoop_pass rest done ok result
      obtain ⟨first, moved, passed⟩ := exportWindow_passes tier done ok
      rw [trace] at cut
      rcases prefix_append_cases cut with inside | ⟨tail, inside, rfl⟩
      · exact alone inside
      · cases tail with
        | nil => exact alone (by simp)
        | cons step tail =>
          obtain ⟨rfl, later⟩ := List.cons_prefix_cons.mp inside
          obtain ⟨settled, moves, point, seen, ends⟩ := ih (tier.after _) next later
          refine ⟨settled, first ++ moves, .cons moved point, ?_, ?_⟩
          · rw [List.append_cons, Tier.after_append, seen, passed, View.run_append]
          · intro unsettled
            rw [List.append_cons]
            exact endsWithRename_append _ (ends unsettled)
    · rw [exportLoop_halt passes] at cut
      exact alone cut

theorem exportLoop_run {windows : List ExportWindow} (tier : Tier) (result : ExportResult)
    (passes : ∀ window ∈ windows, Passes window (answers window)) :
    ∃ moves, LoopRun answers windows moves ∧
      (tier.after (exportLoop answers windows result).trace).view = tier.view.run moves := by
  induction windows generalizing tier result with
  | nil => exact ⟨[], .nil, rfl⟩
  | cons window rest ih =>
    obtain ⟨windowResult, done, ok⟩ := passes window (by simp)
    obtain ⟨next, trace, _⟩ := exportLoop_pass rest done ok result
    obtain ⟨first, moved, passed⟩ := exportWindow_passes tier done ok
    obtain ⟨moves, run, seen⟩ := ih (tier.after _) next
      (fun window member => passes window (by simp [member]))
    refine ⟨first ++ moves, .cons moved run, ?_⟩
    rw [trace, List.append_cons, Tier.after_append, seen, passed, View.run_append]

/-! ### Runs and points of a call -/

namespace ExportCall

def rewinds (call : ExportCall) : List Move :=
  match call.since with
  | some since => [.clear, .rewind since]
  | none => []

def watermark (call : ExportCall) (view : View) : Option Int :=
  (view.run call.rewinds).watermarks.max?

/-- The windows the call goes through unless it is stopped. -/
def planned (call : ExportCall) (view : View) : List ExportWindow :=
  match call.start (call.watermark view) with
  | .ok (some start) =>
    match planWindows start call.now defaultWindow call.lagMargin with
    | .ok windows => truncateWindows call.maxWindows windows
    | .error _ => []
  | _ => []

theorem rewinds_lake {call : ExportCall} (view : View) (begun : moves <+: call.rewinds) :
    (view.run moves).lake = view.lake := by
  have silent : ∀ move ∈ call.rewinds, ∀ view : View, (view.move move).lake = view.lake := by
    unfold rewinds
    split
    · simp [View.move]
    · simp
  exact foldl_invariant (P := fun later : View => later.lake = view.lake)
    (fun later move member same => (silent move (begun.subset member) later).trans same) rfl

inductive Point (call : ExportCall) (view : View) : Bool → List Move → Prop where
  | early : moves <+: call.rewinds → Point call view true moves
  | loop : LoopPoint call.answers settled (call.planned view) moves →
      Point call view settled (call.rewinds ++ moves)

theorem watermark_since {call : ExportCall} {to_ : Int} (view : View) (back : call.since = some to_) :
    call.watermark view = some (floorSecond to_) := by
  simp [watermark, rewinds, back, View.move]

theorem watermark_read {call : ExportCall} (view : View) (onward : call.since = none) :
    call.watermark view = view.watermarks.max? := by
  simp [watermark, rewinds, onward]

theorem planned_plan (call : ExportCall) (view : View) :
    call.planned view = [] ∨ ∃ start stop, call.start (call.watermark view) = .ok (some start) ∧
      Plan hour start stop call.horizon (call.planned view) := by
  unfold planned
  split
  case h_1 start found =>
    obtain ⟨windows, made, plan⟩ :=
      planWindows_spec (show 0 < defaultWindow by decide) start call.now call.lagMargin
    obtain ⟨stop, plan⟩ := plan.truncate (truncateWindows_front call.maxWindows windows)
    simp only [made]
    exact .inr ⟨start, stop, found, plan⟩
  case h_2 => exact .inl rfl

end ExportCall

theorem rewound_outcome (call : ExportCall) : call.rewound.outcome = .ok () := by
  unfold ExportCall.rewound
  cases call.since <;> rfl

theorem rewound_points {steps : List Step} {call : ExportCall} (tier : Tier)
    (cut : steps <+: call.rewound.trace) :
    (tier.after steps).view = tier.view.run (call.rewinds.take steps.length) := by
  unfold ExportCall.rewound at cut
  unfold ExportCall.rewinds
  split at cut
  case h_1 since _ =>
    have cut : steps <+: [.deleteWatermark] ++ [.insertWatermark since none] := cut
    rcases List.prefix_concat_iff.mp cut with rfl | cut
    · rfl
    · have cut : steps <+: [] ++ [.deleteWatermark] := cut
      rcases List.prefix_concat_iff.mp cut with rfl | cut
      · rfl
      · obtain rfl := List.prefix_nil.mp cut
        rfl
  case h_2 =>
    obtain rfl := List.prefix_nil.mp cut
    rfl

theorem rewound_view (tier : Tier) (call : ExportCall) :
    (tier.after call.rewound.trace).view = tier.view.run call.rewinds := by
  unfold ExportCall.rewound ExportCall.rewinds
  split <;> rfl

theorem runExport_trace (tier : Tier) (call : ExportCall) :
    ∃ result, (runExport tier call).trace =
      call.rewound.trace ++ (exportLoop call.answers (call.planned tier.view) result).trace := by
  have read : (tier.after call.rewound.trace).readWatermark = call.watermark tier.view := by
    rw [ExportCall.watermark, ← rewound_view]
    rfl
  refine ⟨{ watermarkBefore := call.watermark tier.view }, ?_⟩
  change (call.rewound >>= fun _ => _ : Job ExportResult).trace = _
  rw [Traced.bind_ok (rewound_outcome call)]
  refine congrArg (call.rewound.trace ++ ·) ?_
  change (Traced.ask (call.start (tier.after call.rewound.trace).readWatermark) >>= _ :
    Job ExportResult).trace = _
  rw [read]
  unfold ExportCall.planned
  cases call.start (call.watermark tier.view) with
  | error e => rfl
  | ok start =>
    cases start with
    | none => rfl
    | some start =>
      simp only [Traced.ask_ok_bind]
      cases planWindows start call.now defaultWindow call.lagMargin with
      | error e => rfl
      | ok windows => rw [← read]; rfl

theorem runExport_points {steps : List Step} {call : ExportCall} (tier : Tier)
    (cut : steps <+: (runExport tier call).trace) :
    ∃ settled moves, call.Point tier.view settled moves ∧
      (tier.after steps).view = tier.view.run moves ∧
      (settled = false → endsWithRename steps = true) := by
  obtain ⟨result, trace⟩ := runExport_trace tier call
  rw [trace] at cut
  rcases prefix_append_cases cut with inside | ⟨tail, inside, rfl⟩
  · exact ⟨true, _, .early (List.take_prefix _ _), rewound_points tier inside, by simp⟩
  · obtain ⟨settled, moves, point, seen, ends⟩ := exportLoop_points (tier.after _) result inside
    refine ⟨settled, _, .loop point, ?_, fun unsettled => endsWithRename_append _ (ends unsettled)⟩
    rw [Tier.after_append, seen, rewound_view, View.run_append]

theorem Tier.step_point (tier : Tier) (call : ExportCall) :
    ∃ settled moves, call.Point tier.view settled moves ∧
      (tier.step call).view = tier.view.run moves ∧
      (settled = false → endsWithRename (tier.executed call) = true) :=
  runExport_points tier (tier.executed_prefix call)

theorem LoopPoint.lake_invariant {P : (Path → Option LakeFile) → Prop} (view : View)
    (point : LoopPoint answers settled windows moves)
    (publishes : ∀ lake, ∀ window ∈ windows, Verifies (answers window) → P lake →
      P (Function.update lake (filePath window) (some ⟨window, (answers window).file⟩)))
    (initial : P view.lake) : P (view.run moves).lake := by
  induction point generalizing view with
  | stop => exact initial
  | unsettled commits =>
    simp only [View.run_cons, View.run_nil, View.move]
    exact publishes _ _ (by simp) commits.verifies initial
  | @cons window first _ _ _ moved _ ih =>
    rw [View.run_append]
    have later := ih (view.run first)
      fun lake window member => publishes lake window (by simp [member])
    rcases moved.lake view with ⟨_, lake⟩ | ⟨verifies, lake⟩
    · exact later (lake ▸ initial)
    · exact later (lake ▸ publishes _ window (by simp) verifies initial)

/-- What every publication of a planned window preserves, every call preserves. -/
theorem Tier.lake_invariant {P : (Path → Option LakeFile) → Prop} {tier : Tier} {call : ExportCall}
    (publishes : ∀ lake, ∀ window ∈ call.planned tier.view, Verifies (call.answers window) →
      P lake → P (Function.update lake (filePath window) (some ⟨window, (call.answers window).file⟩)))
    (initial : P tier.view.lake) : P (tier.step call).view.lake := by
  obtain ⟨_, moves, point, seen, _⟩ := tier.step_point call
  rw [seen]
  cases point with
  | early begun => rwa [ExportCall.rewinds_lake _ begun]
  | loop point =>
    rw [View.run_append]
    refine point.lake_invariant _ publishes ?_
    rwa [ExportCall.rewinds_lake _ List.prefix_rfl]

theorem Tier.step_run (tier : Tier) {call : ExportCall} (whole : call.cut = none)
    (passes : ∀ window ∈ call.planned tier.view, Passes window (call.answers window)) :
    ∃ moves, LoopRun call.answers (call.planned tier.view) moves ∧
      (tier.step call).view = tier.view.run (call.rewinds ++ moves) := by
  obtain ⟨result, trace⟩ := runExport_trace tier call
  obtain ⟨moves, run, seen⟩ := exportLoop_run (tier.after call.rewound.trace) result passes
  refine ⟨moves, run, ?_⟩
  rw [Tier.step, Tier.executed, whole, trace, Tier.after_append, seen, rewound_view,
    View.run_append]

end TelemetryEngine.ColdTier
