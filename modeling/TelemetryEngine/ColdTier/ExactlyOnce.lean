import TelemetryEngine.ColdTier.RunExport
import TelemetryEngine.ColdTier.Source

/-! Histories of calls that only go onward. A call may be killed at any point
but the one between a rename and its watermark; then the committed and the
skipped windows tile the range from the first start to the watermark. -/
namespace TelemetryEngine.ColdTier
open Foundation.Calendar Foundation.Tiling

def Tier.steps (tier : Tier) (calls : List ExportCall) : Tier := calls.foldl Tier.step tier

/-- No call is killed between a rename and the watermark that follows it. -/
def SettledRun : Tier → List ExportCall → Prop
  | _, [] => True
  | tier, call :: rest => endsWithRename (tier.executed call) = false ∧ SettledRun (tier.step call) rest

def startOfWriter (tier : Tier) (call : ExportCall) : Option Int :=
  match (tier.step call).readWatermark, call.start tier.readWatermark with
  | some _, .ok start => start
  | _, _ => none

/-- The start used by the first call that wrote a watermark. -/
def firstStart : Tier → List ExportCall → Option Int
  | _, [] => none
  | tier, call :: rest => (startOfWriter tier call).or (firstStart (tier.step call) rest)

theorem firstStart_snoc (tier : Tier) (calls : List ExportCall) (last : ExportCall) :
    firstStart tier (calls ++ [last]) =
      (firstStart tier calls).or (startOfWriter (tier.steps calls) last) := by
  induction calls generalizing tier with
  | nil => simp [firstStart, Tier.steps]
  | cons call rest ih => simp [firstStart, ih, Option.or_assoc, Tier.steps]

/-- A call without `since`, at whole seconds. -/
structure ExportCall.Onward (call : ExportCall) : Prop where
  onward : call.since = none
  now_whole : call.now % second = 0
  lag_whole : call.lagMargin % second = 0

/-- The results tile a range, and the lake holds one file for each of them that
was not skipped, and no other file. -/
structure Covers (lake : Path → Option LakeFile) (results : List WindowResult)
    (start upTo : Int) : Prop where
  tiles : Tiles ExportWindow.start ExportWindow.end_ (results.map (·.window)) start upTo
  whole : ∀ result ∈ results, result.window.end_ % second = 0
  within_day : ∀ result ∈ results, result.window.WithinDay
  sound : ∀ path file, lake path = some file → ∃ result ∈ results,
    result.skipped = false ∧ result.window = file.window ∧ path = filePath file.window
  complete : ∀ result ∈ results, result.skipped = false →
    ∃ file, lake (filePath result.window) = some file ∧ file.window = result.window

structure Settled (view : View) (start upTo : Int) : Prop where
  covers : Covers view.lake view.passed start upTo
  behind : ∀ watermark ∈ view.watermarks, watermark ≤ upTo
  reached : view.watermarks = [] ∧ view.passed = [] ∨ upTo ∈ view.watermarks

section
variable {lake : Path → Option LakeFile} {results : List WindowResult} {start upTo : Int}

theorem Covers.empty (start : Int) : Covers (fun _ => none) [] start start :=
  ⟨rfl, by simp, by simp, by simp, by simp⟩

theorem Covers.extend {result : WindowResult} {extended : Path → Option LakeFile}
    (covers : Covers lake results start upTo)
    (next : result.window.start = upTo) (whole : result.window.end_ % second = 0)
    (today : result.window.WithinDay)
    (sound : ∀ path file, extended path = some file → lake path = some file ∨
      result.skipped = false ∧ result.window = file.window ∧ path = filePath file.window)
    (kept : ∀ earlier ∈ results, extended (filePath earlier.window) =
      lake (filePath earlier.window))
    (complete : result.skipped = false →
      ∃ file, extended (filePath result.window) = some file ∧ file.window = result.window) :
    Covers extended (results ++ [result]) start result.window.end_ := by
  refine ⟨?_, ?_, ?_, ?_, ?_⟩
  · rw [List.map_append]
    exact tiles_snoc covers.tiles next result.window.nonempty
  · exact List.forall_mem_append.mpr ⟨covers.whole, List.forall_mem_singleton.mpr whole⟩
  · exact List.forall_mem_append.mpr ⟨covers.within_day, List.forall_mem_singleton.mpr today⟩
  · intro path file held
    cases sound path file held with
    | inl old =>
      obtain ⟨earlier, member, rest⟩ := covers.sound path file old
      exact ⟨earlier, by simp [member], rest⟩
    | inr new => exact ⟨result, by simp, new⟩
  · intro earlier member exported
    cases List.mem_append.mp member with
    | inl old =>
      rw [kept earlier old]
      exact covers.complete earlier old exported
    | inr new =>
      obtain rfl := List.mem_singleton.mp new
      exact complete exported

theorem Covers.other_path {window : ExportWindow} (covers : Covers lake results start upTo)
    (next : window.start = upTo) (whole : window.end_ % second = 0) {earlier : WindowResult}
    (member : earlier ∈ results) : filePath earlier.window ≠ filePath window := by
  intro same
  obtain ⟨_, ends⟩ := filePath_inj same
  rw [floorSecond_of_whole (covers.whole earlier member), floorSecond_of_whole whole] at ends
  have before := (tiles_bounds covers.tiles (List.mem_map_of_mem member)).2.2
  have proper := window.nonempty
  omega

theorem Covers.skip {result : WindowResult} (covers : Covers lake results start upTo)
    (next : result.window.start = upTo) (whole : result.window.end_ % second = 0)
    (today : result.window.WithinDay) (skipped : result.skipped = true) :
    Covers lake (results ++ [result]) start result.window.end_ :=
  covers.extend next whole today (fun _ _ held => .inl held) (fun _ _ => rfl) (by simp [skipped])

theorem Covers.publish {result : WindowResult} {rows : List SpanRow}
    (covers : Covers lake results start upTo)
    (next : result.window.start = upTo) (whole : result.window.end_ % second = 0)
    (today : result.window.WithinDay) (exported : result.skipped = false) :
    Covers (Function.update lake (filePath result.window) (some ⟨result.window, rows⟩))
      (results ++ [result]) start result.window.end_ := by
  refine covers.extend next whole today ?_ ?_ ?_
  · intro path file held
    rw [Function.update_apply] at held
    split at held
    case isTrue here =>
      obtain rfl := Option.some.inj held
      exact .inr ⟨exported, rfl, here⟩
    case isFalse => exact .inl held
  · intro earlier member
    exact Function.update_of_ne (covers.other_path next whole member) _ _
  · exact fun _ => ⟨_, Function.update_self _ _ _, rfl⟩

end

theorem Covers.disjoint (covers : Covers lake results start upTo) {p q : Path} {f g : LakeFile}
    (first : lake p = some f) (second : lake q = some g) (different : p ≠ q) :
    f.window.end_ ≤ g.window.start ∨ g.window.end_ ≤ f.window.start := by
  obtain ⟨r, hr, _, fromR, rfl⟩ := covers.sound p f first
  obtain ⟨s, hs, _, fromS, rfl⟩ := covers.sound q g second
  have apart := tiles_separate covers.tiles (List.mem_map_of_mem hr) (List.mem_map_of_mem hs)
  rw [fromR, fromS] at apart
  exact apart.resolve_left fun same => different (congrArg filePath same)

theorem Covers.file_within_day (covers : Covers lake results start upTo)
    (held : lake path = some file) : file.window.WithinDay := by
  obtain ⟨r, member, _, same, _⟩ := covers.sound path file held
  exact same ▸ covers.within_day r member

theorem Settled.pass {view : View} (settled : Settled view start upTo)
    (moved : WindowMoves window answers moves) (next : window.start = upTo)
    (whole : window.end_ % second = 0) (today : window.WithinDay) :
    Settled (view.run moves) start window.end_ := by
  have proper := window.nonempty
  have stored : floorSecond window.end_ = window.end_ := floorSecond_of_whole whole
  have behind : ∀ watermark ∈ floorSecond window.end_ :: view.watermarks,
      watermark ≤ window.end_ := by
    intro watermark member
    rcases List.mem_cons.mp member with rfl | earlier
    · exact stored.le
    · have := settled.behind watermark earlier
      omega
  have marks := moved.watermarks view
  refine ⟨?_, marks ▸ behind, .inr (by simp [marks, stored])⟩
  cases moved with
  | skip skips =>
    obtain ⟨rfl, skipped, _⟩ := skips
    simp only [View.run_cons, View.run_nil, View.move]
    exact settled.covers.skip next whole today skipped
  | commit commits =>
    obtain ⟨rfl, exported, _⟩ := commits
    simp only [View.run_cons, View.run_nil, View.move]
    exact settled.covers.publish next whole today exported

/-- Every point of the loop covers a range; a settled one, up to its watermark. -/
theorem Settled.loop {view : View} (settled : Settled view start upTo)
    (point : LoopPoint answers quiet windows moves)
    (tiles : Tiles ExportWindow.start ExportWindow.end_ windows upTo stop)
    (whole : ∀ window ∈ windows, window.end_ % second = 0)
    (today : ∀ window ∈ windows, window.WithinDay) :
    (∃ results reached, Covers (view.run moves).lake results start reached) ∧
      (quiet = true → ∃ reached, Settled (view.run moves) start reached) := by
  induction point generalizing view upTo with
  | stop => exact ⟨⟨_, _, settled.covers⟩, fun _ => ⟨_, settled⟩⟩
  | unsettled commits =>
    obtain ⟨next, _, _⟩ := tiles
    obtain ⟨rfl, exported, _⟩ := commits
    simp only [View.run_cons, View.run_nil, View.move]
    exact ⟨⟨_, _, settled.covers.publish next (whole _ (by simp)) (today _ (by simp)) exported⟩,
      by simp⟩
  | cons moved rest ih =>
    obtain ⟨next, _, tiles⟩ := tiles
    rw [View.run_append]
    exact ih (settled.pass moved next (whole _ (by simp)) (today _ (by simp))) tiles
      (fun window member => whole window (by simp [member]))
      (fun window member => today window (by simp [member]))

/-- The state between two calls: nothing yet, or a covered range from the first
start to the watermark. -/
def Exported (first : Option Int) (view : View) : Prop :=
  match first with
  | none => view = View.initial
  | some start => ∃ watermark, view.watermarks.max? = some watermark ∧ Settled view start watermark

theorem Settled.newest {view : View} (settled : Settled view start upTo) :
    view = View.initial ∨ view.watermarks.max? = some upTo := by
  rcases settled.reached with ⟨unmarked, unpassed⟩ | marked
  · refine .inl (View.ext (funext fun path => ?_) unmarked unpassed)
    cases held : view.lake path with
    | none => rfl
    | some file =>
      obtain ⟨result, member, _⟩ := settled.covers.sound path file held
      simp [unpassed] at member
  · exact .inr (List.max?_eq_some_iff.mpr ⟨marked, settled.behind⟩)

theorem Exported.covers {view : View} (exported : Exported first view) :
    ∃ start results reached, Covers view.lake results start reached := by
  cases first with
  | none =>
    obtain rfl : view = View.initial := exported
    exact ⟨0, [], 0, .empty 0⟩
  | some start =>
    obtain ⟨watermark, _, settled⟩ := exported
    exact ⟨start, _, watermark, settled.covers⟩

theorem Exported.unmarked {view : View} (exported : Exported first view)
    (unmarked : view.watermarks = []) : first = none := by
  cases first with
  | none => rfl
  | some start =>
    obtain ⟨watermark, newest, _⟩ := exported
    simp [unmarked] at newest

theorem startOfWriter_unmarked {tier : Tier} {call : ExportCall}
    (unmarked : (tier.step call).view.watermarks = []) : startOfWriter tier call = none := by
  have unread : (tier.step call).readWatermark = none := List.max?_eq_none_iff.mpr unmarked
  simp only [startOfWriter, unread]

theorem Exported.start_settled {call : ExportCall} {view : View} {start : Int}
    (exported : Exported first view) (onward : call.since = none)
    (found : call.start (call.watermark view) = .ok (some start)) :
    ∃ oldest, first.or (some start) = some oldest ∧ Settled view oldest start := by
  rw [ExportCall.watermark_read view onward] at found
  cases first with
  | none =>
    obtain rfl : view = View.initial := exported
    exact ⟨start, rfl, .empty start, by simp [View.initial], .inl ⟨rfl, rfl⟩⟩
  | some oldest =>
    obtain ⟨watermark, newest, settled⟩ := exported
    rw [newest] at found
    obtain rfl : watermark = start := by simpa [ExportCall.start] using found
    exact ⟨oldest, rfl, settled⟩

theorem Exported.idle {tier : Tier} {call : ExportCall} (exported : Exported first tier.view)
    (idle : (tier.step call).view = tier.view) :
    Exported (first.or (startOfWriter tier call)) (tier.step call).view := by
  cases first with
  | none =>
    have unmarked : (tier.step call).view.watermarks = [] := by
      rw [idle, show tier.view = View.initial from exported]
      rfl
    rw [startOfWriter_unmarked unmarked, idle]
    exact exported
  | some start => exact idle ▸ exported

/-- A call keeps the covered range wherever it stops; where it is settled, the
range ends at the watermark again. -/
theorem Exported.step {tier : Tier} {call : ExportCall} (exported : Exported first tier.view)
    (onward : call.Onward) :
    (∃ start results reached, Covers (tier.step call).view.lake results start reached) ∧
      (endsWithRename (tier.executed call) = false →
        Exported (first.or (startOfWriter tier call)) (tier.step call).view) := by
  obtain ⟨quiet, moves, point, seen, ends⟩ := tier.step_point call
  have still (idle : (tier.step call).view = tier.view) :=
    And.intro (idle ▸ exported.covers) fun _ : endsWithRename (tier.executed call) = false =>
      exported.idle idle
  have direct : call.rewinds = [] := by rw [ExportCall.rewinds, onward.onward]
  cases point with
  | early begun =>
    rw [direct] at begun
    obtain rfl := List.prefix_nil.mp begun
    exact still seen
  | @loop _ moves point =>
    rw [direct, List.nil_append] at seen
    rcases call.planned_plan tier.view with nothing | ⟨start, stop, found, plan⟩
    · rw [nothing] at point
      cases point with
      | stop => exact still seen
    · obtain ⟨oldest, known, settled⟩ := exported.start_settled onward.onward found
      have whole : ∀ window ∈ call.planned tier.view, window.end_ % second = 0 := by
        intro window member
        have horizon : call.horizon % second = 0 := by
          rw [ExportCall.horizon, Int.sub_emod, onward.now_whole, onward.lag_whole]
          rfl
        exact (plan.whole_ends rfl window member).elim id fun last => last ▸ horizon
      obtain ⟨⟨results, reached, covers⟩, quietly⟩ :=
        settled.loop point plan.tiles whole plan.within_day
      rw [← seen] at covers quietly
      refine ⟨⟨oldest, results, reached, covers⟩, fun unbroken => ?_⟩
      have quiet : quiet = true := by
        by_contra broken
        simp [ends (by simpa using broken)] at unbroken
      obtain ⟨reached, settled⟩ := quietly quiet
      cases settled.newest with
      | inl initial =>
        -- Nothing was passed, so nothing had been passed before either.
        obtain ⟨fresh, marks, _⟩ := point.watermarks tier.view
        rw [← seen, initial] at marks
        obtain ⟨_, before⟩ := List.append_eq_nil_iff.mp marks.symm
        obtain rfl := exported.unmarked before
        rw [startOfWriter_unmarked (by rw [initial]; rfl)]
        exact initial
      | inr newest =>
        have started : startOfWriter tier call = some start := by
          rw [ExportCall.watermark_read tier.view onward.onward] at found
          have read : (tier.step call).readWatermark = some reached := newest
          simp only [startOfWriter, read]
          rw [show tier.readWatermark = tier.view.watermarks.max? from rfl, found]
        rw [started, known]
        exact ⟨reached, newest, settled⟩

theorem Exported.steps {tier : Tier} {calls : List ExportCall} (exported : Exported first tier.view)
    (onward : ∀ call ∈ calls, call.Onward) (settled : SettledRun tier calls) :
    Exported (first.or (firstStart tier calls)) (tier.steps calls).view := by
  induction calls generalizing tier first with
  | nil => simpa [firstStart, Tier.steps] using exported
  | cons call rest ih =>
    obtain ⟨unbroken, later⟩ := settled
    have next := (exported.step (onward call (by simp))).2 unbroken
    rw [firstStart, ← Option.or_assoc]
    exact ih next (fun call member => onward call (by simp [member])) later

/-- The committed windows and the windows passed as skipped tile exactly the range
from the first start to the watermark. -/
def TilesToWatermark (first : Option Int) (tier : Tier) : Prop :=
  match first with
  | none => tier.readWatermark = none ∧ ∀ path, tier.view.lake path = none
  | some start => ∃ watermark, tier.readWatermark = some watermark ∧
      Tiles ExportWindow.start ExportWindow.end_ (tier.passed.map (·.window)) start watermark ∧
      ∀ window, (∃ path file, tier.view.lake path = some file ∧ file.window = window) ↔
        ∃ result ∈ tier.passed, result.skipped = false ∧ result.window = window

theorem Exported.tiles {tier : Tier} (exported : Exported first tier.view) :
    TilesToWatermark first tier := by
  cases first with
  | none =>
    have initial : tier.view = View.initial := exported
    refine ⟨List.max?_eq_none_iff.mpr ?_, fun path => by rw [initial]; rfl⟩
    exact congrArg View.watermarks initial
  | some start =>
    obtain ⟨watermark, newest, settled⟩ := exported
    refine ⟨watermark, newest, settled.covers.tiles, fun window => ?_⟩
    constructor
    · rintro ⟨path, file, held, rfl⟩
      obtain ⟨result, member, committed, same, _⟩ := settled.covers.sound path file held
      exact ⟨result, member, committed, same⟩
    · rintro ⟨result, member, committed, rfl⟩
      obtain ⟨file, held, same⟩ := settled.covers.complete result member committed
      exact ⟨_, file, held, same⟩

/-- At every point of every history of onward calls the committed windows are
disjoint and within a day. At every point but those between a rename and its
watermark they and the skipped windows tile the range up to the watermark. -/
theorem exported_once_without_gaps {calls : List ExportCall} {last : ExportCall}
    (onward : ∀ call ∈ calls ++ [last], call.Onward) (settled : SettledRun .initial calls) :
    let before := Tier.initial.steps calls
    let tier := before.step last
    (∀ p q f g, tier.view.lake p = some f → tier.view.lake q = some g → p ≠ q →
      f.window.end_ ≤ g.window.start ∨ g.window.end_ ≤ f.window.start) ∧
    (∀ path file, tier.view.lake path = some file → file.window.WithinDay) ∧
    (endsWithRename (before.executed last) = false →
      TilesToWatermark (firstStart .initial (calls ++ [last])) tier) := by
  intro before tier
  have exported : Exported (firstStart .initial calls) before.view := by
    have start : Exported none Tier.initial.view := Tier.initial_view
    simpa using start.steps (fun call member => onward call (by simp [member])) settled
  obtain ⟨⟨start, results, reached, covers⟩, quietly⟩ := exported.step (onward last (by simp))
  refine ⟨fun p q f g => covers.disjoint, fun path file => covers.file_within_day, ?_⟩
  intro unbroken
  rw [firstStart_snoc]
  exact (quietly unbroken).tiles

/-- A call over a hot tier that holds one row at ten past midnight. -/
def tenPast (now : Int) : ExportCall where
  now := now
  oldest := .ok (Server.deployed.minTs [{ ts := 600000 }])
  answers := Server.deployed.answers [{ ts := 600000 }]

/-- A first call exports up to its horizon, a second one from there on. -/
theorem exported_once_two_calls :
    TilesToWatermark (firstStart .initial ([tenPast (20 * minute)] ++ [tenPast (2 * hour)]))
      ((Tier.initial.steps [tenPast (20 * minute)]).step (tenPast (2 * hour))) :=
  have onward : ∀ call ∈ [tenPast (20 * minute)] ++ [tenPast (2 * hour)], call.Onward := by
    simp only [List.mem_append, List.mem_singleton]
    rintro call (rfl | rfl) <;> exact ⟨rfl, by decide, by decide⟩
  have settled : SettledRun .initial [tenPast (20 * minute)] := ⟨by decide +kernel, trivial⟩
  (exported_once_without_gaps onward settled).2.2 (by decide +kernel)

end TelemetryEngine.ColdTier
