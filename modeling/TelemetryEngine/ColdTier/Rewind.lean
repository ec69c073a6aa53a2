import TelemetryEngine.ColdTier.Retry

/-! Calls that rewind the watermark over a hot tier at rest. The windows from the
rewound start on are written again; a file of an earlier plan survives beside
them unless one of them has its very path. -/
namespace TelemetryEngine.ColdTier
open Foundation Foundation.Calendar Foundation.Tiling

/-- Every answer of the call is given, and comes from these rows. -/
structure Undisturbed (server : Server) (rows : List SpanRow) (call : ExportCall) : Prop where
  answers : call.answers = server.answers rows
  uncut : call.cut = none

def FromHot (rows : List SpanRow) (lake : Path → Option LakeFile) : Prop :=
  ∀ path file, lake path = some file → ∀ row ∈ file.rows, row ∈ rows

/-- The lake after some windows were exported: the file of each window that has
rows, and every other file as before. -/
structure Republished (server : Server) (rows : List SpanRow) (windows : List ExportWindow)
    (before after : Path → Option LakeFile) : Prop where
  published : ∀ window ∈ windows, server.select rows window ≠ [] →
    ∃ held, after (filePath window) = some ⟨window, held⟩ ∧ held.Perm (server.select rows window)
  kept : ∀ path, (∀ window ∈ windows, server.select rows window ≠ [] → path ≠ filePath window) →
    after path = before path

section
variable {server : Server} {rows : List SpanRow}

theorem LoopRun.republished (view : View) (run : LoopRun (server.answers rows) windows moves)
    (apart : windows.Pairwise fun v w => filePath v ≠ filePath w) :
    Republished server rows windows view.lake (view.run moves).lake := by
  induction run generalizing view with
  | nil => exact ⟨by simp, fun _ _ => rfl⟩
  | @cons window first rest moves moved _ ih =>
    obtain ⟨own, apart⟩ := List.pairwise_cons.mp apart
    have later := ih (view.run first) apart
    rw [View.run_append]
    have truthful := answers_truthful server rows window
    rcases moved.lake view with ⟨⟨_, skips⟩, lake⟩ | ⟨verifies, lake⟩
    · have empty := truthful.skips skips
      refine ⟨?_, fun path other => ?_⟩
      · intro w member some
        rcases List.mem_cons.mp member with rfl | member
        · exact absurd empty some
        · exact later.published w member some
      · rw [later.kept path fun w member => other w (by simp [member]), lake]
    · have same := truthful.verifies verifies
      refine ⟨?_, fun path other => ?_⟩
      · intro w member some
        rcases List.mem_cons.mp member with rfl | member
        · refine ⟨_, ?_, same⟩
          rw [later.kept _ fun v inside _ => own v inside, lake, Function.update_self]
        · exact later.published w member some
      · have some : server.select rows window ≠ [] := fun none => by
          rw [none] at same
          exact verifies.nonempty same.eq_nil
        rw [later.kept path fun w member => other w (by simp [member]), lake,
          Function.update_of_ne (other window (by simp) some)]

theorem LoopRun.watermarks (view : View) (run : LoopRun answers windows moves) :
    (view.run moves).watermarks =
      (windows.map (floorSecond ·.end_)).reverse ++ view.watermarks := by
  induction run generalizing view with
  | nil => rfl
  | cons moved _ ih =>
    rw [View.run_append, ih, moved.watermarks view, List.map_cons, List.reverse_cons, List.append_assoc,
      List.singleton_append]

theorem FromHot.step {tier : Tier} {call : ExportCall} (hot : FromHot rows tier.view.lake)
    (truthful : ∀ window, Truthful server rows window (call.answers window)) :
    FromHot rows (tier.step call).view.lake := by
  refine Tier.lake_invariant (fun lake window _ verifies hot path file held row member => ?_) hot
  rw [Function.update_apply] at held
  split at held
  case isTrue =>
    obtain rfl := Option.some.inj held
    have selected := ((truthful window).verifies verifies).mem_iff.mp member
    exact (mem_select.mp selected).1
  case isFalse => exact hot path file held row member

theorem FromHot.steps {tier : Tier} {calls : List ExportCall} (hot : FromHot rows tier.view.lake)
    (truthful : ∀ call ∈ calls, ∀ window, Truthful server rows window (call.answers window)) :
    FromHot rows (tier.steps calls).view.lake := by
  induction calls generalizing tier with
  | nil => exact hot
  | cons call rest ih =>
    exact ih (hot.step (truthful call (by simp))) fun call member => truthful call (by simp [member])

theorem FromHot.initial : FromHot rows Tier.initial.view.lake := by
  rw [Tier.initial_view]
  intro path file held
  cases held

end

/-- The instant up to which a plan goes, as the watermark table stores it. -/
def planEnd (start : Int) (windows : List ExportWindow) : Int :=
  floorSecond ((windows.getLast?.map (·.end_)).getD start)

theorem planEnd_max {start stop horizon : Int} {windows : List ExportWindow}
    (plan : Plan hour start stop horizon windows) (whole : floorSecond start = start) :
    ((windows.map (floorSecond ·.end_)).reverse ++ [start]).max? = some (planEnd start windows) := by
  rw [List.max?_eq_some_iff]
  have ends := tiles_stop plan.tiles
  have below {t : Int} (ordered : t ≤ stop) : floorSecond t ≤ floorSecond stop :=
    floorTo_mono (by decide) ordered
  constructor
  · unfold planEnd
    cases last : windows.getLast? with
    | none => simp [whole]
    | some w =>
      refine List.mem_append_left _ (List.mem_reverse.mpr ?_)
      exact List.mem_map.mpr ⟨w, List.mem_of_getLast? last, rfl⟩
  · intro mark member
    rw [planEnd, ← ends]
    cases List.mem_append.mp member with
    | inl inside =>
      obtain ⟨w, found, rfl⟩ := List.mem_map.mp (List.mem_reverse.mp inside)
      exact below (tiles_bounds plan.tiles found).2.2
    | inr first =>
      obtain rfl := List.mem_singleton.mp first
      exact whole.ge.trans (below (tiles_le plan.tiles))

theorem planned_since {call : ExportCall} {since : Int} (back : call.since = some since) (view : View) :
    ∃ stop, Plan hour (floorSecond since) stop call.horizon (call.planned view) ∧
      planEnd (floorSecond since) (call.planned view) = floorSecond stop := by
  have start : call.start (call.watermark view) = .ok (some (floorSecond since)) := by
    rw [ExportCall.watermark_since view back]
    rfl
  rcases call.planned_plan view with nothing | ⟨start', stop, found, plan⟩
  · exact ⟨floorSecond since, nothing ▸ .nil _ _ rfl, by simp [planEnd, nothing]⟩
  · rw [start] at found
    obtain rfl : floorSecond since = start' := by simpa using found
    exact ⟨stop, plan, by rw [planEnd, ← tiles_stop plan.tiles]⟩

/-- A completed rewinding call publishes its windows and ends at its plan's end. -/
theorem Tier.step_rewind {server : Server} {rows : List SpanRow} {call : ExportCall} {since : Int}
    (tier : Tier) (back : call.since = some since) (undisturbed : Undisturbed server rows call) :
    Republished server rows (call.planned tier.view) tier.view.lake (tier.step call).view.lake ∧
      (tier.step call).readWatermark = some (planEnd (floorSecond since) (call.planned tier.view)) := by
  have passes : ∀ window ∈ call.planned tier.view, Passes window (call.answers window) :=
    fun window _ => undisturbed.answers ▸ answers_passes server rows window
  obtain ⟨moves, run, seen⟩ := tier.step_run undisturbed.uncut passes
  obtain ⟨stop, plan, ends⟩ := planned_since back tier.view
  rw [undisturbed.answers] at run
  have lake : (tier.view.run call.rewinds).lake = tier.view.lake :=
    ExportCall.rewinds_lake _ List.prefix_rfl
  constructor
  · rw [seen, View.run_append, ← lake]
    exact run.republished _ plan.paths_once
  · have read : (tier.step call).readWatermark = (tier.step call).view.watermarks.max? := rfl
    have rewound : (tier.view.run call.rewinds).watermarks = [floorSecond since] := by
      simp [ExportCall.rewinds, back, View.move]
    rw [read, seen, View.run_append, run.watermarks _, rewound]
    exact planEnd_max plan (floorTo_of_dvd floorTo_emod)

/-- After a rewind, every row from `since` to the new watermark is in exactly one
file, exactly when every older file with such a row has the path of a planned
window that has rows. -/
theorem rewind_exactly_once_iff (server : Server) {rows : List SpanRow} {calls : List ExportCall}
    {call : ExportCall} {since : Int}
    (truthful : ∀ call ∈ calls, ∀ window, Truthful server rows window (call.answers window))
    (back : call.since = some since) (undisturbed : Undisturbed server rows call) :
    let before := Tier.initial.steps calls
    let planned := call.planned before.view
    let newWatermark := planEnd (floorSecond since) planned
    (before.step call).readWatermark = some newWatermark ∧
    ((∀ row ∈ rows, since ≤ row.time → row.time < newWatermark →
        ∃! path, ∃ file, (before.step call).view.lake path = some file ∧ row ∈ file.rows) ↔
      ∀ path file, before.view.lake path = some file →
        (∃ row ∈ file.rows, since ≤ row.time ∧ row.time < newWatermark) →
        ∃ window ∈ planned, server.select rows window ≠ [] ∧ path = filePath window) := by
  intro before planned newWatermark
  obtain ⟨republished, watermark⟩ := before.step_rewind back undisturbed
  obtain ⟨stop, plan, ends⟩ := planned_since back before.view
  have hot : FromHot rows before.view.lake := FromHot.initial.steps truthful
  -- Every row of the range is written to the file of one planned window.
  have exported : ∀ row ∈ rows, since ≤ row.time → row.time < newWatermark →
      ∃ w ∈ planned, server.between w.start w.end_ row = true ∧ server.select rows w ≠ [] ∧
        ∃ file, (before.step call).view.lake (filePath w) = some file ∧ row ∈ file.rows := by
    intro row member after early
    have start : floorSecond since ≤ row.time := (floorSecond_le since).trans after
    obtain ⟨w, hw, selected⟩ := plan.select_all server start (ends ▸ early)
    have inside : row ∈ server.select rows w := List.mem_filter.mpr ⟨member, selected⟩
    have some := List.ne_nil_of_mem inside
    obtain ⟨held, found, same⟩ := republished.published w hw some
    exact ⟨w, hw, selected, some, _, found, same.mem_iff.mpr inside⟩
  refine ⟨watermark, ?_, ?_⟩
  · rintro unique path file held ⟨row, member, after, early⟩
    by_contra! elsewhere
    have same : (before.step call).view.lake path = some file :=
      (republished.kept path elsewhere).trans held
    have present := hot path file held row member
    obtain ⟨w, hw, _, some, found⟩ := exported row present after early
    have path_eq := (unique row present after early).unique ⟨file, same, member⟩ found
    exact elsewhere w hw some path_eq
  · intro owned row member after early
    obtain ⟨w, hw, selected, some, found⟩ := exported row member after early
    refine ⟨filePath w, found, ?_⟩
    rintro path ⟨file, held, inside⟩
    by_cases new : ∃ v ∈ planned, server.select rows v ≠ [] ∧ path = filePath v
    · obtain ⟨v, hv, someV, rfl⟩ := new
      obtain ⟨rowsV, foundV, sameV⟩ := republished.published v hv someV
      obtain rfl := Option.some.inj (foundV.symm.trans held)
      have selectedV := (List.mem_filter.mp (sameV.mem_iff.mp inside)).2
      rw [plan.select_unique server hv hw selectedV selected]
    · push Not at new
      have old := (republished.kept path new).symm.trans held
      obtain ⟨v, hv, someV, own⟩ := owned path file old ⟨row, inside, after, early⟩
      exact absurd own (new v hv someV)

/-- A call over the one row at ten past midnight that rewinds to that row. -/
def rewindCall (now : Int) : ExportCall := { tenPast now with since := some (10 * minute) }

theorem tenPast_truthful : ∀ call ∈ [tenPast (20 * minute)], ∀ window,
    Truthful .deployed [{ ts := 600000 }] window (call.answers window) := by
  intro call member window
  obtain rfl := List.mem_singleton.mp member
  exact answers_truthful _ _ window

/-- Rewound at the time of the first call, the plan is the same and so is the file. -/
theorem rewind_exactly_once_same_clock :
    ∃! path, ∃ file, ((Tier.initial.steps [tenPast (20 * minute)]).step
      (rewindCall (20 * minute))).view.lake path = some file ∧ { ts := 600000 } ∈ file.rows := by
  have keys : (Tier.initial.steps [tenPast (20 * minute)]).files.keys = [filePath shortWindow] := by
    decide +kernel
  have planned : (rewindCall (20 * minute)).planned (Tier.initial.steps [tenPast (20 * minute)]).view =
      [shortWindow] := by
    decide +kernel
  have exact_once := (@rewind_exactly_once_iff .deployed _ _ (rewindCall (20 * minute))
    (10 * minute) tenPast_truthful rfl ⟨rfl, rfl⟩).2
  refine exact_once.mpr ?_ { ts := 600000 } (by simp) (by decide) (by rw [planned]; decide +kernel)
  intro path file held _
  have key := Tier.view_lake_mem held
  rw [keys, List.mem_singleton] at key
  exact ⟨shortWindow, by rw [planned]; simp, by decide +kernel, key⟩

/-- Rewound later, to the very start of a committed window, it leaves the row in
two files. -/
theorem rewind_duplicates :
    let before := Tier.initial.steps [tenPast (20 * minute)]
    let after := before.step (rewindCall (2 * hour))
    before.readWatermark = some (15 * minute) ∧ after.readWatermark = some (115 * minute) ∧
      ¬ ∃! path, ∃ file, after.view.lake path = some file ∧ { ts := 600000 } ∈ file.rows := by
  refine ⟨by decide +kernel, by decide +kernel, ?_⟩
  intro once
  have same : filePath shortWindow = filePath longWindow := once.unique
    ⟨⟨shortWindow, [{ ts := 600000 }]⟩, by decide +kernel, by simp⟩
    ⟨⟨longWindow, [{ ts := 600000 }]⟩, by decide +kernel, by simp⟩
  exact absurd same (by decide +kernel)

end TelemetryEngine.ColdTier
