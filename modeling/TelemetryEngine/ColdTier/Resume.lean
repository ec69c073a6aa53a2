import TelemetryEngine.Foundation.Resumption
import TelemetryEngine.ColdTier.Rewind

/-! Calls at one clock over a hot tier at rest. Each may be killed anywhere or be limited
by `max_windows`; the one that gets through leaves what a single call would have left. -/
namespace TelemetryEngine.ColdTier
open Foundation.Calendar Foundation.Tiling Foundation.Resumption

/-! ### The windows still to export -/

section
variable {window horizon cursor : Int}

theorem planLoop_fuel {fuel : Nat} (more : Nat) (enough : (horizon - cursor).toNat ≤ fuel)
    (enough' : (horizon - cursor).toNat ≤ more) :
    planLoop window horizon fuel cursor = planLoop window horizon more cursor := by
  induction fuel generalizing cursor more with
  | zero =>
    cases more with
    | zero => rfl
    | succ more => simp only [planLoop, if_neg (show ¬ cursor < horizon by omega)]
  | succ fuel ih =>
    cases more with
    | zero => simp only [planLoop, if_neg (show ¬ cursor < horizon by omega)]
    | succ more =>
      simp only [planLoop]
      split
      · split
        · rfl
        · rw [@ih (windowEnd window horizon cursor) more (by omega) (by omega)]
      · rfl

end

/-- A plan from the end of its first window is the rest of it. -/
theorem planWindows_rest {start now lagMargin : Int} {window : ExportWindow}
    {rest : List ExportWindow}
    (made : planWindows start now hour lagMargin = .ok (window :: rest)) :
    planWindows window.end_ now hour lagMargin = .ok rest := by
  unfold planWindows at made ⊢
  cases range : (now - lagMargin - start).toNat with
  | zero => simp [range, planLoop] at made
  | succ fuel =>
    rw [range] at made
    by_cases before : start < now - lagMargin
    · obtain ⟨later, within, _⟩ := windowEnd_bounds (show 0 < hour by decide) before
      obtain ⟨head, new, _, end_, _⟩ := new_windowEnd (show 0 < hour by decide) before
      simp only [planLoop, if_pos before, if_neg (not_le.mpr later), new] at made
      cases looped : planLoop hour (now - lagMargin) fuel (windowEnd hour (now - lagMargin) start) with
      | error e => simp [looped, bind, Except.bind] at made
      | ok windows =>
        obtain ⟨rfl, rfl⟩ : head = window ∧ windows = rest := by
          simpa [looped, bind, Except.bind, pure, Except.pure] using made
        rw [end_, planLoop_fuel fuel le_rfl (by omega), looped]
    · simp [planLoop, before] at made

/-- What a call at a clock plans when nothing limits it. -/
def remaining (now lagMargin : Int) (oldest : Option Int) (view : View) : List ExportWindow :=
  match view.watermarks.max?.or oldest with
  | some start =>
    match planWindows start now defaultWindow lagMargin with
    | .ok windows => windows
    | .error _ => []
  | none => []

def target (now lagMargin : Int) (oldest : Option Int) (view : View) : Option Int :=
  ((remaining now lagMargin oldest view).getLast?.map (·.end_)).or view.watermarks.max?

/-- A call at a clock, over rows that rest. -/
structure AtClock (server : Server) (rows : List SpanRow) (now lagMargin : Int) (call : ExportCall) :
    Prop where
  clock : call.now = now
  margin : call.lagMargin = lagMargin
  onward : call.since = none
  oldest : call.oldest = .ok (server.minTs rows)
  answers : call.answers = server.answers rows

def publish (server : Server) (rows : List SpanRow) (lake : Path → Option LakeFile)
    (window : ExportWindow) : Path → Option LakeFile :=
  if server.select rows window = [] then lake
  else Function.update lake (filePath window) (some ⟨window, (server.answers rows window).file⟩)

section
variable {server : Server} {rows : List SpanRow} {now lagMargin : Int} {call : ExportCall}

theorem publish_again (lake : Path → Option LakeFile) (window : ExportWindow) :
    publish server rows (publish server rows lake window) window =
      publish server rows lake window := by
  unfold publish
  split
  · rfl
  · exact Function.update_idem _ _ _

theorem AtClock.planned (atClock : AtClock server rows now lagMargin call) (view : View) :
    call.planned view =
      truncateWindows call.maxWindows (remaining now lagMargin (server.minTs rows) view) := by
  have none (limit : Option Int) : truncateWindows limit [] = [] :=
    List.prefix_nil.mp (truncateWindows_front limit [])
  rw [ExportCall.planned, call.watermark_read view atClock.onward, remaining, atClock.clock,
    atClock.margin]
  cases view.watermarks.max? with
  | some start =>
    simp only [ExportCall.start, Option.some_or]
    cases planWindows start now defaultWindow lagMargin <;> simp [none]
  | none =>
    simp only [ExportCall.start, atClock.oldest, Option.none_or]
    cases server.minTs rows with
    | none => simp [none]
    | some start =>
      simp only
      cases planWindows start now defaultWindow lagMargin <;> simp [none]

theorem publish_skips {answers : WindowAnswers} {result : WindowResult}
    (truthful : Truthful server rows window answers) (skips : Skips window answers result)
    (lake : Path → Option LakeFile) : publish server rows lake window = lake :=
  if_pos (truthful.skips skips)

theorem publish_commits (verifies : Verifies (server.answers rows window))
    (lake : Path → Option LakeFile) : publish server rows lake window =
      Function.update lake (filePath window) (some ⟨window, (server.answers rows window).file⟩) := by
  refine if_neg fun none => verifies.nonempty ?_
  have same := (answers_truthful server rows window).verifies verifies
  rw [none] at same
  exact same.eq_nil

theorem WindowMoves.publish {view : View}
    (moved : WindowMoves window (server.answers rows window) moves) :
    (view.run moves).lake = publish server rows view.lake window := by
  rcases moved.lake view with ⟨⟨_, skips⟩, lake⟩ | ⟨verifies, lake⟩
  · rw [lake, publish_skips (answers_truthful server rows window) skips]
  · rw [lake, publish_commits verifies]

theorem LoopRun.publish {view : View} (run : LoopRun (server.answers rows) windows moves) :
    (view.run moves).lake = windows.foldl (ColdTier.publish server rows) view.lake := by
  induction run generalizing view with
  | nil => rfl
  | cons moved _ ih => rw [View.run_append, ih, moved.publish, List.foldl_cons]

theorem LoopPoint.progress (view : View)
    (point : LoopPoint (server.answers rows) quiet windows moves) :
    ∃ recorded done, recorded ≤ done ∧ done ≤ recorded + 1 ∧ done ≤ windows.length ∧
      (view.run moves).lake = (windows.take done).foldl (ColdTier.publish server rows) view.lake ∧
      (view.run moves).watermarks =
        ((windows.take recorded).map (floorSecond ·.end_)).reverse ++ view.watermarks := by
  induction point generalizing view with
  | stop => exact ⟨0, 0, by simp⟩
  | @unsettled window _ rest commits =>
    refine ⟨0, 1, by omega, by omega, by simp, ?_, by simp [View.move]⟩
    simp [View.move, publish_commits commits.verifies]
  | @cons window first _ rest moves moved _ ih =>
    obtain ⟨recorded, done, behind, close, inside, lake, marks⟩ := ih (view.run first)
    refine ⟨recorded + 1, done + 1, by omega, by omega, by simpa using inside, ?_, ?_⟩
    · rw [View.run_append, lake, moved.publish, List.take_succ_cons, List.foldl_cons]
    · rw [View.run_append, marks, moved.watermarks view, List.take_succ_cons, List.map_cons,
        List.reverse_cons, List.append_assoc, List.singleton_append]

theorem remaining_plan (now lagMargin : Int) (oldest : Option Int) (view : View) :
    remaining now lagMargin oldest view = [] ∨
      ∃ start stop, view.watermarks.max?.or oldest = some start ∧
        planWindows start now hour lagMargin = .ok (remaining now lagMargin oldest view) ∧
        Plan hour start stop (now - lagMargin) (remaining now lagMargin oldest view) := by
  unfold remaining
  cases begins : view.watermarks.max?.or oldest with
  | none => exact .inl rfl
  | some start =>
    obtain ⟨windows, made, plan⟩ :=
      planWindows_spec (show 0 < defaultWindow by decide) start now lagMargin
    simp only [made]
    exact .inr ⟨start, _, rfl, made, plan⟩

theorem planWindows_drop {start : Int} {windows : List ExportWindow}
    (made : planWindows start now hour lagMargin = .ok windows) (count : ℕ) {last : ExportWindow}
    (final : (windows.take count).getLast? = some last) :
    planWindows last.end_ now hour lagMargin = .ok (windows.drop count) := by
  induction count generalizing start windows with
  | zero => simp at final
  | succ count ih =>
    cases windows with
    | nil => simp at final
    | cons window rest =>
      have later := planWindows_rest made
      rw [List.take_succ_cons, List.getLast?_cons] at final
      cases before : (rest.take count).getLast? with
      | some last' =>
        obtain rfl : last' = last := by simpa [before] using final
        exact ih later before
      | none =>
        obtain rfl : window = last := by simpa [before] using final
        rcases List.take_eq_nil_iff.mp (List.getLast?_eq_none_iff.mp before) with rfl | rfl
        · simpa using later
        · simpa using later

theorem marks_newest {start stop horizon : Int} {windows : List ExportWindow} {marks : List Int}
    (plan : Plan hour start stop horizon windows) (whole : horizon % second = 0)
    (old : ∀ mark ∈ marks, mark ≤ start) :
    ((windows.map (floorSecond ·.end_)).reverse ++ marks).max? =
      (windows.getLast?.map (·.end_)).or marks.max? := by
  have stored (w : ExportWindow) (member : w ∈ windows) : floorSecond w.end_ = w.end_ :=
    floorSecond_of_whole ((plan.whole_ends rfl w member).elim id fun last => last ▸ whole)
  cases final : windows.getLast? with
  | none =>
    rw [List.getLast?_eq_none_iff.mp final]
    rfl
  | some last =>
    have member := List.mem_of_getLast? final
    have ends : stop = last.end_ := by simpa [final] using tiles_stop plan.tiles
    rw [Option.map_some, Option.some_or, List.max?_eq_some_iff]
    constructor
    · refine List.mem_append_left _ (List.mem_reverse.mpr (List.mem_map.mpr ⟨last, member, ?_⟩))
      exact stored last member
    · intro mark among
      have bounds := tiles_bounds plan.tiles member
      rcases List.mem_append.mp among with fresh | earlier
      · obtain ⟨w, inside, rfl⟩ := List.mem_map.mp (List.mem_reverse.mp fresh)
        rw [stored w inside, ← ends]
        exact (tiles_bounds plan.tiles inside).2.2
      · have := old mark earlier
        omega

/-- After the first windows of what remained, the others remain, and the target is the
same. -/
theorem remaining_after {view after : View} {oldest : Option Int} {count : ℕ}
    (whole : (now - lagMargin) % second = 0)
    (marks : after.watermarks = (((remaining now lagMargin oldest view).take count).map
      (floorSecond ·.end_)).reverse ++ view.watermarks) :
    remaining now lagMargin oldest after = (remaining now lagMargin oldest view).drop count ∧
      target now lagMargin oldest after = target now lagMargin oldest view := by
  rcases remaining_plan now lagMargin oldest view with none | ⟨start, stop, begins, made, plan⟩
  · have same : after.watermarks = view.watermarks := by simpa [none] using marks
    have still : remaining now lagMargin oldest after = remaining now lagMargin oldest view := by
      rw [remaining, same, ← remaining]
    rw [target, target, still, same, none, List.drop_nil]
    exact ⟨rfl, rfl⟩
  · have old : ∀ mark ∈ view.watermarks, mark ≤ start := by
      intro mark member
      cases newest : view.watermarks.max? with
      | none => simp [List.max?_eq_none_iff.mp newest] at member
      | some top =>
        obtain rfl : top = start := by simpa [newest] using begins
        exact (List.max?_eq_some_iff.mp newest).2 mark member
    generalize all : remaining now lagMargin oldest view = windows at *
    obtain ⟨_, front⟩ := plan.truncate (List.take_prefix count windows)
    have newest := marks_newest front whole old
    rw [← marks] at newest
    have left : remaining now lagMargin oldest after = windows.drop count := by
      cases final : (windows.take count).getLast? with
      | some last =>
        have later : planWindows last.end_ now defaultWindow lagMargin = .ok (windows.drop count) :=
          planWindows_drop made count final
        rw [remaining, newest, final, Option.map_some, Option.some_or, Option.some_or]
        simp only [later]
      | none =>
        have none_ : windows.drop count = windows := by
          rcases List.take_eq_nil_iff.mp (List.getLast?_eq_none_iff.mp final) with rfl | rfl <;> simp
        have start : planWindows start now defaultWindow lagMargin = .ok windows := made
        rw [remaining, newest, final, Option.map_none, Option.none_or, begins, none_]
        simp only [start]
    refine ⟨left, ?_⟩
    have last : windows.getLast? = (windows.drop count).getLast?.or (windows.take count).getLast? := by
      rw [← List.getLast?_append, List.take_append_drop]
    rw [target, target, left, newest, all, last, Option.map_or, Option.or_assoc]

theorem AtClock.attempt (tier : Tier) (atClock : AtClock server rows now lagMargin call)
    (whole : (now - lagMargin) % second = 0) :
    Attempt (publish server rows) (remaining now lagMargin (server.minTs rows) tier.view)
        tier.view.lake (tier.step call).view.lake
        (remaining now lagMargin (server.minTs rows) (tier.step call).view) ∧
      target now lagMargin (server.minTs rows) (tier.step call).view =
        target now lagMargin (server.minTs rows) tier.view := by
  obtain ⟨quiet, moves, point, seen, _⟩ := tier.step_point call
  have direct : call.rewinds = [] := by rw [ExportCall.rewinds, atClock.onward]
  cases point with
  | early begun =>
    rw [direct] at begun
    obtain rfl := List.prefix_nil.mp begun
    rw [seen]
    exact ⟨.none _ _, rfl⟩
  | loop point =>
    rw [direct, List.nil_append] at seen
    rw [atClock.planned, atClock.answers] at point
    obtain ⟨rest, split⟩ := truncateWindows_front call.maxWindows
      (remaining now lagMargin (server.minTs rows) tier.view)
    generalize truncateWindows call.maxWindows _ = windows at point split
    obtain ⟨recorded, done, behind, close, inside, lake, marks⟩ := point.progress tier.view
    have front (count : ℕ) (few : count ≤ windows.length) : windows.take count =
        (remaining now lagMargin (server.minTs rows) tier.view).take count := by
      rw [← split, List.take_append_of_le_length few]
    rw [front done inside] at lake
    rw [front recorded (behind.trans inside)] at marks
    obtain ⟨left, same⟩ := remaining_after whole marks
    rw [seen]
    refine ⟨⟨recorded, done, behind, close, ?_, lake, left⟩, same⟩
    rw [← split, List.length_append]
    omega

theorem AtClock.complete (tier : Tier) (atClock : AtClock server rows now lagMargin call)
    (whole : (now - lagMargin) % second = 0) (uncut : call.cut = none)
    (unlimited : call.maxWindows = none) :
    (tier.step call).view.lake = (remaining now lagMargin (server.minTs rows) tier.view).foldl
        (publish server rows) tier.view.lake ∧
      (tier.step call).readWatermark = target now lagMargin (server.minTs rows) tier.view := by
  have passes : ∀ window ∈ call.planned tier.view, Passes window (call.answers window) :=
    fun window _ => atClock.answers ▸ answers_passes server rows window
  obtain ⟨moves, run, seen⟩ := tier.step_run uncut passes
  have all : call.planned tier.view = remaining now lagMargin (server.minTs rows) tier.view := by
    rw [atClock.planned, unlimited, truncateWindows]
  have direct : call.rewinds = [] := by rw [ExportCall.rewinds, atClock.onward]
  rw [all, atClock.answers] at run
  rw [direct, List.nil_append] at seen
  have marks := run.watermarks tier.view
  rw [← seen, ← List.take_length (l := remaining now lagMargin (server.minTs rows) tier.view)] at marks
  obtain ⟨left, same⟩ := remaining_after whole marks
  rw [List.drop_length] at left
  refine ⟨by rw [seen, run.publish], ?_⟩
  rw [← same, target, left]
  rfl

theorem AtClock.attempts (tier : Tier) {calls : List ExportCall}
    (atClock : ∀ call ∈ calls, AtClock server rows now lagMargin call)
    (whole : (now - lagMargin) % second = 0) :
    Attempt (publish server rows) (remaining now lagMargin (server.minTs rows) tier.view)
        tier.view.lake (tier.steps calls).view.lake
        (remaining now lagMargin (server.minTs rows) (tier.steps calls).view) ∧
      target now lagMargin (server.minTs rows) (tier.steps calls).view =
        target now lagMargin (server.minTs rows) tier.view := by
  induction calls generalizing tier with
  | nil => exact ⟨.none _ _, rfl⟩
  | cons call rest ih =>
    obtain ⟨own, others⟩ := List.forall_mem_cons.mp atClock
    obtain ⟨here, same⟩ := own.attempt tier whole
    obtain ⟨later, same'⟩ := @ih (tier.step call) others
    exact ⟨here.trans publish_again later, same'.trans same⟩

end

/-- Calls at one clock over rows at rest may be killed anywhere, also between a rename and
its watermark, and limited to any number of windows: once one gets through, the lake and
the watermark are those a single call would have left. -/
theorem resumed_as_one (server : Server) {rows : List SpanRow} {now lagMargin : Int} (tier : Tier)
    {calls : List ExportCall} {last : ExportCall}
    (atClock : ∀ call ∈ calls ++ [last], AtClock server rows now lagMargin call)
    (whole : (now - lagMargin) % second = 0) (uncut : last.cut = none)
    (unlimited : last.maxWindows = none) :
    ((tier.steps calls).step last).view.lake = (tier.step last).view.lake ∧
      ((tier.steps calls).step last).readWatermark = (tier.step last).readWatermark := by
  obtain ⟨attempt, same⟩ := AtClock.attempts tier
    (fun call (member : call ∈ calls) => atClock call (by simp [member])) whole
  have final := atClock last (by simp)
  obtain ⟨lake, mark⟩ := final.complete tier whole uncut unlimited
  obtain ⟨lake', mark'⟩ := final.complete (tier.steps calls) whole uncut unlimited
  rw [lake, lake', mark, mark', same]
  exact ⟨attempt.finish publish_again, rfl⟩

/-- Killed after the rename of its only window, and repeated at that time. -/
theorem resumed_as_one_killed :
    ((Tier.initial.steps [killedCall]).step (tenPast (20 * minute))).view.lake =
        (Tier.initial.step (tenPast (20 * minute))).view.lake ∧
      ((Tier.initial.steps [killedCall]).step (tenPast (20 * minute))).readWatermark =
        (Tier.initial.step (tenPast (20 * minute))).readWatermark := by
  have atClock : ∀ call ∈ [killedCall] ++ [tenPast (20 * minute)],
      AtClock .deployed [{ ts := 600000 }] (20 * minute) defaultLagMargin call := by
    simp only [List.mem_append, List.mem_singleton]
    rintro call (rfl | rfl) <;> exact ⟨rfl, rfl, rfl, rfl, rfl⟩
  exact resumed_as_one .deployed .initial atClock (by decide) rfl rfl

end TelemetryEngine.ColdTier
