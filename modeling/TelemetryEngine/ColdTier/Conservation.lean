import TelemetryEngine.ColdTier.Expiry
import TelemetryEngine.ColdTier.Duplication

/-! Where every row goes. While rows are appended and deleted around the exports, each row
ever appended is in the lake once, or waits ahead of the watermark, or was missed: it came
in behind the watermark, or was deleted before the watermark reached it. -/
namespace TelemetryEngine.ColdTier
open Foundation Foundation.Calendar Foundation.Tiling

/-! ### The rows of a covered lake -/

namespace View

def rowsAt (view : View) (path : Path) : List SpanRow :=
  ((view.lake path).map LakeFile.rows).getD []

def rows (view : View) : List SpanRow :=
  view.passed.flatMap fun result => view.rowsAt (filePath result.window)

@[simp] theorem rows_initial : View.initial.rows = [] := rfl

theorem rows_pass (view : View) (result : WindowResult) :
    (view.move (.pass result)).rows = view.rows ++ view.rowsAt (filePath result.window) := by
  simp [rows, rowsAt, move]

theorem rows_publish {view : View} {file : LakeFile}
    (new : ∀ result ∈ view.passed, filePath result.window ≠ filePath file.window) :
    (view.move (.publish file)).rows = view.rows := by
  refine List.flatMap_congr fun result member => ?_
  have kept : (view.move (.publish file)).lake (filePath result.window) =
      view.lake (filePath result.window) := Function.update_of_ne (new result member) _ _
  rw [rowsAt, kept]
  rfl

end View

section
variable {lake : Path → Option LakeFile} {results : List WindowResult} {start upTo : Int}

theorem Covers.absent {window : ExportWindow} (covers : Covers lake results start upTo)
    (next : window.start = upTo) (whole : window.end_ % second = 0) :
    lake (filePath window) = none := by
  cases held : lake (filePath window) with
  | none => rfl
  | some file =>
    obtain ⟨earlier, member, _, same, path⟩ := covers.sound _ _ held
    exact absurd (same ▸ path.symm) (covers.other_path next whole member)

theorem Covers.paths_nodup (covers : Covers lake results start upTo) :
    (results.map fun result => filePath result.window).Nodup := by
  have apart := tiles_pairwise covers.tiles
  rw [List.pairwise_map] at apart
  refine List.pairwise_map.mpr (apart.imp_of_mem fun {first later} hf hl ordered same => ?_)
  have ends := (filePath_inj same).2
  rw [floorSecond_of_whole (covers.whole first hf),
    floorSecond_of_whole (covers.whole later hl)] at ends
  have proper := later.window.nonempty
  omega

end

theorem flatMap_filter_of_nil {p : A → Bool} {f : A → List B} {xs : List A}
    (none : ∀ x ∈ xs, p x = false → f x = []) : (xs.filter p).flatMap f = xs.flatMap f := by
  induction xs with
  | nil => rfl
  | cons x rest ih =>
    have later := ih fun y member => none y (by simp [member])
    cases kept : p x with
    | false => simp [kept, later, none x (by simp) kept]
    | true => simp [kept, later]

/-- The view `spans` reads the rows of the passed windows. -/
theorem Settled.globbed {tier : Tier} (settled : Settled tier.view start upTo) :
    ((lakeTree tier.files).globbed.flatMap (rowsOf tier.files)).Perm tier.view.rows := by
  have covers := settled.covers
  have visible (path : Path) : path ∈ (lakeTree tier.files).globbed ↔
      (tier.view.lake path).isSome = true := by
    simp only [Tree.globbed, lakeTree, List.mem_filter, Tier.view, AList.mem_keys.symm,
      ← AList.lookup_isSome]
    cases path.committed <;> simp
  have read (path : Path) (member : path ∈ (lakeTree tier.files).globbed) :
      rowsOf tier.files path = tier.view.rowsAt path := by
    have committed := (List.mem_filter.mp member).2
    simp only [rowsOf, View.rowsAt, Tier.view, committed, if_true]
  have passed : tier.view.rows =
      ((tier.view.passed.map fun result => filePath result.window).filter
        fun path => (tier.view.lake path).isSome).flatMap tier.view.rowsAt := by
    rw [flatMap_filter_of_nil, View.rows, List.flatMap_map]
    intro path _ hidden
    rw [Option.isSome_eq_false_iff, Option.isNone_iff_eq_none] at hidden
    rw [View.rowsAt, hidden]
    rfl
  rw [passed, List.flatMap_congr read]
  refine List.Perm.flatMap_right _ ((List.perm_ext_iff_of_nodup ?_ ?_).mpr fun path => ?_)
  · exact (lakeTree tier.files).nodup.filter _
  · exact covers.paths_nodup.filter _
  · rw [visible, List.mem_filter, and_iff_right_of_imp]
    intro held
    obtain ⟨file, held⟩ := Option.isSome_iff_exists.mp held
    obtain ⟨result, member, _, same, rfl⟩ := covers.sound path file held
    exact List.mem_map.mpr ⟨result, member, congrArg filePath same⟩

/-! ### What a call does to the rows -/

def ahead (rows : List SpanRow) (upTo : Int) : List SpanRow := rows.filter (upTo ≤ ·.time)

section
variable {server : Server} {hot : List SpanRow} {start upTo : Int}

theorem ahead_split {window : ExportWindow} (next : window.start = upTo)
    (whole : window.end_ % second = 0)
    (sharp : ∀ row ∈ hot, server.bind upTo ≤ row.time → upTo ≤ row.time) :
    (server.select hot window ++ ahead hot window.end_).Perm (ahead hot upTo) := by
  have proper := window.nonempty
  have split := List.filter_append_perm (fun row => decide (row.time < window.end_)) (ahead hot upTo)
  have selected : server.select hot window = (ahead hot upTo).filter (·.time < window.end_) := by
    rw [Server.select, ahead, List.filter_filter]
    refine List.filter_congr fun row member => ?_
    have bound := server.bind_le upTo
    have reached := sharp row member
    rw [Bool.eq_iff_iff, Server.between_iff, next, server.bind_whole whole]
    simp only [Bool.and_eq_true, decide_eq_true_eq]
    omega
  have later : ahead hot window.end_ =
      (ahead hot upTo).filter fun row => !(row.time < window.end_) := by
    rw [ahead, ahead, List.filter_filter]
    refine List.filter_congr fun row _ => ?_
    rw [Bool.eq_iff_iff]
    simp only [Bool.and_eq_true, Bool.not_eq_true', decide_eq_true_eq, decide_eq_false_iff_not]
    omega
  rw [selected, later]
  exact split

theorem Settled.pass_rows {view : View} {window : ExportWindow} {answers : WindowAnswers}
    (settled : Settled view start upTo) (truthful : Truthful server hot window answers)
    (moved : WindowMoves window answers moves) (next : window.start = upTo)
    (whole : window.end_ % second = 0) :
    (view.run moves).rows.Perm (view.rows ++ server.select hot window) := by
  cases moved with
  | skip skips =>
    have empty : view.rowsAt (filePath window) = [] := by
      rw [View.rowsAt, settled.covers.absent next whole]
      rfl
    rw [View.run_cons, View.run_nil, View.rows_pass, skips.window_eq, empty, truthful.skips skips]
  | commit commits =>
    have written : (view.move (.publish ⟨window, answers.file⟩)).rowsAt (filePath window) =
        answers.file := by
      simp [View.rowsAt, View.move]
    have kept : (view.move (.publish ⟨window, answers.file⟩)).rows = view.rows :=
      View.rows_publish fun _ member => settled.covers.other_path next whole member
    rw [View.run_cons, View.run_cons, View.run_nil, View.rows_pass, commits.window_eq, written, kept]
    exact (truthful.verifies commits.verifies).append_left _

/-- The loop moves rows from ahead of the watermark into the lake. -/
theorem Settled.loop_rows {view : View} (settled : Settled view start upTo)
    (point : LoopPoint answers quiet windows moves) (unbroken : quiet = true)
    (tiles : Tiles ExportWindow.start ExportWindow.end_ windows upTo stop)
    (whole : ∀ window ∈ windows, window.end_ % second = 0)
    (today : ∀ window ∈ windows, window.WithinDay)
    (truthful : ∀ window, Truthful server hot window (answers window))
    (sharp : ∀ row ∈ hot, server.bind upTo ≤ row.time → upTo ≤ row.time)
    (behind : ∀ row ∈ view.rows, row.time < upTo) :
    ∃ reached ≤ stop, Settled (view.run moves) start reached ∧
      (∀ row ∈ (view.run moves).rows, row.time < reached) ∧
      ((view.run moves).rows ++ ahead hot reached).Perm (view.rows ++ ahead hot upTo) := by
  induction point generalizing view upTo with
  | stop => exact ⟨upTo, tiles_le tiles, settled, behind, .refl _⟩
  | unsettled => contradiction
  | @cons window first _ rest moves moved _ ih =>
    obtain ⟨next, proper, tiles⟩ := tiles
    have wholeEnd := whole window (by simp)
    have end_ := server.bind_whole wholeEnd
    have taken := settled.pass_rows (truthful window) moved next wholeEnd
    have before : ∀ row ∈ (view.run first).rows, row.time < window.end_ := by
      intro row member
      rcases List.mem_append.mp (taken.mem_iff.mp member) with old | new
      · have := behind row old
        omega
      · exact end_ ▸ (mem_select.mp new).2.2
    obtain ⟨reached, before, settled, done, balance⟩ := ih
      (settled.pass moved next wholeEnd (today window (by simp))) unbroken tiles
      (fun window member => whole window (by simp [member]))
      (fun window member => today window (by simp [member]))
      (fun row _ late => by rwa [end_] at late) before
    refine ⟨reached, before, View.run_append _ _ _ ▸ settled, View.run_append _ _ _ ▸ done, ?_⟩
    rw [View.run_append]
    calc List.Perm (((view.run first).run moves).rows ++ ahead hot reached)
          ((view.run first).rows ++ ahead hot window.end_) := balance
      List.Perm _ (view.rows ++ server.select hot window ++ ahead hot window.end_) :=
        taken.append_right _
      List.Perm _ (view.rows ++ ahead hot upTo) := by
        rw [List.append_assoc]
        exact (ahead_split next wholeEnd sharp).append_left _

end

/-! ### Histories -/

/-- A call over the rows the hot tier holds. It may fail, or be killed anywhere but between
a rename and its watermark. -/
structure Exporting (server : Server) (world : World) (call : ExportCall) : Prop where
  onward : call.Onward
  clock : InRange call.now
  margin : 0 ≤ call.lagMargin
  unbroken : endsWithRename (world.tier.executed call) = false
  truthful : ∀ window, Truthful server world.hot window (call.answers window)
  oldest : ∀ oldest, call.oldest = .ok oldest → oldest = server.minTs world.hot

def Event.Admitted (server : Server) (world : World) : Event → Prop
  | .append _ | .expire _ _ => True
  | .call made => Exporting server world made

def Event.appended : Event → List SpanRow
  | .append rows => rows
  | .expire _ _ | .call _ => []

namespace World

def behind (world : World) (row : SpanRow) : Bool :=
  match world.tier.readWatermark with
  | none => false
  | some watermark => row.time < watermark

def pending (world : World) : List SpanRow := world.hot.filter fun row => !world.behind row

/-- The rows no later call exports: the late ones, and those deleted too early. -/
def missed (world : World) : Event → List SpanRow
  | .append rows => rows.filter world.behind
  | .expire now gone => world.pending.filter fun row => gone row && expired now row
  | .call _ => []

def missedBy (world : World) : List Event → List SpanRow
  | [] => []
  | event :: rest => world.missed event ++ (world.step event).missedBy rest

theorem pending_initial {world : World} (unexported : world.tier.view = .initial) :
    world.pending = world.hot := by
  have unread : world.tier.readWatermark = none := congrArg (·.watermarks.max?) unexported
  simp [pending, behind, unread]

theorem pending_newest {world : World} (newest : world.tier.view.watermarks.max? = some watermark) :
    world.pending = ahead world.hot watermark := by
  have read : world.tier.readWatermark = some watermark := newest
  simp only [pending, behind, read, ahead, ← decide_not, not_lt]

theorem pending_call {world : World} {call : ExportCall}
    (same : (world.tier.step call).view = world.tier.view) :
    (world.step (.call call)).pending = world.pending := by
  have read : (world.tier.step call).readWatermark = world.tier.readWatermark :=
    congrArg (·.watermarks.max?) same
  simp [pending, behind, step, read]

end World

/-- The lake covers the time from a start to the watermark. -/
structure CoveredTo (view : View) (start watermark : Int) : Prop where
  newest : view.watermarks.max? = some watermark
  settled : Settled view start watermark
  marks : ∀ mark ∈ view.watermarks, mark % second = 0
  epoch : 0 ≤ start
  datetime : InRange watermark
  behind : ∀ row ∈ view.rows, row.time < watermark

/-- Nothing was exported yet, or everything up to the watermark. -/
def Accounted (view : View) : Prop :=
  view = .initial ∨ ∃ start watermark, CoveredTo view start watermark

theorem Server.minTs_epoch {server : Server} {hot : List SpanRow}
    (least : server.minTs hot = some start) : 0 ≤ start ∧ ∀ row ∈ hot, start ≤ row.time := by
  cases hot with
  | nil =>
    have empty : server.minOfEmpty = some start := by simpa [Server.minTs] using least
    rcases server.minOfEmpty_cases with none_ | epoch
    · simp [none_] at empty
    · obtain rfl : 0 = start := by simpa [epoch] using empty
      simp
  | cons row rest =>
    have member : row ∈ row :: rest := by simp
    obtain ⟨first, _, found, below⟩ := server.minTs_eq member
    obtain rfl : first.time = start := Option.some.inj (found.symm.trans least)
    exact ⟨first.time_nonneg, below⟩

/-- The loop begins where the lake ends, and all that waits is ahead of it. -/
structure BeginsAt (server : Server) (world : World) (first start : Int) : Prop where
  epoch : 0 ≤ first
  settled : Settled world.tier.view first start
  waiting : world.pending = ahead world.hot start
  sharp : ∀ row ∈ world.hot, server.bind start ≤ row.time → start ≤ row.time
  marks : ∀ mark ∈ world.tier.view.watermarks, mark % second = 0
  behind : ∀ row ∈ world.tier.view.rows, row.time < start

theorem Accounted.begins {server : Server} {world : World} {call : ExportCall} {start : Int}
    (accounted : Accounted world.tier.view) (exporting : Exporting server world call)
    (found : call.start (call.watermark world.tier.view) = .ok (some start)) :
    ∃ first, BeginsAt server world first start := by
  rw [ExportCall.watermark_read _ exporting.onward.onward] at found
  rcases accounted with initial | ⟨first, watermark, covered⟩
  · have oldest : call.oldest = .ok (some start) := by
      rw [initial] at found
      exact found
    obtain ⟨epoch, below⟩ := Server.minTs_epoch (exporting.oldest _ oldest).symm
    refine ⟨start, epoch, ?_, ?_, fun row member _ => below row member, ?_, ?_⟩
    · rw [initial]
      exact ⟨.empty start, by simp [View.initial], .inl ⟨rfl, rfl⟩⟩
    · rw [World.pending_initial initial, ahead, List.filter_eq_self.mpr]
      simpa using below
    · simp [initial, View.initial]
    · simp [initial]
  · rw [covered.newest] at found
    obtain rfl : watermark = start := by simpa [ExportCall.start] using found
    have marked := List.max?_mem covered.newest
    have whole := server.bind_whole (covered.marks _ marked)
    exact ⟨first, covered.epoch, covered.settled, World.pending_newest covered.newest,
      fun row _ late => by rwa [whole] at late, covered.marks, covered.behind⟩

theorem Accounted.unmarked {view : View} (accounted : Accounted view)
    (unmarked : view.watermarks = []) : view = .initial := by
  refine accounted.resolve_right ?_
  rintro ⟨start, watermark, covered⟩
  have marked := List.max?_mem covered.newest
  simp [unmarked] at marked

theorem ExportCall.Onward.planned_whole {call : ExportCall} (onward : call.Onward)
    (plan : Plan hour first stop call.horizon windows) :
    ∀ window ∈ windows, window.end_ % second = 0 := by
  intro window member
  have horizon : call.horizon % second = 0 := by
    rw [ExportCall.horizon, Int.sub_emod, onward.now_whole, onward.lag_whole]
    rfl
  exact (plan.whole_ends rfl window member).elim id fun last => last ▸ horizon

/-- A call leaves all as it is, or its loop was stopped somewhere after it began. -/
theorem Accounted.loops {server : Server} {world : World} {call : ExportCall}
    (accounted : Accounted world.tier.view) (exporting : Exporting server world call) :
    (world.tier.step call).view = world.tier.view ∨ ∃ first start stop moves,
      BeginsAt server world first start ∧ call.planned world.tier.view ≠ [] ∧
        Plan hour start stop call.horizon (call.planned world.tier.view) ∧
        LoopPoint call.answers true (call.planned world.tier.view) moves ∧
        (world.tier.step call).view = world.tier.view.run moves := by
  obtain ⟨quiet, moves, point, seen, ends⟩ := world.tier.step_point call
  obtain rfl : quiet = true := by
    by_contra broken
    have renamed := ends (by simpa using broken)
    rw [exporting.unbroken] at renamed
    contradiction
  have direct : call.rewinds = [] := by rw [ExportCall.rewinds, exporting.onward.onward]
  cases point with
  | early begun =>
    rw [direct] at begun
    obtain rfl := List.prefix_nil.mp begun
    exact .inl seen
  | @loop _ moves point =>
    rw [direct, List.nil_append] at seen
    by_cases none : call.planned world.tier.view = []
    · rw [none] at point
      cases point
      exact .inl seen
    · obtain ⟨start, stop, found, plan⟩ := (call.planned_plan world.tier.view).resolve_left none
      obtain ⟨first, begins⟩ := accounted.begins exporting found
      exact .inr ⟨first, start, stop, moves, begins, none, plan, point, seen⟩

theorem Accounted.call {server : Server} {world : World} {call : ExportCall}
    (accounted : Accounted world.tier.view) (exporting : Exporting server world call) :
    Accounted (world.tier.step call).view ∧
      ((world.tier.step call).view.rows ++ (world.step (.call call)).pending).Perm
        (world.tier.view.rows ++ world.pending) := by
  have still (same : (world.tier.step call).view = world.tier.view) :
      Accounted (world.tier.step call).view ∧
        ((world.tier.step call).view.rows ++ (world.step (.call call)).pending).Perm
          (world.tier.view.rows ++ world.pending) := by
    rw [World.pending_call same, same]
    exact ⟨accounted, .refl _⟩
  rcases accounted.loops exporting with same | ⟨first, start, stop, moves, begins, some, plan,
    point, seen⟩
  · exact still same
  · obtain ⟨reached, early, settled, done, balance⟩ := begins.settled.loop_rows point rfl plan.tiles
      (exporting.onward.planned_whole plan) plan.within_day exporting.truthful begins.sharp
      begins.behind
    rw [← seen] at settled done balance
    obtain ⟨fresh, added, ends⟩ := point.watermarks world.tier.view
    rw [← seen] at added
    rcases settled.newest with initial | newest
    · -- Nothing was passed, so nothing had been passed before either.
      have unmarked : world.tier.view.watermarks = [] := by
        rw [initial] at added
        exact (List.append_eq_nil_iff.mp added.symm).2
      exact still (initial.trans (accounted.unmarked unmarked).symm)
    · refine ⟨.inr ⟨first, reached, newest, settled, ?_, begins.epoch, ?_, done⟩, ?_⟩
      · rw [added]
        refine List.forall_mem_append.mpr ⟨fun mark member => ?_, begins.marks⟩
        obtain ⟨window, _, rfl⟩ := ends mark member
        exact floorTo_emod
      · obtain ⟨window, member⟩ := List.exists_mem_of_ne_nil _ some
        have bounds := tiles_bounds plan.tiles member
        have within := plan.within
        have after := tiles_le settled.covers.tiles
        have clock := exporting.clock
        have margin := exporting.margin
        have epoch := begins.epoch
        simp only [InRange, dayNumber, minOrdinal, maxOrdinal, epochOrdinal, day,
          ExportCall.horizon] at *
        omega
      · have later : (world.step (.call call)).pending = ahead world.hot reached :=
          World.pending_newest newest
        rw [later, begins.waiting]
        exact balance

/-- An event moves rows between the lake, the waiting rows and the missed ones. -/
theorem Accounted.step {server : Server} {world : World} {event : Event}
    (accounted : Accounted world.tier.view) (admitted : event.Admitted server world) :
    Accounted (world.step event).tier.view ∧
      ((world.step event).tier.view.rows ++ ((world.step event).pending ++ world.missed event)).Perm
        (world.tier.view.rows ++ (world.pending ++ event.appended)) := by
  cases event with
  | append rows =>
    refine ⟨accounted, List.Perm.append_left _ ?_⟩
    have later : (world.step (.append rows)).pending =
        world.pending ++ rows.filter fun row => !world.behind row :=
      List.filter_append world.hot rows
    rw [later, List.append_assoc]
    refine List.Perm.append_left _ ?_
    exact List.perm_append_comm.trans (List.filter_append_perm world.behind rows)
  | expire now gone =>
    refine ⟨accounted, List.Perm.append_left _ ?_⟩
    have later : (world.step (.expire now gone)).pending =
        world.pending.filter fun row => !(gone row && expired now row) := by
      simp only [World.pending, World.step, List.filter_filter]
      exact List.filter_congr fun row _ => Bool.and_comm _ _
    rw [later, World.missed, Event.appended, List.append_nil]
    exact List.perm_append_comm.trans (List.filter_append_perm _ world.pending)
  | call made =>
    obtain ⟨after, balance⟩ := accounted.call admitted
    rw [World.missed, Event.appended, List.append_nil, List.append_nil]
    exact ⟨after, balance⟩

theorem Accounted.steps {server : Server} {world : World} {events : List Event}
    (accounted : Accounted world.tier.view)
    (admitted : Meets World.step (fun world event => event.Admitted server world) world events) :
    Accounted (world.steps events).tier.view ∧
      ((world.steps events).tier.view.rows ++
        ((world.steps events).pending ++ world.missedBy events)).Perm
        (world.tier.view.rows ++ (world.pending ++ events.flatMap Event.appended)) := by
  induction events generalizing world with
  | nil => exact ⟨accounted, .refl _⟩
  | cons event rest ih =>
    obtain ⟨own, later⟩ := admitted
    obtain ⟨after, balance⟩ := accounted.step own
    obtain ⟨done, total⟩ := ih after later
    refine ⟨done, List.perm_iff_count.mpr fun row => ?_⟩
    have here := List.perm_iff_count.mp balance row
    have there := List.perm_iff_count.mp total row
    simp only [World.steps, World.missedBy, List.flatMap_cons, List.foldl_cons,
      List.count_append] at here there ⊢
    omega

theorem World.full (events : List Event) : ∀ path file,
    (World.initial.steps events).lake path = some file → file.rows ≠ [] := by
  refine foldl_invariant
    (P := fun world : World => ∀ path file, world.lake path = some file → file.rows ≠ [])
    (fun world event _ full => ?_) ?_
  · cases event with
    | append | expire => exact full
    | call made =>
      refine Tier.lake_invariant
        (P := fun lake => ∀ path file, lake path = some file → file.rows ≠ [])
        (fun lake window _ verifies full path file held => ?_) full
      rw [Function.update_apply] at held
      split at held
      case isTrue =>
        obtain rfl := Option.some.inj held
        exact verifies.nonempty
      case isFalse => exact full path file held
  · intro path file held
    simp [World.lake, World.initial, Tier.initial_view, View.initial] at held

/-- A lake whose directories are all dated and whose files all hold rows is opened whole. -/
theorem Tree.openLake_whole {tree : Tree} (dated : ∀ path ∈ tree.globbed, path.dated = true)
    (full : ∀ path ∈ tree.globbed, 0 < tree.rows path) : tree.openLake true = .ok tree.globbed := by
  obtain ⟨files, listed, perm⟩ :=
    parquetFiles_dated fun path member => Path.misdated_of_dated (dated path member)
  rw [List.filter_eq_self.mpr dated] at perm
  have seen : tree.seen = files.length := by
    rw [seen_eq, List.filter_eq_self.mpr (by simpa using full), perm.length_eq]
  by_cases empty : files = []
  · subst empty
    simp [openLake, listed, Except.mapError, bind, Except.bind, pure, Except.pure, perm.nil_eq.symm]
  · simp [openLake, listed, Except.mapError, bind, Except.bind, pure, Except.pure, empty, seen]

theorem Accounted.settled {view : View} (accounted : Accounted view) :
    ∃ start upTo, Settled view start upTo ∧
      ∀ result ∈ view.passed, InRange result.window.start := by
  rcases accounted with rfl | ⟨start, watermark, covered⟩
  · exact ⟨0, 0, ⟨.empty 0, by simp [View.initial], .inl ⟨rfl, rfl⟩⟩, by simp [View.initial]⟩
  · refine ⟨start, watermark, covered.settled, fun result member => ?_⟩
    have bounds := tiles_bounds covered.settled.covers.tiles (List.mem_map_of_mem member)
    have epoch := covered.epoch
    have datetime := covered.datetime
    simp only [InRange, dayNumber, minOrdinal, maxOrdinal, epochOrdinal, day] at *
    omega

theorem exists_file {tier : Tier} {path : Path} (listed : path ∈ (lakeTree tier.files).globbed) :
    ∃ file, tier.files.lookup path = some file ∧ tier.view.lake path = some file := by
  obtain ⟨key, visible⟩ := List.mem_filter.mp listed
  obtain ⟨file, held⟩ := Option.isSome_iff_exists.mp (AList.lookup_isSome.mpr (AList.mem_keys.mpr key))
  exact ⟨file, held, (if_pos visible).trans held⟩

theorem Accounted.openLake {tier : Tier} (accounted : Accounted tier.view)
    (full : ∀ path file, tier.view.lake path = some file → file.rows ≠ []) :
    (lakeTree tier.files).openLake true = .ok (lakeTree tier.files).globbed ∧
      ((lakeTree tier.files).globbed.flatMap (rowsOf tier.files)).Perm tier.view.rows := by
  obtain ⟨start, upTo, settled, datetimes⟩ := accounted.settled
  refine ⟨Tree.openLake_whole (fun path listed => ?_) (fun path listed => ?_), settled.globbed⟩
  · obtain ⟨file, _, seen⟩ := exists_file listed
    obtain ⟨result, passed, _, same, rfl⟩ := settled.covers.sound path file seen
    exact same ▸ Path.filePath_dated (datetimes result passed)
  · obtain ⟨file, found, seen⟩ := exists_file listed
    simpa [lakeTree, found] using List.length_pos_of_ne_nil (full path file seen)

theorem Accounted.opens {tier : Tier} (accounted : Accounted tier.view)
    (full : ∀ path file, tier.view.lake path = some file → file.rows ≠ []) :
    ∃ spans, spansView tier.files = .ok spans ∧ (spans.getD []).Perm tier.view.rows := by
  obtain ⟨opened, read⟩ := accounted.openLake full
  refine ⟨_, by rw [spansView, opened]; rfl, .trans (.of_eq ?_) read⟩
  cases (lakeTree tier.files).globbed <;> rfl

theorem Accounted.behind {world : World} (accounted : Accounted world.tier.view) :
    ∀ row ∈ world.tier.view.rows, world.behind row = true := by
  intro row member
  rcases accounted with unexported | ⟨start, watermark, covered⟩
  · simp [unexported] at member
  · have newest : world.tier.readWatermark = some watermark := covered.newest
    simpa [World.behind, newest] using covered.behind row member

/-- Any history leaves an accounted lake, and every appended row in one place. -/
theorem accounted_run {server : Server} {events : List Event}
    (admitted : Meets World.step (fun world event => event.Admitted server world) .initial events) :
    Accounted (World.initial.steps events).tier.view ∧
      ((World.initial.steps events).tier.view.rows ++
        ((World.initial.steps events).pending ++ World.initial.missedBy events)).Perm
        (events.flatMap Event.appended) := by
  have initial : Accounted World.initial.tier.view := .inl Tier.initial_view
  have unexported : World.initial.tier.view.rows = [] := by
    rw [World.initial, Tier.initial_view, View.rows_initial]
  obtain ⟨accounted, balance⟩ := initial.steps admitted
  rw [unexported] at balance
  exact ⟨accounted, balance⟩

/-- Whatever is appended and deleted between the exports, and wherever these fail, the view
`spans` holds rows behind the watermark only, and every appended row is in it once, or
waits in the hot tier, or was missed. -/
theorem rows_accounted (server : Server) {events : List Event}
    (admitted : Meets World.step (fun world event => event.Admitted server world) .initial events) :
    let world := World.initial.steps events
    ∃ spans, spansView world.tier.files = .ok spans ∧
      (∀ row ∈ spans.getD [], world.behind row = true) ∧
      (spans.getD [] ++ (world.pending ++ World.initial.missedBy events)).Perm
        (events.flatMap Event.appended) := by
  intro world
  obtain ⟨accounted, balance⟩ := accounted_run admitted
  obtain ⟨spans, opened, read⟩ := accounted.opens (World.full events)
  refine ⟨spans, opened, fun row member => ?_, (read.append_right _).trans balance⟩
  exact accounted.behind row (read.mem_iff.mp member)

/-- A row is exported, a late one comes in, and a third is deleted before its export. -/
def mixedEvents : List Event :=
  [.append [earlyRow],
    .call { now := 20 * minute, oldest := .ok (some (10 * minute)),
            answers := Server.deployed.answers [earlyRow] },
    .append [{ ts := 300000 }, lateRow], .expire (rawTtl + hour) (· = lateRow)]

theorem mixedEvents_admitted :
    Meets World.step (fun world event => event.Admitted .deployed world) .initial mixedEvents :=
  ⟨trivial,
    { onward := ⟨rfl, by decide, by decide⟩
      clock := by decide
      margin := by decide
      unbroken := by decide +kernel
      truthful := fun window => answers_truthful _ _ window
      oldest := by rintro _ ⟨⟩; decide +kernel }, trivial, trivial, trivial⟩

theorem rows_accounted_mixed :
    let world := World.initial.steps mixedEvents
    ∃ spans, spansView world.tier.files = .ok spans ∧
      (∀ row ∈ spans.getD [], world.behind row = true) ∧
      (spans.getD [] ++ (world.pending ++ World.initial.missedBy mixedEvents)).Perm
        (mixedEvents.flatMap Event.appended) :=
  rows_accounted .deployed mixedEvents_admitted

/-- Only the first is in the lake, and none waits. -/
example : spansView (World.initial.steps mixedEvents).tier.files = .ok (some [earlyRow]) ∧
    (World.initial.steps mixedEvents).pending = [] ∧
    World.initial.missedBy mixedEvents = [{ ts := 300000 }, lateRow] := by
  decide +kernel

end TelemetryEngine.ColdTier
