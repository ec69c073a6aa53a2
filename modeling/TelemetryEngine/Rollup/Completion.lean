import TelemetryEngine.Rollup.Backfill

/-! What backfilling completes. The rollup's first minute is taken for the edge of
what it covers, so a row it does not count is reached only from before that
minute, and an edge inside a minute hides what lies in front of it. -/
namespace TelemetryEngine.Rollup
open Cardinality Foundation Foundation.Calendar Foundation.MergingTable Foundation.Tiling

variable {server : Server} {raw left : List SpanRow} {coverage : Coverage} {call : Invocation}

/-! ### What the plan reads -/

theorem mem_minutes {blocks : List Block} {table : Spans1m} (held : Holds Block.write blocks table)
    (m : Int) : m ∈ table.map (·.1.tsMinute) ↔
      ∃ row ∈ blocks.flatMap Block.rows, floorMinute row.time = m := by
  constructor
  · intro listed
    obtain ⟨entry, written, rfl⟩ := List.mem_map.mp listed
    obtain ⟨block, inside, key⟩ := (holds_keys held entry.1).mp (List.mem_map_of_mem written)
    obtain ⟨row, member, same⟩ := List.mem_map.mp ((keys_group _ _ block.rows entry.1).mp key)
    exact ⟨row, List.mem_flatMap.mpr ⟨block, inside, member⟩, congrArg RollupKey.tsMinute same⟩
  · rintro ⟨row, counted, rfl⟩
    obtain ⟨block, inside, member⟩ := List.mem_flatMap.mp counted
    have key := (keys_group (rollupKey block.dictionary) (rollupState block.dictionary) block.rows
      (rollupKey block.dictionary row)).mpr (List.mem_map_of_mem member)
    have written := (holds_keys held _).mpr ⟨block, inside, key⟩
    obtain ⟨entry, found, same⟩ := List.mem_map.mp written
    exact List.mem_map.mpr ⟨entry, found, by rw [same]; rfl⟩

/-- The first minute of a table is that of its rows, merged or not. -/
theorem firstMinute_eq_some {blocks : List Block} {table : Spans1m}
    (held : Holds Block.write blocks table) (m : Int) :
    firstMinute table = some m ↔ (∃ row ∈ blocks.flatMap Block.rows, floorMinute row.time = m) ∧
      ∀ row ∈ blocks.flatMap Block.rows, m ≤ floorMinute row.time := by
  rw [firstMinute, List.min?_eq_some_iff, mem_minutes held]
  refine and_congr_right fun _ => ⟨fun least row counted => ?_, fun least n listed => ?_⟩
  · exact least _ ((mem_minutes held _).mpr ⟨row, counted, rfl⟩)
  · obtain ⟨row, counted, rfl⟩ := (mem_minutes held n).mp listed
    exact least row counted

theorem firstMinute_eq_none {blocks : List Block} {table : Spans1m}
    (held : Holds Block.write blocks table) :
    firstMinute table = none ↔ blocks.flatMap Block.rows = [] := by
  rw [firstMinute, List.min?_eq_none_iff]
  simp only [List.eq_nil_iff_forall_not_mem, mem_minutes held]
  constructor
  · exact fun none row counted => none _ ⟨row, counted, rfl⟩
  · rintro none m ⟨row, counted, _⟩
    exact none row counted

theorem spans_counted {blocks : List Block} {table : Spans1m}
    (held : Holds Block.write blocks table) :
    (total (fun _ => true) table).spans = (blocks.flatMap Block.rows).length :=
  congrArg Prod.fst (rollupTotals_eq held)

theorem min_congr {xs ys : List Int} (same : ∀ m, m ∈ xs ↔ m ∈ ys) : xs.min? = ys.min? := by
  cases least : ys.min? with
  | none =>
    rw [List.min?_eq_none_iff] at least ⊢
    simpa [least, List.eq_nil_iff_forall_not_mem] using same
  | some m =>
    rw [List.min?_eq_some_iff] at least ⊢
    exact ⟨(same m).mpr least.1, fun n member => least.2 n ((same n).mp member)⟩

theorem max_congr {xs ys : List Int} (same : ∀ m, m ∈ xs ↔ m ∈ ys) : xs.max? = ys.max? := by
  cases most : ys.max? with
  | none =>
    rw [List.max?_eq_none_iff] at most ⊢
    simpa [most, List.eq_nil_iff_forall_not_mem] using same
  | some m =>
    rw [List.max?_eq_some_iff] at most ⊢
    exact ⟨(same m).mpr most.1, fun n member => most.2 n ((same n).mp member)⟩

/-- A plan depends on the rows that are counted, not on how they lie in the table. -/
theorem plan_congr {blocks blocks' : List Block} {table table' : Spans1m}
    (held : Holds Block.write blocks table) (held' : Holds Block.write blocks' table')
    (same : (blocks.flatMap Block.rows).Perm (blocks'.flatMap Block.rows)) :
    plan server raw table = plan server raw table' := by
  have minutes (m : Int) : m ∈ table.map (·.1.tsMinute) ↔ m ∈ table'.map (·.1.tsMinute) := by
    simp only [mem_minutes held, mem_minutes held', same.mem_iff]
  have spans : (total (fun _ => true) table).spans = (total (fun _ => true) table').spans := by
    rw [spans_counted held, spans_counted held', same.length_eq]
  simp only [plan, firstMinute, min_congr minutes, max_congr minutes, spans]

/-! ### What an invocation counts -/

/-- The chunks select what their window selects, every row once. -/
theorem chunks_select {chunks : List Chunk} {start stop : Int}
    (tiles : Tiles Chunk.start Chunk.stop chunks start stop) :
    (chunks.flatMap fun chunk => raw.filter (server.between chunk.start chunk.stop)).Perm
      (raw.filter (server.between start stop)) := by
  induction chunks generalizing start with
  | nil =>
    obtain rfl : start = stop := tiles
    have none : raw.filter (server.between start start) = [] := by
      refine List.filter_eq_nil_iff.mpr ?_
      intro row _ inside
      obtain ⟨lower, upper⟩ := Server.between_iff.mp inside
      exact absurd upper lower.not_gt
    rw [none]
    exact .nil
  | cons chunk rest ih =>
    obtain ⟨rfl, proper, later⟩ := tiles
    have up := server.bind_mono _ _ proper.le
    have on := server.bind_mono _ _ (tiles_le later)
    rw [List.flatMap_cons]
    refine ((ih later).append_left _).trans ((filter_or_perm ?_ raw).trans (.of_eq ?_))
    · intro row early
      obtain ⟨_, before⟩ := Server.between_iff.mp early
      exact Server.between_eq_false_iff.mpr (.inl before)
    · refine List.filter_congr ?_
      intro row _
      rw [Bool.eq_iff_iff, Bool.or_eq_true, Server.between_iff, Server.between_iff,
        Server.between_iff]
      omega

theorem invoke_cases (server : Server) (raw : List SpanRow) (coverage : Coverage)
    (call : Invocation) :
    (∃ start stop, call.Opens (plan server raw coverage.table) start stop ∧
      (coverage.invoke server raw call).counted.Perm
        (coverage.counted ++ raw.filter (server.between start stop))) ∨
    (∀ start stop, ¬ call.Opens (plan server raw coverage.table) start stop) ∧
      (coverage.invoke server raw call).counted = coverage.counted := by
  have held := holds_merging coverage.held (call.merging coverage.table).2
  have counted : (coverage.invoke server raw call).counted = coverage.counted ++
      (rollupBackfill server raw (call.merging coverage.table).1 call).trace.flatMap
        fun chunk => raw.filter (server.between chunk.start chunk.stop) := by
    simp only [Coverage.counted, Coverage.invoke, List.flatMap_append, List.flatMap_map]
    rfl
  have same : plan server raw (call.merging coverage.table).1 = plan server raw coverage.table :=
    plan_congr held coverage.held (.refl _)
  rcases rollupBackfill_cases server raw (call.merging coverage.table).1 call with
    ⟨start, stop, opens, tiles⟩ | ⟨idle, none⟩
  · refine .inl ⟨start, stop, same ▸ opens, ?_⟩
    rw [counted]
    exact (chunks_select tiles).append_left _
  · exact .inr ⟨same ▸ idle, by rw [counted, none]; simp⟩

theorem plan_needs (coverage : Coverage) :
    (plan server raw coverage.table).needsBackfill = true ↔
      coverage.counted.length < raw.length := by
  have spans : (plan server raw coverage.table).rollupSpans = coverage.counted.length :=
    spans_counted coverage.held
  have rows : (plan server raw coverage.table).rawRows = raw.length := rfl
  simp only [BackfillPlan.needsBackfill, BackfillPlan.missingSpans, spans, rows, decide_eq_true_eq]
  omega

/-- A window of a rollup that counts something ends at its first minute. -/
theorem Invocation.Opens.edge {start stop : Int}
    (opens : call.Opens (plan server raw coverage.table) start stop)
    (some : coverage.counted ≠ []) :
    (∃ row ∈ coverage.counted, floorMinute row.time = stop) ∧
      ∀ row ∈ coverage.counted, stop ≤ floorMinute row.time := by
  cases first : firstMinute coverage.table with
  | none => exact absurd ((firstMinute_eq_none coverage.held).mp first) some
  | some m =>
    have stops : (plan server raw coverage.table).stop = Option.some m := by
      simp only [BackfillPlan.stop, plan, first, Option.some_or]
    obtain rfl : m = stop := Option.some.inj (stops.symm.trans opens.stops)
    exact (firstMinute_eq_some coverage.held m).mp first

theorem bind_minute (server : Server) (t : Int) : server.bind (floorMinute t) = floorMinute t := by
  refine server.bind_whole ?_
  simp only [floorMinute, floorTo, minute, second]
  omega

/-- The window of an empty rollup ends at the last raw row: an empty minimum that
is the epoch leaves no window at all. -/
theorem Invocation.Opens.last {start stop : Int}
    (opens : call.Opens (plan server raw coverage.table) start stop)
    (none : coverage.counted = []) : ∃ row ∈ raw, row.time = stop := by
  have needed := (plan_needs coverage).mp opens.needed
  obtain ⟨row, member⟩ := List.exists_mem_of_length_pos (Nat.zero_lt_of_lt needed)
  obtain ⟨first, _, least, _⟩ := server.minTs_eq member
  obtain ⟨last, found, most, _⟩ := server.maxTs_eq member
  have minute := (firstMinute_eq_none coverage.held).mpr none
  have stops := opens.stops
  simp only [BackfillPlan.stop, plan, minute, Option.none_or, most] at stops
  cases server.minOfEmpty_cases with
  | inl null =>
    rw [null, Option.none_or] at stops
    exact ⟨last, found, Option.some.inj stops⟩
  | inr epoch =>
    rw [epoch, Option.some_or] at stops
    obtain rfl : 0 = stop := Option.some.inj stops
    obtain ⟨computed, _, starts⟩ := opens.starts
    have rawMin : (plan server raw coverage.table).rawMin = some first.time := least
    have epoch := first.time_nonneg
    have proper := opens.proper
    rw [← starts, rawMin, clamped] at proper
    split at proper <;> omega

/-! ### Rows that are out of reach -/

/-- A row that is not counted as often as it is there, behind the edge of the
rollup or, while that counts nothing, at the end of the raw rows. -/
structure Lost (raw : List SpanRow) (coverage : Coverage) (row : SpanRow) : Prop where
  uncounted : coverage.counted.count row < raw.count row
  behind : (∃ c ∈ coverage.counted, floorMinute c.time ≤ row.time) ∨
    coverage.counted = [] ∧ ∀ r ∈ raw, r.time ≤ row.time

theorem Lost.unselected {row : SpanRow} (lost : Lost raw coverage row) {start stop : Int}
    (opens : call.Opens (plan server raw coverage.table) start stop) :
    server.between start stop row = false := by
  have after : stop ≤ row.time := by
    rcases lost.behind with ⟨c, counted, behind⟩ | ⟨none, last⟩
    · exact ((opens.edge (List.ne_nil_of_mem counted)).2 c counted).trans behind
    · obtain ⟨r, member, rfl⟩ := opens.last none
      exact last r member
  exact Server.between_eq_false_iff.mpr (.inr ((server.bind_le stop).trans after))

theorem Lost.invoke {row : SpanRow} (lost : Lost raw coverage row) (server : Server)
    (call : Invocation) : Lost raw (coverage.invoke server raw call) row := by
  rcases invoke_cases server raw coverage call with ⟨start, stop, opens, added⟩ | ⟨_, same⟩
  · have unselected : row ∉ raw.filter (server.between start stop) := fun selected => by
      simpa [lost.unselected opens] using List.of_mem_filter selected
    constructor
    · rw [added.count_eq, List.count_append, List.count_eq_zero.mpr unselected]
      exact lost.uncounted
    · rcases lost.behind with ⟨c, counted, behind⟩ | ⟨none, last⟩
      · exact .inl ⟨c, added.mem_iff.mpr (List.mem_append_left _ counted), behind⟩
      · rw [none, List.nil_append] at added
        cases later : (coverage.invoke server raw call).counted with
        | nil => exact .inr ⟨rfl, last⟩
        | cons c rest =>
          have selected := added.mem_iff.mp (later ▸ List.mem_cons_self : c ∈ _)
          exact .inl ⟨c, List.mem_cons_self, (floorMinute_le c.time).trans
            (last c (List.mem_of_mem_filter selected))⟩
  · exact ⟨same ▸ lost.uncounted, same ▸ lost.behind⟩

theorem Lost.run {row : SpanRow} (lost : Lost raw coverage row) (server : Server)
    (calls : List Invocation) : Lost raw (coverage.run server raw calls) row := by
  induction calls generalizing coverage with
  | nil => exact lost
  | cons call rest ih => exact ih (lost.invoke server call)

theorem Lost.incomplete {row : SpanRow} (lost : Lost raw coverage row) :
    ¬ coverage.counted.Perm raw := fun complete =>
  absurd (complete.count_eq row) lost.uncounted.ne

/-! ### Rows that are still in reach -/

/-- The rows are older than the first minute of the rollup, and it has one. -/
def Ahead (coverage : Coverage) (rows : List SpanRow) : Prop :=
  ∀ row ∈ rows, ∃ m, firstMinute coverage.table = some m ∧ row.time < m

/-- The start of the invocation's window does not lie between two rows of one
minute, the later of them in the window. -/
def WholeMinutes (server : Server) (raw : List SpanRow) (coverage : Coverage) (call : Invocation) :
    Prop :=
  ∀ start stop, call.Opens (plan server raw coverage.table) start stop →
    ∀ row ∈ raw, ∀ other ∈ raw, row.time < server.bind start → server.bind start ≤ other.time →
      other.time < stop → floorMinute row.time ≠ floorMinute other.time

/-- The invocation finds nothing missing, or its computed start reaches `raw_min`. -/
def Arrives (server : Server) (raw : List SpanRow) (coverage : Coverage) (call : Invocation) : Prop :=
  let current := plan server raw coverage.table
  current.needsBackfill = false ∨ call.confirmed = true ∧ ∃ stop computed first,
    current.stop = some stop ∧ computedStart stop call.hours = .ok computed ∧
      current.rawMin = some first ∧ computed ≤ first

/-- Some invocation of the sequence arrives. -/
def Reaches (server : Server) (raw : List SpanRow) : Coverage → List Invocation → Prop
  | _, [] => False
  | coverage, call :: rest =>
    Arrives server raw coverage call ∨ Reaches server raw (coverage.invoke server raw call) rest

theorem ahead_iff {rows : List SpanRow} : Ahead coverage rows ↔
    ∀ row ∈ rows, coverage.counted ≠ [] ∧ ∀ c ∈ coverage.counted, row.time < floorMinute c.time := by
  refine forall₂_congr ?_
  intro row _
  cases first : firstMinute coverage.table with
  | none => simp [(firstMinute_eq_none coverage.held).mp first, Coverage.counted]
  | some m =>
    obtain ⟨⟨c, counted, least⟩, bound⟩ := (firstMinute_eq_some coverage.held m).mp first
    constructor
    · rintro ⟨_, ⟨⟩, older⟩
      exact ⟨List.ne_nil_of_mem counted, fun c counted => older.trans_le (bound c counted)⟩
    · rintro ⟨_, older⟩
      exact ⟨m, rfl, least ▸ older c counted⟩

theorem count_uncounted {row : SpanRow} (content : raw.Perm (left ++ coverage.counted))
    (member : row ∈ left) : coverage.counted.count row < raw.count row := by
  have some := List.count_pos_iff.mpr member
  rw [content.count_eq, List.count_append]
  omega

theorem lost_of_not_ahead (content : raw.Perm (left ++ coverage.counted))
    (behind : ¬ Ahead coverage left) : ∃ row, Lost raw coverage row := by
  rw [ahead_iff] at behind
  push Not at behind
  obtain ⟨row, member, behind⟩ := behind
  by_cases none : coverage.counted = []
  · obtain ⟨last, found, _, most⟩ :=
      Server.deployed.maxTs_eq (content.mem_iff.mpr (List.mem_append_left _ member))
    refine ⟨last, count_uncounted content ?_, .inr ⟨none, most⟩⟩
    simpa [none] using content.mem_iff.mp found
  · obtain ⟨c, counted, late⟩ := behind none
    exact ⟨row, count_uncounted content member, .inl ⟨c, counted, late⟩⟩

/-- The rows in a window of a rollup that counts something are not counted yet. -/
theorem Invocation.Opens.fresh {start stop : Int}
    (opens : call.Opens (plan server raw coverage.table) start stop)
    (some : coverage.counted ≠ []) {row : SpanRow} (counted : row ∈ coverage.counted) :
    server.between start stop row = false := by
  have after := ((opens.edge some).2 row counted).trans (floorMinute_le row.time)
  exact Server.between_eq_false_iff.mpr (.inr ((server.bind_le stop).trans after))

theorem Invocation.Opens.between_iff {start stop : Int}
    (opens : call.Opens (plan server raw coverage.table) start stop)
    (some : coverage.counted ≠ []) {row : SpanRow} :
    server.between start stop row = true ↔ server.bind start ≤ row.time ∧ row.time < stop := by
  obtain ⟨⟨c, _, edge⟩, _⟩ := opens.edge some
  rw [Server.between_iff, ← edge, bind_minute]

theorem Arrives.selects (arrives : Arrives server raw coverage call)
    (content : raw.Perm (left ++ coverage.counted)) (ahead : Ahead coverage left) {row : SpanRow}
    (member : row ∈ left) : ∃ start stop, call.Opens (plan server raw coverage.table) start stop ∧
      ∀ r ∈ left, server.bind start ≤ r.time := by
  have short : coverage.counted.length < raw.length := by
    rw [content.length_eq, List.length_append]
    have := List.length_pos_of_mem member
    omega
  have needed : (plan server raw coverage.table).needsBackfill = true :=
    (plan_needs coverage).mpr short
  have inside {r : SpanRow} (left : r ∈ left) : r ∈ raw :=
    content.mem_iff.mpr (List.mem_append_left _ left)
  obtain ⟨first, _, least, bound⟩ := server.minTs_eq (inside member)
  have rawMin : (plan server raw coverage.table).rawMin = some first.time := least
  rcases arrives with idle | ⟨confirmed, stop, computed, earliest, stops, made, earliest_eq, reach⟩
  · rw [needed] at idle
    contradiction
  · obtain rfl : first.time = earliest := Option.some.inj (rawMin.symm.trans earliest_eq)
    have start : clamped (plan server raw coverage.table).rawMin computed = first.time := by
      rw [rawMin, clamped]
      split <;> omega
    obtain ⟨m, minute, older⟩ := ahead row member
    have ends : (plan server raw coverage.table).stop = some m := by
      simp only [BackfillPlan.stop, plan, minute, Option.some_or]
    obtain rfl : m = stop := Option.some.inj (ends.symm.trans stops)
    refine ⟨first.time, m, ⟨needed, stops, ⟨computed, made, start⟩, confirmed,
      (bound row (inside member)).trans_lt older⟩, fun r left => ?_⟩
    exact (server.bind_le _).trans (bound r (inside left))

theorem Invocation.Opens.unique {current : BackfillPlan} {start stop start' stop' : Int}
    (first : call.Opens current start stop) (second : call.Opens current start' stop') :
    start = start' ∧ stop = stop' := by
  obtain rfl : stop = stop' := Option.some.inj (first.stops.symm.trans second.stops)
  obtain ⟨computed, made, rfl⟩ := first.starts
  obtain ⟨computed', made', rfl⟩ := second.starts
  obtain rfl : computed = computed' := Except.ok.inj (made.symm.trans made')
  exact ⟨rfl, rfl⟩

theorem Ahead.counts {start stop : Int} (ahead : Ahead coverage left)
    (content : raw.Perm (left ++ coverage.counted))
    (opens : call.Opens (plan server raw coverage.table) start stop) : coverage.counted ≠ [] := by
  have short := (plan_needs coverage).mp opens.needed
  rw [content.length_eq, List.length_append] at short
  obtain ⟨row, member⟩ := List.exists_mem_of_length_pos (show 0 < left.length by omega)
  exact (ahead_iff.mp ahead row member).1

/-- What a window selects passes from the rows left over to the rows counted. -/
theorem Invocation.Opens.moves {start stop : Int}
    (opens : call.Opens (plan server raw coverage.table) start stop) (some : coverage.counted ≠ [])
    (content : raw.Perm (left ++ coverage.counted)) :
    raw.Perm ((left.filter fun row => !server.between start stop row) ++
      (coverage.counted ++ raw.filter (server.between start stop))) := by
  refine perm_filter_moves content (List.filter_eq_nil_iff.mpr fun row counted => ?_)
  simp [opens.fresh some counted]

/-- In whole minutes, a row that a window passes over is older than the minute of
every row it selects. -/
theorem Ahead.passed_over {start stop : Int} (ahead : Ahead coverage left)
    (content : raw.Perm (left ++ coverage.counted))
    (whole : WholeMinutes server raw coverage call)
    (opens : call.Opens (plan server raw coverage.table) start stop) {row other : SpanRow}
    (remains : row ∈ left) (missed : server.between start stop row = false)
    (inside : other ∈ raw) (selected : server.between start stop other = true) :
    row.time < floorMinute other.time := by
  have counts := ahead.counts content opens
  obtain ⟨⟨edge, known, first⟩, _⟩ := opens.edge counts
  have short : row.time < floorMinute edge.time := (ahead_iff.mp ahead row remains).2 edge known
  obtain ⟨after, below⟩ := (opens.between_iff counts).mp selected
  have early : row.time < server.bind start := by
    by_contra! late
    have found := (opens.between_iff counts).mpr ⟨late, first ▸ short⟩
    simp [found] at missed
  -- the start separates the two rows, so it must not fall within one minute
  have apart := whole start stop opens row
    (content.mem_iff.mpr (List.mem_append_left _ remains)) other inside early after below
  simp only [floorMinute, floorTo, minute] at apart ⊢
  omega

theorem Arrives.selects_all {start stop : Int} (arrives : Arrives server raw coverage call)
    (content : raw.Perm (left ++ coverage.counted)) (ahead : Ahead coverage left)
    (opens : call.Opens (plan server raw coverage.table) start stop) :
    (left.filter fun row => !server.between start stop row) = [] := by
  have counts := ahead.counts content opens
  refine List.filter_eq_nil_iff.mpr ?_
  intro row member
  obtain ⟨start', stop', opens', reached⟩ := arrives.selects content ahead member
  obtain ⟨rfl, rfl⟩ := opens.unique opens'
  obtain ⟨⟨edge, known, first⟩, _⟩ := opens.edge counts
  have short := (ahead_iff.mp ahead row member).2 edge known
  simp [(opens.between_iff counts).mpr ⟨reached row member, first ▸ short⟩]

theorem Ahead.invoke (ahead : Ahead coverage left) (content : raw.Perm (left ++ coverage.counted))
    (whole : WholeMinutes server raw coverage call) :
    ∃ rest, raw.Perm (rest ++ (coverage.invoke server raw call).counted) ∧
      Ahead (coverage.invoke server raw call) rest ∧
      (Arrives server raw coverage call → rest = []) := by
  rcases invoke_cases server raw coverage call with ⟨start, stop, opens, added⟩ | ⟨idle, same⟩
  · have counts := ahead.counts content opens
    refine ⟨left.filter fun row => !server.between start stop row, ?_, ?_, ?_⟩
    · exact (opens.moves counts content).trans (added.symm.append_left _)
    · refine ahead_iff.mpr fun row member => ⟨fun none => ?_, fun c counted => ?_⟩
      · exact counts (List.append_eq_nil_iff.mp (none ▸ added).nil_eq.symm).1
      · obtain ⟨remains, missed⟩ := List.mem_filter.mp member
        cases List.mem_append.mp (added.mem_iff.mp counted) with
        | inl before => exact (ahead_iff.mp ahead row remains).2 c before
        | inr selected =>
          obtain ⟨inside, selected⟩ := List.mem_filter.mp selected
          exact ahead.passed_over content whole opens remains (by simpa using missed) inside selected
    · exact fun arrives => arrives.selects_all content ahead opens
  · refine ⟨left, same ▸ content, ?_, ?_⟩
    · rw [ahead_iff, same]
      exact ahead_iff.mp ahead
    · intro arrives
      refine List.eq_nil_iff_forall_not_mem.mpr ?_
      intro row member
      obtain ⟨start, stop, opens, _⟩ := arrives.selects content ahead member
      exact idle start stop opens

/-- A minute that the start of a window divides loses its front. -/
theorem Ahead.lost (ahead : Ahead coverage left) (content : raw.Perm (left ++ coverage.counted))
    (divided : ¬ WholeMinutes server raw coverage call) :
    ∃ row, Lost raw (coverage.invoke server raw call) row := by
  unfold WholeMinutes at divided
  push Not at divided
  obtain ⟨start, stop, opens, row, inside, other, inside', before, after, below, same⟩ := divided
  have counts := ahead.counts content opens
  rcases invoke_cases server raw coverage call with ⟨start', stop', opens', added⟩ | ⟨idle, _⟩
  · obtain ⟨rfl, rfl⟩ := opens.unique opens'
    have uncounted : row ∉ (coverage.invoke server raw call).counted := by
      intro counted
      cases List.mem_append.mp (added.mem_iff.mp counted) with
      | inl known =>
        have edge := (opens.edge counts).2 row known
        have minute := floorMinute_le row.time
        have cut := server.bind_le start
        have proper := opens.proper
        omega
      | inr selected =>
        exact absurd ((opens.between_iff counts).mp (List.of_mem_filter selected)).1 before.not_ge
    have counted : other ∈ (coverage.invoke server raw call).counted :=
      added.mem_iff.mpr (List.mem_append_right _ (List.mem_filter.mpr
        ⟨inside', (opens.between_iff counts).mpr ⟨after, below⟩⟩))
    refine ⟨row, ?_, .inl ⟨other, counted, same ▸ floorMinute_le row.time⟩⟩
    rw [List.count_eq_zero.mpr uncounted]
    exact List.count_pos_iff.mpr inside
  · exact absurd opens (idle start stop)

/-! ### Whole runs -/

theorem complete_run (complete : coverage.counted.Perm raw) (server : Server)
    (calls : List Invocation) : (coverage.run server raw calls).counted.Perm raw := by
  induction calls generalizing coverage with
  | nil => exact complete
  | cons call rest ih =>
    rcases invoke_cases server raw coverage call with ⟨_, _, opens, _⟩ | ⟨_, same⟩
    · exact absurd complete.length_eq ((plan_needs coverage).mp opens.needed).ne
    · exact ih (same ▸ complete)

theorem Ahead.run {calls : List Invocation} (ahead : Ahead coverage left)
    (content : raw.Perm (left ++ coverage.counted))
    (whole : Meets (Coverage.invoke server raw) (WholeMinutes server raw) coverage calls)
    (reaches : Reaches server raw coverage calls) :
    (coverage.run server raw calls).counted.Perm raw := by
  induction calls generalizing coverage left with
  | nil => exact reaches.elim
  | cons call rest ih =>
    obtain ⟨here, later⟩ := whole
    obtain ⟨remains, content, ahead, arrived⟩ := ahead.invoke content here
    cases reaches with
    | inl now =>
      rw [arrived now, List.nil_append] at content
      exact complete_run content.symm server rest
    | inr later' => exact ih ahead content later later'

theorem Ahead.whole {calls : List Invocation} (ahead : Ahead coverage left)
    (content : raw.Perm (left ++ coverage.counted))
    (complete : (coverage.run server raw calls).counted.Perm raw) :
    Meets (Coverage.invoke server raw) (WholeMinutes server raw) coverage calls := by
  induction calls generalizing coverage left with
  | nil => trivial
  | cons call rest ih =>
    by_cases here : WholeMinutes server raw coverage call
    · obtain ⟨remains, content, ahead, _⟩ := ahead.invoke content here
      exact ⟨here, ih ahead content complete⟩
    · obtain ⟨row, lost⟩ := ahead.lost content here
      exact absurd complete (lost.run server rest).incomplete

/-- Once an invocation has reached the first raw row, every row is counted exactly
once if and only if the rows that were missing are all older than the first minute
of the rollup, and no invocation started inside a minute of rows. -/
theorem backfill_completes_iff (server : Server) {raw missing : List SpanRow}
    {coverage : Coverage} {calls : List Invocation}
    (content : raw.Perm (missing ++ coverage.counted))
    (reaches : Reaches server raw coverage calls) :
    (coverage.run server raw calls).counted.Perm raw ↔ Ahead coverage missing ∧
      Meets (Coverage.invoke server raw) (WholeMinutes server raw) coverage calls := by
  constructor
  · intro complete
    have ahead : Ahead coverage missing := by
      by_contra behind
      obtain ⟨row, lost⟩ := lost_of_not_ahead content behind
      exact (lost.run server calls).incomplete complete
    exact ⟨ahead, ahead.whole content complete⟩
  · rintro ⟨ahead, whole⟩
    exact ahead.run content whole reaches

/-- A rollup whose view has seen one block. -/
def counting (rows : List SpanRow) : Coverage :=
  ⟨[⟨∅, rows⟩], [] ++ Block.write ⟨∅, rows⟩, .insert .empty⟩

/-- Spans ten, seventy and ninety seconds into an hour, and an hour to backfill. -/
def firstSpan : SpanRow := { ts := 10000 }
def secondSpan : SpanRow := { ts := 70000 }
def thirdSpan : SpanRow := { ts := 90000 }
def hourBack : Invocation := { hours := 1, dictionary := ∅ }

theorem backfill_completes_minutes :
    ((counting [thirdSpan]).run .deployed [firstSpan, thirdSpan] [hourBack]).counted.Perm
      [firstSpan, thirdSpan] := by
  have reaches : Reaches .deployed [firstSpan, thirdSpan] (counting [thirdSpan]) [hourBack] :=
    .inl (.inr ⟨rfl, 60000000, -3540000000, 10000000, by decide +kernel, by decide +kernel,
      by decide +kernel, by decide⟩)
  refine (backfill_completes_iff .deployed (List.Perm.refl ([firstSpan] ++ [thirdSpan]))
    reaches).mpr ⟨fun row member => ⟨60000000, by decide +kernel, ?_⟩, ?_, trivial⟩
  · obtain rfl := List.mem_singleton.mp member
    decide
  · intro start stop _ row inside other inside' before after _ same
    have minutes : ∀ r ∈ [firstSpan, thirdSpan], ∀ s ∈ [firstSpan, thirdSpan],
        floorMinute r.time = floorMinute s.time → r = s := by decide
    obtain rfl := minutes row inside other inside' same
    exact absurd before after.not_gt

/-- A view created inside a minute, and a rollup that was empty: nothing is ever
counted of what is missing. -/
theorem backfill_misses :
    (Reaches .deployed [secondSpan, thirdSpan] (counting [thirdSpan]) [hourBack] ∧
      ¬ ((counting [thirdSpan]).run .deployed [secondSpan, thirdSpan] [hourBack]).counted.Perm
        [secondSpan, thirdSpan]) ∧
    Reaches .deployed [thirdSpan] (counting []) [hourBack] ∧
      ¬ ((counting []).run .deployed [thirdSpan] [hourBack]).counted.Perm [thirdSpan] := by
  refine ⟨⟨.inl (.inr ⟨rfl, 60000000, -3540000000, 70000000, ?_⟩), by decide +kernel⟩,
    .inl (.inr ⟨rfl, 0, -3600000000, 90000000, ?_⟩), by decide +kernel⟩
  · exact ⟨by decide +kernel, by decide +kernel, by decide +kernel, by decide⟩
  · exact ⟨by decide +kernel, by decide +kernel, by decide +kernel, by decide⟩

end TelemetryEngine.Rollup
