import TelemetryEngine.Rollup.Completion

/-! A backfill that fails at a chunk. The next plan takes the first minute the
failed run has written for the edge of the rollup, and what the failed run left
lies behind that edge. -/
namespace TelemetryEngine.Rollup
open Cardinality Foundation Foundation.Calendar Foundation.MergingTable Foundation.Tiling

/-- The invocation, whose `k`th chunk is not inserted and which ends there. -/
def Coverage.interrupted (server : Server) (raw : List SpanRow) (coverage : Coverage)
    (call : Invocation) (k : Nat) : Coverage :=
  let merged := call.merging coverage.table
  let written := ((rollupBackfill server raw merged.1 call).trace.take k).map (call.block server raw)
  { blocks := coverage.blocks ++ written
    table := merged.1 ++ written.flatMap Block.write
    held := holds_append (holds_merging coverage.held merged.2) written }

/-- The rollup has the merged content of the whole run: it counts every raw row of
the window exactly once, and no raw row twice. -/
structure Recovered (server : Server) (raw : List SpanRow) (start stop : Int)
    (whole later : Coverage) : Prop where
  content : ∀ selected, total selected later.table = total selected whole.table
  window : ∀ row ∈ raw, server.between start stop row = true →
    later.counted.count row = raw.count row
  once : later.counted.Subperm raw

variable {server : Server} {raw missing : List SpanRow} {coverage later : Coverage}
  {call : Invocation} {start stop : Int} {chunk : Chunk} {k : Nat}

/-! ### What is written -/

theorem rollupBackfill_congr {table table' : Spans1m}
    (same : plan server raw table = plan server raw table') :
    rollupBackfill server raw table call = rollupBackfill server raw table' call := by
  simp only [rollupBackfill, same]

/-- The chunks of an invocation, merged or not. -/
theorem merged_trace (server : Server) (raw : List SpanRow) (coverage : Coverage)
    (call : Invocation) :
    (rollupBackfill server raw (call.merging coverage.table).1 call).trace =
      (rollupBackfill server raw coverage.table call).trace := by
  have held := holds_merging coverage.held (call.merging coverage.table).2
  rw [rollupBackfill_congr (plan_congr held coverage.held (.refl _))]

theorem invoke_blocks : (coverage.invoke server raw call).blocks = coverage.blocks ++
    (rollupBackfill server raw coverage.table call).trace.map (call.block server raw) := by
  rw [← merged_trace]
  rfl

theorem interrupted_blocks : (coverage.interrupted server raw call k).blocks = coverage.blocks ++
    ((rollupBackfill server raw coverage.table call).trace.take k).map (call.block server raw) := by
  rw [← merged_trace]
  rfl

theorem coverage_total (coverage : Coverage) (selected : RollupKey → Bool) :
    total selected coverage.table =
      (coverage.blocks.map fun block => total selected block.write).sum :=
  holds_total coverage.held

theorem sum_empty {blocks : List Block} (empty : blocks.flatMap Block.rows = [])
    (selected : RollupKey → Bool) :
    (blocks.map fun block => total selected block.write).sum = 0 := by
  refine List.sum_eq_zero ?_
  intro state member
  obtain ⟨block, inside, rfl⟩ := List.mem_map.mp member
  have none : block.rows = [] := List.flatMap_eq_nil_iff.mp empty block inside
  rw [Block.write, none]
  rfl

theorem blocks_rows (chunks : List Chunk) :
    (chunks.map (call.block server raw)).flatMap Block.rows =
      chunks.flatMap fun chunk => raw.filter (server.between chunk.start chunk.stop) := by
  rw [List.flatMap_map]
  rfl

/-! ### The failed run -/

theorem Invocation.Opens.tiles (opens : call.Opens (plan server raw coverage.table) start stop) :
    Tiles Chunk.start Chunk.stop (rollupBackfill server raw coverage.table call).trace start stop := by
  rcases rollupBackfill_cases server raw coverage.table call with ⟨_, _, opens', tiles⟩ | ⟨idle, _⟩
  · obtain ⟨rfl, rfl⟩ := opens.unique opens'
    exact tiles
  · exact absurd opens (idle start stop)

theorem Invocation.Opens.parts (opens : call.Opens (plan server raw coverage.table) start stop)
    (failing : (rollupBackfill server raw coverage.table call).trace[k]? = some chunk) :
    let chunks := (rollupBackfill server raw coverage.table call).trace
    Tiles Chunk.start Chunk.stop (chunks.take k) start chunk.start ∧
      Tiles Chunk.start Chunk.stop (chunks.drop k) chunk.start stop := by
  intro chunks
  have tiles := opens.tiles
  rw [← List.take_append_drop k (rollupBackfill server raw coverage.table call).trace] at tiles
  obtain ⟨edge, front, back⟩ := tiles_append.mp tiles
  have inside := (List.getElem?_eq_some_iff.mp failing).1
  have first : chunks.drop k = chunk :: chunks.drop (k + 1) := by
    rw [List.drop_eq_getElem_cons inside, (List.getElem?_eq_some_iff.mp failing).2]
  have start : chunk.start = edge := by
    change Tiles Chunk.start Chunk.stop (chunks.drop k) edge stop at back
    rw [first] at back
    exact back.1
  exact ⟨start ▸ front, start ▸ back⟩

theorem interrupted_counted (opens : call.Opens (plan server raw coverage.table) start stop)
    (failing : (rollupBackfill server raw coverage.table call).trace[k]? = some chunk) :
    (coverage.interrupted server raw call k).counted.Perm
      (coverage.counted ++ raw.filter (server.between start chunk.start)) := by
  rw [Coverage.counted, interrupted_blocks, List.flatMap_append, blocks_rows]
  exact (chunks_select (opens.parts failing).1).append_left _

theorem Invocation.Opens.uncounted (opens : call.Opens (plan server raw coverage.table) start stop)
    {row : SpanRow} (inside : server.between start stop row = true) : row ∉ coverage.counted := by
  intro counted
  have outside := opens.fresh (List.ne_nil_of_mem counted) counted
  rw [inside] at outside
  contradiction

/-- A row of the window on the other side of the failed chunk's start. -/
theorem between_split (opens : call.Opens (plan server raw coverage.table) start stop)
    (failing : (rollupBackfill server raw coverage.table call).trace[k]? = some chunk)
    (row : SpanRow) : server.between start stop row = true ↔
      server.between start chunk.start row = true ∨ server.between chunk.start stop row = true := by
  obtain ⟨front, back⟩ := opens.parts failing
  have early := server.bind_mono _ _ (tiles_le front)
  have late := server.bind_mono _ _ (tiles_le back)
  rw [Server.between_iff, Server.between_iff, Server.between_iff]
  omega

/-- What the failed run wrote hides what it did not come to. -/
theorem interrupted_lost (opens : call.Opens (plan server raw coverage.table) start stop)
    (failing : (rollupBackfill server raw coverage.table call).trace[k]? = some chunk)
    {early late : SpanRow} (written : early ∈ raw)
    (before : server.between start chunk.start early = true) (left : late ∈ raw)
    (after : server.between chunk.start stop late = true) :
    Lost raw (coverage.interrupted server raw call k) late := by
  have counted := interrupted_counted opens failing
  constructor
  · have fresh := opens.uncounted ((between_split opens failing late).mpr (.inr after))
    have unwritten : late ∉ raw.filter (server.between start chunk.start) := by
      intro member
      have below := (Server.between_iff.mp (List.of_mem_filter member)).2
      exact absurd (Server.between_iff.mp after).1 below.not_ge
    rw [counted.count_eq, List.count_append, List.count_eq_zero.mpr fresh,
      List.count_eq_zero.mpr unwritten]
    exact List.count_pos_iff.mpr left
  · refine .inl ⟨early, counted.mem_iff.mpr (List.mem_append_right _
      (List.mem_filter.mpr ⟨written, before⟩)), ?_⟩
    have older := (Server.between_iff.mp before).2.trans_le (Server.between_iff.mp after).1
    exact (floorMinute_le _).trans older.le

theorem window_counted (opens : call.Opens (plan server raw coverage.table) start stop)
    (content : raw.Perm (missing ++ coverage.counted))
    (counted : later.counted.Perm (coverage.counted ++ raw.filter (server.between start stop))) :
    (∀ row ∈ raw, server.between start stop row = true →
      later.counted.count row = raw.count row) ∧ later.counted.Subperm raw := by
  constructor
  · intro row _ inside
    rw [counted.count_eq, List.count_append, List.count_eq_zero.mpr (opens.uncounted inside),
      List.count_filter inside, zero_add]
  · have none : coverage.counted.filter (server.between start stop) = [] :=
      List.filter_eq_nil_iff.mpr fun row member inside => opens.uncounted inside member
    have moved := perm_filter_moves content none
    exact counted.subperm.trans ((List.sublist_append_right _ _).subperm.trans moved.symm.subperm)

/-- The failed run wrote nothing: invoked again, it runs as it would have. -/
theorem interrupted_again (opens : call.Opens (plan server raw coverage.table) start stop)
    (content : raw.Perm (missing ++ coverage.counted))
    (failing : (rollupBackfill server raw coverage.table call).trace[k]? = some chunk)
    (nothing : ∀ row ∈ raw, server.between start chunk.start row = false) :
    Recovered server raw start stop (coverage.invoke server raw call)
      ((coverage.interrupted server raw call k).run server raw [call]) := by
  set chunks := (rollupBackfill server raw coverage.table call).trace with trace
  have empty : ((chunks.take k).map (call.block server raw)).flatMap Block.rows = [] := by
    rw [blocks_rows, ← List.perm_nil]
    refine (chunks_select (opens.parts failing).1).trans (.of_eq (List.filter_eq_nil_iff.mpr ?_))
    intro row member
    simp [nothing row member]
  have same : plan server raw (coverage.interrupted server raw call k).table =
      plan server raw coverage.table := by
    refine plan_congr (Coverage.held _) coverage.held (.of_eq ?_)
    rw [interrupted_blocks, List.flatMap_append, empty, List.append_nil]
  have blocks : ((coverage.interrupted server raw call k).run server raw [call]).blocks =
      coverage.blocks ++ (chunks.take k).map (call.block server raw) ++
        chunks.map (call.block server raw) := by
    change ((coverage.interrupted server raw call k).invoke server raw call).blocks = _
    rw [invoke_blocks, interrupted_blocks, rollupBackfill_congr same]
  have counted : ((coverage.interrupted server raw call k).run server raw [call]).counted.Perm
      (coverage.counted ++ raw.filter (server.between start stop)) := by
    rw [Coverage.counted, blocks, List.flatMap_append, List.flatMap_append, empty, List.append_nil,
      blocks_rows]
    exact (chunks_select opens.tiles).append_left _
  obtain ⟨window, once⟩ := window_counted opens content counted
  refine ⟨fun selected => ?_, window, once⟩
  rw [coverage_total, coverage_total, blocks, invoke_blocks]
  simp only [List.map_append, List.sum_append]
  rw [sum_empty empty, add_zero]

theorem interrupted_done (opens : call.Opens (plan server raw coverage.table) start stop)
    (content : raw.Perm (missing ++ coverage.counted))
    (failing : (rollupBackfill server raw coverage.table call).trace[k]? = some chunk)
    (nothing : ∀ row ∈ raw, server.between chunk.start stop row = false) :
    Recovered server raw start stop (coverage.invoke server raw call)
      (coverage.interrupted server raw call k) := by
  set chunks := (rollupBackfill server raw coverage.table call).trace with trace
  have empty : ((chunks.drop k).map (call.block server raw)).flatMap Block.rows = [] := by
    rw [blocks_rows, ← List.perm_nil]
    refine (chunks_select (opens.parts failing).2).trans (.of_eq (List.filter_eq_nil_iff.mpr ?_))
    intro row member
    simp [nothing row member]
  have counted : (coverage.interrupted server raw call k).counted.Perm
      (coverage.counted ++ raw.filter (server.between start stop)) := by
    refine (interrupted_counted opens failing).trans (.append_left _ (.of_eq ?_))
    refine List.filter_congr fun row member => ?_
    rw [Bool.eq_iff_iff, between_split opens failing, nothing row member]
    simp
  obtain ⟨window, once⟩ := window_counted opens content counted
  have parted : chunks.map (call.block server raw) = (chunks.take k).map (call.block server raw) ++
      (chunks.drop k).map (call.block server raw) := by
    rw [← List.map_append, List.take_append_drop]
  refine ⟨fun selected => ?_, window, once⟩
  rw [coverage_total, coverage_total, interrupted_blocks, invoke_blocks, ← trace, parted]
  simp only [List.map_append, List.sum_append]
  rw [sum_empty empty, add_zero]

/-- A failed backfill can be finished exactly when the chunks before the failure
select no row, or the failed chunk and those after it select none. -/
theorem interrupted_recovers_iff (server : Server) {raw missing : List SpanRow}
    {coverage : Coverage} {call : Invocation} {start stop : Int} {chunk : Chunk} {k : Nat}
    (content : raw.Perm (missing ++ coverage.counted))
    (opens : call.Opens (plan server raw coverage.table) start stop)
    (failing : (rollupBackfill server raw coverage.table call).trace[k]? = some chunk) :
    (∃ calls, Recovered server raw start stop (coverage.invoke server raw call)
      ((coverage.interrupted server raw call k).run server raw calls)) ↔
      (∀ row ∈ raw, server.between start chunk.start row = false) ∨
        ∀ row ∈ raw, server.between chunk.start stop row = false := by
  constructor
  · rintro ⟨calls, recovered⟩
    by_contra! both
    obtain ⟨⟨early, written, before⟩, late, left, after⟩ := both
    rw [Ne, Bool.not_eq_false] at before after
    have lost := (interrupted_lost opens failing written before left after).run server calls
    have inside := (between_split opens failing late).mpr (.inr after)
    exact absurd (recovered.window late left inside) lost.uncounted.ne
  · rintro (nothing | nothing)
    · exact ⟨[call], interrupted_again opens content failing nothing⟩
    · exact ⟨[], interrupted_done opens content failing nothing⟩

/-- Spans in the first and the third hour, and three hours to backfill. -/
def thirdHourSpan : SpanRow := { ts := 7300000 }
def fourthHourSpan : SpanRow := { ts := 10800000 }
def threeHoursBack : Invocation := { hourBack with hours := 3 }

theorem interrupted_recovers_first :
    ∃ calls, Recovered .deployed [firstSpan, thirdSpan] 10000000 60000000
      ((counting [thirdSpan]).invoke .deployed [firstSpan, thirdSpan] hourBack)
      (((counting [thirdSpan]).interrupted .deployed [firstSpan, thirdSpan] hourBack 0).run .deployed
        [firstSpan, thirdSpan] calls) := by
  have opens : hourBack.Opens (plan .deployed [firstSpan, thirdSpan] (counting [thirdSpan]).table)
      10000000 60000000 :=
    ⟨by decide +kernel, by decide +kernel, ⟨-3540000000, by decide +kernel, by decide +kernel⟩, rfl,
      by decide⟩
  have failing : (rollupBackfill .deployed [firstSpan, thirdSpan] (counting [thirdSpan]).table
      hourBack).trace[0]? = some ⟨10000000, 60000000⟩ := by decide +kernel
  exact (interrupted_recovers_iff .deployed (List.Perm.refl ([firstSpan] ++ [thirdSpan])) opens
    failing).mpr (.inl (by decide +kernel))

/-- The second chunk fails, and the span of the third hour is never counted. -/
theorem interrupted_misses :
    let raw := [firstSpan, thirdHourSpan, fourthHourSpan]
    let rollup := counting [fourthHourSpan]
    (rollupBackfill .deployed raw rollup.table threeHoursBack).trace[1]? =
      some ⟨3610000000, 7210000000⟩ ∧
    ∀ calls, ¬ Recovered .deployed raw 10000000 10800000000
      (rollup.invoke .deployed raw threeHoursBack)
      ((rollup.interrupted .deployed raw threeHoursBack 1).run .deployed raw calls) := by
  intro raw rollup
  have failing : (rollupBackfill .deployed raw rollup.table threeHoursBack).trace[1]? =
      some ⟨3610000000, 7210000000⟩ := by decide +kernel
  refine ⟨failing, fun calls recovered => ?_⟩
  have opens : threeHoursBack.Opens (plan .deployed raw rollup.table) 10000000 10800000000 :=
    ⟨by decide +kernel, by decide +kernel, ⟨0, by decide +kernel, by decide +kernel⟩, rfl, by decide⟩
  have lost := interrupted_lost opens failing (show firstSpan ∈ raw by decide) (by decide +kernel)
    (show thirdHourSpan ∈ raw by decide) (by decide +kernel)
  exact absurd (recovered.window thirdHourSpan (by decide) (by decide +kernel))
    (lost.run .deployed calls).uncounted.ne

end TelemetryEngine.Rollup
