import TelemetryEngine.Rollup.Completion

/-! One backfill among the inserts of the ingestion. The window is chosen once;
a span that arrives afterwards with an event time in a chunk still to come is
counted by the view and then by the chunk. -/
namespace TelemetryEngine.Rollup
open Cardinality Foundation Foundation.MergingTable Foundation.Tiling

namespace Coverage

def insert (coverage : Coverage) (block : Block) : Coverage :=
  ⟨coverage.blocks ++ [block], coverage.table ++ block.write, coverage.held.insert⟩

def merge (coverage : Coverage) (merging : Merging RollupKey RollupState) : Coverage :=
  ⟨coverage.blocks, (merging coverage.table).1,
    holds_merging coverage.held (merging coverage.table).2⟩

@[simp] theorem insert_counted (coverage : Coverage) (block : Block) :
    (coverage.insert block).counted = coverage.counted ++ block.rows := by
  simp [counted, insert]

end Coverage

/-- A backfill under way: the two tables, and the chunks it has yet to insert.
`arrived` are the rows inserted since the plan; the code keeps no such list. -/
structure Underway where
  raw : List SpanRow
  coverage : Coverage
  chunks : List Chunk
  arrived : List SpanRow := []

/-- What may happen next. -/
inductive Happening where
  /-- A block arrives in `spans_raw` and, through the view, in `spans_1m`. -/
  | ingest (block : Block)
  /-- The backfill inserts its next chunk. -/
  | chunk (dictionary : Allowlist)
  | merge (merging : Merging RollupKey RollupState)

namespace Underway

/-- The plan has been made, and the invocation goes on to its first chunk. -/
def planned (server : Server) (raw : List SpanRow) (coverage : Coverage) (call : Invocation) :
    Underway where
  raw := raw
  coverage := coverage
  chunks := (rollupBackfill server raw coverage.table call).trace

def step (server : Server) (now : Underway) : Happening → Underway
  | .ingest block =>
    { now with
      raw := now.raw ++ block.rows
      coverage := now.coverage.insert block
      arrived := now.arrived ++ block.rows }
  | .chunk dictionary =>
    match now.chunks with
    | [] => now
    | chunk :: rest =>
      { now with
        coverage := now.coverage.insert
          ⟨dictionary, now.raw.filter (server.between chunk.start chunk.stop)⟩
        chunks := rest }
  | .merge merging => { now with coverage := now.coverage.merge merging }

def run (server : Server) (now : Underway) (happenings : List Happening) : Underway :=
  happenings.foldl (step server) now

/-- Every raw row contributes to the rollup at most once. -/
def CountsOnce (now : Underway) : Prop := now.coverage.counted.Subperm now.raw

instance (now : Underway) : Decidable now.CountsOnce :=
  inferInstanceAs (Decidable (List.Subperm _ _))

end Underway

/-- The next chunk selects no row that arrived since the plan. -/
def Undisturbed (server : Server) (now : Underway) : Happening → Prop
  | .chunk _ => ∀ chunk ∈ now.chunks.head?, ∀ row ∈ now.arrived,
      server.between chunk.start chunk.stop row = false
  | _ => True

instance (server : Server) (now : Underway) : ∀ happening, Decidable (Undisturbed server now happening)
  | .chunk _ => inferInstanceAs (Decidable (∀ chunk ∈ now.chunks.head?, _))
  | .ingest _ | .merge _ => inferInstanceAs (Decidable True)

/-- What holds of a backfill that has not been disturbed. -/
structure Apart (server : Server) (now : Underway) : Prop where
  content : ∃ left, now.raw.Perm (left ++ now.coverage.counted)
  arrived : now.arrived ⊆ now.coverage.counted
  ahead : ∀ row ∈ now.coverage.counted, row ∈ now.arrived ∨
    ∀ chunk ∈ now.chunks, server.between chunk.start chunk.stop row = false
  separate : now.chunks.Pairwise fun first second =>
    ∀ row, server.between first.start first.stop row = true →
      server.between second.start second.stop row = false

variable {server : Server} {now : Underway}

theorem chunks_separate {chunks : List Chunk} {start stop : Int}
    (tiles : Tiles Chunk.start Chunk.stop chunks start stop) :
    chunks.Pairwise fun first second => ∀ row, server.between first.start first.stop row = true →
      server.between second.start second.stop row = false := by
  refine (tiles_pairwise tiles).imp fun {first second} before row inside => ?_
  have below := (Server.between_iff.mp inside).2
  exact Server.between_eq_false_iff.mpr (.inl (below.trans_le (server.bind_mono _ _ before)))

theorem planned_apart {raw missing : List SpanRow} {coverage : Coverage}
    (content : raw.Perm (missing ++ coverage.counted)) (call : Invocation) :
    Apart server (.planned server raw coverage call) := by
  rcases rollupBackfill_cases server raw coverage.table call with
    ⟨start, stop, opens, tiles⟩ | ⟨_, none⟩
  · refine ⟨⟨missing, content⟩, List.nil_subset _, fun row counted => .inr ?_,
      chunks_separate tiles⟩
    intro chunk member
    have outside := opens.fresh (List.ne_nil_of_mem counted) counted
    obtain ⟨lower, _, upper⟩ := tiles_bounds tiles member
    have early := server.bind_mono _ _ lower
    have late := server.bind_mono _ _ upper
    rw [Server.between_eq_false_iff] at outside ⊢
    omega
  · refine ⟨⟨missing, content⟩, List.nil_subset _, fun row _ => .inr ?_, ?_⟩
    · intro chunk member
      simp [Underway.planned, none] at member
    · simp [Underway.planned, none]

theorem Apart.step (apart : Apart server now) {happening : Happening}
    (undisturbed : Undisturbed server now happening) : Apart server (now.step server happening) := by
  obtain ⟨⟨left, content⟩, arrived, ahead, separate⟩ := apart
  cases happening with
  | merge merging => exact ⟨⟨left, content⟩, arrived, ahead, separate⟩
  | ingest block =>
    refine ⟨⟨left, ?_⟩, fun row member => ?_, fun row counted => ?_, separate⟩
    · simpa [Underway.step] using content.append_right block.rows
    · simp only [Underway.step, Coverage.insert_counted, List.mem_append] at member ⊢
      exact member.imp_left (@arrived row)
    · simp only [Underway.step, Coverage.insert_counted, List.mem_append] at counted ⊢
      rcases counted with before | here
      · exact (ahead row before).imp_left .inl
      · exact .inl (.inr here)
  | chunk dictionary =>
    cases pending : now.chunks with
    | nil =>
      simp only [Underway.step, pending]
      exact ⟨⟨left, content⟩, arrived, ahead, separate⟩
    | cons chunk rest =>
      rw [pending] at ahead separate
      obtain ⟨others, separate⟩ := List.pairwise_cons.mp separate
      have none : now.coverage.counted.filter (server.between chunk.start chunk.stop) = [] := by
        refine List.filter_eq_nil_iff.mpr fun row counted => ?_
        rcases ahead row counted with here | apart
        · simp [undisturbed chunk (by simp [pending]) row here]
        · simp [apart chunk List.mem_cons_self]
      simp only [Underway.step, pending]
      refine ⟨⟨left.filter fun row => !server.between chunk.start chunk.stop row, ?_⟩,
        fun row member => ?_, fun row counted => ?_, separate⟩
      · rw [Coverage.insert_counted]
        exact perm_filter_moves content none
      · rw [Coverage.insert_counted]
        exact List.mem_append_left _ (arrived member)
      · rw [Coverage.insert_counted] at counted
        cases List.mem_append.mp counted with
        | inl before =>
          exact (ahead row before).imp_right fun apart c member => apart c (List.mem_cons_of_mem _ member)
        | inr selected =>
          exact .inr fun c member => others c member row (List.of_mem_filter selected)

def Doubled (now : Underway) : Prop := ∃ row, now.raw.count row < now.coverage.counted.count row

/-- Nothing takes a row out of the rollup again. -/
theorem Doubled.step (doubled : Doubled now) (server : Server) (happening : Happening) :
    Doubled (now.step server happening) := by
  obtain ⟨row, more⟩ := doubled
  refine ⟨row, ?_⟩
  cases happening with
  | merge => exact more
  | ingest block =>
    simp only [Underway.step, Coverage.insert_counted, List.count_append]
    omega
  | chunk dictionary =>
    simp only [Underway.step]
    split
    · exact more
    · rw [Coverage.insert_counted, List.count_append]
      exact more.trans_le (Nat.le_add_right _ _)

theorem Doubled.run (doubled : Doubled now) (server : Server) (happenings : List Happening) :
    Doubled (now.run server happenings) := by
  induction happenings generalizing now with
  | nil => exact doubled
  | cons happening rest ih => exact ih (doubled.step server happening)

theorem Apart.disturbed (apart : Apart server now) {happening : Happening}
    (disturbed : ¬ Undisturbed server now happening) : Doubled (now.step server happening) := by
  cases happening with
  | ingest | merge => exact absurd trivial disturbed
  | chunk dictionary =>
    simp only [Undisturbed] at disturbed
    push Not at disturbed
    obtain ⟨chunk, next, row, late, selected⟩ := disturbed
    rw [Ne, Bool.not_eq_false] at selected
    refine ⟨row, ?_⟩
    cases pending : now.chunks with
    | nil => simp [pending] at next
    | cons first rest =>
      obtain rfl : first = chunk := by simpa [pending] using next
      simp only [Underway.step, pending, Coverage.insert_counted, List.count_append]
      rw [List.count_filter selected]
      have counted := List.count_pos_iff.mpr (apart.arrived late)
      omega

theorem Apart.counts_once (apart : Apart server now) : now.CountsOnce := by
  obtain ⟨left, content⟩ := apart.content
  exact (List.sublist_append_right left _).subperm.trans content.symm.subperm

theorem Doubled.not_once (doubled : Doubled now) : ¬ now.CountsOnce := by
  obtain ⟨row, more⟩ := doubled
  exact fun once => absurd (once.count_le row) more.not_ge

theorem Apart.run_iff (apart : Apart server now) (happenings : List Happening) :
    (now.run server happenings).CountsOnce ↔
      Meets (Underway.step server) (Undisturbed server) now happenings := by
  induction happenings generalizing now with
  | nil => exact iff_of_true apart.counts_once trivial
  | cons happening rest ih =>
    by_cases undisturbed : Undisturbed server now happening
    · exact (ih (apart.step undisturbed)).trans (and_iff_right undisturbed).symm
    · refine iff_of_false ?_ fun meets => undisturbed meets.1
      exact ((apart.disturbed undisturbed).run server rest).not_once

/-- However a backfill and the ingestion interleave, no row is counted twice exactly
when no chunk selects a row that arrived after the plan. -/
theorem backfill_counts_once_iff (server : Server) {raw missing : List SpanRow} {coverage : Coverage}
    (content : raw.Perm (missing ++ coverage.counted)) (call : Invocation)
    (happenings : List Happening) :
    ((Underway.planned server raw coverage call).run server happenings).CountsOnce ↔
      Meets (Underway.step server) (Undisturbed server) (.planned server raw coverage call)
        happenings :=
  (planned_apart content call).run_iff happenings

/-- A span that arrives during the backfill, with the event time of its start. -/
def arrival (ts : Nat) : Happening := .ingest ⟨∅, [{ ts }]⟩

theorem backfill_counts_once_after :
    ((Underway.planned .deployed [firstSpan, thirdSpan] (counting [thirdSpan]) hourBack).run
      .deployed [arrival 100000, .chunk ∅]).CountsOnce := by
  refine (backfill_counts_once_iff .deployed (List.Perm.refl ([firstSpan] ++ [thirdSpan])) hourBack
    [arrival 100000, .chunk ∅]).mpr ⟨trivial, ?_, trivial⟩
  decide +kernel

/-- A span started twenty seconds into the hour arrives between the plan and its chunk. -/
theorem backfill_counts_twice :
    [firstSpan, thirdSpan].Perm ([firstSpan] ++ (counting [thirdSpan]).counted) ∧
      ¬ ((Underway.planned .deployed [firstSpan, thirdSpan] (counting [thirdSpan]) hourBack).run
        .deployed [arrival 20000, .chunk ∅]).CountsOnce :=
  ⟨.refl _, by decide +kernel⟩

end TelemetryEngine.Rollup
