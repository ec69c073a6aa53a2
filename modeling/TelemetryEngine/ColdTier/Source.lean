import TelemetryEngine.ColdTier.Export

/-! What a hot tier that holds fixed rows answers to the exporter. Every query may
still fail; one that succeeds tells the truth, and a Parquet file holds the rows
written to it. -/
namespace TelemetryEngine
open ColdTier Foundation.Calendar Foundation.Tiling

namespace Server

def select (server : Server) (rows : List SpanRow) (window : ExportWindow) : List SpanRow :=
  rows.filter (server.between window.start window.end_)

def answers (server : Server) (rows : List SpanRow) (window : ExportWindow) : WindowAnswers where
  count := .ok (server.select rows window).length
  batches := server.batches (server.select rows window)
  streamEnd := .ok ()
  close := .ok ()
  stored := id
  readBack := .ok ()
  sourceFingerprint := .ok (sourceFingerprint (server.select rows window))
  parquetFingerprint := .ok ()

end Server

namespace ColdTier

structure Truthful (server : Server) (rows : List SpanRow) (window : ExportWindow)
    (answers : WindowAnswers) : Prop where
  count : ∀ n, answers.count = .ok n → n = (server.select rows window).length
  streamed : answers.streamEnd = .ok () → answers.written.Perm (server.select rows window)
  stored : ∀ written, answers.stored written = written

variable {server : Server} {rows : List SpanRow} {window : ExportWindow} {answers : WindowAnswers}

theorem mem_select {row : SpanRow} : row ∈ server.select rows window ↔
    row ∈ rows ∧ server.bind window.start ≤ row.time ∧ row.time < server.bind window.end_ := by
  rw [Server.select, List.mem_filter, Server.between_iff]

theorem answers_truthful (server : Server) (rows : List SpanRow) (window : ExportWindow) :
    Truthful server rows window (server.answers rows window) :=
  ⟨by rintro n ⟨⟩; rfl, fun _ => server.batches_perm _, fun _ => rfl⟩

theorem Plan.select_apart (server : Server) (plan : Plan hour start stop horizon ws)
    {v w : ExportWindow} (hv : v ∈ ws) (hw : w ∈ ws) (ordered : v.end_ ≤ w.start) {row : SpanRow}
    (early : server.between v.start v.end_ row = true) :
    server.between w.start w.end_ row = false := by
  obtain ⟨_, before⟩ := Server.between_iff.mp early
  have bound := server.bind_le v.end_
  rw [Server.between_eq_false_iff, server.bind_whole (plan.later_start hv hw ordered)]
  omega

/-- No row is selected for two windows of a plan, although bound parameters may be
cut to whole seconds: only the first start and the last end can be inside one. -/
theorem Plan.select_once (server : Server) (plan : Plan hour start stop horizon ws) :
    ws.Pairwise fun v w => ∀ row : SpanRow,
      server.between v.start v.end_ row = true → server.between w.start w.end_ row = false :=
  (tiles_pairwise plan.tiles).imp_of_mem fun hv hw ordered _ =>
    plan.select_apart server hv hw ordered

theorem Plan.select_unique (server : Server) (plan : Plan hour start stop horizon ws)
    {v w : ExportWindow} (hv : v ∈ ws) (hw : w ∈ ws) {row : SpanRow}
    (first : server.between v.start v.end_ row = true)
    (second : server.between w.start w.end_ row = true) : v = w := by
  rcases tiles_separate plan.tiles hv hw with same | ordered | ordered
  · exact same
  · simp [plan.select_apart server hv hw ordered first] at second
  · simp [plan.select_apart server hw hv ordered second] at first

theorem Plan.select_all (server : Server) (plan : Plan hour start stop horizon ws) {row : SpanRow}
    (after : start ≤ row.time) (before : row.time < floorSecond stop) :
    ∃ w ∈ ws, server.between w.start w.end_ row = true := by
  have cut := floorSecond_le stop
  obtain ⟨w, member, first, last⟩ := tiles_cover plan.tiles after (before.trans_le cut)
  refine ⟨w, member, Server.between_iff.mpr ⟨(server.bind_le _).trans first, ?_⟩⟩
  cases plan.whole_ends rfl w member with
  | inl whole => rwa [server.bind_whole whole]
  | inr ends =>
    have bounds := tiles_bounds plan.tiles member
    have within := plan.within
    obtain rfl : stop = w.end_ := by omega
    exact before.trans_le (server.floorSecond_le_bind _)

theorem Truthful.verifies (truthful : Truthful server rows window answers)
    (verifies : Verifies answers) : answers.file.Perm (server.select rows window) := by
  rw [WindowAnswers.file, truthful.stored]
  exact truthful.streamed verifies.ended

theorem Truthful.skips (truthful : Truthful server rows window answers)
    (skips : Skips window answers result) : server.select rows window = [] := by
  cases skips.cause with
  | inl none => exact List.eq_nil_of_length_eq_zero (truthful.count 0 none).symm
  | inr streamed =>
    have empty := truthful.streamed streamed.ended
    rw [streamed.unopened] at empty
    exact empty.nil_eq.symm

theorem answers_passes (server : Server) (rows : List SpanRow) (window : ExportWindow) :
    Passes window (server.answers rows window) := by
  rw [passes_iff]
  have same : (server.answers rows window).file.Perm (server.select rows window) :=
    server.batches_perm _
  by_cases empty : server.select rows window = []
  · exact .inl (by simp [Server.answers, empty])
  · refine .inr (.inr ⟨?_, rfl, ?_, rfl, rfl, rfl, ⟨_, rfl, fingerprintsAgree_perm same empty⟩, rfl⟩)
    · rw [same.length_eq]
      rfl
    · intro none
      rw [none] at same
      exact empty same.nil_eq.symm

end ColdTier
end TelemetryEngine
