import TelemetryEngine.ColdTier.Rewind
import TelemetryEngine.Emitters.Otlp

/-! The lag margin against late rows. A row's event time is the start of its span,
and a trace is emitted when it ends, so its rows are older than the ingest delay by
the length of the trace. -/
namespace TelemetryEngine.ColdTier
open Foundation.Calendar Foundation.Tiling Emitters

/-- `mv_spans_raw` keeps the milliseconds of a span's start. -/
def Ingested (span : EmittedSpan) (row : SpanRow) : Prop := (row.ts : Int) = span.startNs / 1000000

/-- A call with the default margin made up to an instant. A rewind goes no further
than the call's own horizon. -/
structure Scheduled (instant : Int) (call : ExportCall) : Prop where
  margin : call.lagMargin = defaultLagMargin
  made : call.now ≤ instant
  rewinds : ∀ since, call.since = some since → since ≤ call.horizon

/-- The latest watermark a schedule can have written by an instant. -/
def latestWatermark (instant : Int) : Int := floorSecond instant - defaultLagMargin

theorem Scheduled.latest {call : ExportCall} (scheduled : Scheduled instant call) {t : Int}
    (before : t ≤ call.horizon) : floorSecond t ≤ latestWatermark instant := by
  have margin := scheduled.margin
  have made := scheduled.made
  simp only [ExportCall.horizon, defaultLagMargin, minute] at before margin
  simp only [latestWatermark, defaultLagMargin, floorSecond, floorTo, second, minute]
  omega

theorem Scheduled.rewind {call : ExportCall} {view : View} (scheduled : Scheduled instant call)
    (begun : moves <+: call.rewinds) (behind : ∀ m ∈ view.watermarks, m ≤ latestWatermark instant) :
    ∀ m ∈ (view.run moves).watermarks, m ≤ latestWatermark instant := by
  refine Foundation.foldl_invariant
    (P := fun later : View => ∀ m ∈ later.watermarks, m ≤ latestWatermark instant) ?_ behind
  intro later move member behind
  have member := begun.subset member
  unfold ExportCall.rewinds at member
  split at member
  case h_1 since back =>
    simp only [List.mem_cons, List.not_mem_nil, or_false] at member
    rcases member with rfl | rfl
    · simp [View.move]
    · exact List.forall_mem_cons.mpr ⟨scheduled.latest (scheduled.rewinds since back), behind⟩
  case h_2 => simp at member

theorem planned_end_le (call : ExportCall) (view : View) :
    ∀ window ∈ call.planned view, window.end_ ≤ call.horizon := by
  intro window member
  rcases call.planned_plan view with nothing | ⟨start, stop, _, plan⟩
  · simp [nothing] at member
  · have bounds := tiles_bounds plan.tiles member
    have within := plan.within
    omega

theorem Scheduled.step {tier : Tier} {call : ExportCall} (scheduled : Scheduled instant call)
    (behind : ∀ m ∈ tier.view.watermarks, m ≤ latestWatermark instant) :
    ∀ m ∈ (tier.step call).view.watermarks, m ≤ latestWatermark instant := by
  obtain ⟨_, moves, point, seen, _⟩ := tier.step_point call
  rw [seen]
  cases point with
  | early begun => exact scheduled.rewind begun behind
  | loop point =>
    have rewound := scheduled.rewind (List.prefix_refl call.rewinds) behind
    obtain ⟨fresh, marks, ends⟩ := point.watermarks (tier.view.run call.rewinds)
    rw [View.run_append, marks]
    refine List.forall_mem_append.mpr ⟨?_, rewound⟩
    intro m member
    obtain ⟨window, planned, rfl⟩ := ends m member
    exact scheduled.latest (planned_end_le call tier.view window planned)

/-- No schedule gets past the margin. -/
theorem scheduled_watermarks {tier : Tier} {calls : List ExportCall}
    (scheduled : ∀ call ∈ calls, Scheduled instant call)
    (behind : ∀ m ∈ tier.view.watermarks, m ≤ latestWatermark instant) :
    ∀ m ∈ (tier.steps calls).watermarks, m ≤ latestWatermark instant := by
  induction calls generalizing tier with
  | nil => exact behind
  | cons call rest ih =>
    obtain ⟨here, later⟩ := List.forall_mem_cons.mp scheduled
    exact ih later (here.step behind)

def emptyCall (instant : Int) : ExportCall where
  now := floorSecond instant
  oldest := .ok (Server.deployed.minTs [])
  answers := Server.deployed.answers []

theorem emptyCall_scheduled (instant : Int) : Scheduled instant (emptyCall instant) :=
  ⟨rfl, floorSecond_le instant, by simp [emptyCall]⟩

theorem emptyCall_watermark (late : 0 < latestWatermark instant) :
    latestWatermark instant ∈ (Tier.initial.steps [emptyCall instant]).watermarks := by
  have passes : ∀ window ∈ (emptyCall instant).planned Tier.initial.view,
      Passes window ((emptyCall instant).answers window) :=
    fun window _ => answers_passes .deployed [] window
  obtain ⟨moves, run, seen⟩ := Tier.initial.step_run rfl passes
  obtain ⟨windows, made, plan⟩ := planWindows_spec (show 0 < defaultWindow by decide) 0
    (emptyCall instant).now (emptyCall instant).lagMargin
  have watermark : (emptyCall instant).watermark Tier.initial.view = none := by
    rw [ExportCall.watermark_read _ rfl, Tier.initial_view]
    rfl
  have start : (emptyCall instant).start none = .ok (some 0) := rfl
  have planned : (emptyCall instant).planned Tier.initial.view = windows := by
    simp only [ExportCall.planned, watermark, start, made]
    rfl
  rw [planned] at run
  have horizon : max 0 ((emptyCall instant).now - (emptyCall instant).lagMargin) =
      latestWatermark instant := max_eq_right late.le
  rw [horizon] at plan
  have stop := tiles_stop plan.tiles
  cases last : windows.getLast? with
  | none =>
    rw [last] at stop
    exact absurd stop late.ne'
  | some window =>
    have ends : window.end_ = latestWatermark instant := by simpa [last] using stop.symm
    have whole : floorSecond (latestWatermark instant) = latestWatermark instant := by
      simp only [latestWatermark, defaultLagMargin, floorSecond, floorTo, second, minute]
      omega
    have marks : (Tier.initial.steps [emptyCall instant]).watermarks =
        (Tier.initial.step (emptyCall instant)).view.watermarks := rfl
    rw [marks, seen, View.run_append, run.watermarks]
    refine List.mem_append_left _ (List.mem_reverse.mpr (List.mem_map.mpr ⟨window, ?_, ?_⟩))
    · exact List.mem_of_getLast? last
    · rw [ends, whole]

def soleTenant : WorkloadGenerator where
  tenants := ⟨[⟨"tenant-0000", "enterprise"⟩], [1], rfl, by simp⟩
  errorRate := 2 / 100
  errorRate_range := by norm_num

/-- A chat of the largest model at its slowest, with an answer of the drawn length. -/
def slowChat (length : Positive) : StepDraws where
  embeddingsRoll := ⟨1 / 2, by norm_num⟩
  route := 0
  toolRoll := ⟨9 / 10, by norm_num⟩
  tool := ⟨0, ⟨45, by norm_num⟩⟩
  llm := {
    drift := 0
    inputLength := ⟨420, by norm_num⟩
    outputLength := length
    cachedShare := ⟨0, by norm_num⟩
    queueing := ⟨50, by norm_num⟩
    prefill := ⟨1, by norm_num⟩
    pacing := ⟨14 / 10, by norm_num⟩
    errorRoll := ⟨1 / 2, by norm_num⟩
    causeRoll := ⟨0, by norm_num⟩
    timeoutShare := ⟨0, by norm_num⟩
    failureShare := ⟨1 / 2, by norm_num⟩
    temperature := ⟨0, by norm_num⟩
    batchSize := 0
    requestId := 0
    promptHash := 0 }

def slowDraws (steps : List StepDraws) (some : steps ≠ []) (few : steps.length ≤ 4) : TraceDraws where
  tenant := ⟨0, by norm_num⟩
  model := .llama70b
  region := 0
  agent := 0
  cursor := ⟨1 / 2, by norm_num⟩
  steps := steps
  steps_pos := some
  steps_le := few
  tail := ⟨1 / 2, by norm_num⟩
  requestId := 0

/-- One answer of a hundred tokens, and two of the most a model may return. -/
def shortDraws : TraceDraws := slowDraws [slowChat ⟨100, by norm_num⟩] (by simp) (by simp)
def longDraws : TraceDraws :=
  slowDraws [slowChat ⟨4096, by norm_num⟩, slowChat ⟨4096, by norm_num⟩] (by simp) (by simp)

end TelemetryEngine.ColdTier
