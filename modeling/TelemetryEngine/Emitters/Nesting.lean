import TelemetryEngine.Emitters.Emittable

/-! How the spans of an emitted trace lie in time. Offsets and durations are cut to
nanoseconds apart from each other; a cut sum is never less than the sum of its cut
parts, so what is nested or in order in milliseconds stays so. -/
namespace TelemetryEngine.Emitters
open Foundation.Rounding

/-- One span as it is emitted, whatever its children. -/
def emitOne (traceStartNs : Int) (parent : Option Nat) (data : SpanData) : EmittedSpan where
  name := data.name
  kind := data.kind
  startNs := traceStartNs + msToNs data.startOffsetMs
  endNs := traceStartNs + msToNs data.startOffsetMs + msToNs data.durationMs
  attributes := data.attributes
  error := statusOf data.status
  parent

theorem emitSpan_eq (traceStartNs : Int) (parent : Option Nat) (next : Nat) (data : SpanData) :
    emitSpan traceStartNs parent next data =
      emitOne traceStartNs parent data :: emitAll traceStartNs next (next + 1) data.children := by
  cases data
  rw [emitSpan, emitOne]

theorem emitAll_leaves {spans : List SpanData} (leaves : ∀ span ∈ spans, span.children = [])
    (traceStartNs : Int) (parent next : Nat) :
    emitAll traceStartNs parent next spans = spans.map (emitOne traceStartNs (some parent)) := by
  induction spans generalizing next with
  | nil => rfl
  | cons span rest ih =>
    obtain ⟨leaf, others⟩ := List.forall_mem_cons.mp leaves
    rw [emitAll, emitSpan_eq, leaf, ih others]
    rfl

/-- A child is over before the next one starts. -/
theorem stepSpans_apart (errorRate : ℚ) (tenant : Tenant) (model : Model) (region : String)
    (step : Nat) (draws : List StepDraws) (kvUtilization cursorMs : ℚ) :
    (stepSpans errorRate tenant model region step draws kvUtilization cursorMs).1.Pairwise
      fun earlier later => earlier.startOffsetMs + earlier.durationMs ≤ later.startOffsetMs := by
  induction draws generalizing step kvUtilization cursorMs with
  | nil => exact .nil
  | cons draws rest ih =>
    obtain ⟨start, duration, _⟩ :=
      stepCall_times errorRate tenant model region draws kvUtilization cursorMs
    have waits := draws.tool.duration.property.le
    simp only [stepSpans]
    generalize stepCall errorRate tenant model region draws kvUtilization cursorMs = called at *
    split
    case isTrue =>
      obtain ⟨_, later⟩ := stepSpans_times errorRate tenant model region (step + 1) rest called.2
        (cursorMs + called.1.durationMs + draws.tool.duration.val)
      have afterTool := fun child member => (later child member).1
      refine .cons (List.forall_mem_cons.mpr ⟨?_, fun child member => ?_⟩) (.cons afterTool (ih _ _ _))
      · exact (congrArg (· + called.1.durationMs) start).le
      · have := afterTool child member
        rw [start]
        linarith
    case isFalse =>
      obtain ⟨_, later⟩ := stepSpans_times errorRate tenant model region (step + 1) rest called.2
        (cursorMs + called.1.durationMs)
      refine .cons (fun child member => ?_) (ih _ _ _)
      rw [start]
      exact (later child member).1

/-- The emitted spans of one invocation: the root, and its children in their order. -/
structure WellNested (root : EmittedSpan) (children : List EmittedSpan) (nowNs : Int) : Prop where
  root_parent : root.parent = none
  children_parent : ∀ child ∈ children, child.parent = some 0
  forward : ∀ span ∈ root :: children, span.startNs ≤ span.endNs
  inside : ∀ child ∈ children, root.startNs ≤ child.startNs ∧ child.endNs ≤ root.endNs
  apart : children.Pairwise fun earlier later => earlier.endNs ≤ later.startNs
  ends_now : root.endNs = nowNs
  finished : ∀ span ∈ root :: children, span.endNs ≤ nowNs

/-- Whatever is drawn and whenever it is emitted, a trace is one span for each of
the generated ones, nested in time, and over now. -/
theorem emitTrace_nested (generator : WorkloadGenerator) (draws : TraceDraws) (nowNs : Int) :
    let trace := (generateTrace generator draws).1
    let root := emitOne (traceStart trace nowNs) none trace.root
    let children := trace.root.children.map (emitOne (traceStart trace nowNs) (some 0))
    emitTrace trace nowNs = root :: children ∧
      (emitTrace trace nowNs).length = trace.spanCount ∧ WellNested root children nowNs := by
  intro trace root children
  obtain ⟨start, whole, _⟩ := generateTrace_times generator draws
  have lasts : 0 ≤ msToNs trace.root.durationMs := msToNs_nonneg whole
  have within : ∀ data ∈ trace.root.walk, Typed data.attributes ∧ 0 ≤ data.startOffsetMs ∧
      0 ≤ data.durationMs ∧ data.startOffsetMs + data.durationMs ≤ trace.root.durationMs :=
    generateTrace_within generator draws
  obtain ⟨_, leaves⟩ := stepSpans_times generator.errorRate
    (generator.tenants.sample draws.tenant) draws.model (regions.get draws.region) 0 draws.steps
    generator.kvUtilization draws.cursor.val
  have leaf : ∀ child ∈ trace.root.children, child.children = [] :=
    fun child member => (leaves child member).2
  have walked : trace.root.walk = trace.root :: walkAll trace.root.children := rfl
  rw [walked, walkAll_leaves leaf, List.forall_mem_cons] at within
  obtain ⟨_, within⟩ := within
  have begins : root.startNs = traceStart trace nowNs := by
    have offset : msToNs trace.root.startOffsetMs = 0 := by
      rw [start]
      simp [msToNs, truncate]
    simp only [root, emitOne, offset, add_zero]
  have ends : root.endNs = nowNs := by
    have total : root.endNs = root.startNs + msToNs trace.root.durationMs := rfl
    rw [total, begins, traceStart, sub_add_cancel]
  have inside : ∀ child ∈ children, root.startNs ≤ child.startNs ∧ child.startNs ≤ child.endNs ∧
      child.endNs ≤ root.endNs := by
    intro child member
    obtain ⟨data, generated, rfl⟩ := List.mem_map.mp member
    obtain ⟨_, early, duration, ended⟩ := within data generated
    have offset := msToNs_nonneg early
    have lasts := msToNs_nonneg duration
    have nested := msToNs_add_le early duration ended
    have total : root.endNs = root.startNs + msToNs trace.root.durationMs := rfl
    rw [total, begins]
    simp only [emitOne]
    omega
  have emitted : emitTrace trace nowNs = root :: children := by
    rw [emitTrace, Option.getD_none, emitSpan_eq, emitAll_leaves leaf]
  refine ⟨emitted, ?_, rfl, ?_, ?_, ?_, ?_, ends, ?_⟩
  · have fields := congrArg List.length (emitSpan_fields (traceStart trace nowNs) none 0 trace.root)
    rwa [List.length_map, List.length_map] at fields
  · intro child member
    obtain ⟨data, _, rfl⟩ := List.mem_map.mp member
    rfl
  · refine List.forall_mem_cons.mpr ⟨?_, fun child member => (inside child member).2.1⟩
    rw [begins, ends, traceStart]
    omega
  · exact fun child member => ⟨(inside child member).1, (inside child member).2.2⟩
  · have apart := stepSpans_apart generator.errorRate (generator.tenants.sample draws.tenant)
      draws.model (regions.get draws.region) 0 draws.steps generator.kvUtilization draws.cursor.val
    refine List.pairwise_map.mpr (apart.imp_of_mem fun {earlier later} member _ before => ?_)
    obtain ⟨_, early, duration, _⟩ := within earlier member
    have := msToNs_add_le early duration before
    simp only [emitOne]
    omega
  · refine List.forall_mem_cons.mpr ⟨ends.le, fun child member => ?_⟩
    exact ends ▸ (inside child member).2.2

end TelemetryEngine.Emitters
