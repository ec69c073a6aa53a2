import TelemetryEngine.Emitters.Workload

/-! `emitters/otlp.py`: traces as OpenTelemetry spans with explicit times. A span's
parent is its position among the spans emitted so far. -/
namespace TelemetryEngine.Emitters
open Foundation.Rounding

structure EmittedSpan where
  name : String
  kind : SpanKind
  startNs : Int
  endNs : Int
  attributes : Attributes
  /-- The description of an error status. -/
  error : Option String
  parent : Option Nat
  deriving DecidableEq, Repr

/-- Milliseconds as whole nanoseconds. -/
def msToNs (ms : ℚ) : Int := truncate (ms * 1000000)

/-- `_status`. -/
def statusOf (status : StatusClass) : Option String := if status = .ok then none else some status.value

mutual

/-- Emit one span and its children, as the `next`th span and those after it. -/
def emitSpan (traceStartNs : Int) (parent : Option Nat) (next : Nat) : SpanData → List EmittedSpan
  | ⟨name, kind, startOffsetMs, durationMs, attributes, status, children⟩ =>
    { name, kind, attributes, parent
      startNs := traceStartNs + msToNs startOffsetMs
      endNs := traceStartNs + msToNs startOffsetMs + msToNs durationMs
      error := statusOf status } :: emitAll traceStartNs next (next + 1) children

def emitAll (traceStartNs : Int) (parent next : Nat) : List SpanData → List EmittedSpan
  | [] => []
  | child :: rest =>
    let emitted := emitSpan traceStartNs (some parent) next child
    emitted ++ emitAll traceStartNs parent (next + emitted.length) rest

end

/-- Backdated by default, so that the trace ends now. -/
def traceStart (trace : TraceData) (nowNs : Int) : Int := nowNs - msToNs trace.root.durationMs

/-- Emit a whole generated trace. -/
def emitTrace (trace : TraceData) (nowNs : Int) (traceStartNs : Option Int := none) :
    List EmittedSpan :=
  emitSpan (traceStartNs.getD (traceStart trace nowNs)) none 0 trace.root

/-- The part of an emitted span that does not depend on its place in the tree. -/
def emittedFields (traceStartNs : Int) (data : SpanData) : Int × Int × Attributes :=
  (traceStartNs + msToNs data.startOffsetMs,
    traceStartNs + msToNs data.startOffsetMs + msToNs data.durationMs, data.attributes)

def EmittedSpan.fields (span : EmittedSpan) : Int × Int × Attributes :=
  (span.startNs, span.endNs, span.attributes)

mutual

theorem emitSpan_fields (traceStartNs : Int) (parent : Option Nat) (next : Nat) (span : SpanData) :
    (emitSpan traceStartNs parent next span).map EmittedSpan.fields =
      span.walk.map (emittedFields traceStartNs) := by
  cases span
  rw [emitSpan, SpanData.walk, List.map_cons, List.map_cons, emitAll_fields]
  rfl

theorem emitAll_fields (traceStartNs : Int) (parent next : Nat) (spans : List SpanData) :
    (emitAll traceStartNs parent next spans).map EmittedSpan.fields =
      (walkAll spans).map (emittedFields traceStartNs) := by
  cases spans with
  | nil => rfl
  | cons child rest =>
    rw [emitAll, walkAll, List.map_append, List.map_append, emitSpan_fields, emitAll_fields]

end

theorem emitSpan_starts (traceStartNs : Int) (parent : Option Nat) (next : Nat) (span : SpanData) :
    (emitSpan traceStartNs parent next span).map EmittedSpan.startNs =
      span.walk.map fun data => traceStartNs + msToNs data.startOffsetMs := by
  have starts := congrArg (List.map Prod.fst) (emitSpan_fields traceStartNs parent next span)
  rwa [List.map_map, List.map_map] at starts

theorem msToNs_nonneg {ms : ℚ} (nonneg : 0 ≤ ms) : 0 ≤ msToNs ms :=
  truncate_nonneg (mul_nonneg nonneg (by norm_num))

theorem emitTrace_starts (generator : WorkloadGenerator) (draws : TraceDraws) (nowNs : Int) :
    let trace := (generateTrace generator draws).1
    (∃ root ∈ emitTrace trace nowNs, root.startNs = traceStart trace nowNs) ∧
      ∀ span ∈ emitTrace trace nowNs, traceStart trace nowNs ≤ span.startNs := by
  intro trace
  obtain ⟨start, _, later⟩ := generateTrace_times generator draws
  have starts := emitSpan_starts (traceStart trace nowNs) none 0 trace.root
  constructor
  · have walked : trace.root ∈ trace.root.walk := by
      cases trace.root
      exact List.mem_cons_self
    have emitted := List.mem_map_of_mem (f := fun data => traceStart trace nowNs +
      msToNs data.startOffsetMs) walked
    rw [← starts] at emitted
    obtain ⟨root, member, same⟩ := List.mem_map.mp emitted
    exact ⟨root, member, by rw [same, start, msToNs, zero_mul]; simp [truncate]⟩
  · intro span member
    have emitted := List.mem_map_of_mem (f := EmittedSpan.startNs) member
    rw [emitTrace, Option.getD_none, starts] at emitted
    obtain ⟨data, walked, same⟩ := List.mem_map.mp emitted
    have offset := msToNs_nonneg (later data walked)
    omega

end TelemetryEngine.Emitters
