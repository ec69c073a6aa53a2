import TelemetryEngine.ColdTier.RunExport

/-! What stands behind the watermark. It is moved over a window only after the
source said the window is empty or a verified file of it was renamed into the
lake, unless the source reports rows and then streams none: that window is taken
for an empty one. -/
namespace TelemetryEngine.ColdTier
open Foundation Foundation.Calendar

/-- The window is empty, or its verified file is in the lake. -/
def Backed (view : View) (window : ExportWindow) (answers : WindowAnswers) : Prop :=
  answers.count = .ok 0 ∨
    Verifies answers ∧ view.lake (filePath window) = some ⟨window, answers.file⟩

/-- A write of the watermark at the end of a window is backed. -/
def WatermarkBacked (answers : ExportWindow → WindowAnswers) (tier : Tier) : Step → Prop
  | .insertWatermark value (some result) =>
    value = result.window.end_ ∧ Backed tier.view result.window (answers result.window)
  | _ => True

/-- No window that the loop reaches reports rows and then streams none. -/
def NeverStreamsNone (answers : ExportWindow → WindowAnswers) : List ExportWindow → Prop
  | [] => True
  | window :: rest => ¬ StreamedNone (answers window) ∧
      ((answers window).count = .ok 0 ∨ Verifies (answers window) → NeverStreamsNone answers rest)

theorem exportWindow_no_watermark (answers : ExportWindow → WindowAnswers) (tier : Tier)
    (window : ExportWindow) (own : WindowAnswers) :
    Meets Tier.apply (WatermarkBacked answers) tier (exportWindow window own).trace := by
  refine meets_of_forall ?_
  intro tier step member
  have silent {trace : List Step} (staging : ∀ step ∈ trace, step.Staging window)
      (member : step ∈ trace) : WatermarkBacked answers tier step := by
    have := staging step member
    cases step with
    | insertWatermark => exact this.elim
    | write | unlink | replace | deleteWatermark => trivial
  have spec := exportWindow_case window own
  generalize exportWindow window own = job at member spec
  cases spec with
  | raised staging => exact silent staging member
  | skipped staging => exact silent staging member
  | refused staging => exact silent staging member
  | committed staging =>
    cases List.mem_append.mp member with
    | inl early => exact silent staging early
    | inr late =>
      simp only [List.mem_cons, List.not_mem_nil, or_false] at late
      rcases late with rfl | rfl <;> trivial

theorem StreamedNone.not_backed {view : View} (streamed : StreamedNone answers) :
    ¬ Backed view window answers := by
  obtain ⟨n, some, counted⟩ := streamed.reported
  rintro (none | ⟨verifies, _⟩)
  · rw [counted, Except.ok.injEq] at none
    omega
  · have length := verifies.stored
    rw [streamed.unopened] at length
    exact verifies.nonempty (List.eq_nil_of_length_eq_zero length)

theorem watermark_backed_pass (tier : Tier) (answers : ExportWindow → WindowAnswers)
    (done : (exportWindow window (answers window)).outcome = .ok result) (ok : result.ok = true) :
    WatermarkBacked answers (tier.after (exportWindow window (answers window)).trace)
        (.insertWatermark window.end_ (some result)) ↔ ¬ StreamedNone (answers window) := by
  have spec := exportWindow_case window (answers window)
  generalize exportWindow window (answers window) = job at done spec
  cases spec with
  | raised => cases done
  | skipped _ skips =>
    cases done
    obtain ⟨rfl, _, cause⟩ := skips
    constructor
    · rintro ⟨_, backed⟩ streamed
      exact streamed.not_backed backed
    · exact fun unstreamed => ⟨rfl, .inl (cause.resolve_right unstreamed)⟩
  | refused _ _ failed =>
    cases done
    simp [failed] at ok
  | committed staging commits =>
    cases done
    obtain ⟨rfl, _, _, verifies⟩ := commits
    have backed : Backed (tier.after _).view _ _ :=
      .inr ⟨verifies, by rw [tier.after_committed _ staging]; exact Function.update_self _ _ _⟩
    exact ⟨fun _ streamed => streamed.not_backed backed, fun _ => ⟨rfl, backed⟩⟩

theorem exportLoop_backed (answers : ExportWindow → WindowAnswers) (windows : List ExportWindow)
    (tier : Tier) (result : ExportResult) :
    Meets Tier.apply (WatermarkBacked answers) tier (exportLoop answers windows result).trace ↔
      NeverStreamsNone answers windows := by
  induction windows generalizing tier result with
  | nil => exact iff_of_true trivial trivial
  | cons window rest ih =>
    have silent := exportWindow_no_watermark answers tier window (answers window)
    by_cases passes : Passes window (answers window)
    · have cause := passes_iff.mp passes
      obtain ⟨windowResult, done, ok⟩ := passes
      obtain ⟨next, trace, _⟩ := exportLoop_pass rest done ok result
      have here := watermark_backed_pass tier answers done ok
      rw [trace, meets_append, Meets, ih, NeverStreamsNone]
      constructor
      · rintro ⟨_, backed, later⟩
        exact ⟨here.mp backed, fun _ => later⟩
      · rintro ⟨unstreamed, later⟩
        exact ⟨silent, here.mpr unstreamed,
          later (cause.imp_right fun read => read.resolve_left unstreamed)⟩
    · rw [exportLoop_halt passes]
      rw [passes_iff, not_or, not_or] at passes
      obtain ⟨some, unstreamed, unverified⟩ := passes
      exact iff_of_true silent ⟨unstreamed, fun reached => (reached.elim some unverified).elim⟩

/-- The watermark moves over backed windows only, exactly when no window that is
reached reports rows and streams none. -/
theorem watermark_backed_iff (tier : Tier) (call : ExportCall) :
    Meets Tier.apply (WatermarkBacked call.answers) tier (runExport tier call).trace ↔
      NeverStreamsNone call.answers (call.planned tier.view) := by
  obtain ⟨result, trace⟩ := runExport_trace tier call
  rw [trace, meets_append, exportLoop_backed]
  have rewinding : Meets Tier.apply (WatermarkBacked call.answers) tier call.rewound.trace := by
    unfold ExportCall.rewound
    split
    · exact ⟨trivial, trivial, trivial⟩
    · trivial
  exact and_iff_right rewinding

def streamless : WindowAnswers where
  count := .ok 1
  batches := []
  streamEnd := .ok ()
  close := .ok ()
  stored := id
  readBack := .ok ()
  sourceFingerprint := .ok (sourceFingerprint [])
  parquetFingerprint := .ok ()

def streamlessCall : ExportCall where
  now := 10 * minute
  oldest := .ok (some 0)
  answers _ := streamless

theorem watermark_unbacked :
    ¬ Meets Tier.apply (WatermarkBacked streamlessCall.answers) .initial
      (runExport .initial streamlessCall).trace := by
  obtain ⟨result, trace⟩ := runExport_trace .initial streamlessCall
  have planned : (streamlessCall.planned Tier.initial.view).length = 1 := by decide +kernel
  obtain ⟨window, planned⟩ := List.length_eq_one_iff.mp planned
  rw [trace, meets_append, exportLoop_backed, planned]
  rintro ⟨_, unstreamed, _⟩
  exact unstreamed ⟨⟨1, by decide, rfl⟩, rfl, rfl⟩

end TelemetryEngine.ColdTier
