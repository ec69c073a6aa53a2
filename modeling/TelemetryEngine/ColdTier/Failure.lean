import Mathlib.Data.List.Induction
import TelemetryEngine.ColdTier.ExactlyOnce
import TelemetryEngine.ColdTier.Listing

/-! An export that fails. Up to its rename a window leaves traces under its staging name
only, and neither listing shows those. What it left behind is written over when the
window is exported again. -/
namespace TelemetryEngine.ColdTier

def lakeTree (files : AList fun _ : Path => LakeFile) : Tree where
  paths := files.keys
  nodup := files.keys_nodup
  rows path := ((files.lookup path).map fun file => file.rows.length).getD 0

def Tier.tree (tier : Tier) : Tree := lakeTree tier.files

def Tier.exported (tier : Tier) (window : ExportWindow) (answers : WindowAnswers) : Tier :=
  tier.after (exportWindow window answers).trace

/-- Readers of the lake and of the watermark see the same. -/
structure Tier.SameToReaders (tier later : Tier) : Prop where
  listed : later.tree.parquetFiles = tier.tree.parquetFiles
  globbed : later.tree.globbed = tier.tree.globbed
  contents : ∀ path, path.committed = true → later.files.lookup path = tier.files.lookup path
  watermark : later.readWatermark = tier.readWatermark

namespace Tier
variable {tier later : Tier} {window : ExportWindow} {answers : WindowAnswers}

theorem sameToReaders_of_view (globbed : later.tree.globbed = tier.tree.globbed)
    (view : later.view = tier.view) : tier.SameToReaders later := by
  refine ⟨by rw [Tree.parquetFiles, Tree.parquetFiles, globbed], globbed, ?_, ?_⟩
  · intro path visible
    simpa [Tier.view, visible] using congrFun (congrArg View.lake view) path
  · exact congrArg (fun seen : View => seen.watermarks.max?) view

theorem filter_erase {paths : List Path} (nodup : paths.Nodup) (path : Path) :
    (paths.erase path).filter Path.committed = (paths.filter Path.committed).erase path := by
  rw [nodup.erase_eq_filter, (nodup.filter _).erase_eq_filter, List.filter_filter,
    List.filter_filter]
  exact List.filter_congr fun _ _ => Bool.and_comm _ _

theorem filter_erase_hidden {paths : List Path} {path : Path} (nodup : paths.Nodup)
    (hidden : path.committed = false) :
    (paths.erase path).filter Path.committed = paths.filter Path.committed := by
  rw [filter_erase nodup, List.erase_of_not_mem]
  simp [hidden]

theorem apply_globbed {step : Step} (tier : Tier) (staging : step.Staging window) :
    (tier.apply step).tree.globbed = tier.tree.globbed := by
  have hidden := tempPath_committed (filePath window)
  cases step with
  | write path file =>
    obtain rfl : path = tempPath (filePath window) := staging
    simp only [Tree.globbed, Tier.tree, lakeTree, Tier.apply, AList.keys_insert,
      List.filter_cons_of_neg (Bool.not_eq_true _ ▸ hidden),
      filter_erase_hidden tier.files.keys_nodup hidden]
  | unlink path =>
    obtain rfl : path = tempPath (filePath window) := staging
    simp only [Tree.globbed, Tier.tree, lakeTree, Tier.apply, AList.keys_erase,
      filter_erase_hidden tier.files.keys_nodup hidden]
  | replace | deleteWatermark | insertWatermark => exact staging.elim

theorem after_globbed {steps : List Step} (tier : Tier)
    (staging : ∀ step ∈ steps, step.Staging window) :
    (tier.after steps).tree.globbed = tier.tree.globbed :=
  Foundation.foldl_invariant (P := fun later : Tier => later.tree.globbed = tier.tree.globbed)
    (fun later step member same => (later.apply_globbed (staging step member)).trans same) rfl

theorem commit_globbed (tier : Tier) (window : ExportWindow) (rows : List SpanRow) :
    (tier.after [.write (tempPath (filePath window)) ⟨window, rows⟩,
      .replace (tempPath (filePath window)) (filePath window)]).tree.globbed =
    filePath window :: tier.tree.globbed.erase (filePath window) := by
  have hidden := tempPath_committed (filePath window)
  simp only [Tree.globbed, Tier.tree, lakeTree, Tier.after_cons, Tier.after_nil, Tier.apply,
    AList.lookup_insert, AList.keys_insert, AList.keys_erase, List.erase_cons_head]
  rw [List.filter_cons_of_pos (filePath_committed window),
    filter_erase (tier.files.keys_nodup.erase _), filter_erase_hidden tier.files.keys_nodup hidden]

/-- An export that does not end with its rename has touched its staging file only. -/
theorem staging_of_unrenamed {steps : List Step} (cut : steps <+: (exportWindow window answers).trace)
    (unrenamed : endsWithRename steps = false) : ∀ step ∈ steps, step.Staging window := by
  have spec := exportWindow_case window answers
  generalize exportWindow window answers = job at cut spec
  cases spec with
  | raised staging => exact fun step member => staging step (cut.subset member)
  | skipped staging => exact fun step member => staging step (cut.subset member)
  | refused staging => exact fun step member => staging step (cut.subset member)
  | @committed staged result staging =>
    rw [List.append_cons] at cut
    rcases List.prefix_concat_iff.mp cut with rfl | inside
    · simp [endsWithRename] at unrenamed
    · intro step member
      rcases List.mem_append.mp (inside.subset member) with early | last
      · exact staging step early
      · obtain rfl := List.mem_singleton.mp last
        rfl

theorem unrenamed_of_failed {steps : List Step} (failed : ¬ Verifies answers)
    (cut : steps <+: (exportWindow window answers).trace) : endsWithRename steps = false := by
  have still (staging : ∀ step ∈ (exportWindow window answers).trace, step.Staging window) :
      endsWithRename steps = false := by
    cases last : steps.getLast? with
    | none => simp [endsWithRename, last]
    | some step =>
      have touched := staging step (cut.subset (List.mem_of_getLast? last))
      cases step with
      | replace => exact touched.elim
      | write | unlink | deleteWatermark | insertWatermark => simp [endsWithRename, last]
  have spec := exportWindow_case window answers
  generalize exportWindow window answers = job at still spec
  cases spec with
  | raised staging => exact still staging
  | skipped staging => exact still staging
  | refused staging => exact still staging
  | committed _ commits => exact absurd commits.verifies failed

theorem exported_verifies (tier : Tier) (window : ExportWindow) (verifies : Verifies answers) :
    (tier.exported window answers).tree.globbed =
        filePath window :: tier.tree.globbed.erase (filePath window) ∧
      (tier.exported window answers).view = tier.view.move (.publish ⟨window, answers.file⟩) := by
  obtain ⟨result, done, ok⟩ := passes_iff.mpr (.inr (.inr verifies))
  have spec := exportWindow_case window answers
  unfold exported
  generalize exportWindow window answers = job at done spec ⊢
  cases spec with
  | raised => cases done
  | skipped _ skips =>
    have some_ : 0 < answers.file.length := List.length_pos_of_ne_nil verifies.nonempty
    cases skips.cause with
    | inl none =>
      obtain zero := Except.ok.inj (none.symm.trans verifies.counted)
      omega
    | inr streamed =>
      have length := verifies.stored
      rw [streamed.unopened, List.length_nil] at length
      omega
  | refused _ _ failed =>
    cases done
    simp [failed] at ok
  | @committed staged _ staging commits =>
    rw [after_append]
    exact ⟨by rw [commit_globbed, after_globbed tier staging],
      by rw [after_commit, tier.after_staging staging]⟩

end Tier

/-! ### Histories -/

/-- The file is the one that a call of the history verified for a window it planned. -/
def VerifiedFile (calls : List ExportCall) (path : Path) (file : LakeFile) : Prop :=
  ∃ before call after, calls = before ++ call :: after ∧
    file.window ∈ call.planned (Tier.initial.steps before).view ∧
    Verifies (call.answers file.window) ∧ path = filePath file.window ∧
    file.rows = (call.answers file.window).file

theorem VerifiedFile.later {calls : List ExportCall} {path : Path} {file : LakeFile}
    (verified : VerifiedFile calls path file) (last : ExportCall) :
    VerifiedFile (calls ++ [last]) path file := by
  obtain ⟨before, call, after, rfl, rest⟩ := verified
  exact ⟨before, call, after ++ [last], by simp, rest⟩

/-- Every file a reader finds, at every step of a run, is a verified one. -/
theorem lake_verified (calls : List ExportCall) {path : Path} {file : LakeFile} :
    (Tier.initial.steps calls).view.lake path = some file → VerifiedFile calls path file := by
  induction calls using List.reverseRecOn generalizing path file with
  | nil => simp [Tier.steps, Tier.initial_view, View.initial]
  | append_singleton calls last ih =>
    have step : Tier.initial.steps (calls ++ [last]) = (Tier.initial.steps calls).step last := by
      simp [Tier.steps]
    have kept : ∀ path file, ((Tier.initial.steps calls).step last).view.lake path = some file →
        VerifiedFile (calls ++ [last]) path file := by
      refine Tier.lake_invariant (P := fun lake : Path → Option LakeFile =>
        ∀ path file, lake path = some file → VerifiedFile (calls ++ [last]) path file) ?_ ?_
      · intro lake window planned verifies before path file held
        rw [Function.update_apply] at held
        split at held
        case isTrue here =>
          obtain rfl := Option.some.inj held
          exact ⟨calls, last, [], rfl, planned, verifies, here, rfl⟩
        case isFalse => exact before path file held
      · exact fun path file held => (ih held).later last
    rw [step]
    exact kept path file

/-- What an export that does not rename leaves of a state: nothing that readers see, and
nothing that a later export of the window would show. -/
structure Unseen (tier : Tier) (window : ExportWindow) (steps : List Step) : Prop where
  same : tier.SameToReaders (tier.after steps)
  retry : ∀ again, Verifies again →
    (tier.exported window again).SameToReaders ((tier.after steps).exported window again) ∧
    ((tier.after steps).exported window again).files.lookup (filePath window) =
      some ⟨window, again.file⟩

theorem Tier.unseen {steps : List Step} (tier : Tier)
    (cut : steps <+: (exportWindow window answers).trace)
    (unrenamed : endsWithRename steps = false) : Unseen tier window steps := by
  have staging := Tier.staging_of_unrenamed cut unrenamed
  have globbed := Tier.after_globbed tier staging
  have view := tier.after_staging staging
  constructor
  · exact Tier.sameToReaders_of_view globbed view
  · intro again verifies
    obtain ⟨first, seen⟩ := tier.exported_verifies window verifies
    obtain ⟨second, seen'⟩ := (tier.after steps).exported_verifies window verifies
    refine ⟨Tier.sameToReaders_of_view (by rw [first, second, globbed]) (by rw [seen, seen', view]), ?_⟩
    have held := congrArg (fun view : View => view.lake (filePath window)) seen'
    simpa [Tier.view, View.move] using held

/-- In every reachable state, an export leaves nothing to be seen at any point before its
rename. One that does not verify never renames, and one that does not pass ends the run
there. At no step of a run does a listing hold a file that was not verified. -/
theorem failed_export_unseen (calls : List ExportCall) (window : ExportWindow)
    (answers : WindowAnswers) :
    let tier := Tier.initial.steps calls
    (∀ steps, steps <+: (exportWindow window answers).trace → endsWithRename steps = false →
      Unseen tier window steps) ∧
    (¬ Verifies answers → ∀ steps, steps <+: (exportWindow window answers).trace →
      Unseen tier window steps) ∧
    (¬ Passes window answers → ∀ (others : ExportWindow → WindowAnswers) rest result,
      others window = answers → (exportLoop others (window :: rest) result).trace =
        (exportWindow window answers).trace) ∧
    ∀ path, (path ∈ tier.tree.globbed ∨ ∃ files, tier.tree.parquetFiles = .ok files ∧ path ∈ files) →
      ∃ file, tier.files.lookup path = some file ∧ VerifiedFile calls path file := by
  intro tier
  refine ⟨fun steps => tier.unseen, ?_, ?_, ?_⟩
  · intro failed steps cut
    exact tier.unseen cut (Tier.unrenamed_of_failed failed cut)
  · rintro halts others rest result rfl
    exact exportLoop_halt halts result
  · intro path shown
    have member : path ∈ tier.tree.globbed := by
      rcases shown with globbed | ⟨files, listed, inside⟩
      · exact globbed
      · exact Tree.parquetFiles_globbed listed inside
    obtain ⟨key, visible⟩ := List.mem_filter.mp member
    obtain ⟨file, held⟩ := Option.isSome_iff_exists.mp
      (AList.lookup_isSome.mpr (AList.mem_keys.mpr key))
    exact ⟨file, held, lake_verified calls ((if_pos visible).trans held)⟩

end TelemetryEngine.ColdTier
