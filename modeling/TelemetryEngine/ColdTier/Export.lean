import Mathlib.Data.List.AList
import TelemetryEngine.Foundation.Traced
import TelemetryEngine.ColdTier.Fingerprint
import TelemetryEngine.ColdTier.Planner

/-! `export_window`: write a staging file, read it back, compare it with the
source, then commit it by rename. Everything the source, the writer and the disk
may answer is an argument, so that one definition covers a moving hot tier, a
stream that breaks off and a file that does not hold what was written. -/
namespace TelemetryEngine.ColdTier
open Foundation

/-- What a call into ClickHouse, the Parquet library or the planner raises. -/
inductive ExportError where
  | source (message : String)
  | file (message : String)
  | window (error : WindowError)
  deriving DecidableEq, Repr

/-- A Parquet file. Only the whole seconds of `window` are in its name. -/
structure LakeFile where
  window : ExportWindow
  rows : List SpanRow
  deriving DecidableEq, Repr

/-- `WindowResult.reason`. -/
inductive Reason where
  | none
  /-- "no rows in window" -/
  | noRows
  /-- "source reported rows but streamed none" -/
  | streamedNone
  /-- "fingerprint mismatch: source=… parquet=…" -/
  | fingerprintMismatch (source parquet : Fingerprint)
  deriving DecidableEq, Repr

structure WindowResult where
  window : ExportWindow
  path : Path
  sourceRows : Nat := 0
  writtenRows : Nat := 0
  verifiedRows : Nat := 0
  skipped : Bool := false
  reason : Reason := .none
  fingerprintMatched : Bool := false
  deriving DecidableEq, Repr

def WindowResult.ok (result : WindowResult) : Bool :=
  result.skipped || (result.sourceRows == result.writtenRows &&
    result.writtenRows == result.verifiedRows && 0 < result.writtenRows &&
    result.fingerprintMatched)

/-- The effects of an export on the directory tree and on the watermark table. -/
inductive Step where
  | write (path : Path) (file : LakeFile)
  | unlink (path : Path)
  | replace (source target : Path)
  | deleteWatermark
  /-- An INSERT into the watermark table. `passed` is the result whose window ends
  at the value; a rewind has none. -/
  | insertWatermark (value : Int) (passed : Option WindowResult)
  deriving DecidableEq, Repr

abbrev Job := Traced Step ExportError

/-- What the world answers while one window is exported. -/
structure WindowAnswers where
  /-- `SELECT count()`. -/
  count : Except ExportError Nat
  /-- The batches of the stream that reach the writer, and how the stream (or a
  write) ends after them. -/
  batches : List (List SpanRow)
  streamEnd : Except ExportError Unit
  /-- Closing the writer, and the rows the closed file holds for those written. -/
  close : Except ExportError Unit
  stored : List SpanRow → List SpanRow
  /-- Opening the file to read it back. -/
  readBack : Except ExportError Unit
  sourceFingerprint : Except ExportError Fingerprint
  /-- Reading the file with DuckDB. -/
  parquetFingerprint : Except ExportError Unit

namespace WindowAnswers

def written (answers : WindowAnswers) : List SpanRow := answers.batches.flatten

def file (answers : WindowAnswers) : List SpanRow := answers.stored answers.written

end WindowAnswers

/-- The writer's calls, batch by batch; empty batches are not written. -/
def writeBatches (staging : Path) (window : ExportWindow) (written : List SpanRow) :
    List (List SpanRow) → Job Unit
  | [] => return ()
  | batch :: rest =>
    if batch = [] then writeBatches staging window written rest else do
      .perform (.write staging ⟨window, written ++ batch⟩)
      writeBatches staging window (written ++ batch) rest

/-- The result once the closed file has been read back and compared. -/
def verified (result : WindowResult) (file : List SpanRow) (source : Fingerprint) : WindowResult :=
  let parquet := parquetFingerprint file
  let matched := fingerprintsAgree source parquet
  { result with
    verifiedRows := file.length
    fingerprintMatched := matched
    reason := if matched then .none else .fingerprintMismatch source parquet }

/-- The second half of `export_window`: nothing is committed that cannot be read
back or does not match the source. -/
def verifyAndCommit (answers : WindowAnswers) (staging final : Path) (result : WindowResult) :
    Job WindowResult := do
  .ask answers.readBack
  let source ← .ask answers.sourceFingerprint
  .ask answers.parquetFingerprint
  let result := verified result answers.file source
  if result.ok then
    .perform (.replace staging final)
    return result
  else
    .perform (.unlink staging)
    return result

/-- Export one window: write, verify, then commit by rename. -/
def exportWindow (window : ExportWindow) (answers : WindowAnswers) : Job WindowResult := do
  let final := filePath window
  let result : WindowResult := { window, path := final }
  let sourceRows ← .ask answers.count
  if sourceRows = 0 then
    return { result with skipped := true, reason := .noRows }
  else
    let result := { result with sourceRows, writtenRows := answers.written.length }
    let staging := tempPath final
    writeBatches staging window [] answers.batches
    if answers.written = [] then
      -- The writer was never opened.
      .ask answers.streamEnd
      .perform (.unlink staging)
      return { result with skipped := true, reason := .streamedNone }
    else
      -- The writer is closed also when the stream has raised.
      .ask answers.close
      .perform (.write staging ⟨window, answers.file⟩)
      .ask answers.streamEnd
      verifyAndCommit answers staging final result

/-- A step that touches no other file than the staging file of the window. -/
def Step.Staging (window : ExportWindow) : Step → Prop
  | .write path _ | .unlink path => path = tempPath (filePath window)
  | _ => False

/-- The source reports rows for the window and then streams none. -/
structure StreamedNone (answers : WindowAnswers) : Prop where
  reported : ∃ n, 0 < n ∧ answers.count = .ok n
  unopened : answers.written = []
  ended : answers.streamEnd = .ok ()

/-- Every stage succeeds, the file holds the counted number of rows, and its
fingerprint agrees with the source's. -/
structure Verifies (answers : WindowAnswers) : Prop where
  counted : answers.count = .ok answers.file.length
  stored : answers.file.length = answers.written.length
  nonempty : answers.file ≠ []
  closed : answers.close = .ok ()
  ended : answers.streamEnd = .ok ()
  opened : answers.readBack = .ok ()
  matched : ∃ source, answers.sourceFingerprint = .ok source ∧
    fingerprintsAgree source (parquetFingerprint answers.file) = true
  queried : answers.parquetFingerprint = .ok ()

structure Skips (window : ExportWindow) (answers : WindowAnswers) (result : WindowResult) : Prop where
  window_eq : result.window = window
  skipped : result.skipped = true
  cause : answers.count = .ok 0 ∨ StreamedNone answers

structure Commits (window : ExportWindow) (answers : WindowAnswers) (result : WindowResult) : Prop where
  window_eq : result.window = window
  not_skipped : result.skipped = false
  ok : result.ok = true
  verifies : Verifies answers

/-- Everything `export_window` can do. Before the rename it touches its staging
file only. -/
inductive ExportCase (window : ExportWindow) (answers : WindowAnswers) : Job WindowResult → Prop where
  | raised : (∀ step ∈ trace, step.Staging window) →
      ExportCase window answers ⟨trace, .error error⟩
  | skipped : (∀ step ∈ trace, step.Staging window) → Skips window answers result →
      ExportCase window answers ⟨trace, .ok result⟩
  | refused : (∀ step ∈ trace, step.Staging window) → result.window = window → result.ok = false →
      ExportCase window answers ⟨trace, .ok result⟩
  | committed : (∀ step ∈ trace, step.Staging window) → Commits window answers result →
      ExportCase window answers
        ⟨trace ++ [.write (tempPath (filePath window)) ⟨window, answers.file⟩,
          .replace (tempPath (filePath window)) (filePath window)], .ok result⟩

theorem writeBatches_spec (window : ExportWindow) (written : List SpanRow)
    (batches : List (List SpanRow)) :
    (writeBatches (tempPath (filePath window)) window written batches).outcome = .ok () ∧
      ∀ step ∈ (writeBatches (tempPath (filePath window)) window written batches).trace,
        step.Staging window := by
  induction batches generalizing written with
  | nil => exact ⟨rfl, by simp [writeBatches]⟩
  | cons batch rest ih =>
    unfold writeBatches
    split
    · exact ih written
    · obtain ⟨done, staging⟩ := ih (written ++ batch)
      simp only [Traced.perform_bind, List.mem_cons]
      refine ⟨done, ?_⟩
      rintro step (rfl | member)
      · rfl
      · exact staging step member

theorem ExportCase.after {before : List Step} {job : Job WindowResult}
    (staging : ∀ step ∈ before, step.Staging window) (rest : ExportCase window answers job) :
    ExportCase window answers ⟨before ++ job.trace, job.outcome⟩ := by
  have both {trace : List Step} (touched : ∀ step ∈ trace, step.Staging window) :
      ∀ step ∈ before ++ trace, step.Staging window := by
    intro step member
    exact (List.mem_append.mp member).elim (staging step) (touched step)
  cases rest with
  | raised touched => exact .raised (both touched)
  | skipped touched skips => exact .skipped (both touched) skips
  | refused touched same failed => exact .refused (both touched) same failed
  | committed touched commits =>
    rw [← List.append_assoc]
    exact .committed (both touched) commits

theorem verified_ok_iff (result : WindowResult) (file : List SpanRow) (source : Fingerprint)
    (fresh : result.skipped = false) :
    (verified result file source).ok = true ↔ result.sourceRows = result.writtenRows ∧
      result.writtenRows = file.length ∧ 0 < result.writtenRows ∧
      fingerprintsAgree source (parquetFingerprint file) = true := by
  simp only [WindowResult.ok, verified, fresh, Bool.false_or, Bool.and_eq_true, beq_iff_eq,
    decide_eq_true_eq, and_assoc]

theorem verifyAndCommit_case {result : WindowResult} (same : result.window = window)
    (counted : answers.count = .ok result.sourceRows)
    (written : result.writtenRows = answers.written.length)
    (closed : answers.close = .ok ()) (ended : answers.streamEnd = .ok ())
    (fresh : result.skipped = false) :
    ExportCase window answers
      ⟨.write (tempPath (filePath window)) ⟨window, answers.file⟩ ::
        (verifyAndCommit answers (tempPath (filePath window)) (filePath window) result).trace,
        (verifyAndCommit answers (tempPath (filePath window)) (filePath window) result).outcome⟩ := by
  have touches : ∀ step ∈ [Step.write (tempPath (filePath window)) ⟨window, answers.file⟩],
      step.Staging window := by
    simp [Step.Staging]
  unfold verifyAndCommit
  cases opened : answers.readBack with
  | error e => exact .raised touches
  | ok _ =>
    cases fetched : answers.sourceFingerprint with
    | error e => exact .raised touches
    | ok source =>
      cases queried : answers.parquetFingerprint with
      | error e => exact .raised touches
      | ok _ =>
        simp only [Traced.ask_ok_bind]
        split
        case isTrue ok =>
          obtain ⟨sourceRows, writtenRows, some, matched⟩ := (verified_ok_iff _ answers.file source fresh).mp ok
          have nonempty : answers.file ≠ [] := by
            intro none
            simp [none] at writtenRows
            omega
          exact @ExportCase.committed window answers [] _ (by simp) ⟨same, fresh, ok,
            by rw [counted, sourceRows, writtenRows], by rw [← writtenRows, written], nonempty,
            closed, ended, opened, ⟨source, fetched, matched⟩, queried⟩
        case isFalse failed =>
          exact .refused (by simp [Step.Staging, Traced.perform_bind]) same
            (Bool.eq_false_iff.mpr failed)

/-- The specification of `export_window`, whatever it is answered. -/
theorem exportWindow_case (window : ExportWindow) (answers : WindowAnswers) :
    ExportCase window answers (exportWindow window answers) := by
  obtain ⟨done, staging⟩ := writeBatches_spec window [] answers.batches
  unfold exportWindow
  cases count : answers.count with
  | error e =>
    simp only [Traced.ask_error_bind]
    exact .raised (by simp)
  | ok n =>
    simp only [Traced.ask_ok_bind]
    split
    case isTrue zero => exact .skipped (by simp) ⟨rfl, rfl, .inl (zero ▸ count)⟩
    case isFalse reported =>
      rw [Traced.bind_ok done]
      split
      case isTrue unopened =>
        refine .after staging ?_
        cases finish : answers.streamEnd with
        | error e =>
          simp only [Traced.ask_error_bind]
          exact .raised (by simp)
        | ok _ =>
          simp only [Traced.ask_ok_bind, Traced.perform_bind]
          exact .skipped (by simp [Step.Staging])
            ⟨rfl, rfl, .inr ⟨⟨n, Nat.pos_of_ne_zero reported, count⟩, unopened, finish⟩⟩
      case isFalse opened =>
        refine .after staging ?_
        cases closed : answers.close with
        | error e =>
          simp only [Traced.ask_error_bind]
          exact .raised (by simp)
        | ok _ =>
          cases finish : answers.streamEnd with
          | error e =>
            simp only [Traced.ask_ok_bind, Traced.perform_bind, Traced.ask_error_bind]
            exact .raised (by simp [Step.Staging])
          | ok _ =>
            simp only [Traced.ask_ok_bind, Traced.perform_bind]
            exact verifyAndCommit_case rfl count rfl closed finish rfl

def Passes (window : ExportWindow) (answers : WindowAnswers) : Prop :=
  ∃ result, (exportWindow window answers).outcome = .ok result ∧ result.ok = true

theorem passes_iff {window : ExportWindow} {answers : WindowAnswers} :
    Passes window answers ↔ answers.count = .ok 0 ∨ StreamedNone answers ∨ Verifies answers := by
  constructor
  · rintro ⟨result, done, ok⟩
    have spec := exportWindow_case window answers
    generalize exportWindow window answers = job at done spec
    cases spec with
    | raised => cases done
    | skipped _ skips => exact skips.cause.imp_right .inl
    | refused _ _ failed =>
      cases done
      simp [failed] at ok
    | committed _ commits => exact .inr (.inr commits.verifies)
  · obtain ⟨done, _⟩ := writeBatches_spec window [] answers.batches
    rintro (none | ⟨⟨n, some, counted⟩, unopened, ended⟩ | verifies)
    · refine ⟨{ window, path := filePath window, skipped := true, reason := .noRows }, ?_, rfl⟩
      simp only [exportWindow, none, Traced.ask_ok_bind, if_true, Traced.pure_outcome]
    · refine ⟨{
        window, path := filePath window, sourceRows := n, writtenRows := 0,
        skipped := true, reason := .streamedNone }, ?_, rfl⟩
      simp only [exportWindow, counted, Traced.ask_ok_bind, if_neg some.ne', Traced.bind_ok done,
        unopened, if_true, ended, Traced.perform_bind, Traced.pure_outcome, List.length_nil]
    · obtain ⟨source, fetched, matched⟩ := verifies.matched
      have length := verifies.stored
      have positive : 0 < answers.file.length := List.length_pos_of_ne_nil verifies.nonempty
      have opened : answers.written ≠ [] := List.ne_nil_of_length_pos (length ▸ positive)
      have ok := (verified_ok_iff
        { window, path := filePath window, sourceRows := answers.file.length,
          writtenRows := answers.written.length } answers.file source rfl).mpr
        ⟨length, length.symm, length ▸ positive, matched⟩
      refine ⟨_, ?_, ok⟩
      simp only [exportWindow, verifyAndCommit, verifies.counted, Traced.ask_ok_bind,
        if_neg positive.ne', Traced.bind_ok done, if_neg opened, verifies.closed,
        Traced.perform_bind, verifies.ended, verifies.opened, fetched, verifies.queried, if_pos ok,
        Traced.pure_outcome]

end TelemetryEngine.ColdTier
