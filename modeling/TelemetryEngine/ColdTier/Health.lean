import TelemetryEngine.ColdTier.Failure
import TelemetryEngine.ColdTier.Names
import TelemetryEngine.ColdTier.Query

/-! `health` of `coldtier/export.py`. It knows of the lake how many rows it holds, and of
the watermark how old it is. A lake that has lost files, but not all, is no less healthy
to it. -/
namespace TelemetryEngine.ColdTier
open Foundation.Calendar

/-- Is the exporter keeping ahead of the hot tier's TTL, and is the lake real? -/
structure ExportHealth where
  watermark : Option Int
  hotTierOldest : Option Int
  ttlHours : Int
  now : Int
  lakeRows : ℕ := 0
  deriving DecidableEq

namespace ExportHealth

/-- The watermark claims coverage the lake does not have. -/
def watermarkWithoutData (report : ExportHealth) : Bool :=
  report.watermark.isSome && report.lakeRows = 0

/-- `total_seconds() / 3600` -/
def hoursBehind (report : ExportHealth) : Option ℚ :=
  report.watermark.map fun watermark => ((report.now - watermark : Int) : ℚ) / hour

def atRisk (report : ExportHealth) : Bool :=
  if report.watermarkWithoutData then true
  else
    match report.hoursBehind with
    | none => true
    | some behind => report.ttlHours * (3 / 4) < behind

end ExportHealth

/-- The report on a lake and a watermark, at a server time. -/
def health (files : AList fun _ : Path => LakeFile) (watermark oldest : Option Int)
    (ttlHours now : Int) : Except LakeError ExportHealth := do
  let lake ← (lakeTree files).stats
  return { watermark, hotTierOldest := oldest, ttlHours, now, lakeRows := lake.rows }

/-! ### Damaged lakes -/

/-- What is left of the lake of a state: its committed files, some of them deleted. -/
def LeftOf (past : Tier) (left : AList fun _ : Path => LakeFile) : Prop :=
  ∀ path, path.committed = true → ∀ file, left.lookup path = some file →
    past.files.lookup path = some file

theorem leftOf_erase (past : Tier) (path : Path) : LeftOf past (past.files.erase path) := by
  intro other _ file held
  have kept : other ≠ path := by
    rintro rfl
    simp at held
  rwa [AList.lookup_erase_ne kept] at held

/-- A row below the watermark was in a file at some point of the history, and no committed
file that is left holds it. -/
structure LostRow (calls : List ExportCall) (left : AList fun _ : Path => LakeFile)
    (row : SpanRow) : Prop where
  exported : ∃ earlier path file, earlier <+: calls ∧
    (Tier.initial.steps earlier).view.lake path = some file ∧ row ∈ file.rows
  covered : ∃ watermark, (Tier.initial.steps calls).readWatermark = some watermark ∧
    row.time < watermark
  gone : ∀ path, path.committed = true → ∀ file, left.lookup path = some file → row ∉ file.rows

theorem stats_left {past : List ExportCall} {left : AList fun _ : Path => LakeFile}
    (datetimes : ∀ w ∈ plannedWindows past, InRange w.start)
    (leftOf : LeftOf (Tier.initial.steps past) left) :
    ∃ counted, (lakeTree left).stats = .ok counted ∧
      (counted.rows = 0 ↔ ∀ path, path.committed = true → left.lookup path = none) := by
  have verified (path : Path) (member : path ∈ (lakeTree left).globbed) :
      ∃ file, left.lookup path = some file ∧ VerifiedFile past path file := by
    obtain ⟨key, visible⟩ := List.mem_filter.mp member
    obtain ⟨file, held⟩ := Option.isSome_iff_exists.mp
      (AList.lookup_isSome.mpr (AList.mem_keys.mpr key))
    exact ⟨file, held, lake_verified past ((if_pos visible).trans (leftOf path visible file held))⟩
  have dated (path : Path) (member : path ∈ (lakeTree left).globbed) : path.dated = true := by
    obtain ⟨file, _, before, call, after, split, planned, _, rfl, _⟩ := verified path member
    exact Path.filePath_dated (datetimes _ ⟨before, call, after, split, planned⟩)
  have full (path : Path) (member : path ∈ (lakeTree left).globbed) :
      0 < (lakeTree left).rows path := by
    obtain ⟨file, held, before, call, after, _, _, verifies, _, rows⟩ := verified path member
    simpa [lakeTree, held, rows] using List.length_pos_of_ne_nil verifies.nonempty
  obtain ⟨counted, outcome, zero⟩ := Tree.stats_counts dated full
  refine ⟨counted, outcome, zero.trans ?_⟩
  rw [Tree.globbed, List.filter_eq_nil_iff]
  constructor
  · intro none path visible
    exact AList.lookup_eq_none.mpr fun key => none path (AList.mem_keys.mp key) visible
  · intro none path key visible
    exact AList.lookup_eq_none.mp (none path visible) (AList.mem_keys.mpr key)

/-- When a row has been lost, the report says so exactly when no committed file is left, or
the watermark is more than three quarters of the TTL old. -/
theorem health_flags_loss_iff {calls past : List ExportCall}
    {left : AList fun _ : Path => LakeFile} {row : SpanRow} {oldest : Option Int}
    {ttlHours now : Int} (datetimes : ∀ w ∈ plannedWindows past, InRange w.start)
    (leftOf : LeftOf (Tier.initial.steps past) left)
    (lost : LostRow calls left row) :
    ∃ report, health left (Tier.initial.steps calls).readWatermark oldest ttlHours now = .ok report ∧
      (report.atRisk = true ↔ (∀ path, path.committed = true → left.lookup path = none) ∨
        ∀ watermark, (Tier.initial.steps calls).readWatermark = some watermark →
          (ttlHours * (3 / 4) : ℚ) < ((now - watermark : Int) : ℚ) / hour) := by
  obtain ⟨counted, outcome, zero⟩ := stats_left datetimes leftOf
  obtain ⟨watermark, reads, _⟩ := lost.covered
  refine ⟨_, by rw [health, outcome]; rfl, ?_⟩
  rw [← zero]
  by_cases none : counted.rows = 0
  · simp [ExportHealth.atRisk, ExportHealth.watermarkWithoutData, reads, none]
  · simp [ExportHealth.atRisk, ExportHealth.watermarkWithoutData, ExportHealth.hoursBehind, reads,
      none]

/-- Two rows in two hours, exported at five past the second. -/
def exportHours : ExportCall where
  now := 125 * minute
  oldest := .ok (some (10 * minute))
  answers := Server.deployed.answers [{ ts := 600000 }, { ts := 4200000 }]

def secondHour : ExportWindow := ⟨hour, 2 * hour, by decide, by decide⟩

def exportedHours : Tier := Tier.initial.steps [exportHours]

theorem exportedHours_row : exportedHours.view.lake (filePath longWindow) =
      some ⟨longWindow, [{ ts := 600000 }]⟩ ∧ exportedHours.readWatermark = some (2 * hour) := by
  decide +kernel

/-- The row of the first hour is lost where no file that is left holds it. -/
theorem exportedHours_lost {left : AList fun _ : Path => LakeFile}
    (gone : ∀ path, path.committed = true → ∀ file, left.lookup path = some file →
      { ts := 600000 } ∉ file.rows) : LostRow [exportHours] left { ts := 600000 } where
  exported := ⟨_, _, _, List.prefix_rfl, exportedHours_row.1, List.mem_singleton_self _⟩
  covered := ⟨_, exportedHours_row.2, by decide⟩
  gone

/-- A lake that has lost all its files is flagged. -/
theorem health_flags_emptied : ∃ report, health ∅ exportedHours.readWatermark none 48 (3 * hour) =
    .ok report ∧ report.atRisk = true := by
  obtain ⟨report, outcome, flagged⟩ :=
    @health_flags_loss_iff [exportHours] [] ∅ _ none 48 (3 * hour) (by simp [plannedWindows])
      (by simp [LeftOf]) (exportedHours_lost (by simp))
  exact ⟨report, outcome, flagged.mpr (.inl (by simp))⟩

/-- One that has lost the first of two files is not, an hour after the export. -/
theorem health_misses_loss :
    let left := exportedHours.files.erase (filePath longWindow)
    LeftOf exportedHours left ∧ LostRow [exportHours] left { ts := 600000 } ∧
      ∃ report, health left exportedHours.readWatermark none 48 (3 * hour) = .ok report ∧
        report.atRisk = false := by
  intro left
  have keys : left.keys = [filePath secondHour] := by decide +kernel
  have last : left.lookup (filePath secondHour) = some ⟨secondHour, [{ ts := 4200000 }]⟩ := by
    decide +kernel
  refine ⟨leftOf_erase _ _, exportedHours_lost ?_, ?_⟩
  · intro path _ file held
    have key : path ∈ left.keys := AList.mem_keys.mp (AList.lookup_isSome.mp (by simp [held]))
    rw [keys, List.mem_singleton] at key
    subst key
    obtain rfl := Option.some.inj (last.symm.trans held)
    decide
  · exact ⟨⟨some (2 * hour), none, 48, 3 * hour, 1⟩, by decide +kernel, by decide +kernel⟩

end TelemetryEngine.ColdTier
