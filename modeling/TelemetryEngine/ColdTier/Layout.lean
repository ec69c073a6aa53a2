import TelemetryEngine.Foundation.Calendar

/-! `coldtier/layout.py`: where a window's rows live on disk. Paths are relative
to the lake root. A file name keeps whole seconds only, so it determines its
window up to the second. -/
namespace TelemetryEngine.ColdTier
open Foundation.Calendar

/-- What `ExportWindow.__post_init__` raises. -/
inductive WindowError where
  | empty (start end_ : Int)
  | crossesDate (start end_ : Int)
  deriving DecidableEq, Repr

/-- A half-open time range `[start, end)` exported as one file. -/
structure ExportWindow where
  start : Int
  end_ : Int
  nonempty : start < end_
  single_date : dayNumber start = dayNumber end_ ∨ end_ = startOfDay (dayNumber end_)
  deriving DecidableEq, Repr

def partitionKey : List Char := "dt=".toList
def spansPrefix : List Char := "spans-".toList
def parquetSuffix : List Char := ".parquet".toList
def stagingSuffix : List Char := ".parquet.tmp".toList

namespace ExportWindow

/-- The dataclass constructor, with the checks of `__post_init__`. -/
def new (start end_ : Int) : Except WindowError ExportWindow :=
  if nonempty : start < end_ then
    if single_date : dayNumber start = dayNumber end_ ∨ end_ = startOfDay (dayNumber end_) then
      .ok ⟨start, end_, nonempty, single_date⟩
    else .error (.crossesDate start end_)
  else .error (.empty start end_)

def partitionDate (window : ExportWindow) : Date := dateOf window.start

/-- Deterministic: exporting a window again overwrites its file. -/
def filename (window : ExportWindow) : String :=
  String.ofList (spansPrefix ++ (stamp window.start ++ '-' :: (stamp window.end_ ++ parquetSuffix)))

end ExportWindow

structure Path where
  dir : String
  name : String
  deriving DecidableEq, Repr

def partitionDir (day : Date) : String := String.ofList (partitionKey ++ day.isoFormat)

def filePath (window : ExportWindow) : Path :=
  ⟨partitionDir window.partitionDate, window.filename⟩

/-- A file name without its last suffix, as `pathlib` splits it: a dot that
starts or ends the name does not count. -/
def stem (name : List Char) : List Char :=
  match name.reverse.span (· ≠ '.') with
  | (_ :: _, _ :: first :: front) => (first :: front).reverse
  | _ => name

def Path.withSuffix (path : Path) (suffix : List Char) : Path :=
  { path with name := String.ofList (stem path.name.toList ++ suffix) }

def tempPath (final : Path) : Path := final.withSuffix stagingSuffix

/-- The pattern `dt=*/*.parquet` that both the Python listing and DuckDB read. -/
def Path.committed (path : Path) : Bool :=
  partitionKey.isPrefixOf path.dir.toList && parquetSuffix.isSuffixOf path.name.toList

@[simp] theorem filePath_committed (window : ExportWindow) : (filePath window).committed = true := by
  simp only [Path.committed, filePath, partitionDir, ExportWindow.filename, String.toList_ofList,
    Bool.and_eq_true, List.isPrefixOf_iff_prefix, List.isSuffixOf_iff_suffix]
  refine ⟨List.prefix_append _ _, ?_⟩
  have afterDash := (List.suffix_append (stamp window.end_) parquetSuffix).trans
    (List.suffix_cons '-' _)
  exact (afterDash.trans (List.suffix_append _ _)).trans (List.suffix_append _ _)

theorem parquetSuffix_not_staging : ¬ parquetSuffix <:+ stagingSuffix := by
  decide

@[simp] theorem tempPath_committed (path : Path) : (tempPath path).committed = false := by
  have hidden : parquetSuffix.isSuffixOf (stem path.name.toList ++ stagingSuffix) = false := by
    rw [Bool.eq_false_iff, Ne, List.isSuffixOf_iff_suffix]
    exact fun ends => parquetSuffix_not_staging
      (List.suffix_of_suffix_length_le ends (List.suffix_append _ _) (by decide))
  simp only [Path.committed, tempPath, Path.withSuffix, String.toList_ofList, hidden, Bool.and_false]

/-- Only the whole seconds of a window reach its file name. -/
theorem filePath_inj {v w : ExportWindow} (same : filePath v = filePath w) :
    floorSecond v.start = floorSecond w.start ∧ floorSecond v.end_ = floorSecond w.end_ := by
  have names := congrArg (fun path => path.name.toList) same
  simp only [filePath, ExportWindow.filename, String.toList_ofList] at names
  have stamps := List.append_cancel_left names
  have noDash : '-' ∉ stamp v.end_ ++ parquetSuffix :=
    List.not_mem_append (dash_not_mem_stamp _) (by decide)
  obtain ⟨first, _, last⟩ :=
    (List.append_cons_inj_of_notMem (dash_not_mem_stamp _) noDash).mp stamps
  exact ⟨stamp_injective first, stamp_injective (List.append_cancel_right last)⟩

theorem filePath_congr {v w : ExportWindow} (start : floorSecond v.start = floorSecond w.start)
    (end_ : floorSecond v.end_ = floorSecond w.end_) : filePath v = filePath w := by
  have first : stamp v.start = stamp w.start := by
    rw [← stamp_floorSecond, start, stamp_floorSecond]
  have last : stamp v.end_ = stamp w.end_ := by
    rw [← stamp_floorSecond, end_, stamp_floorSecond]
  have day : dateOf v.start = dateOf w.start := by
    rw [dateOf_eq_iff, ← dayNumber_floorSecond, start, dayNumber_floorSecond]
  simp only [filePath, ExportWindow.filename, ExportWindow.partitionDate, first, last, day]

end TelemetryEngine.ColdTier
