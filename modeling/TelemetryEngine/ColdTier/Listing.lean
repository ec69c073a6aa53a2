import Mathlib.Data.List.Sort
import TelemetryEngine.ColdTier.Layout
import TelemetryEngine.Foundation.StampOrder

/-! The two listings of the lake: `parquet_files` of `coldtier/layout.py`, and the files
DuckDB reads for the glob pattern. Both match `dt=*/*.parquet`. The first also asks that
the directory is named after a date. -/
namespace TelemetryEngine.ColdTier
open Foundation.Calendar

/-- `\d{4}-\d{2}-\d{2}` -/
def isIsoDate (text : List Char) : Bool :=
  text.length = 10 && (text.take 4).all isDecimal && text[4]? = some '-' &&
    ((text.drop 5).take 2).all isDecimal && text[7]? = some '-' && (text.drop 8).all isDecimal

/-- `_PARTITION_RE`. A `$` also stands before a line feed that ends the name. -/
@[irreducible] def matchPartition (name : List Char) : Option (List Char) :=
  let text := (name.drop 3).take 10
  if isIsoDate text ∧ (name = partitionKey ++ text ∨ name = partitionKey ++ (text ++ ['\n'])) then
    some text
  else none

/-- The `ValueError` of `date.fromisoformat`. -/
structure DateError where
  text : List Char
  deriving DecidableEq, Repr

/-- The date of a `dt=YYYY-MM-DD` directory name. -/
@[irreducible] def parsePartition (dir : String) : Except DateError (Option Date) :=
  match matchPartition dir.toList with
  | none => .ok none
  | some text =>
    match Date.fromIsoFormat text with
    | some date => .ok (some date)
    | none => .error ⟨text⟩

theorem isIsoDate_isoFormat {day : Date} (valid : day.Valid) :
    isIsoDate day.isoFormat = true ∧ day.isoFormat.length = 10 := by
  have digit (n : Nat) : isDecimal (Nat.digitChar (n % 10)) = true :=
    isDecimal_digitChar (Nat.mod_lt _ (by omega))
  rw [Date.isoFormat, yearChars_of_valid valid, pad_four, pad_two, pad_two]
  simp [isIsoDate, digit]

/-- A directory is recognised as a date from the name of the date, to which a line feed may
be added. -/
theorem parsePartition_eq_some {dir : String} {day : Date} :
    parsePartition dir = .ok (some day) ↔ day.Valid ∧
      (dir.toList = partitionKey ++ day.isoFormat ∨
        dir.toList = partitionKey ++ (day.isoFormat ++ ['\n'])) := by
  constructor
  · intro parsed
    unfold parsePartition at parsed
    split at parsed
    case h_1 => simp at parsed
    case h_2 text matched =>
      split at parsed
      case h_1 found read =>
        obtain rfl : found = day := by simpa using parsed
        obtain ⟨valid, iso⟩ := fromIsoFormat_eq_some.mp read
        simp only [matchPartition] at matched
        split at matched
        case isTrue whole =>
          rw [Option.some.inj matched, iso] at whole
          exact ⟨valid, whole.2⟩
        case isFalse => contradiction
      case h_2 => contradiction
  · rintro ⟨valid, name⟩
    obtain ⟨shape, ten⟩ := isIsoDate_isoFormat valid
    have text : (dir.toList.drop 3).take 10 = day.isoFormat := by
      rcases name with named | named <;> rw [named]
      · rw [show (partitionKey ++ day.isoFormat).drop 3 = day.isoFormat from List.drop_left' rfl,
          List.take_of_length_le ten.le]
      · rw [show (partitionKey ++ (day.isoFormat ++ ['\n'])).drop 3 = day.isoFormat ++ ['\n'] from
          List.drop_left' rfl, List.take_left' ten]
    have matched : matchPartition dir.toList = some day.isoFormat := by
      simp only [matchPartition, text]
      exact if_pos ⟨shape, name⟩
    simp only [parsePartition, matched, fromIsoFormat_isoFormat valid]

theorem parsePartition_partitionDir {day : Date} (valid : day.Valid) :
    parsePartition (partitionDir day) = .ok (some day) :=
  parsePartition_eq_some.mpr ⟨valid, .inl String.toList_ofList⟩

/-! ### Trees -/

/-- The files under the lake root, and how many rows each holds. -/
structure Tree where
  paths : List Path
  nodup : paths.Nodup
  rows : Path → ℕ

namespace Path

def dated (path : Path) : Bool :=
  match parsePartition path.dir with
  | .ok (some _) => true
  | _ => false

/-- The directory has the shape of a date and is none. -/
def misdated (path : Path) : Bool :=
  match parsePartition path.dir with
  | .error _ => true
  | .ok _ => false

theorem filePath_dated {w : ExportWindow} (start : InRange w.start) : (filePath w).dated = true := by
  have parsed : parsePartition (filePath w).dir = .ok (some (dateOf w.start)) :=
    parsePartition_partitionDir (dateOf_valid start)
  rw [Path.dated, parsed]

theorem misdated_of_dated {path : Path} (dated : path.dated = true) : path.misdated = false := by
  rw [Path.dated] at dated
  rw [Path.misdated]
  cases parsed : parsePartition path.dir with
  | error e => simp [parsed] at dated
  | ok date => rfl

def ordered (first second : Path) : Bool :=
  first.dir < second.dir || first.dir = second.dir && first.name ≤ second.name

end Path

def tmpSuffix : List Char := ".tmp".toList

/-- The filter of `parquet_files`. It raises where a directory is misdated. -/
def recognised : List Path → Except DateError (List Path)
  | [] => .ok []
  | path :: rest =>
    if tmpSuffix.isSuffixOf path.name.toList then recognised rest
    else do
      let date ← parsePartition path.dir
      let later ← recognised rest
      return if date.isSome then path :: later else later

namespace Tree

/-- What DuckDB reads for `glob_pattern`. -/
def globbed (tree : Tree) : List Path := tree.paths.filter Path.committed

/-- Every committed Parquet file in the lake, in partition order. -/
def parquetFiles (tree : Tree) : Except DateError (List Path) :=
  (recognised tree.globbed).map (·.insertionSort fun first second => Path.ordered first second)

end Tree

theorem not_tmp {path : Path} (committed : path.committed = true) :
    tmpSuffix.isSuffixOf path.name.toList = false := by
  rw [Path.committed, Bool.and_eq_true, List.isSuffixOf_iff_suffix] at committed
  rw [Bool.eq_false_iff, Ne, List.isSuffixOf_iff_suffix]
  intro temporary
  have ends := List.suffix_of_suffix_length_le temporary committed.2 (by decide)
  exact absurd ends (by decide)

theorem recognised_cons {path : Path} {rest : List Path} (committed : path.committed = true)
    (parsed : parsePartition path.dir = .ok date) : recognised (path :: rest) =
      (recognised rest).map fun later => if date.isSome then path :: later else later := by
  simp only [recognised, not_tmp committed, parsed, Bool.false_eq_true, if_false]
  cases recognised rest <;> rfl

theorem recognised_cons_error {path : Path} {rest : List Path} (committed : path.committed = true)
    (parsed : parsePartition path.dir = .error e) : recognised (path :: rest) = .error e := by
  simp only [recognised, not_tmp committed, parsed, Bool.false_eq_true, if_false]
  rfl

theorem recognised_dated {paths : List Path} (committed : ∀ path ∈ paths, path.committed = true)
    (proper : ∀ path ∈ paths, path.misdated = false) :
    recognised paths = .ok (paths.filter Path.dated) := by
  induction paths with
  | nil => rfl
  | cons path rest ih =>
    have here := proper path (by simp)
    have later := ih (fun p member => committed p (by simp [member]))
      (fun p member => proper p (by simp [member]))
    rw [Path.misdated] at here
    cases parsed : parsePartition path.dir with
    | error e => simp [parsed] at here
    | ok date =>
      have dated : path.dated = date.isSome := by
        rw [Path.dated, parsed]
        cases date <;> rfl
      rw [recognised_cons (committed path (by simp)) parsed, later, List.filter_cons, dated]
      rfl

theorem recognised_misdated {paths : List Path} (committed : ∀ path ∈ paths, path.committed = true)
    (improper : ∃ path ∈ paths, path.misdated = true) : ∃ e, recognised paths = .error e := by
  induction paths with
  | nil => simp at improper
  | cons path rest ih =>
    cases parsed : parsePartition path.dir with
    | error e => exact ⟨e, recognised_cons_error (committed path (by simp)) parsed⟩
    | ok date =>
      obtain ⟨other, member, bad⟩ := improper
      rcases List.mem_cons.mp member with rfl | later
      · rw [Path.misdated, parsed] at bad
        contradiction
      · obtain ⟨e, failed⟩ := ih (fun p inside => committed p (by simp [inside])) ⟨other, later, bad⟩
        exact ⟨e, by rw [recognised_cons (committed path (by simp)) parsed, failed]; rfl⟩

namespace Tree
variable {tree : Tree}

theorem globbed_committed : ∀ path ∈ tree.globbed, path.committed = true :=
  fun _ member => (List.mem_filter.mp member).2

/-- Where every directory of the shape of a date is one, the listing keeps what the
directory names date. -/
theorem parquetFiles_dated (proper : ∀ path ∈ tree.globbed, path.misdated = false) :
    ∃ files, tree.parquetFiles = .ok files ∧ files.Perm (tree.globbed.filter Path.dated) := by
  refine ⟨_, by rw [parquetFiles, recognised_dated globbed_committed proper]; rfl, ?_⟩
  exact List.perm_insertionSort _ _

theorem parquetFiles_misdated (improper : ∃ path ∈ tree.globbed, path.misdated = true) :
    ∃ e, tree.parquetFiles = .error e := by
  obtain ⟨e, failed⟩ := recognised_misdated globbed_committed improper
  exact ⟨e, by rw [parquetFiles, failed]; rfl⟩

theorem parquetFiles_globbed {files : List Path} (listed : tree.parquetFiles = .ok files) :
    files ⊆ tree.globbed := by
  by_cases proper : ∀ path ∈ tree.globbed, path.misdated = false
  · obtain ⟨others, listed', perm⟩ := parquetFiles_dated proper
    obtain rfl := Except.ok.inj (listed.symm.trans listed')
    exact fun path member => List.mem_of_mem_filter (perm.mem_iff.mp member)
  · push Not at proper
    obtain ⟨path, member, bad⟩ := proper
    obtain ⟨e, failed⟩ := parquetFiles_misdated ⟨path, member, by simpa using bad⟩
    rw [failed] at listed
    contradiction

end Tree

end TelemetryEngine.ColdTier
