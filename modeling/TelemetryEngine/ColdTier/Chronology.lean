import Mathlib.Data.Prod.Lex
import Mathlib.Data.String.Basic
import TelemetryEngine.ColdTier.Listing
import TelemetryEngine.Foundation.Sortedness

/-! `parquet_files` of `coldtier/layout.py` over a whole directory tree: what it returns,
and in which order. The pattern asks nothing of a directory but `dt=`, and nothing of what
lies in it but the suffix. -/
namespace TelemetryEngine.ColdTier
open Foundation.Calendar Foundation.Sortedness

/-! ### Directory trees -/

inductive Node where
  | file
  | directory (entries : List (String × Node))

namespace Node

def isFile : Node → Bool
  | file => true
  | directory _ => false

def entries : Node → List (String × Node)
  | file => []
  | directory entries => entries

def nested (root : Node) : List (Path × Node) :=
  root.entries.flatMap fun (dir, node) => node.entries.map fun (name, child) => (⟨dir, name⟩, child)

/-- `root.glob("dt=*/*.parquet")`. A directory matches as a file does. -/
def globbed (root : Node) : List Path := (root.nested.map Prod.fst).filter Path.committed

end Node

def parquetFiles : Option Node → Except DateError (List Path)
  | some (.directory entries) =>
    (recognised (Node.directory entries).globbed).map
      (·.insertionSort fun first second => Path.ordered first second)
  | _ => .ok []

/-! ### The order of paths -/

def Path.key (path : Path) : String ×ₗ String := toLex (path.dir, path.name)

theorem Path.ordered_iff {first second : Path} :
    first.ordered second = true ↔ first.key ≤ second.key := by
  simp [Path.ordered, Path.key, Prod.Lex.toLex_le_toLex]

theorem Path.key_injective {first second : Path} (same : first.key = second.key) :
    first = second := by
  have parts := Prod.mk.inj (toLex.injective same)
  cases first
  cases second
  exact Path.mk.injEq .. ▸ parts

theorem pairwise_key_insertionSort (paths : List Path) :
    (paths.insertionSort fun first second => Path.ordered first second).Pairwise
      (Path.key · ≤ Path.key ·) := by
  have total : Std.Total fun first second : Path => first.ordered second = true :=
    ⟨fun first second => by simpa only [Path.ordered_iff] using le_total first.key second.key⟩
  have trans : IsTrans Path fun first second => first.ordered second = true :=
    ⟨fun _ _ _ => by simpa only [Path.ordered_iff] using le_trans⟩
  exact (List.pairwise_insertionSort _ paths).imp Path.ordered_iff.mp

theorem partitionDir_lt_iff {day other : Date} (valid : day.Valid) (valid' : other.Valid) :
    partitionDir day < partitionDir other ↔ day.toOrdinal < other.toOrdinal := by
  rw [String.lt_iff_toList_lt, partitionDir, partitionDir, String.toList_ofList,
    String.toList_ofList, append_lt_append_iff rfl, Date.isoFormat_lt_iff valid valid']
  simp

def FourDigitYear (t : Int) : Prop := InRange t ∧ 1000 ≤ (dateOf t).year

/-- Names are in the order of the seconds in which windows start, and among windows that
start in one second, in the order of the seconds in which they end. -/
theorem filename_lt_iff {v w : ExportWindow} (startV : InRange v.start) (endV : InRange v.end_)
    (startW : InRange w.start) (endW : InRange w.end_) : v.filename < w.filename ↔
      floorSecond v.start < floorSecond w.start ∨
        floorSecond v.start = floorSecond w.start ∧ floorSecond v.end_ < floorSecond w.end_ := by
  have same : stamp v.start = stamp w.start ↔ floorSecond v.start = floorSecond w.start :=
    ⟨stamp_injective, fun seconds => by rw [← stamp_floorSecond, seconds, stamp_floorSecond]⟩
  have starts : (stamp v.start).length = (stamp w.start).length := by
    rw [stamp_length startV, stamp_length startW]
  have ends : (stamp v.end_).length = (stamp w.end_).length := by
    rw [stamp_length endV, stamp_length endW]
  rw [String.lt_iff_toList_lt, ExportWindow.filename, ExportWindow.filename, String.toList_ofList,
    String.toList_ofList, append_lt_append_iff rfl, append_lt_append_iff starts,
    List.cons_lt_cons_iff, append_lt_append_iff ends, stamp_lt_iff startV startW,
    stamp_lt_iff endV endW, same]
  simp

/-! ### What the listing should be -/

/-- The directory is named `dt=` and a date. -/
def Path.InPartition (path : Path) (day : Date) : Prop := day.Valid ∧ path.dir = partitionDir day

def Node.IsPartFile (entry : Path × Node) : Prop :=
  entry.2.isFile ∧ parquetSuffix <:+ entry.1.name.toList ∧ ∃ day, entry.1.InPartition day

/-- What lies two levels under a root, which need not be a directory nor exist. -/
def nestedUnder (root : Option Node) : List (Path × Node) := root.elim [] Node.nested

open Classical in
noncomputable def partFiles (root : Option Node) : List Path :=
  ((nestedUnder root).filter (Node.IsPartFile ·)).map Prod.fst

/-- The windows that files were written for. They name the files. -/
structure Provenance where
  window : Path → Option ExportWindow
  named : window path = some w → path.name = w.filename
  years : window path = some w → FourDigitYear w.start ∧ FourDigitYear w.end_

def Provenance.InOrder (provenance : Provenance) (first second : Path) : Prop :=
  ∀ v w, provenance.window first = some v → provenance.window second = some w → v.start ≤ w.start

structure Listed (root : Option Node) (provenance : Provenance) (files : List Path) : Prop where
  returned : parquetFiles root = .ok files
  exact : files.Perm (partFiles root)
  chronological : files.Pairwise provenance.InOrder

/-- What the listing needs of the tree. -/
structure Orderly (root : Option Node) (provenance : Provenance) : Prop where
  /-- A directory of the shape of a date is one. -/
  dates : ∀ entry ∈ nestedUnder root, entry.1.committed = true → entry.1.misdated = false
  /-- No name of a partition ends with a line feed. -/
  lines : ∀ entry ∈ nestedUnder root, entry.1.committed = true → entry.1.dated = true →
    ¬ ['\n'] <:+ entry.1.dir.toList
  /-- What has the suffix in a partition is a file. -/
  files : ∀ entry ∈ nestedUnder root, entry.1.committed = true → entry.1.dated = true →
    entry.2.isFile = true
  /-- A window that lies in the partition of an earlier date starts no later. -/
  partitions : ∀ first ∈ partFiles root, ∀ second ∈ partFiles root, ∀ day other,
    first.InPartition day → second.InPartition other → day.toOrdinal < other.toOrdinal →
    provenance.InOrder first second
  /-- In a partition, of windows that start in one second the one that ends in an earlier
  second starts no later. -/
  seconds : ∀ first ∈ partFiles root, ∀ second ∈ partFiles root, first.dir = second.dir →
    ∀ v w, provenance.window first = some v → provenance.window second = some w →
    floorSecond v.start = floorSecond w.start → floorSecond v.end_ < floorSecond w.end_ →
    v.start ≤ w.start

theorem dated_iff {path : Path} : path.dated = true ↔
    ∃ day : Date, day.Valid ∧ (path.dir.toList = partitionKey ++ day.isoFormat ∨
      path.dir.toList = partitionKey ++ (day.isoFormat ++ ['\n'])) := by
  simp only [← parsePartition_eq_some, Path.dated]
  constructor
  · intro dated
    split at dated
    case h_1 day parsed => exact ⟨day, parsed⟩
    case h_2 => contradiction
  · rintro ⟨day, parsed⟩
    rw [parsed]

theorem partitionDir_no_line (day : Date) : ¬ ['\n'] <:+ (partitionDir day).toList := by
  have digits : '\n' ∉ "0123456789".toList := by decide
  have pads (width n : Nat) : '\n' ∉ pad width n := fun member => digits (mem_pad member)
  have absent : '\n' ∉ (partitionDir day).toList := by
    simp [partitionDir, partitionKey, Date.isoFormat, yearChars, eraMark, pads]
  exact fun last => absent (last.subset (by simp))

/-- The directories recognised as dates are those named after them, but for a line feed. -/
theorem exists_inPartition_iff {path : Path} :
    (∃ day, path.InPartition day) ↔ path.dated = true ∧ ¬ ['\n'] <:+ path.dir.toList := by
  rw [dated_iff]
  constructor
  · rintro ⟨day, valid, named⟩
    refine ⟨⟨day, valid, .inl ?_⟩, named ▸ partitionDir_no_line day⟩
    rw [named, partitionDir, String.toList_ofList]
  · rintro ⟨⟨day, valid, named | withLine⟩, noLine⟩
    · exact ⟨day, valid, by rw [← String.toList_inj, named, partitionDir, String.toList_ofList]⟩
    · rw [withLine, ← List.append_assoc] at noLine
      exact absurd (List.suffix_append _ _) noLine

theorem committed_of_inPartition {path : Path} {day : Date} (named : path.InPartition day)
    (suffix : parquetSuffix <:+ path.name.toList) : path.committed = true := by
  rw [Path.committed, named.2, partitionDir, String.toList_ofList, Bool.and_eq_true,
    List.isPrefixOf_iff_prefix, List.isSuffixOf_iff_suffix]
  exact ⟨List.prefix_append _ _, suffix⟩

/-! ### What the listing is -/

section
variable {root : Option Node} {provenance : Provenance}

def matched (root : Option Node) : List Path :=
  ((nestedUnder root).filter fun entry => entry.1.committed && entry.1.dated).map Prod.fst

theorem parquetFiles_eq (root : Option Node) : parquetFiles root =
    (recognised (((nestedUnder root).map Prod.fst).filter Path.committed)).map
      (·.insertionSort fun first second => Path.ordered first second) := by
  rcases root with _ | _ | entries <;> rfl

theorem parquetFiles_matched
    (dates : ∀ entry ∈ nestedUnder root, entry.1.committed = true → entry.1.misdated = false) :
    parquetFiles root =
      .ok ((matched root).insertionSort fun first second => Path.ordered first second) := by
  have proper : ∀ path ∈ ((nestedUnder root).map Prod.fst).filter Path.committed,
      path.misdated = false := by
    intro path member
    obtain ⟨inside, committed⟩ := List.mem_filter.mp member
    obtain ⟨entry, here, rfl⟩ := List.mem_map.mp inside
    exact dates entry here committed
  rw [parquetFiles_eq, recognised_dated (fun _ member => (List.mem_filter.mp member).2) proper,
    List.filter_filter, List.filter_map, matched]
  simp only [Bool.and_comm]
  rfl

theorem parquetFiles_raises {entry : Path × Node} (inside : entry ∈ nestedUnder root)
    (committed : entry.1.committed = true) (misdated : entry.1.misdated = true) :
    ∃ e, parquetFiles root = .error e := by
  have member : entry.1 ∈ ((nestedUnder root).map Prod.fst).filter Path.committed :=
    List.mem_filter.mpr ⟨List.mem_map_of_mem inside, committed⟩
  obtain ⟨e, failed⟩ := recognised_misdated (fun _ inside => (List.mem_filter.mp inside).2)
    ⟨_, member, misdated⟩
  exact ⟨e, by rw [parquetFiles_eq, failed]; rfl⟩

/-- Two selections of one list, of which the second is the narrower, have the same members
when nothing is left out. -/
theorem perm_map_filter_iff {values : List α} {p q : α → Bool} (f : α → β)
    (narrower : ∀ x, q x = true → p x = true) :
    ((values.filter p).map f).Perm ((values.filter q).map f) ↔ ∀ x ∈ values, p x = true → q x = true := by
  constructor
  · intro perm
    have length : (values.filter q).length = (values.filter p).length := by
      simpa using perm.length_eq.symm
    have same := (List.monotone_filter_right values narrower).eq_of_length length
    intro x member here
    have kept : x ∈ values.filter q := same ▸ List.mem_filter.mpr ⟨member, here⟩
    exact (List.mem_filter.mp kept).2
  · intro all
    rw [List.filter_congr fun x member => Bool.eq_iff_iff.mpr ⟨all x member, narrower x⟩]

theorem isPartFile_iff {entry : Path × Node} : Node.IsPartFile entry ↔
    (entry.1.committed = true ∧ entry.1.dated = true) ∧ ¬ ['\n'] <:+ entry.1.dir.toList ∧
      entry.2.isFile = true := by
  constructor
  · rintro ⟨file, suffix, day, named⟩
    obtain ⟨dated, noLine⟩ := exists_inPartition_iff.mp ⟨day, named⟩
    exact ⟨⟨committed_of_inPartition named suffix, dated⟩, noLine, file⟩
  · rintro ⟨⟨committed, dated⟩, noLine, file⟩
    rw [Path.committed, Bool.and_eq_true, List.isSuffixOf_iff_suffix] at committed
    exact ⟨file, committed.2, exists_inPartition_iff.mpr ⟨dated, noLine⟩⟩

theorem matched_perm_iff : (matched root).Perm (partFiles root) ↔
    ∀ entry ∈ nestedUnder root, entry.1.committed = true → entry.1.dated = true →
      ¬ ['\n'] <:+ entry.1.dir.toList ∧ entry.2.isFile = true := by
  classical
  rw [matched, partFiles, perm_map_filter_iff]
  · simp only [Bool.and_eq_true, decide_eq_true_eq, isPartFile_iff]
    exact ⟨fun all entry inside committed dated => (all entry inside ⟨committed, dated⟩).2,
      fun all entry inside both => ⟨both, all entry inside both.1 both.2⟩⟩
  · intro entry part
    simpa using (isPartFile_iff.mp (of_decide_eq_true part)).1

theorem exists_inPartition_of_mem {path : Path} (member : path ∈ partFiles root) :
    ∃ day, path.InPartition day := by
  obtain ⟨entry, inside, rfl⟩ := List.mem_map.mp member
  have part : Node.IsPartFile entry := by simpa using (List.mem_filter.mp inside).2
  exact part.2.2

/-- The files of the partitions are in order when what the names leave open is. -/
theorem chronological_iff {files : List Path} (sorted : files.Pairwise (Path.key · ≤ Path.key ·))
    (perm : files.Perm (partFiles root)) : files.Pairwise provenance.InOrder ↔
      (∀ first ∈ partFiles root, ∀ second ∈ partFiles root, ∀ day other,
        first.InPartition day → second.InPartition other → day.toOrdinal < other.toOrdinal →
        provenance.InOrder first second) ∧
      ∀ first ∈ partFiles root, ∀ second ∈ partFiles root, first.dir = second.dir →
        ∀ v w, provenance.window first = some v → provenance.window second = some w →
        floorSecond v.start = floorSecond w.start → floorSecond v.end_ < floorSecond w.end_ →
        v.start ≤ w.start := by
  have equal (x y : Path) (same : x.key = y.key) : provenance.InOrder x y := by
    intro v w hv hw
    rw [Path.key_injective same, hw] at hv
    exact (congrArg ExportWindow.start (Option.some.inj hv)).ge
  have earlier (x y : Path) : x.key < y.key ↔ x.dir < y.dir ∨ x.dir = y.dir ∧ x.name < y.name :=
    Prod.Lex.toLex_lt_toLex
  rw [pairwise_iff_of_sorted sorted equal]
  simp only [perm.mem_iff, earlier]
  constructor
  · intro ordered
    refine ⟨fun x hx y hy day other dayX dayY before => ordered x hx y hy (.inl ?_),
      fun x hx y hy dirs v w hv hw starts ends => ordered x hx y hy (.inr ⟨dirs, ?_⟩) v w hv hw⟩
    · rw [dayX.2, dayY.2, partitionDir_lt_iff dayX.1 dayY.1]
      exact before
    · obtain ⟨startV, endV⟩ := provenance.years hv
      obtain ⟨startW, endW⟩ := provenance.years hw
      rw [provenance.named hv, provenance.named hw,
        filename_lt_iff startV.1 endV.1 startW.1 endW.1]
      exact .inr ⟨starts, ends⟩
  · rintro ⟨partitions, seconds⟩ x hx y hy (dirs | ⟨dirs, names⟩)
    · obtain ⟨day, dayX⟩ := exists_inPartition_of_mem hx
      obtain ⟨other, dayY⟩ := exists_inPartition_of_mem hy
      rw [dayX.2, dayY.2, partitionDir_lt_iff dayX.1 dayY.1] at dirs
      exact partitions x hx y hy day other dayX dayY dirs
    · intro v w hv hw
      obtain ⟨startV, endV⟩ := provenance.years hv
      obtain ⟨startW, endW⟩ := provenance.years hw
      rw [provenance.named hv, provenance.named hw,
        filename_lt_iff startV.1 endV.1 startW.1 endW.1] at names
      rcases names with before | ⟨starts, ends⟩
      · by_contra after
        have later : floorSecond w.start ≤ floorSecond v.start :=
          floorTo_mono (by decide) (not_le.mp after).le
        exact absurd before (not_lt.mpr later)
      · exact seconds x hx y hy dirs v w hv hw starts ends

/-- The listing returns the files of the partitions in the order of their windows exactly
when the tree is orderly. -/
theorem listed_iff : (∃ files, Listed root provenance files) ↔ Orderly root provenance := by
  constructor
  · rintro ⟨files, returned, exact, chronological⟩
    have dates : ∀ entry ∈ nestedUnder root, entry.1.committed = true → entry.1.misdated = false := by
      intro entry inside committed
      by_contra misdated
      obtain ⟨e, raised⟩ := parquetFiles_raises inside committed (by simpa using misdated)
      rw [raised] at returned
      contradiction
    obtain rfl := Except.ok.inj ((parquetFiles_matched dates).symm.trans returned)
    have contents := matched_perm_iff.mp ((List.perm_insertionSort _ _).symm.trans exact)
    obtain ⟨partitions, seconds⟩ :=
      (chronological_iff (pairwise_key_insertionSort _) exact).mp chronological
    exact ⟨dates, fun entry inside committed dated => (contents entry inside committed dated).1,
      fun entry inside committed dated => (contents entry inside committed dated).2, partitions, seconds⟩
  · rintro ⟨dates, lines, files, partitions, seconds⟩
    have perm : (matched root).Perm (partFiles root) :=
      matched_perm_iff.mpr fun entry inside committed dated =>
        ⟨lines entry inside committed dated, files entry inside committed dated⟩
    have exact := (List.perm_insertionSort (fun first second => Path.ordered first second) _).trans perm
    exact ⟨_, parquetFiles_matched dates, exact,
      (chronological_iff (pairwise_key_insertionSort _) exact).mpr ⟨partitions, seconds⟩⟩

/-- A stray directory of the shape of a date takes the listing down. -/
theorem stray_directory_raises :
    let root := some (.directory [("dt=2024-13-45", .directory [("spans.parquet", .file)])])
    parquetFiles root = .error ⟨"2024-13-45".toList⟩ ∧
      ∀ provenance, ¬ ∃ files, Listed root provenance files := by
  intro root
  have raised : parquetFiles root = .error ⟨"2024-13-45".toList⟩ := by decide +kernel
  refine ⟨raised, ?_⟩
  rintro provenance ⟨files, listed⟩
  have returned := listed.returned
  rw [raised] at returned
  contradiction

theorem partitionDir_injective {day other : Date} (valid : day.Valid) (valid' : other.Valid)
    (same : partitionDir day = partitionDir other) : day = other := by
  have parsed := parsePartition_partitionDir valid
  rw [same, parsePartition_partitionDir valid'] at parsed
  exact (Option.some.inj (Except.ok.inj parsed)).symm

/-- Windows that start on whole seconds and lie where they belong are in order. -/
theorem orderly_of_placed
    (dates : ∀ entry ∈ nestedUnder root, entry.1.committed = true → entry.1.misdated = false)
    (lines : ∀ entry ∈ nestedUnder root, entry.1.committed = true → entry.1.dated = true →
      ¬ ['\n'] <:+ entry.1.dir.toList)
    (files : ∀ entry ∈ nestedUnder root, entry.1.committed = true → entry.1.dated = true →
      entry.2.isFile = true)
    (placed : ∀ path w, provenance.window path = some w →
      path.dir = partitionDir w.partitionDate ∧ w.start % second = 0) : Orderly root provenance := by
  refine ⟨dates, lines, files, ?_, ?_⟩
  · intro first _ second _ day other dayFirst daySecond before v w hv hw
    have validV := dateOf_valid (provenance.years hv).1.1
    have validW := dateOf_valid (provenance.years hw).1.1
    obtain rfl := partitionDir_injective dayFirst.1 validV (dayFirst.2.symm.trans (placed _ _ hv).1)
    obtain rfl := partitionDir_injective daySecond.1 validW (daySecond.2.symm.trans (placed _ _ hw).1)
    rw [toOrdinal_dateOf, toOrdinal_dateOf] at before
    simp only [dayNumber, Foundation.Calendar.day] at before
    omega
  · intro first _ second _ _ v w hv hw starts _
    rw [floorSecond_of_whole (placed _ _ hv).2, floorSecond_of_whole (placed _ _ hw).2] at starts
    exact starts.le

end

end TelemetryEngine.ColdTier
