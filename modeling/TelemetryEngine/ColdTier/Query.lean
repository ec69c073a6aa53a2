import Mathlib.Algebra.Order.BigOperators.Group.List
import Mathlib.Data.Finset.Card
import TelemetryEngine.ColdTier.Listing

/-! `open_lake` and `stats` of `coldtier/query.py`. The check compares two numbers: the
files that gave a row to DuckDB, and the files of the listing. A file in a directory that
is not named after a date adds to the first, and one without rows takes from it. -/
namespace TelemetryEngine.ColdTier

inductive LakeError where
  | date (error : DateError)
  /-- `ColdTierMismatchError` -/
  | mismatch (seen onDisk : ℕ)
  deriving DecidableEq, Repr

structure LakeStats where
  files : ℕ
  rows : ℕ
  partitions : ℕ
  deriving DecidableEq, Repr

namespace Tree

def filenames (tree : Tree) : List Path :=
  tree.globbed.flatMap fun path => List.replicate (tree.rows path) path

/-- `count(DISTINCT filename)` -/
def seen (tree : Tree) : ℕ := tree.filenames.dedup.length

/-- Opens the lake: the files the view `spans` reads. The view of an empty listing reads
none. -/
def openLake (tree : Tree) (verify : Bool) : Except LakeError (List Path) := do
  let onDisk ← tree.parquetFiles.mapError .date
  if onDisk.isEmpty then return []
  else if verify ∧ tree.seen ≠ onDisk.length then throw (.mismatch tree.seen onDisk.length)
  else return tree.globbed

def stats (tree : Tree) : Except LakeError LakeStats := do
  let files ← tree.parquetFiles.mapError .date
  if files.isEmpty then return ⟨0, 0, 0⟩
  else
    let read ← tree.openLake true
    return ⟨files.length, (read.map tree.rows).sum, (files.map Path.dir).dedup.length⟩

/-- What the glob reads and the listing leaves out. -/
def foreign (tree : Tree) : List Path := tree.globbed.filter fun path => !path.dated

def bare (tree : Tree) : List Path := tree.globbed.filter fun path => tree.rows path = 0

variable {tree : Tree} {files : List Path}

theorem seen_eq : tree.seen = (tree.globbed.filter fun path => 0 < tree.rows path).length := by
  have distinct : (tree.globbed.filter fun path => 0 < tree.rows path).Nodup :=
    (tree.nodup.filter _).filter _
  have same : tree.filenames.toFinset =
      (tree.globbed.filter fun path => 0 < tree.rows path).toFinset := by
    ext path
    simp [filenames, List.mem_flatMap, List.mem_replicate, Nat.pos_iff_ne_zero, and_comm]
  rw [seen, ← List.card_toFinset, same, List.toFinset_card_of_nodup distinct]

theorem seen_add_bare : tree.seen + tree.bare.length = tree.globbed.length := by
  rw [seen_eq, bare, tree.globbed.length_eq_length_filter_add fun path => 0 < tree.rows path]
  simp [Nat.pos_iff_ne_zero]

theorem dated_add_foreign :
    (tree.globbed.filter Path.dated).length + tree.foreign.length = tree.globbed.length :=
  (tree.globbed.length_eq_length_filter_add Path.dated).symm

theorem stats_counts (dated : ∀ path ∈ tree.globbed, path.dated = true)
    (full : ∀ path ∈ tree.globbed, 0 < tree.rows path) :
    ∃ counted, tree.stats = .ok counted ∧ (counted.rows = 0 ↔ tree.globbed = []) := by
  obtain ⟨files, listed, perm⟩ :=
    parquetFiles_dated fun path member => Path.misdated_of_dated (dated path member)
  rw [List.filter_eq_self.mpr dated] at perm
  by_cases empty : files = []
  · subst empty
    refine ⟨⟨0, 0, 0⟩, ?_, by simp [perm.nil_eq.symm]⟩
    simp [stats, listed, Except.mapError, bind, Except.bind, pure, Except.pure]
  · have seen : tree.seen = files.length := by
      rw [seen_eq, List.filter_eq_self.mpr (by simpa using full), perm.length_eq]
    refine ⟨⟨files.length, (tree.globbed.map tree.rows).sum, (files.map Path.dir).dedup.length⟩, ?_, ?_⟩
    · simp [stats, openLake, listed, Except.mapError, bind, Except.bind, pure, Except.pure, empty, seen]
    · rw [List.sum_eq_zero_iff]
      constructor
      · intro zero
        by_contra some_
        obtain ⟨path, member⟩ := List.exists_mem_of_ne_nil _ some_
        exact (full path member).ne' (zero _ (List.mem_map_of_mem member))
      · intro none
        simp [none]

/-- What `open_lake` is for: it raises the mismatch exactly when the two listings differ. -/
def Checked (tree : Tree) : Prop :=
  ∃ files, tree.parquetFiles = .ok files ∧
    ((∃ seen onDisk, tree.openLake true = .error (.mismatch seen onDisk)) ↔
      ¬ ∀ path, path ∈ tree.globbed ↔ path ∈ files)

theorem openLake_mismatch_iff (listed : tree.parquetFiles = .ok files) :
    (∃ seen onDisk, tree.openLake true = .error (.mismatch seen onDisk)) ↔
      files ≠ [] ∧ tree.seen ≠ files.length := by
  by_cases empty : files = []
  · simp [openLake, listed, Except.mapError, bind, Except.bind, empty, pure, Except.pure]
  · by_cases agree : tree.seen = files.length
    · simp [openLake, listed, Except.mapError, bind, Except.bind, empty, agree, pure, Except.pure]
    · simp [openLake, listed, Except.mapError, bind, Except.bind, empty, agree, throw, throwThe,
        MonadExceptOf.throw]

theorem listings_agree_iff (listed : files.Perm (tree.globbed.filter Path.dated)) :
    (∀ path, path ∈ tree.globbed ↔ path ∈ files) ↔ tree.foreign = [] := by
  rw [foreign, List.filter_eq_nil_iff]
  constructor
  · intro same path member
    have dated := (List.mem_filter.mp (listed.mem_iff.mp ((same path).mp member))).2
    simp [dated]
  · intro none path
    rw [listed.mem_iff, List.mem_filter]
    constructor
    · intro member
      exact ⟨member, by simpa using none path member⟩
    · exact fun both => both.1

theorem checked_iff_of_proper (proper : ∀ path ∈ tree.globbed, path.misdated = false) :
    tree.Checked ↔ (tree.globbed.filter Path.dated ≠ [] ∧
      tree.foreign.length ≠ tree.bare.length ↔ tree.foreign ≠ []) := by
  obtain ⟨files, listed, perm⟩ := parquetFiles_dated proper
  have some_ : files ≠ [] ↔ tree.globbed.filter Path.dated ≠ [] := by
    rw [Ne, Ne, ← List.length_eq_zero_iff, perm.length_eq, List.length_eq_zero_iff]
  have count : tree.seen ≠ files.length ↔ tree.foreign.length ≠ tree.bare.length := by
    have rows := @seen_add_bare tree
    have dates := @dated_add_foreign tree
    have length := perm.length_eq
    omega
  have only : tree.Checked ↔ ((∃ seen onDisk, tree.openLake true = .error (.mismatch seen onDisk)) ↔
      ¬ ∀ path, path ∈ tree.globbed ↔ path ∈ files) := by
    constructor
    · rintro ⟨other, listed', checked⟩
      obtain rfl := Except.ok.inj (listed.symm.trans listed')
      exact checked
    · exact fun checked => ⟨files, listed, checked⟩
  rw [only, openLake_mismatch_iff listed, listings_agree_iff perm, some_, count]

/-- It does so exactly when no directory is misdated, and either every globbed file is
listed and has rows, or some are not and the lake has listed files too and does not
have as many files without rows. -/
theorem open_lake_checked_iff (tree : Tree) :
    tree.Checked ↔ (∀ path ∈ tree.globbed, path.misdated = false) ∧
      (tree.foreign = [] ∧ tree.bare = [] ∨
        tree.foreign ≠ [] ∧ tree.globbed.filter Path.dated ≠ [] ∧
          tree.foreign.length ≠ tree.bare.length) := by
  constructor
  · intro checked
    have proper : ∀ path ∈ tree.globbed, path.misdated = false := by
      by_contra improper
      push Not at improper
      obtain ⟨path, member, bad⟩ := improper
      obtain ⟨e, failed⟩ := parquetFiles_misdated ⟨path, member, by simpa using bad⟩
      obtain ⟨files, listed, _⟩ := checked
      rw [failed] at listed
      contradiction
    refine ⟨proper, ?_⟩
    have condition := (checked_iff_of_proper proper).mp checked
    by_cases none : tree.foreign = []
    · refine .inl ⟨none, ?_⟩
      by_contra some_
      have rows : tree.bare.length ≠ 0 := fun zero => some_ (List.eq_nil_of_length_eq_zero zero)
      have listed : tree.globbed.filter Path.dated ≠ [] := by
        intro empty
        have total := @dated_add_foreign tree
        have part := @seen_add_bare tree
        simp only [empty, none, List.length_nil] at total
        omega
      exact condition.mp ⟨listed, by simpa [none] using rows.symm⟩ none
    · exact .inr ⟨none, condition.mpr none⟩
  · rintro ⟨proper, condition⟩
    rw [checked_iff_of_proper proper]
    rcases condition with ⟨none, full⟩ | ⟨some_, both⟩
    · simp [none, full]
    · exact ⟨fun _ => some_, fun _ => both⟩

def bareLake : Tree where
  paths := [⟨"dt=2026-08-27", "spans-20260827T150000-20260827T160000.parquet"⟩]
  nodup := by decide
  rows _ := 0

/-- A file of a directory that is no date, and one without rows beside a third. -/
def foreignLake : Tree where
  paths := [⟨"dt=2026-08-27", "a.parquet"⟩, ⟨"dt=2026-08-27", "b.parquet"⟩,
    ⟨"dt=archive", "c.parquet"⟩]
  nodup := by decide
  rows path := if path.name = "a.parquet" then 0 else 1

/-- The first lake is refused although the listings agree. The second is opened although
they differ. -/
theorem open_lake_miscounts :
    bareLake.openLake true = .error (.mismatch 0 1) ∧ ¬ bareLake.Checked ∧
      foreignLake.openLake true = .ok foreignLake.globbed ∧ ¬ foreignLake.Checked := by
  refine ⟨by decide +kernel, ?_, by decide +kernel, ?_⟩
  · rw [checked_iff_of_proper (by decide +kernel)]
    decide +kernel
  · rw [checked_iff_of_proper (by decide +kernel)]
    decide +kernel

end Tree
end TelemetryEngine.ColdTier
