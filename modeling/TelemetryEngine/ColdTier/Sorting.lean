import TelemetryEngine.Foundation.Sortedness
import TelemetryEngine.ColdTier.Failure

/-! `verify_sorted` of `coldtier/query.py`. It compares the tenants of neighbouring rows,
and never their times. -/
namespace TelemetryEngine.ColdTier
open Foundation.Calendar Foundation.Sortedness

/-- `xs[:n]` -/
def sliceTo (xs : List A) (n : Int) : List A :=
  if 0 ≤ n then xs.take n.toNat else xs.take (xs.length - n.natAbs)

/-- What `read_parquet` reads of one file, in file order. -/
def rowsOf (files : AList fun _ : Path => LakeFile) (path : Path) : List SpanRow :=
  ((files.lookup path).map LakeFile.rows).getD []

/-- The rows whose tenant comes before that of the row before. -/
def outOfOrder (rows : List SpanRow) : ℕ := descents (rows.map SpanRow.tenantId)

def sortProblem (files : AList fun _ : Path => LakeFile) (path : Path) : Option String :=
  let broken := outOfOrder (rowsOf files path)
  if broken = 0 then none
  else some (path.name ++ ": " ++ toString broken ++ " rows break tenant_id ordering")

/-- Check that rows are ordered by (tenant_id, ts) inside each file. -/
def verifySorted (files : AList fun _ : Path => LakeFile) (sampleFiles : Int := 3) :
    Except DateError (List String) := do
  let listed ← (lakeTree files).parquetFiles
  return (sliceTo listed sampleFiles).filterMap (sortProblem files)

def committedFiles (files : AList fun _ : Path => LakeFile) : List Path :=
  (lakeTree files).globbed.filter Path.dated

def InSortOrder (rows : List SpanRow) : Prop := rows.Pairwise fun r s => r.sortKey ≤ s.sortKey

/-- The check finds nothing exactly where all files are in order. -/
def SortChecked (files : AList fun _ : Path => LakeFile) (sampleFiles : Int) : Prop :=
  ∃ problems, verifySorted files sampleFiles = .ok problems ∧
    (problems = [] ↔ ∀ path ∈ committedFiles files, InSortOrder (rowsOf files path))

def TenantsInOrder (rows : List SpanRow) : Prop := (rows.map SpanRow.tenantId).Pairwise (· ≤ ·)

def TimesInOrder (rows : List SpanRow) : Prop :=
  ∀ tenant, (rows.filter (·.tenantId = tenant)).Pairwise (SpanRow.ts · ≤ SpanRow.ts ·)

variable {files : AList fun _ : Path => LakeFile} {sampleFiles : Int} {path : Path}

theorem inSortOrder_iff (rows : List SpanRow) :
    InSortOrder rows ↔ TenantsInOrder rows ∧ TimesInOrder rows :=
  pairwise_lex_iff SpanRow.tenantId SpanRow.ts rows

theorem sortProblem_eq_none : sortProblem files path = none ↔ TenantsInOrder (rowsOf files path) := by
  rw [TenantsInOrder, ← descents_eq_zero, sortProblem]
  by_cases none_ : descents ((rowsOf files path).map SpanRow.tenantId) = 0 <;>
    simp [outOfOrder, none_]

theorem sliceTo_whole {xs : List A} {n : Int} (few : xs.length ≤ n) : sliceTo xs n = xs := by
  rw [sliceTo, if_pos (by omega), List.take_of_length_le (by omega)]

theorem verifySorted_eq (proper : ∀ path ∈ (lakeTree files).globbed, path.misdated = false)
    (few : (committedFiles files).length ≤ sampleFiles) :
    ∃ problems, verifySorted files sampleFiles = .ok problems ∧
      (problems = [] ↔ ∀ path ∈ committedFiles files, TenantsInOrder (rowsOf files path)) := by
  obtain ⟨listed, parsed, perm⟩ := Tree.parquetFiles_dated proper
  have whole : sliceTo listed sampleFiles = listed :=
    sliceTo_whole (by rw [perm.length_eq]; exact few)
  refine ⟨listed.filterMap (sortProblem files), ?_, ?_⟩
  · conv => rhs; rw [← whole]
    rw [verifySorted, parsed]
    rfl
  · simp only [List.filterMap_eq_nil_iff, sortProblem_eq_none]
    exact forall_congr' fun path => imp_congr_left perm.mem_iff

/-- The check is right exactly where no directory is misdated and some file has its tenants
out of order, or none has the times of a tenant out of order. -/
theorem sort_checked_iff (files : AList fun _ : Path => LakeFile) (sampleFiles : Int)
    (few : (committedFiles files).length ≤ sampleFiles) :
    SortChecked files sampleFiles ↔
      (∀ path ∈ (lakeTree files).globbed, path.misdated = false) ∧
        ((∃ path ∈ committedFiles files, ¬ TenantsInOrder (rowsOf files path)) ∨
          ∀ path ∈ committedFiles files, TimesInOrder (rowsOf files path)) := by
  by_cases proper : ∀ path ∈ (lakeTree files).globbed, path.misdated = false
  · obtain ⟨problems, checked, tenants⟩ := verifySorted_eq proper few
    have only : SortChecked files sampleFiles ↔
        (problems = [] ↔ ∀ path ∈ committedFiles files, InSortOrder (rowsOf files path)) := by
      rw [SortChecked, checked]
      simp
    rw [only, tenants, and_iff_right proper]
    simp only [inSortOrder_iff]
    constructor
    · intro right
      by_cases inOrder : ∀ path ∈ committedFiles files, TenantsInOrder (rowsOf files path)
      · exact .inr fun path member => (right.mp inOrder path member).2
      · push Not at inOrder
        exact .inl inOrder
    · rintro (⟨path, member, broken⟩ | times)
      · exact iff_of_false (fun inOrder => broken (inOrder path member))
          fun inOrder => broken (inOrder path member).1
      · exact forall₂_congr fun path member => (and_iff_left (times path member)).symm
  · refine iff_of_false ?_ fun both => proper both.1
    rintro ⟨problems, checked, -⟩
    push Not at proper
    obtain ⟨path, member, misdated⟩ := proper
    obtain ⟨e, raised⟩ := Tree.parquetFiles_misdated ⟨path, member, by simpa using misdated⟩
    rw [verifySorted, raised] at checked
    contradiction

def oneFile (rows : List SpanRow) : AList fun _ : Path => LakeFile :=
  AList.singleton ⟨"dt=1970-01-01", "a.parquet"⟩ ⟨⟨0, second, by decide, by decide⟩, rows⟩

/-- Two tenants, in order. -/
theorem sort_checked_two_tenants :
    let files := oneFile [{ ts := 1, tenantId := "a" }, { ts := 0, tenantId := "b" }]
    SortChecked files 3 ↔
      (∀ path ∈ (lakeTree files).globbed, path.misdated = false) ∧
        ((∃ path ∈ committedFiles files, ¬ TenantsInOrder (rowsOf files path)) ∨
          ∀ path ∈ committedFiles files, TimesInOrder (rowsOf files path)) :=
  sort_checked_iff _ 3 (by decide +kernel)

/-- Two rows of a tenant, the later one first: nothing is reported. -/
theorem sort_check_misses_times :
    let files := oneFile [{ ts := 1, tenantId := "a" }, { ts := 0, tenantId := "a" }]
    verifySorted files = .ok [] ∧ ¬ SortChecked files 3 := by
  intro files
  have silent : verifySorted files = .ok [] := by decide +kernel
  refine ⟨silent, ?_⟩
  rintro ⟨problems, checked, right⟩
  obtain rfl := Except.ok.inj (silent.symm.trans checked)
  have ordered := right.mp rfl ⟨"dt=1970-01-01", "a.parquet"⟩ (by decide +kernel)
  have times := ((inSortOrder_iff _).mp ordered).2 "a"
  revert times
  decide +kernel

end TelemetryEngine.ColdTier
