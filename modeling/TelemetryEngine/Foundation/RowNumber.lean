import Mathlib.Algebra.BigOperators.Group.List.Lemmas
import Mathlib.Algebra.GroupWithZero.Nat
import Mathlib.Data.List.Dedup
import Mathlib.Data.List.Sort

/-! `row_number() OVER (PARTITION BY key ORDER BY rank)`, and what is left of a table by
`rn = 1`: of each partition, a row of least rank. -/
namespace Foundation.RowNumber
variable {R K V : Type} [DecidableEq K] [LinearOrder V] {rank : R → V}

/-- How an engine orders the rows of a partition: by rank, and as it likes within one. -/
structure PartitionOrder (rank : R → V) where
  order : List R → List R
  perm : ∀ rows, (order rows).Perm rows
  sorted : ∀ rows, (order rows).Pairwise (rank · ≤ rank ·)

/-- Rows of one rank stay in the order they came in. -/
def PartitionOrder.stable (rank : R → V) : PartitionOrder rank where
  order rows := rows.insertionSort (rank · ≤ rank ·)
  perm rows := List.perm_insertionSort _ rows
  sorted rows := by
    have : Std.Total fun r s : R => rank r ≤ rank s := ⟨fun _ _ => le_total _ _⟩
    have : IsTrans R fun r s => rank r ≤ rank s := ⟨fun _ _ _ => le_trans⟩
    exact List.pairwise_insertionSort _ rows

def partition (engine : PartitionOrder rank) (key : R → K) (rows : List R) (k : K) : List R :=
  engine.order (rows.filter (key · = k))

def numbered (engine : PartitionOrder rank) (key : R → K) (rows : List R) : List (R × ℕ) :=
  (rows.map key).dedup.flatMap fun k => (partition engine key rows k).zipIdx 1

/-- `WHERE rn = 1` -/
def firsts (engine : PartitionOrder rank) (key : R → K) (rows : List R) : List R :=
  ((numbered engine key rows).filter (·.2 = 1)).map Prod.fst

variable {engine : PartitionOrder rank} {key : R → K} {rows : List R} {k : K} {row : R}

theorem filter_zipIdx (rows : List R) :
    ((rows.zipIdx 1).filter (·.2 = 1)).map Prod.fst = rows.head?.toList := by
  cases rows with
  | nil => rfl
  | cons row rest =>
    have later : (rest.zipIdx 2).filter (·.2 = 1) = [] := by
      rw [List.filter_eq_nil_iff]
      rintro ⟨other, number⟩ member
      have beyond := (List.mem_zipIdx member).1
      simp only [decide_eq_true_eq]
      omega
    simp [later]

theorem firsts_eq : firsts engine key rows =
    (rows.map key).dedup.flatMap fun k => (partition engine key rows k).head?.toList := by
  simp only [firsts, numbered, List.filter_flatMap, List.map_flatMap, filter_zipIdx]

theorem mem_partition : row ∈ partition engine key rows k ↔ row ∈ rows ∧ key row = k := by
  rw [partition, (engine.perm _).mem_iff, List.mem_filter, decide_eq_true_eq]

theorem exists_head (engine : PartitionOrder rank) (member : k ∈ rows.map key) :
    ∃ row, (partition engine key rows k).head? = some row ∧ row ∈ rows ∧ key row = k := by
  obtain ⟨some_, inside, same⟩ := List.mem_map.mp member
  cases first : (partition engine key rows k).head? with
  | none =>
    rw [List.head?_eq_none_iff] at first
    exact absurd (mem_partition.mpr ⟨inside, same⟩) (first ▸ List.not_mem_nil)
  | some row => exact ⟨row, rfl, mem_partition.mp (List.mem_of_head? first)⟩

theorem firsts_keys (engine : PartitionOrder rank) (key : R → K) (rows : List R) :
    (firsts engine key rows).map key = (rows.map key).dedup := by
  rw [firsts_eq, List.map_flatMap]
  have single : ∀ k ∈ (rows.map key).dedup,
      (partition engine key rows k).head?.toList.map key = [k] := by
    intro k member
    obtain ⟨row, first, -, same⟩ := exists_head engine (List.mem_dedup.mp member)
    simp [first, same]
  rw [List.flatMap_congr single]
  exact List.flatMap_singleton' _

theorem firsts_count (engine : PartitionOrder rank) (key : R → K) (rows : List R) (k : K) :
    (firsts engine key rows).countP (key · = k) = if k ∈ rows.map key then 1 else 0 := by
  have counted := congrArg (List.count k) (firsts_keys engine key rows)
  rw [List.count_dedup] at counted
  rw [← counted, List.count, List.countP_map]
  rfl

theorem mem_firsts : row ∈ firsts engine key rows ↔
    row ∈ rows ∧ (partition engine key rows (key row)).head? = some row := by
  rw [firsts_eq, List.mem_flatMap]
  constructor
  · rintro ⟨k, -, member⟩
    have first : (partition engine key rows k).head? = some row := by simpa using member
    obtain ⟨inside, rfl⟩ := mem_partition.mp (List.mem_of_head? first)
    exact ⟨inside, first⟩
  · rintro ⟨inside, first⟩
    exact ⟨key row, by simpa using ⟨row, inside, rfl⟩, by simp [first]⟩

theorem firsts_least (member : row ∈ firsts engine key rows) :
    ∀ other ∈ rows, key other = key row → rank row ≤ rank other := by
  intro other inside same
  have sorted := engine.sorted (rows.filter (key · = key row))
  have listed : other ∈ partition engine key rows (key row) := mem_partition.mpr ⟨inside, same⟩
  have first := (mem_firsts.mp member).2
  change (partition engine key rows (key row)).Pairwise _ at sorted
  cases split : partition engine key rows (key row) with
  | nil => simp [split] at first
  | cons head rest =>
    obtain rfl : head = row := by simpa [split] using first
    rw [split] at sorted listed
    obtain rfl | later := List.mem_cons.mp listed
    · exact le_rfl
    · exact (List.pairwise_cons.mp sorted).1 other later

/-- The rows beyond the first of each key. -/
theorem length_sub_distinct (keys : List K) :
    keys.length - keys.dedup.length = (keys.dedup.map fun k => keys.count k - 1).sum := by
  have total := List.sum_map_count_dedup_eq_length keys
  have each : (keys.dedup.map fun k => keys.count k) =
      keys.dedup.map fun k => (keys.count k - 1) + 1 := by
    refine List.map_congr_left fun k member => ?_
    have occurs := List.count_pos_iff.mpr (List.mem_dedup.mp member)
    omega
  rw [each, List.sum_map_add] at total
  simp only [List.map_const', List.sum_replicate_nat, mul_one] at total
  omega

end Foundation.RowNumber
