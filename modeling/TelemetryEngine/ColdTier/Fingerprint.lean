import Mathlib.Algebra.BigOperators.Group.List.Basic
import Mathlib.Data.Finset.Card
import TelemetryEngine.Foundation.Rounding
import TelemetryEngine.HotTier.SpansRaw

/-! The two fingerprints of `coldtier/export.py`: one taken by ClickHouse over
the source, one by DuckDB over the written file. Both aggregate the same rows
when the file holds them in any order, and then they agree in spite of the two
engines' different rounding of ties. -/
namespace TelemetryEngine.ColdTier
open Foundation.Rounding

/-- The tuple both engines return. A sum over no rows is NULL in DuckDB. -/
structure Fingerprint where
  rows : Nat
  inputTokens : Option Nat
  outputTokens : Option Nat
  durationMs : Option ℚ
  tenants : Nat
  traces : Nat
  deriving DecidableEq, Repr

def sumOf (column : SpanRow → Nat) (rows : List SpanRow) : Nat := (rows.map column).sum

def distinct (column : SpanRow → String) (rows : List SpanRow) : Nat :=
  (rows.map column).toFinset.card

def totalDuration (rows : List SpanRow) : ℚ := (rows.map SpanRow.durationMs).sum

/-- `_source_fingerprint`, over the rows the query selects. ClickHouse rounds a
float half to even. -/
def sourceFingerprint (rows : List SpanRow) : Fingerprint where
  rows := rows.length
  inputTokens := some (sumOf (·.inputTokens.toNat) rows)
  outputTokens := some (sumOf (·.outputTokens.toNat) rows)
  durationMs := some (roundTo roundHalfEven 3 (totalDuration rows))
  tenants := distinct SpanRow.tenantId rows
  traces := distinct SpanRow.traceId rows

/-- `_parquet_fingerprint`, over the rows the file holds. DuckDB rounds half away
from zero. -/
def parquetFingerprint (rows : List SpanRow) : Fingerprint where
  rows := rows.length
  inputTokens := if rows = [] then none else some (sumOf (·.inputTokens.toNat) rows)
  outputTokens := if rows = [] then none else some (sumOf (·.outputTokens.toNat) rows)
  durationMs := if rows = [] then none else some (roundTo roundHalfAway 3 (totalDuration rows))
  tenants := distinct SpanRow.tenantId rows
  traces := distinct SpanRow.traceId rows

/-- A NULL agrees with a NULL only. -/
def agreeing (agree : α → α → Bool) : Option α → Option α → Bool
  | some a, some b => agree a b
  | none, none => true
  | _, _ => false

/-- The tolerance on the summed float: one unit, or a millionth of the source. -/
def durationsAgree (a b : ℚ) : Bool := !decide (max 1 (|a| * (1 / 1000000)) < |a - b|)

/-- `_fingerprints_agree`. -/
def fingerprintsAgree (source parquet : Fingerprint) : Bool :=
  source.rows == parquet.rows && agreeing (· == ·) source.inputTokens parquet.inputTokens &&
    agreeing (· == ·) source.outputTokens parquet.outputTokens &&
    agreeing durationsAgree source.durationMs parquet.durationMs &&
    source.tenants == parquet.tenants && source.traces == parquet.traces

/-- Rounding one number in two ways stays far inside the tolerance. -/
theorem durationsAgree_rounded (x : ℚ) :
    durationsAgree (roundTo roundHalfEven 3 x) (roundTo roundHalfAway 3 x) = true := by
  have even := abs_le.mp (roundHalfEven_near (x * 10 ^ 3))
  have away := abs_le.mp (roundHalfAway_near (x * 10 ^ 3))
  have close : |roundTo roundHalfEven 3 x - roundTo roundHalfAway 3 x| ≤ 1 := by
    simp only [roundTo]
    rw [abs_le]
    constructor <;> linarith
  simp only [durationsAgree, Bool.not_eq_true', decide_eq_false_iff_not, not_lt]
  exact close.trans (le_max_left _ _)

theorem fingerprintsAgree_perm {source file : List SpanRow} (same : file.Perm source)
    (nonempty : source ≠ []) :
    fingerprintsAgree (sourceFingerprint source) (parquetFingerprint file) = true := by
  have written : file ≠ [] := fun none => nonempty (by simpa [none] using same.symm)
  have sums (column : SpanRow → Nat) : sumOf column file = sumOf column source :=
    (same.map column).sum_eq
  have durations : totalDuration file = totalDuration source := (same.map _).sum_eq
  have counts (column : SpanRow → String) : distinct column file = distinct column source := by
    simp only [distinct, List.toFinset_eq_of_perm _ _ (same.map column)]
  simp [fingerprintsAgree, sourceFingerprint, parquetFingerprint, written, agreeing, sums, durations,
    counts, same.length_eq, durationsAgree_rounded]

end TelemetryEngine.ColdTier
