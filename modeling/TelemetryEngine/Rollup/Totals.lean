import Mathlib.Algebra.BigOperators.Group.List.Basic
import Mathlib.Data.UInt
import TelemetryEngine.Rollup.MinuteView

/-! Rollup totals against raw totals. Grouping, blocks and merges keep every sum;
the errors are counted from the guarded status class, which says `ok` only while
`ok` is allowlisted. -/
namespace TelemetryEngine.Rollup
open Cardinality Foundation.MergingTable

abbrev Totals := Nat × UInt64 × UInt64 × Nat

/-- `count(), sum(input_tokens), sum(output_tokens), countIf(status_class != 'ok')`. -/
def rawTotals (rows : List SpanRow) : Totals :=
  (rows.length, (rows.map (·.inputTokens.toUInt64)).sum, (rows.map (·.outputTokens.toUInt64)).sum,
    rows.countP (·.statusClass ≠ "ok"))

def RollupState.totals : RollupState →+ Totals where
  toFun state := (state.spans, state.inputTokens, state.outputTokens, state.errors)
  map_zero' := rfl
  map_add' _ _ := rfl

/-- `countMerge`, `sumMerge`, `sumMerge` and `countIfMerge` over the table. -/
def rollupTotals (table : Spans1m) : Totals := (total (fun _ => true) table).totals

/-- An insert into `spans_raw`, and the dictionary the view meets it with. -/
structure Block where
  dictionary : Allowlist
  rows : List SpanRow

namespace Block

def write (block : Block) : Spans1m := mvSpans1m block.dictionary block.rows

/-- The rows that are `ok`, and whose class the guard hides. -/
def hidden (block : Block) : Nat :=
  block.rows.countP fun row =>
    row.statusClass = "ok" ∧ ("status_class", "ok") ∉ block.dictionary

end Block

theorem rawTotals_append (first second : List SpanRow) :
    rawTotals (first ++ second) = rawTotals first + rawTotals second := by
  simp only [rawTotals, List.length_append, List.map_append, List.sum_append, List.countP_append]
  rfl

theorem guarded_ok (dictionary : Allowlist) (value : String) :
    guarded dictionary "status_class" value = "ok" ↔
      value = "ok" ∧ ("status_class", "ok") ∈ dictionary := by
  unfold guarded
  split
  case isTrue empty => simp [empty]
  case isFalse present =>
    split
    case isTrue allowed =>
      constructor
      · rintro rfl
        exact ⟨rfl, allowed⟩
      · exact And.left
    case isFalse missing =>
      constructor
      · intro sentinel
        exact absurd sentinel (by decide)
      · rintro ⟨rfl, allowed⟩
        exact absurd allowed missing

/-- One row adds to the totals what it adds to the raw ones, and an error more if
its `ok` is hidden. -/
theorem rollupState_totals (dictionary : Allowlist) (row : SpanRow) :
    (rollupState dictionary row).totals = rawTotals [row] +
      (0, 0, 0, if row.statusClass = "ok" ∧ ("status_class", "ok") ∉ dictionary then 1 else 0) := by
  have errors : (rollupState dictionary row).errors = [row].countP (·.statusClass ≠ "ok") +
      if row.statusClass = "ok" ∧ ("status_class", "ok") ∉ dictionary then 1 else 0 := by
    simp only [rollupState, rollupKey, ne_eq, guarded_ok, List.countP_singleton]
    by_cases fine : row.statusClass = "ok" <;>
      by_cases allowed : ("status_class", "ok") ∈ dictionary <;> simp [fine, allowed]
  refine Prod.ext rfl (Prod.ext ?_ (Prod.ext ?_ errors))
  · change row.inputTokens.toUInt64 = row.inputTokens.toUInt64 + 0 + 0
    rw [add_zero, add_zero]
  · change row.outputTokens.toUInt64 = row.outputTokens.toUInt64 + 0 + 0
    rw [add_zero, add_zero]

theorem rawTotals_cons (row : SpanRow) (rest : List SpanRow) :
    rawTotals (row :: rest) = rawTotals [row] + rawTotals rest := rawTotals_append [row] rest

theorem Block.write_totals (block : Block) :
    rollupTotals block.write = rawTotals block.rows + (0, 0, 0, block.hidden) := by
  obtain ⟨dictionary, rows⟩ := block
  simp only [rollupTotals, write, mvSpans1m, total_group, List.filter_true, hidden, map_list_sum,
    List.map_map]
  induction rows with
  | nil => rfl
  | cons row rest ih =>
    rw [List.map_cons, List.sum_cons, ih, Function.comp_apply, rollupState_totals,
      rawTotals_cons row rest, List.countP_cons, add_add_add_comm]
    simp only [Prod.mk_add_mk, add_zero, decide_eq_true_eq, Nat.add_comm]

theorem rollupTotals_eq {blocks : List Block} {table : Spans1m}
    (held : Holds Block.write blocks table) :
    rollupTotals table = rawTotals (blocks.flatMap Block.rows) +
      (0, 0, 0, (blocks.map Block.hidden).sum) := by
  have written : rollupTotals table = (blocks.map fun block => rollupTotals block.write).sum := by
    rw [rollupTotals, holds_total held, map_list_sum, List.map_map]
    rfl
  rw [written]
  clear held written
  induction blocks with
  | nil => rfl
  | cons block rest ih =>
    rw [List.map_cons, List.sum_cons, ih, block.write_totals, List.flatMap_cons, rawTotals_append,
      List.map_cons, List.sum_cons, add_add_add_comm]
    rfl

/-- The rollup agrees with the raw rows exactly when no block with an `ok` row was
written while `ok` was not allowlisted. -/
theorem rollup_totals_iff {blocks : List Block} {table : Spans1m}
    (held : Holds Block.write blocks table) :
    rollupTotals table = rawTotals (blocks.flatMap Block.rows) ↔
      ∀ block ∈ blocks, ∀ row ∈ block.rows, row.statusClass = "ok" →
        ("status_class", "ok") ∈ block.dictionary := by
  have none : (blocks.map Block.hidden).sum = 0 ↔
      ∀ block ∈ blocks, ∀ row ∈ block.rows, row.statusClass = "ok" →
        ("status_class", "ok") ∈ block.dictionary := by
    simp [List.sum_eq_zero_iff_forall_eq_nat, Block.hidden, List.countP_eq_zero]
  rw [← none, rollupTotals_eq held]
  constructor
  · intro same
    have errors := congrArg (fun totals : Totals => totals.2.2.2) same
    exact Nat.left_eq_add.mp errors.symm
  · intro hidden
    rw [hidden]
    exact add_zero _

def okBlock (dictionary : Allowlist) : Block := ⟨dictionary, [{ ts := 0, statusClass := "ok" }]⟩

theorem rollup_totals_allowlisted :
    rollupTotals (okBlock {("status_class", "ok")}).write = (1, 0, 0, 0) :=
  (@rollup_totals_iff [okBlock {("status_class", "ok")}] _ (Holds.insert .empty)).mpr
    (by decide +kernel)

/-- Before the first sync the allowlist is empty, and every span is an error. -/
theorem rollup_totals_unsynced : ∃ table, Holds Block.write [okBlock ∅] table ∧
    rollupTotals table = (1, 0, 0, 1) ∧ rawTotals (okBlock ∅).rows = (1, 0, 0, 0) :=
  ⟨_, Holds.insert .empty, by decide +kernel, by decide +kernel⟩

end TelemetryEngine.Rollup
