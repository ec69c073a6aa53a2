import Mathlib.Algebra.Order.Group.Multiset
import TelemetryEngine.ColdTier.Expiry
import TelemetryEngine.Rollup.Backfill

/-! `rollup-status` over a history. Raw rows expire after 48 hours and rollup rows after
seven days, so the two tables come to count different spans. The status compares how many
each holds. -/
namespace TelemetryEngine.Rollup
open Cardinality Foundation Foundation.Calendar Foundation.MergingTable

/-- A state, and the rows it stands for. The table does not keep the rows. -/
abbrev Traced1m := Table RollupKey (RollupState × Multiset SpanRow)

/-- What the view, or a chunk of a backfill, writes for a block. -/
def writeTraced (dictionary : Allowlist) (rows : List SpanRow) : Traced1m :=
  group (rollupKey dictionary) (fun row => (rollupState dictionary row, {row})) rows

/-- The table without the rows. -/
def Traced1m.untraced (table : Traced1m) : Spans1m :=
  mapStates (AddMonoidHom.fst RollupState (Multiset SpanRow)) table

/-- What of a list stays, where `gone` picks by position among what may go. -/
def purge (gone : Nat → Bool) (may : A → Bool) (xs : List A) : List A :=
  (xs.zipIdx.filter fun entry => !(gone entry.2 && may entry.1)).map Prod.fst

/-- `TTL ts_minute + INTERVAL 7 DAY DELETE` -/
def rollupTtl : Int := 7 * day

inductive Occurrence where
  /-- The view is created or dropped. -/
  | view (present : Bool)
  /-- An insert into `spans_raw`, which the view sees if it is there. -/
  | ingest (dictionary : Allowlist) (rows : List SpanRow)
  /-- A backfill of a window, which may end after some of its chunks. -/
  | backfill (server : Server) (dictionary : Allowlist) (start stop : Int) (chunks : Nat)
  | merge (merging : Merging RollupKey (RollupState × Multiset SpanRow))
  /-- A merge at `now` deletes some of the expired rows. -/
  | expireRaw (now : Int) (gone : Nat → Bool)
  | expireRollup (now : Int) (gone : Nat → Bool)

structure Tables where
  viewed : Bool := false
  raw : List SpanRow := []
  rollup : Traced1m := []

namespace Tables

def step (tables : Tables) : Occurrence → Tables
  | .view present => { tables with viewed := present }
  | .ingest dictionary rows =>
    { tables with
      raw := tables.raw ++ rows
      rollup := if tables.viewed then tables.rollup ++ writeTraced dictionary rows else tables.rollup }
  | .backfill server dictionary start stop chunks =>
    { tables with
      rollup := tables.rollup ++ ((backfill server tables.raw start stop).trace.take chunks).flatMap
        fun chunk => writeTraced dictionary (tables.raw.filter (server.between chunk.start chunk.stop)) }
  | .merge merging => { tables with rollup := (merging tables.rollup).1 }
  | .expireRaw now gone => { tables with raw := purge gone (ColdTier.expired now) tables.raw }
  | .expireRollup now gone =>
    { tables with rollup := purge gone (fun entry => entry.1.tsMinute + rollupTtl ≤ now) tables.rollup }

def after (history : List Occurrence) : Tables := history.foldl step {}

/-- The rows that `spans_1m` counts, each as often as it counts them. -/
def counted (tables : Tables) : Multiset SpanRow := (total (fun _ => true) tables.rollup).2

def status (server : Server) (tables : Tables) : BackfillPlan :=
  plan server tables.raw tables.rollup.untraced

/-- What the status is for. -/
def Truthful (server : Server) (tables : Tables) : Prop :=
  (tables.status server).needsBackfill = true ↔
    ∃ row ∈ tables.raw, tables.counted.count row < tables.raw.count row

end Tables

theorem purge_sublist (gone : Nat → Bool) (may : A → Bool) (xs : List A) :
    (purge gone may xs).Sublist xs := by
  have kept := (List.filter_sublist (p := fun entry => !(gone entry.2 && may entry.1))
    (l := xs.zipIdx)).map Prod.fst
  rwa [List.zipIdx_map_fst] at kept

/-- A state counts as many spans as it stands for. -/
def exact : AddSubmonoid (RollupState × Multiset SpanRow) where
  carrier := { entry | entry.1.spans = entry.2.card }
  zero_mem' := rfl
  add_mem' := by
    rintro first second left right
    exact (congrArg₂ (· + ·) left right).trans (Multiset.card_add _ _).symm

theorem writeTraced_exact (dictionary : Allowlist) (rows : List SpanRow) :
    AllIn exact (writeTraced dictionary rows) :=
  AllIn.group _ fun _ => rfl

namespace Tables

theorem step_exact {tables : Tables} (all : AllIn exact tables.rollup) (occurrence : Occurrence) :
    AllIn exact (tables.step occurrence).rollup := by
  cases occurrence with
  | view | expireRaw => exact all
  | ingest dictionary rows =>
    simp only [step]
    split
    · exact all.append (writeTraced_exact dictionary rows)
    · exact all
  | backfill server dictionary start stop chunks =>
    refine all.append ?_
    intro entry member
    obtain ⟨chunk, _, among⟩ := List.mem_flatMap.mp member
    exact writeTraced_exact dictionary _ entry among
  | merge merging => exact all.merging (merging tables.rollup).2
  | expireRollup now gone =>
    simp only [step]
    exact all.subset (purge_sublist gone _ tables.rollup).subset

theorem after_exact (history : List Occurrence) : AllIn exact (after history).rollup := by
  induction history using List.reverseRecOn with
  | nil =>
    intro entry member
    cases member
  | append_singleton earlier last ih =>
    rw [after, List.foldl_append]
    exact step_exact ih last

/-- `countMerge(spans)` is the number of rows counted. -/
theorem status_spans (server : Server) (history : List Occurrence) :
    ((after history).status server).rollupSpans = (after history).counted.card := by
  have projected : total (fun _ => true) (after history).rollup.untraced =
      (total (fun _ => true) (after history).rollup).1 := total_mapStates _ _
  have counts : (total (fun _ => true) (after history).rollup).1.spans =
      (after history).counted.card := (after_exact history).total_mem
  exact (congrArg RollupState.spans projected).trans counts

theorem needsBackfill_iff (server : Server) (history : List Occurrence) :
    ((after history).status server).needsBackfill = true ↔
      (after history).counted.card < (after history).raw.length := by
  have spans := status_spans server history
  simp only [BackfillPlan.needsBackfill, BackfillPlan.missingSpans, decide_eq_true_eq, spans]
  exact Nat.sub_pos_iff_lt

theorem uncounted_iff (tables : Tables) :
    (∃ row ∈ tables.raw, tables.counted.count row < tables.raw.count row) ↔
      ¬ (tables.raw : Multiset SpanRow) ≤ tables.counted := by
  simp only [Multiset.le_iff_count, Multiset.coe_count, not_forall, not_le]
  constructor
  · rintro ⟨row, _, fewer⟩
    exact ⟨row, fewer⟩
  · rintro ⟨row, fewer⟩
    exact ⟨row, List.count_pos_iff.mp (Nat.zero_lt_of_lt fewer), fewer⟩

/-- In every state of every history the status is right exactly when nothing of raw is
missing, or more is missing than the rollup counts besides. -/
theorem status_truthful_iff (server : Server) (history : List Occurrence) :
    let tables := after history
    tables.Truthful server ↔ (tables.raw : Multiset SpanRow) ≤ tables.counted ∨
      (tables.counted - tables.raw).card < (tables.raw - tables.counted : Multiset SpanRow).card := by
  intro tables
  have needed := needsBackfill_iff server history
  rw [Truthful, needed, uncounted_iff]
  -- both sides of the union count the same
  have either : (tables.counted - tables.raw).card + tables.raw.length =
      (tables.raw - tables.counted : Multiset SpanRow).card + tables.counted.card := by
    rw [← Multiset.coe_card, ← Multiset.card_add, ← Multiset.card_add, ← Multiset.union_def,
      ← Multiset.union_def, Multiset.union_comm]
  by_cases covered : (tables.raw : Multiset SpanRow) ≤ tables.counted
  · have most := Multiset.card_le_card covered
    rw [Multiset.coe_card] at most
    simp only [covered, not_true, iff_false, not_lt, true_or, iff_true]
    exact most
  · simp only [covered, not_false_iff, iff_true, false_or]
    change tables.counted.card < tables.raw.length ↔ _
    omega

/-- Two spans 47 hours apart, both older than the view. -/
def older : SpanRow := { ts := 0 }
def newer : SpanRow := { ts := 169200000 }

/-- The first hour is backfilled, and its span expires from raw: as many spans on either
side, and the other one is in no rollup. -/
def hourFilled : List Occurrence :=
  [.ingest ∅ [older, newer], .view true, .backfill Server.deployed ∅ 0 hour 1,
    .expireRaw ColdTier.rawTtl fun _ => true]

theorem status_misses_hole :
    let tables := after hourFilled
    (tables.status Server.deployed).needsBackfill = false ∧ newer ∈ tables.raw ∧
      tables.counted.count newer = 0 ∧ ¬ tables.Truthful Server.deployed := by
  intro tables
  have found : (tables.status Server.deployed).needsBackfill = false ∧ newer ∈ tables.raw ∧
      tables.counted.count newer = 0 := by
    decide +kernel
  obtain ⟨covered, present, uncounted⟩ := found
  refine ⟨covered, present, uncounted, fun truthful => ?_⟩
  have needed := truthful.mpr ⟨newer, present, uncounted ▸ List.count_pos_iff.mpr present⟩
  rw [covered] at needed
  contradiction

end Tables

end TelemetryEngine.Rollup
