import TelemetryEngine.Rollup.Totals

/-! The view `mv_spans_1h` and the table `spans_1h` it writes. It merges the states
of each block of `spans_1m`, so the hours are the minutes regrouped. -/
namespace TelemetryEngine.Rollup
open Foundation Foundation.Calendar Foundation.MergingTable

structure HourKey where
  tsHour : Int
  tenantId : String
  tenantTier : String
  model : String
  operation : String
  route : String
  region : String
  statusClass : String
  deriving DecidableEq, Repr

def hourKey (key : RollupKey) : HourKey where
  tsHour := floorHour key.tsMinute
  tenantId := key.tenantId
  tenantTier := key.tenantTier
  model := key.model
  operation := key.operation
  route := key.route
  region := key.region
  statusClass := key.statusClass

/-- The columns that the `-MergeState` of each column merges. -/
def hourState (state : RollupState) : RollupState where
  spans := state.spans
  traces := state.traces
  inputTokens := state.inputTokens
  outputTokens := state.outputTokens
  cachedTokens := state.cachedTokens
  ttft := state.ttft
  duration := state.duration
  itlAvg := state.itlAvg
  queueTimeAvg := state.queueTimeAvg
  kvCacheAvg := state.kvCacheAvg
  kvCacheMax := state.kvCacheMax
  errors := state.errors

abbrev Spans1h := Table HourKey RollupState

/-- The rows the view writes for a block of `spans_1m`. -/
def mvSpans1h (block : Spans1m) : Spans1h :=
  group (fun entry => hourKey entry.1) (fun entry => hourState entry.2) block

/-- An insert into `spans_1m`: its keys lie on whole minutes. -/
structure MinuteBlock where
  entries : Spans1m
  whole : ∀ entry ∈ entries, entry.1.tsMinute % minute = 0

/-- What the minute view writes is such an insert, and so is a chunk of a backfill. -/
def Block.minutes (block : Block) : MinuteBlock where
  entries := block.write
  whole entry member := by
    have listed := List.mem_map_of_mem (f := Prod.fst) member
    obtain ⟨row, _, same⟩ := List.mem_map.mp ((keys_group _ _ block.rows entry.1).mp listed)
    rw [← same]
    exact floorTo_emod

/-- The same dimensions, `i` minutes into the hour. -/
def HourKey.minute (key : HourKey) (i : Nat) : RollupKey where
  tsMinute := key.tsHour + i * Calendar.minute
  tenantId := key.tenantId
  tenantTier := key.tenantTier
  model := key.model
  operation := key.operation
  route := key.route
  region := key.region
  statusClass := key.statusClass

/-- The sixty minutes of an hour. -/
def HourKey.minutes (key : HourKey) : List RollupKey := (List.range 60).map key.minute

theorem minutes_nodup (key : HourKey) : key.minutes.Nodup := by
  refine List.nodup_range.map fun i j same => ?_
  have shifted := congrArg RollupKey.tsMinute same
  simp only [HourKey.minute, minute] at shifted
  omega

/-- A whole minute belongs to the hour it is one of the sixty minutes of. -/
theorem hourKey_iff {key : HourKey} (whole : key.tsHour % hour = 0) {fine : RollupKey}
    (aligned : fine.tsMinute % minute = 0) : hourKey fine = key ↔ fine ∈ key.minutes := by
  simp only [HourKey.minutes, List.mem_map, List.mem_range]
  constructor
  · rintro rfl
    have positive := Int.emod_nonneg fine.tsMinute (show hour ≠ 0 by decide)
    have below := Int.emod_lt_of_pos fine.tsMinute (show 0 < hour by decide)
    refine ⟨((fine.tsMinute % hour) / minute).toNat, ?_, ?_⟩
    · simp only [hour, minute] at *
      omega
    · obtain ⟨m⟩ := fine
      simp only [HourKey.minute, hourKey, floorHour, floorTo, RollupKey.mk.injEq, and_true]
      simp only [hour, minute] at *
      omega
  · rintro ⟨i, inside, rfl⟩
    obtain ⟨h⟩ := key
    simp only [hourKey, HourKey.minute, floorHour, floorTo, HourKey.mk.injEq, and_true]
    simp only [hour, minute] at *
    omega

/-- Whatever the blocks and the merges were, the state of an hour is the merge of the
states of its sixty minutes. -/
theorem hour_merges_minutes {blocks : List MinuteBlock} {minutes : Spans1m} {hours : Spans1h}
    (held : Holds MinuteBlock.entries blocks minutes)
    (rolled : Holds (fun block => mvSpans1h block.entries) blocks hours) {key : HourKey}
    (whole : key.tsHour % hour = 0) :
    total (· = key) hours = ((List.range 60).map fun i => total (· = key.minute i) minutes).sum := by
  have aligned : ∀ entry ∈ minutes, entry.1.tsMinute % minute = 0 := by
    intro entry member
    obtain ⟨block, _, listed⟩ := (holds_keys held entry.1).mp (List.mem_map_of_mem member)
    obtain ⟨written, found, same⟩ := List.mem_map.mp listed
    exact same ▸ block.whole written found
  calc total (· = key) hours
      = total (fun fine => decide (hourKey fine = key)) minutes := holds_regroup held rolled _
    _ = total (fun fine => decide (fine ∈ key.minutes)) minutes :=
        total_congr fun entry member => decide_eq_decide.mpr (hourKey_iff whole (aligned entry member))
    _ = (key.minutes.map fun fine => total (· = fine) minutes).sum :=
        total_among (minutes_nodup key) minutes
    _ = ((List.range 60).map fun i => total (· = key.minute i) minutes).sum := by
        rw [HourKey.minutes, List.map_map]
        rfl

def minuteApart : List MinuteBlock :=
  [Block.minutes ⟨∅, [{ ts := 0 }]⟩, Block.minutes ⟨∅, [{ ts := 60000 }]⟩]

/-- What a span without dimensions is rolled up under, in the first hour. -/
def firstHour : HourKey where
  tsHour := 0
  tenantId := "__none__"
  tenantTier := "__none__"
  model := "__none__"
  operation := "__none__"
  route := "__none__"
  region := "__none__"
  statusClass := "__none__"

theorem hour_merges_minutes_apart :
    total (· = firstHour) (minuteApart.flatMap fun block => mvSpans1h block.entries) =
      ((List.range 60).map fun i =>
        total (· = firstHour.minute i) (minuteApart.flatMap MinuteBlock.entries)).sum :=
  hour_merges_minutes (holds_append .empty minuteApart) (holds_append .empty minuteApart) rfl

end TelemetryEngine.Rollup
