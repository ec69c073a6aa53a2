import TelemetryEngine.Experiments.Restarts
import TelemetryEngine.Foundation.Differences
import TelemetryEngine.Foundation.FloatText
import TelemetryEngine.Ingest.Lag

/-! The sampler of `ingest/lag.py`: `record` and the loop of `monitor`, over a collector that
counts and restarts in between. -/
namespace TelemetryEngine.Ingest
open Experiments Foundation.Counters Foundation.FloatText

namespace LagSnapshot

/-- `max(…, default=0)` -/
def maxPartitionLag (snapshot : LagSnapshot) : Int :=
  (snapshot.perPartition.entries.map Sigma.snd).max?.getD 0

def partitions (snapshot : LagSnapshot) : ℕ := snapshot.perPartition.entries.length

end LagSnapshot

structure HealthRow where
  sampledAt : Int
  totalLag : Int
  maxPartitionLag : Int
  partitions : ℕ
  acceptedSpans : Int
  refusedSpans : Int
  sentSpans : Int
  sendFailedSpans : Int
  enqueueFailedSpans : Int
  queueSize : Int
  queueCapacity : Int
  deriving DecidableEq, Repr

inductive Scrape where
  | answered
  | unreachable
  /-- A counter is no number. -/
  | raises (error : IntError)
  deriving DecidableEq, Repr

/-- How an insert ends. One that raises may have written its row. -/
inductive Insertion where
  | done
  | raises (written : Bool)
  deriving DecidableEq, Repr

inductive RecordError where
  | lag (error : KafkaError)
  | collector (error : IntError)
  | insert

/-- What one turn of the sampler meets. -/
structure Turn where
  /-- `time.monotonic()` at the head of the loop. -/
  clock : ℚ
  topic : Option SpansTopic
  outages : Outages := {}
  scraped : Scrape := .answered
  queueSize : ℕ := 0
  queueCapacity : ℕ := 0
  insertion : Insertion := .done
  /-- `now()` of the insert. -/
  now : Int

/-- `read_collector`, against counters that stand so. -/
def Turn.scrape (turn : Turn) (counters : Counters) : Except IntError (Option CollectorSnapshot) :=
  match turn.scraped with
  | .answered => .ok (some { Experiments.readCollector counters with
      queueSize := turn.queueSize
      queueCapacity := turn.queueCapacity })
  | .unreachable => .ok none
  | .raises error => .error error

/-- `conn.insert`: the row that is written, if any, and what is raised. -/
def Insertion.insert (row : HealthRow) : Insertion → Option HealthRow × Option RecordError
  | done => (some row, none)
  | raises written => (if written then some row else none, some .insert)

/-- The row `record` writes, if any, and what it raises. -/
def record (turn : Turn) (counters : Counters) : Option HealthRow × Option RecordError :=
  match readLag turn.topic turn.outages with
  | .error error => (none, some (.lag error))
  | .ok lag =>
    match turn.scrape counters with
    | .error error => (none, some (.collector error))
    | .ok none => (none, none)
    | .ok (some collector) => turn.insertion.insert {
        sampledAt := turn.now
        totalLag := lag.totalLag
        maxPartitionLag := lag.maxPartitionLag
        partitions := lag.partitions
        acceptedSpans := collector.acceptedSpans
        refusedSpans := collector.refusedSpans
        sentSpans := collector.sentSpans
        sendFailedSpans := collector.sendFailedSpans
        enqueueFailedSpans := collector.enqueueFailedSpans
        queueSize := collector.queueSize
        queueCapacity := collector.queueCapacity }

/-- `monitor`, until the turns given are over: the rows it writes, and what it raises. -/
def monitor (durationS : Option ℚ) (started : ℚ) :
    List (Turn × Counters) → List HealthRow × Option RecordError
  | [] => ([], none)
  | (turn, counters) :: rest =>
    if ∀ duration ∈ durationS, turn.clock - started < duration then
      match record turn counters with
      | (row, some error) => (row.toList, some error)
      | (row, none) =>
        let later := monitor durationS started rest
        (row.toList ++ later.1, later.2)
    else ([], none)

/-! ### What a row says of the broker -/

/-- The partitions that a reading gets to see. -/
def visible : Option SpansTopic → List PartitionLog
  | some topic => if topic.error.isSome then [] else topic.partitions
  | none => []

section
variable {outages : Outages} {topic : SpansTopic} {snapshot later : LagSnapshot}

theorem readPartitions_entries {logs : List PartitionLog}
    (held : ∀ log ∈ logs, log ∈ topic.partitions) (distinct : (logs.map PartitionLog.id).Nodup)
    (fresh : ∀ log ∈ logs, log.id ∉ snapshot.perPartition)
    (looped : (logs.map PartitionLog.topicPartition).foldlM (readPartition outages topic) snapshot =
      .ok later) :
    (later.perPartition.entries.map Sigma.snd).Perm
      (logs.map PartitionLog.reported ++ snapshot.perPartition.entries.map Sigma.snd) := by
  induction logs generalizing snapshot with
  | nil =>
    obtain rfl := Except.ok.inj looped
    rfl
  | cons log rest ih =>
    rw [List.map_cons, List.foldlM_cons] at looped
    rw [List.map_cons, List.nodup_cons] at distinct
    cases here : outages.watermarks log.id with
    | some error =>
      obtain ⟨error, failed⟩ := @readPartition_fails outages topic snapshot log (by simp [here])
      rw [failed] at looped
      contradiction
    | none =>
      rw [readPartition_answered (held log List.mem_cons_self) here] at looped
      have new := fresh log List.mem_cons_self
      refine (ih (fun other inside => held other (List.mem_cons_of_mem _ inside)) distinct.2
        (fun other inside => ?_) looped).trans ?_
      · rw [AList.mem_insert, not_or]
        refine ⟨fun same => distinct.1 (same ▸ List.mem_map_of_mem inside), ?_⟩
        exact fresh other (List.mem_cons_of_mem _ inside)
      · rw [AList.entries_insert_of_notMem new]
        exact List.perm_middle

/-- A reading that succeeds has the lag of every partition it could see. -/
theorem readLag_entries {topic : Option SpansTopic}
    (read : readLag topic outages = .ok snapshot) :
    (snapshot.perPartition.entries.map Sigma.snd).Perm ((visible topic).map PartitionLog.reported) ∧
      snapshot.totalLag = (snapshot.perPartition.entries.map Sigma.snd).sum := by
  cases listed : outages.listTopics with
  | some error =>
    obtain ⟨error, raises⟩ := @readLag_unlisted outages (by simp [listed]) topic
    rw [raises] at read
    contradiction
  | none =>
    cases topic with
    | none =>
      simp only [readLag, listed, answer] at read
      obtain rfl : {} = snapshot := Except.ok.inj read
      exact ⟨.refl _, rfl⟩
    | some topic =>
      cases errored : topic.error with
      | some error =>
        rw [readLag_errored listed (by simp [errored])] at read
        obtain rfl := Except.ok.inj read
        simp only [visible, errored, Option.isSome_some, if_true]
        exact ⟨.refl _, rfl⟩
      | none =>
        cases grouped : outages.groupOffsets with
        | some error =>
          obtain ⟨error, raises⟩ := @readLag_ungrouped outages topic listed errored
            (by simp [grouped])
          rw [raises] at read
          contradiction
        | none =>
          rw [readLag_partitions listed errored grouped] at read
          cases looped : topic.groupOffsets.foldlM (readPartition outages topic) {} with
          | error error => simp [looped, Except.map] at read
          | ok later =>
            rw [looped] at read
            obtain rfl := Except.ok.inj read
            have entries := readPartitions_entries (fun _ held => held) topic.distinct
              (fun log _ => AList.notMem_empty log.id) looped
            refine ⟨?_, rfl⟩
            simpa [visible, errored] using entries

end

/-- What the numbers of a snapshot have to do with each other. -/
theorem lag_bounds {lags : List Int} (nonneg : ∀ lag ∈ lags, 0 ≤ lag) :
    0 ≤ lags.max?.getD 0 ∧ lags.max?.getD 0 ≤ lags.sum ∧
      lags.sum ≤ lags.length * lags.max?.getD 0 := by
  cases worst : lags.max? with
  | none =>
    obtain rfl := List.max?_eq_none_iff.mp worst
    simp
  | some most =>
    obtain ⟨member, above⟩ := List.max?_eq_some_iff.mp worst
    refine ⟨nonneg most member, List.single_le_sum nonneg most member, ?_⟩
    have bound := List.sum_le_card_nsmul lags most above
    rwa [nsmul_eq_mul] at bound

/-- The scrape is answered, and the insert takes effect. -/
def Turn.writes (turn : Turn) : Bool :=
  turn.scraped = .answered && turn.insertion ≠ .raises false

/-- A row of the table, and the turn it comes from. -/
structure Records (durationS : Option ℚ) (started : ℚ) (turn : Turn) (counters : Counters)
    (row : HealthRow) : Prop where
  written : turn.writes = true
  within : ∀ duration ∈ durationS, turn.clock - started < duration
  sampledAt : row.sampledAt = turn.now
  totalLag : row.totalLag = ((visible turn.topic).map PartitionLog.reported).sum
  partitions : row.partitions = (visible turn.topic).length
  worst_nonneg : 0 ≤ row.maxPartitionLag
  worst_le_total : row.maxPartitionLag ≤ row.totalLag
  total_le : row.totalLag ≤ row.partitions * row.maxPartitionLag
  accepted : row.acceptedSpans = accepted counters
  sent : row.sentSpans = sent counters
  dropped : row.sendFailedSpans + row.enqueueFailedSpans = dropped counters

/-- One row for each of the turns, in their order. -/
abbrev Recorded (durationS : Option ℚ) (started : ℚ) :
    List (Turn × Counters) → List HealthRow → Prop :=
  List.Forall₂ fun met row => Records durationS started met.1 met.2 row

theorem Recorded.row {durationS : Option ℚ} {started : ℚ} {turns : List (Turn × Counters)}
    {rows : List HealthRow} (records : Recorded durationS started turns rows) {row : HealthRow}
    (member : row ∈ rows) : ∃ turn counters, Records durationS started turn counters row := by
  induction records with
  | nil => exact absurd member List.not_mem_nil
  | cons here _ ih =>
    rcases List.mem_cons.mp member with rfl | member
    · exact ⟨_, _, here⟩
    · exact ih member

theorem Insertion.insert_some {row written : HealthRow} {insertion : Insertion}
    {raised : Option RecordError} (made : insertion.insert row = (some written, raised)) :
    insertion ≠ .raises false ∧ written = row := by
  cases insertion with
  | done =>
    obtain ⟨same, -⟩ := Prod.mk.inj made
    exact ⟨by simp, (Option.some.inj same).symm⟩
  | raises kept => cases kept <;> simp_all [Insertion.insert]

theorem record_some {durationS : Option ℚ} {started : ℚ} {turn : Turn} {counters : Counters}
    {row : HealthRow} {raised : Option RecordError} (made : record turn counters = (some row, raised))
    (within : ∀ duration ∈ durationS, turn.clock - started < duration) :
    Records durationS started turn counters row := by
  unfold record at made
  cases read : readLag turn.topic turn.outages with
  | error error => simp [read] at made
  | ok lag =>
    obtain ⟨entries, total⟩ := readLag_entries read
    have nonneg : ∀ each ∈ lag.perPartition.entries.map Sigma.snd, 0 ≤ each := by
      intro each member
      obtain ⟨log, _, rfl⟩ := List.mem_map.mp (entries.mem_iff.mp member)
      exact le_max_left _ _
    obtain ⟨low, below, above⟩ := lag_bounds nonneg
    cases scraped : turn.scraped with
    | unreachable => simp [read, Turn.scrape, scraped] at made
    | raises error => simp [read, Turn.scrape, scraped] at made
    | answered =>
      simp only [read, Turn.scrape, scraped] at made
      obtain ⟨written, rfl⟩ := Insertion.insert_some made
      rw [← total] at below above
      exact {
        written := by simp [Turn.writes, scraped, written]
        within := within
        sampledAt := rfl
        totalLag := total.trans entries.sum_eq
        partitions := by
          simpa [LagSnapshot.partitions] using entries.length_eq
        worst_nonneg := low
        worst_le_total := below
        total_le := by
          rw [List.length_map] at above
          exact above
        accepted := rfl
        sent := rfl
        dropped := by
          simp only [dropped, AddMonoidHom.add_apply, Nat.cast_add]
          rfl }

/-- What raises an error in a turn. -/
def Turn.Raises (turn : Turn) : RecordError → Prop
  | .lag error => readLag turn.topic turn.outages = .error error
  | .collector error => turn.scraped = .raises error
  | .insert => ∃ written, turn.insertion = .raises written

theorem record_raises {turn : Turn} {counters : Counters} {row : Option HealthRow}
    {error : RecordError} (made : record turn counters = (row, some error)) :
    turn.Raises error ∧ (row.isSome → error = .insert) := by
  unfold record at made
  cases read : readLag turn.topic turn.outages with
  | error failure =>
    simp only [read, Prod.mk.injEq, Option.some.injEq] at made
    obtain ⟨rfl, rfl⟩ := made
    exact ⟨read, fun some => by contradiction⟩
  | ok lag =>
    cases scraped : turn.scraped with
    | unreachable => simp [read, Turn.scrape, scraped] at made
    | raises failure =>
      simp only [read, Turn.scrape, scraped, Prod.mk.injEq, Option.some.injEq] at made
      obtain ⟨rfl, rfl⟩ := made
      exact ⟨scraped, fun some => by contradiction⟩
    | answered =>
      simp only [read, Turn.scrape, scraped] at made
      cases inserted : turn.insertion with
      | done => simp [inserted, Insertion.insert] at made
      | raises written =>
        simp only [inserted, Insertion.insert, Prod.mk.injEq, Option.some.injEq] at made
        obtain ⟨-, rfl⟩ := made
        exact ⟨⟨written, inserted⟩, fun _ => rfl⟩

/-- A turn that passes without a row has no answer of the collector. -/
theorem record_none {turn : Turn} {counters : Counters} (made : record turn counters = (none, none)) :
    turn.writes = false := by
  unfold record at made
  cases read : readLag turn.topic turn.outages with
  | error error => simp [read] at made
  | ok lag =>
    cases scraped : turn.scraped with
    | unreachable => simp [Turn.writes, scraped]
    | raises error => simp [Turn.writes, scraped]
    | answered => cases inserted : turn.insertion <;>
        simp [read, Turn.scrape, scraped, inserted, Insertion.insert] at made

/-- Why the sampler stops after some turns and before others: these are over, or the next comes
too late, or `record` raises. A row that its last turn wrote before it raised is counted. -/
def Stops (durationS : Option ℚ) (started : ℚ) (ran rest : List (Turn × Counters)) :
    Option RecordError → Prop
  | none => ∀ next ∈ rest.head?, ∃ duration ∈ durationS, duration ≤ next.1.clock - started
  | some error => (∃ next ∈ rest.head?, next.1.Raises error) ∨
      ∃ last ∈ ran.getLast?, error = .insert ∧ last.1.Raises error

theorem Stops.cons {durationS : Option ℚ} {started : ℚ} {ran rest : List (Turn × Counters)}
    {raised : Option RecordError} (stops : Stops durationS started ran rest raised)
    {met : Turn × Counters} : Stops durationS started (met :: ran) rest raised := by
  cases raised with
  | none => exact stops
  | some error =>
    refine stops.imp id fun ⟨last, final, raises⟩ => ⟨last, ?_, raises⟩
    cases ran with
    | nil => contradiction
    | cons => rwa [List.getLast?_cons_cons]

/-- The loop makes a row of every turn up to where it stops whose scrape is answered. -/
theorem monitor_ran (durationS : Option ℚ) (started : ℚ) (turns : List (Turn × Counters)) :
    ∃ ran rest, turns = ran ++ rest ∧
      Recorded durationS started (ran.filter fun met => met.1.writes)
        (monitor durationS started turns).1 ∧
      Stops durationS started ran rest (monitor durationS started turns).2 := by
  induction turns with
  | nil => exact ⟨[], [], rfl, .nil, by simp [monitor, Stops]⟩
  | cons met rest ih =>
    obtain ⟨turn, counters⟩ := met
    unfold monitor
    by_cases within : ∀ duration ∈ durationS, turn.clock - started < duration
    · rw [if_pos within]
      cases made : record turn counters with
      | mk row raised =>
        cases raised with
        | some error =>
          obtain ⟨raises, inserted⟩ := record_raises made
          cases row with
          | none => exact ⟨[], _, rfl, .nil, .inl ⟨_, rfl, raises⟩⟩
          | some row =>
            have here := record_some made within
            refine ⟨[(turn, counters)], rest, rfl, ?_, .inr ⟨_, rfl, inserted rfl, raises⟩⟩
            rw [List.filter_cons, if_pos here.written]
            exact .cons here .nil
        | none =>
          obtain ⟨ran, rest, rfl, records, stops⟩ := ih
          refine ⟨(turn, counters) :: ran, rest, rfl, ?_, stops.cons⟩
          cases row with
          | none =>
            rw [List.filter_cons, if_neg (by simp [record_none made])]
            exact records
          | some row =>
            have here := record_some made within
            rw [List.filter_cons, if_pos here.written]
            exact .cons here records
    · rw [if_neg within]
      push Not at within
      exact ⟨[], _, rfl, .nil, fun next first => by
        obtain rfl := Option.some.inj first
        exact within⟩

end TelemetryEngine.Ingest
