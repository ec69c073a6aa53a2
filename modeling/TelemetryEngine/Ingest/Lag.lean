import Mathlib.Algebra.Order.BigOperators.Group.List
import Mathlib.Algebra.Order.Group.Int
import Mathlib.Data.Int.ConditionallyCompleteOrder
import Mathlib.Data.Int.Interval
import Mathlib.Data.List.AList
import Mathlib.Order.ConditionallyCompleteLattice.Basic

/-! `read_lag` of `ingest/lag.py`: committed offsets against high watermarks. The low
watermark is read with the high one and not used. A topic whose metadata is in error reads
like one without lag. -/
namespace TelemetryEngine.Ingest

structure KafkaError where
  code : Int
  deriving DecidableEq, Repr

/-- What the broker holds of a partition, and how far the consumer group has committed. -/
structure PartitionLog where
  id : Int
  low : Int
  high : Int
  committed : Option Int
  low_nonneg : 0 ≤ low
  low_le_high : low ≤ high
  committed_range : ∀ offset ∈ committed, 0 ≤ offset ∧ offset ≤ high

/-- The topic of the spans, with the error its metadata may carry. -/
structure SpansTopic where
  error : Option KafkaError
  partitions : List PartitionLog
  distinct : (partitions.map PartitionLog.id).Nodup

/-- The Kafka calls that fail. -/
structure Outages where
  listTopics : Option KafkaError := none
  groupOffsets : Option KafkaError := none
  watermarks : Int → Option KafkaError := fun _ => none

structure TopicPartition where
  partition : Int
  offset : Int

/-- The offset reported where none is committed. -/
def offsetInvalid : Int := -1001

/-- Consumer lag at a point in time. -/
structure LagSnapshot where
  totalLag : Int := 0
  perPartition : AList fun _ : Int => Int := ∅
  highWatermarks : AList fun _ : Int => Int := ∅

/-! ### The calls -/

def answer (outage : Option KafkaError) (result : R) : Except KafkaError R :=
  match outage with
  | some error => .error error
  | none => .ok result

def PartitionLog.topicPartition (log : PartitionLog) : TopicPartition :=
  ⟨log.id, log.committed.getD offsetInvalid⟩

/-- `list_consumer_group_offsets`, of all partitions of the topic. -/
def SpansTopic.groupOffsets (topic : SpansTopic) : List TopicPartition :=
  topic.partitions.map PartitionLog.topicPartition

/-- `get_watermark_offsets` -/
def SpansTopic.watermarks (topic : SpansTopic) (partition : Int) : Int × Int :=
  match topic.partitions.find? (·.id = partition) with
  | some log => (log.low, log.high)
  | none => (offsetInvalid, offsetInvalid)

/-! ### The reader -/

/-- One partition. No committed offset means that everything is outstanding. -/
def readPartition (outages : Outages) (topic : SpansTopic) (snapshot : LagSnapshot)
    (tp : TopicPartition) : Except KafkaError LagSnapshot := do
  let (_, high) ← answer (outages.watermarks tp.partition) (topic.watermarks tp.partition)
  let position := if 0 ≤ tp.offset then tp.offset else 0
  return { snapshot with
    perPartition := snapshot.perPartition.insert tp.partition (max 0 (high - position))
    highWatermarks := snapshot.highWatermarks.insert tp.partition high }

/-- `read_lag` -/
def readLag (topic : Option SpansTopic) (outages : Outages) : Except KafkaError LagSnapshot := do
  let topic ← answer outages.listTopics topic
  match topic with
  | none => return {}
  | some topic =>
    if topic.error.isSome then return {}
    else
      let committed ← answer outages.groupOffsets topic.groupOffsets
      let snapshot ← committed.foldlM (readPartition outages topic) {}
      return { snapshot with totalLag := (snapshot.perPartition.entries.map Sigma.snd).sum }

/-! ### Outstanding messages -/

namespace PartitionLog

def position (log : PartitionLog) : Int := log.committed.getD 0

/-- Offsets of the retained messages at or after the committed position. -/
noncomputable def outstanding (log : PartitionLog) : Finset Int :=
  (Finset.Ico log.low log.high).filter fun offset => ∀ commit ∈ log.committed, commit ≤ offset

def reported (log : PartitionLog) : Int := max 0 (log.high - log.position)

theorem outstanding_eq (log : PartitionLog) :
    log.outstanding = Finset.Ico (max log.low log.position) log.high := by
  ext offset
  rw [outstanding, position, Finset.mem_filter, Finset.mem_Ico, Finset.mem_Ico, max_le_iff]
  have low := log.low_nonneg
  cases log.committed with
  | none =>
    simp only [Option.not_mem_none, false_imp_iff, implies_true, and_true, Option.getD_none]
    omega
  | some commit =>
    simp only [Option.mem_some_iff, forall_eq', Option.getD_some]
    tauto

/-- Nothing that has expired is after the position. -/
theorem reported_iff (log : PartitionLog) :
    log.reported = log.outstanding.card ↔ log.low ≤ log.position := by
  have ends : log.position ≤ log.high := by
    rw [position]
    cases commit : log.committed with
    | none => exact log.low_nonneg.trans log.low_le_high
    | some offset => exact (log.committed_range offset commit).2
  have low := log.low_le_high
  rw [outstanding_eq, Int.card_Ico, reported]
  omega

theorem offset_position (log : PartitionLog) :
    (if 0 ≤ log.committed.getD offsetInvalid then log.committed.getD offsetInvalid else 0) =
      log.position := by
  rw [position]
  cases commit : log.committed with
  | none => rfl
  | some offset => exact if_pos (log.committed_range offset commit).1

end PartitionLog

section
variable {outages : Outages} {topic : SpansTopic} {snapshot : LagSnapshot} {log : PartitionLog}

theorem SpansTopic.watermarks_log (held : log ∈ topic.partitions) :
    topic.watermarks log.id = (log.low, log.high) := by
  obtain ⟨found, same⟩ : ∃ found, topic.partitions.find? (·.id = log.id) = some found :=
    Option.isSome_iff_exists.mp (List.find?_isSome.mpr ⟨log, held, by simp⟩)
  have named : found.id = log.id := by simpa using List.find?_some same
  obtain rfl := List.inj_on_of_nodup_map topic.distinct (List.mem_of_find?_eq_some same) held named
  rw [watermarks, same]

theorem readPartition_answered (held : log ∈ topic.partitions)
    (answered : outages.watermarks log.id = none) :
    readPartition outages topic snapshot log.topicPartition = .ok { snapshot with
      perPartition := snapshot.perPartition.insert log.id log.reported
      highWatermarks := snapshot.highWatermarks.insert log.id log.high } := by
  simp only [readPartition, PartitionLog.topicPartition, topic.watermarks_log held, answered, answer,
    PartitionLog.reported, ← log.offset_position]
  rfl

theorem readPartition_fails (fails : (outages.watermarks log.id).isSome) :
    ∃ error, readPartition outages topic snapshot log.topicPartition = .error error := by
  obtain ⟨error, here⟩ := Option.isSome_iff_exists.mp fails
  refine ⟨error, ?_⟩
  simp only [readPartition, PartitionLog.topicPartition, here, answer]
  rfl

/-- The snapshot reports these partitions and no others. -/
def LagSnapshot.Reports (snapshot : LagSnapshot) (logs : List PartitionLog) : Prop :=
  ∀ id lag, snapshot.perPartition.lookup id = some lag ↔
    ∃ log ∈ logs, log.id = id ∧ log.reported = lag

theorem LagSnapshot.Reports.insert {logs : List PartitionLog} (reports : snapshot.Reports logs)
    (fresh : log.id ∉ logs.map PartitionLog.id) :
    LagSnapshot.Reports { snapshot with
      perPartition := snapshot.perPartition.insert log.id log.reported
      highWatermarks := snapshot.highWatermarks.insert log.id log.high } (logs ++ [log]) := by
  intro id lag
  simp only [List.mem_append, List.mem_singleton]
  by_cases same : id = log.id
  · subst same
    rw [AList.lookup_insert]
    constructor
    · intro here
      exact ⟨log, .inr rfl, rfl, Option.some.inj here⟩
    · rintro ⟨other, earlier | rfl, named, lag⟩
      · exact absurd (named ▸ List.mem_map_of_mem earlier) fresh
      · rw [lag]
  · rw [AList.lookup_insert_ne same, reports]
    constructor
    · rintro ⟨other, earlier, found⟩
      exact ⟨other, .inl earlier, found⟩
    · rintro ⟨other, earlier | rfl, named, lag⟩
      · exact ⟨other, earlier, named, lag⟩
      · exact absurd named.symm same

/-- The loop reports every partition it comes to, unless a call fails. -/
theorem readPartitions_reports {done logs : List PartitionLog} (reports : snapshot.Reports done)
    (held : ∀ log ∈ logs, log ∈ topic.partitions)
    (distinct : ((done ++ logs).map PartitionLog.id).Nodup)
    (answered : ∀ log ∈ logs, outages.watermarks log.id = none) :
    ∃ later, (logs.map PartitionLog.topicPartition).foldlM (readPartition outages topic) snapshot =
      .ok later ∧ later.Reports (done ++ logs) := by
  induction logs generalizing done snapshot with
  | nil => exact ⟨snapshot, rfl, by rwa [List.append_nil]⟩
  | cons log rest ih =>
    have fresh : log.id ∉ done.map PartitionLog.id := by
      rw [List.map_append, List.map_cons, List.nodup_append] at distinct
      exact fun inside => distinct.2.2 _ inside _ List.mem_cons_self rfl
    rw [List.append_cons] at distinct ⊢
    obtain ⟨later, looped, reported⟩ := ih (reports.insert fresh)
      (fun other inside => held other (List.mem_cons_of_mem log inside)) distinct
      fun other inside => answered other (List.mem_cons_of_mem log inside)
    refine ⟨later, ?_, reported⟩
    rw [List.map_cons, List.foldlM_cons, readPartition_answered (held log List.mem_cons_self)
      (answered log List.mem_cons_self)]
    exact looped

theorem readPartitions_fails {logs : List PartitionLog} (held : ∀ log ∈ logs, log ∈ topic.partitions)
    (fails : ∃ log ∈ logs, (outages.watermarks log.id).isSome) :
    ∃ error, (logs.map PartitionLog.topicPartition).foldlM (readPartition outages topic) snapshot =
      .error error := by
  induction logs generalizing snapshot with
  | nil => simp at fails
  | cons log rest ih =>
    rw [List.map_cons, List.foldlM_cons]
    cases here : outages.watermarks log.id with
    | some error =>
      obtain ⟨error, failed⟩ := @readPartition_fails outages topic snapshot log (by simp [here])
      exact ⟨error, by rw [failed]; rfl⟩
    | none =>
      rw [readPartition_answered (held log List.mem_cons_self) here]
      refine ih (fun other inside => held other (List.mem_cons_of_mem log inside)) ?_
      obtain ⟨other, inside, fails⟩ := fails
      rcases List.mem_cons.mp inside with rfl | later
      · simp [here] at fails
      · exact ⟨other, later, fails⟩

end

/-- A broker state is read rightly: the reader raises, or it reports for every partition how
many messages are outstanding, and no lag only where none is. -/
def LagReported (topic : Option SpansTopic) (outages : Outages) : Prop :=
  ∀ snapshot, readLag topic outages = .ok snapshot → ∀ state ∈ topic,
    (∀ log ∈ state.partitions,
      snapshot.perPartition.lookup log.id = some (log.outstanding.card : Int)) ∧
    (snapshot.totalLag = 0 → ∀ log ∈ state.partitions, log.outstanding = ∅)

/-- A call that is made fails, or the topic has no partitions, or its metadata is not in error
and nothing has expired that the group has not read. -/
def LagReadable (topic : Option SpansTopic) (outages : Outages) : Prop :=
  outages.listTopics.isSome ∨ ∀ state ∈ topic, state.partitions = [] ∨
    state.error = none ∧ (outages.groupOffsets.isSome ∨
      (∃ log ∈ state.partitions, (outages.watermarks log.id).isSome) ∨
      ∀ log ∈ state.partitions, log.low ≤ log.position)

section
variable {outages : Outages} {topic : SpansTopic}

theorem readLag_unlisted (fails : outages.listTopics.isSome) (topic : Option SpansTopic) :
    ∃ error, readLag topic outages = .error error := by
  obtain ⟨error, here⟩ := Option.isSome_iff_exists.mp fails
  exact ⟨error, by simp only [readLag, here, answer]; rfl⟩

theorem readLag_errored (listed : outages.listTopics = none) (errored : topic.error.isSome) :
    readLag (some topic) outages = .ok {} := by
  simp only [readLag, listed, answer]
  exact if_pos errored

theorem readLag_ungrouped (listed : outages.listTopics = none) (clean : topic.error = none)
    (fails : outages.groupOffsets.isSome) :
    ∃ error, readLag (some topic) outages = .error error := by
  obtain ⟨error, here⟩ := Option.isSome_iff_exists.mp fails
  refine ⟨error, ?_⟩
  simp only [readLag, listed, answer, here]
  exact if_neg (by simp [clean])

theorem readLag_partitions (listed : outages.listTopics = none) (clean : topic.error = none)
    (grouped : outages.groupOffsets = none) : readLag (some topic) outages =
      (topic.groupOffsets.foldlM (readPartition outages topic) {}).map fun snapshot =>
        { snapshot with totalLag := (snapshot.perPartition.entries.map Sigma.snd).sum } := by
  simp only [readLag, listed, answer, grouped, bind, Except.bind]
  rw [if_neg (by simp [clean])]
  cases topic.groupOffsets.foldlM (readPartition outages topic) {} <;> rfl

/-- Where no call fails, every partition is reported and the total is zero only where each
is. -/
theorem readLag_reports (listed : outages.listTopics = none) (clean : topic.error = none)
    (grouped : outages.groupOffsets = none)
    (answered : ∀ log ∈ topic.partitions, outages.watermarks log.id = none) :
    ∃ snapshot, readLag (some topic) outages = .ok snapshot ∧
      snapshot.Reports topic.partitions ∧
      (snapshot.totalLag = 0 → ∀ log ∈ topic.partitions, log.reported = 0) := by
  have none_yet : LagSnapshot.Reports {} [] := fun id lag => by simp
  obtain ⟨later, looped, reports⟩ := readPartitions_reports none_yet (fun _ held => held)
    topic.distinct answered
  rw [List.nil_append] at reports
  refine ⟨{ later with totalLag := (later.perPartition.entries.map Sigma.snd).sum }, ?_, reports, ?_⟩
  · rw [readLag_partitions listed clean grouped, SpansTopic.groupOffsets, looped]
    rfl
  · intro total log held
    have nonneg : ∀ entry ∈ later.perPartition.entries.map Sigma.snd, (0 : Int) ≤ entry := by
      intro lag member
      obtain ⟨⟨id, lag⟩, inside, rfl⟩ := List.mem_map.mp member
      obtain ⟨other, _, _, rfl⟩ := (reports id lag).mp (AList.mem_lookup_iff.mpr inside)
      exact le_max_left _ _
    have here : (⟨log.id, log.reported⟩ : Sigma fun _ : Int => Int) ∈ later.perPartition.entries :=
      AList.mem_lookup_iff.mp ((reports log.id log.reported).mpr ⟨log, held, rfl, rfl⟩)
    have below := List.single_le_sum nonneg _ (List.mem_map_of_mem here)
    exact le_antisymm (below.trans total.le) (le_max_left _ _)

theorem LagReported.of_error {topic : Option SpansTopic} {error : KafkaError}
    (raises : readLag topic outages = .error error) : LagReported topic outages := by
  intro snapshot read
  rw [raises] at read
  contradiction

/-- The empty snapshot reports no partition at all. -/
theorem lagReported_errored_iff (listed : outages.listTopics = none)
    (errored : topic.error.isSome) :
    LagReported (some topic) outages ↔ topic.partitions = [] := by
  have read := readLag_errored listed errored
  constructor
  · intro reported
    obtain ⟨each, _⟩ := reported {} read topic rfl
    refine List.eq_nil_iff_forall_not_mem.mpr fun log held => ?_
    simpa using each log held
  · rintro empty snapshot _ state ⟨⟩
    simp [empty]

/-- Where every call is answered, each partition has to be reported rightly. -/
theorem lagReported_answered_iff (listed : outages.listTopics = none) (clean : topic.error = none)
    (grouped : outages.groupOffsets = none)
    (answered : ∀ log ∈ topic.partitions, outages.watermarks log.id = none) :
    LagReported (some topic) outages ↔ ∀ log ∈ topic.partitions, log.low ≤ log.position := by
  obtain ⟨snapshot, read, reports, total⟩ := readLag_reports listed clean grouped answered
  constructor
  · intro reported log held
    obtain ⟨each, _⟩ := reported snapshot read topic rfl
    have here := (reports log.id log.reported).mpr ⟨log, held, rfl, rfl⟩
    exact log.reported_iff.mp (Option.some.inj (here.symm.trans (each log held)))
  · rintro unexpired other read' state ⟨⟩
    obtain rfl := Except.ok.inj (read.symm.trans read')
    have right : ∀ log ∈ topic.partitions, log.reported = log.outstanding.card :=
      fun log held => log.reported_iff.mpr (unexpired log held)
    refine ⟨fun log held => (reports log.id _).mpr ⟨log, held, rfl, right log held⟩, ?_⟩
    intro none_left log held
    have zero := total none_left log held
    rw [right log held] at zero
    exact Finset.card_eq_zero.mp (by exact_mod_cast zero)

theorem lagReported_clean_iff (listed : outages.listTopics = none) (clean : topic.error = none) :
    LagReported (some topic) outages ↔ outages.groupOffsets.isSome ∨
      (∃ log ∈ topic.partitions, (outages.watermarks log.id).isSome) ∨
      ∀ log ∈ topic.partitions, log.low ≤ log.position := by
  cases grouped : outages.groupOffsets with
  | some error =>
    obtain ⟨error, raises⟩ := @readLag_ungrouped outages topic listed clean (by simp [grouped])
    exact iff_of_true (.of_error raises) (by simp)
  | none =>
    by_cases fails : ∃ log ∈ topic.partitions, (outages.watermarks log.id).isSome
    · obtain ⟨error, looped⟩ := @readPartitions_fails outages topic {} _ (fun _ held => held) fails
      have raises : readLag (some topic) outages = .error error := by
        rw [readLag_partitions listed clean grouped, SpansTopic.groupOffsets, looped]
        rfl
      exact iff_of_true (.of_error raises) (.inr (.inl fails))
    · have answered : ∀ log ∈ topic.partitions, outages.watermarks log.id = none := by
        simpa using fails
      rw [lagReported_answered_iff listed clean grouped answered]
      simp [fails]

end

/-- The lag is read rightly of a broker state exactly where a call that is made fails, there is
no partition to report, or no message has expired that the group has not come to and the
metadata of the topic is not in error. -/
theorem lag_reported_iff (topic : Option SpansTopic) (outages : Outages) :
    LagReported topic outages ↔ LagReadable topic outages := by
  cases listed : outages.listTopics with
  | some error =>
    obtain ⟨error, raises⟩ := @readLag_unlisted outages (by simp [listed]) topic
    exact iff_of_true (.of_error raises) (.inl (by simp [listed]))
  | none =>
    cases topic with
    | none => exact iff_of_true (fun snapshot read state held => by simp at held) (.inr (by simp))
    | some topic =>
      cases errored : topic.error with
      | some error =>
        rw [lagReported_errored_iff listed (by simp [errored])]
        simp [LagReadable, listed, errored]
      | none =>
        rw [lagReported_clean_iff listed errored]
        have vacuous : topic.partitions = [] → ∀ log ∈ topic.partitions, log.low ≤ log.position :=
          fun empty => by simp [empty]
        simp only [LagReadable, listed, errored, Option.isSome_none, Bool.false_eq_true, false_or,
          Option.mem_some_iff, forall_eq', true_and]
        exact (or_iff_right_of_imp fun empty => .inr (.inr (vacuous empty))).symm

/-- A partition of 1,000 messages of which half have expired, and none has been read. -/
def expiring : PartitionLog where
  id := 0
  low := 500
  high := 1000
  committed := none
  low_nonneg := by decide
  low_le_high := by decide
  committed_range := by simp

/-- Five hundred messages are outstanding. With an error of the metadata none is reported, and
without one a thousand. -/
theorem lag_misreported :
    let errored : SpansTopic := ⟨some ⟨5⟩, [expiring], List.nodup_singleton _⟩
    let clean : SpansTopic := ⟨none, [expiring], List.nodup_singleton _⟩
    expiring.outstanding.card = 500 ∧ ¬ LagReported (some errored) {} ∧
      (readLag (some errored) {}).map LagSnapshot.totalLag = .ok 0 ∧
      ¬ LagReported (some clean) {} ∧
      (readLag (some clean) {}).map LagSnapshot.totalLag = .ok 1000 := by
  refine ⟨?_, ?_, rfl, ?_, rfl⟩
  · rw [PartitionLog.outstanding_eq, Int.card_Ico]
    rfl
  · rw [lagReported_errored_iff rfl rfl]
    simp
  · rw [lagReported_answered_iff rfl rfl rfl (by simp)]
    simp [expiring, PartitionLog.position]

end TelemetryEngine.Ingest
