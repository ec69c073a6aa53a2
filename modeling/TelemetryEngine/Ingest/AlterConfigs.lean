import TelemetryEngine.Ingest.Topics

/-! `reconcile` against a broker that takes AlterConfigs as Kafka does: the given keys
become all overrides of the topic, and any other key goes back to the broker's default. An
update of one key that drifted drops the overrides that the spec does not name. -/
namespace TelemetryEngine.Ingest
open Foundation

/-- The value of a key: the topic's override, or the broker's default. -/
def Topic.effective (defaults : String → Option String) (topic : Topic) (key : String) :
    Option String :=
  (topic.config key).or (defaults key)

def Config.overrides (config : Config) (key : String) : Option String := config.lookup key

def Broker.performKafka (broker : Broker) : Write → Except AdminError Broker
  | .alterConfigs name config =>
    match broker name with
    | none => .error (.unknownTopic name)
    | some topic =>
      .ok (Function.update broker name (some { topic with config := Config.overrides config }))
  | request => broker.perform request

/-- Overrides and defaults are described together. -/
def Broker.describeKafka (defaults : String → Option String) (broker : Broker) (name : String) :
    Except AdminError (String → Option String) :=
  match broker name with
  | none => .error (.unknownTopic name)
  | some topic => .ok (topic.effective defaults)

theorem Broker.performKafka_other {broker later : Broker} {request : Write} {name : String}
    (done : broker.performKafka request = .ok later) (other : name ≠ request.topic) :
    later name = broker name := by
  cases request with
  | createTopics topic partitions replicationFactor config =>
    have plain : broker.perform (.createTopics topic partitions replicationFactor config) =
      .ok later := done
    exact Broker.perform_other plain other
  | createPartitions topic total =>
    have plain : broker.perform (.createPartitions topic total) = .ok later := done
    exact Broker.perform_other plain other
  | alterConfigs topic =>
    cases held : broker topic <;> simp only [Broker.performKafka, held] at done <;> cases done
    exact Function.update_of_ne other _ _

def AdminClient.kafka (defaults : String → Option String) : AdminClient where
  describeConfigs := Broker.describeKafka defaults
  perform := Broker.performKafka
  describe_other done other := by
    rw [Broker.describeKafka, Broker.describeKafka, Broker.performKafka_other done other]
  describe_grown := by
    intro broker later name total done
    obtain ⟨topic, held, rfl⟩ := Broker.createPartitions_ok done
    simp [Broker.describeKafka, held]
    rfl

/-! ### What an entry does -/

/-- A topic that is there after an entry for it. -/
def Topic.revise (defaults : String → Option String) (topic : Topic) (spec : TopicSpec) : Topic where
  partitions := max topic.partitions spec.partitions
  config := if (Admin.drift spec (topic.effective defaults)).isEmpty then topic.config
    else Config.overrides spec.config

theorem Topic.revise_of_same {defaults : String → Option String} {topic : Topic} {spec : TopicSpec}
    (same : (Admin.drift spec (topic.effective defaults)).isEmpty) :
    (topic.revise defaults spec).config = topic.config := if_pos same

theorem Topic.revise_of_drift {defaults : String → Option String} {topic : Topic} {spec : TopicSpec}
    (drifts : ¬ (Admin.drift spec (topic.effective defaults)).isEmpty) :
    (topic.revise defaults spec).config = Config.overrides spec.config := if_neg drifts

def Broker.revise (defaults : String → Option String) (broker : Broker) (spec : TopicSpec) : Broker :=
  Function.update broker spec.name <| some <|
    match broker spec.name with
    | none => ⟨spec.partitions, Config.overrides spec.config⟩
    | some topic => topic.revise defaults spec

namespace AdminClient
variable {defaults : String → Option String} {admin : Admin} {spec : TopicSpec} {topic : Topic}

theorem kafka_updateConfig (defaults : String → Option String)
    (held : admin.broker spec.name = some topic) :
    ∃ altered updated, (kafka defaults).updateConfig admin false spec = .ok (altered, updated) ∧
      altered.broker = Function.update admin.broker spec.name
        (some { topic with config := (topic.revise defaults spec).config }) := by
  have read : (kafka defaults).describeConfigs admin.broker spec.name =
      .ok (topic.effective defaults) := by
    simp [kafka, Broker.describeKafka, held]
  have done : (kafka defaults).perform admin.broker (.alterConfigs spec.name spec.config) =
      .ok (Function.update admin.broker spec.name
        (some { topic with config := Config.overrides spec.config })) := by
    simp [kafka, Broker.performKafka, held]
  obtain ⟨altered, updated, step, broker⟩ := updateConfig_ok read done
  refine ⟨altered, updated, step, ?_⟩
  rw [broker]
  split
  case isTrue same => rw [Topic.revise_of_same same, eq_comm, Function.update_eq_self_iff, held]
  case isFalse drifts => rw [Topic.revise_of_drift drifts]

/-- An entry revises its topic, as long as the snapshot has it as it is. -/
theorem kafka_reconcileTopic {broker : Broker} (current : admin.broker spec.name = broker spec.name) :
    ∃ later, (kafka defaults).reconcileTopic false (existingPartitionCounts broker) admin spec =
      .ok later ∧ later.broker = admin.broker.revise defaults spec := by
  cases held : broker spec.name with
  | none =>
    have absent : admin.broker spec.name = none := current.trans held
    simp only [reconcileTopic, existingPartitionCounts, held, Option.map_none]
    refine create_ok ?_
    simp only [kafka, Broker.performKafka, Broker.perform, absent, Broker.revise]
    rfl
  | some topic =>
    have present : admin.broker spec.name = some topic := current.trans held
    obtain ⟨wider, grown, grew, widened⟩ :=
      grow_ok (kafka defaults) (fun _ => rfl) present le_rfl id
    have there : wider.broker spec.name =
        some { topic with partitions := max topic.partitions spec.partitions } := by
      rw [widened, Function.update_self]
    obtain ⟨last, updated, altered, settled⟩ := kafka_updateConfig defaults there
    have revised : last.broker = admin.broker.revise defaults spec := by
      rw [settled, widened, Function.update_idem, Broker.revise, present]
      rfl
    simp only [reconcileTopic, existingPartitionCounts, held, Option.map_some, grew, altered, bind,
      Except.bind]
    split
    · exact ⟨_, rfl, revised⟩
    · exact ⟨_, rfl, revised⟩

end AdminClient

/-! ### Runs -/

section
variable {defaults : String → Option String} {broker : Broker} {specs : List TopicSpec}

theorem kafka_simulates (broker : Broker) :
    Simulates ((AdminClient.kafka defaults).reconcileTopic false (existingPartitionCounts broker))
      Admin.broker (Broker.revise defaults) (fun now spec => now spec.name = broker spec.name)
      (fun _ => True) where
  steps _ _ _ := AdminClient.kafka_reconcileTopic
  preserves _ _ _ := trivial

theorem Broker.revise_other (now : Broker) {spec : TopicSpec} {name : String}
    (other : name ≠ spec.name) : now.revise defaults spec name = now name :=
  Function.update_of_ne other _ _

theorem Broker.revise_congr {now : Broker} {spec : TopicSpec}
    (same : now spec.name = broker spec.name) :
    now.revise defaults spec spec.name = broker.revise defaults spec spec.name := by
  simp only [Broker.revise, Function.update_self, same]

/-- Entries of distinct names find their topics as the snapshot has them. -/
theorem meets_distinct {now : Broker} (distinct : (specs.map TopicSpec.name).Nodup)
    (same : ∀ spec ∈ specs, now spec.name = broker spec.name) :
    Meets (Broker.revise defaults) (fun now spec => now spec.name = broker spec.name) now specs := by
  induction specs generalizing now with
  | nil => trivial
  | cons spec rest ih =>
    obtain ⟨away, distinct⟩ := List.nodup_cons.mp distinct
    obtain ⟨here, later⟩ := List.forall_mem_cons.mp same
    refine ⟨here, ih distinct fun other member => ?_⟩
    have different : other.name ≠ spec.name := fun name =>
      away (List.mem_map.mpr ⟨other, member, name⟩)
    rw [now.revise_other different, later other member]

theorem revised_other {name : String} (now : Broker) (unlisted : ∀ spec ∈ specs, spec.name ≠ name) :
    specs.foldl (Broker.revise defaults) now name = now name := by
  induction specs generalizing now with
  | nil => rfl
  | cons spec rest ih =>
    obtain ⟨here, later⟩ := List.forall_mem_cons.mp unlisted
    rw [List.foldl_cons, ih _ later, now.revise_other here.symm]

theorem revised_listed {spec : TopicSpec} (now : Broker)
    (distinct : (specs.map TopicSpec.name).Nodup) (member : spec ∈ specs) :
    specs.foldl (Broker.revise defaults) now spec.name = now.revise defaults spec spec.name := by
  induction specs generalizing now with
  | nil => simp at member
  | cons first rest ih =>
    obtain ⟨away, distinct⟩ := List.nodup_cons.mp distinct
    rw [List.foldl_cons]
    obtain rfl | later := List.mem_cons.mp member
    · exact revised_other _ fun other inside name => away (List.mem_map.mpr ⟨other, inside, name⟩)
    · have different : spec.name ≠ first.name := fun name =>
        away (List.mem_map.mpr ⟨spec, later, name⟩)
      rw [ih _ distinct later, Broker.revise_congr (now.revise_other different)]

theorem kafka_reconcile (broker : Broker) (distinct : (specs.map TopicSpec.name).Nodup) :
    ((AdminClient.kafka defaults).reconcile false broker specs).2 = none ∧
      ((AdminClient.kafka defaults).reconcile false broker specs).1.broker =
        specs.foldl (Broker.revise defaults) broker :=
  (kafka_simulates broker).attempt trivial (meets_distinct distinct fun _ _ => rfl)

/-- What reconciliation leaves alone. -/
structure Local (defaults : String → Option String) (specs : List TopicSpec)
    (broker later : Broker) : Prop where
  kept : ∀ name topic, broker name = some topic →
    ∃ after, later name = some after ∧ topic.partitions ≤ after.partitions
  others : ∀ name, (∀ spec ∈ specs, spec.name ≠ name) → later name = broker name
  configs : ∀ spec ∈ specs, ∀ topic after, broker spec.name = some topic →
    later spec.name = some after → ∀ key, spec.config.lookup key = none →
    after.effective defaults key = topic.effective defaults key

theorem revise_effective_iff (defaults : String → Option String) (topic : Topic) (spec : TopicSpec) :
    (∀ key, spec.config.lookup key = none →
      (topic.revise defaults spec).effective defaults key = topic.effective defaults key) ↔
    ((Admin.drift spec (topic.effective defaults)).isEmpty = false →
      ∀ key value, topic.config key = some value → spec.config.lookup key = none →
        defaults key = some value) := by
  by_cases same : (Admin.drift spec (topic.effective defaults)).isEmpty
  · refine iff_of_true (fun key _ => ?_) fun drifts => absurd (same.symm.trans drifts) (by decide)
    rw [Topic.effective, Topic.revise_of_same same, Topic.effective]
  · rw [Bool.not_eq_true] at same
    have drifts : ¬ (Admin.drift spec (topic.effective defaults)).isEmpty := by simp [same]
    simp only [same, true_imp_iff, Topic.effective, Topic.revise_of_drift drifts, Config.overrides]
    refine forall_congr' fun key => ?_
    cases held : topic.config key with
    | none => simp +contextual
    | some value => simp +contextual

/-- Where the entries have distinct names, the run is local exactly when every topic whose
config drifted has no override beside the keys of its entry, other than the default. -/
theorem reconcile_local_iff (defaults : String → Option String) (broker : Broker)
    (specs : List TopicSpec) (distinct : (specs.map TopicSpec.name).Nodup) :
    Local defaults specs broker ((AdminClient.kafka defaults).reconcile false broker specs).1.broker ↔
      ∀ spec ∈ specs, ∀ topic, broker spec.name = some topic →
        (Admin.drift spec (topic.effective defaults)).isEmpty = false →
        ∀ key value, topic.config key = some value → spec.config.lookup key = none →
          defaults key = some value := by
  rw [(kafka_reconcile broker distinct).2]
  have revised {spec : TopicSpec} {topic : Topic} (member : spec ∈ specs)
      (held : broker spec.name = some topic) :
      specs.foldl (Broker.revise defaults) broker spec.name = some (topic.revise defaults spec) := by
    rw [revised_listed broker distinct member, Broker.revise, Function.update_self, held]
  constructor
  · intro framed spec member topic held
    exact (revise_effective_iff defaults topic spec).mp
      (framed.configs spec member topic _ held (revised member held))
  · intro covered
    refine ⟨?_, fun name => revised_other broker, ?_⟩
    · intro name topic held
      by_cases listed : ∃ spec ∈ specs, spec.name = name
      · obtain ⟨spec, member, rfl⟩ := listed
        exact ⟨_, revised member held, le_max_left _ _⟩
      · push Not at listed
        exact ⟨topic, (revised_other broker listed).trans held, le_rfl⟩
    · intro spec member topic after held there
      obtain rfl := Option.some.inj ((revised member held).symm.trans there)
      exact (revise_effective_iff defaults topic spec).mpr (covered spec member topic held)

end

/-- An operator keeps a topic for an hour. -/
def operated : Broker := Function.update (fun _ => none) "otel.spans"
  (some ⟨6, fun key =>
    if key = "retention.ms" then some "3600000"
    else if key = "cleanup.policy" then some "compact" else none⟩)

def brokerDefaults (key : String) : Option String :=
  if key = "retention.ms" then some "604800000" else none

def policyOnly : List TopicSpec :=
  [{ name := "otel.spans", partitions := 6, config := AList.singleton "cleanup.policy" "delete" }]

/-- The policy drifts in the first entry, which names the retention too, and nothing in the
second. -/
def policyKept : List TopicSpec :=
  [{ name := "otel.spans", partitions := 6,
     config := (AList.singleton "cleanup.policy" "delete").insert "retention.ms" "3600000" },
   { name := "otel.metrics", partitions := 6 }]

theorem reconcile_local_listed :
    ((AdminClient.kafka brokerDefaults).reconcile false operated policyKept).1.result.configsUpdated =
      ["otel.spans"] ∧
    Local brokerDefaults policyKept operated
      ((AdminClient.kafka brokerDefaults).reconcile false operated policyKept).1.broker := by
  refine ⟨rfl, (reconcile_local_iff _ _ _ (by decide)).mpr ?_⟩
  refine List.forall_mem_cons.mpr ⟨?_, List.forall_mem_singleton.mpr ?_⟩
  · intro topic held _ key value overridden unnamed
    obtain rfl := Option.some.inj held
    dsimp only at overridden
    split at overridden
    case isTrue retention =>
      subst retention
      exact absurd unnamed (by decide)
    case isFalse =>
      split at overridden
      case isTrue policy =>
        subst policy
        exact absurd unnamed (by decide)
      case isFalse => cases overridden
  · intro topic held
    cases held

/-- The update of the policy puts the retention back to the default. -/
theorem reconcile_drops_override :
    ((AdminClient.kafka brokerDefaults).reconcile false operated policyOnly).1.result.configsUpdated =
      ["otel.spans"] ∧
    ¬ Local brokerDefaults policyOnly operated
      ((AdminClient.kafka brokerDefaults).reconcile false operated policyOnly).1.broker := by
  refine ⟨rfl, fun framed => ?_⟩
  have kept := framed.configs _ (List.mem_singleton_self _) _ _ rfl rfl "retention.ms" rfl
  revert kept
  decide

end TelemetryEngine.Ingest
