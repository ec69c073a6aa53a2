import Mathlib.Data.List.AList
import Mathlib.Data.PNat.Basic
import TelemetryEngine.Foundation.Traced

/-! `ingest/topics.py`, declarative topic reconciliation: create topics, grow partitions,
update configs. Partition counts are read once, before the first entry. Configs are read
again for every entry. -/
namespace TelemetryEngine.Ingest
open Foundation

/-! ### Specifications -/

/-- A `dict[str, str]`. -/
abbrev Config := AList fun _ : String => String

/-- Desired state for a single topic. `__post_init__` admits no other. -/
structure TopicSpec where
  name : String
  partitions : ℕ+
  replicationFactor : ℕ+ := 1
  config : Config := ∅

/-- The constructor, with the checks of `__post_init__` in their order. -/
def TopicSpec.make (name : String) (partitions replicationFactor : Int) (config : Config) :
    Except String TopicSpec :=
  if few : partitions < 1 then .error s!"{name}: partitions must be >= 1, got {partitions}"
  else if none_ : replicationFactor < 1 then
    .error s!"{name}: replication_factor must be >= 1, got {replicationFactor}"
  else .ok {
    name, config
    partitions := ⟨partitions.toNat, by omega⟩
    replicationFactor := ⟨replicationFactor.toNat, by omega⟩ }

/-- An entry of the file, its values coerced already. -/
structure RawTopic where
  name : String
  partitions : Int
  replicationFactor : Option Int := none
  config : List (String × String) := []

/-- A dict comprehension: the last value of a key stands. -/
def dict (items : List (String × String)) : Config :=
  items.foldl (fun config item => config.insert item.1 item.2) ∅

def loadSpecs (src : String) (topics : List RawTopic) : Except String (List TopicSpec) :=
  if topics.isEmpty then .error s!"no topics defined in {src}"
  else topics.mapM fun t =>
    TopicSpec.make t.name t.partitions (t.replicationFactor.getD 1) (dict t.config)

/-! ### The broker -/

structure Topic where
  partitions : ℕ
  config : String → Option String

abbrev Broker := String → Option Topic

inductive AdminError where
  | topicAlreadyExists (name : String)
  | unknownTopic (name : String)
  | invalidPartitions (name : String)

inductive Write where
  | createTopics (name : String) (partitions replicationFactor : ℕ+) (config : Config)
  | createPartitions (name : String) (total : ℕ+)
  | alterConfigs (name : String) (config : Config)

def Write.topic : Write → String
  | .createTopics name .. | .createPartitions name _ | .alterConfigs name _ => name

/-- The given keys are set, the others stay. -/
def overlay (config : Config) (stored : String → Option String) (key : String) : Option String :=
  (config.lookup key).or (stored key)

def Broker.perform (broker : Broker) : Write → Except AdminError Broker
  | .createTopics name partitions _ config =>
    match broker name with
    | some _ => .error (.topicAlreadyExists name)
    | none => .ok (Function.update broker name (some ⟨partitions, fun key => config.lookup key⟩))
  | .createPartitions name total =>
    match broker name with
    | none => .error (.unknownTopic name)
    | some topic =>
      if topic.partitions < total then
        .ok (Function.update broker name (some { topic with partitions := total }))
      else .error (.invalidPartitions name)
  | .alterConfigs name config =>
    match broker name with
    | none => .error (.unknownTopic name)
    | some topic =>
      .ok (Function.update broker name (some { topic with config := overlay config topic.config }))

/-- `_existing_partition_counts` -/
def existingPartitionCounts (broker : Broker) (name : String) : Option ℕ :=
  (broker name).map Topic.partitions

/-- `_current_config` -/
def currentConfig (broker : Broker) (name : String) : Except AdminError (String → Option String) :=
  match broker name with
  | none => .error (.unknownTopic name)
  | some topic => .ok topic.config

/-- A write changes its own topic only. -/
theorem Broker.perform_other {broker later : Broker} {request : Write} {name : String}
    (done : broker.perform request = .ok later) (other : name ≠ request.topic) :
    later name = broker name := by
  cases request with
  | createTopics topic =>
    cases held : broker topic <;> simp only [Broker.perform, held] at done <;> cases done
    exact Function.update_of_ne other _ _
  | createPartitions topic total =>
    cases held : broker topic <;> simp only [Broker.perform, held] at done
    case none => cases done
    case some here =>
      split at done <;> cases done
      exact Function.update_of_ne other _ _
  | alterConfigs topic =>
    cases held : broker topic <;> simp only [Broker.perform, held] at done <;> cases done
    exact Function.update_of_ne other _ _

theorem Broker.createPartitions_ok {broker later : Broker} {name : String} {total : ℕ+}
    (done : broker.perform (.createPartitions name total) = .ok later) :
    ∃ topic, broker name = some topic ∧
      later = Function.update broker name (some { topic with partitions := total }) := by
  cases held : broker name <;> simp only [Broker.perform, held] at done
  case none => cases done
  case some topic =>
    split at done <;> cases done
    exact ⟨topic, rfl, rfl⟩

/-! ### Admin clients -/

/-- The calls of an admin client beside `list_topics`. -/
structure AdminClient where
  describeConfigs : Broker → String → Except AdminError (String → Option String)
  perform : Broker → Write → Except AdminError Broker
  /-- A write to one topic leaves the configs of the others alone. -/
  describe_other : ∀ {broker request later name}, perform broker request = .ok later →
    name ≠ request.topic → describeConfigs later name = describeConfigs broker name
  /-- New partitions leave a config alone. -/
  describe_grown : ∀ {broker later name total},
    perform broker (.createPartitions name total) = .ok later →
    describeConfigs later name = describeConfigs broker name

/-- A broker that sets the given keys, and keeps the others. -/
def AdminClient.setting : AdminClient where
  describeConfigs := currentConfig
  perform := Broker.perform
  describe_other done other := by rw [currentConfig, currentConfig, Broker.perform_other done other]
  describe_grown := by
    intro broker later name total done
    obtain ⟨topic, held, rfl⟩ := Broker.createPartitions_ok done
    simp [currentConfig, held]

/-! ### Reconciliation -/

/-- What reconciliation did. Requested shrinks are refused rather than attempted. -/
structure ReconcileResult where
  created : List String := []
  partitionsGrown : List String := []
  configsUpdated : List String := []
  unchanged : List String := []
  refused : List String := []

def ReconcileResult.changed (result : ReconcileResult) : Bool :=
  !result.created.isEmpty || !result.partitionsGrown.isEmpty || !result.configsUpdated.isEmpty

/-- The broker, the writes it was sent, and the result so far. -/
structure Admin where
  broker : Broker
  writes : List Write := []
  result : ReconcileResult := {}

namespace Admin

def report (admin : Admin) (note : ReconcileResult → ReconcileResult) : Admin :=
  { admin with result := note admin.result }

def drift (spec : TopicSpec) (current : String → Option String) : List String :=
  spec.config.keys.filter fun key => current key ≠ spec.config.lookup key

end Admin

namespace AdminClient

/-- A dry run sends nothing. -/
def write (client : AdminClient) (admin : Admin) (dryRun : Bool) (request : Write) :
    Except AdminError Admin :=
  if dryRun then .ok admin
  else
    match client.perform admin.broker request with
    | .error e => .error e
    | .ok broker => .ok { admin with broker, writes := admin.writes ++ [request] }

/-- Creates a topic the snapshot does not have. -/
def create (client : AdminClient) (admin : Admin) (dryRun : Bool) (spec : TopicSpec) :
    Except AdminError Admin := do
  let admin ← client.write admin dryRun
    (.createTopics spec.name spec.partitions spec.replicationFactor spec.config)
  return admin.report fun r => { r with created := r.created ++ [spec.name] }

/-- Grows the partitions, or refuses to shrink them. Answers whether they grew. -/
def grow (client : AdminClient) (admin : Admin) (dryRun : Bool) (spec : TopicSpec) (current : ℕ) :
    Except AdminError (Admin × Bool) :=
  if current < spec.partitions then do
    let admin ← client.write admin dryRun (.createPartitions spec.name spec.partitions)
    return (admin.report fun r => { r with partitionsGrown := r.partitionsGrown ++ [spec.name] },
      true)
  else if spec.partitions < current then
    return (admin.report fun r => { r with refused := r.refused ++ [spec.name] }, false)
  else return (admin, false)

/-- Updates the config where it drifted. Answers whether it did. -/
def updateConfig (client : AdminClient) (admin : Admin) (dryRun : Bool) (spec : TopicSpec) :
    Except AdminError (Admin × Bool) :=
  if spec.config.keys.isEmpty then return (admin, false)
  else do
    let current ← client.describeConfigs admin.broker spec.name
    if (Admin.drift spec current).isEmpty then return (admin, false)
    else
      let admin ← client.write admin dryRun (.alterConfigs spec.name spec.config)
      return (admin.report fun r => { r with configsUpdated := r.configsUpdated ++ [spec.name] },
        true)

/-- One entry, with the partition counts of the snapshot. -/
def reconcileTopic (client : AdminClient) (dryRun : Bool) (existing : String → Option ℕ)
    (admin : Admin) (spec : TopicSpec) : Except AdminError Admin :=
  match existing spec.name with
  | none => client.create admin dryRun spec
  | some current => do
    let (admin, grown) ← client.grow admin dryRun spec current
    let (admin, updated) ← client.updateConfig admin dryRun spec
    if !(grown || updated) && !admin.result.refused.contains spec.name then
      return admin.report fun r => { r with unchanged := r.unchanged ++ [spec.name] }
    else return admin

/-- Where it got to, and the error that ended it. -/
def reconcile (client : AdminClient) (dryRun : Bool) (broker : Broker) (specs : List TopicSpec) :
    Admin × Option AdminError :=
  attempt (client.reconcileTopic dryRun (existingPartitionCounts broker)) { broker } specs

end AdminClient

/-- `reconcile`, where AlterConfigs sets the given keys. -/
def reconcile (dryRun : Bool) (broker : Broker) (specs : List TopicSpec) :
    Admin × Option AdminError :=
  AdminClient.setting.reconcile dryRun broker specs

/-! ### What an entry does -/

def Topic.settle (topic : Topic) (spec : TopicSpec) : Topic :=
  ⟨max topic.partitions spec.partitions, overlay spec.config topic.config⟩

def Topic.blank : Topic := ⟨0, fun _ => none⟩

def Broker.settle (broker : Broker) (spec : TopicSpec) : Broker :=
  Function.update broker spec.name (some (((broker spec.name).getD .blank).settle spec))

def Topic.Holds (topic : Topic) (config : Config) : Prop :=
  ∀ key value, config.lookup key = some value → topic.config key = some value

theorem overlay_holds {topic : Topic} {config : Config} (holds : topic.Holds config) :
    overlay config topic.config = topic.config := by
  funext key
  cases item : config.lookup key with
  | none => simp [overlay, item]
  | some value => simp [overlay, item, holds key value item]

theorem overlay_empty (config : Config) :
    (overlay config fun _ => none) = fun key => config.lookup key := by
  funext key
  simp [overlay]

namespace Admin
variable {admin : Admin} {spec : TopicSpec} {topic : Topic} {current : ℕ}

theorem drift_empty_iff : (drift spec topic.config).isEmpty ↔ topic.Holds spec.config := by
  rw [List.isEmpty_iff, drift, List.filter_eq_nil_iff]
  constructor
  · intro same key value item
    have member : key ∈ spec.config.keys :=
      AList.mem_keys.mp (AList.lookup_isSome.mp (by simp [item]))
    simpa [item] using same key member
  · intro holds key member
    obtain ⟨value, item⟩ := Option.isSome_iff_exists.mp
      (AList.lookup_isSome.mpr (AList.mem_keys.mpr member))
    simp [item, holds key value item]

theorem drift_of_keys_empty (empty : spec.config.keys.isEmpty) (current : String → Option String) :
    (drift spec current).isEmpty := by
  simp [drift, List.isEmpty_iff.mp empty]

/-- A topic of enough partitions keeps what it has. -/
theorem update_enough (held : admin.broker spec.name = some topic)
    (enough : spec.partitions ≤ topic.partitions) : Function.update admin.broker spec.name
      (some { topic with partitions := max topic.partitions spec.partitions }) = admin.broker := by
  rw [max_eq_left enough, Function.update_eq_self_iff, held]

end Admin

namespace AdminClient
variable {client : AdminClient} {admin : Admin} {spec : TopicSpec} {topic : Topic}
  {request : Write} {later : Broker} {failure : AdminError}

theorem write_ok (done : client.perform admin.broker request = .ok later) :
    client.write admin false request =
      .ok { admin with broker := later, writes := admin.writes ++ [request] } := by
  simp [write, done]

theorem write_error (failed : client.perform admin.broker request = .error failure) :
    client.write admin false request = .error failure := by
  simp [write, failed]

theorem create_ok (done : client.perform admin.broker
      (.createTopics spec.name spec.partitions spec.replicationFactor spec.config) = .ok later) :
    ∃ created, client.create admin false spec = .ok created ∧ created.broker = later :=
  ⟨_, by rw [create, write_ok done]; rfl, rfl⟩

theorem create_error (failed : client.perform admin.broker
      (.createTopics spec.name spec.partitions spec.replicationFactor spec.config) =
      .error failure) : client.create admin false spec = .error failure := by
  rw [create, write_error failed]
  rfl

/-- Partitions grow the same way under either AlterConfigs. -/
theorem grow_ok (client : AdminClient) {current : ℕ} (plain : ∀ total, client.perform admin.broker
      (.createPartitions spec.name total) = admin.broker.perform (.createPartitions spec.name total))
    (held : admin.broker spec.name = some topic) (atLeast : current ≤ topic.partitions)
    (fits : current < spec.partitions → topic.partitions < spec.partitions) :
    ∃ later grown, client.grow admin false spec current = .ok (later, grown) ∧
      later.broker = Function.update admin.broker spec.name
        (some { topic with partitions := max topic.partitions spec.partitions }) := by
  by_cases grows : current < spec.partitions
  · have more := fits grows
    have done : client.perform admin.broker (.createPartitions spec.name spec.partitions) =
        .ok (Function.update admin.broker spec.name
          (some { topic with partitions := spec.partitions })) := by
      rw [plain]
      simp [Broker.perform, held, more]
    refine ⟨_, true, by rw [grow, if_pos grows, write_ok done]; rfl, ?_⟩
    simp [Admin.report, max_eq_right more.le]
  · have same := Admin.update_enough held ((not_lt.mp grows).trans atLeast)
    by_cases shrinks : spec.partitions < current
    · refine ⟨_, false, by rw [grow, if_neg grows, if_pos shrinks]; rfl, ?_⟩
      exact same.symm
    · exact ⟨admin, false, by rw [grow, if_neg grows, if_neg shrinks]; rfl, same.symm⟩

theorem grow_error {current : ℕ} (grows : current < spec.partitions)
    (failed : client.perform admin.broker (.createPartitions spec.name spec.partitions) =
      .error failure) : client.grow admin false spec current = .error failure := by
  rw [grow, if_pos grows, write_error failed]
  rfl

theorem updateConfig_ok {current : String → Option String}
    (read : client.describeConfigs admin.broker spec.name = .ok current)
    (done : client.perform admin.broker (.alterConfigs spec.name spec.config) = .ok later) :
    ∃ altered updated, client.updateConfig admin false spec = .ok (altered, updated) ∧
      altered.broker = if (Admin.drift spec current).isEmpty then admin.broker else later := by
  by_cases same : (Admin.drift spec current).isEmpty
  · refine ⟨admin, false, ?_, (if_pos same).symm⟩
    by_cases empty : spec.config.keys.isEmpty
    · rw [updateConfig, if_pos empty]
      rfl
    · simp only [updateConfig, if_neg empty, read, bind, Except.bind, if_pos same]
      rfl
  · have some_ : ¬ spec.config.keys.isEmpty := fun empty =>
      same (Admin.drift_of_keys_empty empty current)
    refine ⟨_, true, by
      simp only [updateConfig, if_neg some_, read, bind, Except.bind, if_neg same, write_ok done]
      rfl, ?_⟩
    rw [if_neg same]
    rfl

/-! ### A broker that sets the given keys -/

theorem setting_create (absent : admin.broker spec.name = none) :
    ∃ created, setting.create admin false spec = .ok created ∧
      created.broker = admin.broker.settle spec := by
  refine create_ok ?_
  simp [setting, Broker.perform, absent, Broker.settle, Topic.settle, Topic.blank, overlay_empty]

theorem setting_updateConfig (held : admin.broker spec.name = some topic) :
    ∃ altered updated, setting.updateConfig admin false spec = .ok (altered, updated) ∧
      altered.broker = Function.update admin.broker spec.name
        (some { topic with config := overlay spec.config topic.config }) := by
  have read : setting.describeConfigs admin.broker spec.name = .ok topic.config := by
    simp [setting, currentConfig, held]
  have done : setting.perform admin.broker (.alterConfigs spec.name spec.config) =
      .ok (Function.update admin.broker spec.name
        (some { topic with config := overlay spec.config topic.config })) := by
    simp [setting, Broker.perform, held]
  obtain ⟨altered, updated, step, broker⟩ := updateConfig_ok read done
  refine ⟨altered, updated, step, ?_⟩
  rw [broker]
  split
  case isTrue same =>
    rw [overlay_holds (Admin.drift_empty_iff.mp same), Function.eq_update_self_iff, held]
  case isFalse drifts => rfl

end AdminClient

end TelemetryEngine.Ingest
