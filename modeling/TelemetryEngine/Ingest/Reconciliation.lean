import Mathlib.Data.List.Induction
import TelemetryEngine.Ingest.Topics

/-! Reconciliation settles the entries one after the other, as long as the snapshot of
partition counts still says what the broker holds. Two entries for one topic may leave
it behind: the second create, or a growth the first entry has made already, fails. -/
namespace TelemetryEngine.Ingest
open Foundation

namespace Admin
variable {admin : Admin} {spec : TopicSpec} {existing : String → Option ℕ}

/-- Every topic of the snapshot is there, with no fewer partitions. -/
def Grown (existing : String → Option ℕ) (now : Broker) : Prop :=
  ∀ name current, existing name = some current →
    ∃ topic, now name = some topic ∧ current ≤ topic.partitions

/-- What the snapshot leads to can be done: a topic it misses is missing, and one that is
to grow has not grown as far yet. -/
def Fits (existing : String → Option ℕ) (now : Broker) (spec : TopicSpec) : Prop :=
  match existing spec.name with
  | none => now spec.name = none
  | some current => current < spec.partitions →
      ∀ topic, now spec.name = some topic → topic.partitions < spec.partitions

theorem grown_settle {now : Broker} (spec : TopicSpec) (grown : Grown existing now) :
    Grown existing (now.settle spec) := by
  intro name current held
  obtain ⟨topic, here, atLeast⟩ := grown name current held
  by_cases same : name = spec.name
  · subst same
    refine ⟨topic.settle spec, by simp [Broker.settle, here], ?_⟩
    exact atLeast.trans (le_max_left _ _)
  · exact ⟨topic, by simp [Broker.settle, same, here], atLeast⟩

end Admin

namespace AdminClient
open Admin
variable {admin : Admin} {spec : TopicSpec} {existing : String → Option ℕ}

theorem reconcileTopic_steps (grown : Grown existing admin.broker)
    (fits : Fits existing admin.broker spec) :
    ∃ later, setting.reconcileTopic false existing admin spec = .ok later ∧
      later.broker = admin.broker.settle spec := by
  cases held : existing spec.name with
  | none =>
    simp only [Fits, held] at fits
    simpa only [reconcileTopic, held] using setting_create fits
  | some current =>
    simp only [Fits, held] at fits
    obtain ⟨topic, here, atLeast⟩ := grown _ _ held
    obtain ⟨wider, grew, widened, broker⟩ :=
      grow_ok .setting (fun _ => rfl) here atLeast fun more => fits more topic here
    have there : wider.broker spec.name =
        some { topic with partitions := max topic.partitions spec.partitions } := by
      rw [broker, Function.update_self]
    obtain ⟨later, changed, updated, settled⟩ := setting_updateConfig there
    have same : later.broker = admin.broker.settle spec := by
      rw [settled, broker, Function.update_idem, Broker.settle, here]
      rfl
    simp only [reconcileTopic, held, widened, updated, bind, Except.bind]
    split
    · exact ⟨_, rfl, same⟩
    · exact ⟨_, rfl, same⟩

theorem reconcileTopic_stops
    (unfit : ¬ Fits existing admin.broker spec) :
    ∃ failure, setting.reconcileTopic false existing admin spec = .error failure := by
  cases held : existing spec.name with
  | none =>
    simp only [Fits, held] at unfit
    obtain ⟨topic, here⟩ := Option.ne_none_iff_exists'.mp unfit
    have failed : setting.perform admin.broker
        (.createTopics spec.name spec.partitions spec.replicationFactor spec.config) =
        .error (.topicAlreadyExists spec.name) := by
      simp [setting, Broker.perform, here]
    exact ⟨_, by simp only [reconcileTopic, held]; exact create_error failed⟩
  | some current =>
    simp only [Fits, held] at unfit
    push Not at unfit
    obtain ⟨more, topic, here, full⟩ := unfit
    have failed : setting.perform admin.broker (.createPartitions spec.name spec.partitions) =
        .error (.invalidPartitions spec.name) := by
      simp [setting, Broker.perform, here, full.not_gt]
    exact ⟨.invalidPartitions spec.name,
      by simp only [reconcileTopic, held, grow_error more failed, bind, Except.bind]⟩

/-- An entry whose topic already is what it asks for. -/
theorem reconcileTopic_quiet {current : ℕ} {topic : Topic} (held : existing spec.name = some current)
    (enough : spec.partitions ≤ current) (here : admin.broker spec.name = some topic)
    (holds : topic.Holds spec.config) :
    ∃ later, setting.reconcileTopic false existing admin spec = .ok later ∧
      later.broker = admin.broker ∧
      later.writes = admin.writes ∧ later.result.changed = admin.result.changed := by
  have grew : ∃ note, setting.grow admin false spec current = .ok (admin.report note, false) ∧
      ∀ r, (note r).changed = r.changed := by
    by_cases shrinks : spec.partitions < current
    · exact ⟨fun r => { r with refused := r.refused ++ [spec.name] },
        by rw [grow, if_neg (not_lt.mpr enough), if_pos shrinks]; rfl, fun _ => rfl⟩
    · exact ⟨id, by rw [grow, if_neg (not_lt.mpr enough), if_neg shrinks]; rfl, fun _ => rfl⟩
  obtain ⟨note, grew, silent⟩ := grew
  have updated : setting.updateConfig (admin.report note) false spec =
      .ok (admin.report note, false) := by
    by_cases empty : spec.config.keys.isEmpty
    · rw [updateConfig, if_pos empty]
      rfl
    · simp only [updateConfig, if_neg empty, setting, currentConfig, report, here, bind, Except.bind,
        if_pos (drift_empty_iff.mpr holds)]
      rfl
  simp only [reconcileTopic, held, grew, updated, bind, Except.bind]
  split
  · exact ⟨_, rfl, rfl, rfl, silent _⟩
  · exact ⟨_, rfl, rfl, rfl, silent _⟩

end AdminClient

/-! ### Runs -/

open Admin AdminClient

variable {broker : Broker} {specs : List TopicSpec}

theorem grown_initial (broker : Broker) : Grown (existingPartitionCounts broker) broker := by
  intro name current held
  obtain ⟨topic, here, rfl⟩ := Option.map_eq_some_iff.mp held
  exact ⟨topic, here, le_rfl⟩

theorem reconcile_simulates (existing : String → Option ℕ) :
    Simulates (setting.reconcileTopic false existing) Admin.broker Broker.settle (Fits existing)
      (Grown existing) where
  steps _ _ := reconcileTopic_steps
  preserves _ := grown_settle

theorem reconcile_done_iff : (reconcile false broker specs).2 = none ↔
    Meets Broker.settle (Fits (existingPartitionCounts broker)) broker specs :=
  (reconcile_simulates (existingPartitionCounts broker)).done_iff
    (fun _ _ _ => reconcileTopic_stops) (grown_initial broker)

/-- A reconciliation that completes leaves every entry settled, in order. -/
theorem reconcile_settles (done : (reconcile false broker specs).2 = none) :
    (reconcile false broker specs).1.broker = specs.foldl Broker.settle broker :=
  ((reconcile_simulates (existingPartitionCounts broker)).attempt (grown_initial broker)
    (reconcile_done_iff.mp done)).2

def Broker.Satisfies (broker : Broker) (spec : TopicSpec) : Prop :=
  ∃ topic, broker spec.name = some topic ∧ spec.partitions ≤ topic.partitions ∧
    topic.Holds spec.config

/-- What a run has to show: the broker, what it was sent, and whether that is a change. -/
def Admin.shown (admin : Admin) : Broker × List Write × Bool :=
  (admin.broker, admin.writes, admin.result.changed)

/-- On a broker that is as every entry asks, nothing is written and nothing changed. -/
theorem reconcile_quiet (satisfied : ∀ spec ∈ specs, broker.Satisfies spec) :
    (reconcile false broker specs).2 = none ∧
      (reconcile false broker specs).1.shown = (broker, [], false) := by
  have quiet : Simulates (setting.reconcileTopic false (existingPartitionCounts broker)) Admin.shown
      (fun now _ => now) (fun _ => broker.Satisfies) (· = (broker, [], false)) := by
    constructor
    · intro admin spec clean ⟨topic, here, enough, holds⟩
      obtain ⟨same, _⟩ := Prod.mk.inj clean
      have held : existingPartitionCounts broker spec.name = some topic.partitions := by
        simp [existingPartitionCounts, here]
      obtain ⟨later, step, broker, writes, changed⟩ :=
        reconcileTopic_quiet held enough (same ▸ here) holds
      exact ⟨later, step, by rw [shown, shown, broker, writes, changed]⟩
    · exact fun _ _ => id
  obtain ⟨done, shown⟩ :=
    quiet.attempt (s := ({ broker } : Admin)) rfl (meets_of_forall fun _ => satisfied)
  exact ⟨done, by
    rw [reconcile, AdminClient.reconcile, shown, List.foldl_fixed]
    rfl⟩

/-! ### Settled topics -/

/-- The most partitions an entry asks for a topic. -/
def requested (specs : List TopicSpec) (name : String) : ℕ :=
  ((specs.filter fun spec => spec.name = name).map fun spec => (spec.partitions : ℕ)).foldl max 0

theorem requested_concat (specs : List TopicSpec) (spec : TopicSpec) (name : String) :
    requested (specs ++ [spec]) name =
      if spec.name = name then max (requested specs name) spec.partitions
      else requested specs name := by
  by_cases same : spec.name = name <;> simp [requested, same]

theorem requested_lt_iff {name : String} {bound : ℕ} (pos : 0 < bound) :
    requested specs name < bound ↔
      ∀ spec ∈ specs, spec.name = name → spec.partitions < bound := by
  induction specs using List.reverseRecOn with
  | nil => simpa [requested] using pos
  | append_singleton specs spec ih =>
    rw [requested_concat]
    by_cases same : spec.name = name
    · simp [same, ih, forall_and, or_imp]
    · simp [same, ih, or_imp, forall_and]

theorem le_requested {spec : TopicSpec} (member : spec ∈ specs) :
    spec.partitions ≤ requested specs spec.name := by
  have below := (requested_lt_iff (Nat.succ_pos (requested specs spec.name))).mp
    (Nat.lt_succ_self _) spec member rfl
  exact Nat.lt_succ_iff.mp below

theorem settled_partitions (broker : Broker) (specs : List TopicSpec) (name : String) :
    ((specs.foldl Broker.settle broker name).getD .blank).partitions =
      max ((broker name).getD .blank).partitions (requested specs name) := by
  induction specs using List.reverseRecOn with
  | nil => simp [requested]
  | append_singleton specs spec ih =>
    rw [List.foldl_append, List.foldl_cons, List.foldl_nil, requested_concat]
    by_cases same : spec.name = name
    · subst same
      simp [Broker.settle, Topic.settle, ih, max_assoc]
    · rw [if_neg same, Broker.settle, Function.update_of_ne (Ne.symm same), ih]

theorem settled_none_iff {name : String} : specs.foldl Broker.settle broker name = none ↔
    broker name = none ∧ ∀ spec ∈ specs, spec.name ≠ name := by
  induction specs using List.reverseRecOn with
  | nil => simp
  | append_singleton specs spec ih =>
    rw [List.foldl_append, List.foldl_cons, List.foldl_nil]
    by_cases same : spec.name = name
    · subst same
      simp [Broker.settle]
    · rw [Broker.settle, Function.update_of_ne (Ne.symm same), ih]
      simp [same, or_imp, forall_and]

/-- Two entries of one topic agree on the keys both set. -/
def Agree (first second : TopicSpec) : Prop :=
  first.name = second.name → ∀ key value value', first.config.lookup key = some value →
    second.config.lookup key = some value' → value = value'

theorem settled_holds (agree : specs.Pairwise Agree) : ∀ spec ∈ specs, ∃ topic,
    specs.foldl Broker.settle broker spec.name = some topic ∧ topic.Holds spec.config := by
  induction specs using List.reverseRecOn with
  | nil => simp
  | append_singleton specs last ih =>
    obtain ⟨earlier, _, agrees⟩ := List.pairwise_append.mp agree
    intro spec member
    rw [List.foldl_append, List.foldl_cons, List.foldl_nil]
    rcases List.mem_append.mp member with before | here
    · obtain ⟨topic, held, holds⟩ := ih earlier spec before
      by_cases same : spec.name = last.name
      · refine ⟨topic.settle last, by simp [Broker.settle, ← same, held], ?_⟩
        intro key value item
        cases set : last.config.lookup key with
        | none => simp [Topic.settle, overlay, set, holds key value item]
        | some value' =>
          have equal := agrees spec before last (by simp) same key value value' item set
          simp [Topic.settle, overlay, set, equal]
      · exact ⟨topic, by simp [Broker.settle, same, held], holds⟩
    · obtain rfl := List.mem_singleton.mp here
      refine ⟨_, Function.update_self _ _ _, ?_⟩
      intro key value item
      simp [Topic.settle, overlay, item]

/-! ### Convergence -/

/-- The later entry finds its topic on the broker, and if it is to grow there, it asks for
more than the earlier entry. -/
def Orderly (broker : Broker) (first second : TopicSpec) : Prop :=
  first.name = second.name → ∃ topic, broker second.name = some topic ∧
    (topic.partitions < second.partitions → first.partitions < second.partitions)

theorem fits_settled_iff {done : List TopicSpec} {spec : TopicSpec} :
    Fits (existingPartitionCounts broker) (done.foldl Broker.settle broker) spec ↔
      ∀ first ∈ done, Orderly broker first spec := by
  cases here : broker spec.name with
  | none => simp [Fits, existingPartitionCounts, here, settled_none_iff, Orderly]
  | some topic =>
    have partitions := settled_partitions broker done spec.name
    have present : done.foldl Broker.settle broker spec.name ≠ none := by
      rw [Ne, settled_none_iff]
      simp [here]
    obtain ⟨later, held⟩ := Option.ne_none_iff_exists'.mp present
    simp only [here, held, Option.getD_some] at partitions
    simp only [Fits, existingPartitionCounts, here, Option.map_some, held, Option.some.injEq,
      forall_eq', partitions, max_lt_iff, requested_lt_iff spec.partitions.pos, Orderly,
      exists_eq_left', PNat.coe_lt_coe]
    constructor
    · intro fits first member same grows
      exact (fits grows).2 first member same
    · intro orderly grows
      exact ⟨grows, fun first member same => orderly first member same grows⟩

theorem reconcile_done_iff_orderly :
    (reconcile false broker specs).2 = none ↔ specs.Pairwise (Orderly broker) := by
  rw [reconcile_done_iff]
  induction specs using List.reverseRecOn with
  | nil => simp [Meets]
  | append_singleton specs spec ih =>
    rw [meets_append, ih, List.pairwise_append]
    simp [Meets, fits_settled_iff]

/-- What reconciliation is for. -/
structure Converges (broker : Broker) (specs : List TopicSpec) : Prop where
  completes : (reconcile false broker specs).2 = none
  topics : ∀ spec ∈ specs, ∃ topic,
    (reconcile false broker specs).1.broker spec.name = some topic ∧
      topic.partitions = max ((broker spec.name).getD .blank).partitions (requested specs spec.name) ∧
      topic.Holds spec.config
  again : let second := reconcile false (reconcile false broker specs).1.broker specs
    second.2 = none ∧ second.1.writes = [] ∧ second.1.result.changed = false

theorem reconciled_topics (completes : (reconcile false broker specs).2 = none)
    (agree : specs.Pairwise Agree) : ∀ spec ∈ specs, ∃ topic,
      (reconcile false broker specs).1.broker spec.name = some topic ∧ topic.partitions =
        max ((broker spec.name).getD .blank).partitions (requested specs spec.name) ∧
        topic.Holds spec.config := by
  intro spec member
  obtain ⟨topic, held, holds⟩ := @settled_holds broker specs agree spec member
  have partitions := settled_partitions broker specs spec.name
  rw [held] at partitions
  exact ⟨topic, by rw [reconcile_settles completes, held], partitions, holds⟩

/-- A topic cannot hold two values of a key. -/
theorem agree_of_holds {now : Broker} (holds : ∀ spec ∈ specs, ∃ topic,
    now spec.name = some topic ∧ topic.Holds spec.config) : specs.Pairwise Agree := by
  refine List.pairwise_of_forall_mem_list fun first here second there same key value value' => ?_
  intro item item'
  obtain ⟨topic, held, holds₁⟩ := holds first here
  obtain ⟨topic', held', holds₂⟩ := holds second there
  obtain rfl : topic = topic' := by simpa [← same, held] using held'
  simpa [holds₁ key value item] using holds₂ key value' item'

/-- Reconciliation converges exactly when no two entries for one topic conflict. -/
theorem reconcile_converges_iff (broker : Broker) (specs : List TopicSpec) :
    Converges broker specs ↔
      specs.Pairwise fun first second => Orderly broker first second ∧ Agree first second := by
  rw [List.pairwise_and_iff]
  constructor
  · intro converges
    have holds (spec : TopicSpec) (member : spec ∈ specs) : ∃ topic,
        (reconcile false broker specs).1.broker spec.name = some topic ∧
          topic.Holds spec.config := by
      obtain ⟨topic, held, _, holds⟩ := converges.topics spec member
      exact ⟨topic, held, holds⟩
    exact ⟨reconcile_done_iff_orderly.mp converges.completes, agree_of_holds holds⟩
  · rintro ⟨orderly, agree⟩
    have completes := reconcile_done_iff_orderly.mpr orderly
    have topics := reconciled_topics completes agree
    have satisfied : ∀ spec ∈ specs, (reconcile false broker specs).1.broker.Satisfies spec := by
      intro spec member
      obtain ⟨topic, held, partitions, holds⟩ := topics spec member
      exact ⟨topic, held, partitions ▸ (le_requested member).trans (le_max_right _ _), holds⟩
    obtain ⟨done, shown⟩ := reconcile_quiet satisfied
    exact ⟨completes, topics, done, Prod.mk.inj (Prod.mk.inj shown).2⟩

def entryTwice : List RawTopic :=
  [{ name := "otel.spans", partitions := 6 }, { name := "otel.spans", partitions := 6 }]

/-- The file is accepted. On a broker without the topic, the first entry creates it and
the second fails to. -/
theorem entry_twice_fails : ∃ specs, loadSpecs "topics.yaml" entryTwice = .ok specs ∧
    (reconcile false (fun _ => none) specs).2 = some (.topicAlreadyExists "otel.spans") ∧
    ¬ Converges (fun _ => none) specs := by
  refine ⟨_, rfl, rfl, fun converges => ?_⟩
  exact Option.some_ne_none _ converges.completes

end TelemetryEngine.Ingest
