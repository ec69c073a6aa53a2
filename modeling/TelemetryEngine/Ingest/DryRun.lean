import TelemetryEngine.Ingest.Topics

/-! `reconcile` against any broker that keeps the configs of different topics apart. What
is reported of an entry depends on the broker as it was before the first one, whether or
not the entries before it were written. -/
namespace TelemetryEngine.Ingest
open Foundation

/-! ### What is reported of an entry -/

def ReconcileResult.append (result entry : ReconcileResult) : ReconcileResult where
  created := result.created ++ entry.created
  partitionsGrown := result.partitionsGrown ++ entry.partitionsGrown
  configsUpdated := result.configsUpdated ++ entry.configsUpdated
  unchanged := result.unchanged ++ entry.unchanged
  refused := result.refused ++ entry.refused

theorem ReconcileResult.append_assoc (first second third : ReconcileResult) :
    (first.append second).append third = first.append (second.append third) := by
  simp [append]

theorem ReconcileResult.append_empty (result : ReconcileResult) : result.append {} = result := by
  simp [append]

theorem ReconcileResult.empty_append (result : ReconcileResult) :
    ReconcileResult.append {} result = result := by
  simp [append]

namespace TopicSpec

def named (spec : TopicSpec) (reported : Bool) : List String := if reported then [spec.name] else []

theorem mem_named {spec : TopicSpec} {reported : Bool} {name : String} :
    name ∈ spec.named reported ↔ reported = true ∧ name = spec.name := by
  cases reported <;> simp [named]

def grownEntry (spec : TopicSpec) (current : ℕ) : ReconcileResult where
  partitionsGrown := spec.named (current < spec.partitions)
  refused := spec.named (spec.partitions < current)

/-- What is reported of an entry for a topic with that many partitions, if any. -/
def verdict (spec : TopicSpec) (existing : Option ℕ) (drifted : Bool) : ReconcileResult :=
  match existing with
  | none => { created := [spec.name] }
  | some current =>
    { spec.grownEntry current with
      configsUpdated := spec.named drifted
      unchanged := spec.named (current = spec.partitions && !drifted) }

theorem verdict_some (spec : TopicSpec) (current : ℕ) (drifted : Bool) :
    spec.verdict (some current) drifted =
      ((spec.grownEntry current).append { configsUpdated := spec.named drifted }).append
        { unchanged := spec.named (current = spec.partitions && !drifted) } := by
  simp [verdict, grownEntry, ReconcileResult.append]

end TopicSpec

namespace AdminClient
variable {client : AdminClient} {dryRun : Bool} {admin later : Admin} {spec : TopicSpec}

def drifted (client : AdminClient) (broker : Broker) (spec : TopicSpec) : Except AdminError Bool :=
  if spec.config.keys.isEmpty then .ok false
  else (client.describeConfigs broker spec.name).map fun current =>
    !(Admin.drift spec current).isEmpty

/-- A part of an entry's step: what it reports, and what it leaves alone. -/
structure Stepped (client : AdminClient) (dryRun : Bool) (spec : TopicSpec) (admin later : Admin)
    (entry : ReconcileResult) : Prop where
  result : later.result = admin.result.append entry
  others : ∀ name ≠ spec.name,
    client.describeConfigs later.broker name = client.describeConfigs admin.broker name
  dry : dryRun = true → later.broker = admin.broker ∧ later.writes = admin.writes

theorem Stepped.refl : Stepped client dryRun spec admin admin {} :=
  ⟨admin.result.append_empty.symm, fun _ _ => rfl, fun _ => ⟨rfl, rfl⟩⟩

theorem Stepped.trans {between : Admin} {first second : ReconcileResult}
    (before : Stepped client dryRun spec admin between first)
    (after : Stepped client dryRun spec between later second) :
    Stepped client dryRun spec admin later (first.append second) where
  result := by rw [after.result, before.result, ReconcileResult.append_assoc]
  others name other := (after.others name other).trans (before.others name other)
  dry isDry := ⟨(after.dry isDry).1.trans (before.dry isDry).1,
    (after.dry isDry).2.trans (before.dry isDry).2⟩

theorem stepped_report {note : ReconcileResult → ReconcileResult} {entry : ReconcileResult}
    (adds : ∀ r, note r = r.append entry) :
    Stepped client dryRun spec admin (admin.report note) entry :=
  ⟨adds admin.result, fun _ _ => rfl, fun _ => ⟨rfl, rfl⟩⟩

/-- A dry write changes nothing, and a real one is what the client performs. -/
theorem write_done {request : Write} (done : client.write admin dryRun request = .ok later) :
    dryRun = true ∧ later = admin ∨ dryRun = false ∧ ∃ broker,
      client.perform admin.broker request = .ok broker ∧
        later = { admin with broker, writes := admin.writes ++ [request] } := by
  rw [write] at done
  split at done
  case isTrue isDry => exact .inl ⟨isDry, (Except.ok.inj done).symm⟩
  case isFalse real =>
    cases sent : client.perform admin.broker request with
    | error e => simp [sent] at done
    | ok broker =>
      simp only [sent, Except.ok.injEq] at done
      exact .inr ⟨by simpa using real, broker, rfl, done.symm⟩

theorem write_stepped {request : Write} (topic : request.topic = spec.name)
    (done : client.write admin dryRun request = .ok later) :
    Stepped client dryRun spec admin later {} := by
  obtain ⟨_, rfl⟩ | ⟨real, broker, sent, rfl⟩ := write_done done
  · exact .refl
  · exact ⟨admin.result.append_empty.symm,
      fun name other => client.describe_other sent (topic ▸ other), fun isDry => by simp [real] at isDry⟩

theorem write_reported {request : Write} {note : ReconcileResult → ReconcileResult}
    {entry : ReconcileResult} (topic : request.topic = spec.name)
    (done : client.write admin dryRun request = .ok later) (adds : ∀ r, note r = r.append entry) :
    Stepped client dryRun spec admin (later.report note) entry := by
  have both := (write_stepped topic done).trans (stepped_report adds)
  rwa [ReconcileResult.empty_append] at both

theorem write_grown {name : String} {total : ℕ+}
    (done : client.write admin dryRun (.createPartitions name total) = .ok later) :
    client.describeConfigs later.broker name = client.describeConfigs admin.broker name := by
  obtain ⟨_, rfl⟩ | ⟨_, broker, sent, rfl⟩ := write_done done
  · rfl
  · exact client.describe_grown sent

theorem grow_stepped {current : ℕ} {grown : Bool}
    (done : client.grow admin dryRun spec current = .ok (later, grown)) :
    Stepped client dryRun spec admin later (spec.grownEntry current) ∧
      grown = decide (current < spec.partitions) ∧
      client.describeConfigs later.broker spec.name =
        client.describeConfigs admin.broker spec.name := by
  rw [grow] at done
  split at done
  case isTrue grows =>
    have entry : spec.grownEntry current = { partitionsGrown := [spec.name] } := by
      simp [TopicSpec.grownEntry, TopicSpec.named, grows, grows.not_gt]
    cases sent : client.write admin dryRun (.createPartitions spec.name spec.partitions) with
    | error e => simp [sent, bind, Except.bind] at done
    | ok wider =>
      simp only [sent, bind, Except.bind, pure, Except.pure] at done
      cases done
      have kept := write_grown sent
      refine ⟨write_reported rfl sent fun r => ?_, by simp [grows], kept⟩
      simp [entry, ReconcileResult.append]
  case isFalse fits =>
    split at done
    case isTrue shrinks =>
      cases done
      have entry : spec.grownEntry current = { refused := [spec.name] } := by
        simp [TopicSpec.grownEntry, TopicSpec.named, fits, shrinks]
      exact ⟨stepped_report fun r => by simp [entry, ReconcileResult.append], by simp [fits], rfl⟩
    case isFalse same =>
      cases done
      have entry : spec.grownEntry current = {} := by
        simp [TopicSpec.grownEntry, TopicSpec.named, fits, same]
      exact ⟨entry ▸ .refl, by simp [fits], rfl⟩

theorem updateConfig_stepped {updated : Bool}
    (done : client.updateConfig admin dryRun spec = .ok (later, updated)) :
    Stepped client dryRun spec admin later { configsUpdated := spec.named updated } ∧
      client.drifted admin.broker spec = .ok updated := by
  rw [updateConfig] at done
  rw [drifted]
  split at done
  case isTrue empty =>
    cases done
    exact ⟨.refl, if_pos empty⟩
  case isFalse some_ =>
    rw [if_neg some_]
    cases read : client.describeConfigs admin.broker spec.name with
    | error e => simp [read, bind, Except.bind] at done
    | ok current =>
      simp only [read, bind, Except.bind] at done
      split at done
      case isTrue same =>
        cases done
        exact ⟨.refl, by simp [Except.map, same]⟩
      case isFalse drifts =>
        cases sent : client.write admin dryRun (.alterConfigs spec.name spec.config) with
        | error e => simp [sent] at done
        | ok altered =>
          simp only [sent, pure, Except.pure] at done
          cases done
          refine ⟨write_reported rfl sent fun r => ?_, by simp [Except.map, drifts]⟩
          simp [ReconcileResult.append, TopicSpec.named]

theorem create_stepped (done : client.create admin dryRun spec = .ok later) :
    Stepped client dryRun spec admin later { created := [spec.name] } := by
  rw [create] at done
  cases sent : client.write admin dryRun
      (.createTopics spec.name spec.partitions spec.replicationFactor spec.config) with
  | error e => simp [sent, bind, Except.bind] at done
  | ok created =>
    simp only [sent, bind, Except.bind, pure, Except.pure] at done
    cases done
    exact write_reported rfl sent fun r => by simp [ReconcileResult.append]

/-- `not topic_changed and spec.name not in result.refused`, of an entry that was not refused
before: it asks for the partitions there are, and its config is not updated. -/
theorem unchanged_eq {current : ℕ} {updated : Bool} (fresh : spec.name ∉ admin.result.refused)
    (stepped : Stepped client dryRun spec admin later
      ((spec.grownEntry current).append { configsUpdated := spec.named updated })) :
    (!(decide (current < spec.partitions) || updated) && !later.result.refused.contains spec.name) =
      (decide (current = spec.partitions) && !updated) := by
  have refused : spec.name ∈ later.result.refused ↔ spec.partitions < current := by
    rw [stepped.result]
    by_cases shrinks : (spec.partitions : ℕ) < current <;>
      simp [ReconcileResult.append, TopicSpec.grownEntry, TopicSpec.named, fresh, shrinks]
  rw [Bool.eq_iff_iff]
  simp only [Bool.and_eq_true, Bool.not_eq_true', Bool.or_eq_false_iff, decide_eq_false_iff_not,
    List.contains_eq_mem, refused, decide_eq_true_eq]
  constructor
  · rintro ⟨⟨fits, same⟩, kept⟩
    exact ⟨by omega, same⟩
  · rintro ⟨equal, same⟩
    exact ⟨⟨by omega, same⟩, by omega⟩

/-- A step reports the entry's verdict, on the topic's config as it was before the step. -/
theorem reconcileTopic_stepped {existing : String → Option ℕ}
    (fresh : spec.name ∉ admin.result.refused)
    (done : client.reconcileTopic dryRun existing admin spec = .ok later) :
    ∃ drifted, (existing spec.name ≠ none → client.drifted admin.broker spec = .ok drifted) ∧
      Stepped client dryRun spec admin later (spec.verdict (existing spec.name) drifted) := by
  cases held : existing spec.name with
  | none =>
    simp only [reconcileTopic, held] at done
    exact ⟨false, fun absent => absurd rfl absent, create_stepped done⟩
  | some current =>
    simp only [reconcileTopic, held, bind, Except.bind] at done
    cases grew : client.grow admin dryRun spec current with
    | error e => simp [grew] at done
    | ok wider =>
      simp only [grew] at done
      cases altered : client.updateConfig wider.1 dryRun spec with
      | error e => simp [altered] at done
      | ok last =>
        simp only [altered] at done
        obtain ⟨growth, grown, sameConfig⟩ := grow_stepped grew
        obtain ⟨update, drifts⟩ := updateConfig_stepped altered
        have read : client.drifted admin.broker spec = .ok last.2 := by
          rw [← drifts, drifted, drifted, sameConfig]
        have both := growth.trans update
        refine ⟨last.2, fun _ => read, ?_⟩
        rw [grown, unchanged_eq fresh both] at done
        rw [TopicSpec.verdict_some]
        split at done
        case isTrue same =>
          cases done
          rw [same]
          exact both.trans (stepped_report fun r => by simp [ReconcileResult.append, TopicSpec.named])
        case isFalse changed =>
          cases done
          rw [Bool.eq_false_of_not_eq_true changed]
          exact both.trans .refl

/-! ### The dry run -/

/-- An entry's verdict on a broker. -/
def verdict (client : AdminClient) (broker : Broker) (existing : String → Option ℕ)
    (spec : TopicSpec) : ReconcileResult :=
  spec.verdict (existing spec.name) ((client.drifted broker spec).toOption.getD false)

def verdicts (client : AdminClient) (broker : Broker) (existing : String → Option ℕ)
    (specs : List TopicSpec) (result : ReconcileResult) : ReconcileResult :=
  specs.foldl (fun r spec => r.append (client.verdict broker existing spec)) result

theorem verdict_eq {existing : String → Option ℕ} {broker : Broker} {drifted : Bool}
    (read : existing spec.name ≠ none → client.drifted broker spec = .ok drifted) :
    spec.verdict (existing spec.name) drifted = client.verdict broker existing spec := by
  cases held : existing spec.name with
  | none => simp [verdict, TopicSpec.verdict, held]
  | some current => simp [verdict, held, read (by simp [held]), Except.toOption]

theorem drifted_congr {broker : Broker}
    (same : client.describeConfigs admin.broker spec.name = client.describeConfigs broker spec.name) :
    client.drifted admin.broker spec = client.drifted broker spec := by
  rw [drifted, drifted, same]

theorem verdict_refused {existing : String → Option ℕ} {broker : Broker} :
    (client.verdict broker existing spec).refused ⊆ [spec.name] := by
  cases held : existing spec.name with
  | none => simp [verdict, TopicSpec.verdict, held]
  | some current =>
    simp only [verdict, TopicSpec.verdict, held, TopicSpec.grownEntry, TopicSpec.named]
    split <;> simp

theorem grow_dry_ok (admin : Admin) (current : ℕ) :
    ∃ wider grown, client.grow admin true spec current = .ok (wider, grown) ∧
      wider.broker = admin.broker := by
  rw [grow]
  split
  · exact ⟨_, true, rfl, rfl⟩
  · split
    · exact ⟨_, false, rfl, rfl⟩
    · exact ⟨_, false, rfl, rfl⟩

theorem updateConfig_dry_ok {drifts : Bool} (read : client.drifted admin.broker spec = .ok drifts) :
    ∃ last updated, client.updateConfig admin true spec = .ok (last, updated) := by
  rw [drifted] at read
  rw [updateConfig]
  split
  case isTrue => exact ⟨_, _, rfl⟩
  case isFalse named =>
    rw [if_neg named] at read
    cases config : client.describeConfigs admin.broker spec.name with
    | error e => simp [config, Except.map] at read
    | ok stored =>
      simp only [bind, Except.bind]
      split
      · exact ⟨_, _, rfl⟩
      · exact ⟨_, _, rfl⟩

/-- A dry run gets through an entry whose config it can read. -/
theorem reconcileTopic_dry_ok (admin : Admin) {existing : String → Option ℕ} {drifts : Bool}
    (read : existing spec.name ≠ none → client.drifted admin.broker spec = .ok drifts) :
    ∃ later, client.reconcileTopic true existing admin spec = .ok later := by
  cases held : existing spec.name with
  | none => exact ⟨_, by simp [reconcileTopic, held, create, write, bind, Except.bind]; rfl⟩
  | some current =>
    obtain ⟨wider, grown, grew, same⟩ := @grow_dry_ok client spec admin current
    obtain ⟨last, updated, altered⟩ :=
      updateConfig_dry_ok (same ▸ read (by simp [held]) : client.drifted wider.broker spec = .ok drifts)
    simp only [reconcileTopic, held, grew, altered, bind, Except.bind]
    split
    · exact ⟨_, rfl⟩
    · exact ⟨_, rfl⟩

/-- Both runs report the verdicts on the broker as it was before the first entry. -/
theorem attempts_report {existing : String → Option ℕ} {broker : Broker} {specs : List TopicSpec}
    {dry : Admin} (same : dry.result = admin.result)
    (untouched : dry.broker = broker ∧ dry.writes = [])
    (fresh : ∀ spec ∈ specs, spec.name ∉ admin.result.refused)
    (configs : ∀ spec ∈ specs,
      client.describeConfigs admin.broker spec.name = client.describeConfigs broker spec.name)
    (distinct : (specs.map TopicSpec.name).Nodup)
    (completes : (attempt (client.reconcileTopic false existing) admin specs).2 = none) :
    let preview := attempt (client.reconcileTopic true existing) dry specs
    preview.2 = none ∧ preview.1.broker = broker ∧ preview.1.writes = [] ∧
      preview.1.result = client.verdicts broker existing specs admin.result ∧
      (attempt (client.reconcileTopic false existing) admin specs).1.result =
        client.verdicts broker existing specs admin.result := by
  induction specs generalizing admin dry with
  | nil => exact ⟨rfl, untouched.1, untouched.2, same, rfl⟩
  | cons spec rest ih =>
    obtain ⟨freshHere, freshRest⟩ := List.forall_mem_cons.mp fresh
    obtain ⟨configHere, configRest⟩ := List.forall_mem_cons.mp configs
    obtain ⟨away, distinct⟩ := List.nodup_cons.mp distinct
    cases step : client.reconcileTopic false existing admin spec with
    | error e => simp [attempt, step] at completes
    | ok later =>
      rw [attempt_cons step] at completes ⊢
      obtain ⟨drifts, read, stepped⟩ := reconcileTopic_stepped freshHere step
      rw [drifted_congr configHere] at read
      rw [verdict_eq read] at stepped
      obtain ⟨previewed, dryStep⟩ := reconcileTopic_dry_ok dry (untouched.1.symm ▸ read)
      rw [attempt_cons dryStep, verdicts, List.foldl_cons, ← verdicts]
      obtain ⟨dryDrifts, dryRead, dryStepped⟩ := reconcileTopic_stepped (same ▸ freshHere) dryStep
      rw [untouched.1] at dryRead
      rw [verdict_eq dryRead] at dryStepped
      rw [← stepped.result]
      refine ih ?_ ?_ ?_ ?_ distinct completes
      · rw [dryStepped.result, stepped.result, same]
      · obtain ⟨sameBroker, sameWrites⟩ := dryStepped.dry rfl
        exact ⟨sameBroker.trans untouched.1, sameWrites.trans untouched.2⟩
      · intro other member refused
        rw [stepped.result] at refused
        obtain early | here := List.mem_append.mp refused
        · exact freshRest other member early
        · obtain name := List.mem_singleton.mp (verdict_refused here)
          exact away (List.mem_map.mpr ⟨other, member, name⟩)
      · intro other member
        have different : other.name ≠ spec.name := fun name =>
          away (List.mem_map.mpr ⟨other, member, name⟩)
        exact (stepped.others _ different).trans (configRest other member)

theorem mem_verdicts (list : ReconcileResult → List String)
    (adds : ∀ r s, list (r.append s) = list r ++ list s) {broker : Broker}
    {existing : String → Option ℕ} {name : String} {specs : List TopicSpec}
    (result : ReconcileResult) : name ∈ list (client.verdicts broker existing specs result) ↔
      name ∈ list result ∨ ∃ spec ∈ specs, name ∈ list (client.verdict broker existing spec) := by
  induction specs generalizing result with
  | nil => simp [verdicts]
  | cons spec rest ih => rw [verdicts, List.foldl_cons, ← verdicts, ih, adds]; simp [or_assoc]

end AdminClient

/-- The name is in a list that stands for a change or a refusal. -/
def ReconcileResult.Elsewhere (result : ReconcileResult) (name : String) : Prop :=
  name ∈ result.created ∨ name ∈ result.partitionsGrown ∨ name ∈ result.configsUpdated ∨
    name ∈ result.refused

namespace AdminClient
variable {client : AdminClient} {spec : TopicSpec}

theorem verdict_named {broker : Broker} {existing : String → Option ℕ} {name : String}
    (member : name ∈ (client.verdict broker existing spec).unchanged ∨
      (client.verdict broker existing spec).Elsewhere name) : name = spec.name := by
  cases held : existing spec.name with
  | none => simpa [verdict, TopicSpec.verdict, held, ReconcileResult.Elsewhere] using member
  | some current =>
    simp only [verdict, TopicSpec.verdict, TopicSpec.grownEntry, held, ReconcileResult.Elsewhere,
      TopicSpec.mem_named, List.not_mem_nil, false_or] at member
    obtain both | both | both | both := member <;> exact both.2

/-- An entry is reported as unchanged or elsewhere, and not as both. -/
theorem verdict_covers (client : AdminClient) (broker : Broker) (existing : String → Option ℕ)
    (spec : TopicSpec) :
    spec.name ∈ (client.verdict broker existing spec).unchanged ↔
      ¬ (client.verdict broker existing spec).Elsewhere spec.name := by
  cases held : existing spec.name with
  | none => simp [verdict, TopicSpec.verdict, held, ReconcileResult.Elsewhere]
  | some current =>
    simp only [verdict, TopicSpec.verdict, TopicSpec.grownEntry, held, ReconcileResult.Elsewhere,
      TopicSpec.mem_named, List.not_mem_nil, false_or, and_true]
    cases (client.drifted broker spec).toOption.getD false with
    | true => simp
    | false =>
      simp only [Bool.not_false, Bool.and_true, decide_eq_true_eq, Bool.false_eq_true, false_or]
      omega

theorem elsewhere_verdicts {broker : Broker} {existing : String → Option ℕ} {name : String}
    {specs : List TopicSpec} : (client.verdicts broker existing specs {}).Elsewhere name ↔
      ∃ spec ∈ specs, (client.verdict broker existing spec).Elsewhere name := by
  simp only [ReconcileResult.Elsewhere, mem_verdicts ReconcileResult.created fun _ _ => rfl,
    mem_verdicts ReconcileResult.partitionsGrown fun _ _ => rfl,
    mem_verdicts ReconcileResult.configsUpdated fun _ _ => rfl,
    mem_verdicts ReconcileResult.refused fun _ _ => rfl, List.not_mem_nil, false_or, and_or_left,
    exists_or]

theorem unchanged_verdicts {broker : Broker} {existing : String → Option ℕ} {name : String}
    {specs : List TopicSpec} : name ∈ (client.verdicts broker existing specs {}).unchanged ↔
      ∃ spec ∈ specs, name ∈ (client.verdict broker existing spec).unchanged := by
  simp only [mem_verdicts ReconcileResult.unchanged fun _ _ => rfl, List.not_mem_nil, false_or]

theorem verdicts_cover {broker : Broker} {existing : String → Option ℕ} {specs : List TopicSpec}
    (member : spec ∈ specs) : spec.name ∈ (client.verdicts broker existing specs {}).unchanged ∨
      (client.verdicts broker existing specs {}).Elsewhere spec.name := by
  rw [unchanged_verdicts, elsewhere_verdicts]
  by_cases elsewhere : (client.verdict broker existing spec).Elsewhere spec.name
  · exact .inr ⟨spec, member, elsewhere⟩
  · exact .inl ⟨spec, member, (client.verdict_covers broker existing spec).mpr elsewhere⟩

theorem verdicts_separate {broker : Broker} {existing : String → Option ℕ} {specs : List TopicSpec}
    {name : String} (distinct : (specs.map TopicSpec.name).Nodup)
    (unchanged : name ∈ (client.verdicts broker existing specs {}).unchanged) :
    ¬ (client.verdicts broker existing specs {}).Elsewhere name := by
  rw [elsewhere_verdicts]
  rintro ⟨other, there, elsewhere⟩
  obtain ⟨spec, here, unchanged⟩ := unchanged_verdicts.mp unchanged
  obtain rfl := verdict_named (.inl unchanged)
  obtain rfl := List.inj_on_of_nodup_map distinct here there (verdict_named (.inr elsewhere))
  exact (client.verdict_covers broker existing spec).mp unchanged elsewhere

end AdminClient

/-- What a dry run is for. -/
structure Previews (client : AdminClient) (broker : Broker) (specs : List TopicSpec) : Prop where
  silent : (client.reconcile true broker specs).1.writes = []
  untouched : (client.reconcile true broker specs).1.broker = broker
  completes : (client.reconcile true broker specs).2 = none
  same : (client.reconcile true broker specs).1.result = (client.reconcile false broker specs).1.result
  covered : ∀ spec ∈ specs,
    spec.name ∈ (client.reconcile false broker specs).1.result.unchanged ∨
      (client.reconcile false broker specs).1.result.Elsewhere spec.name
  separate : ∀ name ∈ (client.reconcile false broker specs).1.result.unchanged,
    ¬ (client.reconcile false broker specs).1.result.Elsewhere name

/-- A dry run writes nothing and reports what the run does, for entries of distinct names
and any broker on which that run completes. -/
theorem dry_run_previews (client : AdminClient) (broker : Broker) (specs : List TopicSpec)
    (distinct : (specs.map TopicSpec.name).Nodup)
    (completes : (client.reconcile false broker specs).2 = none) :
    Previews client broker specs := by
  have fresh : ∀ spec ∈ specs, spec.name ∉ ({ broker } : Admin).result.refused := by simp
  obtain ⟨done, untouched, silent, previewed, reported⟩ := client.attempts_report
    (rfl : ({ broker } : Admin).result = _) ⟨rfl, rfl⟩ fresh (fun _ _ => rfl) distinct completes
  have result : (client.reconcile false broker specs).1.result =
    client.verdicts broker (existingPartitionCounts broker) specs {} := reported
  refine ⟨silent, untouched, done, previewed.trans reported.symm, ?_, ?_⟩
  · intro spec member
    rw [result]
    exact AdminClient.verdicts_cover member
  · intro name unchanged
    rw [result] at unchanged ⊢
    exact AdminClient.verdicts_separate distinct unchanged

/-- A topic to grow and one to create. -/
theorem dry_run_previews_two :
    let broker : Broker := Function.update (fun _ => none) "otel.spans" (some ⟨1, fun _ => none⟩)
    let specs : List TopicSpec :=
      [{ name := "otel.spans", partitions := 6 }, { name := "otel.metrics", partitions := 3 }]
    Previews .setting broker specs :=
  dry_run_previews _ _ _ (by decide) rfl

end TelemetryEngine.Ingest
