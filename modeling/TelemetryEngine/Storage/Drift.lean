import TelemetryEngine.Storage.MigrationRuns

/-! Files that were edited after they were applied. A run that applies migrations reports
them and leaves them alone, but for the first file, which it runs again and calls applied;
the preview of a run calls them pending. -/
namespace TelemetryEngine.Storage
open Foundation Foundation.ReplacingTable

variable {Stmt : Type} {files : List (Migration Stmt)} {rows : List Recorded}
  {already : String → Option String} {m : Migration Stmt}

/-! ### The preview -/

/-- Two results name the same files in each of their lists. -/
structure MigrationResult.Agrees (result other : MigrationResult) : Prop where
  applied : ∀ name, name ∈ result.applied ↔ name ∈ other.applied
  skipped : ∀ name, name ∈ result.skipped ↔ name ∈ other.skipped
  drifted : ∀ name, name ∈ result.drifted ↔ name ∈ other.drifted

theorem MigrationResult.Agrees.refl (result : MigrationResult) : result.Agrees result :=
  ⟨fun _ => Iff.rfl, fun _ => Iff.rfl, fun _ => Iff.rfl⟩

theorem preview_fold (result : MigrationResult) (migrations : List (Migration Stmt)) :
    migrations.foldl (fun result m =>
      if already m.name = some m.checksum then { result with skipped := result.skipped ++ [m.name] }
      else { result with applied := result.applied ++ [m.name] }) result =
    { result with
      applied := result.applied ++ namesWhere (fun m => !m.current already) migrations
      skipped := result.skipped ++ namesWhere (Migration.current already) migrations } := by
  induction migrations generalizing result with
  | nil => simp [namesWhere]
  | cons m rest ih =>
    rw [List.foldl_cons, ih]
    by_cases same : already m.name = some m.checksum <;>
      simp [namesWhere, Migration.current, same]

theorem dryRun_eq (files : List (Migration Stmt)) (answer : Option (String → Option String)) :
    dryRun (some files) answer = .ok
      { applied := namesWhere (fun m => !m.current (answer.getD fun _ => none)) (sqlFiles files)
        skipped := namesWhere (Migration.current (answer.getD fun _ => none)) (sqlFiles files) } := by
  have fold := @preview_fold _ (answer.getD fun _ => none) {} (sqlFiles files)
  exact congrArg Except.ok fold

/-- A missing table answers as an empty one. -/
theorem answer_getD (table : Option (List Recorded)) :
    ((table.map appliedChecksums).getD fun _ => none) = appliedChecksums (table.getD []) := by
  cases table with
  | none => rfl
  | some rows => rfl

theorem mem_namesWhere {selects : Migration Stmt → Bool} {migrations : List (Migration Stmt)}
    {name : String} : name ∈ namesWhere selects migrations ↔
      ∃ m ∈ migrations, selects m = true ∧ m.name = name := by
  simp [namesWhere, and_assoc]

/-- Whatever else the bookkeeping says, a file that did not drift is pending or current. -/
theorem pending_of_undrifted (undrifted : m.drifted already = false) :
    m.pending already = !m.current already := by
  rw [Migration.drifted] at undrifted
  cases pending : m.pending already with
  | false => simpa [pending] using undrifted
  | true =>
    have absent : already m.name = none := by simpa [Migration.pending] using pending
    simp [Migration.current, absent]

/-- The preview and a run right after it that fails nowhere. `none` stands for a table
that is not there. -/
def Predicts (files : List (Migration Stmt)) (table : Option (List Recorded)) : Prop :=
  ∃ preview result, dryRun (some files) (table.map appliedChecksums) = .ok preview ∧
    (planned files (table.getD [])).outcome = .ok result ∧ preview.Agrees result

/-- The preview predicts the run exactly where no file after the first was edited: it
never fills its list of drifted files. -/
theorem preview_predicts_iff (files : List (Migration Stmt)) (table : Option (List Recorded)) :
    Predicts files table ↔
      ∀ m ∈ (sqlFiles files).drop 1, m.drifted (appliedChecksums (table.getD [])) = false := by
  simp only [Predicts, dryRun_eq, answer_getD, planned]
  cases found : sqlFiles files with
  | nil =>
    refine ⟨fun _ m member => by simp at member, fun _ => ?_⟩
    exact ⟨_, _, rfl, congrArg Traced.outcome (applyAll_empty found), .refl _⟩
  | cons first rest =>
    rw [List.drop_succ_cons, List.drop_zero, applyAll_eq found]
    constructor
    · rintro ⟨_, _, ⟨⟩, ⟨⟩, agrees⟩ m member
      by_contra drifted
      rw [Bool.not_eq_false] at drifted
      have reported := (agrees.drifted m.name).mpr (mem_namesWhere.mpr ⟨m, member, drifted, rfl⟩)
      exact List.not_mem_nil reported
    · intro undrifted
      have none_drifted : namesWhere (Migration.drifted (appliedChecksums (table.getD []))) rest =
          [] := by
        simpa [namesWhere] using undrifted
      have pending : namesWhere (Migration.pending (appliedChecksums (table.getD []))) rest =
          namesWhere (fun m => !m.current (appliedChecksums (table.getD []))) rest :=
        congrArg (List.map Migration.name) (List.filter_congr fun m member =>
          pending_of_undrifted (undrifted m member))
      refine ⟨_, _, rfl, rfl, ?_⟩
      rw [none_drifted, pending]
      simp only [namesWhere, ← List.map_append, ← List.filter_append]
      exact .refl _

/-- A second file that was edited: the preview calls it pending, the run does not apply it. -/
theorem preview_misses_edit :
    let files : List (Migration String) :=
      [⟨"000_database.sql", "a", ["CREATE DATABASE"]⟩, ⟨"010_kafka.sql", "new", ["CREATE TABLE"]⟩]
    let rows : List Recorded := [⟨"000_database.sql", "a", 0⟩, ⟨"010_kafka.sql", "old", 1⟩]
    dryRun (some files) (some (appliedChecksums rows)) =
      .ok { applied := ["010_kafka.sql"], skipped := ["000_database.sql"] } ∧
    (planned files rows).outcome =
      .ok { skipped := ["000_database.sql"], drifted := ["010_kafka.sql"] } ∧
    ¬ Predicts files (some rows) := by
  intro files rows
  have previewed : dryRun (some files) (some (appliedChecksums rows)) =
      .ok { applied := ["010_kafka.sql"], skipped := ["000_database.sql"] } := by decide +kernel
  have ran : (planned files rows).outcome =
      .ok { skipped := ["000_database.sql"], drifted := ["010_kafka.sql"] } := by decide +kernel
  refine ⟨previewed, ran, ?_⟩
  rintro ⟨preview, result, preview_eq, result_eq, agrees⟩
  obtain rfl := Except.ok.inj (previewed.symm.trans preview_eq)
  obtain rfl := Except.ok.inj (ran.symm.trans result_eq)
  exact List.not_mem_nil ((agrees.drifted "010_kafka.sql").mpr (List.mem_singleton_self _))

/-! ### Edited files -/

/-- What a run owes an edited file: a report, no statement of it executed wherever the run
ends, and what is recorded of it. -/
structure Flagged (files : List (Migration Stmt)) (rows : List Recorded) (run : MigrateRun)
    (m : Migration Stmt) : Prop where
  reported : ∃ result, (planned files rows).outcome = .ok result ∧ m.name ∈ result.drifted
  unexecuted : ∀ stmt, .command m.name stmt ∉ run.performed files rows
  kept : appliedChecksums (run.step files rows) m.name = appliedChecksums rows m.name

variable {first : Migration Stmt} {rest : List (Migration Stmt)} {run : MigrateRun} {name : String}

theorem recorded_of_drifted (drifted : m.drifted already = true) : already m.name ≠ none := by
  rw [Migration.drifted, Bool.and_eq_true] at drifted
  simpa [Migration.pending] using drifted.1

/-- Nothing is done for a recorded name among the files after the first. -/
theorem recorded_unexecuted (recorded : already name ≠ none) (stmt : Stmt) :
    .command name stmt ∉ rest.flatMap (fileEffects already) := by
  intro member
  obtain ⟨m, -, performed⟩ := List.mem_flatMap.mp member
  rw [fileEffects] at performed
  split at performed
  case isTrue pending =>
    obtain ⟨rfl, -⟩ : m.name = name ∧ stmt ∈ m.statements := by
      simpa [Migration.commands, and_comm] using performed
    exact recorded pending
  case isFalse => simp at performed

theorem recorded_untouched (recorded : already name ≠ none) :
    Untouched name (rest.flatMap (fileEffects already)) := by
  intro checksum member
  obtain ⟨m, -, performed⟩ := List.mem_flatMap.mp member
  by_cases same : name = m.name
  · rw [fileEffects, if_neg (same ▸ recorded)] at performed
    exact List.not_mem_nil performed
  · exact fileEffects_untouched already same checksum performed

theorem Untouched.performed (untouched : Untouched name (planned files rows).trace) :
    Untouched name (run.performed files rows) := fun checksum member =>
  untouched checksum ((performed_begins files rows run).subset member)

theorem rest_flagged (found : sqlFiles files = first :: rest)
    (distinct : (files.map Migration.name).Nodup) (member : m ∈ rest)
    (drifted : m.drifted (appliedChecksums rows) = true) (run : MigrateRun) :
    Flagged files rows run m := by
  have recorded := recorded_of_drifted drifted
  have different := first_distinct found distinct member
  have trace : (planned files rows).trace = opening (appliedChecksums rows) first ++
      rest.flatMap (fileEffects (appliedChecksums rows)) := planned_cons found
  constructor
  case reported =>
    refine ⟨_, congrArg Traced.outcome (applyAll_eq found), ?_⟩
    exact mem_namesWhere.mpr ⟨m, member, drifted, rfl⟩
  case unexecuted =>
    intro stmt executed
    have planned := (performed_begins files rows run).subset executed
    rw [trace, List.mem_append] at planned
    obtain opened | later := planned
    · rw [opening, bootstrapRecord] at opened
      split at opened <;> simp [Migration.commands, different.symm] at opened
    · exact recorded_unexecuted recorded stmt later
  case kept =>
    have untouched : Untouched m.name (planned files rows).trace := by
      rw [trace]
      exact (opening_untouched _ different).append (recorded_untouched recorded)
    rw [appliedChecksums, appliedChecksums, MigrateRun.step, untouched.performed.store]

theorem first_unreported (found : sqlFiles files = first :: rest)
    (distinct : (files.map Migration.name).Nodup) : ¬ Flagged files rows run first := by
  intro flagged
  obtain ⟨result, outcome, reported⟩ := flagged.reported
  obtain rfl := Except.ok.inj ((congrArg Traced.outcome (applyAll_eq found)).symm.trans outcome)
  obtain ⟨m, member, -, same⟩ := mem_namesWhere.mp reported
  exact first_distinct found distinct member same

/-- Every edited file is flagged, wherever runs end, exactly where the first file was not
edited. The others are flagged in any case, and every run begins with the statements of the
first. -/
theorem edited_flagged_iff (files : List (Migration Stmt)) (rows : List Recorded)
    (distinct : (files.map Migration.name).Nodup) :
    ((∀ run, ∀ m ∈ sqlFiles files, m.drifted (appliedChecksums rows) = true →
        Flagged files rows run m) ↔
      ∀ first ∈ (sqlFiles files).take 1, first.drifted (appliedChecksums rows) = false) ∧
    ∀ run : MigrateRun,
      (∀ m ∈ (sqlFiles files).drop 1, m.drifted (appliedChecksums rows) = true →
        Flagged files rows run m) ∧
      ∀ first ∈ (sqlFiles files).take 1,
        first.commands <+: run.performed files rows ∨
          run.performed files rows <+: first.commands := by
  cases found : sqlFiles files with
  | nil => simp
  | cons first rest =>
    refine ⟨⟨fun flagged m member => ?_, fun unedited run m member drifted => ?_⟩, fun run => ⟨?_, ?_⟩⟩
    · obtain rfl : m = first := by simpa using member
      by_contra drifted
      rw [Bool.not_eq_false] at drifted
      exact first_unreported found distinct (flagged ⟨fun _ => 0, none⟩ m List.mem_cons_self drifted)
    · rcases List.mem_cons.mp member with rfl | later
      · have undrifted := unedited m (by simp)
        rw [drifted] at undrifted
        contradiction
      · exact rest_flagged found distinct later drifted run
    · intro m member drifted
      exact rest_flagged found distinct (by simpa using member) drifted run
    · intro m member
      obtain rfl : m = first := by simpa using member
      have begins : m.commands <+: (planned files rows).trace := by
        rw [planned_cons found, opening, List.append_assoc]
        exact List.prefix_append _ _
      exact List.prefix_or_prefix_of_prefix begins (performed_begins files rows run)

/-- A second file that was edited, behind one that was not. -/
theorem edited_flagged_second :
    let second : Migration String := ⟨"010_kafka.sql", "new", ["CREATE TABLE"]⟩
    let files := [⟨"000_database.sql", "a", ["CREATE DATABASE"]⟩, second]
    let rows : List Recorded := [⟨"000_database.sql", "a", 0⟩, ⟨"010_kafka.sql", "old", 1⟩]
    Flagged files rows { clock := fun _ => 2 } second :=
  (edited_flagged_iff _ _ (by decide)).1.mpr (by decide +kernel) _ _ (by decide +kernel) rfl

/-- An edited first file is executed again, recorded with its new checksum and called applied. -/
theorem edited_first_executed :
    let first : Migration String := ⟨"000_database.sql", "new", ["CREATE DATABASE"]⟩
    let rows : List Recorded := [⟨"000_database.sql", "old", 0⟩]
    let run : MigrateRun := { clock := fun _ => 1 }
    first.drifted (appliedChecksums rows) = true ∧
    .command "000_database.sql" "CREATE DATABASE" ∈ run.performed [first] rows ∧
    (planned [first] rows).outcome = .ok { applied := ["000_database.sql"] } ∧
    appliedChecksums (run.step [first] rows) "000_database.sql" = some "new" ∧
    ¬ Flagged [first] rows run first := by
  intro first rows run
  have executed : .command "000_database.sql" "CREATE DATABASE" ∈ run.performed [first] rows := by
    decide +kernel
  exact ⟨by decide, executed, by decide +kernel, by decide +kernel,
    fun flagged => flagged.unexecuted _ executed⟩

end TelemetryEngine.Storage
