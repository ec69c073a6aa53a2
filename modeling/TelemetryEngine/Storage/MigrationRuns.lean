import TelemetryEngine.Storage.Migrations

/-! Migration runs one after another over an unchanged directory, each to its end
or to a statement that fails. -/
namespace TelemetryEngine.Storage
open Foundation Foundation.ReplacingTable

/-- A run fails at the effect after the first `cut`, or at none. `clock` is
`now()` when the row of a file is inserted. -/
structure MigrateRun where
  clock : String → Nat
  cut : Option Nat := none

def Effect.store (clock : String → Nat) (rows : List Recorded) : Effect Stmt → List Recorded
  | .record name checksum => rows ++ [⟨name, checksum, clock name⟩]
  | _ => rows

/-- What a run would do that meets the bookkeeping `rows`. -/
def planned (files : List (Migration Stmt)) (rows : List Recorded) :
    Traced (Effect Stmt) MigrateFailure MigrationResult :=
  applyAll (some files) (appliedChecksums rows)

def MigrateRun.performed (files : List (Migration Stmt)) (rows : List Recorded) (run : MigrateRun) :
    List (Effect Stmt) :=
  match run.cut with
  | none => (planned files rows).trace
  | some k => (planned files rows).trace.take k

def MigrateRun.step (files : List (Migration Stmt)) (rows : List Recorded) (run : MigrateRun) :
    List Recorded :=
  (run.performed files rows).foldl (Effect.store run.clock) rows

def MigrateRun.completes (files : List (Migration Stmt)) (rows : List Recorded)
    (run : MigrateRun) : Bool :=
  run.cut.all ((planned files rows).trace.length ≤ ·)

/-- A file the run has to record: one that is not in the bookkeeping, and the
first one also when it changed. -/
def Awaits (files : List (Migration Stmt)) (rows : List Recorded) (m : Migration Stmt) : Prop :=
  appliedChecksums rows m.name = none ∨
    m ∈ (sqlFiles files).take 1 ∧ appliedChecksums rows m.name ≠ some m.checksum

/-- A run is in order, goes on where earlier ones failed, and once it completes
leaves nothing to the next. -/
structure Orderly (files : List (Migration Stmt)) (rows : List Recorded) (run : MigrateRun) :
    Prop where
  ordered : ∀ earlier m later done stmt, sqlFiles files = earlier ++ m :: later → earlier ≠ [] →
    done ++ [.command m.name stmt] <+: run.performed files rows →
    ∀ before ∈ earlier, Awaits files rows before → .record before.name before.checksum ∈ done
  recorded : ∀ done name checksum,
    done ++ [.record name checksum] <+: run.performed files rows →
    ∃ m ∈ sqlFiles files, m.name = name ∧ m.checksum = checksum ∧ m.commands <:+: done
  once : ∀ m ∈ (sqlFiles files).drop 1, ∀ done stmt,
    done ++ [.command m.name stmt] <+: run.performed files rows →
    ∀ row ∈ done.foldl (Effect.store run.clock) rows,
      ¬ (row.filename = m.name ∧ row.checksum = m.checksum)
  settles : run.completes files rows = true →
    ∃ reported again, (planned files rows).outcome = .ok reported ∧
      planned files (run.step files rows) =
        ⟨((sqlFiles files).take 1).flatMap Migration.commands ++ [.createBookkeeping],
          .ok again⟩ ∧
      again.applied = [] ∧ again.drifted = reported.drifted

/-- A run that is to record the first file finds no later row of it. -/
def InStep (files : List (Migration Stmt)) (rows : List Recorded) (run : MigrateRun) : Prop :=
  run.completes files rows = true → ∀ first ∈ (sqlFiles files).take 1,
    appliedChecksums rows first.name ≠ some first.checksum →
    ∀ row ∈ rows, row.filename = first.name → row.appliedAt ≤ run.clock first.name

instance (files : List (Migration Stmt)) (rows : List Recorded) (run : MigrateRun) :
    Decidable (InStep files rows run) := by
  unfold InStep
  infer_instance

/-! ### Where a run can end -/

/-- What is done before the files after the first. -/
def opening (already : String → Option String) (first : Migration Stmt) : List (Effect Stmt) :=
  first.commands ++ .createBookkeeping :: bootstrapRecord already first

/-- An effect of a run and what was done before it. -/
inductive Reached (already : String → Option String) (first : Migration Stmt)
    (rest : List (Migration Stmt)) : List (Effect Stmt) → Effect Stmt → Prop
  | bootstrap : done ++ [.command first.name stmt] <+: first.commands →
      Reached already first rest done (.command first.name stmt)
  | bookkeeping : Reached already first rest first.commands .createBookkeeping
  | first : already first.name ≠ some first.checksum →
      Reached already first rest (first.commands ++ [.createBookkeeping])
        (.record first.name first.checksum)
  | command (front m back) : rest = front ++ m :: back → already m.name = none →
      part ++ [.command m.name stmt] <+: m.commands →
      Reached already first rest
        (opening already first ++ front.flatMap (fileEffects already) ++ part)
        (.command m.name stmt)
  | record (front m back) : rest = front ++ m :: back → already m.name = none →
      Reached already first rest
        (opening already first ++ front.flatMap (fileEffects already) ++ m.commands)
        (.record m.name m.checksum)

variable {Stmt : Type} {files rest : List (Migration Stmt)} {first m : Migration Stmt}
  {rows : List Recorded} {run : MigrateRun} {already : String → Option String}
  {clock : String → Nat} {done effects : List (Effect Stmt)} {e : Effect Stmt}

theorem commands_cut (cut : done ++ [e] <+: m.commands) : ∃ stmt, e = .command m.name stmt := by
  obtain ⟨stmt, _, same⟩ := List.mem_map.mp (cut.subset (by simp : e ∈ done ++ [e]))
  exact ⟨stmt, same.symm⟩

theorem single_cut {e f : Effect Stmt} (cut : done ++ [e] <+: [f]) : done = [] ∧ e = f := by
  obtain ⟨tail, same⟩ := cut
  cases done with
  | nil => exact ⟨rfl, (List.cons.inj same).1⟩
  | cons d done => simp at same

theorem planned_cons (found : sqlFiles files = first :: rest) :
    (planned files rows).trace = opening (appliedChecksums rows) first ++
      rest.flatMap (fileEffects (appliedChecksums rows)) := by
  rw [planned, applyAll_eq found]
  simp [opening]

theorem planned_nil (found : sqlFiles files = []) :
    planned files rows = ⟨[.createBookkeeping], .ok {}⟩ := applyAll_empty found

/-- A run performs a beginning of what it plans. -/
theorem performed_begins (files : List (Migration Stmt)) (rows : List Recorded) (run : MigrateRun) :
    run.performed files rows <+: (planned files rows).trace := by
  rw [MigrateRun.performed]
  cases run.cut with
  | none => exact List.prefix_refl _
  | some k => exact List.take_prefix _ _

theorem reached (found : sqlFiles files = first :: rest)
    (cut : done ++ [e] <+: run.performed files rows) :
    Reached (appliedChecksums rows) first rest done e := by
  have cut := cut.trans (performed_begins files rows run)
  rw [planned_cons found] at cut
  rcases prefix_snoc_append cut with inside | ⟨p, rfl, inRest⟩
  · rcases prefix_snoc_append inside with inFirst | ⟨p, rfl, after⟩
    · obtain ⟨stmt, rfl⟩ := commands_cut inFirst
      exact .bootstrap inFirst
    · change p ++ [e] <+: [.createBookkeeping] ++ bootstrapRecord _ first at after
      rcases prefix_snoc_append after with table | ⟨p, rfl, record⟩
      · obtain ⟨rfl, rfl⟩ := single_cut table
        simpa using Reached.bookkeeping
      · rw [bootstrapRecord] at record
        split at record
        case isTrue => simp at record
        case isFalse pending =>
          obtain ⟨rfl, rfl⟩ := single_cut record
          exact .first pending
  · obtain ⟨front, m, back, p, split, rfl, inFile⟩ := prefix_snoc_flatMap inRest
    rw [← List.append_assoc]
    rw [fileEffects] at inFile
    split at inFile
    case isTrue pending =>
      rcases prefix_snoc_append inFile with inCommands | ⟨p, rfl, record⟩
      · obtain ⟨stmt, rfl⟩ := commands_cut inCommands
        exact .command front m back split pending inCommands
      · obtain ⟨rfl, rfl⟩ := single_cut record
        simpa using Reached.record front m back split pending
    case isFalse => simp at inFile

/-! ### What is recorded -/

def Untouched (name : String) (effects : List (Effect Stmt)) : Prop :=
  ∀ checksum, .record name checksum ∉ effects

theorem Untouched.append (first : Untouched name done) (second : Untouched name effects) :
    Untouched name (done ++ effects) := by
  intro checksum member
  rcases List.mem_append.mp member with inside | inside
  · exact first checksum inside
  · exact second checksum inside

theorem commands_untouched (name : String) (m : Migration Stmt) : Untouched name m.commands := by
  simp [Untouched, Migration.commands]

theorem opening_untouched (already : String → Option String) (different : name ≠ first.name) :
    Untouched name (opening already first) := by
  refine (commands_untouched name first).append ?_
  rw [bootstrapRecord]
  split <;> simp [Untouched, different]

theorem fileEffects_untouched (already : String → Option String) (different : name ≠ m.name) :
    Untouched name (fileEffects already m) := by
  rw [fileEffects]
  split
  · exact (commands_untouched name m).append (by simp [Untouched, different])
  · simp [Untouched]

theorem files_untouched (already : String → Option String)
    (different : ∀ m ∈ files, name ≠ m.name) :
    Untouched name (files.flatMap (fileEffects already)) := by
  intro checksum member
  obtain ⟨m, inside, recorded⟩ := List.mem_flatMap.mp member
  exact fileEffects_untouched already (different m inside) checksum recorded

theorem Untouched.store (untouched : Untouched name effects) (clock : String → Nat)
    (rows : List Recorded) :
    Recorded.of (effects.foldl (Effect.store clock) rows) name = Recorded.of rows name := by
  induction effects generalizing rows with
  | nil => rfl
  | cons e effects ih =>
    rw [List.foldl_cons, ih fun checksum member => untouched checksum (by simp [member])]
    cases e with
    | command file stmt => rfl
    | createBookkeeping => rfl
    | record other checksum =>
      have different : other ≠ name := fun same => untouched checksum (by simp [same])
      simp [Effect.store, Recorded.of, different]

theorem store_record (rows : List Recorded) (name checksum : String) :
    Recorded.of (Effect.store clock rows (.record name checksum : Effect Stmt)) name =
      Recorded.of rows name ++ [⟨name, checksum, clock name⟩] := by
  simp [Effect.store, Recorded.of]

theorem appliedChecksums_none {name : String} :
    appliedChecksums rows name = none ↔ Recorded.of rows name = [] := by
  rw [appliedChecksums, Option.map_eq_none_iff, newest_eq_none]

theorem sqlFiles_distinct (distinct : (files.map Migration.name).Nodup) :
    ((sqlFiles files).map Migration.name).Nodup := by
  have sorted := List.perm_insertionSort (fun a b : Migration Stmt => a.name ≤ b.name)
    (files.filter (·.name.endsWith ".sql"))
  exact (sorted.map Migration.name).nodup_iff.mpr (distinct.sublist (List.filter_sublist.map _))

theorem completes_performed (completes : run.completes files rows = true) :
    run.performed files rows = (planned files rows).trace := by
  rw [MigrateRun.completes] at completes
  rw [MigrateRun.performed]
  cases cut : run.cut with
  | none => rfl
  | some k =>
    rw [cut] at completes
    exact List.take_of_length_le (by simpa using completes)

section
variable (found : sqlFiles files = first :: rest) (distinct : (files.map Migration.name).Nodup)
include found distinct

theorem first_distinct (member : m ∈ rest) : m.name ≠ first.name := by
  have names := sqlFiles_distinct distinct
  rw [found, List.map_cons, List.nodup_cons] at names
  exact fun same => names.1 (same ▸ List.mem_map_of_mem member)

theorem around_distinct {front back : List (Migration Stmt)} (split : rest = front ++ m :: back) :
    (∀ other ∈ front, m.name ≠ other.name) ∧ ∀ other ∈ back, m.name ≠ other.name := by
  have names := sqlFiles_distinct distinct
  rw [found, List.map_cons, split, List.map_append, List.map_cons] at names
  have parts := List.nodup_append.mp (List.nodup_cons.mp names).2
  constructor
  · intro other member same
    exact parts.2.2 other.name (List.mem_map_of_mem member) m.name (by simp) same.symm
  · intro other member same
    exact (List.nodup_cons.mp parts.2.1).1 (same ▸ List.mem_map_of_mem member)

theorem completed_first (completes : run.completes files rows = true) :
    Recorded.of (run.step files rows) first.name = Recorded.of rows first.name ++
      if appliedChecksums rows first.name = some first.checksum then []
      else [⟨first.name, first.checksum, run.clock first.name⟩] := by
  have others : Untouched first.name (rest.flatMap (fileEffects (appliedChecksums rows))) :=
    files_untouched _ fun m member => (first_distinct found distinct member).symm
  rw [MigrateRun.step, completes_performed completes, planned_cons found, List.foldl_append,
    others.store, opening, List.foldl_append, List.foldl_cons, bootstrapRecord]
  have commands := (commands_untouched first.name first).store run.clock rows
  split
  · rw [List.append_nil]
    exact commands
  · rw [List.foldl_cons, List.foldl_nil, store_record]
    exact congrArg (· ++ _) commands

theorem completed_rest (completes : run.completes files rows = true) (member : m ∈ rest) :
    appliedChecksums (run.step files rows) m.name =
      some ((appliedChecksums rows m.name).getD m.checksum) := by
  obtain ⟨front, back, split⟩ := List.append_of_mem member
  have different := first_distinct found distinct member
  obtain ⟨before, after⟩ := around_distinct found distinct split
  have file : Recorded.of (run.step files rows) m.name = Recorded.of
      ((fileEffects (appliedChecksums rows) m).foldl (Effect.store run.clock)
        ((opening (appliedChecksums rows) first ++
          front.flatMap (fileEffects (appliedChecksums rows))).foldl (Effect.store run.clock) rows))
      m.name := by
    rw [MigrateRun.step, completes_performed completes, planned_cons found, split,
      List.flatMap_append, List.flatMap_cons, ← List.append_assoc, List.foldl_append,
      List.foldl_append, (files_untouched _ after).store]
  have opened := ((opening_untouched (appliedChecksums rows) different).append
    (files_untouched (appliedChecksums rows) before)).store run.clock rows
  rw [fileEffects] at file
  cases recorded : appliedChecksums rows m.name with
  | none =>
    rw [if_pos recorded, List.foldl_append, List.foldl_cons, List.foldl_nil, store_record,
      (commands_untouched m.name m).store, opened, appliedChecksums_none.mp recorded] at file
    rw [appliedChecksums, file]
    rfl
  | some prior =>
    rw [if_neg (by simp [recorded]), List.foldl_nil, opened] at file
    rw [appliedChecksums, file]
    exact recorded

theorem same_split {other : Migration Stmt} {earlier later front back : List (Migration Stmt)}
    (known : rest = earlier ++ m :: later) (split : rest = front ++ other :: back)
    (same : other.name = m.name) : earlier = front := by
  obtain ⟨before, after⟩ := around_distinct found distinct split
  rw [known] at split
  rcases List.append_eq_append_iff.mp split with ⟨between, rfl, tail⟩ | ⟨between, rfl, tail⟩
  · cases between with
    | nil => simp
    | cons next between =>
      obtain ⟨rfl, _⟩ := List.cons.inj tail
      exact absurd same (before m (by simp))
  · cases between with
    | nil => simp
    | cons next between =>
      obtain ⟨rfl, rfl⟩ := List.cons.inj tail
      exact absurd same (after m (by simp))

/-! ### The properties of a run -/

theorem run_ordered {earlier later : List (Migration Stmt)} {stmt : Stmt}
    (known : sqlFiles files = earlier ++ m :: later) (nonempty : earlier ≠ [])
    (cut : done ++ [.command m.name stmt] <+: run.performed files rows) :
    ∀ before ∈ earlier, Awaits files rows before → .record before.name before.checksum ∈ done := by
  intro before member awaits
  generalize command : Effect.command m.name stmt = e at cut
  rw [found] at known
  obtain ⟨head, earlier, rfl⟩ := List.exists_cons_of_ne_nil nonempty
  obtain ⟨rfl, tail⟩ := List.cons.inj known
  cases reached found cut with
  | bootstrap inside =>
    exact absurd (Effect.command.inj command).1
      (first_distinct found distinct (by simp [tail] : m ∈ rest))
  | bookkeeping => nomatch command
  | first pending => nomatch command
  | record front m' back split pending => nomatch command
  | command front m' back split pending inside =>
    obtain rfl := same_split found distinct tail split (Effect.command.inj command).1.symm
    have firstRecorded (awaits : appliedChecksums rows first.name ≠ some first.checksum) :
        .record first.name first.checksum ∈ opening (appliedChecksums rows) first := by
      simp [opening, bootstrapRecord, awaits]
    rw [List.append_assoc, List.mem_append, List.mem_append]
    rcases awaits with absent | ⟨isFirst, changed⟩
    · rcases List.mem_cons.mp member with rfl | inFront
      · exact .inl (firstRecorded (by simp [absent]))
      · refine .inr (.inl (List.mem_flatMap.mpr ⟨before, inFront, ?_⟩))
        simp [fileEffects, absent]
    · rw [found, List.take_succ_cons, List.take_zero, List.mem_singleton] at isFirst
      exact .inl (isFirst ▸ firstRecorded (isFirst ▸ changed))

omit distinct in
theorem run_recorded {name checksum : String}
    (cut : done ++ [.record name checksum] <+: run.performed files rows) :
    ∃ m ∈ sqlFiles files, m.name = name ∧ m.checksum = checksum ∧ m.commands <:+: done := by
  generalize record : Effect.record name checksum = e at cut
  rw [found]
  cases reached found cut with
  | bootstrap inside => nomatch record
  | bookkeeping => nomatch record
  | command front m back split pending inside => nomatch record
  | first pending =>
    obtain ⟨rfl, rfl⟩ := Effect.record.inj record
    exact ⟨first, by simp, rfl, rfl, (List.prefix_append _ _).isInfix⟩
  | record front m back split pending =>
    obtain ⟨rfl, rfl⟩ := Effect.record.inj record
    exact ⟨m, by simp [split], rfl, rfl, (List.suffix_append _ _).isInfix⟩

theorem run_once {stmt : Stmt} (member : m ∈ rest)
    (cut : done ++ [.command m.name stmt] <+: run.performed files rows) :
    Recorded.of (done.foldl (Effect.store run.clock) rows) m.name = [] := by
  generalize command : Effect.command m.name stmt = e at cut
  have different := first_distinct found distinct member
  cases reached found cut with
  | bootstrap inside => exact absurd (Effect.command.inj command).1 different
  | bookkeeping => nomatch command
  | first pending => nomatch command
  | record front m' back split pending => nomatch command
  | @command part _ front m' back split pending inside =>
    have same := (Effect.command.inj command).1
    obtain ⟨before, _⟩ := around_distinct found distinct split
    have partUntouched : Untouched m.name part := fun checksum recorded =>
      commands_untouched m.name m' checksum (inside.subset (List.mem_append_left _ recorded))
    have untouched := ((opening_untouched (appliedChecksums rows) different).append
      (files_untouched (appliedChecksums rows) (same ▸ before))).append partUntouched
    rw [untouched.store]
    exact appliedChecksums_none.mp (same ▸ pending)

/-- After a completed run that leaves the first file as it is in the bookkeeping, a run
does nothing but the first file. -/
theorem planned_settled (completes : run.completes files rows = true)
    (current : appliedChecksums (run.step files rows) first.name = some first.checksum) :
    planned files (run.step files rows) =
      ⟨first.commands ++ [.createBookkeeping],
        .ok { applied := []
              skipped := namesWhere (Migration.current (appliedChecksums (run.step files rows)))
                (first :: rest)
              drifted := namesWhere (Migration.drifted (appliedChecksums rows)) rest }⟩ := by
  have recorded (m : Migration Stmt) (member : m ∈ rest) :=
    completed_rest found distinct completes member
  have none : rest.flatMap (fileEffects (appliedChecksums (run.step files rows))) = [] := by
    refine List.flatMap_eq_nil_iff.mpr fun m member => ?_
    rw [fileEffects, if_neg (by simp [recorded m member])]
  have pending : namesWhere (Migration.pending (appliedChecksums (run.step files rows))) rest =
      [] := by
    rw [namesWhere, List.filter_eq_nil_iff.mpr, List.map_nil]
    intro m member
    simp [Migration.pending, recorded m member]
  have drifted : namesWhere (Migration.drifted (appliedChecksums (run.step files rows))) rest =
      namesWhere (Migration.drifted (appliedChecksums rows)) rest := by
    refine congrArg (List.map Migration.name) (List.filter_congr fun m member => ?_)
    cases known : appliedChecksums rows m.name <;>
      simp [Migration.drifted, Migration.pending, Migration.current, recorded m member, known]
  rw [planned, applyAll_eq found, none, pending, drifted]
  simp [bootstrapRecord, namesWhere, Migration.current, current]

/-- A completed run settles the directory if the bookkeeping now has the first
file as it is. -/
theorem run_settles (completes : run.completes files rows = true) :
    (∃ reported again, (planned files rows).outcome = .ok reported ∧
      planned files (run.step files rows) =
        ⟨((sqlFiles files).take 1).flatMap Migration.commands ++ [.createBookkeeping],
          .ok again⟩ ∧
      again.applied = [] ∧ again.drifted = reported.drifted) ↔
      appliedChecksums (run.step files rows) first.name = some first.checksum := by
  constructor
  · rintro ⟨reported, again, _, settled, nothing, _⟩
    by_contra pending
    rw [planned, applyAll_eq found, Traced.mk.injEq] at settled
    have result := Except.ok.inj settled.2
    rw [← result] at nothing
    simp [namesWhere, Migration.current, pending] at nothing
  · intro current
    rw [planned_settled found distinct completes current, found, planned, applyAll_eq found,
      List.take_succ_cons, List.take_zero, List.flatMap_singleton]
    exact ⟨_, _, rfl, rfl, rfl, rfl⟩

theorem orderly_cons : Orderly files rows run ↔ InStep files rows run := by
  have inStep : InStep files rows run ↔ (run.completes files rows = true →
      appliedChecksums (run.step files rows) first.name = some first.checksum) := by
    rw [InStep, found]
    refine imp_congr_right fun completes => ?_
    simp only [List.take_succ_cons, List.take_zero, List.mem_singleton, forall_eq]
    have recorded := completed_first found distinct completes
    by_cases current : appliedChecksums rows first.name = some first.checksum
    · rw [if_pos current, List.append_nil] at recorded
      have kept : appliedChecksums (run.step files rows) first.name = some first.checksum := by
        rwa [appliedChecksums, recorded]
      simp [current, kept]
    · rw [if_neg current] at recorded
      have read := newest_append_value (f := Recorded.checksum) (Recorded.of rows first.name)
        ⟨first.name, first.checksum, run.clock first.name⟩ current
      rw [← recorded] at read
      refine (imp_iff_right current).trans (Iff.trans ?_ read.symm)
      simp [Recorded.of]
  rw [inStep]
  constructor
  · intro orderly completes
    exact (run_settles found distinct completes).mp (orderly.settles completes)
  · intro current
    refine ⟨?_, ?_, ?_, ?_⟩
    · intro earlier m later done stmt known nonempty cut
      exact run_ordered found distinct known nonempty cut
    · intro done name checksum cut
      exact run_recorded found cut
    · intro m member done stmt cut row stored same
      rw [found, List.drop_succ_cons, List.drop_zero] at member
      have none := run_once found distinct member cut
      exact List.filter_eq_nil_iff.mp none row stored (by simp [same.1])
    · intro completes
      exact (run_settles found distinct completes).mpr (current completes)

end

theorem orderly_nil (found : sqlFiles files = []) : Orderly files rows run := by
  have nothing : ∀ {done : List (Effect Stmt)} {e},
      done ++ [e] <+: run.performed files rows → e = .createBookkeeping := by
    intro done e cut
    have cut := cut.trans (performed_begins files rows run)
    rw [planned_nil found] at cut
    exact (single_cut cut).2
  refine ⟨?_, ?_, ?_, ?_⟩
  · intro earlier m later done stmt known
    simp [found] at known
  · intro done name checksum cut
    exact nomatch nothing cut
  · intro m member
    simp [found] at member
  · intro _
    rw [planned_nil found, planned_nil found, found]
    exact ⟨_, _, rfl, rfl, rfl, rfl⟩

theorem orderly_iff (distinct : (files.map Migration.name).Nodup) :
    Orderly files rows run ↔ InStep files rows run := by
  cases found : sqlFiles files with
  | nil => exact iff_of_true (orderly_nil found) fun _ => by simp [found]
  | cons first rest => exact orderly_cons found distinct

/-- Any number of runs are in order, and each takes up what those before it left,
exactly when no completed run finds a later row of a first file it records. -/
theorem migrations_orderly_iff {files : List (Migration Stmt)}
    (distinct : (files.map Migration.name).Nodup) (rows : List Recorded) (runs : List MigrateRun) :
    Meets (MigrateRun.step files) (Orderly files) rows runs ↔
      Meets (MigrateRun.step files) (InStep files) rows runs :=
  meets_congr fun _ _ => orderly_iff distinct

def twoFiles : List (Migration String) :=
  [⟨"010_kafka_spans.sql", "k", ["CREATE TABLE"]⟩, ⟨"000_database.sql", "d", ["CREATE DATABASE"]⟩]

theorem migrations_orderly_resumed :
    Meets (MigrateRun.step twoFiles) (Orderly twoFiles) [⟨"000_database.sql", "old", 10⟩]
      [⟨fun _ => 20, some 4⟩, ⟨fun _ => 30, none⟩, ⟨fun _ => 40, none⟩] :=
  (migrations_orderly_iff (by decide +kernel) _ _).mpr (by decide +kernel)

/-- The first file was edited, and the clock has gone back since it was recorded:
every run records it again. -/
theorem migrations_not_settled :
    ¬ Meets (MigrateRun.step twoFiles) (Orderly twoFiles) [⟨"000_database.sql", "old", 100⟩]
      [⟨fun _ => 50, none⟩] := by
  rintro ⟨orderly, _⟩
  obtain ⟨_, again, _, settled, nothing, _⟩ := orderly.settles rfl
  have applied : (planned twoFiles (MigrateRun.step twoFiles [⟨"000_database.sql", "old", 100⟩]
      ⟨fun _ => 50, none⟩)).outcome.toOption.map MigrationResult.applied =
      some ["000_database.sql"] := by decide +kernel
  rw [settled] at applied
  exact nomatch (Option.some.inj applied).symm.trans nothing

end TelemetryEngine.Storage
