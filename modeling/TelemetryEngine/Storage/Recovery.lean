import TelemetryEngine.Storage.SchemaRuns

/-! Migration runs that are cut off, and the export watermark. The last file swaps
the watermark table for a copy, and between its `DROP` and its `RENAME` no table
has the name that every later run copies from. -/
namespace TelemetryEngine.Storage
open Foundation Foundation.ReplacingTable

/-- The watermark table is gone, and the file that creates it is not run again. -/
structure Stuck (hot : Hot) : Prop where
  gone : hot.catalog.watermarks watermarkTable = none
  created : hot.Records "130_cold_export_watermark.sql"
  pending : ¬ hot.Records "140_cold_watermark_version.sql"

/-- The run to its end succeeds, and the watermark read afterwards is `most`. -/
def Recovers (checksum : String → String) (most : Option Nat) (clock : String → Nat) (hot : Hot) :
    Prop :=
  ∃ done, hot.migrate checksum ⟨clock, none⟩ = (done, none) ∧ done.readWatermark = .ok most

def dropsTable : Effect Ddl :=
  .command "140_cold_watermark_version.sql" (.dropTable watermarkTable)

/-- The run does not end with the `DROP` of the watermark table. -/
def Spares (checksum : String → String) (hot : Hot) (run : MigrateRun) : Prop :=
  (run.performed (shipped checksum) hot.recorded).getLast? ≠ some dropsTable

instance (checksum : String → String) (hot : Hot) (run : MigrateRun) :
    Decidable (Spares checksum hot run) :=
  inferInstanceAs (Decidable (_ ≠ _))

instance (hot : Hot) (name : String) : Decidable (hot.Records name) :=
  inferInstanceAs (Decidable (∃ row ∈ hot.recorded, _))

variable {checksum : String → String} {hot later : Hot} {m : Migration Ddl}
  {clock : String → Nat} {already : String → Option String} {most : Option Nat}
  {table : WatermarkTable}

/-! ### The copy -/

theorem furthest_none : table.furthest source = none ↔ table.of source = [] := by
  rw [WatermarkTable.furthest, List.max?_eq_none_iff, List.map_eq_nil_iff]

theorem furthest_some {most : Nat} : table.furthest source = some most ↔
    (∃ row ∈ table.of source, row.watermark = most) ∧
      ∀ row ∈ table.of source, row.watermark ≤ most := by
  rw [WatermarkTable.furthest, List.max?_eq_some_iff]
  simp

/-- The copy has one row a source, with its maximum. -/
theorem mem_maxima {row : WatermarkRow} {now : Nat} : row ∈ table.maxima now ↔
    row.updatedAt = now ∧ table.furthest row.source = some row.watermark := by
  rw [WatermarkTable.maxima, List.mem_filterMap]
  constructor
  · rintro ⟨source, _, copied⟩
    obtain ⟨watermark, found, rfl⟩ := Option.map_eq_some_iff.mp copied
    exact ⟨rfl, found⟩
  · rintro ⟨rfl, found⟩
    obtain ⟨⟨row', member, _⟩, _⟩ := furthest_some.mp found
    obtain ⟨inside, same⟩ := List.mem_filter.mp member
    have source : row'.source = row.source := of_decide_eq_true same
    refine ⟨row.source, ?_, by simp [found]⟩
    rw [List.mem_dedup, ← source]
    exact List.mem_map_of_mem inside

/-- A copy added to rows that are not ahead of the table has its maximum. -/
theorem filled_furthest {second : WatermarkTable} (now : Nat)
    (behind : ∀ row ∈ second.of source,
      ∃ most, table.furthest source = some most ∧ row.watermark ≤ most) :
    WatermarkTable.furthest { second with rows := second.rows ++ table.maxima now } source =
      table.furthest source := by
  have rows : WatermarkTable.of { second with rows := second.rows ++ table.maxima now } source =
      second.of source ++ (table.maxima now).filter (·.source = source) :=
    List.filter_append _ _
  cases found : table.furthest source with
  | none =>
    rw [furthest_none, rows, List.append_eq_nil_iff, List.eq_nil_iff_forall_not_mem,
      List.filter_eq_nil_iff]
    constructor
    · intro row member
      obtain ⟨most, reached, _⟩ := behind row member
      rw [found] at reached
      contradiction
    · intro row member same
      rw [← of_decide_eq_true same, (mem_maxima.mp member).2] at found
      contradiction
  | some most =>
    have copied : ⟨source, most, now⟩ ∈ table.maxima now := mem_maxima.mpr ⟨rfl, found⟩
    rw [furthest_some, rows]
    refine ⟨⟨_, List.mem_append_right _ (List.mem_filter.mpr ⟨copied, by simp⟩), rfl⟩, ?_⟩
    intro row member
    rcases List.mem_append.mp member with old | new
    · obtain ⟨most', reached, bound⟩ := behind row old
      rw [found] at reached
      exact Option.some.inj reached ▸ bound
    · obtain ⟨inside, same⟩ := List.mem_filter.mp new
      have reached := (mem_maxima.mp inside).2
      rw [of_decide_eq_true same, found] at reached
      exact (Option.some.inj reached).ge

/-! ### The swap -/

/-- The second table when it has been created, and when it has been filled. -/
def Catalog.staged (catalog : Catalog) : WatermarkTable :=
  (catalog.watermarks watermarkTableV2).getD ⟨.watermark, []⟩

def Catalog.filled (catalog : Catalog) (table : WatermarkTable) (now : Nat) : WatermarkTable :=
  { catalog.staged with rows := catalog.staged.rows ++ table.maxima now }

/-! The catalog after each statement of the swap. -/

def Catalog.staging (catalog : Catalog) : Catalog :=
  catalog.put watermarkTableV2 (some catalog.staged)

def Catalog.copied (catalog : Catalog) (table : WatermarkTable) (now : Nat) : Catalog :=
  catalog.staging.put watermarkTableV2 (some (catalog.filled table now))

def Catalog.dropped (catalog : Catalog) (table : WatermarkTable) (now : Nat) : Catalog :=
  (catalog.copied table now).put watermarkTable none

def Catalog.swapped (catalog : Catalog) (table : WatermarkTable) (now : Nat) : Catalog :=
  ((catalog.dropped table now).put watermarkTableV2 none).put watermarkTable
    (some (catalog.filled table now))

section
variable (mid : Mid checksum most hot)
  (there : hot.catalog.watermarks watermarkTable = some table)
include mid there

theorem swap_exec (now : Nat) :
    hot.catalog.exec now (.createWatermark watermarkTableV2 .watermark) = .ok hot.catalog.staging ∧
      hot.catalog.staging.exec now (.copyWatermarks watermarkTableV2 watermarkTable) =
        .ok (hot.catalog.copied table now) ∧
      (hot.catalog.copied table now).exec now (.dropTable watermarkTable) =
        .ok (hot.catalog.dropped table now) ∧
      (hot.catalog.dropped table now).exec now (.renameTable watermarkTableV2 watermarkTable) =
        .ok (hot.catalog.swapped table now) := by
  have differ := tables_differ
  refine ⟨?_, ?_, rfl, ?_⟩
  · rw [Catalog.exec, if_neg (by simp [mid.database])]
    cases second : hot.catalog.watermarks watermarkTableV2 with
    | none => simp [Catalog.staging, Catalog.staged, second]
    | some staged =>
      have same : hot.catalog.put watermarkTableV2 (some staged) = hot.catalog := by
        rw [← second, Catalog.put, Function.update_eq_self]
      simp [Catalog.staging, Catalog.staged, second, same]
  · simp [Catalog.exec, Catalog.staging, Catalog.copied, Catalog.filled,
      Catalog.put_other differ.symm, there]
  · simp [Catalog.exec, Catalog.dropped, Catalog.copied, Catalog.swapped, Catalog.put_other differ]

theorem staged_behind : hot.catalog.staged.version = .watermark ∧
    ∀ row ∈ hot.catalog.staged.of watermarkKey,
      ∃ most, table.furthest watermarkKey = some most ∧ row.watermark ≤ most := by
  have furthest : hot.furthest = table.furthest watermarkKey := by simp [Hot.furthest, there]
  rw [Catalog.staged, ← furthest]
  cases second : hot.catalog.watermarks watermarkTableV2 with
  | none => simp [WatermarkTable.of]
  | some staged => exact mid.sound.staged staged second

theorem second_mid (second : WatermarkTable) (version : second.version = .watermark)
    (behind : ∀ row ∈ second.of watermarkKey,
      ∃ most, table.furthest watermarkKey = some most ∧ row.watermark ≤ most) :
    Mid checksum most { hot with catalog := hot.catalog.put watermarkTableV2 (some second) } := by
  have same : (hot.catalog.put watermarkTableV2 (some second)).watermarks watermarkTable =
      hot.catalog.watermarks watermarkTable := Catalog.put_other tables_differ.symm
  have keeps : Keeps hot.catalog (hot.catalog.put watermarkTableV2 (some second)) :=
    ⟨fun _ => id, by simp [same], by simp [same]⟩
  have furthest : Hot.furthest ⟨hot.catalog.put watermarkTableV2 (some second), hot.recorded⟩ =
      hot.furthest := by simp only [Hot.furthest, same]
  refine ⟨⟨?_, ?_, ?_⟩, mid.database, furthest.trans mid.furthest⟩
  · intro m member records stmt inside
    exact (mid.sound.installed m member records stmt inside).keeps keeps
  · simp [same, there]
  · intro other found
    rw [Catalog.put_self, Option.some.injEq] at found
    rw [furthest, Hot.furthest, there]
    exact found ▸ ⟨version, behind⟩

theorem staging_mid : Mid checksum most { hot with catalog := hot.catalog.staging } := by
  obtain ⟨version, behind⟩ := staged_behind mid there
  exact second_mid mid there _ version behind

theorem copied_mid (now : Nat) :
    Mid checksum most { hot with catalog := hot.catalog.copied table now } := by
  obtain ⟨version, behind⟩ := staged_behind mid there
  have kept : hot.catalog.staging.watermarks watermarkTable = some table :=
    (Catalog.put_other tables_differ.symm).trans there
  refine second_mid (staging_mid mid there) kept (hot.catalog.filled table now) version ?_
  intro row member
  have filled := filled_furthest now behind
  cases reached : table.furthest watermarkKey with
  | none =>
    rw [reached] at filled
    exact absurd member (by simp [Catalog.filled, furthest_none.mp filled])
  | some most =>
    rw [reached] at filled
    exact ⟨most, rfl, (furthest_some.mp filled).2 row member⟩

theorem swapped_mid (now : Nat) :
    Mid checksum most { hot with catalog := hot.catalog.swapped table now } := by
  obtain ⟨version, behind⟩ := staged_behind mid there
  have current : (hot.catalog.swapped table now).watermarks watermarkTable =
      some (hot.catalog.filled table now) := Catalog.put_self _ _ _
  have second : (hot.catalog.swapped table now).watermarks watermarkTableV2 = none := by
    rw [Catalog.swapped, Catalog.put_other tables_differ, Catalog.put_self]
  have keeps : Keeps hot.catalog (hot.catalog.swapped table now) :=
    ⟨fun _ => id, by simp [current], by simp [current, Catalog.filled, version]⟩
  refine ⟨⟨?_, ?_, ?_⟩, mid.database, ?_⟩
  · intro m member records stmt inside
    exact (mid.sound.installed m member records stmt inside).keeps keeps
  · simp [current]
  · simp [second]
  · rw [← mid.furthest]
    simp only [Hot.furthest, current, there, Option.bind_some]
    exact filled_furthest now behind

theorem swapped_holds (now : Nat) :
    ∀ stmt ∈ (migrationOf checksum swap).statements,
      stmt.Holds (hot.catalog.swapped table now) := by
  have version := (staged_behind mid there).1
  have current : (hot.catalog.swapped table now).watermarks watermarkTable =
      some (hot.catalog.filled table now) := Catalog.put_self _ _ _
  simp [migrationOf, swap, Ddl.Holds, current, Catalog.filled, version]

end

theorem swap_shipped : migrationOf checksum swap ∈ shipped checksum := by
  rw [shipped_parts]
  simp

/-- The file before the last leaves a watermark table. -/
theorem watermark_there (mid : Mid checksum most hot)
    (created : hot.Records "130_cold_export_watermark.sql") :
    ∃ table, hot.catalog.watermarks watermarkTable = some table := by
  have member : migrationOf checksum ("130_cold_export_watermark.sql",
      [.createWatermark watermarkTable .updatedAt]) ∈ shipped checksum :=
    List.mem_map_of_mem (by decide)
  have holds := mid.sound.installed _ member created (.createWatermark watermarkTable .updatedAt)
    (by simp [migrationOf])
  exact Option.isSome_iff_exists.mp (holds rfl)

theorem swap_effects (pending : already swap.1 = none) :
    fileEffects already (migrationOf checksum swap) =
      [.command swap.1 (.createWatermark watermarkTableV2 .watermark),
        .command swap.1 (.copyWatermarks watermarkTableV2 watermarkTable), dropsTable,
        .command swap.1 (.renameTable watermarkTableV2 watermarkTable),
        .record swap.1 (checksum swap.1)] := by
  rw [fileEffects, if_pos (show already (migrationOf checksum swap).name = none from pending)]
  rfl

/-- The swap, cut off anywhere. -/
theorem swap_cut (clock : String → Nat) (mid : Mid checksum most hot)
    (created : hot.Records "130_cold_export_watermark.sql")
    (known : already swap.1 = none ↔ ¬ hot.Records swap.1)
    (cut : p <+: fileEffects already (migrationOf checksum swap)) :
    ∃ later, attempt (Hot.perform clock) hot p = (later, none) ∧
      ((p.getLast? ≠ some dropsTable ∧ Mid checksum most later ∧
          (p = fileEffects already (migrationOf checksum swap) → later.Records swap.1)) ∨
        (p.getLast? = some dropsTable ∧ Stuck later)) := by
  by_cases pending : already swap.1 = none
  · obtain ⟨table, there⟩ := watermark_there mid created
    obtain ⟨staging, copied, dropped, renamed⟩ := swap_exec mid there (clock swap.1)
    have swapped := swapped_mid mid there (clock swap.1)
    rw [swap_effects pending] at cut ⊢
    rcases List.prefix_cons_iff.mp cut with rfl | ⟨_, rfl, toCopy⟩
    · exact ⟨hot, rfl, .inl ⟨by simp, mid, by simp⟩⟩
    rw [attempt_cons (perform_command staging)]
    rcases List.prefix_cons_iff.mp toCopy with rfl | ⟨_, rfl, toDrop⟩
    · exact ⟨_, rfl, .inl ⟨by simp [dropsTable], staging_mid mid there, by simp⟩⟩
    rw [attempt_cons (perform_command copied)]
    rcases List.prefix_cons_iff.mp toDrop with rfl | ⟨_, rfl, toRename⟩
    · exact ⟨_, rfl, .inl ⟨by simp [dropsTable], copied_mid mid there _, by simp⟩⟩
    rw [dropsTable, attempt_cons (perform_command dropped)]
    rcases List.prefix_cons_iff.mp toRename with rfl | ⟨_, rfl, toRecord⟩
    · exact ⟨_, rfl, .inr ⟨rfl, Catalog.put_self _ _ _, created, known.mp pending⟩⟩
    rw [attempt_cons (perform_command renamed)]
    rcases prefix_single toRecord with rfl | rfl
    · exact ⟨_, rfl, .inl ⟨by simp, swapped, by simp⟩⟩
    · refine ⟨_, record_attempt _ (migrationOf checksum swap), .inl ⟨by simp, ?_, fun _ => ?_⟩⟩
      · exact record_mid swapped swap_shipped _ (swapped_holds mid there _)
      · exact (records_record _ _ _ _).mpr (.inr rfl)
  · rw [fileEffects, if_neg (show ¬ already (migrationOf checksum swap).name = none from pending)]
      at cut ⊢
    rw [List.prefix_nil] at cut
    refine ⟨hot, cut ▸ rfl, .inl ⟨by simp [cut], mid, fun _ => ?_⟩⟩
    exact not_not.mp fun absent => pending (known.mpr absent)

/-! ### A whole run -/

theorem appliedChecksums_absent (hot : Hot) (name : String) :
    appliedChecksums hot.recorded name = none ↔ ¬ hot.Records name := by
  rw [appliedChecksums_none, Recorded.of, List.filter_eq_nil_iff]
  simp [Hot.Records]

theorem attempt_recorded {effects : List (Effect Ddl)}
    (done : attempt (Hot.perform clock) hot effects = (later, none)) :
    later.recorded = effects.foldl (Effect.store clock) hot.recorded := by
  induction effects generalizing hot with
  | nil => exact congrArg Hot.recorded (Prod.mk.inj done).1.symm
  | cons e effects ih =>
    rw [attempt] at done
    cases step : hot.perform clock e with
    | error failure => simp [step] at done
    | ok next =>
      have stored : next.recorded = Effect.store clock hot.recorded e := by
        cases e with
        | command file stmt =>
          rw [Hot.perform] at step
          cases executed : hot.catalog.exec (clock file) stmt with
          | error failure => simp [executed, Except.map] at step
          | ok catalog =>
            rw [executed] at step
            exact Except.ok.inj step ▸ rfl
        | createBookkeeping =>
          rw [Hot.perform] at step
          split at step
          · exact congrArg Hot.recorded (Except.ok.inj step).symm
          · contradiction
        | record name checksum => exact congrArg Hot.recorded (Except.ok.inj step).symm
      rw [List.foldl_cons, ← stored]
      exact ih (by simpa [step] using done)

def bootstrap : String × List Ddl := ("000_database.sql", [.createDatabase])

/-- The server when the first file has created the database. -/
def Hot.opened (hot : Hot) : Hot := ⟨{ hot.catalog with database := true }, hot.recorded⟩

theorem opened_mid (sound : Sound checksum hot) : Mid checksum hot.furthest hot.opened :=
  ⟨⟨fun m member records stmt inside => (sound.installed m member records stmt inside).keeps
      ⟨fun _ => id, id, id⟩, sound.absent, sound.staged⟩, rfl, rfl⟩

theorem bootstrap_record (clock : String → Nat) (mid : Mid checksum most hot)
    (cut : p <+: bootstrapRecord already (migrationOf checksum bootstrap)) :
    ∃ later, attempt (Hot.perform clock) hot p = (later, none) ∧ Mid checksum most later ∧
      Grows hot later := by
  have short : p = [] ∨ p = [.record bootstrap.1 (checksum bootstrap.1)] := by
    rw [bootstrapRecord] at cut
    split at cut
    · exact .inl (List.prefix_nil.mp cut)
    · exact prefix_single cut
  rcases short with rfl | rfl
  · exact ⟨hot, rfl, mid, ⟨fun _ => id, fun _ => id⟩⟩
  · have member : migrationOf checksum bootstrap ∈ shipped checksum := by
      rw [shipped_parts]
      exact List.mem_cons_self
    refine ⟨_, record_attempt hot (migrationOf checksum bootstrap), record_mid mid member _ ?_,
      record_grows _ _ _⟩
    simp [migrationOf, bootstrap, Ddl.Holds]

theorem opening_effects (hot : Hot) (effects : List (Effect Ddl)) :
    attempt (Hot.perform clock) hot
        (.command bootstrap.1 .createDatabase :: .createBookkeeping :: effects) =
      attempt (Hot.perform clock) hot.opened effects := rfl

theorem planned_shipped (hot : Hot) : (planned (shipped checksum) hot.recorded).trace =
    opening (appliedChecksums hot.recorded) (migrationOf checksum bootstrap) ++
      (middle.map (migrationOf checksum)).flatMap (fileEffects (appliedChecksums hot.recorded)) ++
      fileEffects (appliedChecksums hot.recorded) (migrationOf checksum swap) := by
  have found : sqlFiles (shipped checksum) = migrationOf checksum bootstrap ::
      (middle.map (migrationOf checksum) ++ [migrationOf checksum swap]) :=
    sqlFiles_shipped.trans shipped_parts
  rw [planned_cons found, List.flatMap_append, List.flatMap_singleton, List.append_assoc]

theorem opening_cut (clock : String → Nat) (sound : Sound checksum hot)
    (cut : p <+: opening already (migrationOf checksum bootstrap)) :
    ∃ later, attempt (Hot.perform clock) hot p = (later, none) ∧ Sound checksum later ∧
      later.furthest = hot.furthest := by
  have opened := opened_mid sound
  rcases List.prefix_cons_iff.mp cut with rfl | ⟨_, rfl, toTable⟩
  · exact ⟨hot, rfl, sound, rfl⟩
  rcases List.prefix_cons_iff.mp toTable with rfl | ⟨_, rfl, toRecord⟩
  · exact ⟨hot.opened, rfl, opened.sound, rfl⟩
  obtain ⟨later, done, mid, _⟩ := bootstrap_record clock opened toRecord
  exact ⟨later, (opening_effects hot _).trans done, mid.sound, mid.furthest⟩

theorem opening_done (clock : String → Nat) (already : String → Option String)
    (sound : Sound checksum hot) :
    ∃ later, attempt (Hot.perform clock) hot (opening already (migrationOf checksum bootstrap)) =
        (later, none) ∧
      Mid checksum hot.furthest later ∧ Grows hot later := by
  obtain ⟨later, done, mid, grows⟩ := bootstrap_record clock (opened_mid sound)
    (List.prefix_refl (bootstrapRecord already (migrationOf checksum bootstrap)))
  exact ⟨later, (opening_effects hot _).trans done, mid, ⟨grows.tables, grows.records⟩⟩

theorem middle_shipped : ∀ file ∈ middle, file ∈ schemaFiles := by
  intro file member
  rw [schemaFiles_parts]
  simp [member]

theorem middle_names : ∀ file ∈ middle, file.1 ≠ swap.1 := by decide

theorem front_done (clock : String → Nat) (sound : Sound checksum hot) :
    ∃ later, attempt (Hot.perform clock) hot
        (opening (appliedChecksums hot.recorded) (migrationOf checksum bootstrap) ++
          (middle.map (migrationOf checksum)).flatMap
            (fileEffects (appliedChecksums hot.recorded))) = (later, none) ∧
      Mid checksum hot.furthest later ∧ later.Records "130_cold_export_watermark.sql" ∧
      (appliedChecksums hot.recorded swap.1 = none ↔ ¬ later.Records swap.1) := by
  obtain ⟨next, opened, mid, grows⟩ := opening_done clock
    (appliedChecksums hot.recorded) sound
  obtain ⟨later, done, mid, _, all⟩ := adds_files clock mid middle_shipped
    middle_supplied (by simp)
    (fun file _ recorded => grows.records _ (not_not.mp fun absent =>
      recorded ((appliedChecksums_absent hot file.1).mpr absent)))
  have whole := (attempt_append opened).trans done
  refine ⟨later, whole, mid, all ("130_cold_export_watermark.sql",
    [.createWatermark watermarkTable .updatedAt]) (by decide +kernel), ?_⟩
  have untouched : Untouched swap.1
      (opening (appliedChecksums hot.recorded) (migrationOf checksum bootstrap) ++
        (middle.map (migrationOf checksum)).flatMap
          (fileEffects (appliedChecksums hot.recorded))) := by
    refine (opening_untouched _ (show swap.1 ≠ bootstrap.1 by decide)).append
      (files_untouched _ fun m member => ?_)
    obtain ⟨file, inside, rfl⟩ := List.mem_map.mp member
    exact (middle_names file inside).symm
  rw [← appliedChecksums_absent, appliedChecksums_none, appliedChecksums_none,
    attempt_recorded whole, untouched.store]

/-- Before the last file no effect drops the table. -/
theorem front_spares :
    dropsTable ∉ opening already (migrationOf checksum bootstrap) ++
      (middle.map (migrationOf checksum)).flatMap (fileEffects already) := by
  intro member
  rcases List.mem_append.mp member with inOpening | inMiddle
  · rw [opening, bootstrapRecord] at inOpening
    split at inOpening <;> simp [dropsTable, Migration.commands, migrationOf, bootstrap] at inOpening
  · obtain ⟨m, mapped, effect⟩ := List.mem_flatMap.mp inMiddle
    obtain ⟨file, inside, rfl⟩ := List.mem_map.mp mapped
    rw [fileEffects] at effect
    split at effect
    · rcases List.mem_append.mp effect with command | record
      · obtain ⟨stmt, _, same⟩ := List.mem_map.mp command
        exact middle_names file inside (Effect.command.inj same).1
      · simp [dropsTable] at record
    · contradiction

/-- A run of a sound server, cut off anywhere. -/
theorem run_cut (clock : String → Nat) (sound : Sound checksum hot)
    (cut : p <+: (planned (shipped checksum) hot.recorded).trace) :
    ∃ later, attempt (Hot.perform clock) hot p = (later, none) ∧
      ((p.getLast? ≠ some dropsTable ∧ Sound checksum later ∧ later.furthest = hot.furthest) ∨
        (p.getLast? = some dropsTable ∧ Stuck later)) := by
  rw [planned_shipped] at cut
  have spares {p : List (Effect Ddl)} (cut : p <+: opening (appliedChecksums hot.recorded)
      (migrationOf checksum bootstrap) ++ (middle.map (migrationOf checksum)).flatMap
        (fileEffects (appliedChecksums hot.recorded))) : p.getLast? ≠ some dropsTable :=
    fun last => front_spares (cut.subset (List.mem_of_getLast? last))
  rcases prefix_append_cases cut with inFront | ⟨q, inSwap, rfl⟩
  · rcases prefix_append_cases inFront with inOpening | ⟨q, inMiddle, rfl⟩
    · obtain ⟨later, done, kept⟩ := opening_cut clock sound inOpening
      exact ⟨later, done, .inl ⟨spares inFront, kept⟩⟩
    · obtain ⟨next, opened, mid, grows⟩ := opening_done clock
        (appliedChecksums hot.recorded) sound
      obtain ⟨later, done, mid⟩ := adds_files_cut clock mid middle_shipped
        middle_supplied (by simp)
        (fun file _ recorded => grows.records _ (not_not.mp fun absent =>
          recorded ((appliedChecksums_absent hot file.1).mpr absent))) inMiddle
      exact ⟨later, (attempt_append opened).trans done,
        .inl ⟨spares inFront, mid.sound, mid.furthest⟩⟩
  · obtain ⟨next, front, mid, created, known⟩ := front_done clock sound
    obtain ⟨later, done, either⟩ := swap_cut clock mid created known inSwap
    refine ⟨later, (attempt_append front).trans done, ?_⟩
    rw [List.getLast?_append]
    rcases either with ⟨spared, mid, _⟩ | ⟨drops, stuck⟩
    · refine .inl ⟨?_, mid.sound, mid.furthest⟩
      cases last : q.getLast? with
      | none => exact spares (List.prefix_refl _)
      | some e =>
        rw [last] at spared
        exact spared
    · exact .inr ⟨by rw [drops]; rfl, stuck⟩

theorem run_done (clock : String → Nat) (sound : Sound checksum hot) :
    ∃ later, attempt (Hot.perform clock) hot (planned (shipped checksum) hot.recorded).trace =
        (later, none) ∧
      later.readWatermark = .ok hot.furthest := by
  obtain ⟨next, front, mid, created, known⟩ := front_done clock sound
  obtain ⟨later, done, either⟩ := swap_cut clock mid created known (List.prefix_refl _)
  refine ⟨later, by rw [planned_shipped, attempt_append front, done], ?_⟩
  rcases either with ⟨_, mid, whole⟩ | ⟨drops, stuck⟩
  · have version := mid.sound.installed _ swap_shipped (whole rfl)
      (.renameTable watermarkTableV2 watermarkTable) (by simp [migrationOf, swap]) rfl
    obtain ⟨table, there, version⟩ := Option.map_eq_some_iff.mp version
    rw [← mid.furthest, Hot.readWatermark, Hot.furthest, there]
    exact congrArg Except.ok (by rw [WatermarkTable.final, version]; exact newest_map_version)
  · rw [fileEffects] at drops
    split at drops <;> simp [dropsTable] at drops

/-! ### The table is gone -/

/-- Statements that leave the watermark table as it is. -/
def Ddl.leaves : Ddl → Bool
  | .createDatabase | .create _ | .createView .. | .dropView _ => true
  | .createWatermark name _ => name ≠ watermarkTable
  | _ => false

theorem middle_leaves : ∀ file ∈ middle, file.1 ≠ "130_cold_export_watermark.sql" →
    ∀ stmt ∈ file.2, stmt.leaves = true := by decide

theorem leaves_watermark {stmt : Ddl} {c d : Catalog} {now : Nat} (leaves : stmt.leaves = true)
    (done : c.exec now stmt = .ok d) :
    d.watermarks watermarkTable = c.watermarks watermarkTable := by
  cases stmt with
  | createDatabase | dropView name => exact Except.ok.inj done ▸ rfl
  | create name =>
    rw [Catalog.exec] at done
    split at done
    · exact Except.ok.inj done ▸ rfl
    · contradiction
  | createView name target reads =>
    rw [Catalog.exec] at done
    split at done
    · contradiction
    · split at done
      · exact Except.ok.inj done ▸ rfl
      · contradiction
  | createWatermark name version =>
    have different : watermarkTable ≠ name := (of_decide_eq_true leaves).symm
    rw [Catalog.exec] at done
    split at done
    · contradiction
    · split at done
      · exact Except.ok.inj done ▸ rfl
      · exact Except.ok.inj done ▸ Catalog.put_other different
  | copyWatermarks | dropTable | renameTable => simp [Ddl.leaves] at leaves

theorem stuck_command {stmt : Ddl} {file : String} (stuck : Stuck hot)
    (leaves : stmt.leaves = true)
    (done : hot.perform clock (.command file stmt) = .ok later) : Stuck later := by
  rw [Hot.perform] at done
  cases executed : hot.catalog.exec (clock file) stmt with
  | error failure => simp [executed, Except.map] at done
  | ok catalog =>
    rw [executed] at done
    obtain rfl := Except.ok.inj done
    exact ⟨(leaves_watermark leaves executed).trans stuck.gone, stuck.created, stuck.pending⟩

theorem stuck_record {name sum : String} (stuck : Stuck hot) (different : name ≠ swap.1)
    (done : hot.perform clock (.record name sum) = .ok later) : Stuck later := by
  obtain rfl := Except.ok.inj done
  have records := records_record hot ⟨name, sum, []⟩ (clock name)
  refine ⟨stuck.gone, (records _).mpr (.inl stuck.created), fun recorded => ?_⟩
  rcases (records _).mp recorded with before | same
  · exact stuck.pending before
  · exact different same

/-- No effect before the copy brings the table back. -/
theorem stuck_front (checksum : String → String) (clock : String → Nat) {hot : Hot}
    (stuck : Stuck hot) :
    ∀ now, ∀ e ∈ opening (appliedChecksums hot.recorded) (migrationOf checksum bootstrap) ++
        (middle.map (migrationOf checksum)).flatMap
          (fileEffects (appliedChecksums hot.recorded)) ++
        [.command swap.1 (.createWatermark watermarkTableV2 .watermark)],
      Stuck now → ∀ later, now.perform clock e = .ok later → Stuck later := by
  intro now e member gone later done
  rcases List.mem_append.mp member with inFront | last
  · rcases List.mem_append.mp inFront with inOpening | inMiddle
    · rcases List.mem_append.mp inOpening with command | after
      · rw [List.mem_singleton.mp command] at done
        exact stuck_command gone rfl done
      · rcases List.mem_cons.mp after with rfl | record
        · rw [Hot.perform] at done
          split at done
          · exact Except.ok.inj done ▸ gone
          · contradiction
        · rw [bootstrapRecord] at record
          split at record
          · contradiction
          · rw [List.mem_singleton.mp record] at done
            exact stuck_record gone (show bootstrap.1 ≠ swap.1 by decide) done
    · obtain ⟨m, mapped, effect⟩ := List.mem_flatMap.mp inMiddle
      obtain ⟨file, inside, rfl⟩ := List.mem_map.mp mapped
      rw [fileEffects] at effect
      split at effect
      case isFalse => contradiction
      case isTrue pending =>
        have other : file.1 ≠ "130_cold_export_watermark.sql" := fun same =>
          (appliedChecksums_absent hot file.1).mp pending (same ▸ stuck.created)
        rcases List.mem_append.mp effect with command | record
        · obtain ⟨stmt, inFile, rfl⟩ := List.mem_map.mp command
          exact stuck_command gone (middle_leaves file inside other stmt inFile) done
        · rw [List.mem_singleton.mp record] at done
          exact stuck_record gone (middle_names file inside) done
  · rw [List.mem_singleton.mp last] at done
    exact stuck_command gone (by decide) done

theorem copy_fails {now : Hot} (gone : Stuck now) :
    ∃ failure, now.perform clock
      (.command swap.1 (.copyWatermarks watermarkTableV2 watermarkTable)) = .error failure := by
  refine ⟨.unknownTable, ?_⟩
  rw [Hot.perform, Catalog.exec, gone.gone]
  cases now.catalog.watermarks watermarkTableV2 <;> rfl

theorem planned_stuck (checksum : String → String) (stuck : Stuck hot) : ∃ rest,
    (planned (shipped checksum) hot.recorded).trace =
      (opening (appliedChecksums hot.recorded) (migrationOf checksum bootstrap) ++
        (middle.map (migrationOf checksum)).flatMap
          (fileEffects (appliedChecksums hot.recorded)) ++
        [.command swap.1 (.createWatermark watermarkTableV2 .watermark)]) ++
        .command swap.1 (.copyWatermarks watermarkTableV2 watermarkTable) :: rest := by
  have pending := (appliedChecksums_absent hot swap.1).mpr stuck.pending
  exact ⟨_, by rw [planned_shipped, swap_effects pending, List.append_cons]⟩

/-- A stuck server stays stuck, and no run comes to its end. -/
theorem stuck_cut (stuck : Stuck hot)
    (cut : p <+: (planned (shipped checksum) hot.recorded).trace) :
    Stuck (attempt (Hot.perform clock) hot p).1 := by
  obtain ⟨rest, planned⟩ := planned_stuck checksum stuck
  have front := stuck_front checksum clock stuck
  rw [planned] at cut
  rcases prefix_append_cases cut with inside | ⟨q, inside, rfl⟩
  · exact attempt_invariant (fun now e member => front now e (inside.subset member)) stuck
  · rcases List.prefix_cons_iff.mp inside with rfl | ⟨_, rfl, _⟩
    · rw [List.append_nil]
      exact attempt_invariant front stuck
    · exact (attempt_stops _ front (fun _ => copy_fails) stuck).1

theorem stuck_run (stuck : Stuck hot) : ¬ Recovers checksum most clock hot := by
  rintro ⟨done, completes, _⟩
  obtain ⟨rest, planned⟩ := planned_stuck checksum stuck
  have front := stuck_front checksum clock stuck
  have stops := (attempt_stops rest front (fun _ => copy_fails) stuck).2
  rw [← planned] at stops
  exact stops (congrArg Prod.snd completes)

/-! ### Any number of runs -/

theorem recovers_stuck {runs : List MigrateRun} (stuck : Stuck hot) :
    ¬ Recovers checksum most clock (runs.foldl (Hot.step checksum) hot) := by
  refine stuck_run (foldl_invariant (P := Stuck) (fun hot run _ stuck => ?_) stuck)
  exact stuck_cut stuck (performed_begins _ _ _)

/-- After runs that were cut off, a run to the end succeeds and the watermark read
is the maximum of the table before them, exactly when none of them was cut off
after the `DROP`. -/
theorem watermark_recovers_iff (checksum : String → String) {hot : Hot}
    (sound : Sound checksum hot) (runs : List MigrateRun) (clock : String → Nat) :
    Recovers checksum hot.furthest clock (runs.foldl (Hot.step checksum) hot) ↔
      Meets (Hot.step checksum) (Spares checksum) hot runs := by
  generalize same : hot.furthest = most
  induction runs generalizing hot with
  | nil =>
    obtain ⟨later, done, read⟩ := run_done clock sound
    exact iff_of_true ⟨later, done, same ▸ read⟩ trivial
  | cons run runs ih =>
    obtain ⟨later, done, either⟩ := run_cut run.clock sound
      (performed_begins (shipped checksum) hot.recorded run)
    have step : hot.step checksum run = later := congrArg Prod.fst done
    rw [List.foldl_cons, Meets, step]
    rcases either with ⟨spared, sound, furthest⟩ | ⟨drops, stuck⟩
    · exact (ih sound (furthest.trans same)).trans (and_iff_right spared).symm
    · exact iff_of_false (recovers_stuck stuck) fun spares => spares.1 drops

/-- A server to which all files but the last have been applied. -/
def beforeSwap : Hot where
  catalog :=
    { database := true
      tables := fun name => (schemaFiles.flatMap fun file => file.2.flatMap Ddl.creates).contains name
      views := fun _ => true
      watermarks := fun name =>
        if name = watermarkTable then
          some ⟨.updatedAt, [⟨"spans_raw", 10, 1⟩, ⟨"spans_raw", 7, 2⟩]⟩
        else none }
  recorded := schemaFiles.dropLast.map fun file => ⟨file.1, file.1, 0⟩

theorem beforeSwap_sound : Sound id beforeSwap :=
  ⟨by decide +kernel, by decide +kernel, fun table second =>
    nomatch second.symm.trans (show beforeSwap.catalog.watermarks watermarkTableV2 = none by
      decide +kernel)⟩

/-- Cut off after the copy, and then after the rename. -/
theorem watermark_recovers_cut :
    Recovers id beforeSwap.furthest (fun _ => 40)
      ([⟨fun _ => 20, some 4⟩, ⟨fun _ => 30, some 6⟩].foldl (Hot.step id) beforeSwap) :=
  (watermark_recovers_iff id beforeSwap_sound _ _).mpr (by decide +kernel)

/-- Cut off after the drop, every later run fails at the copy. -/
theorem watermark_not_recovered :
    beforeSwap.furthest = some 10 ∧
      ((beforeSwap.step id ⟨fun _ => 20, some 5⟩).migrate id ⟨fun _ => 40, none⟩).2 =
        some .unknownTable ∧
      ∀ clock, ¬ Recovers id beforeSwap.furthest clock
        ([⟨fun _ => 20, some 5⟩].foldl (Hot.step id) beforeSwap) := by
  have stuck : Stuck (beforeSwap.step id ⟨fun _ => 20, some 5⟩) :=
    ⟨by decide +kernel, by decide +kernel, by decide +kernel⟩
  exact ⟨by decide, by decide +kernel, fun _ => stuck_run stuck⟩

end TelemetryEngine.Storage
