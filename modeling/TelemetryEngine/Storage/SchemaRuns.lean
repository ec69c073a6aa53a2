import TelemetryEngine.Storage.Schema

/-! Runs over the shipped files before the last. Their statements add to the catalog,
so that a server is sound wherever such a run is cut off. -/
namespace TelemetryEngine.Storage
open Foundation Foundation.ReplacingTable

/-- What a statement leaves to later files, and to the exporter. -/
def Ddl.Holds (catalog : Catalog) : Ddl → Prop
  | .create name => catalog.tables name = true
  | .createWatermark name _ =>
    name = watermarkTable → (catalog.watermarks watermarkTable).isSome = true
  | .renameTable _ new => new = watermarkTable →
    (catalog.watermarks watermarkTable).map WatermarkTable.version = some .watermark
  | _ => True

instance (catalog : Catalog) : ∀ stmt : Ddl, Decidable (stmt.Holds catalog)
  | .create name => inferInstanceAs (Decidable (catalog.tables name = true))
  | .createWatermark name _ => inferInstanceAs (Decidable (name = watermarkTable → _))
  | .renameTable _ new => inferInstanceAs (Decidable (new = watermarkTable → _))
  | .createDatabase | .createView .. | .dropView _ | .copyWatermarks .. | .dropTable _ =>
    .isTrue trivial

/-- A file is in the bookkeeping. -/
def Hot.Records (hot : Hot) (name : String) : Prop := ∃ row ∈ hot.recorded, row.filename = name

/-- A server as migration runs and the exporter leave it: what recorded files made
is there, and a second watermark table holds nothing that the first does not. -/
structure Sound (checksum : String → String) (hot : Hot) : Prop where
  installed : ∀ m ∈ shipped checksum, hot.Records m.name →
    ∀ stmt ∈ m.statements, stmt.Holds hot.catalog
  absent : hot.catalog.watermarks watermarkTable = none →
    hot.catalog.watermarks watermarkTableV2 = none
  staged : ∀ table, hot.catalog.watermarks watermarkTableV2 = some table →
    table.version = .watermark ∧
      ∀ row ∈ table.of watermarkKey, ∃ most, hot.furthest = some most ∧ row.watermark ≤ most

/-! ### The shipped files -/

/-- The files between the first and the last. -/
def middle : List (String × List Ddl) := schemaFiles.tail.dropLast

def swap : String × List Ddl :=
  ("140_cold_watermark_version.sql",
    [.createWatermark watermarkTableV2 .watermark, .copyWatermarks watermarkTableV2 watermarkTable,
      .dropTable watermarkTable, .renameTable watermarkTableV2 watermarkTable])

theorem schemaFiles_parts :
    schemaFiles = ("000_database.sql", [.createDatabase]) :: (middle ++ [swap]) := by
  decide +kernel

theorem schemaFiles_sorted : (schemaFiles.map Prod.fst).Pairwise (· ≤ ·) := by decide +kernel

theorem schemaFiles_distinct : (schemaFiles.map Prod.fst).Nodup := by decide +kernel

theorem schemaFiles_sql : ∀ file ∈ schemaFiles, file.1.endsWith ".sql" = true := by decide +kernel

/-- What a statement needs to be there. -/
def Ddl.needs : Ddl → List String
  | .createView _ target reads => target :: reads
  | _ => []

def Ddl.creates : Ddl → List String
  | .create name => [name]
  | _ => []

/-- Statements that leave existing tables as they are. -/
def Ddl.adds : Ddl → Bool
  | .create _ | .createView .. | .dropView _ => true
  | .createWatermark name _ => name = watermarkTable
  | _ => false

/-- Every file finds the tables it needs among `tables` and those of earlier files. -/
def Supplied (tables : List String) : List (String × List Ddl) → Prop
  | [] => True
  | file :: rest => (∀ stmt ∈ file.2, stmt.adds = true ∧ ∀ name ∈ stmt.needs, name ∈ tables) ∧
      Supplied (tables ++ file.2.flatMap Ddl.creates) rest

instance Supplied.decidable : ∀ tables files, Decidable (Supplied tables files)
  | _, [] => .isTrue trivial
  | tables, file :: rest =>
    have : Decidable (Supplied (tables ++ file.2.flatMap Ddl.creates) rest) :=
      Supplied.decidable _ rest
    inferInstanceAs (Decidable (_ ∧ Supplied (tables ++ file.2.flatMap Ddl.creates) rest))

theorem middle_supplied : Supplied [] middle := by decide +kernel

variable {checksum : String → String} {hot : Hot} {catalog c d : Catalog} {stmt : Ddl}
  {m : Migration Ddl} {clock : String → Nat} {already : String → Option String}

theorem sqlFiles_shipped : sqlFiles (shipped checksum) = shipped checksum := by
  have sql : (shipped checksum).filter (·.name.endsWith ".sql") = shipped checksum := by
    refine List.filter_eq_self.mpr fun m member => ?_
    obtain ⟨file, inside, rfl⟩ := List.mem_map.mp member
    exact schemaFiles_sql file inside
  rw [sqlFiles, sql]
  refine List.Pairwise.insertionSort_eq (List.pairwise_map.mpr ?_)
  exact List.pairwise_map.mp schemaFiles_sorted

theorem shipped_distinct : ((shipped checksum).map Migration.name).Nodup := by
  have names : (shipped checksum).map Migration.name = schemaFiles.map Prod.fst := by
    rw [shipped, List.map_map]
    rfl
  rw [names]
  exact schemaFiles_distinct

theorem shipped_parts : shipped checksum =
    migrationOf checksum ("000_database.sql", [.createDatabase]) ::
      (middle.map (migrationOf checksum) ++ [migrationOf checksum swap]) := by
  rw [shipped, schemaFiles_parts]
  simp

/-! ### Statements that add -/

/-- A server in the course of a run, and the maximum watermark of its table. -/
structure Mid (checksum : String → String) (most : Option Nat) (hot : Hot) : Prop where
  sound : Sound checksum hot
  database : hot.catalog.database = true
  furthest : hot.furthest = most

/-- What held of the catalog still holds. -/
structure Keeps (c d : Catalog) : Prop where
  tables : ∀ name, c.tables name = true → d.tables name = true
  present : (c.watermarks watermarkTable).isSome = true →
    (d.watermarks watermarkTable).isSome = true
  versioned : (c.watermarks watermarkTable).map WatermarkTable.version = some .watermark →
    (d.watermarks watermarkTable).map WatermarkTable.version = some .watermark

theorem Keeps.trans (first : Keeps c d) (second : Keeps d e) : Keeps c e :=
  ⟨fun name there => second.tables name (first.tables name there),
    fun there => second.present (first.present there),
    fun there => second.versioned (first.versioned there)⟩

theorem Ddl.Holds.keeps (holds : stmt.Holds c) (keeps : Keeps c d) : stmt.Holds d := by
  cases stmt with
  | create name => exact keeps.tables name holds
  | createWatermark name version => exact fun same => keeps.present (holds same)
  | renameTable old new => exact fun same => keeps.versioned (holds same)
  | _ => trivial

theorem Mid.keeps (mid : Mid checksum most hot) (keeps : Keeps hot.catalog d)
    (database : d.database = hot.catalog.database)
    (same : d.watermarks = hot.catalog.watermarks) :
    Mid checksum most { hot with catalog := d } := by
  have furthest : Hot.furthest { hot with catalog := d } = hot.furthest := by
    simp only [Hot.furthest, same]
  refine ⟨⟨?_, ?_, ?_⟩, database.trans mid.database, furthest.trans mid.furthest⟩
  · intro m member records stmt inside
    exact (mid.sound.installed m member records stmt inside).keeps keeps
  · simpa only [same] using mid.sound.absent
  · simpa only [same, furthest] using mid.sound.staged

/-- The watermark table is created unless it is there; it is empty then, and there is no
second one. -/
theorem watermark_step (mid : Mid checksum most hot) (version : Version) (now : Nat) :
    ∃ d, hot.catalog.exec now (.createWatermark watermarkTable version) = .ok d ∧
      Keeps hot.catalog d ∧ (Ddl.createWatermark watermarkTable version).Holds d ∧
      Mid checksum most { hot with catalog := d } := by
  rw [Catalog.exec, if_neg (by simp [mid.database])]
  cases there : hot.catalog.watermarks watermarkTable with
  | some table => exact ⟨hot.catalog, rfl, ⟨fun _ => id, id, id⟩, fun _ => by simp [there], mid⟩
  | none =>
    have second : (hot.catalog.put watermarkTable (some ⟨version, []⟩)).watermarks
        watermarkTableV2 = none := by
      rw [Catalog.put_other tables_differ, mid.sound.absent there]
    have keeps : Keeps hot.catalog (hot.catalog.put watermarkTable (some ⟨version, []⟩)) :=
      ⟨fun _ => id, by simp, by simp [there]⟩
    refine ⟨_, rfl, keeps, by simp [Ddl.Holds], ⟨?_, ?_, ?_⟩, mid.database, ?_⟩
    · intro m member records stmt inside
      exact (mid.sound.installed m member records stmt inside).keeps keeps
    · exact fun _ => second
    · simp [second]
    · rw [← mid.furthest]
      simp [Hot.furthest, there, WatermarkTable.furthest, WatermarkTable.of]

theorem adds_step (mid : Mid checksum most hot) (adds : stmt.adds = true)
    (needs : ∀ name ∈ stmt.needs, hot.catalog.tables name = true) (now : Nat) :
    ∃ d, hot.catalog.exec now stmt = .ok d ∧ Keeps hot.catalog d ∧ stmt.Holds d ∧
      Mid checksum most { hot with catalog := d } := by
  cases stmt with
  | create name =>
    have keeps : Keeps hot.catalog
        { hot.catalog with tables := Function.update hot.catalog.tables name true } := by
      refine ⟨fun other there => ?_, id, id⟩
      change Function.update hot.catalog.tables name true other = true
      rw [Function.update_apply]
      split
      · rfl
      · exact there
    refine ⟨_, by rw [Catalog.exec, if_pos mid.database], keeps, ?_, mid.keeps keeps rfl rfl⟩
    exact Function.update_self name true hot.catalog.tables
  | createView name target reads =>
    have keeps : Keeps hot.catalog
        { hot.catalog with views := Function.update hot.catalog.views name true } :=
      ⟨fun _ => id, id, id⟩
    have there : (target :: reads).all hot.catalog.tables = true := List.all_eq_true.mpr needs
    exact ⟨_, by rw [Catalog.exec, if_neg (by simp [mid.database]), if_pos there], keeps, trivial,
      mid.keeps keeps rfl rfl⟩
  | dropView name =>
    have keeps : Keeps hot.catalog
        { hot.catalog with views := Function.update hot.catalog.views name false } :=
      ⟨fun _ => id, id, id⟩
    exact ⟨_, rfl, keeps, trivial, mid.keeps keeps rfl rfl⟩
  | createWatermark name version =>
    obtain rfl : name = watermarkTable := of_decide_eq_true adds
    exact watermark_step mid version now
  | createDatabase | copyWatermarks | dropTable | renameTable => nomatch adds

theorem perform_command (done : hot.catalog.exec (clock file) stmt = .ok d) :
    hot.perform clock (.command file stmt) = .ok { hot with catalog := d } := by
  rw [Hot.perform, done]
  rfl

theorem adds_commands (clock : String → Nat) {stmts : List Ddl}
    (mid : Mid checksum most hot) (file : String)
    (supplied : ∀ stmt ∈ stmts,
      stmt.adds = true ∧ ∀ name ∈ stmt.needs, hot.catalog.tables name = true) :
    ∃ d, attempt (Hot.perform clock) hot (stmts.map (.command file)) =
        ({ hot with catalog := d }, none) ∧
      Keeps hot.catalog d ∧ (∀ stmt ∈ stmts, stmt.Holds d) ∧
      Mid checksum most { hot with catalog := d } := by
  induction stmts generalizing hot with
  | nil => exact ⟨hot.catalog, rfl, ⟨fun _ => id, id, id⟩, by simp, mid⟩
  | cons stmt stmts ih =>
    obtain ⟨adds, needs⟩ := supplied stmt (by simp)
    obtain ⟨c, done, keeps, holds, mid⟩ := adds_step mid adds needs (clock file)
    obtain ⟨d, rest, keeps', holds', mid'⟩ := ih mid fun stmt inside =>
      ⟨(supplied stmt (by simp [inside])).1, fun name need =>
        keeps.tables name ((supplied stmt (by simp [inside])).2 name need)⟩
    refine ⟨d, ?_, keeps.trans keeps', ?_, mid'⟩
    · rw [List.map_cons, attempt_cons (perform_command done)]
      exact rest
    · intro other inside
      rcases List.mem_cons.mp inside with rfl | inside
      · exact holds.keeps keeps'
      · exact holds' other inside

/-! ### Files -/

/-- Nothing that was there or recorded is lost. -/
structure Grows (hot later : Hot) : Prop where
  tables : ∀ name, hot.catalog.tables name = true → later.catalog.tables name = true
  records : ∀ name, hot.Records name → later.Records name

theorem Grows.trans {hot later last : Hot} (first : Grows hot later) (second : Grows later last) :
    Grows hot last :=
  ⟨fun name there => second.tables name (first.tables name there),
    fun name there => second.records name (first.records name there)⟩

def Hot.record (hot : Hot) (m : Migration Ddl) (now : Nat) : Hot :=
  { hot with recorded := hot.recorded ++ [⟨m.name, m.checksum, now⟩] }

theorem record_grows (hot : Hot) (m : Migration Ddl) (now : Nat) : Grows hot (hot.record m now) :=
  ⟨fun _ => id, fun _ ⟨row, there, name⟩ => ⟨row, List.mem_append_left _ there, name⟩⟩

theorem records_record (hot : Hot) (m : Migration Ddl) (now : Nat) (name : String) :
    (hot.record m now).Records name ↔ hot.Records name ∨ m.name = name := by
  simp [Hot.Records, Hot.record, or_and_right, exists_or]

theorem record_mid (mid : Mid checksum most hot) (member : m ∈ shipped checksum) (now : Nat)
    (holds : ∀ stmt ∈ m.statements, stmt.Holds hot.catalog) :
    Mid checksum most (hot.record m now) := by
  refine ⟨⟨?_, mid.sound.absent, mid.sound.staged⟩, mid.database, mid.furthest⟩
  intro other inside records stmt
  rcases (records_record hot m now other.name).mp records with before | same
  · exact mid.sound.installed other inside before stmt
  · have equal := List.inj_on_of_nodup_map shipped_distinct member inside same
    exact equal ▸ holds stmt

theorem record_attempt (hot : Hot) (m : Migration Ddl) :
    attempt (Hot.perform clock) hot [.record m.name m.checksum] =
      (hot.record m (clock m.name), none) := rfl

theorem prefix_single {p : List E} (cut : p <+: [e]) : p = [] ∨ p = [e] := by
  obtain ⟨tail, same⟩ := cut
  cases p with
  | nil => exact .inl rfl
  | cons x p =>
    obtain ⟨rfl, rest⟩ := List.cons.inj same
    rw [(List.append_eq_nil_iff.mp rest).1]
    exact .inr rfl

section
variable (mid : Mid checksum most hot) (member : m ∈ shipped checksum)
  (supplied : ∀ stmt ∈ m.statements,
    stmt.adds = true ∧ ∀ name ∈ stmt.needs, hot.catalog.tables name = true)
include mid member supplied

theorem adds_file (clock : String → Nat) (known : already m.name ≠ none → hot.Records m.name) :
    ∃ later, attempt (Hot.perform clock) hot (fileEffects already m) = (later, none) ∧
      Mid checksum most later ∧ Grows hot later ∧ later.Records m.name := by
  rw [fileEffects]
  split
  case isFalse recorded => exact ⟨hot, rfl, mid, ⟨fun _ => id, fun _ => id⟩, known recorded⟩
  case isTrue =>
    obtain ⟨d, done, keeps, holds, mid⟩ := adds_commands clock mid m.name supplied
    refine ⟨Hot.record ⟨d, hot.recorded⟩ m (clock m.name), ?_, record_mid mid member _ holds,
      ⟨keeps.tables, (record_grows hot m (clock m.name)).records⟩,
      (records_record _ m _ m.name).mpr (.inr rfl)⟩
    rw [Migration.commands, attempt_append done, record_attempt]

theorem adds_file_cut (clock : String → Nat) (cut : p <+: fileEffects already m) :
    ∃ later, attempt (Hot.perform clock) hot p = (later, none) ∧ Mid checksum most later := by
  rw [fileEffects] at cut
  split at cut
  case isFalse => exact ⟨hot, List.prefix_nil.mp cut ▸ rfl, mid⟩
  case isTrue pending =>
    rcases prefix_append_cases cut with inside | ⟨q, inside, rfl⟩
    · have short : p = (m.statements.take p.length).map (.command m.name) := by
        rw [List.map_take]
        exact List.prefix_iff_eq_take.mp inside
      obtain ⟨d, done, _, _, mid⟩ := adds_commands clock mid m.name
        fun stmt there => supplied stmt (List.mem_of_mem_take there)
      exact ⟨_, short ▸ done, mid⟩
    · obtain ⟨d, done, _, holds, mid⟩ := adds_commands clock mid m.name supplied
      rw [Migration.commands, attempt_append done]
      rcases prefix_single inside with rfl | rfl
      · exact ⟨_, rfl, mid⟩
      · exact ⟨_, record_attempt _ m, record_mid mid member _ holds⟩

end

theorem created_tables {file : String × List Ddl} (mid : Mid checksum most hot)
    (inside : file ∈ schemaFiles) (recorded : hot.Records file.1) :
    ∀ name ∈ file.2.flatMap Ddl.creates, hot.catalog.tables name = true := by
  intro name new
  obtain ⟨stmt, inFile, creates⟩ := List.mem_flatMap.mp new
  have holds := mid.sound.installed (migrationOf checksum file) (List.mem_map_of_mem inside)
    recorded stmt inFile
  cases stmt with
  | create made => exact List.mem_singleton.mp creates ▸ holds
  | _ => nomatch creates

section
variable {file : String × List Ddl} {files : List (String × List Ddl)} {tables : List String}

theorem supplied_head (supplied : Supplied tables (file :: files))
    (there : ∀ name ∈ tables, hot.catalog.tables name = true) :
    ∀ stmt ∈ (migrationOf checksum file).statements,
      stmt.adds = true ∧ ∀ name ∈ stmt.needs, hot.catalog.tables name = true :=
  fun stmt inside => ⟨(supplied.1 stmt inside).1,
    fun name need => there name ((supplied.1 stmt inside).2 name need)⟩

/-- After a file the next ones find what they need. -/
theorem adds_next (clock : String → Nat) (mid : Mid checksum most hot)
    (inside : ∀ file' ∈ file :: files, file' ∈ schemaFiles)
    (supplied : Supplied tables (file :: files))
    (there : ∀ name ∈ tables, hot.catalog.tables name = true)
    (known : ∀ file' ∈ file :: files, already file'.1 ≠ none → hot.Records file'.1) :
    ∃ next, attempt (Hot.perform clock) hot (fileEffects already (migrationOf checksum file)) =
        (next, none) ∧
      Mid checksum most next ∧ Grows hot next ∧ next.Records file.1 ∧
      (∀ name ∈ tables ++ file.2.flatMap Ddl.creates, next.catalog.tables name = true) ∧
      ∀ file' ∈ files, already file'.1 ≠ none → next.Records file'.1 := by
  obtain ⟨next, done, mid, grows, recorded⟩ := adds_file mid
    (List.mem_map_of_mem (inside file (by simp))) (supplied_head supplied there) clock
    (known file (by simp))
  refine ⟨next, done, mid, grows, recorded, ?_, ?_⟩
  · intro name either
    rcases List.mem_append.mp either with old | new
    · exact grows.tables name (there name old)
    · exact created_tables mid (inside file (by simp)) recorded name new
  · exact fun file' later absent => grows.records _ (known file' (by simp [later]) absent)

theorem adds_files (clock : String → Nat) (mid : Mid checksum most hot)
    (inside : ∀ file ∈ files, file ∈ schemaFiles)
    (supplied : Supplied tables files)
    (there : ∀ name ∈ tables, hot.catalog.tables name = true)
    (known : ∀ file ∈ files, already file.1 ≠ none → hot.Records file.1) :
    ∃ later, attempt (Hot.perform clock) hot
        ((files.map (migrationOf checksum)).flatMap (fileEffects already)) = (later, none) ∧
      Mid checksum most later ∧ Grows hot later ∧ ∀ file ∈ files, later.Records file.1 := by
  induction files generalizing hot tables with
  | nil => exact ⟨hot, rfl, mid, ⟨fun _ => id, fun _ => id⟩, by simp⟩
  | cons file files ih =>
    obtain ⟨next, done, mid, grows, recorded, there, known⟩ :=
      adds_next clock mid inside supplied there known
    obtain ⟨later, rest, mid, grows', all⟩ := ih mid
      (fun file later => inside file (by simp [later])) supplied.2 there known
    refine ⟨later, ?_, mid, grows.trans grows', ?_⟩
    · rw [List.map_cons, List.flatMap_cons, attempt_append done, rest]
    · intro other member
      rcases List.mem_cons.mp member with rfl | member
      · exact grows'.records _ recorded
      · exact all other member

theorem adds_files_cut (clock : String → Nat) (mid : Mid checksum most hot)
    (inside : ∀ file ∈ files, file ∈ schemaFiles) (supplied : Supplied tables files)
    (there : ∀ name ∈ tables, hot.catalog.tables name = true)
    (known : ∀ file ∈ files, already file.1 ≠ none → hot.Records file.1)
    (cut : p <+: (files.map (migrationOf checksum)).flatMap (fileEffects already)) :
    ∃ later, attempt (Hot.perform clock) hot p = (later, none) ∧ Mid checksum most later := by
  induction files generalizing hot tables p with
  | nil => exact ⟨hot, List.prefix_nil.mp cut ▸ rfl, mid⟩
  | cons file files ih =>
    rw [List.map_cons, List.flatMap_cons] at cut
    rcases prefix_append_cases cut with short | ⟨q, short, rfl⟩
    · exact adds_file_cut mid (List.mem_map_of_mem (inside file (by simp)))
        (supplied_head supplied there) clock short
    · obtain ⟨next, done, mid, _, _, there, known⟩ :=
        adds_next clock mid inside supplied there known
      rw [attempt_append done]
      exact ih mid (fun file later => inside file (by simp [later])) supplied.2 there known short

end

end TelemetryEngine.Storage
