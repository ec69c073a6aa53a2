import Mathlib.Data.List.Dedup
import Mathlib.Logic.Function.Basic
import TelemetryEngine.Storage.MigrationRuns

/-! The shipped schema files, and what their statements do to a ClickHouse server.
Each statement is atomic. All names are those of the database `telemetry`. -/
namespace TelemetryEngine.Storage
open Foundation Foundation.ReplacingTable

/-! ### The watermark table -/

structure WatermarkRow where
  source : String
  watermark : Nat
  updatedAt : Nat
deriving DecidableEq

/-- The version column of the ReplacingMergeTree. -/
inductive Version
  | updatedAt
  | watermark
deriving DecidableEq

structure WatermarkTable where
  version : Version
  rows : List WatermarkRow
deriving DecidableEq

def WatermarkTable.of (table : WatermarkTable) (source : String) : List WatermarkRow :=
  table.rows.filter (·.source = source)

/-- `FINAL WHERE source = ..` -/
def WatermarkTable.final (table : WatermarkTable) (source : String) : Option WatermarkRow :=
  match table.version with
  | .updatedAt => newest WatermarkRow.updatedAt (table.of source)
  | .watermark => newest WatermarkRow.watermark (table.of source)

/-- `max(watermark)` of one source. -/
def WatermarkTable.furthest (table : WatermarkTable) (source : String) : Option Nat :=
  ((table.of source).map WatermarkRow.watermark).max?

/-- `SELECT source, max(watermark) .. GROUP BY source`, inserted at `now`. -/
def WatermarkTable.maxima (now : Nat) (table : WatermarkTable) : List WatermarkRow :=
  (table.rows.map WatermarkRow.source).dedup.filterMap fun source =>
    (table.furthest source).map fun watermark => ⟨source, watermark, now⟩

/-! ### Statements -/

inductive Ddl
  | createDatabase
  /-- `CREATE TABLE IF NOT EXISTS` and `CREATE DICTIONARY IF NOT EXISTS` -/
  | create (name : String)
  /-- `CREATE MATERIALIZED VIEW IF NOT EXISTS .. TO ..`, and the tables and
  dictionaries its query reads. -/
  | createView (name target : String) (reads : List String)
  | dropView (name : String)
  | createWatermark (name : String) (version : Version)
  | copyWatermarks (target source : String)
  | dropTable (name : String)
  | renameTable (old new : String)
deriving DecidableEq

structure Catalog where
  database : Bool
  tables : String → Bool
  views : String → Bool
  watermarks : String → Option WatermarkTable

/-- `none` for a table that is not there. -/
def Catalog.put (catalog : Catalog) (name : String) (table : Option WatermarkTable) : Catalog :=
  { catalog with watermarks := Function.update catalog.watermarks name table }

@[simp] theorem Catalog.put_self (catalog : Catalog) (name : String)
    (table : Option WatermarkTable) : (catalog.put name table).watermarks name = table :=
  Function.update_self _ _ _

@[simp] theorem Catalog.put_other {catalog : Catalog} {name other : String}
    {table : Option WatermarkTable} (different : other ≠ name) :
    (catalog.put name table).watermarks other = catalog.watermarks other :=
  Function.update_of_ne different _ _

inductive DdlFailure
  | unknownDatabase
  | unknownTable
  | tableExists
deriving DecidableEq

def Catalog.exec (now : Nat) (catalog : Catalog) : Ddl → Except DdlFailure Catalog
  | .createDatabase => .ok { catalog with database := true }
  | .create name =>
    if catalog.database then
      .ok { catalog with tables := Function.update catalog.tables name true }
    else .error .unknownDatabase
  | .createView name target reads =>
    if catalog.database = false then .error .unknownDatabase
    else if (target :: reads).all catalog.tables then
      .ok { catalog with views := Function.update catalog.views name true }
    else .error .unknownTable
  | .dropView name => .ok { catalog with views := Function.update catalog.views name false }
  | .createWatermark name version =>
    if catalog.database = false then .error .unknownDatabase
    else if (catalog.watermarks name).isSome then .ok catalog
    else .ok (catalog.put name (some ⟨version, []⟩))
  | .copyWatermarks target source =>
    match catalog.watermarks target, catalog.watermarks source with
    | some into, some table =>
      .ok (catalog.put target (some { into with rows := into.rows ++ table.maxima now }))
    | _, _ => .error .unknownTable
  | .dropTable name => .ok (catalog.put name none)
  | .renameTable old new =>
    match catalog.watermarks old, catalog.watermarks new with
    | none, _ => .error .unknownTable
    | some _, some _ => .error .tableExists
    | some table, none => .ok ((catalog.put old none).put new (some table))

def watermarkTable : String := "cold_export_watermark"
def watermarkTableV2 : String := "cold_export_watermark_v2"
def watermarkKey : String := "spans_raw"

theorem tables_differ : watermarkTableV2 ≠ watermarkTable := by decide

/-- The files of schemas/clickhouse. -/
def schemaFiles : List (String × List Ddl) :=
  [("000_database.sql", [.createDatabase]),
    ("010_kafka_spans.sql", [.create "kafka_spans"]),
    ("020_spans_raw.sql", [.create "spans_raw"]),
    ("030_mv_spans_raw.sql", [.createView "mv_spans_raw" "spans_raw" ["kafka_spans"]]),
    ("040_spans_ingest_errors.sql", [.create "spans_ingest_errors"]),
    ("050_mv_ingest_errors.sql",
      [.createView "mv_spans_ingest_errors" "spans_ingest_errors" ["kafka_spans"]]),
    ("060_dim_allowlist.sql", [.create "dim_allowlist", .create "dim_allowlist_dict"]),
    ("070_spans_1m.sql", [.create "spans_1m"]),
    ("080_mv_spans_1m.sql",
      [.createView "mv_spans_1m" "spans_1m" ["dim_allowlist_dict", "spans_raw"]]),
    ("090_spans_1h.sql", [.create "spans_1h"]),
    ("100_mv_spans_1h.sql", [.createView "mv_spans_1h" "spans_1h" ["spans_1m"]]),
    ("110_mv_spans_1m_v2.sql",
      [.dropView "mv_spans_1m",
        .createView "mv_spans_1m" "spans_1m" ["dim_allowlist_dict", "spans_raw"]]),
    ("120_pipeline_health.sql", [.create "pipeline_health"]),
    ("130_cold_export_watermark.sql", [.createWatermark watermarkTable .updatedAt]),
    ("140_cold_watermark_version.sql",
      [.createWatermark watermarkTableV2 .watermark,
        .copyWatermarks watermarkTableV2 watermarkTable,
        .dropTable watermarkTable,
        .renameTable watermarkTableV2 watermarkTable])]

def migrationOf (checksum : String → String) (file : String × List Ddl) : Migration Ddl :=
  ⟨file.1, checksum file.1, file.2⟩

/-- The shipped directory. `checksum` gives the checksum of each file. -/
def shipped (checksum : String → String) : List (Migration Ddl) :=
  schemaFiles.map (migrationOf checksum)

/-! ### A server -/

/-- The catalog, and the rows of `schema_migrations`. -/
structure Hot where
  catalog : Catalog
  recorded : List Recorded

/-- What an effect of a migration run does, or how it fails. -/
def Hot.perform (clock : String → Nat) (hot : Hot) : Effect Ddl → Except DdlFailure Hot
  | .command file stmt => (hot.catalog.exec (clock file) stmt).map ({ hot with catalog := · })
  | .createBookkeeping => if hot.catalog.database then .ok hot else .error .unknownDatabase
  | .record name checksum =>
    .ok { hot with recorded := hot.recorded ++ [⟨name, checksum, clock name⟩] }

/-- A migration run: to the end of what it does, to where it is cut off, or to the
first statement that fails. -/
def Hot.migrate (checksum : String → String) (hot : Hot) (run : MigrateRun) :
    Hot × Option DdlFailure :=
  attempt (Hot.perform run.clock) hot (run.performed (shipped checksum) hot.recorded)

def Hot.step (checksum : String → String) (hot : Hot) (run : MigrateRun) : Hot :=
  (hot.migrate checksum run).1

/-- `read_watermark` -/
def Hot.readWatermark (hot : Hot) : Except DdlFailure (Option Nat) :=
  match hot.catalog.watermarks watermarkTable with
  | none => .error .unknownTable
  | some table => .ok ((table.final watermarkKey).map WatermarkRow.watermark)

/-- The maximum watermark that the table holds. -/
def Hot.furthest (hot : Hot) : Option Nat :=
  (hot.catalog.watermarks watermarkTable).bind (·.furthest watermarkKey)

end TelemetryEngine.Storage
