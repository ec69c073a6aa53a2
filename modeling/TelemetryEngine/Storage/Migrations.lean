import Mathlib.Data.List.Sort
import TelemetryEngine.Foundation.Traced
import TelemetryEngine.Foundation.ReplacingTable

/-! The migration runner: the files of the schemas directory in the order of
their names, and `schema_migrations`, where it records what it has applied. -/
namespace TelemetryEngine.Storage
open Foundation Foundation.ReplacingTable

structure Migration (Stmt : Type) where
  name : String
  checksum : String
  statements : List Stmt
deriving DecidableEq

/-! ### Reading a file -/

/-- `str.isspace`, which is `\s` as well. -/
def isSpace (c : Char) : Bool :=
  let code := c.toNat
  (9 ≤ code && code ≤ 13) || (28 ≤ code && code ≤ 32) || code == 0x85 || code == 0xA0 ||
    code == 0x1680 || (0x2000 ≤ code && code ≤ 0x200A) || code == 0x2028 || code == 0x2029 ||
    code == 0x202F || code == 0x205F || code == 0x3000

/-- Where `_COMMENT_RE` stands: in the blanks since a line began, further inside
a line, or in a comment. -/
inductive Scan
  | start (blanks : List Char)
  | inside
  | comment

/-- `_COMMENT_RE.sub("", ..)`. A match begins with a line, skips blanks over any
number of lines, and after two dashes takes the rest of its line. -/
def stripComments : Scan → List Char → List Char
  | .start blanks, [] => blanks
  | .start _, '-' :: '-' :: rest => stripComments .comment rest
  | .start blanks, c :: rest =>
    if isSpace c then stripComments (.start (blanks ++ [c])) rest
    else blanks ++ c :: stripComments .inside rest
  | .inside, [] => []
  | .inside, c :: rest => c :: stripComments (if c = '\n' then .start [] else .inside) rest
  | .comment, [] => []
  | .comment, c :: rest =>
    -- The line end is not part of the match, and the next line may begin one.
    if c = '\n' then c :: stripComments (.start []) rest else stripComments .comment rest

def strip (text : List Char) : List Char :=
  ((text.dropWhile isSpace).reverse.dropWhile isSpace).reverse

/-- `Migration.statements` -/
def statements (sql : List Char) : List (List Char) :=
  (((stripComments (.start []) sql).splitOn ';').filter (strip · ≠ [])).map strip

inductive MigrateFailure
  | schemasNotFound
deriving DecidableEq

/-- `sorted(schemas_dir.glob("*.sql"))` -/
def sqlFiles (files : List (Migration Stmt)) : List (Migration Stmt) :=
  (files.filter (·.name.endsWith ".sql")).insertionSort (·.name ≤ ·.name)

/-- `none` stands for a schemas directory that is not there. -/
def discover (schemas : Option (List (Migration Stmt))) :
    Except MigrateFailure (List (Migration Stmt)) :=
  match schemas with
  | none => .error .schemasNotFound
  | some files => .ok (sqlFiles files)

/-! ### The bookkeeping -/

structure Recorded where
  filename : String
  checksum : String
  appliedAt : Nat
deriving DecidableEq

def Recorded.of (rows : List Recorded) (name : String) : List Recorded :=
  rows.filter (·.filename = name)

/-- `_applied_checksums`; the table is a ReplacingMergeTree(applied_at). -/
def appliedChecksums (rows : List Recorded) (name : String) : Option String :=
  (newest Recorded.appliedAt (Recorded.of rows name)).map Recorded.checksum

/-! ### The run -/

/-- What `apply_all` did, for reporting. -/
structure MigrationResult where
  applied : List String := []
  skipped : List String := []
  drifted : List String := []
deriving DecidableEq

def MigrationResult.changed (result : MigrationResult) : Bool := !result.applied.isEmpty

inductive Effect (Stmt : Type)
  | command (file : String) (stmt : Stmt)
  | createBookkeeping
  | record (filename checksum : String)
deriving DecidableEq

/-- `apply_all(dry_run=True)`; without an answer there is no bookkeeping yet. -/
def dryRun (schemas : Option (List (Migration Stmt))) (answer : Option (String → Option String)) :
    Except MigrateFailure MigrationResult := do
  let migrations ← discover schemas
  let already := answer.getD fun _ => none
  return migrations.foldl (fun result m =>
    if already m.name = some m.checksum then { result with skipped := result.skipped ++ [m.name] }
    else { result with applied := result.applied ++ [m.name] }) {}

section
variable {Stmt : Type} {F : Type}

def execute (file : String) : List Stmt → Traced (Effect Stmt) F Unit
  | [] => pure ()
  | stmt :: rest => do
    Traced.perform (.command file stmt)
    execute file rest

/-- The first file creates the database, which the bookkeeping needs. -/
def runBootstrap : List (Migration Stmt) → Traced (Effect Stmt) F Unit
  | [] => pure ()
  | m :: rest => do
    execute m.name m.statements
    runBootstrap rest

def recordBootstrap (already : String → Option String) (result : MigrationResult) :
    List (Migration Stmt) → Traced (Effect Stmt) F MigrationResult
  | [] => pure result
  | m :: rest =>
    if already m.name ≠ some m.checksum then do
      Traced.perform (.record m.name m.checksum)
      recordBootstrap already { result with applied := result.applied ++ [m.name] } rest
    else recordBootstrap already { result with skipped := result.skipped ++ [m.name] } rest

def applyRest (already : String → Option String) (result : MigrationResult) :
    List (Migration Stmt) → Traced (Effect Stmt) F MigrationResult
  | [] => pure result
  | m :: rest =>
    match already m.name with
    | some prior =>
      if prior = m.checksum then
        applyRest already { result with skipped := result.skipped ++ [m.name] } rest
      else
        -- The file changed after it was applied: surfaced, and not run again.
        applyRest already { result with drifted := result.drifted ++ [m.name] } rest
    | none => do
      execute m.name m.statements
      Traced.perform (.record m.name m.checksum)
      applyRest already { result with applied := result.applied ++ [m.name] } rest

end

/-- `apply_all`. `already` is what the bookkeeping says once it is there. -/
def applyAll (schemas : Option (List (Migration Stmt))) (already : String → Option String) :
    Traced (Effect Stmt) MigrateFailure MigrationResult := do
  let migrations ← Traced.ask (discover schemas)
  runBootstrap (migrations.take 1)
  Traced.perform .createBookkeeping
  let result ← recordBootstrap already {} (migrations.take 1)
  applyRest already result (migrations.drop 1)

/-! ### What a run does -/

section
variable {Stmt : Type} {F : Type} {already : String → Option String}

def Migration.commands (m : Migration Stmt) : List (Effect Stmt) :=
  m.statements.map (.command m.name)

/-- What is done for a file that comes after the first. -/
def fileEffects (already : String → Option String) (m : Migration Stmt) : List (Effect Stmt) :=
  if already m.name = none then m.commands ++ [.record m.name m.checksum] else []

def bootstrapRecord (already : String → Option String) (m : Migration Stmt) : List (Effect Stmt) :=
  if already m.name = some m.checksum then [] else [.record m.name m.checksum]

/-- The names of the files that `selects` picks. -/
def namesWhere (selects : Migration Stmt → Bool) (migrations : List (Migration Stmt)) :
    List String :=
  (migrations.filter selects).map Migration.name

def Migration.pending (already : String → Option String) (m : Migration Stmt) : Bool :=
  already m.name = none

def Migration.current (already : String → Option String) (m : Migration Stmt) : Bool :=
  already m.name = some m.checksum

def Migration.drifted (already : String → Option String) (m : Migration Stmt) : Bool :=
  !m.pending already && !m.current already

theorem execute_eq (file : String) (stmts : List Stmt) :
    (execute file stmts : Traced (Effect Stmt) F Unit) = ⟨stmts.map (.command file), .ok ()⟩ := by
  induction stmts with
  | nil => rfl
  | cons stmt rest ih => rw [execute, Traced.perform_bind, ih]; rfl

theorem applyRest_eq (result : MigrationResult) (rest : List (Migration Stmt)) :
    (applyRest already result rest : Traced (Effect Stmt) F MigrationResult) =
      ⟨rest.flatMap (fileEffects already),
        .ok { applied := result.applied ++ namesWhere (Migration.pending already) rest
              skipped := result.skipped ++ namesWhere (Migration.current already) rest
              drifted := result.drifted ++ namesWhere (Migration.drifted already) rest }⟩ := by
  induction rest generalizing result with
  | nil => simp [applyRest, namesWhere]; rfl
  | cons m rest ih =>
    rw [applyRest]
    cases recorded : already m.name with
    | none =>
      simp only [execute_eq]
      rw [Traced.bind_ok rfl, Traced.perform_bind, ih]
      simp [namesWhere, fileEffects, Migration.commands, Migration.pending, Migration.current,
        Migration.drifted, recorded]
    | some prior =>
      by_cases same : prior = m.checksum
      · simp only [if_pos same, ih]
        simp [namesWhere, fileEffects, Migration.pending, Migration.current, Migration.drifted,
          recorded, same]
      · simp only [if_neg same, ih]
        simp [namesWhere, fileEffects, Migration.pending, Migration.current, Migration.drifted,
          recorded, same]

/-- A run over a directory with a first file. -/
theorem applyAll_eq {files rest : List (Migration Stmt)} {first : Migration Stmt}
    (found : sqlFiles files = first :: rest) :
    applyAll (some files) already =
      ⟨first.commands ++ .createBookkeeping :: bootstrapRecord already first ++
          rest.flatMap (fileEffects already),
        .ok { applied := namesWhere (fun m => !m.current already) [first] ++
                namesWhere (Migration.pending already) rest
              skipped := namesWhere (Migration.current already) (first :: rest)
              drifted := namesWhere (Migration.drifted already) rest }⟩ := by
  have ran : (runBootstrap [first] : Traced (Effect Stmt) MigrateFailure Unit) =
      ⟨first.commands, .ok ()⟩ := by
    rw [runBootstrap, execute_eq, Traced.bind_ok rfl]
    simp [runBootstrap, Migration.commands]
  have recorded : (recordBootstrap already {} [first] :
      Traced (Effect Stmt) MigrateFailure MigrationResult) =
      ⟨bootstrapRecord already first,
        .ok { applied := namesWhere (fun m => !m.current already) [first]
              skipped := namesWhere (Migration.current already) [first] }⟩ := by
    rw [recordBootstrap, bootstrapRecord]
    by_cases same : already first.name = some first.checksum
    · simp [same, recordBootstrap, namesWhere, Migration.current]
      rfl
    · simp [same, recordBootstrap, namesWhere, Migration.current]
  rw [applyAll, discover, found, Traced.ask_ok_bind]
  simp only [List.take_succ_cons, List.take_zero, List.drop_succ_cons, List.drop_zero, ran]
  rw [Traced.bind_ok (a := ()) rfl, Traced.perform_bind]
  simp only [recorded]
  rw [Traced.bind_ok rfl, applyRest_eq]
  by_cases same : already first.name = some first.checksum <;>
    simp [namesWhere, Migration.current, same]

theorem applyAll_empty {files : List (Migration Stmt)} (found : sqlFiles files = []) :
    applyAll (some files) already = ⟨[.createBookkeeping], .ok {}⟩ := by
  rw [applyAll, discover, found, Traced.ask_ok_bind]
  rfl

end
end TelemetryEngine.Storage
