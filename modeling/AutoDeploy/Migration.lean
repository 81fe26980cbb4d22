import AutoDeploy.GoStrings
import AutoDeploy.InterleavingRestart
import AutoDeploy.Server

namespace AutoDeploy

open Interleaving

/-- A row of `deploy_queue`, the table of the releases that had one queue for all apps. Its two
times hold NULL or any text. -/
structure LegacyRow where
  id : Int
  tag : String
  status : String
  errorMsg : Option String
  createdAt : Option String
  updatedAt : Option String
deriving DecidableEq

structure LegacyQueue where
  rows : List LegacyRow
  primaryKey : (rows.map LegacyRow.id).Nodup

/-- `ORDER BY id ASC`. -/
def LegacyQueue.inOrder (legacy : LegacyQueue) : List LegacyRow :=
  legacy.rows.mergeSort fun row other => row.id ≤ other.id

/-- `deploy_jobs` as any release may have left it: the columns that were added to it later, and
whether `idx_deploy_jobs_active_unique` is there. -/
structure JobsTable where
  rows : List JobRow
  columns : List String
  activeIndex : Bool
  primaryKey : (rows.map JobRow.id).Nodup
  activeUnique : activeIndex = true →
    ((rows.filter JobRow.isActive).map JobRow.activeKey).Nodup

namespace JobsTable

/-- The outcome of a statement that would leave these rows. -/
def withRows (table : JobsTable) (rows : List JobRow) : Except SqlError JobsTable :=
  if pk : (rows.map JobRow.id).Nodup then
    if au : table.activeIndex = true → ((rows.filter JobRow.isActive).map JobRow.activeKey).Nodup
    then .ok ⟨rows, table.columns, table.activeIndex, pk, au⟩
    else .error .unique
  else .error .primaryKey

/-- The table of `CREATE TABLE IF NOT EXISTS deploy_jobs`, when there was none. -/
def created : JobsTable where
  rows := []
  columns := ["download_bytes", "download_duration_ms", "download_speed_bps"]
  activeIndex := false
  primaryKey := List.nodup_nil
  activeUnique _ := List.nodup_nil

/-- `ALTER TABLE deploy_jobs ADD COLUMN`. -/
def addColumn (column : String) (table : JobsTable) : Except SqlError JobsTable :=
  if column ∈ table.columns then
    .error (.other ("SQL logic error: duplicate column name: " ++ column ++ " (1)"))
  else .ok { table with columns := table.columns ++ [column] }

/-- The row that `ROW_NUMBER() OVER (PARTITION BY app_id, tag ORDER BY seq ASC)` numbers 1 among
the active ones with this key. -/
def earliestActive (rows : List JobRow) (key : String × String) : Option JobRow :=
  @List.argmin _ _ Int.instLinearOrder.toPreorder Int.instLinearOrder.toDecidableLT JobRow.seq
    (rows.filter fun row => row.isActive && row.activeKey == key)

def demoted (rows : List JobRow) (row : JobRow) : Bool :=
  row.isActive && earliestActive rows row.activeKey != some row

def supersededMsg : String := "superseded: duplicate active job removed during migration"

/-- The UPDATE that leaves one active job for each app and tag. -/
def dedupActive (table : JobsTable) : Except SqlError JobsTable :=
  table.withRows (table.rows.map fun row =>
    if demoted table.rows row then { row with status := .failed, errorMsg := some supersededMsg }
    else row)

/-- `CREATE UNIQUE INDEX IF NOT EXISTS idx_deploy_jobs_active_unique`. -/
def createActiveUnique (table : JobsTable) : Except SqlError JobsTable :=
  if au : ((table.rows.filter JobRow.isActive).map JobRow.activeKey).Nodup then
    .ok { table with activeIndex := true, activeUnique := fun _ => au }
  else .error .unique

end JobsTable

structure Database where
  legacy : Option LegacyQueue
  jobs : Option JobsTable

namespace Database

/-- A statement on `deploy_jobs`. -/
def onJobs (statement : JobsTable → Except SqlError JobsTable) (db : Database) :
    Except SqlError Database :=
  match db.jobs with
  | none => .error (.other "SQL logic error: no such table: deploy_jobs (1)")
  | some table => (statement table).map fun after => { db with jobs := some after }

def createJobs (db : Database) : Except SqlError Database :=
  .ok { db with jobs := some (db.jobs.getD .created) }

def legacyRows (db : Database) : Except SqlError (List LegacyRow) :=
  match db.legacy with
  | none => .error (.other "SQL logic error: no such table: deploy_queue (1)")
  | some legacy => .ok legacy.inOrder

end Database

/-- The database of the process that migrates, and how many connections of its pool are taken. -/
structure Migrating where
  db : Database
  inUse : ℕ

/-- `wrapped` is `fmt.Errorf(op + ": %w", err)`. -/
inductive MigrateError
  | wrapped (op : String) (err : SqlError)
  | generateID (text : String)

abbrev MigrateOp := ExceptT MigrateError (Prog Migrating Choice Empty)

/-- `strings.Contains(err.Error(), "duplicate column")`. -/
def isDuplicateColumn : SqlError → Bool
  | .other text => GoStrings.contains text "duplicate column"
  | _ => false

section Statements

/-- A pool with room for one more connection. With `SetMaxOpenConns(0)` it has no limit. -/
def connFree (maxOpenConns : ℕ) (s : Migrating) : Bool :=
  maxOpenConns == 0 || s.inUse < maxOpenConns

/-- `db.Exec`, which waits for a connection and gives it back. -/
def dbExec (maxOpenConns : ℕ) (statement : Database → Except SqlError Database) :
    Prog Migrating Choice Empty (Except SqlError Unit) :=
  Prog.await (connFree maxOpenConns) fun s k =>
    match k.fault with
    | some text => (.error (.other text), s, [])
    | none =>
      match statement s.db with
      | .error e => (.error e, s, [])
      | .ok db => (.ok (), { s with db := db }, [])

/-- `db.QueryRow(...).Scan`. -/
def dbQueryRow {α : Type} (maxOpenConns : ℕ) (select : Database → α) :
    Prog Migrating Choice Empty (Except SqlError α) :=
  Prog.await (connFree maxOpenConns) fun s k =>
    match k.fault with
    | some text => (.error (.other text), s, [])
    | none => (.ok (select s.db), s, [])

/-- `db.Query`, which keeps its connection until the rows are closed. -/
def dbQuery {α : Type} (maxOpenConns : ℕ) (select : Database → Except SqlError α) :
    Prog Migrating Choice Empty (Except SqlError α) :=
  Prog.await (connFree maxOpenConns) fun s k =>
    match k.fault with
    | some text => (.error (.other text), s, [])
    | none =>
      match select s.db with
      | .error e => (.error e, s, [])
      | .ok value => (.ok value, { s with inUse := s.inUse + 1 }, [])

/-- `rows.Next`, with the error that `rows.Err` reports for it. -/
def rowsNext : Prog Migrating Choice Empty (Except SqlError Unit) :=
  Prog.atomic fun s k =>
    match k.fault with
    | some text => (.error (.other text), s, [])
    | none => (.ok (), s, [])

/-- `rows.Close`. -/
def rowsClose : Prog Migrating Choice Empty Unit :=
  Prog.atomic fun s _ => ((), { s with inUse := s.inUse - 1 }, [])

/-- `rand.Read` and `hex.EncodeToString`. -/
def randomJobID : Prog Migrating Choice Empty (Except MigrateError String) :=
  Prog.atomic fun s k =>
    match k.fault with
    | some text => (.error (.generateID text), s, [])
    | none => (.ok k.id, s, [])

end Statements

/-- `if err != nil { return fmt.Errorf(op + ": %w", err) }`. -/
def wrap {α : Type} (op : String) (p : Prog Migrating Choice Empty (Except SqlError α)) :
    MigrateOp α :=
  ExceptT.mk (Except.mapError (MigrateError.wrapped op) <$> p)

structure ScannedRow where
  tag : String
  status : String
  errMsg : String
  createdAt : String
  updatedAt : String

section Scan

variable (scanTime : String → Option String)

/-- The conversion of a column into a `time.Time`. `scanTime` is the driver's, for a text. -/
def scanColumn (index : ℕ) (name : String) : Option String → Except SqlError String
  | none => .error (.other ("sql: Scan error on column index " ++ toString index ++ ", name \"" ++
      name ++ "\": unsupported Scan, storing driver.Value type <nil> into type *time.Time"))
  | some text =>
    match scanTime text with
    | some time => .ok time
    | none => .error (.other ("sql: Scan error on column index " ++ toString index ++
        ", name \"" ++ name ++
        "\": unsupported Scan, storing driver.Value type string into type *time.Time"))

/-- `rows.Scan(&tag, &status, &errMsg, &createdAt, &updatedAt)`. -/
def scanLegacy (row : LegacyRow) : Except SqlError ScannedRow := do
  let createdAt ← scanColumn scanTime 3 "created_at" row.createdAt
  let updatedAt ← scanColumn scanTime 4 "updated_at" row.updatedAt
  return ⟨row.tag, row.status, row.errorMsg.getD "", createdAt, updatedAt⟩

end Scan

/-- The row of the backfill, without its two times. -/
def ScannedRow.job (row : ScannedRow) (jobID : String) (seq : Int) : JobRow :=
  ⟨jobID, seq, "legacy", row.tag, .ofText row.status, .webhook, none,
    if row.errMsg = "" then none else some row.errMsg, 0, 0, 0, ""⟩

/-- `COALESCE(MAX(seq), 0) + 1`. -/
def JobsTable.nextSeq (table : JobsTable) : Int := (table.rows.map JobRow.seq).max?.getD 0 + 1

/-- The INSERT of the backfill. -/
def JobsTable.insertLegacy (jobID : String) (row : ScannedRow) (table : JobsTable) :
    Except SqlError JobsTable :=
  table.withRows (table.rows ++ [row.job jobID table.nextSeq])

section Migrate

variable (maxOpenConns : ℕ) (scanTime : String → Option String)

/-- The columns that `Migrate` adds to an older `deploy_jobs`. -/
def addedColumns : List String :=
  ["download_bytes", "download_duration_ms", "download_speed_bps", "deploy_log"]

def addColumns : List String → MigrateOp Unit
  | [] => return
  | column :: rest => do
    let added ← ExceptT.lift (dbExec maxOpenConns (Database.onJobs (JobsTable.addColumn column)))
    match added with
    | .error e =>
      if isDuplicateColumn e then addColumns rest
      else throw (.wrapped "deploy_queue: migrate deploy_jobs" e)
    | .ok () => addColumns rest

/-- `Migrate` up to its last index. It returns whether the legacy rows are to be copied. -/
def migrateSchema : MigrateOp Bool := do
  wrap "deploy_queue: set WAL" (dbExec maxOpenConns .ok)
  wrap "deploy_queue: set busy_timeout" (dbExec maxOpenConns .ok)
  let legacyExists ← wrap "deploy_queue: check legacy table"
    (dbQueryRow maxOpenConns fun db => db.legacy.isSome)
  let newExists ← wrap "deploy_queue: check new table"
    (dbQueryRow maxOpenConns fun db => db.jobs.isSome)
  wrap "deploy_queue: create table" (dbExec maxOpenConns Database.createJobs)
  addColumns maxOpenConns addedColumns
  wrap "deploy_queue: create index" (dbExec maxOpenConns .ok)
  wrap "deploy_queue: dedup active jobs"
    (dbExec maxOpenConns (Database.onJobs JobsTable.dedupActive))
  wrap "deploy_queue: create active-unique index"
    (dbExec maxOpenConns (Database.onJobs JobsTable.createActiveUnique))
  return legacyExists && !newExists

/-- The loop over the rows of the legacy query. -/
def backfill : List LegacyRow → MigrateOp Unit
  | [] => wrap "deploy_queue: iterate legacy rows" rowsNext
  | row :: rest => do
    wrap "deploy_queue: iterate legacy rows" rowsNext
    let scanned ← wrap "deploy_queue: scan legacy row" (pure (scanLegacy scanTime row))
    let jobID ← ExceptT.mk randomJobID
    wrap "deploy_queue: backfill legacy row"
      (dbExec maxOpenConns (Database.onJobs (JobsTable.insertLegacy jobID scanned)))
    backfill rest

def backfillLegacy : MigrateOp Unit := do
  let rows ← wrap "deploy_queue: read legacy rows" (dbQuery maxOpenConns Database.legacyRows)
  ExceptT.mk do
    let result ← (backfill maxOpenConns scanTime rows).run
    rowsClose
    return result

def Migrate : MigrateOp Unit := do
  let copy ← migrateSchema maxOpenConns
  if copy then backfillLegacy maxOpenConns scanTime

end Migrate

end AutoDeploy
