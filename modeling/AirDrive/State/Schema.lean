import AirDrive.Data.Sql

set_option relaxedAutoImplicit false
set_option autoImplicit false

/-!
# The schema of the state database

The tables of the state database and the ladder of migrations that builds them, statement by
statement, and the opening of a database file, which runs the part of the ladder that the file has
not seen.

## Main definitions

* `AirDrive.Schema.bootstrap`, `AirDrive.Schema.migrations` — the statements.
* `AirDrive.Schema.openDb` — opening a file.
* `AirDrive.Schema.schemaAt` — the tables at a version.

## Design

`AUTOINCREMENT` says which ids the engine may choose for new rows, and `ON DELETE CASCADE` what a
deletion does; no migration does either, and the definitions leave them out.
-/

namespace AirDrive.Schema

open Data.Sql

/-- An `INTEGER PRIMARY KEY`. -/
def keyColumn (name : String) : Column := ⟨name, .integer, true, .null, none, none⟩

/-- An `INTEGER` column that may be null. -/
def integerColumn (name : String) : Column := ⟨name, .integer, false, .null, none, none⟩

/-- A `TEXT` column that may be null. -/
def textColumn (name : String) : Column := ⟨name, .text, false, .null, none, none⟩

/-- `NOT NULL`. -/
def required (c : Column) : Column := { c with notNull := true }

/-- `DEFAULT`. -/
def defaulting (n : ℤ) (c : Column) : Column := { c with default := .integer n }

/-- `CHECK (column IN (...))` over texts. -/
def oneOf (l : List String) (c : Column) : Column := { c with allowed := some (l.map .text) }

/-- `REFERENCES table(id) ON DELETE CASCADE`. -/
def referring (table : String) (c : Column) : Column := { c with references := some table }

/-- The table that `BOOTSTRAP` creates if it is missing. -/
def schemaVersion : Table where
  name := "schema_version"
  columns := [keyColumn "version", required (integerColumn "applied_at")]
  key := "version"

/-- The columns of `pending_operation`, for a set of operations. -/
def operationColumns (ops : List String) : List Column := [
  keyColumn "id",
  referring "sync_item" (required (integerColumn "sync_item_id")),
  oneOf ops (required (textColumn "op")),
  textColumn "payload",
  defaulting 0 (required (integerColumn "attempts")),
  required (integerColumn "next_attempt_at"),
  textColumn "last_error",
  required (integerColumn "enqueued_at")]

/-- The columns of `state_meta`, for a set of blocks. -/
def metaColumns (kinds : List String) : List Column := [
  { keyColumn "id" with allowed := some [.integer 1] },
  oneOf kinds (textColumn "blocked_kind"),
  textColumn "blocked_message",
  integerColumn "blocked_at",
  integerColumn "last_sync_at",
  defaulting 0 (required (integerColumn "items_uploaded")),
  defaulting 0 (required (integerColumn "items_downloaded"))]

/-- `V1_SCHEMA`. -/
def v1Schema : List Statement := [
  .createTable {
    name := "account"
    columns := [keyColumn "id", required (textColumn "email"),
      required (integerColumn "created_at"), required (integerColumn "linked_at")] },
  .createTable {
    name := "folder_mapping"
    columns := [keyColumn "id", referring "account" (required (integerColumn "account_id")),
      required (textColumn "local_path"), required (textColumn "remote_folder_id"),
      textColumn "remote_folder_name", required (integerColumn "created_at")] },
  .createTable {
    name := "sync_item"
    columns := [keyColumn "id", referring "folder_mapping" (required (integerColumn "mapping_id")),
      required (textColumn "relative_path"), oneOf ["file", "dir"] (required (textColumn "kind")),
      textColumn "remote_id", integerColumn "size", textColumn "md5", integerColumn "local_inode",
      required (integerColumn "last_synced_at"),
      oneOf ["synced", "pending_local", "pending_remote", "conflict", "skipped"]
        (required (textColumn "state"))] },
  .createIndex "sync_item" ⟨"sync_item_mapping_relpath", ["mapping_id", "relative_path"], true⟩,
  .createTable {
    name := "pending_operation"
    columns := operationColumns ["upload", "download", "delete_local", "delete_remote",
      "rename_local", "rename_remote", "create_dir_local", "create_dir_remote",
      "mark_conflict"] },
  .createIndex "pending_operation"
    ⟨"pending_operation_next_attempt", ["next_attempt_at"], false⟩,
  .createTable {
    name := "conflict_record"
    columns := [keyColumn "id", referring "sync_item" (required (integerColumn "sync_item_id")),
      required (textColumn "original_relative_path"),
      required (textColumn "conflict_relative_path"), required (integerColumn "detected_at")] },
  .createTable {
    name := "drive_change_cursor"
    columns := [keyColumn "id", referring "folder_mapping" (required (integerColumn "mapping_id")),
      required (textColumn "page_token"), required (integerColumn "updated_at")] }]

/-- `V2_SCHEMA`. -/
def v2Schema : List Statement := [
  .createTable { name := "state_meta", columns := metaColumns ["auth", "remote", "mapping"] },
  .insert "state_meta" [("id", .integer 1)]]

/-- `V3_SCHEMA`. -/
def v3Schema : List Statement := [.addColumn "folder_mapping" (textColumn "remote_folder_spec")]

/-- `V4_SCHEMA`. -/
def v4Schema : List Statement := [.addColumn "sync_item" (integerColumn "trashed_at")]

/-- The table that `V5_SCHEMA` puts in the place of `pending_operation`. -/
def pendingOperationV5 : Table where
  name := "pending_operation_v5"
  columns := operationColumns ["upload", "download", "delete_local", "delete_remote",
    "rename_local", "rename_remote", "create_dir_local", "create_dir_remote", "write_shortcut",
    "mark_conflict"]

/-- `V5_SCHEMA`. -/
def v5Schema : List Statement := [
  .createTable pendingOperationV5,
  .insertSelect "pending_operation_v5"
    ["id", "sync_item_id", "op", "payload", "attempts", "next_attempt_at", "last_error",
      "enqueued_at"]
    ["id", "sync_item_id", "op", "payload", "attempts", "next_attempt_at", "last_error",
      "enqueued_at"]
    "pending_operation",
  .dropTable "pending_operation",
  .renameTable "pending_operation_v5" "pending_operation",
  .createIndex "pending_operation"
    ⟨"pending_operation_next_attempt", ["next_attempt_at"], false⟩]

/-- The table that `V6_SCHEMA` puts in the place of `state_meta`. -/
def stateMetaV6 : Table where
  name := "state_meta_v6"
  columns := metaColumns ["auth", "remote", "mapping", "transient"]

/-- `V6_SCHEMA`. -/
def v6Schema : List Statement := [
  .createTable stateMetaV6,
  .insertSelect "state_meta_v6"
    ["id", "blocked_kind", "blocked_message", "blocked_at", "last_sync_at", "items_uploaded",
      "items_downloaded"]
    ["id", "blocked_kind", "blocked_message", "blocked_at", "last_sync_at", "items_uploaded",
      "items_downloaded"]
    "state_meta",
  .dropTable "state_meta",
  .renameTable "state_meta_v6" "state_meta"]

/-- `MIGRATIONS`. -/
def migrations : List (List Statement) :=
  [v1Schema, v2Schema, v3Schema, v4Schema, v5Schema, v6Schema]

/-- `LATEST_VERSION`. -/
def latestVersion : ℕ := 6

example : migrations.length = latestVersion := rfl

/-! ## Opening -/

/-- The ways opening a file fails. -/
inductive OpenFailure
  /-- The file was written by a newer release. -/
  | newer (current : ℤ)
  /-- A statement failed. -/
  | sqlite (f : Failure)
deriving DecidableEq, Repr

/-- `BOOTSTRAP`: `CREATE TABLE IF NOT EXISTS schema_version`. -/
def bootstrap (db : Database) : Except Failure Database :=
  if db.tables.any fun T => T.name = schemaVersion.name then .ok db
  else exec (.createTable schemaVersion) db

/-- The version a row of `schema_version` records. -/
def versionOf (r : Row) : ℤ :=
  match r "version" with
  | .integer n => n
  | _ => 0

/-- `SELECT COALESCE(MAX(version), 0) FROM schema_version`. -/
def currentVersion (db : Database) : ℤ :=
  ((db.rows "schema_version").map versionOf).max?.getD 0

/-- The statement that records a version. -/
def recordVersion (target : ℕ) (now : ℤ) : Statement :=
  .insert "schema_version" [("version", .integer target), ("applied_at", .integer now)]

/-- The statements of the steps of a ladder above the current version, the first step of the
ladder leading to the version `target`. -/
def pendingSteps (current now : ℤ) : ℕ → List (List Statement) → List Statement
  | _, [] => []
  | target, sql :: ladder =>
    (if (target : ℤ) ≤ current then [] else sql ++ [recordVersion target now]) ++
      pendingSteps current now (target + 1) ladder

/-- `Db::open` of a binary with some migrations. The bootstrap, the query of the version and each
statement of the migration may meet an I/O error. -/
def openDb (ladder : List (List Statement)) (now : ℤ) (fails : ℕ → Bool) (db : Database) :
    Except OpenFailure Unit × Database :=
  if fails 0 then (.error (.sqlite .io), db)
  else
    match bootstrap db with
    | .error e => (.error (.sqlite e), db)
    | .ok db =>
      if fails 1 then (.error (.sqlite .io), db)
      else if (ladder.length : ℤ) < currentVersion db then
        (.error (.newer (currentVersion db)), db)
      else
        match transaction fails 2 (pendingSteps (currentVersion db) now 1 ladder) db with
        | (.ok (), db) => (.ok (), db)
        | (.error e, db) => (.error (.sqlite e), db)

/-- The tables of a file that was first opened by a release of a version. -/
def schemaAt (version : ℕ) : List Table :=
  (openDb (migrations.take version) 0 (fun _ => false) Database.empty).2.tables

end AirDrive.Schema
