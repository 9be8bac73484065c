import AirDrive.Config.Toml
import AirDrive.Error

set_option relaxedAutoImplicit false
set_option autoImplicit false

/-!
# The migration of the configuration

On startup the daemon inserts into the user's `config.toml` every key of the current schema that
is absent from it, each under a comment that describes it.

## Main definitions

* `AirDrive.Config.fieldDescriptions`, `AirDrive.Config.referenceDoc` — the schema: what describes
  a key, and the sections with their defaults.
* `AirDrive.Config.mergeInto` — inserting what is missing.
* `AirDrive.Config.migrateOnDisk` — the migration of a file.

## Design

The text of a document is read and written by the editor library, here the parameters `parse` and
`print`. The default configuration is given as the document that its rendering parses to; keys
whose default is unset are not part of it.
-/

namespace AirDrive.Config

open Toml

/-- `FIELD_DESCRIPTIONS`: section, key and the text that describes it. -/
def fieldDescriptions : List (String × String × String) := [
  ("daemon", "remote_poll_interval_seconds",
    "Interval at which the daemon polls Drive `changes.list`, in seconds. Clamped to [10, 60]."),
  ("daemon", "safety_net_interval_seconds",
    "Interval of the safety-net reconciliation cycle, in seconds. Must stay >= 300 (5 min)."),
  ("daemon", "log_file",
    "Optional log file path; empty string disables file logging (stderr only)."),
  ("daemon", "log_level",
    "Persistent log level; empty string means unset (use -v / RUST_LOG / warn default). A bare level applies to air_drive; a value with `=` is a full RUST_LOG-style directive. RUST_LOG and -v take precedence."),
  ("daemon", "log_format", "Log record format: text (default) or json."),
  ("daemon", "log_color",
    "ANSI colour policy for stderr logs: auto (default), always, or never. The file layer is always colour-free."),
  ("watch", "ignore_patterns",
    "Glob patterns matched against the file name. Files whose name matches any pattern are never synced."),
  ("watch", "auto_create_root",
    "When true, the watched folder is created without prompting if missing. When false (default), the CLI prompts the user interactively on a TTY, or fails conservatively otherwise."),
  ("watch", "symlinks",
    "How symlinks under the watched root are handled: skip (default; ignored) or follow (resolved to their target and synced; targets outside the root are skipped, cycles are broken)."),
  ("oauth", "client_id",
    "Override the embedded OAuth client_id with your own Google Cloud Desktop client."),
  ("oauth", "client_secret",
    "Companion client_secret for the Desktop OAuth client. Set together with client_id."),
  ("mapping", "local_path",
    "Absolute path of the watched local folder (display only; authoritative value lives in state.db)."),
  ("mapping", "remote_folder_name",
    "Human-readable remote folder path (display only; authoritative value lives in state.db)."),
  ("mapping", "auto_create_remote_root",
    "When true, `air-drive map` creates any missing folder under a path: notation target on Drive without prompting. When false (default), the CLI prompts the user interactively on a TTY, or fails conservatively otherwise. Only applies to path: notation — bare IDs and URLs reference a specific resource."),
  ("rclone", "path",
    "Absolute path to a user-provided rclone binary. When set, the daemon uses this instead of probing PATH / cache / downloading."),
  ("rclone", "min_version",
    "Minimum acceptable rclone version (informational; the binary check uses a compiled-in constant).")]

/-- `description_for`. -/
def descriptionFor (section' key : String) : Option String :=
  (fieldDescriptions.find? fun d => d.1 = section' && d.2.1 = key).map fun d => d.2.2

/-- `default_ignore_patterns`. -/
def defaultIgnorePatterns : List String :=
  [".*.swp", ".*.swo", ".*.swx", ".*.swn", "4913", "#*#", "*~", ".#*", ".goutputstream-*",
    ".~lock.*#", "~$*", "*.___jb_tmp___", "*.___jb_old___", ".DS_Store", "._*", "Thumbs.db",
    "desktop.ini"]

/-- A string literal without characters to escape. -/
def quoted (s : String) : Item := .scalar ("\"" ++ s ++ "\"")

/-- A section of the reference document. -/
def referenceSection (name : String) (keys : List (String × Item)) : Entry :=
  ([], name, .table (keys.map fun k => ([], k.1, k.2)))

/-- `build_reference_doc`: the default configuration, section by section. -/
def referenceDoc : Document where
  entries := [
    referenceSection "oauth" [],
    referenceSection "mapping" [("auto_create_remote_root", .scalar "false")],
    referenceSection "daemon" [
      ("remote_poll_interval_seconds", .scalar "30"),
      ("safety_net_interval_seconds", .scalar "300"),
      ("log_file", quoted ""), ("log_level", quoted ""),
      ("log_format", quoted "text"), ("log_color", quoted "auto")],
    referenceSection "rclone" [],
    referenceSection "watch" [
      ("ignore_patterns", .array (defaultIgnorePatterns.map fun p => ([], quoted p)) []),
      ("auto_create_root", .scalar "false"), ("symlinks", quoted "skip")],
    referenceSection "sync" [("remote_deletes", quoted "trash")]]
  trailing := []
  unique := by decide

/-- `MigrationReport`: the section and key of each field that was inserted. -/
abbrev MigrationReport := List (String × String)

/-- The comment that an inserted key gets. -/
def insertedComments (section' key : String) : List String :=
  (descriptionFor section' key).toList.map ("# " ++ ·)

/-- One key of a section: inserted at the end unless the user's section has it. -/
def insertMissing (section' : String) (acc : List Entry × MigrationReport) (ref : Entry) :
    List Entry × MigrationReport :=
  if acc.1.any fun e => e.2.1 = ref.2.1 then acc
  else (acc.1 ++ [(insertedComments section' ref.2.1, ref.2.1, ref.2.2)],
    acc.2 ++ [(section', ref.2.1)])

/-- `contains_table`: the key has an item that is a table, which an inline table is not. -/
def containsTable (doc : Document) (key : String) : Bool :=
  match doc.get key with
  | some (.table _) => true
  | _ => false

/-- One section of the reference: the user's document gets the table unless it has it, and the
table the keys it lacks. -/
def mergeSection (acc : Document × MigrationReport) (ref : Entry) : Document × MigrationReport :=
  match ref.2.2 with
  | .table refKeys =>
    let doc := if containsTable acc.1 ref.2.1 then acc.1 else acc.1.insert ref.2.1 (.table [])
    match doc.get ref.2.1 with
    | some (.table user) =>
      let filled := refKeys.foldl (insertMissing ref.2.1) (user, acc.2)
      (doc.modify ref.2.1 fun _ => .table filled.1, filled.2)
    | _ => (doc, acc.2)
  | _ => acc

/-- `merge_into`. -/
def mergeInto (reference userDoc : Document) : Document × MigrationReport :=
  reference.entries.foldl mergeSection (userDoc, [])

/-- What a migration leaves: its answer, and the text it wrote to the file, if it wrote. -/
structure Migrated where
  /-- The answer. -/
  report : Except Error MigrationReport
  /-- The new content of the file. -/
  written : Option String

/-- `migrate_on_disk`: a missing file is left alone, and so is one that lacks nothing. -/
def migrateOnDisk (parse : String → Except String Document) (print : Document → String)
    (file : Option String) : Migrated :=
  match file with
  | none => ⟨.ok [], none⟩
  | some text =>
    match parse text with
    | .error message => ⟨.error (.toml message), none⟩
    | .ok userDoc =>
      let merged := mergeInto referenceDoc userDoc
      ⟨.ok merged.2, if merged.2 = [] then none else some (print merged.1)⟩

end AirDrive.Config
