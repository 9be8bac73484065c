import AirDrive.Drive.Changes
import AirDrive.Reconcile.Initial

set_option relaxedAutoImplicit false
set_option autoImplicit false

/-!
# The commands `map` and `start`

`map` records which remote folder is kept in step with which local folder. `start` checks that
both roots are there, runs the initial reconciliation when there is no cursor yet, and enters
the daemon, whose own start-up replays the local changes made while it was stopped.

## Main definitions

* `AirDrive.resolvePath` — from the argument of `map` to a folder id.
* `AirDrive.Start.ensureLocalRoot` — the check of the local root.
* `AirDrive.Start.ensureRemoteRoot` — the probe of the remote root.
* `AirDrive.Start.prepare`, `AirDrive.Start.housekeeping`, `AirDrive.Start.catchUp` — `start` up
  to the daemon, and the start-up of the daemon before and after the watcher is armed.
* `AirDrive.Map.map` — the command `map`.

## Design

A question to the operator and the configuration flag that answers it silently are one
argument. The world holds the tree below the local root, which is there whenever the daemon runs;
what `start` finds at its place is an argument of `ensureLocalRoot`.
-/

namespace AirDrive

open Effect

/-! ## Resolving a remote folder -/

/-- `get_file`: a missing object is an error of the mapping. -/
def getFileMeta (id : FileId) : Task FileResource := do
  match ← (request (.getFile id)).attempt with
  | .ok f => pure f
  | .error (.driveHttp 404 _) => .fail (.mapping "remote file not found")
  | .error e => .fail e

/-- The loop of `resolve_path_notation`: from a folder down the given folder names. -/
def resolveSegments (autoCreate : Bool) : FileId → List String → Task FileId
  | current, [] => pure current
  | current, seg :: rest => do
    let children ← request (.listChildren current)
    match children.find? fun c => c.isFolder && c.name = seg with
    | some c => resolveSegments autoCreate c.id rest
    | none =>
      if autoCreate then do
        let created ← request (.createFolder current seg)
        resolveSegments autoCreate created.id rest
      else .fail (.mapping ("no subfolder `" ++ seg ++ "`"))

/-- The segments below My Drive: a leading `My Drive` names the root itself. -/
def belowMyDrive : List String → List String
  | [] => []
  | seg :: rest =>
    if RelPath.foldCase seg = RelPath.foldCase "My Drive" then rest else seg :: rest

/-- `resolve_path`. -/
def resolvePath (autoCreate : Bool) : RemoteSpec → Task FileId
  | .url id => do
    let file ← getFileMeta id
    if file.isFolder then pure file.id
    else .fail (.mapping ("`" ++ file.name ++ "` resolves to a file, not a folder"))
  | .path segments => resolveSegments autoCreate .rootAlias (belowMyDrive segments)

/-! ## `map` -/

namespace Map

/-- The remote folder of `map`: a path that leads nowhere is made when that is allowed. -/
def remoteFolder (autoCreate confirmed : Bool) (spec : RemoteSpec) : Task FileId := do
  match ← (resolvePath autoCreate spec).attempt, spec with
  | .ok id, _ => pure id
  | .error (.mapping msg), .path _ =>
    if !autoCreate && confirmed then resolvePath true spec else .fail (.mapping msg)
  | .error e, _ => .fail e

/-- `map`, once the local folder is known: resolve the remote folder, making it if that is
allowed, and record the mapping. Nothing else of the database is touched. -/
def map (autoCreate confirmed : Bool) (localPath : String) (spec : RemoteSpec) : Task Unit := do
  let remoteId ← remoteFolder autoCreate confirmed spec
  -- the folder's display name; a failure to read it is not an error
  let _ ← (getFileMeta remoteId).attempt
  sql (.upsertMapping ⟨localPath, remoteId, some spec⟩)

end Map

/-! ## `start` -/

namespace Start

/-- The answers to the questions of `start`. -/
structure Answers where
  /-- Run the initial reconciliation. -/
  initialPass : Bool
  /-- Recreate a remote root that is gone. -/
  recreateRoot : Bool
deriving DecidableEq, Repr

/-- What `start` finds at the local path of the mapping. -/
inductive LocalRoot
  /-- A directory with this tree below it. -/
  | dir (tree : Fs)
  /-- Something else. -/
  | notDir
  /-- Nothing, as when a disk is not mounted. -/
  | missing
  /-- It cannot be inspected. -/
  | unreadable

/-- `ensure_local_root`: the tree below the local root; a missing one is created when that is
allowed, and is then empty. -/
def ensureLocalRoot (mayCreate : Bool) : LocalRoot → Except Error Fs
  | .dir tree => .ok tree
  | .notDir => .error (.mapping "watched folder exists but is not a directory")
  | .missing =>
    if mayCreate then .ok Fs.empty else .error (.mapping "watched folder does not exist")
  | .unreadable => .error (.mapping "cannot inspect watched folder")

/-- Recovery of a remote root that is missing or in the trash: resolve the recorded path again
and bind the mapping to what it leads to. -/
def recreateRoot (mayCreate : Bool) (m : FolderMapping) : Task FileId :=
  match m.remoteFolderSpec with
  | none => .fail (.mapping "remote folder is missing or trashed, no spec was recorded")
  | some (.url _) => .fail (.mapping "remote folder is missing or trashed, URL spec")
  | some (.path segments) =>
    if mayCreate then do
      let newId ← resolvePath true (.path segments)
      sql (.updateRemoteFolderId newId)
      pure newId
    else .fail (.mapping "remote folder is missing or trashed")

/-- `ensure_remote_root`: the id of the remote root for this run. -/
def ensureRemoteRoot (mayCreate : Bool) (m : FolderMapping) : Task FileId := do
  match ← (request (.getFile m.remoteFolderId)).attempt with
  | .ok v => if v.trashed then recreateRoot mayCreate m else pure v.id
  | .error (.driveHttp 404 _) => recreateRoot mayCreate m
  -- a failed probe is left to the daemon: the stored id is trusted as it is
  | .error _ => pure m.remoteFolderId

/-- What `start` found out before it enters the daemon. -/
structure Prepared where
  /-- The id of the remote root. -/
  root : FileId
  /-- Whether this start ran the initial reconciliation. -/
  didInitial : Bool
deriving DecidableEq, Repr

/-- `start` up to the daemon; `none` when the operator declined the initial reconciliation. -/
def prepare (env : Env) (fuel : ℕ) (answers : Answers) : Task (Option Prepared) := do
  match ← sql .getMapping with
  | none => .fail (.mapping "no folder mapping")
  | some m => do
    let cursor ← sql .getCursor
    if cursor = none ∧ answers.initialPass = false then pure none
    else
      let root ← ensureRemoteRoot answers.recreateRoot m
      if cursor = none then Initial.initial env fuel root else pure ()
      let after ← sql .getCursor
      if after = none then .fail (.mapping "drive_change_cursor missing after initial-sync")
      else pure (some ⟨root, cursor = none⟩)

/-- `TOMBSTONE_RETENTION_SECS`. -/
def tombstoneRetentionSecs : ℕ := 30 * 24 * 3600

/-- The daemon's start-up before the watcher is armed: expired tombstones are dropped. -/
def housekeeping : Task Unit := do
  let now ← unixNow
  sql (.gcTombstones (now - tombstoneRetentionSecs))

/-- The daemon's start-up after the watcher is armed: the startup scan, except on the start that
ran the initial reconciliation. A failed scan is only logged. -/
def catchUp (env : Env) (p : Prepared) : Task Unit :=
  if p.didInitial then pure ()
  else do
    let _ ← (StartupScan.startupLocalScan env).attempt
    pure ()

end Start

end AirDrive
