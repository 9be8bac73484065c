import Mathlib.Algebra.Group.Nat.Defs
import AirDrive.Drive.Engine
import AirDrive.Reconcile.Shortcut

set_option relaxedAutoImplicit false
set_option autoImplicit false

/-!
# The dispatcher

Executes the queued operations, one at a time: `execute` performs an operation, `drainOne` is
one iteration of the drain loop, with the bookkeeping of successes, failures and abandoned
operations.

## Main definitions

* `AirDrive.Dispatcher.execute`, with one definition for each operation.
* `AirDrive.Dispatcher.ensureRemoteFolder`, `AirDrive.Dispatcher.persistDir`.
* `AirDrive.Dispatcher.backoffSeconds`, `AirDrive.Dispatcher.drainOne`.
-/

namespace AirDrive.Dispatcher

open Effect

/-- `MAX_ATTEMPTS`. -/
def maxAttempts : ℕ := 10

/-- `MAX_BACKOFF_SECS`. -/
def maxBackoffSecs : ℕ := 60

/-- `PARKED_FOREVER`: the due time of an abandoned operation. -/
def parkedForever : ℕ := 32503680000

/-! ## Remote folders -/

/-- The row of a directory that is on both sides. -/
def syncedDir (rel : RelPath) (id : FileId) : NewSyncItem :=
  { relativePath := rel, kind := .dir, remoteId := some id, size := none, md5 := none,
    state := .synced }

/-- `persist_dir`: record a folder, or bind the row at its path to it. -/
def persistDir (rel : RelPath) (remoteId : FileId) : Task Unit := do
  match ← sql (.getByRelativePath rel) with
  | some existing =>
    if existing.remoteId ≠ some remoteId then sql (.setRemoteId existing.id remoteId) else pure ()
  | none =>
    let _ ← sqlTry (.insertItem (syncedDir rel remoteId))
    pure ()

/-- The folder `name` under `parent`: the first one listed, or a new one. -/
def childFolder (parent : FileId) (name : String) : Task FileId := do
  let children ← request (.listChildren parent)
  match children.find? fun c => c.isFolder && c.name = name with
  | some f => pure f.id
  | none =>
    let created ← Engine.createDirRemote parent name
    pure created.id

/-- The walk of `ensure_remote_folder` below the folder `current` at the path `cumulative`. -/
def ensureSegments : FileId → RelPath → List String → Task FileId
  | current, _, [] => pure current
  | current, cumulative, seg :: rest => do
    let next ← childFolder current seg
    persistDir (cumulative ++ [seg]) next
    ensureSegments next (cumulative ++ [seg]) rest

/-- `ensure_remote_folder`: the Drive id of a folder path, making and recording what is
missing. -/
def ensureRemoteFolder (root : FileId) (rel : RelPath) : Task FileId := ensureSegments root [] rel

/-! ## Operations -/

/-- `compute_local`: size and MD5 of a local file. -/
def computeLocal (env : Env) (rel : RelPath) : Task (ℕ × String) := do
  let bytes ← ioTry (.readFile rel)
  pure (bytes.length, env.md5 bytes)

/-- `Upload`. -/
def executeUpload (env : Env) (root : FileId) (item : SyncItem) : Task Unit := do
  let rel := item.relativePath
  if ← io (.isFile rel) then
    let (size, md5) ← computeLocal env rel
    if item.md5 = some md5 ∧ item.size = some size then pure ()
    else
      match item.remoteId with
      | some rid =>
        withMark rid do
          let _ ← Engine.update rid rel
          sql (.updateFingerprint item.id (some size) (some md5))
      | none =>
        let parentId ← ensureRemoteFolder root rel.splitParent.1
        let rf ← Engine.upload rel parentId rel.splitParent.2
        withMark rf.id do
          sql (.setRemoteId item.id rf.id)
          sql (.updateFingerprint item.id (some size) (some md5))
  else pure ()

/-- `Download`. -/
def executeDownload (env : Env) (item : SyncItem) (payload : Option Payload) : Task Unit := do
  let dl ← .ofExcept (decodePayload Payload.asDownload payload)
  ioTry (.createDirAll dl.relativePath.parentDir)
  Engine.download dl.remoteId dl.relativePath
  let (size, md5) ← computeLocal env dl.relativePath
  sql (.updateFingerprint item.id (some size) (some md5))
  if item.remoteId ≠ some dl.remoteId then sql (.setRemoteId item.id dl.remoteId) else pure ()

/-- What `DeleteRemote` does when the user may not delete the object: take it out of their own
folders, or stop syncing it. -/
def deleteRefused (item : SyncItem) (rid : FileId) : Task Unit := do
  match ← (removeFromMyDrive rid).attempt with
  | .ok () => sql (.deleteItem item.id)
  | .error _ => sql (.setState item.id .skipped)

/-- `DeleteRemote`. -/
def executeDeleteRemote (env : Env) (item : SyncItem) : Task Unit :=
  match item.remoteId with
  | some rid =>
    withMark rid do
      match ← (Engine.deleteRemote env rid).attempt with
      | .ok () => sql (.deleteItem item.id)
      | .error e =>
        if e.isInsufficientPermissions then deleteRefused item rid else .fail e
  | none => sql (.deleteItem item.id)

/-- Remove the local copy of an item; one that is already gone is no error. -/
def removeLocal (item : SyncItem) : Task Unit := do
  let res ← match item.kind with
    | .dir => io (.removeDirAll item.relativePath)
    | .file => io (.removeFile item.relativePath)
  match res with
  | .ok () => pure ()
  | .error e => if e = .io .notFound then pure () else .fail e

/-- Make the row of a removed item a tombstone, or drop it. -/
def forgetLocal (item : SyncItem) (p : DeleteLocalPayload) : Task Unit :=
  if p.tombstone ∧ item.kind = .file then do
    let now ← unixNow
    sql (.markTrashed item.id now)
  else sql (.deleteItem item.id)

/-- `DeleteLocal`. -/
def executeDeleteLocal (item : SyncItem) (payload : Option Payload) : Task Unit := do
  removeLocal item
  let p ← .ofExcept (decodePayload Payload.asDeleteLocal payload)
  forgetLocal item p

/-- `CreateDirLocal`. -/
def executeCreateDirLocal (item : SyncItem) : Task Unit := do
  ioTry (.createDirAll item.relativePath)
  sql (.setState item.id .synced)

/-- `WriteShortcut`. -/
def executeWriteShortcut (item : SyncItem) (payload : Option Payload) : Task Unit := do
  let p ← .ofExcept (decodePayload Payload.asShortcut payload)
  Shortcut.write item.relativePath p.content

/-- `RenameRemote`. -/
def executeRenameRemote (root : FileId) (item : SyncItem) (payload : Option Payload) :
    Task Unit := do
  let p ← .ofExcept (decodePayload Payload.asRename payload)
  match item.remoteId with
  | none => sql (.deleteItem item.id)
  | some rid =>
    let newParentId ← ensureRemoteFolder root p.newRelativePath.splitParent.1
    withMark rid do
      Engine.moveRemote rid newParentId p.newRelativePath.splitParent.2
      match item.kind with
      | .dir => sql (.renameSubtree item.relativePath p.newRelativePath)
      | .file => sql (.setRelativePath item.id p.newRelativePath)

/-- Rename on disk, merging into a destination that is already populated. -/
def moveLocal (old new : RelPath) : Task Unit := do
  match ← io (.rename old new) with
  | .ok () => pure ()
  | .error e =>
    -- already moved: the rows still have to follow
    if e = .io .notFound then pure ()
    else if e = .io .directoryNotEmpty ∨ e = .io .alreadyExists then ioTry (.mergeMoveDir old new)
    else .fail e

/-- `RenameLocal`: rename on disk, then rewrite the rows. -/
def executeRenameLocal (item : SyncItem) (payload : Option Payload) : Task Unit := do
  let p ← .ofExcept (decodePayload Payload.asRename payload)
  ioTry (.createDirAll p.newRelativePath.parentDir)
  moveLocal item.relativePath p.newRelativePath
  sql (.renameSubtree item.relativePath p.newRelativePath)

/-- The body of `execute`, once the operation's item is known. -/
def executeItem (env : Env) (root : FileId) (op : PendingOperation) (item : SyncItem) :
    Task Unit :=
  match op.op with
  | .upload => executeUpload env root item
  | .download => executeDownload env item op.payload
  | .deleteRemote => executeDeleteRemote env item
  | .deleteLocal => executeDeleteLocal item op.payload
  | .createDirRemote => do
    let _ ← ensureRemoteFolder root item.relativePath
    pure ()
  | .createDirLocal => executeCreateDirLocal item
  | .writeShortcut => executeWriteShortcut item op.payload
  | .renameRemote => executeRenameRemote root item op.payload
  | .renameLocal => executeRenameLocal item op.payload
  | .markConflict => pure ()

/-- `execute`. -/
def execute (env : Env) (root : FileId) (op : PendingOperation) : Task Unit := do
  match ← sql (.getById op.syncItemId) with
  | some item => executeItem env root op item
  | none => .fail (.mapping ("sync_item " ++ Nat.repr op.syncItemId ++ " vanished"))

/-! ## The drain loop -/

/-- The back-off before the random part: `1, 2, 4, …` seconds, at most a minute. -/
def backoffBase (attempt : ℕ) : ℕ := min (2 ^ min (attempt - 1) 6) maxBackoffSecs

/-- `backoff_seconds`: the delay after an attempt, with jitter. -/
def backoffSeconds (attempt : ℕ) : Task ℕ := do
  let capped := backoffBase attempt
  let delta ← .lift (.random (max (capped / 5) 1))
  pure (max (capped + delta) 1).toNat

/-- How a completed operation counts in `status`: uploads, then downloads. -/
def cycleDelta : Operation → ℕ × ℕ
  | .upload => (1, 0)
  | .renameRemote => (1, 0)
  | .download => (0, 1)
  | _ => (0, 0)

/-- The bookkeeping of a completed operation. -/
def completed (op : PendingOperation) : Task Unit := do
  if cycleDelta op.op ≠ (0, 0) then
    let now ← unixNow
    sql (.recordSyncCycle now (cycleDelta op.op).1 (cycleDelta op.op).2)
  let _ ← sql .clearIfTransient
  sql (.deleteOp op.id)

/-- The bookkeeping of a failed operation; an authentication failure blocks the daemon and ends
the drain. The answer says whether the drain goes on. -/
def failed (op : PendingOperation) : Error → Task Bool
  | .oauth _ => do
    sql (.setBlocked .auth)
    let now ← unixNow
    sql (.markAttempt op.id (now + 3600))
    pure false
  | _ => do
    let delay ← backoffSeconds (op.attempts + 1)
    let now ← unixNow
    sql (.markAttempt op.id (now + delay))
    pure true

/-- One iteration of the drain loop: take the next due operation and execute it, or park it when
it was attempted too often. The answer says whether the drain goes on. -/
def drainOne (env : Env) (root : FileId) : Task Bool := do
  let now ← unixNow
  match ← sql (.nextDue now) with
  | none => pure false
  | some op =>
    if maxAttempts ≤ op.attempts then
      sql (.markAttempt op.id parkedForever)
      pure true
    else
      match ← (execute env root op).attempt with
      | .ok () =>
        completed op
        pure true
      | .error e => failed op e

end AirDrive.Dispatcher
