import AirDrive.Reconcile.Conflict
import AirDrive.Reconcile.Shortcut

set_option relaxedAutoImplicit false
set_option autoImplicit false

/-!
# Continuous reconciliation

The two entry points of the daemon's main loop: `applyLocal` turns a watcher event into queued
operations, `applyRemote` a change on Drive. Both consult the `sync_item` table only; the
operations are executed by the dispatcher.

## Main definitions

* `AirDrive.WatchEvent`, `AirDrive.RemoteChange` — what the two entry points receive.
* `AirDrive.Continuous.applyLocal`, with `enqueueLocalDir` and `enqueueLocalFile`.
* `AirDrive.Continuous.applyRemote`, with one definition for each kind of change.

## Design

The branches of `apply_remote` are definitions of their own, in the order of the source:
`applyRemoved`, `applyTrashed`, `applyFolder`, `applyNative`, and for regular files
`applyRestored`, `applyMoved`, `applyEdited` and `applyNewFile`.
-/

namespace AirDrive

open Effect

/-- A filesystem event; the paths are relative to the watched folder. -/
inductive WatchEvent
  | created (p : RelPath)
  | modified (p : RelPath)
  | deleted (p : RelPath)
  | renamed (from' to' : RelPath)
deriving DecidableEq, Repr

/-- A change on Drive, as the poller forwards it. -/
structure RemoteChange where
  /-- Drive file id the change refers to. -/
  fileId : FileId
  /-- Deleted for good, or no longer accessible. -/
  removed : Bool
  /-- The object, for other changes. -/
  file : Option FileResource
  /-- Path of the object under the mapped folder. -/
  relativePath : Option RelPath
deriving DecidableEq, Repr

/-- The path of a change: the one the poller computed, or else the object's name. -/
def RemoteChange.path (change : RemoteChange) (file : FileResource) : RelPath :=
  change.relativePath.getD [file.name]

namespace Continuous

/-- `ops::enqueue` at the current time. -/
def enqueueOp (item : ItemId) (op : Operation) (payload : Option Payload) : Task Unit := do
  let now ← unixNow
  let _ ← sqlTry (.enqueue item op payload now)
  pure ()

/-! ## Local events -/

/-- The row of a local create: not yet on Drive. -/
def localCreate (rel : RelPath) (kind : ItemKind) : NewSyncItem :=
  { relativePath := rel, kind, remoteId := none, size := none, md5 := none,
    state := .pendingLocal }

/-- `enqueue_local_dir`: record an untracked directory and queue its remote creation. -/
def enqueueLocalDir (rel : RelPath) : Task Unit := do
  match ← sql (.getByRelativePath rel) with
  | some _ => pure ()
  | none =>
    let id ← sqlTry (.insertItem (localCreate rel .dir))
    enqueueOp id .createDirRemote none

/-- `enqueue_local_file`: queue an upload, unless the file is a shortcut pointer; an untracked
file is recorded first. -/
def enqueueLocalFile (rel : RelPath) : Task Unit := do
  match ← sql (.getByRelativePath rel) with
  | some item => if item.state = .skipped then pure () else enqueueOp item.id .upload none
  | none =>
    let id ← sqlTry (.insertItem (localCreate rel .file))
    enqueueOp id .upload none

/-- An entry of a walk, by its kind. -/
def enqueueLocalEntry (e : Fs.LocalEntry) : Task Unit :=
  if e.isDir then enqueueLocalDir e.relativePath else enqueueLocalFile e.relativePath

/-- `apply_local` for `Created` and `Modified`: a directory is recorded with everything in it,
a file is uploaded, and a path that is neither is ignored. -/
def applyCreated (p : RelPath) : Task Unit := do
  if ← io (.isDir p) then
    enqueueLocalDir p
    let entries ← io (.walk p)
    .forEach entries enqueueLocalEntry
  else if ← io (.isFile p) then enqueueLocalFile p
  else pure ()

/-- `apply_local` for `Deleted`. -/
def applyDeleted (p : RelPath) : Task Unit := do
  Conflict.cleanupOnLocalDelete p
  match ← sql (.getByRelativePath p) with
  | none => pure ()
  | some item =>
    -- a tombstone: the event is the echo of our own removal
    if item.trashedAt ≠ none then pure ()
    else if item.remoteId ≠ none then enqueueOp item.id .deleteRemote none
    else sql (.deleteItem item.id)

/-- `apply_local` for `Renamed`. -/
def applyRenamed (from' to' : RelPath) : Task Unit := do
  match ← sql (.getByRelativePath from') with
  | some item =>
    if item.remoteId = none then
      sql (.setRelativePath item.id to')
      enqueueOp item.id .upload none
    else enqueueOp item.id .renameRemote (some (.rename ⟨to'⟩))
  | none => applyCreated to'

/-- `apply_local`. -/
def applyLocal : WatchEvent → Task Unit
  | .created p => applyCreated p
  | .modified p => applyCreated p
  | .deleted p => applyDeleted p
  | .renamed from' to' => applyRenamed from' to'

/-! ## Remote changes -/

/-- Queue a download of a file's current content to a path. -/
def enqueueDownload (item : ItemId) (file : FileResource) (md5 : String) (rel : RelPath) :
    Task Unit :=
  enqueueOp item .download (some (.download ⟨file.id, file.size.getD 0, md5, rel⟩))

/-- Queue the local rename of an item. -/
def enqueueRenameLocal (item : ItemId) (rel : RelPath) : Task Unit :=
  enqueueOp item .renameLocal (some (.rename ⟨rel⟩))

/-- `enqueue_write_shortcut`. -/
def enqueueWriteShortcut (item : ItemId) (mime : String) (id : FileId) : Task Unit :=
  enqueueOp item .writeShortcut (some (.shortcut ⟨Shortcut.content mime id⟩))

/-- The row of a new Drive folder: its local directory is still to be made. -/
def remoteDir (rel : RelPath) (id : FileId) : NewSyncItem :=
  { relativePath := rel, kind := .dir, remoteId := some id, size := none, md5 := none,
    state := .pendingLocal }

/-- The row of the pointer file of a native document. -/
def pointer (rel : RelPath) (id : FileId) : NewSyncItem :=
  { relativePath := rel, kind := .file, remoteId := some id, size := none, md5 := none,
    state := .skipped }

/-- The row of a new Drive file: it carries the remote fingerprint, its bytes are still to be
fetched. -/
def remoteFile (rel : RelPath) (file : FileResource) (md5 : String) : NewSyncItem :=
  { relativePath := rel, kind := .file, remoteId := some file.id, size := some (file.size.getD 0),
    md5 := some md5, state := .pendingLocal }

/-- A permanent deletion or a loss of access: the local copy and the row go. -/
def applyRemoved (fileId : FileId) : Task Unit := do
  match ← sql (.getByRemoteId fileId) with
  | none => pure ()
  | some item => enqueueOp item.id .deleteLocal (some (.deleteLocal ⟨false⟩))

/-- A trash: the local copy goes; a file keeps its row as a tombstone. -/
def applyTrashed (fileId : FileId) : Task Unit := do
  match ← sql (.getByRemoteId fileId) with
  | none => pure ()
  | some item =>
    if item.trashedAt = none then
      enqueueOp item.id .deleteLocal (some (.deleteLocal ⟨item.kind = .file⟩))
    else pure ()

/-- A live folder. -/
def applyFolder (fileId : FileId) (file : FileResource) (rel : RelPath) : Task Unit := do
  match ← sql (.getByRemoteId fileId) with
  | none =>
    match ← sql (.getByRelativePath rel) with
    | some _ => pure ()
    | none =>
      let id ← sqlTry (.insertItem (remoteDir rel file.id))
      enqueueOp id .createDirLocal none
  | some existing =>
    if existing.relativePath ≠ rel then enqueueRenameLocal existing.id rel else pure ()

/-- A live native document, whose pointer file belongs at `rel`. -/
def applyNative (fileId : FileId) (file : FileResource) (rel : RelPath) : Task Unit := do
  match ← sql (.getByRemoteId fileId) with
  | none =>
    let id ← sqlTry (.insertItem (pointer rel file.id))
    enqueueWriteShortcut id file.mimeType file.id
  | some existing =>
    if existing.relativePath ≠ rel then enqueueRenameLocal existing.id rel
    else if existing.trashedAt ≠ none then
      sql (.clearTrashed existing.id)
      enqueueWriteShortcut existing.id file.mimeType file.id
    else pure ()

/-- A tombstone whose file is back: download it to the original path. -/
def applyRestored (item : SyncItem) (file : FileResource) (md5 : String) : Task Unit := do
  sql (.clearTrashed item.id)
  enqueueDownload item.id file md5 item.relativePath

/-- The row's recorded fingerprint is that of the remote file. -/
def sameFingerprint (item : SyncItem) (file : FileResource) (md5 : String) : Bool :=
  item.md5 = some md5 && item.size = some (file.size.getD 0)

/-- The directory whose rename explains that the file's path changed: the row at the old parent
path, if it is bound to the file's current parent. -/
def renamedDir (item : SyncItem) (file : FileResource) (rel : RelPath) : Task (Option SyncItem) :=
  let oldParent := item.relativePath.parentDir
  match file.parents.head? with
  | some parentId =>
    if oldParent ≠ rel.parentDir ∧ oldParent ≠ [] then do
      match ← sql (.getByRelativePath oldParent) with
      | some dir => if dir.remoteId = some parentId then pure (some dir) else pure none
      | none => pure none
    else pure none
  | none => pure none

/-- A tracked file whose path changed: rename its directory, or the file itself, and fetch its
content if that changed too. -/
def applyMoved (item : SyncItem) (file : FileResource) (md5 : String) (rel : RelPath) :
    Task Unit := do
  match ← renamedDir item file rel with
  | some dir => enqueueRenameLocal dir.id rel.parentDir
  | none =>
    enqueueRenameLocal item.id rel
    if sameFingerprint item file md5 then pure () else enqueueDownload item.id file md5 rel

/-- How the local copy of a tracked file stands to a new remote version. -/
inductive LocalVersion
  /-- It has the remote content already. -/
  | agrees
  /-- It was edited since the last sync. -/
  | edited
  /-- It is untouched, missing, or cannot be read. -/
  | behind
deriving DecidableEq, Repr

/-- Compare the local copy with the remote MD5 and the last-synced one. -/
def localVersion (env : Env) (item : SyncItem) (md5 : String) : Task LocalVersion := do
  if ← io (.isFile item.relativePath) then
    match item.md5 with
    | none => pure .behind
    | some lastSynced =>
      match ← io (.readFile item.relativePath) with
      | .error _ => pure .behind
      | .ok bytes =>
        if env.md5 bytes = md5 then pure .agrees
        else if env.md5 bytes ≠ lastSynced then pure .edited
        else pure .behind
  else pure .behind

/-- A tracked file at its path: suppress echoes, open a conflict when both sides changed, and
fetch the content. -/
def applyEdited (env : Env) (item : SyncItem) (file : FileResource) (md5 : String) :
    Task Unit := do
  if sameFingerprint item file md5 then pure ()
  else
    match ← localVersion env item md5 with
    | .agrees => pure ()
    | .edited => do
      let now ← unixNow
      let _ ← Conflict.openConflict item.id item.relativePath now
      enqueueDownload item.id file md5 item.relativePath
    | .behind => enqueueDownload item.id file md5 item.relativePath

/-- A file that no row is bound to: fetch it, unless its path is taken. -/
def applyNewFile (file : FileResource) (md5 : String) (rel : RelPath) : Task Unit := do
  match ← sql (.getByRelativePath rel) with
  | some _ => pure ()
  | none =>
    let id ← sqlTry (.insertItem (remoteFile rel file md5))
    enqueueDownload id file md5 rel

/-- A live regular file. -/
def applyFile (env : Env) (change : RemoteChange) (file : FileResource) (md5 : String) :
    Task Unit := do
  match ← sql (.getByRemoteId change.fileId) with
  | some item =>
    if item.trashedAt ≠ none then applyRestored item file md5
    else
      match change.relativePath with
      | some rel =>
        if rel ≠ item.relativePath then applyMoved item file md5 rel
        else applyEdited env item file md5
      | none => applyEdited env item file md5
  | none => applyNewFile file md5 (change.path file)

/-- What a change of an existing object asks for. -/
def applyPresent (env : Env) (change : RemoteChange) (file : FileResource) : Task Unit :=
  if file.trashed then applyTrashed change.fileId
  else if file.isFolder then applyFolder change.fileId file (change.path file)
  else if Shortcut.isNative file.mimeType then
    applyNative change.fileId file (Shortcut.relativePath (change.path file) file.mimeType)
  else
    match file.md5 with
    | none => pure ()
    | some md5 => applyFile env change file md5

/-- `apply_remote`. -/
def applyRemote (env : Env) (change : RemoteChange) : Task Unit := do
  if ← .lift (.inFlight change.fileId) then pure ()
  else if change.removed then applyRemoved change.fileId
  else
    match change.file with
    | none => pure ()
    | some file => applyPresent env change file

end Continuous

end AirDrive
