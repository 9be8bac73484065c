import AirDrive.Reconcile.StartupScan
import Mathlib.Data.List.Dedup

set_option relaxedAutoImplicit false
set_option autoImplicit false

/-!
# The initial reconciliation

One pass over both trees on the first start: directories are made on the side that lacks them,
native documents get pointer files, the remaining files are downloaded, uploaded or recorded,
and the change feed's current position becomes the cursor.

## Main definitions

* `AirDrive.Initial.walkRemote` — the remote tree, folder by folder.
* `AirDrive.Initial.reconcileDirs`, `AirDrive.Initial.writeShortcuts`,
  `AirDrive.Initial.planDownloads`, `AirDrive.Initial.planUploads`,
  `AirDrive.Initial.recordEqual`, `AirDrive.Initial.recordUploads` — the steps.
* `AirDrive.Initial.initial` — the pass.

## Design

The loop over the folder queue and the tree of Drive have no bound that the code knows; the
walk takes the number of folders it may list as an argument and fails when it is too small, so
a pass that succeeds has seen the whole tree.
-/

namespace AirDrive.Initial

open Effect Data StartupScan

/-- One file or folder under the remote root. -/
structure RemoteEntry where
  /-- Path relative to the remote root. -/
  relativePath : RelPath
  /-- Drive file id. -/
  id : FileId
  /-- `true` for folders. -/
  isDir : Bool
  /-- Size in bytes, `0` for folders. -/
  size : ℕ
  /-- MD5, `none` for folders and native documents. -/
  md5 : Option String
  /-- MIME type. -/
  mimeType : String
deriving DecidableEq, Repr

/-- The entry of an object listed in the folder at `parent`. -/
def remoteEntry (parent : RelPath) (c : FileResource) : RemoteEntry :=
  if c.isFolder then ⟨parent ++ [c.name], c.id, true, 0, none, c.mimeType⟩
  else ⟨parent ++ [c.name], c.id, false, c.size.getD 0, c.md5, c.mimeType⟩

@[simp] lemma remoteEntry_relativePath (parent : RelPath) (c : FileResource) :
    (remoteEntry parent c).relativePath = parent ++ [c.name] := by
  unfold remoteEntry
  split_ifs <;> rfl

@[simp] lemma remoteEntry_id (parent : RelPath) (c : FileResource) :
    (remoteEntry parent c).id = c.id := by
  unfold remoteEntry
  split_ifs <;> rfl

@[simp] lemma remoteEntry_isDir (parent : RelPath) (c : FileResource) :
    (remoteEntry parent c).isDir = c.isFolder := by
  unfold remoteEntry
  split_ifs with h <;> simp [h]

@[simp] lemma remoteEntry_mimeType (parent : RelPath) (c : FileResource) :
    (remoteEntry parent c).mimeType = c.mimeType := by
  unfold remoteEntry
  split_ifs <;> rfl

/-- The loop of `walk_remote` over the queue of folders still to be listed. -/
def walkQueue : ℕ → List (FileId × RelPath) → List RemoteEntry → Task (List RemoteEntry)
  | _, [], out => pure out
  | 0, _ :: _, _ => .fail (.drive "remote walk did not end")
  | fuel + 1, (parentId, parentPath) :: queue, out => do
    let children ← request (.listChildren parentId)
    -- names that are not a single safe path component are skipped
    let entries := (children.filter fun c => isSafeName c.name).map (remoteEntry parentPath)
    walkQueue fuel (queue ++ (entries.filter (·.isDir)).map fun e => (e.id, e.relativePath))
      (out ++ entries)

/-- `walk_remote`: the tree under a folder, sorted by path. -/
def walkRemote (fuel : ℕ) (root : FileId) : Task (List RemoteEntry) := do
  let out ← walkQueue fuel [(root, [])] []
  pure (RelPath.sort RemoteEntry.relativePath out)

/-! ## Recording -/

/-- Insert a row unless its path is taken. -/
def recordNew (new : NewSyncItem) : Task Unit := do
  match ← sql (.getByRelativePath new.relativePath) with
  | some _ => pure ()
  | none =>
    let _ ← sqlTry (.insertItem new)
    pure ()

/-- `record_synced_dir`. -/
def recordSyncedDir (rel : RelPath) (id : FileId) : Task Unit :=
  recordNew (Dispatcher.syncedDir rel id)

/-- `record_synced_item`. -/
def recordSyncedItem (rel : RelPath) (id : FileId) (size : ℕ) (md5 : String) : Task Unit :=
  recordNew { relativePath := rel, kind := .file, remoteId := some id, size := some size,
              md5 := some md5, state := .synced }

/-! ## The steps of the pass -/

/-- The Drive ids of the remote folders by path, the root being the empty path. -/
abbrev FolderIds := FinMap RelPath FileId

/-- The folder ids that the remote walk found. -/
def folderIds (root : FileId) (entries : List RemoteEntry) : FolderIds :=
  (entries.filter (·.isDir)).foldl (fun ids e => ids.set e.relativePath e.id)
    (FinMap.set Table.empty [] root)

/-- The folder ids are made by entering the listed folders, starting with the root. -/
lemma folderIds_induction {I : FolderIds → Prop} {root : FileId} {entries : List RemoteEntry}
    (hroot : I (FinMap.set Table.empty [] root))
    (hset : ∀ e ∈ entries, e.isDir = true → ∀ ids, I ids → I (ids.set e.relativePath e.id)) :
    I (folderIds root entries) := by
  have hdirs : ∀ e ∈ entries.filter (·.isDir), ∀ ids, I ids → I (ids.set e.relativePath e.id) :=
    fun e he => hset e (List.mem_filter.mp he).1 (List.mem_filter.mp he).2
  unfold folderIds
  generalize entries.filter (·.isDir) = dirs at hdirs ⊢
  generalize (FinMap.set Table.empty [] root : FolderIds) = ids at hroot ⊢
  induction dirs generalizing ids with
  | nil => exact hroot
  | cons e dirs ih =>
    exact ih (fun e' he' => hdirs e' (List.mem_cons_of_mem _ he')) _
      (hdirs e List.mem_cons_self _ hroot)

/-- The Drive id of a directory, made below its parent when Drive lacks it. -/
def remoteDir (root : FileId) (ids : FolderIds) (dir : RelPath) : Task (FileId × FolderIds) :=
  match ids.val dir with
  | some id => pure (id, ids)
  | none => do
    let created ← Engine.createDirRemote ((ids.val dir.splitParent.1).getD root) dir.splitParent.2
    pure (created.id, ids.set dir created.id)

/-- One directory: make it on the side that lacks it, and record it. -/
def reconcileDir (root : FileId) (ids : FolderIds) (dir : RelPath) : Task FolderIds := do
  let (remoteId, ids) ← remoteDir root ids dir
  ioTry (.createDirAll dir)
  recordSyncedDir dir remoteId
  pure ids

/-- The directories of both trees, parents first. -/
def dirPaths (locals : List Fs.LocalEntry) (remotes : List RemoteEntry) : List RelPath :=
  RelPath.sort id (((locals.filter (·.isDir)).map (·.relativePath) ++
    (remotes.filter (·.isDir)).map (·.relativePath)).dedup)

/-- Step 0: directories. -/
def reconcileDirs (root : FileId) (locals : List Fs.LocalEntry) (remotes : List RemoteEntry) :
    Task FolderIds :=
  .foldM (dirPaths locals remotes) (reconcileDir root) (folderIds root remotes)

/-- Step 1, for one remote file: a native document gets a pointer file and a row. -/
def writeShortcut (remote : RemoteEntry) : Task Unit := do
  if remote.md5 ≠ none then pure ()
  else if Shortcut.isNative remote.mimeType then
    let rel := Shortcut.relativePath remote.relativePath remote.mimeType
    match ← sql (.getByRelativePath rel) with
    | some _ => pure ()
    | none =>
      Shortcut.write rel (Shortcut.content remote.mimeType remote.id)
      let _ ← sqlTry (.insertItem (Continuous.pointer rel remote.id))
      pure ()
  else pure ()

/-- `remote_by_path`: the remote file at a path, the last one listed if there are several. -/
def remoteByPath (remoteFiles : List RemoteEntry) (rel : RelPath) : Option RemoteEntry :=
  remoteFiles.reverse.find? fun r => r.relativePath = rel

/-- The entry that is looked up by its path is one of the list. -/
lemma mem_of_remoteByPath {l : List RemoteEntry} {rel : RelPath} {e : RemoteEntry}
    (h : remoteByPath l rel = some e) : e ∈ l :=
  List.mem_reverse.mp (List.mem_of_find?_eq_some h)

/-- Step 2, remote-only files: what will be downloaded. -/
def planDownloads (env : Env) (localFiles : List Fs.LocalEntry) (remoteFiles : List RemoteEntry) :
    List (RemoteEntry × String) :=
  remoteFiles.filterMap fun r =>
    if localFiles.any (fun e => e.relativePath = r.relativePath) then none
    else if isIgnored env r.relativePath then none
    else r.md5.map fun md5 => (r, md5)

/-- Step 2, local-only files, for one file: what will be uploaded. -/
def planUpload (env : Env) (root : FileId) (ids : FolderIds) (remoteFiles : List RemoteEntry)
    (ups : List Engine.BulkUpload) (e : Fs.LocalEntry) : Task (List Engine.BulkUpload) := do
  if (remoteByPath remoteFiles e.relativePath).isSome then pure ups
  else if isIgnored env e.relativePath then pure ups
  else
    let existing ← sql (.getByRelativePath e.relativePath)
    if existing.any fun it => it.state = .skipped then pure ups
    else
      let parentId := (ids.val e.relativePath.splitParent.1).getD root
      pure (ups ++ [⟨e.relativePath, parentId, e.relativePath.splitParent.2⟩])

/-- Step 2, a file on both sides: recorded when the fingerprints agree. -/
def recordEqual (env : Env) (remoteFiles : List RemoteEntry) (e : Fs.LocalEntry) : Task Unit := do
  match remoteByPath remoteFiles e.relativePath with
  | none => pure ()
  | some remote =>
    if isIgnored env e.relativePath then pure ()
    else
      let (size, md5) ← Dispatcher.computeLocal env e.relativePath
      if remote.md5 = some md5 ∧ remote.size = size then
        recordSyncedItem e.relativePath remote.id size md5
      else pure ()

/-- `lookup_uploaded`: a just-uploaded file, by its parent folder and its name. -/
def lookupUploaded (parent : FileId) (name : String) : Task (Option (FileId × ℕ × String)) := do
  match ← (request (.listChildren parent)).attempt with
  | .error _ => pure none
  | .ok children =>
    pure ((children.find? fun c => !c.isFolder && c.name = name).bind fun c =>
      c.md5.map fun md5 => (c.id, c.size.getD 0, md5))

/-- One upload of the first round of step 4: record it if the second walk saw it. -/
def recordSeen (after : List RemoteEntry) (pending : List Engine.BulkUpload)
    (up : Engine.BulkUpload) : Task (List Engine.BulkUpload) := do
  match (remoteByPath (after.filter fun e => !e.isDir) up.relPath).bind fun r =>
      r.md5.map fun md5 => (r, md5) with
  | some (r, md5) =>
    recordSyncedItem up.relPath r.id r.size md5
    pure pending
  | none => pure (pending ++ [up])

/-- One upload of a retry of step 4. -/
def recordLookedUp (still : List Engine.BulkUpload) (up : Engine.BulkUpload) :
    Task (List Engine.BulkUpload) := do
  match ← lookupUploaded up.remoteParentId up.name with
  | some (id, size, md5) =>
    recordSyncedItem up.relPath id size md5
    pure still
  | none => pure (still ++ [up])

/-- The retries of step 4, up to `AFTER_WALK_RETRIES` times. -/
def retryLookups : ℕ → List Engine.BulkUpload → Task Unit
  | 0, _ => pure ()
  | _, [] => pure ()
  | n + 1, pending => do
    let still ← .foldM pending recordLookedUp []
    retryLookups n still

/-- `AFTER_WALK_RETRIES`. -/
def afterWalkRetries : ℕ := 4

/-- Step 4, uploads: their Drive ids are read back from a second walk. -/
def recordUploads (fuel : ℕ) (root : FileId) (uploads : List Engine.BulkUpload) : Task Unit := do
  if uploads = [] then pure ()
  else
    let after ← walkRemote fuel root
    let pending ← .foldM uploads (recordSeen after) []
    retryLookups afterWalkRetries pending

/-- `initial`. -/
def initial (env : Env) (fuel : ℕ) (root : FileId) : Task Unit := do
  let locals ← io (.walk [])
  let remotes ← walkRemote fuel root
  let localFiles := locals.filter fun e => !e.isDir
  let remoteFiles := remotes.filter fun e => !e.isDir
  let ids ← reconcileDirs root locals remotes
  .forEach remoteFiles writeShortcut
  let downloads := planDownloads env localFiles remoteFiles
  let uploads ← .foldM localFiles (planUpload env root ids remoteFiles) []
  .forEach localFiles (recordEqual env remoteFiles)
  Engine.bulkDownload (downloads.map fun d => ⟨d.1.id, d.1.relativePath⟩)
  Engine.bulkUpload uploads
  .forEach downloads fun d => recordSyncedItem d.1.relativePath d.1.id d.1.size d.2
  recordUploads fuel root uploads
  let token ← request .startPageToken
  sql (.setCursor token)

end AirDrive.Initial
