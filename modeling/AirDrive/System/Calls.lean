import AirDrive.System.Run

set_option relaxedAutoImplicit false
set_option autoImplicit false

/-!
# Which calls the programs make

An operation writes the row that it belongs to, the rows of the folders that it makes on the way, and
the rows below a path that it renames. The initial pass only inserts rows, and stores the cursor at
the end. The programs that look at Drive or at the mapping leave the rows and the queue alone.

## Main definitions

* `AirDrive.Calls.Executing` — the calls of an operation on an item.
* `AirDrive.Calls.background` — the calls that touch neither the rows nor the queue nor a file.
* `AirDrive.Calls.Records` — the calls of a program that inserts certain rows.

## Main results

* `AirDrive.Calls.executing_executeItem` — an operation.
* `AirDrive.Calls.background_tick`, `AirDrive.Calls.background_map`,
  `AirDrive.Calls.background_ensureRemoteRoot`.
* `AirDrive.Calls.records_initial` — the initial pass.
-/

namespace AirDrive.Calls

open Effect Dispatcher Initial StartupScan

/-! ## Operations -/

/-- The calls of an operation on an item. -/
def Executing (item : SyncItem) : {β : Type} → Call β → Prop
  | _, .db (.insertItem new) => ∃ rel id, new = syncedDir rel id
  | _, .db (.getByRelativePath _) => True
  | _, .db (.setRemoteId _ _) => True
  | _, .db (.setRelativePath i _) => i = item.id
  | _, .db (.renameSubtree _ _) => True
  | _, .db (.updateFingerprint i _ _) => i = item.id
  | _, .db (.setState i state) => i = item.id ∧ (state = .synced ∨ state = .skipped)
  | _, .db (.deleteItem i) => i = item.id
  | _, .db (.markTrashed i _) => i = item.id
  | _, .db _ => False
  | _, .inFlight _ => False
  | _, .random _ => False
  | _, _ => True

/-- The call marks no row as in step. -/
def markless : {β : Type} → Call β → Bool
  | _, .db (.setState _ .synced) => false
  | _, _ => true

/-- The calls of an operation other than the making of a local directory. -/
def Works (item : SyncItem) {β : Type} (c : Call β) : Prop := Executing item c ∧ markless c = true

section Executing

variable {env : Env} {root rid parent : FileId} {item : SyncItem} {α : Type} {rel : RelPath}
  {name : String} {payload : Option Payload}

lemma executing_of_works {q : Task α} (hq : q.Only fun _ c => Works item c) :
    q.Only fun _ c => Executing item c := hq.mono fun _ _ => And.left

lemma works_sql {c : DbCall α} (hc : Executing item (.db c)) (hmark : markless (.db c) = true) :
    (sql c).Only fun _ c => Works item c := ⟨⟨hc, hmark⟩, fun _ => trivial⟩

lemma works_io (c : FsCall α) : (io c).Only fun _ c => Works item c :=
  ⟨⟨trivial, rfl⟩, fun _ => trivial⟩

lemma works_ioTry (c : FsCall (Except Error α)) :
    (ioTry c).Only fun _ c => Works item c := ⟨⟨trivial, rfl⟩, fun x => Prog.only_ofExcept x⟩

lemma works_request (c : DriveCall α) : (request c).Only fun _ c => Works item c :=
  ⟨⟨trivial, rfl⟩, fun x => Prog.only_ofExcept x⟩

lemma works_withMark {id : FileId} {body : Task α} (h : body.Only fun _ c => Works item c) :
    (withMark id body).Only fun _ c => Works item c := by
  have hmark : (.lift (.mark id) : Task Unit).Only fun _ c => Works item c :=
    ⟨⟨trivial, rfl⟩, fun _ => trivial⟩
  have hunmark : (.lift (.unmark id) : Task Unit).Only fun _ c => Works item c :=
    ⟨⟨trivial, rfl⟩, fun _ => trivial⟩
  exact hmark.bind fun _ => h.attempt.bind fun x => hunmark.bind fun _ => Prog.only_ofExcept x

lemma works_persistDir : (persistDir rel rid).Only fun _ c => Works item c := by
  refine Prog.Only.bind ⟨⟨trivial, rfl⟩, fun _ => trivial⟩ fun row => ?_
  cases row with
  | none =>
    exact Prog.Only.bind ⟨⟨⟨rel, rid, rfl⟩, rfl⟩, fun x => Prog.only_ofExcept x⟩ fun _ => trivial
  | some existing =>
    simp only
    split
    · exact works_sql trivial rfl
    · trivial

lemma works_childFolder : (childFolder parent name).Only fun _ c => Works item c := by
  refine (works_request _).bind fun children => ?_
  split
  · trivial
  · exact (works_request _).bind fun _ => trivial

/-- The folders on the way to a path. -/
lemma works_ensureRemoteFolder :
    (ensureRemoteFolder root rel).Only fun _ c => Works item c := by
  suffices hsegments : ∀ (segments : List String) (current : FileId) (cumulative : RelPath),
      (ensureSegments current cumulative segments).Only fun _ c => Works item c
    from hsegments _ _ _
  intro segments
  induction segments with
  | nil => exact fun _ _ => trivial
  | cons seg rest ih =>
    exact fun _ _ => works_childFolder.bind fun next => works_persistDir.bind fun _ =>
      ih _ _

lemma works_computeLocal : (computeLocal env rel).Only fun _ c => Works item c :=
  (works_ioTry _).bind fun _ => trivial

lemma works_executeUpload :
    (executeUpload env root item).Only fun _ c => Works item c := by
  refine (works_io _).bind fun isFile => ?_
  split
  · refine works_computeLocal.bind fun print => ?_
    simp only
    split
    · trivial
    · cases item.remoteId with
      | some rid =>
        refine works_withMark (Prog.Only.bind ?_ fun _ => works_sql rfl rfl)
        exact (works_ioTry _).bind fun _ => works_request _
      | none =>
        refine works_ensureRemoteFolder.bind fun parent => Prog.Only.bind ?_ fun rf => ?_
        · exact (works_ioTry _).bind fun _ => works_request _
        · exact works_withMark (Prog.Only.bind ⟨⟨trivial, rfl⟩, fun _ => trivial⟩ fun _ =>
            works_sql rfl rfl)
  · trivial

lemma works_executeDownload :
    (executeDownload env item payload).Only fun _ c => Works item c := by
  have hfetch : ∀ rid rel, (Engine.download rid rel).Only fun _ c => Works item c := fun _ _ =>
    (works_request _).bind fun _ => (works_ioTry _).bind fun _ => works_ioTry _
  refine (Prog.only_ofExcept _).bind fun dl => (works_ioTry _).bind fun _ =>
    (hfetch _ _).bind fun _ => works_computeLocal.bind fun print =>
      Prog.Only.bind ⟨⟨rfl, rfl⟩, fun _ => trivial⟩ fun _ => ?_
  split
  · exact works_sql trivial rfl
  · trivial

lemma works_deleteRemote : (Engine.deleteRemote env rid).Only fun _ c => Works item c := by
  unfold Engine.deleteRemote
  split <;> exact works_request _

lemma works_deleteRefused : (deleteRefused item rid).Only fun _ c => Works item c := by
  refine Prog.Only.bind (Prog.Only.attempt ?_) fun res => ?_
  · refine (works_request _).bind fun v => ?_
    split
    · trivial
    · exact works_request _
  · cases res with
    | ok u => exact works_sql rfl rfl
    | error e => exact works_sql ⟨rfl, .inr rfl⟩ rfl

lemma works_executeDeleteRemote :
    (executeDeleteRemote env item).Only fun _ c => Works item c := by
  unfold executeDeleteRemote
  split
  · refine works_withMark (works_deleteRemote.attempt.bind fun res => ?_)
    cases res with
    | ok u => exact works_sql rfl rfl
    | error e =>
      simp only
      split
      · exact works_deleteRefused
      · trivial
  · exact works_sql rfl rfl

lemma works_removeLocal : (removeLocal item).Only fun _ c => Works item c := by
  unfold removeLocal
  split <;>
  · refine (works_io _).bind fun res => ?_
    cases res with
    | ok u => trivial
    | error e =>
      simp only
      split <;> trivial

lemma works_executeDeleteLocal :
    (executeDeleteLocal item payload).Only fun _ c => Works item c := by
  refine works_removeLocal.bind fun _ => (Prog.only_ofExcept _).bind fun p => ?_
  unfold forgetLocal
  split
  · exact Prog.Only.bind ⟨⟨trivial, rfl⟩, fun _ => trivial⟩ fun _ => works_sql rfl rfl
  · exact works_sql rfl rfl

lemma works_executeRenameRemote :
    (executeRenameRemote root item payload).Only fun _ c => Works item c := by
  refine (Prog.only_ofExcept _).bind fun p => ?_
  cases item.remoteId with
  | none => exact works_sql rfl rfl
  | some rid =>
    refine works_ensureRemoteFolder.bind fun parent => works_withMark ?_
    refine Prog.Only.bind ((works_request _).bind fun _ => works_request _) fun _ => ?_
    split
    · exact works_sql trivial rfl
    · exact works_sql rfl rfl

lemma works_executeRenameLocal :
    (executeRenameLocal item payload).Only fun _ c => Works item c := by
  refine (Prog.only_ofExcept _).bind fun p => (works_ioTry _).bind fun _ => ?_
  refine Prog.Only.bind ?_ fun _ => works_sql trivial rfl
  refine (works_io _).bind fun res => ?_
  cases res with
  | ok u => trivial
  | error e =>
    simp only
    split
    · trivial
    · split
      · exact works_ioTry _
      · trivial

/-- An operation other than the making of a local directory. -/
lemma works_executeItem {op : PendingOperation} (hop : op.op ≠ .createDirLocal) :
    (executeItem env root op item).Only fun _ c => Works item c := by
  unfold executeItem
  split
  · exact works_executeUpload
  · exact works_executeDownload
  · exact works_executeDeleteRemote
  · exact works_executeDeleteLocal
  · exact works_ensureRemoteFolder.bind fun _ => trivial
  · next hkind => exact absurd hkind hop
  · exact (Prog.only_ofExcept _).bind fun _ => (works_ioTry _).bind fun _ => works_ioTry _
  · exact works_executeRenameRemote
  · exact works_executeRenameLocal
  · trivial

/-- **An operation.** -/
theorem executing_executeItem (env : Env) (root : FileId) (op : PendingOperation)
    (item : SyncItem) : (executeItem env root op item).Only fun _ c => Executing item c := by
  by_cases hop : op.op = .createDirLocal
  · simp only [executeItem, hop]
    exact Prog.Only.bind ⟨trivial, fun x => Prog.only_ofExcept x⟩ fun _ =>
      ⟨⟨rfl, .inl rfl⟩, fun _ => trivial⟩
  · exact executing_of_works (works_executeItem hop)

end Executing

/-! ## The poller, the probe of the root and `map` -/

/-- The statements that touch neither the rows nor the queue. -/
def backgroundDb : {β : Type} → DbCall β → Bool
  | _, .getCursor => true
  | _, .getMapping => true
  | _, .upsertMapping _ => true
  | _, .updateRemoteFolderId _ => true
  | _, .setBlocked _ => true
  | _, .clearIfTransient => true
  | _, _ => false

/-- The requests that move no bytes and change no object that is there. -/
def backgroundDrive : {β : Type} → DriveCall β → Bool
  | _, .getFile _ => true
  | _, .listChildren _ => true
  | _, .createFolder _ _ => true
  | _, .changesSince _ => true
  | _, _ => false

/-- The calls that touch neither the rows nor the queue nor a file on either side. -/
def background : {β : Type} → Call β → Bool
  | _, .db c => backgroundDb c
  | _, .drive c => backgroundDrive c
  | _, _ => false

section Background

variable {α : Type}

lemma background_request {c : DriveCall α} (hc : backgroundDrive c = true) :
    (request c).Only fun _ c => background c = true := ⟨hc, fun x => Prog.only_ofExcept x⟩

lemma background_getFileMeta {id : FileId} :
    (getFileMeta id).Only fun _ c => background c = true := by
  refine Prog.Only.bind (background_request rfl).attempt fun res => ?_
  split <;> trivial

lemma background_resolveSegments {autoCreate : Bool} {current : FileId} {segments : List String} :
    (resolveSegments autoCreate current segments).Only fun _ c => background c = true := by
  induction segments generalizing current with
  | nil => trivial
  | cons seg rest ih =>
    refine Prog.Only.bind (background_request rfl) fun children => ?_
    split
    · exact ih
    · split
      · exact (background_request rfl).bind fun _ => ih
      · trivial

lemma background_resolvePath {autoCreate : Bool} {spec : RemoteSpec} :
    (resolvePath autoCreate spec).Only fun _ c => background c = true := by
  cases spec with
  | url id =>
    refine background_getFileMeta.bind fun file => ?_
    split <;> trivial
  | path segments => exact background_resolveSegments

/-- **`map`.** -/
lemma background_map {autoCreate confirmed : Bool} {localPath : String} {spec : RemoteSpec} :
    (Map.map autoCreate confirmed localPath spec).Only fun _ c => background c = true := by
  refine Prog.Only.bind ?_ fun remoteId =>
    background_getFileMeta.attempt.bind fun _ => ⟨rfl, fun _ => trivial⟩
  unfold Map.remoteFolder
  refine background_resolvePath.attempt.bind fun res => ?_
  split
  · trivial
  · split
    · exact background_resolvePath
    · trivial
  · trivial

/-- **The probe of the remote root.** -/
lemma background_ensureRemoteRoot {mayCreate : Bool} {m : FolderMapping} :
    (Start.ensureRemoteRoot mayCreate m).Only fun _ c => background c = true := by
  have hrecreate : (Start.recreateRoot mayCreate m).Only fun _ c => background c = true := by
    unfold Start.recreateRoot
    split
    · trivial
    · trivial
    · split
      · exact background_resolvePath.bind fun id =>
          Prog.Only.bind ⟨rfl, fun _ => trivial⟩ fun _ => trivial
      · trivial
  refine (background_request rfl).attempt.bind fun res => ?_
  split
  · split
    · exact hrecreate
    · trivial
  · exact hrecreate
  · trivial

lemma background_walkUp {cache : PathCache} {fuel : ℕ} {current : FileId}
    {chain : List (FileId × String)} :
    (Poller.walkUp cache fuel current chain).Only fun _ c => background c = true := by
  induction fuel generalizing current chain with
  | zero => trivial
  | succ fuel ih =>
    unfold Poller.walkUp
    split
    · trivial
    · refine (background_request rfl).attempt.bind fun res => ?_
      split
      · trivial
      · split
        · trivial
        · exact ih

lemma background_processChange {fuel : ℕ} {root : FileId} {cache : PathCache} {c : RawChange} :
    (Poller.processChange fuel root cache c).Only fun _ c => background c = true := by
  unfold Poller.processChange
  split
  · exact Prog.Only.bind ⟨rfl, fun _ => trivial⟩ fun _ => trivial
  · split
    · trivial
    · split
      · trivial
      · refine Prog.Only.bind ?_ fun res => ?_
        · unfold Poller.descendantPath
          split
          · trivial
          · refine background_walkUp.bind fun res => ?_
            split <;> trivial
        · split <;> trivial

/-- **The poller.** -/
lemma background_tick {fuel : ℕ} {root : FileId} {cache : PathCache} :
    (Poller.tick fuel root cache).Only fun _ c => background c = true := by
  refine Prog.Only.bind ⟨rfl, fun _ => trivial⟩ fun token => ?_
  split
  · trivial
  · refine (background_request rfl).attempt.bind fun res => ?_
    split
    · exact Prog.Only.bind ⟨rfl, fun _ => trivial⟩ fun _ => trivial
    · refine Prog.Only.bind ⟨rfl, fun _ => trivial⟩ fun _ => Prog.Only.bind ?_ fun _ => trivial
      exact Prog.Only.foldM fun c _ acc => background_processChange.bind fun _ => trivial

end Background

/-! ## The initial pass -/

/-- The row of a file that is on both sides. -/
def syncedFile (rel : RelPath) (id : FileId) (size : ℕ) (md5 : String) : NewSyncItem :=
  { relativePath := rel, kind := .file, remoteId := some id, size := some size, md5 := some md5,
    state := .synced }

/-- The program looks up rows, inserts rows that satisfy `P`, stores the cursor, and works on the
local tree and on Drive. -/
def Records (P : NewSyncItem → Prop) : {β : Type} → Call β → Prop
  | _, .db (.insertItem new) => P new
  | _, .db (.getByRelativePath _) => True
  | _, .db (.setCursor _) => True
  | _, .fs _ => True
  | _, .drive c => c.touches = none
  | _, _ => False

/-- The call puts no object on Drive. -/
def putless : {β : Type} → Call β → Bool
  | _, .drive (.createFolder _ _) => false
  | _, .drive (.uploadMultipart ..) => false
  | _, _ => true

/-- The program does so, and puts nothing on Drive. -/
def Looks (P : NewSyncItem → Prop) {β : Type} (c : Call β) : Prop :=
  Records P c ∧ putless c = true

/-- `initial`, after the two walks. -/
def afterWalks (env : Env) (fuel : ℕ) (root : FileId) (locals : List Fs.LocalEntry)
    (remotes : List RemoteEntry) : Task Unit := do
  let localFiles := locals.filter fun e => !e.isDir
  let remoteFiles := remotes.filter fun e => !e.isDir
  let ids ← reconcileDirs root locals remotes
  .forEach remoteFiles writeShortcut
  let downloads := planDownloads env localFiles remoteFiles
  let uploads ← .foldM localFiles (planUpload env root ids remoteFiles) []
  .forEach localFiles (recordEqual env remoteFiles)
  Engine.bulkDownload (downloads.map fun d => ⟨d.1.id, d.1.relativePath⟩)
  Engine.bulkUpload uploads
  .forEach downloads fun d => recordSyncedItem d.1.relativePath d.1.id d.1.size d.2
  recordUploads fuel root uploads
  let token ← request .startPageToken
  sql (.setCursor token)

/-- The pass is the two walks and the rest. -/
lemma initial_eq (env : Env) (fuel : ℕ) (root : FileId) :
    initial env fuel root = (io (.walk [])).bind fun locals =>
      (walkRemote fuel root).bind fun remotes => afterWalks env fuel root locals remotes := rfl

section Records

variable {α : Type} {P : NewSyncItem → Prop} {env : Env} {root : FileId}
  {ups : List Engine.BulkUpload}

lemma records_of_looks {q : Task α} (hq : q.Only fun _ c => Looks P c) :
    q.Only fun _ c => Records P c := hq.mono fun _ _ => And.left

lemma looks_getByRelativePath {rel : RelPath} :
    (sql (.getByRelativePath rel)).Only fun _ c => Looks P c :=
  ⟨⟨trivial, rfl⟩, fun _ => trivial⟩

lemma looks_ioTry (c : FsCall (Except Error α)) : (ioTry c).Only fun _ c => Looks P c :=
  ⟨⟨trivial, rfl⟩, fun x => Prog.only_ofExcept x⟩

lemma records_request {c : DriveCall α} (hc : c.touches = none) :
    (request c).Only fun _ c => Records P c :=
  ⟨hc, fun x => Prog.only_ofExcept x⟩

lemma looks_request {c : DriveCall α} (hc : c.touches = none) (hputs : putless (.drive c) = true) :
    (request c).Only fun _ c => Looks P c :=
  ⟨⟨hc, hputs⟩, fun x => Prog.only_ofExcept x⟩

lemma looks_recordNew {new : NewSyncItem} (h : P new) :
    (recordNew new).Only fun _ c => Looks P c := by
  refine looks_getByRelativePath.bind fun row => ?_
  cases row with
  | some _ => trivial
  | none => exact Prog.Only.bind ⟨⟨h, rfl⟩, fun x => Prog.only_ofExcept x⟩ fun _ => trivial

lemma looks_recordSyncedItem {rel : RelPath} {id : FileId} {size : ℕ} {md5 : String}
    (h : P (syncedFile rel id size md5)) :
    (recordSyncedItem rel id size md5).Only fun _ c => Looks P c := looks_recordNew h

lemma records_reconcileDir {ids : FolderIds} {dir : RelPath}
    (h : ∀ id, P (Dispatcher.syncedDir dir id)) :
    (reconcileDir root ids dir).Only fun _ c => Records P c := by
  refine Prog.Only.bind ?_ fun x => (records_of_looks (looks_ioTry _)).bind fun _ => ?_
  · unfold remoteDir
    cases ids.val dir with
    | some id => trivial
    | none => exact (records_request rfl).bind fun _ => trivial
  · exact Prog.Only.bind (records_of_looks (looks_recordNew (h _))) fun _ => trivial

lemma looks_walkRemote {fuel : ℕ} : (walkRemote fuel root).Only fun _ c => Looks P c := by
  refine Prog.Only.bind ?_ fun _ => trivial
  suffices hqueue : ∀ (fuel : ℕ) (queue : List (FileId × RelPath)) (out : List RemoteEntry),
      (walkQueue fuel queue out).Only fun _ c => Looks P c from hqueue _ _ _
  intro fuel
  induction fuel with
  | zero =>
    intro queue out
    cases queue <;> trivial
  | succ fuel ih =>
    intro queue out
    cases queue with
    | nil => trivial
    | cons q queue => exact (looks_request rfl rfl).bind fun _ => ih _ _

/-- The pointer of a native document. -/
lemma looks_writeShortcut {e : RemoteEntry}
    (h : e.md5 = none → Shortcut.isNative e.mimeType = true →
      P (Continuous.pointer (Shortcut.relativePath e.relativePath e.mimeType) e.id)) :
    (writeShortcut e).Only fun _ c => Looks P c := by
  unfold writeShortcut
  split
  · trivial
  · next hmd5 =>
    split
    · next hnative =>
      refine looks_getByRelativePath.bind fun row => ?_
      cases row with
      | some _ => trivial
      | none =>
        refine ((looks_ioTry _).bind fun _ => looks_ioTry _).bind fun _ => ?_
        exact Prog.Only.bind ⟨⟨h (by simpa using hmd5) hnative, rfl⟩, fun x => Prog.only_ofExcept x⟩
          fun _ => trivial
    · trivial

lemma looks_computeLocal {rel : RelPath} :
    (Dispatcher.computeLocal env rel).Only fun _ c => Looks P c :=
  (looks_ioTry _).bind fun _ => trivial

/-- A file that is on both sides. -/
lemma looks_recordEqual {remotes : List RemoteEntry} {e : Fs.LocalEntry}
    (h : isIgnored env e.relativePath = false → ∀ id size md5,
      P (syncedFile e.relativePath id size md5)) :
    (recordEqual env remotes e).Only fun _ c => Looks P c := by
  unfold recordEqual
  split
  · trivial
  · split
    · trivial
    · next hignored =>
      refine looks_computeLocal.bind fun print => ?_
      simp only
      split
      · exact looks_recordSyncedItem (h (by simpa using hignored) _ _ _)
      · trivial

lemma looks_planUpload {ids : FolderIds} {remotes : List RemoteEntry} {e : Fs.LocalEntry} :
    (planUpload env root ids remotes ups e).Only fun _ c => Looks P c := by
  unfold planUpload
  split
  · trivial
  · split
    · trivial
    · refine looks_getByRelativePath.bind fun existing => ?_
      split <;> trivial

lemma looks_bulkDownload {items : List Engine.BulkDownload} :
    (Engine.bulkDownload items).Only fun _ c => Looks P c :=
  Prog.Only.forEach fun _ _ => (looks_request rfl rfl).bind fun _ => (looks_ioTry _).bind fun _ =>
    looks_ioTry _

lemma records_bulkUpload : (Engine.bulkUpload ups).Only fun _ c => Records P c :=
  Prog.Only.forEach fun _ _ => ((records_of_looks (looks_ioTry _)).bind fun _ =>
    records_request rfl).bind fun _ => trivial

/-! ### Reading the ids of uploads back -/

/-- What is left of a list of uploads, by a step that keeps the upload or drops it. -/
lemma left_of_step {Q : Engine.BulkUpload → Prop}
    {f : List Engine.BulkUpload → Engine.BulkUpload → Task (List Engine.BulkUpload)}
    (hups : ∀ up ∈ ups, Q up)
    (hf : ∀ left up, (f left up).Yields fun left' => ∀ x ∈ left', x ∈ left ∨ x = up) :
    (Prog.foldM ups f []).Yields fun left => ∀ up ∈ left, Q up := by
  refine Prog.Yields.foldM (by simp) fun up hup left hleft => ?_
  refine (hf left up).mono fun left' hleft' x hx => ?_
  rcases hleft' x hx with hx | rfl
  · exact hleft x hx
  · exact hups _ hup

/-- An upload that the second walk saw is recorded, the others are left. -/
lemma recordSeen_left {after : List RemoteEntry} {left : List Engine.BulkUpload}
    {up : Engine.BulkUpload} :
    (recordSeen after left up).Yields fun left' => ∀ x ∈ left', x ∈ left ∨ x = up := by
  unfold recordSeen
  split
  · exact (Prog.yields_true _).bind fun _ _ x hx => .inl hx
  · simp

lemma recordLookedUp_left {left : List Engine.BulkUpload} {up : Engine.BulkUpload} :
    (recordLookedUp left up).Yields fun left' => ∀ x ∈ left', x ∈ left ∨ x = up := by
  refine (Prog.yields_true _).bind fun found _ => ?_
  cases found with
  | none => simp
  | some x => exact (Prog.yields_true _).bind fun _ _ x hx => .inl hx

/-- An upload may be recorded under any id. -/
def Recordable (P : NewSyncItem → Prop) (up : Engine.BulkUpload) : Prop :=
  ∀ id size md5, P (syncedFile up.relPath id size md5)

/-- The retries of the uploads that Drive does not list yet. -/
lemma looks_retryLookups {n : ℕ} (h : ∀ up ∈ ups, Recordable P up) :
    (retryLookups n ups).Only fun _ c => Looks P c := by
  induction n generalizing ups with
  | zero => trivial
  | succ n ih =>
    cases ups with
    | nil => trivial
    | cons up ups =>
      refine Prog.Only.bind_yields (Prog.Only.foldM fun up hup left => ?_)
        (left_of_step h fun _ _ => recordLookedUp_left) fun left hleft => ih hleft
      refine Prog.Only.bind ?_ fun found => ?_
      · refine Prog.Only.bind (looks_request rfl rfl).attempt fun res => ?_
        cases res <;> trivial
      · cases found with
        | none => trivial
        | some x => exact (looks_recordSyncedItem (h up hup _ _ _)).bind fun _ => trivial

lemma looks_recordUploads {fuel : ℕ} (h : ∀ up ∈ ups, Recordable P up) :
    (recordUploads fuel root ups).Only fun _ c => Looks P c := by
  unfold recordUploads
  split
  · trivial
  · refine looks_walkRemote.bind fun after => ?_
    refine Prog.Only.bind_yields (Prog.Only.foldM fun up hup left => ?_)
      (left_of_step h fun _ _ => recordSeen_left) fun left hleft => looks_retryLookups hleft
    unfold recordSeen
    split
    · exact (looks_recordSyncedItem (h up hup _ _ _)).bind fun _ => trivial
    · trivial

/-- The downloads that were planned are of files that are not ignored. -/
lemma not_ignored_of_planDownloads {locals : List Fs.LocalEntry} {remotes : List RemoteEntry}
    {d : RemoteEntry × String} (hd : d ∈ planDownloads env locals remotes) :
    isIgnored env d.1.relativePath = false := by
  obtain ⟨r, -, hplan⟩ := List.mem_filterMap.mp hd
  split_ifs at hplan with hlocal hignored
  obtain ⟨md5, -, rfl⟩ := Option.map_eq_some_iff.mp hplan
  simpa using hignored

/-- So are the uploads, whatever the planning reads. -/
lemma not_ignored_of_planUploads {ids : FolderIds} {remotes : List RemoteEntry}
    {locals : List Fs.LocalEntry} :
    (Prog.foldM locals (planUpload env root ids remotes) []).Yields
      fun ups : List Engine.BulkUpload => ∀ up ∈ ups, isIgnored env up.relPath = false := by
  refine Prog.Yields.foldM (by simp) fun e _ ups hups => ?_
  unfold planUpload
  split
  · exact hups
  · split
    · exact hups
    · next hignored =>
      intro existing
      show Prog.Yields _ (if _ then _ else _)
      split
      · exact hups
      · intro up hup
        rcases List.mem_append.mp hup with hup | hup
        · exact hups up hup
        · obtain rfl := List.mem_singleton.mp hup
          simpa using hignored

/-- **The initial pass after the two walks**: it records directories, pointers of native documents,
and files that are not ignored. -/
lemma records_afterWalks {fuel : ℕ} {locals : List Fs.LocalEntry} {remotes : List RemoteEntry}
    (hdir : ∀ dir id, P (Dispatcher.syncedDir dir id))
    (hpointer : ∀ e ∈ remotes.filter fun e => !e.isDir, e.md5 = none →
      Shortcut.isNative e.mimeType = true →
        P (Continuous.pointer (Shortcut.relativePath e.relativePath e.mimeType) e.id))
    (hfile : ∀ rel, isIgnored env rel = false → ∀ id size md5, P (syncedFile rel id size md5)) :
    (afterWalks env fuel root locals remotes).Only fun _ c => Records P c := by
  refine Prog.Only.bind (Prog.Only.foldM fun _ _ _ => records_reconcileDir (hdir _)) fun ids => ?_
  refine Prog.Only.bind (Prog.Only.forEach fun e he => records_of_looks (looks_writeShortcut (hpointer e he)))
    fun _ => ?_
  refine Prog.Only.bind_yields (Prog.Only.foldM fun _ _ _ => records_of_looks looks_planUpload)
    not_ignored_of_planUploads fun uploads huploads => ?_
  refine (Prog.Only.forEach fun e _ => records_of_looks (looks_recordEqual (hfile e.relativePath))).bind fun _ => ?_
  refine (records_of_looks looks_bulkDownload).bind fun _ => records_bulkUpload.bind fun _ => ?_
  refine (Prog.Only.forEach fun d hd => records_of_looks (looks_recordSyncedItem
    (hfile _ (not_ignored_of_planDownloads hd) _ _ _))).bind fun _ => ?_
  refine (records_of_looks (looks_recordUploads fun up hup =>
    hfile _ (huploads up hup))).bind fun _ => ?_
  exact (records_request rfl).bind fun _ => ⟨trivial, fun _ => trivial⟩

/-- **The initial pass.** -/
lemma records_initial {fuel : ℕ} (hdir : ∀ dir id, P (Dispatcher.syncedDir dir id))
    (hpointer : ∀ rel id, P (Continuous.pointer rel id))
    (hfile : ∀ rel, isIgnored env rel = false → ∀ id size md5, P (syncedFile rel id size md5)) :
    (initial env fuel root).Only fun _ c => Records P c := by
  have hwalk : (io (.walk [])).Only fun _ c => Records P c := ⟨trivial, fun _ => trivial⟩
  rw [initial_eq]
  exact hwalk.bind fun _ => (records_of_looks looks_walkRemote).bind fun _ =>
    records_afterWalks hdir (fun _ _ _ _ => hpointer _ _) hfile

end Records

end AirDrive.Calls
