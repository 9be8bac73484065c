import AirDrive.Daemon.Outcomes
import AirDrive.Reconcile.Applied
import AirDrive.System.Drain

set_option relaxedAutoImplicit false
set_option autoImplicit false

/-!
# Fetching a remote edit

The content of a tracked file changes on Drive, and the change is applied. Most branches of
`applyRemote` queue a download; the dispatcher then executes it among the other operations of the
row. The bytes arrive when the change is not taken for something else, and no operation of the row
is executed at a moment at which it undoes what the change asks for.

## Main definitions

* `AirDrive.Fetch.Edited` — the change, the row it meets and the object.
* `AirDrive.Fetch.Noticed` — the change is not passed over, and no directory explains it.
* `AirDrive.Fetch.Timely` — the moments at which an operation of the row does no harm.
* `AirDrive.Fetch.Step` — steps of the dispatcher, and what happens elsewhere.

## Main results

* `AirDrive.Fetch.ends_applyFile` — the download is queued.
* `AirDrive.Fetch.Inv.drain`, `AirDrive.Fetch.Inv.elsewhere` — it stays, or the bytes arrive.
* `AirDrive.Fetch.edited_file_arrives` — once the queue has drained the bytes are at the row's path.
-/

namespace AirDrive.Fetch

open Effect Continuous Outcomes

/-! ## The situation -/

/-- A change `c` of the object `g`, whose content is now `b`, meets the row `r`. -/
structure Edited (env : Env) (w : World) (c : RemoteChange) (r : SyncItem) (g : DriveFile)
    (b : Bytes) : Prop where
  /-- The change describes the object as it is. -/
  change : c.fileId = .id g.num ∧ c.removed = false ∧ c.file = some (Drive.resource env.md5 g)
  /-- The object is a live regular file that holds `b`. -/
  regular : g.trashed = false ∧ g.mimeType ≠ folderMime ∧ Shortcut.isNative g.mimeType = false
  /-- It is on Drive. -/
  object : w.remote.drive.file (.id g.num) = some g ∧ g.content = some b
  /-- The row is that of the object. -/
  row : w.db.items.getByRemoteId (.id g.num) = some r ∧ r.kind = .file
  /-- The row has another fingerprint. -/
  differs : r.md5 ≠ some (env.md5 b)
  /-- The local file is another one. -/
  stale : ∀ e, w.fs.node r.relativePath = some (.file e) → env.md5 e ≠ env.md5 b

/-- The row of the old parent directory is bound to the folder that the object is in now: the new
path `rel` is put down to a rename of that directory. -/
def DirRenamed (w : World) (r : SyncItem) (file : FileResource) (rel : RelPath) : Prop :=
  r.relativePath.parentDir ≠ rel.parentDir ∧ r.relativePath.parentDir ≠ [] ∧
    ∃ dir ∈ w.db.items, dir.relativePath = r.relativePath.parentDir ∧ dir.remoteId ≠ none ∧
      dir.remoteId = file.parents.head?

/-- The object is not in flight, and a new path of a live row is not put down to a rename of its
directory. -/
structure Noticed (w : World) (c : RemoteChange) (r : SyncItem) (file : FileResource) : Prop where
  free : w.inFlight.contains c.fileId = false
  own : ∀ rel, c.relativePath = some rel → rel ≠ r.relativePath → r.trashedAt = none →
    ¬DirRenamed w r file rel

/-- A download of the row `n`. -/
def IsFetch (n : ItemId) (o : PendingOperation) : Prop := o.syncItemId = n ∧ o.op = .download

/-- The moments at which an operation of the row does no harm. -/
def Timely (env : Env) (n : ItemId) (rid : FileId) (w : World) (r : SyncItem)
    (o : PendingOperation) : Prop :=
  match o.op with
  -- there is nothing to be uploaded
  | .upload => ∀ e, w.fs.node r.relativePath = some (.file e) →
      r.md5 = some (env.md5 e) ∧ r.size = some e.length
  -- no rename has overtaken it
  | .download => ∃ size md5, o.payload = some (.download ⟨rid, size, md5, r.relativePath⟩)
  -- no other row is in the way
  | .renameLocal => ∀ p, o.payload = some (.rename p) →
      ∀ s ∈ w.db.items, s.relativePath = p.newRelativePath → s.id = n
  -- a download is still to come
  | .deleteLocal => o.payload = some (.deleteLocal ⟨true⟩) ∧ ∃ o' ∈ w.db.ops, IsFetch n o'
  | _ => False

/-- What everything else leaves alone: the row, which may move along with its file, its downloads
and the object. -/
structure Spares (n : ItemId) (rid : FileId) (b : Bytes) (w w' : World) : Prop where
  row : ∀ s ∈ w.db.items, s.id = n → ∃ s' ∈ w'.db.items, s'.id = n ∧ s'.kind = s.kind ∧
    s'.remoteId = s.remoteId ∧ (w.fs.node s.relativePath = some (.file b) →
      w'.fs.node s'.relativePath = some (.file b))
  fetches : ∀ o ∈ w.db.ops, IsFetch n o → ∃ o' ∈ w'.db.ops, IsFetch n o'
  object : ∀ g, w.remote.drive.file rid = some g →
    ∃ g', w'.remote.drive.file rid = some g' ∧ g'.content = g.content

/-- One step: the dispatcher takes an operation of the row at a moment that meets a condition, or
something else happens. -/
inductive Step (env : Env) (n : ItemId) (rid : FileId) (b : Bytes)
    (ok : World → SyncItem → PendingOperation → Prop) : World → World → Prop
  | drain {w : World} (root : FileId)
    (own : ∀ o, OpTable.nextDue w.db.ops w.now = some o → o.syncItemId = n)
    (meets : ∀ o, OpTable.nextDue w.db.ops w.now = some o → o.attempts < Dispatcher.maxAttempts →
      ∀ r ∈ w.db.items, r.id = n → ok w r o) :
    Step env n rid b ok w (runTask env (Dispatcher.drainOne env root) w).2
  | elsewhere {w w' : World} (spares : Spares n rid b w w') : Step env n rid b ok w w'

/-- Any number of steps. -/
abbrev Steps (env : Env) (n : ItemId) (rid : FileId) (b : Bytes)
    (ok : World → SyncItem → PendingOperation → Prop) : World → World → Prop :=
  Relation.ReflTransGen (Step env n rid b ok)

/-- The bytes are at the path of the row. -/
def Arrived (n : ItemId) (b : Bytes) (w : World) : Prop :=
  ∃ s ∈ w.db.items, s.id = n ∧ w.fs.node s.relativePath = some (.file b)

/-- The row is bound to the object, which holds the bytes. -/
structure Held (n : ItemId) (rid : FileId) (b : Bytes) (w : World) : Prop where
  row : ∃ s ∈ w.db.items, s.id = n ∧ s.kind = .file ∧ s.remoteId = some rid
  object : ∃ g, w.remote.drive.file rid = some g ∧ g.content = some b

/-- The invariant: the bytes have arrived, or a download is queued. -/
structure Inv (n : ItemId) (rid : FileId) (b : Bytes) (w : World) : Prop where
  held : Held n rid b w
  next : Arrived n b w ∨ ∃ o ∈ w.db.ops, IsFetch n o

variable {env : Env} {n : ItemId} {rid : FileId} {b : Bytes} {w w' : World} {r : SyncItem}

/-! ## The change is applied -/

/-- The rows and the objects are the same. -/
lemma Held.congr (h : Held n rid b w) (hitems : w'.db.items = w.db.items)
    (hdrive : w'.remote.drive = w.remote.drive) : Held n rid b w' :=
  ⟨hitems ▸ h.row, hdrive ▸ h.object⟩

/-- A statement that keeps the kind and the remote id of every row. -/
lemma Held.sql {β : Type} {c : DbCall β} (h : Held n rid b w) (hdrop : c.drops = false)
    (hchange : ∀ s r, c.Changes s r → r.kind = s.kind ∧ r.remoteId = s.remoteId) :
    Held n rid b { w with db := (c.run w.db).2 } := by
  obtain ⟨s, hs, hid, hkind, hremote⟩ := h.row
  obtain ⟨s', hs', hid', hc⟩ := DbCall.rows_persist hdrop hs
  obtain ⟨hkind', hremote'⟩ := hchange s s' hc
  exact ⟨⟨s', hs', hid'.trans hid, hkind'.trans hkind, hremote'.trans hremote⟩, h.object⟩

/-- A download is queued. -/
lemma ends_enqueueDownload (h : Held n rid b w) (file : FileResource) (md5 : String)
    (rel : RelPath) :
    Ends env (fun _ w' => Inv n rid b w') (enqueueDownload n file md5 rel) w := by
  obtain ⟨s, hs, hid, -⟩ := h.row
  have hrow : ∃ s ∈ w.db.items, s.id = n := ⟨s, hs, hid⟩
  exact ends_enqueueOp hrow
    ⟨h.congr queued_items rfl, .inr ⟨_, (mem_queued hrow).mpr (.inr rfl), rfl, rfl⟩⟩

/-- Moving the local version aside changes the local tree only. -/
lemma ends_moveAside {p q : RelPath} :
    Ends env (fun _ w' => w'.db = w.db ∧ w'.remote = w.remote) (Conflict.moveAside p q) w := by
  cases hthere : w.fs.exists' p with
  | false =>
    simp only [Ends, Conflict.moveAside, Prog.bind_eq, Prog.safe_bind, safe_io, FsCall.run, hthere,
      Bool.false_eq_true, if_false, true_and, forall_const]
    exact ⟨rfl, rfl⟩
  | true =>
    simp only [Ends, Conflict.moveAside, Prog.bind_eq, Prog.safe_bind, safe_io, FsCall.run, hthere,
      if_true, true_and, forall_const]
    split <;> exact ⟨rfl, rfl⟩

/-- Opening a conflict changes no row. -/
lemma ends_openConflict {item : ItemId} {p : RelPath} {now : ℕ} :
    Ends env (fun _ w' => w'.db.items = w.db.items ∧ w'.remote = w.remote)
      (Conflict.openConflict item p now) w := by
  unfold Conflict.openConflict
  refine Prog.Safe.bind ends_moveAside (fun _ w₁ ⟨hdb, hremote⟩ => ?_)
    fun _ w₁ ⟨hdb, hremote⟩ => ⟨by rw [hdb], hremote⟩
  rw [Prog.bind_eq, Prog.safe_bind, safe_sqlTry]
  refine fun _ => ⟨trivial, ?_⟩
  simp only [DbCall.run, Db.insertConflict, hdb]
  split_ifs <;> exact ⟨rfl, hremote⟩

/-- Looking at the local copy changes nothing, and it has not got the bytes. -/
lemma ends_localVersion {md5 : String}
    (hstale : ∀ e, w.fs.node r.relativePath = some (.file e) → env.md5 e ≠ md5) :
    Ends env (fun x w' => w' = w ∧ x ≠ .ok .agrees) (localVersion env r md5) w := by
  have hread : ∀ e, w.fs.readFile r.relativePath = .ok e → env.md5 e ≠ md5 := by
    intro e he
    refine hstale e ?_
    unfold Fs.readFile at he
    split at he
    · next c hnode => rw [hnode, Except.ok.inj he]
    · cases he
    · cases he
  cases hfile : w.fs.isFile r.relativePath with
  | false =>
    simp only [Ends, localVersion, Prog.bind_eq, Prog.safe_bind, safe_io, FsCall.run, hfile,
      Bool.false_eq_true, if_false, true_and, forall_const]
    exact ⟨rfl, by simp⟩
  | true =>
    simp only [Ends, localVersion, Prog.bind_eq, Prog.safe_bind, safe_io, FsCall.run, hfile,
      if_true, true_and, forall_const]
    cases r.md5 with
    | none => exact ⟨rfl, by simp⟩
    | some lastSynced =>
      simp only [Prog.safe_bind, safe_io, FsCall.run, true_and, forall_const]
      cases hbytes : w.fs.readFile r.relativePath with
      | error e => exact ⟨rfl, by simp⟩
      | ok e =>
        simp only [hread e hbytes, if_false]
        split_ifs <;> exact ⟨rfl, by simp⟩

section Apply

variable {c : RemoteChange} {g : DriveFile}

lemma Edited.held (h : Edited env w c r g b) : Held r.id (.id g.num) b w := by
  obtain ⟨hr, hremote⟩ := ItemTable.getByRemoteId_mem h.row.1
  exact ⟨⟨r, hr, rfl, h.row.2, hremote⟩, g, h.object.1, h.object.2⟩

lemma Edited.newPrint (h : Edited env w c r g b) :
    sameFingerprint r (Drive.resource env.md5 g) (env.md5 b) = false := by
  simp [sameFingerprint, h.differs]

/-- The path is the same: a download is queued, next to a conflict copy when there is one. -/
lemma ends_applyEdited (h : Edited env w c r g b) :
    Ends env (fun x w' => x = .ok () → Inv r.id (.id g.num) b w')
      (applyEdited env r (Drive.resource env.md5 g) (env.md5 b)) w := by
  have hfetch : ∀ w₁ : World, Held r.id (.id g.num) b w₁ →
      Ends env (fun x w' => x = .ok () → Inv r.id (.id g.num) b w')
        (enqueueDownload r.id (Drive.resource env.md5 g) (env.md5 b) r.relativePath) w₁ :=
    fun w₁ hheld => Prog.Safe.mono (ends_enqueueDownload hheld _ _ _) fun _ _ hinv _ => hinv
  unfold applyEdited
  rw [h.newPrint, if_neg (by simp)]
  refine Prog.Safe.bind (ends_localVersion h.stale) (fun x w₁ ⟨hsame, hx⟩ => ?_) fun e w₁ _ => nofun
  subst hsame
  cases x with
  | agrees => exact absurd rfl hx
  | behind => exact hfetch _ h.held
  | edited =>
    rw [Prog.bind_eq, Prog.safe_bind, safe_unixNow]
    refine fun _ => ⟨trivial, ?_⟩
    simp only [Prog.bind_eq]
    refine Prog.Safe.bind ends_openConflict (fun _ w₂ ⟨hitems, hremote⟩ => ?_) fun _ _ _ => nofun
    exact hfetch w₂ (h.held.congr hitems (by rw [hremote]))

/-- The path is another one, and no directory explains it: the file is renamed, and then
fetched. -/
lemma ends_applyMoved {rel : RelPath} (h : Edited env w c r g b)
    (hdir : ¬DirRenamed w r (Drive.resource env.md5 g) rel) :
    Ends env (fun x w' => x = .ok () → Inv r.id (.id g.num) b w')
      (applyMoved r (Drive.resource env.md5 g) (env.md5 b) rel) w := by
  have hnone : Ends env (fun x w' => w' = w ∧ x = .ok none)
      (renamedDir r (Drive.resource env.md5 g) rel) w := by
    unfold renamedDir
    cases hhead : (Drive.resource env.md5 g).parents.head? with
    | none => exact ⟨rfl, rfl⟩
    | some parentId =>
      simp only
      split_ifs with hparent
      · simp only [Ends, Prog.bind_eq, Prog.safe_bind, safe_sql, DbCall.run, true_and,
          forall_const]
        cases hrow : w.db.items.getByRelativePath r.relativePath.parentDir with
        | none => exact ⟨rfl, rfl⟩
        | some dir =>
          simp only
          split_ifs with hbound
          · obtain ⟨hmem, hpath⟩ := ItemTable.getByRelativePath_eq_some.mp hrow
            refine absurd ⟨hparent.1, hparent.2, dir, hmem, hpath, by simp [hbound], ?_⟩ hdir
            rw [hbound, hhead]
          · exact ⟨rfl, rfl⟩
      · exact ⟨rfl, rfl⟩
  unfold applyMoved
  refine Prog.Safe.bind hnone ?_ fun e w₁ h' => (by cases h'.2)
  rintro x w₁ ⟨hsame, hx⟩
  subst hsame
  obtain rfl := Except.ok.inj hx
  have hrow : ∃ s ∈ w₁.db.items, s.id = r.id := h.held.row.imp fun s hs => ⟨hs.1, hs.2.1⟩
  rw [Prog.bind_eq]
  refine Prog.Safe.bind (P := fun x w' => x = .ok () → Held r.id (.id g.num) b w')
    (ends_enqueueOp hrow fun _ => h.held.congr queued_items rfl) (fun _ w₂ hheld => ?_)
    fun _ _ _ => by intros; contradiction
  rw [h.newPrint, if_neg (by simp)]
  exact Prog.Safe.mono (ends_enqueueDownload (hheld rfl) _ _ _) fun _ _ hinv _ => hinv

/-- **The change is applied**: a download is queued. -/
lemma ends_applyRemote (h : Edited env w c r g b)
    (hn : Noticed w c r (Drive.resource env.md5 g)) :
    Ends env (fun x w' => x = .ok () → Inv r.id (.id g.num) b w') (applyRemote env c) w := by
  obtain ⟨hid, hremoved, hfile⟩ := h.change
  obtain ⟨htrashed, hfolder, hnative⟩ := h.regular
  have hmd5 : (Drive.resource env.md5 g).md5 = some (env.md5 b) := by
    simp [Drive.resource, h.object.2]
  have hrow : w.db.items.getByRemoteId c.fileId = some r := hid ▸ h.row.1
  refine ends_applyRemote_present hn.free hremoved hfile ?_
  refine ends_applyPresent_file htrashed (decide_eq_false hfolder) hnative hmd5 ?_
  by_cases htomb : r.trashedAt = none
  · simp only [Ends, applyFile, Prog.bind_eq]
    rw [Prog.safe_bind, safe_sql]
    refine fun _ => ⟨trivial, ?_⟩
    simp only [DbCall.run, hrow, htomb, ne_eq, not_true_eq_false, if_false]
    cases hpath : c.relativePath with
    | none => exact ends_applyEdited h
    | some rel =>
      simp only
      split_ifs with hsame
      · exact ends_applyEdited h
      · exact ends_applyMoved h (hn.own rel hpath hsame htomb)
  · refine ends_applyFile_restored hrow htomb ?_
    simp only [Ends, applyRestored, Prog.bind_eq]
    rw [Prog.safe_bind, safe_sql]
    refine fun _ => ⟨trivial, ?_⟩
    have hheld : Held r.id (.id g.num) b
        { w with db := (DbCall.run (.clearTrashed r.id) w.db).2 } :=
      h.held.sql rfl fun s r' hc => (by rcases hc with rfl | ⟨-, rfl⟩ <;> exact ⟨rfl, rfl⟩)
    exact Prog.Safe.mono (ends_enqueueDownload hheld _ _ _) fun _ _ hinv _ => hinv

end Apply

/-! ## The dispatcher -/

/-- What an execution leaves: the row is bound to the object, its operations are queued, and the
bytes are still there. -/
structure Executed (n : ItemId) (rid : FileId) (b : Bytes) (w w' : World) : Prop where
  held : Held n rid b w'
  ops : ∀ o ∈ w.db.ops, o.syncItemId = n → o ∈ w'.db.ops
  arrived : Arrived n b w → Arrived n b w'

lemma Executed.refl (h : Held n rid b w) : Executed n rid b w w := ⟨h, fun _ ho _ => ho, id⟩

/-- **An upload** that has nothing to upload. -/
lemma ends_executeUpload (root : FileId)
    (hsame : ∀ e, w.fs.node r.relativePath = some (.file e) →
      r.md5 = some (env.md5 e) ∧ r.size = some e.length) :
    Ends env (fun _ w' => w' = w) (Dispatcher.executeUpload env root r) w := by
  cases hfile : w.fs.isFile r.relativePath with
  | false =>
    simp only [Ends, Dispatcher.executeUpload, Prog.bind_eq, Prog.safe_bind, safe_io, FsCall.run,
      hfile, Bool.false_eq_true, if_false, true_and, forall_const]
    rfl
  | true =>
    obtain ⟨e, hnode⟩ := Fs.isFile_iff.mp hfile
    have hread : w.fs.readFile r.relativePath = .ok e := by rw [Fs.readFile, hnode]
    simp only [Ends, Dispatcher.executeUpload, Dispatcher.computeLocal, Prog.bind_eq,
      Prog.safe_bind, safe_io, safe_ioTry, FsCall.run, hfile, hread, if_true, true_and,
      forall_const, Prog.pure_eq, Prog.safe_pure]
    rw [if_pos (hsame e hnode)]
    rfl

lemma Arrived.node (h : Arrived n b w) (hr : r ∈ w.db.items) (hid : r.id = n) :
    w.fs.node r.relativePath = some (.file b) := by
  obtain ⟨s, hs, hsid, hnode⟩ := h
  rwa [ItemTable.id_inj hs hr (hsid.trans hid.symm)] at hnode

/-- Making directories keeps the file. -/
lemma Arrived.createDirAll (h : Arrived n b w) (p : RelPath) :
    Arrived n b { w with fs := (FsCall.run (.createDirAll p) w.fs).2 } := by
  obtain ⟨s, hs, hid, hnode⟩ := h
  refine ⟨s, hs, hid, ?_⟩
  simp only [FsCall.run]
  cases hmade : w.fs.createDirAll p with
  | error e => exact hnode
  | ok fs' => exact (Fs.node_createDirAll hmade (by simp [hnode])).trans hnode

/-- Writing the bytes somewhere keeps the file. -/
lemma Arrived.writeFile (h : Arrived n b w) (p : RelPath) :
    Arrived n b { w with fs := (FsCall.run (.writeFile p b) w.fs).2 } := by
  obtain ⟨s, hs, hid, hnode⟩ := h
  refine ⟨s, hs, hid, ?_⟩
  simp only [FsCall.run]
  cases hwrite : w.fs.writeFile p b with
  | error e => exact hnode
  | ok fs' =>
    by_cases hpath : s.relativePath = p
    · exact hpath ▸ Fs.node_writeFile_self hwrite
    · exact (Fs.node_writeFile_ne hwrite hpath).trans hnode

/-- A statement that keeps all there is to know about a row but its fingerprint. -/
lemma Arrived.sql {β : Type} {c : DbCall β} (h : Arrived n b w) (hdrop : c.drops = false)
    (hchange : ∀ s r, c.Changes s r → r.relativePath = s.relativePath) :
    Arrived n b { w with db := (c.run w.db).2 } := by
  obtain ⟨s, hs, hid, hnode⟩ := h
  obtain ⟨s', hs', hid', hc⟩ := DbCall.rows_persist hdrop hs
  exact ⟨s', hs', hid'.trans hid, (hchange s s' hc).symm ▸ hnode⟩

/-- **The transfer**: the bytes of the object are fetched to a path. -/
lemma ends_download (h : Held n rid b w) (p : RelPath) :
    Ends env (fun x w' => (w'.db = w.db ∧ w'.remote.drive = w.remote.drive) ∧
      (Arrived n b w → Arrived n b w') ∧ (x = .ok () → w'.fs.node p = some (.file b)))
      (Engine.download rid p) w := by
  obtain ⟨g, hfile, hcontent⟩ := h.object
  simp only [Ends, Engine.download, Prog.bind_eq]
  rw [Prog.safe_bind, safe_request]
  refine fun _ => ⟨trivial, ?_⟩
  cases hget : (w.remote.send env.md5 (.getMedia rid)).1 with
  | error e => exact ⟨⟨rfl, Remote.send_getMedia_drive⟩, id, by intros; contradiction⟩
  | ok body =>
    obtain rfl : b = body := by
      have hrun := Remote.send_ok hget
      simpa [DriveCall.run, DriveCall.onFile, hfile, hcontent] using hrun
    have hmade : Arrived n b w → Arrived n b { w with
        remote := (w.remote.send env.md5 (.getMedia rid)).2
        fs := (FsCall.run (.createDirAll p.parentDir) w.fs).2 } := fun h => h.createDirAll p.parentDir
    simp only
    rw [Prog.safe_bind, safe_ioTry]
    refine fun _ => ⟨trivial, ?_⟩
    cases (FsCall.run (.createDirAll p.parentDir) w.fs).1 with
    | error e => exact ⟨⟨rfl, Remote.send_getMedia_drive⟩, hmade, by intros; contradiction⟩
    | ok u =>
      simp only
      rw [safe_ioTry]
      exact fun _ => ⟨trivial, ⟨rfl, Remote.send_getMedia_drive⟩, fun h => (hmade h).writeFile p,
        FsCall.node_of_writeFile⟩

/-- **A download** to the path of the row. -/
lemma ends_executeDownload (h : Held n rid b w) (hr : r ∈ w.db.items) (hid : r.id = n) (size : ℕ)
    (md5 : String) :
    Ends env (fun x w' => Executed n rid b w w' ∧ (x = .ok () → Arrived n b w'))
      (Dispatcher.executeDownload env r (some (.download ⟨rid, size, md5, r.relativePath⟩))) w := by
  have hbound : r.remoteId = some rid := by
    obtain ⟨s, hs, hsid, -, hremote⟩ := h.row
    rw [← ItemTable.id_inj hs hr (hsid.trans hid.symm), hremote]
  have hmade : Executed n rid b w
      { w with fs := (FsCall.run (.createDirAll r.relativePath.parentDir) w.fs).2 } :=
    ⟨⟨h.row, h.object⟩, fun _ ho _ => ho, fun h => h.createDirAll _⟩
  simp only [Ends, Dispatcher.executeDownload, decodePayload, Payload.asDownload, Prog.bind_eq,
    Prog.ofExcept_ok, Prog.pure_bind]
  rw [Prog.safe_bind, safe_ioTry]
  refine fun _ => ⟨trivial, ?_⟩
  cases (FsCall.run (.createDirAll r.relativePath.parentDir) w.fs).1 with
  | error e => exact ⟨hmade, by intros; contradiction⟩
  | ok u =>
    have hafter : ∀ w₁ : World, w₁.db = w.db → w₁.remote.drive = w.remote.drive →
        (Arrived n b { w with fs := (FsCall.run (.createDirAll r.relativePath.parentDir) w.fs).2 } →
          Arrived n b w₁) → Executed n rid b w w₁ := fun w₁ hdb hdrive harr =>
      ⟨h.congr (by rw [hdb]) hdrive, fun o ho _ => hdb ▸ ho, fun h => harr (hmade.arrived h)⟩
    refine Prog.Safe.bind (ends_download hmade.held _) ?_
      fun e w₁ h' => ⟨hafter w₁ h'.1.1 h'.1.2 h'.2.1, by intros; contradiction⟩
    rintro _ w₁ ⟨⟨hdb, hdrive⟩, harr, hok⟩
    have hwritten := hafter w₁ hdb hdrive harr
    have hnode : w₁.fs.node r.relativePath = some (.file b) := hok rfl
    have hthere : Arrived n b w₁ := ⟨r, by rw [hdb]; exact hr, hid, hnode⟩
    have hread : w₁.fs.readFile r.relativePath = .ok b := by rw [Fs.readFile, hnode]
    simp only [Dispatcher.computeLocal, Prog.bind_eq, Prog.safe_bind, safe_ioTry, FsCall.run, hread,
      Prog.pure_eq, Prog.safe_pure, true_and, forall_const]
    rw [safe_sql]
    refine fun _ => ⟨trivial, ?_⟩
    have hprint : ∀ s r' : SyncItem, DbCall.Changes s r'
        (.updateFingerprint r.id (some b.length) (some (env.md5 b))) →
        r'.relativePath = s.relativePath ∧ r'.kind = s.kind ∧ r'.remoteId = s.remoteId := by
      rintro s r' (rfl | ⟨-, rfl⟩) <;> exact ⟨rfl, rfl, rfl⟩
    simp only
    rw [if_neg (by simp [hbound])]
    have hdone := hthere.sql (c := .updateFingerprint r.id (some b.length) (some (env.md5 b))) rfl
      fun s r' hc => (hprint s r' hc).1
    refine ⟨⟨hwritten.held.sql rfl fun s r' hc => (hprint s r' hc).2, fun o ho hitem => ?_,
      fun _ => hdone⟩, fun _ => hdone⟩
    rw [DbCall.ops_run_eq rfl rfl]
    exact hwritten.ops o ho hitem

/-- **The deletion of the local copy** of a file that was trashed: the row becomes a tombstone. -/
lemma ends_executeDeleteLocal (h : Held n rid b w) (hr : r ∈ w.db.items) (hid : r.id = n) :
    Ends env (fun _ w' => Held n rid b w' ∧ w'.db.ops = w.db.ops)
      (Dispatcher.executeDeleteLocal r (some (.deleteLocal ⟨true⟩))) w := by
  have hkind : r.kind = .file := by
    obtain ⟨s, hs, hsid, hkind, -⟩ := h.row
    rw [← ItemTable.id_inj hs hr (hsid.trans hid.symm), hkind]
  have hremove : Ends env (fun _ w' => w'.db = w.db ∧ w'.remote = w.remote)
      (Dispatcher.removeLocal r) w := by
    simp only [Ends, Dispatcher.removeLocal, hkind, Prog.bind_eq]
    rw [Prog.safe_bind, safe_io]
    refine fun _ => ⟨trivial, ?_⟩
    simp only
    split
    · exact ⟨rfl, rfl⟩
    · split_ifs <;> exact ⟨rfl, rfl⟩
  unfold Dispatcher.executeDeleteLocal
  refine Prog.Safe.bind hremove (fun _ w₁ ⟨hdb, hremote⟩ => ?_)
    fun e w₁ ⟨hdb, hremote⟩ => ⟨h.congr (by rw [hdb]) (by rw [hremote]), by rw [hdb]⟩
  have hheld : Held n rid b w₁ := h.congr (by rw [hdb]) (by rw [hremote])
  simp only [decodePayload, Payload.asDeleteLocal, Prog.bind_eq, Prog.ofExcept_ok, Prog.pure_bind,
    Dispatcher.forgetLocal, hkind, and_self, if_true, Prog.safe_bind, safe_unixNow, true_and,
    forall_const]
  rw [safe_sql]
  refine fun _ => ⟨trivial, hheld.sql rfl fun s r' hc => ?_, ?_⟩
  · rcases hc with rfl | ⟨-, rfl⟩ <;> exact ⟨rfl, rfl⟩
  · rw [DbCall.ops_run_eq rfl rfl, hdb]

/-- Renaming on disk moves the file that has arrived. -/
lemma ends_moveLocal {q : RelPath} (hparent : w.fs.node r.relativePath = some (.file b) →
      w.fs.node q.dropLast = some .dir) :
    Ends env (fun x w' => (w'.db = w.db ∧ w'.remote = w.remote) ∧
      (w.fs.node r.relativePath = some (.file b) →
        (∀ e, x = .error e → w'.fs = w.fs) ∧ (x = .ok () → w'.fs.node q = some (.file b))))
      (Dispatcher.moveLocal r.relativePath q) w := by
  simp only [Ends, Dispatcher.moveLocal, Prog.bind_eq]
  rw [Prog.safe_bind, safe_io]
  refine fun _ => ⟨trivial, ?_⟩
  simp only [FsCall.run]
  cases hrename : w.fs.rename r.relativePath q with
  | ok fs' =>
    simp only [FsCall.commit]
    refine ⟨⟨rfl, rfl⟩, fun hnode => ⟨(by intros; contradiction), fun _ => ?_⟩⟩
    exact Fs.node_rename_file hnode hrename
  | error e =>
    simp only [FsCall.commit]
    have herror : w.fs.node r.relativePath = some (.file b) →
        e = .io .isADirectory ∨ e = .io .invalidInput :=
      fun hnode => Fs.rename_file_error hnode (hparent hnode) hrename
    split_ifs with hgone hmerge
    · refine ⟨⟨rfl, rfl⟩, fun hnode => absurd hgone ?_⟩
      rcases herror hnode with rfl | rfl <;> simp
    · rw [safe_ioTry]
      refine fun _ => ⟨trivial, ⟨rfl, rfl⟩, fun hnode => absurd hmerge ?_⟩
      rcases herror hnode with rfl | rfl <;> simp
    · exact ⟨⟨rfl, rfl⟩, fun _ => ⟨fun _ _ => rfl, (by intros; contradiction)⟩⟩

/-- **A local rename** moves the row along with the file. -/
lemma ends_executeRenameLocal (h : Held n rid b w) (hr : r ∈ w.db.items) (hid : r.id = n)
    {payload : Option Payload} (hfree : ∀ p, payload = some (.rename p) →
      ∀ s ∈ w.db.items, s.relativePath = p.newRelativePath → s.id = n) :
    Ends env (fun _ w' => Executed n rid b w w') (Dispatcher.executeRenameLocal r payload) w := by
  unfold Dispatcher.executeRenameLocal
  cases hdecode : decodePayload Payload.asRename payload with
  | error e =>
    simp only [Ends, Prog.bind_eq, Prog.ofExcept_error, Prog.fail_bind]
    exact .refl h
  | ok p =>
    have hpayload : payload = some (.rename p) := by
      unfold decodePayload at hdecode
      split at hdecode
      · cases hdecode
      · next pl =>
        cases pl with
        | rename q => rw [Except.ok.inj hdecode]
        | _ => cases hdecode
    simp only [Ends, Prog.bind_eq, Prog.ofExcept_ok, Prog.pure_bind]
    rw [Prog.safe_bind, safe_ioTry]
    refine fun _ => ⟨trivial, ?_⟩
    have hmade : Executed n rid b w
        { w with fs := (FsCall.run (.createDirAll p.newRelativePath.parentDir) w.fs).2 } :=
      ⟨⟨h.row, h.object⟩, fun _ ho _ => ho, fun h => h.createDirAll _⟩
    cases hdir : (FsCall.run (.createDirAll p.newRelativePath.parentDir) w.fs).1 with
    | error e => exact hmade
    | ok u =>
      refine Prog.Safe.bind (ends_moveLocal (b := b) fun _ => FsCall.dir_of_createDirAll hdir)
        (fun _ w₂ ⟨⟨hdb, hremote⟩, hmoved⟩ => ?_) fun e w₂ ⟨⟨hdb, hremote⟩, hkept⟩ => ?_
      · have hr₂ : r ∈ w₂.db.items := by
          rw [hdb]
          exact hr
        have hnew : { r with relativePath := p.newRelativePath } ∈
            w₂.db.items.renameSubtree r.relativePath p.newRelativePath := by
          refine ItemTable.mem_renameSubtree_self hr₂ rfl fun s hs hpath => ?_
          rw [hdb] at hs
          exact (hfree p hpayload s hs hpath).trans hid.symm
        rw [safe_sql]
        refine fun _ => ⟨trivial, ⟨⟨_, hnew, hid, ?_⟩, ?_⟩, fun o ho hitem => ?_, fun harr => ?_⟩
        · obtain ⟨s, hs, hsid, hrest⟩ := h.row
          rwa [ItemTable.id_inj hs hr (hsid.trans hid.symm)] at hrest
        · rw [hremote]
          exact h.object
        · refine Db.mem_ops_withItems.mpr ⟨?_, _, hnew, hid.trans hitem.symm⟩
          rw [hdb]
          exact ho
        · exact ⟨_, hnew, hid, (hmoved ((hmade.arrived harr).node hr hid)).2 rfl⟩
      · refine ⟨h.congr (by rw [hdb]) (by rw [hremote]), fun o ho _ => ?_, fun harr => ?_⟩
        · rw [hdb]
          exact ho
        · have hthere := (hmade.arrived harr).node hr hid
          refine ⟨r, ?_, hid, ?_⟩
          · rw [hdb]
            exact hr
          · rw [(hkept hthere).1 e rfl]
            exact hthere

lemma Held.retried (h : Held n rid b w) (hw : Retried w w') : Held n rid b w' :=
  h.congr hw.items (by rw [hw.drive])

/-- The retry data does not matter. -/
lemma Inv.retried (h : Inv n rid b w) (hw : Retried w w') : Inv n rid b w' := by
  refine ⟨h.held.retried hw, h.next.imp (fun ⟨s, hs, hid, hnode⟩ => ?_) fun ⟨o, ho, hfetch⟩ => ?_⟩
  · exact ⟨s, hw.items.symm ▸ hs, hid, hw.fs.symm ▸ hnode⟩
  · obtain ⟨o', ho', -, hitem, hop, -⟩ := hw.ops o ho
    exact ⟨o', ho', hitem.symm.trans hfetch.1, hop.symm.trans hfetch.2⟩

/-- An operation is taken from the queue when another download is there or the bytes are. -/
lemma Inv.completed {id : OpId} (h : Held n rid b w) (hw : Completed id w w')
    (hnext : Arrived n b w ∨ ∃ o ∈ w.db.ops, IsFetch n o ∧ o.id ≠ id) : Inv n rid b w' := by
  refine ⟨h.congr hw.items (by rw [hw.drive]), hnext.imp (fun ⟨s, hs, hid, hnode⟩ => ?_)
    fun ⟨o, ho, hfetch, hne⟩ => ⟨o, (hw.ops o).mpr ⟨ho, hne⟩, hfetch⟩⟩
  exact ⟨s, hw.items.symm ▸ hs, hid, hw.fs.symm ▸ hnode⟩

/-- **A step of the dispatcher** on an operation of the row. -/
lemma Inv.drain (root : FileId) (h : Inv n rid b w)
    (own : ∀ o, OpTable.nextDue w.db.ops w.now = some o → o.syncItemId = n)
    (meets : ∀ o, OpTable.nextDue w.db.ops w.now = some o → o.attempts < Dispatcher.maxAttempts →
      ∀ r ∈ w.db.items, r.id = n → Timely env n rid w r o) :
    Inv n rid b (runTask env (Dispatcher.drainOne env root) w).2 := by
  refine drain_keeps (fun w' hw => h.retried hw) fun op hnext hleft => ?_
  obtain ⟨r, hr, hid, -⟩ := h.held.row
  refine ⟨r, hr, hid.trans (own op hnext).symm, ?_⟩
  obtain ⟨hop, -⟩ := OpTable.nextDue_mem hnext
  have htimely := meets op hnext hleft r hr hid
  -- an operation of another kind is no download
  have hother : ∀ w₁ : World, op.op ≠ .download →
      (∀ o ∈ w.db.ops, o.syncItemId = n → o ∈ w₁.db.ops) → (∃ o ∈ w.db.ops, IsFetch n o) →
        ∃ o ∈ w₁.db.ops, IsFetch n o ∧ o.id ≠ op.id := by
    rintro w₁ hkind hkept ⟨o, ho, hfetch⟩
    refine ⟨o, hkept o ho hfetch.1, hfetch, fun heq => hkind ?_⟩
    rw [← w.db.ops.key_inj ho hop heq, hfetch.2]
  have hexecuted : ∀ (x : Except Error Unit) (w₁ : World), Executed n rid b w w₁ →
      (op.op ≠ .download ∨ (x = .ok () → Arrived n b w₁)) →
        ∀ w', Booked op.id w₁ w' x → Inv n rid b w' := by
    intro x w₁ hexec hok w' hafter
    cases x with
    | error e =>
      refine Inv.retried ⟨hexec.held, h.next.imp hexec.arrived fun ⟨o, ho, hfetch⟩ => ?_⟩ hafter
      exact ⟨o, hexec.ops o ho hfetch.1, hfetch⟩
    | ok u =>
      refine Inv.completed hexec.held hafter ?_
      rcases hok with hkind | harr
      · exact h.next.imp hexec.arrived (hother w₁ hkind hexec.ops)
      · exact .inl (harr rfl)
  unfold Timely at htimely
  unfold Dispatcher.executeItem
  cases hkind : op.op <;> rw [hkind] at htimely
  case upload =>
    refine Prog.Safe.mono (ends_executeUpload root htimely) fun x w₁ hsame => ?_
    subst hsame
    exact hexecuted x w₁ (.refl h.held) (.inl (by simp [hkind]))
  case download =>
    obtain ⟨size, md5, hpayload⟩ := htimely
    rw [hpayload]
    refine Prog.Safe.mono (ends_executeDownload h.held hr hid size md5) fun x w₁ ⟨hexec, hok⟩ => ?_
    exact hexecuted x w₁ hexec (.inr hok)
  case renameLocal =>
    refine Prog.Safe.mono (ends_executeRenameLocal h.held hr hid htimely) fun x w₁ hexec => ?_
    exact hexecuted x w₁ hexec (.inl (by simp [hkind]))
  case deleteLocal =>
    obtain ⟨hpayload, hfetch⟩ := htimely
    rw [hpayload]
    refine Prog.Safe.mono (ends_executeDeleteLocal h.held hr hid)
      fun x w₁ ⟨hheld, hops⟩ w' hafter => ?_
    cases x with
    | error e => exact Inv.retried ⟨hheld, .inr (hops.symm ▸ hfetch)⟩ hafter
    | ok u =>
      exact Inv.completed hheld hafter
        (.inr (hother w₁ (by simp [hkind]) (fun o ho _ => hops.symm ▸ ho) hfetch))
  all_goals exact absurd htimely id

/-! ## All runs -/

/-- What happens elsewhere. -/
lemma Inv.elsewhere (h : Inv n rid b w) (hs : Spares n rid b w w') : Inv n rid b w' := by
  obtain ⟨s, hmem, hid, hkind, hremote⟩ := h.held.row
  obtain ⟨g, hg, hcontent⟩ := h.held.object
  obtain ⟨s', hmem', hid', hkind', hremote', hnode⟩ := hs.row s hmem hid
  obtain ⟨g', hg', hcontent'⟩ := hs.object g hg
  refine ⟨⟨⟨s', hmem', hid', hkind'.trans hkind, hremote'.trans hremote⟩, g', hg',
    hcontent'.trans hcontent⟩, h.next.imp (fun harr => ?_) fun ⟨o, ho, hfetch⟩ =>
      hs.fetches o ho hfetch⟩
  exact ⟨s', hmem', hid', hnode (harr.node hmem hid)⟩

/-- **A remote edit arrives.** For every state, every change that gives a tracked file new content,
with or without a new path: if the object is not in flight and the new path is not put down to a
rename of the directory, then in every run after the change was applied, in which the operations of
the row are executed at moments at which they do no harm and everything else leaves the file alone,
the new bytes are at the path of the row once the queue has drained.

**Proof sketch.** A download is queued (`ends_applyRemote`) and stays queued or has brought the bytes
(`Inv.drain`, `Inv.elsewhere`); an empty queue leaves only the second. -/
theorem edited_file_arrives {w₀ w₁ : World} {c : RemoteChange} {g : DriveFile}
    (hedited : Edited env w₀ c r g b) (hnoticed : Noticed w₀ c r (Drive.resource env.md5 g))
    (happly : runTask env (applyRemote env c) w₀ = (.ok (), w₁))
    (hrun : Steps env r.id (.id g.num) b (Timely env r.id (.id g.num)) w₁ w)
    (hempty : Drained w) : Arrived r.id b w := by
  have hinv : Inv r.id (.id g.num) b w := by
    clear hempty
    induction hrun with
    | refl =>
      have happlied := (ends_applyRemote hedited hnoticed).run
      rw [happly] at happlied
      exact happlied rfl
    | tail _ hstep ih =>
      cases hstep with
      | drain root own meets => exact ih.drain root own meets
      | elsewhere spares => exact ih.elsewhere spares
  rcases hinv.next with harr | ⟨o, ho, -⟩
  · exact harr
  · exact absurd ho (hempty o)

/-! ## Edits that are missed -/

/-- A change is applied, no operation of the row is executed at a wrong moment, and the queue
drains; but the bytes are not at the path of the row. -/
def Missed (env : Env) (w₀ : World) (c : RemoteChange) (r : SyncItem) (g : DriveFile) (b : Bytes) :
    Prop :=
  Edited env w₀ c r g b ∧ ∃ w₁ w, runTask env (applyRemote env c) w₀ = (.ok (), w₁) ∧
    Steps env r.id (.id g.num) b (Timely env r.id (.id g.num)) w₁ w ∧ Drained w ∧ ¬Arrived r.id b w

/-- `a.txt` was edited on Drive while an operation of it is in flight. -/
def sampleBusy : World :=
  { sampleSynced with remote := ⟨sampleDrive [66], []⟩, inFlight := [.id 3] }

/-- The row of `a.txt`. -/
def busyRow : SyncItem := ⟨1, ["a.txt"], .file, some (.id 3), some 1, some "A", .pendingLocal, none⟩

/-- The object of `a.txt`. -/
def busyFile : DriveFile := ⟨3, "a.txt", "text/plain", some [66], [2], false, true, true⟩

/-- The change is applied. -/
def busyApplied : World :=
  (runTask .plain (applyRemote .plain (sampleChange [66])) sampleBusy).2

/-- On Drive the folder `d` was renamed to `e`, and the file in it edited. -/
def sampleRenamed : World :=
  { sampleArrived with remote := ⟨{
      files :=
        ⟨⟨[⟨1, "My Drive", folderMime, none, [], false, true, true⟩,
           ⟨2, "Sync", folderMime, none, [1], false, true, true⟩,
           ⟨3, "e", folderMime, none, [2], false, true, true⟩,
           ⟨4, "a.txt", "text/plain", some [66], [3], false, true, true⟩],
          by simp⟩, 5, by simp⟩
      rootNum := 1
      feed := [(3, false), (4, false)] }, []⟩ }

/-- The row of the file. -/
def renamedRow : SyncItem :=
  ⟨2, ["d", "a.txt"], .file, some (.id 4), some 1, some "A", .pendingLocal, none⟩

/-- Its object. -/
def renamedFile : DriveFile := ⟨4, "a.txt", "text/plain", some [66], [3], false, true, true⟩

/-- The change of the file. -/
def renamedChange : RemoteChange :=
  ⟨.id 4, false, some (Drive.resource Env.plain.md5 renamedFile), some ["e", "a.txt"]⟩

/-- The change of the file is applied. -/
def renameApplied : World := (runTask .plain (applyRemote .plain renamedChange) sampleRenamed).2

/-- The dispatcher takes an operation. -/
def drained (w : World) : World := (runTask .plain (Dispatcher.drainOne .plain (.id 2)) w).2

/-- The only row with its number, whose file has other bytes. -/
lemma not_arrived (hrow : w.db.items.getById n = some r) {e : Bytes} (he : e ≠ b)
    (hnode : w.fs.node r.relativePath = some (.file e)) : ¬Arrived n b w := by
  intro harr
  obtain ⟨hr, hid⟩ := ItemTable.getById_eq_some.mp hrow
  have hbytes := harr.node hr hid
  rw [hnode] at hbytes
  exact he (Node.file.inj (Option.some.inj hbytes))

lemma stale_of_node {e : Bytes} (hnode : w.fs.node r.relativePath = some (.file e))
    (he : env.md5 e ≠ env.md5 b) :
    ∀ e, w.fs.node r.relativePath = some (.file e) → env.md5 e ≠ env.md5 b := by
  intro e' he'
  rw [hnode] at he'
  rwa [← Node.file.inj (Option.some.inj he')]

/-- The edit of an object in flight is passed over, and so is an edit whose new path is put down to
a rename of the directory: the local file keeps its old bytes. -/
theorem remote_edit_missed :
    Missed .plain sampleBusy (sampleChange [66]) busyRow busyFile [66] ∧
      Missed .plain sampleRenamed renamedChange renamedRow renamedFile [66] := by
  constructor
  · have hstale : sampleBusy.fs.node ["a.txt"] = some (.file [65]) := by decide +kernel
    have hok : (runTask .plain (applyRemote .plain (sampleChange [66])) sampleBusy).1 = .ok () := by
      decide +kernel
    have hrow : busyApplied.db.items.getById 1 = some busyRow := by decide +kernel
    have hnode : busyApplied.fs.node ["a.txt"] = some (.file [65]) := by decide +kernel
    exact ⟨⟨⟨rfl, rfl, rfl⟩, ⟨rfl, by decide, by decide⟩, ⟨by decide +kernel, rfl⟩,
      ⟨by decide +kernel, rfl⟩, by decide, stale_of_node hstale (by decide)⟩, busyApplied,
      busyApplied, Prod.ext hok rfl, .refl, drained_of_rows (by decide +kernel),
      not_arrived hrow (by decide) hnode⟩
  · have hstale : sampleRenamed.fs.node ["d", "a.txt"] = some (.file [65]) := by decide +kernel
    have hok : (runTask .plain (applyRemote .plain renamedChange) sampleRenamed).1 = .ok () := by
      decide +kernel
    have hbefore : renameApplied.db.items.getById 2 = some renamedRow := by decide +kernel
    have hold : renameApplied.fs.node ["d", "a.txt"] = some (.file [65]) := by decide +kernel
    have hrow : (drained renameApplied).db.items.getById 2 =
        some { renamedRow with relativePath := ["e", "a.txt"] } := by decide +kernel
    have hnode : (drained renameApplied).fs.node ["e", "a.txt"] = some (.file [65]) := by
      decide +kernel
    have hops : renameApplied.db.ops.table.rows.map PendingOperation.syncItemId = [1] := by
      decide +kernel
    have hfile : renameApplied.remote.drive.file (.id 4) = some renamedFile := by decide +kernel
    have hfile' : (drained renameApplied).remote.drive.file (.id 4) = some renamedFile := by
      decide +kernel
    refine ⟨⟨⟨rfl, rfl, rfl⟩, ⟨rfl, by decide, by decide⟩, ⟨by decide +kernel, rfl⟩,
      ⟨by decide +kernel, rfl⟩, by decide, stale_of_node hstale (by decide)⟩, renameApplied,
      drained renameApplied, Prod.ext hok rfl, .single (.elsewhere ⟨?_, ?_, ?_⟩),
      drained_of_rows (by decide +kernel), not_arrived hrow (by decide) hnode⟩
    · intro s hs hid
      obtain ⟨hr, hrid⟩ := ItemTable.getById_eq_some.mp hbefore
      obtain ⟨hr', hrid'⟩ := ItemTable.getById_eq_some.mp hrow
      obtain rfl := ItemTable.id_inj hs hr (hid.trans hrid.symm)
      refine ⟨_, hr', hrid', rfl, rfl, fun hbytes => ?_⟩
      rw [show renamedRow.relativePath = ["d", "a.txt"] from rfl, hold] at hbytes
      exact absurd hbytes (by decide)
    · intro o ho hfetch
      have hitem : o.syncItemId ∈ renameApplied.db.ops.table.rows.map PendingOperation.syncItemId :=
        List.mem_map_of_mem (Data.Serial.mem_def.mp ho)
      rw [hops, hfetch.1] at hitem
      exact absurd hitem (by decide)
    · intro g hg
      exact ⟨renamedFile, hfile', congrArg DriveFile.content (Option.some.inj (hfile.symm.trans hg))⟩

lemma num_renamed (f : DriveFile) : { f with name := "b.txt" }.num = f.num := rfl

/-- On Drive `a.txt` was renamed to `b.txt` and edited. -/
def sampleBoth : World :=
  { sampleSynced with remote := ⟨(sampleDrive [66]).change 3 (fun f => { f with name := "b.txt" })
      num_renamed, []⟩ }

/-- Its object. -/
def bothFile : DriveFile := ⟨3, "b.txt", "text/plain", some [66], [2], false, true, true⟩

/-- The change. -/
def bothChange : RemoteChange :=
  ⟨.id 3, false, some (Drive.resource Env.plain.md5 bothFile), some ["b.txt"]⟩

/-- The change is applied. -/
def bothApplied : World := (runTask .plain (applyRemote .plain bothChange) sampleBoth).2

/-- A file that was renamed and edited: the rename and the download are executed in turn. -/
theorem renamed_edit_arrives : Arrived 1 [66] (drained (drained bothApplied)) := by
  have hedited : Edited .plain sampleBoth bothChange busyRow bothFile [66] := by
    have hnode : sampleBoth.fs.node ["a.txt"] = some (.file [65]) := by decide +kernel
    exact ⟨⟨rfl, rfl, rfl⟩, ⟨rfl, by decide, by decide⟩, ⟨by decide +kernel, rfl⟩,
      ⟨by decide +kernel, rfl⟩, by decide, stale_of_node hnode (by decide)⟩
  have hnoticed : Noticed sampleBoth bothChange busyRow
      (Drive.resource Env.plain.md5 bothFile) :=
    ⟨by decide +kernel, fun rel _ _ _ hdir => hdir.2.1 rfl⟩
  have hok : (runTask .plain (applyRemote .plain bothChange) sampleBoth).1 = .ok () := by
    decide +kernel
  have hrename : OpTable.nextDue bothApplied.db.ops bothApplied.now =
      some ⟨2, 1, .renameLocal, some (.rename ⟨["b.txt"]⟩), 0, 0⟩ := by decide +kernel
  have hfetch : OpTable.nextDue (drained bothApplied).db.ops (drained bothApplied).now =
      some ⟨3, 1, .download, some (.download ⟨.id 3, 1, "B", ["b.txt"]⟩), 0, 0⟩ := by
    decide +kernel
  have hids : bothApplied.db.items.rows.map SyncItem.id = [1] := by decide +kernel
  have hrow : (drained bothApplied).db.items.getById 1 =
      some { busyRow with relativePath := ["b.txt"] } := by decide +kernel
  have hrun : Steps .plain 1 (.id 3) [66] (Timely .plain 1 (.id 3)) bothApplied
      (drained (drained bothApplied)) := by
    refine .tail (.single (.drain (.id 2) (fun o ho => ?_) fun o ho _ s hs hid => ?_))
      (.drain (.id 2) (fun o ho => ?_) fun o ho _ s hs hid => ?_)
    · obtain rfl := Option.some.inj (hrename.symm.trans ho)
      rfl
    · obtain rfl := Option.some.inj (hrename.symm.trans ho)
      rintro _ - s' hs' -
      have hmem : s'.id ∈ bothApplied.db.items.rows.map SyncItem.id := List.mem_map_of_mem hs'
      rwa [hids, List.mem_singleton] at hmem
    · obtain rfl := Option.some.inj (hfetch.symm.trans ho)
      rfl
    · obtain rfl := Option.some.inj (hfetch.symm.trans ho)
      obtain ⟨hr, hrid⟩ := ItemTable.getById_eq_some.mp hrow
      obtain rfl := ItemTable.id_inj hs hr (hid.trans hrid.symm)
      exact ⟨1, "B", rfl⟩
  exact edited_file_arrives hedited hnoticed (Prod.ext hok rfl) hrun
    (drained_of_rows (by decide +kernel))

end AirDrive.Fetch
