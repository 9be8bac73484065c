import AirDrive.Reconcile.Continuous

set_option relaxedAutoImplicit false
set_option autoImplicit false

/-!
# What applying a change does

The branches that a change takes through `applyRemote` and a watcher event through `applyLocal`,
as rules: to know how the whole ends, it is enough to know how the branch ends.

## Main results

* `AirDrive.Continuous.ends_enqueueOp` — an operation for a row that is there is queued.
* `AirDrive.Continuous.ends_applyRemote_inFlight`, `AirDrive.Continuous.ends_applyRemote_present`.
* `AirDrive.Continuous.ends_applyDeleted` — the deletion of a tracked file.
* `AirDrive.Continuous.ends_enqueueLocalFile_tracked`,
  `AirDrive.Continuous.ends_enqueueLocalFile_untracked` — a file, with and without a row.
-/

namespace AirDrive.Continuous

open Effect

variable {env : Env} {w : World} {c : RemoteChange} {f : FileResource}
  {Q : Except Error Unit → World → Prop}

/-- The operation that is queued next. -/
def nextOp (w : World) (item : ItemId) (op : Operation) (payload : Option Payload) :
    PendingOperation :=
  ⟨w.db.ops.next, item, op, payload, 0, w.now⟩

/-- The world after an operation was queued. -/
def queued (w : World) (item : ItemId) (op : Operation) (payload : Option Payload) : World :=
  { w with db := (w.db.enqueue item op payload w.now).2 }

section Queued

variable {item : ItemId} {op : Operation} {payload : Option Payload}

@[simp] lemma queued_fs : (queued w item op payload).fs = w.fs := rfl

@[simp] lemma queued_remote : (queued w item op payload).remote = w.remote := rfl

@[simp] lemma queued_inFlight : (queued w item op payload).inFlight = w.inFlight := rfl

@[simp] lemma queued_now : (queued w item op payload).now = w.now := rfl

@[simp] lemma queued_items : (queued w item op payload).db.items = w.db.items :=
  Db.items_enqueue _ _ _ _ _

lemma mem_queued (h : ∃ r ∈ w.db.items, r.id = item) {o : PendingOperation} :
    o ∈ (queued w item op payload).db.ops ↔ o ∈ w.db.ops ∨ o = nextOp w item op payload :=
  (Db.enqueue_of_row op payload w.now h).2 o

/-- The operation that is queued next is a new one. -/
lemma nextOp_not_mem : nextOp w item op payload ∉ w.db.ops := fun h =>
  absurd (w.db.ops.key_lt h) (lt_irrefl _)

/-- **Queueing an operation** for a row that is there. -/
lemma ends_enqueueOp (h : ∃ r ∈ w.db.items, r.id = item)
    (hQ : Q (.ok ()) (queued w item op payload)) : Ends env Q (enqueueOp item op payload) w := by
  obtain ⟨hok, -⟩ := Db.enqueue_of_row op payload w.now h
  simp only [Ends, enqueueOp, Prog.bind_eq, Prog.safe_bind, safe_unixNow, safe_sqlTry, DbCall.run,
    hok, true_and, forall_const]
  exact hQ

end Queued

/-- An object in flight is passed over. -/
lemma ends_applyRemote_inFlight (h : w.inFlight.contains c.fileId = true) (hQ : Q (.ok ()) w) :
    Ends env Q (applyRemote env c) w := by
  simp only [Ends, applyRemote, Prog.lift, Prog.bind_eq, Prog.call_bind, Prog.pure_bind,
    Prog.safe_call_solo, handle_inFlight, h, if_true, true_and, forall_const]
  exact hQ

/-- A change of an object that is there and not in flight. -/
lemma ends_applyRemote_present (hflight : w.inFlight.contains c.fileId = false)
    (hremoved : c.removed = false) (hfile : c.file = some f)
    (hQ : Ends env Q (applyPresent env c f) w) : Ends env Q (applyRemote env c) w := by
  simp only [Ends, applyRemote, Prog.lift, Prog.bind_eq, Prog.call_bind, Prog.pure_bind,
    Prog.safe_call_solo, handle_inFlight, hflight, hremoved, hfile, Bool.false_eq_true, if_false,
    true_and, forall_const]
  exact hQ

/-- A trash of an object. -/
lemma ends_applyPresent_trashed (htrashed : f.trashed = true)
    (hQ : Ends env Q (applyTrashed c.fileId) w) : Ends env Q (applyPresent env c f) w := by
  simp only [applyPresent, htrashed, if_true]
  exact hQ

/-- A live regular file. -/
lemma ends_applyPresent_file {md5 : String} (htrashed : f.trashed = false)
    (hfolder : f.isFolder = false) (hnative : Shortcut.isNative f.mimeType = false)
    (hmd5 : f.md5 = some md5) (hQ : Ends env Q (applyFile env c f md5) w) :
    Ends env Q (applyPresent env c f) w := by
  simp only [applyPresent, htrashed, hfolder, hnative, hmd5, Bool.false_eq_true, if_false]
  exact hQ

/-- A live regular file whose row is a tombstone. -/
lemma ends_applyFile_restored {md5 : String} {r : SyncItem}
    (hrow : w.db.items.getByRemoteId c.fileId = some r) (htomb : r.trashedAt ≠ none)
    (hQ : Ends env Q (applyRestored r f md5) w) : Ends env Q (applyFile env c f md5) w := by
  simp only [Ends, applyFile, Prog.bind_eq]
  rw [Prog.safe_bind, safe_sql]
  refine fun _ => ⟨trivial, ?_⟩
  simp only [DbCall.run, hrow, htomb, ne_eq, not_false_eq_true, if_true]
  exact hQ

/-- A live regular file at its path, whose content the row knows. -/
lemma ends_applyFile_echo {md5 : String} {r : SyncItem}
    (hrow : w.db.items.getByRemoteId c.fileId = some r) (hlive : r.trashedAt = none)
    (hpath : c.relativePath = some r.relativePath) (hprint : sameFingerprint r f md5 = true)
    (hQ : Q (.ok ()) w) : Ends env Q (applyFile env c f md5) w := by
  simp only [Ends, applyFile, Prog.bind_eq]
  rw [Prog.safe_bind, safe_sql]
  refine fun _ => ⟨trivial, ?_⟩
  simp only [DbCall.run, hrow, hlive, hpath, applyEdited, hprint, ne_eq, not_true_eq_false,
    if_false, if_true]
  exact hQ

/-- A live regular file whose path changed, in a folder whose row is bound to its parent: the folder
is taken to have moved. -/
lemma ends_applyFile_folderMoved {md5 : String} {r dir : SyncItem} {rel : RelPath} {pid : FileId}
    (hrow : w.db.items.getByRemoteId c.fileId = some r) (hlive : r.trashedAt = none)
    (hpath : c.relativePath = some rel) (hne : rel ≠ r.relativePath)
    (hparent : f.parents.head? = some pid) (hmoved : r.relativePath.parentDir ≠ rel.parentDir)
    (hbelow : r.relativePath.parentDir ≠ [])
    (hdir : w.db.items.getByRelativePath r.relativePath.parentDir = some dir)
    (hbound : dir.remoteId = some pid)
    (hQ : Q (.ok ()) (queued w dir.id .renameLocal (some (.rename ⟨rel.parentDir⟩)))) :
    Ends env Q (applyFile env c f md5) w := by
  have hthere : ∃ s ∈ w.db.items, s.id = dir.id :=
    ⟨dir, (ItemTable.getByRelativePath_eq_some.mp hdir).1, rfl⟩
  simp only [Ends, applyFile, Prog.bind_eq]
  rw [Prog.safe_bind, safe_sql]
  refine fun _ => ⟨trivial, ?_⟩
  simp only [DbCall.run, hrow, hlive, hpath, ne_eq, not_true_eq_false, if_false, hne,
    not_false_eq_true, if_true, applyMoved, renamedDir, hparent, hmoved, hbelow, and_self,
    Prog.bind_eq, Prog.safe_bind, safe_sql, hdir, hbound, Prog.pure_eq, Prog.safe_pure, true_and,
    forall_const]
  exact ends_enqueueOp hthere hQ

/-! ## Watcher events -/

/-- What an event can leave behind when it does not concern the rows: only the queue and the
conflict records differ. -/
structure Noted (w w' : World) : Prop where
  items : w'.db.items = w.db.items
  fs : w'.fs = w.fs
  remote : w'.remote = w.remote
  inFlight : w'.inFlight = w.inFlight
  now : w'.now = w.now
  jitters : w'.jitters = w.jitters

lemma Noted.refl (w : World) : Noted w w := ⟨rfl, rfl, rfl, rfl, rfl, rfl⟩

lemma Noted.trans {w' w'' : World} (h : Noted w w') (h' : Noted w' w'') : Noted w w'' :=
  ⟨h'.items.trans h.items, h'.fs.trans h.fs, h'.remote.trans h.remote,
    h'.inFlight.trans h.inFlight, h'.now.trans h.now, h'.jitters.trans h.jitters⟩

lemma noted_queued (w : World) (item : ItemId) (op : Operation) (payload : Option Payload) :
    Noted w (queued w item op payload) := ⟨queued_items, rfl, rfl, rfl, rfl, rfl⟩

/-- Dropping the conflict records of a path changes nothing else. -/
lemma ends_cleanupOnLocalDelete {p : RelPath} :
    Ends env (fun x w' => x = .ok () ∧ Noted w w' ∧ w'.db.ops = w.db.ops)
      (Conflict.cleanupOnLocalDelete p) w := by
  simp only [Ends, Conflict.cleanupOnLocalDelete, Prog.bind_eq, Prog.safe_bind, safe_sql,
    DbCall.run, true_and, forall_const]
  refine Prog.Safe.forEach (fun s => Noted w s ∧ s.db.ops = w.db.ops) ⟨.refl w, rfl⟩
    (fun row _ s hs => ?_) fun s hs => ⟨rfl, hs⟩
  split_ifs
  · rw [safe_sql]
    exact fun _ => ⟨trivial, hs.1.trans ⟨rfl, rfl, rfl, rfl, rfl, rfl⟩, hs.2⟩
  · exact hs

/-- **Deleting a tracked file** queues its deletion on Drive. -/
lemma ends_applyDeleted {p : RelPath} {r : SyncItem}
    (hrow : w.db.items.getByRelativePath p = some r) (hlive : r.trashedAt = none)
    (hremote : r.remoteId ≠ none) :
    Ends env (fun x w' => x = .ok () ∧ Noted w w' ∧ ∀ o, o ∈ w'.db.ops ↔
      o ∈ w.db.ops ∨ o = nextOp w r.id .deleteRemote none) (applyDeleted p) w := by
  unfold applyDeleted
  refine Prog.Safe.bind ends_cleanupOnLocalDelete (fun _ w₁ ⟨_, hnoted, hops⟩ => ?_)
    fun e w₁ ⟨he, _⟩ => by cases he
  have hr₁ : ∃ s ∈ w₁.db.items, s.id = r.id :=
    ⟨r, hnoted.items ▸ (ItemTable.getByRelativePath_eq_some.mp hrow).1, rfl⟩
  rw [Prog.bind_eq, Prog.safe_bind, safe_sql]
  refine fun _ => ⟨trivial, ?_⟩
  simp only [DbCall.run, hnoted.items, hrow, hlive, ne_eq, not_true_eq_false, if_false, hremote,
    not_false_eq_true, if_true]
  refine ends_enqueueOp hr₁ ⟨rfl, hnoted.trans (noted_queued _ _ _ _), fun o => ?_⟩
  rw [mem_queued hr₁, nextOp, nextOp, hops, hnoted.now]

/-- A path with a regular file. -/
lemma ends_applyCreated_file {p : RelPath} {b : Bytes} (hbytes : w.fs.node p = some (.file b))
    (hQ : Ends env Q (enqueueLocalFile p) w) : Ends env Q (applyCreated p) w := by
  have hdir : w.fs.isDir p = false := by simp [Fs.isDir, hbytes]
  have hfile : w.fs.isFile p = true := Fs.isFile_iff.mpr ⟨b, hbytes⟩
  simp only [Ends, applyCreated, Prog.bind_eq, Prog.safe_bind, safe_io, FsCall.run, hdir, hfile,
    Bool.false_eq_true, if_false, if_true, true_and, forall_const]
  exact hQ

/-- **A file that is tracked** is uploaded again. -/
lemma ends_enqueueLocalFile_tracked {p : RelPath} {r : SyncItem}
    (hrow : w.db.items.getByRelativePath p = some r) (hskip : r.state ≠ .skipped)
    (hQ : Q (.ok ()) (queued w r.id .upload none)) : Ends env Q (enqueueLocalFile p) w := by
  simp only [Ends, enqueueLocalFile, Prog.bind_eq]
  rw [Prog.safe_bind, safe_sql]
  refine fun _ => ⟨trivial, ?_⟩
  simp only [DbCall.run, hrow, hskip, if_false]
  exact ends_enqueueOp ⟨r, (ItemTable.getByRelativePath_eq_some.mp hrow).1, rfl⟩ hQ

/-- **A file at a path that no row has** gets a row of its own, and its upload is queued. -/
lemma ends_enqueueLocalFile_untracked {p : RelPath}
    (hnone : w.db.items.getByRelativePath p = none)
    (hQ : Q (.ok ()) (queued { w with db := (w.db.insertItem (localCreate p .file)).2 }
      w.db.items.nextId .upload none)) : Ends env Q (enqueueLocalFile p) w := by
  obtain ⟨hok, hmem⟩ := @Db.insertItem_of_free w.db (localCreate p .file) hnone
  simp only [Ends, enqueueLocalFile, Prog.bind_eq, Prog.safe_bind, safe_sql, DbCall.run, hnone,
    safe_sqlTry, hok, true_and, forall_const]
  exact ends_enqueueOp ⟨_, (hmem _).mpr (.inr rfl), rfl⟩ hQ

end AirDrive.Continuous
