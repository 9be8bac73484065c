import AirDrive.Effect.Program
import AirDrive.State.Ops

set_option relaxedAutoImplicit false
set_option autoImplicit false

/-!
# The state database

The tables of one mapping, with the foreign keys of the schema as part of the value: every
queued operation and every conflict record belongs to a row of `sync_item`, and deleting that
row deletes them (`ON DELETE CASCADE`). A call of the database is one statement or one
transaction of the source, so it is atomic.

## Main definitions

* `AirDrive.Db` — the tables.
* `AirDrive.Db.withItems` — write `sync_item` and cascade.
* `AirDrive.DbCall`, `AirDrive.DbCall.run` — the calls and their meaning.

## Main results

* `AirDrive.Db.mem_ops_withItems` — which operations survive a write of `sync_item`.
* `AirDrive.Db.ops_withItems_of_ids` — a write that drops no row drops no operation.
* `AirDrive.DbCall.mem_items_run`, `AirDrive.DbCall.mem_ops_run` — the rows and the operations
  after a call, in terms of those before it.
* `AirDrive.DbCall.ops_run_cases` — the same with the retry data.
* `AirDrive.DbCall.rows_persist`, `AirDrive.DbCall.ops_persist` — what a call keeps.
-/

namespace AirDrive

open Data

/-- A page token of Drive's change feed: a position in the feed. -/
abbrev PageToken := ℕ

/-- The `<remote-folder>` argument of `map`, as `resolve_path` reads it: a Drive URL, or a path
below My Drive given by its non-empty segments. -/
inductive RemoteSpec
  | url (id : FileId)
  | path (segments : List String)
deriving DecidableEq, Repr

/-- The `folder_mapping` row. -/
structure FolderMapping where
  /-- Canonical path of the watched local folder. -/
  localPath : String
  /-- Drive id of the watched remote folder. -/
  remoteFolderId : FileId
  /-- The argument `map` was called with. -/
  remoteFolderSpec : Option RemoteSpec
deriving DecidableEq, Repr

/-- A `conflict_record` row. -/
structure ConflictRecord where
  /-- Primary key. -/
  id : ℕ
  /-- Item that kept the canonical name. -/
  syncItemId : ItemId
  /-- Canonical path. -/
  originalRelativePath : RelPath
  /-- Path of the local version. -/
  conflictRelativePath : RelPath
  /-- When the conflict was detected. -/
  detectedAt : ℕ
deriving DecidableEq, Repr

/-- `BlockedKind`. -/
inductive BlockedKind
  | auth
  | remote
  | mapping
  | transient
deriving DecidableEq, Repr

/-- The `state_meta` row: why the daemon is blocked, and the counters of `status`. -/
structure Meta where
  /-- Why the daemon is blocked. -/
  blocked : Option BlockedKind := none
  /-- Time of the last completed transfer. -/
  lastSyncAt : Option ℕ := none
  /-- Completed uploads and remote renames. -/
  itemsUploaded : ℕ := 0
  /-- Completed downloads. -/
  itemsDownloaded : ℕ := 0
deriving DecidableEq, Repr

/-- The state database of one mapping. -/
structure Db where
  /-- `sync_item`. -/
  items : ItemTable
  /-- `pending_operation`. -/
  ops : OpTable
  /-- `conflict_record`. -/
  conflicts : Serial ConflictRecord.id
  /-- Every operation belongs to a row. -/
  ops_owned : ∀ o ∈ ops, ∃ r ∈ items, r.id = o.syncItemId
  /-- Every conflict record belongs to a row. -/
  conflicts_owned : ∀ c ∈ conflicts, ∃ r ∈ items, r.id = c.syncItemId
  /-- `drive_change_cursor`. -/
  cursor : Option PageToken
  /-- `folder_mapping`. -/
  mapping : Option FolderMapping
  /-- `state_meta`. -/
  info : Meta

namespace Db

/-- The database right after its creation. -/
def empty : Db where
  items := ItemTable.empty
  ops := Serial.empty
  conflicts := Serial.empty
  ops_owned := by simp
  conflicts_owned := by simp
  cursor := none
  mapping := none
  info := {}

instance : Inhabited Db := ⟨empty⟩

/-- Some row has the given id. -/
def hasItem (t : ItemTable) (id : ItemId) : Bool := decide (∃ r ∈ t.rows, r.id = id)

@[simp] lemma hasItem_iff {t : ItemTable} {id : ItemId} :
    hasItem t id = true ↔ ∃ r ∈ t, r.id = id := by
  simp [hasItem]

/-- Write the `sync_item` table: what belonged to a row that is gone goes with it. -/
def withItems (db : Db) (t : ItemTable) : Db :=
  { db with
    items := t
    ops := db.ops.keep fun o => hasItem t o.syncItemId
    conflicts := db.conflicts.keep fun c => hasItem t c.syncItemId
    ops_owned := fun _ ho => hasItem_iff.mp (Serial.mem_keep.mp ho).2
    conflicts_owned := fun _ hc => hasItem_iff.mp (Serial.mem_keep.mp hc).2 }

@[simp] lemma items_withItems (db : Db) (t : ItemTable) : (db.withItems t).items = t := rfl

@[simp] lemma cursor_withItems (db : Db) (t : ItemTable) : (db.withItems t).cursor = db.cursor :=
  rfl

@[simp] lemma mapping_withItems (db : Db) (t : ItemTable) :
    (db.withItems t).mapping = db.mapping := rfl

@[simp] lemma mem_ops_withItems {db : Db} {t : ItemTable} {o : PendingOperation} :
    o ∈ (db.withItems t).ops ↔ o ∈ db.ops ∧ ∃ r ∈ t, r.id = o.syncItemId := by
  simp [withItems]

@[simp] lemma next_ops_withItems (db : Db) (t : ItemTable) :
    (db.withItems t).ops.next = db.ops.next := rfl

/-- A write that keeps every row id keeps every operation. -/
lemma ops_withItems_of_ids {db : Db} {t : ItemTable}
    (h : ∀ r ∈ db.items, ∃ s ∈ t, s.id = r.id) : (db.withItems t).ops = db.ops := by
  refine Serial.keep_eq_self fun o ho => hasItem_iff.mpr ?_
  obtain ⟨r, hr, hid⟩ := db.ops_owned o ho
  obtain ⟨s, hs, hsid⟩ := h r hr
  exact ⟨s, hs, hsid.trans hid⟩

/-- `items::insert`: fails when the path is taken. -/
def insertItem (db : Db) (new : NewSyncItem) : Except Error ItemId × Db :=
  if h : db.items.getByRelativePath new.relativePath = none then
    (.ok db.items.nextId, db.withItems (db.items.insert new h))
  else (.error (.sqlite .unique), db)

/-- The row under the id that an insertion answers is the inserted one. -/
lemma row_of_insertItem {db : Db} {new : NewSyncItem} {id : ItemId}
    (h : (db.insertItem new).1 = .ok id) {r : SyncItem} (hr : r ∈ (db.insertItem new).2.items)
    (hid : r.id = id) : r = new.withId id := by
  unfold insertItem at h hr
  split_ifs at h hr with hp
  obtain rfl : db.items.nextId = id := Except.ok.inj h
  rw [items_withItems, ItemTable.mem_insert] at hr
  rcases hr with hr | rfl
  · exact absurd hid (ItemTable.id_lt hr).ne
  · rfl

/-- Inserting at a free path adds the row. -/
lemma insertItem_of_free {db : Db} {new : NewSyncItem}
    (h : db.items.getByRelativePath new.relativePath = none) :
    (db.insertItem new).1 = .ok db.items.nextId ∧
      ∀ s, s ∈ (db.insertItem new).2.items ↔ s ∈ db.items ∨ s = new.withId db.items.nextId := by
  rw [insertItem, dif_pos h]
  exact ⟨rfl, fun s => @ItemTable.mem_insert _ _ h s⟩

/-- `ops::enqueue`: fails when the item does not exist. -/
def enqueue (db : Db) (item : ItemId) (op : Operation) (payload : Option Payload) (now : ℕ) :
    Except Error OpId × Db :=
  if h : ∃ r ∈ db.items, r.id = item then
    (.ok db.ops.next,
      { db with
        ops := db.ops.push (fun id => ⟨id, item, op, payload, 0, now⟩) fun _ => rfl
        ops_owned := by
          intro o ho
          rcases Serial.mem_push.mp ho with ho | rfl
          · exact db.ops_owned o ho
          · exact h })
  else (.error (.sqlite .foreignKey), db)

@[simp] lemma items_enqueue (db : Db) (item : ItemId) (op : Operation) (payload : Option Payload)
    (now : ℕ) : (db.enqueue item op payload now).2.items = db.items := by
  unfold enqueue
  split_ifs <;> rfl

/-- Enqueueing for a row that is there adds the operation. -/
lemma enqueue_of_row {db : Db} {item : ItemId} (op : Operation) (payload : Option Payload)
    (now : ℕ) (h : ∃ r ∈ db.items, r.id = item) :
    (db.enqueue item op payload now).1 = .ok db.ops.next ∧
      ∀ o, o ∈ (db.enqueue item op payload now).2.ops ↔
        o ∈ db.ops ∨ o = ⟨db.ops.next, item, op, payload, 0, now⟩ := by
  rw [enqueue, dif_pos h]
  exact ⟨rfl, fun o => Serial.mem_push⟩

/-- `conflicts::insert`: fails when the item does not exist. -/
def insertConflict (db : Db) (item : ItemId) (original conflict : RelPath) (now : ℕ) :
    Except Error ℕ × Db :=
  if h : ∃ r ∈ db.items, r.id = item then
    (.ok db.conflicts.next,
      { db with
        conflicts := db.conflicts.push (fun id => ⟨id, item, original, conflict, now⟩) fun _ => rfl
        conflicts_owned := by
          intro c hc
          rcases Serial.mem_push.mp hc with hc | rfl
          · exact db.conflicts_owned c hc
          · exact h })
  else (.error (.sqlite .foreignKey), db)

/-- Recording a conflict of a row that is there changes neither the rows nor the queue. -/
lemma insertConflict_of_row {db : Db} {item : ItemId} (original conflict : RelPath) (now : ℕ)
    (h : ∃ r ∈ db.items, r.id = item) :
    (db.insertConflict item original conflict now).1 = .ok db.conflicts.next ∧
      (db.insertConflict item original conflict now).2.items = db.items ∧
        (db.insertConflict item original conflict now).2.ops = db.ops := by
  rw [insertConflict, dif_pos h]
  exact ⟨rfl, rfl, rfl⟩

/-- Change operations in place without giving them to another item. -/
def modifyOp (db : Db) (id : OpId) (f : PendingOperation → PendingOperation)
    (hid : ∀ o, (f o).id = o.id) (hitem : ∀ o, (f o).syncItemId = o.syncItemId) : Db :=
  { db with
    ops := db.ops.modify id f hid
    ops_owned := by
      intro o ho
      rcases Serial.mem_modify.mp ho with ⟨ho, -⟩ | ⟨s, hs, -, rfl⟩
      · exact db.ops_owned o ho
      · rw [hitem]; exact db.ops_owned s hs }

/-- `ops::delete`. -/
def deleteOp (db : Db) (id : OpId) : Db :=
  { db with
    ops := db.ops.keep fun o => o.id ≠ id
    ops_owned := fun o ho => db.ops_owned o (Serial.mem_keep.mp ho).1 }

/-- `conflicts::delete`. -/
def deleteConflict (db : Db) (id : ℕ) : Db :=
  { db with
    conflicts := db.conflicts.keep fun c => c.id ≠ id
    conflicts_owned := fun c hc => db.conflicts_owned c (Serial.mem_keep.mp hc).1 }

end Db

/-! ## The calls -/

/-- The calls of the database. -/
inductive DbCall : Type → Type
  /-- `items::insert`. -/
  | insertItem (new : NewSyncItem) : DbCall (Except Error ItemId)
  /-- `items::get_by_relative_path`. -/
  | getByRelativePath (rel : RelPath) : DbCall (Option SyncItem)
  /-- `items::get_by_id`. -/
  | getById (id : ItemId) : DbCall (Option SyncItem)
  /-- `items::get_by_remote_id`. -/
  | getByRemoteId (rid : FileId) : DbCall (Option SyncItem)
  /-- `items::list_for_mapping`. -/
  | listForMapping : DbCall (List SyncItem)
  /-- `items::set_remote_id`. -/
  | setRemoteId (id : ItemId) (rid : FileId) : DbCall Unit
  /-- `items::set_relative_path`. -/
  | setRelativePath (id : ItemId) (rel : RelPath) : DbCall Unit
  /-- `items::rename_subtree`. -/
  | renameSubtree (old new : RelPath) : DbCall Unit
  /-- `items::update_fingerprint`. -/
  | updateFingerprint (id : ItemId) (size : Option ℕ) (md5 : Option String) : DbCall Unit
  /-- `items::set_state`. -/
  | setState (id : ItemId) (state : ItemState) : DbCall Unit
  /-- `items::delete`. -/
  | deleteItem (id : ItemId) : DbCall Unit
  /-- `items::mark_trashed`. -/
  | markTrashed (id : ItemId) (at' : ℕ) : DbCall Unit
  /-- `items::clear_trashed`. -/
  | clearTrashed (id : ItemId) : DbCall Unit
  /-- `items::gc_tombstones`. -/
  | gcTombstones (cutoff : ℕ) : DbCall Unit
  /-- `ops::enqueue`. -/
  | enqueue (item : ItemId) (op : Operation) (payload : Option Payload) (now : ℕ) :
      DbCall (Except Error OpId)
  /-- `ops::next_due`. -/
  | nextDue (now : ℕ) : DbCall (Option PendingOperation)
  /-- `ops::mark_attempt`. -/
  | markAttempt (id : OpId) (nextAttemptAt : ℕ) : DbCall Unit
  /-- `ops::delete`. -/
  | deleteOp (id : OpId) : DbCall Unit
  /-- `conflicts::insert`. -/
  | insertConflict (item : ItemId) (original conflict : RelPath) (now : ℕ) :
      DbCall (Except Error ℕ)
  /-- `conflicts::list_unresolved`. -/
  | listUnresolved : DbCall (List ConflictRecord)
  /-- `conflicts::delete`. -/
  | deleteConflict (id : ℕ) : DbCall Unit
  /-- `cursor::get`. -/
  | getCursor : DbCall (Option PageToken)
  /-- `cursor::set`. -/
  | setCursor (token : PageToken) : DbCall Unit
  /-- `mapping::get_single`. -/
  | getMapping : DbCall (Option FolderMapping)
  /-- `mapping::upsert`. -/
  | upsertMapping (m : FolderMapping) : DbCall Unit
  /-- `mapping::update_remote_folder_id`. -/
  | updateRemoteFolderId (id : FileId) : DbCall Unit
  /-- `meta::get_blocked`. -/
  | getBlocked : DbCall (Option BlockedKind)
  /-- `meta::set_blocked`. -/
  | setBlocked (kind : BlockedKind) : DbCall Unit
  /-- `meta::clear_if_transient`. -/
  | clearIfTransient : DbCall Bool
  /-- `meta::record_sync_cycle`. -/
  | recordSyncCycle (at' uploaded downloaded : ℕ) : DbCall Unit

namespace DbCall

/-- A tombstone that was trashed before `cutoff`. -/
def expired (cutoff : ℕ) (r : SyncItem) : Bool :=
  match r.trashedAt with
  | some t => t < cutoff
  | none => false

/-- The answer of a call and the database after it. -/
def run : {β : Type} → DbCall β → Db → β × Db
  | _, insertItem new, db => db.insertItem new
  | _, getByRelativePath rel, db => (db.items.getByRelativePath rel, db)
  | _, getById id, db => (db.items.getById id, db)
  | _, getByRemoteId rid, db => (db.items.getByRemoteId rid, db)
  | _, listForMapping, db => (db.items.listForMapping, db)
  | _, setRemoteId id rid, db =>
    ((), db.withItems (db.items.modify id (fun r => { r with remoteId := some rid })
      (fun _ => rfl) fun _ => rfl))
  | _, setRelativePath id rel, db => ((), db.withItems (db.items.setRelativePath id rel))
  | _, renameSubtree old new, db => ((), db.withItems (db.items.renameSubtree old new))
  | _, updateFingerprint id size md5, db =>
    ((), db.withItems (db.items.modify id (fun r => { r with size := size, md5 := md5 })
      (fun _ => rfl) fun _ => rfl))
  | _, setState id state, db =>
    ((), db.withItems (db.items.modify id (fun r => { r with state := state })
      (fun _ => rfl) fun _ => rfl))
  | _, deleteItem id, db => ((), db.withItems (db.items.delete id))
  | _, markTrashed id at', db =>
    ((), db.withItems (db.items.modify id (fun r => { r with trashedAt := some at' })
      (fun _ => rfl) fun _ => rfl))
  | _, clearTrashed id, db =>
    ((), db.withItems (db.items.modify id (fun r => { r with trashedAt := none })
      (fun _ => rfl) fun _ => rfl))
  | _, gcTombstones cutoff, db => ((), db.withItems (db.items.keep fun r => !expired cutoff r))
  | _, enqueue item op payload now, db => db.enqueue item op payload now
  | _, nextDue now, db => (OpTable.nextDue db.ops now, db)
  | _, markAttempt id nextAttemptAt, db =>
    ((), db.modifyOp id
      (fun o => { o with attempts := o.attempts + 1, nextAttemptAt := nextAttemptAt })
      (fun _ => rfl) fun _ => rfl)
  | _, deleteOp id, db => ((), db.deleteOp id)
  | _, insertConflict item original conflict now, db =>
    db.insertConflict item original conflict now
  | _, listUnresolved, db => (db.conflicts.table.rows, db)
  | _, deleteConflict id, db => ((), db.deleteConflict id)
  | _, getCursor, db => (db.cursor, db)
  | _, setCursor token, db => ((), { db with cursor := some token })
  | _, getMapping, db => (db.mapping, db)
  | _, upsertMapping m, db => ((), { db with mapping := some m })
  | _, updateRemoteFolderId id, db =>
    ((), { db with mapping := db.mapping.map fun m => { m with remoteFolderId := id } })
  | _, getBlocked, db => (db.info.blocked, db)
  | _, setBlocked kind, db => ((), { db with info := { db.info with blocked := some kind } })
  | _, clearIfTransient, db =>
    if db.info.blocked = some .transient then
      (true, { db with info := { db.info with blocked := none } })
    else (false, db)
  | _, recordSyncCycle at' uploaded downloaded, db =>
    ((), { db with info := { db.info with
      lastSyncAt := some at'
      itemsUploaded := db.info.itemsUploaded + uploaded
      itemsDownloaded := db.info.itemsDownloaded + downloaded } })

/-! ## What a call can change -/

/-- The row a call inserts. -/
def inserts {β : Type} : DbCall β → Option NewSyncItem
  | insertItem new => some new
  | _ => none

/-- The operation a call enqueues. -/
def enqueues {β : Type} : DbCall β → Option (ItemId × Operation × Option Payload)
  | enqueue item op payload _ => some (item, op, payload)
  | _ => none

/-- The ways a call changes a row it keeps. -/
def Changes {β : Type} (s r : SyncItem) : DbCall β → Prop
  | setRemoteId id rid => r = s ∨ s.id = id ∧ r = { s with remoteId := some rid }
  | setRelativePath _ _ => ∃ p, r = { s with relativePath := p }
  | renameSubtree _ _ => ∃ p, r = { s with relativePath := p }
  | updateFingerprint id size md5 => r = s ∨ s.id = id ∧ r = { s with size := size, md5 := md5 }
  | setState id state => r = s ∨ s.id = id ∧ r = { s with state := state }
  | markTrashed id at' => r = s ∨ s.id = id ∧ r = { s with trashedAt := some at' }
  | clearTrashed id => r = s ∨ s.id = id ∧ r = { s with trashedAt := none }
  | _ => r = s

/-- A row in the image of a change in place. -/
private lemma of_mem_modify {t : ItemTable} {id : ItemId} {f : SyncItem → SyncItem}
    {hid : ∀ r, (f r).id = r.id} {hpath : ∀ r, (f r).relativePath = r.relativePath}
    {r : SyncItem} (h : r ∈ t.modify id f hid hpath) :
    ∃ s ∈ t, s.id = r.id ∧ (r = s ∨ s.id = id ∧ r = f s) := by
  rcases ItemTable.mem_modify.mp h with ⟨hr, -⟩ | ⟨s, hs, hsid, rfl⟩
  · exact ⟨r, hr, rfl, .inl rfl⟩
  · exact ⟨s, hs, (hid s).symm, .inr ⟨hsid, rfl⟩⟩

/-- **The rows after a call** are rows from before it, changed as the call says, and the row it
inserts.

**Proof sketch.** One case per call: the membership lemma of the table operation it performs. -/
theorem mem_items_run {β : Type} {c : DbCall β} {db : Db} {r : SyncItem}
    (h : r ∈ (c.run db).2.items) :
    (∃ s ∈ db.items, s.id = r.id ∧ c.Changes s r) ∨
      ∃ new, c.inserts = some new ∧ r = new.withId db.items.nextId := by
  cases c with
  | insertItem new =>
    simp only [run, Db.insertItem] at h
    split_ifs at h with hp
    · rw [Db.items_withItems, ItemTable.mem_insert] at h
      rcases h with h | rfl
      · exact .inl ⟨r, h, rfl, rfl⟩
      · exact .inr ⟨new, rfl, rfl⟩
    · exact .inl ⟨r, h, rfl, rfl⟩
  | enqueue item op payload now =>
    simp only [run, Db.enqueue] at h
    split_ifs at h <;> exact .inl ⟨r, h, rfl, rfl⟩
  | insertConflict item original conflict now =>
    simp only [run, Db.insertConflict] at h
    split_ifs at h <;> exact .inl ⟨r, h, rfl, rfl⟩
  | clearIfTransient =>
    simp only [run] at h
    split_ifs at h <;> exact .inl ⟨r, h, rfl, rfl⟩
  | setRemoteId id rid =>
    simp only [run, Db.items_withItems] at h
    exact .inl (of_mem_modify h)
  | updateFingerprint id size md5 =>
    simp only [run, Db.items_withItems] at h
    exact .inl (of_mem_modify h)
  | setState id state =>
    simp only [run, Db.items_withItems] at h
    exact .inl (of_mem_modify h)
  | markTrashed id at' =>
    simp only [run, Db.items_withItems] at h
    exact .inl (of_mem_modify h)
  | clearTrashed id =>
    simp only [run, Db.items_withItems] at h
    exact .inl (of_mem_modify h)
  | setRelativePath id rel =>
    rcases ItemTable.mem_setRelativePath.mp h with ⟨s, hs, -, rfl⟩ | ⟨hr, -⟩
    · exact .inl ⟨s, hs, rfl, _, rfl⟩
    · exact .inl ⟨r, hr, rfl, _, rfl⟩
  | renameSubtree old new =>
    obtain ⟨s, hs, p, rfl⟩ := ItemTable.mem_renameSubtree h
    exact .inl ⟨s, hs, rfl, p, rfl⟩
  | deleteItem id => exact .inl ⟨r, (ItemTable.mem_delete.mp h).1, rfl, rfl⟩
  | gcTombstones cutoff => exact .inl ⟨r, (ItemTable.mem_keep.mp h).1, rfl, rfl⟩
  | _ => exact .inl ⟨r, h, rfl, rfl⟩

/-- Two operations that ask for the same work: they differ in their retry data only. -/
def SameWork (a b : PendingOperation) : Prop :=
  a.id = b.id ∧ a.syncItemId = b.syncItemId ∧ a.op = b.op ∧ a.payload = b.payload

lemma SameWork.refl (a : PendingOperation) : SameWork a a := ⟨rfl, rfl, rfl, rfl⟩

lemma SameWork.trans {a b c : PendingOperation} (h : SameWork a b) (h' : SameWork b c) :
    SameWork a c :=
  ⟨h.1.trans h'.1, h.2.1.trans h'.2.1, h.2.2.1.trans h'.2.2.1, h.2.2.2.trans h'.2.2.2⟩

/-- **The operations after a call** are operations from before it and the one it enqueues. -/
theorem mem_ops_run {β : Type} {c : DbCall β} {db : Db} {o : PendingOperation}
    (h : o ∈ (c.run db).2.ops) :
    (∃ o' ∈ db.ops, SameWork o' o) ∨
      (c.enqueues = some (o.syncItemId, o.op, o.payload) ∧ o.id = db.ops.next) := by
  have hcascade : ∀ t, o ∈ (db.withItems t).ops → ∃ o' ∈ db.ops, SameWork o' o := fun t ht =>
    ⟨o, (Db.mem_ops_withItems.mp ht).1, .refl o⟩
  cases c with
  | insertItem new =>
    simp only [run, Db.insertItem] at h
    split_ifs at h with hp
    · exact .inl (hcascade _ h)
    · exact .inl ⟨o, h, .refl o⟩
  | enqueue item op payload now =>
    simp only [run, Db.enqueue] at h
    split_ifs at h with hi
    · rw [Serial.mem_push] at h
      rcases h with h | rfl
      · exact .inl ⟨o, h, .refl o⟩
      · exact .inr ⟨rfl, rfl⟩
    · exact .inl ⟨o, h, .refl o⟩
  | insertConflict item original conflict now =>
    simp only [run, Db.insertConflict] at h
    split_ifs at h <;> exact .inl ⟨o, h, .refl o⟩
  | clearIfTransient =>
    simp only [run] at h
    split_ifs at h <;> exact .inl ⟨o, h, .refl o⟩
  | markAttempt id next =>
    simp only [run, Db.modifyOp] at h
    rcases Serial.mem_modify.mp h with ⟨ho, -⟩ | ⟨s, hs, -, rfl⟩
    · exact .inl ⟨o, ho, .refl o⟩
    · exact .inl ⟨s, hs, rfl, rfl, rfl, rfl⟩
  | deleteOp id => exact .inl ⟨o, (Serial.mem_keep.mp h).1, .refl o⟩
  | setRemoteId id rid => exact .inl (hcascade _ h)
  | updateFingerprint id size md5 => exact .inl (hcascade _ h)
  | setState id state => exact .inl (hcascade _ h)
  | markTrashed id at' => exact .inl (hcascade _ h)
  | clearTrashed id => exact .inl (hcascade _ h)
  | setRelativePath id rel => exact .inl (hcascade _ h)
  | renameSubtree old new => exact .inl (hcascade _ h)
  | deleteItem id => exact .inl (hcascade _ h)
  | gcTombstones cutoff => exact .inl (hcascade _ h)
  | _ => exact .inl ⟨o, h, .refl o⟩

/-- The operation that a call puts into the queue, with its due time. -/
def adds {β : Type} : DbCall β → Option (ItemId × Operation × Option Payload × ℕ)
  | enqueue item op payload now => some (item, op, payload, now)
  | _ => none

/-- The operation that a call postpones, with its new due time. -/
def postpones {β : Type} : DbCall β → Option (OpId × ℕ)
  | markAttempt id next => some (id, next)
  | _ => none

/-- No call both adds and postpones an operation. -/
lemma adds_of_postpones {β : Type} {c : DbCall β} {x : OpId × ℕ} (h : c.postpones = some x) :
    c.adds = none := by
  cases c <;> simp_all [adds, postpones]

/-- **The queue after a call, with its retry data**: an operation is as before, or new, or was
postponed. -/
theorem ops_run_cases {β : Type} {c : DbCall β} {db : Db} {o : PendingOperation}
    (h : o ∈ (c.run db).2.ops) :
    (o ∈ db.ops ∧ ∀ next, c.postpones ≠ some (o.id, next)) ∨
      (∃ item op payload now, c.adds = some (item, op, payload, now) ∧
        o = ⟨db.ops.next, item, op, payload, 0, now⟩) ∨
      ∃ s ∈ db.ops, ∃ next, c.postpones = some (s.id, next) ∧
        o = { s with attempts := s.attempts + 1, nextAttemptAt := next } := by
  have hcascade : ∀ t, o ∈ (db.withItems t).ops → o ∈ db.ops := fun t ht =>
    (Db.mem_ops_withItems.mp ht).1
  cases c with
  | insertItem new =>
    simp only [run, Db.insertItem] at h
    split_ifs at h with hp
    · exact .inl ⟨hcascade _ h, by simp [postpones]⟩
    · exact .inl ⟨h, by simp [postpones]⟩
  | enqueue item op payload now =>
    simp only [run, Db.enqueue] at h
    split_ifs at h with hi
    · rw [Serial.mem_push] at h
      rcases h with h | rfl
      · exact .inl ⟨h, by simp [postpones]⟩
      · exact .inr (.inl ⟨item, op, payload, now, rfl, rfl⟩)
    · exact .inl ⟨h, by simp [postpones]⟩
  | insertConflict item original conflict now =>
    simp only [run, Db.insertConflict] at h
    split_ifs at h <;> exact .inl ⟨h, by simp [postpones]⟩
  | clearIfTransient =>
    simp only [run] at h
    split_ifs at h <;> exact .inl ⟨h, by simp [postpones]⟩
  | markAttempt id next =>
    simp only [run, Db.modifyOp] at h
    rcases Serial.mem_modify.mp h with ⟨ho, hid⟩ | ⟨s, hs, rfl, rfl⟩
    · refine .inl ⟨ho, fun next' heq => hid ?_⟩
      simp only [postpones, Option.some.injEq, Prod.mk.injEq] at heq
      exact heq.1.symm
    · exact .inr (.inr ⟨s, hs, next, rfl, rfl⟩)
  | deleteOp id => exact .inl ⟨(Serial.mem_keep.mp h).1, by simp [postpones]⟩
  | setRemoteId id rid => exact .inl ⟨hcascade _ h, by simp [postpones]⟩
  | updateFingerprint id size md5 => exact .inl ⟨hcascade _ h, by simp [postpones]⟩
  | setState id state => exact .inl ⟨hcascade _ h, by simp [postpones]⟩
  | markTrashed id at' => exact .inl ⟨hcascade _ h, by simp [postpones]⟩
  | clearTrashed id => exact .inl ⟨hcascade _ h, by simp [postpones]⟩
  | setRelativePath id rel => exact .inl ⟨hcascade _ h, by simp [postpones]⟩
  | renameSubtree old new => exact .inl ⟨hcascade _ h, by simp [postpones]⟩
  | deleteItem id => exact .inl ⟨hcascade _ h, by simp [postpones]⟩
  | gcTombstones cutoff => exact .inl ⟨hcascade _ h, by simp [postpones]⟩
  | _ => exact .inl ⟨h, by simp [postpones]⟩

/-- The calls that can drop a row or an operation. -/
def drops {β : Type} : DbCall β → Bool
  | deleteItem _ => true
  | setRelativePath _ _ => true
  | renameSubtree _ _ => true
  | gcTombstones _ => true
  | deleteOp _ => true
  | _ => false

/-- A change in place keeps every row. -/
private lemma exists_mem_modify {t : ItemTable} {id : ItemId} {f : SyncItem → SyncItem}
    {hid : ∀ r, (f r).id = r.id} {hpath : ∀ r, (f r).relativePath = r.relativePath}
    {s : SyncItem} (h : s ∈ t) :
    ∃ r ∈ t.modify id f hid hpath, r.id = s.id ∧ (r = s ∨ s.id = id ∧ r = f s) := by
  by_cases hs : s.id = id
  · exact ⟨f s, ItemTable.mem_modify.mpr (.inr ⟨s, h, hs, rfl⟩), hid s, .inr ⟨hs, rfl⟩⟩
  · exact ⟨s, ItemTable.mem_modify.mpr (.inl ⟨h, hs⟩), rfl, .inl rfl⟩

/-- **Rows persist**: a call that drops nothing keeps every row, changed as the call says. -/
theorem rows_persist {β : Type} {c : DbCall β} {db : Db} {s : SyncItem} (hc : c.drops = false)
    (h : s ∈ db.items) : ∃ r ∈ (c.run db).2.items, r.id = s.id ∧ c.Changes s r := by
  cases c with
  | insertItem new =>
    simp only [run, Db.insertItem]
    split_ifs
    · exact ⟨s, by simp [h], rfl, rfl⟩
    · exact ⟨s, h, rfl, rfl⟩
  | enqueue item op payload now => exact ⟨s, by simpa [run] using h, rfl, rfl⟩
  | insertConflict item original conflict now =>
    simp only [run, Db.insertConflict]
    split_ifs <;> exact ⟨s, h, rfl, rfl⟩
  | clearIfTransient =>
    simp only [run]
    split_ifs <;> exact ⟨s, h, rfl, rfl⟩
  | setRemoteId id rid =>
    simp only [run, Db.items_withItems]
    exact exists_mem_modify h
  | updateFingerprint id size md5 =>
    simp only [run, Db.items_withItems]
    exact exists_mem_modify h
  | setState id state =>
    simp only [run, Db.items_withItems]
    exact exists_mem_modify h
  | markTrashed id at' =>
    simp only [run, Db.items_withItems]
    exact exists_mem_modify h
  | clearTrashed id =>
    simp only [run, Db.items_withItems]
    exact exists_mem_modify h
  | setRelativePath id rel => cases hc
  | renameSubtree old new => cases hc
  | deleteItem id => cases hc
  | gcTombstones cutoff => cases hc
  | deleteOp id => cases hc
  | _ => exact ⟨s, h, rfl, rfl⟩

/-- The operation that a call takes from the queue. -/
def deletes {β : Type} : DbCall β → Option OpId
  | deleteOp id => some id
  | _ => none

/-- **An operation stays as long as its row**, unless it is taken from the queue. -/
theorem ops_stay {β : Type} {c : DbCall β} {db : Db} {o : PendingOperation} (h : o ∈ db.ops)
    (hrow : ∃ r ∈ (c.run db).2.items, r.id = o.syncItemId) (hdelete : c.deletes ≠ some o.id) :
    ∃ o' ∈ (c.run db).2.ops, SameWork o o' := by
  cases c with
  | insertItem new =>
    simp only [run, Db.insertItem] at hrow ⊢
    split_ifs at hrow ⊢
    · exact ⟨o, Db.mem_ops_withItems.mpr ⟨h, hrow⟩, .refl o⟩
    · exact ⟨o, h, .refl o⟩
  | enqueue item op payload now =>
    simp only [run, Db.enqueue]
    split_ifs
    · exact ⟨o, Serial.mem_push.mpr (.inl h), .refl o⟩
    · exact ⟨o, h, .refl o⟩
  | insertConflict item original conflict now =>
    simp only [run, Db.insertConflict]
    split_ifs <;> exact ⟨o, h, .refl o⟩
  | clearIfTransient =>
    simp only [run]
    split_ifs <;> exact ⟨o, h, .refl o⟩
  | markAttempt id next =>
    simp only [run, Db.modifyOp]
    by_cases hid : o.id = id
    · refine ⟨{ o with attempts := o.attempts + 1, nextAttemptAt := next }, ?_,
        rfl, rfl, rfl, rfl⟩
      exact Serial.mem_modify.mpr (.inr ⟨o, h, hid, rfl⟩)
    · exact ⟨o, Serial.mem_modify.mpr (.inl ⟨h, hid⟩), .refl o⟩
  | setRemoteId id rid => exact ⟨o, Db.mem_ops_withItems.mpr ⟨h, hrow⟩, .refl o⟩
  | updateFingerprint id size md5 => exact ⟨o, Db.mem_ops_withItems.mpr ⟨h, hrow⟩, .refl o⟩
  | setState id state => exact ⟨o, Db.mem_ops_withItems.mpr ⟨h, hrow⟩, .refl o⟩
  | markTrashed id at' => exact ⟨o, Db.mem_ops_withItems.mpr ⟨h, hrow⟩, .refl o⟩
  | clearTrashed id => exact ⟨o, Db.mem_ops_withItems.mpr ⟨h, hrow⟩, .refl o⟩
  | setRelativePath id rel => exact ⟨o, Db.mem_ops_withItems.mpr ⟨h, hrow⟩, .refl o⟩
  | renameSubtree old new => exact ⟨o, Db.mem_ops_withItems.mpr ⟨h, hrow⟩, .refl o⟩
  | deleteItem id => exact ⟨o, Db.mem_ops_withItems.mpr ⟨h, hrow⟩, .refl o⟩
  | gcTombstones cutoff => exact ⟨o, Db.mem_ops_withItems.mpr ⟨h, hrow⟩, .refl o⟩
  | deleteOp id =>
    have hne : o.id ≠ id := fun heq => hdelete (heq ▸ rfl)
    exact ⟨o, Serial.mem_keep.mpr ⟨h, by simpa using hne⟩, .refl o⟩
  | _ => exact ⟨o, h, .refl o⟩

/-- **Operations persist**: a call that drops nothing keeps every operation. -/
theorem ops_persist {β : Type} {c : DbCall β} {db : Db} {o : PendingOperation}
    (hc : c.drops = false) (h : o ∈ db.ops) : ∃ o' ∈ (c.run db).2.ops, SameWork o o' := by
  obtain ⟨s, hs, hid⟩ := db.ops_owned o h
  obtain ⟨r, hr, hrid, -⟩ := rows_persist hc hs
  have hnone : c.deletes = none := by cases c <;> first | rfl | cases hc
  exact ops_stay h ⟨r, hr, hrid.trans hid⟩ (hnone ▸ nofun)

/-- The calls that open a conflict. -/
def opens {β : Type} : DbCall β → Bool
  | insertConflict _ _ _ _ => true
  | _ => false

/-- Other calls only close conflicts. -/
theorem mem_conflicts_run {β : Type} {c : DbCall β} {db : Db} {x : ConflictRecord}
    (hc : c.opens = false) (h : x ∈ (c.run db).2.conflicts) : x ∈ db.conflicts := by
  cases c with
  | insertConflict item original conflict now => cases hc
  | insertItem new =>
    simp only [run, Db.insertItem] at h
    split_ifs at h
    · exact (Serial.mem_keep.mp h).1
    · exact h
  | enqueue item op payload now =>
    simp only [run, Db.enqueue] at h
    split_ifs at h <;> exact h
  | clearIfTransient =>
    simp only [run] at h
    split_ifs at h <;> exact h
  | setRemoteId id rid => exact (Serial.mem_keep.mp h).1
  | updateFingerprint id size md5 => exact (Serial.mem_keep.mp h).1
  | setState id state => exact (Serial.mem_keep.mp h).1
  | markTrashed id at' => exact (Serial.mem_keep.mp h).1
  | clearTrashed id => exact (Serial.mem_keep.mp h).1
  | setRelativePath id rel => exact (Serial.mem_keep.mp h).1
  | renameSubtree old new => exact (Serial.mem_keep.mp h).1
  | deleteItem id => exact (Serial.mem_keep.mp h).1
  | gcTombstones cutoff => exact (Serial.mem_keep.mp h).1
  | deleteConflict id => exact (Serial.mem_keep.mp h).1
  | _ => exact h

/-- The calls that change the queue other than by a cascade. -/
def queues {β : Type} : DbCall β → Bool
  | enqueue _ _ _ _ => true
  | markAttempt _ _ => true
  | deleteOp _ => true
  | _ => false

/-- A call that drops no row and does not concern the queue leaves the queue alone. -/
lemma ops_run_eq {β : Type} {c : DbCall β} {db : Db} (hdrop : c.drops = false)
    (hqueue : c.queues = false) : (c.run db).2.ops = db.ops := by
  have hids : ∀ s ∈ db.items, ∃ r ∈ (c.run db).2.items, r.id = s.id := fun s hs => by
    obtain ⟨r, hr, hid, -⟩ := rows_persist hdrop hs
    exact ⟨r, hr, hid⟩
  cases c with
  | insertItem new =>
    simp only [run, Db.insertItem] at hids ⊢
    split_ifs at hids ⊢
    · exact Db.ops_withItems_of_ids hids
    · rfl
  | insertConflict item original conflict now =>
    simp only [run, Db.insertConflict]
    split_ifs <;> rfl
  | clearIfTransient =>
    simp only [run]
    split_ifs <;> rfl
  | setRemoteId id rid => exact Db.ops_withItems_of_ids hids
  | updateFingerprint id size md5 => exact Db.ops_withItems_of_ids hids
  | setState id state => exact Db.ops_withItems_of_ids hids
  | markTrashed id at' => exact Db.ops_withItems_of_ids hids
  | clearTrashed id => exact Db.ops_withItems_of_ids hids
  | enqueue item op payload now => cases hqueue
  | markAttempt id next => cases hqueue
  | deleteOp id => cases hqueue
  | setRelativePath id rel => cases hdrop
  | renameSubtree old new => cases hdrop
  | deleteItem id => cases hdrop
  | gcTombstones cutoff => cases hdrop
  | _ => rfl

/-- **The queue after a call that does not concern it**: the operations whose rows are left. -/
theorem mem_ops_run_iff {β : Type} {c : DbCall β} {db : Db} {o : PendingOperation}
    (hqueue : c.queues = false) :
    o ∈ (c.run db).2.ops ↔ o ∈ db.ops ∧ ∃ r ∈ (c.run db).2.items, r.id = o.syncItemId := by
  cases hdrop : c.drops with
  | false =>
    rw [ops_run_eq hdrop hqueue]
    refine ⟨fun ho => ⟨ho, ?_⟩, And.left⟩
    exact (c.run db).2.ops_owned o ((ops_run_eq hdrop hqueue).symm ▸ ho)
  | true =>
    cases c with
    | setRelativePath id rel => exact Db.mem_ops_withItems
    | renameSubtree old new => exact Db.mem_ops_withItems
    | deleteItem id => exact Db.mem_ops_withItems
    | gcTombstones cutoff => exact Db.mem_ops_withItems
    | deleteOp id => cases hqueue
    | _ => cases hdrop

/-- The calls that concern the queue leave the rows alone. -/
lemma items_run_of_queues {β : Type} {c : DbCall β} {db : Db} (hqueue : c.queues = true) :
    (c.run db).2.items = db.items := by
  cases c with
  | enqueue item op payload now => exact Db.items_enqueue db item op payload now
  | markAttempt id next => rfl
  | deleteOp id => rfl
  | _ => cases hqueue

/-- No call both inserts a row and enqueues an operation. -/
lemma enqueues_of_inserts {β : Type} {c : DbCall β} {new : NewSyncItem} (h : c.inserts = some new)
    (x : ItemId × Operation × Option Payload) : c.enqueues ≠ some x := by
  cases c <;> simp_all [inserts, enqueues]

/-- A row that was bound has the id. -/
lemma remoteId_of_setRemoteId {id : ItemId} {rid : FileId} {db : Db} {r : SyncItem}
    (hr : r ∈ (run (.setRemoteId id rid) db).2.items) (hid : r.id = id) : r.remoteId = some rid := by
  simp only [run, Db.items_withItems, ItemTable.mem_modify] at hr
  rcases hr with ⟨-, hne⟩ | ⟨s, -, -, rfl⟩
  · exact absurd hid hne
  · rfl

/-- No call takes the id from a row. -/
lemma bound_of_changes {β : Type} {c : DbCall β} {s r : SyncItem} (h : c.Changes s r)
    (hs : s.remoteId ≠ none) : r.remoteId ≠ none := by
  have hsame : r = s → r.remoteId ≠ none := fun heq => heq ▸ hs
  cases c with
  | setRemoteId id rid =>
    rcases h with rfl | ⟨-, rfl⟩
    · exact hs
    · exact Option.some_ne_none _
  | setRelativePath id rel =>
    obtain ⟨p, rfl⟩ := h
    exact hs
  | renameSubtree old new =>
    obtain ⟨p, rfl⟩ := h
    exact hs
  | updateFingerprint id size md5 => rcases h with rfl | ⟨-, rfl⟩ <;> exact hs
  | setState id state => rcases h with rfl | ⟨-, rfl⟩ <;> exact hs
  | markTrashed id at' => rcases h with rfl | ⟨-, rfl⟩ <;> exact hs
  | clearTrashed id => rcases h with rfl | ⟨-, rfl⟩ <;> exact hs
  | _ => exact hsame h

/-- The row counter never goes back. -/
lemma nextId_le_run {β : Type} (c : DbCall β) (db : Db) :
    db.items.nextId ≤ (c.run db).2.items.nextId := by
  cases c with
  | insertItem new =>
    simp only [run, Db.insertItem]
    split_ifs <;> simp
  | enqueue item op payload now =>
    simp only [run, Db.enqueue]
    split_ifs <;> simp
  | insertConflict item original conflict now =>
    simp only [run, Db.insertConflict]
    split_ifs <;> simp
  | clearIfTransient =>
    simp only [run]
    split_ifs <;> simp
  | _ => simp [run, Db.modifyOp, Db.deleteOp, Db.deleteConflict]

/-- The operation counter never goes back. -/
lemma nextOp_le_run {β : Type} (c : DbCall β) (db : Db) :
    db.ops.next ≤ (c.run db).2.ops.next := by
  cases c with
  | insertItem new =>
    simp only [run, Db.insertItem]
    split_ifs
    · exact Nat.le_refl _
    · exact Nat.le_refl _
  | enqueue item op payload now =>
    simp only [run, Db.enqueue]
    split_ifs
    · exact Nat.le_succ _
    · exact Nat.le_refl _
  | insertConflict item original conflict now =>
    simp only [run, Db.insertConflict]
    split_ifs <;> exact Nat.le_refl _
  | clearIfTransient =>
    simp only [run]
    split_ifs <;> exact Nat.le_refl _
  | _ => exact Nat.le_refl _

end DbCall

end AirDrive
