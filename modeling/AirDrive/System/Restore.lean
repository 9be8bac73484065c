import AirDrive.Daemon.Outcomes
import AirDrive.Reconcile.Applied
import AirDrive.System.Drain

set_option relaxedAutoImplicit false
set_option autoImplicit false

/-!
# Trash and restore

Trash and untrash changes of one tracked file, interleaved with the dispatcher. A trash queues the
deletion of the local copy, and only the execution of that deletion makes the row a tombstone; an
untrash queues a download only for a tombstone. The two meet well when no untrash arrives while a
deletion is queued, and no deletion is executed while a download is queued.

## Main definitions

* `AirDrive.Restore.TrackedFile` — a tracked regular file and its object on Drive.
* `AirDrive.Restore.Step`, `AirDrive.Restore.Runs` — deliveries, steps of the dispatcher and what
  happens elsewhere.
* `AirDrive.Restore.InOrder` — the condition on these steps.
* `AirDrive.Restore.Agrees` — the local file and its row are as the last delivered change says.

## Main results

* `AirDrive.Restore.Inv.deliver`, `AirDrive.Restore.Inv.drain` — the invariant of the steps.
* `AirDrive.Restore.trash_agrees` — once the queue has drained, local and remote agree.
-/

namespace AirDrive.Restore

open Effect

/-- A tracked regular file and the description of its object, which do not differ in content. -/
structure TrackedFile (env : Env) where
  /-- The row, as long as it is live. -/
  row : SyncItem
  /-- The object. -/
  file : FileResource
  /-- The content of the object. -/
  content : Bytes
  /-- It is a file. -/
  kind : row.kind = .file
  /-- The row is bound to the object. -/
  bound : row.remoteId = some file.id
  /-- The row is live. -/
  live : row.trashedAt = none
  /-- The row has the fingerprint of the object. -/
  print : row.md5 = some (env.md5 content) ∧ row.size = some content.length
  /-- The object has this content. -/
  described : file.md5 = some (env.md5 content) ∧ file.size = some content.length
  /-- The object is a regular file. -/
  regular : file.isFolder = false ∧ Shortcut.isNative file.mimeType = false

variable {env : Env}

namespace TrackedFile

variable (t : TrackedFile env)

/-- The change that says that the object is in the trash, or back from it. -/
def change (trashed : Bool) : RemoteChange :=
  ⟨t.file.id, false, some { t.file with trashed }, some t.row.relativePath⟩

/-- The row, live or as a tombstone. -/
def rowAt (at' : Option ℕ) : SyncItem := { t.row with trashedAt := at' }

/-- The local copy is there. -/
def present (w : World) : Bool := w.fs.isFile t.row.relativePath

/-- The deletion of the local copy that a trash queues. -/
def IsDelete (o : PendingOperation) : Prop :=
  o.syncItemId = t.row.id ∧ o.op = .deleteLocal ∧ o.payload = some (.deleteLocal ⟨true⟩)

/-- The download that an untrash queues. -/
def IsFetch (o : PendingOperation) : Prop :=
  o.syncItemId = t.row.id ∧ o.op = .download ∧
    ∃ size md5, o.payload = some (.download ⟨t.file.id, size, md5, t.row.relativePath⟩)

end TrackedFile

variable {t : TrackedFile env} {w w' : World} {at' : Option ℕ} {trashed : Bool}

/-! ## Runs -/

/-- The world holds the file: its row, live or as a tombstone, its object, and for its row only
the operations that trashes and untrashes queue. -/
structure Held (t : TrackedFile env) (at' : Option ℕ) (w : World) : Prop where
  /-- The row is there. -/
  row : t.rowAt at' ∈ w.db.items
  /-- No other row is bound to the object. -/
  only : ∀ s ∈ w.db.items, s.remoteId = some t.file.id → s.id = t.row.id
  /-- The object is there. -/
  object : ∃ g, w.remote.drive.file t.file.id = some g ∧ g.content = some t.content
  /-- The object is not in flight. -/
  free : w.inFlight.contains t.file.id = false
  /-- The queue. -/
  ops : ∀ o ∈ w.db.ops, o.syncItemId = t.row.id → t.IsDelete o ∨ t.IsFetch o

/-- How far the row has come, for the last delivered change. -/
def Phase (t : TrackedFile env) (at' : Option ℕ) (w : World) : Bool → Prop
  | false => at' = none ∧ (∀ o ∈ w.db.ops, ¬t.IsDelete o) ∧
      (t.present w = true ∨ ∃ o ∈ w.db.ops, t.IsFetch o)
  | true => (at' ≠ none ∧ t.present w = false ∧ ∀ o ∈ w.db.ops, ¬t.IsFetch o) ∨
      (at' = none ∧ ∃ o ∈ w.db.ops, t.IsDelete o)

/-- The invariant: the last delivered change has taken effect, or will. -/
def Inv (t : TrackedFile env) (w : World) (trashed : Bool) : Prop :=
  ∃ at', Held t at' w ∧ Phase t at' w trashed

/-- A tracked file in step: its row is live, and its local copy is there or on its way. -/
def InStep (t : TrackedFile env) (w : World) : Prop := Held t none w ∧ Phase t none w false

/-- What everything else leaves alone: the row, its operations, the local copy and the object. -/
structure Spares (t : TrackedFile env) (w w' : World) : Prop where
  rows : ∀ s : SyncItem, s.id = t.row.id ∨ s.remoteId = some t.file.id →
    (s ∈ w'.db.items ↔ s ∈ w.db.items)
  ops : ∀ o : PendingOperation, o.syncItemId = t.row.id → (o ∈ w'.db.ops ↔ o ∈ w.db.ops)
  present : t.present w' = t.present w
  object : ∀ g, w.remote.drive.file t.file.id = some g →
    ∃ g', w'.remote.drive.file t.file.id = some g' ∧ g'.content = g.content
  free : w'.inFlight.contains t.file.id = w.inFlight.contains t.file.id

/-- What can happen. -/
inductive Event
  /-- A trash or untrash change of the object is delivered. -/
  | deliver (trashed : Bool)
  /-- The dispatcher takes an operation of the file. -/
  | drain (root : FileId)
  /-- Something else happens. -/
  | elsewhere (w' : World)

/-- One step, with the last delivered change. -/
inductive Step (t : TrackedFile env) : Event → World × Bool → World × Bool → Prop
  | deliver {w : World} {last : Bool} (trashed : Bool) :
    Step t (.deliver trashed) (w, last)
      ((runTask env (Continuous.applyRemote env (t.change trashed)) w).2, trashed)
  | drain {w : World} {last : Bool} (root : FileId)
    (own : ∀ o, OpTable.nextDue w.db.ops w.now = some o → o.syncItemId = t.row.id) :
    Step t (.drain root) (w, last) ((runTask env (Dispatcher.drainOne env root) w).2, last)
  | elsewhere {w w' : World} {last : Bool} (spares : Spares t w w') :
    Step t (.elsewhere w') (w, last) (w', last)

/-- The states reached by steps that meet a condition in the state before them. -/
inductive Runs (t : TrackedFile env) (ok : World → Event → Prop) (s₀ : World × Bool) :
    World × Bool → Prop
  | start : Runs t ok s₀ s₀
  | step {s s' : World × Bool} {e : Event} (run : Runs t ok s₀ s) (meets : ok s.1 e)
    (next : Step t e s s') : Runs t ok s₀ s'

/-- No untrash is delivered while a deletion of the local copy is queued, and no deletion is
executed while a download is queued. -/
def InOrder (t : TrackedFile env) (w : World) : Event → Prop
  | .deliver false => ∀ o ∈ w.db.ops, ¬t.IsDelete o
  | .drain _ => ∀ o, OpTable.nextDue w.db.ops w.now = some o →
      o.attempts < Dispatcher.maxAttempts → t.IsDelete o → ∀ o' ∈ w.db.ops, ¬t.IsFetch o'
  | _ => True

/-- The local file is there and its row live exactly when the last delivered change was no trash,
and it is gone and its row a tombstone exactly when it was one. -/
structure Agrees (t : TrackedFile env) (w : World) (trashed : Bool) : Prop where
  present : t.present w = true ↔ trashed = false
  live : (∃ s ∈ w.db.items, s.id = t.row.id ∧ s.trashedAt = none) ↔ trashed = false
  absent : t.present w = false ↔ trashed = true
  tombstone : (∃ s ∈ w.db.items, s.id = t.row.id ∧ s.trashedAt ≠ none) ↔ trashed = true

/-! ## The row -/

lemma Held.byRemoteId (h : Held t at' w) :
    w.db.items.getByRemoteId t.file.id = some (t.rowAt at') :=
  ItemTable.getByRemoteId_of_only h.row t.bound h.only

lemma Held.byId (h : Held t at' w) : w.db.items.getById t.row.id = some (t.rowAt at') :=
  ItemTable.getById_eq_some.mpr ⟨h.row, rfl⟩

/-- Changing the row in place. -/
lemma Held.modify (h : Held t at' w) (g : SyncItem → SyncItem) (hid : ∀ r, (g r).id = r.id)
    (hpath : ∀ r, (g r).relativePath = r.relativePath) {to' : Option ℕ}
    (hg : g (t.rowAt at') = t.rowAt to') :
    Held t to' { w with db := w.db.withItems (w.db.items.modify t.row.id g hid hpath) } ∧
      (w.db.withItems (w.db.items.modify t.row.id g hid hpath)).ops = w.db.ops := by
  have hops : (w.db.withItems (w.db.items.modify t.row.id g hid hpath)).ops = w.db.ops := by
    refine Db.ops_withItems_of_ids fun r hr => ?_
    by_cases hrid : r.id = t.row.id
    · exact ⟨g r, ItemTable.mem_modify.mpr (.inr ⟨r, hr, hrid, rfl⟩), hid r⟩
    · exact ⟨r, ItemTable.mem_modify.mpr (.inl ⟨hr, hrid⟩), rfl⟩
  have hmem : ∀ s, s ∈ w.db.items.modify t.row.id g hid hpath ↔
      (s ∈ w.db.items ∧ s.id ≠ t.row.id) ∨ ∃ r ∈ w.db.items, r.id = t.row.id ∧ g r = s := fun s =>
    ItemTable.mem_modify
  refine ⟨⟨(hmem _).mpr (.inr ⟨_, h.row, rfl, hg⟩), fun s hs hremote => ?_, h.object, h.free, ?_⟩,
    hops⟩
  · rcases (hmem s).mp hs with ⟨hs, -⟩ | ⟨r, -, hr, rfl⟩
    · exact h.only s hs hremote
    · exact (hid r).trans hr
  · rw [hops]
    exact h.ops

lemma Held.clearTrashed (h : Held t at' w) :
    Held t none { w with db := (DbCall.run (.clearTrashed t.row.id) w.db).2 } ∧
      (DbCall.run (.clearTrashed t.row.id) w.db).2.ops = w.db.ops :=
  h.modify (fun r => { r with trashedAt := none }) (fun _ => rfl) (fun _ => rfl) rfl

lemma Held.markTrashed (h : Held t at' w) (n : ℕ) :
    Held t (some n) { w with db := (DbCall.run (.markTrashed t.row.id n) w.db).2 } ∧
      (DbCall.run (.markTrashed t.row.id n) w.db).2.ops = w.db.ops :=
  h.modify (fun r => { r with trashedAt := some n }) (fun _ => rfl) (fun _ => rfl) rfl

/-- Recording the fingerprint of the object changes nothing. -/
lemma Held.updateFingerprint (h : Held t at' w) :
    Held t at' { w with db := (DbCall.run (.updateFingerprint t.row.id (some t.content.length)
      (some (env.md5 t.content))) w.db).2 } ∧
      (DbCall.run (.updateFingerprint t.row.id (some t.content.length)
        (some (env.md5 t.content))) w.db).2.ops = w.db.ops := by
  refine h.modify (fun r => { r with
    size := some t.content.length, md5 := some (env.md5 t.content) }) (fun _ => rfl)
    (fun _ => rfl) ?_
  rw [← t.print.1, ← t.print.2]
  rfl

/-- An operation of the file is queued. -/
lemma Held.queued {op : Operation} {payload : Option Payload} (h : Held t at' w)
    (hop : t.IsDelete (Continuous.nextOp w t.row.id op payload) ∨
      t.IsFetch (Continuous.nextOp w t.row.id op payload)) :
    Held t at' (Continuous.queued w t.row.id op payload) := by
  refine ⟨?_, ?_, h.object, h.free, fun o ho hitem => ?_⟩
  · rw [Continuous.queued_items]
    exact h.row
  · rw [Continuous.queued_items]
    exact h.only
  · rcases (Continuous.mem_queued ⟨_, h.row, rfl⟩).mp ho with ho | rfl
    · exact h.ops o ho hitem
    · exact hop

/-- A download of a live row is queued. -/
lemma Held.fetch (h : Held t none w) (size : ℕ) (md5 : String)
    (hnone : ∀ o ∈ w.db.ops, ¬t.IsDelete o) :
    Inv t (Continuous.queued w t.row.id .download
      (some (.download ⟨t.file.id, size, md5, t.row.relativePath⟩))) false := by
  have hfetch : t.IsFetch (Continuous.nextOp w t.row.id .download
      (some (.download ⟨t.file.id, size, md5, t.row.relativePath⟩))) := ⟨rfl, rfl, size, md5, rfl⟩
  refine ⟨none, h.queued (.inr hfetch), rfl, fun o ho => ?_, .inr ⟨_, ?_, hfetch⟩⟩
  · rcases (Continuous.mem_queued ⟨_, h.row, rfl⟩).mp ho with ho | rfl
    · exact hnone o ho
    · exact fun hdelete => by cases hdelete.2.1
  · exact (Continuous.mem_queued ⟨_, h.row, rfl⟩).mpr (.inr rfl)

/-! ## Deliveries -/

/-- **A trash** queues the deletion of the local copy, unless the row is a tombstone. -/
lemma Inv.trash (h : Inv t w trashed) :
    Inv t (runTask env (Continuous.applyRemote env (t.change true)) w).2 true := by
  obtain ⟨at', hheld, hphase⟩ := h
  refine Ends.run (Q := fun _ w' => Inv t w' true) ?_
  refine Continuous.ends_applyRemote_present hheld.free rfl rfl ?_
  refine Continuous.ends_applyPresent_trashed rfl ?_
  simp only [Continuous.applyTrashed, Prog.bind_eq]
  rw [Ends, Prog.safe_bind, safe_sql]
  refine fun _ => ⟨trivial, ?_⟩
  simp only [DbCall.run, TrackedFile.change, hheld.byRemoteId]
  cases at' with
  | some n =>
    have htomb : ¬(t.rowAt (some n)).trashedAt = none := by simp [TrackedFile.rowAt]
    simp only [htomb, if_false]
    cases trashed with
    | false => exact absurd hphase.1 (by simp)
    | true => exact ⟨some n, hheld, hphase⟩
  | none =>
    have hlive : (t.rowAt none).trashedAt = none := rfl
    simp only [hlive, if_true]
    have hdelete : t.IsDelete (Continuous.nextOp w t.row.id .deleteLocal
        (some (.deleteLocal ⟨(t.rowAt none).kind = .file⟩))) := by
      refine ⟨rfl, rfl, ?_⟩
      simp [Continuous.nextOp, TrackedFile.rowAt, t.kind]
    refine Continuous.ends_enqueueOp ⟨_, hheld.row, rfl⟩
      ⟨none, hheld.queued (.inl hdelete), .inr ⟨rfl, _, ?_, hdelete⟩⟩
    exact (Continuous.mem_queued ⟨_, hheld.row, rfl⟩).mpr (.inr rfl)

/-- **An untrash** queues a download for a tombstone, and is an echo otherwise. -/
lemma Inv.untrash (h : Inv t w trashed) (hnone : ∀ o ∈ w.db.ops, ¬t.IsDelete o) :
    Inv t (runTask env (Continuous.applyRemote env (t.change false)) w).2 false := by
  obtain ⟨at', hheld, hphase⟩ := h
  refine Ends.run (Q := fun _ w' => Inv t w' false) ?_
  refine Continuous.ends_applyRemote_present hheld.free rfl rfl ?_
  refine Continuous.ends_applyPresent_file rfl t.regular.1 t.regular.2 t.described.1 ?_
  cases at' with
  | some n =>
    -- a tombstone: live again, and its file is fetched
    have htomb : (t.rowAt (some n)).trashedAt ≠ none := by simp [TrackedFile.rowAt]
    refine Continuous.ends_applyFile_restored hheld.byRemoteId htomb ?_
    simp only [Continuous.applyRestored, Prog.bind_eq]
    rw [Ends, Prog.safe_bind, safe_sql]
    refine fun _ => ⟨trivial, ?_⟩
    obtain ⟨hheld', hops⟩ := hheld.clearTrashed
    refine Continuous.ends_enqueueOp ⟨_, hheld'.row, rfl⟩
      (hheld'.fetch _ _ fun o ho => hnone o ?_)
    exact hops ▸ ho
  | none =>
    -- a live row that knows the content already
    refine Continuous.ends_applyFile_echo hheld.byRemoteId rfl rfl ?_ ?_
    · simp [Continuous.sameFingerprint, TrackedFile.rowAt, t.print, t.described.2]
    · cases trashed with
      | false => exact ⟨none, hheld, hphase⟩
      | true =>
        rcases hphase with ⟨hne, -⟩ | ⟨-, o, ho, hdelete⟩
        · exact absurd rfl hne
        · exact absurd hdelete (hnone o ho)

/-! ## The dispatcher -/

/-- The retry data of an operation says nothing about its kind. -/
lemma isDelete_of_sameWork {o o' : PendingOperation} (h : DbCall.SameWork o o') :
    t.IsDelete o' ↔ t.IsDelete o := by
  obtain ⟨-, hitem, hop, hpayload⟩ := h
  simp only [TrackedFile.IsDelete, hitem, hop, hpayload]

lemma isFetch_of_sameWork {o o' : PendingOperation} (h : DbCall.SameWork o o') :
    t.IsFetch o' ↔ t.IsFetch o := by
  obtain ⟨-, hitem, hop, hpayload⟩ := h
  simp only [TrackedFile.IsFetch, hitem, hop, hpayload]

/-- What was executed, before the bookkeeping. -/
structure Executed (t : TrackedFile env) (at' : Option ℕ) (w w' : World) : Prop where
  held : Held t at' w'
  ops : w'.db.ops = w.db.ops

/-- **The deletion of the local copy** removes the file and makes the row a tombstone, or fails and
leaves both. -/
lemma ends_delete (h : Held t at' w) :
    Ends env (fun x w' => match x with
      | .ok _ => t.present w' = false ∧ ∃ n, Executed t (some n) w w'
      | .error _ => t.present w' = t.present w ∧ Executed t at' w w')
      (Dispatcher.executeDeleteLocal (t.rowAt at') (some (.deleteLocal ⟨true⟩))) w := by
  have hkind : (t.rowAt at').kind = .file := t.kind
  have hforget : ∀ v : World, Held t at' v → v.db.ops = w.db.ops → t.present v = false →
      Ends env (fun x w' => match x with
        | .ok _ => t.present w' = false ∧ ∃ n, Executed t (some n) w w'
        | .error _ => t.present w' = t.present w ∧ Executed t at' w w')
        (Dispatcher.forgetLocal (t.rowAt at') ⟨true⟩) v := by
    intro v hv hops habsent
    simp only [Ends, Dispatcher.forgetLocal, hkind, and_self, if_true, Prog.bind_eq,
      Prog.safe_bind, safe_unixNow, safe_sql, true_and, forall_const]
    obtain ⟨hv', hops'⟩ := hv.markTrashed v.now
    exact ⟨habsent, v.now, hv', hops'.trans hops⟩
  have hpath : (t.rowAt at').relativePath = t.row.relativePath := rfl
  simp only [Dispatcher.executeDeleteLocal, Dispatcher.removeLocal, hkind, hpath, Prog.bind_eq,
    decodePayload, Payload.asDeleteLocal]
  rw [Ends, Prog.safe_bind, Prog.safe_bind, safe_io]
  refine fun _ => ⟨trivial, ?_⟩
  cases hnode : w.fs.node t.row.relativePath with
  | none =>
    -- the file is gone already, which is no error
    have hgone : w.fs.removeFile t.row.relativePath = .error (.io .notFound) := by
      rw [Fs.removeFile, hnode]
    simp only [FsCall.run, FsCall.commit, hgone, if_true, Prog.pure_eq, Prog.safe_pure,
      Prog.ofExcept_ok, Prog.pure_bind]
    exact hforget w h rfl (by simp [TrackedFile.present, Fs.isFile, hnode])
  | some n =>
    cases n with
    | dir =>
      have hdir : w.fs.removeFile t.row.relativePath = .error (.io .isADirectory) := by
        rw [Fs.removeFile, hnode]
      simp only [FsCall.run, FsCall.commit, hdir]
      exact ⟨rfl, h, rfl⟩
    | file b =>
      by_cases hne : t.row.relativePath = []
      · rw [hne, Fs.node_nil] at hnode
        cases hnode
      · have hremoved : w.fs.removeFile t.row.relativePath =
            .ok (w.fs.removeTree t.row.relativePath hne) := by
          simp [Fs.removeFile, hnode, hne]
        simp only [FsCall.run, FsCall.commit, hremoved, Prog.pure_eq, Prog.safe_pure,
          Prog.ofExcept_ok, Prog.pure_bind]
        refine hforget { w with fs := w.fs.removeTree t.row.relativePath hne }
          ⟨h.row, h.only, h.object, h.free, h.ops⟩ rfl ?_
        simp [TrackedFile.present, Fs.isFile, Fs.node_removeTree]

/-- A download in progress: nothing was taken away so far. -/
structure Fetching (t : TrackedFile env) (at' : Option ℕ) (w w' : World) : Prop
    extends Executed t at' w w' where
  kept : t.present w = true → t.present w' = true

/-- Making directories takes nothing away. -/
lemma Fetching.createDirAll {v : World} (h : Fetching t at' w v) (q : RelPath) :
    Ends env (fun _ v' => Fetching t at' w v') (ioTry (.createDirAll q)) v := by
  rw [Ends, safe_ioTry]
  refine fun _ => ⟨trivial, ?_⟩
  simp only [FsCall.run]
  cases hmade : v.fs.createDirAll q with
  | error e => exact h
  | ok fs =>
    refine ⟨⟨⟨h.held.row, h.held.only, h.held.object, h.held.free, h.held.ops⟩, h.ops⟩, ?_⟩
    intro hp
    obtain ⟨b, hb⟩ := Fs.isFile_iff.mp (h.kept hp)
    exact Fs.isFile_iff.mpr ⟨b, by rw [FsCall.commit, Fs.node_createDirAll hmade (by simp [hb]), hb]⟩

/-- Fetching the content answers that of the object. -/
lemma Fetching.getMedia {v : World} (h : Fetching t at' w v) :
    Ends env (fun x v' => Fetching t at' w v' ∧ ∀ body, x = .ok body → body = t.content)
      (request (.getMedia t.file.id)) v := by
  rw [Ends, safe_request]
  refine fun _ => ⟨trivial, ⟨⟨⟨h.held.row, h.held.only, ?_, h.held.free, h.held.ops⟩, h.ops⟩,
    h.kept⟩, fun body hbody => ?_⟩
  · rw [Remote.send_getMedia_drive]
    exact h.held.object
  · obtain ⟨g, hg, hcontent⟩ := h.held.object
    have hrun := Remote.send_ok hbody
    simp only [DriveCall.run, DriveCall.onFile, hg, hcontent, Except.ok.injEq] at hrun
    exact hrun.symm

/-- **The download** brings the local copy back, or fails and takes nothing away. -/
lemma ends_fetch {size : ℕ} {md5 : String} (h : Held t at' w) :
    Ends env (fun x w' => Fetching t at' w w' ∧ (x = .ok () → t.present w' = true))
      (Dispatcher.executeDownload env (t.rowAt at')
        (some (.download ⟨t.file.id, size, md5, t.row.relativePath⟩))) w := by
  have hstart : Fetching t at' w w := ⟨⟨h, rfl⟩, id⟩
  have hbound : (t.rowAt at').remoteId = some t.file.id := t.bound
  simp only [Dispatcher.executeDownload, Engine.download, decodePayload, Payload.asDownload,
    Prog.bind_eq, Prog.ofExcept_ok, Prog.pure_bind]
  refine Prog.Safe.bind (hstart.createDirAll _) (fun _ w₁ h₁ => ?_)
    fun e w₁ h₁ => ⟨h₁, fun he => by cases he⟩
  rw [Prog.bind_assoc]
  refine Prog.Safe.bind h₁.getMedia ?_
    fun e w₂ h' => ⟨h'.1, fun he => by cases he⟩
  rintro body w₂ ⟨h₂, hbody⟩
  obtain rfl := hbody body rfl
  rw [Prog.bind_assoc]
  refine Prog.Safe.bind (h₂.createDirAll _) (fun _ w₃ h₃ => ?_)
    fun e w₃ h₃ => ⟨h₃, fun he => by cases he⟩
  rw [Prog.safe_bind, safe_ioTry]
  refine fun _ => ⟨trivial, ?_⟩
  simp only [FsCall.run]
  cases hwrite : w₃.fs.writeFile t.row.relativePath t.content with
  | error e => exact ⟨h₃, fun he => by cases he⟩
  | ok fs =>
    have hself := Fs.node_writeFile_self hwrite
    have hread : fs.readFile t.row.relativePath = .ok t.content := by
      rw [Fs.readFile, hself]
    have hpresent : fs.isFile t.row.relativePath = true := Fs.isFile_iff.mpr ⟨_, hself⟩
    have h₄ : Held t at' { w₃ with fs } :=
      ⟨h₃.held.row, h₃.held.only, h₃.held.object, h₃.held.free, h₃.held.ops⟩
    obtain ⟨h₅, hops⟩ := h₄.updateFingerprint
    simp only [FsCall.commit, Dispatcher.computeLocal, Prog.bind_eq, Prog.safe_bind, safe_ioTry,
      FsCall.run, hread, Prog.pure_eq, Prog.safe_pure, safe_sql, true_and, forall_const, hbound,
      ne_eq, not_true_eq_false, if_false]
    exact ⟨⟨⟨h₅, hops.trans h₃.ops⟩, fun _ => hpresent⟩, hpresent⟩

/-- The retry data of the queue does not matter. -/
lemma Held.retried (h : Held t at' w) (hr : Outcomes.Retried w w') : Held t at' w' := by
  refine ⟨hr.items ▸ h.row, hr.items ▸ h.only, ?_, hr.inFlight ▸ h.free, fun o' ho' hitem => ?_⟩
  · rw [hr.drive]
    exact h.object
  · obtain ⟨o, ho, hsame⟩ := hr.ops' o' ho'
    rw [isDelete_of_sameWork hsame, isFetch_of_sameWork hsame]
    exact h.ops o ho (hsame.2.1.trans hitem)

lemma Phase.retried (h : Phase t at' w trashed) (hr : Outcomes.Retried w w') :
    Phase t at' w' trashed := by
  have hpresent : t.present w' = t.present w := by
    rw [TrackedFile.present, TrackedFile.present, hr.fs]
  have hnone : ∀ {P : PendingOperation → Prop},
      (∀ {o o' : PendingOperation}, DbCall.SameWork o o' → (P o' ↔ P o)) →
      (∀ o ∈ w.db.ops, ¬P o) → ∀ o ∈ w'.db.ops, ¬P o := by
    intro P hP hall o' ho' hp
    obtain ⟨o, ho, hsame⟩ := hr.ops' o' ho'
    exact hall o ho ((hP hsame).mp hp)
  have hsome : ∀ {P : PendingOperation → Prop},
      (∀ {o o' : PendingOperation}, DbCall.SameWork o o' → (P o' ↔ P o)) →
      (∃ o ∈ w.db.ops, P o) → ∃ o ∈ w'.db.ops, P o := by
    rintro P hP ⟨o, ho, hp⟩
    obtain ⟨o', ho', hsame⟩ := hr.ops o ho
    exact ⟨o', ho', (hP hsame).mpr hp⟩
  cases trashed with
  | false =>
    obtain ⟨hlive, hno, hfile⟩ := h
    refine ⟨hlive, hnone isDelete_of_sameWork hno, ?_⟩
    rw [hpresent]
    exact hfile.imp id (hsome isFetch_of_sameWork)
  | true =>
    rcases h with ⟨htomb, habsent, hno⟩ | ⟨hlive, hdelete⟩
    · exact .inl ⟨htomb, hpresent ▸ habsent, hnone isFetch_of_sameWork hno⟩
    · exact .inr ⟨hlive, hsome isDelete_of_sameWork hdelete⟩

/-- The phase depends on the queue and on the local copy; with no download queued the copy may not
come back. -/
lemma Phase.executed (h : Phase t at' w trashed) (hops : w'.db.ops = w.db.ops)
    (hkept : t.present w = true → t.present w' = true)
    (habsent : t.present w = false → (∀ o ∈ w.db.ops, ¬t.IsFetch o) → t.present w' = false) :
    Phase t at' w' trashed := by
  cases trashed with
  | false =>
    obtain ⟨hlive, hno, hfile⟩ := h
    exact ⟨hlive, hops ▸ hno, hops ▸ hfile.imp hkept id⟩
  | true =>
    rcases h with ⟨htomb, hgone, hno⟩ | ⟨hlive, hdelete⟩
    · exact .inl ⟨htomb, habsent hgone hno, hops ▸ hno⟩
    · exact .inr ⟨hlive, hops ▸ hdelete⟩

/-- An operation that was executed is taken from the queue. -/
lemma Held.completed {id : OpId} (h : Held t at' w) (hc : Outcomes.Completed id w w') :
    Held t at' w' := by
  refine ⟨hc.items ▸ h.row, hc.items ▸ h.only, ?_, hc.inFlight ▸ h.free, fun o ho hitem => ?_⟩
  · rw [hc.drive]
    exact h.object
  · exact h.ops o ((hc.ops o).mp ho).1 hitem

/-- **A step of the dispatcher** under the condition.

**Proof sketch.** A deletion is executed when no download is queued: then the last change was a
trash, and it has taken effect. A download is executed for a live row only: either it completes the
last untrash, or a deletion is still queued behind it. -/
lemma Inv.drain {root : FileId} (h : Inv t w trashed)
    (own : ∀ o, OpTable.nextDue w.db.ops w.now = some o → o.syncItemId = t.row.id)
    (meets : InOrder t w (.drain root)) :
    Inv t (runTask env (Dispatcher.drainOne env root) w).2 trashed := by
  obtain ⟨at', hheld, hphase⟩ := h
  rcases Outcomes.drainOne_cases env root w with ⟨-, hsame⟩ | ⟨op, hnext, hcase⟩
  · exact ⟨at', hsame.symm ▸ hheld, hsame.symm ▸ hphase⟩
  rcases hcase with ⟨-, hretried⟩ | ⟨hleft, x, w₁, hrun, hafter⟩
  · exact ⟨at', hheld.retried hretried, hphase.retried hretried⟩
  obtain ⟨hop, -⟩ := OpTable.nextDue_mem hnext
  have hitem := own op hnext
  have hrow : w.db.items.getById op.syncItemId = some (t.rowAt at') := hitem ▸ hheld.byId
  have hexecute : (Dispatcher.execute env root op).run (handle env) w =
      (Dispatcher.executeItem env root op (t.rowAt at')).run (handle env) w := by
    simp only [Dispatcher.execute, sql, Prog.lift, Prog.bind_eq, Prog.call_bind, Prog.pure_bind,
      Prog.run_call, handle_db, DbCall.run, hrow]
  rw [runTask, hexecute] at hrun
  rcases hheld.ops op hop hitem with hdelete | hfetch
  · have hno := meets op hnext hleft hdelete
    obtain ⟨-, hkind, hpayload⟩ := id hdelete
    have hends := (ends_delete hheld).run
    simp only [Dispatcher.executeItem, hkind, hpayload] at hrun
    rw [runTask, hrun] at hends
    cases x with
    | error e =>
      obtain ⟨hpresent, hexec⟩ := hends
      exact ⟨at', hexec.held.retried hafter, (hphase.executed hexec.ops (fun h => hpresent ▸ h)
        fun h _ => hpresent ▸ h).retried hafter⟩
    | ok u =>
      obtain ⟨habsent, n, hexec⟩ := hends
      cases trashed with
      | false => exact absurd hdelete (hphase.2.1 op hop)
      | true =>
        refine ⟨some n, hexec.held.completed hafter, .inl ⟨by simp, ?_, fun o ho => ?_⟩⟩
        · rw [TrackedFile.present, hafter.fs]
          exact habsent
        · exact hno o (hexec.ops ▸ ((hafter.ops o).mp ho).1)
  · obtain ⟨-, hkind, size, md5, hpayload⟩ := id hfetch
    have hends := (@ends_fetch env t w at' size md5 hheld).run
    simp only [Dispatcher.executeItem, hkind, hpayload] at hrun
    rw [runTask, hrun] at hends
    obtain ⟨hexec, hpresent⟩ := hends
    cases x with
    | error e =>
      exact ⟨at', hexec.held.retried hafter, (hphase.executed hexec.ops hexec.kept
        fun _ hno => absurd hfetch (hno op hop)).retried hafter⟩
    | ok u =>
      refine ⟨at', hexec.held.completed hafter, ?_⟩
      have hstill : ∀ o ∈ w.db.ops, t.IsDelete o →
          o ∈ (runTask env (Dispatcher.drainOne env root) w).2.db.ops := by
        intro o ho hdel
        refine (hafter.ops o).mpr ⟨hexec.ops.symm ▸ ho, fun hid => ?_⟩
        obtain rfl := w.db.ops.key_inj ho hop hid
        exact absurd (hdel.2.1.symm.trans hkind) (by simp)
      cases trashed with
      | false =>
        refine ⟨hphase.1, fun o ho => hphase.2.1 o (hexec.ops ▸ ((hafter.ops o).mp ho).1), .inl ?_⟩
        rw [TrackedFile.present, hafter.fs]
        exact hpresent rfl
      | true =>
        rcases hphase with ⟨-, -, hno⟩ | ⟨hlive, o, ho, hdel⟩
        · exact absurd hfetch (hno op hop)
        · exact .inr ⟨hlive, o, hstill o ho hdel, hdel⟩

/-! ## All runs -/

/-- What happens elsewhere. -/
lemma Inv.elsewhere (h : Inv t w trashed) (hs : Spares t w w') : Inv t w' trashed := by
  obtain ⟨at', hheld, hphase⟩ := h
  have hops : ∀ {P : PendingOperation → Prop}, (∀ o, P o → o.syncItemId = t.row.id) →
      ((∃ o ∈ w'.db.ops, P o) ↔ ∃ o ∈ w.db.ops, P o) := fun hP =>
    exists_congr fun o => and_congr_left fun hp => hs.ops o (hP o hp)
  have hdeletes := hops (P := t.IsDelete) fun o ho => ho.1
  have hfetches := hops (P := t.IsFetch) fun o ho => ho.1
  refine ⟨at', ⟨(hs.rows (t.rowAt at') (.inl rfl)).mpr hheld.row, fun s hmem hremote => ?_, ?_,
    hs.free.trans hheld.free, fun o ho hitem => hheld.ops o ((hs.ops o hitem).mp ho) hitem⟩, ?_⟩
  · exact hheld.only s ((hs.rows s (.inr hremote)).mp hmem) hremote
  · obtain ⟨g, hg, hcontent⟩ := hheld.object
    obtain ⟨g', hg', hsame⟩ := hs.object g hg
    exact ⟨g', hg', hsame.trans hcontent⟩
  · cases trashed with
    | false =>
      obtain ⟨hlive, hno, hfile⟩ := hphase
      refine ⟨hlive, fun o ho hdel => ?_, ?_⟩
      · exact hno o ((hs.ops o hdel.1).mp ho) hdel
      · rw [hs.present, hfetches]
        exact hfile
    | true =>
      rcases hphase with ⟨htomb, habsent, hno⟩ | ⟨hlive, hdelete⟩
      · exact .inl ⟨htomb, hs.present.trans habsent, fun o ho hf =>
          hno o ((hs.ops o hf.1).mp ho) hf⟩
      · exact .inr ⟨hlive, hdeletes.mpr hdelete⟩

/-- **Trash and restore.** For a tracked file in step, and trash and untrash changes delivered in
any order between steps of the dispatcher and everything else that leaves the file alone: if no
untrash is delivered while a deletion of the local copy is queued, and no deletion is executed
while a download is queued, then once the queue has drained the local copy and its row are as the
last delivered change says.

**Proof sketch.** The last change has taken effect or its operation is queued (`Inv.trash`,
`Inv.untrash`, `Inv.drain`, `Inv.elsewhere`); an empty queue leaves only the first. -/
theorem trash_agrees (t : TrackedFile env) {w₀ w : World} {trashed : Bool} (hstart : InStep t w₀)
    (hrun : Runs t (InOrder t) (w₀, false) (w, trashed)) (hempty : Drained w) :
    Agrees t w trashed := by
  have hinv : ∀ s, Runs t (InOrder t) (w₀, false) s → Inv t s.1 s.2 := by
    intro s hs
    induction hs with
    | start => exact ⟨none, hstart⟩
    | step _ meets next ih =>
      cases next with
      | deliver trashed =>
        cases trashed with
        | true => exact ih.trash
        | false => exact ih.untrash meets
      | drain root own => exact ih.drain own meets
      | elsewhere spares => exact ih.elsewhere spares
  obtain ⟨at', hheld, hphase⟩ := hinv _ hrun
  have hrow : ∀ s ∈ w.db.items, s.id = t.row.id → s.trashedAt = at' := fun s hs hid => by
    rw [ItemTable.id_inj hs hheld.row hid]
    rfl
  cases trashed with
  | false =>
    obtain ⟨rfl, -, hpresent | ⟨o, ho, -⟩⟩ := hphase
    · exact ⟨by simp [hpresent], by simpa using ⟨_, hheld.row, rfl, rfl⟩, by simp [hpresent],
        by simpa using hrow⟩
    · exact absurd ho (hempty o)
  | true =>
    rcases hphase with ⟨htomb, habsent, -⟩ | ⟨-, o, ho, -⟩
    · exact ⟨by simp [habsent], by simpa using fun s hs hid => hrow s hs hid ▸ htomb,
        by simp [habsent], by simpa using ⟨_, hheld.row, rfl, htomb⟩⟩
    · exact absurd ho (hempty o)

/-! ## A small file -/

/-- `a.txt`, in step. -/
def sampleTracked : TrackedFile .plain where
  row := ⟨1, ["a.txt"], .file, some (.id 3), some 1, some "A", .pendingLocal, none⟩
  file := ⟨.id 3, "a.txt", "text/plain", some 1, some "A", [.id 2], false⟩
  content := [65]
  kind := rfl
  bound := rfl
  live := rfl
  print := ⟨by decide, rfl⟩
  described := ⟨by decide, rfl⟩
  regular := ⟨by decide, by decide⟩

/-- The file is trashed or restored on Drive. -/
def delivered (trashed : Bool) (w : World) : World :=
  (runTask .plain (Continuous.applyRemote .plain (sampleTracked.change trashed)) w).2

/-- The dispatcher takes an operation. -/
def drained (w : World) : World := (runTask .plain (Dispatcher.drainOne .plain (.id 2)) w).2

/-- The kinds of the queued operations. -/
def kinds (w : World) : List Operation := w.db.ops.table.rows.map PendingOperation.op

lemma op_mem_kinds {o : PendingOperation} (h : o ∈ w.db.ops) : o.op ∈ kinds w :=
  List.mem_map_of_mem (Data.Serial.mem_def.mp h)

lemma drained_of_kinds (h : kinds w = []) : Drained w := by
  intro o ho
  have hop := op_mem_kinds ho
  rw [h] at hop
  cases hop

lemma sample_inStep : InStep sampleTracked sampleSynced := by
  have hrows : sampleSynced.db.items.rows = [sampleTracked.row] := by decide +kernel
  have hmem : ∀ s, s ∈ sampleSynced.db.items ↔ s = sampleTracked.row := by
    intro s
    rw [← ItemTable.mem_rows, hrows, List.mem_singleton]
  have hempty : Drained sampleSynced := drained_of_kinds (by decide +kernel)
  have hobject : sampleSynced.remote.drive.file (.id 3) =
      some ⟨3, "a.txt", "text/plain", some [65], [2], false, true, true⟩ := by decide +kernel
  have hpresent : sampleSynced.fs.isFile ["a.txt"] = true := by decide +kernel
  refine ⟨⟨(hmem _).mpr rfl, fun s hs _ => (hmem s).mp hs ▸ rfl, ⟨_, hobject, rfl⟩,
    by decide +kernel, fun o ho => absurd ho (hempty o)⟩, rfl, fun o ho => absurd ho (hempty o), ?_⟩
  exact .inl hpresent

/-- What the dispatcher takes next belongs to the file. -/
lemma own_of_map (h : (OpTable.nextDue w.db.ops w.now).map PendingOperation.syncItemId = some 1) :
    ∀ o, OpTable.nextDue w.db.ops w.now = some o → o.syncItemId = sampleTracked.row.id := by
  intro o ho
  rw [ho] at h
  exact Option.some.inj h

/-- The file is restored on Drive before the dispatcher has deleted the local copy: the copy is
deleted all the same, and the row becomes a tombstone. -/
theorem early_untrash_loses_file :
    InStep sampleTracked sampleSynced ∧ ∃ w, Runs sampleTracked (fun _ _ => True)
      (sampleSynced, false) (w, false) ∧ Drained w ∧ sampleTracked.present w = false ∧
        ¬Agrees sampleTracked w false := by
  have hrun : Runs sampleTracked (fun _ _ => True) (sampleSynced, false)
      (drained (delivered false (delivered true sampleSynced)), false) := by
    refine .step (.step (.step .start trivial (.deliver true)) trivial (.deliver false)) trivial
      (.drain (.id 2) (own_of_map ?_))
    decide +kernel
  have habsent : sampleTracked.present
      (drained (delivered false (delivered true sampleSynced))) = false := by decide +kernel
  refine ⟨sample_inStep, _, hrun, drained_of_kinds (by decide +kernel), habsent, fun h => ?_⟩
  rw [h.present.mpr rfl] at habsent
  cases habsent

/-- The file is restored after the dispatcher has deleted the local copy: it comes back. -/
theorem late_untrash_restores_file :
    Agrees sampleTracked
      (drained (delivered false (drained (delivered true sampleSynced)))) false := by
  have htrash : Runs sampleTracked (InOrder sampleTracked) (sampleSynced, false)
      (delivered true sampleSynced, true) :=
    .step .start (show InOrder sampleTracked _ (.deliver true) from trivial) (.deliver true)
  have hdelete : Runs sampleTracked (InOrder sampleTracked) (sampleSynced, false)
      (drained (delivered true sampleSynced), true) := by
    refine .step htrash ?_ (.drain (.id 2) (own_of_map ?_))
    · intro _ _ _ _ o ho hfetch
      have hkinds : kinds (delivered true sampleSynced) = [.deleteLocal] := by decide +kernel
      have hop := op_mem_kinds ho
      rw [hkinds, hfetch.2.1] at hop
      simp at hop
    · decide +kernel
  have huntrash : Runs sampleTracked (InOrder sampleTracked) (sampleSynced, false)
      (delivered false (drained (delivered true sampleSynced)), false) := by
    refine .step hdelete ?_ (.deliver false)
    exact fun o ho => absurd ho (drained_of_kinds (by decide +kernel) o)
  have hfetch : Runs sampleTracked (InOrder sampleTracked) (sampleSynced, false)
      (drained (delivered false (drained (delivered true sampleSynced))), false) := by
    refine .step huntrash ?_ (.drain (.id 2) (own_of_map ?_))
    · intro o hnext _ hdel
      have hkinds : kinds (delivered false (drained (delivered true sampleSynced))) =
          [.download] := by decide +kernel
      have hop := op_mem_kinds (OpTable.nextDue_mem hnext).1
      rw [hkinds, hdel.2.1] at hop
      simp at hop
    · decide +kernel
  exact trash_agrees sampleTracked sample_inStep hfetch (drained_of_kinds (by decide +kernel))

end AirDrive.Restore
