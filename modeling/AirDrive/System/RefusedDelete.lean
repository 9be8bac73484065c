import AirDrive.Daemon.Outcomes
import AirDrive.System.Footprint
import AirDrive.System.KindSteps

set_option relaxedAutoImplicit false
set_option autoImplicit false

/-!
# A deletion that Drive refuses

When Drive lets the user neither trash an object nor take it out of My Drive, the dispatcher marks
the row as skipped, so that neither side syncs it again. Creations and modifications at its path and
the startup scan heed the mark. A deletion or a rename at its path does not, and neither do most of
the changes of the object: these steps queue operations for the row as for any other.

## Main definitions

* `AirDrive.RefusedDelete.Refuses` — the drain loop comes to a deletion that is refused.
* `AirDrive.RefusedDelete.resyncs` — the operations that a skipped row should be spared.
* `AirDrive.RefusedDelete.Spares` — the steps that do not lead to a handler that ignores the mark.
* `AirDrive.RefusedDelete.Inert` — the row is skipped, and nothing was queued for it.

## Main results

* `AirDrive.RefusedDelete.inert_call` — what a call keeps.
* `AirDrive.RefusedDelete.safe_applyLocal`, `AirDrive.RefusedDelete.safe_startupLocalScan`,
  `AirDrive.RefusedDelete.safe_applyRemote`, `AirDrive.RefusedDelete.safe_drainOne` — the jobs.
* `AirDrive.RefusedDelete.refused_stays_quiet` — runs of steps that spare the row.
-/

namespace AirDrive.RefusedDelete

open Effect Dispatcher Continuous Calls Outcomes Kinds KindSafety

variable {env : Env} {i : ItemId} {first : OpId} {P : RelPath → Prop} {w w₁ : World} {α : Type}

/-! ## Rows that are left alone -/

/-- The operations that bring the two sides in step: these a skipped row should be spared. -/
def resyncs : Operation → Bool
  | .upload => true
  | .download => true
  | .deleteRemote => true
  | .renameRemote => true
  | .renameLocal => true
  | _ => false

/-- The row is skipped, as long as there is one, its path is one of a set, and nothing that would
sync it was queued since an operation was the next one. -/
structure Inert (i : ItemId) (first : OpId) (P : RelPath → Prop) (w : World) : Prop where
  /-- The id is not that of a row to come. -/
  known : i < w.db.items.nextId
  /-- The row is skipped. -/
  skipped : ∀ r ∈ w.db.items, r.id = i → r.state = .skipped
  /-- Where the row is. -/
  place : ∀ r ∈ w.db.items, r.id = i → P r.relativePath
  /-- What was queued for it. -/
  quiet : ∀ o ∈ w.db.ops, o.syncItemId = i → first ≤ o.id → resyncs o.op = false

/-- The call neither queues such an operation for the row nor takes the mark from it, and it moves no
row, unless the row may be anywhere. -/
def Leaves (i : ItemId) (P : RelPath → Prop) {β : Type} : Call β → Prop
  | .db (.enqueue item op _ _) => item = i → resyncs op = false
  | .db (.setState id state) => id = i → state = .skipped
  | .db (.setRelativePath _ _) => ∀ q, P q
  | .db (.renameSubtree _ _) => ∀ q, P q
  | _ => True

section Calls

/-- **A call** that leaves the row alone keeps it inert. -/
lemma inert_call {β : Type} {c : Call β} (h : Inert i first P w) (hc : Leaves i P c) :
    Inert i first P (handle env β c w).2 := by
  cases c with
  | db c =>
    have hrow : ∀ r ∈ (c.run w.db).2.items, r.id = i → r.state = .skipped ∧ P r.relativePath := by
      intro r hr hid
      rcases DbCall.mem_items_run hr with ⟨s, hs, hsid, hchange⟩ | ⟨new, -, rfl⟩
      · have hskipped := h.skipped s hs (hsid.trans hid)
        have hplace := h.place s hs (hsid.trans hid)
        cases c with
        | setRelativePath id rel =>
          obtain ⟨p, rfl⟩ := hchange
          exact ⟨hskipped, hc _⟩
        | renameSubtree old new =>
          obtain ⟨p, rfl⟩ := hchange
          exact ⟨hskipped, hc _⟩
        | setState id state =>
          rcases hchange with rfl | ⟨hown, rfl⟩
          · exact ⟨hskipped, hplace⟩
          · exact ⟨hc (hown.symm.trans hid), hplace⟩
        | setRemoteId id rid => rcases hchange with rfl | ⟨-, rfl⟩ <;> exact ⟨hskipped, hplace⟩
        | updateFingerprint id size md5 =>
          rcases hchange with rfl | ⟨-, rfl⟩ <;> exact ⟨hskipped, hplace⟩
        | markTrashed id at' => rcases hchange with rfl | ⟨-, rfl⟩ <;> exact ⟨hskipped, hplace⟩
        | clearTrashed id => rcases hchange with rfl | ⟨-, rfl⟩ <;> exact ⟨hskipped, hplace⟩
        | _ =>
          obtain rfl : r = s := hchange
          exact ⟨hskipped, hplace⟩
      · exact absurd hid h.known.ne'
    refine ⟨h.known.trans_le (DbCall.nextId_le_run c w.db), fun r hr hid => (hrow r hr hid).1,
      fun r hr hid => (hrow r hr hid).2, fun o ho hitem hnew => ?_⟩
    rcases DbCall.mem_ops_run ho with ⟨o', ho', hid, hitem', hop, -⟩ | ⟨hqueued, -⟩
    · exact hop ▸ h.quiet o' ho' (hitem'.trans hitem) (hid ▸ hnew)
    · cases c with
      | enqueue item op payload now =>
        simp only [DbCall.enqueues, Option.some.injEq, Prod.mk.injEq] at hqueued
        exact hqueued.2.1 ▸ hc (hqueued.1.trans hitem)
      | _ => cases hqueued
  | _ => exact ⟨h.known, h.skipped, h.place, h.quiet⟩

/-- A program of such calls. -/
lemma safe_leaves {q : Task α} (hq : q.Only fun _ c => Leaves i P c) :
    q.Safe (handle env) (.solo (Inert i first P)) Prog.Any w :=
  hq.safe (J := fun _ => True) (fun _ _ _ hc hI _ => ⟨inert_call hI hc, trivial⟩) trivial

lemma leaves_of_still {β : Type} {c : Call β} (hc : still c = true) : Leaves i P c := by
  cases c with
  | db c => cases c <;> trivial
  | _ => trivial

/-- A program that only looks. -/
lemma safe_still {q : Task α} (hq : q.Only fun _ c => still c = true) :
    q.Safe (handle env) (.solo (Inert i first P)) (fun _ w' => w'.db = w.db ∧ w'.fs = w.fs) w := by
  refine hq.safe (fun β c w' hc hI hJ => ⟨inert_call hI (leaves_of_still hc), ?_⟩) ⟨rfl, rfl⟩
  obtain ⟨hdb, hfs⟩ := still_handle env w' hc
  exact ⟨hdb.trans hJ.1, hfs.trans hJ.2⟩

lemma leaves_of_handled {β : Type} {c : Call β} (hP : ∀ q, P q)
    (hc : handling c = true ∧ ∀ e, effortOf c = some e → False) : Leaves i P c := by
  cases c with
  | db c =>
    cases c with
    | enqueue item op payload now => exact (hc.2 _ rfl).elim
    | setState id state => cases hc.1
    | setRelativePath id rel => exact hP
    | renameSubtree old new => cases hc.1
    | _ => trivial
  | _ => trivial

/-- A part of a handler that queues nothing. -/
lemma safe_handled {q : Task α} (hP : ∀ q, P q) (hq : Handled (fun _ => False) q) :
    q.Safe (handle env) (.solo (Inert i first P)) Prog.Any w :=
  safe_leaves (hq.mono fun _ _ => leaves_of_handled hP)

/-- Queueing an operation. -/
lemma leaves_enqueueOp {item : ItemId} {op : Operation} {payload : Option Payload}
    (h : item = i → resyncs op = false) :
    (enqueueOp item op payload).Only fun _ c => Leaves i P c := by
  refine Prog.Only.bind ⟨trivial, fun _ => trivial⟩ fun now => ?_
  exact Prog.Only.bind ⟨h, fun x => Prog.only_ofExcept x⟩ fun _ => trivial

/-- A row that is inserted is another one. -/
lemma safe_insert {new : NewSyncItem} {f : ItemId → Task Unit}
    (hf : ∀ j, j ≠ i → (f j).Only fun _ c => Leaves i P c) :
    ((sqlTry (.insertItem new)).bind f).Safe (handle env) (.solo (Inert i first P)) Prog.Any w := by
  refine Prog.safe_bind.mpr ((safe_sqlTry _).mpr fun hI =>
    ⟨@inert_call env i first P w _ (.db (.insertItem new)) hI trivial, ?_⟩)
  cases hid : (DbCall.run (.insertItem new) w.db).1 with
  | error e => trivial
  | ok j =>
    refine safe_leaves (hf j ?_)
    simp only [DbCall.run, Db.insertItem] at hid
    split_ifs at hid with hfree
    exact Except.ok.inj hid ▸ hI.known.ne'

end Calls

/-! ## Events and the startup scan -/

section Events

variable {p : RelPath}

lemma safe_enqueueLocalDir : (enqueueLocalDir p).Safe (handle env) (.solo (Inert i first P))
    Prog.Any w := by
  refine Prog.Safe.bind (safe_still (q := sql (.getByRelativePath p)) ⟨rfl, fun _ => trivial⟩)
    (fun row w₁ _ => ?_) fun _ _ _ => trivial
  cases row with
  | some item => trivial
  | none => exact safe_insert fun j _ => leaves_enqueueOp fun _ => rfl

/-- **A file with a skipped row** is not uploaded. -/
lemma safe_enqueueLocalFile : (enqueueLocalFile p).Safe (handle env) (.solo (Inert i first P))
    Prog.Any w := by
  refine Prog.safe_bind.mpr ((safe_sql _).mpr fun hI => ⟨hI, ?_⟩)
  simp only [DbCall.run]
  cases hrow : w.db.items.getByRelativePath p with
  | some item =>
    simp only
    split
    · trivial
    · next hstate =>
      refine safe_leaves (leaves_enqueueOp fun hid => ?_)
      exact absurd (hI.skipped item (ItemTable.getByRelativePath_eq_some.mp hrow).1 hid) hstate
  | none => exact safe_insert fun j hj => leaves_enqueueOp fun hid => absurd hid hj

/-- **A created or modified path.** -/
lemma safe_applyCreated : (applyCreated p).Safe (handle env) (.solo (Inert i first P))
    Prog.Any w := by
  refine Prog.Safe.bind (safe_still (q := io (.isDir p)) ⟨rfl, fun _ => trivial⟩)
    (fun isDir w₁ _ => ?_) fun _ _ _ => trivial
  split
  · refine Prog.Safe.bind safe_enqueueLocalDir (fun _ w₂ _ => ?_) fun _ _ _ => trivial
    refine Prog.Safe.bind (safe_still (q := io (.walk p)) ⟨rfl, fun _ => trivial⟩)
      (fun entries w₃ _ => ?_) fun _ _ _ => trivial
    refine Prog.Safe.forEach (fun _ => True) trivial (fun e _ w₄ _ => ?_) fun _ _ => trivial
    unfold enqueueLocalEntry
    split
    · exact safe_enqueueLocalDir.mono fun x _ _ => by cases x <;> trivial
    · exact safe_enqueueLocalFile.mono fun x _ _ => by cases x <;> trivial
  · refine Prog.Safe.bind (safe_still (q := io (.isFile p)) ⟨rfl, fun _ => trivial⟩)
      (fun isFile w₂ _ => ?_) fun _ _ _ => trivial
    split
    · exact safe_enqueueLocalFile
    · trivial

/-- The open conflicts of a path are dropped, which leaves the rows alone. -/
lemma safe_cleanup : (Conflict.cleanupOnLocalDelete p).Safe (handle env)
    (.solo (Inert i first P)) (fun _ w' => w'.db.items = w.db.items) w := by
  refine Prog.Safe.bind (safe_still (q := sql .listUnresolved) ⟨rfl, fun _ => trivial⟩)
    (fun rows w₁ hsame => ?_) fun _ _ h => by rw [h.1]
  refine Prog.Safe.forEach (fun w' => w'.db.items = w.db.items) (by rw [hsame.1])
    (fun row _ w₂ hitems => ?_) fun _ h => h
  split
  · exact (safe_sql _).mpr fun hI =>
      ⟨@inert_call env i first P w₂ _ (.db (.deleteConflict row.id)) hI trivial, hitems⟩
  · exact hitems

/-- **A deleted path**, when it is not that of the row, or the row is a tombstone. -/
lemma safe_applyDeleted (h : ∀ r, w.db.items.getByRelativePath p = some r → r.id = i →
    r.trashedAt ≠ none) :
    (applyDeleted p).Safe (handle env) (.solo (Inert i first P)) Prog.Any w := by
  refine Prog.Safe.bind safe_cleanup (fun _ w₁ hitems => ?_) fun _ _ _ => trivial
  refine Prog.safe_bind.mpr ((safe_sql _).mpr fun hI => ⟨hI, ?_⟩)
  simp only [DbCall.run, hitems]
  cases hrow : w.db.items.getByRelativePath p with
  | none => trivial
  | some item =>
    simp only
    split
    · trivial
    · next hlive =>
      split
      · exact safe_leaves (leaves_enqueueOp fun hid => absurd (h item hrow hid) hlive)
      · exact safe_leaves ⟨trivial, fun _ => trivial⟩

/-- **A renamed path**, when it is not that of the row. -/
lemma safe_applyRenamed {from' to' : RelPath} (hP : ∀ q, P q)
    (h : ∀ r, w.db.items.getByRelativePath from' = some r → r.id ≠ i) :
    (applyRenamed from' to').Safe (handle env) (.solo (Inert i first P)) Prog.Any w := by
  refine Prog.safe_bind.mpr ((safe_sql _).mpr fun hI => ⟨hI, ?_⟩)
  simp only [DbCall.run]
  cases hrow : w.db.items.getByRelativePath from' with
  | none => exact safe_applyCreated
  | some item =>
    have hne := h item hrow
    simp only
    split
    · exact safe_leaves (Prog.Only.bind ⟨hP, fun _ => trivial⟩ fun _ =>
        leaves_enqueueOp fun hid => absurd hid hne)
    · exact safe_leaves (leaves_enqueueOp fun hid => absurd hid hne)

lemma safe_scanEntry {e : Fs.LocalEntry} : (StartupScan.scanEntry env e).Safe (handle env)
    (.solo (Inert i first P)) Prog.Any w := by
  unfold StartupScan.scanEntry
  split
  · trivial
  · refine Prog.Safe.bind (safe_still (q := sql (.getByRelativePath e.relativePath))
      ⟨rfl, fun _ => trivial⟩) (fun row w₁ _ => ?_) fun _ _ _ => trivial
    split
    · cases row with
      | none => exact safe_applyCreated
      | some item => trivial
    · cases row with
      | none => exact safe_applyCreated
      | some item =>
        simp only
        split
        · trivial
        · refine Prog.Safe.bind (safe_still (computeLocal_still _)) (fun print w₂ _ => ?_)
            fun _ _ _ => trivial
          split
          · refine Prog.Safe.bind (safe_still (remoteMatchesSynced_still item))
              (fun same w₃ _ => ?_) fun _ _ _ => trivial
            split
            · exact safe_applyCreated
            · trivial
          · trivial

/-- A row that is not at the path of the skipped one. -/
lemma safe_scanRow {entries : List Fs.LocalEntry} {item : SyncItem}
    (h : item.state ≠ .skipped → ¬P item.relativePath) :
    (StartupScan.scanRow env entries item).Safe (handle env) (.solo (Inert i first P))
      Prog.Any w := by
  unfold StartupScan.scanRow
  split
  · next hvanished =>
    refine Prog.Safe.bind (safe_still (remoteMatchesSynced_still item)) (fun same w₁ _ => ?_)
      fun _ _ _ => trivial
    split
    · have hstate : item.state ≠ .skipped := by
        simp only [StartupScan.vanished, Bool.and_eq_true, decide_eq_true_eq] at hvanished
        exact hvanished.1.1.1.2
      refine Prog.Safe.of_assumed fun hI => safe_applyDeleted fun r hr hid => ?_
      obtain ⟨hmem, hpath⟩ := ItemTable.getByRelativePath_eq_some.mp hr
      exact absurd (hpath ▸ hI.place r hmem hid) (h hstate)
    · trivial
  · trivial

/-- **The startup scan.** The rows are where they were listed, so that none of those that it looks at
is at the path of the skipped one. -/
lemma safe_startupLocalScan : (StartupScan.startupLocalScan env).Safe (handle env)
    (.solo (Inert i first P)) Prog.Any w := by
  refine Prog.Safe.bind (safe_still (q := io (.walk [])) ⟨rfl, fun _ => trivial⟩)
    (fun entries w₁ _ => ?_) fun _ _ _ => trivial
  refine Prog.Safe.bind (P := Prog.Any) (Prog.Safe.forEach (fun _ => True) trivial
    (fun e _ w₂ _ => safe_scanEntry.mono fun x _ _ => by cases x <;> trivial) fun _ _ => trivial)
    (fun _ w₂ _ => ?_) fun _ _ _ => trivial
  refine Prog.safe_bind.mpr ((safe_sql _).mpr fun hI => ⟨hI, ?_⟩)
  simp only [DbCall.run]
  set here : RelPath → Prop := fun q => P q ∧ ∃ r ∈ w₂.db.items, r.id = i ∧ r.relativePath = q
  have hhere : Inert i first here w₂ := ⟨hI.known, hI.skipped,
    fun r hr hid => ⟨hI.place r hr hid, r, hr, hid, rfl⟩, hI.quiet⟩
  have hloop : (Prog.forEach w₂.db.items.listForMapping (StartupScan.scanRow env entries)).Safe
      (handle env) (.solo (Inert i first here)) Prog.Any w₂ := by
    refine Prog.Safe.forEach (fun _ => True) trivial (fun item hitem w₃ _ => ?_) fun _ _ => trivial
    refine (safe_scanRow fun hstate => ?_).mono fun x _ _ => by cases x <;> trivial
    rintro ⟨-, r, hr, hid, hpath⟩
    obtain rfl := ItemTable.path_inj hr (ItemTable.mem_listForMapping.mp hitem) hpath
    exact hstate (hI.skipped r hr hid)
  exact (Prog.Safe.of_inv (fun w' h => ⟨h.known, h.skipped, fun r hr hid => (h.place r hr hid).1,
    h.quiet⟩) hloop hhere).mono fun _ _ _ => trivial

end Events

/-! ## Changes -/

/-- The local copy of the row has the content of the MD5. -/
def HasContent (env : Env) (w : World) (r : SyncItem) (md5 : String) : Prop :=
  r.md5 ≠ none ∧ ∃ b, w.fs.node r.relativePath = some (.file b) ∧ env.md5 b = md5

/-- The rename of a directory explains where the file of the row is now. -/
def Explains (w : World) (r : SyncItem) (file : FileResource) (rel : RelPath) (dir : SyncItem) :
    Prop :=
  r.relativePath.parentDir ≠ rel.parentDir ∧ r.relativePath.parentDir ≠ [] ∧
    w.db.items.getByRelativePath r.relativePath.parentDir = some dir ∧
      ∃ id, file.parents.head? = some id ∧ dir.remoteId = some id

/-- The change of a live regular file, which has a row, spares the row `i`. -/
structure SparesFile (env : Env) (i : ItemId) (w : World) (c : RemoteChange) (file : FileResource)
    (md5 : String) (r : SyncItem) : Prop where
  /-- It restores no tombstone. -/
  live : r.id = i → r.trashedAt = none
  /-- A new path is explained by the rename of another directory, or it is that of another row. -/
  moved : r.trashedAt = none → ∀ rel, c.relativePath = some rel → rel ≠ r.relativePath →
    (∀ dir, Explains w r file rel dir → dir.id ≠ i) ∧ (r.id = i → ∃ dir, Explains w r file rel dir)
  /-- At the old path the content is the recorded one, or the local copy has it. -/
  content : r.id = i → (∀ rel, c.relativePath = some rel → rel = r.relativePath) →
    sameFingerprint r file md5 = true ∨ HasContent env w r md5

/-- The change of a live object spares the row: the path of a folder or a pointer is that of the row,
and see `SparesFile` for a regular file. -/
def SparesObject (env : Env) (i : ItemId) (w : World) (c : RemoteChange) (file : FileResource) :
    Prop :=
  ∀ r, w.db.items.getByRemoteId c.fileId = some r →
    if file.isFolder then r.id = i → r.relativePath = c.path file
    else if Shortcut.isNative file.mimeType then
      r.id = i → r.relativePath = Shortcut.relativePath (c.path file) file.mimeType
    else ∀ md5, file.md5 = some md5 → SparesFile env i w c file md5 r

/-- The change spares the row: the object is in flight, or it is removed or trashed, or
`SparesObject`. -/
def SparesChange (env : Env) (i : ItemId) (w : World) (c : RemoteChange) : Prop :=
  w.inFlight.contains c.fileId = false → c.removed = false →
    ∀ file, c.file = some file → file.trashed = false → SparesObject env i w c file

/-- The changes spare the row, each in the state that the ones before it leave. -/
def SparesChanges (env : Env) (i : ItemId) : World → List RemoteChange → Prop
  | _, [] => True
  | w, c :: changes =>
    SparesChange env i w c ∧ SparesChanges env i (runTask env (applyRemote env c) w).2 changes

section Changes

variable {c : RemoteChange} {file : FileResource} {md5 : String} {r : SyncItem}

lemma leaves_openConflict (hP : ∀ q, P q) {item : ItemId} {rel : RelPath} {now : ℕ} :
    (Conflict.openConflict item rel now).Only fun _ c => Leaves i P c :=
  (handled_openConflict (S := fun _ => False)).mono fun _ _ => leaves_of_handled hP

/-- The code finds the directory whose rename explains the path. -/
lemma safe_renamedDir {rel : RelPath} : (renamedDir r file rel).Safe (handle env)
    (.solo (Inert i first P)) (fun x _ =>
      ∀ found, x = .ok found → ∀ dir, found = some dir ↔ Explains w r file rel dir) w := by
  have hnone : (¬∃ dir, Explains w r file rel dir) → ∀ found, (.ok none : Except Error _) = .ok found →
      ∀ dir, found = some dir ↔ Explains w r file rel dir := by
    intro h found hfound dir
    obtain rfl := Except.ok.inj hfound
    exact ⟨fun heq => (by cases heq), fun hdir => absurd ⟨dir, hdir⟩ h⟩
  unfold renamedDir
  cases hhead : file.parents.head? with
  | none =>
    refine hnone ?_
    rintro ⟨dir, -, -, -, id, hid, -⟩
    rw [hhead] at hid
    cases hid
  | some id =>
    simp only
    split
    · next hparents =>
      refine Prog.safe_bind.mpr ((safe_sql _).mpr fun hI => ⟨hI, ?_⟩)
      simp only [DbCall.run]
      cases hrow : w.db.items.getByRelativePath r.relativePath.parentDir with
      | none =>
        refine hnone ?_
        rintro ⟨dir, -, -, hdir, -⟩
        rw [hrow] at hdir
        cases hdir
      | some dir =>
        simp only
        split
        · next hbound =>
          intro found hfound dir'
          obtain rfl := Except.ok.inj hfound
          constructor
          · rintro ⟨⟩
            exact ⟨hparents.1, hparents.2, hrow, id, hhead, hbound⟩
          · exact fun h => hrow.symm.trans h.2.2.1
        · next hbound =>
          refine hnone ?_
          rintro ⟨dir', -, -, hdir, id', hid, hbound'⟩
          obtain rfl := Option.some.inj (hdir.symm.trans hrow)
          exact hbound (hbound'.trans (hid.symm.trans hhead))
    · next hparents =>
      refine hnone ?_
      rintro ⟨dir, hne, htop, -⟩
      exact hparents ⟨hne, htop⟩

/-- A file whose path changed. -/
lemma safe_applyMoved {rel : RelPath} (hdirs : ∀ dir, Explains w r file rel dir → dir.id ≠ i)
    (hown : r.id = i → ∃ dir, Explains w r file rel dir) :
    (applyMoved r file md5 rel).Safe (handle env) (.solo (Inert i first P)) Prog.Any w := by
  refine Prog.Safe.bind safe_renamedDir (fun found w₁ hfound => ?_) fun _ _ _ => trivial
  replace hfound := hfound found rfl
  cases found with
  | some dir =>
    exact safe_leaves (leaves_enqueueOp fun hid => absurd hid (hdirs dir ((hfound dir).mp rfl)))
  | none =>
    have hne : r.id ≠ i := by
      intro hid
      obtain ⟨dir, hdir⟩ := hown hid
      cases (hfound dir).mpr hdir
    refine safe_leaves ((leaves_enqueueOp fun hid => absurd hid hne).bind fun _ => ?_)
    split
    · trivial
    · exact leaves_enqueueOp fun hid => absurd hid hne

/-- What the code finds of a local copy that has the content. -/
lemma safe_localVersion (hcontent : HasContent env w r md5) : (localVersion env r md5).Safe
    (handle env) (.solo (Inert i first P)) (fun x _ => x = .ok .agrees) w := by
  obtain ⟨hmd5, b, hnode, hsame⟩ := hcontent
  obtain ⟨synced, hsynced⟩ := Option.ne_none_iff_exists'.mp hmd5
  refine Prog.safe_bind.mpr ((safe_io _).mpr fun hI => ⟨hI, ?_⟩)
  have hfile : w.fs.isFile r.relativePath = true := Fs.isFile_iff.mpr ⟨b, hnode⟩
  have hread : w.fs.readFile r.relativePath = .ok b := by simp only [Fs.readFile, hnode]
  simp only [FsCall.run, hfile, if_true, hsynced]
  refine Prog.safe_bind.mpr ((safe_io _).mpr fun hI => ⟨hI, ?_⟩)
  simp only [FsCall.run, hread, hsame, if_true]
  rfl

/-- A file at its path. -/
lemma safe_applyEdited (hP : ∀ q, P q)
    (h : r.id = i → sameFingerprint r file md5 = true ∨ HasContent env w r md5) :
    (applyEdited env r file md5).Safe (handle env) (.solo (Inert i first P)) Prog.Any w := by
  unfold applyEdited
  split
  · trivial
  · next hprint =>
    by_cases hid : r.id = i
    · refine Prog.Safe.bind (safe_localVersion ((h hid).resolve_left hprint)) (fun x w₁ hx => ?_)
        fun _ _ _ => trivial
      obtain rfl := Except.ok.inj hx
      trivial
    · have hdown : ∀ w', (enqueueDownload r.id file md5 r.relativePath).Safe (handle env)
          (.solo (Inert i first P)) Prog.Any w' := fun w' =>
        safe_leaves (leaves_enqueueOp fun heq => absurd heq hid)
      refine Prog.Safe.bind (safe_handled hP handled_localVersion) (fun x w₁ _ => ?_)
        fun _ _ _ => trivial
      cases x with
      | agrees => trivial
      | behind => exact hdown w₁
      | edited =>
        refine safe_leaves (Prog.Only.bind ⟨trivial, fun _ => trivial⟩ fun now => ?_)
        exact (leaves_openConflict hP).bind fun _ => leaves_enqueueOp fun heq => absurd heq hid

/-- A live regular file. -/
lemma safe_applyFile (hP : ∀ q, P q)
    (h : ∀ r, w.db.items.getByRemoteId c.fileId = some r → SparesFile env i w c file md5 r) :
    (applyFile env c file md5).Safe (handle env) (.solo (Inert i first P)) Prog.Any w := by
  refine Prog.safe_bind.mpr ((safe_sql _).mpr fun hI => ⟨hI, ?_⟩)
  simp only [DbCall.run]
  cases hrow : w.db.items.getByRemoteId c.fileId with
  | some item =>
    have hspares := h item hrow
    simp only
    split
    · next htomb =>
      have hne : item.id ≠ i := fun hid => htomb (hspares.live hid)
      exact safe_leaves (Prog.Only.bind ⟨trivial, fun _ => trivial⟩ fun _ =>
        leaves_enqueueOp fun hid => absurd hid hne)
    · next hlive =>
      rw [not_not] at hlive
      cases hpath : c.relativePath with
      | none =>
        refine safe_applyEdited hP fun hid => hspares.content hid fun rel hrel => ?_
        rw [hpath] at hrel
        cases hrel
      | some rel =>
        simp only
        split
        · next hmoved =>
          obtain ⟨hdirs, hown⟩ := hspares.moved hlive rel hpath hmoved
          exact safe_applyMoved hdirs hown
        · next hsame =>
          rw [not_not] at hsame
          refine safe_applyEdited hP fun hid => hspares.content hid fun rel' hrel => ?_
          obtain rfl := Option.some.inj (hpath.symm.trans hrel)
          exact hsame
  | none =>
    refine Prog.safe_bind.mpr ((safe_sql _).mpr fun _ => ⟨hI, ?_⟩)
    simp only [DbCall.run]
    cases w.db.items.getByRelativePath (c.path file) with
    | some item => trivial
    | none => exact safe_insert fun j hj => leaves_enqueueOp fun hid => absurd hid hj

/-- A live folder. -/
lemma safe_applyFolder {rel : RelPath}
    (h : ∀ r, w.db.items.getByRemoteId c.fileId = some r → r.id = i → r.relativePath = rel) :
    (applyFolder c.fileId file rel).Safe (handle env) (.solo (Inert i first P)) Prog.Any w := by
  refine Prog.safe_bind.mpr ((safe_sql _).mpr fun hI => ⟨hI, ?_⟩)
  simp only [DbCall.run]
  cases hrow : w.db.items.getByRemoteId c.fileId with
  | some item =>
    simp only
    split
    · next hmoved => exact safe_leaves (leaves_enqueueOp fun hid => absurd (h item hrow hid) hmoved)
    · trivial
  | none =>
    refine Prog.safe_bind.mpr ((safe_sql _).mpr fun _ => ⟨hI, ?_⟩)
    simp only [DbCall.run]
    cases w.db.items.getByRelativePath rel with
    | some item => trivial
    | none => exact safe_insert fun j _ => leaves_enqueueOp fun _ => rfl

/-- A live native document. -/
lemma safe_applyNative {rel : RelPath}
    (h : ∀ r, w.db.items.getByRemoteId c.fileId = some r → r.id = i → r.relativePath = rel) :
    (applyNative c.fileId file rel).Safe (handle env) (.solo (Inert i first P)) Prog.Any w := by
  refine Prog.safe_bind.mpr ((safe_sql _).mpr fun hI => ⟨hI, ?_⟩)
  simp only [DbCall.run]
  cases hrow : w.db.items.getByRemoteId c.fileId with
  | some item =>
    simp only
    split
    · next hmoved => exact safe_leaves (leaves_enqueueOp fun hid => absurd (h item hrow hid) hmoved)
    · split
      · exact safe_leaves (Prog.Only.bind ⟨trivial, fun _ => trivial⟩ fun _ =>
          leaves_enqueueOp fun _ => rfl)
      · trivial
  | none => exact safe_insert fun j _ => leaves_enqueueOp fun _ => rfl

/-- The deletion of a local copy may be queued. -/
lemma leaves_applyRemoved : (applyRemoved c.fileId).Only fun _ c => Leaves i P c := by
  refine Prog.Only.bind ⟨trivial, fun _ => trivial⟩ fun row => ?_
  cases row with
  | none => trivial
  | some item => exact leaves_enqueueOp fun _ => rfl

lemma leaves_applyTrashed : (applyTrashed c.fileId).Only fun _ c => Leaves i P c := by
  refine Prog.Only.bind ⟨trivial, fun _ => trivial⟩ fun row => ?_
  cases row with
  | none => trivial
  | some item =>
    simp only
    split
    · exact leaves_enqueueOp fun _ => rfl
    · trivial

/-- **A change** that spares the row. -/
lemma safe_applyRemote (hP : ∀ q, P q) (h : SparesChange env i w c) :
    (applyRemote env c).Safe (handle env) (.solo (Inert i first P)) Prog.Any w := by
  refine (Prog.safe_call_solo _ _).mpr fun hI => ⟨hI, ?_⟩
  simp only [Prog.pure_bind, handle_inFlight]
  split
  · trivial
  · next hflight =>
    split
    · exact safe_leaves leaves_applyRemoved
    · next hremoved =>
      cases hfile : c.file with
      | none => trivial
      | some file =>
        simp only [applyPresent]
        split
        · exact safe_leaves leaves_applyTrashed
        · next htrashed =>
          have hspares := h (by simpa using hflight) (by simpa using hremoved) file hfile
            (by simpa using htrashed)
          split
          · next hfolder =>
            exact safe_applyFolder fun r hr hid => by simpa [hfolder, hid] using hspares r hr
          · next hfolder =>
            split
            · next hnative =>
              exact safe_applyNative fun r hr hid => by
                simpa [hfolder, hnative, hid] using hspares r hr
            · next hnative =>
              cases hmd5 : file.md5 with
              | none => trivial
              | some md5 =>
                refine safe_applyFile hP fun r hr => ?_
                have hobject := hspares r hr
                rw [if_neg hfolder, if_neg hnative] at hobject
                exact hobject md5 hmd5

/-- **A batch** whose changes spare the row. -/
lemma safe_applyBatch (hP : ∀ q, P q) {b : RemoteBatch} (h : SparesChanges env i w b.changes) :
    (Consumer.applyBatch env b).Safe (handle env) (.solo (Inert i first P)) Prog.Any w := by
  refine Prog.Safe.bind (P := Prog.Any) ?_ (fun all w₁ _ => ?_) fun _ _ _ => trivial
  · generalize b.changes = changes at h
    generalize true = allApplied
    induction changes generalizing w allApplied with
    | nil => trivial
    | cons c changes ih =>
      obtain ⟨hchange, hrest⟩ := h
      refine Prog.Safe.bind (P := fun _ w' => w' = (runTask env (applyRemote env c) w).2) ?_
        (fun applied w₁ hw₁ => ih (hw₁ ▸ hrest) applied) fun _ _ _ => trivial
      refine Prog.Safe.bind (P := fun _ w' => w' = (runTask env (applyRemote env c) w).2)
        (Prog.safe_attempt.mpr ((safe_applyRemote hP hchange).and_run.mono fun x w' hrun => ?_))
        (fun res w₁ hw₁ => ?_) fun _ _ h => h
      · rw [runTask, hrun.1]
      · cases res <;> exact hw₁
  · split
    · exact safe_leaves ⟨trivial, fun _ => trivial⟩
    · trivial

end Changes


/-! ## The other jobs -/

/-- The step spares the row: no deletion at its path while it is live, no rename from its path, no
change that `SparesChange` rules out, and no making of its local directory, which would mark it as in
step. -/
def Spares (env : Env) (i : ItemId) (w : World) : Action → Prop
  | .job (.event (.deleted p)) _ => ∀ r, w.db.items.getByRelativePath p = some r → r.id = i →
      r.trashedAt ≠ none
  | .job (.event (.renamed from' _)) _ => ∀ r, w.db.items.getByRelativePath from' = some r → r.id ≠ i
  | .job (.batch b) _ => SparesChanges env i w b.changes
  | .job (.drain _) _ => ∀ op item, Executes w op item → item.id = i → op.op ≠ .createDirLocal
  | _ => True

section Jobs

variable {root : FileId}

lemma leaves_of_booking {β : Type} {c : Call β} (hc : booking c = true) : Leaves i P c := by
  cases c with
  | db c => cases c <;> trivial
  | _ => trivial

lemma leaves_of_background {β : Type} {c : Call β} (hc : background c = true) : Leaves i P c := by
  cases c with
  | db c => cases c <;> trivial
  | _ => trivial

lemma leaves_of_records {β : Type} {c : Call β} (hc : Records (fun _ => True) c) : Leaves i P c := by
  cases c with
  | db c =>
    cases c with
    | insertItem new => trivial
    | getByRelativePath rel => trivial
    | setCursor token => trivial
    | _ => exact hc.elim
  | _ => trivial

/-- An operation of another row leaves the mark where it is. -/
lemma leaves_of_executing {item : SyncItem} (hP : ∀ q, P q) (hne : item.id ≠ i) {β : Type}
    {c : Call β} (hc : Executing item c) : Leaves i P c := by
  cases c with
  | db c =>
    cases c with
    | setState j state => exact fun hid => absurd (hc.1.symm.trans hid) hne
    | enqueue j op payload now => exact hc.elim
    | setRelativePath j rel => exact hP
    | renameSubtree old new => exact hP
    | _ => trivial
  | _ => trivial

/-- An operation of the row itself leaves the mark, unless it makes the local directory. -/
lemma leaves_of_works {item : SyncItem} (hP : ∀ q, P q) {β : Type} {c : Call β}
    (hc : Works item c) : Leaves i P c := by
  obtain ⟨hexec, hmark⟩ := hc
  cases c with
  | db c =>
    cases c with
    | setState j state =>
      rcases hexec.2 with rfl | rfl
      · cases hmark
      · exact fun _ => rfl
    | enqueue j op payload now => exact hexec.elim
    | setRelativePath j rel => exact hP
    | renameSubtree old new => exact hP
    | _ => trivial
  | _ => trivial

/-- **The drain loop.** -/
lemma safe_drainOne (hP : ∀ q, P q)
    (h : ∀ op item, Executes w op item → item.id = i → op.op ≠ .createDirLocal) :
    (drainOne env root).Safe (handle env) (.solo (Inert i first P)) Prog.Any w := by
  refine KindSafety.safe_drainOne (fun β c w' hc hI => inert_call hI (leaves_of_booking hc))
    fun op item hexec _ => ?_
  by_cases hid : item.id = i
  · exact safe_leaves ((works_executeItem (h op item hexec hid)).mono fun _ _ => leaves_of_works hP)
  · exact safe_leaves ((executing_executeItem env root op item).mono
      fun _ _ => leaves_of_executing hP hid)

lemma safe_void {q : Task α} (hq : q.Safe (handle env) (.solo (Inert i first P)) Prog.Any w) :
    (void q).Safe (handle env) (.solo (Inert i first P)) Prog.Any w :=
  Prog.Safe.bind hq (fun _ _ _ => trivial) fun _ _ _ => trivial

/-- **A job that spares the row** keeps it inert, call by call. -/
lemma safe_task {j : Job} {calls : ℕ} (h : Spares env i w (.job j calls)) :
    (j.task env).Safe (handle env) (.solo (Inert i first fun _ => True)) Prog.Any w := by
  cases j with
  | event ev =>
    cases ev with
    | created p => exact safe_applyCreated
    | modified p => exact safe_applyCreated
    | deleted p => exact safe_applyDeleted h
    | renamed from' to' => exact safe_applyRenamed (fun _ => trivial) h
  | batch b => exact safe_applyBatch (fun _ => trivial) h
  | drain root => exact safe_void (safe_drainOne (fun _ => trivial) h)
  | poll fuel root cache =>
    exact safe_void (safe_leaves (background_tick.mono fun _ _ => leaves_of_background))
  | scan => exact safe_startupLocalScan
  | initial fuel root =>
    exact safe_leaves ((records_initial (fun _ _ => trivial) (fun _ _ => trivial)
      fun _ _ _ _ _ => trivial).mono fun _ _ => leaves_of_records)
  | housekeeping =>
    exact safe_leaves (q := Start.housekeeping) ⟨trivial, fun _ => ⟨trivial, fun _ => trivial⟩⟩
  | ensureRoot mayCreate m =>
    exact safe_void (safe_leaves (background_ensureRemoteRoot.mono fun _ _ => leaves_of_background))
  | map autoCreate confirmed localPath spec =>
    exact safe_leaves (background_map.mono fun _ _ => leaves_of_background)

/-- **Runs of steps that spare the row.** -/
lemma inert_of_runs {w₀ : World} (h₀ : Inert i first (fun _ => True) w₀)
    (h : Runs env (Spares env i) w₀ w) : Inert i first (fun _ => True) w :=
  Runs.invariant h₀ (fun _ _ _ _ hspares => safe_task hspares)
    (fun _ _ hI _ => ⟨hI.known, hI.skipped, hI.place, hI.quiet⟩) h

end Jobs

/-! ## The refusal -/

/-- The drain loop comes to the deletion of the row's object, and Drive refuses for good to trash it
or delete it, and then to take it out of My Drive. -/
structure Refuses (env : Env) (w : World) (op : PendingOperation) (r : SyncItem) (rid : FileId) :
    Prop where
  /-- The operation is due, and this is its row. -/
  executes : Executes w op r
  /-- It is a deletion. -/
  kind : op.op = .deleteRemote
  /-- The object of the row. -/
  bound : r.remoteId = some rid
  /-- What Drive answers. -/
  refused : ∃ e e' w₁ w₂, runTask env (Engine.deleteRemote env rid)
      { w with inFlight := rid :: w.inFlight } = (.error e, w₁) ∧
    e.isInsufficientPermissions = true ∧ runTask env (removeFromMyDrive rid) w₁ = (.error e', w₂)

section Refusal

variable {root rid : FileId} {op : PendingOperation} {r : SyncItem}

/-- Where a program whose outcome is looked at is known to end. -/
lemma ends_attempt {q : Task α} {x : Except Error α} (h : runTask env q w = (x, w₁)) :
    Ends env (fun y s => y = .ok x ∧ s = w₁) q.attempt w := by
  refine Prog.safe_attempt.mpr ((ends_any q w).and_run.mono fun y s hy => ?_)
  obtain ⟨rfl, rfl⟩ := Prod.mk.inj (hy.1.symm.trans h)
  exact ⟨rfl, rfl⟩

/-- **A refused deletion** leaves the row skipped. -/
lemma skipped_of_refuses (h : Refuses env w op r rid) :
    Ends env (fun _ w' => ∀ s ∈ w'.db.items, s.id = r.id → s.state = .skipped)
      (executeItem env root op r) w := by
  obtain ⟨e, e', w₁, w₂, hdelete, hpermanent, hremove⟩ := h.refused
  have hmarked : ∀ s ∈ (DbCall.run (.setState r.id .skipped) w₂.db).2.items, s.id = r.id →
      s.state = .skipped := by
    intro s hs hid
    simp only [DbCall.run, Db.items_withItems, ItemTable.mem_modify] at hs
    rcases hs with ⟨-, hne⟩ | ⟨s', -, -, rfl⟩
    · exact absurd hid hne
    · rfl
  simp only [executeItem, h.kind, executeDeleteRemote, h.bound]
  refine safe_withMark.mpr fun _ => ⟨trivial, ?_⟩
  refine Prog.Safe.bind (ends_attempt hdelete) (fun res s hs => ?_) fun _ _ hs => by cases hs.1
  obtain ⟨hres, rfl⟩ := hs
  obtain rfl := Except.ok.inj hres
  simp only [hpermanent, if_true]
  refine Prog.Safe.bind (ends_attempt hremove) (fun res s hs => ?_) fun _ _ hs => by cases hs.1
  obtain ⟨hres, rfl⟩ := hs
  obtain rfl := Except.ok.inj hres
  exact (safe_sql _).mpr fun _ => ⟨trivial, fun _ => ⟨trivial, hmarked⟩⟩

/-- **After the refusal** the row is inert. -/
lemma inert_of_refuses (h : Refuses env w op r rid) :
    Inert r.id (runTask env (drainOne env root) w).2.db.ops.next (fun _ => True)
      (runTask env (drainOne env root) w).2 := by
  obtain ⟨hmem, hid⟩ := ItemTable.getById_eq_some.mp h.executes.row
  have hknown : Ends env (fun _ w' => r.id < w'.db.items.nextId) (drainOne env root) w := by
    refine (Prog.only_true _).safe (fun β c w' _ _ hlt => ⟨trivial, ?_⟩) (ItemTable.id_lt hmem)
    cases c with
    | db c => exact hlt.trans_le (DbCall.nextId_le_run c w'.db)
    | _ => exact hlt
  refine ⟨hknown.run, ?_, fun _ _ _ => trivial, fun o ho _ hnew =>
    absurd hnew (not_le.mpr (Data.Serial.key_lt _ ho))⟩
  rcases drainOne_cases env root w with ⟨hnone, -⟩ | ⟨op', hnext, hcase⟩
  · rw [h.executes.next] at hnone
    cases hnone
  obtain rfl := Option.some.inj (hnext.symm.trans h.executes.next)
  rcases hcase with ⟨hparked, -⟩ | ⟨-, x, w₁, hrun, hafter⟩
  · exact absurd h.executes.left (not_lt.mpr hparked)
  have hskipped := (skipped_of_refuses h : Ends env _ (executeItem env root op' r) w).run
  rw [← execute_of_row root hmem hid, hrun] at hskipped
  have hitems : (runTask env (drainOne env root) w).2.db.items = w₁.db.items := by
    cases x with
    | ok u => exact hafter.items
    | error e => exact hafter.items
  rw [hitems]
  exact hskipped

end Refusal

/-! ## Runs after a refusal -/

/-- **A refused deletion stays quiet** along every run of steps that spare the row: once Drive has
refused to trash the object and to take it out of My Drive, nothing is queued that would sync the row
again.

**Proof sketch.** The row is inert after the refusal. The handlers that look at the mark queue nothing
for it, and a step that spares the row reaches no other handler with it; the only operation that takes
the mark away is the making of a local directory. -/
theorem refused_stays_quiet (env : Env) (root : FileId) (w w' : World) (op : PendingOperation)
    (r : SyncItem) (rid : FileId) (hrefused : Refuses env w op r rid)
    (hrun : Runs env (Spares env r.id) (runTask env (drainOne env root) w).2 w') :
    ∀ o ∈ w'.db.ops, o.syncItemId = r.id →
      (runTask env (drainOne env root) w).2.db.ops.next ≤ o.id → resyncs o.op = false :=
  (inert_of_runs (inert_of_refuses hrefused) hrun).quiet

/-- No change in a batch says that an object was removed. -/
def Unremoved (_ : World) : Action → Prop
  | .job (.batch b) _ => ∀ c ∈ b.changes, c.removed = false
  | _ => True

/-- What Drive answers to a user who may not change a file. -/
def forbidden : Error := .driveHttp 403 insufficientFilePermissions

/-- The user has deleted the local copy of `a.txt`; Drive lets them neither trash it nor take it out
of its folder. -/
def sampleForeign : World :=
  performAll .plain [.outside { byUser (.removeFile ["a.txt"]) sampleSynced with
      remote := ⟨sampleDrive [65], [some (.failed forbidden), none, some (.failed forbidden)]⟩ },
    .job (.event (.deleted ["a.txt"])) 100] sampleSynced

/-- The row of `a.txt`. -/
def sampleRow : SyncItem := ⟨1, ["a.txt"], .file, some (.id 3), some 1, some "A", .pendingLocal, none⟩

/-- Its deletion. -/
def sampleDelete : PendingOperation := ⟨2, 1, .deleteRemote, none, 0, 0⟩

lemma sample_refuses : Refuses .plain sampleForeign sampleDelete sampleRow (.id 3) :=
  ⟨⟨by decide +kernel, by decide, by decide +kernel⟩, rfl, rfl, forbidden, forbidden, _, _,
    Prod.ext (by decide +kernel) rfl, by decide, Prod.ext (by decide +kernel) rfl⟩

/-- The state after the refusal. -/
def sampleSkipped : World := (runTask .plain (drainOne .plain (.id 2)) sampleForeign).2

/-- **The mark is ignored by changes**: the owner edits `a.txt` after the refusal, and the change
queues a download. -/
theorem refused_file_downloaded_again : ¬∀ (env : Env) (root : FileId) (w w' : World)
    (op : PendingOperation) (r : SyncItem) (rid : FileId), Refuses env w op r rid →
      Runs env Unremoved (runTask env (drainOne env root) w).2 w' →
        ∀ o ∈ w'.db.ops, o.syncItemId = r.id →
          (runTask env (drainOne env root) w).2.db.ops.next ≤ o.id → resyncs o.op = false := by
  intro h
  have hrun : Runs .plain Unremoved sampleSkipped (performAll .plain
      [.outside { sampleSkipped with remote := ⟨sampleDrive [66], []⟩ },
        .job (.batch ⟨[sampleChange [66]], 2⟩) 100] sampleSkipped) :=
    Runs.start.performAll ⟨trivial, by simp [Unremoved, sampleChange], trivial⟩
  have hquiet := h _ _ _ _ _ _ _ sample_refuses hrun
  have hqueued : ∃ o ∈ (performAll .plain
      [.outside { sampleSkipped with remote := ⟨sampleDrive [66], []⟩ },
        .job (.batch ⟨[sampleChange [66]], 2⟩) 100] sampleSkipped).db.ops.table.rows,
      o.syncItemId = 1 ∧ sampleSkipped.db.ops.next ≤ o.id ∧ resyncs o.op = true := by
    decide +kernel
  obtain ⟨o, ho, hitem, hnew, hresyncs⟩ := hqueued
  exact absurd (hquiet o ho hitem hnew) (by rw [hresyncs]; decide)

/-- The user makes a file `a.txt` again, and edits it; the mark is heeded. -/
theorem refused_file_made_again : Refuses .plain sampleForeign sampleDelete sampleRow (.id 3) ∧
    ∀ o ∈ (performAll .plain
      [.outside (byUser (.writeFile ["a.txt"] [67]) sampleSkipped),
        .job (.event (.created ["a.txt"])) 100, .job (.event (.modified ["a.txt"])) 100,
        .job .scan 100] sampleSkipped).db.ops, o.syncItemId = 1 → sampleSkipped.db.ops.next ≤ o.id →
        resyncs o.op = false :=
  ⟨sample_refuses, refused_stays_quiet .plain (.id 2) sampleForeign _ sampleDelete sampleRow (.id 3)
    sample_refuses (Runs.start.performAll ⟨trivial, trivial, trivial, trivial, trivial⟩)⟩

end AirDrive.RefusedDelete
