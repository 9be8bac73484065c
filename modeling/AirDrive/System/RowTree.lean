import AirDrive.System.OneRow
import AirDrive.Drive.Distinct

set_option relaxedAutoImplicit false
set_option autoImplicit false

/-!
# The rows below a deleted directory

A deletion of a directory drops the row of the directory alone. The rows below it are left to the
deletions of what they stand for, which a directory that is moved to the trash as a whole never
reports. Where no live row is left below it, no job puts one there later, as long as the paths that
it records or moves rows to lie elsewhere.

## Main definitions

* `AirDrive.RowTree.Housed` — the live rows are at paths of a set.
* `AirDrive.RowTree.Gone` — a directory that is on neither side and has no row.
* `AirDrive.RowTree.Removes` — the jobs that drop the row of a directory.
* `AirDrive.RowTree.Traces` — the runs, with the directories that were deleted and stay away.
* `AirDrive.RowTree.TreeClosed` — what is claimed of them.

## Main results

* `AirDrive.RowTree.housed_call` — a call keeps the rows at their paths.
* `AirDrive.RowTree.safe_task` — so does every job that records and moves rows to such paths.
* `AirDrive.RowTree.rows_closed` — no row is left below a directory that had none when it was
  deleted.
* `AirDrive.RowTree.child_row_left` — a row is left below a directory that is deleted as a whole.
-/

namespace AirDrive.RowTree

open Effect Dispatcher Continuous Outcomes Kinds KindSafety

/-! ## The paths of the live rows -/

/-- The row is live, or bound to one of the objects. -/
def Counts (R : FileId → Prop) (r : SyncItem) : Prop :=
  r.trashedAt = none ∨ ∃ rid, R rid ∧ r.remoteId = some rid

/-- The live rows, and the tombstones of some objects, are at paths of the set. -/
def Housed (A : RelPath → Prop) (R : FileId → Prop) (w : World) : Prop :=
  ∀ r ∈ w.db.items, Counts R r → A r.relativePath

/-- No tombstone is asked about. -/
def NoObject : FileId → Prop := fun _ => False

/-- The rows that a call makes live or moves are at paths of the set afterwards. -/
def Fine (A : RelPath → Prop) (R : FileId → Prop) (w : World) : {β : Type} → Call β → Prop
  | _, .db (.insertItem new) => A new.relativePath
  | _, .db (.setRemoteId _ rid) => ¬R rid
  | _, .db (.setRelativePath _ rel) => A rel
  | _, .db (.renameSubtree old new) => ∀ r ∈ w.db.items, Counts R r → ItemTable.Selected old r →
    A (RelPath.rebase old new r.relativePath)
  | _, .db (.clearTrashed id) => ∀ r ∈ w.db.items, r.id = id → A r.relativePath
  | _, _ => True

/-- The calls that neither put a row at a path nor make one live or bound. -/
def unplacing : {β : Type} → Call β → Bool
  | _, .db (.insertItem _) => false
  | _, .db (.setRemoteId _ _) => false
  | _, .db (.setRelativePath _ _) => false
  | _, .db (.renameSubtree _ _) => false
  | _, .db (.clearTrashed _) => false
  | _, _ => true

section Calls

variable {env : Env} {A : RelPath → Prop} {R : FileId → Prop} {w : World} {α β : Type}

/-- **A call** keeps the rows at paths of the set. -/
lemma housed_call {c : Call β} (h : Housed A R w) (hfine : Fine A R w c) :
    Housed A R (handle env β c w).2 := by
  cases c with
  | db c =>
    intro r hr hcounts
    have hsame : ∀ s ∈ w.db.items, s.trashedAt = r.trashedAt → s.remoteId = r.remoteId →
        s.relativePath = r.relativePath → A r.relativePath := by
      intro s hs htrashed hremote hpath
      rw [← hpath]
      refine h s hs ?_
      rwa [Counts, htrashed, hremote]
    rcases DbCall.mem_items_run hr with ⟨s, hs, hid, hchange⟩ | ⟨new, hnew, rfl⟩
    · cases c with
      | setRemoteId id rid =>
        rcases hchange with rfl | ⟨hsid, rfl⟩
        · exact h r hs hcounts
        · rcases hcounts with hlive | ⟨rid', hrid', hbound⟩
          · exact h s hs (.inl hlive)
          · obtain rfl := Option.some.inj hbound
            exact absurd hrid' hfine
      | setRelativePath id rel =>
        rcases ItemTable.mem_setRelativePath.mp hr with ⟨s', -, -, rfl⟩ | ⟨hr, -⟩
        · exact hfine
        · exact h r hr hcounts
      | renameSubtree old new =>
        obtain ⟨s', hs', rfl | ⟨hselected, rfl⟩⟩ := ItemTable.mem_renameSubtree_cases hr
        · exact h r hs' hcounts
        · exact hfine s' hs' hcounts hselected
      | updateFingerprint id size md5 =>
        rcases hchange with rfl | ⟨-, rfl⟩
        · exact h r hs hcounts
        · exact hsame s hs rfl rfl rfl
      | setState id state =>
        rcases hchange with rfl | ⟨-, rfl⟩
        · exact h r hs hcounts
        · exact hsame s hs rfl rfl rfl
      | markTrashed id at' =>
        rcases hchange with rfl | ⟨-, rfl⟩
        · exact h r hs hcounts
        · rcases hcounts with hlive | hbound
          · cases hlive
          · exact h s hs (.inr hbound)
      | clearTrashed id =>
        rcases hchange with rfl | ⟨hsid, rfl⟩
        · exact h r hs hcounts
        · exact hfine s hs hsid
      | _ =>
        obtain rfl : r = s := hchange
        exact h r hs hcounts
    · cases c with
      | insertItem new' =>
        obtain rfl := Option.some.inj hnew
        exact hfine
      | _ => cases hnew
  | _ => exact h

lemma fine_of_unplacing {c : Call β} (hc : unplacing c = true) : Fine A R w c := by
  cases c with
  | db c =>
    cases c with
    | insertItem new => cases hc
    | setRemoteId id rid => cases hc
    | setRelativePath id rel => cases hc
    | renameSubtree old new => cases hc
    | clearTrashed id => cases hc
    | _ => trivial
  | _ => trivial

lemma unplacing_of_settled {c : Call β} (hc : settled c = true) : unplacing c = true := by
  cases c with
  | db c =>
    cases c with
    | insertItem new => cases hc
    | setRemoteId id rid => cases hc
    | setRelativePath id rel => cases hc
    | renameSubtree old new => cases hc
    | clearTrashed id => cases hc
    | _ => rfl
  | _ => rfl

lemma fine_of_settled {c : Call β} (hc : settled c = true) : Fine A R w c :=
  fine_of_unplacing (unplacing_of_settled hc)

/-- A program of such calls. -/
lemma safe_unplacing {p : Task α} (hp : p.Only fun _ c => unplacing c = true) :
    p.Safe (handle env) (.solo (Housed A R)) Prog.Any w :=
  hp.safe (J := fun _ => True)
    (fun _ _ _ hc hI _ => ⟨housed_call hI (fine_of_unplacing hc), trivial⟩) trivial

lemma safe_settled {p : Task α} (hp : p.Only fun _ c => settled c = true) :
    p.Safe (handle env) (.solo (Housed A R)) Prog.Any w :=
  safe_unplacing (hp.mono fun _ _ => unplacing_of_settled)

/-- Such a program that leaves the local tree alone. -/
lemma safe_offDisk {p : Task α} (hp : p.Only fun _ c => settled c = true ∧ offDisk c = true) :
    p.Safe (handle env) (.solo (Housed A R)) (fun _ w' => w'.fs = w.fs) w :=
  hp.safe (fun _ _ _ hc hI hJ =>
    ⟨housed_call hI (fine_of_settled hc.1), (fs_of_offDisk hc.2).trans hJ⟩) rfl

lemma safe_still {p : Task α} (hp : p.Only fun _ c => still c = true) :
    p.Safe (handle env) (.solo (Housed A R)) (fun _ w' => w'.db = w.db ∧ w'.fs = w.fs) w := by
  refine hp.safe (fun β c w' hc hI hJ => ⟨housed_call hI (fine_of_settled (settled_of_still hc)), ?_⟩)
    ⟨rfl, rfl⟩
  obtain ⟨hdb, hfs⟩ := still_handle env w' hc
  exact ⟨hdb.trans hJ.1, hfs.trans hJ.2⟩

lemma housed_db {c : DbCall α} (h : Housed A R w) (hfine : Fine A R w (.db c)) :
    Housed A R { w with db := (c.run w.db).2 } := by
  have hcall : Housed A R (handle Env.plain _ (.db c) w).2 := housed_call h hfine
  exact hcall

/-- A statement. -/
lemma safe_db {c : DbCall α} (hfine : Fine A R w (.db c)) :
    (sql c).Safe (handle env) (.solo (Housed A R)) (fun _ w' => w'.fs = w.fs) w :=
  (safe_sql _).mpr fun h => ⟨housed_db h hfine, rfl⟩

/-- Inserting a row, and what follows. -/
lemma safe_insert {new : NewSyncItem} {f : ItemId → Task α} (hnew : A new.relativePath)
    (hf : ∀ i, (f i).Only fun _ c => settled c = true ∧ offDisk c = true) :
    ((sqlTry (.insertItem new)).bind f).Safe (handle env) (.solo (Housed A R))
      (fun _ w' => w'.fs = w.fs) w := by
  refine Prog.safe_bind.mpr ((safe_sqlTry _).mpr fun h =>
    ⟨housed_db (c := .insertItem new) h hnew, ?_⟩)
  cases (DbCall.run (.insertItem new) w.db).1 with
  | error e => exact rfl
  | ok i => exact (safe_offDisk (w := { w with db := (DbCall.run (.insertItem new) w.db).2 })
      (hf i)).mono fun _ _ h => h

end Calls

/-! ## Local events and the startup scan -/

section Events

variable {env : Env} {A : RelPath → Prop} {R : FileId → Prop} {w : World}

/-- What is on disk is at a path of the set. -/
def OnDisk (A : RelPath → Prop) (fs : Fs) : Prop := ∀ q, fs.node q ≠ none → A q

lemma safe_enqueueLocalDir {rel : RelPath} (hrel : A rel) :
    (enqueueLocalDir rel).Safe (handle env) (.solo (Housed A R)) (fun _ w' => w'.fs = w.fs) w := by
  refine Prog.Safe.bind (safe_still (p := sql (.getByRelativePath rel)) ⟨rfl, fun _ => trivial⟩)
    (fun row w₁ ⟨_, hfs⟩ => ?_) fun _ _ h => h.2
  cases row with
  | some item => exact hfs
  | none =>
    exact (safe_insert hrel fun i => enqueueOp_offDisk (by decide)).mono fun _ _ h => h.trans hfs

lemma safe_enqueueLocalFile {rel : RelPath} (hrel : A rel) :
    (enqueueLocalFile rel).Safe (handle env) (.solo (Housed A R)) (fun _ w' => w'.fs = w.fs) w := by
  refine Prog.Safe.bind (safe_still (p := sql (.getByRelativePath rel)) ⟨rfl, fun _ => trivial⟩)
    (fun row w₁ ⟨_, hfs⟩ => ?_) fun _ _ h => h.2
  cases row with
  | some item =>
    simp only
    split
    · exact hfs
    · exact (safe_offDisk (enqueueOp_offDisk (by decide))).mono fun _ _ h => h.trans hfs
  | none =>
    exact (safe_insert hrel fun i => enqueueOp_offDisk (by decide)).mono fun _ _ h => h.trans hfs

/-- **A created or modified path** gets rows for what is on disk only. -/
lemma safe_applyCreated {p : RelPath} (hdisk : OnDisk A w.fs) :
    (applyCreated p).Safe (handle env) (.solo (Housed A R)) (fun _ w' => w'.fs = w.fs) w := by
  refine Prog.Safe.bind (P := fun x w' => w' = w ∧ x = .ok (w.fs.isDir p))
    ((safe_io _).mpr fun hI => ⟨hI, rfl, rfl⟩) ?_ fun _ _ h => by rw [h.1]
  rintro isDir w₀ ⟨hw₀, hx⟩
  subst hw₀
  obtain rfl := Except.ok.inj hx
  split
  · next hdir =>
    have hp : A p := hdisk p (by rw [Fs.isDir_iff.mp hdir]; exact Option.some_ne_none _)
    refine Prog.Safe.bind (safe_enqueueLocalDir hp) (fun _ w₁ hfs₁ => ?_) fun _ _ h => h
    refine Prog.Safe.bind (P := fun x w' => w'.fs = w₀.fs ∧ x = .ok (w₀.fs.walk p))
      ((safe_io _).mpr fun hI => ⟨hI, hfs₁, ?_⟩) ?_ fun _ _ h => h.1
    · simp only [FsCall.run, hfs₁]
    rintro entries w₂ ⟨hfs₂, hx⟩
    obtain rfl := Except.ok.inj hx
    refine Prog.Safe.forEach (fun w' => w'.fs = w₀.fs) hfs₂ (fun e he w₃ hfs₃ => ?_) fun _ h => h
    obtain ⟨n, hnode, -⟩ := node_of_walk he
    have hrel : A e.relativePath := hdisk _ (by rw [hnode]; exact Option.some_ne_none _)
    have hentry : (enqueueLocalEntry e).Safe (handle env) (.solo (Housed A R))
        (fun _ w' => w'.fs = w₃.fs) w₃ := by
      unfold enqueueLocalEntry
      split
      · exact safe_enqueueLocalDir hrel
      · exact safe_enqueueLocalFile hrel
    exact hentry.mono fun x w' h => by cases x <;> exact h.trans hfs₃
  · refine Prog.Safe.bind (P := fun x w' => w' = w₀ ∧ x = .ok (w₀.fs.isFile p))
      ((safe_io _).mpr fun hI => ⟨hI, rfl, rfl⟩) ?_
      fun _ _ h => by rw [h.1]
    rintro isFile w₁ ⟨hw₁, hx⟩
    subst hw₁
    obtain rfl := Except.ok.inj hx
    split
    · next hfile =>
      obtain ⟨b, hnode⟩ := Fs.isFile_iff.mp hfile
      exact safe_enqueueLocalFile (hdisk p (by rw [hnode]; exact Option.some_ne_none _))
    · exact rfl

/-- **A watcher event** records what is on disk, and moves a row that was not uploaded yet. -/
lemma safe_applyLocal {ev : WatchEvent} (hdisk : OnDisk A w.fs)
    (hmove : ∀ from' to' item, ev = .renamed from' to' →
      w.db.items.getByRelativePath from' = some item → item.remoteId = none → A to') :
    (applyLocal ev).Safe (handle env) (.solo (Housed A R)) (fun _ w' => w'.fs = w.fs) w := by
  cases ev with
  | created p => exact safe_applyCreated hdisk
  | modified p => exact safe_applyCreated hdisk
  | deleted p => exact safe_offDisk (applyDeleted_offDisk p)
  | renamed from' to' =>
    refine Prog.Safe.bind (P := fun x w' => w' = w ∧ x = .ok (w.db.items.getByRelativePath from'))
      ((safe_sql _).mpr fun hI => ⟨hI, rfl, rfl⟩) (fun row w₀ ⟨hw₀, hx⟩ => ?_)
      fun _ _ h => by rw [h.1]
    subst hw₀
    obtain rfl := Except.ok.inj hx
    cases hrow : w₀.db.items.getByRelativePath from' with
    | none => exact safe_applyCreated hdisk
    | some item =>
      simp only
      split
      · next hremote =>
        refine Prog.Safe.bind (safe_db (hmove from' to' item rfl hrow hremote)) (fun _ w₁ hfs₁ => ?_)
          fun _ _ h => h
        exact (safe_offDisk (enqueueOp_offDisk (by decide))).mono fun _ _ h => h.trans hfs₁
      · exact safe_offDisk (enqueueOp_offDisk (by decide))

lemma safe_scanEntry {e : Fs.LocalEntry} (hdisk : OnDisk A w.fs) :
    (StartupScan.scanEntry env e).Safe (handle env) (.solo (Housed A R))
      (fun _ w' => w'.fs = w.fs) w := by
  unfold StartupScan.scanEntry
  split
  · exact rfl
  · refine Prog.Safe.bind (safe_still (p := sql (.getByRelativePath e.relativePath))
      ⟨rfl, fun _ => trivial⟩) (fun row w₁ ⟨_, hfs₁⟩ => ?_) fun _ _ h => h.2
    have hdisk₁ : OnDisk A w₁.fs := hfs₁ ▸ hdisk
    split
    · cases row with
      | none => exact (safe_applyCreated hdisk₁).mono fun _ _ h => h.trans hfs₁
      | some item => exact hfs₁
    · cases row with
      | none => exact (safe_applyCreated hdisk₁).mono fun _ _ h => h.trans hfs₁
      | some item =>
        simp only
        split
        · exact hfs₁
        · refine Prog.Safe.bind (safe_still (computeLocal_still _))
            (fun print w₂ ⟨_, hfs₂⟩ => ?_) fun _ _ h => h.2.trans hfs₁
          split
          · refine Prog.Safe.bind (safe_still (remoteMatchesSynced_still item))
              (fun same w₃ ⟨_, hfs₃⟩ => ?_) fun _ _ h => h.2.trans (hfs₂.trans hfs₁)
            have hfs : w₃.fs = w.fs := hfs₃.trans (hfs₂.trans hfs₁)
            split
            · exact (safe_applyCreated (hfs ▸ hdisk)).mono fun _ _ h => h.trans hfs
            · exact hfs
          · exact hfs₂.trans hfs₁

/-- **The startup scan** records what is on disk only. -/
lemma safe_startupLocalScan (hdisk : OnDisk A w.fs) :
    (StartupScan.startupLocalScan env).Safe (handle env) (.solo (Housed A R)) Prog.Any w := by
  refine Prog.Safe.bind (P := fun _ w' => w'.fs = w.fs) ((safe_io _).mpr fun hI => ⟨hI, rfl⟩)
    (fun entries w₁ hfs₁ => ?_) fun _ _ _ => trivial
  refine Prog.Safe.bind (P := fun _ w' => w'.fs = w.fs) ?_ (fun _ w₂ _ => ?_) fun _ _ _ => trivial
  · refine Prog.Safe.forEach (fun w' => w'.fs = w.fs) hfs₁ (fun e _ w₂ hfs₂ => ?_) fun _ h => h
    exact (safe_scanEntry (hfs₂ ▸ hdisk)).mono fun x w' h => by cases x <;> exact h.trans hfs₂
  · refine safe_settled (Prog.Only.bind ⟨rfl, fun _ => trivial⟩ fun rows =>
      Prog.Only.forEach fun item _ => ?_)
    unfold StartupScan.scanRow
    split
    · refine ((remoteMatchesSynced_still item).mono fun _ _ => settled_of_still).bind fun same => ?_
      split
      · exact (applyDeleted_offDisk _).mono fun _ _ => And.left
      · trivial
    · trivial

end Events

/-! ## Remote changes -/

/-- What a change can record lies at paths of the set. -/
def Landing (A : RelPath → Prop) (c : RemoteChange) : Prop :=
  ∀ file, c.file = some file →
    A (c.path file) ∧ A (Shortcut.relativePath (c.path file) file.mimeType)

section Changes

variable {env : Env} {A : RelPath → Prop} {R : FileId → Prop} {w : World} {rid : FileId}

lemma enqueueOp_unplacing {i : ItemId} {op : Operation} {payload : Option Payload} :
    (enqueueOp i op payload).Only fun _ c => unplacing c = true :=
  Prog.Only.bind ⟨rfl, fun _ => trivial⟩ fun _ => Prog.Only.bind
    ⟨rfl, fun x => Prog.only_ofExcept x⟩ fun _ => trivial

lemma localVersion_unplacing {item : SyncItem} {md5 : String} :
    (localVersion env item md5).Only fun _ c => unplacing c = true := by
  refine Prog.Only.bind ⟨rfl, fun _ => trivial⟩ fun isFile => ?_
  split
  · split
    · trivial
    · refine Prog.Only.bind ⟨rfl, fun _ => trivial⟩ fun res => ?_
      split
      · trivial
      · split_ifs <;> trivial
  · trivial

lemma openConflict_unplacing {i : ItemId} {rel : RelPath} {now : ℕ} :
    (Conflict.openConflict i rel now).Only fun _ c => unplacing c = true := by
  refine Prog.Only.bind ?_ fun _ => Prog.Only.bind ⟨rfl, fun x => Prog.only_ofExcept x⟩
    fun _ => trivial
  refine Prog.Only.bind ⟨rfl, fun _ => trivial⟩ fun there => ?_
  split
  · refine Prog.Only.bind ⟨rfl, fun _ => trivial⟩ fun res => ?_
    split <;> trivial
  · trivial

lemma applyEdited_unplacing {item : SyncItem} {file : FileResource} {md5 : String} :
    (applyEdited env item file md5).Only fun _ c => unplacing c = true := by
  unfold applyEdited
  split
  · trivial
  · refine localVersion_unplacing.bind fun version => ?_
    cases version with
    | agrees => trivial
    | behind => exact enqueueOp_unplacing
    | edited =>
      refine Prog.Only.bind ⟨rfl, fun _ => trivial⟩ fun now => ?_
      exact openConflict_unplacing.bind fun _ => enqueueOp_unplacing

lemma applyMoved_unplacing {item : SyncItem} {file : FileResource} {md5 : String} {rel : RelPath} :
    (applyMoved item file md5 rel).Only fun _ c => unplacing c = true := by
  refine ((renamedDir_still _ _ _).mono fun _ _ h =>
    unplacing_of_settled (settled_of_still h)).bind fun dir => ?_
  cases dir with
  | some dir => exact enqueueOp_unplacing
  | none =>
    refine enqueueOp_unplacing.bind fun _ => ?_
    split
    · trivial
    · exact enqueueOp_unplacing

/-- Recording an object. -/
lemma safe_record {α : Type} {new : NewSyncItem} {f : ItemId → Task α} (hnew : A new.relativePath)
    (hf : ∀ i, (f i).Only fun _ c => unplacing c = true) :
    ((sqlTry (.insertItem new)).bind f).Safe (handle env) (.solo (Housed A R)) Prog.Any w := by
  refine Prog.safe_bind.mpr ((safe_sqlTry _).mpr fun h =>
    ⟨housed_db (c := .insertItem new) h hnew, ?_⟩)
  cases (DbCall.run (.insertItem new) w.db).1 with
  | error e => trivial
  | ok i => exact (safe_unplacing (w := { w with db := (DbCall.run (.insertItem new) w.db).2 })
      (hf i)).mono fun _ _ _ => trivial

/-- Bringing back the tombstone of one of the objects. -/
lemma safe_restore {item : SyncItem} {q : Task Unit} (hrow : w.db.items.getByRemoteId rid = some item)
    (hrid : R rid) (hq : q.Only fun _ c => unplacing c = true) :
    ((sql (.clearTrashed item.id)).bind fun _ => q).Safe (handle env) (.solo (Housed A R))
      Prog.Any w := by
  obtain ⟨hmem, hbound⟩ := ItemTable.getByRemoteId_mem hrow
  refine Prog.safe_bind.mpr ((safe_sql _).mpr fun h => ⟨housed_db h fun r hr hid => ?_, ?_⟩)
  · rw [ItemTable.id_inj hr hmem hid]
    exact h item hmem (.inr ⟨rid, hrid, hbound⟩)
  · exact safe_unplacing hq

lemma safe_applyFolder {file : FileResource} {rel : RelPath} (hrel : A rel) :
    (applyFolder rid file rel).Safe (handle env) (.solo (Housed A R)) Prog.Any w := by
  refine Prog.Safe.bind (P := Prog.Any) (safe_unplacing ⟨rfl, fun _ => trivial⟩)
    (fun row w₁ _ => ?_) fun _ _ _ => trivial
  cases row with
  | some existing =>
    simp only
    split
    · exact safe_unplacing enqueueOp_unplacing
    · trivial
  | none =>
    refine Prog.Safe.bind (P := Prog.Any) (safe_unplacing ⟨rfl, fun _ => trivial⟩)
      (fun occupant w₂ _ => ?_) fun _ _ _ => trivial
    cases occupant with
    | some occupant => trivial
    | none => exact safe_record hrel fun _ => enqueueOp_unplacing

lemma safe_applyNative {file : FileResource} {rel : RelPath} (hrel : A rel) (hrid : R rid) :
    (applyNative rid file rel).Safe (handle env) (.solo (Housed A R)) Prog.Any w := by
  simp only [applyNative, Prog.bind_eq, Prog.safe_bind]
  refine (safe_sql _).mpr fun h => ⟨h, ?_⟩
  cases hrow : w.db.items.getByRemoteId rid with
  | some existing =>
    simp only [DbCall.run, hrow]
    split
    · exact safe_unplacing enqueueOp_unplacing
    · split
      · exact safe_restore hrow hrid enqueueOp_unplacing
      · trivial
  | none =>
    simp only [DbCall.run, hrow]
    exact safe_record hrel fun _ => enqueueOp_unplacing

lemma safe_applyFile {change : RemoteChange} {file : FileResource} {md5 : String}
    (hrel : A (change.path file)) (hrid : R change.fileId) :
    (applyFile env change file md5).Safe (handle env) (.solo (Housed A R)) Prog.Any w := by
  simp only [applyFile, Prog.bind_eq, Prog.safe_bind]
  refine (safe_sql _).mpr fun h => ⟨h, ?_⟩
  cases hrow : w.db.items.getByRemoteId change.fileId with
  | some item =>
    simp only [DbCall.run, hrow]
    split
    · exact safe_restore hrow hrid enqueueOp_unplacing
    · split
      · split
        · exact safe_unplacing applyMoved_unplacing
        · exact safe_unplacing applyEdited_unplacing
      · exact safe_unplacing applyEdited_unplacing
  | none =>
    simp only [DbCall.run, hrow]
    refine Prog.Safe.bind (P := Prog.Any) (safe_unplacing ⟨rfl, fun _ => trivial⟩)
      (fun occupant w₁ _ => ?_) fun _ _ _ => trivial
    cases occupant with
    | some occupant => trivial
    | none => exact safe_record hrel fun _ => enqueueOp_unplacing

/-- **A change** records its object where it lands, and brings back its tombstone. -/
lemma safe_applyRemote {change : RemoteChange} (hland : Landing A change) (hrid : R change.fileId) :
    (applyRemote env change).Safe (handle env) (.solo (Housed A R)) Prog.Any w := by
  refine (Prog.safe_call_solo _ _).mpr fun hI => ⟨hI, ?_⟩
  show Prog.Safe _ _ _ (if w.inFlight.contains change.fileId = true then _ else _) w
  split
  · trivial
  · split
    · refine safe_unplacing (Prog.Only.bind ⟨rfl, fun _ => trivial⟩ fun row => ?_)
      cases row with
      | none => trivial
      | some item => exact enqueueOp_unplacing
    · cases hfile : change.file with
      | none => trivial
      | some file =>
        obtain ⟨hpath, hpointer⟩ := hland file hfile
        simp only [applyPresent]
        split
        · refine safe_unplacing (Prog.Only.bind ⟨rfl, fun _ => trivial⟩ fun row => ?_)
          cases row with
          | none => trivial
          | some item =>
            simp only
            split
            · exact enqueueOp_unplacing
            · trivial
        · split
          · exact safe_applyFolder hpath
          · split
            · exact safe_applyNative hpointer hrid
            · split
              · trivial
              · exact safe_applyFile hpath hrid

/-- **A batch** of changes of the objects. -/
lemma safe_applyBatch {b : RemoteBatch} (h : ∀ c ∈ b.changes, Landing A c ∧ R c.fileId) :
    (Consumer.applyBatch env b).Safe (handle env) (.solo (Housed A R)) Prog.Any w := by
  refine Prog.Safe.bind (P := Prog.Any) (Prog.Safe.foldM (fun _ _ => True) trivial
    (fun c hc allApplied w₁ _ => ?_) fun _ _ _ => trivial) (fun all w₁ _ => ?_) fun _ _ _ => trivial
  · refine Prog.Safe.bind (P := Prog.Any) (Prog.safe_attempt.mpr
      ((safe_applyRemote (h c hc).1 (h c hc).2).mono fun _ _ _ => trivial))
      (fun res w₂ _ => ?_) fun _ _ _ => trivial
    cases res <;> trivial
  · split
    · exact safe_unplacing ⟨rfl, fun _ => trivial⟩
    · trivial

end Changes

/-! ## Operations -/

/-- Where a rename can put rows: on the way to the new path, and where the live rows that move along
end up. -/
def Moved (items : ItemTable) (old new : RelPath) (q : RelPath) : Prop :=
  q <+: new ∨ ∃ s, ((∃ r ∈ items, r.trashedAt = none ∧ r.relativePath = s) ∨
    s <+: new.splitParent.1) ∧ (s = old ∨ old.likeBelow s = true) ∧ q = RelPath.rebase old new s

/-- Where an operation can put rows: the directories on the way to the path of its row, which lie
above a live row anyway, and where a rename leads. -/
def Targets (w : World) (op : PendingOperation) (item : SyncItem) (q : RelPath) : Prop :=
  match op.op, op.payload with
  | .upload, _ => item.trashedAt ≠ none ∧ q <+: item.relativePath
  | .createDirRemote, _ => item.trashedAt ≠ none ∧ q <+: item.relativePath
  | .renameRemote, some (.rename p) => Moved w.db.items item.relativePath p.newRelativePath q
  | .renameLocal, some (.rename p) => Moved w.db.items item.relativePath p.newRelativePath q
  | _, _ => False

section Operations

variable {env : Env} {A : RelPath → Prop} {w : World} {root current : FileId} {item : SyncItem}

lemma safe_persistDir {p : RelPath} {id : FileId} (hp : A p) :
    (persistDir p id).Safe (handle env) (.solo (Housed A NoObject)) Prog.Any w := by
  refine Prog.Safe.bind (P := Prog.Any) (safe_unplacing ⟨rfl, fun _ => trivial⟩)
    (fun row w₁ _ => ?_) fun _ _ _ => trivial
  cases row with
  | some existing =>
    simp only
    split
    · exact (safe_sql _).mpr fun h => ⟨housed_db h not_false, trivial⟩
    · trivial
  | none => exact safe_record hp fun _ => trivial

lemma safe_ensureSegments {cumulative : RelPath} {segments : List String}
    (hp : ∀ q, q <+: segments → A (cumulative ++ q)) :
    (ensureSegments current cumulative segments).Safe (handle env) (.solo (Housed A NoObject))
      Prog.Any w := by
  induction segments generalizing current cumulative w with
  | nil => trivial
  | cons seg rest ih =>
    have hchild : (childFolder current seg).Only fun _ c => unplacing c = true := by
      refine Prog.Only.bind ⟨rfl, fun x => Prog.only_ofExcept x⟩ fun children => ?_
      split
      · trivial
      · exact Prog.Only.bind ⟨rfl, fun x => Prog.only_ofExcept x⟩ fun _ => trivial
    refine Prog.Safe.bind (safe_unplacing hchild) (fun next w₁ _ => ?_) fun _ _ _ => trivial
    have hseg : A (cumulative ++ [seg]) := hp [seg] (by simp)
    refine Prog.Safe.bind (safe_persistDir hseg) (fun _ w₂ _ => ?_) fun _ _ _ => trivial
    refine ih fun q hq => ?_
    have hlonger := hp (seg :: q) (by simpa using hq)
    simpa using hlonger

/-- **The remote folder of a path**, whose directories are at paths of the set. -/
lemma safe_ensureRemoteFolder {rel : RelPath} (hrel : ∀ q, q <+: rel → A q) :
    (ensureRemoteFolder root rel).Safe (handle env) (.solo (Housed A NoObject)) Prog.Any w :=
  safe_ensureSegments fun q hq => by simpa using hrel q hq

lemma withMark_unplacing {α : Type} {id : FileId} {body : Task α}
    (h : body.Only fun _ c => unplacing c = true) :
    (withMark id body).Only fun _ c => unplacing c = true :=
  Prog.Only.bind ⟨rfl, fun _ => trivial⟩ fun _ => Prog.Only.bind h.attempt fun x =>
    Prog.Only.bind ⟨rfl, fun _ => trivial⟩ fun _ => Prog.only_ofExcept x

/-- A guarded program. -/
lemma safe_marked {α : Type} {id : FileId} {body : Task α}
    (h : ∀ w', w'.db = w.db → body.Safe (handle env) (.solo (Housed A NoObject)) Prog.Any w') :
    (withMark id body).Safe (handle env) (.solo (Housed A NoObject)) Prog.Any w :=
  safe_withMark.mpr fun hI => ⟨hI, (h { w with inFlight := id :: w.inFlight } rfl).mono
    fun _ _ _ hI => ⟨hI, trivial⟩⟩

/-- **Upload.** -/
lemma safe_executeUpload (hrel : ∀ q, q <+: item.relativePath → A q) :
    (executeUpload env root item).Safe (handle env) (.solo (Housed A NoObject)) Prog.Any w := by
  have hread : ∀ rel, (ioTry (.readFile rel)).Only fun _ c => unplacing c = true :=
    fun rel => ⟨rfl, fun x => Prog.only_ofExcept x⟩
  refine Prog.Safe.bind (P := Prog.Any) (safe_unplacing ⟨rfl, fun _ => trivial⟩)
    (fun isFile w₁ _ => ?_) fun _ _ _ => trivial
  split
  · refine Prog.Safe.bind (P := Prog.Any) (safe_unplacing ((hread _).bind fun _ => trivial))
      (fun ⟨size, md5⟩ w₂ _ => ?_) fun _ _ _ => trivial
    simp only
    split
    · trivial
    · split
      · refine safe_unplacing (withMark_unplacing (Prog.Only.bind ?_ fun _ =>
          ⟨rfl, fun _ => trivial⟩))
        exact (hread _).bind fun _ => ⟨rfl, fun x => Prog.only_ofExcept x⟩
      · refine Prog.Safe.bind (safe_ensureRemoteFolder fun q hq => hrel q ?_)
          (fun parent w₃ _ => ?_) fun _ _ _ => trivial
        · exact hq.trans (List.dropLast_prefix _)
        refine Prog.Safe.bind (P := Prog.Any) (safe_unplacing ((hread _).bind fun _ =>
          ⟨rfl, fun x => Prog.only_ofExcept x⟩)) (fun rf w₄ _ => ?_) fun _ _ _ => trivial
        refine safe_marked fun w₅ _ => ?_
        refine Prog.Safe.bind (P := Prog.Any) ((safe_sql _).mpr fun h => ⟨housed_db h not_false, trivial⟩)
          (fun _ w₆ _ => ?_) fun _ _ _ => trivial
        exact safe_unplacing ⟨rfl, fun _ => trivial⟩
  · trivial

/-- **Download.** -/
lemma safe_executeDownload {payload : Option Payload} :
    (executeDownload env item payload).Safe (handle env) (.solo (Housed A NoObject)) Prog.Any w := by
  refine Prog.Safe.bind (P := Prog.Any) ((Prog.safe_ofExcept _).mpr trivial) (fun dl w₁ _ => ?_)
    fun _ _ _ => trivial
  refine Prog.Safe.bind (P := Prog.Any) (safe_unplacing ⟨rfl, fun x => Prog.only_ofExcept x⟩)
    (fun _ w₂ _ => ?_) fun _ _ _ => trivial
  have hfetch : (Engine.download dl.remoteId dl.relativePath).Only
      fun _ c => unplacing c = true :=
    Prog.Only.bind ⟨rfl, fun x => Prog.only_ofExcept x⟩ fun body =>
      Prog.Only.bind ⟨rfl, fun x => Prog.only_ofExcept x⟩ fun _ =>
        ⟨rfl, fun x => Prog.only_ofExcept x⟩
  refine Prog.Safe.bind (safe_unplacing hfetch) (fun _ w₃ _ => ?_) fun _ _ _ => trivial
  refine Prog.Safe.bind (P := Prog.Any) (safe_settled ((computeLocal_still _).mono
    fun _ _ => settled_of_still)) (fun ⟨size, md5⟩ w₄ _ => ?_) fun _ _ _ => trivial
  refine Prog.Safe.bind (P := Prog.Any) (safe_unplacing ⟨rfl, fun _ => trivial⟩)
    (fun _ w₅ _ => ?_) fun _ _ _ => trivial
  split
  · exact (safe_sql _).mpr fun h => ⟨housed_db h not_false, trivial⟩
  · trivial

/-- The paths of the live rows, and the ways to a new one. -/
def Before (items : ItemTable) (new : RelPath) (s : RelPath) : Prop :=
  (∃ r ∈ items, r.trashedAt = none ∧ r.relativePath = s) ∨ s <+: new.splitParent.1

/-- **Moving the rows** of a rename, wherever the programs before it have put rows. -/
lemma safe_renameSubtree {items : ItemTable} {old new : RelPath} {q : Task Unit}
    (hq : q.Safe (handle env) (.solo (Housed (Before items new) NoObject)) Prog.Any w)
    (hstart : Housed (Before items new) NoObject w)
    (hsub : ∀ s, Before items new s → A s) (hmoved : ∀ s, Moved items old new s → A s) :
    (q.bind fun _ => sql (.renameSubtree old new)).Safe (handle env) (.solo (Housed A NoObject))
      Prog.Any w := by
  refine Prog.Safe.bind (hq.of_inv (fun w' h r hr hc => hsub _ (h r hr hc)) hstart)
    (fun _ w₁ ⟨hbefore, _⟩ => ?_) fun _ _ _ => trivial
  refine (safe_sql _).mpr fun h => ⟨housed_db h fun r hr hcounts hselected => ?_, trivial⟩
  exact hmoved _ (.inr ⟨r.relativePath, hbefore r hr hcounts, hselected, rfl⟩)

lemma housed_before {items : ItemTable} {new : RelPath} (hitems : w.db.items = items) :
    Housed (Before items new) NoObject w := by
  intro r hr hcounts
  rcases hcounts with hlive | ⟨rid, hrid, -⟩
  · exact .inl ⟨r, hitems ▸ hr, hlive, rfl⟩
  · exact absurd hrid id

/-- **RenameRemote.** -/
lemma safe_executeRenameRemote {payload : Option Payload} (hhoused : Housed A NoObject w)
    (hmoved : ∀ p, payload = some (.rename p) →
      ∀ q, Moved w.db.items item.relativePath p.newRelativePath q → A q) :
    (executeRenameRemote root item payload).Safe (handle env) (.solo (Housed A NoObject))
      Prog.Any w := by
  refine Prog.Safe.bind (P := fun x w' => w' = w ∧ x = decodePayload Payload.asRename payload)
    ((Prog.safe_ofExcept _).mpr ⟨rfl, rfl⟩) (fun p w₁ ⟨hw₁, hp⟩ => ?_) fun _ _ _ => trivial
  subst hw₁
  have hpayload := asRename_ok hp.symm
  cases hremote : item.remoteId with
  | none => exact safe_unplacing ⟨rfl, fun _ => trivial⟩
  | some rid =>
    have hmove : ∀ parent, (Engine.moveRemote rid parent p.newRelativePath.splitParent.2).Only
        fun _ c => unplacing c = true := fun parent =>
      Prog.Only.bind ⟨rfl, fun x => Prog.only_ofExcept x⟩ fun _ =>
        ⟨rfl, fun x => Prog.only_ofExcept x⟩
    have hsub : ∀ s, Before w₁.db.items p.newRelativePath s → A s := by
      rintro s (⟨r, hr, hlive, rfl⟩ | hway)
      · exact hhoused r hr (.inl hlive)
      · exact hmoved p hpayload s (.inl (hway.trans (List.dropLast_prefix _)))
    have hfolder : (ensureRemoteFolder root p.newRelativePath.splitParent.1).Safe (handle env)
        (.solo (Housed (Before w₁.db.items p.newRelativePath) NoObject)) Prog.Any w₁ :=
      safe_ensureRemoteFolder fun q hq => .inr hq
    refine Prog.Safe.bind (hfolder.of_inv (fun w' h r hr hc => hsub _ (h r hr hc))
      (housed_before rfl)) (fun parent w₂ ⟨hbefore, _⟩ => ?_) fun _ _ _ => trivial
    refine safe_marked fun w₃ hdb => ?_
    have hbefore₃ : Housed (Before w₁.db.items p.newRelativePath) NoObject w₃ := by
      intro r hr
      rw [hdb] at hr
      exact hbefore r hr
    split
    · exact safe_renameSubtree (safe_unplacing (hmove parent)) hbefore₃ hsub (hmoved p hpayload)
    · refine Prog.Safe.bind (safe_unplacing (hmove parent)) (fun _ w₄ _ => ?_) fun _ _ _ => trivial
      exact (safe_sql _).mpr fun h => ⟨housed_db h (hmoved p hpayload _ (.inl List.prefix_rfl)),
        trivial⟩

/-- **RenameLocal.** -/
lemma safe_executeRenameLocal {payload : Option Payload} (hhoused : Housed A NoObject w)
    (hmoved : ∀ p, payload = some (.rename p) →
      ∀ q, Moved w.db.items item.relativePath p.newRelativePath q → A q) :
    (executeRenameLocal item payload).Safe (handle env) (.solo (Housed A NoObject))
      Prog.Any w := by
  refine Prog.Safe.bind (P := fun x w' => w' = w ∧ x = decodePayload Payload.asRename payload)
    ((Prog.safe_ofExcept _).mpr ⟨rfl, rfl⟩) (fun p w₁ ⟨hw₁, hp⟩ => ?_) fun _ _ _ => trivial
  subst hw₁
  have hpayload := asRename_ok hp.symm
  have hmove : (moveLocal item.relativePath p.newRelativePath).Only
      fun _ c => unplacing c = true := by
    refine Prog.Only.bind ⟨rfl, fun _ => trivial⟩ fun res => ?_
    split
    · trivial
    · split
      · trivial
      · split
        · exact ⟨rfl, fun x => Prog.only_ofExcept x⟩
        · trivial
  have hsub : ∀ s, Before w₁.db.items p.newRelativePath s → A s := by
    rintro s (⟨r, hr, hlive, rfl⟩ | hway)
    · exact hhoused r hr (.inl hlive)
    · exact hmoved p hpayload s (.inl (hway.trans (List.dropLast_prefix _)))
  have hdir : (ioTry (.createDirAll p.newRelativePath.parentDir)).Only
      fun _ c => unplacing c = true := ⟨rfl, fun x => Prog.only_ofExcept x⟩
  refine Prog.Safe.bind ((safe_unplacing (A := Before w₁.db.items p.newRelativePath) hdir).of_inv
    (fun w' h r hr hc => hsub _ (h r hr hc)) (housed_before rfl)) (fun _ w₂ ⟨hbefore, _⟩ => ?_)
    fun _ _ _ => trivial
  exact safe_renameSubtree (safe_unplacing hmove) hbefore hsub (hmoved p hpayload)

/-- **An operation** whose targets are in the set. -/
lemma safe_executeItem {op : PendingOperation} (hway : ∀ p q, A p → q <+: p → A q)
    (hitem : item ∈ w.db.items) (hhoused : Housed A NoObject w)
    (htargets : ∀ q, Targets w op item q → A q) :
    (executeItem env root op item).Safe (handle env) (.solo (Housed A NoObject)) Prog.Any w := by
  have habove : (item.trashedAt ≠ none → ∀ q, q <+: item.relativePath → A q) →
      ∀ q, q <+: item.relativePath → A q := by
    intro htombstone q hq
    by_cases hlive : item.trashedAt = none
    · exact hway _ q (hhoused item hitem (.inl hlive)) hq
    · exact htombstone hlive q hq
  have hrename : (op.op = .renameRemote ∨ op.op = .renameLocal) → ∀ p,
      op.payload = some (.rename p) →
        ∀ q, Moved w.db.items item.relativePath p.newRelativePath q → A q := by
    intro hop p hp q hq
    refine htargets q ?_
    rcases hop with hop | hop
    · simpa only [Targets, hop, hp] using hq
    · simpa only [Targets, hop, hp] using hq
  unfold executeItem
  split <;> rename_i hkind
  · exact safe_executeUpload (habove fun ht q hq => htargets q (by simp only [Targets, hkind]; exact ⟨ht, hq⟩))
  · exact safe_executeDownload
  · exact safe_settled executeDeleteRemote_settled
  · exact safe_settled executeDeleteLocal_settled
  · exact Prog.Safe.bind (safe_ensureRemoteFolder (habove fun ht q hq =>
      htargets q (by simp only [Targets, hkind]; exact ⟨ht, hq⟩))) (fun _ _ _ => trivial) fun _ _ _ => trivial
  · exact safe_unplacing (Prog.Only.bind ⟨rfl, fun x => Prog.only_ofExcept x⟩ fun _ =>
      ⟨rfl, fun _ => trivial⟩)
  · exact safe_unplacing ((Prog.only_ofExcept _).bind fun p => Prog.Only.bind
      ⟨rfl, fun x => Prog.only_ofExcept x⟩ fun _ => ⟨rfl, fun x => Prog.only_ofExcept x⟩)
  · exact safe_executeRenameRemote hhoused (hrename (.inl hkind))
  · exact safe_executeRenameLocal hhoused (hrename (.inr hkind))
  · trivial

end Operations

/-! ## Runs -/

/-- The path lies below none of the directories. -/
def Outside (D : RelPath → Prop) (q : RelPath) : Prop := ∀ p, D p → RelPath.below p q = false

/-- The directory is on neither side, and has no live row. -/
structure Gone (root : FileId) (p : RelPath) (w : World) : Prop where
  row : ∀ r ∈ w.db.items, r.trashedAt = none → r.relativePath ≠ p
  disk : w.fs.node p ≠ some .dir
  drive : ∀ n, ¬FolderAt w.remote.drive root p n

/-- The action drops the row of a directory: it works on the operation that deletes it on one side,
or handles the deletion of one that was not uploaded yet. -/
def Removes (w : World) (a : Action) (item : SyncItem) : Prop :=
  item.kind = .dir ∧ ((∃ root calls op, a = .job (.drain root) calls ∧ Executes w op item ∧
      (op.op = .deleteRemote ∨ op.op = .deleteLocal)) ∨
    ∃ p calls, a = .job (.event (.deleted p)) calls ∧
      w.db.items.getByRelativePath p = some item ∧ item.remoteId = none)

/-- The directories that were deleted so far, with those that the action deletes. -/
def DeletedBy (D : RelPath → Prop) (w : World) (a : Action) (p : RelPath) : Prop :=
  D p ∨ ∃ item, Removes w a item ∧ item.relativePath = p

/-- The runs, with the mapped folder, which may change between two actions, and with the
directories that were deleted and have stayed away since. -/
inductive Traces (env : Env) (meets : FileId → (RelPath → Prop) → World → Action → Prop)
    (w₀ : World) : FileId → (RelPath → Prop) → World → Prop
  | start (root : FileId) : Traces env meets w₀ root (fun _ => False) w₀
  | step {root : FileId} {D : RelPath → Prop} {w : World} {a : Action} (root' : FileId)
      (trace : Traces env meets w₀ root D w) (ok : meets root D w a) :
      Traces env meets w₀ root' (fun p => DeletedBy D w a p ∧ Gone root' p (a.perform env w))
        (a.perform env w)

/-- What the daemon can do: it works on the mapped folder. -/
def Possible (root : FileId) (_ : RelPath → Prop) (_ : World) : Action → Prop
  | .job (.initial _ root') _ => root' = root
  | _ => True

/-- The actions that leave no row below a deleted directory, and put none there. -/
structure Fits (root : FileId) (D : RelPath → Prop) (w : World) (a : Action) : Prop where
  /-- The action can happen. -/
  possible : Possible root D w a
  /-- A directory is deleted after what lies below it. -/
  last : ∀ item, Removes w a item → ∀ r ∈ w.db.items, r.trashedAt = none →
    RelPath.below item.relativePath r.relativePath = false
  /-- A row that was not uploaded yet is not renamed into a deleted directory. -/
  event : ∀ from' to' calls item, a = .job (.event (.renamed from' to')) calls →
    w.db.items.getByRelativePath from' = some item → item.remoteId = none → Outside D to'
  /-- The objects of a batch, and their tombstones, do not lie in a deleted directory. -/
  batch : ∀ b calls, a = .job (.batch b) calls → ∀ c ∈ b.changes, Landing (Outside D) c ∧
    ∀ r ∈ w.db.items, r.remoteId = some c.fileId → Outside D r.relativePath
  /-- An operation has no target there. -/
  drain : ∀ root' calls op item, a = .job (.drain root') calls → Executes w op item →
    ∀ q, Targets w op item q → Outside D q

/-- **Row tree closure**: in every state that is reached from the first start on by actions that
meet a condition, no live row lies below a deleted directory. -/
def TreeClosed (env : Env) (meets : FileId → (RelPath → Prop) → World → Action → Prop) : Prop :=
  ∀ (w₀ : World) (root : FileId) (D : RelPath → Prop) (w : World), w₀.db = Db.empty →
    Traces env meets w₀ root D w →
      ∀ r ∈ w.db.items, r.trashedAt = none → Outside D r.relativePath

section Runs

variable {env : Env} {meets : FileId → (RelPath → Prop) → World → Action → Prop}
  {D : RelPath → Prop} {w₀ w : World} {root : FileId} {p q : RelPath}

lemma Outside.prefix (h : Outside D p) (hq : q <+: p) : Outside D q := by
  intro d hd
  by_contra hbelow
  obtain ⟨x, rest, rfl⟩ := RelPath.below_iff.mp (Bool.not_eq_false _ ▸ hbelow)
  obtain ⟨tail, rfl⟩ := hq
  have hp : RelPath.below d (d ++ x :: rest ++ tail) = true :=
    RelPath.below_iff.mpr ⟨x, rest ++ tail, by simp⟩
  rw [h d hd] at hp
  cases hp

lemma Outside.sub {D' : RelPath → Prop} (hsub : ∀ p, D' p → D p) (h : Outside D q) :
    Outside D' q := fun p hp => h p (hsub p hp)

/-- Every path of the tracked directories is gone. -/
lemma Traces.gone (h : Traces env meets w₀ root D w) (hp : D p) : Gone root p w := by
  cases h with
  | start root => exact absurd hp id
  | step root' trace ok => exact hp.2

/-- What is on disk does not lie in a directory that is gone. -/
lemma onDisk_of_gone (h : ∀ p, D p → Gone root p w) : OnDisk (Outside D) w.fs := by
  intro q hq p hp
  by_contra hbelow
  obtain ⟨x, rest, rfl⟩ := RelPath.below_iff.mp (Bool.not_eq_false _ ▸ hbelow)
  exact (h p hp).disk (w.fs.dir_of_below hq)

lemma prefix_dropLast_of_below (h : RelPath.below p q = true) : p <+: q.dropLast := by
  obtain ⟨x, rest, rfl⟩ := RelPath.below_iff.mp h
  rw [List.dropLast_append_of_ne_nil (by simp)]
  exact List.prefix_append _ _

/-- What lies on Drive does not lie in a directory that is gone. -/
lemma outside_of_lies {f : DriveFile} (h : ∀ p, D p → Gone root p w)
    (hf : InitialPlaces.Lies w.remote.drive root q f) : Outside D (InitialPlaces.ownPath q f) := by
  intro p hp
  by_contra hbelow
  have hway := prefix_dropLast_of_below (Bool.not_eq_false _ ▸ hbelow)
  have hparent : (InitialPlaces.ownPath q f).dropLast = q.dropLast := by
    unfold InitialPlaces.ownPath
    split
    · simp [Shortcut.relativePath]
    · rfl
  rw [hparent] at hway
  obtain ⟨n, hn, -⟩ := hf.object.folder
  obtain ⟨m, hm⟩ := Drive.folderAt_of_prefix hn hway
  exact (h p hp).drive m hm

lemma outside_deletedBy {a : Action} (hnone : ∀ item, ¬Removes w a item) (h : Outside D q) :
    Outside (DeletedBy D w a) q := by
  rintro p (hp | ⟨item, hremoves, -⟩)
  · exact h p hp
  · exact absurd hremoves (hnone item)

/-- Only the drain loop and the deletion of a path drop rows of directories. -/
lemma not_removes {j : Job} {calls : ℕ} (hdrain : ∀ root, j ≠ .drain root)
    (hevent : ∀ p, j ≠ .event (.deleted p)) (item : SyncItem) :
    ¬Removes w (.job j calls) item := by
  rintro ⟨-, ⟨root, _, _, h, -⟩ | ⟨p, _, h, -⟩⟩
  · cases h
    exact hdrain root rfl
  · cases h
    exact hevent p rfl

lemma unplacing_of_passing {β : Type} {c : Call β} (hc : InitialPlaces.passing c = true) :
    unplacing c = true := by
  cases c with
  | db c =>
    cases c with
    | getByRelativePath rel => rfl
    | setCursor token => rfl
    | _ => cases hc
  | _ => rfl

/-- **Every job** of such an action keeps the live rows outside of the deleted directories. -/
lemma safe_task {j : Job} {calls : ℕ} (hgone : ∀ p, D p → Gone root p w)
    (hhoused : Housed (Outside (DeletedBy D w (.job j calls))) NoObject w)
    (hfits : Fits root D w (.job j calls)) :
    (j.task env).Safe (handle env)
      (.solo (Housed (Outside (DeletedBy D w (.job j calls))) NoObject)) Prog.Any w := by
  have hvoid : ∀ {α : Type} {q : Task α}, (q.Only fun _ c => settled c = true) →
      (void q).Only fun _ c => settled c = true := fun hq => hq.bind fun _ => trivial
  cases j with
  | event ev =>
    by_cases hdeleted : ∃ p, ev = .deleted p
    · obtain ⟨p, rfl⟩ := hdeleted
      exact safe_settled ((applyDeleted_offDisk p).mono fun _ _ => And.left)
    · have hnone : ∀ item, ¬Removes w (.job (.event ev) calls) item :=
        not_removes (fun root => nofun) fun p h => hdeleted ⟨p, Job.event.inj h⟩
      refine (safe_applyLocal (fun q hq => outside_deletedBy hnone (onDisk_of_gone hgone q hq))
        fun from' to' item hev hrow hnot => ?_).mono fun _ _ _ => trivial
      exact outside_deletedBy hnone (hfits.event from' to' calls item (by rw [← hev]) hrow hnot)
  | batch b =>
    have hnone : ∀ item, ¬Removes w (.job (.batch b) calls) item :=
      not_removes (fun root => nofun) fun p => nofun
    set A := Outside (DeletedBy D w (.job (.batch b) calls)) with hA
    have hstart : Housed A (fun rid => ∃ c ∈ b.changes, c.fileId = rid) w := by
      rintro r hr (hlive | ⟨rid, ⟨c, hc, rfl⟩, hbound⟩)
      · exact hhoused r hr (.inl hlive)
      · exact outside_deletedBy hnone ((hfits.batch b calls rfl c hc).2 r hr hbound)
    refine (Prog.Safe.of_inv ?_ (safe_applyBatch fun c hc => ⟨?_, c, hc, rfl⟩) hstart).mono
      fun _ _ _ => trivial
    · rintro w' h r hr (hlive | ⟨rid, hrid, -⟩)
      · exact h r hr (.inl hlive)
      · exact absurd hrid id
    · intro file hfile
      obtain ⟨hpath, hpointer⟩ := (hfits.batch b calls rfl c hc).1 file hfile
      exact ⟨outside_deletedBy hnone hpath, outside_deletedBy hnone hpointer⟩
  | drain root' =>
    refine Prog.Safe.bind (safe_drainOne (fun _ _ _ hc hI => housed_call hI (fine_of_settled (settled_of_booking hc)))
      fun op item hexec hI => safe_executeItem (fun p q => Outside.prefix) (ItemTable.getById_eq_some.mp hexec.row).1 hI
        fun q hq => ?_) (fun _ _ _ => trivial) fun _ _ _ => trivial
    refine outside_deletedBy ?_ (hfits.drain root' calls op item rfl hexec q hq)
    rintro item' ⟨-, ⟨root'', calls', op', h, hexec', hop'⟩ | ⟨_, _, h, -⟩⟩
    · obtain rfl := Option.some.inj (hexec.next.symm.trans hexec'.next)
      rcases hop' with hop | hop <;> simp [Targets, hop] at hq
    · cases h
  | poll fuel root' cache => exact safe_settled (hvoid (KindSafety.tick_settled _ _ _))
  | scan =>
    have hnone : ∀ item, ¬Removes w (.job .scan calls) item :=
      not_removes (fun root => nofun) fun p => nofun
    exact safe_startupLocalScan fun q hq => outside_deletedBy hnone (onDisk_of_gone hgone q hq)
  | initial fuel root' =>
    have hnone : ∀ item, ¬Removes w (.job (.initial fuel root') calls) item :=
      not_removes (fun root => nofun) fun p => nofun
    have hroot : root' = root := hfits.possible
    subst hroot
    set A := Outside (DeletedBy D w (.job (.initial fuel root') calls)) with hA
    have hkeeps : InitialPlaces.Keeps env root' A (Housed A NoObject) := by
      exact ⟨fun hc h => housed_call h (fine_of_unplacing (unplacing_of_passing hc)),
        fun _ _ _ hknown h => housed_db h hknown⟩
    refine InitialPlaces.safe_initial hkeeps (fun e he => ?_) fun p f hlies => ?_
    · obtain ⟨n, hnode, -⟩ := node_of_walk he
      exact outside_deletedBy hnone (onDisk_of_gone hgone _ (by rw [hnode]; exact Option.some_ne_none _))
    · exact outside_deletedBy hnone (outside_of_lies hgone hlies)
  | housekeeping =>
    exact safe_settled (Prog.Only.bind ⟨rfl, fun _ => trivial⟩ fun _ => ⟨rfl, fun _ => trivial⟩)
  | ensureRoot mayCreate m => exact safe_settled (hvoid (KindSafety.ensureRemoteRoot_settled _ _))
  | map autoCreate confirmed localPath spec =>
    exact safe_settled (KindSafety.map_settled _ _ _ _)

/-- **No row is left below a deleted directory** when directories are deleted after what lies below
them, and nothing is recorded there later. -/
theorem rows_closed (env : Env) : TreeClosed env Fits := by
  intro w₀ root D w _ h
  have hhoused : Housed (Outside D) NoObject w := by
    induction h with
    | start root => exact fun r _ _ p hp => absurd hp id
    | @step root D w a root' trace ok ih =>
      have hsub : ∀ {w' : World}, Housed (Outside (DeletedBy D w a)) NoObject w' →
          Housed (Outside fun p => DeletedBy D w a p ∧ Gone root' p (a.perform env w)) NoObject w' :=
        fun h r hr hc => (h r hr hc).sub fun p hp => hp.1
      have hbefore : Housed (Outside (DeletedBy D w a)) NoObject w := by
        rintro r hr hc p (hp | ⟨item, hremoves, rfl⟩)
        · exact ih r hr hc p hp
        · rcases hc with hlive | ⟨rid, hrid, -⟩
          · exact ok.last item hremoves r hr hlive
          · exact absurd hrid id
      cases a with
      | job j calls => exact hsub ((safe_task (fun p => trace.gone) hbefore ok).cut hbefore calls)
      | outside w' => exact hsub hbefore
  exact fun r hr hlive => hhoused r hr (.inl hlive)

/-- The batch and the two operations that bring `d` and `d/a.txt`, and the removal of `d` by the
user. -/
def removal : List Action :=
  [.job KindSafety.arrival 100, .job (.drain (.id 2)) 100, .job (.drain (.id 2)) 100,
    .outside (byUser (.removeDirAll ["d"]) sampleArrived)]

/-- Both deletions are reported, and carried out. -/
def bothDeleted : List Action :=
  [.job (.event (.deleted ["d", "a.txt"])) 100, .job (.drain (.id 2)) 100,
    .job (.event (.deleted ["d"])) 100, .job (.drain (.id 2)) 100]

/-- The directory alone is reported, as when it is moved to the trash. -/
def loneDeleted : List Action :=
  [.job (.event (.deleted ["d"])) 100, .job (.drain (.id 2)) 100]

/-- The directories that were deleted along a list of actions on one mapped folder. -/
def deletedAll (env : Env) (root : FileId) :
    List Action → (RelPath → Prop) → World → RelPath → Prop
  | [], D, _ => D
  | a :: actions, D, w =>
    deletedAll env root actions (fun p => DeletedBy D w a p ∧ Gone root p (a.perform env w))
      (a.perform env w)

/-- All actions of a list meet a condition, each in the state before it. -/
def AllMeet (env : Env) (meets : FileId → (RelPath → Prop) → World → Action → Prop)
    (root : FileId) : List Action → (RelPath → Prop) → World → Prop
  | [], _, _ => True
  | a :: actions, D, w => meets root D w a ∧
    AllMeet env meets root actions (fun p => DeletedBy D w a p ∧ Gone root p (a.perform env w))
      (a.perform env w)

/-- A list of actions extends a run. -/
lemma Traces.performAll (actions : List Action) (h : Traces env meets w₀ root D w)
    (hmeets : AllMeet env meets root actions D w) :
    Traces env meets w₀ root (deletedAll env root actions D w) (performAll env actions w) := by
  induction actions generalizing D w with
  | nil => exact h
  | cons a actions ih => exact ih (h.step root hmeets.1) hmeets.2

/-- No folder of a name is left on Drive. -/
lemma not_folderAt {d : Drive} {x : String} {n : ℕ}
    (h : ∀ f ∈ d.files.table.rows, f.name = x → f.trashed = true) : ¬FolderAt d root [x] n := by
  intro hat
  obtain ⟨f, hf, -, -⟩ := InitialPlaces.lies_of_folderAt hat (by simp)
  have htrashed := h f hf.object.mem hf.object.name
  rw [hf.object.live] at htrashed
  cases htrashed

/-- An operation that puts no row anywhere. -/
lemma fits_drain (op : PendingOperation) {root' : FileId} {calls : ℕ}
    (hnext : OpTable.nextDue w.db.ops w.now = some op)
    (htargets : ∀ item q, ¬Targets w op item q)
    (hlast : ∀ item, w.db.items.getById op.syncItemId = some item → item.kind = .dir →
      op.op = .deleteRemote ∨ op.op = .deleteLocal → ∀ r ∈ w.db.items, r.trashedAt = none →
        RelPath.below item.relativePath r.relativePath = false) :
    Fits root D w (.job (.drain root') calls) := by
  refine ⟨trivial, ?_, fun _ _ _ _ h => (by cases h), fun _ _ h => (by cases h), ?_⟩
  · rintro item ⟨hdir, ⟨_, _, op', -, hexec, hop⟩ | ⟨_, _, h, -⟩⟩
    · obtain rfl := Option.some.inj (hnext.symm.trans hexec.next)
      exact hlast item hexec.row hdir hop
    · cases h
  · intro root'' calls' op' item _ hexec q hq
    obtain rfl := Option.some.inj (hnext.symm.trans hexec.next)
    exact absurd hq (htargets item q)

/-- The deletion of a path whose row is bound. -/
lemma fits_deleted {calls : ℕ} {item : SyncItem} (hrow : w.db.items.getByRelativePath p = some item)
    (hbound : item.remoteId ≠ none) : Fits root D w (.job (.event (.deleted p)) calls) := by
  refine ⟨trivial, ?_, fun _ _ _ _ h => (by cases h), fun _ _ h => (by cases h),
    fun _ _ _ _ h => (by cases h)⟩
  rintro item' ⟨-, ⟨_, _, _, h, -⟩ | ⟨p', _, h, hrow', hnot⟩⟩
  · cases h
  · cases h
    obtain rfl := Option.some.inj (hrow.symm.trans hrow')
    exact absurd hnot hbound

lemma fits_outside {w' : World} : Fits root D w (.outside w') := by
  refine ⟨trivial, ?_, fun _ _ _ _ h => (by cases h), fun _ _ h => (by cases h),
    fun _ _ _ _ h => (by cases h)⟩
  rintro item ⟨-, ⟨_, _, _, h, -⟩ | ⟨_, _, h, -⟩⟩ <;> cases h

/-- The batch that brings `d` and `d/a.txt`, when no directory was deleted yet. -/
lemma fits_arrival : Fits (.id 2) (fun _ => False) (World.fresh sampleNested)
    (.job KindSafety.arrival 100) := by
  refine ⟨trivial, fun item h => absurd h ?_, fun _ _ _ _ h => (by cases h), ?_,
    fun _ _ _ _ h => (by cases h)⟩
  · exact not_removes (fun root h => (by cases h)) (fun p h => (by cases h)) item
  · exact fun b calls _ c _ => ⟨fun file _ => ⟨fun _ => False.elim, fun _ => False.elim⟩,
      fun r _ _ _ => False.elim⟩

/-- **A directory whose file is deleted first** leaves no row. -/
theorem child_first_leaves_none : ∀ r ∈ (performAll .plain (removal ++ bothDeleted)
    (World.fresh sampleNested)).db.items, r.trashedAt = none →
      RelPath.below ["d"] r.relativePath = false := by
  have hfile : ∀ item, (performAll .plain (removal ++ [.job (.event (.deleted ["d", "a.txt"])) 100])
      (World.fresh sampleNested)).db.items.getById 2 = some item → item.kind ≠ .dir := by
    intro item hrow
    obtain rfl := Option.some.inj ((rfl : ItemTable.getById _ 2 = some _).symm.trans hrow)
    exact (by decide : ItemKind.file ≠ .dir)
  have hdir : ∀ item, (performAll .plain (removal ++ bothDeleted.take 3)
      (World.fresh sampleNested)).db.items.getById 1 = some item → item.relativePath = ["d"] := by
    intro item hrow
    obtain rfl := Option.some.inj ((rfl : ItemTable.getById _ 1 = some _).symm.trans hrow)
    rfl
  have hlone : ∀ r ∈ (performAll .plain (removal ++ bothDeleted.take 3)
      (World.fresh sampleNested)).db.items.rows, RelPath.below ["d"] r.relativePath = false := by
    decide +kernel
  have htrace : Traces .plain Fits (World.fresh sampleNested) (.id 2) _ _ :=
    (Traces.start (.id 2)).performAll (removal ++ bothDeleted)
      ⟨fits_arrival,
        fits_drain (⟨1, 1, .createDirLocal, none, 0, 0⟩) rfl (fun _ _ => id)
          (fun _ _ _ h => (by rcases h with h | h <;> cases h)),
        fits_drain (⟨2, 2, .download, some (.download ⟨.id 4, 1, "A", ["d", "a.txt"]⟩), 0, 0⟩)
          rfl (fun _ _ => id) (fun _ _ _ h => (by rcases h with h | h <;> cases h)),
        fits_outside,
        fits_deleted rfl (by decide),
        fits_drain (⟨3, 2, .deleteRemote, none, 0, 0⟩) rfl (fun _ _ => id)
          (fun item hrow hkind => absurd hkind (hfile item hrow)),
        fits_deleted rfl (by decide),
        fits_drain (⟨4, 1, .deleteRemote, none, 0, 0⟩) rfl (fun _ _ => id)
          (fun item hrow _ _ r hr _ => hdir item hrow ▸ hlone r hr), trivial⟩
  have hexec : Executes (performAll .plain (removal ++ bothDeleted.take 3)
      (World.fresh sampleNested)) ⟨4, 1, .deleteRemote, none, 0, 0⟩ _ := ⟨rfl, by decide, rfl⟩
  have hgone : Gone (.id 2) ["d"] (performAll .plain (removal ++ bothDeleted)
      (World.fresh sampleNested)) :=
    ⟨by decide +kernel, by decide +kernel, fun n => not_folderAt (by decide +kernel)⟩
  have hdeleted : deletedAll .plain (.id 2) (removal ++ bothDeleted) (fun _ => False)
      (World.fresh sampleNested) ["d"] :=
    ⟨.inr ⟨_, ⟨rfl, .inl ⟨.id 2, 100, _, rfl, hexec, .inl rfl⟩⟩, rfl⟩, hgone⟩
  exact fun r hr hlive => rows_closed .plain _ _ _ _ rfl htrace r hr hlive ["d"] hdeleted

/-- The row of the file is left when its directory alone is reported. -/
theorem child_row_left : ¬TreeClosed .plain Possible := by
  intro h
  have htrace : Traces .plain Possible (World.fresh sampleNested) (.id 2) _ _ :=
    (Traces.start (.id 2)).performAll (removal ++ loneDeleted)
      ⟨trivial, trivial, trivial, trivial, trivial, trivial, trivial⟩
  have hgone : Gone (.id 2) ["d"] (performAll .plain (removal ++ loneDeleted)
      (World.fresh sampleNested)) :=
    ⟨by decide +kernel, by decide +kernel, fun n => not_folderAt (by decide +kernel)⟩
  have hexec : Executes (performAll .plain (removal ++ [.job (.event (.deleted ["d"])) 100])
      (World.fresh sampleNested)) ⟨3, 1, .deleteRemote, none, 0, 0⟩ _ := ⟨rfl, by decide, rfl⟩
  have hdeleted : deletedAll .plain (.id 2) (removal ++ loneDeleted) (fun _ => False)
      (World.fresh sampleNested) ["d"] :=
    ⟨.inr ⟨_, ⟨rfl, .inl ⟨.id 2, 100, _, rfl, hexec, .inl rfl⟩⟩, rfl⟩, hgone⟩
  have hclosed := h _ _ _ _ rfl htrace
  have hrow : ∃ r ∈ (performAll .plain (removal ++ loneDeleted) (World.fresh sampleNested)).db.items.rows,
      r.trashedAt = none ∧ r.relativePath = ["d", "a.txt"] := by decide +kernel
  obtain ⟨r, hr, hlive, hpath⟩ := hrow
  have hbelow := hclosed r hr hlive ["d"] hdeleted
  rw [hpath] at hbelow
  exact absurd hbelow (by decide)

end Runs

end AirDrive.RowTree
