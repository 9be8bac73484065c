import AirDrive.Daemon.Places
import AirDrive.Reconcile.Applied
import AirDrive.Reconcile.StartupScan
import AirDrive.System.Drain

set_option relaxedAutoImplicit false
set_option autoImplicit false

/-!
# Changes made while the daemon was stopped

The user changes the local tree while the daemon is stopped and Drive stays as it is. The startup
scan compares the tree with the rows and queues what is to be replayed. This file has the states
in which rows, tree and Drive agree, the local trees that the scan can replay, the invariant of
the replay, and the scan itself.

## Main definitions

* `AirDrive.CatchUp.Synced` — rows, local tree and Drive agree, and nothing is queued.
* `AirDrive.CatchUp.Replayable` — the local trees that the scan replays in full.
* `AirDrive.CatchUp.RowOk`, `AirDrive.CatchUp.Inv` — the invariant.

## Main results

* `AirDrive.CatchUp.inv_of_synced` — it holds when the daemon starts.
* `AirDrive.CatchUp.ends_startupLocalScan` — after the scan nothing is left to be looked at.
-/

namespace AirDrive.CatchUp

open Effect Outcomes

variable {env : Env} {root : FileId} {w₀ w w' : World} {F : Fs} {T : RelPath → Prop}
  {r : SyncItem} {p : RelPath}

/-! ## Agreement -/

/-- A path below the mapped folder, outside the staging area. -/
def Inside (p : RelPath) : Prop := p ≠ [] ∧ partialDir ∉ p

/-- A path that is kept in sync: it is not ignored. -/
def Seen (env : Env) (p : RelPath) : Prop := Inside p ∧ StartupScan.isIgnored env p = false

/-- A regular file on Drive, neither a folder nor a native document. -/
def Regular (f : DriveFile) : Prop :=
  f.mimeType ≠ folderMime ∧ Shortcut.isNative f.mimeType = false

/-- The live row of a regular file. -/
def Tracked (r : SyncItem) : Prop :=
  r.kind = .file ∧ r.state ≠ .skipped ∧ r.trashedAt = none

/-- The path belongs to the pointer file of a native document. -/
def Pointer (w : World) (p : RelPath) : Prop :=
  ∃ r ∈ w.db.items, r.relativePath = p ∧ r.state = .skipped

/-- What the folders on Drive are like below the mapped folder: a tree, in which every folder lies
at one path. -/
structure Tree (root : FileId) (d : Drive) : Prop where
  ground : d.Grounded
  mapped : d.resolve root < d.files.next
  one : ∀ p q n, FolderAt d root p n → FolderAt d root q n → p = q

/-- Rows, local tree and Drive agree on the paths that are kept in sync, and nothing is queued. -/
structure Synced (env : Env) (root : FileId) (w : World) : Prop where
  idle : Drained w
  tree : Tree root w.remote.drive
  /-- No row is that of the mapped folder itself or lies in the staging area. -/
  inside : ∀ r ∈ w.db.items, Inside r.relativePath
  /-- The recorded ids were given out by Drive. -/
  bound : ∀ r ∈ w.db.items, ∀ rid, r.remoteId = some rid →
    ∃ n < w.remote.drive.files.next, rid = .id n
  /-- A local node has a row. -/
  nodes : ∀ p, w.fs.node p ≠ none → Seen env p → ∃ r ∈ w.db.items, r.relativePath = p
  /-- A folder on Drive is a local directory. -/
  folders : ∀ p n, FolderAt w.remote.drive root p n → Seen env p → w.fs.node p = some .dir
  /-- A regular file on Drive has a row. -/
  objects : ∀ p f, ObjectAt w.remote.drive root p f → Regular f → Seen env p →
    ∃ r ∈ w.db.items, r.relativePath = p ∧ Tracked r ∧ r.remoteId = some (.id f.num)
  /-- The row of a directory. -/
  dirs : ∀ r ∈ w.db.items, r.kind = .dir → Seen env r.relativePath →
    r.trashedAt = none ∧ w.fs.node r.relativePath = some .dir ∧
      ∃ n, FolderAt w.remote.drive root r.relativePath n
  /-- The row of a regular file: the local file and the object have the content it records. -/
  files : ∀ r ∈ w.db.items, Tracked r → Seen env r.relativePath →
    ∃ b, w.fs.node r.relativePath = some (.file b) ∧ Placed env root r b w
  /-- It is the only row of the object, which is a regular file. -/
  own : ∀ r ∈ w.db.items, Tracked r → Seen env r.relativePath →
    (∀ s ∈ w.db.items, s.remoteId = r.remoteId → s = r) ∧
      ∀ f ∈ w.remote.drive.files, r.remoteId = some (.id f.num) → Regular f

/-- The Drive tree below the mapped folder equals the local tree, apart from pointer files. -/
structure Mirrors (env : Env) (root : FileId) (w₀ w : World) : Prop where
  folders : ∀ p, Seen env p →
    ((∃ n, FolderAt w.remote.drive root p n) ↔ w.fs.node p = some .dir)
  files : ∀ p, Seen env p → ¬Pointer w₀ p → ∀ b,
    (∃ f, ObjectAt w.remote.drive root p f ∧ Regular f ∧ f.content = some b) ↔
      w.fs.node p = some (.file b)
  contents : ∀ p f, ObjectAt w.remote.drive root p f → Regular f → Seen env p →
    f.content ≠ none

/-- The local trees that are replayed in full, for the state in which the daemon was stopped. -/
structure Replayable (env : Env) (w₀ : World) (F : Fs) : Prop where
  /-- No directory was deleted, moved away or replaced by a file. -/
  dirs : ∀ p, Seen env p → w₀.fs.node p = some .dir → F.node p = some .dir
  /-- No directory is where the row of a file is. -/
  files : ∀ r ∈ w₀.db.items, r.kind = .file → Seen env r.relativePath →
    F.node r.relativePath ≠ some .dir
  /-- No file is where the tombstone of a trashed file is. -/
  tombs : ∀ r ∈ w₀.db.items, r.trashedAt ≠ none → Seen env r.relativePath →
    ∀ b, F.node r.relativePath ≠ some (.file b)
  /-- An edited file has a new fingerprint. -/
  prints : ∀ p b c, Seen env p → w₀.fs.node p = some (.file c) → F.node p = some (.file b) →
    env.md5 b = env.md5 c → b.length = c.length → b = c
  /-- The user may delete the objects of the files that are gone. -/
  owned : ∀ r ∈ w₀.db.items, Tracked r → Seen env r.relativePath → F.node r.relativePath = none →
    ∀ f ∈ w₀.remote.drive.files, r.remoteId = some (.id f.num) → f.owned = true

/-! ## The invariant -/

/-- An operation is queued for the row. -/
def Queued (op : Operation) (r : SyncItem) (w : World) : Prop :=
  ∃ o ∈ w.db.ops, o.op = op ∧ o.syncItemId = r.id

/-- What is going to happen to a row that is as it was when the daemon was stopped: the scan still
comes to its path, or what the scan found is queued. -/
def Next (F : Fs) (T : RelPath → Prop) (r : SyncItem) (w : World) : Prop :=
  T r.relativePath ∨ (∃ b, F.node r.relativePath = some (.file b)) ∧ Queued .upload r w ∨
    F.node r.relativePath = none ∧ Queued .deleteRemote r w

/-- How the row of a regular file stands during the replay. -/
inductive Stand (env : Env) (root : FileId) (w₀ : World) (F : Fs) (T : RelPath → Prop)
    (r : SyncItem) (w : World) : Prop
  /-- A new file, still to be uploaded. -/
  | waiting (md5 : r.md5 = none) (remote : r.remoteId = none)
    (file : ∃ b, F.node r.relativePath = some (.file b)) (queued : Queued .upload r w)
  /-- The local file is on Drive. -/
  | placed (b : Bytes) (file : F.node r.relativePath = some (.file b))
    (placed : Placed env root r b w)
  /-- The row is as it was when the daemon was stopped. -/
  | old (c : Bytes) (before : w₀.fs.node r.relativePath = some (.file c))
    (placed : Placed env root r c w) (owned : F.node r.relativePath = none →
      ∀ f ∈ w.remote.drive.files, r.remoteId = some (.id f.num) → f.owned = true)
    (next : Next F T r w)

/-- What the invariant says about a row. -/
structure RowOk (env : Env) (root : FileId) (w₀ : World) (F : Fs) (T : RelPath → Prop)
    (w : World) (r : SyncItem) : Prop where
  inside : Inside r.relativePath
  bound : ∀ rid, r.remoteId = some rid → ∃ n < w.remote.drive.files.next, rid = .id n
  skipped : r.state = .skipped → Pointer w₀ r.relativePath
  dir : r.kind = .dir → Seen env r.relativePath → r.trashedAt = none ∧
    F.node r.relativePath = some .dir ∧
      ((∃ n, FolderAt w.remote.drive root r.relativePath n) ∨ Queued .createDirRemote r w)
  file : r.kind = .file → Seen env r.relativePath → F.node r.relativePath ≠ some .dir
  tomb : r.trashedAt ≠ none → Seen env r.relativePath →
    ∀ b, F.node r.relativePath ≠ some (.file b)
  stand : Tracked r → Seen env r.relativePath → Stand env root w₀ F T r w
  regular : Tracked r → Seen env r.relativePath →
    ∀ f ∈ w.remote.drive.files, r.remoteId = some (.id f.num) → Regular f

/-- An operation that the replay queues for a row. -/
def OpOk (env : Env) (F : Fs) (r : SyncItem) : Operation → Prop
  | .upload => (∃ b, F.node r.relativePath = some (.file b)) ∧ r.state ≠ .skipped ∧
      (Seen env r.relativePath → Tracked r)
  | .deleteRemote => Tracked r ∧ Seen env r.relativePath ∧ F.node r.relativePath = none
  | .createDirRemote => F.node r.relativePath = some .dir
  | _ => False

/-- The invariant of the replay of the local tree `F`, with the paths `T` that the scan still has
to look at. -/
structure Inv (env : Env) (root : FileId) (w₀ : World) (F : Fs) (T : RelPath → Prop)
    (w : World) : Prop where
  fs : w.fs = F
  tree : Tree root w.remote.drive
  folders : ∀ p n, FolderAt w.remote.drive root p n → Seen env p → F.node p = some .dir
  objects : ∀ p f, ObjectAt w.remote.drive root p f → Regular f → Seen env p →
    ∃ r ∈ w.db.items, r.relativePath = p ∧ Tracked r ∧ r.remoteId = some (.id f.num)
  rows : ∀ r ∈ w.db.items, RowOk env root w₀ F T w r
  only : ∀ r ∈ w.db.items, Tracked r → Seen env r.relativePath → r.remoteId ≠ none →
    ∀ s ∈ w.db.items, s.remoteId = r.remoteId → s = r
  ops : ∀ o ∈ w.db.ops, ∃ r ∈ w.db.items, r.id = o.syncItemId ∧ OpOk env F r o.op
  nodes : ∀ p, F.node p ≠ none → Seen env p → T p ∨ ∃ r ∈ w.db.items, r.relativePath = p

/-- **At the start** all paths are still to be looked at. -/
lemma inv_of_synced (hs : Synced env root w₀) (hr : Replayable env w₀ F) (hfs : w.fs = F)
    (hdb : w.db = w₀.db) (hdrive : w.remote.drive = w₀.remote.drive) :
    Inv env root w₀ F (fun _ => True) w := by
  refine ⟨hfs, hdrive ▸ hs.tree, fun p n hn hp => ?_, ?_, fun r hmem => ?_, ?_, fun o ho => ?_,
    fun _ _ _ => .inl trivial⟩
  · rw [hdrive] at hn
    exact hr.dirs p hp (hs.folders p n hn hp)
  · rw [hdrive, hdb]
    exact hs.objects
  · rw [hdb] at hmem
    refine ⟨hs.inside r hmem, hdrive ▸ hs.bound r hmem, fun h => ⟨r, hmem, rfl, h⟩,
      fun hkind hp => ?_, hr.files r hmem, hr.tombs r hmem, fun ht hp => ?_, fun ht hp => ?_⟩
    · obtain ⟨hlive, hdir, hn⟩ := hs.dirs r hmem hkind hp
      rw [hdrive]
      exact ⟨hlive, hr.dirs _ hp hdir, .inl hn⟩
    · obtain ⟨c, hbefore, hprint, hobject⟩ := hs.files r hmem ht hp
      refine .old c hbefore ⟨hprint, ?_⟩ ?_ (.inl trivial)
      · rw [hdrive]
        exact hobject
      · rw [hdrive]
        exact hr.owned r hmem ht hp
    · rw [hdrive]
      exact (hs.own r hmem ht hp).2
  · rw [hdb]
    exact fun r hmem ht hp _ => (hs.own r hmem ht hp).1
  · rw [hdb] at ho
    exact absurd ho (hs.idle o)

/-! ## Frames -/

/-- What the invariant says about a row, in another world. -/
lemma RowOk.mono {T' : RelPath → Prop} (h : RowOk env root w₀ F T w r)
    (hnext : w.remote.drive.files.next ≤ w'.remote.drive.files.next)
    (hfolder : ∀ p n, FolderAt w.remote.drive root p n → FolderAt w'.remote.drive root p n)
    (hplaced : Tracked r → Seen env r.relativePath →
      ∀ b, Placed env root r b w → Placed env root r b w')
    (hobject : ∀ f' ∈ w'.remote.drive.files, r.remoteId = some (.id f'.num) →
      ∃ f ∈ w.remote.drive.files, f.num = f'.num ∧ f.mimeType = f'.mimeType ∧ f.owned = f'.owned)
    (hqueue : ∀ op, Queued op r w → Queued op r w')
    (hT : T r.relativePath → T' r.relativePath) : RowOk env root w₀ F T' w' r := by
  refine ⟨h.inside, fun rid hrid => ?_, h.skipped, fun hkind hp => ?_, h.file, h.tomb,
    fun ht hp => ?_, fun ht hp f' hf' hid => ?_⟩
  · obtain ⟨n, hn, rfl⟩ := h.bound rid hrid
    exact ⟨n, hn.trans_le hnext, rfl⟩
  · obtain ⟨hlive, hdir, hat⟩ := h.dir hkind hp
    exact ⟨hlive, hdir, hat.imp (fun ⟨n, hn⟩ => ⟨n, hfolder _ n hn⟩) (hqueue _)⟩
  · cases h.stand ht hp with
    | waiting md5 remote file queued => exact .waiting md5 remote file (hqueue _ queued)
    | placed b file placed => exact .placed b file (hplaced ht hp b placed)
    | old c before placed owned next =>
      refine .old c before (hplaced ht hp c placed) (fun hgone f' hf' hid => ?_) ?_
      · obtain ⟨f, hf, hnum, -, howned⟩ := hobject f' hf' hid
        exact howned ▸ owned hgone f hf (hnum ▸ hid)
      · exact next.imp hT (Or.imp (And.imp_right (hqueue _)) (And.imp_right (hqueue _)))
  · obtain ⟨f, hf, hnum, hmime, -⟩ := hobject f' hf' hid
    have hreg := h.regular ht hp f hf (hnum ▸ hid)
    rw [Regular, hmime] at hreg
    exact hreg

/-- The same Drive, and a queue that has not lost an operation of the row. -/
lemma RowOk.same {T' : RelPath → Prop} (h : RowOk env root w₀ F T w r)
    (hdrive : w'.remote.drive = w.remote.drive) (hqueue : ∀ op, Queued op r w → Queued op r w')
    (hT : T r.relativePath → T' r.relativePath) : RowOk env root w₀ F T' w' r := by
  refine h.mono ?_ ?_ (fun _ _ b ⟨hprint, hobject⟩ => ⟨hprint, ?_⟩) ?_ hqueue hT
  · rw [hdrive]
  · rw [hdrive]
    exact fun _ _ hn => hn
  · rw [hdrive]
    exact hobject
  · rw [hdrive]
    exact fun f hf _ => ⟨f, hf, rfl, rfl, rfl⟩

/-- **Queueing an operation** that the replay queues. -/
lemma Inv.note (h : Inv env root w₀ F T w) (hn : Continuous.Noted w w') {new : PendingOperation}
    (hops : ∀ o, o ∈ w'.db.ops ↔ o ∈ w.db.ops ∨ o = new) (hr : r ∈ w.db.items)
    (hid : new.syncItemId = r.id) (hok : OpOk env F r new.op) :
    Inv env root w₀ F T w' ∧ Queued new.op r w' := by
  refine ⟨⟨hn.fs.trans h.fs, hn.remote ▸ h.tree, hn.remote ▸ h.folders, ?_, fun s hs => ?_, ?_,
    fun o ho => ?_, ?_⟩, new, (hops new).mpr (.inr rfl), rfl, hid⟩
  · rw [hn.items, hn.remote]
    exact h.objects
  · rw [hn.items] at hs
    refine (h.rows s hs).same (by rw [hn.remote]) (fun op ⟨o, ho, hop⟩ => ?_) id
    exact ⟨o, (hops o).mpr (.inl ho), hop⟩
  · rw [hn.items]
    exact h.only
  · rw [hn.items]
    rcases (hops o).mp ho with ho | rfl
    · exact h.ops o ho
    · exact ⟨r, hr, hid.symm, hok⟩
  · rw [hn.items]
    exact h.nodes

/-- **The scan has looked at a path** when a node at the path has a row, and the row of a file
stands well without the scan. -/
lemma Inv.scanned (h : Inv env root w₀ F T w)
    (hnode : F.node p ≠ none → Seen env p → ∃ r ∈ w.db.items, r.relativePath = p)
    (hstand : ∀ r ∈ w.db.items, r.relativePath = p → Tracked r → Seen env p →
      Stand env root w₀ F (fun _ => False) r w) :
    Inv env root w₀ F (fun q => T q ∧ q ≠ p) w := by
  refine ⟨h.fs, h.tree, h.folders, h.objects, fun s hs => ?_, h.only, h.ops, fun q hq hseen => ?_⟩
  · by_cases hpath : s.relativePath = p
    · have hrow := h.rows s hs
      refine ⟨hrow.inside, hrow.bound, hrow.skipped, hrow.dir, hrow.file, hrow.tomb,
        fun ht hp => ?_, hrow.regular⟩
      cases hstand s hs hpath ht (hpath ▸ hp) with
      | waiting md5 remote file queued => exact .waiting md5 remote file queued
      | placed b file placed => exact .placed b file placed
      | old c before placed owned next =>
        exact .old c before placed owned (.inr (next.resolve_left id))
    · exact (h.rows s hs).same rfl (fun _ => id) fun hT => ⟨hT, hpath⟩
  · by_cases hpath : q = p
    · subst hpath
      exact .inr (hnode hq hseen)
    · exact (h.nodes q hq hseen).imp (fun hT => ⟨hT, hpath⟩) id

/-! ## New rows -/

/-- A new local node: its kind, and the operation that is queued for it. -/
inductive NewNode (F : Fs) (p : RelPath) : ItemKind → Operation → Prop
  | file (b : Bytes) (node : F.node p = some (.file b)) : NewNode F p .file .upload
  | dir (node : F.node p = some .dir) : NewNode F p .dir .createDirRemote

/-- The world after a row was inserted for a new local node, and its operation queued. -/
def inserted (w : World) (p : RelPath) (kind : ItemKind) (op : Operation) : World :=
  Continuous.queued { w with db := (w.db.insertItem (Continuous.localCreate p kind)).2 }
    w.db.items.nextId op none

variable {kind : ItemKind} {op : Operation}

/-- The row that was inserted. -/
def newRow (w : World) (p : RelPath) (kind : ItemKind) : SyncItem :=
  (Continuous.localCreate p kind).withId w.db.items.nextId

lemma inserted_items (hfree : w.db.items.getByRelativePath p = none) (s : SyncItem) :
    s ∈ (inserted w p kind op).db.items ↔ s ∈ w.db.items ∨ s = newRow w p kind := by
  obtain ⟨-, hmem⟩ := @Db.insertItem_of_free w.db (Continuous.localCreate p kind) hfree
  rw [inserted, Continuous.queued_items]
  exact hmem s

lemma inserted_ops (hfree : w.db.items.getByRelativePath p = none) (o : PendingOperation) :
    o ∈ (inserted w p kind op).db.ops ↔
      o ∈ w.db.ops ∨ o = Continuous.nextOp
        { w with db := (w.db.insertItem (Continuous.localCreate p kind)).2 }
        w.db.items.nextId op none := by
  obtain ⟨-, hmem⟩ := @Db.insertItem_of_free w.db (Continuous.localCreate p kind) hfree
  have hops : (w.db.insertItem (Continuous.localCreate p kind)).2.ops = w.db.ops :=
    DbCall.ops_run_eq (c := .insertItem (Continuous.localCreate p kind)) rfl rfl
  have hrow : ∃ r ∈ (w.db.insertItem (Continuous.localCreate p kind)).2.items,
      r.id = w.db.items.nextId := ⟨_, (hmem _).mpr (.inr rfl), rfl⟩
  have hqueue := @Continuous.mem_queued
    { w with db := (w.db.insertItem (Continuous.localCreate p kind)).2 } _ op none hrow o
  simp only [hops] at hqueue
  exact hqueue

/-- **A row for a new local node.** -/
lemma Inv.inserted (h : Inv env root w₀ F T w) (hfree : w.db.items.getByRelativePath p = none)
    (hnode : NewNode F p kind op) (hinside : Inside p) :
    Inv env root w₀ F T (inserted w p kind op) := by
  have hitems := @inserted_items w p kind op hfree
  have hops := @inserted_ops w p kind op hfree
  have hnew : newRow w p kind ∈ (CatchUp.inserted w p kind op).db.items :=
    (hitems _).mpr (.inr rfl)
  have hqueued : Queued op (newRow w p kind) (CatchUp.inserted w p kind op) :=
    ⟨_, (hops _).mpr (.inr rfl), rfl, rfl⟩
  have hkept : ∀ s ∈ w.db.items, s ∈ (CatchUp.inserted w p kind op).db.items := fun s hs =>
    (hitems s).mpr (.inl hs)
  refine ⟨h.fs, h.tree, h.folders, fun q f hf hreg hq => ?_, fun s hs => ?_,
    fun s hs ht hp hne s' hs' heq => ?_, fun o ho => ?_, fun q hq hseen => ?_⟩
  · obtain ⟨s, hs, hrest⟩ := h.objects q f hf hreg hq
    exact ⟨s, hkept s hs, hrest⟩
  · rcases (hitems s).mp hs with hs | rfl
    · exact (h.rows s hs).same rfl (fun op ⟨o, ho, hop⟩ => ⟨o, (hops o).mpr (.inl ho), hop⟩) id
    · refine ⟨hinside, fun n hn => (by cases hn), fun hs => (by cases hs), fun hkind _ => ?_,
        fun hkind _ => ?_, fun hs => absurd rfl hs, fun ht _ => ?_,
        fun _ _ f _ hid => (by cases hid)⟩
      · cases hnode with
        | file b node => cases hkind
        | dir node => exact ⟨rfl, node, .inr hqueued⟩
      · cases hnode with
        | file b node =>
          show F.node p ≠ some .dir
          rw [node]
          simp
        | dir node => cases hkind
      · cases hnode with
        | file b node => exact .waiting rfl rfl ⟨b, node⟩ hqueued
        | dir node => cases ht.1
  · rcases (hitems s).mp hs with hs | rfl
    · rcases (hitems s').mp hs' with hs' | rfl
      · exact h.only s hs ht hp hne s' hs' heq
      · exact absurd heq.symm hne
    · exact absurd rfl hne
  · rcases (hops o).mp ho with ho | rfl
    · obtain ⟨s, hs, hrest⟩ := h.ops o ho
      exact ⟨s, hkept s hs, hrest⟩
    · refine ⟨newRow w p kind, hnew, rfl, ?_⟩
      cases hnode with
      | file b node => exact ⟨⟨b, node⟩, nofun, fun _ => ⟨rfl, nofun, rfl⟩⟩
      | dir node => exact node
  · rcases h.nodes q hq hseen with hT | ⟨s, hs, hrest⟩
    · exact .inl hT
    · exact .inr ⟨s, hkept s hs, hrest⟩

/-! ## Local nodes -/

/-- What a call for a local node comes to: the invariant stays, and no row is lost. -/
structure Noticed (env : Env) (root : FileId) (w₀ : World) (F : Fs) (T : RelPath → Prop)
    (w w' : World) : Prop where
  inv : Inv env root w₀ F T w'
  remote : w'.remote = w.remote
  rows : ∀ r ∈ w.db.items, r ∈ w'.db.items

lemma Noticed.refl (h : Inv env root w₀ F T w) : Noticed env root w₀ F T w w :=
  ⟨h, rfl, fun _ hr => hr⟩

lemma Noticed.trans {w'' : World} (h : Noticed env root w₀ F T w w')
    (h' : Noticed env root w₀ F T w' w'') : Noticed env root w₀ F T w w'' :=
  ⟨h'.inv, h'.remote.trans h.remote, fun r hr => h'.rows r (h.rows r hr)⟩

/-- The row at the path of a local file is that of a file. -/
lemma RowOk.tracked {b : Bytes} (h : RowOk env root w₀ F T w r)
    (hfile : F.node r.relativePath = some (.file b)) (hskip : r.state ≠ .skipped)
    (hp : Seen env r.relativePath) : Tracked r := by
  refine ⟨?_, hskip, ?_⟩
  · cases hkind : r.kind with
    | file => rfl
    | dir =>
      have hdir := (h.dir hkind hp).2.1
      rw [hfile] at hdir
      cases hdir
  · by_contra htomb
    exact h.tomb htomb hp b hfile

/-- The upload of a local file that has a row. -/
lemma Inv.upload {b : Bytes} (h : Inv env root w₀ F T w) (hr : r ∈ w.db.items)
    (hfile : F.node r.relativePath = some (.file b)) (hskip : r.state ≠ .skipped) :
    Noticed env root w₀ F T w (Continuous.queued w r.id .upload none) ∧
      Queued .upload r (Continuous.queued w r.id .upload none) := by
  have hok : OpOk env F r .upload :=
    ⟨⟨b, hfile⟩, hskip, fun hp => (h.rows r hr).tracked hfile hskip hp⟩
  obtain ⟨hinv, hqueued⟩ := h.note (Continuous.noted_queued w r.id .upload none)
    (fun o => Continuous.mem_queued ⟨r, hr, rfl⟩) hr rfl hok
  exact ⟨⟨hinv, rfl, fun s hs => Continuous.queued_items.symm ▸ hs⟩, hqueued⟩

lemma Inv.noticed_inserted {kind : ItemKind} {op : Operation} (h : Inv env root w₀ F T w)
    (hfree : w.db.items.getByRelativePath p = none) (hnode : NewNode F p kind op)
    (hinside : Inside p) : Noticed env root w₀ F T w (CatchUp.inserted w p kind op) :=
  ⟨h.inserted hfree hnode hinside, rfl, fun s hs => (inserted_items hfree s).mpr (.inl hs)⟩

lemma ends_enqueueLocalFile {b : Bytes} (h : Inv env root w₀ F T w)
    (hfile : F.node p = some (.file b)) (hinside : Inside p) :
    Ends env (fun x w' => x = .ok () ∧ Noticed env root w₀ F T w w' ∧
      (w.db.items.getByRelativePath p = none → newRow w p .file ∈ w'.db.items))
      (Continuous.enqueueLocalFile p) w := by
  cases hrow : w.db.items.getByRelativePath p with
  | some item =>
    obtain ⟨hitem, hpath⟩ := ItemTable.getByRelativePath_eq_some.mp hrow
    by_cases hskip : item.state = .skipped
    · unfold Continuous.enqueueLocalFile
      rw [Prog.bind_eq, Ends, Prog.safe_bind, safe_sql]
      refine fun _ => ⟨trivial, ?_⟩
      simp only [DbCall.run, hrow, hskip, if_true]
      exact ⟨rfl, .refl h, fun hnone => by cases hnone⟩
    · refine Continuous.ends_enqueueLocalFile_tracked hrow hskip ⟨rfl, ?_, fun hnone => ?_⟩
      · exact (h.upload hitem (hpath ▸ hfile) hskip).1
      · cases hnone
  | none =>
    refine Continuous.ends_enqueueLocalFile_untracked hrow ⟨rfl, ?_, fun _ => ?_⟩
    · exact h.noticed_inserted hrow (.file b hfile) hinside
    · exact (inserted_items hrow _).mpr (.inr rfl)

lemma ends_enqueueLocalDir (h : Inv env root w₀ F T w) (hdir : F.node p = some .dir)
    (hinside : Inside p) :
    Ends env (fun x w' => x = .ok () ∧ Noticed env root w₀ F T w w' ∧
      (w.db.items.getByRelativePath p = none → newRow w p .dir ∈ w'.db.items))
      (Continuous.enqueueLocalDir p) w := by
  unfold Continuous.enqueueLocalDir
  rw [Prog.bind_eq, Ends, Prog.safe_bind, safe_sql]
  refine fun _ => ⟨trivial, ?_⟩
  cases hrow : w.db.items.getByRelativePath p with
  | some item =>
    simp only [DbCall.run, hrow]
    exact ⟨rfl, .refl h, fun hnone => by cases hnone⟩
  | none =>
    obtain ⟨hok, hmem⟩ := @Db.insertItem_of_free w.db (Continuous.localCreate p .dir) hrow
    simp only [DbCall.run, hrow, Prog.bind_eq, Prog.safe_bind, safe_sqlTry, hok, true_and,
      forall_const]
    refine Continuous.ends_enqueueOp ⟨_, (hmem _).mpr (.inr rfl), rfl⟩ ⟨rfl, ?_, ?_⟩
    · exact h.noticed_inserted hrow (.dir hdir) hinside
    · exact (inserted_items hrow _).mpr (.inr rfl)

/-- An entry of a walk outside the staging area. -/
structure Entry (F : Fs) (e : Fs.LocalEntry) : Prop where
  node : ∃ n, F.node e.relativePath = some n ∧ e.isDir = decide (n = .dir)
  inside : Inside e.relativePath

lemma entry_of_walk {e : Fs.LocalEntry} (hstaged' : partialDir ∉ p) (he : e ∈ F.walk p) :
    Entry F e := by
  obtain ⟨n, hn, hdir, hbelow, hstaged⟩ := Fs.mem_walk.mp he
  obtain ⟨x, rest, hpath⟩ := RelPath.below_iff.mp hbelow
  refine ⟨⟨n, ?_, hdir⟩, by simp [hpath], ?_⟩
  · rw [Fs.node_of_ne_nil _ (by simp [hpath])]
    exact hn
  · rw [hpath, List.drop_left] at hstaged
    rw [hpath, List.mem_append]
    exact not_or.mpr ⟨hstaged', hstaged⟩

lemma Entry.cases {e : Fs.LocalEntry} (he : Entry F e) :
    (e.isDir = true ∧ F.node e.relativePath = some .dir) ∨
      e.isDir = false ∧ ∃ b, F.node e.relativePath = some (.file b) := by
  obtain ⟨⟨n, hn, hdir⟩, -⟩ := he
  cases n with
  | dir => exact .inl ⟨by simpa using hdir, hn⟩
  | file b => exact .inr ⟨by simpa using hdir, b, hn⟩

lemma ends_enqueueLocalEntry {e : Fs.LocalEntry} (h : Inv env root w₀ F T w) (he : Entry F e) :
    Ends env (fun x w' => x = .ok () ∧ Noticed env root w₀ F T w w')
      (Continuous.enqueueLocalEntry e) w := by
  unfold Continuous.enqueueLocalEntry
  rcases he.cases with ⟨hisDir, hnode⟩ | ⟨hisDir, b, hnode⟩
  · rw [if_pos hisDir]
    exact (ends_enqueueLocalDir h hnode he.inside).mono fun x w' ⟨hx, hn, _⟩ => ⟨hx, hn⟩
  · rw [if_neg (by simp [hisDir])]
    exact (ends_enqueueLocalFile h hnode he.inside).mono fun x w' ⟨hx, hn, _⟩ => ⟨hx, hn⟩

/-- **A local node without a row** gets one. -/
lemma ends_applyCreated (h : Inv env root w₀ F T w)
    (hfree : w.db.items.getByRelativePath p = none) (hnode : F.node p ≠ none)
    (hinside : Inside p) :
    Ends env (fun x w' => x = .ok () ∧ Noticed env root w₀ F T w w' ∧
      ∃ kind, newRow w p kind ∈ w'.db.items) (Continuous.applyCreated p) w := by
  obtain ⟨n, hn⟩ := Option.ne_none_iff_exists'.mp hnode
  cases n with
  | dir =>
    unfold Continuous.applyCreated
    rw [Prog.bind_eq, Ends, Prog.safe_bind, safe_io]
    refine fun _ => ⟨trivial, ?_⟩
    have hisDir : (FsCall.run (.isDir p) w.fs).1 = true := by
      simp only [FsCall.run, h.fs, Fs.isDir_iff, hn]
    simp only [hisDir, if_true]
    refine Prog.Safe.bind (ends_enqueueLocalDir h hn hinside) ?_
      fun e w₁ h' => by cases h'.1
    rintro _ w₁ ⟨_, h₁, hnew⟩
    rw [Prog.bind_eq, Prog.safe_bind, safe_io]
    refine fun _ => ⟨trivial, ?_⟩
    simp only [FsCall.run]
    refine Prog.Safe.forEach (fun s => Noticed env root w₀ F T w₁ s) (.refl h₁.inv)
      (fun e he s hs => ?_) fun s hs => ⟨rfl, h₁.trans hs, .dir, hs.rows _ (hnew hfree)⟩
    rw [h₁.inv.fs] at he
    refine (ends_enqueueLocalEntry hs.inv (entry_of_walk hinside.2 he)).mono ?_
    rintro x s' ⟨hx, hs'⟩
    subst hx
    exact hs.trans hs'
  | file b =>
    have hbytes : w.fs.node p = some (.file b) := h.fs.symm ▸ hn
    refine Continuous.ends_applyCreated_file hbytes ?_
    exact (ends_enqueueLocalFile h hn hinside).mono fun x w' h' =>
      ⟨h'.1, h'.2.1, .file, h'.2.2 hfree⟩

/-! ## The first loop -/

/-- A row that was never bound does not wait for the scan. -/
lemma Stand.of_unbound (h : Stand env root w₀ F T r w) (hnone : r.remoteId = none) :
    Stand env root w₀ F (fun _ => False) r w := by
  cases h with
  | waiting md5 remote file queued => exact .waiting md5 remote file queued
  | placed b file placed => exact .placed b file placed
  | old c before placed =>
    obtain ⟨f, hbound, -⟩ := placed.object
    rw [hnone] at hbound
    cases hbound

/-- The object of a row that is as it was still has the row's fingerprint. -/
lemma ends_remoteMatchesSynced {c : Bytes} (hplaced : Placed env root r c w) (hcalm : Calm w) :
    Ends env (fun x w' => x = .ok true ∧ w' = w) (StartupScan.remoteMatchesSynced r) w := by
  obtain ⟨⟨hmd5, -⟩, f, hbound, hcontent, hf⟩ := hplaced
  have hfile : w.remote.drive.file (.id f.num) = some f :=
    Data.Serial.get_eq_some.mpr ⟨hf.mem, rfl⟩
  have hsend : w.remote.send env.md5 (.getFile (.id f.num)) =
      (.ok (Drive.resource env.md5 f), w.remote) := by
    rw [Remote.send_of_no_faults hcalm]
    simp [DriveCall.run, DriveCall.onFile, hfile]
  simp only [Ends, StartupScan.remoteMatchesSynced, hbound, Prog.bind_eq, Prog.safe_bind,
    Prog.safe_attempt, safe_request, hsend, Drive.resource, hcontent, hmd5, Option.map_some,
    decide_true, true_and, forall_const]
  exact ⟨rfl, rfl⟩

lemma ends_remoteMatchesSynced_unbound (hnone : r.remoteId = none) :
    Ends env (fun x w' => x = .ok false ∧ w' = w) (StartupScan.remoteMatchesSynced r) w := by
  simp only [Ends, StartupScan.remoteMatchesSynced, hnone]
  exact ⟨rfl, rfl⟩

/-- A node without a row is replayed as a creation. -/
lemma Inv.ends_created (h : Inv env root w₀ F T w) (hcalm : Calm w)
    (hfree : w.db.items.getByRelativePath p = none) (hnode : F.node p ≠ none)
    (hinside : Inside p) :
    Ends env (fun x w' => x = .ok () ∧ Inv env root w₀ F (fun q => T q ∧ q ≠ p) w' ∧ Calm w')
      (Continuous.applyLocal (.created p)) w := by
  refine (ends_applyCreated h hfree hnode hinside).mono fun x w' ⟨hx, hn, kind, hnew⟩ =>
    ⟨hx, ?_, ?_⟩
  · refine hn.inv.scanned (fun _ _ => ⟨_, hnew, rfl⟩) fun r hr hpath ht hp => ?_
    obtain rfl := ItemTable.path_inj hr hnew hpath
    exact ((hn.inv.rows _ hr).stand ht hp).of_unbound rfl
  · rw [Calm, hn.remote]
    exact hcalm

/-- A file with a row is replayed when its content is no longer the recorded one. -/
lemma Inv.ends_edited {b : Bytes} (hcond : Replayable env w₀ F) (h : Inv env root w₀ F T w)
    (hcalm : Calm w) (hr : r ∈ w.db.items) (hfile : F.node r.relativePath = some (.file b))
    (ht : Tracked r) (hp : Seen env r.relativePath) :
    Ends env (fun x w' => x = .ok () ∧
        Inv env root w₀ F (fun q => T q ∧ q ≠ r.relativePath) w' ∧ Calm w')
      (if r.md5 ≠ some (env.md5 b) ∨ r.size ≠ some b.length then do
        if ← StartupScan.remoteMatchesSynced r then
          Continuous.applyLocal (.modified r.relativePath)
        else pure ()
      else pure ()) w := by
  have hscanned : ∀ v, Inv env root w₀ F T v → r ∈ v.db.items →
      Stand env root w₀ F (fun _ => False) r v →
      Inv env root w₀ F (fun q => T q ∧ q ≠ r.relativePath) v := fun v hv hrv hstand =>
    hv.scanned (fun _ _ => ⟨r, hrv, rfl⟩) fun s hs hpath _ _ =>
      ItemTable.path_inj hs hrv hpath ▸ hstand
  have hstand := (h.rows r hr).stand ht hp
  split
  · next hdiffers =>
    cases hstand with
    | waiting md5 remote file queued =>
      rw [Prog.bind_eq]
      refine Prog.Safe.bind (ends_remoteMatchesSynced_unbound remote)
        (fun m w₁ ⟨hm, hw⟩ => ?_) fun e w₁ h' => by cases h'.1
      obtain rfl := Except.ok.inj hm
      subst hw
      exact ⟨rfl, hscanned w₁ h hr (.waiting md5 remote file queued), hcalm⟩
    | placed b' file placed =>
      rw [hfile] at file
      obtain rfl := Node.file.inj (Option.some.inj file)
      simp [placed.print] at hdiffers
    | old c before placed owned next =>
      rw [Prog.bind_eq]
      refine Prog.Safe.bind (ends_remoteMatchesSynced placed hcalm)
        (fun m w₁ ⟨hm, hw⟩ => ?_) fun e w₁ h' => by cases h'.1
      obtain rfl := Except.ok.inj hm
      subst hw
      simp only [if_true]
      have hbytes : w₁.fs.node r.relativePath = some (.file b) := h.fs.symm ▸ hfile
      have hrow : w₁.db.items.getByRelativePath r.relativePath = some r :=
        ItemTable.getByRelativePath_eq_some.mpr ⟨hr, rfl⟩
      obtain ⟨hn, hqueued⟩ := h.upload hr hfile ht.2.1
      refine Continuous.ends_applyCreated_file hbytes
        (Continuous.ends_enqueueLocalFile_tracked hrow ht.2.1 ⟨rfl, ?_, hcalm⟩)
      refine hscanned _ hn.inv (hn.rows r hr) (.old c before ⟨placed.print, placed.object⟩ owned ?_)
      exact .inr (.inl ⟨⟨b, hfile⟩, hqueued⟩)
  · next hsame =>
    refine ⟨rfl, hscanned w h hr ?_, hcalm⟩
    simp only [not_or, not_not] at hsame
    cases hstand with
    | waiting md5 =>
      rw [md5] at hsame
      cases hsame.1
    | placed b' file placed => exact .placed b' file placed
    | old c before placed =>
      -- the recorded fingerprint is that of the file: it is as it was
      have hmd5 := Option.some.inj (placed.print.1.symm.trans hsame.1)
      have hlen := Option.some.inj (placed.print.2.symm.trans hsame.2)
      obtain rfl := hcond.prints _ b c hp before hfile hmd5.symm hlen.symm
      exact .placed b hfile placed

/-- **An entry of the local tree.** -/
lemma ends_scanEntry {e : Fs.LocalEntry} (hcond : Replayable env w₀ F)
    (h : Inv env root w₀ F T w) (hcalm : Calm w) (he : Entry F e) :
    Ends env (fun x w' => x = .ok () ∧
        Inv env root w₀ F (fun q => T q ∧ q ≠ e.relativePath) w' ∧ Calm w')
      (StartupScan.scanEntry env e) w := by
  unfold StartupScan.scanEntry
  by_cases hignored : StartupScan.isIgnored env e.relativePath = true
  · rw [if_pos hignored]
    have hnot : ¬Seen env e.relativePath := fun hp => by
      rw [hp.2] at hignored
      cases hignored
    exact ⟨rfl, h.scanned (fun _ hp => absurd hp hnot) fun _ _ _ _ hp => absurd hp hnot, hcalm⟩
  · rw [if_neg hignored]
    have hseen : Seen env e.relativePath := ⟨he.inside, Bool.eq_false_iff.mpr hignored⟩
    rw [Prog.bind_eq, Ends, Prog.safe_bind, safe_sql]
    refine fun _ => ⟨trivial, ?_⟩
    simp only [DbCall.run]
    rcases he.cases with ⟨hisDir, hnode⟩ | ⟨hisDir, b, hnode⟩
    · simp only [hisDir, if_true]
      cases hrow : w.db.items.getByRelativePath e.relativePath with
      | none => exact h.ends_created hcalm hrow (by rw [hnode]; simp) he.inside
      | some item =>
        -- a directory that has a row already
        obtain ⟨hitem, hpath⟩ := ItemTable.getByRelativePath_eq_some.mp hrow
        refine ⟨rfl, h.scanned (fun _ _ => ⟨item, hitem, hpath⟩) fun r hr hr' ht hp => ?_, hcalm⟩
        exact absurd (hr' ▸ hnode) ((h.rows r hr).file ht.1 (hr' ▸ hp))
    · simp only [hisDir, Bool.false_eq_true, if_false]
      cases hrow : w.db.items.getByRelativePath e.relativePath with
      | none => exact h.ends_created hcalm hrow (by rw [hnode]; simp) he.inside
      | some item =>
        obtain ⟨hitem, hpath⟩ := ItemTable.getByRelativePath_eq_some.mp hrow
        simp only
        by_cases hskip : item.state = .skipped
        · rw [if_pos hskip]
          refine ⟨rfl, h.scanned (fun _ _ => ⟨item, hitem, hpath⟩) fun r hr hr' ht hp => ?_, hcalm⟩
          obtain rfl := ItemTable.path_inj hr hitem (hr'.trans hpath.symm)
          exact absurd hskip ht.2.1
        · rw [if_neg hskip]
          have hread : w.fs.readFile e.relativePath = .ok b := by
            rw [Fs.readFile, h.fs, hnode]
          have ht := (h.rows item hitem).tracked (hpath ▸ hnode) hskip (hpath ▸ hseen)
          simp only [Dispatcher.computeLocal, Prog.bind_eq, Prog.safe_bind, safe_ioTry, FsCall.run,
            hread, Prog.pure_eq, Prog.safe_pure, true_and, forall_const]
          rw [← hpath] at hnode hseen ⊢
          exact h.ends_edited hcond hcalm hitem hnode ht hseen

/-! ## The second loop -/

lemma Inv.weaken {T' : RelPath → Prop} (h : Inv env root w₀ F T w) (hT : ∀ q, T q → T' q) :
    Inv env root w₀ F T' w :=
  ⟨h.fs, h.tree, h.folders, h.objects, fun r hr => (h.rows r hr).same rfl (fun _ => id) (hT _),
    h.only, h.ops, fun p hp hseen => (h.nodes p hp hseen).imp_left (hT p)⟩

/-- The walk comes to every local node. -/
lemma mem_walk_of_node {n : Node} (hp : Inside p) (hn : F.node p = some n) :
    ⟨p, n = .dir⟩ ∈ F.walk [] := by
  rw [Fs.node_of_ne_nil _ hp.1] at hn
  refine Fs.mem_walk.mpr ⟨n, hn, rfl, ?_, by simpa using hp.2⟩
  obtain ⟨x, rest, rfl⟩ := List.exists_cons_of_ne_nil hp.1
  exact RelPath.below_iff.mpr ⟨x, rest, rfl⟩

/-- The second loop looks at the rows of regular files that are gone. -/
lemma vanished_iff (hp : Inside r.relativePath) :
    StartupScan.vanished env (F.walk []) r = true ↔
      Tracked r ∧ (∀ b, F.node r.relativePath ≠ some (.file b)) ∧
        StartupScan.isIgnored env r.relativePath = false := by
  have hany : ((F.walk []).filter fun e => !e.isDir).any
      (fun e => e.relativePath = r.relativePath) = false ↔
        ∀ b, F.node r.relativePath ≠ some (.file b) := by
    rw [List.any_eq_false]
    constructor
    · intro h b hfile
      have := h _ (List.mem_filter.mpr ⟨mem_walk_of_node hp hfile, rfl⟩)
      simp at this
    · intro h e he hpath
      obtain ⟨he, hfile⟩ := List.mem_filter.mp he
      rw [decide_eq_true_eq] at hpath
      rcases (entry_of_walk (by simp) he).cases with ⟨hisDir, -⟩ | ⟨-, b, hnode⟩
      · simp [hisDir] at hfile
      · exact h b (hpath ▸ hnode)
  simp only [StartupScan.vanished, Bool.and_eq_true, decide_eq_true_eq, Bool.not_eq_true', hany,
    Tracked, and_assoc]

/-- The scan is over when it has come to every path with a row or a node. -/
lemma Inv.done (h : Inv env root w₀ F T w) (hrows : ∀ r ∈ w.db.items, ¬T r.relativePath)
    (hT : ∀ q, Seen env q → T q → F.node q = none) : Inv env root w₀ F (fun _ => False) w :=
  ⟨h.fs, h.tree, h.folders, h.objects,
    fun r hr => (h.rows r hr).same rfl (fun _ => id) (hrows r hr), h.only, h.ops,
    fun p hp hseen => .inr ((h.nodes p hp hseen).resolve_left fun hTp => hp (hT p hseen hTp))⟩

/-- **A row.** When its file is gone, its deletion is replayed. -/
lemma ends_scanRow (h : Inv env root w₀ F T w) (hcalm : Calm w) (hr : r ∈ w.db.items)
    (hT : ∀ q, Seen env q → T q → F.node q = none) :
    Ends env (fun x w' => x = .ok () ∧
        Inv env root w₀ F (fun q => T q ∧ q ≠ r.relativePath) w' ∧ Calm w' ∧
          w'.db.items = w.db.items)
      (StartupScan.scanRow env (F.walk []) r) w := by
  have hrow := h.rows r hr
  have hscanned : ∀ v, Inv env root w₀ F T v → r ∈ v.db.items →
      (Tracked r → Seen env r.relativePath → Stand env root w₀ F (fun _ => False) r v) →
      Inv env root w₀ F (fun q => T q ∧ q ≠ r.relativePath) v := fun v hv hrv hstand =>
    hv.scanned (fun _ _ => ⟨r, hrv, rfl⟩) fun s hs hpath ht hp =>
      (ItemTable.path_inj hs hrv hpath).symm ▸ hstand (ItemTable.path_inj hs hrv hpath ▸ ht) hp
  unfold StartupScan.scanRow
  by_cases hvanished : StartupScan.vanished env (F.walk []) r = true
  · rw [if_pos hvanished]
    obtain ⟨ht, habsent, hignored⟩ := (vanished_iff hrow.inside).mp hvanished
    have hp : Seen env r.relativePath := ⟨hrow.inside, hignored⟩
    cases hrow.stand ht hp with
    | waiting md5 remote file =>
      obtain ⟨b, hfile⟩ := file
      exact absurd hfile (habsent b)
    | placed b file => exact absurd file (habsent b)
    | old c before placed owned =>
      have hgone : F.node r.relativePath = none := by
        cases hnode : F.node r.relativePath with
        | none => rfl
        | some n =>
          cases n with
          | dir => exact absurd hnode (hrow.file ht.1 hp)
          | file b => exact absurd hnode (habsent b)
      rw [Prog.bind_eq]
      refine Prog.Safe.bind (ends_remoteMatchesSynced placed hcalm)
        (fun m w₁ ⟨hm, hw⟩ => ?_) fun e w₁ h' => by cases h'.1
      obtain rfl := Except.ok.inj hm
      subst hw
      simp only [if_true]
      have hget : w₁.db.items.getByRelativePath r.relativePath = some r :=
        ItemTable.getByRelativePath_eq_some.mpr ⟨hr, rfl⟩
      have hbound : r.remoteId ≠ none := by
        obtain ⟨f, hf, -⟩ := placed.object
        simp [hf]
      refine (Continuous.ends_applyDeleted hget ht.2.2 hbound).mono fun x w' ⟨hx, hn, hops⟩ => ?_
      obtain ⟨hinv, hqueued⟩ := h.note hn hops hr rfl ⟨ht, hp, hgone⟩
      refine ⟨hx, hscanned w' hinv (hn.items ▸ hr) fun _ _ => ?_, ?_, hn.items⟩
      · refine .old c before ⟨placed.print, ?_⟩ ?_ (.inr (.inr ⟨hgone, hqueued⟩))
        · rw [hn.remote]
          exact placed.object
        · rw [hn.remote]
          exact owned
      · rw [Calm, hn.remote]
        exact hcalm
  · rw [if_neg hvanished]
    refine ⟨rfl, hscanned w h hr fun ht hp => ?_, hcalm, rfl⟩
    cases hrow.stand ht hp with
    | waiting md5 remote file queued => exact .waiting md5 remote file queued
    | placed b file placed => exact .placed b file placed
    | old c before placed owned next =>
      refine .old c before placed owned (next.imp_left fun hTr => hvanished ?_)
      -- the path would be one that the scan has not come to, so its file would be gone
      refine (vanished_iff hrow.inside).mpr ⟨ht, fun b hfile => ?_, hp.2⟩
      rw [hT _ hp hTr] at hfile
      cases hfile

/-! ## The scan -/

/-- The first loop leaves the paths without a node. -/
lemma ends_scanEntries {es : List Fs.LocalEntry} (hcond : Replayable env w₀ F)
    (hes : ∀ e ∈ es, Entry F e) (h : Inv env root w₀ F T w) (hcalm : Calm w) :
    Ends env (fun x w' => x = .ok () ∧
        Inv env root w₀ F (fun q => T q ∧ ∀ e ∈ es, q ≠ e.relativePath) w' ∧ Calm w')
      (.forEach es (StartupScan.scanEntry env)) w := by
  induction es generalizing T w with
  | nil => exact ⟨rfl, h.weaken (by simp), hcalm⟩
  | cons e es ih =>
    rw [Prog.forEach_cons]
    refine Prog.Safe.bind (ends_scanEntry hcond h hcalm (hes e (by simp)))
      (fun _ w₁ ⟨_, h₁, hcalm₁⟩ => ?_) fun e w₁ h' => by cases h'.1
    refine (ih (fun e' he' => hes e' (by simp [he'])) h₁ hcalm₁).mono
      fun x w₂ ⟨hx, h₂, hcalm₂⟩ => ⟨hx, h₂.weaken ?_, hcalm₂⟩
    simp only [List.mem_cons, forall_eq_or_imp]
    tauto

/-- The second loop leaves the paths without a row. -/
lemma ends_scanRows {rs : List SyncItem} (hT : ∀ q, Seen env q → T q → F.node q = none)
    (hrs : ∀ r ∈ rs, r ∈ w.db.items) (h : Inv env root w₀ F T w) (hcalm : Calm w) :
    Ends env (fun x w' => x = .ok () ∧
        Inv env root w₀ F (fun q => T q ∧ ∀ r ∈ rs, q ≠ r.relativePath) w' ∧
          w'.db.items = w.db.items)
      (.forEach rs (StartupScan.scanRow env (F.walk []))) w := by
  induction rs generalizing T w with
  | nil => exact ⟨rfl, h.weaken (by simp), rfl⟩
  | cons r rs ih =>
    rw [Prog.forEach_cons]
    refine Prog.Safe.bind (ends_scanRow h hcalm (hrs r (by simp)) hT)
      (fun _ w₁ ⟨_, h₁, hcalm₁, hitems⟩ => ?_) fun e w₁ h' => by cases h'.1
    refine (ih (fun q hq hTq => hT q hq hTq.1) (fun r' hr' => hitems ▸ hrs r' (by simp [hr']))
      h₁ hcalm₁).mono fun x w₂ ⟨hx, h₂, hitems₂⟩ => ⟨hx, h₂.weaken ?_, hitems₂.trans hitems⟩
    simp only [List.mem_cons, forall_eq_or_imp]
    tauto

/-- **After the scan** nothing is left to be looked at. -/
lemma ends_startupLocalScan (hcond : Replayable env w₀ F) (h : Inv env root w₀ F (fun _ => True) w)
    (hcalm : Calm w) :
    Ends env (fun x w' => x = .ok () ∧ Inv env root w₀ F (fun _ => False) w')
      (StartupScan.startupLocalScan env) w := by
  unfold StartupScan.startupLocalScan
  rw [Prog.bind_eq, Ends, Prog.safe_bind, safe_io]
  refine fun _ => ⟨trivial, ?_⟩
  have hwalk : (FsCall.run (.walk []) w.fs).1 = F.walk [] := by
    rw [FsCall.run, h.fs]
  simp only [hwalk]
  refine Prog.Safe.bind (ends_scanEntries hcond (fun e he => entry_of_walk (by simp) he) h hcalm)
    ?_ fun e w₁ h' => by cases h'.1
  rintro _ w₁ ⟨_, h₁, hcalm₁⟩
  rw [Prog.bind_eq, Prog.safe_bind, safe_sql]
  refine fun _ => ⟨trivial, ?_⟩
  simp only [DbCall.run]
  have hleft : ∀ q, Seen env q → (True ∧ ∀ e ∈ F.walk [], q ≠ e.relativePath) →
      F.node q = none := by
    rintro q hq ⟨-, hout⟩
    cases hnode : F.node q with
    | none => rfl
    | some n => exact absurd rfl (hout _ (mem_walk_of_node hq.1 hnode))
  refine (ends_scanRows hleft (fun r hr => ItemTable.mem_listForMapping.mp hr) h₁ hcalm₁).mono
    fun x w₂ h' => ⟨h'.1, h'.2.1.done ?_ fun q hq hTq => hleft q hq hTq.1⟩
  intro r hr hTr
  exact hTr.2 r (ItemTable.mem_listForMapping.mpr (h'.2.2 ▸ hr)) rfl

end AirDrive.CatchUp
