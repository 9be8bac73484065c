import AirDrive.Daemon.Outcomes
import AirDrive.System.Run
import AirDrive.Watch.Watcher
import Mathlib.Logic.Relation

set_option relaxedAutoImplicit false
set_option autoImplicit false

/-!
# How a conflict ends

A tracked file was edited on both sides. The daemon moves the local version to a conflict path and
queues a download of the remote one; the watcher sees the move. This file follows what comes of the
two, in whatever order the queue and the watcher's events are worked off, with requests that fail
and succeed as they like.

## Main definitions

* `AirDrive.ConflictEnd.Conflicting` — the situation before the change is applied.
* `AirDrive.ConflictEnd.Step`, `AirDrive.ConflictEnd.Steps` — what happens after it.
* `AirDrive.ConflictEnd.EndsWell` — both versions are where they belong.
* `AirDrive.ConflictEnd.Course` — the invariant of the courses that end well.

## Main results

* `AirDrive.ConflictEnd.ends_applyRemote` — the conflict branch.
* `AirDrive.ConflictEnd.Course.step` — one step keeps the invariant.
* `AirDrive.ConflictEnd.conflict_ends_well_iff` — every course ends well exactly when the watcher
  drops the canonical path and not the conflict path.
-/

namespace AirDrive.ConflictEnd

open Effect Continuous Outcomes

/-! ## The situation -/

/-- A remote change `c` of the object `g`, whose content is now `b`, meets the row `r` of a file
that was edited locally to `e`. -/
structure Conflicting (env : Env) (root : FileId) (w : World) (c : RemoteChange) (r : SyncItem)
    (g : DriveFile) (b e : Bytes) : Prop where
  /-- The change describes the object as it is. -/
  change : c.fileId = .id g.num ∧ c.removed = false ∧ c.file = some (Drive.resource env.md5 g)
  /-- The object did not move. -/
  path : c.relativePath = none ∨ c.relativePath = some r.relativePath
  /-- The object is a live regular file that holds `b`. -/
  regular : g ∈ w.remote.drive.files ∧ g.trashed = false ∧ g.mimeType ≠ folderMime ∧
    Shortcut.isNative g.mimeType = false ∧ g.content = some b
  /-- It has the name of the canonical path. -/
  name : g.name = r.relativePath.getLastD ""
  /-- The folder that is kept in step is on Drive. -/
  root : (w.remote.drive.file root).isSome
  /-- The row is bound to the object and live. -/
  row : w.db.items.getByRemoteId (.id g.num) = some r ∧ r.trashedAt = none
  /-- The local file holds `e`. -/
  edited : w.fs.node r.relativePath = some (.file e)
  /-- Both versions differ from the synced one and from each other. -/
  versions : ∃ synced, r.md5 = some synced ∧ synced ≠ env.md5 b ∧ synced ≠ env.md5 e ∧
    env.md5 e ≠ env.md5 b
  /-- Nothing else is going on. -/
  idle : (∀ o, o ∉ w.db.ops) ∧ w.inFlight.contains (.id g.num) = false
  /-- The conflict path is not in use, on either side. -/
  unused : w.db.items.getByRelativePath (Conflict.conflictPathFor r.relativePath w.now) = none ∧
    w.fs.node (Conflict.conflictPathFor r.relativePath w.now) = none ∧
    ∀ f ∈ w.remote.drive.files,
      f.name ≠ (Conflict.conflictPathFor r.relativePath w.now).getLastD ""

/-! ## What happens after it -/

/-- The watcher's events that are still to be handled, and the world. -/
abbrev State := World × List WatchEvent

/-- One step: an event is handled, the drain loop makes an iteration, or time passes and the
connection changes. -/
inductive Step (env : Env) (root : FileId) : State → State → Prop
  | handle (w : World) (pre post : List WatchEvent) (ev : WatchEvent) :
      Step env root (w, pre ++ ev :: post) ((runTask env (applyLocal ev) w).2, pre ++ post)
  | drain (w : World) (evs : List WatchEvent) :
      Step env root (w, evs) ((runTask env (Dispatcher.drainOne env root) w).2, evs)
  | wait (w : World) (evs : List WatchEvent) (now : ℕ) (faults : List (Option Fault))
      (jitters : List ℤ) (later : w.now ≤ now) :
      Step env root (w, evs) ({ w with remote := ⟨w.remote.drive, faults⟩, now, jitters }, evs)

/-- Any number of steps. -/
abbrev Steps (env : Env) (root : FileId) : State → State → Prop :=
  Relation.ReflTransGen (Step env root)

/-- Both versions are where they belong: the object keeps its name and its bytes, which are at the
canonical path, and the local version is at the conflict path and in an object of its own. -/
structure EndsWell (p q : RelPath) (g : DriveFile) (b e : Bytes) (w : World) : Prop where
  object : ∃ f, w.remote.drive.files.get g.num = some f ∧ f.name = g.name ∧ f.content = some b
  canonical : w.fs.node p = some (.file b)
  conflict : w.fs.node q = some (.file e)
  copy : ∃ f ∈ w.remote.drive.files, f.num ≠ g.num ∧ f.name = q.getLastD "" ∧
    f.content = some e ∧ f.trashed = false

/-- The end state is as promised after every course that finishes, and the object does not get the
name of the conflict path on the way. -/
def AllEndWell (env : Env) (root : FileId) (p q : RelPath) (g : DriveFile) (b e : Bytes)
    (w : World) : Prop :=
  ∀ reports, Watch.Renaming p q reports → ∀ w' evs,
    Steps env root (w, Watch.feed env reports Data.Table.empty) (w', evs) →
      (∀ f, w'.remote.drive.files.get g.num = some f → f.name ≠ q.getLastD "") ∧
        ((∀ o, o ∉ w'.db.ops) → evs = [] → EndsWell p q g b e w')

variable {env : Env} {root : FileId} {w w' : World} {c : RemoteChange} {r : SyncItem}
  {g : DriveFile} {b e : Bytes} {p q : RelPath}

/-! ## The conflict branch -/

/-- The download that the conflict branch queues. -/
def IsDownload (r : SyncItem) (g : DriveFile) (o : PendingOperation) : Prop :=
  o.op = .download ∧ o.syncItemId = r.id ∧ ∃ size md5,
    o.payload = some (.download ⟨.id g.num, size, md5, r.relativePath⟩)

/-- The world after the conflict branch: the local version has moved, and the download is the only
operation. -/
structure Opened (r : SyncItem) (g : DriveFile) (e : Bytes) (q : RelPath) (w w' : World) :
    Prop where
  remote : w'.remote = w.remote
  items : w'.db.items = w.db.items
  now : w'.now = w.now
  canonical : w'.fs.node r.relativePath = none
  parent : w'.fs.node r.relativePath.dropLast = some .dir
  conflict : w'.fs.node q = some (.file e)
  ops : ∃ o, IsDownload r g o ∧ o.attempts = 0 ∧ o.nextAttemptAt = w.now ∧
    ∀ o', o' ∈ w'.db.ops ↔ o' = o

/-- The conflict path is next to the canonical one, under another name. -/
lemma conflictPath_spec (hp : p ≠ []) (now : ℕ) :
    ∃ name, Conflict.conflictPathFor p now = p.dropLast ++ [name] ∧ name ≠ p.getLastD "" := by
  obtain ⟨name, hname, hlen⟩ := Conflict.conflictPathFor_spec p now
  refine ⟨name, hname, ?_⟩
  rintro rfl
  have hlast : p.getLastD "file" = p.getLastD "" := by
    cases p with
    | nil => exact absurd rfl hp
    | cons x p => rw [List.getLastD_cons, List.getLastD_cons]
  rw [hlast] at hlen
  exact absurd hlen (lt_irrefl _)

/-- The change reaches the comparison of the two versions. -/
lemma ends_applyRemote {Q : Except Error Unit → World → Prop} (h : Conflicting env root w c r g b e)
    (hedited : Ends env Q (applyEdited env r (Drive.resource env.md5 g) (env.md5 b)) w) :
    Ends env Q (applyRemote env c) w := by
  obtain ⟨hid, hremoved, hfile⟩ := h.change
  obtain ⟨-, htrashed, hfolder, hnative, hcontent⟩ := h.regular
  obtain ⟨hrow, hlive⟩ := h.row
  have hmd5 : (Drive.resource env.md5 g).md5 = some (env.md5 b) := by
    simp [Drive.resource, hcontent]
  have hisFolder : (Drive.resource env.md5 g).isFolder = false := decide_eq_false hfolder
  have htrash : (Drive.resource env.md5 g).trashed = false := htrashed
  have hmime : Shortcut.isNative (Drive.resource env.md5 g).mimeType = false := hnative
  simp only [Ends, applyRemote, applyPresent, applyFile, Prog.lift, Prog.bind_eq, Prog.call_bind,
    Prog.pure_bind, Prog.safe_call_solo, handle_inFlight, hid, h.idle.2, hremoved, hfile, htrash,
    hisFolder, hmime, hmd5, Bool.false_eq_true, if_false, Prog.safe_bind, safe_sql, DbCall.run,
    hrow, hlive, true_and, forall_const]
  rw [if_neg (by simp)]
  rcases h.path with hpath | hpath
  · rw [hpath]
    exact hedited
  · rw [hpath]
    simp only
    rw [if_neg (by simp)]
    exact hedited

/-- **The conflict branch** moves the local version aside and queues the download. -/
lemma opened_of_conflicting (h : Conflicting env root w c r g b e) :
    Opened r g e (Conflict.conflictPathFor r.relativePath w.now) w
      (runTask env (applyRemote env c) w).2 := by
  obtain ⟨synced, hsynced, hremote, hlocal, hboth⟩ := h.versions
  obtain ⟨hrow, hdisk, -⟩ := h.unused
  have hmem := (ItemTable.getByRemoteId_mem h.row.1).1
  have hne : r.relativePath ≠ [] := by
    intro hnil
    have hnode := h.edited
    simp [hnil] at hnode
  obtain ⟨name, hq, hname⟩ := conflictPath_spec hne w.now
  have hparent : w.fs.node r.relativePath.dropLast = some .dir :=
    Fs.parent_of_node hne (by simp [h.edited])
  have hout : ¬r.relativePath <+: Conflict.conflictPathFor r.relativePath w.now := by
    intro hpre
    have hlen : (Conflict.conflictPathFor r.relativePath w.now).length = r.relativePath.length := by
      have := List.length_pos_iff.mpr hne
      rw [hq]
      simp
      omega
    have heq := hpre.eq_of_length hlen.symm
    rw [hq] at heq
    exact hname (by rw [heq]; simp)
  obtain ⟨fs', hrename, hnew, hold, hrest⟩ := Fs.rename_file h.edited hdisk
    (by rw [hq]; simpa using hparent) hout
  have hdir : fs'.node r.relativePath.dropLast = some .dir := by
    rw [hrest, hparent]
    · intro hpre
      have hlen := hpre.length_le
      have := List.length_pos_iff.mpr hne
      rw [List.length_dropLast] at hlen
      omega
    · intro hpre
      have hlen := hpre.length_le
      have := List.length_pos_iff.mpr hne
      simp only [hq, List.length_append, List.length_dropLast, List.length_singleton] at hlen
      omega
  have hisFile : w.fs.isFile r.relativePath = true := Fs.isFile_iff.mpr ⟨e, h.edited⟩
  have hexists : w.fs.exists' r.relativePath = true := by simp [Fs.exists', h.edited]
  have hread : w.fs.readFile r.relativePath = .ok e := by rw [Fs.readFile, h.edited]
  have hsame : sameFingerprint r (Drive.resource env.md5 g) (env.md5 b) = false := by
    simp [sameFingerprint, hsynced, hremote]
  refine Ends.run (Q := fun _ w' => Opened r g e _ w w') (ends_applyRemote h ?_)
  simp only [Ends, applyEdited, hsame, localVersion, Prog.bind_eq, Prog.safe_bind, safe_io,
    FsCall.run, hisFile, hsynced, hread, Bool.false_eq_true, if_false, if_true, true_and,
    forall_const]
  rw [if_neg hboth, if_pos (Ne.symm hlocal)]
  simp only [Prog.pure_eq, Prog.safe_pure, Prog.bind_eq, Prog.safe_bind, safe_unixNow,
    Conflict.openConflict, Conflict.moveAside, safe_io, FsCall.run, hexists, hrename,
    FsCall.commit, safe_sqlTry, if_true, true_and, forall_const, enqueueDownload, enqueueOp]
  obtain ⟨hrecorded, hitems, hops⟩ := Db.insertConflict_of_row r.relativePath
    (Conflict.conflictPathFor r.relativePath w.now) w.now ⟨r, hmem, rfl⟩
  simp only [DbCall.run, hrecorded]
  obtain ⟨hqueued, hmemOps⟩ := Db.enqueue_of_row .download
    (some (.download ⟨(Drive.resource env.md5 g).id, (Drive.resource env.md5 g).size.getD 0,
      env.md5 b, r.relativePath⟩)) w.now ⟨r, hitems ▸ hmem, rfl⟩
  have honly := fun o' => (hmemOps o').trans (or_iff_right (by rw [hops]; exact h.idle.1 o'))
  rw [hqueued]
  refine ⟨rfl, (Db.items_enqueue _ _ _ _ _).trans hitems, rfl, hold, hdir, hnew, _, ?_, ?_, ?_,
    honly⟩
  · exact ⟨rfl, rfl, _, _, rfl⟩
  · rfl
  · rfl

/-! ## Courses that end well -/

/-- How far the local version has come: its creation is reported, its upload is queued, or it has
an object of its own. -/
inductive Phase (r : SyncItem) (g : DriveFile) (e : Bytes) (q : RelPath) (w : World) :
    List WatchEvent → Prop
  | reported (free : w.db.items.getByRelativePath q = none)
      (ops : ∀ o ∈ w.db.ops, IsDownload r g o) : Phase r g e q w [.created q]
  | queued (o : PendingOperation) (s : SyncItem) (row : s ∈ w.db.items) (path : s.relativePath = q)
      (unbound : s.remoteId = none ∧ s.md5 = none)
      (upload : o ∈ w.db.ops ∧ o.op = .upload ∧ o.syncItemId = s.id)
      (other : ∀ o' ∈ w.db.ops, o'.id ≠ o.id → IsDownload r g o' ∧ s.id ≠ r.id) :
      Phase r g e q w []
  | copied (copy : ∃ f ∈ w.remote.drive.files, f.num ≠ g.num ∧ f.name = q.getLastD "" ∧
        f.content = some e ∧ f.trashed = false)
      (ops : ∀ o ∈ w.db.ops, IsDownload r g o) : Phase r g e q w []

/-- What holds in all courses that end well. -/
structure Course (r : SyncItem) (g : DriveFile) (b e : Bytes) (q : RelPath) (w : World)
    (evs : List WatchEvent) : Prop where
  object : w.remote.drive.files.get g.num = some g
  parent : w.fs.node r.relativePath.dropLast = some .dir
  conflict : w.fs.node q = some (.file e)
  download : (∃ o ∈ w.db.ops, IsDownload r g o) ∨ w.fs.node r.relativePath = some (.file b)
  phase : Phase r g e q w evs

/-- Handling the creation of the conflict copy queues its upload. -/
lemma Course.handle (h : Course r g b e q w [.created q]) :
    Course r g b e q (runTask env (applyLocal (.created q)) w).2 [] := by
  obtain ⟨hobject, hparent, hconflict, hdownload, hphase⟩ := h
  cases hphase with
  | reported free hdown =>
    have hisDir : w.fs.isDir q = false := by simp [Fs.isDir, hconflict]
    have hisFile : w.fs.isFile q = true := Fs.isFile_iff.mpr ⟨e, hconflict⟩
    obtain ⟨hinserted, hmem⟩ := Db.insertItem_of_free (show w.db.items.getByRelativePath (localCreate q .file).relativePath = none from free)
    have hops : (w.db.insertItem (localCreate q .file)).2.ops = w.db.ops :=
      DbCall.ops_run_eq (c := .insertItem (localCreate q .file)) rfl rfl
    have hrow : ∃ s ∈ (w.db.insertItem (localCreate q .file)).2.items, s.id = w.db.items.nextId :=
      ⟨_, (hmem _).mpr (.inr rfl), rfl⟩
    obtain ⟨hqueued, hmemOps⟩ := Db.enqueue_of_row .upload none w.now hrow
    refine Ends.run (Q := fun _ w' => Course r g b e q w' []) ?_
    simp only [Ends, applyLocal, applyCreated, enqueueLocalFile, enqueueOp, Prog.bind_eq,
      Prog.safe_bind, safe_io, FsCall.run, hisDir, hisFile, Bool.false_eq_true, if_false, if_true,
      safe_sql, safe_sqlTry, safe_unixNow, DbCall.run, free, hinserted, hqueued, true_and,
      forall_const]
    refine ⟨hobject, hparent, hconflict, hdownload.imp_left ?_, ?_⟩
    · rintro ⟨o, ho, hdown⟩
      exact ⟨o, (hmemOps o).mpr (.inl (hops ▸ ho)), hdown⟩
    · refine .queued _ ((localCreate q .file).withId w.db.items.nextId) ?_ rfl ⟨rfl, rfl⟩
        ⟨(hmemOps _).mpr (.inr rfl), rfl, rfl⟩ fun o' ho' hne => ?_
      · rw [Db.items_enqueue]
        exact (hmem _).mpr (.inr rfl)
      · rcases (hmemOps o').mp ho' with ho' | rfl
        · rw [hops] at ho'
          have hdown := hdown o' ho'
          obtain ⟨r', hr', hid⟩ := w.db.ops_owned o' ho'
          refine ⟨hdown, fun hsame => ?_⟩
          have hlt := ItemTable.id_lt hr'
          rw [hid, hdown.2.1, ← hsame] at hlt
          exact absurd hlt (lt_irrefl _)
        · exact absurd rfl hne

/-- The kind of an operation is part of its work. -/
lemma IsDownload.of_sameWork {o o' : PendingOperation} (h : IsDownload r g o)
    (hsame : DbCall.SameWork o o') : IsDownload r g o' := by
  obtain ⟨hop, hitem, hpayload⟩ := h
  obtain ⟨-, hitem', hop', hpayload'⟩ := hsame
  rw [hop'] at hop
  rw [hitem'] at hitem
  rw [hpayload'] at hpayload
  exact ⟨hop, hitem, hpayload⟩

/-- Changes of the retry data keep a course. -/
lemma Course.retried {evs : List WatchEvent} (h : Course r g b e q w evs) (hw : Retried w w') :
    Course r g b e q w' evs := by
  obtain ⟨hobject, hparent, hconflict, hdownload, hphase⟩ := h
  have hdown : (∀ o ∈ w.db.ops, IsDownload r g o) → ∀ o ∈ w'.db.ops, IsDownload r g o := by
    intro hall o' ho'
    obtain ⟨o, ho, hsame⟩ := hw.ops' o' ho'
    exact (hall o ho).of_sameWork hsame
  refine ⟨by rw [hw.drive]; exact hobject, by rw [hw.fs]; exact hparent,
    by rw [hw.fs]; exact hconflict, ?_, ?_⟩
  · rw [hw.fs]
    refine hdownload.imp_left ?_
    rintro ⟨o, ho, hd⟩
    obtain ⟨o', ho', hsame⟩ := hw.ops o ho
    exact ⟨o', ho', hd.of_sameWork hsame⟩
  · cases hphase with
    | reported free hall => exact .reported (by rw [hw.items]; exact free) (hdown hall)
    | copied copy hall => exact .copied (by rw [hw.drive]; exact copy) (hdown hall)
    | queued o s row path unbound upload other =>
      obtain ⟨ho, hop, hitem⟩ := upload
      obtain ⟨o', ho', hid', hitem', hop', -⟩ := hw.ops o ho
      refine .queued o' s (by rw [hw.items]; exact row) path unbound
        ⟨ho', hop' ▸ hop, hitem' ▸ hitem⟩ fun o₁ ho₁ hne => ?_
      obtain ⟨o₀, ho₀, hsame⟩ := hw.ops' o₁ ho₁
      obtain ⟨hd, hs⟩ := other o₀ ho₀ (by rw [hsame.1, hid']; exact hne)
      exact ⟨hd.of_sameWork hsame, hs⟩

/-- Dropping an operation other than the upload keeps the phase. -/
lemma Phase.completed {evs : List WatchEvent} {id : OpId} (h : Phase r g e q w evs)
    (hw : Completed id w w') (hop : ∀ o ∈ w.db.ops, o.id = id → IsDownload r g o) :
    Phase r g e q w' evs := by
  cases h with
  | reported free hall =>
    exact .reported (by rw [hw.items]; exact free) fun o ho => hall o ((hw.ops o).mp ho).1
  | copied copy hall =>
    exact .copied (by rw [hw.drive]; exact copy) fun o ho => hall o ((hw.ops o).mp ho).1
  | queued o s row path unbound upload other =>
    refine .queued o s (by rw [hw.items]; exact row) path unbound
      ⟨(hw.ops o).mpr ⟨upload.1, fun hid => ?_⟩, upload.2⟩ fun o₁ ho₁ hne =>
        other o₁ ((hw.ops o₁).mp ho₁).1 hne
    have hdown := (hop o upload.1 hid).1
    rw [upload.2.1] at hdown
    cases hdown

/-- The download writes the canonical path and the row of the file only. -/
lemma Course.fetched {evs : List WatchEvent} {item : SyncItem} {dl : DownloadPayload}
    (h : Course r g b e q w evs) (hf : Fetched item dl b w w') (hitem : item.id = r.id)
    (hdl : dl.relativePath = r.relativePath) (hp : r.relativePath ≠ []) (hq : q ≠ r.relativePath)
    {o : PendingOperation} (ho : o ∈ w.db.ops) (hdown : IsDownload r g o) :
    Course r g b e q w' evs := by
  have hdir : r.relativePath.dropLast ≠ dl.relativePath := by
    rw [hdl]
    intro heq
    have hlen := congrArg List.length heq
    have hpos := List.length_pos_iff.mpr hp
    simp only [List.length_dropLast] at hlen
    omega
  refine ⟨by rw [hf.drive]; exact h.object, by rw [hf.nodes _ hdir]; exact h.parent,
    by rw [hf.nodes _ (hdl ▸ hq)]; exact h.conflict, .inl ⟨o, hf.ops ▸ ho, hdown⟩, ?_⟩
  cases h.phase with
  | reported free hall =>
    refine .reported (ItemTable.getByRelativePath_eq_none.mpr fun s hs => ?_) (hf.ops ▸ hall)
    obtain ⟨s₀, hs₀, -, hpath, -⟩ := hf.rows s hs
    rw [hpath]
    exact ItemTable.getByRelativePath_eq_none.mp free s₀ hs₀
  | copied copy hall => exact .copied (by rw [hf.drive]; exact copy) (hf.ops ▸ hall)
  | queued o' s row path unbound upload other =>
    have hne : o.id ≠ o'.id := fun hid => by
      obtain rfl := w.db.ops.key_inj ho upload.1 hid
      have hop := hdown.1
      rw [upload.2.1] at hop
      cases hop
    have hother := (other o ho hne).2
    exact .queued o' s (hf.others s row (hitem ▸ hother)) path unbound (hf.ops ▸ upload)
      (hf.ops ▸ other)

/-- An upload that fails leaves a course where it is. -/
lemma Course.aside (h : Course r g b e q w []) (hw : Aside q.dropLast w w') (hq : q ≠ []) :
    Course r g b e q w' [] := by
  have hlt : g.num < w.remote.drive.files.next := by
    obtain ⟨hmem, -⟩ := Data.Serial.get_eq_some.mp h.object
    exact w.remote.drive.files.key_lt hmem
  refine ⟨by rw [hw.drive.same _ hlt]; exact h.object, by rw [hw.fs]; exact h.parent,
    by rw [hw.fs]; exact h.conflict, by rw [hw.fs, hw.ops]; exact h.download, ?_⟩
  cases h.phase with
  | copied copy hall =>
    obtain ⟨f, hf, hrest⟩ := copy
    have hget := hw.drive.same _ (w.remote.drive.files.key_lt hf)
    rw [Data.Serial.get_eq_some.mpr ⟨hf, rfl⟩] at hget
    exact .copied ⟨f, (Data.Serial.get_eq_some.mp hget).1, hrest⟩ (hw.ops ▸ hall)
  | queued o s row path unbound upload other =>
    refine .queued o s ((hw.rows s fun hpre => ?_).mpr row) path unbound (hw.ops ▸ upload)
      (hw.ops ▸ other)
    have hlen := hpre.length_le
    have hpos := List.length_pos_iff.mpr hq
    rw [path] at hlen
    simp only [List.length_dropLast] at hlen
    omega

/-- Executing a download. -/
lemma Course.download_step (env : Env) (root : FileId) {evs : List WatchEvent} {op : PendingOperation}
    (h : Course r g b e q w evs) (hop : op ∈ w.db.ops) (hdown : IsDownload r g op)
    (hp : r.relativePath ≠ []) (hq : q ≠ r.relativePath) (hcontent : g.content = some b) :
    Ends env (fun x w' => Course r g b e q w' evs ∧ op ∈ w'.db.ops ∧
      (x = .ok () → w'.fs.node r.relativePath = some (.file b)))
      (Dispatcher.execute env root op) w := by
  obtain ⟨hkind, hitem, size, md5, hpayload⟩ := hdown
  obtain ⟨row, hrow, hid⟩ := w.db.ops_owned op hop
  have hget : w.db.items.getById op.syncItemId = some row :=
    ItemTable.getById_eq_some.mpr ⟨hrow, hid⟩
  simp only [Ends, Dispatcher.execute, Dispatcher.executeItem, Prog.bind_eq, Prog.safe_bind,
    safe_sql, DbCall.run, hget, hkind, hpayload, true_and, forall_const]
  refine (ends_executeDownload ⟨.id g.num, size, md5, r.relativePath⟩ h.object hcontent
    h.parent hp).mono fun x w' hend => ⟨?_, hend.1.ops ▸ hop, hend.2.1⟩
  exact h.fetched hend.1 (hid.trans hitem) rfl hp hq hop ⟨hkind, hitem, size, md5, hpayload⟩

/-- A first upload that is taken from the queue ends the course of the local version. -/
lemma Course.pushed {o : PendingOperation} {s : SyncItem} {w₁ : World} (h : Course r g b e q w [])
    (hw : Pushed s e w w₁) (hw' : Completed o.id w₁ w') (hpath : s.relativePath = q)
    (ho : o ∈ w.db.ops ∧ o.op = .upload)
    (hother : ∀ o' ∈ w.db.ops, o'.id ≠ o.id → IsDownload r g o') : Course r g b e q w' [] := by
  have hlt : g.num < w.remote.drive.files.next := by
    obtain ⟨hmem, -⟩ := Data.Serial.get_eq_some.mp h.object
    exact w.remote.drive.files.key_lt hmem
  have hops : ∀ o', o' ∈ w'.db.ops ↔ o' ∈ w.db.ops ∧ o'.id ≠ o.id := fun o' => by
    rw [hw'.ops, hw.ops]
  obtain ⟨f, hf, hnum, hname, hbytes, hlive⟩ := hw.copied
  rw [hpath] at hname
  refine ⟨?_, by rw [hw'.fs, hw.fs]; exact h.parent, by rw [hw'.fs, hw.fs]; exact h.conflict, ?_,
    .copied ⟨f, hw'.drive ▸ hf, (hlt.trans_le hnum).ne', hname, hbytes, hlive⟩ fun o' ho' => ?_⟩
  · rw [hw'.drive, hw.drive.same _ hlt]
    exact h.object
  · rw [hw'.fs, hw.fs]
    refine h.download.imp_left ?_
    rintro ⟨o', ho', hdown⟩
    refine ⟨o', (hops o').mpr ⟨ho', fun hid => ?_⟩, hdown⟩
    obtain rfl := w.db.ops.key_inj ho' ho.1 hid
    have hkind := hdown.1
    rw [ho.2] at hkind
    cases hkind
  · obtain ⟨ho', hne⟩ := (hops o').mp ho'
    exact hother o' ho' hne

/-- An iteration of the drain loop brings a course forward or leaves it where it is. -/
lemma Course.drain {evs : List WatchEvent} (h : Course r g b e q w evs)
    (hp : r.relativePath ≠ []) (hq : q ≠ r.relativePath) (hcontent : g.content = some b) :
    Course r g b e q (runTask env (Dispatcher.drainOne env root) w).2 evs := by
  rcases drainOne_cases env root w with ⟨-, hidle⟩ | ⟨op, hnext, ⟨-, hparked⟩ | ⟨-, x, w₁, hrun, hx⟩⟩
  · rw [hidle]
    exact h
  · exact h.retried hparked
  · have hop := (OpTable.nextDue_mem hnext).1
    by_cases hdown : IsDownload r g op
    · have hends := (h.download_step env root hop hdown hp hq hcontent).run
      rw [hrun] at hends
      obtain ⟨hcourse, hop₁, hok⟩ := hends
      cases x with
      | error err => exact hcourse.retried hx
      | ok u =>
        have hnode := hok rfl
        refine ⟨by rw [hx.drive]; exact hcourse.object, by rw [hx.fs]; exact hcourse.parent,
          by rw [hx.fs]; exact hcourse.conflict, .inr (by rw [hx.fs]; exact hnode),
          hcourse.phase.completed hx fun o ho hid => ?_⟩
        obtain rfl := w₁.db.ops.key_inj ho hop₁ hid
        exact hdown
    · cases h.phase with
      | reported free hall => exact absurd (hall op hop) hdown
      | copied copy hall => exact absurd (hall op hop) hdown
      | queued o s row path unbound upload other =>
        have hid : op.id = o.id := by
          by_contra hne
          exact hdown (other op hop hne).1
        obtain rfl := w.db.ops.key_inj hop upload.1 hid
        have hq' : q ≠ [] := by
          rintro rfl
          have hfile := h.conflict
          simp at hfile
        have hget : w.db.items.getById op.syncItemId = some s :=
          ItemTable.getById_eq_some.mpr ⟨row, upload.2.2.symm⟩
        have hends : Ends env (UploadEnds s e w) (Dispatcher.execute env root op) w := by
          simp only [Ends, Dispatcher.execute, Dispatcher.executeItem, Prog.bind_eq,
            Prog.safe_bind, safe_sql, DbCall.run, hget, upload.2.1, true_and, forall_const]
          exact ends_executeUpload (by rw [path]; exact h.conflict) unbound.2 unbound.1
        have hpost := hends.run
        rw [hrun] at hpost
        cases x with
        | ok u =>
          exact h.pushed hpost hx path ⟨hop, upload.2.1⟩ fun o' ho' hne => (other o' ho' hne).1
        | error err => exact (h.aside (path ▸ hpost) hq').retried hx

/-- One step keeps a course. -/
lemma Course.step {evs evs' : List WatchEvent} (h : Course r g b e q w evs)
    (hp : r.relativePath ≠ []) (hq : q ≠ r.relativePath) (hcontent : g.content = some b)
    (hstep : Step env root (w, evs) (w', evs')) : Course r g b e q w' evs' := by
  cases hstep with
  | handle _ pre post ev =>
    have hphase := h.phase
    generalize hevs : pre ++ ev :: post = evs at hphase
    cases hphase with
    | reported free ops =>
      obtain ⟨rfl, rfl, rfl⟩ : pre = [] ∧ ev = .created q ∧ post = [] := by
        cases pre with
        | nil => simpa using hevs
        | cons x pre => simp at hevs
      exact h.handle
    | queued => simp at hevs
    | copied => simp at hevs
  | drain => exact h.drain hp hq hcontent
  | wait _ _ now faults jitters later =>
    refine ⟨h.object, h.parent, h.conflict, h.download, ?_⟩
    cases h.phase with
    | reported free ops => exact .reported free ops
    | queued o s row path unbound upload other =>
      exact .queued o s row path unbound upload other
    | copied copy ops => exact .copied copy ops

/-- A course that is over has ended well. -/
lemma Course.endsWell (h : Course r g b e q w []) (hcontent : g.content = some b)
    (hdone : ∀ o, o ∉ w.db.ops) : EndsWell r.relativePath q g b e w := by
  refine ⟨⟨g, h.object, rfl, hcontent⟩, ?_, h.conflict, ?_⟩
  · refine h.download.resolve_left ?_
    rintro ⟨o, ho, -⟩
    exact hdone o ho
  · cases h.phase with
    | queued o s row path unbound upload other => exact absurd upload.1 (hdone o)
    | copied copy ops => exact copy

/-- The conflict branch starts a course when the watcher reports the creation of the copy. -/
lemma Opened.course (h : Opened r g e q w w') (hg : g ∈ w.remote.drive.files)
    (hfree : w.db.items.getByRelativePath q = none) : Course r g b e q w' [.created q] := by
  obtain ⟨o, hdown, -, -, hops⟩ := h.ops
  refine ⟨?_, h.parent, h.conflict, .inl ⟨o, (hops o).mpr rfl, hdown⟩, .reported ?_ fun o' ho' => ?_⟩
  · rw [h.remote]
    exact Data.Serial.get_eq_some.mpr ⟨hg, rfl⟩
  · rw [h.items]
    exact hfree
  · obtain rfl := (hops o').mp ho'
    exact hdown

/-! ## Courses that do not -/

/-- A due operation is executed. -/
lemma drain_executes (env : Env) (root : FileId) {op : PendingOperation} (hnext : OpTable.nextDue w.db.ops w.now = some op)
    (hfirst : op.attempts = 0) : ∃ x w₁, runTask env (Dispatcher.execute env root op) w = (x, w₁) ∧
      match x with
      | .ok _ => Completed op.id w₁ (runTask env (Dispatcher.drainOne env root) w).2
      | .error _ => Retried w₁ (runTask env (Dispatcher.drainOne env root) w).2 := by
  rcases drainOne_cases env root w with
    ⟨hnone, -⟩ | ⟨op', hnext', ⟨hparked, -⟩ | ⟨-, x, w₁, hrun, hx⟩⟩
  · rw [hnext] at hnone
    cases hnone
  · rw [hnext] at hnext'
    obtain rfl := Option.some.inj hnext'
    rw [hfirst] at hparked
    exact absurd hparked (by decide)
  · rw [hnext] at hnext'
    obtain rfl := Option.some.inj hnext'
    exact ⟨x, w₁, hrun, hx⟩

/-- With no fault ahead, the download is done and taken from the queue. -/
lemma drain_download (env : Env) (root : FileId) {op : PendingOperation}
    (hnext : OpTable.nextDue w.db.ops w.now = some op) (hfirst : op.attempts = 0)
    (hdown : IsDownload r g op) (hcalm : Calm w) (hobject : w.remote.drive.files.get g.num = some g)
    (hcontent : g.content = some b) (hp : r.relativePath ≠ [])
    (hparent : w.fs.node r.relativePath.dropLast = some .dir)
    (hfree : w.fs.node r.relativePath = none) :
    ∃ item dl w₁, item.id = r.id ∧ dl.remoteId = .id g.num ∧ Fetched item dl b w w₁ ∧
      Completed op.id w₁ (runTask env (Dispatcher.drainOne env root) w).2 := by
  obtain ⟨hkind, hitem, size, md5, hpayload⟩ := hdown
  obtain ⟨row, hrow, hid⟩ := w.db.ops_owned op (OpTable.nextDue_mem hnext).1
  have hget : w.db.items.getById op.syncItemId = some row :=
    ItemTable.getById_eq_some.mpr ⟨hrow, hid⟩
  have hends : Ends env (fun x w' => Fetched row ⟨.id g.num, size, md5, r.relativePath⟩ b w w' ∧
      x = .ok ()) (Dispatcher.execute env root op) w := by
    simp only [Ends, Dispatcher.execute, Dispatcher.executeItem, Prog.bind_eq, Prog.safe_bind,
      safe_sql, DbCall.run, hget, hkind, hpayload, true_and, forall_const]
    refine (ends_executeDownload ⟨.id g.num, size, md5, r.relativePath⟩ hobject hcontent
      hparent hp).mono fun x w' hend => ⟨hend.1, hend.2.2 hcalm (by simp [hfree])⟩
  obtain ⟨x, w₁, hrun, hx⟩ := drain_executes env root hnext hfirst
  have hpost := hends.run
  rw [hrun] at hpost
  obtain ⟨hf, rfl⟩ := hpost
  exact ⟨row, _, w₁, hid.trans hitem, rfl, hf, hx⟩

/-- The rename that the watcher's event queues. -/
def IsRename (r : SyncItem) (q : RelPath) (o : PendingOperation) : Prop :=
  o.op = .renameRemote ∧ o.syncItemId = r.id ∧ o.payload = some (.rename ⟨q⟩) ∧ o.attempts = 0

/-- With no fault ahead, the rename gives the object the name of the conflict path. -/
lemma drain_rename {op : PendingOperation}
    (hnext : OpTable.nextDue w.db.ops w.now = some op) (hren : IsRename r q op) (hcalm : Calm w)
    (hobject : w.remote.drive.files.get g.num = some g)
    (hroot : (w.remote.drive.file root).isSome)
    (hbound : ∀ s ∈ w.db.items, s.id = r.id → s.remoteId = some (.id g.num)) :
    ∃ f, (runTask env (Dispatcher.drainOne env root) w).2.remote.drive.files.get g.num = some f ∧
      f.name = q.getLastD "" := by
  obtain ⟨hkind, hitem, hpayload, hfirst⟩ := hren
  obtain ⟨row, hrow, hid⟩ := w.db.ops_owned op (OpTable.nextDue_mem hnext).1
  have hget : w.db.items.getById op.syncItemId = some row :=
    ItemTable.getById_eq_some.mpr ⟨hrow, hid⟩
  have hends : Ends env (fun _ w' => ∃ f, w'.remote.drive.files.get g.num = some f ∧
      f.name = q.getLastD "") (Dispatcher.execute env root op) w := by
    simp only [Ends, Dispatcher.execute, Dispatcher.executeItem, Prog.bind_eq, Prog.safe_bind,
      safe_sql, DbCall.run, hget, hkind, hpayload, true_and, forall_const]
    exact ends_executeRenameRemote (p := ⟨q⟩) (hbound row hrow (hid.trans hitem)) hobject hroot
      hcalm
  obtain ⟨x, w₁, hrun, hx⟩ := drain_executes env root hnext hfirst
  have hpost := hends.run
  rw [hrun] at hpost
  cases x with
  | ok u =>
    rw [hx.drive]
    exact hpost
  | error err =>
    rw [hx.drive]
    exact hpost

/-- Handling the rename of a tracked file queues a rename on Drive. -/
lemma handle_renamed (env : Env) (hr : r ∈ w.db.items) (hpath : r.relativePath = p)
    (hbound : r.remoteId ≠ none) :
    Ends env (fun _ w' => w'.fs = w.fs ∧ w'.remote = w.remote ∧ w'.db.items = w.db.items ∧
      w'.now = w.now ∧ ∃ o, IsRename r q o ∧ o.nextAttemptAt = w.now ∧
        ∀ o', o' ∈ w'.db.ops ↔ o' ∈ w.db.ops ∨ o' = o) (applyLocal (.renamed p q)) w := by
  have hrow : w.db.items.getByRelativePath p = some r :=
    ItemTable.getByRelativePath_eq_some.mpr ⟨hr, hpath⟩
  obtain ⟨hqueued, hops⟩ := Db.enqueue_of_row .renameRemote (some (.rename ⟨q⟩)) w.now ⟨r, hr, rfl⟩
  simp only [Ends, applyLocal, applyRenamed, enqueueOp, Prog.bind_eq, Prog.safe_bind, safe_sql,
    safe_sqlTry, safe_unixNow, DbCall.run, hrow, hbound, if_false, hqueued, true_and, forall_const]
  exact ⟨rfl, rfl, Db.items_enqueue _ _ _ _ _, rfl, _, ⟨rfl, rfl, rfl, rfl⟩, rfl, hops⟩

/-- When the move is not reported at all, the local version gets no object of its own. -/
lemma not_endWell_of_silent (h : Conflicting env root w c r g b e)
    (hq : q = Conflict.conflictPathFor r.relativePath w.now) (hp : r.relativePath ≠ [])
    (ho : Opened r g e q w w') (hdrop : Watch.accepts env q = false) :
    ¬AllEndWell env root r.relativePath q g b e w' := by
  intro hall
  obtain ⟨op, hdown, hfirst, hdue, hops⟩ := ho.ops
  have hobject : w'.remote.drive.files.get g.num = some g := by
    rw [ho.remote]
    exact Data.Serial.get_eq_some.mpr ⟨h.regular.1, rfl⟩
  have hnext : OpTable.nextDue w'.db.ops w'.now = some op := by
    cases hnone : OpTable.nextDue w'.db.ops w'.now with
    | none =>
      have hlater := OpTable.nextDue_eq_none.mp hnone op ((hops op).mpr rfl)
      rw [hdue, ho.now] at hlater
      exact absurd hlater (lt_irrefl _)
    | some o => rw [(hops o).mp (OpTable.nextDue_mem hnone).1]
  let w₁ : World := { w' with remote := ⟨w'.remote.drive, []⟩ }
  obtain ⟨item, dl, w₂, -, -, hf, hdone⟩ := drain_download env root (w := w₁)
    hnext hfirst hdown rfl hobject h.regular.2.2.2.2 hp ho.parent ho.canonical
  have hsteps : Steps env root (w', []) ((runTask env (Dispatcher.drainOne env root) w₁).2, []) :=
    (Relation.ReflTransGen.single (Step.wait w' [] w'.now [] w'.jitters le_rfl)).tail
      (Step.drain w₁ [])
  have hfeed := Watch.feed_promptly_dropped r.relativePath hdrop
  rw [← hfeed] at hsteps
  obtain ⟨-, hend⟩ := hall _ Watch.renaming_promptly _ _ hsteps
  have hempty : ∀ o, o ∉ (runTask env (Dispatcher.drainOne env root) w₁).2.db.ops := by
    intro o hmem
    rw [hdone.ops, hf.ops] at hmem
    exact hmem.2 (congrArg _ ((hops o).mp hmem.1))
  obtain ⟨f, hmem, -, hname, -⟩ := (hend hempty hfeed).copy
  rw [hdone.drive, hf.drive] at hmem
  refine h.unused.2.2 f ?_ (hq ▸ hname)
  rw [← ho.remote]
  exact hmem

/-- When the move is reported as a rename, the object gets the name of the conflict path. -/
lemma not_endWell_of_renamed (h : Conflicting env root w c r g b e) (hp : r.relativePath ≠ [])
    (ho : Opened r g e q w w') (hold : Watch.accepts env r.relativePath = true)
    (hnew : Watch.accepts env q = true) : ¬AllEndWell env root r.relativePath q g b e w' := by
  intro hall
  obtain ⟨op, hdown, hfirst, hdue, hops⟩ := ho.ops
  obtain ⟨hr, hremote⟩ := ItemTable.getByRemoteId_mem h.row.1
  obtain ⟨hfs₁, hdrive₁, hitems₁, hnow₁, o, hren, hodue, hops₁⟩ := (handle_renamed env
    (q := q) (w := w') (ho.items ▸ hr) rfl (by rw [hremote]; simp)).run
  set w₁ := (runTask env (applyLocal (.renamed r.relativePath q)) w').2 with hw₁
  have hqueue : ∀ o', o' ∈ w₁.db.ops ↔ o' = op ∨ o' = o := fun o' => by rw [hops₁, hops]
  have hobject : w₁.remote.drive.files.get g.num = some g := by
    rw [hdrive₁, ho.remote]
    exact Data.Serial.get_eq_some.mpr ⟨h.regular.1, rfl⟩
  have hroot : (w₁.remote.drive.file root).isSome := by
    rw [hdrive₁, ho.remote]
    exact h.root
  have hrows : ∀ s ∈ w₁.db.items, s.id = r.id → s.remoteId = some (.id g.num) := by
    intro s hs hid
    rw [hitems₁, ho.items] at hs
    rw [ItemTable.id_inj hs hr hid, hremote]
  let w₂ : World := { w₁ with remote := ⟨w₁.remote.drive, []⟩ }
  have hfeed := Watch.feed_promptly hold hnew
  have hreach : Steps env root (w', Watch.feed env (Watch.promptly r.relativePath q)
      Data.Table.empty) (w₂, []) := by
    rw [hfeed]
    exact (Relation.ReflTransGen.single (Step.handle w' [] [] _)).tail
      (Step.wait w₁ [] w₁.now [] w₁.jitters le_rfl)
  have hrenamed : ∀ w₃, Steps env root (w₂, []) (w₃, []) →
      (∃ f, w₃.remote.drive.files.get g.num = some f ∧ f.name = q.getLastD "") → False := by
    rintro w₃ hsteps ⟨f, hget, hname⟩
    exact (hall _ Watch.renaming_promptly w₃ [] (hreach.trans hsteps)).1 f hget hname
  have hdrain := Relation.ReflTransGen.single (@Step.drain env root w₂ [])
  cases hnext : OpTable.nextDue w₂.db.ops w₂.now with
  | none =>
    have hlater := OpTable.nextDue_eq_none.mp hnext o ((hqueue o).mpr (.inr rfl))
    rw [hodue] at hlater
    exact absurd (hnow₁ ▸ hlater) (lt_irrefl _)
  | some first =>
    rcases (hqueue first).mp (OpTable.nextDue_mem hnext).1 with rfl | rfl
    · obtain ⟨item, dl, w₃, hitem, hdl, hf, hdone⟩ := drain_download env root
        (w := w₂) hnext hfirst hdown rfl hobject h.regular.2.2.2.2 hp
        (by rw [hfs₁]; exact ho.parent) (by rw [hfs₁]; exact ho.canonical)
      set w₄ := (runTask env (Dispatcher.drainOne env root) w₂).2 with hw₄
      have hqueue₄ : ∀ o', o' ∈ w₄.db.ops ↔ (o' = first ∨ o' = o) ∧ o'.id ≠ first.id :=
        fun o' => by rw [hdone.ops, hf.ops, hqueue]
      have hne : o.id ≠ first.id := fun hid => by
        obtain rfl := w₁.db.ops.key_inj ((hqueue o).mpr (.inr rfl)) ((hqueue first).mpr (.inl rfl))
          hid
        have hkind := hren.1
        rw [hdown.1] at hkind
        cases hkind
      have hnext₄ : OpTable.nextDue w₄.db.ops w₄.now = some o := by
        cases hnone : OpTable.nextDue w₄.db.ops w₄.now with
        | none =>
          have hlater := OpTable.nextDue_eq_none.mp hnone o ((hqueue₄ o).mpr ⟨.inr rfl, hne⟩)
          rw [hodue, hdone.now, hf.now] at hlater
          exact absurd (hnow₁ ▸ hlater) (lt_irrefl _)
        | some o' =>
          obtain ⟨rfl | rfl, hne'⟩ := (hqueue₄ o').mp (OpTable.nextDue_mem hnone).1
          · exact absurd rfl hne'
          · rfl
      refine hrenamed _ (hdrain.tail (Step.drain w₄ [])) (drain_rename hnext₄ hren ?_ ?_ ?_ ?_)
      · rw [Calm, hdone.drive]
        exact hf.calm rfl
      · rw [hdone.drive, hf.drive]
        exact hobject
      · rw [hdone.drive, hf.drive]
        exact hroot
      · intro s hs hid
        rw [hdone.items] at hs
        obtain ⟨s₀, hs₀, hid₀, -, -, hbound⟩ := hf.rows s hs
        rcases hbound with hbound | hbound
        · rw [hbound]
          exact hrows s₀ hs₀ (hid₀.trans hid)
        · rw [hbound, hdl]
    · exact hrenamed _ hdrain (drain_rename hnext hren rfl hobject hroot hrows)

/-- **A conflict ends well** in every course exactly when the watcher drops the canonical path and
not the conflict path: then its own rename looks like the creation of the conflict copy.

**Proof sketch.** In that case the invariant `Course` holds from the conflict branch on and is kept
by every step. Otherwise the move is reported as a rename, which is carried to Drive, or not at
all, and then nothing uploads the local version. -/
theorem conflict_ends_well_iff (h : Conflicting env root w c r g b e) :
    AllEndWell env root r.relativePath (Conflict.conflictPathFor r.relativePath w.now) g b e
        (runTask env (applyRemote env c) w).2 ↔
      Watch.accepts env r.relativePath = false ∧
        Watch.accepts env (Conflict.conflictPathFor r.relativePath w.now) = true := by
  have ho := opened_of_conflicting h
  have hp : r.relativePath ≠ [] := by
    intro hnil
    have hnode := h.edited
    simp [hnil] at hnode
  have hcontent := h.regular.2.2.2.2
  obtain ⟨name, hq, hname⟩ := conflictPath_spec hp w.now
  have hlast : (Conflict.conflictPathFor r.relativePath w.now).getLastD "" = name := by
    rw [hq]
    simp
  have hne : Conflict.conflictPathFor r.relativePath w.now ≠ r.relativePath := fun heq =>
    hname (by rw [← hlast, heq])
  constructor
  · intro hall
    cases hnew : Watch.accepts env (Conflict.conflictPathFor r.relativePath w.now) with
    | false => exact absurd hall (not_endWell_of_silent h rfl hp ho hnew)
    | true =>
      refine ⟨?_, rfl⟩
      by_contra hold
      exact not_endWell_of_renamed h hp ho (by simpa using hold) hnew hall
  · rintro ⟨hold, hnew⟩ reports hreports w' evs hsteps
    rw [Watch.feed_rename_of_ignored hold hnew hreports] at hsteps
    have hstart := ho.course (b := b) h.regular.1 h.unused.1
    have hcourse : Course r g b e (Conflict.conflictPathFor r.relativePath w.now) w' evs := by
      generalize hlastState : (w', evs) = s at hsteps
      induction hsteps generalizing w' evs with
      | refl =>
        obtain ⟨rfl, rfl⟩ := Prod.mk.inj hlastState
        exact hstart
      | @tail s s' _ hstep ih =>
        obtain ⟨w₁, evs₁⟩ := s
        subst hlastState
        exact (ih w₁ evs₁ rfl).step hp hne hcontent hstep
    refine ⟨fun f hget hsame => ?_, fun hdone hevs => ?_⟩
    · rw [hcourse.object] at hget
      obtain rfl := Option.some.inj hget
      rw [hlast, h.name] at hsame
      exact hname hsame.symm
    · subst hevs
      exact hcourse.endsWell hcontent hdone

/-! ## One conflict -/

/-- `a.txt` was in step with the content `A`, and is edited to `B` on the local side and to `C` on
Drive. -/
def noteEdited : World :=
  { sampleSynced with
    fs := (FsCall.run (.writeFile ["a.txt"] [66]) sampleSynced.fs).2
    remote := ⟨sampleDrive [67], []⟩ }

/-- The row of `a.txt`. -/
def noteRow : SyncItem := ⟨1, ["a.txt"], .file, some (.id 3), some 1, some "A", .pendingLocal, none⟩

/-- The object `a.txt` with the content `C`. -/
def noteFile : DriveFile := ⟨3, "a.txt", "text/plain", some [67], [2], false, true, true⟩

/-- The two edits conflict, whatever the ignore patterns are. -/
lemma conflicting_note (ignored : String → Bool) :
    Conflicting { Env.plain with ignored } (.id 2) noteEdited (sampleChange [67]) noteRow noteFile [67]
      [66] where
  change := ⟨rfl, rfl, rfl⟩
  path := .inr rfl
  regular := ⟨by rw [Data.Serial.mem_def]; decide, rfl, by decide, by decide, rfl⟩
  name := by decide
  root := by decide
  row := ⟨by decide, rfl⟩
  edited := by decide
  versions := ⟨"A", rfl, (by decide : "A" ≠ Env.plain.md5 [67]),
    (by decide : "A" ≠ Env.plain.md5 [66]), (by decide : Env.plain.md5 [66] ≠ Env.plain.md5 [67])⟩
  idle := by
    refine ⟨fun o ho => ?_, by decide⟩
    have hrows : noteEdited.db.ops.table.rows = [] := by decide
    rw [Data.Serial.mem_def, hrows] at ho
    simp at ho
  unused := by
    refine ⟨by decide, by decide, fun f hf => ?_⟩
    rw [Data.Serial.mem_def] at hf
    revert f
    decide

/-- With no ignore pattern, the conflict's own rename is handled like a rename by the user: two
iterations of the drain loop later the object has the name of the conflict copy. -/
theorem conflict_renames_object :
    Conflicting .plain (.id 2) noteEdited (sampleChange [67]) noteRow noteFile [67] [66] ∧
      ¬AllEndWell .plain (.id 2) ["a.txt"] (Conflict.conflictPathFor ["a.txt"] 0) noteFile [67] [66]
        (runTask .plain (applyRemote .plain (sampleChange [67])) noteEdited).2 := by
  refine ⟨conflicting_note fun _ => false, fun hall => ?_⟩
  have hfeed : Watch.feed .plain
      (Watch.promptly ["a.txt"] (Conflict.conflictPathFor ["a.txt"] 0)) Data.Table.empty =
        [.renamed ["a.txt"] (Conflict.conflictPathFor ["a.txt"] 0)] := by decide
  have hrun := hall _ Watch.renaming_promptly
  rw [hfeed] at hrun
  obtain ⟨hname, -⟩ := hrun _ _ (((Relation.ReflTransGen.single (Step.handle _ [] [] _)).tail
    (Step.drain _ _)).tail (Step.drain _ _))
  exact hname ⟨3, (Conflict.conflictPathFor ["a.txt"] 0).getLastD "", "text/plain", some [67], [2],
    false, true, true⟩ (by decide) rfl

/-- When `a.txt` itself is ignored, both versions end up where they belong. -/
theorem ignored_conflict_ends_well :
    AllEndWell { Env.plain with ignored := fun name => name = "a.txt" } (.id 2) ["a.txt"]
      (Conflict.conflictPathFor ["a.txt"] 0) noteFile [67] [66]
      (runTask { Env.plain with ignored := fun name => name = "a.txt" }
        (applyRemote { Env.plain with ignored := fun name => name = "a.txt" } (sampleChange [67]))
        noteEdited).2 :=
  (conflict_ends_well_iff (conflicting_note _)).mpr ⟨by decide, by decide⟩

end AirDrive.ConflictEnd
