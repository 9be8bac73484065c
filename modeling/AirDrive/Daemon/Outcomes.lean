import AirDrive.Daemon.Dispatcher

set_option relaxedAutoImplicit false
set_option autoImplicit false

/-!
# What the operations do

For the operations of the queue, what the world is like when they have been executed: what they
leave alone whatever happens to their requests, what they achieve when they succeed, and that they
succeed when no request fails.

## Main definitions

* `AirDrive.Outcomes.Calm` — no request is going to fail.
* `AirDrive.Outcomes.Aside` — what making the remote folders of a path leaves alone.
* `AirDrive.Outcomes.Fetched`, `AirDrive.Outcomes.Pushed` — a download and a first upload.
* `AirDrive.Outcomes.Executes` — what the next iteration of the drain loop executes.

## Main results

* `AirDrive.Outcomes.ends_ensureRemoteFolder`.
* `AirDrive.Outcomes.ends_executeDownload`, `AirDrive.Outcomes.ends_executeUpload`.
-/

namespace AirDrive.Outcomes

open Effect

/-- No request is going to fail. -/
def Calm (w : World) : Prop := w.remote.faults = []

variable {env : Env} {w w' w'' : World}

/-! ## Remote folders -/

/-- What making the remote folders on the way to `dir` leaves alone: the local tree, the objects
on Drive, the queue and the rows that are not on the way. -/
structure Aside (dir : RelPath) (w w' : World) : Prop where
  fs : w'.fs = w.fs
  now : w'.now = w.now
  drive : w.remote.drive.Extends w'.remote.drive
  ops : w'.db.ops = w.db.ops
  rows : ∀ s : SyncItem, ¬s.relativePath <+: dir → (s ∈ w'.db.items ↔ s ∈ w.db.items)
  calm : Calm w → Calm w'

lemma Aside.refl (dir : RelPath) (w : World) : Aside dir w w :=
  ⟨rfl, rfl, .refl _, rfl, fun _ _ => Iff.rfl, id⟩

lemma Aside.trans {dir : RelPath} (h : Aside dir w w') (h' : Aside dir w' w'') :
    Aside dir w w'' :=
  ⟨h'.fs.trans h.fs, h'.now.trans h.now, h.drive.trans h'.drive, h'.ops.trans h.ops,
    fun s hs => (h'.rows s hs).trans (h.rows s hs), fun hc => h'.calm (h.calm hc)⟩

/-- A request that changes no object leaves everything aside. -/
lemma Aside.send {α : Type} {c : DriveCall α} {dir : RelPath} (hc : c.touches = none) :
    Aside dir w { w with remote := (w.remote.send env.md5 c).2 } := by
  refine ⟨rfl, rfl, Remote.extends_send hc, rfl, fun _ _ => Iff.rfl, fun hcalm => ?_⟩
  rw [Calm, Remote.send_of_no_faults hcalm]
  exact hcalm

lemma ends_persistDir {dir rel : RelPath} {rid : FileId} (hrel : rel <+: dir) :
    Ends env (fun x w' => Aside dir w w' ∧ x = .ok ()) (Dispatcher.persistDir rel rid) w := by
  simp only [Ends, Dispatcher.persistDir, Prog.bind_eq, Prog.safe_bind, safe_sql, DbCall.run,
    true_and, forall_const]
  cases hrow : w.db.items.getByRelativePath rel with
  | some existing =>
    obtain ⟨hexisting, hpath⟩ := ItemTable.getByRelativePath_eq_some.mp hrow
    simp only
    split_ifs
    · rw [safe_sql]
      refine fun _ => ⟨trivial, ⟨rfl, rfl, .refl _, DbCall.ops_run_eq rfl rfl,
        fun s hs => ?_, id⟩, rfl⟩
      simp only [DbCall.run, Db.items_withItems, ItemTable.mem_modify]
      constructor
      · rintro (⟨hmem, -⟩ | ⟨s', hs', hid, rfl⟩)
        · exact hmem
        · obtain rfl := ItemTable.id_inj hs' hexisting hid
          exact absurd (hpath ▸ hrel) hs
      · intro hmem
        refine .inl ⟨hmem, fun hid => ?_⟩
        obtain rfl := ItemTable.id_inj hmem hexisting hid
        exact hs (hpath ▸ hrel)
    · exact ⟨.refl _ _, rfl⟩
  | none =>
    have hfree : w.db.items.getByRelativePath (Dispatcher.syncedDir rel rid).relativePath = none :=
      hrow
    obtain ⟨hok, hmem⟩ := Db.insertItem_of_free hfree
    have hops : (DbCall.run (.insertItem (Dispatcher.syncedDir rel rid)) w.db).2.ops = w.db.ops :=
      DbCall.ops_run_eq rfl rfl
    simp only [Prog.safe_bind, safe_sqlTry, true_and, forall_const, DbCall.run, hok]
    refine ⟨⟨rfl, rfl, .refl _, hops, fun s hs => ?_, id⟩, rfl⟩
    rw [hmem]
    refine ⟨fun h => h.resolve_right ?_, .inl⟩
    rintro rfl
    exact hs hrel

/-- A folder that Drive has just made is there. -/
lemma created_isSome {md5 : Bytes → String} {parent : FileId} {name : String} {d : Drive}
    {f : FileResource} (h : (DriveCall.run md5 (.createFolder parent name) d).1 = .ok f) :
    ((DriveCall.run md5 (.createFolder parent name) d).2.file f.id).isSome := by
  simp only [DriveCall.run, Drive.create] at h ⊢
  cases hfile : d.file parent with
  | none => simp [hfile] at h
  | some p =>
    simp only [hfile, Except.ok.injEq] at h ⊢
    rw [← h]
    show (Data.Serial.get _ d.files.next).isSome = true
    rw [Data.Serial.get_eq_some.mpr ⟨Data.Serial.mem_push.mpr (.inr rfl), rfl⟩]
    rfl

/-- The folder of a name below a folder: found, or made when requests go well and the parent is
there. -/
lemma ends_childFolder (dir : RelPath) {parent : FileId} {name : String} :
    Ends env (fun x w' => Aside dir w w' ∧ (Calm w → (w.remote.drive.file parent).isSome →
      ∃ id, x = .ok id ∧ (w'.remote.drive.file id).isSome))
      (Dispatcher.childFolder parent name) w := by
  simp only [Ends, Dispatcher.childFolder, Prog.bind_eq, Prog.safe_bind, safe_request, true_and,
    forall_const]
  have hlist : Aside dir w { w with remote := (w.remote.send env.md5 (.listChildren parent)).2 } :=
    .send rfl
  cases hl : (w.remote.send env.md5 (.listChildren parent)).1 with
  | error e =>
    refine ⟨hlist, fun hcalm _ => ?_⟩
    rw [Remote.send_of_no_faults hcalm] at hl
    cases hl
  | ok children =>
    simp only
    cases hfind : children.find? fun c => c.isFolder && c.name = name with
    | some f =>
      refine ⟨hlist, fun hcalm _ => ⟨f.id, rfl, ?_⟩⟩
      rw [Remote.send_of_no_faults hcalm] at hl ⊢
      obtain rfl := Except.ok.inj hl
      obtain ⟨g, hg, rfl⟩ := List.mem_map.mp (List.mem_of_find?_eq_some hfind)
      have hget : w.remote.drive.files.get g.num = some g :=
        Data.Serial.get_eq_some.mpr ⟨(List.mem_filter.mp hg).1, rfl⟩
      show (w.remote.drive.files.get g.num).isSome = true
      rw [hget]
      rfl
    | none =>
      have hmake : Aside dir { w with remote := (w.remote.send env.md5 (.listChildren parent)).2 }
          { w with remote := ((w.remote.send env.md5 (.listChildren parent)).2.send env.md5
            (.createFolder parent name)).2 } := .send rfl
      simp only [Engine.createDirRemote, Prog.safe_bind, safe_request, true_and, forall_const]
      split
      · next created hmade =>
        refine ⟨hlist.trans hmake, fun hcalm _ => ⟨created.id, rfl, ?_⟩⟩
        have hmade' := Remote.send_ok hmade
        have hcalm' := hlist.calm hcalm
        rw [Remote.send_of_no_faults hcalm']
        exact created_isSome hmade'
      · next e hmade =>
        refine ⟨hlist.trans hmake, fun hcalm hparent => ?_⟩
        have hcalm' := hlist.calm hcalm
        rw [Remote.send_of_no_faults hcalm'] at hmade
        obtain ⟨f, hf⟩ := Option.isSome_iff_exists.mp hparent
        have hf' := hlist.drive.file hf
        simp [DriveCall.run, Drive.create, hf'] at hmade

/-- **Making the remote folders of a path** leaves everything else aside, and leads to a folder
when requests go well and the root is there. -/
lemma ends_ensureSegments {dir : RelPath} {current : FileId} {cumulative : RelPath}
    {segments : List String} (hdir : cumulative ++ segments <+: dir) :
    Ends env (fun x w' => Aside dir w w' ∧ (Calm w → (w.remote.drive.file current).isSome →
      ∃ id, x = .ok id ∧ (w'.remote.drive.file id).isSome))
      (Dispatcher.ensureSegments current cumulative segments) w := by
  induction segments generalizing current cumulative w with
  | nil => exact ⟨.refl _ _, fun _ h => ⟨current, rfl, h⟩⟩
  | cons seg rest ih =>
    simp only [Dispatcher.ensureSegments, Prog.bind_eq]
    refine Prog.Safe.bind (ends_childFolder dir) (fun next w₁ ⟨h₁, hnext⟩ => ?_)
      fun e w₁ ⟨h₁, hnext⟩ => ⟨h₁, fun hc hp => ?_⟩
    · have hpre : cumulative ++ [seg] <+: dir :=
        (List.prefix_append_right_inj _ |>.mpr (by simp : [seg] <+: seg :: rest)).trans hdir
      refine Prog.Safe.bind (ends_persistDir hpre) (fun _ w₂ ⟨h₂, _⟩ => ?_)
        fun e w₂ ⟨_, he⟩ => by cases he
      refine (ih (by simpa using hdir)).mono fun x w₃ ⟨h₃, hx⟩ => ?_
      refine ⟨(h₁.trans h₂).trans h₃, fun hc hp => ?_⟩
      obtain ⟨id, hid, hsome⟩ := hnext hc hp
      obtain rfl := Except.ok.inj hid
      obtain ⟨f, hf⟩ := Option.isSome_iff_exists.mp hsome
      exact hx (h₂.calm (h₁.calm hc)) (by rw [h₂.drive.file hf]; rfl)
    · obtain ⟨id, hid, -⟩ := hnext hc hp
      cases hid

lemma ends_ensureRemoteFolder {root : FileId} (dir : RelPath) :
    Ends env (fun x w' => Aside dir w w' ∧ (Calm w → (w.remote.drive.file root).isSome →
      ∃ id, x = .ok id ∧ (w'.remote.drive.file id).isSome))
      (Dispatcher.ensureRemoteFolder root dir) w :=
  ends_ensureSegments (by simp)

/-! ## Downloads -/

/-- What a download into an existing directory leaves alone, and what it may have written. -/
structure Fetched (item : SyncItem) (dl : DownloadPayload) (b : Bytes) (w w' : World) : Prop where
  drive : w'.remote.drive = w.remote.drive
  now : w'.now = w.now
  nodes : ∀ p, p ≠ dl.relativePath → w'.fs.node p = w.fs.node p
  target : w'.fs.node dl.relativePath = w.fs.node dl.relativePath ∨
    w'.fs.node dl.relativePath = some (.file b)
  ops : w'.db.ops = w.db.ops
  rows : ∀ s ∈ w'.db.items, ∃ s₀ ∈ w.db.items, s₀.id = s.id ∧
    s.relativePath = s₀.relativePath ∧ (s.id ≠ item.id → s = s₀) ∧
      (s.remoteId = s₀.remoteId ∨ s.remoteId = some dl.remoteId)
  others : ∀ s₀ ∈ w.db.items, s₀.id ≠ item.id → s₀ ∈ w'.db.items
  calm : Calm w → Calm w'

/-- A statement about the row of the download. -/
lemma Fetched.sql {item : SyncItem} {dl : DownloadPayload} {b : Bytes} {β : Type} {c : DbCall β}
    (h : Fetched item dl b w w') (hdrop : c.drops = false) (hqueue : c.queues = false)
    (hinsert : c.inserts = none) (hchange : ∀ s r, c.Changes s r → r = s ∨ s.id = item.id ∧
      r.relativePath = s.relativePath ∧
        (r.remoteId = s.remoteId ∨ r.remoteId = some dl.remoteId)) :
    Fetched item dl b w { w' with db := (c.run w'.db).2 } := by
  refine ⟨h.drive, h.now, h.nodes, h.target, (DbCall.ops_run_eq hdrop hqueue).trans h.ops,
    fun s hs => ?_, fun s₀ hs₀ hid => ?_, h.calm⟩
  · rcases DbCall.mem_items_run hs with ⟨s₁, hs₁, hid₁, hc⟩ | ⟨new, hnew, -⟩
    · obtain ⟨s₀, hs₀, hid₀, hpath, hother, hremote⟩ := h.rows s₁ hs₁
      refine ⟨s₀, hs₀, hid₀.trans hid₁, ?_⟩
      rcases hchange s₁ s hc with rfl | ⟨hitem, hsame, hbound⟩
      · exact ⟨hpath, hother, hremote⟩
      · refine ⟨hsame.trans hpath, fun hne => absurd (hid₁.symm.trans hitem) hne, ?_⟩
        rcases hbound with hbound | hbound
        · rw [hbound]
          exact hremote
        · exact .inr hbound
    · rw [hinsert] at hnew
      cases hnew
  · obtain ⟨s, hs, hsid, hc⟩ := DbCall.rows_persist (c := c) hdrop (h.others s₀ hs₀ hid)
    rcases hchange s₀ s hc with rfl | ⟨hitem, -⟩
    · exact hs
    · exact absurd hitem hid

/-- **A download** of an object that is on Drive. -/
lemma ends_executeDownload {item : SyncItem} (dl : DownloadPayload) {f : DriveFile} {b : Bytes}
    (hfile : w.remote.drive.file dl.remoteId = some f) (hcontent : f.content = some b)
    (hdir : w.fs.node dl.relativePath.dropLast = some .dir) (hne : dl.relativePath ≠ []) :
    Ends env (fun x w' => Fetched item dl b w w' ∧
      (x = .ok () → w'.fs.node dl.relativePath = some (.file b)) ∧
        (Calm w → w.fs.node dl.relativePath ≠ some .dir → x = .ok ()))
      (Dispatcher.executeDownload env item (some (.download dl))) w := by
  have hcreate : (FsCall.run (.createDirAll dl.relativePath.parentDir) w.fs) = (.ok (), w.fs) := by
    simp only [FsCall.run, RelPath.parentDir, Fs.createDirAll_of_dir hdir, FsCall.commit]
  have hcalm : Calm w → Calm { w with remote := (w.remote.send env.md5 (.getMedia dl.remoteId)).2 } :=
    fun hc => by
      rw [Calm, Remote.send_of_no_faults hc]
      exact hc
  simp only [Ends, Dispatcher.executeDownload, Engine.download, decodePayload, Payload.asDownload,
    Prog.bind_eq, Prog.ofExcept_ok, Prog.pure_bind, Prog.safe_bind, safe_ioTry, safe_request,
    true_and, forall_const, hcreate]
  have hsame : Fetched item dl b w
      { w with remote := (w.remote.send env.md5 (.getMedia dl.remoteId)).2 } :=
    ⟨Remote.send_getMedia_drive, rfl, fun _ _ => rfl, .inl rfl, rfl,
      fun s hs => ⟨s, hs, rfl, rfl, fun _ => rfl, .inl rfl⟩, fun _ hs _ => hs, hcalm⟩
  cases hget : (w.remote.send env.md5 (.getMedia dl.remoteId)).1 with
  | error e =>
    refine ⟨hsame, by simp, fun hc _ => ?_⟩
    rw [Remote.send_of_no_faults hc] at hget
    simp [DriveCall.run, DriveCall.onFile, hfile, hcontent] at hget
  | ok body =>
    obtain rfl : b = body := by
      have hrun := Remote.send_ok hget
      simpa [DriveCall.run, DriveCall.onFile, hfile, hcontent] using hrun
    simp only
    cases hwrite : w.fs.writeFile dl.relativePath b with
    | error e =>
      simp only [FsCall.run, FsCall.commit, hwrite]
      refine ⟨hsame, by simp, fun _ hnode => ?_⟩
      obtain ⟨fs', hfs'⟩ := Fs.writeFile_of_dir (b := b) hne hdir hnode
      rw [hfs'] at hwrite
      cases hwrite
    | ok fs' =>
      have hself := Fs.node_writeFile_self hwrite
      have hothers := fun q (hq : q ≠ dl.relativePath) => Fs.node_writeFile_ne hwrite hq
      have hread : fs'.readFile dl.relativePath = .ok b := by
        rw [Fs.readFile, hself]
      simp only [FsCall.run, FsCall.commit, hwrite, Dispatcher.computeLocal, Prog.bind_eq,
        Prog.safe_bind, safe_ioTry, hread, Prog.pure_eq, Prog.safe_pure, safe_sql, true_and,
        forall_const]
      have hwritten : Fetched item dl b w
          { w with fs := fs', remote := (w.remote.send env.md5 (.getMedia dl.remoteId)).2 } :=
        ⟨hsame.drive, rfl, hothers, .inr hself, rfl, hsame.rows, hsame.others, hcalm⟩
      have hprint := hwritten.sql (c := .updateFingerprint item.id (some b.length)
        (some (env.md5 b))) rfl rfl rfl fun s r hc => by
          rcases hc with rfl | ⟨hid, rfl⟩
          · exact .inl rfl
          · exact .inr ⟨hid, rfl, .inl rfl⟩
      split_ifs
      · rw [safe_sql]
        refine fun _ => ⟨trivial, hprint.sql (c := .setRemoteId item.id dl.remoteId) rfl rfl rfl
          fun s r hc => ?_, fun _ => hself, fun _ _ => rfl⟩
        rcases hc with rfl | ⟨hid, rfl⟩
        · exact .inl rfl
        · exact .inr ⟨hid, rfl, .inr rfl⟩
      · exact ⟨hprint, fun _ => hself, fun _ _ => rfl⟩

/-! ## First uploads -/

/-- The remote copy of a file that was uploaded. -/
def Copied (name : String) (e : Bytes) (d d' : Drive) : Prop :=
  ∃ f ∈ d'.files, d.files.next ≤ f.num ∧ f.name = name ∧ f.content = some e ∧ f.trashed = false

/-- What a first upload does: a new object holds the bytes, and only the rows of the file and of
the folders above it change. -/
structure Pushed (item : SyncItem) (e : Bytes) (w w' : World) : Prop where
  fs : w'.fs = w.fs
  drive : w.remote.drive.Extends w'.remote.drive
  ops : w'.db.ops = w.db.ops
  rows : ∀ s : SyncItem, ¬s.relativePath <+: item.relativePath.dropLast → s.id ≠ item.id →
    (s ∈ w'.db.items ↔ s ∈ w.db.items)
  copied : Copied (item.relativePath.getLastD "") e w.remote.drive w'.remote.drive

/-- A statement about the row of the upload. -/
lemma Pushed.sql {item : SyncItem} {e : Bytes} {β : Type} {c : DbCall β} (h : Pushed item e w w')
    (hdrop : c.drops = false) (hqueue : c.queues = false) (hinsert : c.inserts = none)
    (hchange : ∀ s r, c.Changes s r → r = s ∨ s.id = item.id) :
    Pushed item e w { w' with db := (c.run w'.db).2 } := by
  refine ⟨h.fs, h.drive, (DbCall.ops_run_eq hdrop hqueue).trans h.ops,
    fun s hs hid => (Iff.trans ?_ (h.rows s hs hid)), h.copied⟩
  constructor
  · intro hmem
    rcases DbCall.mem_items_run hmem with ⟨s₁, hs₁, hid₁, hc⟩ | ⟨new, hnew, -⟩
    · rcases hchange s₁ s hc with rfl | hitem
      · exact hs₁
      · exact absurd (hid₁.symm.trans hitem) hid
    · rw [hinsert] at hnew
      cases hnew
  · intro hmem
    obtain ⟨r, hr, hrid, hc⟩ := DbCall.rows_persist (c := c) hdrop hmem
    rcases hchange s r hc with rfl | hitem
    · exact hr
    · exact absurd hitem hid

/-- The object that an upload creates. -/
lemma copied_uploadMultipart {md5 : Bytes → String} {parent : FileId} {name mime : String}
    {e : Bytes} {d : Drive} {f : FileResource}
    (h : (DriveCall.run md5 (.uploadMultipart parent name mime e) d).1 = .ok f) :
    Copied name e d (DriveCall.run md5 (.uploadMultipart parent name mime e) d).2 := by
  simp only [DriveCall.run, Drive.create] at h ⊢
  cases hfile : d.file parent with
  | none => simp [hfile] at h
  | some p => exact ⟨_, Data.Serial.mem_push.mpr (.inr rfl), Nat.le_refl _, rfl, rfl, rfl⟩

/-- The outcome of a first upload: an upload that fails has at most made remote folders. -/
def UploadEnds (item : SyncItem) (e : Bytes) (w : World) : Except Error Unit → World → Prop
  | .ok _, w' => Pushed item e w w'
  | .error _, w' => Aside item.relativePath.dropLast w w'

/-- **A first upload.** -/
lemma ends_executeUpload {root : FileId} {item : SyncItem} {e : Bytes}
    (hbytes : w.fs.node item.relativePath = some (.file e)) (hmd5 : item.md5 = none)
    (hremote : item.remoteId = none) :
    Ends env (UploadEnds item e w) (Dispatcher.executeUpload env root item) w := by
  have hisFile : w.fs.isFile item.relativePath = true := Fs.isFile_iff.mpr ⟨e, hbytes⟩
  have hread : w.fs.readFile item.relativePath = .ok e := by
    rw [Fs.readFile, hbytes]
  simp only [Ends, Dispatcher.executeUpload, Prog.bind_eq, Prog.safe_bind, safe_io, FsCall.run,
    hisFile, if_true, Dispatcher.computeLocal, safe_ioTry, hread, Prog.pure_eq, Prog.safe_pure,
    hmd5, hremote, true_and, forall_const]
  rw [if_neg (by simp)]
  refine Prog.Safe.bind (ends_ensureRemoteFolder item.relativePath.splitParent.1)
    ?_ fun err w₁ h' => h'.1
  rintro parent w₁ ⟨h₁, _⟩
  have hread₁ : w₁.fs.readFile item.relativePath = .ok e := by
    rw [h₁.fs, hread]
  simp only [Engine.upload, Prog.bind_eq, Prog.safe_bind, safe_ioTry, FsCall.run, hread₁,
    safe_request, true_and, forall_const]
  have hsend : Aside item.relativePath.splitParent.1 w₁
      { w₁ with remote := (w₁.remote.send env.md5 (.uploadMultipart parent
        item.relativePath.splitParent.2 (Engine.contentTypeFor item.relativePath.splitParent.2)
        e)).2 } := .send rfl
  split
  · next rf hrf =>
    have hmade := Remote.send_ok_drive hrf
    have hpushed : Pushed item e w { w₁ with
        remote := (w₁.remote.send env.md5 (.uploadMultipart parent item.relativePath.splitParent.2
          (Engine.contentTypeFor item.relativePath.splitParent.2) e)).2
        inFlight := rf.id :: w₁.inFlight } := by
      refine ⟨h₁.fs, h₁.drive.trans hsend.drive, h₁.ops, fun s hs _ => h₁.rows s hs, ?_⟩
      simp only [hmade]
      obtain ⟨f, hf, hnum, hrest⟩ := copied_uploadMultipart (Remote.send_ok hrf)
      exact ⟨f, hf, h₁.drive.next.trans hnum, hrest⟩
    have hbound := hpushed.sql (c := .setRemoteId item.id rf.id) rfl rfl rfl fun s r hc =>
      hc.imp id And.left
    have hprint := hbound.sql (c := .updateFingerprint item.id (some e.length)
      (some (env.md5 e))) rfl rfl rfl fun s r hc => hc.imp id And.left
    simp only [safe_withMark, Prog.safe_bind, safe_sql, true_and, forall_const]
    exact ⟨hprint.fs, hprint.drive, hprint.ops, hprint.rows, hprint.copied⟩
  · exact h₁.trans hsend

/-! ## Renames on Drive -/

/-- **A rename on Drive** goes well when no request fails, the object is there and so is the
root. -/
lemma ends_executeRenameRemote {root : FileId} {item : SyncItem} {p : RenamePayload}
    {g : DriveFile} (hremote : item.remoteId = some (.id g.num))
    (hg : w.remote.drive.files.get g.num = some g) (hroot : (w.remote.drive.file root).isSome)
    (hcalm : Calm w) :
    Ends env (fun _ w' => ∃ f, w'.remote.drive.files.get g.num = some f ∧
      f.name = p.newRelativePath.splitParent.2)
      (Dispatcher.executeRenameRemote root item (some (.rename p))) w := by
  simp only [Ends, Dispatcher.executeRenameRemote, decodePayload, Payload.asRename, Prog.bind_eq,
    Prog.ofExcept_ok, Prog.pure_bind, hremote]
  refine Prog.Safe.bind (ends_ensureRemoteFolder p.newRelativePath.splitParent.1)
    (fun parent w₁ ⟨h₁, _⟩ => ?_) fun err w₁ ⟨_, hmade⟩ => ?_
  · have hcalm₁ := h₁.calm hcalm
    have hg₁ : w₁.remote.drive.file (.id g.num) = some g := h₁.drive.file hg
    have hget : ∀ r : Remote, r.faults = [] → r.drive.file (.id g.num) = some g →
        r.send env.md5 (.getFile (.id g.num)) = (.ok (Drive.resource env.md5 g), r) := by
      intro r hr hfile
      rw [Remote.send_of_no_faults hr]
      simp [DriveCall.run, DriveCall.onFile, hfile]
    simp only [safe_withMark, Engine.moveRemote, Prog.bind_eq, Prog.safe_bind, safe_request,
      true_and, forall_const, hget w₁.remote hcalm₁ hg₁]
    rw [Remote.send_of_no_faults hcalm₁]
    simp only [DriveCall.run, DriveCall.onFile, hg₁]
    have hrenamed : ∀ ps : DriveFile → List ℕ, ∃ f,
        (w₁.remote.drive.change g.num
          (fun x => { x with name := p.newRelativePath.splitParent.2, parents := ps x })
          fun _ => rfl).files.get g.num = some f ∧
          f.name = p.newRelativePath.splitParent.2 := fun ps =>
      ⟨_, DriveCall.get_change_self hg₁, rfl⟩
    split <;> rw [safe_sql] <;> exact fun _ => ⟨trivial, hrenamed _⟩
  · obtain ⟨id, hid, -⟩ := hmade hcalm hroot
    cases hid

/-! ## The drain loop -/

/-- Only the retry data of the queue changed. -/
structure Retried (w w' : World) : Prop where
  fs : w'.fs = w.fs
  drive : w'.remote = w.remote
  items : w'.db.items = w.db.items
  now : w'.now = w.now
  inFlight : w'.inFlight = w.inFlight
  ops : ∀ o ∈ w.db.ops, ∃ o' ∈ w'.db.ops, DbCall.SameWork o o'
  ops' : ∀ o' ∈ w'.db.ops, ∃ o ∈ w.db.ops, DbCall.SameWork o o'

/-- Only the operation `id` is gone from the queue. -/
structure Completed (id : OpId) (w w' : World) : Prop where
  fs : w'.fs = w.fs
  drive : w'.remote = w.remote
  items : w'.db.items = w.db.items
  now : w'.now = w.now
  inFlight : w'.inFlight = w.inFlight
  ops : ∀ o, o ∈ w'.db.ops ↔ o ∈ w.db.ops ∧ o.id ≠ id

/-- Postponing an operation. -/
lemma retried_of_markAttempt {id : OpId} {next : ℕ} {db : Db}
    (hdb : w'.db = (DbCall.run (.markAttempt id next) db).2) (hitems : db.items = w.db.items)
    (hops : db.ops = w.db.ops) (hfs : w'.fs = w.fs) (hdrive : w'.remote = w.remote)
    (hnow : w'.now = w.now) (hflight : w'.inFlight = w.inFlight) : Retried w w' := by
  refine ⟨hfs, hdrive, ?_, hnow, hflight, fun o ho => ?_, fun o' ho' => ?_⟩
  · rw [hdb]
    exact hitems
  · rw [← hops] at ho
    rw [hdb]
    exact DbCall.ops_persist rfl ho
  · rw [hdb] at ho'
    rcases DbCall.mem_ops_run ho' with ⟨o, ho, hsame⟩ | ⟨henq, -⟩
    · exact ⟨o, hops ▸ ho, hsame⟩
    · cases henq

lemma ends_failed {op : PendingOperation} {e : Error} :
    Ends env (fun _ w' => Retried w w') (Dispatcher.failed op e) w := by
  unfold Dispatcher.failed
  split
  · simp only [Ends, Prog.bind_eq, Prog.safe_bind, safe_sql, safe_unixNow, Prog.pure_eq,
      Prog.safe_pure, true_and, forall_const]
    exact retried_of_markAttempt rfl rfl rfl rfl rfl rfl rfl
  · simp only [Ends, Dispatcher.backoffSeconds, Prog.lift, Prog.bind_eq, Prog.call_bind,
      Prog.pure_bind, Prog.safe_call_solo, handle_random, Prog.safe_bind, safe_sql, safe_unixNow,
      Prog.pure_eq, Prog.safe_pure, true_and, forall_const]
    exact retried_of_markAttempt rfl rfl rfl rfl rfl rfl rfl

/-- Taking an operation from the queue. -/
lemma completed_of_deleteOp {id : OpId} {db : Db}
    (hdb : w'.db = (DbCall.run (.deleteOp id) db).2) (hitems : db.items = w.db.items)
    (hops : db.ops = w.db.ops) (hfs : w'.fs = w.fs) (hdrive : w'.remote = w.remote)
    (hnow : w'.now = w.now) (hflight : w'.inFlight = w.inFlight) : Completed id w w' := by
  refine ⟨hfs, hdrive, ?_, hnow, hflight, fun o => ?_⟩
  · rw [hdb]
    exact hitems
  · rw [hdb]
    simp only [DbCall.run, Db.deleteOp, Data.Serial.mem_keep, decide_eq_true_eq, hops, ne_eq]

lemma ends_completed {op : PendingOperation} :
    Ends env (fun _ w' => Completed op.id w w') (Dispatcher.completed op) w := by
  have hclear : ∀ db : Db, (DbCall.run .clearIfTransient db).2.items = db.items ∧
      (DbCall.run .clearIfTransient db).2.ops = db.ops := fun db => by
    simp only [DbCall.run]
    split_ifs <;> exact ⟨rfl, rfl⟩
  unfold Dispatcher.completed
  split_ifs
  · simp only [Ends, Prog.bind_eq, Prog.safe_bind, safe_sql, safe_unixNow, true_and, forall_const]
    exact completed_of_deleteOp rfl (hclear _).1 (hclear _).2 rfl rfl rfl rfl
  · simp only [Ends, Prog.bind_eq, Prog.safe_bind, safe_sql, true_and, forall_const]
    exact completed_of_deleteOp rfl (hclear _).1 (hclear _).2 rfl rfl rfl rfl

/-- **One iteration of the drain loop**: nothing is due, or the next operation is parked, or it is
executed and then taken from the queue or postponed. -/
theorem drainOne_cases (env : Env) (root : FileId) (w : World) :
    (OpTable.nextDue w.db.ops w.now = none ∧
        (runTask env (Dispatcher.drainOne env root) w).2 = w) ∨
      ∃ op, OpTable.nextDue w.db.ops w.now = some op ∧
        ((Dispatcher.maxAttempts ≤ op.attempts ∧
            Retried w (runTask env (Dispatcher.drainOne env root) w).2) ∨
          (op.attempts < Dispatcher.maxAttempts ∧ ∃ x w₁,
            runTask env (Dispatcher.execute env root op) w = (x, w₁) ∧
              match x with
              | .ok _ => Completed op.id w₁ (runTask env (Dispatcher.drainOne env root) w).2
              | .error _ => Retried w₁ (runTask env (Dispatcher.drainOne env root) w).2)) := by
  simp only [runTask, Dispatcher.drainOne, unixNow, sql, Prog.lift, Prog.bind_eq, Prog.call_bind,
    Prog.pure_bind, Prog.run_call, handle_clock, handle_db, DbCall.run]
  cases hnext : OpTable.nextDue w.db.ops w.now with
  | none => exact .inl ⟨rfl, rfl⟩
  | some op =>
    refine .inr ⟨op, rfl, ?_⟩
    simp only
    split_ifs with hparked
    · exact .inl ⟨hparked, retried_of_markAttempt rfl rfl rfl rfl rfl rfl rfl⟩
    · refine .inr ⟨not_le.mp hparked, ?_⟩
      generalize hrun : (Dispatcher.execute env root op).run (handle env) w = outcome
      obtain ⟨x, w₁⟩ := outcome
      refine ⟨x, w₁, rfl, ?_⟩
      rw [Prog.run_bind, Prog.run_attempt, hrun]
      cases x with
      | ok u =>
        refine Ends.run (Q := fun _ w' => Completed op.id w₁ w') ?_
        exact Prog.Safe.bind ends_completed (fun _ _ h => h) fun _ _ h => h
      | error e => exact ends_failed.run

/-- The next iteration of the drain loop executes the operation, for the row. -/
structure Executes (w : World) (op : PendingOperation) (item : SyncItem) : Prop where
  /-- The operation is the next one due. -/
  next : OpTable.nextDue w.db.ops w.now = some op
  /-- It is not parked. -/
  left : op.attempts < Dispatcher.maxAttempts
  /-- The row is there. -/
  row : w.db.items.getById op.syncItemId = some item

lemma Retried.refl (w : World) : Retried w w :=
  ⟨rfl, rfl, rfl, rfl, rfl, fun o ho => ⟨o, ho, rfl, rfl, rfl, rfl⟩,
    fun o ho => ⟨o, ho, rfl, rfl, rfl, rfl⟩⟩

/-- Executing an operation, for the row it belongs to. -/
lemma execute_of_row (root : FileId) {op : PendingOperation} {r : SyncItem} (hr : r ∈ w.db.items)
    (hid : r.id = op.syncItemId) :
    runTask env (Dispatcher.execute env root op) w =
      runTask env (Dispatcher.executeItem env root op r) w := by
  have hrow : w.db.items.getById op.syncItemId = some r := ItemTable.getById_eq_some.mpr ⟨hr, hid⟩
  simp only [runTask, Dispatcher.execute, sql, Prog.lift, Prog.bind_eq, Prog.call_bind,
    Prog.pure_bind, Prog.run_call, handle_db, DbCall.run, hrow]

/-- The bookkeeping of an outcome. -/
def Booked (id : OpId) (w w' : World) : Except Error Unit → Prop
  | .ok _ => Completed id w w'
  | .error _ => Retried w w'

/-- **The drain rule**: an iteration keeps what the bookkeeping keeps and what holds after the
operation that is due was executed for its row and the bookkeeping of its outcome. -/
theorem drain_keeps {root : FileId} {P : World → Prop} (hretried : ∀ w', Retried w w' → P w')
    (hexecute : ∀ op, OpTable.nextDue w.db.ops w.now = some op →
      op.attempts < Dispatcher.maxAttempts → ∃ r ∈ w.db.items, r.id = op.syncItemId ∧
        Ends env (fun x w₁ => ∀ w', Booked op.id w₁ w' x → P w')
          (Dispatcher.executeItem env root op r) w) :
    P (runTask env (Dispatcher.drainOne env root) w).2 := by
  rcases drainOne_cases env root w with ⟨-, hsame⟩ | ⟨op, hnext, hcase⟩
  · exact hsame.symm ▸ hretried w (.refl w)
  rcases hcase with ⟨-, hparked⟩ | ⟨hleft, x, w₁, hrun, hafter⟩
  · exact hretried _ hparked
  obtain ⟨r, hr, hid, hends⟩ := hexecute op hnext hleft
  have hend := hends.run
  rw [← execute_of_row root hr hid, hrun] at hend
  refine hend _ ?_
  cases x with
  | ok u => exact hafter
  | error e => exact hafter

end AirDrive.Outcomes
