import AirDrive.System.Calls

set_option relaxedAutoImplicit false
set_option autoImplicit false

/-!
# Native documents are one-way

A native Google document has no bytes to sync; the daemon keeps a pointer file in its place, and
the row of the pointer file is `Skipped`. Nothing that happens to the pointer file is to reach the
document. The invariant of this file says so of the state database: the rows bound to the document
are `Skipped` files, and no queued operation on them is one that changes an object on Drive. Every
job of the daemon keeps it, with one exception: an event that removes the path of a pointer file.

## Main definitions

* `AirDrive.OneWay.Inv` — the invariant, for the document of one Drive id.
* `AirDrive.OneWay.Keeps` — safety of a program for the invariant.
* `AirDrive.OneWay.Spares`, `AirDrive.OneWay.Sparing` — the events and actions without the
  exception.

## Main results

* `AirDrive.OneWay.keeps_drainOne`, `AirDrive.OneWay.keeps_applyLocal`,
  `AirDrive.OneWay.keeps_applyBatch`, `AirDrive.OneWay.keeps_startupLocalScan`,
  `AirDrive.OneWay.keeps_initial` — the jobs of the daemon.
* `AirDrive.OneWay.native_document_one_way` — runs from the first start on.

## Design

The document is followed by its Drive id. What Drive holds under the id is part of the invariant,
so a job that keeps the invariant leaves the document as it is; other clients may change it, or
delete it, between two jobs.
-/

namespace AirDrive.OneWay

open Effect Continuous

/-- The operations that change an object on Drive by its row's Drive id. -/
def Reaching (op : Operation) : Prop := op = .upload ∨ op = .deleteRemote ∨ op = .renameRemote

instance (op : Operation) : Decidable (Reaching op) := inferInstanceAs (Decidable (_ ∨ _ ∨ _))

/-- The service holds `doc` under the id `D`; the id is not given out again, and it is not that of
My Drive. -/
structure Holds (D : ℕ) (doc : Option DriveFile) (d : Drive) : Prop where
  /-- What is there, if anything. -/
  held : d.files.get D = doc
  /-- The id was given out. -/
  minted : D < d.files.next
  /-- My Drive itself is another folder. -/
  root : d.rootNum ≠ D

/-- A native Google document, which has no bytes. -/
def Native (doc : Option DriveFile) : Prop :=
  ∀ f, doc = some f → Shortcut.isNative f.mimeType = true ∧ f.content = none

/-- What holds of the native document `doc` of the id `D` in every state. -/
structure Inv (D : ℕ) (doc : Option DriveFile) (w : World) : Prop where
  /-- A row of the document is the row of its pointer file. -/
  rows : ∀ r ∈ w.db.items, r.remoteId = some (.id D) → r.state = .skipped ∧ r.kind = .file
  /-- No operation on such a row reaches the document. -/
  ops : ∀ o ∈ w.db.ops, ∀ r ∈ w.db.items, r.id = o.syncItemId → r.remoteId = some (.id D) →
    ¬Reaching o.op
  /-- Directories are made for rows of directories only. -/
  dirs : ∀ o ∈ w.db.ops, ∀ r ∈ w.db.items, r.id = o.syncItemId → o.op = .createDirLocal →
    r.kind = .dir
  /-- Nothing is downloaded from the document. -/
  downloads : ∀ o ∈ w.db.ops, ∀ p, o.payload = some (.download p) → p.remoteId ≠ .id D
  /-- The document is native. -/
  native : Native doc
  /-- The document is on Drive as it was. -/
  holds : Holds D doc w.remote.drive

variable {env : Env} {D : ℕ} {doc : Option DriveFile} {w : World}

/-- What an enqueued operation has to satisfy. -/
structure Admits (D : ℕ) (w : World) (item : ItemId) (op : Operation) (payload : Option Payload) :
    Prop where
  reaching : ∀ r ∈ w.db.items, r.id = item → r.remoteId = some (.id D) → ¬Reaching op
  dir : ∀ r ∈ w.db.items, r.id = item → op = .createDirLocal → r.kind = .dir
  download : ∀ p, payload = some (.download p) → p.remoteId ≠ .id D

/-- **A database call keeps the invariant** when the row it inserts, the operation it enqueues and
its changes of rows respect the document. -/
lemma Inv.db_call {β : Type} {c : DbCall β} (h : Inv D doc w)
    (hinsert : ∀ new, c.inserts = some new → new.remoteId = some (.id D) →
      new.state = .skipped ∧ new.kind = .file)
    (henqueue : ∀ i op pl, c.enqueues = some (i, op, pl) → Admits D w i op pl)
    (hchange : ∀ s ∈ w.db.items, ∀ r, c.Changes s r → r.kind = s.kind ∧
      (r.remoteId = some (.id D) → s.remoteId = some (.id D) ∧ r.state = s.state)) :
    Inv D doc { w with db := (c.run w.db).2 } := by
  have hwork : ∀ o ∈ (c.run w.db).2.ops,
      (∃ o' ∈ w.db.ops, DbCall.SameWork o' o) ∨ c.enqueues = some (o.syncItemId, o.op, o.payload) :=
    fun o ho => (DbCall.mem_ops_run ho).imp id And.left
  have hold : ∀ o ∈ (c.run w.db).2.ops, ∀ r ∈ (c.run w.db).2.items, r.id = o.syncItemId →
      ∃ s ∈ w.db.items, s.id = o.syncItemId ∧ c.Changes s r := by
    intro o ho r hr hid
    rcases DbCall.mem_items_run hr with ⟨s, hs, hsid, hc⟩ | ⟨new, hnew, rfl⟩
    · exact ⟨s, hs, hsid.trans hid, hc⟩
    · rcases hwork o ho with ⟨o', ho', hsame⟩ | henq
      · obtain ⟨s, hs, hsid⟩ := w.db.ops_owned o' ho'
        exact absurd (hsid.trans (hsame.2.1.trans hid.symm)) (ItemTable.id_lt hs).ne
      · exact absurd henq (DbCall.enqueues_of_inserts hnew _)
  refine ⟨fun r hr hD => ?_, fun o ho r hr hid hD => ?_, fun o ho r hr hid hop => ?_,
    fun o ho p hp => ?_, h.native, h.holds⟩
  · rcases DbCall.mem_items_run hr with ⟨s, hs, -, hc⟩ | ⟨new, hnew, rfl⟩
    · obtain ⟨hkind, hback⟩ := hchange s hs r hc
      obtain ⟨hsD, hstate⟩ := hback hD
      rw [hkind, hstate]
      exact h.rows s hs hsD
    · exact hinsert new hnew hD
  · obtain ⟨s, hs, hsid, hc⟩ := hold o ho r hr hid
    have hsD := ((hchange s hs r hc).2 hD).1
    rcases hwork o ho with ⟨o', ho', hsame⟩ | henq
    · rw [← hsame.2.2.1]
      exact h.ops o' ho' s hs (hsid.trans hsame.2.1.symm) hsD
    · exact (henqueue _ _ _ henq).reaching s hs hsid hsD
  · obtain ⟨s, hs, hsid, hc⟩ := hold o ho r hr hid
    rw [(hchange s hs r hc).1]
    rcases hwork o ho with ⟨o', ho', hsame⟩ | henq
    · exact h.dirs o' ho' s hs (hsid.trans hsame.2.1.symm) (hsame.2.2.1.trans hop)
    · exact (henqueue _ _ _ henq).dir s hs hsid hop
  · rcases hwork o ho with ⟨o', ho', hsame⟩ | henq
    · exact h.downloads o' ho' p (hsame.2.2.2.trans hp)
    · exact (henqueue _ _ _ henq).download p hp

/-- A call that inserts no row, enqueues nothing and changes neither kind, Drive id nor state of
a row. -/
def Quiet {β : Type} (c : DbCall β) : Prop :=
  c.inserts = none ∧ c.enqueues = none ∧
    ∀ s r, c.Changes s r → r.kind = s.kind ∧ r.remoteId = s.remoteId ∧ r.state = s.state

lemma Inv.quiet {β : Type} {c : DbCall β} (h : Inv D doc w) (hc : Quiet c) :
    Inv D doc { w with db := (c.run w.db).2 } := by
  obtain ⟨hinsert, henqueue, hchange⟩ := hc
  refine h.db_call (fun new hnew => ?_) (fun i op pl henq => ?_) fun s hs r hr => ?_
  · rw [hinsert] at hnew; cases hnew
  · rw [henqueue] at henq; cases henq
  · obtain ⟨hkind, hremote, hstate⟩ := hchange s r hr
    exact ⟨hkind, fun hD => ⟨hremote ▸ hD, hstate⟩⟩

/-- Binding a row to another object keeps the invariant. -/
lemma Inv.setRemoteId {item : ItemId} {rid : FileId} (h : Inv D doc w) (hrid : rid ≠ .id D) :
    Inv D doc { w with db := (DbCall.run (.setRemoteId item rid) w.db).2 } := by
  refine h.db_call (c := .setRemoteId item rid) (by simp [DbCall.inserts])
    (by simp [DbCall.enqueues]) fun s hs r hr => ?_
  rcases hr with rfl | ⟨-, rfl⟩
  · exact ⟨rfl, fun hD => ⟨hD, rfl⟩⟩
  · exact ⟨rfl, fun hD => absurd (Option.some.inj hD) hrid⟩

/-- Inserting a row keeps the invariant unless it binds the document as a regular item. -/
lemma Inv.insertItem {new : NewSyncItem} (h : Inv D doc w)
    (hnew : new.remoteId = some (.id D) → new.state = .skipped ∧ new.kind = .file) :
    Inv D doc { w with db := (DbCall.run (.insertItem new) w.db).2 } := by
  refine h.db_call (c := .insertItem new) ?_ (by simp [DbCall.enqueues]) fun s hs r hr => ?_
  · rintro new' ⟨⟩
    exact hnew
  · obtain rfl : r = s := hr
    exact ⟨rfl, fun hD => ⟨hD, rfl⟩⟩

/-- Enqueueing an admissible operation keeps the invariant. -/
lemma Inv.enqueue {item : ItemId} {op : Operation} {payload : Option Payload} {now : ℕ}
    (h : Inv D doc w) (ho : Admits D w item op payload) :
    Inv D doc { w with db := (DbCall.run (.enqueue item op payload now) w.db).2 } := by
  refine h.db_call (c := .enqueue item op payload now) (by simp [DbCall.inserts]) ?_
    fun s hs r hr => ?_
  · rintro i o p ⟨⟩
    exact ho
  · obtain rfl : r = s := hr
    exact ⟨rfl, fun hD => ⟨hD, rfl⟩⟩

lemma quiet_updateFingerprint (id : ItemId) (size : Option ℕ) (md5 : Option String) :
    Quiet (.updateFingerprint id size md5) := by
  refine ⟨rfl, rfl, fun s r hr => ?_⟩
  rcases hr with rfl | ⟨-, rfl⟩ <;> exact ⟨rfl, rfl, rfl⟩

/-- A request for other objects keeps the invariant. -/
lemma Inv.drive_call {α : Type} {c : DriveCall α} (h : Inv D doc w)
    (htouch : ∀ id, c.touches = some id → id ≠ .id D) :
    Inv D doc { w with remote := (w.remote.send env.md5 c).2 } := by
  obtain ⟨held, minted, root⟩ := h.holds
  have hother : ∀ id, c.touches = some id → w.remote.drive.resolve id ≠ D := by
    intro id hid
    cases id with
    | rootAlias => exact root
    | id n => exact fun hn => htouch _ hid (congrArg FileId.id hn)
  refine ⟨h.rows, h.ops, h.dirs, h.downloads, h.native, ?_⟩
  rcases @Remote.send_drive _ env.md5 c w.remote with hsame | hrun
  · simp only [hsame]
    exact h.holds
  · simp only [hrun]
    refine ⟨?_, minted.trans_le (DriveCall.next_le_run c _), ?_⟩
    · rw [DriveCall.get_run minted hother, held]
    · rw [DriveCall.rootNum_run]
      exact root

/-- A change of the world that leaves the database and Drive alone keeps the invariant. -/
lemma Inv.of_eq {w' : World} (h : Inv D doc w) (hdb : w'.db = w.db)
    (hdrive : w'.remote.drive = w.remote.drive) : Inv D doc w' := by
  obtain ⟨hrows, hops, hdirs, hdown, hnative, hholds⟩ := h
  rw [← hdb] at hrows hops hdirs hdown
  rw [← hdrive] at hholds
  exact ⟨hrows, hops, hdirs, hdown, hnative, hholds⟩

/-- Safety of a program for the document `doc` of the id `D`. -/
abbrev Keeps {α : Type} (env : Env) (D : ℕ) (doc : Option DriveFile)
    (Q : Except Error α → World → Prop) (p : Task α) (w : World) : Prop :=
  p.Safe (handle env) (.solo (Inv D doc)) Q w

/-- Sequencing of programs that keep the invariant. -/
lemma keeps_bind {α β : Type} {p : Task α} {f : α → Task β} {w : World}
    (hp : Keeps env D doc Prog.Any p w) (hf : ∀ a w, Keeps env D doc Prog.Any (f a) w) :
    Keeps env D doc Prog.Any (p.bind f) w :=
  Prog.Safe.bind hp (fun a w _ => hf a w) fun _ _ _ => trivial

/-- The calls that keep the invariant. -/
def Harmless (D : ℕ) : ∀ β, Call β → Prop
  | _, .db c => Quiet c
  | _, .drive c => ∀ id, c.touches = some id → id ≠ .id D
  | _, _ => True

/-- A program of harmless calls keeps the invariant. -/
lemma keeps_of_only {α : Type} {p : Task α} (hp : p.Only (Harmless D)) :
    Keeps env D doc Prog.Any p w := by
  refine hp.safe (J := fun _ => True) (fun β c s hc hI _ => ⟨?_, trivial⟩) trivial
  cases c with
  | db c => exact hI.quiet hc
  | drive c => exact hI.drive_call hc
  | _ => exact hI.of_eq rfl rfl

/-- A request for other objects is harmless. -/
lemma only_request {α : Type} {c : DriveCall α} (hc : ∀ id, c.touches = some id → id ≠ .id D) :
    (request c).Only (Harmless D) := ⟨hc, fun _ => by simp⟩

/-! ## The dispatcher -/

/-- An outcome that is no id of the document. -/
def NotDoc (D : ℕ) (x : Except Error FileId) (_ : World) : Prop := ∀ id, x = .ok id → id ≠ .id D

lemma keeps_persistDir {rel : RelPath} {rid : FileId} (hrid : rid ≠ .id D) :
    Keeps env D doc Prog.Any (Dispatcher.persistDir rel rid) w := by
  simp only [Dispatcher.persistDir, Prog.bind_eq, Prog.safe_bind, safe_sql, DbCall.run]
  intro h
  refine ⟨h, ?_⟩
  cases hrow : w.db.items.getByRelativePath rel with
  | some existing =>
    simp only
    split_ifs
    · rw [safe_sql]
      intro h
      exact ⟨h.setRemoteId hrid, trivial⟩
    · trivial
  | none =>
    simp only [Prog.safe_bind, safe_sqlTry]
    intro h
    refine ⟨h.insertItem fun hD => absurd (Option.some.inj hD) hrid, ?_⟩
    split <;> trivial

/-- A folder or a file with an MD5 that Drive lists is not the document. -/
lemma Inv.listed {parent : FileId} {l : List FileResource} {f : FileResource} (h : Inv D doc w)
    (hl : (w.remote.send env.md5 (.listChildren parent)).1 = .ok l) (hf : f ∈ l)
    (hkind : f.isFolder = true ∨ f.md5 ≠ none) : f.id ≠ .id D := by
  have hrun := Remote.send_ok hl
  simp only [DriveCall.run, Except.ok.injEq] at hrun
  rw [← hrun] at hf
  obtain ⟨g, hg, rfl⟩ := List.mem_map.mp hf
  intro hD
  have hheld : doc = some g := h.holds.held.symm.trans
    (Data.Serial.get_eq_some.mpr ⟨(List.mem_filter.mp hg).1, FileId.id.inj hD⟩)
  obtain ⟨hnative, hnone⟩ := h.native g hheld
  rcases hkind with hfolder | hmd5
  · have hmime : g.mimeType = folderMime := of_decide_eq_true hfolder
    rw [hmime] at hnative
    exact absurd hnative (by decide)
  · exact hmd5 (by simp [Drive.resource, hnone])

/-- An object that Drive has just made is not the document. -/
lemma Inv.created {c : DriveCall FileResource} {f : FileResource} (h : Inv D doc w)
    (hc : (∃ parent name, c = .createFolder parent name) ∨
      ∃ parent name mime bytes, c = .uploadMultipart parent name mime bytes)
    (hf : (w.remote.send env.md5 c).1 = .ok f) : f.id ≠ .id D := by
  have hrun := Remote.send_ok hf
  have hnext : f.id = .id w.remote.drive.files.next := by
    rcases hc with ⟨parent, name, rfl⟩ | ⟨parent, name, mime, bytes, rfl⟩ <;>
      simp only [DriveCall.run, Drive.create] at hrun <;>
      cases hfile : w.remote.drive.file parent with
      | none => simp [hfile] at hrun
      | some p =>
        simp only [hfile, Except.ok.injEq] at hrun
        rw [← hrun]
        rfl
  rw [hnext]
  intro hD
  exact absurd (FileId.id.inj hD) h.holds.minted.ne'

lemma keeps_childFolder {parent : FileId} {name : String} :
    Keeps env D doc (NotDoc D) (Dispatcher.childFolder parent name) w := by
  simp only [Dispatcher.childFolder, Prog.bind_eq, Prog.safe_bind, safe_request]
  intro h
  refine ⟨h.drive_call (by simp [DriveCall.touches]), ?_⟩
  cases hl : (w.remote.send env.md5 (.listChildren parent)).1 with
  | error e => simp [NotDoc]
  | ok children =>
    simp only
    cases hfind : children.find? fun c => c.isFolder && c.name = name with
    | some f =>
      have hfolder := List.find?_some hfind
      simp only [Bool.and_eq_true] at hfolder
      rintro id ⟨⟩
      exact h.listed hl (List.mem_of_find?_eq_some hfind) (.inl hfolder.1)
    | none =>
      simp only [Engine.createDirRemote, Prog.safe_bind, safe_request]
      intro h'
      refine ⟨h'.drive_call (by simp [DriveCall.touches]), ?_⟩
      split
      · next created hmade =>
        rintro id ⟨⟩
        exact h'.created (.inl ⟨_, _, rfl⟩) hmade
      · simp [NotDoc]

lemma keeps_ensureSegments {current : FileId} {cumulative : RelPath} {segments : List String} :
    Keeps env D doc Prog.Any (Dispatcher.ensureSegments current cumulative segments) w := by
  induction segments generalizing current cumulative w with
  | nil => trivial
  | cons seg rest ih =>
    simp only [Dispatcher.ensureSegments, Prog.bind_eq]
    refine keeps_childFolder.bind (fun next w₁ hnext => ?_) (fun _ _ _ => trivial)
    refine (keeps_persistDir (hnext next rfl)).bind (fun _ w₂ _ => ?_) (fun _ _ _ => trivial)
    exact ih

lemma keeps_ensureRemoteFolder {root : FileId} {rel : RelPath} :
    Keeps env D doc Prog.Any (Dispatcher.ensureRemoteFolder root rel) w := keeps_ensureSegments

lemma only_computeLocal {rel : RelPath} : (Dispatcher.computeLocal env rel).Only (Harmless D) := by
  simp [Dispatcher.computeLocal, ioTry, Harmless]

lemma keeps_update {rid : FileId} {rel : RelPath} (hrid : rid ≠ .id D) :
    Keeps env D doc Prog.Any (Engine.update rid rel) w := by
  simp only [Engine.update, Prog.bind_eq, Prog.safe_bind, safe_ioTry, safe_request]
  intro h
  refine ⟨h.of_eq rfl rfl, ?_⟩
  split
  · intro h
    refine ⟨h.drive_call fun id hid => ?_, trivial⟩
    obtain rfl : rid = id := Option.some.inj hid
    exact hrid
  · trivial

lemma keeps_executeUpload {root : FileId} {item : SyncItem}
    (hitem : item.remoteId ≠ some (.id D)) :
    Keeps env D doc Prog.Any (Dispatcher.executeUpload env root item) w := by
  simp only [Dispatcher.executeUpload, Prog.bind_eq, Prog.safe_bind, safe_io]
  intro h
  refine ⟨h.of_eq rfl rfl, ?_⟩
  split_ifs
  · refine (keeps_of_only only_computeLocal).bind (fun fp w₁ _ => ?_) (fun _ _ _ => trivial)
    obtain ⟨size, md5⟩ := fp
    have hquiet := quiet_updateFingerprint item.id (some size) (some md5)
    simp only
    split_ifs
    · trivial
    · cases hremote : item.remoteId with
      | some rid =>
        have hrid : rid ≠ .id D := fun hD => hitem (hremote.trans (congrArg some hD))
        simp only [safe_withMark]
        intro h
        refine ⟨h.of_eq rfl rfl, ?_⟩
        refine (keeps_update hrid).bind (fun _ w₂ _ => ?_)
          (fun _ w₂ _ h => ⟨h.of_eq rfl rfl, trivial⟩)
        rw [safe_sql]
        exact fun h => ⟨h.quiet hquiet, fun h => ⟨h.of_eq rfl rfl, trivial⟩⟩
      | none =>
        simp only
        refine keeps_ensureRemoteFolder.bind (fun parentId w₂ _ => ?_) (fun _ _ _ => trivial)
        simp only [Engine.upload, Prog.bind_eq, Prog.safe_bind, safe_ioTry, safe_request]
        intro h
        refine ⟨h.of_eq rfl rfl, ?_⟩
        split
        · intro h
          refine ⟨h.drive_call (by simp [DriveCall.touches]), ?_⟩
          split
          · next rf hrf =>
            have hrid : rf.id ≠ .id D := h.created (.inr ⟨_, _, _, _, rfl⟩) hrf
            simp only [safe_withMark, Prog.safe_bind, safe_sql]
            intro h
            refine ⟨h.of_eq rfl rfl, fun h => ⟨h.setRemoteId hrid, fun h => ?_⟩⟩
            exact ⟨h.quiet hquiet, fun h => ⟨h.of_eq rfl rfl, trivial⟩⟩
          · trivial
        · trivial
  · trivial

/-- The decoded payload is the payload. -/
lemma decodePayload_ok {α : Type} {read : Payload → Option α} {payload : Option Payload} {a : α}
    (h : decodePayload read payload = .ok a) : ∃ p, payload = some p ∧ read p = some a := by
  cases payload with
  | none => simp [decodePayload] at h
  | some p =>
    refine ⟨p, rfl, ?_⟩
    simp only [decodePayload] at h
    split at h
    · next hread => rw [hread, Except.ok.inj h]
    · cases h

lemma keeps_executeDownload {item : SyncItem} {payload : Option Payload}
    (hpayload : ∀ p, payload = some (.download p) → p.remoteId ≠ .id D) :
    Keeps env D doc Prog.Any (Dispatcher.executeDownload env item payload) w := by
  simp only [Dispatcher.executeDownload, Prog.bind_eq]
  cases hdec : decodePayload Payload.asDownload payload with
  | error e => trivial
  | ok dl =>
    have hdl : dl.remoteId ≠ .id D := by
      obtain ⟨p, hp, hread⟩ := decodePayload_ok hdec
      refine hpayload dl ?_
      cases p <;> simp_all [Payload.asDownload]
    have hfetch : (Engine.download dl.remoteId dl.relativePath).Only (Harmless D) := by
      simp [Engine.download, request, ioTry, Harmless, DriveCall.touches]
    have hdirs : (ioTry (.createDirAll dl.relativePath.parentDir)).Only (Harmless D) := by
      simp [ioTry, Harmless]
    rw [Prog.ofExcept_ok, Prog.pure_bind]
    refine keeps_bind (keeps_of_only hdirs) fun _ w₁ => ?_
    refine keeps_bind (keeps_of_only hfetch) fun _ w₂ => ?_
    refine keeps_bind (keeps_of_only only_computeLocal) fun fp w₃ => ?_
    refine keeps_bind ?_ fun _ w₄ => ?_
    · rw [Keeps, safe_sql]
      exact fun h => ⟨h.quiet (quiet_updateFingerprint _ _ _), trivial⟩
    · split_ifs
      · rw [Keeps, safe_sql]
        exact fun h => ⟨h.setRemoteId hdl, trivial⟩
      · trivial

/-- Deleting rows, moving rows and marking tombstones are quiet. -/
lemma quiet_deleteItem (id : ItemId) : Quiet (.deleteItem id) :=
  ⟨rfl, rfl, by rintro s r rfl; exact ⟨rfl, rfl, rfl⟩⟩

lemma only_removeFromMyDrive {rid : FileId} (hrid : rid ≠ .id D) :
    (removeFromMyDrive rid).Only (Harmless D) := by
  refine (only_request (by simp [DriveCall.touches])).bind fun v => ?_
  split
  · trivial
  · exact only_request (by simpa [DriveCall.touches] using hrid)

lemma only_deleteRemote {rid : FileId} (hrid : rid ≠ .id D) :
    (Engine.deleteRemote env rid).Only (Harmless D) := by
  unfold Engine.deleteRemote
  split <;> exact only_request (by simpa [DriveCall.touches] using hrid)

/-- The document is not withdrawn: setting a row to `Skipped` keeps the invariant. -/
lemma Inv.setSkipped {item : ItemId} (h : Inv D doc w) :
    Inv D doc { w with db := (DbCall.run (.setState item .skipped) w.db).2 } := by
  refine h.db_call (c := .setState item .skipped) (by simp [DbCall.inserts])
    (by simp [DbCall.enqueues]) fun s hs r hr => ?_
  rcases hr with rfl | ⟨-, rfl⟩
  · exact ⟨rfl, fun hD => ⟨hD, rfl⟩⟩
  · exact ⟨rfl, fun hD => ⟨hD, (h.rows s hs hD).1.symm⟩⟩

lemma keeps_executeDeleteRemote {item : SyncItem} (hitem : item.remoteId ≠ some (.id D)) :
    Keeps env D doc Prog.Any (Dispatcher.executeDeleteRemote env item) w := by
  unfold Dispatcher.executeDeleteRemote
  split
  · next rid hremote =>
    have hrid : rid ≠ .id D := fun hD => hitem (hremote.trans (congrArg some hD))
    simp only [safe_withMark]
    intro h
    refine ⟨h.of_eq rfl rfl, ?_⟩
    refine (keeps_of_only (only_deleteRemote hrid).attempt).bind (fun res w₁ _ => ?_)
      (fun _ w₁ _ h => ⟨h.of_eq rfl rfl, trivial⟩)
    cases res with
    | ok u =>
      simp only [safe_sql]
      exact fun h => ⟨h.quiet (quiet_deleteItem _), fun h => ⟨h.of_eq rfl rfl, trivial⟩⟩
    | error e =>
      simp only
      split_ifs
      · refine (keeps_of_only (only_removeFromMyDrive hrid).attempt).bind (fun res w₂ _ => ?_)
          (fun _ w₂ _ h => ⟨h.of_eq rfl rfl, trivial⟩)
        cases res with
        | ok u =>
          simp only [safe_sql]
          exact fun h => ⟨h.quiet (quiet_deleteItem _), fun h => ⟨h.of_eq rfl rfl, trivial⟩⟩
        | error e =>
          simp only [safe_sql]
          exact fun h => ⟨h.setSkipped, fun h => ⟨h.of_eq rfl rfl, trivial⟩⟩
      · exact fun h => ⟨h.of_eq rfl rfl, trivial⟩
  · simp only [safe_sql]
    exact fun h => ⟨h.quiet (quiet_deleteItem _), trivial⟩

/-- A single harmless statement. -/
lemma keeps_sql {α : Type} {c : DbCall α} (hc : Quiet c) : Keeps env D doc Prog.Any (sql c) w :=
  (safe_sql c).mpr fun h => ⟨h.quiet hc, trivial⟩

lemma quiet_markTrashed (id : ItemId) (now : ℕ) : Quiet (.markTrashed id now) := by
  refine ⟨rfl, rfl, fun s r hr => ?_⟩
  rcases hr with rfl | ⟨-, rfl⟩ <;> exact ⟨rfl, rfl, rfl⟩

lemma only_removeLocal {item : SyncItem} : (Dispatcher.removeLocal item).Only (Harmless D) := by
  unfold Dispatcher.removeLocal
  split <;>
  · refine Prog.Only.bind (by simp [io, Prog.lift, Harmless]) fun res => ?_
    cases res with
    | ok u => trivial
    | error e =>
      simp only
      split_ifs <;> trivial

lemma only_forgetLocal {item : SyncItem} {p : DeleteLocalPayload} :
    (Dispatcher.forgetLocal item p).Only (Harmless D) := by
  unfold Dispatcher.forgetLocal
  split_ifs
  · simp [unixNow, sql, Prog.lift, Harmless, quiet_markTrashed]
  · simp [sql, Prog.lift, Harmless, quiet_deleteItem]

lemma keeps_executeDeleteLocal {item : SyncItem} {payload : Option Payload} :
    Keeps env D doc Prog.Any (Dispatcher.executeDeleteLocal item payload) w := by
  refine keeps_of_only (only_removeLocal.bind fun _ => ?_)
  rw [Prog.bind_eq, Prog.only_ofExcept_bind]
  exact fun p _ => only_forgetLocal

lemma keeps_executeCreateDirLocal {item : SyncItem}
    (hitem : ∀ r ∈ w.db.items, r.id = item.id → r.kind = .dir) :
    Keeps env D doc Prog.Any (Dispatcher.executeCreateDirLocal item) w := by
  simp only [Dispatcher.executeCreateDirLocal, Prog.bind_eq, Prog.safe_bind, safe_ioTry]
  intro h
  refine ⟨h.of_eq rfl rfl, ?_⟩
  split
  · rw [safe_sql]
    refine fun h => ⟨?_, trivial⟩
    refine h.db_call (c := .setState item.id .synced) (by simp [DbCall.inserts])
      (by simp [DbCall.enqueues]) fun s hs r hr => ?_
    rcases hr with rfl | ⟨hid, rfl⟩
    · exact ⟨rfl, fun hD => ⟨hD, rfl⟩⟩
    · refine ⟨rfl, fun hD => ?_⟩
      have hfile := (h.rows s hs hD).2
      rw [hitem s hs hid] at hfile
      cases hfile
  · trivial

lemma keeps_executeWriteShortcut {item : SyncItem} {payload : Option Payload} :
    Keeps env D doc Prog.Any (Dispatcher.executeWriteShortcut item payload) w := by
  refine keeps_of_only ?_
  simp [Dispatcher.executeWriteShortcut, Shortcut.write, ioTry, Harmless]

/-- Moving rows is quiet. -/
lemma quiet_setRelativePath (id : ItemId) (rel : RelPath) : Quiet (.setRelativePath id rel) :=
  ⟨rfl, rfl, by rintro s r ⟨p, rfl⟩; exact ⟨rfl, rfl, rfl⟩⟩

lemma quiet_renameSubtree (old new : RelPath) : Quiet (.renameSubtree old new) :=
  ⟨rfl, rfl, by rintro s r ⟨p, rfl⟩; exact ⟨rfl, rfl, rfl⟩⟩

lemma only_moveRemote {rid parent : FileId} {name : String} (hrid : rid ≠ .id D) :
    (Engine.moveRemote rid parent name).Only (Harmless D) := by
  refine (only_request (by simp [DriveCall.touches])).bind fun current => ?_
  exact only_request (by simpa [DriveCall.touches] using hrid)

lemma keeps_executeRenameRemote {root : FileId} {item : SyncItem} {payload : Option Payload}
    (hitem : item.remoteId ≠ some (.id D)) :
    Keeps env D doc Prog.Any (Dispatcher.executeRenameRemote root item payload) w := by
  simp only [Dispatcher.executeRenameRemote, Prog.bind_eq]
  cases decodePayload Payload.asRename payload with
  | error e => trivial
  | ok p =>
    rw [Prog.ofExcept_ok, Prog.pure_bind]
    split
    · exact keeps_sql (quiet_deleteItem _)
    · next rid hremote =>
      have hrid : rid ≠ .id D := fun hD => hitem (hremote.trans (congrArg some hD))
      refine keeps_bind keeps_ensureRemoteFolder fun parent w₁ => ?_
      simp only [Keeps, safe_withMark]
      intro h
      refine ⟨h.of_eq rfl rfl, ?_⟩
      refine Prog.Safe.bind (P := Prog.Any) (keeps_of_only (only_moveRemote hrid)) (fun _ w₂ _ => ?_)
        (fun _ w₂ _ h => ⟨h.of_eq rfl rfl, trivial⟩)
      split
      · rw [safe_sql]
        exact fun h => ⟨h.quiet (quiet_renameSubtree _ _), fun h => ⟨h.of_eq rfl rfl, trivial⟩⟩
      · rw [safe_sql]
        exact fun h => ⟨h.quiet (quiet_setRelativePath _ _), fun h => ⟨h.of_eq rfl rfl, trivial⟩⟩

lemma only_moveLocal {old new : RelPath} : (Dispatcher.moveLocal old new).Only (Harmless D) := by
  refine Prog.Only.bind (by simp [io, Prog.lift, Harmless]) fun res => ?_
  cases res with
  | ok u => trivial
  | error e =>
    simp only
    split_ifs
    · trivial
    · simp [ioTry, Harmless]
    · trivial

lemma keeps_executeRenameLocal {item : SyncItem} {payload : Option Payload} :
    Keeps env D doc Prog.Any (Dispatcher.executeRenameLocal item payload) w := by
  refine keeps_of_only ?_
  simp only [Dispatcher.executeRenameLocal, Prog.bind_eq, Prog.only_ofExcept_bind]
  intro p _
  refine Prog.Only.bind (by simp [ioTry, Harmless]) fun _ => ?_
  refine only_moveLocal.bind fun _ => ?_
  simp [sql, Prog.lift, Harmless, quiet_renameSubtree]

/-- **An operation of the queue** keeps the invariant. -/
lemma keeps_execute {root : FileId} {op : PendingOperation} (hop : op ∈ w.db.ops) :
    Keeps env D doc Prog.Any (Dispatcher.execute env root op) w := by
  simp only [Keeps, Dispatcher.execute, Prog.bind_eq, Prog.safe_bind, safe_sql, DbCall.run]
  intro h
  refine ⟨h, ?_⟩
  cases hitem : w.db.items.getById op.syncItemId with
  | none => trivial
  | some item =>
    obtain ⟨hmem, hid⟩ := ItemTable.getById_eq_some.mp hitem
    unfold Dispatcher.executeItem
    cases hkind : op.op with
    | upload =>
      exact keeps_executeUpload fun hD => h.ops op hop item hmem hid hD (.inl hkind)
    | download => exact keeps_executeDownload fun p hp => h.downloads op hop p hp
    | deleteRemote =>
      exact keeps_executeDeleteRemote fun hD =>
        h.ops op hop item hmem hid hD (.inr (.inl hkind))
    | deleteLocal => exact keeps_executeDeleteLocal
    | createDirRemote => exact keeps_bind keeps_ensureRemoteFolder fun _ _ => trivial
    | createDirLocal =>
      refine keeps_executeCreateDirLocal fun r hr hrid => ?_
      exact h.dirs op hop r hr (hrid.trans hid) hkind
    | writeShortcut => exact keeps_executeWriteShortcut
    | renameRemote =>
      exact keeps_executeRenameRemote fun hD =>
        h.ops op hop item hmem hid hD (.inr (.inr hkind))
    | renameLocal => exact keeps_executeRenameLocal
    | markConflict => trivial

/-- A statement that leaves every row as it is, inserts nothing and enqueues nothing. -/
lemma quiet_of_changes {β : Type} {c : DbCall β} (hinsert : c.inserts = none)
    (henqueue : c.enqueues = none) (hchange : ∀ s r, c.Changes s r → r = s) : Quiet c := by
  refine ⟨hinsert, henqueue, fun s r hr => ?_⟩
  obtain rfl := hchange s r hr
  exact ⟨rfl, rfl, rfl⟩

/-- A single statement that leaves the rows alone is harmless. -/
lemma only_sql {α : Type} {c : DbCall α} (hc : Quiet c) : (sql c).Only (Harmless D) :=
  ⟨hc, fun _ => trivial⟩

lemma only_completed {op : PendingOperation} : (Dispatcher.completed op).Only (Harmless D) := by
  have hend : (do
      let _ ← sql .clearIfTransient
      sql (.deleteOp op.id) : Task Unit).Only (Harmless D) :=
    (only_sql (quiet_of_changes (c := .clearIfTransient) rfl rfl fun _ _ h => h)).bind fun _ =>
      only_sql (quiet_of_changes (c := .deleteOp op.id) rfl rfl fun _ _ h => h)
  unfold Dispatcher.completed
  split_ifs
  · refine Prog.Only.bind (by simp [unixNow, Prog.lift, Harmless]) fun now => ?_
    have hquiet : Quiet (.recordSyncCycle now (Dispatcher.cycleDelta op.op).1
        (Dispatcher.cycleDelta op.op).2) := quiet_of_changes rfl rfl fun _ _ h => h
    exact (only_sql hquiet).bind fun _ => hend
  · exact hend

lemma only_failed {op : PendingOperation} {e : Error} :
    (Dispatcher.failed op e).Only (Harmless D) := by
  have hmark : ∀ next, (sql (.markAttempt op.id next)).Only (Harmless D) := fun next =>
    only_sql (quiet_of_changes rfl rfl fun _ _ h => h)
  have hclock : unixNow.Only (Harmless D) := by simp [unixNow, Prog.lift, Harmless]
  unfold Dispatcher.failed
  split
  · refine (only_sql (quiet_of_changes (c := .setBlocked .auth) rfl rfl
      fun _ _ h => h)).bind fun _ => ?_
    exact hclock.bind fun now => (hmark _).bind fun _ => trivial
  · refine Prog.Only.bind (by simp [Dispatcher.backoffSeconds, Prog.lift, Harmless]) fun delay => ?_
    exact hclock.bind fun now => (hmark _).bind fun _ => trivial

/-- **One iteration of the drain loop** keeps the invariant. -/
lemma keeps_drainOne {root : FileId} : Keeps env D doc Prog.Any (Dispatcher.drainOne env root) w := by
  simp only [Keeps, Dispatcher.drainOne, Prog.bind_eq, Prog.safe_bind, safe_unixNow, safe_sql,
    DbCall.run]
  refine fun h => ⟨h, fun _ => ⟨h, ?_⟩⟩
  cases hnext : OpTable.nextDue w.db.ops w.now with
  | none => trivial
  | some op =>
    simp only
    split_ifs
    · exact keeps_bind (keeps_sql (quiet_of_changes rfl rfl fun _ _ h => h)) fun _ _ => trivial
    · refine keeps_bind ?_ fun res w₁ => ?_
      · rw [Keeps, Prog.safe_attempt]
        exact (keeps_execute (OpTable.nextDue_mem hnext).1).mono fun _ _ _ => trivial
      · cases res with
        | ok u => exact keeps_bind (keeps_of_only only_completed) fun _ _ => trivial
        | error e => exact keeps_of_only only_failed

/-! ## Local events -/

/-- An operation that neither reaches an object on Drive nor makes a directory is admissible. -/
lemma admits_of_plain {item : ItemId} {op : Operation} {payload : Option Payload}
    (hop : ¬Reaching op) (hdir : op ≠ .createDirLocal)
    (hpayload : ∀ p, payload = some (.download p) → p.remoteId ≠ .id D) :
    Admits D w item op payload :=
  ⟨fun _ _ _ _ => hop, fun _ _ _ h => absurd h hdir, hpayload⟩

/-- Enqueueing an admissible operation leaves the rows alone. -/
lemma keeps_enqueueOp_items {item : ItemId} {op : Operation} {payload : Option Payload}
    (ho : Inv D doc w → Admits D w item op payload) :
    Keeps env D doc (fun _ w' => w'.db.items = w.db.items) (enqueueOp item op payload) w := by
  simp only [Keeps, enqueueOp, Prog.bind_eq, Prog.safe_bind, safe_unixNow, safe_sqlTry]
  refine fun h => ⟨h, fun h => ⟨h.enqueue (ho h), ?_⟩⟩
  split <;> exact Db.items_enqueue _ _ _ _ _

lemma keeps_enqueueOp {item : ItemId} {op : Operation} {payload : Option Payload}
    (ho : Inv D doc w → Admits D w item op payload) :
    Keeps env D doc Prog.Any (enqueueOp item op payload) w :=
  (keeps_enqueueOp_items ho).mono fun _ _ _ => trivial

lemma keeps_enqueueLocalDir {rel : RelPath} :
    Keeps env D doc Prog.Any (enqueueLocalDir rel) w := by
  simp only [Keeps, enqueueLocalDir, Prog.bind_eq, Prog.safe_bind, safe_sql, DbCall.run]
  refine fun h => ⟨h, ?_⟩
  split
  · trivial
  · simp only [Prog.safe_bind, safe_sqlTry]
    refine fun h => ⟨h.insertItem (by simp [localCreate]), ?_⟩
    split
    · exact keeps_enqueueOp fun _ => admits_of_plain (by decide) (by decide) (by simp)
    · trivial

lemma keeps_enqueueLocalFile {rel : RelPath} :
    Keeps env D doc Prog.Any (enqueueLocalFile rel) w := by
  simp only [Keeps, enqueueLocalFile, Prog.bind_eq, Prog.safe_bind, safe_sql, DbCall.run]
  refine fun h => ⟨h, ?_⟩
  cases hrow : w.db.items.getByRelativePath rel with
  | some item =>
    have hitem := (ItemTable.getByRelativePath_eq_some.mp hrow).1
    simp only
    split_ifs with hstate
    · trivial
    · refine keeps_enqueueOp fun h => ⟨fun r hr hid hD => ?_, by simp, by simp⟩
      obtain rfl := ItemTable.id_inj hr hitem hid
      exact absurd (h.rows r hr hD).1 hstate
  | none =>
    simp only [Prog.safe_bind, safe_sqlTry]
    refine fun h => ⟨h.insertItem (by simp [localCreate]), ?_⟩
    split
    · next id hid =>
      refine keeps_enqueueOp fun _ => ⟨fun r hr hrid hD => ?_, by simp, by simp⟩
      rw [Db.row_of_insertItem hid hr hrid] at hD
      simp [localCreate, NewSyncItem.withId] at hD
    · trivial

/-- A loop of programs that keep the invariant. -/
lemma keeps_forEach {α : Type} {l : List α} {f : α → Task Unit}
    (hf : ∀ a ∈ l, ∀ w, Keeps env D doc Prog.Any (f a) w) :
    Keeps env D doc Prog.Any (Prog.forEach l f) w := by
  refine Prog.Safe.forEach (fun _ => True) trivial (fun a ha s _ => ?_) fun _ _ => trivial
  exact (hf a ha s).mono fun x _ _ => by cases x <;> trivial

lemma keeps_foldM {α β : Type} {l : List α} {f : β → α → Task β} {b : β}
    (hf : ∀ a ∈ l, ∀ b w, Keeps env D doc Prog.Any (f b a) w) :
    Keeps env D doc Prog.Any (Prog.foldM l f b) w := by
  refine Prog.Safe.foldM (fun _ _ => True) trivial (fun a ha b s _ => ?_) fun _ _ _ => trivial
  exact (hf a ha b s).mono fun x _ _ => by cases x <;> trivial

lemma keeps_applyCreated {p : RelPath} : Keeps env D doc Prog.Any (applyCreated p) w := by
  have hio : ∀ {α : Type} (c : FsCall α), (io c).Only (Harmless D) := fun c => by
    simp [io, Prog.lift, Harmless]
  refine keeps_bind (keeps_of_only (hio _)) fun isDir w₁ => ?_
  split_ifs
  · refine keeps_bind keeps_enqueueLocalDir fun _ w₂ => ?_
    refine keeps_bind (keeps_of_only (hio _)) fun entries w₃ => ?_
    refine keeps_forEach fun e _ w₄ => ?_
    unfold enqueueLocalEntry
    split_ifs
    · exact keeps_enqueueLocalDir
    · exact keeps_enqueueLocalFile
  · refine keeps_bind (keeps_of_only (hio _)) fun isFile w₂ => ?_
    split_ifs
    · exact keeps_enqueueLocalFile
    · trivial

/-- Dropping conflict records leaves the rows alone. -/
lemma keeps_cleanupOnLocalDelete {p : RelPath} :
    Keeps env D doc (fun _ w' => w'.db.items = w.db.items) (Conflict.cleanupOnLocalDelete p) w := by
  simp only [Keeps, Conflict.cleanupOnLocalDelete, Prog.bind_eq, Prog.safe_bind, safe_sql,
    DbCall.run]
  refine fun h => ⟨h, ?_⟩
  refine Prog.Safe.forEach (fun w' => w'.db.items = w.db.items) rfl (fun row _ w' hw' => ?_)
    fun _ h => h
  split_ifs
  · rw [safe_sql]
    refine fun h => ⟨h.quiet (quiet_of_changes rfl rfl fun _ _ h => h), hw'⟩
  · exact hw'

/-- The event is no removal of the path of a pointer file of the document: a deletion of a live
row's path, or a move away from a row's path. -/
def Spares (D : ℕ) (w : World) : WatchEvent → Prop
  | .deleted p => ∀ r ∈ w.db.items, r.relativePath = p → r.trashedAt = none →
      r.remoteId ≠ some (.id D)
  | .renamed p _ => ∀ r ∈ w.db.items, r.relativePath = p → r.remoteId ≠ some (.id D)
  | _ => True

/-- A deletion that spares the pointer files keeps the invariant, and brings no row. -/
lemma keeps_applyDeleted {p : RelPath} (hev : Spares D w (.deleted p)) :
    Keeps env D doc (fun _ w' => ∀ r ∈ w'.db.items, r ∈ w.db.items) (applyDeleted p) w := by
  have hsame : ∀ {w' : World}, w'.db.items = w.db.items → ∀ r ∈ w'.db.items, r ∈ w.db.items :=
    fun h r hr => h ▸ hr
  refine Prog.Safe.bind keeps_cleanupOnLocalDelete (fun _ w₁ hitems => ?_)
    fun _ _ hitems => hsame hitems
  simp only [Prog.bind_eq, Prog.safe_bind, safe_sql, DbCall.run, hitems]
  refine fun h => ⟨h, ?_⟩
  cases hrow : w.db.items.getByRelativePath p with
  | none => exact hsame hitems
  | some item =>
    obtain ⟨hitem, hpath⟩ := ItemTable.getByRelativePath_eq_some.mp hrow
    simp only
    split_ifs with htrashed hremote
    · exact hsame hitems
    · refine (keeps_enqueueOp_items fun _ => ⟨fun r hr hid hD => ?_, by simp, by simp⟩).mono
        fun _ _ h => hsame (h.trans hitems)
      rw [hitems] at hr
      obtain rfl := ItemTable.id_inj hr hitem hid
      exact absurd hD (hev r hr hpath (not_not.mp htrashed))
    · rw [safe_sql]
      refine fun h => ⟨h.quiet (quiet_deleteItem _), fun r hr => ?_⟩
      rw [DbCall.run, Db.items_withItems] at hr
      exact hsame hitems r (ItemTable.mem_delete.mp hr).1

/-- **A watcher event** that spares the pointer files keeps the invariant. -/
lemma keeps_applyLocal {ev : WatchEvent} (hev : Spares D w ev) :
    Keeps env D doc Prog.Any (applyLocal ev) w := by
  cases ev with
  | created p => exact keeps_applyCreated
  | modified p => exact keeps_applyCreated
  | deleted p => exact (keeps_applyDeleted hev).mono fun _ _ _ => trivial
  | renamed p q =>
    simp only [Keeps, applyLocal, applyRenamed, Prog.bind_eq, Prog.safe_bind, safe_sql, DbCall.run]
    refine fun h => ⟨h, ?_⟩
    cases hrow : w.db.items.getByRelativePath p with
    | none => exact keeps_applyCreated
    | some item =>
      obtain ⟨hitem, hpath⟩ := ItemTable.getByRelativePath_eq_some.mp hrow
      simp only
      split_ifs with hremote
      · simp only [Prog.safe_bind, safe_sql]
        refine fun h => ⟨h.quiet (quiet_setRelativePath _ _), ?_⟩
        refine keeps_enqueueOp fun _ => ⟨fun r hr hid hD => ?_, by simp, by simp⟩
        rcases DbCall.mem_items_run hr with ⟨s, hs, hsid, ⟨path, rfl⟩⟩ | ⟨new, hnew, -⟩
        · obtain rfl := ItemTable.id_inj hs hitem hid
          exact absurd (hremote.symm.trans hD) (by simp)
        · cases hnew
      · refine keeps_enqueueOp fun _ => ⟨fun r hr hid hD => ?_, by simp, by simp⟩
        obtain rfl := ItemTable.id_inj hr hitem hid
        exact absurd hD (hev r hr hpath)

/-! ## Remote changes -/

/-- The change describes its own object, and describes the document as native. -/
def Genuine (D : ℕ) (c : RemoteChange) : Prop :=
  ∀ f, c.file = some f → f.id = c.fileId ∧
    (c.fileId = .id D → Shortcut.isNative f.mimeType = true)

lemma keeps_enqueueDownload {item : ItemId} {file : FileResource} {md5 : String} {rel : RelPath}
    (hfile : file.id ≠ .id D) : Keeps env D doc Prog.Any (enqueueDownload item file md5 rel) w :=
  keeps_enqueueOp fun _ => admits_of_plain (by decide) (by decide)
    (by rintro p ⟨⟩; exact hfile)

lemma keeps_enqueueRenameLocal {item : ItemId} {rel : RelPath} :
    Keeps env D doc Prog.Any (enqueueRenameLocal item rel) w :=
  keeps_enqueueOp fun _ => admits_of_plain (by decide) (by decide) (by simp)

lemma keeps_enqueueWriteShortcut {item : ItemId} {mime : String} {id : FileId} :
    Keeps env D doc Prog.Any (enqueueWriteShortcut item mime id) w :=
  keeps_enqueueOp fun _ => admits_of_plain (by decide) (by decide) (by simp)

lemma keeps_applyRemoved {id : FileId} : Keeps env D doc Prog.Any (applyRemoved id) w := by
  refine keeps_bind (keeps_sql (quiet_of_changes rfl rfl fun _ _ h => h)) fun row w₁ => ?_
  split
  · trivial
  · exact keeps_enqueueOp fun _ => admits_of_plain (by decide) (by decide) (by simp)

lemma keeps_applyTrashed {id : FileId} : Keeps env D doc Prog.Any (applyTrashed id) w := by
  refine keeps_bind (keeps_sql (quiet_of_changes rfl rfl fun _ _ h => h)) fun row w₁ => ?_
  split
  · trivial
  · split_ifs
    · exact keeps_enqueueOp fun _ => admits_of_plain (by decide) (by decide) (by simp)
    · trivial

lemma quiet_lookup {rid : FileId} : Quiet (.getByRemoteId rid) :=
  quiet_of_changes rfl rfl fun _ _ h => h

lemma quiet_lookupPath {rel : RelPath} : Quiet (.getByRelativePath rel) :=
  quiet_of_changes rfl rfl fun _ _ h => h

lemma quiet_clearTrashed (id : ItemId) : Quiet (.clearTrashed id) := by
  refine ⟨rfl, rfl, fun s r hr => ?_⟩
  rcases hr with rfl | ⟨-, rfl⟩ <;> exact ⟨rfl, rfl, rfl⟩

lemma keeps_applyFolder {id : FileId} {file : FileResource} {rel : RelPath}
    (hfile : file.id ≠ .id D) : Keeps env D doc Prog.Any (applyFolder id file rel) w := by
  refine keeps_bind (keeps_sql quiet_lookup) fun row w₁ => ?_
  split
  · refine keeps_bind (keeps_sql quiet_lookupPath) fun taken w₂ => ?_
    split
    · trivial
    · simp only [Keeps, Prog.bind_eq, Prog.safe_bind, safe_sqlTry]
      refine fun h => ⟨h.insertItem fun hD => absurd (Option.some.inj hD) hfile, ?_⟩
      split
      · next id hid =>
        refine keeps_enqueueOp fun _ => ⟨by simp [Reaching], fun r hr hrid _ => ?_, by simp⟩
        rw [Db.row_of_insertItem hid hr hrid]
        rfl
      · trivial
  · split_ifs
    · exact keeps_enqueueRenameLocal
    · trivial

lemma keeps_applyNative {id : FileId} {file : FileResource} {rel : RelPath} :
    Keeps env D doc Prog.Any (applyNative id file rel) w := by
  refine keeps_bind (keeps_sql quiet_lookup) fun row w₁ => ?_
  split
  · simp only [Keeps, Prog.bind_eq, Prog.safe_bind, safe_sqlTry]
    refine fun h => ⟨h.insertItem fun _ => ⟨rfl, rfl⟩, ?_⟩
    split
    · exact keeps_enqueueWriteShortcut
    · trivial
  · split_ifs
    · exact keeps_enqueueRenameLocal
    · exact keeps_bind (keeps_sql (quiet_clearTrashed _)) fun _ _ => keeps_enqueueWriteShortcut
    · trivial

lemma keeps_applyMoved {item : SyncItem} {file : FileResource} {md5 : String} {rel : RelPath}
    (hfile : file.id ≠ .id D) : Keeps env D doc Prog.Any (applyMoved item file md5 rel) w := by
  have hdir : (renamedDir item file rel).Only (Harmless D) := by
    unfold renamedDir
    split
    · simp only
      split_ifs
      · refine (only_sql quiet_lookupPath).bind fun row => ?_
        split
        · split_ifs <;> trivial
        · trivial
      · trivial
    · trivial
  refine keeps_bind (keeps_of_only hdir) fun dir w₁ => ?_
  split
  · exact keeps_enqueueRenameLocal
  · refine keeps_bind keeps_enqueueRenameLocal fun _ w₂ => ?_
    split_ifs
    · trivial
    · exact keeps_enqueueDownload hfile

lemma only_openConflict {item : ItemId} {rel : RelPath} {now : ℕ} :
    (Conflict.openConflict item rel now).Only (Harmless D) := by
  have hmove : ∀ conflict, (Conflict.moveAside rel conflict).Only (Harmless D) := by
    intro conflict
    refine Prog.Only.bind (by simp [io, Prog.lift, Harmless]) fun present => ?_
    split_ifs
    · refine Prog.Only.bind (by simp [io, Prog.lift, Harmless]) fun res => ?_
      split <;> trivial
    · trivial
  refine (hmove _).bind fun _ => ?_
  have hquiet : Quiet (.insertConflict item rel (Conflict.conflictPathFor rel now) now) :=
    quiet_of_changes rfl rfl fun _ _ h => h
  simp [sqlTry, Harmless, hquiet]

lemma only_localVersion {item : SyncItem} {md5 : String} :
    (localVersion env item md5).Only (Harmless D) := by
  refine Prog.Only.bind (by simp [io, Prog.lift, Harmless]) fun isFile => ?_
  split_ifs
  · split
    · trivial
    · refine Prog.Only.bind (by simp [io, Prog.lift, Harmless]) fun res => ?_
      split
      · trivial
      · split_ifs <;> trivial
  · trivial

lemma keeps_applyEdited {item : SyncItem} {file : FileResource} {md5 : String}
    (hfile : file.id ≠ .id D) : Keeps env D doc Prog.Any (applyEdited env item file md5) w := by
  unfold applyEdited
  split_ifs
  · trivial
  · refine keeps_bind (keeps_of_only only_localVersion) fun version w₁ => ?_
    cases version with
    | agrees => trivial
    | edited =>
      refine keeps_bind (keeps_of_only (by simp [unixNow, Prog.lift, Harmless])) fun now w₂ => ?_
      exact keeps_bind (keeps_of_only only_openConflict) fun _ _ => keeps_enqueueDownload hfile
    | behind => exact keeps_enqueueDownload hfile

lemma keeps_applyNewFile {file : FileResource} {md5 : String} {rel : RelPath}
    (hfile : file.id ≠ .id D) : Keeps env D doc Prog.Any (applyNewFile file md5 rel) w := by
  refine keeps_bind (keeps_sql quiet_lookupPath) fun row w₁ => ?_
  split
  · trivial
  · simp only [Keeps, Prog.bind_eq, Prog.safe_bind, safe_sqlTry]
    refine fun h => ⟨h.insertItem fun hD => absurd (Option.some.inj hD) hfile, ?_⟩
    split
    · exact keeps_enqueueDownload hfile
    · trivial

lemma keeps_applyFile {c : RemoteChange} {file : FileResource} {md5 : String}
    (hfile : file.id ≠ .id D) : Keeps env D doc Prog.Any (applyFile env c file md5) w := by
  refine keeps_bind (keeps_sql quiet_lookup) fun row w₁ => ?_
  split
  · split_ifs
    · exact keeps_bind (keeps_sql (quiet_clearTrashed _)) fun _ _ => keeps_enqueueDownload hfile
    · split
      · split_ifs
        · exact keeps_applyMoved hfile
        · exact keeps_applyEdited hfile
      · exact keeps_applyEdited hfile
  · exact keeps_applyNewFile hfile

/-- **A remote change** keeps the invariant. -/
lemma keeps_applyRemote {c : RemoteChange} (hc : Genuine D c) :
    Keeps env D doc Prog.Any (applyRemote env c) w := by
  refine keeps_bind (keeps_of_only (by simp [Prog.lift, Harmless])) fun inFlight w₁ => ?_
  split_ifs
  · trivial
  · exact keeps_applyRemoved
  · split
    · trivial
    · next file hfile =>
      obtain ⟨hid, hnative⟩ := hc file hfile
      unfold applyPresent
      split_ifs with htrashed hfolder hdoc
      · exact keeps_applyTrashed
      · refine keeps_applyFolder fun hD => ?_
        have hmime : file.mimeType = folderMime := of_decide_eq_true hfolder
        have hdoc := hnative (hid.symm.trans hD)
        rw [hmime] at hdoc
        exact absurd hdoc (by decide)
      · exact keeps_applyNative
      · split
        · trivial
        · exact keeps_applyFile fun hD => hdoc (hnative (hid.symm.trans hD))

/-- A batch of remote changes keeps the invariant. -/
lemma keeps_applyBatch {b : RemoteBatch} (hb : ∀ c ∈ b.changes, Genuine D c) :
    Keeps env D doc Prog.Any (Consumer.applyBatch env b) w := by
  refine Prog.Safe.bind (P := Prog.Any) ?_ (fun all w₁ _ => ?_) fun _ _ _ => trivial
  · refine Prog.Safe.foldM (fun _ _ => True) trivial (fun c hc all w₁ _ => ?_) fun _ _ _ => trivial
    simp only [Consumer.applyNext, Prog.bind_eq, Prog.safe_bind, Prog.safe_attempt]
    refine (keeps_applyRemote (hb c hc)).mono fun x _ _ => ?_
    cases x <;> trivial
  · split_ifs
    · exact keeps_sql (quiet_of_changes rfl rfl fun _ _ h => h)
    · trivial

/-! ## The startup scan -/

lemma keeps_remoteMatchesSynced {item : SyncItem} :
    Keeps env D doc (fun _ w' => w'.db = w.db) (StartupScan.remoteMatchesSynced item) w := by
  unfold StartupScan.remoteMatchesSynced
  split
  · rfl
  · simp only [Keeps, Prog.bind_eq, Prog.safe_bind, Prog.safe_attempt, safe_request]
    refine fun h => ⟨h.drive_call (by simp [DriveCall.touches]), ?_⟩
    split <;> rfl

/-- An entry of the local tree is at most a creation or an edit. -/
lemma keeps_scanEntry {e : Fs.LocalEntry} :
    Keeps env D doc Prog.Any (StartupScan.scanEntry env e) w := by
  unfold StartupScan.scanEntry
  split
  · trivial
  · refine keeps_bind (keeps_sql quiet_lookupPath) fun existing w₁ => ?_
    split
    · split
      · exact keeps_applyLocal trivial
      · trivial
    · split
      · next item =>
        split
        · trivial
        · refine keeps_bind (keeps_of_only only_computeLocal) fun fp w₂ => ?_
          simp only
          split
          · refine keeps_bind (keeps_remoteMatchesSynced.mono fun _ _ _ => trivial) fun same w₃ => ?_
            split
            · exact keeps_applyLocal trivial
            · trivial
          · trivial
      · exact keeps_applyLocal trivial

/-- **The startup scan** keeps the invariant.

**Proof sketch.** The rows it replays as deleted are not `Skipped`. While the second loop runs,
rows are only dropped, so the row at such a path is still the one that was listed. -/
lemma keeps_startupLocalScan :
    Keeps env D doc Prog.Any (StartupScan.startupLocalScan env) w := by
  refine keeps_bind (keeps_of_only (by simp [io, Prog.lift, Harmless])) fun entries w₁ => ?_
  refine keeps_bind (keeps_forEach fun e _ w => keeps_scanEntry) fun _ w₂ => ?_
  simp only [Keeps, Prog.bind_eq, Prog.safe_bind, safe_sql, DbCall.run]
  refine fun h => ⟨h, ?_⟩
  refine Prog.Safe.forEach (fun w => Inv D doc w ∧ ∀ r ∈ w.db.items, r ∈ w₂.db.items)
    ⟨h, fun r hr => hr⟩ ?_ fun _ _ => trivial
  rintro item hitem w₃ ⟨h₃, hw₃⟩
  have hlisted := ItemTable.mem_listForMapping.mp hitem
  unfold StartupScan.scanRow
  split
  · next hvanished =>
    have hstate : item.state ≠ .skipped := by
      simp only [StartupScan.vanished, Bool.and_eq_true, decide_eq_true_eq] at hvanished
      exact hvanished.1.1.1.2
    refine Prog.Safe.bind (keeps_remoteMatchesSynced.and_inv h₃) ?_
      fun _ _ _ => trivial
    rintro same w₄ ⟨h₄, hdb⟩
    have hw₄ : ∀ r ∈ w₄.db.items, r ∈ w₂.db.items := fun r hr => hw₃ r (hdb ▸ hr)
    split
    · have hspares : Spares D w₄ (.deleted item.relativePath) := by
        intro r hr hpath _ hD
        obtain rfl := ItemTable.path_inj (hw₄ r hr) hlisted hpath
        exact hstate (h₄.rows r hr hD).1
      refine ((keeps_applyDeleted hspares).and_inv h₄).mono ?_
      rintro x w₅ ⟨h₅, hw₅⟩
      cases x with
      | error e => trivial
      | ok u => exact ⟨h₅, fun r hr => hw₄ r (hw₅ r hr)⟩
    · exact ⟨h₄, hw₄⟩
  · exact ⟨h₃, hw₃⟩

/-! ## The initial reconciliation -/

/-- A listed entry is not the document unless it is a native file. -/
def Foreign (D : ℕ) (e : Initial.RemoteEntry) : Prop :=
  e.isDir = true ∨ e.md5 ≠ none → e.id ≠ .id D

/-- The entries that the remote walk collects have proper paths and do not bind the document. -/
def Walked (D : ℕ) (l : List Initial.RemoteEntry) : Prop :=
  ∀ e ∈ l, Foreign D e ∧ e.relativePath ≠ []

lemma keeps_walkQueue {fuel : ℕ} {queue : List (FileId × RelPath)} {out : List Initial.RemoteEntry}
    (hout : Walked D out) :
    Keeps env D doc (fun x _ => ∀ l, x = .ok l → Walked D l) (Initial.walkQueue fuel queue out) w := by
  induction fuel generalizing queue out w with
  | zero =>
    cases queue with
    | nil => rintro l ⟨⟩; exact hout
    | cons q queue => rintro l ⟨⟩
  | succ fuel ih =>
    cases queue with
    | nil => rintro l ⟨⟩; exact hout
    | cons q queue =>
      obtain ⟨parent, path⟩ := q
      simp only [Keeps, Initial.walkQueue, Prog.bind_eq, Prog.safe_bind, safe_request]
      refine fun h => ⟨h.drive_call (by simp [DriveCall.touches]), ?_⟩
      cases hl : (w.remote.send env.md5 (.listChildren parent)).1 with
      | error e => rintro l ⟨⟩
      | ok children =>
        refine ih fun e he => ?_
        rcases List.mem_append.mp he with he | he
        · exact hout e he
        obtain ⟨c, hc, rfl⟩ := List.mem_map.mp he
        have hlisted := h.listed hl (List.mem_filter.mp hc).1
        unfold Initial.remoteEntry
        split_ifs with hfolder
        · exact ⟨fun _ => hlisted (.inl hfolder), by simp⟩
        · exact ⟨fun hkind => hlisted (.inr (hkind.resolve_left (by simp))), by simp⟩

lemma keeps_walkRemote {fuel : ℕ} {root : FileId} :
    Keeps env D doc (fun x _ => ∀ l, x = .ok l → Walked D l) (Initial.walkRemote fuel root) w := by
  refine Prog.Safe.bind (keeps_walkQueue (by simp [Walked])) (fun out w₁ hout => ?_)
    fun e w₁ _ => by rintro l ⟨⟩
  rintro l ⟨⟩ e he
  exact hout out rfl e ((RelPath.mem_sort _ _ _).mp he)

lemma keeps_recordNew {new : NewSyncItem} (hnew : new.remoteId ≠ some (.id D)) :
    Keeps env D doc Prog.Any (Initial.recordNew new) w := by
  refine keeps_bind (keeps_sql quiet_lookupPath) fun row w₁ => ?_
  split
  · trivial
  · simp only [Keeps, Prog.bind_eq, Prog.safe_bind, safe_sqlTry]
    refine fun h => ⟨h.insertItem fun hD => absurd hD hnew, ?_⟩
    split <;> trivial

lemma keeps_recordSyncedItem {rel : RelPath} {id : FileId} {size : ℕ} {md5 : String}
    (hid : id ≠ .id D) : Keeps env D doc Prog.Any (Initial.recordSyncedItem rel id size md5) w :=
  keeps_recordNew fun hD => hid (Option.some.inj hD)

/-- The folder ids do not bind the document; the root may be any id. -/
def Folders (D : ℕ) (ids : Initial.FolderIds) : Prop :=
  ∀ p id, p ≠ [] → ids.val p = some id → id ≠ .id D

lemma Folders.set {ids : Initial.FolderIds} {p : RelPath} {id : FileId} (h : Folders D ids)
    (hid : id ≠ .id D) : Folders D (ids.set p id) := by
  intro q id' hq hval
  by_cases hqp : q = p
  · subst hqp
    rw [Data.FinMap.val_set_self] at hval
    exact Option.some.inj hval ▸ hid
  · rw [Data.FinMap.val_set_ne _ _ hqp] at hval
    exact h q id' hq hval

lemma folders_folderIds {root : FileId} {entries : List Initial.RemoteEntry}
    (h : Walked D entries) : Folders D (Initial.folderIds root entries) := by
  refine Initial.folderIds_induction (fun p id hp hval => ?_) fun e he hdir ids hids => ?_
  · rw [Data.FinMap.val_set_ne _ _ hp] at hval
    cases hval
  · exact hids.set ((h e he).1 (.inl hdir))

lemma keeps_remoteDir {root : FileId} {ids : Initial.FolderIds} {dir : RelPath}
    (hids : Folders D ids) (hdir : dir ≠ []) :
    Keeps env D doc (fun x _ => ∀ found, x = .ok found → found.1 ≠ .id D ∧ Folders D found.2)
      (Initial.remoteDir root ids dir) w := by
  unfold Initial.remoteDir
  cases hval : ids.val dir with
  | some id => rintro found ⟨⟩; exact ⟨hids dir id hdir hval, hids⟩
  | none =>
    simp only [Keeps, Engine.createDirRemote, Prog.bind_eq, Prog.safe_bind, safe_request]
    refine fun h => ⟨h.drive_call (by simp [DriveCall.touches]), ?_⟩
    split
    · next created hmade =>
      have hid : created.id ≠ .id D := h.created (.inl ⟨_, _, rfl⟩) hmade
      rintro found ⟨⟩
      exact ⟨hid, hids.set hid⟩
    · rintro found ⟨⟩

lemma keeps_reconcileDir {root : FileId} {ids : Initial.FolderIds} {dir : RelPath}
    (hids : Folders D ids) (hdir : dir ≠ []) :
    Keeps env D doc (fun x _ => ∀ ids', x = .ok ids' → Folders D ids')
      (Initial.reconcileDir root ids dir) w := by
  have hfail : ∀ (e : Error) (w : World),
      Prog.Any (.error e : Except Error Unit) w → ∀ ids', Except.error e = .ok ids' →
        Folders D ids' := by
    rintro e w - ids' ⟨⟩
  refine Prog.Safe.bind (keeps_remoteDir hids hdir) (fun found w₁ hfound => ?_)
    fun e w₁ _ => by rintro ids' ⟨⟩
  obtain ⟨hid, hids'⟩ := hfound found rfl
  refine Prog.Safe.bind (P := Prog.Any) (keeps_of_only (by simp [ioTry, Harmless]))
    (fun _ w₂ _ => ?_) hfail
  refine Prog.Safe.bind (P := Prog.Any) (keeps_recordNew fun hD => hid (Option.some.inj hD))
    (fun _ w₃ _ => ?_) hfail
  rintro l ⟨⟩
  exact hids'

lemma keeps_writeShortcut {r : Initial.RemoteEntry} :
    Keeps env D doc Prog.Any (Initial.writeShortcut r) w := by
  unfold Initial.writeShortcut
  split
  · trivial
  · split
    · refine keeps_bind (keeps_sql quiet_lookupPath) fun row w₁ => ?_
      split
      · trivial
      · refine keeps_bind (keeps_of_only (by simp [Shortcut.write, ioTry, Harmless])) fun _ w₂ => ?_
        simp only [Keeps, Prog.bind_eq, Prog.safe_bind, safe_sqlTry]
        refine fun h => ⟨h.insertItem fun _ => ⟨rfl, rfl⟩, ?_⟩
        split <;> trivial
    · trivial

lemma keeps_planUpload {root : FileId} {ids : Initial.FolderIds} {remotes : List Initial.RemoteEntry}
    {ups : List Engine.BulkUpload} {e : Fs.LocalEntry} :
    Keeps env D doc Prog.Any (Initial.planUpload env root ids remotes ups e) w := by
  unfold Initial.planUpload
  split
  · trivial
  · split
    · trivial
    · refine keeps_bind (keeps_sql quiet_lookupPath) fun row w₁ => ?_
      split <;> trivial

lemma keeps_recordEqual {remotes : List Initial.RemoteEntry} {e : Fs.LocalEntry}
    (hremotes : Walked D remotes) :
    Keeps env D doc Prog.Any (Initial.recordEqual env remotes e) w := by
  unfold Initial.recordEqual
  split
  · trivial
  · next remote hremote =>
    split
    · trivial
    · refine keeps_bind (keeps_of_only only_computeLocal) fun fp w₁ => ?_
      simp only
      split
      · next hequal =>
        refine keeps_recordSyncedItem ((hremotes remote (Initial.mem_of_remoteByPath hremote)).1 (.inr ?_))
        simp [hequal.1]
      · trivial

lemma keeps_recordSeen {after : List Initial.RemoteEntry} {pending : List Engine.BulkUpload}
    {up : Engine.BulkUpload} (hafter : Walked D after) :
    Keeps env D doc Prog.Any (Initial.recordSeen after pending up) w := by
  unfold Initial.recordSeen
  split
  · next r md5 hseen =>
    obtain ⟨r', hr', hmd5⟩ := Option.bind_eq_some_iff.mp hseen
    obtain ⟨md5', hmd5', hpair⟩ := Option.map_eq_some_iff.mp hmd5
    obtain ⟨rfl, rfl⟩ := Prod.mk.inj hpair
    have hmem := (List.mem_filter.mp (Initial.mem_of_remoteByPath hr')).1
    refine keeps_bind (keeps_recordSyncedItem ((hafter r' hmem).1 (.inr ?_))) fun _ _ => trivial
    simp [hmd5']
  · trivial

lemma keeps_recordLookedUp {still : List Engine.BulkUpload} {up : Engine.BulkUpload} :
    Keeps env D doc Prog.Any (Initial.recordLookedUp still up) w := by
  refine Prog.Safe.bind
    (P := fun x _ => ∀ id size md5, x = .ok (some (id, size, md5)) → id ≠ .id D) ?_
    (fun found w₁ hfound => ?_) fun _ _ _ => trivial
  · simp only [Initial.lookupUploaded, Prog.bind_eq, Prog.safe_bind, Prog.safe_attempt,
      safe_request]
    refine fun h => ⟨h.drive_call (by simp [DriveCall.touches]), ?_⟩
    cases hl : (w.remote.send env.md5 (.listChildren up.remoteParentId)).1 with
    | error e => rintro id size md5 ⟨⟩
    | ok children =>
      intro id size md5 hx
      obtain ⟨c, hc, hmap⟩ := Option.bind_eq_some_iff.mp (Except.ok.inj hx)
      obtain ⟨m, hm, hpair⟩ := Option.map_eq_some_iff.mp hmap
      obtain ⟨rfl, -⟩ := Prod.mk.inj hpair
      exact h.listed hl (List.mem_of_find?_eq_some hc) (.inr (by simp [hm]))
  · cases found with
    | none => trivial
    | some found =>
      obtain ⟨id, size, md5⟩ := found
      exact keeps_bind (keeps_recordSyncedItem (hfound id size md5 rfl)) fun _ _ => trivial

lemma keeps_retryLookups {n : ℕ} {pending : List Engine.BulkUpload} :
    Keeps env D doc Prog.Any (Initial.retryLookups n pending) w := by
  induction n generalizing pending w with
  | zero => cases pending <;> trivial
  | succ n ih =>
    cases pending with
    | nil => trivial
    | cons up pending =>
      exact keeps_bind (keeps_foldM fun _ _ _ _ => keeps_recordLookedUp) fun _ _ => ih

lemma keeps_recordUploads {fuel : ℕ} {root : FileId} {uploads : List Engine.BulkUpload} :
    Keeps env D doc Prog.Any (Initial.recordUploads fuel root uploads) w := by
  unfold Initial.recordUploads
  split
  · trivial
  · refine Prog.Safe.bind keeps_walkRemote (fun after w₁ hafter => ?_) fun _ _ _ => trivial
    refine keeps_bind (keeps_foldM fun _ _ _ _ => keeps_recordSeen (hafter after rfl)) fun _ _ => ?_
    exact keeps_retryLookups

/-- The paths of a local walk are proper. -/
lemma keeps_walkLocal :
    Keeps env D doc (fun x _ => ∀ l, x = .ok l → ∀ e ∈ l, e.relativePath ≠ []) (io (.walk [])) w := by
  rw [Keeps, safe_io]
  refine fun h => ⟨h, ?_⟩
  rintro l ⟨⟩ e he
  obtain ⟨n, -, -, hbelow, -⟩ := Fs.mem_walk.mp he
  obtain ⟨x, rest, hpath⟩ := RelPath.below_iff.mp hbelow
  simp [hpath]

/-- **The initial reconciliation** keeps the invariant: what it records as a regular item was
listed with an MD5 or as a folder, or was just made. -/
lemma keeps_initial {fuel : ℕ} {root : FileId} :
    Keeps env D doc Prog.Any (Initial.initial env fuel root) w := by
  have hdownload : ∀ item : Engine.BulkDownload,
      (Engine.download item.remoteId item.relPath).Only (Harmless D) := by
    simp [Engine.download, request, ioTry, Harmless, DriveCall.touches]
  have hupload : ∀ item : Engine.BulkUpload,
      (Engine.upload item.relPath item.remoteParentId item.name).Only (Harmless D) := by
    simp [Engine.upload, request, ioTry, Harmless, DriveCall.touches]
  refine Prog.Safe.bind keeps_walkLocal (fun locals w₁ hlocals => ?_) fun _ _ _ => trivial
  refine Prog.Safe.bind keeps_walkRemote (fun remotes w₂ hremotes => ?_) fun _ _ _ => trivial
  replace hlocals := hlocals locals rfl
  replace hremotes := hremotes remotes rfl
  have hfiles : Walked D (remotes.filter fun e => !e.isDir) := fun e he =>
    hremotes e (List.mem_filter.mp he).1
  have hdirs : ∀ dir ∈ Initial.dirPaths locals remotes, dir ≠ [] := by
    intro dir hdir
    simp only [Initial.dirPaths, RelPath.mem_sort, List.mem_dedup, List.mem_append,
      List.mem_map, List.mem_filter] at hdir
    rcases hdir with ⟨e, ⟨he, -⟩, rfl⟩ | ⟨e, ⟨he, -⟩, rfl⟩
    · exact hlocals e he
    · exact (hremotes e he).2
  refine keeps_bind ?_ fun ids w₃ => ?_
  · refine Prog.Safe.foldM (fun ids _ => Folders D ids) (folders_folderIds hremotes)
      (fun dir hdir ids w₃ hids => ?_) fun _ _ _ => trivial
    refine (keeps_reconcileDir hids (hdirs dir hdir)).mono fun x w₄ hx => ?_
    cases x with
    | error e => trivial
    | ok ids' => exact hx ids' rfl
  refine keeps_bind (keeps_forEach fun _ _ _ => keeps_writeShortcut) fun _ w₄ => ?_
  refine keeps_bind (keeps_foldM fun _ _ _ _ => keeps_planUpload) fun uploads w₅ => ?_
  refine keeps_bind (keeps_forEach fun _ _ _ => keeps_recordEqual hfiles) fun _ w₆ => ?_
  refine keeps_bind (keeps_of_only (.forEach fun _ _ => hdownload _)) fun _ w₇ => ?_
  refine keeps_bind (keeps_of_only (.forEach fun _ _ => (hupload _).bind fun _ => trivial))
    fun _ w₈ => ?_
  refine keeps_bind (keeps_forEach fun d hd w₉ => ?_) fun _ w₉ => ?_
  · obtain ⟨r, hr, hplan⟩ := List.mem_filterMap.mp hd
    have hmd5 : d.1 = r ∧ r.md5 ≠ none := by
      split_ifs at hplan
      obtain ⟨md5, hmd5, rfl⟩ := Option.map_eq_some_iff.mp hplan
      exact ⟨rfl, by simp [hmd5]⟩
    rw [hmd5.1]
    exact keeps_recordSyncedItem ((hfiles r hr).1 (.inr hmd5.2))
  · refine keeps_bind keeps_recordUploads fun _ w₁₀ => ?_
    refine keeps_bind (keeps_of_only (only_request (by simp [DriveCall.touches]))) fun token w₁₁ => ?_
    exact keeps_sql (quiet_of_changes rfl rfl fun _ _ h => h)

/-! ## The other passes -/

lemma quiet_gcTombstones (cutoff : ℕ) : Quiet (.gcTombstones cutoff) :=
  quiet_of_changes rfl rfl fun _ _ h => h

lemma keeps_housekeeping : Keeps env D doc Prog.Any Start.housekeeping w :=
  keeps_bind (keeps_of_only (by simp [unixNow, Prog.lift, Harmless])) fun _ _ =>
    keeps_sql (quiet_gcTombstones _)

/-- Programs that work in the background make harmless calls. -/
lemma only_background {α : Type} {p : Task α} (h : p.Only fun _ c => Calls.background c = true) :
    p.Only (Harmless D) := by
  refine h.mono fun β c hc => ?_
  cases c with
  | db c => cases c <;> first | exact quiet_of_changes rfl rfl fun _ _ h => h | cases hc
  | drive c =>
    have hnone : c.touches = none := by cases c <;> first | rfl | cases hc
    intro id hid
    cases hnone.symm.trans hid
  | _ => cases hc

/-! ## Runs -/

/-- The actions that spare the document: the events handled are no removals of its pointer file,
the batches describe it as native, and Drive gives its id to no other kind of object. -/
def Sparing (D : ℕ) (w : World) : Action → Prop
  | .job (.event ev) _ => Spares D w ev
  | .job (.batch b) _ => ∀ c ∈ b.changes, Genuine D c
  | .job _ _ => True
  | .outside w' => ∃ doc, Native doc ∧ Holds D doc w'.remote.drive

/-- **Every job** that spares the document keeps the invariant. -/
lemma keeps_task {j : Job} {calls : ℕ} (hj : Sparing D w (.job j calls)) :
    Keeps env D doc Prog.Any (j.task env) w := by
  cases j with
  | event ev => exact keeps_applyLocal hj
  | batch b => exact keeps_applyBatch hj
  | drain root => exact keeps_bind keeps_drainOne fun _ _ => trivial
  | poll fuel root cache => exact keeps_of_only ((only_background Calls.background_tick).bind fun _ => trivial)
  | scan => exact keeps_startupLocalScan
  | initial fuel root => exact keeps_initial
  | housekeeping => exact keeps_housekeeping
  | ensureRoot mayCreate m =>
    exact keeps_of_only ((only_background Calls.background_ensureRemoteRoot).bind fun _ => trivial)
  | map autoCreate confirmed localPath spec =>
    exact keeps_of_only (only_background Calls.background_map)

/-- The invariant holds in every state of a run that spares the document; what Drive holds under
its id may change from outside. -/
lemma exists_inv {w₀ : World} (h₀ : ∃ doc, Inv D doc w₀) (h : Runs env (Sparing D) w₀ w) :
    ∃ doc, Inv D doc w := by
  induction h with
  | start => exact h₀
  | @step w a _ meets ih =>
    obtain ⟨doc, hinv⟩ := ih
    cases a with
    | job j calls => exact ⟨doc, (keeps_task meets).cut hinv calls⟩
    | outside w' =>
      obtain ⟨doc', hnative, hholds⟩ := meets
      exact ⟨doc', hinv.rows, hinv.ops, hinv.dirs, hinv.downloads, hnative, hholds⟩

/-- **Native documents are one-way** in every run in which no removal of a pointer file is
handled: from the first start on, in every state reached, no queued operation on a row of the
document is an `Upload`, a `DeleteRemote` or a `RenameRemote`, and no further job changes, trashes,
moves or deletes the document. -/
theorem native_document_one_way {w₀ : World} (hempty : w₀.db = Db.empty)
    (hdoc : ∃ doc, Native doc ∧ Holds D doc w₀.remote.drive) (h : Runs env (Sparing D) w₀ w) :
    (∀ o ∈ w.db.ops, ∀ r ∈ w.db.items, r.id = o.syncItemId → r.remoteId = some (.id D) →
        ¬Reaching o.op) ∧
      ∀ j calls, Sparing D w (.job j calls) →
        ((Action.job j calls).perform env w).remote.drive.files.get D =
          w.remote.drive.files.get D := by
  obtain ⟨doc₀, hnative₀, hholds₀⟩ := hdoc
  have h₀ : Inv D doc₀ w₀ := by
    refine ⟨fun r hr => ?_, fun o ho => ?_, fun o ho => ?_, fun o ho => ?_, hnative₀, hholds₀⟩
    · rw [hempty] at hr
      exact absurd hr (ItemTable.not_mem_empty r)
    all_goals
      rw [hempty] at ho
      exact absurd ho (Data.Serial.not_mem_empty o)
  obtain ⟨doc, hinv⟩ := exists_inv ⟨doc₀, h₀⟩ h
  refine ⟨hinv.ops, fun j calls hj => ?_⟩
  have hinv' : Inv D doc ((Action.job j calls).perform env w) := (keeps_task hj).cut hinv calls
  rw [hinv'.holds.held, hinv.holds.held]

/-- My Drive (1) with the mapped folder `Sync` (2), which holds the document `Notes` (3). -/
def notesDrive : Drive where
  files :=
    ⟨⟨[⟨1, "My Drive", folderMime, none, [], false, true, true⟩,
       ⟨2, "Sync", folderMime, none, [1], false, true, true⟩,
       ⟨3, "Notes", "application/vnd.google-apps.document", none, [2], false, true, true⟩],
      by decide⟩, 4, by decide⟩
  rootNum := 1
  feed := [(3, false)]

/-- The change that brings the document. -/
def notesChange : RemoteChange :=
  ⟨.id 3, false,
    some ⟨.id 3, "Notes", "application/vnd.google-apps.document", none, none, [.id 2], false⟩,
    some ["Notes"]⟩

/-- The document arrives and its pointer file is written; the user deletes the pointer file, and
the watcher reports it. -/
def notesDeleted : List Action :=
  [.job (.batch ⟨[notesChange], 1⟩) 100, .job (.drain (.id 2)) 100,
   .outside (World.fresh notesDrive), .job (.event (.deleted ["Notes.gdoc"])) 100]

/-- Deleting the pointer file enqueues a `DeleteRemote` for the document, which trashes it. -/
theorem deleted_pointer_trashes_document :
    ∃ w w', Runs Env.plain (fun _ _ => True) (World.fresh notesDrive) w ∧
      (∃ o ∈ w.db.ops, ∃ r ∈ w.db.items, r.id = o.syncItemId ∧ r.remoteId = some (.id 3) ∧
        r.state = .skipped ∧ o.op = .deleteRemote) ∧
      w' = (Action.job (.drain (.id 2)) 100).perform Env.plain w ∧
      (w.remote.drive.files.get 3).map (·.trashed) = some false ∧
      (w'.remote.drive.files.get 3).map (·.trashed) = some true := by
  refine ⟨performAll .plain notesDeleted (World.fresh notesDrive), _,
    Runs.start.performAll ⟨trivial, trivial, trivial, trivial, trivial⟩, ?_, rfl, by decide,
    by decide⟩
  refine ⟨⟨2, 1, .deleteRemote, none, 0, 0⟩, ?_,
    ⟨1, ["Notes.gdoc"], .file, some (.id 3), none, none, .skipped, none⟩, ?_, rfl, rfl, rfl, rfl⟩
  · rw [Data.Serial.mem_def]
    decide
  · rw [ItemTable.mem_def, Data.Serial.mem_def]
    decide

/-- The user edits the pointer file instead, and the watcher reports it: nothing is queued for
the document. -/
theorem edited_pointer_one_way :
    ∃ w, Runs Env.plain (Sparing 3) (World.fresh notesDrive) w ∧
      (∀ o ∈ w.db.ops, ∀ r ∈ w.db.items, r.id = o.syncItemId → r.remoteId = some (.id 3) →
        ¬Reaching o.op) ∧
      ∀ j calls, Sparing 3 w (.job j calls) →
        ((Action.job j calls).perform Env.plain w).remote.drive.files.get 3 =
          w.remote.drive.files.get 3 := by
  have hdoc : ∃ doc, Native doc ∧ Holds 3 doc notesDrive := by
    refine ⟨notesDrive.files.get 3, ?_, rfl, by decide, by decide⟩
    rintro f hf
    obtain rfl := Option.some.inj hf
    exact ⟨by decide, rfl⟩
  have hmeets : MeetsAll .plain (Sparing 3) [.job (.batch ⟨[notesChange], 1⟩) 100,
      .job (.drain (.id 2)) 100, .job (.event (.modified ["Notes.gdoc"])) 100]
      (World.fresh notesDrive) := by
    refine ⟨fun c hc => ?_, trivial, trivial, trivial⟩
    obtain rfl := List.mem_singleton.mp hc
    rintro f hf
    obtain rfl := Option.some.inj hf
    exact ⟨rfl, fun _ => by decide⟩
  exact ⟨_, Runs.start.performAll hmeets,
    native_document_one_way rfl hdoc (Runs.start.performAll hmeets)⟩

end AirDrive.OneWay
