import AirDrive.Daemon.Dispatcher
import AirDrive.System.Run

set_option relaxedAutoImplicit false
set_option autoImplicit false

/-!
# Recorded fingerprints

An operation that transfers a file reads it once more than the engine does, to compute the
fingerprint that goes into the row: an upload before the transfer, a download after it. The user
may write to the file in between. So the fingerprint is the one of Drive's copy exactly when what
the operation reads has the fingerprint of what is transferred.

## Main definitions

* `AirDrive.Fingerprints.Note` — the bytes that an operation reads and transfers.
* `AirDrive.Fingerprints.Amid` — a run of a task while the user changes the local tree.
* `AirDrive.Fingerprints.Recorded` — the row has the fingerprint of Drive's copy.

## Main results

* `AirDrive.Fingerprints.recorded_iff` — when it has it.
-/

namespace AirDrive.Fingerprints

open Effect Dispatcher

/-- What a call is noted to do with the content of a file. -/
inductive Note
  /-- It reads the local file. -/
  | read (b : Bytes)
  /-- It transfers the bytes, in either direction. -/
  | carried (b : Bytes)
deriving DecidableEq, Repr

/-- The note of a call. -/
def note : ∀ β, Call β → World → List Note
  | _, .fs (.readFile p), w =>
    match w.fs.node p with
    | some (.file b) => [.read b]
    | _ => []
  | _, .drive (.uploadMultipart _ _ _ content), _ => [.carried content]
  | _, .drive (.patchMedia _ content), _ => [.carried content]
  | _, .drive (.getMedia rid), w =>
    match (w.remote.drive.file rid).bind DriveFile.content with
    | some content => [.carried content]
    | none => []
  | _, _, _ => []

/-- The user changes the local tree. -/
def LocalChange (s s' : World × List Note) : Prop :=
  ∃ fs, s' = ({ s.1 with fs := fs }, s.2)

/-- A run of a task during which the user changes the local tree before any of its calls: its
outcome, the state it leaves, and its notes. -/
def Amid {α : Type} (env : Env) (p : Task α) (w : World) (x : Except Error α) (w' : World)
    (l : List Note) : Prop :=
  p.RunsAmid (Prog.noting (handle env) note) LocalChange (w, []) x (w', l)

/-- Size and MD5. -/
def print (env : Env) (b : Bytes) : ℕ × String := (b.length, env.md5 b)

/-- The row has the size and the MD5 of the bytes that its Drive object holds. -/
def Recorded (env : Env) (n : ItemId) (w : World) : Prop :=
  ∃ r ∈ w.db.items, r.id = n ∧ ∃ rid f c, r.remoteId = some rid ∧
    w.remote.drive.file rid = some f ∧ f.content = some c ∧
    r.size = some c.length ∧ r.md5 = some (env.md5 c)

/-! ## Safety among local changes -/

/-- The program ends as told while the user changes the local tree. -/
abbrev Bears {α : Type} (env : Env) (Q : Except Error α → World × List Note → Prop) (p : Task α)
    (s : World × List Note) : Prop :=
  p.Safe (Prog.noting (handle env) note) ⟨fun _ => True, LocalChange, fun _ _ => True⟩ Q s

variable {env : Env} {w : World} {l : List Note} {n : ItemId}

lemma bears_call {α β : Type} {Q : Except Error α → World × List Note → Prop} {c : Call β}
    {k : β → Task α} : Bears env Q (.call c k) (w, l) ↔
      ∀ fs, Bears env Q (k (handle env β c { w with fs := fs }).1)
        ((handle env β c { w with fs := fs }).2, l ++ note β c { w with fs := fs }) := by
  rw [Bears, Prog.safe_call]
  constructor
  · exact fun h fs => (h ({ w with fs := fs }, l) ⟨fs, rfl⟩ trivial).2.2
  · rintro h s ⟨fs, rfl⟩ -
    exact ⟨trivial, trivial, h fs⟩

lemma bears_sql {β : Type} {Q : Except Error β → World × List Note → Prop} {c : DbCall β} :
    Bears env Q (sql c) (w, l) ↔
      ∀ fs, Q (.ok (c.run w.db).1) ({ w with fs := fs, db := (c.run w.db).2 }, l) := by
  rw [sql, Prog.lift, bears_call]
  simp [note]

/-- The file is read as it is at that moment. -/
lemma bears_readFile {rel : RelPath} :
    Bears env (fun x s => ∀ b, x = .ok b → ∃ fs, s = ({ w with fs := fs }, l ++ [.read b]))
      (ioTry (.readFile rel)) (w, l) := by
  rw [ioTry, bears_call]
  intro fs
  rw [Bears, Prog.safe_ofExcept]
  intro b hb
  have hnode : fs.node rel = some (.file b) := by
    simp only [handle_fs, FsCall.run, Fs.readFile] at hb
    split at hb <;> simp_all
  exact ⟨fs, by simp [FsCall.run, note, hnode]⟩

/-- What other calls do to the local tree is the user's to change. -/
lemma bears_ioTry {β : Type} {c : FsCall (Except Error β)} (hnote : ∀ w, note _ (.fs c) w = []) :
    Bears env (fun _ s => ∃ fs, s = ({ w with fs := fs }, l)) (ioTry c) (w, l) := by
  rw [ioTry, bears_call]
  intro fs
  rw [Bears, Prog.safe_ofExcept, hnote, List.append_nil]
  exact ⟨_, rfl⟩

lemma bears_isFile {rel : RelPath} :
    Bears env (fun _ s => ∃ fs, s = ({ w with fs := fs }, l)) (io (.isFile rel)) (w, l) := by
  rw [io, Prog.lift, bears_call]
  exact fun fs => ⟨fs, by simp [note, FsCall.run]⟩

lemma bears_computeLocal {rel : RelPath} :
    Bears env (fun x s => ∀ print, x = .ok print → ∃ b fs,
        print = Fingerprints.print env b ∧ s = ({ w with fs := fs }, l ++ [.read b]))
      (computeLocal env rel) (w, l) := by
  refine Prog.Safe.bind bears_readFile (fun b s hs => ?_) fun e s _ print hprint => by cases hprint
  obtain ⟨fs, rfl⟩ := hs b rfl
  intro print hprint
  obtain rfl := Except.ok.inj hprint
  exact ⟨b, fs, rfl, rfl⟩

/-- A guarded program does what its body does, but for the mark. -/
lemma bears_withMark {α : Type} {Q : Except Error α → World × List Note → Prop} {id : FileId}
    {body : Task α}
    (hbody : ∀ fs, Bears env
      (fun x s => ∀ fs marks, Q x ({ s.1 with fs := fs, inFlight := marks }, s.2))
      body ({ w with fs := fs, inFlight := id :: w.inFlight }, l)) :
    Bears env Q (withMark id body) (w, l) := by
  unfold withMark
  simp only [Prog.bind_eq, Prog.lift_bind]
  rw [bears_call]
  intro fs
  simp only [handle_mark, note, List.append_nil]
  rw [Bears, Prog.safe_bind, Prog.safe_attempt]
  refine (hbody fs).mono fun x s hx => ?_
  obtain ⟨w', l'⟩ := s
  refine bears_call.mpr fun fs' => ?_
  simp only [handle_unmark, note, List.append_nil]
  rw [Bears, Prog.safe_ofExcept]
  exact hx fs' _

/-! ## Transfers -/

/-- The object has the bytes as its content. -/
def Holds (rid : FileId) (c : Bytes) (w : World) : Prop :=
  ∃ f, w.remote.drive.file rid = some f ∧ f.content = some c

lemma holds_patchMedia {rid : FileId} {b : Bytes} {f : FileResource}
    (h : (w.remote.send env.md5 (.patchMedia rid b)).1 = .ok f) :
    Holds rid b { w with remote := (w.remote.send env.md5 (.patchMedia rid b)).2 } := by
  have hrun := Remote.send_ok h
  unfold Holds
  simp only [Remote.send_ok_drive h]
  simp only [DriveCall.run, DriveCall.onFile] at hrun ⊢
  cases hfile : w.remote.drive.file rid with
  | none => simp [hfile] at hrun
  | some g =>
    obtain ⟨hg, hnum⟩ := Data.Serial.get_eq_some.mp hfile
    refine ⟨{ g with content := some b }, ?_, rfl⟩
    have hmem := (@Data.Serial.mem_modify _ DriveFile.num w.remote.drive.files g.num
      (fun x => { x with content := some b }) (fun _ => rfl) { g with content := some b }).mpr
      (.inr ⟨g, hg, rfl, rfl⟩)
    exact Data.Serial.get_eq_some.mpr ⟨hmem, hnum⟩

lemma holds_uploadMultipart {parent : FileId} {name mime : String} {b : Bytes} {f : FileResource}
    (h : (w.remote.send env.md5 (.uploadMultipart parent name mime b)).1 = .ok f) :
    Holds f.id b
      { w with remote := (w.remote.send env.md5 (.uploadMultipart parent name mime b)).2 } := by
  have hrun := Remote.send_ok h
  unfold Holds
  simp only [Remote.send_ok_drive h]
  simp only [DriveCall.run, Drive.create] at hrun ⊢
  cases hfile : w.remote.drive.file parent with
  | none => simp [hfile] at hrun
  | some g =>
    simp only [hfile] at hrun ⊢
    obtain rfl := Except.ok.inj hrun
    exact ⟨_, Data.Serial.get_eq_some.mpr ⟨Data.Serial.mem_push.mpr (.inr rfl), rfl⟩, rfl⟩

lemma holds_getMedia {rid : FileId} {b : Bytes}
    (h : (w.remote.send env.md5 (.getMedia rid)).1 = .ok b) : Holds rid b w := by
  have hrun := Remote.send_ok h
  simp only [DriveCall.run, DriveCall.onFile] at hrun
  cases hfile : w.remote.drive.file rid with
  | none => simp [hfile] at hrun
  | some g =>
    cases hcontent : g.content with
    | none => simp [hfile, hcontent] at hrun
    | some c =>
      obtain rfl : c = b := by simpa [hfile, hcontent] using hrun
      exact ⟨g, hfile, hcontent⟩

/-- The engine sends the file as it is when the engine reads it. -/
lemma bears_update {rid : FileId} {rel : RelPath} :
    Bears env (fun x s => ∀ f, x = .ok f → ∃ b, s.1.db = w.db ∧ Holds rid b s.1 ∧
        s.2 = l ++ [.read b, .carried b])
      (Engine.update rid rel) (w, l) := by
  refine Prog.Safe.bind bears_readFile (fun b s hs => ?_) fun e s _ f hf => by cases hf
  obtain ⟨fs, rfl⟩ := hs b rfl
  rw [request, ← Bears, bears_call]
  intro fs'
  rw [Bears, Prog.safe_ofExcept]
  intro f hf
  refine ⟨b, rfl, holds_patchMedia hf, ?_⟩
  simp [note]

lemma bears_upload {rel : RelPath} {parent : FileId} {name : String} :
    Bears env (fun x s => ∀ f, x = .ok f → ∃ b, s.1.db = w.db ∧ Holds f.id b s.1 ∧
        s.2 = l ++ [.read b, .carried b])
      (Engine.upload rel parent name) (w, l) := by
  refine Prog.Safe.bind bears_readFile (fun b s hs => ?_) fun e s _ f hf => by cases hf
  obtain ⟨fs, rfl⟩ := hs b rfl
  rw [request, ← Bears, bears_call]
  intro fs'
  rw [Bears, Prog.safe_ofExcept]
  intro f hf
  refine ⟨b, rfl, holds_uploadMultipart hf, ?_⟩
  simp [note]

/-- The engine fetches the content and promotes it. -/
lemma bears_download {rid : FileId} {rel : RelPath} :
    Bears env (fun x s => x = .ok () → ∃ b, s.1.db = w.db ∧ Holds rid b s.1 ∧
        s.2 = l ++ [.carried b])
      (Engine.download rid rel) (w, l) := by
  simp only [Engine.download, Prog.bind_eq, request, Prog.call_bind]
  rw [bears_call]
  intro fs
  refine Prog.safe_bind.mpr ((Prog.safe_ofExcept _).mpr ?_)
  simp only [handle_drive]
  cases hget : (w.remote.send env.md5 (.getMedia rid)).1 with
  | error e => exact fun h => by cases h
  | ok b =>
    obtain ⟨g, hg, hcontent⟩ := holds_getMedia hget
    have hnote : note _ (.drive (.getMedia rid)) { w with fs := fs } = [.carried b] := by
      simp [note, hg, hcontent]
    rw [hnote]
    have hholds : ∀ fs', Holds rid b { w with
        fs := fs', remote := (w.remote.send env.md5 (.getMedia rid)).2 } := by
      intro fs'
      unfold Holds
      rw [Remote.send_getMedia_drive]
      exact ⟨g, hg, hcontent⟩
    refine Prog.Safe.bind (bears_ioTry fun _ => rfl) (fun _ s hs => ?_) fun e s _ => fun h => by cases h
    obtain ⟨fs₁, rfl⟩ := hs
    refine (bears_ioTry fun _ => rfl).mono fun x s hs _ => ?_
    obtain ⟨fs₂, rfl⟩ := hs
    exact ⟨b, rfl, hholds fs₂, rfl⟩

/-! ## The operations -/

/-- The calls that keep the rows and carry no content. -/
def carriesNone {β : Type} : Call β → Bool
  | .db c => !c.drops
  | .fs (.readFile _) => false
  | .drive (.uploadMultipart _ _ _ _) => false
  | .drive (.patchMedia _ _) => false
  | .drive (.getMedia _) => false
  | _ => true

lemma note_of_carriesNone {β : Type} {c : Call β} (hc : carriesNone c = true) :
    note β c w = [] := by
  cases c with
  | db c => rfl
  | fs c => cases c <;> first | rfl | cases hc
  | drive c => cases c <;> first | rfl | cases hc
  | _ => rfl

lemma row_of_carriesNone {β : Type} {c : Call β} (hc : carriesNone c = true)
    (h : ∃ r ∈ w.db.items, r.id = n) : ∃ r ∈ (handle env β c w).2.db.items, r.id = n := by
  cases c with
  | db c =>
    obtain ⟨r, hr, rfl⟩ := h
    obtain ⟨r', hr', hid, -⟩ := DbCall.rows_persist (c := c) (by simpa [carriesNone] using hc) hr
    exact ⟨r', hr', hid⟩
  | _ => exact h

lemma childFolder_carriesNone (parent : FileId) (name : String) :
    (childFolder parent name).Only fun _ c => carriesNone c = true := by
  refine Prog.Only.bind ⟨rfl, fun x => Prog.only_ofExcept x⟩ fun children => ?_
  split
  · trivial
  · exact Prog.Only.bind ⟨rfl, fun x => Prog.only_ofExcept x⟩ fun _ => trivial

lemma persistDir_carriesNone (rel : RelPath) (id : FileId) :
    (persistDir rel id).Only fun _ c => carriesNone c = true := by
  refine Prog.Only.bind ⟨rfl, fun _ => trivial⟩ fun row => ?_
  split
  · split_ifs
    · exact ⟨rfl, fun _ => trivial⟩
    · trivial
  · exact Prog.Only.bind ⟨rfl, fun x => Prog.only_ofExcept x⟩ fun _ => trivial

lemma ensureSegments_carriesNone (segments : List String) (current : FileId)
    (cumulative : RelPath) : (ensureSegments current cumulative segments).Only fun _ c => carriesNone c = true := by
  induction segments generalizing current cumulative with
  | nil => trivial
  | cons seg rest ih =>
    refine Prog.Only.bind (childFolder_carriesNone _ _) fun next => ?_
    exact Prog.Only.bind (persistDir_carriesNone _ _) fun _ => ih _ _

/-- Making folders on Drive keeps the row and carries nothing. -/
lemma bears_ensureRemoteFolder {root : FileId} {rel : RelPath} (h : ∃ r ∈ w.db.items, r.id = n) :
    Bears env (fun _ s => (∃ r ∈ s.1.db.items, r.id = n) ∧ s.2 = l)
      (ensureRemoteFolder root rel) (w, l) := by
  refine (ensureSegments_carriesNone rel root []).safe_rely (fun β c s hc _ hs => ?_)
    (fun s s' hchange hs => ?_) ⟨h, rfl⟩
  · refine ⟨trivial, trivial, row_of_carriesNone hc hs.1, ?_⟩
    simp only [Prog.noting, note_of_carriesNone hc, List.append_nil]
    exact hs.2
  · obtain ⟨fs, rfl⟩ := hchange
    exact hs

/-- A row with the fingerprint of some bytes, whose object holds others. -/
lemma recorded_row {r : SyncItem} {rid : FileId} {b c : Bytes} (hr : r ∈ w.db.items)
    (hid : r.id = n) (hbound : r.remoteId = some rid) (hsize : r.size = some b.length)
    (hmd5 : r.md5 = some (env.md5 b)) (hholds : Holds rid c w) :
    Recorded env n w ↔ print env b = print env c := by
  constructor
  · rintro ⟨r', hr', hid', rid', f', c', hbound', hfile', hcontent', hsize', hmd5'⟩
    obtain rfl := w.db.items.id_inj hr hr' (hid.trans hid'.symm)
    obtain rfl : rid = rid' := Option.some.inj (hbound.symm.trans hbound')
    obtain ⟨f, hfile, hcontent⟩ := hholds
    obtain rfl : f = f' := Option.some.inj (hfile.symm.trans hfile')
    obtain rfl : c = c' := Option.some.inj (hcontent.symm.trans hcontent')
    exact Prod.ext (Option.some.inj (hsize.symm.trans hsize'))
      (Option.some.inj (hmd5.symm.trans hmd5'))
  · intro hsame
    obtain ⟨f, hfile, hcontent⟩ := hholds
    exact ⟨r, hr, hid, rid, f, c, hbound, hfile, hcontent,
      hsize.trans (congrArg some (congrArg Prod.fst hsame)),
      hmd5.trans (congrArg some (congrArg Prod.snd hsame))⟩

/-- A row with the fingerprint of Drive's copy: the startup scan takes the object for unchanged. -/
lemma Recorded.matches (h : Recorded env n w) {r : SyncItem} (hr : r ∈ w.db.items) (hid : r.id = n)
    (hanswered : w.remote.faults.headD none = none) :
    (runTask env (StartupScan.remoteMatchesSynced r) w).1 = .ok true := by
  obtain ⟨r', hr', hid', rid, f, c, hbound, hfile, hcontent, -, hmd5⟩ := h
  obtain rfl := w.db.items.id_inj hr' hr (hid'.trans hid.symm)
  have hsend : (w.remote.send env.md5 (.getFile rid)).1 = .ok (Drive.resource env.md5 f) := by
    rw [Remote.send_answered hanswered]
    simp [DriveCall.run, DriveCall.onFile, hfile]
  simp [StartupScan.remoteMatchesSynced, hbound, request, hsend, Drive.resource, hcontent, hmd5]

/-- What is to be shown of an operation that succeeds. -/
def Told (env : Env) (n : ItemId) (x : Except Error Unit) (s : World × List Note) : Prop :=
  x = .ok () → ∀ c, .carried c ∈ s.2 →
    (Recorded env n s.1 ↔ ∀ b, .read b ∈ s.2 → print env b = print env c)

/-- The notes of an operation that reads `b` for the fingerprint and carries `c`. -/
structure Reads (b c : Bytes) (l : List Note) : Prop where
  carried : ∀ c', .carried c' ∈ l → c' = c
  hashed : .read b ∈ l
  read : ∀ b', .read b' ∈ l → b' = b ∨ b' = c

/-- The fingerprint of what was read is in the row at the end. -/
lemma told_row {r : SyncItem} {rid : FileId} {b c : Bytes} (hr : r ∈ w.db.items)
    (hid : r.id = n) (hbound : r.remoteId = some rid) (hsize : r.size = some b.length)
    (hmd5 : r.md5 = some (env.md5 b)) (hholds : Holds rid c w) (hreads : Reads b c l) :
    Told env n (.ok ()) (w, l) := by
  intro _ c' hc'
  obtain rfl := hreads.carried c' hc'
  rw [recorded_row hr hid hbound hsize hmd5 hholds]
  constructor
  · intro hsame b' hb'
    rcases hreads.read b' hb' with rfl | rfl
    · exact hsame
    · rfl
  · exact fun hall => hall b hreads.hashed

/-- The row after its fingerprint was stored. -/
lemma mem_updateFingerprint {r : SyncItem} {size : Option ℕ} {md5 : Option String} {db : Db}
    (hr : r ∈ db.items) (hid : r.id = n) :
    { r with size := size, md5 := md5 } ∈ ((DbCall.updateFingerprint n size md5).run db).2.items :=
  (@ItemTable.mem_modify db.items n (fun r => { r with size := size, md5 := md5 }) (fun _ => rfl)
    (fun _ => rfl) _).mpr (.inr ⟨r, hr, hid, rfl⟩)

/-- The row after its object was stored. -/
lemma mem_setRemoteId {r : SyncItem} {rid : FileId} {db : Db} (hr : r ∈ db.items)
    (hid : r.id = n) :
    { r with remoteId := some rid } ∈ ((DbCall.setRemoteId n rid).run db).2.items :=
  (@ItemTable.mem_modify db.items n (fun r => { r with remoteId := some rid }) (fun _ => rfl)
    (fun _ => rfl) _).mpr (.inr ⟨r, hr, hid, rfl⟩)

/-- The transfer of an upload to an object that exists. -/
lemma bears_change {item : SyncItem} {rid : FileId} {b : Bytes} (hitem : item ∈ w.db.items)
    (hrid : item.remoteId = some rid) :
    Bears env (Told env item.id) (withMark rid do
      let _ ← Engine.update rid item.relativePath
      sql (.updateFingerprint item.id (some b.length) (some (env.md5 b)))) (w, [.read b]) := by
  refine bears_withMark fun fs => ?_
  refine Prog.Safe.bind bears_update (fun f s hs => ?_) fun e s _ _ _ => nofun
  obtain ⟨w', l'⟩ := s
  obtain ⟨c, hdb, hholds, hnotes⟩ := hs f rfl
  simp only at hdb hholds hnotes
  subst hnotes
  refine bears_sql.mpr fun fs₁ fs₂ marks => ?_
  refine told_row (mem_updateFingerprint (hdb ▸ hitem) rfl) rfl hrid rfl rfl hholds ?_
  exact ⟨by simp, by simp, by simp⟩

/-- The transfer of a first upload. -/
lemma bears_create {root : FileId} {item : SyncItem} {b : Bytes} (hitem : item ∈ w.db.items) :
    Bears env (Told env item.id) (do
      let parentId ← ensureRemoteFolder root item.relativePath.splitParent.1
      let rf ← Engine.upload item.relativePath parentId item.relativePath.splitParent.2
      withMark rf.id do
        sql (.setRemoteId item.id rf.id)
        sql (.updateFingerprint item.id (some b.length) (some (env.md5 b)))) (w, [.read b]) := by
  refine Prog.Safe.bind (bears_ensureRemoteFolder ⟨item, hitem, rfl⟩) (fun parent s hs => ?_)
    fun e s _ => nofun
  obtain ⟨w', l'⟩ := s
  obtain ⟨⟨r, hr, hid⟩, rfl⟩ := hs
  refine Prog.Safe.bind bears_upload (fun f s hs => ?_) fun e s _ => nofun
  obtain ⟨w₁, l'⟩ := s
  obtain ⟨c, hdb, hholds, hnotes⟩ := hs f rfl
  simp only at hdb hholds hnotes hr
  subst hnotes
  refine bears_withMark fun fs => ?_
  refine Prog.safe_bind.mpr (bears_sql.mpr fun fs₁ => ?_)
  refine bears_sql.mpr fun fs₂ fs₃ marks => ?_
  have hstored := @mem_setRemoteId item.id r f.id w₁.db (hdb ▸ hr) hid
  refine told_row (mem_updateFingerprint hstored hid) hid rfl rfl rfl hholds ?_
  exact ⟨by simp, by simp, by simp⟩

/-- An upload. -/
lemma bears_executeUpload {root : FileId} {item : SyncItem} (hitem : item ∈ w.db.items) :
    Bears env (Told env item.id) (executeUpload env root item) (w, []) := by
  refine Prog.Safe.bind bears_isFile (fun isfile s hs => ?_) fun e s _ => nofun
  obtain ⟨fs, rfl⟩ := hs
  cases isfile with
  | false => exact fun _ c hc => by cases hc
  | true =>
    refine Prog.Safe.bind bears_computeLocal (fun x s hs => ?_) fun e s _ => nofun
    obtain ⟨b, fs₁, hprint, rfl⟩ := hs x rfl
    obtain ⟨size, md5⟩ := x
    obtain ⟨rfl, rfl⟩ := Prod.mk.inj hprint
    simp only [List.nil_append]
    by_cases hsame : item.md5 = some (env.md5 b) ∧ item.size = some b.length
    · -- what is on Drive is what is here: nothing is transferred
      rw [if_pos hsame]
      exact fun _ c hc => by simp at hc
    · rw [if_neg hsame]
      cases hrid : item.remoteId with
      | some rid => exact bears_change hitem hrid
      | none => exact bears_create hitem

/-- A download. -/
lemma bears_executeDownload {item : SyncItem} {payload : Option Payload}
    (hitem : item ∈ w.db.items) :
    Bears env (Told env item.id) (executeDownload env item payload) (w, []) := by
  unfold executeDownload
  simp only [Prog.bind_eq]
  cases decodePayload Payload.asDownload payload with
  | error e => exact nofun
  | ok dl =>
    simp only [Prog.ofExcept_ok, Prog.pure_bind]
    refine Prog.Safe.bind (bears_ioTry fun _ => rfl) (fun _ s hs => ?_) fun e s _ => nofun
    obtain ⟨fs, rfl⟩ := hs
    refine Prog.Safe.bind bears_download (fun _ s hs => ?_) fun e s _ => nofun
    obtain ⟨w', l'⟩ := s
    obtain ⟨c, hdb, hholds, hnotes⟩ := hs rfl
    simp only at hdb hholds hnotes
    subst hnotes
    refine Prog.Safe.bind bears_computeLocal (fun x s hs => ?_) fun e s _ => nofun
    obtain ⟨b, fs₁, rfl, rfl⟩ := hs x rfl
    simp only [print]
    refine Prog.safe_bind.mpr (bears_sql.mpr fun fs₂ => ?_)
    have hrow := @mem_updateFingerprint item.id item (some b.length) (some (env.md5 b)) w'.db
      (hdb ▸ hitem) rfl
    have hreads : Reads b c ([.carried c] ++ [.read b]) := ⟨by simp, by simp, by simp⟩
    by_cases hbound : item.remoteId ≠ some dl.remoteId
    · rw [if_pos hbound]
      refine bears_sql.mpr fun fs₃ => ?_
      exact told_row (mem_setRemoteId hrow rfl) rfl rfl rfl rfl hholds hreads
    · rw [if_neg hbound]
      exact told_row hrow rfl (not_not.mp hbound) rfl rfl hholds hreads

/-- **The fingerprint of Drive's copy.** After an upload or a download that has transferred the
bytes `c`, whatever the user did to the local tree before each of its calls, the row has the size
and the MD5 of the bytes that the Drive object holds if and only if whatever the operation read of
the local file had those of `c`. -/
theorem recorded_iff {root : FileId} {op : PendingOperation} {w' : World} {c : Bytes}
    (hop : op.op = .upload ∨ op.op = .download)
    (hrun : Amid env (execute env root op) w (.ok ()) w' l) (hcarried : .carried c ∈ l) :
    Recorded env op.syncItemId w' ↔ ∀ b, .read b ∈ l → print env b = print env c := by
  have hbears : Bears env (Told env op.syncItemId) (execute env root op) (w, []) := by
    unfold execute
    refine Prog.safe_bind.mpr (bears_sql.mpr fun fs => ?_)
    simp only [DbCall.run]
    cases hget : w.db.items.getById op.syncItemId with
    | none => exact fun h => by cases h
    | some item =>
      obtain ⟨hitem, hid⟩ := ItemTable.getById_eq_some.mp hget
      rw [← hid]
      rcases hop with hop | hop
      · simp only [executeItem, hop]
        exact bears_executeUpload hitem
      · simp only [executeItem, hop]
        exact bears_executeDownload hitem
  exact hbears.amid hrun rfl c hcarried

/-! ## A file that is written while it is uploaded -/

/-- The user has edited `a.txt`, and the upload is queued. -/
def edited : World :=
  performAll .plain [.job (.event (.modified ["a.txt"])) 100]
    (byUser (.writeFile ["a.txt"] [66]) sampleSynced)

/-- The upload. -/
def sampleUpload : PendingOperation := ⟨2, 1, .upload, none, 0, 0⟩

example : sampleUpload ∈ edited.db.ops.rows := by decide +kernel

/-- The user writes the file again before the call of that number. -/
def writesBefore (n i : ℕ) (s : World × List Note) : World × List Note :=
  if i = n then (byUser (.writeFile ["a.txt"] [67, 67]) s.1, s.2) else s

/-- The upload, with such a write. -/
def uploadWith (n : ℕ) : Except Error Unit × World × List Note :=
  (execute .plain (.id 2) sampleUpload).runWith (Prog.noting (handle .plain) note)
    (writesBefore n) 0 (edited, [])

lemma amid_uploadWith {n : ℕ} (hok : (uploadWith n).1 = .ok ()) :
    Amid .plain (execute .plain (.id 2) sampleUpload) edited (.ok ()) (uploadWith n).2.1
      (uploadWith n).2.2 := by
  rw [← hok]
  refine Prog.runsAmid_runWith (fun i s => ?_) _ 0 _
  unfold writesBefore
  split_ifs
  · exact ⟨_, rfl⟩
  · exact ⟨s.1.fs, rfl⟩

/-- A write after the transfer does no harm. -/
theorem later_write_recorded : Recorded .plain 1 (uploadWith 5).2.1 := by
  have hnotes : (uploadWith 5).2.2 = [.read [66], .read [66], .carried [66]] := by decide +kernel
  have hiff := @recorded_iff .plain edited _ (.id 2) sampleUpload _ [66] (.inl rfl)
    (@amid_uploadWith 5 rfl) (by simp [hnotes])
  refine hiff.mpr fun b hb => ?_
  rw [hnotes] at hb
  simp only [List.mem_cons, Note.read.injEq, reduceCtorEq, List.not_mem_nil, or_false] at hb
  rcases hb with rfl | rfl <;> rfl

/-- After a write between the two readings, the row has the fingerprint of bytes that Drive never
got. -/
theorem write_between_not_recorded : ¬∀ (env : Env) (root : FileId) (op : PendingOperation)
    (w w' : World) (l : List Note) (c : Bytes), op.op = .upload ∨ op.op = .download →
    Amid env (execute env root op) w (.ok ()) w' l → .carried c ∈ l →
      Recorded env op.syncItemId w' := by
  intro h
  obtain ⟨r, hr, hid, rid, f, c, hbound, hfile, hcontent, hsize, -⟩ :=
    h .plain (.id 2) sampleUpload edited _ _ [67, 67] (.inl rfl) (@amid_uploadWith 4 rfl)
      (by decide +kernel)
  have hrow : ∀ r ∈ (uploadWith 4).2.1.db.items.rows,
      r.remoteId = some (.id 3) ∧ r.size = some 1 := by
    decide +kernel
  obtain ⟨hthree, hone⟩ := hrow r (ItemTable.mem_rows.mpr hr)
  obtain rfl : FileId.id 3 = rid := Option.some.inj (hthree.symm.trans hbound)
  have hlength : ((uploadWith 4).2.1.remote.drive.file (.id 3)).map
      (fun f => f.content.map List.length) = some (some 2) := by decide +kernel
  rw [hfile, Option.map_some, hcontent, Option.map_some] at hlength
  have htwo : c.length = 2 := Option.some.inj (Option.some.inj hlength)
  have hsame : 1 = c.length := Option.some.inj (hone.symm.trans hsize)
  omega

end AirDrive.Fingerprints
