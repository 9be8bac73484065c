import AirDrive.System.Footprint

set_option relaxedAutoImplicit false
set_option autoImplicit false

/-!
# Poison changes

The consumer moves the cursor past a batch only when every change of it was applied, so a change
that fails whenever it is delivered stops the feed. Two kinds of changes do. A native document
that no row is bound to is inserted at the path of its pointer without a look at that path, which
another document of the same name may have; the branches for folders and for regular files look
first. And the local version of a file that changed on both sides may have no place to go: its
conflict name is longer than a name can be, or a directory is there.

## Main definitions

* `AirDrive.Poison.handleNamed` — the meaning of the calls on a filesystem that bounds the names.
* `AirDrive.Poison.Poisonous` — the changes that cannot be applied.
* `AirDrive.Poison.Poisoned` — the batches that meet such a change.

## Main results

* `AirDrive.Poison.applyRemote_ok_iff` — a change is applied unless it is poisonous.
* `AirDrive.Poison.cursor_applyBatch` — a batch moves the cursor unless it is poisoned.
-/

namespace AirDrive.Poison

open Effect Continuous

/-! ## Names of bounded length -/

/-- `NAME_MAX`: the length of the longest name, in bytes. -/
def nameMax : ℕ := 255

/-- Every component of a path is a possible name. -/
def fits (p : RelPath) : Bool := p.all fun name => decide (name.utf8ByteSize ≤ nameMax)

/-- The answer of a call that would make an entry with too long a name. -/
def refused : {β : Type} → FsCall β → Option β
  | _, .writeFile p _ => if fits p then none else some (.error (.io .invalidInput))
  | _, .createDirAll p => if fits p then none else some (.error (.io .invalidInput))
  | _, .rename _ new => if fits new then none else some (.error (.io .invalidInput))
  | _, .mergeMoveDir _ dst => if fits dst then none else some (.error (.io .invalidInput))
  | _, _ => none

/-- The meaning of the calls on a filesystem that bounds the names. -/
def handleNamed (env : Env) : Handler Call World
  | β, .fs c, w =>
    match refused c with
    | some x => (x, w)
    | none => handle env β (.fs c) w
  | β, c, w => handle env β c w

section Named

variable {env : Env} {β : Type}

@[simp] lemma named_db (c : DbCall β) (w : World) :
    handleNamed env β (.db c) w = ((c.run w.db).1, { w with db := (c.run w.db).2 }) := rfl

@[simp] lemma named_clock (w : World) : handleNamed env ℕ .clock w = (w.now, w) := rfl

@[simp] lemma named_inFlight (id : FileId) (w : World) :
    handleNamed env Bool (.inFlight id) w = (w.inFlight.contains id, w) := rfl

/-- A call that the filesystem does not refuse. -/
lemma named_fs (env : Env) {c : FsCall β} (h : refused c = none) (w : World) :
    handleNamed env β (.fs c) w = ((c.run w.fs).1, { w with fs := (c.run w.fs).2 }) := by
  simp only [handleNamed, h, handle_fs]

/-- Every call does what it does without a bound on the names, or it fails and does nothing. -/
lemma named_cases (env : Env) (c : Call β) (w : World) :
    (handleNamed env β c w).2 = (handle env β c w).2 ∨ (handleNamed env β c w).2 = w := by
  cases c with
  | fs c =>
    simp only [handleNamed]
    cases refused c with
    | some x => exact .inr rfl
    | none => exact .inl rfl
  | _ => exact .inl rfl

end Named

/-! ## The changes that cannot be applied -/

variable (env : Env)

/-- The local copy of a row was edited since the last sync, and it is not the new version. -/
def BothChanged (item : SyncItem) (md5 : String) (w : World) : Prop :=
  ∃ bytes lastSynced, w.fs.node item.relativePath = some (.file bytes) ∧
    item.md5 = some lastSynced ∧ env.md5 bytes ≠ md5 ∧ env.md5 bytes ≠ lastSynced

/-- The conflict name of a path cannot be given to the local version. -/
def Unnameable (p : RelPath) (w : World) : Prop :=
  fits (Conflict.conflictPathFor p w.now) = false ∨
    w.fs.node (Conflict.conflictPathFor p w.now) = some .dir

/-- A change of a live object that cannot be applied. -/
inductive Unappliable (change : RemoteChange) (file : FileResource) (w : World) : Prop
  /-- A native document that is new, with a row at the path of its pointer. -/
  | taken (native : Shortcut.isNative file.mimeType = true)
      (fresh : w.db.items.getByRemoteId change.fileId = none)
      (row : ∃ r ∈ w.db.items,
        r.relativePath = Shortcut.relativePath (change.path file) file.mimeType)
  /-- A tracked file that changed on both sides, whose local version cannot be moved aside. -/
  | unnameable (regular : Shortcut.isNative file.mimeType = false) {md5 : String}
      (hmd5 : file.md5 = some md5) {item : SyncItem}
      (row : w.db.items.getByRemoteId change.fileId = some item) (live : item.trashedAt = none)
      (unmoved : ∀ rel, change.relativePath = some rel → rel = item.relativePath)
      (differs : sameFingerprint item file md5 = false) (both : BothChanged env item md5 w)
      (blocked : Unnameable item.relativePath w)

/-- The change is one of a live object that is not in flight, and it cannot be applied. -/
def Poisonous (change : RemoteChange) (w : World) : Prop :=
  w.inFlight.contains change.fileId = false ∧ change.removed = false ∧
    ∃ file, change.file = some file ∧ file.trashed = false ∧ file.isFolder = false ∧
      Unappliable env change file w

/-- The outcome of a program on a filesystem that bounds the names. -/
abbrev outcome {α : Type} (p : Task α) (w : World) : Except Error α × World :=
  p.run (handleNamed env) w

/-! ## One branch at a time -/

section Branches

variable {env} {w : World} {change : RemoteChange} {file : FileResource} {md5 : String}
  {rel : RelPath} {item : SyncItem}

/-- An operation can be queued for a row that is there, and the rows stay. -/
lemma outcome_enqueueOp (env : Env) {id : ItemId} (op : Operation) (payload : Option Payload)
    (h : ∃ r ∈ w.db.items, r.id = id) :
    ∃ w', outcome env (enqueueOp id op payload) w = (.ok (), w') ∧
      w'.db.items = w.db.items := by
  simp only [outcome, enqueueOp, Prog.bind_eq, unixNow, Prog.lift_bind, Prog.run_call, named_clock,
    sqlTry, Prog.call_bind, named_db, DbCall.run, (Db.enqueue_of_row op payload w.now h).1,
    Prog.ofExcept_ok, Prog.pure_bind, Prog.pure_eq, Prog.run_pure]
  exact ⟨_, rfl, Db.items_enqueue ..⟩

lemma ok_enqueueOp {id : ItemId} (op : Operation) (payload : Option Payload)
    (h : ∃ r ∈ w.db.items, r.id = id) : (outcome env (enqueueOp id op payload) w).1 = .ok () := by
  obtain ⟨w', hrun, -⟩ := outcome_enqueueOp env op payload h
  rw [hrun]

/-- A row that was found is there. -/
lemma row_of_remoteId {id : FileId} (h : w.db.items.getByRemoteId id = some item) :
    ∃ r ∈ w.db.items, r.id = item.id :=
  ⟨item, (ItemTable.getByRemoteId_mem h).1, rfl⟩

lemma ok_applyRemoved (id : FileId) : (outcome env (applyRemoved id) w).1 = .ok () := by
  simp only [outcome, applyRemoved, Prog.bind_eq, sql, Prog.lift_bind, Prog.run_call, named_db,
    DbCall.run]
  cases hrow : w.db.items.getByRemoteId id with
  | none => rfl
  | some item => exact ok_enqueueOp _ _ (row_of_remoteId hrow)

lemma ok_applyTrashed (id : FileId) : (outcome env (applyTrashed id) w).1 = .ok () := by
  simp only [outcome, applyTrashed, Prog.bind_eq, sql, Prog.lift_bind, Prog.run_call, named_db,
    DbCall.run]
  cases hrow : w.db.items.getByRemoteId id with
  | none => rfl
  | some item =>
    by_cases hlive : item.trashedAt = none
    · simp only [hlive, if_true]
      exact ok_enqueueOp _ _ (row_of_remoteId hrow)
    · simp only [hlive, if_false]
      rfl

/-- A row that was inserted can be given an operation. -/
lemma ok_insert {new : NewSyncItem} {k : ItemId → Task Unit}
    (hfree : w.db.items.getByRelativePath new.relativePath = none)
    (hk : ∀ w', (∃ r ∈ w'.db.items, r.id = w.db.items.nextId) →
      (outcome env (k w.db.items.nextId) w').1 = .ok ()) :
    (outcome env ((sqlTry (.insertItem new)).bind k) w).1 = .ok () := by
  obtain ⟨hid, hrows⟩ := Db.insertItem_of_free hfree
  simp only [outcome, sqlTry, Prog.call_bind, Prog.run_call, named_db, DbCall.run, hid,
    Prog.ofExcept_ok, Prog.pure_bind]
  exact hk _ ⟨_, (hrows _).mpr (.inr rfl), rfl⟩

lemma ok_applyFolder (id : FileId) : (outcome env (applyFolder id file rel) w).1 = .ok () := by
  simp only [outcome, applyFolder, Prog.bind_eq, sql, Prog.lift_bind, Prog.run_call, named_db,
    DbCall.run]
  cases hrow : w.db.items.getByRemoteId id with
  | none =>
    simp only [Prog.run_call, named_db, DbCall.run]
    cases hpath : w.db.items.getByRelativePath rel with
    | some r => rfl
    | none => exact ok_insert hpath fun w' hnew => ok_enqueueOp _ _ hnew
  | some existing =>
    by_cases hmoved : existing.relativePath ≠ rel
    · simp only [if_pos hmoved]
      exact ok_enqueueOp _ _ (row_of_remoteId hrow)
    · simp only [if_neg hmoved]
      rfl

/-- A restored row is still there when its tombstone is cleared. -/
lemma row_clearTrashed {id : FileId} (h : w.db.items.getByRemoteId id = some item) :
    ∃ r ∈ (DbCall.run (.clearTrashed item.id) w.db).2.items, r.id = item.id := by
  obtain ⟨r, hr, hid, -⟩ :=
    DbCall.rows_persist (c := .clearTrashed item.id) rfl (ItemTable.getByRemoteId_mem h).1
  exact ⟨r, hr, hid⟩

/-- **A native document** is poison when it is new and its pointer's path is taken. -/
lemma applyNative_ok_iff (id : FileId) :
    (outcome env (applyNative id file rel) w).1 = .ok () ↔
      ¬(w.db.items.getByRemoteId id = none ∧ ∃ r ∈ w.db.items, r.relativePath = rel) := by
  simp only [outcome, applyNative, Prog.bind_eq, sql, Prog.lift_bind, Prog.run_call, named_db,
    DbCall.run]
  cases hrow : w.db.items.getByRemoteId id with
  | none =>
    by_cases htaken : ∃ r ∈ w.db.items, r.relativePath = rel
    · have hpath : w.db.items.getByRelativePath rel ≠ none := by
        obtain ⟨r, hr, hrel⟩ := htaken
        exact fun hnone => ItemTable.getByRelativePath_eq_none.mp hnone r hr hrel
      have hfail : (w.db.insertItem (pointer rel file.id)).1 = .error (.sqlite .unique) := by
        rw [Db.insertItem, dif_neg (by exact hpath)]
      simp [sqlTry, hfail, htaken, DbCall.run]
    · have hfree : w.db.items.getByRelativePath rel = none := by
        rw [ItemTable.getByRelativePath_eq_none]
        exact fun r hr hrel => htaken ⟨r, hr, hrel⟩
      simp only [htaken, and_false, not_false_iff, iff_true]
      exact ok_insert hfree fun w' hnew => ok_enqueueOp _ _ hnew
  | some existing =>
    simp only [reduceCtorEq, false_and, not_false_iff, iff_true]
    by_cases hmoved : existing.relativePath ≠ rel
    · simp only [if_pos hmoved]
      exact ok_enqueueOp _ _ (row_of_remoteId hrow)
    · simp only [if_neg hmoved]
      by_cases hdead : existing.trashedAt ≠ none
      · simp only [if_pos hdead]
        exact ok_enqueueOp _ _ (row_clearTrashed hrow)
      · simp only [if_neg hdead]
        rfl

lemma ok_applyRestored {id : FileId} (hrow : w.db.items.getByRemoteId id = some item) :
    (outcome env (applyRestored item file md5) w).1 = .ok () := by
  simp only [outcome, applyRestored, Prog.bind_eq, sql, Prog.lift_bind, Prog.run_call, named_db]
  exact ok_enqueueOp _ _ (row_clearTrashed hrow)

/-- Looking for a renamed directory fails never, and what it finds is a row. -/
lemma outcome_renamedDir (env : Env) (item : SyncItem) (file : FileResource) (rel : RelPath)
    (w : World) :
    outcome env (renamedDir item file rel) w = (.ok none, w) ∨
      ∃ dir ∈ w.db.items, outcome env (renamedDir item file rel) w = (.ok (some dir), w) := by
  simp only [outcome, renamedDir]
  cases file.parents.head? with
  | none => exact .inl rfl
  | some parentId =>
    by_cases hold : item.relativePath.parentDir ≠ rel.parentDir ∧ item.relativePath.parentDir ≠ []
    · simp only [if_pos hold, Prog.bind_eq, sql, Prog.lift_bind, Prog.run_call, named_db,
        DbCall.run]
      cases hdir : w.db.items.getByRelativePath item.relativePath.parentDir with
      | none => exact .inl rfl
      | some dir =>
        by_cases hid : dir.remoteId = some parentId
        · simp only [if_pos hid]
          exact .inr ⟨dir, (ItemTable.getByRelativePath_eq_some.mp hdir).1, rfl⟩
        · simp only [if_neg hid]
          exact .inl rfl
    · simp only [if_neg hold]
      exact .inl rfl

lemma ok_applyMoved {id : FileId} (hrow : w.db.items.getByRemoteId id = some item) :
    (outcome env (applyMoved item file md5 rel) w).1 = .ok () := by
  simp only [outcome, applyMoved, Prog.bind_eq]
  rcases outcome_renamedDir env item file rel w with
    hnone | ⟨dir, hdir, hsome⟩
  · rw [Prog.run_bind_ok _ hnone]
    obtain ⟨w', hrun, hitems⟩ := outcome_enqueueOp env .renameLocal
      (some (.rename ⟨rel⟩)) (row_of_remoteId hrow)
    simp only [enqueueRenameLocal]
    rw [Prog.run_bind_ok _ hrun]
    by_cases hsame : sameFingerprint item file md5 = true
    · rw [if_pos hsame]
      rfl
    · rw [if_neg hsame]
      refine ok_enqueueOp _ _ ?_
      rw [hitems]
      exact row_of_remoteId hrow
  · rw [Prog.run_bind_ok _ hsome]
    exact ok_enqueueOp _ _ ⟨dir, hdir, rfl⟩

/-- Comparing the local copy fails never, and it finds an edit when both sides changed. -/
lemma outcome_localVersion (env : Env) (item : SyncItem) (md5 : String) (w : World) :
    ∃ v, outcome env (localVersion env item md5) w = (.ok v, w) ∧
      (v = .edited ↔ BothChanged env item md5 w) := by
  have hfileCall := named_fs env (c := .isFile item.relativePath) rfl w
  have hreadCall := named_fs env (c := .readFile item.relativePath) rfl w
  simp only [FsCall.run] at hfileCall hreadCall
  cases hfile : w.fs.isFile item.relativePath with
  | false =>
    refine ⟨.behind, ?_, ?_⟩
    · simp only [outcome, localVersion, Prog.bind_eq, io, Prog.lift_bind, Prog.run_call, hfileCall,
        hfile, Bool.false_eq_true, if_false]
      rfl
    · refine ⟨(by intros; contradiction), ?_⟩
      rintro ⟨bytes, _, hnode, _⟩
      rw [Fs.isFile_iff.mpr ⟨bytes, hnode⟩] at hfile
      cases hfile
  | true =>
    obtain ⟨bytes, hnode⟩ := Fs.isFile_iff.mp hfile
    have hread : w.fs.readFile item.relativePath = .ok bytes := by
      simp only [Fs.readFile, hnode]
    have hboth : BothChanged env item md5 w ↔
        ∃ lastSynced, item.md5 = some lastSynced ∧ env.md5 bytes ≠ md5 ∧
          env.md5 bytes ≠ lastSynced := by
      simp [BothChanged, hnode]
    rw [hboth]
    cases hmd5 : item.md5 with
    | none =>
      refine ⟨.behind, ?_, by simp⟩
      simp only [outcome, localVersion, Prog.bind_eq, io, Prog.lift_bind, Prog.run_call, hfileCall,
        hfile, if_true, hmd5]
      rfl
    | some lastSynced =>
      refine ⟨if env.md5 bytes = md5 then .agrees
        else if env.md5 bytes ≠ lastSynced then .edited else .behind, ?_, ?_⟩
      · simp only [outcome, localVersion, Prog.bind_eq, io, Prog.lift_bind, Prog.run_call,
          hfileCall, hfile, if_true, hmd5, hreadCall, hread]
        split_ifs <;> rfl
      · split_ifs with hagrees hedited <;> simp [hagrees]
        · exact hedited
        · simpa using hedited

/-- The file at a path can be moved aside exactly when its conflict name is a place for it. -/
lemma outcome_moveAside (env : Env) {bytes : Bytes} (hnode : w.fs.node rel = some (.file bytes)) :
    (¬Unnameable rel w ∧ ∃ w', w'.db = w.db ∧
        outcome env (Conflict.moveAside rel (Conflict.conflictPathFor rel w.now)) w =
          (.ok (), w')) ∨
      Unnameable rel w ∧ ∃ e w',
        outcome env (Conflict.moveAside rel (Conflict.conflictPathFor rel w.now)) w =
          (.error e, w') := by
  have hne : rel ≠ [] := by
    rintro rfl
    simp at hnode
  obtain ⟨hbeside, hout⟩ := Conflict.conflictPathFor_beside hne w.now
  have hparent : w.fs.node (Conflict.conflictPathFor rel w.now).dropLast = some .dir := by
    rw [hbeside]
    exact Fs.parent_of_node hne (by simp [hnode])
  have hthere : w.fs.exists' rel = true := by simp [Fs.exists', hnode]
  have hlook := named_fs env (c := .pathExists rel) rfl w
  simp only [FsCall.run, hthere] at hlook
  simp only [outcome, Conflict.moveAside, Prog.bind_eq, io, Prog.lift_bind, Prog.run_call, hlook,
    if_true]
  cases hfits : fits (Conflict.conflictPathFor rel w.now) with
  | false =>
    have hrefused : handleNamed env _ (.fs (.rename rel (Conflict.conflictPathFor rel w.now))) w =
        (.error (.io .invalidInput), w) := by
      simp only [handleNamed, refused, hfits, Bool.false_eq_true, if_false]
    rw [hrefused]
    exact .inr ⟨.inl hfits, _, _, rfl⟩
  | true =>
    have hcall := named_fs env (c := .rename rel (Conflict.conflictPathFor rel w.now))
      (by simp [refused, hfits]) w
    rw [hcall]
    simp only [FsCall.run]
    by_cases hdir : w.fs.node (Conflict.conflictPathFor rel w.now) = some .dir
    · obtain ⟨e, hfail⟩ := Fs.rename_file_dir hnode hout hdir
      rw [hfail]
      exact .inr ⟨.inr hdir, _, _, rfl⟩
    · obtain ⟨fs', hok⟩ := Fs.rename_file_ok hnode hparent hout hdir
      rw [hok]
      refine .inl ⟨?_, { w with fs := fs' }, rfl, rfl⟩
      rintro (hlong | hblocked)
      · rw [hfits] at hlong
        cases hlong
      · exact hdir hblocked

/-- **A tracked file at its path** is poison when it changed on both sides and its local version
cannot be moved aside. -/
lemma applyEdited_ok_iff {id : FileId} (hrow : w.db.items.getByRemoteId id = some item) :
    (outcome env (applyEdited env item file md5) w).1 = .ok () ↔
      ¬(sameFingerprint item file md5 = false ∧ BothChanged env item md5 w ∧
        Unnameable item.relativePath w) := by
  cases hsame : sameFingerprint item file md5 with
  | true => simp [applyEdited, hsame]
  | false =>
    obtain ⟨v, hrun, hboth⟩ := outcome_localVersion env item md5 w
    have hfetch : ∀ w', w'.db.items = w.db.items →
        (outcome env (enqueueDownload item.id file md5 item.relativePath) w').1 = .ok () := by
      intro w' hitems
      refine ok_enqueueOp _ _ ?_
      rw [hitems]
      exact row_of_remoteId hrow
    simp only [outcome, applyEdited, hsame, Bool.false_eq_true, if_false, Prog.bind_eq, true_and]
    rw [Prog.run_bind_ok _ hrun, ← hboth]
    cases v with
    | agrees => simp
    | behind => simpa using hfetch w rfl
    | edited =>
      obtain ⟨bytes, _, hnode, -⟩ := hboth.mp rfl
      simp only [unixNow, Prog.lift_bind, Prog.run_call, named_clock, Conflict.openConflict,
        Prog.bind_eq, Prog.bind_assoc, true_and]
      rcases outcome_moveAside env hnode with ⟨hfree, w', hdb, hmoved⟩ | ⟨hstuck, e, w', hfail⟩
      · simp only [hfree, not_false_iff, iff_true]
        rw [Prog.run_bind_ok _ hmoved]
        have hthere : ∃ r ∈ w'.db.items, r.id = item.id := by
          rw [hdb]
          exact row_of_remoteId hrow
        obtain ⟨hok, hitems, -⟩ := Db.insertConflict_of_row item.relativePath
          (Conflict.conflictPathFor item.relativePath w.now) w.now hthere
        simp only [sqlTry, Prog.call_bind, Prog.run_call, named_db, DbCall.run, hok,
          Prog.ofExcept_ok, Prog.pure_bind, Prog.pure_eq]
        exact hfetch _ (by rw [hitems, hdb])
      · rw [Prog.run_bind_error _ hfail]
        simp [hstuck]

lemma ok_applyNewFile : (outcome env (applyNewFile file md5 rel) w).1 = .ok () := by
  simp only [outcome, applyNewFile, Prog.bind_eq, sql, Prog.lift_bind, Prog.run_call, named_db,
    DbCall.run]
  cases hpath : w.db.items.getByRelativePath rel with
  | some r => rfl
  | none => exact ok_insert hpath fun w' hnew => ok_enqueueOp _ _ hnew

lemma applyFile_ok_iff :
    (outcome env (applyFile env change file md5) w).1 = .ok () ↔
      ¬∃ item, w.db.items.getByRemoteId change.fileId = some item ∧ item.trashedAt = none ∧
        (∀ rel, change.relativePath = some rel → rel = item.relativePath) ∧
          sameFingerprint item file md5 = false ∧ BothChanged env item md5 w ∧
            Unnameable item.relativePath w := by
  simp only [outcome, applyFile, Prog.bind_eq, sql, Prog.lift_bind, Prog.run_call, named_db,
    DbCall.run]
  cases hrow : w.db.items.getByRemoteId change.fileId with
  | none => simpa using ok_applyNewFile
  | some item =>
    simp only [Option.some.injEq, exists_eq_left']
    by_cases hdead : item.trashedAt ≠ none
    · simpa only [if_pos hdead, hdead, false_and, not_false_iff, iff_true] using
        ok_applyRestored hrow
    · simp only [not_not.mp hdead, true_and]
      cases hpath : change.relativePath with
      | none => simpa using applyEdited_ok_iff hrow
      | some rel =>
        by_cases hmoved : rel ≠ item.relativePath
        · simpa [hmoved] using ok_applyMoved hrow
        · simpa [not_not.mp hmoved] using applyEdited_ok_iff hrow

end Branches

variable {change : RemoteChange} {file : FileResource} {w : World}

/-- **A change of a live object** is applied unless it cannot be. -/
lemma applyPresent_ok_iff :
    (outcome env (applyPresent env change file) w).1 = .ok () ↔
      ¬(file.trashed = false ∧ file.isFolder = false ∧ Unappliable env change file w) := by
  unfold applyPresent
  cases htrashed : file.trashed with
  | true => simpa using ok_applyTrashed change.fileId
  | false =>
    cases hfolder : file.isFolder with
    | true => simpa using ok_applyFolder change.fileId
    | false =>
      cases hnative : Shortcut.isNative file.mimeType with
      | true =>
        have hstuck : Unappliable env change file w ↔
            w.db.items.getByRemoteId change.fileId = none ∧ ∃ r ∈ w.db.items,
              r.relativePath = Shortcut.relativePath (change.path file) file.mimeType := by
          constructor
          · rintro (⟨-, hfresh, hrow⟩ | ⟨hregular⟩)
            · exact ⟨hfresh, hrow⟩
            · rw [hnative] at hregular
              cases hregular
          · exact fun ⟨hfresh, hrow⟩ => .taken hnative hfresh hrow
        simpa [hstuck] using applyNative_ok_iff change.fileId
      | false =>
        have hstuck : Unappliable env change file w ↔
            ∃ md5, file.md5 = some md5 ∧
              ∃ item, w.db.items.getByRemoteId change.fileId = some item ∧
                item.trashedAt = none ∧
                  (∀ rel, change.relativePath = some rel → rel = item.relativePath) ∧
                    sameFingerprint item file md5 = false ∧ BothChanged env item md5 w ∧
                      Unnameable item.relativePath w := by
          constructor
          · rintro (⟨hbad, -, -⟩ | ⟨-, hmd5, hrow, hlive, hunmoved, hdiffers, hboth, hblocked⟩)
            · rw [hnative] at hbad
              cases hbad
            · exact ⟨_, hmd5, _, hrow, hlive, hunmoved, hdiffers, hboth, hblocked⟩
          · rintro ⟨md5, hmd5, item, hrow, hlive, hunmoved, hdiffers, hboth, hblocked⟩
            exact .unnameable hnative hmd5 hrow hlive hunmoved hdiffers hboth hblocked
        cases hmd5 : file.md5 with
        | none => simp [hstuck, hmd5]
        | some md5 => simpa [hstuck, hmd5] using applyFile_ok_iff

/-- **A change** is applied unless it is poisonous. -/
lemma applyRemote_ok_iff :
    (outcome env (applyRemote env change) w).1 = .ok () ↔ ¬Poisonous env change w := by
  simp only [outcome, applyRemote, Prog.bind_eq, Prog.lift_bind, Prog.run_call, named_inFlight,
    Poisonous]
  by_cases hflying : w.inFlight.contains change.fileId = true
  · simp only [hflying, if_true, Prog.pure_eq, Prog.run_pure]
    simp
  · have hidle : w.inFlight.contains change.fileId = false := by simpa using hflying
    simp only [hidle, Bool.false_eq_true, if_false, true_and]
    cases hremoved : change.removed with
    | true => simpa using ok_applyRemoved change.fileId
    | false =>
      cases hfile : change.file with
      | none => simp
      | some file => simpa using applyPresent_ok_iff env

/-! ## Batches -/

/-- A batch meets a poisonous change, when each change meets the state that those before it
left. -/
def Poisoned (env : Env) : List RemoteChange → World → Prop
  | [], _ => False
  | c :: changes, w =>
    Poisonous env c w ∨ Poisoned env changes (outcome env (applyRemote env c) w).2

/-- **The changes of a batch**, one after the other: all of them were applied unless the batch is
poisoned. -/
lemma foldM_applyNext (changes : List RemoteChange) (w : World) (all : Bool) :
    (¬Poisoned env changes w ∧ ∃ w', outcome env (.foldM changes (Consumer.applyNext env) all) w =
        (.ok all, w')) ∨
      Poisoned env changes w ∧ ∃ w', outcome env (.foldM changes (Consumer.applyNext env) all) w =
        (.ok false, w') := by
  induction changes generalizing w all with
  | nil => exact .inl ⟨id, w, rfl⟩
  | cons c changes ih =>
    have happlied := @applyRemote_ok_iff env c w
    simp only [outcome, Prog.foldM_cons, Consumer.applyNext, Prog.bind_eq, Prog.bind_assoc,
      Poisoned]
    rw [Prog.run_bind_ok _ (Prog.run_attempt _ _ _)]
    cases hres : (outcome env (applyRemote env c) w).1 with
    | ok =>
      have hgood : ¬Poisonous env c w := happlied.mp hres
      simpa only [hgood, false_or, Prog.pure_eq, Prog.pure_bind] using ih _ all
    | error e =>
      have hbad : Poisonous env c w := by
        by_contra hgood
        rw [happlied.mpr hgood] at hres
        cases hres
      simp only [hbad, true_or, not_true_eq_false, false_and, true_and, false_or]
      rcases ih (outcome env (applyRemote env c) w).2 false with ⟨-, hend⟩ | ⟨-, hend⟩
      · exact hend
      · exact hend

/-- Applying a change leaves the cursor where it is. -/
lemma within_changes (changes : List RemoteChange) (all : Bool) :
    Within (fun e => e ≠ .cursor) (.foldM changes (Consumer.applyNext env) all) := by
  refine Within.foldM fun c _ applied => ?_
  have hchange : Within (fun e => e ≠ .cursor) (applyRemote env c) :=
    (handled_applyRemote (by simp) (by simp) (by simp) (by simp) (by simp)).within
  refine hchange.attempt.bind fun res => ?_
  cases res <;> trivial

/-- A program that never moves the cursor leaves it where it is on every filesystem. -/
lemma cursor_outcome {α : Type} {p : Task α} (h : Within (fun e => e ≠ .cursor) p) :
    (outcome env p w).2.db.cursor = w.db.cursor := by
  have hsafe : p.Safe (handleNamed env) (.solo fun _ => True)
      (fun _ s => s.db.cursor = w.db.cursor) w := by
    refine h.safe (fun β c s hc _ hs => ⟨trivial, ?_⟩) rfl
    rcases named_cases env c s with hsame | hsame
    · rw [hsame, cursor_handle fun he => hc _ he rfl]
      exact hs
    · rw [hsame]
      exact hs
  exact (hsafe.run trivial).2

/-- **The cursor** moves past a batch unless the batch is poisoned. -/
lemma cursor_applyBatch {batch : RemoteBatch} :
    (¬Poisoned env batch.changes w →
        (outcome env (Consumer.applyBatch env batch) w).2.db.cursor = some batch.newToken) ∧
      (Poisoned env batch.changes w →
        (outcome env (Consumer.applyBatch env batch) w).2.db.cursor = w.db.cursor) := by
  simp only [outcome, Consumer.applyBatch, Prog.bind_eq]
  rcases foldM_applyNext env batch.changes w true with
    ⟨hclean, w', hrun⟩ | ⟨hpoisoned, w', hrun⟩
  · rw [Prog.run_bind_ok _ hrun]
    exact ⟨fun _ => rfl, fun hpoisoned => absurd hpoisoned hclean⟩
  · rw [Prog.run_bind_ok _ hrun]
    refine ⟨fun hclean => absurd hpoisoned hclean, fun _ => ?_⟩
    have hstays := cursor_outcome env (w := w) (within_changes env batch.changes true)
    rw [hrun] at hstays
    exact hstays

/-- **No poison change, except two kinds**: a change is applied exactly when it is neither a new
native document whose pointer's path is taken nor one of a file that changed on both sides and
cannot be moved aside; and a batch moves the cursor exactly when it meets no such change. -/
theorem applied_unless_poisonous (env : Env) :
    (∀ change w, ((applyRemote env change).run (handleNamed env) w).1 = .ok () ↔
        ¬Poisonous env change w) ∧
      ∀ (batch : RemoteBatch) w,
        (¬Poisoned env batch.changes w →
          ((Consumer.applyBatch env batch).run (handleNamed env) w).2.db.cursor =
            some batch.newToken) ∧
        (Poisoned env batch.changes w →
          ((Consumer.applyBatch env batch).run (handleNamed env) w).2.db.cursor = w.db.cursor) :=
  ⟨fun _ _ => applyRemote_ok_iff env, fun _ _ => cursor_applyBatch env⟩

/-! ## Two documents of one name -/

/-- The document `Notes` in the mapped folder, under an id. -/
def notes (n : ℕ) : RemoteChange :=
  ⟨.id n, false, some ⟨.id n, "Notes", "application/vnd.google-apps.document", none, none,
    [.id 2], false⟩, some ["Notes"]⟩

/-- The state after a delivery of the two documents. -/
def deliverNotes (w : World) : World :=
  (outcome .plain (Consumer.applyBatch .plain ⟨[notes 3, notes 4], 2⟩) w).2

/-- Once the first document has arrived, the second one fails at each delivery, and the cursor
never moves. -/
theorem second_document_poisons :
    ((applyRemote .plain (notes 4)).run (handleNamed .plain)
        (deliverNotes (World.fresh (sampleDrive [65])))).1 = .error (.sqlite .unique) ∧
      ¬∃ n, (deliverNotes^[n] (World.fresh (sampleDrive [65]))).db.cursor ≠ none := by
  refine ⟨by decide +kernel, ?_⟩
  rintro ⟨n, hmoved⟩
  have hfixed : deliverNotes (deliverNotes (World.fresh (sampleDrive [65]))) =
      deliverNotes (World.fresh (sampleDrive [65])) := rfl
  cases n with
  | zero => exact hmoved rfl
  | succ n =>
    rw [Function.iterate_succ_apply, Function.iterate_fixed hfixed] at hmoved
    exact hmoved (by decide +kernel)

end AirDrive.Poison
