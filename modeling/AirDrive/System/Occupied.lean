import AirDrive.Reconcile.Applied
import AirDrive.System.Drain

set_option relaxedAutoImplicit false
set_option autoImplicit false

/-!
# New objects whose path is taken

A change of an object that no row is bound to. When a row is already at the object's path, the
change is taken for the echo of a local create and nothing is queued; whether it is one depends
on that row.

## Main definitions

* `AirDrive.Occupied.Unknown` — a live object that the database does not know.
* `AirDrive.Occupied.LocalCreate` — a row that waits for its first upload or mkdir.
* `AirDrive.Occupied.HidesOnlyCreates` — only our own creates are hidden.

## Main results

* `AirDrive.Occupied.ends_silent_of_occupied` — a taken path silences the change, whatever the row is.
* `AirDrive.Occupied.hides_only_creates_iff` — only creates are hidden exactly when the path is
  free, and the object not in flight, or held by a create.
-/

namespace AirDrive.Occupied

open Effect Continuous

/-- A change of a live object in scope that no row is bound to. -/
structure Unknown (w : World) (c : RemoteChange) (f : FileResource) : Prop where
  /-- The change describes the object. -/
  change : c.fileId = f.id ∧ c.removed = false ∧ c.file = some f
  /-- The poller found its path. -/
  scope : c.relativePath.isSome
  /-- The object is not in the trash. -/
  live : f.trashed = false
  /-- Drive reports a digest of every regular file. -/
  digest : f.isFolder = false → Shortcut.isNative f.mimeType = false → f.md5.isSome
  /-- No row is bound to it. -/
  unknown : w.db.items.getByRemoteId f.id = none

/-- The path of an object's local copy. -/
def localPath (c : RemoteChange) (f : FileResource) : RelPath :=
  if f.isFolder = false ∧ Shortcut.isNative f.mimeType then
    Shortcut.relativePath (c.path f) f.mimeType
  else c.path f

/-- A live row that waits for its first upload or mkdir. -/
def LocalCreate (r : SyncItem) : Prop := r.remoteId = none ∧ r.trashedAt = none

/-- No operation was added to the queue. -/
def Silent (w w' : World) : Prop := ∀ o ∈ w'.db.ops, o ∈ w.db.ops

/-- The object is tracked under its own id, and present locally once the queue is drained. -/
def Arrives (env : Env) (root : FileId) (id : FileId) (w : World) : Prop :=
  (∃ r ∈ w.db.items, r.remoteId = some id) ∧
    ∀ w', Drains env root w w' → Drained w' →
      ∃ r ∈ w'.db.items, r.remoteId = some id ∧ r.trashedAt = none ∧
        w'.fs.node r.relativePath ≠ none

/-- Nothing is queued only for the echo of a local create, and an object whose path is held by
anything else still arrives. -/
def HidesOnlyCreates (env : Env) (root : FileId) (c : RemoteChange) (f : FileResource)
    (w : World) : Prop :=
  (Silent w (runTask env (applyRemote env c) w).2 →
      ∃ r, w.db.items.getByRelativePath (localPath c f) = some r ∧ LocalCreate r) ∧
    ∀ r, w.db.items.getByRelativePath (localPath c f) = some r → ¬LocalCreate r →
      Arrives env root f.id (runTask env (applyRemote env c) w).2

variable {env : Env} {root : FileId} {w : World} {c : RemoteChange} {f : FileResource}

/-- **A taken path silences the change**, whatever the row at it is: a folder and a regular file
are passed over, and the row of a pointer file cannot be inserted. -/
lemma ends_silent_of_occupied (h : Unknown w c f) {r : SyncItem}
    (hr : w.db.items.getByRelativePath (localPath c f) = some r) :
    Ends env (fun _ w' => Silent w w') (applyPresent env c f) w := by
  obtain ⟨hid, -, -⟩ := h.change
  have hsame : Silent w w := fun o ho => ho
  unfold applyPresent
  rw [h.live, if_neg (by simp)]
  cases hfolder : f.isFolder with
  | true =>
    simp only [localPath, hfolder, Bool.true_eq_false, false_and, if_false] at hr
    simp only [if_true, Ends, applyFolder, Prog.bind_eq, Prog.safe_bind, safe_sql, DbCall.run, hid,
      h.unknown, hr, true_and, forall_const]
    exact hsame
  | false =>
    cases hnative : Shortcut.isNative f.mimeType with
    | true =>
      simp only [localPath, hfolder, hnative, and_self, if_true] at hr
      have hfull : w.db.insertItem (pointer (Shortcut.relativePath (c.path f) f.mimeType) f.id) =
          (.error (.sqlite .unique), w.db) := by
        rw [Db.insertItem, dif_neg]
        intro hfree
        rw [show (pointer (Shortcut.relativePath (c.path f) f.mimeType) f.id).relativePath =
          Shortcut.relativePath (c.path f) f.mimeType from rfl, hr] at hfree
        cases hfree
      simp only [Bool.false_eq_true, if_false, if_true, Ends, applyNative, Prog.bind_eq,
        Prog.safe_bind, safe_sql, safe_sqlTry, DbCall.run, hid, h.unknown, hfull, true_and,
        forall_const]
      exact hsame
    | false =>
      simp only [localPath, hfolder, hnative, Bool.false_eq_true, and_false, if_false] at hr
      obtain ⟨md5, hmd5⟩ := Option.isSome_iff_exists.mp (h.digest hfolder hnative)
      simp only [Bool.false_eq_true, if_false, hmd5, Ends, applyFile, applyNewFile, Prog.bind_eq,
        Prog.safe_bind, safe_sql, DbCall.run, hid, h.unknown, hr, true_and, forall_const]
      exact hsame

/-- Queueing an operation for a row that is inserted at a free path. -/
lemma ends_insert_enqueue {new : NewSyncItem} {op : Operation} (payload : ItemId → Option Payload)
    (hfree : w.db.items.getByRelativePath new.relativePath = none) :
    Ends env (fun _ w' => ¬Silent w w')
      ((sqlTry (.insertItem new)).bind fun id => enqueueOp id op (payload id)) w := by
  obtain ⟨hinserted, hrow⟩ := Db.insertItem_of_free hfree
  have hops : (w.db.insertItem new).2.ops = w.db.ops :=
    DbCall.ops_run_eq (c := .insertItem new) rfl rfl
  have hitem : ∃ r ∈ (w.db.insertItem new).2.items, r.id = w.db.items.nextId :=
    ⟨_, (hrow _).mpr (.inr rfl), rfl⟩
  simp only [Ends, Prog.safe_bind, safe_sqlTry, DbCall.run, hinserted, true_and, forall_const]
  refine ends_enqueueOp hitem fun hsilent => ?_
  have hold := hsilent _ ((mem_queued hitem).mpr (.inr rfl))
  rw [← hops] at hold
  exact nextOp_not_mem (w := { w with db := (w.db.insertItem new).2 }) hold

/-- A change that finds its path free queues the work for the new object. -/
lemma ends_not_silent_of_free (h : Unknown w c f)
    (hfree : w.db.items.getByRelativePath (localPath c f) = none) :
    Ends env (fun _ w' => ¬Silent w w') (applyPresent env c f) w := by
  obtain ⟨hid, -, -⟩ := h.change
  unfold applyPresent
  rw [h.live, if_neg (by simp)]
  cases hfolder : f.isFolder with
  | true =>
    simp only [localPath, hfolder, Bool.true_eq_false, false_and, if_false] at hfree
    rw [if_pos rfl, applyFolder, Ends, Prog.bind_eq, Prog.safe_bind, safe_sql]
    refine fun _ => ⟨trivial, ?_⟩
    simp only [DbCall.run, hid, h.unknown, Prog.bind_eq]
    rw [Prog.safe_bind, safe_sql]
    refine fun _ => ⟨trivial, ?_⟩
    simp only [DbCall.run, hfree]
    exact ends_insert_enqueue (fun _ => none) hfree
  | false =>
    cases hnative : Shortcut.isNative f.mimeType with
    | true =>
      simp only [localPath, hfolder, hnative, and_self, if_true] at hfree
      rw [if_neg (by simp), if_pos rfl, applyNative, Ends, Prog.bind_eq, Prog.safe_bind, safe_sql]
      refine fun _ => ⟨trivial, ?_⟩
      simp only [DbCall.run, hid, h.unknown]
      exact ends_insert_enqueue
        (fun _ => some (.shortcut ⟨Shortcut.content f.mimeType f.id⟩)) hfree
    | false =>
      simp only [localPath, hfolder, hnative, Bool.false_eq_true, and_false, if_false] at hfree
      obtain ⟨md5, hmd5⟩ := Option.isSome_iff_exists.mp (h.digest hfolder hnative)
      rw [if_neg (by simp), if_neg (by simp), hmd5]
      simp only [applyFile, Ends, Prog.bind_eq]
      rw [Prog.safe_bind, safe_sql]
      refine fun _ => ⟨trivial, ?_⟩
      simp only [DbCall.run, hid, h.unknown, applyNewFile, Prog.bind_eq]
      rw [Prog.safe_bind, safe_sql]
      refine fun _ => ⟨trivial, ?_⟩
      simp only [DbCall.run, hfree]
      exact ends_insert_enqueue (fun _ => some (.download ⟨f.id, f.size.getD 0, md5,
        c.path f⟩)) hfree

/-- **Only our own creates are hidden** exactly when the object's path is held by one, or is free
and no guard holds the object.

**Proof sketch.** Under any other row, or in flight, the change is silent, so something else than
a create is hidden. With a free path and no guard it is not silent, and a create at the path is
what may be hidden. -/
theorem hides_only_creates_iff (h : Unknown w c f) :
    HidesOnlyCreates env root c f w ↔
      (∃ r, w.db.items.getByRelativePath (localPath c f) = some r ∧ LocalCreate r) ∨
        (w.db.items.getByRelativePath (localPath c f) = none ∧
          w.inFlight.contains c.fileId = false) := by
  obtain ⟨-, hremoved, hfile⟩ := h.change
  constructor
  · rintro ⟨hsilent, -⟩
    by_cases hcreate : ∃ r, w.db.items.getByRelativePath (localPath c f) = some r ∧ LocalCreate r
    · exact .inl hcreate
    · right
      have hflight : w.inFlight.contains c.fileId = false := by
        by_contra hflight
        exact hcreate (hsilent (ends_applyRemote_inFlight (Q := fun _ w' => Silent w w')
          (by simpa using hflight) fun o ho => ho).run)
      refine ⟨?_, hflight⟩
      cases hr : w.db.items.getByRelativePath (localPath c f) with
      | none => rfl
      | some r =>
        exact absurd (hsilent (ends_applyRemote_present hflight hremoved hfile
          (ends_silent_of_occupied h hr)).run) hcreate
  · rintro (⟨r, hr, hcreate⟩ | ⟨hfree, hflight⟩)
    · refine ⟨fun _ => ⟨r, hr, hcreate⟩, fun r' hr' hother => ?_⟩
      rw [hr] at hr'
      obtain rfl := Option.some.inj hr'
      exact absurd hcreate hother
    · refine ⟨fun hsilent => ?_, fun r hr => ?_⟩
      · exact absurd hsilent (ends_applyRemote_present hflight hremoved hfile
          (ends_not_silent_of_free h hfree)).run
      · rw [hfree] at hr
        cases hr

/-! ## A file that replaces a trashed one -/

/-- The file `a.txt` (3) of the sample is in the trash, and another `a.txt` (4) was uploaded. -/
def secondDrive : Drive where
  files :=
    ⟨⟨[⟨1, "My Drive", folderMime, none, [], false, true, true⟩,
       ⟨2, "Sync", folderMime, none, [1], false, true, true⟩,
       ⟨3, "a.txt", "text/plain", some [65], [2], true, true, true⟩,
       ⟨4, "a.txt", "text/plain", some [66], [2], false, true, true⟩],
      by decide⟩, 5, by decide⟩
  rootNum := 1
  feed := [(3, false), (3, false), (4, false)]

/-- The description of one of the two files. -/
def fileA (num : ℕ) (content : Bytes) (trashed : Bool) : FileResource :=
  ⟨.id num, "a.txt", "text/plain", some content.length, some (Env.plain.md5 content), [.id 2],
    trashed⟩

/-- The change that delivers it. -/
def changeA (num : ℕ) (content : Bytes) (trashed : Bool) : RemoteChange :=
  ⟨.id num, false, some (fileA num content trashed), some ["a.txt"]⟩

/-- The first file is trashed, and its local copy is removed. -/
def afterTrash : List Action :=
  [.outside { sampleSynced with remote := ⟨secondDrive, []⟩ },
    .job (.batch ⟨[changeA 3 [65] true], 2⟩) 100, .job (.drain (.id 2)) 100]

/-- The tombstone of the first file hides the second one, which is not an echo of anything. -/
theorem tombstone_hides_new_file :
    ∃ w r, Runs .plain (fun _ _ => True) (World.fresh (sampleDrive [65])) w ∧
      Unknown w (changeA 4 [66] false) (fileA 4 [66] false) ∧
      w.db.items.getByRelativePath ["a.txt"] = some r ∧ r.remoteId = some (.id 3) ∧
      r.trashedAt = some 0 ∧
      ¬HidesOnlyCreates .plain (.id 2) (changeA 4 [66] false) (fileA 4 [66] false) w := by
  have hfirst : Runs .plain (fun _ _ => True) (World.fresh (sampleDrive [65])) sampleSynced :=
    Runs.start.performAll ⟨trivial, trivial, trivial⟩
  have hrun : Runs .plain (fun _ _ => True) (World.fresh (sampleDrive [65]))
      (performAll .plain afterTrash sampleSynced) :=
    hfirst.performAll ⟨trivial, trivial, trivial, trivial⟩
  have hunknown : Unknown (performAll .plain afterTrash sampleSynced) (changeA 4 [66] false)
      (fileA 4 [66] false) :=
    ⟨⟨rfl, rfl, rfl⟩, rfl, rfl, fun _ _ => rfl, by decide⟩
  have hrow : (performAll .plain afterTrash sampleSynced).db.items.getByRelativePath ["a.txt"] =
      some ⟨1, ["a.txt"], .file, some (.id 3), some 1, some "A", .pendingLocal, some 0⟩ := by decide
  refine ⟨_, _, hrun, hunknown, hrow, rfl, rfl, fun h => ?_⟩
  obtain ⟨r, hr, hcreate, -⟩ := h.1 (ends_applyRemote_present (by decide) rfl rfl
    (ends_silent_of_occupied hunknown hrow)).run
  obtain rfl := Option.some.inj (hrow.symm.trans hr)
  cases hcreate

/-- The first file comes to a free path. -/
theorem first_file_not_hidden :
    HidesOnlyCreates .plain (.id 2) (changeA 3 [65] false) (fileA 3 [65] false)
      (World.fresh (sampleDrive [65])) :=
  (hides_only_creates_iff ⟨⟨rfl, rfl, rfl⟩, rfl, rfl, fun _ _ => rfl, by decide⟩).mpr
    (.inr ⟨by decide, by decide⟩)

end AirDrive.Occupied
