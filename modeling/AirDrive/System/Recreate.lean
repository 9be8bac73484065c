import AirDrive.Daemon.Places
import AirDrive.Reconcile.Applied
import AirDrive.System.Drain
import AirDrive.System.Run

set_option relaxedAutoImplicit false
set_option autoImplicit false

/-!
# Delete and re-create

A tracked path is deleted and then created again with new bytes, between steps of the dispatcher in
any order. The create is queued on the row at the path: on a new row when the old one is gone, and
otherwise on a row that its own deletion on Drive is still going to drop, or on a tombstone. With
the old row gone, the new bytes reach Drive.

## Main definitions

* `AirDrive.Recreate.Step`, `AirDrive.Recreate.Runs` — the two events, steps of the dispatcher and
  what happens elsewhere.
* `AirDrive.Recreate.Vacated` — the condition: no row is left when the create is applied.
* `AirDrive.Recreate.Inv` — the row of the create, before and after its upload.

## Main results

* `AirDrive.Recreate.inv_created`, `AirDrive.Recreate.Inv.drain` — the invariant of the steps.
* `AirDrive.Recreate.recreated_file_arrives` — once the queue has drained, the new bytes are on
  Drive.
-/

namespace AirDrive.Recreate

open Effect Outcomes

variable {env : Env} {root : FileId} {p : RelPath} {b : Bytes} {w w' : World} {s : SyncItem}

/-! ## Runs -/

/-- How far the two events have come. -/
inductive Stage
  | tracked
  | deleted
  | created
deriving DecidableEq, Repr

/-- What leaves the path alone: its rows and their operations, the local file, and the object at
the path. -/
structure Spares (root : FileId) (p : RelPath) (w w' : World) : Prop where
  rows : ∀ s : SyncItem, s.relativePath = p → (s ∈ w'.db.items ↔ s ∈ w.db.items)
  ops : ∀ s ∈ w.db.items, s.relativePath = p → ∀ o : PendingOperation, o.syncItemId = s.id →
    (o ∈ w'.db.ops ↔ o ∈ w.db.ops)
  file : w'.fs.node p = w.fs.node p
  object : ∀ f, ObjectAt w.remote.drive root p f →
    ∃ f', ObjectAt w'.remote.drive root p f' ∧ f'.num = f.num ∧ f'.content = f.content

/-- What can happen. -/
inductive Event
  /-- The watcher reports that the path was deleted. -/
  | deleted
  /-- The watcher reports that the path was created. -/
  | created
  /-- The dispatcher takes an operation. -/
  | drain
  /-- Something else happens. -/
  | elsewhere (w' : World)

/-- One step. After the create only operations of the path's row count as steps of the dispatcher;
all other work happens elsewhere, and leaves the path alone. -/
inductive Step (env : Env) (root : FileId) (p : RelPath) (b : Bytes) :
    Event → World × Stage → World × Stage → Prop
  | deleted {w : World} : Step env root p b .deleted (w, .tracked)
      ((runTask env (Continuous.applyLocal (.deleted p)) w).2, .deleted)
  | created {w : World} (bytes : w.fs.node p = some (.file b)) :
    Step env root p b .created (w, .deleted)
      ((runTask env (Continuous.applyLocal (.created p)) w).2, .created)
  | drain {w : World} {stage : Stage} (own : stage = .created →
      ∀ o, OpTable.nextDue w.db.ops w.now = some o →
        ∃ s ∈ w.db.items, s.relativePath = p ∧ s.id = o.syncItemId) :
    Step env root p b .drain (w, stage)
      ((runTask env (Dispatcher.drainOne env root) w).2, stage)
  | elsewhere {w w' : World} {stage : Stage}
      (spares : stage = .created → Spares root p w w') :
    Step env root p b (.elsewhere w') (w, stage) (w', stage)

/-- The states reached by steps that meet a condition in the state before them. -/
inductive Runs (env : Env) (root : FileId) (p : RelPath) (b : Bytes)
    (ok : World → Event → Prop) (s₀ : World × Stage) : World × Stage → Prop
  | start : Runs env root p b ok s₀ s₀
  | step {s s' : World × Stage} {e : Event} (run : Runs env root p b ok s₀ s)
    (meets : ok s.1 e) (next : Step env root p b e s s') : Runs env root p b ok s₀ s'

/-- When the create is applied, the path has no row: its deletion on Drive was executed, and it
was no tombstone. -/
def Vacated (p : RelPath) (w : World) : Event → Prop
  | .created => w.db.items.getByRelativePath p = none
  | _ => True

/-- The path is tracked by a live row with the fingerprint of the bytes, and a live object at the
path holds them. -/
def Arrived (env : Env) (root : FileId) (p : RelPath) (b : Bytes) (w : World) : Prop :=
  ∃ s ∈ w.db.items, s.relativePath = p ∧ s.trashedAt = none ∧ Placed env root s b w

/-! ## The row of the create -/

/-- A live row at the path, where the local file has the new bytes. -/
structure Live (p : RelPath) (b : Bytes) (s : SyncItem) (w : World) : Prop where
  file : w.fs.node p = some (.file b)
  row : s ∈ w.db.items
  path : s.relativePath = p
  live : s.trashedAt = none

/-- The row has never been uploaded, and an operation of it is queued. -/
def Waiting (s : SyncItem) (w : World) : Prop :=
  s.md5 = none ∧ s.remoteId = none ∧ ∃ o ∈ w.db.ops, o.syncItemId = s.id

/-- The invariant after the create: only uploads are queued for the row, and the first of them is
still to come or has put the bytes on Drive. -/
structure Inv (env : Env) (root : FileId) (p : RelPath) (b : Bytes) (s : SyncItem) (w : World) :
    Prop where
  live : Live p b s w
  uploads : ∀ o ∈ w.db.ops, o.syncItemId = s.id → o.op = .upload
  stands : Waiting s w ∨ Placed env root s b w

/-- **The create** of a path without a row: a new row, with its upload queued. -/
lemma inv_created (hbytes : w.fs.node p = some (.file b))
    (hnone : w.db.items.getByRelativePath p = none) :
    ∃ s, Inv env root p b s (runTask env (Continuous.applyLocal (.created p)) w).2 := by
  refine Ends.run (Q := fun _ w' => ∃ s, Inv env root p b s w') ?_
  refine Continuous.ends_applyCreated_file hbytes ?_
  refine Continuous.ends_enqueueLocalFile_untracked hnone ?_
  obtain ⟨-, hmem⟩ := @Db.insertItem_of_free w.db (Continuous.localCreate p .file) hnone
  have hops : (w.db.insertItem (Continuous.localCreate p .file)).2.ops = w.db.ops :=
    DbCall.ops_run_eq (c := .insertItem (Continuous.localCreate p .file)) rfl rfl
  set v : World := { w with db := (w.db.insertItem (Continuous.localCreate p .file)).2 } with hv
  have hrow : (Continuous.localCreate p .file).withId w.db.items.nextId ∈ v.db.items :=
    (hmem _).mpr (.inr rfl)
  have hqueue := fun o => @Continuous.mem_queued v w.db.items.nextId .upload none ⟨_, hrow, rfl⟩ o
  refine ⟨(Continuous.localCreate p .file).withId w.db.items.nextId, ⟨hbytes, ?_, rfl, rfl⟩,
    fun o ho hitem => ?_, .inl ⟨rfl, rfl, Continuous.nextOp v w.db.items.nextId .upload none, ?_,
      rfl⟩⟩
  · rw [Continuous.queued_items]
    exact hrow
  · rcases (hqueue o).mp ho with ho | rfl
    · -- no operation of an earlier row has the new id
      rw [hv, hops] at ho
      obtain ⟨r, hr, hid⟩ := w.db.ops_owned o ho
      exact absurd (hid.trans hitem) (ItemTable.id_lt hr).ne
    · rfl
  · exact (hqueue _).mpr (.inr rfl)

/-- **The upload of the row** puts the bytes on Drive, leaves the row as it is when it fails, and
does nothing when they are there. -/
lemma ends_upload (h : Inv env root p b s w) :
    Ends env (fun x w' => w'.db.ops = w.db.ops ∧ match x with
      | .ok _ => ∃ s', s'.id = s.id ∧ Live p b s' w' ∧ Placed env root s' b w'
      | .error _ => Live p b s w' ∧ (Placed env root s b w → Placed env root s b w'))
      (Dispatcher.executeUpload env root s) w := by
  obtain ⟨hlive, -, ⟨hmd5, hremote, -⟩ | hplaced⟩ := h
  · have hbytes : w.fs.node s.relativePath = some (.file b) := hlive.path ▸ hlive.file
    refine (ends_executeUpload_at hlive.row hbytes hmd5 hremote).mono fun x w' ⟨hfs, hops, hx⟩ =>
      ⟨hops, ?_⟩
    cases x with
    | ok u =>
      obtain ⟨rid, hrow, hplaced⟩ := hx
      exact ⟨uploaded env s b rid, rfl, ⟨hfs ▸ hlive.file, hrow, hlive.path, hlive.live⟩, hplaced⟩
    | error e =>
      refine ⟨⟨hfs ▸ hlive.file, hx, hlive.path, hlive.live⟩, fun hplaced => ?_⟩
      rw [hplaced.print.1] at hmd5
      cases hmd5
  · have hisFile : w.fs.isFile s.relativePath = true :=
      Fs.isFile_iff.mpr ⟨b, hlive.path ▸ hlive.file⟩
    have hread : w.fs.readFile s.relativePath = .ok b := by
      rw [Fs.readFile, hlive.path, hlive.file]
    simp only [Ends, Dispatcher.executeUpload, Prog.bind_eq, Prog.safe_bind, safe_io, FsCall.run,
      hisFile, if_true, Dispatcher.computeLocal, safe_ioTry, hread, Prog.pure_eq, Prog.safe_pure,
      hplaced.print, and_self, true_and, forall_const]
    exact ⟨s, rfl, hlive, hplaced⟩

/-! ## The dispatcher -/

/-- The retry data of the queue does not matter. -/
lemma Inv.retried (h : Inv env root p b s w) (hr : Retried w w') : Inv env root p b s w' := by
  refine ⟨⟨hr.fs ▸ h.live.file, hr.items ▸ h.live.row, h.live.path, h.live.live⟩,
    fun o' ho' hitem => ?_, ?_⟩
  · obtain ⟨o, ho, -, hsame, hop, -⟩ := hr.ops' o' ho'
    exact hop.symm.trans (h.uploads o ho (hsame.trans hitem))
  · rcases h.stands with ⟨hmd5, hremote, o, ho, hid⟩ | hplaced
    · obtain ⟨o', ho', -, hsame, -⟩ := hr.ops o ho
      exact .inl ⟨hmd5, hremote, o', ho', hsame.symm.trans hid⟩
    · refine .inr ⟨hplaced.print, ?_⟩
      rw [hr.drive]
      exact hplaced.object

/-- An upload that went well is taken from the queue. -/
lemma inv_completed {id : OpId} (hlive : Live p b s w) (hplaced : Placed env root s b w)
    (huploads : ∀ o ∈ w.db.ops, o.syncItemId = s.id → o.op = .upload)
    (hc : Completed id w w') : Inv env root p b s w' := by
  refine ⟨⟨hc.fs ▸ hlive.file, hc.items ▸ hlive.row, hlive.path, hlive.live⟩,
    fun o ho => huploads o ((hc.ops o).mp ho).1, .inr ⟨hplaced.print, ?_⟩⟩
  rw [hc.drive]
  exact hplaced.object

/-- **A step of the dispatcher** for the row. -/
lemma Inv.drain (h : Inv env root p b s w)
    (own : ∀ o, OpTable.nextDue w.db.ops w.now = some o →
      ∃ r ∈ w.db.items, r.relativePath = p ∧ r.id = o.syncItemId) :
    ∃ s', Inv env root p b s' (runTask env (Dispatcher.drainOne env root) w).2 := by
  rcases drainOne_cases env root w with ⟨-, hsame⟩ | ⟨op, hnext, hcase⟩
  · exact ⟨s, hsame.symm ▸ h⟩
  rcases hcase with ⟨-, hretried⟩ | ⟨-, x, w₁, hrun, hafter⟩
  · exact ⟨s, h.retried hretried⟩
  obtain ⟨hop, -⟩ := OpTable.nextDue_mem hnext
  have hitem : op.syncItemId = s.id := by
    obtain ⟨r, hr, hpath, hid⟩ := own op hnext
    rw [← hid, ItemTable.path_inj hr h.live.row (hpath.trans h.live.path.symm)]
  have hkind := h.uploads op hop hitem
  have hrow : w.db.items.getById op.syncItemId = some s :=
    ItemTable.getById_eq_some.mpr ⟨h.live.row, hitem.symm⟩
  have hexecute : (Dispatcher.execute env root op).run (handle env) w =
      (Dispatcher.executeUpload env root s).run (handle env) w := by
    simp only [Dispatcher.execute, sql, Prog.lift, Prog.bind_eq, Prog.call_bind, Prog.pure_bind,
      Prog.run_call, handle_db, DbCall.run, hrow, Dispatcher.executeItem, hkind]
  have hends := (ends_upload h).run
  rw [runTask, hexecute] at hrun
  rw [runTask, hrun] at hends
  obtain ⟨hops, hx⟩ := hends
  have huploads : ∀ o ∈ w₁.db.ops, o.syncItemId = s.id → o.op = .upload := hops ▸ h.uploads
  cases x with
  | ok u =>
    obtain ⟨s', hid, hlive, hplaced⟩ := hx
    exact ⟨s', inv_completed hlive hplaced (hid ▸ huploads) hafter⟩
  | error e =>
    obtain ⟨hlive, hplaced⟩ := hx
    have h₁ : Inv env root p b s w₁ := by
      refine ⟨hlive, huploads, h.stands.imp ?_ hplaced⟩
      rintro ⟨hmd5, hremote, o, ho, hid⟩
      exact ⟨hmd5, hremote, o, hops.symm ▸ ho, hid⟩
    exact ⟨s, h₁.retried hafter⟩

/-! ## All runs -/

/-- What happens elsewhere. -/
lemma Inv.elsewhere (h : Inv env root p b s w) (hs : Spares root p w w') :
    Inv env root p b s w' := by
  have hops := hs.ops s h.live.row h.live.path
  refine ⟨⟨hs.file.trans h.live.file, (hs.rows s h.live.path).mpr h.live.row, h.live.path,
    h.live.live⟩, fun o ho hitem => h.uploads o ((hops o hitem).mp ho) hitem, ?_⟩
  rcases h.stands with ⟨hmd5, hremote, o, ho, hid⟩ | hplaced
  · exact .inl ⟨hmd5, hremote, o, (hops o hid).mpr ho, hid⟩
  · obtain ⟨f, hbound, hcontent, hf⟩ := hplaced.object
    obtain ⟨f', hf', hnum, hsame⟩ := hs.object f (h.live.path ▸ hf)
    exact .inr ⟨hplaced.print, f', hnum ▸ hbound, hsame.trans hcontent, h.live.path.symm ▸ hf'⟩

/-- **Delete and re-create.** In every run in which the path is deleted and then created with new
bytes, between steps of the dispatcher in any order and everything else that leaves the path alone:
if no row is left at the path when the create is applied, then once the queue has drained the path
is tracked by a live row with the fingerprint of the bytes, and a live object at it holds them.

**Proof sketch.** The create makes a new row with a queued upload (`inv_created`), which stays or
puts the bytes on Drive (`Inv.drain`, `Inv.elsewhere`); an empty queue leaves only the second. -/
theorem recreated_file_arrives {w₀ : World}
    (hrun : Runs env root p b (Vacated p) (w₀, .tracked) (w, .created)) (hempty : Drained w) :
    Arrived env root p b w := by
  have hinv : ∀ x, Runs env root p b (Vacated p) (w₀, .tracked) x → x.2 = .created →
      ∃ s, Inv env root p b s x.1 := by
    intro x hx
    induction hx with
    | start => exact fun hstage => by cases hstage
    | step _ meets next ih =>
      intro hstage
      cases next with
      | deleted => cases hstage
      | created bytes => exact inv_created bytes meets
      | drain own =>
        obtain ⟨s, h⟩ := ih hstage
        exact h.drain (own hstage)
      | elsewhere spares =>
        obtain ⟨s, h⟩ := ih hstage
        exact ⟨s, h.elsewhere (spares hstage)⟩
  obtain ⟨s, hlive, -, ⟨-, -, o, ho, -⟩ | hplaced⟩ := hinv _ hrun rfl
  · exact absurd ho (hempty o)
  · exact ⟨s, hlive.row, hlive.path, hlive.live, hplaced⟩

/-! ## A small file -/

/-- The path is deleted, and the watcher's event is applied. -/
def deleted (w : World) : World :=
  (runTask .plain (Continuous.applyLocal (.deleted ["a.txt"])) (byUser (.removeFile ["a.txt"]) w)).2

/-- New bytes are written, and the watcher's event is applied. -/
def created (w : World) : World :=
  (runTask .plain (Continuous.applyLocal (.created ["a.txt"]))
    (byUser (.writeFile ["a.txt"] [66]) w)).2

/-- The dispatcher takes an operation. -/
def drained (w : World) : World := (runTask .plain (Dispatcher.drainOne .plain (.id 2)) w).2

lemma num_trashed (f : DriveFile) : { f with trashed := true }.num = f.num := rfl

/-- `a.txt` was trashed on Drive, and its local copy removed. -/
def sampleTombstone : World :=
  performAll .plain
    [.job (.batch ⟨[⟨.id 3, false, some ⟨.id 3, "a.txt", "text/plain", some 1, some "A", [.id 2],
      true⟩, some ["a.txt"]⟩], 2⟩) 100, .job (.drain (.id 2)) 100]
    { sampleSynced with remote :=
        ⟨sampleSynced.remote.drive.change 3 (fun f => { f with trashed := true }) num_trashed, []⟩ }

/-- What the dispatcher takes next belongs to the row of the path. -/
lemma own_of_map (n : ItemId)
    (h : (OpTable.nextDue w.db.ops w.now).map PendingOperation.syncItemId = some n)
    (hrow : (w.db.items.getByRelativePath p).map SyncItem.id = some n) :
    ∀ o, OpTable.nextDue w.db.ops w.now = some o →
      ∃ s ∈ w.db.items, s.relativePath = p ∧ s.id = o.syncItemId := by
  intro o ho
  cases hget : w.db.items.getByRelativePath p with
  | none => simp [hget] at hrow
  | some s =>
    obtain ⟨hs, hpath⟩ := ItemTable.getByRelativePath_eq_some.mp hget
    rw [ho] at h
    rw [hget] at hrow
    exact ⟨s, hs, hpath, (Option.some.inj hrow).trans (Option.some.inj h).symm⟩

/-- The two events, with the dispatcher at work after the second only. -/
lemma runs_at_once {w : World}
    (hbytes : (byUser (.writeFile ["a.txt"] [66]) (deleted w)).fs.node ["a.txt"] =
      some (.file [66])) :
    Runs .plain (.id 2) ["a.txt"] [66] (fun _ _ => True) (w, .tracked)
      (created (deleted w), .created) := by
  have hgone : Runs .plain (.id 2) ["a.txt"] [66] (fun _ _ => True) (w, .tracked)
      (deleted w, .deleted) :=
    .step (.step .start trivial (@Step.elsewhere _ _ _ _ _
      (byUser (.removeFile ["a.txt"]) w) _ fun h => by cases h)) trivial .deleted
  exact .step (.step hgone trivial (.elsewhere fun h => by cases h)) trivial (.created hbytes)

lemma drained_step (h : (OpTable.nextDue w.db.ops w.now).map PendingOperation.syncItemId = some 1)
    (hrow : (w.db.items.getByRelativePath ["a.txt"]).map SyncItem.id = some 1) :
    Step .plain (.id 2) ["a.txt"] [66] .drain (w, .created) (drained w, .created) :=
  .drain fun _ => own_of_map 1 h hrow

/-- `a.txt` is tracked, and it can be deleted and created again with new bytes that do not arrive. -/
def LosesNew (w : World) : Prop :=
  (∃ s ∈ w.db.items, s.relativePath = ["a.txt"]) ∧
    ∃ w', Runs .plain (.id 2) ["a.txt"] [66] (fun _ _ => True) (w, .tracked) (w', .created) ∧
      Drained w' ∧ ¬Arrived .plain (.id 2) ["a.txt"] [66] w'

/-- The file is created again while its deletion on Drive is queued, or while its row is a
tombstone. In the first case the deletion drops the row with the queued upload; in the second the
upload goes to the object in the trash. Either way the new bytes are not on Drive. -/
theorem early_recreate_lost : LosesNew sampleSynced ∧ LosesNew sampleTombstone := by
  suffices h : ∀ w ∈ [sampleSynced, sampleTombstone], LosesNew w from
    ⟨h _ (by simp), h _ (by simp)⟩
  intro w hw
  have hsynced : (drained (created (deleted sampleSynced))).db.items.rows = [] := by
    decide +kernel
  have htomb : (drained (created (deleted sampleTombstone))).db.items.rows.all
      fun s => s.trashedAt.isSome := by decide +kernel
  have hrow : ∀ v ∈ [sampleSynced, sampleTombstone],
      (v.db.items.getByRelativePath ["a.txt"]).isSome = true := by decide +kernel
  have hrun : Runs .plain (.id 2) ["a.txt"] [66] (fun _ _ => True) (w, .tracked)
      (drained (created (deleted w)), .created) := by
    simp only [List.mem_cons, List.not_mem_nil, or_false] at hw
    rcases hw with rfl | rfl
    · exact .step (runs_at_once (by decide +kernel)) trivial
        (drained_step (by decide +kernel) (by decide +kernel))
    · exact .step (runs_at_once (by decide +kernel)) trivial
        (drained_step (by decide +kernel) (by decide +kernel))
  obtain ⟨s, hs⟩ := Option.isSome_iff_exists.mp (hrow w hw)
  refine ⟨⟨s, ItemTable.getByRelativePath_eq_some.mp hs⟩, _, hrun, ?_, ?_⟩
  · simp only [List.mem_cons, List.not_mem_nil, or_false] at hw
    rcases hw with rfl | rfl
    · exact drained_of_rows (by decide +kernel)
    · exact drained_of_rows (by decide +kernel)
  · rintro ⟨r, hr, -, hlive, -⟩
    simp only [List.mem_cons, List.not_mem_nil, or_false] at hw
    rcases hw with rfl | rfl
    · rw [← ItemTable.mem_rows, hsynced] at hr
      cases hr
    · have hsome := List.all_eq_true.mp htomb r hr
      rw [hlive] at hsome
      cases hsome

/-- The file is created again after its deletion on Drive: its new bytes arrive. -/
theorem late_recreate_arrives :
    Arrived .plain (.id 2) ["a.txt"] [66] (drained (created (drained (deleted sampleSynced)))) := by
  have hgone : Runs .plain (.id 2) ["a.txt"] [66] (Vacated ["a.txt"]) (sampleSynced, .tracked)
      (deleted sampleSynced, .deleted) :=
    .step (.step .start (show Vacated _ _ (.elsewhere _) from trivial)
      (@Step.elsewhere _ _ _ _ _ (byUser (.removeFile ["a.txt"]) sampleSynced) _ fun h => by cases h))
      (show Vacated _ _ .deleted from trivial) .deleted
  have hdropped : Runs .plain (.id 2) ["a.txt"] [66] (Vacated ["a.txt"]) (sampleSynced, .tracked)
      (byUser (.writeFile ["a.txt"] [66]) (drained (deleted sampleSynced)), .deleted) :=
    .step (.step hgone (show Vacated _ _ .drain from trivial) (.drain fun h => by cases h))
      (show Vacated _ _ (.elsewhere _) from trivial) (.elsewhere fun h => by cases h)
  have hback : Runs .plain (.id 2) ["a.txt"] [66] (Vacated ["a.txt"]) (sampleSynced, .tracked)
      (created (drained (deleted sampleSynced)), .created) := by
    have hnone : (byUser (.writeFile ["a.txt"] [66])
      (drained (deleted sampleSynced))).db.items.getByRelativePath ["a.txt"] = none := by
        decide +kernel
    exact .step hdropped (show Vacated _ _ .created from hnone) (.created (by decide +kernel))
  have hown : ∀ o, OpTable.nextDue (created (drained (deleted sampleSynced))).db.ops
      (created (drained (deleted sampleSynced))).now = some o →
      ∃ s ∈ (created (drained (deleted sampleSynced))).db.items,
        s.relativePath = ["a.txt"] ∧ s.id = o.syncItemId := own_of_map 2 (by decide +kernel)
          (by decide +kernel)
  have hrun : Runs .plain (.id 2) ["a.txt"] [66] (Vacated ["a.txt"]) (sampleSynced, .tracked)
      (drained (created (drained (deleted sampleSynced))), .created) :=
    .step hback (show Vacated _ _ .drain from trivial) (.drain fun _ => hown)
  exact recreated_file_arrives hrun (drained_of_rows (by decide +kernel))

end AirDrive.Recreate
